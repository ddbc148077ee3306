import AgentsServer.Library.JsonLoads
import AgentsServer.Library.JsonSize
import AgentsServer.Library.Outcome

/-!
# Snapshots of a shared conversation

The checks of a snapshot, message by message, and its encoding. The number of bytes
is counted while the messages are checked and measured again on the encoding.
-/

namespace AgentsServer.PublicShares

open Library

def maxMessageTextBytes : Nat := 256 * 1024

def maxSnapshotBytes : Nat := 2 * 1024 * 1024

def maxSnapshotPageMessages : Nat := 100

def maxTitleCharacters : Nat := 256

def maxUnixTimestamp : Nat := 253402300799

def defaultTitle : String := "Shared conversation"

inductive Failure where
  /-- `PublicChatShareValidationError` -/
  | validation (message : String)
  /-- `PublicChatShareUnavailable` -/
  | unavailable
  /-- `sqlite3.IntegrityError` -/
  | integrityError
  /-- what another step raises -/
  | other (text : String)
  deriving DecidableEq

/-- A value that Python can hold and `json.dumps` can write. -/
structure Value [FloatText] where
  json : Json
  proper : json.Proper

/-- A finite number of Unix seconds. -/
def isTimestamp (literal : NumLit) : Bool :=
  literal.value?.any fun seconds => decide ((0 : Rat) ≤ seconds ∧ seconds ≤ (maxUnixTimestamp : Rat))

/-- `_timestamp`. -/
def timestamp (value : Json) (label : String) : Except Failure NumLit :=
  match value with
  | .num literal => do
      require (isTimestamp literal = true) (.validation (label ++ " must be finite Unix seconds."))
      pure literal
  | _ => .error (.validation (label ++ " must be finite Unix seconds."))

/-- `_utf8_size`. -/
def utf8Size (value label : String) (limit : Nat) : Except Failure Nat := do
  require (value.length ≤ limit) (.validation (label ++ " is too large."))
  let length := (utf8 value.toList).length
  require (length ≤ limit) (.validation (label ++ " is too large."))
  pure length

/-! ## Videos -/

def videoTypes : List String := ["video/mp4", "video/webm", "video/quicktime", "video/ogg"]

/-- `[A-Za-z0-9_-]`. -/
def isUrlSafe (c : Char) : Bool :=
  ('A' ≤ c && c ≤ 'Z') || ('a' ≤ c && c ≤ 'z') || c.isDigit || c == '_' || c == '-'

/-- `video_[A-Za-z0-9_-]+\.[a-f0-9]{64}`. -/
def isVideoId (value : String) : Bool :=
  match dropPrefix? "video_" value.toList with
  | none => false
  | some rest =>
      rest.takeWhile isUrlSafe != [] &&
        match rest.dropWhile isUrlSafe with
        | '.' :: digest => isHexOf 64 digest
        | _ => false

def isVideoName (name : String) : Bool :=
  decide (1 ≤ name.length ∧ name.length ≤ 255) && name != "." && name != ".." &&
    name.toList.all (fun c => decide (32 ≤ c.toNat) && c.toNat != 127 && c != '/' && c != '\\') &&
    decide ((utf8 name.toList).length ≤ 1024)

/-- The checks of one video descriptor; the identity that it adds to `seen`. -/
def videoIdentity (seen : List String) (item : Json) : Option String := do
  let fields ← item.obj?
  if Json.hasKeys ["id", "filename", "content_type", "size"] fields then
    let identity ← (Json.lookup fields "id").bind Json.str?
    let name ← (Json.lookup fields "filename").bind Json.str?
    let contentType ← (Json.lookup fields "content_type").bind Json.str?
    let size ← (Json.lookup fields "size").bind Json.int?
    if identity.length ≤ 1024 ∧ isVideoId identity = true ∧ identity ∉ seen ∧
      isVideoName name = true ∧ contentType ∈ videoTypes ∧ 0 < size ∧ size ≤ 2 ^ 53 - 1
    then some identity else none
  else none

/-- Every descriptor is valid and no identity is repeated. -/
def areVideos (seen : List String) : List Json → Bool
  | [] => true
  | item :: rest =>
      match videoIdentity seen item with
      | some identity => areVideos (identity :: seen) rest
      | none => false

/-- `normalize_shared_chat_videos`; a copy of each descriptor. -/
def normalizeSharedChatVideos (value : Json) : Option (List Json) := do
  let items ← value.arr?
  if items.length ≤ 32 ∧ areVideos [] items = true then some items else none

/-! ## Messages -/

/-- A projected message. No videos are the same as none. -/
structure Message where
  role : String
  text : String
  videos : List Json
  timestamp : Option NumLit

namespace Message

def fields (m : Message) : List (String × Json) :=
  [("role", .str m.role), ("text", .str m.text)] ++
    (if m.videos.isEmpty then [] else [("videos", .arr m.videos)]) ++
    (m.timestamp.map fun seconds => ("timestamp", Json.num seconds)).toList

def json (m : Message) : Json := .obj m.fields

/-- The bytes of a message in its page. -/
def size (m : Message) : Nat := (Json.dumps m.json).length

end Message

/-- What the loop of `_snapshot` has counted and projected. -/
structure Tally where
  totalBytes : Nat
  serializedBytes : Nat
  projected : List Message

def tooLarge : Failure := .validation "Snapshot is too large."

/-- The videos of a message. -/
def messageVideos (fields : List (String × Json)) : Except Failure (List Json) :=
  match Json.lookup fields "videos" with
  | none => pure []
  | some value =>
      required (normalizeSharedChatVideos value) (.validation "Invalid shared video metadata.")

/-- The time of a message. -/
def messageTimestamp (fields : List (String × Json)) : Except Failure (Option NumLit) :=
  match Json.lookup fields "timestamp" with
  | none => pure none
  | some value => (timestamp value "message timestamp").map some

/-- One round of the loop of `_snapshot`. -/
def Tally.add (tally : Tally) (message : Json) : Except Failure Tally := do
  let extra : Failure :=
    .validation "Messages may contain only role, text, timestamp, and videos."
  let fields ← required message.obj? extra
  require (∀ field ∈ fields, field.1 ∈ ["role", "text", "timestamp", "videos"]) extra
  let needed : Failure := .validation "Each message needs a user/assistant role and text."
  let role ← required ((Json.lookup fields "role").bind Json.str?) needed
  let text ← required ((Json.lookup fields "text").bind Json.str?) needed
  require (role = "user" ∨ role = "assistant") needed
  let textBytes ← utf8Size text "message text" maxMessageTextBytes
  let totalBytes := tally.totalBytes + textBytes
  require (totalBytes ≤ maxSnapshotBytes) tooLarge
  let videos ← messageVideos fields
  let timestamp ← messageTimestamp fields
  let item : Message := ⟨role, text, videos, timestamp⟩
  let serializedBytes :=
    tally.serializedBytes + item.size + if tally.projected.isEmpty then 0 else 1
  require (serializedBytes ≤ maxSnapshotBytes) tooLarge
  pure ⟨totalBytes, serializedBytes, tally.projected ++ [item]⟩

structure Snapshot where
  title : String
  createdAt : NumLit
  messages : List Message

def Snapshot.json (s : Snapshot) : Json :=
  .obj [("title", .str s.title), ("created_at", .num s.createdAt),
    ("messages", .arr (s.messages.map Message.json))]

/-- The bytes of a page without its messages. -/
def overhead (title : String) (createdAt : NumLit) : Nat :=
  (Json.dumps (Snapshot.json ⟨title, createdAt, []⟩)).length

/-- The title that a snapshot gets. -/
def checkTitle (title : Json) : Except Failure String := do
  let invalid : Failure := .validation "title must contain 1 to 256 characters."
  let title ← match title with
    | .null => pure defaultTitle
    | .str title => pure title
    | _ => .error invalid
  require (isBlank title = false ∧ title.length ≤ maxTitleCharacters) invalid
  pure title

/-- `_snapshot`. -/
def snapshot (messages title createdAt : Json) : Except Failure (Snapshot × Bytes) := do
  let title ← checkTitle title
  let titleBytes ← utf8Size title "title" (maxTitleCharacters * 4)
  let createdAt ← timestamp createdAt "created_at"
  let none : Failure := .validation "messages must contain at least one item."
  let items ← required messages.arr? none
  require (items ≠ []) none
  let tally ← items.foldlM Tally.add ⟨titleBytes, overhead title createdAt, []⟩
  let result : Snapshot := ⟨title, createdAt, tally.projected⟩
  let encoded := Json.dumps result.json
  require (encoded.length ≤ maxSnapshotBytes) tooLarge
  pure (result, encoded)

end AgentsServer.PublicShares

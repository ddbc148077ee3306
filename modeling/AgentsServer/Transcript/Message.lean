import AgentsServer.Library.JsonText
import AgentsServer.Transcript.Event

/-!
# Public messages

Video descriptors, timestamps and messages, and the bytes a message is written
as. The keys of each object are listed in sorted order, as `sort_keys=True`
writes them.
-/

namespace AgentsServer.Transcript

open Library

/-! ## Videos -/

/-- A shared video descriptor. The size is the literal of a positive integer. -/
structure Video where
  id : String
  filename : String
  contentType : String
  size : NumLit
  deriving DecidableEq

def isUrlSafe (c : Char) : Bool :=
  c.isAlphanum || c == '_' || c == '-'

/-- `VIDEO_ID`. -/
def isVideoId (id : String) : Bool :=
  match dropPrefix? "video_" id.toList with
  | none => false
  | some rest =>
      let name := rest.takeWhile isUrlSafe
      !name.isEmpty && (match rest.drop name.length with
        | '.' :: signature => isHexOf 64 signature
        | _ => false)

def isVideoFilename (name : String) : Bool :=
  decide (1 ≤ name.length ∧ name.length ≤ 255) && name != "." && name != ".." &&
    name.toList.all (fun c => !(decide (c.toNat < 32) || c.toNat == 127 || c == '/' || c == '\\'))
    && decide ((utf8 name.toList).length ≤ 1024)

def videoTypes : List String :=
  ["video/mp4", "video/webm", "video/quicktime", "video/ogg"]

def isVideoSize (size : NumLit) : Bool :=
  size.digits.all Char.isDigit && decide (0 < decimal size.digits ∧ decimal size.digits ≤ 2 ^ 53 - 1)

/-- One item of `normalize_shared_chat_videos`. -/
def video? (item : Json) : Option Video :=
  match item with
  | .obj fields =>
      match fields.lookup "id", fields.lookup "filename", fields.lookup "content_type",
        fields.lookup "size" with
      | some (.str id), some (.str filename), some (.str contentType), some (.num size) =>
          if fields.length = 4 ∧ id.length ≤ 1024 ∧ isVideoId id = true ∧
              isVideoFilename filename = true ∧ videoTypes.contains contentType = true ∧
              isVideoSize size = true then
            some { id, filename, contentType, size }
          else none
      | _, _, _, _ => none
  | _ => none

def normalizeSharedChatVideos : Json → Option (List Video)
  | .arr items => do
      guard (items.length ≤ 32)
      let videos ← items.mapM video?
      guard (videos.map Video.id).Nodup
      return videos
  | _ => none

def Video.json (video : Video) : Json :=
  .obj [("content_type", .str video.contentType), ("filename", .str video.filename),
    ("id", .str video.id), ("size", .num video.size)]

/-! ## Timestamps -/

/-- `datetime.fromisoformat(...).timestamp()` of an aware time, and the numbers
from zero to `MAX_UNIX_TIMESTAMP`. -/
class Times where
  fromisoformat : String → Option NumLit
  inRange : NumLit → Bool

/-- `_public_timestamp`. -/
def publicTimestamp [Times] : Json → Option NumLit
  | .str text =>
      if text.length ≤ 64 then
        let chars := text.toList
        let iso := if chars.getLast? = some 'Z'
          then String.ofList (chars.dropLast ++ "+00:00".toList) else text
        (Times.fromisoformat iso).filter Times.inRange
      else none
  | .num literal => if Times.inRange literal then some literal else none
  | _ => none

/-! ## Messages -/

inductive Role where
  | user
  | assistant
  deriving DecidableEq

def Role.text : Role → String
  | .user => "user"
  | .assistant => "assistant"

structure Message where
  role : Role
  text : String
  timestamp : Option NumLit
  videos : List Video
  deriving DecidableEq

/-- A message without a timestamp or without videos leaves the key out. -/
def Message.json (message : Message) : Json :=
  .obj ([("role", .str message.role.text), ("text", .str message.text)] ++
    (message.timestamp.toList.map fun literal => ("timestamp", .num literal)) ++
    (if message.videos = [] then [] else [("videos", .arr (message.videos.map Video.json))]))

def Message.chars (message : Message) : List Char :=
  message.json.render Json.escape

/-- `encoded_message`. -/
def Message.encoded (message : Message) : Bytes :=
  utf8 message.chars

theorem Video.json_inj {a b : Video} (h : a.json = b.json) : a = b := by
  cases a
  cases b
  simp only [Video.json, Json.obj.injEq, List.cons.injEq, Prod.mk.injEq, Json.str.injEq,
    Json.num.injEq, true_and, and_true] at h
  obtain ⟨rfl, rfl, rfl, rfl⟩ := h
  rfl

theorem Role.text_inj {a b : Role} (h : a.text = b.text) : a = b := by
  cases a <;> cases b <;> first | rfl | exact absurd h (by decide)

theorem Message.json_inj {a b : Message} (h : a.json = b.json) : a = b := by
  obtain ⟨role, text, timestamp, videos⟩ := a
  obtain ⟨role', text', timestamp', videos'⟩ := b
  simp only [Message.json, Json.obj.injEq, List.cons_append, List.nil_append, List.cons.injEq,
    Prod.mk.injEq, Json.str.injEq, true_and] at h
  obtain ⟨hrole, rfl, h⟩ := h
  obtain rfl := Role.text_inj hrole
  have hvideos : ∀ {xs ys : List Video}, xs.map Video.json = ys.map Video.json → xs = ys :=
    fun h => List.map_injective_iff.mpr (fun _ _ => Video.json_inj) h
  -- The keys after the text tell which of the two optional fields are there.
  cases timestamp with
  | none =>
      cases timestamp' with
      | none =>
          cases videos <;> cases videos' <;> simp at h
          · rfl
          · obtain ⟨hhead, htail⟩ := h
            rw [Video.json_inj hhead, hvideos htail]
      | some literal' => cases videos <;> simp at h
  | some literal =>
      cases timestamp' with
      | none => cases videos' <;> simp at h
      | some literal' =>
          cases videos <;> cases videos' <;> simp at h
          · rw [h]
          · obtain ⟨rfl, hhead, htail⟩ := h
            rw [Video.json_inj hhead, hvideos htail]

/-- The text of a list of messages without the closing bracket. -/
def opened : List Message → List Char
  | [] => ['[']
  | message :: rest => '[' :: (message.chars ++ rest.flatMap fun message => ',' :: message.chars)

theorem opened_append (messages : List Message) (message : Message) :
    opened (messages ++ [message]) =
      opened messages ++ (if messages = [] then [] else [',']) ++ message.chars := by
  cases messages with
  | nil => simp [opened]
  | cons first rest => simp [opened]

/-- With the bracket it is the JSON text of the array of messages. -/
theorem opened_close (messages : List Message) :
    opened messages ++ [']'] = Json.render Json.escape (.arr (messages.map Message.json)) := by
  have items : ∀ rest : List Message, (rest.flatMap fun message => ',' :: message.chars) ++ [']'] =
      Json.renderItems Json.escape (rest.map Message.json) := by
    intro rest
    induction rest with
    | nil => rfl
    | cons message rest ih =>
        rw [List.flatMap_cons, List.append_assoc, ih, List.map_cons, Json.renderItems,
          List.cons_append]
        rfl
  cases messages with
  | nil => rfl
  | cons message rest =>
      rw [opened, List.cons_append, List.append_assoc, items, List.map_cons, Json.render]
      rfl

theorem opened_inj {a b : List Message} (h : opened a ++ [']'] = opened b ++ [']']) : a = b := by
  rw [opened_close, opened_close] at h
  have hend : Json.Delimited [] := by
    intro c cs hc
    cases hc
  have hvalue := (Json.render_inj (.arr (a.map Message.json)) (.arr (b.map Message.json))
    hend hend (by rw [h])).1
  rw [Json.arr.injEq] at hvalue
  exact List.map_injective_iff.mpr (fun _ _ => Message.json_inj) hvalue

end AgentsServer.Transcript

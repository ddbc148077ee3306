import AgentsServer.Library.Crash
import AgentsServer.TeamHub.Messages
import Mathlib.Logic.Function.Basic

/-!
# Attachments

Declarations, chunked uploads and the reclamation of expired uploads, on the tables
and on the two kinds of files: an upload's staging file under its id, and content
under its digest. What the process hashes and unlinks is written down in the order it
happens.
-/

namespace AgentsServer.TeamHub

open Library

/-! ## Requests -/

/-- The two size limits of a host. -/
structure AttachmentLimits where
  maxBytes : Nat
  quotaBytes : Nat

def attachmentChunkBytes : Nat := 8388608

def attachmentUploadTtlSeconds : Nat := 86400

def attachmentReclaimBatch : Nat := 128

def attachmentCleanupBatch : Nat := 2 * attachmentReclaimBatch

/-- `TEAM_ATTACHMENT_FILE_NAME_RE` and the two checks after it. -/
def isAttachmentFileName (name : List Char) : Bool :=
  decide (1 ≤ name.length ∧ name.length ≤ 255) &&
    name.all (fun c => 32 ≤ c.toNat && c.toNat != 127 && c != '/' && c != '\\') &&
    strip name == name && name != ".".toList && name != "..".toList

def isMediaChar (c : Char) : Bool :=
  c.isAlphanum || "!#$&^_.+-".toList.contains c

/-- `TEAM_ATTACHMENT_MEDIA_TYPE_RE`. -/
def isMediaType (text : List Char) : Bool :=
  let kind := text.takeWhile isMediaChar
  decide (1 ≤ kind.length ∧ kind.length ≤ 64) &&
    match text.drop kind.length with
    | '/' :: rest =>
        let subtype := rest.takeWhile isMediaChar
        decide (1 ≤ subtype.length ∧ subtype.length ≤ 64) &&
          match rest.drop subtype.length with
          | [] => true
          | ';' :: parameters =>
              decide (1 ≤ parameters.length ∧ parameters.length ≤ 90) &&
                parameters.all fun c => 32 ≤ c.toNat && c.toNat ≤ 126
          | _ => false
    | _ => false

/-- `TEAM_ATTACHMENT_STORAGE_KEY_RE`. -/
def isStorageKey (key : String) : Bool :=
  isHexOf 64 key.toList

/-- `_validate_team_attachment_cleanup_key`. -/
def validateCleanupKey (kind : PathKind) (key : String) : Except Failure Unit :=
  match kind with
  | .staging => require (isPrefixedHex "tatt_" 32 key = true) .runtimeError
  | .content => require (isStorageKey key = true) .runtimeError

structure DeclareRequest where
  fileName : String
  mediaType : String
  byteSize : Nat
  storageKey : String
  idempotencyKey : String

section Requests

variable [UnicodeTables] [Conversions]

/-- `_team_sha256_hex`. -/
def teamSha256Hex (value : Json) : Except Failure String := do
  let text := if value.truthy then value.toText else ""
  let digest := String.ofList (UnicodeTables.lower (strip text.toList))
  require (isStorageKey digest = true) (invalidRequest "sha256 must be 64 hex characters")
  return digest

/-- The checks of a declaration. -/
def declareRequest (limits : AttachmentLimits) (fields : List (String × Json)) :
    Except Failure DeclareRequest := do
  let fileName ← required (get fields "file_name").str?
    (invalidRequest "Attachment file name is invalid")
  require (isAttachmentFileName fileName.toList = true)
    (invalidRequest "Attachment file name is invalid")
  let mediaType ← required (get fields "media_type").str?
    (invalidRequest "Attachment media type is invalid")
  require (isMediaType (strip mediaType.toList) = true)
    (invalidRequest "Attachment media type is invalid")
  let byteSize ← required (get fields "byte_size").int?
    (invalidRequest "Attachment size is invalid")
  require (1 ≤ byteSize) (invalidRequest "Attachment size is invalid")
  require (byteSize ≤ limits.maxBytes)
    (.hubError "attachment_limit" "Attachment exceeds the per-file size limit" 413)
  let storageKey ← teamSha256Hex (get fields "sha256")
  let idempotencyKey ← teamIdempotencyKey fields
  return {
    fileName, mediaType := String.ofList (strip mediaType.toList)
    byteSize := byteSize.toNat, storageKey, idempotencyKey }

end Requests

def DeclareRequest.fingerprint [Sha256] (request : DeclareRequest) (teamId : String) : Bytes :=
  canonicalFingerprint (.obj [("team_id", .str teamId), ("file_name", .str request.fileName),
    ("media_type", .str request.mediaType), ("byte_size", number request.byteSize),
    ("sha256", .str request.storageKey)])

/-! ## Tables -/

/-- The row is bound to a message, or was not expired at a time. -/
def AttachmentRow.isHeld (timestamp : Nat) (a : AttachmentRow) : Bool :=
  a.messageId.isSome || decide (timestamp < a.expiresAt)

/-- The rows that the quota of a team counts at a time. -/
def AttachmentRow.isCharged (teamId : String) (timestamp : Nat) (a : AttachmentRow) : Bool :=
  decide (a.teamId = teamId) && decide (a.state ≠ .failed) && a.isHeld timestamp

def attachmentExpired : Failure :=
  .hubError "attachment_unavailable"
    "Attachment declaration expired; declare it again with a new idempotency key" 409

namespace Hub

/-- The bytes in use at a time. -/
def usedBytes (h : Hub) (teamId : String) (timestamp : Nat) : Nat :=
  ((h.attachments.filter (AttachmentRow.isCharged teamId timestamp)).map
    AttachmentRow.byteSize).sum

/-- A remembered declaration is answered while its row is there and held. -/
def checkDeclared (h : Hub) (teamId : String) (cached : Json) (timestamp : Nat) :
    Except Failure Unit := do
  let attachment := (cached.obj?.map fun fields => get fields "attachment").bind Json.obj?
  let id := (attachment.map fun fields => get fields "id").bind Json.str?
  let row ← required (id.bind (h.attachment? teamId)) attachmentExpired
  require (row.isHeld timestamp = true) attachmentExpired

/-- A ready row of the team with the same content that is held. -/
def hasDuplicateReady (h : Hub) (teamId : String) (request : DeclareRequest) (timestamp : Nat) :
    Bool :=
  h.attachments.any fun a =>
    decide (a.teamId = teamId) && decide (a.storageKey = request.storageKey) &&
      a.state.isReady && decide (a.byteSize = request.byteSize) && a.isHeld timestamp

/-- An insert into `team_attachments` with its constraints. -/
def insertAttachment (h : Hub) (row : AttachmentRow) : Except Failure Hub := do
  require (row.mediaType.length ≤ 160) .integrityError
  require (h.attachments.all (fun a =>
    a.id != row.id && !(a.teamId == row.teamId && a.idempotencyKey == row.idempotencyKey)) = true)
    .integrityError
  return { h with attachments := h.attachments ++ [row] }

/-- `_mark_team_attachment_ready_locked`. -/
def markReady (h : Hub) (caller : Caller) (row : AttachmentRow) (timestamp : Nat) :
    Except Failure Hub := do
  require (row.createdAt ≤ timestamp) .integrityError
  caller.recorded
  return { h with attachments := h.attachments.map fun a =>
    if a.id = row.id ∧ a.state = .uploading then
      { a with
        receivedBytes := row.byteSize, state := .ready timestamp
        expiresAt := timestamp + attachmentUploadTtlSeconds }
    else a }

def setReceived (h : Hub) (id : String) (received : Nat) : Hub :=
  { h with attachments := h.attachments.map fun a =>
      if a.id = id then { a with receivedBytes := received } else a }

/-- The terminal state of a bad upload. -/
def markFailed (h : Hub) (teamId id : String) : Hub :=
  { h with attachments := h.attachments.map fun a =>
      if a.teamId = teamId ∧ a.id = id ∧ a.state = .uploading then { a with state := .failed }
      else a }

end Hub

/-! ## Files -/

/-- What the process did with the content of a file. -/
inductive FileEvent where
  | hashed (bytes : Bytes)
  | unlinked (kind : PathKind) (key : String)

structure AttachmentStore where
  hub : Hub
  staging : String → Option Bytes
  content : String → Option Bytes
  trace : List FileEvent

/-- How a chunk ends without an answer. A failed upload is recorded as failed next. -/
inductive ChunkError where
  | raised (e : Failure)
  | uploadFailed (e : Failure)

namespace AttachmentStore

abbrev Task (ε α : Type) := Program AttachmentStore ε α

variable {ε α : Type}

def check (x : Except ε α) : Task ε α :=
  .look fun _ => x

def tables : Task ε Hub :=
  .look fun s => .ok s.hub

def commit (h : Hub) : Task ε Unit :=
  .act fun s => .ok { s with hub := h }

def hash (bytes : Bytes) : Task ε Unit :=
  .act fun s => .ok { s with trace := s.trace ++ [.hashed bytes] }

def setStaging (id : String) (bytes : Bytes) : Task ε Unit :=
  .act fun s => .ok { s with staging := Function.update s.staging id (some bytes) }

def unlinkStaging (id : String) : Task ε Unit :=
  .act fun s => .ok { s with
    staging := Function.update s.staging id none
    trace := s.trace ++ [.unlinked .staging id] }

/-- `os.replace` of a staging file over the content of a key. -/
def publishContent (id key : String) (bytes : Bytes) : Task ε Unit :=
  .act fun s => .ok { s with
    staging := Function.update s.staging id none
    content := Function.update s.content key (some bytes) }

variable [Sha256]

/-- `_open_verified_team_attachment_blob`. Only a file of the right size is hashed. -/
def openVerifiedBlob (key : String) (byteSize : Nat) : Task ε (Option Bytes) := do
  match ← Program.look fun s => .ok (s.content key) with
  | none => return none
  | some bytes =>
      if bytes.length = byteSize then do
        hash bytes
        return if Sha256.hexdigest bytes = key then some bytes else none
      else return none

end AttachmentStore

/-! ## Declaring -/

open AttachmentStore

section Operations

variable [Sha256] [UnicodeTables] [Conversions]

/-- The bytes of a ready row of the team with the same content, opened and verified. -/
def openDuplicate (h : Hub) (teamId : String) (request : DeclareRequest) (timestamp : Nat) :
    Task Failure (Option Bytes) :=
  if h.hasDuplicateReady teamId request timestamp then
    openVerifiedBlob request.storageKey request.byteSize
  else pure none

/-- The row of a declaration: ready at once where the content is already stored. -/
def declaredRow (request : DeclareRequest) (caller : Caller) (token : TokenHex) (k : RequestKey)
    (uploaderNodeId : Option String) (stored : Bool) (timestamp : Nat) : AttachmentRow where
  id := newId "tatt" token
  teamId := k.teamId
  messageId := none
  fileName := request.fileName
  mediaType := request.mediaType
  byteSize := request.byteSize
  storageKey := request.storageKey
  state := if stored then .ready timestamp else .uploading
  receivedBytes := if stored then request.byteSize else 0
  uploadedBy := caller.claims.principalId
  uploaderNodeId := uploaderNodeId
  idempotencyKey := k.rowKey
  createdAt := timestamp
  expiresAt := timestamp + attachmentUploadTtlSeconds

/-- The writes of a declaration. -/
def insertDeclared (h : Hub) (caller : Caller) (row : AttachmentRow) (k : RequestKey)
    (fingerprint : Bytes) : Except Failure (Json × Hub) := do
  let t ← h.insertAttachment row
  let response := .obj [("attachment", attachmentPublic row),
    ("chunk_bytes", number attachmentChunkBytes)]
  let t ← t.idempotencyStore k fingerprint response
  caller.recorded
  return (response, t)

/-- `declare_team_attachment` from its write transaction on. The reclamation before it
is an operation of its own. -/
def declareTeamAttachment (limits : AttachmentLimits) (caller : Caller) (token : TokenHex)
    (teamId : String) (fields : List (String × Json)) (timestamp : Nat) : Task Failure Json := do
  let request ← check (declareRequest limits fields)
  let fingerprint := request.fingerprint teamId
  let k : RequestKey :=
    ⟨teamId, caller.claims.principalId, "team.attachment.declare", request.idempotencyKey⟩
  let h ← tables
  let _ ← check (caller.networkScope true)
  match ← check (h.idempotencyLookup k fingerprint) with
  | some cached => do
      check (h.checkDeclared teamId cached timestamp)
      return cached
  | none => do
      check (require (h.usedBytes teamId timestamp + request.byteSize ≤ limits.quotaBytes)
        (.hubError "attachment_limit" "Team attachment storage quota exceeded" 413))
      let uploaderNodeId ← check caller.teamSender
      let verified ← openDuplicate h teamId request timestamp
      let row := declaredRow request caller token k uploaderNodeId verified.isSome timestamp
      let (response, t) ← check (insertDeclared h caller row k fingerprint)
      commit t
      return response

end Operations

/-! ## Uploading -/

/-- A chunk of an upload. -/
structure Chunk where
  offset : Int
  total : Int
  data : Bytes
  /-- the bytes that each write to the file takes -/
  writes : List Nat

def attachmentAnswer (row : AttachmentRow) : Json :=
  .obj [("attachment", attachmentPublic row)]

def unsafeStaging (text : String) : ChunkError :=
  .uploadFailed (.hubError "attachment_unavailable" text 409)

namespace AttachmentStore

/-- `_open_team_attachment_staging`: the file's bytes once it is open. -/
def openStaging (id : String) (received : Nat) : Task ChunkError Bytes := do
  let stale := unsafeStaging "Attachment upload staging is unsafe; declare it again"
  match ← Program.look fun s => .ok (s.staging id) with
  | none =>
      if received = 0 then do
        setStaging id []
        return []
      else .raise stale
  | some bytes =>
      if received = 0 then .raise stale
      else if bytes.length < received then .raise stale
      else if bytes.length = received then return bytes
      else do
        setStaging id (bytes.take received)
        return bytes.take received

/-- The loop of writes. -/
def writeAll (id : String) (written : Bytes) : List Nat → Bytes → Task ChunkError Bytes
  | _, [] => return written
  | [], data => do
      setStaging id (written ++ data)
      return written ++ data
  | n :: rest, b :: data => do
      let next := written ++ (b :: data).take (max 1 n)
      setStaging id next
      writeAll id next rest ((b :: data).drop (max 1 n))

/-- The row of an attachment after a commit. -/
def answer (h : Hub) (teamId id : String) : Task ChunkError Json := do
  let row ← check (required (h.attachment? teamId id) (.raised .assertionError))
  return attachmentAnswer row

def raised {α : Type} (x : Except Failure α) : Task ChunkError α :=
  check (match x with
    | .ok a => .ok a
    | .error e => .error (.raised e))

variable [Sha256]

/-- The replay of a last chunk whose content was published before its commit was lost. -/
def reconcile (h : Hub) (caller : Caller) (row : AttachmentRow) (data : Bytes) (timestamp : Nat) :
    Task ChunkError (Option Json) := do
  match ← Program.look fun s => .ok (s.staging row.id) with
  | some _ => return none
  | none =>
      match ← openVerifiedBlob row.storageKey row.byteSize with
      | none => return none
      | some bytes =>
          if (bytes.drop row.receivedBytes).take data.length = data then do
            let t ← raised (h.markReady caller row timestamp)
            commit t
            let response ← answer t row.teamId row.id
            return some response
          else return none

/-- The last chunk: the whole upload is hashed, published and marked ready. -/
def finish (h : Hub) (caller : Caller) (row : AttachmentRow) (bytes : Bytes) (timestamp : Nat) :
    Task ChunkError Json := do
  hash bytes
  if Sha256.hexdigest bytes = row.storageKey then do
    publishContent row.id row.storageKey bytes
    let t ← raised (h.markReady caller row timestamp)
    commit t
    answer t row.teamId row.id
  else do
    unlinkStaging row.id
    .raise (.uploadFailed (.hubError "attachment_hash_mismatch"
      "Uploaded bytes do not match the declared SHA-256" 422))

/-- The part of a chunk that writes to the staging file. -/
def append (h : Hub) (caller : Caller) (row : AttachmentRow) (chunk : Chunk) (timestamp : Nat) :
    Task ChunkError Json := do
  let size := chunk.data.length
  if chunk.offset + size ≤ row.receivedBytes then return attachmentAnswer row
  else do
    raised (require (chunk.offset = row.receivedBytes)
      (.hubError "conflict" "Attachment chunk offset is not contiguous" 409))
    raised (require (row.receivedBytes + size ≤ row.byteSize)
      (invalidRequest "Attachment chunk exceeds the declared size"))
    let opened ← openStaging row.id row.receivedBytes
    let bytes ← writeAll row.id opened chunk.writes chunk.data
    if row.receivedBytes + size < row.byteSize then do
      let t := h.setReceived row.id (row.receivedBytes + size)
      commit t
      answer t row.teamId row.id
    else if bytes.length = row.byteSize then finish h caller row bytes timestamp
    else .raise (unsafeStaging "Attachment upload staging changed; declare it again")

/-- `write_team_attachment_chunk`, up to the record of a failed upload. -/
def writeChunk (caller : Caller) (teamId id : String) (chunk : Chunk) (timestamp : Nat) :
    Task ChunkError Json := do
  raised (require (chunk.data ≠ []) (invalidRequest "Attachment chunk is empty"))
  raised (require (chunk.data.length ≤ attachmentChunkBytes)
    (.hubError "request_too_large" "Attachment chunk is too large" 413))
  raised (require (0 ≤ chunk.offset ∧ 1 ≤ chunk.total)
    (invalidRequest "Attachment range is invalid"))
  let h ← tables
  let _ ← raised (caller.networkScope true)
  let row ← raised (required (h.attachment? teamId id) resourceNotFound)
  raised (require (row.uploadedBy = caller.claims.principalId) resourceNotFound)
  if row.isHeld timestamp then do
    raised (require (chunk.total = row.byteSize)
      (invalidRequest "Attachment range total is wrong"))
    match row.state with
    | .ready _ => do
        raised (require (chunk.offset + chunk.data.length ≤ row.byteSize)
          (.hubError "conflict" "Attachment is already complete" 409))
        return attachmentAnswer row
    | .failed =>
        raised (.error (.hubError "attachment_unavailable"
          "Attachment upload failed; declare it again" 409))
    | .uploading =>
        if chunk.offset = row.receivedBytes ∧
            row.receivedBytes + chunk.data.length = row.byteSize then do
          match ← reconcile h caller row chunk.data timestamp with
          | some response => return response
          | none => append h caller row chunk timestamp
        else append h caller row chunk timestamp
  else .raise (unsafeStaging "Attachment upload expired; declare it again")

end AttachmentStore

/-! ## Reclaiming -/

/-- The order in which expired uploads are reclaimed. -/
def AttachmentRow.ReclaimedBefore (a b : AttachmentRow) : Prop :=
  a.expiresAt < b.expiresAt ∨ (a.expiresAt = b.expiresAt ∧ a.id ≤ b.id)

instance (a b : AttachmentRow) : Decidable (AttachmentRow.ReclaimedBefore a b) := by
  unfold AttachmentRow.ReclaimedBefore
  infer_instance

/-- The place of a kind in the order of the kinds' texts. -/
def PathKind.rank : PathKind → Nat
  | .content => 0
  | .staging => 1

/-- The order in which tombstones are drained. -/
def CleanupRow.DrainedBefore (a b : CleanupRow) : Prop :=
  a.attemptCount < b.attemptCount ∨ (a.attemptCount = b.attemptCount ∧
    (a.createdAt < b.createdAt ∨ (a.createdAt = b.createdAt ∧
      (a.pathKind.rank < b.pathKind.rank ∨
        (a.pathKind.rank = b.pathKind.rank ∧ a.pathKey ≤ b.pathKey)))))

instance (a b : CleanupRow) : Decidable (CleanupRow.DrainedBefore a b) := by
  unfold CleanupRow.DrainedBefore
  infer_instance

namespace Hub

/-- `INSERT OR IGNORE INTO team_attachment_cleanup_queue`. -/
def insertTombstone (h : Hub) (kind : PathKind) (key : String) (timestamp : Nat) : Hub :=
  if h.cleanup.any fun c => c.pathKind = kind ∧ c.pathKey = key then h
  else { h with cleanup := h.cleanup ++ [{
    pathKind := kind, pathKey := key, createdAt := timestamp, attemptCount := 0 }] }

/-- The expired, unbound rows of a team, or of all teams, oldest first. -/
def expiredAttachments (h : Hub) (teamId : Option String) (timestamp limit : Nat) :
    List AttachmentRow :=
  ((h.attachments.filter fun a => a.messageId = none ∧ a.expiresAt ≤ timestamp ∧
    ∀ team ∈ teamId, a.teamId = team).insertionSort AttachmentRow.ReclaimedBefore).take limit

/-- The deletion of one row with its staging tombstone. -/
def reclaimRow (timestamp : Nat) (h : Hub) (row : AttachmentRow) : Except Failure Hub := do
  validateCleanupKey .staging row.id
  let h := h.insertTombstone .staging row.id timestamp
  return { h with attachments := h.attachments.filter fun a => a.id ≠ row.id }

/-- The tombstone of a content key that no ready row has. -/
def reclaimKey (timestamp : Nat) (h : Hub) (key : String) : Except Failure Hub := do
  validateCleanupKey .content key
  return if h.attachments.any fun a => a.storageKey = key ∧ a.state.isReady then h
    else h.insertTombstone .content key timestamp

/-- The transaction of `purge_expired_team_attachments`. -/
def purgeExpired (h : Hub) (teamId : Option String) (timestamp : Nat) (limit : Int) :
    Except Failure Hub := do
  require (1 ≤ limit ∧ limit ≤ 4096) .valueError
  let stale := h.expiredAttachments teamId timestamp limit.toNat
  let h ← stale.foldlM (reclaimRow timestamp) h
  (stale.map AttachmentRow.storageKey).dedup.foldlM (reclaimKey timestamp) h

/-- The tombstones that one drain takes. -/
def pendingCleanup (h : Hub) (limit : Nat) : List (PathKind × String) :=
  ((h.cleanup.insertionSort CleanupRow.DrainedBefore).take limit).map
    fun c => (c.pathKind, c.pathKey)

/-- A row still names the file. -/
def isProtected (h : Hub) (kind : PathKind) (key : String) : Bool :=
  match kind with
  | .staging => h.attachments.any fun a => a.id = key
  | .content => h.attachments.any fun a => a.storageKey = key ∧ a.state.isReady

/-- The transaction that ends a drain. -/
def settleCleanup (h : Hub) (completed failed : List (PathKind × String)) : Hub :=
  { h with cleanup :=
      (h.cleanup.filter fun c => (c.pathKind, c.pathKey) ∉ completed).map fun c =>
        if (c.pathKind, c.pathKey) ∈ failed then { c with attemptCount := c.attemptCount + 1 }
        else c }

end Hub

end AgentsServer.TeamHub

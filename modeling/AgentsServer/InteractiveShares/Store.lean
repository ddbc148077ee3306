import AgentsServer.PublicShares.Store

/-!
# The ledger of interactive shares

Shares, uploads and submissions in one database. Each operation here is one transaction.
-/

namespace AgentsServer.InteractiveShares

open Library

def maxUploadBytes : Nat := 8 * 1024 * 1024

def maxShareUploadBytes : Nat := 64 * 1024 * 1024

def maxPromptBytes : Nat := 64 * 1024

inductive Failure where
  /-- what the store of snapshots raises, too -/
  | share (failure : PublicShares.Failure)
  /-- `Conflict` -/
  | conflict (message : String)
  /-- `HTTPException` -/
  | http (status : Nat) (detail : String)
  /-- `ChatControlError` -/
  | control (code : String)
  /-- any other exception -/
  | other (text : String)
  deriving DecidableEq

namespace Failure

def unavailable : Failure := .share .unavailable

def validation (message : String) : Failure := .share (.validation message)

end Failure

/-- Unix seconds. -/
abbrev Time := Rat

/-- `SHARE_ID`. -/
def isShareId (text : String) : Bool := isPrefixedHex "interactive_" 32 text

/-- `UPLOAD_ID`. -/
def isUploadId (text : String) : Bool := isPrefixedHex "upload_" 32 text

structure ShareRow where
  id : String
  sessionId : String
  title : String
  createdAt : Time
  expiresAt : Option Time
  revokedAt : Option Time
  redeemedAt : Option Time
  inviteHash : Bytes
  browserHash : Option Bytes
  publicOrigin : String

structure UploadRow where
  id : String
  shareId : String
  name : String
  mediaType : String
  byteSize : Nat
  privateRef : Option String
  createdAt : Time

/-- `receipt_json` is kept as the value that its text stands for. -/
structure SubmissionRow where
  shareId : String
  requestId : String
  fingerprint : Bytes
  receipt : Option Json
  createdAt : Time

namespace SubmissionRow

def key (row : SubmissionRow) : String × String := (row.shareId, row.requestId)

end SubmissionRow

structure Store where
  shares : List ShareRow
  uploads : List UploadRow
  submissions : List SubmissionRow

def Store.empty : Store := ⟨[], [], []⟩

/-- `token_hash`. -/
def tokenHash [Sha256] (token : String) : Except Failure Bytes := do
  require (PublicShares.isToken token = true) .unavailable
  pure (PublicShares.tokenHash token)

/-- `hmac.new(key, message, sha256)`. -/
def hmac [Sha256] (key message : Bytes) : Bytes :=
  let key := if key.length ≤ 64 then key else Sha256.digest key
  let block := key ++ List.replicate (64 - key.length) 0
  Sha256.digest (block.map (· ^^^ 0x5c) ++ Sha256.digest (block.map (· ^^^ 0x36) ++ message))

/-- `csrf_token`. -/
def csrfToken [Sha256] (browserToken : String) : Except Failure String := do
  let _ ← tokenHash browserToken
  pure (hexText (hmac (utf8 browserToken.toList) (utf8 "interactive-chat-csrf-v1".toList)))

def utf8Size (value label : String) (limit : Nat) : Except Failure Nat :=
  (PublicShares.utf8Size value label limit).mapError .share

/-- `_timestamp` of a number. -/
def timestamp (value : Time) (label : String) : Except Failure Time := do
  require (0 ≤ value ∧ value ≤ (PublicShares.maxUnixTimestamp : Rat))
    (.validation (label ++ " must be finite Unix seconds."))
  pure value

/-- `[A-Za-z0-9_-]{1,128}`. -/
def isSessionId (text : String) : Bool :=
  decide (1 ≤ text.length ∧ text.length ≤ 128) && text.toList.all PublicShares.isUrlSafe

/-- The checks of a file name. -/
def isUploadName (name : String) : Bool :=
  decide (1 ≤ name.length ∧ name.length ≤ 160) && name != "." && name != ".." &&
    name.toList.all fun c => decide (32 ≤ c.toNat) && c != '/' && c != '\\'

/-- `[a-zA-Z0-9!#$&^_.+-]`. -/
def isMediaChar (c : Char) : Bool :=
  ('a' ≤ c && c ≤ 'z') || ('A' ≤ c && c ≤ 'Z') || c.isDigit || "!#$&^_.+-".toList.contains c

/-- Two nonempty parts with a slash between them. -/
def isMediaType (text : String) : Bool :=
  text.toList.takeWhile isMediaChar != [] &&
    match text.toList.dropWhile isMediaChar with
    | '/' :: rest => rest != [] && rest.all isMediaChar
    | _ => false

/-- The text of what a submission asks for. -/
def submissionText (operation prompt : String) (refs : List String) : Bytes :=
  Json.dumps (.arr [.str operation, .str prompt, .arr (refs.map .str)])

/-- Its digest. -/
def fingerprint [Sha256] (operation prompt : String) (refs : List String) : Bytes :=
  Sha256.digest (submissionText operation prompt refs)

/-- The check of `expires_at` against the time of creation. -/
def checkExpiry (expiresAt : Option Time) (now : Time) : Except Failure Unit :=
  match expiresAt with
  | none => pure ()
  | some expiry => do
      let expiry ← timestamp expiry "expires_at"
      require (now < expiry) (.validation "Expiry must be in the future")

namespace Store

variable (store : Store)

/-! ## Shares -/

/-- `create_share`. -/
def createShare [Sha256] (sessionId : String) (title : Option String) (expiresAt : Option Time)
    (publicOrigin invite shareId : String) (now : Time) : Except Failure (ShareRow × Store) := do
  require (isSessionId sessionId = true) (.validation "Invalid chat")
  let title := title.getD PublicShares.defaultTitle
  require (isBlank title = false ∧ title.length ≤ 256)
    (.validation "Title must contain 1 to 256 characters")
  let _ ← utf8Size title "Title" 1024
  let now ← timestamp now "current time"
  checkExpiry expiresAt now
  let inviteHash ← tokenHash invite
  let row : ShareRow := {
    id := shareId
    sessionId := sessionId
    title := title
    createdAt := now
    expiresAt := expiresAt
    revokedAt := none
    redeemedAt := none
    inviteHash := inviteHash
    browserHash := none
    publicOrigin := publicOrigin }
  let unique (row : ShareRow) : Bool := store.shares.all (·.inviteHash != row.inviteHash)
  let shares ← required (Tables.insertRow ShareRow.id unique row store.shares)
    (.share .integrityError)
  pure (row, { store with shares := shares })

/-- `revoke_share`. -/
def revokeShare (shareId sessionId : String) (now : Time) : Except Failure (Bool × Store) := do
  let selected (row : ShareRow) : Bool := row.id == shareId && row.sessionId == sessionId
  let revoked (row : ShareRow) : ShareRow :=
    if selected row then { row with revokedAt := some (row.revokedAt.getD now) } else row
  pure (store.shares.any selected, { store with shares := store.shares.map revoked })

/-- `redeem`. -/
def redeem [Sha256] (shareId invite : String) (now : Time) : Except Failure (String × Store) := do
  let digest ← tokenHash invite
  let selected (row : ShareRow) : Bool :=
    row.id == shareId && row.inviteHash == digest && row.revokedAt.isNone &&
      row.expiresAt.all fun expiry => decide (now < expiry)
  require (store.shares.any selected = true) .unavailable
  let redeemed (row : ShareRow) : ShareRow :=
    if selected row then { row with redeemedAt := some (row.redeemedAt.getD now) } else row
  pure (invite, { store with shares := store.shares.map redeemed })

/-- `_authorized`. -/
def authorized [Sha256] (shareId browserToken : String) (now : Time) : Except Failure ShareRow := do
  let digest ← tokenHash browserToken
  required (store.shares.find? fun row =>
    row.id == shareId && (row.browserHash == some digest || row.inviteHash == digest) &&
      row.redeemedAt.isSome && row.revokedAt.isNone &&
      row.expiresAt.all fun expiry => decide (now < expiry)) .unavailable

/-! ## Uploads -/

/-- The bytes that the uploads of a share are charged with. -/
def usedBytes (shareId : String) : Nat :=
  ((store.uploads.filter fun row => row.shareId == shareId).map UploadRow.byteSize).sum

/-- `reserve_upload`. -/
def reserveUpload [Sha256] (shareId browserToken name mediaType : String) (byteSize : Nat)
    (uploadId : String) (now : Time) : Except Failure (String × Store) := do
  require (isUploadName name = true) (.validation "Use a simple filename without directories")
  let _ ← utf8Size name "Filename" 640
  require (isMediaType mediaType = true) (.validation "Invalid upload media type")
  require (1 ≤ byteSize ∧ byteSize ≤ maxUploadBytes)
    (.validation "Files must contain 1 byte to 8 MiB")
  let _ ← store.authorized shareId browserToken now
  require (store.usedBytes shareId + byteSize ≤ maxShareUploadBytes)
    (.validation "This share has reached its 64 MiB upload storage bound")
  let uploads ← required (Tables.insertRow UploadRow.id (fun _ => true)
    ⟨uploadId, shareId, name, mediaType, byteSize, none, now⟩ store.uploads)
    (.share .integrityError)
  pure (uploadId, { store with uploads := uploads })

/-- `complete_upload`. -/
def completeUpload [Sha256] (shareId browserToken uploadId privateRef : String) (now : Time) :
    Except Failure (Unit × Store) := do
  require (privateRef ≠ "" ∧ privateRef.length ≤ 1024) (.validation "Upload was not accepted")
  let _ ← store.authorized shareId browserToken now
  let selected (row : UploadRow) : Bool :=
    row.id == uploadId && row.shareId == shareId && row.privateRef.isNone
  require (store.uploads.any selected = true) .unavailable
  let completed (row : UploadRow) : UploadRow :=
    if selected row then { row with privateRef := some privateRef } else row
  pure ((), { store with uploads := store.uploads.map completed })

/-- The reference of a completed upload of a share. -/
def completedRef (shareId uploadId : String) : Option String :=
  (store.uploads.find? fun row =>
    row.id == uploadId && row.shareId == shareId && row.privateRef.isSome).bind UploadRow.privateRef

/-- The names in a list of at most four distinct uploads. -/
def uploadIds (value : Json) : Option (List String) := do
  let items ← value.arr?
  let ids ← items.mapM Json.str?
  if ids.length ≤ 4 ∧ ids.Nodup ∧ ids.all isUploadId = true then some ids else none

/-- `upload_refs`. -/
def uploadRefs [Sha256] (shareId browserToken : String) (value : Json) (now : Time) :
    Except Failure (List String) := do
  let ids ← required (uploadIds value)
    (.validation "Select at most four distinct uploads from this share")
  let _ ← store.authorized shareId browserToken now
  ids.mapM fun id => required (store.completedRef shareId id) .unavailable

/-! ## Submissions -/

def submission (shareId requestId : String) : Option SubmissionRow :=
  Tables.find SubmissionRow.key store.submissions (shareId, requestId)

def usedId : Failure := .conflict "This request ID was already used for a different message"

def indeterminate : Failure :=
  .conflict ("Message acceptance is indeterminate. Inspect the chat before sending another " ++
    "message; this request will not be retried")

/-- `reserve_submission`. -/
def reserveSubmission [Sha256] (shareId browserToken requestId prompt : String)
    (refs : List String) (operation : String) (now : Time) :
    Except Failure (Option Json × Store) := do
  let _ ← store.authorized shareId browserToken now
  match store.submission shareId requestId with
  | some row => do
      require (row.fingerprint = fingerprint operation prompt refs) usedId
      let receipt ← required row.receipt indeterminate
      pure (some receipt, store)
  | none =>
      pure (none, { store with submissions := store.submissions ++
        [⟨shareId, requestId, fingerprint operation prompt refs, none, now⟩] })

/-- `accept_submission`. -/
def acceptSubmission (shareId requestId : String) (receipt : Json) :
    Except Failure (Unit × Store) := do
  let selected (row : SubmissionRow) : Bool :=
    row.shareId == shareId && row.requestId == requestId && row.receipt.isNone
  require (store.submissions.any selected = true)
    (.conflict "Message receipt could not be recorded")
  let accepted (row : SubmissionRow) : SubmissionRow :=
    if selected row then { row with receipt := some receipt } else row
  pure ((), { store with submissions := store.submissions.map accepted })

end Store

end AgentsServer.InteractiveShares

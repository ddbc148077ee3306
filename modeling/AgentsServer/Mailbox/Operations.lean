import AgentsServer.Mailbox.Message

/-!
# Mailbox operations

Storing, reading, cancelling and excluding mail. Each operation returns its
answer and the new ledger, or raises; the caller's transaction rolls a raised
operation back. The ledger side that the mailbox relies on (inserting,
rewriting and deleting envelopes) comes first.
-/

namespace AgentsServer.Mailbox

open Library

variable [CharacterTables]

/-! ## The cross-chat ledger around the mailbox -/

/-- An insert, or a rewrite of an envelope that is not mailbox mail yet. The id
of a deleted envelope is not used again. -/
def putEnvelope (db : Ledger) (e : Envelope) : Except Failure (Unit × Ledger) := do
  require ((db.message? e.id).isNone = true ∧ e.id ∉ db.deletedIds)
    (.integrityError "cross_chat_envelopes.id")
  return ((), { db with envelopes := e :: db.envelopes.filter fun old => old.id ≠ e.id })

/-- `DELETE FROM cross_chat_envelopes`, which cascades to the message row. -/
def deleteEnvelope (db : Ledger) (id : String) : Ledger :=
  { db with
    envelopes := db.envelopes.filter fun e => e.id ≠ id
    messages := db.messages.filter fun m => m.messageId ≠ id
    deletedIds := id :: db.deletedIds }

/-- The receipt projection marks what it has published on the envelope. -/
def setLifecycle (db : Ledger) (id lifecycleStatus : String) (now : IsoTime) : Ledger :=
  { db with
    envelopes := db.envelopes.map fun e =>
      if e.id = id then { e with lifecycleStatus, updatedAt := now.text } else e }

/-! ## Storing -/

def notUnlaunched : Failure :=
  .mailboxConflict "Envelope is not an unlaunched mailbox message"

/-- The envelope is a stored, unlaunched message of an authorized pair. -/
def isUnlaunchedMail (e : Envelope) : Bool :=
  e.status == .stored && e.deliveryMode == .mailbox && e.kind == .instruction &&
    e.authorizationKind == .configuredRoute && isPair e.authorizationPairId &&
    e.sourceSessionId != e.targetSessionId && (e.targetRunId.getD "").isEmpty

/-- The parent of a reply is an available message of the exact peer. -/
def replyParentAvailable (db : Ledger) (record : Envelope) (parent : String) : Bool :=
  match db.envelope? parent with
  | none => false
  | some prior =>
      prior.sourceSessionId == record.targetSessionId &&
        prior.targetSessionId == record.sourceSessionId &&
        prior.authorizationPairId == record.authorizationPairId &&
        !(prior.status == .failed || prior.status == .cancelled) &&
        (match db.message? parent with
          | some mail => mail.excludedAt.isNone
          | none => true)

/-- `INSERT OR IGNORE`. SQLite may pass over `skip` row ids, also when the
insert is ignored. -/
def insertMessage (db : Ledger) (record : Envelope) (now : IsoTime) (skip : Nat) :
    Except Failure (Unit × Ledger) := do
  require (db.sequence + skip + 1 ≤ maxRowId) .databaseFull
  if (db.message? record.id).isSome then
    return ((), { db with sequence := db.sequence + skip })
  else
    let seq := db.sequence + skip + 1
    return ((), { db with
      sequence := seq
      messages := db.messages ++ [{
        mailboxSeq := seq
        messageId := record.id
        sourceSessionId := record.sourceSessionId
        targetSessionId := record.targetSessionId
        pairId := record.authorizationPairId
        storedAt := now.text
        inReplyToMessageId := record.replyToMessageId
        readId := none
        readAt := none
        excludedAt := none
        excludedReason := none
        readEventPublished := false }] })

/-- The largest receipt that a read can add to a message. -/
def widestReceipt (msg : Message) : Message :=
  msg.withReceipt (String.ofList (List.replicate 240 'x')) (String.ofList (List.replicate 64 'x'))

def storeMessage (db : Ledger) (messageId : String) (now : IsoTime)
    (inReplyToMessageId : Option String) (skip : Nat) : Except Failure (Message × Ledger) := do
  let messageId ← identifier messageId
  match db.envelope? messageId with
  | none => .error notUnlaunched
  | some record =>
      require (isUnlaunchedMail record = true) notUnlaunched
      let parent := record.replyToMessageId
      require (inReplyToMessageId.isNone = true ∨ inReplyToMessageId = parent)
        (.mailboxConflict "Reply relationship does not match the stored envelope")
      require (parent.getD "" = "" ∨ replyParentAvailable db record (parent.getD "") = true)
        (.mailboxConflict "Reply must reference an available exact peer message")
      let (_, db) ← insertMessage db record now skip
      match db.message? messageId with
      | none => .error (.integrityError "chat_mailbox_messages.message_id")
      | some row =>
          require (row.sourceSessionId = record.sourceSessionId ∧
              row.targetSessionId = record.targetSessionId ∧
              row.pairId = record.authorizationPairId ∧ row.inReplyToMessageId = parent)
            (.mailboxConflict "Stored mailbox identity changed")
          let msg := message row record
          require ((widestReceipt msg).size + pageReserve ≤ maxPageBytes)
            (.mailboxConflict "Message and user delegation exceed the bounded mailbox response")
          return (msg, db)

/-! ## Reading -/

structure ReadRequest where
  targetSessionId : String
  sourceSessionId : String
  readerRunId : String
  requestId : String
  allowedPairIds : List String
  now : IsoTime
  afterSeq : Int
  limit : Int

structure ReadReply where
  readId : String
  snapshotSeq : Nat
  messages : List Message
  nextAfterSeq : Option Nat
  hasMore : Bool
  unavailableCount : Int
  replayed : Bool

def highWater (db : Ledger) (target source : String) : Nat :=
  ((db.messages.filter fun m => m.targetSessionId = target ∧ m.sourceSessionId = source).map
    MailRow.mailboxSeq).foldl max 0

/-- The batch of a request: the recorded one, or a new one at its first page. -/
def openRead (db : Ledger) (req : ReadRequest) (afterSeq pageLimit : Nat) (uuid : UuidHex) :
    Except Failure (ReadRow × Ledger) :=
  match db.reads.filter fun r =>
      r.targetSessionId = req.targetSessionId ∧ r.requestId = req.requestId with
  | _ :: _ :: _ =>
      .error (.mailboxConflict "Read request matches multiple historical snapshots")
  | [batch] => .ok (batch, db)
  | [] => do
      require (afterSeq = 0)
        (.mailboxConflict "A mailbox read must start at its first page")
      let readId := "mailread_" ++ uuid.text
      require ((db.reads.any fun r => r.id = readId) = false)
        (.integrityError "chat_mailbox_reads.id")
      let batch : ReadRow := {
        id := readId
        targetSessionId := req.targetSessionId
        sourceSessionId := req.sourceSessionId
        readerRunId := req.readerRunId
        requestId := req.requestId
        snapshotSeq := highWater db req.targetSessionId req.sourceSessionId
        pageLimit := pageLimit
        createdAt := req.now.text }
      return (batch, { db with reads := db.reads ++ [batch] })

/-- The primary key of a page. -/
def PageRow.key (p : PageRow) : String × Nat :=
  (p.readId, p.afterSeq)

def Ledger.page? (db : Ledger) (readId : String) (afterSeq : Nat) : Option PageRow :=
  Tables.find PageRow.key db.pages (readId, afterSeq)

/-- Unread rows of the snapshot behind a cursor. -/
def unreadWithin (scope : Scope) (afterSeq snapshotSeq : Nat) (row : Joined) : Bool :=
  scope.admits row && row.1.readAt.isNone && decide (afterSeq < row.1.mailboxSeq) &&
    decide (row.1.mailboxSeq ≤ snapshotSeq)

/-- The first time a page is read: select, record the page, mark its messages. -/
def firstPage (db : Ledger) (scope : Scope) (batch : ReadRow) (afterSeq pageLimit : Nat)
    (now : IsoTime) : Except Failure (PageRow × Ledger) := do
  require (afterSeq = 0 ∨
      (db.pages.any fun p => p.readId = batch.id ∧ p.endSeq = afterSeq ∧ p.hasMore) = true)
    (.mailboxConflict "Cursor does not belong to this read snapshot")
  let (messages, more) ← page db (unreadWithin scope afterSeq batch.snapshotSeq) pageLimit
    (some (batch.id, now.text))
  let ids := messages.map Message.messageId
  let row : PageRow := {
    readId := batch.id
    afterSeq
    endSeq := (messages.getLast?.map Message.mailboxSeq).getD afterSeq
    hasMore := more
    messageIds := ids }
  return (row, { db with
    pages := db.pages ++ [row]
    messages := db.messages.map fun m =>
      if m.messageId ∈ ids ∧ m.readAt.isNone then
        { m with readId := some batch.id, readAt := some now.text }
      else m })

/-- A recorded page selected again by its message ids. -/
def recordedPage (db : Ledger) (scope : Scope) (row : PageRow) (pageLimit : Nat) :
    Except Failure (List Message × Bool) :=
  if row.messageIds.isEmpty then .ok ([], false)
  else page db (fun r => scope.admits r && row.messageIds.contains r.1.messageId) pageLimit none

def retryTooLarge : Failure :=
  .mailboxConflict "Stored mailbox read page exceeds the bounded response; retry was not truncated"

/-- The answer for a recorded page under the current authorization. -/
def respond (db : Ledger) (scope : Scope) (batch : ReadRow) (row : PageRow) (pageLimit : Nat)
    (replayed : Bool) : Except Failure ReadReply := do
  let (messages, overflow) ← recordedPage db scope row pageLimit
  require (overflow = false) retryTooLarge
  return {
    readId := batch.id
    snapshotSeq := batch.snapshotSeq
    messages
    nextAfterSeq := if row.hasMore then some row.endSeq else none
    hasMore := row.hasMore
    unavailableCount := row.messageIds.length - messages.length
    replayed }

/-- A page of an open batch: the recorded one, or a first one. -/
def readOpened (db : Ledger) (req : ReadRequest) (scope : Scope) (batch : ReadRow)
    (afterSeq pageLimit : Nat) : Except Failure (ReadReply × Ledger) := do
  require (batch.sourceSessionId = req.sourceSessionId ∧ batch.pageLimit = pageLimit)
    (.mailboxConflict "Read request was already used with different parameters")
  match db.page? batch.id afterSeq with
  | some row =>
      let reply ← respond db scope batch row pageLimit true
      return (reply, db)
  | none =>
      let (row, db) ← firstPage db scope batch afterSeq pageLimit req.now
      let reply ← respond db scope batch row pageLimit false
      return (reply, db)

def readSender (db : Ledger) (req : ReadRequest) (uuid : UuidHex) :
    Except Failure (ReadReply × Ledger) := do
  let _ ← identifier req.sourceSessionId
  let _ ← identifier req.readerRunId
  let _ ← identifier req.requestId
  let afterSeq ← cursor req.afterSeq
  let pageLimit ← limit req.limit
  let scope ← scope req.targetSessionId (some req.sourceSessionId) req.allowedPairIds
  let (batch, db) ← openRead db req afterSeq pageLimit uuid
  readOpened db req scope batch afterSeq pageLimit

/-! ## Excluding -/

inductive ExclusionReason where
  | cancelled
  | deleted
  | revoked
  deriving DecidableEq

def ExclusionReason.text : ExclusionReason → String
  | .cancelled => "cancelled"
  | .deleted => "deleted"
  | .revoked => "revoked"

/-- `UPDATE ... SET excluded_at=?,excluded_reason=? WHERE ... AND excluded_at IS NULL`,
with the number of changed rows. -/
def exclude (db : Ledger) (condition : MailRow → Bool) (reason : ExclusionReason)
    (now : IsoTime) : Nat × Ledger :=
  let hit := fun m : MailRow => condition m && m.excludedAt.isNone
  (db.messages.countP hit, { db with
    messages := db.messages.map fun m =>
      if hit m then { m with excludedAt := some now.text, excludedReason := some reason.text }
      else m })

def excludeMessage (db : Ledger) (messageId target : String) (reason : ExclusionReason)
    (now : IsoTime) : Except Failure (Bool × Ledger) := do
  let messageId ← identifier messageId
  let target ← identifier target
  let (count, db) :=
    exclude db (fun m => m.messageId == messageId && m.targetSessionId == target) reason now
  return (count == 1, db)

/-- Cancel an unread stored message; a completed read wins the race. -/
def cancelMessage (db : Ledger) (messageId : String) (now : IsoTime) :
    Except Failure (Bool × Ledger) := do
  let messageId ← identifier messageId
  match db.join.find? fun row => row.1.messageId = messageId with
  | none => return (false, db)
  | some (m, e) =>
      if e.status = .cancelled ∧ m.excludedReason = some "cancelled" then return (false, db)
      else
        require (e.status = .stored ∧ e.deliveryMode = .mailbox ∧
            m.excludedAt.isNone = true ∧ m.readAt.isNone = true)
          (.mailboxConflict "Message is no longer unread and cancellable")
        return (true, { db with
          messages := db.messages.map fun m =>
            if m.messageId = messageId then
              { m with excludedAt := some now.text, excludedReason := some "cancelled" }
            else m
          envelopes := db.envelopes.map fun e =>
            if e.id = messageId then
              { e with status := .cancelled, lifecycleStatus := "", updatedAt := now.text }
            else e })

def excludePair (db : Ledger) (pairId : String) (now : IsoTime) :
    Except Failure (Nat × Ledger) := do
  let _ ← pairs [pairId]
  return exclude db (fun m => m.pairId == pairId) .revoked now

def excludeSession (db : Ledger) (sessionId : String) (now : IsoTime) :
    Except Failure (Nat × Ledger) := do
  let sessionId ← identifier sessionId
  return exclude db
    (fun m => m.sourceSessionId == sessionId || m.targetSessionId == sessionId) .deleted now

def markReadEventPublished (db : Ledger) (messageId : String) :
    Except Failure (Bool × Ledger) := do
  let messageId ← identifier messageId
  let hit := fun m : MailRow =>
    m.messageId == messageId && m.readAt.isSome && !m.readEventPublished
  return (db.messages.countP hit == 1, { db with
    messages := db.messages.map fun m =>
      if hit m then { m with readEventPublished := true } else m })

end AgentsServer.Mailbox

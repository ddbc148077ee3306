import AgentsServer.Library.Json
import AgentsServer.Library.Outcome
import AgentsServer.Library.Tables

/-!
# Mailbox tables

The rows that the passive inbox keeps on the cross-chat ledger, the part of an
envelope row that it reads, and the checks of its arguments.
-/

namespace AgentsServer.Mailbox

open Library

/-- What the interpreter's Unicode tables decide. -/
class CharacterTables where
  isprintable : Char → Bool

def maxPageItems : Nat := 25

def maxPageBytes : Nat := 112 * 1024

/-- The page budget set aside for titles, the receipt and reply routes. -/
def pageReserve : Nat := 8192

inductive Failure where
  | valueError (text : String)
  | mailboxConflict (text : String)
  | integrityError (constraint : String)
  | databaseFull
  deriving DecidableEq

/-- The text `now_iso()` returns. -/
structure IsoTime where
  text : String
  plain : ∀ c ∈ text.toList, (c.isDigit || c == '-' || c == ':' || c == 'T' || c == 'Z') = true
  short : text.length ≤ 64

/-- The text `uuid.uuid4().hex` returns. -/
structure UuidHex where
  text : String
  hex : isHexOf 32 text.toList = true
  deriving DecidableEq

inductive Kind where
  | instruction
  | finalResult
  deriving DecidableEq

inductive AuthorizationKind where
  | explicitPrompt
  | configuredRoute
  deriving DecidableEq

inductive Status where
  | waitingAdmission
  | waitingSource
  | ready
  | submitting
  | queued
  | running
  | delivered
  | failed
  | cancelled
  | stored
  deriving DecidableEq

inductive DeliveryMode where
  | direct
  | mailbox
  deriving DecidableEq

/-- A row of `cross_chat_envelopes`, as far as the mailbox reads or writes it. -/
structure Envelope where
  id : String
  kind : Kind
  sourceSessionId : String
  sourceRunId : String
  targetSessionId : String
  body : String
  sourceUserInstruction : String
  sourceUserDelegationAction : String
  authorizationKind : AuthorizationKind
  authorizationPairId : String
  status : Status
  deliveryMode : DeliveryMode
  replyToMessageId : Option String
  targetRunId : Option String
  targetBody : Option String
  messageRevision : Nat
  lifecycleStatus : String
  createdAt : String
  updatedAt : String
  deriving DecidableEq

/-- A row of `chat_mailbox_messages`. -/
structure MailRow where
  mailboxSeq : Nat
  messageId : String
  sourceSessionId : String
  targetSessionId : String
  pairId : String
  storedAt : String
  inReplyToMessageId : Option String
  readId : Option String
  readAt : Option String
  excludedAt : Option String
  excludedReason : Option String
  readEventPublished : Bool
  deriving DecidableEq

/-- A row of `chat_mailbox_reads`. -/
structure ReadRow where
  id : String
  targetSessionId : String
  sourceSessionId : String
  readerRunId : String
  requestId : String
  snapshotSeq : Nat
  pageLimit : Nat
  createdAt : String
  deriving DecidableEq

/-- A row of `chat_mailbox_read_pages`, with `message_ids_json` decoded. -/
structure PageRow where
  readId : String
  afterSeq : Nat
  endSeq : Nat
  hasMore : Bool
  messageIds : List String
  deriving DecidableEq

inductive WakeState where
  | reserved
  | admitted
  deriving DecidableEq

/-- A row of `chat_mailbox_wakes`. -/
structure WakeRow where
  targetSessionId : String
  lastAttemptSeq : Nat
  suppressedSeq : Nat
  claimId : Option String
  throughSeq : Nat
  state : Option WakeState
  runId : Option String
  updatedAt : String
  deriving DecidableEq

/-- The ledger the mailbox works on. `sequence` is the `AUTOINCREMENT` counter
of the message table. The last two fields are not stored anywhere: they
remember which envelope ids were deleted and which claim ids were handed out,
so that a run can say that neither is used again. -/
structure Ledger where
  envelopes : List Envelope
  messages : List MailRow
  reads : List ReadRow
  pages : List PageRow
  wakes : List WakeRow
  sequence : Nat
  deletedIds : List String
  issuedClaims : List String

/-- The ledger `initialize` creates. -/
def Ledger.empty : Ledger where
  envelopes := []
  messages := []
  reads := []
  pages := []
  wakes := []
  sequence := 0
  deletedIds := []
  issuedClaims := []

def Ledger.envelope? (db : Ledger) (id : String) : Option Envelope :=
  Tables.find Envelope.id db.envelopes id

def Ledger.message? (db : Ledger) (id : String) : Option MailRow :=
  Tables.find MailRow.messageId db.messages id

def Ledger.wake? (db : Ledger) (target : String) : Option WakeRow :=
  Tables.find WakeRow.targetSessionId db.wakes target

/-! ## Argument checks -/

def identifier [CharacterTables] (value : String) : Except Failure String := do
  require (value ≠ "" ∧ value.length ≤ 240 ∧
      value.toList.all CharacterTables.isprintable = true)
    (.valueError "Invalid mailbox identifier")
  return value

def limit (value : Int) : Except Failure Nat := do
  require (1 ≤ value ∧ value ≤ maxPageItems)
    (.valueError "Mailbox page limit must be between 1 and 25")
  return value.toNat

/-- The largest SQLite integer, which bounds every row id. -/
def maxRowId : Nat := 2 ^ 63 - 1

def cursor (value : Int) : Except Failure Nat := do
  require (0 ≤ value ∧ value ≤ maxRowId) (.valueError "Invalid mailbox cursor")
  return value.toNat

def isPair (value : String) : Bool :=
  isPrefixedHex "pair_" 32 value

/-- The authorized pairs of a call. Only membership in them is ever used, so
the list is not sorted. -/
def pairs (values : List String) : Except Failure (List String) := do
  require (values.all isPair = true) (.valueError "Invalid authorized pair")
  return values

theorem identifier_eq_ok [CharacterTables] {value out : String} (h : identifier value = .ok out) :
    out = value ∧ value ≠ "" := by
  simp only [identifier, bind_eq_ok, require_eq_ok, pure_eq_ok] at h
  obtain ⟨_, hv, rfl⟩ := h
  exact ⟨rfl, hv.1⟩

theorem limit_eq_ok {value : Int} {out : Nat} (h : limit value = .ok out) :
    1 ≤ out ∧ out ≤ maxPageItems ∧ (out : Int) = value := by
  simp only [limit, bind_eq_ok, require_eq_ok, pure_eq_ok] at h
  obtain ⟨_, hv, rfl⟩ := h
  omega

theorem limit_ok {n : Nat} (h : 1 ≤ n ∧ n ≤ maxPageItems) : limit n = .ok n := by
  simp only [limit, bind_eq_ok, require_eq_ok, pure_eq_ok]
  exact ⟨(), ⟨by omega, by omega⟩, by omega⟩

theorem cursor_eq_ok {value : Int} {out : Nat} (h : cursor value = .ok out) :
    (out : Int) = value ∧ out ≤ maxRowId := by
  simp only [cursor, bind_eq_ok, require_eq_ok, pure_eq_ok] at h
  obtain ⟨_, hv, rfl⟩ := h
  omega

theorem cursor_ok {n : Nat} (h : n ≤ maxRowId) : cursor n = .ok n := by
  simp only [cursor, bind_eq_ok, require_eq_ok, pure_eq_ok]
  exact ⟨(), ⟨by omega, by omega⟩, by omega⟩

theorem pairs_eq_ok {values out : List String} (h : pairs values = .ok out) :
    out = values := by
  simp only [pairs, bind_eq_ok, require_eq_ok, pure_eq_ok] at h
  obtain ⟨_, _, rfl⟩ := h
  rfl

end AgentsServer.Mailbox

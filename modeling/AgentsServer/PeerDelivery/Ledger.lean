import AgentsServer.Library.Runs
import AgentsServer.Library.Tables
import AgentsServer.PeerDelivery.Claim

/-!
# The delivery ledger

The rows of `secure_peer_deliveries` and the operations on them. Each operation
is one transaction.
-/

namespace AgentsServer.PeerDelivery

open Library Library.Runs

def maxNonterminalDeliveries : Nat := 2048

inductive State where
  | prepared
  | authorized
  | queued
  | running
  | completed
  | failed
  deriving DecidableEq

def State.isTerminal : State → Bool
  | .completed | .failed => true
  | _ => false

/-- The states in which a response may be prepared or committed. -/
def State.isLive : State → Bool
  | .authorized | .queued | .running => true
  | _ => false

structure Row where
  claim : Claim
  claimDigest : String
  leaseToken : String
  state : State
  queuedId : Option String
  runId : Option String
  admissionRetryAt : Option Int
  admissionAttempts : Nat
  admissionLastError : Option String
  responseCommitted : Bool
  responseRequestId : Option String
  responseRequestDigest : Option String
  responseBody : Option String
  responseRequestResponse : Option Bool
  responseRetryAt : Option Int
  responseAttempts : Nat
  responseLastError : Option String
  resultHash : Option String
  error : Option String
  createdAt : Int
  updatedAt : Int

def Row.envelopeId (row : Row) : String :=
  row.claim.envelopeId

/-- `_public` gives the body back as parsed, which is the one it was written from. -/
structure Ledger where
  rows : List Row

def Ledger.empty : Ledger where
  rows := []

def Ledger.row? (db : Ledger) (envelopeId : String) : Option Row :=
  Tables.find Row.envelopeId db.rows envelopeId

/-- Two rows with no owner in common. -/
def OwnersApart (a b : Row) : Prop :=
  (a.queuedId = none ∨ a.queuedId ≠ b.queuedId) ∧ (a.runId = none ∨ a.runId ≠ b.runId)

instance (a b : Row) : Decidable (OwnersApart a b) := by
  unfold OwnersApart
  infer_instance

/-- The two partial unique indexes over the owner columns. -/
def OwnersUnique (rows : List Row) : Prop :=
  rows.Pairwise OwnersApart

instance (rows : List Row) : Decidable (OwnersUnique rows) := by
  unfold OwnersUnique
  infer_instance

/-- `UPDATE ... SET ... WHERE ...`. -/
def Ledger.update (db : Ledger) (guard : Row → Bool) (change : Row → Row) :
    Except Failure Ledger := do
  let rows := db.rows.map fun row => if guard row then change row else row
  require (OwnersUnique rows) (.integrityError "secure_peer_delivery_owner")
  return { rows }

/-- `INSERT` of a row without an owner. -/
def Ledger.insert (db : Ledger) (row : Row) : Except Failure Ledger := do
  require (db.row? row.envelopeId = none) (.integrityError "secure_peer_deliveries.envelope_id")
  return { rows := db.rows ++ [row] }

/-- `rowcount` of an update. -/
def Ledger.rowcount (db : Ledger) (guard : Row → Bool) : Nat :=
  db.rows.countP guard

def Ledger.nonterminal (db : Ledger) : Nat :=
  db.rows.countP fun row => !row.state.isTerminal

/-- The row read back after a write, asserted to be there. -/
def Ledger.reread (db : Ledger) (envelopeId : String) : Except Failure Row :=
  match db.row? envelopeId with
  | some row => .ok row
  | none => .error .assertionError

def fitsInteger (n : Int) : Prop :=
  -9223372036854775808 ≤ n ∧ n ≤ 9223372036854775807

instance (n : Int) : Decidable (fitsInteger n) := by
  unfold fitsInteger
  infer_instance

def clip (error : String) : String :=
  String.ofList (error.toList.take 400)

/-- Seconds until the next attempt. -/
def delay (attempts : Nat) : Nat :=
  min 300 (2 ^ min attempts 8)

def newRow (claim : Claim) (digest leaseToken : String) (now : Int) : Row where
  claim
  claimDigest := digest
  leaseToken
  state := .prepared
  queuedId := none
  runId := none
  admissionRetryAt := none
  admissionAttempts := 0
  admissionLastError := none
  responseCommitted := false
  responseRequestId := none
  responseRequestDigest := none
  responseBody := none
  responseRequestResponse := none
  responseRetryAt := none
  responseAttempts := 0
  responseLastError := none
  resultHash := none
  error := none
  createdAt := now
  updatedAt := now

/-! ## Admission -/

section Operations

variable [Sha256]

def prepare [Conversions] (db : Ledger) (envelope : Envelope)
    (role connectionId leaseToken targetChatId : String) (now : Int) :
    Except Failure ((Row × Bool) × Ledger) := do
  let claim ← makeClaim envelope role connectionId leaseToken targetChatId
  let digest := claim.digest
  match db.row? claim.envelopeId with
  | some row =>
      require (row.claimDigest = digest)
        (.runtimeError "secure peer envelope identity changed")
      if row.state = .prepared ∧ row.leaseToken ≠ leaseToken then
        let db ← db.update
          (fun row => row.envelopeId = claim.envelopeId ∧ row.state = .prepared ∧
            row.claimDigest = digest)
          (fun row => { row with leaseToken, updatedAt := now })
        let row ← db.reread claim.envelopeId
        return ((row, false), db)
      else return ((row, false), db)
  | none =>
      let db ← db.update (fun row => row.state = .prepared ∧ row.claim.expiresAt ≤ now)
        (fun row => { row with
          state := .failed, error := some "secure peer exchange expired", updatedAt := now })
      require (db.nonterminal < maxNonterminalDeliveries)
        (.runtimeError "secure peer delivery capacity is full")
      require ((∀ leg ∈ claim.parentLeg, fitsInteger leg) ∧ fitsInteger claim.expiresAt)
        .overflowError
      let db ← db.insert (newRow claim digest leaseToken now)
      let row ← db.reread claim.envelopeId
      return ((row, true), db)

/-- `_transition`, with the patch of the columns it may set. -/
def transition (db : Ledger) (envelopeId : String) (expected : List State) (state : State)
    (patch : Row → Row) (now : Int) : Except Failure (Option Row × Ledger) := do
  let guard := fun row : Row => decide (row.envelopeId = envelopeId ∧ row.state ∈ expected)
  let db' ← db.update guard fun row => { patch row with state, updatedAt := now }
  if db.rowcount guard ≠ 1 then return (none, db')
  else return (db'.row? envelopeId, db')

def authorize (db : Ledger) (envelopeId : String) (now : Int) :
    Except Failure (Option Row × Ledger) :=
  transition db envelopeId [.prepared, .authorized] .authorized id now

def failOwnerlessAuthorized (db : Ledger) (envelopeId error : String) (now : Int) :
    Except Failure (Option Row × Ledger) := do
  let db ← db.update
    (fun row => row.envelopeId = envelopeId ∧ row.state = .authorized ∧ row.queuedId = none ∧
      row.runId = none)
    (fun row => { row with
      state := .failed, error := some (clip error), admissionRetryAt := none,
      admissionLastError := none, updatedAt := now })
  return (db.row? envelopeId, db)

def bindOwner (db : Ledger) (envelopeId : String) (queuedId runId : Option String) (now : Int) :
    Except Failure (Option Row × Ledger) := do
  require (¬ (queuedId = none ∧ runId = none))
    (.valueError "secure peer delivery owner is empty")
  match db.row? envelopeId with
  | none => return (none, db)
  | some row =>
      match row.state with
      | .authorized =>
          let next := if runId ≠ none then State.running else State.queued
          let db ← db.update
            (fun row => row.envelopeId = envelopeId ∧ row.state = .authorized ∧
              row.queuedId = none ∧ row.runId = none)
            (fun row => { row with
              state := next, queuedId, runId, admissionRetryAt := none,
              admissionLastError := none, updatedAt := now })
          return (db.row? envelopeId, db)
      | .queued =>
          if row.queuedId ≠ queuedId ∨ row.runId ≠ none then return (none, db)
          else if runId ≠ none then
            let db ← db.update
              (fun row => row.envelopeId = envelopeId ∧ row.state = .queued ∧
                queuedId ≠ none ∧ row.queuedId = queuedId ∧ row.runId = none)
              (fun row => { row with
                state := .running, runId, admissionRetryAt := none, admissionLastError := none,
                updatedAt := now })
            return (db.row? envelopeId, db)
          else return (db.row? envelopeId, db)
      | .running =>
          if row.queuedId ≠ queuedId ∨ row.runId ≠ runId then return (none, db)
          else return (db.row? envelopeId, db)
      | _ => return (none, db)

def deferAdmission (db : Ledger) (envelopeId error : String) (now : Int) :
    Except Failure (Option Row × Ledger) := do
  match db.row? envelopeId with
  | none => return (none, db)
  | some row =>
      if row.state ≠ .authorized ∨ row.queuedId ≠ none ∨ row.runId ≠ none then
        return (some row, db)
      else
        let attempts := row.admissionAttempts + 1
        let db ← db.update
          (fun row => row.envelopeId = envelopeId ∧ row.state = .authorized ∧
            row.queuedId = none ∧ row.runId = none)
          (fun row => { row with
            admissionAttempts := attempts, admissionRetryAt := some (now + delay attempts),
            admissionLastError := some (clip error), updatedAt := now })
        return (db.row? envelopeId, db)

def finish (db : Ledger) (envelopeId : String) (succeeded : Bool) (resultText : String)
    (error : Option String) (now : Int) : Except Failure (Option Row × Ledger) :=
  transition db envelopeId
    (if succeeded then [.authorized, .queued, .running]
      else [.prepared, .authorized, .queued, .running])
    (if succeeded then .completed else .failed)
    (fun row => { row with
      resultHash :=
        if resultText ≠ "" then some (Sha256.hexdigest (utf8 resultText.toList)) else none
      error })
    now

/-! ## Responses -/

def responseIntent (requestId body : String) (requestResponse : Bool) : Json :=
  .obj [("request_id", .str requestId), ("body", .str body),
    ("request_response", .bool requestResponse)]

def prepareResponse (db : Ledger) (envelopeId requestId body : String) (requestResponse : Bool)
    (now : Int) : Except Failure (Option Row × Ledger) := do
  require (requestId ≠ "" ∧ isBlank body = false ∧ body.length ≤ 100000)
    (.valueError "secure peer response intent is invalid")
  let digest := Sha256.hexdigest (utf8 (responseIntent requestId body requestResponse).canonical)
  match db.row? envelopeId with
  | none => return (none, db)
  | some row =>
      if row.state.isLive = false ∨ row.claim.kind = .instruction then return (none, db)
      else
        match row.responseRequestDigest with
        | some existing =>
            require (existing = digest) (.runtimeError "secure peer response intent changed")
            return (some row, db)
        | none =>
            let db ← db.update
              (fun row => row.envelopeId = envelopeId ∧ row.responseRequestDigest = none ∧
                row.responseCommitted = false ∧ row.state.isLive = true)
              (fun row => { row with
                responseRequestId := some requestId, responseRequestDigest := some digest,
                responseBody := some body, responseRequestResponse := some requestResponse,
                responseRetryAt := some now, responseAttempts := 0, responseLastError := none,
                updatedAt := now })
            return (db.row? envelopeId, db)

def markResponseCommitted (db : Ledger) (envelopeId : String) (requestId : Option String)
    (now : Int) : Except Failure (Option Row × Ledger) := do
  let guard := fun row : Row => decide (row.envelopeId = envelopeId ∧ row.state.isLive = true ∧
    row.responseCommitted = false ∧ (requestId = none ∨ row.responseRequestId = requestId))
  let db' ← db.update guard fun row => { row with
    responseCommitted := true, responseRetryAt := none, responseLastError := none,
    updatedAt := now }
  require (db.rowcount guard ≤ 1) (.runtimeError "secure peer response state is ambiguous")
  return (db'.row? envelopeId, db')

def clearResponseIntent (db : Ledger) (envelopeId requestId : String) (now : Int) :
    Except Failure (Option Row × Ledger) := do
  let db ← db.update
    (fun row => row.envelopeId = envelopeId ∧ row.responseRequestId = some requestId ∧
      row.responseCommitted = false ∧ row.state.isLive = true)
    (fun row => { row with
      responseRequestId := none, responseRequestDigest := none, responseBody := none,
      responseRequestResponse := none, responseRetryAt := none, responseAttempts := 0,
      responseLastError := none, updatedAt := now })
  return (db.row? envelopeId, db)

def deferResponse (db : Ledger) (envelopeId requestId error : String) (now : Int) :
    Except Failure (Option Row × Ledger) := do
  match db.row? envelopeId with
  | none => return (none, db)
  | some row =>
      if row.state.isLive = false ∨ row.responseRequestId ≠ some requestId ∨
          row.responseCommitted = true then
        return (some row, db)
      else
        let attempts := row.responseAttempts + 1
        let db ← db.update
          (fun row => row.envelopeId = envelopeId ∧ row.responseRequestId = some requestId ∧
            row.responseCommitted = false ∧ row.state.isLive = true)
          (fun row => { row with
            responseAttempts := attempts, responseRetryAt := some (now + delay attempts),
            responseLastError := some (clip error), updatedAt := now })
        return (db.row? envelopeId, db)

/-! ## The machine -/

inductive Action where
  | prepare (envelope : Envelope) (role connectionId leaseToken targetChatId : String) (now : Int)
  | authorize (envelopeId : String) (now : Int)
  | failOwnerlessAuthorized (envelopeId error : String) (now : Int)
  | bindOwner (envelopeId : String) (queuedId runId : Option String) (now : Int)
  | deferAdmission (envelopeId error : String) (now : Int)
  | finish (envelopeId : String) (succeeded : Bool) (resultText : String) (error : Option String)
      (now : Int)
  | prepareResponse (envelopeId requestId body : String) (requestResponse : Bool) (now : Int)
  | markResponseCommitted (envelopeId : String) (requestId : Option String) (now : Int)
  | clearResponseIntent (envelopeId requestId : String) (now : Int)
  | deferResponse (envelopeId requestId error : String) (now : Int)

/-- What a committed operation answers. -/
inductive Answer where
  | prepared (row : Row) (created : Bool)
  | row (value : Option Row)

variable [Conversions]

/-- The body of an action's transaction. -/
def perform (db : Ledger) : Action → Except Failure (Answer × Ledger)
  | .prepare envelope role connectionId leaseToken targetChatId now =>
      (prepare db envelope role connectionId leaseToken targetChatId now).map
        fun r => (.prepared r.1.1 r.1.2, r.2)
  | .authorize envelopeId now => (authorize db envelopeId now).map fun r => (.row r.1, r.2)
  | .failOwnerlessAuthorized envelopeId error now =>
      (failOwnerlessAuthorized db envelopeId error now).map fun r => (.row r.1, r.2)
  | .bindOwner envelopeId queuedId runId now =>
      (bindOwner db envelopeId queuedId runId now).map fun r => (.row r.1, r.2)
  | .deferAdmission envelopeId error now =>
      (deferAdmission db envelopeId error now).map fun r => (.row r.1, r.2)
  | .finish envelopeId succeeded resultText error now =>
      (finish db envelopeId succeeded resultText error now).map fun r => (.row r.1, r.2)
  | .prepareResponse envelopeId requestId body requestResponse now =>
      (prepareResponse db envelopeId requestId body requestResponse now).map
        fun r => (.row r.1, r.2)
  | .markResponseCommitted envelopeId requestId now =>
      (markResponseCommitted db envelopeId requestId now).map fun r => (.row r.1, r.2)
  | .clearResponseIntent envelopeId requestId now =>
      (clearResponseIntent db envelopeId requestId now).map fun r => (.row r.1, r.2)
  | .deferResponse envelopeId requestId error now =>
      (deferResponse db envelopeId requestId error now).map fun r => (.row r.1, r.2)

/-- One call is one transaction, rolled back if it raises. -/
def step (db : Ledger) (action : Action) : Ledger × Except Failure Answer :=
  atomically db (perform db action)

/-- The ledger after a list of calls on a fresh table. -/
def after (actions : List Action) : Ledger :=
  run step Ledger.empty actions

end Operations

end AgentsServer.PeerDelivery

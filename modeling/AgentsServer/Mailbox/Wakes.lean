import AgentsServer.Mailbox.Operations

/-!
# Idle wakes

The durable per-chat wake row: reserve a cutoff, admit it once, release or
suppress a reservation, and drop every reservation at startup.
-/

namespace AgentsServer.Mailbox

open Library

variable [CharacterTables]

/-- `COALESCE(MAX(m.mailbox_seq),0)` over the joined rows that meet a condition. -/
def maxSeq (db : Ledger) (condition : Joined → Bool) : Nat :=
  ((db.join.filter condition).map fun row => row.1.mailboxSeq).foldl max 0

/-- `UPDATE chat_mailbox_wakes SET ... WHERE target_session_id=?`, or the insert
of a first row. -/
def upsertWake (db : Ledger) (target : String) (fresh : WakeRow) (change : WakeRow → WakeRow) :
    Ledger :=
  if db.wakes.any fun w => w.targetSessionId = target then
    { db with wakes := db.wakes.map fun w => if w.targetSessionId = target then change w else w }
  else { db with wakes := db.wakes ++ [fresh] }

/-- A wake row with its column defaults. -/
def blankWake (target : String) (now : IsoTime) : WakeRow where
  targetSessionId := target
  lastAttemptSeq := 0
  suppressedSeq := 0
  claimId := none
  throughSeq := 0
  state := none
  runId := none
  updatedAt := now.text

/-- The reservation of a row is dropped. -/
def WakeRow.unclaim (w : WakeRow) : WakeRow :=
  { w with claimId := none, throughSeq := 0, state := none, runId := none }

/-- The cutoff behind which no message wakes the chat again. -/
def WakeRow.cutoff (w : WakeRow) : Nat :=
  max w.lastAttemptSeq w.suppressedSeq

/-- Unread rows of a scope behind a cutoff. -/
def unreadAfter (scope : Scope) (cutoff : Nat) (row : Joined) : Bool :=
  scope.admits row && row.1.readAt.isNone && decide (cutoff < row.1.mailboxSeq)

/-- Reserve one authorized unread cutoff. The claim id is a fresh `uuid4`. -/
def claimWake (db : Ledger) (target : String) (allowed : List String) (now : IsoTime)
    (uuid : UuidHex) : Except Failure (Option WakeRow × Ledger) := do
  let scope ← scope target none allowed
  let prior := db.wake? target
  if (prior.bind WakeRow.state) = some .reserved then return (none, db)
  else
    let cutoff := (prior.map WakeRow.cutoff).getD 0
    let throughSeq := maxSeq db (unreadAfter scope cutoff)
    if throughSeq = 0 then return (none, db)
    else
      let claimId := "mailwake_" ++ uuid.text
      require (claimId ∉ db.issuedClaims) (.integrityError "chat_mailbox_wakes.claim_id")
      let claim := fun w : WakeRow => { w with
        claimId := some claimId
        throughSeq := throughSeq
        state := some WakeState.reserved
        runId := none
        updatedAt := now.text }
      let db := upsertWake { db with issuedClaims := claimId :: db.issuedClaims } target
        (claim (blankWake target now)) claim
      return (db.wake? target, db)

/-- The row that a claim still reserves. -/
def holdsClaim (target claimId : String) (w : WakeRow) : Bool :=
  w.targetSessionId == target && w.claimId == some claimId && w.state == some .reserved

/-- Consume one reservation before the provider launch. -/
def admitWake (db : Ledger) (target claimId runId : String) (allowed : List String)
    (now : IsoTime) : Except Failure (Bool × Ledger) := do
  let scope ← scope target none allowed
  let claimId ← identifier claimId
  let runId ← identifier runId
  match db.wakes.find? (holdsClaim target claimId) with
  | none => return (false, db)
  | some claim =>
      if db.join.any fun row =>
          unreadAfter scope claim.cutoff row && decide (row.1.mailboxSeq ≤ claim.throughSeq) then
        return (db.wakes.countP (holdsClaim target claimId) == 1, { db with
          wakes := db.wakes.map fun w =>
            if holdsClaim target claimId w then
              { w with
                state := some .admitted
                runId := some runId
                lastAttemptSeq := max w.lastAttemptSeq w.throughSeq
                updatedAt := now.text }
            else w })
      else return (false, db)

/-- Release only a known unlaunched reservation. -/
def releaseWake (db : Ledger) (target claimId : String) : Except Failure (Bool × Ledger) := do
  let target ← identifier target
  let claimId ← identifier claimId
  return (db.wakes.countP (holdsClaim target claimId) == 1, { db with
    wakes := db.wakes.map fun w => if holdsClaim target claimId w then w.unclaim else w })

/-- The unread mail that a stop suppresses, whoever may read it. -/
def unreadOf (target : String) (row : Joined) : Bool :=
  valid row && row.1.targetSessionId == target && row.1.readAt.isNone

/-- Stop suppresses the unread mail of a chat without reading it. -/
def suppressWake (db : Ledger) (target : String) (now : IsoTime) :
    Except Failure (Nat × Ledger) := do
  let target ← identifier target
  let throughSeq := maxSeq db (unreadOf target)
  let db := upsertWake db target { blankWake target now with suppressedSeq := throughSeq }
    fun w => { w with suppressedSeq := max w.suppressedSeq throughSeq, updatedAt := now.text }
  let db := { db with
    wakes := db.wakes.map fun w =>
      if w.targetSessionId = target ∧ w.state = some .reserved then w.unclaim else w }
  return (((db.wake? target).map WakeRow.suppressedSeq).getD 0, db)

/-- Startup: no provider may launch before its reservation is admitted. -/
def recoverWakes (db : Ledger) : Nat × Ledger :=
  (db.wakes.countP fun w => w.state == some .reserved, { db with
    wakes := db.wakes.map fun w => if w.state = some .reserved then w.unclaim else w })

end AgentsServer.Mailbox

import AgentsServer.Library.Runs
import AgentsServer.Mailbox.Wakes

/-!
# The mailbox as a machine

One action for each operation, with all its arguments, and for what the
cross-chat ledger does around the mailbox. A step is one transaction.
-/

namespace AgentsServer.Mailbox

open Library Library.Runs

inductive Action where
  | putEnvelope (e : Envelope)
  | deleteEnvelope (id : String)
  | setLifecycle (id lifecycleStatus : String) (now : IsoTime)
  | storeMessage (messageId : String) (now : IsoTime) (inReplyTo : Option String) (skip : Nat)
  | readSender (req : ReadRequest) (uuid : UuidHex)
  | cancelMessage (messageId : String) (now : IsoTime)
  | excludeMessage (messageId target : String) (reason : ExclusionReason) (now : IsoTime)
  | excludePair (pairId : String) (now : IsoTime)
  | excludeSession (sessionId : String) (now : IsoTime)
  | markReadEventPublished (messageId : String)
  | claimWake (target : String) (allowed : List String) (now : IsoTime) (uuid : UuidHex)
  | admitWake (target claimId runId : String) (allowed : List String) (now : IsoTime)
  | releaseWake (target claimId : String)
  | suppressWake (target : String) (now : IsoTime)
  | recoverWakes

/-- What a committed operation answers. -/
inductive Answer where
  | done
  | flag (value : Bool)
  | count (value : Nat)
  | stored (value : Message)
  | read (value : ReadReply)
  | claim (value : Option WakeRow)

variable [CharacterTables]

/-- The body of an action's transaction. -/
def perform (db : Ledger) : Action → Except Failure (Answer × Ledger)
  | .putEnvelope e => (putEnvelope db e).map fun r => (.done, r.2)
  | .deleteEnvelope id => .ok (.done, deleteEnvelope db id)
  | .setLifecycle id lifecycleStatus now => .ok (.done, setLifecycle db id lifecycleStatus now)
  | .storeMessage messageId now inReplyTo skip =>
      (storeMessage db messageId now inReplyTo skip).map fun r => (.stored r.1, r.2)
  | .readSender req uuid => (readSender db req uuid).map fun r => (.read r.1, r.2)
  | .cancelMessage messageId now => (cancelMessage db messageId now).map fun r => (.flag r.1, r.2)
  | .excludeMessage messageId target reason now =>
      (excludeMessage db messageId target reason now).map fun r => (.flag r.1, r.2)
  | .excludePair pairId now => (excludePair db pairId now).map fun r => (.count r.1, r.2)
  | .excludeSession sessionId now =>
      (excludeSession db sessionId now).map fun r => (.count r.1, r.2)
  | .markReadEventPublished messageId =>
      (markReadEventPublished db messageId).map fun r => (.flag r.1, r.2)
  | .claimWake target allowed now uuid =>
      (claimWake db target allowed now uuid).map fun r => (.claim r.1, r.2)
  | .admitWake target claimId runId allowed now =>
      (admitWake db target claimId runId allowed now).map fun r => (.flag r.1, r.2)
  | .releaseWake target claimId => (releaseWake db target claimId).map fun r => (.flag r.1, r.2)
  | .suppressWake target now => (suppressWake db target now).map fun r => (.count r.1, r.2)
  | .recoverWakes => .ok (.count (recoverWakes db).1, (recoverWakes db).2)

/-- One call is one transaction, rolled back if it raises. -/
def step (db : Ledger) (action : Action) : Ledger × Except Failure Answer :=
  atomically db (perform db action)

/-- The ledger after a list of calls on fresh tables. -/
def after (actions : List Action) : Ledger :=
  run step Ledger.empty actions

end AgentsServer.Mailbox

import AgentsServer.PeerDelivery.Ledger
import Mathlib.Data.Prod.Lex
import Mathlib.Data.String.Basic

/-!
# The outbound intents

The rows of `secure_peer_outbound_intents`, beside the deliveries in one database.
An intent is written before it is submitted, tried again until it is settled, and
pruned some time after that.
-/

namespace AgentsServer.PeerDelivery

open Library

inductive OutboundState where
  | pending
  | committed
  | failed
  deriving DecidableEq

structure Outbound where
  requestId : String
  intentDigest : String
  sourceSessionId : String
  sourceRunId : String
  connectionId : String
  sourceRouteId : String
  sourceRouteRevision : String
  snapshotJson : List Char
  body : String
  action : DeliveryAction
  expiresAt : Int
  state : OutboundState
  responseJson : Option (List Char)
  retryAt : Option Int
  attempts : Nat
  lastError : Option String
  createdAt : Int
  updatedAt : Int

namespace Outbound

def fail (row : Outbound) (error : String) (now : Int) : Outbound :=
  { row with state := .failed, retryAt := none, lastError := some error, updatedAt := now }

def commit (row : Outbound) (response : List Char) (now : Int) : Outbound :=
  { row with
    state := .committed, responseJson := some response, retryAt := none, lastError := none
    updatedAt := now }

def defer (row : Outbound) (error : String) (now : Int) : Outbound :=
  let attempts := row.attempts + 1
  { row with
    attempts, retryAt := some (now + delay attempts), lastError := some (clip error)
    updatedAt := now }

/-- `created_at,request_id`. -/
def age (row : Outbound) : Int ×ₗ String := toLex (row.createdAt, row.requestId)

/-- `COALESCE(retry_at,0),created_at,request_id`. -/
def turn (row : Outbound) : Int ×ₗ (Int ×ₗ String) := toLex (row.retryAt.getD 0, row.age)

end Outbound

/-- The arguments of `prepare_outbound`. -/
structure Intent where
  requestId : String
  sourceSessionId : String
  sourceRunId : String
  snapshot : Envelope
  body : String
  action : String
  expiresAt : Int

def Intent.json (intent : Intent) : Json :=
  .obj [
    ("request_id", .str intent.requestId),
    ("source_session_id", .str intent.sourceSessionId),
    ("source_run_id", .str intent.sourceRunId),
    ("snapshot", .obj intent.snapshot),
    ("body", .str intent.body),
    ("action", .str intent.action),
    ("expires_at", .num (.ofInt intent.expiresAt))]

def Intent.digest [Sha256] (intent : Intent) : String :=
  Sha256.hexdigest (utf8 intent.json.canonical)

/-- `action not in {"instruction", "request_reply"}` and the other checks. -/
def Intent.checked [Conversions] (intent : Intent) : Except Failure DeliveryAction := do
  let invalid : Failure := .valueError "secure peer outbound intent is invalid"
  require (intent.requestId ≠ "" ∧ intent.sourceSessionId ≠ "" ∧ intent.sourceRunId ≠ "" ∧
    text intent.snapshot "connection_id" ≠ "" ∧ text intent.snapshot "source_route_id" ≠ "" ∧
    text intent.snapshot "source_route_revision" ≠ "" ∧
    text intent.snapshot "source_chat_id" = intent.sourceSessionId ∧
    text intent.snapshot "action" = intent.action ∧
    isBlank intent.body = false ∧ intent.body.length ≤ 100000) invalid
  required (action? intent.action) invalid

def Intent.row [Sha256] [Conversions] (intent : Intent) (action : DeliveryAction) (now : Int) :
    Outbound where
  requestId := intent.requestId
  intentDigest := intent.digest
  sourceSessionId := intent.sourceSessionId
  sourceRunId := intent.sourceRunId
  connectionId := text intent.snapshot "connection_id"
  sourceRouteId := text intent.snapshot "source_route_id"
  sourceRouteRevision := text intent.snapshot "source_route_revision"
  snapshotJson := (Json.obj intent.snapshot).canonical
  body := intent.body
  action
  expiresAt := intent.expiresAt
  state := .pending
  responseJson := none
  retryAt := some now
  attempts := 0
  lastError := none
  createdAt := now
  updatedAt := now

/-- The pending intents that an operation asks for. -/
inductive Scope where
  | chat (sourceSessionId : String)
  | route (connectionId sourceRouteId sourceRouteRevision : String)
  | connection (connectionId : String)

def Scope.selects (row : Outbound) : Scope → Bool
  | .chat sourceSessionId => row.sourceSessionId == sourceSessionId
  | .route connectionId sourceRouteId sourceRouteRevision =>
      row.connectionId == connectionId && row.sourceRouteId == sourceRouteId &&
        row.sourceRouteRevision == sourceRouteRevision
  | .connection connectionId => row.connectionId == connectionId

/-- `SELECT ... WHERE state='pending' AND ... ORDER BY ...`. -/
def pendingBy {κ : Type} [LinearOrder κ] (key : Outbound → κ) (selected : Outbound → Bool)
    (rows : List Outbound) : List Outbound :=
  (rows.filter fun row => decide (row.state = .pending) && selected row).mergeSort
    fun a b => decide (key a ≤ key b)

/-- `UPDATE ... WHERE state='pending' AND ...`. -/
def updatePending (rows : List Outbound) (selected : Outbound → Bool)
    (change : Outbound → Outbound) : List Outbound :=
  rows.map fun row => if row.state = .pending ∧ selected row = true then change row else row

section Operations

variable (rows : List Outbound)

def outbound? (requestId : String) : Option Outbound :=
  Tables.find Outbound.requestId rows requestId

def prepareOutbound [Sha256] [Conversions] (intent : Intent) (now : Int) :
    Except Failure ((Outbound × Bool) × List Outbound) := do
  let action ← intent.checked
  match outbound? rows intent.requestId with
  | some row =>
      require (row.intentDigest = intent.digest)
        (.runtimeError "secure peer outbound intent changed")
      return ((row, false), rows)
  | none =>
      require (fitsInteger intent.expiresAt) .overflowError
      return ((intent.row action now, true), rows ++ [intent.row action now])

def expirePendingOutbound (now : Int) : List Outbound :=
  updatePending rows (fun row => decide (row.expiresAt ≤ now))
    fun row => row.fail "secure peer exchange expired" now

/-- `pending_outbound_for_chat`, `_for_route` and `_for_connection`. -/
def pendingOutboundFor (scope : Scope) (now : Int) : List Outbound × List Outbound :=
  let rows := expirePendingOutbound rows now
  (pendingBy Outbound.age scope.selects rows, rows)

def commitOutbound (requestId : String) (response : Envelope) (now : Int) :
    Except Failure (Option Outbound × List Outbound) := do
  let text := (Json.obj response).canonical
  match outbound? rows requestId with
  | none => return (none, rows)
  | some row =>
      match row.state with
      | .committed =>
          require (row.responseJson.getD [] = text)
            (.runtimeError "secure peer outbound result changed")
          return (some row, rows)
      | .failed => return (some row, rows)
      | .pending =>
          let rows := updatePending rows (fun row => row.requestId == requestId)
            fun row => row.commit text now
          return (outbound? rows requestId, rows)

def deferOutbound (requestId error : String) (now : Int) : Option Outbound × List Outbound :=
  let rows := updatePending rows (fun row => row.requestId == requestId)
    fun row => row.defer error now
  (outbound? rows requestId, rows)

def failOutbound (requestId error : String) (now : Int) : Option Outbound × List Outbound :=
  let rows := updatePending rows (fun row => row.requestId == requestId)
    fun row => row.fail (clip error) now
  (outbound? rows requestId, rows)

def pendingOutbound (limit now : Int) : Except Failure (List Outbound) := do
  require (1 ≤ limit ∧ limit ≤ 50) (.valueError "secure peer outbound retry limit is invalid")
  return (pendingBy Outbound.turn (fun row => decide (row.retryAt.getD 0 ≤ now)) rows).take
    limit.toNat

def recoverableOutbound (limit : Int) : Except Failure (List Outbound) := do
  require (1 ≤ limit ∧ limit ≤ 50)
    (.valueError "secure peer outbound recovery limit is invalid")
  return (pendingBy Outbound.age (fun _ => true) rows).take limit.toNat

end Operations

/-! ## The database -/

structure Database where
  deliveries : Ledger
  outbound : List Outbound

def Database.empty : Database := ⟨.empty, []⟩

/-- A settled row that was last written before a time. -/
def Row.stale (row : Row) (cutoff : Int) : Bool :=
  row.state.isTerminal && decide (row.updatedAt < cutoff)

def Outbound.stale (row : Outbound) (cutoff : Int) : Bool :=
  decide (row.state ≠ .pending) && decide (row.updatedAt < cutoff)

def Database.prune (db : Database) (retainSeconds now : Int) : Nat × Database :=
  let cutoff := now - retainSeconds
  (db.deliveries.rows.countP (·.stale cutoff) + db.outbound.countP (·.stale cutoff),
    { deliveries := ⟨db.deliveries.rows.filter fun row => !row.stale cutoff⟩
      outbound := db.outbound.filter fun row => !row.stale cutoff })

inductive Call where
  | delivery (action : Action)
  | prepareOutbound (intent : Intent) (now : Int)
  | pendingOutboundFor (scope : Scope) (now : Int)
  | commitOutbound (requestId : String) (response : Envelope) (now : Int)
  | deferOutbound (requestId error : String) (now : Int)
  | failOutbound (requestId error : String) (now : Int)
  | pendingOutbound (limit now : Int)
  | recoverableOutbound (limit : Int)
  | prune (retainSeconds now : Int)

inductive Reply where
  | delivery (answer : Answer)
  | prepared (row : Outbound) (created : Bool)
  | row (value : Option Outbound)
  | rows (values : List Outbound)
  | deleted (count : Nat)

/-- A transaction on the intents, rolled back if it raises. -/
def Database.onOutbound {α : Type} (db : Database) (body : Except Failure (α × List Outbound))
    (reply : α → Reply) : Database × Except Failure Reply :=
  atomically db (body.map fun r => (reply r.1, { db with outbound := r.2 }))

def call [Sha256] [Conversions] (db : Database) : Call → Database × Except Failure Reply
  | .delivery action =>
      let result := step db.deliveries action
      ({ db with deliveries := result.1 }, result.2.map .delivery)
  | .prepareOutbound intent now =>
      db.onOutbound (prepareOutbound db.outbound intent now) fun r => .prepared r.1 r.2
  | .pendingOutboundFor scope now =>
      let (values, rows) := pendingOutboundFor db.outbound scope now
      ({ db with outbound := rows }, .ok (.rows values))
  | .commitOutbound requestId response now =>
      db.onOutbound (commitOutbound db.outbound requestId response now) .row
  | .deferOutbound requestId error now =>
      let (value, rows) := deferOutbound db.outbound requestId error now
      ({ db with outbound := rows }, .ok (.row value))
  | .failOutbound requestId error now =>
      let (value, rows) := failOutbound db.outbound requestId error now
      ({ db with outbound := rows }, .ok (.row value))
  | .pendingOutbound limit now => (db, (pendingOutbound db.outbound limit now).map .rows)
  | .recoverableOutbound limit => (db, (recoverableOutbound db.outbound limit).map .rows)
  | .prune retainSeconds now =>
      let (count, db) := db.prune retainSeconds now
      (db, .ok (.deleted count))

end AgentsServer.PeerDelivery

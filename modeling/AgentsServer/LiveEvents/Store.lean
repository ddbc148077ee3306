import AgentsServer.Library.Runs

/-!
# Live event streams of a chat

Sockets catch up with the log and are then registered for broadcasts. The delivery lock of the
chat is held by an append section from its write to its last broadcast, and by a socket while it
reads a boundary or is registered. A step is the code between two awaits that matter.
-/

namespace AgentsServer.LiveEvents

open Library

/-- A line of the log. It is visible to clients or not. -/
structure Event where
  seq : Nat
  visible : Bool
  deriving DecidableEq

inductive Stage where
  /-- has a reservation, before its boundary is read -/
  | reserved
  /-- in `send_event_catchup` -/
  | catching (cursor boundary : Nat)
  /-- waits for the lock to be registered -/
  | caught (cursor : Nat)
  /-- in `HUB._subscribers` -/
  | active
  deriving DecidableEq

structure Socket where
  after : Nat
  stage : Stage
  closed : Bool
  sent : List Event
  deriving DecidableEq

/-- What an append section still has to do. A durable batch goes on when a caller is cancelled
or metadata cannot be updated, `append_event` does not. -/
inductive Work where
  | idle
  | delivering (durable : Bool) (events : List Event)
  | broadcasting (durable : Bool) (event : Event) (targets : List Nat) (rest : List Event)
  deriving DecidableEq

structure World where
  log : List Event
  /-- `EVENT_SEQ_CACHE` -/
  cache : Option Nat
  /-- `latest_event_seq` of the session -/
  stored : Nat
  work : Work
  sockets : List Socket
  deriving DecidableEq

namespace World

def empty : World := ⟨[], none, 0, .idle, []⟩

variable (w : World)

/-! ## Appends -/

/-- `last_event_seq_from_file`. -/
def lastEventSeq : Nat := (w.log.getLast?.map Event.seq).getD 0

/-- `next_event_seq`. -/
def nextEventSeq : Nat :=
  match w.cache with
  | some seq => seq + 1
  | none => max w.lastEventSeq w.stored + 1

/-- Events with numbers from one on. -/
def numbered : Nat → List Bool → List Event
  | _, [] => []
  | seq, visible :: rest => ⟨seq, visible⟩ :: numbered (seq + 1) rest

/-- The write of an append section, one event or a durable batch. -/
def write (durable : Bool) (visible : List Bool) : World :=
  if w.work = .idle ∧ visible ≠ [] then
    let events := numbered w.nextEventSeq visible
    { w with
      log := w.log ++ events
      cache := some (w.nextEventSeq + visible.length - 1)
      work := .delivering durable events }
  else w

/-- A section whose write fails, or that is cancelled before. Its repair may fail, too. -/
def failWrite (consumedHighWater : Nat) (repaired : Bool) : World :=
  if w.work = .idle then
    { w with cache :=
      if repaired then some (max (max consumedHighWater w.lastEventSeq) w.stored) else none }
  else w

/-- `append_event` ends between its write and its broadcast: its caller is cancelled, or the
metadata of the session cannot be updated. -/
def abort : World :=
  match w.work with
  | .delivering false _ => { w with work := .idle }
  | _ => w

/-- The sockets that a broadcast is for. -/
def subscribers : List Nat :=
  (List.range w.sockets.length).filter fun i =>
    (w.sockets[i]?.map fun socket => decide (socket.stage = .active)).getD false

/-- The next event of a section, after the update of the metadata. -/
def broadcast : World :=
  match w.work with
  | .delivering _ [] => { w with work := .idle }
  | .delivering durable (event :: rest) =>
      if event.visible then { w with work := .broadcasting durable event w.subscribers rest }
      else { w with work := .delivering durable rest }
  | .broadcasting durable _ [] rest => { w with work := .delivering durable rest }
  | _ => w

/-- One send of a broadcast. A socket whose send fails is closed. -/
def deliver (i : Nat) (ok : Bool) : World :=
  match w.work with
  | .broadcasting durable event targets rest =>
      if i ∈ targets then
        let send (socket : Socket) : Socket :=
          if socket.closed then socket
          else if ok then { socket with sent := socket.sent ++ [event] }
          else { socket with closed := true }
        { w with
          work := .broadcasting durable event (targets.erase i) rest
          sockets := w.sockets.modify i send }
      else w
  | _ => w

/-! ## Sockets -/

/-- A socket is accepted and has a reservation. -/
def connect (after : Nat) : World :=
  { w with sockets := w.sockets ++ [⟨after, .reserved, false, []⟩] }

/-- A socket goes away or is closed, at any time. -/
def close (i : Nat) : World :=
  { w with sockets := w.sockets.modify i fun socket => { socket with closed := true } }

/-- The events that `send_event_catchup` sends. -/
def catchup (after through : Nat) : List Event :=
  w.log.filter fun e => e.visible && decide (after < e.seq) && decide (e.seq ≤ through)

/-- What a socket does next. It reads a boundary, or is registered, while it has the lock. -/
def advance (socket : Socket) : Socket :=
  match socket.stage with
  | .reserved =>
      if w.work = .idle then { socket with stage := .catching socket.after w.lastEventSeq }
      else socket
  | .catching cursor boundary =>
      { socket with
        stage := .caught (max cursor boundary)
        sent := socket.sent ++ w.catchup cursor boundary }
  | .caught cursor =>
      if w.work = .idle then
        if w.lastEventSeq ≤ cursor then { socket with stage := .active }
        else { socket with stage := .catching cursor w.lastEventSeq }
      else socket
  | .active => socket

/-- The next step of `session_events`. -/
def sessionEvents (i : Nat) : World :=
  { w with sockets := w.sockets.modify i fun socket =>
      if socket.closed then socket else w.advance socket }

end World

/-! ## Runs -/

inductive Action where
  | write (durable : Bool) (visible : List Bool)
  | failWrite (consumedHighWater : Nat) (repaired : Bool)
  | abort
  | broadcast
  | deliver (socket : Nat) (ok : Bool)
  | forgetEventSeq
  | setLatest (stored : Nat)
  | connect (after : Nat)
  | sessionEvents (socket : Nat)
  | close (socket : Nat)

def World.step (w : World) : Action → World × Unit
  | .write durable visible => (w.write durable visible, ())
  | .failWrite consumedHighWater repaired => (w.failWrite consumedHighWater repaired, ())
  | .abort => (w.abort, ())
  | .broadcast => (w.broadcast, ())
  | .deliver socket ok => (w.deliver socket ok, ())
  | .forgetEventSeq => ({ w with cache := none }, ())
  | .setLatest stored => ({ w with stored := stored }, ())
  | .connect after => (w.connect after, ())
  | .sessionEvents socket => (w.sessionEvents socket, ())
  | .close socket => (w.close socket, ())

/-- Every open socket that was activated has every event after its cursor, once and in order. -/
def Complete (w : World) : Prop :=
  ∀ socket ∈ w.sockets, socket.stage = .active → socket.closed = false →
    socket.sent.filter (fun e => decide (socket.after < e.seq)) =
        w.log.filter (fun e => e.visible && decide (socket.after < e.seq)) ∧
      (socket.sent.filter fun e => decide (socket.after < e.seq)).Pairwise fun a b => a.seq < b.seq

instance (w : World) : Decidable (Complete w) := by
  unfold Complete
  infer_instance

/-- A step that does not end `append_event` before its broadcast, or does so where no open
socket waits for its event. -/
def Steady (e : Runs.Event World Action Unit) : Prop :=
  match e.action, e.before.work with
  | .abort, .delivering false events =>
      ∀ event ∈ events, event.visible = true → ∀ socket ∈ e.before.sockets,
        socket.stage = .active → socket.closed = false → event.seq ≤ socket.after
  | _, _ => True

end AgentsServer.LiveEvents

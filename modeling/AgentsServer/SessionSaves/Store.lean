import AgentsServer.Library.Runs

/-!
# Coalesced saves of the session map

Marks join a pending record. One writer task takes the record over, encodes the map and
has a thread replace the file. The code between two awaits is one step here, and so is one
replacement of the file.
-/

namespace AgentsServer.SessionSaves

open Library

inductive Failure where
  /-- what encoding the map raises -/
  | encoding (text : String)
  /-- what the replacement of the file raises -/
  | write (text : String)
  /-- `RuntimeError` -/
  | runtime (text : String)
  deriving DecidableEq

/-- `PendingSessionSave`, without its times: when its window ends is left open. -/
structure Pending where
  done : Bool
  wake : Bool
  durable : Bool
  error : Option Failure
  deriving DecidableEq

/-- The state of `_save_worker`. A task that is done is as good as none. -/
inductive Worker where
  | ended
  /-- created, before its first step -/
  | created
  /-- in `_wait_for_save_window` -/
  | window (pending : Nat)
  /-- waiting for its write thread -/
  | writing (pending thread : Nat)
  deriving DecidableEq

/-- An encoded map: the numbers of mutations and marks that came before it. -/
structure Snapshot where
  sessions : Nat
  marks : Nat
  deriving DecidableEq

/-- What a replacement of the file did. One that raises may have replaced it before. -/
inductive Replaced where
  | ok
  | failed (landed : Bool) (error : Failure)
  deriving DecidableEq

namespace Replaced

def landed : Replaced → Bool
  | .ok => true
  | .failed landed _ => landed

def error : Replaced → Option Failure
  | .ok => none
  | .failed _ error => some error

theorem ok_or_error (result : Replaced) : result = .ok ∨ result.error.isSome = true := by
  cases result with
  | ok => exact .inl rfl
  | failed landed error => exact .inr rfl

end Replaced

/-- A thread in `write_sessions_json_text`. Without a result it runs or has yet to start. -/
structure Thread where
  snapshot : Snapshot
  durable : Bool
  result : Option Replaced
  deriving DecidableEq

structure Mark where
  pending : Nat
  sessions : Nat
  deriving DecidableEq

inductive Outcome where
  | returned
  | raised (error : Failure)
  | cancelled
  deriving DecidableEq

/-- A caller of `save`, or of `persist_restored_state`, which joins a `save` of its own. -/
structure Caller where
  pending : Option Nat
  durable : Bool
  /-- the mutations before the call -/
  since : Nat
  restores : Bool
  cancelled : Bool
  outcome : Option Outcome
  deriving DecidableEq

/-- The map is known by the number of its mutations. -/
structure World where
  sessions : Nat
  pendings : List Pending
  pendingSave : Option Nat
  worker : Worker
  /-- how many writer tasks were created -/
  writers : Nat
  threads : List Thread
  /-- every content that `sessions.json` had, the last is the present one -/
  written : List Snapshot
  marks : List Mark
  callers : List Caller
  /-- the writer tasks that calls of `flush_pending_save` joined -/
  flushers : List Nat

def World.empty : World := ⟨0, [], none, .ended, 0, [], [], [], [], []⟩

namespace World

variable (w : World)

/-! ## Marks -/

/-- The record that marks join. -/
def currentPending : World × Nat :=
  match w.pendingSave with
  | some p => (w, p)
  | none =>
      ({ w with
          pendings := w.pendings ++ [⟨false, false, false, none⟩]
          pendingSave := some w.pendings.length },
        w.pendings.length)

/-- A writer task is created unless one is there. -/
def ensureWorker : World :=
  if w.worker = .ended then { w with worker := .created, writers := w.writers + 1 } else w

/-- `mark_dirty`. -/
def markDirty (durable wake : Bool) : World × Nat :=
  let (w, p) := w.currentPending
  let marked (pending : Pending) : Pending :=
    { pending with durable := pending.durable || durable, wake := pending.wake || wake || durable }
  (ensureWorker { w with
    pendings := w.pendings.modify p marked
    marks := w.marks ++ [⟨p, w.sessions⟩] }, p)

/-- `save` up to its wait. -/
def save (durable flush : Bool) : World :=
  let since := w.sessions
  let (w, p) := w.markDirty durable (flush || durable)
  if flush || durable then
    { w with callers := w.callers ++ [⟨some p, durable, since, false, false, none⟩] }
  else w

/-- `persist_restored_state`: its save starts in a task of its own. -/
def persistRestoredState (durable : Bool) : World :=
  { w with callers := w.callers ++ [⟨none, durable, w.sessions, true, false, none⟩] }

/-- The first step of the task of `persist_restored_state`. -/
def startCaller (index : Nat) : World :=
  match w.callers[index]? with
  | none => w
  | some caller =>
      if caller.pending = none then
        let (w, p) := w.markDirty caller.durable true
        { w with callers := w.callers.modify index fun c => { c with pending := some p } }
      else w

/-- The cancellation of a caller. It waits on all the same. -/
def cancelCaller (index : Nat) : World :=
  { w with callers := w.callers.modify index fun c => { c with cancelled := true } }

/-- What a caller ends with when its record is done. -/
def ending (caller : Caller) (pending : Pending) : Outcome :=
  match pending.error with
  | some error => .raised error
  | none => if caller.cancelled && !caller.restores then .cancelled else .returned

/-- The rest of `save`. -/
def resumeCaller (index : Nat) : World :=
  match w.callers[index]? with
  | none => w
  | some caller =>
      match caller.outcome, caller.pending.bind (w.pendings[·]?) with
      | none, some pending =>
          if pending.done then
            { w with
              callers := w.callers.modify index fun c =>
                { c with outcome := some (ending caller pending) } }
          else w
      | _, _ => w

/-- `flush_pending_save` up to its wait. -/
def flushPendingSave : World :=
  let w := match w.pendingSave with
    | none => w
    | some p => { w with pendings := w.pendings.modify p fun q => { q with wake := true } }
  if w.worker = .ended then w else { w with flushers := w.flushers ++ [w.writers] }

/-- Whether a writer task that was joined is done. -/
def flushed (writer : Nat) : Bool := w.worker = .ended || writer < w.writers

/-! ## The writer -/

/-- A record is done, with what was raised. -/
def settle (p : Nat) (error : Option Failure) : World :=
  { w with pendings := w.pendings.modify p fun q =>
      { q with done := true, error := error <|> q.error } }

/-- A content of the file. -/
def record (snapshot : Snapshot) (result : Replaced) : World :=
  if result.landed then { w with written := w.written ++ [snapshot] } else w

/-- What is encoded now. -/
def snapshot : Snapshot := ⟨w.sessions, w.marks.length⟩

/-- How long the window is and whether the map can be encoded. -/
structure Turn where
  expired : Bool
  encoding : Option Failure

/-- The writer takes a record over. Marks from here on belong to the next write. -/
def beginWrite (p : Nat) (turn : Turn) : World :=
  let w := { w with pendingSave := none }
  match turn.encoding with
  | some error => { w.settle p (some error) with worker := .ended }
  | none =>
      { w with
        threads := w.threads ++
          [⟨w.snapshot, (w.pendings[p]?.map Pending.durable).getD false, none⟩]
        worker := .writing p w.threads.length }

/-- `_wait_for_save_window`, and what follows it. -/
def waitForSaveWindow (p : Nat) (turn : Turn) : World :=
  if (w.pendings[p]?.map Pending.wake).getD false || turn.expired then w.beginWrite p turn
  else { w with worker := .window p }

/-- The head of the loop. -/
def loop (turn : Turn) : World :=
  match w.pendingSave with
  | none => { w with worker := .ended }
  | some p => w.waitForSaveWindow p turn

/-- `_save_worker`, to its next await. -/
def saveWorker (turn : Turn) : World :=
  match w.worker with
  | .ended => w
  | .created => w.loop turn
  | .window p => w.waitForSaveWindow p turn
  | .writing p t =>
      match w.threads[t]?.bind Thread.result with
      | none => w
      | some result => (w.settle p result.error).loop turn

/-- A thread replaces the file. -/
def runThread (t : Nat) (result : Replaced) : World :=
  match w.threads[t]? with
  | none => w
  | some thread =>
      if thread.result = none then
        { w.record thread.snapshot result with
          threads := w.threads.modify t fun thread => { thread with result := some result } }
      else w

/-- What a cancelled writer meets: whether its thread is withdrawn before it starts, and how
the write on the loop goes. -/
structure Teardown where
  withdrawn : Bool
  encoding : Option Failure
  result : Replaced

def writerCancelled : Failure := .runtime "sessions.json writer cancelled"

/-- The write on the loop of what was marked and not taken over. -/
def writeLeftover (teardown : Teardown) : World :=
  match w.pendingSave with
  | none => { w with worker := .ended }
  | some p =>
      let w := { w with pendingSave := none, worker := .ended }
      match teardown.encoding with
      | some error => w.settle p (some error)
      | none => (w.record w.snapshot teardown.result).settle p teardown.result.error

/-- The `CancelledError` of the writer, where it waits. Before its first step nothing of it
runs. In a write, the inner `finally` comes before the check of `done`. -/
def cancelWorker (teardown : Teardown) : World :=
  match w.worker with
  | .ended => w
  | .created => { w with worker := .ended }
  | .window _ => w.writeLeftover teardown
  | .writing p t =>
      let w := w.settle p none
      let w :=
        if w.pendingSave ≠ some p ∧ (w.pendings[p]?.map Pending.done).getD false = false then
          w.settle p (some writerCancelled)
        else w
      let withdraw (thread : Thread) : Thread :=
        if thread.result = none then
          { thread with result := some (.failed false (.write "withdrawn")) }
        else thread
      let w := if teardown.withdrawn then { w with threads := w.threads.modify t withdraw } else w
      w.writeLeftover teardown

end World

/-! ## Runs -/

inductive Action where
  | mutate
  | markDirty (durable wake : Bool)
  | save (durable flush : Bool)
  | persistRestoredState (durable : Bool)
  | startCaller (index : Nat)
  | cancelCaller (index : Nat)
  | resumeCaller (index : Nat)
  | flushPendingSave
  | saveWorker (turn : World.Turn)
  | cancelWorker (teardown : World.Teardown)
  | runThread (thread : Nat) (result : Replaced)

def World.step (w : World) : Action → World × Unit
  | .mutate => ({ w with sessions := w.sessions + 1 }, ())
  | .markDirty durable wake => ((w.markDirty durable wake).1, ())
  | .save durable flush => (w.save durable flush, ())
  | .persistRestoredState durable => (w.persistRestoredState durable, ())
  | .startCaller index => (w.startCaller index, ())
  | .cancelCaller index => (w.cancelCaller index, ())
  | .resumeCaller index => (w.resumeCaller index, ())
  | .flushPendingSave => (w.flushPendingSave, ())
  | .saveWorker turn => (w.saveWorker turn, ())
  | .cancelWorker teardown => (w.cancelWorker teardown, ())
  | .runThread thread result => (w.runThread thread result, ())

/-- A writer that can be cancelled: it waits in its window, or its thread has replaced the
file. -/
def World.cancellable (w : World) : Bool :=
  match w.worker with
  | .ended | .window _ => true
  | .created => false
  | .writing _ t => w.threads[t]?.bind Thread.result = some .ok

/-- The writer is cancelled only where it may be. -/
def Steady (e : Runs.Event World Action Unit) : Bool :=
  match e.action with
  | .cancelWorker _ => e.before.cancellable
  | _ => true

end AgentsServer.SessionSaves

import Mathlib.Data.Finset.Basic

/-!
# The turn slot of a chat

A chat runs one turn at a time. `ACTIVE`, `BUSY_SESSIONS`, `CURRENT_TURNS` and `STOP_REQUESTS` hold
what is known of it, and each has at most one entry for a chat. A function here is one section
under `ACTIVE_LOCK`.
-/

namespace AgentsServer.TurnSlots

/-- `run_` and the digits of a uuid: a run id is never the empty string. -/
structure RunId where
  text : String
  named : text ≠ ""
  deriving DecidableEq

theorem RunId.text_injective : Function.Injective RunId.text := by
  intro r q h
  cases r
  cases q
  cases h
  rfl

@[simp] theorem RunId.text_inj {r q : RunId} : r.text = q.text ↔ r = q :=
  text_injective.eq_iff

/-- The record of a provider process, as far as the slot's sections read and write it. -/
structure ActiveRecord where
  runId : Option String
  /-- `transport` is the one of the Codex app server. -/
  appServer : Bool
  /-- `codex_child_continuation_waiting`, with its stop event. -/
  childContinuation : Bool
  claudeSdkRun : Option Nat
  stopRequested : Bool
  providerTurnReady : Bool
  providerStarting : Bool
  providerSessionId : Option String
  deriving DecidableEq

structure CurrentTurn where
  runId : Option String
  serverRestartAdmissionId : Option String
  deriving DecidableEq

/-- The entries of one chat. -/
structure Slot where
  active : Option ActiveRecord
  busy : Bool
  currentTurn : Option CurrentTurn
  /-- The chat is in `STOP_REQUESTS`. -/
  stopRequests : Bool
  deriving DecidableEq

namespace Slot

/-- A chat with no entry. -/
def free : Slot := ⟨none, false, none, false⟩

variable (s : Slot)

/-- `str(active.get("run_id") or "")`. -/
def activeRunId : String := (s.active.bind ActiveRecord.runId).getD ""

def currentRunId : String := (s.currentTurn.bind CurrentTurn.runId).getD ""

def currentAdmissionId : String := (s.currentTurn.bind CurrentTurn.serverRestartAdmissionId).getD ""

/-- One of the two records names the run, and neither names another. -/
def ownsSlot (run : String) : Bool :=
  (s.activeRunId = run || s.currentRunId = run) &&
    [s.activeRunId, s.currentRunId].all fun owner => owner = "" || owner = run

/-- `release_turn_slot`. Without an expected owner it always releases. -/
def releaseTurnSlot (expectedRunId expectedAdmissionId : Option String) : Bool × Slot :=
  let released := match expectedRunId, expectedAdmissionId with
    | some run, _ => s.ownsSlot run
    | none, some admission =>
        admission ≠ "" && s.currentAdmissionId = admission && s.activeRunId = ""
    | none, none => true
  if released then (true, free) else (false, s)

/-- `bind_active_turn`, with `STOPPED_RUNS`. -/
def bindActiveTurn (run : String) (record : ActiveRecord) (stoppedRuns : Finset String) :
    (Bool × Bool) × Slot × Finset String :=
  if s.busy && s.currentRunId = run && (s.activeRunId = "" || s.activeRunId = run) then
    let stop := s.stopRequests || decide (run ∈ stoppedRuns)
    ((true, stop),
      { s with active := some { record with stopRequested := stop }
               stopRequests := if stop then false else s.stopRequests },
      if stop then insert run stoppedRuns else stoppedRuns)
  else ((false, false), s, stoppedRuns)

def turnSlotIsOwned (run : String) : Bool := s.busy && s.ownsSlot run

def clearActiveProcess (expectedRunId : String) : Bool × Slot :=
  match s.active with
  | some record =>
      if record.runId.getD "" = expectedRunId then (true, { s with active := none }) else (false, s)
  | none => (false, s)

/-- `mark_provider_turn_ready`. -/
def markProviderTurnReady (run : String) (providerSessionId : Option String) : Slot :=
  match s.active with
  | some record =>
      if providerSessionId.getD "" ≠ "" ∧ record.runId.getD "" = run then
        { s with active := some { record with providerTurnReady := true
                                              providerSessionId := providerSessionId } }
      else s
  | none => s

/-- `mark_claude_sdk_turn_ready_after_ack` from the acknowledgment on. -/
def markClaudeSdkTurnReady (run : String) (handle : Nat) (handleDone : Bool) : Bool × Slot :=
  match s.active with
  | some record =>
      if record.runId.getD "" = run ∧ record.claudeSdkRun = some handle ∧ !record.stopRequested ∧
          !handleDone then
        (true, { s with active := some { record with providerTurnReady := true
                                                     providerStarting := false } })
      else (false, s)
  | none => (false, s)

/-- The provider has not yet accepted the turn, and only a turn that it accepted is stopped. -/
def ActiveRecord.defersStop (record : ActiveRecord) (requireProviderTurnReady : Bool) : Bool :=
  requireProviderTurnReady && !(record.appServer && record.childContinuation) &&
    (!record.providerTurnReady || record.appServer && record.providerSessionId.getD "" = "")

/-- Where the first section of `stop_turn` notes a stop, and whether it does. -/
def noteStop (targeted requireProviderTurnReady : Bool) (stoppedRuns : Finset String) :
    Bool × Slot × Finset String :=
  match s.active with
  | some record =>
      if ActiveRecord.defersStop record requireProviderTurnReady then (false, s, stoppedRuns)
      else
        (true, { s with active := some { record with stopRequested := true } },
          if s.activeRunId = "" then stoppedRuns else insert s.activeRunId stoppedRuns)
  | none =>
      if !s.busy || requireProviderTurnReady then (false, s, stoppedRuns)
      -- a stop of one run must not reach its successor
      else if targeted && s.currentRunId ≠ "" then (true, s, insert s.currentRunId stoppedRuns)
      else (true, { s with stopRequests := true }, stoppedRuns)

/-- The first section of `stop_turn`. A stop of a run that does not own the slot is superseded. -/
def stopTurn (expectedRunId : Option String) (requireProviderTurnReady : Bool)
    (stoppedRuns : Finset String) : Bool × Slot × Finset String :=
  if expectedRunId.all s.turnSlotIsOwned then
    s.noteStop expectedRunId.isSome requireProviderTurnReady stoppedRuns
  else (false, s, stoppedRuns)

end Slot

/-! ## Who holds the slot -/

/-- The slot is free, or it is taken by a run that the current turn names, and the process record
that may be there names it too. -/
inductive Held : Slot → Option RunId → Prop where
  | free : Held Slot.free none
  | taken (r : RunId) (active : Option ActiveRecord) (admission : Option String) (stop : Bool) :
      (∀ record ∈ active, record.runId = some r.text) →
      Held ⟨active, true, some ⟨some r.text, admission⟩, stop⟩ (some r)

namespace Held

variable {s : Slot} {o : Option RunId} {r q : RunId}

theorem currentRunId (h : Held s o) : s.currentRunId = (o.map RunId.text).getD "" := by
  cases h <;> rfl

theorem activeRunId (h : Held s o) : s.activeRunId = "" ∧ s.active = none ∨
    s.activeRunId = (o.map RunId.text).getD "" ∧ ∃ record, s.active = some record := by
  cases h with
  | free => exact Or.inl ⟨rfl, rfl⟩
  | taken r active admission stop names =>
      cases active with
      | none => exact Or.inl ⟨rfl, rfl⟩
      | some record =>
          have hname := names record rfl
          exact Or.inr ⟨by simp [Slot.activeRunId, hname], record, rfl⟩

theorem eq_free (h : Held s none) : s = Slot.free := by
  cases h
  rfl

theorem busy (h : Held s o) : s.busy = o.isSome := by
  cases h <;> rfl

/-- A process record is there only while its run holds the slot. -/
theorem record (h : Held s o) {record : ActiveRecord} (found : s.active = some record) :
    ∃ r, o = some r ∧ record.runId = some r.text := by
  cases h with
  | free => cases found
  | taken r active admission stop names => exact ⟨r, rfl, names record found⟩

/-- The test of the two records finds the holder and nobody else. -/
theorem ownsSlot (h : Held s o) (r : RunId) : s.ownsSlot r.text = decide (o = some r) := by
  have hnamed := r.named
  cases h with
  | free => simp [Slot.ownsSlot, Slot.free, Slot.activeRunId, Slot.currentRunId, Ne.symm hnamed]
  | taken q active admission stop names =>
      have hq := q.named
      cases active with
      | none =>
          by_cases hqr : q = r <;>
            simp [Slot.ownsSlot, Slot.activeRunId, Slot.currentRunId, hqr, Ne.symm hnamed, hq]
      | some record =>
          have hname := names record rfl
          by_cases hqr : q = r <;>
            simp [Slot.ownsSlot, Slot.activeRunId, Slot.currentRunId, hname, hqr, hq]

theorem turnSlotIsOwned (h : Held s o) (r : RunId) :
    s.turnSlotIsOwned r.text = decide (o = some r) := by
  rw [Slot.turnSlotIsOwned, h.ownsSlot r, h.busy]
  cases o <;> simp

theorem releaseTurnSlot (h : Held s o) (r : RunId) (admission : Option String) :
    s.releaseTurnSlot (some r.text) admission =
      if o = some r then (true, Slot.free) else (false, s) := by
  simp [Slot.releaseTurnSlot, h.ownsSlot r]

/-- A bind is accepted from the holder, and tells it of a stop. -/
theorem bindActiveTurn (h : Held s o) (r : RunId) (record : ActiveRecord)
    (stopped : Finset String) :
    s.bindActiveTurn r.text record stopped =
      if o = some r then
        ((true, s.stopRequests || decide (r.text ∈ stopped)),
          { s with
            active := some { record with
              stopRequested := s.stopRequests || decide (r.text ∈ stopped) }
            stopRequests := false },
          if s.stopRequests || decide (r.text ∈ stopped) then insert r.text stopped else stopped)
      else ((false, false), s, stopped) := by
  have hcurrent : (s.busy && s.currentRunId = r.text &&
      (s.activeRunId = "" || s.activeRunId = r.text)) = decide (o = some r) := by
    rw [h.busy, h.currentRunId]
    cases o with
    | none => simp
    | some q =>
        rcases h.activeRunId with ⟨hactive, -⟩ | ⟨hactive, -⟩ <;> by_cases hqr : q = r <;>
          simp [hactive, hqr]
  rw [Slot.bindActiveTurn, hcurrent]
  by_cases ho : o = some r
  · simp only [ho, decide_true, if_true]
    cases s.stopRequests <;> simp
  · simp only [ho, decide_false, if_false, Bool.false_eq_true]

/-- What a holder may do to its own record leaves the slot with it. -/
theorem withActive (h : Held s (some r)) (active : Option ActiveRecord) (stop : Bool)
    (names : ∀ record ∈ active, record.runId = some r.text) :
    Held { s with active := active, stopRequests := stop } (some r) := by
  cases h with
  | taken _ _ admission _ _ => exact Held.taken r active admission stop names

/-- A record with the expected run id is that of the holder. -/
theorem record_run (h : Held s o) {record : ActiveRecord} (found : s.active = some record)
    (named : record.runId.getD "" = r.text) : o = some r ∧ record.runId = some r.text := by
  obtain ⟨q, rfl, hname⟩ := h.record found
  rw [hname, Option.getD_some, RunId.text_inj] at named
  subst named
  exact ⟨rfl, hname⟩

/-- A provider's readiness goes to the record of its own run, or is dropped. -/
theorem markProviderTurnReady (h : Held s o) (r : RunId) (provider : Option String) :
    s.markProviderTurnReady r.text provider = s ∨ o = some r ∧ ∃ active,
      s.markProviderTurnReady r.text provider = { s with active := active } ∧
        ∀ record ∈ active, record.runId = some r.text := by
  cases ha : s.active with
  | none => exact Or.inl (by simp only [Slot.markProviderTurnReady, ha])
  | some record =>
      by_cases hc : provider.getD "" ≠ "" ∧ record.runId.getD "" = r.text
      · right
        obtain ⟨rfl, hname⟩ := h.record_run ha hc.2
        refine ⟨rfl, some { record with providerTurnReady := true
                                        providerSessionId := provider },
          by simp only [Slot.markProviderTurnReady, ha, if_pos hc], ?_⟩
        intro written hw
        cases hw
        exact hname
      · left
        simp only [Slot.markProviderTurnReady, ha, if_neg hc]

theorem markClaudeSdkTurnReady (h : Held s o) (r : RunId) (handle : Nat) (handleDone : Bool) :
    s.markClaudeSdkTurnReady r.text handle handleDone = (false, s) ∨ o = some r ∧ ∃ active,
      s.markClaudeSdkTurnReady r.text handle handleDone = (true, { s with active := active }) ∧
        ∀ record ∈ active, record.runId = some r.text := by
  cases ha : s.active with
  | none => exact Or.inl (by simp only [Slot.markClaudeSdkTurnReady, ha])
  | some record =>
      by_cases hc : record.runId.getD "" = r.text ∧ record.claudeSdkRun = some handle ∧
          !record.stopRequested ∧ !handleDone
      · right
        obtain ⟨rfl, hname⟩ := h.record_run ha hc.1
        refine ⟨rfl, some { record with providerTurnReady := true, providerStarting := false },
          by simp only [Slot.markClaudeSdkTurnReady, ha, if_pos hc], ?_⟩
        intro written hw
        cases hw
        exact hname
      · left
        simp only [Slot.markClaudeSdkTurnReady, ha, if_neg hc]

theorem clearActiveProcess (h : Held s o) (r : RunId) :
    s.clearActiveProcess r.text = (false, s) ∨
      o = some r ∧ s.clearActiveProcess r.text = (true, { s with active := none }) := by
  cases ha : s.active with
  | none => exact Or.inl (by simp only [Slot.clearActiveProcess, ha])
  | some record =>
      by_cases hc : record.runId.getD "" = r.text
      · right
        exact ⟨(h.record_run ha hc).1, by simp only [Slot.clearActiveProcess, ha, if_pos hc]⟩
      · left
        simp only [Slot.clearActiveProcess, ha, if_neg hc]

/-- A noted stop is in the record of the holder, under its name, or under that of the chat. -/
theorem noteStop (h : Held s o) (targeted ready : Bool) (stopped : Finset String) :
    s.noteStop targeted ready stopped = (false, s, stopped) ∨
      ∃ r active stop stopped', o = some r ∧ s.noteStop targeted ready stopped =
          (true, { s with active := active, stopRequests := stop }, stopped') ∧
        (∀ record ∈ active, record.runId = some r.text) ∧
        (s.stopRequests = true → stop = true) ∧ (stop = true ∨ r.text ∈ stopped') ∧
        stopped ⊆ stopped' ∧ stopped' ⊆ insert r.text stopped := by
  cases ha : s.active with
  | some record =>
      obtain ⟨r, rfl, hname⟩ := h.record ha
      have hrun : s.activeRunId = r.text := by simp [Slot.activeRunId, ha, hname]
      by_cases hd : Slot.ActiveRecord.defersStop record ready
      · left
        simp only [Slot.noteStop, ha, hd, if_true]
      · right
        refine ⟨r, some { record with stopRequested := true }, s.stopRequests,
          insert r.text stopped, rfl, ?_, ?_, id, Or.inr (Finset.mem_insert_self _ _),
          Finset.subset_insert _ _, Finset.Subset.refl _⟩
        · simp only [Slot.noteStop, ha, hd, hrun, r.named, if_false, Bool.false_eq_true]
        · intro record' hr
          cases hr
          exact hname
  | none =>
      cases o with
      | none =>
          left
          simp [Slot.noteStop, ha, h.busy]
      | some r =>
          have hcurrent : s.currentRunId = r.text := h.currentRunId
          have hnone : { s with active := none } = s := by rw [← ha]
          cases ready with
          | true =>
              left
              simp [Slot.noteStop, ha]
          | false =>
              right
              cases targeted with
              | true =>
                  refine ⟨r, none, s.stopRequests, insert r.text stopped, rfl, ?_, nofun, id,
                    Or.inr (Finset.mem_insert_self _ _), Finset.subset_insert _ _,
                    Finset.Subset.refl _⟩
                  rw [hnone]
                  simp [Slot.noteStop, ha, h.busy, hcurrent, r.named]
              | false =>
                  refine ⟨r, none, true, stopped, rfl, ?_, nofun, fun _ => rfl, Or.inl rfl,
                    Finset.Subset.refl _, Finset.subset_insert _ _⟩
                  simp [Slot.noteStop, ha, h.busy]

theorem stopTurn (h : Held s o) (expected : Option RunId) (ready : Bool)
    (stopped : Finset String) :
    s.stopTurn (expected.map RunId.text) ready stopped =
      if ∀ q ∈ expected, o = some q then s.noteStop expected.isSome ready stopped
      else (false, s, stopped) := by
  cases expected with
  | none => simp [Slot.stopTurn]
  | some q => simp [Slot.stopTurn, h.turnSlotIsOwned q]

end Held

end AgentsServer.TurnSlots

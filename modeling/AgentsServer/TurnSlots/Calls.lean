import AgentsServer.Library.Runs
import AgentsServer.TurnSlots.Slot
import Mathlib.Data.List.Perm.Basic
import Mathlib.Data.List.Nodup

/-!
# Turns of one chat

Runs of a chat reserve its turn slot, bind a provider process to it, are stopped and release it, in
any order, and the cleanup of a run may come late or twice. The slot belongs to one run from its
reservation to its release, no other run changes it, and a stop reaches the run it was meant for or
nobody.
-/

namespace AgentsServer.TurnSlots

open Library Library.Runs
open scoped List

/-! ## Calls -/

/-- `turn_finished` of a finalizer, or `turn_stopped` of a supervisor. -/
structure TerminalEvent where
  kind : String
  runId : String
  deriving DecidableEq

structure Chat where
  slot : Slot
  stoppedRuns : Finset String
  /-- The run ids that uuid4 gave out. -/
  issued : List RunId
  /-- Calls that released the slot and have their terminal event to append. -/
  publishing : List TerminalEvent
  /-- The terminal events of the log. -/
  terminals : List TerminalEvent

def Chat.new : Chat := ⟨Slot.free, ∅, [], [], []⟩

inductive Call where
  | reserve (r : RunId) (admission : Option String)
  | bind (r : RunId) (record : ActiveRecord)
  | markReady (r : RunId) (providerSessionId : Option String)
  | markAcknowledged (r : RunId) (handle : Nat) (handleDone : Bool)
  | clear (r : RunId)
  | release (r : RunId)
  | finalize (r : RunId)
  | reconcile (r : RunId) (persistedActive : Option String)
  /-- A released call goes on: its event is durable, or the append failed. -/
  | publish (event : TerminalEvent) (durable : Bool)
  | stop (expected : Option RunId) (requireProviderTurnReady : Bool)

inductive Answer where
  | done
  | answer (result : Bool)
  | bound (accepted stopRequested : Bool)
  deriving DecidableEq

/-- The run id that a call carries. -/
def Call.run : Call → Option RunId
  | .reserve r _ | .bind r _ | .markReady r _ | .markAcknowledged r _ _ | .clear r | .release r
  | .finalize r | .reconcile r _ => some r
  | .publish _ _ => none
  | .stop expected _ => expected

/-- A call that releases the slot for its run, when it answers `True`. -/
def Call.releases (r : RunId) : Call → Bool
  | .release q | .finalize q | .reconcile q _ => q = r
  | _ => false

namespace Chat

variable (c : Chat)

/-- `release_turn_slot` with an expected run, and what its caller does after it. -/
def release (r : RunId) (events : List TerminalEvent) (discards : Bool) : Chat × Answer :=
  let result := c.slot.releaseTurnSlot (some r.text) none
  ({ c with
      slot := result.2
      stoppedRuns :=
        if discards && (!result.1 || events.isEmpty) then c.stoppedRuns.erase r.text
        else c.stoppedRuns
      publishing := if result.1 then c.publishing ++ events else c.publishing },
    .answer result.1)

/-- One section. A process record names the run whose startup made it. -/
def step : Call → Chat × Answer
  | .reserve r admission =>
      if c.slot.busy || decide (r ∈ c.issued) then (c, .answer false)
      else
        ({ c with
            slot := { c.slot with busy := true, currentTurn := some ⟨some r.text, admission⟩ }
            issued := r :: c.issued }, .answer true)
  | .bind r record =>
      let result := c.slot.bindActiveTurn r.text { record with runId := some r.text } c.stoppedRuns
      ({ c with slot := result.2.1, stoppedRuns := result.2.2 }, .bound result.1.1 result.1.2)
  | .markReady r providerSessionId =>
      ({ c with slot := c.slot.markProviderTurnReady r.text providerSessionId }, .done)
  | .markAcknowledged r handle handleDone =>
      let result := c.slot.markClaudeSdkTurnReady r.text handle handleDone
      ({ c with slot := result.2 }, .answer result.1)
  | .clear r =>
      let result := c.slot.clearActiveProcess r.text
      ({ c with slot := result.2 }, .answer result.1)
  | .release r => c.release r [] false
  | .finalize r => c.release r [⟨"turn_finished", r.text⟩] true
  | .reconcile r persistedActive =>
      -- the durable record of the run says whether its terminal event is missing
      c.release r (if persistedActive = some r.text then [⟨"turn_stopped", r.text⟩] else []) true
  | .publish event durable =>
      if event ∈ c.publishing then
        ({ c with
            stoppedRuns := c.stoppedRuns.erase event.runId
            publishing := c.publishing.erase event
            terminals := if durable then c.terminals ++ [event] else c.terminals }, .done)
      else (c, .done)
  | .stop expected requireReady =>
      let result := c.slot.stopTurn (expected.map RunId.text) requireReady c.stoppedRuns
      ({ c with slot := result.2.1, stoppedRuns := result.2.2 }, .answer result.1)

/-- The run holds the slot, as `turn_slot_is_owned` answers. -/
def Owns (r : RunId) : Prop := c.slot.turnSlotIsOwned r.text = true

end Chat

/-! ## What a call does -/

/-- What a call does to a chat, by what it finds. -/
inductive Effect (c : Chat) : Call → Chat → Answer → Prop where
  /-- The call changes nothing. -/
  | idle (call : Call) (answer : Answer) :
      answer = .done ∨ answer = .answer false ∨ answer = .bound false false →
      (∀ r record, call = .bind r record → ¬ Held c.slot (some r)) →
      Effect c call c answer
  /-- A late release of a run that no longer holds the slot. -/
  | late (call : Call) (r : RunId) (stopped : Finset String) : call.releases r = true →
      ¬ Held c.slot (some r) → stopped = c.stoppedRuns ∨ stopped = c.stoppedRuns.erase r.text →
      Effect c call { c with stoppedRuns := stopped } (.answer false)
  | reserved (r : RunId) (admission : Option String) : Held c.slot none → r ∉ c.issued →
      Effect c (.reserve r admission)
        { c with slot := ⟨none, true, some ⟨some r.text, admission⟩, false⟩
                 issued := r :: c.issued } (.answer true)
  | bound (r : RunId) (record written : ActiveRecord) (stop : Bool) (stopped : Finset String) :
      Held c.slot (some r) → stop = (c.slot.stopRequests || decide (r.text ∈ c.stoppedRuns)) →
      stopped = (if stop then insert r.text c.stoppedRuns else c.stoppedRuns) →
      written.runId = some r.text →
      Effect c (.bind r record)
        { c with slot := { c.slot with active := some written, stopRequests := false }
                 stoppedRuns := stopped } (.bound true stop)
  /-- A run marks or clears its own process record. -/
  | wrote (call : Call) (r : RunId) (active : Option ActiveRecord) (answer : Answer) :
      Held c.slot (some r) → call.run = some r → (∀ record ∈ active, record.runId = some r.text) →
      (∀ q, call.releases q = false) → (∀ q admission, call ≠ .reserve q admission) →
      (∀ q record, call ≠ .bind q record) → (∀ expected ready, call ≠ .stop expected ready) →
      Effect c call { c with slot := { c.slot with active := active } } answer
  | released (call : Call) (r : RunId) (stopped : Finset String) (events : List TerminalEvent) :
      Held c.slot (some r) → call.run = some r → (∀ q, call.releases q = decide (r = q)) →
      stopped ⊆ c.stoppedRuns → (∀ t ∈ events, t.runId = r.text) → events.length ≤ 1 →
      Effect c call
        { c with slot := Slot.free, stoppedRuns := stopped, publishing := c.publishing ++ events }
        (.answer true)
  | published (event : TerminalEvent) (durable : Bool) : event ∈ c.publishing →
      Effect c (.publish event durable)
        { c with stoppedRuns := c.stoppedRuns.erase event.runId
                 publishing := c.publishing.erase event
                 terminals := if durable then c.terminals ++ [event] else c.terminals } .done
  | stopped (expected : Option RunId) (ready : Bool) (r : RunId) (active : Option ActiveRecord)
      (stop : Bool) (stopped : Finset String) :
      Held c.slot (some r) → (∀ q ∈ expected, q = r) →
      (∀ record ∈ active, record.runId = some r.text) →
      (c.slot.stopRequests = true → stop = true) → stop = true ∨ r.text ∈ stopped →
      c.stoppedRuns ⊆ stopped → stopped ⊆ insert r.text c.stoppedRuns →
      Effect c (.stop expected ready)
        { c with slot := { c.slot with active := active, stopRequests := stop }
                 stoppedRuns := stopped } (.answer true)

namespace Held

variable {s : Slot} {o : Option RunId}

theorem unique (h : Held s o) {o' : Option RunId} (h' : Held s o') : o = o' := by
  have hnone : ∀ r, o = some r ↔ o' = some r := by
    intro r
    rw [← decide_eq_decide, ← h.turnSlotIsOwned r, ← h'.turnSlotIsOwned r]
  exact Option.ext hnone

theorem iff_eq (h : Held s o) (r : RunId) : Held s (some r) ↔ o = some r := by
  constructor
  · exact h.unique
  · rintro rfl
    exact h

theorem owns {c : Chat} (h : Held c.slot o) (r : RunId) : c.Owns r ↔ Held c.slot (some r) := by
  rw [Chat.Owns, h.turnSlotIsOwned r, decide_eq_true_iff, h.iff_eq r]

/-- A release finds the holder, or comes late. -/
theorem release_effect {c : Chat} (h : Held c.slot o) (call : Call) (r : RunId)
    (events : List TerminalEvent) (discards : Bool) (carries : call.run = some r)
    (is : ∀ q, call.releases q = decide (r = q)) (own : ∀ t ∈ events, t.runId = r.text)
    (one : events.length ≤ 1) :
    Effect c call (c.release r events discards).1 (c.release r events discards).2 := by
  rw [Chat.release, h.releaseTurnSlot r]
  by_cases ho : o = some r
  · subst ho
    simp only [if_true]
    apply Effect.released call r _ events h carries is _ own one
    split
    · exact Finset.erase_subset _ _
    · exact Finset.Subset.refl _
  · simp only [if_neg ho, Bool.not_false, Bool.true_or, Bool.and_true, Bool.false_eq_true, if_false]
    apply Effect.late call r _ ((is r).trans (decide_eq_true rfl)) (fun hr => ho (h.unique hr))
    cases discards
    · exact Or.inl rfl
    · exact Or.inr rfl

theorem stop_effect {c : Chat} (h : Held c.slot o) (expected : Option RunId) (ready : Bool) :
    Effect c (.stop expected ready) (c.step (.stop expected ready)).1
      (c.step (.stop expected ready)).2 := by
  have hidle : Effect c (.stop expected ready) c (.answer false) :=
    Effect.idle _ _ (Or.inr (Or.inl rfl)) fun _ _ => nofun
  rw [Chat.step, h.stopTurn]
  by_cases howner : ∀ q ∈ expected, o = some q
  · rw [if_pos howner]
    rcases h.noteStop expected.isSome ready c.stoppedRuns with hnone |
      ⟨r, active, stop, stopped, rfl, hnoted, hnames, hkeep, hthere, hgrow, honly⟩
    · rw [hnone]
      exact hidle
    · rw [hnoted]
      exact Effect.stopped expected ready r active stop stopped h
        (fun q hq => (Option.some.inj (howner q hq)).symm) hnames hkeep hthere hgrow honly
  · rw [if_neg howner]
    exact hidle

/-- Every call from a held or free slot has one of the effects. -/
theorem step_effect {c : Chat} (h : Held c.slot o) (call : Call) :
    Effect c call (c.step call).1 (c.step call).2 := by
  cases call with
  | reserve r admission =>
      simp only [Chat.step]
      split
      · exact Effect.idle _ _ (Or.inr (Or.inl rfl)) fun _ _ => nofun
      · rename_i hfree
        rw [h.busy, Bool.or_eq_true, decide_eq_true_iff, not_or] at hfree
        cases o with
        | some q => exact absurd rfl hfree.1
        | none =>
            have heffect := Effect.reserved r admission h hfree.2
            rw [h.eq_free]
            exact heffect
  | bind r record =>
      rw [Chat.step, h.bindActiveTurn]
      by_cases ho : o = some r
      · subst ho
        rw [if_pos rfl]
        exact Effect.bound r record _ _ _ h rfl rfl rfl
      · rw [if_neg ho]
        apply Effect.idle _ _ (Or.inr (Or.inr rfl))
        intro q record' hq hheld
        cases hq
        exact ho (h.unique hheld)
  | markReady r provider =>
      rw [Chat.step]
      rcases h.markProviderTurnReady r provider with hnone | ⟨rfl, active, hwrote, hnames⟩
      · rw [hnone]
        exact Effect.idle _ _ (Or.inl rfl) fun _ _ => nofun
      · rw [hwrote]
        exact Effect.wrote _ r active _ h rfl hnames (fun _ => rfl) nofun nofun nofun
  | markAcknowledged r handle handleDone =>
      rw [Chat.step]
      rcases h.markClaudeSdkTurnReady r handle handleDone with
        hnone | ⟨rfl, active, hwrote, hnames⟩
      · rw [hnone]
        exact Effect.idle _ _ (Or.inr (Or.inl rfl)) fun _ _ => nofun
      · rw [hwrote]
        exact Effect.wrote _ r active _ h rfl hnames (fun _ => rfl) nofun nofun nofun
  | clear r =>
      rw [Chat.step]
      rcases h.clearActiveProcess r with hnone | ⟨rfl, hcleared⟩
      · rw [hnone]
        exact Effect.idle _ _ (Or.inr (Or.inl rfl)) fun _ _ => nofun
      · rw [hcleared]
        exact Effect.wrote _ r none _ h rfl nofun (fun _ => rfl) nofun nofun nofun
  | release r => exact h.release_effect _ r [] false rfl (fun _ => rfl) nofun (Nat.zero_le _)
  | finalize r =>
      apply h.release_effect _ r _ true rfl (fun _ => rfl) _ (Nat.le_refl _)
      simp
  | reconcile r persisted =>
      apply h.release_effect _ r _ true rfl (fun _ => rfl)
      · split <;> simp
      · split <;> simp
  | publish event durable =>
      rw [Chat.step]
      split
      · rename_i hmem
        exact Effect.published event durable hmem
      · exact Effect.idle _ _ (Or.inl rfl) fun _ _ => nofun
  | stop expected ready => exact h.stop_effect expected ready

end Held

/-! ## What holds of every chat -/

/-- The runs of the terminal events that are in the log or on their way to it. -/
def Chat.closing (c : Chat) : List String := (c.publishing ++ c.terminals).map TerminalEvent.runId

/-- The slot is free or held by a run that was given out. A terminal event, in the log or on its
way, is that of a run which no longer holds the slot, and there is one for a run at most. -/
structure Inv (c : Chat) : Prop where
  held : ∃ o, Held c.slot o ∧ ∀ r ∈ o, r ∈ c.issued
  drawn : c.issued.Nodup
  closed : ∀ run ∈ c.closing, ∃ r ∈ c.issued, run = r.text ∧ ¬ Held c.slot (some r)
  distinct : c.closing.Nodup

theorem Inv.new : Inv Chat.new where
  held := ⟨none, Held.free, nofun⟩
  drawn := List.nodup_nil
  closed := nofun
  distinct := List.nodup_nil

namespace Inv

variable {c : Chat}

theorem effect (h : Inv c) (call : Call) : Effect c call (c.step call).1 (c.step call).2 := by
  obtain ⟨o, hheld, -⟩ := h.held
  exact hheld.step_effect call

theorem owns (h : Inv c) (r : RunId) : c.Owns r ↔ Held c.slot (some r) := by
  obtain ⟨o, hheld, -⟩ := h.held
  exact hheld.owns r

theorem issued (h : Inv c) {r : RunId} (holds : Held c.slot (some r)) : r ∈ c.issued := by
  obtain ⟨o, hheld, hissued⟩ := h.held
  exact hissued r ((hheld.iff_eq r).mp holds)

/-- A chat whose slot stays with its holder keeps what it has closed. -/
theorem rewritten (h : Inv c) {r : RunId} (holds : Held c.slot (some r))
    (active : Option ActiveRecord) (stop : Bool) (stopped : Finset String)
    (names : ∀ record ∈ active, record.runId = some r.text) :
    Inv { c with slot := { c.slot with active := active, stopRequests := stop }
                 stoppedRuns := stopped } := by
  have hslot := holds.withActive active stop names
  refine ⟨⟨some r, hslot, ?_⟩, h.drawn, ?_, h.distinct⟩
  · intro q hq
    cases hq
    exact h.issued holds
  · intro run hrun
    obtain ⟨q, hq, htext, hout⟩ := h.closed run hrun
    refine ⟨q, hq, htext, fun hheld => hout ?_⟩
    cases hslot.unique hheld
    exact holds

theorem step (h : Inv c) (call : Call) : Inv (c.step call).1 := by
  have heffect := h.effect call
  generalize (c.step call).1 = c' at heffect
  generalize (c.step call).2 = answer at heffect
  cases heffect with
  | idle => exact h
  | late _ r stopped => exact ⟨h.held, h.drawn, h.closed, h.distinct⟩
  | reserved r admission hfree hfresh =>
      have hslot : Held ⟨none, true, some ⟨some r.text, admission⟩, false⟩ (some r) :=
        Held.taken r none admission false nofun
      refine ⟨⟨some r, hslot, ?_⟩, List.nodup_cons.mpr ⟨hfresh, h.drawn⟩, ?_, h.distinct⟩
      · intro q hq
        cases hq
        exact List.mem_cons_self
      · intro run hrun
        obtain ⟨q, hq, htext, -⟩ := h.closed run hrun
        refine ⟨q, List.mem_cons_of_mem _ hq, htext, fun hheld => ?_⟩
        cases hslot.unique hheld
        exact hfresh hq
  | bound r record written stop stopped holds _ _ hname =>
      apply h.rewritten holds (some written) false stopped
      intro record' hr
      cases hr
      exact hname
  | wrote _ r active answer holds _ hnames =>
      exact h.rewritten holds active c.slot.stopRequests c.stoppedRuns hnames
  | released call r stopped events holds _ _ _ hown hone =>
      have hopen : ∀ q, ¬ Held Slot.free (some q) := by
        intro q hheld
        cases Held.free.unique hheld
      have hperm : (c.publishing ++ events ++ c.terminals).map TerminalEvent.runId
          ~ events.map TerminalEvent.runId ++ c.closing := by
        rw [Chat.closing, List.append_assoc, ← List.map_append]
        exact (List.perm_append_comm_assoc _ _ _).map _
      refine ⟨⟨none, Held.free, nofun⟩, h.drawn, ?_, ?_⟩
      · intro run hrun
        rcases List.mem_append.mp (hperm.mem_iff.mp hrun) with hnew | hold
        · obtain ⟨t, ht, rfl⟩ := List.mem_map.mp hnew
          exact ⟨r, h.issued holds, hown t ht, hopen r⟩
        · obtain ⟨q, hq, htext, -⟩ := h.closed run hold
          exact ⟨q, hq, htext, hopen q⟩
      · rw [Chat.closing, hperm.nodup_iff, List.nodup_append]
        refine ⟨?_, h.distinct, ?_⟩
        · cases events with
          | nil => exact List.nodup_nil
          | cons t rest =>
              have hrest : rest = [] := List.eq_nil_of_length_eq_zero (by
                simp only [List.length_cons] at hone
                omega)
              simp [hrest]
        · intro run hnew run' hold heq
          obtain ⟨t, ht, rfl⟩ := List.mem_map.mp hnew
          obtain ⟨q, -, htext, hout⟩ := h.closed run' hold
          rw [← heq, hown t ht, RunId.text_inj] at htext
          subst htext
          exact hout holds
  | published event durable hmem =>
      have hsub : ((c.publishing.erase event ++
          if durable then c.terminals ++ [event] else c.terminals).map TerminalEvent.runId).Subperm
          c.closing := by
        cases durable with
        | true =>
            have hperm : c.publishing.erase event ++ (c.terminals ++ [event]) ~
                c.publishing ++ c.terminals :=
              calc
                c.publishing.erase event ++ (c.terminals ++ [event])
                _ ~ c.publishing.erase event ++ ([event] ++ c.terminals) :=
                    List.perm_append_comm.append_left _
                _ ~ event :: (c.publishing.erase event ++ c.terminals) := List.perm_middle
                _ ~ c.publishing ++ c.terminals :=
                    (List.perm_cons_erase hmem).symm.append_right _
            exact (hperm.map _).subperm
        | false => exact ((List.erase_sublist.append_right _).map _).subperm
      obtain ⟨kept, hkept, hthere⟩ := hsub
      refine ⟨h.held, h.drawn, ?_, hkept.nodup_iff.mp (h.distinct.sublist hthere)⟩
      intro run hrun
      exact h.closed run (hthere.subset (hkept.mem_iff.mpr hrun))
  | stopped expected ready r active stop stopped holds _ hnames =>
      exact h.rewritten holds active stop stopped hnames

theorem run (calls : List Call) : Inv (run Chat.step Chat.new calls) :=
  run_invariant Chat.step (fun _ call h => h.step call) Chat.new Inv.new calls

end Inv

/-! ## Sections of a run -/

abbrev Section := Event Chat Call Answer

namespace Section

variable (r : RunId) (e : Section)

def after : Chat := (e.before.step e.action).1

/-- The reservation of the run. -/
def reserves : Bool :=
  (match e.action with
    | .reserve q _ => decide (q = r)
    | _ => false) && e.outcome = .answer true

/-- A successful release by the run. -/
def releases : Bool := e.action.releases r && e.outcome = .answer true

/-- An accepted bind of the run. -/
def Binds : Prop := ∃ record stop, e.action = .bind r record ∧ e.outcome = .bound true stop

/-- A stop that was noted. -/
def Stops : Prop := ∃ expected ready, e.action = .stop expected ready ∧ e.outcome = .answer true

end Section

/-- A stop of the run is there to be found, under its name or under that of the chat. -/
def Found (r : RunId) (c : Chat) : Prop :=
  r.text ∈ c.stoppedRuns ∨ Held c.slot (some r) ∧ c.slot.stopRequests = true

/-- The run holds the slot and a stop is there for it. -/
def Awaits (r : RunId) (c : Chat) : Prop :=
  Held c.slot (some r) ∧ (r.text ∈ c.stoppedRuns ∨ c.slot.stopRequests = true)

namespace Inv

variable {c : Chat}

/-- A call of one run leaves the slot of another as it is. -/
theorem foreign (h : Inv c) {call : Call} {r q : RunId} (carries : call.run = some r)
    (owner : c.Owns q) (other : q ≠ r) : (c.step call).1.slot = c.slot := by
  rw [h.owns q] at owner
  have hothers : ∀ p, Held c.slot (some p) → call.run = some p → False := by
    intro p hp hcarries
    cases owner.unique hp
    exact other (Option.some.inj (hcarries.symm.trans carries))
  have heffect := h.effect call
  generalize (c.step call).1 = c' at heffect ⊢
  generalize (c.step call).2 = answer at heffect
  cases heffect with
  | idle => rfl
  | late => rfl
  | reserved p admission hfree => cases owner.unique hfree
  | bound p record written stop stopped holds => exact (hothers p holds rfl).elim
  | wrote _ p active answer holds hcarries => exact (hothers p holds hcarries).elim
  | released _ p stopped events holds hcarries => exact (hothers p holds hcarries).elim
  | published => rfl
  | stopped expected ready p active stop stopped holds hexpected =>
      have hp := hexpected r carries
      subst hp
      exact (hothers r holds carries).elim

/-- The slot passes from one run to the next by a release and a reservation. -/
theorem balance (h : Inv c) (call : Call) (r : RunId) :
    ((c.step call).1.slot.turnSlotIsOwned r.text).toNat +
        (Section.releases r ⟨c, call, (c.step call).2⟩).toNat =
      (c.slot.turnSlotIsOwned r.text).toNat +
        (Section.reserves r ⟨c, call, (c.step call).2⟩).toNat := by
  have heffect := h.effect call
  generalize (c.step call).1 = c' at heffect ⊢
  generalize (c.step call).2 = answer at heffect ⊢
  have hsame : ∀ {slot : Slot} {p : RunId}, Held c.slot (some p) → Held slot (some p) →
      slot.turnSlotIsOwned r.text = c.slot.turnSlotIsOwned r.text := by
    intro slot p hbefore hafter
    rw [hbefore.turnSlotIsOwned r, hafter.turnSlotIsOwned r]
  cases heffect with
  | idle _ _ hanswer =>
      have hno : answer ≠ .answer true := by
        rcases hanswer with rfl | rfl | rfl <;> decide
      simp [Section.releases, Section.reserves, hno]
  | late => simp [Section.releases, Section.reserves]
  | reserved p admission hfree =>
      have htaken : Held ⟨none, true, some ⟨some p.text, admission⟩, false⟩ (some p) :=
        Held.taken p none admission false nofun
      rw [htaken.turnSlotIsOwned r, hfree.turnSlotIsOwned r]
      simp [Section.releases, Section.reserves, Call.releases]
  | bound p record written stop stopped holds _ _ hname =>
      have hafter := holds.withActive (some written) false (by
        intro record' hr
        cases hr
        exact hname)
      rw [hsame holds hafter]
      simp [Section.releases, Section.reserves]
  | wrote _ p active _ holds _ hnames hreleases hreserve =>
      rw [hsame holds (holds.withActive active c.slot.stopRequests hnames)]
      have hnone : Section.reserves r ⟨c, call, answer⟩ = false := by
        cases call <;> simp_all [Section.reserves]
      rw [hnone]
      simp [Section.releases, hreleases r]
  | released _ p stopped events holds hcarries hreleases =>
      have hnone : Section.reserves r ⟨c, call, .answer true⟩ = false := by
        have hp := hreleases p
        cases call <;> simp_all [Section.reserves, Call.releases]
      rw [holds.turnSlotIsOwned r, Held.free.turnSlotIsOwned r, hnone]
      simp [Section.releases, hreleases r]
  | published => simp [Section.releases, Section.reserves]
  | stopped expected ready p active stop stopped holds _ hnames =>
      rw [hsame holds (holds.withActive active stop hnames)]
      simp [Section.releases, Section.reserves, Call.releases]

/-- A run id is given out by its reservation. -/
theorem drawn_once (h : Inv c) (call : Call) (r : RunId) :
    (c.step call).1.issued.count r + false.toNat =
      c.issued.count r + (Section.reserves r ⟨c, call, (c.step call).2⟩).toNat := by
  have heffect := h.effect call
  generalize (c.step call).1 = c' at heffect ⊢
  generalize (c.step call).2 = answer at heffect ⊢
  cases heffect with
  | idle _ _ hanswer =>
      have hno : answer ≠ .answer true := by
        rcases hanswer with rfl | rfl | rfl <;> decide
      simp [Section.reserves, hno]
  | reserved p admission hfree =>
      by_cases hp : p = r <;> simp [Section.reserves, hp]
  | wrote _ p active _ holds _ hnames hreleases hreserve =>
      cases call <;> simp_all [Section.reserves]
  | released _ p stopped events holds hcarries hreleases =>
      have hp := hreleases p
      cases call <;> simp_all [Section.reserves, Call.releases]
  | _ => simp [Section.reserves]

/-- A noted stop is there for the run that holds the slot. -/
theorem stop_noted (h : Inv c) {call : Call} {r : RunId}
    (stops : Section.Stops ⟨c, call, (c.step call).2⟩) (owner : c.Owns r) :
    Awaits r (c.step call).1 := by
  rw [h.owns r] at owner
  obtain ⟨expected, ready, hcall, hanswer⟩ := stops
  simp only at hcall hanswer
  have heffect := h.effect call
  generalize (c.step call).1 = c' at heffect ⊢
  generalize (c.step call).2 = answer at heffect hanswer
  subst hcall hanswer
  cases heffect with
  | idle _ _ hidle => simp at hidle
  | wrote _ p active _ _ _ _ _ _ _ hstop => exact absurd rfl (hstop expected ready)
  | released _ p stopped events _ _ hreleases => simpa [Call.releases] using hreleases p
  | stopped _ _ p active stop stopped holds _ hnames _ hthere =>
      cases owner.unique holds
      refine ⟨holds.withActive active stop hnames, ?_⟩
      rcases hthere with hstop | hmem
      · exact Or.inr hstop
      · exact Or.inl hmem

/-- It waits there until the run binds or releases the slot. -/
theorem stop_waits (h : Inv c) {call : Call} {r : RunId} (waits : Awaits r c)
    (bindsNot : ¬ Section.Binds r ⟨c, call, (c.step call).2⟩)
    (releasesNot : ¬ Section.releases r ⟨c, call, (c.step call).2⟩ = true) :
    Awaits r (c.step call).1 := by
  obtain ⟨hheld, hstop⟩ := waits
  have heffect := h.effect call
  generalize (c.step call).1 = c' at heffect ⊢
  generalize (c.step call).2 = answer at heffect bindsNot releasesNot
  cases heffect with
  | idle => exact ⟨hheld, hstop⟩
  | late _ p stopped _ hout hstopped =>
      refine ⟨hheld, hstop.imp_left fun hmem => ?_⟩
      rcases hstopped with rfl | rfl
      · exact hmem
      · refine Finset.mem_erase.mpr ⟨fun hpr => hout ?_, hmem⟩
        rw [RunId.text_inj] at hpr
        rwa [← hpr]
  | reserved p admission hfree => cases hheld.unique hfree
  | bound p record written stop stopped holds =>
      cases hheld.unique holds
      exact absurd ⟨record, stop, rfl, rfl⟩ bindsNot
  | wrote _ p active _ holds _ hnames =>
      cases hheld.unique holds
      exact ⟨holds.withActive active c.slot.stopRequests hnames, hstop⟩
  | released _ p stopped events holds _ hreleases =>
      cases hheld.unique holds
      exact absurd (by simp [Section.releases, hreleases r]) releasesNot
  | published event durable hmem =>
      refine ⟨hheld, hstop.imp_left fun hr => Finset.mem_erase.mpr ⟨fun heq => ?_, hr⟩⟩
      obtain ⟨q, -, hq, hout⟩ := h.closed event.runId
        (List.mem_map_of_mem (List.mem_append_left _ hmem))
      rw [← heq, RunId.text_inj] at hq
      subst hq
      exact hout hheld
  | stopped _ _ p active stop stopped holds _ hnames hkeep _ hgrow =>
      cases hheld.unique holds
      exact ⟨holds.withActive active stop hnames,
        hstop.imp (fun hmem => hgrow hmem) hkeep⟩

/-- A bind of the run that a stop waits for is accepted, reports the stop and clears the mark of
the chat. -/
theorem stop_reported (h : Inv c) {r : RunId} (waits : Awaits r c) (record : ActiveRecord) :
    (c.step (.bind r record)).2 = .bound true true ∧
      (c.step (.bind r record)).1.slot.stopRequests = false := by
  obtain ⟨hheld, hstop⟩ := waits
  have heffect := h.effect (.bind r record)
  generalize (c.step (.bind r record)).1 = c' at heffect ⊢
  generalize (c.step (.bind r record)).2 = answer at heffect ⊢
  cases heffect with
  | idle _ _ _ hrefused => exact absurd hheld (hrefused r record rfl)
  | late _ p stopped hreleases => simp [Call.releases] at hreleases
  | bound _ _ written stop stopped holds hreports =>
      refine ⟨?_, rfl⟩
      rw [hreports]
      rcases hstop with hmem | hchat
      · simp [hmem]
      · simp [hchat]
  | wrote _ p active _ _ _ _ _ _ hbind => exact absurd rfl (hbind r record)
  | released _ p stopped events _ _ hreleases => simpa [Call.releases] using hreleases p

/-- A successful release leaves no entry of the chat. -/
theorem released_free (h : Inv c) {call : Call} {r : RunId}
    (releases : Section.releases r ⟨c, call, (c.step call).2⟩ = true) :
    (c.step call).1.slot = Slot.free := by
  have heffect := h.effect call
  generalize (c.step call).1 = c' at heffect ⊢
  generalize (c.step call).2 = answer at heffect releases
  rw [Section.releases, Bool.and_eq_true, decide_eq_true_iff] at releases
  cases heffect with
  | idle _ _ hanswer => rcases hanswer with rfl | rfl | rfl <;> cases releases.2
  | late => cases releases.2
  | wrote _ p active _ _ _ _ hreleases => simp [hreleases r] at releases
  | released => rfl
  | _ => simp [Call.releases] at releases

/-- A stop that waits for a run was noted while the run held the slot. -/
theorem stop_caused (h : Inv c) (call : Call) (r : RunId) (after : Found r (c.step call).1) :
    Found r c ∨ (Section.Stops ⟨c, call, (c.step call).2⟩ ∧ c.Owns r) := by
  rw [h.owns r]
  have heffect := h.effect call
  generalize (c.step call).1 = c' at heffect after
  generalize (c.step call).2 = answer at heffect ⊢
  cases heffect with
  | idle => exact Or.inl after
  | late _ p stopped _ _ hstopped =>
      refine Or.inl (after.imp_left fun hmem => ?_)
      rcases hstopped with rfl | rfl
      · exact hmem
      · exact Finset.mem_of_mem_erase hmem
  | reserved p admission hfree =>
      rcases after with hmem | hslot
      · exact Or.inl (Or.inl hmem)
      · cases hslot.2
  | bound p record written stop stopped holds hreports hstopped =>
      rcases after with hmem | hslot
      · rw [hstopped] at hmem
        cases hs : stop with
        | false =>
            rw [hs, if_neg Bool.false_ne_true] at hmem
            exact Or.inl (Or.inl hmem)
        | true =>
            rw [hs, if_pos rfl, Finset.mem_insert, RunId.text_inj] at hmem
            rcases hmem with rfl | hmem
            · rw [hs] at hreports
              rcases Bool.or_eq_true_iff.mp hreports.symm with hchat | hrun
              · exact Or.inl (Or.inr ⟨holds, hchat⟩)
              · exact Or.inl (Or.inl (of_decide_eq_true hrun))
            · exact Or.inl (Or.inl hmem)
      · cases hslot.2
  | wrote _ p active _ holds _ hnames =>
      refine Or.inl (after.imp_right fun hslot => ⟨?_, hslot.2⟩)
      cases (holds.withActive active c.slot.stopRequests hnames).unique hslot.1
      exact holds
  | released _ p stopped events _ _ _ hsub =>
      rcases after with hmem | hslot
      · exact Or.inl (Or.inl (hsub hmem))
      · cases hslot.2
  | published event durable hmem =>
      exact Or.inl (after.imp_left Finset.mem_of_mem_erase)
  | stopped expected ready p active stop stopped holds _ hnames _ _ _ honly =>
      have hstops : Section.Stops ⟨c, .stop expected ready, .answer true⟩ :=
        ⟨expected, ready, rfl, rfl⟩
      rcases after with hmem | hslot
      · rcases Finset.mem_insert.mp (honly hmem) with hp | hmem
        · rw [RunId.text_inj] at hp
          subst hp
          exact Or.inr ⟨hstops, holds⟩
        · exact Or.inl (Or.inl hmem)
      · cases (holds.withActive active stop hnames).unique hslot.1
        exact Or.inr ⟨hstops, holds⟩

/-- A bind that reports a stop found it. -/
theorem reported_found (h : Inv c) {q : RunId} {record : ActiveRecord}
    (reported : (c.step (.bind q record)).2 = .bound true true) : Found q c := by
  have heffect := h.effect (.bind q record)
  generalize (c.step (.bind q record)).1 = c' at heffect
  generalize (c.step (.bind q record)).2 = answer at heffect reported
  subst reported
  cases heffect with
  | idle _ _ hanswer => simp at hanswer
  | bound _ _ written stop stopped holds hreports =>
      rcases Bool.or_eq_true_iff.mp hreports.symm with hchat | hrun
      · exact Or.inr ⟨holds, hchat⟩
      · exact Or.inl (of_decide_eq_true hrun)
  | wrote _ p active _ _ _ _ _ _ hbind => exact absurd rfl (hbind q record)

/-- The owner is the run that the current turn names, and its release is accepted. -/
theorem owner_releases (h : Inv c) {r : RunId} (owner : c.Owns r) :
    c.slot.currentTurn.bind CurrentTurn.runId = some r.text ∧
      c.slot.releaseTurnSlot (some r.text) none = (true, Slot.free) := by
  rw [h.owns r] at owner
  refine ⟨?_, by rw [owner.releaseTurnSlot r, if_pos rfl]⟩
  generalize c.slot = slot at owner
  cases owner
  rfl

theorem busy_owned (h : Inv c) (busy : c.slot.busy = true) : ∃ r, c.Owns r := by
  obtain ⟨o, hheld, -⟩ := h.held
  rw [hheld.busy, Option.isSome_iff_exists] at busy
  obtain ⟨r, rfl⟩ := busy
  exact ⟨r, (h.owns r).mpr hheld⟩

/-- A process record belongs to the owner. -/
theorem record_owned (h : Inv c) {record : ActiveRecord} (found : c.slot.active = some record) :
    ∃ r, c.Owns r ∧ record.runId = some r.text := by
  obtain ⟨o, hheld, -⟩ := h.held
  obtain ⟨r, rfl, hname⟩ := hheld.record found
  exact ⟨r, (h.owns r).mpr hheld, hname⟩

end Inv

/-! ## The slot over a run -/

/-- What a run of calls owes to the runs of the chat. -/
structure SlotsOwned (c : Chat) (sections : List Section) : Prop where
  /-- A call that carries a run id leaves the slot of another run as it is. -/
  foreign : ∀ e ∈ sections, ∀ r q, e.action.run = some r → e.before.Owns q → q ≠ r →
    e.after.slot = e.before.slot
  /-- A process record belongs to the run that is the current turn of the busy chat. -/
  record_current : ∀ record ∈ c.slot.active, c.slot.busy = true ∧ ∃ r, c.Owns r ∧
    record.runId = some r.text ∧ c.slot.currentTurn.bind CurrentTurn.runId = some r.text
  busy_owned : c.slot.busy = true → ∃ r, c.Owns r
  owner_releases : ∀ r, c.Owns r →
    c.slot.releaseTurnSlot (some r.text) none = (true, Slot.free)
  /-- Every reservation but the standing one was released, by one call. -/
  released_once : ∀ r, sections.countP (Section.reserves r) =
    sections.countP (Section.releases r) + (c.slot.turnSlotIsOwned r.text).toNat
  reserved_once : ∀ r, sections.countP (Section.reserves r) ≤ 1
  /-- No run has two terminal events. -/
  closed_once : (c.terminals.map TerminalEvent.runId).Nodup
  /-- A stop that was noted for the owner stays until the owner binds, which reports it, or
  releases, which clears it. -/
  stop_reaches : ∀ r pre e mid f post, sections = pre ++ e :: mid ++ f :: post →
    Section.Stops e → e.before.Owns r →
    (∀ o ∈ mid, ¬ Section.Binds r o ∧ ¬ Section.releases r o = true) →
    f.before.Owns r ∧
      (∀ record, f.action = .bind r record →
        f.outcome = .bound true true ∧ f.after.slot.stopRequests = false) ∧
      (Section.releases r f = true → f.after.slot.stopRequests = false)
  /-- A bind that reports a stop is that of a run which was stopped while it owned the slot. -/
  stop_own : ∀ q pre f post record, sections = pre ++ f :: post → f.action = .bind q record →
    f.outcome = .bound true true → ∃ e ∈ pre, Section.Stops e ∧ e.before.Owns q

/-- A noted stop, and the next bind or release of the run it was noted for. -/
theorem stop_then (calls : List Call) {r : RunId} {pre mid post : List Section} {e f : Section}
    (split : history Chat.step Chat.new calls = pre ++ e :: mid ++ f :: post)
    (stops : Section.Stops e) (owner : e.before.Owns r)
    (still : ∀ o ∈ mid, ¬ Section.Binds r o ∧ ¬ Section.releases r o = true) :
    Inv f.before ∧ Awaits r f.before ∧ f.outcome = (f.before.step f.action).2 := by
  apply history_since Chat.step (I := Inv) (M := Awaits r)
    (A := fun e => Section.Stops e ∧ e.before.Owns r)
    (O := fun o => Section.Binds r o ∨ Section.releases r o = true) _ _ _
    Chat.new Inv.new calls split ⟨stops, owner⟩
  · intro o ho hO
    exact hO.elim (still o ho).1 (still o ho).2
  · exact fun _ call h => h.step call
  · exact fun _ call h hA => h.stop_noted hA.1 hA.2
  · intro c call h hM hO
    exact h.stop_waits hM (fun hb => hO (Or.inl hb)) (fun hr => hO (Or.inr hr))

/-- The slot has one owner at a time, over every order of calls. -/
theorem turn_slots_owned (calls : List Call) :
    SlotsOwned (run Chat.step Chat.new calls) (history Chat.step Chat.new calls) := by
  have hkeep : ∀ c call, Inv c → Inv (Chat.step c call).1 := fun _ call h => h.step call
  have hinv := Inv.run calls
  constructor
  case foreign =>
    apply history_forall Chat.step hkeep (P := fun e : Section => ∀ r q, e.action.run = some r →
      e.before.Owns q → q ≠ r → e.after.slot = e.before.slot) _ Chat.new Inv.new calls
    intro before call h r q hcarries howner hother
    exact h.foreign hcarries howner hother
  case record_current =>
    intro record hrecord
    obtain ⟨r, howner, hname⟩ := hinv.record_owned hrecord
    refine ⟨?_, r, howner, hname, (hinv.owner_releases howner).1⟩
    exact (Bool.and_eq_true_iff.mp howner).1
  case busy_owned => exact hinv.busy_owned
  case owner_releases => exact fun r hr => (hinv.owner_releases hr).2
  case released_once =>
    intro r
    have hbalance := history_balance Chat.step (I := Inv)
      (H := fun c => (c.slot.turnSlotIsOwned r.text).toNat) hkeep
      (fun _ call h => h.balance call r) Chat.new Inv.new calls
    have hnew : (Chat.new.slot.turnSlotIsOwned r.text).toNat = 0 := rfl
    rw [hnew] at hbalance
    omega
  case reserved_once =>
    intro r
    have hcount := history_balance Chat.step (I := Inv) (H := fun c => c.issued.count r)
      (G := fun _ => false) hkeep (fun _ call h => h.drawn_once call r) Chat.new Inv.new calls
    have hnew : Chat.new.issued.count r = 0 := rfl
    have hone := List.nodup_iff_count_le_one.mp hinv.drawn r
    simp only [hnew, List.countP_false, Function.const_apply] at hcount
    omega
  case closed_once =>
    have hclosing := hinv.distinct
    rw [Chat.closing, List.map_append] at hclosing
    exact hclosing.of_append_right
  case stop_reaches =>
    intro r pre e mid f post hsplit hstops howner hstill
    obtain ⟨hI, hawaits, hout⟩ := stop_then calls hsplit hstops howner hstill
    refine ⟨(hI.owns r).mpr hawaits.1, ?_, ?_⟩
    · intro record hbind
      have hreported := hI.stop_reported hawaits record
      rw [hout, Section.after, hbind]
      exact hreported
    · intro hreleases
      have hf : f = ⟨f.before, f.action, (f.before.step f.action).2⟩ := by rw [← hout]
      rw [hf] at hreleases
      rw [Section.after, hI.released_free hreleases]
      rfl
  case stop_own =>
    intro q pre f post record hsplit hbind hreported
    obtain ⟨before, call, after, rfl, rfl, rfl, -⟩ :=
      history_split Chat.step Chat.new calls pre post f hsplit
    simp only at hbind hreported
    subst hbind
    have hfound := (Inv.run before).reported_found hreported
    have hcause := history_cause Chat.step (I := Inv) (P := Found q)
      (A := fun e => Section.Stops e ∧ e.before.Owns q) hkeep
      (fun _ call h hafter => h.stop_caused call q hafter) Chat.new Inv.new before hfound
    apply hcause.resolve_left
    rintro (hmem | hslot)
    · simp [Chat.new] at hmem
    · cases hslot.2

end AgentsServer.TurnSlots

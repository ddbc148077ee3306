import AgentsServer.SessionSaves.Saves

/-!
# Saves are linear

What was changed before a save is written when the save returns, the file only gets newer, and
nobody waits for ever: every turn of the writer that is ready brings a record closer to its end.
-/

namespace AgentsServer.SessionSaves

open Library

namespace World

variable {w : World}

/-- A turn of the writer that does not only wait on. -/
def Ready (e : Runs.Event World Action Unit) : Bool :=
  match e.action, e.before.worker with
  | .saveWorker _, .created => true
  | .saveWorker turn, .window p =>
      (e.before.pendings[p]?.map Pending.wake).getD false || turn.expired
  | .saveWorker _, .writing _ t => (e.before.threads[t]?.bind Thread.result).isSome
  | _, _ => false

/-- How many such turns a record that is not done may still take. -/
def turnsLeft (p : Nat) : Worker → Nat
  | .ended => 0
  | .created => 3
  | .window _ => 2
  | .writing q _ => if q = p then 1 else 3

theorem turnsLeft_le (p : Nat) (worker : Worker) : turnsLeft p worker ≤ 3 := by
  unfold turnsLeft
  split
  · decide
  · decide
  · decide
  · split
    · decide
    · decide

theorem turnsLeft_pos (p : Nat) {worker : Worker} (h : worker ≠ .ended) :
    0 < turnsLeft p worker := by
  cases worker with
  | ended => exact absurd rfl h
  | created => exact Nat.zero_lt_succ 2
  | window _ => exact Nat.zero_lt_succ 1
  | writing q _ =>
      change 0 < if q = p then 1 else 3
      split
      · decide
      · decide

/-- The writer of a record that is not done has not ended. -/
theorem Sound.awake (h : w.Sound) {p : Nat} (hopen : w.Open p) : w.worker ≠ .ended := by
  intro hended
  rcases h.core.opened p hopen with hjoined | ⟨t, hbusy⟩
  · rw [h.rests hended] at hjoined
    cases hjoined
  · rw [hended] at hbusy
    cases hbusy

theorem Sound.joined (h : w.Sound) {p : Nat} (hopen : w.Open p) (hbusy : w.worker.busy = none) :
    w.pendingSave = some p := by
  rcases h.core.opened p hopen with hjoined | ⟨t, hbusy'⟩
  · exact hjoined
  · rw [hbusy] at hbusy'
    cases hbusy'

theorem waitForSaveWindow_turns {p : Nat} {turn : Turn}
    (hstill : (w.waitForSaveWindow p turn).worker ≠ .ended) :
    turnsLeft p (w.waitForSaveWindow p turn).worker ≤
      2 - if (w.pendings[p]?.map Pending.wake).getD false || turn.expired then 1 else 0 := by
  unfold waitForSaveWindow at hstill ⊢
  split
  · next hbegin =>
    rw [if_pos hbegin] at hstill
    unfold beginWrite at hstill ⊢
    split
    · next error herror =>
      rw [herror] at hstill
      exact absurd rfl hstill
    · change (if p = p then 1 else 3) ≤ 1
      exact Nat.le_of_eq (if_pos rfl)
  · exact Nat.le_refl _

theorem writeLeftover_worker (teardown : Teardown) : (w.writeLeftover teardown).worker = .ended := by
  unfold writeLeftover
  split
  · rfl
  · dsimp only
    split
    · rfl
    · rw [record_rest]
      rfl

theorem cancelWorker_worker (teardown : Teardown) : (w.cancelWorker teardown).worker = .ended := by
  unfold cancelWorker
  split
  · next hended => exact hended
  · rfl
  · exact writeLeftover_worker teardown
  · exact writeLeftover_worker teardown

theorem markDirty_worker (durable wake : Bool) (hawake : w.worker ≠ .ended) :
    (w.markDirty durable wake).1.worker = w.worker := by
  have hworker : w.currentPending.1.worker = w.worker := by rw [currentPending_rest]
  unfold markDirty
  dsimp only
  rw [ensureWorker_eq]
  change (if w.currentPending.1.worker = .ended then _ else _) = _
  rw [hworker, if_neg hawake]

/-- A writer that has not ended only moves on its own turns, or when it is cancelled. -/
theorem step_worker (hawake : w.worker ≠ .ended) {action : Action}
    (hturn : ∀ turn, action ≠ .saveWorker turn) (hcancel : ∀ teardown, action ≠ .cancelWorker teardown) :
    (w.step action).1.worker = w.worker := by
  cases action with
  | mutate => rfl
  | markDirty durable wake => exact markDirty_worker durable wake hawake
  | save durable flush =>
      have hmarked := markDirty_worker durable (flush || durable) hawake
      change (w.save durable flush).worker = _
      unfold save
      dsimp only
      split
      · exact hmarked
      · exact hmarked
  | persistRestoredState durable => rfl
  | startCaller index =>
      change (w.startCaller index).worker = _
      unfold startCaller
      split
      · rfl
      · split
        · exact markDirty_worker _ true hawake
        · rfl
  | cancelCaller index => rfl
  | resumeCaller index =>
      change (w.resumeCaller index).worker = _
      unfold resumeCaller
      split
      · rfl
      · split
        · split
          · rfl
          · rfl
        · rfl
  | flushPendingSave =>
      obtain ⟨_, _, hrest⟩ := flushPendingSave_rest (w := w)
      change w.flushPendingSave.worker = _
      rw [hrest]
  | saveWorker turn => exact absurd rfl (hturn turn)
  | cancelWorker teardown => exact absurd rfl (hcancel teardown)
  | runThread thread result =>
      obtain ⟨_, _, hrest⟩ := runThread_rest (w := w) thread result
      change (w.runThread thread result).worker = _
      rw [hrest]

/-- While its record is not done, a turn of the writer that is ready brings it closer. -/
theorem Inv.turns (h : w.Inv) (action : Action) (steady : Steady ⟨w, action, ()⟩) {p : Nat}
    (hopen : w.Open p) (hstill : (w.step action).1.Open p) :
    turnsLeft p (w.step action).1.worker ≤
      turnsLeft p w.worker - if Ready ⟨w, action, ()⟩ then 1 else 0 := by
  have hawake := h.sound.awake hopen
  have hafter := (h.step action steady).1.sound
  have hawake' := hafter.awake hstill
  by_cases hcancel : ∃ teardown, action = .cancelWorker teardown
  · -- A writer that was cancelled has ended, and left no record undone.
    obtain ⟨teardown, rfl⟩ := hcancel
    exact absurd (cancelWorker_worker teardown) hawake'
  by_cases hturn : ∃ turn, action = .saveWorker turn
  swap
  · rw [step_worker hawake (fun turn ht => hturn ⟨turn, ht⟩) (fun teardown ht => hcancel ⟨teardown, ht⟩)]
    have hready : Ready ⟨w, action, ()⟩ = false := by
      unfold Ready
      cases action with
      | saveWorker turn => exact absurd ⟨turn, rfl⟩ hturn
      | _ => rfl
    rw [hready]
    exact Nat.le_refl _
  obtain ⟨turn, rfl⟩ := hturn
  change turnsLeft p (w.saveWorker turn).worker ≤ _
  change (w.saveWorker turn).worker ≠ .ended at hawake'
  change (w.saveWorker turn).Open p at hstill
  cases hworker : w.worker with
  | ended => exact absurd hworker hawake
  | created =>
      have hjoined := h.sound.joined hopen (by rw [hworker]; rfl)
      have hstep : w.saveWorker turn = w.waitForSaveWindow p turn := by
        simp only [saveWorker, hworker, loop, hjoined]
      rw [hstep] at hawake' ⊢
      have hturns := waitForSaveWindow_turns hawake'
      have hready : Ready ⟨w, .saveWorker turn, ()⟩ = true := by simp only [Ready, hworker]
      rw [hready]
      exact Nat.le_trans hturns (Nat.sub_le 2 _)
  | window p' =>
      have hjoined := h.sound.joined hopen (by rw [hworker]; rfl)
      obtain rfl : p' = p := Option.some.inj ((h.sound.waits p' hworker).symm.trans hjoined)
      have hstep : w.saveWorker turn = w.waitForSaveWindow p' turn := by
        simp only [saveWorker, hworker]
      rw [hstep] at hawake' ⊢
      simp only [Ready, hworker]
      exact waitForSaveWindow_turns hawake'
  | writing q t =>
      cases hended : w.threads[t]?.bind Thread.result with
      | none =>
          have hstep : w.saveWorker turn = w := by simp only [saveWorker, hworker, hended]
          simp [hstep, Ready, hworker, hended]
      | some result =>
          have hstep : w.saveWorker turn = (w.settle q result.error).loop turn := by
            simp only [saveWorker, hworker, hended]
          have hcore := h.sound.core
          rw [hworker] at hcore
          have hfinish := hcore.finish result.error hended result.ok_or_error
          rw [hstep] at hstill hawake' ⊢
          have hlater := (hfinish.loop turn).2
          have hready : Ready ⟨w, .saveWorker turn, ()⟩ = true := by simp [Ready, hworker, hended]
          rw [hready]
          by_cases hq : q = p
          · subst hq
            obtain ⟨r, hr, -⟩ := hopen
            have hsettled : ∃ r', (w.settle q result.error).pendings[q]? = some r' := by
              simp [settle, hr]
            obtain ⟨r', hr'⟩ := hsettled
            have hdone : ¬ (w.settle q result.error).Open q :=
              fun hopen' => ((open_settle result.error q).mp hopen').2 rfl
            exact absurd hstill (hlater.not_open hr' hdone)
          · have hopen' := (open_settle result.error p).mpr ⟨hopen, Ne.symm hq⟩
            have hjoined : (w.settle q result.error).pendingSave = some p := by
              rcases hfinish.opened p hopen' with hjoined | ⟨t', ⟨⟩⟩
              exact hjoined
            have hloop : (w.settle q result.error).loop turn =
                (w.settle q result.error).waitForSaveWindow p turn := by
              simp only [loop, hjoined]
            rw [hloop] at hawake' ⊢
            have hturns := waitForSaveWindow_turns hawake'
            have hleft : turnsLeft p (.writing q t) = 3 := if_neg hq
            rw [hleft]
            exact Nat.le_trans hturns (Nat.sub_le 2 _)

/-- How many ready turns a writer may still take when nothing is marked. -/
def turnsToEnd (w : World) : Nat :=
  match w.worker, w.pendingSave with
  | .ended, _ => 0
  | .created, _ => 3
  | .window _, _ => 2
  | .writing _ _, none => 1
  | .writing _ _, some _ => 3

theorem turnsToEnd_le : w.turnsToEnd ≤ 3 := by
  unfold turnsToEnd
  split
  all_goals decide

theorem turnsToEnd_ended (h : w.worker = .ended) : w.turnsToEnd = 0 := by
  simp only [turnsToEnd, h]

theorem ended_of_turnsToEnd (h : w.turnsToEnd = 0) : w.worker = .ended := by
  unfold turnsToEnd at h
  split at h
  · assumption
  all_goals cases h

theorem waitForSaveWindow_end (p : Nat) (turn : Turn) :
    (w.waitForSaveWindow p turn).turnsToEnd ≤
      2 - if (w.pendings[p]?.map Pending.wake).getD false || turn.expired then 1 else 0 := by
  unfold waitForSaveWindow
  split
  · unfold beginWrite
    split
    · exact Nat.zero_le 1
    · exact Nat.le_refl 1
  · exact Nat.le_refl 2

theorem loop_end (turn : Turn) :
    (w.loop turn).turnsToEnd ≤ 2 ∧ (w.pendingSave = none → (w.loop turn).turnsToEnd = 0) := by
  unfold loop
  split
  · exact ⟨Nat.zero_le 2, fun _ => rfl⟩
  · next p hp =>
    refine ⟨Nat.le_trans (waitForSaveWindow_end p turn) (Nat.sub_le 2 _), ?_⟩
    intro hnone
    rw [hp] at hnone
    cases hnone

theorem saveWorker_end (turn : Turn) :
    (w.saveWorker turn).turnsToEnd ≤
      w.turnsToEnd - if Ready ⟨w, .saveWorker turn, ()⟩ then 1 else 0 := by
  cases hworker : w.worker with
  | ended => simp [saveWorker, hworker, Ready]
  | created =>
      have hready : Ready ⟨w, .saveWorker turn, ()⟩ = true := by simp only [Ready, hworker]
      have hleft : w.turnsToEnd = 3 := by simp only [turnsToEnd, hworker]
      have hstep : w.saveWorker turn = w.loop turn := by simp only [saveWorker, hworker]
      rw [hready, hleft, hstep]
      exact (loop_end turn).1
  | window p =>
      have hleft : w.turnsToEnd = 2 := by simp only [turnsToEnd, hworker]
      have hstep : w.saveWorker turn = w.waitForSaveWindow p turn := by
        simp only [saveWorker, hworker]
      rw [hleft, hstep]
      simp only [Ready, hworker]
      exact waitForSaveWindow_end p turn
  | writing q t =>
      cases hended : w.threads[t]?.bind Thread.result with
      | none => simp [saveWorker, Ready, hworker, hended]
      | some result =>
          have hready : Ready ⟨w, .saveWorker turn, ()⟩ = true := by simp [Ready, hworker, hended]
          have hstep : w.saveWorker turn = (w.settle q result.error).loop turn := by
            simp only [saveWorker, hworker, hended]
          have hloop := loop_end (w := w.settle q result.error) turn
          rw [hready, hstep]
          cases hsave : w.pendingSave with
          | none =>
              rw [hloop.2 hsave]
              exact Nat.zero_le _
          | some p =>
              have hleft : w.turnsToEnd = 3 := by simp only [turnsToEnd, hworker, hsave]
              rw [hleft]
              exact hloop.1

end World

/-- The actions that mark a record. -/
def Action.marks : Action → Bool
  | .markDirty _ _ | .save _ _ | .startCaller _ => true
  | _ => false

namespace World

variable {w : World}

theorem step_end {action : Action} (hmarks : action.marks = false) :
    (w.step action).1.turnsToEnd ≤ w.turnsToEnd - if Ready ⟨w, action, ()⟩ then 1 else 0 := by
  cases action with
  | markDirty durable wake => cases hmarks
  | save durable flush => cases hmarks
  | startCaller index => cases hmarks
  | mutate => exact Nat.le_refl _
  | persistRestoredState durable => exact Nat.le_refl _
  | cancelCaller index => exact Nat.le_refl _
  | resumeCaller index =>
      change (w.resumeCaller index).turnsToEnd ≤ w.turnsToEnd
      unfold resumeCaller
      split
      · exact Nat.le_refl _
      · split
        · split
          · exact Nat.le_refl _
          · exact Nat.le_refl _
        · exact Nat.le_refl _
  | flushPendingSave =>
      obtain ⟨_, _, hrest⟩ := flushPendingSave_rest (w := w)
      change w.flushPendingSave.turnsToEnd ≤ w.turnsToEnd
      rw [hrest]
      exact Nat.le_refl _
  | saveWorker turn => exact saveWorker_end turn
  | cancelWorker teardown =>
      change (w.cancelWorker teardown).turnsToEnd ≤ _
      rw [turnsToEnd_ended (cancelWorker_worker teardown)]
      exact Nat.zero_le _
  | runThread thread result =>
      obtain ⟨_, _, hrest⟩ := runThread_rest (w := w) thread result
      change (w.runThread thread result).turnsToEnd ≤ w.turnsToEnd
      rw [hrest]
      exact Nat.le_refl _

/-! ## Every run -/

/-- How many ready turns a record may still take. -/
def rank (p : Nat) (w : World) : Nat :=
  if (w.pendings[p]?.map Pending.done) = some false then turnsLeft p w.worker else 0

theorem rank_open {p : Nat} (h : w.Open p) : w.rank p = turnsLeft p w.worker := by
  obtain ⟨q, hq, hdone⟩ := h
  unfold rank
  rw [hq, Option.map_some, hdone, if_pos rfl]

theorem rank_done {p : Nat} (h : ¬ w.Open p) : w.rank p = 0 := by
  unfold rank
  rw [if_neg]
  intro hopen
  obtain ⟨q, hq, hdone⟩ := Option.map_eq_some_iff.mp hopen
  exact h ⟨q, hq, hdone⟩

theorem rank_le (p : Nat) : w.rank p ≤ 3 := by
  unfold rank
  split
  · exact turnsLeft_le p w.worker
  · exact Nat.zero_le 3

/-- A record with a mark, in a reachable world. -/
def Marked (p : Nat) (w : World) : Prop := w.Inv ∧ ∃ m ∈ w.marks, m.pending = p

theorem Marked.step {p : Nat} (h : w.Marked p) (action : Action) (steady : Steady ⟨w, action, ()⟩) :
    (w.step action).1.Marked p := by
  obtain ⟨hinv, m, hm, hp⟩ := h
  obtain ⟨hinv', hlater⟩ := hinv.step action steady
  exact ⟨hinv', m, hlater.marks m hm, hp⟩

theorem Marked.rank_step {p : Nat} (h : w.Marked p) (action : Action)
    (steady : Steady ⟨w, action, ()⟩) :
    (w.step action).1.rank p ≤ w.rank p - if Ready ⟨w, action, ()⟩ then 1 else 0 := by
  obtain ⟨hinv, m, hm, rfl⟩ := h
  by_cases hstill : (w.step action).1.Open m.pending
  swap
  · rw [rank_done hstill]
    exact Nat.zero_le _
  have hopen : w.Open m.pending := by
    by_contra hdone
    obtain ⟨index, hindex⟩ := List.mem_iff_getElem?.mp hm
    obtain ⟨-, q, hq, -⟩ := hinv.sound.core.marks index m hindex
    exact (hinv.step action steady).2.not_open hq hdone hstill
  rw [rank_open hopen, rank_open hstill]
  exact hinv.turns action steady hopen hstill

/-- Three ready turns end every record that was marked. -/
theorem Marked.ends {p : Nat} (h : w.Marked p) (actions : List Action)
    (steady : ∀ e ∈ Runs.history World.step w actions, Steady e)
    (turns : 3 ≤ (Runs.history World.step w actions).countP Ready) :
    ¬ (Runs.run World.step w actions).Open p := by
  have hmarked := Runs.run_guarded World.step (I := Marked p) (G := fun e => Steady e = true)
    (fun _ a hw hsteady => hw.step a hsteady) w h actions steady
  have hrank := Runs.run_ranked World.step (G := fun e => Steady e = true) (I := Marked p)
    (fun _ a hw hsteady => hw.step a hsteady) (fun _ a hw hsteady => hw.rank_step a hsteady)
    w h actions steady
  intro hopen
  have hawake := hmarked.1.sound.awake hopen
  have hle := rank_le (w := w) p
  have hpos := turnsLeft_pos p hawake
  rw [rank_open hopen] at hrank
  omega

theorem inv_run (actions : List Action)
    (steady : ∀ e ∈ Runs.history World.step World.empty actions, Steady e) :
    (Runs.run World.step World.empty actions).Inv :=
  Runs.run_guarded World.step (G := fun e => Steady e = true) (fun _ a hw hsteady => (hw.step a hsteady).1)
    World.empty inv_empty actions steady

theorem later_run {w : World} (h : w.Inv) (actions : List Action)
    (steady : ∀ e ∈ Runs.history World.step w actions, Steady e) :
    (Runs.run World.step w actions).Inv ∧ Later w (Runs.run World.step w actions) :=
  Runs.run_guarded World.step (G := fun e => Steady e = true) (I := fun w' => w'.Inv ∧ Later w w')
    (fun _ a hw hsteady => by
      obtain ⟨hinv, hlater⟩ := hw.1.step a hsteady
      exact ⟨hinv, hw.2.trans hlater⟩) w ⟨h, .refl w⟩ actions steady

/-- Without marks the writer ends, and with it every call that joined it. -/
theorem ends_unmarked (actions : List Action) (unmarked : ∀ a ∈ actions, a.marks = false)
    (turns : 3 ≤ (Runs.history World.step w actions).countP Ready) :
    (Runs.run World.step w actions).worker = .ended := by
  have hguarded : ∀ e ∈ Runs.history World.step w actions, e.action.marks = false := by
    intro e he
    apply unmarked
    rw [← Runs.history_actions World.step w actions]
    exact List.mem_map_of_mem he
  have hrank := Runs.run_ranked World.step (I := fun _ => True)
    (G := fun e => e.action.marks = false) (fun _ _ _ _ => trivial)
    (fun _ _ _ hmarks => step_end hmarks) w trivial actions hguarded
  apply ended_of_turnsToEnd
  have hle := turnsToEnd_le (w := w)
  omega

/-- A caller whose record is done ends. -/
theorem resumeCaller_outcome {index p : Nat} {c : Caller} {q : Pending}
    (hc : w.callers[index]? = some c) (hp : c.pending = some p) (hq : w.pendings[p]? = some q)
    (hdone : q.done = true) :
    ∃ c' o, (w.resumeCaller index).callers[index]? = some c' ∧ c'.outcome = some o := by
  cases ho : c.outcome with
  | some o =>
      refine ⟨c, o, ?_, ho⟩
      simp [resumeCaller, hc, ho]
  | none =>
      refine ⟨{ c with outcome := some (ending c q) }, ending c q, ?_, rfl⟩
      simp [resumeCaller, hc, ho, hp, hq, hdone]

end World

end AgentsServer.SessionSaves

import AgentsServer.SessionSaves.Linear

/-!
# What a save promises

A caller has marked its record and ends as the record did, in every run in which the writer
is cancelled only where it may be.
-/

namespace AgentsServer.SessionSaves

open Library

namespace World

variable {w : World}

/-! ## Callers -/

/-- A caller has marked what it waits for, and ends with the error of its record. -/
structure Served (w : World) (c : Caller) : Prop where
  since : c.since ≤ w.sessions
  marked : ∀ p, c.pending = some p → ∃ m ∈ w.marks, m.pending = p ∧ c.since ≤ m.sessions
  ended : ∀ o, c.outcome = some o → ∃ p q, c.pending = some p ∧ w.pendings[p]? = some q ∧
    q.done = true ∧ ∀ error, q.error = some error → o = .raised error

theorem Served.later {w' : World} {c : Caller} (h : w.Served c) (hlater : Later w w') :
    w'.Served c where
  since := Nat.le_trans h.since hlater.sessions
  marked := by
    intro p hp
    obtain ⟨m, hm, hjoined⟩ := h.marked p hp
    exact ⟨m, hlater.marks m hm, hjoined⟩
  ended := by
    intro o ho
    obtain ⟨p, q, hp, hq, hdone, herror⟩ := h.ended o ho
    exact ⟨p, q, hp, hlater.settled p q hq hdone, hdone, herror⟩

structure Inv (w : World) : Prop where
  sound : w.Sound
  served : ∀ (index : Nat) (c : Caller), w.callers[index]? = some c → w.Served c

theorem inv_empty : World.empty.Inv where
  sound := ⟨core_empty, fun _ => rfl, by rintro _ ⟨⟩⟩
  served := by rintro _ _ ⟨⟩

/-- A step that leaves the callers alone. -/
theorem Inv.keep {w' : World} (h : w.Inv) (hstep : w'.Sound ∧ Later w w')
    (hcallers : w'.callers = w.callers) : w'.Inv ∧ Later w w' := by
  refine ⟨⟨hstep.1, ?_⟩, hstep.2⟩
  intro index c hc
  rw [hcallers] at hc
  exact (h.served index c hc).later hstep.2

/-- A step of one caller. -/
theorem Inv.caller (h : w.Inv) (index : Nat) {f : Caller → Caller}
    (hserved : ∀ c, w.callers[index]? = some c → w.Served c → w.Served (f c))
    (hkeep : ∀ c p, w.callers[index]? = some c → c.pending = some p → (f c).pending = some p) :
    Inv { w with callers := w.callers.modify index f } ∧
      Later w { w with callers := w.callers.modify index f } := by
  have hmodify : ∀ k c, w.callers[k]? = some c →
      (w.callers.modify index f)[k]? = some (if index = k then f c else c) := by
    intro k c hc
    rw [List.getElem?_modify, hc]
    rfl
  have hlater : Later w { w with callers := w.callers.modify index f } := by
    refine ⟨Nat.le_refl _, fun _ h => h, fun _ _ h _ => h, ?_⟩
    intro k c p hc hp
    refine ⟨_, hmodify k c hc, ?_⟩
    split
    · next hk =>
      subst hk
      exact hkeep c p hc hp
    · exact hp
  refine ⟨⟨⟨h.sound.core.others w.worker w.writers _ w.flushers, h.sound.rests, h.sound.waits⟩, ?_⟩,
    hlater⟩
  intro k c' hc'
  obtain ⟨c, hc⟩ : ∃ c, w.callers[k]? = some c := by
    have hlt := (List.getElem?_eq_some_iff.mp hc').1
    rw [List.length_modify] at hlt
    exact ⟨_, List.getElem?_eq_getElem hlt⟩
  obtain rfl := Option.some.inj ((hmodify k c hc).symm.trans hc')
  split
  · next hk =>
    subst hk
    exact (hserved c hc (h.served _ c hc)).later hlater
  · exact (h.served k c hc).later hlater

/-- A new caller. -/
theorem Inv.enter (h : w.Inv) {c : Caller} (hserved : w.Served c) :
    Inv { w with callers := w.callers ++ [c] } ∧
      Later w { w with callers := w.callers ++ [c] } := by
  have hlater : Later w { w with callers := w.callers ++ [c] } := by
    refine ⟨Nat.le_refl _, fun _ h => h, fun _ _ h _ => h, ?_⟩
    intro k c' p hc' hp
    refine ⟨c', ?_, hp⟩
    rw [List.getElem?_append_left (List.getElem?_eq_some_iff.mp hc').1]
    exact hc'
  refine ⟨⟨⟨h.sound.core.others w.worker w.writers _ w.flushers, h.sound.rests, h.sound.waits⟩, ?_⟩,
    hlater⟩
  intro k c' hc'
  rcases getElem?_append_singleton hc' with hc' | ⟨-, rfl⟩
  · exact (h.served k c' hc').later hlater
  · exact hserved.later hlater

theorem Inv.markDirty (h : w.Inv) (durable wake : Bool) :
    (w.markDirty durable wake).1.Inv ∧ Later w (w.markDirty durable wake).1 ∧
      ⟨(w.markDirty durable wake).2, w.sessions⟩ ∈ (w.markDirty durable wake).1.marks ∧
      (w.markDirty durable wake).1.sessions = w.sessions ∧
      (w.markDirty durable wake).1.callers = w.callers := by
  obtain ⟨hsound, hlater, hrest⟩ := h.sound.markDirty durable wake
  exact ⟨(h.keep ⟨hsound, hlater⟩ hrest.2.2).1, hlater, hrest⟩

theorem Inv.save (h : w.Inv) (durable flush : Bool) :
    (w.save durable flush).Inv ∧ Later w (w.save durable flush) := by
  obtain ⟨hmarked, hlater, hmark, hsessions, -⟩ := h.markDirty durable (flush || durable)
  unfold World.save
  dsimp only
  split
  · have hserved : (w.markDirty durable (flush || durable)).1.Served
        ⟨some (w.markDirty durable (flush || durable)).2, durable, w.sessions, false, false, none⟩ := by
      refine ⟨Nat.le_of_eq hsessions.symm, ?_, ?_⟩
      · rintro p ⟨⟩
        exact ⟨_, hmark, rfl, Nat.le_refl _⟩
      · rintro _ ⟨⟩
    obtain ⟨hentered, hlater'⟩ := hmarked.enter hserved
    exact ⟨hentered, hlater.trans hlater'⟩
  · exact ⟨hmarked, hlater⟩

theorem Inv.startCaller (h : w.Inv) (index : Nat) :
    (w.startCaller index).Inv ∧ Later w (w.startCaller index) := by
  unfold World.startCaller
  split
  · exact ⟨h, .refl w⟩
  · next caller hcaller =>
    split
    swap
    · exact ⟨h, .refl w⟩
    · next hnone =>
      obtain ⟨hmarked, hlater, hmark, hsessions, hcallers⟩ := h.markDirty caller.durable true
      have hsame : ∀ c, (w.markDirty caller.durable true).1.callers[index]? = some c →
          c = caller := by
        intro c hc
        rw [hcallers, hcaller] at hc
        exact (Option.some.inj hc).symm
      obtain ⟨hstarted, hlater'⟩ := hmarked.caller index
        (f := fun c => { c with pending := some (w.markDirty caller.durable true).2 })
        (by
          intro c hc hserved
          obtain rfl := hsame c hc
          refine ⟨hserved.since, ?_, ?_⟩
          · rintro p ⟨⟩
            exact ⟨_, hmark, rfl, hsessions ▸ hserved.since⟩
          · intro o ho
            obtain ⟨p, -, hp, -⟩ := hserved.ended o ho
            rw [hnone] at hp
            cases hp)
        (by
          intro c p hc hp
          rw [hsame c hc, hnone] at hp
          cases hp)
      exact ⟨hstarted, hlater.trans hlater'⟩

theorem Inv.resumeCaller (h : w.Inv) (index : Nat) :
    (w.resumeCaller index).Inv ∧ Later w (w.resumeCaller index) := by
  unfold World.resumeCaller
  split
  · exact ⟨h, .refl w⟩
  · next caller hcaller =>
    split
    swap
    · exact ⟨h, .refl w⟩
    · next pending houtcome hpending =>
      split
      swap
      · exact ⟨h, .refl w⟩
      · next hdone =>
        apply h.caller index
        · intro c hc hserved
          obtain rfl : caller = c := Option.some.inj (hcaller.symm.trans hc)
          refine ⟨hserved.since, hserved.marked, ?_⟩
          rintro o ⟨⟩
          obtain ⟨p, hp, hq⟩ := Option.bind_eq_some_iff.mp hpending
          refine ⟨p, pending, hp, hq, hdone, ?_⟩
          intro error herror
          unfold ending
          rw [herror]
        · intro c p _ hp
          exact hp

/-! ## Runs -/

/-- The writer does not touch the callers. -/
theorem waitForSaveWindow_callers (p : Nat) (turn : Turn) :
    (w.waitForSaveWindow p turn).callers = w.callers := by
  unfold waitForSaveWindow beginWrite
  split
  · split
    · rfl
    · rfl
  · rfl

theorem loop_callers (turn : Turn) : (w.loop turn).callers = w.callers := by
  unfold loop
  split
  · rfl
  · exact waitForSaveWindow_callers _ turn

theorem saveWorker_callers (turn : Turn) : (w.saveWorker turn).callers = w.callers := by
  unfold saveWorker
  split
  · rfl
  · exact loop_callers turn
  · exact waitForSaveWindow_callers _ turn
  · split
    · rfl
    · exact loop_callers turn

theorem record_callers (snapshot : Snapshot) (result : Replaced) :
    (w.record snapshot result).callers = w.callers := by
  rw [record_rest]

theorem writeLeftover_callers (teardown : Teardown) :
    (w.writeLeftover teardown).callers = w.callers := by
  unfold writeLeftover
  split
  · rfl
  · split
    · rfl
    · exact record_callers _ _

theorem cancelWorker_callers (teardown : Teardown) :
    (w.cancelWorker teardown).callers = w.callers := by
  unfold cancelWorker
  split
  · rfl
  · rfl
  · exact writeLeftover_callers teardown
  · dsimp only
    rw [writeLeftover_callers]
    split
    · split
      · rfl
      · rfl
    · split
      · rfl
      · rfl

theorem Inv.step (h : w.Inv) (action : Action) (steady : Steady ⟨w, action, ()⟩) :
    (w.step action).1.Inv ∧ Later w (w.step action).1 := by
  cases action with
  | mutate =>
      exact h.keep ⟨⟨h.sound.core.mutate, h.sound.rests, h.sound.waits⟩, Nat.le_succ _,
        fun _ h => h, fun _ _ h _ => h, fun _ c _ h hp => ⟨c, h, hp⟩⟩ rfl
  | markDirty durable wake =>
      obtain ⟨hinv, hlater, -⟩ := h.markDirty durable wake
      exact ⟨hinv, hlater⟩
  | save durable flush => exact h.save durable flush
  | persistRestoredState durable =>
      apply h.enter
      refine ⟨Nat.le_refl _, ?_, ?_⟩
      · rintro _ ⟨⟩
      · rintro _ ⟨⟩
  | startCaller index => exact h.startCaller index
  | cancelCaller index =>
      apply h.caller index
      · exact fun c _ hserved => ⟨hserved.since, hserved.marked, hserved.ended⟩
      · exact fun c p _ hp => hp
  | resumeCaller index => exact h.resumeCaller index
  | flushPendingSave =>
      apply h.keep h.sound.flushPendingSave
      obtain ⟨_, _, hrest⟩ := flushPendingSave_rest (w := w)
      rw [hrest]
  | saveWorker turn => exact h.keep (h.sound.saveWorker turn) (saveWorker_callers turn)
  | cancelWorker teardown =>
      exact h.keep (h.sound.cancelWorker steady teardown) (cancelWorker_callers teardown)
  | runThread thread result =>
      apply h.keep (h.sound.runThread thread result)
      obtain ⟨_, _, hrest⟩ := runThread_rest (w := w) thread result
      rw [hrest]

end World

end AgentsServer.SessionSaves

import Mathlib.Data.List.Basic
import Mathlib.Order.Basic

/-!
# Runs of a deterministic machine

A machine is a step function that takes a state and an action to the next state
and an outcome. A run is a list of actions from a start state. Its history
lists, in order, the state before each action, the action and its outcome.

Invariants of runs, relations between an earlier and a later state, and
properties of pairs of events are each proved once here from a statement about
one step.
-/

namespace AgentsServer.Library.Runs

variable {σ α ο : Type*}

/-- One entry of a history: the state before an action, the action, its outcome. -/
structure Event (σ α ο : Type*) where
  before : σ
  action : α
  outcome : ο

section Machine

variable (step : σ → α → σ × ο)

/-- The state after a list of actions. -/
def run (s : σ) (acts : List α) : σ :=
  acts.foldl (fun s a => (step s a).1) s

/-- The events of a list of actions, in order. -/
def history (s : σ) : List α → List (Event σ α ο)
  | [] => []
  | a :: rest => ⟨s, a, (step s a).2⟩ :: history (step s a).1 rest

@[simp] theorem run_nil (s : σ) : run step s [] = s := rfl

@[simp] theorem run_cons (s : σ) (a : α) (rest : List α) :
    run step s (a :: rest) = run step (step s a).1 rest := rfl

theorem run_append (s : σ) (pre post : List α) :
    run step s (pre ++ post) = run step (run step s pre) post := by
  simp [run, List.foldl_append]

@[simp] theorem history_nil (s : σ) : history step s [] = [] := rfl

@[simp] theorem history_cons (s : σ) (a : α) (rest : List α) :
    history step s (a :: rest) =
      ⟨s, a, (step s a).2⟩ :: history step (step s a).1 rest := rfl

theorem history_actions (s : σ) (acts : List α) :
    (history step s acts).map Event.action = acts := by
  induction acts generalizing s with
  | nil => rfl
  | cons a rest ih => simp [ih]

theorem history_append (s : σ) (pre post : List α) :
    history step s (pre ++ post) =
      history step s pre ++ history step (run step s pre) post := by
  induction pre generalizing s with
  | nil => rfl
  | cons a rest ih => simp [ih]

/-- The event of an action after a run. -/
def eventAfter (s : σ) (pre : List α) (a : α) : Event σ α ο :=
  ⟨run step s pre, a, (step (run step s pre) a).2⟩

theorem eventAfter_mem (s : σ) (pre post : List α) (a : α) :
    eventAfter step s pre a ∈ history step s (pre ++ a :: post) := by
  rw [history_append, history_cons]
  exact List.mem_append_right _ List.mem_cons_self

/-- The history of a run through two of its actions. -/
theorem history_two (s : σ) (pre mid post : List α) (a b : α) :
    history step s (pre ++ a :: mid ++ b :: post) =
      history step s pre ++ eventAfter step s pre a ::
        history step (run step s (pre ++ [a])) mid ++
        eventAfter step s (pre ++ a :: mid) b ::
          history step (run step s (pre ++ a :: mid ++ [b])) post := by
  simp [history_append, run_append, eventAfter]

/-- The history of a run cut at one of its events. -/
theorem history_split (s : σ) (acts : List α) (before after : List (Event σ α ο))
    (e : Event σ α ο) (h : history step s acts = before ++ e :: after) :
    ∃ pre a post, acts = pre ++ a :: post ∧ before = history step s pre ∧
      e = ⟨run step s pre, a, (step (run step s pre) a).2⟩ ∧
      after = history step (step (run step s pre) a).1 post := by
  induction acts generalizing s before with
  | nil => simp at h
  | cons b rest ih =>
      cases before with
      | nil =>
          simp only [history_cons, List.nil_append, List.cons.injEq] at h
          exact ⟨[], b, rest, rfl, rfl, h.1.symm, h.2.symm⟩
      | cons f before =>
          simp only [history_cons, List.cons_append, List.cons.injEq] at h
          obtain ⟨pre, a, post, rfl, hb, he, ha⟩ := ih _ _ h.2
          exact ⟨b :: pre, a, post, rfl, by rw [← h.1, hb]; rfl, he, ha⟩

/-- A subsequence of events starts at one event and goes on in the run after it. -/
theorem history_cut (s : σ) (acts : List α) {e : Event σ α ο} {es : List (Event σ α ο)}
    (h : (e :: es).Sublist (history step s acts)) :
    ∃ pre a post, acts = pre ++ a :: post ∧
      e = ⟨run step s pre, a, (step (run step s pre) a).2⟩ ∧
      es.Sublist (history step (step (run step s pre) a).1 post) := by
  induction acts generalizing s with
  | nil => simp at h
  | cons b rest ih =>
      rw [history_cons] at h
      cases h with
      | cons _ h =>
          obtain ⟨pre, a, post, rfl, he, hes⟩ := ih _ h
          exact ⟨b :: pre, a, post, rfl, he, hes⟩
      | cons_cons _ h => exact ⟨[], b, rest, rfl, rfl, h⟩

/-- A property of states that one step keeps holds after every run. -/
theorem run_invariant {I : σ → Prop}
    (keep : ∀ s a, I s → I (step s a).1) (s : σ) (h : I s) (acts : List α) :
    I (run step s acts) := by
  induction acts generalizing s with
  | nil => exact h
  | cons a rest ih => exact ih _ (keep s a h)

/-- A reflexive and transitive relation that one step respects relates the
state before a run to the state after it. -/
theorem run_related {I : σ → Prop} {R : σ → σ → Prop}
    (keep : ∀ s a, I s → I (step s a).1)
    (refl : ∀ s, R s s) (trans : ∀ s t u, R s t → R t u → R s u)
    (one : ∀ s a, I s → R s (step s a).1) (s : σ) (h : I s) (acts : List α) :
    R s (run step s acts) := by
  induction acts generalizing s with
  | nil => exact refl s
  | cons a rest ih => exact trans _ _ _ (one s a h) (ih _ (keep s a h))

/-- An invariant that a step keeps when the step meets a condition. -/
theorem run_guarded {I : σ → Prop} {G : Event σ α ο → Prop}
    (keep : ∀ s a, I s → G ⟨s, a, (step s a).2⟩ → I (step s a).1) (s : σ) (h : I s)
    (acts : List α) (guarded : ∀ e ∈ history step s acts, G e) : I (run step s acts) := by
  induction acts generalizing s with
  | nil => exact h
  | cons a rest ih =>
      have hfirst := guarded ⟨s, a, (step s a).2⟩ List.mem_cons_self
      exact ih _ (keep s a h hfirst) fun e he => guarded e (List.mem_cons_of_mem _ he)

/-- A rank that no step raises, and that every ready step lowers. -/
theorem run_ranked {I : σ → Prop} {G : Event σ α ο → Prop} {rank : σ → Nat}
    {ready : Event σ α ο → Bool}
    (keep : ∀ s a, I s → G ⟨s, a, (step s a).2⟩ → I (step s a).1)
    (lower : ∀ s a, I s → G ⟨s, a, (step s a).2⟩ →
      rank (step s a).1 ≤ rank s - if ready ⟨s, a, (step s a).2⟩ then 1 else 0)
    (s : σ) (h : I s) (acts : List α) (guarded : ∀ e ∈ history step s acts, G e) :
    rank (run step s acts) ≤ rank s - (history step s acts).countP ready := by
  induction acts generalizing s with
  | nil => exact Nat.le_refl _
  | cons a rest ih =>
      have hfirst := guarded ⟨s, a, (step s a).2⟩ List.mem_cons_self
      have hlower := lower s a h hfirst
      have hrest := ih _ (keep s a h hfirst) fun e he => guarded e (List.mem_cons_of_mem _ he)
      rw [run_cons, history_cons, List.countP_cons]
      omega

/-- Every event of a run satisfies what one step from an invariant state gives. -/
theorem history_forall {I : σ → Prop} {P : Event σ α ο → Prop}
    (keep : ∀ s a, I s → I (step s a).1)
    (one : ∀ s a, I s → P ⟨s, a, (step s a).2⟩) (s : σ) (h : I s) (acts : List α) :
    ∀ e ∈ history step s acts, P e := by
  induction acts generalizing s with
  | nil => simp
  | cons a rest ih =>
      intro e he
      rcases List.mem_cons.mp he with rfl | he
      · exact one s a h
      · exact ih _ (keep s a h) e he

/-- Pairs of events of one run. An event `e` leaves a mark `M e` on the state
after it, later steps keep the mark, and from a marked state the next event is
related to `e`. Then every later event is. -/
theorem history_pairwise {I : σ → Prop} {M : Event σ α ο → σ → Prop}
    {R : Event σ α ο → Event σ α ο → Prop}
    (keep : ∀ s a, I s → I (step s a).1)
    (mark : ∀ s a, I s → M ⟨s, a, (step s a).2⟩ (step s a).1)
    (hold : ∀ e s a, I s → M e s → M e (step s a).1)
    (next : ∀ e s a, I s → M e s → R e ⟨s, a, (step s a).2⟩)
    (s : σ) (h : I s) (acts : List α) :
    (history step s acts).Pairwise R := by
  have later : ∀ (e : Event σ α ο) (s : σ), I s → M e s → ∀ acts : List α,
      ∀ f ∈ history step s acts, R e f := by
    intro e s hs hm acts
    induction acts generalizing s with
    | nil => simp
    | cons a rest ih =>
        intro f hf
        rcases List.mem_cons.mp hf with rfl | hf
        · exact next e s a hs hm
        · exact ih _ (keep s a hs) (hold e s a hs hm) f hf
  induction acts generalizing s with
  | nil => simp
  | cons a rest ih =>
      exact List.pairwise_cons.mpr
        ⟨later _ _ (keep s a h) (mark s a h) rest, ih _ (keep s a h)⟩

/-- The mark of every event of a run is on the state after the run. -/
theorem history_marks {I : σ → Prop} {M : Event σ α ο → σ → Prop}
    (keep : ∀ s a, I s → I (step s a).1)
    (mark : ∀ s a, I s → M ⟨s, a, (step s a).2⟩ (step s a).1)
    (hold : ∀ e s a, I s → M e s → M e (step s a).1)
    (s : σ) (h : I s) (acts : List α) :
    ∀ e ∈ history step s acts, M e (run step s acts) := by
  induction acts generalizing s with
  | nil => simp
  | cons a rest ih =>
      intro e he
      rcases List.mem_cons.mp he with rfl | he
      · have stay : ∀ (acts : List α) (t : σ), I t → M ⟨s, a, (step s a).2⟩ t →
            M ⟨s, a, (step s a).2⟩ (run step t acts) := by
          intro acts
          induction acts with
          | nil => exact fun t _ hm => hm
          | cons b more ihm =>
              exact fun t ht hm => ihm _ (keep t b ht) (hold _ t b ht hm)
        exact stay rest _ (keep s a h) (mark s a h)
      · exact ih _ (keep s a h) e he

/-- What the steps after a marking event keep, unless one of them lifts the mark, holds at
every later event. -/
theorem history_since {I M : σ → Prop} {A O : Event σ α ο → Prop}
    (keep : ∀ s a, I s → I (step s a).1)
    (mark : ∀ s a, I s → A ⟨s, a, (step s a).2⟩ → M (step s a).1)
    (hold : ∀ s a, I s → M s → ¬ O ⟨s, a, (step s a).2⟩ → M (step s a).1)
    (s : σ) (h : I s) (acts : List α) {pre mid post : List (Event σ α ο)} {e f : Event σ α ο}
    (split : history step s acts = pre ++ e :: mid ++ f :: post) (he : A e)
    (still : ∀ o ∈ mid, ¬ O o) :
    I f.before ∧ M f.before ∧ f.outcome = (step f.before f.action).2 := by
  have walk : ∀ (mid : List (Event σ α ο)) (acts : List α) (t : σ), I t → M t →
      history step t acts = mid ++ f :: post → (∀ o ∈ mid, ¬ O o) →
      I f.before ∧ M f.before ∧ f.outcome = (step f.before f.action).2 := by
    intro mid
    induction mid with
    | nil =>
        intro acts t ht hm hrun _
        cases acts with
        | nil => simp at hrun
        | cons b rest =>
            simp only [history_cons, List.nil_append, List.cons.injEq] at hrun
            rw [← hrun.1]
            exact ⟨ht, hm, rfl⟩
    | cons o mid ih =>
        intro acts t ht hm hrun hstill
        cases acts with
        | nil => simp at hrun
        | cons b rest =>
            simp only [history_cons, List.cons_append, List.cons.injEq] at hrun
            have hlift := hstill o List.mem_cons_self
            rw [← hrun.1] at hlift
            exact ih rest _ (keep t b ht) (hold t b ht hm hlift) hrun.2
              fun o ho => hstill o (List.mem_cons_of_mem _ ho)
  rw [List.append_assoc, List.cons_append] at split
  obtain ⟨before, a, after, rfl, -, rfl, htail⟩ := history_split step s acts _ _ e split
  have hI := run_invariant step keep s h before
  exact walk mid after _ (keep _ a hI) (mark _ a hI he) htail.symm still

/-- Between a marking event and a later event that the mark excludes, some event lifted
the mark. -/
theorem history_between {I M : σ → Prop} {A P O : Event σ α ο → Prop}
    (keep : ∀ s a, I s → I (step s a).1)
    (mark : ∀ s a, I s → A ⟨s, a, (step s a).2⟩ → M (step s a).1)
    (hold : ∀ s a, I s → M s → ¬ O ⟨s, a, (step s a).2⟩ → M (step s a).1)
    (not : ∀ s a, I s → M s → ¬ P ⟨s, a, (step s a).2⟩)
    (s : σ) (h : I s) (acts : List α) {pre mid post : List (Event σ α ο)} {e f : Event σ α ο}
    (split : history step s acts = pre ++ e :: mid ++ f :: post) (he : A e) (hf : P f) :
    ∃ o ∈ mid, O o := by
  by_contra hno
  have hstill : ∀ o ∈ mid, ¬ O o := fun o ho hlift => hno ⟨o, ho, hlift⟩
  obtain ⟨hI, hM, hout⟩ := history_since step keep mark hold s h acts split he hstill
  apply not f.before f.action hI hM
  rw [← hout]
  exact hf

/-- What a run holds at the end and what its events gave back are together what it held at the
start and what its events took. -/
theorem history_balance {I : σ → Prop} {H : σ → Nat} {T G : Event σ α ο → Bool}
    (keep : ∀ s a, I s → I (step s a).1)
    (one : ∀ s a, I s → H (step s a).1 + (G ⟨s, a, (step s a).2⟩).toNat =
      H s + (T ⟨s, a, (step s a).2⟩).toNat)
    (s : σ) (h : I s) (acts : List α) :
    H (run step s acts) + (history step s acts).countP G =
      H s + (history step s acts).countP T := by
  induction acts generalizing s with
  | nil => rfl
  | cons a rest ih =>
      have hone := one s a h
      have hrest := ih _ (keep s a h)
      rw [run_cons, history_cons, List.countP_cons, List.countP_cons]
      cases hg : G ⟨s, a, (step s a).2⟩ <;> cases ht : T ⟨s, a, (step s a).2⟩ <;>
        simp only [hg, ht, Bool.toNat_true, Bool.toNat_false, if_true, if_false,
          Bool.false_eq_true] at hone ⊢ <;> omega

/-- What holds after a run and did not before it was brought about by one of its events. -/
theorem history_cause {I P : σ → Prop} {A : Event σ α ο → Prop}
    (keep : ∀ s a, I s → I (step s a).1)
    (one : ∀ s a, I s → P (step s a).1 → P s ∨ A ⟨s, a, (step s a).2⟩)
    (s : σ) (h : I s) (acts : List α) (after : P (run step s acts)) :
    P s ∨ ∃ e ∈ history step s acts, A e := by
  induction acts generalizing s with
  | nil => exact Or.inl after
  | cons a rest ih =>
      rcases ih _ (keep s a h) after with hnext | ⟨e, he, hA⟩
      · rcases one s a h hnext with hP | hA
        · exact Or.inl hP
        · exact Or.inr ⟨_, List.mem_cons_self, hA⟩
      · exact Or.inr ⟨e, List.mem_cons_of_mem _ he, hA⟩

/-- A run keeps what its steps keep or drop, unless one of them drops it. -/
theorem run_kept {ρ : Type*} {I : σ → Prop} {rows : σ → List ρ} {R : ρ → ρ → Prop}
    {D : Event σ α ο → ρ → Prop}
    (keep : ∀ s a, I s → I (step s a).1) (refl : ∀ r, R r r)
    (trans : ∀ r r' r'', R r r' → R r' r'' → R r r'')
    (one : ∀ s a, I s → ∀ r ∈ rows s,
      (∃ r' ∈ rows (step s a).1, R r r') ∨ D ⟨s, a, (step s a).2⟩ r)
    (s : σ) (h : I s) (acts : List α) {r : ρ} (hr : r ∈ rows s) :
    (∃ r' ∈ rows (run step s acts), R r r') ∨
      ∃ e ∈ history step s acts, ∃ r' ∈ rows e.before, R r r' ∧ D e r' := by
  induction acts generalizing s r with
  | nil => exact Or.inl ⟨r, hr, refl r⟩
  | cons a rest ih =>
      rcases one s a h r hr with ⟨r', hr', hrel⟩ | hdrop
      · rcases ih _ (keep s a h) hr' with ⟨r'', hr'', hrel'⟩ | ⟨e, he, r'', hr'', hrel', hdrop⟩
        · exact Or.inl ⟨r'', hr'', trans _ _ _ hrel hrel'⟩
        · exact Or.inr ⟨e, List.mem_cons_of_mem _ he, r'', hr'', trans _ _ _ hrel hrel', hdrop⟩
      · exact Or.inr ⟨_, List.mem_cons_self, r, hr, refl r, hdrop⟩

end Machine

end AgentsServer.Library.Runs

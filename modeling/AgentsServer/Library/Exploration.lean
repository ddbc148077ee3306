import Mathlib.Data.List.Nodup
import Mathlib.Logic.Relation
import Mathlib.Tactic.Common

/-!
# Exploration within a budget

A list of nodes grows while it is read: the children of each node are observed in order, and
those that are kept are appended. A budget bounds how many nodes are observed, kept or not. An
exploration that was not truncated has found exactly what its root reaches.
-/

namespace AgentsServer.Library.Exploration

variable {α κ : Type*} [DecidableEq κ]

structure Explored (α κ : Type*) where
  graph : List α
  seen : List κ
  observed : Nat
  truncated : Bool

variable (id : α → κ) (keep : α → Bool) (budget : Nat)

/-- Observe the children of one node. -/
def observe : List α → Explored α κ → Explored α κ
  | [], e => e
  | child :: rest, e =>
      if budget ≤ e.observed then { e with truncated := true }
      else if id child ∈ e.seen then
        observe rest { e with observed := e.observed + 1, truncated := true }
      else
        observe rest { e with
          observed := e.observed + 1
          seen := id child :: e.seen
          graph := if keep child then e.graph ++ [child] else e.graph }

variable {id keep budget}

/-- Every node that is appended is paid from the budget. -/
theorem observe_paid (children : List α) (e : Explored α κ) :
    (observe id keep budget children e).graph.length +
        (budget - (observe id keep budget children e).observed) ≤
      e.graph.length + (budget - e.observed) := by
  induction children generalizing e with
  | nil => exact Nat.le_refl _
  | cons child rest ih =>
      rw [observe]
      split
      · exact Nat.le_refl _
      split
      · apply Nat.le_trans (ih _)
        dsimp only
        omega
      · apply Nat.le_trans (ih _)
        dsimp only
        split
        · rw [List.length_append, List.length_singleton]
          omega
        · omega

variable (id keep budget) in
/-- The list is read to its end while it grows. -/
def explore (children : α → List α) (index : Nat) (e : Explored α κ) : Explored α κ :=
  if h : index < e.graph.length then
    let next := observe id keep budget
      ((children e.graph[index]).take (budget - e.observed + 1)) e
    if budget ≤ next.observed ∧ next.truncated = true then next
    else explore children (index + 1) next
  else e
termination_by e.graph.length + (budget - e.observed) - index
decreasing_by
  have hpaid := @observe_paid _ _ _ id keep budget
    ((children e.graph[index]).take (budget - e.observed + 1)) e
  omega

variable (id keep budget) in
/-- The exploration from a root. -/
def exploreFrom (children : α → List α) (root : α) (truncated : Bool) : Explored α κ :=
  explore id keep budget children 0 { graph := [root], seen := [id root], observed := 1, truncated }

/-! ## The children of one node -/

theorem observe_graph (children : List α) (e : Explored α κ) :
    ∃ more, (observe id keep budget children e).graph = e.graph ++ more ∧
      ∀ m ∈ more, m ∈ children ∧ keep m = true := by
  induction children generalizing e with
  | nil => exact ⟨[], (List.append_nil _).symm, fun m hm => absurd hm List.not_mem_nil⟩
  | cons child rest ih =>
      rw [observe]
      split
      · exact ⟨[], (List.append_nil _).symm, fun m hm => absurd hm List.not_mem_nil⟩
      split
      · obtain ⟨more, hmore, hkept⟩ := ih { e with observed := e.observed + 1, truncated := true }
        exact ⟨more, hmore, fun m hm => ⟨List.mem_cons_of_mem _ (hkept m hm).1, (hkept m hm).2⟩⟩
      · obtain ⟨more, hmore, hkept⟩ := ih { e with
          observed := e.observed + 1
          seen := id child :: e.seen
          graph := if keep child then e.graph ++ [child] else e.graph }
        by_cases hkeep : keep child = true
        · refine ⟨child :: more, ?_, ?_⟩
          · rw [hmore]
            simp only [hkeep, if_true, List.append_assoc, List.singleton_append]
          · intro m hm
            cases List.mem_cons.mp hm with
            | inl heq => exact ⟨heq ▸ List.mem_cons_self, heq ▸ hkeep⟩
            | inr hm => exact ⟨List.mem_cons_of_mem _ (hkept m hm).1, (hkept m hm).2⟩
        · refine ⟨more, ?_, ?_⟩
          · rw [hmore]
            simp only [hkeep, Bool.false_eq_true, if_false]
          · intro m hm
            exact ⟨List.mem_cons_of_mem _ (hkept m hm).1, (hkept m hm).2⟩

theorem mem_observe {e : Explored α κ} {m : α} (h : m ∈ e.graph) (children : List α) :
    m ∈ (observe id keep budget children e).graph := by
  obtain ⟨more, hmore, _⟩ := @observe_graph _ _ _ id keep budget children e
  rw [hmore]
  exact List.mem_append_left _ h

theorem observe_truncated {e : Explored α κ} (h : e.truncated = true) (children : List α) :
    (observe id keep budget children e).truncated = true := by
  induction children generalizing e with
  | nil => exact h
  | cons child rest ih =>
      rw [observe]
      split
      · rfl
      split
      · exact ih rfl
      · exact ih h

/-- Without a truncation the budget was enough and every kept child is there. -/
theorem observe_complete {children : List α} {e : Explored α κ}
    (h : (observe id keep budget children e).truncated = false) :
    children.length ≤ budget - e.observed ∧
      ∀ c ∈ children, keep c = true → c ∈ (observe id keep budget children e).graph := by
  induction children generalizing e with
  | nil => exact ⟨Nat.zero_le _, fun c hc => absurd hc List.not_mem_nil⟩
  | cons child rest ih =>
      rw [observe] at h ⊢
      split at h
      · cases h
      · next hroom =>
          rw [if_neg hroom]
          split at h
          · rw [observe_truncated rfl] at h
            cases h
          · next hnew =>
              rw [if_neg hnew]
              obtain ⟨hlength, hall⟩ := ih h
              refine ⟨?_, ?_⟩
              · rw [List.length_cons]
                dsimp only at hlength
                omega
              · intro c hc hkeep
                cases List.mem_cons.mp hc with
                | inr hc => exact hall c hc hkeep
                | inl heq =>
                    apply mem_observe
                    rw [heq] at hkeep ⊢
                    simp only [hkeep, if_true]
                    exact List.mem_append_right _ List.mem_cons_self

/-- No node is listed twice, and every listed one was seen. -/
structure Distinct (id : α → κ) (e : Explored α κ) : Prop where
  once : (e.graph.map id).Nodup
  seen : ∀ m ∈ e.graph, id m ∈ e.seen

theorem Distinct.observe {e : Explored α κ} (h : Distinct id e) (children : List α) :
    Distinct id (observe id keep budget children e) := by
  induction children generalizing e with
  | nil => exact h
  | cons child rest ih =>
      rw [Exploration.observe]
      split
      · exact ⟨h.once, h.seen⟩
      split
      · exact ih ⟨h.once, h.seen⟩
      · next hnew =>
          apply ih
          constructor
          · by_cases hkeep : keep child = true
            · simp only [hkeep, if_true, List.map_append, List.map_cons, List.map_nil]
              rw [List.nodup_append]
              refine ⟨h.once, List.nodup_singleton _, ?_⟩
              intro a ha b hb heq
              obtain ⟨m, hm, rfl⟩ := List.mem_map.mp ha
              rw [List.mem_singleton.mp hb] at heq
              exact hnew (heq ▸ h.seen m hm)
            · simp only [hkeep, Bool.false_eq_true, if_false]
              exact h.once
          · intro m hm
            by_cases hkeep : keep child = true
            · simp only [hkeep, if_true] at hm
              cases List.mem_append.mp hm with
              | inl hm => exact List.mem_cons_of_mem _ (h.seen m hm)
              | inr hm =>
                  rw [List.mem_singleton.mp hm]
                  exact List.mem_cons_self
            · simp only [hkeep, Bool.false_eq_true, if_false] at hm
              exact List.mem_cons_of_mem _ (h.seen m hm)

/-! ## The whole exploration -/

variable {children : α → List α} {e : Explored α κ}

/-- A kept child. -/
def Edge (children : α → List α) (keep : α → Bool) (p c : α) : Prop :=
  c ∈ children p ∧ keep c = true

theorem explore_end {index : Nat} (h : e.graph.length ≤ index) :
    explore id keep budget children index e = e := by
  rw [explore, dif_neg (Nat.not_lt.mpr h)]

/-- The next node is read if its observation did not end the exploration. -/
theorem explore_next {index : Nat} {next : Explored α κ} (h : index < e.graph.length)
    (hnext : observe id keep budget
      ((children e.graph[index]).take (budget - e.observed + 1)) e = next)
    (whole : next.truncated = false) :
    explore id keep budget children index e = explore id keep budget children (index + 1) next := by
  rw [explore, dif_pos h]
  dsimp only
  rw [hnext, if_neg (by simp [whole])]

/-- What the observation of one node keeps, the whole exploration keeps. -/
theorem explore_keeps {I : Explored α κ → Prop} (index : Nat) (h : I e)
    (step : ∀ (e : Explored α κ) (p : α) (limit : Nat), p ∈ e.graph → I e →
      I (observe id keep budget ((children p).take limit) e)) :
    I (explore id keep budget children index e) := by
  induction hn : e.graph.length + (budget - e.observed) - index using Nat.strongRecOn
    generalizing e index with
  | ind n ih =>
      rw [explore]
      split
      · next hindex =>
          have hnext := step e _ (budget - e.observed + 1) (List.getElem_mem hindex) h
          have hpaid := @observe_paid _ _ _ id keep budget
            ((children e.graph[index]).take (budget - e.observed + 1)) e
          dsimp only
          split
          · exact hnext
          · exact ih _ (by omega) _ hnext rfl
      · exact h

theorem Distinct.explore (h : Distinct id e) (index : Nat) :
    Distinct id (explore id keep budget children index e) :=
  explore_keeps index h fun _ _ _ _ h => h.observe _

/-- Everything that is found is reached from the root. -/
theorem explore_reached {root : α}
    (h : ∀ m ∈ e.graph, Relation.ReflTransGen (Edge children keep) root m) (index : Nat) :
    ∀ m ∈ (explore id keep budget children index e).graph,
      Relation.ReflTransGen (Edge children keep) root m := by
  apply explore_keeps (I := fun e => ∀ m ∈ e.graph,
    Relation.ReflTransGen (Edge children keep) root m) index h
  intro e p limit hp h m hm
  obtain ⟨more, hmore, hkept⟩ := @observe_graph _ _ _ id keep budget
    ((children p).take limit) e
  rw [hmore] at hm
  cases List.mem_append.mp hm with
  | inl hm => exact h m hm
  | inr hm =>
      obtain ⟨hchild, hkeep⟩ := hkept m hm
      exact (h p hp).tail ⟨List.mem_of_mem_take hchild, hkeep⟩

theorem explore_truncated (h : e.truncated = true) (index : Nat) :
    (explore id keep budget children index e).truncated = true :=
  explore_keeps (I := fun e => e.truncated = true) index h
    fun _ _ _ _ h => observe_truncated h _

/-- The children of a node whose observation was not truncated. -/
theorem observe_edges {p : α}
    (whole : (observe id keep budget ((children p).take (budget - e.observed + 1)) e).truncated =
      false) {c : α} (hc : Edge children keep p c) :
    c ∈ (observe id keep budget ((children p).take (budget - e.observed + 1)) e).graph := by
  obtain ⟨hlength, hall⟩ := observe_complete whole
  apply hall c _ hc.2
  rw [List.length_take] at hlength
  rw [List.take_of_length_le (by omega)]
  exact hc.1

/-- Without a truncation every kept child of a node that was read is found. -/
theorem explore_closed (index : Nat)
    (h : ∀ p ∈ e.graph.take index, ∀ c, Edge children keep p c → c ∈ e.graph)
    (whole : (explore id keep budget children index e).truncated = false) :
    ∀ p ∈ (explore id keep budget children index e).graph, ∀ c, Edge children keep p c →
      c ∈ (explore id keep budget children index e).graph := by
  induction hn : e.graph.length + (budget - e.observed) - index using Nat.strongRecOn
    generalizing e index with
  | ind n ih =>
      rw [explore] at whole ⊢
      split
      · next hindex =>
          rw [dif_pos hindex] at whole
          dsimp only at whole ⊢
          have hpaid := @observe_paid _ _ _ id keep budget
            ((children e.graph[index]).take (budget - e.observed + 1)) e
          split
          · next hfull =>
              rw [if_pos hfull, hfull.2] at whole
              cases whole
          · next hroom =>
              rw [if_neg hroom] at whole
              refine ih _ ?_ (index + 1) ?_ whole rfl
              · omega
              · have hwhole : (observe id keep budget
                    ((children e.graph[index]).take (budget - e.observed + 1)) e).truncated =
                    false := by
                  rw [Bool.eq_false_iff]
                  intro htruncated
                  rw [explore_truncated htruncated] at whole
                  cases whole
                intro p hp c hc
                obtain ⟨more, hmore, _⟩ := @observe_graph _ _ _ id keep budget
                  ((children e.graph[index]).take (budget - e.observed + 1)) e
                rw [hmore, List.take_append_of_le_length hindex,
                  List.take_add_one, List.getElem?_eq_getElem hindex] at hp
                cases List.mem_append.mp hp with
                | inl hp => exact mem_observe (h p hp c hc) _
                | inr hp =>
                    rw [List.mem_singleton.mp hp] at hc
                    exact observe_edges hwhole hc
      · next hindex =>
          rw [List.take_of_length_le (by omega)] at h
          exact h

/-- An exploration lists no node twice and only what its root reaches. Without a truncation it
lists all of that. -/
theorem exploreFrom_spec (root : α) (truncated : Bool) :
    ((exploreFrom id keep budget children root truncated).graph.map id).Nodup ∧
    (∀ m ∈ (exploreFrom id keep budget children root truncated).graph,
      Relation.ReflTransGen (Edge children keep) root m) ∧
    ((exploreFrom id keep budget children root truncated).truncated = false → ∀ m,
      Relation.ReflTransGen (Edge children keep) root m →
        m ∈ (exploreFrom id keep budget children root truncated).graph) := by
  refine ⟨?_, ?_, ?_⟩
  · apply (Distinct.explore _ 0).once
    constructor
    · exact List.nodup_singleton _
    · intro m hm
      rw [List.mem_singleton.mp hm]
      exact List.mem_singleton_self _
  · apply explore_reached
    intro m hm
    rw [List.mem_singleton.mp hm]
  · intro whole m hm
    have hroot : root ∈ (exploreFrom id keep budget children root truncated).graph := by
      apply explore_keeps (I := fun e => root ∈ e.graph) 0 (List.mem_singleton_self _)
      intro e p limit _ h
      exact mem_observe h _
    induction hm with
    | refl => exact hroot
    | tail _ hedge ih =>
        refine explore_closed 0 ?_ whole _ ih _ hedge
        intro p hp
        exact absurd hp List.not_mem_nil

end AgentsServer.Library.Exploration

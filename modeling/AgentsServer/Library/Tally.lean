import Mathlib.Algebra.BigOperators.Group.List.Basic
import Mathlib.Algebra.GroupWithZero.Nat

/-!
# Tallies

The total size of the rows that count. It does not grow when rows are dropped, or are
updated so that no row counts that did not count before.
-/

namespace AgentsServer.Library

variable {α : Type*}

/-- The total size of the rows that count. -/
def tally (counts : α → Bool) (size : α → Nat) (rows : List α) : Nat :=
  ((rows.filter counts).map size).sum

variable {counts counts' : α → Bool} {size : α → Nat} {rows more : List α}

theorem tally_cons (a : α) (rows : List α) :
    tally counts size (a :: rows) = (if counts a then size a else 0) + tally counts size rows := by
  unfold tally
  by_cases h : counts a = true
  · simp [h]
  · simp [h]

theorem tally_append : tally counts size (rows ++ more) =
    tally counts size rows + tally counts size more := by
  unfold tally
  rw [List.filter_append, List.map_append, List.sum_append]

theorem tally_sublist_le (h : more.Sublist rows) :
    tally counts size more ≤ tally counts size rows := by
  induction h with
  | slnil => exact Nat.le_refl _
  | cons a _ ih =>
      rw [tally_cons]
      omega
  | cons_cons a _ ih =>
      rw [tally_cons, tally_cons]
      omega

/-- An update in place. -/
theorem tally_map_le {f : α → α}
    (h : ∀ a ∈ rows, counts' (f a) = true → counts a = true ∧ size (f a) ≤ size a) :
    tally counts' size (rows.map f) ≤ tally counts size rows := by
  induction rows with
  | nil => exact Nat.le_refl _
  | cons a rest ih =>
      have hrest := ih fun b hb => h b (List.mem_cons_of_mem _ hb)
      rw [List.map_cons, tally_cons, tally_cons]
      by_cases hcounts : counts' (f a) = true
      · obtain ⟨hold, hsize⟩ := h a List.mem_cons_self hcounts
        rw [if_pos hcounts, if_pos hold]
        omega
      · rw [if_neg hcounts]
        omega

theorem tally_le_mul {n : Nat} (h : ∀ a ∈ rows, size a ≤ n) :
    tally counts size rows ≤ rows.length * n := by
  induction rows with
  | nil => exact Nat.zero_le _
  | cons a rest ih =>
      have hone := h a List.mem_cons_self
      have hrest := ih fun b hb => h b (List.mem_cons_of_mem _ hb)
      rw [tally_cons, List.length_cons, Nat.succ_mul]
      split
      · omega
      · omega

theorem tally_congr (h : ∀ a ∈ rows, counts a = counts' a) :
    tally counts size rows = tally counts' size rows := by
  unfold tally
  rw [List.filter_congr h]

end AgentsServer.Library

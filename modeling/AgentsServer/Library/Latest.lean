import Mathlib.Order.Basic

/-!
# The latest record of a sequence

A head keeps the newest of the numbered records offered to it. A record that
carries the number of the head and is not the head is a conflict. A head covers
a record when it is that record or a newer one.
-/

namespace AgentsServer.Library.Latest

variable {α : Type*} [DecidableEq α] {seq : α → Nat}

/-- How an offered record compares with the head. -/
inductive Verdict where
  | newer
  | same
  | older
  | conflict
  deriving DecidableEq

def compare (seq : α → Nat) (head : Option α) (value : α) : Verdict :=
  match head with
  | none => .newer
  | some old =>
      if seq value < seq old then .older
      else if seq value = seq old then
        if value = old then .same else .conflict
      else .newer

/-- The head is this record or a newer one. -/
def Covers (seq : α → Nat) (head : Option α) (value : α) : Prop :=
  ∃ h, head = some h ∧ (seq value < seq h ∨ value = h)

omit [DecidableEq α] in
theorem covers_self (value : α) : Covers seq (some value) value :=
  ⟨value, rfl, Or.inr rfl⟩

omit [DecidableEq α] in
theorem not_covers_none (value : α) : ¬ Covers seq none value := by
  rintro ⟨_, h, _⟩
  cases h

omit [DecidableEq α] in
theorem Covers.trans {head : Option α} {a b : α} (hb : Covers seq head b)
    (ha : Covers seq (some b) a) : Covers seq head a := by
  obtain ⟨h, rfl, hle⟩ := hb
  obtain ⟨_, hsome, hba⟩ := ha
  obtain rfl := Option.some.inj hsome
  refine ⟨h, rfl, ?_⟩
  rcases hba with hlt | rfl
  · rcases hle with hlt' | rfl
    · exact Or.inl (Nat.lt_trans hlt hlt')
    · exact Or.inl hlt
  · exact hle

/-- A newer record covers what the head covered. -/
theorem Covers.newer {head : Option α} {value a : α} (h : compare seq head value = .newer)
    (ha : Covers seq head a) : Covers seq (some value) a := by
  obtain ⟨old, rfl, hle⟩ := ha
  simp only [compare] at h
  split at h
  · cases h
  · next hge =>
      split at h
      · split at h <;> cases h
      · next hne =>
          have hlt : seq old < seq value := by omega
          refine ⟨value, rfl, Or.inl ?_⟩
          rcases hle with hl | rfl
          · exact Nat.lt_trans hl hlt
          · exact hlt

/-- A record that is neither newer nor a conflict is covered already. -/
theorem covers_of_compare {head : Option α} {value : α}
    (h : compare seq head value = .same ∨ compare seq head value = .older) :
    Covers seq head value := by
  cases head with
  | none => simp [compare] at h
  | some old =>
      simp only [compare] at h
      split at h
      · next hlt => exact ⟨old, rfl, Or.inl hlt⟩
      · split at h
        · split at h
          · next he => exact ⟨old, rfl, Or.inr he⟩
          · simp at h
        · simp at h

theorem compare_same {head : Option α} {value : α} (h : compare seq head value = .same) :
    head = some value := by
  cases head with
  | none => cases h
  | some old =>
      simp only [compare] at h
      split at h
      · cases h
      · split at h
        · split at h
          · next he => rw [he]
          · cases h
        · cases h

/-- A record at the number of the head that is not the head. -/
theorem compare_conflict {old value : α} (hs : seq value = seq old) (hne : value ≠ old) :
    compare seq (some old) value = .conflict := by
  simp [compare, hs, hne]

end AgentsServer.Library.Latest

import AgentsServer.Library.Json
import Mathlib.Algebra.Order.BigOperators.Group.List
import Mathlib.Algebra.Order.Group.Nat
import Mathlib.Tactic.Common

/-!
# The size of compact JSON text

The size of a value's text is the sum over its parts. Sorting the keys of its
objects does not change it.
-/

namespace AgentsServer.Library.Json

section Size

variable (esc : Char → List Char)

/-- The bytes of a value's text. -/
def size (value : Json) : Nat :=
  utf8Size (render esc value)

/-- The bytes of a field with the comma or brace before it. -/
def fieldSize (field : String × Json) : Nat :=
  2 + utf8Size (quote esc field.1) + size esc field.2

theorem size_renderItems (items : List Json) :
    utf8Size (renderItems esc items) = 1 + (items.map fun item => 1 + size esc item).sum := by
  induction items with
  | nil => rfl
  | cons item rest ih =>
      rw [renderItems, utf8Size_cons, utf8Size_append, ih, List.map_cons, List.sum_cons]
      change 1 + (size esc item + _) = _
      omega

theorem size_renderFields (fields : List (String × Json)) :
    utf8Size (renderFields esc fields) = 1 + (fields.map (fieldSize esc)).sum := by
  induction fields with
  | nil => rfl
  | cons field rest ih =>
      obtain ⟨key, value⟩ := field
      rw [renderFields, utf8Size_cons, utf8Size_append, utf8Size_cons, utf8Size_append, ih,
        List.map_cons, List.sum_cons, fieldSize]
      change 1 + (utf8Size (quote esc key) + (1 + (size esc value + _))) =
        _ + (2 + utf8Size (quote esc key) + size esc value + _)
      omega

theorem size_arr (items : List Json) :
    size esc (.arr items) =
      if items = [] then 2 else 1 + (items.map fun item => 1 + size esc item).sum := by
  cases items with
  | nil => rfl
  | cons item rest =>
      rw [if_neg (List.cons_ne_nil item rest), size, render, utf8Size_cons, utf8Size_append,
        size_renderItems, List.map_cons, List.sum_cons]
      change 1 + (size esc item + _) = _
      omega

theorem size_obj (fields : List (String × Json)) :
    size esc (.obj fields) = if fields = [] then 2 else 1 + (fields.map (fieldSize esc)).sum := by
  cases fields with
  | nil => rfl
  | cons field rest =>
      obtain ⟨key, value⟩ := field
      rw [if_neg (List.cons_ne_nil (key, value) rest), size, render, utf8Size_cons,
        utf8Size_append, utf8Size_cons, utf8Size_append, size_renderFields, List.map_cons,
        List.sum_cons, fieldSize]
      change 1 + (utf8Size (quote esc key) + (1 + (size esc value + _))) =
        _ + (2 + utf8Size (quote esc key) + size esc value + _)
      omega

/-! ### Parts of a value -/

/-- A field's value takes no more room than its object. -/
theorem size_le_obj {fields : List (String × Json)} {key : String} {value : Json}
    (hmem : (key, value) ∈ fields) : size esc value ≤ size esc (.obj fields) := by
  rw [size_obj, if_neg (List.ne_nil_of_mem hmem)]
  have hle : fieldSize esc (key, value) ≤ (fields.map (fieldSize esc)).sum :=
    List.le_sum_of_mem (List.mem_map_of_mem hmem)
  change 2 + utf8Size (quote esc key) + size esc value ≤ _ at hle
  omega

theorem size_le_arr {items : List Json} {item : Json} (hmem : item ∈ items) :
    size esc item ≤ size esc (.arr items) := by
  rw [size_arr, if_neg (List.ne_nil_of_mem hmem)]
  have hle : 1 + size esc item ≤ (items.map fun item => 1 + size esc item).sum :=
    List.le_sum_of_mem (List.mem_map_of_mem hmem)
  omega

/-- An array takes a byte for each item at least. -/
theorem length_le_size_arr (items : List Json) : items.length ≤ size esc (.arr items) := by
  rw [size_arr]
  split
  · next hnil =>
      rw [hnil]
      exact Nat.zero_le _
  · have hsum := List.length_le_sum_of_one_le
      (items.map fun item => 1 + size esc item) (by simp)
    rw [List.length_map] at hsum
    omega

mutual

/-- Sorted keys take as much room as unsorted ones. -/
theorem size_sortKeys (value : Json) : size esc (sortKeys value) = size esc value := by
  match value with
  | .null | .bool _ | .num _ | .str _ => rw [sortKeys] <;> simp
  | .arr items =>
      have hsizes := sizes_sortItems items
      have hnil : (sortItems items = []) = (items = []) := by
        cases items <;> simp [sortItems]
      rw [sortKeys, size_arr, size_arr, hsizes]
      simp only [hnil]
  | .obj fields =>
      have hsizes := sizes_sortFields fields
      rw [sortKeys, size_obj, size_obj]
      have hperm := List.mergeSort_perm (sortFields fields) fun a b => decide (a.1 ≤ b.1)
      have hsum := (hperm.map (fieldSize esc)).sum_eq
      have hnil : ((sortFields fields).mergeSort (fun a b => decide (a.1 ≤ b.1)) = []) =
          (fields = []) := by
        rw [eq_iff_iff, ← List.length_eq_zero_iff, List.length_mergeSort]
        cases fields <;> simp [sortFields]
      rw [hsum, hsizes]
      simp only [hnil]

theorem sizes_sortItems (items : List Json) :
    (sortItems items).map (fun item => 1 + size esc item) =
      items.map fun item => 1 + size esc item := by
  match items with
  | [] => rfl
  | item :: rest =>
      rw [sortItems, List.map_cons, List.map_cons, size_sortKeys item, sizes_sortItems rest]

theorem sizes_sortFields (fields : List (String × Json)) :
    (sortFields fields).map (fieldSize esc) = fields.map (fieldSize esc) := by
  match fields with
  | [] => rfl
  | (key, value) :: rest =>
      rw [sortFields, List.map_cons, List.map_cons, fieldSize, fieldSize, size_sortKeys value,
        sizes_sortFields rest]

end

end Size

/-- The bytes of `canonical_json`. -/
theorem utf8Size_canonical (value : Json) : utf8Size (canonical value) = size escape value :=
  size_sortKeys escape value

/-! ### Texts -/

section Texts

variable {c : Char} {s : String}

/-- A character that JSON text holds as it is. -/
def Simple (c : Char) : Prop :=
  32 ≤ c.toNat ∧ c.toNat < 127 ∧ c ≠ '"' ∧ c ≠ '\\'

instance (c : Char) : Decidable (Simple c) := inferInstanceAs (Decidable (_ ∧ _))

theorem simple_of_isAlphanum (h : c.isAlphanum = true) : Simple c := by
  unfold Char.isAlphanum Char.isAlpha Char.isUpper Char.isLower Char.isDigit at h
  simp only [Bool.or_eq_true, Bool.and_eq_true, decide_eq_true_eq] at h
  have range : 48 ≤ c.toNat ∧ c.toNat ≤ 57 ∨ 65 ≤ c.toNat ∧ c.toNat ≤ 90 ∨
      97 ≤ c.toNat ∧ c.toNat ≤ 122 := by
    rcases h with (⟨a, b⟩ | ⟨a, b⟩) | ⟨a, b⟩
    · exact Or.inr (Or.inl ⟨UInt32.le_iff_toNat_le.mp a, UInt32.le_iff_toNat_le.mp b⟩)
    · exact Or.inr (Or.inr ⟨UInt32.le_iff_toNat_le.mp a, UInt32.le_iff_toNat_le.mp b⟩)
    · exact Or.inl ⟨UInt32.le_iff_toNat_le.mp a, UInt32.le_iff_toNat_le.mp b⟩
  refine ⟨by omega, by omega, ?_, ?_⟩
  · rintro rfl
    revert range
    decide
  · rintro rfl
    revert range
    decide

theorem escape_simple (h : Simple c) : escape c = [c] := by
  obtain ⟨low, -, quote, slash⟩ := h
  have control : ∀ d : Char, d.toNat < 32 → c ≠ d := by
    rintro d hd rfl
    omega
  unfold escape
  rw [if_neg quote, if_neg slash, if_neg (control _ (by decide)), if_neg (control _ (by decide)),
    if_neg (control _ (by decide)), if_neg (control _ (by decide)),
    if_neg (control _ (by decide)), if_neg (by omega)]

theorem utf8Size_simple (h : c.toNat < 127) : c.utf8Size = 1 := by
  unfold Char.utf8Size
  have small : c.val ≤ 0x7F := by
    rw [UInt32.le_iff_toNat_le]
    exact Nat.le_of_lt_succ (Nat.lt_succ_of_lt h)
  exact if_pos small

theorem utf8Size_ascii {cs : List Char} (h : ∀ c ∈ cs, c.toNat < 127) :
    utf8Size cs = cs.length := by
  induction cs with
  | nil => rfl
  | cons c cs ih =>
      rw [List.forall_mem_cons] at h
      rw [utf8Size_cons, utf8Size_simple h.1, ih h.2, List.length_cons]
      omega

/-- The literal of a natural number takes its digits. -/
theorem size_ofNat (esc : Char → List Char) (n : Nat) :
    size esc (.num (.ofNat n)) = (Nat.toDigits 10 n).length := by
  apply utf8Size_ascii
  intro c hc
  have hdigit : c.isDigit = true := Nat.isDigit_of_mem_toDigits (by omega) (by omega) hc
  have hsimple : Simple c := simple_of_isAlphanum (by rw [Char.isAlphanum, hdigit, Bool.or_true])
  exact hsimple.2.1

theorem size_simple (h : ∀ c ∈ s.toList, Simple c) : size escape (.str s) = s.length + 2 := by
  have plain : ∀ cs : List Char, (∀ c ∈ cs, Simple c) → utf8Size (cs.flatMap escape) = cs.length := by
    intro cs
    induction cs with
    | nil => intro _; rfl
    | cons c cs ih =>
        intro hcs
        have simple := hcs c List.mem_cons_self
        rw [List.flatMap_cons, utf8Size_append, escape_simple simple, utf8Size_cons,
          utf8Size_simple simple.2.1, ih fun d hd => hcs d (List.mem_cons_of_mem c hd)]
        simp
        omega
  unfold size
  rw [render, quote, utf8Size_cons, utf8Size_append, plain _ h, String.length_toList]
  have mark : utf8Size ['"'] = 1 := by decide
  have first : '"'.utf8Size = 1 := by decide
  omega

theorem utf8Size_escape (c : Char) : utf8Size (escape c) ≤ 6 := by
  unfold escape
  repeat' split
  all_goals first
    | decide
    | skip
  · unfold unitEscape
    have digit : ∀ n : Nat, (hexDigit (n % 16)).utf8Size = 1 := by
      intro n
      have all : ∀ k < 16, (hexDigit k).utf8Size = 1 := by decide
      exact all _ (Nat.mod_lt n (by decide))
    simp only [utf8Size_cons, digit]
    decide
  · have four := Char.utf8Size_le_four c
    rw [utf8Size_cons]
    change c.utf8Size + 0 ≤ 6
    omega

theorem size_str_le (s : String) : size escape (.str s) ≤ 6 * s.length + 2 := by
  have each : ∀ cs : List Char, utf8Size (cs.flatMap escape) ≤ 6 * cs.length := by
    intro cs
    induction cs with
    | nil => exact Nat.le_refl 0
    | cons c cs ih =>
        have one := utf8Size_escape c
        rw [List.flatMap_cons, utf8Size_append, List.length_cons]
        omega
  have whole := each s.toList
  rw [String.length_toList] at whole
  unfold size
  rw [render, quote, utf8Size_cons, utf8Size_append]
  have mark : utf8Size ['"'] = 1 := by decide
  have first : '"'.utf8Size = 1 := by decide
  omega

end Texts

end AgentsServer.Library.Json

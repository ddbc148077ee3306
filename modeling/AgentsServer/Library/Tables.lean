import Mathlib.Data.List.Nodup
import Mathlib.Data.List.Basic

/-!
# Tables with a unique key

A table is a list of rows. A key is unique when no two rows have the same one.
These are the rules for looking a row up by its key, for updates that keep the
key, for inserts and for deletions.
-/

namespace AgentsServer.Library.Tables

variable {α κ : Type*} [DecidableEq κ] {key : α → κ} {rows : List α}

/-- The row with a key. -/
def find (key : α → κ) (rows : List α) (k : κ) : Option α :=
  rows.find? fun row => key row = k

theorem find_mem {k : κ} {row : α} (h : find key rows k = some row) :
    row ∈ rows ∧ key row = k := by
  unfold find at h
  exact ⟨List.mem_of_find?_eq_some h, by simpa using List.find?_some h⟩

theorem find_eq_none {k : κ} : find key rows k = none ↔ ∀ row ∈ rows, key row ≠ k := by
  simp [find]

/-- Under a unique key every row is found by its key. -/
theorem find_of_mem (unique : (rows.map key).Nodup) {row : α} (h : row ∈ rows) :
    find key rows (key row) = some row := by
  induction rows with
  | nil => simp at h
  | cons head rest ih =>
      simp only [List.map_cons, List.nodup_cons] at unique
      rcases List.mem_cons.mp h with rfl | hr
      · simp [find]
      · have hne : key head ≠ key row := by
          intro he
          apply unique.1
          rw [he]
          exact List.mem_map_of_mem hr
        simpa [find, hne] using ih unique.2 hr

theorem find_eq_some (unique : (rows.map key).Nodup) {k : κ} {row : α} :
    find key rows k = some row ↔ row ∈ rows ∧ key row = k := by
  constructor
  · exact find_mem
  · rintro ⟨h, rfl⟩
    exact find_of_mem unique h

/-- Two rows with one key are the same row. -/
theorem eq_of_key (unique : (rows.map key).Nodup) {a b : α} (ha : a ∈ rows) (hb : b ∈ rows)
    (h : key a = key b) : a = b := by
  have hf := find_of_mem unique ha
  rw [h, find_of_mem unique hb] at hf
  exact (Option.some.inj hf).symm

omit [DecidableEq κ] in
/-- A search finds the only row that meets its condition. -/
theorem find?_of_only {p : α → Bool} {row : α} (h : row ∈ rows) (hp : p row = true)
    (only : ∀ other ∈ rows, p other = true → other = row) : rows.find? p = some row := by
  cases hf : rows.find? p with
  | none => exact absurd hp (by simpa using List.find?_eq_none.mp hf row h)
  | some other => rw [only other (List.mem_of_find?_eq_some hf) (List.find?_some hf)]

/-- An update that keeps the key commutes with the lookup. -/
theorem find_map {f : α → α} (keep : ∀ row, key (f row) = key row) (k : κ) :
    find key (rows.map f) k = (find key rows k).map f := by
  simp only [find, List.find?_map, Function.comp_def, keep]

omit [DecidableEq κ] in
theorem map_keys {f : α → α} (keep : ∀ row, key (f row) = key row) :
    (rows.map f).map key = rows.map key := by
  simp [Function.comp_def, keep]

/-- An update that keeps the keys keeps them distinct. -/
theorem nodup_map {f : α → α} (unique : (rows.map key).Nodup) (keep : ∀ row, key (f row) = key row) :
    ((rows.map f).map key).Nodup := by
  rw [map_keys keep]
  exact unique

theorem find_append {k : κ} (more : List α) :
    find key (rows ++ more) k = (find key rows k).or (find key more k) := by
  simp [find, List.find?_append]

omit [DecidableEq κ] in
theorem nodup_append_row {row : α} (unique : (rows.map key).Nodup)
    (fresh : ∀ old ∈ rows, key old ≠ key row) : ((rows ++ [row]).map key).Nodup := by
  rw [List.map_append, List.nodup_append]
  refine ⟨unique, by simp, ?_⟩
  intro k hk k' hk' he
  obtain ⟨old, ho, rfl⟩ := List.mem_map.mp hk
  simp only [List.map_cons, List.map_nil, List.mem_singleton] at hk'
  exact fresh old ho (he.trans hk')

omit [DecidableEq κ] in
theorem nodup_filter (unique : (rows.map key).Nodup) (p : α → Bool) :
    ((rows.filter p).map key).Nodup :=
  unique.sublist ((List.filter_sublist).map key)

/-- At most one row has a given key. -/
theorem countP_key_le_one (unique : (rows.map key).Nodup) (k : κ) (p : α → Bool) :
    rows.countP (fun row => decide (key row = k) && p row) ≤ 1 := by
  induction rows with
  | nil => simp
  | cons head rest ih =>
      simp only [List.map_cons, List.nodup_cons] at unique
      rw [List.countP_cons]
      by_cases hk : key head = k
      · have hrest : rest.countP (fun row => decide (key row = k) && p row) = 0 := by
          rw [List.countP_eq_zero]
          intro row hrow hand
          simp only [Bool.and_eq_true, decide_eq_true_eq] at hand
          apply unique.1
          rw [hk, ← hand.1]
          exact List.mem_map_of_mem hrow
        rw [hrest]
        split <;> omega
      · simpa [hk] using ih unique.2

/-- A count of one key's rows that is not zero is one. -/
theorem countP_key_eq_one (unique : (rows.map key).Nodup) {p : α → Bool} {row : α}
    (h : row ∈ rows) (hp : p row = true) (only : ∀ old ∈ rows, p old = true → key old = key row) :
    rows.countP p = 1 := by
  have hle : rows.countP p ≤ 1 := by
    have hc := countP_key_le_one unique (key row) p
    have he : rows.countP p = rows.countP fun old => decide (key old = key row) && p old := by
      apply List.countP_congr
      intro old ho
      constructor
      · intro hpo
        simp [only old ho hpo, hpo]
      · intro hand
        simp only [Bool.and_eq_true] at hand
        exact hand.2
    omega
  have hpos : 0 < rows.countP p := List.countP_pos_iff.mpr ⟨row, h, hp⟩
  omega

/-! ## Updates under constraints -/

/-- `UPDATE` of the selected rows. It fails as a whole when one change is not allowed. -/
def updateRows (selected : α → Bool) (set : α → α) (allowed : α → α → Bool) (rows : List α) :
    Option (List α) :=
  if rows.all fun row => !selected row || allowed row (set row) then
    some (rows.map fun row => if selected row then set row else row)
  else none

omit [DecidableEq κ] in
theorem updateRows_eq_some {selected : α → Bool} {set : α → α} {allowed : α → α → Bool}
    {rows' : List α} : updateRows selected set allowed rows = some rows' ↔
      (∀ row ∈ rows, selected row = true → allowed row (set row) = true) ∧
        rows' = rows.map fun row => if selected row then set row else row := by
  unfold updateRows
  split
  next hall =>
    simp only [List.all_eq_true, Bool.or_eq_true, Bool.not_eq_true'] at hall
    constructor
    · intro h
      refine ⟨?_, (Option.some.inj h).symm⟩
      intro row hrow hselected
      rcases hall row hrow with hnot | hallowed
      · rw [hselected] at hnot
        cases hnot
      · exact hallowed
    · rintro ⟨-, rfl⟩
      rfl
  next hall =>
    constructor
    · intro h
      cases h
    · rintro ⟨hallowed, -⟩
      apply absurd _ hall
      rw [List.all_eq_true]
      intro row hrow
      cases hselected : selected row with
      | false => rfl
      | true => rw [hallowed row hrow hselected]; rfl

/-- `INSERT` of one row under a unique key. -/
def insertRow (key : α → κ) (allowed : α → Bool) (row : α) (rows : List α) :
    Option (List α) :=
  if allowed row && rows.all fun old => decide (key old ≠ key row) then some (rows ++ [row])
  else none

theorem insertRow_eq_some {allowed : α → Bool} {row : α} {rows' : List α} :
    insertRow key allowed row rows = some rows' ↔
      (allowed row = true ∧ ∀ old ∈ rows, key old ≠ key row) ∧ rows' = rows ++ [row] := by
  unfold insertRow
  split
  next h =>
    simp only [Bool.and_eq_true, List.all_eq_true, decide_eq_true_eq] at h
    constructor
    · intro heq
      exact ⟨h, (Option.some.inj heq).symm⟩
    · rintro ⟨-, rfl⟩
      rfl
  next h =>
    constructor
    · intro heq
      cases heq
    · rintro ⟨hok, -⟩
      apply absurd _ h
      simpa [Bool.and_eq_true, List.all_eq_true] using hok

/-! ## Association lists -/

/-- A pair of a list that has every key once is what its key looks up. -/
theorem lookup_of_mem {β : Type*} {pairs : List (κ × β)} (once : (pairs.map Prod.fst).Nodup)
    {k : κ} {b : β} (h : (k, b) ∈ pairs) : pairs.lookup k = some b := by
  induction pairs with
  | nil => cases h
  | cons pair pairs ih =>
      rw [List.map_cons, List.nodup_cons] at once
      rcases List.mem_cons.mp h with heq | hrest
      · subst heq
        exact List.lookup_cons_self
      · have hne : k ≠ pair.1 := by
          intro heq
          exact once.1 (heq ▸ List.mem_map_of_mem (f := Prod.fst) hrest)
        rw [List.lookup_cons, beq_false_of_ne hne]
        exact ih once.2 hrest

theorem mem_of_lookup {β : Type*} {pairs : List (κ × β)} {k : κ} {b : β}
    (h : pairs.lookup k = some b) : (k, b) ∈ pairs := by
  obtain ⟨front, back, heq, _⟩ := List.lookup_eq_some_iff.mp h
  rw [heq]
  exact List.mem_append_right front List.mem_cons_self

end AgentsServer.Library.Tables

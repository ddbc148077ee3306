import AgentsServer.Library.Json
import Mathlib.Tactic.Common

/-!
# Compact JSON text is unambiguous

The compact text of a value, followed by nothing or by a delimiter, determines
the value and the rest of the text.
-/

namespace AgentsServer.Library.Json

/-! ## Strings -/

def hexValue (c : Char) : Nat :=
  if c.isDigit then c.toNat - 48 else c.toNat - 87

theorem hexValue_hexDigit : ∀ n < 16, hexValue (hexDigit n) = n := by decide

/-- The character an escaped text starts with, and the rest of the text. -/
def unescape : List Char → Option (Char × List Char)
  | '\\' :: '"' :: rest => some ('"', rest)
  | '\\' :: '\\' :: rest => some ('\\', rest)
  | '\\' :: 'n' :: rest => some ('\n', rest)
  | '\\' :: 'r' :: rest => some ('\r', rest)
  | '\\' :: 't' :: rest => some ('\t', rest)
  | '\\' :: 'b' :: rest => some (Char.ofNat 8, rest)
  | '\\' :: 'f' :: rest => some (Char.ofNat 12, rest)
  | '\\' :: 'u' :: _ :: _ :: high :: low :: rest =>
      some (Char.ofNat (16 * hexValue high + hexValue low), rest)
  | c :: rest => some (c, rest)
  | [] => none

theorem unescape_unit {n : Nat} (h : n < 32) (rest : List Char) :
    unescape (unitEscape n ++ rest) = some (Char.ofNat n, rest) := by
  have hhigh := hexValue_hexDigit (n / 16 % 16) (by omega)
  have hlow := hexValue_hexDigit (n % 16) (by omega)
  have hn : 16 * (n / 16 % 16) + n % 16 = n := by omega
  simp only [unitEscape, List.cons_append, List.nil_append, unescape, hhigh, hlow, hn]

theorem unescape_escape (c : Char) (rest : List Char) :
    unescape (escape c ++ rest) = some (c, rest) := by
  unfold escape
  split
  · next h => subst h; rfl
  split
  · next h => subst h; rfl
  split
  · next h => subst h; rfl
  split
  · next h => subst h; rfl
  split
  · next h => subst h; rfl
  split
  · next h => subst h; rfl
  split
  · next h => subst h; rfl
  split
  · next h => rw [unescape_unit h, Char.ofNat_toNat]
  · next hslash _ _ _ _ _ _ =>
      rw [List.cons_append, List.nil_append]
      unfold unescape
      split <;> simp_all

theorem escape_inj {c d : Char} {rest rest' : List Char}
    (h : escape c ++ rest = escape d ++ rest') : c = d ∧ rest = rest' := by
  have hc := unescape_escape c rest
  rw [h, unescape_escape, Option.some.injEq, Prod.mk.injEq] at hc
  exact ⟨hc.1.symm, hc.2.symm⟩

/-- No escaped character starts with a quote. -/
theorem escape_ne_quote (c : Char) (rest rest' : List Char) :
    escape c ++ rest ≠ '"' :: rest' := by
  unfold escape
  intro h
  repeat' split at h
  all_goals simp_all [unitEscape]

theorem chars_inj {cs ds rest rest' : List Char}
    (h : cs.flatMap escape ++ '"' :: rest = ds.flatMap escape ++ '"' :: rest') :
    cs = ds ∧ rest = rest' := by
  induction cs generalizing ds with
  | nil =>
      cases ds with
      | nil => exact ⟨rfl, (List.cons.inj h).2⟩
      | cons d ds =>
          rw [List.flatMap_nil, List.nil_append, List.flatMap_cons, List.append_assoc] at h
          exact absurd h.symm (escape_ne_quote d _ _)
  | cons c cs ih =>
      cases ds with
      | nil =>
          rw [List.flatMap_nil, List.nil_append, List.flatMap_cons, List.append_assoc] at h
          exact absurd h (escape_ne_quote c _ _)
      | cons d ds =>
          rw [List.flatMap_cons, List.flatMap_cons, List.append_assoc, List.append_assoc] at h
          obtain ⟨rfl, htail⟩ := escape_inj h
          obtain ⟨rfl, hrest⟩ := ih htail
          exact ⟨rfl, hrest⟩

theorem quote_inj {s t : String} {rest rest' : List Char}
    (h : quote escape s ++ rest = quote escape t ++ rest') : s = t ∧ rest = rest' := by
  simp only [quote, List.cons_append, List.append_assoc, List.nil_append, List.cons.injEq,
    true_and] at h
  obtain ⟨hchars, hrest⟩ := chars_inj h
  exact ⟨String.toList_injective hchars, hrest⟩

/-! ## Numbers -/

/-- A text that does not go on with a character of a number. -/
def Delimited (rest : List Char) : Prop :=
  ∀ c cs, rest = c :: cs → isNumeral c = false

theorem takeWhile_digits (literal : NumLit) {rest : List Char} (h : Delimited rest) :
    (literal.digits ++ rest).takeWhile isNumeral = literal.digits := by
  rw [List.takeWhile_append_of_pos literal.numeral]
  cases rest with
  | nil => simp
  | cons c cs => rw [List.takeWhile_cons_of_neg (by simp [h c cs rfl]), List.append_nil]

theorem digits_inj {a b : NumLit} {rest rest' : List Char} (h : Delimited rest)
    (h' : Delimited rest') (heq : a.digits ++ rest = b.digits ++ rest') :
    a = b ∧ rest = rest' := by
  have hdigits : a.digits = b.digits := by
    rw [← takeWhile_digits a h, heq, takeWhile_digits b h']
  constructor
  · cases a
    cases b
    cases hdigits
    rfl
  · rw [hdigits] at heq
    exact List.append_cancel_left heq

/-! ## Values -/

/-- The kind of value a text starts with. -/
inductive Lead where
  | null
  | isTrue
  | isFalse
  | num
  | str
  | arr
  | obj
  deriving DecidableEq

def lead : Json → Lead
  | .null => .null
  | .bool true => .isTrue
  | .bool false => .isFalse
  | .num _ => .num
  | .str _ => .str
  | .arr _ => .arr
  | .obj _ => .obj

def leadOf (c : Char) : Lead :=
  if c = 'n' then .null
  else if c = 't' then .isTrue
  else if c = 'f' then .isFalse
  else if c = '"' then .str
  else if c = '[' then .arr
  else if c = '{' then .obj
  else .num

/-- The first character tells the kind of a value. -/
theorem render_lead {esc : Char → List Char} (value : Json) :
    ∃ c cs, render esc value = c :: cs ∧ leadOf c = value.lead := by
  cases value with
  | null => exact ⟨_, _, rfl, rfl⟩
  | bool value => cases value <;> exact ⟨_, _, rfl, rfl⟩
  | str text => exact ⟨_, _, rfl, rfl⟩
  | arr items => cases items <;> exact ⟨_, _, rfl, rfl⟩
  | obj fields => cases fields <;> exact ⟨_, _, rfl, rfl⟩
  | num literal =>
      cases hd : literal.digits with
      | nil => exact absurd hd literal.nonempty
      | cons c cs =>
          refine ⟨c, cs, hd, ?_⟩
          have hc := literal.numeral c (by rw [hd]; exact List.mem_cons_self)
          have avoid : ∀ d, isNumeral d = false → c ≠ d := by
            rintro d hd' rfl
            rw [hc] at hd'
            cases hd'
          rw [leadOf, if_neg (avoid 'n' rfl), if_neg (avoid 't' rfl), if_neg (avoid 'f' rfl),
            if_neg (avoid '"' rfl), if_neg (avoid '[' rfl), if_neg (avoid '{' rfl), lead]

theorem same_lead {a b : Json} {rest rest' : List Char}
    (h : render escape a ++ rest = render escape b ++ rest') : a.lead = b.lead := by
  obtain ⟨c, cs, ha, hc⟩ := render_lead a
  obtain ⟨d, ds, hb, hd⟩ := render_lead b
  rw [ha, hb, List.cons_append, List.cons_append, List.cons.injEq] at h
  rw [← hc, ← hd, h.1]

/-- No value starts with a closing bracket. -/
theorem render_ne_close {esc : Char → List Char} (value : Json) (rest rest' : List Char) :
    render esc value ++ rest ≠ ']' :: rest' := by
  intro h
  cases value with
  | null => cases h
  | bool value => cases value <;> cases h
  | str text => cases h
  | arr items => cases items <;> cases h
  | obj fields => cases fields <;> cases h
  | num literal =>
      cases hd : literal.digits with
      | nil => exact literal.nonempty hd
      | cons c cs =>
          have hc := literal.numeral c (by rw [hd]; exact List.mem_cons_self)
          simp only [render, hd, List.cons_append, List.cons.injEq] at h
          rw [h.1] at hc
          cases hc

theorem delimited_cons {c : Char} {rest : List Char} (h : isNumeral c = false) :
    Delimited (c :: rest) := by
  intro d cs he
  cases he
  exact h

/-- What follows an item or a field starts with a comma or a bracket. -/
theorem delimited_items (items : List Json) (rest : List Char) :
    Delimited (renderItems escape items ++ rest) := by
  cases items <;> exact delimited_cons rfl

theorem delimited_fields (fields : List (String × Json)) (rest : List Char) :
    Delimited (renderFields escape fields ++ rest) := by
  cases fields <;> exact delimited_cons rfl

mutual

theorem render_inj (a b : Json) {rest rest' : List Char} (h : Delimited rest)
    (h' : Delimited rest') (heq : render escape a ++ rest = render escape b ++ rest') :
    a = b ∧ rest = rest' := by
  have hlead := same_lead heq
  match a, b with
  | .null, .null => exact ⟨rfl, List.append_cancel_left heq⟩
  | .bool true, .bool true => exact ⟨rfl, List.append_cancel_left heq⟩
  | .bool false, .bool false => exact ⟨rfl, List.append_cancel_left heq⟩
  | .num m, .num n =>
      obtain ⟨rfl, hrest⟩ := digits_inj h h' heq
      exact ⟨rfl, hrest⟩
  | .str s, .str t =>
      obtain ⟨rfl, hrest⟩ := quote_inj heq
      exact ⟨rfl, hrest⟩
  | .arr [], .arr [] => exact ⟨rfl, List.append_cancel_left heq⟩
  | .arr (x :: xs), .arr (y :: ys) =>
      simp only [render, List.cons_append, List.append_assoc, List.cons.injEq, true_and] at heq
      obtain ⟨rfl, htail⟩ := render_inj x y (delimited_items xs _) (delimited_items ys _) heq
      obtain ⟨rfl, hrest⟩ := items_inj xs ys htail
      exact ⟨rfl, hrest⟩
  | .obj [], .obj [] => exact ⟨rfl, List.append_cancel_left heq⟩
  | .obj ((k, x) :: xs), .obj ((k', y) :: ys) =>
      simp only [render, List.cons_append, List.append_assoc, List.cons.injEq, true_and] at heq
      obtain ⟨rfl, hvalue⟩ := quote_inj heq
      rw [List.cons.injEq] at hvalue
      obtain ⟨rfl, htail⟩ := render_inj x y (delimited_fields xs _) (delimited_fields ys _)
        hvalue.2
      obtain ⟨rfl, hrest⟩ := fields_inj xs ys htail
      exact ⟨rfl, hrest⟩
  | .arr [], .arr (y :: ys) =>
      simp only [render, List.cons_append, List.append_assoc, List.cons.injEq, true_and] at heq
      exact absurd heq.symm (render_ne_close y _ _)
  | .arr (x :: xs), .arr [] =>
      simp only [render, List.cons_append, List.append_assoc, List.cons.injEq, true_and] at heq
      exact absurd heq (render_ne_close x _ _)
  | .obj [], .obj ((k, y) :: ys) => simp [render, quote] at heq
  | .obj ((k, x) :: xs), .obj [] => simp [render, quote] at heq

theorem items_inj (xs ys : List Json) {rest rest' : List Char}
    (heq : renderItems escape xs ++ rest = renderItems escape ys ++ rest') :
    xs = ys ∧ rest = rest' := by
  match xs, ys with
  | [], [] => exact ⟨rfl, List.append_cancel_left heq⟩
  | [], y :: ys => simp [renderItems] at heq
  | x :: xs, [] => simp [renderItems] at heq
  | x :: xs, y :: ys =>
      simp only [renderItems, List.cons_append, List.append_assoc, List.cons.injEq, true_and]
        at heq
      obtain ⟨rfl, htail⟩ := render_inj x y (delimited_items xs _) (delimited_items ys _) heq
      obtain ⟨rfl, hrest⟩ := items_inj xs ys htail
      exact ⟨rfl, hrest⟩

theorem fields_inj (xs ys : List (String × Json)) {rest rest' : List Char}
    (heq : renderFields escape xs ++ rest = renderFields escape ys ++ rest') :
    xs = ys ∧ rest = rest' := by
  match xs, ys with
  | [], [] => exact ⟨rfl, List.append_cancel_left heq⟩
  | [], y :: ys => simp [renderFields] at heq
  | x :: xs, [] => simp [renderFields] at heq
  | (k, x) :: xs, (k', y) :: ys =>
      simp only [renderFields, List.cons_append, List.append_assoc, List.cons.injEq, true_and]
        at heq
      obtain ⟨rfl, hvalue⟩ := quote_inj heq
      rw [List.cons.injEq] at hvalue
      obtain ⟨rfl, htail⟩ := render_inj x y (delimited_fields xs _) (delimited_fields ys _)
        hvalue.2
      obtain ⟨rfl, hrest⟩ := fields_inj xs ys htail
      exact ⟨rfl, hrest⟩

end

end AgentsServer.Library.Json

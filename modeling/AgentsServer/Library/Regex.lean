import Mathlib.Data.List.Basic
import Mathlib.Data.List.TakeWhile
import Mathlib.Tactic.Common

/-!
# Regular expressions that backtrack

A pattern gives the places where its match may end, in the order in which a backtracking engine
tries them. The first one is its match. A text is scanned from left to right for the first of
several patterns, and goes on behind each match.
-/

namespace AgentsServer.Library

/-- A place in a text: what is before it, last character first, and what is left. -/
structure Place where
  before : List Char
  rest : List Char

inductive Regex where
  | empty
  | one (p : Char → Bool)
  /-- a greedy repetition of one class -/
  | many (p : Char → Bool) (least : Nat) (most : Option Nat)
  | seq (a b : Regex)
  | alt (a b : Regex)
  /-- `(?<![...])` -/
  | notAfter (p : Char → Bool)
  /-- `(?![...])` -/
  | notBefore (p : Char → Bool)

/-- `(?:...)?` -/
def Regex.optional (r : Regex) : Regex :=
  .alt r .empty

def Place.advance (x : Place) (n : Nat) : Place where
  before := (x.rest.take n).reverse ++ x.before
  rest := x.rest.drop n

namespace Regex

/-- The places where a match that starts at a place may end. -/
def ends : Regex → Place → List Place
  | .empty, x => [x]
  | .one p, x =>
      match x.rest with
      | c :: rest => if p c then [⟨c :: x.before, rest⟩] else []
      | [] => []
  | .many p least most, x =>
      let run := (x.rest.takeWhile p).length
      let longest := most.elim run (min run)
      ((List.range (longest + 1)).reverse.filter fun n => least ≤ n).map x.advance
  | .seq a b, x => (a.ends x).flatMap b.ends
  | .alt a b, x => a.ends x ++ b.ends x
  | .notAfter p, x => if x.before.head?.any p then [] else [x]
  | .notBefore p, x => if x.rest.head?.any p then [] else [x]

def «match» (r : Regex) (x : Place) : Option Place :=
  (r.ends x).head?

end Regex

/-- The text between two places. -/
structure Place.Moves (x : Place) (s : List Char) (y : Place) : Prop where
  rest : x.rest = s ++ y.rest
  before : y.before = s.reverse ++ x.before

namespace Place.Moves

variable {x y z : Place} {s t : List Char}

theorem refl (x : Place) : x.Moves [] x := ⟨rfl, rfl⟩

theorem trans (h : x.Moves s y) (h' : y.Moves t z) : x.Moves (s ++ t) z where
  rest := by rw [h.rest, h'.rest, List.append_assoc]
  before := by rw [h'.before, h.before, List.reverse_append, List.append_assoc]

theorem one {c : Char} {rest : List Char} (h : x.rest = c :: rest) :
    x.Moves [c] ⟨c :: x.before, rest⟩ := ⟨h, rfl⟩

theorem advance (x : Place) (n : Nat) : x.Moves (x.rest.take n) (x.advance n) :=
  ⟨(List.take_append_drop n x.rest).symm, rfl⟩

theorem eq_advance (h : x.Moves s y) : y = x.advance s.length := by
  obtain ⟨before, rest⟩ := y
  have hrest := h.rest
  have hbefore := h.before
  dsimp only at hrest hbefore
  unfold Place.advance
  rw [hrest, List.take_left, List.drop_left, hbefore]

/-- The text of a move and its start give its end. -/
theorem unique (h : x.Moves s y) (h' : x.Moves s z) : y = z := by
  rw [h.eq_advance, h'.eq_advance]

theorem length (h : x.Moves s y) : y.rest.length + s.length = x.rest.length := by
  rw [h.rest, List.length_append, Nat.add_comm]

end Place.Moves

namespace Regex

variable {p : Char → Bool} {x y : Place}

/-! ## What the patterns match -/

theorem mem_empty : y ∈ empty.ends x ↔ y = x := List.mem_singleton

theorem mem_one : y ∈ (one p).ends x ↔ ∃ c, p c = true ∧ x.Moves [c] y := by
  change (y ∈ match x.rest with
    | c :: rest => if p c then [Place.mk (c :: x.before) rest] else []
    | [] => []) ↔ _
  split
  · next c rest hrest =>
      constructor
      · intro hy
        split at hy
        · next hc =>
            rw [List.mem_singleton.mp hy]
            exact ⟨c, hc, .one hrest⟩
        · cases hy
      · rintro ⟨d, hd, hmoves⟩
        have hsame := hmoves.rest
        rw [hrest] at hsame
        cases hsame
        rw [if_pos hd, hmoves.unique (.one hrest)]
        exact List.mem_singleton_self _
  · next hrest =>
      constructor
      · intro hy
        cases hy
      · rintro ⟨d, -, hmoves⟩
        have hsame := hmoves.rest
        rw [hrest] at hsame
        cases hsame

theorem mem_many {least : Nat} {most : Option Nat} : y ∈ (many p least most).ends x ↔
    ∃ s, (∀ c ∈ s, p c = true) ∧ least ≤ s.length ∧ (∀ n ∈ most, s.length ≤ n) ∧
      x.Moves s y := by
  change (y ∈ ((List.range (most.elim (x.rest.takeWhile p).length
    (min (x.rest.takeWhile p).length) + 1)).reverse.filter fun n => least ≤ n).map x.advance) ↔ _
  simp only [List.mem_map, List.mem_filter, List.mem_reverse, List.mem_range, decide_eq_true_eq]
  have hlongest : ∀ n, n < most.elim (x.rest.takeWhile p).length
      (min (x.rest.takeWhile p).length) + 1 ↔
      n ≤ (x.rest.takeWhile p).length ∧ ∀ m ∈ most, n ≤ m := by
    intro n
    cases most with
    | none =>
        simp [Nat.lt_succ_iff]
    | some m =>
        simp [Nat.lt_succ_iff, Nat.le_min]
  constructor
  · rintro ⟨n, ⟨hn, hleast⟩, rfl⟩
    obtain ⟨hrun, hmost⟩ := (hlongest n).mp hn
    have hbegins : x.rest.take n <+: x.rest.takeWhile p := by
      rw [List.prefix_iff_eq_take]
      have hle := Nat.le_trans hrun (List.takeWhile_prefix p).length_le
      rw [List.length_take, Nat.min_eq_left hle,
        List.prefix_iff_eq_take.mp (List.takeWhile_prefix p), List.take_take,
        Nat.min_eq_left hrun]
    have hlength : (x.rest.take n).length = n := by
      rw [List.length_take]
      exact Nat.min_eq_left (Nat.le_trans hrun (List.takeWhile_prefix p).length_le)
    refine ⟨x.rest.take n, ?_, ?_, ?_, .advance x n⟩
    · intro c hc
      exact List.mem_takeWhile_imp (hbegins.subset hc)
    · rw [hlength]
      exact hleast
    · intro m hm
      rw [hlength]
      exact hmost m hm
  · rintro ⟨s, hs, hleast, hmost, hmoves⟩
    refine ⟨s.length, ⟨(hlongest _).mpr ⟨?_, hmost⟩, hleast⟩, hmoves.eq_advance.symm⟩
    rw [hmoves.rest, List.takeWhile_append_of_pos hs, List.length_append]
    exact Nat.le_add_right _ _

theorem mem_seq {a b : Regex} : y ∈ (seq a b).ends x ↔ ∃ z ∈ a.ends x, y ∈ b.ends z := by
  change y ∈ (a.ends x).flatMap b.ends ↔ _
  exact List.mem_flatMap

theorem mem_alt {a b : Regex} : y ∈ (alt a b).ends x ↔ y ∈ a.ends x ∨ y ∈ b.ends x := by
  change y ∈ a.ends x ++ b.ends x ↔ _
  exact List.mem_append

theorem mem_notAfter :
    y ∈ (notAfter p).ends x ↔ y = x ∧ ∀ c, x.before.head? = some c → p c = false := by
  change (y ∈ if x.before.head?.any p then [] else [x]) ↔ _
  cases x.before.head? with
  | none => simp
  | some c => cases hp : p c <;> simp [hp]

theorem mem_notBefore :
    y ∈ (notBefore p).ends x ↔ y = x ∧ ∀ c, x.rest.head? = some c → p c = false := by
  change (y ∈ if x.rest.head?.any p then [] else [x]) ↔ _
  cases x.rest.head? with
  | none => simp
  | some c => cases hp : p c <;> simp [hp]

/-- A match covers a part of the text. -/
theorem ends_moves {r : Regex} (h : y ∈ r.ends x) : ∃ s, x.Moves s y := by
  induction r generalizing x y with
  | empty => exact ⟨[], mem_empty.mp h ▸ .refl x⟩
  | one p =>
      obtain ⟨c, -, hmoves⟩ := mem_one.mp h
      exact ⟨[c], hmoves⟩
  | many p least most =>
      obtain ⟨s, -, -, -, hmoves⟩ := mem_many.mp h
      exact ⟨s, hmoves⟩
  | seq a b iha ihb =>
      obtain ⟨z, hz, hy⟩ := mem_seq.mp h
      obtain ⟨s, hs⟩ := iha hz
      obtain ⟨t, ht⟩ := ihb hy
      exact ⟨s ++ t, hs.trans ht⟩
  | alt a b iha ihb =>
      cases mem_alt.mp h with
      | inl h => exact iha h
      | inr h => exact ihb h
  | notAfter p => exact ⟨[], (mem_notAfter.mp h).1 ▸ .refl x⟩
  | notBefore p => exact ⟨[], (mem_notBefore.mp h).1 ▸ .refl x⟩

theorem match_eq_none {r : Regex} : r.match x = none ↔ ∀ y, y ∉ r.ends x := by
  unfold «match»
  rw [List.head?_eq_none_iff, List.eq_nil_iff_forall_not_mem]

theorem match_moves {r : Regex} (h : r.match x = some y) : ∃ s, x.Moves s y :=
  ends_moves (List.mem_of_head? h)

/-- The match of a pattern goes to the end of the text. -/
def ToEnd (r : Regex) : Prop :=
  ∀ x y, r.match x = some y → y.rest = []

theorem toEnd_many {p : Char → Bool} (hp : ∀ c, p c = true) : (many p 0 none).ToEnd := by
  intro x y h
  change (((List.range ((x.rest.takeWhile p).length + 1)).reverse.filter fun n => 0 ≤ n).map
    x.advance).head? = some y at h
  have hrun : x.rest.takeWhile p = x.rest := List.takeWhile_eq_self_iff.mpr fun c _ => hp c
  simp only [hrun, Nat.zero_le, decide_true, List.filter_true,
    List.head?_map, List.head?_reverse, List.getLast?_range, Nat.add_eq_zero_iff,
    Nat.one_ne_zero, and_false, if_false, Nat.add_sub_cancel, Option.map_some,
    Option.some.injEq] at h
  rw [← h]
  exact List.drop_length

theorem ToEnd.seq {a b : Regex} (hb : b.ToEnd) : (seq a b).ToEnd := by
  intro x y h
  change ((a.ends x).flatMap b.ends).head? = some y at h
  generalize a.ends x = places at h
  induction places with
  | nil => cases h
  | cons z places ih =>
      rw [List.flatMap_cons, List.head?_append] at h
      cases hz : (b.ends z).head? with
      | none =>
          rw [hz, Option.none_or] at h
          exact ih h
      | some w =>
          rw [hz, Option.some_or] at h
          cases h
          exact hb z _ hz

/-- Every match holds a character of a kind. -/
def Holds (q : Char → Prop) (r : Regex) : Prop :=
  ∀ x y, y ∈ r.ends x → ∃ s, x.Moves s y ∧ ∃ c ∈ s, q c

theorem holds_one {q : Char → Prop} {p : Char → Bool} (hp : ∀ c, p c = true → q c) :
    (one p).Holds q := by
  intro x y h
  obtain ⟨c, hc, hmoves⟩ := mem_one.mp h
  exact ⟨[c], hmoves, c, List.mem_singleton_self c, hp c hc⟩

theorem Holds.left {q : Char → Prop} {a b : Regex} (ha : a.Holds q) : (seq a b).Holds q := by
  intro x y h
  obtain ⟨z, hz, hy⟩ := mem_seq.mp h
  obtain ⟨s, hs, c, hc, hq⟩ := ha x z hz
  obtain ⟨t, ht⟩ := ends_moves hy
  exact ⟨s ++ t, hs.trans ht, c, List.mem_append_left t hc, hq⟩

theorem Holds.right {q : Char → Prop} {a b : Regex} (hb : b.Holds q) : (seq a b).Holds q := by
  intro x y h
  obtain ⟨z, hz, hy⟩ := mem_seq.mp h
  obtain ⟨s, hs⟩ := ends_moves hz
  obtain ⟨t, ht, c, hc, hq⟩ := hb z y hy
  exact ⟨s ++ t, hs.trans ht, c, List.mem_append_right s hc, hq⟩

theorem Holds.alt {q : Char → Prop} {a b : Regex} (ha : a.Holds q) (hb : b.Holds q) :
    (alt a b).Holds q := by
  intro x y h
  cases mem_alt.mp h with
  | inl h => exact ha x y h
  | inr h => exact hb x y h

end Regex

/-! ## Scanning -/

/-- A part of a scanned text. -/
inductive Piece (μ : Type) where
  | plain (c : Char)
  | found (mark : μ) (text : List Char)

variable {μ : Type}

def Piece.source : Piece μ → List Char
  | .plain c => [c]
  | .found _ text => text

/-- `re.sub` with a text for each mark. -/
def Piece.replaced (write : μ → List Char) : Piece μ → List Char
  | .plain c => [c]
  | .found mark _ => write mark

/-- The first of the patterns that matches at a place, and how much it covers. -/
def firstMatch (rules : List (μ × Regex)) (x : Place) : Option (μ × Nat) :=
  rules.findSome? fun rule =>
    (rule.2.match x).map fun y => (rule.1, x.rest.length - y.rest.length)

/-- The pieces of a text from a place on, where `inside` characters belong to a match before it.
A match of no characters is no match. -/
def scanFrom (rules : List (μ × Regex)) (before : List Char) : Nat → List Char → List (Piece μ)
  | _, [] => []
  | inside + 1, c :: rest => scanFrom rules (c :: before) inside rest
  | 0, c :: rest =>
      match firstMatch rules ⟨before, c :: rest⟩ with
      | some (mark, n + 1) =>
          .found mark ((c :: rest).take (n + 1)) :: scanFrom rules (c :: before) n rest
      | _ => .plain c :: scanFrom rules (c :: before) 0 rest

def scan (rules : List (μ × Regex)) (text : List Char) : List (Piece μ) :=
  scanFrom rules [] 0 text

/-- No pattern matches at a place. -/
def Idle (rules : List (μ × Regex)) (x : Place) : Prop :=
  ∀ mark n, firstMatch rules x = some (mark, n) → n = 0

/-- What the pieces of a text are. -/
inductive Scans (rules : List (μ × Regex)) : Place → List (Piece μ) → Prop
  | done {before} : Scans rules ⟨before, []⟩ []
  | plain {before c rest ps} (idle : Idle rules ⟨before, c :: rest⟩)
      (tail : Scans rules ⟨c :: before, rest⟩ ps) :
      Scans rules ⟨before, c :: rest⟩ (.plain c :: ps)
  | found {x y mark s ps} (ne : s ≠ []) (first : firstMatch rules x = some (mark, s.length))
      (moves : x.Moves s y) (tail : Scans rules y ps) : Scans rules x (.found mark s :: ps)

theorem firstMatch_moves {rules : List (μ × Regex)} {x : Place} {mark : μ} {n : Nat}
    (h : firstMatch rules x = some (mark, n)) :
    ∃ r s y, (mark, r) ∈ rules ∧ r.match x = some y ∧ x.Moves s y ∧ s.length = n := by
  obtain ⟨rule, hrule, hmap⟩ := List.exists_of_findSome?_eq_some h
  obtain ⟨y, hy, hsame⟩ := Option.map_eq_some_iff.mp hmap
  cases hsame
  obtain ⟨s, hs⟩ := Regex.match_moves hy
  refine ⟨rule.2, s, y, hrule, hy, hs, ?_⟩
  rw [← hs.length, Nat.add_sub_cancel_left]

theorem scans_scanFrom (rules : List (μ × Regex)) (before rest : List Char) (inside : Nat) :
    Scans rules (Place.advance ⟨before, rest⟩ inside) (scanFrom rules before inside rest) := by
  induction rest generalizing before inside with
  | nil =>
      have hplace : Place.advance ⟨before, []⟩ inside = ⟨before, []⟩ := by
        simp [Place.advance]
      rw [hplace]
      cases inside <;> exact .done
  | cons c rest ih =>
      cases inside with
      | succ inside =>
          have hplace : Place.advance ⟨before, c :: rest⟩ (inside + 1) =
              Place.advance ⟨c :: before, rest⟩ inside := by
            simp [Place.advance]
          rw [hplace]
          exact ih (c :: before) inside
      | zero =>
          have hplace : Place.advance ⟨before, c :: rest⟩ 0 = ⟨before, c :: rest⟩ := by
            simp [Place.advance]
          have hnext : Place.advance ⟨c :: before, rest⟩ 0 = ⟨c :: before, rest⟩ := by
            simp [Place.advance]
          rw [hplace, scanFrom]
          split
          · next mark n hfirst =>
              obtain ⟨-, s, y, -, -, hs, hlength⟩ := firstMatch_moves hfirst
              have htake : (c :: rest).take (n + 1) = s := by
                have hrest := hs.rest
                dsimp only at hrest
                rw [hrest, ← Nat.succ_eq_add_one, ← hlength, List.take_left]
              rw [htake]
              refine .found ?_ (by rw [hfirst, hlength]) hs ?_
              · intro hnil
                rw [hnil] at hlength
                cases hlength
              · have hy : y = Place.advance ⟨c :: before, rest⟩ n := by
                  rw [hs.eq_advance, hlength]
                  simp [Place.advance]
                rw [hy]
                exact ih (c :: before) n
          · next hidle =>
              refine .plain ?_ (hnext ▸ ih (c :: before) 0)
              intro mark n hfirst
              cases n with
              | zero => rfl
              | succ n => exact absurd hfirst (hidle mark n)

theorem scans_scan (rules : List (μ × Regex)) (text : List Char) :
    Scans rules ⟨[], text⟩ (scan rules text) :=
  scans_scanFrom rules [] text 0

namespace Scans

variable {rules : List (μ × Regex)} {x : Place} {ps qs : List (Piece μ)}

theorem source (h : Scans rules x ps) : ps.flatMap Piece.source = x.rest := by
  induction h with
  | done => rfl
  | plain idle tail ih => rw [List.flatMap_cons, ih]; rfl
  | found ne first moves tail ih => rw [List.flatMap_cons, ih, moves.rest]; rfl

/-- The rest of the pieces are those of the rest of the text. -/
theorem split (h : Scans rules x (ps ++ qs)) :
    ∃ y, x.Moves (ps.flatMap Piece.source) y ∧ Scans rules y qs := by
  induction ps generalizing x with
  | nil => exact ⟨x, .refl x, h⟩
  | cons p ps ih =>
      cases h with
      | plain idle tail =>
          obtain ⟨y, hy, hqs⟩ := ih tail
          exact ⟨y, (Place.Moves.one rfl).trans hy, hqs⟩
      | found ne first moves tail =>
          obtain ⟨y, hy, hqs⟩ := ih tail
          exact ⟨y, moves.trans hy, hqs⟩

/-- No pattern matches where a plain character stands. -/
theorem idle {c : Char} (h : Scans rules x (ps ++ .plain c :: qs)) :
    ∃ y, x.Moves (ps.flatMap Piece.source) y ∧ Idle rules y := by
  obtain ⟨y, hy, hqs⟩ := h.split
  cases hqs with
  | plain idle _ => exact ⟨_, hy, idle⟩

end Scans

/-- A text all of whose matches hold a character of a kind, and whose replacements hold one,
holds none after the replacement exactly if it held none before. -/
theorem Scans.lacks {rules : List (μ × Regex)} {w : μ → List Char} {q : Char → Prop}
    (hrules : ∀ rule ∈ rules, rule.2.Holds q) (hwrite : ∀ mark, ∃ c ∈ w mark, q c)
    {x : Place} {ps : List (Piece μ)} (h : Scans rules x ps) :
    (∀ c ∈ ps.flatMap (Piece.replaced w), ¬q c) ↔ ∀ c ∈ x.rest, ¬q c := by
  induction h with
  | done => rfl
  | @plain before c rest ps idle tail ih =>
      rw [List.flatMap_cons, List.forall_mem_append, List.forall_mem_cons, ih]
      exact and_congr_left fun _ => List.forall_mem_singleton
  | @found x y mark s ps ne first moves tail ih =>
      constructor
      · intro hnone
        obtain ⟨c, hc, hq⟩ := hwrite mark
        refine absurd hq (hnone c ?_)
        rw [List.flatMap_cons]
        exact List.mem_append_left _ hc
      · intro hnone
        obtain ⟨r, t, z, hr, hmatch, ht, hlength⟩ := firstMatch_moves first
        obtain ⟨u, hu, c, hc, hq⟩ := hrules _ hr x z (List.mem_of_head? hmatch)
        refine absurd hq (hnone c ?_)
        rw [hu.rest]
        exact List.mem_append_left _ hc

/-- The characters before the first match. -/
def opening : List (Piece μ) → List Char
  | .plain c :: ps => c :: opening ps
  | _ => []

/-- When every match goes to the end of the text, there is at most one. -/
theorem Scans.once {rules : List (μ × Regex)} (hend : ∀ rule ∈ rules, rule.2.ToEnd) {x : Place}
    {ps : List (Piece μ)} (h : Scans rules x ps) :
    ps = (opening ps).map .plain ∨
      ∃ mark s, ps = (opening ps).map .plain ++ [.found mark s] := by
  induction h with
  | done => exact .inl rfl
  | plain idle tail ih =>
      cases ih with
      | inl hall => exact .inl (congrArg _ hall)
      | inr hone =>
          obtain ⟨mark, s, hps⟩ := hone
          exact .inr ⟨mark, s, congrArg _ hps⟩
  | @found x y mark s ps ne first moves tail ih =>
      obtain ⟨r, t, z, hr, hmatch, ht, hlength⟩ := firstMatch_moves first
      have hplace : y = z := by rw [moves.eq_advance, ht.eq_advance, hlength]
      have hnil := hend _ hr x z hmatch
      rw [← hplace] at hnil
      refine .inr ⟨mark, s, ?_⟩
      cases tail with
      | done => rfl
      | plain _ _ => cases hnil
      | found ne' _ moves' _ =>
          rw [moves'.rest] at hnil
          exact absurd (List.append_eq_nil_iff.mp hnil).1 ne'

end AgentsServer.Library

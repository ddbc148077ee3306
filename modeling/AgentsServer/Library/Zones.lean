import Mathlib.Algebra.Order.Floor.Ring
import Mathlib.Data.Rat.Floor
import Mathlib.Tactic.Linarith

/-!
# Local clocks

A time zone is an offset from universal time that changes at given instants. Where the offset
grows, readings of the local clock are skipped; where it falls, they come twice, and the later
instants carry a fold. A reading determines its first instant.

Among first instants the order of time is the order of the readings, as long as what a transition
skips or repeats ends before the next one.

Instants and readings are seconds; a date and time holds them to the microsecond.
-/

namespace AgentsServer.Library

/-! ## Microseconds -/

/-- Rounding to the nearest integer, a half to the even one. -/
def roundHalfEven (x : ℚ) : ℤ :=
  if x - ⌊x⌋ < 1 / 2 then ⌊x⌋
  else if 1 / 2 < x - ⌊x⌋ then ⌊x⌋ + 1
  else if ⌊x⌋ % 2 = 0 then ⌊x⌋ else ⌊x⌋ + 1

theorem roundHalfEven_near (x : ℚ) : |(roundHalfEven x : ℚ) - x| ≤ 1 / 2 := by
  have hlow := Int.floor_le x
  have hhigh := Int.lt_floor_add_one x
  rw [abs_le, roundHalfEven]
  split
  · constructor <;> linarith
  · split
    · push_cast
      constructor <;> linarith
    · split
      · constructor <;> linarith
      · push_cast
        constructor <;> linarith

theorem roundHalfEven_mono {x y : ℚ} (h : x ≤ y) : roundHalfEven x ≤ roundHalfEven y := by
  by_contra hlt
  have hstep : (roundHalfEven y : ℚ) + 1 ≤ roundHalfEven x := by exact_mod_cast not_le.mp hlt
  have hx := abs_le.mp (roundHalfEven_near x)
  have hy := abs_le.mp (roundHalfEven_near y)
  have heq : x = y := le_antisymm h (by linarith)
  rw [heq] at hlt
  exact hlt le_rfl

/-- The whole microseconds nearest to an instant. -/
def toMicros (t : ℚ) : ℚ := roundHalfEven (t * 1000000) / 1000000

theorem toMicros_mono {t u : ℚ} (h : t ≤ u) : toMicros t ≤ toMicros u := by
  have hround : (roundHalfEven (t * 1000000) : ℚ) ≤ roundHalfEven (u * 1000000) :=
    Int.cast_le.mpr (roundHalfEven_mono (by linarith))
  rw [toMicros, toMicros]
  exact div_le_div_of_nonneg_right hround (by norm_num)

/-- A whole second that comes after the rounded instant comes after the instant. -/
theorem lt_of_toMicros_lt {t : ℚ} {n : ℤ} (h : toMicros t < n) : t < n := by
  have hnear := abs_le.mp (roundHalfEven_near (t * 1000000))
  have hint : (roundHalfEven (t * 1000000) : ℚ) < ((n * 1000000 : ℤ) : ℚ) := by
    rw [toMicros, div_lt_iff₀ (by norm_num)] at h
    push_cast
    exact h
  have hstep : roundHalfEven (t * 1000000) + 1 ≤ n * 1000000 := Int.cast_lt.mp hint
  have hcast : (roundHalfEven (t * 1000000) : ℚ) + 1 ≤ n * 1000000 := by exact_mod_cast hstep
  linarith

/-- A whole second that does not come before the instant does not come before the rounded one. -/
theorem toMicros_le_of_le {t : ℚ} {n : ℤ} (h : t ≤ n) : toMicros t ≤ n := by
  have hnear := abs_le.mp (roundHalfEven_near (t * 1000000))
  have hint : (roundHalfEven (t * 1000000) : ℚ) < ((n * 1000000 + 1 : ℤ) : ℚ) := by
    push_cast
    linarith
  have hstep : roundHalfEven (t * 1000000) ≤ n * 1000000 := Int.lt_add_one_iff.mp
    (Int.cast_lt.mp hint)
  have hcast : (roundHalfEven (t * 1000000) : ℚ) ≤ n * 1000000 := by exact_mod_cast hstep
  rw [toMicros, div_le_iff₀ (by norm_num)]
  exact hcast

/-! ## Zones -/

structure Transition where
  instant : ℤ
  offset : ℤ
  deriving DecidableEq

namespace Transitions

/-- What a transition skips or repeats ends before the next one starts to. -/
def Spaced (o : ℤ) : List Transition → Prop
  | [] => True
  | tr :: rest =>
      (∀ next ∈ rest.head?, tr.instant + max 0 (o - tr.offset) ≤
        next.instant - max 0 (tr.offset - next.offset)) ∧ Spaced tr.offset rest

def offset (o : ℤ) : List Transition → ℚ → ℤ
  | [], _ => o
  | tr :: rest, t => if t < tr.instant then o else offset tr.offset rest t

/-- The clock showed the same before the last transition. -/
def fold (o : ℤ) : List Transition → ℚ → Bool
  | [], _ => false
  | tr :: rest, t =>
      if t < tr.instant then false
      else decide (t < tr.instant + (o - tr.offset)) || fold tr.offset rest t

/-- The offset of the first instant with a reading. -/
def firstOffset (o : ℤ) : List Transition → ℚ → ℤ
  | [], _ => o
  | tr :: rest, w =>
      if w < tr.instant + max o tr.offset then o else firstOffset tr.offset rest w

variable {o : ℤ} {l : List Transition} {t u x : ℚ}

/-- The clock does not run back behind a reading, but for folds. -/
theorem le_reading (spaced : Spaced o l) (ht : fold o l t = false) (hx : x ≤ t + o)
    (head : ∀ next ∈ l.head?, x ≤ next.instant + o) : x ≤ t + offset o l t := by
  induction l generalizing o with
  | nil => exact hx
  | cons tr rest ih =>
      rw [offset]
      by_cases hb : t < tr.instant
      · rw [if_pos hb]
        exact hx
      · rw [if_neg hb]
        simp only [fold, if_neg hb, Bool.or_eq_false_iff, decide_eq_false_iff_not, not_lt] at ht
        have hx' := head tr rfl
        apply ih spaced.2 ht.2
        · linarith [ht.1]
        · intro next hnext
          have hspace := spaced.1 next hnext
          have hstep : tr.instant + (o - tr.offset) ≤ next.instant := by
            have hmax := le_max_right 0 (o - tr.offset)
            have hmax' := le_max_left 0 (tr.offset - next.offset)
            omega
          have hcast : (tr.instant : ℚ) + (o - tr.offset) ≤ next.instant := by exact_mod_cast hstep
          linarith

/-- After a transition the clock shows what it did not show before. -/
theorem reading_past {tr : Transition} {rest : List Transition} (spaced : Spaced o (tr :: rest))
    (past : ¬ t < tr.instant) (ht : fold o (tr :: rest) t = false) :
    (tr.instant : ℚ) + (max o tr.offset : ℤ) ≤ t + offset tr.offset rest t := by
  simp only [fold, if_neg past, Bool.or_eq_false_iff, decide_eq_false_iff_not, not_lt] at ht
  rw [not_lt] at past
  have hmax : ((max o tr.offset : ℤ) : ℚ) ≤ t - tr.instant + tr.offset := by
    rcases max_choice o tr.offset with hm | hm <;> rw [hm] <;> linarith [ht.1]
  apply le_reading spaced.2 ht.2
  · linarith
  · intro next hnext
    have hspace := spaced.1 next hnext
    have hmax' := le_max_left 0 (tr.offset - next.offset)
    have hstep : tr.instant + max o tr.offset ≤ next.instant + tr.offset := by
      rcases max_choice o tr.offset with hm | hm <;> rw [hm]
      · have := le_max_right 0 (o - tr.offset)
        omega
      · have := le_max_left 0 (o - tr.offset)
        omega
    exact_mod_cast hstep

/-- A reading leads back to its first instant. -/
theorem firstOffset_reading (spaced : Spaced o l) (ht : fold o l t = false) :
    firstOffset o l (t + offset o l t) = offset o l t := by
  induction l generalizing o with
  | nil => rfl
  | cons tr rest ih =>
      by_cases hb : t < tr.instant
      · have hmax : (o : ℚ) ≤ (max o tr.offset : ℤ) := Int.cast_le.mpr (le_max_left _ _)
        have hlt : t + o < tr.instant + (max o tr.offset : ℤ) := by linarith
        simp only [offset, firstOffset, if_pos hb, if_pos hlt]
      · have hpast := reading_past spaced hb ht
        simp only [fold, if_neg hb, Bool.or_eq_false_iff] at ht
        simp only [offset, firstOffset, if_neg hb, if_neg (not_lt.mpr hpast)]
        exact ih spaced.2 ht.2

/-- Of two first instants the later one has the later reading. -/
theorem reading_lt (spaced : Spaced o l) (ht : fold o l t = false) (hu : fold o l u = false)
    (h : t < u) : t + offset o l t < u + offset o l u := by
  induction l generalizing o with
  | nil => simpa [offset] using h
  | cons tr rest ih =>
      by_cases hb : t < tr.instant
      · by_cases hbu : u < tr.instant
        · simp only [offset, if_pos hb, if_pos hbu]
          linarith
        · have hpast := reading_past spaced hbu hu
          have hmax : (o : ℚ) ≤ (max o tr.offset : ℤ) := Int.cast_le.mpr (le_max_left _ _)
          simp only [offset, if_pos hb, if_neg hbu]
          linarith
      · have hbu : ¬ u < tr.instant := fun hlt => hb (h.trans hlt)
        simp only [fold, if_neg hb, if_neg hbu, Bool.or_eq_false_iff] at ht hu
        simp only [offset, if_neg hb, if_neg hbu]
        exact ih spaced.2 ht.2 hu.2

/-- A fold repeats the reading of an earlier instant, which lies before the transition by no more
than the clock went back. -/
theorem fold_repeats (spaced : Spaced o l) (ht : fold o l t = true) :
    ∃ u < t, fold o l u = false ∧ u + offset o l u = t + offset o l t ∧
      ∀ tr ∈ l.head?, (tr.instant : ℚ) - (max 0 (o - tr.offset) : ℤ) ≤ u := by
  induction l generalizing o with
  | nil => cases ht
  | cons tr rest ih =>
      have hb : ¬ t < tr.instant := by
        intro hb
        simp only [fold, if_pos hb, Bool.false_eq_true] at ht
      simp only [fold, if_neg hb, Bool.or_eq_true, decide_eq_true_eq] at ht
      have hmax : (0 : ℚ) ≤ (max 0 (o - tr.offset) : ℤ) := by
        exact_mod_cast le_max_left 0 (o - tr.offset)
      have hmax' : (o : ℚ) - tr.offset ≤ (max 0 (o - tr.offset) : ℤ) := by
        exact_mod_cast le_max_right 0 (o - tr.offset)
      by_cases hfirst : t < tr.instant + (o - tr.offset)
      · -- the fold of this transition
        have hnext : offset tr.offset rest t = tr.offset := by
          cases rest with
          | nil => rfl
          | cons next more =>
              have hspace := spaced.1 next rfl
              have hone := le_max_right 0 (o - tr.offset)
              have htwo := le_max_left 0 (tr.offset - next.offset)
              have hstep : tr.instant + (o - tr.offset) ≤ next.instant := by omega
              have hcast : (tr.instant : ℚ) + (o - tr.offset) ≤ next.instant := by
                exact_mod_cast hstep
              rw [offset, if_pos (by linarith)]
        rw [not_lt] at hb
        have hu : t - (o - tr.offset) < tr.instant := by linarith
        refine ⟨t - (o - tr.offset), by linarith, ?_, ?_, ?_⟩
        · simp only [fold, if_pos hu]
        · simp only [offset, if_pos hu, if_neg (not_lt.mpr hb), hnext]
          ring
        · intro tr' h'
          cases h'
          linarith
      · obtain ⟨u, hut, hfold, hread, hhead⟩ := ih spaced.2 (ht.resolve_left hfirst)
        have hafter : (tr.instant : ℚ) + (max 0 (o - tr.offset) : ℤ) ≤ u := by
          cases rest with
          | nil => cases ht.resolve_left hfirst
          | cons next more =>
              have hspace := spaced.1 next rfl
              have hcast : (tr.instant : ℚ) + (max 0 (o - tr.offset) : ℤ) ≤
                  next.instant - (max 0 (tr.offset - next.offset) : ℤ) := by exact_mod_cast hspace
              exact hcast.trans (hhead next rfl)
        have hub : ¬ u < tr.instant := not_lt.mpr (by linarith)
        have huf : ¬ u < tr.instant + (o - tr.offset) := not_lt.mpr (by linarith)
        refine ⟨u, hut, ?_, ?_, ?_⟩
        · simp only [fold, if_neg hub, huf, decide_false, Bool.false_or, hfold]
        · simp only [offset, if_neg hub, if_neg hb, hread]
        · intro tr' h'
          cases h'
          linarith

end Transitions

open Transitions

/-- A zone of the time zone database. -/
structure Zone where
  initial : ℤ
  transitions : List Transition
  spaced : Spaced initial transitions

/-- A local date and time: the reading of the clock, and whether it is a repeated one. -/
structure Datetime where
  clock : ℚ
  fold : Bool
  deriving DecidableEq

namespace Zone

variable (z : Zone)

def clock (t : ℚ) : ℚ := t + offset z.initial z.transitions t

def fold (t : ℚ) : Bool := Transitions.fold z.initial z.transitions t

/-- The instant of a reading without a fold. -/
def instant (clock : ℚ) : ℚ := clock - firstOffset z.initial z.transitions clock

/-- A skipped reading does not survive the way through its instant. -/
def Exists (clock : ℚ) : Prop := z.clock (z.instant clock) = clock

instance (clock : ℚ) : Decidable (z.Exists clock) := inferInstanceAs (Decidable (_ = _))

/-- `datetime.fromtimestamp(t, tz=zone)` -/
def fromTimestamp (t : ℚ) : Datetime := ⟨z.clock (toMicros t), z.fold (toMicros t)⟩

variable {z} {t u : ℚ}

theorem instant_clock (ht : z.fold t = false) : z.instant (z.clock t) = t := by
  rw [instant, clock, firstOffset_reading z.spaced ht]
  ring

theorem clock_lt_clock (ht : z.fold t = false) (hu : z.fold u = false) :
    z.clock t < z.clock u ↔ t < u := by
  constructor
  · intro h
    by_contra hle
    rcases (not_lt.mp hle).lt_or_eq with hlt | heq
    · exact lt_asymm h (reading_lt z.spaced hu ht hlt)
    · rw [heq] at h
      exact lt_irrefl _ h
  · exact reading_lt z.spaced ht hu

/-- Every reading that comes at all comes first without a fold. -/
theorem exists_first (t : ℚ) : ∃ u ≤ t, z.fold u = false ∧ z.clock u = z.clock t := by
  cases ht : z.fold t with
  | false => exact ⟨t, le_rfl, ht, rfl⟩
  | true =>
      obtain ⟨u, hut, hfold, hread, -⟩ := fold_repeats z.spaced ht
      exact ⟨u, hut.le, hfold, hread⟩

theorem Exists.fold {c : ℚ} (h : z.Exists c) : z.fold (z.instant c) = false := by
  obtain ⟨u, -, hfold, hread⟩ := exists_first (z := z) (z.instant c)
  have hu : z.instant c = u := by rw [← instant_clock hfold, hread, h]
  rw [hu, hfold]

/-- Readings without a fold are in the order of their instants. -/
theorem instant_lt_instant {c d : ℚ} (hc : z.Exists c) (hd : z.Exists d) :
    z.instant c < z.instant d ↔ c < d := by
  rw [← clock_lt_clock hc.fold hd.fold, hc, hd]

/-- A first instant that comes after another instant has the later reading. -/
theorem clock_lt_of_lt {c : ℚ} (hc : z.Exists c) (h : t < z.instant c) : z.clock t < c := by
  obtain ⟨u, hut, hfold, hread⟩ := exists_first (z := z) t
  rw [← hread, ← hc, clock_lt_clock hfold hc.fold]
  exact hut.trans_lt h

theorem clock_le_of_le {c : ℚ} (hc : z.Exists c) (h : t ≤ z.instant c) : z.clock t ≤ c := by
  rcases h.lt_or_eq with hlt | heq
  · exact (clock_lt_of_lt hc hlt).le
  · rw [heq, hc]

theorem instant_le_instant {c d : ℚ} (hc : z.Exists c) (hd : z.Exists d) :
    z.instant c ≤ z.instant d ↔ c ≤ d := by
  rw [← not_lt, ← not_lt, instant_lt_instant hd hc]

/-- The instant of a whole second is a whole second. -/
theorem instant_int (c : ℤ) : ∃ n : ℤ, z.instant c = n :=
  ⟨c - firstOffset z.initial z.transitions c, by rw [instant]; push_cast; ring⟩

end Zone

end AgentsServer.Library

import AgentsServer.Schedules.Occurrences
import Mathlib.Data.Set.Card
import Mathlib.Order.Interval.Finset.Defs
import Mathlib.Data.Int.Interval

/-!
# The least slot of a schedule

The slots of a job are the times its schedule means, and an occurrence is found correctly when it
is the least slot that is due. A scan of candidates finds the least one that passes. Where a cron
or rrule job is searched from a moment that is a slot itself, the search may start behind it.
-/

namespace AgentsServer.Schedules

open Library

/-! ## Slots -/

/-- The anchor and every interval after it, or the anchor alone. -/
def intervalSlots (anchorValue : Option ℚ) (intervalValue : Option ℤ) : Set ℚ :=
  {t | ∃ anchor ∈ anchorValue, intervalValue.getD 0 = 0 ∧ t = anchor ∨
    0 < intervalValue.getD 0 ∧ ∃ k : ℕ, t = anchor + k * intervalValue.getD 0}

/-- A matching reading from the start on that exists; its instant is the first with it. -/
structure IsSlot (zone : Zone) (e : Recurrence) (start : Datetime) (w : ℤ) : Prop where
  holds : e.holds w = true
  started : start.clock ≤ w
  exists_ : zone.Exists w

def recurrenceSlots (zone : Zone) (e : Recurrence) (start : Datetime) : Set ℚ :=
  {t | ∃ w : ℤ, IsSlot zone e start w ∧ t = zone.instant w}

/-- The slots with fewer than so many before them. -/
def IsCounted (zone : Zone) (e : Recurrence) (start : Datetime) (countLimit : ℕ) (w : ℤ) : Prop :=
  IsSlot zone e start w ∧ {v | IsSlot zone e start v ∧ v < w}.encard < countLimit

def countedSlots (zone : Zone) (e : Recurrence) (start : Datetime) (countLimit : ℕ) : Set ℚ :=
  {t | ∃ w : ℤ, IsCounted zone e start countLimit w ∧ t = zone.instant w}

/-- The slots of a job. The schedule of a job without an anchor starts at the reference. -/
def Job.slots [Calendars] (job : Job) (reference : ℚ) : Set ℚ :=
  let zone := Calendars.zoneInfo job.timezoneName
  let start := zone.fromTimestamp (job.anchorValue.getD reference)
  match job.kind with
  | .interval => intervalSlots job.anchorValue job.intervalSeconds
  | .cron => recurrenceSlots zone
      (Calendars.croniter job.cronText (cronHashId job.cronText job.hashName)).toRecurrence start
  | .rrule =>
      match rruleCount job.rruleText with
      | some countLimit =>
          countedSlots zone (Calendars.rrulestr (withoutCount job.rruleText) start) start countLimit
      | none => recurrenceSlots zone (Calendars.rrulestr job.rruleText start) start

/-- The slots after the reference, or from it on. -/
def due (slots : Set ℚ) (after : ℚ) (inclusive : Bool) : Set ℚ :=
  {t ∈ slots | isDue after inclusive t = true}

/-- The least of the slots, or none where there is none. -/
def Correct (slots : Set ℚ) : Except HTTPException (Option ℚ) → Prop
  | .ok (some t) => IsLeast slots t
  | .ok none => slots = ∅
  | .error _ => False

theorem isDue_iff {after t : ℚ} {inclusive : Bool} :
    isDue after inclusive t = true ↔ after < t ∨ inclusive = true ∧ after ≤ t := by
  simp [isDue]

theorem isDue_le {after t : ℚ} {inclusive : Bool} (h : isDue after inclusive t = true) :
    after ≤ t := by
  rcases isDue_iff.mp h with hlt | ⟨-, hle⟩
  · exact hlt.le
  · exact hle

theorem isDue_mono {a b t u : ℚ} {inclusive : Bool} (h : isDue b inclusive t = true) (ha : a ≤ b)
    (hu : t ≤ u) : isDue a inclusive u = true := by
  rw [isDue_iff] at h ⊢
  rcases h with hlt | ⟨hinc, hle⟩
  · exact Or.inl (by linarith)
  · exact Or.inr ⟨hinc, by linarith⟩

/-! ## Interval jobs -/

/-- The step of the interval at or before the reference. -/
theorem step_before {anchor after : ℚ} {interval : ℤ} (pos : (0 : ℚ) < interval)
    (past : anchor ≤ after) : ∃ n : ℕ, ⌊max 0 (after - anchor) / interval⌋ = n ∧
      anchor + n * interval ≤ after ∧ after < anchor + n * interval + interval := by
  rw [max_eq_right (by linarith)]
  have hnonneg : 0 ≤ (after - anchor) / interval := div_nonneg (by linarith) pos.le
  obtain ⟨n, hn⟩ := Int.eq_ofNat_of_zero_le (Int.floor_nonneg.mpr hnonneg)
  have hlow := Int.floor_le ((after - anchor) / interval)
  have hhigh := Int.lt_floor_add_one ((after - anchor) / interval)
  rw [hn, Int.cast_natCast, le_div_iff₀ pos] at hlow
  rw [hn, Int.cast_natCast, div_lt_iff₀ pos, add_mul, one_mul] at hhigh
  exact ⟨n, hn, by linarith, by linarith⟩

theorem nextInterval_correct (anchorValue : Option ℚ) (intervalValue : Option ℤ) (after : ℚ)
    (inclusive : Bool) :
    Correct (due (intervalSlots anchorValue intervalValue) after inclusive)
      (.ok (nextInterval anchorValue intervalValue after inclusive)) := by
  cases anchorValue with
  | none => simp [nextInterval, Correct, due, intervalSlots]
  | some anchor =>
      rw [nextInterval]
      simp only
      generalize hi : intervalValue.getD 0 = interval
      have hslots : ∀ t, t ∈ intervalSlots (some anchor) intervalValue ↔
          interval = 0 ∧ t = anchor ∨ 0 < interval ∧ ∃ k : ℕ, t = anchor + k * interval := by
        intro t
        simp [intervalSlots, hi]
      by_cases hzero : interval = 0
      · rw [if_pos hzero]
        have hone : ∀ t, t ∈ intervalSlots (some anchor) intervalValue ↔ t = anchor := by
          intro t
          simp [hslots, hzero]
        split
        · rename_i hdue
          exact ⟨⟨(hone anchor).mpr rfl, hdue⟩, fun t ht => ((hone t).mp ht.1).ge⟩
        · rename_i hdue
          apply Set.eq_empty_of_forall_notMem
          rintro t ⟨ht, htdue⟩
          rw [(hone t).mp ht] at htdue
          exact hdue htdue
      · rw [if_neg hzero]
        by_cases hneg : interval ≤ 0
        · rw [if_pos hneg]
          apply Set.eq_empty_of_forall_notMem
          rintro t ⟨ht, -⟩
          rcases (hslots t).mp ht with h | h
          · exact hzero h.1
          · exact absurd h.1 (not_lt.mpr hneg)
        · rw [if_neg hneg]
          have hpos : 0 < interval := not_le.mp hneg
          have hposq : (0 : ℚ) < interval := Int.cast_pos.mpr hpos
          have hmany : ∀ t, t ∈ intervalSlots (some anchor) intervalValue ↔
              ∃ k : ℕ, t = anchor + k * interval := by
            intro t
            simp [hslots, hzero, hpos]
          split
          · rename_i hdue
            refine ⟨⟨(hmany anchor).mpr ⟨0, by simp⟩, hdue⟩, ?_⟩
            rintro t ⟨ht, -⟩
            obtain ⟨k, rfl⟩ := (hmany t).mp ht
            have hk : (0 : ℚ) ≤ k * interval := mul_nonneg (Nat.cast_nonneg k) hposq.le
            linarith
          · rename_i hdue
            rw [isDue_iff, not_or, not_lt] at hdue
            obtain ⟨n, hn, hlow, hhigh⟩ := step_before hposq hdue.1
            rw [hn, Int.cast_natCast]
            have hnext : anchor + (n : ℚ) * interval + interval ∈
                intervalSlots (some anchor) intervalValue :=
              (hmany _).mpr ⟨n + 1, by push_cast; ring⟩
            by_cases hc : (anchor + n * interval < after ||
                !inclusive && anchor + n * interval ≤ after) = true
            · rw [if_pos hc]
              refine ⟨⟨hnext, isDue_iff.mpr (Or.inl hhigh)⟩, ?_⟩
              rintro t ⟨ht, htdue⟩
              obtain ⟨k, rfl⟩ := (hmany t).mp ht
              -- the step at the reference is due only where it is the reference and included
              have hk : n + 1 ≤ k := by
                by_contra hle
                have hkn : (k : ℚ) ≤ n := by exact_mod_cast Nat.le_of_lt_succ (not_le.mp hle)
                have hmul : (k : ℚ) * interval ≤ n * interval :=
                  mul_le_mul_of_nonneg_right hkn hposq.le
                have hat := isDue_le htdue
                rcases isDue_iff.mp htdue with hlt | ⟨hinc, -⟩
                · linarith
                · simp only [hinc, Bool.not_true, Bool.false_and, Bool.or_false,
                    decide_eq_true_eq] at hc
                  linarith
              have hkq : (n : ℚ) + 1 ≤ k := by exact_mod_cast hk
              have hmul : ((n : ℚ) + 1) * interval ≤ k * interval :=
                mul_le_mul_of_nonneg_right hkq hposq.le
              linarith
            · rw [if_neg hc]
              simp only [Bool.or_eq_true, Bool.and_eq_true, decide_eq_true_eq, not_or, not_and,
                not_lt, not_le, Bool.not_eq_true'] at hc
              have hinc : inclusive = true := by
                cases hi' : inclusive with
                | true => rfl
                | false => exact absurd hlow (not_le.mpr (hc.2 hi'))
              refine ⟨⟨(hmany _).mpr ⟨n, rfl⟩, isDue_iff.mpr (Or.inr ⟨hinc, hc.1⟩)⟩, ?_⟩
              rintro t ⟨-, htdue⟩
              exact hlow.trans (isDue_le htdue)

/-! ## Scans -/

namespace Recurrence

variable (e : Recurrence)

/-- A reading that the enumeration has still to reach. -/
def Ahead (d : Datetime) (inc : Bool) (w : ℤ) : Prop :=
  d.clock < w ∨ inc = true ∧ d.clock = w

/-- The first candidates of the enumeration. -/
def listed : ℕ → Datetime → Bool → List Datetime
  | 0, _, _ => []
  | n + 1, d, inc =>
      match e.after d inc with
      | none => []
      | some c => c :: listed n c false

/-- Among so many candidates one passes, or there are not so many. -/
def Reaches (pass : Datetime → Bool) (n : ℕ) (d : Datetime) (inc : Bool) : Prop :=
  (∃ c ∈ e.listed n d inc, pass c = true) ∨ (e.listed n d inc).length < n

variable {e} {d c : Datetime} {inc : Bool} {w v : ℤ}

theorem after_le (h : e.after d inc = some c) : d.clock ≤ c.clock := by
  cases hf : c.fold with
  | true => exact (e.repeated h hf).2.ge
  | false =>
      rcases e.later h hf with hlt | ⟨-, heq⟩
      · exact hlt.le
      · exact heq.le

/-- What is ahead of a candidate was ahead of its base. -/
theorem Ahead.of_next (h : e.after d inc = some c) (ahead : Ahead c false w) : Ahead d inc w := by
  rcases ahead with hlt | ⟨hno, -⟩
  · exact Or.inl ((after_le h).trans_lt hlt)
  · cases hno

/-- What is ahead of the base is the candidate or ahead of it. -/
theorem Ahead.next (h : e.after d inc = some c) (holds : e.holds w = true)
    (ahead : Ahead d inc w) : c = ⟨w, false⟩ ∨ Ahead c false w := by
  rcases (e.least h w holds ahead).lt_or_eq with hlt | heq
  · exact Or.inr (Or.inl hlt)
  · left
    cases hf : c.fold with
    | false =>
        cases c
        cases heq
        cases hf
        rfl
    | true =>
        obtain ⟨hinc, hclock⟩ := e.repeated h hf
        rcases ahead with hlt | ⟨htrue, -⟩
        · rw [← hclock, heq] at hlt
          exact absurd hlt (lt_irrefl _)
        · rw [hinc] at htrue
          cases htrue

/-- A scan finds the least reading ahead that passes, or there is none, or the limit is reached.
Only candidates without a fold pass. -/
theorem scan_spec {pass : Datetime → Bool} (first : ∀ c, pass c = true → c.fold = false) (n : ℕ)
    (d : Datetime) (inc : Bool) :
    match e.scan pass n d inc with
    | .found c => e.Reaches pass n d inc ∧ ∃ w : ℤ, c = ⟨w, false⟩ ∧ e.holds w = true ∧
        pass c = true ∧ Ahead d inc w ∧
        ∀ v : ℤ, e.holds v = true → Ahead d inc v → pass ⟨v, false⟩ = true → w ≤ v
    | .exhausted => e.Reaches pass n d inc ∧
        ∀ v : ℤ, e.holds v = true → Ahead d inc v → ¬ pass ⟨v, false⟩ = true
    | .limit => ¬ e.Reaches pass n d inc := by
  induction n generalizing d inc with
  | zero => simp [scan, Reaches, listed]
  | succ n ih =>
      cases ha : e.after d inc with
      | none =>
          simp only [scan, Reaches, listed, ha]
          exact ⟨Or.inr (Nat.succ_pos n), fun v hv hahead => absurd hahead (e.ended ha v hv)⟩
      | some c =>
          have hnext : ¬ pass c = true → ∀ v : ℤ, e.holds v = true → Ahead d inc v →
              pass ⟨v, false⟩ = true → Ahead c false v := by
            intro hc v hv hahead hpass
            rcases hahead.next ha hv with rfl | hn
            · exact absurd hpass hc
            · exact hn
          have hreaches : ¬ pass c = true →
              (e.Reaches pass (n + 1) d inc ↔ e.Reaches pass n c false) := by
            intro hc
            simp [Reaches, listed, ha, hc]
          by_cases hc : pass c = true
          · simp only [scan, ha, hc, if_true]
            obtain ⟨w, hw, hholds⟩ := e.reading ha
            have hfold := first c hc
            have hcw : c = ⟨w, false⟩ := by
              cases c
              cases hw
              cases hfold
              rfl
            have hlater := e.later ha hfold
            rw [hw] at hlater
            refine ⟨Or.inl ⟨c, by simp [listed, ha], hc⟩, w, hcw, hholds, trivial, hlater, ?_⟩
            intro v hv hahead _
            have hle := e.least ha v hv hahead
            rw [hw] at hle
            exact_mod_cast hle
          · have hrest := ih c false
            simp only [scan, ha, hc, if_false, Bool.false_eq_true]
            cases hs : e.scan pass n c false with
            | found c' =>
                rw [hs] at hrest
                obtain ⟨hr, w, hw, hholds, hpass, hahead, hleast⟩ := hrest
                exact ⟨(hreaches hc).mpr hr, w, hw, hholds, hpass, hahead.of_next ha,
                  fun v hv hva hvp => hleast v hv (hnext hc v hv hva hvp) hvp⟩
            | exhausted =>
                rw [hs] at hrest
                exact ⟨(hreaches hc).mpr hrest.1, fun v hv hva hvp =>
                  hrest.2 v hv (hnext hc v hv hva hvp) hvp⟩
            | limit =>
                rw [hs] at hrest
                exact fun hr => hrest ((hreaches hc).mp hr)

/-- Passing alike on the readings of the enumeration. -/
theorem scan_congr {pass pass' : Datetime → Bool}
    (same : ∀ (w : ℤ) fold, e.holds w = true → pass ⟨w, fold⟩ = pass' ⟨w, fold⟩) (n : ℕ)
    (d : Datetime) (inc : Bool) : e.scan pass n d inc = e.scan pass' n d inc := by
  induction n generalizing d inc with
  | zero => rfl
  | succ n ih =>
      cases ha : e.after d inc with
      | none => simp only [scan, ha]
      | some c =>
          obtain ⟨w, hw, hholds⟩ := e.reading ha
          have hc : pass c = pass' c := by
            have hpass := same w c.fold hholds
            rw [← hw] at hpass
            exact hpass
          simp only [scan, ha, hc, ih]

end Recurrence

/-! ## Cron and rrule jobs -/

/-- A candidate is a slot that is due. -/
def passes (zone : Zone) (after : ℚ) (inclusive : Bool) (c : Datetime) : Bool :=
  isValid zone c && isDue after inclusive (timestamp zone c)

theorem passes_iff {zone : Zone} {after : ℚ} {inclusive : Bool} {w : ℤ} :
    passes zone after inclusive ⟨w, false⟩ = true ↔
      zone.Exists w ∧ isDue after inclusive (zone.instant w) = true := by
  simp [passes, isValid, timestamp]

theorem passes_first {zone : Zone} {after : ℚ} {inclusive : Bool} (c : Datetime)
    (h : passes zone after inclusive c = true) : c.fold = false := by
  simp only [passes, isValid, Bool.and_eq_true, Bool.not_eq_true'] at h
  exact h.1.1

section Search

variable {zone : Zone} {e : Recurrence} {after anchor : ℚ} {inclusive : Bool} {w : ℤ}

/-- A reading whose instant is not before the anchor is not before its reading. -/
theorem started (h : zone.Exists w) (from_ : anchor ≤ zone.instant w) :
    (zone.fromTimestamp anchor).clock ≤ w := by
  obtain ⟨n, hn⟩ := zone.instant_int w
  apply Zone.clock_le_of_le h
  rw [hn] at from_ ⊢
  exact toMicros_le_of_le from_

/-- An instant strictly after the rounded reference is ahead of it. -/
theorem ahead_of_lt {inc : Bool} (h : zone.Exists w) (later : toMicros after < zone.instant w) :
    Recurrence.Ahead (zone.fromTimestamp after) inc w :=
  Or.inl (Zone.clock_lt_of_lt h later)

/-- What is strictly ahead of the rounded reference and due is strictly after it. -/
theorem lt_of_ahead (h : zone.Exists w)
    (ahead : Recurrence.Ahead (zone.fromTimestamp after) false w) (due : after ≤ zone.instant w) : toMicros after < zone.instant w := by
  obtain ⟨n, hn⟩ := zone.instant_int w
  have hle : toMicros after ≤ zone.instant w := by
    rw [hn] at due ⊢
    exact toMicros_le_of_le due
  apply lt_of_le_of_ne hle
  intro heq
  rcases ahead with hlt | ⟨hno, -⟩
  · rw [Zone.fromTimestamp, heq] at hlt
    exact absurd hlt (by rw [h]; exact lt_irrefl _)
  · cases hno

theorem lt_of_toMicros_lt_instant (later : toMicros after < zone.instant w) :
    after < zone.instant w := by
  obtain ⟨n, hn⟩ := zone.instant_int w
  rw [hn] at later ⊢
  exact lt_of_toMicros_lt later

end Search

/-- A search finds the least of what is ahead of its base and passes. That is the least of all slots
when it is all of them and the limit is not reached; what is not ahead comes before it. -/
theorem search_correct {zone : Zone} {e : Recurrence} {inc : Bool} {base : Datetime}
    {pass : Datetime → Bool} (slots ahead : Set ℚ) (n : ℕ)
    (first : ∀ c, pass c = true → c.fold = false)
    (valid : ∀ w : ℤ, pass ⟨w, false⟩ = true → zone.Exists w)
    (covers : ∀ t, t ∈ ahead ↔ ∃ w : ℤ, t = zone.instant w ∧ e.holds w = true ∧
      Recurrence.Ahead base inc w ∧ pass ⟨w, false⟩ = true)
    (among : ahead ⊆ slots) (behind : ∀ t ∈ slots, t ∉ ahead → ∀ u ∈ ahead, t < u)
    (error : HTTPException) :
    Correct slots (match e.scan pass n base inc with
      | .found c => .ok (some (timestamp zone c))
      | .exhausted => .ok none
      | .limit => .error error) ↔ slots ⊆ ahead ∧ e.Reaches pass n base inc := by
  have hspec := Recurrence.scan_spec (e := e) first n base inc
  cases hs : e.scan pass n base inc with
  | found c =>
      rw [hs] at hspec
      obtain ⟨hreach, w, rfl, hholds, hpass, hahead, hleast⟩ := hspec
      have hmem : zone.instant w ∈ ahead := (covers _).mpr ⟨w, rfl, hholds, hahead, hpass⟩
      constructor
      · intro hcorrect
        refine ⟨fun t ht => ?_, hreach⟩
        by_contra hno
        exact absurd (hcorrect.2 ht) (not_le.mpr (behind t ht hno _ hmem))
      · rintro ⟨hall, -⟩
        refine ⟨among hmem, fun t ht => ?_⟩
        obtain ⟨v, rfl, hvh, hva, hvp⟩ := (covers t).mp (hall ht)
        have hle : (w : ℚ) ≤ v := Int.cast_le.mpr (hleast v hvh hva hvp)
        exact (Zone.instant_le_instant (valid w hpass) (valid v hvp)).mpr hle
  | exhausted =>
      rw [hs] at hspec
      have hnone : ahead = ∅ := by
        apply Set.eq_empty_of_forall_notMem
        intro t ht
        obtain ⟨v, rfl, hvh, hva, hvp⟩ := (covers t).mp ht
        exact hspec.2 v hvh hva hvp
      rw [hnone]
      constructor
      · intro hcorrect
        exact ⟨hcorrect.subset, hspec.1⟩
      · exact fun h => Set.subset_empty_iff.mp h.1
  | limit =>
      rw [hs] at hspec
      exact iff_of_false id fun h => hspec h.2

/-- The search of a cron job sees what is due. Where the moment it starts from, the reference moved
up to the anchor, is a match that is looked up, that moment must not come before the reference.
Elsewhere what is due must come after it, and be met before the limit. -/
def CronSearched (zone : Zone) (e : CronRecurrence) (hashed : Bool) (anchor reference : ℚ)
    (inclusive : Bool) : Prop :=
  let slots := recurrenceSlots zone e.toRecurrence (zone.fromTimestamp anchor)
  let base := zone.fromTimestamp (max reference anchor)
  if isInclusiveMatch zone e hashed inclusive base = true then
    reference ≤ toMicros (max reference anchor)
  else
    (∀ t ∈ due slots reference inclusive, toMicros (max reference anchor) < t) ∧
    e.Reaches (passes zone (max reference anchor) inclusive) maxInvalid
      (zone.fromTimestamp (max reference anchor)) false

section Cron

variable {zone : Zone} {e : CronRecurrence} {hashed inclusive : Bool} {anchor reference : ℚ}

theorem isInclusiveMatch_iff {base : Datetime} :
    isInclusiveMatch zone e hashed inclusive base = true ↔ inclusive = true ∧ hashed = false ∧
      ∃ w : ℤ, base = ⟨w, false⟩ ∧ zone.Exists w ∧ e.holds w = true := by
  simp only [isInclusiveMatch, Bool.and_eq_true, decide_eq_true_eq, Bool.not_eq_true']
  constructor
  · rintro ⟨⟨⟨⟨⟨hinc, hwhole⟩, hhash⟩, hfold⟩, hexists⟩, hholds⟩
    refine ⟨hinc, hhash, ⌊base.clock⌋, ?_, ?_, hholds⟩
    · cases base
      cases hfold
      rw [← hwhole]
    · rw [← hwhole]
      exact hexists
  · rintro ⟨hinc, hhash, w, rfl, hexists, hholds⟩
    simp [hinc, hhash, hexists, hholds]

/-- The looked up match is the least slot when it does not come before the reference. -/
theorem inclusive_match_correct {w : ℤ} (inc : inclusive = true)
    (base : zone.fromTimestamp (max reference anchor) = ⟨w, false⟩) (exists_ : zone.Exists w)
    (holds : e.holds w = true) :
    IsLeast (due (recurrenceSlots zone e.toRecurrence (zone.fromTimestamp anchor)) reference
      inclusive) (zone.instant w) ↔ reference ≤ toMicros (max reference anchor) := by
  have hclock : zone.clock (toMicros (max reference anchor)) = w := congrArg Datetime.clock base
  have hfold : zone.fold (toMicros (max reference anchor)) = false := congrArg Datetime.fold base
  have hinstant : zone.instant w = toMicros (max reference anchor) := by
    rw [← hclock, Zone.instant_clock hfold]
  constructor
  · intro hleast
    rw [← hinstant]
    exact isDue_le hleast.1.2
  · intro hle
    have hstart : (zone.fromTimestamp anchor).clock ≤ w := by
      apply Zone.clock_le_of_le exists_
      rw [hinstant]
      exact toMicros_mono (le_max_right _ _)
    refine ⟨⟨⟨w, ⟨holds, hstart, exists_⟩, rfl⟩, isDue_iff.mpr (Or.inr ⟨inc, hinstant ▸ hle⟩)⟩, ?_⟩
    rintro t ⟨⟨v, hv, rfl⟩, hdue⟩
    obtain ⟨n, hn⟩ := zone.instant_int v
    rcases le_total anchor reference with hanchor | hanchor
    · -- the reference itself is the moment
      rw [hinstant, max_eq_left hanchor, hn]
      apply toMicros_le_of_le
      rw [← hn]
      exact isDue_le hdue
    · -- the moment is the anchor, and no slot has an earlier reading
      rw [max_eq_right hanchor] at hclock
      rw [Zone.instant_le_instant exists_ hv.exists_]
      have hstarted := hv.started
      rw [Zone.fromTimestamp, hclock] at hstarted
      exact hstarted

theorem nextCron_correct :
    Correct (due (recurrenceSlots zone e.toRecurrence (zone.fromTimestamp anchor)) reference
        inclusive) (nextCron zone e hashed anchor reference inclusive) ↔
      CronSearched zone e hashed anchor reference inclusive := by
  rw [nextCron, CronSearched]
  by_cases hmatch : isInclusiveMatch zone e hashed inclusive
      (zone.fromTimestamp (max reference anchor)) = true
  · simp only [if_pos hmatch]
    obtain ⟨hinc, -, w, hbase, hexists, hholds⟩ := isInclusiveMatch_iff.mp hmatch
    rw [timestamp, hbase]
    exact inclusive_match_correct hinc hbase hexists hholds
  · simp only [if_neg hmatch]
    have hpass : ∀ (w : ℤ) fold, e.holds w = true →
        (isValid zone ⟨w, fold⟩ && e.expanded.hasRequestedClock ⌊(w : ℚ)⌋ &&
          isDue (max reference anchor) inclusive (timestamp zone ⟨w, fold⟩)) =
        passes zone (max reference anchor) inclusive ⟨w, fold⟩ := by
      intro w fold hholds
      rw [Int.floor_intCast, e.requested w hholds, Bool.and_true, passes]
    rw [Recurrence.scan_congr (fun w fold hholds => hpass w fold hholds)]
    refine (search_correct _ {t ∈ due (recurrenceSlots zone e.toRecurrence
        (zone.fromTimestamp anchor)) reference inclusive | toMicros (max reference anchor) < t}
      maxInvalid passes_first (fun w hw => (passes_iff.mp hw).1) ?_ (Set.sep_subset _ _) ?_ _).trans
      ?_
    · intro t
      constructor
      · rintro ⟨⟨⟨w, hw, rfl⟩, hdue⟩, hlt⟩
        refine ⟨w, rfl, hw.holds, ahead_of_lt hw.exists_ hlt, passes_iff.mpr ⟨hw.exists_, ?_⟩⟩
        exact isDue_iff.mpr (Or.inl (lt_of_toMicros_lt_instant hlt))
      · rintro ⟨w, rfl, hholds, hahead, hpass⟩
        obtain ⟨hexists, hdue⟩ := passes_iff.mp hpass
        have hle := isDue_le hdue
        refine ⟨⟨⟨w, ⟨hholds, started hexists ((le_max_right _ _).trans hle), hexists⟩, rfl⟩, ?_⟩,
          lt_of_ahead hexists hahead hle⟩
        exact isDue_mono hdue (le_max_left _ _) le_rfl
    · intro t ht hno u hu
      have hle : t ≤ toMicros (max reference anchor) := by
        by_contra hlt
        exact hno ⟨ht, not_le.mp hlt⟩
      exact hle.trans_lt hu.2
    · refine and_congr_left fun _ => ⟨fun h t ht => (h ht).2, fun h t ht => ⟨ht, h t ht⟩⟩

end Cron

/-- The search of a rule without a count is strict after the reference, in whole microseconds,
unless it is inclusive. -/
def UncountedSearched (zone : Zone) (e : Recurrence) (start : Datetime) (after : ℚ)
    (inclusive : Bool) : Prop :=
  (inclusive = true ∨ toMicros after ∉ due (recurrenceSlots zone e start) after inclusive) ∧
    e.Reaches (passes zone after inclusive) maxInvalid (zone.fromTimestamp after) inclusive

/-- A slot of a rule with a count that is due is met before the limit. -/
def CountedSearched (zone : Zone) (e : Recurrence) (start : Datetime) (countLimit : ℕ) (after : ℚ)
    (inclusive : Bool) : Prop :=
  (due (countedSlots zone e start countLimit) after inclusive).Nonempty →
    ∃ c ∈ e.listed maxRruleScan start true, isValid zone c = true ∧
      timestamp zone c ∈ due (countedSlots zone e start countLimit) after inclusive

section Rrule

variable {zone : Zone} {e : Recurrence} {start : Datetime} {after : ℚ} {inclusive : Bool}

theorem nextUncounted_correct
    (from_start : ∀ w : ℤ, e.holds w = true → start.clock ≤ w) :
    Correct (due (recurrenceSlots zone e start) after inclusive)
        (nextUncounted zone e after inclusive) ↔
      UncountedSearched zone e start after inclusive := by
  have hnot_before : ∀ t ∈ due (recurrenceSlots zone e start) after inclusive,
      toMicros after ≤ t := by
    rintro t ⟨⟨w, hw, rfl⟩, hdue⟩
    obtain ⟨n, hn⟩ := zone.instant_int w
    have hle := isDue_le hdue
    rw [hn] at hle ⊢
    exact toMicros_le_of_le hle
  rw [nextUncounted, UncountedSearched]
  refine (search_correct _ {t ∈ due (recurrenceSlots zone e start) after inclusive |
      toMicros after < t ∨ inclusive = true ∧ t = toMicros after}
    maxInvalid passes_first (fun w hw => (passes_iff.mp hw).1) ?_ (Set.sep_subset _ _) ?_ _).trans
    ?_
  · intro t
    constructor
    · rintro ⟨⟨⟨w, hw, rfl⟩, hdue⟩, hat⟩
      refine ⟨w, rfl, hw.holds, ?_, passes_iff.mpr ⟨hw.exists_, hdue⟩⟩
      rcases hat with hlt | ⟨hinc, heq⟩
      · exact ahead_of_lt hw.exists_ hlt
      · refine Or.inr ⟨hinc, ?_⟩
        rw [Zone.fromTimestamp, ← heq]
        exact hw.exists_
    · rintro ⟨w, rfl, hholds, hahead, hpass⟩
      obtain ⟨hexists, hdue⟩ := passes_iff.mp hpass
      have hmem : zone.instant w ∈ due (recurrenceSlots zone e start) after inclusive :=
        ⟨⟨w, ⟨hholds, from_start w hholds, hexists⟩, rfl⟩, hdue⟩
      refine ⟨hmem, ?_⟩
      rcases (hnot_before _ hmem).lt_or_eq with hlt | heq
      · exact Or.inl hlt
      · rcases hahead with hlt | ⟨hinc, -⟩
        · rw [Zone.fromTimestamp, heq] at hlt
          exact absurd hlt (by rw [hexists]; exact lt_irrefl _)
        · exact Or.inr ⟨hinc, heq.symm⟩
  · intro t ht hno u hu
    have heq : t = toMicros after := by
      apply le_antisymm _ (hnot_before t ht)
      by_contra hlt
      exact hno ⟨ht, Or.inl (not_le.mp hlt)⟩
    rcases hu.2 with hlt | ⟨hinc, -⟩
    · rw [heq]
      exact hlt
    · exact absurd ⟨ht, Or.inr ⟨hinc, heq⟩⟩ hno
  · refine and_congr_left fun _ => ⟨fun h => ?_, fun h t ht => ⟨ht, ?_⟩⟩
    · by_cases hmem : toMicros after ∈ due (recurrenceSlots zone e start) after inclusive
      · rcases (h hmem).2 with hlt | ⟨hinc, -⟩
        · exact absurd hlt (lt_irrefl _)
        · exact Or.inl hinc
      · exact Or.inr hmem
    · rcases (hnot_before t ht).lt_or_eq with hlt | heq
      · exact Or.inl hlt
      · rcases h with hinc | hno
        · exact Or.inr ⟨hinc, heq.symm⟩
        · rw [heq] at hno
          exact absurd ht hno

/-- A valid candidate is a slot. -/
theorem valid_slot (from_start : ∀ w : ℤ, e.holds w = true → start.clock ≤ w) {c : Datetime}
    {w : ℤ} (clock : c.clock = w) (holds : e.holds w = true) (valid : isValid zone c = true) :
    c = ⟨w, false⟩ ∧ IsSlot zone e start w := by
  rw [isValid, Bool.and_eq_true, Bool.not_eq_true', decide_eq_true_eq, clock] at valid
  refine ⟨?_, holds, from_start w holds, valid.2⟩
  cases c
  cases clock
  cases valid.1
  rfl

/-- The readings before a candidate are those that are behind. -/
theorem before_iff {d : Datetime} {inc : Bool} {w v : ℤ} (h : e.after d inc = some ⟨w, false⟩)
    (ahead : Recurrence.Ahead d inc w) (holds : e.holds v = true) :
    v < w ↔ ¬ Recurrence.Ahead d inc v := by
  constructor
  · intro hlt hva
    have hle : (w : ℚ) ≤ v := e.least h v holds hva
    exact absurd hlt (not_lt.mpr (Int.cast_le.mp hle))
  · intro hva
    by_contra hle
    rcases (not_lt.mp hle).lt_or_eq with hlt | rfl
    · exact hva (Recurrence.Ahead.of_next h (Or.inl (Int.cast_lt.mpr hlt)))
    · exact hva ahead

/-- Behind a candidate are the slots before it; with the candidate they are behind what follows. -/
theorem behind_next {d : Datetime} {inc : Bool} {w : ℤ} {seen : ℕ} (slot : IsSlot zone e start w)
    (h : e.after d inc = some ⟨w, false⟩)
    (behind : {v | IsSlot zone e start v ∧ ¬ Recurrence.Ahead d inc v}.encard = seen) :
    {v | IsSlot zone e start v ∧ v < w}.encard = seen ∧
      {v | IsSlot zone e start v ∧ ¬ Recurrence.Ahead ⟨w, false⟩ false v}.encard =
        (seen + 1 : ℕ) := by
  have hbefore : {v | IsSlot zone e start v ∧ v < w} =
      {v | IsSlot zone e start v ∧ ¬ Recurrence.Ahead d inc v} := by
    ext v
    exact and_congr_right fun hv => before_iff h (e.later h rfl) hv.holds
  have hcount : {v | IsSlot zone e start v ∧ v < w}.encard = seen := hbefore ▸ behind
  have hset : {v | IsSlot zone e start v ∧ ¬ Recurrence.Ahead ⟨w, false⟩ false v} =
      insert w {v | IsSlot zone e start v ∧ v < w} := by
    ext v
    have hnot : ¬ Recurrence.Ahead ⟨w, false⟩ false v ↔ v = w ∨ v < w := by
      simp [Recurrence.Ahead, le_iff_eq_or_lt]
    rw [Set.mem_ofPred_eq, hnot, Set.mem_insert_iff, Set.mem_ofPred_eq]
    constructor
    · rintro ⟨hv, rfl | hlt⟩
      · exact Or.inl rfl
      · exact Or.inr ⟨hv, hlt⟩
    · rintro (rfl | ⟨hv, hlt⟩)
      · exact ⟨slot, Or.inl rfl⟩
      · exact ⟨hv, Or.inr hlt⟩
  refine ⟨hcount, ?_⟩
  rw [hset, Set.encard_insert_of_notMem (fun h => lt_irrefl w h.2), hcount]
  push_cast
  rfl

/-- When the count is used up before a candidate, nothing ahead is counted. -/
theorem used_up {d : Datetime} {inc : Bool} {w v : ℤ} {seen countLimit : ℕ}
    (h : e.after d inc = some ⟨w, false⟩)
    (count : {v | IsSlot zone e start v ∧ v < w}.encard = seen) (limit : countLimit < seen + 1)
    (counted : IsCounted zone e start countLimit v) : ¬ Recurrence.Ahead d inc v := by
  intro ahead
  have hle : (w : ℚ) ≤ v := e.least h v counted.1.holds ahead
  have hsub : {u | IsSlot zone e start u ∧ u < w} ⊆ {u | IsSlot zone e start u ∧ u < v} :=
    fun u hu => ⟨hu.1, hu.2.trans_le (Int.cast_le.mp hle)⟩
  have hless := (Set.encard_le_encard hsub).trans_lt counted.2
  rw [count, Nat.cast_lt] at hless
  omega

/-- The scan of a rule with a count finds the least counted slot ahead that is due, or no such slot
is among the candidates. So many slots are behind. -/
theorem countedScan_spec (dueAt : Datetime → Bool) (countLimit : ℕ)
    (from_start : ∀ w : ℤ, e.holds w = true → start.clock ≤ w) (n seen : ℕ) (d : Datetime)
    (inc : Bool)
    (behind : {v | IsSlot zone e start v ∧ ¬ Recurrence.Ahead d inc v}.encard = seen) :
    match e.countedScan (isValid zone) dueAt countLimit n seen d inc with
    | some c => ∃ w : ℤ, c = ⟨w, false⟩ ∧ IsCounted zone e start countLimit w ∧
        dueAt c = true ∧ c ∈ e.listed n d inc ∧
        ∀ v : ℤ, IsCounted zone e start countLimit v → Recurrence.Ahead d inc v →
          dueAt ⟨v, false⟩ = true → w ≤ v
    | none => ∀ v : ℤ, IsCounted zone e start countLimit v → Recurrence.Ahead d inc v →
        dueAt ⟨v, false⟩ = true → ⟨v, false⟩ ∉ e.listed n d inc := by
  induction n generalizing seen d inc with
  | zero => simp [Recurrence.countedScan, Recurrence.listed]
  | succ n ih =>
      cases ha : e.after d inc with
      | none => simp [Recurrence.countedScan, Recurrence.listed, ha]
      | some c =>
          obtain ⟨w, hw, hholds⟩ := e.reading ha
          by_cases hc : isValid zone c = true
          · obtain ⟨rfl, hslot⟩ := valid_slot from_start hw hholds hc
            obtain ⟨hcount, hbehind⟩ := behind_next hslot ha behind
            simp only [Recurrence.countedScan, ha, hc, Bool.not_true, Bool.false_eq_true, if_false]
            by_cases hlimit : countLimit < seen + 1
            · simp only [if_pos hlimit]
              exact fun v hv hva => absurd hva (used_up ha hcount hlimit hv)
            · simp only [if_neg hlimit]
              have hcounted : IsCounted zone e start countLimit w := by
                refine ⟨hslot, ?_⟩
                rw [hcount, Nat.cast_lt]
                omega
              by_cases hd : dueAt ⟨w, false⟩ = true
              · simp only [hd, if_true]
                refine ⟨w, rfl, hcounted, trivial, by simp [Recurrence.listed, ha], ?_⟩
                intro v hv hva _
                have hle : (w : ℚ) ≤ v := e.least ha v hv.1.holds hva
                exact Int.cast_le.mp hle
              · simp only [hd, if_false, Bool.false_eq_true]
                have hrest := ih (seen + 1) ⟨w, false⟩ false hbehind
                have hother : ∀ v : ℤ, IsCounted zone e start countLimit v →
                    Recurrence.Ahead d inc v → dueAt ⟨v, false⟩ = true →
                    Recurrence.Ahead ⟨w, false⟩ false v := by
                  intro v hv hva hvd
                  apply (hva.next ha hv.1.holds).resolve_left
                  intro heq
                  rw [heq] at hd
                  exact hd hvd
                cases hs : e.countedScan (isValid zone) dueAt countLimit n (seen + 1) ⟨w, false⟩
                    false with
                | some c' =>
                    rw [hs] at hrest
                    obtain ⟨u, hu, huc, hud, hul, hleast⟩ := hrest
                    exact ⟨u, hu, huc, hud, by simp [Recurrence.listed, ha, hul],
                      fun v hv hva hvd => hleast v hv (hother v hv hva hvd) hvd⟩
                | none =>
                    rw [hs] at hrest
                    intro v hv hva hvd hlisted
                    have hn := hother v hv hva hvd
                    simp only [Recurrence.listed, ha, List.mem_cons] at hlisted
                    rcases hlisted with heq | hlisted
                    · rw [← heq] at hd
                      exact hd hvd
                    · exact hrest v hv hn hvd hlisted
          · have hsame : ∀ v : ℤ, IsSlot zone e start v →
                (Recurrence.Ahead c false v ↔ Recurrence.Ahead d inc v) := by
              intro v hv
              refine ⟨Recurrence.Ahead.of_next ha, fun hva => ?_⟩
              rcases hva.next ha hv.holds with rfl | hn
              · exact absurd (by simp [isValid, hv.exists_]) hc
              · exact hn
            have hbehind : {v | IsSlot zone e start v ∧ ¬ Recurrence.Ahead c false v}.encard =
                seen := by
              rw [← behind]
              congr 1
              ext v
              exact and_congr_right fun hv => not_congr (hsame v hv)
            have hrest := ih seen c false hbehind
            simp only [Recurrence.countedScan, ha, hc, Bool.not_false, if_true]
            cases hs : e.countedScan (isValid zone) dueAt countLimit n seen c false with
            | some c' =>
                rw [hs] at hrest
                obtain ⟨u, hu, huc, hud, hul, hleast⟩ := hrest
                exact ⟨u, hu, huc, hud, by simp [Recurrence.listed, ha, hul],
                  fun v hv hva hvd => hleast v hv ((hsame v hv.1).mpr hva) hvd⟩
            | none =>
                rw [hs] at hrest
                intro v hv hva hvd hlisted
                simp only [Recurrence.listed, ha, List.mem_cons] at hlisted
                rcases hlisted with heq | hlisted
                · rw [← heq] at hc
                  exact hc (by simp [isValid, hv.1.exists_])
                · exact hrest v hv ((hsame v hv.1).mpr hva) hvd hlisted

theorem nextCounted_correct {countLimit : ℕ}
    (from_start : ∀ w : ℤ, e.holds w = true → start.clock ≤ w) :
    Correct (due (countedSlots zone e start countLimit) after inclusive)
        (.ok (nextCounted zone e countLimit start after inclusive)) ↔
      CountedSearched zone e start countLimit after inclusive := by
  have hahead : ∀ v : ℤ, IsSlot zone e start v → Recurrence.Ahead start true v := by
    intro v hv
    rcases hv.started.lt_or_eq with hlt | heq
    · exact Or.inl hlt
    · exact Or.inr ⟨rfl, heq⟩
  have hbehind : {v | IsSlot zone e start v ∧ ¬ Recurrence.Ahead start true v}.encard =
      (0 : ℕ) := by
    rw [Nat.cast_zero, Set.encard_eq_zero]
    exact Set.eq_empty_of_forall_notMem fun v hv => hv.2 (hahead v hv.1)
  have hspec := countedScan_spec (fun c => isDue after inclusive (timestamp zone c)) countLimit
    from_start maxRruleScan 0 start true hbehind
  rw [nextCounted, CountedSearched]
  cases hs : e.countedScan (isValid zone) (fun c => isDue after inclusive (timestamp zone c))
      countLimit maxRruleScan 0 start true with
  | some c =>
      rw [hs] at hspec
      obtain ⟨w, rfl, hcounted, hdue, hlisted, hleast⟩ := hspec
      have hmem : zone.instant w ∈ due (countedSlots zone e start countLimit) after inclusive :=
        ⟨⟨w, hcounted, rfl⟩, hdue⟩
      refine iff_of_true ⟨hmem, ?_⟩ fun _ => ⟨_, hlisted, ?_, hmem⟩
      · rintro t ⟨⟨v, hv, rfl⟩, htdue⟩
        have hle : (w : ℚ) ≤ v := Int.cast_le.mpr (hleast v hv (hahead v hv.1) htdue)
        exact (Zone.instant_le_instant hcounted.1.exists_ hv.1.exists_).mpr hle
      · simp [isValid, hcounted.1.exists_]
  | none =>
      rw [hs] at hspec
      constructor
      · intro hnone hsome
        rw [show due (countedSlots zone e start countLimit) after inclusive = ∅ from hnone] at hsome
        exact absurd hsome Set.not_nonempty_empty
      · intro hsearched
        by_contra hno
        obtain ⟨c, hlisted, hvalid, ⟨v, hv, htime⟩, hdue⟩ :=
          hsearched (Set.nonempty_iff_ne_empty.mpr hno)
        rw [isValid, Bool.and_eq_true, Bool.not_eq_true', decide_eq_true_eq] at hvalid
        have hclock : c.clock = v := by
          apply le_antisymm
          · exact (Zone.instant_le_instant hvalid.2 hv.1.exists_).mp htime.le
          · exact (Zone.instant_le_instant hv.1.exists_ hvalid.2).mp htime.ge
        have hc : c = ⟨v, false⟩ := by
          cases c
          cases hclock
          cases hvalid.1
          rfl
        rw [htime] at hdue
        exact hspec v hv (hahead v hv.1) hdue (hc ▸ hlisted)

end Rrule

/-! ## Every job -/

/-- What the search for the next occurrence of a job depends on. -/
def Job.Searched [Calendars] (job : Job) (after : ℚ) (inclusive : Bool) : Prop :=
  let zone := Calendars.zoneInfo job.timezoneName
  let start := zone.fromTimestamp (job.anchorValue.getD after)
  match job.kind with
  | .interval => True
  | .cron =>
      let hashed := cronHashId job.cronText job.hashName
      CronSearched zone (Calendars.croniter job.cronText hashed) hashed.isSome
        (job.anchorValue.getD after) after inclusive
  | .rrule =>
      match rruleCount job.rruleText with
      | some countLimit =>
          CountedSearched zone (Calendars.rrulestr (withoutCount job.rruleText) start) start
            countLimit after inclusive
      | none =>
          UncountedSearched zone (Calendars.rrulestr job.rruleText start) start after inclusive

theorem next_correct [Calendars] (job : Job) (after : ℚ) (inclusive : Bool) :
    Correct (due (job.slots after) after inclusive) (nextJobOccurrence job after inclusive) ↔
      job.Searched after inclusive := by
  rw [Job.slots, nextJobOccurrence, Job.Searched]
  cases job.kind with
  | interval => exact iff_of_true (nextInterval_correct _ _ _ _) trivial
  | cron => exact nextCron_correct
  | rrule =>
      cases rruleCount job.rruleText with
      | some countLimit => exact nextCounted_correct fun _ => Calendars.from_dtstart
      | none => exact nextUncounted_correct fun _ => Calendars.from_dtstart

/-- An anchored schedule has the same slots at every reference. -/
theorem Job.slots_anchored [Calendars] {job : Job} (anchored : job.anchorValue.isSome = true)
    (a b : ℚ) : job.slots a = job.slots b := by
  obtain ⟨anchor, hanchor⟩ := Option.isSome_iff_exists.mp anchored
  simp only [Job.slots, hanchor, Option.getD_some]

theorem finite_ints {S : Set ℚ} (whole : ∀ u ∈ S, ∃ n : ℤ, u = n) (a t : ℚ) :
    {u ∈ S | a < u ∧ u ≤ t}.Finite := by
  apply ((Set.finite_Icc ⌊a⌋ ⌊t⌋).image (Int.cast : ℤ → ℚ)).subset
  rintro u ⟨hu, ha, ht⟩
  obtain ⟨n, rfl⟩ := whole u hu
  refine ⟨n, ⟨?_, Int.le_floor.mpr ht⟩, rfl⟩
  exact Int.floor_le_iff.mpr (by linarith)

theorem finite_steps (anchorValue : Option ℚ) (intervalValue : Option ℤ) (a t : ℚ) :
    {u ∈ intervalSlots anchorValue intervalValue | a < u ∧ u ≤ t}.Finite := by
  cases anchorValue with
  | none =>
      apply Set.Finite.subset Set.finite_empty
      rintro u ⟨⟨anchor, hanchor, -⟩, -⟩
      cases hanchor
  | some anchor =>
      generalize hi : intervalValue.getD 0 = interval
      apply ((Set.finite_le_nat ⌈(t - anchor) / interval⌉₊).image
        fun k : ℕ => anchor + k * interval).subset
      rintro u ⟨⟨anchor', hanchor, hu⟩, -, ht⟩
      cases hanchor
      rw [hi] at hu
      rcases hu with ⟨-, rfl⟩ | ⟨hpos, k, rfl⟩
      · exact ⟨0, Nat.zero_le _, by simp⟩
      · have hposq : (0 : ℚ) < interval := Int.cast_pos.mpr hpos
        refine ⟨k, ?_, rfl⟩
        have hk : (k : ℚ) ≤ (t - anchor) / interval := by
          rw [le_div_iff₀ hposq]
          linarith
        exact Nat.cast_le.mp (hk.trans (Nat.le_ceil _))

/-- Between two times there are finitely many slots. -/
theorem Job.slots_finite [Calendars] (job : Job) (reference a t : ℚ) :
    {u ∈ job.slots reference | a < u ∧ u ≤ t}.Finite := by
  rw [Job.slots]
  cases job.kind with
  | interval => exact finite_steps _ _ a t
  | cron =>
      apply finite_ints
      rintro u ⟨w, -, rfl⟩
      exact Zone.instant_int w
  | rrule =>
      cases rruleCount job.rruleText with
      | some countLimit =>
          apply finite_ints
          rintro u ⟨w, -, rfl⟩
          exact Zone.instant_int w
      | none =>
          apply finite_ints
          rintro u ⟨w, -, rfl⟩
          exact Zone.instant_int w

/-! ## From one occurrence to the next -/

/-- The results of feeding each occurrence back as the reference. -/
def visited (next : ℚ → Except HTTPException (Option ℚ)) : ℕ → ℚ → List ℚ
  | 0, _ => []
  | n + 1, after =>
      match next after with
      | .ok (some t) => t :: visited next n t
      | _ => []

section Visits

variable {slots : Set ℚ} {next : ℚ → Except HTTPException (Option ℚ)} {a : ℚ}

/-- A later reference has no earlier occurrence. -/
theorem Correct.mono {b t : ℚ} {inclusive : Bool} {result : Except HTTPException (Option ℚ)}
    (le : a ≤ b) (earlier : Correct (due slots a inclusive) result)
    (later : IsLeast (due slots b inclusive) t) : ∃ u ≤ t, result = .ok (some u) := by
  have hmem : t ∈ due slots a inclusive := ⟨later.1.1, isDue_mono later.1.2 le le_rfl⟩
  cases result with
  | error e => exact earlier.elim
  | ok o =>
      cases o with
      | none =>
          rw [show due slots a inclusive = ∅ from earlier] at hmem
          exact hmem.elim
      | some u => exact ⟨u, earlier.2 hmem, rfl⟩

theorem due_exclusive {t : ℚ} : t ∈ due slots a false ↔ t ∈ slots ∧ a < t := by
  simp [due, isDue]

/-- Every occurrence is a slot after the reference, and they come in order. -/
theorem visited_ordered (correct : ∀ b, a ≤ b → Correct (due slots b false) (next b)) (n : ℕ) :
    (visited next n a).Pairwise (· < ·) ∧ ∀ t ∈ visited next n a, t ∈ slots ∧ a < t := by
  induction n generalizing a with
  | zero => simp [visited]
  | succ n ih =>
      have hfirst := correct a le_rfl
      rw [visited]
      cases hn : next a with
      | error e => simp
      | ok o =>
          cases o with
          | none => simp
          | some t =>
              rw [hn] at hfirst
              obtain ⟨hslot, hlt⟩ := due_exclusive.mp hfirst.1
              obtain ⟨horder, hrest⟩ := ih fun b hb => correct b (hlt.le.trans hb)
              refine ⟨List.pairwise_cons.mpr ⟨fun u hu => (hrest u hu).2, horder⟩, ?_⟩
              intro u hu
              rcases List.mem_cons.mp hu with rfl | hu
              · exact ⟨hslot, hlt⟩
              · exact ⟨(hrest u hu).1, hlt.trans (hrest u hu).2⟩

/-- Every slot after the reference is visited. -/
theorem slot_visited (correct : ∀ b, a ≤ b → Correct (due slots b false) (next b)) {t : ℚ}
    (slot : t ∈ slots) (after : a < t) (finite : {u ∈ slots | a < u ∧ u ≤ t}.Finite) :
    ∃ n, t ∈ visited next n a := by
  generalize hk : {u ∈ slots | a < u ∧ u ≤ t}.ncard = k
  -- by the number of slots up to it
  induction k using Nat.strong_induction_on generalizing a with
  | _ k ih =>
      have hfirst := correct a le_rfl
      cases hn : next a with
      | error e =>
          rw [hn] at hfirst
          exact hfirst.elim
      | ok o =>
          rw [hn] at hfirst
          cases o with
          | none =>
              have hmem : t ∈ due slots a false := due_exclusive.mpr ⟨slot, after⟩
              rw [show due slots a false = ∅ from hfirst] at hmem
              exact hmem.elim
          | some u =>
              obtain ⟨huslot, hau⟩ := due_exclusive.mp hfirst.1
              have hut : u ≤ t := hfirst.2 (due_exclusive.mpr ⟨slot, after⟩)
              rcases hut.lt_or_eq with hlt | rfl
              · have hsub : {v ∈ slots | u < v ∧ v ≤ t} ⊂ {v ∈ slots | a < v ∧ v ≤ t} := by
                  refine ⟨fun v hv => ⟨hv.1, hau.trans hv.2.1, hv.2.2⟩, fun hback => ?_⟩
                  exact absurd (hback ⟨huslot, hau, hut⟩).2.1 (lt_irrefl u)
                obtain ⟨n, hvisited⟩ := ih _ (hk ▸ Set.ncard_lt_ncard hsub finite)
                  (fun b hb => correct b (hau.le.trans hb)) hlt (finite.subset hsub.subset) rfl
                exact ⟨n + 1, by simp [visited, hn, hvisited]⟩
              · exact ⟨1, by simp [visited, hn]⟩

end Visits

/-- The next occurrence of a job is the least slot that is due exactly when the search sees what is
due. From references that are searched well a later one has no earlier occurrence, and feeding the
occurrences back visits every slot once and in order. -/
theorem next_occurrence_least_slot [Calendars] (job : Job) :
    (∀ after inclusive, Correct (due (job.slots after) after inclusive)
        (nextJobOccurrence job after inclusive) ↔ job.Searched after inclusive) ∧
    (job.anchorValue.isSome = true →
      (∀ a b inclusive, a ≤ b → job.Searched a inclusive → job.Searched b inclusive →
        ∀ t, nextJobOccurrence job b inclusive = .ok (some t) →
          ∃ u ≤ t, nextJobOccurrence job a inclusive = .ok (some u)) ∧
      ∀ a, (∀ b, a ≤ b → job.Searched b false) →
        (∀ n, (visited (nextJobOccurrence job · false) n a).Pairwise (· < ·) ∧
          ∀ t ∈ visited (nextJobOccurrence job · false) n a, t ∈ job.slots a ∧ a < t) ∧
        ∀ t ∈ job.slots a, a < t → ∃ n, t ∈ visited (nextJobOccurrence job · false) n a) := by
  refine ⟨next_correct job, fun anchored => ⟨?_, ?_⟩⟩
  · intro a b inclusive hle ha hb t ht
    have hb := (next_correct job b inclusive).mpr hb
    rw [ht, Job.slots_anchored anchored b a] at hb
    exact Correct.mono hle ((next_correct job a inclusive).mpr ha) hb
  · intro a hsearched
    have hcorrect : ∀ b, a ≤ b →
        Correct (due (job.slots a) b false) (nextJobOccurrence job b false) := by
      intro b hb
      rw [Job.slots_anchored anchored a b]
      exact (next_correct job b false).mpr (hsearched b hb)
    exact ⟨fun n => visited_ordered hcorrect n,
      fun t hslot hlt => slot_visited hcorrect hslot hlt (job.slots_finite a a t)⟩

/-! ## An anchor that is a slot -/

/-- The readings of `* * * * *`. -/
def everyMinute : CronRecurrence where
  holds w := w % 60 = 0
  after d inc :=
    if inc = true ∧ d.clock = ⌊d.clock⌋ ∧ ⌊d.clock⌋ % 60 = 0 then some ⟨d.clock, false⟩
    else some ⟨((⌊d.clock⌋ / 60 + 1) * 60 : ℤ), false⟩
  reading := by
    intro d inc c h
    split at h
    · rename_i hat
      cases h
      exact ⟨⌊d.clock⌋, hat.2.1, by simp [hat.2.2]⟩
    · cases h
      exact ⟨_, rfl, by simp⟩
  repeated := by
    intro d inc c h hf
    split at h <;> cases h <;> cases hf
  later := by
    intro d inc c h _
    split at h
    · rename_i hat
      cases h
      exact Or.inr ⟨hat.1, rfl⟩
    · cases h
      exact Or.inl (Int.floor_lt.mp (by omega))
  least := by
    intro d inc c h w hw hahead
    simp only [decide_eq_true_eq] at hw
    split at h
    · cases h
      rcases hahead with hlt | ⟨-, heq⟩
      · exact hlt.le
      · exact heq.le
    · rename_i hat
      cases h
      have hlt : ⌊d.clock⌋ < w := by
        rcases hahead with hlt | ⟨hinc, heq⟩
        · exact Int.floor_lt.mpr hlt
        · rw [heq, Int.floor_intCast] at hat
          exact absurd ⟨hinc, rfl, hw⟩ hat
      exact Int.cast_le.mpr (by omega)
  ended := by
    intro d inc h
    split at h <;> cases h
  expanded := ⟨[none], [none], none⟩
  requested := by
    intro w hw
    simp only [decide_eq_true_eq] at hw
    simp [CronFields.hasRequestedClock, cronClockFieldAllows, secondOf, hw]

/-- A rule without occurrences. -/
def never : Recurrence where
  holds _ := false
  after _ _ := none
  reading := nofun
  repeated := nofun
  later := nofun
  least := nofun
  ended := nofun

/-- Universal time alone, and `* * * * *` for every expression. -/
@[reducible] def minuteCalendars : Calendars where
  zoneInfo _ := ⟨0, [], trivial⟩
  croniter _ _ := everyMinute
  rrulestr _ _ := never
  from_dtstart := nofun

/-- A cron job anchored at a match a minute after the epoch. -/
def anchoredJob : Job where
  id := "job_minute"
  scheduleKind := "cron"
  scheduleStartAt := some 60
  scheduledRunAt := none
  nextRunAt := none
  intervalSeconds := none
  cronExpression := "* * * * *"
  rrule := ""
  timezone := "UTC"

/-- The slot at the anchor is due and the occurrence that is found is the one behind it. -/
theorem anchor_slot_missed :
    @nextJobOccurrence minuteCalendars anchoredJob 0 false = .ok (some 120) ∧
      60 ∈ due (@Job.slots minuteCalendars anchoredJob 0) 0 false := by
  have hkind : anchoredJob.kind = .cron := by decide +kernel
  have hhash : cronHashId anchoredJob.cronText anchoredJob.hashName = none := by decide +kernel
  refine ⟨?_, ?_, by decide⟩
  · have hfound : nextCron ⟨0, [], trivial⟩ everyMinute false 60 0 false = .ok (some 120) := by
      decide +kernel
    simp only [nextJobOccurrence, hkind, hhash]
    exact hfound
  · simp only [Job.slots, hkind]
    exact ⟨60, ⟨rfl, by decide +kernel, by decide +kernel⟩, by decide +kernel⟩

end AgentsServer.Schedules

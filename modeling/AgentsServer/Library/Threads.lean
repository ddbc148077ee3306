import AgentsServer.Library.Runs
import Mathlib.Data.Int.Cast.Lemmas
import Mathlib.Data.List.Basic

/-!
# Threads over a shared state

A world is a shared state and the calls in progress, each at some point of its code. A
move starts a call, or lets one call run its next section, which is atomic. What a
section learns from outside (a clock, a fault) is a parameter of the move.

A counter is exact when every section changes it by what the section takes or gives back.
What one call relies on holds throughout when its own sections and the sections of the
others keep it.
-/

namespace AgentsServer.Library.Threads

open Runs

variable {σ θ ι : Type*}

structure World (σ θ : Type*) where
  shared : σ
  threads : List θ

inductive Move (θ ι : Type*) where
  | call (t : θ)
  | turn (i : Nat) (input : ι)

/-- The section of one call: where the call stood and where it went. -/
structure Turn (θ : Type*) where
  left : θ
  reached : θ
  deriving DecidableEq

section Machine

variable (start : θ → Bool) (code : ι → σ → θ → Option (σ × θ))

/-- A call that cannot run its next section waits. -/
def step (w : World σ θ) : Move θ ι → World σ θ × Option (Turn θ)
  | .call t => if start t then (⟨w.shared, w.threads ++ [t]⟩, none) else (w, none)
  | .turn i input =>
      match w.threads[i]? with
      | none => (w, none)
      | some t =>
          match code input w.shared t with
          | none => (w, none)
          | some (s, t') => (⟨s, w.threads.set i t'⟩, some ⟨t, t'⟩)

/-- What a move does. -/
inductive Moves (w : World σ θ) : Move θ ι → World σ θ → Option (Turn θ) → Prop where
  | idle (m) : Moves w m w none
  | call (t) : start t = true → Moves w (.call t) ⟨w.shared, w.threads ++ [t]⟩ none
  | turn (i input t s t') : w.threads[i]? = some t → code input w.shared t = some (s, t') →
      Moves w (.turn i input) ⟨s, w.threads.set i t'⟩ (some ⟨t, t'⟩)

theorem step_moves (w : World σ θ) (m : Move θ ι) :
    Moves start code w m (step start code w m).1 (step start code w m).2 := by
  cases m with
  | call t =>
      by_cases h : start t = true
      · simp only [step, if_pos h]
        exact Moves.call t h
      · simp only [step, if_neg h]
        exact Moves.idle _
  | turn i input =>
      cases ht : w.threads[i]? with
      | none =>
          simp only [step, ht]
          exact Moves.idle _
      | some t =>
          cases hc : code input w.shared t with
          | none =>
              simp only [step, ht, hc]
              exact Moves.idle _
          | some next =>
              simp only [step, ht, hc]
              exact Moves.turn i input t next.1 next.2 ht hc

variable {start code}

/-- A section that ran, read off the outcome of its move. -/
theorem step_turn {w : World σ θ} {m : Move θ ι} {r : Turn θ}
    (h : (step start code w m).2 = some r) :
    ∃ i input s, m = .turn i input ∧ w.threads[i]? = some r.left ∧
      code input w.shared r.left = some (s, r.reached) ∧
      (step start code w m).1 = ⟨s, w.threads.set i r.reached⟩ := by
  have hmoves := step_moves start code w m
  rw [h] at hmoves
  generalize (step start code w m).1 = w' at hmoves
  cases hmoves with
  | turn i input t s t' ht hc => exact ⟨i, input, s, rfl, ht, hc, rfl⟩

end Machine

section Lists

variable {threads : List θ} {i : Nat} {t t' : θ}

theorem mem_of_getElem? (h : threads[i]? = some t) : t ∈ threads :=
  List.mem_of_getElem? h

/-- A call after a move is the one that moved, or was there before. -/
theorem mem_set {u : θ} (h : u ∈ threads.set i t') : u = t' ∨ u ∈ threads :=
  (List.mem_or_eq_of_mem_set h).symm

/-- The number of calls at a point changes only by the one that moved. -/
theorem countP_set (p : θ → Bool) (t' : θ) (h : threads[i]? = some t) :
    (threads.set i t').countP p + (if p t then 1 else 0) =
      threads.countP p + (if p t' then 1 else 0) := by
  obtain ⟨hlt, hget⟩ := List.getElem?_eq_some_iff.mp h
  rw [List.countP_set hlt, hget]
  have hpos : p t = true → 1 ≤ threads.countP p := by
    intro hp
    exact List.countP_pos_iff.mpr ⟨t, mem_of_getElem? h, hp⟩
  by_cases hp : p t = true
  · have hone := hpos hp
    rw [if_pos hp]
    omega
  · rw [if_neg hp]
    omega

end Lists

section Counters

variable {start : θ → Bool} {code : ι → σ → θ → Option (σ × θ)}

/-- A counter of the shared state is the number of calls that hold a unit of it. -/
def Exact (count : σ → Int) (holds : θ → Bool) (w : World σ θ) : Prop :=
  count w.shared = w.threads.countP holds

/-- A counter stays exact when a new call holds nothing and a section changes it by what
the call takes or gives back. A call that holds a unit knows the counter is positive. -/
theorem Exact.step (count : σ → Int) (holds : θ → Bool)
    (fresh : ∀ t, start t = true → holds t = false)
    (balanced : ∀ input s t s' t', code input s t = some (s', t') →
      (holds t = true → 1 ≤ count s) → (0 ≤ count s) →
      count s' + (if holds t then 1 else 0) = count s + (if holds t' then 1 else 0))
    (w : World σ θ) (m : Move θ ι) (h : Exact count holds w) :
    Exact count holds (step start code w m).1 := by
  have hmoves := step_moves start code w m
  generalize (Threads.step start code w m).1 = w' at hmoves
  generalize (Threads.step start code w m).2 = o at hmoves
  unfold Exact at h ⊢
  cases hmoves with
  | idle => exact h
  | call t ht =>
      rw [List.countP_append, List.countP_singleton, fresh t ht]
      simpa using h
  | turn i input t s t' ht hc =>
      have hheld : holds t = true → 1 ≤ count w.shared := by
        intro hp
        have hpos : 0 < w.threads.countP holds :=
          List.countP_pos_iff.mpr ⟨t, mem_of_getElem? ht, hp⟩
        omega
      have hchange := balanced input w.shared t s t' hc hheld (by omega)
      have hcount : ((w.threads.set i t').countP holds : Int) + (if holds t then 1 else 0) =
          w.threads.countP holds + (if holds t' then 1 else 0) := by
        have hnat := congrArg (Nat.cast (R := Int)) (countP_set holds t' ht)
        simpa using hnat
      change count s = ((w.threads.set i t').countP holds : Int)
      omega

/-- A call that holds a unit is counted. -/
theorem Exact.held {count : σ → Int} {holds : θ → Bool} {w : World σ θ}
    (h : Exact count holds w) {t : θ} (ht : t ∈ w.threads) (hp : holds t = true) :
    1 ≤ count w.shared := by
  have hpos : 0 < w.threads.countP holds := List.countP_pos_iff.mpr ⟨t, ht, hp⟩
  rw [h]
  omega

theorem Exact.nonneg {count : σ → Int} {holds : θ → Bool} {w : World σ θ}
    (h : Exact count holds w) : 0 ≤ count w.shared := by
  rw [h]
  omega

/-- An exact counter is zero when no call holds a unit of it, and only then. -/
theorem Exact.zero_iff {count : σ → Int} {holds : θ → Bool} {w : World σ θ}
    (h : Exact count holds w) : count w.shared = 0 ↔ ∀ t ∈ w.threads, holds t = false := by
  rw [h, Int.natCast_eq_zero, List.countP_eq_zero]
  simp

end Counters

section Reliance

variable {start : θ → Bool} {code : ι → σ → θ → Option (σ × θ)}

/-- The shared state meets an invariant, and every call meets what it relies on. -/
structure Reliable (I : σ → Prop) (P : σ → θ → Prop) (w : World σ θ) : Prop where
  shared : I w.shared
  threads : ∀ t ∈ w.threads, P w.shared t

/-- What a call relies on is established by its own sections and kept by those of the
other calls. -/
theorem Reliable.step (I : σ → Prop) (P : σ → θ → Prop)
    (fresh : ∀ s t, start t = true → P s t)
    (own : ∀ input s t s' t', code input s t = some (s', t') → I s → P s t → I s' ∧ P s' t')
    (others : ∀ input s t s' t' u, code input s t = some (s', t') → I s → P s t → P s u →
      P s' u)
    (w : World σ θ) (m : Move θ ι) (h : Reliable I P w) :
    Reliable I P (step start code w m).1 := by
  have hmoves := step_moves start code w m
  generalize (Threads.step start code w m).1 = w' at hmoves
  generalize (Threads.step start code w m).2 = o at hmoves
  cases hmoves with
  | idle => exact h
  | call t ht =>
      refine ⟨h.shared, ?_⟩
      intro u hu
      rcases List.mem_append.mp hu with hu | hu
      · exact h.threads u hu
      · rw [List.mem_singleton.mp hu]
        exact fresh _ t ht
  | turn i input t s t' ht hc =>
      have hP := h.threads t (mem_of_getElem? ht)
      obtain ⟨hI, hown⟩ := own input w.shared t s t' hc h.shared hP
      refine ⟨hI, ?_⟩
      intro u hu
      rcases mem_set hu with rfl | hu
      · exact hown
      · exact others input w.shared t s t' u hc h.shared hP (h.threads u hu)

end Reliance

end AgentsServer.Library.Threads

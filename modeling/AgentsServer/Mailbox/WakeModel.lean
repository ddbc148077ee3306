import AgentsServer.Mailbox.Changes
import Mathlib.Logic.Function.Basic

/-!
# The wake state of one chat

What the wake row of a chat says, as a function of the chat: two counters and
at most one pending reservation. Each wake operation updates this function at
one chat, and everything else leaves it alone.
-/

namespace AgentsServer.Mailbox

open Library Library.Runs

/-- The wake state of a chat. A pending reservation is its claim and cutoff. -/
structure Wake where
  attempt : Nat
  suppressed : Nat
  pending : Option (String × Nat)

def Wake.cutoff (w : Wake) : Nat :=
  max w.attempt w.suppressed

def Wake.drop (w : Wake) : Wake :=
  { w with pending := none }

def WakeRow.view (w : WakeRow) : Wake where
  attempt := w.lastAttemptSeq
  suppressed := w.suppressedSeq
  pending := if w.state = some .reserved then w.claimId.map (·, w.throughSeq) else none

/-- The wake state of a chat, all zero when it has no row yet. -/
def Ledger.wakeOf (db : Ledger) (target : String) : Wake :=
  ((db.wake? target).map WakeRow.view).getD ⟨0, 0, none⟩

structure WakeInv (db : Ledger) : Prop where
  targets : (db.wakes.map WakeRow.targetSessionId).Nodup
  issued : ∀ t c v, (db.wakeOf t).pending = some (c, v) → c ∈ db.issuedClaims
  unique : ∀ t t' c v v', (db.wakeOf t).pending = some (c, v) →
    (db.wakeOf t').pending = some (c, v') → t = t'

theorem WakeInv.empty : WakeInv Ledger.empty := by
  constructor <;> simp [Ledger.empty, Ledger.wakeOf, Ledger.wake?, Tables.find]

variable {db db' : Ledger}

theorem wake?_target {t : String} {w : WakeRow} (h : db.wake? t = some w) :
    w ∈ db.wakes ∧ w.targetSessionId = t :=
  Tables.find_mem h

theorem wakeOf_congr (h : db'.wakes = db.wakes) : db'.wakeOf = db.wakeOf := by
  funext t
  simp only [Ledger.wakeOf, Ledger.wake?, h]

/-- A row update that keeps the targets, seen from each chat. -/
theorem wake?_map {f : WakeRow → WakeRow} (keep : ∀ w, (f w).targetSessionId = w.targetSessionId)
    (h : db'.wakes = db.wakes.map f) (t : String) : db'.wake? t = (db.wake? t).map f := by
  simp only [Ledger.wake?, h, Tables.find_map keep]

/-- An upsert changes the row of its own chat. -/
theorem wake?_upsert (db : Ledger) (target : String) (fresh : WakeRow)
    (change : WakeRow → WakeRow)
    (hf : fresh.targetSessionId = target)
    (keep : ∀ w, (change w).targetSessionId = w.targetSessionId) (t : String) :
    (upsertWake db target fresh change).wake? t =
      if t = target then some (((db.wake? target).map change).getD fresh) else db.wake? t := by
  unfold upsertWake
  by_cases hany : (db.wakes.any fun w => w.targetSessionId = target) = true
  · rw [if_pos hany, wake?_map (f := fun w => if w.targetSessionId = target then change w else w)
      (fun w => by split <;> simp [keep]) rfl t]
    cases hw : db.wake? t with
    | none =>
        by_cases ht : t = target
        · subst ht
          obtain ⟨w, hmem, hwt⟩ := List.any_eq_true.mp hany
          exact absurd (by simpa using hwt) (Tables.find_eq_none.mp hw w hmem)
        · simp [ht]
    | some w =>
        have hwt := (wake?_target hw).2
        by_cases ht : t = target
        · subst ht
          simp [hw, hwt]
        · simp [ht, hwt]
  · rw [if_neg hany]
    have hnone : db.wake? target = none := by
      rw [Ledger.wake?, Tables.find_eq_none]
      simpa using hany
    rw [Ledger.wake?, Tables.find_append]
    by_cases ht : t = target
    · subst ht
      rw [show Tables.find WakeRow.targetSessionId db.wakes t = none from hnone, hnone]
      simp [Tables.find, hf]
    · have hother : Tables.find WakeRow.targetSessionId [fresh] t = none := by
        rw [Tables.find_eq_none]
        intro w hw
        rw [List.mem_singleton.mp hw, hf]
        exact fun he => ht he.symm
      simp [ht, hother, Ledger.wake?]

theorem upsert_targets (db : Ledger) (target : String) (fresh : WakeRow)
    (change : WakeRow → WakeRow)
    (hf : fresh.targetSessionId = target)
    (keep : ∀ w, (change w).targetSessionId = w.targetSessionId)
    (h : (db.wakes.map WakeRow.targetSessionId).Nodup) :
    ((upsertWake db target fresh change).wakes.map WakeRow.targetSessionId).Nodup := by
  unfold upsertWake
  split
  · rw [Tables.map_keys]
    · exact h
    · intro w
      split
      · exact keep w
      · rfl
  · next hany =>
      apply Tables.nodup_append_row h
      intro w hw
      rw [hf]
      simp only [List.any_eq_true, decide_eq_true_eq, not_exists, not_and] at hany
      exact hany w hw

/-! ## The operations -/

/-- A row that holds a claim is the pending reservation of its chat. -/
theorem pending_iff (h : (db.wakes.map WakeRow.targetSessionId).Nodup) {target claimId : String}
    {w : WakeRow} (hw : w ∈ db.wakes) :
    holdsClaim target claimId w = true ↔
      db.wake? target = some w ∧ (db.wakeOf target).pending = some (claimId, w.throughSeq) := by
  simp only [holdsClaim, Bool.and_eq_true, beq_iff_eq]
  constructor
  · rintro ⟨⟨rfl, hc⟩, hs⟩
    have hfind : db.wake? w.targetSessionId = some w := Tables.find_of_mem h hw
    exact ⟨hfind, by simp [Ledger.wakeOf, hfind, WakeRow.view, hs, hc]⟩
  · rintro ⟨hfind, hp⟩
    have ht := (wake?_target hfind).2
    simp only [Ledger.wakeOf, hfind, Option.map_some, Option.getD_some, WakeRow.view] at hp
    by_cases hs : w.state = some .reserved
    · rw [if_pos hs, Option.map_eq_some_iff] at hp
      obtain ⟨c, hc, he⟩ := hp
      rw [Prod.mk.injEq] at he
      exact ⟨⟨ht, by rw [hc, he.1]⟩, hs⟩
    · rw [if_neg hs] at hp
      cases hp

/-- An update of the row that holds a claim, seen from each chat. -/
theorem wakeOf_claimed (db db' : Ledger) {target claimId : String} (change : WakeRow → WakeRow) {v : Nat}
    (hn : (db.wakes.map WakeRow.targetSessionId).Nodup)
    (keep : ∀ w, (change w).targetSessionId = w.targetSessionId)
    (h : db'.wakes = db.wakes.map fun w => if holdsClaim target claimId w then change w else w)
    {w : WakeRow} (hw : db.wake? target = some w)
    (hp : (db.wakeOf target).pending = some (claimId, v)) :
    db'.wakeOf = Function.update db.wakeOf target (change w).view := by
  have hall : ∀ w : WakeRow, (if holdsClaim target claimId w = true then change w else w).targetSessionId =
      w.targetSessionId := by
    intro w
    split
    · exact keep w
    · rfl
  funext t
  rw [Ledger.wakeOf, wake?_map hall h]
  by_cases ht : t = target
  · subst ht
    have hthrough : v = w.throughSeq := by
      simp only [Ledger.wakeOf, hw, Option.map_some, Option.getD_some, WakeRow.view] at hp
      by_cases hs : w.state = some .reserved
      · rw [if_pos hs, Option.map_eq_some_iff] at hp
        obtain ⟨c, _, he⟩ := hp
        exact (congrArg Prod.snd he).symm
      · rw [if_neg hs] at hp
        cases hp
    subst hthrough
    have hhold := (pending_iff hn (wake?_target hw).1).mpr ⟨hw, hp⟩
    rw [Function.update_self, hw]
    simp [hhold]
  · rw [Function.update_of_ne ht]
    cases hwt : db.wake? t with
    | none => simp [Ledger.wakeOf, hwt]
    | some w' =>
        have hnot : ¬ holdsClaim target claimId w' = true := by
          intro hc
          simp only [holdsClaim, Bool.and_eq_true, beq_iff_eq] at hc
          exact ht ((wake?_target hwt).2.symm.trans hc.1.1)
        simp [Ledger.wakeOf, hwt, hnot]

/-- A row whose reservation is dropped shows the dropped state. -/
theorem view_unclaim (w : WakeRow) : w.unclaim.view = w.view.drop := by
  simp [WakeRow.view, WakeRow.unclaim, Wake.drop]

/-- A row without a reservation is not changed by dropping it. -/
theorem view_drop_of_free {w : WakeRow} (h : w.state ≠ some .reserved) : w.view.drop = w.view := by
  simp [WakeRow.view, Wake.drop, h]

/-- Dropping some reservations, seen from each chat. -/
theorem wakeOf_dropped (hit : WakeRow → Prop) [DecidablePred hit]
    (h : db'.wakes = db.wakes.map fun w => if hit w then w.unclaim else w) (t : String) :
    db'.wakeOf t = db.wakeOf t ∨ db'.wakeOf t = (db.wakeOf t).drop := by
  rw [Ledger.wakeOf, wake?_map (fun w => by split <;> rfl) h, Ledger.wakeOf]
  cases db.wake? t with
  | none => exact Or.inl rfl
  | some w =>
      by_cases hh : hit w
      · right
        simp [hh, view_unclaim]
      · left
        simp [hh]

theorem recoverWakes_view (db : Ledger) :
    (∀ t, (recoverWakes db).2.wakeOf t = db.wakeOf t ∨
        (recoverWakes db).2.wakeOf t = (db.wakeOf t).drop) ∧
      (recoverWakes db).2.issuedClaims = db.issuedClaims ∧
      (recoverWakes db).2.wakes.map WakeRow.targetSessionId =
        db.wakes.map WakeRow.targetSessionId := by
  refine ⟨fun t => wakeOf_dropped (fun w => w.state = some .reserved) rfl t, rfl, ?_⟩
  exact Tables.map_keys fun w => by split <;> rfl

variable [CharacterTables]

theorem claimWake_view {target : String} {allowed : List String} {now : IsoTime} {uuid : UuidHex}
    {out : Option WakeRow} (h : claimWake db target allowed now uuid = .ok (out, db')) :
    (out = none ∧ db' = db) ∨
      ∃ c v w, c ∉ db.issuedClaims ∧ db'.issuedClaims = c :: db.issuedClaims ∧
        (db.wakeOf target).pending = none ∧
        db'.wakeOf = Function.update db.wakeOf target
          { db.wakeOf target with pending := some (c, v) } ∧
        out = some w ∧ w.claimId = some c ∧
        ((db.wakes.map WakeRow.targetSessionId).Nodup →
          (db'.wakes.map WakeRow.targetSessionId).Nodup) := by
  simp only [claimWake, bind_eq_ok] at h
  obtain ⟨scope, hscope, h⟩ := h
  split at h
  · simp only [pure_eq_ok, Prod.mk.injEq] at h
    exact Or.inl ⟨h.1.symm, h.2.symm⟩
  next hstate =>
  split at h
  · simp only [pure_eq_ok, Prod.mk.injEq] at h
    exact Or.inl ⟨h.1.symm, h.2.symm⟩
  simp only [bind_eq_ok, require_eq_ok, pure_eq_ok, Prod.mk.injEq] at h
  obtain ⟨_, hfresh, hout, hdb⟩ := h
  set c := "mailwake_" ++ uuid.text
  set v := maxSeq db (unreadAfter scope (((db.wake? target).map WakeRow.cutoff).getD 0))
  set claim := fun w : WakeRow => { w with
    claimId := some c, throughSeq := v, state := some WakeState.reserved, runId := none,
    updatedAt := now.text } with hclaim
  have keep : ∀ w, (claim w).targetSessionId = w.targetSessionId := fun _ => rfl
  have hrow : ∀ t, db'.wake? t = if t = target then
      some (((db.wake? target).map claim).getD (claim (blankWake target now))) else db.wake? t := by
    intro t
    rw [← hdb]
    exact wake?_upsert { db with issuedClaims := c :: db.issuedClaims } target
      (claim (blankWake target now)) claim rfl keep t
  have hpending : (db.wakeOf target).pending = none := by
    unfold Ledger.wakeOf
    cases hw : db.wake? target with
    | none => rfl
    | some w =>
        rw [hw] at hstate
        simp only [Option.map_some, Option.getD_some, WakeRow.view]
        exact if_neg hstate
  refine Or.inr ⟨c, v, ((db.wake? target).map claim).getD (claim (blankWake target now)), hfresh,
    ?_, hpending, ?_, ?_, ?_, ?_⟩
  · rw [← hdb]
    unfold upsertWake
    split <;> rfl
  · funext t
    by_cases ht : t = target
    · subst ht
      rw [Function.update_self, Ledger.wakeOf, hrow, if_pos rfl]
      cases hw : db.wake? t with
      | none => simp [Ledger.wakeOf, hw, WakeRow.view, hclaim, blankWake]
      | some w => simp [Ledger.wakeOf, hw, WakeRow.view, hclaim]
    · rw [Function.update_of_ne ht, Ledger.wakeOf, hrow, if_neg ht]
      rfl
  · rw [← hout, hdb, hrow, if_pos rfl]
  · cases db.wake? target <;> rfl
  · intro hn
    rw [← hdb]
    exact upsert_targets { db with issuedClaims := c :: db.issuedClaims } target
      (claim (blankWake target now)) claim rfl keep hn

theorem admitWake_view {target claimId runId : String} {allowed : List String} {now : IsoTime}
    {b : Bool} (hn : (db.wakes.map WakeRow.targetSessionId).Nodup)
    (h : admitWake db target claimId runId allowed now = .ok (b, db')) :
    (b = false ∧ db' = db) ∨
      (b = true ∧ ∃ v, (db.wakeOf target).pending = some (claimId, v) ∧
        db'.wakeOf = Function.update db.wakeOf target
          { db.wakeOf target with attempt := max (db.wakeOf target).attempt v, pending := none } ∧
        ((db.wake? target).map WakeRow.throughSeq) = some v ∧
        db'.issuedClaims = db.issuedClaims ∧
        (db'.wakes.map WakeRow.targetSessionId).Nodup ∧
        ∃ row ∈ db.join, (Scope.mk target none allowed).admits row = true ∧
          row.1.readAt = none ∧ (db.wakeOf target).cutoff < row.1.mailboxSeq ∧
          row.1.mailboxSeq ≤ v) := by
  simp only [admitWake, bind_eq_ok] at h
  obtain ⟨scope, hscope, c, hc, r, hr, h⟩ := h
  obtain ⟨rfl, _⟩ := identifier_eq_ok hc
  obtain ⟨rfl, _⟩ := identifier_eq_ok hr
  obtain rfl := scope_none_eq_ok hscope
  split at h
  · simp only [pure_eq_ok, Prod.mk.injEq] at h
    exact Or.inl ⟨h.1.symm, h.2.symm⟩
  next w hfind =>
  have hmem := List.mem_of_find?_eq_some hfind
  have hhold := List.find?_some hfind
  obtain ⟨hw, hp⟩ := (pending_iff hn hmem).mp hhold
  split at h
  · next hany =>
      simp only [pure_eq_ok, Prod.mk.injEq] at h
      obtain ⟨hb, hdb⟩ := h
      have hone : db.wakes.countP (holdsClaim target c) = 1 := by
        apply Tables.countP_key_eq_one hn hmem hhold
        intro old _ ho
        simp only [holdsClaim, Bool.and_eq_true, beq_iff_eq] at ho hhold
        rw [ho.1.1, hhold.1.1]
      rw [hone] at hb
      obtain ⟨row, hrow, hcond⟩ := List.any_eq_true.mp hany
      simp only [unreadAfter, Bool.and_eq_true, decide_eq_true_eq, Option.isNone_iff_eq_none]
        at hcond
      refine Or.inr ⟨by simpa using hb.symm, w.throughSeq, hp, ?_, by rw [hw]; rfl,
        by rw [← hdb], ?_, row, hrow, hcond.1.1.1, hcond.1.1.2, ?_, hcond.2⟩
      · rw [wakeOf_claimed db db' (fun w => { w with
          state := some .admitted, runId := some r,
          lastAttemptSeq := max w.lastAttemptSeq w.throughSeq, updatedAt := now.text })
          hn (fun _ => rfl) (by rw [← hdb]) hw hp]
        simp [Ledger.wakeOf, hw, WakeRow.view]
      · rw [← hdb, Tables.map_keys]
        · exact hn
        · intro w'
          split <;> rfl
      · have hcut : (db.wakeOf target).cutoff = w.cutoff := by
          simp [Ledger.wakeOf, hw, Wake.cutoff, WakeRow.cutoff, WakeRow.view]
        rw [hcut]
        exact hcond.1.2
  · simp only [pure_eq_ok, Prod.mk.injEq] at h
    exact Or.inl ⟨h.1.symm, h.2.symm⟩

theorem releaseWake_view {target claimId : String} {b : Bool}
    (h : releaseWake db target claimId = .ok (b, db')) :
    (∀ t, db'.wakeOf t = db.wakeOf t ∨ db'.wakeOf t = (db.wakeOf t).drop) ∧
      db'.issuedClaims = db.issuedClaims ∧
      db'.wakes.map WakeRow.targetSessionId = db.wakes.map WakeRow.targetSessionId := by
  simp only [releaseWake, bind_eq_ok, pure_eq_ok, Prod.mk.injEq] at h
  obtain ⟨t, _, c, _, _, rfl⟩ := h
  refine ⟨fun t' => wakeOf_dropped (fun w => holdsClaim t c w = true) rfl t', rfl, ?_⟩
  exact Tables.map_keys fun w => by split <;> rfl

theorem suppressWake_view {target : String} {now : IsoTime} {n : Nat}
    (h : suppressWake db target now = .ok (n, db')) :
    (∃ v, n = max (db.wakeOf target).suppressed v ∧
      db'.wakeOf = Function.update db.wakeOf target
        { db.wakeOf target with suppressed := n, pending := none }) ∧
      db'.issuedClaims = db.issuedClaims ∧
      ((db.wakes.map WakeRow.targetSessionId).Nodup →
        (db'.wakes.map WakeRow.targetSessionId).Nodup) := by
  simp only [suppressWake, bind_eq_ok, pure_eq_ok, Prod.mk.injEq] at h
  obtain ⟨t, ht, hn, hdb⟩ := h
  obtain ⟨rfl, _⟩ := identifier_eq_ok ht
  set v := maxSeq db (unreadOf t) with hv
  set fresh := { blankWake t now with suppressedSeq := v } with hfresh
  set raise := fun w : WakeRow =>
    { w with suppressedSeq := max w.suppressedSeq v, updatedAt := now.text } with hraise
  set mid := upsertWake db t fresh raise with hmid
  have hrow : ∀ t', mid.wake? t' = if t' = t then
      some (((db.wake? t).map raise).getD fresh) else db.wake? t' :=
    fun t' => wake?_upsert db t fresh raise rfl (fun _ => rfl) t'
  have hlast : ∀ t', db'.wake? t' = (mid.wake? t').map fun w =>
      if w.targetSessionId = t ∧ w.state = some .reserved then w.unclaim else w := by
    intro t'
    exact wake?_map (fun w => by split <;> rfl) (by rw [← hdb]) t'
  have hissued : mid.issuedClaims = db.issuedClaims := by
    rw [hmid]
    unfold upsertWake
    split <;> rfl
  -- The row of the chat after the upsert and after the reservation is dropped.
  have hview : ∀ w, mid.wake? t = some w →
      db'.wakeOf t = w.view.drop ∧ n = w.suppressedSeq := by
    intro w hw
    have htarget := (wake?_target hw).2
    have hd := hlast t
    rw [hw, Option.map_some] at hd
    have hn' : n = ((db'.wake? t).map WakeRow.suppressedSeq).getD 0 := by
      rw [← hn, ← hdb]
    rw [hn', Ledger.wakeOf, hd]
    by_cases hs : w.state = some .reserved
    · rw [if_pos ⟨htarget, hs⟩]
      exact ⟨view_unclaim w, rfl⟩
    · rw [if_neg (fun hc => hs hc.2)]
      exact ⟨(view_drop_of_free hs).symm, rfl⟩
  have hself := hrow t
  rw [if_pos rfl] at hself
  obtain ⟨hw', hn'⟩ := hview _ hself
  have hcase : n = max (db.wakeOf t).suppressed v ∧ db'.wakeOf t =
      { db.wakeOf t with suppressed := n, pending := none } := by
    rw [hw', hn']
    cases hw : db.wake? t with
    | none => simp [Ledger.wakeOf, hw, WakeRow.view, Wake.drop, hfresh, blankWake]
    | some w => simp [Ledger.wakeOf, hw, WakeRow.view, Wake.drop, hraise]
  refine ⟨⟨v, hcase.1, ?_⟩, ?_, ?_⟩
  · funext t'
    by_cases htt : t' = t
    · subst htt
      rw [Function.update_self]
      exact hcase.2
    · rw [Function.update_of_ne htt, Ledger.wakeOf, hlast, hrow, if_neg htt, Ledger.wakeOf]
      cases hw : db.wake? t' with
      | none => rfl
      | some w =>
          have hne : w.targetSessionId ≠ t := by
            rw [(wake?_target hw).2]
            exact htt
          rw [Option.map_some, if_neg (fun hc => hne hc.1)]
  · rw [← hdb]
    exact hissued
  · intro hnodup
    rw [← hdb, Tables.map_keys (fun w => by split <;> rfl)]
    exact upsert_targets db t fresh raise rfl (fun _ => rfl) hnodup

end AgentsServer.Mailbox

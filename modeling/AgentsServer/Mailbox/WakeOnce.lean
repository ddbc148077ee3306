import AgentsServer.Mailbox.WakeModel
import Mathlib.Tactic.Common

/-!
# A wake is admitted at most once

Counters only grow, a claim id is reserved once, and a claim that was admitted,
released or suppressed is never admitted again.
-/

namespace AgentsServer.Mailbox

open Library Library.Runs

variable {db db' : Ledger}

/-- What a call can do to the wake state of all chats. -/
structure WakeAdvance (db db' : Ledger) : Prop where
  targets : (db.wakes.map WakeRow.targetSessionId).Nodup →
    (db'.wakes.map WakeRow.targetSessionId).Nodup
  issued : ∀ c ∈ db.issuedClaims, c ∈ db'.issuedClaims
  attempt : ∀ t, (db.wakeOf t).attempt ≤ (db'.wakeOf t).attempt
  suppressed : ∀ t, (db.wakeOf t).suppressed ≤ (db'.wakeOf t).suppressed
  /-- A reservation is an old one, or the only change is a fresh claim. -/
  pending : ∀ t c v, (db'.wakeOf t).pending = some (c, v) →
    (db.wakeOf t).pending = some (c, v) ∨
      (c ∉ db.issuedClaims ∧ c ∈ db'.issuedClaims ∧ ∀ t' ≠ t, db'.wakeOf t' = db.wakeOf t')

theorem WakeAdvance.frame (wakes : db'.wakes = db.wakes)
    (issued : db'.issuedClaims = db.issuedClaims) : WakeAdvance db db' := by
  have hview := wakeOf_congr wakes
  refine ⟨?_, ?_, ?_, ?_, ?_⟩
  · rw [wakes]
    exact id
  · rw [issued]
    exact fun _ => id
  · intro t
    rw [hview]
  · intro t
    rw [hview]
  · intro t c v hp
    rw [hview] at hp
    exact Or.inl hp

/-- Reservations that are dropped, and nothing else. -/
theorem WakeAdvance.dropped
    (views : ∀ t, db'.wakeOf t = db.wakeOf t ∨ db'.wakeOf t = (db.wakeOf t).drop)
    (issued : db'.issuedClaims = db.issuedClaims)
    (keys : db'.wakes.map WakeRow.targetSessionId = db.wakes.map WakeRow.targetSessionId) :
    WakeAdvance db db' := by
  refine ⟨?_, ?_, ?_, ?_, ?_⟩
  · rw [keys]
    exact id
  · rw [issued]
    exact fun _ => id
  · intro t
    rcases views t with h | h <;> rw [h]
    exact Nat.le_refl _
  · intro t
    rcases views t with h | h <;> rw [h]
    exact Nat.le_refl _
  · intro t c v hp
    rcases views t with h | h <;> rw [h] at hp
    · exact Or.inl hp
    · cases hp

/-- A new state of one chat with larger counters and no reservation. -/
theorem WakeAdvance.settled {target : String} {w : Wake}
    (views : db'.wakeOf = Function.update db.wakeOf target w)
    (issued : db'.issuedClaims = db.issuedClaims)
    (targets : (db.wakes.map WakeRow.targetSessionId).Nodup →
      (db'.wakes.map WakeRow.targetSessionId).Nodup)
    (attempt : (db.wakeOf target).attempt ≤ w.attempt)
    (suppressed : (db.wakeOf target).suppressed ≤ w.suppressed) (free : w.pending = none) :
    WakeAdvance db db' := by
  refine ⟨targets, ?_, ?_, ?_, ?_⟩
  · rw [issued]
    exact fun _ => id
  · intro t
    rw [views]
    by_cases ht : t = target
    · subst ht
      rwa [Function.update_self]
    · rw [Function.update_of_ne ht]
  · intro t
    rw [views]
    by_cases ht : t = target
    · subst ht
      rwa [Function.update_self]
    · rw [Function.update_of_ne ht]
  · intro t c v hp
    rw [views] at hp
    by_cases ht : t = target
    · subst ht
      rw [Function.update_self, free] at hp
      cases hp
    · rw [Function.update_of_ne ht] at hp
      exact Or.inl hp

theorem WakeInv.advance (h : WakeInv db) (ha : WakeAdvance db db') : WakeInv db' := by
  have old : ∀ t c v, (db'.wakeOf t).pending = some (c, v) → c ∈ db.issuedClaims →
      (db.wakeOf t).pending = some (c, v) := by
    intro t c v hp hc
    rcases ha.pending t c v hp with hold | ⟨hfresh, _⟩
    · exact hold
    · exact absurd hc hfresh
  refine ⟨ha.targets h.targets, ?_, ?_⟩
  · intro t c v hp
    rcases ha.pending t c v hp with hold | ⟨_, hin, _⟩
    · exact ha.issued c (h.issued t c v hold)
    · exact hin
  · intro t t' c v v' hp hp'
    by_cases hc : c ∈ db.issuedClaims
    · exact h.unique t t' c v v' (old t c v hp hc) (old t' c v' hp' hc)
    · -- A fresh claim was reserved at one chat, and only that chat changed.
      by_contra hne
      rcases ha.pending t c v hp with hold | ⟨_, _, hothers⟩
      · exact hc (h.issued t c v hold)
      · rw [hothers t' (fun he => hne he.symm)] at hp'
        exact hc (h.issued t' c v' hp')

/-- A claim id that was handed out and is reserved nowhere. -/
structure Dead (c : String) (db : Ledger) : Prop where
  issued : c ∈ db.issuedClaims
  free : ∀ t v, (db.wakeOf t).pending ≠ some (c, v)

theorem Dead.advance {c : String} (h : Dead c db) (ha : WakeAdvance db db') : Dead c db' := by
  refine ⟨ha.issued c h.issued, ?_⟩
  intro t v hp
  rcases ha.pending t c v hp with hold | ⟨hfresh, _⟩
  · exact h.free t v hold
  · exact hfresh h.issued

/-- A claim id that can only be reserved at one chat. -/
structure OwnedBy (target c : String) (db : Ledger) : Prop where
  issued : c ∈ db.issuedClaims
  elsewhere : ∀ t v, t ≠ target → (db.wakeOf t).pending ≠ some (c, v)

theorem OwnedBy.advance {target c : String} (h : OwnedBy target c db) (ha : WakeAdvance db db') :
    OwnedBy target c db' := by
  refine ⟨ha.issued c h.issued, ?_⟩
  intro t v ht hp
  rcases ha.pending t c v hp with hold | ⟨hfresh, _⟩
  · exact h.elsewhere t v ht hold
  · exact hfresh h.issued

/-- A claim whose chat has no reservation left is dead. -/
theorem OwnedBy.dead {target c : String} (h : OwnedBy target c db)
    (free : (db.wakeOf target).pending = none) : Dead c db := by
  refine ⟨h.issued, ?_⟩
  intro t v hp
  by_cases ht : t = target
  · rw [ht, free] at hp
    cases hp
  · exact h.elsewhere t v ht hp

/-! ## Calls -/

/-- One call of a run, with the ledger before it and its outcome. -/
abbrev Call := Event Ledger Action (Except Failure Answer)

def Claimed (e : Call) (target claimId : String) : Prop :=
  (∃ allowed now uuid, e.action = .claimWake target allowed now uuid) ∧
    ∃ w, e.outcome = .ok (.claim (some w)) ∧ w.claimId = some claimId

def Admitted (e : Call) (target claimId : String) : Prop :=
  (∃ runId allowed now, e.action = .admitWake target claimId runId allowed now) ∧
    e.outcome = .ok (.flag true)

/-- A stop, with the suppressed cutoff it answers. -/
def Suppressed (e : Call) (target : String) (cutoff : Nat) : Prop :=
  (∃ now, e.action = .suppressWake target now) ∧ e.outcome = .ok (.count cutoff)

/-- The `through_seq` of a chat's wake row. -/
def Ledger.throughSeq (db : Ledger) (target : String) : Nat :=
  ((db.wake? target).map WakeRow.throughSeq).getD 0

/-- What an earlier call leaves on every later ledger. -/
structure Settled (e : Call) (db : Ledger) : Prop where
  admitted : ∀ t c, Admitted e t c →
    e.before.throughSeq t ≤ (db.wakeOf t).attempt ∧ Dead c db
  stopped : ∀ t n, Suppressed e t n → n ≤ (db.wakeOf t).suppressed

theorem Settled.advance {e : Call} (h : Settled e db) (ha : WakeAdvance db db') :
    Settled e db' := by
  refine ⟨?_, ?_⟩
  · intro t c hadm
    obtain ⟨hle, hdead⟩ := h.admitted t c hadm
    exact ⟨hle.trans (ha.attempt t), hdead.advance ha⟩
  · intro t n hstop
    exact (h.stopped t n hstop).trans (ha.suppressed t)

variable [CharacterTables]

theorem perform_advance (h : WakeInv db) {action : Action} {answer : Answer}
    (hp : perform db action = .ok (answer, db')) : WakeAdvance db db' := by
  cases action with
  | putEnvelope e =>
      obtain ⟨⟨_, _⟩, hr, rfl, rfl⟩ := map_eq_ok.mp hp
      obtain ⟨_, _, rfl⟩ := putEnvelope_ok hr
      exact .frame rfl rfl
  | deleteEnvelope id =>
      cases hp
      exact .frame rfl rfl
  | setLifecycle id lifecycleStatus now =>
      cases hp
      exact .frame rfl rfl
  | storeMessage messageId now inReplyTo skip =>
      obtain ⟨⟨_, _⟩, hr, _, rfl⟩ := map_eq_ok.mp hp
      obtain ⟨_, _, _, _, _, _, _, _, ⟨_, rfl⟩ | ⟨_, _, rfl⟩⟩ := storeMessage_ok hr
      · exact .frame rfl rfl
      · exact .frame rfl rfl
  | readSender req uuid =>
      obtain ⟨⟨_, _⟩, hr, _, rfl⟩ := map_eq_ok.mp hp
      obtain ⟨d⟩ := readSender_ok hr
      have hopen : d.opened.wakes = db.wakes ∧ d.opened.issuedClaims = db.issuedClaims := by
        rcases openRead_ok d.open_eq with ⟨_, ho⟩ | ⟨_, _, _, _, ho⟩ <;> rw [ho] <;> exact ⟨rfl, rfl⟩
      rcases d.page_eq with ⟨_, hdb, _⟩ | ⟨_, hpage, _⟩
      · rw [hdb]
        exact .frame hopen.1 hopen.2
      · obtain ⟨_, hfirst⟩ := firstPage_ok hpage
        rw [hfirst.ledger]
        exact .frame hopen.1 hopen.2
  | cancelMessage messageId now =>
      obtain ⟨⟨_, _⟩, hr, _, rfl⟩ := map_eq_ok.mp hp
      rcases cancelMessage_ok hr with ⟨_, rfl⟩ | ⟨_, _, rfl⟩
      · exact .frame rfl rfl
      · exact .frame rfl rfl
  | excludeMessage messageId target reason now =>
      obtain ⟨⟨_, _⟩, hr, _, rfl⟩ := map_eq_ok.mp hp
      rw [excludeMessage_ok hr]
      exact .frame rfl rfl
  | excludePair pairId now =>
      obtain ⟨⟨_, _⟩, hr, _, rfl⟩ := map_eq_ok.mp hp
      rw [excludePair_ok hr]
      exact .frame rfl rfl
  | excludeSession sessionId now =>
      obtain ⟨⟨_, _⟩, hr, _, rfl⟩ := map_eq_ok.mp hp
      rw [excludeSession_ok hr]
      exact .frame rfl rfl
  | markReadEventPublished messageId =>
      obtain ⟨⟨_, _⟩, hr, _, rfl⟩ := map_eq_ok.mp hp
      rw [markReadEventPublished_ok hr]
      exact .frame rfl rfl
  | claimWake target allowed now uuid =>
      obtain ⟨⟨_, _⟩, hr, _, rfl⟩ := map_eq_ok.mp hp
      rcases claimWake_view hr with ⟨_, rfl⟩ | ⟨c, v, w, hfresh, hissued, hfree, hview, _, _, hn⟩
      · exact .frame rfl rfl
      · refine ⟨hn, ?_, ?_, ?_, ?_⟩
        · intro c' hc'
          rw [hissued]
          exact List.mem_cons_of_mem _ hc'
        · intro t
          rw [hview]
          by_cases ht : t = target
          · subst ht
            rw [Function.update_self]
          · rw [Function.update_of_ne ht]
        · intro t
          rw [hview]
          by_cases ht : t = target
          · subst ht
            rw [Function.update_self]
          · rw [Function.update_of_ne ht]
        · intro t c' v' hpend
          rw [hview] at hpend
          by_cases ht : t = target
          · subst ht
            rw [Function.update_self] at hpend
            simp only [Option.some.injEq, Prod.mk.injEq] at hpend
            obtain ⟨rfl, rfl⟩ := hpend
            refine Or.inr ⟨hfresh, by simp [hissued], ?_⟩
            intro t' ht'
            rw [hview, Function.update_of_ne ht']
          · rw [Function.update_of_ne ht] at hpend
            exact Or.inl hpend
  | admitWake target claimId runId allowed now =>
      obtain ⟨⟨_, _⟩, hr, _, rfl⟩ := map_eq_ok.mp hp
      rcases admitWake_view h.targets hr with ⟨_, rfl⟩ | ⟨_, v, _, hview, _, hissued, hn, _⟩
      · exact .frame rfl rfl
      · exact .settled hview hissued (fun _ => hn) (Nat.le_max_left _ _) (Nat.le_refl _) rfl
  | releaseWake target claimId =>
      obtain ⟨⟨_, _⟩, hr, _, rfl⟩ := map_eq_ok.mp hp
      obtain ⟨hviews, hissued, hkeys⟩ := releaseWake_view hr
      exact .dropped hviews hissued hkeys
  | suppressWake target now =>
      obtain ⟨⟨_, _⟩, hr, _, rfl⟩ := map_eq_ok.mp hp
      obtain ⟨⟨v, hn, hview⟩, hissued, hkeys⟩ := suppressWake_view hr
      refine .settled hview hissued hkeys (Nat.le_refl _) ?_ rfl
      simp only [hn]
      exact Nat.le_max_left _ _
  | recoverWakes =>
      cases hp
      obtain ⟨hviews, hissued, hkeys⟩ := recoverWakes_view db
      exact .dropped hviews hissued hkeys

theorem step_advance (h : WakeInv db) (action : Action) : WakeAdvance db (step db action).1 :=
  atomically_keep (P := fun db' => WakeAdvance db db') (.frame rfl rfl)
    fun _ _ hp => perform_advance h hp

theorem WakeInv.step (h : WakeInv db) (action : Action) : WakeInv (Mailbox.step db action).1 :=
  h.advance (step_advance h action)

theorem wakeInv_after (actions : List Action) : WakeInv (after actions) :=
  run_invariant Mailbox.step (fun _ action h => h.step action) Ledger.empty WakeInv.empty actions

/-- What a true admission found and left behind. -/
structure Admission (db : Ledger) (target claimId : String) (allowed : List String)
    (db' : Ledger) : Prop where
  pending : (db.wakeOf target).pending = some (claimId, db.throughSeq target)
  view : db'.wakeOf = Function.update db.wakeOf target { db.wakeOf target with
    attempt := max (db.wakeOf target).attempt (db.throughSeq target), pending := none }
  issued : db'.issuedClaims = db.issuedClaims
  eligible : ∃ row ∈ db.join, (Scope.mk target none allowed).admits row = true ∧
    row.1.readAt = none ∧ (db.wakeOf target).cutoff < row.1.mailboxSeq ∧
    row.1.mailboxSeq ≤ db.throughSeq target

theorem admission (h : WakeInv db) {target claimId runId : String} {allowed : List String}
    {now : IsoTime}
    (hok : (step db (.admitWake target claimId runId allowed now)).2 = .ok (.flag true)) :
    Admission db target claimId allowed
      (step db (.admitWake target claimId runId allowed now)).1 := by
  obtain ⟨db₁, hp, hs⟩ := atomically_eq_ok hok
  have hstep : (step db (.admitWake target claimId runId allowed now)).1 = db₁ := hs
  obtain ⟨⟨b, db₂⟩, hr, hb⟩ := map_eq_ok.mp hp
  simp only [Prod.mk.injEq, Answer.flag.injEq] at hb
  obtain ⟨rfl, rfl⟩ := hb
  rw [hstep]
  rcases admitWake_view h.targets hr with ⟨hf, _⟩ | ⟨_, v, hpend, hview, hrow, hissued, _, helig⟩
  · cases hf
  · have hthrough : db.throughSeq target = v := by rw [Ledger.throughSeq, hrow, Option.getD_some]
    exact ⟨by rw [hthrough, hpend], by rw [hthrough, hview], hissued, by rw [hthrough]; exact helig⟩

theorem suppression {target : String} {now : IsoTime} {n : Nat}
    (hok : (step db (.suppressWake target now)).2 = .ok (.count n)) :
    ((step db (.suppressWake target now)).1.wakeOf target).suppressed = n ∧
      ((step db (.suppressWake target now)).1.wakeOf target).pending = none := by
  obtain ⟨db₁, hp, hs⟩ := atomically_eq_ok hok
  have hstep : (step db (.suppressWake target now)).1 = db₁ := hs
  obtain ⟨⟨m, db₂⟩, hr, hb⟩ := map_eq_ok.mp hp
  simp only [Prod.mk.injEq, Answer.count.injEq] at hb
  obtain ⟨rfl, rfl⟩ := hb
  obtain ⟨⟨_, _, hview⟩, _, _⟩ := suppressWake_view hr
  rw [hstep, hview, Function.update_self]
  exact ⟨rfl, rfl⟩

theorem claimed_owned (h : WakeInv db) {target claimId : String} {allowed : List String}
    {now : IsoTime} {uuid : UuidHex} {w : WakeRow}
    (hok : (step db (.claimWake target allowed now uuid)).2 = .ok (.claim (some w)))
    (hw : w.claimId = some claimId) :
    OwnedBy target claimId (step db (.claimWake target allowed now uuid)).1 := by
  obtain ⟨db₁, hp, hs⟩ := atomically_eq_ok hok
  have hstep : (step db (.claimWake target allowed now uuid)).1 = db₁ := hs
  obtain ⟨⟨out, db₂⟩, hr, hb⟩ := map_eq_ok.mp hp
  simp only [Prod.mk.injEq, Answer.claim.injEq] at hb
  obtain ⟨rfl, rfl⟩ := hb
  rw [hstep]
  rcases claimWake_view hr with ⟨hn, _⟩ | ⟨c, v, w', hfresh, hissued, _, hview, hout, hc, _⟩
  · cases hn
  · obtain rfl := Option.some.inj hout
    obtain rfl := Option.some.inj (hw.symm.trans hc)
    refine ⟨by simp [hissued], ?_⟩
    intro t v' ht hpend
    rw [hview, Function.update_of_ne ht] at hpend
    exact hfresh (h.issued t claimId v' hpend)

/-! ## Runs -/

theorem settled_step (h : WakeInv db) (action : Action) :
    Settled ⟨db, action, (step db action).2⟩ (step db action).1 := by
  refine ⟨?_, ?_⟩
  · rintro t c ⟨⟨runId, allowed, now, rfl⟩, hok⟩
    have ha := admission h hok
    refine ⟨?_, ?_, ?_⟩
    · rw [ha.view, Function.update_self]
      exact Nat.le_max_right _ _
    · rw [ha.issued]
      exact h.issued t c _ ha.pending
    · intro t' v hp
      rw [ha.view] at hp
      by_cases ht : t' = t
      · subst ht
        rw [Function.update_self] at hp
        cases hp
      · rw [Function.update_of_ne ht] at hp
        exact ht (h.unique t' t c _ _ hp ha.pending)
  · rintro t n ⟨⟨now, rfl⟩, hok⟩
    exact Nat.le_of_eq (suppression hok).1.symm

/-- Over every run from fresh tables: a chat has at most one reservation; a
claim is admitted at most once; the admitted cutoffs of a chat grow strictly;
an admission finds an authorized unread message beyond everything admitted or
suppressed before it; the counters never decrease; and no claim reserved before
a stop of its chat is admitted after it. -/
theorem wake_admitted_once (actions : List Action) :
    (∀ t, ((after actions).wakes.filter fun w =>
      w.targetSessionId = t ∧ w.state = some .reserved).length ≤ 1) ∧
    ((history step Ledger.empty actions).Pairwise fun e f =>
      ∀ t t' c, Admitted e t c → ¬ Admitted f t' c) ∧
    ((history step Ledger.empty actions).Pairwise fun e f =>
      ∀ t c c', Admitted e t c → Admitted f t c' →
        e.before.throughSeq t < f.before.throughSeq t) ∧
    (∀ pre f post, history step Ledger.empty actions = pre ++ f :: post →
      ∀ t c runId allowed now, f.action = .admitWake t c runId allowed now →
        f.outcome = .ok (.flag true) →
        ∃ row ∈ f.before.join, (Scope.mk t none allowed).admits row = true ∧
          row.1.readAt = none ∧ row.1.mailboxSeq ≤ f.before.throughSeq t ∧
          ∀ e ∈ pre,
            (∀ c', Admitted e t c' → e.before.throughSeq t < row.1.mailboxSeq) ∧
            (∀ n, Suppressed e t n → n < row.1.mailboxSeq)) ∧
    (∀ pre post, actions = pre ++ post → ∀ t,
      ((after pre).wakeOf t).attempt ≤ ((after actions).wakeOf t).attempt ∧
      ((after pre).wakeOf t).suppressed ≤ ((after actions).wakeOf t).suppressed) ∧
    (∀ e₁ e₂ e₃, [e₁, e₂, e₃].Sublist (history step Ledger.empty actions) →
      ∀ t c n, Claimed e₁ t c → Suppressed e₂ t n → ∀ t', ¬ Admitted e₃ t' c) := by
  have keep : ∀ (s : Ledger) (a : Action), WakeInv s → WakeInv (step s a).1 :=
    fun _ a h => h.step a
  have hold : ∀ (e : Call) (s : Ledger) (a : Action), WakeInv s → Settled e s →
      Settled e (step s a).1 := fun _ _ a h hm => hm.advance (step_advance h a)
  refine ⟨?_, ?_, ?_, ?_, ?_, ?_⟩
  · intro t
    have hle := Tables.countP_key_le_one (wakeInv_after actions).targets t
      fun w => decide (w.state = some .reserved)
    rw [List.countP_eq_length_filter] at hle
    simpa using hle
  · apply history_pairwise step keep (fun s a h => settled_step h a) hold
    · rintro e s a hi hm t t' c hadm ⟨⟨runId, allowed, now, rfl⟩, hok⟩
      exact (hm.admitted t c hadm).2.free t' _ (admission hi hok).pending
    · exact WakeInv.empty
  · apply history_pairwise step keep (fun s a h => settled_step h a) hold
    · rintro e s a hi hm t c c' hadm ⟨⟨runId, allowed, now, rfl⟩, hok⟩
      obtain ⟨row, _, _, _, hlow, hhigh⟩ := (admission hi hok).eligible
      have hle := (hm.admitted t c hadm).1
      simp only [Wake.cutoff] at hlow
      change e.before.throughSeq t < s.throughSeq t
      omega
    · exact WakeInv.empty
  · rintro pre f post hsplit t c runId allowed now haction hout
    obtain ⟨acts, a, _, _, hpre, hf, _⟩ := history_split step Ledger.empty actions pre post f hsplit
    have hmarks := history_marks step keep (fun s a h => settled_step h a) hold Ledger.empty
      WakeInv.empty acts
    rw [← hpre] at hmarks
    rw [hf] at haction hout ⊢
    simp only at haction hout ⊢
    rw [haction] at hout
    obtain ⟨row, hrow, hadm, hunread, hlow, hhigh⟩ := (admission (wakeInv_after acts) hout).eligible
    refine ⟨row, hrow, hadm, hunread, hhigh, ?_⟩
    intro e he
    have hm := hmarks e he
    simp only [Wake.cutoff] at hlow
    refine ⟨?_, ?_⟩
    · intro c' hc'
      have hle := (hm.admitted t c' hc').1
      change _ < _ at hlow
      unfold after at hlow
      omega
    · intro n hn
      have hle := hm.stopped t n hn
      unfold after at hlow
      omega
  · rintro pre post rfl t
    have hrel := run_related step (R := fun s s' =>
        (s.wakeOf t).attempt ≤ (s'.wakeOf t).attempt ∧
        (s.wakeOf t).suppressed ≤ (s'.wakeOf t).suppressed) keep
      (fun _ => ⟨Nat.le_refl _, Nat.le_refl _⟩)
      (fun _ _ _ h h' => ⟨h.1.trans h'.1, h.2.trans h'.2⟩)
      (fun s a h => ⟨(step_advance h a).attempt t, (step_advance h a).suppressed t⟩)
      (after pre) (wakeInv_after pre) post
    unfold after at hrel ⊢
    rw [run_append]
    exact hrel
  · rintro e₁ e₂ e₃ hsub t c n ⟨⟨al, nw, uu, ha₁⟩, w, ho₁, hw⟩ ⟨⟨nw', ha₂⟩, ho₂⟩ t'
      ⟨⟨runId, al', nw'', ha₃⟩, ho₃⟩
    obtain ⟨pre, a₁, post, _, he₁, hsub⟩ := history_cut step _ _ hsub
    have hi₁ := wakeInv_after pre
    rw [he₁] at ha₁ ho₁
    simp only at ha₁ ho₁
    subst ha₁
    have howned := claimed_owned hi₁ ho₁ hw
    -- From the claim on, only its chat can hold it; the stop drops that one.
    obtain ⟨mid, a₂, late, _, he₂, hsub⟩ := history_cut step _ _ hsub
    have hmid := run_invariant step (I := fun s => WakeInv s ∧ OwnedBy t c s)
      (fun s a h => ⟨h.1.step a, h.2.advance (step_advance h.1 a)⟩) _
      ⟨hi₁.step _, howned⟩ mid
    rw [he₂] at ha₂ ho₂
    simp only at ha₂ ho₂
    subst ha₂
    have hdead := (hmid.2.advance (step_advance hmid.1 _)).dead (suppression ho₂).2
    obtain ⟨last, a₃, _, _, he₃, _⟩ := history_cut step _ _ hsub
    have hlast := run_invariant step (I := fun s => WakeInv s ∧ Dead c s)
      (fun s a h => ⟨h.1.step a, h.2.advance (step_advance h.1 a)⟩) _
      ⟨hmid.1.step _, hdead⟩ last
    rw [he₃] at ha₃ ho₃
    simp only at ha₃ ho₃
    subst ha₃
    exact hlast.2.free t' _ (admission hlast.1 ho₃).pending

end AgentsServer.Mailbox

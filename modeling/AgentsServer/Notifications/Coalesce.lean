import AgentsServer.Notifications.Invariant

/-!
# Coalesced hints are not lost

Cursors only advance, a record that contradicts the head closes its
subscription, and when nothing is pending the reader already has the latest of
everything published to it.
-/

namespace AgentsServer.Notifications

open Library Library.Runs

/-- How one call moves one subscription. -/
inductive Turn (a : Action) (out : Except Failure Answer) (i : Nat) (s : Subscription) :
    Subscription → Prop
  /-- Nothing reached the subscription while it was open. -/
  | kept (quiet : ∀ hint, a.hint? = some hint → s.concerns hint → s.closed = true) :
      Turn a out i s s
  | closed (s' : Subscription) (shut : s'.closed = true) : Turn a out i s s'
  | published (hint : Hint) (s' : Subscription) (action : a.hint? = some hint)
      (concerns : s.concerns hint) (spec : Published s hint s') : Turn a out i s s'
  | seeded (cursor : NotificationCursor) (s' : Subscription) (action : a = .seed i cursor)
      (outcome : out = .ok .done) (first : s.seeded = false) (spec : Seeded s cursor s') :
      Turn a out i s s'
  | took (cursor : NotificationCursor) (action : a = .take i)
      (outcome : out = .ok (.cursor (some cursor))) (mail : s.mail = some cursor.mail)
      (bulletin : s.bulletin = some cursor.bulletin) (open_ : s.closed = false)
      (seed : s.seeded = true) : Turn a out i s { s with pending := false }

variable {b : Broker} {i : Nat} {s : Subscription}

/-- An action that publishes nothing leaves a subscription it does not name. -/
theorem Turn.still {a : Action} {out : Except Failure Answer} (h : a.hint? = none) :
    Turn a out i s s := by
  apply Turn.kept
  intro hint he
  rw [h] at he
  cases he

theorem publish_turn (hb : Inv b) {a : Action} {hint : Hint} (ha : a.hint? = some hint)
    (out : Except Failure Answer) (h : b.objects[i]? = some s) :
    ∃ s', (b.publish hint).objects[i]? = some s' ∧ Turn a out i s s' := by
  obtain ⟨_, hobj⟩ := hb.publish hint
  refine ⟨_, hobj i s h, ?_⟩
  by_cases hp : s.closed = false ∧ s.concerns hint
  · rw [if_pos hp, Subscription.delivered]
    cases hd : s.publish hint with
    | some s' => exact .published hint s' ha hp.2 (publish_spec hd)
    | none => exact .closed _ rfl
  · rw [if_neg hp]
    apply Turn.kept
    intro hint' he hc
    rw [ha, Option.some.injEq] at he
    subst he
    by_contra hopen
    rw [Bool.not_eq_true] at hopen
    exact hp ⟨hopen, hc⟩

theorem closeAll_turn (hb : Inv b) {a : Action} (ha : a.hint? = none)
    (out : Except Failure Answer) (condition : Subscription → Bool) (h : b.objects[i]? = some s) :
    ∃ s', (b.closeAll condition).objects[i]? = some s' ∧ Turn a out i s s' := by
  obtain ⟨_, hobj⟩ := hb.closeAll condition
  refine ⟨_, hobj i s h, ?_⟩
  by_cases hp : s.closed = false ∧ condition s = true
  · rw [if_pos hp]
    exact .closed _ rfl
  · rw [if_neg hp]
    exact .still ha

theorem closeLocked_turn (hb : Inv b) {a : Action} (ha : a.hint? = none)
    (out : Except Failure Answer) (j : Nat) (h : b.objects[i]? = some s) :
    Inv (b.closeLocked j) ∧
      ∃ s', (b.closeLocked j).objects[i]? = some s' ∧ Turn a out i s s' := by
  rcases hj : b.objects[j]? with _ | t
  · rw [Broker.closeLocked, hj]
    exact ⟨hb, s, h, .still ha⟩
  · by_cases ht : t.closed = true
    · rw [Broker.closeLocked, hj]
      simp only [ht, if_true]
      exact ⟨hb, s, h, .still ha⟩
    · rw [Bool.not_eq_true] at ht
      obtain ⟨hinv, hobj⟩ := hb.closeOpen hj ht
      refine ⟨hinv, ?_⟩
      rw [hobj]
      by_cases hi : i = j
      · rw [if_pos hi]
        exact ⟨_, rfl, .closed _ rfl⟩
      · rw [if_neg hi]
        exact ⟨s, h, .still ha⟩

/-- The cursor of a seeded open subscription is well formed. -/
theorem makeCursor_ok (hs : SubInv s) (open_ : s.closed = false) (seed : s.seeded = true) :
    ∃ cursor, makeCursor s.mail s.bulletin = .ok cursor ∧ s.mail = some cursor.mail ∧
      s.bulletin = some cursor.bulletin := by
  obtain ⟨hm, hc⟩ := hs.seeded open_ seed
  obtain ⟨m, hm⟩ := Option.isSome_iff_exists.mp hm
  obtain ⟨c, hc⟩ := Option.isSome_iff_exists.mp hc
  have hteam : m.mailbox.teamId = c.teamId := by rw [hs.mailbox m hm, hs.team c hc]
  rw [hm, hc, makeCursor]
  simp only [hteam, dif_pos]
  exact ⟨_, rfl, rfl, rfl⟩

/-- One call keeps the invariant and moves each subscription by one turn. -/
theorem step_turn (hb : Inv b) (a : Action) :
    Inv (step b a).1 ∧ ∀ (i : Nat) (s : Subscription), b.objects[i]? = some s →
      ∃ s', (step b a).1.objects[i]? = some s' ∧ Turn a (step b a).2 i s s' := by
  cases a with
  | subscribe teamId recipientServerId =>
      simp only [step, Broker.subscribe]
      cases hm : makeMailbox teamId recipientServerId with
      | error e => exact ⟨hb, fun i s h => ⟨s, h, .still rfl⟩⟩
      | ok mailbox =>
          dsimp only
          by_cases hclosed : b.closed = true
          · rw [if_pos hclosed]
            exact ⟨hb, fun i s h => ⟨s, h, .still rfl⟩⟩
          rw [if_neg hclosed]
          by_cases hcap : b.capacity.maxSubscriptions ≤ b.count ∨ b.capacity.maxPerRecipient ≤
              (b.members fun s => decide (s.mailbox = mailbox)).length
          · rw [if_pos hcap]
            exact ⟨hb, fun i s h => ⟨s, h, .still rfl⟩⟩
          rw [if_neg hcap]
          rw [not_or, hb.count] at hcap
          refine ⟨hb.subscribe mailbox (by omega) (by omega), fun i s h => ⟨s, ?_, .still rfl⟩⟩
          rw [List.getElem?_append_left (getElem?_lt h), h]
  | publishMail arrival =>
      exact ⟨(hb.publish _).1, fun i s h => publish_turn hb rfl _ h⟩
  | publishBulletin change =>
      exact ⟨(hb.publish _).1, fun i s h => publish_turn hb rfl _ h⟩
  | invalidate teamId recipientServerId =>
      exact ⟨(hb.closeAll _).1, fun i s h => closeAll_turn hb rfl _ _ h⟩
  | close =>
      have hb' : Inv { b with closed := true } :=
        ⟨hb.registered, hb.nodup, hb.count, hb.total, hb.perMailbox, hb.objects⟩
      exact ⟨(hb'.closeAll _).1, fun i s h => closeAll_turn hb' rfl _ _ h⟩
  | seed j cursor =>
      simp only [step, Broker.seed]
      rcases hj : b.objects[j]? with _ | t
      · exact ⟨hb, fun i s h => ⟨s, h, .still rfl⟩⟩
      dsimp only
      by_cases hbox : cursor.mailbox ≠ t.mailbox
      · rw [if_pos hbox]
        exact ⟨hb, fun i s h => ⟨s, h, .still rfl⟩⟩
      rw [if_neg hbox, not_not] at *
      by_cases hclosed : t.closed = true
      · rw [if_pos hclosed]
        exact ⟨hb, fun i s h => ⟨s, h, .still rfl⟩⟩
      rw [if_neg hclosed]
      rw [Bool.not_eq_true] at hclosed
      by_cases hseeded : t.seeded = true
      · rw [if_pos hseeded]
        exact ⟨hb, fun i s h => ⟨s, h, .still rfl⟩⟩
      rw [if_neg hseeded]
      rw [Bool.not_eq_true] at hseeded
      cases hd : t.seed cursor with
      | none =>
          refine ⟨(hb.closeOpen hj hclosed).1, fun i s h => ?_⟩
          exact (closeLocked_turn hb rfl _ j h).2
      | some t' =>
          have hspec := seed_spec hd
          refine ⟨hb.put hj hclosed (seed_inv (hb.objects j t hj) hclosed hbox hd) hspec.mailbox
            (hspec.closed.trans hclosed), fun i s h => ?_⟩
          rw [put_objects hj]
          by_cases hi : i = j
          · subst hi
            rw [hj, Option.some.injEq] at h
            subst h
            rw [if_pos rfl]
            exact ⟨t', rfl, .seeded cursor t' rfl rfl hseeded hspec⟩
          · rw [if_neg hi]
            exact ⟨s, h, .still rfl⟩
  | take j =>
      simp only [step, Broker.take]
      rcases hj : b.objects[j]? with _ | t
      · exact ⟨hb, fun i s h => ⟨s, h, .still rfl⟩⟩
      dsimp only
      by_cases hclosed : t.closed = true
      · rw [if_pos hclosed]
        exact ⟨hb, fun i s h => ⟨s, h, .still rfl⟩⟩
      rw [if_neg hclosed]
      rw [Bool.not_eq_true] at hclosed
      by_cases hwait : (!t.seeded || !t.pending) = true
      · rw [if_pos hwait]
        exact ⟨hb, fun i s h => ⟨s, h, .still rfl⟩⟩
      rw [if_neg hwait]
      simp only [Bool.not_eq_true, Bool.or_eq_false_iff, Bool.not_eq_false'] at hwait
      have ht := hb.objects j t hj
      obtain ⟨cursor, hmake, hm, hc⟩ := makeCursor_ok ht hclosed hwait.1
      have ht' : SubInv { t with pending := false } := by
        refine ⟨?_, ht.mailbox, ht.team, ht.seeded, ?_⟩
        · intro h
          rw [hclosed] at h
          cases h
        · intro h
          rw [hwait.1] at h
          cases h
      refine ⟨hb.put hj hclosed ht' rfl hclosed, fun i s h => ?_⟩
      rw [put_objects hj]
      by_cases hi : i = j
      · subst hi
        rw [hj, Option.some.injEq] at h
        subst h
        rw [if_pos rfl]
        exact ⟨_, rfl, .took cursor rfl (by rw [hmake]; rfl) hm hc hclosed hwait.1⟩
      · rw [if_neg hi]
        exact ⟨s, h, .still rfl⟩
  | closeSubscription j =>
      refine ⟨?_, fun i s h => (closeLocked_turn hb rfl _ j h).2⟩
      change Inv (b.closeLocked j)
      rcases hj : b.objects[j]? with _ | t
      · rw [Broker.closeLocked, hj]
        exact hb
      · exact (closeLocked_turn hb (a := .closeSubscription j) rfl (.ok .done) j hj).1

end AgentsServer.Notifications

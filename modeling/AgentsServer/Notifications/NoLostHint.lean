import AgentsServer.Notifications.Coalesce
import Mathlib.Data.List.Induction

/-!
# No lost hint

Runs of a broker: what the reader of a subscription was given, what was offered
to the subscription, and the number of open subscriptions.
-/

namespace AgentsServer.Notifications

open Library Library.Runs

abbrev Call := Event Broker Action (Except Failure Answer)

/-- A cursor's component is this record or a newer one. -/
def NotificationCursor.contains (c : NotificationCursor) : Hint → Prop
  | .mail arrival => Latest.Covers MailArrival.throughSequence (some c.mail) arrival
  | .bulletin change => Latest.Covers BulletinChange.throughSequence (some c.bulletin) change

/-- The reader of a subscription gets a cursor: it takes one, or its snapshot
seeds the subscription. -/
def Gives (e : Call) (i : Nat) (c : NotificationCursor) : Prop :=
  (e.action = .take i ∧ e.outcome = .ok (.cursor (some c))) ∨
    (e.action = .seed i c ∧ e.outcome = .ok .done ∧
      ∃ s, e.before.objects[i]? = some s ∧ s.seeded = false)

/-- A record reaches an open subscription, published or with its snapshot. -/
def Offers (e : Call) (i : Nat) (hint : Hint) : Prop :=
  ∃ s, e.before.objects[i]? = some s ∧ s.closed = false ∧
    ((e.action.hint? = some hint ∧ s.concerns hint) ∨
      ∃ c, e.action = .seed i c ∧ c.mailbox = s.mailbox ∧ s.seeded = false ∧
        (hint = .mail c.mail ∨ hint = .bulletin c.bulletin))

/-- The head has the number of the record and is a different record. -/
def Subscription.conflicts (s : Subscription) : Hint → Prop
  | .mail arrival => ∃ m, s.mail = some m ∧ m.throughSequence = arrival.throughSequence ∧
      arrival ≠ m
  | .bulletin change => ∃ c, s.bulletin = some c ∧ c.throughSequence = change.throughSequence ∧
      change ≠ c

/-- Two different records of one component with one number. -/
def Hint.Contradicts : Hint → Hint → Prop
  | .mail a, .mail a' => a.throughSequence = a'.throughSequence ∧ a ≠ a'
  | .bulletin c, .bulletin c' => c.throughSequence = c'.throughSequence ∧ c ≠ c'
  | _, _ => False

/-- The head of the record's component has a higher number. -/
def Subscription.isPast (s : Subscription) : Hint → Prop
  | .mail arrival => ∃ m, s.mail = some m ∧ arrival.throughSequence < m.throughSequence
  | .bulletin change => ∃ c, s.bulletin = some c ∧ change.throughSequence < c.throughSequence

/-- Both components of an earlier cursor are in a later one. -/
def NotificationCursor.Before (c c' : NotificationCursor) : Prop :=
  c'.contains (.mail c.mail) ∧ c'.contains (.bulletin c.bulletin)

/-! ## One call -/

section Step

variable {b : Broker} {i : Nat} {s : Subscription}

/-- One call leaves a closed subscription closed. -/
theorem Turn.closed_stays {a : Action} {out : Except Failure Answer} {s s' : Subscription}
    (h : Turn a out i s s') (hc : s.closed = true) : s'.closed = true := by
  cases h with
  | kept quiet => exact hc
  | closed s' shut => exact shut
  | published hint s' action concerns spec => rw [spec.closed, hc]
  | seeded cursor s' action outcome first spec => rw [spec.closed, hc]
  | took cursor action outcome mail bulletin open_ seed => exact hc

/-- One call of an open subscription keeps what its heads cover. -/
theorem Turn.covers_stays {a : Action} {out : Except Failure Answer} {s s' : Subscription}
    {hint : Hint} (h : Turn a out i s s') (hs : s.covers hint) (open_ : s'.closed = false) :
    s'.covers hint := by
  cases h with
  | kept quiet => exact hs
  | closed s' shut =>
      rw [shut] at open_
      cases open_
  | published hint' s' action concerns spec => exact spec.kept hint hs
  | seeded cursor s' action outcome first spec => exact spec.kept hint hs
  | took cursor action outcome mail bulletin open_ seed =>
      cases hint with
      | mail arrival => exact hs
      | bulletin change => exact hs

theorem Turn.seeded_stays {a : Action} {out : Except Failure Answer} {s s' : Subscription}
    (h : Turn a out i s s') (hs : s.seeded = true) (open_ : s'.closed = false) :
    s'.seeded = true := by
  cases h with
  | kept quiet => exact hs
  | closed s' shut =>
      rw [shut] at open_
      cases open_
  | published hint s' action concerns spec => rw [spec.seeded, hs]
  | seeded cursor s' action outcome first spec => exact spec.seeded
  | took cursor action outcome mail bulletin open_ seed => exact hs

/-- The subscription an offer reaches covers the record afterwards, or is closed. -/
theorem offers_covers (hb : Inv b) {a : Action} {hint : Hint}
    (h : Offers ⟨b, a, (step b a).2⟩ i hint) :
    ∃ s, (step b a).1.objects[i]? = some s ∧ (s.closed = false → s.covers hint) := by
  obtain ⟨s, hs, open_, hoffer⟩ := h
  obtain ⟨s', hs', turn⟩ := (step_turn hb a).2 i s hs
  refine ⟨s', hs', fun hopen => ?_⟩
  cases hoffer with
  | inl hpublish =>
      obtain ⟨ha, hconcerns⟩ := hpublish
      cases turn with
      | kept quiet =>
          have hclosed := quiet hint ha hconcerns
          rw [open_] at hclosed
          cases hclosed
      | closed s' shut =>
          rw [shut] at hopen
          cases hopen
      | published hint' s' action concerns spec =>
          have hsame : hint' = hint := Option.some.inj (action.symm.trans ha)
          rw [← hsame]
          exact spec.covers
      | seeded cursor s' action outcome first spec =>
          simp only [action] at ha
          cases ha
      | took cursor action outcome mail bulletin open_ seed =>
          simp only [action] at ha
          cases ha
  | inr hseed =>
      obtain ⟨c, ha, hbox, hfirst, hhint⟩ := hseed
      simp only at ha hs
      subst ha
      simp only [step, Broker.seed, hs, hbox, open_, hfirst] at hs'
      cases hd : s.seed c with
      | none =>
          simp only [hd] at hs'
          obtain ⟨_, hobj⟩ := hb.closeOpen hs open_
          simp only [ne_eq, not_true_eq_false, if_false, Bool.false_eq_true, hobj, if_pos,
            Option.some.injEq] at hs'
          rw [← hs'] at hopen
          cases hopen
      | some t =>
          simp only [hd] at hs'
          simp only [ne_eq, not_true_eq_false, if_false, Bool.false_eq_true, put_objects hs, if_pos,
            Option.some.injEq] at hs'
          have hspec := seed_spec hd
          rw [← hs']
          cases hhint with
          | inl hm => exact hm ▸ hspec.mail
          | inr hc => exact hc ▸ hspec.bulletin

/-- An offer that contradicts the head closes the subscription. -/
theorem conflict_closes (hb : Inv b) {a : Action} {hint : Hint}
    (hs : b.objects[i]? = some s) (conflict : s.conflicts hint)
    (h : Offers ⟨b, a, (step b a).2⟩ i hint) :
    ∃ s', (step b a).1.objects[i]? = some s' ∧ s'.closed = true := by
  obtain ⟨t, ht, open_, hoffer⟩ := h
  obtain rfl : s = t := Option.some.inj (hs.symm.trans ht)
  cases hoffer with
  | inl hpublish =>
      obtain ⟨ha, hconcerns⟩ := hpublish
      have hnone : s.publish hint = none := by
        cases hint with
        | mail arrival =>
            obtain ⟨m, hm, hseq, hne⟩ := conflict
            simp [Subscription.publish, hm, Latest.compare_conflict hseq.symm hne]
        | bulletin change =>
            obtain ⟨c, hc, hseq, hne⟩ := conflict
            simp [Subscription.publish, hc, Latest.compare_conflict hseq.symm hne]
      have hpublish : (step b a).1 = b.publish hint := by
        cases a <;> simp only [Action.hint?, Option.some.injEq, reduceCtorEq] at ha <;>
          (subst ha; rfl)
      refine ⟨s.shut, ?_, rfl⟩
      rw [hpublish, (hb.publish hint).2 i s hs, if_pos ⟨open_, hconcerns⟩,
        Subscription.delivered, hnone, Option.getD_none]
  | inr hseed =>
      obtain ⟨c, ha, hbox, hfirst, hhint⟩ := hseed
      simp only at ha
      subst ha
      have hnone : s.seed c = none := by
        cases hhint with
        | inl hm =>
            subst hm
            obtain ⟨m, hm, hseq, hne⟩ := conflict
            simp [Subscription.seed, seedField, hm, Latest.compare_conflict hseq.symm hne]
        | inr hc =>
            subst hc
            obtain ⟨m, hm, hseq, hne⟩ := conflict
            simp [Subscription.seed, seedField, hm, Latest.compare_conflict hseq.symm hne]
      refine ⟨s.shut, ?_, rfl⟩
      simp only [step, Broker.seed, hs, hbox, open_, hfirst, hnone, ne_eq, not_true_eq_false,
        if_false, Bool.false_eq_true]
      rw [(hb.closeOpen hs open_).2, if_pos rfl]

/-- What the reader was given is covered by the heads of the open, seeded
subscription, and a subscription that was seeded before held exactly that. -/
theorem gives_heads (hb : Inv b) {a : Action} {c : NotificationCursor}
    (h : Gives ⟨b, a, (step b a).2⟩ i c) :
    ∃ s s', b.objects[i]? = some s ∧ s.closed = false ∧
      (s.seeded = true → s.mail = some c.mail ∧ s.bulletin = some c.bulletin) ∧
      (step b a).1.objects[i]? = some s' ∧ s'.seeded = true ∧ s'.covers (.mail c.mail) ∧
      s'.covers (.bulletin c.bulletin) := by
  cases h with
  | inl htake =>
      obtain ⟨ha, hout⟩ := htake
      simp only at ha hout
      subst ha
      cases hs : b.objects[i]? with
      | none => simp [step, Broker.take, hs] at hout
      | some s =>
          have hi := hb.objects i s hs
          simp only [step, Broker.take, hs] at hout
          by_cases hclosed : s.closed = true
          · simp [hclosed] at hout
          rw [Bool.not_eq_true] at hclosed
          by_cases hwait : (!s.seeded || !s.pending) = true
          · simp [hclosed, hwait] at hout
          have hseeded : s.seeded = true := by
            simp only [Bool.not_eq_true, Bool.or_eq_false_iff, Bool.not_eq_false'] at hwait
            exact hwait.1
          obtain ⟨cursor, hmake, hm, hc⟩ := makeCursor_ok hi hclosed hseeded
          have hcursor : cursor = c := by
            simpa [hclosed, hwait, hmake, Except.map] using hout
          subst hcursor
          refine ⟨s, { s with pending := false }, rfl, hclosed, fun _ => ⟨hm, hc⟩, ?_, hseeded,
            ⟨_, hm, Or.inr rfl⟩, ⟨_, hc, Or.inr rfl⟩⟩
          simp only [step, Broker.take, hs, hclosed, hwait, Bool.false_eq_true, if_false]
          rw [put_objects hs, if_pos rfl]
  | inr hseed =>
      obtain ⟨ha, hout, s, hs, hfirst⟩ := hseed
      simp only at ha hout hs
      subst ha
      simp only [step, Broker.seed, hs] at hout
      by_cases hbox : c.mailbox = s.mailbox
      swap
      · simp [hbox] at hout
      by_cases hclosed : s.closed = true
      · simp [hbox, hclosed] at hout
      rw [Bool.not_eq_true] at hclosed
      cases hd : s.seed c with
      | none => simp [hbox, hclosed, hfirst, hd] at hout
      | some s' =>
          have hspec := seed_spec hd
          refine ⟨s, s', hs, hclosed, ?_, ?_, hspec.seeded, hspec.mail, hspec.bulletin⟩
          · intro h
            rw [hfirst] at h
            cases h
          · simp only [step, Broker.seed, hs, hbox, hclosed, hfirst, hd, ne_eq,
              not_true_eq_false, if_false, Bool.false_eq_true]
            rw [put_objects hs, if_pos rfl]

theorem closeLocked_length (b : Broker) (i : Nat) :
    (b.closeLocked i).objects.length = b.objects.length := by
  rw [Broker.closeLocked]
  split
  · rfl
  · split
    · rfl
    · exact List.length_set

theorem publishOne_length (hint : Hint) (b : Broker) (i : Nat) :
    (Broker.publishOne hint b i).objects.length = b.objects.length := by
  rw [Broker.publishOne]
  split
  · rfl
  · split
    · exact List.length_set
    · exact closeLocked_length b i

theorem closeLocked_capacity (b : Broker) (i : Nat) :
    (b.closeLocked i).capacity = b.capacity := by
  rw [Broker.closeLocked]
  split
  · rfl
  · split <;> rfl

theorem publishOne_capacity (hint : Hint) (b : Broker) (i : Nat) :
    (Broker.publishOne hint b i).capacity = b.capacity := by
  rw [Broker.publishOne]
  split
  · rfl
  · split
    · rfl
    · exact closeLocked_capacity b i

/-- What one operation on a subscription leaves, the same on many leaves. -/
theorem foldl_keeps {β : Type} (f : Broker → β) {op : Broker → Nat → Broker}
    (one : ∀ b i, f (op b i) = f b) (ids : List Nat) (b : Broker) :
    f (ids.foldl op b) = f b := by
  induction ids generalizing b with
  | nil => rfl
  | cons i rest ih => rw [List.foldl_cons, ih, one]

theorem step_capacity (b : Broker) (a : Action) : (step b a).1.capacity = b.capacity := by
  cases a with
  | subscribe teamId recipientServerId =>
      simp only [step, Broker.subscribe]
      repeat' split
      all_goals rfl
  | publishMail arrival => exact foldl_keeps Broker.capacity (publishOne_capacity _) _ b
  | publishBulletin change => exact foldl_keeps Broker.capacity (publishOne_capacity _) _ b
  | invalidate teamId recipientServerId =>
      exact foldl_keeps Broker.capacity closeLocked_capacity _ b
  | close => exact foldl_keeps Broker.capacity closeLocked_capacity _ { b with closed := true }
  | closeSubscription j => exact closeLocked_capacity b j
  | seed j cursor =>
      simp only [step, Broker.seed]
      repeat' split
      all_goals first | rfl | exact closeLocked_capacity b j
  | take j =>
      simp only [step, Broker.take]
      repeat' split
      all_goals rfl

/-- Only `subscribe` adds a subscription. -/
theorem step_length (a : Action) (ha : ∀ teamId recipient, a ≠ .subscribe teamId recipient) :
    (step b a).1.objects.length = b.objects.length := by
  cases a with
  | subscribe teamId recipientServerId => exact absurd rfl (ha teamId recipientServerId)
  | publishMail arrival => exact foldl_keeps (fun b => b.objects.length) (publishOne_length _) _ b
  | publishBulletin change =>
      exact foldl_keeps (fun b => b.objects.length) (publishOne_length _) _ b
  | invalidate teamId recipientServerId =>
      exact foldl_keeps (fun b => b.objects.length) closeLocked_length _ b
  | close =>
      exact foldl_keeps (fun b => b.objects.length) closeLocked_length _ { b with closed := true }
  | closeSubscription j => exact closeLocked_length b j
  | seed j cursor =>
      simp only [step, Broker.seed]
      repeat' split
      all_goals first | rfl | exact closeLocked_length b j | exact List.length_set
  | take j =>
      simp only [step, Broker.take]
      repeat' split
      all_goals first | rfl | exact List.length_set

/-- A call of `subscribe` fails, or adds one subscription that nothing reached yet. -/
theorem subscribe_cases (b : Broker) (teamId recipientServerId : String) :
    (∃ e, b.subscribe teamId recipientServerId = (b, .error e)) ∨
      ∃ mailbox b', makeMailbox teamId recipientServerId = .ok mailbox ∧
        b.subscribe teamId recipientServerId = (b', .ok (.subscribed b.objects.length)) ∧
        b'.objects = b.objects ++ [{
          mailbox, mail := none, bulletin := none, seeded := false, pending := false
          closed := false }] := by
  unfold Broker.subscribe
  split
  · exact Or.inl ⟨_, rfl⟩
  · next mailbox hm =>
      split
      · exact Or.inl ⟨_, rfl⟩
      · split
        · exact Or.inl ⟨_, rfl⟩
        · exact Or.inr ⟨mailbox, _, hm, rfl, rfl⟩

/-- Only `subscribe` adds a subscription, and a new one is not seeded. -/
theorem step_fresh (a : Action) (hnone : b.objects[i]? = none)
    (h : (step b a).1.objects[i]? = some s) : s.seeded = false := by
  by_cases ha : ∃ teamId recipient, a = .subscribe teamId recipient
  · obtain ⟨teamId, recipient, rfl⟩ := ha
    change (b.subscribe teamId recipient).1.objects[i]? = some s at h
    rcases subscribe_cases b teamId recipient with ⟨_, he⟩ | ⟨_, _, _, he, hobjects⟩
    · rw [he, hnone] at h
      cases h
    · rw [he, hobjects, List.getElem?_append_right (List.getElem?_eq_none_iff.mp hnone),
        List.getElem?_singleton] at h
      split at h
      · rw [← Option.some.inj h]
      · cases h
  · have hlength := step_length (b := b) a fun teamId recipient he => ha ⟨teamId, recipient, he⟩
    rw [List.getElem?_eq_none_iff, ← hlength, ← List.getElem?_eq_none_iff, h] at hnone
    cases hnone

end Step

/-! ## Runs -/

theorem step_inv (b : Broker) (a : Action) (hb : Inv b) : Inv (step b a).1 :=
  (step_turn hb a).1

theorem length_filter_range {α : Type} (l : List α) (p : α → Bool) :
    ((List.range l.length).filter fun i => l[i]?.any p).length = l.countP p := by
  induction l using List.reverseRecOn with
  | nil => rfl
  | append_singleton l x ih =>
      rw [List.length_append, List.length_singleton, List.range_succ, List.filter_append,
        List.length_append, List.countP_append, ← ih]
      congr 1
      · congr 1
        apply List.filter_congr
        intro i hi
        rw [List.getElem?_append_left (List.mem_range.mp hi)]
      · by_cases hx : p x = true <;> simp [hx]

/-- The registered subscriptions that meet a condition are the open ones that do. -/
theorem length_members {b : Broker} (hb : Inv b) (condition : Subscription → Bool) :
    (b.members condition).length = b.objects.countP fun s => !s.closed && condition s := by
  rw [← length_filter_range]
  apply List.Perm.length_eq
  refine (List.perm_ext_iff_of_nodup (hb.nodup.filter _) (List.nodup_range.filter _)).mpr ?_
  intro i
  change i ∈ b.members condition ↔ _
  rw [mem_members hb, List.mem_filter, List.mem_range]
  constructor
  · rintro ⟨s, hs, open_, hc⟩
    exact ⟨getElem?_lt hs, by simp [hs, open_, hc]⟩
  · rintro ⟨hi, hany⟩
    rw [Option.any_eq_true] at hany
    obtain ⟨s, hs, hc⟩ := hany
    simp only [Bool.and_eq_true, Bool.not_eq_true'] at hc
    exact ⟨s, hs, hc.1, hc.2⟩

theorem length_registered {b : Broker} (hb : Inv b) :
    b.registered.length = b.objects.countP fun s => !s.closed := by
  have hall : b.members (fun _ => true) = b.registered := by
    rw [Broker.members, List.filter_eq_self]
    intro i hi
    obtain ⟨s, hs, _⟩ := (hb.registered i).mp hi
    rw [hs]
    rfl
  rw [← hall, length_members hb]
  simp

variable {capacity : Capacity}

/-- Every record offered to a subscription is covered by its heads while it is open. -/
theorem run_covers (acts : List Action) {e : Call}
    (he : e ∈ history step (Broker.new capacity) acts) {i : Nat} {hint : Hint}
    (h : Offers e i hint) :
    ∃ s, (run step (Broker.new capacity) acts).objects[i]? = some s ∧
      (s.closed = false → s.covers hint) := by
  refine history_marks step (I := Inv) (M := fun e b => ∀ i hint, Offers e i hint →
    ∃ s, b.objects[i]? = some s ∧ (s.closed = false → s.covers hint)) step_inv
    (fun b a hb i hint h => offers_covers hb h) ?_ _ (Inv.new capacity) acts e he i hint h
  intro e b a hb hm i hint h
  obtain ⟨s, hs, hcovers⟩ := hm i hint h
  obtain ⟨s', hs', turn⟩ := (step_turn hb a).2 i s hs
  refine ⟨s', hs', fun open_ => ?_⟩
  cases hc : s.closed with
  | true =>
      rw [turn.closed_stays hc] at open_
      cases open_
  | false => exact turn.covers_stays (hcovers hc) open_

/-- A reader with nothing pending was given exactly the heads. -/
theorem run_given (acts : List Action) {i : Nat} {s : Subscription}
    (hs : (run step (Broker.new capacity) acts).objects[i]? = some s) (open_ : s.closed = false)
    (quiet : s.pending = false) (seeded : s.seeded = true) :
    ∃ e ∈ history step (Broker.new capacity) acts, ∃ c, Gives e i c ∧
      s.mail = some c.mail ∧ s.bulletin = some c.bulletin := by
  induction acts using List.reverseRecOn generalizing s with
  | nil => simp [Broker.new] at hs
  | append_singleton acts a ih =>
      have hb := run_invariant step step_inv _ (Inv.new capacity) acts
      rw [run_append, run_cons, run_nil] at hs
      rw [history_append, history_cons, history_nil]
      have earlier : ∀ t, (run step (Broker.new capacity) acts).objects[i]? = some t →
          t.closed = false → t.pending = false → t.seeded = true →
          t.mail = s.mail ∧ t.bulletin = s.bulletin →
          ∃ e ∈ history step (Broker.new capacity) acts ++ [⟨run step (Broker.new capacity) acts, a,
            (step (run step (Broker.new capacity) acts) a).2⟩], ∃ c, Gives e i c ∧
            s.mail = some c.mail ∧ s.bulletin = some c.bulletin := by
        intro t ht ho hp hd hsame
        obtain ⟨e, he, c, hgives, hm, hc⟩ := ih ht ho hp hd
        exact ⟨e, List.mem_append_left _ he, c, hgives, hsame.1 ▸ hm, hsame.2 ▸ hc⟩
      cases ht : (run step (Broker.new capacity) acts).objects[i]? with
      | none =>
          rw [step_fresh a ht hs] at seeded
          cases seeded
      | some t =>
          obtain ⟨s', hs', turn⟩ := (step_turn hb a).2 i t ht
          obtain rfl : s = s' := Option.some.inj (hs.symm.trans hs')
          cases turn with
          | kept quiet' => exact earlier s ht open_ quiet seeded ⟨rfl, rfl⟩
          | closed s' shut =>
              rw [shut] at open_
              cases open_
          | published hint s' action concerns spec =>
              cases spec.pending with
              | inl hsame =>
                  rw [hsame] at open_ quiet seeded
                  exact earlier t ht open_ quiet seeded ⟨by rw [hsame], by rw [hsame]⟩
              | inr hpending =>
                  rw [hpending] at quiet
                  cases quiet
          | seeded cursor s' action outcome first spec =>
              obtain ⟨hm, hc⟩ := spec.raced quiet
              exact ⟨_, List.mem_append_right _ (List.mem_singleton.mpr rfl), cursor,
                Or.inr ⟨action, outcome, t, ht, first⟩, hm, hc⟩
          | took cursor action outcome mail bulletin open' seed =>
              exact ⟨_, List.mem_append_right _ (List.mem_singleton.mpr rfl), cursor,
                Or.inl ⟨action, outcome⟩, mail, bulletin⟩

/-- Later cursors of one subscription are never behind earlier ones. -/
theorem run_ordered (acts : List Action) :
    (history step (Broker.new capacity) acts).Pairwise fun e f =>
      ∀ i c c', Gives e i c → Gives f i c' → c.Before c' := by
  refine history_pairwise step (I := Inv) (M := fun e b => ∀ i c, Gives e i c →
    ∃ s, b.objects[i]? = some s ∧ (s.closed = false → s.seeded = true ∧
      s.covers (.mail c.mail) ∧ s.covers (.bulletin c.bulletin))) step_inv ?_ ?_ ?_ _
    (Inv.new capacity) acts
  · intro b a hb i c h
    obtain ⟨s, s', hs, open_, heads, hs', seeded, hm, hc⟩ := gives_heads hb h
    exact ⟨s', hs', fun _ => ⟨seeded, hm, hc⟩⟩
  · intro e b a hb mark i c h
    obtain ⟨s, hs, hold⟩ := mark i c h
    obtain ⟨s', hs', turn⟩ := (step_turn hb a).2 i s hs
    refine ⟨s', hs', fun open_ => ?_⟩
    cases hclosed : s.closed with
    | true =>
        rw [turn.closed_stays hclosed] at open_
        cases open_
    | false =>
        obtain ⟨seeded, hm, hc⟩ := hold hclosed
        exact ⟨turn.seeded_stays seeded open_, turn.covers_stays hm open_,
          turn.covers_stays hc open_⟩
  · intro e b a hb mark i c c' h h'
    obtain ⟨s, hs, hold⟩ := mark i c h
    obtain ⟨t, _, ht, open_, heads, _⟩ := gives_heads hb h'
    obtain rfl : s = t := Option.some.inj (hs.symm.trans ht)
    obtain ⟨seeded, hm, hc⟩ := hold open_
    obtain ⟨hmail, hbulletin⟩ := heads seeded
    constructor
    · rw [Subscription.covers, hmail] at hm
      exact hm
    · rw [Subscription.covers, hbulletin] at hc
      exact hc

/-- A closed subscription is closed at the end of the run. -/
theorem run_closed (b : Broker) (hb : Inv b) (acts : List Action) {i : Nat}
    (h : ∃ s, b.objects[i]? = some s ∧ s.closed = true) :
    ∃ s, (run step b acts).objects[i]? = some s ∧ s.closed = true := by
  refine (run_invariant step (I := fun b => Inv b ∧
    ∃ s, b.objects[i]? = some s ∧ s.closed = true) ?_ b ⟨hb, h⟩ acts).2
  rintro b a ⟨hb, s, hs, hclosed⟩
  obtain ⟨s', hs', turn⟩ := (step_turn hb a).2 i s hs
  exact ⟨step_inv b a hb, s', hs', turn.closed_stays hclosed⟩

theorem run_conflict (acts : List Action) {e : Call}
    (he : e ∈ history step (Broker.new capacity) acts) {i : Nat} {s : Subscription} {hint : Hint}
    (hs : e.before.objects[i]? = some s) (conflict : s.conflicts hint) (h : Offers e i hint) :
    ∃ s, (run step (Broker.new capacity) acts).objects[i]? = some s ∧ s.closed = true := by
  obtain ⟨before, after, hsplit⟩ := List.append_of_mem he
  obtain ⟨pre, a, post, rfl, _, rfl, _⟩ := history_split step _ _ _ _ _ hsplit
  have hb := run_invariant step step_inv _ (Inv.new capacity) pre
  rw [run_append, run_cons]
  exact run_closed _ (step_inv _ a hb) post (conflict_closes hb hs conflict h)

/-- Heads that cover two contradicting records are past both. -/
theorem covers_contradicts {s : Subscription} {hint hint' : Hint} (h : s.covers hint)
    (h' : s.covers hint') (contradicts : hint.Contradicts hint') : s.isPast hint := by
  have past : ∀ {α : Type} {seq : α → Nat} {head : Option α} {a a' : α},
      Latest.Covers seq head a → Latest.Covers seq head a' → seq a = seq a' ∧ a ≠ a' →
      ∃ top, head = some top ∧ seq a < seq top := by
    intro α seq head a a' ha ha' hc
    obtain ⟨top, rfl, hle⟩ := ha
    obtain ⟨_, htop, hle'⟩ := ha'
    obtain rfl := Option.some.inj htop
    refine ⟨top, rfl, ?_⟩
    cases hle with
    | inl hlt => exact hlt
    | inr heq =>
        cases hle' with
        | inl hlt => rw [hc.1]; exact hlt
        | inr heq' => exact absurd (heq.trans heq'.symm) hc.2
  cases hint with
  | mail arrival =>
      cases hint' with
      | mail arrival' => exact past h h' contradicts
      | bulletin change' => exact contradicts.elim
  | bulletin change =>
      cases hint' with
      | mail arrival' => exact contradicts.elim
      | bulletin change' => exact past h h' contradicts

/-- The heads the reader was given contain what they cover. -/
theorem contains_of_covers {s : Subscription} {c : NotificationCursor} {hint : Hint}
    (mail : s.mail = some c.mail) (bulletin : s.bulletin = some c.bulletin)
    (h : s.covers hint) : c.contains hint := by
  cases hint with
  | mail arrival =>
      rw [Subscription.covers, mail] at h
      exact h
  | bulletin change =>
      rw [Subscription.covers, bulletin] at h
      exact h

theorem not_covers_fresh {s : Subscription} (mail : s.mail = none) (bulletin : s.bulletin = none)
    (hint : Hint) : ¬ s.covers hint := by
  cases hint with
  | mail arrival =>
      rw [Subscription.covers, mail]
      exact Latest.not_covers_none arrival
  | bulletin change =>
      rw [Subscription.covers, bulletin]
      exact Latest.not_covers_none change

theorem run_not_lost (acts : List Action) {i : Nat} {s : Subscription}
    (hs : (run step (Broker.new capacity) acts).objects[i]? = some s) (open_ : s.closed = false)
    (quiet : s.pending = false) {e : Call} (he : e ∈ history step (Broker.new capacity) acts)
    {hint : Hint} (h : Offers e i hint) :
    ∃ f ∈ history step (Broker.new capacity) acts, ∃ c, Gives f i c ∧ c.contains hint := by
  have hb := run_invariant step step_inv _ (Inv.new capacity) acts
  obtain ⟨t, ht, hcovers⟩ := run_covers acts he h
  obtain rfl : s = t := Option.some.inj (hs.symm.trans ht)
  cases hseeded : s.seeded with
  | false =>
      obtain ⟨hm, hc⟩ := (hb.objects i s hs).fresh hseeded quiet
      exact absurd (hcovers open_) (not_covers_fresh hm hc hint)
  | true =>
      obtain ⟨f, hf, c, hgives, hm, hc⟩ := run_given acts hs open_ quiet hseeded
      exact ⟨f, hf, c, hgives, contains_of_covers hm hc (hcovers open_)⟩

theorem run_capacity (acts : List Action) :
    (run step (Broker.new capacity) acts).capacity = capacity :=
  run_invariant step (I := fun b => b.capacity = capacity)
    (fun b a h => (step_capacity b a).trans h) _ rfl acts

/-- Every interleaving of the calls of one broker. Cursors of one subscription
only advance. A record that contradicts the head closes the subscription, and
of two contradicting records neither stays a head. With nothing pending, the
reader of an open subscription was given every record offered to it or a newer
one. The count is the number of open subscriptions, within both limits. -/
theorem hints_not_lost (capacity : Capacity) (acts : List Action) :
    ((history step (Broker.new capacity) acts).Pairwise fun e f =>
      ∀ i c c', Gives e i c → Gives f i c' → c.Before c') ∧
    (∀ e ∈ history step (Broker.new capacity) acts, ∀ i s hint,
      e.before.objects[i]? = some s → s.conflicts hint → Offers e i hint →
      ∃ s', (run step (Broker.new capacity) acts).objects[i]? = some s' ∧ s'.closed = true) ∧
    (∀ e ∈ history step (Broker.new capacity) acts,
      ∀ f ∈ history step (Broker.new capacity) acts, ∀ i hint hint',
      Offers e i hint → Offers f i hint' → hint.Contradicts hint' →
      ∃ s, (run step (Broker.new capacity) acts).objects[i]? = some s ∧
        (s.closed = true ∨ s.isPast hint)) ∧
    (∀ i s, (run step (Broker.new capacity) acts).objects[i]? = some s → s.closed = false →
      s.pending = false → ∀ e ∈ history step (Broker.new capacity) acts, ∀ hint, Offers e i hint →
      ∃ f ∈ history step (Broker.new capacity) acts, ∃ c, Gives f i c ∧ c.contains hint) ∧
    (run step (Broker.new capacity) acts).count =
      (run step (Broker.new capacity) acts).objects.countP (fun s => !s.closed) ∧
    (run step (Broker.new capacity) acts).objects.countP (fun s => !s.closed) ≤
      capacity.maxSubscriptions ∧
    ∀ mailbox, (run step (Broker.new capacity) acts).objects.countP
      (fun s => !s.closed && decide (s.mailbox = mailbox)) ≤ capacity.maxPerRecipient := by
  have hb := run_invariant step step_inv _ (Inv.new capacity) acts
  refine ⟨run_ordered acts, ?_, ?_, ?_, ?_, ?_, ?_⟩
  · intro e he i s hint hs conflict h
    exact run_conflict acts he hs conflict h
  · intro e he f hf i hint hint' h h' contradicts
    obtain ⟨s, hs, hcovers⟩ := run_covers acts he h
    obtain ⟨t, ht, hcovers'⟩ := run_covers acts hf h'
    obtain rfl : s = t := Option.some.inj (hs.symm.trans ht)
    refine ⟨s, hs, ?_⟩
    cases hclosed : s.closed with
    | true => exact Or.inl rfl
    | false => exact Or.inr (covers_contradicts (hcovers hclosed) (hcovers' hclosed) contradicts)
  · intro i s hs open_ quiet e he hint h
    exact run_not_lost acts hs open_ quiet he h
  · rw [hb.count, length_registered hb]
  · rw [← length_registered hb]
    have hcap := hb.total
    rw [run_capacity] at hcap
    exact hcap
  · intro mailbox
    rw [← length_members hb]
    have hcap := hb.perMailbox mailbox
    rw [run_capacity] at hcap
    exact hcap

end AgentsServer.Notifications

import AgentsServer.Notifications.Broker
import Mathlib.Data.List.Nodup
import Mathlib.Tactic.Common

/-!
# The invariant of the broker

What a subscription keeps, that the registry is the open subscriptions, and how
each call moves one subscription.
-/

namespace AgentsServer.Notifications

open Library

/-! ## One subscription -/

structure SubInv (s : Subscription) : Prop where
  shut : s.closed = true → s.pending = false ∧ s.mail = none ∧ s.bulletin = none
  mailbox : ∀ m, s.mail = some m → m.mailbox = s.mailbox
  team : ∀ c, s.bulletin = some c → c.teamId = s.mailbox.teamId
  seeded : s.closed = false → s.seeded = true → s.mail.isSome = true ∧ s.bulletin.isSome = true
  fresh : s.seeded = false → s.pending = false → s.mail = none ∧ s.bulletin = none

/-- The head of the record's component is the record or a newer one. -/
def Subscription.covers (s : Subscription) : Hint → Prop
  | .mail arrival => Latest.Covers MailArrival.throughSequence s.mail arrival
  | .bulletin change => Latest.Covers BulletinChange.throughSequence s.bulletin change

/-- What a published record does to an open subscription that stays open. -/
structure Published (s : Subscription) (hint : Hint) (s' : Subscription) : Prop where
  mailbox : s'.mailbox = s.mailbox
  closed : s'.closed = s.closed
  seeded : s'.seeded = s.seeded
  covers : s'.covers hint
  kept : ∀ old, s.covers old → s'.covers old
  pending : s' = s ∨ s'.pending = true

theorem publish_spec {s s' : Subscription} {hint : Hint} (h : s.publish hint = some s') :
    Published s hint s' := by
  cases hint with
  | mail arrival =>
      simp only [Subscription.publish] at h
      split at h
      · next hv =>
          cases h
          refine ⟨rfl, rfl, rfl, Latest.covers_self arrival, ?_, Or.inr rfl⟩
          intro old hold
          cases old with
          | mail a => exact Latest.Covers.newer hv hold
          | bulletin c => exact hold
      · cases h
      · next hne hnc =>
          cases h
          refine ⟨rfl, rfl, rfl, Latest.covers_of_compare ?_, fun _ => id, Or.inl rfl⟩
          cases hv : Latest.compare MailArrival.throughSequence s.mail arrival with
          | newer => exact absurd hv hne
          | conflict => exact absurd hv hnc
          | same => exact Or.inl rfl
          | older => exact Or.inr rfl
  | bulletin change =>
      simp only [Subscription.publish] at h
      split at h
      · next hv =>
          cases h
          refine ⟨rfl, rfl, rfl, Latest.covers_self change, ?_, Or.inr rfl⟩
          intro old hold
          cases old with
          | mail a => exact hold
          | bulletin c => exact Latest.Covers.newer hv hold
      · cases h
      · next hne hnc =>
          cases h
          refine ⟨rfl, rfl, rfl, Latest.covers_of_compare ?_, fun _ => id, Or.inl rfl⟩
          cases hv : Latest.compare BulletinChange.throughSequence s.bulletin change with
          | newer => exact absurd hv hne
          | conflict => exact absurd hv hnc
          | same => exact Or.inl rfl
          | older => exact Or.inr rfl

theorem publish_inv {s s' : Subscription} {hint : Hint} (hs : SubInv s) (open_ : s.closed = false)
    (concerns : s.concerns hint) (h : s.publish hint = some s') : SubInv s' := by
  have hp := publish_spec h
  refine ⟨?_, ?_, ?_, ?_, ?_⟩
  · intro hc
    rw [hp.closed, open_] at hc
    cases hc
  · intro m hm
    rw [hp.mailbox]
    cases hint with
    | mail arrival =>
        simp only [Subscription.publish] at h
        split at h <;> cases h
        · rw [← Option.some.inj hm]
          exact concerns.symm
        · exact hs.mailbox m hm
    | bulletin change =>
        simp only [Subscription.publish] at h
        split at h <;> cases h <;> exact hs.mailbox m hm
  · intro c hc
    rw [hp.mailbox]
    cases hint with
    | mail arrival =>
        simp only [Subscription.publish] at h
        split at h <;> cases h <;> exact hs.team c hc
    | bulletin change =>
        simp only [Subscription.publish] at h
        split at h <;> cases h
        · rw [← Option.some.inj hc]
          exact concerns.symm
        · exact hs.team c hc
  · intro _ hseed
    rw [hp.seeded] at hseed
    have hsome := hs.seeded open_ hseed
    cases hint with
    | mail arrival =>
        simp only [Subscription.publish] at h
        split at h <;> cases h
        · exact ⟨rfl, hsome.2⟩
        · exact hsome
    | bulletin change =>
        simp only [Subscription.publish] at h
        split at h <;> cases h
        · exact ⟨hsome.1, rfl⟩
        · exact hsome
  · intro hseed hpend
    rcases hp.pending with rfl | htrue
    · exact hs.fresh hseed hpend
    · rw [htrue] at hpend
      cases hpend

/-- What one field of a seed becomes. -/
theorem seedField_spec {α : Type} [DecidableEq α] {seq : α → Nat} {head head' : Option α}
    {value : α} {raced : Bool} (h : seedField seq head value = some (head', raced)) :
    Latest.Covers seq head' value ∧ (∀ a, Latest.Covers seq head a → Latest.Covers seq head' a) ∧
      (raced = false → head' = some value) ∧ (head' = some value ∨ head' = head) := by
  unfold seedField at h
  split at h
  · cases h
  · next hv =>
      cases h
      exact ⟨Latest.covers_of_compare (Or.inr hv), fun _ => id, by simp, Or.inr rfl⟩
  · next hnc hno =>
      cases h
      refine ⟨Latest.covers_self value, ?_, fun _ => rfl, Or.inl rfl⟩
      intro a ha
      cases hv : Latest.compare seq head value with
      | newer => exact Latest.Covers.newer hv ha
      | conflict => exact absurd hv hnc
      | older => exact absurd hv hno
      | same =>
          rw [← Latest.compare_same hv]
          exact ha

/-- What a snapshot does to an open subscription. -/
structure Seeded (s : Subscription) (c : NotificationCursor) (s' : Subscription) : Prop where
  mailbox : s'.mailbox = s.mailbox
  closed : s'.closed = s.closed
  seeded : s'.seeded = true
  mail : s'.covers (.mail c.mail)
  bulletin : s'.covers (.bulletin c.bulletin)
  kept : ∀ old, s.covers old → s'.covers old
  raced : s'.pending = false → s'.mail = some c.mail ∧ s'.bulletin = some c.bulletin
  mail_cases : s'.mail = some c.mail ∨ s'.mail = s.mail
  bulletin_cases : s'.bulletin = some c.bulletin ∨ s'.bulletin = s.bulletin

theorem seed_spec {s s' : Subscription} {c : NotificationCursor} (h : s.seed c = some s') :
    Seeded s c s' := by
  simp only [Subscription.seed, Option.bind_eq_bind, Option.bind_eq_some_iff, Option.pure_def,
    Option.some.injEq] at h
  obtain ⟨⟨mail, raced⟩, hm, ⟨bulletin, raced'⟩, hb, rfl⟩ := h
  obtain ⟨hmc, hmk, hmr, hmx⟩ := seedField_spec hm
  obtain ⟨hbc, hbk, hbr, hbx⟩ := seedField_spec hb
  refine ⟨rfl, rfl, rfl, hmc, hbc, ?_, ?_, hmx, hbx⟩
  · intro old hold
    cases old with
    | mail a => exact hmk a hold
    | bulletin a => exact hbk a hold
  · intro hp
    simp only [Bool.or_eq_false_iff] at hp
    exact ⟨hmr hp.1, hbr hp.2⟩

theorem seed_inv {s s' : Subscription} {c : NotificationCursor} (hs : SubInv s)
    (open_ : s.closed = false) (same : c.mailbox = s.mailbox) (h : s.seed c = some s') :
    SubInv s' := by
  have hp := seed_spec h
  have hmail : s'.mail.isSome = true := by
    obtain ⟨_, he, _⟩ := hp.mail
    rw [he]
    rfl
  have hbulletin : s'.bulletin.isSome = true := by
    obtain ⟨_, he, _⟩ := hp.bulletin
    rw [he]
    rfl
  refine ⟨?_, ?_, ?_, fun _ _ => ⟨hmail, hbulletin⟩, ?_⟩
  · intro hc
    rw [hp.closed, open_] at hc
    cases hc
  · intro m hm
    rw [hp.mailbox]
    rcases hp.mail_cases with he | he
    · rw [he] at hm
      rw [← Option.some.inj hm]
      exact same
    · rw [he] at hm
      exact hs.mailbox m hm
  · intro b hb
    rw [hp.mailbox]
    rcases hp.bulletin_cases with he | he
    · rw [he] at hb
      rw [← Option.some.inj hb, ← c.same_team, ← same]
      rfl
    · rw [he] at hb
      exact hs.team b hb
  · intro hseed
    rw [hp.seeded] at hseed
    cases hseed

theorem shut_inv (s : Subscription) : SubInv s.shut := by
  refine ⟨fun _ => ⟨rfl, rfl, rfl⟩, ?_, ?_, ?_, fun _ _ => ⟨rfl, rfl⟩⟩
  · intro m hm
    cases hm
  · intro c hc
    cases hc
  · intro hc
    cases hc

/-! ## The broker -/

structure Inv (b : Broker) : Prop where
  registered : ∀ i : Nat, i ∈ b.registered ↔ ∃ s : Subscription, b.objects[i]? = some s ∧ s.closed = false
  nodup : b.registered.Nodup
  count : b.count = b.registered.length
  total : b.registered.length ≤ b.capacity.maxSubscriptions
  perMailbox : ∀ mailbox : Mailbox, (b.members fun s => decide (s.mailbox = mailbox)).length ≤
    b.capacity.maxPerRecipient
  objects : ∀ (i : Nat) (s : Subscription), b.objects[i]? = some s → SubInv s

theorem Inv.new (capacity : Capacity) : Inv (Broker.new capacity) := by
  constructor <;> simp [Broker.new, Broker.members]

variable {b : Broker} {i : Nat} {s s' : Subscription}

theorem getElem?_lt (h : b.objects[i]? = some s) : i < b.objects.length :=
  (List.getElem?_eq_some_iff.mp h).1

theorem put_objects (h : b.objects[i]? = some s) (s' : Subscription) (j : Nat) :
    (b.put i s').objects[j]? = if j = i then some s' else b.objects[j]? := by
  have hi := getElem?_lt h
  by_cases hj : j = i
  · subst hj
    simp [Broker.put, hi]
  · rw [if_neg hj, Broker.put, List.getElem?_set_ne fun he => hj he.symm]

/-- A subscription in place of another one of the same mailbox. -/
theorem Inv.put (hb : Inv b) (h : b.objects[i]? = some s) (open_ : s.closed = false)
    (hs : SubInv s') (mailbox : s'.mailbox = s.mailbox) (closed : s'.closed = false) :
    Inv (b.put i s') := by
  have hobj := put_objects h s'
  refine ⟨?_, hb.nodup, hb.count, hb.total, ?_, ?_⟩
  · intro j
    rw [hobj]
    by_cases hj : j = i
    · subst hj
      rw [if_pos rfl]
      constructor
      · intro _
        exact ⟨s', rfl, closed⟩
      · intro _
        exact (hb.registered j).mpr ⟨s, h, open_⟩
    · rw [if_neg hj]
      exact hb.registered j
  · intro mb
    have hsame : ((b.put i s').members fun s => decide (s.mailbox = mb)) =
        b.members fun s => decide (s.mailbox = mb) := by
      apply List.filter_congr
      intro j _
      rw [hobj]
      by_cases hj : j = i
      · subst hj
        rw [if_pos rfl, h]
        simp [mailbox]
      · rw [if_neg hj]
    rw [hsame]
    exact hb.perMailbox mb
  · intro j t ht
    rw [hobj] at ht
    by_cases hj : j = i
    · rw [if_pos hj] at ht
      rw [← Option.some.inj ht]
      exact hs
    · rw [if_neg hj] at ht
      exact hb.objects j t ht

/-- Closing an open subscription. -/
theorem closeLocked_open (h : b.objects[i]? = some s) (open_ : s.closed = false) :
    b.closeLocked i = { b.put i s.shut with
      registered := b.registered.filter fun j => j ≠ i
      count := b.count - 1 } := by
  rw [Broker.closeLocked, h]
  simp [open_]

theorem Inv.closeOpen (hb : Inv b) (h : b.objects[i]? = some s) (open_ : s.closed = false) :
    Inv (b.closeLocked i) ∧
      ∀ j, (b.closeLocked i).objects[j]? = if j = i then some s.shut else b.objects[j]? := by
  have hobj := put_objects h s.shut
  have hmem : i ∈ b.registered := (hb.registered i).mpr ⟨s, h, open_⟩
  rw [closeLocked_open h open_]
  have hlength : (b.registered.filter fun j => decide (j ≠ i)).length + 1 = b.registered.length := by
    have he : (b.registered.filter fun j => decide (j ≠ i)) = b.registered.erase i := by
      rw [hb.nodup.erase_eq_filter]
      apply List.filter_congr
      intro j _
      simp [bne, Bool.beq_eq_decide_eq]
    rw [he, List.length_erase_of_mem hmem]
    have hpos := List.length_pos_of_mem hmem
    omega
  refine ⟨⟨?_, hb.nodup.filter _, ?_, ?_, ?_, ?_⟩, hobj⟩
  · intro j
    change j ∈ b.registered.filter _ ↔ ∃ t, (b.put i s.shut).objects[j]? = some t ∧ _
    rw [List.mem_filter, hobj, decide_eq_true_eq]
    by_cases hj : j = i
    · subst hj
      rw [if_pos rfl]
      constructor
      · rintro ⟨_, hne⟩
        exact absurd rfl hne
      · rintro ⟨t, ht, hclosed⟩
        rw [← Option.some.inj ht] at hclosed
        cases hclosed
    · rw [if_neg hj, ← hb.registered j]
      exact ⟨fun h => h.1, fun h => ⟨h, hj⟩⟩
  · change b.count - 1 = ((b.registered.filter fun j => decide (j ≠ i)).length : Int)
    rw [hb.count]
    omega
  · change (b.registered.filter _).length ≤ b.capacity.maxSubscriptions
    exact Nat.le_trans (List.length_filter_le _ _) hb.total
  · intro mb
    refine Nat.le_trans ?_ (hb.perMailbox mb)
    change ((b.registered.filter fun j => decide (j ≠ i)).filter fun j =>
      (b.put i s.shut).objects[j]?.any fun s => decide (s.mailbox = mb)).length ≤ _
    apply List.Sublist.length_le
    have hsame : ((b.registered.filter fun j => decide (j ≠ i)).filter fun j =>
        (b.put i s.shut).objects[j]?.any fun s => decide (s.mailbox = mb)) =
        ((b.registered.filter fun j => decide (j ≠ i)).filter fun j =>
          b.objects[j]?.any fun s => decide (s.mailbox = mb)) := by
      apply List.filter_congr
      intro j hj
      rw [List.mem_filter, decide_eq_true_eq] at hj
      rw [hobj, if_neg hj.2]
    rw [hsame]
    exact (List.filter_sublist).filter _
  · intro j t ht
    change (b.put i s.shut).objects[j]? = some t at ht
    rw [hobj] at ht
    by_cases hj : j = i
    · rw [if_pos hj] at ht
      rw [← Option.some.inj ht]
      exact shut_inv s
    · rw [if_neg hj] at ht
      exact hb.objects j t ht

/-- What a publication makes of one open subscription. -/
def Subscription.delivered (hint : Hint) (s : Subscription) : Subscription :=
  (s.publish hint).getD s.shut

theorem Inv.publishOne (hb : Inv b) {hint : Hint} (h : b.objects[i]? = some s)
    (hp : s.closed = false ∧ s.concerns hint) :
    Inv (Broker.publishOne hint b i) ∧ ∀ j, (Broker.publishOne hint b i).objects[j]? =
      if j = i then some (s.delivered hint) else b.objects[j]? := by
  rw [Broker.publishOne, h]
  cases hd : s.publish hint with
  | some s' =>
      have hspec := publish_spec hd
      simp only [Subscription.delivered, hd, Option.getD_some]
      exact ⟨hb.put h hp.1 (publish_inv (hb.objects i s h) hp.1 hp.2 hd) hspec.mailbox
        (hspec.closed.trans hp.1), put_objects h _⟩
  | none =>
      simp only [Subscription.delivered, hd, Option.getD_none]
      exact hb.closeOpen h hp.1

/-- One operation on each member of a list of subscriptions. -/
theorem Inv.foldl (op : Broker → Nat → Broker) (f : Subscription → Subscription)
    (P : Subscription → Prop)
    (one : ∀ {b i s}, Inv b → b.objects[i]? = some s → P s →
      Inv (op b i) ∧ ∀ j, (op b i).objects[j]? = if j = i then some (f s) else b.objects[j]?)
    (ids : List Nat) (hn : ids.Nodup) (hb : Inv b)
    (hp : ∀ i ∈ ids, ∃ s, b.objects[i]? = some s ∧ P s) :
    Inv (ids.foldl op b) ∧ ∀ j, (ids.foldl op b).objects[j]? =
      if j ∈ ids then (b.objects[j]?).map f else b.objects[j]? := by
  induction ids generalizing b with
  | nil => exact ⟨hb, fun j => by simp⟩
  | cons i rest ih =>
      rw [List.nodup_cons] at hn
      obtain ⟨s, hs, hps⟩ := hp i (by simp)
      obtain ⟨hb', hobj⟩ := one hb hs hps
      obtain ⟨hlast, hfinal⟩ := ih hn.2 hb' (by
        intro j hj
        obtain ⟨t, ht, hpt⟩ := hp j (List.mem_cons_of_mem _ hj)
        have hne : j ≠ i := fun he => hn.1 (he ▸ hj)
        exact ⟨t, by rw [hobj, if_neg hne, ht], hpt⟩)
      refine ⟨hlast, ?_⟩
      intro j
      rw [List.foldl_cons, hfinal]
      by_cases hj : j = i
      · subst hj
        rw [if_neg hn.1, hobj, if_pos rfl, if_pos (by simp), hs]
        rfl
      · rw [hobj, if_neg hj]
        simp [hj]

theorem mem_members (hb : Inv b) {condition : Subscription → Bool} :
    i ∈ b.members condition ↔
      ∃ s, b.objects[i]? = some s ∧ s.closed = false ∧ condition s = true := by
  rw [Broker.members, List.mem_filter, hb.registered]
  constructor
  · rintro ⟨⟨s, hs, ho⟩, hany⟩
    rw [hs, Option.any_some] at hany
    exact ⟨s, hs, ho, hany⟩
  · rintro ⟨s, hs, ho, hc⟩
    exact ⟨⟨s, hs, ho⟩, by rw [hs, Option.any_some, hc]⟩

theorem Inv.publish (hb : Inv b) (hint : Hint) :
    Inv (b.publish hint) ∧ ∀ (j : Nat) (s : Subscription), b.objects[j]? = some s →
      (b.publish hint).objects[j]? =
        some (if s.closed = false ∧ s.concerns hint then s.delivered hint else s) := by
  have hmem : ∀ j, j ∈ (b.members fun s => decide (s.concerns hint)) ↔
      ∃ s, b.objects[j]? = some s ∧ s.closed = false ∧ s.concerns hint := by
    intro j
    rw [mem_members hb]
    simp only [decide_eq_true_eq]
  obtain ⟨hinv, hobj⟩ := Inv.foldl (Broker.publishOne hint) (Subscription.delivered hint)
    (fun s => s.closed = false ∧ s.concerns hint) (fun hb h hp => hb.publishOne h hp)
    (b.members fun s => decide (s.concerns hint)) (hb.nodup.filter _) hb
    (fun j hj => (hmem j).mp hj)
  refine ⟨hinv, ?_⟩
  intro j s hs
  rw [Broker.publish, hobj, hs]
  by_cases hj : s.closed = false ∧ s.concerns hint
  · rw [if_pos ((hmem j).mpr ⟨s, hs, hj⟩), if_pos hj]
    rfl
  · rw [if_neg, if_neg hj]
    intro hm
    obtain ⟨t, ht, hp⟩ := (hmem j).mp hm
    rw [hs] at ht
    rw [← Option.some.inj ht] at hp
    exact hj hp

theorem Inv.closeAll (hb : Inv b) (condition : Subscription → Bool) :
    Inv (b.closeAll condition) ∧ ∀ (j : Nat) (s : Subscription), b.objects[j]? = some s →
      (b.closeAll condition).objects[j]? =
        some (if s.closed = false ∧ condition s = true then s.shut else s) := by
  obtain ⟨hinv, hobj⟩ := Inv.foldl Broker.closeLocked Subscription.shut
    (fun s => s.closed = false) (fun hb h hp => hb.closeOpen h hp)
    (b.members condition) (hb.nodup.filter _) hb
    (fun j hj => by
      obtain ⟨s, hs, ho, _⟩ := (mem_members hb).mp hj
      exact ⟨s, hs, ho⟩)
  refine ⟨hinv, ?_⟩
  intro j s hs
  rw [Broker.closeAll, hobj, hs]
  by_cases hj : s.closed = false ∧ condition s = true
  · rw [if_pos ((mem_members hb).mpr ⟨s, hs, hj⟩), if_pos hj]
    rfl
  · rw [if_neg, if_neg hj]
    intro hm
    obtain ⟨t, ht, hp⟩ := (mem_members hb).mp hm
    rw [hs] at ht
    rw [← Option.some.inj ht] at hp
    exact hj hp

/-- A new subscription, within both limits. -/
theorem Inv.subscribe (hb : Inv b) (mailbox : Mailbox)
    (total : b.registered.length < b.capacity.maxSubscriptions)
    (perMailbox : (b.members fun s => decide (s.mailbox = mailbox)).length <
      b.capacity.maxPerRecipient) :
    Inv { b with
      objects := b.objects ++ [{
        mailbox, mail := none, bulletin := none, seeded := false, pending := false
        closed := false }]
      registered := b.registered ++ [b.objects.length]
      count := b.count + 1 } := by
  set new : Subscription := {
    mailbox, mail := none, bulletin := none, seeded := false, pending := false, closed := false }
  have hold : ∀ j ∈ b.registered, j < b.objects.length := by
    intro j hj
    obtain ⟨s, hs, _⟩ := (hb.registered j).mp hj
    exact getElem?_lt hs
  have hfresh : b.objects.length ∉ b.registered := fun h => Nat.lt_irrefl _ (hold _ h)
  refine ⟨?_, ?_, ?_, ?_, ?_, ?_⟩
  · intro j
    rw [List.mem_append, List.mem_singleton]
    rcases Nat.lt_trichotomy j b.objects.length with hlt | rfl | hgt
    · rw [List.getElem?_append_left hlt, ← hb.registered j]
      constructor
      · rintro (h | rfl)
        · exact h
        · exact absurd hlt (Nat.lt_irrefl _)
      · exact Or.inl
    · rw [List.getElem?_append_right (Nat.le_refl _), Nat.sub_self]
      exact ⟨fun _ => ⟨new, rfl, rfl⟩, fun _ => Or.inr rfl⟩
    · have hnone : (b.objects ++ [new])[j]? = none := by
        rw [List.getElem?_eq_none_iff, List.length_append, List.length_singleton]
        omega
      rw [hnone]
      constructor
      · rintro (h | rfl)
        · exact absurd (hold j h) (by omega)
        · exact absurd hgt (Nat.lt_irrefl _)
      · rintro ⟨_, h, _⟩
        cases h
  · refine List.nodup_append.mpr ⟨hb.nodup, by simp, ?_⟩
    rintro j hj _ hk rfl
    rw [List.mem_singleton.mp hk] at hj
    exact hfresh hj
  · simp only [hb.count, List.length_append, List.length_singleton]
    omega
  · rw [List.length_append, List.length_singleton]
    exact total
  · intro mb
    simp only [Broker.members, List.filter_append, List.length_append]
    have hsame : (b.registered.filter fun j => (b.objects ++ [new])[j]?.any fun s =>
        decide (s.mailbox = mb)) = b.members fun s => decide (s.mailbox = mb) := by
      apply List.filter_congr
      intro j hj
      rw [List.getElem?_append_left (hold j hj)]
    rw [hsame]
    by_cases hmb : mailbox = mb
    · subst hmb
      have hle := List.length_filter_le (fun j => (b.objects ++ [new])[j]?.any fun s =>
        decide (s.mailbox = mailbox)) [b.objects.length]
      rw [List.length_singleton] at hle
      omega
    · rw [List.filter_cons_of_neg]
      · simpa using hb.perMailbox mb
      · rw [List.getElem?_append_right (Nat.le_refl _), Nat.sub_self]
        simpa using hmb
  · intro j t ht
    rcases Nat.lt_or_ge j b.objects.length with hlt | hge
    · rw [List.getElem?_append_left hlt] at ht
      exact hb.objects j t ht
    · rw [List.getElem?_append_right hge, List.getElem?_singleton] at ht
      split at ht
      · rw [← Option.some.inj ht]
        refine ⟨fun _ => ⟨rfl, rfl, rfl⟩, ?_, ?_, ?_, fun _ _ => ⟨rfl, rfl⟩⟩
        · intro m hm
          cases hm
        · intro c hc
          cases hc
        · intro _ h
          cases h
      · cases ht

end AgentsServer.Notifications

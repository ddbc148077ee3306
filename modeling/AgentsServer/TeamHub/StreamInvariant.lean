import AgentsServer.TeamHub.Streams

/-!
# What a stream has reached

Each open stream has reached the head of its mailbox and the head of its team, or a
publication that will bring it there is still owed. A commit keeps this, and so does
each publication that runs or fails.
-/

namespace AgentsServer.TeamHub

open Library
open Notifications (MailArrival BulletinChange NotificationCursor Mailbox Broker Capacity
  Subscription Hint SubInv Published)

/-! ## What an owed publication settles -/

/-- The publication brings the streams of a mailbox to the mail head. -/
def Owed.SettlesMail (h : Hub) (box : Mailbox) : Owed → Prop
  | .publication (.mail teamId nodeId sequence _) =>
      (teamId = box.teamId ∧ nodeId = box.recipientServerId) ∧
        mailThrough (h.arrival? teamId nodeId) ≤ sequence
  | _ => False

/-- The publication brings the streams of a team to the Bulletin head. -/
def Owed.SettlesBulletin (h : Hub) (teamId : String) : Owed → Prop
  | .publication p => p.TellsBulletin h teamId
  | .head change => change.teamId = teamId ∧
      bulletinThrough (h.latestChange? teamId) ≤ change.throughSequence

/-- What the publication tells is the head or older. -/
def Owed.Sound (h : Hub) : Owed → Prop
  | .publication (.mail teamId nodeId sequence id) =>
      Latest.Covers mailThrough (some (h.arrival? teamId nodeId))
        (some ⟨teamId, nodeId, sequence, id⟩)
  | .publication (.bulletin ..) => True
  | .head change => h.KnowsBulletin change

def Hub.KnowsHint (h : Hub) : Hint → Prop
  | .mail arrival => h.KnowsMail arrival
  | .bulletin change => h.KnowsBulletin change

/-- A stream at this number has reached the mail head, or will. -/
def MailReached (h : Hub) (owed : List Owed) (box : Mailbox) (through : Nat) : Prop :=
  mailThrough (h.arrival? box.teamId box.recipientServerId) ≤ through ∨
    ∃ o ∈ owed, o.SettlesMail h box

def BulletinReached (h : Hub) (owed : List Owed) (teamId : String) (through : Nat) : Prop :=
  bulletinThrough (h.latestChange? teamId) ≤ through ∨ ∃ o ∈ owed, o.SettlesBulletin h teamId

/-! ## What a stream knows -/

def subMailThrough (s : Subscription) : Nat :=
  s.mail.elim 0 MailArrival.throughSequence

def subBulletinThrough (s : Subscription) : Nat :=
  s.bulletin.elim 0 BulletinChange.throughSequence

namespace Stage

/-- The snapshot that is about to seed the subscription. -/
def snapshot? : Stage → Option NotificationCursor
  | .fresh cursor => some cursor
  | _ => none

/-- The stages behind the fresh snapshot. -/
def isFollowing : Stage → Bool
  | .fresh _ => true
  | .streaming _ => true
  | _ => false

def isUnseeded : Stage → Bool
  | .subscribed _ => true
  | .fresh _ => true
  | _ => false

def mailThrough (stage : Stage) (s : Subscription) : Nat :=
  max (stage.snapshot?.elim 0 fun c => c.mail.throughSequence) (subMailThrough s)

def bulletinThrough (stage : Stage) (s : Subscription) : Nat :=
  max (stage.snapshot?.elim 0 fun c => c.bulletin.throughSequence) (subBulletinThrough s)

end Stage

/-- What holds of an open subscription and its stage. -/
structure Tracks (h : Hub) (owed : List Owed) (stage : Stage) (s : Subscription) : Prop where
  mail : ∀ a, s.mail = some a → h.KnowsMail a
  bulletin : ∀ c, s.bulletin = some c → h.KnowsBulletin c
  unseeded : stage.isUnseeded = true → s.seeded = false
  snapshot : ∀ c, stage = .fresh c →
    c.mailbox = s.mailbox ∧ h.KnowsMail c.mail ∧ h.KnowsBulletin c.bulletin
  mailReached : stage.isFollowing = true →
    MailReached h owed s.mailbox (stage.mailThrough s)
  bulletinReached : stage.isFollowing = true →
    BulletinReached h owed s.mailbox.teamId (stage.bulletinThrough s)
  streaming : ∀ c, stage = .streaming c → s.seeded = true ∧
    (s.pending = false → s.mail = some c.mail ∧ s.bulletin = some c.bulletin)

structure Streams.Sound (s : Streams) : Prop where
  broker : Notifications.Inv s.broker
  queue : s.hub.QueueSound
  changes : s.hub.ChangesBounded
  owed : ∀ o ∈ s.owed, o.Sound s.hub
  tracks : ∀ (i : Nat) (sub : Subscription), s.broker.objects[i]? = some sub →
    sub.closed = false → Tracks s.hub s.owed (s.stages i) sub

/-! ## A call commits -/

section Commit

variable {h t : Hub} {owed : List Owed} {publications : List Publication} {stage : Stage}
  {s : Subscription}

theorem Hub.Announces.mailReached (ha : h.Announces publications t) {box : Mailbox} {n : Nat}
    (hr : MailReached h owed box n) :
    MailReached t (owed ++ publications.map .publication) box n := by
  rcases ha.mail box.teamId box.recipientServerId with hsame | ⟨_, row, hrow, hp⟩
  · rcases hr with hle | ⟨o, ho, hsettles⟩
    · exact Or.inl (hsame ▸ hle)
    · refine Or.inr ⟨o, List.mem_append_left _ ho, ?_⟩
      cases o with
      | head change => exact hsettles
      | publication p =>
          cases p with
          | bulletin teamId only => exact hsettles
          | mail teamId nodeId sequence id =>
              obtain ⟨⟨rfl, rfl⟩, hle⟩ := hsettles
              exact ⟨⟨rfl, rfl⟩, hsame ▸ hle⟩
  · refine Or.inr ⟨_, List.mem_append_right _ (List.mem_map_of_mem hp), ⟨rfl, rfl⟩, ?_⟩
    rw [hrow]
    exact Nat.le_refl _

theorem Hub.Announces.bulletinReached (ha : h.Announces publications t) {teamId : String} {n : Nat}
    (hr : BulletinReached h owed teamId n) :
    BulletinReached t (owed ++ publications.map .publication) teamId n := by
  rcases ha.bulletin teamId with hsame | ⟨_, p, hp, htells⟩
  · rcases hr with hle | ⟨o, ho, hsettles⟩
    · exact Or.inl (hsame ▸ hle)
    · refine Or.inr ⟨o, List.mem_append_left _ ho, ?_⟩
      cases o with
      | head change => exact ⟨hsettles.1, hsame ▸ hsettles.2⟩
      | publication p =>
          cases p with
          | mail => exact hsettles
          | bulletin team only =>
              exact ⟨hsettles.1, fun id hid => ha.bulletins _ _ (hsettles.2 id hid)⟩
  · exact Or.inr ⟨_, List.mem_append_right _ (List.mem_map_of_mem hp), htells⟩

theorem Tracks.commit (ht : Tracks h owed stage s) (ha : h.Announces publications t) :
    Tracks t (owed ++ publications.map .publication) stage s where
  mail a hm := ha.knowsMail (ht.mail a hm)
  bulletin c hc := ha.knowsBulletin (ht.bulletin c hc)
  unseeded := ht.unseeded
  snapshot c hc := by
    obtain ⟨hbox, hmail, hbulletin⟩ := ht.snapshot c hc
    exact ⟨hbox, ha.knowsMail hmail, ha.knowsBulletin hbulletin⟩
  mailReached hf := ha.mailReached (ht.mailReached hf)
  bulletinReached hf := ha.bulletinReached (ht.bulletinReached hf)
  streaming := ht.streaming

theorem Owed.Sound.commit {o : Owed} (ho : o.Sound h) (ha : h.Announces publications t) :
    o.Sound t := by
  cases o with
  | head change => exact ha.knowsBulletin ho
  | publication p =>
      cases p with
      | bulletin => trivial
      | mail teamId nodeId sequence id => exact (ha.mail_covers teamId nodeId).trans ho

theorem Owed.Sound.of_publication (ha : h.Announces publications t) {p : Publication}
    (hp : p ∈ publications) : (Owed.publication p).Sound t := by
  cases p with
  | bulletin => trivial
  | mail teamId nodeId sequence id => exact ⟨_, rfl, Or.inr (ha.told _ _ _ _ hp).symm⟩

end Commit

/-! ## A publication runs or fails -/

section Publish

variable {h : Hub} {owed rest : List Owed} {stage : Stage} {s s' : Subscription} {hint : Hint}

theorem publish_records (hp : s.publish hint = some s') :
    (∀ a, s'.mail = some a → s.mail = some a ∨ hint = .mail a) ∧
      ∀ c, s'.bulletin = some c → s.bulletin = some c ∨ hint = .bulletin c := by
  cases hint with
  | mail arrival =>
      simp only [Subscription.publish] at hp
      split at hp <;> cases hp
      · exact ⟨fun a ha => Or.inr (by rw [Option.some.inj ha]), fun c hc => Or.inl hc⟩
      · exact ⟨fun a ha => Or.inl ha, fun c hc => Or.inl hc⟩
  | bulletin change =>
      simp only [Subscription.publish] at hp
      split at hp <;> cases hp
      · exact ⟨fun a ha => Or.inl ha, fun c hc => Or.inr (by rw [Option.some.inj hc])⟩
      · exact ⟨fun a ha => Or.inl ha, fun c hc => Or.inl hc⟩

theorem covers_mail {a : MailArrival} (hc : s.covers (.mail a)) :
    a.throughSequence ≤ subMailThrough s := by
  obtain ⟨m, hm, hle⟩ := hc
  unfold subMailThrough
  rw [hm]
  rcases hle with hlt | rfl
  · exact Nat.le_of_lt hlt
  · exact Nat.le_refl _

theorem covers_bulletin {c : BulletinChange} (hc : s.covers (.bulletin c)) :
    c.throughSequence ≤ subBulletinThrough s := by
  obtain ⟨m, hm, hle⟩ := hc
  unfold subBulletinThrough
  rw [hm]
  rcases hle with hlt | rfl
  · exact Nat.le_of_lt hlt
  · exact Nat.le_refl _

/-- Heads that cover what they covered are not lower. -/
theorem through_le (kept : ∀ old, s.covers old → s'.covers old) :
    subMailThrough s ≤ subMailThrough s' ∧ subBulletinThrough s ≤ subBulletinThrough s' := by
  constructor
  · cases hm : s.mail with
    | none =>
        rw [subMailThrough, hm]
        exact Nat.zero_le _
    | some a =>
        have hle := covers_mail (kept (.mail a) ⟨a, hm, Or.inr rfl⟩)
        rw [subMailThrough, hm]
        exact hle
  · cases hc : s.bulletin with
    | none =>
        rw [subBulletinThrough, hc]
        exact Nat.zero_le _
    | some c =>
        have hle := covers_bulletin (kept (.bulletin c) ⟨c, hc, Or.inr rfl⟩)
        rw [subBulletinThrough, hc]
        exact hle

/-- The same stream with fewer owed publications, none of which was for it. -/
theorem Tracks.fewer (ht : Tracks h owed stage s)
    (keepMail : ∀ o ∈ owed, o.SettlesMail h s.mailbox → o ∈ rest)
    (keepBulletin : ∀ o ∈ owed, o.SettlesBulletin h s.mailbox.teamId → o ∈ rest) :
    Tracks h rest stage s where
  mail := ht.mail
  bulletin := ht.bulletin
  unseeded := ht.unseeded
  snapshot := ht.snapshot
  mailReached hf := by
    rcases ht.mailReached hf with hle | ⟨o, ho, hsettles⟩
    · exact Or.inl hle
    · exact Or.inr ⟨o, keepMail o ho hsettles, hsettles⟩
  bulletinReached hf := by
    rcases ht.bulletinReached hf with hle | ⟨o, ho, hsettles⟩
    · exact Or.inl hle
    · exact Or.inr ⟨o, keepBulletin o ho hsettles, hsettles⟩
  streaming := ht.streaming

/-- A hint that reaches a stream may settle what was owed. -/
theorem Tracks.published (ht : Tracks h owed stage s) (hp : s.publish hint = some s')
    (knows : h.KnowsHint hint)
    (keepMail : ∀ o ∈ owed, o.SettlesMail h s.mailbox → o ∈ rest ∨ ∃ a, hint = .mail a ∧
      mailThrough (h.arrival? s.mailbox.teamId s.mailbox.recipientServerId) ≤ a.throughSequence)
    (keepBulletin : ∀ o ∈ owed, o.SettlesBulletin h s.mailbox.teamId → o ∈ rest ∨
      ∃ c, hint = .bulletin c ∧
        bulletinThrough (h.latestChange? s.mailbox.teamId) ≤ c.throughSequence) :
    Tracks h rest stage s' := by
  have spec := Notifications.publish_spec hp
  obtain ⟨hmail, hbulletin⟩ := publish_records hp
  obtain ⟨hmle, hble⟩ := through_le spec.kept
  refine ⟨?_, ?_, ?_, ?_, ?_, ?_, ?_⟩
  · intro a ha
    rcases hmail a ha with hold | rfl
    · exact ht.mail a hold
    · exact knows
  · intro c hc
    rcases hbulletin c hc with hold | rfl
    · exact ht.bulletin c hold
    · exact knows
  · intro hu
    rw [spec.seeded]
    exact ht.unseeded hu
  · intro c hc
    rw [spec.mailbox]
    exact ht.snapshot c hc
  · intro hf
    rw [spec.mailbox]
    rcases ht.mailReached hf with hle | ⟨o, ho, hsettles⟩
    · refine Or.inl (Nat.le_trans hle ?_)
      unfold Stage.mailThrough
      omega
    · rcases keepMail o ho hsettles with hrest | ⟨a, rfl, hle⟩
      · exact Or.inr ⟨o, hrest, hsettles⟩
      · refine Or.inl (Nat.le_trans hle (Nat.le_trans ?_ (Nat.le_max_right _ _)))
        exact covers_mail spec.covers
  · intro hf
    rw [spec.mailbox]
    rcases ht.bulletinReached hf with hle | ⟨o, ho, hsettles⟩
    · refine Or.inl (Nat.le_trans hle ?_)
      unfold Stage.bulletinThrough
      omega
    · rcases keepBulletin o ho hsettles with hrest | ⟨c, rfl, hle⟩
      · exact Or.inr ⟨o, hrest, hsettles⟩
      · refine Or.inl (Nat.le_trans hle (Nat.le_trans ?_ (Nat.le_max_right _ _)))
        exact covers_bulletin spec.covers
  · intro c hc
    obtain ⟨hseeded, hreported⟩ := ht.streaming c hc
    refine ⟨spec.seeded.trans hseeded, ?_⟩
    intro hpending
    rcases spec.pending with rfl | htrue
    · exact hreported hpending
    · rw [htrue] at hpending
      cases hpending

theorem mem_eraseIdx_or {o o' : Owed} {k : Nat} (hk : owed[k]? = some o) (ho : o' ∈ owed) :
    o' ∈ owed.eraseIdx k ∨ o' = o := by
  obtain ⟨j, hj⟩ := List.mem_iff_getElem?.mp ho
  by_cases he : j = k
  · subst he
    exact Or.inr (Option.some.inj (hj.symm.trans hk))
  · exact Or.inl (List.mem_eraseIdx_iff_getElem?.mpr ⟨j, he, hj⟩)

theorem mem_set_or {o o' x : Owed} {k : Nat} (hk : owed[k]? = some o) (ho : o' ∈ owed) :
    o' ∈ owed.set k x ∨ o' = o := by
  obtain ⟨j, hj⟩ := List.mem_iff_getElem?.mp ho
  by_cases he : j = k
  · subst he
    exact Or.inr (Option.some.inj (hj.symm.trans hk))
  · refine Or.inl (List.mem_iff_getElem?.mpr ⟨j, ?_⟩)
    rw [List.getElem?_set_ne fun hkj => he hkj.symm, hj]

end Publish

/-- The subscription before a call that made none. -/
theorem object_before {b b' : Broker} {i : Nat} {sub' : Subscription}
    (length : b'.objects.length = b.objects.length) (h : b'.objects[i]? = some sub') :
    ∃ sub, b.objects[i]? = some sub := by
  have hi := Notifications.getElem?_lt h
  rw [length] at hi
  exact ⟨_, List.getElem?_eq_getElem hi⟩

namespace Streams.Sound

variable {s : Streams} {k : Nat} {o : Owed}

/-- One owed publication of a record runs. -/
theorem publish_hint (hs : s.Sound) (hk : s.owed[k]? = some o) (hint : Hint)
    (knows : s.hub.KnowsHint hint)
    (tellsMail : ∀ box : Mailbox, o.SettlesMail s.hub box → ∃ a, hint = .mail a ∧
      a.mailbox = box ∧
      mailThrough (s.hub.arrival? box.teamId box.recipientServerId) ≤ a.throughSequence)
    (tellsBulletin : ∀ teamId, o.SettlesBulletin s.hub teamId → ∃ c, hint = .bulletin c ∧
      c.teamId = teamId ∧ bulletinThrough (s.hub.latestChange? teamId) ≤ c.throughSequence) :
    Streams.Sound { s with
      owed := s.owed.eraseIdx k, broker := s.broker.publish hint } where
  broker := (hs.broker.publish hint).1
  queue := hs.queue
  changes := hs.changes
  owed o' ho' := hs.owed o' (List.mem_of_mem_eraseIdx ho')
  tracks i sub' hsub' hopen := by
    have hlength : (s.broker.publish hint).objects.length = s.broker.objects.length :=
      Notifications.foldl_keeps (fun b => b.objects.length)
        (Notifications.publishOne_length hint) _ s.broker
    obtain ⟨sub, hsub⟩ := object_before hlength hsub'
    have hafter := (hs.broker.publish hint).2 i sub hsub
    rw [hsub', Option.some.injEq] at hafter
    by_cases hreach : sub.closed = false ∧ sub.concerns hint
    · rw [if_pos hreach] at hafter
      cases hp : sub.publish hint with
      | none =>
          rw [Subscription.delivered, hp] at hafter
          rw [hafter] at hopen
          cases hopen
      | some sub'' =>
          rw [Subscription.delivered, hp] at hafter
          rw [hafter]
          refine (hs.tracks i sub hsub hreach.1).published hp knows ?_ ?_
          · intro o' ho' hsettles
            rcases mem_eraseIdx_or hk ho' with hrest | rfl
            · exact Or.inl hrest
            · obtain ⟨a, ha, _, hle⟩ := tellsMail _ hsettles
              exact Or.inr ⟨a, ha, hle⟩
          · intro o' ho' hsettles
            rcases mem_eraseIdx_or hk ho' with hrest | rfl
            · exact Or.inl hrest
            · obtain ⟨c, hc, _, hle⟩ := tellsBulletin _ hsettles
              exact Or.inr ⟨c, hc, hle⟩
    · rw [if_neg hreach] at hafter
      rw [hafter] at hopen ⊢
      refine (hs.tracks i sub hsub hopen).fewer ?_ ?_
      · intro o' ho' hsettles
        rcases mem_eraseIdx_or hk ho' with hrest | rfl
        · exact hrest
        · obtain ⟨a, rfl, hbox, _⟩ := tellsMail _ hsettles
          exact absurd ⟨hopen, hbox.symm⟩ hreach
      · intro o' ho' hsettles
        rcases mem_eraseIdx_or hk ho' with hrest | rfl
        · exact hrest
        · obtain ⟨c, rfl, hteam, _⟩ := tellsBulletin _ hsettles
          exact absurd ⟨hopen, hteam.symm⟩ hreach

/-- The subscriptions that one owed publication was for are closed instead. -/
theorem give_up (hs : s.Sound) (hk : s.owed[k]? = some o) :
    Streams.Sound ({ s with owed := s.owed.eraseIdx k }.invalidate o.audience) where
  broker := Notifications.step_inv _ _ hs.broker
  queue := hs.queue
  changes := hs.changes
  owed o' ho' := hs.owed o' (List.mem_of_mem_eraseIdx ho')
  tracks i sub' hsub' hopen := by
    obtain ⟨sub, hsub⟩ := object_before (Notifications.step_length
      (.invalidate o.audience.1 o.audience.2) (fun _ _ h => by cases h)) hsub'
    have hafter := (hs.broker.closeAll fun t => t.mailbox.teamId == o.audience.1 &&
      o.audience.2.all fun recipient => t.mailbox.recipientServerId == recipient).2 i sub hsub
    have hsame := hsub'.symm.trans hafter
    rw [Option.some.injEq] at hsame
    by_cases hclosed : sub.closed = false ∧ (sub.mailbox.teamId == o.audience.1 &&
        o.audience.2.all fun recipient => sub.mailbox.recipientServerId == recipient) = true
    · rw [if_pos hclosed] at hsame
      rw [hsame] at hopen
      cases hopen
    · rw [if_neg hclosed] at hsame
      rw [hsame] at hopen ⊢
      refine (hs.tracks i sub hsub hopen).fewer ?_ ?_
      · intro o' ho' hsettles
        rcases mem_eraseIdx_or hk ho' with hrest | rfl
        · exact hrest
        · refine absurd ⟨hopen, ?_⟩ hclosed
          cases o' with
          | head change => exact hsettles.elim
          | publication p =>
              cases p with
              | bulletin => exact hsettles.elim
              | mail teamId nodeId sequence id =>
                  obtain ⟨⟨rfl, rfl⟩, _⟩ := hsettles
                  simp [Owed.audience]
      · intro o' ho' hsettles
        rcases mem_eraseIdx_or hk ho' with hrest | rfl
        · exact hrest
        · refine absurd ⟨hopen, ?_⟩ hclosed
          cases o' with
          | head change =>
              simp [Owed.audience, hsettles.1]
          | publication p =>
              cases p with
              | mail => exact hsettles.elim
              | bulletin teamId only =>
                  obtain ⟨rfl, _⟩ := hsettles
                  simp [Owed.audience]

/-- A Bulletin publication that has read the head still settles what it settled. -/
theorem read_head (hs : s.Sound) {teamId : String} {only : Option String} {c : BulletinChange}
    (hk : s.owed[k]? = some (.publication (.bulletin teamId only)))
    (hc : s.hub.bulletinChange teamId = .ok c) :
    Streams.Sound { s with owed := s.owed.set k (.head c) } where
  broker := hs.broker
  queue := hs.queue
  changes := hs.changes
  owed o' ho' := by
    rcases List.mem_or_eq_of_mem_set ho' with hold | rfl
    · exact hs.owed o' hold
    · exact Hub.KnowsBulletin.of_ok hc
  tracks i sub hsub hopen := by
    have ht := hs.tracks i sub hsub hopen
    have hnew : Owed.head c ∈ s.owed.set k (.head c) :=
      List.mem_set (List.getElem?_eq_some_iff.mp hk).1 _
    obtain ⟨hteam, hrow⟩ := Hub.bulletinChange_iff.mp hc
    refine { ht with mailReached := ?_, bulletinReached := ?_ }
    · intro hf
      rcases ht.mailReached hf with hle | ⟨o', ho', hsettles⟩
      · exact Or.inl hle
      · rcases mem_set_or hk ho' with hold | rfl
        · exact Or.inr ⟨o', hold, hsettles⟩
        · exact hsettles.elim
    · intro hf
      rcases ht.bulletinReached hf with hle | ⟨o', ho', hsettles⟩
      · exact Or.inl hle
      · rcases mem_set_or hk ho' with hold | rfl
        · exact Or.inr ⟨o', hold, hsettles⟩
        · obtain ⟨rfl, _⟩ := hsettles
          refine Or.inr ⟨_, hnew, hteam, ?_⟩
          rw [← hrow, bulletinThrough_changeRow]

/-- A publication about a message that the whole team did not get is none. -/
theorem skip (hs : s.Sound) {teamId : String} {only : Option String}
    (hk : s.owed[k]? = some (.publication (.bulletin teamId only)))
    (hnot : only.all (s.hub.isBulletin teamId) ≠ true) :
    Streams.Sound { s with owed := s.owed.eraseIdx k } where
  broker := hs.broker
  queue := hs.queue
  changes := hs.changes
  owed o' ho' := hs.owed o' (List.mem_of_mem_eraseIdx ho')
  tracks i sub hsub hopen := by
    refine (hs.tracks i sub hsub hopen).fewer ?_ ?_
    · intro o' ho' hsettles
      rcases mem_eraseIdx_or hk ho' with hrest | rfl
      · exact hrest
      · exact hsettles.elim
    · intro o' ho' hsettles
      rcases mem_eraseIdx_or hk ho' with hrest | rfl
      · exact hrest
      · obtain ⟨rfl, htells⟩ := hsettles
        refine absurd ?_ hnot
        rw [Option.all_eq_true]
        exact htells

theorem publish (hs : s.Sound) (k : Nat) : (s.publish k).Sound := by
  unfold Streams.publish
  cases hk : s.owed[k]? with
  | none => exact hs
  | some o =>
      have hknown := hs.owed o (List.mem_of_getElem? hk)
      cases o with
      | head c =>
          refine hs.publish_hint hk (.bulletin c) hknown ?_ ?_
          · intro box hsettles
            exact hsettles.elim
          · intro teamId hsettles
            exact ⟨c, rfl, hsettles⟩
      | publication p =>
          cases p with
          | mail teamId nodeId sequence messageId =>
              dsimp only
              cases ha : makeArrival teamId nodeId sequence (some messageId) with
              | none => exact hs.give_up hk
              | some a =>
                  obtain ⟨hteam, hnode, hsequence, hid⟩ := makeArrival_eq_some ha
                  refine hs.publish_hint hk (.mail a) ?_ ?_ ?_
                  · change Latest.Covers _ _ _
                    rw [arrivalRow, hid, hteam, hnode, hsequence]
                    exact hknown
                  · intro box hsettles
                    obtain ⟨⟨rfl, rfl⟩, hle⟩ := hsettles
                    refine ⟨a, rfl, ?_, ?_⟩
                    · cases hbox : a.mailbox
                      cases box
                      simp_all
                    · rw [hsequence]
                      exact hle
                  · intro team hsettles
                    exact hsettles.elim
          | bulletin teamId only =>
              dsimp only
              split
              · cases hc : s.hub.bulletinChange teamId with
                | ok c => exact hs.read_head hk hc
                | error e => exact hs.give_up hk
              · next hnot => exact hs.skip hk hnot

theorem fail (hs : s.Sound) (k : Nat) : (s.fail k).Sound := by
  unfold Streams.fail
  cases hk : s.owed[k]? with
  | none => exact hs
  | some o => exact hs.give_up hk

end Streams.Sound

end AgentsServer.TeamHub

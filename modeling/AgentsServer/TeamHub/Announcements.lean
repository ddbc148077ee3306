import AgentsServer.TeamHub.Heads

/-!
# What a call announces

Heads only advance, and a call that moves one publishes it. A record read from a
head is the head or older ever after.
-/

namespace AgentsServer.TeamHub

open Library
open Notifications (MailArrival BulletinChange)

/-- No change has a number beyond the largest one given. -/
def Hub.ChangesBounded (h : Hub) : Prop :=
  ∀ c ∈ h.changes, c.sequence ≤ h.changeSequence

/-- A publication after which the Bulletin head of a team is read. -/
def Publication.TellsBulletin (h : Hub) (teamId : String) : Publication → Prop
  | .mail .. => False
  | .bulletin team only => team = teamId ∧ ∀ id ∈ only, h.isBulletin teamId id = true

/-- How a transaction moves the heads: each stays, or advances and is published. -/
structure Hub.Announces (h : Hub) (publications : List Publication) (t : Hub) : Prop where
  mail : ∀ teamId nodeId, t.arrival? teamId nodeId = h.arrival? teamId nodeId ∨
    (mailThrough (h.arrival? teamId nodeId) < mailThrough (t.arrival? teamId nodeId) ∧
      ∃ row, t.arrival? teamId nodeId = some row ∧
        .mail teamId nodeId row.throughSequence row.arrivalId ∈ publications)
  told : ∀ teamId nodeId sequence id, .mail teamId nodeId sequence id ∈ publications →
    t.arrival? teamId nodeId = some ⟨teamId, nodeId, sequence, id⟩
  bulletin : ∀ teamId, t.latestChange? teamId = h.latestChange? teamId ∨
    (bulletinThrough (h.latestChange? teamId) < bulletinThrough (t.latestChange? teamId) ∧
      ∃ p ∈ publications, p.TellsBulletin t teamId)
  bulletins : ∀ teamId id, h.isBulletin teamId id = true → t.isBulletin teamId id = true

/-- A transaction that leaves the heads alone. -/
theorem Hub.Announces.still {h t : Hub} (arrivals : t.arrivals = h.arrivals)
    (changes : t.changes = h.changes)
    (bulletins : ∀ teamId id, h.isBulletin teamId id = true → t.isBulletin teamId id = true) :
    h.Announces [] t where
  mail teamId nodeId := by
    unfold Hub.arrival?
    rw [arrivals]
    exact Or.inl rfl
  told _ _ _ _ hp := absurd hp List.not_mem_nil
  bulletin teamId := by
    unfold Hub.latestChange?
    rw [changes]
    exact Or.inl rfl
  bulletins := bulletins

namespace Hub

variable {h t v w : Hub} {draws : Draws} {m : MessageRow}

/-- A new change is the head of its team. -/
theorem appendChange_latest {teamId messageId : String} {kind : ChangeKind} {version : Nat}
    (hb : h.ChangesBounded) (ha : h.appendChange draws teamId messageId kind version = .ok t) :
    t.ChangesBounded ∧ ∀ team, t.latestChange? team = h.latestChange? team ∨
      (team = teamId ∧
        bulletinThrough (h.latestChange? team) < bulletinThrough (t.latestChange? team)) := by
  obtain ⟨c, rfl, hlt, hteam, _⟩ := appendChange_eq_ok ha
  constructor
  · intro old hold
    change old.sequence ≤ c.sequence
    rcases List.mem_append.mp hold with hold | hold
    · have hle := hb old hold
      omega
    · rw [List.mem_singleton.mp hold]
  · intro team
    by_cases he : team = teamId
    · refine Or.inr ⟨he, ?_⟩
      have hnew : latestChange? { h with
          changes := h.changes ++ [c], changeSequence := c.sequence } team =
          newerChange (h.latestChange? team) c := by
        unfold latestChange?
        rw [List.filter_append, List.foldl_append]
        simp [hteam, he]
      rw [hnew]
      cases hold : h.latestChange? team with
      | none =>
          change 0 < c.sequence
          omega
      | some old =>
          have hle := hb old (latestChange?_names hold).1
          have hnewer : old.sequence < c.sequence := by omega
          simp only [newerChange, if_pos hnewer]
          exact hnewer
    · refine Or.inl ?_
      have hne : ¬ c.teamId = team := fun hc => he (hc.symm.trans hteam)
      unfold latestChange?
      rw [List.filter_append, List.filter_cons_of_neg (by simpa using hne), List.filter_nil,
        List.append_nil]

theorem insertRecipient_latest {row : RecipientRow} (hb : v.ChangesBounded)
    (hi : v.insertRecipient draws m row = .ok w) :
    w.ChangesBounded ∧ ∀ team, w.latestChange? team = v.latestChange? team ∨
      ((team = m.teamId ∧ row.recipient = .all) ∧
        bulletinThrough (v.latestChange? team) < bulletinThrough (w.latestChange? team)) := by
  unfold insertRecipient at hi
  simp only [bind_eq_ok, require_eq_ok] at hi
  obtain ⟨_, _, hi⟩ := hi
  split at hi
  · rw [pure_eq_ok] at hi
    have hsame : w.changes = v.changes ∧ w.changeSequence = v.changeSequence := by
      rw [← hi]
      split
      · unfold recordArrival
        split <;> exact ⟨rfl, rfl⟩
      · exact ⟨rfl, rfl⟩
    unfold ChangesBounded latestChange?
    rw [hsame.1, hsame.2]
    exact ⟨hb, fun _ => Or.inl rfl⟩
  · rw [pure_eq_ok] at hi
    subst hi
    exact ⟨hb, fun _ => Or.inl rfl⟩
  · next hrow =>
      obtain ⟨hbounded, hlatest⟩ :=
        appendChange_latest (h := { v with recipients := v.recipients ++ [row] }) hb hi
      refine ⟨hbounded, ?_⟩
      intro team
      rcases hlatest team with hsame | ⟨hteam, hlt⟩
      · exact Or.inl hsame
      · exact Or.inr ⟨⟨hteam, hrow⟩, hlt⟩

/-- The Bulletin heads after the copies of a message. -/
theorem insertRecipients_latest {recipients : List Recipient} {i : Nat} (hb : v.ChangesBounded)
    (hi : v.insertRecipients draws m recipients i = .ok w) :
    w.ChangesBounded ∧ ∀ team, w.latestChange? team = v.latestChange? team ∨
      ((team = m.teamId ∧ .all ∈ recipients) ∧
        bulletinThrough (v.latestChange? team) < bulletinThrough (w.latestChange? team)) := by
  induction recipients generalizing v i with
  | nil =>
      cases hi
      exact ⟨hb, fun _ => Or.inl rfl⟩
  | cons recipient rest ih =>
      simp only [insertRecipients, bind_eq_ok] at hi
      obtain ⟨u, hu, hrest⟩ := hi
      obtain ⟨hbu, hone⟩ := insertRecipient_latest hb hu
      obtain ⟨hbw, hmore⟩ := ih hbu hrest
      have hrecipient : (newRecipient draws m recipient i).recipient = recipient := rfl
      refine ⟨hbw, ?_⟩
      intro team
      rcases hone team with hsame | ⟨⟨hteam, hall⟩, hlt⟩
      · rw [← hsame]
        rcases hmore team with hsame' | ⟨⟨hteam, hall⟩, hlt⟩
        · exact Or.inl hsame'
        · exact Or.inr ⟨⟨hteam, List.mem_cons_of_mem _ hall⟩, hlt⟩
      · rw [hrecipient] at hall
        refine Or.inr ⟨⟨hteam, hall ▸ List.mem_cons_self⟩, ?_⟩
        rcases hmore team with hsame' | ⟨_, hlt'⟩
        · rw [hsame']
          exact hlt
        · exact Nat.lt_trans hlt hlt'

end Hub

section Creation

variable {h t : Hub} {call : Call}

theorem Hub.mem_mailPublications {m : MessageRow} {resolved : List Recipient}
    {teamId nodeId id : String} {sequence : Nat} :
    .mail teamId nodeId sequence id ∈ Hub.mailPublications m resolved ↔
      (m.content.isMessage = true ∧ teamId = m.teamId ∧ .server nodeId ∈ resolved) ∧
        sequence = m.ordinal ∧ id = m.id := by
  unfold Hub.mailPublications
  by_cases hmessage : m.content.isMessage = true
  · rw [if_pos hmessage, List.mem_filterMap]
    constructor
    · rintro ⟨recipient, hr, hp⟩
      cases recipient with
      | server node =>
          cases hp
          exact ⟨⟨hmessage, rfl, hr⟩, rfl, rfl⟩
      | human principal => cases hp
      | all => cases hp
    · rintro ⟨⟨_, rfl, hr⟩, rfl, rfl⟩
      exact ⟨_, hr, rfl⟩
  · rw [if_neg hmessage]
    simp [hmessage]

/-- A new message advances the mail heads of the servers it went to, and the
Bulletin head when the whole team got it. -/
theorem Created.announces [Sha256] [UnicodeTables] [Conversions] {request : CreateRequest}
    {m : MessageRow} {resolved : List Recipient} {attachments : List AttachmentRow}
    (work : Created h call request m resolved attachments t) (hs : h.QueueSound)
    (hb : h.ChangesBounded) :
    t.ChangesBounded ∧ h.Announces (Hub.mailPublications m resolved ++
      if .all ∈ resolved then [.bulletin call.teamId none] else []) t := by
  obtain ⟨_, harrival⟩ := work.arrivals hs.heads
  have hordinal := work.ordinal
  have hbulletins : ∀ teamId id, h.isBulletin teamId id = true →
      t.isBulletin teamId id = true := by
    obtain ⟨rows, _, _, _, _, _, rfl, _⟩ := work.tables
    intro teamId id hid
    unfold Hub.isBulletin at hid ⊢
    rw [List.any_append, hid, Bool.true_or]
  have hlatest : t.ChangesBounded ∧ ∀ team, t.latestChange? team = h.latestChange? team ∨
      ((team = m.teamId ∧ .all ∈ resolved) ∧
        bulletinThrough (h.latestChange? team) < bulletinThrough (t.latestChange? team)) := by
    obtain ⟨u, v, w, hu, hv, hw, ht⟩ := work.writes
    have hu := publishContent_eq_ok hu
    obtain ⟨rfl, _⟩ := Hub.insertMessage_eq_ok hv
    obtain ⟨more, rfl⟩ := Hub.insertVersionOf_eq_ok ht
    have hbv : Hub.ChangesBounded
        { u with messages := u.messages ++ [m], messageSequence := m.ordinal } := by
      rw [hu]
      exact hb
    obtain ⟨hbw, hmore⟩ := Hub.insertRecipients_latest hbv hw
    refine ⟨hbw, ?_⟩
    rw [hu] at hmore
    exact hmore
  refine ⟨hlatest.1, ⟨?_, ?_, ?_, hbulletins⟩⟩
  · intro teamId nodeId
    rw [harrival]
    split
    · next hto =>
        refine Or.inr ⟨?_, _, rfl, ?_⟩
        · change _ < m.ordinal
          cases hold : h.arrival? teamId nodeId with
          | none =>
              change 0 < m.ordinal
              omega
          | some row =>
              have hle := hs.heads row (Hub.arrival?_names hold).1
              change row.throughSequence < m.ordinal
              omega
        · rw [List.mem_append]
          exact Or.inl (Hub.mem_mailPublications.mpr ⟨hto, rfl, rfl⟩)
    · exact Or.inl rfl
  · intro teamId nodeId sequence id hp
    rw [List.mem_append] at hp
    rcases hp with hp | hp
    · obtain ⟨hto, rfl, rfl⟩ := Hub.mem_mailPublications.mp hp
      rw [harrival, if_pos hto, Hub.arrivalOf, hto.2.1]
    · split at hp
      · cases List.mem_singleton.mp hp
      · cases hp
  · intro teamId
    rcases hlatest.2 teamId with hsame | ⟨⟨hteam, hall⟩, hlt⟩
    · exact Or.inl hsame
    · refine Or.inr ⟨hlt, .bulletin call.teamId none, ?_, ?_, ?_⟩
      · rw [if_pos hall, List.mem_append]
        exact Or.inr List.mem_cons_self
      · rw [hteam, work.team]
      · intro _ hid
        cases hid

end Creation

section Announcing

variable {h t : Hub} {publications : List Publication}

theorem isBulletin_copies {f : RecipientRow → RecipientRow}
    (stays : ∀ r : RecipientRow, r.Stays (f r)) (recipients : t.recipients = h.recipients.map f)
    (teamId id : String) (hid : h.isBulletin teamId id = true) : t.isBulletin teamId id = true := by
  unfold Hub.isBulletin at hid ⊢
  rw [recipients, List.any_map]
  refine (List.any_eq_true).mpr ?_
  obtain ⟨r, hr, hc⟩ := List.any_eq_true.mp hid
  have hstays := stays r
  refine ⟨r, hr, ?_⟩
  rw [Function.comp_apply, hstays.team, hstays.message, hstays.recipient]
  exact hc

/-- A write about one message appends a change where the whole team got the message,
and publishes the Bulletin head in any case. -/
theorem Hub.Announces.change {u : Hub} {draws : Draws} {teamId messageId : String}
    {kind : ChangeKind} {version : Nat} {only : Option String} (hb : h.ChangesBounded)
    (write : (if u.isBulletin teamId messageId = true then
      u.appendChange draws teamId messageId kind version else pure u) = .ok t)
    (about : ∀ id ∈ only, id = messageId) (arrivals : u.arrivals = h.arrivals)
    (changes : u.changes = h.changes ∧ u.changeSequence = h.changeSequence)
    (recipients : u.recipients = h.recipients) :
    t.ChangesBounded ∧ h.Announces [.bulletin teamId only] t := by
  have hsame : ∀ team, u.latestChange? team = h.latestChange? team := by
    intro team
    unfold Hub.latestChange?
    rw [changes.1]
  have hbu : u.ChangesBounded := by
    unfold Hub.ChangesBounded
    rw [changes.1, changes.2]
    exact hb
  have htables : t.arrivals = h.arrivals ∧ t.recipients = h.recipients := by
    rw [← arrivals, ← recipients]
    split at write
    · obtain ⟨_, rfl, _⟩ := Hub.appendChange_eq_ok write
      exact ⟨rfl, rfl⟩
    · cases write
      exact ⟨rfl, rfl⟩
  have hlatest : t.ChangesBounded ∧ ∀ team, t.latestChange? team = h.latestChange? team ∨
      ((team = teamId ∧ u.isBulletin teamId messageId = true) ∧
        bulletinThrough (h.latestChange? team) < bulletinThrough (t.latestChange? team)) := by
    split at write
    · next hall =>
        obtain ⟨hbt, hmore⟩ := Hub.appendChange_latest hbu write
        refine ⟨hbt, ?_⟩
        intro team
        rw [← hsame]
        rcases hmore team with hkept | ⟨hteam, hlt⟩
        · exact Or.inl hkept
        · exact Or.inr ⟨⟨hteam, hall⟩, hlt⟩
    · cases write
      exact ⟨hbu, fun team => Or.inl (hsame team)⟩
  refine ⟨hlatest.1, ⟨?_, ?_, ?_, ?_⟩⟩
  · intro teamId nodeId
    unfold Hub.arrival?
    rw [htables.1]
    exact Or.inl rfl
  · intro _ _ _ _ hp
    cases List.mem_singleton.mp hp
  · intro team
    rcases hlatest.2 team with hkept | ⟨⟨hteam, hall⟩, hlt⟩
    · exact Or.inl hkept
    · refine Or.inr ⟨hlt, _, List.mem_cons_self, hteam.symm, ?_⟩
      intro id hid
      rw [about id hid, hteam]
      unfold Hub.isBulletin at hall ⊢
      rw [htables.2, ← recipients]
      exact hall
  · intro team id hid
    unfold Hub.isBulletin at hid ⊢
    rw [htables.2]
    exact hid

namespace Hub.Announces

theorem mail_covers (ha : h.Announces publications t) (teamId nodeId : String) :
    Latest.Covers mailThrough (some (t.arrival? teamId nodeId)) (h.arrival? teamId nodeId) := by
  rcases ha.mail teamId nodeId with hsame | ⟨hlt, _⟩
  · exact ⟨_, rfl, Or.inr hsame.symm⟩
  · exact ⟨_, rfl, Or.inl hlt⟩

theorem bulletin_covers (ha : h.Announces publications t) (teamId : String) :
    Latest.Covers bulletinThrough (some (t.latestChange? teamId)) (h.latestChange? teamId) := by
  rcases ha.bulletin teamId with hsame | ⟨hlt, _⟩
  · exact ⟨_, rfl, Or.inr hsame.symm⟩
  · exact ⟨_, rfl, Or.inl hlt⟩

theorem knowsMail (ha : h.Announces publications t) {a : MailArrival} (hk : h.KnowsMail a) :
    t.KnowsMail a :=
  (ha.mail_covers _ _).trans hk

theorem knowsBulletin (ha : h.Announces publications t) {c : BulletinChange}
    (hk : h.KnowsBulletin c) : t.KnowsBulletin c :=
  (ha.bulletin_covers _).trans hk

end Hub.Announces

end Announcing

/-! ## Calls -/

section Steps

variable [Sha256] [UnicodeTables] [Conversions] {h t : Hub} {call : Call}
  {publications : List Publication}

theorem Effect.announces (e : Effect h call publications t) (hs : h.QueueSound)
    (hb : h.ChangesBounded) : t.ChangesBounded ∧ h.Announces publications t := by
  cases e with
  | created _ _ work => exact work.announces hs hb
  | revised _ _ work =>
      have hi := work.write
      unfold Hub.insertRevision at hi
      simp only [bind_eq_ok, require_eq_ok] at hi
      obtain ⟨_, _, hi⟩ := hi
      rw [← work.team]
      exact Hub.Announces.change hb hi (fun _ hid => by cases hid) rfl ⟨rfl, rfl⟩ rfl
  | deleted _ _ _ team message write =>
      unfold Hub.insertDeletion at write
      simp only [bind_eq_ok, require_eq_ok] at write
      obtain ⟨_, _, hi⟩ := write
      rw [← team, ← message]
      exact Hub.Announces.change hb hi (fun _ hid => (Option.some.inj hid).symm) rfl ⟨rfl, rfl⟩ rfl
  | deletedBefore => exact ⟨hb, .still rfl rfl fun _ _ hid => hid⟩
  | dismissed =>
      exact ⟨hb, .still rfl rfl
        (isBulletin_copies (Hub.updateRecipient_stay (fun r => r.dismiss_stays _) _) rfl)⟩
  | attended =>
      exact ⟨hb, .still rfl rfl
        (isBulletin_copies (Hub.updateRecipient_stay (fun r => r.setUnread_stays _ _) _) rfl)⟩
  | @receipted _ _ isRead rows _ _ =>
      obtain ⟨f, stays, he⟩ := recordReceipts_stay rows isRead call.context.timestamp h
      rw [he]
      exact ⟨hb, .still rfl rfl (isBulletin_copies stays rfl)⟩
  | flagged => exact ⟨hb, .still rfl rfl fun _ _ hid => hid⟩

/-- What a call publishes. A call that was rolled back publishes nothing. -/
def publicationsOf : Except Failure Reply → List Publication
  | .ok reply => reply.publications
  | .error _ => []

theorem step_announces (hs : h.QueueSound) (hb : h.ChangesBounded) (call : Call) :
    (step h call).1.ChangesBounded ∧
      h.Announces (publicationsOf (step h call).2) (step h call).1 := by
  rcases step_cases h call with ⟨key, fp, reply, t, heq, _, hc⟩ | ⟨e, heq⟩
  · rw [heq]
    cases hc with
    | replayed => exact ⟨hb, .still rfl rfl fun _ _ hid => hid⟩
    | fresh _ work =>
        obtain ⟨hbt, hannounces⟩ := work.announces hs hb
        exact ⟨hbt, ⟨hannounces.mail, hannounces.told, hannounces.bulletin, hannounces.bulletins⟩⟩
  · rw [heq]
    exact ⟨hb, .still rfl rfl fun _ _ hid => hid⟩

end Steps

end AgentsServer.TeamHub

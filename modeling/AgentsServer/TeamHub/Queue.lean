import AgentsServer.TeamHub.Replay

/-!
# The queue of messages

Messages are numbered in the order of their creation, each is copied to a
recipient once, and no arrival head is beyond the last message. Later states only
add: a message stays, a copy stays with its recipient, and what was dismissed or
deleted stays so.
-/

namespace AgentsServer.TeamHub

open Library

/-! ## Arrivals -/

/-- Every arrival is before a message that is being created, or is that message. -/
def Hub.ArrivalsBefore (h : Hub) (m : MessageRow) : Prop :=
  ∀ a ∈ h.arrivals, a.throughSequence < m.ordinal ∨
    (a.throughSequence = m.ordinal ∧ a.arrivalId = m.id)

namespace Hub

variable {h v w : Hub} {draws : Draws} {m : MessageRow}

/-- The arrival of a message at a node. -/
def arrivalOf (m : MessageRow) (nodeId : String) : ArrivalRow where
  teamId := m.teamId
  nodeId := nodeId
  throughSequence := m.ordinal
  arrivalId := m.id

theorem recordArrival_before (hb : h.ArrivalsBefore m) (nodeId : String) :
    (h.recordArrival m nodeId).ArrivalsBefore m := by
  unfold recordArrival
  split
  · intro a ha
    obtain ⟨old, hold, rfl⟩ := List.mem_map.mp ha
    split
    · exact Or.inr ⟨rfl, rfl⟩
    · exact hb old hold
  · intro a ha
    rcases List.mem_append.mp ha with ha | ha
    · exact hb a ha
    · rw [List.mem_singleton.mp ha]
      exact Or.inr ⟨rfl, rfl⟩

theorem arrival?_names {teamId nodeId : String} {a : ArrivalRow}
    (ha : h.arrival? teamId nodeId = some a) :
    a ∈ h.arrivals ∧ a.teamId = teamId ∧ a.nodeId = nodeId := by
  have hcond := List.find?_some ha
  simp only [decide_eq_true_eq] at hcond
  exact ⟨List.mem_of_find?_eq_some ha, hcond⟩

/-- A recorded arrival is the head of its mailbox, and the other heads stay. -/
theorem recordArrival_arrival? (hb : h.ArrivalsBefore m) (nodeId teamId node : String) :
    (h.recordArrival m nodeId).arrival? teamId node =
      if teamId = m.teamId ∧ node = nodeId then some (arrivalOf m nodeId)
      else h.arrival? teamId node := by
  unfold recordArrival
  by_cases hany : (h.arrivals.any fun a =>
      decide (a.teamId = m.teamId ∧ a.nodeId = nodeId)) = true
  · rw [if_pos hany]
    have hfind : (({ h with arrivals := h.arrivals.map fun a =>
        if a.teamId = m.teamId ∧ a.nodeId = nodeId ∧ a.throughSequence < m.ordinal then
          { a with throughSequence := m.ordinal, arrivalId := m.id }
        else a } : Hub).arrival? teamId node) = (h.arrival? teamId node).map fun a =>
          if a.teamId = m.teamId ∧ a.nodeId = nodeId ∧ a.throughSequence < m.ordinal then
            { a with throughSequence := m.ordinal, arrivalId := m.id }
          else a := by
      unfold arrival?
      rw [List.find?_map]
      congr 2
      ext a
      simp only [Function.comp_apply]
      split
      · rfl
      · rfl
    rw [hfind]
    cases hold : h.arrival? teamId node with
    | none =>
        by_cases hbox : teamId = m.teamId ∧ node = nodeId
        · obtain ⟨a, ha, hcond⟩ := List.any_eq_true.mp hany
          have hnot := List.find?_eq_none.mp hold a ha
          rw [hbox.1, hbox.2] at hnot
          exact absurd hcond hnot
        · rw [if_neg hbox]
          rfl
    | some a =>
        obtain ⟨ha, rfl, rfl⟩ := arrival?_names hold
        rw [Option.map_some]
        by_cases hbox : a.teamId = m.teamId ∧ a.nodeId = nodeId
        · rw [if_pos hbox, ← hbox.2]
          rcases hb a ha with hlt | ⟨hsame, hid⟩
          · rw [if_pos ⟨hbox.1, rfl, hlt⟩, arrivalOf, ← hbox.1]
          · rw [if_neg (fun hc => absurd hc.2.2 (by omega)), arrivalOf, ← hbox.1, ← hsame, ← hid]
        · rw [if_neg hbox, if_neg fun hc => hbox ⟨hc.1, hc.2.1⟩]
  · rw [if_neg hany]
    unfold arrival?
    rw [List.find?_append]
    by_cases hbox : teamId = m.teamId ∧ node = nodeId
    · obtain ⟨hteam, hnode⟩ := hbox
      have hnone : h.arrivals.find? (fun a => decide (a.teamId = teamId ∧ a.nodeId = node)) =
          none := by
        rw [hteam, hnode]
        simpa using hany
      rw [hnone, if_pos ⟨hteam, hnode⟩]
      simp [arrivalOf, hteam, hnode]
    · rw [if_neg hbox]
      have hnot : ¬ (m.teamId = teamId ∧ nodeId = node) := fun hc => hbox ⟨hc.1.symm, hc.2.symm⟩
      simp [hnot]

/-- The arrivals after the insert of one copy. -/
theorem insertRecipient_arrivals {row : RecipientRow} (hb : v.ArrivalsBefore m)
    (hi : v.insertRecipient draws m row = .ok w) :
    w.ArrivalsBefore m ∧ ∀ teamId node, w.arrival? teamId node =
      if m.content.isMessage = true ∧ teamId = m.teamId ∧ row.recipient = .server node then
        some (arrivalOf m node)
      else v.arrival? teamId node := by
  unfold insertRecipient at hi
  simp only [bind_eq_ok, require_eq_ok] at hi
  obtain ⟨_, _, hi⟩ := hi
  split at hi
  · next nodeId hrow =>
      rw [pure_eq_ok] at hi
      by_cases hmessage : m.content.isMessage = true
      · rw [if_pos hmessage] at hi
        subst hi
        have hrow' : ArrivalsBefore { v with recipients := v.recipients ++ [row] } m := hb
        refine ⟨recordArrival_before hrow' nodeId, ?_⟩
        intro teamId node
        rw [recordArrival_arrival? hrow']
        by_cases hbox : teamId = m.teamId ∧ node = nodeId
        · obtain ⟨hteam, rfl⟩ := hbox
          rw [if_pos ⟨hteam, rfl⟩, if_pos ⟨hmessage, hteam, hrow⟩]
        · rw [if_neg hbox, if_neg]
          · rfl
          · rintro ⟨_, hteam, hserver⟩
            rw [hrow] at hserver
            cases hserver
            exact hbox ⟨hteam, rfl⟩
      · rw [if_neg hmessage] at hi
        subst hi
        refine ⟨hb, ?_⟩
        intro teamId node
        rw [if_neg fun hc => hmessage hc.1]
        rfl
  · next hrow =>
      rw [pure_eq_ok] at hi
      subst hi
      refine ⟨hb, ?_⟩
      intro teamId node
      rw [if_neg]
      · rfl
      · rintro ⟨_, _, hserver⟩
        rw [hrow] at hserver
        cases hserver
  · next hrow =>
      obtain ⟨c, rfl, _⟩ := appendChange_eq_ok hi
      refine ⟨hb, ?_⟩
      intro teamId node
      rw [if_neg]
      · rfl
      · rintro ⟨_, _, hserver⟩
        rw [hrow] at hserver
        cases hserver

/-- The heads after the copies of a message: the message itself where a server got
it as mail. -/
theorem insertRecipients_arrivals {recipients : List Recipient} {i : Nat}
    (hb : v.ArrivalsBefore m) (hi : v.insertRecipients draws m recipients i = .ok w) :
    w.ArrivalsBefore m ∧ ∀ teamId node, w.arrival? teamId node =
      if m.content.isMessage = true ∧ teamId = m.teamId ∧ .server node ∈ recipients then
        some (arrivalOf m node)
      else v.arrival? teamId node := by
  induction recipients generalizing v i with
  | nil =>
      cases hi
      refine ⟨hb, ?_⟩
      intro teamId node
      rw [if_neg fun hc => List.not_mem_nil hc.2.2]
  | cons recipient rest ih =>
      simp only [insertRecipients, bind_eq_ok] at hi
      obtain ⟨u, hu, hrest⟩ := hi
      obtain ⟨hbu, hone⟩ := insertRecipient_arrivals hb hu
      obtain ⟨hbw, hmore⟩ := ih hbu hrest
      refine ⟨hbw, ?_⟩
      intro teamId node
      have hrecipient : (newRecipient draws m recipient i).recipient = recipient := rfl
      rw [hmore, hone, hrecipient]
      by_cases hbox : m.content.isMessage = true ∧ teamId = m.teamId
      · by_cases hfirst : recipient = .server node
        · simp [hbox, hfirst]
        · have hne : ¬ Recipient.server node = recipient := fun he => hfirst he.symm
          simp [hbox, hfirst, hne]
      · have hnot : ∀ p : Prop, ¬ (m.content.isMessage = true ∧ teamId = m.teamId ∧ p) :=
          fun _ hc => hbox ⟨hc.1, hc.2.1⟩
        rw [if_neg (hnot _), if_neg (hnot _), if_neg (hnot _)]

end Hub

/-! ## The queue -/

structure Hub.QueueSound (h : Hub) : Prop where
  ordered : h.messages.Pairwise fun a b => a.ordinal < b.ordinal
  bounded : ∀ m ∈ h.messages, m.ordinal ≤ h.messageSequence
  sequence : h.messageSequence ≤ maxRowId
  oneCopy : (h.recipients.map fun r => (r.messageId, r.recipient)).Nodup
  heads : ∀ a ∈ h.arrivals, a.throughSequence ≤ h.messageSequence
  named : ∀ m ∈ h.messages, ∃ token, m.id = newId "tmsg" token
  posted : ∀ r ∈ h.recipients, ∃ m ∈ h.messages, m.id = r.messageId
  covered : ∀ m ∈ h.messages, ∀ r ∈ h.recipients, ∀ nodeId, r.messageId = m.id →
    r.recipient = .server nodeId → m.content.isMessage = true ∧
      ∃ a, h.arrival? m.teamId nodeId = some a ∧ m.ordinal ≤ a.throughSequence

/-- A copy stays with its message and its recipient, and stays dismissed. -/
structure RecipientRow.Stays (a b : RecipientRow) : Prop where
  team : b.teamId = a.teamId
  message : b.messageId = a.messageId
  recipient : b.recipient = a.recipient
  dismissed : b.dismissedAt = none → a.dismissedAt = none

/-- How a later state holds messages and copies: those of the earlier one, and
messages with larger numbers with their copies. -/
structure Hub.Grows (h t : Hub) : Prop where
  sequence : h.messageSequence ≤ t.messageSequence
  messages : ∀ m ∈ t.messages, m ∈ h.messages ∨ h.messageSequence < m.ordinal
  copies : ∀ r ∈ t.recipients, (∃ a ∈ h.recipients, a.Stays r) ∨
    ∀ m ∈ h.messages, m.id ≠ r.messageId
  deletions : h.deletions <+: t.deletions

theorem RecipientRow.Stays.refl (a : RecipientRow) : a.Stays a :=
  ⟨rfl, rfl, rfl, fun h => h⟩

namespace RecipientRow

variable (a : RecipientRow) (timestamp : Nat)

theorem dismiss_stays : a.Stays (a.dismiss timestamp) := by
  refine ⟨rfl, rfl, rfl, ?_⟩
  intro h
  cases h

theorem setUnread_stays (unread : Bool) : a.Stays (a.setUnread unread timestamp) :=
  ⟨rfl, rfl, rfl, fun h => h⟩

theorem record_stays (isRead : Bool) : a.Stays (a.record isRead timestamp) :=
  ⟨rfl, rfl, rfl, fun h => h⟩

end RecipientRow

section Creation

variable {h t : Hub} {call : Call}

/-- The heads after a message was created. -/
theorem Created.arrivals {request : CreateRequest} {m : MessageRow} {resolved : List Recipient}
    {attachments : List AttachmentRow} (work : Created h call request m resolved attachments t)
    (heads : ∀ a ∈ h.arrivals, a.throughSequence ≤ h.messageSequence) :
    t.ArrivalsBefore m ∧ ∀ teamId node, t.arrival? teamId node =
      if m.content.isMessage = true ∧ teamId = m.teamId ∧ .server node ∈ resolved then
        some (Hub.arrivalOf m node)
      else h.arrival? teamId node := by
  obtain ⟨u, v, w, hu, hv, hw, ht⟩ := work.writes
  have hu := publishContent_eq_ok hu
  obtain ⟨rfl, _⟩ := Hub.insertMessage_eq_ok hv
  obtain ⟨more, rfl⟩ := Hub.insertVersionOf_eq_ok ht
  have hbefore : Hub.ArrivalsBefore
      { u with messages := u.messages ++ [m], messageSequence := m.ordinal } m := by
    rw [hu]
    intro a ha
    have hle := heads a ha
    have hordinal := work.ordinal
    exact Or.inl (by omega)
  obtain ⟨hafter, harrival⟩ := Hub.insertRecipients_arrivals hbefore hw
  refine ⟨hafter, ?_⟩
  intro teamId node
  have hold : Hub.arrival? { u with messages := u.messages ++ [m], messageSequence := m.ordinal }
      teamId node = h.arrival? teamId node := by
    rw [hu]
    rfl
  rw [← hold]
  exact harrival teamId node

theorem Created.queue [Sha256] [UnicodeTables] [Conversions] {request : CreateRequest} {m : MessageRow} {resolved : List Recipient}
    {attachments : List AttachmentRow} (work : Created h call request m resolved attachments t)
    (hs : h.QueueSound) : t.QueueSound ∧ h.Grows t := by
  obtain ⟨hbefore, harrival⟩ := work.arrivals hs.heads
  have hordinal := work.ordinal
  have hmail : ∀ nodeId, .server nodeId ∈ resolved → m.content.isMessage = true := by
    intro nodeId hserver
    rcases work.content with ⟨subject, _, hm, _⟩ | ⟨title, details, _, _, _, hskill, _⟩
    · rw [hm]
      rfl
    · rw [work.skill title details hskill, List.mem_singleton] at hserver
      cases hserver
  have hmax : m.ordinal ≤ maxRowId := by
    obtain ⟨_, _, _, _, hv, _⟩ := work.writes
    exact Hub.insertMessage_bound hv
  obtain ⟨rows, _, _, _, _, _, rfl, hmap, hnew, hout, _, hnodup, hfresh⟩ := work.tables
  have hrecipient : ∀ r ∈ rows, r.recipient ∈ resolved := by
    intro r hr
    rw [← hmap]
    exact List.mem_map_of_mem hr
  refine ⟨⟨?_, ?_, ?_, ?_, ?_, ?_, ?_, ?_⟩, ⟨?_, ?_, ?_, ?_⟩⟩
  · rw [List.pairwise_append]
    refine ⟨hs.ordered, List.pairwise_singleton _ _, ?_⟩
    intro a ha b hb
    rw [List.mem_singleton.mp hb]
    have hle := hs.bounded a ha
    omega
  · intro a ha
    change a.ordinal ≤ m.ordinal
    rcases List.mem_append.mp ha with ha | ha
    · have hle := hs.bounded a ha
      omega
    · rw [List.mem_singleton.mp ha]
  · exact hmax
  · rw [List.map_append, List.nodup_append]
    refine ⟨hs.oneCopy, ?_, ?_⟩
    · -- copies of one message differ in the recipient
      have hinj : (rows.map RecipientRow.recipient).Nodup := hmap ▸ hnodup
      refine List.Nodup.of_map Prod.snd ?_
      rw [List.map_map]
      exact hinj
    · intro k hk k' hk' he
      obtain ⟨r, hr, rfl⟩ := List.mem_map.mp hk
      obtain ⟨row, hrow, rfl⟩ := List.mem_map.mp hk'
      simp only [Prod.mk.injEq] at he
      exact (hout r hr row hrow).2 he.1 he.2
  · intro a ha
    change a.throughSequence ≤ m.ordinal
    rcases hbefore a ha with hlt | ⟨heq, _⟩
    · omega
    · omega
  · intro p hp
    rcases List.mem_append.mp hp with hp | hp
    · exact hs.named p hp
    · rw [List.mem_singleton.mp hp]
      exact ⟨_, work.id⟩
  · intro r hr
    rcases List.mem_append.mp hr with hr | hr
    · obtain ⟨p, hp, he⟩ := hs.posted r hr
      exact ⟨p, List.mem_append_left _ hp, he⟩
    · exact ⟨m, List.mem_append_right _ (List.mem_singleton_self m), (hnew r hr).message.symm⟩
  · intro p hp r hr nodeId hmessage hserver
    rcases List.mem_append.mp hp with hp | hp
    · rcases List.mem_append.mp hr with hr | hr
      · obtain ⟨hkind, a, ha, hle⟩ := hs.covered p hp r hr nodeId hmessage hserver
        refine ⟨hkind, ?_⟩
        rw [harrival]
        split
        · have hbound := hs.bounded p hp
          refine ⟨_, rfl, ?_⟩
          change p.ordinal ≤ m.ordinal
          omega
        · exact ⟨a, ha, hle⟩
      · exact absurd ((hnew r hr).message.symm.trans hmessage).symm (hfresh p hp)
    · rw [List.mem_singleton.mp hp] at hmessage ⊢
      rcases List.mem_append.mp hr with hr | hr
      · obtain ⟨old, hold, he⟩ := hs.posted r hr
        exact absurd (he.trans hmessage) (hfresh old hold)
      · have hmem : .server nodeId ∈ resolved := by
          rw [← hserver]
          exact hrecipient r hr
        have hkind := hmail nodeId hmem
        refine ⟨hkind, Hub.arrivalOf m nodeId, ?_, Nat.le_refl m.ordinal⟩
        rw [harrival, if_pos ⟨hkind, rfl, hmem⟩]
  · change h.messageSequence ≤ m.ordinal
    omega
  · intro a ha
    rcases List.mem_append.mp ha with ha | ha
    · exact Or.inl ha
    · rw [List.mem_singleton.mp ha]
      exact Or.inr (by omega)
  · intro r hr
    rcases List.mem_append.mp hr with hr | hr
    · exact Or.inl ⟨r, hr, .refl r⟩
    · refine Or.inr ?_
      intro old hold he
      exact hfresh old hold (he.trans (hnew r hr).message)
  · exact List.prefix_refl _

/-- An update of copies in place. -/
theorem Hub.QueueSound.copies (hs : h.QueueSound) {f : RecipientRow → RecipientRow}
    (stays : ∀ r : RecipientRow, r.Stays (f r)) (recipients : t.recipients = h.recipients.map f)
    (messages : t.messages = h.messages) (sequence : t.messageSequence = h.messageSequence)
    (arrivals : t.arrivals = h.arrivals) (deletions : h.deletions <+: t.deletions) :
    t.QueueSound ∧ h.Grows t := by
  refine ⟨⟨?_, ?_, ?_, ?_, ?_, ?_, ?_, ?_⟩, ⟨?_, ?_, ?_, deletions⟩⟩
  · rw [messages]
    exact hs.ordered
  · rw [messages, sequence]
    exact hs.bounded
  · rw [sequence]
    exact hs.sequence
  · have hkeys : (t.recipients.map fun r => (r.messageId, r.recipient)) =
        h.recipients.map fun r => (r.messageId, r.recipient) := by
      rw [recipients]
      apply Tables.map_keys
      intro r
      rw [(stays r).message, (stays r).recipient]
    rw [hkeys]
    exact hs.oneCopy
  · rw [arrivals, sequence]
    exact hs.heads
  · rw [messages]
    exact hs.named
  · intro r hr
    rw [recipients] at hr
    obtain ⟨a, ha, rfl⟩ := List.mem_map.mp hr
    rw [messages, (stays a).message]
    exact hs.posted a ha
  · intro m hm r hr nodeId hmessage hserver
    rw [messages] at hm
    rw [recipients] at hr
    obtain ⟨a, ha, rfl⟩ := List.mem_map.mp hr
    rw [(stays a).message] at hmessage
    rw [(stays a).recipient] at hserver
    rw [Hub.arrival?, arrivals]
    exact hs.covered m hm a ha nodeId hmessage hserver
  · rw [sequence]
  · intro m hm
    rw [messages] at hm
    exact Or.inl hm
  · intro r hr
    rw [recipients] at hr
    obtain ⟨a, ha, rfl⟩ := List.mem_map.mp hr
    exact Or.inl ⟨a, ha, stays a⟩

theorem RecipientRow.Stays.trans {a b c : RecipientRow} (hab : a.Stays b) (hbc : b.Stays c) :
    a.Stays c where
  team := hbc.team.trans hab.team
  message := hbc.message.trans hab.message
  recipient := hbc.recipient.trans hab.recipient
  dismissed hc := hab.dismissed (hbc.dismissed hc)

theorem Hub.updateRecipient_stay {f : RecipientRow → RecipientRow}
    (stays : ∀ r : RecipientRow, r.Stays (f r)) (id : String) (r : RecipientRow) :
    r.Stays (if r.id = id then f r else r) := by
  split
  · exact stays r
  · exact .refl r

theorem recordReceipts_stay (rows : List RecipientRow) (isRead : Bool) (timestamp : Nat) (h : Hub) :
    ∃ f : RecipientRow → RecipientRow, (∀ r : RecipientRow, r.Stays (f r)) ∧
      rows.foldl (fun h r => h.updateRecipient r.id (RecipientRow.record isRead timestamp)) h =
        { h with recipients := h.recipients.map f } := by
  induction rows generalizing h with
  | nil => exact ⟨fun r => r, .refl, by rw [List.map_id']; rfl⟩
  | cons row rest ih =>
      obtain ⟨f, stays, he⟩ :=
        ih (h.updateRecipient row.id (RecipientRow.record isRead timestamp))
      refine ⟨fun r => f (if r.id = row.id then r.record isRead timestamp else r), ?_, ?_⟩
      · intro r
        exact (Hub.updateRecipient_stay (fun r => r.record_stays timestamp isRead) row.id r).trans
          (stays _)
      · rw [List.foldl_cons, he]
        simp [Hub.updateRecipient, Function.comp_def]

/-- No copy is touched. -/
theorem Hub.QueueSound.same (hs : h.QueueSound) (recipients : t.recipients = h.recipients)
    (messages : t.messages = h.messages) (sequence : t.messageSequence = h.messageSequence)
    (arrivals : t.arrivals = h.arrivals) (deletions : h.deletions <+: t.deletions) :
    t.QueueSound ∧ h.Grows t :=
  hs.copies RecipientRow.Stays.refl (f := fun r => r) (by rw [recipients, List.map_id']) messages
    sequence arrivals deletions

end Creation

section Runs

variable [Sha256] [UnicodeTables] [Conversions] {h t : Hub} {call : Call}
  {publications : List Publication}

theorem Effect.queue (e : Effect h call publications t) (hs : h.QueueSound) :
    t.QueueSound ∧ h.Grows t := by
  have hall : h.deletions <+: h.deletions := List.prefix_refl _
  cases e with
  | created _ _ work => exact work.queue hs
  | revised _ _ work =>
      obtain ⟨_, _, rfl⟩ := Hub.insertRevision_eq_ok work.write
      exact hs.same rfl rfl rfl rfl hall
  | deleted _ _ _ _ _ write =>
      obtain ⟨_, _, rfl⟩ := Hub.insertDeletion_eq_ok write
      exact hs.same rfl rfl rfl rfl (List.prefix_append _ _)
  | deletedBefore => exact hs.same rfl rfl rfl rfl hall
  | dismissed =>
      exact hs.copies (Hub.updateRecipient_stay (fun r => r.dismiss_stays _) _) rfl rfl rfl rfl hall
  | attended =>
      exact hs.copies (Hub.updateRecipient_stay (fun r => r.setUnread_stays _ _) _) rfl rfl rfl rfl
        hall
  | @receipted _ _ isRead rows _ _ =>
      obtain ⟨f, stays, he⟩ := recordReceipts_stay rows isRead call.context.timestamp h
      rw [he]
      exact hs.copies stays rfl rfl rfl rfl hall
  | flagged => exact hs.same rfl rfl rfl rfl hall

theorem step_queue (hs : h.QueueSound) (call : Call) :
    (step h call).1.QueueSound ∧ h.Grows (step h call).1 := by
  have hall : h.deletions <+: h.deletions := List.prefix_refl _
  rcases step_cases h call with ⟨key, fp, reply, t, heq, _, hc⟩ | ⟨e, heq⟩
  · rw [heq]
    cases hc with
    | replayed => exact hs.same rfl rfl rfl rfl hall
    | fresh _ work =>
        obtain ⟨ht, hgrows⟩ := work.queue hs
        exact ⟨⟨ht.ordered, ht.bounded, ht.sequence, ht.oneCopy, ht.heads, ht.named, ht.posted, ht.covered⟩,
          ⟨hgrows.sequence, hgrows.messages, hgrows.copies, hgrows.deletions⟩⟩
  · rw [heq]
    exact hs.same rfl rfl rfl rfl hall

omit [Sha256] [UnicodeTables] [Conversions] in
theorem empty_queue : Hub.empty.QueueSound where
  ordered := List.Pairwise.nil
  bounded _ hm := by cases hm
  sequence := Nat.zero_le _
  oneCopy := List.nodup_nil
  heads _ ha := by cases ha
  named _ hm := by cases hm
  posted _ hr := by cases hr
  covered _ hm := by cases hm

theorem run_queue (calls : List Call) : (Runs.run step Hub.empty calls).QueueSound :=
  Runs.run_invariant step (I := Hub.QueueSound) (fun _ call hs => (step_queue hs call).1) Hub.empty
    empty_queue calls

end Runs

end AgentsServer.TeamHub

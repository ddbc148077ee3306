import AgentsServer.TeamHub.Effects

/-!
# What the inserts write

The tables after each insert, with the columns of the new row and the checks it
passed. Tables that an insert does not name stay as they were.
-/

namespace AgentsServer.TeamHub

open Library

namespace Hub

variable {h t u v w : Hub} {draws : Draws} {m : MessageRow}

/-- A change takes the next number and a new id. -/
theorem appendChange_eq_ok {teamId messageId : String} {kind : ChangeKind} {version : Nat}
    (ha : h.appendChange draws teamId messageId kind version = .ok t) :
    ∃ c : ChangeRow, t = { h with changes := h.changes ++ [c], changeSequence := c.sequence } ∧
      h.changeSequence < c.sequence ∧ c.teamId = teamId ∧ c.messageId = messageId ∧
      c.changeKind = kind ∧ c.messageVersion = version ∧ c.id = newId "bchg" draws.change := by
  unfold appendChange at ha
  simp only [bind_eq_ok, require_eq_ok, pure_eq_ok] at ha
  obtain ⟨_, _, _, _, rfl⟩ := ha
  refine ⟨_, rfl, ?_, rfl, rfl, rfl, rfl, rfl⟩
  change h.changeSequence < h.changeSequence + draws.changeSkip + 1
  omega

/-- An insert of a recipient moves the arrival head of its mailbox, or appends a
Bulletin change. -/
theorem insertRecipient_eq_ok {row : RecipientRow}
    (hi : h.insertRecipient draws m row = .ok t) :
    (∀ r ∈ h.recipients, r.id ≠ row.id ∧ (r.messageId = row.messageId →
      r.recipient ≠ row.recipient)) ∧
    ∃ arrivals changes changeSequence,
      t = { h with recipients := h.recipients ++ [row], arrivals, changes, changeSequence } := by
  unfold insertRecipient at hi
  simp only [bind_eq_ok, require_eq_ok] at hi
  obtain ⟨_, hfresh, hi⟩ := hi
  constructor
  · intro r hr
    have hone := List.all_eq_true.mp hfresh r hr
    simp only [Bool.and_eq_true, bne_iff_ne, Bool.not_eq_true', Bool.and_eq_false_iff,
      beq_eq_false_iff_ne] at hone
    refine ⟨hone.1, ?_⟩
    intro hmessage
    rcases hone.2 with hne | hne
    · exact absurd hmessage hne
    · exact hne
  · split at hi
    · next nodeId _ =>
        rw [pure_eq_ok] at hi
        subst hi
        split
        · unfold recordArrival
          split
          · exact ⟨_, _, _, rfl⟩
          · exact ⟨_, _, _, rfl⟩
        · exact ⟨_, _, _, rfl⟩
    · rw [pure_eq_ok] at hi
      subst hi
      exact ⟨_, _, _, rfl⟩
    · obtain ⟨c, rfl, _⟩ := appendChange_eq_ok hi
      exact ⟨_, _, _, rfl⟩

/-- A copy that was never delivered, dismissed or attended to. -/
structure IsNew (m : MessageRow) (r : RecipientRow) : Prop where
  team : r.teamId = m.teamId
  message : r.messageId = m.id
  receipt : r.receipt = .available
  dismissed : r.dismissedAt = none
  override : r.inboxUnread = none
  version : r.mailboxStateVersion = 0

theorem insertRecipients_eq_ok {recipients : List Recipient} {i : Nat}
    (hi : v.insertRecipients draws m recipients i = .ok w) :
    ∃ rows arrivals changes changeSequence,
      w = { v with recipients := v.recipients ++ rows, arrivals, changes, changeSequence } ∧
      rows.map RecipientRow.recipient = recipients ∧ (∀ r ∈ rows, IsNew m r) ∧
      (∀ r ∈ v.recipients, ∀ row ∈ rows, r.id ≠ row.id ∧ (r.messageId = row.messageId →
        r.recipient ≠ row.recipient)) ∧
      (rows.map RecipientRow.id).Nodup ∧ recipients.Nodup := by
  induction recipients generalizing v i with
  | nil =>
      cases hi
      exact ⟨[], _, _, _, by rw [List.append_nil], rfl, by simp, by simp, List.nodup_nil,
        List.nodup_nil⟩
  | cons recipient rest ih =>
      simp only [insertRecipients, bind_eq_ok] at hi
      obtain ⟨u, hu, hrest⟩ := hi
      obtain ⟨hfresh, arrivals, changes, sequence, rfl⟩ := insertRecipient_eq_ok hu
      obtain ⟨rows, arrivals', changes', sequence', rfl, hmap, hnew, hout, hids, hnodup⟩ :=
        ih hrest
      have hself := hout (newRecipient draws m recipient i)
        (List.mem_append_right _ (List.mem_singleton_self _))
      refine ⟨newRecipient draws m recipient i :: rows, arrivals', changes', sequence', ?_, ?_,
        ?_, ?_, ?_, ?_⟩
      · rw [List.append_assoc]
        rfl
      · rw [List.map_cons, hmap]
        rfl
      · intro r hr
        rcases List.mem_cons.mp hr with rfl | hr
        · exact ⟨rfl, rfl, rfl, rfl, rfl, rfl⟩
        · exact hnew r hr
      · intro r hr row hrow
        rcases List.mem_cons.mp hrow with rfl | hrow
        · exact hfresh r hr
        · exact hout r (List.mem_append_left _ hr) row hrow
      · rw [List.map_cons, List.nodup_cons]
        refine ⟨?_, hids⟩
        intro hmem
        obtain ⟨row, hrow, he⟩ := List.mem_map.mp hmem
        exact (hself row hrow).1 he.symm
      · rw [List.nodup_cons]
        refine ⟨?_, hnodup⟩
        intro hmem
        rw [← hmap] at hmem
        obtain ⟨row, hrow, he⟩ := List.mem_map.mp hmem
        exact (hself row hrow).2 (hnew row hrow).message.symm he.symm

theorem insertMessage_eq_ok (hi : u.insertMessage m = .ok v) :
    v = { u with messages := u.messages ++ [m], messageSequence := m.ordinal } ∧
      ∀ old ∈ u.messages, old.id ≠ m.id := by
  unfold insertMessage at hi
  simp only [bind_eq_ok, require_eq_ok, pure_eq_ok] at hi
  obtain ⟨_, _, _, hfresh, rfl⟩ := hi
  refine ⟨rfl, ?_⟩
  intro old hold
  have hone := List.all_eq_true.mp hfresh old hold
  simp only [Bool.and_eq_true, bne_iff_ne] at hone
  exact hone.1

/-- The version row that publishes a skill with a message. -/
structure IsVersion (m : MessageRow) (title : String) (details : SkillDetails) (id : String)
    (version : Nat) (row : SkillVersionRow) : Prop where
  skill : row.skillId = id
  version : row.version = version
  team : row.teamId = m.teamId
  message : row.messageId = m.id
  title : row.title = title
  summary : row.summary = details.summary
  tags : row.tags = details.tags

theorem insertVersionOf_skill {timestamp version : Nat} {title id : String}
    {details : SkillDetails} (hm : m.content = .skill title id version)
    (hi : w.insertVersionOf draws m timestamp (.skill title details) = .ok t) :
    ∃ row, t = { w with skillVersions := w.skillVersions ++ [row] } ∧
      IsVersion m title details id version row ∧
      ∀ v ∈ w.skillVersions, v.messageId ≠ row.messageId := by
  simp only [insertVersionOf, hm, insertSkillVersion, bind_eq_ok, require_eq_ok,
    pure_eq_ok] at hi
  obtain ⟨_, hfresh, rfl⟩ := hi
  refine ⟨_, rfl, ⟨rfl, rfl, rfl, rfl, rfl, rfl, rfl⟩, ?_⟩
  intro v hv
  have hone := List.all_eq_true.mp hfresh v hv
  simp only [Bool.and_eq_true, bne_iff_ne] at hone
  exact hone.2

theorem insertMessage_bound (hi : u.insertMessage m = .ok v) : m.ordinal ≤ maxRowId := by
  unfold insertMessage at hi
  simp only [bind_eq_ok, require_eq_ok] at hi
  obtain ⟨_, hbound, _⟩ := hi
  exact hbound

theorem insertVersionOf_eq_ok {timestamp : Nat} {content : Content}
    (hi : w.insertVersionOf draws m timestamp content = .ok t) :
    ∃ more, t = { w with skillVersions := w.skillVersions ++ more } := by
  unfold insertVersionOf at hi
  split at hi
  · cases hi
    exact ⟨[], by rw [List.append_nil]⟩
  · split at hi
    · cases hi
      exact ⟨[], by rw [List.append_nil]⟩
    · simp only [insertSkillVersion, bind_eq_ok, require_eq_ok, pure_eq_ok] at hi
      obtain ⟨_, _, rfl⟩ := hi
      exact ⟨_, rfl⟩

theorem insertRevision_eq_ok {row : RevisionRow} (hi : h.insertRevision draws row = .ok t) :
    ∃ changes changeSequence,
      t = { h with revisions := h.revisions ++ [row], changes, changeSequence } := by
  unfold insertRevision at hi
  simp only [bind_eq_ok, require_eq_ok] at hi
  obtain ⟨_, _, hi⟩ := hi
  split at hi
  · obtain ⟨c, rfl, _⟩ := appendChange_eq_ok hi
    exact ⟨_, _, rfl⟩
  · rw [pure_eq_ok] at hi
    subst hi
    exact ⟨_, _, rfl⟩

theorem insertDeletion_eq_ok {row : DeletionRow} (hi : h.insertDeletion draws row = .ok t) :
    ∃ changes changeSequence,
      t = { h with deletions := h.deletions ++ [row], changes, changeSequence } := by
  unfold insertDeletion at hi
  simp only [bind_eq_ok, require_eq_ok] at hi
  obtain ⟨_, _, hi⟩ := hi
  split at hi
  · obtain ⟨c, rfl, _⟩ := appendChange_eq_ok hi
    exact ⟨_, _, rfl⟩
  · rw [pure_eq_ok] at hi
    subst hi
    exact ⟨_, _, rfl⟩

/-- Receipts change the copies only. -/
theorem recordReceipts_eq (rows : List RecipientRow) (isRead : Bool) (timestamp : Nat) (h : Hub) :
    ∃ recipients, rows.foldl (fun h r =>
      h.updateRecipient r.id (RecipientRow.record isRead timestamp)) h = { h with recipients } := by
  induction rows generalizing h with
  | nil => exact ⟨h.recipients, rfl⟩
  | cons r rest ih =>
      obtain ⟨recipients, he⟩ := ih (h.updateRecipient r.id (RecipientRow.record isRead timestamp))
      exact ⟨recipients, he⟩

end Hub

/-- The skill rows after a version was published: a new skill starts at version
one, and the next version is written over the row of the version it names. -/
inductive SkillWrite (h : Hub) (call : Call) (title : String) (details : SkillDetails) :
    List SkillRow → String → Nat → Prop
  | first {row : SkillRow} (expected : details.expectedVersion = none)
      (fresh : ∀ s ∈ h.skills, s.id ≠ row.id) (team : row.teamId = call.teamId)
      (shown : row.title = title ∧ row.summary = details.summary ∧ row.tags = details.tags)
      (version : row.currentVersion = 1) :
      SkillWrite h call title details (h.skills ++ [row]) row.id 1
  | next {s : SkillRow} (found : s ∈ h.skills) (team : s.teamId = call.teamId)
      (expected : details.expectedVersion = some s.currentVersion) :
      SkillWrite h call title details (h.skills.map fun old =>
        if old.teamId = call.teamId ∧ old.id = s.id then
          Hub.publishVersion title details (s.currentVersion + 1) call.context.timestamp old
        else old) s.id (s.currentVersion + 1)

theorem publishSkill_eq_ok {h u : Hub} {call : Call} {title : String} {details : SkillDetails}
    {id : String} {version : Nat}
    (hp : h.publishSkill call.context.caller call.context.draws call.teamId title details
      call.context.timestamp = .ok ((id, version), u)) :
    SkillWrite h call title details u.skills id version := by
  unfold Hub.publishSkill at hp
  split at hp
  · simp only [bind_eq_ok, require_eq_ok, pure_eq_ok, Prod.mk.injEq] at hp
    obtain ⟨_, hexpected, _, _, _, hfresh, ⟨rfl, rfl⟩, rfl⟩ := hp
    refine .first hexpected ?_ ?_ ?_ ?_
    · intro s hs
      have hone := List.all_eq_true.mp hfresh s hs
      simpa using hone
    · rfl
    · exact ⟨rfl, rfl, rfl⟩
    · rfl
  · next s hs =>
      simp only [bind_eq_ok, require_eq_ok, pure_eq_ok, Prod.mk.injEq] at hp
      obtain ⟨_, _, _, hexpected, _, _, _, _, ⟨rfl, rfl⟩, rfl⟩ := hp
      have hrow := List.find?_some hs
      simp only [decide_eq_true_eq] at hrow
      exact .next (List.mem_of_find?_eq_some hs) hrow.1 hexpected

/-- The tables after a message was created. -/
theorem Created.tables [Sha256] [UnicodeTables] [Conversions] {h t : Hub} {call : Call}
    {request : CreateRequest} {m : MessageRow} {resolved : List Recipient}
    {attachments : List AttachmentRow} (created : Created h call request m resolved attachments t) :
    ∃ rows skills more arrivals changes changeSequence,
      t = { h with
        messages := h.messages ++ [m], messageSequence := m.ordinal
        recipients := h.recipients ++ rows, skills, skillVersions := h.skillVersions ++ more
        arrivals, changes, changeSequence
        attachments := (h.bindAttachments attachments m.id).attachments } ∧
      rows.map RecipientRow.recipient = resolved ∧ (∀ r ∈ rows, Hub.IsNew m r) ∧
      (∀ r ∈ h.recipients, ∀ row ∈ rows, r.id ≠ row.id ∧
        (r.messageId = row.messageId → r.recipient ≠ row.recipient)) ∧
      (rows.map RecipientRow.id).Nodup ∧ resolved.Nodup ∧ ∀ old ∈ h.messages, old.id ≠ m.id := by
  obtain ⟨u, v, w, hu, hv, hw, ht⟩ := created.writes
  have hu := publishContent_eq_ok hu
  obtain ⟨rfl, hfresh⟩ := Hub.insertMessage_eq_ok hv
  obtain ⟨rows, arrivals, changes, sequence, rfl, hmap, hnew, hout, hids, hnodup⟩ :=
    Hub.insertRecipients_eq_ok hw
  obtain ⟨more, rfl⟩ := Hub.insertVersionOf_eq_ok ht
  rw [hu] at hfresh hout ⊢
  exact ⟨rows, u.skills, more, arrivals, changes, sequence, rfl, hmap, hnew, hout, hids, hnodup,
    hfresh⟩

/-- Mail writes no skill. A skill post writes the row of its skill and one version. -/
theorem Created.content [Sha256] [UnicodeTables] [Conversions] {h t : Hub} {call : Call}
    {request : CreateRequest} {m : MessageRow} {resolved : List Recipient}
    {attachments : List AttachmentRow} (created : Created h call request m resolved attachments t) :
    (∃ subject, request.content = .message subject ∧ m.content = .message subject ∧
      t.skills = h.skills ∧ t.skillVersions = h.skillVersions) ∨
    ∃ title details id version row, request.content = .skill title details ∧
      m.content = .skill title id version ∧
      SkillWrite h call title details t.skills id version ∧
      t.skillVersions = h.skillVersions ++ [row] ∧
      Hub.IsVersion m title details id version row := by
  obtain ⟨u, v, w, hu, hv, hw, ht⟩ := created.writes
  have hskills := publishContent_eq_ok hu
  obtain ⟨rfl, _⟩ := Hub.insertMessage_eq_ok hv
  obtain ⟨_, _, _, _, rfl, _⟩ := Hub.insertRecipients_eq_ok hw
  cases hcontent : request.content with
  | message subject =>
      rw [hcontent] at hu ht
      cases ht
      simp only [Hub.publishContent, Except.ok.injEq, Prod.mk.injEq] at hu
      obtain ⟨hm, rfl⟩ := hu
      exact Or.inl ⟨subject, rfl, hm.symm, rfl, rfl⟩
  | skill title details =>
      rw [hcontent] at hu ht
      simp only [Hub.publishContent, bind_eq_ok, pure_eq_ok, Prod.mk.injEq] at hu
      obtain ⟨⟨⟨id, version⟩, u'⟩, hp, hm, rfl⟩ := hu
      have hwrite := publishSkill_eq_ok hp
      obtain ⟨row, rfl, hrow, _⟩ := Hub.insertVersionOf_skill hm.symm ht
      refine Or.inr ⟨title, details, id, version, row, rfl, hm.symm, hwrite, ?_, hrow⟩
      rw [hskills]
      rfl

end AgentsServer.TeamHub

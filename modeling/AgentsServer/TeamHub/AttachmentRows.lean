import AgentsServer.Library.Tally
import AgentsServer.TeamHub.AttachmentSteps

/-!
# Attachment rows

How a step of the host changes the table of attachments: rows have their own ids, a
row that a message has is ready, reclamation only drops rows, and a message takes only
ready rows that no other message has.
-/

namespace AgentsServer.TeamHub

open Library

/-! ## Reclaiming -/

/-- A later table has no other rows. -/
def Hub.DropsAttachments (h t : Hub) : Prop :=
  t.attachments.Sublist h.attachments

section Reclaiming

variable {h t : Hub} {timestamp : Nat}

theorem insertTombstone_attachments (h : Hub) (kind : PathKind) (key : String) (timestamp : Nat) :
    (h.insertTombstone kind key timestamp).attachments = h.attachments := by
  unfold Hub.insertTombstone
  split <;> rfl

theorem reclaimRow_drops {row : AttachmentRow} (hr : Hub.reclaimRow timestamp h row = .ok t) :
    h.DropsAttachments t := by
  unfold Hub.reclaimRow at hr
  simp only [bind_eq_ok, pure_eq_ok] at hr
  obtain ⟨_, _, rfl⟩ := hr
  rw [Hub.DropsAttachments, insertTombstone_attachments]
  exact List.filter_sublist

theorem reclaimKey_drops {key : String} (hr : Hub.reclaimKey timestamp h key = .ok t) :
    h.DropsAttachments t := by
  unfold Hub.reclaimKey at hr
  simp only [bind_eq_ok, pure_eq_ok] at hr
  obtain ⟨_, _, rfl⟩ := hr
  unfold Hub.DropsAttachments
  split
  · exact List.Sublist.refl _
  · rw [insertTombstone_attachments]

/-- Reclamation drops rows and changes none. -/
theorem purgeExpired_drops {teamId : Option String} {limit : Int}
    (hp : h.purgeExpired teamId timestamp limit = .ok t) : h.DropsAttachments t := by
  unfold Hub.purgeExpired at hp
  simp only [bind_eq_ok] at hp
  obtain ⟨_, _, u, hu, ht⟩ := hp
  have trans : ∀ a b c : Hub, a.DropsAttachments b → b.DropsAttachments c →
      a.DropsAttachments c := fun _ _ _ hab hbc => hbc.trans hab
  have hrows := foldlM_related (R := Hub.DropsAttachments) (fun _ => List.Sublist.refl _) trans
    (fun _ _ _ h => reclaimRow_drops h) hu
  have hkeys := foldlM_related (R := Hub.DropsAttachments) (fun _ => List.Sublist.refl _) trans
    (fun _ _ _ h => reclaimKey_drops h) ht
  exact hkeys.trans hrows

end Reclaiming

/-! ## Binding -/

/-- The attachments that a created message takes. -/
structure Binds (h : Hub) (call : Call) (rows : List AttachmentRow) (messageId : String) (t : Hub) :
    Prop where
  attachments : t.attachments = (h.bindAttachments rows messageId).attachments
  selected : ∀ row ∈ rows, h.attachment? call.teamId row.id = some row ∧
    Hub.bindable call.context.caller.claims.principalId call.context.timestamp row = true

section Binding

variable [Sha256] [UnicodeTables] [Conversions] {h t : Hub} {call : Call}
  {publications : List Publication}

omit [Sha256] [UnicodeTables] [Conversions] in
theorem mem_of_mapM_ok {α β ε : Type} {f : α → Except ε β} {items : List α} {results : List β}
    (h : items.mapM f = .ok results) {b : β} (hb : b ∈ results) : ∃ a ∈ items, f a = .ok b := by
  induction items generalizing results with
  | nil =>
      cases h
      cases hb
  | cons a rest ih =>
      rw [List.mapM_cons] at h
      simp only [bind_eq_ok, pure_eq_ok] at h
      obtain ⟨c, hc, cs, hcs, rfl⟩ := h
      rcases List.mem_cons.mp hb with rfl | hmem
      · exact ⟨a, List.mem_cons_self, hc⟩
      · obtain ⟨a', ha', hf⟩ := ih hcs hmem
        exact ⟨a', List.mem_cons_of_mem _ ha', hf⟩

omit [Sha256] [UnicodeTables] [Conversions] in
theorem selectAttachment_eq_ok {caller : Caller} {teamId id : String} {timestamp : Nat}
    {row : AttachmentRow} (hs : h.selectAttachment caller teamId timestamp id = .ok row) :
    h.attachment? teamId id = some row ∧
      Hub.bindable caller.claims.principalId timestamp row = true := by
  unfold Hub.selectAttachment at hs
  simp only [bind_eq_ok, required_eq_ok, require_eq_ok, pure_eq_ok] at hs
  obtain ⟨_, hrow, _, hbindable, rfl⟩ := hs
  exact ⟨hrow, hbindable⟩

omit [Sha256] [UnicodeTables] [Conversions] in
theorem attachment?_names {teamId id : String} {row : AttachmentRow}
    (hr : h.attachment? teamId id = some row) :
    row ∈ h.attachments ∧ row.teamId = teamId ∧ row.id = id := by
  have hcond := List.find?_some hr
  simp only [decide_eq_true_eq] at hcond
  exact ⟨List.mem_of_find?_eq_some hr, hcond⟩

/-- A call on messages leaves the rows alone, or binds the ones its request names. -/
theorem Effect.attachments (e : Effect h call publications t) :
    t.attachments = h.attachments ∨ ∃ fields request rows messageId,
      call.operation = .create fields ∧ createRequest fields = .ok request ∧
      (∀ row ∈ rows, row.id ∈ request.attachmentIds) ∧ Binds h call rows messageId t := by
  cases e with
  | @created fields request m _ attachments _ operation checked work =>
      obtain ⟨_, _, _, _, _, _, rfl, _⟩ := work.tables
      have hselect : ∀ row ∈ attachments, ∃ id ∈ request.attachmentIds,
          h.attachment? call.teamId id = some row ∧
            Hub.bindable call.context.caller.claims.principalId call.context.timestamp row = true := by
        intro row hrow
        obtain ⟨id, hid, hsel⟩ := mem_of_mapM_ok work.select hrow
        exact ⟨id, hid, selectAttachment_eq_ok hsel⟩
      refine Or.inr ⟨fields, request, attachments, m.id, operation, checked, ?_, rfl, ?_⟩
      · intro row hrow
        obtain ⟨id, hid, hfound, _⟩ := hselect row hrow
        rw [(attachment?_names hfound).2.2]
        exact hid
      · intro row hrow
        obtain ⟨id, _, hfound, hbindable⟩ := hselect row hrow
        rw [(attachment?_names hfound).2.2]
        exact ⟨hfound, hbindable⟩
  | revised _ _ work =>
      obtain ⟨_, _, rfl⟩ := Hub.insertRevision_eq_ok work.write
      exact Or.inl rfl
  | deleted _ _ _ _ _ write =>
      obtain ⟨_, _, rfl⟩ := Hub.insertDeletion_eq_ok write
      exact Or.inl rfl
  | deletedBefore => exact Or.inl rfl
  | dismissed => exact Or.inl rfl
  | attended => exact Or.inl rfl
  | @receipted _ _ isRead rows _ _ =>
      obtain ⟨_, he⟩ := Hub.recordReceipts_eq rows isRead call.context.timestamp h
      rw [he]
      exact Or.inl rfl
  | flagged => exact Or.inl rfl

theorem step_attachments (h : Hub) (call : Call) :
    (step h call).1.attachments = h.attachments ∨ ∃ fields request rows messageId,
      call.operation = .create fields ∧ createRequest fields = .ok request ∧
      (∀ row ∈ rows, row.id ∈ request.attachmentIds) ∧
      Binds h call rows messageId (step h call).1 := by
  rcases step_cases h call with ⟨key, fp, reply, t, heq, _, hc⟩ | ⟨e, heq⟩
  · rw [heq]
    cases hc with
    | replayed => exact Or.inl rfl
    | fresh _ work =>
        rcases work.attachments with hsame | ⟨fields, request, rows, messageId, ho, hr, hi, hb⟩
        · exact Or.inl hsame
        · exact Or.inr ⟨fields, request, rows, messageId, ho, hr, hi, hb.attachments, hb.selected⟩
  · rw [heq]
    exact Or.inl rfl

end Binding

/-! ## Draining -/

/-- A drain leaves the tables alone. -/
theorem cleanOne_hub (s : AttachmentStore) (kind : PathKind) (key : String) (fault : UnlinkFault) :
    (s.cleanOne kind key fault).2.hub = s.hub := by
  unfold AttachmentStore.cleanOne
  repeat' split
  all_goals rfl

/-! ## The rows in every run -/

/-- Rows have their own ids, and a row that a message has is ready. -/
structure RowsSound (rows : List AttachmentRow) : Prop where
  ids : (rows.map AttachmentRow.id).Nodup
  bound : ∀ a ∈ rows, a.messageId.isSome = true → a.state.isReady = true

namespace RowsSound

variable {h t : Hub} {rows : List AttachmentRow}

theorem sublist {more : List AttachmentRow} (hs : RowsSound rows) (hm : more.Sublist rows) :
    RowsSound more :=
  ⟨hs.ids.sublist (hm.map _), fun a ha => hs.bound a (hm.subset ha)⟩

/-- An update in place that keeps ids, and unbinds or readies as it must. -/
theorem map (hs : RowsSound rows) {f : AttachmentRow → AttachmentRow}
    (id : ∀ a, (f a).id = a.id)
    (bound : ∀ a ∈ rows, (f a).messageId.isSome = true → (f a).state.isReady = true) :
    RowsSound (rows.map f) := by
  constructor
  · rw [Tables.map_keys id]
    exact hs.ids
  · intro b hb
    obtain ⟨a, ha, rfl⟩ := List.mem_map.mp hb
    exact bound a ha

/-- A selected row is the row of its id. -/
theorem selected (hs : RowsSound h.attachments) {teamId : String} {row a : AttachmentRow}
    (found : h.attachment? teamId row.id = some row) (ha : a ∈ h.attachments)
    (id : row.id = a.id) : a = row :=
  Tables.eq_of_key hs.ids ha (attachment?_names found).1 id.symm

theorem binds (hs : RowsSound h.attachments) {call : Call} {bound : List AttachmentRow}
    {messageId : String} (hb : Binds h call bound messageId t) : RowsSound t.attachments := by
  rw [hb.attachments]
  apply hs.map
  · intro a
    split <;> rfl
  · intro a ha hsome
    split at hsome
    · next hany =>
        obtain ⟨row, hrow, hcond⟩ := List.any_eq_true.mp hany
        simp only [decide_eq_true_eq] at hcond
        obtain ⟨found, hbindable⟩ := hb.selected row hrow
        rw [if_pos hany, hs.selected found ha hcond.2]
        unfold Hub.bindable at hbindable
        simp only [Bool.and_eq_true] at hbindable
        exact hbindable.1.1.1
    · next hnot =>
        rw [if_neg hnot]
        exact hs.bound a ha hsome

theorem append (hs : RowsSound rows) {row : AttachmentRow} (unbound : row.messageId = none)
    (fresh : ∀ a ∈ rows, a.id ≠ row.id) : RowsSound (rows ++ [row]) := by
  refine ⟨Tables.nodup_append_row hs.ids fresh, ?_⟩
  intro a ha hsome
  rcases List.mem_append.mp ha with ha | ha
  · exact hs.bound a ha hsome
  · rw [List.mem_singleton.mp ha, unbound] at hsome
    cases hsome

theorem readyHub (hs : RowsSound h.attachments) (row : AttachmentRow) (timestamp : Nat) :
    RowsSound (readyHub h row timestamp).attachments := by
  apply hs.map
  · intro a
    split <;> rfl
  · intro a ha hsome
    split at hsome
    · next hthis =>
        rw [if_pos hthis]
        rfl
    · next hnot =>
        rw [if_neg hnot]
        exact hs.bound a ha hsome

theorem setReceived (hs : RowsSound h.attachments) (id : String) (n : Nat) :
    RowsSound (h.setReceived id n).attachments := by
  apply hs.map
  · intro a
    split <;> rfl
  · intro a ha hsome
    split at hsome
    · next hthis =>
        rw [if_pos hthis]
        exact hs.bound a ha hsome
    · next hnot =>
        rw [if_neg hnot]
        exact hs.bound a ha hsome

theorem markFailed (hs : RowsSound h.attachments) (teamId id : String) :
    RowsSound (h.markFailed teamId id).attachments := by
  apply hs.map
  · intro a
    split <;> rfl
  · intro a ha hsome
    split at hsome
    · next hthis =>
        have hready := hs.bound a ha hsome
        rw [hthis.2.2] at hready
        cases hready
    · next hnot =>
        rw [if_neg hnot]
        exact hs.bound a ha hsome

/-- Every step of the host keeps the rows sound. -/
theorem step [Sha256] [UnicodeTables] [Conversions] {s u : AttachmentHost} {a : HostAction}
    (hs : RowsSound s.store.hub.attachments) (effect : HostEffect s a u) :
    RowsSound u.store.hub.attachments := by
  cases effect with
  | leased => exact hs
  | ticked => exact hs
  | called call =>
      rcases step_attachments s.store.hub call with hsame | ⟨_, _, _, _, _, _, _, hb⟩
      · change RowsSound (TeamHub.step s.store.hub call).1.attachments
        rw [hsame]
        exact hs
      · exact hs.binds hb
  | declared _ left =>
      rcases left with q | ⟨row, d⟩
      · rw [q.hub]
        exact hs
      · obtain ⟨requests, hhub⟩ := d.hub
        rw [hhub]
        exact hs.append d.unbound d.fresh
  | chunked _ left =>
      cases left with
      | quiet q =>
          rw [q.hub]
          exact hs
      | mismatch _ hub =>
          rw [hub]
          exact hs
      | published _ hub =>
          rw [hub]
          exact hs
      | received _ hub =>
          rw [hub]
          exact hs.setReceived _ _
      | ready _ _ hub =>
          rw [hub]
          exact hs.readyHub _ _
  | failed => exact hs.markFailed _ _
  | purged _ purge => exact hs.sublist (purgeExpired_drops purge)
  | cleaned kind key _ =>
      rw [cleanOne_hub]
      exact hs
  | settled => exact hs

end RowsSound

end AgentsServer.TeamHub

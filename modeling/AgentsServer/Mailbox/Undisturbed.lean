import AgentsServer.Mailbox.FirstPages

/-!
# What leaves an open read alone

New arrivals, published receipts, wakes and reads of other mailboxes change
neither the pages of an open read nor the mail it has not returned yet.
-/

namespace AgentsServer.Mailbox

open Library Library.Runs

/-- The messages that a condition selects, in order. -/
def mail (db : Ledger) (condition : Joined → Bool) : List Message :=
  (db.select condition).map fun row => message row.1 row.2

/-- The message of one row, when the condition holds of it. -/
def mailOf (db : Ledger) (condition : Joined → Bool) (m : MailRow) : Option Message :=
  (db.envelope? m.messageId).bind fun e =>
    if condition (m, e) then some (message m e) else none

variable {db db' : Ledger}

theorem mail_eq_filterMap (h : Ordered db) (condition : Joined → Bool) :
    mail db condition = db.messages.filterMap (mailOf db condition) := by
  have body : ∀ ms : List MailRow,
      ((ms.filterMap fun m => (db.envelope? m.messageId).map (m, ·)).filter condition).map
        (fun row => message row.1 row.2) = ms.filterMap (mailOf db condition) := by
    intro ms
    induction ms with
    | nil => rfl
    | cons m rest ih =>
        cases he : db.envelope? m.messageId with
        | none => simp [mailOf, he, ih]
        | some e =>
            by_cases hc : condition (m, e) = true
            · simp [mailOf, he, hc, ih]
            · simp [mailOf, he, hc, ih]
  rw [mail, select_eq_filter h]
  exact body db.messages

/-- Mail is kept when every old row still shows the same and no new row shows. -/
theorem mail_congr (h : Ordered db) (h' : Ordered db') {condition : Joined → Bool}
    (g : MailRow → MailRow) (extra : List MailRow)
    (messages : db'.messages = db.messages.map g ++ extra)
    (same : ∀ m ∈ db.messages, mailOf db' condition (g m) = mailOf db condition m)
    (new : ∀ m ∈ extra, mailOf db' condition m = none) :
    mail db' condition = mail db condition := by
  rw [mail_eq_filterMap h, mail_eq_filterMap h', messages, List.filterMap_append,
    List.filterMap_map, List.filterMap_eq_nil_iff.mpr new, List.append_nil]
  exact List.filterMap_congr same

theorem mail_frame (h : Ordered db) (h' : Ordered db') (messages : db'.messages = db.messages)
    (envelopes : db'.envelopes = db.envelopes) (condition : Joined → Bool) :
    mail db' condition = mail db condition := by
  apply mail_congr h h' id [] (by simpa using messages)
  · intro m _
    simp only [id, mailOf, Ledger.envelope?, envelopes]
  · simp

/-- A message of another target or sender is not in the mail of a scope. -/
theorem mailOf_other {scope : Scope} {afterSeq snapshotSeq : Nat} {source : String} {m : MailRow}
    (hsource : scope.source = some source)
    (other : m.targetSessionId ≠ scope.target ∨ m.sourceSessionId ≠ source) :
    mailOf db (unreadWithin scope afterSeq snapshotSeq) m = none := by
  unfold mailOf
  cases db.envelope? m.messageId with
  | none => rfl
  | some e =>
      rw [Option.bind_some, if_neg]
      intro hc
      simp only [unreadWithin, Bool.and_eq_true] at hc
      obtain ⟨_, ht, _, hs⟩ := admits_iff.mp hc.1.1.1
      rcases other with hne | hne
      · exact hne ht
      · exact hne (hs source hsource)

/-- An open read and its mail are left alone. -/
structure Undisturbed (target source : String) (batch : ReadRow) (db db' : Ledger) : Prop where
  sequence : db.sequence ≤ db'.sequence
  batches : batchesOf db' batch.targetSessionId batch.requestId =
    batchesOf db batch.targetSessionId batch.requestId
  pages : ∀ p, p.readId = batch.id → (p ∈ db'.pages ↔ p ∈ db.pages)
  unread : ∀ (allowed : List String) (afterSeq snapshotSeq : Nat), snapshotSeq ≤ db.sequence →
    mail db' (unreadWithin ⟨target, some source, allowed⟩ afterSeq snapshotSeq) =
      mail db (unreadWithin ⟨target, some source, allowed⟩ afterSeq snapshotSeq)

variable {target source : String} {batch : ReadRow}

theorem Undisturbed.refl : Undisturbed target source batch db db :=
  ⟨Nat.le_refl _, rfl, fun _ _ => Iff.rfl, fun _ _ _ _ => rfl⟩

/-- Calls that touch neither reads nor pages. -/
theorem Undisturbed.frame (sequence : db.sequence ≤ db'.sequence) (reads : db'.reads = db.reads)
    (pages : db'.pages = db.pages)
    (unread : ∀ (allowed : List String) (afterSeq snapshotSeq : Nat), snapshotSeq ≤ db.sequence →
      mail db' (unreadWithin ⟨target, some source, allowed⟩ afterSeq snapshotSeq) =
        mail db (unreadWithin ⟨target, some source, allowed⟩ afterSeq snapshotSeq)) :
    Undisturbed target source batch db db' := by
  refine ⟨sequence, ?_, ?_, unread⟩
  · simp only [batchesOf, reads]
  · intro p _
    rw [pages]

theorem WakesOnly.undisturbed (h : Inv db) (h' : Inv db') (only : WakesOnly db db') :
    Undisturbed target source batch db db' :=
  .frame (Nat.le_of_eq only.sequence.symm) only.reads only.pages fun _ _ _ _ =>
    mail_frame h.ordered h'.ordered only.messages only.envelopes _

/-- What another reader, or anyone else, must not do while a read goes on. -/
def intervenes (target source : String) : Action → Bool
  | .readSender req _ => req.targetSessionId == target && req.sourceSessionId == source
  | .deleteEnvelope _ => true
  | .cancelMessage _ _ => true
  | .excludeMessage _ _ _ _ => true
  | .excludePair _ _ => true
  | .excludeSession _ _ => true
  | _ => false

variable [CharacterTables]

omit [CharacterTables] in
/-- A read of another mailbox. -/
theorem readSender_undisturbed (h : Inv db) (h' : Inv db') {req : ReadRequest} {uuid : UuidHex}
    {reply : ReadReply} (d : ReadDone db req uuid reply db') (opened : batch ∈ db.reads)
    (htarget : batch.targetSessionId = target) (hsource : batch.sourceSessionId = source)
    (one : batchesOf db batch.targetSessionId batch.requestId = [batch])
    (other : req.targetSessionId ≠ target ∨ req.sourceSessionId ≠ source) :
    Undisturbed target source batch db db' := by
  -- The other read has another batch.
  have hopen : d.opened.sequence = db.sequence ∧ d.opened.messages = db.messages ∧
      d.opened.envelopes = db.envelopes ∧ d.opened.pages = db.pages ∧ Inv d.opened ∧
      batchesOf d.opened batch.targetSessionId batch.requestId = [batch] ∧
      d.batch.id ≠ batch.id ∧ d.batch.targetSessionId = req.targetSessionId := by
    rcases openRead_ok d.open_eq with ⟨hb, ho⟩ | ⟨hb, _, hnew, hfresh, ho⟩
    · have hmem : d.batch ∈ batchesOf db req.targetSessionId req.requestId := by simp [hb]
      simp only [batchesOf, List.mem_filter, decide_eq_true_eq] at hmem
      refine ⟨by rw [ho], by rw [ho], by rw [ho], by rw [ho], by rw [ho]; exact h,
        by rw [ho]; exact one, ?_, hmem.2.1⟩
      intro hid
      have hsame : d.batch = batch := Tables.eq_of_key h.readIds hmem.1 opened hid
      rcases other with hne | hne
      · exact hne (hmem.2.1.symm.trans (by rw [hsame, htarget]))
      · exact hne (d.batch_source.symm.trans (by rw [hsame, hsource]))
    · refine ⟨by rw [ho], by rw [ho], by rw [ho], by rw [ho], ?_, ?_,
        fun hid => hfresh batch opened hid.symm, by rw [hnew]; rfl⟩
      · rw [ho]
        exact h.openRead ⟨uuid, by rw [hnew]; rfl⟩ hfresh
      · have hkey : ¬ (d.batch.targetSessionId = batch.targetSessionId ∧
            d.batch.requestId = batch.requestId) := by
          rintro ⟨ht, hr⟩
          have hreq : batchesOf db batch.targetSessionId batch.requestId = [] := by
            rw [← ht, ← hr, hnew]
            exact hb
          rw [one] at hreq
          cases hreq
        rw [ho]
        simp only [batchesOf, List.filter_append] at one ⊢
        rw [one, List.filter_cons_of_neg (by simpa using hkey)]
        rfl
  obtain ⟨hseq, hmsg, henv, hpages, hinv, hone, hid, htgt⟩ := hopen
  rcases d.page_eq with ⟨_, hdb, _⟩ | ⟨_, hpage, _⟩
  · rw [hdb]
    refine ⟨Nat.le_of_eq hseq.symm, by rw [hone, one], ?_, ?_⟩
    · intro p _
      rw [hpages]
    · intro allowed afterSeq snapshotSeq _
      exact mail_frame h.ordered hinv.ordered hmsg henv _
  · obtain ⟨messages, hfirst⟩ := firstPage_ok hpage
    obtain ⟨rows, k, p⟩ := hfirst.pageRows
    have hled := hfirst.ledger
    have hpages' : db'.pages = d.opened.pages ++ [d.row] := congrArg Ledger.pages hled
    have hreads' : db'.reads = d.opened.reads :=
      (congrArg Ledger.reads hled).trans rfl
    have hseq' : db'.sequence = d.opened.sequence :=
      (congrArg Ledger.sequence hled).trans rfl
    have henv' : db'.envelopes = d.opened.envelopes :=
      (congrArg Ledger.envelopes hled).trans rfl
    have hmsg' : db'.messages =
        d.opened.messages.map (markRead d.row.messageIds d.batch req.now) ++ [] :=
      (congrArg Ledger.messages hled).trans (List.append_nil _).symm
    refine ⟨?_, ?_, ?_, ?_⟩
    · exact Nat.le_of_eq (hseq'.trans hseq).symm
    · rw [one, ← hone]
      simp only [batchesOf, hreads']
    · intro q hq
      have hne : q ≠ d.row := by
        rintro rfl
        exact hid (p.readId.symm.trans hq)
      rw [hpages', hpages]
      simp only [List.mem_append, List.mem_singleton, hne, or_false]
    · intro allowed afterSeq snapshotSeq _
      rw [← mail_frame h.ordered hinv.ordered hmsg henv]
      apply mail_congr hinv.ordered h'.ordered _ _ hmsg'
      · intro m hm
        by_cases hmark : m.messageId ∈ d.row.messageIds ∧ m.readAt.isNone = true
        · have hids := hmark.1
          rw [p.ids] at hids
          obtain ⟨r, hr, he⟩ := List.mem_map.mp hids
          have hsel := p.selected hr
          obtain rfl := hinv.same_row hsel.stored hm he
          obtain ⟨_, ht, _, hs⟩ := admits_iff.mp hsel.admitted
          have hother : r.1.targetSessionId ≠ target ∨ r.1.sourceSessionId ≠ source := by
            rw [ht, hs _ rfl]
            exact other
          have hmoved := markRead_identity d.row.messageIds d.batch req.now r.1
          refine (mailOf_other rfl ?_).trans (mailOf_other rfl hother).symm
          rw [hmoved.2.2.1, hmoved.2.2.2]
          exact hother
        · rw [markRead, if_neg hmark, mailOf, mailOf, Ledger.envelope?, henv']
          rfl
      · simp

/-- Calls that do not intervene leave an open read alone. -/
theorem step_undisturbed (h : Inv db) (opened : batch ∈ db.reads)
    (htarget : batch.targetSessionId = target) (hsource : batch.sourceSessionId = source)
    (one : batchesOf db batch.targetSessionId batch.requestId = [batch]) {action : Action}
    (quiet : intervenes target source action = false) :
    Undisturbed target source batch db (step db action).1 := by
  have h' := h.step action
  rcases atomically_cases db (perform db action) with ⟨answer, db', hp, hs⟩ | ⟨_, _, hs⟩
  swap
  · have hstep : (step db action).1 = db := congrArg Prod.fst hs
    rw [hstep]
    exact .refl
  have hstep : (step db action).1 = db' := congrArg Prod.fst hs
  rw [hstep] at h' ⊢
  cases action with
  | putEnvelope e =>
      obtain ⟨⟨_, _⟩, hr, rfl, rfl⟩ := map_eq_ok.mp hp
      obtain ⟨hnew, _, rfl⟩ := putEnvelope_ok hr
      refine .frame (Nat.le_refl _) rfl rfl fun _ _ _ _ => ?_
      apply mail_congr h.ordered h'.ordered id [] (by simp)
      · intro m hm
        rw [id, mailOf, envelope?_put rfl (Tables.find_eq_none.mp hnew m hm), mailOf]
      · simp
  | deleteEnvelope id => cases quiet
  | setLifecycle id lifecycleStatus now =>
      cases hp
      refine .frame (Nat.le_refl _) rfl rfl fun _ _ _ _ => ?_
      apply mail_congr h.ordered h'.ordered (fun m => m) [] (by simp [setLifecycle])
      · intro m _
        have hfind : (setLifecycle db id lifecycleStatus now).envelope? m.messageId =
            (db.envelope? m.messageId).map fun e =>
              if e.id = id then { e with lifecycleStatus, updatedAt := now.text } else e :=
          Tables.find_map (fun e => by split <;> rfl) _
        rw [mailOf, hfind, mailOf]
        cases db.envelope? m.messageId with
        | none => rfl
        | some e =>
            rw [Option.map_some]
            split <;> rfl
      · simp
  | storeMessage messageId now inReplyTo skip =>
      obtain ⟨⟨msg, _⟩, hr, _, rfl⟩ := map_eq_ok.mp hp
      obtain ⟨record, row, _, _, _, _, _, _, hcase⟩ := storeMessage_ok hr
      rcases hcase with ⟨_, rfl⟩ | ⟨_, rfl, rfl⟩
      · exact .frame (by simp) rfl rfl fun _ _ _ _ => mail_frame h.ordered h'.ordered rfl rfl _
      · refine .frame (by simp only; omega) rfl rfl fun allowed afterSeq snapshotSeq hle => ?_
        apply mail_congr h.ordered h'.ordered (fun m => m)
          [newRow record now (db.sequence + skip + 1)] (by simp)
        · intro m _
          rfl
        · -- A new arrival is behind the snapshot.
          intro m hm
          rw [List.mem_singleton.mp hm, mailOf, Option.bind_eq_none_iff]
          intro e _
          rw [if_neg]
          intro hc
          rw [unreadWithin, Bool.and_eq_true, decide_eq_true_eq] at hc
          have hseq : db.sequence + skip + 1 ≤ snapshotSeq := hc.2
          omega
  | readSender req uuid =>
      obtain ⟨⟨reply, _⟩, hr, _, rfl⟩ := map_eq_ok.mp hp
      obtain ⟨d⟩ := readSender_ok hr
      apply readSender_undisturbed h h' d opened htarget hsource one
      simp only [intervenes, Bool.and_eq_false_iff, beq_eq_false_iff_ne] at quiet
      exact quiet
  | cancelMessage messageId now => cases quiet
  | excludeMessage messageId target reason now => cases quiet
  | excludePair pairId now => cases quiet
  | excludeSession sessionId now => cases quiet
  | markReadEventPublished messageId =>
      obtain ⟨⟨b, _⟩, hr, _, rfl⟩ := map_eq_ok.mp hp
      have hdb := markReadEventPublished_ok hr
      rw [hdb] at h' ⊢
      refine .frame (Nat.le_refl _) rfl rfl fun _ _ _ _ => ?_
      refine mail_congr h.ordered h'.ordered _ [] (List.append_nil _).symm ?_ (by simp)
      intro m _
      split <;> rfl
  | claimWake target allowed now uuid =>
      obtain ⟨⟨out, _⟩, hr, _, rfl⟩ := map_eq_ok.mp hp
      exact (claimWake_only hr).undisturbed h h'
  | admitWake target claimId runId allowed now =>
      obtain ⟨⟨b, _⟩, hr, _, rfl⟩ := map_eq_ok.mp hp
      exact (admitWake_only hr).undisturbed h h'
  | releaseWake target claimId =>
      obtain ⟨⟨b, _⟩, hr, _, rfl⟩ := map_eq_ok.mp hp
      exact (releaseWake_only hr).undisturbed h h'
  | suppressWake target now =>
      obtain ⟨⟨n, _⟩, hr, _, rfl⟩ := map_eq_ok.mp hp
      exact (suppressWake_only hr).undisturbed h h'
  | recoverWakes =>
      cases hp
      exact WakesOnly.undisturbed h h' ⟨rfl, rfl, rfl, rfl, rfl, rfl⟩

end AgentsServer.Mailbox

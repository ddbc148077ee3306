import AgentsServer.Mailbox.Snapshot

/-!
# Reads return the snapshot

The three facts about reads: following a fresh request returns the unread mail,
a first page returns what it marked, and a replay returns the recorded page
without what is no longer available.
-/

namespace AgentsServer.Mailbox

open Library Library.Runs Relation

variable [CharacterTables] {db db' : Ledger} {r : Reader} {batch : ReadRow}

/-! ## Following -/

theorem Following.openRead {cursor : Nat} {rest : List Message}
    (f : Following r db batch cursor rest) (turn : Turn) :
    openRead db (r.request turn cursor) cursor r.limit turn.uuid = .ok (batch, db) := by
  have hb : (db.reads.filter fun b => decide (b.targetSessionId = (r.request turn cursor).targetSessionId ∧
      b.requestId = (r.request turn cursor).requestId)) = [batch] := f.batches
  unfold Mailbox.openRead
  rw [hb]

/-- What does not intervene keeps an open read where it is. -/
theorem Following.meanwhile {cursor : Nat} {rest : List Message}
    (f : Following r db batch cursor rest) (actions : List Action)
    (quiet : ∀ a ∈ actions, intervenes r.target r.source a = false) :
    Following r (run step db actions) batch cursor rest := by
  induction actions generalizing db with
  | nil => exact f
  | cons a more ih =>
      obtain ⟨hopened, htarget, hrequest⟩ := f.opened
      have hone : batchesOf db batch.targetSessionId batch.requestId = [batch] := by
        rw [htarget, hrequest]
        exact f.batches
      have u := step_undisturbed f.inv hopened htarget f.source hone (quiet a (by simp))
      apply ih _ fun b hb => quiet b (List.mem_cons_of_mem _ hb)
      refine ⟨f.inv.step a, ?_, f.source, f.limit, f.snapshot.trans u.sequence,
        f.bound.trans u.sequence, ?_, ?_, ?_⟩
      · rw [← htarget, ← hrequest, u.batches, hone]
      · rcases f.place with h0 | ⟨p, hp, hid, he, hm⟩
        · exact Or.inl h0
        · exact Or.inr ⟨p, (u.pages p hid).mpr hp, hid, he, hm⟩
      · intro p hp hid
        exact f.fresh p ((u.pages p hid).mp hp) hid
      · rw [← f.unread]
        exact u.unread r.allowed cursor batch.snapshotSeq f.snapshot

theorem follow_succ {turns : Nat → Turn} {fuel i cursor : Nat} {reply : ReadReply}
    (h : readSender db (r.request (turns i) cursor) (turns i).uuid = .ok (reply, db')) :
    follow r turns (fuel + 1) i db cursor =
      match reply.nextAfterSeq with
      | some next =>
          (follow r turns fuel (i + 1) (run step db' (turns i).meanwhile) next).map
            fun rest => (reply :: rest.1, rest.2)
      | none => some ([reply], db') := by
  have hstep : step db (.readSender (r.request (turns i) cursor) (turns i).uuid) =
      (db', .ok (.read reply)) := by
    simp only [step, perform, h, Except.map, atomically_ok]
  cases hn : reply.nextAfterSeq with
  | none => simp only [follow, hstep, hn]
  | some next => simp only [follow, hstep, hn]

/-- The replies of a followed read. -/
structure Followed (rest : List Message) (replies : List ReadReply) : Prop where
  messages : (replies.flatMap ReadReply.messages).map Message.withoutReceipt = rest
  snapshot : ∀ reply ∈ replies, ∀ msg ∈ reply.messages, msg.mailboxSeq ≤ reply.snapshotSeq

/-- A call that reads one page of an open read, and the pages after it. -/
theorem follow_page {turns : Nat → Turn}
    (quiet : ∀ i, ∀ a ∈ (turns i).meanwhile, intervenes r.target r.source a = false)
    {n : Nat} {opened : Ledger} {cursor i : Nat} {rest : List Message} (hn : rest.length = n)
    (f : Following r opened batch cursor rest)
    (hread : readSender db (r.request (turns i) cursor) (turns i).uuid =
      readOpened opened (r.request (turns i) cursor) r.scope batch cursor r.limit) :
    ∃ fuel replies db', follow r turns fuel i db cursor = some (replies, db') ∧
      Followed rest replies := by
  induction n using Nat.strong_induction_on generalizing db opened cursor i rest with
  | _ n ih =>
      obtain ⟨reply, db', k, hopen, taken⟩ := f.page (turns i)
      rw [hopen] at hread
      cases hnext : reply.nextAfterSeq with
      | none =>
          refine ⟨1, [reply], db', ?_, ?_, ?_⟩
          · rw [follow_succ hread, hnext]
          · have hall := taken.done hnext
            rw [List.flatMap_singleton, taken.messages, List.take_of_length_le hall]
          · intro reply' hr
            rw [List.mem_singleton.mp hr]
            exact taken.snapshot
      | some next =>
          obtain ⟨hpos, hlt, hfollow⟩ := taken.next next hnext
          have f' := hfollow.meanwhile _ (quiet i)
          have hle : next ≤ maxRowId := f'.bound.trans f'.inv.room
          obtain ⟨fuel, replies, last, hrest, hdone⟩ := ih (rest.drop k).length
            (by rw [List.length_drop]; omega) rfl f' (i := i + 1)
            (readSender_open hle (f'.openRead (turns (i + 1))))
          refine ⟨fuel + 1, reply :: replies, last, ?_, ?_, ?_⟩
          · rw [follow_succ hread, hnext]
            simp only [hrest, Option.map_some]
          · rw [List.flatMap_cons, List.map_append, taken.messages, hdone.messages,
              List.take_append_drop]
          · intro reply' hr
            rcases List.mem_cons.mp hr with rfl | hr
            · exact taken.snapshot
            · exact hdone.snapshot reply' hr

/-- The mail of a scope that is unread now. -/
def unreadMail (db : Ledger) (scope : Scope) : List Message :=
  mail db fun row => scope.admits row && row.1.readAt.isNone

omit [CharacterTables] in
theorem le_highWater {m : MailRow} (hm : m ∈ db.messages) :
    m.mailboxSeq ≤ highWater db m.targetSessionId m.sourceSessionId := by
  have hle : ∀ (xs : List Nat) (d x : Nat), x ≤ d ∨ x ∈ xs → x ≤ xs.foldl max d := by
    intro xs
    induction xs with
    | nil => simp
    | cons y rest ih =>
        intro d x hx
        rw [List.foldl_cons]
        apply ih
        rcases hx with hd | hmem
        · exact Or.inl (by omega)
        · rcases List.mem_cons.mp hmem with rfl | hr
          · exact Or.inl (by omega)
          · exact Or.inr hr
  apply hle
  refine Or.inr (List.mem_map_of_mem (List.mem_filter.mpr ⟨hm, ?_⟩))
  simp

omit [CharacterTables] in
theorem highWater_le (h : Inv db) (target source : String) :
    highWater db target source ≤ db.sequence := by
  have hle : ∀ (xs : List Nat) (d : Nat), d ≤ db.sequence → (∀ x ∈ xs, x ≤ db.sequence) →
      xs.foldl max d ≤ db.sequence := by
    intro xs
    induction xs with
    | nil => exact fun d hd _ => hd
    | cons y rest ih =>
        intro d hd hall
        have hy := hall y (by simp)
        exact ih _ (by omega) fun x hx => hall x (List.mem_cons_of_mem _ hx)
  apply hle _ 0 (Nat.zero_le _)
  intro x hx
  obtain ⟨m, hm, rfl⟩ := List.mem_map.mp hx
  exact h.bounded m (List.mem_filter.mp hm).1

/-- A fresh request opens its read at the first page. -/
theorem fresh_following (h : Inv db) (turn : Turn) (fresh : batchesOf db r.target r.requestId = [])
    (unused : ∀ b ∈ db.reads, b.id ≠ "mailread_" ++ turn.uuid.text) :
    ∃ batch opened, Mailbox.openRead db (r.request turn 0) 0 r.limit turn.uuid =
        .ok (batch, opened) ∧ Following r opened batch 0 (unreadMail db r.scope) := by
  set batch := newRead db (r.request turn 0) r.limit turn.uuid with hbatch
  set opened : Ledger := { db with reads := db.reads ++ [batch] } with hopened
  have hopen : Mailbox.openRead db (r.request turn 0) 0 r.limit turn.uuid = .ok (batch, opened) := by
    have hb : (db.reads.filter fun b => decide (b.targetSessionId = (r.request turn 0).targetSessionId ∧
        b.requestId = (r.request turn 0).requestId)) = [] := fresh
    have hid : (db.reads.any fun b => decide (b.id = "mailread_" ++ turn.uuid.text)) = false := by
      simpa using unused
    unfold Mailbox.openRead
    rw [hb]
    change (require (0 = 0) _ >>= _) = _
    rw [require_bind rfl, require_bind hid]
    rfl
  have hinv : Inv opened := h.openRead ⟨turn.uuid, rfl⟩ unused
  have hnopage : ∀ p ∈ db.pages, p.readId ≠ batch.id := by
    intro p hp he
    obtain ⟨b, hb, hid⟩ := h.pageReads p hp
    exact unused b hb (hid.trans he)
  refine ⟨batch, opened, hopen, hinv, ?_, rfl, rfl, highWater_le h _ _, Nat.zero_le _,
    Or.inl rfl, ?_, ?_⟩
  · simp only [batchesOf, hopened, List.filter_append] at fresh ⊢
    rw [fresh, List.filter_cons_of_pos]
    · rfl
    · exact decide_eq_true ⟨rfl, rfl⟩
  · intro p hp hid
    exact absurd hid (hnopage p hp)
  · -- Everything unread of this sender is within the snapshot.
    rw [mail_frame h.ordered hinv.ordered rfl rfl, unreadMail, mail, mail,
      select_eq_filter h.ordered, select_eq_filter h.ordered]
    congr 1
    apply List.filter_congr
    intro x hx
    have hm := (mem_join.mp hx).1
    by_cases hadm : r.scope.admits x = true
    · obtain ⟨_, ht, _, hs⟩ := admits_iff.mp hadm
      have hlow := h.positive x.1 hm
      have hhigh : x.1.mailboxSeq ≤ batch.snapshotSeq := by
        have hle := le_highWater hm
        rw [ht, hs r.source rfl] at hle
        exact hle
      simp [unreadWithin, hlow, hhigh]
    · simp [unreadWithin, hadm]

omit [CharacterTables] in
theorem mail_ordered (h : Ordered db) (condition : Joined → Bool) :
    ((mail db condition).map Message.mailboxSeq).Pairwise (· < ·) := by
  rw [mail, List.map_map, List.pairwise_map]
  exact select_ordered h condition

/-! ## First pages -/

/-- The messages that are unread before and read after. -/
def newlyRead (db db' : Ledger) : List String :=
  (db.messages.filter fun m => m.readAt.isNone &&
    db'.messages.any fun m' => m'.messageId == m.messageId && m'.readAt.isSome).map
      MailRow.messageId

omit [CharacterTables] in
theorem join_rows_sublist (db : Ledger) : (db.join.map Prod.fst).Sublist db.messages := by
  have body : ∀ ms : List MailRow,
      ((ms.filterMap fun m => (db.envelope? m.messageId).map (m, ·)).map Prod.fst).Sublist ms := by
    intro ms
    induction ms with
    | nil => exact List.Sublist.refl _
    | cons m rest ih =>
        cases he : db.envelope? m.messageId with
        | none => simpa [he] using ih.cons m
        | some e => simpa [he] using ih.cons_cons m
  exact body db.messages

omit [CharacterTables] in
theorem PageRows.newlyRead (h : Inv db) {scope : Scope} {cursor pageLimit : Nat} {now : IsoTime}
    {row : PageRow} {messages : List Message} {rows : List Joined} {k : Nat}
    (p : PageRows db scope batch cursor pageLimit now row db' messages rows k)
    (marked : db'.messages = db.messages.map (markRead row.messageIds batch now)) :
    newlyRead db db' = row.messageIds := by
  have hsub : (rows.map Prod.fst).Sublist db.messages := by
    refine List.Sublist.trans (List.Sublist.map Prod.fst ?_) (join_rows_sublist db)
    rw [p.prefix_eq, select_eq_filter h.ordered]
    exact (List.take_sublist _ _).trans List.filter_sublist
  have hids : row.messageIds = (rows.map Prod.fst).map MailRow.messageId := by
    rw [p.ids, List.map_map]
    rfl
  have hfilter : (db.messages.filter fun m => m.readAt.isNone &&
      db'.messages.any fun m' => m'.messageId == m.messageId && m'.readAt.isSome) =
        rows.map Prod.fst := by
    rw [← filter_keys_sublist hsub h.messageIds, ← hids]
    apply List.filter_congr
    intro m hm
    rw [Bool.eq_iff_iff, Bool.and_eq_true, decide_eq_true_eq]
    constructor
    · rintro ⟨hunread, hany⟩
      obtain ⟨m', hm', hc⟩ := List.any_eq_true.mp hany
      rw [marked] at hm'
      obtain ⟨m₀, hm₀, rfl⟩ := List.mem_map.mp hm'
      simp only [Bool.and_eq_true, beq_iff_eq, (markRead_identity _ _ _ m₀).1] at hc
      obtain rfl := h.same_row hm₀ hm hc.1
      by_contra hnot
      rw [markRead, if_neg fun hmark => hnot hmark.1] at hc
      rw [Option.isNone_iff_eq_none] at hunread
      rw [hunread] at hc
      cases hc.2
    · intro hid
      have hmem := hid
      rw [p.ids] at hmem
      obtain ⟨x, hx, he⟩ := List.mem_map.mp hmem
      obtain rfl := h.same_row (p.selected hx).stored hm he
      have hunread := (p.selected hx).unread
      refine ⟨by rw [hunread]; rfl, List.any_eq_true.mpr ⟨markRead row.messageIds batch now x.1, ?_, ?_⟩⟩
      · rw [marked]
        exact List.mem_map_of_mem hm
      · rw [markRead, if_pos ⟨hid, by rw [hunread]; rfl⟩]
        simp
  rw [Mailbox.newlyRead, hfilter, ← hids]

omit [CharacterTables] in
/-- Taking a first page of an open read, once its cursor is accepted. -/
theorem firstPage_respond (h : Inv db) {scope : Scope} {cursor pageLimit : Nat} {now : IsoTime}
    {row : PageRow} (opened : batch ∈ db.reads) (target : scope.target = batch.targetSessionId)
    (source : scope.source = some batch.sourceSessionId)
    (fresh : db.page? batch.id cursor = none)
    (hfirst : firstPage db scope batch cursor pageLimit now = .ok (row, db')) :
    ∃ reply, respond db' scope batch row pageLimit false = .ok reply ∧
      reply.readId = batch.id ∧ reply.unavailableCount = 0 ∧
      reply.messages.map Message.messageId = row.messageIds ∧
      newlyRead db db' = row.messageIds ∧ row ∈ db'.pages ∧ row.key = (batch.id, cursor) := by
  obtain ⟨messages, hfp⟩ := firstPage_ok hfirst
  have h' := h.firstPage opened target source fresh hfp
  obtain ⟨rows, k, p⟩ := hfp.pageRows
  have hids : messages.map Message.messageId = row.messageIds := by
    rw [p.messages_eq, p.ids, List.map_map]
    apply List.map_congr_left
    intro x _
    exact pageMessage_messageId _ x
  unfold respond
  rw [p.recorded h h', ok_bind]
  refine ⟨_, rfl, rfl, ?_, hids, ?_, ?_, ?_⟩
  · rw [← hids, List.length_map]
    exact Int.sub_self _
  · exact p.newlyRead h (by rw [hfp.ledger]; rfl)
  · rw [hfp.ledger]
    simp
  · rw [PageRow.key, p.readId, p.afterSeq]

/-- No page of the request is recorded at this cursor. -/
def FirstTime (db : Ledger) (req : ReadRequest) : Prop :=
  ∀ b ∈ batchesOf db req.targetSessionId req.requestId, ∀ p ∈ db.pages,
    p.readId = b.id → (p.afterSeq : Int) ≠ req.afterSeq

omit [CharacterTables] in
/-- The batch of a call: it is recorded in the opened ledger, and the call saw
the old pages and messages. -/
theorem openRead_batch (h : Inv db) {req : ReadRequest} {afterSeq pageLimit : Nat}
    {uuid : UuidHex} {opened : Ledger}
    (ho : Mailbox.openRead db req afterSeq pageLimit uuid = .ok (batch, opened)) :
    Inv opened ∧ batch ∈ opened.reads ∧ batch.targetSessionId = req.targetSessionId ∧
      batchesOf opened req.targetSessionId req.requestId = [batch] ∧
      opened.pages = db.pages ∧ opened.messages = db.messages ∧
      (batchesOf db req.targetSessionId req.requestId = [batch] ∧ opened = db ∨
        ∀ p ∈ db.pages, p.readId ≠ batch.id) := by
  rcases openRead_ok ho with ⟨hb, rfl⟩ | ⟨hb, _, hnew, hfresh, rfl⟩
  · have hmem : batch ∈ batchesOf opened req.targetSessionId req.requestId := by simp [hb]
    simp only [batchesOf, List.mem_filter, decide_eq_true_eq] at hmem
    exact ⟨h, hmem.1, hmem.2.1, hb, rfl, rfl, Or.inl ⟨hb, rfl⟩⟩
  · have hkey : batch.targetSessionId = req.targetSessionId ∧ batch.requestId = req.requestId := by
      rw [hnew]
      exact ⟨rfl, rfl⟩
    refine ⟨h.openRead ⟨uuid, by rw [hnew]; rfl⟩ hfresh, by simp, hkey.1, ?_, rfl, rfl,
      Or.inr ?_⟩
    · simp only [batchesOf, List.filter_append] at hb ⊢
      rw [hb, List.filter_cons_of_pos (by simpa using hkey)]
      rfl
    · intro p hp he
      obtain ⟨b, hb', hid⟩ := h.pageReads p hp
      exact hfresh b hb' (hid.trans he)

omit [CharacterTables] in
theorem FirstTime.unpaged (h : Inv db) {req : ReadRequest} (first : FirstTime db req)
    {afterSeq pageLimit : Nat} {uuid : UuidHex} {opened : Ledger} (ha : (afterSeq : Int) = req.afterSeq)
    (ho : Mailbox.openRead db req afterSeq pageLimit uuid = .ok (batch, opened)) :
    opened.page? batch.id afterSeq = none := by
  obtain ⟨_, _, _, _, hpages, _, hcase⟩ := openRead_batch h ho
  rw [Ledger.page?, Tables.find_eq_none, hpages]
  intro p hp hkey
  rw [PageRow.key, Prod.mk.injEq] at hkey
  rcases hcase with ⟨hb, _⟩ | hnew
  · apply first batch (by simp [hb]) p hp hkey.1
    rw [hkey.2]
    exact ha
  · exact hnew p hp hkey.1

/-- A first page fails neither at its own size nor at its answer's. -/
theorem firstTime_fits (h : Inv db) {req : ReadRequest} (first : FirstTime db req) (uuid : UuidHex)
    {e : Failure} (he : e = tooLarge ∨ e = retryTooLarge) : readSender db req uuid ≠ .error e := by
  have hvalue : ∀ text, e ≠ .valueError text := by
    rintro text rfl
    rcases he with h | h <;> cases h
  have hident : ∀ value, identifier value ≠ .error e := by
    intro value hv
    simp only [identifier, bind_eq_error, require_eq_error, pure_ne_error, and_false, exists_false,
      or_false] at hv
    exact hvalue _ hv.2.symm
  intro hr
  simp only [readSender, bind_eq_error, hident, false_or] at hr
  obtain ⟨_, hsrc, _, _, _, _, hr⟩ := hr
  rcases hr with hcur | ⟨afterSeq, ha, hr⟩
  · simp only [cursor, bind_eq_error, require_eq_error, pure_ne_error, and_false, exists_false,
      or_false] at hcur
    exact hvalue _ hcur.2.symm
  rcases hr with hlim | ⟨pageLimit, hl, hr⟩
  · simp only [limit, bind_eq_error, require_eq_error, pure_ne_error, and_false, exists_false,
      or_false] at hlim
    exact hvalue _ hlim.2.symm
  have hne := (identifier_eq_ok hsrc).2
  rcases hr with hsc | ⟨scope, hsc, hr⟩
  · simp only [scope, if_neg hne, bind_eq_error, hident, pairs, require_eq_error, pure_ne_error,
      and_false, exists_false, or_false, false_or] at hsc
    obtain ⟨_, _, hsc⟩ := hsc
    exact hvalue _ hsc.2.symm
  obtain rfl := scope_eq_ok hne hsc
  have ha' := (cursor_eq_ok ha).1
  rcases hr with hopen | ⟨⟨batch, opened⟩, hopen, hr⟩
  · unfold Mailbox.openRead at hopen
    split at hopen
    · cases hopen
      rcases he with h | h <;> simp [tooLarge, retryTooLarge] at h
    · cases hopen
    · simp only [bind_eq_error, require_eq_error, pure_ne_error, and_false, exists_false,
        or_false] at hopen
      rcases hopen with ⟨_, rfl⟩ | ⟨_, _, _, rfl⟩ <;> rcases he with h | h <;>
        simp [tooLarge, retryTooLarge] at h
  obtain ⟨hinv, hmem, htarget, _, _, _, _⟩ := openRead_batch h hopen
  have hnone := first.unpaged h ha' hopen
  simp only [readOpened, bind_eq_error, require_eq_error, hnone] at hr
  rcases hr with ⟨_, rfl⟩ | ⟨_, hreq, hr⟩
  · rcases he with h | h <;> simp [tooLarge, retryTooLarge] at h
  rw [require_eq_ok] at hreq
  have hsource : (some req.sourceSessionId) = some batch.sourceSessionId := by rw [hreq.1]
  rcases hr with hfirst | ⟨⟨row, db'⟩, hfirst, hr⟩
  · simp only [firstPage, bind_eq_error, require_eq_error, pure_ne_error, and_false, exists_false,
      or_false] at hfirst
    rcases hfirst with ⟨_, rfl⟩ | ⟨_, _, hpage⟩
    · rcases he with h | h <;> simp [tooLarge, retryTooLarge] at h
    · obtain ⟨out, hout⟩ := page_total opened
        (unreadWithin ⟨req.targetSessionId, some req.sourceSessionId, req.allowedPairIds⟩
          afterSeq batch.snapshotSeq) (some (batch.id, req.now.text))
        (limit_eq_ok hl).1 (fun x hx => hinv.receipt_fits hmem req.now (mem_select.mp hx).1)
      rw [hout] at hpage
      cases hpage
  · obtain ⟨reply, hrespond, _⟩ := firstPage_respond hinv hmem htarget.symm hsource hnone hfirst
    rw [hrespond] at hr
    rcases hr with hr | ⟨_, _, hr⟩ <;> cases hr

/-! ## Replays -/

/-- A message id that a scope still admits. -/
def available (db : Ledger) (scope : Scope) (id : String) : Bool :=
  db.join.any fun row => scope.admits row && row.1.messageId == id

omit [CharacterTables] in
theorem page_ids_nodup (h : Inv db) {p : PageRow} (hp : p ∈ db.pages) : p.messageIds.Nodup :=
  (List.nodup_flatMap.mp h.pageIds).1 p hp

omit [CharacterTables] in
/-- A recorded page that fits is answered with what is still available of it. -/
theorem recordedPage_ids (h : Inv db) {scope : Scope} {p : PageRow} (hp : p ∈ db.pages)
    {pageLimit : Nat} {messages : List Message}
    (hr : recordedPage db scope p pageLimit = .ok (messages, false)) :
    messages.map Message.messageId = p.messageIds.filter (available db scope) := by
  unfold recordedPage at hr
  by_cases hempty : p.messageIds.isEmpty = true
  · rw [if_pos hempty] at hr
    cases hr
    rw [List.isEmpty_iff.mp hempty]
    rfl
  rw [if_neg hempty] at hr
  obtain ⟨k, _, _, hm, hmore, _, _⟩ := page_ok hr
  set found := db.select fun r => scope.admits r && p.messageIds.contains r.1.messageId with hfound
  rw [eq_comm, decide_eq_false_iff_not, Nat.not_lt] at hmore
  have hids : messages.map Message.messageId = found.map fun x => x.1.messageId := by
    rw [hm, List.take_of_length_le hmore, List.map_map]
    apply List.map_congr_left
    intro x _
    exact pageMessage_messageId none x
  have hmem : ∀ id, id ∈ found.map (fun x => x.1.messageId) ↔
      id ∈ p.messageIds.filter (available db scope) := by
    intro id
    simp only [List.mem_map, List.mem_filter, available, List.any_eq_true, Bool.and_eq_true,
      beq_iff_eq, hfound, mem_select, List.contains_eq_mem, decide_eq_true_eq]
    constructor
    · rintro ⟨x, ⟨hj, hadm, hid⟩, rfl⟩
      exact ⟨hid, x, hj, hadm, rfl⟩
    · rintro ⟨hid, x, hj, hadm, rfl⟩
      exact ⟨x, ⟨hj, hadm, hid⟩, rfl⟩
  have hstored : ∀ id ∈ found.map (fun x => x.1.messageId), ∃ m ∈ db.messages, m.messageId = id := by
    intro id hid
    obtain ⟨x, hx, rfl⟩ := List.mem_map.mp hid
    exact ⟨x.1, (mem_join.mp (mem_select.mp hx).1).1, rfl⟩
  rw [hids]
  -- Both lists have the same ids, each once, in the order of the messages.
  apply @List.Perm.eq_of_pairwise _ fun a b => ∀ m ∈ db.messages, ∀ m' ∈ db.messages,
    m.messageId = a → m'.messageId = b → m.mailboxSeq < m'.mailboxSeq
  · intro a b ha hb hab hba
    obtain ⟨m, hmem₁, hma⟩ := hstored a ha
    obtain ⟨m', hmem₂, hmb⟩ := hstored b ((hmem b).mpr hb)
    have hlt := hab m hmem₁ m' hmem₂ hma hmb
    have hgt := hba m' hmem₂ m hmem₁ hmb hma
    omega
  · rw [List.pairwise_map]
    apply (select_ordered h.ordered _).imp_of_mem
    intro a b ha hb hab m hm₁ m' hm₂ h₁ h₂
    rw [h.same_row hm₁ (mem_join.mp (mem_select.mp ha).1).1 h₁,
      h.same_row hm₂ (mem_join.mp (mem_select.mp hb).1).1 h₂]
    exact hab
  · exact (h.pageOrder p hp).filter _
  · rw [List.perm_ext_iff_of_nodup]
    · exact hmem
    · rw [hfound, select_eq_filter h.ordered]
      exact (join_ids_nodup h).sublist ((List.filter_sublist).map _)
    · exact (page_ids_nodup h hp).filter _

/-- A recorded page of the one batch of a request. -/
structure Recorded (target requestId : String) (batch : ReadRow) (p : PageRow) (db : Ledger) :
    Prop where
  page : p ∈ db.pages
  batches : batchesOf db target requestId = [batch]

omit [CharacterTables] in
theorem Recorded.change {target requestId : String} {p : PageRow}
    (h : Recorded target requestId batch p db) (hc : Change db db') :
    Recorded target requestId batch p db' := by
  cases hc with
  | keep _ _ _ _ reads pages _ _ _ _ =>
      refine ⟨pages ▸ h.page, ?_⟩
      simp only [batchesOf, reads]
      exact h.batches
  | store _ _ _ _ _ _ _ _ _ => exact ⟨h.page, h.batches⟩
  | delete _ => exact ⟨h.page, h.batches⟩
  | openRead other _ _ request =>
      refine ⟨h.page, ?_⟩
      have hkey : ¬ (other.targetSessionId = target ∧ other.requestId = requestId) := by
        rintro ⟨rfl, rfl⟩
        rw [h.batches] at request
        cases request
      have hb := h.batches
      simp only [batchesOf, List.filter_append] at hb ⊢
      rw [hb, List.filter_cons_of_neg (by simpa using hkey)]
      rfl
  | firstPage _ _ _ _ _ row _ _ _ _ _ _ page =>
      rw [page.ledger]
      exact ⟨List.mem_append_left _ h.page, h.batches⟩

/-- A committed read, from the outcome of its step. -/
theorem step_readSender {req : ReadRequest} {uuid : UuidHex} {reply : ReadReply}
    (hok : (step db (.readSender req uuid)).2 = .ok (.read reply)) :
    Nonempty (ReadDone db req uuid reply (step db (.readSender req uuid)).1) := by
  obtain ⟨db₁, hp, hs⟩ := atomically_eq_ok hok
  have hstep : (step db (.readSender req uuid)).1 = db₁ := hs
  obtain ⟨⟨reply', db₂⟩, hr, hb⟩ := map_eq_ok.mp hp
  simp only [Prod.mk.injEq, Answer.read.injEq] at hb
  obtain ⟨rfl, rfl⟩ := hb
  rw [hstep]
  exact readSender_ok hr

omit [CharacterTables] in
/-- A first page, from its answer: what it marked and what it recorded. -/
theorem ReadDone.first (h : Inv db) {req : ReadRequest} {uuid : UuidHex} {reply : ReadReply}
    (d : ReadDone db req uuid reply db') (hnew : reply.replayed = false) :
    reply.unavailableCount = 0 ∧ reply.readId = d.batch.id ∧
      reply.messages.map Message.messageId = d.row.messageIds ∧
      newlyRead db db' = d.row.messageIds ∧ d.row.key = (d.batch.id, d.afterSeq) ∧
      Recorded req.targetSessionId req.requestId d.batch d.row db' := by
  obtain ⟨hinv, hmem, htarget, hone, _, hmsgs, _⟩ := openRead_batch h d.open_eq
  have hsource : (some req.sourceSessionId) = some d.batch.sourceSessionId := by rw [d.batch_source]
  rcases d.page_eq with ⟨_, _, hrespond⟩ | ⟨hnone, hfirst, hrespond⟩
  · obtain ⟨_, _, hreply⟩ := respond_ok hrespond
    rw [hreply] at hnew
    cases hnew
  · obtain ⟨reply', hrespond', hid, hun, hids, hnewly, hrow, hkey⟩ :=
      firstPage_respond hinv hmem htarget.symm hsource hnone hfirst
    obtain rfl := Except.ok.inj (hrespond.symm.trans hrespond')
    refine ⟨hun, hid, hids, ?_, hkey, hrow, ?_⟩
    · rw [← hnewly, newlyRead, newlyRead, hmsgs]
    · obtain ⟨_, hfp⟩ := firstPage_ok hfirst
      rw [← hone]
      simp only [batchesOf, (congrArg Ledger.reads hfp.ledger).trans rfl]

omit [CharacterTables] in
/-- A read at a recorded page replays it. -/
theorem ReadDone.replay (h : Inv db) {req : ReadRequest} {uuid : UuidHex} {reply : ReadReply}
    (d : ReadDone db req uuid reply db') {p : PageRow} {cursor : Nat}
    (hrec : Recorded req.targetSessionId req.requestId batch p db)
    (hkey : p.key = (batch.id, cursor)) (ha : req.afterSeq = cursor) :
    reply.replayed = true ∧ reply.readId = batch.id ∧ db' = db ∧
      reply.messages.map Message.messageId = p.messageIds.filter
        (available db ⟨req.targetSessionId, some req.sourceSessionId, req.allowedPairIds⟩) := by
  have hopen : d.batch = batch ∧ d.opened = db := by
    rcases openRead_ok d.open_eq with ⟨hb, ho⟩ | ⟨hb, _⟩
    · rw [hrec.batches] at hb
      exact ⟨(List.singleton_inj.mp hb).symm, ho⟩
    · rw [hrec.batches] at hb
      cases hb
  have hcursor : d.afterSeq = cursor := by
    have hd := d.after_eq
    omega
  have hfound : d.opened.page? d.batch.id d.afterSeq = some p := by
    rw [hopen.1, hopen.2, hcursor, Ledger.page?, ← hkey]
    exact Tables.find_of_mem h.pageKeys hrec.page
  rcases d.page_eq with ⟨hrow, hdb, hrespond⟩ | ⟨hnone, _⟩
  · rw [hfound, Option.some.injEq] at hrow
    obtain ⟨messages, hpage, hreply⟩ := respond_ok hrespond
    rw [hopen.2, ← hrow] at hpage
    refine ⟨by rw [hreply], by rw [hreply, hopen.1], hdb.trans hopen.2, ?_⟩
    rw [hreply]
    exact recordedPage_ids h hrec.page hpage
  · rw [hfound] at hnone
    cases hnone

/-! ## The snapshot -/

/-- In every reachable mailbox: following a fresh request ends and returns the
mail of the sender that was unread at its start, in order and each once, within
the snapshot; a first page returns exactly what it marked and does not overflow;
and a replay returns the first answer without what is no longer available. -/
theorem read_returns_snapshot (actions : List Action) :
    (∀ (r : Reader) (turns : Nat → Turn),
      batchesOf (after actions) r.target r.requestId = [] →
      (∀ b ∈ (after actions).reads, b.id ≠ "mailread_" ++ (turns 0).uuid.text) →
      (∀ i, ∀ a ∈ (turns i).meanwhile, intervenes r.target r.source a = false) →
      ∃ fuel replies db', follow r turns fuel 0 (after actions) 0 = some (replies, db') ∧
        (replies.flatMap ReadReply.messages).map Message.withoutReceipt =
          unreadMail (after actions) r.scope ∧
        ((replies.flatMap ReadReply.messages).map Message.mailboxSeq).Pairwise (· < ·) ∧
        ∀ reply ∈ replies, ∀ msg ∈ reply.messages, msg.mailboxSeq ≤ reply.snapshotSeq) ∧
    (∀ req uuid reply, (step (after actions) (.readSender req uuid)).2 = .ok (.read reply) →
      reply.replayed = false →
      reply.unavailableCount = 0 ∧ reply.messages.map Message.messageId =
        newlyRead (after actions) (step (after actions) (.readSender req uuid)).1) ∧
    (∀ req uuid, FirstTime (after actions) req →
      (step (after actions) (.readSender req uuid)).2 ≠ .error tooLarge ∧
      (step (after actions) (.readSender req uuid)).2 ≠ .error retryTooLarge) ∧
    (∀ pre req uuid post reply, actions = pre ++ .readSender req uuid :: post →
      (step (after pre) (.readSender req uuid)).2 = .ok (.read reply) →
      reply.replayed = false →
      ∀ req' uuid' reply', req'.targetSessionId = req.targetSessionId →
        req'.requestId = req.requestId → req'.afterSeq = req.afterSeq →
        (step (after actions) (.readSender req' uuid')).2 = .ok (.read reply') →
        reply'.replayed = true ∧ reply'.readId = reply.readId ∧
        (step (after actions) (.readSender req' uuid')).1 = after actions ∧
        reply'.messages.map Message.messageId =
          (reply.messages.map Message.messageId).filter (available (after actions)
            ⟨req'.targetSessionId, some req'.sourceSessionId, req'.allowedPairIds⟩)) := by
  have h := inv_after actions
  refine ⟨?_, ?_, ?_, ?_⟩
  · intro r turns fresh unused quiet
    obtain ⟨batch, opened, hopen, f⟩ := fresh_following h (turns 0) fresh unused
    obtain ⟨fuel, replies, db', hrun, hdone⟩ :=
      follow_page quiet rfl f (readSender_open (Nat.zero_le _) hopen)
    refine ⟨fuel, replies, db', hrun, hdone.messages, ?_, hdone.snapshot⟩
    have hseq : (replies.flatMap ReadReply.messages).map Message.mailboxSeq =
        (unreadMail (after actions) r.scope).map Message.mailboxSeq := by
      rw [← hdone.messages, List.map_map]
      rfl
    rw [hseq]
    exact mail_ordered h.ordered _
  · intro req uuid reply hok hnew
    obtain ⟨d⟩ := step_readSender hok
    obtain ⟨hun, _, hids, hnewly, _, _⟩ := d.first h hnew
    exact ⟨hun, by rw [hids, hnewly]⟩
  · intro req uuid first
    have herror : ∀ e, (step (after actions) (.readSender req uuid)).2 = .error e →
        readSender (after actions) req uuid = .error e := by
      intro e he
      rcases hr : readSender (after actions) req uuid with e' | ⟨reply, db'⟩
      · simp only [step, perform, hr, Except.map, atomically_error, Except.error.injEq] at he
        rw [he]
      · simp only [step, perform, hr, Except.map, atomically_ok] at he
        cases he
    exact ⟨fun he => firstTime_fits h first uuid (Or.inl rfl) (herror _ he),
      fun he => firstTime_fits h first uuid (Or.inr rfl) (herror _ he)⟩
  · rintro pre req uuid post reply rfl hok hnew req' uuid' reply' ht hr ha hok'
    have hpre := inv_after pre
    obtain ⟨d⟩ := step_readSender hok
    obtain ⟨_, hid, hids, _, hkey, hrec⟩ := d.first hpre hnew
    have hlast := keep_changes (fun _ _ _ hp hc => Recorded.change hp hc) (hpre.step _) hrec
      (run_changes _ post)
    have hafter : run step (step (after pre) (.readSender req uuid)).1 post =
        after (pre ++ .readSender req uuid :: post) := by
      rw [after_append]
      rfl
    rw [hafter, ← ht, ← hr] at hlast
    obtain ⟨d'⟩ := step_readSender hok'
    obtain ⟨hrep, hid', hdb, hids'⟩ := d'.replay h hlast hkey (ha.trans d.after_eq.symm)
    exact ⟨hrep, hid'.trans hid.symm, hdb, by rw [hids, hids']⟩

end AgentsServer.Mailbox

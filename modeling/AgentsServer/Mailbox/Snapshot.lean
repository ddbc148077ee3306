import AgentsServer.Mailbox.Undisturbed

/-!
# Following a read

A reader that follows the cursors of one read gets the mail that was unread
when it started, in order and each once, whatever arrives in between.
-/

namespace AgentsServer.Mailbox

open Library Library.Runs

/-- In a list of growing numbers, what is behind the last of a prefix is the rest. -/
theorem filter_behind {α : Type} {f : α → Nat} {xs : List α}
    (h : xs.Pairwise fun a b => f a < f b) {k : Nat} (d : Nat) (ne : xs.take k ≠ []) :
    xs.filter (fun x => decide (((xs.take k).getLast?.map f).getD d < f x)) = xs.drop k := by
  have hsplit := List.take_append_drop k xs
  have hpair := h
  rw [← hsplit, List.pairwise_append] at hpair
  obtain ⟨hleft, _, hcross⟩ := hpair
  obtain ⟨last, hlast⟩ := Option.isSome_iff_exists.mp (List.getLast?_isSome.mpr ne)
  have hlastmem : last ∈ xs.take k := List.mem_of_getLast? hlast
  set bound := ((xs.take k).getLast?.map f).getD d with hbound
  have hval : bound = f last := by rw [hbound, hlast]; rfl
  calc xs.filter (fun x => decide (bound < f x))
      = (xs.take k ++ xs.drop k).filter (fun x => decide (bound < f x)) := by rw [hsplit]
    _ = xs.drop k := by
        rw [List.filter_append, List.filter_eq_nil_iff.mpr, List.filter_eq_self.mpr,
          List.nil_append]
        · intro x hx
          rw [decide_eq_true_eq, hval]
          exact hcross last hlastmem x hx
        · intro x hx
          rw [decide_eq_true_eq]
          exact Nat.not_lt.mpr (le_getLast hleft d hx)

/-- A marked row is not unread any more. -/
theorem unreadWithin_marked {scope : Scope} {afterSeq snapshotSeq : Nat} {ids : List String}
    {batch : ReadRow} {now : IsoTime} {row : Joined}
    (h : row.1.messageId ∈ ids ∧ row.1.readAt.isNone = true) :
    unreadWithin scope afterSeq snapshotSeq (markRow ids batch now row) = false := by
  rw [markRow, markRead, if_pos h]
  simp [unreadWithin]

variable [CharacterTables]

/-- The arguments one reader keeps while it follows a read. -/
structure Reader where
  target : String
  source : String
  requestId : String
  allowed : List String
  limit : Nat
  target_ok : identifier target = .ok target
  source_ok : identifier source = .ok source
  request_ok : identifier requestId = .ok requestId
  allowed_ok : pairs allowed = .ok allowed
  limit_ok : 1 ≤ limit ∧ limit ≤ maxPageItems

/-- The call for one page, and what happens before the next one. -/
structure Turn where
  readerRunId : String
  run_ok : identifier readerRunId = .ok readerRunId
  now : IsoTime
  uuid : UuidHex
  meanwhile : List Action

def Reader.request (r : Reader) (turn : Turn) (afterSeq : Nat) : ReadRequest where
  targetSessionId := r.target
  sourceSessionId := r.source
  readerRunId := turn.readerRunId
  requestId := r.requestId
  allowedPairIds := r.allowed
  now := turn.now
  afterSeq := afterSeq
  limit := r.limit

def Reader.scope (r : Reader) : Scope where
  target := r.target
  source := some r.source
  allowed := r.allowed

/-- Read from a cursor, and go on at `next_after_seq` until `has_more` is false.
The first number bounds the pages, the second one counts them. -/
def follow (r : Reader) (turns : Nat → Turn) :
    Nat → Nat → Ledger → Nat → Option (List ReadReply × Ledger)
  | 0, _, _, _ => none
  | fuel + 1, i, db, cursor =>
      match step db (.readSender (r.request (turns i) cursor) (turns i).uuid) with
      | (db, .ok (.read reply)) =>
          match reply.nextAfterSeq with
          | some next =>
              (follow r turns fuel (i + 1) (run step db (turns i).meanwhile) next).map
                fun rest => (reply :: rest.1, rest.2)
          | none => some ([reply], db)
      | _ => none

/-- A message without its receipt. -/
def Message.withoutReceipt (msg : Message) : Message :=
  { msg with readId := none, readAt := none }

variable {db db' : Ledger} {r : Reader} {batch : ReadRow}

/-! ## One page -/

theorem readSender_open {turn : Turn} {cursor : Nat} (hc : cursor ≤ maxRowId)
    {opened : Ledger}
    (ho : openRead db (r.request turn cursor) cursor r.limit turn.uuid = .ok (batch, opened)) :
    readSender db (r.request turn cursor) turn.uuid =
      readOpened opened (r.request turn cursor) r.scope batch cursor r.limit := by
  have hscope : scope r.target (some r.source) r.allowed = .ok r.scope := by
    have hne := (identifier_eq_ok r.source_ok).2
    simp only [scope, r.target_ok, r.allowed_ok, r.source_ok, ok_bind, if_neg hne]
    rfl
  have hsource : identifier (r.request turn cursor).sourceSessionId = .ok r.source := r.source_ok
  have hrun : identifier (r.request turn cursor).readerRunId = .ok turn.readerRunId := turn.run_ok
  have hrequest : identifier (r.request turn cursor).requestId = .ok r.requestId := r.request_ok
  have hcursor : Mailbox.cursor (r.request turn cursor).afterSeq = .ok cursor := cursor_ok hc
  have hlimit : Mailbox.limit (r.request turn cursor).limit = .ok r.limit := limit_ok r.limit_ok
  have hsc : Mailbox.scope (r.request turn cursor).targetSessionId
      (some (r.request turn cursor).sourceSessionId) (r.request turn cursor).allowedPairIds =
        .ok r.scope := hscope
  unfold readSender
  rw [hsource, ok_bind, hrun, ok_bind, hrequest, ok_bind, hcursor, ok_bind, hlimit, ok_bind, hsc,
    ok_bind, ho, ok_bind]

/-- A read that is open at a cursor, with the mail it has not returned yet. -/
structure Following (r : Reader) (db : Ledger) (batch : ReadRow) (cursor : Nat)
    (rest : List Message) : Prop where
  inv : Inv db
  batches : batchesOf db r.target r.requestId = [batch]
  source : batch.sourceSessionId = r.source
  limit : batch.pageLimit = r.limit
  snapshot : batch.snapshotSeq ≤ db.sequence
  bound : cursor ≤ db.sequence
  place : cursor = 0 ∨ ∃ p ∈ db.pages, p.readId = batch.id ∧ p.endSeq = cursor ∧ p.hasMore = true
  fresh : ∀ p ∈ db.pages, p.readId = batch.id → p.afterSeq < cursor
  unread : mail db (unreadWithin r.scope cursor batch.snapshotSeq) = rest

theorem Following.opened {cursor : Nat} {rest : List Message}
    (f : Following r db batch cursor rest) :
    batch ∈ db.reads ∧ batch.targetSessionId = r.target ∧ batch.requestId = r.requestId := by
  have hmem : batch ∈ batchesOf db r.target r.requestId := by simp [f.batches]
  simpa [batchesOf] using hmem

/-- What a page of an open read returns and leaves. -/
structure PageTaken (r : Reader) (batch : ReadRow) (rest : List Message) (reply : ReadReply)
    (db' : Ledger) (k : Nat) : Prop where
  messages : reply.messages.map Message.withoutReceipt = rest.take k
  snapshot : ∀ msg ∈ reply.messages, msg.mailboxSeq ≤ reply.snapshotSeq
  done : reply.nextAfterSeq = none → rest.length ≤ k
  next : ∀ next, reply.nextAfterSeq = some next →
    0 < k ∧ k < rest.length ∧ Following r db' batch next (rest.drop k)

/-- The mail behind a recorded page. -/
theorem PageRows.unread_behind (h : Inv db) (h' : Inv db') {cursor : Nat} {now : IsoTime}
    {row : PageRow} {messages : List Message} {rows : List Joined} {k : Nat}
    (p : PageRows db r.scope batch cursor r.limit now row db' messages rows k)
    (ne : rows ≠ []) (low : cursor ≤ row.endSeq) :
    mail db' (unreadWithin r.scope row.endSeq batch.snapshotSeq) =
      (mail db (unreadWithin r.scope cursor batch.snapshotSeq)).drop k := by
  have hsorted := select_ordered h.ordered (unreadWithin r.scope cursor batch.snapshotSeq)
  have hcond : ∀ row' ∈ db.join,
      unreadWithin r.scope row.endSeq batch.snapshotSeq (markRow row.messageIds batch now row') =
        (unreadWithin r.scope cursor batch.snapshotSeq row' &&
          decide (row.endSeq < row'.1.mailboxSeq)) := by
    intro x hx
    by_cases hmark : x.1.messageId ∈ row.messageIds ∧ x.1.readAt.isNone = true
    · -- A marked row was on the page.
      have hids := hmark.1
      rw [p.ids] at hids
      obtain ⟨y, hy, he⟩ := List.mem_map.mp hids
      have hsame := h.same_row (p.selected hy).stored (mem_join.mp hx).1 he
      have hle : x.1.mailboxSeq ≤ row.endSeq := by
        rw [← hsame, p.last]
        apply le_getLast _ cursor hy
        rw [p.prefix_eq]
        exact hsorted.sublist (List.take_sublist _ _)
      rw [unreadWithin_marked hmark, eq_comm, Bool.and_eq_false_iff]
      exact Or.inr (by simpa using hle)
    · have hkeep : markRow row.messageIds batch now x = x := by
        rw [markRow, markRead, if_neg hmark]
      rw [hkeep, Bool.eq_iff_iff]
      simp only [unreadWithin, Bool.and_eq_true, decide_eq_true_eq]
      constructor
      · rintro ⟨⟨hau, hlow⟩, hhigh⟩
        exact ⟨⟨⟨hau, by omega⟩, hhigh⟩, hlow⟩
      · rintro ⟨⟨⟨hau, _⟩, hhigh⟩, hlow⟩
        exact ⟨⟨hau, hlow⟩, hhigh⟩
  rw [mail, select_eq_filter h'.ordered, p.join, List.filter_map, List.map_map, mail,
    ← List.map_drop, ← filter_behind hsorted cursor (by rw [← p.prefix_eq]; exact ne),
    ← p.prefix_eq, ← p.last, select_eq_filter h.ordered, List.filter_filter]
  rw [List.filter_congr (p := (unreadWithin r.scope row.endSeq batch.snapshotSeq) ∘
    markRow row.messageIds batch now) (q := fun x => decide (row.endSeq < x.1.mailboxSeq) &&
      unreadWithin r.scope cursor batch.snapshotSeq x)]
  · apply List.map_congr_left
    intro x hx
    have hx' := (List.mem_filter.mp hx).2
    simp only [Bool.and_eq_true] at hx'
    have hc := hcond x (List.mem_filter.mp hx).1
    rw [hx'.2, hx'.1, Bool.and_true] at hc
    -- A row that is still unread was not marked.
    by_cases hmark : x.1.messageId ∈ row.messageIds ∧ x.1.readAt.isNone = true
    · rw [unreadWithin_marked hmark] at hc
      cases hc
    · simp only [Function.comp_apply, markRow, markRead, if_neg hmark]
  · intro x hx
    rw [Function.comp_apply, hcond x hx, Bool.and_comm]

omit [CharacterTables] in
theorem withoutReceipt_pageMessage (h : Inv db) {x : Joined} (stored : x.1 ∈ db.messages)
    (unread : x.1.readAt = none) (receipt : String × String) :
    (pageMessage (some receipt) x).withoutReceipt = message x.1 x.2 := by
  have hid := h.unread x.1 stored unread
  simp [pageMessage, Message.withReceipt, Message.withoutReceipt, message, hid, unread]

theorem Following.page {cursor : Nat} {rest : List Message} (f : Following r db batch cursor rest)
    (turn : Turn) :
    ∃ reply db' k, readOpened db (r.request turn cursor) r.scope batch cursor r.limit =
      .ok (reply, db') ∧ PageTaken r batch rest reply db' k := by
  have h := f.inv
  obtain ⟨hopened, htarget, _⟩ := f.opened
  -- The page is taken: every stored message fits with this receipt.
  obtain ⟨⟨messages, more⟩, hpage⟩ := page_total db
    (unreadWithin r.scope cursor batch.snapshotSeq) (some (batch.id, turn.now.text))
    (Nat.lt_of_lt_of_le Nat.zero_lt_one r.limit_ok.1)
    (fun row hrow => h.receipt_fits hopened turn.now (mem_select.mp hrow).1)
  have hcursor : cursor = 0 ∨
      (db.pages.any fun p => p.readId = batch.id ∧ p.endSeq = cursor ∧ p.hasMore) = true := by
    rcases f.place with h0 | ⟨p, hp, hid, he, hm⟩
    · exact Or.inl h0
    · exact Or.inr (List.any_eq_true.mpr ⟨p, hp, by simp [hid, he, hm]⟩)
  obtain ⟨⟨row, db'⟩, hfirst⟩ : ∃ out,
      firstPage db r.scope batch cursor r.limit turn.now = .ok out := by
    unfold firstPage
    rw [require_bind hcursor, hpage, ok_bind]
    exact ⟨_, rfl⟩
  have hnone : db.page? batch.id cursor = none := by
    rw [Ledger.page?, Tables.find_eq_none]
    intro p hp hkey
    rw [PageRow.key, Prod.mk.injEq] at hkey
    have hlt := f.fresh p hp hkey.1
    omega
  obtain ⟨taken, hfp⟩ := firstPage_ok hfirst
  have h' : Inv db' := h.firstPage hopened htarget.symm (by rw [f.source]; rfl) hnone hfp
  obtain ⟨rows, k, p⟩ := hfp.pageRows
  have hrec := p.recorded h h'
  obtain ⟨reply, hrespond, hmsgs, hsnap, hnextseq⟩ : ∃ reply,
      respond db' r.scope batch row r.limit false = .ok reply ∧ reply.messages = taken ∧
      reply.snapshotSeq = batch.snapshotSeq ∧
      reply.nextAfterSeq = if row.hasMore then some row.endSeq else none := by
    unfold respond
    rw [hrec, ok_bind]
    exact ⟨_, rfl, rfl, rfl, rfl⟩
  refine ⟨reply, db', k, ?_, ?_, ?_, ?_, ?_⟩
  · unfold readOpened
    rw [require_bind ⟨f.source, f.limit⟩, hnone]
    change (firstPage db r.scope batch cursor r.limit turn.now >>= _) = _
    rw [hfirst, ok_bind]
    change (respond db' r.scope batch row r.limit false >>= _) = _
    rw [hrespond, ok_bind]
    rfl
  · rw [← f.unread, mail, ← List.map_take, ← p.prefix_eq, hmsgs, p.messages_eq, List.map_map]
    apply List.map_congr_left
    intro x hx
    exact withoutReceipt_pageMessage h (p.selected hx).stored (p.selected hx).unread _
  · intro msg hmsg
    rw [hmsgs, p.messages_eq] at hmsg
    obtain ⟨x, hx, rfl⟩ := List.mem_map.mp hmsg
    rw [pageMessage_mailboxSeq, hsnap]
    exact (p.selected hx).upto
  · intro hnext
    have hmore : row.hasMore = false := by
      by_contra hne
      rw [Bool.not_eq_false] at hne
      rw [hnextseq, if_pos hne] at hnext
      cases hnext
    rw [← f.unread, mail, List.length_map]
    exact p.all_taken hmore
  · intro next hnext
    have hmore : row.hasMore = true := by
      by_contra hne
      rw [hnextseq, if_neg hne] at hnext
      cases hnext
    rw [hnextseq, if_pos hmore, Option.some.injEq] at hnext
    subst hnext
    obtain ⟨hpos, hlt⟩ := p.some_taken hmore
    have hne : rows ≠ [] := by
      rw [p.prefix_eq, ← List.length_pos_iff, List.length_take]
      omega
    -- The last row of the page bounds the old cursor and is stored.
    obtain ⟨last, hlast⟩ := Option.isSome_iff_exists.mp (List.getLast?_isSome.mpr hne)
    have hlastsel := p.selected (List.mem_of_getLast? hlast)
    have hend : row.endSeq = last.1.mailboxSeq := by rw [p.last, hlast]; rfl
    have habove := hlastsel.above
    have hpages : db'.pages = db.pages ++ [row] := by rw [hfp.ledger]
    refine ⟨hpos, ?_, h', ?_, f.source, f.limit, ?_, ?_, Or.inr ⟨row, ?_, p.readId, rfl, hmore⟩,
      ?_, ?_⟩
    · rw [← f.unread, mail, List.length_map]
      exact hlt
    · rw [← f.batches, hfp.ledger]
      rfl
    · rw [hfp.ledger]
      exact f.snapshot
    · rw [hend, hfp.ledger]
      exact h.bounded last.1 hlastsel.stored
    · rw [hpages]
      simp
    · intro q hq hid
      rw [hpages] at hq
      rcases List.mem_append.mp hq with hold | hnew
      · have hlow := f.fresh q hold hid
        omega
      · rw [List.mem_singleton.mp hnew, p.afterSeq]
        omega
    · rw [← f.unread]
      exact p.unread_behind h h' hne (by omega)

end AgentsServer.Mailbox

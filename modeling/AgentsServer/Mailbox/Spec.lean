import AgentsServer.Mailbox.Wakes

/-!
# What a committed operation did

One statement for each operation: from a committed call, the guards that held
and the exact new ledger. Later proofs use these and do not unfold the
operations.
-/

namespace AgentsServer.Mailbox

open Library

variable [CharacterTables] {db db' : Ledger}

omit [CharacterTables] in
theorem putEnvelope_ok {e : Envelope} {u : Unit} (h : putEnvelope db e = .ok (u, db')) :
    db.message? e.id = none ∧ e.id ∉ db.deletedIds ∧
      db' = { db with envelopes := e :: db.envelopes.filter fun old => old.id ≠ e.id } := by
  simp only [putEnvelope, bind_eq_ok, require_eq_ok, pure_eq_ok, Prod.mk.injEq] at h
  obtain ⟨_, ⟨hm, hd⟩, _, rfl⟩ := h
  exact ⟨by simpa using hm, hd, rfl⟩

/-- The row that a first store inserts. -/
def newRow (record : Envelope) (now : IsoTime) (seq : Nat) : MailRow where
  mailboxSeq := seq
  messageId := record.id
  sourceSessionId := record.sourceSessionId
  targetSessionId := record.targetSessionId
  pairId := record.authorizationPairId
  storedAt := now.text
  inReplyToMessageId := record.replyToMessageId
  readId := none
  readAt := none
  excludedAt := none
  excludedReason := none
  readEventPublished := false

/-- A message with the widest receipt fits one page. -/
def Fits (m : MailRow) (e : Envelope) : Prop :=
  (widestReceipt (message m e)).size + pageReserve ≤ maxPageBytes

/-- The row carries the identity of its envelope. -/
structure SameIdentity (m : MailRow) (e : Envelope) : Prop where
  source : m.sourceSessionId = e.sourceSessionId
  target : m.targetSessionId = e.targetSessionId
  pair : m.pairId = e.authorizationPairId
  parent : m.inReplyToMessageId = e.replyToMessageId

omit [CharacterTables] in
theorem insertMessage_ok {record : Envelope} {now : IsoTime} {skip : Nat} {u : Unit}
    (h : insertMessage db record now skip = .ok (u, db')) :
    db.sequence + skip + 1 ≤ maxRowId ∧
      ((∃ row, db.message? record.id = some row ∧
          db' = { db with sequence := db.sequence + skip }) ∨
        (db.message? record.id = none ∧
          db' = { db with
            sequence := db.sequence + skip + 1
            messages := db.messages ++ [newRow record now (db.sequence + skip + 1)] })) := by
  simp only [insertMessage, bind_eq_ok, require_eq_ok] at h
  obtain ⟨_, hs, h⟩ := h
  refine ⟨hs, ?_⟩
  cases hm : db.message? record.id with
  | some row =>
      simp only [hm, Option.isSome_some, if_true, pure_eq_ok, Prod.mk.injEq] at h
      exact Or.inl ⟨row, rfl, h.2.symm⟩
  | none =>
      simp only [hm, Option.isSome_none, Bool.false_eq_true, if_false, pure_eq_ok,
        Prod.mk.injEq] at h
      exact Or.inr ⟨rfl, h.2.symm⟩

theorem storeMessage_ok {messageId : String} {now : IsoTime} {inReplyTo : Option String}
    {skip : Nat} {msg : Message}
    (h : storeMessage db messageId now inReplyTo skip = .ok (msg, db')) :
    ∃ record row, db.envelope? messageId = some record ∧ isUnlaunchedMail record = true ∧
      msg = message row record ∧ Fits row record ∧ SameIdentity row record ∧
      db.sequence + skip + 1 ≤ maxRowId ∧
      ((db.message? messageId = some row ∧
          db' = { db with sequence := db.sequence + skip }) ∨
        (db.message? messageId = none ∧ row = newRow record now (db.sequence + skip + 1) ∧
          db' = { db with
            sequence := db.sequence + skip + 1
            messages := db.messages ++ [row] })) := by
  simp only [storeMessage, bind_eq_ok] at h
  obtain ⟨id, hid, h⟩ := h
  obtain ⟨rfl, _⟩ := identifier_eq_ok hid
  cases he : db.envelope? id with
  | none => simp [he] at h
  | some record =>
      simp only [he, bind_eq_ok, require_eq_ok] at h
      obtain ⟨_, hmail, _, _, _, _, ⟨_, db₁⟩, hins, h⟩ := h
      have hrec : record.id = id := (Tables.find_mem he).2
      obtain ⟨hseq, hins⟩ := insertMessage_ok hins
      rw [hrec] at hins
      cases hrow : db₁.message? id with
      | none => simp [hrow] at h
      | some row =>
          simp only [hrow, bind_eq_ok, require_eq_ok, pure_eq_ok, Prod.mk.injEq] at h
          obtain ⟨_, ⟨hs, ht, hp, hr⟩, _, hfit, rfl, rfl⟩ := h
          refine ⟨record, row, rfl, hmail, rfl, hfit, ⟨hs, ht, hp, hr⟩, hseq, ?_⟩
          rcases hins with ⟨old, hold, rfl⟩ | ⟨hnone, rfl⟩
          · exact Or.inl ⟨hrow, rfl⟩
          · have hnew : row = newRow record now (db.sequence + skip + 1) := by
              have hfind : Tables.find MailRow.messageId
                  (db.messages ++ [newRow record now (db.sequence + skip + 1)]) id = some row :=
                hrow
              rw [Tables.find_append, show Tables.find MailRow.messageId db.messages id = none
                from hnone, Option.none_or] at hfind
              exact List.mem_singleton.mp (Tables.find_mem hfind).1
            exact Or.inr ⟨hnone, hnew, by rw [hnew]⟩

/-! ## Reads -/

/-- The row a request opens. -/
def newRead (db : Ledger) (req : ReadRequest) (pageLimit : Nat) (uuid : UuidHex) : ReadRow where
  id := "mailread_" ++ uuid.text
  targetSessionId := req.targetSessionId
  sourceSessionId := req.sourceSessionId
  readerRunId := req.readerRunId
  requestId := req.requestId
  snapshotSeq := highWater db req.targetSessionId req.sourceSessionId
  pageLimit := pageLimit
  createdAt := req.now.text

/-- The recorded batches of a request key. -/
def batchesOf (db : Ledger) (target requestId : String) : List ReadRow :=
  db.reads.filter fun r => r.targetSessionId = target ∧ r.requestId = requestId

omit [CharacterTables] in
theorem openRead_ok {req : ReadRequest} {afterSeq pageLimit : Nat} {uuid : UuidHex}
    {batch : ReadRow} (h : openRead db req afterSeq pageLimit uuid = .ok (batch, db')) :
    (batchesOf db req.targetSessionId req.requestId = [batch] ∧ db' = db) ∨
      (batchesOf db req.targetSessionId req.requestId = [] ∧ afterSeq = 0 ∧
        batch = newRead db req pageLimit uuid ∧ (∀ r ∈ db.reads, r.id ≠ batch.id) ∧
        db' = { db with reads := db.reads ++ [batch] }) := by
  unfold openRead at h
  unfold batchesOf
  split at h
  · cases h
  · next batch' hb =>
      cases h
      exact Or.inl ⟨hb, rfl⟩
  · next hb =>
      simp only [bind_eq_ok, require_eq_ok, pure_eq_ok, Prod.mk.injEq] at h
      obtain ⟨_, ha, _, hid, rfl, rfl⟩ := h
      exact Or.inr ⟨hb, ha, rfl, by simpa [newRead] using hid, rfl⟩

/-- The page of a first read and the ledger after it. -/
structure FirstPage (db : Ledger) (scope : Scope) (batch : ReadRow) (afterSeq pageLimit : Nat)
    (now : IsoTime) (row : PageRow) (db' : Ledger) (messages : List Message) : Prop where
  cursor : afterSeq = 0 ∨
    ∃ p ∈ db.pages, p.readId = batch.id ∧ p.endSeq = afterSeq ∧ p.hasMore = true
  selected : page db (unreadWithin scope afterSeq batch.snapshotSeq) pageLimit
    (some (batch.id, now.text)) = .ok (messages, row.hasMore)
  row_eq : row = {
    readId := batch.id
    afterSeq := afterSeq
    endSeq := (messages.getLast?.map Message.mailboxSeq).getD afterSeq
    hasMore := row.hasMore
    messageIds := messages.map Message.messageId }
  ledger : db' = { db with
    pages := db.pages ++ [row]
    messages := db.messages.map fun m =>
      if m.messageId ∈ row.messageIds ∧ m.readAt.isNone then
        { m with readId := some batch.id, readAt := some now.text }
      else m }

omit [CharacterTables] in
theorem firstPage_ok {scope : Scope} {batch : ReadRow} {afterSeq pageLimit : Nat}
    {now : IsoTime} {row : PageRow}
    (h : firstPage db scope batch afterSeq pageLimit now = .ok (row, db')) :
    ∃ messages, FirstPage db scope batch afterSeq pageLimit now row db' messages := by
  simp only [firstPage, bind_eq_ok, require_eq_ok, pure_eq_ok, Prod.mk.injEq] at h
  obtain ⟨_, hc, ⟨messages, more⟩, hp, rfl, rfl⟩ := h
  refine ⟨messages, ?_, hp, rfl, rfl⟩
  simpa [and_assoc] using hc

omit [CharacterTables] in
theorem respond_ok {scope : Scope} {batch : ReadRow} {row : PageRow} {pageLimit : Nat}
    {replayed : Bool} {reply : ReadReply}
    (h : respond db scope batch row pageLimit replayed = .ok reply) :
    ∃ messages, recordedPage db scope row pageLimit = .ok (messages, false) ∧
      reply = {
        readId := batch.id
        snapshotSeq := batch.snapshotSeq
        messages := messages
        nextAfterSeq := if row.hasMore then some row.endSeq else none
        hasMore := row.hasMore
        unavailableCount := row.messageIds.length - messages.length
        replayed := replayed } := by
  simp only [respond, bind_eq_ok, require_eq_ok, pure_eq_ok] at h
  obtain ⟨⟨messages, overflow⟩, hp, _, ho, rfl⟩ := h
  refine ⟨messages, ?_, rfl⟩
  rw [hp, show overflow = false from ho]

/-- A committed read: the batch it belongs to, and whether it replayed a
recorded page or took a first one. -/
structure ReadDone (db : Ledger) (req : ReadRequest) (uuid : UuidHex) (reply : ReadReply)
    (db' : Ledger) where
  afterSeq : Nat
  pageLimit : Nat
  batch : ReadRow
  opened : Ledger
  row : PageRow
  after_eq : (afterSeq : Int) = req.afterSeq
  after_le : afterSeq ≤ maxRowId
  limit_eq : (pageLimit : Int) = req.limit
  limit_pos : 1 ≤ pageLimit
  source_ne : req.sourceSessionId ≠ ""
  open_eq : openRead db req afterSeq pageLimit uuid = .ok (batch, opened)
  batch_source : batch.sourceSessionId = req.sourceSessionId
  batch_limit : batch.pageLimit = pageLimit
  /-- Either the page was recorded before, or it is a first page. -/
  page_eq : (opened.page? batch.id afterSeq = some row ∧ db' = opened ∧
      respond opened ⟨req.targetSessionId, some req.sourceSessionId, req.allowedPairIds⟩ batch row
        pageLimit true = .ok reply) ∨
    (opened.page? batch.id afterSeq = none ∧
      firstPage opened ⟨req.targetSessionId, some req.sourceSessionId, req.allowedPairIds⟩ batch
        afterSeq pageLimit req.now = .ok (row, db') ∧
      respond db' ⟨req.targetSessionId, some req.sourceSessionId, req.allowedPairIds⟩ batch row
        pageLimit false = .ok reply)

theorem readSender_ok {req : ReadRequest} {uuid : UuidHex} {reply : ReadReply}
    (h : readSender db req uuid = .ok (reply, db')) : Nonempty (ReadDone db req uuid reply db') := by
  simp only [readSender, readOpened, bind_eq_ok, require_eq_ok] at h
  obtain ⟨_, hsrc, _, _, _, _, afterSeq, ha, pageLimit, hl, scope, hsc, ⟨batch, opened⟩, ho,
    _, ⟨hbs, hbl⟩, h⟩ := h
  have hne : req.sourceSessionId ≠ "" := (identifier_eq_ok hsrc).2
  obtain rfl := scope_eq_ok hne hsc
  have hlim := limit_eq_ok hl
  have hcur := cursor_eq_ok ha
  cases hp : opened.page? batch.id afterSeq with
  | some row =>
      simp only [hp, bind_eq_ok, pure_eq_ok, Prod.mk.injEq] at h
      obtain ⟨r, hr, rfl, rfl⟩ := h
      exact ⟨⟨afterSeq, pageLimit, batch, opened, row, hcur.1, hcur.2, hlim.2.2, hlim.1, hne, ho,
        hbs, hbl, Or.inl ⟨hp, rfl, hr⟩⟩⟩
  | none =>
      simp only [hp, bind_eq_ok, pure_eq_ok, Prod.mk.injEq] at h
      obtain ⟨⟨row, db₁⟩, hf, r, hr, rfl, rfl⟩ := h
      exact ⟨⟨afterSeq, pageLimit, batch, opened, row, hcur.1, hcur.2, hlim.2.2, hlim.1, hne, ho,
        hbs, hbl, Or.inr ⟨hp, hf, hr⟩⟩⟩

/-! ## Exclusions -/

theorem excludeMessage_ok {messageId target : String} {reason : ExclusionReason} {now : IsoTime}
    {b : Bool} (h : excludeMessage db messageId target reason now = .ok (b, db')) :
    db' = (exclude db (fun m => m.messageId == messageId && m.targetSessionId == target)
      reason now).2 := by
  simp only [excludeMessage, bind_eq_ok, pure_eq_ok, Prod.mk.injEq] at h
  obtain ⟨_, hm, _, ht, _, rfl⟩ := h
  rw [(identifier_eq_ok hm).1, (identifier_eq_ok ht).1]

omit [CharacterTables] in
theorem excludePair_ok {pairId : String} {now : IsoTime} {n : Nat}
    (h : excludePair db pairId now = .ok (n, db')) :
    db' = (exclude db (fun m => m.pairId == pairId) .revoked now).2 := by
  simp only [excludePair, bind_eq_ok, pure_eq_ok] at h
  obtain ⟨_, _, h⟩ := h
  rw [h]

theorem excludeSession_ok {sessionId : String} {now : IsoTime} {n : Nat}
    (h : excludeSession db sessionId now = .ok (n, db')) :
    db' = (exclude db (fun m => m.sourceSessionId == sessionId || m.targetSessionId == sessionId)
      .deleted now).2 := by
  simp only [excludeSession, bind_eq_ok, pure_eq_ok] at h
  obtain ⟨_, hs, h⟩ := h
  rw [(identifier_eq_ok hs).1] at h
  rw [h]

/-- A committed cancellation found nothing to do, or cancelled an unread row. -/
theorem cancelMessage_ok {messageId : String} {now : IsoTime} {b : Bool}
    (h : cancelMessage db messageId now = .ok (b, db')) :
    (b = false ∧ db' = db) ∨
      (b = true ∧ (∃ m e, (m, e) ∈ db.join ∧ m.messageId = messageId ∧ e.status = .stored ∧
          m.excludedAt = none ∧ m.readAt = none) ∧
        db' = { db with
          messages := db.messages.map fun m =>
            if m.messageId = messageId then
              { m with excludedAt := some now.text, excludedReason := some "cancelled" }
            else m
          envelopes := db.envelopes.map fun e =>
            if e.id = messageId then
              { e with status := .cancelled, lifecycleStatus := "", updatedAt := now.text }
            else e }) := by
  simp only [cancelMessage, bind_eq_ok] at h
  obtain ⟨id, hid, h⟩ := h
  obtain ⟨rfl, _⟩ := identifier_eq_ok hid
  split at h
  · simp only [pure_eq_ok, Prod.mk.injEq] at h
    exact Or.inl ⟨h.1.symm, h.2.symm⟩
  · next m e hfind =>
      split at h
      · simp only [pure_eq_ok, Prod.mk.injEq] at h
        exact Or.inl ⟨h.1.symm, h.2.symm⟩
      · simp only [bind_eq_ok, require_eq_ok, pure_eq_ok, Prod.mk.injEq] at h
        obtain ⟨_, ⟨hs, _, hx, hr⟩, rfl, rfl⟩ := h
        have hmem := List.mem_of_find?_eq_some hfind
        have hm : m.messageId = id := by simpa using List.find?_some hfind
        exact Or.inr ⟨rfl, ⟨m, e, hmem, hm, hs, by simpa using hx, by simpa using hr⟩, rfl⟩

theorem markReadEventPublished_ok {messageId : String} {b : Bool}
    (h : markReadEventPublished db messageId = .ok (b, db')) :
    db' = { db with
      messages := db.messages.map fun m =>
        if m.messageId == messageId && m.readAt.isSome && !m.readEventPublished then
          { m with readEventPublished := true }
        else m } := by
  simp only [markReadEventPublished, bind_eq_ok, pure_eq_ok, Prod.mk.injEq] at h
  obtain ⟨_, hm, _, rfl⟩ := h
  rw [(identifier_eq_ok hm).1]

end AgentsServer.Mailbox

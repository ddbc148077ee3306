import AgentsServer.Mailbox.Changes
import Mathlib.Data.List.Induction

/-!
# The invariant of the mailbox tables

What couples messages, reads and pages: numbers grow, a message is on at most
one page, and its receipt is exactly the page it is on. Every change keeps it.
-/

namespace AgentsServer.Mailbox

open Library Library.Runs Relation

/-- The message ids on all recorded pages. -/
def Ledger.pageIds (db : Ledger) : List String :=
  db.pages.flatMap PageRow.messageIds

/-- A message id that is stored, or was deleted with its envelope. -/
def Known (db : Ledger) (id : String) : Prop :=
  (∃ m ∈ db.messages, m.messageId = id) ∨ id ∈ db.deletedIds

/-- The receipt of a message is this page of this read. -/
structure OnPage (db : Ledger) (m : MailRow) (p : PageRow) : Prop where
  readId : m.readId = some p.readId
  readAt : m.readAt.isSome = true
  above : p.afterSeq < m.mailboxSeq
  upto : m.mailboxSeq ≤ p.endSeq
  batch : ∃ r ∈ db.reads, r.id = p.readId ∧ m.mailboxSeq ≤ r.snapshotSeq ∧
    m.targetSessionId = r.targetSessionId ∧ m.sourceSessionId = r.sourceSessionId

structure Inv (db : Ledger) : Prop where
  ordered : Ordered db
  positive : ∀ m ∈ db.messages, 0 < m.mailboxSeq
  bounded : ∀ m ∈ db.messages, m.mailboxSeq ≤ db.sequence
  room : db.sequence ≤ maxRowId
  messageIds : (db.messages.map MailRow.messageId).Nodup
  liveEnvelopes : ∀ e ∈ db.envelopes, e.id ∉ db.deletedIds
  liveMessages : ∀ m ∈ db.messages, m.messageId ∉ db.deletedIds
  readIds : (db.reads.map ReadRow.id).Nodup
  readNames : ∀ r ∈ db.reads, ∃ uuid : UuidHex, r.id = "mailread_" ++ uuid.text
  pageKeys : (db.pages.map PageRow.key).Nodup
  pageReads : ∀ p ∈ db.pages, ∃ r ∈ db.reads, r.id = p.readId
  pageIds : db.pageIds.Nodup
  known : ∀ id ∈ db.pageIds, Known db id
  receipts : ∀ p ∈ db.pages, ∀ m ∈ db.messages, m.messageId ∈ p.messageIds → OnPage db m p
  paged : ∀ m ∈ db.messages, m.readAt.isSome = true → m.messageId ∈ db.pageIds
  unread : ∀ m ∈ db.messages, m.readAt = none → m.readId = none
  fits : ∀ m ∈ db.messages, ∀ e, db.envelope? m.messageId = some e → Fits m e
  pageOrder : ∀ p ∈ db.pages, p.messageIds.Pairwise fun a b =>
    ∀ m ∈ db.messages, ∀ m' ∈ db.messages, m.messageId = a → m'.messageId = b →
      m.mailboxSeq < m'.mailboxSeq

theorem Inv.empty : Inv Ledger.empty := by
  constructor <;> simp [Ledger.empty, Ordered, Ledger.pageIds, maxRowId]

theorem mem_pageIds {db : Ledger} {id : String} :
    id ∈ db.pageIds ↔ ∃ p ∈ db.pages, id ∈ p.messageIds := by
  simp [Ledger.pageIds]

variable {db db' : Ledger}

/-- Two stored rows with one message id are the same row. -/
theorem Inv.same_row (h : Inv db) {m m' : MailRow} (hm : m ∈ db.messages) (hm' : m' ∈ db.messages)
    (he : m.messageId = m'.messageId) : m = m' :=
  Tables.eq_of_key h.messageIds hm hm' he

/-- A message that is on a page has been read. -/
theorem Inv.readAt_iff (h : Inv db) {m : MailRow} (hm : m ∈ db.messages) :
    m.readAt.isSome = true ↔ m.messageId ∈ db.pageIds := by
  constructor
  · exact h.paged m hm
  · intro hid
    obtain ⟨p, hp, hmp⟩ := mem_pageIds.mp hid
    exact (h.receipts p hp m hm hmp).readAt

/-- A stored message is not new. -/
theorem Known.store_ne {id : String} (h : Inv db) (hk : Known db id) {row : MailRow}
    (fresh : db.message? row.messageId = none) {record : Envelope}
    (envelope : db.envelope? row.messageId = some record) : row.messageId ≠ id := by
  rintro rfl
  rcases hk with ⟨m, hm, he⟩ | hd
  · exact Tables.find_eq_none.mp fresh m hm he
  · obtain ⟨hmem, hid⟩ := Tables.find_mem envelope
    exact h.liveEnvelopes record hmem (hid ▸ hd)

/-- Whether a message fits a page does not depend on what changes later. -/
theorem fits_congr {m m' : MailRow} {e e' : Envelope} (he : e'.settled = e.settled)
    (seq : m'.mailboxSeq = m.mailboxSeq) (id : m'.messageId = m.messageId)
    (source : m'.sourceSessionId = m.sourceSessionId)
    (target : m'.targetSessionId = m.targetSessionId) (pair : m'.pairId = m.pairId)
    (storedAt : m'.storedAt = m.storedAt)
    (parent : m'.inReplyToMessageId = m.inReplyToMessageId) (h : Fits m e) : Fits m' e' := by
  have hmsg : ∀ a b, (message m' e').withReceipt a b = (message m e).withReceipt a b := by
    intro a b
    rw [← message_settled m' e', he, ← message_settled m e]
    simp [Message.withReceipt, message, provenance, seq, id, source, target, pair, storedAt, parent]
  rw [Fits, widestReceipt, hmsg]
  exact h

/-! ## One change -/

/-- The rows behind a first page. -/
theorem FirstPage.rows {scope : Scope} {batch : ReadRow} {afterSeq pageLimit : Nat} {now : IsoTime}
    {row : PageRow} {messages : List Message}
    (h : FirstPage db scope batch afterSeq pageLimit now row db' messages) :
    ∃ rows : List Joined,
      (∃ k, rows = (db.select (unreadWithin scope afterSeq batch.snapshotSeq)).take k) ∧
      row.messageIds = rows.map (fun r => r.1.messageId) ∧
      row.endSeq = (rows.getLast?.map fun r => r.1.mailboxSeq).getD afterSeq ∧
      row.readId = batch.id ∧ row.afterSeq = afterSeq := by
  obtain ⟨k, _, _, hm, _, _, _⟩ := page_ok h.selected
  refine ⟨_, ⟨k, rfl⟩, ?_, ?_, ?_, ?_⟩
  · rw [h.row_eq]
    simp [hm, Function.comp_def]
  · rw [h.row_eq]
    simp only [hm, List.getLast?_map, Option.map_map, Function.comp_def, pageMessage_mailboxSeq]
  · rw [h.row_eq]
  · rw [h.row_eq]

/-- What a selected row of a first page is. -/
structure Selected (db : Ledger) (scope : Scope) (afterSeq snapshotSeq : Nat) (r : Joined) :
    Prop where
  stored : r.1 ∈ db.messages
  envelope : db.envelope? r.1.messageId = some r.2
  admitted : scope.admits r = true
  unread : r.1.readAt = none
  above : afterSeq < r.1.mailboxSeq
  upto : r.1.mailboxSeq ≤ snapshotSeq

theorem selected_of_mem {scope : Scope} {afterSeq snapshotSeq : Nat} {r : Joined}
    (h : r ∈ db.select (unreadWithin scope afterSeq snapshotSeq)) :
    Selected db scope afterSeq snapshotSeq r := by
  obtain ⟨hj, hc⟩ := mem_select.mp h
  obtain ⟨hm, he⟩ := mem_join.mp hj
  simp only [unreadWithin, Bool.and_eq_true, decide_eq_true_eq, Option.isNone_iff_eq_none] at hc
  exact ⟨hm, he, hc.1.1.1, hc.1.1.2, hc.1.2, hc.2⟩

/-- In a list of growing numbers the last one bounds all. -/
theorem le_getLast {α : Type} {f : α → Nat} {xs : List α}
    (h : xs.Pairwise fun a b => f a < f b) (d : Nat) {x : α} (hx : x ∈ xs) :
    f x ≤ (xs.getLast?.map f).getD d := by
  induction xs using List.reverseRecOn with
  | nil => simp at hx
  | append_singleton rest last _ =>
      simp only [List.getLast?_append, List.getLast?_singleton, Option.some_or, Option.map_some,
        Option.getD_some]
      rcases List.mem_append.mp hx with hr | hl
      · exact Nat.le_of_lt ((List.pairwise_append.mp h).2.2 x hr last (by simp))
      · rw [List.mem_singleton.mp hl]

theorem Inv.keep (h : Inv db) {g : MailRow → MailRow} (row : ∀ m, RowKept m (g m))
    (messages : db'.messages = db.messages.map g) (reads : db'.reads = db.reads)
    (pages : db'.pages = db.pages) (deleted : db'.deletedIds = db.deletedIds)
    (envelopes : EnvelopesKept db db') (sequence : db.sequence ≤ db'.sequence)
    (bound : db'.sequence = db.sequence ∨ db'.sequence ≤ maxRowId) : Inv db' := by
  have hpageIds : db'.pageIds = db.pageIds := by rw [Ledger.pageIds, pages]; rfl
  have back : ∀ m' ∈ db'.messages, ∃ m ∈ db.messages, g m = m' := by
    intro m' hm'
    rw [messages] at hm'
    exact List.mem_map.mp hm'
  refine {
    ordered := ?_, positive := ?_, bounded := ?_, room := ?_, messageIds := ?_, liveEnvelopes := ?_,
    liveMessages := ?_, readIds := reads ▸ h.readIds, readNames := reads ▸ h.readNames,
    pageKeys := pages ▸ h.pageKeys,
    pageReads := ?_, pageIds := hpageIds ▸ h.pageIds, known := ?_, receipts := ?_,
    paged := ?_, unread := ?_, fits := ?_, pageOrder := ?_ }
  · rw [Ordered, messages, List.pairwise_map]
    apply h.ordered.imp
    intro a b hab
    rw [(row a).mailboxSeq, (row b).mailboxSeq]
    exact hab
  · intro m' hm'
    obtain ⟨m, hm, rfl⟩ := back m' hm'
    rw [(row m).mailboxSeq]
    exact h.positive m hm
  · intro m' hm'
    obtain ⟨m, hm, rfl⟩ := back m' hm'
    rw [(row m).mailboxSeq]
    exact (h.bounded m hm).trans sequence
  · rcases bound with hb | hb
    · rw [hb]
      exact h.room
    · exact hb
  · rw [messages, Tables.map_keys fun m => (row m).messageId]
    exact h.messageIds
  · intro e he
    rw [deleted]
    rcases envelopes.live e he with ⟨old, ho, hid⟩ | hnew
    · rw [← hid]
      exact h.liveEnvelopes old ho
    · exact hnew
  · intro m' hm'
    obtain ⟨m, hm, rfl⟩ := back m' hm'
    rw [(row m).messageId, deleted]
    exact h.liveMessages m hm
  · rw [pages, reads]
    exact h.pageReads
  · intro id hid
    rw [hpageIds] at hid
    rcases h.known id hid with ⟨m, hm, he⟩ | hd
    · refine Or.inl ⟨g m, ?_, by rw [(row m).messageId, he]⟩
      rw [messages]
      exact List.mem_map_of_mem hm
    · exact Or.inr (deleted ▸ hd)
  · intro p hp m' hm' hmp
    obtain ⟨m, hm, rfl⟩ := back m' hm'
    rw [pages] at hp
    rw [(row m).messageId] at hmp
    obtain ⟨hid, hat, ha, hu, hb⟩ := h.receipts p hp m hm hmp
    refine ⟨by rw [(row m).readId, hid], by rw [(row m).readAt, hat], ?_, ?_, ?_⟩
    · rw [(row m).mailboxSeq]
      exact ha
    · rw [(row m).mailboxSeq]
      exact hu
    · rw [(row m).mailboxSeq, (row m).target, (row m).source, reads]
      exact hb
  · intro m' hm' hat
    obtain ⟨m, hm, rfl⟩ := back m' hm'
    rw [(row m).readAt] at hat
    rw [(row m).messageId, hpageIds]
    exact h.paged m hm hat
  · intro m' hm' hat
    obtain ⟨m, hm, rfl⟩ := back m' hm'
    rw [(row m).readAt] at hat
    rw [(row m).readId]
    exact h.unread m hm hat
  · intro m' hm' e' he'
    obtain ⟨m, hm, rfl⟩ := back m' hm'
    rw [(row m).messageId] at he'
    have hc := envelopes.content m hm
    rw [he', Option.map_some, eq_comm, Option.map_eq_some_iff] at hc
    obtain ⟨e, he, hset⟩ := hc
    have hr := row m
    exact fits_congr hset.symm hr.mailboxSeq hr.messageId hr.source hr.target hr.pair hr.storedAt
      hr.parent (h.fits m hm e he)
  · intro p hp
    rw [pages] at hp
    apply (h.pageOrder p hp).imp
    intro a b hab m₁ hm₁ m₂ hm₂ h₁ h₂
    obtain ⟨n₁, hn₁, rfl⟩ := back m₁ hm₁
    obtain ⟨n₂, hn₂, rfl⟩ := back m₂ hm₂
    rw [(row n₁).messageId] at h₁
    rw [(row n₂).messageId] at h₂
    rw [(row n₁).mailboxSeq, (row n₂).mailboxSeq]
    exact hab n₁ hn₁ n₂ hn₂ h₁ h₂

theorem Inv.store (h : Inv db) {row : MailRow} (fresh : db.message? row.messageId = none)
    {record : Envelope} (envelope : db.envelope? row.messageId = some record)
    (fits : Fits row record)
    (sequence : db.sequence < row.mailboxSeq) (bound : row.mailboxSeq ≤ maxRowId)
    (unreadId : row.readId = none) (unreadAt : row.readAt = none) :
    Inv { db with sequence := row.mailboxSeq, messages := db.messages ++ [row] } := by
  have hnew : row.messageId ∉ db.pageIds :=
    fun hid => (h.known _ hid).store_ne h fresh envelope rfl
  have cases : ∀ m ∈ db.messages ++ [row], m ∈ db.messages ∨ m = row := by
    intro m hm
    rcases List.mem_append.mp hm with hold | hlast
    · exact Or.inl hold
    · exact Or.inr (List.mem_singleton.mp hlast)
  have old : ∀ p ∈ db.pages, ∀ m ∈ db.messages ++ [row], m.messageId ∈ p.messageIds →
      m ∈ db.messages := by
    intro p hp m hm hmp
    rcases cases m hm with hold | rfl
    · exact hold
    · exact absurd (mem_pageIds.mpr ⟨p, hp, hmp⟩) hnew
  refine {
    ordered := ?_, positive := ?_, bounded := ?_, room := bound, messageIds := ?_,
    liveEnvelopes := h.liveEnvelopes, liveMessages := ?_, readIds := h.readIds,
    readNames := h.readNames, pageKeys := h.pageKeys, pageReads := h.pageReads, pageIds := h.pageIds, known := ?_,
    receipts := ?_, paged := ?_, unread := ?_, fits := ?_, pageOrder := ?_ }
  · refine List.pairwise_append.mpr ⟨h.ordered, by simp, ?_⟩
    intro a ha b hb
    rw [List.mem_singleton.mp hb]
    exact Nat.lt_of_le_of_lt (h.bounded a ha) sequence
  · intro m hm
    rcases cases m hm with hold | rfl
    · exact h.positive m hold
    · omega
  · intro m hm
    rcases cases m hm with hold | rfl
    · exact (h.bounded m hold).trans (Nat.le_of_lt sequence)
    · exact Nat.le_refl _
  · exact Tables.nodup_append_row h.messageIds (Tables.find_eq_none.mp fresh)
  · intro m hm
    rcases cases m hm with hold | rfl
    · exact h.liveMessages m hold
    · obtain ⟨hmem, hid⟩ := Tables.find_mem envelope
      rw [← hid]
      exact h.liveEnvelopes record hmem
  · intro id hid
    rcases h.known id hid with ⟨m, hm, he⟩ | hd
    · exact Or.inl ⟨m, List.mem_append_left _ hm, he⟩
    · exact Or.inr hd
  · intro p hp m hm hmp
    obtain ⟨hid, hat, ha, hu, hb⟩ := h.receipts p hp m (old p hp m hm hmp) hmp
    exact ⟨hid, hat, ha, hu, hb⟩
  · intro m hm hat
    rcases cases m hm with hold | rfl
    · exact h.paged m hold hat
    · rw [unreadAt] at hat
      cases hat
  · intro m hm hat
    rcases cases m hm with hold | rfl
    · exact h.unread m hold hat
    · exact unreadId
  · intro m hm e he
    rcases cases m hm with hold | rfl
    · exact h.fits m hold e he
    · obtain rfl := Option.some.inj (envelope.symm.trans he)
      exact fits
  · intro p hp
    apply (h.pageOrder p hp).imp_of_mem
    intro a b ha hb hab m₁ hm₁ m₂ hm₂ h₁ h₂
    exact hab m₁ (old p hp m₁ hm₁ (h₁ ▸ ha)) m₂ (old p hp m₂ hm₂ (h₂ ▸ hb)) h₁ h₂

theorem envelope?_delete {id other : String} (hne : other ≠ id) :
    (deleteEnvelope db id).envelope? other = db.envelope? other := by
  simp only [Ledger.envelope?, deleteEnvelope, Tables.find, List.find?_filter]
  congr 1
  funext e
  by_cases he : e.id = other
  · simp [he, hne]
  · simp [he]

theorem Inv.delete (h : Inv db) (id : String) : Inv (deleteEnvelope db id) := by
  have sub : ∀ m ∈ (deleteEnvelope db id).messages, m ∈ db.messages ∧ m.messageId ≠ id := by
    intro m hm
    simpa [deleteEnvelope] using hm
  refine {
    ordered := h.ordered.filter _, positive := ?_, bounded := ?_, room := h.room,
    messageIds := Tables.nodup_filter h.messageIds _, liveEnvelopes := ?_, liveMessages := ?_,
    readIds := h.readIds, readNames := h.readNames, pageKeys := h.pageKeys,
    pageReads := h.pageReads, pageIds := h.pageIds, known := ?_, receipts := ?_, paged := ?_, unread := ?_, fits := ?_,
    pageOrder := ?_ }
  · intro m hm
    exact h.positive m (sub m hm).1
  · intro m hm
    exact h.bounded m (sub m hm).1
  · intro e he
    simp only [deleteEnvelope, List.mem_filter, decide_eq_true_eq] at he
    simp only [deleteEnvelope, List.mem_cons, not_or]
    exact ⟨he.2, h.liveEnvelopes e he.1⟩
  · intro m hm
    simp only [deleteEnvelope, List.mem_cons, not_or]
    exact ⟨(sub m hm).2, h.liveMessages m (sub m hm).1⟩
  · intro i hi
    rcases h.known i hi with ⟨m, hm, he⟩ | hd
    · by_cases hmi : m.messageId = id
      · exact Or.inr (by simp [deleteEnvelope, ← he, hmi])
      · exact Or.inl ⟨m, by simp [deleteEnvelope, hm, hmi], he⟩
    · exact Or.inr (List.mem_cons_of_mem _ hd)
  · intro p hp m hm hmp
    obtain ⟨hid, hat, ha, hu, hb⟩ := h.receipts p hp m (sub m hm).1 hmp
    exact ⟨hid, hat, ha, hu, hb⟩
  · intro m hm
    exact h.paged m (sub m hm).1
  · intro m hm
    exact h.unread m (sub m hm).1
  · intro m hm e he
    rw [envelope?_delete (sub m hm).2] at he
    exact h.fits m (sub m hm).1 e he
  · intro p hp
    apply (h.pageOrder p hp).imp
    intro a b hab m₁ hm₁ m₂ hm₂
    exact hab m₁ (sub m₁ hm₁).1 m₂ (sub m₂ hm₂).1

theorem Inv.openRead (h : Inv db) {batch : ReadRow}
    (name : ∃ uuid : UuidHex, batch.id = "mailread_" ++ uuid.text) (fresh : ∀ r ∈ db.reads, r.id ≠ batch.id) :
    Inv { db with reads := db.reads ++ [batch] } := by
  refine { h with
    readIds := Tables.nodup_append_row h.readIds fresh, readNames := ?_, pageReads := ?_,
    receipts := ?_ }
  · intro r hr
    rcases List.mem_append.mp hr with hold | hnew
    · exact h.readNames r hold
    · rw [List.mem_singleton.mp hnew]
      exact name
  · intro p hp
    obtain ⟨r, hr, he⟩ := h.pageReads p hp
    exact ⟨r, List.mem_append_left _ hr, he⟩
  · intro p hp m hm hmp
    obtain ⟨hid, hat, ha, hu, r, hr, hb⟩ := h.receipts p hp m hm hmp
    exact ⟨hid, hat, ha, hu, r, List.mem_append_left _ hr, hb⟩

/-- The update that marks the messages of a page. -/
def markRead (ids : List String) (batch : ReadRow) (now : IsoTime) (m : MailRow) : MailRow :=
  if m.messageId ∈ ids ∧ m.readAt.isNone then
    { m with readId := some batch.id, readAt := some now.text }
  else m

theorem markRead_identity (ids : List String) (batch : ReadRow) (now : IsoTime) (m : MailRow) :
    (markRead ids batch now m).messageId = m.messageId ∧
      (markRead ids batch now m).mailboxSeq = m.mailboxSeq ∧
      (markRead ids batch now m).targetSessionId = m.targetSessionId ∧
      (markRead ids batch now m).sourceSessionId = m.sourceSessionId := by
  unfold markRead
  split <;> exact ⟨rfl, rfl, rfl, rfl⟩

/-- A row that has its receipt keeps it. -/
theorem markRead_read (ids : List String) (batch : ReadRow) (now : IsoTime) {m : MailRow}
    (h : m.readAt.isSome = true) : markRead ids batch now m = m := by
  rw [markRead, if_neg]
  rintro ⟨_, hn⟩
  rw [Option.isNone_iff_eq_none] at hn
  rw [hn] at h
  cases h

theorem Inv.firstPage (h : Inv db) {scope : Scope} {batch : ReadRow} {afterSeq pageLimit : Nat}
    {now : IsoTime} {row : PageRow} {messages : List Message} (opened : batch ∈ db.reads)
    (target : scope.target = batch.targetSessionId)
    (source : scope.source = some batch.sourceSessionId)
    (fresh : db.page? batch.id afterSeq = none)
    (page : FirstPage db scope batch afterSeq pageLimit now row db' messages) : Inv db' := by
  obtain ⟨rows, ⟨k, hrows⟩, hids, hend, hread, hafter⟩ := page.rows
  set mark := markRead row.messageIds batch now with hmark
  have hdb : db' = { db with pages := db.pages ++ [row], messages := db.messages.map mark } :=
    page.ledger
  have same := markRead_identity row.messageIds batch now
  have hsel : ∀ r ∈ rows, Selected db scope afterSeq batch.snapshotSeq r := by
    intro r hr
    rw [hrows] at hr
    exact selected_of_mem (List.mem_of_mem_take hr)
  have hsorted : rows.Pairwise fun a b => a.1.mailboxSeq < b.1.mailboxSeq := by
    rw [hrows]
    exact (select_ordered h.ordered _).sublist (List.take_sublist _ _)
  -- A stored message whose id is on the new page is one of its rows.
  have hrow : ∀ m ∈ db.messages, m.messageId ∈ row.messageIds → ∃ r ∈ rows, r.1 = m := by
    intro m hm hid
    rw [hids] at hid
    obtain ⟨r, hr, he⟩ := List.mem_map.mp hid
    exact ⟨r, hr, h.same_row (hsel r hr).stored hm he⟩
  have hunread : ∀ id ∈ row.messageIds, id ∉ db.pageIds := by
    intro id hid hold
    rw [hids] at hid
    obtain ⟨r, hr, rfl⟩ := List.mem_map.mp hid
    have hread := (h.readAt_iff (hsel r hr).stored).mpr hold
    rw [(hsel r hr).unread] at hread
    cases hread
  have hpageIds : db'.pageIds = db.pageIds ++ row.messageIds := by
    rw [hdb]
    simp [Ledger.pageIds]
  have back : ∀ m' ∈ db'.messages, ∃ m ∈ db.messages, mark m = m' := by
    intro m' hm'
    rw [hdb] at hm'
    exact List.mem_map.mp hm'
  have pages_eq : db'.pages = db.pages ++ [row] := by rw [hdb]
  have reads_eq : db'.reads = db.reads := by rw [hdb]
  have deleted_eq : db'.deletedIds = db.deletedIds := by rw [hdb]
  refine {
    ordered := ?_, positive := ?_, bounded := ?_, room := ?_, messageIds := ?_, liveEnvelopes := ?_,
    liveMessages := ?_, readIds := reads_eq ▸ h.readIds,
    readNames := reads_eq ▸ h.readNames, pageKeys := ?_, pageReads := ?_,
    pageIds := ?_, known := ?_, receipts := ?_, paged := ?_, unread := ?_, fits := ?_,
    pageOrder := ?_ }
  · rw [Ordered, hdb, List.pairwise_map]
    apply h.ordered.imp
    intro a b hab
    rw [(same a).2.1, (same b).2.1]
    exact hab
  · intro m' hm'
    obtain ⟨m, hm, rfl⟩ := back m' hm'
    rw [(same m).2.1]
    exact h.positive m hm
  · intro m' hm'
    obtain ⟨m, hm, rfl⟩ := back m' hm'
    rw [(same m).2.1, hdb]
    exact h.bounded m hm
  · rw [hdb]
    exact h.room
  · rw [hdb, Tables.map_keys fun m => (same m).1]
    exact h.messageIds
  · rw [hdb]
    exact h.liveEnvelopes
  · intro m' hm'
    obtain ⟨m, hm, rfl⟩ := back m' hm'
    rw [(same m).1, deleted_eq]
    exact h.liveMessages m hm
  · rw [pages_eq]
    apply Tables.nodup_append_row h.pageKeys
    intro old ho
    have hkey : row.key = (batch.id, afterSeq) := by rw [PageRow.key, hread, hafter]
    rw [hkey]
    exact Tables.find_eq_none.mp fresh old ho
  · intro p hp
    rw [pages_eq] at hp
    rw [reads_eq]
    rcases List.mem_append.mp hp with hold | hnew
    · exact h.pageReads p hold
    · rw [List.mem_singleton.mp hnew, hread]
      exact ⟨batch, opened, rfl⟩
  · rw [hpageIds]
    refine List.nodup_append.mpr ⟨h.pageIds, ?_, ?_⟩
    · rw [hids, List.Nodup, List.pairwise_map]
      apply hsorted.imp_of_mem
      intro a b ha hb hab he
      rw [h.same_row (hsel a ha).stored (hsel b hb).stored he] at hab
      exact Nat.lt_irrefl _ hab
    · rintro id hold _ hnew rfl
      exact hunread id hnew hold
  · intro id hid
    have hk : Known db id := by
      rw [hpageIds] at hid
      rcases List.mem_append.mp hid with hold | hnew
      · exact h.known id hold
      · rw [hids] at hnew
        obtain ⟨r, hr, rfl⟩ := List.mem_map.mp hnew
        exact Or.inl ⟨r.1, (hsel r hr).stored, rfl⟩
    rcases hk with ⟨m, hm, he⟩ | hd
    · refine Or.inl ⟨mark m, ?_, by rw [(same m).1, he]⟩
      rw [hdb]
      exact List.mem_map_of_mem hm
    · exact Or.inr (deleted_eq ▸ hd)
  · intro p hp m' hm' hmp
    obtain ⟨m, hm, rfl⟩ := back m' hm'
    rw [(same m).1] at hmp
    rw [pages_eq] at hp
    rcases List.mem_append.mp hp with hold | hnew
    · have hon := h.receipts p hold m hm hmp
      rw [hmark, markRead_read _ _ _ hon.readAt]
      exact ⟨hon.readId, hon.readAt, hon.above, hon.upto, reads_eq ▸ hon.batch⟩
    · obtain rfl := List.mem_singleton.mp hnew
      obtain ⟨r, hr, rfl⟩ := hrow m hm hmp
      have hs := hsel r hr
      have hset : mark r.1 = { r.1 with readId := some batch.id, readAt := some now.text } := by
        rw [hmark, markRead, if_pos ⟨hmp, by rw [hs.unread]; rfl⟩]
      have ht : r.1.targetSessionId = batch.targetSessionId :=
        (admits_iff.mp hs.admitted).2.1.trans target
      have hsrc : r.1.sourceSessionId = batch.sourceSessionId :=
        (admits_iff.mp hs.admitted).2.2.2 _ source
      rw [hset]
      refine ⟨by rw [hread], rfl, by rw [hafter]; exact hs.above, ?_, batch,
        by rw [reads_eq]; exact opened, hread.symm, hs.upto, ht, hsrc⟩
      rw [hend]
      exact le_getLast hsorted afterSeq hr
  · intro m' hm' hat
    obtain ⟨m, hm, rfl⟩ := back m' hm'
    rw [(same m).1, hpageIds]
    by_cases hid : m.messageId ∈ row.messageIds
    · exact List.mem_append_right _ hid
    · rw [hmark, markRead, if_neg (fun hc => hid hc.1)] at hat
      exact List.mem_append_left _ (h.paged m hm hat)
  · intro m' hm' hat
    obtain ⟨m, hm, rfl⟩ := back m' hm'
    by_cases hid : m.messageId ∈ row.messageIds ∧ m.readAt.isNone = true
    · rw [hmark, markRead, if_pos hid] at hat
      cases hat
    · rw [hmark, markRead, if_neg hid] at hat ⊢
      exact h.unread m hm hat
  · intro m' hm' e he
    obtain ⟨m, hm, rfl⟩ := back m' hm'
    rw [(same m).1, hdb] at he
    have hfit := h.fits m hm e he
    rw [hmark, markRead]
    split
    · exact hfit
    · exact hfit
  · intro p hp
    rw [pages_eq] at hp
    rcases List.mem_append.mp hp with hold | hnew
    · apply (h.pageOrder p hold).imp
      intro a b hab m₁ hm₁ m₂ hm₂ h₁ h₂
      obtain ⟨n₁, hn₁, rfl⟩ := back m₁ hm₁
      obtain ⟨n₂, hn₂, rfl⟩ := back m₂ hm₂
      rw [(same n₁).1] at h₁
      rw [(same n₂).1] at h₂
      rw [(same n₁).2.1, (same n₂).2.1]
      exact hab n₁ hn₁ n₂ hn₂ h₁ h₂
    · rw [List.mem_singleton.mp hnew, hids, List.pairwise_map]
      apply hsorted.imp_of_mem
      intro a b ha hb hab m₁ hm₁ m₂ hm₂ h₁ h₂
      obtain ⟨n₁, hn₁, rfl⟩ := back m₁ hm₁
      obtain ⟨n₂, hn₂, rfl⟩ := back m₂ hm₂
      rw [(same n₁).1] at h₁
      rw [(same n₂).1] at h₂
      rw [(same n₁).2.1, (same n₂).2.1, h.same_row hn₁ (hsel a ha).stored h₁,
        h.same_row hn₂ (hsel b hb).stored h₂]
      exact hab

/-- One change keeps the invariant. -/
theorem Inv.change (h : Inv db) (hc : Change db db') : Inv db' := by
  cases hc with
  | keep g _ row messages reads pages deleted envelopes sequence bound =>
      exact h.keep row messages reads pages deleted envelopes sequence bound
  | store row fresh record envelope fits sequence bound unreadId unreadAt =>
      exact h.store fresh envelope fits sequence bound unreadId unreadAt
  | delete id => exact h.delete id
  | openRead batch name fresh _ => exact h.openRead name fresh
  | firstPage scope batch afterSeq pageLimit now row _ messages opened target source fresh page =>
      exact h.firstPage opened target source fresh page

theorem Inv.changes (h : Inv db) (hc : ReflTransGen Change db db') : Inv db' := by
  induction hc with
  | refl => exact h
  | tail _ hc ih => exact ih.change hc

variable [CharacterTables]

theorem Inv.step (h : Inv db) (action : Action) : Inv (Mailbox.step db action).1 :=
  h.changes (step_changes db action)

/-- Every reachable ledger satisfies the invariant. -/
theorem inv_after (actions : List Action) : Inv (after actions) :=
  Inv.empty.changes (run_changes Ledger.empty actions)

end AgentsServer.Mailbox

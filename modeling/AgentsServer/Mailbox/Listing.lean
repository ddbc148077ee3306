import AgentsServer.Library.JsonSize
import AgentsServer.Library.Paging
import AgentsServer.Mailbox.ReadSnapshot
import Mathlib.Data.Bool.AllAny

/-!
# Listing a mailbox

`list_messages` shows stored mail page by page, and a pending envelope can be
moved into the mailbox. A stored message fits a page with the receipt that it
has, with any receipt that a read gives it, and without one, so no page stops
before its first message.
-/

namespace AgentsServer.Mailbox

open Library Library.Runs Relation

/-! ## Listing -/

/-- What `list_messages` selects behind a cursor. -/
def listed (scope : Scope) (afterSeq : Nat) (unreadOnly : Bool) (row : Joined) : Bool :=
  scope.admits row && decide (afterSeq < row.1.mailboxSeq) &&
    (!unreadOnly || row.1.readAt.isNone)

structure ListReply where
  messages : List Message
  hasMore : Bool
  nextAfterSeq : Option Nat

/-- The arguments of `list_messages` but for the cursor. -/
structure ListRequest where
  targetSessionId : String
  sourceSessionId : Option String
  allowedPairIds : List String
  limit : Int
  unreadOnly : Bool

def listMessages [CharacterTables] (db : Ledger) (req : ListRequest) (afterSeq : Int) :
    Except Failure ListReply := do
  let scope ← scope req.targetSessionId req.sourceSessionId req.allowedPairIds
  let afterSeq ← cursor afterSeq
  let pageLimit ← limit req.limit
  let (messages, more) ← page db (listed scope afterSeq req.unreadOnly) pageLimit none
  return {
    messages
    hasMore := more
    nextAfterSeq := if more then messages.getLast?.map Message.mailboxSeq else none }

/-! ## Moving pending envelopes -/

/-- What a migration compares of an envelope. -/
structure Candidate where
  id : String
  sourceSessionId : String
  targetSessionId : String
  authorizationPairId : String
  status : Status
  createdAt : IsoTime

/-- The condition of the update. `same` says that the route and the queue id are those of the
candidate, which the mailbox does not read. -/
def isCandidate (c : Candidate) (same : Bool) (e : Envelope) : Bool :=
  e.id == c.id && e.sourceSessionId == c.sourceSessionId &&
    e.targetSessionId == c.targetSessionId && e.authorizationKind == .configuredRoute &&
    e.kind == .instruction && e.authorizationPairId == c.authorizationPairId &&
    e.status == c.status && e.targetRunId.isNone && e.deliveryMode == .direct && same

def moved (now : IsoTime) (e : Envelope) : Envelope :=
  { e with
    status := .stored
    deliveryMode := .mailbox
    lifecycleStatus := "mailbox_migration_pending"
    updatedAt := now.text }

/-- `migrate_pending_mailbox_message` -/
def migratePendingMailboxMessage [CharacterTables] (db : Ledger) (c : Candidate) (same : Bool)
    (now : IsoTime) (skip : Nat) : Except Failure (Option Envelope × Ledger) := do
  if db.envelopes.any (isCandidate c same) then
    let db : Ledger := { db with
      envelopes := db.envelopes.map fun e => if isCandidate c same e then moved now e else e }
    let storedAt := if c.status = .ready then now else c.createdAt
    let (_, db) ← storeMessage db c.id storedAt none skip
    return (db.envelope? c.id, db)
  else return (none, db)

/-- What changes a mailbox: an operation of the ledger, or a migration. -/
inductive MailboxCall where
  | action (a : Action)
  | migrate (c : Candidate) (same : Bool) (now : IsoTime) (skip : Nat)

/-- One call is one transaction, rolled back if it raises. -/
def mailboxStep [CharacterTables] (db : Ledger) : MailboxCall → Ledger × Except Failure Unit
  | .action a => ((step db a).1, (step db a).2.map fun _ => ())
  | .migrate c same now skip =>
      atomically db ((migratePendingMailboxMessage db c same now skip).map fun r => ((), r.2))

/-! ## What every call keeps -/

/-- A receipt has the time of a read. -/
def Dated (db : Ledger) : Prop :=
  ∀ m ∈ db.messages, ∀ text, m.readAt = some text → ∃ now : IsoTime, text = now.text

variable {db db' : Ledger}

theorem Dated.change (h : Dated db) (hc : Change db db') : Dated db' := by
  cases hc with
  | keep g _ row messages _ _ _ _ _ _ =>
      intro m hm text htext
      rw [messages] at hm
      obtain ⟨old, hold, rfl⟩ := List.mem_map.mp hm
      rw [(row old).readAt] at htext
      exact h old hold text htext
  | store row _ _ _ _ _ _ _ unread =>
      intro m hm text htext
      rcases List.mem_append.mp hm with hm | hm
      · exact h m hm text htext
      · rw [List.mem_singleton.mp hm, unread] at htext
        cases htext
  | delete id => exact fun m hm => h m (List.mem_filter.mp hm).1
  | openRead _ _ _ _ => exact h
  | firstPage _ batch _ _ now row _ _ _ _ _ _ page =>
      intro m hm text htext
      rw [page.ledger] at hm
      obtain ⟨old, hold, rfl⟩ := List.mem_map.mp hm
      split at htext
      · cases htext
        exact ⟨now, rfl⟩
      · exact h old hold text htext

/-- A recorded page with more behind it ends behind its cursor, within its snapshot. -/
def Advancing (db : Ledger) : Prop :=
  ∀ p ∈ db.pages, p.hasMore = true → ∀ r ∈ db.reads, r.id = p.readId →
    p.afterSeq < p.endSeq ∧ p.endSeq ≤ r.snapshotSeq

/-- The last row of a page with more behind it. -/
theorem FirstPage.advances {scope : Scope} {batch : ReadRow} {afterSeq pageLimit : Nat}
    {now : IsoTime} {row : PageRow} {messages : List Message}
    (page : FirstPage db scope batch afterSeq pageLimit now row db' messages)
    (more : row.hasMore = true) : afterSeq < row.endSeq ∧ row.endSeq ≤ batch.snapshotSeq := by
  obtain ⟨k, hk, -, hm, -, -, hpos⟩ := page_ok page.selected
  have found : messages ≠ [] := by
    rw [hm, Ne, List.map_eq_nil_iff, List.take_eq_nil_iff, not_or]
    have h := hpos more
    refine ⟨Nat.ne_of_gt h, ?_⟩
    rintro hnil
    rw [hnil] at hk
    exact absurd hk (Nat.not_le.mpr h)
  have last : row.endSeq = (messages.getLast found).mailboxSeq := by
    rw [page.row_eq, List.getLast?_eq_some_getLast found]
    rfl
  have bounds : ∀ msg ∈ messages, afterSeq < msg.mailboxSeq ∧ msg.mailboxSeq ≤ batch.snapshotSeq := by
    intro msg hmsg
    rw [hm] at hmsg
    obtain ⟨selected, hselected, rfl⟩ := List.mem_map.mp hmsg
    have hbounds := selected_of_mem (List.mem_of_mem_take hselected)
    rw [pageMessage_mailboxSeq]
    exact ⟨hbounds.above, hbounds.upto⟩
  rw [last]
  exact bounds _ (List.getLast_mem found)

theorem Advancing.change (h : Advancing db) (inv : Inv db) (hc : Change db db') : Advancing db' := by
  cases hc with
  | keep _ _ _ _ reads pages _ _ _ _ =>
      intro p hp more r hr
      rw [pages] at hp
      rw [reads] at hr
      exact h p hp more r hr
  | store _ _ _ _ _ _ _ _ _ => exact h
  | delete id => exact h
  | openRead batch _ fresh _ =>
      intro p hp more r hr same
      rcases List.mem_append.mp hr with hr | hr
      · exact h p hp more r hr same
      · obtain ⟨old, hold, hid⟩ := inv.pageReads p hp
        rw [List.mem_singleton.mp hr] at same
        exact absurd (hid.trans same.symm) (fresh old hold)
  | firstPage _ batch _ _ now row _ _ opened _ _ _ page =>
      have hledger := page.ledger
      intro p hp more r hr same
      rw [hledger] at hp hr
      rcases List.mem_append.mp hp with hp | hp
      · exact h p hp more r hr same
      · have hrow := List.mem_singleton.mp hp
        subst hrow
        have hid : p.readId = batch.id := by
          rw [page.row_eq]
        have hafter := congrArg PageRow.afterSeq page.row_eq
        have hbatch : r = batch := Tables.eq_of_key inv.readIds hr opened (same.trans hid)
        rw [hbatch, hafter]
        exact page.advances more

/-- Envelopes whose messages stay as they are may change otherwise. -/
theorem Inv.rewrite (h : Inv db) (f : Envelope → Envelope) (keep : ∀ e, (f e).id = e.id)
    (content : ∀ m e, message m (f e) = message m e) :
    Inv { db with envelopes := db.envelopes.map f } := by
  refine { h with liveEnvelopes := ?_, receipts := ?_, fits := ?_ }
  · intro e he
    obtain ⟨old, hold, rfl⟩ := List.mem_map.mp he
    rw [keep]
    exact h.liveEnvelopes old hold
  · intro p hp m hm hid
    have receipt := h.receipts p hp m hm hid
    exact ⟨receipt.readId, receipt.readAt, receipt.above, receipt.upto, receipt.batch⟩
  · intro m hm e he
    change Tables.find Envelope.id (db.envelopes.map f) m.messageId = some e at he
    rw [Tables.find_map keep, Option.map_eq_some_iff] at he
    obtain ⟨old, hold, rfl⟩ := he
    rw [Fits, content]
    exact h.fits m hm old hold

/-- The states that the calls reach. -/
structure Reached (db : Ledger) : Prop where
  inv : Inv db
  dated : Dated db
  advancing : Advancing db

theorem reached_empty : Reached Ledger.empty where
  inv := Inv.empty
  dated := List.forall_mem_nil _
  advancing := List.forall_mem_nil _

theorem Reached.changes (h : Reached db) (hc : ReflTransGen Change db db') : Reached db' := by
  induction hc with
  | refl => exact h
  | tail _ hc ih => exact ⟨ih.inv.change hc, ih.dated.change hc, ih.advancing.change ih.inv hc⟩

variable [CharacterTables]

theorem Reached.action (h : Reached db) (a : Action) : Reached (step db a).1 :=
  h.changes (step_changes db a)

/-- A stored message is stored by the machine, too. -/
theorem Reached.stored (h : Reached db) {id : String} {now : IsoTime} {parent : Option String}
    {skip : Nat} {msg : Message} (hs : storeMessage db id now parent skip = .ok (msg, db')) :
    Reached db' := by
  have performed : perform db (.storeMessage id now parent skip) = .ok (.stored msg, db') := by
    rw [perform, hs]
    rfl
  exact h.changes (perform_changes performed)

theorem Reached.call (h : Reached db) (call : MailboxCall) : Reached (mailboxStep db call).1 := by
  cases call with
  | action a => exact h.action a
  | migrate c same now skip =>
      refine atomically_keep (P := Reached) h fun _ db' hbody => ?_
      obtain ⟨⟨answer, left⟩, hmigrate, hleft⟩ := map_eq_ok.mp hbody
      cases hleft
      unfold migratePendingMailboxMessage at hmigrate
      split at hmigrate
      · have rewritten : Reached { db with
            envelopes := db.envelopes.map fun e => if isCandidate c same e then moved now e else e } := by
          refine ⟨h.inv.rewrite _ ?_ ?_, h.dated, h.advancing⟩
          · intro e
            split <;> rfl
          · intro m e
            split <;> rfl
        simp only [bind_eq_ok, pure_eq_ok, Prod.mk.injEq, Prod.exists] at hmigrate
        obtain ⟨msg, db', hstore, -, rfl⟩ := hmigrate
        exact rewritten.stored hstore
      · cases hmigrate
        exact h

theorem run_reached (calls : List MailboxCall) : Reached (run mailboxStep Ledger.empty calls) :=
  run_invariant (I := Reached) mailboxStep (fun _ call h => h.call call) _ reached_empty calls

/-! ## No message is too large -/

omit [CharacterTables] in
/-- A message without a receipt is smaller than with one. -/
theorem size_le_withReceipt {msg : Message} (unreadId : msg.readId = none)
    (unreadAt : msg.readAt = none) {a b : String} (ha : 4 ≤ quotedSize a) (hb : 4 ≤ quotedSize b) :
    msg.size ≤ (msg.withReceipt a b).size := by
  have field : ∀ (key text : String), 4 ≤ quotedSize text →
      Json.fieldSize Json.escape (key, .null) ≤ Json.fieldSize Json.escape (key, .str text) := by
    intro key text h
    exact Nat.add_le_add_left h _
  have readId := field "read_id" a ha
  have readAt := field "read_at" b hb
  change Json.size Json.escape msg.toJson ≤ Json.size Json.escape (msg.withReceipt a b).toJson
  simp only [Message.withReceipt, Message.toJson, Json.size_obj, reduceCtorEq, if_false,
    List.map_cons, List.sum_cons, textOrNull, unreadId, unreadAt]
  omega

omit [CharacterTables] in
/-- A stored message fits a page as it is. -/
theorem Reached.fits (h : Reached db) {row : Joined} (hrow : row ∈ db.join) :
    pageReserve + (pageMessage none row).size ≤ maxPageBytes := by
  obtain ⟨hm, he⟩ := mem_join.mp hrow
  have hfit := h.inv.fits row.1 hm row.2 he
  rw [Fits, widestReceipt] at hfit
  change pageReserve + (message row.1 row.2).size ≤ maxPageBytes
  cases hread : row.1.readAt with
  | none =>
      have hid : row.1.readId = none := h.inv.unread row.1 hm hread
      have hle : (message row.1 row.2).size ≤
          ((message row.1 row.2).withReceipt (String.ofList (List.replicate 240 'x'))
            (String.ofList (List.replicate 64 'x'))).size :=
        size_le_withReceipt hid hread (by rw [quotedSize_wide]; omega)
          (by rw [quotedSize_wide]; omega)
      omega
  | some text =>
      obtain ⟨now, rfl⟩ := h.dated row.1 hm text hread
      have hpaged := h.inv.paged row.1 hm (by rw [hread]; rfl)
      obtain ⟨p, hp, hmp⟩ := mem_pageIds.mp hpaged
      have receipt := h.inv.receipts p hp row.1 hm hmp
      obtain ⟨batch, hbatch, hid, -⟩ := receipt.batch
      have hsame : message row.1 row.2 = pageMessage (some (batch.id, now.text)) row := by
        rw [pageMessage, Message.withReceipt, hid, ← receipt.readId, ← hread]
        rfl
      rw [hsame]
      exact h.inv.receipt_fits hbatch now hrow

/-! ## Following the cursors -/

/-- The rows that `list_messages` shows, whatever the cursor. -/
def shown (db : Ledger) (scope : Scope) (unreadOnly : Bool) : List Message :=
  (db.select (listed scope 0 unreadOnly)).map (pageMessage none)

omit [CharacterTables] in
theorem select_listed (h : Inv db) (scope : Scope) (afterSeq : Nat) (unreadOnly : Bool) :
    (db.select (listed scope afterSeq unreadOnly)).map (pageMessage none) =
      Paging.beyond Message.mailboxSeq (shown db scope unreadOnly) afterSeq := by
  rw [Paging.beyond, shown, select_eq_filter h.ordered, select_eq_filter h.ordered, List.filter_map,
    List.filter_filter]
  congr 1
  apply List.filter_congr
  intro row hrow
  have positive := h.positive row.1 (mem_join.mp hrow).1
  simp only [listed, Function.comp_apply, pageMessage_mailboxSeq]
  by_cases hafter : afterSeq < row.1.mailboxSeq
  · simp [hafter, positive]
  · simp [hafter]

omit [CharacterTables] in
theorem shown_ordered (h : Inv db) (scope : Scope) (unreadOnly : Bool) :
    (shown db scope unreadOnly).Pairwise fun a b => a.mailboxSeq < b.mailboxSeq := by
  rw [shown, List.pairwise_map]
  simp only [pageMessage_mailboxSeq]
  exact select_ordered h.ordered _

/-- A listing with valid arguments returns a page. -/
theorem Reached.list (h : Reached db) (req : ListRequest) {sc : Scope} {pageLimit afterSeq : Nat}
    (hscope : scope req.targetSessionId req.sourceSessionId req.allowedPairIds = .ok sc)
    (hlimit : limit req.limit = .ok pageLimit) (hafter : afterSeq ≤ maxRowId) :
    ∃ reply, listMessages db req afterSeq = .ok reply ∧
      Paging.IsPage Message.mailboxSeq (shown db sc req.unreadOnly) afterSeq reply.messages
        ((reply.messages.getLast?.map Message.mailboxSeq).getD afterSeq) reply.hasMore ∧
      reply.nextAfterSeq =
        if reply.hasMore then reply.messages.getLast?.map Message.mailboxSeq else none := by
  obtain ⟨⟨messages, more⟩, hpage⟩ := page_total db (listed sc afterSeq req.unreadOnly) none
    (limit_eq_ok hlimit).1 fun row hrow => h.fits (mem_select.mp hrow).1
  refine ⟨⟨messages, more, if more then messages.getLast?.map Message.mailboxSeq else none⟩, ?_, ?_,
    rfl⟩
  · rw [listMessages, hscope, ok_bind, cursor_ok hafter, ok_bind, hlimit, ok_bind, hpage]
    rfl
  · obtain ⟨k, hk, -, hm, hmore, -, hpos⟩ := page_ok hpage
    refine ⟨⟨((db.select (listed sc afterSeq req.unreadOnly)).drop k).map (pageMessage none), ?_, ?_⟩,
      ?_, rfl⟩
    · rw [← select_listed h.inv, hm, ← List.map_append, List.take_append_drop]
    · intro hnone
      rw [hmore, decide_eq_false_iff_not, Nat.not_lt] at hnone
      rw [List.drop_eq_nil_of_le hnone, List.map_nil]
    · intro hyes hnil
      have positive := hpos hyes
      have hlength := congrArg List.length (hm.symm.trans hnil)
      rw [List.length_map, List.length_take, List.length_nil] at hlength
      omega

/-- A reader that lists again behind `next_after_seq` until there is none. The bound is on the
number of pages; no result means that it was too small. -/
def listAll (db : Ledger) (req : ListRequest) : Nat → Nat → Option (Except Failure (List ListReply))
  | 0, _ => none
  | pages + 1, afterSeq =>
      match listMessages db req afterSeq with
      | .error e => some (.error e)
      | .ok reply =>
          match reply.nextAfterSeq with
          | some next => (listAll db req pages next).map fun rest => rest.map (reply :: ·)
          | none => some (.ok [reply])

omit [CharacterTables] in
/-- The cursor of a page with more behind it. -/
theorem isPage_next {rows items : List Message} {afterSeq next : Nat}
    (page : Paging.IsPage Message.mailboxSeq rows afterSeq items next true) :
    items.getLast?.map Message.mailboxSeq = some next ∧ afterSeq < next ∧
      ∃ msg ∈ rows, next = msg.mailboxSeq := by
  have found := page.moves rfl
  have last := page.ends
  rw [List.getLast?_eq_some_getLast found] at last ⊢
  obtain ⟨rest, hrest, -⟩ := page.covers
  have hmem : items.getLast found ∈ Paging.beyond Message.mailboxSeq rows afterSeq := by
    rw [hrest]
    exact List.mem_append_left _ (List.getLast_mem found)
  obtain ⟨hrow, hafter⟩ := (Paging.mem_beyond _).mp hmem
  change next = (items.getLast found).mailboxSeq at last
  rw [last]
  exact ⟨rfl, hafter, _, hrow, rfl⟩

theorem Reached.listAll (h : Reached db) (req : ListRequest) {sc : Scope} {pageLimit : Nat}
    (hscope : scope req.targetSessionId req.sourceSessionId req.allowedPairIds = .ok sc)
    (hlimit : limit req.limit = .ok pageLimit) {pages afterSeq : Nat} (hafter : afterSeq ≤ maxRowId)
    (enough : (Paging.beyond Message.mailboxSeq (shown db sc req.unreadOnly) afterSeq).length < pages) :
    ∃ replies, listAll db req pages afterSeq = some (.ok replies) ∧
      replies.flatMap ListReply.messages =
        Paging.beyond Message.mailboxSeq (shown db sc req.unreadOnly) afterSeq := by
  induction pages generalizing afterSeq with
  | zero => omega
  | succ pages ih =>
      obtain ⟨reply, hreply, hpage, hnext⟩ := h.list req hscope hlimit hafter
      obtain ⟨hsplit, -⟩ := hpage.rest (shown_ordered h.inv sc req.unreadOnly)
      generalize (reply.messages.getLast?.map Message.mailboxSeq).getD afterSeq = next at hpage hsplit
      rw [Mailbox.listAll, hreply]
      cases hmore : reply.hasMore with
      | false =>
          rw [hmore] at hnext
          obtain ⟨rest, hrest, hnone⟩ := hpage.covers
          refine ⟨[reply], ?_, ?_⟩
          · dsimp only
            rw [hnext]
            rfl
          · rw [hrest, hnone hmore, List.append_nil, List.flatMap_singleton]
      | true =>
          rw [hmore] at hnext hpage
          obtain ⟨hlast, hless, msg, hmsg, hseq⟩ := isPage_next hpage
          rw [if_pos rfl, hlast] at hnext
          have bounded : next ≤ maxRowId := by
            obtain ⟨row, hrow, rfl⟩ := List.mem_map.mp hmsg
            rw [hseq, pageMessage_mailboxSeq]
            exact (h.inv.bounded row.1 (mem_join.mp (mem_select.mp hrow).1).1).trans h.inv.room
          have found := List.length_pos_iff.mpr (hpage.moves rfl)
          have hlength := congrArg List.length hsplit
          rw [List.length_append] at hlength
          obtain ⟨rest, hrest, hall⟩ := ih bounded (by omega)
          refine ⟨reply :: rest, ?_, ?_⟩
          · dsimp only
            rw [hnext]
            dsimp only
            rw [hrest]
            rfl
          · rw [List.flatMap_cons, hall, hsplit]

omit [CharacterTables] in
/-- The check of an argument raises nothing about sizes. -/
theorem checked_ne_tooLarge {α : Type} (c : Prop) [Decidable c] (text : String) (a : α) :
    (require c (Failure.valueError text) >>= fun _ => pure a) ≠ .error tooLarge := by
  intro h
  rw [bind_eq_error] at h
  rcases h with h | ⟨_, -, h⟩
  · rw [require_eq_error] at h
    exact Failure.noConfusion h.2
  · exact pure_ne_error _ _ h

/-- A listing raises only about its arguments. -/
theorem Reached.list_error (h : Reached db) (req : ListRequest) (afterSeq : Int) :
    listMessages db req afterSeq ≠ .error tooLarge := by
  have hident : ∀ value, identifier value ≠ .error tooLarge := fun _ => checked_ne_tooLarge _ _ _
  have hpairs : ∀ values, pairs values ≠ .error tooLarge := fun _ => checked_ne_tooLarge _ _ _
  intro hraised
  simp only [listMessages, bind_eq_error] at hraised
  rcases hraised with hscope | ⟨sc, -, hraised⟩
  · simp only [scope, bind_eq_error, hident, hpairs, false_or] at hscope
    obtain ⟨_, -, _, -, hscope⟩ := hscope
    split at hscope
    · exact pure_ne_error _ _ hscope
    · split at hscope
      · exact pure_ne_error _ _ hscope
      · simp only [bind_eq_error, hident, pure_ne_error, and_false, exists_false, or_false] at hscope
  rcases hraised with hcursor | ⟨after, -, hraised⟩
  · exact checked_ne_tooLarge _ _ _ hcursor
  rcases hraised with hlimit | ⟨pageLimit, hlimit, hraised⟩
  · exact checked_ne_tooLarge _ _ _ hlimit
  rcases hraised with hpage | ⟨_, -, hraised⟩
  · obtain ⟨out, hout⟩ := page_total db (listed sc after req.unreadOnly) none
      (limit_eq_ok hlimit).1 fun row hrow => h.fits (mem_select.mp hrow).1
    rw [hout] at hpage
    cases hpage
  · exact pure_ne_error _ _ hraised

/-- A read that answers says where to go on, behind its cursor and within its snapshot. -/
theorem Reached.read (h : Reached db) {req : ReadRequest} {uuid : UuidHex} {reply : ReadReply}
    (hread : readSender db req uuid = .ok (reply, db')) :
    (reply.hasMore = true → ∃ next, reply.nextAfterSeq = some next ∧ req.afterSeq < (next : Int) ∧
      next ≤ reply.snapshotSeq) ∧ (reply.hasMore = false → reply.nextAfterSeq = none) := by
  obtain ⟨d⟩ := readSender_ok hread
  have left := h.changes (readSender_changes d)
  obtain ⟨-, hbatch, -⟩ := openRead_batch h.inv d.open_eq
  have recorded : d.row ∈ db'.pages ∧ d.batch ∈ db'.reads ∧ d.row.readId = d.batch.id ∧
      d.row.afterSeq = d.afterSeq ∧ ∃ ledger sc replayed,
        respond ledger sc d.batch d.row d.pageLimit replayed = .ok reply := by
    rcases d.page_eq with ⟨hpage, hleft, hrespond⟩ | ⟨-, hfirst, hrespond⟩
    · obtain ⟨hmem, hkey⟩ := Tables.find_mem hpage
      obtain ⟨hid, hafter⟩ := Prod.mk.inj hkey
      have hpages := congrArg Ledger.pages hleft
      have hreads := congrArg Ledger.reads hleft
      exact ⟨hpages ▸ hmem, hreads ▸ hbatch, hid, hafter, _, _, _, hrespond⟩
    · obtain ⟨messages, page⟩ := firstPage_ok hfirst
      have hpages := congrArg Ledger.pages page.ledger
      have hreads := congrArg Ledger.reads page.ledger
      refine ⟨?_, ?_, congrArg PageRow.readId page.row_eq, congrArg PageRow.afterSeq page.row_eq, _, _,
        _, hrespond⟩
      · exact hpages ▸ List.mem_append_right _ (List.mem_singleton_self _)
      · exact hreads ▸ hbatch
  obtain ⟨hpage, hread, hid, hafter, ledger, sc, replayed, hrespond⟩ := recorded
  obtain ⟨messages, -, hreply⟩ := respond_ok hrespond
  have hmore := congrArg ReadReply.hasMore hreply
  have hnext := congrArg ReadReply.nextAfterSeq hreply
  have hsnapshot := congrArg ReadReply.snapshotSeq hreply
  change reply.hasMore = d.row.hasMore at hmore
  change reply.nextAfterSeq = if d.row.hasMore then some d.row.endSeq else none at hnext
  change reply.snapshotSeq = d.batch.snapshotSeq at hsnapshot
  rw [hmore, hnext, hsnapshot]
  constructor
  · intro more
    obtain ⟨habove, hwithin⟩ := left.advancing d.row hpage more d.batch hread hid.symm
    refine ⟨d.row.endSeq, if_pos more, ?_, hwithin⟩
    rw [← d.after_eq, ← hafter]
    exact Int.ofNat_lt.mpr habove
  · intro more
    rw [more]
    rfl

/-- In every state that the calls reach, no listing and no first page of a read is refused for the
size of a message. Pages lead on behind their cursor as long as they say that there is more, and a
reader that follows them from any cursor has read every message behind it. -/
theorem mailbox_not_blocked (calls : List MailboxCall) :
    let db := run mailboxStep Ledger.empty calls
    (∀ req afterSeq, listMessages db req afterSeq ≠ .error tooLarge) ∧
    (∀ req, FirstTime db req → ∀ uuid e, e = tooLarge ∨ e = retryTooLarge →
      readSender db req uuid ≠ .error e) ∧
    (∀ req sc pageLimit afterSeq,
      scope req.targetSessionId req.sourceSessionId req.allowedPairIds = .ok sc →
      limit req.limit = .ok pageLimit → afterSeq ≤ maxRowId →
      (∃ reply, listMessages db req (afterSeq : Nat) = .ok reply ∧
        (reply.hasMore = true → ∃ next, reply.nextAfterSeq = some next ∧ afterSeq < next) ∧
        (reply.hasMore = false → reply.nextAfterSeq = none)) ∧
      ∃ pages replies, listAll db req pages afterSeq = some (.ok replies) ∧
        replies.flatMap ListReply.messages =
          (db.select (listed sc afterSeq req.unreadOnly)).map (pageMessage none)) ∧
    ∀ req uuid reply db', readSender db req uuid = .ok (reply, db') →
      (reply.hasMore = true → ∃ next, reply.nextAfterSeq = some next ∧
        req.afterSeq < (next : Int) ∧ next ≤ reply.snapshotSeq) ∧
      (reply.hasMore = false → reply.nextAfterSeq = none) := by
  intro db
  have h := run_reached calls
  refine ⟨h.list_error, fun req first uuid e he => firstTime_fits h.inv first uuid he, ?_,
    fun req uuid reply db' hread => h.read hread⟩
  intro req sc pageLimit afterSeq hscope hlimit hafter
  constructor
  · obtain ⟨reply, hreply, hpage, hnext⟩ := h.list req hscope hlimit hafter
    refine ⟨reply, hreply, ?_, ?_⟩
    · intro hmore
      rw [hmore] at hpage hnext
      obtain ⟨hlast, hless, -⟩ := isPage_next hpage
      rw [if_pos rfl, hlast] at hnext
      exact ⟨_, hnext, hless⟩
    · intro hmore
      rw [hmore] at hnext
      exact hnext
  · rw [select_listed h.inv]
    obtain ⟨replies, hall⟩ := h.listAll req hscope hlimit hafter (Nat.lt_succ_self _)
    exact ⟨_, replies, hall⟩

/-! ## A stored message is listed -/

/-- The printing characters of ASCII. -/
@[reducible] def asciiTables : CharacterTables where
  isprintable c := decide (32 ≤ c.toNat ∧ c.toNat < 127)

def somePair : String := "pair_0123456789abcdef0123456789abcdef"

def someTime : IsoTime where
  text := "2026-01-01T00:00:00Z"
  plain := List.all_iff_forall_prop.mp (by decide)
  short := by decide

def someEnvelope : Envelope where
  id := "m1"
  kind := .instruction
  sourceSessionId := "a"
  sourceRunId := "r"
  targetSessionId := "b"
  body := "hello"
  sourceUserInstruction := ""
  sourceUserDelegationAction := ""
  authorizationKind := .configuredRoute
  authorizationPairId := somePair
  status := .stored
  deliveryMode := .mailbox
  replyToMessageId := none
  targetRunId := none
  targetBody := none
  messageRevision := 0
  lifecycleStatus := ""
  createdAt := "2026-01-01T00:00:00Z"
  updatedAt := "2026-01-01T00:00:00Z"

def someCalls : List MailboxCall :=
  [.action (.putEnvelope someEnvelope), .action (.storeMessage "m1" someTime none 0)]

def someRequest : ListRequest where
  targetSessionId := "b"
  sourceSessionId := none
  allowedPairIds := [somePair]
  limit := 1
  unreadOnly := false

omit [CharacterTables] in
theorem stored_message_listed :
    let db := run (@mailboxStep asciiTables) Ledger.empty someCalls
    (∃ reply, @listMessages asciiTables db someRequest (0 : Nat) = .ok reply ∧
      (reply.hasMore = true → ∃ next, reply.nextAfterSeq = some next ∧ 0 < next) ∧
      (reply.hasMore = false → reply.nextAfterSeq = none)) ∧
    ∃ pages replies, @listAll asciiTables db someRequest pages 0 = some (.ok replies) ∧
      replies.flatMap ListReply.messages =
        (db.select (listed ⟨"b", none, [somePair]⟩ 0 false)).map (pageMessage none) :=
  (@mailbox_not_blocked asciiTables someCalls).2.2.1 someRequest ⟨"b", none, [somePair]⟩ 1 0
    (by rfl) (by decide +kernel) (Nat.zero_le _)

end AgentsServer.Mailbox

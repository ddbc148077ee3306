import AgentsServer.Mailbox.Machine
import AgentsServer.Mailbox.Pages
import AgentsServer.Mailbox.Spec
import Mathlib.Logic.Relation

/-!
# How calls change messages, reads and pages

Every call is a sequence of five kinds of change: rows keep their identity and
receipts, a message is stored, an envelope is deleted, a read is opened, a first
page is recorded. Properties of runs are proved for one change.
-/

namespace AgentsServer.Mailbox

open Library Library.Runs Relation

/-- A row after a change that neither reads it nor gives it another identity. -/
structure RowKept (m m' : MailRow) : Prop where
  mailboxSeq : m'.mailboxSeq = m.mailboxSeq
  messageId : m'.messageId = m.messageId
  source : m'.sourceSessionId = m.sourceSessionId
  target : m'.targetSessionId = m.targetSessionId
  pair : m'.pairId = m.pairId
  storedAt : m'.storedAt = m.storedAt
  parent : m'.inReplyToMessageId = m.inReplyToMessageId
  readId : m'.readId = m.readId
  readAt : m'.readAt = m.readAt
  excluded : m.excludedAt.isSome = true → m'.excludedAt.isSome = true

theorem RowKept.refl (m : MailRow) : RowKept m m :=
  ⟨rfl, rfl, rfl, rfl, rfl, rfl, rfl, rfl, rfl, id⟩

/-- An envelope without the fields that change after it was stored. No message
shows them. -/
def Envelope.settled (e : Envelope) : Envelope :=
  { e with status := .stored, lifecycleStatus := "", updatedAt := "" }

theorem message_settled (m : MailRow) (e : Envelope) : message m e.settled = message m e := rfl

/-- A new envelope has an id that was never deleted, and the envelopes of stored
messages keep what a message shows. -/
structure EnvelopesKept (db db' : Ledger) : Prop where
  live : ∀ e ∈ db'.envelopes, (∃ old ∈ db.envelopes, old.id = e.id) ∨ e.id ∉ db.deletedIds
  content : ∀ m ∈ db.messages, (db'.envelope? m.messageId).map Envelope.settled =
    (db.envelope? m.messageId).map Envelope.settled

inductive Change (db : Ledger) : Ledger → Prop
  | keep (g : MailRow → MailRow) (db' : Ledger) (row : ∀ m, RowKept m (g m))
      (messages : db'.messages = db.messages.map g) (reads : db'.reads = db.reads)
      (pages : db'.pages = db.pages) (deleted : db'.deletedIds = db.deletedIds)
      (envelopes : EnvelopesKept db db') (sequence : db.sequence ≤ db'.sequence)
      (bound : db'.sequence = db.sequence ∨ db'.sequence ≤ maxRowId) :
      Change db db'
  | store (row : MailRow) (fresh : db.message? row.messageId = none)
      (record : Envelope) (envelope : db.envelope? row.messageId = some record)
      (fits : Fits row record) (sequence : db.sequence < row.mailboxSeq) (bound : row.mailboxSeq ≤ maxRowId)
      (unreadId : row.readId = none) (unreadAt : row.readAt = none) :
      Change db { db with sequence := row.mailboxSeq, messages := db.messages ++ [row] }
  | delete (id : String) : Change db (deleteEnvelope db id)
  | openRead (batch : ReadRow) (name : ∃ uuid : UuidHex, batch.id = "mailread_" ++ uuid.text)
      (fresh : ∀ r ∈ db.reads, r.id ≠ batch.id)
      (request : batchesOf db batch.targetSessionId batch.requestId = []) :
      Change db { db with reads := db.reads ++ [batch] }
  | firstPage (scope : Scope) (batch : ReadRow) (afterSeq pageLimit : Nat) (now : IsoTime)
      (row : PageRow) (db' : Ledger) (messages : List Message) (opened : batch ∈ db.reads)
      (target : scope.target = batch.targetSessionId)
      (source : scope.source = some batch.sourceSessionId)
      (fresh : db.page? batch.id afterSeq = none)
      (page : FirstPage db scope batch afterSeq pageLimit now row db' messages) :
      Change db db'

/-- A change that touches no message, read or page. -/
theorem Change.frame {db db' : Ledger} (messages : db'.messages = db.messages)
    (reads : db'.reads = db.reads) (pages : db'.pages = db.pages)
    (deleted : db'.deletedIds = db.deletedIds) (envelopes : EnvelopesKept db db')
    (sequence : db.sequence ≤ db'.sequence)
    (bound : db'.sequence = db.sequence ∨ db'.sequence ≤ maxRowId) : Change db db' :=
  .keep id db' (fun m => RowKept.refl m) (by simpa using messages) reads pages deleted envelopes
    sequence bound

theorem EnvelopesKept.same {db db' : Ledger} (h : db'.envelopes = db.envelopes) :
    EnvelopesKept db db' := by
  refine ⟨?_, ?_⟩
  · intro e he
    rw [h] at he
    exact Or.inl ⟨e, he, rfl⟩
  · intro m _
    rw [Ledger.envelope?, h]
    rfl

theorem EnvelopesKept.map {db db' : Ledger} {f : Envelope → Envelope} (keep : ∀ e, (f e).id = e.id)
    (content : ∀ e, (f e).settled = e.settled) (h : db'.envelopes = db.envelopes.map f) :
    EnvelopesKept db db' := by
  refine ⟨?_, ?_⟩
  · intro e he
    rw [h] at he
    obtain ⟨old, ho, rfl⟩ := List.mem_map.mp he
    exact Or.inl ⟨old, ho, (keep old).symm⟩
  · intro m _
    rw [Ledger.envelope?, h, Tables.find_map keep, Option.map_map]
    simp only [Function.comp_def, content]
    rfl

/-- The envelope under another id is not touched by a put. -/
theorem envelope?_put {db db' : Ledger} {e : Envelope}
    (h : db'.envelopes = e :: db.envelopes.filter fun old => old.id ≠ e.id) {id : String}
    (hne : id ≠ e.id) : db'.envelope? id = db.envelope? id := by
  rw [Ledger.envelope?, h, Ledger.envelope?, Tables.find, Tables.find,
    List.find?_cons_of_neg (by simpa using fun he => hne he.symm), List.find?_filter]
  congr 1
  funext old
  by_cases ho : old.id = id
  · simp [ho, hne]
  · simp [ho]

/-- A row update that only touches some rows keeps all of them. -/
theorem Change.update {db db' : Ledger} (hit : MailRow → Prop) [DecidablePred hit]
    (f : MailRow → MailRow) (row : ∀ m, RowKept m (f m))
    (messages : db'.messages = db.messages.map fun m => if hit m then f m else m)
    (reads : db'.reads = db.reads) (pages : db'.pages = db.pages)
    (deleted : db'.deletedIds = db.deletedIds) (envelopes : EnvelopesKept db db')
    (sequence : db'.sequence = db.sequence) : Change db db' := by
  refine .keep (fun m => if hit m then f m else m) db' ?_ messages reads pages deleted envelopes
    (by omega) (Or.inl sequence)
  intro m
  by_cases h : hit m
  · rw [if_pos h]
    exact row m
  · rw [if_neg h]
    exact RowKept.refl m

theorem exclude_change (db : Ledger) (condition : MailRow → Bool) (reason : ExclusionReason)
    (now : IsoTime) : Change db (exclude db condition reason now).2 :=
  Change.update (fun m => (condition m && m.excludedAt.isNone) = true)
    (fun m => { m with excludedAt := some now.text, excludedReason := some reason.text })
    (fun _ => ⟨rfl, rfl, rfl, rfl, rfl, rfl, rfl, rfl, rfl, fun _ => rfl⟩) rfl rfl rfl rfl
    (EnvelopesKept.same rfl) rfl

variable {db db' : Ledger}

theorem readSender_changes {req : ReadRequest} {uuid : UuidHex} {reply : ReadReply}
    (d : ReadDone db req uuid reply db') : ReflTransGen Change db db' := by
  have hopen : ReflTransGen Change db d.opened ∧ d.batch ∈ d.opened.reads ∧
      d.batch.targetSessionId = req.targetSessionId := by
    rcases openRead_ok d.open_eq with ⟨hb, ho⟩ | ⟨hb, _, hnew, hfresh, ho⟩
    · have hmem : d.batch ∈ batchesOf db req.targetSessionId req.requestId := by simp [hb]
      rw [batchesOf, List.mem_filter] at hmem
      rw [ho]
      exact ⟨.refl, hmem.1, (by simpa using hmem.2 : _ ∧ _).1⟩
    · have htarget : d.batch.targetSessionId = req.targetSessionId := by rw [hnew]; rfl
      have hrequest : d.batch.requestId = req.requestId := by rw [hnew]; rfl
      have hc := Change.openRead d.batch ⟨uuid, by rw [hnew]; rfl⟩ hfresh (by rw [htarget, hrequest]; exact hb)
      rw [ho]
      exact ⟨.single hc, by simp, htarget⟩
  obtain ⟨hchanges, hmem, htarget⟩ := hopen
  rcases d.page_eq with ⟨_, hdb, _⟩ | ⟨hfresh, hpage, _⟩
  · rw [hdb]
    exact hchanges
  · obtain ⟨messages, hfirst⟩ := firstPage_ok hpage
    apply hchanges.tail
    exact .firstPage _ d.batch d.afterSeq d.pageLimit req.now d.row db' messages hmem htarget.symm
      (by rw [d.batch_source]) hfresh hfirst

/-- A wake operation works on the wake table alone. -/
structure WakesOnly (db db' : Ledger) : Prop where
  envelopes : db'.envelopes = db.envelopes
  messages : db'.messages = db.messages
  reads : db'.reads = db.reads
  pages : db'.pages = db.pages
  sequence : db'.sequence = db.sequence
  deletedIds : db'.deletedIds = db.deletedIds

theorem WakesOnly.change (h : WakesOnly db db') : Change db db' :=
  .frame h.messages h.reads h.pages h.deletedIds (EnvelopesKept.same h.envelopes)
    (Nat.le_of_eq h.sequence.symm) (Or.inl h.sequence)

theorem upsertWake_only (db : Ledger) (target : String) (fresh : WakeRow) (change : WakeRow → WakeRow) :
    WakesOnly db (upsertWake db target fresh change) := by
  unfold upsertWake
  split <;> exact ⟨rfl, rfl, rfl, rfl, rfl, rfl⟩

variable [CharacterTables]

theorem claimWake_only {target : String} {allowed : List String} {now : IsoTime} {uuid : UuidHex}
    {out : Option WakeRow} (h : claimWake db target allowed now uuid = .ok (out, db')) :
    WakesOnly db db' := by
  simp only [claimWake, bind_eq_ok] at h
  obtain ⟨scope, _, h⟩ := h
  split at h
  · simp only [pure_eq_ok, Prod.mk.injEq] at h
    obtain ⟨_, rfl⟩ := h
    exact ⟨rfl, rfl, rfl, rfl, rfl, rfl⟩
  · split at h
    · simp only [pure_eq_ok, Prod.mk.injEq] at h
      obtain ⟨_, rfl⟩ := h
      exact ⟨rfl, rfl, rfl, rfl, rfl, rfl⟩
    · simp only [bind_eq_ok, require_eq_ok, pure_eq_ok, Prod.mk.injEq] at h
      obtain ⟨_, _, _, rfl⟩ := h
      have hu := upsertWake_only { db with
        issuedClaims := ("mailwake_" ++ uuid.text) :: db.issuedClaims } target
      exact ⟨(hu _ _).envelopes, (hu _ _).messages, (hu _ _).reads, (hu _ _).pages,
        (hu _ _).sequence, (hu _ _).deletedIds⟩

theorem admitWake_only {target claimId runId : String} {allowed : List String} {now : IsoTime}
    {b : Bool} (h : admitWake db target claimId runId allowed now = .ok (b, db')) :
    WakesOnly db db' := by
  simp only [admitWake, bind_eq_ok] at h
  obtain ⟨_, _, _, _, _, _, h⟩ := h
  split at h
  · simp only [pure_eq_ok, Prod.mk.injEq] at h
    obtain ⟨_, rfl⟩ := h
    exact ⟨rfl, rfl, rfl, rfl, rfl, rfl⟩
  · split at h <;> simp only [pure_eq_ok, Prod.mk.injEq] at h <;> obtain ⟨_, rfl⟩ := h <;>
      exact ⟨rfl, rfl, rfl, rfl, rfl, rfl⟩

theorem releaseWake_only {target claimId : String} {b : Bool}
    (h : releaseWake db target claimId = .ok (b, db')) : WakesOnly db db' := by
  simp only [releaseWake, bind_eq_ok, pure_eq_ok, Prod.mk.injEq] at h
  obtain ⟨_, _, _, _, _, rfl⟩ := h
  exact ⟨rfl, rfl, rfl, rfl, rfl, rfl⟩

theorem suppressWake_only {target : String} {now : IsoTime} {n : Nat}
    (h : suppressWake db target now = .ok (n, db')) : WakesOnly db db' := by
  simp only [suppressWake, bind_eq_ok, pure_eq_ok, Prod.mk.injEq] at h
  obtain ⟨t, _, _, rfl⟩ := h
  have hu := upsertWake_only db t
  exact ⟨(hu _ _).envelopes, (hu _ _).messages, (hu _ _).reads, (hu _ _).pages,
    (hu _ _).sequence, (hu _ _).deletedIds⟩

/-- A committed call is a sequence of changes. -/
theorem perform_changes {action : Action} {answer : Answer}
    (h : perform db action = .ok (answer, db')) : ReflTransGen Change db db' := by
  cases action with
  | putEnvelope e =>
      obtain ⟨⟨_, _⟩, hr, rfl, rfl⟩ := map_eq_ok.mp h
      obtain ⟨hnew, hlive, rfl⟩ := putEnvelope_ok hr
      apply ReflTransGen.single
      refine .frame rfl rfl rfl rfl ⟨?_, ?_⟩ (Nat.le_refl _) (Or.inl rfl)
      · intro new hmem
        rcases List.mem_cons.mp hmem with rfl | hold
        · exact Or.inr hlive
        · exact Or.inl ⟨new, (List.mem_filter.mp hold).1, rfl⟩
      · intro m hm
        rw [envelope?_put rfl (Tables.find_eq_none.mp hnew m hm)]
  | deleteEnvelope id =>
      cases h
      exact .single (.delete id)
  | setLifecycle id lifecycleStatus now =>
      cases h
      apply ReflTransGen.single
      refine .frame rfl rfl rfl rfl (EnvelopesKept.map ?_ ?_ rfl) (Nat.le_refl _) (Or.inl rfl)
      · intro e
        split <;> rfl
      · intro e
        split <;> rfl
  | storeMessage messageId now inReplyTo skip =>
      obtain ⟨⟨msg, _⟩, hr, _, rfl⟩ := map_eq_ok.mp h
      obtain ⟨record, row, hrec, _, _, hfits, _, hbound, hcase⟩ := storeMessage_ok hr
      apply ReflTransGen.single
      rcases hcase with ⟨_, rfl⟩ | ⟨hnone, rfl, rfl⟩
      · exact .frame rfl rfl rfl rfl (EnvelopesKept.same rfl) (by simp)
          (Or.inr (Nat.le_of_succ_le hbound))
      · have hid := envelope?_id hrec
        refine .store (newRow record now (db.sequence + skip + 1)) ?_ record ?_ hfits ?_ hbound
          rfl rfl
        · simpa [newRow, hid] using hnone
        · simpa [newRow, hid] using hrec
        · simp only [newRow]
          omega
  | readSender req uuid =>
      obtain ⟨⟨reply, _⟩, hr, _, rfl⟩ := map_eq_ok.mp h
      obtain ⟨d⟩ := readSender_ok hr
      exact readSender_changes d
  | cancelMessage messageId now =>
      obtain ⟨⟨b, _⟩, hr, _, rfl⟩ := map_eq_ok.mp h
      rcases cancelMessage_ok hr with ⟨_, rfl⟩ | ⟨_, _, rfl⟩
      · exact .refl
      · apply ReflTransGen.single
        refine .update (fun m => m.messageId = messageId)
          (fun m => { m with excludedAt := some now.text, excludedReason := some "cancelled" })
          (fun _ => ⟨rfl, rfl, rfl, rfl, rfl, rfl, rfl, rfl, rfl, fun _ => rfl⟩) rfl rfl rfl rfl
          (EnvelopesKept.map ?_ ?_ rfl) rfl
        · intro e
          split <;> rfl
        · intro e
          split <;> rfl
  | excludeMessage messageId target reason now =>
      obtain ⟨⟨b, _⟩, hr, _, rfl⟩ := map_eq_ok.mp h
      rw [excludeMessage_ok hr]
      exact .single (exclude_change db _ reason now)
  | excludePair pairId now =>
      obtain ⟨⟨n, _⟩, hr, _, rfl⟩ := map_eq_ok.mp h
      rw [excludePair_ok hr]
      exact .single (exclude_change db _ .revoked now)
  | excludeSession sessionId now =>
      obtain ⟨⟨n, _⟩, hr, _, rfl⟩ := map_eq_ok.mp h
      rw [excludeSession_ok hr]
      exact .single (exclude_change db _ .deleted now)
  | markReadEventPublished messageId =>
      obtain ⟨⟨b, _⟩, hr, _, rfl⟩ := map_eq_ok.mp h
      rw [markReadEventPublished_ok hr]
      apply ReflTransGen.single
      exact .update _ (fun m => { m with readEventPublished := true })
        (fun _ => ⟨rfl, rfl, rfl, rfl, rfl, rfl, rfl, rfl, rfl, id⟩) rfl rfl rfl rfl (EnvelopesKept.same rfl) rfl
  | claimWake target allowed now uuid =>
      obtain ⟨⟨out, _⟩, hr, _, rfl⟩ := map_eq_ok.mp h
      exact .single (claimWake_only hr).change
  | admitWake target claimId runId allowed now =>
      obtain ⟨⟨b, _⟩, hr, _, rfl⟩ := map_eq_ok.mp h
      exact .single (admitWake_only hr).change
  | releaseWake target claimId =>
      obtain ⟨⟨b, _⟩, hr, _, rfl⟩ := map_eq_ok.mp h
      exact .single (releaseWake_only hr).change
  | suppressWake target now =>
      obtain ⟨⟨n, _⟩, hr, _, rfl⟩ := map_eq_ok.mp h
      exact .single (suppressWake_only hr).change
  | recoverWakes =>
      cases h
      exact .single (WakesOnly.change ⟨rfl, rfl, rfl, rfl, rfl, rfl⟩)

theorem step_changes (db : Ledger) (action : Action) :
    ReflTransGen Change db (step db action).1 :=
  atomically_keep (P := fun db' => ReflTransGen Change db db') .refl
    fun _ _ h => perform_changes h

/-- Every run is a sequence of changes. -/
theorem run_changes (db : Ledger) (actions : List Action) :
    ReflTransGen Change db (run step db actions) :=
  run_related step (I := fun _ => True) (fun _ _ _ => trivial) (fun _ => .refl)
    (fun _ _ _ h h' => h.trans h') (fun s a _ => step_changes s a) db trivial actions

end AgentsServer.Mailbox

import AgentsServer.Mailbox.Invariant

/-!
# A message is read at most once

Receipts never change, cancelled mail never reaches a page, and the three
tables agree after every run.
-/

namespace AgentsServer.Mailbox

open Library Library.Runs Relation

variable {db db' : Ledger}

theorem Known.change {id : String} (hk : Known db id) (hc : Change db db') :
    Known db' id := by
  -- A change that maps the messages under `g` keeps the row.
  have mapped : ∀ g : MailRow → MailRow, (∀ m, (g m).messageId = m.messageId) →
      db'.messages = db.messages.map g → db'.deletedIds = db.deletedIds → Known db' id := by
    intro g hg hm hd
    rcases hk with ⟨m, hmem, he⟩ | hdel
    · exact Or.inl ⟨g m, hm ▸ List.mem_map_of_mem hmem, by rw [hg, he]⟩
    · exact Or.inr (hd ▸ hdel)
  cases hc with
  | keep g _ row messages _ _ deleted _ _ _ =>
      exact mapped g (fun m => (row m).messageId) messages deleted
  | store row _ _ _ _ _ _ _ _ =>
      rcases hk with ⟨m, hm, he⟩ | hd
      · exact Or.inl ⟨m, List.mem_append_left _ hm, he⟩
      · exact Or.inr hd
  | delete i =>
      rcases hk with ⟨m, hm, he⟩ | hd
      · by_cases hmi : m.messageId = i
        · exact Or.inr (by simp [deleteEnvelope, ← he, hmi])
        · exact Or.inl ⟨m, by simp [deleteEnvelope, hm, hmi], he⟩
      · exact Or.inr (List.mem_cons_of_mem _ hd)
  | openRead batch _ _ _ => exact hk
  | firstPage _ batch _ _ now row _ _ _ _ _ _ page =>
      exact mapped _ (fun m => (markRead_identity row.messageIds batch now m).1)
        (by rw [page.ledger]; rfl) (by rw [page.ledger])

/-- Every surviving row of a message carries this receipt. -/
structure HasReceipt (id : String) (readId readAt : Option String) (db : Ledger) : Prop where
  known : Known db id
  isRead : readAt.isSome = true
  rows : ∀ m ∈ db.messages, m.messageId = id → m.readId = readId ∧ m.readAt = readAt

theorem HasReceipt.change {id : String} {readId readAt : Option String} (h : Inv db)
    (hr : HasReceipt id readId readAt db) (hc : Change db db') : HasReceipt id readId readAt db' := by
  refine ⟨hr.known.change hc, hr.isRead, ?_⟩
  intro m' hm' he
  cases hc with
  | keep g _ row messages _ _ _ _ _ _ =>
      rw [messages] at hm'
      obtain ⟨m, hm, rfl⟩ := List.mem_map.mp hm'
      rw [(row m).messageId] at he
      rw [(row m).readId, (row m).readAt]
      exact hr.rows m hm he
  | store row fresh _ envelope _ _ _ _ _ =>
      rcases List.mem_append.mp hm' with hold | hnew
      · exact hr.rows m' hold he
      · rw [List.mem_singleton.mp hnew] at he
        exact absurd he (hr.known.store_ne h fresh envelope)
  | delete i =>
      exact hr.rows m' (List.mem_filter.mp hm').1 he
  | openRead batch _ _ _ => exact hr.rows m' hm' he
  | firstPage _ batch _ _ now row _ _ _ _ _ _ page =>
      rw [page.ledger] at hm'
      obtain ⟨m, hm, rfl⟩ := List.mem_map.mp hm'
      have hid := (markRead_identity row.messageIds batch now m).1
      have hrow := hr.rows m hm (hid.symm.trans he)
      have hsome : m.readAt.isSome = true := by
        rw [hrow.2]
        exact hr.isRead
      have hsame := markRead_read row.messageIds batch now hsome
      simp only [markRead] at hsame
      rw [hsame]
      exact hrow

/-- The message is on no page and can reach none. -/
structure NeverRead (id : String) (db : Ledger) : Prop where
  known : Known db id
  unpaged : id ∉ db.pageIds
  rows : ∀ m ∈ db.messages, m.messageId = id → m.excludedAt.isSome = true

theorem NeverRead.change {id : String} (h : Inv db) (hn : NeverRead id db) (hc : Change db db') :
    NeverRead id db' := by
  refine ⟨hn.known.change hc, ?_, ?_⟩
  · cases hc with
    | keep g _ row _ _ pages _ _ _ _ =>
        rw [Ledger.pageIds, pages]
        exact hn.unpaged
    | store row _ _ _ _ _ _ _ _ => exact hn.unpaged
    | delete i => exact hn.unpaged
    | openRead batch _ _ _ => exact hn.unpaged
    | firstPage _ batch _ _ now row _ _ _ _ _ _ page =>
        obtain ⟨rows, ⟨k, hrows⟩, hids, _, _, _⟩ := page.rows
        intro hid
        rw [Ledger.pageIds, page.ledger, List.flatMap_append, List.mem_append] at hid
        rcases hid with hold | hnew
        · exact hn.unpaged hold
        · simp only [List.flatMap_cons, List.flatMap_nil, List.append_nil, hids] at hnew
          obtain ⟨r, hr, he⟩ := List.mem_map.mp hnew
          rw [hrows] at hr
          have hs := selected_of_mem (List.mem_of_mem_take hr)
          have hx := hn.rows r.1 hs.stored he
          rw [valid_unexcluded (admits_iff.mp hs.admitted).1] at hx
          cases hx
  · intro m' hm' he
    cases hc with
    | keep g _ row messages _ _ _ _ _ _ =>
        rw [messages] at hm'
        obtain ⟨m, hm, rfl⟩ := List.mem_map.mp hm'
        rw [(row m).messageId] at he
        exact (row m).excluded (hn.rows m hm he)
    | store row fresh _ envelope _ _ _ _ _ =>
        rcases List.mem_append.mp hm' with hold | hnew
        · exact hn.rows m' hold he
        · rw [List.mem_singleton.mp hnew] at he
          exact absurd he (hn.known.store_ne h fresh envelope)
    | delete i => exact hn.rows m' (List.mem_filter.mp hm').1 he
    | openRead batch _ _ _ => exact hn.rows m' hm' he
    | firstPage _ batch _ _ now row _ _ _ _ _ _ page =>
        rw [page.ledger] at hm'
        obtain ⟨m, hm, rfl⟩ := List.mem_map.mp hm'
        have hid := (markRead_identity row.messageIds batch now m).1
        have hx := hn.rows m hm (hid.symm.trans he)
        split
        · exact hx
        · exact hx

/-- What every change keeps, a run keeps. -/
theorem keep_changes {P : Ledger → Prop}
    (keep : ∀ db db', Inv db → P db → Change db db' → P db') (h : Inv db) (hp : P db)
    (hc : ReflTransGen Change db db') : P db' := by
  have both : Inv db' ∧ P db' := by
    induction hc with
    | refl => exact ⟨h, hp⟩
    | tail _ hc ih => exact ⟨ih.1.change hc, keep _ _ ih.1 ih.2 hc⟩
  exact both.2

variable [CharacterTables]

theorem after_append (pre post : List Action) :
    after (pre ++ post) = run step (after pre) post :=
  run_append step Ledger.empty pre post

/-- A true answer of `cancelMessage` leaves the message unread for good. -/
theorem cancelMessage_neverRead (h : Inv db) {id : String} {now : IsoTime}
    (hok : (step db (.cancelMessage id now)).2 = .ok (.flag true)) :
    NeverRead id (step db (.cancelMessage id now)).1 := by
  obtain ⟨db', hp, hs⟩ := atomically_eq_ok hok
  obtain ⟨⟨b, db₁⟩, hr, hb⟩ := map_eq_ok.mp hp
  simp only [Prod.mk.injEq, Answer.flag.injEq] at hb
  obtain ⟨rfl, rfl⟩ := hb
  have hstep : (step db (.cancelMessage id now)).1 = db₁ := hs
  rw [hstep]
  rcases cancelMessage_ok hr with ⟨hf, _⟩ | ⟨_, ⟨m, e, hj, hid, _, _, hunread⟩, rfl⟩
  · cases hf
  · have hm := (mem_join.mp hj).1
    refine ⟨?_, ?_, ?_⟩
    · refine Or.inl ⟨_, List.mem_map_of_mem hm, ?_⟩
      rw [if_pos hid]
      exact hid
    · intro hpage
      have hread := (h.readAt_iff hm).mpr (by rw [hid]; exact hpage)
      rw [hunread] at hread
      cases hread
    · intro m' hm' he
      obtain ⟨m₀, _, rfl⟩ := List.mem_map.mp hm'
      by_cases hc : m₀.messageId = id
      · rw [if_pos hc]
        rfl
      · rw [if_neg hc] at he
        exact absurd he hc

/-- After every run: a message id is on at most one page; a stored message has a
receipt exactly when it is on a page, and it is that page's; receipts never
change; and cancelled mail is on no page. -/
theorem read_at_most_once (actions : List Action) :
    ((after actions).pages.flatMap PageRow.messageIds).Nodup ∧
    (∀ m ∈ (after actions).messages, m.readAt.isSome = true ↔
      ∃ p ∈ (after actions).pages, m.messageId ∈ p.messageIds) ∧
    (∀ p ∈ (after actions).pages, ∀ m ∈ (after actions).messages,
      m.messageId ∈ p.messageIds → OnPage (after actions) m p) ∧
    (∀ pre post, actions = pre ++ post →
      ∀ m ∈ (after pre).messages, m.readAt.isSome = true ∨ m.readId.isSome = true →
        ∀ m' ∈ (after actions).messages, m'.messageId = m.messageId →
          m'.readAt = m.readAt ∧ m'.readId = m.readId) ∧
    (∀ pre id now post, actions = pre ++ .cancelMessage id now :: post →
      (step (after pre) (.cancelMessage id now)).2 = .ok (.flag true) →
        ∀ p ∈ (after actions).pages, id ∉ p.messageIds) := by
  have h := inv_after actions
  refine ⟨h.pageIds, ?_, h.receipts, ?_, ?_⟩
  · intro m hm
    rw [h.readAt_iff hm, mem_pageIds]
  · rintro pre post rfl m hm hset m' hm' he
    have hpre := inv_after pre
    have hread : m.readAt.isSome = true := by
      rcases hset with hat | hid
      · exact hat
      · cases hat : m.readAt with
        | some _ => rfl
        | none =>
            rw [hpre.unread m hm hat] at hid
            cases hid
    have hr : HasReceipt m.messageId m.readId m.readAt (after pre) := by
      refine ⟨Or.inl ⟨m, hm, rfl⟩, hread, ?_⟩
      intro m₁ hm₁ he₁
      rw [hpre.same_row hm₁ hm he₁]
      exact ⟨rfl, rfl⟩
    have hlast := keep_changes (fun _ _ hi hp hc => HasReceipt.change hi hp hc) hpre hr
      (run_changes (after pre) post)
    rw [← after_append] at hlast
    exact (hlast.rows m' hm' he).symm
  · rintro pre id now post rfl hok p hp hid
    have hpre := inv_after pre
    have hn := cancelMessage_neverRead hpre hok
    have hlast := keep_changes (fun _ _ hi hp hc => NeverRead.change hi hp hc) (hpre.step _) hn
      (run_changes _ post)
    rw [after_append] at hp
    exact hlast.unpaged (mem_pageIds.mpr ⟨p, hp, hid⟩)

end AgentsServer.Mailbox

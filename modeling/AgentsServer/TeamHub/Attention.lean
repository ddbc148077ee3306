import AgentsServer.TeamHub.Replay

/-!
# Attention as a compare-and-set

One copy of a message goes through receipts, attention changes and dismissals by
any number of clients. Its version counts the attention changes, so two reads of
one version agree on the attention, except before the first change, when the
receipt decides it and may turn unread into read.
-/

namespace AgentsServer.TeamHub

open Library

/-! ## One copy -/

/-- The receipt of a later state: the state moves on, and a time that is set stays. -/
def Receipt.Reaches : Receipt → Receipt → Prop
  | .available, _ => True
  | .delivered t, .delivered t' | .delivered t, .read t' _ => t' = t
  | .read t u, .read t' u' => t' = t ∧ u' = u
  | _, _ => False

theorem Receipt.Reaches.refl (a : Receipt) : a.Reaches a := by
  cases a with
  | available => trivial
  | delivered => rfl
  | read => exact ⟨rfl, rfl⟩

theorem Receipt.Reaches.trans {a b c : Receipt} (hab : a.Reaches b) (hbc : b.Reaches c) :
    a.Reaches c := by
  cases a <;> cases b <;> cases c <;> simp_all [Reaches]

theorem Receipt.markRead_reaches (a : Receipt) (timestamp : Nat) :
    a.Reaches (a.markRead timestamp) := by
  cases a with
  | available => trivial
  | delivered => rfl
  | read => exact ⟨rfl, rfl⟩

theorem Receipt.record_reaches (a : Receipt) (isRead : Bool) (timestamp : Nat) :
    a.Reaches (a.record isRead timestamp) := by
  unfold record
  split
  · exact markRead_reaches a timestamp
  · cases a with
    | available => trivial
    | delivered => rfl
    | read => exact ⟨rfl, rfl⟩

/-- A receipt that was read stays read. -/
theorem Receipt.Reaches.isRead {a b : Receipt} (h : a.Reaches b) (ha : a.isRead = true) :
    b.isRead = true := by
  cases a <;> cases b <;> simp_all [Reaches, Receipt.isRead]

namespace RecipientRow

/-- How one copy goes on: an attention change is counted, and nothing else
changes the override. -/
structure Advances (a b : RecipientRow) : Prop where
  id : b.id = a.id
  team : b.teamId = a.teamId
  message : b.messageId = a.messageId
  recipient : b.recipient = a.recipient
  receipt : a.receipt.Reaches b.receipt
  version : a.mailboxStateVersion ≤ b.mailboxStateVersion
  override : b.mailboxStateVersion = a.mailboxStateVersion → b.inboxUnread = a.inboxUnread

variable {a b c : RecipientRow}

theorem Advances.refl (a : RecipientRow) : a.Advances a where
  id := rfl
  team := rfl
  message := rfl
  recipient := rfl
  receipt := .refl _
  version := Nat.le_refl _
  override _ := rfl

theorem Advances.trans (hab : a.Advances b) (hbc : b.Advances c) : a.Advances c where
  id := hbc.id.trans hab.id
  team := hbc.team.trans hab.team
  message := hbc.message.trans hab.message
  recipient := hbc.recipient.trans hab.recipient
  receipt := hab.receipt.trans hbc.receipt
  version := hab.version.trans hbc.version
  override hv := by
    have hab' := hab.version
    have hbc' := hbc.version
    exact (hbc.override (by omega)).trans (hab.override (by omega))

theorem dismiss_advances (a : RecipientRow) (timestamp : Nat) :
    a.Advances (a.dismiss timestamp) :=
  { Advances.refl a with }

theorem setUnread_advances (a : RecipientRow) (unread : Bool) (timestamp : Nat) :
    a.Advances (a.setUnread unread timestamp) where
  id := rfl
  team := rfl
  message := rfl
  recipient := rfl
  receipt := by
    unfold setUnread
    split
    · exact .refl _
    · exact Receipt.markRead_reaches _ _
  version := Nat.le_succ _
  override hv := by
    change a.mailboxStateVersion + 1 = a.mailboxStateVersion at hv
    omega

theorem record_advances (a : RecipientRow) (isRead : Bool) (timestamp : Nat) :
    a.Advances (a.record isRead timestamp) :=
  { Advances.refl a with receipt := Receipt.record_reaches _ _ _ }

/-- The override is set exactly when a change was counted. -/
def Counted (a : RecipientRow) : Prop :=
  a.inboxUnread.isSome = true ↔ 0 < a.mailboxStateVersion

theorem setUnread_counted (a : RecipientRow) (unread : Bool) (timestamp : Nat) :
    (a.setUnread unread timestamp).Counted := by
  simp [Counted, setUnread]

/-- Two reads of one copy agree on the attention, or no change was counted yet
and a receipt turned unread into read. -/
def Agrees (a b : RecipientRow) : Prop :=
  b.unread = a.unread ∨
    (a.mailboxStateVersion = 0 ∧ a.unread = true ∧ b.unread = false ∧
      a.receipt.isRead = false ∧ b.receipt.isRead = true)

theorem Advances.agrees (hab : a.Advances b) (ha : a.Counted)
    (hv : b.mailboxStateVersion = a.mailboxStateVersion) : a.Agrees b := by
  have hoverride := hab.override hv
  cases hunread : a.inboxUnread with
  | some unread =>
      left
      rw [unread_def, unread_def, hoverride, hunread]
      rfl
  | none =>
      have hzero : a.mailboxStateVersion = 0 := by
        by_contra hne
        have hset := ha.mpr (Nat.pos_of_ne_zero hne)
        rw [hunread] at hset
        cases hset
      have hua : a.unread = !a.receipt.isRead := by rw [unread_def, hunread]; rfl
      have hub : b.unread = !b.receipt.isRead := by rw [unread_def, hoverride, hunread]; rfl
      cases hra : a.receipt.isRead with
      | true =>
          left
          rw [hua, hub, hra, hab.receipt.isRead hra]
      | false =>
          cases hrb : b.receipt.isRead with
          | true => exact Or.inr ⟨hzero, by rw [hua, hra]; rfl, by rw [hub, hrb]; rfl, hra, hrb⟩
          | false =>
              left
              rw [hua, hub, hra, hrb]
where
  unread_def (r : RecipientRow) : r.unread = r.inboxUnread.getD (!r.receipt.isRead) := rfl

end RecipientRow

/-! ## All copies -/

section Hub

variable [Sha256] [UnicodeTables] [Conversions] {h t u : Hub} {call : Call}
  {publications : List Publication}

/-- Copies have distinct ids and count their attention changes. -/
structure Hub.CopiesSound (h : Hub) : Prop where
  unique : (h.recipients.map RecipientRow.id).Nodup
  counted : ∀ r ∈ h.recipients, r.Counted

/-- Every copy goes on in the later state. -/
def CopiesAdvance (h t : Hub) : Prop :=
  ∀ a ∈ h.recipients, ∃ b ∈ t.recipients, a.Advances b

omit [Sha256] [UnicodeTables] [Conversions] in
theorem CopiesAdvance.refl (h : Hub) : CopiesAdvance h h :=
  fun a ha => ⟨a, ha, .refl a⟩

omit [Sha256] [UnicodeTables] [Conversions] in
theorem CopiesAdvance.trans (hu : CopiesAdvance h u) (ht : CopiesAdvance u t) :
    CopiesAdvance h t := by
  intro a ha
  obtain ⟨b, hb, hab⟩ := hu a ha
  obtain ⟨c, hc, hbc⟩ := ht b hb
  exact ⟨c, hc, hab.trans hbc⟩

omit [Sha256] [UnicodeTables] [Conversions] in
/-- An update of one copy by a step that keeps its identity and its count. -/
theorem updateRecipient_copies {id : String} {f : RecipientRow → RecipientRow}
    (advances : ∀ r : RecipientRow, r.Advances (f r))
    (counts : ∀ r : RecipientRow, r.Counted → (f r).Counted)
    (hs : h.CopiesSound) :
    (h.updateRecipient id f).CopiesSound ∧ CopiesAdvance h (h.updateRecipient id f) := by
  refine ⟨⟨?_, ?_⟩, ?_⟩
  · have hids : (h.updateRecipient id f).recipients.map RecipientRow.id =
        h.recipients.map RecipientRow.id := by
      apply Tables.map_keys
      intro r
      split
      · exact (advances r).id
      · rfl
    rw [hids]
    exact hs.unique
  · intro r hr
    obtain ⟨a, ha, rfl⟩ := List.mem_map.mp hr
    split
    · exact counts a (hs.counted a ha)
    · exact hs.counted a ha
  · intro a ha
    refine ⟨_, List.mem_map_of_mem ha, ?_⟩
    split
    · exact advances a
    · exact .refl a

omit [Sha256] [UnicodeTables] [Conversions] in
theorem recordReceipts_copies {rows : List RecipientRow} {isRead : Bool} {timestamp : Nat}
    (hs : h.CopiesSound) :
    (rows.foldl (fun h r => h.updateRecipient r.id (RecipientRow.record isRead timestamp))
        h).CopiesSound ∧
      CopiesAdvance h (rows.foldl (fun h r =>
        h.updateRecipient r.id (RecipientRow.record isRead timestamp)) h) := by
  induction rows generalizing h with
  | nil => exact ⟨hs, .refl h⟩
  | cons r rest ih =>
      have one : (h.updateRecipient r.id (RecipientRow.record isRead timestamp)).CopiesSound ∧
          CopiesAdvance h (h.updateRecipient r.id (RecipientRow.record isRead timestamp)) :=
        updateRecipient_copies (fun a => a.record_advances isRead timestamp) (fun _ hc => hc) hs
      have more := ih one.1
      exact ⟨more.1, one.2.trans more.2⟩

/-- The work of a call keeps the copies sound, and they all go on. -/
theorem Effect.copies (e : Effect h call publications t) (hs : h.CopiesSound) :
    t.CopiesSound ∧ CopiesAdvance h t := by
  cases e with
  | created _ _ work =>
      obtain ⟨rows, _, _, _, _, _, rfl, _, hnew, hout, hids, _⟩ := work.tables
      refine ⟨⟨?_, ?_⟩, ?_⟩
      · rw [List.map_append, List.nodup_append]
        refine ⟨hs.unique, hids, ?_⟩
        intro i hi j hj he
        obtain ⟨r, hr, rfl⟩ := List.mem_map.mp hi
        obtain ⟨row, hrow, rfl⟩ := List.mem_map.mp hj
        exact (hout r hr row hrow).1 he
      · intro r hr
        rcases List.mem_append.mp hr with hr | hr
        · exact hs.counted r hr
        · have hrow := hnew r hr
          simp [RecipientRow.Counted, hrow.override, hrow.version]
      · intro a ha
        exact ⟨a, List.mem_append_left _ ha, .refl a⟩
  | revised _ _ work =>
      obtain ⟨_, _, rfl⟩ := Hub.insertRevision_eq_ok work.write
      exact ⟨⟨hs.unique, hs.counted⟩, .refl h⟩
  | deleted _ _ _ _ _ write =>
      obtain ⟨_, _, rfl⟩ := Hub.insertDeletion_eq_ok write
      exact ⟨⟨hs.unique, hs.counted⟩, .refl h⟩
  | deletedBefore => exact ⟨hs, .refl h⟩
  | dismissed =>
      exact updateRecipient_copies (fun r => r.dismiss_advances _) (fun _ hc => hc) hs
  | attended =>
      exact updateRecipient_copies (fun r => r.setUnread_advances _ _)
        (fun r _ => r.setUnread_counted _ _) hs
  | receipted => exact recordReceipts_copies hs
  | flagged => exact ⟨⟨hs.unique, hs.counted⟩, .refl h⟩

theorem step_copies (hs : h.CopiesSound) :
    (step h call).1.CopiesSound ∧ CopiesAdvance h (step h call).1 := by
  rcases step_cases h call with ⟨key, fp, reply, t, heq, _, hc⟩ | ⟨e, heq⟩
  · rw [heq]
    cases hc with
    | replayed => exact ⟨hs, .refl h⟩
    | fresh _ work =>
        obtain ⟨hsound, hadvance⟩ := work.copies hs
        exact ⟨⟨hsound.unique, hsound.counted⟩, hadvance⟩
  · rw [heq]
    exact ⟨hs, .refl h⟩

theorem run_copies (hs : h.CopiesSound) (calls : List Call) :
    (Runs.run step h calls).CopiesSound ∧ CopiesAdvance h (Runs.run step h calls) :=
  ⟨Runs.run_invariant step (I := Hub.CopiesSound) (fun _ _ hs => (step_copies hs).1) h hs calls,
    Runs.run_related step (I := Hub.CopiesSound) (fun _ _ hs => (step_copies hs).1)
      CopiesAdvance.refl
      (fun _ _ _ => CopiesAdvance.trans) (fun _ _ hs => (step_copies hs).2) h hs calls⟩

omit [Sha256] [UnicodeTables] [Conversions] in
theorem empty_copies : Hub.empty.CopiesSound where
  unique := List.nodup_nil
  counted _ hr := by cases hr

/-- A set call that is not a repetition counts one change of the copy that stood
at the version it named. -/
theorem set_changes_named_version {messageId : String} {fields : List (String × Json)}
    {reply : Reply} (operation : call.operation = .setMailboxState messageId fields)
    (hok : (step h call).2 = .ok reply) (hchange : (step h call).1 ≠ h) :
    ∃ a ∈ h.recipients, ∃ b ∈ (step h call).1.recipients,
      mailboxVersion? (get fields "expected_version") = some a.mailboxStateVersion ∧
      b.id = a.id ∧ b.mailboxStateVersion = a.mailboxStateVersion + 1 ∧
      (get fields "unread").bool? = some b.unread := by
  rcases step_cases h call with ⟨key, fp, reply', t, heq, _, hc⟩ | ⟨e, heq⟩
  · rw [heq] at hchange ⊢
    cases hc with
    | replayed => exact absurd rfl hchange
    | fresh _ work =>
        cases work with
        | attended op given row expected =>
            rw [operation] at op
            cases op
            have hmem := (List.mem_filter.mp ((List.mem_insertionSort _).mp row)).1
            refine ⟨_, hmem, _, List.mem_map_of_mem hmem, expected, ?_, ?_, ?_⟩
            · rw [if_pos rfl]
              rfl
            · rw [if_pos rfl]
              rfl
            · rw [if_pos rfl]
              exact given
        | created op | revised op | deleted op | deletedBefore op | dismissed op
        | receipted op | flagged op => rw [operation] at op; cases op
  · rw [heq] at hok
    cases hok

/-- Attention in every run: copies go on by `Advances`, two reads of one version
agree, a set call is decided on the version it names, and a repeated call has no
effect. -/
theorem attention_compare_and_set (before after : List Call) :
    let s := Runs.run step Hub.empty before
    let t := Runs.run step s after
    (∀ a ∈ s.recipients, ∃ b ∈ t.recipients, a.Advances b) ∧
    (∀ a ∈ s.recipients, ∀ b ∈ t.recipients, b.id = a.id →
      a.receipt.Reaches b.receipt ∧ a.mailboxStateVersion ≤ b.mailboxStateVersion ∧
        (b.mailboxStateVersion = a.mailboxStateVersion → a.Agrees b)) ∧
    (∀ call messageId fields reply, call.operation = .setMailboxState messageId fields →
      (step t call).2 = .ok reply → (step t call).1 ≠ t →
      ∃ b ∈ t.recipients, ∃ c ∈ (step t call).1.recipients,
        mailboxVersion? (get fields "expected_version") = some b.mailboxStateVersion ∧
        c.id = b.id ∧ c.mailboxStateVersion = b.mailboxStateVersion + 1 ∧
        (get fields "unread").bool? = some c.unread ∧
        ∀ a ∈ s.recipients, a.id = b.id → a.mailboxStateVersion = b.mailboxStateVersion →
          a.Agrees b) ∧
    ∀ first again reply, (step s first).2 = .ok reply → first.SameKey again →
      (step (Runs.run step (step s first).1 after) again).1 =
        Runs.run step (step s first).1 after := by
  intro s t
  have hs : s.CopiesSound := (run_copies empty_copies before).1
  obtain ⟨ht, hadvance⟩ := run_copies hs after
  have same : ∀ a ∈ s.recipients, ∀ b ∈ t.recipients, b.id = a.id → a.Advances b := by
    intro a ha b hb hid
    obtain ⟨c, hc, hac⟩ := hadvance a ha
    have heq : c = b := Tables.eq_of_key ht.unique hc hb (hac.id.trans hid.symm)
    rw [← heq]
    exact hac
  refine ⟨hadvance, ?_, ?_, ?_⟩
  · intro a ha b hb hid
    have hab := same a ha b hb hid
    exact ⟨hab.receipt, hab.version, hab.agrees (hs.counted a ha)⟩
  · intro call messageId fields reply operation hok hchange
    obtain ⟨b, hb, c, hc, hexpected, hid, hversion, hunread⟩ :=
      set_changes_named_version operation hok hchange
    refine ⟨b, hb, c, hc, hexpected, hid, hversion, hunread, ?_⟩
    intro a ha hab hv
    exact (same a ha b hb hab.symm).agrees (hs.counted a ha) hv.symm
  · intro first again reply hok hkey
    obtain ⟨key, fp, fp', hfirst, hagain, hk⟩ := hkey
    exact (repeated_call hok after hfirst hagain hk).1

end Hub

/-! ## A receipt before the first change -/

/-- A digest that tells nothing apart. -/
@[reducible] def zeroDigest : Sha256 where
  digest _ := List.replicate 32 0
  length_digest := Sha256.length_zeros

@[reducible] def sameCase : UnicodeTables where
  lower cs := cs

@[reducible] def noConversions : Conversions where
  str _ := ""
  int _ := none

def zeroToken : TokenHex where
  text := "00000000000000000000000000000000"
  hex := by decide

/-- The server `n` of the team `t`, alone in it. -/
def serverContext : Context where
  caller := {
    claims := { principalId := "p", authKind := .localAgentMail, teamId := some "t", scopes := [] }
    networkScope _ := .ok .automation
    networkNode := .ok "n"
    charge _ := .ok ()
    recorded := .ok () }
  directory := {
    principalName _ := none
    nodeName _ := none
    liveServers := ["n"]
    hasServer id := id == "n"
    hasMember _ := false
    mailRouteLifecycle _ := none }
  draws := ⟨zeroToken, fun _ => zeroToken, zeroToken, zeroToken, zeroToken, zeroToken, zeroToken,
    0, 0⟩
  timestamp := 10

def sendMail : Call where
  context := serverContext
  teamId := "t"
  operation := .create [("kind", .str "message"), ("body", .str "x"),
    ("idempotency_key", .str "send-mail"),
    ("recipients", .arr [.obj [("kind", .str "server"), ("id", .str "n")]])]

def readMail : Call where
  context := serverContext
  teamId := "t"
  operation := .recordReceipt "tmsg_00000000000000000000000000000000"
    [("state", .str "read"), ("idempotency_key", .str "read-mail")]

/-- Version 0 shows unread before a read receipt and read after it. -/
theorem not_same_version_same_unread :
    ¬ ∀ (_ : Sha256) (_ : UnicodeTables) (_ : Conversions)
      (before after : List Call),
      ∀ a ∈ (Runs.run step Hub.empty before).recipients,
      ∀ b ∈ (Runs.run step (Runs.run step Hub.empty before) after).recipients,
        b.id = a.id → b.mailboxStateVersion = a.mailboxStateVersion → b.unread = a.unread := by
  intro claim
  have one := claim zeroDigest sameCase noConversions [sendMail] [readMail]
  simp only [Runs.run_cons, Runs.run_nil, step, Call.body, sendMail, createTeamMessage,
    Hub.createNew, responseBytes_eq] at one
  revert one
  decide +kernel

end AgentsServer.TeamHub

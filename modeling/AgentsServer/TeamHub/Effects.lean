import AgentsServer.TeamHub.Machine

/-!
# What a call does

The transaction of a call answers a remembered request without an effect, or
does the work of a new one and remembers it. The work of each operation is one
case of `Effect`, with the guards that it passed. Everything else that is proved
about runs starts from these cases.
-/

namespace AgentsServer.TeamHub

open Library

variable [Sha256] [UnicodeTables] [Conversions]

/-- The name under which the requests of an operation are remembered. -/
def Operation.name : Operation → String
  | .create _ => "team.message.create"
  | .revise .. => "team.message.revise"
  | .delete .. => "team.message.delete"
  | .dismiss .. => "team.message.dismiss"
  | .setMailboxState .. => "team.message.mailbox_state"
  | .recordReceipt .. => "team.message.receipt"
  | .setSkillFlag flag _ _ => "team.skill." ++ flag.text

namespace Call

/-- The key of a call: team, principal, operation and the text in its request. -/
def requestKey (call : Call) (key : String) : RequestKey :=
  ⟨call.teamId, call.context.caller.claims.principalId, call.operation.name, key⟩

/-- The key and the fingerprint of a request, once its fields are checked. -/
def identity (call : Call) : Except Failure (String × Bytes) :=
  match call.operation with
  | .create fields => do
      let request ← createRequest fields
      return (request.idempotencyKey, request.fingerprint call.teamId)
  | .revise messageId fields _ => do
      let request ← reviseRequest fields
      return (request.idempotencyKey, canonicalFingerprint (request.json call.teamId messageId))
  | .delete messageId fields => do
      let key ← teamIdempotencyKey fields
      return (key, deletionFingerprint call.teamId messageId)
  | .dismiss messageId fields => do
      let key ← teamIdempotencyKey fields
      return (key, dismissalFingerprint messageId fields)
  | .setMailboxState messageId fields => do
      let request ← attentionRequest fields
      let key ← teamIdempotencyKey fields
      return (key, request.fingerprint messageId)
  | .recordReceipt messageId fields => do
      let request ← receiptRequest fields
      let key ← teamIdempotencyKey fields
      return (key, request.fingerprint call.teamId messageId)
  | .setSkillFlag flag skillId fields => do
      let value ← skillFlagValue flag fields
      let key ← teamIdempotencyKey fields
      return (key, skillFlagFingerprint call.teamId skillId flag value)

/-- A remembered answer as the call presents it. -/
def present (call : Call) (h : Hub) (stored : Json) : Json :=
  match call.operation with
  | .revise messageId _ includeMailSubject =>
      revisionResponseSubject h call.teamId messageId stored includeMailSubject
  | _ => stored

end Call

/-- The inserts of a new message. -/
structure Created (h : Hub) (call : Call) (request : CreateRequest) (m : MessageRow)
    (resolved : List Recipient) (attachments : List AttachmentRow) (t : Hub) : Prop where
  ordinal : m.ordinal = h.messageSequence + call.context.draws.messageSkip + 1
  id : m.id = newId "tmsg" call.context.draws.message
  team : m.teamId = call.teamId
  body : m.body = request.body
  skill : ∀ title details, request.content = .skill title details → resolved = [.all]
  select : request.attachmentIds.mapM
    (h.selectAttachment call.context.caller call.teamId call.context.timestamp) = .ok attachments
  writes : ∃ u v w,
    h.publishContent call.context.caller call.context.draws call.teamId call.context.timestamp
      request.content = .ok (m.content, u) ∧
    u.insertMessage m = .ok v ∧
    v.insertRecipients call.context.draws m resolved 0 = .ok w ∧
    (w.bindAttachments attachments m.id).insertVersionOf call.context.draws m
      call.context.timestamp request.content = .ok t

/-- The insert of a revision. -/
structure Revised (h : Hub) (call : Call) (request : ReviseRequest) (messageId : String)
    (m : MessageRow) (row : RevisionRow) (t : Hub) : Prop where
  live : h.liveMessage? call.teamId messageId = some m
  isMessage : m.content.isMessage = true
  addressed : (h.recipientsOf call.teamId messageId).map RecipientRow.recipient = [.all]
  expected : request.expectedVersion = h.messageVersion call.teamId messageId
  team : row.teamId = call.teamId
  message : row.messageId = messageId
  version : row.version = h.messageVersion call.teamId messageId + 1
  body : row.body = request.body
  write : h.insertRevision call.context.draws row = .ok t

/-- The work of a new request, with what it publishes. -/
inductive Effect (h : Hub) (call : Call) : List Publication → Hub → Prop
  | created {fields : List (String × Json)} {request : CreateRequest} {m : MessageRow}
      {resolved : List Recipient} {attachments : List AttachmentRow} {t : Hub}
      (operation : call.operation = .create fields) (checked : createRequest fields = .ok request)
      (work : Created h call request m resolved attachments t) :
      Effect h call (Hub.mailPublications m resolved ++
        if .all ∈ resolved then [.bulletin call.teamId none] else []) t
  | revised {messageId : String} {fields : List (String × Json)} {subject : Bool}
      {request : ReviseRequest} {m : MessageRow} {row : RevisionRow} {t : Hub}
      (operation : call.operation = .revise messageId fields subject)
      (checked : reviseRequest fields = .ok request)
      (work : Revised h call request messageId m row t) :
      Effect h call [.bulletin call.teamId none] t
  | deleted {messageId : String} {fields : List (String × Json)} {m : MessageRow}
      {row : DeletionRow} {t : Hub} (operation : call.operation = .delete messageId fields)
      (found : h.message? call.teamId messageId = some m)
      (live : h.isDeleted call.teamId messageId = false)
      (team : row.teamId = call.teamId) (message : row.messageId = messageId)
      (write : h.insertDeletion call.context.draws row = .ok t) :
      Effect h call [.bulletin call.teamId (some messageId)] t
  | deletedBefore {messageId : String} {fields : List (String × Json)}
      (operation : call.operation = .delete messageId fields)
      (deleted : h.isDeleted call.teamId messageId = true) : Effect h call [] h
  | dismissed {messageId : String} {fields : List (String × Json)} {r : RecipientRow}
      (operation : call.operation = .dismiss messageId fields)
      (row : r ∈ h.recipientsOf call.teamId messageId) :
      Effect h call [] (h.updateRecipient r.id (RecipientRow.dismiss call.context.timestamp))
  | attended {messageId : String} {fields : List (String × Json)} {r : RecipientRow}
      {unread : Bool} (operation : call.operation = .setMailboxState messageId fields)
      (given : (get fields "unread").bool? = some unread)
      (row : r ∈ h.recipientsOf call.teamId messageId)
      (expected : mailboxVersion? (get fields "expected_version") = some r.mailboxStateVersion) :
      Effect h call [] (h.updateRecipient r.id
        (RecipientRow.setUnread unread call.context.timestamp))
  | receipted {messageId : String} {fields : List (String × Json)} {isRead : Bool}
      {rows : List RecipientRow} (operation : call.operation = .recordReceipt messageId fields)
      (row : ∀ r ∈ rows, r ∈ h.recipientsOf call.teamId messageId) :
      Effect h call [] (rows.foldl (fun h r => h.updateRecipient r.id
        (RecipientRow.record isRead call.context.timestamp)) h)
  | flagged {flag : SkillFlag} {skillId : String} {fields : List (String × Json)} {value : Bool}
      {s : SkillRow} (operation : call.operation = .setSkillFlag flag skillId fields)
      (row : s ∈ h.skills) (team : s.teamId = call.teamId) (id : s.id = skillId) :
      Effect h call [] (h.replaceSkill (s.setFlag flag value call.context.timestamp))

/-- A committed transaction under the key `k` with the fingerprint `fp`. -/
inductive Committed (h : Hub) (call : Call) (k : RequestKey) (fp : Bytes) : Reply → Hub → Prop
  | replayed {row : IdempotencyRow} (found : h.request? k = some row)
      (same : row.fingerprint = fp) :
      Committed h call k fp ⟨call.present h row.response, []⟩ h
  | fresh {u : Hub} {stored : Json} {publications : List Publication}
      (new : h.request? k = none) (work : Effect h call publications u) :
      Committed h call k fp ⟨call.present (u.remember k fp stored) stored, publications⟩
        (u.remember k fp stored)

/-! ## One case for each operation -/

section Operations

variable {h t : Hub} {call : Call} {reply : Reply} {response : Json} {key : String} {fp : Bytes}

omit [Sha256] [UnicodeTables] [Conversions] in
theorem integrityAsConflict_eq_ok {α : Type} {text : String} {x : Except Failure α} {a : α} :
    integrityAsConflict text x = .ok a ↔ x = .ok a := by
  unfold integrityAsConflict
  split
  · constructor <;> intro h <;> cases h
  · rfl

/-- A new request whose work is remembered is committed. -/
theorem Committed.of_work {u : Hub} {stored : Json} {publications : List Publication}
    (new : h.request? (call.requestKey key) = none) (work : Effect h call publications u)
    (stores : u.request? (call.requestKey key) = none ∧
      u.remember (call.requestKey key) fp stored = t)
    (answer : reply = ⟨call.present t stored, publications⟩) :
    Committed h call (call.requestKey key) fp reply t := by
  obtain ⟨_, rfl⟩ := stores
  rw [answer]
  exact .fresh new work

/-- A remembered request is answered from its row. -/
theorem Committed.of_row {row : IdempotencyRow}
    (found : h.request? (call.requestKey key) = some row) (same : row.fingerprint = fp)
    (state : h = t) (answer : reply = ⟨call.present h row.response, []⟩) :
    Committed h call (call.requestKey key) fp reply t := by
  rw [answer, ← state]
  exact .replayed found same

omit [Sha256] [UnicodeTables] [Conversions] in
theorem attentionRequest_eq_ok {fields : List (String × Json)} {request : AttentionRequest}
    (hr : attentionRequest fields = .ok request) :
    (get fields "unread").bool? = some request.unread ∧
      mailboxVersion? (get fields "expected_version") = some request.expectedVersion := by
  unfold attentionRequest at hr
  simp only [bind_eq_ok, require_eq_ok, required_eq_ok, pure_eq_ok] at hr
  obtain ⟨_, _, nodeId, _, unread, hunread, version, hversion, rfl⟩ := hr
  exact ⟨hunread, hversion⟩

theorem dismiss_committed {messageId : String} {fields : List (String × Json)}
    (operation : call.operation = .dismiss messageId fields)
    (hb : dismissTeamMessage h call.context.caller call.teamId messageId fields
      call.context.timestamp = .ok (response, t)) :
    ∃ key, teamIdempotencyKey fields = .ok key ∧ Committed h call (call.requestKey key)
      (dismissalFingerprint messageId fields) ⟨response, []⟩ t := by
  unfold dismissTeamMessage at hb
  simp only [bind_eq_ok, require_eq_ok, required_eq_ok] at hb
  obtain ⟨key, hkey, role, _, owned, _, address, _, _, _, found, hl, hb⟩ := hb
  have hk : call.requestKey key = ⟨call.teamId, call.context.caller.claims.principalId,
      "team.message.dismiss", key⟩ := by
    rw [Call.requestKey, operation]
    rfl
  have hp : ∀ u stored, call.present u stored = stored := by
    intro u stored
    rw [Call.present, operation]
  refine ⟨key, hkey, ?_⟩
  rw [← hk] at hl hb
  rcases Hub.idempotencyLookup_eq_ok hl with ⟨hnone, rfl⟩ | ⟨row, hrow, hfp, rfl⟩
  · simp only [bind_eq_ok, required_eq_ok, Hub.idempotencyStore_eq_ok, pure_eq_ok,
      Prod.mk.injEq] at hb
    obtain ⟨r, hr, _, stores, hanswer, hstate⟩ := hb
    rw [hstate] at stores
    exact .of_work hnone (.dismissed operation (List.mem_of_find?_eq_some hr)) stores
      (by rw [hp, hanswer])
  · simp only [pure_eq_ok, Prod.mk.injEq] at hb
    exact .of_row hrow hfp hb.2 (by rw [hp, hb.1])

theorem setMailboxState_committed {messageId : String} {fields : List (String × Json)}
    (operation : call.operation = .setMailboxState messageId fields)
    (hb : setTeamMessageMailboxState h call.context.caller call.context.directory call.teamId
      messageId fields call.context.timestamp = .ok (response, t)) :
    ∃ request key, attentionRequest fields = .ok request ∧ teamIdempotencyKey fields = .ok key ∧
      Committed h call (call.requestKey key) (request.fingerprint messageId) ⟨response, []⟩ t := by
  unfold setTeamMessageMailboxState at hb
  simp only [bind_eq_ok, require_eq_ok, required_eq_ok] at hb
  obtain ⟨request, hrequest, key, hkey, role, _, owned, _, _, _, m, _, r, hr, _, _, found, hl,
    hb⟩ := hb
  have hk : call.requestKey key = ⟨call.teamId, call.context.caller.claims.principalId,
      "team.message.mailbox_state", key⟩ := by
    rw [Call.requestKey, operation]
    rfl
  have hp : ∀ u stored, call.present u stored = stored := by
    intro u stored
    rw [Call.present, operation]
  refine ⟨request, key, hrequest, hkey, ?_⟩
  rw [← hk] at hl hb
  rcases Hub.idempotencyLookup_eq_ok hl with ⟨hnone, rfl⟩ | ⟨row, hrow, hfp, rfl⟩
  · simp only [bind_eq_ok, require_eq_ok, Hub.idempotencyStore_eq_ok, pure_eq_ok,
      Prod.mk.injEq] at hb
    obtain ⟨_, hversion, _, stores, _, _, hanswer, hstate⟩ := hb
    rw [hstate] at stores
    have hgiven := attentionRequest_eq_ok hrequest
    rw [← hversion] at hgiven
    exact .of_work hnone
      (.attended operation hgiven.1 (List.mem_of_find?_eq_some hr) hgiven.2) stores
      (by rw [hp, hanswer])
  · simp only [pure_eq_ok, Prod.mk.injEq] at hb
    exact .of_row hrow hfp hb.2 (by rw [hp, hb.1])

theorem recordReceipt_committed {messageId : String} {fields : List (String × Json)}
    (operation : call.operation = .recordReceipt messageId fields)
    (hb : recordTeamMessageReceipt h call.context.caller call.context.directory call.teamId
      messageId fields call.context.timestamp = .ok (response, t)) :
    ∃ request key, receiptRequest fields = .ok request ∧ teamIdempotencyKey fields = .ok key ∧
      Committed h call (call.requestKey key) (request.fingerprint call.teamId messageId)
        ⟨response, []⟩ t := by
  unfold recordTeamMessageReceipt at hb
  simp only [bind_eq_ok, require_eq_ok] at hb
  obtain ⟨request, hrequest, key, hkey, role, _, _, _, found, hl, hb⟩ := hb
  have hk : call.requestKey key = ⟨call.teamId, call.context.caller.claims.principalId,
      "team.message.receipt", key⟩ := by
    rw [Call.requestKey, operation]
    rfl
  have hp : ∀ u stored, call.present u stored = stored := by
    intro u stored
    rw [Call.present, operation]
  refine ⟨request, key, hrequest, hkey, ?_⟩
  rw [← hk] at hl hb
  rcases Hub.idempotencyLookup_eq_ok hl with ⟨hnone, rfl⟩ | ⟨row, hrow, hfp, rfl⟩
  · simp only [bind_eq_ok, require_eq_ok, Hub.idempotencyStore_eq_ok, pure_eq_ok,
      Prod.mk.injEq] at hb
    obtain ⟨owned, _, _, _, _, stores, _, _, hanswer, hstate⟩ := hb
    rw [hstate] at stores
    refine .of_work hnone (.receipted operation ?_) stores
      (by rw [hp, hanswer])
    intro r hr
    exact (List.mem_filter.mp hr).1
  · simp only [pure_eq_ok, Prod.mk.injEq] at hb
    exact .of_row hrow hfp hb.2 (by rw [hp, hb.1])

theorem setSkillFlag_committed {flag : SkillFlag} {skillId : String}
    {fields : List (String × Json)}
    (operation : call.operation = .setSkillFlag flag skillId fields)
    (hb : setTeamSkillFlag h call.context.caller call.context.directory flag call.teamId skillId
      fields call.context.timestamp = .ok (response, t)) :
    ∃ value key, skillFlagValue flag fields = .ok value ∧ teamIdempotencyKey fields = .ok key ∧
      Committed h call (call.requestKey key)
        (skillFlagFingerprint call.teamId skillId flag value) ⟨response, []⟩ t := by
  unfold setTeamSkillFlag at hb
  simp only [bind_eq_ok] at hb
  obtain ⟨value, hvalue, key, hkey, role, _, found, hl, hb⟩ := hb
  have hk : call.requestKey key = ⟨call.teamId, call.context.caller.claims.principalId,
      "team.skill." ++ flag.text, key⟩ := by
    rw [Call.requestKey, operation]
    rfl
  have hp : ∀ u stored, call.present u stored = stored := by
    intro u stored
    rw [Call.present, operation]
  refine ⟨value, key, hvalue, hkey, ?_⟩
  rw [← hk] at hl hb
  rcases Hub.idempotencyLookup_eq_ok hl with ⟨hnone, rfl⟩ | ⟨row, hrow, hfp, rfl⟩
  · simp only [bind_eq_ok, require_eq_ok, required_eq_ok, Hub.idempotencyStore_eq_ok, pure_eq_ok,
      Prod.mk.injEq] at hb
    obtain ⟨s, hs, _, _, _, _, _, _, _, stores, _, _, hanswer, hstate⟩ := hb
    rw [hstate] at stores
    have hrow := List.find?_some hs
    simp only [decide_eq_true_eq] at hrow
    exact .of_work hnone (.flagged operation (List.mem_of_find?_eq_some hs) hrow.1 hrow.2) stores
      (by rw [hp, hanswer])
  · simp only [pure_eq_ok, Prod.mk.injEq] at hb
    exact .of_row hrow hfp hb.2 (by rw [hp, hb.1])

theorem delete_committed {messageId : String} {fields : List (String × Json)}
    (operation : call.operation = .delete messageId fields)
    (hb : deleteTeamMessage h call.context.caller call.context.draws call.teamId messageId fields
      call.context.timestamp = .ok (reply, t)) :
    ∃ key, teamIdempotencyKey fields = .ok key ∧ Committed h call (call.requestKey key)
      (deletionFingerprint call.teamId messageId) reply t := by
  unfold deleteTeamMessage at hb
  simp only [bind_eq_ok] at hb
  obtain ⟨key, hkey, role, _, found, hl, hb⟩ := hb
  have hk : call.requestKey key = ⟨call.teamId, call.context.caller.claims.principalId,
      "team.message.delete", key⟩ := by
    rw [Call.requestKey, operation]
    rfl
  have hp : ∀ u stored, call.present u stored = stored := by
    intro u stored
    rw [Call.present, operation]
  refine ⟨key, hkey, ?_⟩
  rw [← hk] at hl hb
  rcases Hub.idempotencyLookup_eq_ok hl with ⟨hnone, rfl⟩ | ⟨row, hrow, hfp, rfl⟩
  · simp only [bind_eq_ok, required_eq_ok] at hb
    obtain ⟨m, hm, _, _, hb⟩ := hb
    split at hb
    · next hdeleted =>
        simp only [bind_eq_ok, Hub.idempotencyStore_eq_ok, pure_eq_ok, Prod.mk.injEq] at hb
        obtain ⟨_, stores, hanswer, hstate⟩ := hb
        rw [hstate] at stores
        exact .of_work hnone (.deletedBefore operation hdeleted) stores (by rw [hp, hanswer])
    · next hlive =>
        simp only [bind_eq_ok, Hub.idempotencyStore_eq_ok, pure_eq_ok, Prod.mk.injEq] at hb
        obtain ⟨u, hu, _, stores, _, _, hanswer, hstate⟩ := hb
        rw [hstate] at stores
        exact .of_work hnone
          (.deleted operation hm (Bool.eq_false_iff.mpr hlive) rfl rfl hu) stores
          (by rw [hp, hanswer])
  · simp only [pure_eq_ok, Prod.mk.injEq] at hb
    exact .of_row hrow hfp hb.2 (by rw [hp, hb.1])

theorem revise_committed {messageId : String} {fields : List (String × Json)} {subject : Bool}
    (operation : call.operation = .revise messageId fields subject)
    (hb : reviseTeamMessage h call.context.caller call.context.directory call.context.draws
      call.teamId messageId fields subject call.context.timestamp = .ok (reply, t)) :
    ∃ request, reviseRequest fields = .ok request ∧
      Committed h call (call.requestKey request.idempotencyKey)
        (canonicalFingerprint (request.json call.teamId messageId)) reply t := by
  unfold reviseTeamMessage at hb
  simp only [bind_eq_ok, integrityAsConflict_eq_ok] at hb
  obtain ⟨request, hrequest, _, _, found, hl, hb⟩ := hb
  have hk : call.requestKey request.idempotencyKey = ⟨call.teamId,
      call.context.caller.claims.principalId, "team.message.revise", request.idempotencyKey⟩ := by
    rw [Call.requestKey, operation]
    rfl
  have hp : ∀ u stored, call.present u stored =
      revisionResponseSubject u call.teamId messageId stored subject := by
    intro u stored
    rw [Call.present, operation]
  refine ⟨request, hrequest, ?_⟩
  rw [← hk] at hl hb
  rcases Hub.idempotencyLookup_eq_ok hl with ⟨hnone, rfl⟩ | ⟨row, hrow, hfp, rfl⟩
  · simp only [Hub.reviseNew, bind_eq_ok, require_eq_ok, required_eq_ok,
      Hub.idempotencyStore_eq_ok, pure_eq_ok, Prod.mk.injEq] at hb
    obtain ⟨m, hlive, _, hmessage, _, haddressed, _, _, _, _, _, hexpected, _, _, _, _, _, _, _,
      _, u, hu, _, stores, _, _, hanswer, hstate⟩ := hb
    rw [hstate] at stores hanswer
    refine .of_work hnone (.revised operation hrequest
      { live := hlive, isMessage := hmessage, addressed := haddressed, expected := hexpected
        team := rfl, message := rfl, version := rfl, body := rfl, write := hu }) stores ?_
    rw [hp, hanswer]
  · simp only [pure_eq_ok, Prod.mk.injEq] at hb
    exact .of_row hrow hfp hb.2 (by rw [hp, hb.1])

omit [Sha256] [UnicodeTables] [Conversions] in
/-- Publishing the content of a message writes skills only. -/
theorem publishContent_eq_ok {u : Hub} {caller : Caller} {draws : Draws} {teamId : String}
    {timestamp : Nat} {content : Content} {row : MessageContent}
    (hu : h.publishContent caller draws teamId timestamp content = .ok (row, u)) :
    u = { h with skills := u.skills } := by
  unfold Hub.publishContent at hu
  split at hu
  · cases hu
    rfl
  · simp only [bind_eq_ok, pure_eq_ok, Prod.mk.injEq] at hu
    obtain ⟨⟨⟨_, _⟩, _⟩, hs, _, rfl⟩ := hu
    unfold Hub.publishSkill at hs
    split at hs
    · simp only [bind_eq_ok, require_eq_ok, pure_eq_ok, Prod.mk.injEq] at hs
      obtain ⟨_, _, _, _, _, _, _, rfl⟩ := hs
      rfl
    · simp only [bind_eq_ok, require_eq_ok, pure_eq_ok, Prod.mk.injEq] at hs
      obtain ⟨_, _, _, _, _, _, _, _, _, rfl⟩ := hs
      rfl

theorem create_committed {fields : List (String × Json)}
    (operation : call.operation = .create fields)
    (hb : createTeamMessage h call.context.caller call.context.directory call.context.draws
      call.teamId fields call.context.timestamp = .ok (reply, t)) :
    ∃ request, createRequest fields = .ok request ∧
      Committed h call (call.requestKey request.idempotencyKey)
        (request.fingerprint call.teamId) reply t := by
  unfold createTeamMessage at hb
  simp only [bind_eq_ok, integrityAsConflict_eq_ok] at hb
  obtain ⟨request, hrequest, role, _, found, hl, hb⟩ := hb
  have hk : call.requestKey request.idempotencyKey = ⟨call.teamId,
      call.context.caller.claims.principalId, "team.message.create", request.idempotencyKey⟩ := by
    rw [Call.requestKey, operation]
    rfl
  have hp : ∀ u stored, call.present u stored = stored := by
    intro u stored
    rw [Call.present, operation]
  refine ⟨request, hrequest, ?_⟩
  rw [← hk] at hl hb
  rcases Hub.idempotencyLookup_eq_ok hl with ⟨hnone, rfl⟩ | ⟨row, hrow, hfp, rfl⟩
  · simp only [Hub.createNew, bind_eq_ok, require_eq_ok, Hub.idempotencyStore_eq_ok, pure_eq_ok,
      Prod.mk.injEq] at hb
    obtain ⟨sender, _, resolved, hresolved, _, _, attachments, hselect, _, _, _, _, ⟨content, u⟩, hu, v, hv,
      w, hw, x, hx, _, _, _, stores, _, _, hanswer, hstate⟩ := hb
    rw [hstate] at stores
    have hsequence : u.messageSequence = h.messageSequence := by
      rw [publishContent_eq_ok hu]
    have hall : ∀ title details, request.content = .skill title details →
        resolved.flatten = [.all] := by
      intro title details hskill
      rw [createRequest_skill hrequest hskill] at hresolved
      cases hresolved
      rfl
    refine .of_work hnone (.created operation hrequest
      { ordinal := by rw [← hsequence], id := rfl, team := rfl, body := rfl, select := hselect
        skill := hall
        writes := ⟨u, v, w, hu, hv, hw, hx⟩ }) stores ?_
    rw [hp, ← hanswer]
  · simp only [pure_eq_ok, Prod.mk.injEq] at hb
    exact .of_row hrow hfp hb.2 (by rw [hp, hb.1])

/-- Every committed call is a commit under the identity of its request. -/
theorem body_committed (hb : call.body h = .ok (reply, t)) :
    ∃ key fp, call.identity = .ok (key, fp) ∧
      Committed h call (call.requestKey key) fp reply t := by
  unfold Call.body at hb
  unfold Call.identity
  cases operation : call.operation with
  | create fields =>
      rw [operation] at hb
      obtain ⟨request, hrequest, hc⟩ := create_committed operation hb
      exact ⟨_, _, by simp only [hrequest]; rfl, hc⟩
  | revise messageId fields subject =>
      rw [operation] at hb
      obtain ⟨request, hrequest, hc⟩ := revise_committed operation hb
      exact ⟨_, _, by simp only [hrequest]; rfl, hc⟩
  | delete messageId fields =>
      rw [operation] at hb
      obtain ⟨key, hkey, hc⟩ := delete_committed operation hb
      exact ⟨_, _, by simp only [hkey]; rfl, hc⟩
  | dismiss messageId fields =>
      rw [operation] at hb
      obtain ⟨⟨response, _⟩, hr, heq⟩ := map_eq_ok.mp hb
      cases heq
      obtain ⟨key, hkey, hc⟩ := dismiss_committed operation hr
      exact ⟨_, _, by simp only [hkey]; rfl, hc⟩
  | setMailboxState messageId fields =>
      rw [operation] at hb
      obtain ⟨⟨response, _⟩, hr, heq⟩ := map_eq_ok.mp hb
      cases heq
      obtain ⟨request, key, hrequest, hkey, hc⟩ := setMailboxState_committed operation hr
      exact ⟨_, _, by simp only [hrequest, hkey]; rfl, hc⟩
  | recordReceipt messageId fields =>
      rw [operation] at hb
      obtain ⟨⟨response, _⟩, hr, heq⟩ := map_eq_ok.mp hb
      cases heq
      obtain ⟨request, key, hrequest, hkey, hc⟩ := recordReceipt_committed operation hr
      exact ⟨_, _, by simp only [hrequest, hkey]; rfl, hc⟩
  | setSkillFlag flag skillId fields =>
      rw [operation] at hb
      obtain ⟨⟨response, _⟩, hr, heq⟩ := map_eq_ok.mp hb
      cases heq
      obtain ⟨value, key, hvalue, hkey, hc⟩ := setSkillFlag_committed operation hr
      exact ⟨_, _, by simp only [hvalue, hkey]; rfl, hc⟩

end Operations

end AgentsServer.TeamHub

import AgentsServer.TeamHub.RevisionHistory
import AgentsServer.TeamHub.SkillHistory
import Mathlib.Data.List.Infix

/-!
# One history for all clients

Calls of any number of clients write one history: the versions of every skill and
of every message are counted without gaps, each update names the one it follows,
and a request that is repeated under its key is not done again.
-/

namespace AgentsServer.TeamHub

open Library

variable [Sha256] [UnicodeTables] [Conversions]

/-! ## Steps -/

/-- The tables of the histories are the same in two states. -/
structure Hub.SameHistories (u t : Hub) : Prop where
  skills : t.skills = u.skills
  versions : t.skillVersions = u.skillVersions
  messages : t.messages = u.messages
  revisions : t.revisions = u.revisions

/-- Both histories are sound in a state, and went on in the call that led to it. -/
structure Hub.HistoriesFollow (h : Hub) (call : Call) (t : Hub) : Prop where
  skills : t.SkillsSound ∧ h.SkillsContinue call t
  revisions : t.RevisionsSound ∧ h.RevisionsContinue call t

section Steps

variable {h t u : Hub} {call : Call} {publications : List Publication}

/-- No skill, message or revision is written. -/
theorem Hub.SameHistories.follow (same : h.SameHistories t) (hs : h.SkillsSound)
    (hr : h.RevisionsSound) : h.HistoriesFollow call t where
  skills := by
    apply hs.same (f := id)
    · rw [same.skills, List.map_id]
    · exact fun s _ => .refl s
    · exact same.versions
    · rw [same.messages]
    · rw [same.messages]
      exact hs.messageIds
  revisions := by
    apply hr.same []
    · rw [same.messages, List.append_nil]
    · exact fun m hm => absurd hm List.not_mem_nil
    · exact same.revisions

theorem Created.follow {fields : List (String × Json)} {request : CreateRequest} {m : MessageRow}
    {resolved : List Recipient} {attachments : List AttachmentRow}
    (operation : call.operation = .create fields) (checked : createRequest fields = .ok request)
    (work : Created h call request m resolved attachments u) (same : u.SameHistories t)
    (hs : h.SkillsSound) (hr : h.RevisionsSound) : h.HistoriesFollow call t := by
  obtain ⟨_, _, _, _, _, _, hu, _, _, _, _, _, fresh⟩ := work.tables
  have messages : t.messages = h.messages ++ [m] := by
    rw [same.messages, hu]
  have revisions : t.revisions = h.revisions := by
    rw [same.revisions, hu]
  constructor
  · rcases work.content with ⟨_, _, _, hskills, hversions⟩ |
      ⟨title, details, id, version, v, hrequest, hm, hwrite, hversions, hv⟩
    · apply hs.same (f := fun s => s)
      · rw [same.skills, hskills, List.map_id']
      · exact fun s _ => .refl s
      · rw [same.versions, hversions]
      · rw [messages]
        exact List.prefix_append _ _
      · rw [messages]
        exact Tables.nodup_append_row hs.messageIds fresh
    · rw [← same.skills] at hwrite
      obtain ⟨s, written, rfl, rfl⟩ := hwrite.written hs.ids
      exact hs.published written ⟨⟨fields, operation, checked⟩, hrequest⟩ hv hm work.team work.body
        (same.versions.trans hversions) messages fresh
  · apply hr.same [m] messages
    · intro p hp old hold
      rw [List.mem_singleton.mp hp]
      exact fresh old hold
    · exact revisions

/-- The work of a call continues the histories. -/
theorem Effect.follow (e : Effect h call publications u) (same : u.SameHistories t)
    (hs : h.SkillsSound) (hr : h.RevisionsSound) : h.HistoriesFollow call t := by
  cases e with
  | created operation checked work => exact work.follow operation checked same hs hr
  | @revised messageId fields subject request m row _ operation checked work =>
      obtain ⟨_, _, rfl⟩ := Hub.insertRevision_eq_ok work.write
      constructor
      · apply hs.same (f := id)
        · rw [same.skills, List.map_id]
        · exact fun s _ => .refl s
        · exact same.versions
        · rw [same.messages]
        · rw [same.messages]
          exact hs.messageIds
      · exact hr.revised operation checked work same.messages same.revisions
  | deleted _ _ _ _ _ write =>
      obtain ⟨_, _, rfl⟩ := Hub.insertDeletion_eq_ok write
      exact Hub.SameHistories.follow ⟨same.1, same.2, same.3, same.4⟩ hs hr
  | deletedBefore => exact same.follow hs hr
  | dismissed => exact Hub.SameHistories.follow ⟨same.1, same.2, same.3, same.4⟩ hs hr
  | attended => exact Hub.SameHistories.follow ⟨same.1, same.2, same.3, same.4⟩ hs hr
  | @receipted _ _ isRead rows _ _ =>
      obtain ⟨recipients, he⟩ := Hub.recordReceipts_eq rows isRead call.context.timestamp h
      rw [he] at same
      exact Hub.SameHistories.follow ⟨same.1, same.2, same.3, same.4⟩ hs hr
  | @flagged flag _ _ value s _ row team _ =>
      have hkeeps := s.keeps_setFlag flag value call.context.timestamp
      constructor
      · apply hs.same (same.skills)
        · intro r hmem
          split
          · next he =>
              have hrs : r = s := Tables.eq_of_key hs.ids hmem row (he.2.trans hkeeps.id)
              rw [hrs]
              exact hkeeps
          · exact .refl r
        · exact same.versions
        · rw [same.messages]
          exact List.prefix_refl _
        · rw [same.messages]
          exact hs.messageIds
      · apply hr.same []
        · rw [same.messages, List.append_nil]
          rfl
        · exact fun m hm => absurd hm List.not_mem_nil
        · exact same.revisions

/-- A call either leaves the tables as they were or continues the histories. -/
theorem step_follow (hs : h.SkillsSound) (hr : h.RevisionsSound) (call : Call) :
    h.HistoriesFollow call (step h call).1 := by
  rcases step_cases h call with ⟨key, fp, reply, t, hstep, _, hc⟩ | ⟨e, hstep⟩
  · rw [hstep]
    cases hc with
    | replayed => exact Hub.SameHistories.follow ⟨rfl, rfl, rfl, rfl⟩ hs hr
    | fresh _ work => exact work.follow ⟨rfl, rfl, rfl, rfl⟩ hs hr
  · rw [hstep]
    exact Hub.SameHistories.follow ⟨rfl, rfl, rfl, rfl⟩ hs hr

theorem run_sound (calls : List Call) :
    (Runs.run step Hub.empty calls).SkillsSound ∧
      (Runs.run step Hub.empty calls).RevisionsSound := by
  apply Runs.run_invariant step (I := fun h => h.SkillsSound ∧ h.RevisionsSound)
  · intro s call hi
    have hf := step_follow hi.1 hi.2 call
    exact ⟨hf.skills.1, hf.revisions.1⟩
  · exact ⟨Hub.empty_skills, Hub.empty_revisions⟩

end Steps

/-! ## Repeated requests -/

section Repeats

variable {h : Hub} {caller : Caller} {directory : Directory} {draws : Draws} {teamId : String}
  {timestamp : Nat} {row : IdempotencyRow} {role : Role}

/-- The operations that write a version of a skill or of a message. -/
def Operation.writesVersion : Operation → Bool
  | .create _ | .revise .. => true
  | _ => false

def idempotencyConflict : Failure :=
  .hubError "idempotency_conflict" "Idempotency key was already used with a different request" 409

theorem createTeamMessage_remembered {fields : List (String × Json)} {request : CreateRequest}
    (checked : createRequest fields = .ok request) (member : caller.networkScope true = .ok role)
    (hrow : h.request? ⟨teamId, caller.claims.principalId, "team.message.create",
      request.idempotencyKey⟩ = some row) :
    createTeamMessage h caller directory draws teamId fields timestamp =
      if row.fingerprint = request.fingerprint teamId then .ok (⟨row.response, []⟩, h)
      else .error idempotencyConflict := by
  have hlookup := Hub.idempotencyLookup_of_some hrow
    (teamIdempotencyKey_length (createRequest_key checked)) (request.fingerprint teamId)
  unfold createTeamMessage
  simp only [checked, ok_bind, member, hlookup]
  by_cases he : row.fingerprint = request.fingerprint teamId
  · rw [if_pos he, if_pos he]
    rfl
  · rw [if_neg he, if_neg he]
    rfl

omit [UnicodeTables] [Conversions] in
theorem reviseTeamMessage_remembered {messageId : String} {fields : List (String × Json)}
    {includeMailSubject : Bool} {request : ReviseRequest}
    (checked : reviseRequest fields = .ok request) (member : caller.networkScope true = .ok role)
    (hrow : h.request? ⟨teamId, caller.claims.principalId, "team.message.revise",
      request.idempotencyKey⟩ = some row) :
    reviseTeamMessage h caller directory draws teamId messageId fields includeMailSubject timestamp =
      if row.fingerprint = canonicalFingerprint (request.json teamId messageId) then
        .ok (⟨revisionResponseSubject h teamId messageId row.response includeMailSubject, []⟩, h)
      else .error idempotencyConflict := by
  have hkey : teamIdempotencyKey fields = .ok request.idempotencyKey := by
    unfold reviseRequest at checked
    simp only [bind_eq_ok, pure_eq_ok] at checked
    obtain ⟨_, _, _, _, key, hkey, rfl⟩ := checked
    exact hkey
  have hlookup := Hub.idempotencyLookup_of_some hrow (teamIdempotencyKey_length hkey)
    (canonicalFingerprint (request.json teamId messageId))
  unfold reviseTeamMessage
  simp only [checked, ok_bind, member, hlookup]
  by_cases he : row.fingerprint = canonicalFingerprint (request.json teamId messageId)
  · rw [if_pos he, if_pos he]
    rfl
  · rw [if_neg he, if_neg he]
    rfl

/-- What a member gets for a request under a remembered key. -/
theorem step_remembered {call : Call} {key : String} {fp : Bytes}
    (writes : call.operation.writesVersion = true) (hi : call.identity = .ok (key, fp))
    (member : call.context.caller.networkScope true = .ok role)
    (hrow : h.request? (call.requestKey key) = some row) :
    (step h call).2 = if row.fingerprint = fp then .ok ⟨call.present h row.response, []⟩
      else .error idempotencyConflict := by
  unfold Call.identity at hi
  unfold Call.requestKey at hrow
  unfold step Call.body Call.present
  cases operation : call.operation with
  | create fields =>
      simp only [operation, bind_eq_ok, pure_eq_ok, Prod.mk.injEq] at hi
      obtain ⟨request, checked, rfl, rfl⟩ := hi
      rw [operation] at hrow
      simp only [createTeamMessage_remembered checked member hrow]
      by_cases he : row.fingerprint = request.fingerprint call.teamId
      · rw [if_pos he, if_pos he]
        rfl
      · rw [if_neg he, if_neg he]
        rfl
  | revise messageId fields includeMailSubject =>
      simp only [operation, bind_eq_ok, pure_eq_ok, Prod.mk.injEq] at hi
      obtain ⟨request, checked, rfl, rfl⟩ := hi
      rw [operation] at hrow
      simp only [reviseTeamMessage_remembered checked member hrow]
      by_cases he : row.fingerprint = canonicalFingerprint (request.json call.teamId messageId)
      · rw [if_pos he, if_pos he]
        rfl
      · rw [if_neg he, if_neg he]
        rfl
  | _ =>
      rw [operation] at writes
      cases writes

end Repeats

/-! ## Every run -/

/-- Versions and revisions are counted without gaps, and what is shown of a skill or
a message is the last of them. -/
structure Hub.LinearHistory (h : Hub) : Prop where
  versions : ∀ s ∈ h.skills,
    (h.versionsOf s.id).map SkillVersionRow.version = List.range' 1 s.currentVersion
  current : ∀ s ∈ h.skills, ∃ v m, v ∈ h.versionsOf s.id ∧
    h.currentSkillPost? s = some (v, m) ∧ Shows s v m
  revisions : ∀ teamId id, (h.revisionsOf teamId id).map RevisionRow.version =
    List.range' 2 (h.revisionsOf teamId id).length
  version : ∀ teamId id, h.messageVersion teamId id = 1 + (h.revisionsOf teamId id).length
  body : ∀ m ∈ h.messages, h.currentBody m =
    (h.revisionsOf m.teamId m.id).getLast?.elim m.body RevisionRow.body

omit [Sha256] [UnicodeTables] [Conversions] in
theorem Hub.SkillsSound.linear {h : Hub} (hs : h.SkillsSound) (hr : h.RevisionsSound) :
    h.LinearHistory := by
  constructor
  · exact hs.numbered
  · intro s hmem
    obtain ⟨v, hv, m, hm, hshows⟩ := hs.shown s hmem
    refine ⟨v, m, ?_, hs.currentSkillPost? hmem hv hm hshows, hshows⟩
    exact List.mem_filter.mpr ⟨hv, by simpa using hshows.skill⟩
  · exact hr.numbered
  · exact fun teamId id => messageVersion_eq (hr.numbered teamId id)
  · intro m _
    rw [Hub.currentBody, Hub.latestRevision?, foldl_newerRevision _ (hr.numbered _ _)]

/-- In every run the histories are linear, and the next call extends them by at most
one version, which follows the one that the call names. A call that fails changes
nothing. A call under the key of one that committed changes nothing either: the same
request gets the stored answer, and another one is refused. -/
theorem one_linear_history (before : List Call) :
    let h := Runs.run step Hub.empty before
    h.LinearHistory ∧
    (∀ call, h.SkillsContinue call (step h call).1 ∧ h.RevisionsContinue call (step h call).1) ∧
    (∀ call e, (step h call).2 = .error e → (step h call).1 = h) ∧
    ∀ first reply key fp, (step h first).2 = .ok reply → first.identity = .ok (key, fp) →
      ∃ stored, reply.response = first.present (step h first).1 stored ∧
      ∀ after again fp', again.identity = .ok (key, fp') →
        first.requestKey key = again.requestKey key →
        let t := Runs.run step (step h first).1 after
        (step t again).1 = t ∧ (fp' ≠ fp → ∃ e, (step t again).2 = .error e) ∧
        ∀ role, again.operation.writesVersion = true →
          again.context.caller.networkScope true = .ok role →
          (step t again).2 = if fp = fp' then .ok ⟨again.present t stored, []⟩
            else .error idempotencyConflict := by
  intro h
  obtain ⟨hs, hr⟩ := run_sound before
  refine ⟨hs.linear hr, ?_, ?_, ?_⟩
  · intro call
    have hf := step_follow hs hr call
    exact ⟨hf.skills.2, hf.revisions.2⟩
  · intro call e he
    rcases step_cases h call with ⟨_, _, _, _, hstep, _⟩ | ⟨_, hstep⟩
    · rw [hstep] at he
      cases he
    · rw [hstep]
  · intro first reply key fp hok hfirst
    obtain ⟨row, hrow, hfp, hresponse⟩ := remembered_after hok [] hfirst
    refine ⟨row.response, hresponse, ?_⟩
    intro after again fp' hagain hkey t
    have hlater : t.request? (again.requestKey key) = some row := by
      rw [← hkey]
      exact (run_remembers (step h first).1 after).request? hrow
    obtain ⟨hstate, hanswer⟩ := step_of_remembered hagain hlater
    refine ⟨hstate, ?_, ?_⟩
    · intro hne
      cases hresult : (step t again).2 with
      | ok other => exact absurd ((hanswer other hresult).1.symm.trans hfp) hne
      | error e => exact ⟨e, rfl⟩
    · intro role writes member
      rw [step_remembered writes hagain member hlater, hfp]

end AgentsServer.TeamHub

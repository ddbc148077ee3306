import AgentsServer.TeamHub.SessionSteps
import AgentsServer.TeamHub.AttachmentQuota

/-!
# Ended sessions stay ended

A call with the credentials of a session succeeds only while the session is not revoked.
A revocation of a session, and a timely second presentation of one of its tokens, is
therefore final. The revocation of a membership is not one of these: it leaves the
sessions of the account as they are.
-/

namespace AgentsServer.TeamHub

open Library

abbrev AuthEvent := Runs.Event AuthDb (AuthCall × Nat) AuthOutcome

/-- A token that is neither consumed nor revoked. -/
def RefreshToken.isLive (t : RefreshToken) : Bool := t.consumedAt.isNone && t.revokedAt.isNone

/-! ## The events -/

/-- A call with the credentials of this session succeeds. -/
def Accepted (e : AuthEvent) (sessionId : String) : Prop :=
  match e.action.1 with
  | .refresh .. | .access _ | .revokeSession .. | .revokeDeviceSession ..
  | .changeMembershipStatus .. => e.outcome = .ok sessionId
  | _ => False

/-- The token is the one of this row. -/
def AuthDb.Presents [Sha256] (db : AuthDb) (token : String) (t : RefreshToken) : Prop :=
  t ∈ db.tokens ∧ tokenHash token = some t.tokenHash

/-- No row that ends with the session, and no audit head that the end moves, is dated
after `now`. -/
structure AuthDb.Timely (db : AuthDb) (sessionId : String) (now : Nat) : Prop where
  session : ∀ s ∈ db.sessions, s.id = sessionId → s.createdAt ≤ now
  tokens : ∀ t ∈ db.tokens, t.deviceSessionId = sessionId → t.isLive = true → t.createdAt ≤ now
  audits : ∀ s ∈ db.sessions, s.id = sessionId → ∀ m ∈ db.memberships,
    m.principalId = s.humanPrincipalId → m.status = .active →
    ∀ head ∈ db.auditHeads, head.1 = m.teamId → head.2 ≤ now

/-- A call that revokes this session: directly, as a device, as one of the sessions of a
recovered principal, or by a timely presentation of a consumed token. -/
def Revokes [Sha256] [UnicodeTables] (e : AuthEvent) (sessionId : String) : Prop :=
  match e.action with
  | (.refresh token _, now) => ∃ t, e.before.Presents token t ∧ t.consumedAt.isSome = true ∧
      t.deviceSessionId = sessionId ∧ e.before.Timely sessionId now
  | (.revokeSession claims _, _) => (∃ id, e.outcome = .ok id) ∧ claims.sessionId = sessionId
  | (.revokeDeviceSession _ target, _) =>
      (∃ id, e.outcome = .ok id) ∧ identity target = some sessionId
  | (.issueDeviceRecovery email _ teamId requireOwner _ _, _) => (∃ proof, e.outcome = .ok proof) ∧
      ∃ normalized m, normalizedEmail email = .ok normalized ∧
        e.before.recoverable normalized teamId requireOwner = [m] ∧
        ∃ s ∈ e.before.sessions, s.id = sessionId ∧ s.humanPrincipalId = m.principalId
  | (.redeemDeviceRecovery proof _ _, now) => (∃ id, e.outcome = .ok id) ∧
      ∃ digest claim, tokenHash proof = some digest ∧
        e.before.redeemable digest now = some claim ∧
        ∃ s ∈ e.before.sessions, s.id = sessionId ∧ s.humanPrincipalId = claim.ownerPrincipalId
  | _ => False

/-- A redemption of this proof succeeds. -/
def Redeems (e : AuthEvent) (proof : String) : Prop :=
  match e.action.1 with
  | .redeemDeviceRecovery presented .. => presented = proof ∧ ∃ id, e.outcome = .ok id
  | _ => False

/-! ## A timely replay revokes -/

namespace AuthDb

variable {db db' : AuthDb} {now : Nat}

theorem audit_total {teamId : String}
    (h : ∀ head ∈ db.auditHeads, head.1 = teamId → head.2 ≤ now) :
    ∃ db', db.audit teamId now = .ok db' ∧
      ∀ head ∈ db'.auditHeads, head ∈ db.auditHeads ∨ head.2 = now := by
  unfold audit
  cases hfind : Tables.find Prod.fst db.auditHeads teamId with
  | none =>
      refine ⟨_, rfl, ?_⟩
      intro head hhead
      rcases List.mem_append.mp hhead with old | new
      · exact .inl old
      · rw [List.mem_singleton.mp new]
        exact .inr rfl
  | some last =>
      obtain ⟨hmem, hteam⟩ := Tables.find_mem hfind
      refine ⟨_, require_bind (h last hmem hteam) _ _, ?_⟩
      intro head hhead
      obtain ⟨old, hold, rfl⟩ := List.mem_map.mp hhead
      split
      · exact .inr rfl
      · exact .inl hold

/-- The audit of every team succeeds when none of their heads is later. -/
theorem audits_total {teams : List String}
    (h : ∀ head ∈ db.auditHeads, head.1 ∈ teams → head.2 ≤ now) :
    ∃ db', teams.foldlM (fun db teamId => db.audit teamId now) db = .ok db' := by
  induction teams generalizing db with
  | nil => exact ⟨db, rfl⟩
  | cons team rest ih =>
      obtain ⟨mid, hmid, hheads⟩ := audit_total fun head hhead heq =>
        h head hhead (heq ▸ List.mem_cons_self)
      obtain ⟨db', hrest⟩ : ∃ db', rest.foldlM (fun db teamId => db.audit teamId now) mid =
          .ok db' := by
        apply ih
        intro head hhead hteam
        rcases hheads head hhead with old | new
        · exact h head old (List.mem_cons_of_mem _ hteam)
        · exact new.le
      refine ⟨db', ?_⟩
      rw [List.foldlM_cons, hmid]
      exact hrest

theorem revokeSessions_total (ledger : Ledger db) {sessionId : String}
    (timely : db.Timely sessionId now) :
    ∃ db', db.revokeSessions (fun s => s.id = sessionId) now = .ok db' := by
  have hsessions : ∀ s ∈ db.sessions, (decide (s.id = sessionId) && s.revokedAt.isNone) = true →
      s.mayBecome { s with revokedAt := some now } = true := by
    intro s hs hsel
    simp only [Bool.and_eq_true, decide_eq_true_eq] at hsel
    have hcheck := ledger.sessionChecks s hs
    simp only [DeviceSession.check, Bool.and_eq_true, decide_eq_true_eq] at hcheck
    simp [DeviceSession.mayBecome, DeviceSession.check, hcheck.1.1, hcheck.1.2, hsel.2,
      timely.session s hs hsel.1]
  have htokens : ∀ t ∈ db.tokens,
      (((db.sessions.filter fun s => decide (s.id = sessionId)).map DeviceSession.id).contains
        t.deviceSessionId && t.consumedAt.isNone && t.revokedAt.isNone) = true →
      t.mayBecome { t with revokedAt := some now } = true := by
    intro t ht hsel
    simp only [Bool.and_eq_true, List.contains_iff_mem, List.mem_map, List.mem_filter,
      decide_eq_true_eq] at hsel
    obtain ⟨⟨⟨s, ⟨-, hid⟩, howner⟩, hconsumed⟩, hrevoked⟩ := hsel
    have hlive : t.isLive = true := by rw [RefreshToken.isLive, hconsumed, hrevoked]; rfl
    have hdate := timely.tokens t ht (howner ▸ hid) hlive
    have hcheck := ledger.tokenChecks t ht
    simp only [RefreshToken.check, Bool.and_eq_true, decide_eq_true_eq] at hcheck
    have hnone : t.consumedAt = none := by simpa using hconsumed
    have hreplaced : t.replacedByTokenId = none := by simpa [hnone] using hcheck.1.2
    simp [RefreshToken.mayBecome, RefreshToken.check, hcheck.1.1.1.1, hnone, hreplaced, hrevoked,
      hdate]
  unfold revokeSessions
  rw [Tables.updateRows_eq_some.mpr ⟨hsessions, rfl⟩]
  simp only [required, ok_bind]
  rw [Tables.updateRows_eq_some.mpr ⟨htokens, rfl⟩]
  exact ⟨_, rfl⟩

theorem replayed_total (ledger : Ledger db) {session : DeviceSession}
    (hsession : session ∈ db.sessions) (timely : db.Timely session.id now) :
    ∃ db', db.replayed session now = .ok db' := by
  obtain ⟨mid, hmid⟩ := revokeSessions_total ledger timely
  have hkept := (revokeSessions_eq hmid).1
  obtain ⟨db', hdb'⟩ : ∃ db', mid.auditPrincipalTeams session.humanPrincipalId now = .ok db' := by
    apply audits_total
    intro head hhead hteam
    rw [hkept] at hhead hteam
    obtain ⟨m, hm, heq⟩ := List.mem_map.mp hteam
    simp only [List.mem_filter, decide_eq_true_eq] at hm
    exact timely.audits session hsession rfl m hm.1 hm.2.1 hm.2.2 head hhead heq.symm
  refine ⟨db', ?_⟩
  rw [replayed, hmid]
  exact hdb'

/-- A revoked session that was there is ended. -/
theorem revokeSessions_ended {which : DeviceSession → Bool}
    (h : db.revokeSessions which now = .ok db') {s : DeviceSession} (hs : s ∈ db.sessions)
    (hwhich : which s = true) : Ended db' s.id := by
  obtain ⟨rfl, -⟩ := revokeSessions_eq h
  exact ⟨_, List.mem_map_of_mem hs, endSession_id which now s,
    endSession_revoked which now (.inl hwhich)⟩

/-- Every row of a token has its session and its account. -/
theorem lookupRefresh_of_mem (ledger : Ledger db) {t : RefreshToken} (ht : t ∈ db.tokens) :
    ∃ session human, db.lookupRefresh t.tokenHash = some (t, session, human) ∧
      session ∈ db.sessions ∧ session.id = t.deviceSessionId := by
  obtain ⟨session, hsession, hid⟩ := ledger.owned t ht
  have hfound := Tables.find_of_mem ledger.sessionIds hsession
  cases hhuman : Tables.find HumanRow.principalId db.humans session.humanPrincipalId with
  | none =>
      obtain ⟨human, hmem, hprincipal⟩ := ledger.humans session hsession
      exact absurd hprincipal (Tables.find_eq_none.mp hhuman human hmem)
  | some human =>
      refine ⟨session, human, ?_, hsession, hid⟩
      simp only [lookupRefresh, Tables.find_of_mem ledger.tokenHashes ht, ← hid, hfound, hhuman,
        Option.bind_eq_bind, Option.bind_some, Option.pure_def]

variable [Sha256]

/-- A second presentation fails; when it is timely, the session is ended. -/
theorem refresh_consumed (ledger : Ledger db) {token : String} {t : RefreshToken} (fresh : Fresh)
    (now : Nat) (presented : db.Presents token t) (consumed : t.consumedAt.isSome = true) :
    (∃ e, (db.refresh token fresh now).2 = .error e) ∧ (db.Timely t.deviceSessionId now →
      Ended (db.refresh token fresh now).1 t.deviceSessionId) := by
  obtain ⟨session, human, hlookup, hsession, hid⟩ := lookupRefresh_of_mem ledger presented.1
  have hreplay : db.Replay token t session := by
    refine ⟨human, ?_, .inl consumed⟩
    rw [presented.2]
    exact hlookup
  obtain ⟨hfails, hcommits⟩ := refresh_replay hreplay fresh now
  refine ⟨hfails, ?_⟩
  intro timely
  rw [← hid] at timely ⊢
  obtain ⟨db', hreplayed⟩ := replayed_total ledger hsession timely
  rw [hcommits db' hreplayed]
  unfold replayed at hreplayed
  rw [bind_eq_ok] at hreplayed
  obtain ⟨mid, hmid, haudit⟩ := hreplayed
  have hended : Ended mid session.id := revokeSessions_ended hmid hsession (by simp)
  exact hended.change (.audited (auditPrincipalTeams_eq haudit))

/-- A refresh that succeeds presents the live token of the current generation. -/
theorem refresh_accepted {token sessionId : String} {fresh : Fresh}
    (h : (db.refresh token fresh now).2.map Issued.sessionId = .ok sessionId) :
    ∃ t session, db.Presents token t ∧ session ∈ db.sessions ∧ session.id = sessionId ∧
      t.deviceSessionId = sessionId ∧ t.isLive = true ∧
      t.generation = session.refreshGeneration ∧ session.revokedAt = none := by
  rcases db.refresh_cases token fresh now with ⟨e, hout⟩ | ⟨session, e, db', -, hout⟩ |
    ⟨digest, row, session, human, issued, db', hdigest, hlookup, hlive, hcurrent, hrotate, hout⟩
  · rw [hout] at h
    cases h
  · rw [hout] at h
    cases h
  · rw [hout] at h
    obtain ⟨hrow, rfl, hsession, howner⟩ := lookupRefresh_eq hlookup
    obtain ⟨hid, hkept, hopen, -⟩ := rotate_eq hrotate
    have hsame : session.id = sessionId := by
      rw [← hid]
      exact Except.ok.inj h
    refine ⟨row, session, ⟨hrow, hdigest⟩, hsession, hsame, howner.symm.trans hsame, ?_,
      hcurrent, hopen⟩
    rw [RefreshToken.isLive, hlive, hkept]
    rfl

end AuthDb

/-! ## One call -/

section Step

variable [Sha256] [UnicodeTables] {db : AuthDb} {act : AuthCall × Nat}

/-- The event of one call. -/
abbrev authEvent (db : AuthDb) (act : AuthCall × Nat) : AuthEvent := ⟨db, act, (authStep db act).2⟩

/-- The session of accepted credentials is not revoked. -/
theorem accepted_open {sessionId : String} (h : Accepted (authEvent db act) sessionId) :
    ∃ s ∈ db.sessions, s.id = sessionId ∧ s.revokedAt = none := by
  obtain ⟨call, now⟩ := act
  have of_claims : ∀ {claims : AccessClaims},
      (∃ s, db.requireSession claims now = .ok s ∧ s.id = sessionId) →
      ∃ s ∈ db.sessions, s.id = sessionId ∧ s.revokedAt = none := by
    rintro claims ⟨s, hsession, hid⟩
    obtain ⟨hs, -, hopen⟩ := AuthDb.requireSession_ok hsession
    exact ⟨s, hs, hid, hopen⟩
  cases call with
  | enrol => exact h.elim
  | createSession => exact h.elim
  | issueDeviceRecovery => exact h.elim
  | redeemDeviceRecovery => exact h.elim
  | refresh token fresh =>
      obtain ⟨t, s, -, hs, hid, -, -, -, hopen⟩ := AuthDb.refresh_accepted h
      exact ⟨s, hs, hid, hopen⟩
  | access claims =>
      obtain ⟨db', hok, -⟩ := atomically_eq_ok h
      simp only [AuthDb.access, bind_eq_ok, pure_eq_ok, Prod.mk.injEq] at hok
      obtain ⟨s, hsession, hid, -⟩ := hok
      exact of_claims ⟨s, hsession, hid⟩
  | revokeSession claims token =>
      obtain ⟨db', hok, -⟩ := atomically_eq_ok h
      exact of_claims (AuthDb.revokeSession_ok hok).1
  | revokeDeviceSession claims target =>
      obtain ⟨db', hok, -⟩ := atomically_eq_ok h
      exact of_claims (AuthDb.revokeDeviceSession_ok hok).1
  | changeMembershipStatus claims teamId principalId status =>
      obtain ⟨db', hok, -⟩ := atomically_eq_ok h
      exact of_claims (AuthDb.changeMembershipStatus_ok hok).1

/-- A call that revokes a session ends it. -/
theorem revokes_ended (ledger : Ledger db) {sessionId : String}
    (h : Revokes (authEvent db act) sessionId) : Ended (authStep db act).1 sessionId := by
  obtain ⟨call, now⟩ := act
  cases call with
  | enrol => exact h.elim
  | createSession => exact h.elim
  | access => exact h.elim
  | changeMembershipStatus => exact h.elim
  | refresh token fresh =>
      obtain ⟨t, presented, consumed, rfl, timely⟩ := h
      exact (AuthDb.refresh_consumed ledger fresh now presented consumed).2 timely
  | revokeSession claims token =>
      obtain ⟨⟨id, hout⟩, rfl⟩ := h
      obtain ⟨db', hok, hstate⟩ := atomically_eq_ok hout
      obtain ⟨⟨s, hsession, -⟩, mid, hmid, hlast⟩ := AuthDb.revokeSession_ok hok
      obtain ⟨hs, hid, -⟩ := AuthDb.requireSession_ok hsession
      have hended : Ended mid s.id := AuthDb.revokeSessions_ended hmid hs (by simp [hid])
      have hafter : (authStep db (.revokeSession claims token, now)).1 = db' := hstate
      rw [hafter, ← hid]
      exact hended.change hlast
  | revokeDeviceSession claims target =>
      obtain ⟨⟨id, hout⟩, htarget⟩ := h
      obtain ⟨db', hok, hstate⟩ := atomically_eq_ok hout
      obtain ⟨-, found, mid, hfound, ⟨s, hs, hid, -⟩, hmid, hlast⟩ :=
        AuthDb.revokeDeviceSession_ok hok
      obtain rfl : found = sessionId := Option.some.inj (hfound.symm.trans htarget)
      have hended : Ended mid s.id := AuthDb.revokeSessions_ended hmid hs (by simp [hid])
      have hafter : (authStep db (.revokeDeviceSession claims target, now)).1 = db' := hstate
      rw [hafter, ← hid]
      exact hended.change hlast
  | issueDeviceRecovery email label teamId requireOwner fails fresh =>
      obtain ⟨⟨proof, hout⟩, normalized, m, hemail, hone, s, hs, rfl, howner⟩ := h
      obtain ⟨db', hok, hstate⟩ := atomically_eq_ok hout
      obtain ⟨text, membership, mid, htext, hfound, hmid, hrest⟩ := AuthDb.issueDeviceRecovery_ok hok
      obtain rfl : text = normalized := Except.ok.inj (htext.symm.trans hemail)
      obtain rfl : membership = m := List.head_eq_of_cons_eq (hfound.symm.trans hone)
      have hended : Ended mid s.id := AuthDb.revokeSessions_ended hmid hs (by simp [howner])
      have hafter : (authStep db
          (.issueDeviceRecovery email label teamId requireOwner fails fresh, now)).1 = db' := hstate
      rw [hafter]
      exact hrest.keep Ended.change hended
  | redeemDeviceRecovery proof label fresh =>
      obtain ⟨⟨id, hout⟩, digest, claim, hdigest, hclaim, s, hs, rfl, howner⟩ := h
      obtain ⟨issued, hissued, -⟩ := map_eq_ok.mp hout
      obtain ⟨db', hok, hstate⟩ := atomically_eq_ok hissued
      obtain ⟨other, found, mid, text, created, hother, hfound, hmid, hcreate, hrest, -⟩ :=
        AuthDb.redeemDeviceRecovery_ok hok
      obtain rfl : other = digest := Option.some.inj (hother.symm.trans hdigest)
      obtain rfl : found = claim := Option.some.inj (hfound.symm.trans hclaim)
      have hended : Ended mid s.id := AuthDb.revokeSessions_ended hmid hs (by simp [howner])
      have hafter : (authStep db (.redeemDeviceRecovery proof label fresh, now)).1 = db' := hstate
      rw [hafter]
      exact hrest.keep Ended.change (hended.change (AuthDb.createSession_change hcreate))

/-- A redemption consumes the claim of its proof. -/
theorem redeems_redeemed {proof : String} (h : Redeems (authEvent db act) proof) :
    ∃ digest, tokenHash proof = some digest ∧ Redeemed (authStep db act).1 digest := by
  obtain ⟨call, now⟩ := act
  cases call with
  | redeemDeviceRecovery presented label fresh =>
      obtain ⟨rfl, id, hout⟩ := h
      obtain ⟨issued, hissued, -⟩ := map_eq_ok.mp hout
      obtain ⟨db', hok, hstate⟩ := atomically_eq_ok hissued
      obtain ⟨digest, _, _, _, _, hdigest, -, -, -, -, hredeemed⟩ :=
        AuthDb.redeemDeviceRecovery_ok hok
      have hafter : (authStep db (.redeemDeviceRecovery presented label fresh, now)).1 = db' := hstate
      exact ⟨digest, hdigest, hafter ▸ hredeemed⟩
  | _ => exact h.elim

/-- A consumed claim is not redeemed. -/
theorem redeemed_refused (ledger : Ledger db) {proof : String} {digest : Bytes}
    (hdigest : tokenHash proof = some digest) (hredeemed : Redeemed db digest) :
    ¬ Redeems (authEvent db act) proof := by
  obtain ⟨call, now⟩ := act
  intro h
  cases call with
  | redeemDeviceRecovery presented label fresh =>
      obtain ⟨rfl, id, hout⟩ := h
      obtain ⟨issued, hissued, -⟩ := map_eq_ok.mp hout
      obtain ⟨db', hok, -⟩ := atomically_eq_ok hissued
      obtain ⟨other, claim, _, _, _, hother, hclaim, -⟩ := AuthDb.redeemDeviceRecovery_ok hok
      obtain rfl : other = digest := Option.some.inj (hother.symm.trans hdigest)
      obtain ⟨c, hc, hhash, hconsumed⟩ := hredeemed
      have hopen := List.find?_some hclaim
      simp only [Bool.and_eq_true, decide_eq_true_eq, RecoveryClaim.isOpen] at hopen
      have hsame : claim = c := Tables.eq_of_key ledger.recoveryHashes
        (List.mem_of_find?_eq_some hclaim) hc (hopen.1.1.1.trans hhash.symm)
      have hnone := hopen.1.1.2.1.1
      rw [hsame] at hnone
      simp [Option.isNone_iff_eq_none.mp hnone] at hconsumed
  | _ => exact h.elim

end Step

/-- At most one token of a session is live, and it has the session's generation. -/
theorem Ledger.live_unique {db : AuthDb} (ledger : Ledger db) {s : DeviceSession}
    (hs : s ∈ db.sessions) :
    (∀ t ∈ db.tokensOf s.id, t.isLive = true → t.generation = s.refreshGeneration) ∧
      (db.tokensOf s.id).countP RefreshToken.isLive ≤ 1 := by
  have hgenerations := ledger.generations s hs
  have hcurrent : ∀ t ∈ db.tokensOf s.id, t.isLive = true →
      t.generation = s.refreshGeneration := by
    intro t ht hlive
    simp only [AuthDb.tokensOf, List.mem_filter, decide_eq_true_eq] at ht
    have hle := ledger.generation_le hs ht.1 ht.2
    have hnot : ¬ t.generation < s.refreshGeneration := by
      rw [← ledger.consumed t ht.1 s hs ht.2.symm]
      simp only [RefreshToken.isLive, Bool.and_eq_true, Option.isNone_iff_eq_none] at hlive
      simp [hlive.1]
    omega
  refine ⟨hcurrent, ?_⟩
  have hunique : ((db.tokensOf s.id).map RefreshToken.generation).Nodup := by
    rw [hgenerations]
    exact List.nodup_range
  calc (db.tokensOf s.id).countP RefreshToken.isLive
      = (db.tokensOf s.id).countP fun t =>
          decide (t.generation = s.refreshGeneration) && t.isLive := by
        apply List.countP_congr
        intro t ht
        constructor
        · intro hlive
          simp [hcurrent t ht hlive, hlive]
        · intro hboth
          simp only [Bool.and_eq_true] at hboth
          exact hboth.2
    _ ≤ 1 := Tables.countP_key_le_one hunique s.refreshGeneration RefreshToken.isLive

/-! ## Every run -/

theorem ledger_after [Sha256] [UnicodeTables] (acts : List (AuthCall × Nat)) :
    Ledger (Runs.run authStep .empty acts) :=
  Runs.run_invariant authStep (fun _ act h => h.step act) _ .empty acts

theorem event_of_ledger [Sha256] [UnicodeTables] {acts : List (AuthCall × Nat)} {e : AuthEvent}
    (h : e ∈ Runs.history authStep .empty acts) :
    ∃ db act, Ledger db ∧ e = authEvent db act := by
  have every := Runs.history_forall authStep (I := Ledger)
    (P := fun e => ∃ db act, Ledger db ∧ e = authEvent db act)
    (fun _ act hdb => hdb.step act) (fun db act hdb => ⟨db, act, hdb, rfl⟩) _ .empty acts
  exact every e h

/-- The rotation of the refresh tokens of a session, and the revocations that are final. -/
theorem sessions_rotate_and_end [Sha256] [UnicodeTables] (acts : List (AuthCall × Nat)) :
    let db := Runs.run authStep .empty acts;
    let events := Runs.history authStep .empty acts;
    (∀ s ∈ db.sessions,
      (db.tokensOf s.id).map RefreshToken.generation = List.range (s.refreshGeneration + 1) ∧
      (∀ t ∈ db.tokensOf s.id, t.isLive = true → t.generation = s.refreshGeneration) ∧
      (db.tokensOf s.id).countP RefreshToken.isLive ≤ 1) ∧
    (∀ e ∈ events, ∀ token fresh now, e.action = (.refresh token fresh, now) →
      (∀ sessionId, e.outcome = .ok sessionId →
        ∃ t, e.before.Presents token t ∧ t.deviceSessionId = sessionId ∧ t.isLive = true) ∧
      (∀ t, e.before.Presents token t → t.consumedAt.isSome = true →
        ∃ failure, e.outcome = .error failure)) ∧
    (∀ e ∈ events, ∀ sessionId, Revokes e sessionId →
      Ended (authStep e.before e.action).1 sessionId) ∧
    (events.Pairwise fun e f => ∀ sessionId, Ended (authStep e.before e.action).1 sessionId →
      Ended f.before sessionId ∧ ¬ Accepted f sessionId) ∧
    (events.Pairwise fun e f => ∀ proof, Redeems e proof → ¬ Redeems f proof) ∧
    (∀ e ∈ events, ∀ claims teamId principalId status now,
      e.action = (.changeMembershipStatus claims teamId principalId status, now) →
      (authStep e.before e.action).1.sessions = e.before.sessions ∧
      (authStep e.before e.action).1.tokens = e.before.tokens) := by
  have keep : ∀ (db : AuthDb) (act : AuthCall × Nat), Ledger db → Ledger (authStep db act).1 :=
    fun _ act h => h.step act
  refine ⟨?_, ?_, ?_, ?_, ?_, ?_⟩
  · intro s hs
    exact ⟨(ledger_after acts).generations s hs, (ledger_after acts).live_unique hs⟩
  · intro e he token fresh now hact
    obtain ⟨db, _, ledger, rfl⟩ := event_of_ledger he
    obtain rfl := hact
    constructor
    · intro sessionId hok
      obtain ⟨t, s, presented, -, -, howner, hlive, -⟩ := AuthDb.refresh_accepted hok
      exact ⟨t, presented, howner, hlive⟩
    · intro t presented consumed
      obtain ⟨⟨failure, hfails⟩, -⟩ :=
        AuthDb.refresh_consumed ledger fresh now presented consumed
      refine ⟨failure, ?_⟩
      change ((db.refresh token fresh now).2.map Issued.sessionId) = _
      rw [hfails]
      rfl
  · intro e he sessionId hrevokes
    obtain ⟨db, act, ledger, rfl⟩ := event_of_ledger he
    exact revokes_ended ledger hrevokes
  · apply Runs.history_pairwise authStep (I := Ledger)
      (M := fun e s => ∀ sessionId, Ended (authStep e.before e.action).1 sessionId →
        Ended s sessionId) keep _ _ _ _ .empty
    · exact fun db act _ sessionId h => h
    · exact fun e db act _ hmark sessionId h => (hmark sessionId h).step act
    · intro e db act ledger hmark sessionId h
      refine ⟨hmark sessionId h, ?_⟩
      intro haccepted
      obtain ⟨s, hs, hid, hopen⟩ := accepted_open haccepted
      obtain ⟨ended, hmem, hended, hrevoked⟩ := hmark sessionId h
      obtain rfl := Tables.eq_of_key ledger.sessionIds hs hmem (hid.trans hended.symm)
      simp [hopen] at hrevoked
  · apply Runs.history_pairwise authStep (I := Ledger)
      (M := fun e s => ∀ proof, Redeems e proof →
        ∃ digest, tokenHash proof = some digest ∧ Redeemed s digest) keep _ _ _ _ .empty
    · exact fun db act _ proof h => redeems_redeemed h
    · intro e db act _ hmark proof h
      obtain ⟨digest, hdigest, hredeemed⟩ := hmark proof h
      exact ⟨digest, hdigest, hredeemed.step act⟩
    · intro e db act ledger hmark proof h
      obtain ⟨digest, hdigest, hredeemed⟩ := hmark proof h
      exact redeemed_refused ledger hdigest hredeemed
  · intro e he claims teamId principalId status now hact
    obtain ⟨db, _, -, rfl⟩ := event_of_ledger he
    obtain rfl := hact
    have same : ∀ id db', db.changeMembershipStatus claims teamId principalId status now =
        .ok (id, db') → db'.sessions = db.sessions ∧ db'.tokens = db.tokens := by
      intro id db' hok
      obtain ⟨-, hsessions, htokens, -⟩ := AuthDb.changeMembershipStatus_ok hok
      exact ⟨hsessions, htokens⟩
    exact atomically_keep
      (P := fun db' : AuthDb => db'.sessions = db.sessions ∧ db'.tokens = db.tokens)
      ⟨rfl, rfl⟩ same

/-! ## A membership, and a late replay -/

section Unfinal

attribute [local instance] lengthDigest sameCase

/-- Secrets of different lengths have different digests. -/
def freshOf (n : Nat) : Fresh where
  secret := String.ofList (List.replicate (16 + n) 's')
  sessionToken := tokenOf n
  refreshToken := tokenOf n
  claimToken := tokenOf n

def refreshTokenOf (n : Nat) : String := (opaqueSecret "refresh" (freshOf n)).1

def ownerClaims : AccessClaims := ⟨"owner-person", newId "device" (tokenOf 1), "jti", 1000⟩

def memberSessions : List (AuthCall × Nat) :=
  [(.enrol "owner-person" "o@e.x" "team-one" .owner, 1),
   (.enrol "member-person" "m@e.x" "team-one" .member, 1),
   (.createSession "owner-person" "laptop" (freshOf 1), 2),
   (.createSession "member-person" "phone" (freshOf 2), 2)]

def revokeMember : AuthCall × Nat :=
  (.changeMembershipStatus ownerClaims "team-one" "member-person" .revoked, 3)

def refreshMember : AuthCall × Nat := (.refresh (refreshTokenOf 2) (freshOf 3), 4)

/-- A second presentation that read its clock before the rotation committed. -/
def lateReplay : AuthCall × Nat := (.refresh (refreshTokenOf 2) (freshOf 4), 3)

/-- The owner revokes a membership and the member's refresh is accepted afterwards. The
session of a token outlives its second presentation when that presentation is dated before
a later row of the session. -/
theorem not_ended_by_membership_or_late_replay :
    (¬ ∀ (_ : Sha256) (_ : UnicodeTables) (acts : List (AuthCall × Nat)),
      (Runs.history authStep .empty acts).Pairwise fun e f =>
        ∀ claims teamId principalId now,
          e.action = (.changeMembershipStatus claims teamId principalId .revoked, now) →
          (∃ id, e.outcome = .ok id) →
          ∀ s ∈ e.before.sessions, s.humanPrincipalId = principalId → ¬ Accepted f s.id) ∧
    ¬ ∀ (_ : Sha256) (_ : UnicodeTables) (acts : List (AuthCall × Nat)),
      ∀ e ∈ Runs.history authStep .empty acts, ∀ token fresh now,
        e.action = (.refresh token fresh, now) → ∀ t, e.before.Presents token t →
        t.consumedAt.isSome = true → Ended (authStep e.before e.action).1 t.deviceSessionId := by
  constructor
  · intro claim
    have ordered := claim lengthDigest sameCase
      (memberSessions ++ revokeMember :: [] ++ [refreshMember])
    rw [Runs.history_two] at ordered
    have pair := (List.pairwise_append.mp ordered).2.2
      (Runs.eventAfter authStep .empty memberSessions revokeMember) (by simp)
      (Runs.eventAfter authStep .empty (memberSessions ++ [revokeMember]) refreshMember) (by simp)
    obtain ⟨s, hs, howner, haccepted⟩ :
        ∃ s ∈ (Runs.run authStep .empty memberSessions).sessions,
          s.humanPrincipalId = "member-person" ∧
          (Runs.eventAfter authStep .empty (memberSessions ++ [revokeMember])
            refreshMember).outcome = .ok s.id := by
      decide
    exact pair ownerClaims "team-one" "member-person" 3 rfl
      ⟨ownerClaims.sessionId, by decide⟩ s hs howner haccepted
  · intro claim
    have late := claim lengthDigest sameCase (memberSessions ++ [refreshMember] ++ [lateReplay])
      _ (Runs.eventAfter_mem authStep .empty _ [] lateReplay) (refreshTokenOf 2) (freshOf 4) 3 rfl
    obtain ⟨t, ht, hhash, hconsumed, hopen⟩ :
        ∃ t ∈ (Runs.run authStep .empty (memberSessions ++ [refreshMember])).tokens,
          tokenHash (refreshTokenOf 2) = some t.tokenHash ∧ t.consumedAt.isSome = true ∧
          ∀ s ∈ (authStep (Runs.run authStep .empty (memberSessions ++ [refreshMember]))
            lateReplay).1.sessions, s.id = t.deviceSessionId → s.revokedAt = none := by
      decide
    obtain ⟨s, hs, hid, hrevoked⟩ := late t ⟨ht, hhash⟩ hconsumed
    simp [hopen s hs hid] at hrevoked

end Unfinal

end AgentsServer.TeamHub

import AgentsServer.TeamHub.SessionLedger
import Mathlib.Logic.Relation

/-!
# The changes of the session tables

Every transaction is a sequence of a few changes. What each change keeps, every
transaction keeps; what a single call does besides is stated once for each call.
-/

namespace AgentsServer.TeamHub

open Library

/-- The changes that every transaction is made of. -/
inductive Change : AuthDb → AuthDb → Prop where
  | around {db db' : AuthDb} (hsessions : db'.sessions = db.sessions)
      (htokens : db'.tokens = db.tokens) (hrecoveries : db'.recoveries = db.recoveries)
      (hhumans : ∀ human ∈ db.humans, human ∈ db'.humans) : Change db db'
  | revoke {db db' : AuthDb} {which : DeviceSession → Bool} {now : Nat}
      (revoked : db.revokeSessions which now = .ok db') : Change db db'
  | create {db : AuthDb} {session : DeviceSession} {token : RefreshToken}
      (checked : session.check = true ∧ session.refreshGeneration = 0)
      (fresh : ∀ old ∈ db.sessions, old.id ≠ session.id)
      (first : token.check = true ∧ token.deviceSessionId = session.id ∧
        token.generation = 0 ∧ token.consumedAt = none)
      (unique : ∀ old ∈ db.tokens, old.id ≠ token.id ∧ old.tokenHash ≠ token.tokenHash)
      (known : ∃ human ∈ db.humans, human.principalId = session.humanPrincipalId) :
      Change db { db with
        sessions := db.sessions ++ [session], tokens := db.tokens ++ [token] }
  | rotate {db : AuthDb} {row token : RefreshToken} {session : DeviceSession} {now : Nat}
      {heads : List (String × Nat)} (found : row ∈ db.tokens ∧ session ∈ db.sessions ∧
        session.id = row.deviceSessionId)
      (current : row.generation = session.refreshGeneration)
      (live : row.consumedAt = none ∧ row.revokedAt = none ∧ session.revokedAt = none)
      (rotation : Rotation db row token session now) :
      Change db { db with
        sessions := db.sessions.map (advanceSession session (row.generation + 1) now)
        tokens := (db.tokens ++ [token]).map (consumeToken row token.id now)
        auditHeads := heads }
  | settle {db : AuthDb} {f : RecoveryClaim → RecoveryClaim}
      (keeps : ∀ c, (f c).id = c.id ∧ (f c).tokenHash = c.tokenHash ∧
        (c.consumedAt.isSome = true → (f c).consumedAt.isSome = true)) :
      Change db { db with recoveries := db.recoveries.map f }
  | prove {db : AuthDb} {claim : RecoveryClaim}
      (fresh : ∀ old ∈ db.recoveries, old.id ≠ claim.id ∧ old.tokenHash ≠ claim.tokenHash) :
      Change db { db with recoveries := db.recoveries ++ [claim] }

/-- Several changes, one after another. -/
abbrev Changes : AuthDb → AuthDb → Prop := Relation.ReflTransGen Change

/-- What every change keeps. -/
theorem Changes.keep {P : AuthDb → Prop} (one : ∀ {db db'}, Change db db' → P db → P db')
    {db db' : AuthDb} (h : Changes db db') (hdb : P db) : P db' := by
  induction h with
  | refl => exact hdb
  | tail _ hlast ih => exact one hlast ih

theorem Change.audited {db db' : AuthDb} {heads : List (String × Nat)}
    (h : db' = { db with auditHeads := heads }) : Change db db' := by
  rw [h]
  exact .around rfl rfl rfl fun _ => id

theorem Ledger.change {db db' : AuthDb} (hchange : Change db db') (h : Ledger db) :
    Ledger db' := by
  cases hchange with
  | around hsessions htokens hrecoveries hhumans =>
      exact h.of_eq hsessions htokens hrecoveries hhumans
  | revoke revoked => exact h.revoke revoked
  | create checked fresh first unique known => exact h.create checked fresh first unique known
  | rotate found current live rotation =>
      exact h.rotate found.1 found.2.1 found.2.2 current live rotation
  | settle keeps =>
      obtain ⟨h1, h2, h3, h4, h5, h6, h7, h8, h9, h10, h11⟩ := h
      refine ⟨h1, h2, h3, h4, h5, h6, h7, h8, h9, ?_, ?_⟩
      · rw [Tables.map_keys fun c => (keeps c).1]
        exact h10
      · rw [Tables.map_keys fun c => (keeps c).2.1]
        exact h11
  | prove fresh =>
      obtain ⟨h1, h2, h3, h4, h5, h6, h7, h8, h9, h10, h11⟩ := h
      refine ⟨h1, h2, h3, h4, h5, h6, h7, h8, h9, ?_, ?_⟩
      · exact Tables.nodup_append_row h10 fun old hold => (fresh old hold).1
      · exact Tables.nodup_append_row h11 fun old hold => (fresh old hold).2

/-- A session of this id is revoked. -/
def Ended (db : AuthDb) (sessionId : String) : Prop :=
  ∃ s ∈ db.sessions, s.id = sessionId ∧ s.revokedAt.isSome = true

/-- A revoked session stays revoked. -/
theorem Ended.change {sessionId : String} {db db' : AuthDb} (hchange : Change db db')
    (h : Ended db sessionId) : Ended db' sessionId := by
  obtain ⟨s, hs, hid, hrevoked⟩ := h
  cases hchange with
  | around hsessions => exact ⟨s, hsessions ▸ hs, hid, hrevoked⟩
  | revoke revoked =>
      obtain ⟨rfl, -⟩ := AuthDb.revokeSessions_eq revoked
      exact ⟨_, List.mem_map_of_mem hs, by simpa using hid, endSession_revoked _ _ (.inr hrevoked)⟩
  | create => exact ⟨s, List.mem_append_left _ hs, hid, hrevoked⟩
  | rotate => exact ⟨_, List.mem_map_of_mem hs, by simpa using hid, by simpa using hrevoked⟩
  | settle => exact ⟨s, hs, hid, hrevoked⟩
  | prove => exact ⟨s, hs, hid, hrevoked⟩

/-- A recovery claim with this hash is consumed. -/
def Redeemed (db : AuthDb) (digest : Bytes) : Prop :=
  ∃ c ∈ db.recoveries, c.tokenHash = digest ∧ c.consumedAt.isSome = true

/-- A consumed claim stays consumed. -/
theorem Redeemed.change {digest : Bytes} {db db' : AuthDb} (hchange : Change db db')
    (h : Redeemed db digest) : Redeemed db' digest := by
  obtain ⟨c, hc, hhash, hconsumed⟩ := h
  cases hchange with
  | around _ _ hrecoveries => exact ⟨c, hrecoveries ▸ hc, hhash, hconsumed⟩
  | revoke revoked =>
      obtain ⟨rfl, -⟩ := AuthDb.revokeSessions_eq revoked
      exact ⟨c, hc, hhash, hconsumed⟩
  | create => exact ⟨c, hc, hhash, hconsumed⟩
  | rotate => exact ⟨c, hc, hhash, hconsumed⟩
  | settle keeps =>
      obtain ⟨-, hsame, hstill⟩ := keeps c
      exact ⟨_, List.mem_map_of_mem hc, hsame.trans hhash, hstill hconsumed⟩
  | prove => exact ⟨c, List.mem_append_left _ hc, hhash, hconsumed⟩

/-! ## The changes of each call -/

namespace AuthDb

variable {db db' : AuthDb} {now : Nat}

theorem replayed_changes {session : DeviceSession} (h : db.replayed session now = .ok db') :
    Changes db db' := by
  unfold replayed at h
  rw [bind_eq_ok] at h
  obtain ⟨_, hrevoke, haudit⟩ := h
  exact .tail (.single (.revoke hrevoke)) (.audited (auditPrincipalTeams_eq haudit))

/-- A presented token that is consumed or not of its session's current generation. -/
def Replay [Sha256] (db : AuthDb) (token : String) (row : RefreshToken)
    (session : DeviceSession) : Prop :=
  ∃ human, (tokenHash token).bind db.lookupRefresh = some (row, session, human) ∧
    (row.consumedAt.isSome = true ∨ row.generation ≠ session.refreshGeneration)

theorem refresh_replay [Sha256] {token : String} {row : RefreshToken} {session : DeviceSession}
    (h : db.Replay token row session) (fresh : Fresh) (now : Nat) :
    (∃ e, (db.refresh token fresh now).2 = .error e) ∧
      ∀ db', db.replayed session now = .ok db' → (db.refresh token fresh now).1 = db' := by
  obtain ⟨human, hfound, hstale⟩ := h
  have hbranch : (row.consumedAt.isSome || row.generation != session.refreshGeneration) = true := by
    simpa using hstale
  unfold refresh
  simp only [hfound, hbranch, if_true]
  constructor
  · split
    next => exact ⟨_, rfl⟩
    next e _ => exact ⟨e, rfl⟩
  · intro db' hok
    rw [hok]

variable [Sha256]

/-- A refresh fails, revokes a session, or rotates a live token of the current generation. -/
theorem refresh_cases (db : AuthDb) (token : String) (fresh : Fresh) (now : Nat) :
    (∃ e, db.refresh token fresh now = (db, .error e)) ∨
      (∃ session e db', db.replayed session now = .ok db' ∧
        db.refresh token fresh now = (db', .error e)) ∨
      ∃ digest row session human issued db', tokenHash token = some digest ∧
        db.lookupRefresh digest = some (row, session, human) ∧
        row.consumedAt = none ∧ row.generation = session.refreshGeneration ∧
        db.rotate row session human fresh now = .ok (issued, db') ∧
        db.refresh token fresh now = (db', .ok issued) := by
  unfold refresh
  split
  next => exact .inl ⟨_, rfl⟩
  next row session human hfound =>
    obtain ⟨digest, hdigest, hlookup⟩ := Option.bind_eq_some_iff.mp hfound
    split
    next =>
      split
      next db' hreplayed => exact .inr (.inl ⟨session, _, db', hreplayed, rfl⟩)
      next e _ => exact .inl ⟨e, rfl⟩
    next hcurrent =>
      simp only [Bool.or_eq_true, not_or, Bool.not_eq_true, Option.isSome_eq_false_iff,
        Option.isNone_iff_eq_none, bne_eq_false_iff_eq] at hcurrent
      rcases atomically_cases db (db.rotate row session human fresh now) with
        ⟨issued, db', hbody, hresult⟩ | ⟨e, hbody, hresult⟩
      · exact .inr (.inr ⟨digest, row, session, human, issued, db', hdigest, hlookup,
          hcurrent.1, hcurrent.2, hbody, hresult⟩)
      · exact .inl ⟨e, hresult⟩

theorem rotate_change {digest : Bytes} {row : RefreshToken} {session : DeviceSession}
    {human : HumanRow} {fresh : Fresh} {issued : Issued}
    (hlookup : db.lookupRefresh digest = some (row, session, human))
    (hlive : row.consumedAt = none) (hcurrent : row.generation = session.refreshGeneration)
    (h : db.rotate row session human fresh now = .ok (issued, db')) : Change db db' := by
  obtain ⟨hrow, -, hsession, howner⟩ := lookupRefresh_eq hlookup
  obtain ⟨-, hkept, hopen, token, heads, rotation, rfl⟩ := rotate_eq h
  exact .rotate ⟨hrow, hsession, howner⟩ hcurrent ⟨hlive, hkept, hopen⟩ rotation

theorem createSession_change {principalId label : String} {fresh : Fresh} {issued : Issued}
    (h : db.createSession principalId label fresh now = .ok (issued, db')) : Change db db' := by
  obtain ⟨session, token, rfl, -, -, checked, unused, first, unique, known⟩ := createSession_eq h
  exact .create checked unused first unique known

/-- Claims are accepted for their own session only, while it is not revoked. -/
theorem requireSession_ok {claims : AccessClaims} {s : DeviceSession}
    (h : db.requireSession claims now = .ok s) :
    s ∈ db.sessions ∧ s.id = claims.sessionId ∧ s.revokedAt = none := by
  unfold requireSession at h
  rw [required_eq_ok] at h
  have hlive := List.find?_some h
  simp only [Bool.and_eq_true, decide_eq_true_eq, Option.isNone_iff_eq_none] at hlive
  exact ⟨List.mem_of_find?_eq_some h, hlive.1.1.1.1.1, hlive.1.1.1.2⟩

theorem revokeSession_ok {claims : AccessClaims} {token sessionId : String}
    (h : db.revokeSession claims token now = .ok (sessionId, db')) :
    (∃ s, db.requireSession claims now = .ok s ∧ s.id = sessionId) ∧
      ∃ mid, db.revokeSessions (fun s => s.id = claims.sessionId) now = .ok mid ∧
        Change mid db' := by
  unfold revokeSession at h
  simp only [bind_eq_ok, required_eq_ok, require_eq_ok, pure_eq_ok, Prod.mk.injEq] at h
  obtain ⟨_, -, s, hsession, _, -, mid, hmid, _, haudit, hid, rfl⟩ := h
  refine ⟨⟨s, hsession, hid⟩, mid, hmid, ?_⟩
  rw [auditPrincipalTeams_eq haudit]
  split
  · exact .around rfl rfl rfl fun _ => id
  · exact .around rfl rfl rfl fun _ => id

theorem revokeDeviceSession_ok {claims : AccessClaims} {deviceSessionId sessionId : String}
    (h : db.revokeDeviceSession claims deviceSessionId now = .ok (sessionId, db')) :
    (∃ s, db.requireSession claims now = .ok s ∧ s.id = sessionId) ∧
      ∃ target mid, identity deviceSessionId = some target ∧
        (∃ s ∈ db.sessions, s.id = target ∧ s.humanPrincipalId = claims.principalId) ∧
        db.revokeSessions (fun s => s.id = target) now = .ok mid ∧ Change mid db' := by
  unfold revokeDeviceSession at h
  simp only [bind_eq_ok, required_eq_ok, require_eq_ok, pure_eq_ok, Prod.mk.injEq] at h
  obtain ⟨target, htarget, s, hsession, _, howned, mid, hmid, _, haudit, hid, rfl⟩ := h
  exact ⟨⟨s, hsession, hid⟩, target, mid, htarget, howned, hmid,
    .audited (auditPrincipalTeams_eq haudit)⟩

/-- A recovery revokes every session of one principal, before anything else. -/
theorem issueDeviceRecovery_ok [UnicodeTables] {email label proof : String}
    {teamId : Option String} {requireOwner fails : Bool} {fresh : Fresh}
    (h : db.issueDeviceRecovery email label teamId requireOwner fails fresh now =
      .ok (proof, db')) :
    ∃ normalized membership mid, normalizedEmail email = .ok normalized ∧
      db.recoverable normalized teamId requireOwner = [membership] ∧
      db.revokeSessions (fun s => s.humanPrincipalId = membership.principalId) now = .ok mid ∧
      Changes mid db' := by
  unfold issueDeviceRecovery at h
  simp only [bind_eq_ok] at h
  obtain ⟨normalized, hnormalized, _, -, h⟩ := h
  split at h
  next membership hone =>
    simp only [bind_eq_ok, required_eq_ok, require_eq_ok, pure_eq_ok, Prod.mk.injEq,
      Tables.updateRows_eq_some, Tables.insertRow_eq_some, Bool.and_eq_true, List.all_eq_true,
      bne_iff_ne] at h
    obtain ⟨mid, hmid, _, ⟨-, rfl⟩, _, -, _, ⟨⟨⟨-, hids⟩, hhashes⟩, rfl⟩, _, haudit, -, rfl⟩ := h
    refine ⟨normalized, membership, mid, hnormalized, hone, hmid, ?_⟩
    refine .tail (.tail (.single (.settle ?_)) (.prove ?_)) (.audited (audit_eq haudit))
    · intro c
      split <;> exact ⟨rfl, rfl, id⟩
    · exact fun old hold => ⟨hids old hold, hhashes old hold⟩
  next => cases h

/-- A redemption finds an open claim, revokes the principal's sessions, creates one session
and consumes the claim. -/
theorem redeemDeviceRecovery_ok {proof deviceLabel : String} {fresh : Fresh} {issued : Issued}
    (h : db.redeemDeviceRecovery proof deviceLabel fresh now = .ok (issued, db')) :
    ∃ digest claim mid label created, tokenHash proof = some digest ∧
      db.redeemable digest now = some claim ∧
      db.revokeSessions (fun s => s.humanPrincipalId = claim.ownerPrincipalId) now = .ok mid ∧
      mid.createSession claim.ownerPrincipalId label fresh now = .ok (issued, created) ∧
      Changes created db' ∧ Redeemed db' digest := by
  unfold redeemDeviceRecovery at h
  simp only [bind_eq_ok, required_eq_ok, require_eq_ok, pure_eq_ok, Prod.exists, Prod.mk.injEq,
    Tables.updateRows_eq_some] at h
  obtain ⟨digest, hdigest, label, -, claim, hclaim, _, -, mid, hmid, session, created, hcreate,
    _, ⟨-, rfl⟩, _, -, _, haudit, rfl, rfl⟩ := h
  have hmem := List.mem_of_find?_eq_some hclaim
  have hopen := List.find?_some hclaim
  simp only [Bool.and_eq_true, decide_eq_true_eq] at hopen
  -- neither the revocation nor the new session touches the claims
  have hkept : created.recoveries = db.recoveries := by
    obtain ⟨_, _, hcreated, -⟩ := createSession_eq hcreate
    rw [hcreated, (revokeSessions_eq hmid).1]
  refine ⟨digest, claim, mid, label, created, hdigest, hclaim, hmid, hcreate, ?_, ?_⟩
  · refine .tail (.single (.settle ?_)) (.audited (audit_eq haudit))
    intro c
    split
    · exact ⟨rfl, rfl, fun _ => rfl⟩
    · exact ⟨rfl, rfl, id⟩
  · rw [audit_eq haudit]
    refine ⟨_, List.mem_map_of_mem (hkept ▸ hmem), ?_⟩
    rw [if_pos (by simpa using hopen.1.1.2)]
    exact ⟨hopen.1.1.1, rfl⟩

/-- A change of a membership leaves every session, token and recovery as it is. -/
theorem changeMembershipStatus_ok {claims : AccessClaims} {teamId principalId sessionId : String}
    {status : Standing}
    (h : db.changeMembershipStatus claims teamId principalId status now = .ok (sessionId, db')) :
    (∃ s, db.requireSession claims now = .ok s ∧ s.id = sessionId) ∧
      db'.sessions = db.sessions ∧ db'.tokens = db.tokens ∧ db'.recoveries = db.recoveries ∧
      db'.humans = db.humans := by
  unfold changeMembershipStatus at h
  simp only [bind_eq_ok, required_eq_ok, require_eq_ok, pure_eq_ok, Prod.mk.injEq] at h
  obtain ⟨_, -, s, hsession, _, -, _, -, _, -, _, -, _, -, _, -, _, -, _, haudit, hid, rfl⟩ := h
  rw [audit_eq haudit]
  exact ⟨⟨s, hsession, hid⟩, rfl, rfl, rfl, rfl⟩

omit [Sha256] in
theorem enrol_change {principalId email teamId id : String} {role : MemberRole}
    (h : db.enrol principalId email teamId role now = .ok (id, db')) : Change db db' := by
  unfold enrol at h
  simp only [bind_eq_ok, required_eq_ok, pure_eq_ok, Prod.mk.injEq,
    Tables.insertRow_eq_some] at h
  obtain ⟨_, ⟨-, rfl⟩, _, -, _, haudit, -, rfl⟩ := h
  rw [audit_eq haudit]
  exact .around rfl rfl rfl fun _ => List.mem_append_left _

end AuthDb

theorem atomically_changes {α : Type} {db : AuthDb} {body : Except Failure (α × AuthDb)}
    (h : ∀ a db', body = .ok (a, db') → Changes db db') : Changes db (atomically db body).1 :=
  atomically_keep (P := Changes db) .refl h

/-- Every call is a sequence of changes. -/
theorem authStep_changes [Sha256] [UnicodeTables] (db : AuthDb) (act : AuthCall × Nat) :
    Changes db (authStep db act).1 := by
  obtain ⟨call, now⟩ := act
  cases call with
  | enrol principalId email teamId role =>
      exact atomically_changes fun _ _ h => .single (AuthDb.enrol_change h)
  | createSession principalId deviceLabel fresh =>
      change Changes db (atomically db (db.createSession principalId deviceLabel fresh now)).1
      exact atomically_changes fun _ _ h => .single (AuthDb.createSession_change h)
  | refresh token fresh =>
      rcases db.refresh_cases token fresh now with
        ⟨e, h⟩ | ⟨session, e, db', hreplayed, h⟩ |
          ⟨digest, row, session, human, issued, db', -, hlookup, hlive, hcurrent, hrotate, h⟩
      · simp only [authStep, h]
        exact .refl
      · simp only [authStep, h]
        exact AuthDb.replayed_changes hreplayed
      · simp only [authStep, h]
        exact .single (AuthDb.rotate_change hlookup hlive hcurrent hrotate)
  | access claims =>
      apply atomically_changes
      intro id db' h
      simp only [AuthDb.access, bind_eq_ok, pure_eq_ok, Prod.mk.injEq] at h
      obtain ⟨_, -, -, rfl⟩ := h
      exact .refl
  | revokeSession claims token =>
      apply atomically_changes
      intro id db' h
      obtain ⟨-, mid, hmid, hlast⟩ := AuthDb.revokeSession_ok h
      exact .tail (.single (.revoke hmid)) hlast
  | revokeDeviceSession claims target =>
      apply atomically_changes
      intro id db' h
      obtain ⟨-, _, mid, -, -, hmid, hlast⟩ := AuthDb.revokeDeviceSession_ok h
      exact .tail (.single (.revoke hmid)) hlast
  | issueDeviceRecovery email label teamId requireOwner fails fresh =>
      apply atomically_changes
      intro proof db' h
      obtain ⟨_, _, mid, -, -, hmid, hrest⟩ := AuthDb.issueDeviceRecovery_ok h
      exact .head (.revoke hmid) hrest
  | redeemDeviceRecovery proof label fresh =>
      change Changes db (atomically db (db.redeemDeviceRecovery proof label fresh now)).1
      apply atomically_changes
      intro issued db' h
      obtain ⟨_, _, mid, _, created, -, -, hmid, hcreate, hrest, -⟩ :=
        AuthDb.redeemDeviceRecovery_ok h
      exact .head (.revoke hmid) (.head (AuthDb.createSession_change hcreate) hrest)
  | changeMembershipStatus claims teamId principalId status =>
      apply atomically_changes
      intro id db' h
      obtain ⟨-, hsessions, htokens, hrecoveries, hhumans⟩ := AuthDb.changeMembershipStatus_ok h
      exact .single (.around hsessions htokens hrecoveries fun _ hmem => hhumans ▸ hmem)

theorem Ledger.step [Sha256] [UnicodeTables] {db : AuthDb} (h : Ledger db)
    (act : AuthCall × Nat) : Ledger (authStep db act).1 :=
  (authStep_changes db act).keep Ledger.change h

theorem Ended.step [Sha256] [UnicodeTables] {db : AuthDb} {sessionId : String}
    (h : Ended db sessionId) (act : AuthCall × Nat) : Ended (authStep db act).1 sessionId :=
  (authStep_changes db act).keep Ended.change h

theorem Redeemed.step [Sha256] [UnicodeTables] {db : AuthDb} {digest : Bytes}
    (h : Redeemed db digest) (act : AuthCall × Nat) : Redeemed (authStep db act).1 digest :=
  (authStep_changes db act).keep Redeemed.change h

end AgentsServer.TeamHub

import AgentsServer.TeamHub.Sessions
import Mathlib.Data.List.Range

/-!
# The session ledger

What every transaction keeps: rows meet their checks, keys are unique, the tokens of a
session have the generations from zero to the session's own, each once, and exactly the
older ones are consumed. An ended session stays ended.
-/

namespace AgentsServer.TeamHub

open Library

/-! ## What one change of the tables does -/

/-- A session after a revocation. -/
def endSession (which : DeviceSession → Bool) (now : Nat) (s : DeviceSession) : DeviceSession :=
  if which s && s.revokedAt.isNone then { s with revokedAt := some now } else s

/-- A token after a revocation of some sessions. -/
def endToken (ids : List String) (now : Nat) (t : RefreshToken) : RefreshToken :=
  if ids.contains t.deviceSessionId && t.consumedAt.isNone && t.revokedAt.isNone
  then { t with revokedAt := some now } else t

section Fields

variable (which : DeviceSession → Bool) (ids : List String) (now : Nat)

@[simp] theorem endSession_id (s : DeviceSession) : (endSession which now s).id = s.id := by
  unfold endSession
  split <;> rfl

@[simp] theorem endSession_refreshGeneration (s : DeviceSession) :
    (endSession which now s).refreshGeneration = s.refreshGeneration := by
  unfold endSession
  split <;> rfl

@[simp] theorem endSession_humanPrincipalId (s : DeviceSession) :
    (endSession which now s).humanPrincipalId = s.humanPrincipalId := by
  unfold endSession
  split <;> rfl

theorem endSession_revoked {s : DeviceSession} (h : which s = true ∨ s.revokedAt.isSome) :
    (endSession which now s).revokedAt.isSome = true := by
  unfold endSession
  split
  next => rfl
  next hnot =>
    rcases h with h | h
    · rw [h, Bool.true_and] at hnot
      cases hr : s.revokedAt with
      | none => simp [hr] at hnot
      | some => rfl
    · exact h

@[simp] theorem endToken_deviceSessionId (t : RefreshToken) :
    (endToken ids now t).deviceSessionId = t.deviceSessionId := by
  unfold endToken
  split <;> rfl

@[simp] theorem endToken_id (t : RefreshToken) : (endToken ids now t).id = t.id := by
  unfold endToken
  split <;> rfl

@[simp] theorem endToken_tokenHash (t : RefreshToken) :
    (endToken ids now t).tokenHash = t.tokenHash := by
  unfold endToken
  split <;> rfl

@[simp] theorem endToken_generation (t : RefreshToken) :
    (endToken ids now t).generation = t.generation := by
  unfold endToken
  split <;> rfl

@[simp] theorem endToken_consumedAt (t : RefreshToken) :
    (endToken ids now t).consumedAt = t.consumedAt := by
  unfold endToken
  split <;> rfl

end Fields

namespace AuthDb

variable {db db' : AuthDb} {now : Nat}

theorem audit_eq {teamId : String} (h : db.audit teamId now = .ok db') :
    db' = { db with auditHeads := db'.auditHeads } := by
  unfold audit at h
  split at h
  · cases h
    rfl
  · simp only [bind_eq_ok, require_eq_ok, pure_eq_ok] at h
    obtain ⟨_, -, rfl⟩ := h
    rfl

/-- Auditing changes the audit heads only. -/
theorem auditPrincipalTeams_eq {principalId : String}
    (h : db.auditPrincipalTeams principalId now = .ok db') :
    db' = { db with auditHeads := db'.auditHeads } := by
  unfold auditPrincipalTeams at h
  exact foldlM_related (R := fun a b : AuthDb => b = { a with auditHeads := b.auditHeads })
    (fun _ => rfl) (fun a b c hab hbc => by rw [hbc, hab]) (fun _ _ _ => audit_eq) h

theorem revokeSessions_eq {which : DeviceSession → Bool}
    (h : db.revokeSessions which now = .ok db') :
    db' = { db with
      sessions := db.sessions.map (endSession which now)
      tokens := db.tokens.map
        (endToken ((db.sessions.filter which).map DeviceSession.id) now) } ∧
      (∀ s ∈ db.sessions, (which s && s.revokedAt.isNone) = true →
        s.mayBecome { s with revokedAt := some now } = true) ∧
      (∀ t ∈ db.tokens, (((db.sessions.filter which).map DeviceSession.id).contains
        t.deviceSessionId && t.consumedAt.isNone && t.revokedAt.isNone) = true →
        t.mayBecome { t with revokedAt := some now } = true) := by
  unfold revokeSessions at h
  simp only [bind_eq_ok, required_eq_ok, pure_eq_ok, Tables.updateRows_eq_some] at h
  obtain ⟨_, ⟨hsessions, rfl⟩, _, ⟨htokens, rfl⟩, rfl⟩ := h
  exact ⟨rfl, hsessions, htokens⟩

theorem insertToken_eq {t : RefreshToken} (h : db.insertToken t = .ok db') :
    db' = { db with tokens := db.tokens ++ [t] } ∧ t.check = true ∧
      (∀ old ∈ db.tokens, old.id ≠ t.id ∧ old.tokenHash ≠ t.tokenHash ∧
        ¬ (old.deviceSessionId = t.deviceSessionId ∧ old.generation = t.generation)) := by
  unfold insertToken at h
  simp only [bind_eq_ok, required_eq_ok, pure_eq_ok, Tables.insertRow_eq_some,
    Bool.and_eq_true, List.all_eq_true, decide_eq_true_eq] at h
  obtain ⟨_, ⟨⟨⟨hcheck, hunique⟩, hhash⟩, rfl⟩, rfl⟩ := h
  exact ⟨rfl, hcheck, fun old hold => ⟨(hunique old hold).1, hhash old hold,
    (hunique old hold).2⟩⟩

end AuthDb

/-! ## The invariant -/

/-- The tokens of a session, in the order of their creation. -/
def AuthDb.tokensOf (db : AuthDb) (sessionId : String) : List RefreshToken :=
  db.tokens.filter fun t => t.deviceSessionId = sessionId

structure Ledger (db : AuthDb) : Prop where
  sessionChecks : ∀ s ∈ db.sessions, s.check = true
  tokenChecks : ∀ t ∈ db.tokens, t.check = true
  sessionIds : (db.sessions.map DeviceSession.id).Nodup
  tokenIds : (db.tokens.map RefreshToken.id).Nodup
  tokenHashes : (db.tokens.map RefreshToken.tokenHash).Nodup
  owned : ∀ t ∈ db.tokens, ∃ s ∈ db.sessions, s.id = t.deviceSessionId
  generations : ∀ s ∈ db.sessions,
    (db.tokensOf s.id).map RefreshToken.generation = List.range (s.refreshGeneration + 1)
  consumed : ∀ t ∈ db.tokens, ∀ s ∈ db.sessions, s.id = t.deviceSessionId →
    (t.consumedAt.isSome = true ↔ t.generation < s.refreshGeneration)
  humans : ∀ s ∈ db.sessions, ∃ h ∈ db.humans, h.principalId = s.humanPrincipalId
  recoveryIds : (db.recoveries.map RecoveryClaim.id).Nodup
  recoveryHashes : (db.recoveries.map RecoveryClaim.tokenHash).Nodup

theorem Ledger.empty : Ledger .empty := by
  constructor <;> simp [AuthDb.empty]

namespace Ledger

variable {db db' : AuthDb} {now : Nat}

/-- The ledger speaks of sessions, tokens and recoveries, and of accounts that only grow. -/
theorem of_eq (h : Ledger db) (hsessions : db'.sessions = db.sessions)
    (htokens : db'.tokens = db.tokens) (hrecoveries : db'.recoveries = db.recoveries)
    (hhumans : ∀ human ∈ db.humans, human ∈ db'.humans) : Ledger db' := by
  obtain ⟨h1, h2, h3, h4, h5, h6, h7, h8, h9, h10, h11⟩ := h
  have hknown : ∀ s ∈ db'.sessions, ∃ human ∈ db'.humans,
      human.principalId = s.humanPrincipalId := by
    intro s hs
    obtain ⟨human, hmem, hid⟩ := h9 s (hsessions ▸ hs)
    exact ⟨human, hhumans human hmem, hid⟩
  clear h9 hhumans
  constructor <;> simp only [hsessions, htokens, hrecoveries, AuthDb.tokensOf] at * <;>
    assumption

/-- A session has at most one token of a generation. -/
theorem generation_unique (h : Ledger db) {s : DeviceSession} (hs : s ∈ db.sessions)
    {t₁ t₂ : RefreshToken} (h₁ : t₁ ∈ db.tokens) (h₂ : t₂ ∈ db.tokens)
    (ho₁ : t₁.deviceSessionId = s.id) (ho₂ : t₂.deviceSessionId = s.id)
    (hgen : t₁.generation = t₂.generation) : t₁ = t₂ := by
  have hnodup : ((db.tokensOf s.id).map RefreshToken.generation).Nodup := by
    rw [h.generations s hs]
    exact List.nodup_range
  apply Tables.eq_of_key hnodup _ _ hgen
  · simpa [AuthDb.tokensOf] using ⟨h₁, ho₁⟩
  · simpa [AuthDb.tokensOf] using ⟨h₂, ho₂⟩

theorem generation_le (h : Ledger db) {s : DeviceSession} (hs : s ∈ db.sessions)
    {t : RefreshToken} (ht : t ∈ db.tokens) (howner : t.deviceSessionId = s.id) :
    t.generation ≤ s.refreshGeneration := by
  have hmem : t.generation ∈ (db.tokensOf s.id).map RefreshToken.generation := by
    apply List.mem_map_of_mem
    simpa [AuthDb.tokensOf] using ⟨ht, howner⟩
  rw [h.generations s hs, List.mem_range] at hmem
  omega

/-- A revocation keeps the ledger. -/
theorem revoke (h : Ledger db) {which : DeviceSession → Bool}
    (hok : db.revokeSessions which now = .ok db') : Ledger db' := by
  obtain ⟨rfl, hsessions, htokens⟩ := AuthDb.revokeSessions_eq hok
  constructor
  · intro s hs
    obtain ⟨s, hold, rfl⟩ := List.mem_map.mp hs
    unfold endSession
    split
    next hsel =>
      have hbecome := hsessions s hold hsel
      simp only [DeviceSession.mayBecome, Bool.and_eq_true] at hbecome
      exact hbecome.1.1.1
    next => exact h.sessionChecks s hold
  · intro t ht
    obtain ⟨t, hrow, rfl⟩ := List.mem_map.mp ht
    unfold endToken
    split
    next hsel =>
      have hbecome := htokens t hrow hsel
      simp only [RefreshToken.mayBecome, Bool.and_eq_true] at hbecome
      exact hbecome.1.1
    next => exact h.tokenChecks t hrow
  · rw [Tables.map_keys (fun s => endSession_id which now s)]
    exact h.sessionIds
  · rw [Tables.map_keys (fun t => endToken_id _ now t)]
    exact h.tokenIds
  · rw [Tables.map_keys (fun t => endToken_tokenHash _ now t)]
    exact h.tokenHashes
  · intro t ht
    obtain ⟨t, hrow, rfl⟩ := List.mem_map.mp ht
    obtain ⟨s, hs, hid⟩ := h.owned t hrow
    exact ⟨endSession which now s, List.mem_map_of_mem hs, by simpa using hid⟩
  · intro s hs
    obtain ⟨s, hold, rfl⟩ := List.mem_map.mp hs
    rw [endSession_refreshGeneration, ← h.generations s hold]
    simp [AuthDb.tokensOf, List.filter_map, Function.comp_def]
  · intro t ht s hs hid
    obtain ⟨t, hrow, rfl⟩ := List.mem_map.mp ht
    obtain ⟨s, hold, rfl⟩ := List.mem_map.mp hs
    simp only [endSession_id, endToken_deviceSessionId] at hid
    simpa using h.consumed t hrow s hold hid
  · intro s hs
    obtain ⟨s, hold, rfl⟩ := List.mem_map.mp hs
    simpa using h.humans s hold
  · exact h.recoveryIds
  · exact h.recoveryHashes

/-- A new session comes with one token of generation zero. -/
theorem create (h : Ledger db) {session : DeviceSession} {token : RefreshToken}
    (hsession : session.check = true ∧ session.refreshGeneration = 0)
    (hfresh : ∀ old ∈ db.sessions, old.id ≠ session.id)
    (htoken : token.check = true ∧ token.deviceSessionId = session.id ∧
      token.generation = 0 ∧ token.consumedAt = none)
    (hunique : ∀ old ∈ db.tokens, old.id ≠ token.id ∧ old.tokenHash ≠ token.tokenHash)
    (hknown : ∃ human ∈ db.humans, human.principalId = session.humanPrincipalId) :
    Ledger { db with sessions := db.sessions ++ [session], tokens := db.tokens ++ [token] } := by
  obtain ⟨htcheck, htowner, htgen, htlive⟩ := htoken
  -- no old token is the new session's
  have hothers : ∀ t ∈ db.tokens, t.deviceSessionId ≠ session.id := by
    intro t ht hid
    obtain ⟨s, hs, hsid⟩ := h.owned t ht
    exact hfresh s hs (hsid.trans hid)
  constructor
  · intro s hs
    rcases List.mem_append.mp hs with hs | hs
    · exact h.sessionChecks s hs
    · rw [List.mem_singleton.mp hs]
      exact hsession.1
  · intro t ht
    rcases List.mem_append.mp ht with ht | ht
    · exact h.tokenChecks t ht
    · rw [List.mem_singleton.mp ht]
      exact htcheck
  · exact Tables.nodup_append_row h.sessionIds hfresh
  · exact Tables.nodup_append_row h.tokenIds fun old hold => (hunique old hold).1
  · exact Tables.nodup_append_row h.tokenHashes fun old hold => (hunique old hold).2
  · intro t ht
    rcases List.mem_append.mp ht with ht | ht
    · obtain ⟨s, hs, hid⟩ := h.owned t ht
      exact ⟨s, List.mem_append_left _ hs, hid⟩
    · rw [List.mem_singleton.mp ht]
      exact ⟨session, List.mem_append_right _ (List.mem_singleton.mpr rfl), htowner.symm⟩
  · intro s hs
    rcases List.mem_append.mp hs with hs | hs
    · have hne : token.deviceSessionId ≠ s.id := by
        rw [htowner]
        exact (hfresh s hs).symm
      rw [← h.generations s hs]
      simp [AuthDb.tokensOf, List.filter_append, hne]
    · rw [List.mem_singleton.mp hs, hsession.2]
      have hnone : db.tokens.filter (fun t => t.deviceSessionId = session.id) = [] := by
        rw [List.filter_eq_nil_iff]
        intro t ht
        simpa using hothers t ht
      simp [AuthDb.tokensOf, List.filter_append, hnone, htowner, htgen]
  · intro t ht s hs hid
    rcases List.mem_append.mp ht with ht | ht
    · rcases List.mem_append.mp hs with hs | hs
      · exact h.consumed t ht s hs hid
      · rw [List.mem_singleton.mp hs] at hid
        exact absurd hid.symm (hothers t ht)
    · rw [List.mem_singleton.mp ht] at hid ⊢
      rcases List.mem_append.mp hs with hs | hs
      · exact absurd (hid.trans htowner) (hfresh s hs)
      · rw [List.mem_singleton.mp hs, htlive, htgen, hsession.2]
        simp
  · intro s hs
    rcases List.mem_append.mp hs with hs | hs
    · exact h.humans s hs
    · rw [List.mem_singleton.mp hs]
      exact hknown
  · exact h.recoveryIds
  · exact h.recoveryHashes

end Ledger

/-- The rotated token after its rotation. -/
def consumeToken (row : RefreshToken) (replacementId : String) (now : Nat) (t : RefreshToken) :
    RefreshToken :=
  if t.id = row.id && t.consumedAt.isNone && t.revokedAt.isNone
  then { t with consumedAt := some now, replacedByTokenId := some replacementId } else t

/-- The session after a rotation. -/
def advanceSession (session : DeviceSession) (generation now : Nat) (s : DeviceSession) :
    DeviceSession :=
  if s.id = session.id && s.revokedAt.isNone
  then { s with refreshGeneration := generation, lastSeenAt := now } else s

section Fields

variable (row : RefreshToken) (replacementId : String) (session : DeviceSession)
  (generation now : Nat)

@[simp] theorem consumeToken_id (t : RefreshToken) :
    (consumeToken row replacementId now t).id = t.id := by
  unfold consumeToken
  split <;> rfl

@[simp] theorem consumeToken_deviceSessionId (t : RefreshToken) :
    (consumeToken row replacementId now t).deviceSessionId = t.deviceSessionId := by
  unfold consumeToken
  split <;> rfl

@[simp] theorem consumeToken_tokenHash (t : RefreshToken) :
    (consumeToken row replacementId now t).tokenHash = t.tokenHash := by
  unfold consumeToken
  split <;> rfl

@[simp] theorem consumeToken_generation (t : RefreshToken) :
    (consumeToken row replacementId now t).generation = t.generation := by
  unfold consumeToken
  split <;> rfl

@[simp] theorem advanceSession_id (s : DeviceSession) :
    (advanceSession session generation now s).id = s.id := by
  unfold advanceSession
  split <;> rfl

@[simp] theorem advanceSession_revokedAt (s : DeviceSession) :
    (advanceSession session generation now s).revokedAt = s.revokedAt := by
  unfold advanceSession
  split <;> rfl

@[simp] theorem advanceSession_humanPrincipalId (s : DeviceSession) :
    (advanceSession session generation now s).humanPrincipalId = s.humanPrincipalId := by
  unfold advanceSession
  split <;> rfl

theorem consumeToken_of_ne {t : RefreshToken} (h : t.id ≠ row.id) :
    consumeToken row replacementId now t = t := by
  simp [consumeToken, h]

theorem consumeToken_live {t : RefreshToken} (hid : t.id = row.id)
    (hlive : t.consumedAt = none ∧ t.revokedAt = none) :
    (consumeToken row replacementId now t).consumedAt = some now := by
  simp [consumeToken, hid, hlive.1, hlive.2]

theorem advanceSession_of_ne {s : DeviceSession} (h : s.id ≠ session.id) :
    advanceSession session generation now s = s := by
  simp [advanceSession, h]

theorem advanceSession_live {s : DeviceSession} (hid : s.id = session.id)
    (hlive : s.revokedAt = none) :
    (advanceSession session generation now s).refreshGeneration = generation := by
  simp [advanceSession, hid, hlive]

end Fields

/-- What the tables check of a rotation. -/
structure Rotation (db : AuthDb) (row token : RefreshToken) (session : DeviceSession)
    (now : Nat) : Prop where
  check : token.check = true
  owner : token.deviceSessionId = session.id
  generation : token.generation = row.generation + 1
  live : token.consumedAt = none
  fresh : ∀ old ∈ db.tokens, old.id ≠ token.id ∧ old.tokenHash ≠ token.tokenHash
  tokens : ∀ t ∈ db.tokens ++ [token],
    (decide (t.id = row.id) && t.consumedAt.isNone && t.revokedAt.isNone) = true →
    t.mayBecome { t with consumedAt := some now, replacedByTokenId := some token.id } = true
  sessions : ∀ s ∈ db.sessions, (decide (s.id = session.id) && s.revokedAt.isNone) = true →
    s.mayBecome { s with
      refreshGeneration := row.generation + 1, lastSeenAt := now } = true

namespace AuthDb

variable {db db' : AuthDb} {now : Nat}

theorem createSession_eq [Sha256] {principalId label : String} {fresh : Fresh}
    {issued : Issued} (h : db.createSession principalId label fresh now = .ok (issued, db')) :
    ∃ session token, db' = { db with
        sessions := db.sessions ++ [session], tokens := db.tokens ++ [token] } ∧
      session.id = issued.sessionId ∧ session.revokedAt = none ∧
      (session.check = true ∧ session.refreshGeneration = 0) ∧
      (∀ old ∈ db.sessions, old.id ≠ session.id) ∧
      (token.check = true ∧ token.deviceSessionId = session.id ∧ token.generation = 0 ∧
        token.consumedAt = none) ∧
      (∀ old ∈ db.tokens, old.id ≠ token.id ∧ old.tokenHash ≠ token.tokenHash) ∧
      ∃ human ∈ db.humans, human.principalId = session.humanPrincipalId := by
  unfold createSession at h
  simp only [bind_eq_ok, required_eq_ok, require_eq_ok, pure_eq_ok,
    Tables.insertRow_eq_some] at h
  obtain ⟨text, -, _, hknown, _, ⟨⟨hcheck, hfresh⟩, rfl⟩, _, hinsert, heq⟩ := h
  obtain ⟨rfl, htcheck, hunique⟩ := insertToken_eq hinsert
  cases heq
  exact ⟨_, _, rfl, rfl, rfl, ⟨hcheck, rfl⟩, hfresh, ⟨htcheck, rfl, rfl, rfl⟩,
    fun old hold => ⟨(hunique old hold).1, (hunique old hold).2.1⟩, hknown⟩

theorem lookupRefresh_eq {digest : Bytes} {row : RefreshToken} {session : DeviceSession}
    {human : HumanRow} (h : db.lookupRefresh digest = some (row, session, human)) :
    row ∈ db.tokens ∧ row.tokenHash = digest ∧ session ∈ db.sessions ∧
      session.id = row.deviceSessionId := by
  unfold lookupRefresh at h
  simp only [Option.bind_eq_bind, Option.bind_eq_some_iff, Option.pure_def,
    Option.some.injEq, Prod.mk.injEq] at h
  obtain ⟨_, hrow, _, hsession, _, -, rfl, rfl, rfl⟩ := h
  obtain ⟨hmem, hhash⟩ := Tables.find_mem hrow
  obtain ⟨hsmem, hid⟩ := Tables.find_mem hsession
  exact ⟨hmem, hhash, hsmem, hid⟩

theorem rotate_eq [Sha256] {row : RefreshToken} {session : DeviceSession} {human : HumanRow}
    {fresh : Fresh} {issued : Issued}
    (h : db.rotate row session human fresh now = .ok (issued, db')) :
    issued.sessionId = session.id ∧ row.revokedAt = none ∧ session.revokedAt = none ∧
      ∃ token heads, Rotation db row token session now ∧
        db' = { db with
          sessions := db.sessions.map (advanceSession session (row.generation + 1) now)
          tokens := (db.tokens ++ [token]).map (consumeToken row token.id now)
          auditHeads := heads } := by
  unfold rotate at h
  simp only [bind_eq_ok, required_eq_ok, require_eq_ok, pure_eq_ok,
    Tables.updateRows_eq_some] at h
  obtain ⟨_, ⟨hrow, hsession, -⟩, _, hinsert, _, ⟨htokens, rfl⟩, _, -, _, ⟨hsessions, rfl⟩,
    _, haudit, heq⟩ := h
  obtain ⟨rfl, hcheck, hunique⟩ := insertToken_eq hinsert
  cases heq
  refine ⟨rfl, hrow, hsession, _, db'.auditHeads, ⟨hcheck, rfl, rfl, rfl, ?_, ?_, hsessions⟩, ?_⟩
  · exact fun old hold => ⟨(hunique old hold).1, (hunique old hold).2.1⟩
  · intro t ht hsel
    have hallowed := htokens t ht hsel
    rw [Bool.and_eq_true] at hallowed
    exact hallowed.1
  · exact auditPrincipalTeams_eq haudit

end AuthDb

namespace Ledger

variable {db : AuthDb} {now : Nat}

/-- A rotation consumes the current token and adds the next one. -/
theorem rotate (h : Ledger db) {row token : RefreshToken} {session : DeviceSession}
    {heads : List (String × Nat)} (hrow : row ∈ db.tokens) (hsession : session ∈ db.sessions)
    (howner : session.id = row.deviceSessionId)
    (hcurrent : row.generation = session.refreshGeneration)
    (hlive : row.consumedAt = none ∧ row.revokedAt = none ∧ session.revokedAt = none)
    (rotation : Rotation db row token session now) :
    Ledger { db with
      sessions := db.sessions.map (advanceSession session (row.generation + 1) now)
      tokens := (db.tokens ++ [token]).map (consumeToken row token.id now)
      auditHeads := heads } := by
  obtain ⟨hcheck, htowner, htgen, htlive, hunique, htokens, hsessions⟩ := rotation
  -- the session and the token of the rotation are found by their ids
  have hself : ∀ s ∈ db.sessions, s.id = session.id → s = session := fun s hs hid =>
    Tables.eq_of_key h.sessionIds hs hsession hid
  have hrowId : ∀ t ∈ db.tokens, t.id = row.id → t = row := fun t ht hid =>
    Tables.eq_of_key h.tokenIds ht hrow hid
  have hnew : token.id ≠ row.id := (hunique row hrow).1.symm
  constructor
  · intro s hs
    obtain ⟨s, hold, rfl⟩ := List.mem_map.mp hs
    unfold advanceSession
    split
    next hsel =>
      have hbecome := hsessions s hold hsel
      simp only [DeviceSession.mayBecome, Bool.and_eq_true] at hbecome
      exact hbecome.1.1.1
    next => exact h.sessionChecks s hold
  · intro t ht
    obtain ⟨t, hmem, rfl⟩ := List.mem_map.mp ht
    unfold consumeToken
    split
    next hsel =>
      have hbecome := htokens t hmem hsel
      simp only [RefreshToken.mayBecome, Bool.and_eq_true] at hbecome
      exact hbecome.1.1
    next =>
      rcases List.mem_append.mp hmem with hold | hmem
      · exact h.tokenChecks t hold
      · rw [List.mem_singleton.mp hmem]
        exact hcheck
  · rw [Tables.map_keys (fun s => advanceSession_id session _ now s)]
    exact h.sessionIds
  · rw [Tables.map_keys (fun t => consumeToken_id row _ now t)]
    exact Tables.nodup_append_row h.tokenIds fun old hold => (hunique old hold).1
  · rw [Tables.map_keys (fun t => consumeToken_tokenHash row _ now t)]
    exact Tables.nodup_append_row h.tokenHashes fun old hold => (hunique old hold).2
  · intro t ht
    obtain ⟨t, hmem, rfl⟩ := List.mem_map.mp ht
    obtain ⟨s, hs, hid⟩ : ∃ s ∈ db.sessions, s.id = t.deviceSessionId := by
      rcases List.mem_append.mp hmem with hold | hmem
      · exact h.owned t hold
      · rw [List.mem_singleton.mp hmem]
        exact ⟨session, hsession, htowner.symm⟩
    exact ⟨advanceSession session _ now s, List.mem_map_of_mem hs, by simpa using hid⟩
  · intro s hs
    obtain ⟨s, hold, rfl⟩ := List.mem_map.mp hs
    have hbefore := h.generations s hold
    by_cases hid : s.id = session.id
    · obtain rfl := hself s hold hid
      rw [advanceSession_live _ _ _ rfl hlive.2.2, List.range_succ, hcurrent, ← hbefore]
      simp [AuthDb.tokensOf, List.filter_map, List.filter_append, Function.comp_def,
        htowner, htgen, hcurrent]
    · have hother : token.deviceSessionId ≠ s.id := by
        rw [htowner]
        exact fun heq => hid heq.symm
      rw [advanceSession_of_ne _ _ _ hid, ← hbefore]
      simp [AuthDb.tokensOf, List.filter_map, List.filter_append, Function.comp_def, hother]
  · intro t ht s hs hid
    obtain ⟨t, hmem, rfl⟩ := List.mem_map.mp ht
    obtain ⟨s, hold, rfl⟩ := List.mem_map.mp hs
    simp only [advanceSession_id, consumeToken_deviceSessionId] at hid
    rw [consumeToken_generation]
    rcases List.mem_append.mp hmem with hmem | hmem
    · have hbefore := h.consumed t hmem s hold hid
      by_cases hsid : s.id = session.id
      · obtain rfl := hself s hold hsid
        rw [advanceSession_live _ _ _ rfl hlive.2.2]
        by_cases htid : t.id = row.id
        · obtain rfl := hrowId t hmem htid
          rw [consumeToken_live _ _ _ rfl ⟨hlive.1, hlive.2.1⟩]
          simp
        · have hne : t.generation ≠ row.generation := by
            intro heq
            apply htid
            rw [h.generation_unique hold hmem hrow hid.symm howner.symm heq]
          rw [consumeToken_of_ne _ _ _ htid, hbefore]
          omega
      · have htid : t.id ≠ row.id := by
          intro heq
          rw [hrowId t hmem heq] at hid
          exact hsid (hid.trans howner.symm)
        rw [consumeToken_of_ne _ _ _ htid, advanceSession_of_ne _ _ _ hsid]
        exact hbefore
    · rw [List.mem_singleton.mp hmem] at hid ⊢
      obtain rfl := hself s hold (hid.trans htowner)
      rw [advanceSession_live _ _ _ rfl hlive.2.2, consumeToken_of_ne _ _ _ hnew, htlive, htgen]
      simp
  · intro s hs
    obtain ⟨s, hold, rfl⟩ := List.mem_map.mp hs
    simpa using h.humans s hold
  · exact h.recoveryIds
  · exact h.recoveryHashes

end Ledger

end AgentsServer.TeamHub

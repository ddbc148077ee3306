import AgentsServer.Library.Runs
import AgentsServer.TeamHub.Schema

/-!
# Device sessions, refresh tokens and device recovery

Each operation reads the clock before its write transaction begins, so the times of
successive transactions come in any order. The checks and triggers of the tables are
part of the model: a change they refuse fails the whole transaction.
-/

namespace AgentsServer.TeamHub

open Library

def sessionTtlSeconds : Nat := 30 * 24 * 60 * 60

def recoveryProofTtlSeconds : Nat := 10 * 60

inductive Standing where
  | active
  | suspended
  | revoked
  deriving DecidableEq

/-- A human account with the status of its principal. -/
structure HumanRow where
  principalId : String
  emailNormalized : String
  status : Standing
  deriving DecidableEq

inductive MemberRole where
  | owner
  | admin
  | member
  | guest
  | automation
  deriving DecidableEq

structure MembershipRow where
  teamId : String
  principalId : String
  role : MemberRole
  status : Standing
  createdAt : Nat
  updatedAt : Nat
  deriving DecidableEq

structure DeviceSession where
  id : String
  humanPrincipalId : String
  deviceLabel : String
  refreshGeneration : Nat
  createdAt : Nat
  lastSeenAt : Nat
  expiresAt : Nat
  revokedAt : Option Nat
  deriving DecidableEq

structure RefreshToken where
  id : String
  deviceSessionId : String
  tokenHash : Bytes
  generation : Nat
  createdAt : Nat
  expiresAt : Nat
  consumedAt : Option Nat
  replacedByTokenId : Option String
  revokedAt : Option Nat
  deriving DecidableEq

structure RecoveryClaim where
  id : String
  teamId : String
  ownerPrincipalId : String
  tokenHash : Bytes
  deviceLabel : String
  createdAt : Nat
  expiresAt : Nat
  consumedAt : Option Nat
  consumedBySessionId : Option String
  revokedAt : Option Nat
  deriving DecidableEq

structure AccessRevocation where
  jtiHash : Bytes
  deviceSessionId : String
  expiresAt : Nat
  deriving DecidableEq

/-! ## Checks and triggers -/

def DeviceSession.check (s : DeviceSession) : Bool :=
  s.createdAt ≤ s.lastSeenAt && s.createdAt < s.expiresAt && s.revokedAt.all (s.createdAt ≤ ·)

/-- `device_session_counters_are_monotonic`, and the checks of the new row. -/
def DeviceSession.mayBecome (old new : DeviceSession) : Bool :=
  new.check && old.refreshGeneration ≤ new.refreshGeneration && old.lastSeenAt ≤ new.lastSeenAt
    && (old.revokedAt.isNone || new.revokedAt == old.revokedAt)

def RefreshToken.check (t : RefreshToken) : Bool :=
  t.createdAt < t.expiresAt && t.consumedAt.all (t.createdAt ≤ ·)
    && t.revokedAt.all (t.createdAt ≤ ·) && t.consumedAt.isNone == t.replacedByTokenId.isNone
    && (t.consumedAt.isNone || t.revokedAt.isNone)

/-- `refresh_token_terminal_state_is_one_way`, and the checks of the new row. -/
def RefreshToken.mayBecome (old new : RefreshToken) : Bool :=
  new.check
    && (old.consumedAt.isNone || (new.consumedAt == old.consumedAt
      && new.replacedByTokenId == old.replacedByTokenId))
    && (old.revokedAt.isNone || new.revokedAt == old.revokedAt)

/-- `refresh_token_rotation_stays_in_session`. -/
def RefreshToken.rotatesWithin (tokens : List RefreshToken) (old new : RefreshToken) : Bool :=
  new.consumedAt.isNone || tokens.any fun replacement =>
    replacement.deviceSessionId == old.deviceSessionId
      && new.replacedByTokenId == some replacement.id
      && replacement.generation == old.generation + 1
      && replacement.consumedAt.isNone && replacement.revokedAt.isNone

def RecoveryClaim.check (c : RecoveryClaim) : Bool :=
  c.createdAt < c.expiresAt && c.consumedAt.all (c.createdAt ≤ ·)
    && c.revokedAt.all (c.createdAt ≤ ·) && c.consumedAt.isNone == c.consumedBySessionId.isNone
    && (c.consumedAt.isNone || c.revokedAt.isNone)

def RecoveryClaim.mayBecome (old new : RecoveryClaim) : Bool :=
  new.check
    && (old.consumedAt.isNone || (new.consumedAt == old.consumedAt
      && new.consumedBySessionId == old.consumedBySessionId))
    && (old.revokedAt.isNone || new.revokedAt == old.revokedAt)

def RecoveryClaim.isOpen (c : RecoveryClaim) (now : Nat) : Bool :=
  c.consumedAt.isNone && c.revokedAt.isNone && now < c.expiresAt

/-- `membership_revocation_is_terminal`, and the check of the new row. -/
def MembershipRow.mayBecome (old new : MembershipRow) : Bool :=
  new.createdAt ≤ new.updatedAt && (old.status != .revoked || new.status == .revoked)

/-! ## The tables -/

structure AuthDb where
  humans : List HumanRow
  memberships : List MembershipRow
  sessions : List DeviceSession
  tokens : List RefreshToken
  recoveries : List RecoveryClaim
  accessRevocations : List AccessRevocation
  /-- `updated_at` of the audit chain head of each team -/
  auditHeads : List (String × Nat)

def AuthDb.empty : AuthDb := ⟨[], [], [], [], [], [], []⟩

/-- What `secrets` returns to one call. -/
structure Fresh where
  secret : String
  sessionToken : TokenHex
  refreshToken : TokenHex
  claimToken : TokenHex

structure Issued where
  sessionId : String
  refreshToken : String
  refreshExpiresAt : Nat
  deriving DecidableEq

structure AccessClaims where
  principalId : String
  sessionId : String
  jti : String
  expiresAt : Nat
  deriving DecidableEq

def authenticationRequired : Failure :=
  .hubError "authentication_required" "Authentication required" 401

def recoveryUnavailable (status : Nat) : Failure :=
  .hubError "recovery_unavailable" "Device recovery is unavailable" status

def notFound : Failure := .hubError "not_found" "Resource not found" 404

/-- `_bounded_text(value, field, 1, 160)`. -/
def boundedLabel (value : String) : Except Failure String := do
  let normalized := strip value.toList
  require (1 ≤ normalized.length ∧ normalized.length ≤ 160) .valueError
  pure (String.ofList normalized)

/-- `[^@\s]+@[^@\s]+\.[^@\s]+`. -/
def isEmail (cs : List Char) : Bool :=
  let plain (part : List Char) : Bool := !part.isEmpty && part.all fun c => !isspace c
  match cs.splitOn '@' with
  | [localPart, domain] => plain localPart && plain domain &&
      (domain.drop 1).dropLast.contains '.'
  | _ => false

/-- `_email(value)`. -/
def normalizedEmail [UnicodeTables] (value : String) : Except Failure String := do
  let normalized := UnicodeTables.lower (strip value.toList)
  require (normalized.length ≤ 320 ∧ isEmail normalized) .valueError
  pure (String.ofList normalized)

/-- `_identity(value)`: eight to 240 plain characters after stripping. -/
def identity (value : String) : Option String :=
  let normalized := strip value.toList
  let plain (c : Char) : Bool := c.isAlphanum && c.toNat < 128
  match normalized with
  | [] => none
  | c :: rest =>
      if plain c && 7 ≤ rest.length && rest.length ≤ 239
          && rest.all fun c => plain c || "._:-@/".toList.contains c
      then some (String.ofList normalized) else none

section Hashes

variable [Sha256]

/-- `token_hash(value)`. -/
def tokenHash (value : String) : Option Bytes :=
  if 16 ≤ value.length ∧ value.length ≤ 4096 then some (Sha256.digest (utf8 value.toList))
  else none

/-- `opaque_secret(prefix)`. -/
def opaqueSecret (pre : String) (fresh : Fresh) : String × Bytes :=
  let token := pre ++ "." ++ fresh.secret
  (token, Sha256.digest (utf8 token.toList))

end Hashes

namespace AuthDb

variable (db : AuthDb)

/-- `_audit`: the head of a team's chain never goes back in time. -/
def audit (teamId : String) (now : Nat) : Except Failure AuthDb :=
  match Tables.find Prod.fst db.auditHeads teamId with
  | none => .ok { db with auditHeads := db.auditHeads ++ [(teamId, now)] }
  | some head => do
      require (head.2 ≤ now) .integrityError
      pure { db with auditHeads := db.auditHeads.map fun h =>
        if h.1 = teamId then (teamId, now) else h }

/-- `_audit_principal_teams`: one event in every team the principal is active in. -/
def auditPrincipalTeams (principalId : String) (now : Nat) : Except Failure AuthDb :=
  ((db.memberships.filter fun m =>
    m.principalId = principalId ∧ m.status = .active).map MembershipRow.teamId).foldlM
    (fun db teamId => db.audit teamId now) db

/-- Both updates by which every revocation ends sessions. -/
def revokeSessions (which : DeviceSession → Bool) (now : Nat) : Except Failure AuthDb := do
  let sessions ← required (Tables.updateRows (fun s => which s && s.revokedAt.isNone)
    (fun s => { s with revokedAt := some now }) DeviceSession.mayBecome db.sessions)
    .integrityError
  let ids := (db.sessions.filter which).map DeviceSession.id
  let tokens ← required (Tables.updateRows
    (fun t => ids.contains t.deviceSessionId && t.consumedAt.isNone && t.revokedAt.isNone)
    (fun t => { t with revokedAt := some now }) RefreshToken.mayBecome db.tokens)
    .integrityError
  pure { db with sessions := sessions, tokens := tokens }

/-- `INSERT INTO refresh_tokens`. -/
def insertToken (t : RefreshToken) : Except Failure AuthDb := do
  let allowed (t : RefreshToken) : Bool := t.check && db.tokens.all fun old =>
    decide (old.id ≠ t.id) &&
      decide (¬ (old.deviceSessionId = t.deviceSessionId ∧ old.generation = t.generation))
  let tokens ← required (Tables.insertRow RefreshToken.tokenHash allowed t db.tokens)
    .integrityError
  pure { db with tokens := tokens }

/-- `_require_session` for the claims of a human. -/
def requireSession [Sha256] (claims : AccessClaims) (now : Nat) :
    Except Failure DeviceSession :=
  let live (s : DeviceSession) : Bool :=
    s.id = claims.sessionId && s.humanPrincipalId = claims.principalId && s.revokedAt.isNone
      && now < s.expiresAt
      && db.humans.any (fun h => h.principalId = s.humanPrincipalId && h.status = .active)
      && !db.accessRevocations.any fun r => r.deviceSessionId = s.id
        && r.jtiHash = Sha256.digest (utf8 claims.jti.toList) && now < r.expiresAt
  required (db.sessions.find? live) authenticationRequired

/-- `_create_session`. -/
def createSession [Sha256] (principalId deviceLabel : String) (fresh : Fresh) (now : Nat) :
    Except Failure (Issued × AuthDb) := do
  let label ← boundedLabel deviceLabel
  let (refresh, digest) := opaqueSecret "refresh" fresh
  let session : DeviceSession := {
    id := newId "device" fresh.sessionToken
    humanPrincipalId := principalId
    deviceLabel := label
    refreshGeneration := 0
    createdAt := now
    lastSeenAt := now
    expiresAt := now + sessionTtlSeconds
    revokedAt := none }
  -- the foreign key on human accounts
  require (∃ h ∈ db.humans, h.principalId = principalId) .integrityError
  let sessions ← required
    (Tables.insertRow DeviceSession.id DeviceSession.check session db.sessions) .integrityError
  let db ← insertToken { db with sessions := sessions } {
    id := newId "refresh" fresh.refreshToken
    deviceSessionId := session.id
    tokenHash := digest
    generation := 0
    createdAt := now
    expiresAt := now + sessionTtlSeconds
    consumedAt := none
    replacedByTokenId := none
    revokedAt := none }
  pure (⟨session.id, refresh, session.expiresAt⟩, db)

/-- The token, its session and its human, as `refresh` joins them. -/
def lookupRefresh (digest : Bytes) : Option (RefreshToken × DeviceSession × HumanRow) := do
  let token ← Tables.find RefreshToken.tokenHash db.tokens digest
  let session ← Tables.find DeviceSession.id db.sessions token.deviceSessionId
  let human ← Tables.find HumanRow.principalId db.humans session.humanPrincipalId
  pure (token, session, human)

/-- A token that is consumed, or is not of the current generation, revokes its session. -/
def replayed (session : DeviceSession) (now : Nat) : Except Failure AuthDb := do
  let db ← db.revokeSessions (fun s => s.id = session.id) now
  db.auditPrincipalTeams session.humanPrincipalId now

/-- The rotation of a current token. -/
def rotate [Sha256] (row : RefreshToken) (session : DeviceSession) (human : HumanRow)
    (fresh : Fresh) (now : Nat) : Except Failure (Issued × AuthDb) := do
  require (row.revokedAt = none ∧ session.revokedAt = none ∧ human.status = .active ∧
    now < row.expiresAt ∧ now < session.expiresAt) authenticationRequired
  let (replacement, digest) := opaqueSecret "refresh" fresh
  let replacementId := newId "refresh" fresh.refreshToken
  let db ← db.insertToken {
    id := replacementId
    deviceSessionId := session.id
    tokenHash := digest
    generation := row.generation + 1
    createdAt := now
    expiresAt := session.expiresAt
    consumedAt := none
    replacedByTokenId := none
    revokedAt := none }
  let selected (t : RefreshToken) : Bool :=
    t.id = row.id && t.consumedAt.isNone && t.revokedAt.isNone
  let tokens ← required (Tables.updateRows selected
    (fun t => { t with consumedAt := some now, replacedByTokenId := some replacementId })
    (fun old new => old.mayBecome new && old.rotatesWithin db.tokens new) db.tokens)
    .integrityError
  require (db.tokens.countP selected = 1) authenticationRequired
  let sessions ← required (Tables.updateRows
    (fun s => s.id = session.id && s.revokedAt.isNone)
    (fun s => { s with refreshGeneration := row.generation + 1, lastSeenAt := now })
    DeviceSession.mayBecome db.sessions) .integrityError
  let db ← auditPrincipalTeams { db with tokens := tokens, sessions := sessions }
    session.humanPrincipalId now
  pure (⟨session.id, replacement, session.expiresAt⟩, db)

/-- `refresh`. -/
def refresh [Sha256] (token : String) (fresh : Fresh) (now : Nat) :
    AuthDb × Except Failure Issued :=
  match (tokenHash token).bind db.lookupRefresh with
  | none => (db, .error authenticationRequired)
  | some (row, session, human) =>
      if row.consumedAt.isSome || row.generation != session.refreshGeneration then
        -- the revocation commits, and the call fails
        match db.replayed session now with
        | .ok db' => (db', .error authenticationRequired)
        | .error e => (db, .error e)
      else atomically db (db.rotate row session human fresh now)

/-- `session_snapshot`, and the first step of every other call with access claims. -/
def access [Sha256] (claims : AccessClaims) (now : Nat) : Except Failure (String × AuthDb) := do
  let session ← db.requireSession claims now
  pure (session.id, db)

/-- `revoke_session`. -/
def revokeSession [Sha256] (claims : AccessClaims) (token : String) (now : Nat) :
    Except Failure (String × AuthDb) := do
  let digest ← required (tokenHash token) authenticationRequired
  let session ← db.requireSession claims now
  require (∃ t ∈ db.tokens, t.deviceSessionId = claims.sessionId ∧ t.tokenHash = digest)
    authenticationRequired
  let db ← db.revokeSessions (fun s => s.id = claims.sessionId) now
  let jtiHash := Sha256.digest (utf8 claims.jti.toList)
  let db : AuthDb := if db.accessRevocations.any fun r => r.jtiHash = jtiHash then db
    else { db with accessRevocations :=
      db.accessRevocations ++ [⟨jtiHash, claims.sessionId, claims.expiresAt⟩] }
  let db ← db.auditPrincipalTeams claims.principalId now
  pure (session.id, db)

/-- `revoke_device_session`. -/
def revokeDeviceSession [Sha256] (claims : AccessClaims) (deviceSessionId : String)
    (now : Nat) : Except Failure (String × AuthDb) := do
  let target ← required (identity deviceSessionId) notFound
  let session ← db.requireSession claims now
  require (∃ s ∈ db.sessions, s.id = target ∧ s.humanPrincipalId = claims.principalId) notFound
  let db ← db.revokeSessions (fun s => s.id = target) now
  let db ← db.auditPrincipalTeams claims.principalId now
  pure (session.id, db)

/-- The memberships a recovery may be issued for; there must be one. -/
def recoverable (normalized : String) (teamId : Option String) (requireOwner : Bool) :
    List MembershipRow :=
  db.memberships.filter fun m =>
    m.status = .active && teamId.all (m.teamId = ·) && (!requireOwner || m.role = .owner)
      && db.humans.any fun h => h.principalId = m.principalId
        && h.emailNormalized = normalized && h.status = .active

/-- The open claim of a proof, of a member who is still active. -/
def redeemable (digest : Bytes) (now : Nat) : Option RecoveryClaim :=
  db.recoveries.find? fun c => c.tokenHash = digest && c.isOpen now
    && db.memberships.any (fun m => m.teamId = c.teamId
      && m.principalId = c.ownerPrincipalId && m.status = .active)
    && db.humans.any fun h => h.principalId = c.ownerPrincipalId && h.status = .active

/-- `issue_device_recovery`. The proof file may fail to be created. -/
def issueDeviceRecovery [Sha256] [UnicodeTables] (email deviceLabel : String)
    (teamId : Option String) (requireOwner : Bool) (proofFileFails : Bool) (fresh : Fresh)
    (now : Nat) : Except Failure (String × AuthDb) := do
  let normalized ← normalizedEmail email
  let label ← boundedLabel deviceLabel
  match db.recoverable normalized teamId requireOwner with
  | [membership] => do
      let principalId := membership.principalId
      let db ← db.revokeSessions (fun s => s.humanPrincipalId = principalId) now
      let recoveries ← required (Tables.updateRows
        (fun c => c.ownerPrincipalId = principalId && c.consumedAt.isNone && c.revokedAt.isNone)
        (fun c => { c with revokedAt := some now }) RecoveryClaim.mayBecome db.recoveries)
        .integrityError
      let (proof, digest) := opaqueSecret "owner-recovery" fresh
      require (proofFileFails = false) .runtimeError
      let claim : RecoveryClaim := {
        id := newId "owner_recovery" fresh.claimToken
        teamId := membership.teamId
        ownerPrincipalId := principalId
        tokenHash := digest
        deviceLabel := label
        createdAt := now
        expiresAt := now + recoveryProofTtlSeconds
        consumedAt := none
        consumedBySessionId := none
        revokedAt := none }
      let unused (c : RecoveryClaim) : Bool := c.check && recoveries.all (·.id != c.id)
      let recoveries ← required
        (Tables.insertRow RecoveryClaim.tokenHash unused claim recoveries) .integrityError
      let db ← audit { db with recoveries := recoveries } membership.teamId now
      pure (proof, db)
  | _ => .error (recoveryUnavailable 409)

/-- `redeem_device_recovery`. -/
def redeemDeviceRecovery [Sha256] (proof deviceLabel : String) (fresh : Fresh) (now : Nat) :
    Except Failure (Issued × AuthDb) := do
  let digest ← required (tokenHash proof) (recoveryUnavailable 403)
  let label ← boundedLabel deviceLabel
  let claim ← required (db.redeemable digest now) (recoveryUnavailable 403)
  require (claim.deviceLabel = label) (recoveryUnavailable 403)
  let db ← db.revokeSessions (fun s => s.humanPrincipalId = claim.ownerPrincipalId) now
  let (issued, db) ← db.createSession claim.ownerPrincipalId label fresh now
  let selected (c : RecoveryClaim) : Bool := c.id = claim.id && c.isOpen now
  let recoveries ← required (Tables.updateRows selected
    (fun c => { c with consumedAt := some now, consumedBySessionId := some issued.sessionId })
    RecoveryClaim.mayBecome db.recoveries) .integrityError
  require (db.recoveries.countP selected = 1) (recoveryUnavailable 403)
  let db ← audit { db with recoveries := recoveries } claim.teamId now
  pure (issued, db)

/-- The status change of `update_human_membership`. -/
def changeMembershipStatus [Sha256] (claims : AccessClaims) (teamId principalId : String)
    (status : Standing) (now : Nat) : Except Failure (String × AuthDb) := do
  let principalId ← required (identity principalId) notFound
  let session ← db.requireSession claims now
  let teamId ← required (identity teamId) notFound
  let viewer ← required (db.memberships.find? fun m => m.teamId = teamId
    && m.principalId = claims.principalId && m.status = .active) notFound
  require (viewer.role = .owner) (.hubError "forbidden" "Operation is not permitted" 403)
  let target ← required (db.memberships.find? fun m =>
    m.teamId = teamId && m.principalId = principalId) notFound
  require (principalId ≠ claims.principalId ∧ target.role ≠ .owner ∧
    target.role ≠ .automation) notFound
  require (target.status ≠ .revoked)
    (.hubError "membership_terminal" "Membership has been permanently revoked" 409)
  let memberships ← required (Tables.updateRows
    (fun m => m.teamId = teamId && m.principalId = principalId)
    (fun m => { m with status := status, updatedAt := now }) MembershipRow.mayBecome
    db.memberships) .integrityError
  let db ← audit { db with memberships := memberships } teamId now
  pure (session.id, db)

/-- The account and the membership a bootstrap or a redeemed invitation creates. -/
def enrol (principalId email teamId : String) (role : MemberRole) (now : Nat) :
    Except Failure (String × AuthDb) := do
  let humans ← required (Tables.insertRow HumanRow.principalId
    (fun h => db.humans.all (·.emailNormalized != h.emailNormalized))
    ⟨principalId, email, .active⟩ db.humans) .integrityError
  let memberships ← required (Tables.insertRow
    (fun m : MembershipRow => (m.teamId, m.principalId)) (fun _ => true)
    ⟨teamId, principalId, role, .active, now, now⟩ db.memberships) .integrityError
  let db ← audit { db with humans := humans, memberships := memberships } teamId now
  pure (principalId, db)

end AuthDb

/-! ## The machine -/

/-- One call with the time it read. A session is created at the end of a bootstrap or of
a redeemed invitation. -/
inductive AuthCall where
  | enrol (principalId email teamId : String) (role : MemberRole)
  | createSession (principalId deviceLabel : String) (fresh : Fresh)
  | refresh (token : String) (fresh : Fresh)
  | access (claims : AccessClaims)
  | revokeSession (claims : AccessClaims) (token : String)
  | revokeDeviceSession (claims : AccessClaims) (deviceSessionId : String)
  | issueDeviceRecovery (email deviceLabel : String) (teamId : Option String)
      (requireOwner proofFileFails : Bool) (fresh : Fresh)
  | redeemDeviceRecovery (proof deviceLabel : String) (fresh : Fresh)
  | changeMembershipStatus (claims : AccessClaims) (teamId principalId : String)
      (status : Standing)

/-- The session that a successful call used or created, or the proof it issued. -/
abbrev AuthOutcome := Except Failure String

/-- One transaction after another. -/
def authStep [Sha256] [UnicodeTables] (db : AuthDb) (act : AuthCall × Nat) :
    AuthDb × AuthOutcome :=
  let named (r : AuthDb × Except Failure Issued) : AuthDb × AuthOutcome :=
    (r.1, r.2.map Issued.sessionId)
  match act with
  | (.enrol principalId email teamId role, now) =>
      atomically db (db.enrol principalId email teamId role now)
  | (.createSession principalId deviceLabel fresh, now) =>
      named (atomically db (db.createSession principalId deviceLabel fresh now))
  | (.refresh token fresh, now) => named (db.refresh token fresh now)
  | (.access claims, now) => atomically db (db.access claims now)
  | (.revokeSession claims token, now) => atomically db (db.revokeSession claims token now)
  | (.revokeDeviceSession claims target, now) =>
      atomically db (db.revokeDeviceSession claims target now)
  | (.issueDeviceRecovery email deviceLabel teamId requireOwner fails fresh, now) =>
      atomically db
        (db.issueDeviceRecovery email deviceLabel teamId requireOwner fails fresh now)
  | (.redeemDeviceRecovery proof deviceLabel fresh, now) =>
      named (atomically db (db.redeemDeviceRecovery proof deviceLabel fresh now))
  | (.changeMembershipStatus claims teamId principalId status, now) =>
      atomically db (db.changeMembershipStatus claims teamId principalId status now)

end AgentsServer.TeamHub

import AgentsServer.PeerStore.Tables

/-!
# Pairing, certificates and their revocation

Each operation is one transaction; the clock is read before the transaction
begins. A certificate is what the library that parses it reports, and is
identified by the digest of its encoding.
-/

namespace AgentsServer.PeerStore

open Library

/-- The signed contents of the extension that binds a certificate to a peer. -/
structure Binding where
  version : Nat
  peerId : String
  pairingId : String
  peerServerIdentity : String
  teamId : String
  scopes : List Scope
  transcriptHash : String
  deriving DecidableEq

/-- The extension of a presented certificate. -/
inductive BindingExtension where
  | unreadable
  | foreign
  | peer (binding : Binding)
  deriving DecidableEq

structure Certificate where
  publicKeyPem : String
  serialNumber : Nat
  notValidBefore : Int
  notValidAfter : Int
  signedByCa : Bool
  clientAuth : Bool
  serverAuth : Bool
  binding : BindingExtension
  deriving DecidableEq

/-- `_certificate_fingerprint`: the digest of the encoded certificate. -/
class CertificateEncoding where
  fingerprint : Certificate → String

/-- A pairing request that passed `_normalize_pairing_payload`. -/
structure NormalizedPairing where
  requestId : String
  requestDigest : Bytes
  createdAt : Nat
  peerServerIdentity : String
  peerDisplayName : String
  peerPublicKeyPem : String
  csrPublicKeyPem : String
  durable : Bool
  requestedScopes : List Scope
  transcriptHash : String
  sameKey : csrPublicKeyPem = peerPublicKeyPem

/-- The fields of a renewal request with what the parsing libraries report of them. -/
structure RenewalPayload where
  requestId : String
  createdAt : Int
  peerPublicKeyPem : String
  csrPublicKeyPem : String
  csrSignatureValid : Bool
  signatureValid : Bool
  commonNames : List String
  /-- `none` where the extension is missing -/
  uris : Option (List String)
  digest : Bytes

def pairingUnavailable : Failure :=
  .securePeerError "pairing_unavailable" "Pairing is unavailable" 404

def pairingNotPending : Failure :=
  .securePeerError "pairing_not_pending" "Pairing is no longer pending" 409

def pairingCapacity : Failure :=
  .securePeerError "pairing_capacity" "Pairing request capacity is temporarily full" 503

def pairingExpired (message : String) : Failure :=
  .securePeerError "pairing_expired" message 410

def authenticationRequired : Failure :=
  .securePeerError "peer_authentication_required" "Peer authentication is required" 401

def peerChanged : Failure :=
  .securePeerError "peer_changed" "Peer certificate confirmation failed" 409

def renewalConflict : Failure :=
  .securePeerError "renewal_conflict" "Certificate renewal state changed" 409

/-- `_canonical_scopes`. -/
def canonicalScopes (values : List String) : Except Failure (List Scope) := do
  require (values ≠ [] ∧ values.Nodup ∧ ∀ value ∈ values, value ∈ scopeOrder.map Scope.text)
    (invalidRequest "scopes are invalid")
  pure (scopeOrder.filter fun scope => values.contains scope.text)

def scopesJson (scopes : List Scope) : Json := .arr (scopes.map fun scope => .str scope.text)

def natJson (n : Nat) : Json := .num (.ofNat n)

/-- `_issue_client_certificate`. -/
def issueClientCertificate (publicKeyPem : String) (binding : Binding) (serialNumber now : Nat) :
    Certificate where
  publicKeyPem := publicKeyPem
  serialNumber := serialNumber
  notValidBefore := now - 120
  notValidAfter := now + clientCertTtlSeconds
  signedByCa := true
  clientAuth := true
  serverAuth := false
  binding := .peer binding

/-- What a certificate of a peer must be bound to. -/
def Peer.binding (p : Peer) : Binding :=
  ⟨1, p.id, p.pairingId, p.peerServerIdentity, p.teamId, p.scopes, p.transcriptHash⟩

def PairingRequest.isDue (now : Nat) (q : PairingRequest) : Bool :=
  q.status == .pending && 0 < q.expiresAt && q.expiresAt ≤ now

def PairingRequest.isTerminal (q : PairingRequest) : Bool :=
  q.status == .expired || q.status == .rejected || q.status == .cancelled

/-- The two updates of the certificates by an activation. -/
def PeerCertificate.swap (peerId current new : String) (overlapUntil now : Nat)
    (c : PeerCertificate) : PeerCertificate :=
  if c.fingerprint == current && c.peerId == peerId && c.isCurrent
  then { c with supersededAt := some now, validUntil := overlapUntil }
  else if c.fingerprint == new && c.peerId == peerId && c.activationRequired && c.revokedAt.isNone
  then { c with activationRequired := false }
  else c

/-- The key of an active peer after an activation. -/
def Peer.setKey (peerId publicKeyPem : String) (p : Peer) : Peer :=
  if p.id == peerId && p.status == .active then { p with publicKeyPem := publicKeyPem } else p

namespace Db

variable (db : Db)

/-! ## Pairing -/

/-- `_expire_pending_pairings` of the selected requests. -/
def expirePairings (which : PairingRequest → Bool) (now : Nat) : Db :=
  { db with pairings := db.pairings.map fun q =>
      if which q && q.isDue now then { q with status := .expired, decidedAt := some now } else q }

/-- The deletion of decided requests: those a week old, and the oldest above the limit. -/
def prunePairings (now : Nat) : Db :=
  let decided (q : PairingRequest) : Nat := q.decidedAt.getD q.expiresAt
  let kept := db.pairings.filter fun q =>
    !(q.isTerminal && decide (decided q + 7 * 24 * 60 * 60 < now))
  let terminal := (kept.filter PairingRequest.isTerminal).mergeSort fun a b =>
    decide (decided a < decided b) || (decide (decided a = decided b) &&
      (decide (a.createdAt < b.createdAt) || (decide (a.createdAt = b.createdAt) &&
        decide (a.id ≤ b.id))))
  let dropped := (terminal.take (terminal.length - pairingTerminalRetainedLimit)).map
    PairingRequest.id
  { db with pairings := kept.filter fun q => !dropped.contains q.id }

/-- `_actionable_pairing_count`. -/
def actionablePairingCount : Nat :=
  db.pairings.countP fun q => q.status == .pending ||
    (q.status == .approved && ((db.peers.find? fun p => p.pairingId = q.id).all
      fun p => p.status == .active))

/-- `submit_pairing`. `liveBytesFull` and `external` are what the database file and the
client side report. -/
def submitPairing (request : NormalizedPairing) (pairingId : String) (external : Nat)
    (liveBytesFull : Bool) (now : Nat) : Except Failure (PairingRequest × Db) := do
  let expiresAt := if request.durable then 0
    else min (request.createdAt + pairingTtlSeconds) (now + pairingTtlSeconds)
  match db.pairings.find? fun q => q.requestId = request.requestId with
  | some existing => do
      require (existing.requestDigest = request.requestDigest)
        (idempotencyConflict "request_id was reused with different content")
      let db := db.expirePairings (fun q => q.id = existing.id) now
      let existing ← required (db.pairings.find? fun q => q.id = existing.id) .valueError
      pure (existing, db)
  | none => do
      require (now ≤ request.createdAt + pairingClockSkewSeconds ∧
          request.createdAt ≤ now + pairingClockSkewSeconds)
        (pairingExpired "Pairing request time is outside the allowed window")
      require (¬ (0 < expiresAt ∧ expiresAt ≤ now)) (pairingExpired "Pairing request has expired")
      let db := (((db.expirePairings (fun _ => true) now).prunePairings now).pruneHistory now)
      require (¬ (pairingStatusLimit ≤ db.pairings.countP (·.status == .pending) ∨
        pairingStatusLimit ≤ db.actionablePairingCount + external ∨ 5000 ≤ db.pairings.length ∨
        liveBytesFull = true)) pairingCapacity
      let row : PairingRequest := {
        id := pairingId
        requestId := request.requestId
        requestDigest := request.requestDigest
        peerServerIdentity := request.peerServerIdentity
        peerDisplayName := request.peerDisplayName
        peerPublicKeyPem := request.peerPublicKeyPem
        csrPublicKeyPem := request.csrPublicKeyPem
        requestedScopes := request.requestedScopes
        transcriptHash := request.transcriptHash
        status := .pending
        createdAt := now
        expiresAt := expiresAt
        decidedAt := none }
      let pairings ← required (Tables.insertRow PairingRequest.id (fun _ => true) row db.pairings)
        .integrityError
      pure (row, audit { db with pairings := pairings } now)

/-- `INSERT INTO peers`. -/
def insertPeer (p : Peer) : Except Failure Db := do
  let allowed (p : Peer) : Bool := db.peers.all (fun old => old.pairingId != p.pairingId) &&
    (!db.logicalIndex || db.peers.all fun old => !(old.status == .active &&
      old.teamId == p.teamId && old.peerServerIdentity == p.peerServerIdentity))
  let peers ← required (Tables.insertRow Peer.id allowed p db.peers) .integrityError
  pure { db with peers := peers }

/-- `INSERT INTO peer_certificates`. -/
def insertCertificate (c : PeerCertificate) : Except Failure Db := do
  let allowed (c : PeerCertificate) : Bool := db.certificates.all (·.serial != c.serial)
  let certificates ← required
    (Tables.insertRow PeerCertificate.fingerprint allowed c db.certificates) .integrityError
  pure { db with certificates := certificates }

/-- The row of an issued certificate. -/
def certificateRow [CertificateEncoding] (certificate : Certificate) (peerId : String)
    (activationRequired : Bool) (now : Nat) : PeerCertificate where
  fingerprint := CertificateEncoding.fingerprint certificate
  peerId := peerId
  serial := certificate.serialNumber
  publicKeyPem := certificate.publicKeyPem
  issuedAt := now
  expiresAt := now + clientCertTtlSeconds
  supersededAt := none
  validUntil := now + clientCertTtlSeconds
  revokedAt := none
  activationRequired := activationRequired

/-- The revocation of several peers in one transaction. -/
def supersede (peerIds : List String) (now : Nat) (actor : String) (revision : String → String) :
    Db :=
  peerIds.foldl (fun db peerId =>
    (db.revokePeerInTransaction peerId now actor (revision peerId)).getD db) db

/-- The active peers of one logical identity, oldest first. -/
def activePeers (teamId serverIdentity : String) : List Peer :=
  (db.peers.filter fun p => p.teamId == teamId && p.peerServerIdentity == serverIdentity &&
    p.status == .active).mergeSort fun a b =>
      decide (a.createdAt < b.createdAt) || (decide (a.createdAt = b.createdAt) &&
        decide (a.id ≤ b.id))

/-- What an approval draws at random. -/
structure ApprovalDraw where
  peerId : String
  serialNumber : Nat
  revision : String → String

/-- The part of `approve_pairing` that follows the checks. -/
def admitPeer [CertificateEncoding] (row : PairingRequest) (teamId : String) (scopes : List Scope)
    (actor : String) (grantEpoch : Option Nat) (draw : ApprovalDraw) (now : Nat) :
    Except Failure (Json × Db) := do
  let peer : Peer := {
    id := draw.peerId
    pairingId := row.id
    peerServerIdentity := row.peerServerIdentity
    teamId := teamId
    scopes := scopes
    transcriptHash := row.transcriptHash
    publicKeyPem := row.peerPublicKeyPem
    status := .active
    crossChatGrantEpoch := grantEpoch
    createdAt := now
    revokedAt := none
    revokedBy := none }
  let certificate := issueClientCertificate row.csrPublicKeyPem peer.binding draw.serialNumber now
  let prior := (db.activePeers teamId row.peerServerIdentity).map Peer.id
  let db := db.supersede prior now actor draw.revision
  let db ← db.insertPeer peer
  let issued := { certificateRow certificate peer.id false now with
    publicKeyPem := row.peerPublicKeyPem }
  let db ← db.insertCertificate issued
  let response : Json := .obj [("pairing_id", .str row.id), ("status", .str "approved"),
    ("peer_id", .str peer.id), ("team_id", .str teamId), ("scopes", scopesJson scopes),
    ("certificate_fingerprint", .str issued.fingerprint),
    ("certificate_expires_at", natJson issued.expiresAt),
    ("cross_chat_grant_epoch", (grantEpoch.map natJson).getD .null),
    ("superseded_peer_ids", .arr (prior.map .str))]
  pure (response, { db with pairings := db.pairings.map fun q =>
    if q.id = row.id && q.status == .pending
    then { q with status := .approved, decidedAt := some now } else q })

/-- `approve_pairing`. A request that has expired is marked as such although the call
fails. -/
def approvePairing [Sha256] [CertificateEncoding] (pairingId teamId : String)
    (scopes : List String) (approvedBy expectedIdentity expectedTranscriptHash : String)
    (idempotencyKey : String) (available : Bool) (draw : ApprovalDraw) (now : Nat) :
    Db × Except Failure Json :=
  let checked : Except Failure (List Scope) := do
    let _ ← uuid pairingId "pairing_id"
    let _ ← identifier teamId "team_id"
    let _ ← identifier approvedBy "approved_by"
    let _ ← identifier expectedIdentity "expected peer identity"
    require (isSha256Hex expectedTranscriptHash)
      (invalidRequest "expected transcript hash is invalid")
    canonicalScopes scopes
  match checked with
  | .error e => (db, .error e)
  | .ok scopes =>
      let request : Json := .obj [("pairing_id", .str pairingId), ("team_id", .str teamId),
        ("scopes", scopesJson scopes), ("approved_by", .str approvedBy),
        ("expected_peer_server_identity", .str expectedIdentity),
        ("expected_transcript_hash", .str expectedTranscriptHash)]
      let found : Except Failure (Bytes × (Json ⊕ Option Nat × PairingRequest)) := do
        let (digest, cached) ← db.operation "pairing-approve" idempotencyKey request
        match cached with
        | some response => pure (digest, .inl response)
        | none => do
            let grantEpoch ← if scopes.any Scope.isCrossChat
              then (db.requireCrossChat available none).map some else pure none
            let row ← required (Tables.find PairingRequest.id db.pairings pairingId)
              pairingUnavailable
            pure (digest, .inr (grantEpoch, row))
      match found with
      | .error e => (db, .error e)
      | .ok (_, .inl response) => (db, .ok response)
      | .ok (digest, .inr (grantEpoch, row)) =>
          if row.isDue now then
            -- the expiry commits, and the call fails
            (db.expirePairings (fun q => q.id = pairingId) now, .error pairingNotPending)
          else atomically db do
            require (row.status = .pending) pairingNotPending
            require (row.peerServerIdentity = expectedIdentity ∧
                row.transcriptHash = expectedTranscriptHash)
              (.securePeerError "pairing_changed" "Pairing identity confirmation failed" 409)
            require (∀ scope ∈ scopes, scope ∈ row.requestedScopes)
              (.securePeerError "scope_escalation"
                "Approval scopes exceed the signed request" 409)
            let (response, db) ← db.admitPeer row teamId scopes approvedBy grantEpoch draw now
            let db ← db.recordOperation "pairing-approve" idempotencyKey digest response now
            pure (response, db.audit now)

/-! ## Authentication -/

/-- The join of a certificate with its peer and its pairing. -/
def certificateOwner (fingerprint : String) :
    Option (PeerCertificate × Peer × PairingRequest) := do
  let row ← Tables.find PeerCertificate.fingerprint db.certificates fingerprint
  let peer ← Tables.find Peer.id db.peers row.peerId
  let pairing ← Tables.find PairingRequest.id db.pairings peer.pairingId
  pure (row, peer, pairing)

/-- The checks of a presented certificate that do not read the database. -/
def checkPresented (certificate : Certificate) (now : Nat) : Except Failure Unit := do
  require (certificate.signedByCa = true ∧ certificate.clientAuth = true ∧
    certificate.serverAuth = false ∧ certificate.binding ≠ .unreadable) authenticationRequired
  require (certificate.notValidBefore ≤ now ∧ (now : Int) < certificate.notValidAfter)
    authenticationRequired

def authorization (row : PeerCertificate) (peer : Peer) (pairing : PairingRequest) :
    PeerAuthorization where
  peerId := peer.id
  pairingId := peer.pairingId
  peerServerIdentity := peer.peerServerIdentity
  teamId := peer.teamId
  scopes := peer.scopes
  certificateFingerprint := row.fingerprint
  certificateExpiresAt := row.expiresAt
  peerDisplayName := pairing.peerDisplayName
  crossChatGrantEpoch := peer.crossChatGrantEpoch

/-- `authenticate_peer`. -/
def authenticatePeer [CertificateEncoding] (certificate : Certificate)
    (allowPendingRenewal : Bool) (now : Nat) : Except Failure PeerAuthorization := do
  checkPresented certificate now
  let (row, peer, pairing) ←
    required (db.certificateOwner (CertificateEncoding.fingerprint certificate)) peerRevoked
  require (peer.status = .active ∧ row.revokedAt = none ∧ now < row.validUntil ∧
    (row.activationRequired = false ∨ allowPendingRenewal = true)) peerRevoked
  require (certificate.binding = .peer peer.binding) authenticationRequired
  pure (authorization row peer pairing)

/-- `authorize_peer_self_revocation`. -/
def authorizePeerSelfRevocation [CertificateEncoding] (certificate : Certificate) (now : Nat) :
    Except Failure PeerAuthorization := do
  checkPresented certificate now
  let (row, peer, pairing) ← required
    (db.certificateOwner (CertificateEncoding.fingerprint certificate)) authenticationRequired
  require (certificate.binding = .peer peer.binding) authenticationRequired
  pure (authorization row peer pairing)

/-! ## Renewal -/

/-- The checks of `renew_peer` before its transaction. -/
def checkRenewal (peer : PeerAuthorization) (payload : RenewalPayload) : Except Failure Unit := do
  let _ ← uuid payload.requestId "request_id"
  require (payload.csrSignatureValid = true ∧ payload.csrPublicKeyPem = payload.peerPublicKeyPem)
    (.securePeerError "key_mismatch" "Renewal CSR does not match peer key" 422)
  require (payload.signatureValid = true)
    (.securePeerError "signature_invalid" "Renewal signature is invalid" 422)
  let uris ← required payload.uris
    (.securePeerError "identity_mismatch" "Renewal CSR identity is invalid" 422)
  require (payload.commonNames = [peer.peerServerIdentity] ∧
      uris = ["urn:agentsdock:server:" ++ peer.peerServerIdentity])
    (.securePeerError "identity_mismatch" "Renewal CSR identity does not match peer" 422)

/-- The current certificate that a renewal starts from. -/
def renewable (peer : PeerAuthorization) : Option (Peer × PeerCertificate) := do
  let row ← Tables.find Peer.id db.peers peer.peerId
  let certificate ← db.certificates.find? fun c =>
    c.peerId == row.id && c.fingerprint == peer.certificateFingerprint && c.isCurrent
  if row.status = .active then pure (row, certificate) else none

/-- `renew_peer`. -/
def renewPeer [CertificateEncoding] (peer : PeerAuthorization) (payload : RenewalPayload)
    (serialNumber now : Nat) : Except Failure (RenewalResponse × Db) := do
  checkRenewal peer payload
  match Tables.find RenewalRequest.requestId db.renewals payload.requestId with
  | some existing => do
      require (existing.peerId = peer.peerId ∧ existing.requestDigest = payload.digest)
        (idempotencyConflict "renewal request_id was reused with different content")
      require (now < existing.expiresAt)
        (.securePeerError "renewal_expired" "Renewal request has expired" 410)
      pure (existing.response, db)
  | none => do
      require (((now : Int) - payload.createdAt).natAbs ≤ 300)
        (.securePeerError "renewal_expired"
          "Renewal request time is outside the allowed window" 410)
      let (row, current) ← required (db.renewable peer) peerRevoked
      require (current.expiresAt ≤ now + clientCertRenewWindowSeconds)
        (.securePeerError "renewal_not_due" "Client certificate renewal is not due" 409)
      require (¬ ∃ r ∈ db.renewals, r.peerId = peer.peerId ∧
          r.currentFingerprint = peer.certificateFingerprint ∧ r.activatedAt = none ∧
          now < r.expiresAt)
        (.securePeerError "renewal_pending" "A certificate renewal is already pending" 409)
      let certificate :=
        issueClientCertificate payload.csrPublicKeyPem row.binding serialNumber now
      let issued := { certificateRow certificate peer.peerId true now with
        publicKeyPem := payload.peerPublicKeyPem }
      let db ← db.insertCertificate issued
      let response : RenewalResponse :=
        ⟨peer.peerId, payload.requestId, issued.fingerprint, issued.expiresAt⟩
      let renewals ← required (Tables.insertRow RenewalRequest.requestId
        (fun r => db.renewals.all (·.newFingerprint != r.newFingerprint)) {
          requestId := payload.requestId
          peerId := peer.peerId
          currentFingerprint := current.fingerprint
          newFingerprint := issued.fingerprint
          requestDigest := payload.digest
          response := response
          createdAt := now
          expiresAt := now + renewalRequestTtlSeconds
          activatedAt := none } db.renewals) .integrityError
      pure (response, audit { db with renewals := renewals } now)

/-- The deletion of old activations: the one just made and the seven newest others stay. -/
def pruneRenewals (peerId renewalId : String) : Db :=
  let isOther (r : RenewalRequest) : Bool :=
    r.peerId == peerId && r.activatedAt.isSome && r.requestId != renewalId
  let newestFirst := (db.renewals.filter isOther).mergeSort fun a b =>
    decide (b.activatedAt.getD 0 < a.activatedAt.getD 0) ||
      (a.activatedAt == b.activatedAt && decide (b.requestId ≤ a.requestId))
  let dropped := (newestFirst.drop (activatedRenewalHistoryLimit - 1)).map
    RenewalRequest.requestId
  { db with renewals := db.renewals.filter fun r => !dropped.contains r.requestId }

/-- `activate_renewal`. -/
def activateRenewal (peer : PeerAuthorization) (requestId : String) (now : Nat) :
    Except Failure (String × Db) := do
  let renewalId ← uuid requestId "request_id"
  let row ← required (db.renewals.find? fun r => r.requestId == renewalId &&
      r.peerId == peer.peerId && r.newFingerprint == peer.certificateFingerprint)
    (.securePeerError "renewal_unavailable" "Certificate renewal is unavailable" 404)
  if row.activatedAt.isSome then pure (row.newFingerprint, db)
  else
    require (now < row.expiresAt)
      (.securePeerError "renewal_expired" "Certificate renewal has expired" 410)
    let old ← required (db.certificates.find? fun c => c.fingerprint == row.currentFingerprint &&
      c.peerId == peer.peerId && c.isCurrent) renewalConflict
    let new ← required (db.certificates.find? fun c => c.fingerprint == row.newFingerprint &&
      c.peerId == peer.peerId && c.revokedAt.isNone && c.activationRequired) renewalConflict
    let overlapUntil := min old.expiresAt (now + clientCertOverlapSeconds)
    let certificates := db.certificates.map
      (PeerCertificate.swap peer.peerId row.currentFingerprint row.newFingerprint overlapUntil now)
    let db : Db := { db with
      certificates := certificates
      peers := db.peers.map (Peer.setKey peer.peerId new.publicKeyPem)
      renewals := db.renewals.map fun r =>
        if r.requestId == renewalId then { r with activatedAt := some now } else r }
    pure (row.newFingerprint, (db.pruneRenewals peer.peerId renewalId).audit now)

/-! ## Revocation -/

/-- `revoke_peer`. -/
def revokePeer [Sha256] (peerId teamId expectedFingerprint idempotencyKey revokedBy : String)
    (revision : String) (now : Nat) : Except Failure (Json × Db) := do
  let _ ← uuid peerId "peer_id"
  require (isFingerprint expectedFingerprint)
    (invalidRequest "peer revocation target is invalid")
  let _ ← identifier teamId "team_id"
  let _ ← identifier revokedBy "revoked_by"
  let request : Json := .obj [("peer_id", .str peerId), ("team_id", .str teamId),
    ("expected_certificate_fingerprint", .str expectedFingerprint),
    ("revoked_by", .str revokedBy)]
  let (digest, cached) ← db.operation "peer-revoke" idempotencyKey request
  match cached with
  | some response => pure (response, db)
  | none => do
      let unavailable : Failure := .securePeerError "peer_unavailable" "Peer is unavailable" 404
      let row ← required (Tables.find Peer.id db.peers peerId) unavailable
      require ((∃ c ∈ db.certificates, c.peerId = peerId ∧ c.fingerprint = expectedFingerprint ∧
        c.supersededAt = none ∧ c.activationRequired = false) ∧ row.teamId = teamId) unavailable
      require (row.status = .active) peerChanged
      let db ← required (db.revokePeerInTransaction peerId now revokedBy revision) peerChanged
      let response : Json := .obj [("peer_id", .str peerId), ("status", .str "revoked"),
        ("revoked_at", natJson now)]
      let db ← db.recordOperation "peer-revoke" idempotencyKey digest response now
      pure (response, db)

/-- The revocation of an active peer by itself, or the time it was revoked at. -/
def endForSelf (row : Peer) (revision : String) (now : Nat) : Except Failure (Nat × Db) :=
  if row.status = .active then do
    let db ← required (db.revokePeerInTransaction row.id now ("peer:" ++ row.id) revision)
      peerChanged
    pure (now, db)
  else pure (row.revokedAt.getD now, db)

/-- `revoke_peer_for_self`. -/
def revokePeerForSelf [Sha256] (peer : PeerAuthorization) (idempotencyKey revision : String)
    (now : Nat) : Except Failure (Json × Db) := do
  let _ ← uuid idempotencyKey "idempotency_key"
  let request : Json := .obj [("peer_id", .str peer.peerId), ("team_id", .str peer.teamId),
    ("presented_certificate_fingerprint", .str peer.certificateFingerprint)]
  let (digest, cached) ← db.operation "peer-self-revoke" idempotencyKey request
  match cached with
  | some response => pure (response, db)
  | none => do
      let row ← required (Tables.find Peer.id db.peers peer.peerId) peerChanged
      require ((∃ c ∈ db.certificates, c.peerId = peer.peerId ∧
        c.fingerprint = peer.certificateFingerprint) ∧ row.teamId = peer.teamId) peerChanged
      let (revokedAt, db) ← db.endForSelf row revision now
      let response : Json := .obj [("peer_id", .str peer.peerId), ("status", .str "revoked"),
        ("revoked_at", natJson revokedAt), ("idempotency_key", .str idempotencyKey),
        ("presented_certificate_fingerprint", .str peer.certificateFingerprint)]
      let db ← db.recordOperation "peer-self-revoke" idempotencyKey digest response now
      pure (response, db)

/-- The peer that a group of duplicates keeps: the oldest preferred one, else the oldest. -/
def retainedPeer (preferred : List String) (p : Peer) : Option Peer :=
  let members := db.activePeers p.teamId p.peerServerIdentity
  (members.find? fun member => preferred.contains member.id).or members.head?

/-- The active peers that are not kept. -/
def duplicatePeers (preferred : List String) : List Peer :=
  (db.peers.filter fun p => p.status == .active &&
    (db.retainedPeer preferred p).map Peer.id != some p.id).mergeSort fun a b =>
      decide (a.teamId < b.teamId) || (a.teamId == b.teamId &&
        (decide (a.peerServerIdentity < b.peerServerIdentity) ||
          (a.peerServerIdentity == b.peerServerIdentity &&
            (decide (a.createdAt < b.createdAt) || (a.createdAt == b.createdAt &&
              decide (a.id ≤ b.id))))))

/-- No two active peers of one team have one server identity. -/
def logicallyUnique : Bool :=
  db.peers.all fun p => db.peers.all fun q => p.id == q.id ||
    !(p.status == .active && q.status == .active && p.teamId == q.teamId &&
      p.peerServerIdentity == q.peerServerIdentity)

/-- `reconcile_active_logical_peers`. -/
def reconcileActiveLogicalPeers (preferredPeerIds : List String) (actor : String)
    (revision : String → String) (now : Nat) : Except Failure (List String × Db) := do
  require (preferredPeerIds.all isUuid4) (invalidRequest "preferred_peer_id is invalid")
  let _ ← identifier actor "reconciliation actor"
  let superseded := (db.duplicatePeers preferredPeerIds).map Peer.id
  let db := db.supersede superseded now actor revision
  require (db.logicallyUnique = true) .integrityError
  pure (superseded, { db with logicalIndex := true })

end Db

end AgentsServer.PeerStore

import AgentsServer.Library.Json
import AgentsServer.Library.Outcome
import AgentsServer.Library.Tables

/-!
# The tables of the secure peer store

Pairings, peers with their certificates and renewals, routes with the relayed
envelopes, and the records that make writes idempotent. What several operations share is
here, too: the checks of identifiers, the record of an operation, the current consent,
and the revocation of one peer inside a transaction.
-/

namespace AgentsServer.PeerStore

open Library

def clientCertTtlSeconds : Nat := 30 * 24 * 60 * 60

def clientCertRenewWindowSeconds : Nat := 7 * 24 * 60 * 60

def clientCertOverlapSeconds : Nat := 10 * 60

def renewalRequestTtlSeconds : Nat := 24 * 60 * 60

def activatedRenewalHistoryLimit : Nat := 8

def pairingTtlSeconds : Nat := 10 * 60

def pairingClockSkewSeconds : Nat := 5 * 60

def pairingStatusLimit : Nat := 512

def pairingTerminalRetainedLimit : Nat := 512

def maxRelayTtlSeconds : Nat := 72 * 60 * 60

def maxRelayLegs : Nat := 6

def relayLeaseSeconds : Nat := 60

def routeActivePerPeerLimit : Nat := 128

def routeTotalPerPeerLimit : Nat := 512

def routeGlobalLimit : Nat := 10000

def relayActivePerPeerLimit : Nat := 256

def relayActiveGlobalLimit : Nat := 4096

def relayRetainedPerPeerLimit : Nat := 2048

def relayUsageWindowSeconds : Nat := 24 * 60 * 60

def relaySubmissionsPerPeerWindowLimit : Nat := 256

def relayBytesPerPeerWindowLimit : Nat := 4 * 1024 * 1024

def relayTerminalRetentionSeconds : Nat := 7 * 24 * 60 * 60

def auditRetentionSeconds : Nat := 90 * 24 * 60 * 60

def auditEventLimit : Nat := 100000

def maxProxyBodyBytes : Nat := 65536

inductive Failure where
  | securePeerError (code message : String) (statusCode : Nat)
  | valueError
  | integrityError
  deriving DecidableEq

def invalidRequest (message : String) : Failure := .securePeerError "invalid_request" message 422

def peerRevoked : Failure :=
  .securePeerError "peer_revoked" "Peer authentication is unavailable" 401

def idempotencyConflict (message : String) : Failure :=
  .securePeerError "idempotency_conflict" message 409

/-! ## Rows -/

inductive Scope where
  | teamspaceRead
  | teamspaceWrite
  | crossChatInstruction
  | crossChatRequestReply
  deriving DecidableEq

def Scope.text : Scope → String
  | .teamspaceRead => "teamspace.read"
  | .teamspaceWrite => "teamspace.write"
  | .crossChatInstruction => "cross_chat.instruction"
  | .crossChatRequestReply => "cross_chat.request_reply"

def Scope.isCrossChat : Scope → Bool
  | .crossChatInstruction | .crossChatRequestReply => true
  | .teamspaceRead | .teamspaceWrite => false

def scopeOrder : List Scope :=
  [.teamspaceRead, .teamspaceWrite, .crossChatInstruction, .crossChatRequestReply]

/-- Two lists of scopes are the same set. -/
def sameScopes (a b : List Scope) : Bool := a.all b.contains && b.all a.contains

inductive PairingStatus where
  | pending
  | approved
  | rejected
  | cancelled
  | expired
  deriving DecidableEq

structure PairingRequest where
  id : String
  requestId : String
  requestDigest : Bytes
  peerServerIdentity : String
  peerDisplayName : String
  peerPublicKeyPem : String
  /-- the public key of `csr_pem` -/
  csrPublicKeyPem : String
  requestedScopes : List Scope
  transcriptHash : String
  status : PairingStatus
  createdAt : Nat
  /-- zero where the request never expires -/
  expiresAt : Nat
  decidedAt : Option Nat
  deriving DecidableEq

inductive PeerStatus where
  | active
  | revoked
  deriving DecidableEq

structure Peer where
  id : String
  pairingId : String
  peerServerIdentity : String
  teamId : String
  scopes : List Scope
  transcriptHash : String
  publicKeyPem : String
  status : PeerStatus
  crossChatGrantEpoch : Option Nat
  createdAt : Nat
  revokedAt : Option Nat
  revokedBy : Option String
  deriving DecidableEq

structure PeerCertificate where
  fingerprint : String
  peerId : String
  serial : Nat
  publicKeyPem : String
  issuedAt : Nat
  expiresAt : Nat
  supersededAt : Option Nat
  validUntil : Nat
  revokedAt : Option Nat
  activationRequired : Bool
  deriving DecidableEq

/-- Activated, not superseded and not revoked. -/
def PeerCertificate.isCurrent (c : PeerCertificate) : Bool :=
  c.revokedAt.isNone && c.supersededAt.isNone && !c.activationRequired

structure RenewalResponse where
  peerId : String
  requestId : String
  certificateFingerprint : String
  certificateExpiresAt : Nat
  deriving DecidableEq

structure RenewalRequest where
  requestId : String
  peerId : String
  currentFingerprint : String
  newFingerprint : String
  requestDigest : Bytes
  response : RenewalResponse
  createdAt : Nat
  expiresAt : Nat
  /-- the time of the activation, where the status is activated -/
  activatedAt : Option Nat
  deriving DecidableEq

inductive TargetKind where
  | host
  | peer
  deriving DecidableEq

inductive RouteAction where
  | instruction
  | requestReply
  deriving DecidableEq

structure PeerRoute where
  id : String
  serverIdentity : String
  targetKind : TargetKind
  peerId : Option String
  audiencePeerId : Option String
  teamId : String
  revision : String
  routeAlias : String
  displayTitle : String
  actions : List RouteAction
  chatId : Option String
  status : PeerStatus
  createdAt : Nat
  updatedAt : Nat
  revokedAt : Option Nat
  deriving DecidableEq

inductive ExchangeStatus where
  | opened
  | complete
  | expired
  deriving DecidableEq

structure RelayExchange where
  id : String
  teamId : String
  firstRouteId : String
  secondRouteId : String
  lastEnvelopeId : Option String
  usedLegs : Nat
  createdAt : Nat
  expiresAt : Nat
  status : ExchangeStatus
  deriving DecidableEq

inductive RelayKind where
  | instruction
  | requestReply
  | response
  deriving DecidableEq

/-- The action that both routes must grant. -/
def RelayKind.requiredAction : RelayKind → RouteAction
  | .instruction => .instruction
  | .requestReply | .response => .requestReply

/-- The scope a peer needs for a kind. -/
def RelayKind.requiredScope : RelayKind → Scope
  | .instruction => .crossChatInstruction
  | .requestReply | .response => .crossChatRequestReply

inductive EnvelopeStatus where
  | queued
  | claimed
  | delivered
  | failed
  | expired
  deriving DecidableEq

/-- Still to be handed out or receipted. -/
def EnvelopeStatus.isLive : EnvelopeStatus → Bool
  | .queued | .claimed => true
  | .delivered | .failed | .expired => false

structure RelayEnvelope where
  id : String
  requestId : String
  sourcePeerId : Option String
  sourceRouteId : String
  sourceServerIdentity : String
  sourceRouteRevision : String
  requestDigest : Bytes
  targetServerIdentity : String
  targetRouteId : String
  targetPeerId : Option String
  targetRouteRevision : String
  kind : RelayKind
  exchangeId : String
  parentEnvelopeId : Option String
  parentLeg : Option Nat
  usedLegs : Nat
  message : String
  createdAt : Nat
  expiresAt : Nat
  status : EnvelopeStatus
  leaseOwner : Option String
  leaseTokenHash : Option Bytes
  leaseExpiresAt : Option Nat
  deriving DecidableEq

inductive ReceiptOutcome where
  | delivered
  | failed
  deriving DecidableEq

def ReceiptOutcome.status : ReceiptOutcome → EnvelopeStatus
  | .delivered => .delivered
  | .failed => .failed

structure RelayReceipt where
  envelopeId : String
  targetPeerId : Option String
  targetRouteId : String
  outcome : ReceiptOutcome
  receivedAt : Nat
  deriving DecidableEq

structure UsageWindow where
  peerId : String
  windowStart : Nat
  submissions : Nat
  bodyBytes : Nat
  deriving DecidableEq

structure IdempotencyRecord where
  realm : String
  operationId : String
  requestDigest : Bytes
  response : Json
  createdAt : Nat

structure Db where
  pairings : List PairingRequest
  peers : List Peer
  certificates : List PeerCertificate
  renewals : List RenewalRequest
  routes : List PeerRoute
  exchanges : List RelayExchange
  envelopes : List RelayEnvelope
  receipts : List RelayReceipt
  usage : List UsageWindow
  idempotency : List IdempotencyRecord
  consentEpoch : Nat
  /-- whether the index `active_peer_logical_identity` exists -/
  logicalIndex : Bool

/-- A new database; the consent of a new host may have begun already. -/
def Db.new (consentEpoch : Nat) : Db :=
  ⟨[], [], [], [], [], [], [], [], [], [], consentEpoch, false⟩

/-! ## Rows after a revocation -/

def Peer.revoke (peerId actor : String) (now : Nat) (p : Peer) : Peer :=
  if p.id == peerId && p.status == .active
  then { p with status := .revoked, revokedAt := some now, revokedBy := some actor } else p

def PeerCertificate.revoke (peerId : String) (now : Nat) (c : PeerCertificate) :
    PeerCertificate :=
  if c.peerId == peerId
  then { c with revokedAt := some (c.revokedAt.getD now), validUntil := min c.validUntil now }
  else c

def PeerRoute.revoke (which : PeerRoute → Bool) (revision : PeerRoute → String) (now : Nat)
    (r : PeerRoute) : PeerRoute :=
  if which r && r.status == .active then
    { r with
      status := .revoked
      revision := revision r
      revokedAt := some now
      updatedAt := now }
  else r

/-- The envelope without its lease. -/
def RelayEnvelope.release (status : EnvelopeStatus) (e : RelayEnvelope) : RelayEnvelope :=
  { e with status := status, leaseOwner := none, leaseTokenHash := none, leaseExpiresAt := none }

def RelayEnvelope.expire (which : RelayEnvelope → Bool) (e : RelayEnvelope) : RelayEnvelope :=
  if which e && e.status.isLive then e.release .expired else e

/-- The routes a peer published, and those published for it. -/
def PeerRoute.isOf (peerId : String) (r : PeerRoute) : Bool :=
  r.peerId == some peerId || r.audiencePeerId == some peerId

/-- The envelopes of a peer, and those on its routes. -/
def RelayEnvelope.isOf (peerId : String) (routeIds : List String) (e : RelayEnvelope) : Bool :=
  e.sourcePeerId == some peerId || e.targetPeerId == some peerId ||
    routeIds.contains e.sourceRouteId || routeIds.contains e.targetRouteId

structure PeerAuthorization where
  peerId : String
  pairingId : String
  peerServerIdentity : String
  teamId : String
  scopes : List Scope
  certificateFingerprint : String
  certificateExpiresAt : Nat
  peerDisplayName : String
  crossChatGrantEpoch : Option Nat
  deriving DecidableEq

/-! ## Checks of identifiers -/

def isAsciiAlnum (c : Char) : Bool := c.isAlphanum && c.toNat < 128

/-- `_ID_RE`, which is what `_identifier` accepts. -/
def isIdentifier (value : String) : Bool :=
  match value.toList with
  | [] => false
  | c :: rest => isAsciiAlnum c && 7 ≤ rest.length && rest.length ≤ 239 &&
      rest.all fun d => isAsciiAlnum d || "._:@/-".toList.contains d

/-- A SHA-256 digest in hexadecimal. -/
def isSha256Hex (value : String) : Bool := isHexOf 64 value.toList

/-- `_HEX_FP_RE`. -/
def isFingerprint (value : String) : Bool := isPrefixedHex "sha256:" 64 value

/-- A UUID of version four in its canonical text. -/
def isUuid4 (value : String) : Bool :=
  match value.toList.splitOn '-' with
  | [a, b, c, d, e] => isHexOf 8 a && isHexOf 4 b && isHexOf 4 c && c.head? == some '4' &&
      isHexOf 4 d && ["8", "9", "a", "b"].contains (String.ofList (d.take 1)) && isHexOf 12 e
  | _ => false

/-- A revision of a route: `rev_` and 32 hexadecimal digits. -/
def isRevision (value : String) : Bool := isPrefixedHex "rev_" 32 value

def identifier (value field : String) : Except Failure String := do
  require (isIdentifier value) (invalidRequest (field ++ " is invalid"))
  pure value

def uuid (value field : String) : Except Failure String := do
  require (isUuid4 value) (invalidRequest (field ++ " is invalid"))
  pure value

/-- `_bounded_text` where the value is a text. -/
def boundedText (value field : String) (minimum maximum : Nat) : Except Failure String := do
  let bytes := Json.utf8Size value.toList
  require (strip value.toList = value.toList ∧ minimum ≤ bytes ∧ bytes ≤ maximum ∧
    value.toList.all fun c => 32 ≤ c.toNat ∧ c.toNat ≠ 127) (invalidRequest (field ++ " is invalid"))
  pure value

namespace Db

variable (db : Db)

/-! ## Idempotent writes -/

/-- `_prune_history` of the operation records, oldest first. -/
def pruneHistory (now : Nat) : Db :=
  let kept := db.idempotency.filter fun r => decide (now ≤ r.createdAt + auditRetentionSeconds)
  let excess := kept.length - auditEventLimit
  let dropped := ((kept.mergeSort fun a b => decide (a.createdAt ≤ b.createdAt)).take excess).map
    fun r => (r.realm, r.operationId)
  { db with idempotency := kept.filter fun r => !dropped.contains (r.realm, r.operationId) }

/-- `_audit`: the event itself is not read by any operation. -/
def audit (now : Nat) : Db := db.pruneHistory now

/-- `_operation`: the digest of the request, with the answer it was given before. -/
def operation [Sha256] (realm operationId : String) (request : Json) :
    Except Failure (Bytes × Option Json) := do
  let canonicalId ← uuid operationId "idempotency_key"
  let digest := Sha256.digest (utf8 (Json.canonical request))
  match db.idempotency.find? fun r => r.realm = realm && r.operationId = canonicalId with
  | none => pure (digest, none)
  | some record => do
      require (record.requestDigest = digest)
        (idempotencyConflict "idempotency key was reused with different content")
      pure (digest, some record.response)

/-- `_record_operation`. -/
def recordOperation (realm operationId : String) (digest : Bytes) (response : Json) (now : Nat) :
    Except Failure Db := do
  let records ← required (Tables.insertRow (fun r => (r.realm, r.operationId)) (fun _ => true)
    ⟨realm, operationId, digest, response, now⟩ db.idempotency) .integrityError
  pure { db with idempotency := records }

/-! ## Consent -/

/-- `_require_cross_chat` in a transaction: the current epoch, and for a peer its row. -/
def requireCrossChat (available : Bool) (peer : Option PeerAuthorization) :
    Except Failure Nat := do
  require (available = true)
    (.securePeerError "cross_chat_unavailable" "Secure cross-chat delivery is not enabled" 409)
  require (0 < db.consentEpoch) (.securePeerError "cross_chat_consent_required"
    "Secure cross-chat consent must be activated before use" 409)
  let reapproval : Failure := .securePeerError "cross_chat_reapproval_required"
    "Peer cross-chat approval is not current" 403
  match peer with
  | none => pure db.consentEpoch
  | some peer => do
      require (peer.crossChatGrantEpoch = some db.consentEpoch) reapproval
      let row ← required (Tables.find Peer.id db.peers peer.peerId) peerRevoked
      require (row.status = .active ∧ row.pairingId = peer.pairingId ∧
        row.peerServerIdentity = peer.peerServerIdentity ∧ row.teamId = peer.teamId ∧
        sameScopes row.scopes peer.scopes) peerRevoked
      require (row.crossChatGrantEpoch = some db.consentEpoch) reapproval
      pure db.consentEpoch

/-! ## The revocation of a peer -/

/-- `UPDATE peer_routes SET status='revoked'` of the selected active routes. -/
def revokeRoutes (which : PeerRoute → Bool) (revision : PeerRoute → String) (now : Nat) : Db :=
  { db with routes := db.routes.map (PeerRoute.revoke which revision now) }

/-- `UPDATE relay_envelopes SET status='expired'` of the selected live envelopes. -/
def expireEnvelopes (which : RelayEnvelope → Bool) : Db :=
  { db with envelopes := db.envelopes.map (RelayEnvelope.expire which) }

/-- `UPDATE relay_exchanges SET status='expired'` of the selected open exchanges. -/
def expireExchanges (which : RelayExchange → Bool) : Db :=
  { db with exchanges := db.exchanges.map fun x =>
      if which x && x.status == .opened then { x with status := .expired } else x }

/-- `_revoke_peer_in_transaction`; `none` where the peer is not active. -/
def revokePeerInTransaction (peerId : String) (now : Nat) (actor revision : String) :
    Option Db :=
  if db.peers.any fun p => p.id == peerId && p.status == .active then
    let routeIds := (db.routes.filter (PeerRoute.isOf peerId)).map PeerRoute.id
    let db : Db := { db with
      peers := db.peers.map (Peer.revoke peerId actor now)
      certificates := db.certificates.map (PeerCertificate.revoke peerId now) }
    let db := db.revokeRoutes (PeerRoute.isOf peerId) (fun _ => revision) now
    let db := db.expireEnvelopes (RelayEnvelope.isOf peerId routeIds)
    some (db.audit now)
  else none

end Db

end AgentsServer.PeerStore

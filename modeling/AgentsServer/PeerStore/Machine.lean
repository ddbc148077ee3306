import AgentsServer.Library.Runs
import AgentsServer.PeerStore.Envelopes
import AgentsServer.PeerStore.Trust

/-!
# The secure peer host

The database with the authorizations that request handlers hold. A handler
authenticates its certificate in one transaction and acts in a later one, so
other transactions come in between. An authorization is good for the routes its
kind of authentication is for, and for those only.
-/

namespace AgentsServer.PeerStore

open Library

/-- The routes an authorization was made for. -/
inductive Purpose where
  | ordinary
  | renewalActivation
  | selfRevocation
  deriving DecidableEq

structure Host where
  db : Db
  /-- what the handlers hold -/
  granted : List (Purpose × PeerAuthorization)

def Host.start (consentEpoch : Nat) : Host := ⟨.new consentEpoch, []⟩

inductive HostCall where
  | submitPairing (request : NormalizedPairing) (pairingId : String) (external : Nat)
      (liveBytesFull : Bool)
  | approvePairing (pairingId teamId : String) (scopes : List String)
      (approvedBy expectedIdentity expectedTranscriptHash idempotencyKey : String)
      (available : Bool) (draw : Db.ApprovalDraw)
  | authenticatePeer (certificate : Certificate) (allowPendingRenewal : Bool)
  | authorizePeerSelfRevocation (certificate : Certificate)
  | renewPeer (peer : PeerAuthorization) (payload : RenewalPayload) (serialNumber : Nat)
  | activateRenewal (peer : PeerAuthorization) (requestId : String)
  | revokePeer (peerId teamId expectedFingerprint idempotencyKey revokedBy revision : String)
  | revokePeerForSelf (peer : PeerAuthorization) (idempotencyKey revision : String)
  | reconcileActiveLogicalPeers (preferredPeerIds : List String) (actor : String)
      (revision : String → String)
  | activateCrossChatConsent (expectedEpoch : Nat) (idempotencyKey activatedBy : String)
      (available : Bool) (revision : String)
  | retireAgentRoutesLocally (revision : PeerRoute → String)
  | publishLocalRoute (teamId audiencePeerId chatId : String) (descriptor : RouteDescriptor)
      (idempotencyKey publishedBy : String) (available liveBytesFull : Bool)
  | publishPeerRoute (peer : PeerAuthorization) (descriptor : RouteDescriptor)
      (available liveBytesFull : Bool)
  | revokeRoute (routeId teamId expectedRevision idempotencyKey revokedBy : String)
      (available : Bool) (revision : String)
  | revokePeerRoute (peer : PeerAuthorization) (routeId expectedRevision idempotencyKey : String)
      (available : Bool) (revision : String)
  | submitEnvelope (sender : Sender) (payload : EnvelopePayload)
      (envelopeId newExchangeId : String) (available liveBytesFull : Bool)
  | claimInbox (inbox : Inbox) (leaseOwner : String) (limit : Nat) (leaseToken : String)
      (available : Bool)
  | receiptEnvelope (receiver : Receiver) (envelopeId leaseToken : String)
      (outcome : ReceiptOutcome) (available : Bool)

/-- The authorization a call acts with. -/
def HostCall.holder : HostCall → Option (Purpose × PeerAuthorization)
  | .renewPeer peer .. | .publishPeerRoute peer .. | .revokePeerRoute peer .. =>
      some (.ordinary, peer)
  | .activateRenewal peer _ => some (.renewalActivation, peer)
  | .revokePeerForSelf peer .. => some (.selfRevocation, peer)
  | .submitEnvelope sender .. => sender.authorization.map fun peer => (.ordinary, peer)
  | .claimInbox inbox .. => inbox.authorization.map fun peer => (.ordinary, peer)
  | .receiptEnvelope receiver .. => receiver.authorization.map fun peer => (.ordinary, peer)
  | _ => none

/-- What a call answers. -/
inductive Answer where
  | done
  | authorized (peer : PeerAuthorization)
  | renewed (response : RenewalResponse)
  | activated (fingerprint : String)
  | submitted (submitted : Submitted)
  | claimed (claimed : Claimed)
  | receipted (receipted : Receipted)
  deriving DecidableEq

/-- The transaction of one call, on the database. -/
def perform [Sha256] [CertificateEncoding] (hostServerIdentity : String) (db : Db) (now : Nat) :
    HostCall → Db × Except Failure Answer
  | .submitPairing request pairingId external full =>
      atomically db do
        let (_, db) ← db.submitPairing request pairingId external full now
        pure (.done, db)
  | .approvePairing pairingId teamId scopes approvedBy identity transcript key available draw =>
      let result := db.approvePairing pairingId teamId scopes approvedBy identity transcript key
        available draw now
      (result.1, result.2.map fun _ => .done)
  | .authenticatePeer certificate allowPendingRenewal =>
      (db, (db.authenticatePeer certificate allowPendingRenewal now).map .authorized)
  | .authorizePeerSelfRevocation certificate =>
      (db, (db.authorizePeerSelfRevocation certificate now).map .authorized)
  | .renewPeer peer payload serialNumber =>
      atomically db do
        let (response, db) ← db.renewPeer peer payload serialNumber now
        pure (.renewed response, db)
  | .activateRenewal peer requestId =>
      atomically db do
        let (fingerprint, db) ← db.activateRenewal peer requestId now
        pure (.activated fingerprint, db)
  | .revokePeer peerId teamId fingerprint key revokedBy revision =>
      atomically db do
        let (_, db) ← db.revokePeer peerId teamId fingerprint key revokedBy revision now
        pure (.done, db)
  | .revokePeerForSelf peer key revision =>
      atomically db do
        let (_, db) ← db.revokePeerForSelf peer key revision now
        pure (.done, db)
  | .reconcileActiveLogicalPeers preferred actor revision =>
      atomically db do
        let (_, db) ← db.reconcileActiveLogicalPeers preferred actor revision now
        pure (.done, db)
  | .activateCrossChatConsent expectedEpoch key activatedBy available revision =>
      atomically db do
        let (_, db) ← db.activateCrossChatConsent expectedEpoch key activatedBy available revision now
        pure (.done, db)
  | .retireAgentRoutesLocally revision => ((db.retireAgentRoutesLocally revision now).2, .ok .done)
  | .publishLocalRoute teamId audience chatId descriptor key publishedBy available full =>
      atomically db do
        let (_, db) ← db.publishLocalRoute hostServerIdentity teamId audience chatId descriptor key
          publishedBy available full now
        pure (.done, db)
  | .publishPeerRoute peer descriptor available full =>
      atomically db do
        let (_, db) ← db.publishPeerRoute peer descriptor available full now
        pure (.done, db)
  | .revokeRoute routeId teamId expected key revokedBy available revision =>
      atomically db do
        let (_, db) ← db.revokeRoute routeId teamId expected key revokedBy available revision now
        pure (.done, db)
  | .revokePeerRoute peer routeId expected key available revision =>
      atomically db do
        let (_, db) ← db.revokePeerRoute peer routeId expected key available revision now
        pure (.done, db)
  | .submitEnvelope sender payload envelopeId exchangeId available full =>
      atomically db do
        let (answer, db) ←
          db.submitEnvelope sender payload envelopeId exchangeId available full now
        pure (.submitted answer, db)
  | .claimInbox inbox owner limit token available =>
      atomically db do
        let (answer, db) ← db.claimInbox hostServerIdentity inbox owner limit token available now
        pure (.claimed answer, db)
  | .receiptEnvelope receiver envelopeId token outcome available =>
      let result :=
        db.receiptEnvelope hostServerIdentity receiver envelopeId token outcome available now
      (result.1, result.2.map .receipted)

/-- The envelope that a call may add or settle. -/
inductive Touched where
  | nothing
  | submitted (envelopeId : String)
  | receipted (envelopeId : String)
  deriving DecidableEq

def HostCall.touched : HostCall → Touched
  | .submitEnvelope _ _ envelopeId .. => .submitted envelopeId
  | .receiptEnvelope _ envelopeId .. => .receipted envelopeId
  | _ => .nothing

/-- What a handler holds after its authentication. -/
def HostCall.grant : HostCall → Answer → List (Purpose × PeerAuthorization)
  | .authenticatePeer _ false, .authorized peer => [(.ordinary, peer)]
  | .authenticatePeer _ true, .authorized peer => [(.renewalActivation, peer)]
  | .authorizePeerSelfRevocation _, .authorized peer => [(.selfRevocation, peer)]
  | _, _ => []

/-- One transaction after another. A call acts only with an authorization that a handler
holds. -/
def step [Sha256] [CertificateEncoding] (hostServerIdentity : String) (h : Host)
    (act : HostCall × Nat) : Host × Except Failure Answer :=
  if act.1.holder.all h.granted.contains then
    let result := perform hostServerIdentity h.db act.2 act.1
    let granted := match result.2 with
      | .ok answer => act.1.grant answer
      | .error _ => []
    (⟨result.1, h.granted ++ granted⟩, result.2)
  else (h, .error authenticationRequired)

abbrev HostEvent := Runs.Event Host (HostCall × Nat) (Except Failure Answer)

end AgentsServer.PeerStore

import AgentsServer.PeerStore.Machine
import Mathlib.Logic.Relation

/-!
# The changes of the peer store

The tables that decide who is trusted and what is handed out are the core of the
database. Every transaction is a sequence of a few changes of the core; what
each change keeps, every transaction keeps.
-/

namespace AgentsServer.PeerStore

open Library

structure Core where
  peers : List Peer
  certificates : List PeerCertificate
  routes : List PeerRoute
  envelopes : List RelayEnvelope
  receipts : List RelayReceipt
  consentEpoch : Nat

def Db.core (db : Db) : Core :=
  ⟨db.peers, db.certificates, db.routes, db.envelopes, db.receipts, db.consentEpoch⟩

namespace Core

variable (c : Core)

/-- `_revoke_peer_in_transaction`. -/
def revokePeer (peerId actor revision : String) (now : Nat) : Core :=
  { c with
    peers := c.peers.map (Peer.revoke peerId actor now)
    certificates := c.certificates.map (PeerCertificate.revoke peerId now)
    routes := c.routes.map (PeerRoute.revoke (PeerRoute.isOf peerId) (fun _ => revision) now)
    envelopes := c.envelopes.map (RelayEnvelope.expire (RelayEnvelope.isOf peerId
      ((c.routes.filter (PeerRoute.isOf peerId)).map PeerRoute.id))) }

/-- The end of every active route and of every live envelope. -/
def endAll (epoch : Nat) (revision : PeerRoute → String) (now : Nat) : Core :=
  { c with
    consentEpoch := epoch
    routes := c.routes.map (PeerRoute.revoke (fun _ => true) revision now)
    envelopes := c.envelopes.map (RelayEnvelope.expire fun _ => true) }

/-- The end of one route and of the live envelopes on it. -/
def endRoute (which : PeerRoute → Bool) (routeId revision : String) (now : Nat) : Core :=
  { c with
    routes := c.routes.map (PeerRoute.revoke which (fun _ => revision) now)
    envelopes := c.envelopes.map (RelayEnvelope.expire fun e =>
      e.sourceRouteId == routeId || e.targetRouteId == routeId) }

/-- From the route of a peer to a route of this host, or the other way round. -/
inductive Direction (p : Peer) (source target : PeerRoute) (e : RelayEnvelope) : Prop where
  | toHost (kinds : source.targetKind = .peer ∧ target.targetKind = .host)
      (routes : source.peerId = some p.id ∧ target.audiencePeerId = some p.id)
      (envelope : e.sourcePeerId = some p.id ∧ e.targetPeerId = target.peerId)
  | toPeer (kinds : source.targetKind = .host ∧ target.targetKind = .peer)
      (routes : source.audiencePeerId = some p.id ∧ target.peerId = some p.id)
      (envelope : e.sourcePeerId = none ∧ e.targetPeerId = some p.id)
      (scope : e.kind.requiredScope ∈ p.scopes)

/-- Both routes of an envelope are active at the revisions it recorded, in one team, and
the peer behind it is active with the current grant. -/
structure Carries (p : Peer) (source target : PeerRoute) (e : RelayEnvelope) : Prop where
  peerLive : p ∈ c.peers ∧ p.status = .active ∧ p.crossChatGrantEpoch = some c.consentEpoch
  sourceLive : source ∈ c.routes ∧ source.id = e.sourceRouteId ∧ source.status = .active ∧
    source.revision = e.sourceRouteRevision ∧ source.serverIdentity = e.sourceServerIdentity
  targetLive : target ∈ c.routes ∧ target.id = e.targetRouteId ∧ target.status = .active ∧
    target.revision = e.targetRouteRevision ∧ target.serverIdentity = e.targetServerIdentity
  team : source.teamId = target.teamId
  granted : e.kind.requiredAction ∈ source.actions ∧ e.kind.requiredAction ∈ target.actions
  direction : Direction p source target e

/-- Whose route it is: that of a peer, or one of this host for a peer. -/
inductive Published (hostServerIdentity : String) (p : Peer) (r : PeerRoute) : Prop where
  | peer (kind : r.targetKind = .peer)
      (owner : r.peerId = some p.id ∧ r.audiencePeerId = none)
      (identity : r.serverIdentity = p.peerServerIdentity)
  | host (kind : r.targetKind = .host)
      (audience : r.audiencePeerId = some p.id ∧ r.peerId = none)
      (identity : r.serverIdentity = hostServerIdentity)

end Core

/-- The changes that every transaction is made of. `now` is the time of the call, and
`touched` the envelope it may add or settle. -/
inductive Change (hostServerIdentity : String) (now : Nat) (touched : Touched) :
    Core → Core → Prop where
  | revoke {c : Core} {peerId actor revision : String} :
      Change _ _ _ c (c.revokePeer peerId actor revision now)
  | approve {c : Core} {p : Peer} {certificate : PeerCertificate}
      (fresh : ∀ old ∈ c.peers, old.id ≠ p.id)
      (alone : ∀ old ∈ c.peers, old.status = .active →
        ¬ (old.teamId = p.teamId ∧ old.peerServerIdentity = p.peerServerIdentity))
      (active : p.status = .active)
      (unused : ∀ old ∈ c.certificates, old.fingerprint ≠ certificate.fingerprint)
      (owner : certificate.peerId = p.id) (current : certificate.isCurrent = true)
      (key : certificate.publicKeyPem = p.publicKeyPem) :
      Change _ _ _ c { c with
        peers := c.peers ++ [p], certificates := c.certificates ++ [certificate] }
  | issue {c : Core} {certificate : PeerCertificate}
      (owner : ∃ p ∈ c.peers, p.id = certificate.peerId ∧ p.status = .active)
      (unused : ∀ old ∈ c.certificates, old.fingerprint ≠ certificate.fingerprint)
      (pending : certificate.activationRequired = true ∧ certificate.supersededAt = none) :
      Change _ _ _ c { c with certificates := c.certificates ++ [certificate] }
  | activate {c : Core} {peerId : String} {old new : PeerCertificate}
      (found : old ∈ c.certificates ∧ old.peerId = peerId ∧ old.isCurrent = true)
      (awaited : new ∈ c.certificates ∧ new.peerId = peerId ∧ new.activationRequired = true ∧
        new.revokedAt = none) :
      Change _ _ _ c { c with
        certificates := c.certificates.map (PeerCertificate.swap peerId old.fingerprint
          new.fingerprint (min old.expiresAt (now + clientCertOverlapSeconds)) now)
        peers := c.peers.map (Peer.setKey peerId new.publicKeyPem) }
  | endAll {c : Core} {epoch : Nat} {revision : PeerRoute → String} :
      Change _ _ _ c (c.endAll epoch revision now)
  | endRoute {c : Core} {which : PeerRoute → Bool} {routeId revision : String}
      (only : ∀ r, which r = true → r.id = routeId) :
      Change _ _ _ c (c.endRoute which routeId revision now)
  | publish {c : Core} {p : Peer} {r : PeerRoute} (fresh : ∀ old ∈ c.routes, old.id ≠ r.id)
      (known : p ∈ c.peers ∧ p.status = .active) (team : r.teamId = p.teamId)
      (published : Core.Published hostServerIdentity p r) :
      Change _ _ _ c { c with routes := c.routes ++ [r] }
  | expire {c : Core} {which : RelayEnvelope → Bool} :
      Change _ _ _ c { c with envelopes := c.envelopes.map (RelayEnvelope.expire which) }
  | forget {c : Core} {which : RelayEnvelope → Bool}
      (settled : ∀ e, which e = true → e.status.isLive = false) :
      Change _ _ _ c { c with
        envelopes := c.envelopes.filter fun e => !which e
        receipts := c.receipts.filter fun r =>
          !((c.envelopes.filter which).map RelayEnvelope.id).contains r.envelopeId }
  | requeue {c : Core} :
      Change _ _ _ c { c with envelopes := c.envelopes.map (RelayEnvelope.requeue now) }
  | submit {c : Core} {p : Peer} {source target : PeerRoute} {e : RelayEnvelope}
      (fresh : ∀ old ∈ c.envelopes, old.id ≠ e.id) (queued : e.status = .queued)
      (carried : c.Carries p source target e) (named : touched = .submitted e.id) :
      Change _ _ _ c { c with envelopes := c.envelopes ++ [e] }
  | lease {c : Core} {ids : List String} {owner : String} {digest : Bytes} :
      Change _ _ _ c { c with
        envelopes := c.envelopes.map (RelayEnvelope.leaseIn ids owner digest now) }
  | settle {c : Core} {e : RelayEnvelope} {r : RelayReceipt}
      (claimed : e ∈ c.envelopes ∧ e.status = .claimed) (names : r.envelopeId = e.id)
      (first : ∀ old ∈ c.receipts, old.envelopeId ≠ r.envelopeId)
      (named : touched = .receipted r.envelopeId) :
      Change _ _ _ c { c with
        envelopes := c.envelopes.map (RelayEnvelope.settle e.id r.outcome)
        receipts := c.receipts ++ [r] }

/-- Several changes of one call, one after another. -/
abbrev Changes (hostServerIdentity : String) (now : Nat) (touched : Touched) :
    Core → Core → Prop :=
  Relation.ReflTransGen (Change hostServerIdentity now touched)

/-- What every change keeps. -/
theorem Changes.keep {hostServerIdentity : String} {now : Nat} {touched : Touched}
    {P : Core → Prop}
    (one : ∀ {c c'}, Change hostServerIdentity now touched c c' → P c → P c') {c c' : Core}
    (h : Changes hostServerIdentity now touched c c') (hc : P c) : P c' := by
  induction h with
  | refl => exact hc
  | tail _ hlast ih => exact one hlast ih

end AgentsServer.PeerStore

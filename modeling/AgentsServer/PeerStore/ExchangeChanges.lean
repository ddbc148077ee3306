import AgentsServer.PeerStore.RelayChanges

/-!
# The changes of the exchanges

The ledger is the part of the database that says which leg belongs to which
exchange; a lease, a receipt or an expiry of an envelope does not change it.
Every call ends some open exchanges, prunes, or prunes and adds one leg.
-/

namespace AgentsServer.PeerStore

open Library

structure Ledger where
  exchanges : List RelayExchange
  legs : List RelayEnvelope

/-- The exchanges, and the envelopes without what happens to them on their way. -/
def Db.ledger (db : Db) : Ledger :=
  ⟨db.exchanges, db.envelopes.map (RelayEnvelope.release .queued)⟩

def RelayExchange.close (which : RelayExchange → Bool) (x : RelayExchange) : RelayExchange :=
  if which x && x.status == .opened then { x with status := .expired } else x

/-- The exchange after a leg. -/
def RelayExchange.advance (e : RelayEnvelope) (x : RelayExchange) : RelayExchange :=
  { x with
    lastEnvelopeId := some e.id
    usedLegs := e.usedLegs
    status := if e.kind = .requestReply then .opened else .complete }

/-- The id that a call draws for a new exchange. -/
def HostCall.drawnExchange : HostCall → Option String
  | .submitEnvelope _ payload _ newExchangeId .. =>
      if payload.exchangeId.isNone then some newExchangeId else none
  | _ => none

/-- What a call submits. -/
def HostCall.payload : HostCall → Option EnvelopePayload
  | .submitEnvelope _ payload .. => some payload
  | _ => none

@[simp] theorem RelayExchange.close_id (which : RelayExchange → Bool) (x : RelayExchange) :
    (x.close which).id = x.id := by
  unfold close
  split <;> rfl

namespace Ledger

/-- The end of the selected open exchanges. -/
def close (l : Ledger) (which : RelayExchange → Bool) : Ledger :=
  { l with exchanges := l.exchanges.map (RelayExchange.close which) }

/-- Pruning ends the exchanges past their time and drops only what is older than the
retention: legs, and ended exchanges that have no leg left. -/
structure Pruned (now : Nat) (l l' : Ledger) : Prop where
  legs : l'.legs.Sublist l.legs
  legKept : ∀ e ∈ l.legs, e ∈ l'.legs ∨ e.createdAt + relayTerminalRetentionSeconds < now
  exchanges : l'.exchanges.Sublist (l.close fun x => decide (x.expiresAt ≤ now)).exchanges
  owned : ∀ x ∈ (l.close fun x => decide (x.expiresAt ≤ now)).exchanges,
    ∀ e ∈ l'.legs, e.exchangeId = x.id → x ∈ l'.exchanges

theorem close_ids (l : Ledger) (which : RelayExchange → Bool) :
    (l.close which).exchanges.map RelayExchange.id = l.exchanges.map RelayExchange.id := by
  simp [close]

theorem Pruned.unique {now : Nat} {l l' : Ledger} (h : Pruned now l l')
    (unique : (l.exchanges.map RelayExchange.id).Nodup) :
    (l'.exchanges.map RelayExchange.id).Nodup := by
  rw [← close_ids l fun x => decide (x.expiresAt ≤ now)] at unique
  exact unique.sublist (h.exchanges.map _)

/-- What every new leg is checked for. -/
structure Submitted (now : Nat) (call : HostCall) (l : Ledger) (e : RelayEnvelope) : Prop where
  sent : ∃ payload, call.payload = some payload ∧ e.sourceRouteId = payload.sourceRouteId ∧
    e.requestId = payload.requestId ∧ (e.expiresAt : Int) = payload.expiresAt
  fresh : ∀ old ∈ l.legs, old.id ≠ e.id
  unused : ∀ old ∈ l.legs, ¬ (old.sourceRouteId = e.sourceRouteId ∧ old.requestId = e.requestId)
  created : e.createdAt = now
  expires : now < e.expiresAt ∧ e.expiresAt ≤ now + maxRelayTtlSeconds

/-- A leg answers another: the routes are swapped at the same revisions. -/
structure Follows (p e : RelayEnvelope) : Prop where
  asked : p.kind = .requestReply
  answers : e.kind ≠ .instruction
  parent : e.parentEnvelopeId = some p.id ∧ e.parentLeg = some p.usedLegs
  routes : e.sourceRouteId = p.targetRouteId ∧ e.targetRouteId = p.sourceRouteId
  revisions : e.sourceRouteRevision = p.targetRouteRevision ∧
    e.targetRouteRevision = p.sourceRouteRevision

/-- The first leg of a new exchange. -/
structure Opens (l : Ledger) (x : RelayExchange) (e : RelayEnvelope) : Prop where
  unknown : ∀ old ∈ l.exchanges, old.id ≠ x.id
  names : e.exchangeId = x.id
  leg : e.usedLegs = 1 ∧ e.parentEnvelopeId = none ∧ e.parentLeg = none
  kind : e.kind ≠ .response
  times : x.createdAt = e.createdAt ∧ x.expiresAt = e.expiresAt

/-- A later leg of an open exchange, after the leg that was the last. -/
structure Continues (l : Ledger) (x : RelayExchange) (p e : RelayEnvelope) : Prop where
  row : x ∈ l.exchanges ∧ x.status = .opened ∧ x.lastEnvelopeId = some p.id
  parent : p ∈ l.legs ∧ p.exchangeId = x.id
  follows : Follows p e
  names : e.exchangeId = x.id
  leg : e.usedLegs = x.usedLegs + 1 ∧ e.usedLegs ≤ maxRelayLegs
  last : e.usedLegs = maxRelayLegs → e.kind ≠ .requestReply
  expires : e.expiresAt = x.expiresAt

end Ledger

/-- What a call does to the ledger. -/
inductive Turn (now : Nat) (call : HostCall) (l : Ledger) : Ledger → Prop where
  | rest : Turn _ _ _ l
  | close {which : RelayExchange → Bool} : Turn _ _ _ (l.close which)
  | prune {l' : Ledger} (pruned : l.Pruned now l') : Turn _ _ _ l'
  | begins {l' : Ledger} {x : RelayExchange} {e : RelayEnvelope} (pruned : l.Pruned now l')
      (submitted : l'.Submitted now call e) (opens : l'.Opens x e) (draws : call.drawnExchange = some x.id) :
      Turn _ _ _ ⟨l'.exchanges ++ [x.advance e], l'.legs ++ [e]⟩
  | continues {l' : Ledger} {x : RelayExchange} {p e : RelayEnvelope} (pruned : l.Pruned now l')
      (submitted : l'.Submitted now call e) (follow : l'.Continues x p e) :
      Turn _ _ _ ⟨l'.exchanges.map fun y => if y.id = x.id then y.advance e else y,
        l'.legs ++ [e]⟩

variable {hostServerIdentity : String}

@[simp] theorem RelayEnvelope.release_expire (which : RelayEnvelope → Bool) (e : RelayEnvelope) :
    (e.expire which).release .queued = e.release .queued := by
  unfold RelayEnvelope.expire
  split <;> rfl

@[simp] theorem RelayEnvelope.release_requeue (now : Nat) (e : RelayEnvelope) :
    (e.requeue now).release .queued = e.release .queued := by
  unfold RelayEnvelope.requeue
  split <;> rfl

@[simp] theorem RelayEnvelope.release_leaseIn (ids : List String) (owner : String)
    (digest : Bytes) (now : Nat) (e : RelayEnvelope) :
    (e.leaseIn ids owner digest now).release .queued = e.release .queued := by
  unfold RelayEnvelope.leaseIn
  split <;> rfl

@[simp] theorem RelayEnvelope.release_settle (envelopeId : String) (outcome : ReceiptOutcome)
    (e : RelayEnvelope) :
    (e.settle envelopeId outcome).release .queued = e.release .queued := by
  unfold RelayEnvelope.settle
  split <;> rfl

namespace Db

variable {db db' : Db} {now : Nat}

theorem ledger_map (f : RelayEnvelope → RelayEnvelope)
    (same : ∀ e, (f e).release .queued = e.release .queued) :
    Db.ledger { db with envelopes := db.envelopes.map f } = db.ledger := by
  simp [ledger, same]

@[simp] theorem expireEnvelopes_ledger (which : RelayEnvelope → Bool) :
    (db.expireEnvelopes which).ledger = db.ledger :=
  ledger_map _ (RelayEnvelope.release_expire which)

theorem audit_ledger : (db.audit now).ledger = db.ledger := rfl

@[simp] theorem expireExchanges_ledger (which : RelayExchange → Bool) :
    (db.expireExchanges which).ledger = db.ledger.close which := rfl

theorem recordOperation_ledger {realm operationId : String} {digest : Bytes} {response : Json}
    (h : db.recordOperation realm operationId digest response now = .ok db') :
    db'.ledger = db.ledger := by
  rw [recordOperation_eq h]
  rfl

/-! ## Trust -/

theorem revokePeerInTransaction_ledger {peerId actor revision : String}
    (h : db.revokePeerInTransaction peerId now actor revision = some db') :
    db'.ledger = db.ledger := by
  unfold revokePeerInTransaction at h
  split at h
  next =>
    cases h
    rw [audit_ledger, expireEnvelopes_ledger]
    rfl
  next => cases h

theorem supersede_ledger (peerIds : List String) (actor : String) (revision : String → String)
    (db : Db) : (db.supersede peerIds now actor revision).ledger = db.ledger := by
  unfold supersede
  induction peerIds generalizing db with
  | nil => rfl
  | cons peerId rest ih =>
      rw [List.foldl_cons, ih]
      cases hrevoke : db.revokePeerInTransaction peerId now actor (revision peerId) with
      | none => rfl
      | some mid => exact revokePeerInTransaction_ledger hrevoke

theorem admitPeer_ledger [CertificateEncoding] {row : PairingRequest} {teamId : String}
    {scopes : List Scope} {actor : String} {grantEpoch : Option Nat} {draw : ApprovalDraw}
    {response : Json}
    (h : db.admitPeer row teamId scopes actor grantEpoch draw now = .ok (response, db')) :
    db'.ledger = db.ledger := by
  unfold admitPeer at h
  simp only [bind_eq_ok, pure_eq_ok, Prod.mk.injEq] at h
  obtain ⟨mid, hpeer, last, hcertificate, -, rfl⟩ := h
  obtain ⟨rfl, -⟩ := insertPeer_eq hpeer
  obtain ⟨rfl, -⟩ := insertCertificate_eq hcertificate
  exact supersede_ledger _ actor draw.revision db

theorem approvePairing_ledger [Sha256] [CertificateEncoding] (db : Db)
    (pairingId teamId : String) (scopes : List String)
    (approvedBy expectedIdentity expectedTranscriptHash idempotencyKey : String)
    (available : Bool) (draw : ApprovalDraw) (now : Nat) :
    (db.approvePairing pairingId teamId scopes approvedBy expectedIdentity
      expectedTranscriptHash idempotencyKey available draw now).1.ledger = db.ledger := by
  unfold approvePairing
  dsimp only
  split
  next => rfl
  next =>
    split
    next => rfl
    next => rfl
    next digest grantEpoch row _ =>
      split
      next => rfl
      next =>
        apply atomically_keep (P := fun after : Db => after.ledger = db.ledger) rfl
        intro response after h
        simp only [bind_eq_ok, require_eq_ok, pure_eq_ok, Prod.exists, Prod.mk.injEq] at h
        obtain ⟨_, -, _, -, _, -, _, admitted, hadmit, last, hrecord, -, rfl⟩ := h
        exact (recordOperation_ledger hrecord).trans (admitPeer_ledger hadmit)

theorem submitPairing_ledger {request : NormalizedPairing} {pairingId : String} {external : Nat}
    {full : Bool} {row : PairingRequest}
    (h : db.submitPairing request pairingId external full now = .ok (row, db')) :
    db'.ledger = db.ledger := by
  unfold submitPairing at h
  dsimp only at h
  split at h
  next =>
    simp only [bind_eq_ok, require_eq_ok, required_eq_ok, pure_eq_ok, Prod.mk.injEq] at h
    obtain ⟨_, -, _, -, -, rfl⟩ := h
    rfl
  next =>
    simp only [bind_eq_ok, require_eq_ok, required_eq_ok, pure_eq_ok, Prod.mk.injEq] at h
    obtain ⟨_, -, _, -, _, -, _, -, -, rfl⟩ := h
    rfl

theorem renewPeer_ledger [CertificateEncoding] {peer : PeerAuthorization}
    {payload : RenewalPayload} {serialNumber : Nat} {response : RenewalResponse}
    (h : db.renewPeer peer payload serialNumber now = .ok (response, db')) :
    db'.ledger = db.ledger := by
  unfold renewPeer at h
  rw [bind_eq_ok] at h
  obtain ⟨_, -, h⟩ := h
  split at h
  next =>
    simp only [bind_eq_ok, pure_eq_ok, Prod.mk.injEq] at h
    obtain ⟨_, -, _, -, -, rfl⟩ := h
    rfl
  next =>
    simp only [bind_eq_ok, require_eq_ok, required_eq_ok, pure_eq_ok, Prod.exists,
      Prod.mk.injEq] at h
    obtain ⟨_, -, row, current, -, _, -, _, -, mid, hinsert, _, -, -, rfl⟩ := h
    obtain ⟨rfl, -⟩ := insertCertificate_eq hinsert
    rfl

theorem activateRenewal_ledger {peer : PeerAuthorization} {requestId fingerprint : String}
    (h : db.activateRenewal peer requestId now = .ok (fingerprint, db')) :
    db'.ledger = db.ledger := by
  unfold activateRenewal at h
  simp only [bind_eq_ok, required_eq_ok] at h
  obtain ⟨renewalId, -, row, -, h⟩ := h
  split at h
  next =>
    simp only [pure_eq_ok, Prod.mk.injEq] at h
    obtain ⟨-, rfl⟩ := h
    rfl
  next =>
    simp only [bind_eq_ok, require_eq_ok, required_eq_ok, pure_eq_ok, Prod.mk.injEq] at h
    obtain ⟨_, -, old, -, new, -, -, rfl⟩ := h
    rfl

theorem revokePeer_ledger [Sha256] {peerId teamId fingerprint key revokedBy revision : String}
    {response : Json}
    (h : db.revokePeer peerId teamId fingerprint key revokedBy revision now =
      .ok (response, db')) : db'.ledger = db.ledger := by
  unfold revokePeer at h
  simp only [bind_eq_ok, Prod.exists] at h
  obtain ⟨_, -, _, -, _, -, _, -, digest, cached, -, h⟩ := h
  cases cached with
  | some response =>
      simp only [pure_eq_ok, Prod.mk.injEq] at h
      rw [h.2]
  | none =>
      simp only [bind_eq_ok, require_eq_ok, required_eq_ok, pure_eq_ok, Prod.mk.injEq] at h
      obtain ⟨_, -, _, -, _, -, mid, hrevoke, last, hrecord, -, rfl⟩ := h
      exact (recordOperation_ledger hrecord).trans (revokePeerInTransaction_ledger hrevoke)

theorem revokePeerForSelf_ledger [Sha256] {peer : PeerAuthorization} {key revision : String}
    {response : Json} (h : db.revokePeerForSelf peer key revision now = .ok (response, db')) :
    db'.ledger = db.ledger := by
  unfold revokePeerForSelf at h
  simp only [bind_eq_ok, Prod.exists] at h
  obtain ⟨_, -, digest, cached, -, h⟩ := h
  cases cached with
  | some response =>
      simp only [pure_eq_ok, Prod.mk.injEq] at h
      rw [h.2]
  | none =>
      simp only [bind_eq_ok, require_eq_ok, required_eq_ok, pure_eq_ok, Prod.exists,
        Prod.mk.injEq] at h
      obtain ⟨row, -, _, -, revokedAt, mid, hmid, last, hrecord, -, rfl⟩ := h
      rw [recordOperation_ledger hrecord]
      unfold endForSelf at hmid
      split at hmid
      next =>
        simp only [bind_eq_ok, required_eq_ok, pure_eq_ok, Prod.mk.injEq] at hmid
        obtain ⟨_, hrevoke, -, rfl⟩ := hmid
        exact revokePeerInTransaction_ledger hrevoke
      next =>
        simp only [pure_eq_ok, Prod.mk.injEq] at hmid
        rw [hmid.2]

theorem reconcile_ledger {preferred : List String} {actor : String} {revision : String → String}
    {superseded : List String}
    (h : db.reconcileActiveLogicalPeers preferred actor revision now = .ok (superseded, db')) :
    db'.ledger = db.ledger := by
  unfold reconcileActiveLogicalPeers at h
  simp only [bind_eq_ok, require_eq_ok, pure_eq_ok, Prod.mk.injEq] at h
  obtain ⟨_, -, _, -, _, -, -, rfl⟩ := h
  exact supersede_ledger _ actor revision db

/-! ## Relay -/

theorem activateCrossChatConsent_turn [Sha256] {call : HostCall} {expectedEpoch : Nat}
    {key activatedBy revision : String} {available : Bool} {response : Json}
    (h : db.activateCrossChatConsent expectedEpoch key activatedBy available revision now =
      .ok (response, db')) : Turn now call db.ledger db'.ledger := by
  unfold activateCrossChatConsent at h
  simp only [bind_eq_ok, Prod.exists] at h
  obtain ⟨_, -, _, -, digest, cached, -, h⟩ := h
  cases cached with
  | some response =>
      simp only [pure_eq_ok, Prod.mk.injEq] at h
      rw [h.2]
      exact .rest
  | none =>
      simp only [bind_eq_ok, require_eq_ok, pure_eq_ok, Prod.mk.injEq] at h
      obtain ⟨_, -, last, hrecord, -, rfl⟩ := h
      rw [audit_ledger, recordOperation_ledger hrecord, expireExchanges_ledger,
        expireEnvelopes_ledger]
      exact .close

theorem retire_turn {call : HostCall} (revision : PeerRoute → String) :
    Turn now call db.ledger (db.retireAgentRoutesLocally revision now).2.ledger := by
  unfold retireAgentRoutesLocally
  rw [expireExchanges_ledger, expireEnvelopes_ledger]
  exact .close

theorem publishLocalRoute_ledger [Sha256] {teamId audience chatId key publishedBy : String}
    {descriptor : RouteDescriptor} {available full : Bool} {response : Json}
    (h : db.publishLocalRoute hostServerIdentity teamId audience chatId descriptor key publishedBy
      available full now = .ok (response, db')) : db'.ledger = db.ledger := by
  unfold publishLocalRoute at h
  simp only [bind_eq_ok, Prod.exists] at h
  obtain ⟨_, -, _, -, _, -, _, -, _, -, actions, -, digest, cached, -, h⟩ := h
  cases cached with
  | some response =>
      simp only [pure_eq_ok, Prod.mk.injEq] at h
      rw [h.2]
  | none =>
      simp only [bind_eq_ok, require_eq_ok, required_eq_ok, pure_eq_ok, Prod.mk.injEq] at h
      obtain ⟨peer, -, _, -, _, -, _, -, _, -, mid, hinsert, last, hrecord, -, rfl⟩ := h
      obtain ⟨rfl, -⟩ := insertRoute_eq hinsert
      rw [audit_ledger, recordOperation_ledger hrecord]
      rfl

theorem publishPeerRoute_ledger {peer : PeerAuthorization} {descriptor : RouteDescriptor}
    {available full : Bool} {routeId : String}
    (h : db.publishPeerRoute peer descriptor available full now = .ok (routeId, db')) :
    db'.ledger = db.ledger := by
  unfold publishPeerRoute at h
  simp only [bind_eq_ok] at h
  obtain ⟨epoch, -, actions, -, _, -, h⟩ := h
  split at h
  next =>
    simp only [bind_eq_ok, require_eq_ok, pure_eq_ok, Prod.mk.injEq] at h
    obtain ⟨_, -, -, rfl⟩ := h
    rfl
  next =>
    simp only [bind_eq_ok, require_eq_ok, pure_eq_ok, Prod.mk.injEq] at h
    obtain ⟨_, -, mid, hinsert, -, rfl⟩ := h
    obtain ⟨rfl, -⟩ := insertRoute_eq hinsert
    rfl

theorem endRoute_ledger {routeId expected revision : String} {owned : PeerRoute → Bool}
    {changed : Failure} (h : db.endRoute routeId expected owned changed revision now = .ok db') :
    ∃ which, db'.ledger = db.ledger.close which := by
  unfold endRoute at h
  simp only [bind_eq_ok, pure_eq_ok] at h
  obtain ⟨_, -, rfl⟩ := h
  rw [expireEnvelopes_ledger, expireExchanges_ledger]
  exact ⟨_, rfl⟩

theorem revokeRoute_turn [Sha256] {call : HostCall}
    {routeId teamId expected key revokedBy revision : String} {available : Bool} {response : Json}
    (h : db.revokeRoute routeId teamId expected key revokedBy available revision now =
      .ok (response, db')) : Turn now call db.ledger db'.ledger := by
  unfold revokeRoute at h
  simp only [bind_eq_ok, Prod.exists] at h
  obtain ⟨_, -, _, -, _, -, _, -, _, -, digest, cached, -, h⟩ := h
  cases cached with
  | some response =>
      simp only [pure_eq_ok, Prod.mk.injEq] at h
      rw [h.2]
      exact .rest
  | none =>
      simp only [bind_eq_ok, pure_eq_ok, Prod.mk.injEq] at h
      obtain ⟨mid, hend, last, hrecord, -, rfl⟩ := h
      obtain ⟨which, hclose⟩ := endRoute_ledger hend
      rw [audit_ledger, recordOperation_ledger hrecord, hclose]
      exact .close

theorem revokePeerRoute_turn [Sha256] {call : HostCall} {peer : PeerAuthorization}
    {routeId expected key revision : String} {available : Bool} {response : Json}
    (h : db.revokePeerRoute peer routeId expected key available revision now =
      .ok (response, db')) : Turn now call db.ledger db'.ledger := by
  unfold revokePeerRoute at h
  simp only [bind_eq_ok, Prod.exists] at h
  obtain ⟨_, -, _, -, _, -, digest, cached, -, h⟩ := h
  cases cached with
  | some response =>
      simp only [pure_eq_ok, Prod.mk.injEq] at h
      rw [h.2]
      exact .rest
  | none =>
      simp only [bind_eq_ok, pure_eq_ok, Prod.mk.injEq] at h
      obtain ⟨mid, hend, last, hrecord, -, rfl⟩ := h
      obtain ⟨which, hclose⟩ := endRoute_ledger hend
      rw [audit_ledger, recordOperation_ledger hrecord, hclose]
      exact .close

/-- What pruning leaves of the ledger. -/
theorem pruneRelayState_pruned (db : Db) (now : Nat) :
    db.ledger.Pruned now (db.pruneRelayState now).ledger where
  legs := by
    have hsub := (List.filter_sublist (l := (db.expireEnvelopes fun e =>
      decide (e.expiresAt ≤ now)).envelopes) (p := fun e => !(!e.status.isLive &&
        decide (e.createdAt + relayTerminalRetentionSeconds < now)))).map
      (RelayEnvelope.release .queued)
    have hledger : (db.expireEnvelopes fun e => decide (e.expiresAt ≤ now)).ledger = db.ledger :=
      expireEnvelopes_ledger _
    exact congrArg Ledger.legs hledger ▸ hsub
  legKept := by
    intro e he
    obtain ⟨row, hrow, rfl⟩ := List.mem_map.mp he
    by_cases hold : row.createdAt + relayTerminalRetentionSeconds < now
    · exact .inr hold
    · left
      set ended := row.expire fun e => decide (e.expiresAt ≤ now)
      have hsame : ended.release .queued = row.release .queued := RelayEnvelope.release_expire _ row
      have hcreated : (ended.release .queued).createdAt = (row.release .queued).createdAt :=
        congrArg RelayEnvelope.createdAt hsame
      change ended.createdAt = row.createdAt at hcreated
      rw [← hsame]
      refine List.mem_map_of_mem (List.mem_filter.mpr ⟨List.mem_map_of_mem hrow, ?_⟩)
      change (!(_ && decide (ended.createdAt + relayTerminalRetentionSeconds < now))) = true
      rw [hcreated, decide_eq_false hold, Bool.and_false]
      rfl
  exchanges := List.filter_sublist
  owned := by
    intro x hx e he hnames
    obtain ⟨row, hrow, rfl⟩ := List.mem_map.mp he
    refine List.mem_filter.mpr ⟨hx, ?_⟩
    rw [Bool.or_eq_true]
    right
    rw [List.any_eq_true]
    exact ⟨row, hrow, beq_iff_eq.mpr hnames⟩

theorem claimInbox_turn [Sha256] {call : HostCall} {inbox : Inbox} {owner : String}
    {limit : Nat} {token : String} {available : Bool} {answer : Claimed}
    (h : db.claimInbox hostServerIdentity inbox owner limit token available now =
      .ok (answer, db')) : Turn now call db.ledger db'.ledger := by
  rw [(claimInbox_eq h).2, ledger_map _ (RelayEnvelope.release_leaseIn _ owner _ now)]
  have hrequeue : ((db.pruneRelayState now).requeue now).ledger =
      (db.pruneRelayState now).ledger := ledger_map _ (RelayEnvelope.release_requeue now)
  rw [hrequeue]
  exact .prune (pruneRelayState_pruned db now)

/-! ### Submission -/

theorem checkPayload_times {sender : Sender} {payload : EnvelopePayload}
    (h : checkPayload sender payload now = .ok ()) :
    (now : Int) < payload.expiresAt ∧ payload.expiresAt ≤ now + maxRelayTtlSeconds := by
  unfold checkPayload at h
  simp only [bind_eq_ok] at h
  obtain ⟨_, -, _, -, h⟩ := h
  cases sender with
  | peer caller =>
      simp only [bind_eq_ok, require_eq_ok] at h
      obtain ⟨_, -, _, -, _, -, _, -, _, -, _, htimes, -⟩ := h
      exact htimes
  | host teamId sourceRouteId =>
      simp only [bind_eq_ok, require_eq_ok] at h
      obtain ⟨_, -, _, -, _, -, _, -, _, -, _, htimes, -⟩ := h
      exact htimes

/-- A leg opens a new exchange or continues one from its last envelope. -/
theorem takeLeg_cases {payload : EnvelopePayload} {source target : PeerRoute}
    {teamId newExchangeId : String} {leg : Leg}
    (h : db.takeLeg payload source target teamId newExchangeId now = .ok (leg, db')) :
    (payload.exchangeId = none ∧ payload.parentEnvelopeId = none ∧ payload.kind ≠ .response ∧
      (∀ old ∈ db.exchanges, old.id ≠ newExchangeId) ∧
      leg = ⟨newExchangeId, 1, none, payload.expiresAt.toNat⟩ ∧
      db' = { db with exchanges := db.exchanges ++ [⟨newExchangeId, teamId, source.id, target.id,
        none, 1, now, payload.expiresAt.toNat, .opened⟩] }) ∨
    ∃ x ∈ db.exchanges, ∃ p ∈ db.envelopes, payload.exchangeId = some x.id ∧
      payload.parentEnvelopeId = some p.id ∧ p.exchangeId = x.id ∧ x.status = .opened ∧
      x.lastEnvelopeId = some p.id ∧ p.targetRouteId = source.id ∧
      p.sourceRouteId = target.id ∧ p.targetRouteRevision = source.revision ∧
      p.sourceRouteRevision = target.revision ∧ p.kind = .requestReply ∧
      payload.expiresAt = x.expiresAt ∧ x.usedLegs + 1 ≤ maxRelayLegs ∧
      payload.kind ≠ .instruction ∧
      ¬ (payload.kind = .requestReply ∧ maxRelayLegs - (x.usedLegs + 1) < 1) ∧
      leg = ⟨x.id, x.usedLegs + 1, some p.usedLegs, x.expiresAt⟩ ∧ db' = db := by
  unfold takeLeg at h
  split at h
  next hfirst =>
    simp only [bind_eq_ok, require_eq_ok, required_eq_ok, pure_eq_ok, Prod.mk.injEq,
      Tables.insertRow_eq_some] at h
    obtain ⟨_, ⟨hparent, hkind⟩, _, ⟨⟨-, hunknown⟩, rfl⟩, rfl, rfl⟩ := h
    exact .inl ⟨hfirst, hparent, hkind, hunknown, rfl, rfl⟩
  next exchangeId hlater =>
    simp only [bind_eq_ok, require_eq_ok, required_eq_ok, pure_eq_ok, Prod.mk.injEq] at h
    obtain ⟨parentId, hparent, x, hx, p, hp, _,
      ⟨hopened, hlast, hsource, htarget, hsourceRevision, htargetRevision, hasked, -, hexpires⟩,
      _, hbudget, _, hkind, _, hslot, rfl, rfl⟩ := h
    obtain ⟨hxmem, rfl⟩ := Tables.find_mem hx
    have hpmem := List.mem_of_find?_eq_some hp
    have hpfound := List.find?_some hp
    simp only [Bool.and_eq_true, decide_eq_true_eq] at hpfound
    obtain ⟨rfl, howner⟩ := hpfound
    exact .inr ⟨x, hxmem, p, hpmem, hlater, hparent, howner, hopened, hlast, hsource, htarget,
      hsourceRevision, htargetRevision, hasked, hexpires, hbudget, hkind, hslot, rfl, rfl⟩

theorem recordUsage_eq (sender : Sender) (messageBytes : Nat) :
    db.recordUsage sender messageBytes now =
      { db with usage := (db.recordUsage sender messageBytes now).usage } := by
  unfold recordUsage
  split
  next => rfl
  next =>
    dsimp only
    split <;> rfl

theorem insertEnvelope_unused {e : RelayEnvelope} (h : db.insertEnvelope e = .ok db') :
    ∀ old ∈ db.envelopes,
      ¬ (old.sourceRouteId = e.sourceRouteId ∧ old.requestId = e.requestId) := by
  unfold insertEnvelope at h
  simp only [bind_eq_ok, required_eq_ok, pure_eq_ok, Tables.insertRow_eq_some] at h
  obtain ⟨_, ⟨⟨hunused, -⟩, rfl⟩, rfl⟩ := h
  intro old hold hsame
  have := List.all_eq_true.mp hunused old hold
  simp [hsame] at this

/-- The row that a new leg updates. -/
def Leg.selects (leg : Leg) (x : RelayExchange) : Bool :=
  x.id = leg.exchangeId && x.usedLegs = (if 1 < leg.usedLegs then leg.usedLegs - 1 else 1) &&
    x.status = .opened

theorem advanceExchange_eq {leg : Leg} {e : RelayEnvelope} (number : leg.usedLegs = e.usedLegs)
    (h : db.advanceExchange leg e.id e.kind = .ok db') :
    (∃ x ∈ db.exchanges, leg.selects x = true) ∧ db' = { db with
      exchanges := db.exchanges.map fun x => if leg.selects x then x.advance e else x } := by
  unfold advanceExchange at h
  simp only [bind_eq_ok, pure_eq_ok, require_eq_ok] at h
  obtain ⟨_, hone, rfl⟩ := h
  change db.exchanges.countP leg.selects = 1 at hone
  constructor
  · exact List.countP_pos_iff.mp (Nat.lt_of_lt_of_eq Nat.zero_lt_one hone.symm)
  · simp only [Leg.selects, number, RelayExchange.advance]

theorem map_advance_new {xs : List RelayExchange} {x : RelayExchange} {e : RelayEnvelope}
    (selected : RelayExchange → Bool) (hx : selected x = true)
    (hold : ∀ old ∈ xs, selected old = false) :
    ((xs ++ [x]).map fun y => if selected y then y.advance e else y) = xs ++ [x.advance e] := by
  rw [List.map_append, List.map_singleton, hx, if_pos rfl]
  have hsame : ∀ y ∈ xs, (if selected y then y.advance e else y) = id y := by
    intro y hy
    rw [hold y hy, if_neg Bool.false_ne_true]
    rfl
  rw [List.map_congr_left hsame, List.map_id]

theorem submitEnvelope_turn [Sha256] {sender : Sender} {payload : EnvelopePayload}
    {envelopeId newExchangeId : String} {available full : Bool} {answer : Submitted}
    (unique : (db.exchanges.map RelayExchange.id).Nodup)
    (h : db.submitEnvelope sender payload envelopeId newExchangeId available full now =
      .ok (answer, db')) :
    Turn now (.submitEnvelope sender payload envelopeId newExchangeId available full) db.ledger
      db'.ledger := by
  unfold submitEnvelope at h
  simp only [bind_eq_ok, required_eq_ok] at h
  obtain ⟨_, hchecked, epoch, -, source, hsource, h⟩ := h
  have hpruned := pruneRelayState_pruned db now
  obtain ⟨hafter, hbefore⟩ := checkPayload_times hchecked
  split at h
  next =>
    simp only [bind_eq_ok, pure_eq_ok, Prod.mk.injEq] at h
    obtain ⟨_, -, -, rfl⟩ := h
    exact .prune hpruned
  next =>
    simp only [bind_eq_ok, required_eq_ok, pure_eq_ok, Prod.exists, Prod.mk.injEq] at h
    obtain ⟨_, -, target, htarget, _, hroutes, leg, mid, hleg, later, hinsert, last, hadvance, -,
      rfl⟩ := h
    have hrevision : target.revision = payload.targetRouteRevision := by
      unfold checkRoutes at hroutes
      simp only [bind_eq_ok, require_eq_ok] at hroutes
      obtain ⟨_, havailable, -⟩ := hroutes
      simp only [targetAvailable, Bool.and_eq_true, beq_iff_eq] at havailable
      exact havailable.1.2
    have hsourceId : source.id = payload.sourceRouteId := (sourceRoute_eq hsource).2.1
    obtain ⟨rfl, hfresh⟩ := insertEnvelope_eq hinsert
    have hunused := insertEnvelope_unused hinsert
    set e := queuedEnvelope sender payload source target leg
      (Sha256.digest (utf8 (Json.canonical payload.json))) envelopeId now with he
    have henvelopes : (mid.recordUsage sender (Json.utf8Size payload.message.toList) now).envelopes =
        (db.pruneRelayState now).envelopes := by
      rw [recordUsage_eq]
      exact congrArg Core.envelopes (takeLeg_core hleg)
    rw [henvelopes] at hfresh hunused
    have hsubmitted (hexpires : (leg.expiresAt : Int) = payload.expiresAt) :
        (db.pruneRelayState now).ledger.Submitted now
          (.submitEnvelope sender payload envelopeId newExchangeId available full) e := by
      refine ⟨⟨payload, rfl, hsourceId, rfl, hexpires⟩, ?_, ?_, rfl, ?_⟩
      · intro old hold
        obtain ⟨row, hrow, rfl⟩ := List.mem_map.mp hold
        exact hfresh row hrow
      · intro old hold
        obtain ⟨row, hrow, rfl⟩ := List.mem_map.mp hold
        exact hunused row hrow
      · change now < leg.expiresAt ∧ leg.expiresAt ≤ now + maxRelayTtlSeconds
        omega
    obtain ⟨hselected, hadvanced⟩ := advanceExchange_eq (e := e) rfl hadvance
    rw [recordUsage_eq] at hselected
    have hlegs : last.ledger.legs = (db.pruneRelayState now).ledger.legs ++ [e] := by
      rw [hadvanced]
      change ((mid.recordUsage sender _ now).envelopes ++ [e]).map _ = _
      rw [henvelopes, List.map_append]
      rfl
    have hexchanges : last.exchanges = mid.exchanges.map fun y =>
        if leg.selects y then y.advance e else y := by
      rw [hadvanced, recordUsage_eq]
    have hledger : (last.audit now).ledger = ⟨last.exchanges, last.ledger.legs⟩ := rfl
    rw [hledger, hlegs, hexchanges]
    clear_value e
    obtain ⟨hfirst, hparent, hkind, hunknown, rfl, rfl⟩ |
      ⟨x, hx, p, hp, hlater, hparent, howner, hopened, hlast, hsourceRoute, htargetRoute,
        hsourceRevision, htargetRevision, hasked, hexpires, hbudget, hkind, hslot, rfl, rfl⟩ :=
      takeLeg_cases hleg
    · -- the row of the new exchange is the only one of its id
      rw [map_advance_new _ (by simp [Leg.selects])
        (fun old hold => by simp [Leg.selects, hunknown old hold])]
      subst he
      exact .begins hpruned (hsubmitted (Int.toNat_of_nonneg (by omega)))
        ⟨hunknown, rfl, ⟨rfl, hparent, rfl⟩, hkind, rfl, rfl⟩ (by simp [HostCall.drawnExchange, hfirst])
    · -- the row that the update selects is the row that was checked
      have hone : ∀ y ∈ (db.pruneRelayState now).exchanges, y.id = x.id → y = x := fun y hy hid =>
        Tables.eq_of_key (hpruned.unique unique) hy hx hid
      obtain ⟨y, hy, hselects⟩ := hselected
      have hyid : y.id = x.id := by
        simp only [Leg.selects, Bool.and_eq_true, decide_eq_true_eq] at hselects
        exact hselects.1.1
      rw [hone y hy hyid] at hselects
      have hmap : ∀ z ∈ (db.pruneRelayState now).exchanges,
          (if Leg.selects ⟨x.id, x.usedLegs + 1, some p.usedLegs, x.expiresAt⟩ z
            then z.advance e else z) = if z.id = x.id then z.advance e else z := by
        intro z hz
        by_cases hid : z.id = x.id
        · rw [hone z hz hid, hselects, if_pos rfl, if_pos rfl]
        · rw [if_neg (by simp [Leg.selects, hid]), if_neg hid]
      change Turn _ _ _ ⟨(db.pruneRelayState now).exchanges.map _, _⟩
      rw [List.map_congr_left hmap]
      subst he
      refine .continues (p := p.release .queued) hpruned (hsubmitted hexpires.symm)
        ⟨⟨hx, hopened, hlast⟩, ⟨List.mem_map_of_mem hp, howner⟩, ?_, rfl, ⟨rfl, hbudget⟩, ?_, rfl⟩
      · exact ⟨hasked, hkind, ⟨hparent, rfl⟩, ⟨hsourceRoute.symm, htargetRoute.symm⟩,
          hsourceRevision.symm, hrevision.symm.trans htargetRevision.symm⟩
      · intro hfull hreply
        change x.usedLegs + 1 = maxRelayLegs at hfull
        apply hslot
        exact ⟨hreply, by omega⟩

/-! ### Receipts -/

theorem receiptEnvelope_turn [Sha256] {call : HostCall} (db : Db) (receiver : Receiver)
    (envelopeId token : String) (outcome : ReceiptOutcome) (available : Bool) (now : Nat) :
    Turn now call db.ledger (db.receiptEnvelope hostServerIdentity receiver envelopeId
      token outcome available now).1.ledger := by
  unfold receiptEnvelope
  dsimp only
  split
  next => exact .rest
  next =>
    split_ifs
    · exact .rest
    · exact .rest
  next row _ =>
    split_ifs
    · rw [expireExchanges_ledger, expireEnvelopes_ledger]
      exact .close
    · apply atomically_keep (P := fun after : Db => Turn now call db.ledger after.ledger) .rest
      intro answer after h
      unfold settleEnvelope at h
      simp only [bind_eq_ok, required_eq_ok, pure_eq_ok, Prod.mk.injEq] at h
      obtain ⟨target, -, receipts, -, -, rfl⟩ := h
      have hsettled : Db.ledger { db with
          envelopes := db.envelopes.map (RelayEnvelope.settle row.id outcome) } = db.ledger :=
        ledger_map _ (RelayEnvelope.release_settle row.id outcome)
      change Turn now call db.ledger (Db.ledger { db with
        envelopes := db.envelopes.map (RelayEnvelope.settle row.id outcome) })
      rw [hsettled]
      exact .rest

end Db

/-! ## Every transaction -/

theorem atomically_turn {β : Type} {db : Db} {now : Nat} {call : HostCall}
    {body : Except Failure (β × Db)} (f : β → Answer)
    (h : ∀ answer after, body = .ok (answer, after) → Turn now call db.ledger after.ledger) :
    Turn now call db.ledger
      (atomically db do
        let (answer, after) ← body
        pure (f answer, after)).1.ledger := by
  apply atomically_keep (P := fun after : Db => Turn now call db.ledger after.ledger) .rest
  intro answer after hbody
  simp only [bind_eq_ok, pure_eq_ok, Prod.exists, Prod.mk.injEq] at hbody
  obtain ⟨given, last, hbody, -, rfl⟩ := hbody
  exact h given last hbody

theorem Turn.same {now : Nat} {call : HostCall} {l l' : Ledger} (h : l' = l) :
    Turn now call l l' :=
  h ▸ .rest

theorem perform_turn [Sha256] [CertificateEncoding] (db : Db) (now : Nat) (call : HostCall)
    (unique : (db.exchanges.map RelayExchange.id).Nodup) :
    Turn now call db.ledger (perform hostServerIdentity db now call).1.ledger := by
  cases call with
  | submitPairing =>
      exact atomically_turn (fun _ => .done) fun _ _ h => .same (Db.submitPairing_ledger h)
  | approvePairing => exact .same (Db.approvePairing_ledger ..)
  | authenticatePeer => exact .rest
  | authorizePeerSelfRevocation => exact .rest
  | renewPeer => exact atomically_turn .renewed fun _ _ h => .same (Db.renewPeer_ledger h)
  | activateRenewal =>
      exact atomically_turn .activated fun _ _ h => .same (Db.activateRenewal_ledger h)
  | revokePeer =>
      exact atomically_turn (fun _ => .done) fun _ _ h => .same (Db.revokePeer_ledger h)
  | revokePeerForSelf =>
      exact atomically_turn (fun _ => .done) fun _ _ h => .same (Db.revokePeerForSelf_ledger h)
  | reconcileActiveLogicalPeers =>
      exact atomically_turn (fun _ => .done) fun _ _ h => .same (Db.reconcile_ledger h)
  | activateCrossChatConsent =>
      exact atomically_turn (fun _ => .done) fun _ _ => Db.activateCrossChatConsent_turn
  | retireAgentRoutesLocally revision => exact Db.retire_turn revision
  | publishLocalRoute =>
      exact atomically_turn (fun _ => .done) fun _ _ h => .same (Db.publishLocalRoute_ledger h)
  | publishPeerRoute =>
      exact atomically_turn (fun _ => .done) fun _ _ h => .same (Db.publishPeerRoute_ledger h)
  | revokeRoute => exact atomically_turn (fun _ => .done) fun _ _ => Db.revokeRoute_turn
  | revokePeerRoute => exact atomically_turn (fun _ => .done) fun _ _ => Db.revokePeerRoute_turn
  | submitEnvelope =>
      exact atomically_turn .submitted fun _ _ => Db.submitEnvelope_turn unique
  | claimInbox => exact atomically_turn .claimed fun _ _ => Db.claimInbox_turn
  | receiptEnvelope => exact Db.receiptEnvelope_turn ..

theorem step_turn [Sha256] [CertificateEncoding] (hostServerIdentity : String) (h : Host) (act : HostCall × Nat)
    (unique : (h.db.exchanges.map RelayExchange.id).Nodup) :
    Turn act.2 act.1 h.db.ledger (step hostServerIdentity h act).1.db.ledger := by
  obtain ⟨hsame, -⟩ | ⟨hperformed, -⟩ := step_cases hostServerIdentity h act
  · exact .same (congrArg Db.ledger hsame)
  · rw [hperformed]
    exact perform_turn h.db act.2 act.1 unique

end AgentsServer.PeerStore

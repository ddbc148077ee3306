import AgentsServer.PeerStore.Relay

/-!
# Submission, claims and receipts of envelopes

A claim first expires what is past its time and puts back what a lease has run
out on; one query then decides what is handed out.
-/

namespace AgentsServer.PeerStore

open Library

/-- The envelope under a new lease. -/
def RelayEnvelope.lease (owner : String) (digest : Bytes) (now : Nat) (e : RelayEnvelope) :
    RelayEnvelope :=
  { e with
    status := .claimed
    leaseOwner := some owner
    leaseTokenHash := some digest
    leaseExpiresAt := some (now + relayLeaseSeconds) }

/-- An envelope whose lease ran out is queued again. -/
def RelayEnvelope.requeue (now : Nat) (e : RelayEnvelope) : RelayEnvelope :=
  if e.status == .claimed && e.leaseExpiresAt.any (· ≤ now) && now < e.expiresAt
  then e.release .queued else e

/-- The queued envelopes of a claim under its lease. -/
def RelayEnvelope.leaseIn (ids : List String) (owner : String) (digest : Bytes) (now : Nat)
    (e : RelayEnvelope) : RelayEnvelope :=
  if ids.contains e.id && e.status == .queued then e.lease owner digest now else e

/-- The envelope after its receipt. -/
def RelayEnvelope.settle (envelopeId : String) (outcome : ReceiptOutcome) (e : RelayEnvelope) :
    RelayEnvelope :=
  if e.id = envelopeId then e.release outcome.status else e

/-- `lease_token_hash` and `lease_expires_at` let this token receipt the envelope. -/
def RelayEnvelope.leasedTo (digest : Bytes) (now : Nat) (e : RelayEnvelope) : Bool :=
  e.status == .claimed && e.leaseTokenHash == some digest && e.leaseExpiresAt.any (now < ·)

namespace Db

variable (db : Db)

/-! ## Submission -/

/-- The active route a sender may use as the source. -/
def sourceRoute (sender : Sender) (sourceRouteId : String) : Option PeerRoute :=
  (db.route? sourceRouteId).filter fun r => r.status == .active && r.teamId == sender.teamId &&
    match sender with
    | .peer caller => r.targetKind == .peer && r.peerId == some caller.peerId
    | .host .. => r.targetKind == .host

/-- When the current certificate of a peer expires. -/
def currentCertificateExpiresAt (peerId : String) : Nat :=
  ((db.certificates.find? fun c => c.peerId == peerId && c.isCurrent).map
    PeerCertificate.expiresAt).getD 0

/-- The target route is active at the named revision, and so is the peer behind it. -/
def targetAvailable (route : PeerRoute) (teamId revision : String) (epoch now : Nat) : Bool :=
  route.teamId == teamId && route.status == .active && route.revision == revision &&
    match route.targetKind with
    | .host => true
    | .peer => (db.peer? route.peerId).any fun p => p.status == .active &&
        now + 60 < db.currentCertificateExpiresAt p.id && p.crossChatGrantEpoch == some epoch

/-- The two routes are published for each other's party. -/
def routesPaired (sender : Sender) (source target : PeerRoute) : Bool :=
  match source.targetKind with
  | .peer => target.targetKind == .host && target.audiencePeerId == sender.peerId
  | .host => target.targetKind == .peer && source.audiencePeerId == target.peerId

/-- The limits on the envelopes of a peer in its usage window. -/
def usageWindow (now : Nat) : Nat := now - now % relayUsageWindowSeconds

def checkCapacity (sender : Sender) (messageBytes : Nat) (liveBytesFull : Bool) (now : Nat) :
    Except Failure Unit := do
  let full : Failure := .securePeerError "relay_capacity" "Secure relay capacity is full" 503
  require (¬ (relayActiveGlobalLimit ≤ db.envelopes.countP (·.status.isLive) ∨
    liveBytesFull = true)) full
  match sender.peerId with
  | none => pure ()
  | some peerId => do
      let used := db.usage.find? fun w => w.peerId = peerId && w.windowStart = usageWindow now
      require (db.envelopes.countP (fun e => e.sourcePeerId == some peerId && e.status.isLive) <
        relayActivePerPeerLimit) full
      require (db.envelopes.countP (fun e => e.sourcePeerId == some peerId) <
            relayRetainedPerPeerLimit ∧
          (used.map UsageWindow.submissions).getD 0 < relaySubmissionsPerPeerWindowLimit ∧
          (used.map UsageWindow.bodyBytes).getD 0 + messageBytes ≤ relayBytesPerPeerWindowLimit)
        (.securePeerError "rate_limited"
          "Secure relay limit for this peer is temporarily full" 429)

/-- The upsert into the usage windows. -/
def recordUsage (sender : Sender) (messageBytes now : Nat) : Db :=
  match sender.peerId with
  | none => db
  | some peerId =>
      let isWindow (w : UsageWindow) : Bool :=
        w.peerId = peerId && w.windowStart = usageWindow now
      if db.usage.any isWindow then
        { db with usage := db.usage.map fun w => if isWindow w then
            { w with submissions := w.submissions + 1, bodyBytes := w.bodyBytes + messageBytes }
          else w }
      else { db with usage := db.usage ++ [⟨peerId, usageWindow now, 1, messageBytes⟩] }

/-- The leg of an exchange that an envelope takes. -/
structure Leg where
  exchangeId : String
  usedLegs : Nat
  parentLeg : Option Nat
  expiresAt : Nat

/-- A first leg opens its exchange; a later one continues it from the last envelope. -/
def takeLeg (payload : EnvelopePayload) (source target : PeerRoute) (teamId newExchangeId : String)
    (now : Nat) : Except Failure (Leg × Db) :=
  match payload.exchangeId with
  | none => do
      require (payload.parentEnvelopeId = none ∧ payload.kind ≠ .response)
        (invalidRequest "Initial relay leg is invalid")
      let exchanges ← required (Tables.insertRow RelayExchange.id (fun _ => true)
        ⟨newExchangeId, teamId, source.id, target.id, none, 1, now, payload.expiresAt.toNat,
          .opened⟩ db.exchanges) .integrityError
      pure (⟨newExchangeId, 1, none, payload.expiresAt.toNat⟩, { db with exchanges := exchanges })
  | some exchangeId => do
      let parentId ← required payload.parentEnvelopeId
        (invalidRequest "Relay continuation requires its parent envelope")
      let exchange ← required (Tables.find RelayExchange.id db.exchanges exchangeId) exchangeChanged
      let parent ← required (db.envelopes.find? fun e =>
        e.id = parentId && e.exchangeId = exchangeId) exchangeChanged
      require (exchange.status = .opened ∧ exchange.lastEnvelopeId = some parentId ∧
        parent.targetRouteId = source.id ∧ parent.sourceRouteId = target.id ∧
        parent.targetRouteRevision = source.revision ∧
        parent.sourceRouteRevision = target.revision ∧ parent.kind = .requestReply ∧
        now < exchange.expiresAt ∧ payload.expiresAt = exchange.expiresAt) exchangeChanged
      let usedLegs := exchange.usedLegs + 1
      require (usedLegs ≤ maxRelayLegs)
        (legBudgetExhausted "Relay exchange leg budget is exhausted")
      require (payload.kind ≠ .instruction)
        (invalidRequest "Relay continuation must be a response")
      require (¬ (payload.kind = .requestReply ∧ maxRelayLegs - usedLegs < 1))
        (legBudgetExhausted "Follow-up requires one terminal response slot")
      pure (⟨exchangeId, usedLegs, some parent.usedLegs, exchange.expiresAt⟩, db)

/-- The update of the exchange by its new envelope; it must change one row. -/
def advanceExchange (leg : Leg) (envelopeId : String) (kind : RelayKind) :
    Except Failure Db := do
  let before := if 1 < leg.usedLegs then leg.usedLegs - 1 else 1
  let selected (x : RelayExchange) : Bool :=
    x.id = leg.exchangeId && x.usedLegs = before && x.status = .opened
  require (db.exchanges.countP selected = 1) exchangeChanged
  pure { db with exchanges := db.exchanges.map fun x => if selected x then
      { x with
        lastEnvelopeId := some envelopeId
        usedLegs := leg.usedLegs
        status := if kind = .requestReply then .opened else .complete }
    else x }

/-- `INSERT INTO relay_envelopes`. -/
def insertEnvelope (e : RelayEnvelope) : Except Failure Db := do
  let unused (e : RelayEnvelope) : Bool := db.envelopes.all fun old =>
    !(old.sourceRouteId == e.sourceRouteId && old.requestId == e.requestId)
  let envelopes ← required (Tables.insertRow RelayEnvelope.id unused e db.envelopes)
    .integrityError
  pure { db with envelopes := envelopes }

/-- The checks of `submit_envelope` before its transaction. -/
def checkPayload (sender : Sender) (payload : EnvelopePayload) (now : Nat) :
    Except Failure Unit := do
  let _ ← uuid payload.requestId "request_id"
  let _ ← uuid payload.sourceRouteId "source_route_id"
  match sender with
  | .peer caller => do
      let _ ← uuid payload.targetRouteId "target_route_id"
      relayScope caller.scopes payload.kind.requiredScope
  | .host _ sourceRouteId => do
      require (payload.sourceRouteId = sourceRouteId)
        (routeUnavailable "Source route does not match local authorization")
      let _ ← uuid payload.targetRouteId "target_route_id"
  require (isRevision payload.targetRouteRevision)
    (invalidRequest "target route revision is invalid")
  require (payload.exchangeId.all isUuid4) (invalidRequest "exchange_id is invalid")
  require (payload.parentEnvelopeId.all isUuid4) (invalidRequest "parent_envelope_id is invalid")
  require ((now : Int) < payload.expiresAt ∧ payload.expiresAt ≤ now + maxRelayTtlSeconds)
    (invalidRequest "expires_at is outside the 72 hour bound")
  require (isBlank payload.message = false ∧ payload.message.length ≤ 100000)
    (invalidRequest "relay body must contain exactly one bounded message")
  require (Json.utf8Size (Json.canonical payload.json) ≤ maxProxyBodyBytes)
    (.securePeerError "request_too_large" "Relay envelope is too large" 413)

/-- The checks of the two routes against each other and against the kind of the envelope. -/
def checkRoutes (sender : Sender) (payload : EnvelopePayload) (source target : PeerRoute)
    (epoch now : Nat) : Except Failure Unit := do
  require (db.targetAvailable target sender.teamId payload.targetRouteRevision epoch now)
    (routeUnavailable "Target route is unavailable or changed")
  require (routesPaired sender source target)
    (routeUnavailable "Routes are not paired for delivery")
  require (payload.kind.requiredAction ∈ source.actions)
    (routeActionForbidden "Source route does not grant this action")
  require (payload.kind.requiredAction ∈ target.actions)
    (routeActionForbidden "Target route does not allow this action")
  let scopes := ((db.peer? target.peerId).map Peer.scopes).getD []
  match target.targetKind with
  | .host => pure ()
  | .peer => relayScope scopes payload.kind.requiredScope

/-- The row of a new envelope. -/
def queuedEnvelope (sender : Sender) (payload : EnvelopePayload) (source target : PeerRoute)
    (leg : Leg) (digest : Bytes) (envelopeId : String) (now : Nat) : RelayEnvelope where
  id := envelopeId
  requestId := payload.requestId
  sourcePeerId := sender.peerId
  sourceRouteId := source.id
  sourceServerIdentity := source.serverIdentity
  sourceRouteRevision := source.revision
  requestDigest := digest
  targetServerIdentity := target.serverIdentity
  targetRouteId := target.id
  targetPeerId := target.peerId
  targetRouteRevision := payload.targetRouteRevision
  kind := payload.kind
  exchangeId := leg.exchangeId
  parentEnvelopeId := payload.parentEnvelopeId
  parentLeg := leg.parentLeg
  usedLegs := leg.usedLegs
  message := payload.message
  createdAt := now
  expiresAt := leg.expiresAt
  status := .queued
  leaseOwner := none
  leaseTokenHash := none
  leaseExpiresAt := none

/-- `submit_envelope`, and `submit_local_envelope` for a host route. -/
def submitEnvelope [Sha256] (sender : Sender) (payload : EnvelopePayload)
    (envelopeId newExchangeId : String) (available liveBytesFull : Bool) (now : Nat) :
    Except Failure (Submitted × Db) := do
  checkPayload sender payload now
  let digest := Sha256.digest (utf8 (Json.canonical payload.json))
  let epoch ← db.requireCrossChat available sender.authorization
  let db := (db.pruneRelayState now).pruneHistory now
  let source ← required (db.sourceRoute sender payload.sourceRouteId)
    (routeUnavailable "Source route is unavailable")
  match db.envelopes.find? fun e =>
      e.sourceRouteId = source.id && e.requestId = payload.requestId with
  | some existing => do
      require (existing.requestDigest = digest)
        (idempotencyConflict "request_id was reused with different content")
      pure (⟨existing.id, existing.status, existing.usedLegs, existing.expiresAt,
        existing.exchangeId⟩, db)
  | none => do
      let messageBytes := Json.utf8Size payload.message.toList
      db.checkCapacity sender messageBytes liveBytesFull now
      let target ← required (db.route? payload.targetRouteId)
        (routeUnavailable "Target route is unavailable or changed")
      db.checkRoutes sender payload source target epoch now
      let (leg, db) ← db.takeLeg payload source target sender.teamId newExchangeId now
      let db := db.recordUsage sender messageBytes now
      let db ← db.insertEnvelope
        (queuedEnvelope sender payload source target leg digest envelopeId now)
      let db ← db.advanceExchange leg envelopeId payload.kind
      pure (⟨envelopeId, .queued, leg.usedLegs, leg.expiresAt, leg.exchangeId⟩, db.audit now)

/-! ## Claims -/

/-- Envelopes whose lease ran out are queued again. -/
def requeue (now : Nat) : Db :=
  { db with envelopes := db.envelopes.map (RelayEnvelope.requeue now) }

/-- The routes of an envelope as it recorded them: both active, at these revisions, in one
team. -/
def currentRoutes (e : RelayEnvelope) : Option (PeerRoute × PeerRoute) := do
  let source ← db.route? e.sourceRouteId
  let target ← db.route? e.targetRouteId
  if source.status = .active ∧ source.revision = e.sourceRouteRevision ∧
    target.status = .active ∧ target.revision = e.targetRouteRevision ∧
    source.teamId = target.teamId then pure (source, target) else none

/-- The condition of the queries for this host: from a peer's route to a host route
published for that peer, which is active and has the current grant. -/
def fromCurrentPeer (source target : PeerRoute) (only : String → Bool) : Bool :=
  source.targetKind == .peer && target.targetKind == .host &&
    source.peerId == target.audiencePeerId && (db.peer? source.peerId).any fun p =>
      only p.id && p.status == .active && p.crossChatGrantEpoch == some db.consentEpoch

/-- Whether the query of an inbox selects a queued envelope. -/
def selects (hostServerIdentity : String) (inbox : Inbox) (e : RelayEnvelope) : Bool :=
  e.status == .queued && (db.currentRoutes e).any fun (source, target) =>
    match inbox with
    | .peer caller => target.peerId == some caller.peerId &&
        target.serverIdentity == caller.peerServerIdentity && target.teamId == caller.teamId &&
        target.targetKind == .peer && source.targetKind == .host &&
        source.audiencePeerId == target.peerId && source.serverIdentity == e.sourceServerIdentity
    | .route _ routeId => e.targetRouteId == routeId &&
        e.targetServerIdentity == hostServerIdentity &&
        db.fromCurrentPeer source target fun _ => true
    | .fromPeer peerId => e.targetServerIdentity == hostServerIdentity &&
        db.fromCurrentPeer source target (· == peerId)
    | .allLocal => e.targetServerIdentity == hostServerIdentity &&
        db.fromCurrentPeer source target fun _ => true

/-- `ORDER BY e.created_at,e.id LIMIT ?`. -/
def firstOf (envelopes : List RelayEnvelope) (limit : Nat) : List RelayEnvelope :=
  (envelopes.mergeSort fun a b => decide (a.createdAt < b.createdAt) ||
    (decide (a.createdAt = b.createdAt) && decide (a.id ≤ b.id))).take limit

/-- The claim of one route needs the route itself. -/
def checkInbox (hostServerIdentity : String) : Inbox → Except Failure Unit
  | .route teamId routeId =>
      require (∃ r ∈ db.routes, r.id = routeId ∧ r.serverIdentity = hostServerIdentity ∧
        r.teamId = teamId ∧ r.targetKind = .host ∧ r.status = .active)
        (routeUnavailable "Receive route is unavailable")
  | _ => pure ()

/-- The checks of the selected envelopes: any that fails refuses them all. -/
def checkClaimed (inbox : Inbox) (e : RelayEnvelope) : Except Failure Unit := do
  let granted (routeId : String) : Bool :=
    (db.route? routeId).any fun r => r.actions.contains e.kind.requiredAction
  require (granted e.sourceRouteId && granted e.targetRouteId)
    (routeActionForbidden "Relay route grant no longer permits this action")
  match inbox.authorization with
  | none => pure ()
  | some caller => relayScope caller.scopes e.kind.requiredScope

/-- The checks of a selector before the transaction. -/
def checkSelector : Inbox → Except Failure Unit
  | .route teamId routeId => do
      let _ ← identifier teamId "team_id"
      let _ ← uuid routeId "target_route_id"
  | .fromPeer peerId => do
      let _ ← uuid peerId "peer_id"
  | _ => pure ()

/-- `claim_inbox`, with `claim_local_inbox` and `claim_local_route_inbox` for this host. -/
def claimInbox [Sha256] (hostServerIdentity : String) (inbox : Inbox) (leaseOwner : String)
    (limit : Nat) (leaseToken : String) (available : Bool) (now : Nat) :
    Except Failure (Claimed × Db) := do
  checkSelector inbox
  let _ ← identifier leaseOwner "lease_owner"
  require (1 ≤ limit ∧ limit ≤ 50) (invalidRequest "limit is invalid")
  let _ ← db.requireCrossChat available inbox.authorization
  let db := (db.pruneRelayState now).requeue now
  db.checkInbox hostServerIdentity inbox
  let rows := firstOf (db.envelopes.filter (db.selects hostServerIdentity inbox)) limit
  rows.forM (db.checkClaimed inbox)
  let ids := rows.map RelayEnvelope.id
  let digest := Sha256.digest (utf8 leaseToken.toList)
  let db : Db := { db with
    envelopes := db.envelopes.map (RelayEnvelope.leaseIn ids leaseOwner digest now) }
  if rows = [] then pure (⟨none, none, []⟩, db)
  else pure (⟨some leaseToken, some (now + relayLeaseSeconds), rows⟩, db)

/-! ## Receipts -/

/-- The route at which a receiver may receipt an envelope. -/
def receiveRoute (hostServerIdentity : String) (receiver : Receiver) (e : RelayEnvelope) :
    Option PeerRoute :=
  match receiver with
  | .peer caller => (db.route? e.targetRouteId).filter fun r => r.status == .active &&
      r.peerId == some caller.peerId && r.serverIdentity == caller.peerServerIdentity &&
      r.teamId == caller.teamId && r.targetKind == .peer
  | .host teamId routeId => (db.route? routeId).filter fun r => r.status == .active &&
      r.serverIdentity == hostServerIdentity && r.teamId == teamId && r.targetKind == .host

/-- The envelope is addressed to this receiver. -/
def addressedTo (hostServerIdentity : String) (receiver : Receiver) (e : RelayEnvelope) : Bool :=
  match receiver with
  | .peer caller => e.targetServerIdentity == caller.peerServerIdentity &&
      e.targetPeerId == some caller.peerId
  | .host _ routeId => e.targetServerIdentity == hostServerIdentity && e.targetRouteId == routeId

/-- The checks of the routes of a receipt. -/
def checkReceiptRoutes (hostServerIdentity : String) (receiver : Receiver) (e : RelayEnvelope) :
    Except Failure PeerRoute := do
  let target ← required ((db.receiveRoute hostServerIdentity receiver e).filter fun r =>
    r.revision == e.targetRouteRevision)
    (routeUnavailable "Receive route is unavailable or changed")
  let source := (db.route? e.sourceRouteId).filter fun r => r.teamId == receiver.teamId &&
    r.serverIdentity == e.sourceServerIdentity && r.revision == e.sourceRouteRevision &&
    r.status == .active
  require (source.any (fun r => r.actions.contains e.kind.requiredAction) &&
    target.actions.contains e.kind.requiredAction)
    (routeActionForbidden "Relay route grant no longer permits this action")
  match receiver.authorization with
  | none => pure target
  | some caller => do
      relayScope caller.scopes e.kind.requiredScope
      pure target

/-- The transaction of a first receipt. -/
def settleEnvelope (hostServerIdentity : String) (receiver : Receiver) (e : RelayEnvelope)
    (outcome : ReceiptOutcome) (now : Nat) : Except Failure (Receipted × Db) := do
  let target ← db.checkReceiptRoutes hostServerIdentity receiver e
  let receipts ← required (Tables.insertRow RelayReceipt.envelopeId (fun _ => true)
    ⟨e.id, receiver.peerId, target.id, outcome, now⟩ db.receipts) .integrityError
  pure (⟨e.id, outcome, now⟩, audit { db with
    envelopes := db.envelopes.map (RelayEnvelope.settle e.id outcome)
    receipts := receipts } now)

/-- `receipt_envelope`, and `receipt_local_envelope` for a host route. The expiry of an
envelope commits although the call fails. -/
def receiptEnvelope [Sha256] (hostServerIdentity : String) (receiver : Receiver)
    (envelopeId leaseToken : String) (outcome : ReceiptOutcome) (available : Bool) (now : Nat) :
    Db × Except Failure Receipted :=
  let digest := Sha256.digest (utf8 leaseToken.toList)
  let found : Except Failure (RelayReceipt ⊕ RelayEnvelope) := do
    require (isUuid4 envelopeId) (invalidRequest "relay receipt is invalid")
    require (32 ≤ leaseToken.length ∧ leaseToken.length ≤ 96) leaseUnavailable
    let _ ← db.requireCrossChat available receiver.authorization
    match Tables.find RelayReceipt.envelopeId db.receipts envelopeId with
    | some existing => pure (.inl existing)
    | none => do
        let row ← required (Tables.find RelayEnvelope.id db.envelopes envelopeId) leaseUnavailable
        require (addressedTo hostServerIdentity receiver row && row.leasedTo digest now)
          leaseUnavailable
        pure (.inr row)
  match found with
  | .error e => (db, .error e)
  | .ok (.inl existing) =>
      let routeMatches := match receiver with
        | .peer _ => true
        | .host _ routeId => existing.targetRouteId == routeId
      if existing.targetPeerId = receiver.peerId && routeMatches && existing.outcome = outcome then
        (db, .ok ⟨envelopeId, outcome, existing.receivedAt⟩)
      else (db, .error (.securePeerError "receipt_conflict"
        "Relay receipt conflicts with prior outcome" 409))
  | .ok (.inr row) =>
      if row.expiresAt ≤ now then
        let db := db.expireEnvelopes fun e => e.id = envelopeId && e.status == .claimed
        (db.expireExchanges fun x => x.id = row.exchangeId,
          .error (.securePeerError "exchange_expired" "Relay exchange expired" 410))
      else atomically db (db.settleEnvelope hostServerIdentity receiver row outcome now)

end Db

end AgentsServer.PeerStore

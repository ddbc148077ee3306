import AgentsServer.PeerStore.Tables

/-!
# Routes and relayed envelopes

Routes are published for one peer at a time and are revoked for good. An
envelope goes from one route to the route paired with it; it is handed out under
a lease and ends with a receipt or with its expiry. Each operation is one
transaction.
-/

namespace AgentsServer.PeerStore

open Library

def RouteAction.text : RouteAction → String
  | .instruction => "instruction"
  | .requestReply => "request_reply"

def RelayKind.text : RelayKind → String
  | .instruction => "instruction"
  | .requestReply => "request_reply"
  | .response => "response"

def RouteAction.requiredScope : RouteAction → Scope
  | .instruction => .crossChatInstruction
  | .requestReply => .crossChatRequestReply

def routeUnavailable (message : String) : Failure :=
  .securePeerError "route_unavailable" message 409

def routeActionForbidden (message : String) : Failure :=
  .securePeerError "route_action_forbidden" message 403

def routeCapacity : Failure :=
  .securePeerError "route_capacity" "Secure route capacity is full" 503

def exchangeChanged : Failure :=
  .securePeerError "exchange_changed" "Relay exchange state changed" 409

def legBudgetExhausted (message : String) : Failure :=
  .securePeerError "leg_budget_exhausted" message 409

def leaseUnavailable : Failure :=
  .securePeerError "lease_unavailable" "Relay lease is unavailable" 409

/-- `_relay_scope`. -/
def relayScope (scopes : List Scope) (required : Scope) : Except Failure Unit :=
  require (required ∈ scopes)
    (.securePeerError "forbidden" "Peer scope does not permit this relay" 403)

/-- `[a-z][a-z0-9_-]{0,31}`. -/
def isRouteAlias (value : String) : Bool :=
  let lower (c : Char) : Bool := 'a' ≤ c && c ≤ 'z'
  match value.toList with
  | [] => false
  | c :: rest => lower c && rest.length ≤ 31 &&
      rest.all fun d => lower d || ('0' ≤ d && d ≤ '9') || d == '_' || d == '-'

/-- What a route is published as. -/
structure RouteDescriptor where
  routeId : String
  revision : String
  routeAlias : String
  displayTitle : String
  actions : List String
  deriving DecidableEq

/-- `_route_descriptor`: the actions in their canonical order. -/
def RouteDescriptor.check (d : RouteDescriptor) : Except Failure (List RouteAction) := do
  let _ ← uuid d.routeId "route_id"
  require (isRevision d.revision) (invalidRequest "route revision is invalid")
  require (isRouteAlias d.routeAlias) (invalidRequest "route alias is invalid")
  let _ ← boundedText d.displayTitle "display_title" 1 160
  let known : List RouteAction := [.instruction, .requestReply]
  require (d.actions ≠ [] ∧ d.actions.Nodup ∧
    ∀ action ∈ d.actions, action ∈ known.map RouteAction.text)
    (invalidRequest "route actions are invalid")
  pure (known.filter fun action => d.actions.contains action.text)

structure EnvelopePayload where
  requestId : String
  sourceRouteId : String
  targetRouteId : String
  targetRouteRevision : String
  kind : RelayKind
  exchangeId : Option String
  parentEnvelopeId : Option String
  expiresAt : Int
  message : String
  deriving DecidableEq

def EnvelopePayload.json (p : EnvelopePayload) : Json :=
  .obj [("request_id", .str p.requestId), ("source_route_id", .str p.sourceRouteId),
    ("target_route_id", .str p.targetRouteId),
    ("target_route_revision", .str p.targetRouteRevision), ("kind", .str p.kind.text),
    ("exchange_id", (p.exchangeId.map Json.str).getD .null),
    ("parent_envelope_id", (p.parentEnvelopeId.map Json.str).getD .null),
    ("expires_at", .num (.ofInt p.expiresAt)), ("body", .obj [("message", .str p.message)])]

/-- Who submits an envelope: an authenticated peer, or this host from one of its routes. -/
inductive Sender where
  | peer (peer : PeerAuthorization)
  | host (teamId sourceRouteId : String)

def Sender.authorization : Sender → Option PeerAuthorization
  | .peer caller => some caller
  | .host .. => none

def Sender.peerId (sender : Sender) : Option String :=
  sender.authorization.map PeerAuthorization.peerId

def Sender.teamId : Sender → String
  | .peer caller => caller.teamId
  | .host teamId _ => teamId

/-- The inbox a claim reads: that of a peer, of one host route, of the host for one peer,
or of the host for all peers. -/
inductive Inbox where
  | peer (peer : PeerAuthorization)
  | route (teamId routeId : String)
  | fromPeer (peerId : String)
  | allLocal

def Inbox.authorization : Inbox → Option PeerAuthorization
  | .peer caller => some caller
  | _ => none

/-- Who receipts an envelope: a peer, or this host for one of its routes. -/
inductive Receiver where
  | peer (peer : PeerAuthorization)
  | host (teamId targetRouteId : String)

def Receiver.authorization : Receiver → Option PeerAuthorization
  | .peer caller => some caller
  | .host .. => none

def Receiver.peerId (receiver : Receiver) : Option String :=
  receiver.authorization.map PeerAuthorization.peerId

def Receiver.teamId : Receiver → String
  | .peer caller => caller.teamId
  | .host teamId _ => teamId

/-- What a submission answers. -/
structure Submitted where
  envelopeId : String
  status : EnvelopeStatus
  usedLegs : Nat
  expiresAt : Nat
  exchangeId : String
  deriving DecidableEq

/-- What a claim answers. -/
structure Claimed where
  leaseToken : Option String
  leaseExpiresAt : Option Nat
  envelopes : List RelayEnvelope
  deriving DecidableEq

/-- What a receipt answers. -/
structure Receipted where
  envelopeId : String
  outcome : ReceiptOutcome
  receivedAt : Nat
  deriving DecidableEq

namespace Db

variable (db : Db)

def route? (routeId : String) : Option PeerRoute := Tables.find PeerRoute.id db.routes routeId

def peer? (peerId : Option String) : Option Peer :=
  peerId.bind fun peerId => Tables.find Peer.id db.peers peerId

/-- `_prune_relay_state`. -/
def pruneRelayState (now : Nat) : Db :=
  let db := db.expireEnvelopes fun e => decide (e.expiresAt ≤ now)
  let db := db.expireExchanges fun x => decide (x.expiresAt ≤ now)
  let isOld (createdAt : Nat) : Bool := decide (createdAt + relayTerminalRetentionSeconds < now)
  let gone := (db.envelopes.filter fun e => !e.status.isLive && isOld e.createdAt).map
    RelayEnvelope.id
  let envelopes := db.envelopes.filter fun e => !(!e.status.isLive && isOld e.createdAt)
  let window := now - now % relayUsageWindowSeconds
  { db with
    receipts := db.receipts.filter fun r => !gone.contains r.envelopeId
    envelopes := envelopes
    exchanges := db.exchanges.filter fun x => x.status == .opened || !isOld x.createdAt ||
      envelopes.any fun e => e.exchangeId == x.id
    usage := db.usage.filter fun w => decide (window ≤ w.windowStart + 2 * relayUsageWindowSeconds) }

/-! ## Consent -/

/-- `activate_cross_chat_consent`. -/
def activateCrossChatConsent [Sha256] (expectedEpoch : Nat) (idempotencyKey activatedBy : String)
    (available : Bool) (revision : String) (now : Nat) : Except Failure (Json × Db) := do
  require (available = true)
    (.securePeerError "cross_chat_unavailable" "Secure cross-chat delivery is not enabled" 409)
  let _ ← identifier activatedBy "activated_by"
  let request : Json := .obj [("expected_epoch", .num (.ofNat expectedEpoch)),
    ("activated_by", .str activatedBy)]
  let (digest, cached) ← db.operation "cross-chat-consent" idempotencyKey request
  match cached with
  | some response => pure (response, db)
  | none => do
      require (db.consentEpoch = expectedEpoch)
        (.securePeerError "cross_chat_consent_changed" "Cross-chat consent epoch changed" 409)
      let next := db.consentEpoch + 1
      let response : Json := .obj [("consent_epoch", .num (.ofNat next)),
        ("previous_epoch", .num (.ofNat db.consentEpoch)), ("activated_at", .num (.ofNat now))]
      let db : Db := { db with consentEpoch := next }
      let db := db.revokeRoutes (fun _ => true) (fun _ => revision) now
      let db := db.expireEnvelopes fun _ => true
      let db := db.expireExchanges fun _ => true
      let db ← db.recordOperation "cross-chat-consent" idempotencyKey digest response now
      pure (response, db.audit now)

/-- `retire_agent_routes_locally`: the number of routes that were active. -/
def retireAgentRoutesLocally (revision : PeerRoute → String) (now : Nat) : Nat × Db :=
  let retired := db.routes.countP fun r => r.status == .active
  let db := db.revokeRoutes (fun _ => true) revision now
  let db := db.expireEnvelopes fun _ => true
  (retired, db.expireExchanges fun _ => true)

/-! ## Routes -/

/-- `INSERT INTO peer_routes`, with the unique indexes of the active routes. -/
def insertRoute (route : PeerRoute) : Except Failure Db := do
  let clashes (old : PeerRoute) : Bool := old.status == .active && old.teamId == route.teamId &&
    match route.targetKind with
    | .peer => old.peerId == route.peerId && old.routeAlias == route.routeAlias
    | .host => old.targetKind == .host && old.audiencePeerId == route.audiencePeerId &&
        (old.chatId == route.chatId || old.routeAlias == route.routeAlias)
  let routes ← required (Tables.insertRow PeerRoute.id (fun _ => !db.routes.any clashes) route
    db.routes) .integrityError
  pure { db with routes := routes }

/-- The limits on the routes that a peer owns or is the audience of. -/
def routesFull (owner : PeerRoute → Bool) (liveBytesFull : Bool) : Bool :=
  routeActivePerPeerLimit ≤ db.routes.countP (fun r => owner r && r.status == .active) ||
    routeTotalPerPeerLimit ≤ db.routes.countP owner || routeGlobalLimit ≤ db.routes.length ||
    liveBytesFull

/-- `publish_local_route`. The route id and the revision are new. -/
def publishLocalRoute [Sha256] (hostServerIdentity teamId audiencePeerId chatId : String)
    (descriptor : RouteDescriptor) (idempotencyKey publishedBy : String)
    (available liveBytesFull : Bool) (now : Nat) : Except Failure (Json × Db) := do
  let epoch ← db.requireCrossChat available none
  let _ ← identifier teamId "team_id"
  let _ ← uuid audiencePeerId "audience_peer_id"
  let _ ← identifier chatId "chat_id"
  let _ ← identifier publishedBy "published_by"
  let actions ← descriptor.check
  let request : Json := .obj [("team_id", .str teamId), ("audience_peer_id", .str audiencePeerId),
    ("chat_id", .str chatId), ("alias", .str descriptor.routeAlias),
    ("display_title", .str descriptor.displayTitle),
    ("actions", .arr (actions.map fun action => .str action.text)),
    ("published_by", .str publishedBy)]
  let (digest, cached) ← db.operation "local-route-publish" idempotencyKey request
  match cached with
  | some response => pure (response, db)
  | none => do
      let db := db.pruneHistory now
      let peer ← required (db.peers.find? fun p => p.id = audiencePeerId && p.teamId = teamId &&
        p.status = .active)
        (.securePeerError "peer_unavailable" "Route audience peer is unavailable" 404)
      require (peer.crossChatGrantEpoch = some epoch)
        (.securePeerError "cross_chat_reapproval_required"
          "Route audience peer requires fresh cross-chat approval" 403)
      require (¬ ∃ r ∈ db.routes, r.targetKind = .host ∧ r.status = .active ∧ r.teamId = teamId ∧
          r.audiencePeerId = some audiencePeerId ∧
          (r.chatId = some chatId ∨ r.routeAlias = descriptor.routeAlias))
        (.securePeerError "route_conflict"
          "This peer already has a route for that chat or alias" 409)
      require (∀ action ∈ actions, action.requiredScope ∈ peer.scopes)
        (.securePeerError "forbidden" "Peer scope does not permit this relay" 403)
      require (db.routesFull (fun r => r.audiencePeerId == some audiencePeerId)
        liveBytesFull = false) routeCapacity
      let db ← db.insertRoute {
        id := descriptor.routeId
        serverIdentity := hostServerIdentity
        targetKind := .host
        peerId := none
        audiencePeerId := some audiencePeerId
        teamId := teamId
        revision := descriptor.revision
        routeAlias := descriptor.routeAlias
        displayTitle := descriptor.displayTitle
        actions := actions
        chatId := some chatId
        status := .active
        createdAt := now
        updatedAt := now
        revokedAt := none }
      let response : Json := .obj [("route_id", .str descriptor.routeId),
        ("team_id", .str teamId), ("revision", .str descriptor.revision),
        ("audience_peer_id", .str audiencePeerId), ("chat_id", .str chatId)]
      let db ← db.recordOperation "local-route-publish" idempotencyKey digest response now
      pure (response, db.audit now)

/-- `publish_peer_route`. -/
def publishPeerRoute (peer : PeerAuthorization) (descriptor : RouteDescriptor)
    (available liveBytesFull : Bool) (now : Nat) : Except Failure (String × Db) := do
  let _ ← db.requireCrossChat available (some peer)
  let actions ← descriptor.check
  require (∀ action ∈ actions, action.requiredScope ∈ peer.scopes)
    (.securePeerError "forbidden" "Peer scope does not permit this relay" 403)
  match db.route? descriptor.routeId with
  | some existing => do
      require (existing.peerId = some peer.peerId ∧ existing.revision = descriptor.revision ∧
          existing.routeAlias = descriptor.routeAlias ∧
          existing.displayTitle = descriptor.displayTitle ∧ existing.actions = actions)
        (idempotencyConflict "route_id was reused with different content")
      pure (existing.id, db)
  | none => do
      let db := db.pruneHistory now
      require (db.routesFull (fun r => r.peerId == some peer.peerId) liveBytesFull = false)
        routeCapacity
      let db ← db.insertRoute {
        id := descriptor.routeId
        serverIdentity := peer.peerServerIdentity
        targetKind := .peer
        peerId := some peer.peerId
        audiencePeerId := none
        teamId := peer.teamId
        revision := descriptor.revision
        routeAlias := descriptor.routeAlias
        displayTitle := descriptor.displayTitle
        actions := actions
        chatId := none
        status := .active
        createdAt := now
        updatedAt := now
        revokedAt := none }
      pure (descriptor.routeId, db.audit now)

/-- The common part of both route revocations: the route, its exchanges and its live
envelopes. -/
def endRoute (routeId expectedRevision : String) (owned : PeerRoute → Bool) (changed : Failure)
    (revision : String) (now : Nat) : Except Failure Db := do
  require (∃ r ∈ db.routes, r.id = routeId ∧ owned r = true ∧ r.revision = expectedRevision ∧
    r.status = .active) changed
  let isOnRoute (e : RelayEnvelope) : Bool :=
    e.sourceRouteId == routeId || e.targetRouteId == routeId
  let db := db.revokeRoutes (fun r => r.id == routeId && owned r && r.revision == expectedRevision)
    (fun _ => revision) now
  let db := db.expireExchanges fun x => db.envelopes.any fun e => isOnRoute e && e.exchangeId == x.id
  pure (db.expireEnvelopes isOnRoute)

/-- `revoke_route`. -/
def revokeRoute [Sha256] (routeId teamId expectedRevision idempotencyKey revokedBy : String)
    (available : Bool) (revision : String) (now : Nat) : Except Failure (Json × Db) := do
  let _ ← db.requireCrossChat available none
  let _ ← uuid routeId "route_id"
  let _ ← identifier teamId "team_id"
  let _ ← identifier revokedBy "revoked_by"
  require (isRevision expectedRevision) (invalidRequest "expected route revision is invalid")
  let request : Json := .obj [("route_id", .str routeId), ("team_id", .str teamId),
    ("expected_revision", .str expectedRevision), ("revoked_by", .str revokedBy)]
  let (digest, cached) ← db.operation "local-route-revoke" idempotencyKey request
  match cached with
  | some response => pure (response, db)
  | none => do
      let db ← db.endRoute routeId expectedRevision (fun r => r.teamId == teamId)
        (.securePeerError "route_changed" "Local route is unavailable or changed" 409)
        revision now
      let response : Json := .obj [("route_id", .str routeId), ("team_id", .str teamId),
        ("revision", .str revision), ("status", .str "revoked")]
      let db ← db.recordOperation "local-route-revoke" idempotencyKey digest response now
      pure (response, db.audit now)

/-- `revoke_peer_route`. -/
def revokePeerRoute [Sha256] (peer : PeerAuthorization)
    (routeId expectedRevision idempotencyKey : String) (available : Bool) (revision : String)
    (now : Nat) : Except Failure (Json × Db) := do
  let _ ← db.requireCrossChat available (some peer)
  let _ ← uuid routeId "route_id"
  require (isRevision expectedRevision) (invalidRequest "expected route revision is invalid")
  let request : Json := .obj [("route_id", .str routeId),
    ("expected_revision", .str expectedRevision), ("peer_id", .str peer.peerId)]
  let realm := "peer-route-revoke:" ++ peer.peerId
  let (digest, cached) ← db.operation realm idempotencyKey request
  match cached with
  | some response => pure (response, db)
  | none => do
      let db ← db.endRoute routeId expectedRevision
        (fun r => r.peerId == some peer.peerId && r.teamId == peer.teamId)
        (.securePeerError "route_changed" "Peer route is unavailable or changed" 409)
        revision now
      let response : Json := .obj [("route_id", .str routeId), ("team_id", .str peer.teamId),
        ("revision", .str revision), ("status", .str "revoked")]
      let db ← db.recordOperation realm idempotencyKey digest response now
      pure (response, db.audit now)

end Db

end AgentsServer.PeerStore

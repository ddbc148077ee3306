import AgentsServer.Library.Json
import AgentsServer.Library.Outcome

/-!
# The claim of a delivery

What `_claim` accepts from an envelope, and the digest of everything in it but
the lease token.
-/

namespace AgentsServer.PeerDelivery

open Library

inductive Failure where
  | valueError (text : String)
  | runtimeError (text : String)
  | conversionError
  | overflowError
  | assertionError
  | integrityError (constraint : String)
  deriving DecidableEq

inductive TransportRole where
  | host
  | client
  deriving DecidableEq

inductive DeliveryAction where
  | instruction
  | requestReply
  deriving DecidableEq

inductive Kind where
  | instruction
  | requestReply
  | response
  deriving DecidableEq

def transportRole? : String → Option TransportRole
  | "host" => some .host
  | "client" => some .client
  | _ => none

def TransportRole.text : TransportRole → String
  | .host => "host"
  | .client => "client"

def action? : String → Option DeliveryAction
  | "instruction" => some .instruction
  | "request_reply" => some .requestReply
  | _ => none

def DeliveryAction.text : DeliveryAction → String
  | .instruction => "instruction"
  | .requestReply => "request_reply"

def kind? : String → Option Kind
  | "instruction" => some .instruction
  | "request_reply" => some .requestReply
  | "response" => some .response
  | _ => none

def Kind.text : Kind → String
  | .instruction => "instruction"
  | .requestReply => "request_reply"
  | .response => "response"

/-! ## Reading an envelope -/

abbrev Envelope := List (String × Json)

section Fields

variable [Conversions]

/-- `str(envelope.get(key) or "")`. -/
def text (envelope : Envelope) (key : String) : String :=
  match envelope.lookup key with
  | some value => if value.truthy then value.toText else ""
  | none => ""

/-- `str(envelope.get(key))` unless it is `None`. -/
def optionalText (envelope : Envelope) (key : String) : Option String :=
  match envelope.lookup key with
  | none => none
  | some .null => none
  | some value => some value.toText

def toInt (value : Json) : Except Failure Int :=
  match Conversions.int value with
  | some n => .ok n
  | none => .error .conversionError

/-- `int(envelope.get(key) or 0)`. -/
def integer (envelope : Envelope) (key : String) : Except Failure Int :=
  match envelope.lookup key with
  | some value => if value.truthy then toInt value else .ok 0
  | none => .ok 0

/-- `int(envelope.get(key))` unless it is `None`. -/
def optionalInteger (envelope : Envelope) (key : String) : Except Failure (Option Int) :=
  match envelope.lookup key with
  | none => .ok none
  | some .null => .ok none
  | some value => (toInt value).map some

/-- A body that is exactly one message, neither blank nor too long. -/
def message? (envelope : Envelope) : Option String :=
  match envelope.lookup "body" with
  | some (.obj [("message", .str message)]) =>
      if isBlank message = false ∧ message.length ≤ 100000 then some message else none
  | _ => none

end Fields

/-! ## Claims -/

/-- The immutable part of a claim: all of it but the lease token. -/
structure Claim where
  envelopeId : String
  requestId : String
  transportRole : TransportRole
  connectionId : String
  teamId : String
  sourcePeerId : Option String
  sourceServerIdentity : String
  sourceRouteId : String
  sourceRouteRevision : String
  targetPeerId : Option String
  targetServerIdentity : String
  targetRouteId : String
  targetRouteRevision : String
  targetChatId : String
  action : DeliveryAction
  kind : Kind
  exchangeId : String
  parentEnvelopeId : Option String
  parentLeg : Option Int
  usedLegs : Int
  maxLegs : Int
  expiresAt : Int
  message : String
  deriving DecidableEq

def Claim.body (claim : Claim) : Json :=
  .obj [("message", .str claim.message)]

def optionalJson (value : Option String) : Json :=
  value.elim .null .str

def Claim.json (claim : Claim) : Json :=
  .obj [
    ("envelope_id", .str claim.envelopeId),
    ("request_id", .str claim.requestId),
    ("transport_role", .str claim.transportRole.text),
    ("connection_id", .str claim.connectionId),
    ("team_id", .str claim.teamId),
    ("source_peer_id", optionalJson claim.sourcePeerId),
    ("source_server_identity", .str claim.sourceServerIdentity),
    ("source_route_id", .str claim.sourceRouteId),
    ("source_route_revision", .str claim.sourceRouteRevision),
    ("target_peer_id", optionalJson claim.targetPeerId),
    ("target_server_identity", .str claim.targetServerIdentity),
    ("target_route_id", .str claim.targetRouteId),
    ("target_route_revision", .str claim.targetRouteRevision),
    ("target_chat_id", .str claim.targetChatId),
    ("action", .str claim.action.text),
    ("kind", .str claim.kind.text),
    ("exchange_id", .str claim.exchangeId),
    ("parent_envelope_id", optionalJson claim.parentEnvelopeId),
    ("parent_leg", claim.parentLeg.elim .null fun leg => .num (.ofInt leg)),
    ("used_legs", .num (.ofInt claim.usedLegs)),
    ("max_legs", .num (.ofInt claim.maxLegs)),
    ("expires_at", .num (.ofInt claim.expiresAt)),
    ("body", claim.body)]

def Claim.digest [Sha256] (claim : Claim) : String :=
  Sha256.hexdigest (utf8 claim.json.canonical)

/-- The texts a claim may not leave empty, with the lease token. -/
def Claim.required (claim : Claim) (leaseToken : String) : List String :=
  [claim.envelopeId, claim.requestId, claim.connectionId, leaseToken, claim.teamId,
    claim.sourceServerIdentity, claim.sourceRouteId, claim.sourceRouteRevision,
    claim.targetServerIdentity, claim.targetRouteId, claim.targetRouteRevision,
    claim.targetChatId, claim.exchangeId]

/-- `_claim`. -/
def makeClaim [Conversions] (envelope : Envelope)
    (role connectionId leaseToken targetChatId : String) : Except Failure Claim := do
  let some transportRole := transportRole? role
    | .error (.valueError "secure peer delivery role is invalid")
  let some action := action? (text envelope "action")
    | .error (.valueError "secure peer delivery action is invalid")
  let some kind := kind? (text envelope "kind")
    | .error (.valueError "secure peer delivery kind is invalid")
  let some message := message? envelope
    | .error (.valueError "secure peer delivery body is invalid")
  let parentLeg ← optionalInteger envelope "parent_leg"
  let usedLegs ← integer envelope "used_legs"
  let maxLegs ← integer envelope "max_legs"
  let expiresAt ← integer envelope "expires_at"
  let claim : Claim := {
    envelopeId := text envelope "envelope_id"
    requestId := text envelope "request_id"
    transportRole
    connectionId
    teamId := text envelope "team_id"
    sourcePeerId := optionalText envelope "source_peer_id"
    sourceServerIdentity := text envelope "source_server_identity"
    sourceRouteId := text envelope "source_route_id"
    sourceRouteRevision := text envelope "source_route_revision"
    targetPeerId := optionalText envelope "target_peer_id"
    targetServerIdentity := text envelope "target_server_identity"
    targetRouteId := text envelope "target_route_id"
    targetRouteRevision := text envelope "target_route_revision"
    targetChatId
    action
    kind
    exchangeId := text envelope "exchange_id"
    parentEnvelopeId := optionalText envelope "parent_envelope_id"
    parentLeg
    usedLegs
    maxLegs
    expiresAt
    message }
  require (∀ field ∈ claim.required leaseToken, field ≠ "")
    (.valueError "secure peer delivery identity is incomplete")
  require (maxLegs = 6 ∧ 1 ≤ usedLegs ∧ usedLegs ≤ 6)
    (.valueError "secure peer delivery leg budget is invalid")
  return claim

end AgentsServer.PeerDelivery

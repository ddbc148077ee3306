import AgentsServer.Library.Runs
import AgentsServer.Library.Tables
import AgentsServer.Library.Text

/-!
# Exchanges between chats

The two tables of `CrossChatStore` for exchanges and their legs, and the operations on them. Every
operation is one transaction. What a violated constraint raises is `integrityError`.
-/

namespace AgentsServer.Exchanges

open Library

/-! ## Rows -/

inductive ExchangeStatus where
  | waitingRequest
  | active
  | completed
  | failed
  | cancelled
  | expired
  deriving DecidableEq

/-- `CROSS_CHAT_EXCHANGE_TERMINAL_STATUSES`. -/
def ExchangeStatus.terminal : ExchangeStatus → Bool
  | .waitingRequest | .active => false
  | .completed | .failed | .cancelled | .expired => true

inductive LegStatus where
  | registered
  | submitting
  | queued
  | running
  | delivered
  | failed
  | cancelled
  | expired
  deriving DecidableEq

/-- `CROSS_CHAT_EXCHANGE_LEG_TERMINAL_STATUSES`. -/
def LegStatus.terminal : LegStatus → Bool
  | .registered | .submitting | .queued | .running => false
  | .delivered | .failed | .cancelled | .expired => true

/-- `response_state`. The first one is `open`. -/
inductive ResponseState where
  | opened
  | explicitCommitted
  | automaticCommitted
  | closed
  deriving DecidableEq

inductive Kind where
  | request
  | reply
  | status
  deriving DecidableEq

/-- A row of `cross_chat_exchanges`. -/
structure Exchange where
  id : String
  requesterSessionId : String
  responderSessionId : String
  authorizationSourceRunId : String
  authorizationKind : String
  authorizationRouteId : Option String
  authorizationPairId : String
  reciprocalRouteEffectId : String
  reciprocalRouteActions : String
  reciprocalRouteState : String
  initialAction : String
  sourceUserInstruction : String
  status : ExchangeStatus
  maxLegs : Int
  usedLegs : Nat
  activeLegId : Option String
  expiresAt : String
  liveResponseRequested : Bool
  liveResponseLease : Bool
  liveResponseInstanceId : String
  deriving DecidableEq

/-- A row of `cross_chat_exchange_legs`. -/
structure Leg where
  id : String
  exchangeId : String
  parentLegId : Option String
  ordinal : Nat
  sourceSessionId : String
  sourceRunId : String
  sourceOwnerRunId : String
  targetSessionId : String
  kind : Kind
  expectsReply : Bool
  responseState : ResponseState
  body : String
  idempotencyKey : String
  status : LegStatus
  queuedId : Option String
  targetRunId : Option String
  deriving DecidableEq

/-- The checks of `cross_chat_exchanges`. -/
def Exchange.checked (e : Exchange) : Bool :=
  decide (0 < e.maxLegs) && decide (e.maxLegs ≤ 6) && decide (e.usedLegs ≤ e.maxLegs) &&
    decide (e.requesterSessionId ≠ e.responderSessionId)

/-- Two legs that a unique constraint keeps apart. -/
def Leg.clashes (old new : Leg) : Bool :=
  decide (old.id = new.id) ||
    (new.parentLegId.isSome && decide (old.parentLegId = new.parentLegId)) ||
    (decide (old.exchangeId = new.exchangeId) &&
      (decide (old.ordinal = new.ordinal) || decide (old.sourceRunId = new.sourceRunId) ||
        decide (old.idempotencyKey = new.idempotencyKey)))

/-- `str(source_owner_run_id or source_run_id or "")`. -/
def Leg.owner (l : Leg) : String :=
  if l.sourceOwnerRunId ≠ "" then l.sourceOwnerRunId else l.sourceRunId

structure Ledger where
  exchanges : List Exchange
  legs : List Leg
  deriving DecidableEq

inductive Result where
  | returned (exchange : Option Exchange) (leg : Option Leg) (changed : Bool)
  | raised (statusCode : Nat) (detail : String)
  | valueError (message : String)
  | integrityError
  deriving DecidableEq

/-- What an operation takes from its process: `now_iso()`, the identifier of a new leg and
`SERVER_INSTANCE_ID`. -/
structure Process where
  timestamp : String
  legId : String
  serverInstanceId : String

namespace Ledger

def empty : Ledger := ⟨[], []⟩

variable (d : Ledger)

/-! ## Statements -/

def exchange? (id : String) : Option Exchange := Tables.find Exchange.id d.exchanges id

def leg? (id : String) : Option Leg := Tables.find Leg.id d.legs id

def insertExchange (e : Exchange) : Option Ledger :=
  (Tables.insertRow Exchange.id Exchange.checked e d.exchanges).map fun exchanges =>
    { d with exchanges := exchanges }

def insertLeg (l : Leg) : Option Ledger :=
  if (d.exchange? l.exchangeId).isSome ∧ l.sourceSessionId ≠ l.targetSessionId ∧
      ∀ old ∈ d.legs, old.clashes l = false then
    some { d with legs := d.legs ++ [l] }
  else none

def setExchanges (selected : Exchange → Bool) (set : Exchange → Exchange) : Option Ledger :=
  (Tables.updateRows selected set (fun _ e => e.checked) d.exchanges).map fun exchanges =>
    { d with exchanges := exchanges }

/-- An update of columns without a check. -/
def setExchange (id : String) (set : Exchange → Exchange) : Ledger :=
  { d with exchanges := d.exchanges.map fun e => if e.id = id then set e else e }

/-- An update of columns without a check. -/
def setLeg (id : String) (set : Leg → Leg) : Ledger :=
  { d with legs := d.legs.map fun l => if l.id = id then set l else l }

/-! ## Requests -/

/-- `validated_cross_chat_source_user_instruction`. -/
def validInstruction (text : String) : Bool := decide (text.length ≤ 100000)

def instructionTooLarge : Result :=
  .raised 413 "source user instruction is too large for cross-chat delivery"

structure Obligation where
  exchangeId : String
  requesterSessionId : String
  authorizationSourceRunId : String
  responderSessionId : String
  maxLegs : Int
  expiresAt : String
  sourceUserInstruction : String

/-- The exchange of an explicit prompt. -/
def Obligation.exchange (c : Obligation) : Exchange :=
  { id := c.exchangeId
    requesterSessionId := c.requesterSessionId
    responderSessionId := c.responderSessionId
    authorizationSourceRunId := c.authorizationSourceRunId
    authorizationKind := "explicit_prompt"
    authorizationRouteId := none
    authorizationPairId := ""
    reciprocalRouteEffectId := ""
    reciprocalRouteActions := ""
    reciprocalRouteState := ""
    initialAction := "request_reply"
    sourceUserInstruction := c.sourceUserInstruction
    status := .waitingRequest
    maxLegs := c.maxLegs
    usedLegs := 0
    activeLegId := none
    expiresAt := c.expiresAt
    liveResponseRequested := false
    liveResponseLease := false
    liveResponseInstanceId := "" }

/-- Whether a replay names what is stored. -/
def Obligation.matches (c : Obligation) (e : Exchange) : Bool :=
  decide (e.requesterSessionId = c.requesterSessionId) &&
    decide (e.authorizationSourceRunId = c.authorizationSourceRunId) &&
    decide (e.responderSessionId = c.responderSessionId) &&
    decide (e.sourceUserInstruction = c.sourceUserInstruction)

/-- `create_exchange_obligation`. -/
def createExchangeObligation (c : Obligation) : Ledger × Result :=
  if !validInstruction c.sourceUserInstruction then (d, instructionTooLarge)
  else
    match d.exchange? c.exchangeId with
    | some e =>
        if c.matches e then (d, .returned (some e) none false)
        else (d, .raised 409 "exchange id is already bound to another authorization")
    | none =>
        match d.insertExchange c.exchange with
        | some d' => (d', .returned (some c.exchange) none false)
        | none => (d, .integrityError)

structure RouteRequest where
  exchangeId : String
  legId : String
  requesterSessionId : String
  authorizationSourceRunId : String
  responderSessionId : String
  body : String
  idempotencyKey : String
  maxLegs : Int
  expiresAt : String
  authorizationRouteId : String
  authorizationPairId : String
  reciprocalRouteEffectId : String
  reciprocalRouteActions : List String
  initialAction : String
  sourceUserInstruction : String
  liveResponseLease : Bool

/-- `PROVIDER_CROSS_CHAT_ROUTE_ACTIONS`. -/
def routeActions : List String := ["instruction", "request_reply"]

/-- `canonical_provider_cross_chat_route_actions` of a list that is not empty. -/
def canonicalRouteActions (actions : List String) : Option (List String) :=
  if actions.length ≤ routeActions.length ∧ actions.Nodup ∧
      ∀ action ∈ actions, action ∈ routeActions then
    some (routeActions.filter fun action => decide (action ∈ actions))
  else none

/-- What `create_route_exchange_request` checks before its transaction, and the canonical text of
the reciprocal actions. -/
def RouteRequest.validate (c : RouteRequest) : Except Result String :=
  if !validInstruction c.sourceUserInstruction then .error instructionTooLarge
  else if !isPrefixedHex "route_" 32 c.authorizationRouteId then
    .error (.valueError "configured route exchange requires a route id")
  else if c.authorizationPairId ≠ "" ∧ !isPrefixedHex "pair_" 32 c.authorizationPairId then
    .error (.valueError "invalid permanent pair authorization")
  else if c.initialAction ∉ routeActions then
    .error (.valueError "configured route exchange has an invalid initial action")
  else
    match if c.reciprocalRouteActions = [] then some []
        else canonicalRouteActions c.reciprocalRouteActions with
    | none =>
        .error (.raised 400
          "route actions must be a unique subset of instruction and request_reply")
    | some actions =>
        if decide (c.reciprocalRouteEffectId ≠ "") ≠ decide (actions ≠ []) ∨
            c.reciprocalRouteEffectId ≠ "" ∧
              (c.reciprocalRouteEffectId ≠ c.exchangeId ∨
                !isPrefixedHex "exchange_" 32 c.reciprocalRouteEffectId) then
          .error (.valueError "configured route reciprocal effect is invalid")
        else .ok (",".intercalate actions)

def RouteRequest.reciprocalRouteState (c : RouteRequest) : String :=
  if c.reciprocalRouteEffectId ≠ "" then "pending" else ""

/-- Whether a replay names what is stored. -/
def RouteRequest.matches (c : RouteRequest) (actions : String) (e : Exchange) (l : Leg) : Bool :=
  decide (e.requesterSessionId = c.requesterSessionId) &&
    decide (e.authorizationSourceRunId = c.authorizationSourceRunId) &&
    decide (e.responderSessionId = c.responderSessionId) &&
    decide (e.maxLegs = c.maxLegs) && decide (e.expiresAt = c.expiresAt) &&
    decide (e.authorizationKind = "configured_route") &&
    decide (e.authorizationRouteId = some c.authorizationRouteId) &&
    decide (e.authorizationPairId = c.authorizationPairId) &&
    decide (e.reciprocalRouteEffectId = c.reciprocalRouteEffectId) &&
    decide (e.reciprocalRouteActions = actions) &&
    (decide (e.reciprocalRouteState = c.reciprocalRouteState) ||
      decide (e.reciprocalRouteState = "applied")) &&
    decide (e.initialAction = c.initialAction) &&
    decide (e.sourceUserInstruction = c.sourceUserInstruction) &&
    decide (e.liveResponseRequested = c.liveResponseLease) &&
    decide (l.exchangeId = c.exchangeId) && decide (l.ordinal = 1) &&
    decide (l.sourceSessionId = c.requesterSessionId) &&
    decide (l.sourceRunId = c.authorizationSourceRunId) &&
    decide (l.targetSessionId = c.responderSessionId) && decide (l.body = c.body) &&
    decide (l.idempotencyKey = c.idempotencyKey)

/-- The exchange of a configured route. -/
def RouteRequest.exchange (c : RouteRequest) (p : Process) (actions : String) : Exchange :=
  { id := c.exchangeId
    requesterSessionId := c.requesterSessionId
    responderSessionId := c.responderSessionId
    authorizationSourceRunId := c.authorizationSourceRunId
    authorizationKind := "configured_route"
    authorizationRouteId := some c.authorizationRouteId
    authorizationPairId := c.authorizationPairId
    reciprocalRouteEffectId := c.reciprocalRouteEffectId
    reciprocalRouteActions := actions
    reciprocalRouteState := c.reciprocalRouteState
    initialAction := c.initialAction
    sourceUserInstruction := c.sourceUserInstruction
    status := .active
    maxLegs := c.maxLegs
    usedLegs := 1
    activeLegId := some c.legId
    expiresAt := c.expiresAt
    liveResponseRequested := c.liveResponseLease
    liveResponseLease := c.liveResponseLease
    liveResponseInstanceId := if c.liveResponseLease then p.serverInstanceId else "" }

/-- The first leg of an exchange. -/
def firstLeg (id exchangeId sourceSessionId sourceRunId targetSessionId : String)
    (expectsReply : Bool) (body idempotencyKey : String) : Leg :=
  { id := id
    exchangeId := exchangeId
    parentLegId := none
    ordinal := 1
    sourceSessionId := sourceSessionId
    sourceRunId := sourceRunId
    sourceOwnerRunId := sourceRunId
    targetSessionId := targetSessionId
    kind := .request
    expectsReply := expectsReply
    responseState := .opened
    body := body
    idempotencyKey := idempotencyKey
    status := .registered
    queuedId := none
    targetRunId := none }

def RouteRequest.leg (c : RouteRequest) : Leg :=
  firstLeg c.legId c.exchangeId c.requesterSessionId c.authorizationSourceRunId
    c.responderSessionId (decide (c.initialAction = "request_reply")) c.body c.idempotencyKey

/-- `create_route_exchange_request`. -/
def createRouteExchangeRequest (p : Process) (c : RouteRequest) : Ledger × Result :=
  match c.validate with
  | .error result => (d, result)
  | .ok actions =>
      match d.exchange? c.exchangeId with
      | some e =>
          match d.leg? c.legId with
          | none => (d, .raised 409 "route exchange is missing its initial request")
          | some l =>
              if c.matches actions e l then (d, .returned (some e) (some l) false)
              else
                (d, .raised 409
                  "idempotency key was already used for a different route exchange request")
      | none =>
          let e := c.exchange p actions
          match (d.insertExchange e).bind fun d' => d'.insertLeg c.leg with
          | some d' => (d', .returned (some e) (some c.leg) true)
          | none => (d, .integrityError)

structure InitialLeg where
  exchangeId : String
  sourceSessionId : String
  sourceRunId : String
  targetSessionId : String
  body : String
  idempotencyKey : String
  liveResponseLease : Bool

def InitialLeg.leg (c : InitialLeg) (p : Process) : Leg :=
  firstLeg p.legId c.exchangeId c.sourceSessionId c.sourceRunId c.targetSessionId true c.body
    c.idempotencyKey

/-- The exchange with its first leg. -/
def InitialLeg.activate (c : InitialLeg) (p : Process) (e : Exchange) : Exchange :=
  { e with
    status := .active
    usedLegs := 1
    activeLegId := some p.legId
    liveResponseRequested := c.liveResponseLease
    liveResponseLease := c.liveResponseLease
    liveResponseInstanceId := if c.liveResponseLease then p.serverInstanceId else "" }

/-- Whether a replay names what is stored. -/
def InitialLeg.matches (c : InitialLeg) (e : Exchange) (l : Leg) : Bool :=
  decide (l.ordinal = 1) && decide (l.sourceSessionId = c.sourceSessionId) &&
    decide (l.targetSessionId = c.targetSessionId) && decide (l.body = c.body) &&
    decide (l.idempotencyKey = c.idempotencyKey) &&
    decide (e.liveResponseRequested = c.liveResponseLease)

/-- `create_initial_exchange_leg`. -/
def createInitialExchangeLeg (p : Process) (c : InitialLeg) : Ledger × Result :=
  match d.exchange? c.exchangeId with
  | none => (d, .raised 404 "cross-chat exchange was not found")
  | some e =>
      match d.legs.find? fun l =>
        decide (l.exchangeId = c.exchangeId) && decide (l.sourceRunId = c.sourceRunId) with
      | some l =>
          if c.matches e l then (d, .returned (some e) (some l) false)
          else
            (d, .raised 409 "idempotency key was already used for a different exchange request")
      | none =>
          if e.status ≠ .waitingRequest then
            (d, .raised 409 "exchange request was already committed")
          else if e.authorizationSourceRunId ≠ c.sourceRunId then
            (d, .raised 403 "exchange is bound to another source run")
          else if e.requesterSessionId ≠ c.sourceSessionId ∨
              e.responderSessionId ≠ c.targetSessionId then
            (d, .raised 403 "exchange participants do not match the grant")
          else if e.expiresAt ≤ p.timestamp then
            (d.setExchange e.id fun e => { e with status := .expired },
              .raised 410 "cross-chat exchange expired")
          else
            match (d.insertLeg (c.leg p)).bind fun d' =>
              d'.setExchanges (fun e => decide (e.id = c.exchangeId)) (c.activate p) with
            | some d' => (d', .returned (some (c.activate p e)) (some (c.leg p)) true)
            | none => (d, .integrityError)

/-! ## Responses -/

structure Response where
  exchangeId : String
  inboundLegId : String
  sourceSessionId : String
  sourceRunId : String
  body : String
  requestResponse : Bool
  idempotencyKey : String
  automatic : Bool

def Response.kind (c : Response) : Kind := if c.requestResponse then .request else .reply

def Response.committedState (c : Response) : ResponseState :=
  if c.automatic then .automaticCommitted else .explicitCommitted

def Response.requiredSlots (c : Response) : Int := if c.requestResponse then 2 else 1

/-- The run that the leg of a response is recorded under. -/
def Response.durableSourceRunId (c : Response) (e : Exchange) : String :=
  if e.liveResponseLease then c.sourceRunId ++ ":live:" ++ toString (e.usedLegs + 1)
  else c.sourceRunId

/-- Whether a replay names the stored response. -/
def Response.matches (c : Response) (l : Leg) : Bool :=
  decide (l.owner = c.sourceRunId) && decide (l.sourceSessionId = c.sourceSessionId) &&
    decide (l.body = c.body) && decide (l.kind = c.kind) &&
    decide (l.idempotencyKey = c.idempotencyKey)

/-- The leg of a response. -/
def Response.leg (c : Response) (p : Process) (e : Exchange) (inbound : Leg) : Leg :=
  { id := p.legId
    exchangeId := c.exchangeId
    parentLegId := some c.inboundLegId
    ordinal := e.usedLegs + 1
    sourceSessionId := c.sourceSessionId
    sourceRunId := c.durableSourceRunId e
    sourceOwnerRunId := c.sourceRunId
    targetSessionId := inbound.sourceSessionId
    kind := c.kind
    expectsReply := c.requestResponse
    responseState := .opened
    body := c.body
    idempotencyKey := c.idempotencyKey
    status := .registered
    queuedId := none
    targetRunId := none }

/-- Whether the two chats of a response are those of the exchange. -/
def participants (e : Exchange) (source target : String) : Bool :=
  (decide (source = e.requesterSessionId) && decide (target = e.responderSessionId) ||
    decide (source = e.responderSessionId) && decide (target = e.requesterSessionId)) &&
    decide (target ≠ source)

/-- `commit_exchange_response`. -/
def commitExchangeResponse (p : Process) (c : Response) : Ledger × Result :=
  match d.exchange? c.exchangeId, (d.leg? c.inboundLegId).filter fun l =>
      decide (l.exchangeId = c.exchangeId) with
  | some e, some inbound =>
      match d.legs.find? fun l => decide (l.parentLegId = some c.inboundLegId) with
      | some l =>
          if c.matches l then (d, .returned (some e) (some l) false)
          else (d, .raised 409 "response_already_committed")
      | none =>
          if e.status ≠ .active then
            if e.status = .expired then (d, .raised 410 "expired")
            else (d, .raised 409 "response_already_committed")
          else if e.expiresAt ≤ p.timestamp ∧ e.liveResponseRequested = false then
            (d.setExchange e.id fun e => { e with status := .expired }, .raised 410 "expired")
          else if inbound.responseState ≠ .opened then
            (d, .raised 409 "response_already_committed")
          else if c.automatic ∧ inbound.expectsReply = false then
            (d, .raised 409 "response_already_committed")
          else if inbound.targetSessionId ≠ c.sourceSessionId ∨
              inbound.targetRunId ≠ some c.sourceRunId ∨
              (inbound.status ≠ .running ∧ inbound.status ≠ .delivered) then
            (d, .raised 403 "response is not bound to this live delivery run")
          else if !participants e c.sourceSessionId inbound.sourceSessionId then
            (d, .raised 403 "exchange participant pair is invalid")
          else if e.maxLegs - e.usedLegs < c.requiredSlots then
            (d, .raised 409 "budget_exhausted")
          else
            let l := c.leg p e inbound
            let advance (e : Exchange) : Exchange :=
              { e with usedLegs := e.usedLegs + 1, activeLegId := some p.legId }
            let answered := d.setLeg c.inboundLegId fun l =>
              { l with responseState := c.committedState }
            match (answered.insertLeg l).bind fun d' =>
              d'.setExchanges (fun e => decide (e.id = c.exchangeId)) advance with
            | some d' => (d', .returned (some (advance e)) (some l) true)
            | none => (d, .integrityError)
  | _, _ => (d, .raised 404 "cross-chat exchange leg was not found")

/-- `downgrade_live_exchange`. -/
def downgradeLiveExchange (exchangeId activeLegId expectedInstanceId : String) :
    Ledger × Result :=
  match d.exchange? exchangeId with
  | none => (d, .returned none none false)
  | some e =>
      if e.status = .active ∧ e.activeLegId = some activeLegId ∧ e.liveResponseLease = true ∧
          e.liveResponseInstanceId = expectedInstanceId then
        let release (e : Exchange) : Exchange :=
          { e with liveResponseLease := false, liveResponseInstanceId := "" }
        (d.setExchange exchangeId release, .returned (some (release e)) none true)
      else (d, .returned (some e) none false)

/-! ## Ends -/

inductive CancelStatus where
  | failed
  | cancelled
  | expired
  deriving DecidableEq

def CancelStatus.exchange : CancelStatus → ExchangeStatus
  | .failed => .failed
  | .cancelled => .cancelled
  | .expired => .expired

def CancelStatus.leg : CancelStatus → LegStatus
  | .failed => .failed
  | .cancelled => .cancelled
  | .expired => .expired

/-- `cancel_exact_queued_exchange_leg`. -/
def cancelExactQueuedExchangeLeg (exchangeId legId targetSessionId queuedId : String) :
    Ledger × Result :=
  match (d.leg? legId).filter fun l =>
      decide (l.exchangeId = exchangeId) && decide (l.targetSessionId = targetSessionId) &&
        decide (l.queuedId = some queuedId) && decide (l.status = .queued),
      d.exchange? exchangeId with
  | some l, some e =>
      if l.kind ≠ .status ∧ e.status = .active ∧ e.activeLegId.getD "" ≠ legId then
        (d, .returned none none false)
      else
        let cancel (l : Leg) : Leg := { l with status := .cancelled, responseState := .closed }
        if l.kind ≠ .status ∧ e.status = .active ∧ e.activeLegId = some legId then
          let close (e : Exchange) : Exchange := { e with status := .cancelled }
          ((d.setLeg legId cancel).setExchange exchangeId close,
            .returned (some (close e)) (some (cancel l)) true)
        else (d.setLeg legId cancel, .returned (some e) (some (cancel l)) true)
  | _, _ => (d, .returned none none false)

/-- The row of the active leg, when there is one. -/
def activeLeg (e : Exchange) : Option Leg :=
  if e.activeLegId.getD "" = "" then none else d.leg? (e.activeLegId.getD "")

/-- What a cancelled exchange makes of its active leg. -/
def CancelStatus.close (status : CancelStatus) (l : Leg) : Leg :=
  match l.status with
  | .registered | .submitting | .queued =>
      { l with status := status.leg, responseState := .closed }
  | .running => { l with responseState := .closed }
  | .delivered | .failed | .cancelled | .expired => l

/-- `cancel_exchange`. -/
def cancelExchange (exchangeId : String) (status : CancelStatus) : Ledger × Result :=
  match d.exchange? exchangeId with
  | none => (d, .returned none none false)
  | some e =>
      if e.status.terminal then (d, .returned (some e) (d.activeLeg e) false)
      else
        let close (e : Exchange) : Exchange := { e with status := status.exchange }
        let closed := d.setExchange exchangeId close
        match d.activeLeg e with
        | none => (closed, .returned (some (close e)) none true)
        | some l =>
            (closed.setLeg l.id status.close,
              .returned (some (close e)) (some (status.close l)) true)

inductive FinalStatus where
  | delivered
  | failed
  | cancelled
  | expired
  deriving DecidableEq

def FinalStatus.leg : FinalStatus → LegStatus
  | .delivered => .delivered
  | .failed => .failed
  | .cancelled => .cancelled
  | .expired => .expired

/-- The status of an exchange whose leg ends with a status that is not `delivered`. -/
def FinalStatus.exchange? : FinalStatus → Option ExchangeStatus
  | .delivered => none
  | .failed => some .failed
  | .cancelled => some .cancelled
  | .expired => some .expired

/-- A parent whose response is committed does not fail any more. -/
def effectiveStatus (status : FinalStatus) (preserveCommittedResponse : Bool) (l : Leg) :
    FinalStatus :=
  if preserveCommittedResponse = true ∧ status = .failed ∧
      (l.responseState = .explicitCommitted ∨ l.responseState = .automaticCommitted) then
    .delivered
  else status

/-- `finish_exchange_leg`. -/
def finishExchangeLeg (legId : String) (status : FinalStatus)
    (preserveCommittedResponse : Bool) : Ledger × Result :=
  match d.leg? legId with
  | none => (d, .returned none none false)
  | some l =>
      match d.exchange? l.exchangeId with
      | none => (d, .returned none none false)
      | some e =>
          if l.status.terminal then (d, .returned (some e) (some l) false)
          else
            let effective := effectiveStatus status preserveCommittedResponse l
            let finish (l : Leg) : Leg := { l with status := effective.leg }
            if l.kind ≠ .status ∧ e.status = .active then
              match effective.exchange? with
              | some ended =>
                  let close (e : Exchange) : Exchange := { e with status := ended }
                  ((d.setLeg legId finish).setExchange l.exchangeId close,
                    .returned (some (close e)) (some (finish l)) true)
              | none =>
                  if l.responseState = .opened ∧ l.expectsReply = false then
                    let answer (l : Leg) : Leg := { finish l with responseState := .closed }
                    let close (e : Exchange) : Exchange := { e with status := .completed }
                    ((d.setLeg legId answer).setExchange l.exchangeId close,
                      .returned (some (close e)) (some (answer l)) true)
                  else (d.setLeg legId finish, .returned (some e) (some (finish l)) true)
            else (d.setLeg legId finish, .returned (some e) (some (finish l)) true)

structure StatusLeg where
  exchangeId : String
  sourceSessionId : String
  targetSessionId : String
  body : String
  errorCode : String

def StatusLeg.leg (c : StatusLeg) (p : Process) : Leg :=
  { id := p.legId
    exchangeId := c.exchangeId
    parentLegId := none
    ordinal := 0
    sourceSessionId := c.sourceSessionId
    sourceRunId := "status:" ++ c.exchangeId
    sourceOwnerRunId := "status:" ++ c.exchangeId
    targetSessionId := c.targetSessionId
    kind := .status
    expectsReply := false
    responseState := .closed
    body := c.body
    idempotencyKey := "status:" ++ c.errorCode
    status := .registered
    queuedId := none
    targetRunId := none }

/-- `create_exchange_status_leg`. -/
def createExchangeStatusLeg (p : Process) (c : StatusLeg) : Ledger × Result :=
  match d.legs.find? fun l =>
    decide (l.exchangeId = c.exchangeId) && decide (l.kind = .status) with
  | some l => (d, .returned none (some l) false)
  | none =>
      match d.insertLeg (c.leg p) with
      | some d' => (d', .returned none (some (c.leg p)) true)
      | none => (d, .integrityError)

/-! ## Deliveries -/

/-- The statuses that a delivery expects and sets. -/
inductive Delivery where
  | registered
  | submitting
  | queued
  | running
  deriving DecidableEq

def Delivery.leg : Delivery → LegStatus
  | .registered => .registered
  | .submitting => .submitting
  | .queued => .queued
  | .running => .running

/-- What a delivery sets of a leg. -/
structure Patch where
  status : Option Delivery
  queuedId : Option (Option String)
  targetRunId : Option (Option String)

def Patch.apply (patch : Patch) (l : Leg) : Leg :=
  { l with
    status := (patch.status.map Delivery.leg).getD l.status
    queuedId := patch.queuedId.getD l.queuedId
    targetRunId := patch.targetRunId.getD l.targetRunId }

/-- `update_exchange_leg` of a delivery. -/
def updateExchangeLeg (legId : String) (expected : List Delivery) (patch : Patch) :
    Ledger × Result :=
  match d.leg? legId with
  | none => (d, .returned none none false)
  | some l =>
      if l.status ∈ expected.map Delivery.leg then
        (d.setLeg legId patch.apply, .returned none (some (patch.apply l)) true)
      else (d, .returned none none false)

end Ledger

/-! ## Runs -/

inductive Call where
  | createExchangeObligation (c : Ledger.Obligation)
  | createRouteExchangeRequest (c : Ledger.RouteRequest)
  | createInitialExchangeLeg (c : Ledger.InitialLeg)
  | commitExchangeResponse (c : Ledger.Response)
  | downgradeLiveExchange (exchangeId activeLegId expectedInstanceId : String)
  | cancelExactQueuedExchangeLeg (exchangeId legId targetSessionId queuedId : String)
  | cancelExchange (exchangeId : String) (status : Ledger.CancelStatus)
  | finishExchangeLeg (legId : String) (status : Ledger.FinalStatus)
      (preserveCommittedResponse : Bool)
  | createExchangeStatusLeg (c : Ledger.StatusLeg)
  | updateExchangeLeg (legId : String) (expected : List Ledger.Delivery) (patch : Ledger.Patch)

/-- A call, and what its process gives it. -/
structure Action where
  process : Process
  call : Call

def Ledger.step (d : Ledger) (a : Action) : Ledger × Result :=
  match a.call with
  | .createExchangeObligation c => d.createExchangeObligation c
  | .createRouteExchangeRequest c => d.createRouteExchangeRequest a.process c
  | .createInitialExchangeLeg c => d.createInitialExchangeLeg a.process c
  | .commitExchangeResponse c => d.commitExchangeResponse a.process c
  | .downgradeLiveExchange exchangeId activeLegId expectedInstanceId =>
      d.downgradeLiveExchange exchangeId activeLegId expectedInstanceId
  | .cancelExactQueuedExchangeLeg exchangeId legId targetSessionId queuedId =>
      d.cancelExactQueuedExchangeLeg exchangeId legId targetSessionId queuedId
  | .cancelExchange exchangeId status => d.cancelExchange exchangeId status
  | .finishExchangeLeg legId status preserveCommittedResponse =>
      d.finishExchangeLeg legId status preserveCommittedResponse
  | .createExchangeStatusLeg c => d.createExchangeStatusLeg a.process c
  | .updateExchangeLeg legId expected patch => d.updateExchangeLeg legId expected patch

end AgentsServer.Exchanges

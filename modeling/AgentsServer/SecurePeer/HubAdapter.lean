import AgentsServer.Library.Threads
import Mathlib.Data.Rat.Defs
import Mathlib.Algebra.Order.Ring.Unbundled.Rat

/-!
# The Hub adapter of the peer gateway

Requests, attachment streams and hint subscriptions of the peers on one adapter, and the
revocation of a peer. The sections under `_rate_condition`, and those under the locks of
one hint lease, are atomic. A peer is revoked in this order: raise the fence, close the
registered leases, wait for the leases and for the requests, revoke the service, lift
the fence.
-/

namespace AgentsServer.SecurePeer

open Library Threads

inductive RateKind where
  | all
  | write
  | attachment
  deriving DecidableEq

/-- An entry of `_mail_leases`: the token of a subscription, or its lease. -/
inductive Member where
  | token (n : Nat)
  | lease (n : Nat)
  deriving DecidableEq

/-- Who has the writer lock of a lease. -/
inductive Writer where
  | idle
  | entered
  | writing
  deriving DecidableEq

structure HintLease where
  peer : String
  closed : Bool := false
  onClose : Bool := true
  writer : Writer := .idle
  /-- the transport has the lease -/
  returned : Bool := false
  deriving DecidableEq

/-- A lease that is not closed, or whose writer still sends. -/
def HintLease.live (l : HintLease) : Bool := !l.closed || l.writer == .writing

structure Adapter where
  rateEvents : String → RateKind → List ℚ := fun _ _ => []
  inFlight : String → Int := fun _ => 0
  revoking : String → Bool := fun _ => false
  streamAborters : List (String × Nat) := []
  mailLeases : List (String × Member) := []
  leases : Nat → Option HintLease := fun _ => none
  cancelled : List (String × Nat) := []
  nextObject : Nat := 0

structure HubError where
  code : String
  message : String
  status : Nat
  deriving DecidableEq

namespace Adapter

def rateLimits (write attachment : Bool) : List (RateKind × Nat) :=
  if attachment then [(.attachment, 1200)]
  else (.all, 240) :: if write then [(.write, 60)] else []

/-- Charge each limit in turn; an earlier charge stays when a later limit refuses. -/
def charge (a : Adapter) (peer : String) (now : ℚ) : List (RateKind × Nat) → Adapter × Bool
  | [] => (a, true)
  | (kind, limit) :: rest =>
      let events := (a.rateEvents peer kind).dropWhile (· ≤ now - 60)
      let charged (events : List ℚ) : Adapter := { a with
        rateEvents := Function.update a.rateEvents peer
          (Function.update (a.rateEvents peer) kind events) }
      if limit ≤ events.length then (charged events, false)
      else (charged (events ++ [now])).charge peer now rest

def admitRequest (a : Adapter) (peer : String) (now : ℚ) (write attachment : Bool) :
    Adapter × Option HubError :=
  if a.revoking peer then
    (a, some ⟨"forbidden", "Secure peer authorization is being revoked", 403⟩)
  else if 4 ≤ a.inFlight peer then
    (a, some ⟨"rate_limited", "Secure peer has too many concurrent requests", 429⟩)
  else
    match a.charge peer now (rateLimits write attachment) with
    | (a', false) => (a', some ⟨"rate_limited", "Secure peer request limit exceeded", 429⟩)
    | (a', true) =>
        ({ a' with inFlight := Function.update a'.inFlight peer (a.inFlight peer + 1) }, none)

/-- A count that falls to zero leaves the table. -/
def release (a : Adapter) (peer : String) : Adapter :=
  let remaining := a.inFlight peer - 1
  { a with inFlight := Function.update a.inFlight peer (if remaining > 0 then remaining else 0) }

def hints (a : Adapter) (peer : String) : List Member :=
  (a.mailLeases.filter (·.1 = peer)).map Prod.snd

/-- The first section of a subscription. -/
def reserve (a : Adapter) (peer : String) : Adapter × Option HubError :=
  if a.revoking peer then
    (a, some ⟨"forbidden", "Secure peer authorization is being revoked", 403⟩)
  else if 2 ≤ (a.hints peer).length || 64 ≤ a.mailLeases.length then
    (a, some ⟨"rate_limited", "Mail stream capacity reached", 429⟩)
  else
    ({ a with mailLeases := a.mailLeases ++ [(peer, .token a.nextObject)],
              nextObject := a.nextObject + 1 }, none)

/-- The lease takes the place of the token. -/
def register (a : Adapter) (peer : String) (token : Nat) : Adapter :=
  { a with
    mailLeases := a.mailLeases.erase (peer, .token token) ++ [(peer, .lease a.nextObject)]
    leases := Function.update a.leases a.nextObject (some { peer := peer })
    nextObject := a.nextObject + 1 }

def discard (a : Adapter) (peer : String) (member : Member) : Adapter :=
  { a with mailLeases := a.mailLeases.erase (peer, member) }

/-- The section of `authorize`. -/
def authorized (a : Adapter) (peer : String) (lease : Nat) : Bool :=
  !a.revoking peer && decide ((peer, Member.lease lease) ∈ a.mailLeases)

def setLease (a : Adapter) (lease : Nat) (l : HintLease) : Adapter :=
  { a with leases := Function.update a.leases lease (some l) }

def addAborter (a : Adapter) (peer : String) : Adapter :=
  { a with streamAborters := a.streamAborters ++ [(peer, a.nextObject)],
           nextObject := a.nextObject + 1 }

def discardAborter (a : Adapter) (peer : String) (abort : Nat) : Adapter :=
  { a with streamAborters := a.streamAborters.erase (peer, abort) }

def fence (a : Adapter) (peer : String) : Adapter :=
  { a with revoking := Function.update a.revoking peer true }

def lift (a : Adapter) (peer : String) : Adapter :=
  { a with revoking := Function.update a.revoking peer false }

/-- The leases that `close_mail_hint_streams` closes; a token is no lease yet. -/
def registered (a : Adapter) (peer : String) : List Nat :=
  (a.hints peer).filterMap fun
    | .token _ => none
    | .lease n => some n

def aborters (a : Adapter) (peer : String) : List Nat :=
  (a.streamAborters.filter (·.1 = peer)).map Prod.snd

end Adapter

/-- What a section learns from outside: the clock, and whether the code before its end
raised. -/
structure Outside where
  now : ℚ := 0
  raised : Bool := false

/-- Whose close of a lease this is. -/
inductive Closer where
  | transport
  | subscriber
  | revocation (peer : String) (rest : List Nat)
  deriving DecidableEq

/-- Where a call stands. -/
inductive Call where
  /-- `forward` and the hint snapshot -/
  | request (peer : String) (write : Bool)
  | serving (peer : String)
  | releasing (peer : String)
  /-- `forward_attachment` -/
  | attachment (peer : String) (write : Bool)
  | opening (peer : String)
  | opened (peer : String)
  | streaming (peer : String) (abort : Nat)
  | finalizing (peer : String) (abort : Nat)
  /-- `subscribe_team_mail_hints` -/
  | subscribe (peer : String)
  | reserved (peer : String) (token : Nat)
  | leased (peer : String) (token : Nat)
  | registered (peer : String) (lease : Nat)
  | authorized (peer : String) (lease : Nat)
  | unsubscribing (peer : String) (token : Nat)
  /-- `MailHintLease.close` -/
  | closeHint (lease : Nat) (closer : Closer)
  | settleHint (lease : Nat) (closer : Closer)
  | takeHint (lease : Nat) (closer : Closer)
  | retireHint (lease : Nat) (closer : Closer)
  /-- `MailHintLease.write` -/
  | enterWriter (lease : Nat)
  | validateWriter (lease : Nat)
  | validatedWriter (lease : Nat)
  | writingHint (lease : Nat)
  /-- `revoke_peer` -/
  | revoke (peer : String)
  | fenced (peer : String)
  | closingHints (peer : String) (todo : List Nat)
  | awaitingHints (peer : String)
  | draining (peer : String)
  | aborting (peer : String) (todo : List Nat)
  | waiting (peer : String)
  | drained (peer : String)
  | lifting (peer : String) (revoked : Bool)
  | revoked (peer : String)
  | done
  deriving DecidableEq

def Call.start : Call → Bool
  | .request _ _ | .attachment _ _ | .subscribe _ | .closeHint _ .transport | .enterWriter _
  | .revoke _ => true
  | _ => false

/-- After the close of its lease a failed subscription raises; its token left the table
when the lease came in. -/
def Closer.resume : Closer → Call
  | .transport | .subscriber => .done
  | .revocation peer rest => .closingHints peer rest

/-- One section of a call. -/
def proceed (x : Outside) (a : Adapter) : Call → Option (Adapter × Call)
  | .request peer write =>
      match a.admitRequest peer x.now write false with
      | (a', none) => some (a', .serving peer)
      | (a', some _) => some (a', .done)
  -- whatever the Hub answers or raises, the request releases
  | .serving peer => some (a, .releasing peer)
  | .releasing peer => some (a.release peer, .done)
  | .attachment peer write =>
      match a.admitRequest peer x.now write true with
      | (a', none) => some (a', .opening peer)
      | (a', some _) => some (a', .done)
  | .opening peer =>
      -- an upload, an error and an invalid range are answered inline
      if x.raised then some (a, .releasing peer) else some (a, .opened peer)
  | .opened peer =>
      if a.revoking peer then some (a, .releasing peer)
      else some (a.addAborter peer, .streaming peer a.nextObject)
  -- the gateway calls the finalizer; a second call of it returns at once
  | .streaming peer abort => some (a, .finalizing peer abort)
  | .finalizing peer abort => some (a.discardAborter peer abort, .releasing peer)
  | .subscribe peer =>
      match a.reserve peer with
      | (a', none) => some (a', .reserved peer a.nextObject)
      | (a', some _) => some (a', .done)
  | .reserved peer token =>
      if x.raised then some (a, .unsubscribing peer token) else some (a, .leased peer token)
  | .leased peer token => some (a.register peer token, .registered peer a.nextObject)
  | .registered peer lease =>
      if x.raised || !a.authorized peer lease then some (a, .closeHint lease .subscriber)
      else some (a, .authorized peer lease)
  | .authorized _ lease =>
      match a.leases lease with
      | none => none
      | some l =>
          if x.raised || l.closed then some (a, .closeHint lease .subscriber)
          else some (a.setLease lease { l with returned := true }, .done)
  | .unsubscribing peer token => some (a.discard peer (.token token), .done)
  | .closeHint lease closer =>
      match a.leases lease with
      | none => none
      | some l =>
          if closer = .transport && !l.returned then none
          else some (a.setLease lease { l with closed := true }, .settleHint lease closer)
  | .settleHint lease closer =>
      match a.leases lease with
      | none => none
      | some l => if l.writer = .idle then some (a, .takeHint lease closer) else none
  | .takeHint lease closer =>
      match a.leases lease with
      | none => none
      | some l =>
          -- the first closer retires the lease
          if l.onClose then
            some (a.setLease lease { l with onClose := false }, .retireHint lease closer)
          else some (a, closer.resume)
  | .retireHint lease closer =>
      match a.leases lease with
      | none => none
      | some l => some (a.discard l.peer (.lease lease), closer.resume)
  | .enterWriter lease =>
      match a.leases lease with
      | none => none
      | some l =>
          if l.returned && l.writer = .idle then
            some (a.setLease lease { l with writer := .entered }, .validateWriter lease)
          else none
  | .validateWriter lease =>
      match a.leases lease with
      | none => none
      | some l =>
          if x.raised || !a.authorized l.peer lease then
            some (a.setLease lease { l with writer := .idle }, .done)
          else some (a, .validatedWriter lease)
  | .validatedWriter lease =>
      match a.leases lease with
      | none => none
      | some l =>
          if l.closed then some (a.setLease lease { l with writer := .idle }, .done)
          else some (a.setLease lease { l with writer := .writing }, .writingHint lease)
  | .writingHint lease =>
      match a.leases lease with
      | none => none
      | some l => some (a.setLease lease { l with writer := .idle }, .done)
  | .revoke peer => some (a.fence peer, .fenced peer)
  | .fenced peer => some (a, .closingHints peer (a.registered peer))
  | .closingHints peer [] => some (a, .awaitingHints peer)
  | .closingHints peer (lease :: rest) =>
      some (a, .closeHint lease (.revocation peer rest))
  | .awaitingHints peer => if a.hints peer = [] then some (a, .draining peer) else none
  | .draining peer =>
      if a.inFlight peer ≤ 0 then some (a, .drained peer)
      else some (a, .aborting peer (a.aborters peer))
  | .aborting peer [] => some (a, .waiting peer)
  | .aborting peer (abort :: rest) =>
      some ({ a with cancelled := (peer, abort) :: a.cancelled }, .aborting peer rest)
  | .waiting peer => some (a, .draining peer)
  -- the service is revoked in the store, or the store raises
  | .drained peer => some (a, .lifting peer !x.raised)
  | .lifting peer revoked =>
      some (a.lift peer, if revoked then .revoked peer else .done)
  | .revoked _ => none
  | .done => none

/-- A request or a stream of the peer that is admitted and not released. -/
def Call.holds (peer : String) : Call → Bool
  | .serving p | .releasing p | .opening p | .opened p | .streaming p _ | .finalizing p _ =>
      p == peer
  | _ => false

/-- A subscription of the peer that still holds a token. -/
def Call.subscribing (peer : String) (token : Nat) : Call → Bool
  | .reserved p n | .leased p n | .unsubscribing p n => p == peer && n == token
  | _ => false

abbrev Hub := World Adapter Call

def Hub.start : Hub := ⟨{}, []⟩

def advance (w : Hub) (m : Move Call Outside) : Hub × Option (Turn Call) :=
  Threads.step Call.start proceed w m

end AgentsServer.SecurePeer

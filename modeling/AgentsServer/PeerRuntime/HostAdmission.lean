import AgentsServer.Library.Threads

/-!
# Admission to the Hub of a host

Forwarded peer requests and local store operations are admitted under the
`_peer_admission` lock and counted until they end. Maintenance, demotion, listener
changes and shutdown close the admission and wait for the counters; a reopen may name
the epoch of the close it undoes. The attachment of a Hub opens the admission too, when
the Hub is new and the epoch has not moved since the attachment began.
-/

namespace AgentsServer.PeerRuntime

open Library Threads

/-- What the `_peer_admission` lock guards. -/
structure Gate where
  peerAccepting : Bool := false
  peerInFlight : Int := 0
  hostAdmissionClosed : Bool := false
  hostAdmissionEpoch : Nat := 0
  hostInFlight : Int := 0
  deriving DecidableEq

/-- Which of the other locks are held. -/
structure Locks where
  guard : Bool := false
  outboundGuard : Bool := false
  hostConfigurationGuard : Bool := false
  deriving DecidableEq

structure HostConfig where
  enabled : Bool
  advertisedHost : Option String
  listenPort : Nat
  deriving DecidableEq

/-- A Hub store is known by its object identity, a gateway by its address. -/
structure Manager where
  gate : Gate := {}
  locks : Locks := {}
  config : HostConfig
  completionClosing : Bool := false
  hubStore : Option Nat := none
  hostStore : Bool := false
  adapter : Bool := false
  gateway : Option (String × Nat) := none
  pendingHostAttachment : Option Nat := none
  hostErrorCode : Option String := none
  deriving DecidableEq

def addressUnavailable : String := "secure_peer_host_address_unavailable"

namespace Gate

def admitPeer (g : Gate) : Gate :=
  { g with peerInFlight := g.peerInFlight + 1 }

def releasePeer (g : Gate) : Gate :=
  { g with peerInFlight := max 0 (g.peerInFlight - 1) }

def admitHost (g : Gate) : Gate :=
  { g with hostInFlight := g.hostInFlight + 1 }

def releaseHost (g : Gate) : Gate :=
  { g with hostInFlight := g.hostInFlight - 1 }

/-- The first section of `_close_host_admission`. -/
def close (g : Gate) : Gate :=
  { g with hostAdmissionEpoch := g.hostAdmissionEpoch + 1,
           hostAdmissionClosed := true, peerAccepting := false }

def drained (g : Gate) : Bool :=
  g.peerInFlight == 0 && g.hostInFlight == 0

end Gate

namespace Manager

def reopenHostAdmission (m : Manager) (expectedEpoch : Option Nat) : Manager :=
  if expectedEpoch.any (· != m.gate.hostAdmissionEpoch) then m
  else
    let localReady := m.hubStore.isSome && !m.completionClosing
    { m with gate := { m.gate with
        hostAdmissionEpoch := m.gate.hostAdmissionEpoch + 1
        hostAdmissionClosed := !localReady
        peerAccepting := localReady && m.adapter && m.gateway.isSome } }

/-- A newly committed Host role may replace a detached one. -/
def resumeAdmission (m : Manager) (newHostStore resume : Bool) (attachmentEpoch : Nat) :
    Manager :=
  if newHostStore && resume && m.gate.hostAdmissionEpoch == attachmentEpoch
      && !m.completionClosing then
    { m with gate := { m.gate with hostAdmissionClosed := false } }
  else m

def acceptPeers (m : Manager) : Manager :=
  { m with gate := { m.gate with
      peerAccepting := m.gateway.isSome && !m.gate.hostAdmissionClosed } }

/-- Whether an attachment of the same Hub has nothing left to do. -/
def attachmentComplete (m : Manager) (store : Nat) : Bool :=
  m.hubStore == some store && m.hostStore && m.adapter && m.hostErrorCode.isNone
    && (!m.config.enabled || m.gateway.isSome)

def withLocks (m : Manager) (locks : Locks) : Manager :=
  { m with locks := locks }

def lock (m : Manager) : Manager :=
  { m with locks := { m.locks with guard := true } }

def lockOutbound (m : Manager) : Manager :=
  { m with locks := { m.locks with outboundGuard := true } }

/-- An attachment or a detachment leaves both locks. -/
def unlockOutbound (m : Manager) : Manager :=
  { m with locks := { m.locks with guard := false, outboundGuard := false } }

def lockConfiguration (m : Manager) : Manager :=
  { m with locks := { m.locks with hostConfigurationGuard := true } }

def unlockConfiguration (m : Manager) : Manager :=
  { m with locks := { m.locks with guard := false, hostConfigurationGuard := false } }

end Manager

/-- What the code outside a section does: it raises, it returns, or it returns a stream
whose release is deferred. -/
inductive Answer where
  | raised
  | addressVanished
  | returned
  | streamed
  deriving DecidableEq

/-- Whose close this is. -/
inductive Closer where
  | maintenance
  | configuration (next : HostConfig) (recoveringAddress : Bool)
  | detachment (store : Nat)
  | shutdown
  deriving DecidableEq

/-- An attachment stands alone, or is the retry a configuration begins with. -/
structure Attachment where
  store : Nat
  resumeAdmission : Bool
  retryFor : Option HostConfig
  newHostStore : Bool := false
  attachmentEpoch : Nat := 0
  deriving DecidableEq

/-- Where a call stands. -/
inductive Call where
  | peerRequest
  | peerAdmitted
  | peerForwarding
  | peerReleasing
  | peerStreaming
  | peerFinalizing
  | peerFinalized
  | hostOperation
  | hostAdmitted
  | hostWorking
  | hostReleasing
  | closing (closer : Closer)
  | draining (epoch : Nat) (wasClosed : Bool) (closer : Closer)
  | closed (epoch : Nat) (wasClosed : Bool) (closer : Closer)
  | reopening (expectedEpoch : Option Nat)
  | attach (a : Attachment)
  | attachLocked (a : Attachment)
  | attachProvision (a : Attachment)
  | attachInstall (a : Attachment)
  | attachResume (a : Attachment)
  | attachReplay (a : Attachment)
  | attachGateway (a : Attachment)
  | attachAccept (a : Attachment)
  | attachFailed (a : Attachment) (addressVanished : Bool)
  | configure (next : HostConfig)
  | configureRetry (next : HostConfig)
  | configureCheck (next : HostConfig)
  | rebinding (epoch : Nat) (wasClosed : Bool) (next : HostConfig) (recoveringAddress : Bool)
      (oldGateway : Option (String × Nat))
  | restoring (epoch : Nat) (wasClosed : Bool) (oldGateway : Option (String × Nat))
  | rebound (epoch : Nat) (wasClosed : Bool)
  | detach (store : Nat)
  | shutdown
  | done
  deriving DecidableEq

/-- What a caller outside may begin. -/
def Call.start : Call → Bool
  | .peerRequest | .hostOperation | .closing .maintenance | .reopening _ | .configure _
  | .detach _ | .shutdown => true
  | .attach a => a.retryFor.isNone
  | _ => false

/-- After an attachment the caller returns, or its configuration goes on. -/
def Attachment.after (a : Attachment) : Call :=
  match a.retryFor with
  | none => .done
  | some next => .configureCheck next

/-- One section of a call. -/
def proceed (answer : Answer) (m : Manager) : Call → Option (Manager × Call)
  | .peerRequest =>
      if m.gate.peerAccepting then some ({ m with gate := m.gate.admitPeer }, .peerAdmitted)
      else some (m, .done)
  | .peerAdmitted =>
      if m.locks.guard then none
      else if m.adapter && m.hubStore.isSome then some (m, .peerForwarding)
      else some (m, .peerReleasing)
  | .peerForwarding =>
      -- the control lock, the fence and the adapter
      match answer with
      | .streamed => some (m, .peerStreaming)
      | _ => some (m, .peerReleasing)
  | .peerReleasing => some ({ m with gate := m.gate.releasePeer }, .done)
  | .peerStreaming => some (m, .peerFinalizing)
  | .peerFinalizing => some ({ m with gate := m.gate.releasePeer }, .peerFinalized)
  -- a later call of the finalizer returns at once
  | .peerFinalized => some (m, .peerFinalized)
  | .hostOperation =>
      if m.gate.hostAdmissionClosed || m.completionClosing then some (m, .done)
      else some ({ m with gate := m.gate.admitHost }, .hostAdmitted)
  | .hostAdmitted =>
      if m.locks.guard then none
      else if m.hubStore.isNone || answer == .raised then some (m, .hostReleasing)
      else some (m, .hostWorking)
  | .hostWorking => some (m, .hostReleasing)
  | .hostReleasing => some ({ m with gate := m.gate.releaseHost }, .done)
  | .closing closer =>
      some ({ m with gate := m.gate.close },
        .draining (m.gate.hostAdmissionEpoch + 1) m.gate.hostAdmissionClosed closer)
  | .draining epoch wasClosed closer =>
      if m.gate.drained then some (m, .closed epoch wasClosed closer) else none
  | .closed _ _ .maintenance => none
  | .closed epoch wasClosed (.configuration next recoveringAddress) =>
      if m.locks.guard then none
      else some ({ m.lock with gateway := none },
        .rebinding epoch wasClosed next recoveringAddress m.gateway)
  | .closed _ _ (.detachment store) =>
      if m.locks.guard then none
      else if (m.hubStore.any (· != store)) || m.pendingHostAttachment.any (· != store) then
        some (m.unlockOutbound, .done)
      else some ({ m.unlockOutbound with
        gateway := none, hubStore := none, hostStore := false, adapter := false,
        pendingHostAttachment := none, hostErrorCode := none }, .done)
  | .closed _ _ .shutdown =>
      if m.locks.guard then none else some ({ m with gateway := none }, .done)
  | .reopening expectedEpoch =>
      if m.locks.guard then none else some (m.reopenHostAdmission expectedEpoch, .done)
  | .attach a =>
      if m.locks.outboundGuard then none else some (m.lockOutbound, .attachLocked a)
  | .attachLocked a =>
      if m.locks.guard then none
      else if m.hubStore.any (· != a.store) then some (m.unlockOutbound, .attachFailed a false)
      else some ({ m.lock with pendingHostAttachment := some a.store },
        .attachProvision { a with newHostStore := m.hubStore.isNone,
                                  attachmentEpoch := m.gate.hostAdmissionEpoch })
  | .attachProvision a =>
      if answer == .raised then some (m.unlockOutbound, .attachFailed a false)
      else if m.attachmentComplete a.store then
        some ({ m.unlockOutbound with pendingHostAttachment := none }, a.after)
      else some (m, .attachInstall a)
  | .attachInstall a =>
      -- the peer store, its consent and the reconciliation of logical peers
      if answer == .raised then some (m.unlockOutbound, .attachFailed a false)
      else some ({ m with hubStore := some a.store, hostStore := true, adapter := true },
        .attachResume a)
  | .attachResume a =>
      some (m.resumeAdmission a.newHostStore a.resumeAdmission a.attachmentEpoch,
        .attachReplay a)
  | .attachReplay a =>
      -- revocations, then bindings
      if answer == .raised then some (m.unlockOutbound, .attachFailed a false)
      else if m.config.enabled then some ({ m with hostErrorCode := none }, .attachGateway a)
      else some ({ m with hostErrorCode := none }, .attachAccept a)
  | .attachGateway a =>
      match answer with
      | .raised => some (m.unlockOutbound, .attachFailed a false)
      | .addressVanished =>
          some ({ m.unlockOutbound with hostErrorCode := some addressUnavailable },
            .attachFailed a true)
      | _ =>
          some ({ m with gateway := m.config.advertisedHost.map (·, m.config.listenPort) },
            .attachAccept a)
  | .attachAccept a =>
      some ({ m.acceptPeers.unlockOutbound with pendingHostAttachment := none }, a.after)
  | .attachFailed a addressVanished =>
      match a.retryFor with
      | none => some (m, .done)
      | some next =>
          if m.locks.guard then none
          else if addressVanished then some (m, .configureCheck next)
          else some ({ m with
            hostErrorCode := some "secure_peer_host_initialization_failed" },
            .configureCheck next)
  | .configure next =>
      if m.locks.hostConfigurationGuard then none
      else if next.enabled != next.advertisedHost.isSome then some (m, .done)
      else if next.enabled then some (m.lockConfiguration, .configureRetry next)
      else some (m.lockConfiguration, .configureCheck next)
  | .configureRetry next =>
      if m.locks.guard then none
      else match m.pendingHostAttachment with
        | none => some (m, .configureCheck next)
        | some store => some (m, .attach ⟨store, false, some next, false, 0⟩)
  | .configureCheck next =>
      if m.locks.guard then none
      else
        let recoveringAddress := m.hostErrorCode == some addressUnavailable
        if next.enabled && (!m.hostStore || !m.adapter
            || (m.hostErrorCode.isSome && !recoveringAddress)) then
          some (m.unlockConfiguration, .done)
        else if next.enabled && m.gateway.isSome
            && m.gateway == next.advertisedHost.map (·, next.listenPort) then
          some (m.unlockConfiguration, .done)
        else some (m, .closing (.configuration next recoveringAddress))
  | .rebinding epoch wasClosed next recoveringAddress oldGateway =>
      if answer == .raised || answer == .addressVanished then
        some (m, .restoring epoch wasClosed oldGateway)
      else
        let bound := if next.enabled
          then next.advertisedHost.map (·, next.listenPort) else none
        some ({ m with
          config := next, gateway := bound, hostErrorCode := none,
          pendingHostAttachment :=
            if recoveringAddress then none else m.pendingHostAttachment },
          .rebound epoch wasClosed)
  | .restoring epoch wasClosed oldGateway =>
      if oldGateway.isSome && m.hostStore && m.adapter then
        if answer == .raised || answer == .addressVanished then
          some ({ m with
            gateway := none,
            pendingHostAttachment :=
              if m.hubStore.isSome then m.hubStore else m.pendingHostAttachment,
            hostErrorCode := if answer == .raised then some "secure_peer_host_listener_failed"
              else some addressUnavailable }, .rebound epoch wasClosed)
        else
          some ({ m with
            gateway := m.config.advertisedHost.map (·, m.config.listenPort) },
            .rebound epoch wasClosed)
      else some ({ m with gateway := none }, .rebound epoch wasClosed)
  | .rebound epoch wasClosed =>
      if wasClosed then some (m.unlockConfiguration, .done)
      else some ((m.reopenHostAdmission (some epoch)).unlockConfiguration, .done)
  | .detach store =>
      if m.locks.outboundGuard then none
      else some (m.lockOutbound, .closing (.detachment store))
  | .shutdown => some ({ m with completionClosing := true }, .closing .shutdown)
  | .done => none

/-- A peer request or stream that is admitted and not released. -/
def Call.holdsPeer : Call → Bool
  | .peerAdmitted | .peerForwarding | .peerReleasing | .peerStreaming | .peerFinalizing => true
  | _ => false

/-- A local store operation that is admitted and not released. -/
def Call.holdsHost : Call → Bool
  | .hostAdmitted | .hostWorking | .hostReleasing => true
  | _ => false

def Call.holds (c : Call) : Bool := c.holdsPeer || c.holdsHost

abbrev Process := World Manager Call

def Process.start (config : HostConfig) : Process := ⟨{ config := config }, []⟩

def advance (w : Process) (m : Move Call Answer) : Process × Option (Turn Call) :=
  Threads.step Call.start proceed w m

end AgentsServer.PeerRuntime

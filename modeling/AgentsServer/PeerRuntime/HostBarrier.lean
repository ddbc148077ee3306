import AgentsServer.PeerRuntime.HostAdmission

/-!
# Closing the admission is a barrier

What one section does to the admission and its counters is said once (`GateEffect`). The
counters are exact in every reachable state, so a close that returns has drained every
admitted operation. From its first section on nothing is admitted until an event opens
the admission.
-/

namespace AgentsServer.PeerRuntime

open Library Threads

/-- The epoch that the reopen of a call names, if the call stands before one. -/
def Call.reopens : Call → Option (Option Nat)
  | .reopening expectedEpoch => some expectedEpoch
  | .rebound epoch false => some (some epoch)
  | _ => none

/-- What a section does to the admission. -/
inductive GateEffect (m : Manager) : Call → Gate → Call → Prop where
  | still (t t') : t'.holdsPeer = t.holdsPeer → t'.holdsHost = t.holdsHost →
      GateEffect m t m.gate t'
  | admitPeer : m.gate.peerAccepting = true →
      GateEffect m .peerRequest m.gate.admitPeer .peerAdmitted
  | releasePeer (t t') : t.holdsPeer = true → t'.holdsPeer = false →
      t.holdsHost = false → t'.holdsHost = false → GateEffect m t m.gate.releasePeer t'
  | admitHost : m.gate.hostAdmissionClosed = false →
      GateEffect m .hostOperation m.gate.admitHost .hostAdmitted
  | releaseHost (t t') : t.holdsHost = true → t'.holdsHost = false →
      t.holdsPeer = false → t'.holdsPeer = false → GateEffect m t m.gate.releaseHost t'
  | close (closer) : GateEffect m (.closing closer) m.gate.close
      (.draining (m.gate.hostAdmissionEpoch + 1) m.gate.hostAdmissionClosed closer)
  | drained (epoch wasClosed closer) : m.gate.drained = true →
      GateEffect m (.draining epoch wasClosed closer) m.gate (.closed epoch wasClosed closer)
  | reopen (t expected) : t.reopens = some expected →
      GateEffect m t (m.reopenHostAdmission expected).gate .done
  | resume (a) : GateEffect m (.attachResume a)
      (m.resumeAdmission a.newHostStore a.resumeAdmission a.attachmentEpoch).gate
      (.attachReplay a)
  | accept (a) : GateEffect m (.attachAccept a) m.acceptPeers.gate a.after

@[simp] theorem Attachment.after_holdsPeer (a : Attachment) : a.after.holdsPeer = false := by
  unfold Attachment.after
  split <;> rfl

@[simp] theorem Attachment.after_holdsHost (a : Attachment) : a.after.holdsHost = false := by
  unfold Attachment.after
  split <;> rfl

/-- Every section has one of the effects. -/
theorem proceed_effect {answer : Answer} {m m' : Manager} {t t' : Call}
    (h : proceed answer m t = some (m', t')) : GateEffect m t m'.gate t' := by
  -- a section that leaves the admission alone
  have still : ∀ {m₁ : Manager} {t₁ : Call}, some (m₁, t₁) = some (m', t') →
      m₁.gate = m.gate → t₁.holdsPeer = t.holdsPeer → t₁.holdsHost = t.holdsHost →
      GateEffect m t m'.gate t' := by
    intro m₁ t₁ heq hgate hpeer hhost
    obtain ⟨rfl, rfl⟩ := Prod.mk.inj (Option.some.inj heq)
    rw [hgate]
    exact .still _ _ hpeer hhost
  cases t with
  | peerRequest =>
      simp only [proceed] at h
      split at h
      · cases h
        exact .admitPeer ‹_›
      · exact still h rfl rfl rfl
  | peerReleasing =>
      cases h
      exact .releasePeer _ _ rfl rfl rfl rfl
  | peerFinalizing =>
      cases h
      exact .releasePeer _ _ rfl rfl rfl rfl
  | hostOperation =>
      simp only [proceed] at h
      split at h
      · exact still h rfl rfl rfl
      · rename_i hopen
        cases h
        exact .admitHost (by simp_all)
  | hostReleasing =>
      cases h
      exact .releaseHost _ _ rfl rfl rfl rfl
  | closing closer =>
      cases h
      exact .close closer
  | draining epoch wasClosed closer =>
      simp only [proceed] at h
      split at h
      · cases h
        exact .drained epoch wasClosed closer ‹_›
      · cases h
  | reopening expectedEpoch =>
      simp only [proceed] at h
      split at h
      · cases h
      · cases h
        exact .reopen _ expectedEpoch rfl
  | attachResume a =>
      cases h
      exact .resume a
  | attachAccept a =>
      cases h
      exact .accept a
  | rebound epoch wasClosed =>
      cases wasClosed with
      | true => exact still h rfl rfl rfl
      | false =>
          cases h
          exact .reopen (.rebound epoch false) (some epoch) rfl
  | peerStreaming | peerFinalized | hostWorking | shutdown => exact still h rfl rfl rfl
  | done => cases h
  | attachProvision a =>
      simp only [proceed] at h
      split at h
      · exact still h rfl rfl rfl
      · split at h
        · exact still h rfl a.after_holdsPeer a.after_holdsHost
        · exact still h rfl rfl rfl
  | closed epoch wasClosed closer =>
      cases closer <;> simp only [proceed] at h
      case maintenance => cases h
      all_goals
        split at h
        · cases h
        · first
          | exact still h rfl rfl rfl
          | split at h
            · exact still h rfl rfl rfl
            · exact still h rfl rfl rfl
  | peerAdmitted | peerForwarding | hostAdmitted | attach | attachLocked | attachInstall
  | attachReplay | attachGateway | attachFailed | configure | configureRetry | configureCheck
  | rebinding | restoring | detach =>
      simp only [proceed] at h
      repeat' split at h
      all_goals first
        | exact still h rfl rfl rfl
        | cases h

namespace Manager

variable (m : Manager)

theorem reopenHostAdmission_counters (expected : Option Nat) :
    (m.reopenHostAdmission expected).gate.peerInFlight = m.gate.peerInFlight ∧
      (m.reopenHostAdmission expected).gate.hostInFlight = m.gate.hostInFlight := by
  unfold reopenHostAdmission
  split <;> exact ⟨rfl, rfl⟩

theorem resumeAdmission_counters (newHostStore resume : Bool) (epoch : Nat) :
    (m.resumeAdmission newHostStore resume epoch).gate.peerInFlight = m.gate.peerInFlight ∧
      (m.resumeAdmission newHostStore resume epoch).gate.hostInFlight =
        m.gate.hostInFlight := by
  unfold resumeAdmission
  split <;> exact ⟨rfl, rfl⟩

/-- A reopen that names a past epoch changes nothing. -/
theorem reopenHostAdmission_stale {k : Nat} (h : k ≠ m.gate.hostAdmissionEpoch) :
    m.reopenHostAdmission (some k) = m := by
  unfold reopenHostAdmission
  rw [if_pos (by simpa using h)]

end Manager

theorem Call.holds_of_reopens {t : Call} {expected : Option Nat}
    (h : t.reopens = some expected) : t.holdsPeer = false ∧ t.holdsHost = false := by
  unfold Call.reopens at h
  split at h
  · exact ⟨rfl, rfl⟩
  · exact ⟨rfl, rfl⟩
  · cases h

section Counters

variable {m : Manager} {t t' : Call} {g : Gate}

theorem GateEffect.peer_balanced (h : GateEffect m t g t')
    (held : t.holdsPeer = true → 1 ≤ m.gate.peerInFlight) :
    g.peerInFlight + (if t.holdsPeer then 1 else 0) =
      m.gate.peerInFlight + (if t'.holdsPeer then 1 else 0) := by
  cases h with
  | still _ _ hpeer _ => rw [hpeer]
  | admitPeer => simp [Gate.admitPeer, Call.holdsPeer]
  | releasePeer _ _ hleft hreached =>
      have hone := held hleft
      simp only [hleft, hreached, Gate.releasePeer, if_true]
      simp
      omega
  | admitHost => simp [Gate.admitHost, Call.holdsPeer]
  | releaseHost _ _ _ _ hleft hreached => simp [hleft, hreached, Gate.releaseHost]
  | close => simp [Gate.close, Call.holdsPeer]
  | drained => simp [Call.holdsPeer]
  | reopen _ expected hreopens =>
      rw [(m.reopenHostAdmission_counters expected).1, (Call.holds_of_reopens hreopens).1]
      rfl
  | resume a =>
      rw [(m.resumeAdmission_counters _ _ _).1]
      rfl
  | accept a =>
      rw [Attachment.after_holdsPeer]
      rfl

theorem GateEffect.host_balanced (h : GateEffect m t g t') :
    g.hostInFlight + (if t.holdsHost then 1 else 0) =
      m.gate.hostInFlight + (if t'.holdsHost then 1 else 0) := by
  cases h with
  | still _ _ _ hhost => rw [hhost]
  | admitPeer => simp [Gate.admitPeer, Call.holdsHost]
  | releasePeer _ _ _ _ hleft hreached => simp [hleft, hreached, Gate.releasePeer]
  | admitHost => simp [Gate.admitHost, Call.holdsHost]
  | releaseHost _ _ hleft hreached => simp [hleft, hreached, Gate.releaseHost]
  | close => simp [Gate.close, Call.holdsHost]
  | drained => simp [Call.holdsHost]
  | reopen _ expected hreopens =>
      rw [(m.reopenHostAdmission_counters expected).2, (Call.holds_of_reopens hreopens).2]
      rfl
  | resume a =>
      rw [(m.resumeAdmission_counters _ _ _).2]
      rfl
  | accept a =>
      rw [Attachment.after_holdsHost]
      rfl

end Counters

def Manager.peersInFlight (m : Manager) : Int := m.gate.peerInFlight

def Manager.hostsInFlight (m : Manager) : Int := m.gate.hostInFlight

/-- Both counters are the number of admitted, unreleased operations. -/
structure Counted (w : Process) : Prop where
  peers : Exact Manager.peersInFlight Call.holdsPeer w
  hosts : Exact Manager.hostsInFlight Call.holdsHost w

theorem Counted.start (config : HostConfig) : Counted (Process.start config) :=
  ⟨rfl, rfl⟩

theorem Call.start_holds {t : Call} (h : t.start = true) :
    t.holdsPeer = false ∧ t.holdsHost = false := by
  cases t <;> first | exact ⟨rfl, rfl⟩ | cases h

theorem Counted.step (w : Process) (m : Move Call Answer) (h : Counted w) :
    Counted (advance w m).1 where
  peers := Exact.step Manager.peersInFlight Call.holdsPeer (fun _ ht => (Call.start_holds ht).1)
    (fun _ _ _ _ _ hc held _ => (proceed_effect hc).peer_balanced held) w m h.peers
  hosts := Exact.step Manager.hostsInFlight Call.holdsHost (fun _ ht => (Call.start_holds ht).2)
    (fun _ _ _ _ _ hc _ _ => (proceed_effect hc).host_balanced) w m h.hosts

theorem Counted.run (config : HostConfig) (acts : List (Move Call Answer)) :
    Counted (Runs.run advance (Process.start config) acts) :=
  Runs.run_invariant _ Counted.step _ (Counted.start config) acts

/-- Drained counters leave no admitted operation. -/
theorem Counted.idle {w : Process} (h : Counted w) (drained : w.shared.gate.drained = true) :
    ∀ t ∈ w.threads, t.holds = false := by
  simp only [Gate.drained, Bool.and_eq_true, beq_iff_eq] at drained
  intro t ht
  have hpeer := h.peers.zero_iff.mp drained.1 t ht
  have hhost := h.hosts.zero_iff.mp drained.2 t ht
  simp [Call.holds, hpeer, hhost]

/-- One event of a run, with the state after it. -/
abbrev Event := Runs.Event Process (Move Call Answer) (Option (Turn Call))

namespace Event

variable (e : Event)

def after : Process := (advance e.before e.action).1

/-- A request or a store operation is admitted. -/
def Admits : Prop :=
  ∃ r, e.outcome = some r ∧ r.left.holds = false ∧ r.reached.holds = true

/-- The first section of a close. -/
def Closes : Prop := ∃ closer reached, e.outcome = some ⟨.closing closer, reached⟩

/-- A close has drained the admission and returns. -/
def CloseReturns : Prop :=
  ∃ epoch wasClosed closer,
    e.outcome = some ⟨.draining epoch wasClosed closer, .closed epoch wasClosed closer⟩

/-- A reopen with an expected epoch, or without one. -/
def Reopens (expectedEpoch : Option Nat) : Prop :=
  ∃ r, e.outcome = some r ∧ r.left.reopens = some expectedEpoch

/-- A reopen that is unconditional or names the current epoch. -/
def NamedReopen : Prop :=
  ∃ expected, Reopens e expected ∧
    (expected = none ∨ expected = some e.before.shared.gate.hostAdmissionEpoch)

/-- The attachment of a new Hub whose epoch has not moved since it began. -/
def Resumes : Prop :=
  ∃ a reached, e.outcome = some ⟨.attachResume a, reached⟩ ∧ a.newHostStore = true ∧
    a.resumeAdmission = true ∧ a.attachmentEpoch = e.before.shared.gate.hostAdmissionEpoch

def Opens : Prop := NamedReopen e ∨ Resumes e

end Event

/-- Neither a peer nor a local operation is admitted. -/
def Shut (g : Gate) : Prop := g.hostAdmissionClosed = true ∧ g.peerAccepting = false

theorem GateEffect.shut {m : Manager} {t t' : Call} {g : Gate} (h : GateEffect m t g t')
    (shut : Shut m.gate)
    (reopen : ∀ expected, t.reopens = some expected →
      ∃ k, expected = some k ∧ k ≠ m.gate.hostAdmissionEpoch)
    (resume : ∀ a, t = .attachResume a → a.newHostStore = true → a.resumeAdmission = true →
      a.attachmentEpoch ≠ m.gate.hostAdmissionEpoch) :
    Shut g ∧ (t.holds = true ∨ t'.holds = false) := by
  cases h with
  | still _ _ hpeer hhost =>
      refine ⟨shut, ?_⟩
      simp only [Call.holds, hpeer, hhost]
      cases t.holdsPeer || t.holdsHost <;> simp
  | admitPeer hopen => simp [shut.2] at hopen
  | releasePeer _ _ hleft =>
      exact ⟨shut, .inl (by simp [Call.holds, hleft])⟩
  | admitHost hopen => simp [shut.1] at hopen
  | releaseHost _ _ hleft =>
      exact ⟨shut, .inl (by simp [Call.holds, hleft])⟩
  | close => exact ⟨⟨rfl, rfl⟩, .inr rfl⟩
  | drained => exact ⟨shut, .inr rfl⟩
  | reopen _ expected hreopens =>
      obtain ⟨k, rfl, hstale⟩ := reopen expected hreopens
      rw [m.reopenHostAdmission_stale hstale]
      exact ⟨shut, .inr rfl⟩
  | resume a =>
      have hsame : m.resumeAdmission a.newHostStore a.resumeAdmission a.attachmentEpoch = m := by
        unfold Manager.resumeAdmission
        apply if_neg
        simp only [Bool.and_eq_true, beq_iff_eq, not_and]
        intro hfresh
        exact absurd hfresh.2.symm (resume a rfl hfresh.1.1 hfresh.1.2)
      rw [hsame]
      exact ⟨shut, .inr rfl⟩
  | accept a =>
      refine ⟨⟨shut.1, ?_⟩, .inr (by simp [Call.holds])⟩
      simp [Manager.acceptPeers, shut.1]

/-- The section of a reopen. -/
theorem proceed_reopens {answer : Answer} {m m' : Manager} {t t' : Call}
    {expected : Option Nat} (hreopens : t.reopens = some expected)
    (h : proceed answer m t = some (m', t')) :
    t' = .done ∧ m' = (m.reopenHostAdmission expected).withLocks m'.locks := by
  unfold Call.reopens at hreopens
  split at hreopens
  · cases hreopens
    simp only [proceed] at h
    split at h
    · cases h
    · cases h
      exact ⟨rfl, rfl⟩
  · cases hreopens
    cases h
    exact ⟨rfl, rfl⟩
  · cases hreopens

section Runs

variable {w : Process} {move : Move Call Answer}

/-- The event of one move. -/
def eventAt (w : Process) (move : Move Call Answer) : Event := ⟨w, move, (advance w move).2⟩

theorem advance_turn {r : Turn Call} (h : (advance w move).2 = some r) :
    ∃ answer m', proceed answer w.shared r.left = some (m', r.reached) ∧
      (advance w move).1.shared = m' ∧ ∃ i, w.threads[i]? = some r.left ∧
      (advance w move).1.threads = w.threads.set i r.reached := by
  obtain ⟨i, answer, m', -, ht, hc, hw⟩ := step_turn h
  unfold advance
  rw [hw]
  exact ⟨answer, m', hc, rfl, i, ht, rfl⟩

/-- A move without a section leaves the shared state alone. -/
theorem advance_idle (h : (advance w move).2 = none) : (advance w move).1.shared = w.shared := by
  have hmoves := step_moves Call.start proceed w move
  change Moves Call.start proceed w move (advance w move).1 (advance w move).2 at hmoves
  rw [h] at hmoves
  generalize (advance w move).1 = w' at hmoves
  cases hmoves with
  | idle => rfl
  | call t => rfl

theorem closes_shut (h : (eventAt w move).Closes) : Shut (advance w move).1.shared.gate := by
  obtain ⟨closer, reached, hout⟩ := h
  obtain ⟨answer, m', hc, hshared, -⟩ := advance_turn hout
  cases hc
  rw [hshared]
  exact ⟨rfl, rfl⟩

/-- A shut admission stays shut, and admits nothing, unless the event opens it. -/
theorem shut_effect (hshut : Shut w.shared.gate) (hstay : ¬ (eventAt w move).Opens) :
    Shut (advance w move).1.shared.gate ∧ ¬ (eventAt w move).Admits := by
  cases hout : (advance w move).2 with
  | none =>
      rw [advance_idle hout]
      refine ⟨hshut, ?_⟩
      rintro ⟨r, hr, -⟩
      exact absurd (hout.symm.trans hr) (by simp)
  | some r =>
      obtain ⟨answer, m', hc, hshared, -⟩ := advance_turn hout
      rw [hshared]
      obtain ⟨hstill, hheld⟩ := (proceed_effect hc).shut hshut
        (fun expected hreopens => by
          have hnamed : ¬ (eventAt w move).NamedReopen := fun hn => hstay (.inl hn)
          cases expected with
          | none => exact absurd ⟨none, ⟨r, hout, hreopens⟩, .inl rfl⟩ hnamed
          | some k =>
              refine ⟨k, rfl, ?_⟩
              intro hk
              exact hnamed ⟨some k, ⟨r, hout, hreopens⟩, .inr (congrArg some hk)⟩)
        (fun a ha hnew hresume hepoch => by
          apply hstay
          refine .inr ⟨a, r.reached, ?_, hnew, hresume, hepoch⟩
          rw [← ha]
          exact hout)
      refine ⟨hstill, ?_⟩
      rintro ⟨r', hr', hleft, hreached⟩
      cases hout.symm.trans hr'
      rcases hheld with hheld | hheld
      · simp [hleft] at hheld
      · simp [hreached] at hheld

theorem closeReturns_idle (hcounted : Counted w) (h : (eventAt w move).CloseReturns) :
    ∀ t ∈ (advance w move).1.threads, t.holds = false := by
  have hcounted' := Counted.step w move hcounted
  obtain ⟨epoch, wasClosed, closer, hout⟩ := h
  obtain ⟨answer, m', hc, hshared, -⟩ := advance_turn hout
  simp only [proceed] at hc
  split at hc
  · rename_i hdrained
    cases hc
    apply hcounted'.idle
    rw [hshared]
    exact hdrained
  · cases hc

theorem stale_unchanged {k : Nat} (h : (eventAt w move).Reopens (some k))
    (hstale : k ≠ w.shared.gate.hostAdmissionEpoch) :
    (advance w move).1.shared = w.shared.withLocks (advance w move).1.shared.locks := by
  obtain ⟨r, hout, hreopens⟩ := h
  obtain ⟨answer, m', hc, hshared, -⟩ := advance_turn hout
  rw [hshared, (proceed_reopens hreopens hc).2, Manager.reopenHostAdmission_stale _ hstale]
  rfl

/-- An opening admits nothing itself. -/
theorem opens_not_admits (h : (eventAt w move).Opens) : ¬ (eventAt w move).Admits := by
  rintro ⟨r, hout, -, hholds⟩
  obtain ⟨answer, m', hc, -⟩ := advance_turn hout
  rcases h with ⟨expected, ⟨r', hout', hreopens⟩, -⟩ | ⟨a, reached, hout', -⟩
  · cases hout.symm.trans hout'
    rw [(proceed_reopens hreopens hc).1] at hholds
    cases hholds
  · cases hout.symm.trans hout'
    cases hc
    cases hholds

end Runs

/-- In every interleaving: a close returns with no admitted operation left; after the
first section of a close nothing is admitted until a reopen without an epoch or with the
current one, or the attachment of a new Hub whose epoch has not moved; a stale reopen
changes nothing; and each counter is the number of admitted, unreleased operations. -/
theorem host_admission_barrier (config : HostConfig) (acts : List (Move Call Answer)) :
    (∀ e : Event, e ∈ Runs.history advance (Process.start config) acts → e.CloseReturns →
      ∀ t ∈ e.after.threads, t.holds = false) ∧
    (∀ pre mid post (c a : Event),
      Runs.history advance (Process.start config) acts = pre ++ c :: mid ++ a :: post →
      c.Closes → a.Admits → ∃ o ∈ mid, o.Opens) ∧
    (∀ e : Event, e ∈ Runs.history advance (Process.start config) acts → ∀ k,
      e.Reopens (some k) → k ≠ e.before.shared.gate.hostAdmissionEpoch →
      e.after.shared = e.before.shared.withLocks e.after.shared.locks) ∧
    (let w := Runs.run advance (Process.start config) acts;
      w.shared.gate.peerInFlight = w.threads.countP Call.holdsPeer ∧
      w.shared.gate.hostInFlight = w.threads.countP Call.holdsHost ∧
      (w.shared.gate.peerInFlight = 0 ∧ w.shared.gate.hostInFlight = 0 ↔
        ∀ t ∈ w.threads, t.holds = false)) := by
  refine ⟨?_, ?_, ?_, ?_⟩
  · refine Runs.history_forall advance (P := fun e : Event =>
      e.CloseReturns → ∀ t ∈ e.after.threads, t.holds = false) Counted.step ?_ _
      (Counted.start config) acts
    intro w move hcounted
    exact closeReturns_idle hcounted
  · intro pre mid post c a hsplit hcloses hadmits
    have hopens : a.Admits ∧ ¬ a.Opens := by
      obtain ⟨before, b, after, -, -, rfl, -⟩ := Runs.history_split advance _ acts _ _ _ hsplit
      exact ⟨hadmits, fun hopens => opens_not_admits hopens hadmits⟩
    -- the mark is that the admission is shut
    exact Runs.history_between advance (I := fun _ => True) (M := fun w => Shut w.shared.gate)
      (A := Event.Closes) (P := fun e : Event => e.Admits ∧ ¬ e.Opens) (O := Event.Opens)
      (fun _ _ _ => trivial) (fun w move _ => closes_shut)
      (fun w move _ hshut hstay => (shut_effect hshut hstay).1)
      (fun w move _ hshut h => (shut_effect hshut h.2).2 h.1)
      _ trivial acts hsplit hcloses hopens
  · refine Runs.history_forall advance (I := fun _ => True) (P := fun e : Event => ∀ k,
      e.Reopens (some k) → k ≠ e.before.shared.gate.hostAdmissionEpoch →
      e.after.shared = e.before.shared.withLocks e.after.shared.locks)
      (fun _ _ _ => trivial) ?_ _ trivial acts
    intro w move _ k hreopens hstale
    exact stale_unchanged hreopens hstale
  · have hcounted := Counted.run config acts
    have hpeer := hcounted.peers.zero_iff
    have hhost := hcounted.hosts.zero_iff
    refine ⟨hcounted.peers, hcounted.hosts, ?_⟩
    constructor
    · rintro ⟨hp, hh⟩ t ht
      simp [Call.holds, hpeer.mp hp t ht, hhost.mp hh t ht]
    · intro hended
      constructor
      · apply hpeer.mpr
        intro t ht
        exact (Bool.or_eq_false_iff.mp (hended t ht)).1
      · apply hhost.mpr
        intro t ht
        exact (Bool.or_eq_false_iff.mp (hended t ht)).2

section Attachment

/-- Maintenance closes the admission of a server without a host role. -/
def maintenance : List (Move Call Answer) :=
  [.call (.closing .maintenance), .turn 0 .returned]

/-- A new Hub is attached, and a local operation begins. -/
def attachment : List (Move Call Answer) :=
  [.call (.attach ⟨1, true, none, false, 0⟩), .turn 1 .returned, .turn 1 .returned,
   .turn 1 .returned, .turn 1 .returned, .turn 1 .returned, .call .hostOperation]

def memberConfig : HostConfig := ⟨false, none, 7851⟩

/-- The attachment of a new Hub admits operations after a close without a reopen. -/
theorem not_shut_until_reopen :
    ¬ ∀ (config : HostConfig) (acts : List (Move Call Answer)) (pre mid post : List Event)
      (c a : Event),
      Runs.history advance (Process.start config) acts = pre ++ c :: mid ++ a :: post →
      c.CloseReturns → a.Admits → ∃ o ∈ pre ++ mid, o.NamedReopen := by
  intro h
  have hsplit := Runs.history_two advance (Process.start memberConfig) maintenance attachment
    [] (.turn 0 .returned) (.turn 2 .returned)
  have hreturns : (Runs.eventAfter advance (Process.start memberConfig) maintenance
      (.turn 0 .returned)).outcome =
        some ⟨.draining 1 false .maintenance, .closed 1 false .maintenance⟩ := by decide
  have hadmits : (Runs.eventAfter advance (Process.start memberConfig)
      (maintenance ++ .turn 0 .returned :: attachment) (.turn 2 .returned)).outcome =
        some ⟨.hostOperation, .hostAdmitted⟩ := by decide
  obtain ⟨o, ho, expected, ⟨r, hr, hreopen⟩, -⟩ := h _ _ _ _ _ _ _ hsplit
    ⟨_, _, _, hreturns⟩ ⟨_, hadmits, rfl, rfl⟩
  have hnone : ∀ o ∈ Runs.history advance (Process.start memberConfig) maintenance ++
      Runs.history advance (Runs.run advance (Process.start memberConfig)
        (maintenance ++ [.turn 0 .returned])) attachment,
      (o.outcome.bind fun r => r.left.reopens) = none := by decide
  have hthis := hnone o ho
  rw [hr] at hthis
  simp only [Option.bind_some, hreopen] at hthis
  cases hthis

end Attachment

end AgentsServer.PeerRuntime

import AgentsServer.PeerStore.Credentials

/-!
# Routes and envelopes in every state

A live envelope is on two active routes, at the revisions it recorded, and the peer
behind them is active with the current grant. An envelope only changes its status and
its lease, and a settled one nothing.
-/

namespace AgentsServer.PeerStore

open Library

variable {hostServerIdentity : String} {touched : Touched} {now : Nat}

/-! ## One row under the updates -/

/-- What may become of an envelope as long as its row exists. -/
structure RelayEnvelope.Follows (e after : RelayEnvelope) : Prop where
  same : after.release .queued = e.release .queued
  settled : e.status.isLive = false → after = e

namespace RelayEnvelope

variable {e after last : RelayEnvelope}

theorem Follows.refl (e : RelayEnvelope) : e.Follows e := ⟨rfl, fun _ => rfl⟩

theorem Follows.trans (first : e.Follows after) (second : after.Follows last) :
    e.Follows last where
  same := second.same.trans first.same
  settled := by
    intro hsettled
    have hsame := first.settled hsettled
    rw [← hsame] at hsettled ⊢
    exact second.settled hsettled

theorem Follows.id (h : e.Follows after) : after.id = e.id := by
  change (after.release .queued).id = (e.release .queued).id
  rw [h.same]

/-- Only a live envelope becomes a live one. -/
theorem Follows.live (h : e.Follows after) (hlive : after.status.isLive = true) :
    e.status.isLive = true := by
  by_contra hsettled
  rw [h.settled (by simpa using hsettled)] at hlive
  exact hsettled hlive

theorem follows_expire (which : RelayEnvelope → Bool) (e : RelayEnvelope) :
    e.Follows (e.expire which) := by
  unfold expire
  split
  next hsel =>
    refine ⟨rfl, ?_⟩
    intro hsettled
    simp [hsettled] at hsel
  next => exact .refl e

theorem follows_requeue (now : Nat) (e : RelayEnvelope) : e.Follows (e.requeue now) := by
  unfold requeue
  split
  next hsel =>
    refine ⟨rfl, ?_⟩
    intro hsettled
    simp only [Bool.and_eq_true, beq_iff_eq] at hsel
    rw [hsel.1.1] at hsettled
    cases hsettled
  next => exact .refl e

theorem follows_leaseIn (ids : List String) (owner : String) (digest : Bytes) (now : Nat)
    (e : RelayEnvelope) : e.Follows (e.leaseIn ids owner digest now) := by
  unfold leaseIn
  split
  next hsel =>
    refine ⟨rfl, ?_⟩
    intro hsettled
    simp only [Bool.and_eq_true, beq_iff_eq] at hsel
    rw [hsel.2] at hsettled
    cases hsettled
  next => exact .refl e

theorem follows_settle {envelopeId : String} (outcome : ReceiptOutcome)
    (live : e.id = envelopeId → e.status.isLive = true) :
    e.Follows (e.settle envelopeId outcome) := by
  unfold settle
  split
  next hname =>
    refine ⟨rfl, ?_⟩
    intro hsettled
    rw [live hname] at hsettled
    cases hsettled
  next => exact .refl e

/-- An expiry leaves the live envelopes that it does not select. -/
theorem expire_live {which : RelayEnvelope → Bool}
    (h : (e.expire which).status.isLive = true) : e.expire which = e ∧ which e = false := by
  unfold expire at h ⊢
  split at h
  next => cases h
  next hsel =>
    rw [if_neg hsel]
    refine ⟨rfl, ?_⟩
    simpa [h] using hsel

theorem settle_live {envelopeId : String} {outcome : ReceiptOutcome}
    (h : (e.settle envelopeId outcome).status.isLive = true) :
    e.settle envelopeId outcome = e ∧ e.id ≠ envelopeId := by
  unfold settle at h ⊢
  split at h
  next => cases outcome <;> cases h
  next hname =>
    rw [if_neg hname]
    exact ⟨rfl, hname⟩

theorem settle_id (envelopeId : String) (outcome : ReceiptOutcome) (e : RelayEnvelope) :
    (e.settle envelopeId outcome).id = e.id := by
  unfold settle
  split <;> rfl

end RelayEnvelope

/-- A change of other envelopes, or of the status and lease of some. -/
theorem Change.follows {c c' : Core} (unique : (c.envelopes.map RelayEnvelope.id).Nodup)
    (h : Change hostServerIdentity now touched c c') :
    ∀ after ∈ c'.envelopes, (∃ e ∈ c.envelopes, e.Follows after) ∨ touched = .submitted after.id := by
  intro after hmem
  cases h with
  | approve | issue | activate | publish => exact .inl ⟨after, hmem, .refl after⟩
  | revoke | endAll | endRoute | expire =>
      obtain ⟨e, he, rfl⟩ := List.mem_map.mp hmem
      exact .inl ⟨e, he, RelayEnvelope.follows_expire _ e⟩
  | forget => exact .inl ⟨after, (List.mem_filter.mp hmem).1, .refl after⟩
  | requeue =>
      obtain ⟨e, he, rfl⟩ := List.mem_map.mp hmem
      exact .inl ⟨e, he, RelayEnvelope.follows_requeue now e⟩
  | lease =>
      obtain ⟨e, he, rfl⟩ := List.mem_map.mp hmem
      exact .inl ⟨e, he, RelayEnvelope.follows_leaseIn _ _ _ now e⟩
  | submit _ _ _ named =>
      rcases List.mem_append.mp hmem with hold | hnew
      · exact .inl ⟨after, hold, .refl after⟩
      · rw [List.mem_singleton.mp hnew]
        exact .inr named
  | settle claimed =>
      obtain ⟨e, he, rfl⟩ := List.mem_map.mp hmem
      refine .inl ⟨e, he, RelayEnvelope.follows_settle _ ?_⟩
      intro hname
      rw [Tables.eq_of_key unique he claimed.1 hname, claimed.2]
      rfl

@[simp] theorem PeerRoute.revoke_id (which : PeerRoute → Bool) (revision : PeerRoute → String)
    (now : Nat) (r : PeerRoute) : (r.revoke which revision now).id = r.id := by
  unfold PeerRoute.revoke
  split <;> rfl

@[simp] theorem PeerRoute.revoke_teamId (which : PeerRoute → Bool)
    (revision : PeerRoute → String) (now : Nat) (r : PeerRoute) :
    (r.revoke which revision now).teamId = r.teamId := by
  unfold PeerRoute.revoke
  split <;> rfl

/-- A route that is active after a revocation was not selected. -/
theorem PeerRoute.revoke_active {which : PeerRoute → Bool} {revision : PeerRoute → String}
    {r : PeerRoute} (h : (r.revoke which revision now).status = .active) :
    r.revoke which revision now = r ∧ which r = false := by
  unfold PeerRoute.revoke at h ⊢
  split at h
  next => cases h
  next hsel =>
    rw [if_neg hsel]
    refine ⟨rfl, ?_⟩
    simpa [h] using hsel

/-- A route that a revocation does not select. -/
theorem PeerRoute.revoke_other {which : PeerRoute → Bool} {revision : PeerRoute → String}
    {r : PeerRoute} (h : which r = false) : r.revoke which revision now = r := by
  unfold PeerRoute.revoke
  rw [if_neg (by simp [h])]

/-- Whose a route is does not change with its revocation. -/
theorem Core.Published.revoke {p : Peer} {r : PeerRoute} {which : PeerRoute → Bool}
    {revision : PeerRoute → String} (h : Core.Published hostServerIdentity p r) :
    Core.Published hostServerIdentity p (r.revoke which revision now) := by
  unfold PeerRoute.revoke
  split
  · cases h with
    | peer kind owner identity => exact .peer kind owner identity
    | host kind audience identity => exact .host kind audience identity
  · exact h

/-- Whose a route is depends on what an update of the peer keeps. -/
theorem Core.Published.of_peer {p q : Peer} {r : PeerRoute}
    (h : Core.Published hostServerIdentity p r) (id : q.id = p.id)
    (identity : q.peerServerIdentity = p.peerServerIdentity) :
    Core.Published hostServerIdentity q r := by
  cases h with
  | peer kind owner serverIdentity => exact .peer kind (id ▸ owner) (identity ▸ serverIdentity)
  | host kind audience serverIdentity => exact .host kind (id ▸ audience) serverIdentity

theorem Core.Published.isOf {p : Peer} {r : PeerRoute}
    (h : Core.Published hostServerIdentity p r) {peerId : String} :
    r.isOf peerId = true ↔ p.id = peerId := by
  unfold PeerRoute.isOf
  cases h with
  | peer _ owner _ => simp [owner]
  | host _ audience _ => simp [audience]

namespace Core

/-- What the tables of routes, envelopes and receipts satisfy in every state. -/
structure Relayed (hostServerIdentity : String) (c : Core) : Prop where
  routeIds : (c.routes.map PeerRoute.id).Nodup
  envelopeIds : (c.envelopes.map RelayEnvelope.id).Nodup
  receiptIds : (c.receipts.map RelayReceipt.envelopeId).Nodup
  published : ∀ r ∈ c.routes, ∃ p ∈ c.peers, r.teamId = p.teamId ∧
    Published hostServerIdentity p r ∧ (r.status = .active → p.status = .active)
  carried : ∀ e ∈ c.envelopes, e.status.isLive = true → ∃ p source target,
    c.Carries p source target e
  leased : ∀ e ∈ c.envelopes, e.status = .claimed → e.leaseExpiresAt ≠ none
  receipted : ∀ r ∈ c.receipts, ∃ e ∈ c.envelopes, e.id = r.envelopeId ∧
    e.status = r.outcome.status

/-- The status and the lease of an envelope do not matter to what carries it. -/
theorem Carries.of_release {c : Core} {p : Peer} {source target : PeerRoute} {e : RelayEnvelope}
    (status : EnvelopeStatus) (h : c.Carries p source target (e.release status)) :
    c.Carries p source target e := by
  refine ⟨h.peerLive, h.sourceLive, h.targetLive, h.team, h.granted, ?_⟩
  cases h.direction with
  | toHost kinds routes envelope => exact .toHost kinds routes envelope
  | toPeer kinds routes envelope scope => exact .toPeer kinds routes envelope scope

theorem Carries.release {c : Core} {p : Peer} {source target : PeerRoute} {e : RelayEnvelope}
    (h : c.Carries p source target e) (status : EnvelopeStatus) :
    c.Carries p source target (e.release status) := by
  refine ⟨h.peerLive, h.sourceLive, h.targetLive, h.team, h.granted, ?_⟩
  cases h.direction with
  | toHost kinds routes envelope => exact .toHost kinds routes envelope
  | toPeer kinds routes envelope scope => exact .toPeer kinds routes envelope scope

/-- What carries an envelope goes on to do so when its rows stay. -/
theorem Carries.transport {c c' : Core} {p q : Peer} {source target : PeerRoute}
    {e after : RelayEnvelope} (h : c.Carries p source target e) (hq : q ∈ c'.peers)
    (peer : q.id = p.id ∧ q.status = p.status ∧ q.crossChatGrantEpoch = p.crossChatGrantEpoch ∧
      q.scopes = p.scopes)
    (epoch : c'.consentEpoch = c.consentEpoch) (hsource : source ∈ c'.routes)
    (htarget : target ∈ c'.routes) (same : after.release .queued = e.release .queued) :
    c'.Carries q source target after := by
  obtain ⟨hid, hstatus, hepoch, hscopes⟩ := peer
  apply Carries.of_release .queued
  rw [same]
  apply Carries.release
  refine ⟨⟨hq, ?_, ?_⟩, ⟨hsource, h.sourceLive.2⟩, ⟨htarget, h.targetLive.2⟩, h.team, h.granted, ?_⟩
  · rw [hstatus]
    exact h.peerLive.2.1
  · rw [hepoch, epoch]
    exact h.peerLive.2.2
  · cases h.direction with
    | toHost kinds routes envelope => exact .toHost kinds (hid ▸ routes) (hid ▸ envelope)
    | toPeer kinds routes envelope scope =>
        exact .toPeer kinds (hid ▸ routes) (hid ▸ envelope) (hscopes ▸ scope)

/-- The same rows of peers and routes carry an envelope. -/
theorem Carries.kept {c c' : Core} {p : Peer} {source target : PeerRoute}
    {e after : RelayEnvelope} (h : c.Carries p source target e)
    (peers : ∀ p ∈ c.peers, p ∈ c'.peers) (routes : ∀ r ∈ c.routes, r ∈ c'.routes)
    (epoch : c'.consentEpoch = c.consentEpoch)
    (same : after.release .queued = e.release .queued) : c'.Carries p source target after :=
  h.transport (peers p h.peerLive.1) ⟨rfl, rfl, rfl, rfl⟩ epoch (routes source h.sourceLive.1)
    (routes target h.targetLive.1) same

/-- The revocation of a peer leaves what carries the live envelopes that remain. -/
theorem Carries.revokePeer {c : Core} {p : Peer} {source target : PeerRoute} {e : RelayEnvelope}
    {peerId actor revision : String} (h : c.Carries p source target e)
    (other : e.isOf peerId ((c.routes.filter (PeerRoute.isOf peerId)).map PeerRoute.id) = false) :
    (c.revokePeer peerId actor revision now).Carries p source target e := by
  simp only [RelayEnvelope.isOf, Bool.or_eq_false_iff, beq_eq_false_iff_ne,
    List.contains_eq_mem, decide_eq_false_iff_not, List.mem_map, List.mem_filter, not_exists,
    not_and] at other
  obtain ⟨⟨⟨hsourcePeer, htargetPeer⟩, hsourceRoute⟩, htargetRoute⟩ := other
  have hne : p.id ≠ peerId := by
    cases h.direction with
    | toHost _ _ envelope => exact fun hid => hsourcePeer (envelope.1.trans (congrArg some hid))
    | toPeer _ _ envelope _ => exact fun hid => htargetPeer (envelope.2.trans (congrArg some hid))
  have hroute : ∀ r ∈ c.routes, r.isOf peerId = false →
      r ∈ (c.revokePeer peerId actor revision now).routes := by
    intro r hr hother
    have hmem := List.mem_map_of_mem
      (f := PeerRoute.revoke (PeerRoute.isOf peerId) (fun _ => revision) now) hr
    rw [PeerRoute.revoke_other hother] at hmem
    exact hmem
  have hpeer : p ∈ (c.revokePeer peerId actor revision now).peers := by
    have hmem := List.mem_map_of_mem (f := Peer.revoke peerId actor now) h.peerLive.1
    rw [Peer.revoke, if_neg (by simp [hne])] at hmem
    exact hmem
  refine h.transport hpeer ⟨rfl, rfl, rfl, rfl⟩ rfl ?_ ?_ rfl
  · apply hroute source h.sourceLive.1
    by_contra hof
    exact hsourceRoute source ⟨h.sourceLive.1, by simpa using hof⟩ h.sourceLive.2.1
  · apply hroute target h.targetLive.1
    by_contra hof
    exact htargetRoute target ⟨h.targetLive.1, by simpa using hof⟩ h.targetLive.2.1

/-- The end of one route leaves what carries the envelopes on others. -/
theorem Carries.endRoute {c : Core} {p : Peer} {source target : PeerRoute} {e : RelayEnvelope}
    {which : PeerRoute → Bool} {routeId revision : String} (h : c.Carries p source target e)
    (only : ∀ r, which r = true → r.id = routeId)
    (other : (e.sourceRouteId == routeId || e.targetRouteId == routeId) = false) :
    (c.endRoute which routeId revision now).Carries p source target e := by
  simp only [Bool.or_eq_false_iff, beq_eq_false_iff_ne] at other
  have hroute : ∀ r ∈ c.routes, r.id ≠ routeId →
      r ∈ (c.endRoute which routeId revision now).routes := by
    intro r hr hne
    have hmem := List.mem_map_of_mem (f := PeerRoute.revoke which (fun _ => revision) now) hr
    rw [PeerRoute.revoke_other (by simpa using fun hsel => hne (only r hsel))] at hmem
    exact hmem
  refine h.transport h.peerLive.1 ⟨rfl, rfl, rfl, rfl⟩ rfl ?_ ?_ rfl
  · exact hroute source h.sourceLive.1 (h.sourceLive.2.1 ▸ other.1)
  · exact hroute target h.targetLive.1 (h.targetLive.2.1 ▸ other.2)

/-! ## The changes keep each of them -/

namespace Relayed

variable {c c' : Core}

theorem routeIds_change (h : c.Relayed hostServerIdentity)
    (hchange : Change hostServerIdentity now touched c c') : (c'.routes.map PeerRoute.id).Nodup := by
  cases hchange with
  | revoke | endAll | endRoute =>
      exact Tables.nodup_map h.routeIds fun r => PeerRoute.revoke_id _ _ now r
  | publish fresh => exact Tables.nodup_append_row h.routeIds fresh
  | approve | issue | activate | expire | forget | requeue | submit | lease | settle =>
      exact h.routeIds

theorem envelopeIds_change (h : c.Relayed hostServerIdentity)
    (hchange : Change hostServerIdentity now touched c c') :
    (c'.envelopes.map RelayEnvelope.id).Nodup := by
  cases hchange with
  | revoke | endAll | endRoute | expire =>
      exact Tables.nodup_map h.envelopeIds fun e => (RelayEnvelope.follows_expire _ e).id
  | requeue =>
      exact Tables.nodup_map h.envelopeIds fun e => (RelayEnvelope.follows_requeue now e).id
  | lease =>
      exact Tables.nodup_map h.envelopeIds fun e => (RelayEnvelope.follows_leaseIn _ _ _ now e).id
  | settle => exact Tables.nodup_map h.envelopeIds fun e => RelayEnvelope.settle_id _ _ e
  | forget => exact Tables.nodup_filter h.envelopeIds _
  | submit fresh => exact Tables.nodup_append_row h.envelopeIds fresh
  | approve | issue | activate | publish => exact h.envelopeIds

theorem receiptIds_change (h : c.Relayed hostServerIdentity)
    (hchange : Change hostServerIdentity now touched c c') :
    (c'.receipts.map RelayReceipt.envelopeId).Nodup := by
  cases hchange with
  | forget => exact Tables.nodup_filter h.receiptIds _
  | settle _ _ first => exact Tables.nodup_append_row h.receiptIds first
  | revoke | endAll | endRoute | expire | requeue | lease | submit | approve | issue | activate
  | publish => exact h.receiptIds

/-- The peer of a route is known, and active as long as the route is. -/
theorem published_change (h : c.Relayed hostServerIdentity)
    (hchange : Change hostServerIdentity now touched c c') :
    ∀ r ∈ c'.routes, ∃ p ∈ c'.peers, r.teamId = p.teamId ∧
      Published hostServerIdentity p r ∧ (r.status = .active → p.status = .active) := by
  intro r hr
  cases hchange with
  | @revoke peerId actor revision =>
      obtain ⟨old, hold, rfl⟩ := List.mem_map.mp hr
      obtain ⟨p, hp, hteam, hpublished, hactive⟩ := h.published old hold
      refine ⟨_, List.mem_map_of_mem hp, by simpa using hteam,
        hpublished.revoke.of_peer (by simp) (by simp), ?_⟩
      intro hlive
      obtain ⟨hsame, hother⟩ := PeerRoute.revoke_active hlive
      rw [hsame] at hlive
      rw [Peer.revoke_status]
      refine ⟨hactive hlive, ?_⟩
      intro hid
      rw [hpublished.isOf.mpr hid] at hother
      cases hother
  | endAll | endRoute =>
      obtain ⟨old, hold, rfl⟩ := List.mem_map.mp hr
      obtain ⟨p, hp, hteam, hpublished, hactive⟩ := h.published old hold
      refine ⟨p, hp, by simpa using hteam, hpublished.revoke, ?_⟩
      intro hlive
      rw [(PeerRoute.revoke_active hlive).1] at hlive
      exact hactive hlive
  | publish _ known team published =>
      rcases List.mem_append.mp hr with hold | hnew
      · exact h.published r hold
      · rw [List.mem_singleton.mp hnew]
        exact ⟨_, known.1, team, published, fun _ => known.2⟩
  | approve =>
      obtain ⟨p, hp, hrest⟩ := h.published r hr
      exact ⟨p, List.mem_append_left _ hp, hrest⟩
  | activate =>
      obtain ⟨p, hp, hteam, hpublished, hactive⟩ := h.published r hr
      exact ⟨_, List.mem_map_of_mem hp, by simpa using hteam,
        hpublished.of_peer (by simp) (by simp), by simpa using hactive⟩
  | issue | expire | forget | requeue | submit | lease | settle => exact h.published r hr

theorem carried_change (h : c.Relayed hostServerIdentity)
    (hchange : Change hostServerIdentity now touched c c') :
    ∀ e ∈ c'.envelopes, e.status.isLive = true → ∃ p source target,
      c'.Carries p source target e := by
  intro e he hlive
  cases hchange with
  | revoke =>
      obtain ⟨old, hold, rfl⟩ := List.mem_map.mp he
      obtain ⟨hsame, hother⟩ := RelayEnvelope.expire_live hlive
      rw [hsame] at hlive ⊢
      obtain ⟨p, source, target, hcarried⟩ := h.carried old hold hlive
      exact ⟨p, source, target, hcarried.revokePeer hother⟩
  | endRoute only =>
      obtain ⟨old, hold, rfl⟩ := List.mem_map.mp he
      obtain ⟨hsame, hother⟩ := RelayEnvelope.expire_live hlive
      rw [hsame] at hlive ⊢
      obtain ⟨p, source, target, hcarried⟩ := h.carried old hold hlive
      exact ⟨p, source, target, hcarried.endRoute only hother⟩
  | endAll =>
      -- none is live afterwards
      obtain ⟨old, hold, rfl⟩ := List.mem_map.mp he
      obtain ⟨-, hother⟩ := RelayEnvelope.expire_live hlive
      cases hother
  | approve =>
      obtain ⟨p, source, target, hcarried⟩ := h.carried e he hlive
      exact ⟨p, source, target, hcarried.kept (fun q hq => List.mem_append_left _ hq)
        (fun r hr => hr) rfl rfl⟩
  | publish =>
      obtain ⟨p, source, target, hcarried⟩ := h.carried e he hlive
      exact ⟨p, source, target, hcarried.kept (fun q hq => hq)
        (fun r hr => List.mem_append_left _ hr) rfl rfl⟩
  | issue =>
      obtain ⟨p, source, target, hcarried⟩ := h.carried e he hlive
      exact ⟨p, source, target, hcarried.kept (fun q hq => hq) (fun r hr => hr) rfl rfl⟩
  | activate =>
      obtain ⟨p, source, target, hcarried⟩ := h.carried e he hlive
      refine ⟨_, source, target, hcarried.transport
        (List.mem_map_of_mem hcarried.peerLive.1) ⟨?_, ?_, ?_, ?_⟩ rfl hcarried.sourceLive.1
        hcarried.targetLive.1 rfl⟩
      · exact Peer.setKey_id _ p
      · exact Peer.setKey_status _ p
      · unfold Peer.setKey
        split <;> rfl
      · unfold Peer.setKey
        split <;> rfl
  | expire =>
      obtain ⟨old, hold, rfl⟩ := List.mem_map.mp he
      have hsame := (RelayEnvelope.expire_live hlive).1
      rw [hsame] at hlive ⊢
      obtain ⟨p, source, target, hcarried⟩ := h.carried old hold hlive
      exact ⟨p, source, target, hcarried.kept (fun q hq => hq) (fun r hr => hr) rfl rfl⟩
  | settle =>
      obtain ⟨old, hold, rfl⟩ := List.mem_map.mp he
      have hsame := (RelayEnvelope.settle_live hlive).1
      rw [hsame] at hlive ⊢
      obtain ⟨p, source, target, hcarried⟩ := h.carried old hold hlive
      exact ⟨p, source, target, hcarried.kept (fun q hq => hq) (fun r hr => hr) rfl rfl⟩
  | forget =>
      obtain ⟨p, source, target, hcarried⟩ := h.carried e (List.mem_filter.mp he).1 hlive
      exact ⟨p, source, target, hcarried.kept (fun q hq => hq) (fun r hr => hr) rfl rfl⟩
  | requeue =>
      obtain ⟨old, hold, rfl⟩ := List.mem_map.mp he
      have hfollows := RelayEnvelope.follows_requeue now old
      obtain ⟨p, source, target, hcarried⟩ := h.carried old hold (hfollows.live hlive)
      exact ⟨p, source, target,
        hcarried.kept (fun q hq => hq) (fun r hr => hr) rfl hfollows.same⟩
  | @lease ids owner digest =>
      obtain ⟨old, hold, rfl⟩ := List.mem_map.mp he
      have hfollows := RelayEnvelope.follows_leaseIn ids owner digest now old
      obtain ⟨p, source, target, hcarried⟩ := h.carried old hold (hfollows.live hlive)
      exact ⟨p, source, target,
        hcarried.kept (fun q hq => hq) (fun r hr => hr) rfl hfollows.same⟩
  | submit _ _ carried =>
      rcases List.mem_append.mp he with hold | hnew
      · obtain ⟨p, source, target, hcarried⟩ := h.carried e hold hlive
        exact ⟨p, source, target, hcarried.kept (fun q hq => hq) (fun r hr => hr) rfl rfl⟩
      · rw [List.mem_singleton.mp hnew]
        exact ⟨_, _, _, carried.kept (fun q hq => hq) (fun r hr => hr) rfl rfl⟩

theorem leased_change (h : c.Relayed hostServerIdentity)
    (hchange : Change hostServerIdentity now touched c c') :
    ∀ e ∈ c'.envelopes, e.status = .claimed → e.leaseExpiresAt ≠ none := by
  intro e he hclaimed
  have hlive : e.status.isLive = true := by
    rw [hclaimed]
    rfl
  cases hchange with
  | revoke | endAll | endRoute | expire =>
      obtain ⟨old, hold, rfl⟩ := List.mem_map.mp he
      have hsame := (RelayEnvelope.expire_live hlive).1
      rw [hsame] at hclaimed ⊢
      exact h.leased old hold hclaimed
  | settle =>
      obtain ⟨old, hold, rfl⟩ := List.mem_map.mp he
      have hsame := (RelayEnvelope.settle_live hlive).1
      rw [hsame] at hclaimed ⊢
      exact h.leased old hold hclaimed
  | requeue =>
      obtain ⟨old, hold, rfl⟩ := List.mem_map.mp he
      unfold RelayEnvelope.requeue at hclaimed ⊢
      split at hclaimed
      next => cases hclaimed
      next hkept =>
        rw [if_neg hkept]
        exact h.leased old hold hclaimed
  | lease =>
      obtain ⟨old, hold, rfl⟩ := List.mem_map.mp he
      unfold RelayEnvelope.leaseIn at hclaimed ⊢
      split
      next => exact Option.some_ne_none _
      next hkept =>
        rw [if_neg hkept] at hclaimed
        exact h.leased old hold hclaimed
  | forget => exact h.leased e (List.mem_filter.mp he).1 hclaimed
  | submit _ queued =>
      rcases List.mem_append.mp he with hold | hnew
      · exact h.leased e hold hclaimed
      · rw [List.mem_singleton.mp hnew, queued] at hclaimed
        cases hclaimed
  | approve | issue | activate | publish => exact h.leased e he hclaimed

/-- A settled envelope is there after every change that does not forget it. -/
theorem settled_kept {f : RelayEnvelope → RelayEnvelope} {e : RelayEnvelope}
    (he : e ∈ c.envelopes) (hsettled : e.status.isLive = false) (hfollows : e.Follows (f e)) :
    e ∈ c.envelopes.map f := by
  have hmem := List.mem_map_of_mem (f := f) he
  rw [hfollows.settled hsettled] at hmem
  exact hmem

/-- The envelope of a receipt has the status the receipt gave it. -/
theorem receipted_change (h : c.Relayed hostServerIdentity)
    (hchange : Change hostServerIdentity now touched c c') :
    ∀ r ∈ c'.receipts, ∃ e ∈ c'.envelopes, e.id = r.envelopeId ∧ e.status = r.outcome.status := by
  have hbefore : ∀ r ∈ c.receipts, ∃ e ∈ c.envelopes, e.status.isLive = false ∧
      e.id = r.envelopeId ∧ e.status = r.outcome.status := by
    intro r hr
    obtain ⟨e, he, hname, hstatus⟩ := h.receipted r hr
    refine ⟨e, he, ?_, hname, hstatus⟩
    rw [hstatus]
    cases r.outcome <;> rfl
  intro r hr
  cases hchange with
  | revoke | endAll | endRoute | expire =>
      obtain ⟨e, he, hsettled, hrest⟩ := hbefore r hr
      exact ⟨e, settled_kept he hsettled (RelayEnvelope.follows_expire _ e), hrest⟩
  | requeue =>
      obtain ⟨e, he, hsettled, hrest⟩ := hbefore r hr
      exact ⟨e, settled_kept he hsettled (RelayEnvelope.follows_requeue now e), hrest⟩
  | lease =>
      obtain ⟨e, he, hsettled, hrest⟩ := hbefore r hr
      exact ⟨e, settled_kept he hsettled (RelayEnvelope.follows_leaseIn _ _ _ now e), hrest⟩
  | @settle claimed receipt isClaimed names first =>
      rcases List.mem_append.mp hr with hold | hnew
      · obtain ⟨e, he, hsettled, hname, hstatus⟩ := hbefore r hold
        have hother : e.id ≠ claimed.id := by
          rw [hname, ← names]
          exact first r hold
        exact ⟨e, settled_kept he hsettled (RelayEnvelope.follows_settle _
          fun hsame => absurd hsame hother), hname, hstatus⟩
      · rw [List.mem_singleton.mp hnew]
        refine ⟨_, List.mem_map_of_mem isClaimed.1, ?_, ?_⟩
        · rw [RelayEnvelope.settle_id, names]
        · rw [RelayEnvelope.settle, if_pos rfl]
          rfl
  | @forget which settled =>
      obtain ⟨hold, hkept⟩ := List.mem_filter.mp hr
      obtain ⟨e, he, -, hname, hstatus⟩ := hbefore r hold
      refine ⟨e, List.mem_filter.mpr ⟨he, ?_⟩, hname, hstatus⟩
      -- a forgotten envelope takes its receipt with it
      by_contra hforgotten
      simp only [Bool.not_eq_true', Bool.not_eq_false] at hforgotten hkept
      simp only [List.contains_eq_mem, decide_eq_false_iff_not, List.mem_map, List.mem_filter,
        not_exists, not_and] at hkept
      exact hkept e ⟨he, hforgotten⟩ hname
  | submit =>
      obtain ⟨e, he, hrest⟩ := h.receipted r hr
      exact ⟨e, List.mem_append_left _ he, hrest⟩
  | approve | issue | activate | publish => exact h.receipted r hr

theorem change (h : c.Relayed hostServerIdentity)
    (hchange : Change hostServerIdentity now touched c c') : c'.Relayed hostServerIdentity where
  routeIds := h.routeIds_change hchange
  envelopeIds := h.envelopeIds_change hchange
  receiptIds := h.receiptIds_change hchange
  published := h.published_change hchange
  carried := h.carried_change hchange
  leased := h.leased_change hchange
  receipted := h.receipted_change hchange

theorem start (consentEpoch : Nat) :
    (Host.start consentEpoch).db.core.Relayed hostServerIdentity := by
  constructor <;> simp [Host.start, Db.new, Db.core]

end Relayed

end Core

end AgentsServer.PeerStore

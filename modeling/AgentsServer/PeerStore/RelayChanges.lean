import AgentsServer.PeerStore.TrustChanges

/-!
# The changes of each call: relay

Routes, consent, submissions, claims and receipts as changes of the core, and
every transaction as a sequence of changes.
-/

namespace AgentsServer.PeerStore

open Library

variable {hostServerIdentity : String} {touched : Touched}

namespace Db

variable {db db' : Db} {now : Nat}

/-- A peer that may use the relay is active with the current grant. -/
theorem requireCrossChat_eq {available : Bool} {peer : PeerAuthorization} {epoch : Nat}
    (h : db.requireCrossChat available (some peer) = .ok epoch) :
    epoch = db.consentEpoch ∧ ∃ p ∈ db.peers, p.id = peer.peerId ∧ p.status = .active ∧
      p.crossChatGrantEpoch = some db.consentEpoch ∧
      p.peerServerIdentity = peer.peerServerIdentity ∧ p.teamId = peer.teamId ∧
      sameScopes p.scopes peer.scopes = true := by
  unfold requireCrossChat at h
  simp only [bind_eq_ok, require_eq_ok, required_eq_ok, pure_eq_ok] at h
  obtain ⟨_, -, _, -, _, -, row, hrow, _, ⟨hactive, -, hidentity, hteam, hscopes⟩, _, hgrant,
    rfl⟩ := h
  obtain ⟨hmem, hid⟩ := Tables.find_mem hrow
  exact ⟨rfl, row, hmem, hid, hactive, hgrant, hidentity, hteam, hscopes⟩

theorem requireCrossChat_epoch {available : Bool} {peer : Option PeerAuthorization} {epoch : Nat}
    (h : db.requireCrossChat available peer = .ok epoch) : epoch = db.consentEpoch := by
  cases peer with
  | some peer => exact (requireCrossChat_eq h).1
  | none =>
      unfold requireCrossChat at h
      simp only [bind_eq_ok, require_eq_ok, pure_eq_ok] at h
      obtain ⟨_, -, _, -, rfl⟩ := h
      rfl

/-! ## Consent and routes -/

theorem activateCrossChatConsent_changes [Sha256] (hostServerIdentity : String)
    (touched : Touched) {expectedEpoch : Nat}
    {key activatedBy revision : String} {available : Bool} {response : Json}
    (h : db.activateCrossChatConsent expectedEpoch key activatedBy available revision now =
      .ok (response, db')) :
    Changes hostServerIdentity now touched db.core db'.core ∧
      (db' = db ∨ db'.core = db.core.endAll (db.consentEpoch + 1) (fun _ => revision) now) := by
  unfold activateCrossChatConsent at h
  simp only [bind_eq_ok, Prod.exists] at h
  obtain ⟨_, -, _, -, digest, cached, -, h⟩ := h
  cases cached with
  | some response =>
      simp only [pure_eq_ok, Prod.mk.injEq] at h
      rw [h.2]
      exact ⟨.refl, .inl rfl⟩
  | none =>
      simp only [bind_eq_ok, require_eq_ok, pure_eq_ok, Prod.mk.injEq] at h
      obtain ⟨_, -, last, hrecord, -, rfl⟩ := h
      have hcore : (last.audit now).core =
          db.core.endAll (db.consentEpoch + 1) (fun _ => revision) now := recordOperation_core hrecord
      rw [hcore]
      exact ⟨.single .endAll, .inr rfl⟩

theorem retire_core (revision : PeerRoute → String) :
    (db.retireAgentRoutesLocally revision now).2.core =
      db.core.endAll db.consentEpoch revision now := rfl

theorem insertRoute_eq {route : PeerRoute} (h : db.insertRoute route = .ok db') :
    db' = { db with routes := db.routes ++ [route] } ∧ ∀ old ∈ db.routes, old.id ≠ route.id := by
  unfold insertRoute at h
  simp only [bind_eq_ok, required_eq_ok, pure_eq_ok, Tables.insertRow_eq_some] at h
  obtain ⟨_, ⟨⟨-, hfresh⟩, rfl⟩, rfl⟩ := h
  exact ⟨rfl, hfresh⟩

theorem publishLocalRoute_changes [Sha256] {teamId audience chatId key publishedBy : String}
    {descriptor : RouteDescriptor} {available full : Bool} {response : Json}
    (h : db.publishLocalRoute hostServerIdentity teamId audience chatId descriptor key publishedBy
      available full now = .ok (response, db')) :
    Changes hostServerIdentity now touched db.core db'.core := by
  unfold publishLocalRoute at h
  simp only [bind_eq_ok, Prod.exists] at h
  obtain ⟨_, -, _, -, _, -, _, -, _, -, actions, -, digest, cached, -, h⟩ := h
  cases cached with
  | some response =>
      simp only [pure_eq_ok, Prod.mk.injEq] at h
      rw [h.2]
  | none =>
      simp only [bind_eq_ok, require_eq_ok, required_eq_ok, pure_eq_ok, Prod.mk.injEq] at h
      obtain ⟨peer, hpeer, _, -, _, -, _, -, _, -, mid, hinsert, last, hrecord, -, rfl⟩ := h
      obtain ⟨rfl, hfresh⟩ := insertRoute_eq hinsert
      have hfound := List.find?_some hpeer
      simp only [Bool.and_eq_true, decide_eq_true_eq] at hfound
      obtain ⟨⟨rfl, rfl⟩, hactive⟩ := hfound
      have hcore := recordOperation_core hrecord
      change Changes hostServerIdentity now touched db.core last.core
      rw [hcore]
      exact .single (.publish hfresh ⟨List.mem_of_find?_eq_some hpeer, hactive⟩ rfl
        (.host rfl ⟨rfl, rfl⟩ rfl))

theorem publishPeerRoute_changes {peer : PeerAuthorization} {descriptor : RouteDescriptor}
    {available full : Bool} {routeId : String}
    (h : db.publishPeerRoute peer descriptor available full now = .ok (routeId, db')) :
    Changes hostServerIdentity now touched db.core db'.core := by
  unfold publishPeerRoute at h
  simp only [bind_eq_ok] at h
  obtain ⟨epoch, hepoch, actions, -, _, -, h⟩ := h
  obtain ⟨-, p, hp, hid, hactive, -, hidentity, hteam, -⟩ := requireCrossChat_eq hepoch
  split at h
  next =>
    simp only [bind_eq_ok, require_eq_ok, pure_eq_ok, Prod.mk.injEq] at h
    obtain ⟨_, -, -, rfl⟩ := h
    exact .refl
  next =>
    simp only [bind_eq_ok, require_eq_ok, pure_eq_ok, Prod.mk.injEq] at h
    obtain ⟨_, -, mid, hinsert, -, rfl⟩ := h
    obtain ⟨rfl, hfresh⟩ := insertRoute_eq hinsert
    exact .single (.publish hfresh ⟨hp, hactive⟩ hteam.symm
      (.peer rfl ⟨congrArg some hid.symm, rfl⟩ hidentity.symm))

/-- The end of a route, which is revoked afterwards. -/
theorem endRoute_changes {routeId expected revision : String} {owned : PeerRoute → Bool}
    {changed : Failure} (h : db.endRoute routeId expected owned changed revision now = .ok db') :
    Changes hostServerIdentity now touched db.core db'.core ∧
      ∃ r ∈ db'.routes, r.id = routeId ∧ r.status = .revoked := by
  unfold endRoute at h
  simp only [bind_eq_ok, require_eq_ok, pure_eq_ok] at h
  obtain ⟨_, ⟨r, hr, hid, howned, hrevision, hactive⟩, rfl⟩ := h
  constructor
  · refine .single (.endRoute ?_)
    intro r hr
    simp only [Bool.and_eq_true, beq_iff_eq] at hr
    exact hr.1.1
  · refine ⟨_, List.mem_map_of_mem hr, ?_⟩
    rw [PeerRoute.revoke, if_pos (by simp [hid, howned, hrevision, hactive])]
    exact ⟨hid, rfl⟩

theorem revokeRoute_changes [Sha256] (hostServerIdentity : String)
    (touched : Touched) {routeId teamId expected key revokedBy revision : String}
    {available : Bool} {response : Json}
    (h : db.revokeRoute routeId teamId expected key revokedBy available revision now =
      .ok (response, db')) :
    Changes hostServerIdentity now touched db.core db'.core ∧
      (db' = db ∨ ∃ r ∈ db'.routes, r.id = routeId ∧ r.status = .revoked) := by
  unfold revokeRoute at h
  simp only [bind_eq_ok, Prod.exists] at h
  obtain ⟨_, -, _, -, _, -, _, -, _, -, digest, cached, -, h⟩ := h
  cases cached with
  | some response =>
      simp only [pure_eq_ok, Prod.mk.injEq] at h
      rw [h.2]
      exact ⟨.refl, .inl rfl⟩
  | none =>
      simp only [bind_eq_ok, pure_eq_ok, Prod.mk.injEq] at h
      obtain ⟨mid, hend, last, hrecord, -, rfl⟩ := h
      obtain ⟨hchanges, hrevoked⟩ := endRoute_changes hend
      rw [recordOperation_eq hrecord]
      exact ⟨hchanges, .inr hrevoked⟩

theorem revokePeerRoute_changes [Sha256] (hostServerIdentity : String)
    (touched : Touched) {peer : PeerAuthorization}
    {routeId expected key revision : String} {available : Bool} {response : Json}
    (h : db.revokePeerRoute peer routeId expected key available revision now =
      .ok (response, db')) :
    Changes hostServerIdentity now touched db.core db'.core ∧
      (db' = db ∨ ∃ r ∈ db'.routes, r.id = routeId ∧ r.status = .revoked) := by
  unfold revokePeerRoute at h
  simp only [bind_eq_ok, Prod.exists] at h
  obtain ⟨_, -, _, -, _, -, digest, cached, -, h⟩ := h
  cases cached with
  | some response =>
      simp only [pure_eq_ok, Prod.mk.injEq] at h
      rw [h.2]
      exact ⟨.refl, .inl rfl⟩
  | none =>
      simp only [bind_eq_ok, pure_eq_ok, Prod.mk.injEq] at h
      obtain ⟨mid, hend, last, hrecord, -, rfl⟩ := h
      obtain ⟨hchanges, hrevoked⟩ := endRoute_changes hend
      rw [recordOperation_eq hrecord]
      exact ⟨hchanges, .inr hrevoked⟩

/-! ## Envelopes -/

theorem pruneRelayState_changes (db : Db) (now : Nat) :
    Changes hostServerIdentity now touched db.core (db.pruneRelayState now).core := by
  have hexpire : Change hostServerIdentity now touched db.core
      (db.expireEnvelopes fun e => decide (e.expiresAt ≤ now)).core := .expire
  refine .tail (.single hexpire) (.forget ?_)
  intro e he
  rw [Bool.and_eq_true] at he
  simpa using he.1

theorem sourceRoute_eq {sender : Sender} {routeId : String} {source : PeerRoute}
    (h : db.sourceRoute sender routeId = some source) :
    source ∈ db.routes ∧ source.id = routeId ∧ source.status = .active ∧
      source.teamId = sender.teamId ∧
      match sender with
      | .peer caller => source.targetKind = .peer ∧ source.peerId = some caller.peerId
      | .host .. => source.targetKind = .host := by
  unfold sourceRoute at h
  obtain ⟨hfind, hsel⟩ := Option.filter_eq_some_iff.mp h
  obtain ⟨hmem, hid⟩ := Tables.find_mem hfind
  simp only [Bool.and_eq_true, beq_iff_eq] at hsel
  refine ⟨hmem, hid, hsel.1.1, hsel.1.2, ?_⟩
  cases sender with
  | peer caller => simpa using hsel.2
  | host teamId routeId => simpa using hsel.2

theorem peer?_mem {peerId : Option String} {p : Peer} (h : db.peer? peerId = some p) :
    p ∈ db.peers ∧ peerId = some p.id := by
  unfold peer? at h
  obtain ⟨id, rfl, hfind⟩ := Option.bind_eq_some_iff.mp h
  obtain ⟨hmem, rfl⟩ := Tables.find_mem hfind
  exact ⟨hmem, rfl⟩

/-- What the checks of a submission say about the new envelope. -/
theorem checkRoutes_carries {sender : Sender} {payload : EnvelopePayload}
    {source target : PeerRoute} {epoch : Nat} {available : Bool}
    (hchat : db.requireCrossChat available sender.authorization = .ok epoch)
    (hsource : db.sourceRoute sender payload.sourceRouteId = some source)
    (htarget : db.route? payload.targetRouteId = some target)
    (h : db.checkRoutes sender payload source target epoch now = .ok ()) (leg : Leg)
    (digest : Bytes) (envelopeId : String) : ∃ p, db.core.Carries p source target
      (queuedEnvelope sender payload source target leg digest envelopeId now) := by
  obtain ⟨hsourceMem, -, hsourceLive, hsourceTeam, hkind⟩ := sourceRoute_eq hsource
  obtain ⟨htargetMem, -⟩ := Tables.find_mem htarget
  obtain rfl := requireCrossChat_epoch hchat
  unfold checkRoutes at h
  simp only [bind_eq_ok, require_eq_ok] at h
  obtain ⟨_, havailable, _, hpaired, _, hsourceGrant, _, htargetGrant, hscope⟩ := h
  simp only [targetAvailable, Bool.and_eq_true, beq_iff_eq] at havailable
  obtain ⟨⟨⟨htargetTeam, htargetLive⟩, hrevision⟩, hbehind⟩ := havailable
  have hsourceLive' : source ∈ db.core.routes ∧ source.id = source.id ∧
      source.status = .active ∧ source.revision = source.revision ∧
      source.serverIdentity = source.serverIdentity := ⟨hsourceMem, rfl, hsourceLive, rfl, rfl⟩
  have htargetLive' : target ∈ db.core.routes ∧ target.id = target.id ∧
      target.status = .active ∧ target.revision = payload.targetRouteRevision ∧
      target.serverIdentity = target.serverIdentity :=
    ⟨htargetMem, rfl, htargetLive, hrevision, rfl⟩
  cases sender with
  | peer caller =>
      -- from the caller's route to a route of this host
      obtain ⟨-, p, hp, hid, hactive, hgrant, -⟩ := requireCrossChat_eq hchat
      simp only [routesPaired, hkind.1, Bool.and_eq_true, beq_iff_eq] at hpaired
      refine ⟨p, ⟨hp, hactive, hgrant⟩, hsourceLive', htargetLive',
        hsourceTeam.trans htargetTeam.symm, ⟨hsourceGrant, htargetGrant⟩, ?_⟩
      refine .toHost ⟨hkind.1, hpaired.1⟩ ⟨?_, ?_⟩ ⟨congrArg some hid.symm, rfl⟩
      · rw [hkind.2, hid]
      · rw [hpaired.2, hid]
        rfl
  | host teamId routeId =>
      -- from a route of this host to the peer behind the target
      simp only [routesPaired, hkind, Bool.and_eq_true, beq_iff_eq] at hpaired
      rw [hpaired.1] at hbehind hscope
      cases hpeer : db.peer? target.peerId with
      | none => simp [hpeer] at hbehind
      | some p =>
          obtain ⟨hp, howner⟩ := peer?_mem hpeer
          simp only [hpeer, Option.any_some, Bool.and_eq_true, beq_iff_eq] at hbehind
          simp only [hpeer, Option.map_some, Option.getD_some, relayScope,
            require_eq_ok] at hscope
          refine ⟨p, ⟨hp, hbehind.1.1, hbehind.2⟩, hsourceLive', htargetLive',
            hsourceTeam.trans htargetTeam.symm, ⟨hsourceGrant, htargetGrant⟩, ?_⟩
          exact .toPeer ⟨hkind, hpaired.1⟩ ⟨hpaired.2.trans howner, howner⟩ ⟨rfl, howner⟩ hscope

theorem takeLeg_core {payload : EnvelopePayload} {source target : PeerRoute}
    {teamId newExchangeId : String} {leg : Leg}
    (h : db.takeLeg payload source target teamId newExchangeId now = .ok (leg, db')) :
    db'.core = db.core := by
  unfold takeLeg at h
  split at h
  next =>
    simp only [bind_eq_ok, pure_eq_ok, Prod.mk.injEq] at h
    obtain ⟨_, -, _, -, -, rfl⟩ := h
    rfl
  next =>
    simp only [bind_eq_ok, pure_eq_ok, Prod.mk.injEq] at h
    obtain ⟨_, -, _, -, _, -, _, -, _, -, _, -, _, -, -, rfl⟩ := h
    rfl

theorem recordUsage_core (sender : Sender) (messageBytes : Nat) :
    (db.recordUsage sender messageBytes now).core = db.core := by
  unfold recordUsage
  split
  next => rfl
  next =>
    dsimp only
    split <;> rfl

theorem advanceExchange_core {leg : Leg} {envelopeId : String} {kind : RelayKind}
    (h : db.advanceExchange leg envelopeId kind = .ok db') : db'.core = db.core := by
  unfold advanceExchange at h
  simp only [bind_eq_ok, pure_eq_ok] at h
  obtain ⟨_, -, rfl⟩ := h
  rfl

theorem insertEnvelope_eq {e : RelayEnvelope} (h : db.insertEnvelope e = .ok db') :
    db' = { db with envelopes := db.envelopes ++ [e] } ∧ ∀ old ∈ db.envelopes, old.id ≠ e.id := by
  unfold insertEnvelope at h
  simp only [bind_eq_ok, required_eq_ok, pure_eq_ok, Tables.insertRow_eq_some] at h
  obtain ⟨_, ⟨⟨-, hfresh⟩, rfl⟩, rfl⟩ := h
  exact ⟨rfl, hfresh⟩

theorem submitEnvelope_changes [Sha256] {sender : Sender} {payload : EnvelopePayload}
    {envelopeId newExchangeId : String} {available full : Bool} {answer : Submitted}
    (h : db.submitEnvelope sender payload envelopeId newExchangeId available full now =
      .ok (answer, db')) :
    Changes hostServerIdentity now (.submitted envelopeId) db.core db'.core := by
  unfold submitEnvelope at h
  simp only [bind_eq_ok, required_eq_ok] at h
  obtain ⟨_, -, epoch, hchat, source, hsource, h⟩ := h
  refine .trans (pruneRelayState_changes db now) ?_
  split at h
  next =>
    simp only [bind_eq_ok, pure_eq_ok, Prod.mk.injEq] at h
    obtain ⟨_, -, -, rfl⟩ := h
    exact .refl
  next =>
    simp only [bind_eq_ok, required_eq_ok, pure_eq_ok, Prod.exists, Prod.mk.injEq] at h
    obtain ⟨_, -, target, htarget, _, hroutes, leg, mid, hleg, later, hinsert, last, hadvance, -,
      rfl⟩ := h
    have hmid : mid.core = ((db.pruneRelayState now).pruneHistory now).core := takeLeg_core hleg
    have hallowed : ((db.pruneRelayState now).pruneHistory now).requireCrossChat available
        sender.authorization = .ok epoch := hchat
    obtain ⟨p, hcarried⟩ := checkRoutes_carries hallowed hsource htarget hroutes leg
      (Sha256.digest (utf8 (Json.canonical payload.json))) envelopeId
    obtain ⟨rfl, hfresh⟩ := insertEnvelope_eq hinsert
    have hused : (mid.recordUsage sender (Json.utf8Size payload.message.toList) now).core =
        ((db.pruneRelayState now).pruneHistory now).core := (recordUsage_core sender _).trans hmid
    refine .single ?_
    change Change _ _ _ ((db.pruneRelayState now).pruneHistory now).core last.core
    rw [advanceExchange_core hadvance]
    rw [← hused] at hcarried ⊢
    exact .submit hfresh rfl hcarried rfl

/-- What a claim hands out, and the state it is selected in. -/
theorem claimInbox_eq [Sha256] {inbox : Inbox} {owner : String} {limit : Nat} {token : String}
    {available : Bool} {answer : Claimed}
    (h : db.claimInbox hostServerIdentity inbox owner limit token available now =
      .ok (answer, db')) :
    let seen := (db.pruneRelayState now).requeue now
    answer.envelopes =
        firstOf (seen.envelopes.filter (seen.selects hostServerIdentity inbox)) limit ∧
      db' = { seen with envelopes := seen.envelopes.map (RelayEnvelope.leaseIn
        (answer.envelopes.map RelayEnvelope.id) owner
        (Sha256.digest (utf8 token.toList)) now) } := by
  unfold claimInbox at h
  simp only [bind_eq_ok] at h
  obtain ⟨_, -, _, -, _, -, _, -, _, -, _, -, h⟩ := h
  dsimp only
  split at h
  next hnone =>
    simp only [pure_eq_ok, Prod.mk.injEq] at h
    obtain ⟨rfl, rfl⟩ := h
    rw [hnone]
    exact ⟨rfl, rfl⟩
  next =>
    simp only [pure_eq_ok, Prod.mk.injEq] at h
    obtain ⟨rfl, rfl⟩ := h
    exact ⟨rfl, rfl⟩

theorem requeued_changes (hostServerIdentity : String) (touched : Touched) (db : Db)
    (now : Nat) :
    Changes hostServerIdentity now touched db.core ((db.pruneRelayState now).requeue now).core :=
  .tail (pruneRelayState_changes db now) .requeue

theorem claimInbox_changes [Sha256] {inbox : Inbox} {owner : String} {limit : Nat}
    {token : String} {available : Bool} {answer : Claimed}
    (h : db.claimInbox hostServerIdentity inbox owner limit token available now =
      .ok (answer, db')) : Changes hostServerIdentity now touched db.core db'.core := by
  rw [(claimInbox_eq h).2]
  exact .tail (requeued_changes hostServerIdentity touched db now) .lease

theorem settleEnvelope_eq {receiver : Receiver} {e : RelayEnvelope} {outcome : ReceiptOutcome}
    {answer : Receipted}
    (h : db.settleEnvelope hostServerIdentity receiver e outcome now = .ok (answer, db')) :
    ∃ target, db.checkReceiptRoutes hostServerIdentity receiver e = .ok target ∧
      (∀ old ∈ db.receipts, old.envelopeId ≠ e.id) ∧ answer = ⟨e.id, outcome, now⟩ ∧
      db'.core = { db.core with
        envelopes := db.envelopes.map (RelayEnvelope.settle e.id outcome)
        receipts := db.receipts ++ [⟨e.id, receiver.peerId, target.id, outcome, now⟩] } := by
  unfold settleEnvelope at h
  simp only [bind_eq_ok, required_eq_ok, pure_eq_ok, Prod.mk.injEq, Tables.insertRow_eq_some] at h
  obtain ⟨target, hroutes, _, ⟨⟨-, hfresh⟩, rfl⟩, rfl, rfl⟩ := h
  exact ⟨target, hroutes, hfresh, rfl, rfl⟩

/-- A receipt is answered from its record, ends an envelope past its time, or settles an
envelope that is leased to the receiver. -/
theorem receiptEnvelope_cases [Sha256] (hostServerIdentity : String) (db : Db) (receiver : Receiver)
    (envelopeId token : String) (outcome : ReceiptOutcome) (available : Bool) (now : Nat) :
    let result :=
      db.receiptEnvelope hostServerIdentity receiver envelopeId token outcome available now
    (result.1 = db ∧ ∀ answer, result.2 = .ok answer →
        ∃ r, Tables.find RelayReceipt.envelopeId db.receipts envelopeId = some r ∧
          r.outcome = outcome ∧ r.targetPeerId = receiver.peerId ∧
          (∀ teamId routeId, receiver = .host teamId routeId → r.targetRouteId = routeId) ∧
          answer = ⟨envelopeId, outcome, r.receivedAt⟩) ∨
      (Tables.find RelayReceipt.envelopeId db.receipts envelopeId = none ∧
        result.2.isOk = false ∧ result.1.core = (db.expireEnvelopes fun e =>
          decide (e.id = envelopeId) && e.status == .claimed).core) ∨
      ∃ row ∈ db.envelopes, row.id = envelopeId ∧ now < row.expiresAt ∧
        addressedTo hostServerIdentity receiver row = true ∧
        row.leasedTo (Sha256.digest (utf8 token.toList)) now = true ∧
        ∃ answer, result.2 = .ok answer ∧
          db.settleEnvelope hostServerIdentity receiver row outcome now =
            .ok (answer, result.1) := by
  unfold receiptEnvelope
  dsimp only
  split
  next => exact .inl ⟨rfl, by simp⟩
  next existing hfound =>
    refine .inl ?_
    simp only [bind_eq_ok] at hfound
    obtain ⟨_, -, _, -, _, -, hfound⟩ := hfound
    split at hfound
    next record hrecord =>
      rw [pure_eq_ok, Sum.inl.injEq] at hfound
      subst hfound
      split_ifs with hsame
      · simp only [Bool.and_eq_true, decide_eq_true_eq] at hsame
        refine ⟨rfl, ?_⟩
        rintro answer ⟨⟩
        refine ⟨record, hrecord, hsame.2, hsame.1.1, ?_, rfl⟩
        rintro teamId routeId rfl
        simpa using hsame.1.2
      · exact ⟨rfl, by simp⟩
    next =>
      obtain ⟨_, -, hfound⟩ := (bind_eq_ok _ _ _).mp hfound
      obtain ⟨_, -, hfound⟩ := (bind_eq_ok _ _ _).mp hfound
      simp at hfound
  next row hfound =>
    simp only [bind_eq_ok] at hfound
    obtain ⟨_, -, _, -, _, -, hfound⟩ := hfound
    split at hfound
    next => simp at hfound
    next hnone =>
      obtain ⟨found, hrow, hfound⟩ := (bind_eq_ok _ _ _).mp hfound
      obtain ⟨_, hchecks, hfound⟩ := (bind_eq_ok _ _ _).mp hfound
      rw [pure_eq_ok, Sum.inr.injEq] at hfound
      subst hfound
      rw [require_eq_ok, Bool.and_eq_true] at hchecks
      obtain ⟨hmem, hid⟩ := Tables.find_mem ((required_eq_ok _ _ _).mp hrow)
      split_ifs with hdue
      · exact .inr (.inl ⟨hnone, rfl, rfl⟩)
      · cases hsettle : db.settleEnvelope hostServerIdentity receiver found outcome now with
        | error e => exact .inl ⟨rfl, by simp⟩
        | ok settled =>
            exact .inr (.inr ⟨found, hmem, hid, Nat.lt_of_not_le hdue, hchecks.1, hchecks.2,
              settled.1, rfl, hsettle⟩)

/-- A receipt that is recorded is answered from its record. -/
theorem receiptEnvelope_replay [Sha256] {receiver : Receiver} {envelopeId token : String}
    {available : Bool} {epoch : Nat} {r : RelayReceipt} (huuid : isUuid4 envelopeId = true)
    (htoken : 32 ≤ token.length ∧ token.length ≤ 96)
    (hchat : db.requireCrossChat available receiver.authorization = .ok epoch)
    (hr : Tables.find RelayReceipt.envelopeId db.receipts envelopeId = some r)
    (hpeer : r.targetPeerId = receiver.peerId)
    (hroute : ∀ teamId routeId, receiver = .host teamId routeId → r.targetRouteId = routeId) :
    (db.receiptEnvelope hostServerIdentity receiver envelopeId token r.outcome available now).2 =
      .ok ⟨envelopeId, r.outcome, r.receivedAt⟩ := by
  unfold receiptEnvelope
  dsimp only
  simp only [huuid, htoken, hchat, hr, require, and_self, if_true, ok_bind]
  cases receiver with
  | peer caller => simp [pure, Except.pure, hpeer]
  | host teamId routeId => simp [pure, Except.pure, hpeer, hroute teamId routeId rfl]

theorem receiptEnvelope_changes [Sha256] (db : Db) (receiver : Receiver)
    (envelopeId token : String) (outcome : ReceiptOutcome) (available : Bool) (now : Nat) :
    Changes hostServerIdentity now (.receipted envelopeId) db.core (db.receiptEnvelope hostServerIdentity receiver envelopeId
      token outcome available now).1.core := by
  obtain ⟨hsame, _⟩ | ⟨_, _, hexpired⟩ | ⟨row, hmem, hid, -, -, hleased, answer, -, hsettle⟩ :=
    receiptEnvelope_cases hostServerIdentity db receiver envelopeId token outcome available now
  · rw [hsame]
  · rw [hexpired]
    exact .single .expire
  · obtain ⟨target, -, hfresh, -, hcore⟩ := settleEnvelope_eq hsettle
    rw [hcore]
    simp only [RelayEnvelope.leasedTo, Bool.and_eq_true, beq_iff_eq] at hleased
    exact .single (.settle (r := ⟨row.id, receiver.peerId, target.id, outcome, now⟩)
      ⟨hmem, hleased.1.1⟩ rfl hfresh (congrArg Touched.receipted hid.symm))

end Db

/-! ## Every transaction -/

/-- A transaction that answers with what its body gives. -/
theorem answered_eq_ok {β : Type} {db : Db} {body : Except Failure (β × Db)} (f : β → Answer)
    {a : Answer}
    (h : (atomically db do
      let (answer, after) ← body
      pure (f answer, after)).2 = .ok a) :
    ∃ answer, body = .ok (answer, (atomically db do
      let (answer, after) ← body
      pure (f answer, after)).1) ∧ f answer = a := by
  obtain ⟨after, hbody, hafter⟩ := atomically_eq_ok h
  rw [hafter]
  simp only [bind_eq_ok, pure_eq_ok, Prod.exists, Prod.mk.injEq] at hbody
  obtain ⟨answer, last, hbody, hanswer, rfl⟩ := hbody
  exact ⟨answer, hbody, hanswer⟩

/-- A transaction that changes the database commits its body. -/
theorem answered_changed {β : Type} {db : Db} {body : Except Failure (β × Db)} (f : β → Answer)
    (h : (atomically db do
      let (answer, after) ← body
      pure (f answer, after)).1 ≠ db) :
    ∃ answer, body = .ok (answer, (atomically db do
      let (answer, after) ← body
      pure (f answer, after)).1) := by
  cases hbody : body with
  | error e =>
      rw [hbody] at h
      exact absurd rfl h
  | ok result => exact ⟨result.1, rfl⟩

theorem atomically_changes {β : Type} {db : Db} {now : Nat} {body : Except Failure (β × Db)} (f : β → Answer)
    (h : ∀ answer after, body = .ok (answer, after) →
      Changes hostServerIdentity now touched db.core after.core) :
    Changes hostServerIdentity now touched db.core
      (atomically db do
        let (answer, after) ← body
        pure (f answer, after)).1.core := by
  apply atomically_keep (P := fun after : Db =>
    Changes hostServerIdentity now touched db.core after.core) .refl
  intro answer after hbody
  simp only [bind_eq_ok, pure_eq_ok, Prod.exists, Prod.mk.injEq] at hbody
  obtain ⟨given, last, hbody, -, rfl⟩ := hbody
  exact h given last hbody

theorem perform_changes [Sha256] [CertificateEncoding] (db : Db) (now : Nat) (call : HostCall) :
    Changes hostServerIdentity now call.touched db.core (perform hostServerIdentity db now call).1.core := by
  cases call with
  | submitPairing =>
      apply atomically_changes fun _ => .done
      intro answer after h
      rw [Db.submitPairing_core h]
  | approvePairing => exact Db.approvePairing_changes ..
  | authenticatePeer => exact .refl
  | authorizePeerSelfRevocation => exact .refl
  | renewPeer =>
      apply atomically_changes .renewed
      intro answer after h
      obtain ⟨rfl, -⟩ | ⟨-, hchange⟩ := Db.renewPeer_cases hostServerIdentity _ h
      · exact .refl
      · exact .single hchange
  | activateRenewal =>
      apply atomically_changes .activated
      intro answer after h
      obtain ⟨rfl, -⟩ | ⟨-, hchange⟩ := Db.activateRenewal_cases hostServerIdentity _ h
      · exact .refl
      · exact .single hchange
  | revokePeer => exact atomically_changes (fun _ => .done) fun _ _ => Db.revokePeer_changes
  | revokePeerForSelf =>
      exact atomically_changes (fun _ => .done) fun _ _ => Db.revokePeerForSelf_changes
  | reconcileActiveLogicalPeers =>
      exact atomically_changes (fun _ => .done) fun _ _ => Db.reconcile_changes
  | activateCrossChatConsent =>
      exact atomically_changes (fun _ => .done) fun _ _ h =>
        (Db.activateCrossChatConsent_changes _ _ h).1
  | retireAgentRoutesLocally revision =>
      change Changes _ _ _ db.core (db.retireAgentRoutesLocally revision now).2.core
      rw [Db.retire_core]
      exact .single .endAll
  | publishLocalRoute =>
      exact atomically_changes (fun _ => .done) fun _ _ => Db.publishLocalRoute_changes
  | publishPeerRoute =>
      exact atomically_changes (fun _ => .done) fun _ _ => Db.publishPeerRoute_changes
  | revokeRoute =>
      exact atomically_changes (fun _ => .done) fun _ _ h => (Db.revokeRoute_changes _ _ h).1
  | revokePeerRoute =>
      exact atomically_changes (fun _ => .done) fun _ _ h => (Db.revokePeerRoute_changes _ _ h).1
  | submitEnvelope => exact atomically_changes .submitted fun _ _ => Db.submitEnvelope_changes
  | claimInbox => exact atomically_changes .claimed fun _ _ => Db.claimInbox_changes
  | receiptEnvelope => exact Db.receiptEnvelope_changes ..

section Step

variable [Sha256] [CertificateEncoding] {h : Host} {act : HostCall × Nat}

theorem step_changes (h : Host) (act : HostCall × Nat) :
    Changes hostServerIdentity act.2 act.1.touched h.db.core
      (step hostServerIdentity h act).1.db.core := by
  unfold step
  split
  next => exact perform_changes h.db act.2 act.1
  next => exact .refl

/-- What every change keeps, every transaction keeps. -/
theorem step_keep {P : Core → Prop} (h : Host) (act : HostCall × Nat)
    (one : ∀ {c c'}, Change hostServerIdentity act.2 act.1.touched c c' → P c → P c')
    (hcore : P h.db.core) :
    P (step hostServerIdentity h act).1.db.core :=
  (step_changes h act).keep one hcore

/-- A call without its authorization changes nothing; any other is performed. -/
theorem step_cases (hostServerIdentity : String) (h : Host) (act : HostCall × Nat) :
    ((step hostServerIdentity h act).1.db = h.db ∧
        (step hostServerIdentity h act).2 = .error authenticationRequired) ∨
      ((step hostServerIdentity h act).1.db = (perform hostServerIdentity h.db act.2 act.1).1 ∧
        (step hostServerIdentity h act).2 = (perform hostServerIdentity h.db act.2 act.1).2) := by
  unfold step
  split
  next => exact .inr ⟨rfl, rfl⟩
  next => exact .inl ⟨rfl, rfl⟩

/-- A call that succeeds was performed. -/
theorem step_ok {answer : Answer} (hok : (step hostServerIdentity h act).2 = .ok answer) :
    (perform hostServerIdentity h.db act.2 act.1).2 = .ok answer ∧
      (step hostServerIdentity h act).1.db = (perform hostServerIdentity h.db act.2 act.1).1 := by
  obtain ⟨-, hrefused⟩ | ⟨hdb, hsame⟩ := step_cases hostServerIdentity h act
  · rw [hrefused] at hok
    cases hok
  · exact ⟨hsame.symm.trans hok, hdb⟩

end Step

end AgentsServer.PeerStore

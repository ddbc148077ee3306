import AgentsServer.Library.Paging
import AgentsServer.PeerStore.Receipts

/-!
# Offers of relayed envelopes

What is handed out is on two active routes of one team, for a peer with the current grant.
An envelope that waits is offered until its own expiry, and none is once one of its routes is
withdrawn.
-/

namespace AgentsServer.PeerStore

open Library

variable {hostServerIdentity : String}

/-! ## The calls -/

/-- The call ends this route, which the change of the database shows. -/
def Withdraws [Sha256] [CertificateEncoding] (hostServerIdentity : String) (e : HostEvent)
    (r : PeerRoute) : Prop :=
  match e.action.1 with
  | .retireAgentRoutesLocally _ => True
  | .activateCrossChatConsent .. => (step hostServerIdentity e.before e.action).1.db ≠ e.before.db
  | .revokeRoute routeId .. | .revokePeerRoute _ routeId .. => r.id = routeId ∧
      (step hostServerIdentity e.before e.action).1.db ≠ e.before.db
  | _ => False

/-- The inbox is one that the envelope is addressed to. -/
def Db.IsFor (db : Db) (x : RelayEnvelope) : Inbox → Prop
  | .peer caller => x.targetPeerId = some caller.peerId
  | .route teamId routeId => x.targetRouteId = routeId ∧
      ∃ r ∈ db.routes, r.id = routeId ∧ r.teamId = teamId ∧ r.targetKind = .host
  | .fromPeer peerId => x.sourcePeerId = some peerId
  | .allLocal => ∃ r ∈ db.routes, r.id = x.targetRouteId ∧ r.targetKind = .host

/-- The claim passes its own checks. -/
def Db.MayClaim (db : Db) (inbox : Inbox) (owner : String) (limit : Nat) (available : Bool) :
    Prop :=
  checkSelector inbox = .ok () ∧ isIdentifier owner = true ∧ (1 ≤ limit ∧ limit ≤ 50) ∧
    ∃ epoch, db.requireCrossChat available inbox.authorization = .ok epoch

/-- Not handed out, or under a lease that has run out. -/
def RelayEnvelope.Waiting (x : RelayEnvelope) (now : Nat) : Prop :=
  x.status = .queued ∨ x.status = .claimed ∧ ∀ t, x.leaseExpiresAt = some t → t ≤ now

/-- The first of two envelopes in the order of a claim. -/
def RelayEnvelope.ComesBefore (x y : RelayEnvelope) : Prop :=
  x.createdAt < y.createdAt ∨ x.createdAt = y.createdAt ∧ x.id ≤ y.id

/-! ## The order of a claim -/

theorem Db.firstOf_offers {rows : List RelayEnvelope} {x : RelayEnvelope} (hx : x ∈ rows)
    (limit : Nat) : x ∈ firstOf rows limit ∨
      (firstOf rows limit).length = limit ∧ ∀ y ∈ firstOf rows limit, y.ComesBefore x := by
  have hsorted : (rows.mergeSort fun a b => decide (a.createdAt < b.createdAt) ||
      (decide (a.createdAt = b.createdAt) && decide (a.id ≤ b.id))).Pairwise fun a b =>
      (decide (a.createdAt < b.createdAt) ||
        (decide (a.createdAt = b.createdAt) && decide (a.id ≤ b.id))) = true := by
    refine List.pairwise_mergeSort ?_ ?_ rows
    · intro a b c hab hbc
      simp only [Bool.or_eq_true, Bool.and_eq_true, decide_eq_true_eq] at hab hbc ⊢
      rcases hab with hab | ⟨hab, habId⟩ <;> rcases hbc with hbc | ⟨hbc, hbcId⟩
      · exact .inl (hab.trans hbc)
      · exact .inl (hbc ▸ hab)
      · exact .inl (hab ▸ hbc)
      · exact .inr ⟨hab.trans hbc, String.le_trans habId hbcId⟩
    · intro a b
      simp only [Bool.or_eq_true, Bool.and_eq_true, decide_eq_true_eq]
      rcases lt_trichotomy a.createdAt b.createdAt with hlt | heq | hgt
      · exact .inl (.inl hlt)
      · rcases String.le_total a.id b.id with hle | hle
        · exact .inl (.inr ⟨heq, hle⟩)
        · exact .inr (.inr ⟨heq.symm, hle⟩)
      · exact .inr (.inl hgt)
  rcases Paging.take_of_sorted hsorted (List.mem_mergeSort.mpr hx) limit with hfirst | hfull
  · exact .inl hfirst
  · refine .inr ⟨hfull.1, ?_⟩
    intro y hy
    simpa [RelayEnvelope.ComesBefore] using hfull.2 y hy

/-! ## What an inbox selects -/

namespace Db

variable {db : Db} {x : RelayEnvelope} {p : Peer} {source target : PeerRoute}

theorem route?_of_mem (relayed : db.core.Relayed hostServerIdentity) {r : PeerRoute}
    (hr : r ∈ db.routes) : db.route? r.id = some r :=
  Tables.find_of_mem relayed.routeIds hr

theorem currentRoutes_of_carries (relayed : db.core.Relayed hostServerIdentity)
    (carried : db.core.Carries p source target x) :
    db.currentRoutes x = some (source, target) := by
  obtain ⟨hsource, hsourceId, hsourceActive, hsourceRevision, -⟩ := carried.sourceLive
  obtain ⟨htarget, htargetId, htargetActive, htargetRevision, -⟩ := carried.targetLive
  unfold currentRoutes
  rw [← hsourceId, ← htargetId, route?_of_mem relayed hsource, route?_of_mem relayed htarget]
  simp [hsourceActive, hsourceRevision, htargetActive, htargetRevision, carried.team]

/-- The peer that a route is published for is the one behind the envelopes on it. -/
theorem published_is (consistent : db.core.Credentials ∧ db.core.Relayed hostServerIdentity)
    {r : PeerRoute} (hr : r ∈ db.routes) (hp : p ∈ db.peers) (hof : r.isOf p.id = true) :
    r.teamId = p.teamId ∧ Core.Published hostServerIdentity p r := by
  obtain ⟨q, hq, hteam, hpublished, -⟩ := consistent.2.published r hr
  have hsame := Tables.eq_of_key consistent.1.peerIds hq hp (hpublished.isOf.mp hof)
  rw [hsame] at hteam hpublished
  exact ⟨hteam, hpublished⟩

/-- The target of an envelope for this host. -/
theorem toHost_selected (consistent : db.core.Credentials ∧ db.core.Relayed hostServerIdentity)
    (carried : db.core.Carries p source target x) (kind : target.targetKind = .host)
    (only : String → Bool) (honly : only p.id = true) :
    x.targetServerIdentity = hostServerIdentity ∧
      db.fromCurrentPeer source target only = true := by
  obtain ⟨hp, hactive, hgrant⟩ := carried.peerLive
  cases carried.direction with
  | toPeer kinds =>
      rw [kinds.2] at kind
      cases kind
  | toHost kinds routes =>
      have hof : target.isOf p.id = true := by simp [PeerRoute.isOf, routes.2]
      obtain ⟨-, hpublished⟩ := published_is consistent carried.targetLive.1 hp hof
      have hpeer : db.peer? (some p.id) = some p :=
        Tables.find_of_mem consistent.1.peerIds hp
      refine ⟨?_, ?_⟩
      · cases hpublished with
        | peer targetKind => rw [targetKind] at kind; cases kind
        | host _ _ identity => exact carried.targetLive.2.2.2.2.symm.trans identity
      · have hepoch : p.crossChatGrantEpoch = some db.consentEpoch := hgrant
        simp [fromCurrentPeer, kinds, routes, hpeer, hactive, hepoch, honly]

/-- An inbox selects every queued envelope that is carried to it. -/
theorem selects_of_carries (consistent : db.core.Credentials ∧ db.core.Relayed hostServerIdentity)
    (carried : db.core.Carries p source target x) (queued : x.status = .queued) {inbox : Inbox}
    {available : Bool} {epoch : Nat}
    (hchat : db.requireCrossChat available inbox.authorization = .ok epoch)
    (isFor : db.IsFor x inbox) : db.selects hostServerIdentity inbox x = true := by
  have hroutes := currentRoutes_of_carries consistent.2 carried
  have hunique := consistent.2.routeIds
  unfold selects
  rw [queued, hroutes]
  cases inbox with
  | peer caller =>
      obtain ⟨-, row, hrow, hid, -, -, hidentity, hteam, -⟩ := requireCrossChat_eq hchat
      change x.targetPeerId = some caller.peerId at isFor
      cases carried.direction with
      | toHost kinds routes envelope =>
          -- the target of such an envelope is no peer's route
          have hof : target.isOf p.id = true := by simp [PeerRoute.isOf, routes.2]
          obtain ⟨-, hpublished⟩ :=
            published_is consistent carried.targetLive.1 carried.peerLive.1 hof
          rw [envelope.2] at isFor
          cases hpublished with
          | peer kind => rw [kind] at kinds; cases kinds.2
          | host _ audience => rw [audience.2] at isFor; cases isFor
      | toPeer kinds routes envelope =>
          obtain rfl : p = row := by
            apply Tables.eq_of_key consistent.1.peerIds carried.peerLive.1 hrow
            rw [hid]
            exact Option.some.inj (envelope.2.symm.trans isFor)
          have hof : target.isOf p.id = true := by simp [PeerRoute.isOf, routes.2]
          obtain ⟨htargetTeam, hpublished⟩ := published_is consistent carried.targetLive.1 hrow hof
          have hserver : target.serverIdentity = caller.peerServerIdentity := by
            cases hpublished with
            | peer _ _ identity => exact identity.trans hidentity
            | host kind => rw [kind] at kinds; cases kinds.2
          simp [routes, kinds, hid, hserver, htargetTeam, hteam, carried.sourceLive.2.2.2.2]
  | route teamId routeId =>
      obtain ⟨htarget, r, hr, hname, -, hkind⟩ := isFor
      obtain rfl : r = target := Tables.eq_of_key hunique hr carried.targetLive.1
        (hname.trans (htarget.symm.trans carried.targetLive.2.1.symm))
      obtain ⟨hhost, hfrom⟩ := toHost_selected consistent carried hkind (fun _ => true) rfl
      simp [htarget, hhost, hfrom]
  | fromPeer peerId =>
      change x.sourcePeerId = some peerId at isFor
      cases carried.direction with
      | toPeer _ _ envelope => rw [envelope.1] at isFor; cases isFor
      | toHost kinds _ envelope =>
          have hid : p.id = peerId := Option.some.inj (envelope.1.symm.trans isFor)
          obtain ⟨hhost, hfrom⟩ := toHost_selected consistent carried kinds.2
            (· == peerId) (by simp [hid])
          simp [hhost, hfrom]
  | allLocal =>
      obtain ⟨r, hr, hname, hkind⟩ := isFor
      obtain rfl : r = target := Tables.eq_of_key hunique hr carried.targetLive.1
        (hname.trans carried.targetLive.2.1.symm)
      obtain ⟨hhost, hfrom⟩ := toHost_selected consistent carried hkind (fun _ => true) rfl
      simp [hhost, hfrom]

/-- No envelope that an inbox selects fails its checks. -/
theorem checkClaimed_ok (consistent : db.core.Credentials ∧ db.core.Relayed hostServerIdentity)
    {inbox : Inbox} {available : Bool} {epoch : Nat}
    (hchat : db.requireCrossChat available inbox.authorization = .ok epoch)
    (hx : x ∈ db.envelopes) (hsel : db.selects hostServerIdentity inbox x = true) :
    db.checkClaimed inbox x = .ok () := by
  obtain ⟨p, source, target, carried⟩ := consistent.2.carried x hx (by
    rw [selects_queued hsel]
    rfl)
  have hsource := route?_of_mem consistent.2 carried.sourceLive.1
  have htarget := route?_of_mem consistent.2 carried.targetLive.1
  rw [carried.sourceLive.2.1] at hsource
  rw [carried.targetLive.2.1] at htarget
  unfold checkClaimed
  refine (require_bind ?_ _ _).trans ?_
  · simp [hsource, htarget, carried.granted]
  cases inbox with
  | route | fromPeer | allLocal => rfl
  | peer caller =>
      obtain ⟨-, row, hrow, hid, -, -, -, -, hscopes⟩ := requireCrossChat_eq hchat
      have hroutes := currentRoutes_of_carries consistent.2 carried
      simp only [selects, hroutes, Option.any_some, Bool.and_eq_true, beq_iff_eq] at hsel
      obtain ⟨-, ⟨⟨⟨⟨⟨howner, -⟩, -⟩, hkind⟩, -⟩, -⟩, -⟩ := hsel
      cases carried.direction with
      | toHost kinds => rw [kinds.2] at hkind; cases hkind
      | toPeer _ routes _ scope =>
          obtain rfl : p = row := by
            apply Tables.eq_of_key consistent.1.peerIds carried.peerLive.1 hrow
            rw [hid]
            exact Option.some.inj (routes.2.symm.trans howner)
          have hallowed : x.kind.requiredScope ∈ caller.scopes := by
            simp only [sameScopes, Bool.and_eq_true, List.all_eq_true,
              List.contains_iff_mem] at hscopes
            exact hscopes.1 _ scope
          simp [Inbox.authorization, relayScope, hallowed]

theorem forM_ok {f : RelayEnvelope → Except Failure Unit} {rows : List RelayEnvelope}
    (h : ∀ x ∈ rows, f x = .ok ()) : rows.forM f = .ok () := by
  induction rows with
  | nil => rfl
  | cons x rest ih =>
      change (f x >>= fun _ => rest.forM f) = .ok ()
      rw [h x List.mem_cons_self, ok_bind]
      exact ih fun y hy => h y (List.mem_cons_of_mem _ hy)

/-- A claim that passes its own checks succeeds. -/
theorem claimInbox_total [Sha256] {inbox : Inbox} {owner : String} {limit : Nat}
    {available : Bool} (consistent : db.core.Credentials ∧ db.core.Relayed hostServerIdentity)
    (may : db.MayClaim inbox owner limit available) (token : String) (now : Nat)
    (hinbox : ((db.pruneRelayState now).requeue now).checkInbox hostServerIdentity inbox =
      .ok ()) :
    ∃ answer db', db.claimInbox hostServerIdentity inbox owner limit token available now =
      .ok (answer, db') := by
  obtain ⟨hselector, howner, hlimit, epoch, hchat⟩ := may
  have hseen := (requeued_changes hostServerIdentity .nothing db now).keep
    (P := fun c : Core => c.Credentials ∧ c.Relayed hostServerIdentity)
    (fun hchange hcore => ⟨hcore.1.change hchange, hcore.2.change hchange⟩) consistent
  have hchecked : (firstOf (((db.pruneRelayState now).requeue now).envelopes.filter
      (((db.pruneRelayState now).requeue now).selects hostServerIdentity inbox)) limit).forM
      (((db.pruneRelayState now).requeue now).checkClaimed inbox) = .ok () := by
    apply forM_ok
    intro x hx
    obtain ⟨hmem, hsel⟩ := List.mem_filter.mp (List.mem_mergeSort.mp (List.mem_of_mem_take hx))
    have hallowed : ((db.pruneRelayState now).requeue now).requireCrossChat available
      inbox.authorization = .ok epoch := hchat
    exact checkClaimed_ok hseen hallowed hmem hsel
  have hidentifier : identifier owner "lease_owner" = .ok owner := by
    unfold identifier
    rw [require_bind howner]
    rfl
  unfold claimInbox
  rw [hselector, ok_bind, hidentifier, ok_bind, require_bind hlimit, hchat, ok_bind]
  dsimp only
  rw [hinbox, ok_bind, hchecked, ok_bind]
  split
  · exact ⟨_, _, rfl⟩
  · exact ⟨_, _, rfl⟩

/-- An envelope that waits is queued when a claim looks for it. -/
theorem requeued_mem (relayed : db.core.Relayed hostServerIdentity) {now : Nat}
    (hx : x ∈ db.envelopes) (waiting : x.Waiting now) (alive : now < x.expiresAt) :
    x.requeue now ∈ ((db.pruneRelayState now).requeue now).envelopes ∧
      (x.requeue now).status = .queued := by
  have hlive : x.status.isLive = true := by
    rcases waiting with hqueued | ⟨hclaimed, -⟩
    · rw [hqueued]; rfl
    · rw [hclaimed]; rfl
  constructor
  · have hexpire : x.expire (fun e => decide (e.expiresAt ≤ now)) = x := by
      rw [RelayEnvelope.expire, if_neg (by simp [Nat.not_le.mpr alive])]
    refine List.mem_map_of_mem (List.mem_filter.mpr ⟨?_, by simp [hlive]⟩)
    have hmem := List.mem_map_of_mem (f := RelayEnvelope.expire fun e =>
      decide (e.expiresAt ≤ now)) hx
    rw [hexpire] at hmem
    exact hmem
  · rcases waiting with hqueued | ⟨hclaimed, hdue⟩
    · rw [RelayEnvelope.requeue, if_neg (by simp [hqueued])]
      exact hqueued
    · cases hlease : x.leaseExpiresAt with
      | none => exact absurd hlease (relayed.leased x hx hclaimed)
      | some t =>
          rw [RelayEnvelope.requeue, if_pos (by simp [hclaimed, hlease, hdue t hlease, alive])]
          rfl

theorem IsFor.requeued {now : Nat} {inbox : Inbox} (h : db.IsFor x inbox) :
    ((db.pruneRelayState now).requeue now).IsFor (x.requeue now) inbox := by
  unfold RelayEnvelope.requeue
  split
  · cases inbox <;> exact h
  · cases inbox <;> exact h

/-- The route of a claim is there, as the envelopes for it show. -/
theorem checkInbox_ok (consistent : db.core.Credentials ∧ db.core.Relayed hostServerIdentity)
    (carried : db.core.Carries p source target x) {inbox : Inbox} (isFor : db.IsFor x inbox) :
    db.checkInbox hostServerIdentity inbox = .ok () := by
  cases inbox with
  | peer | fromPeer | allLocal => rfl
  | route teamId routeId =>
      obtain ⟨htarget, r, hr, hname, hteam, hkind⟩ := isFor
      obtain rfl : r = target := Tables.eq_of_key consistent.2.routeIds hr carried.targetLive.1
        (hname.trans (htarget.symm.trans carried.targetLive.2.1.symm))
      obtain ⟨hhost, -⟩ := toHost_selected consistent carried hkind (fun _ => true) rfl
      rw [checkInbox, require_eq_ok]
      exact ⟨r, hr, hname, carried.targetLive.2.2.2.2.trans hhost, hteam, hkind,
        carried.targetLive.2.2.1⟩

end Db

section Offers

variable [Sha256] [CertificateEncoding]

/-- What is handed out is on active routes, for a peer with the current grant. -/
theorem handsOut_carried {h : Host} {act : HostCall × Nat} {x : RelayEnvelope} {token : String}
    (consistent : h.Consistent hostServerIdentity)
    (hands : HandsOut ⟨h, act, (step hostServerIdentity h act).2⟩ x token) :
    ∃ p source target, h.db.core.Carries p source target x := by
  obtain ⟨-, hmem, ⟨inbox, hsel⟩, -⟩ := handsOut_selected hands
  have hseen := (Db.requeued_changes hostServerIdentity .nothing h.db act.2).keep
    (fun hchange hrelayed => Core.Relayed.change hrelayed hchange) consistent.relayed
  obtain ⟨p, source, target, carried⟩ := hseen.carried x hmem (by
    rw [Db.selects_queued hsel]
    rfl)
  exact ⟨p, source, target, carried.kept (fun q hq => hq) (fun r hr => hr) rfl rfl⟩

/-- An envelope that waits is handed out to the claim of an inbox it is for, or as many as the
claim asks for are, all of which come before it. -/
theorem waiting_offered {h : Host} {now : Nat} {inbox : Inbox} {owner : String} {limit : Nat}
    {token : String} {available : Bool} (consistent : h.Consistent hostServerIdentity)
    (held : (HostCall.claimInbox inbox owner limit token available).holder.all
      h.granted.contains = true)
    (may : h.db.MayClaim inbox owner limit available) {x : RelayEnvelope}
    (hx : x ∈ h.db.envelopes) (waiting : x.Waiting now) (alive : now < x.expiresAt)
    (isFor : h.db.IsFor x inbox) :
    ∃ claimed, (step hostServerIdentity h
        (.claimInbox inbox owner limit token available, now)).2 = .ok (.claimed claimed) ∧
      ((∃ y ∈ claimed.envelopes, y.id = x.id) ∨
        (claimed.envelopes.length = limit ∧ ∀ y ∈ claimed.envelopes, y.ComesBefore x)) := by
  have hseen := (Db.requeued_changes hostServerIdentity .nothing h.db now).keep
    (P := fun c : Core => c.Credentials ∧ c.Relayed hostServerIdentity)
    (fun hchange hcore => ⟨hcore.1.change hchange, hcore.2.change hchange⟩)
    ⟨consistent.credentials, consistent.relayed⟩
  have hlive : x.status.isLive = true := by
    rcases waiting with hqueued | ⟨hclaimed, -⟩
    · rw [hqueued]; rfl
    · rw [hclaimed]; rfl
  obtain ⟨p, source, target, carried⟩ := consistent.relayed.carried x hx hlive
  obtain ⟨hmem, hqueued⟩ := Db.requeued_mem consistent.relayed hx waiting alive
  have hfollows := RelayEnvelope.follows_requeue now x
  have hcarried : ((h.db.pruneRelayState now).requeue now).core.Carries p source target
      (x.requeue now) :=
    carried.kept (fun q hq => hq) (fun r hr => hr) rfl hfollows.same
  have hinbox := Db.checkInbox_ok hseen hcarried isFor.requeued
  obtain ⟨answer, db', hclaim⟩ := Db.claimInbox_total
    ⟨consistent.credentials, consistent.relayed⟩ may token now hinbox
  obtain ⟨-, -, -, epoch, hchat⟩ := may
  have hallowed : ((h.db.pruneRelayState now).requeue now).requireCrossChat available
    inbox.authorization = .ok epoch := hchat
  have hsel := Db.selects_of_carries hseen hcarried hqueued hallowed isFor.requeued
  refine ⟨answer, ?_, ?_⟩
  · rw [step, if_pos held]
    change (atomically h.db _).2 = _
    rw [hclaim]
    rfl
  · rw [(Db.claimInbox_eq hclaim).1]
    rcases Db.firstOf_offers (List.mem_filter.mpr ⟨hmem, hsel⟩) limit with hfirst | hfull
    · exact .inl ⟨_, hfirst, hfollows.id⟩
    · refine .inr ⟨hfull.1, ?_⟩
      intro y hy
      have hbefore := hfull.2 y hy
      unfold RelayEnvelope.requeue at hbefore
      split at hbefore
      · exact hbefore
      · exact hbefore

/-! ## Withdrawn routes -/

/-- The route exists and is revoked. -/
def Core.RouteRevoked (c : Core) (routeId : String) : Prop :=
  ∃ r ∈ c.routes, r.id = routeId ∧ r.status = .revoked

omit [Sha256] [CertificateEncoding] in
theorem Core.RouteRevoked.change {c c' : Core} {routeId : String} {now : Nat} {touched : Touched}
    (h : c.RouteRevoked routeId) (hchange : Change hostServerIdentity now touched c c') :
    c'.RouteRevoked routeId := by
  obtain ⟨r, hr, hid, hrevoked⟩ := h
  cases hchange with
  | revoke | endAll | endRoute =>
      refine ⟨_, List.mem_map_of_mem hr, by simpa using hid, ?_⟩
      rw [PeerRoute.revoke, if_neg (by simp [hrevoked])]
      exact hrevoked
  | publish => exact ⟨r, List.mem_append_left _ hr, hid, hrevoked⟩
  | approve | issue | activate | expire | forget | requeue | submit | lease | settle =>
      exact ⟨r, hr, hid, hrevoked⟩

omit [Sha256] [CertificateEncoding] in
/-- The end of every route leaves none active. -/
theorem Core.endAll_revoked {c ended : Core} {epoch now : Nat} {revision : PeerRoute → String}
    (h : ended = c.endAll epoch revision now) {r : PeerRoute} (hr : r ∈ ended.routes) :
    r.status = .revoked := by
  rw [h] at hr
  obtain ⟨old, -, rfl⟩ := List.mem_map.mp hr
  cases hstatus : (old.revoke (fun _ => true) revision now).status with
  | revoked => rfl
  | active => cases (PeerRoute.revoke_active hstatus).2

theorem step_changed {h : Host} {act : HostCall × Nat}
    (changed : (step hostServerIdentity h act).1.db ≠ h.db) :
    (step hostServerIdentity h act).1.db = (perform hostServerIdentity h.db act.2 act.1).1 := by
  obtain ⟨hsame, -⟩ | ⟨hdb, -⟩ := step_cases hostServerIdentity h act
  · exact absurd hsame changed
  · exact hdb

/-- What a call withdraws is revoked. -/
theorem withdraws_revoked {h : Host} {act : HostCall × Nat} {r : PeerRoute}
    (consistent : h.Consistent hostServerIdentity)
    (hr : r ∈ (step hostServerIdentity h act).1.db.routes)
    (withdraws : Withdraws hostServerIdentity ⟨h, act, (step hostServerIdentity h act).2⟩ r) :
    r.status = .revoked := by
  have unique := (consistent.step act).relayed.routeIds
  obtain ⟨call, now⟩ := act
  unfold Withdraws at withdraws
  split at withdraws
  next revision hcall =>
    obtain rfl : call = _ := hcall
    have hcore : (step hostServerIdentity h (.retireAgentRoutesLocally revision, now)).1.db.core =
        h.db.core.endAll h.db.consentEpoch revision now := Db.retire_core revision
    exact Core.endAll_revoked hcore hr
  next expectedEpoch key activatedBy available revision hcall =>
    obtain rfl : call = _ := hcall
    have hdb := step_changed withdraws
    change (step hostServerIdentity h _).1.db ≠ h.db at withdraws
    rw [hdb] at withdraws hr
    obtain ⟨answer, hok⟩ := answered_changed (fun _ => .done) withdraws
    have hcore := (Db.activateCrossChatConsent_changes hostServerIdentity .nothing
      hok).2.resolve_left withdraws
    exact Core.endAll_revoked hcore hr
  next routeId teamId expected key revokedBy available revision hcall =>
    obtain rfl : call = _ := hcall
    have hdb := step_changed withdraws.2
    obtain ⟨hid, hchanged⟩ := withdraws
    change (step hostServerIdentity h _).1.db ≠ h.db at hchanged
    rw [hdb] at hchanged hr unique
    obtain ⟨answer, hok⟩ := answered_changed (fun _ => .done) hchanged
    obtain ⟨ended, hended, hendedId, hstatus⟩ := (Db.revokeRoute_changes hostServerIdentity
      .nothing hok).2.resolve_left hchanged
    rw [Tables.eq_of_key unique hr hended (hid.trans hendedId.symm)]
    exact hstatus
  next peer routeId expected key available revision hcall =>
    obtain rfl : call = _ := hcall
    have hdb := step_changed withdraws.2
    obtain ⟨hid, hchanged⟩ := withdraws
    change (step hostServerIdentity h _).1.db ≠ h.db at hchanged
    rw [hdb] at hchanged hr unique
    obtain ⟨answer, hok⟩ := answered_changed (fun _ => .done) hchanged
    obtain ⟨ended, hended, hendedId, hstatus⟩ := (Db.revokePeerRoute_changes hostServerIdentity
      .nothing hok).2.resolve_left hchanged
    rw [Tables.eq_of_key unique hr hended (hid.trans hendedId.symm)]
    exact hstatus
  next => exact withdraws.elim

/-- Nothing on a revoked route is handed out. -/
theorem revoked_not_handed {h : Host} {act : HostCall × Nat} {x : RelayEnvelope} {token : String}
    {routeId : String} (consistent : h.Consistent hostServerIdentity)
    (revoked : h.db.core.RouteRevoked routeId)
    (hands : HandsOut ⟨h, act, (step hostServerIdentity h act).2⟩ x token) :
    x.sourceRouteId ≠ routeId ∧ x.targetRouteId ≠ routeId := by
  obtain ⟨p, source, target, carried⟩ := handsOut_carried consistent hands
  obtain ⟨r, hr, hid, hstatus⟩ := revoked
  have hactive : ∀ live ∈ h.db.routes, live.status = .active → live.id ≠ routeId := by
    intro live hlive hstatusLive hname
    rw [Tables.eq_of_key consistent.relayed.routeIds hlive hr (hname.trans hid.symm), hstatus]
      at hstatusLive
    cases hstatusLive
  obtain ⟨hsource, hsourceId, hsourceActive, -⟩ := carried.sourceLive
  obtain ⟨htarget, htargetId, htargetActive, -⟩ := carried.targetLive
  exact ⟨hsourceId ▸ hactive source hsource hsourceActive,
    htargetId ▸ hactive target htarget htargetActive⟩

/-- Once a route is revoked nothing on it is handed out. -/
theorem revoked_never_handed (hostServerIdentity : String) (consentEpoch : Nat)
    (acts : List (HostCall × Nat)) :
    (Runs.history (step hostServerIdentity) (Host.start consentEpoch) acts).Pairwise fun e f =>
      ∀ r ∈ (step hostServerIdentity e.before e.action).1.db.routes, r.status = .revoked →
        ∀ x token, HandsOut f x token → x.sourceRouteId ≠ r.id ∧ x.targetRouteId ≠ r.id := by
  refine Runs.history_pairwise (step hostServerIdentity)
    (I := fun h : Host => h.Consistent hostServerIdentity)
    (M := fun e h => ∀ r ∈ (step hostServerIdentity e.before e.action).1.db.routes,
      r.status = .revoked → h.db.core.RouteRevoked r.id) consistent_keep ?_ ?_ ?_ _
    (Host.Consistent.start consentEpoch) acts
  · exact fun h act _ r hr hrevoked => ⟨r, hr, rfl, hrevoked⟩
  · intro e h act _ hmark r hr hrevoked
    exact step_keep (P := fun c : Core => c.RouteRevoked r.id) h act
      (fun hchange hcore => hcore.change hchange) (hmark r hr hrevoked)
  · intro e h act consistent hmark r hr hrevoked x token hands
    exact revoked_not_handed consistent (hmark r hr hrevoked) hands

omit [Sha256] [CertificateEncoding] in
/-- The routes of a revoked peer are revoked. -/
theorem routes_of_revoked {h : Host} (consistent : h.Consistent hostServerIdentity) {p : Peer}
    (hp : p ∈ h.db.peers) (hrevoked : p.status = .revoked) {r : PeerRoute}
    (hr : r ∈ h.db.routes) (hof : r.isOf p.id = true) : r.status = .revoked := by
  obtain ⟨q, hq, -, hpublished, hlive⟩ := consistent.relayed.published r hr
  cases hstatus : r.status with
  | revoked => rfl
  | active =>
      have hactive := hlive hstatus
      rw [Tables.eq_of_key consistent.credentials.peerIds hq hp (hpublished.isOf.mp hof), hrevoked]
        at hactive
      cases hactive

/-- Relayed envelopes in every run: settled for good, under one lease at a time, receipted
once by the server of the target, offered until they expire, and handed out only on active
routes, which none is once it is withdrawn. -/
theorem relay_in_every_run (hostServerIdentity : String) (consentEpoch : Nat)
    (acts : List (HostCall × Nat)) :
    let events := Runs.history (step hostServerIdentity) (Host.start consentEpoch) acts;
    (∀ pre e mid f post, events = pre ++ e :: mid ++ f :: post →
      ∀ x ∈ (step hostServerIdentity e.before e.action).1.db.envelopes, NoneDrawn mid x.id →
        ∀ y ∈ f.before.db.envelopes, y.id = x.id → x.Follows y) ∧
    ((acts.map Prod.snd).Pairwise (· ≤ ·) →
      ∀ pre e mid f post, events = pre ++ e :: mid ++ f :: post →
      ∀ x token, HandsOut e x token → NoneDrawn mid x.id →
        f.action.2 < e.action.2 + relayLeaseSeconds →
        (∀ y other, HandsOut f y other → y.id ≠ x.id) ∧
          ∀ y ∈ f.before.db.envelopes, y.id = x.id → ∀ digest t, y.leasedTo digest t = true →
            digest = Sha256.digest (utf8 token.toList)) ∧
    (∀ e ∈ events, ∀ r ∈ (step hostServerIdentity e.before e.action).1.db.receipts,
      r ∉ e.before.db.receipts → Records hostServerIdentity e r) ∧
    (∀ pre e mid f post, events = pre ++ e :: mid ++ f :: post →
      ∀ r ∈ (step hostServerIdentity e.before e.action).1.db.receipts,
        NoneDrawn mid r.envelopeId →
        (∀ other, Records hostServerIdentity f other → other.envelopeId ≠ r.envelopeId) ∧
        ∀ y ∈ f.before.db.envelopes, y.id = r.envelopeId → r ∈ f.before.db.receipts) ∧
    (∀ e ∈ events, ∀ r ∈ e.before.db.receipts, ∀ receiver token outcome available,
      e.action.1 = .receiptEnvelope receiver r.envelopeId token outcome available →
      (step hostServerIdentity e.before e.action).1.db = e.before.db ∧
      (∀ given, e.outcome = .ok given →
        given = .receipted ⟨r.envelopeId, r.outcome, r.receivedAt⟩) ∧
      (e.action.1.holder.all e.before.granted.contains = true →
        e.before.db.MayReceipt receiver r.envelopeId token available → outcome = r.outcome →
        r.targetPeerId = receiver.peerId →
        (∀ teamId routeId, receiver = .host teamId routeId → r.targetRouteId = routeId) →
        e.outcome = .ok (.receipted ⟨r.envelopeId, r.outcome, r.receivedAt⟩))) ∧
    (∀ e ∈ events, ∀ inbox owner limit token available,
      e.action.1 = .claimInbox inbox owner limit token available →
      e.action.1.holder.all e.before.granted.contains = true →
      e.before.db.MayClaim inbox owner limit available →
      ∀ x ∈ e.before.db.envelopes, x.Waiting e.action.2 → e.action.2 < x.expiresAt →
        e.before.db.IsFor x inbox →
        ∃ claimed, e.outcome = .ok (.claimed claimed) ∧
          ((∃ y ∈ claimed.envelopes, y.id = x.id) ∨
            (claimed.envelopes.length = limit ∧ ∀ y ∈ claimed.envelopes, y.ComesBefore x))) ∧
    (∀ e ∈ events, ∀ x token, HandsOut e x token →
      ∃ p source target, e.before.db.core.Carries p source target x) ∧
    (∀ e ∈ events, ∀ r ∈ (step hostServerIdentity e.before e.action).1.db.routes,
      (Withdraws hostServerIdentity e r ∨
        ∃ p ∈ (step hostServerIdentity e.before e.action).1.db.peers, p.status = .revoked ∧
          r.isOf p.id = true) → r.status = .revoked) ∧
    (events.Pairwise fun e f =>
      ∀ r ∈ (step hostServerIdentity e.before e.action).1.db.routes, r.status = .revoked →
        ∀ x token, HandsOut f x token → x.sourceRouteId ≠ r.id ∧ x.targetRouteId ≠ r.id) := by
  have hstart : (Host.start consentEpoch).Consistent hostServerIdentity := .start consentEpoch
  have every : ∀ {P : HostEvent → Prop},
      (∀ (h : Host) (act : HostCall × Nat), h.Consistent hostServerIdentity →
        P ⟨h, act, (step hostServerIdentity h act).2⟩) →
      ∀ e ∈ Runs.history (step hostServerIdentity) (Host.start consentEpoch) acts, P e :=
    fun one => Runs.history_forall (step hostServerIdentity) consistent_keep one _ hstart acts
  refine ⟨?_, ?_, ?_, ?_, ?_, ?_, ?_, ?_,
    revoked_never_handed hostServerIdentity consentEpoch acts⟩
  · intro pre e mid f post split x hx undrawn
    exact envelope_followed hostServerIdentity consentEpoch acts split hx undrawn
  · intro ordered pre e mid f post split x token hands undrawn early
    exact lease_exclusive hostServerIdentity consentEpoch acts ordered split hands undrawn early
  · exact every fun h act consistent r hr new => receipt_recorded consistent hr new
  · intro pre e mid f post split r hr undrawn
    refine ⟨recorded_once hostServerIdentity consentEpoch acts split hr undrawn, ?_⟩
    intro y hy hid
    exact receipt_kept hostServerIdentity consentEpoch acts split hr undrawn hy hid
  · apply every
    rintro h ⟨call, now⟩ consistent r hr receiver token outcome available hcall
    obtain rfl : call = _ := hcall
    exact receipt_replayed consistent hr
  · apply every
    rintro h ⟨call, now⟩ consistent inbox owner limit token available hcall held may x hx waiting
      alive isFor
    obtain rfl : call = _ := hcall
    exact waiting_offered consistent held may hx waiting alive isFor
  · exact every fun h act consistent x token hands => handsOut_carried consistent hands
  · apply every
    rintro h act consistent r hr (hwithdraws | ⟨p, hp, hrevoked, hof⟩)
    · exact withdraws_revoked consistent hr hwithdraws
    · exact routes_of_revoked (consistent.step act) hp hrevoked hr hof

end Offers

end AgentsServer.PeerStore

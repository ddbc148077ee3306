import AgentsServer.PeerStore.Credentials

/-!
# Who authenticates

In every run an active peer has one current certificate, and a revoked peer stays
revoked: none of its certificates authenticates again, and its renewals and activations are
answered only from their records.
-/

namespace AgentsServer.PeerStore

open Library

variable {hostServerIdentity : String}

/-! ## The events -/

/-- `authenticate_peer` accepts the certificate. -/
def Authenticates (e : HostEvent) (certificate : Certificate) (allowPendingRenewal : Bool)
    (peer : PeerAuthorization) : Prop :=
  e.action.1 = .authenticatePeer certificate allowPendingRenewal ∧
    e.outcome = .ok (.authorized peer)

/-- The request that `activate_renewal` finds. -/
def Db.renewalFor (db : Db) (peer : PeerAuthorization) (requestId : String) :
    Option RenewalRequest :=
  db.renewals.find? fun r => r.requestId == requestId && r.peerId == peer.peerId &&
    r.newFingerprint == peer.certificateFingerprint

/-- An activation, and not the replay of one, puts a successor in the place of the
certificate with this fingerprint. -/
def Supersedes (e : HostEvent) (fingerprint : String) : Prop :=
  ∃ peer requestId answer r, e.action.1 = .activateRenewal peer requestId ∧
    e.outcome = .ok answer ∧ e.before.db.renewalFor peer requestId = some r ∧
    r.activatedAt = none ∧ r.currentFingerprint = fingerprint

/-- A renewal or an activation by this peer succeeds. -/
def Renews (e : HostEvent) (peerId : String) : Prop :=
  match e.action.1 with
  | .renewPeer peer .. | .activateRenewal peer _ => peer.peerId = peerId ∧
      ∃ answer, e.outcome = .ok answer
  | _ => False

/-- The answer of a renewal or an activation is the one its record holds. -/
def Replayed (e : HostEvent) (peerId : String) : Prop :=
  ∃ r ∈ e.before.db.renewals, r.peerId = peerId ∧
    (e.outcome = .ok (.renewed r.response) ∨
      r.activatedAt.isSome = true ∧ e.outcome = .ok (.activated r.newFingerprint))

/-- The peer exists and is revoked. -/
def Core.Revoked (c : Core) (peerId : String) : Prop :=
  ∃ p ∈ c.peers, p.id = peerId ∧ p.status = .revoked

/-- The certificate with this fingerprint was superseded at this time. -/
def Core.SupersededAt (c : Core) (fingerprint : String) (now : Nat) : Prop :=
  ∃ certificate ∈ c.certificates, certificate.fingerprint = fingerprint ∧
    certificate.supersededAt = some now

/-! ## What every change keeps -/

namespace Core

theorem Revoked.change {c c' : Core} {peerId : String} {now : Nat} {touched : Touched}
    (hchange : Change hostServerIdentity now touched c c')
    (h : c.Revoked peerId) : c'.Revoked peerId := by
  obtain ⟨p, hp, hid, hrevoked⟩ := h
  cases hchange with
  | revoke =>
      refine ⟨_, List.mem_map_of_mem hp, by simpa using hid, ?_⟩
      rw [Peer.revoke, if_neg (by simp [hrevoked])]
      exact hrevoked
  | approve => exact ⟨p, List.mem_append_left _ hp, hid, hrevoked⟩
  | activate =>
      exact ⟨_, List.mem_map_of_mem hp, by simpa using hid, by simpa using hrevoked⟩
  | issue | endAll | endRoute | publish | expire | forget | requeue | submit | lease | settle =>
      exact ⟨p, hp, hid, hrevoked⟩

theorem SupersededAt.change {c c' : Core} {fingerprint : String} {t now : Nat}
    {touched : Touched}
    (hchange : Change hostServerIdentity now touched c c') (h : c.SupersededAt fingerprint t) :
    c'.SupersededAt fingerprint t := by
  obtain ⟨x, hx, hname, hsuperseded⟩ := h
  cases hchange with
  | revoke =>
      exact ⟨_, List.mem_map_of_mem hx, by simpa using hname, by simpa using hsuperseded⟩
  | approve | issue => exact ⟨x, List.mem_append_left _ hx, hname, hsuperseded⟩
  | activate =>
      refine ⟨_, List.mem_map_of_mem hx, by simpa using hname, ?_⟩
      -- it is not current, so it is not superseded a second time
      rw [PeerCertificate.swap, if_neg (by simp [PeerCertificate.isCurrent, hsuperseded])]
      split
      · exact hsuperseded
      · exact hsuperseded
  | endAll | endRoute | publish | expire | forget | requeue | submit | lease | settle =>
      exact ⟨x, hx, hname, hsuperseded⟩

end Core

/-! ## What a successful call says -/

section Calls

variable [CertificateEncoding] {db db' : Db} {now : Nat}

theorem Db.authenticatePeer_ok {certificate : Certificate} {allowPendingRenewal : Bool}
    {peer : PeerAuthorization}
    (h : db.authenticatePeer certificate allowPendingRenewal now = .ok peer) :
    ∃ row ∈ db.certificates, row.fingerprint = CertificateEncoding.fingerprint certificate ∧
      (∃ p ∈ db.peers, p.id = row.peerId ∧ p.id = peer.peerId ∧ p.status = .active) ∧
      row.revokedAt = none ∧ now < row.validUntil ∧
      (row.activationRequired = false ∨ allowPendingRenewal = true) := by
  unfold authenticatePeer at h
  simp only [bind_eq_ok, required_eq_ok, require_eq_ok, pure_eq_ok, Prod.exists] at h
  obtain ⟨_, -, row, p, pairing, howner, _, ⟨hactive, hkept, hvalid, hactivated⟩, _, -, rfl⟩ := h
  simp only [certificateOwner, Option.bind_eq_bind, Option.bind_eq_some_iff, Option.pure_def,
    Option.some.injEq, Prod.mk.injEq] at howner
  obtain ⟨_, hrow, _, hpeer, _, -, rfl, rfl, -⟩ := howner
  obtain ⟨hmem, hname⟩ := Tables.find_mem hrow
  obtain ⟨hp, hid⟩ := Tables.find_mem hpeer
  exact ⟨_, hmem, hname, ⟨_, hp, hid, rfl, hactive⟩, hkept, hvalid, hactivated⟩

omit [CertificateEncoding] in
theorem Db.activateRenewal_supersedes {peer : PeerAuthorization} {requestId fingerprint : String}
    {r : RenewalRequest}
    (h : db.activateRenewal peer requestId now = .ok (fingerprint, db'))
    (hr : db.renewalFor peer requestId = some r) (fresh : r.activatedAt = none) :
    db'.core.SupersededAt r.currentFingerprint now := by
  unfold activateRenewal at h
  simp only [bind_eq_ok, required_eq_ok] at h
  obtain ⟨renewalId, huuid, row, hrow, h⟩ := h
  simp only [uuid, bind_eq_ok, require_eq_ok, pure_eq_ok] at huuid
  obtain ⟨_, -, rfl⟩ := huuid
  obtain rfl : r = row := Option.some.inj (hr.symm.trans hrow)
  rw [if_neg (by simp [fresh])] at h
  simp only [bind_eq_ok, require_eq_ok, required_eq_ok, pure_eq_ok, Prod.mk.injEq] at h
  obtain ⟨_, -, old, hold, new, -, -, rfl⟩ := h
  have holdMem := List.mem_of_find?_eq_some hold
  have hfound := List.find?_some hold
  simp only [Bool.and_eq_true, beq_iff_eq] at hfound
  refine ⟨_, List.mem_map_of_mem holdMem, by simpa using hfound.1.1, ?_⟩
  rw [PeerCertificate.swap, if_pos (by simp [hfound])]

end Calls

/-! ## Runs -/

section Runs

variable [Sha256] [CertificateEncoding]

theorem credentials_after (hostServerIdentity : String) (consentEpoch : Nat)
    (acts : List (HostCall × Nat)) :
    (Runs.run (step hostServerIdentity) (Host.start consentEpoch) acts).db.core.Credentials :=
  Runs.run_invariant (I := fun h : Host => h.db.core.Credentials) (step hostServerIdentity)
    (fun _ act h => h.step act) _ (Core.Credentials.start consentEpoch) acts

theorem Core.Revoked.step {h : Host} {peerId : String} (hrevoked : h.db.core.Revoked peerId)
    (act : HostCall × Nat) : (PeerStore.step hostServerIdentity h act).1.db.core.Revoked peerId :=
  step_keep (P := fun c : Core => c.Revoked peerId) h act
    (fun hchange hcore => hcore.change hchange) hrevoked

theorem Core.SupersededAt.step {h : Host} {fingerprint : String} {t : Nat}
    (hsuperseded : h.db.core.SupersededAt fingerprint t) (act : HostCall × Nat) :
    (PeerStore.step hostServerIdentity h act).1.db.core.SupersededAt fingerprint t :=
  step_keep (P := fun c : Core => c.SupersededAt fingerprint t) h act
    (fun hchange hcore => hcore.change hchange) hsuperseded

/-- The row that an accepted certificate is decided by. -/
theorem authenticates_row {h : Host} {act : HostCall × Nat} {certificate : Certificate}
    {allowPendingRenewal : Bool} {peer : PeerAuthorization}
    (haccepted : Authenticates ⟨h, act, (step hostServerIdentity h act).2⟩ certificate
      allowPendingRenewal peer) :
    ∃ row ∈ h.db.certificates, row.fingerprint = CertificateEncoding.fingerprint certificate ∧
      (∃ p ∈ h.db.peers, p.id = row.peerId ∧ p.id = peer.peerId ∧ p.status = .active) ∧
      row.revokedAt = none ∧ act.2 < row.validUntil ∧
      (row.activationRequired = false ∨ allowPendingRenewal = true) := by
  obtain ⟨call, now⟩ := act
  obtain ⟨hcall, hok⟩ := haccepted
  obtain rfl : call = _ := hcall
  obtain ⟨hdone, -⟩ := step_ok hok
  obtain ⟨answer, hanswer, hsame⟩ := map_eq_ok.mp hdone
  cases hsame
  exact Db.authenticatePeer_ok hanswer

theorem supersedes_superseded {h : Host} {act : HostCall × Nat} {fingerprint : String}
    (hsupersedes : Supersedes ⟨h, act, (step hostServerIdentity h act).2⟩ fingerprint) :
    (step hostServerIdentity h act).1.db.core.SupersededAt fingerprint act.2 := by
  obtain ⟨call, now⟩ := act
  obtain ⟨peer, requestId, answer, r, hcall, hok, hfound, hfresh, rfl⟩ := hsupersedes
  obtain rfl : call = _ := hcall
  obtain ⟨hdone, hdb⟩ := step_ok hok
  obtain ⟨name, hbody, -⟩ := answered_eq_ok .activated hdone
  rw [hdb]
  exact Db.activateRenewal_supersedes hbody hfound hfresh

/-- A peer that is revoked renews and activates only by replay. -/
theorem renews_replayed {h : Host} {act : HostCall × Nat} {peerId : String}
    (credentials : h.db.core.Credentials) (hrevoked : h.db.core.Revoked peerId)
    (hrenews : Renews ⟨h, act, (step hostServerIdentity h act).2⟩ peerId) :
    (step hostServerIdentity h act).1.db = h.db ∧
      Replayed ⟨h, act, (step hostServerIdentity h act).2⟩ peerId := by
  obtain ⟨call, now⟩ := act
  obtain ⟨p, hp, hid, hstatus⟩ := hrevoked
  unfold Renews at hrenews
  split at hrenews
  next peer payload serialNumber hcall =>
    obtain rfl : call = _ := hcall
    obtain ⟨howner, answer, hok⟩ := hrenews
    obtain ⟨hdone, hdb⟩ := step_ok hok
    obtain ⟨response, hbody, rfl⟩ := answered_eq_ok .renewed hdone
    obtain ⟨hsame, r, hr, hpeer, -, rfl⟩ | ⟨⟨q, hq, hqid, hactive⟩, -⟩ :=
      Db.renewPeer_cases hostServerIdentity .nothing hbody
    · exact ⟨hdb.trans hsame, r, hr, hpeer.trans howner, .inl hok⟩
    · have hsame := Tables.eq_of_key credentials.peerIds hp hq
        (hid.trans (howner.symm.trans hqid.symm))
      rw [← hsame, hstatus] at hactive
      cases hactive
  next peer requestId hcall =>
    obtain rfl : call = _ := hcall
    obtain ⟨howner, answer, hok⟩ := hrenews
    obtain ⟨hdone, hdb⟩ := step_ok hok
    obtain ⟨name, hbody, rfl⟩ := answered_eq_ok .activated hdone
    obtain ⟨hsame, r, hr, hpeer, -, hactivated, rfl⟩ | ⟨⟨x, hx, hxOwner, hcurrent⟩, -⟩ :=
      Db.activateRenewal_cases hostServerIdentity .nothing hbody
    · exact ⟨hdb.trans hsame, r, hr, hpeer.trans howner, .inr ⟨hactivated, hok⟩⟩
    · have hkept := credentials.revoked p hp hstatus x hx
        (hxOwner.trans (howner.trans hid.symm))
      simp only [PeerCertificate.isCurrent, Bool.and_eq_true, Option.isNone_iff_eq_none]
        at hcurrent
      exact absurd hcurrent.1.1 hkept
  next => exact hrenews.elim

/-- What an accepted certificate was, with the end of the overlap where it has a
successor. -/
theorem authenticated_within (hostServerIdentity : String) (consentEpoch : Nat)
    (acts : List (HostCall × Nat)) :
    ∀ e ∈ Runs.history (step hostServerIdentity) (Host.start consentEpoch) acts,
      ∀ certificate allowPendingRenewal peer,
      Authenticates e certificate allowPendingRenewal peer →
      ∃ row ∈ e.before.db.certificates,
        row.fingerprint = CertificateEncoding.fingerprint certificate ∧
        (∃ p ∈ e.before.db.peers, p.id = row.peerId ∧ p.id = peer.peerId ∧ p.status = .active) ∧
        row.revokedAt = none ∧ e.action.2 < row.validUntil ∧
        (allowPendingRenewal = false → row.activationRequired = false) ∧
        ∀ t, row.supersededAt = some t →
          e.action.2 < min row.expiresAt (t + clientCertOverlapSeconds) := by
  refine Runs.history_forall (step hostServerIdentity)
    (I := fun h : Host => h.db.core.Credentials) (fun _ act h => h.step act) ?_ _
    (Core.Credentials.start consentEpoch) acts
  intro h act credentials certificate allowed peer haccepted
  obtain ⟨row, hrow, hname, howner, hkept, hvalid, hactivated⟩ := authenticates_row haccepted
  refine ⟨row, hrow, hname, howner, hkept, hvalid, ?_, ?_⟩
  · intro hallowed
    rcases hactivated with hdone | hpending
    · exact hdone
    · rw [hallowed] at hpending
      cases hpending
  · intro t hsuperseded
    exact hvalid.trans_le (credentials.overlap row hrow t hsuperseded)

/-- A certificate authenticates for ten minutes at most once its successor is activated. -/
theorem superseded_overlap (hostServerIdentity : String) (consentEpoch : Nat)
    (acts : List (HostCall × Nat)) :
    (Runs.history (step hostServerIdentity) (Host.start consentEpoch) acts).Pairwise fun e f =>
      ∀ certificate allowPendingRenewal peer,
      Supersedes e (CertificateEncoding.fingerprint certificate) →
      Authenticates f certificate allowPendingRenewal peer →
      ∃ row ∈ f.before.db.certificates,
        row.fingerprint = CertificateEncoding.fingerprint certificate ∧
        f.action.2 < min row.expiresAt (e.action.2 + clientCertOverlapSeconds) := by
  refine Runs.history_pairwise (step hostServerIdentity)
    (I := fun h : Host => h.db.core.Credentials)
    (M := fun e h => ∀ fingerprint, Supersedes e fingerprint →
      h.db.core.SupersededAt fingerprint e.action.2) (fun _ act h => h.step act) ?_ ?_ ?_ _
    (Core.Credentials.start consentEpoch) acts
  · exact fun h act _ fingerprint hsupersedes => supersedes_superseded hsupersedes
  · exact fun e h act _ hmark fingerprint hsupersedes => (hmark fingerprint hsupersedes).step act
  · intro e h act credentials hmark certificate allowed peer hsupersedes haccepted
    obtain ⟨row, hrow, hname, -, -, hvalid, -⟩ := authenticates_row haccepted
    obtain ⟨x, hx, hxName, hsuperseded⟩ := hmark _ hsupersedes
    obtain rfl := Tables.eq_of_key credentials.fingerprints hx hrow (hxName.trans hname.symm)
    exact ⟨x, hx, hname, hvalid.trans_le (credentials.overlap x hx _ hsuperseded)⟩

/-- A revoked peer stays revoked and is out, but for replays that change nothing. -/
theorem revoked_out (hostServerIdentity : String) (consentEpoch : Nat)
    (acts : List (HostCall × Nat)) :
    (Runs.history (step hostServerIdentity) (Host.start consentEpoch) acts).Pairwise fun e f =>
      ∀ peerId, (step hostServerIdentity e.before e.action).1.db.core.Revoked peerId →
      f.before.db.core.Revoked peerId ∧
      (∀ certificate allowPendingRenewal peer,
        Authenticates f certificate allowPendingRenewal peer → peer.peerId ≠ peerId) ∧
      (Renews f peerId → Replayed f peerId ∧
        (step hostServerIdentity f.before f.action).1.db = f.before.db) := by
  refine Runs.history_pairwise (step hostServerIdentity)
    (I := fun h : Host => h.db.core.Credentials)
    (M := fun e h => ∀ peerId,
      (step hostServerIdentity e.before e.action).1.db.core.Revoked peerId →
      h.db.core.Revoked peerId) (fun _ act h => h.step act) ?_ ?_ ?_ _
    (Core.Credentials.start consentEpoch) acts
  · exact fun h act _ peerId hrevoked => hrevoked
  · exact fun e h act _ hmark peerId hrevoked => (hmark peerId hrevoked).step act
  · intro e h act credentials hmark peerId hrevoked
    have hnow := hmark peerId hrevoked
    refine ⟨hnow, ?_, ?_⟩
    · rintro certificate allowed peer haccepted rfl
      obtain ⟨row, -, -, ⟨p, hp, -, hid, hactive⟩, -⟩ := authenticates_row haccepted
      obtain ⟨q, hq, hqid, hstatus⟩ := hnow
      rw [Tables.eq_of_key credentials.peerIds hp hq (hid.trans hqid.symm), hstatus] at hactive
      cases hactive
    · intro hrenews
      exact (renews_replayed credentials hnow hrenews).symm

/-- The credentials of the peers in every run: one active peer of a team for a server
identity, one current certificate for an active peer, and no way back for a superseded
certificate or a revoked peer. -/
theorem credentials_in_every_run (hostServerIdentity : String) (consentEpoch : Nat)
    (acts : List (HostCall × Nat)) :
    let h := Runs.run (step hostServerIdentity) (Host.start consentEpoch) acts;
    let events := Runs.history (step hostServerIdentity) (Host.start consentEpoch) acts;
    (∀ p ∈ h.db.peers, ∀ q ∈ h.db.peers, p.status = .active → q.status = .active →
      p.teamId = q.teamId → p.peerServerIdentity = q.peerServerIdentity → p = q) ∧
    (∀ p ∈ h.db.peers, p.status = .active → ∃ certificate ∈ h.db.certificates,
      certificate.peerId = p.id ∧ certificate.isCurrent = true ∧
      certificate.publicKeyPem = p.publicKeyPem ∧
      ∀ other ∈ h.db.certificates, other.peerId = p.id → other.isCurrent = true →
        other = certificate) ∧
    (∀ e ∈ events, ∀ certificate allowPendingRenewal peer,
      Authenticates e certificate allowPendingRenewal peer →
      ∃ row ∈ e.before.db.certificates,
        row.fingerprint = CertificateEncoding.fingerprint certificate ∧
        (∃ p ∈ e.before.db.peers, p.id = row.peerId ∧ p.id = peer.peerId ∧ p.status = .active) ∧
        row.revokedAt = none ∧ e.action.2 < row.validUntil ∧
        (allowPendingRenewal = false → row.activationRequired = false) ∧
        ∀ t, row.supersededAt = some t →
          e.action.2 < min row.expiresAt (t + clientCertOverlapSeconds)) ∧
    (events.Pairwise fun e f => ∀ certificate allowPendingRenewal peer,
      Supersedes e (CertificateEncoding.fingerprint certificate) →
      Authenticates f certificate allowPendingRenewal peer →
      ∃ row ∈ f.before.db.certificates,
        row.fingerprint = CertificateEncoding.fingerprint certificate ∧
        f.action.2 < min row.expiresAt (e.action.2 + clientCertOverlapSeconds)) ∧
    (events.Pairwise fun e f => ∀ peerId,
      (step hostServerIdentity e.before e.action).1.db.core.Revoked peerId →
      f.before.db.core.Revoked peerId ∧
      (∀ certificate allowPendingRenewal peer,
        Authenticates f certificate allowPendingRenewal peer → peer.peerId ≠ peerId) ∧
      (Renews f peerId → Replayed f peerId ∧
        (step hostServerIdentity f.before f.action).1.db = f.before.db)) := by
  have hcredentials := credentials_after hostServerIdentity consentEpoch acts
  refine ⟨?_, hcredentials.current, authenticated_within hostServerIdentity consentEpoch acts,
    superseded_overlap hostServerIdentity consentEpoch acts,
    revoked_out hostServerIdentity consentEpoch acts⟩
  intro p hp q hq hpActive hqActive hteam hidentity
  exact Tables.eq_of_key hcredentials.peerIds hp hq
    (hcredentials.alone p hp q hq hpActive hqActive hteam hidentity)

end Runs

/-! ## A renewal of a revoked peer -/

section Replay

@[reducible] def zeroDigest : Sha256 := ⟨fun _ => List.replicate 32 0, Sha256.length_zeros⟩

@[reducible] def serialFingerprint : CertificateEncoding :=
  ⟨fun certificate => String.ofList (List.replicate certificate.serialNumber 'f')⟩

attribute [local instance] zeroDigest serialFingerprint

def pairingUuid : String := "00000000-0000-4000-8000-000000000001"

def peerUuid : String := "00000000-0000-4000-8000-000000000002"

def renewalUuid : String := "00000000-0000-4000-8000-000000000003"

def transcript : String := String.ofList (List.replicate 64 'a')

def pairingOf : NormalizedPairing where
  requestId := renewalUuid
  requestDigest := []
  createdAt := 0
  peerServerIdentity := "server-two"
  peerDisplayName := "Two"
  peerPublicKeyPem := "key one"
  csrPublicKeyPem := "key one"
  durable := true
  requestedScopes := [.teamspaceRead]
  transcriptHash := transcript
  sameKey := rfl

def firstCertificate : Certificate :=
  issueClientCertificate "key one" ⟨1, peerUuid, pairingUuid, "server-two", "team-one",
    [.teamspaceRead], transcript⟩ 1 0

def caller : PeerAuthorization where
  peerId := peerUuid
  pairingId := pairingUuid
  peerServerIdentity := "server-two"
  teamId := "team-one"
  scopes := [.teamspaceRead]
  certificateFingerprint := "f"
  certificateExpiresAt := clientCertTtlSeconds
  peerDisplayName := "Two"
  crossChatGrantEpoch := none

def renewalOf (createdAt : Int) : RenewalPayload where
  requestId := renewalUuid
  createdAt := createdAt
  peerPublicKeyPem := "key two"
  csrPublicKeyPem := "key two"
  csrSignatureValid := true
  signatureValid := true
  commonNames := ["server-two"]
  uris := some ["urn:agentsdock:server:server-two"]
  digest := []

/-- A peer is admitted, and renews a week before its certificate expires. -/
def renewed : List (HostCall × Nat) :=
  [(.submitPairing pairingOf pairingUuid 0 false, 0),
   (.approvePairing pairingUuid "team-one" ["teamspace.read"] "owner-one" "server-two" transcript
      renewalUuid false ⟨peerUuid, 1, fun _ => ""⟩, 0),
   (.authenticatePeer firstCertificate false, 2000000),
   (.renewPeer caller (renewalOf 2000000) 2, 2000000),
   (.authorizePeerSelfRevocation firstCertificate, 2000001)]

def revoked : HostCall × Nat := (.revokePeerForSelf caller renewalUuid "", 2000002)

/-- The same renewal, by the handler that authenticated before the revocation. -/
def renewedAgain : HostCall × Nat := (.renewPeer caller (renewalOf 2000000) 3, 2000003)

/-- A renewal that was recorded before the revocation of its peer is answered after it. -/
theorem renewal_answered_after_revocation :
    ¬ ∀ (_ : Sha256) (_ : CertificateEncoding) (hostServerIdentity : String) (consentEpoch : Nat)
      (acts : List (HostCall × Nat)),
      (Runs.history (step hostServerIdentity) (Host.start consentEpoch) acts).Pairwise fun e f =>
        ∀ peerId, (step hostServerIdentity e.before e.action).1.db.core.Revoked peerId →
          ¬ Renews f peerId := by
  intro claim
  have ordered := claim zeroDigest serialFingerprint "server-one" 0
    (renewed ++ revoked :: [] ++ [renewedAgain])
  rw [Runs.history_two] at ordered
  have pair := (List.pairwise_append.mp ordered).2.2
    (Runs.eventAfter (step "server-one") (Host.start 0) renewed revoked) (by simp)
    (Runs.eventAfter (step "server-one") (Host.start 0) (renewed ++ [revoked]) renewedAgain)
    (by simp)
  have hrevoked : ∃ p ∈ (step "server-one"
      (Runs.run (step "server-one") (Host.start 0) renewed) revoked).1.db.core.peers,
      p.id = peerUuid ∧ p.status = .revoked := by
    decide +kernel
  apply pair peerUuid hrevoked
  refine ⟨rfl, .renewed ⟨peerUuid, renewalUuid, "ff", 2000000 + clientCertTtlSeconds⟩, ?_⟩
  decide +kernel

end Replay

end AgentsServer.PeerStore

import AgentsServer.PeerStore.Changes

/-!
# The changes of each call: trust

Approval, renewal, activation and revocation as changes of the core.
-/

namespace AgentsServer.PeerStore

open Library

variable {hostServerIdentity : String} {touched : Touched}

namespace Db

variable {db db' : Db} {now : Nat}

theorem recordOperation_eq {realm operationId : String} {digest : Bytes} {response : Json}
    (h : db.recordOperation realm operationId digest response now = .ok db') :
    db' = { db with idempotency := db'.idempotency } := by
  unfold recordOperation at h
  simp only [bind_eq_ok, required_eq_ok, pure_eq_ok] at h
  obtain ⟨_, -, rfl⟩ := h
  rfl

theorem recordOperation_core {realm operationId : String} {digest : Bytes} {response : Json}
    (h : db.recordOperation realm operationId digest response now = .ok db') :
    db'.core = db.core := by
  rw [recordOperation_eq h]
  rfl

theorem revokePeerInTransaction_eq {peerId actor revision : String}
    (h : db.revokePeerInTransaction peerId now actor revision = some db') :
    (∃ p ∈ db.peers, p.id = peerId ∧ p.status = .active) ∧
      db'.core = db.core.revokePeer peerId actor revision now := by
  unfold revokePeerInTransaction at h
  split at h
  next hactive =>
    cases h
    simp only [List.any_eq_true, Bool.and_eq_true, beq_iff_eq] at hactive
    exact ⟨hactive, rfl⟩
  next => cases h

end Db

/-! ## Superseded peers -/

@[simp] theorem Peer.revoke_id (peerId actor : String) (now : Nat) (p : Peer) :
    (p.revoke peerId actor now).id = p.id := by
  unfold Peer.revoke
  split <;> rfl

@[simp] theorem Peer.revoke_teamId (peerId actor : String) (now : Nat) (p : Peer) :
    (p.revoke peerId actor now).teamId = p.teamId := by
  unfold Peer.revoke
  split <;> rfl

@[simp] theorem Peer.revoke_peerServerIdentity (peerId actor : String) (now : Nat) (p : Peer) :
    (p.revoke peerId actor now).peerServerIdentity = p.peerServerIdentity := by
  unfold Peer.revoke
  split <;> rfl

/-- A revocation leaves no peer of this id active, and makes none active. -/
theorem Peer.revoke_status (peerId actor : String) (now : Nat) (p : Peer) :
    (p.revoke peerId actor now).status = .active ↔ p.status = .active ∧ p.id ≠ peerId := by
  unfold Peer.revoke
  split
  next hsel =>
    simp only [Bool.and_eq_true, beq_iff_eq] at hsel
    simp [hsel.1]
  next hsel =>
    simp only [Bool.and_eq_true, beq_iff_eq, not_and] at hsel
    constructor
    · intro hactive
      exact ⟨hactive, fun hid => hsel hid hactive⟩
    · exact fun h => h.1

namespace Db

variable {db db' : Db} {now : Nat}

/-- An active peer that a revocation of others leaves. -/
theorem supersede_active {peerIds : List String} {actor : String} {revision : String → String}
    {p : Peer} (hp : p ∈ (db.supersede peerIds now actor revision).peers)
    (hactive : p.status = .active) : p ∈ db.peers ∧ p.id ∉ peerIds := by
  unfold supersede at hp
  induction peerIds generalizing db with
  | nil => exact ⟨hp, List.not_mem_nil⟩
  | cons peerId rest ih =>
      obtain ⟨hmem, hrest⟩ := ih hp
      dsimp only at hmem
      cases hrevoke : db.revokePeerInTransaction peerId now actor (revision peerId) with
      | none =>
          rw [hrevoke, Option.getD_none] at hmem
          refine ⟨hmem, ?_⟩
          rw [List.mem_cons, not_or]
          refine ⟨?_, hrest⟩
          intro hid
          unfold revokePeerInTransaction at hrevoke
          split at hrevoke
          next => cases hrevoke
          next hnone =>
            apply hnone
            rw [List.any_eq_true]
            exact ⟨p, hmem, by simp [hid, hactive]⟩
      | some mid =>
          rw [hrevoke, Option.getD_some] at hmem
          have hcore := (revokePeerInTransaction_eq hrevoke).2
          have hpeers : mid.peers = db.peers.map (Peer.revoke peerId actor now) :=
            congrArg Core.peers hcore
          rw [hpeers] at hmem
          obtain ⟨old, hold, rfl⟩ := List.mem_map.mp hmem
          obtain ⟨hwas, hne⟩ := (Peer.revoke_status peerId actor now old).mp hactive
          have hsame : old.revoke peerId actor now = old := by
            unfold Peer.revoke
            rw [if_neg (by simp [hne])]
          rw [hsame] at hrest ⊢
          exact ⟨hold, by simp [hne, hrest]⟩

theorem supersede_changes (peerIds : List String) (now : Nat) (actor : String)
    (revision : String → String) (db : Db) :
    Changes hostServerIdentity now touched db.core (db.supersede peerIds now actor revision).core := by
  unfold supersede
  induction peerIds generalizing db with
  | nil => exact .refl
  | cons peerId rest ih =>
      rw [List.foldl_cons]
      cases hrevoke : db.revokePeerInTransaction peerId now actor (revision peerId) with
      | none => exact ih db
      | some mid =>
          rw [Option.getD_some]
          refine .head ?_ (ih mid)
          rw [(revokePeerInTransaction_eq hrevoke).2]
          exact .revoke

theorem mem_activePeers {teamId serverIdentity : String} {p : Peer} :
    p ∈ db.activePeers teamId serverIdentity ↔ p ∈ db.peers ∧ p.teamId = teamId ∧
      p.peerServerIdentity = serverIdentity ∧ p.status = .active := by
  simp [activePeers, and_assoc]

/-! ## Pairing -/

theorem insertPeer_eq {p : Peer} (h : db.insertPeer p = .ok db') :
    db' = { db with peers := db.peers ++ [p] } ∧ ∀ old ∈ db.peers, old.id ≠ p.id := by
  unfold insertPeer at h
  simp only [bind_eq_ok, required_eq_ok, pure_eq_ok, Tables.insertRow_eq_some] at h
  obtain ⟨_, ⟨⟨-, hfresh⟩, rfl⟩, rfl⟩ := h
  exact ⟨rfl, hfresh⟩

theorem insertCertificate_eq {c : PeerCertificate} (h : db.insertCertificate c = .ok db') :
    db' = { db with certificates := db.certificates ++ [c] } ∧
      ∀ old ∈ db.certificates, old.fingerprint ≠ c.fingerprint := by
  unfold insertCertificate at h
  simp only [bind_eq_ok, required_eq_ok, pure_eq_ok, Tables.insertRow_eq_some] at h
  obtain ⟨_, ⟨⟨-, hfresh⟩, rfl⟩, rfl⟩ := h
  exact ⟨rfl, hfresh⟩

variable [CertificateEncoding]

theorem admitPeer_changes {row : PairingRequest} {teamId : String} {scopes : List Scope}
    {actor : String} {grantEpoch : Option Nat} {draw : ApprovalDraw} {response : Json}
    (h : db.admitPeer row teamId scopes actor grantEpoch draw now = .ok (response, db')) :
    Changes hostServerIdentity now touched db.core db'.core := by
  unfold admitPeer at h
  simp only [bind_eq_ok, pure_eq_ok, Prod.mk.injEq] at h
  obtain ⟨mid, hpeer, last, hcertificate, -, rfl⟩ := h
  obtain ⟨rfl, hfresh⟩ := insertPeer_eq hpeer
  obtain ⟨rfl, hunused⟩ := insertCertificate_eq hcertificate
  refine .tail (supersede_changes ((db.activePeers teamId row.peerServerIdentity).map Peer.id) now
    actor draw.revision db) ?_
  refine .approve hfresh ?_ rfl hunused rfl rfl rfl
  -- every active peer of this identity was superseded
  rintro old hold hactive ⟨hteam, hidentity⟩
  obtain ⟨hmem, hkept⟩ := supersede_active hold hactive
  apply hkept
  exact List.mem_map_of_mem (mem_activePeers.mpr ⟨hmem, hteam, hidentity, hactive⟩)

theorem approvePairing_changes [Sha256] (db : Db) (pairingId teamId : String) (scopes : List String)
    (approvedBy expectedIdentity expectedTranscriptHash idempotencyKey : String)
    (available : Bool) (draw : ApprovalDraw) (now : Nat) :
    Changes hostServerIdentity now touched db.core (db.approvePairing pairingId teamId scopes approvedBy
      expectedIdentity expectedTranscriptHash idempotencyKey available draw now).1.core := by
  unfold approvePairing
  dsimp only
  split
  next => exact .refl
  next =>
    split
    next => exact .refl
    next => exact .refl
    next digest grantEpoch row _ =>
      split
      next => exact .refl
      next =>
        apply atomically_keep (P := fun after : Db =>
          Changes hostServerIdentity now touched db.core after.core) .refl
        intro response after h
        simp only [bind_eq_ok, require_eq_ok, pure_eq_ok, Prod.exists, Prod.mk.injEq] at h
        obtain ⟨_, -, _, -, _, -, _, admitted, hadmit, last, hrecord, -, rfl⟩ := h
        have hcore : last.core = admitted.core := recordOperation_core hrecord
        change Changes hostServerIdentity now touched db.core last.core
        rw [hcore]
        exact admitPeer_changes hadmit

omit [CertificateEncoding] in
theorem submitPairing_core {request : NormalizedPairing} {pairingId : String} {external : Nat}
    {full : Bool} {row : PairingRequest}
    (h : db.submitPairing request pairingId external full now = .ok (row, db')) :
    db'.core = db.core := by
  unfold submitPairing at h
  dsimp only at h
  split at h
  next =>
    simp only [bind_eq_ok, require_eq_ok, required_eq_ok, pure_eq_ok, Prod.mk.injEq] at h
    obtain ⟨_, -, _, -, -, rfl⟩ := h
    rfl
  next =>
    simp only [bind_eq_ok, require_eq_ok, required_eq_ok, pure_eq_ok, Prod.mk.injEq] at h
    obtain ⟨_, -, _, -, _, -, _, -, -, rfl⟩ := h
    rfl

/-! ## Renewal -/

omit [CertificateEncoding] in
theorem renewable_eq {peer : PeerAuthorization} {row : Peer} {current : PeerCertificate}
    (h : db.renewable peer = some (row, current)) :
    row ∈ db.peers ∧ row.id = peer.peerId ∧ row.status = .active := by
  unfold renewable at h
  simp only [Option.bind_eq_bind, Option.bind_eq_some_iff] at h
  obtain ⟨found, hrow, certificate, -, h⟩ := h
  split at h
  next hactive =>
    cases h
    exact ⟨(Tables.find_mem hrow).1, (Tables.find_mem hrow).2, hactive⟩
  next => cases h

/-- A renewal is answered again from its record, or issues a pending certificate to an
active peer. -/
theorem renewPeer_cases (hostServerIdentity : String) (touched : Touched)
    {peer : PeerAuthorization} {payload : RenewalPayload} {serialNumber : Nat}
    {response : RenewalResponse}
    (h : db.renewPeer peer payload serialNumber now = .ok (response, db')) :
    (db' = db ∧ ∃ r ∈ db.renewals, r.peerId = peer.peerId ∧ r.requestId = payload.requestId ∧
        r.response = response) ∨
      ((∃ p ∈ db.peers, p.id = peer.peerId ∧ p.status = .active) ∧
        Change hostServerIdentity now touched db.core db'.core) := by
  unfold renewPeer at h
  rw [bind_eq_ok] at h
  obtain ⟨_, -, h⟩ := h
  split at h
  next existing hexisting =>
    simp only [bind_eq_ok, require_eq_ok, pure_eq_ok, Prod.mk.injEq] at h
    obtain ⟨_, ⟨howner, -⟩, _, -, hresponse, rfl⟩ := h
    obtain ⟨hmem, hid⟩ := Tables.find_mem hexisting
    exact .inl ⟨rfl, existing, hmem, howner, hid, hresponse⟩
  next =>
    simp only [bind_eq_ok, require_eq_ok, required_eq_ok, pure_eq_ok, Prod.exists,
      Prod.mk.injEq] at h
    obtain ⟨_, -, row, current, hrenewable, _, -, _, -, mid, hinsert, _, -, -, rfl⟩ := h
    obtain ⟨hrow, hid, hactive⟩ := renewable_eq hrenewable
    obtain ⟨rfl, hunused⟩ := insertCertificate_eq hinsert
    exact .inr ⟨⟨row, hrow, hid, hactive⟩,
      .issue ⟨row, hrow, hid, hactive⟩ hunused ⟨rfl, rfl⟩⟩

omit [CertificateEncoding] in
/-- An activation is answered again from its record, or swaps the current certificate for the
pending one. -/
theorem activateRenewal_cases (hostServerIdentity : String) (touched : Touched)
    {peer : PeerAuthorization}
    {requestId fingerprint : String}
    (h : db.activateRenewal peer requestId now = .ok (fingerprint, db')) :
    (db' = db ∧ ∃ r ∈ db.renewals, r.peerId = peer.peerId ∧ r.requestId = requestId ∧
        r.activatedAt.isSome = true ∧ r.newFingerprint = fingerprint) ∨
      ((∃ c ∈ db.certificates, c.peerId = peer.peerId ∧ c.isCurrent = true) ∧
        Change hostServerIdentity now touched db.core db'.core) := by
  unfold activateRenewal at h
  simp only [bind_eq_ok, required_eq_ok] at h
  obtain ⟨renewalId, huuid, row, hrow, h⟩ := h
  simp only [uuid, bind_eq_ok, require_eq_ok, pure_eq_ok] at huuid
  obtain ⟨_, -, rfl⟩ := huuid
  have hmem := List.mem_of_find?_eq_some hrow
  have hfound := List.find?_some hrow
  simp only [Bool.and_eq_true, beq_iff_eq] at hfound
  split at h
  next hactivated =>
    simp only [pure_eq_ok, Prod.mk.injEq] at h
    obtain ⟨hname, rfl⟩ := h
    exact .inl ⟨rfl, row, hmem, hfound.1.2, hfound.1.1, hactivated, hname⟩
  next =>
    simp only [bind_eq_ok, require_eq_ok, required_eq_ok, pure_eq_ok, Prod.mk.injEq] at h
    obtain ⟨_, -, old, hold, new, hnew, -, rfl⟩ := h
    have holdFound := List.find?_some hold
    have hnewFound := List.find?_some hnew
    simp only [Bool.and_eq_true, beq_iff_eq, Option.isNone_iff_eq_none] at holdFound hnewFound
    obtain ⟨⟨holdName, holdOwner⟩, holdCurrent⟩ := holdFound
    obtain ⟨⟨⟨hnewName, hnewOwner⟩, hnewKept⟩, hnewPending⟩ := hnewFound
    have holdMem := List.mem_of_find?_eq_some hold
    have hnewMem := List.mem_of_find?_eq_some hnew
    refine .inr ⟨⟨old, holdMem, holdOwner, holdCurrent⟩, ?_⟩
    rw [← holdName, ← hnewName]
    exact .activate ⟨holdMem, holdOwner, holdCurrent⟩ ⟨hnewMem, hnewOwner, hnewPending, hnewKept⟩

/-! ## Revocation -/

omit [CertificateEncoding] in
theorem revokePeer_changes [Sha256] {peerId teamId fingerprint key revokedBy revision : String}
    {response : Json}
    (h : db.revokePeer peerId teamId fingerprint key revokedBy revision now =
      .ok (response, db')) : Changes hostServerIdentity now touched db.core db'.core := by
  unfold revokePeer at h
  simp only [bind_eq_ok, Prod.exists] at h
  obtain ⟨_, -, _, -, _, -, _, -, digest, cached, -, h⟩ := h
  cases cached with
  | some response =>
      simp only [pure_eq_ok, Prod.mk.injEq] at h
      rw [h.2]
  | none =>
      simp only [bind_eq_ok, require_eq_ok, required_eq_ok, pure_eq_ok, Prod.mk.injEq] at h
      obtain ⟨_, -, _, -, _, -, mid, hrevoke, last, hrecord, -, rfl⟩ := h
      rw [recordOperation_core hrecord, (revokePeerInTransaction_eq hrevoke).2]
      exact .single .revoke

omit [CertificateEncoding] in
theorem revokePeerForSelf_changes [Sha256] {peer : PeerAuthorization} {key revision : String}
    {response : Json} (h : db.revokePeerForSelf peer key revision now = .ok (response, db')) :
    Changes hostServerIdentity now touched db.core db'.core := by
  unfold revokePeerForSelf at h
  simp only [bind_eq_ok, Prod.exists] at h
  obtain ⟨_, -, digest, cached, -, h⟩ := h
  cases cached with
  | some response =>
      simp only [pure_eq_ok, Prod.mk.injEq] at h
      rw [h.2]
  | none =>
      simp only [bind_eq_ok, require_eq_ok, required_eq_ok, pure_eq_ok, Prod.exists,
        Prod.mk.injEq] at h
      obtain ⟨row, -, _, -, revokedAt, mid, hmid, last, hrecord, -, rfl⟩ := h
      rw [recordOperation_core hrecord]
      unfold endForSelf at hmid
      split at hmid
      next =>
        simp only [bind_eq_ok, required_eq_ok, pure_eq_ok, Prod.mk.injEq] at hmid
        obtain ⟨_, hrevoke, -, rfl⟩ := hmid
        rw [(revokePeerInTransaction_eq hrevoke).2]
        exact .single .revoke
      next =>
        simp only [pure_eq_ok, Prod.mk.injEq] at hmid
        rw [hmid.2]

omit [CertificateEncoding] in
theorem reconcile_changes {preferred : List String} {actor : String} {revision : String → String}
    {superseded : List String}
    (h : db.reconcileActiveLogicalPeers preferred actor revision now = .ok (superseded, db')) :
    Changes hostServerIdentity now touched db.core db'.core := by
  unfold reconcileActiveLogicalPeers at h
  simp only [bind_eq_ok, require_eq_ok, pure_eq_ok, Prod.mk.injEq] at h
  obtain ⟨_, -, _, -, _, -, -, rfl⟩ := h
  exact supersede_changes _ now actor revision db

end Db

end AgentsServer.PeerStore

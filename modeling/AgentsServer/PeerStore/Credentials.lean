import AgentsServer.PeerStore.RelayChanges

/-!
# The credentials of the peers

Who may authenticate is decided by two tables. Every change of the store keeps them
consistent: an active peer has one current certificate with its own key, and all
certificates of a revoked peer are revoked.
-/

namespace AgentsServer.PeerStore

open Library

variable {hostServerIdentity : String}

namespace Core

/-- What the tables of peers and certificates satisfy in every state. -/
structure Credentials (c : Core) : Prop where
  peerIds : (c.peers.map Peer.id).Nodup
  fingerprints : (c.certificates.map PeerCertificate.fingerprint).Nodup
  owned : ∀ certificate ∈ c.certificates, ∃ p ∈ c.peers, p.id = certificate.peerId
  alone : ∀ p ∈ c.peers, ∀ q ∈ c.peers, p.status = .active → q.status = .active →
    p.teamId = q.teamId → p.peerServerIdentity = q.peerServerIdentity → p.id = q.id
  current : ∀ p ∈ c.peers, p.status = .active → ∃ certificate ∈ c.certificates,
    certificate.peerId = p.id ∧ certificate.isCurrent = true ∧
    certificate.publicKeyPem = p.publicKeyPem ∧
    ∀ other ∈ c.certificates, other.peerId = p.id → other.isCurrent = true → other = certificate
  revoked : ∀ p ∈ c.peers, p.status = .revoked → ∀ certificate ∈ c.certificates,
    certificate.peerId = p.id → certificate.revokedAt ≠ none
  pending : ∀ certificate ∈ c.certificates, certificate.activationRequired = true →
    certificate.supersededAt = none
  overlap : ∀ certificate ∈ c.certificates, ∀ t, certificate.supersededAt = some t →
    certificate.validUntil ≤ min certificate.expiresAt (t + clientCertOverlapSeconds)

end Core

/-! ## One certificate under the updates -/

section Rows

variable (peerId actor : String) (now : Nat)

@[simp] theorem PeerCertificate.revoke_fingerprint (c : PeerCertificate) :
    (c.revoke peerId now).fingerprint = c.fingerprint := by
  unfold PeerCertificate.revoke
  split <;> rfl

@[simp] theorem PeerCertificate.revoke_peerId (c : PeerCertificate) :
    (c.revoke peerId now).peerId = c.peerId := by
  unfold PeerCertificate.revoke
  split <;> rfl

@[simp] theorem PeerCertificate.revoke_expiresAt (c : PeerCertificate) :
    (c.revoke peerId now).expiresAt = c.expiresAt := by
  unfold PeerCertificate.revoke
  split <;> rfl

@[simp] theorem PeerCertificate.revoke_supersededAt (c : PeerCertificate) :
    (c.revoke peerId now).supersededAt = c.supersededAt := by
  unfold PeerCertificate.revoke
  split <;> rfl

@[simp] theorem PeerCertificate.revoke_activationRequired (c : PeerCertificate) :
    (c.revoke peerId now).activationRequired = c.activationRequired := by
  unfold PeerCertificate.revoke
  split <;> rfl

theorem PeerCertificate.revoke_validUntil_le (c : PeerCertificate) :
    (c.revoke peerId now).validUntil ≤ c.validUntil := by
  unfold PeerCertificate.revoke
  split
  · exact min_le_left _ _
  · exact le_rfl

/-- The certificates of other peers are as before. -/
theorem PeerCertificate.revoke_other {c : PeerCertificate} (h : c.peerId ≠ peerId) :
    c.revoke peerId now = c := by
  unfold PeerCertificate.revoke
  rw [if_neg (by simpa using h)]

/-- A revoked certificate stays revoked, and those of the peer are revoked. -/
theorem PeerCertificate.revoke_revokedAt {c : PeerCertificate}
    (h : c.revokedAt ≠ none ∨ c.peerId = peerId) : (c.revoke peerId now).revokedAt ≠ none := by
  unfold PeerCertificate.revoke
  split
  next => simp
  next hother =>
    rcases h with hrevoked | howner
    · exact hrevoked
    · simp [howner] at hother

theorem Peer.revoke_active {p : Peer} (h : (p.revoke peerId actor now).status = .active) :
    p.revoke peerId actor now = p ∧ p.id ≠ peerId := by
  obtain ⟨-, hne⟩ := (Peer.revoke_status peerId actor now p).mp h
  refine ⟨?_, hne⟩
  unfold Peer.revoke
  rw [if_neg (by simp [hne])]

theorem Peer.revoke_revoked {p : Peer} (h : (p.revoke peerId actor now).status = .revoked) :
    p.status = .revoked ∨ p.id = peerId := by
  unfold Peer.revoke at h
  split at h
  next hsel =>
    simp only [Bool.and_eq_true, beq_iff_eq] at hsel
    exact .inr hsel.1
  next => exact .inl h

end Rows

section Activation

variable {peerId current new : String} {overlapUntil now : Nat}

@[simp] theorem PeerCertificate.swap_fingerprint (c : PeerCertificate) :
    (c.swap peerId current new overlapUntil now).fingerprint = c.fingerprint := by
  unfold PeerCertificate.swap
  split
  · rfl
  · split <;> rfl

@[simp] theorem PeerCertificate.swap_peerId (c : PeerCertificate) :
    (c.swap peerId current new overlapUntil now).peerId = c.peerId := by
  unfold PeerCertificate.swap
  split
  · rfl
  · split <;> rfl

@[simp] theorem PeerCertificate.swap_publicKeyPem (c : PeerCertificate) :
    (c.swap peerId current new overlapUntil now).publicKeyPem = c.publicKeyPem := by
  unfold PeerCertificate.swap
  split
  · rfl
  · split <;> rfl

@[simp] theorem PeerCertificate.swap_revokedAt (c : PeerCertificate) :
    (c.swap peerId current new overlapUntil now).revokedAt = c.revokedAt := by
  unfold PeerCertificate.swap
  split
  · rfl
  · split <;> rfl

/-- The certificates that the activation leaves as they are. -/
theorem PeerCertificate.swap_other {c : PeerCertificate}
    (hold : c.fingerprint = current → c.peerId = peerId → c.isCurrent = false)
    (hnew : c.fingerprint = new → c.peerId = peerId → c.activationRequired = false) :
    c.swap peerId current new overlapUntil now = c := by
  unfold PeerCertificate.swap
  rw [if_neg, if_neg]
  · simp only [Bool.and_eq_true, beq_iff_eq]
    rintro ⟨⟨⟨hname, howner⟩, hpending⟩, -⟩
    simp [hnew hname howner] at hpending
  · simp only [Bool.and_eq_true, beq_iff_eq]
    rintro ⟨⟨hname, howner⟩, hcurrent⟩
    simp [hold hname howner] at hcurrent

@[simp] theorem Peer.setKey_id (pem : String) (p : Peer) : (p.setKey peerId pem).id = p.id := by
  unfold Peer.setKey
  split <;> rfl

@[simp] theorem Peer.setKey_status (pem : String) (p : Peer) :
    (p.setKey peerId pem).status = p.status := by
  unfold Peer.setKey
  split <;> rfl

@[simp] theorem Peer.setKey_teamId (pem : String) (p : Peer) :
    (p.setKey peerId pem).teamId = p.teamId := by
  unfold Peer.setKey
  split <;> rfl

@[simp] theorem Peer.setKey_peerServerIdentity (pem : String) (p : Peer) :
    (p.setKey peerId pem).peerServerIdentity = p.peerServerIdentity := by
  unfold Peer.setKey
  split <;> rfl

end Activation

/-! ## The changes keep the credentials -/

namespace Core.Credentials

variable {c : Core}

theorem revokePeer (h : c.Credentials) (peerId actor revision : String) (now : Nat) :
    (c.revokePeer peerId actor revision now).Credentials where
  peerIds := by
    change ((c.peers.map (Peer.revoke peerId actor now)).map Peer.id).Nodup
    rw [Tables.map_keys (Peer.revoke_id peerId actor now)]
    exact h.peerIds
  fingerprints := by
    change ((c.certificates.map (PeerCertificate.revoke peerId now)).map
      PeerCertificate.fingerprint).Nodup
    rw [Tables.map_keys (PeerCertificate.revoke_fingerprint peerId now)]
    exact h.fingerprints
  owned := by
    intro certificate hmem
    obtain ⟨old, hold, rfl⟩ := List.mem_map.mp hmem
    obtain ⟨p, hp, howner⟩ := h.owned old hold
    exact ⟨_, List.mem_map_of_mem hp, by simpa using howner⟩
  alone := by
    intro p hp q hq hpActive hqActive hteam hidentity
    obtain ⟨oldP, hpOld, rfl⟩ := List.mem_map.mp hp
    obtain ⟨oldQ, hqOld, rfl⟩ := List.mem_map.mp hq
    have hpSame := (Peer.revoke_active peerId actor now hpActive).1
    have hqSame := (Peer.revoke_active peerId actor now hqActive).1
    rw [hpSame] at hpActive hteam hidentity ⊢
    rw [hqSame] at hqActive hteam hidentity ⊢
    exact h.alone oldP hpOld oldQ hqOld hpActive hqActive hteam hidentity
  current := by
    intro p hp hactive
    obtain ⟨old, hold, rfl⟩ := List.mem_map.mp hp
    obtain ⟨hsame, hne⟩ := Peer.revoke_active peerId actor now hactive
    rw [hsame] at hactive ⊢
    obtain ⟨certificate, hmem, howner, hcurrent, hkey, honly⟩ := h.current old hold hactive
    have hkept : certificate.revoke peerId now = certificate :=
      PeerCertificate.revoke_other peerId now (howner ▸ hne)
    refine ⟨certificate, hkept ▸ List.mem_map_of_mem hmem, howner, hcurrent, hkey, ?_⟩
    intro other hother hotherOwner hotherCurrent
    obtain ⟨before, hbefore, rfl⟩ := List.mem_map.mp hother
    rw [PeerCertificate.revoke_peerId] at hotherOwner
    rw [PeerCertificate.revoke_other peerId now (hotherOwner ▸ hne)] at hotherCurrent ⊢
    exact honly before hbefore hotherOwner hotherCurrent
  revoked := by
    intro p hp hrevoked certificate hmem howner
    obtain ⟨oldPeer, hpeer, rfl⟩ := List.mem_map.mp hp
    obtain ⟨old, hold, rfl⟩ := List.mem_map.mp hmem
    rw [PeerCertificate.revoke_peerId, Peer.revoke_id] at howner
    apply PeerCertificate.revoke_revokedAt
    rcases Peer.revoke_revoked peerId actor now hrevoked with hwas | hid
    · exact .inl (h.revoked oldPeer hpeer hwas old hold howner)
    · exact .inr (howner.trans hid)
  pending := by
    intro certificate hmem hpending
    obtain ⟨old, hold, rfl⟩ := List.mem_map.mp hmem
    rw [PeerCertificate.revoke_activationRequired] at hpending
    rw [PeerCertificate.revoke_supersededAt]
    exact h.pending old hold hpending
  overlap := by
    intro certificate hmem t hsuperseded
    obtain ⟨old, hold, rfl⟩ := List.mem_map.mp hmem
    rw [PeerCertificate.revoke_supersededAt] at hsuperseded
    calc (old.revoke peerId now).validUntil
        ≤ old.validUntil := PeerCertificate.revoke_validUntil_le peerId now old
      _ ≤ min old.expiresAt (t + clientCertOverlapSeconds) := h.overlap old hold t hsuperseded
      _ = _ := by rw [PeerCertificate.revoke_expiresAt]

/-- A new peer with its first certificate. -/
theorem approve (h : c.Credentials) {p : Peer} {certificate : PeerCertificate}
    (fresh : ∀ old ∈ c.peers, old.id ≠ p.id)
    (alone : ∀ old ∈ c.peers, old.status = .active →
      ¬ (old.teamId = p.teamId ∧ old.peerServerIdentity = p.peerServerIdentity))
    (active : p.status = .active)
    (unused : ∀ old ∈ c.certificates, old.fingerprint ≠ certificate.fingerprint)
    (owner : certificate.peerId = p.id) (current : certificate.isCurrent = true)
    (key : certificate.publicKeyPem = p.publicKeyPem) :
    Core.Credentials { c with
      peers := c.peers ++ [p], certificates := c.certificates ++ [certificate] } := by
  -- the certificates of the table belong to other peers
  have hothers : ∀ old ∈ c.certificates, old.peerId ≠ p.id := by
    intro old hold
    obtain ⟨q, hq, howner⟩ := h.owned old hold
    exact howner ▸ fresh q hq
  have hstate : certificate.supersededAt = none ∧ certificate.activationRequired = false := by
    simp only [PeerCertificate.isCurrent, Bool.and_eq_true, Option.isNone_iff_eq_none,
      Bool.not_eq_true'] at current
    exact ⟨current.1.2, current.2⟩
  constructor
  case peerIds => exact Tables.nodup_append_row h.peerIds fresh
  case fingerprints => exact Tables.nodup_append_row h.fingerprints unused
  case owned =>
    intro x hx
    rcases List.mem_append.mp hx with hold | hnew
    · obtain ⟨q, hq, howner⟩ := h.owned x hold
      exact ⟨q, List.mem_append_left _ hq, howner⟩
    · rw [List.mem_singleton.mp hnew]
      exact ⟨p, by simp, owner.symm⟩
  case alone =>
    intro x hx y hy hxActive hyActive hteam hidentity
    rcases List.mem_append.mp hx with hxOld | hxNew <;>
      rcases List.mem_append.mp hy with hyOld | hyNew
    · exact h.alone x hxOld y hyOld hxActive hyActive hteam hidentity
    · rw [List.mem_singleton.mp hyNew] at hteam hidentity
      exact absurd ⟨hteam, hidentity⟩ (alone x hxOld hxActive)
    · rw [List.mem_singleton.mp hxNew] at hteam hidentity
      exact absurd ⟨hteam.symm, hidentity.symm⟩ (alone y hyOld hyActive)
    · rw [List.mem_singleton.mp hxNew, List.mem_singleton.mp hyNew]
  case current =>
    intro x hx hactive
    rcases List.mem_append.mp hx with hold | hnew
    · obtain ⟨found, hmem, howner, hcurrent, hkey, honly⟩ := h.current x hold hactive
      refine ⟨found, List.mem_append_left _ hmem, howner, hcurrent, hkey, ?_⟩
      intro other hother hotherOwner hotherCurrent
      rcases List.mem_append.mp hother with hother | hother
      · exact honly other hother hotherOwner hotherCurrent
      · rw [List.mem_singleton.mp hother, owner] at hotherOwner
        exact absurd hotherOwner.symm (fresh x hold)
    · rw [List.mem_singleton.mp hnew]
      refine ⟨certificate, by simp, owner, current, key, ?_⟩
      intro other hother hotherOwner _
      rcases List.mem_append.mp hother with hother | hother
      · exact absurd hotherOwner (hothers other hother)
      · exact List.mem_singleton.mp hother
  case revoked =>
    intro x hx hrevoked other hother howner
    rcases List.mem_append.mp hx with hold | hnew
    · rcases List.mem_append.mp hother with hother | hother
      · exact h.revoked x hold hrevoked other hother howner
      · rw [List.mem_singleton.mp hother, owner] at howner
        exact absurd howner.symm (fresh x hold)
    · rw [List.mem_singleton.mp hnew, active] at hrevoked
      cases hrevoked
  case pending =>
    intro x hx hpending
    rcases List.mem_append.mp hx with hold | hnew
    · exact h.pending x hold hpending
    · rw [List.mem_singleton.mp hnew]
      exact hstate.1
  case overlap =>
    intro x hx t hsuperseded
    rcases List.mem_append.mp hx with hold | hnew
    · exact h.overlap x hold t hsuperseded
    · rw [List.mem_singleton.mp hnew, hstate.1] at hsuperseded
      cases hsuperseded

/-- A pending certificate for an active peer. -/
theorem issue (h : c.Credentials) {certificate : PeerCertificate}
    (owner : ∃ p ∈ c.peers, p.id = certificate.peerId ∧ p.status = .active)
    (unused : ∀ old ∈ c.certificates, old.fingerprint ≠ certificate.fingerprint)
    (pending : certificate.activationRequired = true ∧ certificate.supersededAt = none) :
    Core.Credentials { c with certificates := c.certificates ++ [certificate] } := by
  obtain ⟨p, hp, hid, hactive⟩ := owner
  constructor
  case peerIds => exact h.peerIds
  case alone => exact h.alone
  case fingerprints => exact Tables.nodup_append_row h.fingerprints unused
  case owned =>
    intro x hx
    rcases List.mem_append.mp hx with hold | hnew
    · exact h.owned x hold
    · rw [List.mem_singleton.mp hnew]
      exact ⟨p, hp, hid⟩
  case current =>
    intro x hx hxActive
    obtain ⟨found, hmem, howner, hcurrent, hkey, honly⟩ := h.current x hx hxActive
    refine ⟨found, List.mem_append_left _ hmem, howner, hcurrent, hkey, ?_⟩
    intro other hother hotherOwner hotherCurrent
    rcases List.mem_append.mp hother with hother | hother
    · exact honly other hother hotherOwner hotherCurrent
    · rw [List.mem_singleton.mp hother] at hotherCurrent
      simp [PeerCertificate.isCurrent, pending.1] at hotherCurrent
  case revoked =>
    intro x hx hrevoked other hother howner
    rcases List.mem_append.mp hother with hother | hother
    · exact h.revoked x hx hrevoked other hother howner
    · rw [List.mem_singleton.mp hother, ← hid] at howner
      rw [Tables.eq_of_key h.peerIds hp hx howner, hrevoked] at hactive
      cases hactive
  case pending =>
    intro x hx hpending
    rcases List.mem_append.mp hx with hold | hnew
    · exact h.pending x hold hpending
    · rw [List.mem_singleton.mp hnew]
      exact pending.2
  case overlap =>
    intro x hx t hsuperseded
    rcases List.mem_append.mp hx with hold | hnew
    · exact h.overlap x hold t hsuperseded
    · rw [List.mem_singleton.mp hnew, pending.2] at hsuperseded
      cases hsuperseded

section Activate

variable {peerId : String} {old new : PeerCertificate} {now : Nat}

/-- What an activation does to a certificate. -/
theorem swap_cases (h : c.Credentials)
    (found : old ∈ c.certificates ∧ old.peerId = peerId ∧ old.isCurrent = true)
    (awaited : new ∈ c.certificates ∧ new.peerId = peerId ∧ new.activationRequired = true ∧
      new.revokedAt = none) (overlapUntil now : Nat) {x : PeerCertificate}
    (hx : x ∈ c.certificates) :
    let after := x.swap peerId old.fingerprint new.fingerprint overlapUntil now
    (x = old ∧ after = { old with supersededAt := some now, validUntil := overlapUntil }) ∨
      (x = new ∧ after = { new with activationRequired := false }) ∨ (x ≠ old ∧ x ≠ new ∧ after = x) := by
  obtain ⟨holdMem, holdOwner, holdCurrent⟩ := found
  obtain ⟨hnewMem, hnewOwner, hnewPending, hnewKept⟩ := awaited
  dsimp only
  by_cases hxOld : x = old
  · refine .inl ⟨hxOld, ?_⟩
    rw [hxOld, PeerCertificate.swap, if_pos (by simp [holdOwner, holdCurrent])]
  by_cases hxNew : x = new
  · refine .inr (.inl ⟨hxNew, ?_⟩)
    have hdistinct : new.fingerprint ≠ old.fingerprint := by
      intro hname
      exact hxOld (hxNew.trans (Tables.eq_of_key h.fingerprints hnewMem holdMem hname))
    rw [hxNew, PeerCertificate.swap, if_neg (by simp [hdistinct]),
      if_pos (by simp [hnewOwner, hnewPending, hnewKept])]
  · refine .inr (.inr ⟨hxOld, hxNew, PeerCertificate.swap_other ?_ ?_⟩)
    · exact fun hname _ => absurd (Tables.eq_of_key h.fingerprints hx holdMem hname) hxOld
    · exact fun hname _ => absurd (Tables.eq_of_key h.fingerprints hx hnewMem hname) hxNew

/-- After an activation the pending certificate is the current one of its peer, and its key
is that of the peer. -/
theorem current_activated (h : c.Credentials)
    (found : old ∈ c.certificates ∧ old.peerId = peerId ∧ old.isCurrent = true)
    (awaited : new ∈ c.certificates ∧ new.peerId = peerId ∧ new.activationRequired = true ∧
      new.revokedAt = none) (overlapUntil now : Nat) {p : Peer} (hp : p ∈ c.peers)
    (hactive : p.status = .active) :
    let swap := PeerCertificate.swap peerId old.fingerprint new.fingerprint overlapUntil now
    ∃ x ∈ c.certificates, x.peerId = p.id ∧ (swap x).isCurrent = true ∧
      x.publicKeyPem = (p.setKey peerId new.publicKeyPem).publicKeyPem ∧
      ∀ other ∈ c.certificates, other.peerId = p.id → (swap other).isCurrent = true →
        other = x := by
  have hswap := fun {x} => h.swap_cases (x := x) found awaited overlapUntil now
  obtain ⟨holdMem, holdOwner, holdCurrent⟩ := found
  obtain ⟨hnewMem, hnewOwner, hnewPending, hnewKept⟩ := awaited
  obtain ⟨certificate, hmem, howner, hcurrent, hkey, honly⟩ := h.current p hp hactive
  have hnewCurrent : new.isCurrent = false := by simp [PeerCertificate.isCurrent, hnewPending]
  dsimp only
  by_cases hid : p.id = peerId
  · refine ⟨new, hnewMem, hnewOwner.trans hid.symm, ?_, ?_, ?_⟩
    · obtain ⟨rfl, -⟩ | ⟨-, hafter⟩ | ⟨-, hne, -⟩ := hswap hnewMem
      · rw [hnewCurrent] at holdCurrent
        cases holdCurrent
      · rw [hafter]
        simp [PeerCertificate.isCurrent, hnewKept, h.pending new hnewMem hnewPending]
      · exact absurd rfl hne
    · simp [Peer.setKey, hid, hactive]
    · intro other hother hotherOwner hotherCurrent
      obtain ⟨-, hafter⟩ | ⟨hnew, -⟩ | ⟨hne, -, hafter⟩ := hswap hother
      · rw [hafter] at hotherCurrent
        simp [PeerCertificate.isCurrent] at hotherCurrent
      · exact hnew
      · rw [hafter] at hotherCurrent
        have hsame := honly other hother hotherOwner hotherCurrent
        rw [← honly old holdMem (holdOwner.trans hid.symm) holdCurrent] at hsame
        exact absurd hsame hne
  · -- the certificates of the other peers are as before
    have hother : ∀ x ∈ c.certificates, x.peerId = p.id →
        x.swap peerId old.fingerprint new.fingerprint overlapUntil now = x := by
      intro x hx hxOwner
      obtain ⟨rfl, -⟩ | ⟨rfl, -⟩ | ⟨-, -, hafter⟩ := hswap hx
      · exact absurd (hxOwner.symm.trans holdOwner) hid
      · exact absurd (hxOwner.symm.trans hnewOwner) hid
      · exact hafter
    refine ⟨certificate, hmem, howner, ?_, ?_, ?_⟩
    · rw [hother certificate hmem howner]
      exact hcurrent
    · simpa [Peer.setKey, hid] using hkey
    · intro other hmemOther hotherOwner hotherCurrent
      rw [hother other hmemOther hotherOwner] at hotherCurrent
      exact honly other hmemOther hotherOwner hotherCurrent

/-- The pending certificate takes the place of the current one. -/
theorem activate (h : c.Credentials)
    (found : old ∈ c.certificates ∧ old.peerId = peerId ∧ old.isCurrent = true)
    (awaited : new ∈ c.certificates ∧ new.peerId = peerId ∧ new.activationRequired = true ∧
      new.revokedAt = none) :
    Core.Credentials { c with
      certificates := c.certificates.map (PeerCertificate.swap peerId old.fingerprint
        new.fingerprint (min old.expiresAt (now + clientCertOverlapSeconds)) now)
      peers := c.peers.map (Peer.setKey peerId new.publicKeyPem) } := by
  have hswap := fun {x} => h.swap_cases (x := x) found awaited
    (min old.expiresAt (now + clientCertOverlapSeconds)) now
  constructor
  case peerIds =>
    change ((c.peers.map (Peer.setKey peerId new.publicKeyPem)).map Peer.id).Nodup
    rw [Tables.map_keys (Peer.setKey_id new.publicKeyPem)]
    exact h.peerIds
  case fingerprints =>
    change ((c.certificates.map (PeerCertificate.swap peerId old.fingerprint new.fingerprint
      (min old.expiresAt (now + clientCertOverlapSeconds)) now)).map
        PeerCertificate.fingerprint).Nodup
    rw [Tables.map_keys PeerCertificate.swap_fingerprint]
    exact h.fingerprints
  case owned =>
    intro x hx
    obtain ⟨before, hbefore, rfl⟩ := List.mem_map.mp hx
    obtain ⟨p, hp, howner⟩ := h.owned before hbefore
    exact ⟨_, List.mem_map_of_mem hp, by simpa using howner⟩
  case alone =>
    intro p hp q hq hpActive hqActive hteam hidentity
    obtain ⟨oldP, hpOld, rfl⟩ := List.mem_map.mp hp
    obtain ⟨oldQ, hqOld, rfl⟩ := List.mem_map.mp hq
    simp only [Peer.setKey_id, Peer.setKey_status, Peer.setKey_teamId,
      Peer.setKey_peerServerIdentity] at hpActive hqActive hteam hidentity ⊢
    exact h.alone oldP hpOld oldQ hqOld hpActive hqActive hteam hidentity
  case current =>
    intro p hp hactive
    obtain ⟨before, hbefore, rfl⟩ := List.mem_map.mp hp
    rw [Peer.setKey_status] at hactive
    obtain ⟨x, hx, howner, hcurrent, hkey, honly⟩ := h.current_activated found awaited
      (min old.expiresAt (now + clientCertOverlapSeconds)) now hbefore hactive
    rw [Peer.setKey_id]
    refine ⟨_, List.mem_map_of_mem hx, by simpa using howner, hcurrent, by simpa using hkey, ?_⟩
    intro other hother hotherOwner hotherCurrent
    obtain ⟨y, hy, rfl⟩ := List.mem_map.mp hother
    rw [PeerCertificate.swap_peerId] at hotherOwner
    rw [honly y hy hotherOwner hotherCurrent]
  case revoked =>
    intro p hp hrevoked x hx howner
    obtain ⟨oldPeer, hpeer, rfl⟩ := List.mem_map.mp hp
    obtain ⟨before, hbefore, rfl⟩ := List.mem_map.mp hx
    rw [Peer.setKey_status] at hrevoked
    rw [PeerCertificate.swap_peerId, Peer.setKey_id] at howner
    rw [PeerCertificate.swap_revokedAt]
    exact h.revoked oldPeer hpeer hrevoked before hbefore howner
  case pending =>
    intro x hx hpending
    obtain ⟨before, hbefore, rfl⟩ := List.mem_map.mp hx
    obtain ⟨-, hafter⟩ | ⟨-, hafter⟩ | ⟨-, -, hafter⟩ := hswap hbefore
    · -- the one that is superseded was activated
      rw [hafter] at hpending
      have hactivated : old.activationRequired = false := by
        have hcurrent := found.2.2
        simp only [PeerCertificate.isCurrent, Bool.and_eq_true, Bool.not_eq_true'] at hcurrent
        exact hcurrent.2
      exact absurd hpending (by simp [hactivated])
    · rw [hafter] at hpending
      cases hpending
    · rw [hafter] at hpending ⊢
      exact h.pending before hbefore hpending
  case overlap =>
    intro x hx t hsuperseded
    obtain ⟨before, hbefore, rfl⟩ := List.mem_map.mp hx
    obtain ⟨-, hafter⟩ | ⟨rfl, hafter⟩ | ⟨-, -, hafter⟩ := hswap hbefore
    · rw [hafter] at hsuperseded ⊢
      cases hsuperseded
      exact le_rfl
    · rw [hafter] at hsuperseded
      have hnone := h.pending before hbefore awaited.2.2.1
      exact absurd (hnone.symm.trans hsuperseded) (by simp)
    · rw [hafter] at hsuperseded ⊢
      exact h.overlap before hbefore t hsuperseded

end Activate

/-- What depends on the two tables only. -/
theorem of_tables (h : c.Credentials) {c' : Core} (peers : c'.peers = c.peers)
    (certificates : c'.certificates = c.certificates) : c'.Credentials := by
  obtain ⟨_, _, _, _, _, _⟩ := c
  obtain ⟨_, _, _, _, _, _⟩ := c'
  obtain rfl : _ = _ := peers
  obtain rfl : _ = _ := certificates
  exact ⟨h.peerIds, h.fingerprints, h.owned, h.alone, h.current, h.revoked, h.pending, h.overlap⟩

theorem change (h : c.Credentials) {c' : Core} {now : Nat} {touched : Touched}
    (hchange : Change hostServerIdentity now touched c c') :
    c'.Credentials := by
  cases hchange with
  | revoke => exact h.revokePeer _ _ _ _
  | approve fresh alone active unused owner current key =>
      exact h.approve fresh alone active unused owner current key
  | issue owner unused pending => exact h.issue owner unused pending
  | activate found awaited => exact h.activate found awaited
  | endAll | endRoute | publish | expire | forget | requeue | submit | lease | settle =>
      exact h.of_tables rfl rfl

/-- The credentials of a new database. -/
theorem start (consentEpoch : Nat) : (Host.start consentEpoch).db.core.Credentials := by
  constructor <;> simp [Host.start, Db.new, Db.core]

end Core.Credentials

theorem Core.Credentials.step [Sha256] [CertificateEncoding] {h : Host}
    (credentials : h.db.core.Credentials)
    (act : HostCall × Nat) :
    (PeerStore.step hostServerIdentity h act).1.db.core.Credentials :=
  step_keep h act (fun hchange hcore => hcore.change hchange) credentials

end AgentsServer.PeerStore

import AgentsServer.PeerStore.Relayed

/-!
# Leases of relayed envelopes

In every run a settled envelope stays as it is, and an envelope that is handed out is under
one lease, which nothing but its receipt or its expiry ends early.
-/

namespace AgentsServer.PeerStore

open Library

variable {hostServerIdentity : String}

/-! ## The events -/

/-- `claim_inbox` hands out the envelope under the lease of this token. -/
def HandsOut (e : HostEvent) (x : RelayEnvelope) (token : String) : Prop :=
  ∃ inbox owner limit available claimed,
    e.action.1 = .claimInbox inbox owner limit token available ∧
    e.outcome = .ok (.claimed claimed) ∧ x ∈ claimed.envelopes

/-- No submission draws this envelope id. -/
def NoneDrawn (events : List HostEvent) (envelopeId : String) : Prop :=
  ∀ e ∈ events, e.action.1.touched ≠ .submitted envelopeId

/-! ## Runs keep both invariants -/

structure Host.Consistent (hostServerIdentity : String) (h : Host) : Prop where
  credentials : h.db.core.Credentials
  relayed : h.db.core.Relayed hostServerIdentity

section Steps

variable [Sha256] [CertificateEncoding]

theorem Host.Consistent.step {h : Host} (consistent : h.Consistent hostServerIdentity)
    (act : HostCall × Nat) :
    (PeerStore.step hostServerIdentity h act).1.Consistent hostServerIdentity where
  credentials := consistent.credentials.step act
  relayed := step_keep h act (fun hchange hcore => hcore.change hchange) consistent.relayed

omit [Sha256] [CertificateEncoding] in
theorem Host.Consistent.start (consentEpoch : Nat) :
    (Host.start consentEpoch).Consistent hostServerIdentity :=
  ⟨Core.Credentials.start consentEpoch, Core.Relayed.start consentEpoch⟩

theorem consistent_keep : ∀ (h : Host) (act : HostCall × Nat), h.Consistent hostServerIdentity →
    (step hostServerIdentity h act).1.Consistent hostServerIdentity :=
  fun _ act consistent => consistent.step act

/-! ## Status -/

/-- The rows with the id of this envelope follow it. -/
def Core.Followed (c : Core) (x : RelayEnvelope) : Prop :=
  ∀ y ∈ c.envelopes, y.id = x.id → x.Follows y

theorem Core.Followed.step {h : Host} {act : HostCall × Nat} {x : RelayEnvelope}
    (consistent : h.Consistent hostServerIdentity) (followed : h.db.core.Followed x)
    (undrawn : act.1.touched ≠ .submitted x.id) :
    (PeerStore.step hostServerIdentity h act).1.db.core.Followed x := by
  have hkept := step_keep (P := fun c : Core => c.Relayed hostServerIdentity ∧ c.Followed x) h act
    (fun {c c'} hchange hcore => ⟨hcore.1.change hchange, ?_⟩) ⟨consistent.relayed, followed⟩
  · exact hkept.2
  · intro y hy hid
    rcases hchange.follows hcore.1.envelopeIds y hy with ⟨e, he, hfollows⟩ | hdrawn
    · exact (hcore.2 e he (hfollows.id.symm.trans hid)).trans hfollows
    · exact absurd (hid ▸ hdrawn) undrawn

/-- A settled envelope stays as it is as long as its row exists, and a live one changes its
status and its lease only. -/
theorem envelope_followed (hostServerIdentity : String) (consentEpoch : Nat)
    (acts : List (HostCall × Nat)) {pre mid post : List HostEvent} {e f : HostEvent}
    (split : Runs.history (step hostServerIdentity) (Host.start consentEpoch) acts =
      pre ++ e :: mid ++ f :: post) {x : RelayEnvelope}
    (hx : x ∈ (step hostServerIdentity e.before e.action).1.db.envelopes)
    (undrawn : NoneDrawn mid x.id) :
    ∀ y ∈ f.before.db.envelopes, y.id = x.id → x.Follows y := by
  refine (Runs.history_since (step hostServerIdentity)
    (I := fun h : Host => h.Consistent hostServerIdentity)
    (M := fun h => h.db.core.Followed x)
    (A := fun e => x ∈ (step hostServerIdentity e.before e.action).1.db.envelopes)
    (O := fun o => o.action.1.touched = .submitted x.id) consistent_keep ?_ ?_ _
    (Host.Consistent.start consentEpoch) acts split hx undrawn).2.1
  · intro h act consistent hmem y hy hid
    have hsame := Tables.eq_of_key (consistent.step act).relayed.envelopeIds hy hmem hid
    rw [hsame]
    exact .refl x
  · intro h act consistent followed hno
    exact followed.step consistent hno

end Steps

/-! ## Leases -/

/-- An envelope under this lease, or settled. -/
structure RelayEnvelope.HeldBy (digest : Bytes) (runsOut : Nat) (x : RelayEnvelope) : Prop where
  handedOut : x.status ≠ .queued
  lease : x.status = .claimed → x.leaseTokenHash = some digest ∧ x.leaseExpiresAt = some runsOut

/-- The rows with this id are under this lease, or settled. -/
def Core.Held (c : Core) (envelopeId : String) (digest : Bytes) (runsOut : Nat) : Prop :=
  ∀ y ∈ c.envelopes, y.id = envelopeId → y.HeldBy digest runsOut

namespace RelayEnvelope

variable {x : RelayEnvelope} {digest : Bytes} {runsOut now : Nat}

theorem HeldBy.expire (h : x.HeldBy digest runsOut) (which : RelayEnvelope → Bool) :
    (x.expire which).HeldBy digest runsOut := by
  unfold RelayEnvelope.expire
  split
  · exact ⟨nofun, nofun⟩
  · exact h

/-- The lease has not run out, so the envelope is not queued again. -/
theorem HeldBy.requeue (h : x.HeldBy digest runsOut) (early : now < runsOut) :
    (x.requeue now).HeldBy digest runsOut := by
  unfold RelayEnvelope.requeue
  split
  next hsel =>
    simp only [Bool.and_eq_true, beq_iff_eq] at hsel
    have hdue := hsel.1.2
    rw [(h.lease hsel.1.1).2, Option.any_some, decide_eq_true_eq] at hdue
    exact absurd early (Nat.not_lt.mpr hdue)
  next => exact h

theorem HeldBy.leaseIn (h : x.HeldBy digest runsOut) (ids : List String) (owner : String)
    (other : Bytes) (now : Nat) : (x.leaseIn ids owner other now).HeldBy digest runsOut := by
  unfold RelayEnvelope.leaseIn
  rw [if_neg]
  · exact h
  · intro hsel
    simp only [Bool.and_eq_true, beq_iff_eq] at hsel
    exact h.handedOut hsel.2

theorem HeldBy.settle (h : x.HeldBy digest runsOut) (envelopeId : String)
    (outcome : ReceiptOutcome) : (x.settle envelopeId outcome).HeldBy digest runsOut := by
  unfold RelayEnvelope.settle
  split
  · cases outcome <;> exact ⟨nofun, nofun⟩
  · exact h

end RelayEnvelope

/-- Until a lease runs out, nothing but its receipt or an expiry touches the envelope. -/
theorem Core.Held.change {c c' : Core} {envelopeId : String} {digest : Bytes} {runsOut now : Nat}
    {touched : Touched} (h : c.Held envelopeId digest runsOut) (early : now < runsOut)
    (undrawn : touched ≠ .submitted envelopeId) (hchange : Change hostServerIdentity now touched c c') :
    c'.Held envelopeId digest runsOut := by
  intro y hy hid
  cases hchange with
  | revoke | endAll | endRoute | expire =>
      obtain ⟨x, hx, rfl⟩ := List.mem_map.mp hy
      exact (h x hx ((RelayEnvelope.follows_expire _ x).id.symm.trans hid)).expire _
  | requeue =>
      obtain ⟨x, hx, rfl⟩ := List.mem_map.mp hy
      exact (h x hx ((RelayEnvelope.follows_requeue now x).id.symm.trans hid)).requeue early
  | lease =>
      obtain ⟨x, hx, rfl⟩ := List.mem_map.mp hy
      exact (h x hx ((RelayEnvelope.follows_leaseIn _ _ _ now x).id.symm.trans hid)).leaseIn _ _ _ _
  | settle =>
      obtain ⟨x, hx, rfl⟩ := List.mem_map.mp hy
      exact (h x hx ((RelayEnvelope.settle_id _ _ x).symm.trans hid)).settle _ _
  | forget => exact h y (List.mem_filter.mp hy).1 hid
  | submit _ _ _ named =>
      rcases List.mem_append.mp hy with hold | hnew
      · exact h y hold hid
      · rw [List.mem_singleton.mp hnew] at hid
        exact absurd (hid ▸ named) undrawn
  | approve | issue | activate | publish => exact h y hy hid

section Claims

variable [Sha256] [CertificateEncoding]

theorem Core.Held.step {h : Host} {act : HostCall × Nat} {envelopeId : String} {digest : Bytes}
    {runsOut : Nat} (held : h.db.core.Held envelopeId digest runsOut) (early : act.2 < runsOut)
    (undrawn : act.1.touched ≠ .submitted envelopeId) :
    (PeerStore.step hostServerIdentity h act).1.db.core.Held envelopeId digest runsOut :=
  step_keep (P := fun c : Core => c.Held envelopeId digest runsOut) h act
    (fun hchange hcore => hcore.change early undrawn hchange) held

/-- What is handed out was selected after the expiry of what is past its time and the
requeue of what a lease had run out on. -/
theorem handsOut_selected {h : Host} {act : HostCall × Nat} {x : RelayEnvelope} {token : String}
    (hands : HandsOut ⟨h, act, (step hostServerIdentity h act).2⟩ x token) :
    let seen := (h.db.pruneRelayState act.2).requeue act.2
    act.1.touched = .nothing ∧ x ∈ seen.envelopes ∧
      (∃ inbox, seen.selects hostServerIdentity inbox x = true) ∧
      ∃ ids owner, x.id ∈ ids ∧ (step hostServerIdentity h act).1.db.core = { seen.core with
        envelopes := seen.envelopes.map
          (RelayEnvelope.leaseIn ids owner (Sha256.digest (utf8 token.toList)) act.2) } := by
  obtain ⟨call, now⟩ := act
  obtain ⟨inbox, owner, limit, available, claimed, hcall, hok, hx⟩ := hands
  obtain rfl : call = _ := hcall
  obtain ⟨hdone, hdb⟩ := step_ok hok
  obtain ⟨answer, hbody, hanswer⟩ := answered_eq_ok .claimed hdone
  cases hanswer
  obtain ⟨hrows, hafter⟩ := Db.claimInbox_eq hbody
  have hselected : x ∈ ((h.db.pruneRelayState now).requeue now).envelopes.filter
      (((h.db.pruneRelayState now).requeue now).selects hostServerIdentity inbox) := by
    rw [hrows] at hx
    exact (List.mem_mergeSort).mp (List.mem_of_mem_take hx)
  obtain ⟨hmem, hsel⟩ := List.mem_filter.mp hselected
  refine ⟨rfl, hmem, ⟨inbox, hsel⟩, claimed.envelopes.map RelayEnvelope.id, owner,
    List.mem_map_of_mem hx, ?_⟩
  rw [hdb]
  exact congrArg Db.core hafter

omit [Sha256] [CertificateEncoding] in
theorem Db.selects_queued {db : Db} {inbox : Inbox} {x : RelayEnvelope}
    (h : db.selects hostServerIdentity inbox x = true) : x.status = .queued := by
  simp only [selects, Bool.and_eq_true, beq_iff_eq] at h
  exact h.1

/-- A hand-out puts the envelope under its lease. -/
theorem handsOut_held {h : Host} {act : HostCall × Nat} {x : RelayEnvelope} {token : String}
    (consistent : h.Consistent hostServerIdentity)
    (hands : HandsOut ⟨h, act, (step hostServerIdentity h act).2⟩ x token) :
    (step hostServerIdentity h act).1.db.core.Held x.id (Sha256.digest (utf8 token.toList))
      (act.2 + relayLeaseSeconds) := by
  obtain ⟨-, hmem, ⟨inbox, hsel⟩, ids, owner, hid, hcore⟩ := handsOut_selected hands
  have hseen := (Db.requeued_changes hostServerIdentity .nothing h.db act.2).keep
    (fun hchange hrelayed => Core.Relayed.change hrelayed hchange) consistent.relayed
  intro y hy hname
  rw [hcore] at hy
  obtain ⟨old, hold, rfl⟩ := List.mem_map.mp hy
  have hfollows := RelayEnvelope.follows_leaseIn ids owner
    (Sha256.digest (utf8 token.toList)) act.2 old
  have hsame := Tables.eq_of_key hseen.envelopeIds hold hmem (hfollows.id.symm.trans hname)
  rw [hsame, RelayEnvelope.leaseIn, if_pos (by simp [hid, Db.selects_queued hsel])]
  exact ⟨nofun, fun _ => ⟨rfl, rfl⟩⟩

/-- Nothing that is held is handed out. -/
theorem held_not_handed {h : Host} {act : HostCall × Nat} {x : RelayEnvelope} {token : String}
    {digest : Bytes} {runsOut : Nat} (held : h.db.core.Held x.id digest runsOut)
    (early : act.2 < runsOut) :
    ¬ HandsOut ⟨h, act, (step hostServerIdentity h act).2⟩ x token := by
  intro hands
  obtain ⟨-, hmem, ⟨inbox, hsel⟩, -⟩ := handsOut_selected hands
  have hno : Touched.nothing ≠ .submitted x.id := nofun
  have hseen := (Db.requeued_changes hostServerIdentity .nothing h.db act.2).keep
    (P := fun c : Core => c.Held x.id digest runsOut)
    (fun hchange hheld => hheld.change early hno hchange) held
  exact (hseen x hmem rfl).handedOut (Db.selects_queued hsel)

/-- Until the lease of a hand-out runs out, its token is the only one, and the envelope is
not handed out again. -/
theorem lease_exclusive (hostServerIdentity : String) (consentEpoch : Nat)
    (acts : List (HostCall × Nat)) (ordered : (acts.map Prod.snd).Pairwise (· ≤ ·))
    {pre mid post : List HostEvent} {e f : HostEvent}
    (split : Runs.history (step hostServerIdentity) (Host.start consentEpoch) acts =
      pre ++ e :: mid ++ f :: post) {x : RelayEnvelope} {token : String}
    (hands : HandsOut e x token) (undrawn : NoneDrawn mid x.id)
    (early : f.action.2 < e.action.2 + relayLeaseSeconds) :
    (∀ y other, HandsOut f y other → y.id ≠ x.id) ∧
      ∀ y ∈ f.before.db.envelopes, y.id = x.id → ∀ digest t, y.leasedTo digest t = true →
        digest = Sha256.digest (utf8 token.toList) := by
  -- the clocks of the events between are before the end of the lease
  have htimes : ∀ o ∈ mid, o.action.2 < e.action.2 + relayLeaseSeconds := by
    intro o ho
    have hacts := Runs.history_actions (step hostServerIdentity) (Host.start consentEpoch) acts
    rw [← hacts, split, List.map_map] at ordered
    have hle := (List.pairwise_map.mp ordered)
    have hpair := (List.pairwise_append.mp hle).2.2 o (by simp [ho]) f (by simp)
    exact lt_of_le_of_lt hpair early
  obtain ⟨-, hheld, houtcome⟩ := Runs.history_since (step hostServerIdentity)
    (I := fun h : Host => h.Consistent hostServerIdentity)
    (M := fun h => h.db.core.Held x.id (Sha256.digest (utf8 token.toList))
      (e.action.2 + relayLeaseSeconds))
    (A := fun d => HandsOut d x token ∧ d.action.2 = e.action.2)
    (O := fun o => o.action.1.touched = .submitted x.id ∨
      e.action.2 + relayLeaseSeconds ≤ o.action.2) consistent_keep
    (fun h act consistent hmark => by
      have hheld := handsOut_held consistent hmark.1
      rw [hmark.2] at hheld
      exact hheld)
    (fun h act _ hheld hno => hheld.step (Nat.lt_of_not_le fun hdue => hno (.inr hdue))
      fun hdrawn => hno (.inl hdrawn)) _ (Host.Consistent.start consentEpoch) acts split
    ⟨hands, rfl⟩ (fun o ho => by
      rintro (hdrawn | hdue)
      · exact undrawn o ho hdrawn
      · exact absurd (htimes o ho) (Nat.not_lt.mpr hdue))
  constructor
  · intro y other hother hid
    have hreal : HandsOut ⟨f.before, f.action, (step hostServerIdentity f.before f.action).2⟩
        y other := by
      rw [← houtcome]
      exact hother
    exact held_not_handed (hid ▸ hheld) early hreal
  · intro y hy hid digest t hleased
    simp only [RelayEnvelope.leasedTo, Bool.and_eq_true, beq_iff_eq] at hleased
    have hlease := (hheld y hy hid).lease hleased.1.1
    exact Option.some.inj (hleased.1.2.symm.trans hlease.1)

end Claims

end AgentsServer.PeerStore

import AgentsServer.PeerStore.Authentication

/-!
# Decided pairings

A pairing request is decided once. A submission that carries its request id finds the decided row
for as long as the row is there. Rejected, cancelled and expired rows go in a later submission of
another request, a week after they were decided or behind 512 that were decided no earlier; an
approved row stays.
-/

namespace AgentsServer.PeerStore

open Library Library.Runs

/-! ## Operations -/

/-- `_poll_token` under the key of the host, and `_poll_hash` where the token is well formed. -/
class PollTokens where
  pollToken : String → Bytes → String
  pollHash : String → Option Bytes

namespace Db

variable (db : Db)

/-- `_authenticated_pairing`. It reads the clock by itself. -/
def authenticatedPairing [PollTokens] (pairingId pollToken : String) (checked : Nat) :
    Except Failure (PairingRequest × Db) := do
  require (isUuid4 pairingId) pairingUnavailable
  let digest ← required (PollTokens.pollHash pollToken) pairingUnavailable
  let row ← required (Tables.find PairingRequest.id db.pairings pairingId) pairingUnavailable
  require (PollTokens.pollHash (PollTokens.pollToken row.id row.requestDigest) = some digest)
    pairingUnavailable
  let db := db.expirePairings (fun q => q.id = pairingId) checked
  let row ← required (Tables.find PairingRequest.id db.pairings pairingId) .valueError
  pure (row, db)

/-- `UPDATE pairing_requests SET status=? WHERE id=? AND status='pending'`. -/
def decidePairing (pairingId : String) (status : PairingStatus) (now : Nat) : Db :=
  { db with pairings := db.pairings.map fun q =>
      if q.id = pairingId && q.status == .pending
      then { q with status := status, decidedAt := some now } else q }

def cancelPairing [Sha256] [PollTokens] (pairingId pollToken idempotencyKey : String)
    (now checked : Nat) : Except Failure (Json × Db) := do
  let request : Json := .obj [("pairing_id", .str pairingId), ("action", .str "cancel")]
  let (row, db) ← db.authenticatedPairing pairingId pollToken checked
  let (digest, cached) ← db.operation ("pairing-cancel:" ++ pairingId) idempotencyKey request
  match cached with
  | some response => pure (response, db)
  | none => do
      require (row.status = .pending) pairingNotPending
      let response : Json := .obj [("pairing_id", .str pairingId), ("status", .str "cancelled")]
      let db ← (db.decidePairing pairingId .cancelled now).recordOperation
        ("pairing-cancel:" ++ pairingId) idempotencyKey digest response now
      pure (response, db.audit now)

/-- `reject_pairing`. A request that has expired is marked as such although the call fails. -/
def rejectPairing [Sha256] (pairingId rejectedBy reason : String)
    (expectedIdentity expectedTranscriptHash idempotencyKey : String) (now : Nat) :
    Db × Except Failure Json :=
  let request : Json := .obj [("pairing_id", .str pairingId), ("rejected_by", .str rejectedBy),
    ("reason", .str reason), ("expected_peer_server_identity", .str expectedIdentity),
    ("expected_transcript_hash", .str expectedTranscriptHash)]
  let found : Except Failure (Bytes × (Json ⊕ PairingRequest)) := do
    let _ ← uuid pairingId "pairing_id"
    let _ ← identifier rejectedBy "rejected_by"
    let _ ← identifier expectedIdentity "expected peer identity"
    require (isSha256Hex expectedTranscriptHash)
      (invalidRequest "expected transcript hash is invalid")
    let _ ← boundedText reason "reason" 1 160
    let (digest, cached) ← db.operation "pairing-reject" idempotencyKey request
    match cached with
    | some response => pure (digest, .inl response)
    | none => do
        let row ← required (Tables.find PairingRequest.id db.pairings pairingId) pairingUnavailable
        pure (digest, .inr row)
  match found with
  | .error e => (db, .error e)
  | .ok (_, .inl response) => (db, .ok response)
  | .ok (digest, .inr row) =>
      if row.isDue now then
        -- the expiry commits, and the call fails
        (db.expirePairings (fun q => q.id = pairingId) now, .error pairingNotPending)
      else atomically db do
        require (row.status = .pending) pairingNotPending
        require (row.peerServerIdentity = expectedIdentity ∧
            row.transcriptHash = expectedTranscriptHash)
          (.securePeerError "pairing_changed" "Pairing identity confirmation failed" 409)
        let response : Json := .obj [("pairing_id", .str pairingId), ("status", .str "rejected")]
        let db ← (db.decidePairing pairingId .rejected now).recordOperation "pairing-reject"
          idempotencyKey digest response now
        pure (response, db.audit now)

end Db

/-- What is done to the pairings. `other` is what the remaining operations of the store leave in the
other tables. -/
inductive PairingCall where
  | submit (request : NormalizedPairing) (pairingId : String) (external : Nat)
      (liveBytesFull : Bool) (now : Nat)
  | approve (pairingId teamId : String) (scopes : List String)
      (approvedBy expectedIdentity expectedTranscriptHash idempotencyKey : String)
      (available : Bool) (draw : Db.ApprovalDraw) (now : Nat)
  | reject (pairingId rejectedBy reason expectedIdentity expectedTranscriptHash : String)
      (idempotencyKey : String) (now : Nat)
  | cancel (pairingId pollToken idempotencyKey : String) (now checked : Nat)
  | poll (pairingId pollToken : String) (now : Nat)
  | list (now : Nat)
  | other (left : Db)

section Machine

variable [Sha256] [CertificateEncoding] [PollTokens]

def pairingStep (db : Db) : PairingCall → Db × Except Failure Unit
  | .submit request pairingId external full now =>
      atomically db ((db.submitPairing request pairingId external full now).map fun r => ((), r.2))
  | .approve pairingId teamId scopes approvedBy identity transcript key available draw now =>
      let result := db.approvePairing pairingId teamId scopes approvedBy identity transcript key
        available draw now
      (result.1, result.2.map fun _ => ())
  | .reject pairingId rejectedBy reason identity transcript key now =>
      let result := db.rejectPairing pairingId rejectedBy reason identity transcript key now
      (result.1, result.2.map fun _ => ())
  | .cancel pairingId token key now checked =>
      atomically db ((db.cancelPairing pairingId token key now checked).map fun r => ((), r.2))
  | .poll pairingId token now =>
      atomically db ((db.authenticatedPairing pairingId token now).map fun r => ((), r.2))
  | .list now => (db.expirePairings (fun _ => true) now, .ok ())
  | .other left => ({ left with pairings := db.pairings }, .ok ())

end Machine

/-! ## What a call does to the rows -/

/-- A row stays as it is, or a pending row is decided. -/
def Settles (q q' : PairingRequest) : Prop :=
  q' = q ∨ q.status = .pending ∧ q'.status ≠ .pending ∧ q'.id = q.id ∧ q'.requestId = q.requestId

/-- Rows that are updated, none of them back to pending. -/
def Settled (rows rows' : List PairingRequest) : Prop :=
  ∃ f : PairingRequest → PairingRequest, rows' = rows.map f ∧ ∀ q, Settles q (f q)

variable {db db' : Db} {now : Nat} {q : PairingRequest} {rows rows' : List PairingRequest}

theorem Settles.id (h : Settles q q') : q'.id = q.id := by
  rcases h with rfl | ⟨-, -, hid, -⟩
  · rfl
  · exact hid

theorem Settles.requestId (h : Settles q q') : q'.requestId = q.requestId := by
  rcases h with rfl | ⟨-, -, -, hid⟩
  · rfl
  · exact hid

/-- What is decided stays as it was decided. -/
theorem Settles.decided (h : Settles q q') (hq : q.status ≠ .pending) : q' = q := by
  rcases h with rfl | ⟨hpending, -⟩
  · rfl
  · exact absurd hpending hq

theorem Settled.refl (rows : List PairingRequest) : Settled rows rows :=
  ⟨fun q => q, (List.map_id rows).symm, fun _ => .inl rfl⟩

theorem Settled.trans {mid : List PairingRequest} (h : Settled rows mid) (h' : Settled mid rows') :
    Settled rows rows' := by
  obtain ⟨f, rfl, hf⟩ := h
  obtain ⟨g, rfl, hg⟩ := h'
  refine ⟨fun q => g (f q), List.map_map, ?_⟩
  intro q
  change Settles q (g (f q))
  by_cases hq : (f q).status = .pending
  · have hkept : f q = q := by
      rcases hf q with hsame | ⟨-, hdecided, -⟩
      · exact hsame
      · exact absurd hq hdecided
    simpa only [hkept] using hg (f q)
  · rw [(hg (f q)).decided hq]
    exact hf q

theorem settled_expire (db : Db) (which : PairingRequest → Bool) (now : Nat) :
    Settled db.pairings (db.expirePairings which now).pairings := by
  refine ⟨fun q => if which q && q.isDue now
    then { q with status := .expired, decidedAt := some now } else q, rfl, ?_⟩
  intro q
  change Settles q (if which q && q.isDue now then _ else q)
  split
  · next h =>
      rw [Bool.and_eq_true, PairingRequest.isDue, Bool.and_eq_true, Bool.and_eq_true] at h
      exact .inr ⟨beq_iff_eq.mp h.2.1.1, PairingStatus.noConfusion, rfl, rfl⟩
  · exact .inl rfl

theorem settled_decide (db : Db) (pairingId : String) {status : PairingStatus} (now : Nat)
    (hstatus : status ≠ .pending) :
    Settled db.pairings (db.decidePairing pairingId status now).pairings := by
  refine ⟨fun q => if q.id = pairingId && q.status == .pending
    then { q with status := status, decidedAt := some now } else q, rfl, ?_⟩
  intro q
  change Settles q (if q.id = pairingId && q.status == .pending then _ else q)
  split
  · next h =>
      rw [Bool.and_eq_true] at h
      exact .inr ⟨beq_iff_eq.mp h.2, hstatus, rfl, rfl⟩
  · exact .inl rfl

theorem recordOperation_pairings {realm operationId : String} {digest : Bytes} {response : Json}
    (h : db.recordOperation realm operationId digest response now = .ok db') :
    db'.pairings = db.pairings := by
  unfold Db.recordOperation at h
  simp only [bind_eq_ok, required_eq_ok, pure_eq_ok] at h
  obtain ⟨records, -, rfl⟩ := h
  rfl

theorem authenticatedPairing_settled [PollTokens] {pairingId pollToken : String} {checked : Nat}
    {row : PairingRequest}
    (h : db.authenticatedPairing pairingId pollToken checked = .ok (row, db')) :
    Settled db.pairings db'.pairings := by
  unfold Db.authenticatedPairing at h
  simp only [bind_eq_ok, require_eq_ok, required_eq_ok, pure_eq_ok, Prod.mk.injEq] at h
  obtain ⟨_, -, _, -, _, -, _, -, _, -, -, rfl⟩ := h
  exact settled_expire db _ checked

theorem cancelPairing_settled [Sha256] [PollTokens] {pairingId pollToken key : String}
    {checked : Nat} {response : Json}
    (h : db.cancelPairing pairingId pollToken key now checked = .ok (response, db')) :
    Settled db.pairings db'.pairings := by
  unfold Db.cancelPairing at h
  obtain ⟨⟨row, mid⟩, hauthentic, h⟩ := (bind_eq_ok _ _ _).mp h
  obtain ⟨⟨digest, cached⟩, -, h⟩ := (bind_eq_ok _ _ _).mp h
  have hexpired := authenticatedPairing_settled hauthentic
  cases cached with
  | some answer =>
      cases h
      exact hexpired
  | none =>
      simp only [bind_eq_ok, require_eq_ok, pure_eq_ok, Prod.mk.injEq] at h
      obtain ⟨_, -, last, hrecord, -, rfl⟩ := h
      change Settled db.pairings last.pairings
      rw [recordOperation_pairings hrecord]
      exact hexpired.trans (settled_decide mid pairingId now (by decide))

theorem rejectPairing_settled [Sha256] (db : Db) (pairingId rejectedBy reason : String)
    (identity transcript key : String) (now : Nat) :
    Settled db.pairings
      (db.rejectPairing pairingId rejectedBy reason identity transcript key now).1.pairings := by
  unfold Db.rejectPairing
  dsimp only
  split
  · exact .refl _
  · exact .refl _
  · split
    · exact settled_expire db _ now
    · apply atomically_keep (P := fun after : Db => Settled db.pairings after.pairings) (.refl _)
      intro response after h
      simp only [bind_eq_ok, require_eq_ok, pure_eq_ok, Prod.mk.injEq] at h
      obtain ⟨_, -, _, -, last, hrecord, -, rfl⟩ := h
      change Settled db.pairings last.pairings
      rw [recordOperation_pairings hrecord]
      exact settled_decide db pairingId now (by decide)

theorem supersede_pairings (peerIds : List String) (now : Nat) (actor : String)
    (revision : String → String) (db : Db) :
    (db.supersede peerIds now actor revision).pairings = db.pairings := by
  unfold Db.supersede
  induction peerIds generalizing db with
  | nil => rfl
  | cons peerId rest ih =>
      rw [List.foldl_cons, ih]
      cases hrevoke : db.revokePeerInTransaction peerId now actor (revision peerId) with
      | none => rfl
      | some mid =>
          unfold Db.revokePeerInTransaction at hrevoke
          split at hrevoke
          · cases hrevoke
            rfl
          · cases hrevoke

theorem admitPeer_settled [CertificateEncoding] {row : PairingRequest} {teamId : String}
    {scopes : List Scope} {actor : String} {grantEpoch : Option Nat} {draw : Db.ApprovalDraw}
    {response : Json}
    (h : db.admitPeer row teamId scopes actor grantEpoch draw now = .ok (response, db')) :
    Settled db.pairings db'.pairings := by
  unfold Db.admitPeer at h
  simp only [bind_eq_ok, pure_eq_ok, Prod.mk.injEq] at h
  obtain ⟨mid, hpeer, last, hcertificate, -, rfl⟩ := h
  obtain ⟨rfl, -⟩ := Db.insertPeer_eq hpeer
  obtain ⟨rfl, -⟩ := Db.insertCertificate_eq hcertificate
  have h : Settled db.pairings (db.decidePairing row.id .approved now).pairings :=
    settled_decide db row.id now PairingStatus.noConfusion
  unfold Db.decidePairing at h
  simpa only [supersede_pairings] using h

theorem approvePairing_settled [Sha256] [CertificateEncoding] (db : Db) (pairingId teamId : String)
    (scopes : List String) (approvedBy identity transcript key : String) (available : Bool)
    (draw : Db.ApprovalDraw) (now : Nat) :
    Settled db.pairings (db.approvePairing pairingId teamId scopes approvedBy identity transcript
      key available draw now).1.pairings := by
  unfold Db.approvePairing
  dsimp only
  split
  · exact .refl _
  · split
    · exact .refl _
    · exact .refl _
    · split
      · exact settled_expire db _ now
      · apply atomically_keep (P := fun after : Db => Settled db.pairings after.pairings) (.refl _)
        intro response after h
        simp only [bind_eq_ok, require_eq_ok, pure_eq_ok, Prod.exists, Prod.mk.injEq] at h
        obtain ⟨_, -, _, -, _, -, _, admitted, hadmit, last, hrecord, -, rfl⟩ := h
        change Settled db.pairings last.pairings
        rw [recordOperation_pairings hrecord]
        exact admitPeer_settled hadmit

/-! ## What a submission does to the rows -/

/-- When a row was decided, which orders the rows that are deleted. -/
def decidedTime (q : PairingRequest) : Nat := q.decidedAt.getD q.expiresAt

/-- Why a submission at a time deletes a row: it is a week old, or there are as many decided no
earlier as are retained. -/
def Outdated (rows : List PairingRequest) (now : Nat) (q : PairingRequest) : Prop :=
  q.isTerminal = true ∧ (decidedTime q + 7 * 24 * 60 * 60 < now ∨
    pairingTerminalRetainedLimit ≤ rows.countP fun p =>
      p.isTerminal && decide (p.id ≠ q.id) && decide (decidedTime q ≤ decidedTime p))

/-- The order of the deletion. -/
def decidedBefore (a b : PairingRequest) : Bool :=
  decide (decidedTime a < decidedTime b) || (decide (decidedTime a = decidedTime b) &&
    (decide (a.createdAt < b.createdAt) || (decide (a.createdAt = b.createdAt) &&
      decide (a.id ≤ b.id))))

theorem decidedBefore_trans (a b c : PairingRequest) (hab : decidedBefore a b = true)
    (hbc : decidedBefore b c = true) : decidedBefore a c = true := by
  simp only [decidedBefore, Bool.or_eq_true, Bool.and_eq_true, decide_eq_true_eq] at hab hbc ⊢
  grind

theorem decidedBefore_total (a b : PairingRequest) :
    (decidedBefore a b || decidedBefore b a) = true := by
  simp only [decidedBefore, Bool.or_eq_true, Bool.and_eq_true, decide_eq_true_eq]
  grind

theorem decidedBefore_time {a b : PairingRequest} (h : decidedBefore a b = true) :
    decidedTime a ≤ decidedTime b := by
  simp only [decidedBefore, Bool.or_eq_true, Bool.and_eq_true, decide_eq_true_eq] at h
  omega

/-- The rows that are taken from the front of the sorted ones have the rest behind them. -/
theorem outdated_of_taken {rows terminal : List PairingRequest}
    (hsorted : terminal.Pairwise fun a b => decidedBefore a b = true)
    (unique : (terminal.map PairingRequest.id).Nodup)
    (hcount : ∀ p : PairingRequest → Bool, terminal.countP p ≤ rows.countP p)
    (hterminal : ∀ p ∈ terminal, p.isTerminal = true)
    (h : q ∈ terminal.take (terminal.length - pairingTerminalRetainedLimit)) :
    pairingTerminalRetainedLimit ≤ rows.countP fun p =>
      p.isTerminal && decide (p.id ≠ q.id) && decide (decidedTime q ≤ decidedTime p) := by
  generalize hcut : terminal.length - pairingTerminalRetainedLimit = cut at h
  have hlength : (terminal.drop cut).length = pairingTerminalRetainedLimit := by
    have hpos := List.length_pos_of_mem h
    rw [List.length_take] at hpos
    rw [List.length_drop]
    omega
  have hbehind : ∀ p ∈ terminal.drop cut,
      (p.isTerminal && decide (p.id ≠ q.id) && decide (decidedTime q ≤ decidedTime p)) = true := by
    intro p hp
    rw [← List.take_append_drop cut terminal] at hsorted unique
    rw [List.map_append] at unique
    have hnames := (List.nodup_append.mp unique).2.2 q.id (List.mem_map_of_mem h) p.id
      (List.mem_map_of_mem hp)
    have htimes := decidedBefore_time ((List.pairwise_append.mp hsorted).2.2 q h p hp)
    simp [hterminal p (List.mem_of_mem_drop hp), hnames.symm, htimes]
  calc pairingTerminalRetainedLimit
      = (terminal.drop cut).countP _ := by rw [List.countP_eq_length.mpr hbehind, hlength]
    _ ≤ terminal.countP _ := (List.drop_sublist cut terminal).countP_le
    _ ≤ rows.countP _ := hcount _

theorem prunePairings_sublist (db : Db) (now : Nat) :
    (db.prunePairings now).pairings.Sublist db.pairings := by
  unfold Db.prunePairings
  exact List.filter_sublist.trans List.filter_sublist

/-- The rows that are not a week old since their decision. -/
def recentRows (db : Db) (now : Nat) : List PairingRequest :=
  db.pairings.filter fun q => !(q.isTerminal && decide (decidedTime q + 7 * 24 * 60 * 60 < now))

/-- The decided ones among them, in the order of their deletion. -/
def recentTerminal (db : Db) (now : Nat) : List PairingRequest :=
  ((recentRows db now).filter PairingRequest.isTerminal).mergeSort decidedBefore

theorem prunePairings_rows (db : Db) (now : Nat) :
    (db.prunePairings now).pairings = (recentRows db now).filter fun q =>
      !(((recentTerminal db now).take ((recentTerminal db now).length -
        pairingTerminalRetainedLimit)).map PairingRequest.id).contains q.id := by
  unfold Db.prunePairings recentTerminal recentRows decidedBefore decidedTime
  rfl

theorem recentTerminal_perm (db : Db) (now : Nat) :
    (recentTerminal db now).Perm ((recentRows db now).filter PairingRequest.isTerminal) :=
  List.mergeSort_perm _ _

theorem recentTerminal_rows (db : Db) (now : Nat) :
    ((recentRows db now).filter PairingRequest.isTerminal).Sublist db.pairings :=
  List.filter_sublist.trans List.filter_sublist

theorem mem_recentTerminal (h : q ∈ recentTerminal db now) :
    q ∈ db.pairings ∧ q.isTerminal = true := by
  have h := (recentTerminal_perm db now).mem_iff.mp h
  exact ⟨(recentTerminal_rows db now).subset h, (List.mem_filter.mp h).2⟩

/-- What the deletion does not keep was outdated. -/
theorem prunePairings_outdated (unique : (db.pairings.map PairingRequest.id).Nodup)
    (h : q ∈ db.pairings) (hgone : q ∉ (db.prunePairings now).pairings) :
    Outdated db.pairings now q := by
  rw [prunePairings_rows, List.mem_filter] at hgone
  by_cases hrecent : q ∈ recentRows db now
  · -- a row that was taken under this id is this row
    have htaken : q ∈ (recentTerminal db now).take
        ((recentTerminal db now).length - pairingTerminalRetainedLimit) := by
      by_contra hnot
      apply hgone
      refine ⟨hrecent, ?_⟩
      rw [Bool.not_eq_true', List.contains_eq_mem, decide_eq_false_iff_not]
      intro hname
      obtain ⟨p, hp, hsame⟩ := List.mem_map.mp hname
      have hpq := Tables.eq_of_key unique (mem_recentTerminal (List.mem_of_mem_take hp)).1 h hsame
      exact hnot (hpq ▸ hp)
    refine ⟨(mem_recentTerminal (List.mem_of_mem_take htaken)).2, .inr ?_⟩
    have hperm := recentTerminal_perm db now
    have hsorted : (recentTerminal db now).Pairwise fun a b => decidedBefore a b = true :=
      List.pairwise_mergeSort decidedBefore_trans decidedBefore_total _
    refine outdated_of_taken hsorted ?_ ?_ (fun p hp => (mem_recentTerminal hp).2) htaken
    · exact (hperm.map _).nodup_iff.mpr (unique.sublist ((recentTerminal_rows db now).map _))
    · intro p
      rw [hperm.countP_eq]
      exact (recentTerminal_rows db now).countP_le
  · unfold recentRows at hrecent
    rw [List.mem_filter, not_and] at hrecent
    have hold := hrecent h
    simp only [Bool.not_eq_true', Bool.not_eq_false, Bool.and_eq_true, decide_eq_true_eq] at hold
    exact ⟨hold.1, .inl hold.2⟩

/-- A new row of a submission. -/
structure Admits (db : Db) (request : NormalizedPairing) (now : Nat) (row : PairingRequest) :
    Prop where
  requestId : row.requestId = request.requestId
  unused : ∀ q ∈ db.pairings, q.requestId ≠ request.requestId
  notLate : now ≤ request.createdAt + pairingClockSkewSeconds
  notEarly : request.createdAt ≤ now + pairingClockSkewSeconds

/-- A submission updates the row of its request, or deletes outdated rows and adds a new one. -/
theorem submitPairing_rows {request : NormalizedPairing} {pairingId : String} {external : Nat}
    {full : Bool} {answer : PairingRequest}
    (h : db.submitPairing request pairingId external full now = .ok (answer, db')) :
    Settled db.pairings db'.pairings ∨ ∃ row, Admits db request now row ∧
      (∀ q ∈ ((db.expirePairings (fun _ => true) now).prunePairings now).pairings, q.id ≠ row.id) ∧
      db'.pairings =
        ((db.expirePairings (fun _ => true) now).prunePairings now).pairings ++ [row] := by
  unfold Db.submitPairing at h
  dsimp only at h
  split at h
  · next existing _ =>
      simp only [bind_eq_ok, require_eq_ok, required_eq_ok, pure_eq_ok, Prod.mk.injEq] at h
      obtain ⟨_, -, _, -, -, rfl⟩ := h
      exact .inl (settled_expire db _ now)
  · next hnone =>
      simp only [bind_eq_ok, require_eq_ok, required_eq_ok, pure_eq_ok, Prod.mk.injEq,
        Tables.insertRow_eq_some] at h
      obtain ⟨_, ⟨hlate, hearly⟩, _, -, _, -, rows, ⟨⟨-, hfresh⟩, rfl⟩, -, rfl⟩ := h
      refine .inr ⟨_, ?_, ?_, rfl⟩
      · refine ⟨rfl, ?_, hlate, hearly⟩
        intro q hq hsame
        have hno := List.find?_eq_none.mp hnone q hq
        exact hno (decide_eq_true hsame)
      · exact hfresh

/-! ## Runs -/

/-- No two rows share an id or a request id. -/
structure Distinct (rows : List PairingRequest) : Prop where
  ids : (rows.map PairingRequest.id).Nodup
  requestIds : (rows.map PairingRequest.requestId).Nodup

theorem Distinct.settled (h : Distinct rows) (hrows : Settled rows rows') : Distinct rows' := by
  obtain ⟨f, rfl, hf⟩ := hrows
  exact ⟨Tables.nodup_map h.ids fun q => (hf q).id,
    Tables.nodup_map h.requestIds fun q => (hf q).requestId⟩

theorem Distinct.sublist (h : Distinct rows) (hrows : rows'.Sublist rows) : Distinct rows' :=
  ⟨h.ids.sublist (hrows.map _), h.requestIds.sublist (hrows.map _)⟩

theorem Distinct.append {row : PairingRequest} (h : Distinct rows)
    (hid : ∀ q ∈ rows, q.id ≠ row.id) (hrequest : ∀ q ∈ rows, q.requestId ≠ row.requestId) :
    Distinct (rows ++ [row]) := by
  constructor
  · rw [List.map_append, List.nodup_append]
    refine ⟨h.ids, List.nodup_singleton _, ?_⟩
    rintro _ hq _ hrow rfl
    obtain ⟨q, hq, hsame⟩ := List.mem_map.mp hq
    rw [List.mem_singleton.mp hrow] at hsame
    exact hid q hq hsame
  · rw [List.map_append, List.nodup_append]
    refine ⟨h.requestIds, List.nodup_singleton _, ?_⟩
    rintro _ hq _ hrow rfl
    obtain ⟨q, hq, hsame⟩ := List.mem_map.mp hq
    rw [List.mem_singleton.mp hrow] at hsame
    exact hrequest q hq hsame

theorem Settled.mem (h : Settled rows rows') (hq : q ∈ rows) (hdecided : q.status ≠ .pending) :
    q ∈ rows' := by
  obtain ⟨f, rfl, hf⟩ := h
  rw [List.mem_map]
  exact ⟨q, hq, (hf q).decided hdecided⟩

/-- A pending row of updated rows was pending before. -/
theorem Settled.mem_pending (h : Settled rows rows') (hq : q ∈ rows')
    (hpending : q.status = .pending) : q ∈ rows := by
  obtain ⟨f, rfl, hf⟩ := h
  obtain ⟨p, hp, rfl⟩ := List.mem_map.mp hq
  rcases hf p with hsame | ⟨-, hdecided, -⟩
  · rw [hsame]
    exact hp
  · exact absurd hpending hdecided

theorem Settled.unused {requestId : String} (h : Settled rows rows')
    (hunused : ∀ q ∈ rows, q.requestId ≠ requestId) : ∀ q ∈ rows', q.requestId ≠ requestId := by
  obtain ⟨f, rfl, hf⟩ := h
  intro q hq
  obtain ⟨p, hp, rfl⟩ := List.mem_map.mp hq
  rw [(hf p).requestId]
  exact hunused p hp

section Runs

variable [Sha256] [CertificateEncoding] [PollTokens]

/-- A submission of another request deletes a row. -/
def Deletes (e : Event Db PairingCall (Except Failure Unit)) (q : PairingRequest) : Prop :=
  ∃ request pairingId external full now, e.action = .submit request pairingId external full now ∧
    request.requestId ≠ q.requestId ∧
    Outdated (e.before.expirePairings (fun _ => true) now).pairings now q

/-- A call updates rows, or is a submission that adds one. -/
theorem pairingStep_rows (db : Db) (call : PairingCall) :
    Settled db.pairings (pairingStep db call).1.pairings ∨
      ∃ request pairingId external full now row,
        call = .submit request pairingId external full now ∧ Admits db request now row ∧
        (∀ q ∈ ((db.expirePairings (fun _ => true) now).prunePairings now).pairings,
          q.id ≠ row.id) ∧
        (pairingStep db call).1.pairings =
          ((db.expirePairings (fun _ => true) now).prunePairings now).pairings ++ [row] := by
  cases call with
  | submit request pairingId external full now =>
      cases hsubmit : db.submitPairing request pairingId external full now with
      | error e =>
          left
          simp only [pairingStep, hsubmit, Except.map, atomically_error]
          exact .refl _
      | ok answered =>
          simp only [pairingStep, hsubmit, Except.map, atomically_ok]
          rcases submitPairing_rows hsubmit with hsettled | ⟨row, hadmits, hfresh, hrows⟩
          · exact .inl hsettled
          · exact .inr ⟨request, pairingId, external, full, now, row, rfl, hadmits, hfresh, hrows⟩
  | approve pairingId teamId scopes approvedBy identity transcript key available draw now =>
      exact .inl (approvePairing_settled db pairingId teamId scopes approvedBy identity transcript
        key available draw now)
  | reject pairingId rejectedBy reason identity transcript key now =>
      exact .inl (rejectPairing_settled db pairingId rejectedBy reason identity transcript key now)
  | cancel pairingId token key now checked =>
      left
      apply atomically_keep (P := fun after : Db => Settled db.pairings after.pairings) (.refl _)
      intro _ after h
      obtain ⟨⟨response, last⟩, hcancel, h⟩ := map_eq_ok.mp h
      cases h
      exact cancelPairing_settled hcancel
  | poll pairingId token now =>
      left
      apply atomically_keep (P := fun after : Db => Settled db.pairings after.pairings) (.refl _)
      intro _ after h
      obtain ⟨⟨row, last⟩, hpoll, h⟩ := map_eq_ok.mp h
      cases h
      exact authenticatedPairing_settled hpoll
  | list now => exact .inl (settled_expire db _ now)
  | other left => exact .inl (.refl _)

theorem pairingStep_distinct (db : Db) (call : PairingCall) (h : Distinct db.pairings) :
    Distinct (pairingStep db call).1.pairings := by
  rcases pairingStep_rows db call with
    hsettled | ⟨request, pairingId, external, full, now, row, rfl, hadmits, hfresh, hrows⟩
  · exact h.settled hsettled
  · rw [hrows]
    have hexpired := settled_expire db (fun _ => true) now
    have hsub := prunePairings_sublist (db.expirePairings (fun _ => true) now) now
    refine ((h.settled hexpired).sublist hsub).append hfresh ?_
    intro q hq
    rw [hadmits.requestId]
    exact hexpired.unused hadmits.unused q (hsub.subset hq)

/-- A decided row stays through a call that does not delete it. -/
theorem pairingStep_keeps (h : Distinct db.pairings) (hq : q ∈ db.pairings)
    (hdecided : q.status ≠ .pending) (call : PairingCall)
    (hkept : ¬ Deletes ⟨db, call, (pairingStep db call).2⟩ q) :
    q ∈ (pairingStep db call).1.pairings := by
  rcases pairingStep_rows db call with
    hsettled | ⟨request, pairingId, external, full, now, row, rfl, hadmits, hfresh, hrows⟩
  · exact hsettled.mem hq hdecided
  · rw [hrows, List.mem_append]
    left
    by_contra hgone
    have hexpired := settled_expire db (fun _ => true) now
    have houtdated := prunePairings_outdated (h.settled hexpired).ids (hexpired.mem hq hdecided)
      hgone
    have hother := (hadmits.unused q hq).symm
    exact hkept ⟨request, pairingId, external, full, now, rfl, hother, houtdated⟩

/-- A row that becomes pending is new: no row had its request id, and its submission was created
within five minutes of the clock. -/
theorem pairingStep_pending (db : Db) (call : PairingCall)
    (hq : q ∈ (pairingStep db call).1.pairings) (hpending : q.status = .pending)
    (hnew : q ∉ db.pairings) :
    ∃ request pairingId external full now, call = .submit request pairingId external full now ∧
      Admits db request now q := by
  rcases pairingStep_rows db call with
    hsettled | ⟨request, pairingId, external, full, now, row, rfl, hadmits, hfresh, hrows⟩
  · exact absurd (hsettled.mem_pending hq hpending) hnew
  · rw [hrows, List.mem_append, List.mem_singleton] at hq
    rcases hq with hold | rfl
    · have hold := (prunePairings_sublist _ now).subset hold
      exact absurd ((settled_expire db _ now).mem_pending hold hpending) hnew
    · exact ⟨request, pairingId, external, full, now, rfl, hadmits⟩

/-- In every run, a decided request stays as it was decided, the only one under its request id,
until a later submission of another request finds it outdated; an approved request always stays.
Nothing but a new submission, created within five minutes of the clock and under a request id that
no row has, makes a row pending. -/
theorem decided_pairing_stays (epoch : Nat) (before after : List PairingCall)
    (hq : q ∈ (run pairingStep (Db.new epoch) before).pairings) (hdecided : q.status ≠ .pending)
    (hkept : q.status = .approved ∨
      ∀ e ∈ history pairingStep (run pairingStep (Db.new epoch) before) after, ¬ Deletes e q) :
    let left := run pairingStep (Db.new epoch) (before ++ after)
    q ∈ left.pairings ∧ (∀ q' ∈ left.pairings, q'.requestId = q.requestId → q' = q) ∧
      ∀ call, ∀ q' ∈ (pairingStep left call).1.pairings, q'.status = .pending →
        q' ∉ left.pairings → q'.requestId ≠ q.requestId ∧
          ∃ request pairingId external full now,
            call = .submit request pairingId external full now ∧ Admits left request now q' := by
  intro left
  have hdistinct : ∀ calls, Distinct (run pairingStep (Db.new epoch) calls).pairings := by
    refine run_invariant _ (I := fun db : Db => Distinct db.pairings) pairingStep_distinct _ ?_
    exact ⟨List.nodup_nil, List.nodup_nil⟩
  have hguard : ∀ e ∈ history pairingStep (run pairingStep (Db.new epoch) before) after,
      ¬ Deletes e q := by
    rcases hkept with happroved | hkept
    · rintro e - ⟨request, pairingId, external, full, now, -, -, hterminal, -⟩
      rw [PairingRequest.isTerminal, happroved] at hterminal
      exact absurd hterminal (by decide)
    · exact hkept
  have hleft : left = run pairingStep (run pairingStep (Db.new epoch) before) after :=
    run_append _ _ _ _
  have hrow : Distinct left.pairings ∧ q ∈ left.pairings := by
    rw [hleft]
    refine run_guarded _ (I := fun db : Db => Distinct db.pairings ∧ q ∈ db.pairings)
      (G := fun e => ¬ Deletes e q) ?_ _ ⟨hdistinct before, hq⟩ after hguard
    rintro db call ⟨hdb, hmem⟩ hkeeps
    exact ⟨pairingStep_distinct db call hdb, pairingStep_keeps hdb hmem hdecided call hkeeps⟩
  refine ⟨hrow.2, ?_, ?_⟩
  · intro q' hq' hsame
    exact Tables.eq_of_key hrow.1.requestIds hq' hrow.2 hsame
  · intro call q' hq' hpending hnew
    obtain ⟨request, pairingId, external, full, now, rfl, hadmits⟩ :=
      pairingStep_pending left call hq' hpending hnew
    refine ⟨?_, request, pairingId, external, full, now, rfl, hadmits⟩
    rw [hadmits.requestId]
    exact (hadmits.unused q hrow.2).symm

end Runs

/-! ## A request that is pending again -/

section Replay

@[reducible] def plainTokens : PollTokens := ⟨fun pairingId _ => pairingId, fun _ => some []⟩

attribute [local instance] zeroDigest serialFingerprint plainTokens

/-- A submission as it is created, of a request that expires. -/
def submissionOf (requestId pairingId : String) (now : Nat) : PairingCall :=
  .submit { pairingOf with requestId := requestId, createdAt := now, durable := false } pairingId 0
    false now

/-- A request expires when the next one is submitted, more than a week later. -/
def expiring : List PairingCall :=
  [submissionOf renewalUuid pairingUuid 0, submissionOf peerUuid peerUuid 700000]

/-- A week later it is deleted, and submitted again. -/
def resubmitted : List PairingCall :=
  [submissionOf pairingUuid renewalUuid 1400000, submissionOf renewalUuid pairingUuid 1400000]

/-- An approved request stays, whatever follows. -/
theorem approved_pairing_stays :
    let approved : List PairingCall := [.submit pairingOf pairingUuid 0 false 0,
      .approve pairingUuid "team-one" ["teamspace.read"] "owner-one" "server-two" transcript
        renewalUuid false ⟨peerUuid, 1, fun _ => ""⟩ 0]
    ∃ q, q.status = .approved ∧
      q ∈ (run pairingStep (Db.new 0) (approved ++ resubmitted)).pairings := by
  intro approved
  have hrow : ∃ q ∈ (run pairingStep (Db.new 0) approved).pairings, q.status = .approved := by
    decide +kernel
  obtain ⟨q, hq, happroved⟩ := hrow
  have hdecided : q.status ≠ .pending := by
    rw [happroved]
    decide
  exact ⟨q, happroved,
    (decided_pairing_stays 0 approved resubmitted hq hdecided (.inl happroved)).1⟩

/-- A request that expired is pending again once its row was deleted. -/
theorem expired_pairing_pending_again :
    ¬ ∀ (_ : Sha256) (_ : CertificateEncoding) (_ : PollTokens) (epoch : Nat)
      (before after : List PairingCall),
      ∀ q ∈ (run pairingStep (Db.new epoch) before).pairings, q.status ≠ .pending →
        ∀ q' ∈ (run pairingStep (Db.new epoch) (before ++ after)).pairings,
          q'.requestId = q.requestId → q'.status ≠ .pending := by
  intro claim
  have stays := claim zeroDigest serialFingerprint plainTokens 0 expiring resubmitted
  have hexpired : ∃ q ∈ (run pairingStep (Db.new 0) expiring).pairings,
      q.requestId = renewalUuid ∧ q.status = .expired := by
    decide +kernel
  have hpending : ∃ q ∈ (run pairingStep (Db.new 0) (expiring ++ resubmitted)).pairings,
      q.requestId = renewalUuid ∧ q.status = .pending := by
    decide +kernel
  obtain ⟨q, hq, hname, hstatus⟩ := hexpired
  obtain ⟨q', hq', hname', hstatus'⟩ := hpending
  refine stays q hq ?_ q' hq' (hname'.trans hname.symm) hstatus'
  rw [hstatus]
  decide

end Replay

end AgentsServer.PeerStore

import AgentsServer.TeamHub.AttachmentRows
import Mathlib.Data.List.Dedup

/-!
# Operations that go through

What a declaration, a reclamation and the only chunk of an upload do when no check
stops them and nothing cuts them off.
-/

namespace AgentsServer.TeamHub

open Library AttachmentStore Program

section Ends

variable {ε β : Type} {s : AttachmentStore}

theorem final_check_bind {α : Type} {x : Except ε α} {a : α} {g : α → Task ε β} (h : x = .ok a) :
    (check x >>= g).final s = (g a).final s :=
  final_look_bind h

theorem final_raised_bind {α : Type} {x : Except Failure α} {a : α} {g : α → Task ChunkError β}
    (h : x = .ok a) : (raised x >>= g).final s = (g a).final s := by
  subst h
  exact final_look_bind rfl

/-- A check of a chunk that passes. -/
theorem final_require_bind {c : Prop} [Decidable c] {e : Failure} {g : Unit → Task ChunkError β}
    (h : c) : (raised (require c e) >>= g).final s = (g ()).final s :=
  final_raised_bind ((require_eq_ok c e ()).mpr h)

theorem final_tables_bind {g : Hub → Task ε β} : (tables >>= g).final s = (g s.hub).final s :=
  final_look_bind rfl

theorem final_commit_bind {h : Hub} {g : Unit → Task ε β} :
    (commit h >>= g).final s = (g ()).final { s with hub := h } :=
  final_act_bind rfl

theorem final_unlinkStaging_bind {id : String} {g : Unit → Task ε β} :
    (unlinkStaging id >>= g).final s =
      (g ()).final { s with
        staging := Function.update s.staging id none
        trace := s.trace ++ [.unlinked .staging id] } :=
  final_act_bind rfl

theorem final_publishContent_bind {id key : String} {bytes : Bytes} {g : Unit → Task ε β} :
    (publishContent id key bytes >>= g).final s =
      (g ()).final { s with
        staging := Function.update s.staging id none
        content := Function.update s.content key (some bytes) } :=
  final_act_bind rfl

theorem answer_final (h : Hub) (teamId id : String) : (answer h teamId id).final s = s := by
  unfold answer
  cases found : required (h.attachment? teamId id) (ChunkError.raised .assertionError) with
  | ok row => exact final_check_bind rfl
  | error e => rfl

/-- Bytes that one write takes. -/
theorem writeAll_run {id : String} {data : Bytes} (h : data ≠ []) :
    (writeAll id [] [] data).run s =
      ([{ s with staging := Function.update s.staging id (some data) }], .ok data) := by
  cases data with
  | nil => exact absurd rfl h
  | cons b data => rfl

theorem final_hash_bind {bytes : Bytes} {g : Unit → Task ε β} :
    (AttachmentStore.hash bytes >>= g).final s =
      (g ()).final { s with trace := s.trace ++ [.hashed bytes] } :=
  final_act_bind rfl

end Ends

/-! ## A declaration -/

/-- A declaration of content that no ready row has. -/
theorem declare_final [Sha256] [UnicodeTables] [Conversions] {limits : AttachmentLimits} {caller : Caller} {token : TokenHex}
    {k : RequestKey} {fields : List (String × Json)} {timestamp : Nat} {s : AttachmentStore}
    {request : DeclareRequest} {role : Role} {node : Option String} {response : Json} {t : Hub}
    (checked : declareRequest limits fields = .ok request)
    (key : k = ⟨k.teamId, caller.claims.principalId, "team.attachment.declare",
      request.idempotencyKey⟩)
    (scope : caller.networkScope true = .ok role)
    (lookup : s.hub.idempotencyLookup k (request.fingerprint k.teamId) = .ok none)
    (quota : s.hub.usedBytes k.teamId timestamp + request.byteSize ≤ limits.quotaBytes)
    (sender : caller.teamSender = .ok node)
    (unique : s.hub.hasDuplicateReady k.teamId request timestamp = false)
    (insert : insertDeclared s.hub caller (declaredRow request caller token k node false timestamp)
      k (request.fingerprint k.teamId) = .ok (response, t)) :
    (declareTeamAttachment limits caller token k.teamId fields timestamp).final s =
      { s with hub := t } := by
  have fits := (require_eq_ok _
    (Failure.hubError "attachment_limit" "Team attachment storage quota exceeded" 413) ()).mpr quota
  rw [key] at lookup insert
  unfold declareTeamAttachment
  rw [final_check_bind checked, final_tables_bind, final_check_bind scope,
    final_check_bind lookup]
  dsimp only
  rw [final_check_bind fits, final_check_bind sender, openDuplicate, unique,
    if_neg Bool.false_ne_true, final_pure_bind, Option.isSome_none, final_check_bind insert,
    final_commit_bind]
  rfl

/-- The answer of a declaration. -/
def declaredAnswer (row : AttachmentRow) : Json :=
  .obj [("attachment", attachmentPublic row), ("chunk_bytes", number attachmentChunkBytes)]

/-- A row under an id and a key of its own. -/
theorem insertDeclared_ok [Sha256] {h : Hub} {caller : Caller} {row : AttachmentRow}
    {k : RequestKey} (fingerprint : Bytes) (short : row.mediaType.length ≤ 160)
    (fresh : ∀ a ∈ h.attachments, a.id ≠ row.id ∧ a.idempotencyKey ≠ row.idempotencyKey)
    (unanswered : h.request? k = none) (recorded : caller.recorded = .ok ()) :
    insertDeclared h caller row k fingerprint = .ok (declaredAnswer row,
      ({ h with attachments := h.attachments ++ [row] } : Hub).remember k fingerprint
        (declaredAnswer row)) := by
  have alone : (h.attachments.all fun a => a.id != row.id &&
      !(a.teamId == row.teamId && a.idempotencyKey == row.idempotencyKey)) = true := by
    rw [List.all_eq_true]
    intro a ha
    obtain ⟨hid, hkey⟩ := fresh a ha
    simp [hid, hkey]
  unfold insertDeclared Hub.insertAttachment
  simp only [bind_eq_ok, require_eq_ok, pure_eq_ok, Hub.idempotencyStore_eq_ok]
  exact ⟨_, ⟨(), short, (), alone, rfl⟩, _, ⟨unanswered, rfl⟩, (), recorded, rfl⟩

/-! ## The only chunk of an upload -/

/-- The chunk brings all bytes of an upload that has none, and no file is in the way. -/
structure WholeUpload (call : ChunkCall) (s : AttachmentStore) (row : AttachmentRow) : Prop where
  uploads : Uploads call s row
  owner : row.uploadedBy = call.caller.claims.principalId
  scope : ∃ role, call.caller.networkScope true = .ok role
  received : row.receivedBytes = 0
  offset : call.chunk.offset = 0
  total : call.chunk.total = row.byteSize
  length : call.chunk.data.length = row.byteSize
  sized : 1 ≤ row.byteSize ∧ row.byteSize ≤ attachmentChunkBytes
  writes : call.chunk.writes = []
  staging : s.staging row.id = none
  content : s.content row.storageKey = none

namespace WholeUpload

variable [Sha256] {call : ChunkCall} {s : AttachmentStore} {row : AttachmentRow}

theorem reconcile_run (w : WholeUpload call s row) :
    (reconcile s.hub call.caller row call.chunk.data call.timestamp).run s = ([], .ok none) := by
  have missing : (openVerifiedBlob row.storageKey row.byteSize : Task ChunkError _).run s =
      ([], .ok none) := by
    unfold openVerifiedBlob
    rw [run_look_bind (f := fun t : AttachmentStore => .ok (t.content row.storageKey)) (s := s)
      (a := none) (by rw [w.content])]
    rfl
  unfold reconcile
  rw [run_look_bind (f := fun t : AttachmentStore => .ok (t.staging row.id)) (s := s)
    (a := none) (by rw [w.staging])]
  dsimp only
  rw [bind_ok (by rw [missing]), missing, final, missing]
  rfl

omit [Sha256] in
theorem data_ne_nil (w : WholeUpload call s row) : call.chunk.data ≠ [] := by
  intro h
  have hlength := w.length
  have hsized := w.sized
  rw [h, List.length_nil] at hlength
  omega

/-- The bytes are written to the staging file, and the upload is finished. -/
theorem append_final (w : WholeUpload call s row) :
    (AttachmentStore.append s.hub call.caller row call.chunk call.timestamp).final s =
      (finish s.hub call.caller row call.chunk.data call.timestamp).final
        { s with
          staging := Function.update (Function.update s.staging row.id (some [])) row.id
            (some call.chunk.data) } := by
  have received := w.received
  have offset := w.offset
  have length := w.length
  have sized := w.sized
  have more : ¬ call.chunk.offset + (call.chunk.data.length : Int) ≤ row.receivedBytes := by omega
  have contiguous : call.chunk.offset = row.receivedBytes := by omega
  have fits : row.receivedBytes + call.chunk.data.length ≤ row.byteSize := by omega
  have last : ¬ row.receivedBytes + call.chunk.data.length < row.byteSize := by omega
  have opened : (openStaging row.id row.receivedBytes).run s =
      ([{ s with staging := Function.update s.staging row.id (some []) }], .ok []) := by
    unfold openStaging
    rw [run_look_bind (f := fun t : AttachmentStore => .ok (t.staging row.id)) (s := s)
      (a := none) (by rw [w.staging])]
    dsimp only
    rw [if_pos received]
    rfl
  unfold AttachmentStore.append
  dsimp only
  rw [if_neg more, final_require_bind contiguous, final_require_bind fits,
    final_one_bind opened, w.writes, final_one_bind (writeAll_run w.data_ne_nil), if_neg last,
    if_pos length]

/-- All checks pass, and the chunk is the last one. -/
theorem writeChunk_final (w : WholeUpload call s row) :
    (writeChunk call.caller call.teamId call.id call.chunk call.timestamp).final s =
      (AttachmentStore.append s.hub call.caller row call.chunk call.timestamp).final s := by
  have received := w.received
  have offset := w.offset
  have total := w.total
  have length := w.length
  have sized := w.sized
  obtain ⟨role, scope⟩ := w.scope
  have fits : call.chunk.data.length ≤ attachmentChunkBytes := by omega
  have range : 0 ≤ call.chunk.offset ∧ 1 ≤ call.chunk.total := by omega
  have completes : call.chunk.offset = row.receivedBytes ∧
      row.receivedBytes + call.chunk.data.length = row.byteSize := by omega
  unfold writeChunk
  rw [final_require_bind w.data_ne_nil, final_require_bind fits, final_require_bind range,
    final_tables_bind, final_raised_bind scope,
    final_raised_bind ((required_eq_ok _ _ _).mpr w.uploads.found), final_require_bind w.owner,
    if_pos w.uploads.held, final_require_bind total, w.uploads.uploading]
  dsimp only
  rw [if_pos completes, final_still_bind w.reconcile_run]

/-- Bytes with the declared digest make the upload ready. -/
theorem ready (w : WholeUpload call s row)
    (digest : Sha256.hexdigest call.chunk.data = row.storageKey)
    (created : row.createdAt ≤ call.timestamp) (recorded : call.caller.recorded = .ok ()) :
    ((writeChunk call.caller call.teamId call.id call.chunk call.timestamp).final s).hub =
      readyHub s.hub row call.timestamp := by
  have marked : s.hub.markReady call.caller row call.timestamp =
      .ok (readyHub s.hub row call.timestamp) := by
    unfold Hub.markReady
    rw [require_bind created, recorded]
    rfl
  rw [w.writeChunk_final, w.append_final, finish, final_hash_bind, if_pos digest,
    final_publishContent_bind, final_raised_bind marked, final_commit_bind, answer_final]

/-- Bytes with another digest are hashed, and the staging file is unlinked. -/
theorem mismatch (w : WholeUpload call s row)
    (digest : Sha256.hexdigest call.chunk.data ≠ row.storageKey) :
    ((writeChunk call.caller call.teamId call.id call.chunk call.timestamp).final s).trace =
      s.trace ++ [.hashed call.chunk.data] ++ [.unlinked .staging row.id] := by
  rw [w.writeChunk_final, w.append_final, finish, final_hash_bind, if_neg digest,
    final_unlinkStaging_bind]
  rfl

end WholeUpload

/-! ## A reclamation -/

section Reclaiming

variable {h : Hub} {timestamp : Nat}

theorem insertTombstone_requests (h : Hub) (kind : PathKind) (key : String) (timestamp : Nat) :
    (h.insertTombstone kind key timestamp).requests = h.requests := by
  unfold Hub.insertTombstone
  split <;> rfl

theorem reclaimRows_ok (h : Hub) (timestamp : Nat) {rows : List AttachmentRow}
    (valid : ∀ row ∈ rows, isPrefixedHex "tatt_" 32 row.id = true) :
    ∃ t, rows.foldlM (Hub.reclaimRow timestamp) h = .ok t ∧ t.requests = h.requests ∧
      t.attachments = h.attachments.filter fun a => a.id ∉ rows.map AttachmentRow.id := by
  induction rows generalizing h with
  | nil => exact ⟨h, rfl, rfl, by simp⟩
  | cons row rest ih =>
      have hvalid : validateCleanupKey .staging row.id = .ok () :=
        (require_eq_ok _ _ _).mpr (valid row List.mem_cons_self)
      obtain ⟨t, hfold, hrequests, hrows⟩ := ih { h.insertTombstone .staging row.id timestamp with
        attachments := (h.insertTombstone .staging row.id timestamp).attachments.filter
          fun a => a.id ≠ row.id } fun r hr => valid r (List.mem_cons_of_mem _ hr)
      refine ⟨t, ?_, ?_, ?_⟩
      · rw [List.foldlM_cons, Hub.reclaimRow, hvalid]
        exact hfold
      · rw [hrequests]
        exact insertTombstone_requests _ _ _ _
      · rw [hrows]
        dsimp only
        rw [insertTombstone_attachments, List.filter_filter]
        apply List.filter_congr
        intro a _
        simp only [List.map_cons, List.mem_cons, not_or, Bool.decide_and, Bool.and_comm]

theorem reclaimKeys_ok (h : Hub) (timestamp : Nat) {keys : List String}
    (valid : ∀ key ∈ keys, isStorageKey key = true) :
    ∃ t, keys.foldlM (Hub.reclaimKey timestamp) h = .ok t ∧ t.requests = h.requests ∧
      t.attachments = h.attachments := by
  induction keys generalizing h with
  | nil => exact ⟨h, rfl, rfl, rfl⟩
  | cons key rest ih =>
      have hvalid : validateCleanupKey .content key = .ok () :=
        (require_eq_ok _ _ _).mpr (valid key List.mem_cons_self)
      obtain ⟨t, hfold, hrequests, hrows⟩ := ih
        (if h.attachments.any fun a => a.storageKey = key ∧ a.state.isReady then h
          else h.insertTombstone .content key timestamp)
        fun k hk => valid k (List.mem_cons_of_mem _ hk)
      refine ⟨t, ?_, ?_, ?_⟩
      · rw [List.foldlM_cons, Hub.reclaimKey, hvalid]
        exact hfold
      · rw [hrequests]
        split
        · rfl
        · exact insertTombstone_requests _ _ _ _
      · rw [hrows]
        split
        · rfl
        · exact insertTombstone_attachments _ _ _ _

/-- A reclamation takes exactly the rows that it selects. -/
theorem purgeExpired_ok (h : Hub) (teamId : Option String) (timestamp : Nat) {limit : Int}
    (sized : 1 ≤ limit ∧ limit ≤ 4096)
    (valid : ∀ a ∈ h.attachments,
      isPrefixedHex "tatt_" 32 a.id = true ∧ isStorageKey a.storageKey = true) :
    ∃ t, h.purgeExpired teamId timestamp limit = .ok t ∧ t.requests = h.requests ∧
      t.attachments = h.attachments.filter fun a =>
        a.id ∉ (h.expiredAttachments teamId timestamp limit.toNat).map AttachmentRow.id := by
  have selected : ∀ a ∈ h.expiredAttachments teamId timestamp limit.toNat, a ∈ h.attachments := by
    intro a ha
    have hsorted := List.mem_of_mem_take ha
    exact List.mem_of_mem_filter ((List.mem_insertionSort _).mp hsorted)
  have keys : ∀ key ∈ ((h.expiredAttachments teamId timestamp limit.toNat).map
      AttachmentRow.storageKey).dedup, isStorageKey key = true := by
    intro key hkey
    obtain ⟨a, ha, rfl⟩ := List.mem_map.mp (List.mem_dedup.mp hkey)
    exact (valid a (selected a ha)).2
  obtain ⟨u, hrows, hrequests, hleft⟩ := reclaimRows_ok h timestamp
    fun a ha => (valid a (selected a ha)).1
  obtain ⟨t, hkeys, hrequests', hleft'⟩ := reclaimKeys_ok u timestamp keys
  refine ⟨t, ?_, hrequests'.trans hrequests, hleft'.trans hleft⟩
  unfold Hub.purgeExpired
  rw [require_bind sized]
  dsimp only
  rw [hrows]
  exact hkeys

end Reclaiming

/-- A reclamation, its drain and the end of the drain. -/
def reclaim (teamId : Option String) (timestamp : Nat) (limit : Int) : List HostAction :=
  .purge teamId timestamp limit :: .readCleanup ::
    (List.replicate (AttachmentHost.cleanupLimit limit) (.cleanNext .none) ++ [.settleCleanup])

section Hosts

variable [Sha256] [UnicodeTables] [Conversions] {s : AttachmentHost}

/-- A step that takes the free lease. -/
theorem step_leased {a : HostAction} (free : s.lease = .free) (read : a.timestamp ≤ s.clock)
    (leases : (a matches .declare .. | .chunk .. | .purge ..) = true) :
    (AttachmentHost.step s a).1 = s.leased a := by
  have late : ¬ s.clock < a.timestamp := by omega
  unfold AttachmentHost.step
  rw [if_neg late]
  cases a with
  | declare => rw [free]
  | chunk => rw [free]
  | purge => rw [free]
  | _ => cases leases

omit [Sha256] [UnicodeTables] [Conversions] in
/-- A tombstone of a file that is not there. -/
theorem cleanOne_blank {t : AttachmentStore} (staging : ∀ id, t.staging id = none)
    (content : ∀ key, t.content key = none) (kind : PathKind) (key : String) :
    (t.cleanOne kind key .none).2 = t := by
  unfold AttachmentStore.cleanOne
  split
  · rfl
  · split
    · rfl
    · rw [if_neg (by decide)]
      cases kind with
      | staging => simp [staging]
      | content => simp [content]

theorem drain_run (staging : ∀ id, s.store.staging id = none)
    (content : ∀ key, s.store.content key = none) (n : Nat)
    {pending completed failed : List (PathKind × String)} (enough : pending.length ≤ n)
    (lease : s.lease = .draining pending completed failed) :
    ∃ completed failed, Runs.run AttachmentHost.step s (List.replicate n (.cleanNext .none)) =
      { s with lease := .draining [] completed failed } := by
  induction n generalizing s pending completed failed with
  | zero =>
      cases pending with
      | nil => exact ⟨completed, failed, by rw [← lease]; rfl⟩
      | cons p rest => cases enough
  | succ n ih =>
      rw [List.replicate_succ, Runs.run_cons]
      cases pending with
      | nil =>
          have still : (AttachmentHost.step s (.cleanNext .none)).1 = s := by
            obtain ⟨limits, store, clock, held⟩ := s
            cases lease
            rfl
          rw [still]
          exact ih staging content (Nat.zero_le _) lease
      | cons p rest =>
          obtain ⟨kind, key⟩ := p
          have next : ∃ completed failed, (AttachmentHost.step s (.cleanNext .none)).1 =
              { s with lease := .draining rest completed failed } := by
            obtain ⟨limits, store, clock, held⟩ := s
            cases lease
            change ∃ _ _, AttachmentHost.mk limits (store.cleanOne kind key .none).2 clock _ = _
            rw [cleanOne_blank staging content]
            split
            · exact ⟨_, _, rfl⟩
            · exact ⟨_, _, rfl⟩
          obtain ⟨completed', failed', hnext⟩ := next
          rw [hnext]
          exact ih staging content (Nat.le_of_succ_le_succ enough) rfl

/-- A whole reclamation while no file is there. -/
theorem reclaim_run {teamId : Option String} {timestamp : Nat} {limit : Int} {hub : Hub}
    (free : s.lease = .free) (read : timestamp ≤ s.clock)
    (purge : s.store.hub.purgeExpired teamId timestamp limit = .ok hub)
    (staging : ∀ id, s.store.staging id = none) (content : ∀ key, s.store.content key = none) :
    ∃ cleanup, Runs.run AttachmentHost.step s (reclaim teamId timestamp limit) =
      { s with store := { s.store with hub := { hub with cleanup } } } := by
  have purged : (AttachmentHost.step s (.purge teamId timestamp limit)).1 =
      { s with
        store := { s.store with hub }
        lease := .reclaiming (AttachmentHost.cleanupLimit limit) } := by
    rw [step_leased (a := .purge teamId timestamp limit) free read rfl, AttachmentHost.leased,
      purge]
  unfold reclaim
  rw [Runs.run_cons, purged, Runs.run_cons, Runs.run_append]
  have enough : (hub.pendingCleanup (AttachmentHost.cleanupLimit limit)).length ≤
      AttachmentHost.cleanupLimit limit := by
    unfold Hub.pendingCleanup
    rw [List.length_map]
    exact List.length_take_le _ _
  obtain ⟨completed, failed, hdrained⟩ := drain_run
    (s := { s with
      store := { s.store with hub }
      lease := .draining (hub.pendingCleanup (AttachmentHost.cleanupLimit limit)) [] [] })
    staging content _ enough rfl
  refine ⟨(hub.settleCleanup completed failed).cleanup, ?_⟩
  change Runs.run _ (Runs.run _ { s with
    store := { s.store with hub }
    lease := .draining (hub.pendingCleanup (AttachmentHost.cleanupLimit limit)) [] [] } _) _ = _
  rw [hdrained]
  obtain ⟨limits, store, clock, held⟩ := s
  cases free
  rfl

end Hosts

end AgentsServer.TeamHub

import AgentsServer.TeamHub.AttachmentHost

/-!
# What attachment operations do

The stores that a declaration or a chunk may leave behind, wherever it is cut off, and
what reclamations and calls on messages do to the rows.
-/

namespace AgentsServer.TeamHub

open Library AttachmentStore Program

/-! ## Places where an operation is cut off -/

/-- Nothing but staging files and hashes since an earlier store. -/
structure Quiet (s t : AttachmentStore) : Prop where
  hub : t.hub = s.hub
  content : t.content = s.content
  trace : ∃ hashes : List Bytes, t.trace = s.trace ++ hashes.map .hashed

/-- The content of a key is this, and it was hashed to the key since an earlier store. -/
structure Verified [Sha256] (s t : AttachmentStore) (key : String) (byteSize : Nat)
    (bytes : Bytes) : Prop where
  stored : t.content key = some bytes
  size : bytes.length = byteSize
  digest : Sha256.hexdigest bytes = key
  hashed : ∃ hashes : List Bytes, t.trace = s.trace ++ hashes.map .hashed ∧ bytes ∈ hashes

theorem Quiet.refl (s : AttachmentStore) : Quiet s s :=
  ⟨rfl, rfl, [], (List.append_nil _).symm⟩

section Quiets

variable {ε : Type} {s t u : AttachmentStore} {I : AttachmentStore → Prop}

theorem Quiet.hash (q : Quiet s t) (bytes : Bytes) :
    Quiet s { t with trace := t.trace ++ [.hashed bytes] } := by
  obtain ⟨hashes, ht⟩ := q.trace
  refine ⟨q.hub, q.content, hashes ++ [bytes], ?_⟩
  rw [ht, List.append_assoc, List.map_append]
  rfl

theorem Quiet.staging (q : Quiet s t) (staging : String → Option Bytes) :
    Quiet s { t with staging } :=
  ⟨q.hub, q.content, q.trace⟩

/-- A step that is quiet wherever it is cut off. -/
theorem holds_setStaging (quiet : ∀ t, Quiet s t → I t) (q : Quiet s t) (id : String)
    (bytes : Bytes) :
    Holds I (setStaging id bytes : Task ε Unit) (fun _ t => Quiet s t) t := by
  apply Holds.act
  intro t' ht'
  cases ht'
  exact ⟨quiet _ (q.staging _), q.staging _⟩

theorem holds_hash (quiet : ∀ t, Quiet s t → I t) (q : Quiet s t) (bytes : Bytes) :
    Holds I (AttachmentStore.hash bytes : Task ε Unit)
      (fun _ u => Quiet s u ∧ u.content = t.content ∧
        ∃ hashes : List Bytes, u.trace = s.trace ++ hashes.map .hashed ∧ bytes ∈ hashes) t := by
  apply Holds.act
  intro t' ht'
  cases ht'
  refine ⟨quiet _ (q.hash bytes), q.hash bytes, rfl, ?_⟩
  obtain ⟨hashes, ht⟩ := q.trace
  refine ⟨hashes ++ [bytes], ?_, List.mem_append_right _ List.mem_cons_self⟩
  change t.trace ++ _ = _
  rw [ht, List.append_assoc, List.map_append]
  rfl

theorem holds_check {α : Type} {x : Except ε α} {Q : α → AttachmentStore → Prop}
    (h : ∀ a, x = .ok a → Q a t) : Holds I (check x) Q t := by
  apply Holds.look
  intro a ha
  exact h a ha

theorem holds_raised {α : Type} {x : Except Failure α} {Q : α → AttachmentStore → Prop}
    (h : ∀ a, x = .ok a → Q a t) : Holds I (raised x) Q t := by
  apply holds_check
  intro a ha
  cases x with
  | ok b =>
      cases ha
      exact h _ rfl
  | error e => cases ha

theorem holds_openStaging (quiet : ∀ t, Quiet s t → I t) (q : Quiet s t) (id : String)
    (received : Nat) :
    Holds I (openStaging id received) (fun _ t => Quiet s t) t := by
  unfold openStaging
  refine Holds.bind (R := fun _ u => Quiet s u) (Holds.look fun _ _ => q) ?_
  intro file t q
  cases file with
  | none =>
      dsimp only
      split
      · exact Holds.bind (holds_setStaging quiet q id _) fun _ t q => Holds.pure q
      · exact Holds.raise
  | some bytes =>
      dsimp only
      split
      · exact Holds.raise
      · split
        · exact Holds.raise
        · split
          · exact Holds.pure q
          · exact Holds.bind (holds_setStaging quiet q id _) fun _ t q => Holds.pure q

theorem holds_writeAll (quiet : ∀ t, Quiet s t → I t) (id : String) (sizes : List Nat)
    (written data : Bytes) (q : Quiet s t) :
    Holds I (writeAll id written sizes data) (fun _ t => Quiet s t) t := by
  induction sizes generalizing written data t with
  | nil =>
      cases data with
      | nil => exact Holds.pure q
      | cons b data =>
          exact Holds.bind (holds_setStaging quiet q id _) fun _ t q => Holds.pure q
  | cons n rest ih =>
      cases data with
      | nil => exact Holds.pure q
      | cons b data =>
          exact Holds.bind (holds_setStaging quiet q id _) fun _ t q => ih _ _ q

end Quiets

section Verifying

variable [Sha256] {ε : Type} {s t : AttachmentStore} {I : AttachmentStore → Prop}

/-- A blob that is opened is the content of its key, and was hashed. -/
theorem holds_openVerifiedBlob (quiet : ∀ t, Quiet s t → I t) (q : Quiet s t) (key : String)
    (byteSize : Nat) :
    Holds I (openVerifiedBlob key byteSize : Task ε (Option Bytes))
      (fun found t => Quiet s t ∧ ∀ bytes, found = some bytes →
        Verified s t key byteSize bytes) t := by
  unfold openVerifiedBlob
  refine Holds.bind (R := fun file u => Quiet s u ∧ u.content key = file)
    (Holds.look ?_) ?_
  · intro file hfile
    cases hfile
    exact ⟨q, rfl⟩
  intro file t hq
  obtain ⟨q, hfile⟩ := hq
  cases file with
  | none =>
      refine Holds.pure ⟨q, ?_⟩
      intro bytes hb
      cases hb
  | some bytes =>
      dsimp only
      split
      · next hsize =>
          refine Holds.bind (holds_hash quiet q bytes) ?_
          intro _ u hu
          obtain ⟨qu, hcontent, hhashed⟩ := hu
          refine Holds.pure ⟨qu, ?_⟩
          intro found hfound
          split at hfound
          · next hdigest =>
              cases hfound
              refine ⟨?_, hsize, hdigest, hhashed⟩
              rw [hcontent, hfile]
          · cases hfound
      · refine Holds.pure ⟨q, ?_⟩
        intro found hfound
        cases hfound

end Verifying

/-! ## A declaration -/

/-- The store after a declaration has added its row. -/
structure Declared [Sha256] (limits : AttachmentLimits) (s t : AttachmentStore) (teamId : String)
    (timestamp : Nat) (row : AttachmentRow) : Prop where
  hub : ∃ requests,
    t.hub = { s.hub with attachments := s.hub.attachments ++ [row], requests }
  content : t.content = s.content
  trace : ∃ hashes : List Bytes, t.trace = s.trace ++ hashes.map .hashed
  team : row.teamId = teamId
  unbound : row.messageId = none
  fresh : ∀ a ∈ s.hub.attachments, a.id ≠ row.id
  quota : s.hub.usedBytes teamId timestamp + row.byteSize ≤ limits.quotaBytes
  ready : row.state.isReady = true → ∃ bytes, Verified s t row.storageKey row.byteSize bytes

theorem insertAttachment_eq_ok {h t : Hub} {row : AttachmentRow}
    (hi : h.insertAttachment row = .ok t) :
    t = { h with attachments := h.attachments ++ [row] } ∧
      ∀ a ∈ h.attachments, a.id ≠ row.id := by
  unfold Hub.insertAttachment at hi
  simp only [bind_eq_ok, require_eq_ok, pure_eq_ok] at hi
  obtain ⟨_, _, _, hfresh, rfl⟩ := hi
  refine ⟨rfl, ?_⟩
  intro a ha
  have hone := List.all_eq_true.mp hfresh a ha
  simp only [Bool.and_eq_true, bne_iff_ne] at hone
  exact hone.1

section Declaring

variable [Sha256] [UnicodeTables] [Conversions]

/-- A declaration leaves the tables alone or adds one row within the quota. -/
theorem declare_cuts (limits : AttachmentLimits) (caller : Caller) (token : TokenHex)
    (teamId : String) (fields : List (String × Json)) (timestamp : Nat) (s : AttachmentStore) :
    Holds (fun t => Quiet s t ∨ ∃ row, Declared limits s t teamId timestamp row)
      (declareTeamAttachment limits caller token teamId fields timestamp) (fun _ _ => True) s := by
  have quiet : ∀ t, Quiet s t →
      Quiet s t ∨ ∃ row, Declared limits s t teamId timestamp row := fun _ => Or.inl
  unfold declareTeamAttachment
  refine Holds.bind (R := fun _ t => t = s) (holds_check fun _ _ => rfl) ?_
  rintro request t rfl
  refine Holds.bind (R := fun h u => u = t ∧ h = t.hub) (Holds.look ?_) ?_
  · intro h hh
    cases hh
    exact ⟨rfl, rfl⟩
  rintro h u ⟨rfl, rfl⟩
  refine Holds.bind (R := fun _ t => t = u) (holds_check fun _ _ => rfl) ?_
  rintro role t rfl
  refine Holds.bind (R := fun _ u => u = t) (holds_check fun _ _ => rfl) ?_
  rintro cached u rfl
  cases cached with
  | some cached =>
      refine Holds.bind (R := fun _ t => t = u) (holds_check fun _ _ => rfl) ?_
      rintro _ t rfl
      exact Holds.pure trivial
  | none =>
      dsimp only
      refine Holds.bind (R := fun _ t => t = u ∧
        u.hub.usedBytes teamId timestamp + request.byteSize ≤ limits.quotaBytes) ?_ ?_
      · apply holds_check
        intro _ hquota
        rw [require_eq_ok] at hquota
        exact ⟨rfl, hquota⟩
      rintro _ t ⟨rfl, hquota⟩
      refine Holds.bind (R := fun _ u => u = t) (holds_check fun _ _ => rfl) ?_
      rintro node u rfl
      refine Holds.bind (R := fun found t => Quiet u t ∧ ∀ bytes, found = some bytes →
        Verified u t request.storageKey request.byteSize bytes) ?_ ?_
      · unfold openDuplicate
        split
        · exact holds_openVerifiedBlob quiet (.refl u) _ _
        · refine Holds.pure ⟨.refl u, ?_⟩
          intro bytes hb
          cases hb
      rintro verified t ⟨q, hverified⟩
      refine Holds.bind (R := fun result v => v = t ∧ ∃ requests, result.2 = { u.hub with
        attachments := u.hub.attachments ++
          [declaredRow request caller token
            ⟨teamId, caller.claims.principalId, "team.attachment.declare",
              request.idempotencyKey⟩ node verified.isSome timestamp], requests } ∧
        ∀ a ∈ u.hub.attachments, a.id ≠ newId "tatt" token) ?_ ?_
      · apply holds_check
        intro result hresult
        unfold insertDeclared at hresult
        simp only [bind_eq_ok, pure_eq_ok] at hresult
        obtain ⟨v, hv, w, hw, _, _, rfl⟩ := hresult
        obtain ⟨rfl, hfresh⟩ := insertAttachment_eq_ok hv
        rw [Hub.idempotencyStore_eq_ok] at hw
        exact ⟨rfl, _, hw.2.symm, hfresh⟩
      rintro ⟨response, w⟩ v ⟨rfl, requests, rfl, hfresh⟩
      refine Holds.bind (R := fun _ _ => True) (Holds.act ?_) fun _ _ _ => Holds.pure trivial
      intro final hfinal
      cases hfinal
      refine ⟨Or.inr ⟨declaredRow request caller token
        ⟨teamId, caller.claims.principalId, "team.attachment.declare", request.idempotencyKey⟩
        node verified.isSome timestamp, ?_⟩, trivial⟩
      refine ⟨⟨requests, rfl⟩, q.content, q.trace, rfl, rfl, hfresh, hquota, ?_⟩
      intro hready
      cases verified with
      | none => cases hready
      | some bytes =>
          have hv := hverified bytes rfl
          exact ⟨bytes, hv.stored, hv.size, hv.digest, hv.hashed⟩

end Declaring

/-! ## A chunk -/

/-- The row of a chunk: an upload that goes on, held at the time of the call. -/
structure Uploads (call : ChunkCall) (s : AttachmentStore) (row : AttachmentRow) : Prop where
  found : s.hub.attachment? call.teamId call.id = some row
  uploading : row.state = .uploading
  held : row.isHeld call.timestamp = true

/-- The chunk is the last one of its upload. -/
def Chunk.Completes (chunk : Chunk) (row : AttachmentRow) : Prop :=
  chunk.offset = row.receivedBytes ∧ row.receivedBytes + chunk.data.length = row.byteSize

/-- The tables after an upload was marked ready. -/
def readyHub (h : Hub) (row : AttachmentRow) (timestamp : Nat) : Hub :=
  { h with attachments := h.attachments.map fun a =>
    if a.id = row.id ∧ a.state = .uploading then
      { a with
        receivedBytes := row.byteSize, state := .ready timestamp
        expiresAt := timestamp + attachmentUploadTtlSeconds }
    else a }

theorem markReady_eq_ok {h t : Hub} {caller : Caller} {row : AttachmentRow} {timestamp : Nat}
    (hm : h.markReady caller row timestamp = .ok t) : t = readyHub h row timestamp := by
  unfold Hub.markReady at hm
  simp only [bind_eq_ok, require_eq_ok, pure_eq_ok] at hm
  obtain ⟨_, _, _, _, rfl⟩ := hm
  rfl

/-- The stores a chunk may leave behind. -/
inductive ChunkCut [Sha256] (call : ChunkCall) (s : AttachmentStore) : AttachmentStore → Prop
  | quiet {t : AttachmentStore} (q : Quiet s t) : ChunkCut call s t
  /-- the whole upload was hashed to another key, and its staging file is gone -/
  | mismatch {t : AttachmentStore} {row : AttachmentRow} {bytes : Bytes}
      (uploads : Uploads call s row) (hub : t.hub = s.hub) (content : t.content = s.content)
      (trace : ∃ hashes : List Bytes, t.trace =
        s.trace ++ hashes.map .hashed ++ [.unlinked .staging row.id] ∧ bytes ∈ hashes)
      (size : bytes.length = row.byteSize)
      (digest : Sha256.hexdigest bytes ≠ row.storageKey) : ChunkCut call s t
  /-- the content is published and the tables do not say so yet -/
  | published {t : AttachmentStore} {row : AttachmentRow} {bytes : Bytes}
      (uploads : Uploads call s row) (hub : t.hub = s.hub)
      (content : t.content = Function.update s.content row.storageKey (some bytes))
      (verified : Verified s t row.storageKey row.byteSize bytes) : ChunkCut call s t
  | received {t : AttachmentStore} {row : AttachmentRow} {n : Nat} (uploads : Uploads call s row)
      (hub : t.hub = s.hub.setReceived row.id n) (content : t.content = s.content)
      (trace : ∃ hashes : List Bytes, t.trace = s.trace ++ hashes.map .hashed) : ChunkCut call s t
  | ready {t : AttachmentStore} {row : AttachmentRow} {bytes : Bytes}
      (uploads : Uploads call s row) (completes : call.chunk.Completes row)
      (hub : t.hub = readyHub s.hub row call.timestamp)
      (content : t.content = s.content ∨
        t.content = Function.update s.content row.storageKey (some bytes))
      (verified : Verified s t row.storageKey row.byteSize bytes) : ChunkCut call s t

section Chunks

variable [Sha256] {call : ChunkCall} {s t : AttachmentStore} {row : AttachmentRow}

omit [Sha256] in
theorem holds_answer {I : AttachmentStore → Prop} (h : Hub) (teamId id : String) :
    Holds I (answer h teamId id) (fun _ _ => True) t :=
  Holds.bind (R := fun _ _ => True) (holds_check fun _ _ => trivial) fun _ _ _ => Holds.pure trivial

/-- The commit that marks an upload ready. -/
theorem holds_commit_ready {α : Type} {next : Task ChunkError α}
    {Q : α → AttachmentStore → Prop} {h : Hub} {bytes : Bytes}
    (uploads : Uploads call s row) (completes : call.chunk.Completes row)
    (hub : h = readyHub s.hub row call.timestamp)
    (content : t.content = s.content ∨
      t.content = Function.update s.content row.storageKey (some bytes))
    (verified : Verified s t row.storageKey row.byteSize bytes)
    (rest : ∀ u, Holds (ChunkCut call s) next Q u) :
    Holds (ChunkCut call s) (commit h >>= fun _ => next) Q t := by
  refine Holds.bind (R := fun _ _ => True) (Holds.act ?_) fun _ u _ => rest u
  intro u hu
  cases hu
  exact ⟨.ready uploads completes hub content
    ⟨verified.stored, verified.size, verified.digest, verified.hashed⟩, trivial⟩

theorem holds_finish {bytes : Bytes} (uploads : Uploads call s row)
    (completes : call.chunk.Completes row) (size : bytes.length = row.byteSize) (q : Quiet s t) :
    Holds (ChunkCut call s) (finish s.hub call.caller row bytes call.timestamp)
      (fun _ _ => True) t := by
  unfold finish
  refine Holds.bind (holds_hash (fun _ => .quiet) q bytes) ?_
  intro _ u hu
  obtain ⟨qu, _, hashes, htrace, hmem⟩ := hu
  split
  · next digest =>
      refine Holds.bind (R := fun _ v =>
        v.content = Function.update s.content row.storageKey (some bytes) ∧
          Verified s v row.storageKey row.byteSize bytes) (Holds.act ?_) ?_
      · intro v hv
        cases hv
        have hcontent : Function.update u.content row.storageKey (some bytes) =
            Function.update s.content row.storageKey (some bytes) := by
          rw [qu.content]
        have verified : Verified s
            { u with
              staging := Function.update u.staging row.id none
              content := Function.update u.content row.storageKey (some bytes) }
            row.storageKey row.byteSize bytes :=
          ⟨Function.update_self _ _ _, size, digest, hashes, htrace, hmem⟩
        exact ⟨.published uploads qu.hub hcontent verified, hcontent, verified⟩
      intro _ v hv
      obtain ⟨hcontent, verified⟩ := hv
      refine Holds.bind (R := fun h w => w = v ∧ h = readyHub s.hub row call.timestamp)
        (holds_raised fun h hm => ⟨rfl, markReady_eq_ok hm⟩) ?_
      rintro h w ⟨rfl, hh⟩
      exact holds_commit_ready uploads completes hh (Or.inr hcontent) verified
        fun u => holds_answer _ _ _
  · next digest =>
      refine Holds.bind (R := fun _ _ => True) (Holds.act ?_) fun _ _ _ => Holds.raise
      intro v hv
      cases hv
      refine ⟨.mismatch uploads qu.hub qu.content ⟨hashes, ?_, hmem⟩ size digest, trivial⟩
      change u.trace ++ _ = _
      rw [htrace]

theorem holds_append (uploads : Uploads call s row) (q : Quiet s t) :
    Holds (ChunkCut call s) (AttachmentStore.append s.hub call.caller row call.chunk call.timestamp)
      (fun _ _ => True) t := by
  unfold AttachmentStore.append
  dsimp only
  split
  · exact Holds.pure trivial
  · refine Holds.bind (R := fun _ u => Quiet s u ∧ call.chunk.offset = row.receivedBytes)
      (holds_raised ?_) ?_
    · intro _ hr
      rw [require_eq_ok] at hr
      exact ⟨q, hr⟩
    rintro _ u ⟨q, offset⟩
    refine Holds.bind (R := fun _ u => Quiet s u ∧
      row.receivedBytes + call.chunk.data.length ≤ row.byteSize) (holds_raised ?_) ?_
    · intro _ hr
      rw [require_eq_ok] at hr
      exact ⟨q, hr⟩
    rintro _ u ⟨q, hle⟩
    refine Holds.bind (holds_openStaging (fun _ => .quiet) q _ _) ?_
    intro opened u q
    refine Holds.bind (holds_writeAll (fun _ => .quiet) _ _ _ _ q) ?_
    intro bytes u q
    split
    · refine Holds.bind (R := fun _ _ => True) (Holds.act ?_) fun _ u _ => holds_answer _ _ _
      intro v hv
      cases hv
      exact ⟨.received uploads rfl q.content q.trace, trivial⟩
    · next hlast =>
        split
        · next size => exact holds_finish uploads ⟨offset, by omega⟩ size q
        · exact Holds.raise

theorem holds_reconcile (uploads : Uploads call s row) (completes : call.chunk.Completes row)
    (q : Quiet s t) :
    Holds (ChunkCut call s) (reconcile s.hub call.caller row call.chunk.data call.timestamp)
      (fun found u => found = none → Quiet s u) t := by
  unfold reconcile
  refine Holds.bind (R := fun _ u => Quiet s u) (Holds.look fun _ _ => q) ?_
  intro file u q
  cases file with
  | some _ => exact Holds.pure fun _ => q
  | none =>
      dsimp only
      refine Holds.bind (holds_openVerifiedBlob (fun _ => .quiet) q _ _) ?_
      intro blob u hu
      obtain ⟨q, hverified⟩ := hu
      cases blob with
      | none => exact Holds.pure fun _ => q
      | some bytes =>
          dsimp only
          split
          · refine Holds.bind (R := fun h w => w = u ∧ h = readyHub s.hub row call.timestamp)
              (holds_raised fun h hm => ⟨rfl, markReady_eq_ok hm⟩) ?_
            rintro h w ⟨rfl, hh⟩
            refine holds_commit_ready uploads completes hh (Or.inl q.content)
              (hverified bytes rfl) ?_
            intro v
            refine Holds.bind (holds_answer _ _ _) ?_
            intro response v _
            refine Holds.pure ?_
            intro hnone
            cases hnone
          · exact Holds.pure fun _ => q

/-- Every store that a chunk leaves behind. -/
theorem chunk_cuts (call : ChunkCall) (s : AttachmentStore) :
    Holds (ChunkCut call s)
      (writeChunk call.caller call.teamId call.id call.chunk call.timestamp)
      (fun _ _ => True) s := by
  unfold writeChunk
  refine Holds.bind (R := fun _ t => t = s) (holds_raised fun _ _ => rfl) ?_
  rintro _ t rfl
  refine Holds.bind (R := fun _ u => u = t) (holds_raised fun _ _ => rfl) ?_
  rintro _ u rfl
  refine Holds.bind (R := fun _ t => t = u) (holds_raised fun _ _ => rfl) ?_
  rintro _ t rfl
  refine Holds.bind (R := fun h u => u = t ∧ h = t.hub) (Holds.look ?_) ?_
  · intro h hh
    cases hh
    exact ⟨rfl, rfl⟩
  rintro h u ⟨rfl, rfl⟩
  refine Holds.bind (R := fun _ t => t = u) (holds_raised fun _ _ => rfl) ?_
  rintro _ t rfl
  refine Holds.bind (R := fun row u => u = t ∧
    t.hub.attachment? call.teamId call.id = some row) (holds_raised ?_) ?_
  · intro row hrow
    rw [required_eq_ok] at hrow
    exact ⟨rfl, hrow⟩
  rintro row u ⟨rfl, found⟩
  refine Holds.bind (R := fun _ t => t = u) (holds_raised fun _ _ => rfl) ?_
  rintro _ t rfl
  split
  · next held =>
      refine Holds.bind (R := fun _ u => u = t) (holds_raised fun _ _ => rfl) ?_
      rintro _ u rfl
      cases state : row.state with
      | ready readyAt =>
          exact Holds.bind (R := fun _ _ => True) (holds_raised fun _ _ => trivial)
            fun _ _ _ => Holds.pure trivial
      | failed =>
          apply holds_raised
          intro a ha
          cases ha
      | uploading =>
          have uploads : Uploads call u row := ⟨found, state, held⟩
          dsimp only
          split
          · next completes =>
              refine Holds.bind (holds_reconcile uploads completes (.refl u)) ?_
              intro result t hresult
              cases result with
              | some response => exact Holds.pure trivial
              | none => exact holds_append uploads (hresult rfl)
          · exact holds_append uploads (.refl u)
  · exact Holds.raise

end Chunks

/-- A store that a task leaves behind, cut off or not. -/
theorem after_of_holds {ε α : Type} {I : AttachmentStore → Prop} {task : Task ε α}
    {Q : α → AttachmentStore → Prop} {s : AttachmentStore} (holds : Holds I task Q s) (h : I s)
    (cut : Option Nat) : I (AttachmentStore.after task s cut) := by
  cases cut with
  | none => exact holds.at_end h
  | some n =>
      unfold AttachmentStore.after
      dsimp only
      rw [List.getD_eq_getElem?_getD]
      cases hn : (task.cuts s)[n]? with
      | none => exact holds.at_end h
      | some t =>
          rcases List.mem_cons.mp (List.mem_of_getElem? hn) with rfl | hmem
          · exact h
          · exact holds.1 t hmem

/-! ## A step of the host -/

section Hosts

variable [Sha256] [UnicodeTables] [Conversions]

/-- Everything that a step of the host may do. -/
inductive HostEffect (s : AttachmentHost) : HostAction → AttachmentHost → Prop
  | leased {a : HostAction} (lease : Lease) : HostEffect s a { s with lease }
  | ticked (seconds : Nat) : HostEffect s (.tick seconds) { s with clock := s.clock + seconds }
  | called (call : Call) : HostEffect s (.call call)
      { s with store := { s.store with hub := (TeamHub.step s.store.hub call).1 } }
  | declared {caller : Caller} {token : TokenHex} {teamId : String}
      {fields : List (String × Json)} {timestamp : Nat} {cut : Option Nat} {store : AttachmentStore}
      (read : timestamp ≤ s.clock)
      (left : Quiet s.store store ∨ ∃ row, Declared s.limits s.store store teamId timestamp row) :
      HostEffect s (.declare caller token teamId fields timestamp cut) { s with store }
  | chunked {call : ChunkCall} {cut : Option Nat} {store : AttachmentStore} (lease : Lease)
      (left : ChunkCut call s.store store) : HostEffect s (.chunk call cut) { s with store, lease }
  | failed {teamId id : String} : HostEffect s .recordFailure
      { s with store := { s.store with hub := s.store.hub.markFailed teamId id }, lease := .free }
  | purged {teamId : Option String} {timestamp : Nat} {limit : Int} {hub : Hub} (lease : Lease)
      (purge : s.store.hub.purgeExpired teamId timestamp limit = .ok hub) :
      HostEffect s (.purge teamId timestamp limit) { s with store := { s.store with hub }, lease }
  | cleaned {fault : UnlinkFault} (kind : PathKind) (key : String) (lease : Lease) :
      HostEffect s (.cleanNext fault)
        { s with store := (s.store.cleanOne kind key fault).2, lease }
  | settled (completed failed : List (PathKind × String)) : HostEffect s .settleCleanup
      { s with
        store := { s.store with hub := s.store.hub.settleCleanup completed failed }
        lease := .free }

variable {s : AttachmentHost}

theorem holding_effect (a : HostAction) :
    HostEffect s a (s.holding a) := by
  unfold AttachmentHost.holding
  split
  · exact .failed
  · exact .leased _
  · exact .cleaned _ _ _
  · exact .settled _ _
  · exact .leased _
  · exact .leased s.lease

theorem chunk_effect (call : ChunkCall) (cut : Option Nat) :
    HostEffect s (.chunk call cut) (s.chunk call cut) := by
  have left := after_of_holds (chunk_cuts call s.store) (.quiet (.refl s.store)) cut
  unfold AttachmentHost.chunk
  dsimp only
  split
  · exact .chunked _ left
  · exact .chunked s.lease left

theorem leased_effect {a : HostAction} (read : a.timestamp ≤ s.clock) :
    HostEffect s a (s.leased a) := by
  cases a with
  | declare caller token teamId fields timestamp cut =>
      exact .declared read (after_of_holds
        (declare_cuts s.limits caller token teamId fields timestamp s.store)
        (.inl (.refl s.store)) cut)
  | chunk call cut => exact chunk_effect call cut
  | purge teamId timestamp limit =>
      unfold AttachmentHost.leased
      dsimp only
      split
      · next purge => exact .purged _ purge
      · exact .leased s.lease
  | _ => exact .leased s.lease

theorem step_effect (s : AttachmentHost) (a : HostAction) :
    HostEffect s a (AttachmentHost.step s a).1 := by
  unfold AttachmentHost.step
  split
  · exact .leased s.lease
  · next late =>
      have read : a.timestamp ≤ s.clock := by omega
      split
      · exact .ticked _
      · exact .called _
      · dsimp only
        split
        · exact leased_effect read
        · exact .leased s.lease
      · dsimp only
        split
        · exact leased_effect read
        · exact .leased s.lease
      · dsimp only
        split
        · exact leased_effect read
        · exact .leased s.lease
      · exact holding_effect a

end Hosts

end AgentsServer.TeamHub

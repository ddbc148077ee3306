import AgentsServer.TeamHub.AttachmentQuota

/-!
# Attachment bytes

A row that is ready has its bytes stored under their digest. Content is published
before the tables say so, is shared by uploads, and is unlinked by a drain that looks
the tables up again; the content of a ready row is never replaced by other bytes,
unless two of the hashed contents have one digest.
-/

namespace AgentsServer.TeamHub

open Library

/-! ## Ready rows -/

/-- A ready row of a later table was a ready row with the same content before. -/
def Hub.ReadyFrom (h t : Hub) : Prop :=
  ∀ row ∈ t.attachments, row.state.isReady = true → ∃ old ∈ h.attachments,
    old.id = row.id ∧ old.storageKey = row.storageKey ∧ old.byteSize = row.byteSize ∧
      old.state.isReady = true

section ReadyRows

variable {h t : Hub}

theorem Hub.ReadyFrom.of_subset (subset : t.attachments ⊆ h.attachments) : h.ReadyFrom t :=
  fun row hrow ready => ⟨row, subset hrow, rfl, rfl, rfl, ready⟩

/-- An update in place that readies no row. -/
theorem Hub.ReadyFrom.of_map {f : AttachmentRow → AttachmentRow}
    (update : t.attachments = h.attachments.map f)
    (same : ∀ a, (f a).id = a.id ∧ (f a).storageKey = a.storageKey ∧ (f a).byteSize = a.byteSize)
    (ready : ∀ a, (f a).state.isReady = true → a.state.isReady = true) : h.ReadyFrom t := by
  intro row hrow hready
  rw [update] at hrow
  obtain ⟨a, ha, rfl⟩ := List.mem_map.mp hrow
  obtain ⟨id, key, size⟩ := same a
  exact ⟨a, ha, id.symm, key.symm, size.symm, ready a hready⟩

theorem setReceived_readyFrom (h : Hub) (id : String) (n : Nat) :
    h.ReadyFrom (h.setReceived id n) := by
  apply Hub.ReadyFrom.of_map rfl
  · intro a
    split <;> exact ⟨rfl, rfl, rfl⟩
  · intro a ready
    split at ready <;> exact ready

theorem markFailed_readyFrom (h : Hub) (teamId id : String) :
    h.ReadyFrom (h.markFailed teamId id) := by
  apply Hub.ReadyFrom.of_map rfl
  · intro a
    split <;> exact ⟨rfl, rfl, rfl⟩
  · intro a ready
    split at ready
    · cases ready
    · exact ready

theorem Binds.readyFrom {call : Call} {rows : List AttachmentRow} {messageId : String}
    (hb : Binds h call rows messageId t) : h.ReadyFrom t := by
  apply Hub.ReadyFrom.of_map hb.attachments
  · intro a
    split <;> exact ⟨rfl, rfl, rfl⟩
  · intro a ready
    split at ready <;> exact ready

end ReadyRows

/-! ## One step -/

section Steps

variable [Sha256]

/-- The chunk hashed the whole upload to another key than the row's. -/
structure Mismatched (s : AttachmentStore) (a : HostAction) (new : List FileEvent)
    (row : AttachmentRow) : Prop where
  chunk : ∃ call cut, a = .chunk call cut ∧ Uploads call s row
  hashed : ∃ bytes, .hashed bytes ∈ new ∧ bytes.length = row.byteSize ∧
    Sha256.hexdigest bytes ≠ row.storageKey

/-- The bytes of a row are stored, and were hashed in these events. -/
def HashedContent (t : AttachmentStore) (new : List FileEvent) (row : AttachmentRow) : Prop :=
  ∃ bytes, t.content row.storageKey = some bytes ∧ bytes.length = row.byteSize ∧
    Sha256.hexdigest bytes = row.storageKey ∧ .hashed bytes ∈ new

/-- A content file is kept, replaced by bytes that were hashed to its name, or unlinked
while no ready row has it. -/
def ContentKept (s t : AttachmentStore) (new : List FileEvent) : Prop :=
  ∀ key bytes, s.content key = some bytes → t.content key = some bytes ∨
    (∃ other, t.content key = some other ∧ Sha256.hexdigest other = key ∧ .hashed other ∈ new) ∨
    ∀ row ∈ s.hub.attachments, row.state.isReady = true → row.storageKey ≠ key

/-- What one step does to the files, and to the rows that depend on them. -/
structure StepFiles (s t : AttachmentStore) (a : HostAction) (new : List FileEvent) : Prop where
  trace : t.trace = s.trace ++ new
  content : ContentKept s t new
  ready : ∀ row ∈ t.hub.attachments, row.state.isReady = true →
    (∃ old ∈ s.hub.attachments, old.id = row.id ∧ old.storageKey = row.storageKey ∧
      old.byteSize = row.byteSize ∧ old.state.isReady = true) ∨ HashedContent t new row
  unlinksContent : ∀ key, .unlinked .content key ∈ new → ∀ row ∈ s.hub.attachments,
    row.state.isReady = true → row.storageKey ≠ key
  unlinksStaging : ∀ row ∈ s.hub.attachments, .unlinked .staging row.id ∈ new →
    Mismatched s a new row

variable {s t : AttachmentStore} {a : HostAction}

theorem HashedContent.of_verified {row : AttachmentRow} {bytes : Bytes} {hashes : List Bytes}
    (verified : Verified s t row.storageKey row.byteSize bytes)
    (trace : t.trace = s.trace ++ hashes.map .hashed) :
    HashedContent t (hashes.map .hashed) row := by
  obtain ⟨hashes', htrace, hmem⟩ := verified.hashed
  have hsame : hashes.map FileEvent.hashed = hashes'.map .hashed :=
    List.append_cancel_left (trace.symm.trans htrace)
  refine ⟨bytes, verified.stored, verified.size, verified.digest, ?_⟩
  rw [hsame]
  exact List.mem_map_of_mem hmem

omit [Sha256] in
theorem not_unlinked_hashes {kind : PathKind} {key : String} (hashes : List Bytes) :
    .unlinked kind key ∉ hashes.map FileEvent.hashed := by
  intro h
  obtain ⟨_, _, heq⟩ := List.mem_map.mp h
  cases heq

/-- A step that only hashes. -/
theorem StepFiles.of_hashes (hashes : List Bytes)
    (trace : t.trace = s.trace ++ hashes.map .hashed)
    (content : ContentKept s t (hashes.map .hashed))
    (ready : ∀ row ∈ t.hub.attachments, row.state.isReady = true →
      (∃ old ∈ s.hub.attachments, old.id = row.id ∧ old.storageKey = row.storageKey ∧
        old.byteSize = row.byteSize ∧ old.state.isReady = true) ∨
          HashedContent t (hashes.map .hashed) row) :
    StepFiles s t a (hashes.map .hashed) :=
  ⟨trace, content, ready, fun _ h => absurd h (not_unlinked_hashes hashes),
    fun _ _ h => absurd h (not_unlinked_hashes hashes)⟩

theorem ContentKept.same {new : List FileEvent} (h : t.content = s.content) :
    ContentKept s t new :=
  fun key bytes hkey => Or.inl (by rw [h]; exact hkey)

/-- Content that is published was hashed to its name. -/
theorem ContentKept.published {key : String} {bytes : Bytes} {new : List FileEvent}
    (content : t.content = Function.update s.content key (some bytes))
    (digest : Sha256.hexdigest bytes = key) (hashed : .hashed bytes ∈ new) :
    ContentKept s t new := by
  intro other old hold
  rw [content]
  by_cases hkey : other = key
  · subst hkey
    exact Or.inr (Or.inl ⟨bytes, Function.update_self _ _ _, digest, hashed⟩)
  · exact Or.inl ((Function.update_of_ne hkey _ _).trans hold)

/-- A step that changes neither files nor which rows are ready. -/
theorem StepFiles.still {hub : Hub} (ready : s.hub.ReadyFrom hub) :
    StepFiles s { s with hub } a [] :=
  StepFiles.of_hashes [] (List.append_nil _).symm (.same rfl)
    fun row hrow h => Or.inl (ready row hrow h)

theorem StepFiles.quiet (q : Quiet s t) : ∃ new, StepFiles s t a new := by
  obtain ⟨hashes, trace⟩ := q.trace
  refine ⟨_, .of_hashes _ trace (.same q.content) fun row hrow h => Or.inl ?_⟩
  rw [q.hub] at hrow
  exact ⟨row, hrow, rfl, rfl, rfl, h⟩

theorem Declared.stepFiles {limits : AttachmentLimits} {teamId : String} {timestamp : Nat}
    {row : AttachmentRow} (d : Declared limits s t teamId timestamp row) :
    ∃ new, StepFiles s t a new := by
  obtain ⟨hashes, trace⟩ := d.trace
  obtain ⟨requests, hub⟩ := d.hub
  refine ⟨_, .of_hashes _ trace (.same d.content) ?_⟩
  intro other hother ready
  rw [hub] at hother
  rcases List.mem_append.mp hother with old | this
  · exact Or.inl ⟨other, old, rfl, rfl, rfl, ready⟩
  · rw [List.mem_singleton.mp this] at ready ⊢
    obtain ⟨bytes, verified⟩ := d.ready ready
    exact Or.inr (.of_verified verified trace)

/-- A chunk unlinks a staging file only when its upload has the wrong bytes. -/
theorem ChunkCut.stepFiles {call : ChunkCall} {cut : Option Nat} (left : ChunkCut call s t)
    (sound : RowsSound s.hub.attachments) : ∃ new, StepFiles s t (.chunk call cut) new := by
  cases left with
  | quiet q => exact StepFiles.quiet q
  | @mismatch row bytes uploads hub content trace size digest =>
      obtain ⟨hashes, htrace, hmem⟩ := trace
      refine ⟨hashes.map .hashed ++ [.unlinked .staging row.id], ?_, .same content, ?_, ?_, ?_⟩
      · rw [htrace, List.append_assoc]
      · intro other hother ready
        rw [hub] at hother
        exact Or.inl ⟨other, hother, rfl, rfl, rfl, ready⟩
      · intro key hunlinked
        rcases List.mem_append.mp hunlinked with h | h
        · exact absurd h (not_unlinked_hashes hashes)
        · cases List.mem_singleton.mp h
      · intro other hother hunlinked
        have same : row.id = other.id := by
          rcases List.mem_append.mp hunlinked with h | h
          · exact absurd h (not_unlinked_hashes hashes)
          · injection List.mem_singleton.mp h with _ hid
            exact hid.symm
        have this : other = row :=
          Tables.eq_of_key sound.ids hother (attachment?_names uploads.found).1 same.symm
        rw [this]
        exact ⟨⟨call, cut, rfl, uploads⟩, bytes,
          List.mem_append_left _ (List.mem_map_of_mem hmem), size, digest⟩
  | @published row bytes uploads hub content verified =>
      obtain ⟨hashes, trace, hmem⟩ := verified.hashed
      refine ⟨_, .of_hashes _ trace
        (.published content verified.digest (List.mem_map_of_mem hmem)) ?_⟩
      intro other hother ready
      rw [hub] at hother
      exact Or.inl ⟨other, hother, rfl, rfl, rfl, ready⟩
  | received uploads hub content trace =>
      obtain ⟨hashes, trace⟩ := trace
      refine ⟨_, .of_hashes _ trace (.same content) ?_⟩
      intro other hother ready
      rw [hub] at hother
      exact Or.inl (setReceived_readyFrom _ _ _ other hother ready)
  | @ready row bytes uploads completes hub content verified =>
      obtain ⟨hashes, trace, hmem⟩ := verified.hashed
      have kept : ContentKept s t (hashes.map .hashed) := by
        rcases content with h | h
        · exact .same h
        · exact .published h verified.digest (List.mem_map_of_mem hmem)
      refine ⟨_, .of_hashes _ trace kept ?_⟩
      intro other hother ready
      rw [hub] at hother
      obtain ⟨old, hold, rfl⟩ := List.mem_map.mp hother
      by_cases hthis : old.id = row.id ∧ old.state = .uploading
      · have same : old = row :=
          Tables.eq_of_key sound.ids hold (attachment?_names uploads.found).1 hthis.1
        rw [if_pos hthis, same]
        exact Or.inr (HashedContent.of_verified verified trace)
      · rw [if_neg hthis] at ready ⊢
        exact Or.inl ⟨old, hold, rfl, rfl, rfl, ready⟩

/-- A drain unlinks nothing that a row needs. -/
theorem cleanOne_stepFiles (s : AttachmentStore) (kind : PathKind) (key : String)
    (fault : UnlinkFault) : ∃ new, StepFiles s (s.cleanOne kind key fault).2 a new := by
  have nothing : ∃ new, StepFiles s s a new := StepFiles.quiet (.refl s)
  unfold AttachmentStore.cleanOne
  split
  · exact nothing
  · split
    · exact nothing
    · next free =>
        split
        · exact nothing
        · cases kind with
          | staging =>
              dsimp only
              split
              · exact nothing
              · refine ⟨[.unlinked .staging key], rfl, .same rfl, ?_, ?_, ?_⟩
                · intro row hrow ready
                  exact Or.inl ⟨row, hrow, rfl, rfl, rfl, ready⟩
                · intro other hunlinked
                  cases List.mem_singleton.mp hunlinked
                · intro row hrow hunlinked
                  injection List.mem_singleton.mp hunlinked with _ hid
                  exact absurd (List.any_eq_true.mpr ⟨row, hrow, decide_eq_true hid⟩) free
          | content =>
              have unneeded : ∀ row ∈ s.hub.attachments, row.state.isReady = true →
                  row.storageKey ≠ key := by
                intro row hrow ready hkey
                exact free (List.any_eq_true.mpr ⟨row, hrow, decide_eq_true ⟨hkey, ready⟩⟩)
              dsimp only
              split
              · exact nothing
              · refine ⟨[.unlinked .content key], rfl, ?_, ?_, ?_, ?_⟩
                · intro other bytes hother
                  by_cases hkey : other = key
                  · rw [hkey]
                    exact Or.inr (Or.inr unneeded)
                  · exact Or.inl ((Function.update_of_ne hkey _ _).trans hother)
                · intro row hrow ready
                  exact Or.inl ⟨row, hrow, rfl, rfl, rfl, ready⟩
                · intro other hunlinked
                  injection List.mem_singleton.mp hunlinked with _ hkey
                  rw [hkey]
                  exact unneeded
                · intro row _ hunlinked
                  cases List.mem_singleton.mp hunlinked

theorem step_files [UnicodeTables] [Conversions] {s u : AttachmentHost} (sound : RowsSound s.store.hub.attachments)
    (effect : HostEffect s a u) : ∃ new, StepFiles s.store u.store a new := by
  cases effect with
  | leased => exact StepFiles.quiet (.refl _)
  | ticked => exact StepFiles.quiet (.refl _)
  | called call =>
      refine ⟨[], .still ?_⟩
      rcases step_attachments s.store.hub call with hsame | ⟨_, _, _, _, _, _, _, hb⟩
      · exact .of_subset (hsame ▸ List.Subset.refl _)
      · exact hb.readyFrom
  | declared _ left =>
      rcases left with q | ⟨row, d⟩
      · exact StepFiles.quiet q
      · exact d.stepFiles
  | chunked _ left => exact left.stepFiles sound
  | failed => exact ⟨[], .still (markFailed_readyFrom _ _ _)⟩
  | purged _ purge => exact ⟨[], .still (.of_subset (purgeExpired_drops purge).subset)⟩
  | cleaned kind key _ => exact cleanOne_stepFiles _ _ _ _
  | settled => exact ⟨[], .still (.of_subset (List.Subset.refl _))⟩

end Steps

/-! ## Runs -/

section Runs

variable [Sha256]

/-- Two different contents with one digest were hashed. -/
def Collides (trace : List FileEvent) : Prop :=
  ∃ a b, .hashed a ∈ trace ∧ .hashed b ∈ trace ∧ a ≠ b ∧ Sha256.hexdigest a = Sha256.hexdigest b

/-- Ready rows have their bytes stored, as they were hashed. -/
structure BytesSound (s : AttachmentStore) : Prop where
  rows : RowsSound s.hub.attachments
  stored : ¬ Collides s.trace → ∀ row ∈ s.hub.attachments, row.state.isReady = true →
    HashedContent s s.trace row

theorem Collides.later {early new : List FileEvent} (h : Collides early) :
    Collides (early ++ new) := by
  obtain ⟨a, b, ha, hb, hne, heq⟩ := h
  exact ⟨a, b, List.mem_append_left _ ha, List.mem_append_left _ hb, hne, heq⟩

/-- What a step keeps of the content of a ready row. -/
theorem StepFiles.keeps {s t : AttachmentStore} {a : HostAction} {new : List FileEvent}
    (files : StepFiles s t a new) (noCollision : ¬ Collides t.trace) {row : AttachmentRow}
    (hrow : row ∈ s.hub.attachments) (ready : row.state.isReady = true)
    (stored : HashedContent s s.trace row) : HashedContent t t.trace row := by
  obtain ⟨bytes, content, size, digest, hashed⟩ := stored
  have later : .hashed bytes ∈ t.trace := files.trace ▸ List.mem_append_left new hashed
  rcases files.content _ _ content with h | ⟨other, h, hother, hnew⟩ | unneeded
  · exact ⟨bytes, h, size, digest, later⟩
  · have alsoHashed : .hashed other ∈ t.trace := files.trace ▸ List.mem_append_right s.trace hnew
    have same : other = bytes := by
      by_contra hne
      exact noCollision ⟨other, bytes, alsoHashed, later, hne, hother.trans digest.symm⟩
    exact ⟨bytes, same ▸ h, size, digest, later⟩
  · exact absurd rfl (unneeded row hrow ready)

theorem BytesSound.step [UnicodeTables] [Conversions] {s u : AttachmentHost} {a : HostAction}
    (sound : BytesSound s.store) (effect : HostEffect s a u) : BytesSound u.store := by
  obtain ⟨new, files⟩ := step_files sound.rows effect
  refine ⟨sound.rows.step effect, ?_⟩
  intro noCollision row hrow ready
  have before : ¬ Collides s.store.trace := by
    intro h
    apply noCollision
    rw [files.trace]
    exact h.later
  rcases files.ready row hrow ready with ⟨old, hold, _, key, size, oldReady⟩ | content
  · have kept := files.keeps noCollision hold oldReady (sound.stored before old hold oldReady)
    unfold HashedContent at kept ⊢
    rw [← key, ← size]
    exact kept
  · obtain ⟨bytes, hcontent, hsize, digest, hashed⟩ := content
    exact ⟨bytes, hcontent, hsize, digest, files.trace ▸ List.mem_append_right _ hashed⟩

theorem BytesSound.start (limits : AttachmentLimits) :
    BytesSound (AttachmentHost.start limits).store :=
  ⟨(WithinQuota.start limits).rows, fun _ _ hrow => absurd hrow List.not_mem_nil⟩

variable [UnicodeTables] [Conversions]

theorem run_bytes (limits : AttachmentLimits) (actions : List HostAction) :
    BytesSound (Runs.run AttachmentHost.step (.start limits) actions).store :=
  Runs.run_invariant AttachmentHost.step (I := fun s => BytesSound s.store)
    (fun s a sound => sound.step (step_effect s a)) _ (.start limits) actions

/-- In every run, ready rows have their bytes stored under their digest unless two
hashed contents collide; a step unlinks no content of a ready row, and the staging file
of a row only when the whole upload has another digest; and a row becomes ready in a
step that hashed its content to its key. -/
theorem attachment_bytes (limits : AttachmentLimits) (actions : List HostAction) :
    let s := (Runs.run AttachmentHost.step (.start limits) actions).store
    (Collides s.trace ∨ ∀ row ∈ s.hub.attachments, row.state.isReady = true → ∃ bytes,
      s.content row.storageKey = some bytes ∧ bytes.length = row.byteSize ∧
        Sha256.hexdigest bytes = row.storageKey) ∧
    ∀ a, ∃ new, let t := (AttachmentHost.step
        (Runs.run AttachmentHost.step (.start limits) actions) a).1.store
      t.trace = s.trace ++ new ∧
      (∀ row ∈ s.hub.attachments, row.state.isReady = true →
        .unlinked .content row.storageKey ∉ new) ∧
      (∀ row ∈ s.hub.attachments, .unlinked .staging row.id ∈ new → Mismatched s a new row) ∧
      ∀ row ∈ t.hub.attachments, row.state.isReady = true →
        (∃ old ∈ s.hub.attachments, old.id = row.id ∧ old.state.isReady = true) ∨
          HashedContent t new row := by
  intro s
  have sound := run_bytes limits actions
  constructor
  · by_cases collides : Collides s.trace
    · exact Or.inl collides
    · refine Or.inr ?_
      intro row hrow ready
      obtain ⟨bytes, content, size, digest, _⟩ := sound.stored collides row hrow ready
      exact ⟨bytes, content, size, digest⟩
  · intro a
    obtain ⟨new, files⟩ := step_files sound.rows (step_effect _ a)
    refine ⟨new, files.trace, ?_, files.unlinksStaging, ?_⟩
    · intro row hrow ready hunlinked
      exact files.unlinksContent _ hunlinked row hrow ready rfl
    · intro row hrow ready
      rcases files.ready row hrow ready with ⟨old, hold, id, _, _, oldReady⟩ | content
      · exact Or.inl ⟨old, hold, id, oldReady⟩
      · exact Or.inr content

end Runs

/-! ## A wrong upload -/

section WrongUpload

attribute [local instance] lengthDigest sameCase noConversions

/-- All bytes of an upload whose digest is that of one byte. -/
def wrongChunk : ChunkCall where
  caller := serverContext.caller
  teamId := "t"
  id := (backlogRow 0 129 0).id
  chunk := { offset := 0, total := 129, data := List.replicate 129 7, writes := [] }
  timestamp := 0

def wrongDeclare : HostAction :=
  .declare serverContext.caller (tokenOf 0) "t" (declareFields 0 129) 0 none

theorem wrongChunk_unlinks {s : AttachmentHost}
    (b : Backlog ⟨129, 129⟩ 0 1 [backlogRow 0 129 0] s) :
    (AttachmentHost.step s (.chunk wrongChunk none)).1.store.trace = s.store.trace ++
      [.hashed wrongChunk.chunk.data, .unlinked .staging (backlogRow 0 129 0).id] := by
  have found : s.store.hub.attachment? "t" (backlogRow 0 129 0).id = some (backlogRow 0 129 0) := by
    rw [Hub.attachment?, b.attachments]
    exact List.find?_cons_of_pos (by decide)
  have whole : WholeUpload wrongChunk s.store (backlogRow 0 129 0) :=
    ⟨⟨found, rfl, by decide⟩, rfl, ⟨_, rfl⟩, rfl, rfl, rfl, rfl, by decide, rfl, b.staging _,
      b.content _⟩
  have digest : Sha256.hexdigest wrongChunk.chunk.data ≠ (backlogRow 0 129 0).storageKey := by
    decide +kernel
  have mismatch := whole.mismatch digest
  rw [step_leased b.free (Nat.zero_le _) rfl]
  rw [List.append_assoc] at mismatch
  unfold AttachmentHost.leased AttachmentHost.chunk
  dsimp only
  split
  · exact mismatch
  · exact mismatch

/-- The staging file of an upload is unlinked while its row is still uploading. -/
theorem not_never_unlinks_uploading :
    ¬ ∀ (_ : Sha256) (_ : UnicodeTables) (_ : Conversions) (limits : AttachmentLimits)
      (actions : List HostAction) (a : HostAction) (new : List FileEvent),
      (AttachmentHost.step (Runs.run AttachmentHost.step (.start limits) actions) a).1.store.trace =
        (Runs.run AttachmentHost.step (.start limits) actions).store.trace ++ new →
      ∀ row ∈ (Runs.run AttachmentHost.step (.start limits) actions).store.hub.attachments,
        row.state = .uploading → .unlinked .staging row.id ∉ new := by
  intro claim
  have b : Backlog ⟨129, 129⟩ 0 1 [backlogRow 0 129 0]
      (Runs.run AttachmentHost.step (.start ⟨129, 129⟩) [wrongDeclare]) :=
    (backlog_filled (n := 0) (Nat.le_refl _) (by decide) (by decide)).declares (by decide)
      (Or.inr rfl) (Nat.le_refl _) (Nat.le_refl _) (Nat.le_refl _)
  have never := claim lengthDigest sameCase noConversions ⟨129, 129⟩ [wrongDeclare]
    (.chunk wrongChunk none) _ (wrongChunk_unlinks b) (backlogRow 0 129 0)
    (b.attachments ▸ List.mem_singleton.mpr rfl) rfl
  exact never (List.mem_cons_of_mem _ List.mem_cons_self)

end WrongUpload

end AgentsServer.TeamHub

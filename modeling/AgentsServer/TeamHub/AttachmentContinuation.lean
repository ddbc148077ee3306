import AgentsServer.TeamHub.AttachmentBytes
import AgentsServer.TeamHub.AttachmentResumption

/-!
# Uploads that go on

An upload among any number of clients, whose own chunks bring the right bytes and are
cut off anywhere. As long as no staging file is left without a committed byte, and
content that was published before its commit was lost is completed by one chunk, the
upload never fails, and the bytes that are left make it ready.
-/

namespace AgentsServer.TeamHub

open Library AttachmentStore Program

/-! ## What the other operations leave alone -/

/-- These staging files are as before. -/
def Spares (K : String → Prop) (s t : AttachmentStore) : Prop :=
  ∀ key, K key → t.staging key = s.staging key

/-- A task spares these staging files wherever it is cut off. -/
def Frames {ε α : Type} (K : String → Prop) (task : Task ε α) : Prop :=
  ∀ s t, Spares K s t → Holds (Spares K s) task (fun _ u => Spares K s u) t

namespace Frames

variable {ε α β : Type} {K : String → Prop} {id : String}

theorem bind {p : Task ε α} {f : α → Task ε β} (hp : Frames K p) (hf : ∀ a, Frames K (f a)) :
    Frames K (p >>= f) :=
  fun s t h => Holds.bind (hp s t h) fun a u hu => hf a s u hu

theorem pure (a : α) : Frames K (Pure.pure a : Task ε α) :=
  fun _ _ h => Holds.pure h

theorem raise (e : ε) : Frames K (Program.raise e : Task ε α) :=
  fun _ _ _ => Holds.raise

theorem look (f : AttachmentStore → Except ε α) : Frames K (Program.look f) :=
  fun _ _ h => Holds.look fun _ _ => h

theorem check (x : Except ε α) : Frames K (AttachmentStore.check x) :=
  look _

/-- An effect that leaves the staging files alone. -/
theorem elsewhere {f : AttachmentStore → AttachmentStore}
    (same : ∀ t, (f t).staging = t.staging) :
    Frames K (Program.act fun t => .ok (f t) : Task ε Unit) := by
  intro s t h
  apply Holds.act
  rintro _ ⟨⟩
  have spared : Spares K s (f t) := by
    intro key hkey
    rw [same]
    exact h key hkey
  exact ⟨spared, spared⟩

/-- An effect on another staging file. -/
theorem update {f : AttachmentStore → AttachmentStore} {file : Option Bytes} (other : ¬ K id)
    (there : ∀ t, (f t).staging = Function.update t.staging id file) :
    Frames K (Program.act fun t => .ok (f t) : Task ε Unit) := by
  intro s t h
  apply Holds.act
  rintro _ ⟨⟩
  have spared : Spares K s (f t) := by
    intro key hkey
    have hne : key ≠ id := by
      rintro rfl
      exact other hkey
    rw [there, Function.update_of_ne hne]
    exact h key hkey
  exact ⟨spared, spared⟩

theorem openStaging (other : ¬ K id) (received : Nat) :
    Frames K (AttachmentStore.openStaging id received) := by
  unfold AttachmentStore.openStaging
  refine (look _).bind fun file => ?_
  have write : ∀ bytes, Frames K (setStaging id bytes : Task ChunkError Unit) :=
    fun bytes => update other fun _ => rfl
  cases file with
  | none =>
      dsimp only
      split
      · exact (write _).bind fun _ => pure _
      · exact raise _
  | some bytes =>
      dsimp only
      split
      · exact raise _
      · split
        · exact raise _
        · split
          · exact pure _
          · exact (write _).bind fun _ => pure _

theorem writeAll (other : ¬ K id) (sizes : List Nat) (written data : Bytes) :
    Frames K (AttachmentStore.writeAll id written sizes data) := by
  have write : ∀ bytes, Frames K (setStaging id bytes : Task ChunkError Unit) :=
    fun bytes => update other fun _ => rfl
  induction sizes generalizing written data with
  | nil =>
      cases data with
      | nil => exact pure _
      | cons b data => exact (write _).bind fun _ => pure _
  | cons n rest ih =>
      cases data with
      | nil => exact pure _
      | cons b data => exact (write _).bind fun _ => ih _ _

theorem answer (h : Hub) (teamId id : String) : Frames K (AttachmentStore.answer h teamId id) :=
  (check _).bind fun _ => pure _

theorem hash (bytes : Bytes) : Frames K (AttachmentStore.hash bytes : Task ε Unit) :=
  elsewhere fun _ => rfl

theorem commit (h : Hub) : Frames K (AttachmentStore.commit h : Task ε Unit) :=
  elsewhere fun _ => rfl

variable [Sha256]

theorem openVerifiedBlob (key : String) (byteSize : Nat) :
    Frames K (AttachmentStore.openVerifiedBlob key byteSize : Task ε (Option Bytes)) := by
  unfold AttachmentStore.openVerifiedBlob
  refine (look _).bind fun file => ?_
  cases file with
  | none => exact pure _
  | some bytes =>
      dsimp only
      split
      · exact (hash _).bind fun _ => pure _
      · exact pure _

variable {row : AttachmentRow}

theorem reconcile (h : Hub) (caller : Caller) (data : Bytes) (timestamp : Nat) :
    Frames K (AttachmentStore.reconcile h caller row data timestamp) := by
  unfold AttachmentStore.reconcile
  refine (look _).bind fun file => ?_
  cases file with
  | some _ => exact pure _
  | none =>
      refine (openVerifiedBlob _ _).bind fun found => ?_
      cases found with
      | none => exact pure _
      | some bytes =>
          dsimp only
          split
          · exact (check _).bind fun t => (commit t).bind fun _ =>
              (answer _ _ _).bind fun _ => pure _
          · exact pure _

theorem finish (other : ¬ K row.id) (h : Hub) (caller : Caller) (bytes : Bytes)
    (timestamp : Nat) : Frames K (AttachmentStore.finish h caller row bytes timestamp) := by
  unfold AttachmentStore.finish
  refine (hash _).bind fun _ => ?_
  split
  · exact (update other fun _ => rfl).bind fun _ => (check _).bind fun t =>
      (commit t).bind fun _ => answer _ _ _
  · exact (update other fun _ => rfl).bind fun _ => raise _

theorem append (other : ¬ K row.id) (h : Hub) (caller : Caller) (chunk : Chunk)
    (timestamp : Nat) : Frames K (AttachmentStore.append h caller row chunk timestamp) := by
  unfold AttachmentStore.append
  dsimp only
  split
  · exact pure _
  · refine (check _).bind fun _ => (check _).bind fun _ => (openStaging other _).bind fun opened =>
      (writeAll other _ _ _).bind fun bytes => ?_
    split
    · exact (commit _).bind fun _ => answer _ _ _
    · split
      · exact finish other _ _ _ _
      · exact raise _

end Frames

section Others

variable [Sha256]

/-- A chunk touches no staging file but that of the row it names. -/
theorem chunk_spares (call : ChunkCall) (s : AttachmentStore) :
    Holds (Spares (fun key => ∀ row, s.hub.attachment? call.teamId call.id = some row →
        key ≠ row.id) s)
      (writeChunk call.caller call.teamId call.id call.chunk call.timestamp)
      (fun _ _ => True) s := by
  unfold writeChunk
  refine Holds.bind (R := fun _ t => t = s) (holds_raised fun _ _ => rfl) ?_
  rintro _ t rfl
  refine Holds.bind (R := fun _ u => u = t) (holds_raised fun _ _ => rfl) ?_
  rintro _ u rfl
  refine Holds.bind (R := fun _ t => t = u) (holds_raised fun _ _ => rfl) ?_
  rintro _ t rfl
  refine Holds.bind (R := fun h u => u = t ∧ h = t.hub) (Holds.look ?_) ?_
  · rintro h ⟨⟩
    exact ⟨rfl, rfl⟩
  rintro h u ⟨rfl, rfl⟩
  refine Holds.bind (R := fun _ t => t = u) (holds_raised fun _ _ => rfl) ?_
  rintro _ t rfl
  refine Holds.bind (R := fun row u => u = t ∧
    t.hub.attachment? call.teamId call.id = some row) (holds_raised ?_) ?_
  · intro row hrow
    rw [required_eq_ok] at hrow
    exact ⟨rfl, hrow⟩
  rintro row u ⟨rfl, found⟩
  have other : ¬ ∀ named, u.hub.attachment? call.teamId call.id = some named →
      row.id ≠ named.id := fun h => h row found rfl
  have spares : ∀ {task : Task ChunkError Json} {t : AttachmentStore},
      Frames (fun key => ∀ named, u.hub.attachment? call.teamId call.id = some named →
        key ≠ named.id) task → Spares (fun key => ∀ named,
        u.hub.attachment? call.teamId call.id = some named → key ≠ named.id) u t →
      Holds (Spares (fun key => ∀ named,
        u.hub.attachment? call.teamId call.id = some named → key ≠ named.id) u) task
        (fun _ _ => True) t :=
    fun frames h => (frames u _ h).weaken (fun _ h => h) fun _ _ _ => trivial
  refine spares ?_ fun _ _ => rfl
  refine (Frames.check _).bind fun _ => ?_
  split
  · refine (Frames.check _).bind fun _ => ?_
    split
    · exact (Frames.check _).bind fun _ => Frames.pure _
    · exact Frames.check _
    · split
      · refine (Frames.reconcile _ _ _ _).bind fun response => ?_
        cases response with
        | some response => exact Frames.pure _
        | none => exact Frames.append other _ _ _ _
      · exact Frames.append other _ _ _ _
  · exact Frames.raise _

/-- A declaration touches no staging file. -/
theorem declare_spares [UnicodeTables] [Conversions] (K : String → Prop)
    (limits : AttachmentLimits) (caller : Caller) (token : TokenHex) (teamId : String)
    (fields : List (String × Json)) (timestamp : Nat) :
    Frames K (declareTeamAttachment limits caller token teamId fields timestamp) := by
  unfold declareTeamAttachment
  refine (Frames.check _).bind fun request => (Frames.look _).bind fun h =>
    (Frames.check _).bind fun _ => (Frames.check _).bind fun cached => ?_
  cases cached with
  | some cached => exact (Frames.check _).bind fun _ => Frames.pure _
  | none =>
      refine (Frames.check _).bind fun _ => (Frames.check _).bind fun node => ?_
      have opened : Frames K (openDuplicate h teamId request timestamp) := by
        unfold openDuplicate
        split
        · exact Frames.openVerifiedBlob _ _
        · exact Frames.pure _
      exact opened.bind fun verified => (Frames.check _).bind fun _ =>
        (Frames.commit _).bind fun _ => Frames.pure _

end Others

/-! ## The row of the upload -/

section Rows

variable {h t : Hub} {teamId id : String} {row : AttachmentRow} {timestamp : Nat}

theorem RowsSound.found (sound : RowsSound h.attachments) (mem : row ∈ h.attachments)
    (team : row.teamId = teamId) (name : row.id = id) : h.attachment? teamId id = some row := by
  have names : (fun a : AttachmentRow => decide (a.teamId = teamId ∧ a.id = id)) row = true :=
    decide_eq_true ⟨team, name⟩
  unfold Hub.attachment?
  cases first : h.attachments.find? fun a => decide (a.teamId = teamId ∧ a.id = id) with
  | none => exact absurd names (by simpa using List.find?_eq_none.mp first row mem)
  | some other =>
      obtain ⟨hmem, _, hid⟩ := attachment?_names (h := h) first
      rw [Tables.eq_of_key sound.ids hmem mem (hid.trans name.symm)]

/-- An update in place that leaves the row alone. -/
theorem found_map {f : AttachmentRow → AttachmentRow} (found : h.attachment? teamId id = some row)
    (update : t.attachments = h.attachments.map f)
    (names : ∀ a, (f a).teamId = a.teamId ∧ (f a).id = a.id) :
    t.attachment? teamId id = some (f row) := by
  have same : t.attachment? teamId id =
      ({ h with attachments := h.attachments.map f } : Hub).attachment? teamId id := by
    unfold Hub.attachment?
    rw [update]
  rw [same, attachment?_map names, found]
  rfl

/-- A reclamation leaves the row alone until it expires. -/
theorem purgeExpired_found (sound : RowsSound h.attachments)
    (found : h.attachment? teamId id = some row) (lives : timestamp < row.expiresAt)
    {team : Option String} {limit : Int} (purge : h.purgeExpired team timestamp limit = .ok t) :
    t.attachment? teamId id = some row := by
  obtain ⟨mem, rowTeam, name⟩ := attachment?_names found
  have soundAfter : RowsSound t.attachments := sound.sublist (purgeExpired_drops purge)
  unfold Hub.purgeExpired at purge
  simp only [bind_eq_ok] at purge
  obtain ⟨_, _, u, hrows, hkeys⟩ := purge
  have stale : ∀ a ∈ h.expiredAttachments team timestamp limit.toNat, row.id ≠ a.id := by
    intro a ha same
    have selected := List.mem_filter.mp
      ((List.mem_insertionSort _).mp (List.mem_of_mem_take ha))
    have this := Tables.eq_of_key sound.ids selected.1 mem same.symm
    have expired := (of_decide_eq_true selected.2).2.1
    rw [this] at expired
    omega
  have kept : row ∈ u.attachments := by
    clear hkeys
    generalize h.expiredAttachments team timestamp limit.toNat = rows at hrows stale
    clear sound found
    induction rows generalizing h with
    | nil =>
        cases hrows
        exact mem
    | cons a rest ih =>
        rw [List.foldlM_cons, bind_eq_ok] at hrows
        obtain ⟨v, hv, hrest⟩ := hrows
        refine ih ?_ hrest fun b hb => stale b (List.mem_cons_of_mem _ hb)
        unfold Hub.reclaimRow at hv
        simp only [bind_eq_ok, pure_eq_ok] at hv
        obtain ⟨_, _, rfl⟩ := hv
        dsimp only
        rw [insertTombstone_attachments]
        exact List.mem_filter.mpr ⟨mem, decide_eq_true (stale a List.mem_cons_self)⟩
  have same : t.attachments = u.attachments := by
    refine foldlM_related (R := fun h t : Hub => t.attachments = h.attachments) (fun _ => rfl)
      (fun _ _ _ h h' => h'.trans h) ?_ hkeys
    intro v key w hw
    unfold Hub.reclaimKey at hw
    simp only [bind_eq_ok, pure_eq_ok] at hw
    obtain ⟨_, _, rfl⟩ := hw
    split
    · rfl
    · exact insertTombstone_attachments _ _ _ _
  exact soundAfter.found (same ▸ kept) rowTeam name

/-- A ready row stays ready, and any other is unchanged. -/
def Follows (row next : AttachmentRow) : Prop :=
  next = row ∨ row.state.isReady = true ∧ next.state.isReady = true

theorem Binds.follows (sound : RowsSound h.attachments) {call : Call}
    {rows : List AttachmentRow} {messageId : String} (hb : Binds h call rows messageId t)
    (found : h.attachment? teamId id = some row) :
    ∃ next, t.attachment? teamId id = some next ∧ Follows row next := by
  refine ⟨_, found_map found hb.attachments ?_, ?_⟩
  · intro a
    split <;> exact ⟨rfl, rfl⟩
  · split
    · next taken =>
        obtain ⟨other, hother, names⟩ := List.any_eq_true.mp taken
        obtain ⟨selected, bindable⟩ := hb.selected other hother
        have this := sound.selected selected (attachment?_names found).1
          (of_decide_eq_true names).2
        rw [← this] at bindable
        unfold Hub.bindable at bindable
        simp only [Bool.and_eq_true] at bindable
        have ready := bindable.1.1.1
        exact Or.inr ⟨ready, ready⟩
    · exact Or.inl rfl

theorem markFailed_follows (found : h.attachment? teamId id = some row) {team key : String}
    (other : row.state.isReady = true ∨ (team, key) ≠ (teamId, id)) :
    ∃ next, (h.markFailed team key).attachment? teamId id = some next ∧ Follows row next := by
  obtain ⟨_, rowTeam, name⟩ := attachment?_names found
  refine ⟨_, found_map found rfl ?_, ?_⟩
  · intro a
    split <;> exact ⟨rfl, rfl⟩
  · split
    · next this =>
        rcases other with ready | other
        · rw [this.2.2] at ready
          cases ready
        · rw [← rowTeam, ← name, this.1, this.2.1] at other
          exact absurd rfl other
    · exact Or.inl rfl

/-- A chunk of another upload, or of one that is ready. -/
theorem ChunkCut.follows [Sha256] (sound : RowsSound h.attachments) {call : ChunkCall}
    {s u : AttachmentStore} (tables : s.hub = h) (left : ChunkCut call s u)
    (found : h.attachment? teamId id = some row)
    (other : row.state.isReady = true ∨ (call.teamId, call.id) ≠ (teamId, id)) :
    ∃ next, u.hub.attachment? teamId id = some next ∧ Follows row next := by
  subst tables
  have mem := (attachment?_names found).1
  have apart : ∀ named, Uploads call s named → row.id ≠ named.id := by
    intro named uploads same
    obtain ⟨namedMem, namedTeam, namedId⟩ := attachment?_names uploads.found
    have this := Tables.eq_of_key sound.ids mem namedMem same
    rcases other with ready | other
    · rw [this, uploads.uploading] at ready
      cases ready
    · rw [← namedTeam, ← namedId, ← this, (attachment?_names found).2.1,
        (attachment?_names found).2.2] at other
      exact other rfl
  cases left with
  | quiet q =>
      rw [q.hub]
      exact ⟨row, found, Or.inl rfl⟩
  | mismatch _ hub =>
      rw [hub]
      exact ⟨row, found, Or.inl rfl⟩
  | published _ hub =>
      rw [hub]
      exact ⟨row, found, Or.inl rfl⟩
  | @received named n uploads hub =>
      rw [hub]
      refine ⟨_, found_map found rfl ?_, ?_⟩
      · intro a
        split <;> exact ⟨rfl, rfl⟩
      · rw [if_neg (apart named uploads)]
        exact Or.inl rfl
  | @ready named _ uploads _ hub =>
      rw [hub]
      refine ⟨_, found_map found rfl ?_, ?_⟩
      · intro a
        split <;> exact ⟨rfl, rfl⟩
      · rw [if_neg fun this => apart named uploads this.1]
        exact Or.inl rfl

end Rows

/-! ## One step -/

section Steps

variable [Sha256] [UnicodeTables] [Conversions] {data : Bytes} {teamId id : String}
  {row : AttachmentRow} {s : AttachmentHost} {a : HostAction}

/-- The step is a chunk of this upload. -/
def HostAction.Uploads (teamId id : String) (a : HostAction) : Prop :=
  ∃ call cut, a = .chunk call cut ∧ call.teamId = teamId ∧ call.id = id

omit [Sha256] [UnicodeTables] [Conversions] in
theorem HostAction.apart {call : ChunkCall} {cut : Option Nat}
    (other : ¬ HostAction.Uploads teamId id (.chunk call cut)) :
    (call.teamId, call.id) ≠ (teamId, id) := by
  intro same
  cases same
  exact other ⟨call, cut, rfl, rfl, rfl⟩

/-- The row after a step of another operation, or once it is ready. -/
theorem step_follows (sound : RowsSound s.store.hub.attachments)
    (found : s.store.hub.attachment? teamId id = some row)
    (lives : ∀ team timestamp limit, a = .purge team timestamp limit → timestamp < row.expiresAt)
    (other : row.state.isReady = true ∨
      s.lease ≠ .failing teamId id ∧ ¬ a.Uploads teamId id) :
    ∃ next, (AttachmentHost.step s a).1.store.hub.attachment? teamId id = some next ∧
      Follows row next := by
  have same : ∃ next, s.store.hub.attachment? teamId id = some next ∧ Follows row next :=
    ⟨row, found, Or.inl rfl⟩
  by_cases records : a = .recordFailure
  · subst records
    unfold AttachmentHost.step
    split
    · exact same
    · change ∃ next, (s.holding .recordFailure).store.hub.attachment? teamId id = some next ∧ _
      cases lease : s.lease with
      | failing team key =>
          unfold AttachmentHost.holding
          rw [lease]
          apply markFailed_follows found
          rcases other with ready | ⟨other, _⟩
          · exact Or.inl ready
          · refine Or.inr ?_
            intro names
            cases names
            exact other lease
      | free =>
          unfold AttachmentHost.holding
          rw [lease]
          exact same
      | reclaiming limit =>
          unfold AttachmentHost.holding
          rw [lease]
          exact same
      | draining pending completed failed =>
          have still : s.holding .recordFailure = s := by
            unfold AttachmentHost.holding
            rw [lease]
            rcases pending with _ | ⟨⟨_, _⟩, _⟩ <;> rfl
          rw [still]
          exact same
  · have effect := step_effect s a
    generalize (AttachmentHost.step s a).1 = u at effect
    cases effect with
    | leased => exact same
    | ticked => exact same
    | called call =>
        rcases step_attachments s.store.hub call with attachments | ⟨_, _, _, _, _, _, _, hb⟩
        · change ∃ next, (TeamHub.step s.store.hub call).1.attachment? teamId id = some next ∧ _
          unfold Hub.attachment? at found ⊢
          rw [attachments]
          exact ⟨row, found, Or.inl rfl⟩
        · exact hb.follows sound found
    | declared _ left =>
        rcases left with q | ⟨added, d⟩
        · rw [q.hub]
          exact same
        · obtain ⟨requests, hub⟩ := d.hub
          rw [hub]
          refine ⟨row, ?_, Or.inl rfl⟩
          unfold Hub.attachment? at found ⊢
          rw [List.find?_append, found]
          rfl
    | @chunked call cut store lease left =>
        refine left.follows sound rfl found ?_
        rcases other with ready | ⟨_, other⟩
        · exact Or.inl ready
        · exact Or.inr (HostAction.apart other)
    | failed => exact absurd rfl records
    | purged _ purge => exact ⟨row, purgeExpired_found sound found (lives _ _ _ rfl) purge, Or.inl rfl⟩
    | cleaned kind key _ =>
        rw [cleanOne_hub]
        exact same
    | settled => exact same

omit [UnicodeTables] [Conversions] in
theorem chunk_store (s : AttachmentHost) (call : ChunkCall) (cut : Option Nat) :
    (s.chunk call cut).store = AttachmentStore.after
      (writeChunk call.caller call.teamId call.id call.chunk call.timestamp) s.store cut := by
  unfold AttachmentHost.chunk
  dsimp only
  split <;> rfl

omit [Sha256] [UnicodeTables] [Conversions] in
/-- A drain leaves the staging file of a row alone. -/
theorem cleanOne_staging {t : AttachmentStore} (mem : row ∈ t.hub.attachments) (kind : PathKind)
    (key : String) (fault : UnlinkFault) :
    (t.cleanOne kind key fault).2.staging row.id = t.staging row.id := by
  unfold AttachmentStore.cleanOne
  split
  · rfl
  · split
    · rfl
    · next free =>
        split
        · rfl
        · cases kind with
          | staging =>
              have hne : row.id ≠ key := by
                intro same
                exact free (List.any_eq_true.mpr ⟨row, mem, decide_eq_true same⟩)
              dsimp only
              split
              · rfl
              · exact Function.update_of_ne hne _ _
          | content =>
              dsimp only
              split <;> rfl

/-- The staging file of the upload after a step of another operation. -/
theorem step_staging (sound : RowsSound s.store.hub.attachments)
    (found : s.store.hub.attachment? teamId id = some row) (other : ¬ a.Uploads teamId id) :
    (AttachmentHost.step s a).1.store.staging row.id = s.store.staging row.id := by
  obtain ⟨mem, team, name⟩ := attachment?_names found
  unfold AttachmentHost.step
  split
  · rfl
  · cases a with
    | tick => rfl
    | call => rfl
    | declare caller token teamId fields timestamp cut =>
        dsimp only
        split
        · have spares := after_of_holds (declare_spares (fun _ => True) s.limits caller token teamId
            fields timestamp s.store s.store fun _ _ => rfl) (fun _ _ => rfl) cut
          exact spares row.id trivial
        · rfl
    | chunk call cut =>
        dsimp only
        split
        · have spares := after_of_holds (chunk_spares call s.store) (fun _ _ => rfl) cut
          change (s.chunk call cut).store.staging row.id = _
          rw [chunk_store]
          apply spares
          intro named hnamed same
          obtain ⟨namedMem, namedTeam, namedId⟩ := attachment?_names hnamed
          have this := Tables.eq_of_key sound.ids mem namedMem same
          apply other
          exact ⟨call, cut, rfl, by rw [← namedTeam, ← this, team], by rw [← namedId, ← this, name]⟩
        · rfl
    | purge team timestamp limit =>
        dsimp only
        split
        · unfold AttachmentHost.leased
          dsimp only
          split <;> rfl
        · rfl
    | cleanNext fault =>
        change (s.holding (.cleanNext fault)).store.staging row.id = _
        unfold AttachmentHost.holding
        split
        · rfl
        · rfl
        · exact cleanOne_staging mem _ _ _
        · rfl
        · rfl
        · rfl
    | _ =>
        change (s.holding _).store.staging row.id = _
        unfold AttachmentHost.holding
        split <;> first | rfl | exact cleanOne_staging mem _ _ _

/-- No failure of the upload is on record after a step of another operation. -/
theorem step_lease (lease : s.lease ≠ .failing teamId id) (other : ¬ a.Uploads teamId id) :
    (AttachmentHost.step s a).1.lease ≠ .failing teamId id := by
  unfold AttachmentHost.step
  split
  · exact lease
  · cases a with
    | tick => exact lease
    | call => exact lease
    | declare =>
        dsimp only
        split
        · exact lease
        · exact lease
    | chunk call cut =>
        dsimp only
        split
        · change (s.chunk call cut).lease ≠ _
          unfold AttachmentHost.chunk
          dsimp only
          split
          · intro same
            injection same with team name
            exact other ⟨call, _, rfl, team, name⟩
          · exact lease
        · exact lease
    | purge team timestamp limit =>
        dsimp only
        split
        · unfold AttachmentHost.leased
          dsimp only
          split
          · rintro ⟨⟩
          · exact lease
        · exact lease
    | _ =>
        change (s.holding _).lease ≠ _
        unfold AttachmentHost.holding
        split
        · rintro ⟨⟩
        · rintro ⟨⟩
        · dsimp only
          split <;> rintro ⟨⟩
        · rintro ⟨⟩
        · rintro ⟨⟩
        · exact lease

/-- The upload goes on, or is ready. -/
inductive Healthy (data : Bytes) (teamId id : String) (s : AttachmentHost) : Prop
  | ongoing (row : AttachmentRow) (found : s.store.hub.attachment? teamId id = some row)
      (ongoing : Ongoing data row) (resumes : Resumes data row s.store)
      (lease : s.lease ≠ .failing teamId id)
  | ready (row : AttachmentRow) (found : s.store.hub.attachment? teamId id = some row)
      (ready : row.state.isReady = true)

/-- The step is within the lifetime of the upload, and a chunk of its uploader brings the
right bytes. -/
structure Correct (data : Bytes) (teamId id : String) (s : AttachmentHost) (a : HostAction) :
    Prop where
  lives : ∀ row, s.store.hub.attachment? teamId id = some row →
    ∀ team timestamp limit, a = .purge team timestamp limit → timestamp < row.expiresAt
  brings : ∀ row, s.store.hub.attachment? teamId id = some row → row.state = .uploading →
    ∀ call cut, a = .chunk call cut → call.teamId = teamId → call.id = id →
      row.uploadedBy = call.caller.claims.principalId → row.isHeld call.timestamp = true ∧
        call.chunk.data <+: data.drop call.chunk.offset.toNat

/-- A correct step from which the upload can go on. -/
structure Careful (data : Bytes) (teamId id : String) (s : AttachmentHost) (a : HostAction) :
    Prop extends Correct data teamId id s a where
  /-- once the staging file is renamed away, a chunk that goes on brings all that is left -/
  whole : ∀ row, s.store.hub.attachment? teamId id = some row → Renamed row s.store →
    ∀ call cut, a = .chunk call cut → call.teamId = teamId → call.id = id →
      call.chunk.offset = row.receivedBytes → call.chunk.Completes row
  /-- no staging file is left without a committed byte -/
  stale : ∀ row, (AttachmentHost.step s a).1.store.hub.attachment? teamId id = some row →
    row.state = .uploading → ¬ Stale row (AttachmentHost.step s a).1.store
  /-- content that was published before its commit was lost stays -/
  content : ∀ row, s.store.hub.attachment? teamId id = some row → row.state = .uploading →
    Renamed row s.store →
      (AttachmentHost.step s a).1.store.content row.storageKey = s.store.content row.storageKey

omit [UnicodeTables] [Conversions] in
/-- A chunk of someone else is refused. -/
theorem meets_foreign {call : ChunkCall} {t : AttachmentStore}
    (found : t.hub.attachment? call.teamId call.id = some row)
    (owner : row.uploadedBy ≠ call.caller.claims.principalId) :
    Meets (fun _ => False)
      (writeChunk call.caller call.teamId call.id call.chunk call.timestamp)
      (fun _ _ => False) (fun e u => (∃ f, e = .raised f) ∧ u = t) t := by
  unfold writeChunk
  have passes : ∀ {α : Type} (x : Except Failure α) (v : AttachmentStore),
      v = t → Meets (fun _ => False) (raised x) (fun _ u => u = t)
        (fun e u => (∃ f, e = .raised f) ∧ u = t) v := by
    rintro α x v rfl
    exact meets_raised (fun _ _ => rfl) fun f _ => ⟨⟨f, rfl⟩, rfl⟩
  refine Meets.bind (passes _ t rfl) fun _ u hu => ?_
  refine Meets.bind (passes _ u hu) fun _ u hu => ?_
  refine Meets.bind (passes _ u hu) fun _ u hu => ?_
  subst hu
  refine Meets.bind (R := fun h v => v = u ∧ h = u.hub) (Meets.look ?_ ?_) ?_
  · rintro h ⟨⟩
    exact ⟨rfl, rfl⟩
  · rintro e ⟨⟩
  rintro h v ⟨rfl, rfl⟩
  refine Meets.bind (passes _ v rfl) fun _ w hw => ?_
  subst hw
  rw [found]
  refine Meets.bind (R := fun named x => x = w ∧ named = row) (meets_raised ?_ ?_) ?_
  · rintro named ⟨⟩
    exact ⟨rfl, rfl⟩
  · rintro f ⟨⟩
  rintro named x ⟨rfl, rfl⟩
  refine Meets.bind (R := fun _ _ => False) (meets_raised ?_ ?_) fun _ _ h => h.elim
  · intro _ same
    exact owner ((require_eq_ok _ _ _).mp same)
  · intro f _
    exact ⟨⟨f, rfl⟩, rfl⟩

theorem step_chunk (free : s.lease = .free) {call : ChunkCall} {cut : Option Nat}
    (read : call.timestamp ≤ s.clock) :
    (AttachmentHost.step s (.chunk call cut)).1 = s.chunk call cut :=
  step_leased (a := .chunk call cut) free read rfl

omit [UnicodeTables] [Conversions] in
/-- A chunk that is not recorded as a failure gives the lease back. -/
theorem chunk_lease {call : ChunkCall} (cut : Option Nat)
    (unfailed : ∀ e, ((writeChunk call.caller call.teamId call.id call.chunk call.timestamp).run
      s.store).2 ≠ .error (.uploadFailed e)) : (s.chunk call cut).lease = s.lease := by
  unfold AttachmentHost.chunk
  dsimp only
  split
  · next e failed => exact absurd failed (unfailed e)
  · rfl

omit [UnicodeTables] [Conversions] in
/-- A committed chunk leaves an upload with more bytes, or one that is ready. -/
theorem Landed.healthy {call : ChunkCall} {u : AttachmentHost}
    (landed : Landed data call row s.store u.store)
    (found : s.store.hub.attachment? teamId id = some row) (ongoing : Ongoing data row)
    (lease : u.lease ≠ .failing teamId id) : Healthy data teamId id u := by
  cases landed with
  | received more nonempty hub staging =>
      have positive := List.length_pos_iff.mpr nonempty
      refine .ongoing { row with
        receivedBytes := row.receivedBytes + call.chunk.data.length } ?_ ?_ ?_ lease
      · rw [hub]
        exact attachment?_setReceived found _
      · exact ⟨ongoing.uploading, ongoing.size, ongoing.digest, more⟩
      · refine .staged (Nat.add_pos_right _ positive) [] ?_
        rw [List.append_nil]
        exact staging
  | ready _ hub _ =>
      refine .ready (row.readied call.timestamp) ?_ rfl
      rw [hub]
      exact attachment?_readyHub found ongoing.uploading _

omit [UnicodeTables] [Conversions] in
/-- A chunk of this upload, cut off or not. -/
theorem chunk_healthy {call : ChunkCall} {cut : Option Nat}
    (found : s.store.hub.attachment? teamId id = some row) (ongoing : Ongoing data row)
    (resumes : Resumes data row s.store) (lease : s.lease ≠ .failing teamId id)
    (team : call.teamId = teamId) (name : call.id = id)
    (faithful : row.uploadedBy = call.caller.claims.principalId →
      Faithful data call row s.store)
    (stale : ∀ next, (s.chunk call cut).store.hub.attachment? teamId id = some next →
      next.state = .uploading → ¬ Stale next (s.chunk call cut).store) :
    Healthy data teamId id (s.chunk call cut) := by
  by_cases owner : row.uploadedBy = call.caller.claims.principalId
  · have meets := meets_writeChunk ongoing (faithful owner) resumes
    have unfailed : (s.chunk call cut).lease = s.lease := by
      apply chunk_lease
      intro e failed
      obtain ⟨_, raised⟩ := (meets.error failed).raised
      cases raised
    have left : LeftBehind data call row s.store (s.chunk call cut).store := by
      rw [chunk_store]
      exact after_of_holds meets.holds (.kept ⟨rfl, resumes⟩) cut
    cases left with
    | kept kept =>
        refine .ongoing row ?_ ongoing kept.resumes ?_
        · rw [kept.hub]
          exact found
        · rw [unfailed]
          exact lease
    | stale hub left =>
        refine absurd left (stale row ?_ ongoing.uploading)
        rw [hub]
        exact found
    | committed landed =>
        refine landed.healthy found ongoing ?_
        rw [unfailed]
        exact lease
  · have meets := meets_foreign (t := s.store) (by rw [team, name]; exact found) owner
    have unfailed : (s.chunk call cut).lease = s.lease := by
      apply chunk_lease
      intro e failed
      obtain ⟨_, raised⟩ := (meets.error failed).1
      cases raised
    have same : (s.chunk call cut).store = s.store := by
      rw [chunk_store]
      exact after_of_holds (I := fun t => t = s.store) (meets.holds.weaken
        (fun _ h => h.elim) fun _ _ h => h) rfl cut
    refine .ongoing row ?_ ongoing ?_ ?_
    · rw [same]
      exact found
    · rw [same]
      exact resumes
    · rw [unfailed]
      exact lease

omit [Sha256] [UnicodeTables] [Conversions] in
/-- Files that another operation left as they are. -/
theorem Resumes.still {t u : AttachmentStore} (resumes : Resumes data row t)
    (staging : u.staging row.id = t.staging row.id)
    (content : Renamed row t → u.content row.storageKey = t.content row.storageKey) :
    Resumes data row u := by
  cases resumes with
  | fresh received empty => exact .fresh received (staging.trans empty)
  | staged received rest file => exact .staged received rest (staging.trans file)
  | published empty stored =>
      rcases Nat.eq_zero_or_pos row.receivedBytes with zero | positive
      · exact .fresh zero (staging.trans empty)
      · exact .published (staging.trans empty) ((content ⟨positive, empty⟩).trans stored)

/-- One step of a careful run. -/
theorem Healthy.step (sound : RowsSound s.store.hub.attachments)
    (healthy : Healthy data teamId id s) (careful : Careful data teamId id s a) :
    Healthy data teamId id (AttachmentHost.step s a).1 := by
  cases healthy with
  | ready row found ready =>
      obtain ⟨next, there, follows⟩ := step_follows (a := a) sound found (careful.lives row found)
        (Or.inl ready)
      refine .ready next there ?_
      rcases follows with rfl | ⟨_, still⟩
      · exact ready
      · exact still
  | ongoing row found ongoing resumes lease =>
      by_cases own : a.Uploads teamId id
      · obtain ⟨call, cut, rfl, team, name⟩ := own
        by_cases late : s.clock < (HostAction.chunk call cut).timestamp
        · have same : (AttachmentHost.step s (.chunk call cut)).1 = s := by
            unfold AttachmentHost.step
            rw [if_pos late]
          rw [same]
          exact .ongoing row found ongoing resumes lease
        · cases held : s.lease with
          | free =>
              have taken : (AttachmentHost.step s (.chunk call cut)).1 = s.chunk call cut :=
                step_chunk held (Nat.le_of_not_lt late)
              have stale := careful.stale
              rw [taken] at stale ⊢
              refine chunk_healthy found ongoing resumes lease team name ?_ stale
              intro owner
              obtain ⟨held, bytes⟩ := careful.brings row found ongoing.uploading call cut rfl team
                name owner
              refine ⟨?_, held, bytes, fun renamed => careful.whole row found renamed call cut rfl
                team name⟩
              rw [team, name]
              exact found
          | _ =>
              have same : (AttachmentHost.step s (.chunk call cut)).1 = s := by
                unfold AttachmentHost.step
                rw [if_neg late, held]
              rw [same]
              exact .ongoing row found ongoing resumes lease
      · obtain ⟨next, there, follows⟩ := step_follows (a := a) sound found
          (careful.lives row found) (Or.inr ⟨lease, own⟩)
        rcases follows with rfl | ⟨ready, _⟩
        · refine .ongoing _ there ongoing ?_ (step_lease lease own)
          exact resumes.still (step_staging sound found own)
            (careful.content next found ongoing.uploading)
        · rw [ongoing.uploading] at ready
          cases ready

/-! ## Runs -/

/-- An upload goes on through every careful run. -/
theorem run_healthy (sound : RowsSound s.store.hub.attachments)
    (healthy : Healthy data teamId id s) (actions : List HostAction)
    (careful : ∀ e ∈ Runs.history AttachmentHost.step s actions,
      Careful data teamId id e.before e.action) :
    Healthy data teamId id (Runs.run AttachmentHost.step s actions) := by
  have both := Runs.run_guarded AttachmentHost.step
    (I := fun s => RowsSound s.store.hub.attachments ∧ Healthy data teamId id s)
    (G := fun e => Careful data teamId id e.before e.action)
    (fun s a h guarded => ⟨h.1.step (step_effect s a), h.2.step h.1 guarded⟩)
    s ⟨sound, healthy⟩ actions careful
  exact both.2

/-- The chunks go on from the received bytes to the end of the content. -/
def Splits (data : Bytes) : Nat → List Chunk → Prop
  | received, [] => received = data.length
  | received, chunk :: rest =>
      chunk.offset = received ∧ chunk.data <+: data.drop received ∧
        Splits data (received + chunk.data.length) rest

/-- A call of the uploader within the lifetime of the upload. -/
structure Sends (row : AttachmentRow) (clock : Nat) (call : ChunkCall) : Prop where
  team : call.teamId = row.teamId
  name : call.id = row.id
  read : call.timestamp ≤ clock
  created : row.createdAt ≤ call.timestamp
  held : row.isHeld call.timestamp = true
  scope : ∃ role, call.caller.networkScope true = .ok role
  owner : row.uploadedBy = call.caller.claims.principalId
  recorded : call.caller.recorded = .ok ()
  total : call.chunk.total = row.byteSize
  nonempty : call.chunk.data ≠ []
  fits : call.chunk.data.length ≤ attachmentChunkBytes

/-- Uninterrupted calls with the bytes that are left make the upload ready. -/
theorem sends_ready (calls : List ChunkCall) (free : s.lease = .free)
    (found : s.store.hub.attachment? teamId id = some row) (ongoing : Ongoing data row)
    (resumes : Resumes data row s.store) (sends : ∀ call ∈ calls, Sends row s.clock call)
    (splits : Splits data row.receivedBytes (calls.map ChunkCall.chunk))
    (whole : Renamed row s.store → calls.length = 1) :
    ∃ next, (Runs.run AttachmentHost.step s
        (calls.map fun call => .chunk call none)).store.hub.attachment? teamId id = some next ∧
      next.state.isReady = true := by
  have size := ongoing.size
  have received := ongoing.received
  induction calls generalizing s row with
  | nil =>
      change row.receivedBytes = data.length at splits
      omega
  | cons call rest ih =>
      obtain ⟨_, rowTeam, rowName⟩ := attachment?_names found
      obtain ⟨offset, bytes, after⟩ := splits
      have sent := sends call List.mem_cons_self
      have on : GoesOn call row :=
        ⟨sent.scope, sent.owner, sent.recorded, sent.created, offset, sent.total, sent.nonempty,
          sent.fits⟩
      have faithful : Faithful data call row s.store := by
        refine ⟨?_, sent.held, ?_, ?_⟩
        · rw [sent.team, sent.name, rowTeam, rowName]
          exact found
        · rw [offset, Int.toNat_natCast]
          exact bytes
        · intro renamed _
          have only : rest = [] := by
            have one := whole renamed
            rw [List.length_cons] at one
            exact List.length_eq_zero_iff.mp (by omega)
          rw [only] at after
          change row.receivedBytes + call.chunk.data.length = data.length at after
          exact ⟨offset, after.trans size.symm⟩
      have meets := meets_writeChunk ongoing faithful resumes
      have landed : Landed data call row s.store (s.chunk call none).store ∧
          (s.chunk call none).lease = .free := by
        cases hr : ((writeChunk call.caller call.teamId call.id call.chunk call.timestamp).run
            s.store).2 with
        | error e => exact absurd on (meets.error hr).stays
        | ok answer =>
            have unfailed : (s.chunk call none).lease = s.lease := by
              apply chunk_lease
              intro e failed
              rw [hr] at failed
              cases failed
            refine ⟨?_, unfailed.trans free⟩
            rw [chunk_store]
            cases meets.ok hr with
            | kept stays => exact absurd on stays
            | committed landed => exact landed
      have clock : (s.chunk call none).clock = s.clock := by
        unfold AttachmentHost.chunk
        dsimp only
        split <;> rfl
      rw [List.map_cons, Runs.run_cons, step_chunk free sent.read]
      cases landed.1 with
      | received more nonempty hub staging =>
          have further : Ongoing data { row with
              receivedBytes := row.receivedBytes + call.chunk.data.length } :=
            ⟨ongoing.uploading, size, ongoing.digest, more⟩
          refine ih (s := s.chunk call none) landed.2 ?_ further ?_ ?_ after ?_ size more
          · rw [hub]
            exact attachment?_setReceived found _
          · have positive := List.length_pos_iff.mpr nonempty
            refine .staged (Nat.add_pos_right _ positive) [] ?_
            rw [List.append_nil]
            exact staging
          · intro other hother
            have next := sends other (List.mem_cons_of_mem _ hother)
            rw [clock]
            exact ⟨next.team, next.name, next.read, next.created, next.held, next.scope, next.owner,
              next.recorded, next.total, next.nonempty, next.fits⟩
          · intro renamed
            have gone := renamed.staging
            rw [staging] at gone
            cases gone
      | ready last hub content =>
          have only : rest = [] := by
            cases rest with
            | nil => rfl
            | cons next rest =>
                have nothing := after.2.1.length_le
                have nonempty := List.length_pos_iff.mpr
                  (sends next (List.mem_cons_of_mem _ List.mem_cons_self)).nonempty
                rw [List.length_drop] at nothing
                omega
          rw [only, List.map_nil, Runs.run_nil, hub]
          exact ⟨_, attachment?_readyHub found ongoing.uploading _, rfl⟩

/-- An upload whose files allow it to go on is never recorded as failed, in any run whose
steps are careful with it, and from every state of the run the bytes that are left make it
ready. -/
theorem uploads_resume (limits : AttachmentLimits) (earlier later : List HostAction)
    (found : (Runs.run AttachmentHost.step (.start limits) earlier).store.hub.attachment?
      teamId id = some row)
    (ongoing : Ongoing data row)
    (resumes : Resumes data row (Runs.run AttachmentHost.step (.start limits) earlier).store)
    (lease : (Runs.run AttachmentHost.step (.start limits) earlier).lease ≠ .failing teamId id)
    (careful : ∀ e ∈ Runs.history AttachmentHost.step
        (Runs.run AttachmentHost.step (.start limits) earlier) later,
      Careful data teamId id e.before e.action) :
    let s := Runs.run AttachmentHost.step (.start limits) (earlier ++ later)
    ∃ now, s.store.hub.attachment? teamId id = some now ∧ (now.state.isReady = true ∨
      now.state = .uploading ∧ ∀ calls : List ChunkCall, s.lease = .free →
        (∀ call ∈ calls, Sends now s.clock call) →
        Splits data now.receivedBytes (calls.map ChunkCall.chunk) →
        (Renamed now s.store → calls.length = 1) →
        ∃ last, (Runs.run AttachmentHost.step s
            (calls.map fun call => .chunk call none)).store.hub.attachment? teamId id = some last ∧
          last.state.isReady = true) := by
  intro s
  have sound := (run_bytes limits earlier).rows
  have healthy := run_healthy sound (.ongoing row found ongoing resumes lease) later careful
  rw [← Runs.run_append] at healthy
  cases healthy with
  | ready now there ready => exact ⟨now, there, Or.inl ready⟩
  | ongoing now there ongoing resumes _ =>
      refine ⟨now, there, Or.inr ⟨ongoing.uploading, ?_⟩⟩
      intro calls free sends splits whole
      exact sends_ready calls free there ongoing resumes sends splits whole

end Steps

/-! ## An upload that is cut off at once -/

section OneByte

theorem run_raised_bind {α β : Type} {x : Except Failure α} {a : α} {g : α → Task ChunkError β}
    {t : AttachmentStore} (h : x = .ok a) : (raised x >>= g).run t = (g a).run t := by
  subst h
  exact run_look_bind rfl

theorem run_require_bind {β : Type} {c : Prop} [Decidable c] {e : Failure}
    {g : Unit → Task ChunkError β} {t : AttachmentStore} (h : c) :
    (raised (require c e) >>= g).run t = (g ()).run t :=
  run_raised_bind ((require_eq_ok c e ()).mpr h)

theorem run_hash_bind {β : Type} {bytes : Bytes} {g : Unit → Task ChunkError β}
    {t : AttachmentStore} : (AttachmentStore.hash bytes >>= g).run t =
      ({ t with trace := t.trace ++ [.hashed bytes] } ::
        ((g ()).run { t with trace := t.trace ++ [.hashed bytes] }).1,
      ((g ()).run { t with trace := t.trace ++ [.hashed bytes] }).2) :=
  run_act_bind rfl

theorem run_publishContent_bind {β : Type} {id key : String} {bytes : Bytes}
    {g : Unit → Task ChunkError β} {t u : AttachmentStore}
    (h : u = { t with
      staging := Function.update t.staging id none
      content := Function.update t.content key (some bytes) }) :
    (publishContent id key bytes >>= g).run t = (u :: ((g ()).run u).1, ((g ()).run u).2) := by
  subst h
  exact run_act_bind rfl

/-- The last chunk of an upload when there is nothing to replay. -/
theorem run_last_chunk [Sha256] {row : AttachmentRow} {clock : Nat} {call : ChunkCall}
    {t : AttachmentStore} (uploads : Uploads call t row) (sent : Sends row clock call)
    (positive : 1 ≤ row.byteSize) (completes : call.chunk.Completes row)
    (replay : (reconcile t.hub call.caller row call.chunk.data call.timestamp).run t =
      ([], .ok none)) :
    (writeChunk call.caller call.teamId call.id call.chunk call.timestamp).run t =
      (AttachmentStore.append t.hub call.caller row call.chunk call.timestamp).run t := by
  obtain ⟨role, scope⟩ := sent.scope
  have offset := completes.1
  have range : 0 ≤ call.chunk.offset ∧ 1 ≤ call.chunk.total := by
    rw [sent.total]
    omega
  unfold writeChunk
  rw [run_require_bind sent.nonempty, run_require_bind sent.fits, run_require_bind range]
  unfold tables
  rw [run_look_bind (f := fun s : AttachmentStore => .ok s.hub) rfl, run_raised_bind scope,
    run_raised_bind ((required_eq_ok _ _ _).mpr uploads.found), run_require_bind sent.owner,
    if_pos uploads.held, run_require_bind sent.total, uploads.uploading]
  dsimp only
  rw [if_pos (show _ ∧ _ from completes), run_still_bind replay]

attribute [local instance] lengthDigest sameCase noConversions

/-- The upload of one byte. -/
def byteRow : AttachmentRow :=
  backlogRow 0 1 0

def declareByte : HostAction :=
  .declare serverContext.caller (tokenOf 0) "t" (declareFields 0 1) 0 none

/-- The only chunk of the upload. -/
def byteChunk : ChunkCall :=
  { lateChunk with id := byteRow.id, timestamp := 0 }

/-- The host after the declaration. -/
def declaredHost : AttachmentHost :=
  Runs.run AttachmentHost.step (.start ⟨129, 129⟩) [declareByte]

theorem declaredHost_backlog : Backlog ⟨129, 129⟩ 0 1 [byteRow] declaredHost :=
  (backlog_filled (n := 0) (Nat.le_refl _) (by decide) (by decide)).declares (by decide)
    (Or.inl rfl) (by decide) (Nat.le_refl _) (by decide)

theorem byteChunk_sends : Sends byteRow 0 byteChunk :=
  ⟨rfl, rfl, Nat.le_refl 0, Nat.le_refl 0, by decide, ⟨_, rfl⟩, rfl, rfl, rfl, by decide,
    by decide⟩

theorem byteRow_ongoing : Ongoing [7] byteRow :=
  ⟨rfl, rfl, by decide, by decide⟩

theorem byteChunk_completes : byteChunk.chunk.Completes byteRow :=
  ⟨rfl, rfl⟩

theorem byteRow_found {h : Hub} (attachments : h.attachments = [byteRow]) :
    h.attachment? "t" byteRow.id = some byteRow := by
  rw [Hub.attachment?, attachments]
  exact List.find?_cons_of_pos (by decide)

theorem byteChunk_uploads {t : AttachmentStore} (attachments : t.hub.attachments = [byteRow]) :
    Uploads byteChunk t byteRow :=
  ⟨byteRow_found attachments, rfl, by decide⟩

/-- A store with a staging file for the upload. -/
def staged (t : AttachmentStore) (bytes : Bytes) : AttachmentStore :=
  { t with staging := Function.update t.staging byteRow.id (some bytes) }

/-- The first effects of the chunk: the staging file is created and written, and the
content is hashed and published. -/
theorem byteChunk_cuts {t : AttachmentStore} (attachments : t.hub.attachments = [byteRow])
    (staging : t.staging byteRow.id = none) (content : t.content byteRow.storageKey = none) :
    ∃ rest, (writeChunk byteChunk.caller byteChunk.teamId byteChunk.id byteChunk.chunk
        byteChunk.timestamp).cuts t =
      t :: staged t [] :: staged (staged t []) [7] ::
        { staged (staged t []) [7] with trace := t.trace ++ [.hashed [7]] } ::
        { t with
          staging := Function.update (staged (staged t []) [7]).staging byteRow.id none
          content := Function.update t.content byteRow.storageKey (some [7])
          trace := t.trace ++ [.hashed [7]] } :: rest := by
  have uploads := byteChunk_uploads attachments
  have whole : WholeUpload byteChunk t byteRow :=
    ⟨uploads, rfl, ⟨_, rfl⟩, rfl, rfl, rfl, rfl, by decide, rfl, staging, content⟩
  have opened : (openStaging byteRow.id byteRow.receivedBytes).run t =
      ([staged t []], .ok []) := by
    unfold openStaging
    rw [run_look_bind (f := fun s : AttachmentStore => .ok (s.staging byteRow.id)) (s := t)
      (a := none) (by rw [staging])]
    rfl
  have written : (writeAll byteRow.id [] [] [7]).run (staged t []) =
      ([staged (staged t []) [7]], .ok [7]) :=
    writeAll_run (by decide)
  have digest : Sha256.hexdigest [7] = byteRow.storageKey := byteRow_ongoing.digest
  have more : ¬ byteChunk.chunk.offset + byteChunk.chunk.data.length ≤
      (byteRow.receivedBytes : Int) := by decide
  have last : ¬ byteRow.receivedBytes + byteChunk.chunk.data.length < byteRow.byteSize := by
    decide
  have all : ([7] : Bytes).length = byteRow.byteSize := rfl
  unfold cuts
  rw [run_last_chunk uploads byteChunk_sends (by decide) byteChunk_completes
    whole.reconcile_run]
  unfold AttachmentStore.append
  dsimp only
  rw [if_neg more, run_require_bind (by decide), run_require_bind (by decide),
    run_one_bind opened]
  change ∃ rest, t :: staged t [] :: (((writeAll byteRow.id [] [] [7]) >>= _).run _).1 = _
  rw [run_one_bind written, if_neg last, if_pos all]
  unfold finish
  rw [run_hash_bind, if_pos digest, run_publishContent_bind rfl]
  exact ⟨_, rfl⟩

/-- A chunk that is cut off. -/
theorem chunk_cut {s : AttachmentHost} {call : ChunkCall} {cut : Nat} {t : AttachmentStore}
    (there : ((writeChunk call.caller call.teamId call.id call.chunk call.timestamp).cuts
      s.store)[cut]? = some t) : s.chunk call (some cut) = { s with store := t } := by
  unfold AttachmentHost.chunk AttachmentStore.after
  dsimp only
  rw [List.getD_eq_getElem?_getD, there]
  rfl

/-- The same chunk meets the file that the first one created. -/
theorem byteChunk_fails {t : AttachmentStore} (attachments : t.hub.attachments = [byteRow]) :
    ∃ failure, (writeChunk byteChunk.caller byteChunk.teamId byteChunk.id byteChunk.chunk
      byteChunk.timestamp).run (staged t []) = ([], .error (.uploadFailed failure)) := by
  have there : (staged t []).staging byteRow.id = some [] := by
    unfold staged
    simp
  have replay : (reconcile (staged t []).hub byteChunk.caller byteRow byteChunk.chunk.data
      byteChunk.timestamp).run (staged t []) = ([], .ok none) := by
    unfold reconcile
    rw [run_look_bind (f := fun s : AttachmentStore => .ok (s.staging byteRow.id))
      (s := staged t []) (a := some []) (by rw [there])]
    rfl
  have more : ¬ byteChunk.chunk.offset + byteChunk.chunk.data.length ≤
      (byteRow.receivedBytes : Int) := by decide
  have refused : ((openStaging byteRow.id byteRow.receivedBytes).run (staged t [])) =
      ([], .error (unsafeStaging "Attachment upload staging is unsafe; declare it again")) := by
    unfold openStaging
    rw [run_look_bind (f := fun s : AttachmentStore => .ok (s.staging byteRow.id))
      (s := staged t []) (a := some []) (by rw [there])]
    rfl
  have uploads : Uploads byteChunk (staged t []) byteRow := byteChunk_uploads attachments
  rw [run_last_chunk uploads byteChunk_sends (by decide) byteChunk_completes replay]
  unfold AttachmentStore.append
  dsimp only
  rw [if_neg more, run_require_bind (by decide), run_require_bind (by decide),
    bind_error (by rw [refused]), refused]
  exact ⟨_, rfl⟩

/-- The chunk dies right after it created the staging file, and is sent again. -/
def diesAtOnce : List HostAction :=
  [.chunk byteChunk (some 1), .chunk byteChunk none, .recordFailure]

/-- The steps of that run. -/
theorem diesAtOnce_steps {s : AttachmentHost} (b : Backlog ⟨129, 129⟩ 0 1 [byteRow] s) :
    (AttachmentHost.step s (.chunk byteChunk (some 1))).1 =
        { s with store := staged s.store [] } ∧
      (AttachmentHost.step { s with store := staged s.store [] } (.chunk byteChunk none)).1 =
        { s with store := staged s.store [], lease := .failing "t" byteRow.id } := by
  have free := b.free
  have read : byteChunk.timestamp ≤ s.clock := Nat.zero_le _
  obtain ⟨rest, cuts⟩ := byteChunk_cuts b.attachments (b.staging _) (b.content _)
  obtain ⟨failure, fails⟩ := byteChunk_fails b.attachments
  constructor
  · rw [step_chunk free read]
    apply chunk_cut
    rw [cuts]
    rfl
  · rw [step_chunk (s := { s with store := staged s.store [] }) free read]
    unfold AttachmentHost.chunk AttachmentStore.after final
    dsimp only
    rw [fails]
    rfl

theorem byteChunk_correct {s : AttachmentHost} {cut : Option Nat}
    (attachments : s.store.hub.attachments = [byteRow]) :
    Correct [7] "t" byteRow.id s (.chunk byteChunk cut) := by
  refine ⟨?_, ?_⟩
  · rintro row _ team timestamp limit ⟨⟩
  · rintro row there _ call cut ⟨⟩ _ _ _
    rw [byteRow_found attachments] at there
    cases there
    exact ⟨by decide, List.prefix_rfl⟩

/-- Chunks of the right bytes make an upload fail. -/
theorem not_never_fails_interrupted :
    ¬ ∀ (_ : Sha256) (_ : UnicodeTables) (_ : Conversions) (limits : AttachmentLimits)
      (earlier later : List HostAction) (data : Bytes) (teamId id : String) (row : AttachmentRow),
      (Runs.run AttachmentHost.step (.start limits) earlier).store.hub.attachment? teamId id =
        some row →
      Ongoing data row →
      Resumes data row (Runs.run AttachmentHost.step (.start limits) earlier).store →
      (Runs.run AttachmentHost.step (.start limits) earlier).lease ≠ .failing teamId id →
      (∀ e ∈ Runs.history AttachmentHost.step
        (Runs.run AttachmentHost.step (.start limits) earlier) later,
        Correct data teamId id e.before e.action) →
      ∀ now, (Runs.run AttachmentHost.step (.start limits)
          (earlier ++ later)).store.hub.attachment? teamId id = some now →
        now.state ≠ .failed := by
  intro claim
  have b := declaredHost_backlog
  obtain ⟨first, second⟩ := diesAtOnce_steps b
  have found := byteRow_found b.attachments
  have never := claim lengthDigest sameCase noConversions ⟨129, 129⟩ [declareByte] diesAtOnce [7]
    "t" byteRow.id byteRow found byteRow_ongoing (.fresh rfl (b.staging _))
    (by rw [show (Runs.run AttachmentHost.step _ [declareByte]).lease = .free from b.free]
        rintro ⟨⟩)
  have run : Runs.run AttachmentHost.step (.start ⟨129, 129⟩) ([declareByte] ++ diesAtOnce) =
      (AttachmentHost.step { declaredHost with
        store := staged declaredHost.store [], lease := .failing "t" byteRow.id }
          .recordFailure).1 := by
    rw [Runs.run_append, diesAtOnce, Runs.run_cons, Runs.run_cons, Runs.run_cons, Runs.run_nil]
    change (AttachmentHost.step (AttachmentHost.step (AttachmentHost.step declaredHost _).1 _).1
      _).1 = _
    rw [first, second]
  refine never ?_ { byteRow with state := .failed } ?_ rfl
  · intro e he
    rw [diesAtOnce, Runs.history_cons, Runs.history_cons, Runs.history_cons,
      Runs.history_nil] at he
    change e ∈ [⟨declaredHost, _, _⟩, ⟨(AttachmentHost.step declaredHost _).1, _, _⟩, _] at he
    rw [first] at he
    rcases List.mem_cons.mp he with rfl | he
    · exact byteChunk_correct b.attachments
    rcases List.mem_cons.mp he with rfl | he
    · exact byteChunk_correct b.attachments
    · rw [List.mem_singleton.mp he]
      refine ⟨?_, ?_⟩
      · rintro row _ team timestamp limit ⟨⟩
      · rintro row _ _ call cut ⟨⟩
  · rw [run]
    have attachments := b.attachments
    change ((staged declaredHost.store []).hub.markFailed "t" byteRow.id).attachment? "t"
      byteRow.id = _
    unfold Hub.markFailed Hub.attachment?
    rw [show (staged declaredHost.store []).hub.attachments = [byteRow] from attachments]
    decide

/-- The chunk died after its content was published, and goes on from there. -/
theorem uploads_resume_published :
    let s := Runs.run AttachmentHost.step (.start ⟨129, 129⟩)
      ([declareByte] ++ [.chunk byteChunk (some 4)])
    ∃ now, s.store.hub.attachment? "t" byteRow.id = some now ∧ (now.state.isReady = true ∨
      now.state = .uploading ∧ ∀ calls : List ChunkCall, s.lease = .free →
        (∀ call ∈ calls, Sends now s.clock call) →
        Splits [7] now.receivedBytes (calls.map ChunkCall.chunk) →
        (Renamed now s.store → calls.length = 1) →
        ∃ last, (Runs.run AttachmentHost.step s (calls.map fun call =>
            .chunk call none)).store.hub.attachment? "t" byteRow.id = some last ∧
          last.state.isReady = true) := by
  have b := declaredHost_backlog
  have free := b.free
  have found := byteRow_found b.attachments
  refine uploads_resume ⟨129, 129⟩ [declareByte] [.chunk byteChunk (some 4)] found byteRow_ongoing
    (.fresh rfl (b.staging _)) ?_ ?_
  · intro failing
    rw [show (Runs.run AttachmentHost.step _ [declareByte]).lease = .free from free] at failing
    cases failing
  · intro e he
    rw [Runs.history_cons, Runs.history_nil] at he
    rw [List.mem_singleton.mp he]
    change Careful [7] "t" byteRow.id declaredHost (.chunk byteChunk (some 4))
    have unstarted : ∀ row, declaredHost.store.hub.attachment? "t" byteRow.id = some row →
        ¬ Renamed row declaredHost.store := by
      intro row there renamed
      rw [found] at there
      cases there
      exact absurd renamed.received (by decide)
    refine ⟨byteChunk_correct b.attachments, ?_, ?_, ?_⟩
    · intro row there renamed
      exact absurd renamed (unstarted row there)
    · obtain ⟨rest, cuts⟩ := byteChunk_cuts b.attachments (b.staging _) (b.content _)
      have step : (AttachmentHost.step declaredHost (.chunk byteChunk (some 4))).1 =
          declaredHost.chunk byteChunk (some 4) := step_chunk free (Nat.zero_le _)
      rw [chunk_cut (by rw [cuts]; rfl)] at step
      intro row there _ stale
      rw [step] at there stale
      have same : row = byteRow := Option.some.inj (there.symm.trans found)
      rw [same] at stale
      have isSome := stale.staging
      simp at isSome
    · intro row there _ renamed
      exact absurd renamed (unstarted row there)

end OneByte

end AgentsServer.TeamHub

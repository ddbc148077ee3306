import AgentsServer.Activation.FinishSteps

/-!
# A call of finish

From every tree that interrupted calls leave behind, a call passes its checks, leaves only such
trees behind and ends well, unless the parked candidate has lost its `VERSION` while the manifest
can still be read. There it fails, and changes nothing.
-/

namespace AgentsServer.Activation

open Library Program

section FinishCalls

variable [Host] [Sha256] [FloatText] {args : Invocation} {m : Manifest} {t b u : FileTree}
  {directory : Path} {E : Failure → FileTree → Prop}

/-! ## The checks -/

omit [FloatText] in
/-- Where nothing that is in use has changed, the checks look at what they looked at. -/
theorem Separate.sameReads (apart : Separate args m t)
    (same : ∀ p, ¬ Loose args m t p → u.node p = t.node p) : SameReads args m t u := by
  have plain : ∀ p ∈ [absolute args.root, (absolute args.root).child "releases",
      absolute args.current, absolute args.previous, absolute args.env, absolute args.service],
      u.node p = t.node p :=
    fun p hp => same p (apart.reads p (List.mem_append_left _ hp))
  have release : ∀ p ∈ releasePlaces args m t, SameRelease t p u p := by
    intro p hp
    constructor
    · refine same p (apart.reads p (List.mem_append_right _ (List.mem_flatMap.mpr ⟨p, hp, ?_⟩)))
      exact List.mem_cons_self
    · refine same _ (apart.reads _ (List.mem_append_right _ (List.mem_flatMap.mpr ⟨p, hp, ?_⟩)))
      exact List.mem_cons_of_mem p List.mem_cons_self
  have linked : ∀ p target, t.node p = some (.symlink target) →
      linkTarget p target ∈ linkedPlaces t p := by
    intro p target hp
    unfold linkedPlaces
    rw [hp]
    exact List.mem_cons_self
  exact {
    root := plain _ (by simp)
    releases := plain _ (by simp)
    env := plain _ (by simp)
    service := plain _ (by simp)
    current := release _ (by simp [releasePlaces])
    currentLink := ⟨plain _ (by simp), fun target h => release _ (by
      simp [releasePlaces, linked _ target h])⟩
    previousLink := ⟨plain _ (by simp), fun target h => release _ (by
      simp [releasePlaces, linked _ target h])⟩
    old := fun old hold p hp => release p (by
      simp only [releasePlaces, List.mem_append, List.mem_flatMap]
      exact Or.inl (Or.inr ⟨old, by simp [hold], hp⟩)) }

/-- What the checks passed on at first, they pass on later. -/
theorem Terminal.valid_later (h : Terminal args m t) (apart : Separate args m t)
    (follows : Follows t u) (same : ∀ p, ¬ Loose args m t p → u.node p = t.node p)
    {place : Option Path}
    (located : locateCandidate (absolute args.root) directory m u = .ok place)
    (there : place.isSome = true ∨ m.phase = .rollbackHealthy) :
    validateRoot (absolute args.root) u = .ok () ∧
      validateReleasesRoot (absolute args.root) u =
        .ok ((absolute args.root).child "releases") ∧
      validateInvocation args m (decide (m.phase = .rollbackHealthy)) directory u = .ok () := by
  have reads := apart.sameReads same
  refine ⟨validateRoot_same h.root reads.root, validateReleasesRoot_same h.releases reads.releases,
    validateInvocation_moved h.valid follows reads ⟨place, located, ?_⟩⟩
  rw [decide_eq_true_eq]
  exact there

omit [Host] [Sha256] [FloatText] in
theorem pathExists_directory {n : Node} {p : Path} (h : u.node p = some n)
    (directory : isOwnedDirectory n = true) : pathExists u 40 p = true := by
  unfold pathExists
  rw [h]
  cases n with
  | directory => rfl
  | _ => cases directory

omit [Host] [Sha256] [FloatText] in
theorem isRemovable_parked {n : Node} (h : isRemovable u "candidate.retired" n = true) :
    isOwnedDirectory n = true := by
  unfold isRemovable at h
  rwa [if_pos rfl] at h

/-- The files that a readable manifest needs are there, and nothing else is. -/
theorem sameNames_allowed (listing : Listing)
    (entries : ∀ name n, u.node (directory.child name) = some n →
      isExpected m name = true ∧ isRemovable u name n = true)
    (swept : ∀ name, isManifestTemp name = true → u.node (directory.child name) = none)
    (backups : m.env.original.backup = "env.backup" ∧ m.service.original.backup = "service.backup")
    (read : readManifestFile (absolute args.root) directory u = .ok m) :
    sameNames (listing.names u directory) (allowedNames directory m u) = true := by
  have env := readManifestFile_backup read .env
  have service := readManifestFile_backup read .service
  rw [show (m.config .env).original.backup = "env.backup" from backups.1] at env
  rw [show (m.config .service).original.backup = "service.backup" from backups.2] at service
  unfold sameNames
  rw [Bool.and_eq_true, List.all_eq_true, List.all_eq_true]
  constructor
  · intro name hname
    obtain ⟨n, hn⟩ := Option.isSome_iff_exists.mp (Listing.mem_names.mp hname)
    obtain ⟨expected, removable⟩ := entries name n hn
    have plain : isManifestTemp name = false := by
      rw [Bool.eq_false_iff]
      intro temp
      rw [swept name temp] at hn
      cases hn
    rw [List.contains_iff_mem]
    unfold isExpected at expected
    rw [plain, Bool.false_or] at expected
    simp only [Bool.or_eq_true, Bool.and_eq_true, beq_iff_eq, decide_eq_true_eq] at expected
    unfold allowedNames
    simp only [List.mem_append]
    rcases expected with ((rfl | ⟨rfl, existed⟩) | ⟨rfl, existed⟩) | ⟨rfl, phase⟩
    · simp
    · simp [existed]
    · simp [existed]
    · have exists_parked := pathExists_directory hn (isRemovable_parked removable)
      refine Or.inr ?_
      rw [if_pos ⟨phase, exists_parked⟩]
      exact List.mem_singleton_self _
  · intro name hname
    rw [List.contains_iff_mem, Listing.mem_names]
    unfold allowedNames at hname
    simp only [List.mem_append, List.mem_cons, List.not_mem_nil, or_false] at hname
    rcases hname with ((rfl | hname) | hname) | hname
    · exact readManifestFile_manifest read
    · split at hname
      · next existed =>
          rw [List.mem_singleton.mp hname]
          exact env existed
      · cases hname
    · split at hname
      · next existed =>
          rw [List.mem_singleton.mp hname]
          exact service existed
      · cases hname
    · split at hname
      · next hparked =>
          rw [List.mem_singleton.mp hname]
          by_contra absent
          have gone : u.node (candidateParked directory) = none :=
            Option.not_isSome_iff_eq_none.mp absent
          have hexists := hparked.2
          unfold pathExists at hexists
          rw [gone] at hexists
          cases hexists
      · cases hname

/-! ## Before the last name -/

/-- A tree of a call before the directory has its last name. -/
def Pending (args : Invocation) (m : Manifest) (t u : FileTree) : Prop :=
  Ready args m t (liveDirectory args) u ∧ u.node (goneDirectory args) = none

/-- No draft of a manifest is left. -/
def NoDrafts (directory : Path) (u : FileTree) : Prop :=
  ∀ name, isManifestTemp name = true → u.node (directory.child name) = none

theorem Pending.erase (h : Pending args m t u) (apart : Separate args m t) {p : Path}
    (spare : Spare m (liveDirectory args) p) (leaf : u.Leaf p) : Pending args m t (u.erase p) := by
  refine ⟨h.1.erase apart live_isTransaction spare leaf, ?_⟩
  rw [FileTree.node_erase, h.2]
  split <;> rfl

theorem Terminal.pending (h : Terminal args m t) : Pending args m t t :=
  ⟨h.ready, h.gone⟩

omit [Host] [Sha256] [FloatText] in
/-- A private directory is one that `_read_manifest` looks into. -/
theorem read_private (h : (u.node directory).any isPrivateDirectory = true) {message : String} :
    (do
      let info ← lstat u directory
      require (isPrivateDirectory info) (.permissionError message)) = .ok () := by
  cases hnode : u.node directory with
  | none =>
      rw [hnode] at h
      cases h
  | some n =>
      rw [hnode] at h
      rw [lstat_eq_ok hnode, ok_bind, require_eq_ok]
      exact h

/-- The manifest of the live directory is read once the drafts beside it are gone. -/
theorem meets_readLive (listing : Listing) (terminal : Terminal args m t)
    (apart : Separate args m t) (h : Pending args m t u) :
    Meets (Pending args m t) (readManifestAt listing (absolute args.root) (liveDirectory args))
      (fun read v => m = read ∧ Pending args m t v ∧ NoDrafts (liveDirectory args) v) E u := by
  obtain ⟨place, located⟩ := h.1.candidate
  obtain ⟨hroot, hreleases, -⟩ :=
    terminal.valid_later apart h.1.follows h.1.same located.found located.there
  unfold readManifestAt
  refine Meets.bind (Meets.read (a := ()) (Q := fun _ v => v = u) hroot rfl) ?_
  rintro - v rfl
  refine Meets.bind (Meets.read (Q := fun _ w => w = v) hreleases rfl) ?_
  rintro - w rfl
  refine Meets.bind (Meets.read (a := ()) (Q := fun _ x => x = w) (read_private h.1.top) rfl) ?_
  rintro - x rfl
  refine Meets.bind (meets_cleanupManifestTemps listing h (fun v hv => hv.1.tree) ?_) ?_
  · intro v name n hv temp hn
    have entry := (hv.1.entries name n hn).2
    have hne : name ≠ "candidate.retired" := by
      rintro rfl
      cases temp
    unfold isRemovable at entry
    rw [if_neg hne, Bool.and_eq_true] at entry
    exact ⟨entry.2, fun leaf => hv.erase apart (Or.inr ⟨name, temp, rfl⟩) leaf⟩
  rintro - y ⟨hy, swept⟩
  exact Meets.read hy.1.manifest ⟨rfl, hy, swept⟩

theorem meets_parkCandidate (apart : Separate args m t) (h : Pending args m t u)
    (swept : NoDrafts (liveDirectory args) u) (id : isTransactionId args.transactionId = true)
    (phase : m.phase = .rollbackHealthy) :
    Meets (Pending args m t) (parkCandidate (absolute args.root) (liveDirectory args) m)
      (fun _ v => Pending args m t v ∧ NoDrafts (liveDirectory args) v ∧
        ∀ p, locateCandidate (absolute args.root) (liveDirectory args) m v = .ok (some p) →
          p = candidateParked (liveDirectory args)) E u := by
  obtain ⟨place, located⟩ := h.1.candidate
  unfold parkCandidate
  refine Meets.bind (R := fun found v => found = place ∧ v = u)
    (Meets.read located.found ⟨rfl, rfl⟩) ?_
  rintro found v ⟨hfound, hv⟩
  subst hfound hv
  cases found with
  | none =>
      refine Meets.pure ⟨h, swept, ?_⟩
      intro p hp
      rw [located.found] at hp
      cases hp
  | some home =>
      dsimp only
      split
      · next hparked =>
          refine Meets.pure ⟨h, swept, ?_⟩
          intro p hp
          rw [located.found] at hp
          cases hp
          exact hparked
      · next outside =>
          have free := (located.home home rfl phase outside).2
          refine Meets.bind (Meets.read (a := ()) (Q := fun _ w => w = v) ?_ rfl) ?_
          · rw [require_eq_ok, free]
            rfl
          rintro - w rfl
          have hnext : Pending args m t (w.move home (candidateParked (liveDirectory args))) := by
            refine ⟨h.1.park located phase outside apart, ?_⟩
            rw [h.1.park_inside located phase outside (gone_inTransaction id), h.2]
            intro below
            exact (live_apart_gone id).1 ((FileTree.prefix_child _ _).trans below)
          refine (meets_change (h.1.rename_parked located phase outside) hnext).weaken
            (fun _ h => h) ?_
          rintro - x rfl
          refine ⟨hnext, fun name temp => ?_, fun p hp => ?_⟩
          · have inside := live_inTransaction.below
              (FileTree.prefix_child (liveDirectory args) name)
            rw [h.1.park_inside located phase outside inside, swept name temp]
            apply not_below_other (List.prefix_refl _)
            rintro rfl
            cases temp
          · rw [h.1.park_found located phase outside] at hp
            cases hp
            rfl

/-! ## After the last name -/

/-- The trees that a call leaves behind. -/
def Between (args : Invocation) (m : Manifest) (t u : FileTree) : Prop :=
  Pending args m t u ∨ ∃ b, RetiredFrom args m t b u

/-- What a call that ends well leaves. -/
def Finished (args : Invocation) (t u : FileTree) : Prop :=
  u.node (liveDirectory args) = none ∧ u.node (goneDirectory args) = none ∧ Untouched args t u

theorem RetiredFrom.unloose (h : RetiredFrom args m t b u) {p : Path}
    (hp : ¬ Loose args m t p) : u.node p = t.node p :=
  (h.same p fun hin => hp (Or.inl hin)).trans (h.base.same p hp)

omit [FloatText] in
theorem Separate.untouched (apart : Separate args m t) (follows : Follows t u)
    (same : ∀ p, ¬ Loose args m t p → u.node p = t.node p) : Untouched args t u := by
  refine ⟨follows.inodes, fun p hp => same p (apart.reads p (List.mem_append_left _ ?_))⟩
  exact List.mem_cons_of_mem _ (List.mem_cons_of_mem _ hp)

theorem RetiredFrom.finished (h : RetiredFrom args m t b u) (apart : Separate args m t)
    (gone : u.node (goneDirectory args) = none) : Finished args t u :=
  ⟨h.smaller.gone h.live, gone, apart.untouched h.follows fun _ hp => h.unloose hp⟩

/-- The candidate can be looked for in what is left, unless that is stuck. -/
theorem RetiredFrom.located (h : RetiredFrom args m t b u)
    (free : ¬ Stuck args m u)
    (read : readManifestFile (absolute args.root) (goneDirectory args) u = .ok m) :
    ∃ place, locateCandidate (absolute args.root) (goneDirectory args) m u = .ok place ∧
      (place.isSome = true ∨ m.phase = .rollbackHealthy) ∧
      (m.phase = .rollbackHealthy → ∀ p, place = some p →
        p = candidateParked (goneDirectory args)) := by
  obtain ⟨place, located⟩ := h.base.candidate
  have follows := Follows.of_smaller h.smaller
  have outer : ∀ p ∈ candidatePlaces (absolute args.root) m, SameRelease b p u p := by
    intro p hp
    have under := (h.base.places p hp).1
    constructor
    · exact h.same p fun hin => releases_apart under hin (List.prefix_refl _)
    · exact h.same _ fun hin => releases_apart (under.trans (FileTree.prefix_child _ _)) hin
        (List.prefix_refl _)
  have hfound := located.found
  rw [locateCandidate_eq, firstMatch_append] at hfound
  obtain ⟨first, hfirst, hrest⟩ := (bind_eq_ok _ _ _).mp hfound
  have hfirst' := firstMatch_same hfirst follows outer
  cases first with
  | some p =>
      cases hrest
      refine ⟨some p, ?_, Or.inl rfl, ?_⟩
      · rw [locateCandidate_eq, firstMatch_append, hfirst']
        rfl
      · rintro phase q ⟨⟩
        exact h.parked phase p located.found
  | none =>
      have place_parked : ∀ matched,
          releaseMatches u (candidateParked (goneDirectory args)) m.candidateRelease =
            .ok matched →
          locateCandidate (absolute args.root) (goneDirectory args) m u =
            .ok (if matched then some (candidateParked (goneDirectory args)) else none) := by
        intro matched hmatched
        rw [locateCandidate_eq, firstMatch_append, hfirst', ok_bind, firstMatch_cons, hmatched]
        cases matched <;> rfl
      obtain ⟨matched, hmatched, hrest'⟩ := (bind_eq_ok _ _ _).mp hrest
      have phase : m.phase = .rollbackHealthy := by
        rcases located.there with there | phase
        · cases matched with
          | true =>
              obtain ⟨_, _, hnode, -⟩ :=
                isReleaseDirectory_node (isReleaseDirectory_of_matches hmatched)
              have expected := (h.base.entries "candidate.retired" _ hnode).1
              simpa [isExpected, show isManifestTemp "candidate.retired" = false from rfl]
                using expected
          | false =>
              cases hrest'
              cases there
        · exact phase
      obtain ⟨matched', hmatched'⟩ : ∃ matched',
          releaseMatches u (candidateParked (goneDirectory args)) m.candidateRelease =
            .ok matched' := by
        cases hdir : (u.node (candidateParked (goneDirectory args))).any
            (isReleaseDirectory m.candidateRelease) with
        | false => exact ⟨false, releaseMatches_other hdir⟩
        | true =>
            obtain ⟨_, _, htop, -⟩ := isReleaseDirectory_node hdir
            cases hversion : u.node ((candidateParked (goneDirectory args)).child "VERSION") with
            | none => exact absurd ⟨hdir, hversion, read⟩ free
            | some n =>
                refine ⟨matched, releaseMatches_moved hmatched follows ⟨?_, ?_⟩⟩
                · rw [htop, h.smaller.node _ _ htop]
                · rw [hversion, h.smaller.node _ _ hversion]
      refine ⟨_, place_parked matched' hmatched', Or.inr phase, ?_⟩
      intro _ p hp
      cases matched' with
      | true => exact (Option.some.inj hp).symm
      | false => cases hp

theorem RetiredFrom.entries (h : RetiredFrom args m t b u) (name : String) (n : Node)
    (hn : u.node ((goneDirectory args).child name) = some n) :
    isExpected m name = true ∧ isRemovable u name n = true := by
  obtain ⟨expected, removable⟩ := h.base.entries name n (h.smaller.node _ n hn)
  exact ⟨expected, isRemovable_follows removable (.of_smaller h.smaller) hn⟩

theorem RetiredFrom.noDrafts (h : RetiredFrom args m t b u) : NoDrafts (goneDirectory args) u :=
  fun name temp => h.smaller.gone (h.swept name temp)

/-- The last part of a call removes what is left of the directory. -/
theorem meets_cleanup (listing : Listing) (apart : Separate args m t)
    (id : isTransactionId args.transactionId = true) (h : RetiredFrom args m t b u) :
    Meets (RetiredFrom args m t b) (cleanupRetiredTransactions listing (absolute args.root))
      (fun _ v => Finished args t v) E u := by
  refine (meets_cleanupRetiredTransactions listing h).weaken (fun _ h => h) ?_
  rintro - v ⟨hv, gone⟩
  exact hv.finished apart (gone _ (isRetiredName_id id))

theorem meets_retire_retired (listing : Listing) (terminal : Terminal args m t)
    (apart : Separate args m t) (h : RetiredFrom args m t b u)
    (read : readManifestFile (absolute args.root) (goneDirectory args) u = .ok m) :
    Meets (RetiredFrom args m t b) (retireTransaction listing args (goneDirectory args) m)
      (fun _ v => Finished args t v) E u := by
  have absent : ∀ p ∈ stagedPaths m, u.node p = none :=
    fun p hp => h.smaller.gone (h.unstaged p hp)
  have follows := Follows.of_smaller h.smaller
  have staging : ∀ p ∈ stagedPaths m, u.node p = none ∨ u.node p = b.node p :=
    fun p hp => Or.inl (absent p hp)
  have still := meets_cleanupConfigStaging (I := fun v => v = u) (E := E) (m := m) rfl ?_ ?_
  · unfold retireTransaction
    refine Meets.bind (still.weaken (fun v hv => ?_) fun _ _ h => h.1) ?_
    · rw [hv]
      exact h
    rintro - v rfl
    refine Meets.bind (Meets.read (a := ()) (Q := fun _ w => w = v) ?_ rfl) ?_
    · rw [require_eq_ok]
      exact sameNames_allowed listing h.entries h.noDrafts terminal.backups read
    rintro - w rfl
    rw [if_pos (show goneDirectory args =
      retiredDirectory (absolute args.root) args.transactionId from rfl)]
    exact meets_cleanup listing apart terminal.id h
  · rintro _ rfl
    exact ⟨h.tree, h.base.staging.1.fewer follows (staging _ (by simp [stagedPaths]))
        (staging _ (by simp [stagedPaths])),
      h.base.staging.2.fewer follows (staging _ (by simp [stagedPaths]))
        (staging _ (by simp [stagedPaths]))⟩
  · rintro _ p rfl hp there -
    rw [absent p hp] at there
    cases there

theorem meets_finishFrom_retired (listing : Listing) (terminal : Terminal args m t)
    (apart : Separate args m t) (h : RetiredFrom args m t b u) (free : ¬ Stuck args m u)
    (read : readManifestFile (absolute args.root) (goneDirectory args) u = .ok m) :
    Meets (RetiredFrom args m t b) (finishFrom listing args (goneDirectory args) m)
      (fun _ v => Finished args t v) E u := by
  obtain ⟨place, located, there, parked⟩ := h.located free read
  obtain ⟨-, -, valid⟩ :=
    terminal.valid_later apart h.follows (fun _ => h.unloose) located there
  unfold finishFrom
  refine Meets.bind (Meets.read (a := ()) (Q := fun _ v => v = u) valid rfl) ?_
  rintro - v rfl
  refine Meets.bind (meets_require terminal.phase) ?_
  rintro - w rfl
  split
  · next phase =>
      refine Meets.bind (R := fun _ x => x = w) ?_ ?_
      · unfold parkCandidate
        refine Meets.bind (R := fun found x => place = found ∧ x = w)
          (Meets.read located ⟨rfl, rfl⟩) ?_
        rintro found x ⟨rfl, rfl⟩
        cases place with
        | none => exact Meets.pure rfl
        | some p =>
            dsimp only
            rw [if_pos (parked phase p rfl)]
            exact Meets.pure rfl
      rintro - x rfl
      exact meets_retire_retired listing terminal apart h read
  · exact meets_retire_retired listing terminal apart h read

/-! ## The whole call -/

theorem between_of_retired (h : RetiredFrom args m t b u) : Between args m t u :=
  Or.inr ⟨b, h⟩

/-- A candidate that is found is in the transaction directory. -/
def Parked (args : Invocation) (m : Manifest) (directory : Path) (u : FileTree) : Prop :=
  m.phase = .rollbackHealthy → ∀ p,
    locateCandidate (absolute args.root) directory m u = .ok (some p) →
      p = candidateParked directory

/-- From the live directory to the end. -/
theorem meets_retire_live (listing : Listing) (terminal : Terminal args m t)
    (apart : Separate args m t) (h : Pending args m t u)
    (swept : NoDrafts (liveDirectory args) u) (parked : Parked args m (liveDirectory args) u) :
    Meets (Between args m t) (retireTransaction listing args (liveDirectory args) m)
      (fun _ v => Finished args t v) E u := by
  have cleared := meets_cleanupConfigStaging (E := E) (m := m) (u := u)
    (I := fun v => Pending args m t v ∧ NoDrafts (liveDirectory args) v ∧
      Parked args m (liveDirectory args) v) ⟨h, swept, parked⟩ ?_ ?_
  · unfold retireTransaction
    refine Meets.bind (cleared.weaken (fun v hv => Or.inl hv.1) fun _ _ h => h) ?_
    rintro - v ⟨⟨hv, swept', parked'⟩, -, unstaged⟩
    refine Meets.bind (Meets.read (a := ()) (Q := fun _ w => w = v) ?_ rfl) ?_
    · rw [require_eq_ok]
      exact sameNames_allowed listing hv.1.entries swept' terminal.backups hv.1.manifest
    rintro - w rfl
    have hne : liveDirectory args ≠ retiredDirectory (absolute args.root) args.transactionId := by
      intro hsame
      apply (live_apart_gone terminal.id).1
      rw [hsame]
      exact List.prefix_refl _
    rw [if_neg hne]
    refine Meets.bind (Meets.read (a := ()) (Q := fun _ x => x = w) ?_ rfl) ?_
    · rw [require_eq_ok]
      exact Option.isNone_iff_eq_none.mpr hv.2
    rintro - x rfl
    have retired : RetiredFrom args m t (x.move (liveDirectory args) (goneDirectory args))
        (x.move (liveDirectory args) (goneDirectory args)) := by
      obtain ⟨hst, hts⟩ := @live_apart_gone _ args terminal.id
      exact {
        base := hv.1.retire terminal.id hv.2 apart
        swept := fun name temp =>
          (FileTree.node_move_target hst hts [name]).trans (swept' name temp)
        unstaged := fun p hp => by
          rw [FileTree.node_move_other hst hts, unstaged p hp]
          · exact fun below => (apart.staged p hp).1 (live_inTransaction.below below)
          · exact fun below => (apart.staged p hp).1 ((gone_inTransaction terminal.id).below below)
        parked := fun phase p hp => by
          by_contra hne
          obtain ⟨place, located⟩ := hv.1.candidate
          obtain ⟨place', located', back⟩ := hv.1.retire_located terminal.id hv.2 located
          have hplace : place' = some p := Except.ok.inj (located'.found.symm.trans hp)
          have before := back p hplace hne
          rw [before] at located
          -- it would stand where the live directory was
          have matched := (firstMatch_some hp).2
          have away : (x.move (liveDirectory args) (goneDirectory args)).node
              (candidateParked (liveDirectory args)) = none :=
            FileTree.node_move_source hst hts (FileTree.prefix_child _ _)
          rw [parked' phase p located.found, releaseMatches_other] at matched
          · cases matched
          · rw [away]
            rfl
        live := FileTree.node_move_source hst hts (List.prefix_refl _)
        tree := (hv.1.retire terminal.id hv.2 apart).tree
        smaller := .refl _
        same := fun _ _ => rfl }
    refine Meets.bind (meets_change (hv.1.rename_gone terminal.id hv.2) (Or.inr ⟨_, retired⟩)) ?_
    rintro - y rfl
    exact (meets_cleanup listing apart terminal.id retired).weaken (fun _ h => Or.inr ⟨_, h⟩)
      fun _ _ h => h
  · rintro v ⟨hv, -⟩
    exact ⟨hv.1.tree, hv.1.staging⟩
  · rintro v p ⟨hv, swept', parked'⟩ hp - leaf
    refine ⟨hv.erase apart (Or.inl hp) leaf, fun name temp => ?_, fun phase q hq => ?_⟩
    · exact (FileTree.Smaller.erase v p).gone (swept' name temp)
    · rw [hv.1.spare_found apart live_isTransaction (Or.inl hp)] at hq
      exact parked' phase q hq

theorem meets_finishFrom_live (listing : Listing) (terminal : Terminal args m t)
    (apart : Separate args m t) (h : Pending args m t u)
    (swept : NoDrafts (liveDirectory args) u) :
    Meets (Between args m t) (finishFrom listing args (liveDirectory args) m)
      (fun _ v => Finished args t v) E u := by
  obtain ⟨place, located⟩ := h.1.candidate
  obtain ⟨-, -, valid⟩ :=
    terminal.valid_later apart h.1.follows h.1.same located.found located.there
  unfold finishFrom
  refine Meets.bind (Meets.read (a := ()) (Q := fun _ v => v = u) valid rfl) ?_
  rintro - v rfl
  refine Meets.bind (meets_require terminal.phase) ?_
  rintro - w rfl
  split
  · next phase =>
      refine Meets.bind ((meets_parkCandidate apart h swept terminal.id phase).weaken
        (fun _ h => Or.inl h) fun _ _ h => h) ?_
      rintro - x ⟨hx, swept', parked⟩
      exact meets_retire_live listing terminal apart hx swept' fun _ => parked
  · next other =>
      exact meets_retire_live listing terminal apart h swept fun phase => absurd phase other

/-- What is left of the manifest and its backups is read, or something is missing. -/
theorem meets_readRetired (listing : Listing) (terminal : Terminal args m t)
    (apart : Separate args m t) (h : RetiredFrom args m t b u)
    (there : (u.node (goneDirectory args)).isSome = true) :
    Meets (RetiredFrom args m t b)
      (readManifestAt listing (absolute args.root) (goneDirectory args))
      (fun read v => m = read ∧ v = u ∧
        readManifestFile (absolute args.root) (goneDirectory args) u = .ok m)
      (fun e v => e = .osError .fileNotFound ∧ v = u ∧
        readManifestFile (absolute args.root) (goneDirectory args) u = .error e) u := by
  have reads := apart.sameReads fun _ => h.unloose (t := t)
  have top : (u.node (goneDirectory args)).any isPrivateDirectory = true := by
    obtain ⟨n, hn⟩ := Option.isSome_iff_exists.mp there
    have before := h.base.top
    rwa [h.smaller.node _ _ hn, ← hn] at before
  unfold readManifestAt
  refine Meets.bind (Meets.read (a := ()) (Q := fun _ v => v = u)
    (validateRoot_same terminal.root reads.root) rfl) ?_
  rintro - v rfl
  refine Meets.bind (Meets.read (Q := fun _ w => w = v)
    (validateReleasesRoot_same terminal.releases reads.releases) rfl) ?_
  rintro - w rfl
  refine Meets.bind (Meets.read (a := ()) (Q := fun _ x => x = w) (read_private top) rfl) ?_
  rintro - x rfl
  refine Meets.bind (meets_cleanupManifestTemps_none listing h h.tree h.noDrafts) ?_
  rintro - y rfl
  have fades : Fades True (.osError .fileNotFound)
      (readManifestFile (absolute args.root) (goneDirectory args) b)
      (readManifestFile (absolute args.root) (goneDirectory args) y) := by
    refine readManifestFile_fades (Follows.of_smaller h.smaller) fun name _ => ?_
    cases hnode : y.node ((goneDirectory args).child name) with
    | none => exact Or.inr ⟨trivial, rfl⟩
    | some n => exact Or.inl (h.smaller.node _ n hnode).symm
  rcases fades m h.base.manifest with found | ⟨-, lost⟩
  · exact Meets.read found ⟨rfl, rfl, found⟩
  · apply Meets.look
    · intro read hread
      rw [lost] at hread
      cases hread
    · intro e he
      rw [lost] at he
      cases he
      exact ⟨rfl, rfl, lost⟩

/-- A call that finds a retired directory. -/
theorem meets_finishRetired (listing : Listing) (terminal : Terminal args m t)
    (apart : Separate args m t) (h : RetiredFrom args m t b u) (free : ¬ Stuck args m u)
    (there : (u.node (goneDirectory args)).isSome = true) :
    Meets (RetiredFrom args m t b) (finishRetired listing args)
      (fun _ v => Finished args t v) E u := by
  unfold finishRetired
  have found := (meets_readRetired listing terminal apart h there).bind
    (f := fun m => (pure (some m) : Program FileTree Failure (Option Manifest)))
    (S := fun read v => v = u ∧ (read = none ∨ read = some m ∧
      readManifestFile (absolute args.root) (goneDirectory args) u = .ok m)) ?_
  · refine Meets.bind (found.rescue ?_) ?_
    · rintro e v ⟨rfl, rfl, -⟩
      rw [if_pos rfl]
      exact Meets.pure ⟨rfl, Or.inl rfl⟩
    rintro read v ⟨rfl, rfl | ⟨rfl, read⟩⟩
    · refine (meets_removePrivateTransactionDirectory listing h (isRetiredName_id terminal.id)
        there).weaken (fun _ h => h) ?_
      rintro - w ⟨hw, gone, -⟩
      exact hw.finished apart gone
    · exact meets_finishFrom_retired listing terminal apart h free read
  · rintro read v ⟨rfl, rfl, read⟩
    exact Meets.pure ⟨rfl, Or.inr ⟨rfl, read⟩⟩

/-- A call leaves trees behind that are between two calls, and ends well unless it is stuck. -/
theorem meets_finish (listing : Listing) (terminal : Terminal args m t)
    (apart : Separate args m t) (h : Between args m t u) (free : ¬ Stuck args m u) :
    Meets (Between args m t) (finish listing args) (fun _ v => Finished args t v) E u := by
  have safe : validateRoot (absolute args.root) u = .ok () ∧
      validateReleasesRoot (absolute args.root) u =
        .ok ((absolute args.root).child "releases") := by
    have same : ∀ p, ¬ Loose args m t p → u.node p = t.node p := by
      rcases h with h | ⟨b, h⟩
      · exact h.1.same
      · exact fun _ => h.unloose
    have reads := apart.sameReads same
    exact ⟨validateRoot_same terminal.root reads.root,
      validateReleasesRoot_same terminal.releases reads.releases⟩
  unfold finish
  refine Meets.bind (Meets.read (a := ()) (Q := fun _ v => v = u) safe.1 rfl) ?_
  rintro - v rfl
  refine Meets.bind (Meets.read (Q := fun _ w => w = v) safe.2 rfl) ?_
  rintro - w rfl
  refine Meets.bind (meets_require terminal.id) ?_
  rintro - x rfl
  refine Meets.bind (R := fun live y => y = x ∧ live = (x.node (liveDirectory args)).isSome)
    (Meets.read rfl ⟨rfl, rfl⟩) ?_
  rintro live y ⟨rfl, rfl⟩
  rcases h with h | ⟨b, h⟩
  · have live : (y.node (liveDirectory args)).isSome = true := by
      have top := h.1.top
      cases hnode : y.node (liveDirectory args) with
      | none =>
          rw [hnode] at top
          cases top
      | some n => rfl
    rw [if_pos live]
    refine Meets.bind ((meets_readLive listing terminal apart h).weaken (fun _ h => Or.inl h)
      fun _ _ h => h) ?_
    rintro _ z ⟨rfl, hz, swept⟩
    exact meets_finishFrom_live listing terminal apart hz swept
  · have gone : ¬ (y.node (liveDirectory args)).isSome = true := by
      rw [h.smaller.gone h.live]
      exact Bool.false_ne_true
    rw [if_neg gone]
    refine Meets.bind (R := fun left z => z = y ∧ left = (y.node (goneDirectory args)).isSome)
      (Meets.read rfl ⟨rfl, rfl⟩) ?_
    rintro left z ⟨rfl, rfl⟩
    split
    · next there =>
        exact (meets_finishRetired listing terminal apart h free there).weaken
          (fun _ h => Or.inr ⟨b, h⟩) fun _ _ h => h
    · next absent =>
        exact Meets.pure (h.finished apart (Option.not_isSome_iff_eq_none.mp absent))

/-- Where the parked candidate has lost its `VERSION`, it cannot be looked for. -/
theorem Stuck.not_valid (stuck : Stuck args m u) (wf : u.WellFormed)
    (places : ∀ p ∈ candidatePlaces (absolute args.root) m,
      p ≠ candidateParked (goneDirectory args)) {allow : Bool} :
    validateInvocation args m allow (goneDirectory args) u ≠ .ok () := by
  intro valid
  obtain ⟨place, found, -⟩ := validateInvocation_candidate valid
  rw [locateCandidate_eq, firstMatch_append, firstMatch_none fun p hp =>
    releaseMatches_elsewhere wf stuck.1 (places p hp), ok_bind, firstMatch_cons,
    releaseMatches_directory stuck.1] at found
  have lost : ownedRegularSha256 u ((candidateParked (goneDirectory args)).child "VERSION") =
      .error (.osError .fileNotFound) := by
    unfold ownedRegularSha256 openChecked
    rw [stuck.2.1]
    rfl
  rw [lost] at found
  cases found

/-- A call that starts where an earlier one is stuck does not end well. -/
theorem meets_finish_stuck (listing : Listing) (terminal : Terminal args m t)
    (apart : Separate args m t) (h : Between args m t u) (stuck : Stuck args m u) :
    Meets (Between args m t) (finish listing args) (fun _ _ => False) (fun _ _ => True) u := by
  have parked : (u.node (candidateParked (goneDirectory args))).isSome = true := by
    obtain ⟨_, _, hnode, -⟩ := isReleaseDirectory_node stuck.1
    rw [hnode]
    rfl
  rcases h with h | ⟨b, h⟩
  · have absent : u.node (candidateParked (goneDirectory args)) = none :=
      h.1.tree.absent h.2 (FileTree.prefix_child _ _)
    rw [absent] at parked
    cases parked
  have there := h.tree.ancestor (p := goneDirectory args) (FileTree.prefix_child _ _) parked
  have places : ∀ p ∈ candidatePlaces (absolute args.root) m,
      p ≠ candidateParked (goneDirectory args) := by
    intro p hp hsame
    refine h.base.place_apart hp ((gone_inTransaction terminal.id).below
      (FileTree.prefix_child _ "candidate.retired")) ?_
    rw [hsame]
    exact List.prefix_refl _
  unfold finish
  refine Meets.bind (R := fun _ v => v = u) (Meets.look (fun _ _ => rfl) fun _ _ => trivial) ?_
  rintro - v rfl
  refine Meets.bind (R := fun _ w => w = v) (Meets.look (fun _ _ => rfl) fun _ _ => trivial) ?_
  rintro - w rfl
  refine Meets.bind (R := fun _ x => x = w) (Meets.look (fun _ _ => rfl) fun _ _ => trivial) ?_
  rintro - x rfl
  refine Meets.bind (R := fun live y => y = x ∧ live = (x.node (liveDirectory args)).isSome)
    (Meets.read rfl ⟨rfl, rfl⟩) ?_
  rintro live y ⟨rfl, rfl⟩
  have gone : ¬ (y.node (liveDirectory args)).isSome = true := by
    rw [h.smaller.gone h.live]
    exact Bool.false_ne_true
  rw [if_neg gone]
  refine Meets.bind (R := fun left z => z = y ∧ left = (y.node (goneDirectory args)).isSome)
    (Meets.read rfl ⟨rfl, rfl⟩) ?_
  rintro left z ⟨rfl, rfl⟩
  rw [if_pos there]
  unfold finishRetired
  have found := (meets_readRetired listing terminal apart h there).bind
    (f := fun m => (pure (some m) : Program FileTree Failure (Option Manifest)))
    (S := fun read v => v = z ∧ read = some m) ?_
  · refine Meets.bind ((found.weaken (fun _ => between_of_retired) fun _ _ h => h).rescue ?_) ?_
    · rintro e v ⟨rfl, rfl, unread⟩
      rw [stuck.2.2] at unread
      cases unread
    rintro read v ⟨rfl, rfl⟩
    refine Meets.bind (R := fun _ _ => False) (Meets.look (fun a valid => ?_) fun _ _ => trivial)
      fun _ _ never => never.elim
    exact stuck.not_valid h.tree places valid
  · rintro read v ⟨rfl, rfl, -⟩
    exact Meets.pure ⟨rfl, rfl⟩

end FinishCalls

end AgentsServer.Activation

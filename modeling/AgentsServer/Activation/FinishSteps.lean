import AgentsServer.Activation.Between

/-!
# What the steps of finish do

A lemma for each part of the command. It bounds the trees that the part leaves behind and says how
it ends, from any tree on which the checks of the part pass.
-/

namespace AgentsServer.Activation

open Library Program

section Steps

variable {I : FileTree → Prop} {E : Failure → FileTree → Prop} {t u v b : FileTree}
  {directory p : Path}

theorem meets_change {f : FileTree → Except OsError FileTree} (h : f u = .ok v) (hv : I v) :
    Meets I (change f) (fun _ w => w = v) E u := by
  refine Meets.act (t := v) ?_ hv rfl
  rw [h]
  rfl

theorem meets_require {c : Prop} [Decidable c] {e : Failure} (h : c) :
    Meets I (look fun _ => require c e) (fun _ w => w = u) E u :=
  Meets.read (a := ()) ((require_eq_ok _ _ _).mpr h) rfl

theorem lstat_eq_ok {n : Node} (h : u.node p = some n) : lstat u p = .ok n := by
  unfold lstat
  rw [h]

theorem isPrivateFile_file {n : Node} (h : isPrivateFile u n = true) : ∃ id, n = .file id := by
  cases n with
  | file id => exact ⟨id, rfl⟩
  | _ => cases h

/-- A private file is removed, and nothing stood below it. -/
theorem unlink_private {n : Node} (wf : u.WellFormed) (there : u.node p = some n)
    (h : isPrivateFile u n = true) : u.unlink p = .ok (u.erase p) ∧ u.Leaf p := by
  obtain ⟨id, rfl⟩ := isPrivateFile_file h
  refine ⟨FileTree.unlink_file there ?_, wf.leaf there rfl⟩
  rintro _ _ _ ⟨⟩

/-! ## Drafts of the manifest -/

theorem meets_cleanupManifestTemps (listing : Listing) (h : I u)
    (tree : ∀ v, I v → v.WellFormed)
    (clean : ∀ v name n, I v → isManifestTemp name = true →
      v.node (directory.child name) = some n → isPrivateFile v n = true ∧
        (v.Leaf (directory.child name) → I (v.erase (directory.child name)))) :
    Meets I (cleanupManifestTemps listing directory)
      (fun _ v => I v ∧ ∀ name, isManifestTemp name = true →
        v.node (directory.child name) = none) E u := by
  unfold cleanupManifestTemps
  refine Meets.bind (R := fun names v => v = u ∧ names = listing.names u directory)
    (Meets.read rfl ⟨rfl, rfl⟩) ?_
  rintro names v ⟨rfl, rfl⟩
  have loop := Meets.each (I := I) (E := E) (s := v) (f := cleanupManifestTemp directory)
    (J := fun rest w => I w ∧ rest.Nodup ∧ ∀ name, isManifestTemp name = true →
      ((w.node (directory.child name)).isSome = true ↔ name ∈ rest)) ?_
    (listing.names v directory) ?_
  · refine loop.weaken (fun _ h => h) ?_
    rintro _ w ⟨hw, -, left⟩
    refine ⟨hw, fun name hname => ?_⟩
    exact Option.not_isSome_iff_eq_none.mp ((left name hname).not.mpr List.not_mem_nil)
  · rintro name rest w ⟨hw, nodup, left⟩
    obtain ⟨fresh, nodup'⟩ := List.nodup_cons.mp nodup
    unfold cleanupManifestTemp
    split
    · next htemp =>
        obtain ⟨n, hn⟩ := Option.isSome_iff_exists.mp ((left name htemp).mpr List.mem_cons_self)
        obtain ⟨hfile, keep⟩ := clean w name n hw htemp hn
        obtain ⟨hunlink, leaf⟩ := unlink_private (tree w hw) hn hfile
        refine Meets.bind (R := fun _ x => x = w) (Meets.read (a := ()) ?_ rfl) ?_
        · rw [lstat_eq_ok hn, ok_bind, require_eq_ok]
          exact hfile
        rintro - x rfl
        have hx := keep leaf
        refine (meets_change hunlink hx).weaken (fun _ h => h) ?_
        rintro - y rfl
        refine ⟨hx, nodup', fun other hother => ?_⟩
        rw [FileTree.node_erase]
        split
        · next hsame =>
            have hsame' : other = name := by simpa [Path.child] using hsame
            simp [hsame', fresh]
        · next hne =>
            have hne' : other ≠ name := fun h => hne (by rw [h])
            rw [left other hother]
            simp [hne']
    · next htemp =>
        refine Meets.pure ⟨hw, nodup', fun other hother => ?_⟩
        have hne : other ≠ name := by
          rintro rfl
          exact htemp hother
        rw [left other hother]
        simp [hne]
  · exact ⟨h, listing.names_nodup v directory, fun name _ => Listing.mem_names.symm⟩

/-- Where there are no drafts, nothing happens. -/
theorem meets_cleanupManifestTemps_none (listing : Listing) (h : I u) (wf : u.WellFormed)
    (none_left : ∀ name, isManifestTemp name = true → u.node (directory.child name) = none) :
    Meets I (cleanupManifestTemps listing directory) (fun _ v => v = u) E u := by
  have clean : ∀ v name n, v = u → isManifestTemp name = true →
      v.node (directory.child name) = some n → isPrivateFile v n = true ∧
        (v.Leaf (directory.child name) → v.erase (directory.child name) = u) := by
    rintro _ name n rfl htemp hn
    rw [none_left name htemp] at hn
    cases hn
  have still : Meets (fun v => v = u) (cleanupManifestTemps listing directory) _ E u :=
    meets_cleanupManifestTemps listing rfl (by rintro _ rfl; exact wf) clean
  refine still.weaken ?_ fun _ _ h => h.1
  rintro _ rfl
  exact h

end Steps

/-! ## After the last name -/

section Retired

variable [Host] [Sha256] [FloatText]

/-- A tree that has lost some entries of transaction directories since the directory of the call
got its last name in `b`. -/
structure RetiredFrom (args : Invocation) (m : Manifest) (t b u : FileTree) : Prop where
  base : Ready args m t (goneDirectory args) b
  swept : ∀ name, isManifestTemp name = true → b.node ((goneDirectory args).child name) = none
  unstaged : ∀ p ∈ stagedPaths m, b.node p = none
  parked : m.phase = .rollbackHealthy → ∀ p,
    locateCandidate (absolute args.root) (goneDirectory args) m b = .ok (some p) →
      p = candidateParked (goneDirectory args)
  live : b.node (liveDirectory args) = none
  tree : u.WellFormed
  smaller : FileTree.Smaller b u
  same : ∀ p, ¬ InTransaction (absolute args.root) p → u.node p = b.node p

variable {args : Invocation} {m : Manifest} {t b u : FileTree} {E : Failure → FileTree → Prop}
  {root directory p : Path} {name : String}

namespace RetiredFrom

theorem follows (h : RetiredFrom args m t b u) : Follows t u :=
  h.base.follows.trans (.of_smaller h.smaller)

theorem erase (h : RetiredFrom args m t b u) (hp : InTransaction (absolute args.root) p)
    (leaf : u.Leaf p) : RetiredFrom args m t b (u.erase p) :=
  { h with
    tree := h.tree.erase leaf
    smaller := h.smaller.trans (.erase u p)
    same := fun q hq => by
      rw [FileTree.node_erase, if_neg, h.same q hq]
      rintro rfl
      exact hq hp }

theorem removable (h : RetiredFrom args m t b u) (retired : isRetiredName name = true) :
    Removable u ((absolute args.root).child name) :=
  (h.base.others name retired).fewer (.of_smaller h.smaller) (fun n hn => h.smaller.node _ n hn)
    fun _ n hn => h.smaller.node _ n hn

end RetiredFrom

/-- What one entry of a directory leaves, on the way to an empty directory. -/
structure Emptying (args : Invocation) (m : Manifest) (t b u : FileTree) (directory : Path)
    (rest : List String) (v : FileTree) : Prop where
  retired : RetiredFrom args m t b v
  left : ∀ name, (v.node (directory.child name)).isSome = true ↔ name ∈ rest
  top : v.node directory = u.node directory
  outside : ∀ q, ¬ directory <+: q → v.node q = u.node q
  nodup : rest.Nodup

/-- A step that removes a child, with all that is below it, and nothing else. -/
theorem Emptying.next {v w : FileTree} {rest : List String}
    (h : Emptying args m t b u directory (name :: rest) v) (retired : RetiredFrom args m t b w)
    (removed : ∀ q, directory.child name <+: q → w.node q = none)
    (others : ∀ q, ¬ directory.child name <+: q → w.node q = v.node q) :
    Emptying args m t b u directory rest w := by
  obtain ⟨fresh, nodup⟩ := List.nodup_cons.mp h.nodup
  refine ⟨retired, fun other => ?_, ?_, fun q hq => ?_, nodup⟩
  · by_cases hsame : other = name
    · rw [hsame, removed _ (List.prefix_refl _)]
      simp [fresh]
    · rw [others _ (not_below_other (List.prefix_refl _) hsame), h.left other, List.mem_cons]
      simp [hsame]
  · rw [others, h.top]
    intro below
    have hlen := below.length_le
    simp [Path.child] at hlen
  · rw [others q fun below => hq ((FileTree.prefix_child _ name).trans below), h.outside q hq]

theorem meets_removePrivateEntry (listing : Listing) {v : FileTree} {rest : List String}
    (h : Emptying args m t b u directory (name :: rest) v)
    (dir : InTransaction (absolute args.root) directory) (removable : Removable v directory) :
    Meets (RetiredFrom args m t b) (removePrivateEntry listing directory name)
      (fun _ w => Emptying args m t b u directory rest w) E v := by
  obtain ⟨n, hn⟩ := Option.isSome_iff_exists.mp ((h.left name).mpr List.mem_cons_self)
  have hentry := removable.entries name
    (FileTree.mem_children.mpr ((h.left name).mpr List.mem_cons_self)) n hn
  have inside : ∀ q, directory.child name <+: q → InTransaction (absolute args.root) q :=
    fun q hq => (dir.below (FileTree.prefix_child _ name)).below hq
  unfold removePrivateEntry
  refine Meets.bind (R := fun info w => info = n ∧ w = v)
    (Meets.read (lstat_eq_ok hn) ⟨rfl, rfl⟩) ?_
  rintro info w ⟨rfl, rfl⟩
  unfold isRemovable at hentry
  split
  · next hname =>
      rw [if_pos hname] at hentry
      refine Meets.bind (meets_require hentry) ?_
      rintro - x rfl
      refine (meets_removeAll listing Failure.osError h.retired ?_).weaken (fun _ h => h) ?_
      · intro y q hy hq _ leaf
        exact hy.erase (inside q hq) leaf
      · rintro - y ⟨hy, removed, others, -⟩
        exact h.next hy removed others
  · next hname =>
      rw [if_neg hname] at hentry
      refine Meets.bind (Meets.read (a := ()) (Q := fun _ x => x = w)
        ((require_eq_ok _ _ _).mpr hentry) rfl) ?_
      rintro - x rfl
      rw [Bool.and_eq_true] at hentry
      obtain ⟨hunlink, leaf⟩ := unlink_private h.retired.tree hn hentry.2
      have hy := h.retired.erase (inside _ (List.prefix_refl _)) leaf
      refine (meets_change hunlink hy).weaken (fun _ h => h) ?_
      rintro - y rfl
      refine h.next hy (fun q hq => ?_) fun q hq => ?_
      · rw [FileTree.node_erase]
        split
        · rfl
        · next hne => exact leaf q hq hne
      · rw [FileTree.node_erase, if_neg]
        rintro rfl
        exact hq (List.prefix_refl _)

/-- The directory goes, with everything in it. -/
theorem meets_removePrivateTransactionDirectory (listing : Listing)
    (h : RetiredFrom args m t b u) (retired : isRetiredName name = true)
    (there : (u.node ((absolute args.root).child name)).isSome = true) :
    Meets (RetiredFrom args m t b)
      (removePrivateTransactionDirectory listing ((absolute args.root).child name))
      (fun _ v => RetiredFrom args m t b v ∧ v.node ((absolute args.root).child name) = none ∧
        ∀ q, ¬ (absolute args.root).child name <+: q → v.node q = u.node q) E u := by
  have dir : InTransaction (absolute args.root) ((absolute args.root).child name) :=
    InTransaction.child (isTransactionName_retired retired)
  obtain ⟨n, hn⟩ := Option.isSome_iff_exists.mp there
  have hprivate := (h.removable retired).top n hn
  unfold removePrivateTransactionDirectory
  refine Meets.bind (R := fun _ v => v = u) (Meets.read (a := ()) ?_ rfl) ?_
  · rw [lstat_eq_ok hn, ok_bind, require_eq_ok]
    exact hprivate
  rintro - v rfl
  refine Meets.bind (R := fun names w => w = v ∧
    names = listing.names v ((absolute args.root).child name)) (Meets.read rfl ⟨rfl, rfl⟩) ?_
  rintro names w ⟨rfl, rfl⟩
  have loop := Meets.each (I := RetiredFrom args m t b) (E := E) (s := w)
    (f := removePrivateEntry listing ((absolute args.root).child name))
    (J := Emptying args m t b w ((absolute args.root).child name))
    (fun entry rest x hx => meets_removePrivateEntry listing hx dir (hx.retired.removable retired))
    (listing.names w ((absolute args.root).child name))
    ⟨h, fun _ => Listing.mem_names.symm, rfl, fun _ _ => rfl, listing.names_nodup w _⟩
  refine Meets.bind loop ?_
  rintro - x hx
  have leaf : x.Leaf ((absolute args.root).child name) := by
    intro q below other
    by_contra hq
    obtain ⟨entry, hentry⟩ := FileTree.child_below below other
    have above := hx.retired.tree.ancestor hentry (Option.isSome_iff_ne_none.mpr hq)
    exact List.not_mem_nil ((hx.left entry).mp above)
  have hnx : x.node ((absolute args.root).child name) = some n := hx.top.trans hn
  cases n with
  | directory id owned mode =>
      have hy := hx.retired.erase dir leaf
      refine (meets_change (FileTree.rmdir_leaf hnx leaf) hy).weaken (fun _ h => h) ?_
      rintro - y rfl
      refine ⟨hy, ?_, fun q hq => ?_⟩
      · rw [FileTree.node_erase, if_pos rfl]
      · rw [FileTree.node_erase, if_neg, hx.outside q hq]
        rintro rfl
        exact hq (List.prefix_refl _)
  | _ => cases hprivate

/-- No retired directory is left, nor a draft of one. -/
theorem meets_cleanupRetiredTransactions (listing : Listing) (h : RetiredFrom args m t b u) :
    Meets (RetiredFrom args m t b) (cleanupRetiredTransactions listing (absolute args.root))
      (fun _ v => RetiredFrom args m t b v ∧ ∀ name, isRetiredName name = true →
        v.node ((absolute args.root).child name) = none) E u := by
  unfold cleanupRetiredTransactions
  refine Meets.bind (R := fun names v => v = u ∧ names = listing.names u (absolute args.root))
    (Meets.read rfl ⟨rfl, rfl⟩) ?_
  rintro names v ⟨rfl, rfl⟩
  have loop := Meets.each (I := RetiredFrom args m t b) (E := E) (s := v)
    (f := cleanupRetiredTransaction listing (absolute args.root))
    (J := fun rest w => RetiredFrom args m t b w ∧ rest.Nodup ∧ ∀ name, isRetiredName name = true →
      ((w.node ((absolute args.root).child name)).isSome = true ↔ name ∈ rest)) ?_
    (listing.names v (absolute args.root)) ?_
  · refine loop.weaken (fun _ h => h) ?_
    rintro _ w ⟨hw, -, left⟩
    refine ⟨hw, fun name hname => ?_⟩
    exact Option.not_isSome_iff_eq_none.mp ((left name hname).not.mpr List.not_mem_nil)
  · rintro name rest w ⟨hw, nodup, left⟩
    obtain ⟨fresh, nodup'⟩ := List.nodup_cons.mp nodup
    unfold cleanupRetiredTransaction
    split
    · next hname =>
        refine (meets_removePrivateTransactionDirectory listing hw hname
          ((left name hname).mpr List.mem_cons_self)).weaken (fun _ h => h) ?_
        rintro - x ⟨hx, gone, outside⟩
        refine ⟨hx, nodup', fun other hother => ?_⟩
        by_cases hsame : other = name
        · rw [hsame, gone]
          simp [fresh]
        · rw [outside _ (not_below_other (List.prefix_refl _) hsame), left other hother,
            List.mem_cons]
          simp [hsame]
    · next hname =>
        refine Meets.pure ⟨hw, nodup', fun other hother => ?_⟩
        have hne : other ≠ name := by
          rintro rfl
          exact hname hother
        rw [left other hother]
        simp [hne]
  · exact ⟨h, listing.names_nodup v _, fun name _ => Listing.mem_names.symm⟩

end Retired

/-! ## Staged configurations -/

section Staging

variable [Host] [Sha256] {I : FileTree → Prop} {E : Failure → FileTree → Prop} {u : FileTree}
  {record : ConfigRecord} {transactionId : String} {kind : Kind}

omit [Sha256] in
theorem stagingPaths_ne (record : ConfigRecord) (transactionId : String) (kind : Kind) :
    (stagingPaths record transactionId kind).1 ≠ (stagingPaths record transactionId kind).2 := by
  intro hsame
  unfold stagingPaths configStagingPaths Path.child at hsame
  dsimp only at hsame
  have names := List.cons.inj (List.append_cancel_left hsame)
  have texts := congrArg String.toList names.1
  simp only [String.toList_append] at texts
  have ends := List.append_cancel_left texts
  exact absurd ends (by decide)

omit [Host] [Sha256] in
/-- A file that was seen is removed. -/
theorem meets_unlinkStaged {p : Path} {id : FileId} (wf : u.WellFormed)
    (there : u.node p = some (.file id)) (keep : u.Leaf p → I (u.erase p)) :
    Meets I (change fun t => t.unlink p) (fun _ v => I v ∧ v = u.erase p) E u := by
  have hunlink : u.unlink p = .ok (u.erase p) := by
    refine FileTree.unlink_file there ?_
    rintro _ _ _ ⟨⟩
  have hI := keep (wf.leaf there rfl)
  refine (meets_change hunlink hI).weaken (fun _ h => h) ?_
  rintro - v rfl
  exact ⟨hI, rfl⟩

theorem meets_cleanupStaging (h : I u)
    (clean : ∀ v, I v → v.WellFormed ∧ Cleanable v record transactionId kind)
    (keep : ∀ v p, I v → p = (stagingPaths record transactionId kind).1 ∨
      p = (stagingPaths record transactionId kind).2 → (v.node p).isSome = true → v.Leaf p →
        I (v.erase p)) :
    Meets I (cleanupStaging record transactionId kind)
      (fun _ v => I v ∧ FileTree.Smaller u v ∧
        v.node (stagingPaths record transactionId kind).1 = none ∧
        v.node (stagingPaths record transactionId kind).2 = none) E u := by
  obtain ⟨wf, staged, draft, hstaged, hdraft, hsource, hsecured⟩ := clean u h
  have hne := stagingPaths_ne record transactionId kind
  unfold cleanupStaging
  generalize stagingPaths record transactionId kind = paths at *
  obtain ⟨source, secured⟩ := paths
  dsimp only at *
  refine Meets.bind (R := fun read v => staged = read ∧ u = v) (Meets.read hstaged ⟨rfl, rfl⟩) ?_
  rintro _ _ ⟨rfl, rfl⟩
  have first : Meets I (removeSource record.desired staged source)
      (fun _ v => I v ∧ FileTree.Smaller u v ∧ v.node source = none ∧
        v.node secured = u.node secured) E u := by
    unfold removeSource
    refine Meets.bind (R := fun read v => draft = read ∧ u = v) (Meets.read hdraft ⟨rfl, rfl⟩) ?_
    rintro _ _ ⟨rfl, rfl⟩
    cases draft with
    | none => exact Meets.pure ⟨h, .refl u, stagedIfPresent_absent hdraft, rfl⟩
    | some draft =>
        have there := (stagedIfPresent_some hdraft).2
        refine Meets.bind (Meets.read (a := ()) (Q := fun _ v => v = u)
          (hsource draft rfl) rfl) ?_
        rintro - v rfl
        refine (meets_unlinkStaged wf there
          (keep v source h (Or.inl rfl) (by rw [there]; rfl))).weaken (fun _ h => h) ?_
        rintro - w ⟨hw, rfl⟩
        refine ⟨hw, .erase v source, ?_, ?_⟩
        · rw [FileTree.node_erase, if_pos rfl]
        · rw [FileTree.node_erase, if_neg hne.symm]
  refine Meets.bind first ?_
  rintro - v ⟨hv, smaller, gone, same⟩
  cases staged with
  | none => exact Meets.pure ⟨hv, smaller, gone, same.trans (stagedIfPresent_absent hstaged)⟩
  | some staged =>
      have there := same.trans (stagedIfPresent_some hstaged).2
      unfold removeSecured
      refine Meets.bind (meets_require (hsecured staged rfl)) ?_
      rintro - w rfl
      refine (meets_unlinkStaged (clean w hv).1 there
        (keep w secured hv (Or.inr rfl) (by rw [there]; rfl))).weaken (fun _ h => h) ?_
      rintro - x ⟨hx, rfl⟩
      refine ⟨hx, smaller.trans (.erase w secured), ?_, ?_⟩
      · rw [FileTree.node_erase, if_neg hne, gone]
      · rw [FileTree.node_erase, if_pos rfl]

/-- All staged files of the transaction go. -/
theorem meets_cleanupConfigStaging {m : Manifest} (h : I u)
    (clean : ∀ v, I v → v.WellFormed ∧ Cleanable v m.env m.transactionId .env ∧
      Cleanable v m.service m.transactionId .service)
    (keep : ∀ v p, I v → p ∈ stagedPaths m → (v.node p).isSome = true → v.Leaf p →
      I (v.erase p)) :
    Meets I (cleanupConfigStaging m) (fun _ v => I v ∧ FileTree.Smaller u v ∧
      ∀ p ∈ stagedPaths m, v.node p = none) E u := by
  unfold cleanupConfigStaging
  refine Meets.bind (meets_cleanupStaging h (fun v hv => ⟨(clean v hv).1, (clean v hv).2.1⟩)
    fun v p hv hp => keep v p hv ?_) ?_
  · rcases hp with rfl | rfl <;> simp [stagedPaths]
  rintro - v ⟨hv, smaller, envSource, envSecured⟩
  refine (meets_cleanupStaging hv (fun v hv => ⟨(clean v hv).1, (clean v hv).2.2⟩)
    fun v p hv hp => keep v p hv ?_).weaken (fun _ h => h) ?_
  · rcases hp with rfl | rfl <;> simp [stagedPaths]
  rintro - w ⟨hw, smaller', serviceSource, serviceSecured⟩
  refine ⟨hw, smaller.trans smaller', fun p hp => ?_⟩
  simp only [stagedPaths, List.mem_cons, List.not_mem_nil, or_false] at hp
  rcases hp with rfl | rfl | rfl | rfl
  · exact smaller'.gone envSource
  · exact smaller'.gone envSecured
  · exact serviceSource
  · exact serviceSecured

end Staging

end AgentsServer.Activation

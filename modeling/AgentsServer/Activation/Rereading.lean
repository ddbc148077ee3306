import AgentsServer.Activation.Publication
import AgentsServer.Activation.Retirement

/-!
# Reading again

What a later tree gives to the readers of an earlier one. The tree has the same files, none of
them under more names, and the entries that a reader looks at are the same, though a directory may
stand at another place.
-/

namespace AgentsServer.Activation

open Library Program

/-- The files are those of an earlier tree, none of them under more names. -/
structure Follows (t u : FileTree) : Prop where
  inodes : u.inodes = t.inodes
  nlink_le : ∀ id, u.nlink id ≤ t.nlink id

namespace Follows

variable {t u v : FileTree}

theorem refl (t : FileTree) : Follows t t :=
  ⟨rfl, fun _ => Nat.le_refl _⟩

theorem trans (h : Follows t u) (h' : Follows u v) : Follows t v :=
  ⟨h'.inodes.trans h.inodes, fun id => (h'.nlink_le id).trans (h.nlink_le id)⟩

theorem of_smaller (h : FileTree.Smaller t u) : Follows t u :=
  ⟨h.inodes, h.nlink_le⟩

theorem nlink_one (h : Follows t u) {p : Path} {id : FileId} (one : t.nlink id = 1)
    (there : u.node p = some (.file id)) : u.nlink id = 1 := by
  have hle := h.nlink_le id
  have hpos := FileTree.nlink_pos there
  omega

end Follows

section Rereading

variable {t u : FileTree} {p q : Path}

/-! ## Files -/

section Files

variable [Host] [Sha256] {id : FileId} {i : Inode} {maximum : Nat}

omit [Sha256] in
theorem openChecked_moved {access : Nat} {allowed allowed' : FileId → Inode → Bool}
    {message : String} (h : openChecked t p access allowed message = .ok (id, i))
    (follows : Follows t u) (node : u.node q = t.node p)
    (keep : allowed id i = true → allowed' id i = true) :
    openChecked u q access allowed' message = .ok (id, i) := by
  obtain ⟨hnode, hi⟩ := openChecked_eq_ok h
  unfold openChecked at h ⊢
  rw [node, hnode]
  rw [hnode] at h
  simp only [bind_eq_ok, require_eq_ok, pure_eq_ok, Prod.mk.injEq, true_and, exists_const] at h ⊢
  rw [follows.inodes]
  obtain ⟨haccess, ⟨howned, hallowed⟩, hsame⟩ := h
  refine ⟨haccess, ⟨howned, ?_⟩, hsame⟩
  rw [hsame] at hallowed ⊢
  exact keep hallowed

omit [Host] [Sha256] in
theorem isPlain_moved (follows : Follows t u) (there : u.node q = some (.file id))
    (h : isPlain t maximum id i = true) : isPlain u maximum id i = true := by
  unfold isPlain at h ⊢
  simp only [Bool.and_eq_true, decide_eq_true_eq] at h ⊢
  exact ⟨⟨follows.nlink_one h.1.1 there, h.1.2⟩, h.2⟩

omit [Sha256] in
theorem readOwnedRegular_moved {payload : Bytes}
    (h : readOwnedRegular t p maximum = .ok payload) (follows : Follows t u)
    (node : u.node q = t.node p) : readOwnedRegular u q maximum = .ok payload := by
  unfold readOwnedRegular at h ⊢
  simp only [bind_eq_ok, pure_eq_ok, Prod.exists] at h ⊢
  obtain ⟨id, i, hopen, hpayload⟩ := h
  have there := node.trans (openChecked_eq_ok hopen).1
  exact ⟨id, i, openChecked_moved hopen follows node (isPlain_moved follows there), hpayload⟩

theorem ownedRegularSha256_moved {digest : String} (h : ownedRegularSha256 t p = .ok digest)
    (follows : Follows t u) (node : u.node q = t.node p) :
    ownedRegularSha256 u q = .ok digest := by
  unfold ownedRegularSha256 at h ⊢
  simp only [bind_eq_ok, pure_eq_ok, Prod.exists] at h ⊢
  obtain ⟨id, i, hopen, hdigest⟩ := h
  have there := node.trans (openChecked_eq_ok hopen).1
  refine ⟨id, i, openChecked_moved hopen follows node ?_, hdigest⟩
  intro hallowed
  rw [Bool.and_eq_true] at hallowed ⊢
  exact ⟨isPlain_moved follows there hallowed.1, hallowed.2⟩

omit [Sha256] in
theorem readPrivate_moved {payload : Bytes} (h : readPrivate t p maximum = .ok payload)
    (follows : Follows t u) (node : u.node q = t.node p) :
    readPrivate u q maximum = .ok payload := by
  unfold readPrivate at h ⊢
  simp only [bind_eq_ok, pure_eq_ok, Prod.exists] at h ⊢
  obtain ⟨id, i, hopen, hpayload⟩ := h
  have there := node.trans (openChecked_eq_ok hopen).1
  refine ⟨id, i, openChecked_moved hopen follows node ?_, hpayload⟩
  intro hallowed
  simp only [Bool.and_eq_true, beq_iff_eq] at hallowed ⊢
  exact ⟨⟨follows.nlink_one hallowed.1.1 there, hallowed.1.2⟩, hallowed.2⟩

theorem stagedConfigMetadata_same {staged : Metadata × FileId}
    (h : stagedConfigMetadata t p = .ok staged) (follows : Follows t u)
    (node : u.node p = t.node p) : stagedConfigMetadata u p = .ok staged := by
  unfold stagedConfigMetadata at h ⊢
  simp only [bind_eq_ok, pure_eq_ok, Prod.exists] at h ⊢
  obtain ⟨id, i, hopen, hstaged⟩ := h
  have there := node.trans (openChecked_eq_ok hopen).1
  refine ⟨id, i, openChecked_moved hopen follows node ?_, hstaged⟩
  intro hallowed
  simp only [Bool.and_eq_true, decide_eq_true_eq] at hallowed ⊢
  have hle := follows.nlink_le id
  have hpos := FileTree.nlink_pos there
  refine ⟨⟨?_, hallowed.1.2⟩, hallowed.2⟩
  omega

theorem currentConfigMetadata_same {metadata : Option Metadata}
    (h : currentConfigMetadata t p = .ok metadata) (follows : Follows t u)
    (node : u.node p = t.node p) : currentConfigMetadata u p = .ok metadata := by
  unfold currentConfigMetadata at h ⊢
  rw [node]
  cases hnode : t.node p with
  | none =>
      rw [hnode] at h
      exact h
  | some info =>
      rw [hnode] at h
      simp only [bind_eq_ok, pure_eq_ok] at h ⊢
      obtain ⟨payload, hpayload, hmetadata⟩ := h
      refine ⟨payload, readOwnedRegular_moved hpayload follows node, ?_⟩
      rw [← hmetadata]
      unfold modeOf
      rw [follows.inodes]

theorem configPathMatchesDesired_same {desired : Desired} {b : Bool}
    (h : configPathMatchesDesired t p desired = .ok b) (follows : Follows t u)
    (node : u.node p = t.node p) : configPathMatchesDesired u p desired = .ok b := by
  unfold configPathMatchesDesired at h ⊢
  rw [node]
  cases hnode : t.node p with
  | none =>
      rw [hnode] at h
      exact h
  | some info =>
      rw [hnode] at h
      dsimp only at h ⊢
      split
      · next hfile =>
          rw [if_pos hfile] at h
          simp only [bind_eq_ok, pure_eq_ok] at h ⊢
          obtain ⟨metadata, hmetadata, hb⟩ := h
          exact ⟨metadata, currentConfigMetadata_same hmetadata follows node, hb⟩
      · next hother =>
          rw [if_neg hother] at h
          exact h

end Files

/-! ## Releases and links -/

/-- A release directory that stands at another place, or still where it was. -/
structure SameRelease (t : FileTree) (p : Path) (u : FileTree) (q : Path) : Prop where
  top : u.node q = t.node p
  version : u.node (q.child "VERSION") = t.node (p.child "VERSION")

section Releases

variable [Host] [Sha256] {release : Release} {b : Bool}

theorem releaseMatches_moved (h : releaseMatches t p release = .ok b) (follows : Follows t u)
    (same : SameRelease t p u q) : releaseMatches u q release = .ok b := by
  unfold releaseMatches at h ⊢
  rw [same.top]
  split
  · next hnode =>
      rw [hnode] at h
      dsimp only at h ⊢
      split
      · next hidentity =>
          rw [if_pos hidentity] at h
          simp only [bind_eq_ok, pure_eq_ok] at h ⊢
          obtain ⟨digest, hdigest, hb⟩ := h
          exact ⟨digest, ownedRegularSha256_moved hdigest follows same.version, hb⟩
      · next hother =>
          rw [if_neg hother] at h
          exact h
  · next hnode =>
      split at h
      · next id owned mode hdirectory => exact absurd hdirectory (hnode id owned mode)
      · exact h

theorem firstMatch_same {places : List Path} {found : Option Path}
    (h : firstMatch t release places = .ok found) (follows : Follows t u)
    (same : ∀ p ∈ places, SameRelease t p u p) : firstMatch u release places = .ok found := by
  induction places with
  | nil => exact h
  | cons p rest ih =>
      unfold firstMatch at h ⊢
      obtain ⟨matched, hmatched, h⟩ := (bind_eq_ok _ _ _).mp h
      have hmatched' := releaseMatches_moved hmatched follows (same p List.mem_cons_self)
      rw [hmatched', ok_bind]
      cases matched with
      | true => exact h
      | false => exact ih h fun q hq => same q (List.mem_cons_of_mem p hq)

omit [Host] [Sha256] in
theorem linkState_same (allowDirectory : Bool) (node : u.node p = t.node p) :
    linkState u p allowDirectory = linkState t p allowDirectory := by
  unfold linkState
  rw [node]

/-- The link is the same and leads to the same release. -/
structure SameLink (t u : FileTree) (p : Path) : Prop where
  link : u.node p = t.node p
  place : ∀ target, t.node p = some (.symlink target) →
    SameRelease t (linkTarget p target) u (linkTarget p target)

theorem linkPointsTo_same (h : linkPointsTo t p release = .ok b) (follows : Follows t u)
    (same : SameLink t u p) : linkPointsTo u p release = .ok b := by
  unfold linkPointsTo at h ⊢
  rw [same.link]
  split
  · next target hnode =>
      rw [hnode] at h
      exact releaseMatches_moved h follows (same.place target hnode)
  · next hnode =>
      split at h
      · next target hlink => exact absurd hlink (hnode target)
      · exact h

omit [Host] [Sha256] in
theorem onlyIf_same {c : Prop} [Decidable c] {x y : Except Failure Bool}
    (h : onlyIf c x = .ok b) (keep : c → x = .ok b → y = .ok b) : onlyIf c y = .ok b := by
  unfold onlyIf at h ⊢
  split
  · next hc =>
      rw [if_pos hc] at h
      exact keep hc h
  · next hc =>
      rw [if_neg hc] at h
      exact h

omit [Host] [Sha256] in
/-- A symbolic link that is read is read as its text. -/
theorem linkState_symlink {allowDirectory : Bool} {state : LinkState}
    (h : linkState t p allowDirectory = .ok state) (kind : state.kind = .symlink) :
    t.node p = some (.symlink state.target) := by
  unfold linkState at h
  split at h
  · cases h
    cases kind
  · next text hnode =>
      simp only [bind_eq_ok, pure_eq_ok] at h
      obtain ⟨target, htarget, rfl⟩ := h
      rw [(safeText_eq_ok.mp htarget).1] at hnode
      exact hnode
  · split at h
    · cases h
      cases kind
    · cases h
  · cases h

end Releases

/-! ## The checks of a call -/

/-- What the checks of a call look at outside the transaction directory is the same. -/
structure SameReads [Host] (args : Invocation) (m : Manifest) (t u : FileTree) : Prop where
  root : u.node (absolute args.root) = t.node (absolute args.root)
  releases : u.node ((absolute args.root).child "releases") =
    t.node ((absolute args.root).child "releases")
  env : u.node (absolute args.env) = t.node (absolute args.env)
  service : u.node (absolute args.service) = t.node (absolute args.service)
  current : SameRelease t (absolute args.current) u (absolute args.current)
  currentLink : SameLink t u (absolute args.current)
  previousLink : SameLink t u (absolute args.previous)
  old : ∀ old, m.oldRelease = some old →
    ∀ p ∈ [absolute old.source, absolute old.target], SameRelease t p u p

section Checks

variable [Host] [Sha256] {args : Invocation} {m : Manifest} {allow : Bool}
  {root directory directory' : Path}

omit [Host] [Sha256] in
theorem validateRoot_same (h : validateRoot root t = .ok ()) (node : u.node root = t.node root) :
    validateRoot root u = .ok () := by
  unfold validateRoot lstat at h ⊢
  rw [node]
  exact h

omit [Host] [Sha256] in
theorem validateReleasesRoot_same (h : validateReleasesRoot root t = .ok (root.child "releases"))
    (node : u.node (root.child "releases") = t.node (root.child "releases")) :
    validateReleasesRoot root u = .ok (root.child "releases") := by
  unfold validateReleasesRoot lstat at h ⊢
  dsimp only at h ⊢
  rw [node]
  exact h

theorem validateReleases_moved (h : validateReleases root directory m allow t = .ok ())
    (follows : Follows t u)
    (old : ∀ old, m.oldRelease = some old →
      ∀ p ∈ [absolute old.source, absolute old.target], SameRelease t p u p)
    (candidate : ∃ place, locateCandidate root directory' m u = .ok place ∧
      (place.isSome = true ∨ allow = true)) :
    validateReleases root directory' m allow u = .ok () := by
  obtain ⟨place, hplace, hfound⟩ := candidate
  have last : (do
      let place ← locateCandidate root directory' m u
      require (place.isSome ∨ allow)
        (.runtimeError "activation candidate release identity changed")) = .ok () := by
    rw [hplace, ok_bind, require_eq_ok]
    exact hfound
  unfold validateReleases at h ⊢
  cases hold : m.oldRelease with
  | none => exact last
  | some old' =>
      rw [hold] at h
      dsimp only at h ⊢
      simp only [bind_eq_ok, require_eq_ok] at h
      obtain ⟨place', hplace', -, hthere, -⟩ := h
      have hplace'' : locateRelease u old' [] = .ok place' :=
        firstMatch_same hplace' follows (old old' hold)
      rw [hplace'', ok_bind, require_bind hthere]
      exact last

theorem pointsToOld_same {state : LinkState} {b : Bool}
    (h : pointsToOld t p state m = .ok b) (follows : Follows t u)
    (link : SameLink t u p) (top : SameRelease t p u p) : pointsToOld u p state m = .ok b := by
  unfold pointsToOld at h ⊢
  cases hold : m.oldRelease with
  | none =>
      rw [hold] at h
      exact h
  | some old =>
      rw [hold] at h
      refine onlyIf_same h fun _ h => ?_
      cases hkind : m.current.kind with
      | symlink =>
          rw [hkind] at h
          exact linkPointsTo_same h follows link
      | directory =>
          rw [hkind] at h
          exact releaseMatches_moved h follows top
      | missing =>
          rw [hkind] at h
          exact h

theorem validateCurrent_same (h : validateCurrent p m allow t = .ok ()) (follows : Follows t u)
    (link : SameLink t u p) (top : SameRelease t p u p) : validateCurrent p m allow u = .ok () := by
  unfold validateCurrent at h ⊢
  simp only [bind_eq_ok] at h ⊢
  obtain ⟨state, hstate, toCandidate, hcandidate, toOld, hold, h⟩ := h
  have missing : (decide (state = ({ kind := .symlink, target := m.releaseDir } : LinkState)) &&
      (u.node (linkTarget p state.target)).isNone) =
      (decide (state = ({ kind := .symlink, target := m.releaseDir } : LinkState)) &&
        (t.node (linkTarget p state.target)).isNone) := by
    by_cases same : state = { kind := .symlink, target := m.releaseDir }
    · have hlink := linkState_symlink hstate (congrArg LinkState.kind same)
      rw [(link.place state.target hlink).top]
    · rw [decide_eq_false same]
      rfl
  refine ⟨state, (linkState_same true link.link).trans hstate, toCandidate,
    onlyIf_same hcandidate fun _ h => linkPointsTo_same h follows link, toOld,
    pointsToOld_same hold follows link top, ?_⟩
  rw [missing]
  exact h

theorem validatePrevious_same (h : validatePrevious p m t = .ok ()) (follows : Follows t u)
    (link : SameLink t u p)
    (old : ∀ old, m.oldRelease = some old →
      ∀ p ∈ [absolute old.source, absolute old.target], SameRelease t p u p) :
    validatePrevious p m u = .ok () := by
  unfold validatePrevious at h ⊢
  generalize hc : (if m.oldTarget = "" then none else
    some ({ kind := .symlink, target := m.oldTarget } : LinkState)) = candidate at h ⊢
  obtain ⟨state, hstate, h⟩ := (bind_eq_ok _ _ _).mp h
  obtain ⟨original, horiginal, h⟩ := (bind_eq_ok _ _ _).mp h
  rw [linkState_same false link.link, hstate, ok_bind]
  refine (bind_eq_ok _ _ _).mpr ⟨original, onlyIf_same horiginal fun _ h => ?_, ?_⟩
  · split at h
    · exact h
    · exact linkPointsTo_same h follows link
  cases candidate with
  | none => exact h
  | some c =>
      cases hold : m.oldRelease with
      | none =>
          rw [hold] at h
          exact h
      | some release =>
          rw [hold] at h
          dsimp only at h ⊢
          obtain ⟨toOld, htoOld, h⟩ := (bind_eq_ok _ _ _).mp h
          obtain ⟨dangling, hdangling, h⟩ := (bind_eq_ok _ _ _).mp h
          rw [onlyIf_same htoOld fun _ h => linkPointsTo_same h follows link, ok_bind,
            onlyIf_same hdangling fun _ h =>
              releaseMatches_moved h follows (old release hold _ List.mem_cons_self), ok_bind]
          exact h

theorem validateConfigs_same (h : validateConfigs args m t = .ok ()) (follows : Follows t u)
    (env : u.node (absolute args.env) = t.node (absolute args.env))
    (service : u.node (absolute args.service) = t.node (absolute args.service)) :
    validateConfigs args m u = .ok () := by
  unfold validateConfigs at h ⊢
  obtain ⟨envMetadata, henv, h⟩ := (bind_eq_ok _ _ _).mp h
  obtain ⟨serviceMetadata, hservice, h⟩ := (bind_eq_ok _ _ _).mp h
  rw [currentConfigMetadata_same henv follows env, ok_bind,
    currentConfigMetadata_same hservice follows service, ok_bind]
  split at h
  any_goals exact h
  all_goals
    dsimp only at h ⊢
    split at h
    · obtain ⟨matched, hmatched, h⟩ := (bind_eq_ok _ _ _).mp h
      rw [configPathMatchesDesired_same hmatched follows env, ok_bind]
      cases matched with
      | true =>
          obtain ⟨valid, hvalid, h⟩ := (bind_eq_ok _ _ _).mp h
          exact (bind_eq_ok _ _ _).mpr
            ⟨valid, configPathMatchesDesired_same hvalid follows service, h⟩
      | false => exact h
    · exact h

/-- A call whose checks passed has looked for the candidate. -/
theorem validateInvocation_candidate
    (h : validateInvocation args m allow directory t = .ok ()) :
    ∃ place, locateCandidate (absolute args.root) directory m t = .ok place ∧
      (place.isSome = true ∨ allow = true) := by
  unfold validateInvocation at h
  obtain ⟨⟨⟩, -, h⟩ := (bind_eq_ok _ _ _).mp h
  obtain ⟨⟨⟩, h, -⟩ := (bind_eq_ok _ _ _).mp h
  unfold validateReleases at h
  split at h
  · obtain ⟨place, hplace, h⟩ := (bind_eq_ok _ _ _).mp h
    exact ⟨place, hplace, (require_eq_ok _ _ _).mp h⟩
  · obtain ⟨_, -, h⟩ := (bind_eq_ok _ _ _).mp h
    obtain ⟨⟨⟩, -, h⟩ := (bind_eq_ok _ _ _).mp h
    obtain ⟨place, hplace, h⟩ := (bind_eq_ok _ _ _).mp h
    exact ⟨place, hplace, (require_eq_ok _ _ _).mp h⟩

/-- The checks of a call that passed pass again, if the candidate can be looked for. -/
theorem validateInvocation_moved (h : validateInvocation args m allow directory t = .ok ())
    (follows : Follows t u) (same : SameReads args m t u)
    (candidate : ∃ place, locateCandidate (absolute args.root) directory' m u = .ok place ∧
      (place.isSome = true ∨ allow = true)) :
    validateInvocation args m allow directory' u = .ok () := by
  unfold validateInvocation at h ⊢
  simp only [bind_eq_ok] at h ⊢
  obtain ⟨⟨⟩, hlayout, ⟨⟩, hreleases, ⟨⟩, hcurrent, ⟨⟩, hprevious, hconfigs⟩ := h
  exact ⟨(), hlayout, (), validateReleases_moved hreleases follows same.old candidate, (),
    validateCurrent_same hcurrent follows same.currentLink same.current, (),
    validatePrevious_same hprevious follows same.previousLink same.old,
    validateConfigs_same hconfigs follows same.env same.service⟩

end Checks

/-! ## The manifest -/

section Reading

variable [Host] {root releases directory directory' : Path} {value : Json} {m : Manifest}
  {fields : List (String × Json)} {lost : Prop}

/-- The names of the files that a manifest vouches for. -/
def backupNames : List String :=
  ["env.backup", "service.backup"]

omit [Host] in
theorem Backup.isValid_backup {item : Backup} (h : item.isValid = true) :
    item.backup ∈ backupNames := by
  unfold Backup.isValid at h
  rw [Bool.and_eq_true, Bool.or_eq_true, beq_iff_eq, beq_iff_eq] at h
  simpa [backupNames] using h.1

section Digests

variable {sha256 later : String → Except Failure String}

omit [Host] in
theorem readBackup_fades (kind : Kind)
    (h : ∀ name ∈ backupNames,
      Fades lost (.osError .fileNotFound) (sha256 name) (later name)) :
    Fades lost (.osError .fileNotFound) (readBackup fields sha256 kind)
      (readBackup fields later kind) := by
  unfold readBackup
  refine Fades.step fun item => ?_
  refine (Fades.refl _).bind fun _ hvalid => ?_
  split
  · refine (h item.backup ?_).bind fun _ _ => Fades.refl _
    exact Backup.isValid_backup ((require_eq_ok _ _ _).mp hvalid)
  · exact Fades.refl _

/-- A manifest is read the same, or a digest that it asks for is lost. -/
theorem readDictionary_fades
    (h : ∀ name ∈ backupNames,
      Fades lost (.osError .fileNotFound) (sha256 name) (later name)) :
    Fades lost (.osError .fileNotFound) (readDictionary root releases sha256 value)
      (readDictionary root releases later value) := by
  unfold readDictionary
  iterate 15 refine Fades.step fun _ => ?_
  refine (readBackup_fades .env h).bind fun _ _ => ?_
  refine (readBackup_fades .service h).bind fun _ _ => ?_
  exact Fades.refl _

omit [Host] in
theorem readBackup_digest {kind : Kind} {item : Backup}
    (h : readBackup fields sha256 kind = .ok item) (existed : item.existed = true) :
    ∃ digest, sha256 item.backup = .ok digest := by
  unfold readBackup at h
  obtain ⟨item', -, h⟩ := (bind_eq_ok _ _ _).mp h
  obtain ⟨⟨⟩, hvalid, h⟩ := (bind_eq_ok _ _ _).mp h
  split at h
  · obtain ⟨digest, hdigest, h⟩ := (bind_eq_ok _ _ _).mp h
    obtain ⟨⟨⟩, hsame, h⟩ := (bind_eq_ok _ _ _).mp h
    cases h
    exact ⟨digest, hdigest⟩
  · next hnone =>
      cases h
      exact absurd existed hnone

/-- The backups that a manifest vouches for were there to be read. -/
theorem readDictionary_digest (h : readDictionary root releases sha256 value = .ok m)
    (kind : Kind) (existed : (m.config kind).original.existed = true) :
    ∃ digest, sha256 (m.config kind).original.backup = .ok digest := by
  unfold readDictionary at h
  iterate 15 refine of_bind_ok h fun _ _ h => ?_
  refine of_bind_ok h fun env henv h => ?_
  refine of_bind_ok h fun service hservice h => ?_
  iterate 21 refine of_bind_ok h fun _ _ h => ?_
  cases h
  cases kind with
  | env => exact readBackup_digest henv existed
  | service => exact readBackup_digest hservice existed

/-- The candidate of a manifest that is read stands below the releases. -/
theorem readDictionary_candidatePlace (h : readDictionary root releases sha256 value = .ok m) :
    isCandidatePlace releases m.releaseDir m.releaseVersion m.candidateRelease = true := by
  unfold readDictionary at h
  iterate 31 refine of_bind_ok h fun _ _ h => ?_
  refine of_bind_ok h fun _ hplace h => ?_
  iterate 6 refine of_bind_ok h fun _ _ h => ?_
  cases h
  exact (require_eq_ok _ _ _).mp hplace

end Digests

section Files

variable [Sha256] [FloatText]

/-- The names of the files of a transaction directory that a reader opens. -/
def controlNames : List String :=
  "manifest.json" :: backupNames

omit [Sha256] [FloatText] in
theorem readPrivate_none {maximum : Nat} (h : u.node q = none) :
    readPrivate u q maximum = .error (.osError .fileNotFound) := by
  unfold readPrivate openChecked
  rw [h]
  rfl

omit [Sha256] [FloatText] in
theorem readPrivate_fades {maximum : Nat} (follows : Follows t u)
    (h : u.node q = t.node p ∨ lost ∧ u.node q = none) :
    Fades lost (.osError .fileNotFound) (readPrivate t p maximum) (readPrivate u q maximum) := by
  intro payload hpayload
  rcases h with same | ⟨hlost, gone⟩
  · exact Or.inl (readPrivate_moved hpayload follows same)
  · exact Or.inr ⟨hlost, readPrivate_none gone⟩

/-- A manifest is read the same at another place, or one of its files is lost. -/
theorem readManifestFile_fades (follows : Follows t u)
    (h : ∀ name ∈ controlNames, u.node (directory'.child name) = t.node (directory.child name) ∨
      lost ∧ u.node (directory'.child name) = none) :
    Fades lost (.osError .fileNotFound) (readManifestFile root directory t)
      (readManifestFile root directory' u) := by
  unfold readManifestFile
  refine (readPrivate_fades follows (h "manifest.json" List.mem_cons_self)).bind fun _ _ => ?_
  refine Fades.step fun value => readDictionary_fades fun name hname => ?_
  refine (readPrivate_fades follows (h name (List.mem_cons_of_mem _ hname))).bind fun _ _ => ?_
  exact Fades.refl _

theorem readManifestFile_moved (h : readManifestFile root directory t = .ok m)
    (follows : Follows t u)
    (same : ∀ name ∈ controlNames, u.node (directory'.child name) = t.node (directory.child name)) :
    readManifestFile root directory' u = .ok m := by
  have fades : Fades False (.osError .fileNotFound) (readManifestFile root directory t)
      (readManifestFile root directory' u) :=
    readManifestFile_fades follows fun name hname => Or.inl (same name hname)
  rcases fades m h with h | ⟨⟨⟩, -⟩
  exact h

theorem readManifestFile_dictionary (h : readManifestFile root directory t = .ok m) :
    ∃ value, readDictionary root (root.child "releases") (privateSha256 t directory) value =
      .ok m := by
  unfold readManifestFile at h
  obtain ⟨payload, -, h⟩ := (bind_eq_ok _ _ _).mp h
  obtain ⟨value, -, h⟩ := (bind_eq_ok _ _ _).mp h
  exact ⟨value, h⟩

omit [Sha256] [FloatText] in
theorem readPrivate_there {maximum : Nat} {payload : Bytes}
    (h : readPrivate t p maximum = .ok payload) : (t.node p).isSome = true := by
  cases hnode : t.node p with
  | none =>
      rw [readPrivate_none hnode] at h
      cases h
  | some n => rfl

theorem readManifestFile_manifest (h : readManifestFile root directory t = .ok m) :
    (t.node (directory.child "manifest.json")).isSome = true := by
  unfold readManifestFile at h
  obtain ⟨payload, hpayload, -⟩ := (bind_eq_ok _ _ _).mp h
  exact readPrivate_there hpayload

theorem readManifestFile_backup (h : readManifestFile root directory t = .ok m) (kind : Kind)
    (existed : (m.config kind).original.existed = true) :
    (t.node (directory.child (m.config kind).original.backup)).isSome = true := by
  obtain ⟨value, h⟩ := readManifestFile_dictionary h
  obtain ⟨digest, hdigest⟩ := readDictionary_digest h kind existed
  unfold privateSha256 at hdigest
  obtain ⟨payload, hpayload, -⟩ := (bind_eq_ok _ _ _).mp hdigest
  exact readPrivate_there hpayload

end Files

end Reading

end Rereading

end AgentsServer.Activation

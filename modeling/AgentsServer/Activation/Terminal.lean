import AgentsServer.Activation.Rereading

/-!
# Transactions that can be finished

What a terminal transaction looks like on disk, with the layout that keeps it apart from the files
that are in use, and what every tree between the first effect of `finish` and the last one still
looks like.
-/

namespace AgentsServer.Activation

open Library Program

/-! ## Places -/

/-- The live transaction directory, a retired one or the draft of one. -/
def isTransactionName (name : String) : Bool :=
  name == ".activation-transaction" || isRetiredName name

/-- In a transaction directory of the root. -/
def InTransaction (root p : Path) : Prop :=
  ∃ name, isTransactionName name = true ∧ root.child name <+: p

instance (root p : Path) : Decidable (InTransaction root p) :=
  decidable_of_iff (root <+: p ∧ (p.drop root.length).head?.any isTransactionName = true) <| by
    constructor
    · rintro ⟨⟨rest, rfl⟩, h⟩
      rw [List.drop_left] at h
      cases rest with
      | nil => cases h
      | cons name rest => exact ⟨name, h, rest, by simp [Path.child]⟩
    · rintro ⟨name, h, rest, rfl⟩
      simp [Path.child, h]

/-- An entry that `_remove_private_transaction_directory` removes. -/
def isRemovable (t : FileTree) (name : String) (n : Node) : Bool :=
  if name = "candidate.retired" then isOwnedDirectory n else isControlName name && isPrivateFile t n

/-- A directory that `_remove_private_transaction_directory` removes, or none. -/
structure Removable (t : FileTree) (directory : Path) : Prop where
  top : ∀ n ∈ t.node directory, isPrivateDirectory n = true
  entries : ∀ name ∈ t.children directory, ∀ n ∈ t.node (directory.child name),
    isRemovable t name n = true

/-- An entry that `finish` accepts in the directory of a transaction. -/
def isExpected (m : Manifest) (name : String) : Bool :=
  isManifestTemp name || name == "manifest.json" ||
    (name == "env.backup" && m.env.original.existed) ||
    (name == "service.backup" && m.service.original.existed) ||
    (name == "candidate.retired" && decide (m.phase = .rollbackHealthy))

section Places

variable [Host] [Sha256] (args : Invocation) (m : Manifest) (t : FileTree)

def liveDirectory : Path :=
  transactionDirectory (absolute args.root)

/-- Where the directory of the call goes. -/
def goneDirectory : Path :=
  retiredDirectory (absolute args.root) args.transactionId

def stagedPaths : List Path :=
  [(stagingPaths m.env m.transactionId .env).1, (stagingPaths m.env m.transactionId .env).2,
    (stagingPaths m.service m.transactionId .service).1,
    (stagingPaths m.service m.transactionId .service).2]

/-- The place beside the transaction that a rolled back candidate is taken from. -/
def candidateHome : Option Path :=
  match m.phase, firstMatch t m.candidateRelease (candidatePlaces (absolute args.root) m) with
  | .rollbackHealthy, .ok place => place
  | _, _ => none

/-- What `finish` may move or remove. -/
def Loose (p : Path) : Prop :=
  InTransaction (absolute args.root) p ∨ p ∈ stagedPaths m ∨
    ∃ home ∈ candidateHome args m t, home <+: p

instance (p : Path) : Decidable (Loose args m t p) := by
  unfold Loose
  infer_instance

/-- The place that a link leads to. -/
def linkedPlaces (p : Path) : List Path :=
  match t.node p with
  | some (.symlink target) => [linkTarget p target]
  | _ => []

/-- The releases that the checks look at, where they are not the candidate on its way out. -/
def releasePlaces : List Path :=
  [absolute args.current] ++ linkedPlaces t (absolute args.current) ++
    linkedPlaces t (absolute args.previous) ++
    (m.oldRelease.toList.flatMap fun old => [absolute old.source, absolute old.target]) ++
    (candidatePlaces (absolute args.root) m).filter fun p => candidateHome args m t ≠ some p

/-- What the checks look at outside the transaction. -/
def reads : List Path :=
  [absolute args.root, (absolute args.root).child "releases", absolute args.current,
    absolute args.previous, absolute args.env, absolute args.service] ++
    (releasePlaces args m t).flatMap fun p => [p, p.child "VERSION"]

/-- What is in use stands apart from what `finish` moves and removes. -/
structure Separate : Prop where
  reads : ∀ p ∈ reads args m t, ¬ Loose args m t p
  staged : ∀ p ∈ stagedPaths m, ¬ InTransaction (absolute args.root) p ∧
    ∀ home ∈ candidateHome args m t, ¬ home <+: p

/-- The staged files of a configuration are ones that `_cleanup_config_staging` removes. -/
def Cleanable (t : FileTree) (record : ConfigRecord) (transactionId : String) (kind : Kind) :
    Prop :=
  ∃ staged draft, stagedIfPresent t (stagingPaths record transactionId kind).2 = .ok staged ∧
    stagedIfPresent t (stagingPaths record transactionId kind).1 = .ok draft ∧
    (∀ source ∈ draft, checkSource t record.desired staged source = .ok ()) ∧
    ∀ secured ∈ staged, isDesired record.desired secured = true

variable [FloatText]

/-- A live transaction that the checks of `finish` accept. -/
structure Terminal : Prop where
  tree : t.WellFormed
  phase : m.phase = .committed ∨ m.phase = .rollbackHealthy
  id : isTransactionId args.transactionId = true
  root : validateRoot (absolute args.root) t = .ok ()
  releases : validateReleasesRoot (absolute args.root) t =
    .ok ((absolute args.root).child "releases")
  live : (t.node (liveDirectory args)).isSome = true
  manifest : readManifestFile (absolute args.root) (liveDirectory args) t = .ok m
  valid : validateInvocation args m (decide (m.phase = .rollbackHealthy)) (liveDirectory args) t =
    .ok ()
  /-- as `begin` names them -/
  backups : m.env.original.backup = "env.backup" ∧ m.service.original.backup = "service.backup"
  directory : Removable t (liveDirectory args)
  expected : ∀ name ∈ t.children (liveDirectory args), isExpected m name = true
  vacant : (candidateHome args m t).isSome = true →
    t.node (candidateParked (liveDirectory args)) = none
  staging : Cleanable t m.env m.transactionId .env ∧
    Cleanable t m.service m.transactionId .service
  gone : t.node (goneDirectory args) = none
  others : ∀ name ∈ t.children (absolute args.root), isRetiredName name = true →
    Removable t ((absolute args.root).child name)

/-- The identity of a release, without its `VERSION`. -/
def isReleaseDirectory (release : Release) : Node → Bool
  | .directory id owned mode =>
      owned && mode &&& 0o022 == 0 && id.device == release.device && id.inode == release.inode
  | _ => false

/-- The parked candidate has lost its `VERSION`, and the manifest and the backups it vouches for
are still there. -/
def Stuck : Prop :=
  (t.node (candidateParked (goneDirectory args))).any (isReleaseDirectory m.candidateRelease) =
      true ∧
    t.node ((candidateParked (goneDirectory args)).child "VERSION") = none ∧
    readManifestFile (absolute args.root) (goneDirectory args) t = .ok m

/-- What is in use is as it was. -/
def Untouched (t u : FileTree) : Prop :=
  u.inodes = t.inodes ∧
    ∀ p ∈ [absolute args.current, absolute args.previous, absolute args.env, absolute args.service],
      u.node p = t.node p

/-- A call that starts from `u` ends well, with neither transaction directory left. -/
def Finishes (listing : Listing) (t u : FileTree) : Prop :=
  ((finish listing args).run u).2 = .ok () ∧
    ((finish listing args).final u).node (liveDirectory args) = none ∧
    ((finish listing args).final u).node (goneDirectory args) = none ∧
    Untouched args t ((finish listing args).final u)

end Places

end AgentsServer.Activation

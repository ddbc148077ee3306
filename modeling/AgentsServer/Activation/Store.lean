import AgentsServer.Activation.Manifest
import AgentsServer.Library.Crash

/-!
# What an activation reads

The file tree of the host beside the private transaction directories, and the
functions that read them: release directories and their identities, links, and
configuration files.
-/

namespace AgentsServer.Activation

open Library

/-- The files of a private transaction directory: the dictionary that
`manifest.json` is the canonical text of, if it is there, and the backups by name. -/
structure Transaction where
  manifest : Option Json
  backups : String → Option Bytes

/-- The file tree, and the transaction directories by their path. -/
structure Store where
  tree : FileTree
  transactions : Path → Option Transaction

def Store.setTransaction (s : Store) (directory : Path) (transaction : Transaction) : Store where
  tree := s.tree
  transactions := fun p => if p = directory then some transaction else s.transactions p

def transactionDirectory (root : Path) : Path :=
  root.child ".activation-transaction"

/-! ## Entries -/

def lstat (t : FileTree) (p : Path) : Except Failure Node :=
  match t.node p with
  | some n => .ok n
  | none => .error (.osError .fileNotFound)

/-- A directory of the caller that nobody else may write. -/
def isSafeDirectory : Node → Bool
  | .directory _ owned mode => owned && mode &&& 0o022 == 0
  | _ => false

def validateRoot (root : Path) (t : FileTree) : Except Failure Unit := do
  let info ← lstat t root
  require (isSafeDirectory info) (.permissionError "activation transaction root is unsafe")

def validateReleasesRoot (root : Path) (t : FileTree) : Except Failure Path := do
  let releases := root.child "releases"
  let info ← lstat t releases
  require (isSafeDirectory info) (.permissionError "activation releases root is unsafe")
  return releases

/-! ## Regular files -/

/-- Open a file without following a link, and check what `fstat` says of it. -/
def openChecked [Host] (t : FileTree) (p : Path) (access : Nat)
    (allowed : FileId → Inode → Bool) (message : String) : Except Failure (FileId × Inode) :=
  match t.node p with
  | none => .error (.osError .fileNotFound)
  | some (.symlink _) => .error (.osError .tooManyLinks)
  | some (.file id) => do
      let i := t.inodes id
      require (Host.superuser ∨ i.mode &&& access = access) (.osError .notPermitted)
      require (i.owned ∧ allowed id i) (.permissionError message)
      return (id, i)
  | some _ => .error (.permissionError message)

/-- An owned file with one link that nobody else may write. -/
def isPlain (t : FileTree) (maximum : Nat) (id : FileId) (i : Inode) : Bool :=
  decide (t.nlink id = 1) && i.mode &&& 0o022 == 0 && decide (i.bytes.length ≤ maximum)

section Files

variable [Host] [Sha256]

def readOwnedRegular (t : FileTree) (p : Path) (maximum : Nat) : Except Failure Bytes := do
  let (_, i) ← openChecked t p 0o400 (isPlain t maximum) "activation configuration file is unsafe"
  return i.bytes

def ownedRegularSha256 (t : FileTree) (p : Path) : Except Failure String := do
  let (_, i) ← openChecked t p 0o400 (fun id i => isPlain t 4096 id i && !i.bytes.isEmpty)
    "activation release identity is unsafe"
  return Sha256.hexdigest i.bytes

/-- The draft of a configuration, open for writing. -/
def openConfigStagingSource (t : FileTree) (p : Path) : Except Failure (FileId × Bytes) := do
  let (id, i) ← openChecked t p 0o600 (isPlain t maxConfigBytes)
    "activation configuration staging file is unsafe"
  return (id, i.bytes)

/-- `{"sha256": ..., "mode": ...}` -/
structure Metadata where
  sha256 : String
  mode : Nat
  deriving DecidableEq

/-- A staged configuration, which may have both its names. -/
def stagedConfigMetadata (t : FileTree) (p : Path) : Except Failure (Metadata × FileId) := do
  let (id, i) ← openChecked t p 0o400
    (fun id i => decide (t.nlink id = 1 ∨ t.nlink id = 2) && i.mode &&& 0o022 == 0 &&
      decide (i.bytes.length ≤ maxConfigBytes))
    "activation configuration publication is unsafe"
  return ({ sha256 := Sha256.hexdigest i.bytes, mode := i.mode }, id)

/-- The permission bits of an entry. -/
def modeOf (t : FileTree) : Node → Nat
  | .file id => (t.inodes id).mode
  | .directory _ _ mode => mode
  | _ => 0o777

def currentConfigMetadata (t : FileTree) (p : Path) : Except Failure (Option Metadata) :=
  match t.node p with
  | none => .ok none
  | some info => do
      let payload ← readOwnedRegular t p maxConfigBytes
      return some { sha256 := Sha256.hexdigest payload, mode := modeOf t info }

def Desired.metadata (desired : Desired) : Metadata where
  sha256 := desired.sha256
  mode := desired.mode

/-- `_config_identity_matches`. -/
def Desired.isFile (desired : Desired) (id : FileId) : Bool :=
  decide ((id.device : Int) = desired.device ∧ (id.inode : Int) = desired.inode)

def identityOf : Node → Option FileId
  | .file id | .directory id .. => some id
  | _ => none

def configPathMatchesDesired (t : FileTree) (p : Path) (desired : Desired) :
    Except Failure Bool :=
  match t.node p with
  | none => .ok false
  | some info =>
      if (identityOf info).any desired.isFile then do
        let metadata ← currentConfigMetadata t p
        return metadata == some desired.metadata
      else .ok false

/-! ## Releases -/

def releaseMatches (t : FileTree) (p : Path) (release : Release) : Except Failure Bool :=
  match t.node p with
  | some (.directory id owned mode) =>
      if owned ∧ mode &&& 0o022 = 0 ∧ id.device = release.device ∧ id.inode = release.inode then do
        let versionSha256 ← ownedRegularSha256 t (p.child "VERSION")
        return versionSha256 == release.versionSha256
      else .ok false
  | _ => .ok false

/-- The first of some places where a release stands. -/
def firstMatch (t : FileTree) (release : Release) : List Path → Except Failure (Option Path)
  | [] => .ok none
  | candidate :: rest => do
      if ← releaseMatches t candidate release then return some candidate
      else firstMatch t release rest

def locateRelease (t : FileTree) (release : Release) (extras : List Path) :
    Except Failure (Option Path) :=
  firstMatch t release (absolute release.source :: absolute release.target :: extras)

/-! ## Links -/

def linkState (t : FileTree) (p : Path) (allowDirectory : Bool) : Except Failure LinkState :=
  let path := p.text
  match t.node p with
  | none => .ok .missing
  | some (.symlink text) => do
      let target ← safeText "link target" 4096 text
      return { kind := .symlink, target }
  | some (.directory _ owned _) =>
      if allowDirectory && owned then .ok { kind := .directory, target := "" }
      else .error (.runtimeError s!"activation path is not supported: {path}")
  | some _ => .error (.runtimeError s!"activation path is not supported: {path}")

/-- The place a link names, lexically. -/
def linkTarget (p : Path) (target : String) : Path :=
  Path.resolve p.parent target.toList

end Files

end AgentsServer.Activation

import AgentsServer.Activation.Invocation
import AgentsServer.Library.Directories
import AgentsServer.Library.JsonLoads

/-!
# Finishing a transaction

`finish` parks the candidate of a rolled back activation inside the transaction directory, clears
the staged configurations, renames the directory out of the way and removes it. A call that finds
the renamed directory of an earlier one goes on from there.

The owner of a directory may list and change it, and waiting for the disk changes nothing.
-/

namespace AgentsServer.Activation

open Library Program

/-- A change of the tree, which the operating system may refuse. -/
def change (f : FileTree → Except OsError FileTree) : Program FileTree Failure Unit :=
  act fun t => (f t).mapError .osError

/-! ## Names -/

/-- `before`, 24 lowercase hexadecimal digits and `after`. -/
def isHexNamed (before after name : String) : Bool :=
  let digits := (name.toList.drop before.length).take 24
  isHexOf 24 digits && name.toList == before.toList ++ digits ++ after.toList

/-- `MANIFEST_TEMP_RE` -/
def isManifestTemp (name : String) : Bool :=
  isHexNamed ".manifest.json." ".tmp" name

/-- `GC_DIRECTORY_RE` or `BEGIN_DIRECTORY_RE` -/
def isRetiredName (name : String) : Bool :=
  isHexNamed ".activation-transaction-gc-activation-" "" name ||
    isHexNamed ".activation-transaction." ".tmp" name

def retiredDirectory (root : Path) (transactionId : String) : Path :=
  root.child (".activation-transaction-gc-" ++ transactionId)

/-! ## Private entries -/

/-- A directory that only its owner may use. -/
def isPrivateDirectory : Node → Bool
  | .directory _ owned mode => owned && mode == 0o700
  | _ => false

def isOwnedDirectory : Node → Bool
  | .directory _ owned _ => owned
  | _ => false

/-- An owned file with one name that only its owner may use. -/
def isPrivateFile (t : FileTree) : Node → Bool
  | .file id => (t.inodes id).owned && t.nlink id == 1 && (t.inodes id).mode == 0o600
  | _ => false

section Reading

variable [Host] [Sha256] [FloatText]

omit [Sha256] [FloatText] in
/-- `_read_private` -/
def readPrivate (t : FileTree) (p : Path) (maximum : Nat) : Except Failure Bytes := do
  let (_, i) ← openChecked t p 0o400
    (fun id i => t.nlink id == 1 && i.mode == 0o600 && decide (i.bytes.length ≤ maximum))
    "activation transaction file is unsafe"
  return i.bytes

/-- `_sha256` of a file of a transaction directory. -/
def privateSha256 (t : FileTree) (directory : Path) (name : String) : Except Failure String := do
  let payload ← readPrivate t (directory.child name) maxConfigBytes
  return Sha256.hexdigest payload

/-- What `_read_manifest` makes of the manifest of a directory. -/
def readManifestFile (root directory : Path) (t : FileTree) : Except Failure Manifest := do
  let payload ← readPrivate t (directory.child "manifest.json") maxControlBytes
  let value ← required (Json.loadsBytes payload)
    (.runtimeError "activation transaction manifest is invalid")
  readDictionary root (root.child "releases") (privateSha256 t directory) value

end Reading

/-! ## Removing -/

section Removing

variable (listing : Listing)

def cleanupManifestTemp (directory : Path) (name : String) : Program FileTree Failure Unit :=
  if isManifestTemp name then do
    look fun t => do
      let info ← lstat t (directory.child name)
      require (isPrivateFile t info)
        (.permissionError "activation transaction staging file is unsafe")
    change fun t => t.unlink (directory.child name)
  else pure ()

/-- `_cleanup_manifest_temps` -/
def cleanupManifestTemps (directory : Path) : Program FileTree Failure Unit := do
  let names ← look fun t => .ok (listing.names t directory)
  each (cleanupManifestTemp directory) names

/-- The files of a transaction directory. -/
def isControlName (name : String) : Bool :=
  name == "manifest.json" || name == "env.backup" || name == "service.backup" ||
    isManifestTemp name

def removePrivateEntry (directory : Path) (name : String) : Program FileTree Failure Unit := do
  let info ← look fun t => lstat t (directory.child name)
  if name = "candidate.retired" then do
    look fun _ => require (isOwnedDirectory info)
      (.permissionError "retired activation candidate is unsafe")
    removeAll listing .osError (directory.child name)
  else do
    look fun t => require (isControlName name && isPrivateFile t info)
      (.permissionError "retired activation transaction is unsafe")
    change fun t => t.unlink (directory.child name)

/-- `_remove_private_transaction_directory` -/
def removePrivateTransactionDirectory (directory : Path) : Program FileTree Failure Unit := do
  look fun t => do
    let info ← lstat t directory
    require (isPrivateDirectory info) (.permissionError "retired activation transaction is unsafe")
  let names ← look fun t => .ok (listing.names t directory)
  each (removePrivateEntry listing directory) names
  change fun t => t.rmdir directory

def cleanupRetiredTransaction (root : Path) (name : String) : Program FileTree Failure Unit :=
  if isRetiredName name then removePrivateTransactionDirectory listing (root.child name)
  else pure ()

/-- `_cleanup_retired_transactions` -/
def cleanupRetiredTransactions (root : Path) : Program FileTree Failure Unit := do
  let names ← look fun t => .ok (listing.names t root)
  each (cleanupRetiredTransaction listing root) names

end Removing

/-! ## Staged configurations -/

section Staging

variable [Host] [Sha256]

/-- What `_staged_config_metadata` says of a file that may be missing. -/
def stagedIfPresent (t : FileTree) (p : Path) : Except Failure (Option (Metadata × FileId)) :=
  match stagedConfigMetadata t p with
  | .ok staged => .ok (some staged)
  | .error (.osError .fileNotFound) => .ok none
  | .error e => .error e

/-- A staged file is the one the manifest names. -/
def isDesired (desired : Option Desired) (staged : Metadata × FileId) : Bool :=
  desired.any fun desired => staged.1 == desired.metadata && desired.isFile staged.2

/-- A private file with one name. -/
def isDraft (t : FileTree) (staged : Metadata × FileId) : Bool :=
  t.nlink staged.2 == 1 && staged.1.mode == 0o600

/-- A source file belongs to the transaction. -/
def checkSource (t : FileTree) (desired : Option Desired)
    (secured : Option (Metadata × FileId)) (source : Metadata × FileId) : Except Failure Unit :=
  match desired with
  | none =>
      require (isDraft t source)
        (.permissionError "activation unjournaled configuration staging is unsafe")
  | some _ =>
      -- a draft that no manifest names yet may go while the named publication is there
      require (isDesired desired source || isDraft t source && secured.all (isDesired desired))
        (.runtimeError "activation configuration staging ownership changed")

def removeSource (desired : Option Desired) (secured : Option (Metadata × FileId))
    (source : Path) : Program FileTree Failure Unit := do
  let draft ← look fun t => stagedIfPresent t source
  match draft with
  | none => pure ()
  | some draft =>
      look fun t => checkSource t desired secured draft
      change fun t => t.unlink source

def removeSecured (desired : Option Desired) (secured : Path) :
    Option (Metadata × FileId) → Program FileTree Failure Unit
  | none => pure ()
  | some staged => do
      look fun _ => require (isDesired desired staged)
        (.runtimeError "activation configuration publication ownership changed")
      change fun t => t.unlink secured

def stagingPaths (record : ConfigRecord) (transactionId : String) (kind : Kind) : Path × Path :=
  configStagingPaths (absolute record.path) transactionId kind

def cleanupStaging (record : ConfigRecord) (transactionId : String) (kind : Kind) :
    Program FileTree Failure Unit := do
  let (source, secured) := stagingPaths record transactionId kind
  let staged ← look fun t => stagedIfPresent t secured
  removeSource record.desired staged source
  removeSecured record.desired secured staged

/-- `_cleanup_config_staging` -/
def cleanupConfigStaging (m : Manifest) : Program FileTree Failure Unit := do
  cleanupStaging m.env m.transactionId .env
  cleanupStaging m.service m.transactionId .service

end Staging

/-! ## The command -/

section Finish

variable [Host] [Sha256] [FloatText] (listing : Listing)

/-- `_read_manifest`, which clears drafts of the manifest first. -/
def readManifestAt (root directory : Path) : Program FileTree Failure Manifest := do
  look fun t => validateRoot root t
  let _ ← look fun t => validateReleasesRoot root t
  look fun t => do
    let info ← lstat t directory
    require (isPrivateDirectory info)
      (.permissionError "activation transaction directory is unsafe")
  cleanupManifestTemps listing directory
  look fun t => readManifestFile root directory t

/-- The places that a candidate may stand at beside the transaction directory. -/
def candidatePlaces (root : Path) (m : Manifest) : List Path :=
  [absolute m.candidateRelease.source, absolute m.candidateRelease.target, candidateRetired root m]

def locateCandidate (root directory : Path) (m : Manifest) (t : FileTree) :
    Except Failure (Option Path) :=
  locateRelease t m.candidateRelease [candidateRetired root m, candidateParked directory]

/-- The candidate of a rolled back activation goes into the transaction directory. -/
def parkCandidate (root directory : Path) (m : Manifest) : Program FileTree Failure Unit := do
  let place ← look fun t => locateCandidate root directory m t
  match place with
  | none => pure ()
  | some place =>
      if place = candidateParked directory then pure ()
      else do
        look fun t => require (t.node (candidateParked directory)).isNone
          (.runtimeError "activation candidate retirement path exists")
        change fun t => t.rename place (candidateParked directory)

/-- `Path.exists`, which follows a link, and the links it leads to, so many times. -/
def pathExists (t : FileTree) : Nat → Path → Bool
  | 0, _ => false
  | limit + 1, p =>
      match t.node p with
      | none => false
      | some (.symlink target) => pathExists t limit (linkTarget p target)
      | some _ => true

def allowedNames (directory : Path) (m : Manifest) (t : FileTree) : List String :=
  ["manifest.json"] ++ (if m.env.original.existed then ["env.backup"] else []) ++
    (if m.service.original.existed then ["service.backup"] else []) ++
    if m.phase = .rollbackHealthy ∧ pathExists t 40 (candidateParked directory) = true
      then ["candidate.retired"] else []

/-- The same names, in any order. -/
def sameNames (names allowed : List String) : Bool :=
  names.all allowed.contains && allowed.all names.contains

/-- The rest of `finish`, once the candidate is where it belongs. -/
def retireTransaction (args : Invocation) (directory : Path) (m : Manifest) :
    Program FileTree Failure Unit := do
  let root := absolute args.root
  let retired := retiredDirectory root args.transactionId
  cleanupConfigStaging m
  look fun t => require (sameNames (listing.names t directory) (allowedNames directory m t))
    (.runtimeError "activation transaction directory contains unexpected files")
  if directory = retired then cleanupRetiredTransactions listing root
  else do
    look fun t => require (t.node retired).isNone
      (.runtimeError "activation transaction retirement path exists")
    change fun t => t.rename directory retired
    cleanupRetiredTransactions listing root

/-- What `finish` does with a manifest. -/
def finishFrom (args : Invocation) (directory : Path) (m : Manifest) :
    Program FileTree Failure Unit := do
  look fun t => validateInvocation args m (decide (m.phase = .rollbackHealthy)) directory t
  look fun _ => require (m.phase = .committed ∨ m.phase = .rollbackHealthy)
    (.runtimeError "activation transaction is not terminal")
  if m.phase = .rollbackHealthy then do
    parkCandidate (absolute args.root) directory m
    retireTransaction listing args directory m
  else retireTransaction listing args directory m

/-- The retired directory of an earlier call. -/
def finishRetired (args : Invocation) : Program FileTree Failure Unit := do
  let root := absolute args.root
  let retired := retiredDirectory root args.transactionId
  let read ← (readManifestAt listing root retired >>= fun m => pure (some m)).rescue fun e =>
    if e = .osError .fileNotFound then pure none else raise e
  match read with
  | none => removePrivateTransactionDirectory listing retired
  | some m => finishFrom listing args retired m

def finish (args : Invocation) : Program FileTree Failure Unit := do
  let root := absolute args.root
  let active := transactionDirectory root
  look fun t => validateRoot root t
  let _ ← look fun t => validateReleasesRoot root t
  look fun _ => require (isTransactionId args.transactionId)
    (.runtimeError "activation transaction id is invalid")
  let live ← look fun t => .ok (t.node active).isSome
  if live then do
    let m ← readManifestAt listing root active
    finishFrom listing args active m
  else do
    let left ← look fun t => .ok (t.node (retiredDirectory root args.transactionId)).isSome
    if left then finishRetired listing args
    else pure ()

end Finish

end AgentsServer.Activation

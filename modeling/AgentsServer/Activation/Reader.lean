import AgentsServer.Activation.Store

/-!
# Reading the manifest

`_read_manifest` and the checks of the parts of a manifest, in the order of the
source. What the reader accepts of a dictionary that a manifest was written as
is exactly that manifest, when it is valid and fits the control size.
-/

namespace AgentsServer.Activation

open Library Json

/-! ## Hub and guard -/

def isHubId (s : String) : Bool :=
  let allowed := fun c => isAlnum c || "_.:-".toList.contains c
  isNameOf allowed allowed 7 239 s.toList

def isHostIdentity (s : String) : Bool :=
  isNameOf isAlnum (fun c => isAlnum c || "._:@/-".toList.contains c) 7 239 s.toList

def isOperationId (s : String) : Bool :=
  isNameOf isAlnum (fun c => isAlnum c || "._:-".toList.contains c) 0 127 s.toList

def isSnapshotName (s : String) : Bool :=
  "snapshot_".toList.isPrefixOf s.toList &&
    let tail := s.toList.drop 9
    !tail.isEmpty && tail.all fun c => isAlnum c || c == '_'

/-- The checks on the texts and numbers of a Hub record. -/
def Hub.isValid [Host] (hub : Hub) : Bool :=
  let dataDir := absolute hub.dataDir
  let snapshot := absolute hub.snapshot
  decide (hub.dataDir = dataDir.text) && decide (hub.snapshot = snapshot.text) &&
    decide (snapshot.parent = dataDir.child "maintenance-backups") &&
    isSnapshotName snapshot.name &&
    (hub.kind == "server-update" || hub.kind == "host-reactivation") &&
    isHubId hub.hubId && isHostIdentity hub.hostIdentity && isOperationId hub.operationId &&
    decide (0 < hub.fenceDevice) && decide (0 < hub.fenceInode)

def Hub.fits (hub : Hub) (intent : Intent) : Bool :=
  !(hub.kind == "server-update" && intent != .serverUpdate ||
    hub.kind == "host-reactivation" && intent != .hostReactivation &&
      intent != .failedHostRepair)

def validateHubMetadata [Host] (intent : Intent) : Option Hub → Except Failure Unit
  | none => .ok ()
  | some hub => do
      require hub.isValid (.runtimeError "activation transaction Hub state is invalid")
      require (hub.fits intent) (.runtimeError "activation transaction Hub intent changed")

def Guard.isValid (guard : Guard) : Bool :=
  isPrefixedHex "cold-handoff-" 24 guard.id && decide (0 < guard.device) &&
    decide (0 < guard.inode)

def validateGuardMetadata : Option Guard → Except Failure Unit
  | none => .ok ()
  | some guard =>
      require guard.isValid (.runtimeError "activation transaction guard state is invalid")

/-! ## Parts of the dictionary -/

section Parts

variable (fields : List (String × Json))

def readText (key name : String) (maximum : Nat) : Except Failure String := do
  let text ← required ((lookup fields key).bind str?)
    (.runtimeError s!"activation transaction {name} is invalid")
  safeText name maximum text

def readPhase : Except Failure Phase :=
  required (((lookup fields "phase").bind str?).bind Phase.ofText?)
    (.runtimeError "activation transaction phase is invalid")

/-- A rollback origin is there exactly in a rollback, and precedes it. -/
def isOrigin (phase : Phase) : Option Phase → Bool
  | none => !phase.isRollback
  | some origin => !origin.isRollback && !origin.isCommit && phase.isRollback

def readRollbackFrom (phase : Phase) : Except Failure (Option Phase) :=
  match lookup fields "rollback_from" with
  | none | some .null => do
      require (isOrigin phase none)
        (.runtimeError "activation transaction rollback origin is missing")
      return none
  | some value => do
      let origin ← required (value.str?.bind Phase.ofText?)
        (.runtimeError "activation transaction rollback origin is invalid")
      require (isOrigin phase (some origin))
        (.runtimeError "activation transaction rollback origin is invalid")
      return some origin

def readOldTarget : Except Failure String := do
  let text ← required ((lookup fields "old_target").bind str?)
    (.runtimeError "activation transaction old target is invalid")
  require (isOneLine text) (.runtimeError "activation transaction old target is invalid")
  return text

def Release.isValid (release : Release) : Bool :=
  release.source.toList.head? == some '/' && release.target.toList.head? == some '/' &&
    decide (0 < release.inode) && isSha256 release.versionSha256

/-- `valid_release` -/
def release? : Json → Option Release
  | .obj fields => do
      guard (hasKeys ["source", "target", "device", "inode", "version_sha256"] fields)
      let source ← (lookup fields "source").bind str?
      let target ← (lookup fields "target").bind str?
      let device ← (lookup fields "device").bind integer?
      guard (0 ≤ device)
      let inode ← (lookup fields "inode").bind integer?
      guard (0 < inode)
      let versionSha256 ← (lookup fields "version_sha256").bind str?
      let release : Release := {
        source
        target
        device := device.toNat
        inode := inode.toNat
        versionSha256 }
      guard release.isValid
      return release
  | _ => none

def readRelease (key name : String) : Except Failure (Option Release) :=
  match lookup fields key with
  | some (.obj []) => .ok none
  | value => do
      let release ← required (value.bind release?)
        (.runtimeError s!"activation transaction {name} release is invalid")
      return some release

def LinkState.isValid (state : LinkState) (allowDirectory : Bool) : Bool :=
  isOneLine state.target && (allowDirectory || state.kind != .directory)

def linkState? : Json → Option LinkState
  | .obj fields => do
      guard (hasKeys ["kind", "target"] fields)
      let kind ← ((lookup fields "kind").bind str?).bind LinkKind.ofText?
      let target ← (lookup fields "target").bind str?
      return { kind, target }
  | _ => none

def readLink (key : String) (allowDirectory : Bool) : Except Failure LinkState := do
  let state ← required ((lookup fields key).bind linkState?)
    (.runtimeError "activation transaction link state is invalid")
  require (state.isValid allowDirectory)
    (.runtimeError "activation transaction link state is invalid")
  return state

/-- The modes a captured configuration may have. -/
def originalModes : List Nat := [0o600, 0o640, 0o644]

def Backup.isValid (item : Backup) : Bool :=
  (item.backup == "env.backup" || item.backup == "service.backup") &&
    if item.existed then item.sha256.any isSha256 && item.mode.any originalModes.contains
    else item.sha256.isNone && item.mode.isNone

def nullable {α : Type} (decode : Json → Option α) : Json → Option (Option α)
  | .null => some none
  | value => (decode value).map some

def backup? (fields : List (String × Json)) : Option Backup := do
  guard (hasKeys ["existed", "backup", "sha256", "mode"] fields)
  let existed ← (lookup fields "existed").bind bool?
  let backup ← (lookup fields "backup").bind str?
  let sha256 ← (lookup fields "sha256").bind (nullable str?)
  let mode ← (lookup fields "mode").bind (nullable int?)
  guard (mode.all (0 ≤ ·))
  return { existed, backup, sha256, mode := mode.map Int.toNat }

variable [Sha256]

/-- The digest of a private file of the transaction directory. -/
def backupSha256 (backups : String → Option Bytes) (name : String) : Except Failure String :=
  match backups name with
  | none => .error (.osError .fileNotFound)
  | some bytes => do
      require (bytes.length ≤ maxConfigBytes)
        (.permissionError "activation transaction file is unsafe")
      return Sha256.hexdigest bytes

omit [Sha256]

/-- The metadata of a backup, whose digest is read from the transaction directory. -/
def readBackup (sha256 : String → Except Failure String) (kind : Kind) :
    Except Failure Backup := do
  let item ← required (((lookup fields kind.text).bind obj?).bind backup?)
    (.runtimeError "activation transaction backup metadata is invalid")
  require item.isValid (.runtimeError "activation transaction backup metadata is invalid")
  if item.existed then
    let digest ← sha256 item.backup
    require (some digest = item.sha256) (.runtimeError "activation transaction backup changed")
    return item
  else return item

def readServiceState (key name : String) : Except Failure ServiceState :=
  required (((lookup fields key).bind str?).bind ServiceState.ofText?)
    (.runtimeError s!"activation transaction {name} is invalid")

def readBool (key name : String) : Except Failure Bool :=
  required ((lookup fields key).bind bool?)
    (.runtimeError s!"activation transaction {name} is invalid")

def readPriorPort : Except Failure Int := do
  let port ← required ((lookup fields "prior_port").bind integer?)
    (.runtimeError "activation transaction prior port is invalid")
  require (1 ≤ port ∧ port ≤ 65535) (.runtimeError "activation transaction prior port is invalid")
  return port

def readPriorBind [Host] : Except Failure String := do
  let text ← readText fields "prior_bind_address" "prior bind" 64
  if text = "localhost" then return text
  else
    let parsed ← required (Host.ipAddress text)
      (.runtimeError "activation transaction prior bind is invalid")
    require (parsed = text) (.runtimeError "activation transaction prior bind is noncanonical")
    return text

def readIntent : Except Failure Intent :=
  required (((lookup fields "intent").bind str?).bind Intent.ofText?)
    (.runtimeError "activation transaction intent is invalid")

def isClientBinding (s : String) : Bool :=
  decide (s.length ≤ 64 * 1024) && isOneLine s

def readClientBinding : Except Failure String := do
  let text ← required ((lookup fields "client_binding").bind str?)
    (.runtimeError "activation transaction client binding is invalid")
  require (isClientBinding text)
    (.runtimeError "activation transaction client binding is invalid")
  return text

/-- `_config_staging_paths` -/
def configStagingPaths (destination : Path) (transactionId : String) (kind : Kind) :
    Path × Path :=
  let stem := "." ++ destination.name ++ ".activation-" ++ transactionId ++ "-" ++ kind.text
  (destination.parent.child (stem ++ ".source"), destination.parent.child (stem ++ ".publication"))

/-- The modes a published configuration may have. -/
def desiredModes : Kind → List Nat
  | .env => [0o600]
  | .service => [0o600, 0o644]

def Desired.isValid (item : Desired) (kind : Kind) (source : Path) : Bool :=
  isSha256 item.sha256 && (desiredModes kind).contains item.mode &&
    item.source == source.text && decide (0 < item.device) && decide (0 < item.inode)

def desired? : Json → Option Desired
  | .obj fields => do
      guard (hasKeys ["sha256", "mode", "source", "device", "inode"] fields)
      let sha256 ← (lookup fields "sha256").bind str?
      let mode ← (lookup fields "mode").bind int?
      guard (0 ≤ mode)
      let source ← (lookup fields "source").bind str?
      let device ← (lookup fields "device").bind int?
      let inode ← (lookup fields "inode").bind int?
      return { sha256, mode := mode.toNat, source, device, inode }
  | _ => none

def desiredKey : Kind → String
  | .env => "desired_env"
  | .service => "desired_service"

def readDesired [Host] (kind : Kind) (transactionId path : String) :
    Except Failure (Option Desired) := do
  let item ← required ((lookup fields (desiredKey kind)).bind (nullable desired?))
    (.runtimeError "activation desired configuration is invalid")
  let source := (configStagingPaths (absolute path) transactionId kind).1
  require (item.all fun item => item.isValid kind source)
    (.runtimeError "activation desired configuration is invalid")
  return item

def observedKey : Kind → String
  | .env => "observed_env_sha256"
  | .service => "observed_service_sha256"

def readObserved (kind : Kind) : Except Failure (List (Option String)) := do
  let items ← required
    (((lookup fields (observedKey kind)).bind arr?).bind fun items =>
      items.mapM (nullable str?))
    (.runtimeError "activation transaction configuration history is invalid")
  require (items.all fun item => item.all isSha256)
    (.runtimeError "activation transaction configuration history is invalid")
  return items

end Parts

/-! ## Paths of the releases -/

section Paths

variable [Host]

def isCandidatePlace (releases : Path) (releaseDir releaseVersion : String)
    (candidate : Release) : Bool :=
  let target := absolute releaseDir
  decide (releaseDir = target.text) && isVersion releaseVersion &&
    decide (target = releases.child releaseVersion) &&
    decide (candidate.source = (absolute candidate.source).text) &&
    decide (candidate.target = (absolute candidate.target).text) &&
    decide ((absolute candidate.source).parent = releases) &&
    decide (absolute candidate.source ≠ absolute candidate.target) &&
    decide (absolute candidate.target = target)

def isOldPlace (root releases : Path) (oldTarget : String) : Option Release → Bool
  | none => oldTarget == ""
  | some release =>
      decide (release.source = (absolute release.source).text) &&
        decide (release.target = (absolute release.target).text) &&
        decide ((absolute release.target).parent = releases) &&
        (decide ((absolute release.source).parent = releases) ||
          decide (absolute release.source = root.child "current")) &&
        decide (oldTarget = (absolute release.target).text)

def isPreviousPlace (releases : Path) : Option Release → Bool
  | none => true
  | some release =>
      decide (release.source = (absolute release.source).text) &&
        decide (release.target = (absolute release.target).text) &&
        decide ((absolute release.source).parent = releases) &&
        decide ((absolute release.target).parent = releases)

end Paths

/-! ## The whole -/

def manifestKeys : List String :=
  ["format", "transaction_id", "release_version", "release_dir", "candidate_release",
    "old_target", "old_release", "current", "previous", "previous_release", "env_path", "env",
    "service_path", "service", "service_state", "service_enabled", "legacy_service_state",
    "legacy_service_enabled", "prior_port", "prior_bind_address", "intent", "client_binding",
    "desired_env", "desired_service", "phase", "rollback_from", "hub", "guard",
    "authority_pending", "observed_env_sha256", "observed_service_sha256"]

def hub? : Json → Option (Option Hub)
  | .obj [] => some none
  | .obj fields => do
      guard (hasKeys ["kind", "data_dir", "hub_id", "host_identity", "operation_id", "snapshot",
        "fence_device", "fence_inode"] fields)
      let kind ← (lookup fields "kind").bind str?
      let dataDir ← (lookup fields "data_dir").bind str?
      let hubId ← (lookup fields "hub_id").bind str?
      let hostIdentity ← (lookup fields "host_identity").bind str?
      let operationId ← (lookup fields "operation_id").bind str?
      let snapshot ← (lookup fields "snapshot").bind str?
      let fenceDevice ← (lookup fields "fence_device").bind int?
      let fenceInode ← (lookup fields "fence_inode").bind int?
      return some {
        kind
        dataDir
        hubId
        hostIdentity
        operationId
        snapshot
        fenceDevice
        fenceInode }
  | _ => none

def guard? : Json → Option (Option Guard)
  | .obj [] => some none
  | .obj fields => do
      guard (hasKeys ["id", "device", "inode"] fields)
      let id ← (lookup fields "id").bind str?
      let device ← (lookup fields "device").bind int?
      let inode ← (lookup fields "inode").bind int?
      return some { id, device, inode }
  | _ => none

section Reader

variable [Host] [Sha256]

/-- The checks on the dictionary in `manifest.json`. -/
def readDictionary (root releases : Path) (sha256 : String → Except Failure String)
    (value : Json) : Except Failure Manifest := do
  let fields ← required value.obj? (.runtimeError "activation transaction manifest is invalid")
  require (hasKeys manifestKeys fields ∧ (lookup fields "format").bind integer? = some 1)
    (.runtimeError "activation transaction manifest is invalid")
  let phase ← readPhase fields
  let rollbackFrom ← readRollbackFrom fields phase
  let transactionId ← readText fields "transaction_id" "id" 64
  require (isTransactionId transactionId) (.runtimeError "activation transaction id is invalid")
  let releaseVersion ← readText fields "release_version" "version" 128
  let releaseDir ← readText fields "release_dir" "release_dir" 4096
  let envPath ← readText fields "env_path" "env_path" 4096
  let servicePath ← readText fields "service_path" "service_path" 4096
  let oldTarget ← readOldTarget fields
  let oldRelease ← readRelease fields "old_release" "rollback"
  let previousRelease ← readRelease fields "previous_release" "previous"
  let current ← readLink fields "current" true
  let previous ← readLink fields "previous" false
  let env ← readBackup fields sha256 .env
  let service ← readBackup fields sha256 .service
  let serviceState ← readServiceState fields "service_state" "service state"
  let serviceEnabled ← readBool fields "service_enabled" "service enablement"
  let legacyServiceState ← readServiceState fields "legacy_service_state" "legacy service state"
  let legacyServiceEnabled ← readBool fields "legacy_service_enabled" "legacy enablement"
  let priorPort ← readPriorPort fields
  let priorBindAddress ← readPriorBind fields
  let intent ← readIntent fields
  let clientBinding ← readClientBinding fields
  let desiredEnv ← readDesired fields .env transactionId envPath
  let desiredService ← readDesired fields .service transactionId servicePath
  let authorityPending ← readBool fields "authority_pending" "authority state"
  let observedEnv ← readObserved fields .env
  let observedService ← readObserved fields .service
  let candidateRelease ← required ((lookup fields "candidate_release").bind release?)
    (.runtimeError "activation transaction candidate release is invalid")
  require (isCandidatePlace releases releaseDir releaseVersion candidateRelease)
    (.runtimeError "activation transaction release path is invalid")
  require (isOldPlace root releases oldTarget oldRelease)
    (.runtimeError "activation transaction rollback release path is invalid")
  require (isPreviousPlace releases previousRelease)
    (.runtimeError "activation transaction previous release path is invalid")
  let hub ← required ((lookup fields "hub").bind hub?)
    (.runtimeError "activation transaction Hub state is invalid")
  validateHubMetadata intent hub
  let guard ← required ((lookup fields "guard").bind guard?)
    (.runtimeError "activation transaction guard state is invalid")
  validateGuardMetadata guard
  return {
    transactionId
    releaseVersion
    releaseDir
    candidateRelease
    oldTarget
    oldRelease
    current
    previous
    previousRelease
    env := { path := envPath, original := env, desired := desiredEnv, observed := observedEnv }
    service := {
      path := servicePath
      original := service
      desired := desiredService
      observed := observedService }
    serviceState
    serviceEnabled
    legacyServiceState
    legacyServiceEnabled
    priorPort
    priorBindAddress
    intent
    clientBinding
    phase
    rollbackFrom
    hub
    guard
    authorityPending }

/-- `_read_manifest` -/
def readManifest (root directory : Path) (s : Store) : Except Failure Manifest := do
  validateRoot root s.tree
  let releases ← validateReleasesRoot root s.tree
  let transaction ← required (s.transactions directory) (.osError .fileNotFound)
  let value ← required transaction.manifest (.osError .fileNotFound)
  require (canonicalSize value ≤ maxControlBytes)
    (.permissionError "activation transaction file is unsafe")
  readDictionary root releases (backupSha256 transaction.backups) value

end Reader

end AgentsServer.Activation

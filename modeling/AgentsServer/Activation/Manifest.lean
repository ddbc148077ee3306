import AgentsServer.Library.FileTree
import AgentsServer.Library.Json
import AgentsServer.Library.Outcome

/-!
# The activation manifest

Phases of one release activation, the record of it that `manifest.json` keeps,
and the dictionary it is written as.
-/

namespace AgentsServer.Activation

open Library

inductive Failure where
  | runtimeError (message : String)
  | permissionError (message : String)
  | valueError (message : String)
  | osError (cause : OsError)
  deriving DecidableEq

/-- What a call reads from the process it runs in: the working directory, home
directories, whether permission bits bind it, and `str(ip_address(text))`. -/
class Host where
  workingDirectory : Path
  expanduser : List Char → List Char
  superuser : Bool
  ipAddress : String → Option String

/-- `_absolute`. -/
def absolute [Host] (text : String) : Path :=
  let chars := if text.toList.head? = some '~' then Host.expanduser text.toList else text.toList
  Path.resolve Host.workingDirectory chars

def maxControlBytes : Nat := 256 * 1024

def maxConfigBytes : Nat := 16 * 1024 * 1024

/-! ## Texts -/

/-- No NUL, newline or carriage return. -/
def isOneLine (s : String) : Bool :=
  s.toList.all fun c => c != Char.ofNat 0 && c != '\n' && c != '\r'

/-- The texts `_safe_text` accepts. -/
def isSafeText (maximum : Nat) (s : String) : Bool :=
  s != "" && decide (s.length ≤ maximum) && isOneLine s

def safeText (name : String) (maximum : Nat) (s : String) : Except Failure String := do
  require (isSafeText maximum s) (.runtimeError s!"activation transaction {name} is invalid")
  return s

def isAlnum (c : Char) : Bool :=
  c.isAlpha || c.isDigit

/-- `[first][rest]{low,high}`. -/
def isNameOf (first rest : Char → Bool) (low high : Nat) : List Char → Bool
  | [] => false
  | c :: cs => first c && cs.all rest && decide (low ≤ cs.length ∧ cs.length ≤ high)

def isVersion (s : String) : Bool :=
  isNameOf isAlnum (fun c => isAlnum c || "._+-".toList.contains c) 0 127 s.toList

def isTransactionId (s : String) : Bool :=
  isPrefixedHex "activation-" 24 s

def isSha256 (s : String) : Bool :=
  isHexOf 64 s.toList

/-! ## Phases -/

inductive Phase where
  | prepared
  | guarded
  | linking
  | linked
  | stopping
  | stopped
  | fencing
  | fenced
  | authorizing
  | authority
  | candidateStarting
  | candidateHealthy
  | committing
  | committed
  | rollingBack
  | rolledBack
  | rollbackHealthy
  deriving DecidableEq

namespace Phase

def text : Phase → String
  | .prepared => "prepared"
  | .guarded => "guarded"
  | .linking => "linking"
  | .linked => "linked"
  | .stopping => "stopping"
  | .stopped => "stopped"
  | .fencing => "fencing"
  | .fenced => "fenced"
  | .authorizing => "authorizing"
  | .authority => "authority"
  | .candidateStarting => "candidate-starting"
  | .candidateHealthy => "candidate-healthy"
  | .committing => "committing"
  | .committed => "committed"
  | .rollingBack => "rolling-back"
  | .rolledBack => "rolled-back"
  | .rollbackHealthy => "rollback-healthy"

/-- `PHASES`. -/
def ofText? : String → Option Phase
  | "prepared" => some .prepared
  | "guarded" => some .guarded
  | "linking" => some .linking
  | "linked" => some .linked
  | "stopping" => some .stopping
  | "stopped" => some .stopped
  | "fencing" => some .fencing
  | "fenced" => some .fenced
  | "authorizing" => some .authorizing
  | "authority" => some .authority
  | "candidate-starting" => some .candidateStarting
  | "candidate-healthy" => some .candidateHealthy
  | "committing" => some .committing
  | "committed" => some .committed
  | "rolling-back" => some .rollingBack
  | "rolled-back" => some .rolledBack
  | "rollback-healthy" => some .rollbackHealthy
  | _ => none

@[simp] theorem ofText?_text (phase : Phase) : ofText? phase.text = some phase := by
  cases phase <;> rfl

/-- The three phases of a rollback. -/
def isRollback : Phase → Bool
  | .rollingBack | .rolledBack | .rollbackHealthy => true
  | _ => false

/-- The phases after the point of no return. -/
def isCommit : Phase → Bool
  | .committing | .committed => true
  | _ => false

end Phase

inductive ServiceState where
  | absent
  | stopped
  | running
  deriving DecidableEq

def ServiceState.text : ServiceState → String
  | .absent => "absent"
  | .stopped => "stopped"
  | .running => "running"

def ServiceState.ofText? : String → Option ServiceState
  | "absent" => some .absent
  | "stopped" => some .stopped
  | "running" => some .running
  | _ => none

inductive Intent where
  | ordinary
  | serverUpdate
  | hostReactivation
  | failedHostRepair
  deriving DecidableEq

def Intent.text : Intent → String
  | .ordinary => "ordinary"
  | .serverUpdate => "server-update"
  | .hostReactivation => "host-reactivation"
  | .failedHostRepair => "failed-host-repair"

def Intent.ofText? : String → Option Intent
  | "ordinary" => some .ordinary
  | "server-update" => some .serverUpdate
  | "host-reactivation" => some .hostReactivation
  | "failed-host-repair" => some .failedHostRepair
  | _ => none

inductive LinkKind where
  | missing
  | symlink
  | directory
  deriving DecidableEq

def LinkKind.text : LinkKind → String
  | .missing => "missing"
  | .symlink => "symlink"
  | .directory => "directory"

def LinkKind.ofText? : String → Option LinkKind
  | "missing" => some .missing
  | "symlink" => some .symlink
  | "directory" => some .directory
  | _ => none

/-- The two configuration files of an installation. -/
inductive Kind where
  | env
  | service
  deriving DecidableEq

theorem Kind.both {p : Kind → Prop} (env : p .env) (service : p .service) (kind : Kind) :
    p kind := by
  cases kind with
  | env => exact env
  | service => exact service

def Kind.text : Kind → String
  | .env => "env"
  | .service => "service"

@[simp] theorem ServiceState.ofText?_text (state : ServiceState) :
    ofText? state.text = some state := by
  cases state <;> rfl

@[simp] theorem Intent.ofText?_text (intent : Intent) : ofText? intent.text = some intent := by
  cases intent <;> rfl

@[simp] theorem LinkKind.ofText?_text (kind : LinkKind) : ofText? kind.text = some kind := by
  cases kind <;> rfl

/-! ## Records -/

/-- A release directory: where it stands, where it goes, and what identifies it. -/
structure Release where
  source : String
  target : String
  device : Nat
  inode : Nat
  versionSha256 : String
  deriving DecidableEq

structure LinkState where
  kind : LinkKind
  target : String
  deriving DecidableEq

def LinkState.missing : LinkState where
  kind := .missing
  target := ""

/-- A configuration file as `begin` found it. -/
structure Backup where
  existed : Bool
  backup : String
  sha256 : Option String
  mode : Option Nat
  deriving DecidableEq

/-- A configuration file as `replace_config` is about to publish it. -/
structure Desired where
  sha256 : String
  mode : Nat
  source : String
  device : Int
  inode : Int
  deriving DecidableEq

structure Hub where
  kind : String
  dataDir : String
  hubId : String
  hostIdentity : String
  operationId : String
  snapshot : String
  fenceDevice : Int
  fenceInode : Int
  deriving DecidableEq

structure Guard where
  id : String
  device : Int
  inode : Int
  deriving DecidableEq

/-- What the manifest says of one configuration file. -/
structure ConfigRecord where
  path : String
  original : Backup
  desired : Option Desired
  observed : List (Option String)
  deriving DecidableEq

structure Manifest where
  transactionId : String
  releaseVersion : String
  releaseDir : String
  candidateRelease : Release
  oldTarget : String
  oldRelease : Option Release
  current : LinkState
  previous : LinkState
  previousRelease : Option Release
  env : ConfigRecord
  service : ConfigRecord
  serviceState : ServiceState
  serviceEnabled : Bool
  legacyServiceState : ServiceState
  legacyServiceEnabled : Bool
  priorPort : Int
  priorBindAddress : String
  intent : Intent
  clientBinding : String
  phase : Phase
  rollbackFrom : Option Phase
  hub : Option Hub
  guard : Option Guard
  authorityPending : Bool
  deriving DecidableEq

namespace Manifest

def config (m : Manifest) : Kind → ConfigRecord
  | .env => m.env
  | .service => m.service

def setConfig (m : Manifest) (record : ConfigRecord) : Kind → Manifest
  | .env => { m with env := record }
  | .service => { m with service := record }

end Manifest

/-! ## The dictionary -/

def encodeInt (n : Int) : Json :=
  .num (.ofInt n)

def encodeNat (n : Nat) : Json :=
  encodeInt n

def encodeOption {α : Type} (encode : α → Json) : Option α → Json
  | none => .null
  | some a => encode a

/-- An absent release, hub or guard is written as an empty dictionary. -/
def encodeRecord {α : Type} (fields : α → List (String × Json)) : Option α → Json
  | none => .obj []
  | some a => .obj (fields a)

def Release.fields (release : Release) : List (String × Json) :=
  [("source", .str release.source),
    ("target", .str release.target),
    ("device", encodeNat release.device),
    ("inode", encodeNat release.inode),
    ("version_sha256", .str release.versionSha256)]

def LinkState.encode (state : LinkState) : Json :=
  .obj [("kind", .str state.kind.text), ("target", .str state.target)]

def Backup.encode (backup : Backup) : Json :=
  .obj [("existed", .bool backup.existed),
    ("backup", .str backup.backup),
    ("sha256", encodeOption .str backup.sha256),
    ("mode", encodeOption encodeNat backup.mode)]

def Desired.encode (desired : Desired) : Json :=
  .obj [("sha256", .str desired.sha256),
    ("mode", encodeNat desired.mode),
    ("source", .str desired.source),
    ("device", encodeInt desired.device),
    ("inode", encodeInt desired.inode)]

def Hub.fields (hub : Hub) : List (String × Json) :=
  [("kind", .str hub.kind),
    ("data_dir", .str hub.dataDir),
    ("hub_id", .str hub.hubId),
    ("host_identity", .str hub.hostIdentity),
    ("operation_id", .str hub.operationId),
    ("snapshot", .str hub.snapshot),
    ("fence_device", encodeInt hub.fenceDevice),
    ("fence_inode", encodeInt hub.fenceInode)]

def Guard.fields (guard : Guard) : List (String × Json) :=
  [("id", .str guard.id),
    ("device", encodeInt guard.device),
    ("inode", encodeInt guard.inode)]

def Manifest.fields (m : Manifest) : List (String × Json) :=
  [("format", encodeInt 1),
    ("transaction_id", .str m.transactionId),
    ("release_version", .str m.releaseVersion),
    ("release_dir", .str m.releaseDir),
    ("candidate_release", .obj m.candidateRelease.fields),
    ("old_target", .str m.oldTarget),
    ("old_release", encodeRecord Release.fields m.oldRelease),
    ("current", m.current.encode),
    ("previous", m.previous.encode),
    ("previous_release", encodeRecord Release.fields m.previousRelease),
    ("env_path", .str m.env.path),
    ("env", m.env.original.encode),
    ("service_path", .str m.service.path),
    ("service", m.service.original.encode),
    ("service_state", .str m.serviceState.text),
    ("service_enabled", .bool m.serviceEnabled),
    ("legacy_service_state", .str m.legacyServiceState.text),
    ("legacy_service_enabled", .bool m.legacyServiceEnabled),
    ("prior_port", encodeInt m.priorPort),
    ("prior_bind_address", .str m.priorBindAddress),
    ("intent", .str m.intent.text),
    ("client_binding", .str m.clientBinding),
    ("desired_env", encodeOption Desired.encode m.env.desired),
    ("desired_service", encodeOption Desired.encode m.service.desired),
    ("phase", .str m.phase.text),
    ("rollback_from", encodeOption (fun phase => .str phase.text) m.rollbackFrom),
    ("hub", encodeRecord Hub.fields m.hub),
    ("guard", encodeRecord Guard.fields m.guard),
    ("authority_pending", .bool m.authorityPending),
    ("observed_env_sha256", .arr (m.env.observed.map (encodeOption .str))),
    ("observed_service_sha256", .arr (m.service.observed.map (encodeOption .str)))]

def Manifest.encode (m : Manifest) : Json :=
  .obj m.fields

/-- The bytes of the file `_canonical` writes: compact, sorted, ASCII only, and
a final newline. -/
def canonicalSize (value : Json) : Nat :=
  Json.utf8Size (Json.render Json.escapeAscii (Json.sortKeys value)) + 1

end AgentsServer.Activation

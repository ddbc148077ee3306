import AgentsServer.Activation.Invocation

/-!
# Publishing a configuration

`replace_config` journals a draft, gives it a second name, and renames that name over the
configuration. A call that finds the second name of an earlier one publishes what it names.
-/

namespace AgentsServer.Activation

open Library Program

/-- A change of the tree, which the operating system may refuse. -/
def onTree (change : FileTree → Except OsError FileTree) : Program Store Failure Unit :=
  act fun s =>
    match change s.tree with
    | .ok t => .ok { s with tree := t }
    | .error e => .error (.osError e)

/-- A read of the tree. -/
def readTree {α : Type} (read : FileTree → Except Failure α) : Program Store Failure α :=
  look fun s => read s.tree

section Publishing

variable [Host] [Sha256]

/-- `_replace_private(directory / "manifest.json", _canonical(value))` -/
def writeManifest (directory : Path) (m : Manifest) : Program Store Failure Unit :=
  act fun s =>
    match s.transactions directory with
    | some transaction =>
        .ok (s.setTransaction directory { transaction with manifest := some m.encode })
    | none => .error (.osError .fileNotFound)

def unlinkIfSameFile (p : Path) (identity : FileId) : Program Store Failure Unit := do
  let same ← readTree fun t => .ok (decide (t.node p = some (.file identity)))
  if same then onTree fun t => t.unlink p

/-- The source gets its name back where the rename has failed. -/
def restoreSourceName (staged source : Path) : Program Store Failure Unit := do
  let (hasStaged, hasSource) ← readTree fun t =>
    .ok ((t.node staged).isSome, (t.node source).isSome)
  if hasStaged && !hasSource then onTree fun t => t.rename staged source

def publishStagedConfig (staged source destination : Path) (desired : Desired) :
    Program Store Failure Unit := do
  let (metadata, identity) ← readTree fun t => stagedConfigMetadata t staged
  look fun _ => require (metadata = desired.metadata ∧ desired.isFile identity)
    (.runtimeError "activation staged configuration does not match its journal")
  unlinkIfSameFile source identity
  (onTree fun t => t.rename staged destination).rescue fun e => do
    restoreSourceName staged source
    raise e
  let published ← readTree fun t => configPathMatchesDesired t destination desired
  look fun _ => require published
    (.runtimeError "activation configuration changed after publication")

/-- The phases in which a configuration may change. -/
def isConfigurable : Phase → Bool
  | .committing | .committed | .rollingBack | .rolledBack | .rollbackHealthy => false
  | _ => true

/-- The manifest with a draft as its desired configuration. -/
def journal (m : Manifest) (kind : Kind) (desired : Desired) : Manifest :=
  let record := m.config kind
  let observed :=
    if some desired.sha256 ∈ record.observed then record.observed
    else record.observed ++ [some desired.sha256]
  m.setConfig { record with desired := some desired, observed } kind

def draft (source : Path) (mode : Nat) (id : FileId) (payload : Bytes) : Desired where
  sha256 := Sha256.hexdigest payload
  mode := mode
  source := source.text
  device := id.device
  inode := id.inode

/-- The draft is journaled, secured under a second name and published. -/
def publishDraft (directory source secured destination : Path) (m : Manifest) (kind : Kind)
    (mode : Nat) : Program Store Failure Unit := do
  let (id, payload) ← readTree fun t => openConfigStagingSource t source
  let desired := draft source mode id payload
  writeManifest directory (journal m kind desired)
  onTree fun t => .ok (t.chmod id mode)
  onTree fun t => t.link source secured
  readTree fun t => require (t.node secured = some (.file id))
    (.runtimeError "activation configuration staging identity changed")
  publishStagedConfig secured source destination desired

/-- The journaled configuration of a call that finds no draft, or the second name of one. -/
def journaled (m : Manifest) (kind : Kind) (mode : Nat) (message : String) :
    Program Store Failure Desired :=
  look fun _ =>
    match (m.config kind).desired with
    | some desired => do
        require (desired.mode = mode) (.runtimeError message)
        return desired
    | none => .error (.runtimeError message)

/-- What the call does with the names it finds. -/
def publish (directory source secured destination : Path) (m : Manifest) (kind : Kind)
    (mode : Nat) : Program Store Failure Unit := do
  let (hasSource, hasSecured) ← readTree fun t =>
    .ok ((t.node source).isSome, (t.node secured).isSome)
  if hasSource = false then do
    let desired ← journaled m kind mode "activation configuration staging file is missing"
    if hasSecured then publishStagedConfig secured source destination desired
    else do
      let published ← readTree fun t => configPathMatchesDesired t destination desired
      look fun _ => require published
        (.runtimeError "activation configuration publication is incomplete")
  else if hasSecured then do
    let desired ← journaled m kind mode "activation configuration publication path exists"
    publishStagedConfig secured source destination desired
  else publishDraft directory source secured destination m kind mode

/-- A call that has read the manifest. -/
def replaceFrom (args : Invocation) (kind : Kind) (sourceArg : String) (mode : Nat)
    (directory : Path) (m : Manifest) : Program Store Failure Unit := do
  readTree fun t => validateInvocation args m false directory t
  look fun _ => require (isConfigurable m.phase)
    (.runtimeError "activation configuration cannot change in this phase")
  let destination := absolute (m.config kind).path
  let (expected, secured) := configStagingPaths destination m.transactionId kind
  look fun _ => require (absolute sourceArg = expected)
    (.runtimeError "activation configuration staging path is invalid")
  look fun _ => require (mode ∈ desiredModes kind)
    (.runtimeError "activation configuration mode is invalid")
  publish directory (absolute sourceArg) secured destination m kind mode

/-- `replace_config`, with the value of `int(args.mode, 8)`. -/
def replaceConfig (args : Invocation) (kind : Kind) (sourceArg : String) (mode : Nat) :
    Program Store Failure Unit := do
  let directory := transactionDirectory (absolute args.root)
  let m ← look (readManifest (absolute args.root) directory)
  replaceFrom args kind sourceArg mode directory m

variable {args : Invocation} {kind : Kind} {sourceArg : String} {mode : Nat} {s : Store}
  {m : Manifest}

theorem replaceConfig_run
    (h : readManifest (absolute args.root) (transactionDirectory (absolute args.root)) s = .ok m) :
    (replaceConfig args kind sourceArg mode).run s =
      (replaceFrom args kind sourceArg mode (transactionDirectory (absolute args.root)) m).run s :=
  run_look_bind h

end Publishing

end AgentsServer.Activation

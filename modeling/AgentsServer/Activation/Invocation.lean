import AgentsServer.Activation.Reader

/-!
# A call on a pending activation

Each command names the layout and the transaction it works on. `_validate_invocation` compares
them with the manifest, and the releases, links and configuration files with its phase.
-/

namespace AgentsServer.Activation

open Library

/-- The arguments that every command but `begin` shares. An empty text is not given. -/
structure Invocation where
  root : String
  current : String
  previous : String
  env : String
  service : String
  releaseDir : String
  releaseVersion : String
  transactionId : String

section Validation

variable [Host] [Sha256]

/-- An argument that is given is the manifest's. -/
def agrees {α : Type} [DecidableEq α] (given : String) (read : String → α) (kept : α) : Bool :=
  given == "" || decide (read given = kept)

def validateLayout (args : Invocation) (m : Manifest) : Except Failure Unit := do
  let root := absolute args.root
  require (absolute m.env.path = absolute args.env ∧
      absolute m.service.path = absolute args.service ∧
      absolute args.current = root.child "current" ∧
      absolute args.previous = root.child "previous")
    (.runtimeError "pending activation belongs to a different layout")
  require (agrees args.transactionId id m.transactionId)
    (.runtimeError "activation transaction ownership changed")
  require (agrees args.releaseVersion id m.releaseVersion)
    (.runtimeError "activation transaction release version changed")
  require (agrees args.releaseDir absolute (absolute m.releaseDir))
    (.runtimeError "activation transaction release path changed")

/-- The places of a candidate that was taken out of the way. -/
def candidateRetired (root : Path) (m : Manifest) : Path :=
  (root.child "releases").child (".activation-candidate-retired-" ++ m.transactionId)

def candidateParked (directory : Path) : Path :=
  directory.child "candidate.retired"

def validateReleases (root directory : Path) (m : Manifest) (allowMissingCandidate : Bool)
    (t : FileTree) : Except Failure Unit := do
  match m.oldRelease with
  | none => pure ()
  | some old =>
      let place ← locateRelease t old []
      require place.isSome (.runtimeError "activation rollback release identity changed")
  let place ← locateRelease t m.candidateRelease
    [candidateRetired root m, candidateParked directory]
  require (place.isSome ∨ allowMissingCandidate)
    (.runtimeError "activation candidate release identity changed")

/-- `link_points_to` -/
def linkPointsTo (t : FileTree) (p : Path) (release : Release) : Except Failure Bool :=
  match t.node p with
  | some (.symlink target) => releaseMatches t (linkTarget p target) release
  | _ => .ok false

/-- A check that is only made where another one holds. -/
def onlyIf (c : Prop) [Decidable c] (check : Except Failure Bool) : Except Failure Bool :=
  if c then check else .ok false

/-- `current_state == original_current`, and it leads to the old release. -/
def pointsToOld (t : FileTree) (p : Path) (state : LinkState) (m : Manifest) :
    Except Failure Bool :=
  match m.oldRelease with
  | none => .ok false
  | some old =>
      onlyIf (state = m.current) <|
        match m.current.kind with
        | .symlink => linkPointsTo t p old
        | .directory => releaseMatches t p old
        | .missing => .ok false

def validateCurrent (p : Path) (m : Manifest) (allowMissingCandidate : Bool) (t : FileTree) :
    Except Failure Unit := do
  let state ← linkState t p true
  let candidate : LinkState := { kind := .symlink, target := m.releaseDir }
  let targetMissing := decide (state = candidate) && (t.node (linkTarget p state.target)).isNone
  let toCandidate ← onlyIf (state = candidate) (linkPointsTo t p m.candidateRelease)
  let toOld ← pointsToOld t p state m
  let originalValid := decide (state = m.current) && (decide (m.current.kind = .missing) || toOld)
  let candidateValid := toCandidate || (allowMissingCandidate && targetMissing)
  match m.phase with
  | .prepared | .guarded =>
      require originalValid (.runtimeError "current release changed before link takeover")
  | .linking | .rollingBack =>
      require (originalValid || candidateValid || decide (state = .missing) || targetMissing)
        (.runtimeError "current release target changed during activation")
  | .rolledBack | .rollbackHealthy =>
      require originalValid (.runtimeError "current release was not restored")
  | _ =>
      require candidateValid (.runtimeError "current release does not resolve to the candidate")

def validatePrevious (p : Path) (m : Manifest) (t : FileTree) : Except Failure Unit := do
  let state ← linkState t p false
  let candidate : Option LinkState :=
    if m.oldTarget = "" then none else some { kind := .symlink, target := m.oldTarget }
  let originalValid ← onlyIf (state = m.previous) <|
    match m.previousRelease with
    | none => .ok true
    | some release => linkPointsTo t p release
  let candidateValid ←
    match candidate, m.oldRelease with
    | none, _ => .ok originalValid
    | some _, none => .ok false
    | some c, some old => onlyIf (state = c) (linkPointsTo t p old)
  let dangling ←
    match candidate, m.oldRelease with
    | some c, some old =>
        onlyIf (m.phase = .rollingBack ∧ state = c) (releaseMatches t (absolute old.source) old)
    | _, _ => .ok false
  match m.phase with
  | .prepared | .guarded =>
      require originalValid (.runtimeError "previous release changed before link takeover")
  | .linking | .rollingBack =>
      require (originalValid || candidateValid || dangling || decide (state = .missing))
        (.runtimeError "previous release changed during activation")
  | .rolledBack | .rollbackHealthy =>
      require originalValid (.runtimeError "previous release link was not restored")
  | _ =>
      require candidateValid
        (.runtimeError "previous release does not resolve to the rollback release")

/-- `original_configuration` -/
def Backup.metadata? (item : Backup) : Option Metadata :=
  if item.existed then do
    let sha256 ← item.sha256
    let mode ← item.mode
    return { sha256, mode }
  else none

/-- `authorized_configuration` -/
def ConfigRecord.authorizes (record : ConfigRecord) (modes : List Nat) :
    Option Metadata → Bool
  | none => record.observed.contains none
  | some metadata =>
      record.observed.contains (some metadata.sha256) && modes.contains metadata.mode

def validateConfigs (args : Invocation) (m : Manifest) (t : FileTree) : Except Failure Unit := do
  let env ← currentConfigMetadata t (absolute args.env)
  let service ← currentConfigMetadata t (absolute args.service)
  let valid ←
    match m.phase with
    | .linked | .fenced | .authorizing | .authority | .rollingBack =>
        .ok (m.env.authorizes [0o600] env && m.service.authorizes originalModes service)
    | .candidateStarting | .candidateHealthy | .committing | .committed =>
        match m.env.desired, m.service.desired with
        | some desiredEnv, some desiredService => do
            if ← configPathMatchesDesired t (absolute args.env) desiredEnv then
              configPathMatchesDesired t (absolute args.service) desiredService
            else .ok false
        | _, _ => .ok false
    | _ =>
        .ok (decide (env = m.env.original.metadata?) &&
          decide (service = m.service.original.metadata?))
  require valid (.runtimeError "activation configuration does not match its phase")

/-- `_validate_invocation` -/
def validateInvocation (args : Invocation) (m : Manifest) (allowMissingCandidate : Bool)
    (directory : Path) (t : FileTree) : Except Failure Unit := do
  validateLayout args m
  validateReleases (absolute args.root) directory m allowMissingCandidate t
  validateCurrent (absolute args.current) m allowMissingCandidate t
  validatePrevious (absolute args.previous) m t
  validateConfigs args m t

end Validation

end AgentsServer.Activation

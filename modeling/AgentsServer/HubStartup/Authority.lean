import AgentsServer.HubStartup.ControlFiles

/-!
# The startup authority

A maintenance fence names the operation that holds the Hub. The authority file
lets exactly that operation start the Hub behind its fence: it is published for
the fence that is there, cleared by its owner, and discarded by a start that
finds no fence. All of it happens under the control lock.
-/

namespace AgentsServer.HubStartup

open Library Program Activation

/-! ## Dictionaries -/

def textOf (fields : List (String × Json)) (key : String) : Option String :=
  (Json.lookup fields key).bind Json.str?

/-- `value.get(key) == n` -/
def isNumber (fields : List (String × Json)) (key : String) (n : Nat) : Bool :=
  match Json.lookup fields key with
  | some (.num literal) => literal.value? == some n
  | some (.bool b) => (if b then 1 else 0) == n
  | _ => false

/-- A text that passes a check. -/
def isText (fields : List (String × Json)) (key : String) (check : String → Bool) : Bool :=
  (textOf fields key).any check

/-- A number from a bound on that is no Boolean. -/
def isIntegerFrom (fields : List (String × Json)) (key : String) (least : Int) : Bool :=
  ((Json.lookup fields key).bind Json.int?).any fun n => decide (least ≤ n)

/-- `json.loads` of a control file. -/
def loadControl [FloatText] (raw : Bytes) (message : String) : Except Failure Json :=
  required (Json.loadsBytes raw) (.runtimeError message)

/-! ## The fence -/

/-- `_identity` -/
def identity (value : String) : Except Failure String := do
  let normalized := String.ofList (strip value.toList)
  require (isHostIdentity normalized) (.valueError "server identity is invalid")
  return normalized

/-- `_maintenance_operation_id` -/
def maintenanceOperationId (value : String) : Except Failure String := do
  let normalized := String.ofList (strip value.toList)
  require (1 ≤ normalized.length ∧ normalized.length ≤ 128)
    (.valueError "operation_id must be between 1 and 128 characters")
  require (isOperationId normalized) (.valueError "operation_id is invalid")
  return normalized

def isReactivationId (s : String) : Bool :=
  isPrefixedHex "host-reactivation-" 24 s

def isDigest (s : String) : Bool :=
  isHexOf 64 s.toList

def fenceKeys : List String :=
  ["format", "reason", "operation_id", "hub_id", "host_server_identity", "snapshot", "created_at"]

def hasDigest (fields : List (String × Json)) : Bool :=
  (Json.lookup fields "snapshot_manifest_sha256").isSome

def expectedFenceKeys (fields : List (String × Json)) : List String :=
  fenceKeys ++
    (if isNumber fields "format" 1 then [] else ["restore_transaction"]) ++
    if hasDigest fields then ["snapshot_manifest_sha256"] else []

/-- `_maintenance_fence_payload_valid` -/
def isFencePayload : Json → Bool
  | .obj fields =>
      (isNumber fields "format" 1 ||
        isNumber fields "format" 2 &&
          isText fields "restore_transaction" (· == "host-reactivation") &&
          isText fields "reason" (· == "host-reactivation") &&
          isText fields "operation_id" isReactivationId) &&
      Json.hasKeys (expectedFenceKeys fields) fields &&
      isText fields "hub_id" isHubId &&
      isText fields "host_server_identity" isHostIdentity &&
      isText fields "reason" (fun s => decide (1 ≤ s.length ∧ s.length ≤ 80)) &&
      isText fields "operation_id" isOperationId &&
      isText fields "snapshot" isSnapshotName &&
      isText fields "created_at" (fun _ => true) &&
      (!hasDigest fields || isText fields "snapshot_manifest_sha256" isDigest)
  | _ => false

/-- The fence that a caller expects. -/
structure Expected where
  hostIdentity : String
  hubId : String
  reason : String
  operationId : String
  snapshot : Path

def fencePath (root : Path) : Path :=
  root.child "maintenance-fence.json"

def handoffPath (root : Path) : Path :=
  root.child ".host-reactivation-handoff.json"

def authorityPath (root : Path) : Path :=
  root.child ".managed-startup-authority.json"

/-- `16 * 1024` -/
def maxControlSize : Nat := 16384

section Fence

variable [FloatText] [Sha256]

/-- The digest of the manifest of a snapshot. -/
def snapshotDigest (t : FileTree) (snapshot : Path) : Except Failure String := do
  let digest ← ifThere (sha256PrivateRegularFile t (snapshot.child "manifest.json"))
  required digest (.runtimeError "Team Hub maintenance snapshot generation is missing")

/-- `_maintenance_fence_control_unlocked` -/
def maintenanceFenceControl (root : Path) (expected : Expected) (t : FileTree) :
    Except Failure (Option (List (String × Json))) := do
  match ← ifThere (readPrivateRegularFile t (fencePath root) maxControlSize) with
  | none => return none
  | some raw =>
      let marker ← loadControl raw "Team Hub maintenance fence is invalid"
      let fields := marker.obj?.getD []
      require (isFencePayload marker ∧ textOf fields "hub_id" = some expected.hubId ∧
          textOf fields "host_server_identity" = some expected.hostIdentity ∧
          textOf fields "reason" = some expected.reason)
        (.runtimeError "Team Hub maintenance fence does not match")
      let operationId ← maintenanceOperationId expected.operationId
      require (textOf fields "operation_id" = some operationId)
        (.runtimeError "Team Hub maintenance operation does not match")
      require (textOf fields "snapshot" = some expected.snapshot.name)
        (.runtimeError "Team Hub maintenance snapshot does not match")
      match textOf fields "snapshot_manifest_sha256" with
      | none => return some fields
      | some digest =>
          let actual ← snapshotDigest t expected.snapshot
          require (digest = actual)
            (.runtimeError "Team Hub maintenance snapshot generation changed")
          return some fields

end Fence

/-! ## The handoff of a reactivation -/

def handoffKeys : List String :=
  ["format", "state", "hub_id", "host_server_identity", "operation_id", "snapshot",
    "fence_device", "fence_inode", "fence_staging"]

def isFenceStaging (s : String) : Bool :=
  let inner := s.toList.drop 1
  s.toList.head? == some '.' &&
    isPrefixedHex "maintenance-fence-host-reactivation-" 24
      (String.ofList (inner.take (inner.length - 8))) &&
    ".pending".toList.isSuffixOf inner

def isHandoffPayload : Json → Bool
  | .obj fields =>
      Json.hasKeys handoffKeys fields && isNumber fields "format" 2 &&
      isText fields "state" (fun s => s == "creating" || s == "unclaimed" || s == "adopted") &&
      isText fields "hub_id" isHubId &&
      isText fields "host_server_identity" isHostIdentity &&
      isText fields "operation_id" isReactivationId &&
      isText fields "snapshot" isSnapshotName &&
      isIntegerFrom fields "fence_device" 0 && isIntegerFrom fields "fence_inode" 1 &&
      isText fields "fence_staging" isFenceStaging
  | _ => false

section Handoff

variable [FloatText]

/-- `_read_host_reactivation_handoff_unlocked` -/
def readHostReactivationHandoff (root : Path) (t : FileTree) :
    Except Failure (Option (List (String × Json))) := do
  match ← ifThere (readPrivateRegularFile t (handoffPath root) maxControlSize) with
  | none => return none
  | some raw =>
      let value ← loadControl raw "Team Hub reactivation handoff is invalid"
      require (isHandoffPayload value) (.runtimeError "Team Hub reactivation handoff is invalid")
      return value.obj?

/-- The device and inode numbers of a handoff are those of the fence. -/
def namesFence (fields : List (String × Json)) (id : FileId) : Bool :=
  (Json.lookup fields "fence_device").bind Json.int? == some (id.device : Int) &&
    (Json.lookup fields "fence_inode").bind Json.int? == some (id.inode : Int)

/-- `_consume_host_reactivation_handoff_unlocked` of an adopted handoff, `remove=False`. -/
def checkHostReactivationHandoff (root : Path) (expected : Expected) (t : FileTree) :
    Except Failure Unit := do
  match ← readHostReactivationHandoff root t with
  | none => return ()
  | some fields =>
      require (textOf fields "hub_id" = some expected.hubId ∧
          textOf fields "host_server_identity" = some expected.hostIdentity ∧
          textOf fields "operation_id" = some expected.operationId ∧
          textOf fields "snapshot" = some expected.snapshot.name ∧
          textOf fields "state" = some "adopted")
        (.runtimeError "Team Hub reactivation handoff does not match")
      match t.node (fencePath root) with
      | none => .error (.osError .fileNotFound)
      | some (.file id) =>
          require (namesFence fields id)
            (.runtimeError "Team Hub reactivation fence ownership changed")
      | some _ => .error (.runtimeError "Team Hub reactivation fence ownership changed")

end Handoff

/-! ## The authority file -/

/-- What the authority file says. -/
def authorityFields (expected : Expected) (digest : String) : List (String × Json) :=
  [("format", .num (.ofNat 1)), ("reason", .str expected.reason), ("hub_id", .str expected.hubId),
    ("host_server_identity", .str expected.hostIdentity),
    ("operation_id", .str expected.operationId), ("snapshot", .str expected.snapshot.name),
    ("snapshot_manifest_sha256", .str digest)]

def authorityPayload (expected : Expected) (digest : String) : Bytes :=
  utf8 (Json.canonical (.obj (authorityFields expected digest)) ++ ['\n'])

def authorityKeys : List String :=
  ["format", "reason", "hub_id", "host_server_identity", "operation_id", "snapshot",
    "snapshot_manifest_sha256"]

def isAuthorityPayload : Json → Bool
  | .obj fields =>
      Json.hasKeys authorityKeys fields && isNumber fields "format" 1 &&
      isText fields "reason" (fun s => s == "server-update" || s == "host-reactivation") &&
      isText fields "hub_id" isHubId &&
      isText fields "host_server_identity" isHostIdentity &&
      isText fields "operation_id" isOperationId &&
      isText fields "snapshot" isSnapshotName &&
      isText fields "snapshot_manifest_sha256" isDigest
  | _ => false

section Authority

variable [FloatText]

/-- `_read_managed_startup_authority_unlocked` -/
def readManagedStartupAuthority (root : Path) (t : FileTree) :
    Except Failure (List (String × Json)) := do
  let raw ← readPrivateRegularFile t (authorityPath root) maxControlSize
  let value ← loadControl raw "Team Hub startup authority file is invalid"
  require (isAuthorityPayload value) (.runtimeError "Team Hub startup authority file is invalid")
  return value.obj?.getD []

/-- The checks of a publication, and the digest that its fence carries. -/
def authenticateFence [Sha256] (root : Path) (expected : Expected) (t : FileTree) :
    Except Failure String := do
  let marker ← maintenanceFenceControl root expected t
  let digest ← required (marker.bind fun fields => textOf fields "snapshot_manifest_sha256")
    (.runtimeError "Team Hub startup authority fence is missing")
  if expected.reason = "host-reactivation" then checkHostReactivationHandoff root expected t
  return digest

/-- `publish_managed_startup_authority`. The identity that a caller gives is normalized first. -/
def publishManagedStartupAuthority [Sha256] (system : System) (root : Path) (given : Expected)
    (token : Token) : Program FileTree Failure Unit := do
  let hostIdentity ← look fun _ => identity given.hostIdentity
  let expected := { given with hostIdentity }
  let digest ← look (authenticateFence root expected)
  let payload := authorityPayload expected digest
  let current ← look fun t => ifThere (readPrivateRegularFile t (authorityPath root) maxControlSize)
  match current with
  | none => createOwnedMaintenanceFence system (authorityPath root) payload
  | some bytes =>
      if bytes = payload then pure ()
      else replacePrivateControlFile system (authorityPath root) token payload

/-- `clear_managed_startup_authority` -/
def clearManagedStartupAuthority (root : Path) (expected : Expected) :
    Program FileTree Failure Bool := do
  match ← look fun t => ifThere (readManagedStartupAuthority root t) with
  | none => pure false
  | some fields => do
      look fun _ => require (textOf fields "host_server_identity" = some expected.hostIdentity ∧
          textOf fields "hub_id" = some expected.hubId ∧
          textOf fields "reason" = some expected.reason ∧
          textOf fields "operation_id" = some expected.operationId ∧
          textOf fields "snapshot" = some expected.snapshot.name)
        (.runtimeError "Team Hub startup authority does not match")
      change fun t => t.unlink (authorityPath root)
      pure true

/-- What a start without a fence does with the authority file. -/
def discardStartupAuthority (root : Path) : Program FileTree Failure Unit := do
  look fun t => require (t.node (fencePath root) = none)
    (.runtimeError "Team Hub startup authority fence changed")
  let there ← look fun t => .ok (t.node (authorityPath root)).isSome
  if there then
    look fun t =>
      match t.node (authorityPath root) with
      | some (.file id) =>
          require (isPrivate t id) (.permissionError "Team Hub startup authority file is unsafe")
      | _ => .error (.permissionError "Team Hub startup authority file is unsafe")
    change fun t => t.unlink (authorityPath root)

end Authority

end AgentsServer.HubStartup

import AgentsServer.Activation.Reader
import AgentsServer.Library.JsonLoads

/-!
# Private control files

How the Hub reads, creates and replaces the small files of its data directory.
A new file is written piece by piece under its own name, a replacement under a
temporary one that is then renamed. The owner of a file may open it whatever
its mode: a mode other than 0600 is refused anyway.
-/

namespace AgentsServer.HubStartup

open Library Program

inductive Failure where
  | osError (e : OsError)
  | nameTooLong
  | symlinkLoop
  | permissionError (message : String)
  | runtimeError (message : String)
  | valueError (message : String)
  deriving DecidableEq

/-- A change of the tree, which the operating system may refuse. -/
def change (f : FileTree → Except OsError FileTree) : Program FileTree Failure Unit :=
  act fun t => (f t).mapError .osError

/-! ## Reading -/

/-- `NAME_MAX` -/
def nameMax : Nat := 255

/-- `os.open` without following links, and the file that it opens. -/
def openFile (t : FileTree) (p : Path) (message : String) : Except Failure FileId := do
  require (∀ name ∈ p, Json.utf8Size name.toList ≤ nameMax) .nameTooLong
  match t.node p with
  | none => .error (.osError .fileNotFound)
  | some (.file id) => .ok id
  | some (.symlink _) => .error .symlinkLoop
  | some _ => .error (.permissionError message)

/-- A file with one name that only its owner may use. -/
def isPrivate (t : FileTree) (id : FileId) : Bool :=
  t.nlink id == 1 && (t.inodes id).owned && (t.inodes id).mode == 0o600

/-- `_read_private_regular_file`, of at least one byte. -/
def readPrivateRegularFile (t : FileTree) (p : Path) (maximum : Nat) : Except Failure Bytes := do
  let id ← openFile t p "Team Hub snapshot file is invalid"
  let bytes := (t.inodes id).bytes
  require (isPrivate t id ∧ 1 ≤ bytes.length ∧ bytes.length ≤ maximum)
    (.permissionError "Team Hub snapshot file is invalid")
  return bytes

/-- `_sha256_private_regular_file` -/
def sha256PrivateRegularFile [Sha256] (t : FileTree) (p : Path) : Except Failure String := do
  let id ← openFile t p "Team Hub snapshot file is not owner-only"
  require (isPrivate t id) (.permissionError "Team Hub snapshot file is not owner-only")
  return Sha256.hexdigest (t.inodes id).bytes

/-- A read for which a missing file is no error. -/
def ifThere {α : Type} : Except Failure α → Except Failure (Option α)
  | .ok a => .ok (some a)
  | .error (.osError .fileNotFound) => .ok none
  | .error e => .error e

/-! ## Writing -/

/-- What the system adds to a call: the mask of the process, and the pieces in which a
write reaches the disk. -/
structure System where
  umask : Nat
  pieces : Bytes → List Bytes
  pieces_flatten : ∀ value, (pieces value).flatten = value

/-- `mkdir` of one directory. -/
def makeDirectory (p : Path) : Program FileTree Failure Unit := do
  let missing ← look fun t => .ok (t.node p).isNone
  if missing then
    change fun t => .ok (t.put p (.directory t.fresh true 0o700))

/-- `path.mkdir(parents=True, exist_ok=True)` -/
def makeDirectories (p : Path) : Program FileTree Failure Unit := do
  let missing ← look fun t => .ok (t.node p).isNone
  if missing then each makeDirectory p.inits

/-- `ensure_private_directory` -/
def ensurePrivateDirectory (p : Path) : Program FileTree Failure Unit := do
  makeDirectories p
  let id ← look fun t =>
    match t.node p with
    | some (.directory id true _) => .ok id
    | some (.directory _ false _) =>
        .error (.permissionError "Team Hub data path must be an owner-controlled directory")
    | _ => .error (.osError .notADirectory)
  change fun t => .ok (t.put p (.directory id true 0o700))

/-- `os.open` of a new file. -/
def createFile (system : System) (p : Path) (t : FileTree) : Except OsError FileTree :=
  if (t.node p).isSome then .error .fileExists
  else .ok ((t.put p (.file t.fresh)).setInode t.fresh
    { owned := true, mode := 0o600 &&& (0o777 ^^^ system.umask), bytes := [] })

/-- One `os.write`. -/
def appendBytes (id : FileId) (piece : Bytes) (t : FileTree) : FileTree :=
  t.setInode id { t.inodes id with bytes := (t.inodes id).bytes ++ piece }

/-- The mode and the content of a file that was just created. -/
def fill (system : System) (id : FileId) (value : Bytes) : Program FileTree Failure Unit := do
  change fun t => .ok (t.chmod id 0o600)
  each (fun piece => change fun t => .ok (appendBytes id piece t)) (system.pieces value)

/-- The file behind a name. -/
def fileAt (t : FileTree) (p : Path) : Except Failure FileId :=
  match t.node p with
  | none => .error (.osError .fileNotFound)
  | some (.file id) => .ok id
  | some _ => .error (.runtimeError "Team Hub maintenance fence changed")

/-- The new file is still there as it was written. -/
def checkCreated (t : FileTree) (p : Path) (id : FileId) (value : Bytes) :
    Except Failure Unit := do
  require ((t.inodes id).owned ∧ t.nlink id = 1 ∧ (t.inodes id).mode = 0o600)
    (.permissionError "Team Hub maintenance fence is unsafe")
  let linked ← fileAt t p
  require (linked = id ∧ (t.inodes id).bytes = value)
    (.runtimeError "Team Hub maintenance fence changed")

/-- The new file is removed again after an error. -/
def removeCreated (p : Path) (id : FileId) : Program FileTree Failure Unit := do
  let there ← look fun t => .ok (t.node p).isSome
  if there then
    look fun t => require (t.node p = some (.file id))
      (.runtimeError "Team Hub maintenance fence remains fail-closed")
    change fun t => t.unlink p

/-- `_create_owned_maintenance_fence` -/
def createOwnedMaintenanceFence (system : System) (p : Path) (value : Bytes) :
    Program FileTree Failure Unit := do
  ensurePrivateDirectory p.parent
  change (createFile system p)
  let id ← look fun t => fileAt t p
  Program.rescue (do
      fill system id value
      look fun t => checkCreated t p id value)
    fun e => do
      removeCreated p id
      raise e

/-- `_validate_secret_file` -/
def validateSecretFile (t : FileTree) (p : Path) : Except Failure Unit := do
  let id ← openFile t p "secret path is not an owner-controlled regular file"
  require (t.nlink id = 1 ∧ (t.inodes id).owned)
    (.permissionError "secret path is not an owner-controlled regular file")
  require ((t.inodes id).mode = 0o600) (.permissionError "secret file must have mode 0600")
  require (32 ≤ (t.inodes id).bytes.length ∧ (t.inodes id).bytes.length ≤ 4096)
    (.permissionError "secret file has an invalid size")

/-- `create_secret_file` -/
def createSecretFile (system : System) (p : Path) (value : Bytes) :
    Program FileTree Failure Unit := do
  ensurePrivateDirectory p.parent
  change (createFile system p)
  let id ← look fun t => fileAt t p
  fill system id value
  look fun t => validateSecretFile t p

/-- What `secrets.token_hex(12)` draws. -/
structure Token where
  text : String
  hex : isHexOf 24 text.toList = true

/-- The temporary name of a replacement. -/
def temporaryPath (p : Path) (token : Token) : Path :=
  p.parent.child ("." ++ p.name ++ "." ++ token.text ++ ".tmp")

/-- `_replace_private_control_file_unlocked` -/
def replacePrivateControlFile (system : System) (p : Path) (token : Token) (payload : Bytes) :
    Program FileTree Failure Unit :=
  Program.rescue (do
      createSecretFile system (temporaryPath p token) payload
      change fun t => t.rename (temporaryPath p token) p)
    fun e => do
      let there ← look fun t => .ok (t.node (temporaryPath p token)).isSome
      if there then change fun t => t.unlink (temporaryPath p token)
      raise e

end AgentsServer.HubStartup

import AgentsServer.InteractiveShares.Store
import AgentsServer.Library.Crash
import AgentsServer.Library.Runs

/-!
# The routes of interactive shares

Each route runs a section under the lock of its share: transactions of the store and one
callback, one after another. The server may stop after any of them. Reads take no lock.
-/

namespace AgentsServer.InteractiveShares

open Library

/-! ## The server -/

/-- What happened, in order: reservations, callbacks, answers and revocations. -/
inductive Effect where
  | reserved (shareId requestId operation prompt : String) (refs : List String)
  /-- `submit_prompt`, with the uploads that the request named -/
  | prompted (shareId requestId sessionId prompt : String) (uploadIds : Json) (refs : List String)
  /-- `chat_control` of an action -/
  | controlled (shareId requestId sessionId action : String) (payload : Json)
  /-- `chat_control` of a read -/
  | read (shareId requestId sessionId action : String) (payload : Json)
  /-- `save_upload` -/
  | saved (shareId sessionId name mediaType : String) (data : Bytes)
  | answered (shareId requestId : String) (receipt : Json)
  | revoked (shareId : String)

/-- A read that was authorized and has not called back yet. -/
structure Reading where
  shareId : String
  requestId : String
  sessionId : String
  action : String
  payload : Json

/-- The reads are in memory, the rest is not. -/
structure World where
  store : Store
  log : List Effect
  reading : List Reading

def World.empty : World := ⟨.empty, [], []⟩

abbrev Routine := Program World Failure

/-- One call of `worker`: the time on its clock, and what it raises before its transaction. -/
structure Turn where
  now : Time
  fault : Option Failure

namespace Routine

/-- A transaction that reads. -/
def query {α : Type} (turn : Turn) (body : Store → Except Failure α) : Routine α :=
  Program.look fun w =>
    match turn.fault with
    | some e => .error e
    | none => body w.store

/-- A transaction that writes. -/
def transaction {α : Type} (turn : Turn) (body : Store → Except Failure (α × Store))
    (entries : α → List Effect) : Routine α where
  run w :=
    match turn.fault with
    | some e => ([], .error e)
    | none =>
        match body w.store with
        | .ok (a, store) => ([{ w with store := store, log := w.log ++ entries a }], .ok a)
        | .error e => ([], .error e)

/-- The start of a callback, or an answer that is sent. -/
def record (entry : Effect) : Routine Unit :=
  Program.act fun w => .ok { w with log := w.log ++ [entry] }

def check (c : Prop) [Decidable c] (e : Failure) : Routine Unit :=
  Program.look fun _ => require c e

def given {α : Type} (result : Except Failure α) : Routine α := Program.look fun _ => result

/-- `except` clauses that raise another error. -/
def translate {α : Type} (change : Failure → Failure) (p : Routine α) : Routine α :=
  p.rescue fun e => Program.raise (change e)

end Routine

open Routine

/-! ## Requests -/

/-- What `auth` reads of a request: what `public_guard` raises, the cookies of the right name,
and the header that confirms a write. -/
structure Request where
  guard : Except Failure Unit
  cookies : List String
  csrf : String

def unavailableShare : Failure := .http 404 "Shared conversation unavailable"

/-- `auth` of a write: the share and the token. -/
def auth [Sha256] (request : Request) (shareId : String) (turn : Turn)
    (sessionExists : String → Bool) : Routine (ShareRow × String) := do
  given request.guard
  check (isShareId shareId = true) unavailableShare
  check (request.cookies.length = 1) unavailableShare
  let token ← given (required request.cookies.head? unavailableShare)
  let grant ← translate (fun e => if e = .unavailable then unavailableShare else e)
    (query turn fun store => store.authorized shareId token turn.now)
  check (sessionExists grant.sessionId = true) unavailableShare
  let expected ← given (csrfToken token)
  check (isHexOf 64 request.csrf.toList = true ∧ request.csrf = expected)
    (.http 403 "Missing or invalid request confirmation")
  pure (grant, token)

/-- `[A-Za-z0-9_-]{16,128}`. -/
def isRequestId (text : String) : Bool :=
  decide (16 ≤ text.length ∧ text.length ≤ 128) && text.toList.all PublicShares.isUrlSafe

/-- The body of a prompt: its text, the uploads that it names, and its request id. -/
structure PromptBody where
  prompt : String
  uploadIds : Json
  requestId : String

def needsRequestId : Failure := .http 400 "A stable request ID is required"

/-- The checks of the body of a prompt. -/
def promptBody (fields : List (String × Json)) : Except Failure PromptBody := do
  let refused : Failure := .http 400 "Only a prompt and this share's uploads are accepted"
  require (∀ field ∈ fields, field.1 ∈ ["prompt", "upload_ids", "request_id"]) refused
  let prompt ← required ((Json.lookup fields "prompt").bind Json.str?) refused
  let requestId ← required ((Json.lookup fields "request_id").bind Json.str?) needsRequestId
  require (isRequestId requestId = true) needsRequestId
  pure ⟨prompt, (Json.lookup fields "upload_ids").getD (.arr []), requestId⟩

def controlActions : List String :=
  ["turn.stop", "turn.steer", "queue.run_now", "queue.edit", "queue.delete", "queue.move",
    "settings.update", "goal.set", "goal.resume", "goal.pause", "goal.delete", "job.create",
    "job.update", "job.delete", "job.toggle", "job.run", "approval.respond"]

def controlReadActions : List String :=
  ["timeline.older", "timeline.around", "timeline.trace", "timeline.index", "jobs.runs",
    "runtime.catalog", "handoffs.get"]

structure ControlBody where
  action : String
  payload : Json
  requestId : String

/-- The text of a payload: sorted keys and compact separators. -/
def ControlBody.encoded (body : ControlBody) : String := String.ofList (Json.canonical body.payload)

/-- The checks of the body of a control. -/
def controlBody (fields : List (String × Json)) : Except Failure ControlBody := do
  let refused : Failure := .http 400 "Choose an explicitly supported chat action"
  require (Json.hasKeys ["action", "payload", "request_id"] fields = true) refused
  let action ← required ((Json.lookup fields "action").bind Json.str?) refused
  require (action ∈ controlActions ++ controlReadActions) refused
  let payload := (Json.lookup fields "payload").getD .null
  let _ ← required payload.obj? refused
  let requestId ← required ((Json.lookup fields "request_id").bind Json.str?) needsRequestId
  require (isRequestId requestId = true) needsRequestId
  let body : ControlBody := ⟨action, payload, requestId⟩
  let _ ← (utf8Size body.encoded "Action payload" maxPromptBytes).mapError fun _ =>
    .http 400 "Invalid action payload"
  pure body

/-! ## Deliveries -/

/-- `reserve_submission` with the error that the client sees. -/
def reserve [Sha256] (turn : Turn) (shareId token requestId prompt : String)
    (refs : List String) (operation : String) : Routine (Option Json) :=
  translate (fun | .conflict message => .http 409 message | e => e)
    (transaction turn
      (fun store =>
        store.reserveSubmission shareId token requestId prompt refs operation turn.now)
      fun
        | none => [.reserved shareId requestId operation prompt refs]
        | some _ => [])

/-- `accept_submission`. -/
def accept (turn : Turn) (shareId requestId : String) (receipt : Json) : Routine Unit :=
  transaction turn (fun store => store.acceptSubmission shareId requestId receipt) fun _ => []

/-- A recorded receipt is the answer; otherwise the work is done for the first time. -/
def submitted [Sha256] (turn : Turn) (shareId token requestId prompt : String)
    (refs : List String) (operation : String) (first : Routine Json) : Routine Json := do
  let previous ← reserve turn shareId token requestId prompt refs operation
  let receipt ← match previous with
    | some receipt => pure receipt
    | none => first
  record (.answered shareId requestId receipt)
  pure receipt

/-- `[A-Za-z0-9_.-]{1,128}`. -/
def isQueuedId (text : String) : Bool :=
  decide (1 ≤ text.length ∧ text.length ≤ 128) &&
    text.toList.all fun c => PublicShares.isUrlSafe c || c == '.'

/-- The receipt that is published of what `submit_prompt` returned. -/
def publicReceipt (returned : Json) (requestId : String) : Except Failure Json := do
  let invalid : Failure := .other "Invalid acceptance receipt"
  let fields ← required returned.obj? invalid
  require ((Json.lookup fields "accepted").bind Json.bool? = some true) invalid
  let queued ← required ((Json.lookup fields "queued").bind Json.bool?) invalid
  let receipt : List (String × Json) :=
    [("accepted", .bool true), ("queued", .bool queued), ("request_id", .str requestId)]
  match (Json.lookup fields "queued_id").getD .null with
  | .null => pure (.obj receipt)
  | value => do
      let invalid : Failure := .other "Invalid queued message receipt"
      let queuedId ← required value.str? invalid
      require (queued = true ∧ isQueuedId queuedId = true) invalid
      pure (.obj (receipt ++ [("queued_id", .str queuedId)]))

/-- A prompt that is delivered. `admitted` is what its checks before the lock raise besides
those of the body. -/
structure PromptCall where
  request : Request
  shareId : String
  fields : List (String × Json)
  admitted : Except Failure Unit
  sessionExists : String → Bool
  authTurn : Turn
  refsTurn : Turn
  reserveTurn : Turn
  acceptTurn : Turn
  callback : Except Failure Json

namespace PromptCall

variable [Sha256] (call : PromptCall) (body : PromptBody)

/-- What precedes the ledger: the share, the token and the references. -/
def prepare : Routine (ShareRow × String × List String) := do
  let (grant, token) ← auth call.request call.shareId call.authTurn call.sessionExists
  let refs ← translate
    (fun
      | .share (.validation message) => .http 400 message
      | .share .unavailable => .http 404 "Upload unavailable"
      | e => e)
    (do
      let _ ← given (utf8Size body.prompt "Prompt" maxPromptBytes)
      query call.refsTurn fun store =>
        store.uploadRefs call.shareId token body.uploadIds call.refsTurn.now)
  check (isBlank body.prompt = false ∨ refs ≠ []) (.http 400 "Write a prompt or attach a file")
  pure (grant, token, refs)

/-- The callback and its receipt. -/
def first (sessionId : String) (refs : List String) : Routine Json :=
  translate
    (fun _ => .http 503 ("Message acceptance is unconfirmed. Inspect the chat before sending " ++
      "again; this request will not be automatically retried"))
    (do
      record (.prompted call.shareId body.requestId sessionId body.prompt body.uploadIds refs)
      let returned ← given call.callback
      let receipt ← given (publicReceipt returned body.requestId)
      accept call.acceptTurn call.shareId body.requestId receipt
      pure receipt)

/-- `deliver`. -/
def deliver : Routine Json := do
  let (grant, token, refs) ← call.prepare body
  submitted call.reserveTurn call.shareId token body.requestId body.prompt refs "prompt"
    (call.first body grant.sessionId refs)

/-- `prompt`. -/
def route : Routine Json := do
  given call.admitted
  let body ← given (promptBody call.fields)
  call.deliver body

end PromptCall

mutual

/-- The blanks that `json.dumps` writes by default after commas and colons. -/
def spaces : Json → Nat
  | .arr items => (items.length - 1) + itemSpaces items
  | .obj fields => fields.length + (fields.length - 1) + fieldSpaces fields
  | _ => 0

def itemSpaces : List Json → Nat
  | [] => 0
  | item :: rest => spaces item + itemSpaces rest

def fieldSpaces : List (String × Json) → Nat
  | [] => 0
  | (_, value) :: rest => spaces value + fieldSpaces rest

end

/-- The receipt of an action that was accepted. -/
def controlReceipt (returned : Json) (action requestId : String) : Except Failure Json := do
  let invalid : Failure := .other "Invalid control receipt"
  let fields ← required returned.obj? invalid
  require ((Json.lookup fields "accepted").bind Json.bool? = some true) invalid
  let result := (Json.lookup fields "result").getD .null
  require ((Json.dumps result).length + spaces result ≤ 2 * 1024 * 1024)
    (.other "Control result is too large")
  pure (.obj [("accepted", .bool true), ("action", .str action), ("request_id", .str requestId),
    ("result", result)])

/-- The receipt of an action that was not permitted. -/
def refusalReceipt (code action requestId : String) : Json :=
  .obj [("accepted", .bool false), ("action", .str action), ("request_id", .str requestId),
    ("error_code", .str (if code = "forbidden" then "forbidden" else "invalid_request")),
    ("detail", .str (if code = "forbidden" then "This chat control request is not permitted"
      else "Invalid chat control request"))]

/-- A control that is delivered. -/
structure ControlCall where
  request : Request
  shareId : String
  fields : List (String × Json)
  admitted : Except Failure Unit
  sessionExists : String → Bool
  authTurn : Turn
  reserveTurn : Turn
  acceptTurn : Turn
  callback : Except Failure Json

namespace ControlCall

variable [Sha256] (call : ControlCall) (body : ControlBody)

/-- The callback and its receipt. -/
def first (sessionId : String) : Routine Json :=
  Program.rescue
    (do
      record (.controlled call.shareId body.requestId sessionId body.action body.payload)
      let returned ← given call.callback
      let receipt ← given (controlReceipt returned body.action body.requestId)
      accept call.acceptTurn call.shareId body.requestId receipt
      pure receipt)
    fun
      | .control code => do
          let receipt := refusalReceipt code body.action body.requestId
          accept call.acceptTurn call.shareId body.requestId receipt
          pure receipt
      | _ => Program.raise (.http 503 ("Action acceptance is unconfirmed. Inspect this chat " ++
          "before trying again; this request will not be automatically retried"))

/-- `apply_control`. -/
def applyControl : Routine Json := do
  let (grant, token) ← auth call.request call.shareId call.authTurn call.sessionExists
  submitted call.reserveTurn call.shareId token body.requestId body.encoded []
    ("control:" ++ body.action) (call.first body grant.sessionId)

/-- `control` of an action that is no read. -/
def route : Routine Json := do
  given call.admitted
  let body ← given (controlBody call.fields)
  check (body.action ∉ controlReadActions) (.other "a read")
  call.applyControl body

/-- `control` of a read, up to its callback. -/
def startRead : Routine Unit := do
  given call.admitted
  let body ← given (controlBody call.fields)
  check (body.action ∈ controlReadActions) (.other "an action")
  let (grant, _) ← auth call.request call.shareId call.authTurn call.sessionExists
  Program.act fun w => .ok { w with
    reading := w.reading ++
      [⟨call.shareId, body.requestId, grant.sessionId, body.action, body.payload⟩] }

end ControlCall

/-! ## Uploads, invitations and revocations -/

/-- A file that is uploaded, with the id that it gets. -/
structure UploadCall where
  request : Request
  shareId : String
  name : String
  mediaType : String
  data : Bytes
  admitted : Except Failure Unit
  sessionExists : String → Bool
  authTurn : Turn
  reserveTurn : Turn
  completeTurn : Turn
  uploadId : String
  callback : Except Failure String

namespace UploadCall

variable [Sha256] (call : UploadCall)

/-- `commit_upload`. -/
def commitUpload : Routine Json := do
  let (grant, token) ← auth call.request call.shareId call.authTurn call.sessionExists
  let uploadId ← translate (fun | .share (.validation message) => .http 400 message | e => e)
    (transaction call.reserveTurn
      (fun store => store.reserveUpload call.shareId token call.name call.mediaType
        call.data.length call.uploadId call.reserveTurn.now)
      fun _ => [])
  translate
    (fun _ => .http 503 ("File upload could not be confirmed; its storage reservation is " ++
      "retained"))
    (do
      record (.saved call.shareId grant.sessionId call.name call.mediaType call.data)
      let privateRef ← given call.callback
      transaction call.completeTurn
        (fun store =>
          store.completeUpload call.shareId token uploadId privateRef call.completeTurn.now)
        fun _ => [])
  pure (.obj [("id", .str uploadId), ("name", .str call.name), ("media_type", .str call.mediaType),
    ("byte_size", .num (NumLit.ofNat call.data.length))])

/-- `upload`. -/
def route : Routine Json := do
  given call.admitted
  call.commitUpload

end UploadCall

/-- `redeem`, after the checks of the request. -/
def redeemRoute [Sha256] (admitted : Except Failure Unit) (shareId invite : String) (turn : Turn) :
    Routine Json := do
  given admitted
  let invitation : Failure := .http 404 "Invitation unavailable"
  check (isShareId shareId = true) invitation
  let token ← translate (fun e => if e = .unavailable then invitation else e)
    (transaction turn (fun store => store.redeem shareId invite turn.now) fun _ => [])
  let csrf ← given (csrfToken token)
  pure (.obj [("redeemed", .bool true), ("csrf", .str csrf)])

/-- `revoke`, after the checks of the request. -/
def revokeRoute (admitted : Except Failure Unit) (sessionId shareId : String) (turn : Turn) :
    Routine Json := do
  given admitted
  let revoked ← Program.rescue
    (transaction turn (fun store => store.revokeShare shareId sessionId turn.now) fun _ => [])
    fun e => if e = .unavailable then pure false else Program.raise e
  check (revoked = true) (.http 404 "Share not found")
  record (.revoked shareId)
  pure (.obj [("revoked", .bool true)])

/-- `create`, after the checks of the request. -/
def createRoute [Sha256] (admitted : Except Failure Unit) (sessionId : String)
    (title : Option String) (expiresAt : Option Time) (publicOrigin invite shareId : String)
    (turn : Turn) : Routine Json := do
  given admitted
  let created ← transaction turn
    (fun store =>
      store.createShare sessionId title expiresAt publicOrigin invite shareId turn.now)
    fun _ => []
  pure (.obj [("id", .str created.id), ("title", .str created.title),
    ("access_token", .str invite)])

/-! ## Runs -/

/-- A section under the lock of its share. -/
inductive Call where
  | create (admitted : Except Failure Unit) (sessionId : String) (title : Option String)
      (expiresAt : Option Time) (publicOrigin invite shareId : String) (turn : Turn)
  | redeem (admitted : Except Failure Unit) (shareId invite : String) (turn : Turn)
  | revoke (admitted : Except Failure Unit) (sessionId shareId : String) (turn : Turn)
  | prompt (call : PromptCall)
  | control (call : ControlCall)
  | upload (call : UploadCall)

def Call.routine [Sha256] : Call → Routine Json
  | .create admitted sessionId title expiresAt publicOrigin invite shareId turn =>
      createRoute admitted sessionId title expiresAt publicOrigin invite shareId turn
  | .redeem admitted shareId invite turn => redeemRoute admitted shareId invite turn
  | .revoke admitted sessionId shareId turn => revokeRoute admitted sessionId shareId turn
  | .prompt call => call.route
  | .control call => call.route
  | .upload call => call.route

/-- A section runs to its end, or the server stops after some of its effects and starts again.
A read is authorized in one step and calls back in a later one. -/
inductive Action where
  | ran (call : Call)
  | stopped (call : Call) (effects : Nat)
  | startRead (call : ControlCall)
  | callRead (index : Nat)

namespace World

variable [Sha256] (w : World)

/-- What is left of the server after it stopped. -/
def restarted : World := { w with reading := [] }

/-- The callback of a read that was authorized. -/
def callRead (index : Nat) : World :=
  match w.reading[index]? with
  | none => w
  | some r =>
      { w with
        log := w.log ++ [.read r.shareId r.requestId r.sessionId r.action r.payload]
        reading := w.reading.eraseIdx index }

def step : Action → World × Option (Except Failure Json)
  | .ran call => (call.routine.final w, some (call.routine.run w).2)
  | .stopped call effects => (((call.routine.cuts w)[effects]?.getD w).restarted, none)
  | .startRead call => (call.startRead.final w, none)
  | .callRead index => (w.callRead index, none)

end World

end AgentsServer.InteractiveShares

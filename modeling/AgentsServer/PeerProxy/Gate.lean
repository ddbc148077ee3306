import AgentsServer.Library.JsonScan
import AgentsServer.PeerProxy.Query

/-!
# The gate of the peer proxy

What a paired peer asks of the Hub is authorized and normalized before it is forwarded:
one gate for JSON requests, and one for the bytes of attachments.
-/

namespace AgentsServer.PeerProxy

open Library
open PeerStore (PeerAuthorization)

variable [Interpreter]

def maxProxyBodyBytes : Nat := 65536

def maxAttachmentChunkBytes : Nat := 8 * 1024 * 1024

def maxAttachmentProtocolBytes : Nat := 999999999999999

def maxHeaders : Nat := 48

def maxHeaderValueBytes : Nat := 8192

abbrev Headers := List (String × String)

/-! ## Headers -/

def stripRequestHeaders : List String :=
  ["host", "content-length", "connection", "proxy-authorization", "proxy-authenticate", "te",
    "trailer", "transfer-encoding", "upgrade", "cookie", "origin", "referer", "forwarded",
    "x-forwarded-for", "x-forwarded-host", "x-forwarded-proto", "x-real-ip", "expect",
    "authorization"]

/-- How one of the two gates reads headers. -/
structure HeaderRules where
  /-- `str(raw_value)`, stripped or not. -/
  value : String → String
  /-- Line breaks are refused in every header, not only in forwarded ones. -/
  everyLine : Bool
  strippedPrefixes : List String
  pass : List String

def proxyHeaderRules : HeaderRules where
  value := id
  everyLine := false
  strippedPrefixes := ["x-forwarded-", "x-team-hub-bootstrap-", "x-team-hub-owner-recovery-",
    "x-team-hub-device-recovery-", "x-agentsdock-", "sec-"]
  pass := ["accept", "content-type"]

def attachmentHeaderRules : HeaderRules where
  value := fun value => String.ofList (strip value.toList)
  everyLine := true
  strippedPrefixes := ["x-forwarded-", "x-team-hub-", "x-agentsdock-", "sec-"]
  pass := ["accept", "content-type", "content-range", "range"]

def isOneLine (value : String) : Bool :=
  !value.toList.contains '\r' && !value.toList.contains '\n'

/-- `str(raw_name).strip().lower()`. -/
def headerName (raw : String) : String :=
  String.ofList (Interpreter.lower (strip raw.toList))

def HeaderRules.strips (rules : HeaderRules) (name : String) : Bool :=
  stripRequestHeaders.contains name ||
    rules.strippedPrefixes.any fun pre => pre.toList.isPrefixOf name.toList

def invalidHeaders : Failure := invalidRequest "Proxy request headers are invalid" 400

/-- The loop over the headers. -/
def forwardHeaders (rules : HeaderRules) (seen : List String) :
    Headers → Except Failure Headers
  | [] => .ok []
  | (rawName, rawValue) :: rest => do
      let name := headerName rawName
      let value := rules.value rawValue
      require (name ≠ "" ∧ name.length ≤ 80 ∧ (utf8 value.toList).length ≤ maxHeaderValueBytes ∧
        (rules.everyLine = true → isOneLine value = true) ∧ name ∉ seen) invalidHeaders
      if rules.strips name then forwardHeaders rules (name :: seen) rest
      else if rules.pass.contains name then do
        require (rules.everyLine = true ∨ isOneLine value = true) invalidHeaders
        let forwarded ← forwardHeaders rules (name :: seen) rest
        return (name, value) :: forwarded
      else forwardHeaders rules (name :: seen) rest

/-- The forwarded headers of a request. -/
def requestHeaders (rules : HeaderRules) (headers : Headers) : Except Failure Headers := do
  require (headers.length ≤ maxHeaders) (invalidRequest "Too many request headers" 431)
  forwardHeaders rules [] headers

/-! ## The gate for JSON requests -/

structure ProxyRequest where
  method : String
  path : String
  query : String
  headers : Headers
  body : Bytes
  peer : PeerAuthorization

def upper (method : String) : String := String.ofList (Interpreter.upper method.toList)

def methodNotAllowed : Failure :=
  .securePeerError "method_not_allowed" "Proxy method is not permitted" 405

def forbidden : Failure :=
  .securePeerError "forbidden" "Peer scope does not permit this Hub request" 403

/-- The limits of `json.loads`. -/
def jsonLimits : JsonScan.Limits := ⟨Interpreter.nesting, Interpreter.intDigits⟩

/-- `isinstance(json.loads(body), dict)`, with the errors that are caught here. -/
def checkJsonBody (body : Bytes) : Except Failure Unit :=
  match JsonScan.loadsDict jsonLimits body with
  | .ok true => .ok ()
  | .ok false | .error .valueError =>
      .error (invalidRequest "Proxy body must be a JSON object" 422)
  | .error .recursionError => .error .recursionError

def checkBody (method : String) (headers : Headers) (body : Bytes) : Except Failure Unit :=
  if method = "POST" ∨ method = "DELETE" then do
    require ((headers.filter fun h => h.1 = "content-type").map Prod.snd = ["application/json"] ∧
      body ≠ []) (invalidRequest "JSON proxy body is required" 415)
    checkJsonBody body
  else require (body = []) (invalidRequest "Proxy request body is not permitted" 422)

abbrev ResourceTeamResolver := String → String → Except Failure (Option String)

/-- The resource has to be one of the team, if there is one. -/
def checkResource (resolver : Option ResourceTeamResolver) (teamId : String)
    (channel : Option String) : Except Failure Unit :=
  match channel with
  | none => .ok ()
  | some channel =>
      let outside := routeForbidden "Hub resource is outside the paired team"
      match resolver with
      | none => .error outside
      | some resolve => do
          let team ← resolve "channel" channel
          require (team = some teamId) outside

def sanitizeProxyRequest (resolver : Option ResourceTeamResolver) (peer : PeerAuthorization)
    (method path query : String) (headers : Headers) (body : Bytes) :
    Except Failure ProxyRequest := do
  let normalized := upper method
  require (normalized ∈ ["GET", "POST", "DELETE"]) methodNotAllowed
  require (isProxyPath path = true) (routeForbidden "Hub route is not permitted")
  require (query.length ≤ 2048 ∧ query.toList.contains '#' = false)
    (invalidRequest "Proxy query is invalid" 422)
  require (body.length ≤ maxProxyBodyBytes)
    (.securePeerError "request_too_large" "Proxy request is too large" 413)
  let access ← proxyAccess peer.teamId normalized path
  require (access.requiredScope ∈ peer.scopes) forbidden
  checkResource resolver peer.teamId access.channel
  let forwardedQuery ← proxyQuery normalized path query access.query
  let forwarded ← requestHeaders proxyHeaderRules headers
  checkBody normalized forwarded body
  return ⟨normalized, path, forwardedQuery, forwarded, body, peer⟩

/-! ## The resolver of the Hub -/

structure Channel where
  id : String
  teamId : String
  archivedAt : Option Nat
  deriving DecidableEq

/-- `_identity` of a text, which raises a plain `ValueError`. -/
def identity (value : String) : Except Failure String :=
  let normalized := String.ofList (strip value.toList)
  if PeerStore.isIdentifier normalized then .ok normalized else .error .valueError

/-- `HubStore.secure_peer_resource_team`, which the runtime gives the gate. -/
def resourceTeam (channels : List Channel) : ResourceTeamResolver := fun kind resource =>
  if kind ≠ "channel" then .ok none
  else do
    let clean ← identity resource
    return (channels.find? fun row => row.id = clean && row.archivedAt.isNone).map Channel.teamId

/-! ## The gate for attachments -/

structure AttachmentProxyRequest where
  method : String
  path : String
  headers : Headers
  body : Bytes
  peer : PeerAuthorization

/-- `_ATTACHMENT_CONTENT_ROUTE_RE`: the team. -/
def attachmentRoute? (path : String) : Option String :=
  match segments path with
  | [root, v1, teams, team, network, attachments, attachment, content] =>
      if [root, v1, teams] = ["", "v1", "teams"] ∧ isHubSegment team ∧
          [network, attachments] = ["network", "attachments"] ∧ isHubSegment attachment ∧
          content = "content" then
        some team
      else none
  | _ => none

def isDigits (least : Nat) (text : List Char) : Bool :=
  least ≤ text.length && text.length ≤ 15 && text.all Char.isDigit

structure ContentRange where
  start : Nat
  stop : Nat
  total : Nat

/-- `_ATTACHMENT_CONTENT_RANGE_RE`. -/
def contentRange? (value : String) : Option ContentRange := do
  let rest ← dropPrefix? "bytes " value.toList
  match rest.splitOn '-' with
  | [start, rest] =>
      match rest.splitOn '/' with
      | [stop, total] =>
          if isDigits 1 start ∧ isDigits 1 stop ∧ isDigits 1 total then
            some ⟨decimal start, decimal stop, decimal total⟩
          else none
      | _ => none
  | _ => none

/-- `_ATTACHMENT_RANGE_RE` with one of its ends given. -/
def isRange (value : String) : Bool :=
  match dropPrefix? "bytes=" value.toList with
  | none => false
  | some rest =>
      match rest.splitOn '-' with
      | [start, stop] =>
          isDigits 0 start && isDigits 0 stop && !(start.isEmpty && stop.isEmpty)
      | _ => false

/-- A chunk covers exactly the bytes its `Content-Range` names. -/
def ContentRange.Covers (range : ContentRange) (length maximum : Nat) : Prop :=
  range.start ≤ range.stop ∧ range.stop - range.start + 1 = length ∧ range.stop < range.total ∧
    1 ≤ range.total ∧ range.total ≤ maximum

instance (range : ContentRange) (length maximum : Nat) :
    Decidable (range.Covers length maximum) :=
  inferInstanceAs (Decidable (_ ∧ _))

def checkUpload (headers : Headers) (body : Bytes) (maximum : Nat) : Except Failure Unit := do
  let invalid := invalidRequest "Content-Range is invalid" 422
  require (1 ≤ body.length ∧ body.length ≤ maxAttachmentChunkBytes)
    (.securePeerError "request_too_large" "Attachment chunk size is invalid" 413)
  require (headers.lookup "content-type" = some "application/octet-stream")
    (invalidRequest "Content-Type must be application/octet-stream" 415)
  let range ← required ((headers.lookup "content-range").bind contentRange?) invalid
  require (range.Covers body.length maximum ∧ headers.lookup "range" = none) invalid

def checkDownload (headers : Headers) (body : Bytes) : Except Failure Unit := do
  require (body = [] ∧ headers.lookup "content-type" = none ∧
    headers.lookup "content-range" = none)
    (invalidRequest "Attachment download requests cannot carry a body" 422)
  match headers.lookup "range" with
  | none => .ok ()
  | some range => require (isRange range = true) (invalidRequest "Range is invalid" 422)

def checkTransfer (method : String) (headers : Headers) (body : Bytes) (maximum : Nat) :
    Except Failure Unit :=
  if method = "PUT" then checkUpload headers body maximum else checkDownload headers body

def sanitizeAttachmentProxyRequest (peer : PeerAuthorization) (method path query : String)
    (headers : Headers) (body : Bytes) (maximumAttachmentBytes : Nat) :
    Except Failure AttachmentProxyRequest := do
  require (1 ≤ maximumAttachmentBytes ∧ maximumAttachmentBytes ≤ maxAttachmentProtocolBytes)
    (.securePeerError "hub_unavailable" "Team Hub attachment limit is invalid" 503)
  let normalized := upper method
  require (path.length ≤ 1024 ∧ path.toList.contains '%' = false ∧
    path.toList.contains '\\' = false ∧ attachmentRoute? path = some peer.teamId)
    (routeForbidden "Hub route is not permitted")
  require (normalized ∈ ["PUT", "GET", "HEAD"]) methodNotAllowed
  require (query = "") (invalidRequest "Query is not accepted for this route" 422)
  require ((if normalized = "PUT" then .teamspaceWrite else .teamspaceRead) ∈ peer.scopes)
    forbidden
  let forwarded ← requestHeaders attachmentHeaderRules headers
  checkTransfer normalized forwarded body maximumAttachmentBytes
  return ⟨normalized, path, forwarded, body, peer⟩

end AgentsServer.PeerProxy

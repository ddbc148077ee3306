import AgentsServer.Library.Tables
import Mathlib.Data.List.Sort
import AgentsServer.TeamHub.Request

/-!
# Team Hub tables

The rows of the Team Messages tables, and what a call learns from the identity
tables: who the caller is and which names, members and servers a team has.
-/

namespace AgentsServer.TeamHub

open Library

/-- The text `secrets.token_hex(16)` returns. -/
@[ext] structure TokenHex where
  text : String
  hex : isHexOf 32 text.toList = true

/-- `_id(prefix)`. -/
def newId (pre : String) (token : TokenHex) : String :=
  pre ++ "_" ++ token.text

/-- A new id is its prefix followed by 32 hexadecimal digits. -/
theorem isPrefixedHex_newId (pre : String) (token : TokenHex) :
    isPrefixedHex (pre ++ "_") 32 (newId pre token) = isHexOf 32 token.text.toList :=
  isPrefixedHex_append _ _ _

theorem newId_inj {pre : String} {a b : TokenHex} (h : newId pre a = newId pre b) :
    a.text = b.text :=
  (String.append_right_inj _).mp h

/-- The largest row id of SQLite. -/
def maxRowId : Nat := 9223372036854775807

/-! ## Messages -/

/-- The last columns of `team_messages`: mail carries a subject, a skill post
its title and the version it publishes. -/
inductive MessageContent where
  | message (subject : Option String)
  | skill (title skillId : String) (version : Nat)
  deriving DecidableEq

def MessageContent.isMessage : MessageContent → Bool
  | .message _ => true
  | .skill .. => false

/-- A row of `team_messages`. The sender is a server exactly when a node is named. -/
structure MessageRow where
  ordinal : Nat
  id : String
  teamId : String
  content : MessageContent
  body : Body
  senderPrincipalId : String
  senderNodeId : Option String
  provenance : List (String × Json)
  inReplyTo : Option String
  toAllServers : Bool
  idempotencyKey : Bytes
  createdAt : Nat

inductive Recipient where
  | server (nodeId : String)
  | human (principalId : String)
  | all
  deriving DecidableEq

/-- The place of a kind in the order of the kinds' texts. -/
def Recipient.rank : Recipient → Nat
  | .all => 0
  | .human _ => 1
  | .server _ => 2

/-- The receipt state with its two times. -/
inductive Receipt where
  | available
  | delivered (deliveredAt : Nat)
  | read (deliveredAt readAt : Nat)
  deriving DecidableEq

/-- A row of `team_message_recipients`. -/
structure RecipientRow where
  id : String
  teamId : String
  messageId : String
  recipient : Recipient
  receipt : Receipt
  dismissedAt : Option Nat
  inboxUnread : Option Bool
  mailboxStateVersion : Nat
  deriving DecidableEq

/-- The order of `_team_message_recipients`: the kind's text, then the id. -/
def RecipientRow.Before (a b : RecipientRow) : Prop :=
  a.recipient.rank < b.recipient.rank ∨ (a.recipient.rank = b.recipient.rank ∧ a.id ≤ b.id)

instance (a b : RecipientRow) : Decidable (RecipientRow.Before a b) := by
  unfold RecipientRow.Before
  infer_instance

/-- A row of `team_message_revisions`. -/
structure RevisionRow where
  id : String
  teamId : String
  messageId : String
  version : Nat
  body : Body
  editorPrincipalId : String
  editorNodeId : Option String
  idempotencyKey : Bytes
  createdAt : Nat
  deriving DecidableEq

/-- A row of `network_content_deletions` of the resource kind `message`. -/
structure DeletionRow where
  id : String
  teamId : String
  messageId : String
  deletedBy : String
  deletedAt : Nat
  deriving DecidableEq

/-! ## Skills -/

/-- A row of `team_skills`. -/
structure SkillRow where
  id : String
  teamId : String
  slug : String
  title : String
  summary : String
  tags : List String
  currentVersion : Nat
  createdBy : String
  pinnedAt : Option Nat
  archivedAt : Option Nat
  createdAt : Nat
  updatedAt : Nat
  deriving DecidableEq

/-- A row of `team_skill_versions`. -/
structure SkillVersionRow where
  id : String
  teamId : String
  skillId : String
  version : Nat
  messageId : String
  title : String
  summary : String
  tags : List String
  changeNote : String
  createdAt : Nat
  deriving DecidableEq

/-! ## Heads -/

/-- A row of `team_mail_arrivals`. -/
structure ArrivalRow where
  teamId : String
  nodeId : String
  throughSequence : Nat
  arrivalId : String
  deriving DecidableEq

inductive ChangeKind where
  | created
  | revised
  | deleted
  deriving DecidableEq

/-- A row of `team_bulletin_changes`. -/
structure ChangeRow where
  sequence : Nat
  id : String
  teamId : String
  messageId : String
  changeKind : ChangeKind
  messageVersion : Nat
  deriving DecidableEq

/-! ## Attachments -/

inductive UploadState where
  | uploading
  | ready (readyAt : Nat)
  | failed
  deriving DecidableEq

def UploadState.isReady : UploadState → Bool
  | .ready _ => true
  | _ => false

/-- A row of `team_attachments`. The column `sha256` is `storage_key` decoded. -/
structure AttachmentRow where
  id : String
  teamId : String
  messageId : Option String
  fileName : String
  mediaType : String
  byteSize : Nat
  storageKey : String
  state : UploadState
  receivedBytes : Nat
  uploadedBy : String
  uploaderNodeId : Option String
  idempotencyKey : Bytes
  createdAt : Nat
  expiresAt : Nat
  deriving DecidableEq

inductive PathKind where
  | staging
  | content
  deriving DecidableEq

/-- A row of `team_attachment_cleanup_queue`. -/
structure CleanupRow where
  pathKind : PathKind
  pathKey : String
  createdAt : Nat
  attemptCount : Nat
  deriving DecidableEq

/-! ## Replays -/

/-- A row of `request_idempotency`, with `response_json` decoded. -/
structure IdempotencyRow where
  teamId : String
  principalId : String
  operation : String
  keyHash : Bytes
  fingerprint : Bytes
  response : Json

/-- The tables that Team Messages operations read and write. The two sequences
are the largest row ids ever given. -/
structure Hub where
  messages : List MessageRow
  messageSequence : Nat
  recipients : List RecipientRow
  revisions : List RevisionRow
  deletions : List DeletionRow
  skills : List SkillRow
  skillVersions : List SkillVersionRow
  arrivals : List ArrivalRow
  changes : List ChangeRow
  changeSequence : Nat
  attachments : List AttachmentRow
  cleanup : List CleanupRow
  requests : List IdempotencyRow

def Hub.empty : Hub where
  messages := []
  messageSequence := 0
  recipients := []
  revisions := []
  deletions := []
  skills := []
  skillVersions := []
  arrivals := []
  changes := []
  changeSequence := 0
  attachments := []
  cleanup := []
  requests := []

/-! ## Callers -/

inductive AuthKind where
  | human
  | securePeer
  | localAgentMail
  | managedServer
  deriving DecidableEq

/-- `NETWORK_AUTOMATION_AUTH_KINDS`. -/
def AuthKind.isAutomation : AuthKind → Bool
  | .human => false
  | _ => true

/-- `AccessClaims`, as far as Team Messages read them. -/
structure Claims where
  principalId : String
  authKind : AuthKind
  teamId : Option String
  scopes : List String

inductive Role where
  | owner
  | admin
  | member
  | guest
  | automation
  deriving DecidableEq

/-- A mailbox that a caller may own. -/
inductive Address where
  | server (nodeId : String)
  | human (principalId : String)
  deriving DecidableEq

def Address.recipient : Address → Recipient
  | .server nodeId => .server nodeId
  | .human principalId => .human principalId

/-- A caller of one team, with what the identity tables answer at the time of
the call: the role under the read and the write scope, the node it controls,
whether its write is charged, and whether the audit and outbox rows go in. -/
structure Caller where
  claims : Claims
  networkScope : (write : Bool) → Except Failure Role
  networkNode : Except Failure String
  charge : Nat → Except Failure Unit
  recorded : Except Failure Unit

/-- The names, servers and members of a team at the time of a call. -/
structure Directory where
  principalName : String → Option String
  nodeName : String → Option String
  /-- the servers of the roster, ordered, that all-server mail goes to -/
  liveServers : List String
  hasServer : String → Bool
  hasMember : String → Bool
  mailRouteLifecycle : String → Option String

namespace Caller

/-- `_team_sender`: the node of an automation caller. -/
def teamSender (caller : Caller) : Except Failure (Option String) :=
  if caller.claims.authKind.isAutomation then some <$> caller.networkNode else .ok none

def isUnavailableHost : Failure → Bool
  | .hubError code _ _ => code == "network_host_unavailable"
  | _ => false

/-- `_team_owned_addresses`. -/
def ownedAddresses (caller : Caller) (role : Role) : Except Failure (List Address) :=
  if caller.claims.authKind.isAutomation then
    (fun node => [.server node]) <$> caller.networkNode
  else
    let own := .human caller.claims.principalId
    if role = .owner ∨ role = .admin ∨ role = .member then
      match caller.networkNode with
      | .ok node => .ok [own, .server node]
      | .error e => if isUnavailableHost e then .ok [own] else .error e
    else .ok [own]

/-- `_network_source_author_matches`. -/
def sourceAuthorMatches (caller : Caller) (row : MessageRow) : Except Failure Bool :=
  if row.senderPrincipalId = caller.claims.principalId then .ok true
  else
    match row.senderNodeId with
    | none => .ok false
    | some node =>
        if caller.claims.authKind.isAutomation then
          (fun own => decide (own = node)) <$> caller.networkNode
        else .ok false

/-- `_team_message_author_matches`. -/
def authorMatches (caller : Caller) (row : MessageRow) : Except Failure Bool :=
  match row.senderNodeId with
  | none =>
      .ok (!caller.claims.authKind.isAutomation &&
        decide (row.senderPrincipalId = caller.claims.principalId))
  | some node =>
      if caller.claims.authKind.isAutomation then
        (fun own => decide (own = node)) <$> caller.networkNode
      else .ok false

def managedServerPrincipalId : String := "service_managed_server"

/-- `_network_host_operator_can_moderate`. -/
def canModerate (caller : Caller) (teamId : String) (role : Role) : Bool :=
  decide (caller.claims.authKind = .managedServer) &&
    decide (caller.claims.principalId = managedServerPrincipalId) &&
    decide (caller.claims.teamId = some teamId) &&
    decide (role = .automation) && caller.claims.scopes.contains "teamspace.write"

end Caller

/-! ## Lookups -/

namespace Hub

/-- The message of a team with an id. -/
def message? (h : Hub) (teamId id : String) : Option MessageRow :=
  h.messages.find? fun m => m.teamId = teamId ∧ m.id = id

def isDeleted (h : Hub) (teamId id : String) : Bool :=
  h.deletions.any fun d => d.teamId = teamId ∧ d.messageId = id

/-- The message, unless it was deleted. -/
def liveMessage? (h : Hub) (teamId id : String) : Option MessageRow :=
  if h.isDeleted teamId id then none else h.message? teamId id

/-- The revisions of a message. -/
def revisionsOf (h : Hub) (teamId id : String) : List RevisionRow :=
  h.revisions.filter fun r => r.teamId = teamId ∧ r.messageId = id

def newerRevision (best : Option RevisionRow) (r : RevisionRow) : Option RevisionRow :=
  match best with
  | some b => if b.version < r.version then some r else best
  | none => some r

/-- The revision with the largest version. -/
def latestRevision? (h : Hub) (teamId id : String) : Option RevisionRow :=
  (h.revisionsOf teamId id).foldl newerRevision none

/-- `COALESCE(MAX(version), 1)`. -/
def messageVersion (h : Hub) (teamId id : String) : Nat :=
  (h.latestRevision? teamId id).elim 1 RevisionRow.version

/-- The body that readers see now. -/
def currentBody (h : Hub) (m : MessageRow) : Body :=
  (h.latestRevision? m.teamId m.id).elim m.body RevisionRow.body

/-- `_team_message_recipients`. -/
def recipientsOf (h : Hub) (teamId id : String) : List RecipientRow :=
  (h.recipients.filter fun r => r.teamId = teamId ∧ r.messageId = id).insertionSort
    RecipientRow.Before

def attachment? (h : Hub) (teamId id : String) : Option AttachmentRow :=
  h.attachments.find? fun a => a.teamId = teamId ∧ a.id = id

def skill? (h : Hub) (teamId slug : String) : Option SkillRow :=
  h.skills.find? fun s => s.teamId = teamId ∧ s.slug = slug

def versionsOf (h : Hub) (skillId : String) : List SkillVersionRow :=
  h.skillVersions.filter fun v => v.skillId = skillId

/-- The arrival head of a mailbox. -/
def arrival? (h : Hub) (teamId nodeId : String) : Option ArrivalRow :=
  h.arrivals.find? fun a => a.teamId = teamId ∧ a.nodeId = nodeId

/-- The recipients of a message include the whole team. -/
def isBulletin (h : Hub) (teamId id : String) : Bool :=
  h.recipients.any fun r => r.teamId = teamId ∧ r.messageId = id ∧ r.recipient = .all

end Hub

end AgentsServer.TeamHub

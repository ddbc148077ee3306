import AgentsServer.Library.JsonSize
import AgentsServer.TeamHub.Receipts

/-!
# Creating, revising and deleting messages

Each operation runs in one write transaction. The triggers of the tables run
with the inserts: a server recipient of mail moves the arrival head of its
mailbox, and every change of a Bulletin message is appended to the changes of
its team. What is published after the commit is part of the answer.
-/

namespace AgentsServer.TeamHub

open Library

def maxServerRecipients : Nat := 1024

def maxAttachmentBytes : Nat := 2147483648

def maxRevisions : Nat := 200

def maxSkills : Nat := 500

def maxSkillVersions : Nat := 200

def maxPageResponseBytes : Nat := 1900000

/-- The identifiers a call draws, and the row ids that SQLite passes over. -/
structure Draws where
  message : TokenHex
  recipient : Nat → TokenHex
  skill : TokenHex
  skillVersion : TokenHex
  revision : TokenHex
  deletion : TokenHex
  change : TokenHex
  messageSkip : Nat
  changeSkip : Nat

/-- A hint that is published once its transaction has committed. A Bulletin hint
of a deletion is for the whole team's messages only. -/
inductive Publication where
  | mail (teamId nodeId : String) (sequence : Nat) (messageId : String)
  | bulletin (teamId : String) (onlyIfBulletin : Option String)
  deriving DecidableEq

structure Reply where
  response : Json
  publications : List Publication

/-- `except sqlite3.IntegrityError`. -/
def integrityAsConflict {α : Type} (text : String) (x : Except Failure α) : Except Failure α :=
  match x with
  | .error .integrityError => .error (.hubError "conflict" text 409)
  | other => other

/-- The number of bytes of `canonical_json`. -/
def responseBytes (response : Json) : Nat :=
  Json.utf8Size response.canonical

theorem responseBytes_eq (response : Json) :
    responseBytes response = Json.size Json.escape response :=
  Json.utf8Size_canonical response

namespace Hub

/-! ## Triggers -/

/-- An insert into `team_bulletin_changes`. -/
def appendChange (h : Hub) (draws : Draws) (teamId messageId : String) (kind : ChangeKind)
    (version : Nat) : Except Failure Hub := do
  let sequence := h.changeSequence + draws.changeSkip + 1
  require (sequence ≤ maxRowId) .databaseFull
  let id := newId "bchg" draws.change
  require (h.changes.all (fun c => c.id != id) = true) .integrityError
  return { h with
    changeSequence := sequence
    changes := h.changes ++ [{
      sequence, id, teamId, messageId, changeKind := kind, messageVersion := version }] }

/-- `team_mail_arrival_on_server_recipient`. -/
def recordArrival (h : Hub) (m : MessageRow) (nodeId : String) : Hub :=
  if h.arrivals.any fun a => a.teamId = m.teamId ∧ a.nodeId = nodeId then
    { h with arrivals := h.arrivals.map fun a =>
        if a.teamId = m.teamId ∧ a.nodeId = nodeId ∧ a.throughSequence < m.ordinal then
          { a with throughSequence := m.ordinal, arrivalId := m.id }
        else a }
  else
    { h with arrivals := h.arrivals ++ [{
        teamId := m.teamId, nodeId, throughSequence := m.ordinal, arrivalId := m.id }] }

/-- An insert into `team_message_recipients` with its triggers. -/
def insertRecipient (h : Hub) (draws : Draws) (m : MessageRow) (row : RecipientRow) :
    Except Failure Hub := do
  require (h.recipients.all (fun r =>
    r.id != row.id && !(r.messageId == row.messageId && r.recipient == row.recipient)) = true)
    .integrityError
  let h := { h with recipients := h.recipients ++ [row] }
  match row.recipient with
  | .server nodeId => return if m.content.isMessage then h.recordArrival m nodeId else h
  | .human _ => return h
  | .all => h.appendChange draws m.teamId m.id .created 1

def newRecipient (draws : Draws) (m : MessageRow) (recipient : Recipient) (i : Nat) :
    RecipientRow where
  id := newId "trcpt" (draws.recipient i)
  teamId := m.teamId
  messageId := m.id
  recipient := recipient
  receipt := .available
  dismissedAt := none
  inboxUnread := none
  mailboxStateVersion := 0

/-- The recipients of a new message, inserted in order. -/
def insertRecipients (h : Hub) (draws : Draws) (m : MessageRow) :
    List Recipient → Nat → Except Failure Hub
  | [], _ => .ok h
  | recipient :: rest, i => do
      let h ← h.insertRecipient draws m (newRecipient draws m recipient i)
      h.insertRecipients draws m rest (i + 1)

/-! ## Creating -/

/-- The recipients that a requested one stands for. -/
def resolveRecipient (directory : Directory) (lifecycles : List (String × Option String)) :
    Requested → Except Failure (List Recipient)
  | .allServers => do
      require (directory.liveServers ≠ [])
        (.hubError "recipient_unavailable" "No Team Network server inboxes are available" 404)
      require (directory.liveServers.length ≤ maxServerRecipients)
        (.hubError "recipient_limit" "Team Network server inbox limit exceeded" 413)
      return directory.liveServers.map .server
  | .all => .ok [.all]
  | .server id => do
      require (directory.hasServer id = true)
        (.hubError "recipient_unavailable" "Team Network server recipient is unavailable" 404)
      let expected := (lifecycles.lookup id).join
      require (expected = none ∨ expected = directory.mailRouteLifecycle id)
        (.hubError "mail_route_changed"
          "The recipient changed or left the team. Select its @@ mention again to grant a new route."
          409)
      return [.server id]
  | .human id => do
      require (directory.hasMember id = true)
        (.hubError "recipient_unavailable" "Team Network member recipient is unavailable" 404)
      return [.human id]

/-- `_team_message_was_visible`. -/
def wasVisible (h : Hub) (caller : Caller) (m : MessageRow) (owned : List Address) : Bool :=
  (match m.senderNodeId with
    | none => decide (m.senderPrincipalId = caller.claims.principalId)
    | some node => decide (.server node ∈ owned)) ||
    h.recipients.any fun r => r.teamId = m.teamId ∧ r.messageId = m.id ∧
      (r.recipient = .all ∨ (owned.any fun a => a.recipient = r.recipient) = true)

def checkReplyTarget (h : Hub) (caller : Caller) (role : Role) (teamId : String) :
    Option String → Except Failure Unit
  | none => .ok ()
  | some id => do
      let owned ← caller.ownedAddresses role
      let unavailable := invalidRequest "Reply target is unavailable"
      let parent ← required (h.liveMessage? teamId id) unavailable
      require (h.wasVisible caller parent owned = true) unavailable

def attachmentUnavailable : Failure :=
  .hubError "attachment_unavailable"
    "An attachment is missing, unfinished, expired, or already used" 409

/-- A finished upload of the caller that no message has and that is not expired. -/
def bindable (principalId : String) (timestamp : Nat) (a : AttachmentRow) : Bool :=
  a.state.isReady && a.messageId.isNone && decide (a.uploadedBy = principalId) &&
    decide (timestamp < a.expiresAt)

def selectAttachment (h : Hub) (caller : Caller) (teamId : String) (timestamp : Nat)
    (id : String) : Except Failure AttachmentRow := do
  let a ← required (h.attachment? teamId id) attachmentUnavailable
  require (bindable caller.claims.principalId timestamp a = true) attachmentUnavailable
  return a

def bindAttachments (h : Hub) (rows : List AttachmentRow) (messageId : String) : Hub :=
  { h with attachments := h.attachments.map fun a =>
      if rows.any fun row => row.teamId = a.teamId ∧ row.id = a.id then
        { a with messageId := some messageId }
      else a }

def skillConflict (text : String) : Failure :=
  .hubError "skill_version_conflict" text 409

def skillLimit (text : String) : Failure :=
  .hubError "skill_limit" text 409

/-- The row of a skill after a version was published. -/
def publishVersion (title : String) (details : SkillDetails) (version timestamp : Nat)
    (s : SkillRow) : SkillRow :=
  { s with
    title, summary := details.summary, tags := details.tags
    currentVersion := version, updatedAt := timestamp }

/-- A new skill, or the next version of one that was not changed since it was read. -/
def publishSkill (h : Hub) (caller : Caller) (draws : Draws) (teamId title : String)
    (details : SkillDetails) (timestamp : Nat) : Except Failure ((String × Nat) × Hub) :=
  match h.skill? teamId details.slug with
  | none => do
      require (details.expectedVersion = none)
        (skillConflict "The skill does not exist yet; omit expected_version")
      require ((h.skills.filter fun s => s.teamId = teamId).length < maxSkills)
        (skillLimit "This team has reached its skill limit")
      let id := newId "tskill" draws.skill
      require (h.skills.all (fun s => s.id != id) = true) .integrityError
      return ((id, 1), { h with skills := h.skills ++ [{
        id, teamId, slug := details.slug, title, summary := details.summary, tags := details.tags
        currentVersion := 1, createdBy := caller.claims.principalId, pinnedAt := none
        archivedAt := none, createdAt := timestamp, updatedAt := timestamp }] })
  | some skill => do
      require (skill.archivedAt = none)
        (.hubError "skill_archived" "Restore the skill before updating it" 409)
      require (details.expectedVersion = some skill.currentVersion)
        (skillConflict "The skill changed since it was loaded")
      require ((h.versionsOf skill.id).length < maxSkillVersions)
        (skillLimit "This skill has reached its version limit")
      require (skill.createdAt ≤ timestamp) .integrityError
      let version := skill.currentVersion + 1
      let row := publishVersion title details version timestamp
      let rows := h.skills.map fun s => if s.teamId = teamId ∧ s.id = skill.id then row s else s
      return ((skill.id, version), { h with skills := rows })

/-- The skill part of a message that is being created. -/
def publishContent (h : Hub) (caller : Caller) (draws : Draws) (teamId : String)
    (timestamp : Nat) : Content → Except Failure (MessageContent × Hub)
  | .message subject => .ok (.message subject, h)
  | .skill title details => do
      let ((skillId, version), h) ← h.publishSkill caller draws teamId title details timestamp
      return (.skill title skillId version, h)

/-- An insert into `team_messages`. -/
def insertMessage (h : Hub) (m : MessageRow) : Except Failure Hub := do
  require (m.ordinal ≤ maxRowId) .databaseFull
  require (h.messages.all (fun old =>
    old.id != m.id && !(old.teamId == m.teamId && old.idempotencyKey == m.idempotencyKey)) = true)
    .integrityError
  return { h with messages := h.messages ++ [m], messageSequence := m.ordinal }

/-- An insert into `team_skill_versions`. -/
def insertSkillVersion (h : Hub) (row : SkillVersionRow) : Except Failure Hub := do
  require (h.skillVersions.all (fun v =>
    v.id != row.id && !(v.skillId == row.skillId && v.version == row.version) &&
      v.messageId != row.messageId) = true) .integrityError
  return { h with skillVersions := h.skillVersions ++ [row] }

def insertVersionOf (h : Hub) (draws : Draws) (m : MessageRow) (timestamp : Nat) :
    Content → Except Failure Hub
  | .message _ => .ok h
  | .skill title details =>
      match m.content with
      | .message _ => .ok h
      | .skill _ skillId version => h.insertSkillVersion {
          id := newId "tskillv" draws.skillVersion, teamId := m.teamId, skillId, version
          messageId := m.id, title, summary := details.summary, tags := details.tags
          changeNote := details.changeNote, createdAt := timestamp }

/-- The mail hints of a message, one for each server that received it. -/
def mailPublications (m : MessageRow) (resolved : List Recipient) : List Publication :=
  if m.content.isMessage then
    resolved.filterMap fun
      | .server nodeId => some (.mail m.teamId nodeId m.ordinal m.id)
      | _ => none
  else []

def createView (title : Option String) : MessageView where
  includeBody := true
  includeRevision := false
  includeMailSubject := title.isSome
  includeMailboxState := false
  owned := none
  deliveryAddress := none

variable [Sha256]

/-- The transaction of `create_team_message` once its request is known to be new. -/
def createNew (h : Hub) (caller : Caller) (directory : Directory) (draws : Draws)
    (teamId : String) (request : CreateRequest) (k : RequestKey) (fingerprint : Bytes)
    (role : Role) (timestamp : Nat) : Except Failure (Reply × Hub) := do
  let senderNodeId ← caller.teamSender
  let resolved ← request.addressed.requested.mapM
    (resolveRecipient directory request.addressed.lifecycles)
  let resolved := resolved.flatten
  h.checkReplyTarget caller role teamId request.replyTo
  let attachments ← request.attachmentIds.mapM (h.selectAttachment caller teamId timestamp)
  require ((attachments.map AttachmentRow.byteSize).sum ≤ maxAttachmentBytes)
    (.hubError "attachment_limit" "Attachments exceed the per-message limit" 413)
  caller.charge request.body.bytes
  let (content, h) ← h.publishContent caller draws teamId timestamp request.content
  let m : MessageRow := {
    ordinal := h.messageSequence + draws.messageSkip + 1
    id := newId "tmsg" draws.message
    teamId, content, body := request.body
    senderPrincipalId := caller.claims.principalId
    senderNodeId, provenance := request.provenance, inReplyTo := request.replyTo
    toAllServers := decide (.allServers ∈ request.addressed.requested)
    idempotencyKey := k.rowKey, createdAt := timestamp }
  let h ← h.insertMessage m
  let h ← h.insertRecipients draws m resolved 0
  let h := h.bindAttachments attachments m.id
  let h ← h.insertVersionOf draws m timestamp request.content
  let response := .obj [("message",
    messagePublic directory h m (createView request.content.title))]
  require (responseBytes response ≤ maxPageResponseBytes)
    (.hubError "recipient_limit" "Message recipient response exceeds the size limit" 413)
  let h ← h.idempotencyStore k fingerprint response
  caller.recorded
  return ({
    response
    publications := mailPublications m resolved ++
      if .all ∈ resolved then [.bulletin teamId none] else [] }, h)

end Hub

section Operations

variable [Sha256] [UnicodeTables] [Conversions]

def createTeamMessage (h : Hub) (caller : Caller) (directory : Directory) (draws : Draws)
    (teamId : String) (fields : List (String × Json)) (timestamp : Nat) :
    Except Failure (Reply × Hub) := do
  let request ← createRequest fields
  let fingerprint := request.fingerprint teamId
  let k : RequestKey :=
    ⟨teamId, caller.claims.principalId, "team.message.create", request.idempotencyKey⟩
  integrityAsConflict "Team message conflicts with existing data" do
    let role ← caller.networkScope true
    match ← h.idempotencyLookup k fingerprint with
    | some cached => return (⟨cached, []⟩, h)
    | none => h.createNew caller directory draws teamId request k fingerprint role timestamp

end Operations

/-! ## Revising -/

section Revise

variable [Sha256]

/-- The validated request to revise a message. -/
structure ReviseRequest where
  body : Body
  expectedVersion : Nat
  idempotencyKey : String

def reviseRequest (fields : List (String × Json)) : Except Failure ReviseRequest := do
  let body ← teamBody fields
  let expectedVersion ← expectedVersion (get fields "expected_version")
  let idempotencyKey ← teamIdempotencyKey fields
  return { body, expectedVersion, idempotencyKey }

def ReviseRequest.json (request : ReviseRequest) (teamId messageId : String) : Json :=
  .obj [("team_id", .str teamId), ("message_id", .str messageId),
    ("body", .str request.body.text), ("body_format", .str request.body.format.text),
    ("expected_version", number request.expectedVersion)]

/-- A dictionary with one value replaced, or added at its end. -/
def setField (key : String) (value : Json) (fields : List (String × Json)) :
    List (String × Json) :=
  if fields.any fun field => field.1 = key then
    fields.map fun field => if field.1 = key then (key, value) else field
  else fields ++ [(key, value)]

/-- `_team_revision_response_subject`: the remembered answer with the subject
that this reader negotiated. -/
def revisionResponseSubject (h : Hub) (teamId messageId : String) (response : Json)
    (includeMailSubject : Bool) : Json :=
  let subject := if includeMailSubject then
      match h.message? teamId messageId with
      | some m => match m.content with
        | .message subject => subject
        | .skill .. => none
      | none => none
    else none
  match response with
  | .obj fields =>
      .obj (setField "message"
        (match get fields "message" with
          | .obj message => .obj (setField "title" (nullable subject) message)
          | other => other) fields)
  | other => other

namespace Hub

/-- An insert into `team_message_revisions` with its trigger. -/
def insertRevision (h : Hub) (draws : Draws) (row : RevisionRow) : Except Failure Hub := do
  require (h.revisions.all (fun r =>
    r.id != row.id && !(r.teamId == row.teamId && r.messageId == row.messageId &&
      (r.version == row.version || r.idempotencyKey == row.idempotencyKey))) = true)
    .integrityError
  let h := { h with revisions := h.revisions ++ [row] }
  if h.isBulletin row.teamId row.messageId then
    h.appendChange draws row.teamId row.messageId .revised row.version
  else return h

def reviseView : MessageView where
  includeBody := true
  includeRevision := true
  includeMailSubject := false
  includeMailboxState := false
  owned := none
  deliveryAddress := none

/-- The transaction of `revise_team_message` once its request is known to be new. -/
def reviseNew (h : Hub) (caller : Caller) (directory : Directory) (draws : Draws)
    (teamId messageId : String) (request : ReviseRequest) (k : RequestKey) (fingerprint : Bytes)
    (includeMailSubject : Bool) (timestamp : Nat) : Except Failure (Reply × Hub) := do
  let m ← required (h.liveMessage? teamId messageId) resourceNotFound
  require (m.content.isMessage = true)
    (.hubError "skill_version_required"
      "Publish a new skill version in the Skills library instead" 409)
  require ((h.recipientsOf teamId messageId).map RecipientRow.recipient = [.all])
    (.hubError "invalid_request" "Only Bulletin messages can be edited" 409)
  let mine ← caller.authorMatches m
  require (mine = true) (.hubError "forbidden" "Only the poster can edit this message" 403)
  let current := h.messageVersion teamId messageId
  require (request.expectedVersion = current)
    (.hubError "version_conflict" "The message changed; reload it before editing" 409)
  require (current < maxRevisions)
    (.hubError "revision_limit_reached" "This message has reached its revision limit" 409)
  require (request.body ≠ h.currentBody m)
    (.hubError "unchanged" "The edited message is unchanged" 409)
  caller.charge request.body.bytes
  let editorNodeId ← caller.teamSender
  let h ← h.insertRevision draws {
    id := newId "message_revision" draws.revision
    teamId, messageId, version := current + 1, body := request.body
    editorPrincipalId := caller.claims.principalId, editorNodeId
    idempotencyKey := k.rowKey, createdAt := timestamp }
  let response := .obj [("message", messagePublic directory h m reviseView)]
  let h ← h.idempotencyStore k fingerprint response
  caller.recorded
  return ({
    response := revisionResponseSubject h teamId messageId response includeMailSubject
    publications := [.bulletin teamId none] }, h)

end Hub

def reviseTeamMessage (h : Hub) (caller : Caller) (directory : Directory) (draws : Draws)
    (teamId messageId : String) (fields : List (String × Json)) (includeMailSubject : Bool)
    (timestamp : Nat) : Except Failure (Reply × Hub) := do
  let request ← reviseRequest fields
  let fingerprint := canonicalFingerprint (request.json teamId messageId)
  let k : RequestKey :=
    ⟨teamId, caller.claims.principalId, "team.message.revise", request.idempotencyKey⟩
  integrityAsConflict "Team message revision conflicts" do
    let _ ← caller.networkScope true
    match ← h.idempotencyLookup k fingerprint with
    | some cached =>
        return (⟨revisionResponseSubject h teamId messageId cached includeMailSubject, []⟩, h)
    | none =>
        h.reviseNew caller directory draws teamId messageId request k fingerprint
          includeMailSubject timestamp

/-! ## Deleting -/

namespace Hub

/-- An insert into `network_content_deletions` with its trigger. -/
def insertDeletion (h : Hub) (draws : Draws) (row : DeletionRow) : Except Failure Hub := do
  require (h.deletions.all (fun d => d.id != row.id) = true) .integrityError
  let version := h.messageVersion row.teamId row.messageId
  let h := { h with deletions := h.deletions ++ [row] }
  if h.isBulletin row.teamId row.messageId then
    h.appendChange draws row.teamId row.messageId .deleted version
  else return h

/-- Who may delete: the poster, a moderator, and for mail an owner or administrator. -/
def checkDeletion (caller : Caller) (teamId : String) (role : Role) (m : MessageRow) :
    Except Failure Unit :=
  if caller.canModerate teamId role then .ok ()
  else if m.content.isMessage then do
    let mine ← caller.sourceAuthorMatches m
    require (mine = true ∨ role = .owner ∨ role = .admin)
      (.hubError "forbidden" "Operation is not permitted" 403)
  else do
    let mine ← caller.authorMatches m
    require (mine = true)
      (.hubError "forbidden" "Only the poster or Host operator can delete this announcement" 403)

end Hub

def deletionFingerprint (teamId messageId : String) : Bytes :=
  canonicalFingerprint (.obj [("team_id", .str teamId), ("message_id", .str messageId)])

def deleteTeamMessage (h : Hub) (caller : Caller) (draws : Draws) (teamId messageId : String)
    (fields : List (String × Json)) (timestamp : Nat) : Except Failure (Reply × Hub) := do
  let key ← teamIdempotencyKey fields
  let fingerprint := deletionFingerprint teamId messageId
  let k : RequestKey := ⟨teamId, caller.claims.principalId, "team.message.delete", key⟩
  let role ← caller.networkScope true
  match ← h.idempotencyLookup k fingerprint with
  | some cached => return (⟨cached, []⟩, h)
  | none => do
      let m ← required (h.message? teamId messageId) resourceNotFound
      Hub.checkDeletion caller teamId role m
      let response := .obj [("deleted", .bool true), ("message_id", .str messageId)]
      if h.isDeleted teamId messageId then do
        let h ← h.idempotencyStore k fingerprint response
        return (⟨response, []⟩, h)
      else do
        let h ← h.insertDeletion draws {
          id := newId "deletion" draws.deletion, teamId, messageId
          deletedBy := caller.claims.principalId, deletedAt := timestamp }
        let h ← h.idempotencyStore k fingerprint response
        caller.recorded
        return (⟨response, [.bulletin teamId (some messageId)]⟩, h)

end Revise

end AgentsServer.TeamHub

import AgentsServer.TeamHub.Schema

/-!
# What readers of Team Messages see

The JSON of recipients, attachments, messages and mailbox states, built from
the rows of the tables and the names that the identity tables hold.
-/

namespace AgentsServer.TeamHub

open Library

def maxPreviewChars : Nat := 280

/-- `_team_party`. An empty name is replaced like a missing one. -/
def teamParty (kind identity : String) (displayName : Option String) : List (String × Json) :=
  [("kind", .str kind), ("id", .str identity),
    ("display_name", .str (match displayName with
      | some name => if name = "" then fallback else name
      | none => fallback))]
where
  fallback : String := if kind = "all" then "Team" else identity

def time (value : Option Nat) : Json :=
  value.elim .null fun t => .str (iso8601 t)

namespace Receipt

def state : Receipt → String
  | .available => "available"
  | .delivered _ => "delivered"
  | .read .. => "read"

def deliveredAt : Receipt → Option Nat
  | .available => none
  | .delivered t => some t
  | .read t _ => some t

def readAt : Receipt → Option Nat
  | .read _ t => some t
  | _ => none

def isRead : Receipt → Bool
  | .read .. => true
  | _ => false

end Receipt

section Projections

variable (directory : Directory)

/-- `_team_sender_party`. -/
def senderParty (principalId : String) (nodeId : Option String) : Json :=
  match nodeId with
  | some node => .obj (teamParty "server" node (directory.nodeName node))
  | none => .obj (teamParty "human" principalId (directory.principalName principalId))

def recipientParty : Recipient → List (String × Json)
  | .server node => teamParty "server" node (directory.nodeName node)
  | .human principal => teamParty "human" principal (directory.principalName principal)
  | .all => teamParty "all" "all" (some "Team")

/-- `_team_recipient_public`. -/
def recipientPublic (row : RecipientRow) : Json :=
  .obj (recipientParty directory row.recipient ++
    [("state", .str row.receipt.state), ("delivered_at", time row.receipt.deliveredAt),
      ("read_at", time row.receipt.readAt)])

def UploadState.text : UploadState → String
  | .uploading => "uploading"
  | .ready _ => "ready"
  | .failed => "failed"

def UploadState.readyAt : UploadState → Option Nat
  | .ready t => some t
  | _ => none

/-- `_team_attachment_public`. -/
def attachmentPublic (row : AttachmentRow) : Json :=
  .obj [("id", .str row.id), ("message_id", nullable row.messageId),
    ("file_name", .str row.fileName), ("media_type", .str row.mediaType),
    ("byte_size", number row.byteSize), ("sha256", .str row.storageKey),
    ("state", .str row.state.text), ("received_bytes", number row.receivedBytes),
    ("created_at", time (some row.createdAt)), ("ready_at", time row.state.readyAt)]

/-- The order of `_team_message_attachments`. -/
def AttachmentRow.Before (a b : AttachmentRow) : Prop :=
  a.createdAt < b.createdAt ∨ (a.createdAt = b.createdAt ∧ a.id ≤ b.id)

instance (a b : AttachmentRow) : Decidable (AttachmentRow.Before a b) := by
  unfold AttachmentRow.Before
  infer_instance

/-- `_team_message_attachments`. -/
def messageAttachments (h : Hub) (teamId messageId : String) : List Json :=
  ((h.attachments.filter fun a =>
    a.teamId = teamId ∧ a.messageId = some messageId).insertionSort
      AttachmentRow.Before).map attachmentPublic

/-- `_team_provenance_public`. -/
def provenancePublic (provenance : List (String × Json)) : Json :=
  .obj (provenanceKeys.filterMap fun key =>
    match Json.lookup provenance key with
    | some value => if provenanceFieldValid key value then some (key, value) else none
    | none => none)

/-- The white space of a body folded, and the text cut to the preview length. -/
def preview (body : String) : String :=
  let text := normalizeSpace body.toList
  if maxPreviewChars < text.length then
    String.ofList (text.take (maxPreviewChars - 1) ++ ['…'])
  else String.ofList text

/-- The attention an owner of the mailbox sees: the override, or else the receipt. -/
def RecipientRow.unread (row : RecipientRow) : Bool :=
  row.inboxUnread.getD (!row.receipt.isRead)

/-- `_team_mailbox_state_public`, for a server recipient. -/
def mailboxStatePublic (nodeId : String) (row : RecipientRow) : Json :=
  .obj [("address_kind", .str "server"), ("address_id", .str nodeId),
    ("unread", .bool row.unread), ("version", number row.mailboxStateVersion)]

/-- What a reader asks to see. -/
structure MessageView where
  includeBody : Bool
  includeRevision : Bool
  includeMailSubject : Bool
  includeMailboxState : Bool
  owned : Option (List Address)
  deliveryAddress : Option Address

/-- The reader's own copies, those of one address if it asks for one. -/
def ownRecipients (owned : List Address) (address : Option Address)
    (recipients : List RecipientRow) : List RecipientRow :=
  (recipients.filter fun r => owned.any fun a => a.recipient = r.recipient).filter
    fun r => address.all fun a => a.recipient = r.recipient

variable [Sha256]

def messageTitle (m : MessageRow) (includeMailSubject : Bool) : Json :=
  match m.content with
  | .skill title _ _ => .str title
  | .message subject => if includeMailSubject then nullable subject else .null

def skillReference (h : Hub) (m : MessageRow) : Json :=
  match m.content with
  | .skill _ skillId version =>
      .obj [("id", .str skillId),
        ("slug", nullable ((h.skills.find? fun s => s.teamId = m.teamId ∧ s.id = skillId).map
          SkillRow.slug)),
        ("version", number version)]
  | .message _ => .null

/-- The mailbox state of the reader's copy, while that copy is not dismissed. -/
def mailboxState (delivery : Option RecipientRow) (recipients : List RecipientRow) :
    List (String × Json) :=
  match delivery with
  | some own =>
      match own.recipient with
      | .server node =>
          match recipients.find? fun r => r.recipient = own.recipient ∧ r.dismissedAt = none with
          | some r => [("mailbox_state", mailboxStatePublic node r)]
          | none => []
      | _ => []
  | none => []

/-- `_team_message_public`. -/
def messagePublic (h : Hub) (m : MessageRow) (view : MessageView) : Json :=
  let recipients := h.recipientsOf m.teamId m.id
  let body := h.currentBody m
  let delivery := (ownRecipients (view.owned.getD []) view.deliveryAddress recipients).head?
  .obj ([("id", .str m.id), ("sequence", number m.ordinal),
      ("kind", .str (if m.content.isMessage then "message" else "skill")),
      ("title", messageTitle m view.includeMailSubject),
      ("body_format", .str body.format.text), ("body_bytes", number body.bytes),
      ("body_sha256", .str (hexText body.sha256)),
      ("sender", senderParty directory m.senderPrincipalId m.senderNodeId),
      ("recipients", .arr (recipients.map (recipientPublic directory))),
      ("attachments", .arr (messageAttachments h m.teamId m.id)),
      ("in_reply_to_message_id", nullable m.inReplyTo), ("skill", skillReference h m),
      ("provenance", provenancePublic m.provenance), ("created_at", time (some m.createdAt))] ++
    (if m.toAllServers then [("destination", .str "all_servers")] else []) ++
    (if view.includeRevision then
      [("revision", .obj [("version", number (h.messageVersion m.teamId m.id)),
        ("versions_count", number (h.messageVersion m.teamId m.id)),
        ("edited_at", time ((h.latestRevision? m.teamId m.id).map RevisionRow.createdAt))])]
      else []) ++
    (if view.includeBody then [("body", .str body.text)]
      else [("preview", .str (preview body.text))]) ++
    (if view.owned.isSome then
      [("delivery", delivery.elim .null (recipientPublic directory))] ++
        (if view.includeMailboxState && m.content.isMessage then mailboxState delivery recipients
        else [])
      else []))

end Projections

end AgentsServer.TeamHub

import AgentsServer.TeamHub.Requests

/-!
# Receipts, attention and dismissal

The three operations on one recipient's copy of a message. Each runs in one
write transaction: it returns its answer with the new tables, or raises and the
tables stay as they were.
-/

namespace AgentsServer.TeamHub

open Library

variable [Sha256]

def resourceNotFound : Failure :=
  .hubError "not_found" "Resource not found" 404

def notInMailbox : Failure :=
  .hubError "not_found" "Message is not in this mailbox" 404

def mailboxNotOwned : Failure :=
  .hubError "forbidden" "This mailbox is not owned by the caller" 403

/-- The address that two fields of a request name. -/
def requestAddress? (kind id : Json) : Option Address :=
  match kind, id with
  | .str "server", .str id => some (.server id)
  | .str "human", .str id => some (.human id)
  | _, _ => none

def Address.json : Address → Json
  | .server id => .obj [("kind", .str "server"), ("id", .str id)]
  | .human id => .obj [("kind", .str "human"), ("id", .str id)]

namespace Hub

/-- `UPDATE team_message_recipients … WHERE id=?`. -/
def updateRecipient (h : Hub) (id : String) (f : RecipientRow → RecipientRow) : Hub :=
  { h with recipients := h.recipients.map fun r => if r.id = id then f r else r }

end Hub

/-! ## Dismissing -/

def RecipientRow.dismiss (timestamp : Nat) (r : RecipientRow) : RecipientRow :=
  { r with dismissedAt := some (r.dismissedAt.getD timestamp) }

def dismissalFingerprint (messageId : String) (fields : List (String × Json)) : Bytes :=
  canonicalFingerprint (.obj [("message_id", .str messageId),
    ("address", .arr [get fields "address_kind", get fields "address_id"])])

def dismissTeamMessage (h : Hub) (caller : Caller) (teamId messageId : String)
    (fields : List (String × Json)) (timestamp : Nat) : Except Failure (Json × Hub) := do
  let key ← teamIdempotencyKey fields
  let fingerprint := dismissalFingerprint messageId fields
  let k : RequestKey := ⟨teamId, caller.claims.principalId, "team.message.dismiss", key⟩
  let role ← caller.networkScope false
  let owned ← caller.ownedAddresses role
  let address ← required
    (requestAddress? (get fields "address_kind") (get fields "address_id")) mailboxNotOwned
  require (address ∈ owned) mailboxNotOwned
  match ← h.idempotencyLookup k fingerprint with
  | some cached => return (cached, h)
  | none => do
      let recipient ← required
        ((h.recipientsOf teamId messageId).find? fun r => r.recipient = address.recipient)
        notInMailbox
      let h := h.updateRecipient recipient.id (RecipientRow.dismiss timestamp)
      let response := .obj [("dismissed", .bool true), ("message_id", .str messageId),
        ("address", address.json)]
      let h ← h.idempotencyStore k fingerprint response
      return (response, h)

/-! ## Attention -/

/-- The first read also counts as the delivery. -/
def Receipt.markRead (timestamp : Nat) : Receipt → Receipt
  | .available => .read timestamp timestamp
  | .delivered t => .read t timestamp
  | .read t t' => .read t t'

/-- The override is set and counted; `unread: false` also records the first read. -/
def RecipientRow.setUnread (unread : Bool) (timestamp : Nat) (r : RecipientRow) : RecipientRow :=
  { r with
    inboxUnread := some unread
    mailboxStateVersion := r.mailboxStateVersion + 1
    receipt := if unread then r.receipt else r.receipt.markRead timestamp }

def stateInvalid : Failure :=
  invalidRequest "Server mailbox state is invalid"

/-- An integer from zero up to the largest exact one, not included. -/
def mailboxVersion? (value : Json) : Option Nat :=
  match value.int? with
  | some n => if 0 ≤ n ∧ n < maxExactInteger then some n.toNat else none
  | none => none

/-- The validated request to set the attention of a server mailbox. -/
structure AttentionRequest where
  nodeId : String
  unread : Bool
  expectedVersion : Nat

def attentionRequest (fields : List (String × Json)) : Except Failure AttentionRequest := do
  require ((get fields "address_kind").str? = some "server") stateInvalid
  let nodeId ← required (get fields "address_id").str? stateInvalid
  let unread ← required (get fields "unread").bool? stateInvalid
  let expectedVersion ← required (mailboxVersion? (get fields "expected_version")) stateInvalid
  return { nodeId, unread, expectedVersion }

def AttentionRequest.fingerprint (request : AttentionRequest) (messageId : String) : Bytes :=
  canonicalFingerprint (.obj [("message_id", .str messageId),
    ("address", .arr [.str "server", .str request.nodeId]), ("unread", .bool request.unread),
    ("expected_version", number request.expectedVersion)])

def setTeamMessageMailboxState (h : Hub) (caller : Caller) (directory : Directory)
    (teamId messageId : String) (fields : List (String × Json)) (timestamp : Nat) :
    Except Failure (Json × Hub) := do
  let request ← attentionRequest fields
  let key ← teamIdempotencyKey fields
  let fingerprint := request.fingerprint messageId
  let k : RequestKey := ⟨teamId, caller.claims.principalId, "team.message.mailbox_state", key⟩
  let role ← caller.networkScope false
  let owned ← caller.ownedAddresses role
  require (.server request.nodeId ∈ owned) mailboxNotOwned
  let message ← required (h.liveMessage? teamId messageId) notInMailbox
  let recipient ← required ((h.recipientsOf teamId messageId).find? fun r =>
    r.recipient = .server request.nodeId ∧ r.dismissedAt = none) notInMailbox
  require (message.content.isMessage = true) notInMailbox
  match ← h.idempotencyLookup k fingerprint with
  | some cached => return (cached, h)
  | none => do
      require (recipient.mailboxStateVersion = request.expectedVersion)
        (.hubError "mailbox_state_conflict"
          "Mailbox state changed. Refresh the mailbox and try again." 409)
      let updated := recipient.setUnread request.unread timestamp
      let h := h.updateRecipient recipient.id (RecipientRow.setUnread request.unread timestamp)
      let response := .obj [("message_id", .str messageId),
        ("mailbox_state", mailboxStatePublic request.nodeId updated),
        ("recipients", .arr [recipientPublic directory updated])]
      let h ← h.idempotencyStore k fingerprint response
      caller.recorded
      return (response, h)

/-! ## Receipts -/

/-- `delivered` marks an available copy, `read` one that is not read yet. -/
def Receipt.record (isRead : Bool) (timestamp : Nat) (receipt : Receipt) : Receipt :=
  if isRead then receipt.markRead timestamp
  else
    match receipt with
    | .available => .delivered timestamp
    | other => other

def RecipientRow.record (isRead : Bool) (timestamp : Nat) (r : RecipientRow) : RecipientRow :=
  { r with receipt := r.receipt.record isRead timestamp }

/-- The optional address of a receipt: both of its fields or none. -/
def receiptAddress (kind id : Json) : Except Failure (Option (Json × Json)) :=
  match kind, id with
  | .null, .null => .ok none
  | .null, _ | _, .null => .error (invalidRequest "Receipt mailbox requires kind and id")
  | kind, id => .ok (some (kind, id))

/-- The copies of a message that the caller owns, under the address it gives. -/
def ownedCopies (owned : List Address) (address : Option (Json × Json))
    (recipients : List RecipientRow) : List RecipientRow :=
  recipients.filter fun r => owned.any fun a =>
    decide (a.recipient = r.recipient) &&
      address.all fun given => decide (requestAddress? given.1 given.2 = some a)

/-- The validated request to record a receipt. -/
structure ReceiptRequest where
  isRead : Bool
  address : Option (Json × Json)

def receiptRequest (fields : List (String × Json)) : Except Failure ReceiptRequest := do
  let known ← isOneOf ["delivered", "read"] (get fields "state")
  require (known = true) (invalidRequest "Receipt state is invalid")
  let address ← receiptAddress (get fields "address_kind") (get fields "address_id")
  return { isRead := decide ((get fields "state").str? = some "read"), address }

def ReceiptRequest.fingerprint (request : ReceiptRequest) (teamId messageId : String) : Bytes :=
  canonicalFingerprint (.obj ([("team_id", .str teamId), ("message_id", .str messageId),
    ("state", .str (if request.isRead then "read" else "delivered"))] ++
      match request.address with
      | some given => [("address", .arr [given.1, given.2])]
      | none => []))

def recordTeamMessageReceipt (h : Hub) (caller : Caller) (directory : Directory)
    (teamId messageId : String) (fields : List (String × Json)) (timestamp : Nat) :
    Except Failure (Json × Hub) := do
  let request ← receiptRequest fields
  let key ← teamIdempotencyKey fields
  let fingerprint := request.fingerprint teamId messageId
  let k : RequestKey := ⟨teamId, caller.claims.principalId, "team.message.receipt", key⟩
  let role ← caller.networkScope false
  require (h.isDeleted teamId messageId = false) resourceNotFound
  match ← h.idempotencyLookup k fingerprint with
  | some cached => return (cached, h)
  | none => do
      let owned ← caller.ownedAddresses role
      let rows := ownedCopies owned request.address (h.recipientsOf teamId messageId)
      require (rows ≠ [])
        (.hubError "forbidden" "This message is not addressed to the caller" 403)
      let h := rows.foldl
        (fun h r => h.updateRecipient r.id (RecipientRow.record request.isRead timestamp)) h
      let updated := (h.recipientsOf teamId messageId).filter fun r => rows.any fun row =>
        row.id = r.id
      let response := .obj [("message_id", .str messageId),
        ("recipients", .arr (updated.map (recipientPublic directory)))]
      let h ← h.idempotencyStore k fingerprint response
      caller.recorded
      return (response, h)

end AgentsServer.TeamHub

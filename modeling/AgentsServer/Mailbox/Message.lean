import AgentsServer.Mailbox.Schema

/-!
# Message projection and bounded pages

`Message` is the dictionary `_message` builds from a joined row. Its compact
JSON text is what the page budget counts.
-/

namespace AgentsServer.Mailbox

open Library

/-- The attested `user_delegation` object. -/
structure UserDelegation where
  sourceSessionId : String
  sourceRunId : String
  targetSessionId : String
  referenceAction : String
  sourceUserInstruction : String
  deriving DecidableEq

inductive Provenance where
  | userDelegation (value : UserDelegation)
  | sourceUserInstruction (text : String)
  deriving DecidableEq

structure Message where
  messageId : String
  mailboxSeq : Nat
  sourceSessionId : String
  targetSessionId : String
  conversationId : String
  body : String
  createdAt : String
  storedAt : String
  inReplyToMessageId : Option String
  readId : Option String
  readAt : Option String
  messageRevision : Nat
  messageEditedByUser : Bool
  provenance : Provenance
  deriving DecidableEq

/-- A recipient edit is in force. -/
def edited (e : Envelope) : Option String :=
  if 0 < e.messageRevision then e.targetBody else none

/-- Only the server's immutable admission marker attests user origin, and only
for a body that was not edited. -/
def attested (e : Envelope) : Bool :=
  (e.sourceUserDelegationAction == "route" || e.sourceUserDelegationAction == "instruction" ||
    e.sourceUserDelegationAction == "request_reply") &&
    !isBlank e.sourceUserInstruction && e.messageRevision == 0

def provenance (m : MailRow) (e : Envelope) : Provenance :=
  if attested e then
    .userDelegation {
      sourceSessionId := m.sourceSessionId
      sourceRunId := e.sourceRunId
      targetSessionId := m.targetSessionId
      referenceAction := e.sourceUserDelegationAction
      sourceUserInstruction := e.sourceUserInstruction }
  else .sourceUserInstruction e.sourceUserInstruction

def message (m : MailRow) (e : Envelope) : Message where
  messageId := m.messageId
  mailboxSeq := m.mailboxSeq
  sourceSessionId := m.sourceSessionId
  targetSessionId := m.targetSessionId
  conversationId := m.pairId
  body := (edited e).getD e.body
  createdAt := e.createdAt
  storedAt := m.storedAt
  inReplyToMessageId := m.inReplyToMessageId
  readId := m.readId
  readAt := m.readAt
  messageRevision := if (edited e).isSome then e.messageRevision else 0
  messageEditedByUser := (edited e).isSome
  provenance := provenance m e

/-- The receipt fields of a message replaced, as `dict.update` does. -/
def Message.withReceipt (msg : Message) (readId readAt : String) : Message :=
  { msg with readId := some readId, readAt := some readAt }

def textOrNull : Option String → Json
  | some text => .str text
  | none => .null

def Provenance.field : Provenance → String × Json
  | .userDelegation d => ("user_delegation", .obj [
      ("version", .num (.ofNat 1)),
      ("source_session_id", .str d.sourceSessionId),
      ("source_run_id", .str d.sourceRunId),
      ("target_session_id", .str d.targetSessionId),
      ("reference_action", .str d.referenceAction),
      ("source_user_instruction", .str d.sourceUserInstruction)])
  | .sourceUserInstruction text => ("source_user_instruction", .str text)

def Message.toJson (msg : Message) : Json :=
  .obj [
    ("message_id", .str msg.messageId),
    ("mailbox_seq", .num (.ofNat msg.mailboxSeq)),
    ("source_session_id", .str msg.sourceSessionId),
    ("target_session_id", .str msg.targetSessionId),
    ("conversation_id", .str msg.conversationId),
    ("body", .str msg.body),
    ("created_at", .str msg.createdAt),
    ("stored_at", .str msg.storedAt),
    ("in_reply_to_message_id", textOrNull msg.inReplyToMessageId),
    ("read_id", textOrNull msg.readId),
    ("read_at", textOrNull msg.readAt),
    ("message_revision", .num (.ofNat msg.messageRevision)),
    ("message_edited_by_user", .bool msg.messageEditedByUser),
    msg.provenance.field]

/-- The bytes of the compact JSON text, with non-ASCII characters unescaped. -/
def Message.size (msg : Message) : Nat :=
  Json.utf8Size (Json.render Json.escape msg.toJson)

/-- The bytes of a quoted string. -/
def quotedSize (s : String) : Nat :=
  Json.utf8Size (Json.quote Json.escape s)

/-- A receipt adds to the size what its two strings take, and nothing else in
the size depends on it. -/
theorem withReceipt_size (msg : Message) (a b c d : String) :
    (msg.withReceipt a b).size + quotedSize c + quotedSize d =
      (msg.withReceipt c d).size + quotedSize a + quotedSize b := by
  simp only [Message.size, Message.withReceipt, Message.toJson, Json.render, Json.renderFields,
    textOrNull, quotedSize, Json.utf8Size_cons, Json.utf8Size_append]
  omega

theorem withReceipt_size_le (msg : Message) {a b c d : String}
    (ha : quotedSize a ≤ quotedSize c) (hb : quotedSize b ≤ quotedSize d) :
    (msg.withReceipt a b).size ≤ (msg.withReceipt c d).size := by
  have h := withReceipt_size msg a b c d
  omega

/-! ## Joined rows -/

/-- A message row with its envelope. -/
abbrev Joined := MailRow × Envelope

/-- `chat_mailbox_messages m JOIN cross_chat_envelopes e ON e.id=m.message_id`. -/
def Ledger.join (db : Ledger) : List Joined :=
  db.messages.filterMap fun m => (db.envelope? m.messageId).map (m, ·)

/-- The `_VALID` condition. -/
def valid (row : Joined) : Bool :=
  let (m, e) := row
  m.excludedAt.isNone && e.status == .stored && e.deliveryMode == .mailbox &&
    e.kind == .instruction && e.authorizationKind == .configuredRoute &&
    e.sourceSessionId == m.sourceSessionId && e.targetSessionId == m.targetSessionId &&
    e.authorizationPairId == m.pairId

/-- What `_scope` checks of a row: validity, target, authorized pair, and the
sender when one is given. -/
structure Scope where
  target : String
  source : Option String
  allowed : List String

def Scope.admits (scope : Scope) (row : Joined) : Bool :=
  valid row && row.1.targetSessionId == scope.target && scope.allowed.contains row.1.pairId &&
    (match scope.source with
      | some source => row.1.sourceSessionId == source
      | none => true)

def scope [CharacterTables] (target : String) (source : Option String)
    (values : List String) : Except Failure Scope := do
  let target ← identifier target
  let allowed ← pairs values
  match source with
  | none => return { target, source := none, allowed }
  | some source =>
      -- An empty sender means no sender filter.
      if source = "" then return { target, source := none, allowed }
      else
        let source ← identifier source
        return { target, source := some source, allowed }

theorem scope_eq_ok [CharacterTables] {target source : String} {values : List String}
    {out : Scope} (hs : source ≠ "") (h : scope target (some source) values = .ok out) :
    out = { target, source := some source, allowed := values } := by
  simp only [scope, if_neg hs, bind_eq_ok, pure_eq_ok] at h
  obtain ⟨t, ht, p, hp, s, hsrc, rfl⟩ := h
  rw [(identifier_eq_ok ht).1, pairs_eq_ok hp, (identifier_eq_ok hsrc).1]

theorem scope_none_eq_ok [CharacterTables] {target : String} {values : List String}
    {out : Scope} (h : scope target none values = .ok out) :
    out = { target, source := none, allowed := values } := by
  simp only [scope, bind_eq_ok, pure_eq_ok] at h
  obtain ⟨t, ht, p, hp, rfl⟩ := h
  rw [(identifier_eq_ok ht).1, pairs_eq_ok hp]

/-- Rows that meet a condition, `ORDER BY m.mailbox_seq`. -/
def Ledger.select (db : Ledger) (condition : Joined → Bool) : List Joined :=
  (db.join.filter condition).insertionSort fun a b => a.1.mailboxSeq ≤ b.1.mailboxSeq

/-! ## Pages -/

/-- The dictionary of a row, with the receipt fields of a read injected. -/
def pageMessage (receipt : Option (String × String)) (row : Joined) : Message :=
  match receipt with
  | some (readId, readAt) => (message row.1 row.2).withReceipt readId readAt
  | none => message row.1 row.2

def tooLarge : Failure :=
  .mailboxConflict "Message exceeds the bounded mailbox response; no message was read"

/-- The loop of `_page` over the selected rows. The messages taken so far and
the bytes they use are carried along. -/
def pageLoop (pageLimit : Nat) (receipt : Option (String × String)) :
    List Joined → List Message → Nat → Except Failure (List Message × Bool)
  | [], taken, _ => .ok (taken, false)
  | row :: rest, taken, used =>
      let msg := pageMessage receipt row
      let size := msg.size
      if taken.length = pageLimit ∨ maxPageBytes < used + size then
        if taken.isEmpty then .error tooLarge
        else .ok (taken, true)
      else pageLoop pageLimit receipt rest (taken ++ [msg]) (used + size)

def page (db : Ledger) (condition : Joined → Bool) (pageLimit : Nat)
    (receipt : Option (String × String)) : Except Failure (List Message × Bool) :=
  pageLoop pageLimit receipt ((db.select condition).take (pageLimit + 1)) [] pageReserve

end AgentsServer.Mailbox

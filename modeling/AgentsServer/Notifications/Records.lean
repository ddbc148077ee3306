import AgentsServer.Library.Outcome
import AgentsServer.Library.Text

/-!
# Mail and Bulletin records

The two numbered records that notifications carry, valid by construction, and
the cursor that pairs them.
-/

namespace AgentsServer.Notifications

open Library

def maxMailSequence : Nat := 9007199254740991

inductive Failure where
  | valueError (text : String)
  | mailHintClosed (text : String)
  | mailHintCapacity (text : String)
  deriving DecidableEq

def isIdentifierHead (c : Char) : Bool :=
  c.isAlphanum

def isIdentifierChar (c : Char) : Bool :=
  c.isAlphanum || c == '.' || c == '_' || c == ':' || c == '-'

/-- `MAIL_IDENTIFIER_RE`. -/
def isMailIdentifier (s : String) : Bool :=
  match s.toList with
  | [] => false
  | c :: rest => isIdentifierHead c && rest.all isIdentifierChar && decide (rest.length ≤ 127)

/-- `MAIL_ARRIVAL_ID_RE`. -/
def isArrivalId (s : String) : Bool :=
  isPrefixedHex "tmsg_" 32 s

/-- `BULLETIN_CHANGE_ID_RE`. -/
def isChangeId (s : String) : Bool :=
  isPrefixedHex "bchg_" 32 s

/-- A team and one of its recipients. -/
structure Mailbox where
  teamId : String
  recipientServerId : String
  team_ok : isMailIdentifier teamId = true
  recipient_ok : isMailIdentifier recipientServerId = true
  deriving DecidableEq

structure MailArrival where
  mailbox : Mailbox
  throughSequence : Nat
  arrivalId : Option String
  bounded : throughSequence ≤ maxMailSequence
  empty_or_id : match arrivalId with
    | none => throughSequence = 0
    | some id => throughSequence ≠ 0 ∧ isArrivalId id = true
  deriving DecidableEq

inductive ChangeKind where
  | created
  | revised
  | deleted
  deriving DecidableEq

/-- What a Bulletin change that is not empty identifies. -/
structure ChangeDetails where
  changeId : String
  messageId : String
  changeKind : ChangeKind
  messageVersion : Nat
  change_ok : isChangeId changeId = true
  message_ok : isArrivalId messageId = true
  version_ok : 1 ≤ messageVersion ∧ messageVersion ≤ maxMailSequence
  deriving DecidableEq

/-- The four optional fields of a change are all set or all absent. -/
structure BulletinChange where
  teamId : String
  throughSequence : Nat
  details : Option ChangeDetails
  team_ok : isMailIdentifier teamId = true
  bounded : throughSequence ≤ maxMailSequence
  empty_or_details : throughSequence = 0 ↔ details = none
  deriving DecidableEq

structure NotificationCursor where
  mail : MailArrival
  bulletin : BulletinChange
  mailReset : Bool
  bulletinReset : Bool
  same_team : mail.mailbox.teamId = bulletin.teamId
  deriving DecidableEq

def NotificationCursor.mailbox (c : NotificationCursor) : Mailbox :=
  c.mail.mailbox

/-- The constructor of `NotificationCursor` without resets. -/
def makeCursor (mail : Option MailArrival) (bulletin : Option BulletinChange) :
    Except Failure NotificationCursor :=
  match mail, bulletin with
  | some mail, some bulletin =>
      if h : mail.mailbox.teamId = bulletin.teamId then
        .ok { mail, bulletin, mailReset := false, bulletinReset := false, same_team := h }
      else .error (.valueError "Notification cursor binding is invalid")
  | _, _ => .error (.valueError "Notification cursor binding is invalid")

/-- The mailbox of the empty arrival that `subscribe` builds. -/
def makeMailbox (teamId recipientServerId : String) : Except Failure Mailbox :=
  if h : isMailIdentifier teamId = true ∧ isMailIdentifier recipientServerId = true then
    .ok { teamId, recipientServerId, team_ok := h.1, recipient_ok := h.2 }
  else .error (.valueError "Mail arrival mailbox identity is invalid")

theorem team_identified {teamId nodeId : String}
    (h : isMailIdentifier teamId = true ∧ isMailIdentifier nodeId = true) :
    isMailIdentifier teamId = true := h.1

theorem node_identified {teamId nodeId : String}
    (h : isMailIdentifier teamId = true ∧ isMailIdentifier nodeId = true) :
    isMailIdentifier nodeId = true := h.2

end AgentsServer.Notifications

import AgentsServer.Library.Paging
import AgentsServer.Notifications.Records
import AgentsServer.TeamHub.Messages

/-!
# Listing messages

One page of the Inbox of an address, of the Bulletin feed or of the messages a
caller sent, behind a cursor and under filters. The page is cut at the limit and
then to the size a peer accepts. On request, an Inbox page of a server says how far
the arrivals of its mailbox are covered.
-/

namespace AgentsServer.TeamHub

open Library
open Notifications (MailArrival)

def maxPageItems : Nat := 100

def maxSearchChars : Nat := 200

/-- What the interpreter's Unicode tables and date parser decide about filters. -/
class FilterTexts where
  isdigit : String → Bool
  /-- `int(text)`, where it does not raise -/
  int : String → Option Nat
  /-- `int(datetime.fromisoformat(text).timestamp())`, in UTC if no zone is given -/
  fromisoformat : String → Option Int
  /-- `re.findall(r"[^\W_]+", unicodedata.normalize("NFC", text))` -/
  searchWords : String → List String

/-- What the full text tables answer at the time of a call. -/
structure SearchIndex where
  available : Bool
  /-- the query ran into its time limit -/
  interrupted : Bool
  /-- the row ids of the messages that match -/
  messages : String → List Nat
  /-- the nodes of a team and the principals whose names match -/
  nodes : (teamId expression : String) → List String
  principals : String → List String

/-! ## Arguments -/

structure ListRequest where
  box : String
  addressKind : Option String
  addressId : Option String
  unread : Bool
  fromKind : Option String
  fromId : Option String
  since : Json
  afterSequence : Int
  limit : Int
  includeRevision : Bool
  includeMailSubject : Bool
  includeMailboxState : Bool
  includeMailboxCoverage : Bool
  afterArrivalId : Option String
  q : Option String

inductive Sender where
  | server (nodeId : String)
  | human (principalId : String)
  deriving DecidableEq

/-- The rows that a box selects from. -/
inductive Source where
  | inbox (address : Address)
  | feed
  | sent (sender : Sender)
  deriving DecidableEq

/-- A checked request, with its box resolved for the caller. -/
structure Query where
  teamId : String
  request : ListRequest
  owned : List Address
  source : Source
  sender : Option Sender
  since : Option Int
  search : Option String
  after : Nat
  limit : Nat

section Arguments

variable [FilterTexts]

/-- `_team_since`. -/
def teamSince : Json → Except Failure (Option Int)
  | .null => .ok none
  | .str value =>
      if value = "" then .ok none
      else
        let text := String.ofList (strip value.toList)
        if FilterTexts.isdigit text then
          (fun n : Nat => some (n : Int)) <$> required (FilterTexts.int text) .valueError
        else
          some <$> required (FilterTexts.fromisoformat (text.replace "Z" "+00:00"))
            (invalidRequest "since is invalid")
  | value => do
      let n ← required value.int? (invalidRequest "since is invalid")
      require (0 ≤ n) (invalidRequest "since is invalid")
      return some n

/-- The characters of the category `Cc`. -/
def isControl (c : Char) : Bool :=
  c.toNat < 32 || (127 ≤ c.toNat && c.toNat ≤ 159)

def quoted (text : String) : String :=
  "\"" ++ text.replace "\"" "\"\"" ++ "\""

/-- `_team_message_search_expression`. -/
def searchExpression : Option String → Except Failure (Option String)
  | none => .ok none
  | some value => do
      require (1 ≤ value.length ∧ value.length ≤ maxSearchChars ∧ isBlank value = false ∧
          value.toList.any isControl = false)
        (invalidRequest "Search must be 1–200 characters without control characters")
      return some (" AND ".intercalate
        ((FilterTexts.searchWords value).map fun word => quoted word ++ "*"))

def Address.kind : Address → String
  | .server _ => "server"
  | .human _ => "human"

def Address.id : Address → String
  | .server nodeId => nodeId
  | .human principalId => principalId

/-- The mailbox a reader names, or else the first of its own. -/
def ListRequest.address (request : ListRequest) (owned : List Address) :
    Except Failure Address :=
  match request.addressKind, request.addressId with
  | none, none => required owned.head? .assertionError
  | kind, id =>
      required (owned.find? fun a => some a.kind = kind ∧ some a.id = id)
        (.hubError "forbidden" "This mailbox is not owned by the caller" 403)

def ListRequest.source (request : ListRequest) (caller : Caller) (owned : List Address) :
    Except Failure Source :=
  if request.box = "feed" then .ok .feed
  else if request.box = "inbox" then Source.inbox <$> request.address owned
  else if caller.claims.authKind.isAutomation then
    (fun node => .sent (.server node)) <$> required (owned.findSome? fun
      | .server node => some node
      | .human _ => none) .assertionError
  else .ok (.sent (.human caller.claims.principalId))

/-- The checks of `list_team_messages` before it reads messages. -/
def ListRequest.query (request : ListRequest) (caller : Caller) (teamId : String) :
    Except Failure Query := do
  require (request.box = "inbox" ∨ request.box = "feed" ∨ request.box = "sent")
    (invalidRequest "Message box is invalid")
  require (1 ≤ request.limit ∧ request.limit ≤ maxPageItems)
    (invalidRequest "Message page limit is invalid")
  require (0 ≤ request.afterSequence) (invalidRequest "Message page cursor is invalid")
  require (request.fromKind = none ∨ request.fromKind = some "server" ∨
      request.fromKind = some "human")
    (invalidRequest "Sender filter is invalid")
  require (request.fromKind.isNone = request.fromId.isNone)
    (invalidRequest "Sender filter is invalid")
  let since ← teamSince request.since
  let search ← searchExpression request.q
  let role ← caller.networkScope false
  let owned ← caller.ownedAddresses role
  let source ← request.source caller owned
  let sender := request.fromId.map fun id =>
    if request.fromKind = some "server" then Sender.server id else Sender.human id
  return {
    teamId, request, owned, source, sender, since, search
    after := request.afterSequence.toNat, limit := request.limit.toNat }

end Arguments

/-! ## Rows -/

def MessageRow.sentBy (m : MessageRow) : Sender → Bool
  | .server nodeId => m.senderNodeId = some nodeId
  | .human principalId => m.senderNodeId = none ∧ m.senderPrincipalId = principalId

namespace Query

/-- The expression for the text of messages, in the scope of their team. -/
def scopedExpression (teamId expression : String) : String :=
  "scope:" ++ quoted teamId ++ " AND \x7bsubject body\x7d: (" ++ expression ++ ")"

/-- The three searches for a message: by its text, and by the name of its sender. -/
def found (index : SearchIndex) (teamId expression : String) (m : MessageRow) : Bool :=
  (index.messages (scopedExpression teamId expression)).contains m.ordinal ||
    match m.senderNodeId with
    | some node => (index.nodes teamId expression).contains node
    | none => (index.principals expression).contains m.senderPrincipalId

variable (h : Hub) (index : SearchIndex) (query : Query)

/-- The conditions of a list on a message, apart from its cursor and its box. A search
without a word finds nothing. -/
def selects (m : MessageRow) : Bool :=
  m.teamId = query.teamId && !h.isDeleted m.teamId m.id &&
    query.sender.all m.sentBy &&
    query.since.all (fun since => decide (since ≤ (m.createdAt : Int))) &&
    query.search.all fun expression =>
      expression ≠ "" && found index query.teamId expression m

/-- A copy that the filter `unread` keeps. The override counts for readers of a
server mailbox that know mailbox states. -/
def unreadCopy (address : Address) (r : RecipientRow) : Bool :=
  if query.request.includeMailboxState && address.kind = "server" then r.unread
  else !r.receipt.isRead

/-- The rows a message is joined to in its box. -/
def joined (m : MessageRow) : List MessageRow :=
  match query.source with
  | .inbox address =>
      (h.recipients.filter fun r => r.teamId = m.teamId ∧ r.messageId = m.id ∧
        r.recipient = address.recipient ∧ r.dismissedAt = none ∧
        (query.request.unread = true → query.unreadCopy address r = true)).map fun _ => m
  | .feed =>
      (h.recipients.filter fun r => r.teamId = m.teamId ∧ r.messageId = m.id ∧
        r.recipient = .all).map fun _ => m
  | .sent sender => if m.sentBy sender then [m] else []

/-- What a list selects, from any cursor, in the order of the queue. -/
def matching : List MessageRow :=
  ((h.messages.filter (query.selects h index)).flatMap (query.joined h)).insertionSort
    fun a b => a.ordinal ≤ b.ordinal

def rows : List MessageRow :=
  Paging.beyond MessageRow.ordinal (query.matching h index) query.after

end Query

/-! ## Coverage -/

/-- The constructor of `MailArrival`, where it does not raise. -/
def makeArrival (teamId nodeId : String) (sequence : Nat) (id : Option String) :
    Option MailArrival :=
  if hm : Notifications.isMailIdentifier teamId = true ∧
      Notifications.isMailIdentifier nodeId = true then
    match id with
    | none =>
        if hs : sequence = 0 then
          some {
            mailbox := ⟨teamId, nodeId, Notifications.team_identified hm,
              Notifications.node_identified hm⟩
            throughSequence := sequence
            arrivalId := none, bounded := by omega, empty_or_id := hs }
        else none
    | some id =>
        if hs : sequence ≤ Notifications.maxMailSequence ∧ sequence ≠ 0 ∧
            Notifications.isArrivalId id = true then
          some {
            mailbox := ⟨teamId, nodeId, Notifications.team_identified hm,
              Notifications.node_identified hm⟩
            throughSequence := sequence
            arrivalId := some id, bounded := hs.1, empty_or_id := hs.2 }
        else none
  else none

/-- What the constructor keeps. -/
theorem makeArrival_eq_some {teamId nodeId : String} {sequence : Nat} {id : Option String}
    {a : MailArrival} (ha : makeArrival teamId nodeId sequence id = some a) :
    a.mailbox.teamId = teamId ∧ a.mailbox.recipientServerId = nodeId ∧
      a.throughSequence = sequence ∧ a.arrivalId = id := by
  unfold makeArrival at ha
  split at ha
  · split at ha
    · split at ha
      · cases ha
        exact ⟨rfl, rfl, rfl, rfl⟩
      · cases ha
    · split at ha
      · cases ha
        exact ⟨rfl, rfl, rfl, rfl⟩
      · cases ha
  · cases ha

/-- Every message id is an arrival id. -/
theorem isArrivalId_newId (token : TokenHex) :
    Notifications.isArrivalId (newId "tmsg" token) = true := by
  have hprefix : "tmsg_" = "tmsg" ++ "_" := by decide
  rw [Notifications.isArrivalId, hprefix, isPrefixedHex_newId]
  exact token.hex

/-- A message that is not beyond an arrival of its mailbox is an arrival, too. -/
theorem makeArrival_of_le {a : MailArrival} {sequence : Nat} (token : TokenHex)
    (pos : 0 < sequence) (le : sequence ≤ a.throughSequence) :
    ∃ b, makeArrival a.mailbox.teamId a.mailbox.recipientServerId sequence
      (some (newId "tmsg" token)) = some b := by
  have hbounded := a.bounded
  unfold makeArrival
  rw [dif_pos ⟨a.mailbox.team_ok, a.mailbox.recipient_ok⟩]
  dsimp only
  rw [dif_pos ⟨by omega, by omega, isArrivalId_newId token⟩]
  exact ⟨_, rfl⟩

/-- `MailArrival.as_dict`. -/
def arrivalJson (arrival : MailArrival) : Json :=
  .obj [("version", number 1), ("team_id", .str arrival.mailbox.teamId),
    ("recipient_server_id", .str arrival.mailbox.recipientServerId),
    ("through_sequence", number arrival.throughSequence),
    ("arrival_id", nullable arrival.arrivalId)]

def cursorUnavailable : Failure :=
  .hubError "mail_cursor_unavailable" "Mail arrival cursor is unavailable" 409

namespace Hub

variable (h : Hub)

/-- `_team_mail_arrival`. -/
def mailArrival (teamId nodeId : String) : Except Failure MailArrival :=
  required (match h.arrival? teamId nodeId with
    | none => makeArrival teamId nodeId 0 none
    | some row => makeArrival teamId nodeId row.throughSequence (some row.arrivalId))
    cursorUnavailable

/-- `_team_mail_anchor_matches`. -/
def anchorMatches (anchor : MailArrival) : Bool :=
  anchor.throughSequence = 0 || h.messages.any fun m =>
    m.ordinal = anchor.throughSequence ∧ some m.id = anchor.arrivalId ∧
      m.teamId = anchor.mailbox.teamId ∧ m.content.isMessage = true ∧
      h.recipients.any fun r => r.teamId = m.teamId ∧ r.messageId = m.id ∧
        r.recipient = .server anchor.mailbox.recipientServerId

end Hub

/-- The arrival head of the mailbox, if the page is read without a filter behind an
arrival of that mailbox. -/
def Query.coverageHead (h : Hub) (query : Query) : Except Failure (Option MailArrival) :=
  match query.source with
  | .inbox (.server nodeId) =>
      if query.request.includeMailboxCoverage && !query.request.unread &&
          query.sender.isNone && query.since.isNone && query.search.isNone then
        match makeArrival query.teamId nodeId query.after query.request.afterArrivalId with
        | some anchor =>
            if h.anchorMatches anchor then some <$> h.mailArrival query.teamId nodeId
            else .ok none
        | none => .ok none
      else .ok none
  | _ => .ok none

/-! ## Pages -/

structure MessagePage where
  rows : List MessageRow
  next : Nat
  hasMore : Bool
  coverage : Option MailArrival
  response : Json

def searchTooBroad : Failure :=
  .hubError "search_too_broad" "Search exceeded its work limit; use more specific words" 503

def searchUnavailable : Failure :=
  .hubError "search_unavailable" "Indexed Team Messages search is unavailable" 503

def pageTooLarge : Failure :=
  .hubError "invalid_request" "Message page exceeds the response limit; lower limit" 422

namespace Query

variable [Sha256] (h : Hub) (directory : Directory) (index : SearchIndex) (query : Query)

/-- A message as a list shows it. -/
def listed (m : MessageRow) : Json :=
  messagePublic directory h m {
    includeBody := false
    includeRevision := query.request.includeRevision
    includeMailSubject := query.request.includeMailSubject
    includeMailboxState := query.request.includeMailboxState
    owned := match query.source with
      | .inbox _ => some query.owned
      | _ => none
    deliveryAddress := match query.source with
      | .inbox address => some address
      | _ => none }

/-- The cursor up to which a page covers the mailbox: its last row if rows are left,
and else the arrival head. -/
def covered (head : MailArrival) (rows : List MessageRow) (hasMore : Bool) :
    Except Failure MailArrival :=
  match rows.getLast? with
  | some last =>
      if hasMore then
        required (makeArrival head.mailbox.teamId head.mailbox.recipientServerId last.ordinal
          (some last.id)) .valueError
      else .ok head
  | none => .ok head

/-- The response with a page of the given rows. -/
def responseOf (rows : List MessageRow) (next : Nat) (hasMore : Bool)
    (coverage : Option MailArrival) : Json :=
  .obj ([("box", .str query.request.box),
    ("address", match query.source with
      | .inbox address => .obj [("kind", .str address.kind), ("id", .str address.id)]
      | _ => .null),
    ("messages", .arr (rows.map (query.listed h directory))),
    ("next_after_sequence", number next), ("has_more", .bool hasMore)] ++
    coverage.elim [] fun c => [("mailbox_coverage", arrivalJson c)])

/-- The page of the given rows. -/
def pageOf (head : Option MailArrival) (rows : List MessageRow) (hasMore : Bool) :
    Except Failure MessagePage := do
  let coverage ← match head with
    | some head => some <$> covered head rows hasMore
    | none => pure none
  let next := (rows.getLast?.map MessageRow.ordinal).getD query.after
  return {
    rows, next, hasMore, coverage
    response := query.responseOf h directory rows next hasMore coverage }

/-- Remove the last message while a page of several is too large. The bound is the
number of messages. -/
def shorten (head : Option MailArrival) : Nat → MessagePage → Except Failure MessagePage
  | n + 1, page =>
      if 1 < page.rows.length ∧ maxPageResponseBytes < responseBytes page.response then do
        let shorter ← query.pageOf h directory head page.rows.dropLast true
        shorten head n shorter
      else .ok page
  | 0, page => .ok page

/-- The integers that SQLite accepts as parameters. -/
def binds : Bool :=
  query.after ≤ maxRowId && query.since.all fun since =>
    decide (-(maxRowId : Int) - 1 ≤ since ∧ since ≤ maxRowId)

def page : Except Failure MessagePage := do
  require (query.search.isNone = true ∨ index.available = true) searchUnavailable
  require (query.binds = true) .overflowError
  require (query.search.isNone = true ∨ index.interrupted = false) searchTooBroad
  let rows := (query.rows h index).take (query.limit + 1)
  let visible := rows.take query.limit
  let head ← query.coverageHead h
  let first ← query.pageOf h directory head visible (decide (query.limit < rows.length))
  let page ← query.shorten h directory head first.rows.length first
  require (responseBytes page.response ≤ maxPageResponseBytes) pageTooLarge
  return page

end Query

def listTeamMessages [Sha256] [FilterTexts] (h : Hub) (caller : Caller) (directory : Directory)
    (index : SearchIndex) (teamId : String) (request : ListRequest) :
    Except Failure MessagePage := do
  let query ← request.query caller teamId
  query.page h directory index

end AgentsServer.TeamHub

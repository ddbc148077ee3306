import AgentsServer.PeerStore.Tables
import Mathlib.Data.Bool.AllAny

/-!
# The routes of the peer proxy

What a paired peer may ask of the Hub: the route expressions, the chain of branches that
grants a route its scope and its query, and the table of routes it amounts to.
-/

namespace AgentsServer.PeerProxy

open Library
open PeerStore (PeerAuthorization Scope isAsciiAlnum)

inductive Failure where
  | securePeerError (code message : String) (status : Nat)
  | valueError
  | recursionError
  deriving DecidableEq

def routeForbidden (message : String) : Failure := .securePeerError "route_forbidden" message 403

def invalidRequest (message : String) (status : Nat) : Failure :=
  .securePeerError "invalid_request" message status

/-- What the interpreter decides: its Unicode tables and the limits of its JSON reader. -/
class Interpreter where
  upper : List Char → List Char
  lower : List Char → List Char
  /-- `str.isdigit` of one character. -/
  isDigit : Char → Bool
  /-- The digit that `int` reads in a character. -/
  decimal : Char → Option Nat
  nesting : Nat
  intDigits : Nat
  isDigit_ascii : ∀ c, c.toNat < 128 → isDigit c = c.isDigit
  decimal_ascii : ∀ c, c.toNat < 128 →
    decimal c = if c.isDigit then some (c.toNat - '0'.toNat) else none

/-- `str.isdigit`. -/
def isdigit [Interpreter] (value : String) : Bool :=
  value ≠ "" && value.toList.all Interpreter.isDigit

/-! ## Route expressions -/

/-- `_HUB_SEGMENT`. -/
def isHubSegment (segment : String) : Bool :=
  match segment.toList with
  | [] => false
  | c :: rest => isAsciiAlnum c && rest.length ≤ 239 &&
      rest.all fun d => isAsciiAlnum d || "._:-".toList.contains d

/-- `path.split("/")`. The expressions below have no slash inside a group. -/
def segments (path : String) : List String := (path.toList.splitOn '/').map String.ofList

/-- `_TEAM_ROUTE_RE`: the team and its child. -/
def teamRoute? (path : String) : Option (String × Option String) :=
  match segments path with
  | [root, v1, teams, team] =>
      if [root, v1, teams] = ["", "v1", "teams"] ∧ isHubSegment team then some (team, none)
      else none
  | [root, v1, teams, team, child] =>
      if [root, v1, teams] = ["", "v1", "teams"] ∧ isHubSegment team ∧
          child ∈ ["members", "nodes", "channels", "invitations"] then
        some (team, some child)
      else none
  | _ => none

/-- `_TEAM_MEMBER_ROUTE_RE`: the team. -/
def teamMemberRoute? (path : String) : Option String :=
  match segments path with
  | [root, v1, teams, team, members, principal] =>
      if [root, v1, teams] = ["", "v1", "teams"] ∧ isHubSegment team ∧ members = "members" ∧
          isHubSegment principal then
        some team
      else none
  | _ => none

/-- `_CHANNEL_MESSAGES_RE`: the channel. -/
def channelMessages? (path : String) : Option String :=
  match segments path with
  | [root, v1, channels, channel, messages] =>
      if [root, v1, channels] = ["", "v1", "channels"] ∧ isHubSegment channel ∧
          messages = "messages" then
        some channel
      else none
  | _ => none

/-- `_NETWORK_ROUTE_RE`: the team and the pieces of the suffix. -/
def networkRoute? (path : String) : Option (String × List String) :=
  match segments path with
  | root :: v1 :: teams :: team :: network :: pieces =>
      if [root, v1, teams] = ["", "v1", "teams"] ∧ isHubSegment team ∧ network = "network" ∧
          pieces.length ≤ 4 ∧ ∀ piece ∈ pieces, isHubSegment piece then
        some (team, pieces)
      else none
  | _ => none

def blockedProxyPrefixes : List String :=
  ["/v1/bootstrap", "/v1/owner-recovery", "/v1/device-recovery", "/v1/node-enrollments",
    "/v1/dispatches", "/v1/invitations", "/v1/sessions", "/v1/openapi.json"]

/-- The path the gate looks at before any expression. -/
def isProxyPath (path : String) : Bool :=
  path.length ≤ 1024 && "/v1/".toList.isPrefixOf path.toList &&
    (find? "//" path.toList).isNone && !path.toList.contains '%' &&
    !path.toList.contains '\\' &&
    path.toList.all (fun c => 33 ≤ c.toNat && c.toNat ≤ 126) &&
    blockedProxyPrefixes.all fun pre =>
      path ≠ pre && !(pre ++ "/").toList.isPrefixOf path.toList

/-! ## The chain of branches -/

/-- Whether a query is allowed, and its keys. -/
structure Query where
  allowed : Bool
  keys : List String
  deriving DecidableEq

def noQuery : Query := ⟨false, []⟩

theorem lawfulPiece : LawfulBEq (Option String) := inferInstance

attribute [local instance] lawfulPiece

/-- The branches for the pieces after `network`. No result where no branch allows the
route. -/
def networkQuery [Interpreter] (method : String) (pieces : List String) : Option Query :=
  let first := pieces[0]?
  let third := pieces[2]?
  if pieces = [] ∧ method = "GET" then some ⟨true, ["after_server_id", "limit"]⟩
  else if pieces.length = 2 ∧ first = some "servers" ∧ method = "GET" then some noQuery
  else if pieces = ["server-profile"] ∧ method = "POST" then some noQuery
  else if pieces = ["agents"] ∧ method = "POST" then some noQuery
  else if pieces = ["bulletin"] ∧ method ∈ ["GET", "POST"] then
    some ⟨method = "GET", ["after_sequence", "limit"]⟩
  else if pieces.length = 2 ∧ first = some "bulletin" ∧ method = "DELETE" then some noQuery
  else if pieces = ["mailbox"] ∧ method ∈ ["GET", "POST"] then
    some ⟨method = "GET",
      ["address_kind", "address_id", "after_sequence", "limit", "include_revision"]⟩
  else if pieces.length = 2 ∧ first = some "items" ∧ method = "GET" then some noQuery
  else if pieces = ["requests"] ∧ method = "POST" then some noQuery
  else if pieces.length = 2 ∧ first = some "requests" ∧ method = "GET" then some noQuery
  else if pieces.length = 3 ∧ first = some "requests" ∧ third = some "replies" ∧
      method = "POST" then some noQuery
  else if pieces.length = 3 ∧ first = some "deliveries" ∧ third = some "receipts" ∧
      method = "POST" then some noQuery
  else if pieces = ["messages"] ∧ method ∈ ["GET", "POST"] then
    some ⟨method = "GET",
      ["box", "address_kind", "address_id", "unread", "from_kind", "from_id", "since",
        "after_sequence", "limit", "include_revision", "include_mail_subject",
        "include_mailbox_state", "include_mailbox_coverage", "after_arrival_id", "q"]⟩
  else if pieces.length = 2 ∧ first = some "messages" ∧ method ∈ ["GET", "DELETE"] then
    some ⟨method = "GET", ["include_revision", "include_mail_subject", "include_mailbox_state"]⟩
  else if pieces.length = 3 ∧ first = some "messages" ∧ third = some "revisions" ∧
      method ∈ ["GET", "POST"] then
    some ⟨true, if method = "GET" then ["version"] else ["include_mail_subject"]⟩
  else if pieces.length = 3 ∧ first = some "messages" ∧ third = some "thread" ∧
      method = "GET" then some ⟨true, ["after_sequence", "limit"]⟩
  else if pieces = ["deletions"] ∧ method = "GET" then some ⟨true, ["after_sequence", "limit"]⟩
  else if pieces.length = 3 ∧ first = some "messages" ∧
      third ∈ [some "receipts", some "dismissals", some "mailbox-state"] ∧ method = "POST" then
    some noQuery
  else if pieces = ["attachments"] ∧ method = "POST" then some noQuery
  else if pieces.length = 2 ∧ first = some "attachments" ∧ method = "GET" then some noQuery
  else if pieces = ["skills"] ∧ method = "GET" then some ⟨true, ["include_archived", "slug"]⟩
  else if pieces.length = 2 ∧ first = some "skills" ∧ method = "GET" then some noQuery
  else if pieces.length = 3 ∧ first = some "skills" ∧ third = some "versions" ∧
      method = "GET" then some noQuery
  else if pieces.length = 4 ∧ first = some "skills" ∧ third = some "versions" ∧
      (pieces[3]?.any isdigit) ∧ method = "GET" then some noQuery
  else if pieces.length = 3 ∧ first = some "skills" ∧ third ∈ [some "pin", some "archive"] ∧
      method = "POST" then some noQuery
  else none

/-- What a route needs and allows. -/
structure Access where
  requiredScope : Scope
  channel : Option String
  query : Query
  deriving DecidableEq

def scopeOf (method : String) : Scope :=
  if method = "GET" then .teamspaceRead else .teamspaceWrite

/-- The access to a path for a peer of the team. -/
def proxyAccess [Interpreter] (teamId method path : String) : Except Failure Access :=
  if method = "GET" ∧ path = "/v1/health" then .ok ⟨.teamspaceRead, none, noQuery⟩
  else if path ∈ ["/v1/peer-session", "/v1/session", "/v1/teams"] ∧ method = "GET" then
    .ok ⟨.teamspaceRead, none, noQuery⟩
  else
    match teamMemberRoute? path with
    | some team => do
        require (team = teamId) (routeForbidden "Hub route is outside the paired team")
        require (method = "GET") (routeForbidden "Hub route is not permitted")
        return ⟨.teamspaceRead, none, noQuery⟩
    | none =>
        match teamRoute? path with
        | some (team, child) => do
            require (team = teamId) (routeForbidden "Hub route is outside the paired team")
            require (method = "GET" ∧
              child ∈ [none, some "members", some "nodes", some "channels"])
              (routeForbidden "Hub route is not permitted")
            return ⟨.teamspaceRead, none,
              if child = some "members" then ⟨true, ["limit", "cursor"]⟩ else noQuery⟩
        | none =>
            match channelMessages? path with
            | some channel =>
                .ok ⟨scopeOf method, some channel, ⟨method = "GET", ["limit", "before_sequence"]⟩⟩
            | none =>
                match networkRoute? path with
                | some (team, pieces) => do
                    require (team = teamId) (routeForbidden "Hub route is outside the paired team")
                    let query ← required (networkQuery method pieces)
                      (routeForbidden "Hub route is not permitted")
                    return ⟨scopeOf method, none, query⟩
                | none => .error (routeForbidden "Hub route is not permitted")

/-! ## The table of routes -/

inductive Piece where
  | word (text : String)
  | team
  | id
  | number
  deriving DecidableEq

/-- What a piece of a route stands for, for a peer of the team. -/
def Piece.Accepts (teamId : String) : Piece → String → Prop
  | .word text, segment => segment = text
  | .team, segment => segment = teamId ∧ isHubSegment segment
  | .id, segment => isHubSegment segment
  | .number, segment => isHubSegment segment ∧ segment.toList.all Char.isDigit

/-- One route: its method, the pieces of its path after `/v1`, and the keys of its query. -/
structure Route where
  method : String
  shape : List Piece
  keys : List String
  deriving DecidableEq

def inNetwork (pieces : List Piece) : List Piece :=
  .word "teams" :: .team :: .word "network" :: pieces

def proxyRoutes : List Route :=
  [⟨"GET", [.word "health"], []⟩,
    ⟨"GET", [.word "peer-session"], []⟩,
    ⟨"GET", [.word "session"], []⟩,
    ⟨"GET", [.word "teams"], []⟩,
    ⟨"GET", [.word "teams", .team], []⟩,
    ⟨"GET", [.word "teams", .team, .word "members"], ["limit", "cursor"]⟩,
    ⟨"GET", [.word "teams", .team, .word "members", .id], []⟩,
    ⟨"GET", [.word "teams", .team, .word "nodes"], []⟩,
    ⟨"GET", [.word "teams", .team, .word "channels"], []⟩,
    ⟨"GET", [.word "channels", .id, .word "messages"], ["limit", "before_sequence"]⟩,
    ⟨"POST", [.word "channels", .id, .word "messages"], []⟩,
    ⟨"DELETE", [.word "channels", .id, .word "messages"], []⟩,
    ⟨"GET", inNetwork [], ["after_server_id", "limit"]⟩,
    ⟨"GET", inNetwork [.word "servers", .id], []⟩,
    ⟨"POST", inNetwork [.word "server-profile"], []⟩,
    ⟨"POST", inNetwork [.word "agents"], []⟩,
    ⟨"GET", inNetwork [.word "bulletin"], ["after_sequence", "limit"]⟩,
    ⟨"POST", inNetwork [.word "bulletin"], []⟩,
    ⟨"DELETE", inNetwork [.word "bulletin", .id], []⟩,
    ⟨"GET", inNetwork [.word "mailbox"],
      ["address_kind", "address_id", "after_sequence", "limit", "include_revision"]⟩,
    ⟨"POST", inNetwork [.word "mailbox"], []⟩,
    ⟨"GET", inNetwork [.word "items", .id], []⟩,
    ⟨"POST", inNetwork [.word "requests"], []⟩,
    ⟨"GET", inNetwork [.word "requests", .id], []⟩,
    ⟨"POST", inNetwork [.word "requests", .id, .word "replies"], []⟩,
    ⟨"POST", inNetwork [.word "deliveries", .id, .word "receipts"], []⟩,
    ⟨"GET", inNetwork [.word "messages"],
      ["box", "address_kind", "address_id", "unread", "from_kind", "from_id", "since",
        "after_sequence", "limit", "include_revision", "include_mail_subject",
        "include_mailbox_state", "include_mailbox_coverage", "after_arrival_id", "q"]⟩,
    ⟨"POST", inNetwork [.word "messages"], []⟩,
    ⟨"GET", inNetwork [.word "messages", .id],
      ["include_revision", "include_mail_subject", "include_mailbox_state"]⟩,
    ⟨"DELETE", inNetwork [.word "messages", .id], []⟩,
    ⟨"GET", inNetwork [.word "messages", .id, .word "revisions"], ["version"]⟩,
    ⟨"POST", inNetwork [.word "messages", .id, .word "revisions"], ["include_mail_subject"]⟩,
    ⟨"GET", inNetwork [.word "messages", .id, .word "thread"], ["after_sequence", "limit"]⟩,
    ⟨"GET", inNetwork [.word "deletions"], ["after_sequence", "limit"]⟩,
    ⟨"POST", inNetwork [.word "messages", .id, .word "receipts"], []⟩,
    ⟨"POST", inNetwork [.word "messages", .id, .word "dismissals"], []⟩,
    ⟨"POST", inNetwork [.word "messages", .id, .word "mailbox-state"], []⟩,
    ⟨"POST", inNetwork [.word "attachments"], []⟩,
    ⟨"GET", inNetwork [.word "attachments", .id], []⟩,
    ⟨"GET", inNetwork [.word "skills"], ["include_archived", "slug"]⟩,
    ⟨"GET", inNetwork [.word "skills", .id], []⟩,
    ⟨"GET", inNetwork [.word "skills", .id, .word "versions"], []⟩,
    ⟨"GET", inNetwork [.word "skills", .id, .word "versions", .number], []⟩,
    ⟨"POST", inNetwork [.word "skills", .id, .word "pin"], []⟩,
    ⟨"POST", inNetwork [.word "skills", .id, .word "archive"], []⟩]

/-- A route of the table stands for the method and the path. -/
def Route.Fits (route : Route) (teamId method path : String) : Prop :=
  route.method = method ∧ ∃ rest, segments path = "" :: "v1" :: rest ∧
    List.Forall₂ (Piece.Accepts teamId) route.shape rest

/-- The path is on the table, and the query has no other keys than the route allows. -/
def OnTable (teamId method path : String) (query : Query) : Prop :=
  ∃ route ∈ proxyRoutes, route.Fits teamId method path ∧
    ∀ key, query.allowed = true → key ∈ query.keys → key ∈ route.keys

/-! ## Every branch is on the table -/

variable {teamId method path : String} {pieces : List String} {query : Query}

/-- The table has a route of the network with these pieces. -/
def OnNetworkTable (teamId method : String) (pieces : List String) (query : Query) : Prop :=
  ∃ shape keys, (⟨method, inNetwork shape, keys⟩ : Route) ∈ proxyRoutes ∧
    List.Forall₂ (Piece.Accepts teamId) shape pieces ∧
    ∀ key, query.allowed = true → key ∈ query.keys → key ∈ keys

theorem onNetworkTable {shape : List Piece} (keys : List String)
    (mem : (⟨method, inNetwork shape, keys⟩ : Route) ∈ proxyRoutes)
    (fits : List.Forall₂ (Piece.Accepts teamId) shape pieces)
    (allowed : query.allowed = false ∨ query.keys = keys) :
    OnNetworkTable teamId method pieces query := by
  refine ⟨shape, keys, mem, fits, ?_⟩
  intro key hallowed hkey
  rcases allowed with hno | hkeys
  · rw [hno] at hallowed
    cases hallowed
  · exact hkeys ▸ hkey

theorem four_pieces {first third : String} (length : pieces.length = 4)
    (head : pieces[0]? = some first) (middle : pieces[2]? = some third) :
    ∃ id number, pieces = [first, id, third, number] := by
  match pieces, length with
  | [a, b, c, d], _ =>
      cases head
      cases middle
      exact ⟨b, d, rfl⟩

/-- The ASCII letters, digits and signs of a segment. -/
theorem segment_ascii {segment : String} (h : isHubSegment segment) {c : Char}
    (hc : c ∈ segment.toList) : c.toNat < 128 := by
  have hsign : ∀ d ∈ "._:-".toList, d.toNat < 128 :=
    List.all_iff_forall_prop.mp (by decide)
  have halnum : ∀ d, isAsciiAlnum d = true → d.toNat < 128 := by
    intro d hd
    simp only [isAsciiAlnum, Bool.and_eq_true, decide_eq_true_eq] at hd
    exact hd.2
  rw [isHubSegment] at h
  split at h
  · cases h
  · next first rest hlist =>
      rw [hlist] at hc
      simp only [Bool.and_eq_true, List.all_eq_true, Bool.or_eq_true, List.contains_iff_mem] at h
      rcases List.mem_cons.mp hc with rfl | hc
      · exact halnum c h.1.1
      · rcases h.2 c hc with hletter | hsigned
        · exact halnum c hletter
        · exact hsign c hsigned

theorem branch {α : Type} {c : Prop} [Decidable c] {x y : Option α} {a : α}
    (h : (if c then x else y) = some a) : c ∧ x = some a ∨ y = some a := by
  split at h
  · next hc => exact .inl ⟨hc, h⟩
  · exact .inr h

theorem either {a b : String} (h : method ∈ [a, b]) : method = a ∨ method = b := by
  simpa using h

theorem one_fits {word : String} (h : pieces = [word]) :
    List.Forall₂ (Piece.Accepts teamId) [.word word] pieces := by
  subst h
  exact .cons rfl .nil

section
variable (hub : ∀ piece ∈ pieces, isHubSegment piece)
include hub

theorem two_fit {word : String} (length : pieces.length = 2) (head : pieces[0]? = some word) :
    List.Forall₂ (Piece.Accepts teamId) [.word word, .id] pieces := by
  match pieces, length with
  | [_, id], _ =>
      cases head
      exact .cons rfl (.cons (hub id (by simp)) .nil)

theorem three_fit {word last : String} (length : pieces.length = 3)
    (head : pieces[0]? = some word) (third : pieces[2]? = some last) :
    List.Forall₂ (Piece.Accepts teamId) [.word word, .id, .word last] pieces := by
  match pieces, length with
  | [_, id, _], _ =>
      cases head
      cases third
      exact .cons rfl (.cons (hub id (by simp)) (.cons rfl .nil))

end

/-- `str.isdigit` of a segment of a path. -/
theorem isdigit_segment [Interpreter] {segment : String} (hub : isHubSegment segment) (h : isdigit segment) :
    segment.toList.all Char.isDigit := by
  simp only [isdigit, Bool.and_eq_true, List.all_eq_true] at h ⊢
  intro c hc
  rw [← Interpreter.isDigit_ascii c (segment_ascii hub hc)]
  exact h.2 c hc

/-- Every branch of the chain is a route of the table. -/
theorem networkQuery_onTable [Interpreter] (hub : ∀ piece ∈ pieces, isHubSegment piece)
    (h : networkQuery method pieces = some query) :
    OnNetworkTable teamId method pieces query := by
  unfold networkQuery at h
  extract_lets first third at h
  rcases branch h with ⟨c, hquery⟩ | h
  · obtain ⟨rfl, rfl⟩ := c
    cases hquery
    exact onNetworkTable _ (by decide) .nil (.inr rfl)
  rcases branch h with ⟨c, hquery⟩ | h
  · obtain ⟨length, head, rfl⟩ := c
    cases hquery
    exact onNetworkTable [] (by decide) (two_fit hub length head) (.inl rfl)
  rcases branch h with ⟨c, hquery⟩ | h
  · obtain ⟨hp, rfl⟩ := c
    cases hquery
    exact onNetworkTable [] (by decide) (one_fits hp) (.inl rfl)
  rcases branch h with ⟨c, hquery⟩ | h
  · obtain ⟨hp, rfl⟩ := c
    cases hquery
    exact onNetworkTable [] (by decide) (one_fits hp) (.inl rfl)
  rcases branch h with ⟨c, hquery⟩ | h
  · obtain ⟨hp, hmethod⟩ := c
    cases hquery
    rcases either hmethod with rfl | rfl
    · exact onNetworkTable _ (by decide) (one_fits hp) (.inr rfl)
    · exact onNetworkTable [] (by decide) (one_fits hp) (.inl rfl)
  rcases branch h with ⟨c, hquery⟩ | h
  · obtain ⟨length, head, rfl⟩ := c
    cases hquery
    exact onNetworkTable [] (by decide) (two_fit hub length head) (.inl rfl)
  rcases branch h with ⟨c, hquery⟩ | h
  · obtain ⟨hp, hmethod⟩ := c
    cases hquery
    rcases either hmethod with rfl | rfl
    · exact onNetworkTable _ (by decide) (one_fits hp) (.inr rfl)
    · exact onNetworkTable [] (by decide) (one_fits hp) (.inl rfl)
  rcases branch h with ⟨c, hquery⟩ | h
  · obtain ⟨length, head, rfl⟩ := c
    cases hquery
    exact onNetworkTable [] (by decide) (two_fit hub length head) (.inl rfl)
  rcases branch h with ⟨c, hquery⟩ | h
  · obtain ⟨hp, rfl⟩ := c
    cases hquery
    exact onNetworkTable [] (by decide) (one_fits hp) (.inl rfl)
  rcases branch h with ⟨c, hquery⟩ | h
  · obtain ⟨length, head, rfl⟩ := c
    cases hquery
    exact onNetworkTable [] (by decide) (two_fit hub length head) (.inl rfl)
  rcases branch h with ⟨c, hquery⟩ | h
  · obtain ⟨length, head, last, rfl⟩ := c
    cases hquery
    exact onNetworkTable [] (by decide) (three_fit hub length head last) (.inl rfl)
  rcases branch h with ⟨c, hquery⟩ | h
  · obtain ⟨length, head, last, rfl⟩ := c
    cases hquery
    exact onNetworkTable [] (by decide) (three_fit hub length head last) (.inl rfl)
  rcases branch h with ⟨c, hquery⟩ | h
  · obtain ⟨hp, hmethod⟩ := c
    cases hquery
    rcases either hmethod with rfl | rfl
    · exact onNetworkTable _ (by decide) (one_fits hp) (.inr rfl)
    · exact onNetworkTable [] (by decide) (one_fits hp) (.inl rfl)
  rcases branch h with ⟨c, hquery⟩ | h
  · obtain ⟨length, head, hmethod⟩ := c
    cases hquery
    rcases either hmethod with rfl | rfl
    · exact onNetworkTable _ (by decide) (two_fit hub length head) (.inr rfl)
    · exact onNetworkTable [] (by decide) (two_fit hub length head) (.inl rfl)
  rcases branch h with ⟨c, hquery⟩ | h
  · obtain ⟨length, head, last, hmethod⟩ := c
    cases hquery
    rcases either hmethod with rfl | rfl
    · exact onNetworkTable _ (by decide) (three_fit hub length head last) (.inr rfl)
    · exact onNetworkTable _ (by decide) (three_fit hub length head last) (.inr rfl)
  rcases branch h with ⟨c, hquery⟩ | h
  · obtain ⟨length, head, last, rfl⟩ := c
    cases hquery
    exact onNetworkTable _ (by decide) (three_fit hub length head last) (.inr rfl)
  rcases branch h with ⟨c, hquery⟩ | h
  · obtain ⟨hp, rfl⟩ := c
    cases hquery
    exact onNetworkTable _ (by decide) (one_fits hp) (.inr rfl)
  rcases branch h with ⟨c, hquery⟩ | h
  · obtain ⟨length, head, last, rfl⟩ := c
    cases hquery
    simp only [List.mem_cons, List.not_mem_nil, or_false] at last
    rcases last with last | last | last
    · exact onNetworkTable [] (by decide) (three_fit hub length head last) (.inl rfl)
    · exact onNetworkTable [] (by decide) (three_fit hub length head last) (.inl rfl)
    · exact onNetworkTable [] (by decide) (three_fit hub length head last) (.inl rfl)
  rcases branch h with ⟨c, hquery⟩ | h
  · obtain ⟨hp, rfl⟩ := c
    cases hquery
    exact onNetworkTable [] (by decide) (one_fits hp) (.inl rfl)
  rcases branch h with ⟨c, hquery⟩ | h
  · obtain ⟨length, head, rfl⟩ := c
    cases hquery
    exact onNetworkTable [] (by decide) (two_fit hub length head) (.inl rfl)
  rcases branch h with ⟨c, hquery⟩ | h
  · obtain ⟨hp, rfl⟩ := c
    cases hquery
    exact onNetworkTable _ (by decide) (one_fits hp) (.inr rfl)
  rcases branch h with ⟨c, hquery⟩ | h
  · obtain ⟨length, head, rfl⟩ := c
    cases hquery
    exact onNetworkTable [] (by decide) (two_fit hub length head) (.inl rfl)
  rcases branch h with ⟨c, hquery⟩ | h
  · obtain ⟨length, head, last, rfl⟩ := c
    cases hquery
    exact onNetworkTable [] (by decide) (three_fit hub length head last) (.inl rfl)
  rcases branch h with ⟨c, hquery⟩ | h
  · obtain ⟨length, head, middle, digits, rfl⟩ := c
    obtain ⟨id, number, rfl⟩ := four_pieces length head middle
    cases hquery
    have hnumber : isHubSegment number := hub number (by simp)
    have fits : List.Forall₂ (Piece.Accepts teamId)
        [.word "skills", .id, .word "versions", .number] ["skills", id, "versions", number] :=
      .cons rfl (.cons (hub id (by simp)) (.cons rfl
        (.cons ⟨hnumber, isdigit_segment hnumber digits⟩ .nil)))
    exact onNetworkTable [] (by decide) fits (.inl rfl)
  rcases branch h with ⟨c, hquery⟩ | h
  · obtain ⟨length, head, last, rfl⟩ := c
    cases hquery
    simp only [List.mem_cons, List.not_mem_nil, or_false] at last
    rcases last with last | last
    · exact onNetworkTable [] (by decide) (three_fit hub length head last) (.inl rfl)
    · exact onNetworkTable [] (by decide) (three_fit hub length head last) (.inl rfl)
  cases h

/-- What the expressions read off a path. -/
theorem teamMemberRoute_eq {team : String} (h : teamMemberRoute? path = some team) :
    isHubSegment team ∧ ∃ principal, isHubSegment principal ∧
      segments path = ["", "v1", "teams", team, "members", principal] := by
  rw [teamMemberRoute?] at h
  split at h
  · next root v1 teams member members principal hpath =>
      split at h
      · next hfits =>
          obtain ⟨hwords, hteam, rfl, hprincipal⟩ := hfits
          cases hwords
          cases h
          exact ⟨hteam, principal, hprincipal, hpath⟩
      · cases h
  · cases h

theorem teamRoute_eq {team : String} {child : Option String}
    (h : teamRoute? path = some (team, child)) :
    isHubSegment team ∧ segments path = ["", "v1", "teams", team] ++ child.toList := by
  rw [teamRoute?] at h
  split at h
  · next root v1 teams member hpath =>
      split at h
      · next hfits =>
          obtain ⟨hwords, hteam⟩ := hfits
          cases hwords
          cases h
          exact ⟨hteam, hpath⟩
      · cases h
  · next root v1 teams member word hpath =>
      split at h
      · next hfits =>
          obtain ⟨hwords, hteam, _⟩ := hfits
          cases hwords
          cases h
          exact ⟨hteam, hpath⟩
      · cases h
  · cases h

theorem channelMessages_eq {channel : String} (h : channelMessages? path = some channel) :
    isHubSegment channel ∧ segments path = ["", "v1", "channels", channel, "messages"] := by
  rw [channelMessages?] at h
  split at h
  · next root v1 channels id messages hpath =>
      split at h
      · next hfits =>
          obtain ⟨hwords, hchannel, rfl⟩ := hfits
          cases hwords
          cases h
          exact ⟨hchannel, hpath⟩
      · cases h
  · cases h

theorem networkRoute_eq {team : String} (h : networkRoute? path = some (team, pieces)) :
    isHubSegment team ∧ (∀ piece ∈ pieces, isHubSegment piece) ∧
      segments path = "" :: "v1" :: "teams" :: team :: "network" :: pieces := by
  rw [networkRoute?] at h
  split at h
  · next root v1 teams member network rest hpath =>
      split at h
      · next hfits =>
          obtain ⟨hwords, hteam, rfl, _, hpieces⟩ := hfits
          cases hwords
          cases h
          exact ⟨hteam, hpieces, hpath⟩
      · cases h
  · cases h

theorem onTable {rest : List String} (route : Route) (mem : route ∈ proxyRoutes)
    (hmethod : route.method = method) (hpath : segments path = "" :: "v1" :: rest)
    (fits : List.Forall₂ (Piece.Accepts teamId) route.shape rest)
    (keys : query.allowed = false ∨ query.keys = route.keys) :
    OnTable teamId method path query := by
  refine ⟨route, mem, ⟨hmethod, rest, hpath, fits⟩, ?_⟩
  intro key hallowed hkey
  rcases keys with hno | hkeys
  · rw [hno] at hallowed
    cases hallowed
  · exact hkeys ▸ hkey

theorem OnNetworkTable.onTable {team : String} (h : OnNetworkTable team method pieces query)
    (hteam : isHubSegment team)
    (hpath : segments path = "" :: "v1" :: "teams" :: team :: "network" :: pieces) :
    OnTable team method path query := by
  obtain ⟨shape, keys, mem, fits, hkeys⟩ := h
  exact ⟨_, mem, ⟨rfl, _, hpath, .cons rfl (.cons ⟨rfl, hteam⟩ (.cons rfl fits))⟩, hkeys⟩

/-- A granted access stands on the table. -/
theorem proxyAccess_onTable [Interpreter] {access : Access} (hmethod : method ∈ ["GET", "POST", "DELETE"])
    (h : proxyAccess teamId method path = .ok access) :
    OnTable teamId method path access.query := by
  rw [proxyAccess] at h
  split at h
  · next hhealth =>
      obtain ⟨rfl, rfl⟩ := hhealth
      cases h
      have hpath : segments "/v1/health" = ["", "v1", "health"] := by decide
      exact onTable ⟨"GET", [.word "health"], []⟩ (by decide) rfl hpath (.cons rfl .nil)
        (.inl rfl)
  split at h
  · next hsession =>
      obtain ⟨hpath, rfl⟩ := hsession
      cases h
      simp only [List.mem_cons, List.not_mem_nil, or_false] at hpath
      rcases hpath with rfl | rfl | rfl
      · have hpath : segments "/v1/peer-session" = ["", "v1", "peer-session"] := by decide
        exact onTable ⟨"GET", [.word "peer-session"], []⟩ (by decide) rfl hpath
          (.cons rfl .nil) (.inl rfl)
      · have hpath : segments "/v1/session" = ["", "v1", "session"] := by decide
        exact onTable ⟨"GET", [.word "session"], []⟩ (by decide) rfl hpath (.cons rfl .nil)
          (.inl rfl)
      · have hpath : segments "/v1/teams" = ["", "v1", "teams"] := by decide
        exact onTable ⟨"GET", [.word "teams"], []⟩ (by decide) rfl hpath (.cons rfl .nil)
          (.inl rfl)
  split at h
  · next team hroute =>
      obtain ⟨hteam, principal, hprincipal, hpath⟩ := teamMemberRoute_eq hroute
      simp only [bind_eq_ok, require_eq_ok, exists_and_left, pure_eq_ok] at h
      obtain ⟨rfl, rfl, _, _, rfl⟩ := h
      exact onTable ⟨"GET", [.word "teams", .team, .word "members", .id], []⟩ (by decide) rfl
        hpath (.cons rfl (.cons ⟨rfl, hteam⟩ (.cons rfl (.cons hprincipal .nil)))) (.inl rfl)
  split at h
  · next team child hroute =>
      obtain ⟨hteam, hpath⟩ := teamRoute_eq hroute
      simp only [bind_eq_ok, require_eq_ok, exists_and_left, pure_eq_ok] at h
      obtain ⟨rfl, ⟨rfl, hchild⟩, _, _, rfl⟩ := h
      simp only [List.mem_cons, List.not_mem_nil, or_false] at hchild
      rcases hchild with rfl | rfl | rfl | rfl
      · exact onTable ⟨"GET", [.word "teams", .team], []⟩ (by decide) rfl hpath
          (.cons rfl (.cons ⟨rfl, hteam⟩ .nil)) (.inl rfl)
      · exact onTable ⟨"GET", [.word "teams", .team, .word "members"], ["limit", "cursor"]⟩
          (by decide) rfl hpath (.cons rfl (.cons ⟨rfl, hteam⟩ (.cons rfl .nil))) (.inr rfl)
      · exact onTable ⟨"GET", [.word "teams", .team, .word "nodes"], []⟩ (by decide) rfl hpath
          (.cons rfl (.cons ⟨rfl, hteam⟩ (.cons rfl .nil))) (.inl rfl)
      · exact onTable ⟨"GET", [.word "teams", .team, .word "channels"], []⟩ (by decide) rfl
          hpath (.cons rfl (.cons ⟨rfl, hteam⟩ (.cons rfl .nil))) (.inl rfl)
  split at h
  · next channel hroute =>
      obtain ⟨hchannel, hpath⟩ := channelMessages_eq hroute
      cases h
      have fits : List.Forall₂ (Piece.Accepts teamId) [.word "channels", .id, .word "messages"]
          ["channels", channel, "messages"] := .cons rfl (.cons hchannel (.cons rfl .nil))
      simp only [List.mem_cons, List.not_mem_nil, or_false] at hmethod
      rcases hmethod with rfl | rfl | rfl
      · exact onTable ⟨"GET", _, ["limit", "before_sequence"]⟩ (by decide) rfl hpath fits
          (.inr rfl)
      · exact onTable ⟨"POST", _, []⟩ (by decide) rfl hpath fits (.inl rfl)
      · exact onTable ⟨"DELETE", _, []⟩ (by decide) rfl hpath fits (.inl rfl)
  split at h
  · next team pieces hroute =>
      obtain ⟨hteam, hpieces, hpath⟩ := networkRoute_eq hroute
      simp only [bind_eq_ok, require_eq_ok, required_eq_ok, exists_and_left, pure_eq_ok] at h
      obtain ⟨rfl, _, query, hquery, rfl⟩ := h
      exact (networkQuery_onTable hpieces hquery).onTable hteam hpath
  · cases h

end AgentsServer.PeerProxy

import AgentsServer.Library.JsonLoads
import AgentsServer.Library.Paging
import AgentsServer.TeamHub.Sessions
import Mathlib.Data.Prod.Lex
import Mathlib.Data.String.Basic

/-!
# Pages of the administration lists

The device sessions of a person, the members of a team and its pending invitations are read in
pages, newest first. A row that is inserted gets the next number of a ledger that is never changed.
The first page fixes the highest number of the scan, and an encrypted cursor carries it on together
with the place of the last row.
-/

namespace AgentsServer.TeamHub

open Library

def maxHumanAdminPageItems : Nat := 100

def invitationMaxTtlSeconds : Nat := 24 * 60 * 60

/-! ## Tables -/

inductive PrincipalKind where
  | human
  | service
  | node
  | agent
  | chat
  deriving DecidableEq

/-- What `_id(prefix)` returns, or the name of a built-in principal: `_identity` keeps it. -/
structure PlainId where
  text : String
  plain : identity text = some text
  deriving DecidableEq

structure PrincipalRow where
  id : PlainId
  kind : PrincipalKind
  displayName : String
  status : Standing

structure HumanAccount where
  principalId : PlainId
  emailNormalized : String

structure DeviceSessionRow where
  id : PlainId
  humanPrincipalId : PlainId
  deviceLabel : String
  createdAt : Nat
  lastSeenAt : Nat
  expiresAt : Nat
  revokedAt : Option Nat

structure MemberRow where
  id : PlainId
  teamId : String
  principalId : PlainId
  role : MemberRole
  status : Standing
  createdAt : Nat

structure InvitationRow where
  id : PlainId
  teamId : String
  inviteeEmailNormalized : String
  role : MemberRole
  issuedByPrincipalId : String
  expiresAt : Nat
  createdAt : Nat
  redeemedAt : Option Nat
  revokedAt : Option Nat

inductive ResourceKind where
  | deviceSession
  | invitation
  | membership
  deriving DecidableEq

def ResourceKind.text : ResourceKind → String
  | .deviceSession => "device_session"
  | .invitation => "invitation"
  | .membership => "membership"

/-- A row of `human_admin_page_entries`. -/
structure PageEntry where
  sequence : Nat
  kind : ResourceKind
  resourceId : PlainId
  deriving DecidableEq

structure AdminDb where
  principals : List PrincipalRow
  humans : List HumanAccount
  deviceSessions : List DeviceSessionRow
  memberships : List MemberRow
  invitations : List InvitationRow
  entries : List PageEntry

def AdminDb.empty : AdminDb := ⟨[], [], [], [], [], []⟩

/-! ## Writes -/

/-- A statement that changes the tables. The triggers refuse every other change of the columns that
the lists read, and every deletion. Some of these statements they refuse as well. -/
inductive AdminWrite where
  | insertPrincipal (row : PrincipalRow)
  | updatePrincipal (id : PlainId) (displayName : String) (status : Standing)
  | insertHuman (row : HumanAccount)
  | insertDeviceSession (row : DeviceSessionRow)
  | updateDeviceSession (id : PlainId) (lastSeenAt : Nat) (revokedAt : Option Nat)
  | insertMembership (row : MemberRow)
  | updateMembership (teamId : String) (principalId : PlainId) (role : MemberRole)
      (status : Standing)
  | insertInvitation (row : InvitationRow)
  | updateInvitation (id : PlainId) (redeemedAt revokedAt : Option Nat)

namespace AdminDb

variable (db : AdminDb)

/-- `SELECT COALESCE(MAX(sequence),0) FROM human_admin_page_entries`. -/
def newest : Nat := db.entries.foldr (fun e most => max e.sequence most) 0

/-- The trigger after an insert into one of the three tables. -/
def insertEntry (kind : ResourceKind) (resourceId : PlainId) : Except Failure AdminDb := do
  require (∀ e ∈ db.entries, ¬ (e.kind = kind ∧ e.resourceId = resourceId)) .integrityError
  require (db.newest < maxRowId) .databaseFull
  pure { db with entries := db.entries ++ [⟨db.newest + 1, kind, resourceId⟩] }

def write : AdminWrite → Except Failure AdminDb
  | .insertPrincipal row => do
      require (∀ p ∈ db.principals, p.id ≠ row.id) .integrityError
      pure { db with principals := db.principals ++ [row] }
  | .updatePrincipal id displayName status =>
      pure { db with principals := db.principals.map fun p =>
        if p.id = id then { p with displayName := displayName, status := status } else p }
  | .insertHuman row => do
      require (∀ h ∈ db.humans, h.principalId ≠ row.principalId) .integrityError
      pure { db with humans := db.humans ++ [row] }
  | .insertDeviceSession row => do
      require (row.createdAt ≤ maxRowId) .overflowError
      require (∀ s ∈ db.deviceSessions, s.id ≠ row.id) .integrityError
      insertEntry { db with deviceSessions := db.deviceSessions ++ [row] } .deviceSession row.id
  | .updateDeviceSession id lastSeenAt revokedAt =>
      pure { db with deviceSessions := db.deviceSessions.map fun s =>
        if s.id = id then { s with lastSeenAt := lastSeenAt, revokedAt := revokedAt } else s }
  | .insertMembership row => do
      require (row.createdAt ≤ maxRowId) .overflowError
      require (∀ m ∈ db.memberships, m.id ≠ row.id ∧
        ¬ (m.teamId = row.teamId ∧ m.principalId = row.principalId)) .integrityError
      insertEntry { db with memberships := db.memberships ++ [row] } .membership row.id
  | .updateMembership teamId principalId role status =>
      pure { db with memberships := db.memberships.map fun m =>
        if m.teamId = teamId ∧ m.principalId = principalId
        then { m with role := role, status := status } else m }
  | .insertInvitation row => do
      require (row.createdAt ≤ maxRowId) .overflowError
      require (∀ i ∈ db.invitations, i.id ≠ row.id) .integrityError
      insertEntry { db with invitations := db.invitations ++ [row] } .invitation row.id
  | .updateInvitation id redeemedAt revokedAt =>
      pure { db with invitations := db.invitations.map fun i =>
        if i.id = id then { i with redeemedAt := redeemedAt, revokedAt := revokedAt } else i }

/-- A statement that fails leaves the tables as they are. -/
def afterWrite (db : AdminDb) (w : AdminWrite) : AdminDb :=
  match db.write w with
  | .ok after => after
  | .error _ => db

def afterWrites (db : AdminDb) (writes : List AdminWrite) : AdminDb := writes.foldl afterWrite db

end AdminDb

/-! ## Cursors -/

/-- `AESGCM` under `_human_admin_cursor_key`. -/
class CursorSeal where
  encrypt : (nonce plaintext associated : Bytes) → Bytes
  /-- `none` where it raises `InvalidTag` -/
  decrypt : (nonce ciphertext associated : Bytes) → Option Bytes
  decrypt_encrypt : ∀ nonce plaintext associated,
    decrypt nonce (encrypt nonce plaintext associated) associated = some plaintext
  length_encrypt : ∀ nonce plaintext associated,
    (encrypt nonce plaintext associated).length = plaintext.length + 16

/-- What a cursor is bound to. -/
structure CursorScope where
  resourceKind : ResourceKind
  scopeId : String
  viewerId : String
  visibility : String
  deriving DecidableEq

def CursorScope.json (scope : CursorScope) : Json :=
  .obj [("k", .str scope.resourceKind.text), ("s", .str scope.scopeId), ("u", .str scope.viewerId),
    ("f", .str scope.visibility)]

/-- The associated data. -/
def CursorScope.bytes (scope : CursorScope) : Bytes :=
  utf8 "agentsdock-team-hub-human-admin-cursor-v1\x00".toList ++ utf8 scope.json.canonical

/-- What a cursor carries. -/
structure Boundary where
  highwater : Nat
  timestamp : Nat
  resourceId : String
  deriving DecidableEq

/-- `secrets.token_bytes(12)`. -/
structure Nonce where
  bytes : Bytes
  length : bytes.length = 12

def invalidCursor : Failure := .hubError "invalid_cursor" "Page cursor is invalid" 422

/-- `v1\.[A-Za-z0-9_-]{38,500}` within 512 characters. -/
def isCursor (raw : List Char) : Bool :=
  raw.length ≤ 512 && raw.take 3 == ['v', '1', '.'] && 41 ≤ raw.length && raw.length ≤ 503 &&
    (raw.drop 3).all fun c => (Base64.value? c).isSome

/-- `payload["v"] == 1`, which a Boolean and a float may meet, too. -/
def equalsOne : Json → Bool
  | .num literal => literal.value? == some 1
  | .bool value => value
  | _ => false

/-- An integer that SQLite can hold and that is not negative. -/
def storedInteger (value : Json) : Option Nat := do
  let n ← value.int?
  if 0 ≤ n ∧ n ≤ maxRowId then some n.toNat else none

section Cursors

variable [CursorSeal] [FloatText]

/-- The boundary of a decrypted text. -/
def boundaryOf (plaintext : Bytes) : Except Failure Boundary := do
  let payload ← required (Json.loadsBytes plaintext) invalidCursor
  let fields ← required payload.obj? invalidCursor
  require (Json.hasKeys ["v", "h", "t", "i"] fields = true) invalidCursor
  require (equalsOne (get fields "v") = true) invalidCursor
  let highwater ← required (storedInteger (get fields "h")) invalidCursor
  let timestamp ← required (storedInteger (get fields "t")) invalidCursor
  -- `strip` of another type raises `AttributeError`, which is not caught
  let text ← required (get fields "i").str? .typeError
  let resourceId ← required (identity text) invalidCursor
  pure ⟨highwater, timestamp, resourceId⟩

/-- `_human_admin_page_cursor`. -/
def humanAdminPageCursor (scope : CursorScope) : Option String → Except Failure (Option Boundary)
  | none => pure none
  | some value => do
      let raw := value.toList
      require (isCursor raw = true) invalidCursor
      let ciphertext ← required (Base64.decode (raw.drop 3)) invalidCursor
      require (12 + 16 ≤ ciphertext.length) invalidCursor
      let plaintext ← required
        (CursorSeal.decrypt (ciphertext.take 12) (ciphertext.drop 12) scope.bytes) invalidCursor
      let boundary ← boundaryOf plaintext
      pure (some boundary)

def Boundary.json (b : Boundary) : Json :=
  .obj [("v", .num (.ofNat 1)), ("h", .num (.ofNat b.highwater)), ("t", .num (.ofNat b.timestamp)),
    ("i", .str b.resourceId)]

/-- `_encode_human_admin_page_cursor`. -/
def encodeHumanAdminPageCursor (scope : CursorScope) (b : Boundary) (nonce : Nonce) :
    Except Failure String := do
  let resourceId ← required (identity b.resourceId) .valueError
  let payload := utf8 { b with resourceId := resourceId }.json.canonical
  let ciphertext := nonce.bytes ++ CursorSeal.encrypt nonce.bytes payload scope.bytes
  let cursor := String.ofList (['v', '1', '.'] ++ Base64.encode ciphertext)
  require (cursor.length ≤ 512) .runtimeError
  pure cursor

end Cursors

/-! ## Rows of a list -/

/-- A row with its place in the list, and its number in the ledger. -/
structure Placed (β : Type) where
  createdAt : Nat
  resourceId : String
  sequence : Nat
  row : β

/-- `ORDER BY created_at DESC, id DESC`. -/
def Placed.place {β : Type} (r : Placed β) : Nat ×ₗ String := toLex (r.createdAt, r.resourceId)

def Boundary.place (b : Boundary) : Nat ×ₗ String := toLex (b.timestamp, b.resourceId)

/-- The row as it is shown, if it is. -/
def Placed.seen {β γ : Type} (f : β → Option γ) (r : Placed β) : Option (Placed γ) :=
  (f r.row).map fun row => ⟨r.createdAt, r.resourceId, r.sequence, row⟩

structure AdminPage (γ : Type) where
  items : List γ
  hasMore : Bool
  nextCursor : Option String

/-- What the lists return of a row. -/
inductive AdminItem where
  | deviceSession (id deviceLabel createdAt lastSeenAt expiresAt : String)
      (revokedAt : Option String) (current : Bool)
  | member (principalId : String) (email : Option String) (displayName : String)
      (role : MemberRole) (status : Standing)
  | invitation (id inviteeEmail : String) (role : MemberRole)
      (issuedByPrincipalId createdAt expiresAt : String)
  deriving DecidableEq

def AdminItem.resourceId : AdminItem → String
  | .deviceSession id _ _ _ _ _ _ => id
  | .member principalId _ _ _ _ => principalId
  | .invitation id _ _ _ _ _ => id

namespace AdminDb

variable (db : AdminDb)

/-- The join with the ledger. -/
def numbered {β : Type} (kind : ResourceKind) (id : β → PlainId) (place : β → Nat × String)
    (rows : List β) : List (Placed β) :=
  rows.filterMap fun row => (db.entries.find? fun e => e.kind = kind && e.resourceId = id row).map
    fun e => ⟨(place row).1, (place row).2, e.sequence, row⟩

def sessionsOf (principalId : String) : List (Placed DeviceSessionRow) :=
  db.numbered .deviceSession DeviceSessionRow.id (fun s => (s.createdAt, s.id.text))
    (db.deviceSessions.filter fun s => s.humanPrincipalId.text = principalId)

def membersOf (teamId : String) : List (Placed MemberRow) :=
  db.numbered .membership MemberRow.id (fun m => (m.createdAt, m.principalId.text))
    (db.memberships.filter fun m => m.teamId = teamId)

def invitationsOf (teamId : String) : List (Placed InvitationRow) :=
  db.numbered .invitation InvitationRow.id (fun i => (i.createdAt, i.id.text))
    (db.invitations.filter fun i => i.teamId = teamId)

def deviceSessionItem (sessionId : String) (s : DeviceSessionRow) : AdminItem :=
  .deviceSession s.id.text s.deviceLabel (iso8601 s.createdAt) (iso8601 s.lastSeenAt)
    (iso8601 s.expiresAt) (s.revokedAt.map iso8601) (s.id.text == sessionId)

/-- Owners and administrators see the suspended members and the addresses, too. -/
def isManager (role : MemberRole) : Bool := role == .owner || role == .admin

def membershipVisibility (role : MemberRole) : String :=
  if isManager role then "manageable" else "active"

def memberItem (viewerId : String) (manager : Bool) (m : MemberRow) : Option AdminItem := do
  let p ← db.principals.find? fun p => p.id = m.principalId
  let email := (db.humans.find? fun h => h.principalId = m.principalId).map (·.emailNormalized)
  if (m.status = .active ∨ manager = true ∧ m.status = .suspended) ∧ p.status = .active ∧
      (p.kind = .human ∨ p.kind = .service ∧ p.id.text = viewerId) then
    some (.member m.principalId.text (if manager then email else none) p.displayName m.role
      m.status)
  else none

def invitationItem (now : Nat) (i : InvitationRow) : Option AdminItem :=
  if i.redeemedAt = none ∧ i.revokedAt = none ∧ now < i.expiresAt ∧
      now - invitationMaxTtlSeconds < i.createdAt then
    some (.invitation i.id.text i.inviteeEmailNormalized i.role i.issuedByPrincipalId
      (iso8601 i.createdAt) (iso8601 i.expiresAt))
  else none

/-! ## One page -/

/-- `_require_team_role` with every role. -/
def requireTeamRole (teamId principalId : String) : Except Failure MemberRole := do
  let m ← required (db.memberships.find? fun m => m.teamId = teamId &&
    m.principalId.text = principalId && m.status = .active) notFound
  let p ← required (db.principals.find? fun p => p.id = m.principalId) notFound
  require (p.status = .active) notFound
  pure m.role

variable [CursorSeal] [FloatText]

/-- The cursor behind the last row of a page that others follow. -/
def nextPageCursor (scope : CursorScope) (highwater : Nat) (hasMore : Bool)
    (visible : List (Placed AdminItem)) (nonce : Nonce) : Except Failure (Option String) :=
  match hasMore, visible.getLast? with
  | true, some last => do
      let cursor ← encodeHumanAdminPageCursor scope
        ⟨highwater, last.createdAt, last.resourceId⟩ nonce
      pure (some cursor)
  | _, _ => pure none

/-- What the three lists do with their rows: one more row than the page holds is read. -/
def readPage (scope : CursorScope) (shown : List (Placed AdminItem)) (limit : Nat)
    (cursor : Option String) (nonce : Nonce) : Except Failure (AdminPage AdminItem) := do
  let boundary ← humanAdminPageCursor scope cursor
  let highwater := (boundary.map Boundary.highwater).getD db.newest
  let rows := (Keyset.ordered Placed.place (boundary.map Boundary.place)
    (shown.filter fun r => decide (r.sequence ≤ highwater))).take (limit + 1)
  let visible := rows.take limit
  let hasMore := decide (limit < rows.length)
  let next ← nextPageCursor scope highwater hasMore visible nonce
  pure ⟨visible.map Placed.row, hasMore, next⟩

/-- The arguments of a page, with what the clock, `_require_session` and `secrets` return. -/
structure Turn where
  limit : Int
  now : Nat
  session : Except Failure PrincipalKind
  nonce : Nonce

def pageLimit (limit : Int) : Except Failure Nat := do
  require (1 ≤ limit ∧ limit ≤ maxHumanAdminPageItems) (invalidRequest "Page limit is invalid")
  pure limit.toNat

def forbidden : Failure := .hubError "forbidden" "Operation is not permitted" 403

def listDeviceSessionsPage (claims : AccessClaims) (turn : Turn) (cursor : Option String) :
    Except Failure (AdminPage AdminItem) := do
  let limit ← pageLimit turn.limit
  let kind ← turn.session
  require (kind = .human) forbidden
  let shown := (db.sessionsOf claims.principalId).filterMap
    (Placed.seen fun s => some (deviceSessionItem claims.sessionId s))
  db.readPage ⟨.deviceSession, claims.principalId, claims.principalId, "self"⟩ shown limit cursor
    turn.nonce

def listMembers (claims : AccessClaims) (teamId : String) (turn : Turn) (cursor : Option String) :
    Except Failure (AdminPage AdminItem) := do
  let limit ← pageLimit turn.limit
  let _ ← turn.session
  let role ← db.requireTeamRole teamId claims.principalId
  let shown := (db.membersOf teamId).filterMap
    (Placed.seen (db.memberItem claims.principalId (isManager role)))
  db.readPage ⟨.membership, teamId, claims.principalId, membershipVisibility role⟩ shown limit
    cursor turn.nonce

/-- `_require_team_owner_for_human_administration`. -/
def requireTeamOwner (claims : AccessClaims) (teamId : String) : Except Failure String := do
  let teamId ← required (identity teamId) notFound
  let role ← db.requireTeamRole teamId claims.principalId
  require (role = .owner) forbidden
  pure teamId

def listPendingInvitations (claims : AccessClaims) (teamId : String) (turn : Turn)
    (cursor : Option String) : Except Failure (AdminPage AdminItem) := do
  let limit ← pageLimit turn.limit
  let _ ← turn.session
  let teamId ← db.requireTeamOwner claims teamId
  let shown := (db.invitationsOf teamId).filterMap (Placed.seen (invitationItem turn.now))
  db.readPage ⟨.invitation, teamId, claims.principalId, "pending"⟩ shown limit cursor turn.nonce

end AdminDb

end AgentsServer.TeamHub

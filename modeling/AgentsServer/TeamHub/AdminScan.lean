import AgentsServer.TeamHub.AdminLedger

/-!
# Scanning an administration list

A page has the first of the visible rows behind its cursor that the ledger numbered no later than
the first page. So a reader that follows the cursors passes every row that was there when it began
once, and none that came later.
-/

namespace AgentsServer.TeamHub

open Library Json

/-! ## The three lists -/

inductive AdminList where
  | deviceSessions
  | members (teamId : String)
  | pendingInvitations (teamId : String)

def AdminList.kind : AdminList → ResourceKind
  | .deviceSessions => .deviceSession
  | .members _ => .membership
  | .pendingInvitations _ => .invitation

/-- Whose rows a caller reads. -/
def AdminList.owner (claims : AccessClaims) : AdminList → String
  | .deviceSessions => claims.principalId
  | .members teamId => teamId
  | .pendingInvitations teamId => (identity teamId).getD teamId

/-- A row without its contents. -/
def Placed.bare {β : Type} (r : Placed β) : Placed Unit :=
  ⟨r.createdAt, r.resourceId, r.sequence, ()⟩

namespace AdminDb

variable {db : AdminDb} {kind : ResourceKind} {list : AdminList} {claims : AccessClaims}
  {turn : Turn}

/-- The checks of a list before its cursor is read: what the cursors are bound to, and the rows
that are visible. -/
def permit (db : AdminDb) (claims : AccessClaims) (turn : Turn) :
    AdminList → Except Failure (CursorScope × List (Placed AdminItem))
  | .deviceSessions => do
      let kind ← turn.session
      require (kind = .human) forbidden
      pure (⟨.deviceSession, claims.principalId, claims.principalId, "self"⟩,
        (db.sessionsOf claims.principalId).filterMap
          (Placed.seen fun s => some (deviceSessionItem claims.sessionId s)))
  | .members teamId => do
      let _ ← turn.session
      let role ← db.requireTeamRole teamId claims.principalId
      pure (⟨.membership, teamId, claims.principalId, membershipVisibility role⟩,
        (db.membersOf teamId).filterMap
          (Placed.seen (db.memberItem claims.principalId (isManager role))))
  | .pendingInvitations teamId => do
      let _ ← turn.session
      let teamId ← db.requireTeamOwner claims teamId
      pure (⟨.invitation, teamId, claims.principalId, "pending"⟩,
        (db.invitationsOf teamId).filterMap (Placed.seen (invitationItem turn.now)))

section Pages

variable [CursorSeal] [FloatText]

def listPage (db : AdminDb) (claims : AccessClaims) (turn : Turn) (cursor : Option String) :
    AdminList → Except Failure (AdminPage AdminItem)
  | .deviceSessions => db.listDeviceSessionsPage claims turn cursor
  | .members teamId => db.listMembers claims teamId turn cursor
  | .pendingInvitations teamId => db.listPendingInvitations claims teamId turn cursor

/-- Each list checks its limit and its caller, and then reads a page of what is visible. -/
theorem listPage_eq (db : AdminDb) (list : AdminList) (claims : AccessClaims) (turn : Turn)
    (cursor : Option String) :
    db.listPage claims turn cursor list = (do
      let limit ← pageLimit turn.limit
      let permitted ← db.permit claims turn list
      db.readPage permitted.1 permitted.2 limit cursor turn.nonce) := by
  cases list with
  | deviceSessions =>
      unfold listPage listDeviceSessionsPage permit
      simp only [bind_assoc, pure_bind]
  | members teamId =>
      unfold listPage listMembers permit
      simp only [bind_assoc, pure_bind]
  | pendingInvitations teamId =>
      unfold listPage listPendingInvitations permit
      simp only [bind_assoc, pure_bind]

end Pages

/-- The join of the rows of an owner has the places and numbers of its keys. -/
theorem numbered_bare {β : Type} (key : β → RowKey) (rows : List β) (owner : String) :
    (db.numbered kind (fun r => (key r).id) (fun r => ((key r).createdAt, (key r).name.text))
      (rows.filter fun r => (key r).owner = owner)).map Placed.bare =
        db.placedOf kind owner (rows.map key) := by
  unfold numbered placedOf numberOf
  rw [List.filter_map, List.filterMap_map, List.map_filterMap]
  apply List.filterMap_congr
  intro r _
  simp only [Function.comp_apply, Option.map_map]
  rfl

theorem seen_sublist {β γ : Type} (f : β → Option γ) (rows : List (Placed β)) :
    ((rows.filterMap (Placed.seen f)).map Placed.bare).Sublist (rows.map Placed.bare) := by
  induction rows with
  | nil => exact List.Sublist.refl _
  | cons r rest ih =>
      cases hrow : f r.row with
      | none =>
          rw [List.filterMap_cons_none (by rw [Placed.seen, hrow]; rfl), List.map_cons]
          exact ih.cons _
      | some shown =>
          rw [List.filterMap_cons_some (by rw [Placed.seen, hrow]; rfl), List.map_cons,
            List.map_cons]
          exact ih.cons_cons _

theorem seen_resourceId {β : Type} {id : β → PlainId} {place : β → Nat × String} {rows : List β}
    {f : β → Option AdminItem}
    (hf : ∀ row item, f row = some item → item.resourceId = (place row).2) {r : Placed AdminItem}
    (hr : r ∈ (db.numbered kind id place rows).filterMap (Placed.seen f)) :
    r.row.resourceId = r.resourceId := by
  obtain ⟨joined, hjoined, hr⟩ := List.mem_filterMap.mp hr
  obtain ⟨row, -, hjoined⟩ := List.mem_filterMap.mp hjoined
  obtain ⟨e, -, rfl⟩ := Option.map_eq_some_iff.mp hjoined
  obtain ⟨item, hitem, rfl⟩ := Option.map_eq_some_iff.mp hr
  exact hf row item hitem

/-- What is visible are rows of the owner, under their names. -/
theorem permit_shown {scope : CursorScope} {shown : List (Placed AdminItem)}
    (h : db.permit claims turn list = .ok (scope, shown)) :
    (shown.map Placed.bare).Sublist (db.placed list.kind (list.owner claims)) ∧
      ∀ r ∈ shown, r.row.resourceId = r.resourceId := by
  cases list with
  | deviceSessions =>
      simp only [permit, bind_eq_ok, require_eq_ok, pure_eq_ok, Prod.mk.injEq] at h
      obtain ⟨_, -, _, -, -, rfl⟩ := h
      constructor
      · refine (seen_sublist _ _).trans ?_
        exact Eq.subst (numbered_bare (fun s : DeviceSessionRow =>
          ⟨s.humanPrincipalId.text, s.id, s.createdAt, s.id⟩) _ _) (List.Sublist.refl _)
      · intro r hr
        refine seen_resourceId ?_ hr
        rintro row _ ⟨⟩
        rfl
  | members teamId =>
      simp only [permit, bind_eq_ok, pure_eq_ok, Prod.mk.injEq] at h
      obtain ⟨_, -, role, -, -, rfl⟩ := h
      constructor
      · refine (seen_sublist _ _).trans ?_
        exact Eq.subst (numbered_bare (fun m : MemberRow =>
          ⟨m.teamId, m.id, m.createdAt, m.principalId⟩) _ _) (List.Sublist.refl _)
      · intro r hr
        refine seen_resourceId ?_ hr
        intro row item hitem
        unfold memberItem at hitem
        obtain ⟨p, -, hitem⟩ := Option.bind_eq_some_iff.mp hitem
        dsimp only at hitem
        split at hitem
        · cases hitem
          rfl
        · cases hitem
  | pendingInvitations teamId =>
      simp only [permit, requireTeamOwner, bind_eq_ok, required_eq_ok, require_eq_ok, pure_eq_ok,
        Prod.mk.injEq] at h
      obtain ⟨_, -, _, ⟨team, hteam, role, -, _, -, rfl⟩, -, rfl⟩ := h
      constructor
      · refine (seen_sublist _ _).trans ?_
        rw [AdminList.owner, hteam, Option.getD_some]
        exact Eq.subst (numbered_bare (fun i : InvitationRow =>
          ⟨i.teamId, i.id, i.createdAt, i.id⟩) _ _) (List.Sublist.refl _)
      · intro r hr
        refine seen_resourceId ?_ hr
        intro row item hitem
        unfold invitationItem at hitem
        split at hitem
        · cases hitem
          rfl
        · cases hitem

end AdminDb

/-! ## One page -/

section Pages

variable [CursorSeal] [FloatText] {db : AdminDb} {list : AdminList} {claims : AccessClaims}
  {turn : Turn} {scope : CursorScope} {shown : List (Placed AdminItem)} {cursor : Option String}
  {boundary : Option Boundary}

/-- The rows of a page, with the place where the next page starts. -/
abbrev AdminRead := Keyset.Read (Placed AdminItem) (Nat ×ₗ String)

/-- What a page that was read from the visible rows has, with the number that bounds its scan. -/
structure PageRead (scope : CursorScope) (shown : List (Placed AdminItem)) (highwater : Nat)
    (page : AdminPage AdminItem) (r : AdminRead) : Prop where
  items : page.items = r.items.map Placed.row
  sound : r.Sound Placed.place
  visible : ∀ a ∈ r.items, a ∈ shown ∧ a.sequence ≤ highwater
  complete : ∀ a ∈ shown, a.sequence ≤ highwater → r.Covers a.place → a ∈ r.items
  next : page.nextCursor = none ∧ r.next = none ∨
    ∃ text b, page.nextCursor = some text ∧ r.next = some b.place ∧ b.Stored ∧
      b.highwater = highwater ∧ ∃ nonce, encodeHumanAdminPageCursor scope b nonce = .ok text

omit [CursorSeal] [FloatText] in
theorem nodup_place (h : (shown.map Placed.resourceId).Nodup) : (shown.map Placed.place).Nodup := by
  have hnames : ((shown.map Placed.place).map fun p => (ofLex p).2).Nodup := by
    rw [List.map_map]
    exact h
  exact hnames.of_map

omit [FloatText] in
/-- A page that others follow mints a cursor for its last row. -/
theorem nextPageCursor_cases (scope : CursorScope) {highwater : Nat} (hbound : highwater ≤ maxRowId)
    {visible : List (Placed AdminItem)}
    (hdated : ∀ a ∈ visible, a.createdAt ≤ maxRowId ∧ identity a.resourceId = some a.resourceId)
    (more : Bool) (nonce : Nonce) :
    ∃ next, AdminDb.nextPageCursor scope highwater more visible nonce = .ok next ∧
      (next = none ∧ (if more = true then visible.getLast?.map Placed.place else none) = none ∨
        ∃ text b, next = some text ∧ b.Stored ∧ b.highwater = highwater ∧
          (if more = true then visible.getLast?.map Placed.place else none) = some b.place ∧
          encodeHumanAdminPageCursor scope b nonce = .ok text) := by
  cases more with
  | false => exact ⟨none, rfl, .inl ⟨rfl, rfl⟩⟩
  | true =>
      cases hlast : visible.getLast? with
      | none =>
          refine ⟨none, ?_, .inl ⟨rfl, rfl⟩⟩
          simp only [AdminDb.nextPageCursor, hlast]
          rfl
      | some last =>
          obtain ⟨hcreated, hplain⟩ := hdated last (List.mem_of_getLast? hlast)
          have hstored : Boundary.Stored ⟨highwater, last.createdAt, last.resourceId⟩ :=
            ⟨hbound, hcreated, hplain⟩
          have hencode := encode_stored scope hstored nonce
          refine ⟨some (sealedCursor scope _ nonce), ?_,
            .inr ⟨_, _, rfl, hstored, rfl, rfl, hencode⟩⟩
          simp only [AdminDb.nextPageCursor, hlast, hencode, ok_bind]
          rfl

/-- The rows of a page are the first of the visible rows behind the boundary. -/
theorem readPage_read (sound : db.LedgerSound)
    (hshown : (shown.map Placed.bare).Sublist (db.placed list.kind (list.owner claims)))
    (hdecode : humanAdminPageCursor scope cursor = .ok boundary)
    (hstored : ∀ b ∈ boundary, b.highwater ≤ maxRowId) {limit : Nat} (hlimit : 1 ≤ limit)
    (nonce : Nonce) :
    ∃ page r, db.readPage scope shown limit cursor nonce = .ok page ∧
      r.start = boundary.map Boundary.place ∧
      PageRead scope shown ((boundary.map Boundary.highwater).getD db.newest) page r := by
  generalize hhighwater : (boundary.map Boundary.highwater).getD db.newest = highwater
  have hbound : highwater ≤ maxRowId := by
    rw [← hhighwater]
    cases boundary with
    | none => exact sound.room
    | some b => exact hstored b rfl
  have hunique :
      ((shown.filter fun r => decide (r.sequence ≤ highwater)).map Placed.place).Nodup := by
    have hnames : (shown.map Placed.resourceId).Nodup := by
      have hbare := (sound.names list.kind (list.owner claims)).sublist (hshown.map _)
      rw [List.map_map] at hbare
      exact hbare
    exact (nodup_place hnames).sublist (List.filter_sublist.map _)
  generalize hwithin : (shown.filter fun r => decide (r.sequence ≤ highwater)) = within at hunique
  have hmem : ∀ a, a ∈ within ↔ a ∈ shown ∧ a.sequence ≤ highwater := by
    intro a
    rw [← hwithin, List.mem_filter, decide_eq_true_iff]
  have hdated : ∀ a ∈ shown,
      a.createdAt ≤ maxRowId ∧ identity a.resourceId = some a.resourceId := by
    intro a ha
    obtain ⟨k, hk, -, n, -, hbare⟩ :=
      AdminDb.mem_placed.mp (hshown.subset (List.mem_map_of_mem ha))
    have hcreated : a.createdAt = k.createdAt := congrArg Placed.createdAt hbare
    have hname : a.resourceId = k.name.text := congrArg Placed.resourceId hbare
    rw [hcreated, hname]
    exact ⟨sound.dated _ k hk, k.name.plain⟩
  -- the extra row that is read only tells whether there are more
  generalize hall : Keyset.ordered Placed.place (boundary.map Boundary.place) within = all
  have hvisible : (all.take (limit + 1)).take limit = all.take limit := by
    rw [List.take_take, Nat.min_eq_left (Nat.le_succ limit)]
  have hmore : decide (limit < (all.take (limit + 1)).length) = decide (limit < all.length) := by
    rw [List.length_take]
    exact decide_eq_decide.mpr (by omega)
  have hread : db.readPage scope shown limit cursor nonce =
      (AdminDb.nextPageCursor scope highwater (decide (limit < all.length)) (all.take limit) nonce
        >>= fun next =>
          pure ⟨(all.take limit).map Placed.row, decide (limit < all.length), next⟩) := by
    unfold AdminDb.readPage
    rw [hdecode, ok_bind]
    dsimp only
    rw [hhighwater, hwithin, hall, hvisible, hmore]
  have htaken : ∀ a ∈ all.take limit, a ∈ within := by
    intro a ha
    rw [← hall] at ha
    exact (Keyset.mem_ordered.mp (List.mem_of_mem_take ha)).1
  obtain ⟨next, hcursor, hnext⟩ := nextPageCursor_cases scope hbound
    (fun a ha => hdated a ((hmem a).mp (htaken a ha)).1) (decide (limit < all.length)) nonce
  simp only [decide_eq_true_eq] at hnext
  have hfirst : Keyset.Read.first Placed.place (boundary.map Boundary.place) within limit =
      ⟨boundary.map Boundary.place, all.take limit,
        if limit < all.length then (all.take limit).getLast?.map Placed.place else none⟩ := by
    rw [Keyset.Read.first, hall]
  refine ⟨⟨(all.take limit).map Placed.row, decide (limit < all.length), next⟩,
    Keyset.Read.first Placed.place (boundary.map Boundary.place) within limit, ?_, rfl, ?_⟩
  · rw [hread, hcursor]
    rfl
  · refine ⟨?_, Keyset.Read.sound_first hunique, ?_, ?_, ?_⟩
    · rw [hfirst]
    · rw [hfirst]
      exact fun a ha => (hmem a).mp (htaken a ha)
    · intro a ha hsequence hcovers
      exact Keyset.Read.covers_first hunique hlimit ((hmem a).mpr ⟨ha, hsequence⟩) hcovers
    · rw [hfirst]
      rcases hnext with hnone | ⟨text, b, htext, hb, hhigh, hplace, hencode⟩
      · exact .inl hnone
      · exact .inr ⟨text, b, htext, hplace, hb, hhigh, nonce, hencode⟩

end Pages

/-! ## Scans -/

/-- What the cursors of a list may be bound to. -/
def AdminList.scopes (claims : AccessClaims) : AdminList → List CursorScope
  | .deviceSessions => [⟨.deviceSession, claims.principalId, claims.principalId, "self"⟩]
  | .members teamId => [⟨.membership, teamId, claims.principalId, "manageable"⟩,
      ⟨.membership, teamId, claims.principalId, "active"⟩]
  | .pendingInvitations teamId =>
      [⟨.invitation, (identity teamId).getD teamId, claims.principalId, "pending"⟩]

/-- One read of a page, after some writes. -/
structure Attempt where
  db : AdminDb
  turn : AdminDb.Turn
  cursor : Option String
  result : Except Failure (AdminPage AdminItem)

section Scans

variable [CursorSeal] [FloatText] {db : AdminDb} {list : AdminList} {claims : AccessClaims}

/-- Decryption raises for the associated data of another of these scopes. -/
def Raises (minted presented : List CursorScope) : Prop :=
  ∀ scope ∈ minted, ∀ scope' ∈ presented, scope.bytes ≠ scope'.bytes → ∀ nonce plaintext,
    CursorSeal.decrypt nonce (CursorSeal.encrypt nonce plaintext scope.bytes) scope'.bytes = none

/-- A reader follows the next cursors while others write. Before each page there are some writes. -/
def scan (list : AdminList) (claims : AccessClaims) (db : AdminDb) :
    List (List AdminWrite × AdminDb.Turn) → Option String → List Attempt
  | [], _ => []
  | (writes, turn) :: rest, cursor =>
      let db := db.afterWrites writes
      let result := db.listPage claims turn cursor list
      ⟨db, turn, cursor, result⟩ :: match result with
        | .ok page => match page.nextCursor with
          | some next => scan list claims db rest (some next)
          | none => []
        | .error _ => []

namespace Attempt

/-- The resources that a page returned. -/
def returned (a : Attempt) : List String :=
  match a.result with
  | .ok page => page.items.map AdminItem.resourceId
  | .error _ => []

/-- The place that a cursor carries, for the list at the time of a page. -/
def boundary (list : AdminList) (claims : AccessClaims) (a : Attempt) (cursor : Option String) :
    Option (Nat ×ₗ String) :=
  match a.db.permit claims a.turn list with
  | .ok (scope, _) => match humanAdminPageCursor scope cursor with
    | .ok b => b.map Boundary.place
    | .error _ => none
  | .error _ => none

/-- The page whose turn it was to return a row: its place is between the cursor of the page and
its next cursor. -/
def Passes (list : AdminList) (claims : AccessClaims) (a : Attempt) (k : Nat ×ₗ String) : Prop :=
  ∃ page, a.result = .ok page ∧ Keyset.Behind (a.boundary list claims a.cursor) k ∧
    ∀ p ∈ (page.nextCursor.bind fun text => a.boundary list claims (some text)), p ≤ k

/-- A resource is visible when a page is read. -/
def Shows (list : AdminList) (claims : AccessClaims) (a : Attempt) (resourceId : String) : Prop :=
  ∃ scope shown, a.db.permit claims a.turn list = .ok (scope, shown) ∧
    ∃ r ∈ shown, r.resourceId = resourceId

/-- The caller may read a page, under this scope. -/
def Permitted (list : AdminList) (claims : AccessClaims) (scope : CursorScope) (a : Attempt) :
    Prop :=
  (∃ limit, AdminDb.pageLimit a.turn.limit = .ok limit) ∧
    ∃ shown, a.db.permit claims a.turn list = .ok (scope, shown)

/-- There is nothing to follow after a page. -/
def Last (a : Attempt) : Prop := ∃ page, a.result = .ok page ∧ page.nextCursor = none

end Attempt

omit [CursorSeal] [FloatText] in
theorem permit_scope {turn : AdminDb.Turn} {scope : CursorScope} {shown : List (Placed AdminItem)}
    (h : db.permit claims turn list = .ok (scope, shown)) : scope ∈ list.scopes claims := by
  cases list with
  | deviceSessions =>
      simp only [AdminDb.permit, bind_eq_ok, require_eq_ok, pure_eq_ok, Prod.mk.injEq] at h
      obtain ⟨_, -, _, -, rfl, -⟩ := h
      exact List.mem_singleton_self _
  | members teamId =>
      simp only [AdminDb.permit, bind_eq_ok, pure_eq_ok, Prod.mk.injEq] at h
      obtain ⟨_, -, role, -, rfl, -⟩ := h
      cases role <;> simp [AdminList.scopes, AdminDb.membershipVisibility, AdminDb.isManager]
  | pendingInvitations teamId =>
      simp only [AdminDb.permit, AdminDb.requireTeamOwner, bind_eq_ok, required_eq_ok,
        require_eq_ok, pure_eq_ok, Prod.mk.injEq] at h
      obtain ⟨_, -, _, ⟨team, hteam, role, -, _, -, rfl⟩, rfl, -⟩ := h
      rw [AdminList.scopes, hteam, Option.getD_some]
      exact List.mem_singleton_self _

/-- What one page of a scan owes to the first page of it. -/
structure PageOf (list : AdminList) (claims : AccessClaims) (first : AdminDb) (scope : CursorScope)
    (a : Attempt) (r : AdminRead) : Prop where
  later : AdminDb.Extends list.kind (list.owner claims) first a.db
  read : ∃ page shown, a.result = .ok page ∧ a.db.permit claims a.turn list = .ok (scope, shown) ∧
    PageRead scope shown first.newest page r
  start : a.boundary list claims a.cursor = r.start

/-- A scan and the pages that were read, from the scope under which the cursor was minted on. -/
inductive ReadsAs (list : AdminList) (claims : AccessClaims) (first : AdminDb) :
    Option CursorScope → List Attempt → List AdminRead → Prop
  | stop (minted : Option CursorScope) : ReadsAs list claims first minted [] []
  | refused (minted : Option CursorScope) (a : Attempt)
      (result : ∃ e, a.result = .error e)
      (why : ∀ scope, a.Permitted list claims scope → ∃ old, minted = some old ∧ old ≠ scope) :
      ReadsAs list claims first minted [a] []
  | page (minted : Option CursorScope) (scope : CursorScope) {a : Attempt} {r : AdminRead}
      {rest : List Attempt} {reads : List AdminRead} (one : PageOf list claims first scope a r)
      (follow : ReadsAs list claims first (some scope) rest reads)
      (last : r.next = none → rest = []) :
      ReadsAs list claims first minted (a :: rest) (r :: reads)

section Steps

variable {first : AdminDb} {turn : AdminDb.Turn} {cursor : Option String}
  {minted : Option CursorScope} {start : Option (Nat ×ₗ String)}

/-- A cursor opens the scan at a place, unless it was minted under another scope. -/
def Opens (list : AdminList) (claims : AccessClaims) (first db : AdminDb) (turn : AdminDb.Turn)
    (minted : Option CursorScope) (cursor : Option String) (start : Option (Nat ×ₗ String)) :
    Prop :=
  ∀ scope shown, db.permit claims turn list = .ok (scope, shown) →
    (∃ boundary, humanAdminPageCursor scope cursor = .ok boundary ∧
      (boundary.map Boundary.highwater).getD db.newest = first.newest ∧
      boundary.map Boundary.place = start) ∨
    (∃ e, humanAdminPageCursor scope cursor = .error e) ∧ ∃ old, minted = some old ∧ old ≠ scope

/-- A page is refused, or it is the next page of the scan. -/
theorem page_cases (later : AdminDb.Extends list.kind (list.owner claims) first db)
    (hroom : first.newest ≤ maxRowId)
    (hopens : Opens list claims first db turn minted cursor start) {a : Attempt}
    (ha : a = ⟨db, turn, cursor, db.listPage claims turn cursor list⟩) :
    ((∃ e, a.result = .error e) ∧
        ∀ scope, a.Permitted list claims scope → ∃ old, minted = some old ∧ old ≠ scope) ∨
      ∃ scope r, PageOf list claims first scope a r ∧ r.start = start := by
  have hresult : a.result = db.listPage claims turn cursor list := by rw [ha]
  have hdb : a.db = db := by rw [ha]
  have hturn : a.turn = turn := by rw [ha]
  have hcursor : a.cursor = cursor := by rw [ha]
  rw [AdminDb.listPage_eq] at hresult
  cases hlimit : AdminDb.pageLimit turn.limit with
  | error e =>
      rw [hlimit] at hresult
      refine .inl ⟨⟨e, hresult⟩, ?_⟩
      rintro scope ⟨⟨limit, hok⟩, -⟩
      rw [hturn, hlimit] at hok
      cases hok
  | ok limit =>
      rw [hlimit, ok_bind] at hresult
      cases hpermit : db.permit claims turn list with
      | error e =>
          rw [hpermit] at hresult
          refine .inl ⟨⟨e, hresult⟩, ?_⟩
          rintro scope ⟨-, shown, hok⟩
          rw [hdb, hturn, hpermit] at hok
          cases hok
      | ok permitted =>
          obtain ⟨scope, shown⟩ := permitted
          rw [hpermit, ok_bind] at hresult
          rcases hopens scope shown hpermit with
            ⟨boundary, hdecode, hhighwater, hstart⟩ | ⟨⟨e, hdecode⟩, hother⟩
          · right
            have hpositive : 1 ≤ limit := by
              simp only [AdminDb.pageLimit, bind_eq_ok, require_eq_ok, pure_eq_ok] at hlimit
              obtain ⟨_, ⟨hone, -⟩, rfl⟩ := hlimit
              omega
            have hstored : ∀ b ∈ boundary, b.highwater ≤ maxRowId := by
              rintro b hb
              rw [hb, Option.map_some, Option.getD_some] at hhighwater
              rw [hhighwater]
              exact hroom
            obtain ⟨page, r, hpage, hfrom, hread⟩ := readPage_read later.sound
              (AdminDb.permit_shown hpermit).1 hdecode hstored hpositive turn.nonce
            rw [hhighwater] at hread
            refine ⟨scope, r, ⟨?_, ⟨page, shown, hresult.trans hpage, ?_, hread⟩, ?_⟩,
              hfrom.trans hstart⟩
            · rw [hdb]
              exact later
            · rw [hdb, hturn]
              exact hpermit
            · unfold Attempt.boundary
              rw [hdb, hturn, hcursor, hpermit]
              dsimp only
              rw [hdecode, hfrom]
          · refine .inl ⟨⟨e, ?_⟩, ?_⟩
            · rw [hresult]
              unfold AdminDb.readPage
              rw [hdecode]
              rfl
            · rintro scope' ⟨-, shown', hok⟩
              rw [hdb, hturn, hpermit] at hok
              cases hok
              exact hother

/-- After a page that was read, its next cursor opens the scan at its end. -/
theorem opens_minted (raises : Raises (list.scopes claims) (list.scopes claims))
    {scope : CursorScope} (hscope : scope ∈ list.scopes claims) {b : Boundary} (hb : b.Stored)
    (hhighwater : b.highwater = first.newest) {nonce : Nonce} {text : String}
    (hencode : encodeHumanAdminPageCursor scope b nonce = .ok text) (db : AdminDb)
    (turn : AdminDb.Turn) :
    Opens list claims first db turn (some scope) (some text) (some b.place) := by
  intro scope' shown hpermit
  by_cases hsame : scope = scope'
  · subst hsame
    exact .inl ⟨some b, humanAdminPageCursor_encode hb hencode, hhighwater, rfl⟩
  · refine .inr ⟨⟨invalidCursor, ?_⟩, scope, rfl, hsame⟩
    exact humanAdminPageCursor_other scope' hb hencode hsame fun hbytes plaintext =>
      raises scope hscope scope' (permit_scope hpermit) hbytes nonce.bytes plaintext

omit [CursorSeal] [FloatText] in
theorem follows_cons {r : AdminRead} {reads : List AdminRead} (hsound : r.Sound Placed.place)
    (hnone : r.next = none → reads = [])
    (hsome : ∀ p, r.next = some p → Keyset.Follows Placed.place (some p) reads) :
    Keyset.Follows Placed.place r.start (r :: reads) := by
  refine ⟨rfl, hsound, ?_⟩
  cases hnext : r.next with
  | none => exact hnone hnext
  | some p => exact hsome p hnext

/-- The pages of a scan follow one another. -/
theorem scan_reads (raises : Raises (list.scopes claims) (list.scopes claims))
    (hroom : first.newest ≤ maxRowId)
    (schedule : List (List AdminWrite × AdminDb.Turn)) (db : AdminDb)
    (later : ∀ head rest, schedule = head :: rest →
      AdminDb.Extends list.kind (list.owner claims) first (db.afterWrites head.1))
    (hopens : ∀ head rest, schedule = head :: rest →
      Opens list claims first (db.afterWrites head.1) head.2 minted cursor start) :
    ∃ reads, Keyset.Follows Placed.place start reads ∧
      ReadsAs list claims first minted (scan list claims db schedule cursor) reads := by
  induction schedule generalizing db minted cursor start with
  | nil => exact ⟨[], trivial, .stop minted⟩
  | cons head rest ih =>
      obtain ⟨writes, turn⟩ := head
      have hlater := later _ _ rfl
      have hopen := hopens _ _ rfl
      rw [scan]
      rcases page_cases hlater hroom hopen rfl with ⟨⟨e, hresult⟩, hwhy⟩ | ⟨scope, r, hone, hstart⟩
      · dsimp only at hresult ⊢
        rw [hresult]
        refine ⟨[], trivial, .refused minted _ ⟨e, rfl⟩ ?_⟩
        simpa only [hresult] using hwhy
      · obtain ⟨page, shown, hresult, hpermit, hread⟩ := hone.read
        dsimp only at hresult hpermit ⊢
        subst hstart
        rw [hresult] at hone ⊢
        rcases hread.next with
          ⟨hcursor, hnext⟩ | ⟨text, b, hcursor, hnext, hb, hhigh, nonce, hencode⟩
        · dsimp only
          rw [hcursor]
          refine ⟨[r], follows_cons hread.sound (fun _ => rfl) ?_, .page minted scope hone (.stop _)
            fun _ => rfl⟩
          intro p hp
          rw [hnext] at hp
          cases hp
        · dsimp only
          rw [hcursor]
          obtain ⟨reads, hfollows, hreads⟩ : ∃ reads,
              Keyset.Follows Placed.place (some b.place) reads ∧ ReadsAs list claims first
                (some scope) (scan list claims (db.afterWrites writes) rest (some text)) reads :=
            ih (db.afterWrites writes) (fun head rest _ => hlater.afterWrites head.1)
              (fun head rest _ => opens_minted raises (permit_scope hpermit) hb hhigh hencode _ _)
          refine ⟨r :: reads, follows_cons hread.sound ?_ ?_, .page minted scope hone hreads ?_⟩
          · intro hnone
            rw [hnext] at hnone
            cases hnone
          · intro p hp
            rw [hnext] at hp
            cases hp
            exact hfollows
          · intro hnone
            rw [hnext] at hnone
            cases hnone

end Steps

/-! ### What the pages of a scan have -/

section Pages

variable {first : AdminDb} {scope : CursorScope} {a : Attempt} {r : AdminRead}
  {attempts : List Attempt} {reads : List AdminRead} {minted : Option CursorScope}

theorem PageOf.returned (h : PageOf list claims first scope a r) :
    a.returned = r.items.map Placed.resourceId := by
  obtain ⟨page, shown, hresult, hpermit, hread⟩ := h.read
  unfold Attempt.returned
  rw [hresult]
  dsimp only
  rw [hread.items, List.map_map]
  apply List.map_congr_left
  intro row hrow
  exact (AdminDb.permit_shown hpermit).2 row (hread.visible row hrow).1

/-- A visible row whose number is not above that of the first page was there at the first page. -/
theorem PageOf.existed (h : PageOf list claims first scope a r) {row : Placed AdminItem}
    (hrow : row ∈ r.items) : row.bare ∈ first.placed list.kind (list.owner claims) := by
  obtain ⟨page, shown, -, hpermit, hread⟩ := h.read
  obtain ⟨hvisible, hsequence⟩ := hread.visible row hrow
  have hplaced := (AdminDb.permit_shown hpermit).1.subset (List.mem_map_of_mem hvisible)
  obtain ⟨new, hnew, hhigher⟩ := h.later.rows
  rw [hnew, List.mem_append] at hplaced
  rcases hplaced with hold | hlate
  · exact hold
  · exact absurd (hhigher _ hlate) (Nat.not_lt.mpr hsequence)

theorem PageOf.next (h : PageOf list claims first scope a r) {page : AdminPage AdminItem}
    (hresult : a.result = .ok page) :
    (page.nextCursor.bind fun text => a.boundary list claims (some text)) = r.next := by
  obtain ⟨other, shown, hother, hpermit, hread⟩ := h.read
  rw [hresult] at hother
  cases hother
  rcases hread.next with ⟨hcursor, hnext⟩ | ⟨text, b, hcursor, hnext, hb, -, nonce, hencode⟩
  · rw [hcursor, hnext]
    rfl
  · rw [hcursor, hnext, Option.bind_some]
    unfold Attempt.boundary
    rw [hpermit]
    dsimp only
    rw [humanAdminPageCursor_encode hb hencode]
    rfl

theorem PageOf.passes_iff (h : PageOf list claims first scope a r) {k : Nat ×ₗ String} :
    a.Passes list claims k ↔ r.Covers k := by
  obtain ⟨page, shown, hresult, -, -⟩ := h.read
  constructor
  · rintro ⟨other, hother, hbehind, hend⟩
    rw [h.start] at hbehind
    rw [h.next hother] at hend
    exact ⟨hbehind, hend⟩
  · rintro ⟨hbehind, hend⟩
    refine ⟨page, hresult, ?_, ?_⟩
    · rw [h.start]
      exact hbehind
    · rw [h.next hresult]
      exact hend

/-- A page returns what it passes, if it was there at the first page and is still visible. -/
theorem PageOf.shows (h : PageOf list claims first scope a r) {entry : Placed Unit}
    (hentry : entry ∈ first.placed list.kind (list.owner claims))
    (hroom : ∀ e ∈ first.placed list.kind (list.owner claims), e.sequence ≤ first.newest)
    (hpasses : a.Passes list claims entry.place) (hshows : a.Shows list claims entry.resourceId) :
    entry.resourceId ∈ a.returned := by
  obtain ⟨page, shown, hresult, hpermit, hread⟩ := h.read
  obtain ⟨scope', shown', hpermit', row, hrow, hname⟩ := hshows
  rw [hpermit] at hpermit'
  cases hpermit'
  -- the row that is visible under this name is the entry
  have hsame : row.bare = entry := by
    obtain ⟨new, hnew, -⟩ := h.later.rows
    apply Tables.eq_of_key (h.later.sound.names list.kind (list.owner claims))
    · exact (AdminDb.permit_shown hpermit).1.subset (List.mem_map_of_mem hrow)
    · rw [hnew]
      exact List.mem_append_left _ hentry
    · exact hname
  have hsequence : row.sequence ≤ first.newest := by
    have hle := hroom entry hentry
    rw [← hsame] at hle
    exact hle
  have hplace : row.place = entry.place := by rw [← hsame]; rfl
  rw [h.returned, ← hname]
  apply List.mem_map_of_mem
  apply hread.complete row hrow hsequence
  rw [hplace]
  exact h.passes_iff.mp hpasses

/-- Every attempt of a scan that returned a page is one of its pages. -/
theorem ReadsAs.page_of (h : ReadsAs list claims first minted attempts reads) (ha : a ∈ attempts)
    {page : AdminPage AdminItem} (hok : a.result = .ok page) :
    ∃ scope, ∃ r ∈ reads, PageOf list claims first scope a r := by
  induction h with
  | stop minted => cases ha
  | refused minted b result why =>
      obtain ⟨e, he⟩ := result
      rw [List.mem_singleton.mp ha, he] at hok
      cases hok
  | page minted scope one follow last ih =>
      rcases List.mem_cons.mp ha with rfl | hrest
      · exact ⟨scope, _, List.mem_cons_self, one⟩
      · obtain ⟨scope', r', hr', hpage⟩ := ih hrest
        exact ⟨scope', r', List.mem_cons_of_mem _ hr', hpage⟩

theorem ReadsAs.attempt_of (h : ReadsAs list claims first minted attempts reads) (hr : r ∈ reads) :
    ∃ a ∈ attempts, ∃ scope, PageOf list claims first scope a r := by
  induction h with
  | stop minted => cases hr
  | refused minted b result why => cases hr
  | page minted scope one follow last ih =>
      rcases List.mem_cons.mp hr with rfl | hrest
      · exact ⟨_, List.mem_cons_self, scope, one⟩
      · obtain ⟨a, ha, scope', hpage⟩ := ih hrest
        exact ⟨a, List.mem_cons_of_mem _ ha, scope', hpage⟩

theorem ReadsAs.returned (h : ReadsAs list claims first minted attempts reads) :
    attempts.flatMap Attempt.returned =
      (reads.flatMap Keyset.Read.items).map Placed.resourceId := by
  induction h with
  | stop minted => rfl
  | refused minted b result why =>
      obtain ⟨e, he⟩ := result
      rw [List.flatMap_singleton, Attempt.returned, he]
      rfl
  | page minted scope one follow last ih =>
      rw [List.flatMap_cons, List.flatMap_cons, List.map_append, one.returned, ih]

theorem ReadsAs.length (h : ReadsAs list claims first minted attempts reads)
    (hok : ∀ a ∈ attempts, ∀ e, a.result ≠ .error e) : reads.length = attempts.length := by
  induction h with
  | stop minted => rfl
  | refused minted b result why =>
      obtain ⟨e, he⟩ := result
      exact absurd he (hok b (List.mem_singleton_self _) e)
  | page minted scope one follow last ih =>
      rw [List.forall_mem_cons] at hok
      rw [List.length_cons, List.length_cons, ih hok.2]

/-- A caller who stays permitted under one scope is not refused. -/
theorem ReadsAs.permitted (h : ReadsAs list claims first minted attempts reads)
    (hminted : ∀ old, minted = some old → old = scope)
    (hpermitted : ∀ a ∈ attempts, a.Permitted list claims scope) :
    ∀ a ∈ attempts, ∃ page, a.result = .ok page := by
  induction h with
  | stop minted =>
      intro a ha
      cases ha
  | refused minted b result why =>
      obtain ⟨old, hold, hne⟩ := why scope (hpermitted b (List.mem_singleton_self _))
      exact absurd (hminted old hold) hne
  | page minted scope' one follow last ih =>
      rw [List.forall_mem_cons] at hpermitted
      obtain ⟨page, shown, hresult, hpermit, -⟩ := one.read
      rw [List.forall_mem_cons]
      refine ⟨⟨page, hresult⟩, ih ?_ hpermitted.2⟩
      rintro old ⟨⟩
      obtain ⟨-, shown', hpermit'⟩ := hpermitted.1
      rw [hpermit] at hpermit'
      cases hpermit'
      rfl

end Pages

/-! ### Every scan -/

/-- The rows of a list that there are, visible or not. -/
def AdminDb.existing (db : AdminDb) (list : AdminList) (claims : AccessClaims) :
    List (Placed Unit) :=
  db.placed list.kind (list.owner claims)

omit [CursorSeal] in
theorem boundaryOf_stored {plaintext : Bytes} {b : Boundary} (h : boundaryOf plaintext = .ok b) :
    b.highwater ≤ maxRowId := by
  simp only [boundaryOf, bind_eq_ok, required_eq_ok, require_eq_ok, pure_eq_ok] at h
  obtain ⟨_, -, _, -, _, -, _, -, n, hn, _, -, _, -, _, -, rfl⟩ := h
  simp only [storedInteger, Option.bind_eq_bind, Option.bind_eq_some_iff] at hn
  obtain ⟨value, -, hn⟩ := hn
  split at hn
  · next hrange =>
      cases hn
      exact Int.toNat_le.mpr hrange.2
  · cases hn

theorem humanAdminPageCursor_stored {scope : CursorScope} {cursor : Option String}
    {boundary : Option Boundary} (h : humanAdminPageCursor scope cursor = .ok boundary) :
    ∀ b ∈ boundary, b.highwater ≤ maxRowId := by
  cases cursor with
  | none =>
      cases h
      rintro b ⟨⟩
  | some text =>
      simp only [humanAdminPageCursor, bind_eq_ok, required_eq_ok, require_eq_ok, pure_eq_ok] at h
      obtain ⟨_, -, _, -, _, -, plaintext, -, b, hb, rfl⟩ := h
      rintro _ ⟨⟩
      exact boundaryOf_stored hb

/-- A cursor that a page minted is refused by a list that is bound to another scope. -/
theorem minted_refused {minting : AdminList} {minter : AccessClaims}
    (raises : Raises (minting.scopes minter) (list.scopes claims)) {db' : AdminDb}
    (sound : db'.LedgerSound) {turn turn' : AdminDb.Turn} {cursor : Option String}
    {page : AdminPage AdminItem} {text : String} {scope scope' : CursorScope}
    {shown shown' : List (Placed AdminItem)}
    (hminted : db'.listPage minter turn' cursor minting = .ok page)
    (htext : page.nextCursor = some text)
    (hminter : db'.permit minter turn' minting = .ok (scope', shown'))
    (hpermit : db.permit claims turn list = .ok (scope, shown)) (hother : scope' ≠ scope)
    (hlimit : ∃ limit, AdminDb.pageLimit turn.limit = .ok limit) :
    db.listPage claims turn (some text) list = .error invalidCursor := by
  rw [AdminDb.listPage_eq, hminter] at hminted
  obtain ⟨limit', hlimit', hminted⟩ := (bind_eq_ok _ _ _).mp hminted
  rw [ok_bind] at hminted
  dsimp only at hminted
  have hpositive : 1 ≤ limit' := by
    simp only [AdminDb.pageLimit, bind_eq_ok, require_eq_ok, pure_eq_ok] at hlimit'
    obtain ⟨_, ⟨hone, -⟩, rfl⟩ := hlimit'
    omega
  have hdecoded : ∃ boundary, humanAdminPageCursor scope' cursor = .ok boundary := by
    unfold AdminDb.readPage at hminted
    obtain ⟨boundary, hdecode, -⟩ := (bind_eq_ok _ _ _).mp hminted
    exact ⟨boundary, hdecode⟩
  obtain ⟨boundary, hdecode⟩ := hdecoded
  obtain ⟨page', r, hpage, -, hread⟩ := readPage_read sound (AdminDb.permit_shown hminter).1 hdecode
    (humanAdminPageCursor_stored hdecode) hpositive turn'.nonce
  rw [hpage] at hminted
  cases hminted
  rcases hread.next with ⟨hcursor, -⟩ | ⟨text', b, hcursor, -, hb, -, nonce, hencode⟩
  · rw [hcursor] at htext
    cases htext
  · rw [hcursor] at htext
    cases htext
    obtain ⟨limit, hlimit⟩ := hlimit
    have hrefused := humanAdminPageCursor_other scope hb hencode hother
      fun hbytes plaintext => raises scope' (permit_scope hminter) scope (permit_scope hpermit)
        hbytes nonce.bytes plaintext
    rw [AdminDb.listPage_eq, hlimit, ok_bind, hpermit, ok_bind]
    unfold AdminDb.readPage
    rw [hrefused]
    rfl

theorem scan_length (schedule : List (List AdminWrite × AdminDb.Turn)) (db : AdminDb)
    (cursor : Option String)
    (hmore : ∀ a ∈ scan list claims db schedule cursor, ¬ a.Last ∧ ∀ e, a.result ≠ .error e) :
    (scan list claims db schedule cursor).length = schedule.length := by
  induction schedule generalizing db cursor with
  | nil => rfl
  | cons head rest ih =>
      obtain ⟨writes, turn⟩ := head
      rw [scan] at hmore ⊢
      rw [List.forall_mem_cons] at hmore
      cases hresult : (db.afterWrites writes).listPage claims turn cursor list with
      | error e => exact absurd hresult (hmore.1.2 e)
      | ok page =>
          simp only [hresult] at hmore ⊢
          cases hnext : page.nextCursor with
          | none => exact absurd ⟨page, rfl, hnext⟩ hmore.1.1
          | some text =>
              simp only [hnext] at hmore ⊢
              rw [List.length_cons, List.length_cons, ih _ _ hmore.2]

end Scans

/-! ### Two members on two pages -/

section TwoMembers

/-- Sixteen bytes that depend on all of the associated data. -/
def tagOf (associated : Bytes) : Bytes :=
  (List.range 16).map fun i =>
    UInt8.ofNat (associated.foldl (fun h b => (257 * h + b.toNat) % 2 ^ 128) 0 / 256 ^ i)

/-- The text followed by the tag. -/
@[reducible] def tagged : CursorSeal where
  encrypt _ plaintext associated := plaintext ++ tagOf associated
  decrypt _ ciphertext associated :=
    if ciphertext.drop (ciphertext.length - 16) = tagOf associated
    then some (ciphertext.take (ciphertext.length - 16)) else none
  decrypt_encrypt := by
    intro _ plaintext associated
    have hlength : (plaintext ++ tagOf associated).length - 16 = plaintext.length := by
      simp [tagOf]
    rw [hlength, List.drop_left, List.take_left, if_pos rfl]
  length_encrypt := by
    intro _ plaintext associated
    simp [tagOf]

@[reducible] def integersOnly : FloatText := ⟨fun _ => none⟩

attribute [local instance] tagged integersOnly

theorem tagged_raises {scope scope' : CursorScope} (h : tagOf scope.bytes ≠ tagOf scope'.bytes)
    (nonce plaintext : Bytes) :
    CursorSeal.decrypt nonce (CursorSeal.encrypt nonce plaintext scope.bytes) scope'.bytes =
      none := by
  have hlength : (plaintext ++ tagOf scope.bytes).length - 16 = plaintext.length := by
    simp [tagOf]
  refine if_neg ?_
  intro htags
  change (plaintext ++ tagOf scope.bytes).drop
    ((plaintext ++ tagOf scope.bytes).length - 16) = tagOf scope'.bytes at htags
  rw [hlength, List.drop_left] at htags
  exact h htags

def viewerRowId : PlainId := ⟨"human_owner", by decide⟩

def otherRowId : PlainId := ⟨"human_guest", by decide⟩

def viewerClaims : AccessClaims := ⟨"human_owner", "device_one", "jti", 1000⟩

/-- An owner and a guest who joined in the same second. -/
def joining : List AdminWrite :=
  [.insertPrincipal ⟨viewerRowId, .human, "Owner", .active⟩,
   .insertPrincipal ⟨otherRowId, .human, "Guest", .active⟩,
   .insertMembership ⟨⟨"membership_1", by decide⟩, "team-one", viewerRowId, .owner, .active, 5⟩,
   .insertMembership ⟨⟨"membership_2", by decide⟩, "team-one", otherRowId, .guest, .active, 5⟩]

def pageOfOne : AdminDb.Turn := ⟨1, 10, .ok .human, ⟨List.replicate 12 0, rfl⟩⟩

end TwoMembers

end AgentsServer.TeamHub

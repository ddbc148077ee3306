import AgentsServer.TeamHub.Attention
import AgentsServer.TeamHub.ListingPages

/-!
# Reading a list to its end

A reader asks for page after page, each behind the last row of the one before, while
other clients go on writing. A reader of an Inbox that follows the coverage of its
pages marks nothing as seen that it was not given.
-/

namespace AgentsServer.TeamHub

open Library
open Notifications (MailArrival Mailbox)

variable [Sha256] [UnicodeTables] [Conversions] [FilterTexts]

/-! ## Pages of one list -/

/-- What happens around the read of one page. -/
structure Reading where
  /-- the calls that commit between the page before and this one -/
  calls : List Call
  caller : Caller
  directory : Directory
  index : SearchIndex
  afterArrivalId : Option String

/-- The tables when a page is read. -/
def hubAt (h : Hub) (readings : Nat → Reading) : Nat → Hub
  | 0 => Runs.run step h (readings 0).calls
  | i + 1 => Runs.run step (hubAt h readings i) (readings (i + 1)).calls

/-- The read of one page behind a cursor. -/
def readPage (h : Hub) (readings : Nat → Reading) (teamId : String) (request : ListRequest)
    (i after : Nat) : Except Failure MessagePage :=
  listTeamMessages (hubAt h readings i) (readings i).caller (readings i).directory
    (readings i).index teamId
    { request with afterSequence := after, afterArrivalId := (readings i).afterArrivalId }

omit [Sha256] [UnicodeTables] [Conversions] in
theorem query_limit {request : ListRequest} {caller : Caller} {teamId : String} {query : Query}
    (hq : request.query caller teamId = .ok query) : 1 ≤ query.limit := by
  unfold ListRequest.query at hq
  simp only [bind_eq_ok, require_eq_ok, pure_eq_ok] at hq
  obtain ⟨_, _, _, hlimit, _, _, _, _, _, _, _, _, _, _, _, _, _, _, _, _, rfl⟩ := hq
  change 1 ≤ request.limit.toNat
  omega

/-- A checked request behind another cursor. -/
def Query.behind (query : Query) (after : Nat) (afterArrivalId : Option String) : Query :=
  { query with
    after, request := { query.request with afterSequence := after, afterArrivalId } }

omit [Sha256] [UnicodeTables] [Conversions] in
/-- The checks of a request do not depend on its cursor. -/
theorem query_behind {request : ListRequest} {caller : Caller} {teamId : String} {query : Query}
    (hq : request.query caller teamId = .ok query) (after : Nat) (id : Option String) :
    ({ request with afterSequence := after, afterArrivalId := id } : ListRequest).query caller
      teamId = .ok (query.behind after id) := by
  unfold ListRequest.query at hq ⊢
  simp only [bind_eq_ok, require_eq_ok, pure_eq_ok] at hq ⊢
  obtain ⟨u₁, hbox, u₂, hlimit, _, _, u₄, hkind, u₅, hpair, since, hsince, search, hsearch, role,
    hrole, owned, howned, source, hsource, rfl⟩ := hq
  exact ⟨u₁, hbox, u₂, hlimit, (), Int.natCast_nonneg after, u₄, hkind, u₅, hpair, since, hsince,
    search, hsearch, role, hrole, owned, howned, source, hsource, rfl⟩

omit [FilterTexts] in
theorem hubAt_queue (calls : List Call) (readings : Nat → Reading) (i : Nat) :
    (hubAt (Runs.run step Hub.empty calls) readings i).QueueSound := by
  have keep : ∀ (h : Hub) (more : List Call), h.QueueSound → (Runs.run step h more).QueueSound :=
    fun h more hs => Runs.run_invariant step (I := Hub.QueueSound)
      (fun _ call hs => (step_queue hs call).1) h hs more
  induction i with
  | zero => exact keep _ _ (run_queue calls)
  | succ i ih => exact keep _ _ ih

/-- While what a list selects behind its first cursor stays the same, reading to the
end gives it completely, or a page is refused. -/
theorem readAll_list (calls : List Call) (readings : Nat → Reading) {teamId : String}
    {request : ListRequest} {query : Query} {rows : List MessageRow}
    (checked : ∀ i, request.query (readings i).caller teamId = .ok query)
    (unchanged : ∀ i, Paging.beyond MessageRow.ordinal
      (query.matching (hubAt (Runs.run step Hub.empty calls) readings i) (readings i).index)
      query.after = rows) (binds : query.binds = true) :
    ∃ result, Paging.readAll MessagePage.next MessagePage.hasMore
        (readPage (Runs.run step Hub.empty calls) readings teamId request) (rows.length + 1) 0
        query.after = some result ∧
      (∀ pages, result = .ok pages → pages.flatMap MessagePage.rows = rows ∧
        rows.Pairwise fun a b => a.ordinal < b.ordinal) ∧
      ∀ e, result = .error e → e = pageTooLarge ∨
        (query.search.isSome = true ∧ (e = searchUnavailable ∨ e = searchTooBroad)) ∨
        (query.request.includeMailboxCoverage = true ∧ e = cursorUnavailable) := by
  have hordered : rows.Pairwise fun a b => a.ordinal < b.ordinal := by
    rw [← unchanged 0]
    exact (Query.matching_ordered (hubAt_queue calls readings 0)).sublist List.filter_sublist
  have hself : Paging.beyond MessageRow.ordinal rows query.after = rows := by
    rw [← unchanged 0, Paging.beyond_beyond MessageRow.ordinal (Nat.le_refl _)]
  have hpages : ∀ i after page, query.after ≤ after →
      readPage (Runs.run step Hub.empty calls) readings teamId request i after = .ok page →
      Paging.IsPage MessageRow.ordinal rows after page.rows page.next page.hasMore := by
    intro i after page hafter hread
    unfold readPage listTeamMessages at hread
    rw [query_behind (checked i), ok_bind] at hread
    have hlimit : 1 ≤ (query.behind after (readings i).afterArrivalId).limit := by
      change 1 ≤ query.limit
      exact query_limit (checked i)
    obtain ⟨_, _, hpage⟩ := Query.page_shows hlimit hread
    apply hpage.rows.of_beyond
    rw [← unchanged i]
    exact Paging.beyond_beyond MessageRow.ordinal hafter
  have henough : (Paging.beyond MessageRow.ordinal rows query.after).length < rows.length + 1 := by
    rw [hself]
    exact Nat.lt_succ_self _
  obtain ⟨result, hresult, hok, herror⟩ :=
    Paging.readAll_complete hordered hpages 0 (Nat.le_refl _) henough
  refine ⟨result, hresult, ?_, ?_⟩
  · intro pages hall
    refine ⟨?_, hordered⟩
    rw [hok pages hall, hself]
  · intro e he
    obtain ⟨j, cursor, hcursor, hrefused⟩ := herror e he
    have hbound : cursor ≤ maxRowId := by
      rcases hcursor with rfl | ⟨m, hm, rfl⟩
      · unfold Query.binds at binds
        simp only [Bool.and_eq_true, decide_eq_true_eq] at binds
        exact binds.1
      · have hs := hubAt_queue calls readings 0
        rw [← unchanged 0] at hm
        have hmem := (Query.mem_matching.mp ((Paging.mem_beyond _).mp hm).1).1
        exact Nat.le_trans (hs.bounded m hmem) hs.sequence
    have hbinds : (query.behind cursor (readings j).afterArrivalId).binds = true := by
      unfold Query.binds at binds ⊢
      rw [Bool.and_eq_true] at binds ⊢
      exact ⟨decide_eq_true hbound, binds.2⟩
    unfold readPage listTeamMessages at hrefused
    rw [query_behind (checked j), ok_bind] at hrefused
    rcases Query.page_error (hubAt_queue calls readings j) hrefused with
      hsearch | ⟨hnot, _⟩ | hcoverage | hlarge
    · exact Or.inr (Or.inl hsearch)
    · rw [hbinds] at hnot
      cases hnot
    · exact Or.inr (Or.inr hcoverage)
    · exact Or.inl hlarge

/-! ## A reader that follows the coverage -/

/-- A reader of one mailbox: the cursor up to which it counts the mailbox as seen,
and the messages it was given. -/
structure Follower where
  hub : Hub
  throughSequence : Nat
  arrivalId : Option String
  delivered : List MessageRow

inductive FollowerAction where
  | call (call : Call)
  | read (caller : Caller) (directory : Directory) (index : SearchIndex) (request : ListRequest)

/-- The reader takes over a page, and the coverage of a page of its own mailbox. -/
def Follower.take (box : Mailbox) (s : Follower) (page : MessagePage) : Follower :=
  let s := { s with delivered := s.delivered ++ page.rows }
  match page.coverage with
  | some c =>
      if c.mailbox = box then
        { s with throughSequence := c.throughSequence, arrivalId := c.arrivalId }
      else s
  | none => s

/-- Any client writes, or the reader asks for the page behind its cursor. -/
def Follower.step (box : Mailbox) (s : Follower) : FollowerAction → Follower × Unit
  | .call call => ({ s with hub := (TeamHub.step s.hub call).1 }, ())
  | .read caller directory index request =>
      match listTeamMessages s.hub caller directory index box.teamId
        { request with afterSequence := s.throughSequence, afterArrivalId := s.arrivalId } with
      | .ok page => (s.take box page, ())
      | .error _ => (s, ())

def Follower.start : Follower where
  hub := Hub.empty
  throughSequence := 0
  arrivalId := none
  delivered := []

/-- Nothing in the mailbox up to the cursor was missed. -/
structure Follower.Sound (box : Mailbox) (s : Follower) : Prop where
  queue : s.hub.QueueSound
  reached : s.throughSequence ≤ s.hub.messageSequence
  given : ∀ m, Query.InMailbox s.hub box m → m.ordinal ≤ s.throughSequence → m ∈ s.delivered

omit [Sha256] [UnicodeTables] [Conversions] [FilterTexts] in
/-- What is live in a later state was live before, or is new. -/
theorem Query.InMailbox.before {h t : Hub} {box : Mailbox} {m : MessageRow} (hg : h.Grows t)
    (hm : Query.InMailbox t box m) : Query.InMailbox h box m ∨ h.messageSequence < m.ordinal := by
  rcases hg.messages m hm.message with hmem | hnew
  · left
    refine ⟨hmem, hm.team, ?_, ?_⟩
    · have hkept := hm.kept
      obtain ⟨more, hmore⟩ := hg.deletions
      unfold Hub.isDeleted at hkept ⊢
      rw [← hmore, List.any_append, Bool.or_eq_false_iff] at hkept
      exact hkept.1
    · obtain ⟨r, hr, hteam, hmessage, hserver, hlive⟩ := hm.copy
      rcases hg.copies r hr with ⟨a, ha, stays⟩ | hother
      · exact ⟨a, ha, stays.team.symm.trans hteam, stays.message.symm.trans hmessage,
          stays.recipient.symm.trans hserver, stays.dismissed hlive⟩
      · exact absurd hmessage.symm (hother m hmem)
  · exact Or.inr hnew

omit [UnicodeTables] [Conversions] in
/-- Coverage of one response: nothing live up to it is missing from the page. -/
theorem listTeamMessages_covers {h : Hub} (hs : h.QueueSound) {caller : Caller}
    {directory : Directory} {index : SearchIndex} {teamId : String} {request : ListRequest}
    {page : MessagePage} {c : MailArrival}
    (hp : listTeamMessages h caller directory index teamId request = .ok page)
    (hc : page.coverage = some c) :
    c.mailbox.teamId = teamId ∧ c.throughSequence ≤ h.messageSequence ∧
      ∀ m, Query.InMailbox h c.mailbox m → request.afterSequence < m.ordinal →
        m.ordinal ≤ c.throughSequence → m ∈ page.rows := by
  unfold listTeamMessages at hp
  obtain ⟨query, hquery, hpage⟩ := (bind_eq_ok _ _ _).mp hp
  obtain ⟨head, hhead, shows⟩ := Query.page_shows (query_limit hquery) hpage
  obtain ⟨_, hteam, hreached, hall⟩ := shows.covers hs hhead hc
  have hfields : query.teamId = teamId ∧ query.after = request.afterSequence.toNat ∧
      0 ≤ request.afterSequence := by
    unfold ListRequest.query at hquery
    simp only [bind_eq_ok, require_eq_ok, pure_eq_ok] at hquery
    obtain ⟨_, _, _, _, _, hpos, _, _, _, _, _, _, _, _, _, _, _, _, _, _, rfl⟩ := hquery
    exact ⟨rfl, rfl, hpos⟩
  refine ⟨hteam.trans hfields.1, hreached, ?_⟩
  intro m hm hafter hthrough
  apply hall m hm
  · rw [hfields.2.1]
    omega
  · exact hthrough

theorem Follower.step_sound {box : Mailbox} {s : Follower} (hs : s.Sound box)
    (action : FollowerAction) : (s.step box action).1.Sound box := by
  cases action with
  | call call =>
      obtain ⟨hqueue, hgrows⟩ := step_queue hs.queue call
      refine ⟨hqueue, Nat.le_trans hs.reached hgrows.sequence, ?_⟩
      intro m hm hthrough
      rcases hm.before hgrows with hold | hnew
      · exact hs.given m hold hthrough
      · have hreached := hs.reached
        change m.ordinal ≤ s.throughSequence at hthrough
        omega
  | read caller directory index request =>
      unfold Follower.step
      dsimp only
      split
      · next page hpage =>
          have hkeep : ∀ m, Query.InMailbox s.hub box m → m.ordinal ≤ s.throughSequence →
              m ∈ s.delivered ++ page.rows :=
            fun m hm hthrough => List.mem_append_left _ (hs.given m hm hthrough)
          unfold Follower.take
          dsimp only
          split
          · next c hc =>
              split
              · next hbox =>
                  obtain ⟨_, hreached, hall⟩ := listTeamMessages_covers hs.queue hpage hc
                  refine ⟨hs.queue, hreached, ?_⟩
                  intro m hm hthrough
                  by_cases hseen : m.ordinal ≤ s.throughSequence
                  · exact hkeep m hm hseen
                  · refine List.mem_append_right _ (hall m ?_ ?_ hthrough)
                    · rw [hbox]
                      exact hm
                    · change (s.throughSequence : Int) < m.ordinal
                      omega
              · exact ⟨hs.queue, hs.reached, hkeep⟩
          · exact ⟨hs.queue, hs.reached, hkeep⟩
      · exact hs

theorem Follower.run_sound (box : Mailbox) (actions : List FollowerAction) :
    (Runs.run (Follower.step box) Follower.start actions).Sound box := by
  apply Runs.run_invariant (Follower.step box) (I := Follower.Sound box)
  · intro s action hs
    exact Follower.step_sound hs action
  · refine ⟨empty_queue, Nat.le_refl _, ?_⟩
    intro m hm
    cases hm.message

/-! ## Every list -/

/-- The response of a page lists a message. -/
def MessagePage.Lists (page : MessagePage) (m : MessageRow) : Prop :=
  ∃ fields messages item, page.response = .obj fields ∧ ("messages", .arr messages) ∈ fields ∧
    .obj item ∈ messages ∧ ("id", .str m.id) ∈ item ∧ ("sequence", number m.ordinal) ∈ item

omit [UnicodeTables] [Conversions] in
/-- A page lists its rows, and carries its coverage. -/
theorem listTeamMessages_response {h : Hub} {caller : Caller} {directory : Directory}
    {index : SearchIndex} {teamId : String} {request : ListRequest} {page : MessagePage}
    (hp : listTeamMessages h caller directory index teamId request = .ok page) :
    (∀ m ∈ page.rows, page.Lists m) ∧ ∃ fields, page.response = .obj fields ∧
      ("next_after_sequence", number page.next) ∈ fields ∧
      ("has_more", Json.bool page.hasMore) ∈ fields ∧
      (∀ c, page.coverage = some c → ("mailbox_coverage", arrivalJson c) ∈ fields) ∧
      (page.coverage = none → ∀ value, ("mailbox_coverage", value) ∉ fields) := by
  unfold listTeamMessages at hp
  obtain ⟨query, hquery, hpage⟩ := (bind_eq_ok _ _ _).mp hp
  obtain ⟨head, _, shows⟩ := Query.page_shows (query_limit hquery) hpage
  constructor
  · intro m hm
    refine ⟨_, page.rows.map (query.listed h directory), _, shows.response, ?_,
      List.mem_map_of_mem hm, ?_, ?_⟩
    · simp
    · simp
    · simp
  · refine ⟨_, shows.response, ?_, ?_, ?_, ?_⟩
    · simp
    · simp
    · intro c hc
      rw [hc]
      simp
    · intro hnone value
      rw [hnone]
      simp

/-- Reading to the end, coverage and its followers in every run. -/
theorem inbox_paging_and_coverage :
    (∀ (calls : List Call) (readings : Nat → Reading) teamId request query rows,
      (∀ i, request.query (readings i).caller teamId = .ok query) →
      (∀ i, Paging.beyond MessageRow.ordinal
        (query.matching (hubAt (Runs.run step Hub.empty calls) readings i) (readings i).index)
        query.after = rows) → query.binds = true →
      ∃ result, Paging.readAll MessagePage.next MessagePage.hasMore
          (readPage (Runs.run step Hub.empty calls) readings teamId request) (rows.length + 1) 0
          query.after = some result ∧
        (∀ pages, result = .ok pages → pages.flatMap MessagePage.rows = rows ∧
          rows.Pairwise fun a b => a.ordinal < b.ordinal) ∧
        ∀ e, result = .error e → e = pageTooLarge ∨
          (query.search.isSome = true ∧ (e = searchUnavailable ∨ e = searchTooBroad)) ∨
          (query.request.includeMailboxCoverage = true ∧ e = cursorUnavailable)) ∧
    (∀ (calls : List Call) caller directory index teamId request page,
      listTeamMessages (Runs.run step Hub.empty calls) caller directory index teamId request =
        .ok page →
      (∀ m ∈ page.rows, page.Lists m) ∧
      ∀ c, page.coverage = some c → c.mailbox.teamId = teamId ∧
        ∀ m, Query.InMailbox (Runs.run step Hub.empty calls) c.mailbox m →
          request.afterSequence < m.ordinal → m.ordinal ≤ c.throughSequence → m ∈ page.rows) ∧
    ∀ (box : Mailbox) (actions : List FollowerAction),
      let s := Runs.run (Follower.step box) Follower.start actions
      ∀ m, Query.InMailbox s.hub box m → m.ordinal ≤ s.throughSequence → m ∈ s.delivered := by
  refine ⟨?_, ?_, ?_⟩
  · intro calls readings teamId request query rows checked unchanged binds
    exact readAll_list calls readings checked unchanged binds
  · intro calls caller directory index teamId request page hp
    refine ⟨(listTeamMessages_response hp).1, ?_⟩
    intro c hc
    obtain ⟨hteam, _, hall⟩ := listTeamMessages_covers (run_queue calls) hp hc
    exact ⟨hteam, hall⟩
  · intro box actions
    exact (Follower.run_sound box actions).given

/-! ## A search that takes too long -/

section Interrupted

/-- Every text is one word. -/
@[reducible] def oneWord : FilterTexts where
  isdigit _ := false
  int _ := none
  fromisoformat _ := none
  searchWords text := [text]

/-- The server `n` searches its Inbox for `x`. -/
def searchInbox : ListRequest where
  box := "inbox"
  addressKind := none
  addressId := none
  unread := false
  fromKind := none
  fromId := none
  since := .null
  afterSequence := 0
  limit := 50
  includeRevision := false
  includeMailSubject := false
  includeMailboxState := false
  includeMailboxCoverage := false
  afterArrivalId := none
  q := some "x"

/-- Every search runs into its time limit. -/
def slowReading : Reading where
  calls := []
  caller := serverContext.caller
  directory := serverContext.directory
  index := ⟨true, true, fun _ => [], fun _ _ => [], fun _ => []⟩
  afterArrivalId := none

omit [Sha256] [UnicodeTables] [Conversions] [FilterTexts] in
/-- A search that was interrupted fails with an error of its own. -/
theorem not_only_pageTooLarge :
    ¬ ∀ (_ : Sha256) (_ : UnicodeTables) (_ : Conversions) (_ : FilterTexts)
      (calls : List Call) (readings : Nat → Reading) teamId request query rows,
      (∀ i, request.query (readings i).caller teamId = .ok query) →
      (∀ i, Paging.beyond MessageRow.ordinal
        (query.matching (hubAt (Runs.run step Hub.empty calls) readings i) (readings i).index)
        query.after = rows) →
      ∃ result, Paging.readAll MessagePage.next MessagePage.hasMore
          (readPage (Runs.run step Hub.empty calls) readings teamId request) (rows.length + 1) 0
          query.after = some result ∧
        (∀ pages, result = .ok pages → pages.flatMap MessagePage.rows = rows) ∧
        ∀ e, result = .error e → e = pageTooLarge := by
  intro claim
  let _ := zeroDigest
  let _ := sameCase
  let _ := noConversions
  let _ := oneWord
  have hhub : ∀ i, hubAt (Runs.run step Hub.empty []) (fun _ => slowReading) i = Hub.empty := by
    intro i
    induction i with
    | zero => rfl
    | succ i ih => exact ih
  obtain ⟨result, hresult, _, herror⟩ := claim zeroDigest sameCase noConversions oneWord []
    (fun _ => slowReading) "t" searchInbox _ [] (fun _ => rfl) (fun i => by rw [hhub]; rfl)
  have hread : Paging.readAll MessagePage.next MessagePage.hasMore
      (readPage (Runs.run step Hub.empty []) (fun _ => slowReading) "t" searchInbox) 1 0 0 =
      some (.error searchTooBroad) := rfl
  cases hresult.symm.trans hread
  have hsame := herror searchTooBroad rfl
  revert hsame
  decide

end Interrupted

end AgentsServer.TeamHub

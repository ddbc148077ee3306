import AgentsServer.TeamHub.Attention
import AgentsServer.TeamHub.Threads
import Mathlib.Order.Lattice

/-!
# Walking a thread

Every page of a thread holds readable mail. A walk over the pages of a thread that is not
truncated reads all that its root reaches, each message once, unless a message of it alone is too
large for a response.
-/

namespace AgentsServer.TeamHub

open Library

variable {h : Hub} {caller : Caller} {teamId : String} {owned : List Address}

/-! ## Rows in the order of the queue -/

abbrev Ordered (rows : List MessageRow) : Prop :=
  rows.Pairwise fun a b => a.ordinal < b.ordinal

theorem Ordered.nodup {rows : List MessageRow} (ho : Ordered rows) : rows.Nodup := by
  apply ho.imp
  intro a b hlt heq
  rw [heq] at hlt
  exact Nat.lt_irrefl _ hlt

/-- Two lists in the order of the queue with the same rows are equal. -/
theorem Ordered.ext {rows rows' : List MessageRow} (ho : Ordered rows) (ho' : Ordered rows')
    (same : ∀ m, m ∈ rows ↔ m ∈ rows') : rows = rows' := by
  have hperm : rows.Perm rows' :=
    (List.perm_ext_iff_of_nodup ho.nodup ho'.nodup).mpr same
  apply hperm.eq_of_pairwise _ ho ho'
  intro a b _ _ hab hba
  omega

namespace Hub

/-- Two messages of the table with one row id are the same. -/
theorem Numbered.eq_of_ordinal (hn : h.Numbered) {a b : MessageRow} (ha : a ∈ h.messages)
    (hb : b ∈ h.messages) (heq : a.ordinal = b.ordinal) : a = b := by
  have hkeys : (h.messages.map MessageRow.ordinal).Nodup :=
    List.pairwise_map.mpr (hn.ordered.imp fun hlt => Nat.ne_of_lt hlt)
  exact Tables.eq_of_key hkeys ha hb heq

/-- Distinct rows of the table, sorted. -/
theorem Numbered.sorted (hn : h.Numbered) {rows : List MessageRow}
    (stored : ∀ m ∈ rows, m ∈ h.messages) (once : rows.Nodup) :
    Ordered (rows.insertionSort fun a b => a.ordinal ≤ b.ordinal) := by
  have hsorted := List.pairwise_insertionSort (fun a b : MessageRow => a.ordinal ≤ b.ordinal) rows
  have hnodup : (rows.insertionSort fun a b => a.ordinal ≤ b.ordinal).Nodup :=
    (List.perm_insertionSort _ rows).nodup_iff.mpr once
  refine (hsorted.and hnodup).imp_of_mem ?_
  intro a b ha hb hab
  rw [List.mem_insertionSort] at ha hb
  apply Nat.lt_of_le_of_ne hab.1
  intro heq
  exact hab.2 (hn.eq_of_ordinal (stored a ha) (stored b hb) heq)

/-- The rows that are read back for a list of ids. -/
theorem Numbered.messagesIn_ids (hn : h.Numbered) {rows : List MessageRow} (ho : Ordered rows)
    (stored : ∀ m ∈ rows, m ∈ h.messages ∧ m.teamId = teamId) :
    h.messagesIn teamId (rows.map MessageRow.id) = rows := by
  have hnodup : h.messages.Nodup := Ordered.nodup hn.ordered
  refine (hn.sorted (fun m hm => List.mem_of_mem_filter hm) (hnodup.filter _)).ext ho ?_
  intro m
  rw [List.mem_insertionSort, List.mem_filter, decide_eq_true_eq]
  constructor
  · intro hm
    obtain ⟨hstored, -, hid⟩ := hm
    obtain ⟨row, hrow, heq⟩ := List.mem_map.mp hid
    rwa [← Tables.eq_of_key hn.ids (stored row hrow).1 hstored heq]
  · intro hm
    exact ⟨(stored m hm).1, (stored m hm).2, List.mem_map_of_mem hm⟩

end Hub

/-! ## Pages of a conversation -/

section Pages

variable [Sha256] {directory : Directory} {anchor : MessageRow} {messageId : String}

/-- The conversation in the order of the queue. -/
def Hub.Thread.rows (thread : Hub.Thread) : List MessageRow :=
  thread.graph.insertionSort fun a b => a.ordinal ≤ b.ordinal

/-- A page of the conversation behind a cursor. -/
structure ThreadPage.Shows (thread : Hub.Thread) (after : Nat) (page : ThreadPage) : Prop where
  rows : Paging.IsPage MessageRow.ordinal thread.rows after page.rows page.next page.hasMore
  root : page.rootId = thread.root.id
  truncated : page.truncated = thread.truncated

omit [Sha256] in
theorem thread_rows_ordered (hn : h.Numbered)
    (hanchor : h.readable caller teamId owned messageId = some anchor) :
    Ordered (h.thread caller teamId owned anchor).rows := by
  obtain ⟨honce, hsound, -, -⟩ := Hub.thread_spec hanchor
  exact hn.sorted (fun m hm => (hsound m hm).1) honce.of_map

omit [Sha256] in
/-- The page of the rows up to the limit. -/
theorem threadPage_shows (hn : h.Numbered)
    (hanchor : h.readable caller teamId owned messageId = some anchor) {after limit : Nat}
    (hlimit : 1 ≤ limit) :
    (h.threadPage teamId messageId (h.thread caller teamId owned anchor) after limit).Shows
      (h.thread caller teamId owned anchor) after := by
  obtain ⟨honce, hsound, -, -⟩ := Hub.thread_spec hanchor
  set thread := h.thread caller teamId owned anchor with hthread
  have hordered := thread_rows_ordered hn hanchor
  rw [← hthread] at hordered
  have hbehind : (Paging.beyond MessageRow.ordinal thread.graph after).insertionSort
      (fun a b => a.ordinal ≤ b.ordinal) = Paging.beyond MessageRow.ordinal thread.rows after := by
    refine (hn.sorted ?_ (honce.of_map.filter _)).ext (hordered.sublist List.filter_sublist) ?_
    · intro m hm
      exact (hsound m (List.mem_of_mem_filter hm)).1
    · intro m
      unfold Hub.Thread.rows
      rw [List.mem_insertionSort, Paging.mem_beyond, List.mem_insertionSort, List.mem_filter,
        decide_eq_true_eq]
  have hrows : h.messagesIn teamId
      (((Paging.beyond MessageRow.ordinal thread.rows after).take limit).map MessageRow.id) =
      (Paging.beyond MessageRow.ordinal thread.rows after).take limit := by
    apply hn.messagesIn_ids
    · exact (hordered.sublist List.filter_sublist).sublist (List.take_sublist _ _)
    · intro m hm
      have hmem := ((Paging.mem_beyond _).mp (List.mem_of_mem_take hm)).1
      unfold Hub.Thread.rows at hmem
      rw [List.mem_insertionSort] at hmem
      exact ⟨(hsound m hmem).1, (hsound m hmem).2.1⟩
  refine ⟨?_, rfl, rfl⟩
  unfold Hub.threadPage
  rw [hbehind]
  dsimp only
  rw [hrows]
  refine ⟨⟨(Paging.beyond MessageRow.ordinal thread.rows after).drop limit, ?_, ?_⟩, ?_, rfl⟩
  · exact (List.take_append_drop _ _).symm
  · intro hfalse
    have hle := of_decide_eq_false hfalse
    rw [List.length_take] at hle
    exact List.drop_eq_nil_of_le (by omega)
  · intro htrue hnil
    have hlt := of_decide_eq_true htrue
    rw [hnil, List.length_nil] at hlt
    have hlength := congrArg List.length hnil
    rw [List.length_take, List.length_nil] at hlength
    omega

/-- Removing messages from the end leaves a page. -/
theorem ThreadPage.Shows.shorten {thread : Hub.Thread} {after n : Nat} {page : ThreadPage}
    (shows : page.Shows thread after) : (page.shorten h directory owned n).Shows thread after := by
  induction n generalizing page with
  | zero => exact shows
  | succ n ih =>
      unfold ThreadPage.shorten
      split
      · next hlong =>
          apply ih
          obtain ⟨rest, hrest, _⟩ := shows.rows.covers
          have hne : page.rows ≠ [] := List.ne_nil_of_length_pos (by omega)
          have hshorter : page.rows.dropLast ≠ [] := by
            apply List.ne_nil_of_length_pos
            rw [List.length_dropLast]
            omega
          refine ⟨⟨⟨page.rows.getLast hne :: rest, ?_, ?_⟩, ?_, ?_⟩, shows.root, shows.truncated⟩
          · rw [hrest, ← List.singleton_append, ← List.append_assoc,
              List.dropLast_concat_getLast]
          · intro hfalse
            cases hfalse
          · intro _
            exact hshorter
          · change lastSequence page.rows.dropLast page.next = _
            unfold lastSequence
            rw [List.getLast?_eq_some_getLast hshorter]
            rfl
      · exact shows

/-- A page that is still too large has no second message. -/
theorem ThreadPage.shorten_large {n : Nat} {page : ThreadPage} (hn : page.rows.length ≤ n)
    (large : (page.shorten h directory owned n).tooLarge h directory owned) :
    (page.shorten h directory owned n).rows.length ≤ 1 := by
  induction n generalizing page with
  | zero =>
      change page.rows.length ≤ 1
      omega
  | succ n ih =>
      unfold ThreadPage.shorten at large ⊢
      split
      · next hlong =>
          rw [if_pos hlong] at large
          apply ih _ large
          change page.rows.dropLast.length ≤ n
          rw [List.length_dropLast]
          omega
      · next hshort =>
          rw [if_neg hshort] at large
          by_contra hmany
          exact hshort ⟨by omega, large⟩

/-! ## One call -/

/-- The page that a call returns if it is not too large. -/
def Hub.shownPage (h : Hub) (directory : Directory) (caller : Caller) (teamId messageId : String)
    (owned : List Address) (anchor : MessageRow) (after limit : Nat) : ThreadPage :=
  let first := h.threadPage teamId messageId (h.thread caller teamId owned anchor) after limit
  first.shorten h directory owned first.rows.length

/-- A caller of the team and a message that it reads. -/
structure Hub.Anchored (h : Hub) (caller : Caller) (teamId messageId : String)
    (owned : List Address) (anchor : MessageRow) : Prop where
  addresses : ∃ role, caller.networkScope false = .ok role ∧ caller.ownedAddresses role = .ok owned
  anchor : h.readable caller teamId owned messageId = some anchor

theorem getTeamMessageThread_anchored (ha : h.Anchored caller teamId messageId owned anchor)
    {after limit : Nat} (hlimit : 1 ≤ limit ∧ limit ≤ maxThreadPageItems)
    (hafter : after ≤ maxSignedInteger) :
    getTeamMessageThread h directory caller teamId messageId after limit =
      let page := h.shownPage directory caller teamId messageId owned anchor after limit
      if page.tooLarge h directory owned then .error threadTooLarge else .ok page := by
  obtain ⟨⟨role, hscope, howned⟩, hanchor⟩ := ha
  have hlimits : (1 : Int) ≤ limit ∧ (limit : Int) ≤ maxThreadPageItems := by omega
  have hcursor : (0 : Int) ≤ after ∧ (after : Int) ≤ maxSignedInteger := by omega
  unfold getTeamMessageThread
  rw [require_bind hlimits, require_bind hcursor, hscope, ok_bind, howned, ok_bind, hanchor]
  change (do
    require (¬ (h.shownPage directory caller teamId messageId owned anchor after limit).tooLarge
      h directory owned) threadTooLarge
    return h.shownPage directory caller teamId messageId owned anchor after limit) = _
  dsimp only
  split
  · next hlarge =>
      rw [require, if_neg (not_not_intro hlarge)]
      rfl
  · next hsmall =>
      rw [require_bind hsmall]
      rfl

/-- A call that returns was made by a caller of the team, about a message that it reads. -/
theorem getTeamMessageThread_eq_ok {afterSequence limit : Int} {page : ThreadPage}
    (hp : getTeamMessageThread h directory caller teamId messageId afterSequence limit = .ok page) :
    ∃ owned anchor, h.Anchored caller teamId messageId owned anchor ∧ 1 ≤ limit.toNat ∧
      page = h.shownPage directory caller teamId messageId owned anchor afterSequence.toNat
        limit.toNat := by
  simp only [getTeamMessageThread, bind_eq_ok, require_eq_ok, required_eq_ok, pure_eq_ok] at hp
  obtain ⟨_, hlimit, _, _, role, hscope, owned, howned, anchor, hanchor, _, _, rfl⟩ := hp
  exact ⟨owned, anchor, ⟨⟨role, hscope, howned⟩, hanchor⟩, by omega, rfl⟩

omit [Sha256] in
theorem Hub.Anchored.unique {owned' : List Address} {anchor' : MessageRow}
    (ha : h.Anchored caller teamId messageId owned anchor)
    (ha' : h.Anchored caller teamId messageId owned' anchor') :
    owned' = owned ∧ anchor' = anchor := by
  obtain ⟨⟨role, hscope, howned⟩, hanchor⟩ := ha
  obtain ⟨⟨role', hscope', howned'⟩, hanchor'⟩ := ha'
  cases hscope.symm.trans hscope'
  cases howned.symm.trans howned'
  cases hanchor.symm.trans hanchor'
  exact ⟨rfl, rfl⟩

theorem shownPage_shows (hn : h.Numbered)
    (hanchor : h.readable caller teamId owned messageId = some anchor) {after limit : Nat}
    (hlimit : 1 ≤ limit) :
    (h.shownPage directory caller teamId messageId owned anchor after limit).Shows
      (h.thread caller teamId owned anchor) after :=
  (threadPage_shows hn hanchor hlimit).shorten

/-- Ordinary mail of the team that the caller sees. -/
structure Hub.Readable (h : Hub) (caller : Caller) (teamId : String) (owned : List Address)
    (m : MessageRow) : Prop where
  stored : m ∈ h.messages
  team : m.teamId = teamId
  ordinary : h.ordinaryMail teamId m = true
  visible : h.visible caller owned m = true

omit [Sha256] in
theorem thread_rows_readable
    (hanchor : h.readable caller teamId owned messageId = some anchor) {m : MessageRow}
    (hm : m ∈ (h.thread caller teamId owned anchor).rows) :
    h.Readable caller teamId owned m := by
  unfold Hub.Thread.rows at hm
  rw [List.mem_insertionSort] at hm
  obtain ⟨hstored, hteam, hreadable⟩ := (Hub.thread_spec hanchor).2.1 m hm
  unfold Hub.readableRow at hreadable
  rw [Bool.and_eq_true] at hreadable
  exact ⟨hstored, hteam, hreadable.1, hreadable.2⟩

/-- Everything on a page is ordinary mail that the caller sees. -/
theorem page_readable (hn : h.Numbered)
    (hanchor : h.readable caller teamId owned messageId = some anchor) {after limit : Nat}
    (hlimit : 1 ≤ limit) {m : MessageRow}
    (hm : m ∈ (h.shownPage directory caller teamId messageId owned anchor after limit).rows) :
    h.Readable caller teamId owned m := by
  have hshows : (h.shownPage directory caller teamId messageId owned anchor after limit).Shows
      (h.thread caller teamId owned anchor) after := shownPage_shows hn hanchor hlimit
  obtain ⟨rest, hrest, _⟩ := hshows.rows.covers
  have hmem : m ∈ Paging.beyond MessageRow.ordinal
      (h.thread caller teamId owned anchor).rows after := by
    rw [hrest]
    exact List.mem_append_left _ hm
  exact thread_rows_readable hanchor ((Paging.mem_beyond _).mp hmem).1

/-! ## Walks -/

/-- The pages of a thread, each with its own limit. -/
def readThread (h : Hub) (directory : Directory) (caller : Caller) (teamId messageId : String)
    (limits : Nat → Nat) (i after : Nat) : Except Failure ThreadPage :=
  getTeamMessageThread h directory caller teamId messageId after (limits i)

/-- What the pages of a whole walk hold, unless they say that the thread is truncated. -/
structure Hub.Walked (h : Hub) (caller : Caller) (teamId : String) (owned : List Address)
    (anchor root : MessageRow) (pages : List ThreadPage) : Prop where
  rootId : ∀ page ∈ pages, page.rootId = root.id
  ordered : Ordered (pages.flatMap ThreadPage.rows)
  whole : ∀ page ∈ pages, page.truncated = false →
    anchor ∈ pages.flatMap ThreadPage.rows ∧
      ∀ m, m ∈ pages.flatMap ThreadPage.rows ↔ h.InThread caller teamId owned root m

/-- A page of the thread is too large although it has at most one message. -/
def Hub.OneTooLarge (h : Hub) (directory : Directory) (caller : Caller)
    (teamId messageId : String) (owned : List Address) (anchor : MessageRow) : Prop :=
  ∃ after limit,
    let page := h.shownPage directory caller teamId messageId owned anchor after limit
    page.rows.length ≤ 1 ∧ page.tooLarge h directory owned

/-- Every page of a thread holds ordinary mail that the caller sees. A walk over the pages of the
thread of such mail comes to an end: it has read all that the root reaches, the message among
them, each once in the order of the queue, unless its pages say that the thread is truncated. It
is only refused a page that is too large with one message. -/
theorem thread_walk (h : Hub) (hn : h.Numbered) (directory : Directory) (caller : Caller)
    (teamId messageId : String) :
    (∀ afterSequence limit page, getTeamMessageThread h directory caller teamId messageId
        afterSequence limit = .ok page →
      ∃ owned anchor, h.Anchored caller teamId messageId owned anchor ∧
        ∀ m ∈ page.rows, h.Readable caller teamId owned m) ∧
    ∀ owned anchor (limits : Nat → Nat), h.Anchored caller teamId messageId owned anchor →
      (∀ i, 1 ≤ limits i ∧ limits i ≤ maxThreadPageItems) →
      ∃ root reads result, Paging.readAll ThreadPage.next ThreadPage.hasMore
          (readThread h directory caller teamId messageId limits) reads 0 0 = some result ∧
        (∀ pages, result = .ok pages → h.Walked caller teamId owned anchor root pages) ∧
        ∀ e, result = .error e → e = threadTooLarge ∧
          h.OneTooLarge directory caller teamId messageId owned anchor := by
  constructor
  · intro afterSequence limit page hp
    obtain ⟨owned, anchor, ha, hlimit, rfl⟩ := getTeamMessageThread_eq_ok hp
    exact ⟨owned, anchor, ha, fun m hm => page_readable hn ha.anchor hlimit hm⟩
  · intro owned anchor limits ha hlimits
    have hordered := thread_rows_ordered hn ha.anchor
    obtain ⟨honce, -, hwhole, hreach⟩ := Hub.thread_spec ha.anchor
    set thread := h.thread caller teamId owned anchor with hthread
    have hpages : ∀ i after page,
        readThread h directory caller teamId messageId limits i after = .ok page →
        page.Shows thread after := by
      intro i after page hp
      obtain ⟨owned', anchor', ha', hlimit, rfl⟩ := getTeamMessageThread_eq_ok hp
      obtain ⟨rfl, rfl⟩ := ha.unique ha'
      exact shownPage_shows hn ha.anchor hlimit
    obtain ⟨result, hresult, hok, herror⟩ := Paging.readAll_complete hordered
      (fun i after page _ hp => (hpages i after page hp).rows) 0 (Nat.le_refl 0)
      (Nat.lt_succ_self _)
    have hall : Paging.beyond MessageRow.ordinal thread.rows 0 = thread.rows := by
      apply List.filter_eq_self.mpr
      intro m hm
      exact decide_eq_true (hn.positive m (thread_rows_readable ha.anchor hm).stored)
    have hmem : ∀ m, m ∈ thread.rows ↔ m ∈ thread.graph := fun m => List.mem_insertionSort _
    rw [hall] at hok
    refine ⟨thread.root, _, result, hresult, ?_, ?_⟩
    · rintro pages rfl
      have hrows := hok pages rfl
      have hshows : ∀ page ∈ pages, ∃ after, page.Shows thread after := by
        intro page hp
        obtain ⟨i, after, hread⟩ := Paging.mem_readAll hresult hp
        exact ⟨after, hpages i after page hread⟩
      constructor
      · intro page hp
        obtain ⟨after, hpage⟩ := hshows page hp
        exact hpage.root
      · rw [hrows]
        exact hordered
      · intro page hp hfull
        obtain ⟨after, hpage⟩ := hshows page hp
        rw [hpage.truncated] at hfull
        have hreaches : ∀ m, m ∈ thread.rows ↔
            h.InThread caller teamId owned thread.root m := by
          intro m
          rw [hmem]
          exact hwhole hfull m
        rw [hrows]
        exact ⟨(hreaches anchor).mpr hreach, hreaches⟩
    · rintro e rfl
      obtain ⟨i, cursor, hcursor, hread⟩ := herror e rfl
      have hbounded : cursor ≤ maxSignedInteger := by
        cases hcursor with
        | inl hzero =>
            rw [hzero]
            exact Nat.zero_le _
        | inr hrow =>
            obtain ⟨m, hm, hlast⟩ := hrow
            rw [hlast]
            exact hn.bounded m (thread_rows_readable ha.anchor hm).stored
      unfold readThread at hread
      rw [getTeamMessageThread_anchored ha (hlimits i) hbounded] at hread
      dsimp only at hread
      split at hread
      · next hlarge =>
          cases hread
          exact ⟨rfl, cursor, limits i, ThreadPage.shorten_large (Nat.le_refl _) hlarge, hlarge⟩
      · cases hread

end Pages

/-! ## A reply with too many recipients -/

section Example

attribute [local instance] zeroDigest

def questionRow : MessageRow where
  ordinal := 1
  id := "a"
  teamId := "t"
  content := .message none
  body := ⟨"x", .plain⟩
  senderPrincipalId := "p"
  senderNodeId := some "n"
  provenance := []
  inReplyTo := none
  toAllServers := false
  idempotencyKey := [1]
  createdAt := 1

def answerRow : MessageRow :=
  { questionRow with ordinal := 2, id := "b", inReplyTo := some "a", idempotencyKey := [2] }

def serverCopy (i : Nat) : RecipientRow where
  id := toString i
  teamId := "t"
  messageId := "b"
  recipient := .server (toString i)
  receipt := .available
  dismissedAt := none
  inboxUnread := none
  mailboxStateVersion := 0

/-- A message and its reply to a number of servers. -/
def crowded (servers : Nat) : Hub :=
  { Hub.empty with
    messages := [questionRow, answerRow]
    messageSequence := 2
    recipients := (List.range servers).map serverCopy }

def serverCaller : Caller :=
  serverContext.caller

variable (servers : Nat)

theorem crowded_readable {m : MessageRow} (hm : m = questionRow ∨ m = answerRow) :
    (crowded servers).readableRow serverCaller "t" [.server "n"] m = true := by
  have hnone : (crowded servers).isBulletin "t" m.id = false := by
    unfold Hub.isBulletin crowded
    rw [List.any_eq_false]
    intro r hr
    obtain ⟨i, -, rfl⟩ := List.mem_map.mp hr
    simp [serverCopy]
  unfold Hub.readableRow Hub.ordinaryMail Hub.visible Hub.wasVisible
  rw [hnone]
  rcases hm with rfl | rfl <;> simp [Hub.isDeleted, crowded, Hub.empty, questionRow, answerRow,
    MessageContent.isMessage]

theorem crowded_anchored :
    (crowded servers).Anchored serverCaller "t" "a" [.server "n"] questionRow where
  addresses := ⟨.automation, rfl, rfl⟩
  anchor := by
    unfold Hub.readable
    have hfound : (crowded servers).message? "t" "a" = some questionRow := rfl
    rw [hfound, Option.filter_some_pos]
    exact crowded_readable servers (.inl rfl)

theorem crowded_thread : (crowded servers).thread serverCaller "t" [.server "n"] questionRow =
    { root := questionRow, graph := [questionRow, answerRow], truncated := false } := by
  have hquestion : (crowded servers).replies "t" questionRow = [answerRow] := rfl
  have hanswer : (crowded servers).replies "t" answerRow = [] := rfl
  have hreadable := crowded_readable servers (.inr rfl)
  have hclimb : (crowded servers).climb serverCaller "t" [.server "n"] (maxThreadAncestors - 1)
      [questionRow.id] questionRow = (questionRow, false) := rfl
  have hfirst : Exploration.observe MessageRow.id
      ((crowded servers).readableRow serverCaller "t" [.server "n"]) maxThreadItems [answerRow]
      { graph := [questionRow], seen := ["a"], observed := 1, truncated := false } =
      { graph := [questionRow, answerRow], seen := ["b", "a"], observed := 2,
        truncated := false } := by
    have hid : answerRow.id = "b" := rfl
    simp [Exploration.observe, maxThreadItems, hreadable, hid]
  have hsecond : Exploration.observe MessageRow.id
      ((crowded servers).readableRow serverCaller "t" [.server "n"]) maxThreadItems []
      { graph := [questionRow, answerRow], seen := ["b", "a"], observed := 2,
        truncated := false } =
      { graph := [questionRow, answerRow], seen := ["b", "a"], observed := 2,
        truncated := false } := rfl
  unfold Hub.thread
  rw [hclimb]
  unfold Exploration.exploreFrom
  dsimp only
  rw [Exploration.explore_next (by decide) hfirst rfl,
    Exploration.explore_next (by decide) hsecond rfl, Exploration.explore_end (by decide)]

theorem crowded_question (directory : Directory) (view : MessageView) :
    messagePublic directory (crowded servers) questionRow view =
      messagePublic directory (crowded 0) questionRow view := by
  have hcopies : ∀ n, (crowded n).recipientsOf "t" "a" = [] := by
    intro n
    unfold Hub.recipientsOf crowded
    dsimp only
    rw [List.filter_eq_nil_iff.mpr]
    · rfl
    · intro r hr
      obtain ⟨i, -, rfl⟩ := List.mem_map.mp hr
      simp [serverCopy]
  have hteam : questionRow.teamId = "t" := rfl
  have hid : questionRow.id = "a" := rfl
  unfold messagePublic
  rw [hteam, hid, hcopies servers, hcopies 0]
  rfl

/-- The page with the question alone. -/
def questionPage : ThreadPage where
  teamId := "t"
  anchorId := "a"
  rootId := "a"
  rows := [questionRow]
  next := 1
  hasMore := true
  truncated := false

/-- It is not too large. -/
theorem crowded_first :
    readThread (crowded servers) serverContext.directory serverCaller "t" "a" (fun _ => 1) 0 0 =
      .ok questionPage := by
  have hpage : (crowded servers).shownPage serverContext.directory serverCaller "t" "a"
      [.server "n"] questionRow 0 1 = questionPage := by
    unfold Hub.shownPage
    rw [crowded_thread]
    rfl
  have hsmall : ¬ questionPage.tooLarge (crowded servers) serverContext.directory
      [.server "n"] := by
    have hsame : questionPage.response (crowded servers) serverContext.directory [.server "n"] =
        questionPage.response (crowded 0) serverContext.directory [.server "n"] := by
      unfold ThreadPage.response questionPage
      simp only [List.map_cons, List.map_nil, crowded_question servers]
    unfold ThreadPage.tooLarge
    rw [hsame, responseBytes_eq]
    decide +kernel
  unfold readThread
  rw [getTeamMessageThread_anchored (crowded_anchored servers) (by decide) (by decide)]
  dsimp only
  rw [hpage, if_neg hsmall]

/-- The page with the reply alone is larger than its recipients are many. -/
theorem crowded_large {page : ThreadPage} (hrows : page.rows = [answerRow]) :
    servers ≤ responseBytes (page.response (crowded servers) serverContext.directory
      [.server "n"]) := by
  have hcopies : (crowded servers).recipients.filter (fun r =>
      r.teamId = "t" ∧ r.messageId = "b") = (crowded servers).recipients := by
    rw [List.filter_eq_self]
    intro r hr
    obtain ⟨i, -, rfl⟩ := List.mem_map.mp hr
    rfl
  have hcount : ((crowded servers).recipientsOf "t" "b").length = servers := by
    unfold Hub.recipientsOf
    rw [hcopies, List.length_insertionSort]
    simp [crowded]
  rw [responseBytes_eq]
  calc servers
      = (((crowded servers).recipientsOf "t" "b").map
          (recipientPublic serverContext.directory)).length := by rw [List.length_map, hcount]
    _ ≤ Json.size Json.escape (.arr (((crowded servers).recipientsOf "t" "b").map
          (recipientPublic serverContext.directory))) := Json.length_le_size_arr _ _
    _ ≤ Json.size Json.escape (messagePublic serverContext.directory (crowded servers) answerRow
          (threadView [.server "n"])) := by
        unfold messagePublic
        refine @Json.size_le_obj Json.escape _ "recipients" _ ?_
        simp [answerRow, questionRow]
    _ ≤ Json.size Json.escape (.arr (page.rows.map fun m => messagePublic serverContext.directory
          (crowded servers) m (threadView [.server "n"]))) := by
        apply Json.size_le_arr
        rw [hrows]
        exact List.mem_singleton_self _
    _ ≤ Json.size Json.escape (page.response (crowded servers) serverContext.directory
          [.server "n"]) := by
        unfold ThreadPage.response
        refine @Json.size_le_obj Json.escape _ "messages" _ ?_
        simp

theorem crowded_second (hlarge : maxThreadResponseBytes < servers) (i : Nat) :
    readThread (crowded servers) serverContext.directory serverCaller "t" "a" (fun _ => 1) i 1 =
      .error threadTooLarge := by
  have hpage : ((crowded servers).shownPage serverContext.directory serverCaller "t" "a"
      [.server "n"] questionRow 1 1).rows = [answerRow] := by
    unfold Hub.shownPage
    rw [crowded_thread]
    rfl
  unfold readThread
  rw [getTeamMessageThread_anchored (crowded_anchored servers) ⟨Nat.le_refl 1, by decide⟩
    (by decide)]
  dsimp only
  rw [if_pos]
  unfold ThreadPage.tooLarge
  have hsize := crowded_large servers hpage
  omega

theorem crowded_numbered : (crowded servers).Numbered where
  ordered := by simp [crowded, questionRow, answerRow]
  positive := by simp [crowded, questionRow, answerRow]
  bounded := by simp [crowded, questionRow, answerRow, maxSignedInteger]
  ids := by simp [crowded, questionRow, answerRow]

/-- The walk over a thread that is not truncated is refused its second page. -/
theorem crowded_walk_refused : ¬ ∀ (_ : Sha256) (h : Hub), h.Numbered →
    ∀ directory caller teamId messageId (limits : Nat → Nat) first,
      (∀ i, 1 ≤ limits i ∧ limits i ≤ maxThreadPageItems) →
      readThread h directory caller teamId messageId limits 0 0 = .ok first →
      first.truncated = false →
      ∃ reads pages, Paging.readAll ThreadPage.next ThreadPage.hasMore
        (readThread h directory caller teamId messageId limits) reads 0 0 = some (.ok pages) := by
  intro claim
  -- A copy takes a byte at least.
  obtain ⟨servers, hservers⟩ : ∃ servers, maxThreadResponseBytes < servers :=
    ⟨1500001, by decide⟩
  obtain ⟨reads, pages, hread⟩ := claim zeroDigest (crowded servers) (crowded_numbered servers)
    serverContext.directory serverCaller "t" "a" (fun _ => 1) questionPage
    (fun _ => ⟨Nat.le_refl 1, by decide⟩) (crowded_first servers) rfl
  match reads with
  | 0 => cases hread
  | 1 =>
      unfold Paging.readAll at hread
      rw [crowded_first] at hread
      cases hread
  | reads + 2 =>
      unfold Paging.readAll at hread
      rw [crowded_first] at hread
      change (Paging.readAll _ _ _ (reads + 1) 1 1).map _ = _ at hread
      unfold Paging.readAll at hread
      rw [crowded_second servers hservers] at hread
      cases hread

/-- The thread of a question without an answer. -/
theorem thread_walk_question : ∃ root reads result,
    Paging.readAll ThreadPage.next ThreadPage.hasMore
      (readThread (crowded 3) serverContext.directory serverCaller "t" "a" (fun _ => 25)) reads 0 0 =
        some result ∧
    (∀ pages, result = .ok pages →
      (crowded 3).Walked serverCaller "t" [.server "n"] questionRow root pages) ∧
    ∀ e, result = .error e → e = threadTooLarge ∧ (crowded 3).OneTooLarge
      serverContext.directory serverCaller "t" "a" [.server "n"] questionRow :=
  (thread_walk (crowded 3) (crowded_numbered 3) serverContext.directory serverCaller "t" "a").2
    [.server "n"] questionRow (fun _ => 25) (crowded_anchored 3) (fun _ => by decide)

end Example

end AgentsServer.TeamHub

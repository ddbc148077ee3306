import AgentsServer.TeamHub.Listing
import AgentsServer.TeamHub.Queue

/-!
# What a page of a list contains

A page holds the first of the rows behind its cursor, in the order of the queue and
each of them once. It says that rows are left exactly when it was cut. Coverage
never goes beyond the page that carries it, or else the page is the last one.
-/

namespace AgentsServer.TeamHub

open Library
open Notifications (MailArrival)

/-! ## Rows -/

/-- A list in which every row is kept once or dropped. -/
theorem flatMap_sublist {α : Type*} {rows : List α} {f : α → List α}
    (once : ∀ a, (f a).Sublist [a]) : (rows.flatMap f).Sublist rows := by
  induction rows with
  | nil => exact List.Sublist.refl _
  | cons a rest ih =>
      rw [List.flatMap_cons, ← List.singleton_append]
      exact (once a).append ih

namespace Query

variable {h : Hub} {index : SearchIndex} {query : Query}

theorem copies_sublist (hs : h.QueueSound) (m : MessageRow) (recipient : Recipient)
    (p : RecipientRow → Bool) (named : ∀ r, p r = true → r.messageId = m.id ∧ r.recipient = recipient) :
    ((h.recipients.filter p).map fun _ => m).Sublist [m] := by
  have hle : (h.recipients.filter p).length ≤ 1 := by
    have hcount := Tables.countP_key_le_one hs.oneCopy (m.id, recipient) p
    rw [← List.countP_eq_length_filter]
    refine Nat.le_trans (Nat.le_of_eq ?_) hcount
    apply List.countP_congr
    intro r _
    constructor
    · intro hp
      obtain ⟨hmessage, hrecipient⟩ := named r hp
      simp [hp, hmessage, hrecipient]
    · intro hp
      simp only [Bool.and_eq_true] at hp
      exact hp.2
  match hrows : h.recipients.filter p with
  | [] => exact List.nil_sublist _
  | [r] => exact List.Sublist.refl _
  | _ :: _ :: _ =>
      rw [hrows] at hle
      simp at hle

/-- A message is in its box once or not at all. -/
theorem joined_sublist (hs : h.QueueSound) (m : MessageRow) :
    (query.joined h m).Sublist [m] := by
  unfold joined
  split
  · next address _ =>
      apply copies_sublist hs m address.recipient
      intro r hr
      simp only [decide_eq_true_eq] at hr
      exact ⟨hr.2.1, hr.2.2.1⟩
  · apply copies_sublist hs m .all
    intro r hr
    simp only [decide_eq_true_eq] at hr
    exact ⟨hr.2.1, hr.2.2⟩
  · split
    · exact List.Sublist.refl _
    · exact List.nil_sublist _

/-- What a list selects is a part of the queue, in its order. -/
theorem matching_sublist (hs : h.QueueSound) : (query.matching h index).Sublist h.messages := by
  have hsub : ((h.messages.filter (query.selects h index)).flatMap (query.joined h)).Sublist
      h.messages := (flatMap_sublist fun m => joined_sublist hs m).trans List.filter_sublist
  have hsorted := hs.ordered.sublist hsub
  unfold matching
  rw [List.Pairwise.insertionSort_eq]
  · exact hsub
  · exact hsorted.imp fun hlt => Nat.le_of_lt hlt

theorem matching_ordered (hs : h.QueueSound) :
    (query.matching h index).Pairwise fun a b => a.ordinal < b.ordinal :=
  hs.ordered.sublist (matching_sublist hs)

theorem mem_matching {m : MessageRow} : m ∈ query.matching h index ↔
    m ∈ h.messages ∧ query.selects h index m = true ∧ m ∈ query.joined h m := by
  unfold matching
  rw [List.mem_insertionSort, List.mem_flatMap]
  constructor
  · rintro ⟨p, hp, hm⟩
    have hpm : m = p := by
      unfold joined at hm
      split at hm
      · obtain ⟨_, _, he⟩ := List.mem_map.mp hm
        exact he.symm
      · obtain ⟨_, _, he⟩ := List.mem_map.mp hm
        exact he.symm
      · split at hm
        · exact List.mem_singleton.mp hm
        · cases hm
    rw [hpm] at hm ⊢
    rw [List.mem_filter] at hp
    exact ⟨hp.1, hp.2, hm⟩
  · rintro ⟨hm, hselects, hjoined⟩
    exact ⟨m, List.mem_filter.mpr ⟨hm, hselects⟩, hjoined⟩

end Query

/-! ## One page -/

namespace Query

variable [Sha256] {h : Hub} {directory : Directory} {index : SearchIndex} {query : Query}
  {head : Option MailArrival} {page : MessagePage}

/-- A page of what a list selects, with the coverage that belongs to it. -/
structure IsPage (h : Hub) (directory : Directory) (index : SearchIndex) (query : Query)
    (head : Option MailArrival) (page : MessagePage) : Prop where
  rows : Paging.IsPage MessageRow.ordinal (query.matching h index) query.after page.rows
    page.next page.hasMore
  coverage : ∀ c, page.coverage = some c →
    ∃ a, head = some a ∧ covered a page.rows page.hasMore = .ok c
  response : page.response =
    query.responseOf h directory page.rows page.next page.hasMore page.coverage

theorem pageOf_eq_ok {rows : List MessageRow} {more : Bool}
    (hp : query.pageOf h directory head rows more = .ok page) :
    page.rows = rows ∧ page.hasMore = more ∧
      page.next = (rows.getLast?.map MessageRow.ordinal).getD query.after ∧
      (∀ c, page.coverage = some c → ∃ a, head = some a ∧ covered a rows more = .ok c) ∧
      page.response = query.responseOf h directory page.rows page.next page.hasMore
        page.coverage := by
  unfold pageOf at hp
  cases head with
  | none =>
      simp only [pure_bind, pure_eq_ok] at hp
      subst hp
      refine ⟨rfl, rfl, rfl, ?_, rfl⟩
      intro c hc
      cases hc
  | some a =>
      simp only [bind_eq_ok, pure_eq_ok] at hp
      obtain ⟨coverage, hcoverage, rfl⟩ := hp
      refine ⟨rfl, rfl, rfl, ?_, rfl⟩
      intro c hc
      change coverage = some c at hc
      rw [hc] at hcoverage
      obtain ⟨c', hcovered, he⟩ := map_eq_ok.mp hcoverage
      cases he
      exact ⟨a, rfl, hcovered⟩

/-- The page of the rows up to the limit. -/
theorem pageOf_shows (limit : 1 ≤ query.limit)
    (hp : query.pageOf h directory head (((query.rows h index).take (query.limit + 1)).take query.limit)
      (decide (query.limit < ((query.rows h index).take (query.limit + 1)).length)) = .ok page) :
    IsPage h directory index query head page := by
  obtain ⟨hrows, hmore, hnext, hcoverage, hresponse⟩ := pageOf_eq_ok hp
  have hvisible : page.rows = (query.rows h index).take query.limit := by
    rw [hrows, List.take_take, Nat.min_eq_left (Nat.le_succ _)]
  rw [← hrows] at hnext hcoverage
  rw [← hmore] at hcoverage
  rw [List.length_take] at hmore
  refine ⟨⟨⟨(query.rows h index).drop query.limit, ?_, ?_⟩, ?_, hnext⟩, hcoverage, hresponse⟩
  · rw [hvisible]
    exact (List.take_append_drop _ _).symm
  · intro hfalse
    rw [hfalse] at hmore
    have hle := of_decide_eq_false hmore.symm
    exact List.drop_eq_nil_of_le (by omega)
  · intro htrue hnil
    rw [htrue] at hmore
    have hlt := of_decide_eq_true hmore.symm
    have hlength := congrArg List.length (hvisible.symm.trans hnil)
    rw [List.length_take, List.length_nil] at hlength
    omega

/-- Removing messages from the end leaves a page. -/
theorem shorten_shows {n : Nat} {first : MessagePage} (shows : IsPage h directory index query head first)
    (hp : query.shorten h directory head n first = .ok page) :
    IsPage h directory index query head page := by
  induction n generalizing first with
  | zero =>
      cases hp
      exact shows
  | succ n ih =>
      unfold shorten at hp
      split at hp
      · next hlong =>
          simp only [bind_eq_ok] at hp
          obtain ⟨shorter, hshorter, hrest⟩ := hp
          refine ih ?_ hrest
          obtain ⟨hrows, hmore, hnext, hcoverage, hresponse⟩ := pageOf_eq_ok hshorter
          rw [← hrows] at hnext hcoverage
          rw [← hmore] at hcoverage
          obtain ⟨rest, hrest, _⟩ := shows.rows.covers
          have hne : first.rows ≠ [] := List.ne_nil_of_length_pos (by omega)
          refine ⟨⟨⟨first.rows.getLast hne :: rest, ?_, ?_⟩, ?_, hnext⟩, hcoverage, hresponse⟩
          · rw [hrest, hrows, ← List.singleton_append, ← List.append_assoc,
              List.dropLast_concat_getLast]
          · intro hfalse
            rw [hmore] at hfalse
            cases hfalse
          · intro _ hnil
            have hlength := congrArg List.length (hrows.symm.trans hnil)
            rw [List.length_dropLast, List.length_nil] at hlength
            omega
      · cases hp
        exact shows

theorem page_shows (limit : 1 ≤ query.limit)
    (hp : query.page h directory index = .ok page) :
    ∃ head, query.coverageHead h = .ok head ∧ IsPage h directory index query head page := by
  unfold Query.page at hp
  simp only [bind_eq_ok, require_eq_ok, pure_eq_ok] at hp
  obtain ⟨_, _, _, _, _, _, head, hhead, first, hfirst, last, hlast, _, _, rfl⟩ := hp
  exact ⟨head, hhead, shorten_shows (pageOf_shows limit hfirst) hlast⟩

end Query

/-! ## Coverage -/

namespace Query

variable {h : Hub} {directory : Directory} {index : SearchIndex} {query : Query}
  {page : MessagePage}

/-- A head is looked up only for a page without filters of a server's Inbox. -/
theorem coverageHead_eq_some {a : MailArrival} (ha : query.coverageHead h = .ok (some a)) :
    ∃ nodeId, query.source = .inbox (.server nodeId) ∧ query.request.includeMailboxCoverage = true ∧
      query.request.unread = false ∧ query.sender = none ∧ query.since = none ∧
      query.search = none ∧ h.mailArrival query.teamId nodeId = .ok a := by
  unfold coverageHead at ha
  split at ha
  · next nodeId hsource =>
      split at ha
      · next hplain =>
          simp only [Bool.and_eq_true, Bool.not_eq_true', Option.isNone_iff_eq_none] at hplain
          obtain ⟨⟨⟨⟨hasked, hunread⟩, hsender⟩, hsince⟩, hsearch⟩ := hplain
          refine ⟨nodeId, hsource, hasked, hunread, hsender, hsince, hsearch, ?_⟩
          split at ha
          · split at ha
            · obtain ⟨b, hb, he⟩ := map_eq_ok.mp ha
              cases he
              exact hb
            · cases ha
          · cases ha
      · cases ha
  · cases ha

/-- A head that cannot be shown was asked for. -/
theorem coverageHead_eq_error {e : Failure} (he : query.coverageHead h = .error e) :
    query.request.includeMailboxCoverage = true ∧ e = cursorUnavailable := by
  unfold coverageHead at he
  split at he
  · split at he
    · next hplain =>
        simp only [Bool.and_eq_true] at hplain
        refine ⟨hplain.1.1.1.1, ?_⟩
        split at he
        · split at he
          · next nodeId _ _ _ =>
              unfold Hub.mailArrival required at he
              split at he
              · cases he
              · cases he
                rfl
          · cases he
        · cases he
    · cases he
  · cases he

/-- The head of a mailbox is its last arrival. -/
theorem mailArrival_eq_ok {teamId nodeId : String} {a : MailArrival}
    (ha : h.mailArrival teamId nodeId = .ok a) :
    a.mailbox.teamId = teamId ∧ a.mailbox.recipientServerId = nodeId ∧
      a.throughSequence = (h.arrival? teamId nodeId).elim 0 ArrivalRow.throughSequence ∧
      a.arrivalId = (h.arrival? teamId nodeId).map ArrivalRow.arrivalId := by
  unfold Hub.mailArrival at ha
  rw [required_eq_ok] at ha
  cases hrow : h.arrival? teamId nodeId with
  | none =>
      rw [hrow] at ha
      exact makeArrival_eq_some ha
  | some row =>
      rw [hrow] at ha
      exact makeArrival_eq_some ha

theorem covered_eq_ok {a c : MailArrival} {rows : List MessageRow} {more : Bool}
    (hc : covered a rows more = .ok c) :
    c.mailbox.teamId = a.mailbox.teamId ∧
      c.mailbox.recipientServerId = a.mailbox.recipientServerId ∧
      (c = a ∧ (more = false ∨ rows = []) ∨
        ∃ last, rows.getLast? = some last ∧ c.throughSequence = last.ordinal ∧
          c.arrivalId = some last.id) := by
  unfold covered at hc
  split at hc
  · next last hlast =>
      cases more with
      | false =>
          cases hc
          exact ⟨rfl, rfl, Or.inl ⟨rfl, Or.inl rfl⟩⟩
      | true =>
          rw [if_pos rfl, required_eq_ok] at hc
          obtain ⟨hteam, hnode, hsequence, hid⟩ := makeArrival_eq_some hc
          exact ⟨hteam, hnode, Or.inr ⟨last, hlast, hsequence, hid⟩⟩
  · next hnone =>
      cases hc
      exact ⟨rfl, rfl, Or.inl ⟨rfl, Or.inr (List.getLast?_eq_none_iff.mp hnone)⟩⟩

/-- A live copy of a message for a server. -/
structure InMailbox (h : Hub) (box : Notifications.Mailbox) (m : MessageRow) : Prop where
  message : m ∈ h.messages
  team : m.teamId = box.teamId
  kept : h.isDeleted m.teamId m.id = false
  copy : ∃ r ∈ h.recipients, r.teamId = m.teamId ∧ r.messageId = m.id ∧
    r.recipient = .server box.recipientServerId ∧ r.dismissedAt = none

/-- Coverage is for the mailbox that was read, and up to it nothing is left out. -/
theorem IsPage.covers [Sha256] (hs : h.QueueSound) {head : Option MailArrival}
    (shows : IsPage h directory index query head page) (hhead : query.coverageHead h = .ok head)
    {c : MailArrival} (hc : page.coverage = some c) :
    query.source = .inbox (.server c.mailbox.recipientServerId) ∧
      c.mailbox.teamId = query.teamId ∧ c.throughSequence ≤ h.messageSequence ∧
      ∀ m, InMailbox h c.mailbox m → query.after < m.ordinal → m.ordinal ≤ c.throughSequence →
        m ∈ page.rows := by
  obtain ⟨a, rfl, hcovered⟩ := shows.coverage c hc
  obtain ⟨nodeId, hsource, _, hunread, hsender, hsince, hsearch, harrival⟩ :=
    coverageHead_eq_some hhead
  obtain ⟨hteam, hnode, hthrough, _⟩ := mailArrival_eq_ok harrival
  obtain ⟨hcteam, hcnode, hend⟩ := covered_eq_ok hcovered
  obtain ⟨hsplit, _⟩ := shows.rows.rest (matching_ordered hs)
  have hbox : c.mailbox.teamId = query.teamId := hcteam.trans hteam
  have hserver : c.mailbox.recipientServerId = nodeId := hcnode.trans hnode
  refine ⟨by rw [hserver]; exact hsource, hbox, ?_, ?_⟩
  · rcases hend with ⟨rfl, _⟩ | ⟨last, hlast, hordinal, _⟩
    · rw [hthrough]
      cases hrow : h.arrival? query.teamId nodeId with
      | none => exact Nat.zero_le _
      | some row => exact hs.heads row (Hub.arrival?_names hrow).1
    · have hmem : last ∈ Paging.beyond MessageRow.ordinal (query.matching h index) query.after := by
        rw [hsplit]
        exact List.mem_append_left _ (List.mem_of_getLast? hlast)
      rw [hordinal]
      exact hs.bounded last (mem_matching.mp ((Paging.mem_beyond _).mp hmem).1).1
  · intro m hm hafter hthrough'
    obtain ⟨r, hr, hrteam, hrmessage, hrserver, hrlive⟩ := hm.copy
    have hselected : m ∈ query.matching h index := by
      refine mem_matching.mpr ⟨hm.message, ?_, ?_⟩
      · have hteam' : m.teamId = query.teamId := hm.team.trans hbox
        have hkept := hm.kept
        rw [hteam'] at hkept
        simp [selects, hteam', hkept, hsender, hsince, hsearch]
      · unfold joined
        rw [hsource]
        refine List.mem_map.mpr ⟨r, ?_, rfl⟩
        rw [List.mem_filter]
        refine ⟨hr, ?_⟩
        simp [hrteam, hrmessage, hrserver, hrlive, hunread, hserver, Address.recipient]
    have hmem : m ∈ Paging.beyond MessageRow.ordinal (query.matching h index) query.after :=
      (Paging.mem_beyond _).mpr ⟨hselected, hafter⟩
    rw [hsplit] at hmem
    rcases List.mem_append.mp hmem with hmem | hmem
    · exact hmem
    · obtain ⟨hleft, hnext⟩ := (Paging.mem_beyond _).mp hmem
      rcases hend with ⟨_, hlastPage⟩ | ⟨last, hlast, hordinal, _⟩
      · -- the page was not cut
        obtain ⟨rest, hrest, hnone⟩ := shows.rows.covers
        have hmore : page.hasMore = false := by
          rcases hlastPage with hmore | hnil
          · exact hmore
          · cases hmore : page.hasMore with
            | false => rfl
            | true => exact absurd hnil (shows.rows.moves hmore)
        have hall : m ∈ Paging.beyond MessageRow.ordinal (query.matching h index) query.after :=
          (Paging.mem_beyond _).mpr ⟨hselected, hafter⟩
        rw [hrest, hnone hmore, List.append_nil] at hall
        exact hall
      · have hends := shows.rows.ends
        rw [hlast] at hends
        change page.next = last.ordinal at hends
        omega

end Query

/-! ## Refused pages -/

namespace Query

variable {h : Hub} {directory : Directory} {index : SearchIndex} {query : Query}
  {head : Option MailArrival}

/-- The last row of an Inbox page is an arrival of its mailbox. -/
theorem covered_ok (hs : h.QueueSound) {a : MailArrival}
    (ha : query.coverageHead h = .ok (some a)) {rows : List MessageRow}
    (hrows : ∀ m ∈ rows, m ∈ query.rows h index) (more : Bool) :
    ∃ c, covered a rows more = .ok c := by
  unfold covered
  cases hlast : rows.getLast? with
  | none => exact ⟨a, rfl⟩
  | some last =>
      cases more with
      | false => exact ⟨a, rfl⟩
      | true =>
          obtain ⟨nodeId, hsource, _, _, _, _, _, harrival⟩ := coverageHead_eq_some ha
          obtain ⟨hteam, _, hthrough, _⟩ := mailArrival_eq_ok harrival
          obtain ⟨hselected, hafter⟩ :=
            (Paging.mem_beyond _).mp (hrows last (List.mem_of_getLast? hlast))
          obtain ⟨hmem, hselects, hjoined⟩ := mem_matching.mp hselected
          have hmteam : last.teamId = query.teamId := by
            simp only [selects, Bool.and_eq_true, decide_eq_true_eq] at hselects
            exact hselects.1.1.1.1
          unfold joined at hjoined
          rw [hsource] at hjoined
          obtain ⟨r, hr, _⟩ := List.mem_map.mp hjoined
          obtain ⟨hrmem, hcond⟩ := List.mem_filter.mp hr
          simp only [decide_eq_true_eq] at hcond
          obtain ⟨_, row, hrow, hle⟩ :=
            hs.covered last hmem r hrmem nodeId hcond.2.1 hcond.2.2.1
          rw [hmteam] at hrow
          rw [hrow] at hthrough
          obtain ⟨token, htoken⟩ := hs.named last hmem
          obtain ⟨b, hb⟩ := makeArrival_of_le (a := a) token
            (Nat.lt_of_le_of_lt (Nat.zero_le _) hafter) (hthrough ▸ hle)
          refine ⟨b, ?_⟩
          dsimp only
          rw [if_pos rfl, htoken, hb]
          rfl

variable [Sha256]

theorem pageOf_ok (hs : h.QueueSound) (hhead : query.coverageHead h = .ok head)
    {rows : List MessageRow} (hrows : ∀ m ∈ rows, m ∈ query.rows h index)
    (directory : Directory) (more : Bool) : ∃ page, query.pageOf h directory head rows more = .ok page := by
  unfold pageOf
  cases head with
  | none => exact ⟨_, rfl⟩
  | some a =>
      obtain ⟨c, hc⟩ := covered_ok hs hhead hrows more
      simp only [hc]
      exact ⟨_, rfl⟩

theorem shorten_ok (hs : h.QueueSound) (hhead : query.coverageHead h = .ok head) {n : Nat}
    {first : MessagePage} (hrows : ∀ m ∈ first.rows, m ∈ query.rows h index) :
    ∃ page, query.shorten h directory head n first = .ok page := by
  induction n generalizing first with
  | zero => exact ⟨first, rfl⟩
  | succ n ih =>
      unfold shorten
      split
      · have hless : ∀ m ∈ first.rows.dropLast, m ∈ query.rows h index :=
          fun m hm => hrows m (List.dropLast_subset _ hm)
        obtain ⟨shorter, hshorter⟩ := pageOf_ok hs hhead hless directory true
        rw [hshorter, ok_bind]
        apply ih
        rw [(pageOf_eq_ok hshorter).1]
        exact hless
      · exact ⟨first, rfl⟩

/-- Why a page is refused. -/
theorem page_error (hs : h.QueueSound) {e : Failure}
    (hp : query.page h directory index = .error e) :
    (query.search.isSome = true ∧ (e = searchUnavailable ∨ e = searchTooBroad)) ∨
      (query.binds = false ∧ e = .overflowError) ∨
      (query.request.includeMailboxCoverage = true ∧ e = cursorUnavailable) ∨
      e = pageTooLarge := by
  unfold Query.page at hp
  simp only [bind_eq_error, require_eq_error, require_eq_ok] at hp
  rcases hp with ⟨hnone, rfl⟩ | ⟨_, _, ⟨hbinds, rfl⟩ | ⟨_, hbound, ⟨hnone, rfl⟩ | ⟨_, _,
    hhead | ⟨head, hhead, hrest⟩⟩⟩⟩
  · exact Or.inl ⟨searching fun hq => hnone (Or.inl hq), Or.inl rfl⟩
  · exact Or.inr (Or.inl ⟨by simpa using hbinds, rfl⟩)
  · exact Or.inl ⟨searching fun hq => hnone (Or.inl hq), Or.inr rfl⟩
  · exact Or.inr (Or.inr (Or.inl (coverageHead_eq_error hhead)))
  · have hvisible : ∀ m ∈ ((query.rows h index).take (query.limit + 1)).take query.limit,
        m ∈ query.rows h index :=
      fun m hm => List.mem_of_mem_take (List.mem_of_mem_take hm)
    obtain ⟨first, hfirst⟩ := pageOf_ok hs hhead hvisible directory
      (decide (query.limit < ((query.rows h index).take (query.limit + 1)).length))
    have hrows : ∀ m ∈ first.rows, m ∈ query.rows h index := by
      rw [(pageOf_eq_ok hfirst).1]
      exact hvisible
    obtain ⟨last, hlast⟩ := shorten_ok (n := first.rows.length) hs hhead hrows
    rcases hrest with hrest | ⟨first', hfirst', hrest⟩
    · rw [hfirst] at hrest
      cases hrest
    · rw [hfirst] at hfirst'
      cases hfirst'
      rcases hrest with hrest | ⟨_, _, ⟨_, rfl⟩ | ⟨_, _, hdone⟩⟩
      · rw [hlast] at hrest
        cases hrest
      · exact Or.inr (Or.inr (Or.inr rfl))
      · exact absurd hdone (pure_ne_error _ _)
where
  searching (hq : ¬ query.search.isNone = true) : query.search.isSome = true := by
    cases hs : query.search with
    | none => simp [hs] at hq
    | some _ => rfl

end Query

end AgentsServer.TeamHub

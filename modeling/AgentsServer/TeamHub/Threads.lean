import AgentsServer.Library.Exploration
import AgentsServer.Library.Paging
import AgentsServer.TeamHub.Messages

/-!
# Threads of mail

One page of the conversation around a message. The readable ancestors of the message are climbed
to a root, and the readable replies below the root are explored within a budget. The page is cut
at the limit and then to the size of a response.
-/

namespace AgentsServer.TeamHub

open Library

def maxThreadPageItems : Nat := 25

def maxThreadItems : Nat := 2048

def maxThreadAncestors : Nat := 128

def maxThreadResponseBytes : Nat := 1500000

/-- The largest integer that SQLite stores. -/
def maxSignedInteger : Nat := 9223372036854775807

namespace Hub

variable (h : Hub) (caller : Caller) (teamId : String) (owned : List Address)

/-! ## Readable messages -/

/-- `ordinary_mail`. -/
def ordinaryMail (m : MessageRow) : Bool :=
  m.content.isMessage && !h.isBulletin teamId m.id

/-- `_team_message_visible`. -/
def visible (m : MessageRow) : Bool :=
  !h.isDeleted m.teamId m.id && h.wasVisible caller m owned

/-- Ordinary mail that the caller sees. -/
def readableRow (m : MessageRow) : Bool :=
  h.ordinaryMail teamId m && h.visible caller owned m

/-- `readable`. -/
def readable (id : String) : Option MessageRow :=
  (h.message? teamId id).filter (h.readableRow caller teamId owned)

/-- The direct replies to a message, in the order of the queue. -/
def replies (parent : MessageRow) : List MessageRow :=
  (h.messages.filter fun m => m.teamId = teamId ∧ m.inReplyTo = some parent.id).insertionSort
    fun a b => a.ordinal ≤ b.ordinal

/-! ## The conversation -/

/-- Climb the readable ancestors, as long as there is room for one more. Says whether an ancestor
was left out. -/
def climb : (room : Nat) → (ancestors : List String) → (root : MessageRow) → MessageRow × Bool
  | room, ancestors, root =>
      match root.inReplyTo with
      | none => (root, false)
      | some parentId =>
          if parentId ∈ ancestors then (root, true)
          else
            match room with
            | 0 => (root, true)
            | room + 1 =>
                match h.readable caller teamId owned parentId with
                | none => (root, true)
                | some parent => climb room (parentId :: ancestors) parent

structure Thread where
  root : MessageRow
  graph : List MessageRow
  truncated : Bool

/-- The conversation that a message belongs to. -/
def thread (anchor : MessageRow) : Thread :=
  let climbed := h.climb caller teamId owned (maxThreadAncestors - 1) [anchor.id] anchor
  let explored := Exploration.exploreFrom MessageRow.id (h.readableRow caller teamId owned)
    maxThreadItems (h.replies teamId) climbed.1 climbed.2
  { root := climbed.1, graph := explored.graph, truncated := explored.truncated }

/-- The messages of a team with the given ids, in the order of the queue. -/
def messagesIn (ids : List String) : List MessageRow :=
  (h.messages.filter fun m => m.teamId = teamId ∧ m.id ∈ ids).insertionSort
    fun a b => a.ordinal ≤ b.ordinal

end Hub

/-! ## Pages -/

structure ThreadPage where
  teamId : String
  anchorId : String
  rootId : String
  rows : List MessageRow
  next : Nat
  hasMore : Bool
  truncated : Bool

def threadView (owned : List Address) : MessageView where
  includeBody := true
  includeRevision := true
  includeMailSubject := true
  includeMailboxState := true
  owned := some owned
  deliveryAddress := none

section Pages

variable [Sha256] (h : Hub) (directory : Directory) (owned : List Address)

def ThreadPage.response (page : ThreadPage) : Json :=
  .obj [("team_id", .str page.teamId), ("anchor_message_id", .str page.anchorId),
    ("root_message_id", .str page.rootId),
    ("messages", .arr (page.rows.map fun m => messagePublic directory h m (threadView owned))),
    ("next_after_sequence", number page.next), ("has_more", .bool page.hasMore),
    ("truncated", .bool page.truncated)]

def ThreadPage.tooLarge (page : ThreadPage) : Prop :=
  maxThreadResponseBytes < responseBytes (page.response h directory owned)

instance (page : ThreadPage) : Decidable (page.tooLarge h directory owned) := by
  unfold ThreadPage.tooLarge
  infer_instance

/-- `next_after_sequence` of a page of the given rows. -/
def lastSequence (rows : List MessageRow) (after : Nat) : Nat :=
  (rows.getLast?.map MessageRow.ordinal).getD after

/-- Remove the last message while a page of several is too large. The bound is the number of
messages. -/
def ThreadPage.shorten : Nat → ThreadPage → ThreadPage
  | n + 1, page =>
      if 1 < page.rows.length ∧ page.tooLarge h directory owned then
        shorten n { page with
          rows := page.rows.dropLast
          next := lastSequence page.rows.dropLast page.next
          hasMore := true }
      else page
  | 0, page => page

def threadTooLarge : Failure :=
  invalidRequest "Thread message exceeds the response limit"

/-- The page of a conversation behind a cursor, before it is shortened. -/
def Hub.threadPage (teamId messageId : String) (thread : Hub.Thread) (after limit : Nat) :
    ThreadPage :=
  let ordered := (Paging.beyond MessageRow.ordinal thread.graph after).insertionSort
    fun a b => a.ordinal ≤ b.ordinal
  let rows := h.messagesIn teamId ((ordered.take limit).map MessageRow.id)
  { teamId, anchorId := messageId, rootId := thread.root.id, rows
    next := lastSequence rows after
    hasMore := decide (rows.length < ordered.length)
    truncated := thread.truncated }

def getTeamMessageThread (caller : Caller) (teamId messageId : String)
    (afterSequence limit : Int) : Except Failure ThreadPage := do
  require (1 ≤ limit ∧ limit ≤ maxThreadPageItems) (invalidRequest "Thread page limit is invalid")
  require (0 ≤ afterSequence ∧ afterSequence ≤ maxSignedInteger)
    (invalidRequest "Thread page cursor is invalid")
  let role ← caller.networkScope false
  let owned ← caller.ownedAddresses role
  let anchor ← required (h.readable caller teamId owned messageId)
    (.hubError "not_found" "Resource not found" 404)
  let thread := h.thread caller teamId owned anchor
  let first := h.threadPage teamId messageId thread afterSequence.toNat limit.toNat
  let page := first.shorten h directory owned first.rows.length
  require (¬ page.tooLarge h directory owned) threadTooLarge
  return page

end Pages

/-! ## What a conversation contains -/

/-- The keys of `team_messages`: row ids of SQLite that start at 1, and unique ids. -/
structure Hub.Numbered (h : Hub) : Prop where
  ordered : h.messages.Pairwise fun a b => a.ordinal < b.ordinal
  positive : ∀ m ∈ h.messages, 0 < m.ordinal
  bounded : ∀ m ∈ h.messages, m.ordinal ≤ maxSignedInteger
  ids : (h.messages.map MessageRow.id).Nodup

/-- A readable reply in the team. -/
structure Hub.Replies (h : Hub) (caller : Caller) (teamId : String) (owned : List Address)
    (parent m : MessageRow) : Prop where
  stored : m ∈ h.messages
  team : m.teamId = teamId
  parent : m.inReplyTo = some parent.id
  readable : h.readableRow caller teamId owned m = true

/-- A message that the root reaches through readable replies. -/
def Hub.InThread (h : Hub) (caller : Caller) (teamId : String) (owned : List Address) :
    MessageRow → MessageRow → Prop :=
  Relation.ReflTransGen (h.Replies caller teamId owned)

namespace Hub

variable {h : Hub} {caller : Caller} {teamId : String} {owned : List Address}

theorem readable_eq_some {id : String} {m : MessageRow}
    (hm : h.readable caller teamId owned id = some m) :
    m ∈ h.messages ∧ m.teamId = teamId ∧ m.id = id ∧
      h.readableRow caller teamId owned m = true := by
  obtain ⟨hfind, hreadable⟩ := Option.filter_eq_some_iff.mp hm
  have hkey := List.find?_some hfind
  rw [decide_eq_true_eq] at hkey
  exact ⟨List.mem_of_find?_eq_some hfind, hkey.1, hkey.2, hreadable⟩

/-- The root is readable and reaches the message from which it was climbed. -/
theorem climb_spec {room : Nat} {ancestors : List String} {m : MessageRow}
    (hm : m ∈ h.messages) (hteam : m.teamId = teamId)
    (hreadable : h.readableRow caller teamId owned m = true) :
    let root := (h.climb caller teamId owned room ancestors m).1
    root ∈ h.messages ∧ root.teamId = teamId ∧ h.readableRow caller teamId owned root = true ∧
      h.InThread caller teamId owned root m := by
  have stays : m ∈ h.messages ∧ m.teamId = teamId ∧
      h.readableRow caller teamId owned m = true ∧ h.InThread caller teamId owned m m :=
    ⟨hm, hteam, hreadable, .refl⟩
  induction room generalizing ancestors m with
  | zero =>
      unfold climb
      cases hparent : m.inReplyTo with
      | none => exact stays
      | some parentId =>
          dsimp only
          split <;> exact stays
  | succ room ih =>
      unfold climb
      cases hparent : m.inReplyTo with
      | none => exact stays
      | some parentId =>
          dsimp only
          split
          · exact stays
          · cases hup : h.readable caller teamId owned parentId with
            | none => exact stays
            | some parent =>
                obtain ⟨hp, hpteam, hpid, hpreadable⟩ := readable_eq_some hup
                obtain ⟨hroot, hrteam, hrreadable, hreach⟩ :=
                  ih hp hpteam hpreadable ⟨hp, hpteam, hpreadable, .refl⟩
                refine ⟨hroot, hrteam, hrreadable, hreach.tail ?_⟩
                exact ⟨hm, hteam, by rw [hparent, hpid], hreadable⟩

theorem edge_iff {p m : MessageRow} :
    Exploration.Edge (h.replies teamId) (h.readableRow caller teamId owned) p m ↔
      h.Replies caller teamId owned p m := by
  unfold Exploration.Edge replies
  rw [List.mem_insertionSort, List.mem_filter, decide_eq_true_eq]
  constructor
  · intro hedge
    exact ⟨hedge.1.1, hedge.1.2.1, hedge.1.2.2, hedge.2⟩
  · intro hreplies
    exact ⟨⟨hreplies.stored, hreplies.team, hreplies.parent⟩, hreplies.readable⟩

/-- The conversation of a readable message: rows that the root reaches, each once, and all of
them unless it is truncated. -/
theorem thread_spec {anchor : MessageRow} {id : String}
    (hanchor : h.readable caller teamId owned id = some anchor) :
    let thread := h.thread caller teamId owned anchor
    (thread.graph.map MessageRow.id).Nodup ∧
    (∀ m ∈ thread.graph, m ∈ h.messages ∧ m.teamId = teamId ∧
      h.readableRow caller teamId owned m = true) ∧
    (thread.truncated = false →
      ∀ m, m ∈ thread.graph ↔ h.InThread caller teamId owned thread.root m) ∧
    h.InThread caller teamId owned thread.root anchor := by
  obtain ⟨hm, hteam, -, hreadable⟩ := readable_eq_some hanchor
  obtain ⟨hroot, hrteam, hrreadable, hreach⟩ :=
    @climb_spec h caller teamId owned (maxThreadAncestors - 1) [anchor.id] anchor hm hteam
      hreadable
  have hedges : Exploration.Edge (h.replies teamId) (h.readableRow caller teamId owned) =
      h.Replies caller teamId owned := by
    ext p m
    exact edge_iff
  obtain ⟨hnodup, hsound, hcomplete⟩ := @Exploration.exploreFrom_spec _ _ _ MessageRow.id
    (h.readableRow caller teamId owned) maxThreadItems (h.replies teamId)
    (h.climb caller teamId owned (maxThreadAncestors - 1) [anchor.id] anchor).1
    (h.climb caller teamId owned (maxThreadAncestors - 1) [anchor.id] anchor).2
  rw [hedges] at hsound hcomplete
  refine ⟨hnodup, ?_, ?_, hreach⟩
  · intro m hm
    cases (hsound m hm).cases_tail with
    | inl heq =>
        rw [heq]
        exact ⟨hroot, hrteam, hrreadable⟩
    | inr hstep =>
        obtain ⟨p, -, hreplies⟩ := hstep
        exact ⟨hreplies.stored, hreplies.team, hreplies.readable⟩
  · intro whole m
    exact ⟨hsound m, hcomplete whole m⟩

end Hub

end AgentsServer.TeamHub

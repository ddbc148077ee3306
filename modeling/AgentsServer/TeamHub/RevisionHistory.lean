import AgentsServer.TeamHub.Replay
import Mathlib.Data.List.Induction
import Mathlib.Data.List.Infix

/-!
# The revisions of a message

The body of a message is version one and its revisions are numbered from two
without gaps. A revision is accepted only with the number of the version it
replaces.
-/

namespace AgentsServer.TeamHub

open Library

/-! ## The latest revision -/

/-- Of revisions numbered in the order they were inserted, the last is the latest. -/
theorem foldl_newerRevision (rows : List RevisionRow)
    (numbered : rows.map RevisionRow.version = List.range' 2 rows.length) :
    rows.foldl Hub.newerRevision none = rows.getLast? := by
  induction rows using List.reverseRecOn with
  | nil => rfl
  | append_singleton rest r ih =>
      rw [List.map_append, List.length_append, List.map_singleton, List.length_singleton,
        List.range'_1_concat] at numbered
      obtain ⟨hrest, hlast⟩ := List.append_inj numbered (by simp)
      rw [List.foldl_append, ih hrest, List.getLast?_append]
      cases hlatest : rest.getLast? with
      | none => rfl
      | some b =>
          have hb : b.version ∈ List.range' 2 rest.length := by
            rw [← hrest]
            exact List.mem_map_of_mem (List.mem_of_getLast? hlatest)
          have hlt : b.version < r.version := by
            have hr : r.version = 2 + rest.length := by simpa using hlast
            rw [List.mem_range'_1] at hb
            omega
          simp [Hub.newerRevision, hlt]

/-- The version of a message counts its revisions. -/
theorem messageVersion_eq {h : Hub} {teamId id : String}
    (numbered : (h.revisionsOf teamId id).map RevisionRow.version =
      List.range' 2 (h.revisionsOf teamId id).length) :
    h.messageVersion teamId id = 1 + (h.revisionsOf teamId id).length := by
  have hlatest : h.latestRevision? teamId id = (h.revisionsOf teamId id).getLast? :=
    foldl_newerRevision _ numbered
  rw [Hub.messageVersion, hlatest]
  cases hlast : (h.revisionsOf teamId id).getLast? with
  | none =>
      rw [List.getLast?_eq_none_iff.mp hlast]
      rfl
  | some r =>
      have hlength : 0 < (h.revisionsOf teamId id).length :=
        List.length_pos_of_mem (List.mem_of_getLast? hlast)
      have hversion := congrArg List.getLast? numbered
      rw [List.getLast?_map, hlast, List.getLast?_range'] at hversion
      have hne : (h.revisionsOf teamId id).length ≠ 0 := by omega
      simp [hne] at hversion
      change r.version = _
      omega

/-! ## What holds after every run -/

structure Hub.RevisionsSound (h : Hub) : Prop where
  numbered : ∀ teamId id, (h.revisionsOf teamId id).map RevisionRow.version =
    List.range' 2 (h.revisionsOf teamId id).length
  posted : ∀ r ∈ h.revisions, ∃ m ∈ h.messages, m.id = r.messageId

namespace Hub

theorem empty_revisions : Hub.empty.RevisionsSound where
  numbered := by simp [Hub.revisionsOf, Hub.empty]
  posted := by simp [Hub.empty]

end Hub

/-- Messages and revisions are only added. The body of a message stays as it is,
or is replaced by a request that named its version. -/
structure Hub.RevisionsContinue [UnicodeTables] [Conversions] [Sha256] (h : Hub) (call : Call)
    (t : Hub) : Prop where
  messages : h.messages <+: t.messages
  revisions : h.revisions <+: t.revisions
  old : ∀ m ∈ h.messages,
    (t.messageVersion m.teamId m.id = h.messageVersion m.teamId m.id ∧
      t.currentBody m = h.currentBody m) ∨
    ∃ fields includeMailSubject request,
      call.operation = .revise m.id fields includeMailSubject ∧ call.teamId = m.teamId ∧
      reviseRequest fields = .ok request ∧
      request.expectedVersion = h.messageVersion m.teamId m.id ∧
      t.messageVersion m.teamId m.id = h.messageVersion m.teamId m.id + 1 ∧
      t.currentBody m = request.body
  new : ∀ m ∈ t.messages, m ∈ h.messages ∨
    (t.messageVersion m.teamId m.id = 1 ∧ t.currentBody m = m.body)

namespace Hub

variable [Sha256] [UnicodeTables] [Conversions] {h t : Hub} {call : Call}

/-- No revision is made. -/
theorem RevisionsSound.same (hr : h.RevisionsSound) (more : List MessageRow)
    (messages : t.messages = h.messages ++ more)
    (fresh : ∀ m ∈ more, ∀ old ∈ h.messages, old.id ≠ m.id)
    (revisions : t.revisions = h.revisions) : t.RevisionsSound ∧ h.RevisionsContinue call t := by
  have hof : ∀ teamId id, t.revisionsOf teamId id = h.revisionsOf teamId id := by
    intro teamId id
    rw [revisionsOf, revisions]
    rfl
  have hlatest : ∀ teamId id, t.latestRevision? teamId id = h.latestRevision? teamId id := by
    intro teamId id
    rw [latestRevision?, hof]
    rfl
  refine ⟨⟨?_, ?_⟩, ⟨?_, ?_, ?_, ?_⟩⟩
  · intro teamId id
    rw [hof]
    exact hr.numbered teamId id
  · intro r hmem
    rw [revisions] at hmem
    obtain ⟨m, hm, he⟩ := hr.posted r hmem
    rw [messages]
    exact ⟨m, List.mem_append_left _ hm, he⟩
  · rw [messages]
    exact List.prefix_append _ _
  · rw [revisions]
  · intro m _
    refine Or.inl ⟨?_, ?_⟩
    · rw [messageVersion, hlatest]
      rfl
    · rw [currentBody, hlatest]
      rfl
  · intro m hm
    rw [messages] at hm
    rcases List.mem_append.mp hm with hm | hm
    · exact Or.inl hm
    · -- no revision names a message that did not exist
      have hnone : h.revisionsOf m.teamId m.id = [] := by
        refine List.filter_eq_nil_iff.mpr ?_
        intro r hmem
        obtain ⟨old, hold, he⟩ := hr.posted r hmem
        simp only [decide_eq_true_eq, not_and]
        intro _ hid
        exact fresh m hm old hold (he.trans hid)
      have hlast : t.latestRevision? m.teamId m.id = none := by
        rw [hlatest, latestRevision?, hnone]
        rfl
      refine Or.inr ⟨?_, ?_⟩
      · rw [messageVersion, hlast]
        rfl
      · rw [currentBody, hlast]
        rfl

omit [Sha256] [UnicodeTables] [Conversions] in
theorem revisionsOf_append {row : RevisionRow} (revisions : t.revisions = h.revisions ++ [row])
    (teamId id : String) : t.revisionsOf teamId id =
      h.revisionsOf teamId id ++ if row.teamId = teamId ∧ row.messageId = id then [row] else [] := by
  rw [revisionsOf, revisions, List.filter_append, List.filter_singleton]
  by_cases he : row.teamId = teamId ∧ row.messageId = id
  · rw [if_pos he, decide_eq_true he]
    rfl
  · rw [if_neg he, decide_eq_false he]
    rfl

/-- A revision follows the version that its request named. -/
theorem RevisionsSound.revised (hr : h.RevisionsSound) {messageId : String}
    {fields : List (String × Json)} {includeMailSubject : Bool} {request : ReviseRequest}
    {m : MessageRow} {row : RevisionRow} {u : Hub}
    (operation : call.operation = .revise messageId fields includeMailSubject)
    (checked : reviseRequest fields = .ok request)
    (work : Revised h call request messageId m row u) (messages : t.messages = h.messages)
    (revisions : t.revisions = h.revisions ++ [row]) :
    t.RevisionsSound ∧ h.RevisionsContinue call t := by
  have hof := revisionsOf_append revisions
  have hother : ∀ {teamId id : String}, ¬ (row.teamId = teamId ∧ row.messageId = id) →
      t.revisionsOf teamId id = h.revisionsOf teamId id := by
    intro teamId id hne
    rw [hof, if_neg hne, List.append_nil]
  have hsame : t.revisionsOf call.teamId messageId =
      h.revisionsOf call.teamId messageId ++ [row] := by
    rw [hof, if_pos ⟨work.team, work.message⟩]
  have hversion : row.version = 2 + (h.revisionsOf call.teamId messageId).length := by
    rw [work.version, messageVersion_eq (hr.numbered _ _)]
    omega
  have hnumbered : ∀ teamId id, (t.revisionsOf teamId id).map RevisionRow.version =
      List.range' 2 (t.revisionsOf teamId id).length := by
    intro teamId id
    by_cases he : row.teamId = teamId ∧ row.messageId = id
    · obtain ⟨rfl, rfl⟩ := he
      rw [work.team, work.message, hsame, List.map_append, hr.numbered, List.length_append,
        List.length_singleton, List.range'_1_concat, List.map_singleton, hversion]
    · rw [hother he]
      exact hr.numbered teamId id
  have hfound : m ∈ h.messages ∧ m.teamId = call.teamId ∧ m.id = messageId := by
    have hlive := work.live
    unfold liveMessage? at hlive
    split at hlive
    · cases hlive
    · have hcond := List.find?_some hlive
      simp only [decide_eq_true_eq] at hcond
      exact ⟨List.mem_of_find?_eq_some hlive, hcond⟩
  refine ⟨⟨hnumbered, ?_⟩, ⟨?_, ?_, ?_, ?_⟩⟩
  · intro r hmem
    rw [revisions] at hmem
    rw [messages]
    rcases List.mem_append.mp hmem with hmem | hmem
    · exact hr.posted r hmem
    · rw [List.mem_singleton.mp hmem]
      exact ⟨m, hfound.1, hfound.2.2.trans work.message.symm⟩
  · rw [messages]
  · rw [revisions]
    exact List.prefix_append _ _
  · intro p hp
    by_cases he : row.teamId = p.teamId ∧ row.messageId = p.id
    · have hteam : p.teamId = call.teamId := he.1.symm.trans work.team
      have hid : p.id = messageId := he.2.symm.trans work.message
      refine Or.inr ⟨fields, includeMailSubject, request, ?_, hteam.symm, checked, ?_, ?_, ?_⟩
      · rw [hid]
        exact operation
      · rw [hteam, hid]
        exact work.expected
      · rw [hteam, hid, messageVersion_eq (hnumbered _ _), hsame, messageVersion_eq (hr.numbered _ _),
          List.length_append, List.length_singleton]
        omega
      · have hlast : t.latestRevision? p.teamId p.id = some row := by
          rw [latestRevision?, foldl_newerRevision _ (hnumbered _ _), hteam, hid, hsame,
            List.getLast?_append]
          rfl
        rw [currentBody, hlast]
        exact work.body
    · have hlatest : t.latestRevision? p.teamId p.id = h.latestRevision? p.teamId p.id := by
        rw [latestRevision?, hother he]
        rfl
      refine Or.inl ⟨?_, ?_⟩
      · rw [messageVersion, hlatest]
        rfl
      · rw [currentBody, hlatest]
        rfl
  · intro p hp
    rw [messages] at hp
    exact Or.inl hp

end Hub

end AgentsServer.TeamHub

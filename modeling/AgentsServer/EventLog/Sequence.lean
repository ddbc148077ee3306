import AgentsServer.EventLog.Events

/-!
# The log of every run

A log is the lines of events with rising numbers, and perhaps a part of one more line. The part
belongs to an event with a higher number that no caller has; a repair removes it, or completes
it. While the cache holds a number there is no such part, and no event of the log has a higher
number.
-/

namespace AgentsServer.EventLog

open Library Json

/-! ## Logs -/

variable {file : Bytes} {events : List Fields} {tail : Bytes}

/-- A part of a line, of an event that comes after the others. -/
def Torn [FloatText] (events : List Fields) (tail : Bytes) : Prop :=
  ∃ e more, Written e ∧ dumpsAscii (.obj e) = tail ++ more ∧ ∀ a ∈ events, seqOf a < seqOf e

structure Log [FloatText] (file : Bytes) (events : List Fields) (tail : Bytes) : Prop where
  bytes : file = jsonLines events ++ tail
  each : ∀ e ∈ events, Written e
  sorted : events.Pairwise fun a b => seqOf a < seqOf b
  torn : tail = [] ∨ Torn events tail

variable [FloatText]

theorem Log.newline_not_mem (h : Log file events tail) : newline ∉ tail := by
  rcases h.torn with rfl | ⟨e, more, -, hcut, -⟩
  · exact List.not_mem_nil
  · intro hmem
    apply Json.newline_not_mem (.obj e)
    rw [hcut]
    exact List.mem_append_left _ hmem

theorem Log.split (h : Log file events tail) :
    splitLines file = (events.map fun fields => dumpsAscii (.obj fields), tail) := by
  rw [h.bytes]
  exact splitLines_jsonLines h.newline_not_mem

/-- The last line has the highest number. -/
theorem Log.last (h : Log file events []) :
    ∀ e ∈ events, seqOf e ≤ lastEventSeqFromFile file := by
  intro e he
  have hlines : lastEventSeqFromFile file = (events.reverse.head?.map seqOf).getD 0 := by
    unfold lastEventSeqFromFile
    rw [h.split, List.reverse_append, List.reverse_singleton, List.singleton_append,
      List.findSome?_cons]
    have hblank : lineSeq [] = none := rfl
    rw [hblank, ← List.map_reverse]
    cases hlast : events.reverse with
    | nil => rfl
    | cons last before =>
        have hmem : last ∈ events := List.mem_reverse.mp (hlast ▸ List.mem_cons_self)
        rw [List.map_cons, List.findSome?_cons, lineSeq_written (h.each last hmem)]
        rfl
  rw [hlines]
  have hsorted := List.pairwise_reverse.mpr h.sorted
  cases hlast : events.reverse with
  | nil =>
      rw [List.reverse_eq_nil_iff.mp hlast] at he
      cases he
  | cons last before =>
      rw [hlast] at hsorted
      have hmem : e ∈ last :: before := by
        rw [← hlast]
        exact List.mem_reverse.mpr he
      rcases List.mem_cons.mp hmem with rfl | hbefore
      · exact Nat.le_refl _
      · exact Nat.le_of_lt ((List.pairwise_cons.mp hsorted).1 e hbefore)

/-- One more event. -/
theorem Log.append (h : Log file events []) (more : List Fields) (part : Bytes)
    (each : ∀ e ∈ more, Written e ∧ ∀ a ∈ events, seqOf a < seqOf e)
    (sorted : more.Pairwise fun a b => seqOf a < seqOf b)
    (torn : part = [] ∨ Torn (events ++ more) part) :
    Log (file ++ (jsonLines more ++ part)) (events ++ more) part where
  bytes := by
    rw [h.bytes, List.append_nil, jsonLines_append, List.append_assoc]
  each := by
    intro e he
    rcases List.mem_append.mp he with he | he
    · exact h.each e he
    · exact (each e he).1
  sorted := List.pairwise_append.mpr ⟨h.sorted, sorted, fun a ha b hb => (each b hb).2 a ha⟩
  torn := torn

/-- Some bytes of the lines of later events. -/
theorem Log.part (h : Log file events []) {more : List Fields}
    (each : ∀ e ∈ more, Written e ∧ ∀ a ∈ events, seqOf a < seqOf e)
    (sorted : more.Pairwise fun a b => seqOf a < seqOf b) (bytes : Nat) :
    ∃ kept tail, kept <+: more ∧
      Log (file ++ (jsonLines more).take bytes) (events ++ kept) tail := by
  obtain ⟨kept, part, htake, hkept⟩ := take_jsonLines more bytes
  have hbegins : kept <+: more := by
    rcases hkept with ⟨rfl, -⟩ | ⟨_, _, _, rfl, -⟩
    · exact List.prefix_refl _
    · exact List.prefix_append _ _
  rw [htake]
  refine ⟨kept, part, hbegins, h.append kept part (fun e he => each e (hbegins.subset he))
    (sorted.sublist hbegins.sublist) ?_⟩
  rcases hkept with ⟨-, rfl⟩ | ⟨next, rest, cut, rfl, hcut⟩
  · exact .inl rfl
  · have hnext : next ∈ kept ++ next :: rest := List.mem_append_right _ List.mem_cons_self
    refine .inr ⟨next, cut, (each next hnext).1, hcut, ?_⟩
    intro a ha
    rcases List.mem_append.mp ha with ha | ha
    · exact (each next hnext).2 a ha
    · exact (List.pairwise_append.mp sorted).2.2 a ha next List.mem_cons_self

/-- A repair leaves whole lines: it removes what is no event, or completes the last event. -/
theorem Log.repair (h : Log file events tail) :
    ∃ more, Log (repairEventLogTail file).1 (events ++ more) [] ∧
      ∀ e ∈ events ++ more, seqOf e ≤ (repairEventLogTail file).2 := by
  unfold repairEventLogTail
  rw [h.split]
  dsimp only
  split
  · next htail =>
    subst htail
    refine ⟨[], ?_, ?_⟩
    · rw [List.append_nil]
      exact h
    · rw [List.append_nil]
      exact h.last
  · next htail =>
    rcases h.torn with hnil | ⟨e, more, hwritten, hcut, hafter⟩
    · exact absurd hnil htail
    have hcleared : Log (jsonLines events) events [] := ⟨by rw [List.append_nil], h.each, h.sorted, .inl rfl⟩
    cases more with
    | nil =>
        rw [List.append_nil] at hcut
        have hread : (loadsBytes tail).bind durableEventSeq = some (seqOf e) := by
          rw [← hcut, loadsBytes_dumpsAscii hwritten.proper, Option.bind_some, hwritten.number]
        rw [hread]
        refine ⟨[e], ?_, ?_⟩
        · have hlonger := hcleared.append [e] []
            (fun a ha => by rw [List.mem_singleton.mp ha]; exact ⟨hwritten, hafter⟩)
            (List.pairwise_singleton _ _) (.inl rfl)
          have hbytes : jsonLines events ++ (jsonLines [e] ++ []) = file ++ [newline] := by
            rw [h.bytes, ← hcut, jsonLines_cons, jsonLines_nil, List.append_nil, List.append_assoc]
          rw [hbytes] at hlonger
          exact hlonger
        · intro a ha
          rcases List.mem_append.mp ha with ha | ha
          · exact Nat.le_of_lt (hafter a ha)
          · rw [List.mem_singleton.mp ha]
    | cons b more =>
        have hread : loadsBytes tail = none :=
          loadsBytes_cut hwritten.proper (List.cons_ne_nil b more) hcut
        rw [hread, Option.bind_none]
        have hbytes : file.take (file.length - tail.length) = jsonLines events := by
          rw [h.bytes, List.length_append, Nat.add_sub_cancel, List.take_left]
        refine ⟨[], ?_, ?_⟩
        · dsimp only
          rw [hbytes, List.append_nil]
          exact hcleared
        · dsimp only
          rw [hbytes, List.append_nil]
          exact hcleared.last

end AgentsServer.EventLog

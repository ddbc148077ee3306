import AgentsServer.EventIndex.Index

/-!
# Places in an event log

A place is in a complete line or in the unfinished last one. Where the text from a place to the
end of its line is an event, the place is the start of a line, or stands in blanks before it, or
is in the unfinished line.
-/

namespace AgentsServer.EventIndex

open Library JsonScan EventLog
open Library.Json (newline splitLines splitLines_line splitLines_tail)

/-! ## Lines -/

/-- The complete lines of a file, with their newlines. -/
def complete (log : Bytes) : List Bytes := (splitLines log).1.map (· ++ [newline])

/-- What follows the last newline. -/
def unfinished (log : Bytes) : Bytes := (splitLines log).2

theorem rawLines_eq (log : Bytes) :
    rawLines log = complete log ++ if unfinished log = [] then [] else [unfinished log] := rfl

theorem splitLines_cut (log : Bytes) :
    (newline ∉ log ∧ splitLines log = ([], log)) ∨
      ∃ line rest, newline ∉ line ∧ log = line ++ newline :: rest := by
  by_cases h : newline ∈ log
  · obtain ⟨line, rest, hlog, hline⟩ := List.eq_append_cons_of_mem h
    exact .inr ⟨line, rest, hline, hlog⟩
  · exact .inl ⟨h, splitLines_tail h⟩

theorem complete_line {line : Bytes} (h : newline ∉ line) (rest : Bytes) :
    complete (line ++ newline :: rest) = (line ++ [newline]) :: complete rest := by
  rw [complete, splitLines_line h]
  rfl

theorem unfinished_line {line : Bytes} (h : newline ∉ line) (rest : Bytes) :
    unfinished (line ++ newline :: rest) = unfinished rest := by
  rw [unfinished, splitLines_line h]
  rfl

theorem complete_tail {log : Bytes} (h : newline ∉ log) : complete log = [] := by
  rw [complete, splitLines_tail h]
  rfl

theorem unfinished_tail {log : Bytes} (h : newline ∉ log) : unfinished log = log := by
  rw [unfinished, splitLines_tail h]

/-- Induction over the lines of a file. -/
theorem lines_induction {P : Bytes → Prop} (tail : ∀ log, newline ∉ log → P log)
    (line : ∀ line rest, newline ∉ line → P rest → P (line ++ newline :: rest)) (log : Bytes) :
    P log := by
  induction hn : log.length using Nat.strongRecOn generalizing log with
  | ind n ih =>
      rcases splitLines_cut log with ⟨hlog, -⟩ | ⟨first, rest, hfirst, rfl⟩
      · exact tail log hlog
      · apply line first rest hfirst
        refine ih rest.length ?_ rest rfl
        rw [← hn, List.length_append, List.length_cons]
        omega

theorem rawLines_line {line : Bytes} (h : newline ∉ line) (rest : Bytes) :
    rawLines (line ++ newline :: rest) = (line ++ [newline]) :: rawLines rest := by
  rw [rawLines_eq, rawLines_eq, complete_line h, unfinished_line h, List.cons_append]

theorem readLine_line {line : Bytes} (h : newline ∉ line) (rest : Bytes) :
    readLine (line ++ newline :: rest) = line ++ [newline] := by
  rw [readLine, rawLines_line h]
  rfl

theorem readLine_tail {log : Bytes} (h : newline ∉ log) : readLine log = log := by
  rw [readLine, rawLines_eq, complete_tail h, unfinished_tail h]
  split
  · next hnil => rw [hnil]; rfl
  · rfl

/-- The start of a line leaves the lines from it on. -/
theorem rawLines_drop {log : Bytes} {before : List Bytes} (h : before <+: complete log) :
    rawLines log = before ++ rawLines (log.drop before.flatten.length) := by
  induction before generalizing log with
  | nil => rfl
  | cons first before ih =>
      obtain ⟨rest, hrest⟩ := h
      rcases splitLines_cut log with ⟨hlog, -⟩ | ⟨line, more, hline, rfl⟩
      · rw [complete_tail hlog] at hrest
        cases hrest
      · rw [complete_line hline, List.cons_append] at hrest
        obtain ⟨rfl, hbefore⟩ := List.cons.inj hrest
        have hlength : ((line ++ [newline]) :: before).flatten.length =
            (line ++ [newline]).length + before.flatten.length := by
          rw [List.flatten_cons, List.length_append]
        have hlog : line ++ newline :: more = (line ++ [newline]) ++ more := by
          rw [List.append_assoc]
          rfl
        rw [rawLines_line hline, ih ⟨rest, hbefore⟩, hlength, ← List.drop_drop, hlog, List.drop_left,
          List.cons_append]

/-- Where a place of a file is, and what is read from it. -/
theorem place {log : Bytes} {offset : Nat} (h : offset < log.length) :
    (∃ before line rest k, complete log = before ++ line :: rest ∧ k < line.length ∧
        offset = before.flatten.length + k ∧ readLine (log.drop offset) = line.drop k) ∨
      ∃ k, offset = (complete log).flatten.length + k ∧
        readLine (log.drop offset) = (unfinished log).drop k := by
  induction log using lines_induction generalizing offset with
  | tail log hlog =>
      refine .inr ⟨offset, ?_, ?_⟩
      · rw [complete_tail hlog, List.flatten_nil, List.length_nil, Nat.zero_add]
      · rw [unfinished_tail hlog, readLine_tail]
        exact fun hmem => hlog (List.mem_of_mem_drop hmem)
  | line line rest hline ih =>
      have hlog : line ++ newline :: rest = (line ++ [newline]) ++ rest := by
        rw [List.append_assoc]
        rfl
      by_cases hk : offset ≤ line.length
      · refine .inl ⟨[], line ++ [newline], complete rest, offset, ?_, ?_, ?_, ?_⟩
        · rw [complete_line hline, List.nil_append]
        · rw [List.length_append, List.length_singleton]
          omega
        · rw [List.flatten_nil, List.length_nil, Nat.zero_add]
        · rw [List.drop_append_of_le_length hk, List.drop_append_of_le_length hk, readLine_line]
          exact fun hmem => hline (List.mem_of_mem_drop hmem)
      · obtain ⟨k, hoffset⟩ : ∃ k, offset = (line ++ [newline]).length + k := by
          refine ⟨offset - (line.length + 1), ?_⟩
          rw [List.length_append, List.length_singleton]
          omega
        have hlt : k < rest.length := by
          have hwhole : ((line ++ [newline]) ++ rest).length =
              (line ++ [newline]).length + rest.length := List.length_append
          rw [hoffset, hlog, hwhole] at h
          omega
        have hdrop : (line ++ newline :: rest).drop offset = rest.drop k := by
          rw [hoffset, hlog, ← List.drop_drop, List.drop_left]
        have hlength (before : List Bytes) : ((line ++ [newline]) :: before).flatten.length =
            (line ++ [newline]).length + before.flatten.length := by
          rw [List.flatten_cons, List.length_append]
        rw [hdrop, complete_line hline, unfinished_line hline]
        rcases ih hlt with ⟨before, found, more, j, hmore, hj, hplace, hread⟩ | ⟨j, hplace, hread⟩
        · refine .inl ⟨(line ++ [newline]) :: before, found, more, j, ?_, hj, ?_, hread⟩
          · rw [hmore, List.cons_append]
          · rw [hlength, hoffset, hplace, Nat.add_assoc]
        · refine .inr ⟨j, ?_, hread⟩
          rw [hlength, hoffset, hplace, Nat.add_assoc]

end AgentsServer.EventIndex

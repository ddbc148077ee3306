import AgentsServer.PublicShares.Documents
import Mathlib.Data.List.Forall2
import Mathlib.Data.List.TakeWhile

/-!
# What the patterns find

Each pattern takes a line apart into marks and text, and the parts make up the
whole line.
-/

namespace AgentsServer.PublicShares

open Library Html

/-! ## Runs at the ends of a line -/

section Ends

variable {p : Char → Bool} {line rest text : List Char}

theorem takeWhile_all (p : Char → Bool) (cs : List Char) : ∀ c ∈ cs.takeWhile p, p c = true :=
  fun _ hc => List.mem_takeWhile_imp hc

/-- What is trimmed from both ends. -/
theorem trim_split (p : Char → Bool) (cs : List Char) :
    ∃ before after, (∀ c ∈ before, p c = true) ∧ (∀ c ∈ after, p c = true) ∧
      cs = before ++ (((cs.dropWhile p).reverse).dropWhile p).reverse ++ after := by
  refine ⟨cs.takeWhile p, (((cs.dropWhile p).reverse).takeWhile p).reverse, takeWhile_all p cs,
    ?_, ?_⟩
  · intro c hc
    exact takeWhile_all p _ c (List.mem_reverse.mp hc)
  · have inner : cs.dropWhile p = (((cs.dropWhile p).reverse).dropWhile p).reverse ++
        (((cs.dropWhile p).reverse).takeWhile p).reverse := by
      rw [← List.reverse_append, List.takeWhile_append_dropWhile, List.reverse_reverse]
    calc cs = cs.takeWhile p ++ cs.dropWhile p := List.takeWhile_append_dropWhile.symm
      _ = cs.takeWhile p ++ ((((cs.dropWhile p).reverse).dropWhile p).reverse ++
            (((cs.dropWhile p).reverse).takeWhile p).reverse) := congrArg _ inner
      _ = _ := (List.append_assoc _ _ _).symm

theorem padded_strip (line : Line) : Padded line (strip line) := by
  obtain ⟨before, after, hbefore, hafter, split⟩ := trim_split isspace line
  exact ⟨before, after, hbefore, hafter, split⟩

theorem blank_of_strip (h : strip line = []) : Blank line := by
  obtain ⟨before, after, hbefore, hafter, split⟩ := (padded_strip line).split
  rw [h, List.append_nil] at split
  intro c hc
  rw [split] at hc
  rcases List.mem_append.mp hc with hc | hc
  · exact hbefore c hc
  · exact hafter c hc

theorem lstrip_split (line : Line) : ∃ before, Blank before ∧ line = before ++ lstrip line :=
  ⟨line.takeWhile isspace, takeWhile_all isspace line, List.takeWhile_append_dropWhile.symm⟩

/-- A run of one character. -/
theorem run_eq_replicate (c : Char) (cs : List Char) :
    cs.takeWhile (· == c) = List.replicate (cs.takeWhile (· == c)).length c := by
  apply List.eq_replicate_of_mem
  intro d hd
  exact beq_iff_eq.mp (takeWhile_all _ cs d hd)

theorem indented?_split (h : indented? line = some rest) :
    ∃ n ≤ 3, line = List.replicate n ' ' ++ rest := by
  unfold indented? at h
  split at h
  · next short =>
      cases h
      refine ⟨_, short, ?_⟩
      rw [← run_eq_replicate, List.takeWhile_append_dropWhile]
  · cases h

theorem afterBlanks_split (h : afterBlanks p line = some text) :
    ∃ blanks ≠ [], (∀ c ∈ blanks, p c = true) ∧ line = blanks ++ text := by
  have all := takeWhile_all p line
  have whole : line = line.takeWhile p ++ line.dropWhile p :=
    List.takeWhile_append_dropWhile.symm
  unfold afterBlanks at h
  split at h
  · cases h
  · next a as c rest htake hdrop =>
      cases h
      rw [htake, hdrop] at whole
      rw [htake] at all
      exact ⟨a :: as, List.cons_ne_nil a as, all, whole⟩
  · cases h
  · next a b blanks htake hdrop =>
      cases h
      rw [htake, hdrop, List.append_nil] at whole
      rw [htake] at all
      refine ⟨a :: (b :: blanks).dropLast, List.cons_ne_nil a _, ?_, ?_⟩
      · intro c hc
        apply all
        rcases List.mem_cons.mp hc with rfl | hc
        · exact List.mem_cons_self
        · exact List.mem_cons_of_mem a (List.dropLast_subset _ hc)
      · rw [whole, List.cons_append, List.dropLast_append_getLast]

end Ends

/-! ## Blocks -/

section Blocks

variable {line marker label text rest : List Char} {depth : Nat} {mark : ListMark}

theorem opens_of_fence (h : fence? line = some (marker, rest)) : Opens line marker (strip rest) := by
  unfold fence? at h
  simp only [Option.bind_eq_bind, Option.bind_eq_some_iff] at h
  obtain ⟨inner, hinner, h⟩ := h
  obtain ⟨n, hn, hline⟩ := indented?_split hinner
  cases inner with
  | nil => cases h
  | cons c cs =>
      dsimp only at h
      split at h
      · next found =>
          simp only [Bool.and_eq_true, Bool.or_eq_true, beq_iff_eq, decide_eq_true_eq] at found
          rw [Option.some.injEq, Prod.mk.injEq] at h
          obtain ⟨hmarker, hrest⟩ := h
          refine ⟨⟨n, hn, rest, ?_, padded_strip rest⟩, ⟨marker.length, ?_, ?_⟩⟩
          · rw [hline, ← hmarker, ← hrest, List.takeWhile_append_dropWhile]
          · rw [← hmarker]
            exact found.2
          · have run : marker = List.replicate marker.length c := by
              rw [← hmarker]
              exact run_eq_replicate c _
            rcases found.1 with rfl | rfl
            · exact Or.inl run
            · exact Or.inr run
      · cases h

theorem heads_of_heading {marks : Line} (h : heading? line = some (marks, text)) :
    Heads line marks.length text := by
  unfold heading? at h
  simp only [Option.bind_eq_bind, Option.bind_eq_some_iff] at h
  obtain ⟨inner, hinner, h⟩ := h
  obtain ⟨n, hn, hline⟩ := indented?_split hinner
  split at h
  · next bounds =>
      rw [Option.bind_eq_some_iff] at h
      obtain ⟨found, hfound, h⟩ := h
      cases h
      obtain ⟨blanks, hne, hblanks, hdrop⟩ := afterBlanks_split hfound
      refine ⟨bounds, n, hn, blanks, hne, ?_, ?_⟩
      · intro c hc
        have hc := hblanks c hc
        simp only [Bool.or_eq_true, beq_iff_eq] at hc
        rcases hc with rfl | rfl <;> decide
      · rw [hline, ← run_eq_replicate, ← hdrop, List.takeWhile_append_dropWhile]
  · cases h

theorem written_of_listMark (h : listMark? line = some (mark, rest)) :
    ∃ written, Written mark written ∧ line = written ++ rest := by
  unfold listMark? at h
  split at h
  · next c more =>
      split at h
      · next bullet =>
          cases h
          refine ⟨[c], .bullet ?_, rfl⟩
          simpa [or_assoc] using bullet
      · dsimp only at h
        split at h
        · next d more' hdrop =>
            split at h
            · next number =>
                simp only [Bool.and_eq_true, decide_eq_true_eq, Bool.or_eq_true, beq_iff_eq]
                  at number
                cases h
                have dot : d ∈ ['.', ')'] := by simpa using number.2
                refine ⟨_, .number (takeWhile_all _ _) number.1.1 number.1.2 dot, ?_⟩
                rw [List.append_assoc, List.singleton_append, ← hdrop,
                  List.takeWhile_append_dropWhile]
            · cases h
        · cases h
  · cases h

theorem item_of_listItem (h : listItem? line = some (mark, text)) : Item line mark text := by
  unfold listItem? at h
  simp only [Option.bind_eq_bind, Option.bind_eq_some_iff, Prod.exists] at h
  obtain ⟨inner, hinner, mark', more, hmark, found, hfound, h⟩ := h
  cases h
  obtain ⟨n, hn, hline⟩ := indented?_split hinner
  obtain ⟨written, hwritten, hinner'⟩ := written_of_listMark hmark
  obtain ⟨blanks, hne, hblanks, hmore⟩ := afterBlanks_split hfound
  refine ⟨n, hn, written, hwritten, blanks, hne, hblanks, ?_⟩
  rw [hline, hinner', hmore]

theorem spelled_of_isRule (h : isRule line = true) : Spelled [line] .rule := by
  have padded := padded_strip line
  unfold isRule at h
  simp only [Bool.or_eq_true, beq_iff_eq] at h
  rcases h with (h | h) | h
  · rw [h] at padded
    exact .rule (by decide) padded
  · rw [h] at padded
    exact .rule (by decide) padded
  · rw [h] at padded
    exact .rule (by decide) padded

theorem quotes_of_isQuote (h : isQuote line = true) : Quotes line ((lstrip line).drop 2) := by
  obtain ⟨before, hbefore, split⟩ := lstrip_split line
  unfold isQuote at h
  have mark := beq_iff_eq.mp h
  refine ⟨before, hbefore, ?_⟩
  calc line = before ++ lstrip line := split
    _ = before ++ ((lstrip line).take 2 ++ (lstrip line).drop 2) := by rw [List.take_append_drop]
    _ = before ++ ('>' :: ' ' :: (lstrip line).drop 2) := by rw [mark]; rfl

theorem closes_of_closes (h : closes marker line = true) : Closes line marker := by
  have padded := padded_strip line
  unfold closes at h
  simp only [Bool.and_eq_true, decide_eq_true_eq, bne_iff_ne, List.all_eq_true, beq_iff_eq] at h
  obtain ⟨⟨long, found⟩, same⟩ := h
  cases hstrip : strip line with
  | nil => exact absurd hstrip found
  | cons c cs =>
      rw [hstrip] at padded long same
      have first := same c List.mem_cons_self
      have run : c :: cs = List.replicate (c :: cs).length c := by
        apply List.eq_replicate_of_mem
        intro d hd
        have hd := same d hd
        rw [← first] at hd
        exact Option.some.inj hd
      refine ⟨(c :: cs).length, long, c, List.mem_of_mem_head? first.symm, ?_⟩
      rw [← run]
      exact padded

/-! ## Tables -/

theorem not_mem_splitOn {c : Char} {cs part : List Char} (h : part ∈ cs.splitOn c) : c ∉ part := by
  induction cs generalizing part with
  | nil =>
      rw [List.splitOn_nil, List.mem_singleton] at h
      rw [h]
      exact List.not_mem_nil
  | cons d cs ih =>
      rw [List.splitOn_cons_eq_if_modifyHead] at h
      split at h
      · rcases List.mem_cons.mp h with rfl | h
        · exact List.not_mem_nil
        · exact ih h
      · next other =>
          cases hparts : cs.splitOn c with
          | nil => exact absurd hparts (List.splitOn_ne_nil c cs)
          | cons first more =>
              rw [hparts, List.modifyHead_cons] at h
              rcases List.mem_cons.mp h with rfl | h
              · intro hc
                rcases List.mem_cons.mp hc with rfl | hc
                · exact other (beq_self_eq_true _)
                · exact ih (by rw [hparts]; exact List.mem_cons_self) hc
              · exact ih (by rw [hparts]; exact List.mem_cons_of_mem first h)

theorem mem_intercalate {c d : Char} {parts : List (List Char)}
    (h : c ∈ [d].intercalate parts) : c = d ∨ ∃ part ∈ parts, c ∈ part := by
  induction parts with
  | nil => cases h
  | cons part parts ih =>
      cases parts with
      | nil =>
          rw [List.intercalate_singleton] at h
          exact Or.inr ⟨part, List.mem_cons_self, h⟩
      | cons next more =>
          rw [List.intercalate_cons_cons] at h
          rcases List.mem_append.mp h with h | h
          · rcases List.mem_append.mp h with h | h
            · exact Or.inr ⟨part, List.mem_cons_self, h⟩
            · exact Or.inl (List.mem_singleton.mp h)
          · rcases ih h with h | ⟨other, hother, h⟩
            · exact Or.inl h
            · exact Or.inr ⟨other, List.mem_cons_of_mem part hother, h⟩

theorem row_tableCells (line : Line) : Row line (tableCells line) := by
  obtain ⟨left, right, hleft, hright, split⟩ := trim_split (· == '|') (strip line)
  refine ⟨strip line, left, right, padded_strip line, ?_,
    (stripMark '|' (strip line)).splitOn '|', ?_, ?_⟩
  · intro c hc
    rcases List.mem_append.mp hc with hc | hc
    · exact beq_iff_eq.mp (hleft c hc)
    · exact beq_iff_eq.mp (hright c hc)
  · rw [List.intercalate_splitOn, ← List.append_assoc]
    exact split
  · unfold tableCells
    rw [List.forall₂_map_right_iff, List.forall₂_same]
    intro part hpart
    exact ⟨not_mem_splitOn hpart, padded_strip part⟩

theorem mem_afterColon {cell : Line} {c : Char} (hc : c ∈ cell) : c = ':' ∨ c ∈ afterColon cell := by
  unfold afterColon
  split
  · exact List.mem_cons.mp hc
  · exact Or.inr hc

theorem mem_divider {cell : Line} {c : Char} (h : isDivider cell = true) (hc : c ∈ cell) :
    c ∈ ['-', ':', '|'] := by
  unfold isDivider at h
  simp only [Bool.and_eq_true, Bool.or_eq_true, beq_iff_eq] at h
  have found : c = '-' ∨ c = ':' := by
    rcases mem_afterColon hc with hc | hc
    · exact Or.inr hc
    · rw [← List.takeWhile_append_dropWhile (p := (· == '-')) (l := afterColon cell)] at hc
      rcases List.mem_append.mp hc with hc | hc
      · exact Or.inl (beq_iff_eq.mp (takeWhile_all _ _ c hc))
      · rcases h.2 with tail | tail
        · rw [tail] at hc
          cases hc
        · rw [tail] at hc
          exact Or.inr (List.mem_singleton.mp hc)
  rcases found with rfl | rfl <;> decide

/-- Where all cells divide, nothing else stands in the line. -/
theorem divides_of_dividers {line : Line} (h : (tableCells line).all isDivider = true) :
    Divides line := by
  obtain ⟨before, after, hbefore, hafter, outside⟩ := (padded_strip line).split
  obtain ⟨left, right, hleft, hright, inside⟩ := trim_split (· == '|') (strip line)
  have bar : '|' ∈ ['-', ':', '|'] := by decide
  intro c hc
  rw [outside, List.mem_append, List.mem_append] at hc
  rcases hc with (hc | hc) | hc
  · exact Or.inr (hbefore c hc)
  · rw [inside] at hc
    simp only [List.mem_append] at hc
    rcases hc with (hc | hc) | hc
    · rw [beq_iff_eq.mp (hleft c hc)]
      exact Or.inl bar
    · have parted : c ∈ ['|'].intercalate ((stripMark '|' (strip line)).splitOn '|') := by
        rw [List.intercalate_splitOn]
        exact hc
      rcases mem_intercalate parted with rfl | ⟨part, hpart, hc⟩
      · exact Or.inl bar
      · obtain ⟨first, last, hfirst, hlast, padded⟩ := (padded_strip part).split
        have divider : isDivider (strip part) = true :=
          List.all_eq_true.mp h _ (List.mem_map_of_mem hpart)
        rw [padded, List.mem_append, List.mem_append] at hc
        rcases hc with (hc | hc) | hc
        · exact Or.inr (hfirst c hc)
        · exact Or.inl (mem_divider divider hc)
        · exact Or.inr (hlast c hc)
    · rw [beq_iff_eq.mp (hright c hc)]
      exact Or.inl bar
  · exact Or.inr (hafter c hc)

end Blocks

end AgentsServer.PublicShares

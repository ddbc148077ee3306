import AgentsServer.EventIndex.Places
import AgentsServer.Library.Outcome
import Mathlib.Data.List.TakeWhile
import Mathlib.Data.List.Infix

/-!
# Resuming from the index

Where the complete lines of a log carry rising sequence numbers, a place that is read as an event
is the start of its line, but for blanks in front of a record and for the unfinished last line.
-/

namespace AgentsServer.EventIndex

open Library JsonScan EventLog
open Library.Json (newline)

variable [IntText] {limits : Limits} {log line : Bytes} {seq after : Int} {seqs : List Int}

variable (limits) in
/-- A line holds an event with a sequence number, and the digits that are read from the start of
the line are those of the number. -/
structure Carries (line : Bytes) (seq : Int) : Prop where
  event : ∃ fields value, loads limits (decodeReplace line) = .ok (.obj fields) ∧
    Doc.get fields "seq" = some value ∧ value.int = .ok seq
  digits : ∀ digits, leadingDigits line = some digits →
    digits.length ≤ limits.intDigits ∧ digitsValue digits = seq

variable (limits) in
/-- The complete lines of a log carry rising sequence numbers. -/
structure Rising (log : Bytes) (seqs : List Int) : Prop where
  carried : List.Forall₂ (Carries limits) (complete log) seqs
  rising : seqs.Pairwise (· < ·)

/-! ## What a line carries -/

theorem zero_of_falsy {value : Doc} (hvalue : value.truthy = false)
    (hint : value.int = .ok seq) : seq = 0 := by
  cases value with
  | null => cases hint
  | bool b =>
      cases hint
      change b = false at hvalue
      rw [hvalue]
      rfl
  | num literal =>
      simp only [Doc.truthy] at hvalue
      simp only [Doc.int] at hint
      split at hvalue
      · next n hnumber =>
          simp only [hnumber, Except.ok.injEq] at hint
          simpa [hint] using hvalue
      · next v hnumber =>
          have hzero : v = 0 := by simpa using hvalue
          simp only [hnumber, hzero, lt_irrefl, if_false, Except.ok.injEq] at hint
          exact hint.symm
      · cases hvalue
  | text codes =>
      cases codes with
      | nil =>
          simp only [Doc.int, IntText.empty] at hint
          cases hint
      | cons code codes => cases hvalue
  | arr items => cases hint
  | obj fields => cases hint

theorem Carries.eventSeq (h : Carries limits line seq) : eventSeq? limits line = some seq := by
  obtain ⟨fields, value, hload, hget, hint⟩ := h.event
  rw [eventSeq?, hload]
  simp only [hget, hint]
  cases htruthy : value.truthy with
  | true => rfl
  | false => rw [zero_of_falsy htruthy hint]; rfl

theorem Carries.unique (h : Carries limits line seq) {other : Int}
    (hother : Carries limits line other) : seq = other :=
  Option.some.inj (h.eventSeq.symm.trans hother.eventSeq)

omit [IntText] in
theorem decodeReplace_append {pre suf : Bytes} {b : UInt8} (hb : b.toNat < 0x80) :
    decodeReplace (pre ++ b :: suf) = decodeReplace pre ++ decodeReplace (b :: suf) := by
  rw [decodeReplace, List.map_append, List.map_cons]
  exact Utf8.replace_append (by rintro p ⟨⟩) _ hb _

omit [IntText] in
theorem decodeReplace_cons {b : UInt8} (hb : b.toNat < 0x80) (rest : Bytes) :
    decodeReplace (b :: rest) = Char.ofNat b.toNat :: decodeReplace rest :=
  Utf8.replace_char (Utf8.first_ascii hb)

omit [IntText] in
/-- A character beyond ASCII is no blank and no brace. -/
theorem ofNat_high {code : Nat} (h : 0x80 ≤ code) :
    JsonScan.isSpace (Char.ofNat code) = false ∧ Char.ofNat code ≠ '{' := by
  have hne (c : Char) (hpos : c ≠ '\x00') (hc : c.toNat < 0x80) : Char.ofNat code ≠ c := by
    rintro rfl
    by_cases hvalid : code.isValidChar
    · have hcode : (Char.ofNat code).toNat = code := by
        rw [Char.ofNat, dif_pos hvalid]
        rfl
      omega
    · apply hpos
      rw [Char.ofNat, dif_neg hvalid]
      rfl
  refine ⟨?_, hne '{' (by decide) (by decide)⟩
  simp only [JsonScan.isSpace, Bool.or_eq_false_iff, beq_eq_false_iff_ne]
  exact ⟨⟨⟨hne _ (by decide) (by decide), hne _ (by decide) (by decide)⟩,
    hne _ (by decide) (by decide)⟩, hne _ (by decide) (by decide)⟩

/-- A blank of JSON. -/
def isSpaceByte (b : UInt8) : Bool := b == 32 || b == 9 || b == 10 || b == 13

omit [IntText] in
theorem all_spaces {pre : Bytes} (h : (decodeReplace pre).all JsonScan.isSpace = true) :
    pre.all isSpaceByte = true := by
  induction pre with
  | nil => rfl
  | cons b pre ih =>
      rcases Nat.lt_or_ge b.toNat 0x80 with hb | hb
      · rw [decodeReplace_cons hb, List.all_cons, Bool.and_eq_true] at h
        rw [List.all_cons, ih h.2, Bool.and_true]
        have table : ∀ n < 0x80, JsonScan.isSpace (Char.ofNat n) = true →
            isSpaceByte (UInt8.ofNat n) = true := by decide
        have hspace := table b.toNat hb h.1
        rwa [UInt8.ofNat_toNat] at hspace
      · obtain ⟨code, rest, hcode, hhead⟩ := Utf8.replace_high hb (pre.map .byte)
        have hdecode : decodeReplace (b :: pre) = Char.ofNat code :: rest := hhead
        rw [hdecode, List.all_cons, (ofNat_high hcode).1] at h
        cases h

omit [IntText] in
/-- Where an end of a line is the text of an object, only blanks stand before it. -/
theorem line_end {pre suf : Bytes} {whole : Doc} {fields : List (List Nat × Doc)}
    (hwhole : loads limits (decodeReplace (pre ++ suf)) = .ok whole)
    (hend : loads limits (decodeReplace suf) = .ok (.obj fields)) :
    pre.all isSpaceByte = true := by
  cases suf with
  | nil =>
      have hbrace := loads_brace hend
      cases hbrace
  | cons b suf =>
      rcases Nat.lt_or_ge b.toNat 0x80 with hb | hb
      · rw [decodeReplace_append hb] at hwhole
        exact all_spaces (loads_end hwhole hend)
      · obtain ⟨code, rest, hcode, hhead⟩ := Utf8.replace_high hb (suf.map .byte)
        have hdecode : decodeReplace (b :: suf) = Char.ofNat code :: rest := hhead
        have hbrace := loads_brace hend
        obtain ⟨hspace, hne⟩ := ofNat_high hcode
        rw [hdecode, List.dropWhile_cons_of_neg (by rw [hspace]; decide)] at hbrace
        exact absurd (Option.some.inj hbrace) hne

omit [IntText] in
/-- The text of an object is not blank. -/
theorem not_blank {fields : List (List Nat × Doc)}
    (h : loads limits (decodeReplace line) = .ok (.obj fields)) : line.all isBlank = false := by
  rw [Bool.eq_false_iff]
  intro hblank
  have hbrace := loads_brace h
  have absent : ∀ line : Bytes, line.all isBlank = true → '{' ∉ decodeReplace line := by
    intro line hline
    induction line with
    | nil => exact List.not_mem_nil
    | cons b line ih =>
        rw [List.all_cons, Bool.and_eq_true] at hline
        have table : ∀ n < 256, isBlank (UInt8.ofNat n) = true →
            n < 0x80 ∧ '{' ≠ Char.ofNat n := by decide +kernel
        obtain ⟨hb, hne⟩ := table b.toNat b.toNat_lt (by rw [UInt8.ofNat_toNat]; exact hline.1)
        rw [decodeReplace_cons hb, List.mem_cons, not_or]
        exact ⟨hne, ih hline.2⟩
  have hmem := List.mem_of_mem_head? (Option.mem_def.mpr hbrace)
  exact absent line hblank ((List.dropWhile_sublist _).subset hmem)

theorem Carries.not_blank (h : Carries limits line seq) : line.all isBlank = false := by
  obtain ⟨fields, -, hload, -⟩ := h.event
  exact EventIndex.not_blank hload

theorem Carries.lineNumber (h : Carries limits line seq) :
    lineNumber limits line = .ok (some seq) := by
  rw [EventIndex.lineNumber, if_neg (by rw [h.not_blank]; decide)]
  split
  · next digits hdigits =>
      obtain ⟨hshort, hvalue⟩ := h.digits digits hdigits
      rw [if_pos hshort, hvalue]
  · rw [h.eventSeq]

/-! ## Places that read as events -/

variable (limits) in
/-- A place that reads as an event, but is no start of a line below which all numbers are at most
`after`: it is in the blanks before a record, or in the unfinished line. -/
def Misplaced (log : Bytes) (after : Int) (offset : Nat) : Prop :=
  (∃ before line rest k, complete log = before ++ line :: rest ∧ 0 < k ∧ k < line.length ∧
      offset = before.flatten.length + k ∧ (line.take k).all isSpaceByte = true) ∨
    (complete log).flatten.length < offset ∨
      offset = (complete log).flatten.length ∧
        ∃ line ∈ complete log, ∃ seq, Carries limits line seq ∧ after < seq

variable (limits) in
/-- The start of a line before which all numbers are at most `after`. -/
def LineStart (log : Bytes) (after : Int) (offset : Nat) : Prop :=
  ∃ before, before <+: complete log ∧ offset = before.flatten.length ∧
    ∀ line ∈ before, ∀ seq, Carries limits line seq → seq ≤ after

omit [IntText] in
theorem complete_ne_nil (h : line ∈ complete log) : line ≠ [] := by
  obtain ⟨body, -, rfl⟩ := List.mem_map.mp h
  exact List.append_ne_nil_of_right_ne_nil _ (List.cons_ne_nil _ _)

omit [IntText] in
/-- Two starts of lines at one place are one. -/
theorem prefix_unique {before other : List Bytes} (h : before <+: complete log)
    (hother : other <+: complete log) (hle : before.flatten.length ≤ other.flatten.length) :
    before <+: other := by
  rcases List.prefix_or_prefix_of_prefix h hother with hpre | ⟨more, hmore⟩
  · exact hpre
  · subst hmore
    rw [List.flatten_append, List.length_append] at hle
    cases more with
    | nil =>
        rw [List.append_nil]
    | cons line more =>
        have hmem : line ∈ complete log := h.subset (List.mem_append_right _ List.mem_cons_self)
        have hpos := List.length_pos_iff.mpr (complete_ne_nil hmem)
        rw [List.flatten_cons, List.length_append] at hle
        omega

theorem not_misplaced {offset : Nat} (h : LineStart limits log after offset) :
    ¬ Misplaced limits log after offset := by
  obtain ⟨before, hbefore, rfl, hbelow⟩ := h
  rintro (⟨other, line, rest, k, hlines, hpos, hk, hplace, -⟩ | hlt | ⟨heq, line, hline, seq, hseq, habove⟩)
  · have hother : other <+: complete log := ⟨line :: rest, hlines.symm⟩
    have hnext : other ++ [line] <+: complete log := ⟨rest, by rw [hlines, List.append_assoc]; rfl⟩
    have hlength : (other ++ [line]).flatten.length = other.flatten.length + line.length := by
      rw [List.flatten_append, List.length_append, List.flatten_singleton]
    -- `before` is longer than `other`, so it holds `line`, too
    obtain ⟨more, hmore⟩ := prefix_unique hother hbefore (by omega)
    obtain ⟨less, hless⟩ := prefix_unique hbefore hnext (by omega)
    rw [← hless, List.flatten_append, List.length_append] at hlength
    cases less with
    | nil => simp only [List.flatten_nil, List.length_nil] at hlength; omega
    | cons first less =>
        have hshort : before.length ≤ other.length := by
          have hcount := congrArg List.length hless
          simp only [List.length_append, List.length_cons, List.length_nil] at hcount
          omega
        have hcount := congrArg List.length hmore
        rw [List.length_append] at hcount
        have hnil : more = [] := List.eq_nil_of_length_eq_zero (by omega)
        subst hnil
        rw [List.append_nil] at hmore
        subst hmore
        omega
  · obtain ⟨more, hmore⟩ := hbefore
    rw [← hmore, List.flatten_append, List.length_append] at hlt
    omega
  · obtain ⟨more, hmore⟩ := prefix_unique (List.prefix_refl _) hbefore heq.ge
    obtain rfl : before = complete log :=
      hbefore.eq_of_length_le (by rw [← hmore, List.length_append]; omega)
    exact absurd (hbelow line hline seq hseq) (Int.not_le.mpr habove)

omit [IntText] in
theorem exists_of_forall₂ {α β : Type*} {R : α → β → Prop} {as : List α} {bs : List β}
    (h : List.Forall₂ R as bs) {a : α} (ha : a ∈ as) : ∃ b ∈ bs, R a b := by
  induction h with
  | nil => cases ha
  | cons hfirst hrest ih =>
      rcases List.mem_cons.mp ha with rfl | ha
      · exact ⟨_, List.mem_cons_self, hfirst⟩
      · obtain ⟨b, hb, hab⟩ := ih ha
        exact ⟨b, List.mem_cons_of_mem _ hb, hab⟩

theorem Rising.ordered (h : Rising limits log seqs) :
    (complete log).Pairwise fun a b => ∀ s t, Carries limits a s → Carries limits b t → s < t := by
  obtain ⟨hcarried, hrising⟩ := h
  generalize complete log = lines at hcarried
  induction hcarried with
  | nil => exact List.Pairwise.nil
  | @cons first s rest more hfirst hrest ih =>
      obtain ⟨hbelow, hmore⟩ := List.pairwise_cons.mp hrising
      refine List.pairwise_cons.mpr ⟨?_, ih hmore⟩
      intro line hline a b ha hb
      obtain ⟨t, ht, hcarries⟩ := exists_of_forall₂ hrest hline
      rw [ha.unique hfirst, hb.unique hcarries]
      exact hbelow t ht

theorem Rising.carries (h : Rising limits log seqs) (hline : line ∈ complete log) :
    ∃ seq, Carries limits line seq := by
  obtain ⟨seq, -, hseq⟩ := exists_of_forall₂ h.carried hline
  exact ⟨seq, hseq⟩

theorem lineStart_of_line (h : Rising limits log seqs) {before rest : List Bytes}
    (hlines : complete log = before ++ line :: rest) (hseq : Carries limits line seq)
    (hle : seq ≤ after) : LineStart limits log after before.flatten.length := by
  refine ⟨before, ⟨line :: rest, hlines.symm⟩, rfl, ?_⟩
  intro other hother s hs
  have hordered := h.ordered
  rw [hlines] at hordered
  have hlt := (List.pairwise_append.mp hordered).2.2 other hother line List.mem_cons_self s seq hs hseq
  exact hlt.le.trans hle

omit [IntText] in
theorem readLine_nil : readLine [] = [] := rfl

theorem eventSeq_nil : eventSeq? limits [] = none := rfl

/-- A place that reads as an event of a number is the start of a line, but where it is misplaced. -/
theorem lineStart_iff (h : Rising limits log seqs) {offset : Nat}
    (hread : seqAt limits log offset = some seq) (hle : seq ≤ after) :
    LineStart limits log after offset ↔ ¬ Misplaced limits log after offset := by
  refine ⟨not_misplaced, ?_⟩
  intro hplaced
  have hlt : offset < log.length := by
    by_contra hge
    rw [seqAt, List.drop_eq_nil_of_le (Nat.not_lt.mp hge), readLine_nil, eventSeq_nil] at hread
    cases hread
  rcases place hlt with ⟨before, line, rest, k, hlines, hk, hoffset, hline⟩ | ⟨k, hoffset, -⟩
  · have hmem : line ∈ complete log := by
      rw [hlines]
      exact List.mem_append_right _ List.mem_cons_self
    obtain ⟨s, hs⟩ := h.carries hmem
    rw [seqAt, hline] at hread
    cases k with
    | zero =>
        rw [List.drop_zero, hs.eventSeq] at hread
        cases hread
        rw [hoffset, Nat.add_zero]
        exact lineStart_of_line h hlines hs hle
    | succ k =>
        obtain ⟨fields, value, hload, -⟩ := hs.event
        obtain ⟨found, hfound⟩ : ∃ found,
            loads limits (decodeReplace (line.drop (k + 1))) = .ok (.obj found) := by
          unfold eventSeq? at hread
          split at hread
          · next found hfound => exact ⟨found, hfound⟩
          · cases hread
        have hblank := line_end (by rw [List.take_append_drop]; exact hload) hfound
        exact absurd (.inl ⟨before, line, rest, k + 1, hlines, Nat.succ_pos k, hk, hoffset, hblank⟩)
          hplaced
  · cases k with
    | zero =>
        refine ⟨complete log, List.prefix_refl _, hoffset, ?_⟩
        intro line hline s hs
        by_contra habove
        exact hplaced (.inr (.inr ⟨hoffset, line, hline, s, hs, Int.not_le.mp habove⟩))
    | succ k => exact absurd (.inr (.inl (by omega))) hplaced

/-! ## Replaying from a line -/

theorem replay_below {before : List Bytes} (lines : List Bytes)
    (h : ∀ line ∈ before, ∃ seq, Carries limits line seq ∧ seq ≤ after) :
    replay limits after (before ++ lines) = replay limits after lines := by
  induction before with
  | nil => rfl
  | cons line before ih =>
      obtain ⟨⟨seq, hseq, hle⟩, hrest⟩ := List.forall_mem_cons.mp h
      obtain ⟨fields, value, hload, hget, hint⟩ := hseq.event
      have hnumber : replaySeq (.obj fields) = .ok seq := by
        rw [replaySeq, hget]
        exact hint
      rw [List.cons_append, replay, hload]
      simp only [hnumber, ok_bind, ih hrest, if_pos hle]
      cases replay limits after lines <;> rfl

theorem LineStart.replay (h : Rising limits log seqs) {offset : Nat}
    (hstart : LineStart limits log after offset) :
    replay limits after (rawLines (log.drop offset)) = replay limits after (rawLines log) := by
  obtain ⟨before, hbefore, rfl, hbelow⟩ := hstart
  rw [rawLines_drop hbefore]
  refine (replay_below _ ?_).symm
  intro line hline
  obtain ⟨seq, hseq⟩ := h.carries (hbefore.subset hline)
  exact ⟨seq, hseq, hbelow line hline seq hseq⟩

/-! ## Building the index -/

variable (limits) in
omit [IntText] in
/-- More digits in front of a line than are read as a number. -/
def Overlong (line : Bytes) : Prop :=
  ∃ digits, leadingDigits line = some digits ∧ limits.intDigits < digits.length

omit [IntText] in
theorem leadingDigits_blank (h : line.all isBlank = true) : leadingDigits line = none := by
  have hdrop : line.dropWhile isBlank = [] := List.dropWhile_eq_nil_iff.mpr (List.all_eq_true.mp h)
  rw [leadingDigits, hdrop]
  rfl

theorem Carries.not_overlong (h : Carries limits line seq) : ¬ Overlong limits line := by
  rintro ⟨digits, hdigits, hlong⟩
  have hshort := (h.digits digits hdigits).1
  omega

theorem lineNumber_ok (h : ¬ Overlong limits line) :
    ∃ number, lineNumber limits line = .ok number := by
  unfold lineNumber
  split
  · exact ⟨_, rfl⟩
  split
  · next digits hdigits =>
      have hshort : digits.length ≤ limits.intDigits := by
        by_contra hlong
        exact h ⟨digits, hdigits, Nat.not_le.mp hlong⟩
      exact ⟨_, if_pos hshort⟩
  · exact ⟨_, rfl⟩

theorem lineNumber_overlong (h : Overlong limits line) :
    lineNumber limits line = .error .valueError := by
  obtain ⟨digits, hdigits, hlong⟩ := h
  have hblank : ¬ line.all isBlank = true := by
    intro hblank
    rw [leadingDigits_blank hblank] at hdigits
    cases hdigits
  rw [lineNumber, if_neg hblank, hdigits]
  exact if_neg (Nat.not_le.mpr hlong)

theorem indexed_cons (lastSeq : Int) (offset : Nat) (line : Bytes) (lines : List Bytes) :
    indexed limits lastSeq offset (line :: lines) = (do
      let number ← lineNumber limits line
      match number with
      | none => indexed limits lastSeq (offset + line.length) lines
      | some seq =>
          if seq ≤ lastSeq then indexed limits lastSeq (offset + line.length) lines
          else do
            let rest ← indexed limits seq (offset + line.length) lines
            return if seq % stride = 0 then (seq, (offset : Int)) :: rest else rest) := rfl

/-- The index of lines is built unless one of them has too many digits. -/
theorem indexed_ok {lines : List Bytes} (h : ∀ line ∈ lines, ¬ Overlong limits line) (lastSeq : Int)
    (offset : Nat) : ∃ entries, indexed limits lastSeq offset lines = .ok entries := by
  induction lines generalizing lastSeq offset with
  | nil => exact ⟨[], rfl⟩
  | cons line lines ih =>
      obtain ⟨hline, hrest⟩ := List.forall_mem_cons.mp h
      obtain ⟨number, hnumber⟩ := lineNumber_ok hline
      rw [indexed_cons, hnumber, ok_bind]
      cases number with
      | none => exact ih hrest _ _
      | some seq =>
          simp only
          split
          · exact ih hrest _ _
          · obtain ⟨entries, hentries⟩ := ih hrest seq (offset + line.length)
            rw [hentries]
            exact ⟨_, rfl⟩

theorem indexed_overlong {before : List Bytes}
    (h : ∀ line ∈ before, ∃ seq, Carries limits line seq) (hline : Overlong limits line)
    (lines : List Bytes) (lastSeq : Int) (offset : Nat) :
    indexed limits lastSeq offset (before ++ line :: lines) = .error .valueError := by
  induction before generalizing lastSeq offset with
  | nil => rw [List.nil_append, indexed_cons, lineNumber_overlong hline]; rfl
  | cons first before ih =>
      obtain ⟨⟨seq, hseq⟩, hrest⟩ := List.forall_mem_cons.mp h
      rw [List.cons_append, indexed_cons, hseq.lineNumber, ok_bind]
      simp only
      split
      · exact ih hrest _ _
      · rw [ih hrest]
        rfl

/-- A checkpoint that the builder writes is the start of a line, and its number is above those of
the lines before it. -/
theorem indexed_mem {lines : List Bytes} {lastSeq : Int} {offset : Nat} {entries : List Entry}
    (h : indexed limits lastSeq offset lines = .ok entries) {entry : Entry}
    (hentry : entry ∈ entries) :
    lastSeq < entry.1 ∧ ∃ before line rest, lines = before ++ line :: rest ∧
      entry.2 = ((offset + before.flatten.length : Nat) : Int) ∧
      ∀ other ∈ before, ∀ seq, Carries limits other seq → seq < entry.1 := by
  induction lines generalizing lastSeq offset entries with
  | nil =>
      cases h
      cases hentry
  | cons line lines ih =>
      have later {last : Int} {more : List Entry} (hlast : lastSeq ≤ last)
          (hmore : indexed limits last (offset + line.length) lines = .ok more)
          (hcarried : ∀ seq, Carries limits line seq → seq ≤ last) (hin : entry ∈ more) :
          lastSeq < entry.1 ∧ ∃ before found rest, line :: lines = before ++ found :: rest ∧
            entry.2 = ((offset + before.flatten.length : Nat) : Int) ∧
            ∀ other ∈ before, ∀ seq, Carries limits other seq → seq < entry.1 := by
        obtain ⟨hlt, before, found, rest, hlines, hplace, hbelow⟩ := ih hmore hin
        refine ⟨hlast.trans_lt hlt, line :: before, found, rest, ?_, ?_, ?_⟩
        · rw [hlines, List.cons_append]
        · rw [hplace, List.flatten_cons, List.length_append, Nat.add_assoc]
        · intro other hother seq hseq
          rcases List.mem_cons.mp hother with rfl | hother
          · exact (hcarried seq hseq).trans_lt hlt
          · exact hbelow other hother seq hseq
      rw [indexed_cons] at h
      obtain ⟨number, hnumber, h⟩ := (bind_eq_ok _ _ _).mp h
      have carried {s : Int} (hs : Carries limits line s) : number = some s :=
        Except.ok.inj (hnumber.symm.trans hs.lineNumber)
      cases number with
      | none => exact later le_rfl h (fun s hs => nomatch carried hs) hentry
      | some seq =>
          simp only at h
          split at h
          · next hle =>
              refine later le_rfl h ?_ hentry
              intro s hs
              cases carried hs
              exact hle
          · next hlt =>
              obtain ⟨more, hmore, hentries⟩ := (bind_eq_ok _ _ _).mp h
              rw [pure_eq_ok] at hentries
              have hlast : lastSeq < seq := Int.not_le.mp hlt
              have rest (hin : entry ∈ more) := later hlast.le hmore (by
                intro s hs
                cases carried hs
                exact le_rfl) hin
              subst hentries
              split at hentry
              · rcases List.mem_cons.mp hentry with rfl | hin
                · refine ⟨hlast, [], line, lines, rfl, ?_, List.forall_mem_nil _⟩
                  rw [List.flatten_nil, List.length_nil, Nat.add_zero]
                · exact rest hin
              · exact rest hentry

end AgentsServer.EventIndex

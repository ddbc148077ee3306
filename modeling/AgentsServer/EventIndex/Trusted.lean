import AgentsServer.EventIndex.Resume

/-!
# What a reader may trust

A reader of the index resumes at the start of a line before which there is nothing new for it,
whatever the index file holds, unless reading the index raises, or the checkpoint that it selects
stands in blanks before a record or in the unfinished last line.
-/

namespace AgentsServer.EventIndex

open Library JsonScan EventLog
open Library.Json (newline)

variable [IntText] {limits : Limits} {files : Files} {log : Bytes} {after : Int} {seqs : List Int}
  {size : Nat}

/-! ## Reading the index -/

/-- Checkpoints that rise in both parts from the one before them, within the file. -/
def Ascending (size : Nat) : Entry → List Entry → Prop
  | _, [] => True
  | previous, entry :: entries =>
      previous.1 < entry.1 ∧ previous.2 < entry.2 ∧ entry.2 < size ∧ Ascending size entry entries

/-- The items of an index are read as these checkpoints. -/
def Reads (items : List Doc) (entries : List Entry) : Prop :=
  List.Forall₂ (fun item entry => checkpoint item = .ok entry) items entries

theorem checkpoints_cons_ok {item : Doc} {items : List Doc} {previous entry : Entry}
    (h : checkpoint item = .ok entry) :
    checkpoints size previous (item :: items) =
      if entry.1 ≤ previous.1 ∨ entry.2 ≤ previous.2 ∨ size ≤ entry.2 then .ok none
      else (checkpoints size entry items).map fun rest => rest.map (entry :: ·) := by
  rw [checkpoints, h]

theorem checkpoints_cons_error {item : Doc} {items : List Doc} {previous : Entry} {e : Raised}
    (h : checkpoint item = .error e) :
    checkpoints size previous (item :: items) = if isCaught e then .ok none else .error e := by
  rw [checkpoints, h]

theorem checkpoints_some {items : List Doc} {previous : Entry} {entries : List Entry} :
    checkpoints size previous items = .ok (some entries) ↔
      Reads items entries ∧ Ascending size previous entries := by
  induction items generalizing previous entries with
  | nil =>
      constructor
      · rintro ⟨⟩
        exact ⟨.nil, trivial⟩
      · rintro ⟨⟨⟩, -⟩
        rfl
  | cons item items ih =>
      cases hitem : checkpoint item with
      | error e =>
          rw [checkpoints_cons_error hitem]
          constructor
          · intro h
            split at h
            · cases h
            · cases h
          · rintro ⟨hreads, -⟩
            cases hreads with
            | cons hfirst _ =>
                rw [hitem] at hfirst
                cases hfirst
      | ok entry =>
          rw [checkpoints_cons_ok hitem]
          constructor
          · intro h
            split at h
            · cases h
            · next hrise =>
                obtain ⟨rest, hrest, hentries⟩ := map_eq_ok.mp h
                obtain ⟨more, rfl, rfl⟩ := Option.map_eq_some_iff.mp hentries
                obtain ⟨hreads, hascending⟩ := ih.mp hrest
                simp only [not_or, Int.not_le] at hrise
                exact ⟨.cons hitem hreads, hrise.1, hrise.2.1, hrise.2.2, hascending⟩
          · rintro ⟨hreads, hascending⟩
            cases hreads with
            | @cons _ first _ more hfirst hmore =>
                rw [hitem] at hfirst
                cases hfirst
                obtain ⟨hseq, hoffset, hsize, hrest⟩ := hascending
                have hrise : ¬ (entry.1 ≤ previous.1 ∨ entry.2 ≤ previous.2 ∨ size ≤ entry.2) := by
                  omega
                rw [if_neg hrise, ih.mpr ⟨hmore, hrest⟩]
                rfl

/-- Reading raises at an item that comes after ascending checkpoints. -/
theorem checkpoints_error {items : List Doc} {previous : Entry} :
    (∃ e, checkpoints size previous items = .error e) ↔
      ∃ good bad rest entries e, items = good ++ bad :: rest ∧ Reads good entries ∧
        Ascending size previous entries ∧ checkpoint bad = .error e ∧ isCaught e = false := by
  induction items generalizing previous with
  | nil =>
      constructor
      · rintro ⟨e, ⟨⟩⟩
      · rintro ⟨good, bad, rest, entries, e, hitems, -⟩
        cases good <;> cases hitems
  | cons item items ih =>
      cases hitem : checkpoint item with
      | error e =>
          rw [checkpoints_cons_error hitem]
          constructor
          · rintro ⟨raised, h⟩
            split at h
            · cases h
            · next huncaught =>
                exact ⟨[], item, items, [], e, rfl, .nil, trivial, hitem,
                  Bool.eq_false_iff.mpr huncaught⟩
          · rintro ⟨good, bad, rest, entries, raised, hitems, hreads, -, hbad, huncaught⟩
            cases hreads with
            | nil =>
                cases hitems
                rw [hitem] at hbad
                cases hbad
                exact ⟨e, if_neg (by rw [huncaught]; decide)⟩
            | cons hfirst _ =>
                cases hitems
                rw [hitem] at hfirst
                cases hfirst
      | ok entry =>
          rw [checkpoints_cons_ok hitem]
          constructor
          · rintro ⟨raised, h⟩
            split at h
            · cases h
            · next hrise =>
                simp only [not_or, Int.not_le] at hrise
                cases hrest : checkpoints size entry items with
                | ok value =>
                    rw [hrest] at h
                    cases h
                | error e =>
                    obtain ⟨good, bad, rest, entries, e, rfl, hreads, hascending, hbad, huncaught⟩ :=
                      ih.mp ⟨e, hrest⟩
                    exact ⟨item :: good, bad, rest, entry :: entries, e, rfl, .cons hitem hreads,
                      ⟨hrise.1, hrise.2.1, hrise.2.2, hascending⟩, hbad, huncaught⟩
          · rintro ⟨good, bad, rest, entries, e, hitems, hreads, hascending, hbad, huncaught⟩
            cases hreads with
            | nil =>
                cases hitems
                rw [hitem] at hbad
                cases hbad
            | cons hfirst hmore =>
                cases hitems
                rw [hitem] at hfirst
                cases hfirst
                obtain ⟨hseq, hoffset, hsize, hrest⟩ := hascending
                have hrise : ¬ (entry.1 ≤ previous.1 ∨ entry.2 ≤ previous.2 ∨ size ≤ entry.2) := by
                  omega
                obtain ⟨raised, hraised⟩ :=
                  ih.mpr ⟨_, bad, rest, _, e, rfl, hmore, hrest, hbad, huncaught⟩
                exact ⟨raised, by rw [if_neg hrise, hraised]; rfl⟩

variable (limits) in
/-- The index file is an index of this file, with these checkpoints. -/
def Indexes (files : Files) (entries : List Entry) : Prop :=
  ∃ raw doc items, files.index = some raw ∧ loadsBytes limits raw = .ok doc ∧
    indexItems files.inode doc = some items ∧ Reads items entries ∧
    Ascending files.log.length (0, -1) entries

variable (limits) in
/-- The index file nests too deeply, or is an index of this file with an item that is reached and
is an object, or holds an infinite number. -/
def Unreadable (files : Files) : Prop :=
  ∃ raw, files.index = some raw ∧
    (loadsBytes limits raw = .error .recursionError ∨
      ∃ doc good bad rest entries e, loadsBytes limits raw = .ok doc ∧
        indexItems files.inode doc = some (good ++ bad :: rest) ∧ Reads good entries ∧
        Ascending files.log.length (0, -1) entries ∧ checkpoint bad = .error e ∧
        isCaught e = false)

theorem readEventIndex_some {entries : List Entry} :
    readEventIndex limits files = .ok (some entries) ↔ Indexes limits files entries := by
  unfold readEventIndex Indexes
  cases files.index with
  | none =>
      constructor
      · rintro ⟨⟩
      · rintro ⟨raw, doc, items, ⟨⟩, -⟩
  | some raw =>
      cases hload : loadsBytes limits raw with
      | error e =>
          constructor
          · intro h
            cases e with
            | valueError => simp only [hload] at h; cases h
            | recursionError => simp only [hload] at h; cases h
          · rintro ⟨raw, doc, items, ⟨⟩, hdoc, -⟩
            rw [hload] at hdoc
            cases hdoc
      | ok doc =>
          cases hitems : indexItems files.inode doc with
          | none =>
              constructor
              · intro h
                simp only [hload, hitems] at h
                cases h
              · rintro ⟨raw, other, items, ⟨⟩, hdoc, hother, -⟩
                rw [hload] at hdoc
                cases hdoc
                rw [hitems] at hother
                cases hother
          | some items =>
              constructor
              · intro h
                simp only [hload, hitems] at h
                obtain ⟨hreads, hascending⟩ := checkpoints_some.mp h
                exact ⟨raw, doc, items, rfl, hload, hitems, hreads, hascending⟩
              · rintro ⟨raw, other, found, ⟨⟩, hdoc, hother, hreads, hascending⟩
                rw [hload] at hdoc
                cases hdoc
                rw [hitems] at hother
                cases hother
                simp only [hload, hitems]
                exact checkpoints_some.mpr ⟨hreads, hascending⟩

theorem readEventIndex_error :
    (∃ e, readEventIndex limits files = .error e) ↔ Unreadable limits files := by
  unfold readEventIndex Unreadable
  cases files.index with
  | none =>
      constructor
      · rintro ⟨e, ⟨⟩⟩
      · rintro ⟨raw, ⟨⟩, -⟩
  | some raw =>
      cases hload : loadsBytes limits raw with
      | error fault =>
          cases fault with
          | valueError =>
              constructor
              · rintro ⟨e, h⟩
                simp only [hload] at h
                cases h
              · rintro ⟨raw, ⟨⟩, hdeep | ⟨doc, good, bad, rest, entries, e, hdoc, -⟩⟩
                · rw [hload] at hdeep
                  cases hdeep
                · rw [hload] at hdoc
                  cases hdoc
          | recursionError =>
              constructor
              · rintro -
                exact ⟨raw, rfl, .inl hload⟩
              · rintro -
                exact ⟨.recursionError, by simp only [hload]⟩
      | ok doc =>
          constructor
          · rintro ⟨e, h⟩
            cases hitems : indexItems files.inode doc with
            | none =>
                simp only [hload, hitems] at h
                cases h
            | some items =>
                simp only [hload, hitems] at h
                obtain ⟨good, bad, rest, entries, e, rfl, hreads, hascending, hbad, huncaught⟩ :=
                  checkpoints_error.mp ⟨e, h⟩
                exact ⟨raw, rfl, .inr ⟨doc, good, bad, rest, entries, e, hload, hitems, hreads,
                  hascending, hbad, huncaught⟩⟩
          · rintro ⟨raw, ⟨⟩, hdeep | ⟨other, good, bad, rest, entries, e, hdoc, hitems, hbad⟩⟩
            · rw [hload] at hdeep
              cases hdeep
            · rw [hload] at hdoc
              cases hdoc
              simp only [hload, hitems]
              exact checkpoints_error.mpr ⟨good, bad, rest, entries, e, rfl, hbad⟩

/-! ## Resuming -/

omit [IntText] in
theorem candidate_some {entries : List Entry} {entry : Entry}
    (h : candidate entries after = some entry) : entry ∈ entries ∧ entry.1 ≤ after := by
  have hmem := List.mem_of_getLast? h
  have hle : decide (entry.1 ≤ after) = true :=
    List.mem_takeWhile_imp (p := fun entry : Entry => decide (entry.1 ≤ after)) hmem
  exact ⟨(List.takeWhile_sublist _).subset hmem, of_decide_eq_true hle⟩

variable (limits) in
/-- What a reader above `after` may resume at: the start of the file, or of a line before which
all numbers are at most `after`. It finds the events that are found from the start. -/
structure Resumes (log : Bytes) (after : Int) (offset : Nat) : Prop where
  place : offset = 0 ∨ LineStart limits log after offset
  replay : replay limits after (rawLines (log.drop offset)) = replay limits after (rawLines log)

theorem resumes_iff (h : Rising limits log seqs) {offset : Nat} :
    Resumes limits log after offset ↔ LineStart limits log after offset := by
  have start : LineStart limits log after 0 :=
    ⟨[], List.nil_prefix, rfl, List.forall_mem_nil _⟩
  constructor
  · intro hresumes
    rcases hresumes.place with rfl | hstart
    · exact start
    · exact hstart
  · exact fun hstart => ⟨.inr hstart, hstart.replay h⟩

theorem attempt_some {entries : List Entry} {offset : Nat}
    (h : attempt limits log entries after = some offset) :
    (candidate entries after = none ∧ offset = 0) ∨
      ∃ entry, candidate entries after = some entry ∧ offset = entry.2.toNat ∧
        seqAt limits log entry.2.toNat = some entry.1 := by
  unfold attempt at h
  split at h
  · next hnone =>
      cases h
      exact .inl ⟨hnone, rfl⟩
  · next seq place hsome =>
      split at h
      · next hread =>
          cases h
          exact .inr ⟨(seq, place), hsome, rfl, hread⟩
      · cases h

theorem attempt_none {entries : List Entry} (h : attempt limits log entries after = none) :
    ∃ entry, candidate entries after = some entry ∧
      seqAt limits log entry.2.toNat ≠ some entry.1 := by
  unfold attempt at h
  split at h
  · cases h
  · next seq place hsome =>
      split at h
      · cases h
      · next hread => exact ⟨(seq, place), hsome, hread⟩

/-- A checkpoint that was just built is the start of a line. -/
theorem built_lineStart {entries : List Entry} (h : indexed limits 0 0 (rawLines log) = .ok entries) :
    LineStart limits log after ((attempt limits log entries after).getD 0) := by
  have start : LineStart limits log after 0 :=
    ⟨[], List.nil_prefix, rfl, List.forall_mem_nil _⟩
  cases hattempt : attempt limits log entries after with
  | none => exact start
  | some offset =>
      rcases attempt_some hattempt with ⟨-, rfl⟩ | ⟨entry, hcandidate, rfl, -⟩
      · exact start
      obtain ⟨hentry, hle⟩ := candidate_some hcandidate
      obtain ⟨-, before, line, rest, hlines, hplace, hbelow⟩ := indexed_mem h hentry
      have hbefore : before <+: complete log := by
        have hleft : before <+: rawLines log := ⟨line :: rest, hlines.symm⟩
        have hright : complete log <+: rawLines log := ⟨_, (rawLines_eq log).symm⟩
        apply List.prefix_of_prefix_length_le hleft hright
        have hcount := congrArg List.length hlines
        rw [rawLines_eq, List.length_append, List.length_append, List.length_cons] at hcount
        split at hcount
        · simp only [List.length_nil] at hcount
          omega
        · simp only [List.length_singleton] at hcount
          omega
      refine ⟨before, hbefore, ?_, ?_⟩
      · rw [Option.getD_some, hplace, Nat.zero_add, Int.toNat_natCast]
      · intro other hother seq hseq
        exact (hbelow other hother seq hseq).le.trans hle

omit [IntText] in
theorem overlong_nil : ¬ Overlong limits [] := by
  rintro ⟨digits, hdigits, -⟩
  cases hdigits

theorem built (h : Rising limits files.log seqs) (written : Bool)
    (hshort : ¬ Overlong limits (unfinished files.log)) :
    ∃ entries, indexed limits 0 0 (rawLines files.log) = .ok entries ∧
      rebuildEventIndex limits files written = .ok (entries, writeEventIndex files entries written) := by
  have hlines : ∀ line ∈ rawLines files.log, ¬ Overlong limits line := by
    intro line hline
    rw [rawLines_eq] at hline
    rcases List.mem_append.mp hline with hcomplete | htail
    · obtain ⟨seq, hseq⟩ := h.carries hcomplete
      exact hseq.not_overlong
    · split at htail
      · cases htail
      · rwa [List.mem_singleton.mp htail]
  obtain ⟨entries, hentries⟩ := indexed_ok hlines 0 0
  refine ⟨entries, hentries, ?_⟩
  rw [rebuildEventIndex, hentries]
  rfl

theorem not_built (h : Rising limits files.log seqs) (written : Bool)
    (hlong : Overlong limits (unfinished files.log)) :
    rebuildEventIndex limits files written = .error .valueError := by
  have hnil : unfinished files.log ≠ [] := by
    intro hnil
    rw [hnil] at hlong
    exact overlong_nil hlong
  rw [rebuildEventIndex, rawLines_eq, if_neg hnil,
    indexed_overlong (fun line hline => h.carries hline) hlong]
  rfl

variable (limits) in
/-- Reading the index raises nothing; the selected checkpoint, where it is read as its event, is
not misplaced; and where an index must be built, the unfinished line has few enough digits. -/
structure Usable (files : Files) (after : Int) : Prop where
  readable : ¬ Unreadable limits files
  placed : ∀ entries, Indexes limits files entries → ∀ entry, candidate entries after = some entry →
    seqAt limits files.log entry.2.toNat = some entry.1 →
    ¬ Misplaced limits files.log after entry.2.toNat
  stale : ∀ entries, Indexes limits files entries → ∀ entry, candidate entries after = some entry →
    seqAt limits files.log entry.2.toNat ≠ some entry.1 → ¬ Overlong limits (unfinished files.log)
  missing : (∀ entries, ¬ Indexes limits files entries) → minFileBytes ≤ files.log.length →
    ¬ Overlong limits (unfinished files.log)

variable (limits) in
/-- The call returns a place where the reader may resume. -/
def Returns (files : Files) (after : Int) (written : Bool) : Prop :=
  ∃ offset left, eventIndexResumeOffset limits files after written = .ok (offset, left) ∧
    Resumes limits files.log after offset

/-- Where an index is built, the call returns unless that raises. -/
theorem returns_built (h : Rising limits files.log seqs) (written : Bool)
    (hresume : eventIndexResumeOffset limits files after written = (do
      let (entries, files) ← rebuildEventIndex limits files written
      return ((attempt limits files.log entries after).getD 0, files))) :
    Returns limits files after written ↔ ¬ Overlong limits (unfinished files.log) := by
  constructor
  · rintro ⟨offset, left, hreturn, -⟩ hlong
    rw [hresume, not_built h written hlong] at hreturn
    cases hreturn
  · intro hshort
    obtain ⟨entries, hentries, hbuilt⟩ := built h written hshort
    have hlog : (writeEventIndex files entries written).log = files.log := by
      unfold writeEventIndex
      split
      · rfl
      · rfl
    refine ⟨_, _, by rw [hresume, hbuilt]; rfl, ?_⟩
    rw [hlog, resumes_iff h]
    exact built_lineStart hentries

/-- A call returns a place where its reader may resume if and only if it is for all events, or the
index is usable. -/
theorem resume_offset_iff (h : Rising limits files.log seqs) (after : Int) (written : Bool) :
    Returns limits files after written ↔ after ≤ 0 ∨ Usable limits files after := by
  have start : LineStart limits files.log after 0 :=
    ⟨[], List.nil_prefix, rfl, List.forall_mem_nil _⟩
  by_cases hafter : after ≤ 0
  · have hreturn : eventIndexResumeOffset limits files after written = .ok (0, files) := by
      rw [eventIndexResumeOffset, if_pos hafter]
      rfl
    exact iff_of_true ⟨0, files, hreturn, (resumes_iff h).mpr start⟩ (.inl hafter)
  rw [or_iff_right hafter]
  cases hread : readEventIndex limits files with
  | error e =>
      have hunreadable : Unreadable limits files := readEventIndex_error.mp ⟨e, hread⟩
      apply iff_of_false
      · rintro ⟨offset, left, hreturn, -⟩
        rw [eventIndexResumeOffset, if_neg hafter, hread] at hreturn
        cases hreturn
      · exact fun usable => usable.readable hunreadable
  | ok found =>
  have hreadable : ¬ Unreadable limits files := by
    intro hunreadable
    obtain ⟨e, he⟩ := readEventIndex_error.mpr hunreadable
    rw [hread] at he
    cases he
  cases found with
  | none =>
      have hmissing : ∀ entries, ¬ Indexes limits files entries := by
        intro entries hindex
        have hsome := readEventIndex_some.mpr hindex
        rw [hread] at hsome
        cases hsome
      have usable (hshort : minFileBytes ≤ files.log.length →
          ¬ Overlong limits (unfinished files.log)) : Usable limits files after :=
        ⟨hreadable, fun entries hindex => absurd hindex (hmissing entries),
          fun entries hindex => absurd hindex (hmissing entries), fun _ => hshort⟩
      by_cases hsmall : files.log.length < minFileBytes
      · have hreturn : eventIndexResumeOffset limits files after written = .ok (0, files) := by
          rw [eventIndexResumeOffset, if_neg hafter, hread, ok_bind]
          exact if_pos hsmall
        apply iff_of_true
        · exact ⟨0, files, hreturn, (resumes_iff h).mpr start⟩
        · exact usable fun hlarge => absurd hsmall (Nat.not_lt.mpr hlarge)
      · have hbuild := @returns_built _ _ _ after _ h written (by
          rw [eventIndexResumeOffset, if_neg hafter, hread, ok_bind]
          exact if_neg hsmall)
        rw [hbuild]
        constructor
        · exact fun hshort => usable fun _ => hshort
        · exact fun use => use.missing hmissing (Nat.not_lt.mp hsmall)
  | some entries =>
      have hindex : Indexes limits files entries := readEventIndex_some.mp hread
      have unique {other : List Entry} (hother : Indexes limits files other) : other = entries := by
        have hsome := readEventIndex_some.mpr hother
        rw [hread] at hsome
        cases hsome
        rfl
      cases hattempt : attempt limits files.log entries after with
      | none =>
          obtain ⟨entry, hcandidate, hstale⟩ := attempt_none hattempt
          have hbuild := @returns_built _ _ _ after _ h written (by
            rw [eventIndexResumeOffset, if_neg hafter, hread, ok_bind]
            simp only [hattempt])
          rw [hbuild]
          constructor
          · intro hshort
            refine ⟨hreadable, ?_, fun _ _ _ _ _ => hshort, fun none => absurd hindex (none entries)⟩
            intro other hother found hfound hreads
            cases unique hother
            cases hcandidate.symm.trans hfound
            exact absurd hreads hstale
          · exact fun usable => usable.stale entries hindex entry hcandidate hstale
      | some offset =>
          have hreturn : eventIndexResumeOffset limits files after written = .ok (offset, files) := by
            rw [eventIndexResumeOffset, if_neg hafter, hread, ok_bind]
            simp only [hattempt]
            rfl
          have hreturns : Returns limits files after written ↔
              LineStart limits files.log after offset := by
            rw [← resumes_iff h]
            constructor
            · rintro ⟨other, left, hother, hresumes⟩
              rw [hreturn] at hother
              cases hother
              exact hresumes
            · exact fun hresumes => ⟨offset, files, hreturn, hresumes⟩
          rw [hreturns]
          rcases attempt_some hattempt with ⟨hnone, rfl⟩ | ⟨entry, hcandidate, rfl, hseq⟩
          · refine iff_of_true start ⟨hreadable, ?_, ?_, fun none => absurd hindex (none entries)⟩
            · intro other hother found hfound
              cases unique hother
              cases hnone.symm.trans hfound
            · intro other hother found hfound
              cases unique hother
              cases hnone.symm.trans hfound
          · rw [lineStart_iff h hseq (candidate_some hcandidate).2]
            constructor
            · intro hplaced
              refine ⟨hreadable, ?_, ?_, fun none => absurd hindex (none entries)⟩
              · intro other hother found hfound hreads
                cases unique hother
                cases hcandidate.symm.trans hfound
                exact hplaced
              · intro other hother found hfound hstale
                cases unique hother
                cases hcandidate.symm.trans hfound
                exact absurd hseq hstale
            · exact fun usable => usable.placed entries hindex entry hcandidate hseq

/-! ## An object among the checkpoints -/

/-- No text is an integer. -/
@[reducible] def noIntegers : IntText where
  int? := fun _ => none
  empty := rfl

def someLine : Bytes := utf8 "\x7b\"seq\":1\x7d\n".toList

/-- An index of a file of one event. -/
def someFiles (entries : String) : Files where
  inode := 7
  log := someLine
  index := some (utf8 ("\x7b\"version\":1,\"inode\":7,\"entries\":" ++ entries ++ "\x7d").toList)

def someLimits : Limits := ⟨1000, 4300⟩

omit [IntText] in
theorem someLine_rising : @Rising noIntegers someLimits someLine [1] := by
  let _ := noIntegers
  have hlines : complete someLine = [someLine] := by decide
  refine ⟨?_, List.pairwise_singleton _ _⟩
  rw [hlines]
  refine .cons ⟨⟨_, .num ['1'], rfl, rfl, rfl⟩, ?_⟩ .nil
  have hdigits : leadingDigits someLine = some [49] := by decide
  intro digits h
  rw [hdigits] at h
  cases h
  exact ⟨by decide, by decide⟩

omit [IntText] in
theorem returns_without_index :
    @Returns noIntegers someLimits ⟨7, someLine, none⟩ 5 true := by
  let _ := noIntegers
  apply (@resume_offset_iff _ someLimits ⟨7, someLine, none⟩ _ someLine_rising 5 true).mpr
  refine .inr ⟨?_, ?_, ?_, ?_⟩
  · rintro ⟨raw, ⟨⟩, -⟩
  · rintro entries ⟨raw, doc, items, ⟨⟩, -⟩
  · rintro entries ⟨raw, doc, items, ⟨⟩, -⟩
  · intro _ hlarge
    have hsmall : someLine.length = 10 := by decide
    change minFileBytes ≤ someLine.length at hlarge
    rw [hsmall] at hlarge
    exact absurd hlarge (by decide)

omit [IntText] in
theorem object_among_checkpoints :
    ¬ ∀ [IntText] (files : Files) (seqs : List Int) (after : Int) (written : Bool),
      Rising someLimits files.log seqs → Returns someLimits files after written := by
  intro h
  obtain ⟨offset, left, hreturn, -⟩ :=
    @h noIntegers (someFiles "[\x7b\x7d]") [1] 1 true someLine_rising
  have hraised : @eventIndexResumeOffset noIntegers someLimits (someFiles "[\x7b\x7d]") 1 true =
      .error .keyError := by rfl
  rw [hraised] at hreturn
  cases hreturn

end AgentsServer.EventIndex

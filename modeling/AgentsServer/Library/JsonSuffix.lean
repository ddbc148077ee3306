import AgentsServer.Library.JsonScan
import Mathlib.Data.List.Basic

/-!
# An end of a JSON text

A JSON text that is read from a place behind its first character is no object: from inside
a text, quotes open where they closed, and from between the characters of a container, its
closing bracket has nothing to close.
-/

namespace AgentsServer.Library.JsonScan

variable {limits : Limits} {stack base : List Frame} {mode : Mode} {s t u : Scanner} {c : Char}
  {text rest : List Char}

theorem scan_cons (h : scan limits s (c :: rest) = .ok ()) :
    ∃ t, step limits s c = .ok t ∧ scan limits t rest = .ok () := by
  rw [scan] at h
  split at h
  · next t ht => exact ⟨t, ht, h⟩
  · cases h

/-- The scanner between two parts of a text. -/
theorem scan_append {pre : List Char} (h : scan limits s (pre ++ rest) = .ok ()) :
    ∃ t, pre.foldlM (step limits) s = .ok t ∧ scan limits t rest = .ok () := by
  induction pre generalizing s with
  | nil => exact ⟨s, rfl, h⟩
  | cons c pre ih =>
      obtain ⟨u, hu, hrest⟩ := scan_cons h
      obtain ⟨t, ht, hscan⟩ := ih hrest
      refine ⟨t, ?_, hscan⟩
      rw [List.foldlM_cons, hu]
      exact ht

/-! ## Inside a container -/

/-- `right` goes where `left` goes, with more brackets open below, or gives up. -/
def Above (base : List Frame) (left right : Except Fault Scanner) : Prop :=
  ∀ t, left = .ok t → right = .ok ⟨t.stack ++ base, t.mode⟩ ∨ ∃ e, right = .error e

theorem above_refused {right : Except Fault Scanner} {e : Fault} : Above base (.error e) right := by
  rintro t ⟨⟩

theorem above_ok : Above base (.ok ⟨stack, mode⟩) (.ok ⟨stack ++ base, mode⟩) := by
  rintro t ⟨⟩
  exact .inl rfl

theorem above_ite {p : Prop} [Decidable p] {a b c d : Except Fault Scanner} (hthen : Above base a b)
    (helse : Above base c d) : Above base (if p then a else c) (if p then b else d) := by
  by_cases h : p
  · rwa [if_pos h, if_pos h]
  · rwa [if_neg h, if_neg h]

theorem above_leave : Above base (leave stack) (leave (stack ++ base)) := by
  cases stack with
  | nil => exact above_refused
  | cons frame stack => exact above_ok

theorem above_enter (frame : Frame) :
    Above base (enter limits stack frame) (enter limits (stack ++ base) frame) := by
  intro t ht
  unfold enter at ht ⊢
  split at ht
  · split
    · cases ht
      exact .inl rfl
    · exact .inr ⟨_, rfl⟩
  · cases ht

theorem above_beginValue :
    Above base (beginValue limits stack c) (beginValue limits (stack ++ base) c) := by
  unfold beginValue
  repeat' apply above_ite
  all_goals first | exact above_enter _ | exact above_ok | exact above_refused

theorem above_afterValue : Above base (afterValue stack c) (afterValue (stack ++ base) c) := by
  cases stack with
  | nil =>
      exact above_ite above_ok above_refused
  | cons frame stack =>
      cases frame <;> simp only [afterValue, List.cons_append] <;> repeat' apply above_ite
      all_goals first | exact above_leave | exact above_ok | exact above_refused

theorem above_step :
    Above base (step limits ⟨stack, mode⟩ c) (step limits ⟨stack ++ base, mode⟩ c) := by
  cases mode <;> simp only [step]
  all_goals
    repeat'
      first
      | exact above_ok
      | exact above_refused
      | exact above_leave
      | exact above_beginValue
      | exact above_afterValue
      | apply above_ite

/-- A text that is complete is not complete inside a container. -/
theorem not_complete_inside (hbase : base ≠ []) (h : scan limits s text = .ok ()) :
    scan limits ⟨s.stack ++ base, s.mode⟩ text ≠ .ok () := by
  intro hinside
  induction text generalizing s with
  | nil =>
      rw [scan] at hinside
      have hopen : (s.stack ++ base).isEmpty = false := by
        rw [List.isEmpty_eq_false_iff]
        exact List.append_ne_nil_of_right_ne_nil _ hbase
      simp [Scanner.complete, hopen] at hinside
  | cons c text ih =>
      obtain ⟨t, ht, hrest⟩ := scan_cons h
      obtain ⟨u, hu, hinner⟩ := scan_cons hinside
      rcases above_step t ht with hstep | ⟨e, hstep⟩
      · rw [hu] at hstep
        cases hstep
        exact ih hrest hinner
      · rw [hu] at hstep
        cases hstep

/-! ## Inside a text -/

/-- A mode between texts. The words that it waits for have no quotes. -/
def Outside : Mode → Bool
  | .text _ | .escape _ | .unicode _ _ => false
  | .word rest => rest.all fun c => c != '"' && c != '\\'
  | _ => true

/-- A character that is read between texts: a quote opens one, and a backslash is refused. -/
structure Between (c : Char) (result : Except Fault Scanner) : Prop where
  quote : ∀ t, result = .ok t → c = '"' → ∃ isName, t.mode = .text isName
  other : ∀ t, result = .ok t → c ≠ '"' → Outside t.mode = true
  escape : ∀ t, result = .ok t → c ≠ '\\'

theorem between_refused {e : Fault} : Between c (.error e) where
  quote := by rintro t ⟨⟩
  other := by rintro t ⟨⟩
  escape := by rintro t ⟨⟩

theorem between_ok (hmode : Outside mode = true) (hquote : c ≠ '"') (hescape : c ≠ '\\') :
    Between c (.ok ⟨stack, mode⟩) where
  quote := fun _ _ h => absurd h hquote
  other := by
    rintro _ ⟨⟩ _
    exact hmode
  escape := fun _ _ => hescape

theorem between_text (isName : Bool) : Between '"' (.ok ⟨stack, .text isName⟩) where
  quote := by
    rintro _ ⟨⟩ _
    exact ⟨isName, rfl⟩
  other := fun _ _ h => absurd rfl h
  escape := fun _ _ => by decide

theorem between_leave (hquote : c ≠ '"') (hescape : c ≠ '\\') : Between c (leave stack) := by
  cases stack with
  | nil => exact between_refused
  | cons frame stack => exact between_ok rfl hquote hescape

theorem between_enter (frame : Frame) (hquote : c ≠ '"') (hescape : c ≠ '\\') :
    Between c (enter limits stack frame) := by
  unfold enter
  split
  · cases frame <;> exact between_ok rfl hquote hescape
  · exact between_refused

theorem space_plain (h : isSpace c = true) : c ≠ '"' ∧ c ≠ '\\' := by
  constructor <;> (rintro rfl; revert h; decide)

theorem digit_plain (h : c.isDigit = true) : c ≠ '"' ∧ c ≠ '\\' := by
  constructor <;> (rintro rfl; revert h; decide)

theorem between_afterValue : Between c (afterValue stack c) := by
  unfold afterValue
  split
  · next h => exact between_ok rfl (space_plain h).1 (space_plain h).2
  split
  · exact between_refused
  all_goals
    split
    · next h =>
        subst h
        exact between_ok rfl (by decide) (by decide)
    split
    · next h =>
        subst h
        exact between_leave (by decide) (by decide)
    · exact between_refused

theorem between_beginValue : Between c (beginValue limits stack c) := by
  unfold beginValue
  split
  · next h =>
      subst h
      exact between_enter _ (by decide) (by decide)
  split
  · next h =>
      subst h
      exact between_enter _ (by decide) (by decide)
  split
  · next h =>
      subst h
      exact between_text false
  iterate 7
    split
    · next h =>
        subst h
        exact between_ok (by decide) (by decide) (by decide)
  split
  · next h => exact between_ok rfl (digit_plain h).1 (digit_plain h).2
  · exact between_refused

theorem between_word (hmode : Outside (.word (c :: rest)) = true) :
    Between c (.ok ⟨stack, if rest = [] then .done else .word rest⟩) := by
  rw [Outside, List.all_cons, Bool.and_eq_true, Bool.and_eq_true, bne_iff_ne, bne_iff_ne] at hmode
  refine between_ok ?_ hmode.1.1 hmode.1.2
  split
  · rfl
  · exact hmode.2

theorem between_step (hmode : Outside mode = true) : Between c (step limits ⟨stack, mode⟩ c) := by
  have digit {m : Mode} (h : c.isDigit = true) (ht : Outside m = true) :
      Between c (.ok ⟨stack, m⟩) := between_ok ht (digit_plain h).1 (digit_plain h).2
  have space {m : Mode} (h : isSpace c = true) (ht : Outside m = true) :
      Between c (.ok ⟨stack, m⟩) := between_ok ht (space_plain h).1 (space_plain h).2
  have mark {d : Char} {m : Mode} (h : c = d) (ht : Outside m = true)
      (hd : d ≠ '"' ∧ d ≠ '\\') : Between c (.ok ⟨stack, m⟩) :=
    between_ok ht (h ▸ hd.1) (h ▸ hd.2)
  have power {m : Mode} (h : c = 'e' ∨ c = 'E') (ht : Outside m = true) :
      Between c (.ok ⟨stack, m⟩) := by
    rcases h with h | h
    · exact mark h ht (by decide)
    · exact mark h ht (by decide)
  cases mode with
  | value =>
      simp only [step]
      split
      · next h => exact space h rfl
      · exact between_beginValue
  | item =>
      simp only [step]
      split
      · next h => exact space h rfl
      split
      · next h => exact between_leave (by simp [h]) (by simp [h])
      · exact between_beginValue
  | field =>
      simp only [step]
      split
      · next h => exact space h rfl
      split
      · next h =>
          subst h
          exact between_text true
      split
      · next h => exact between_leave (by simp [h]) (by simp [h])
      · exact between_refused
  | name =>
      simp only [step]
      split
      · next h => exact space h rfl
      split
      · next h =>
          subst h
          exact between_text true
      · exact between_refused
  | colon =>
      simp only [step]
      split
      · next h => exact space h rfl
      split
      · next h => exact mark h rfl (by decide)
      · exact between_refused
  | done => exact between_afterValue
  | text isName => cases hmode
  | escape isName => cases hmode
  | unicode isName owed => cases hmode
  | word rest =>
      simp only [step]
      split
      · next h =>
          cases rest with
          | nil => cases h
          | cons d rest =>
              cases h
              exact between_word hmode
      · exact between_refused
  | minus =>
      simp only [step]
      split
      · next h => exact mark h rfl (by decide)
      split
      · next h => exact digit h rfl
      split
      · next h => exact mark h (by decide) (by decide)
      · exact between_refused
  | zero =>
      simp only [step]
      split
      · next h => exact mark h rfl (by decide)
      split
      · next h => exact power h rfl
      · exact between_afterValue
  | digits count =>
      simp only [step]
      split
      · next h => exact digit h rfl
      split
      · next h => exact mark h rfl (by decide)
      split
      · next h => exact power h rfl
      split
      · exact between_afterValue
      · exact between_refused
  | point =>
      simp only [step]
      split
      · next h => exact digit h rfl
      · exact between_refused
  | fraction =>
      simp only [step]
      split
      · next h => exact digit h rfl
      split
      · next h => exact power h rfl
      · exact between_afterValue
  | exponent =>
      simp only [step]
      split
      · next h =>
          rcases h with h | h
          · exact mark h rfl (by decide)
          · exact mark h rfl (by decide)
      split
      · next h => exact digit h rfl
      · exact between_refused
  | sign =>
      simp only [step]
      split
      · next h => exact digit h rfl
      · exact between_refused
  | power =>
      simp only [step]
      split
      · next h => exact digit h rfl
      · exact between_afterValue

/-- Of two readings of a text, one from inside a text and one from between texts, one ends
inside a text. -/
theorem not_both {isName : Bool} (hmode : Outside mode = true)
    (hinside : scan limits ⟨base, .text isName⟩ text = .ok ())
    (houtside : scan limits ⟨stack, mode⟩ text = .ok ()) : False := by
  induction text generalizing base stack mode isName with
  | nil =>
      rw [scan] at hinside
      simp [Scanner.complete] at hinside
  | cons c text ih =>
      obtain ⟨t, ht, hin⟩ := scan_cons hinside
      obtain ⟨u, hu, hout⟩ := scan_cons houtside
      have hbetween : Between c (step limits ⟨stack, mode⟩ c) := between_step hmode
      by_cases hquote : c = '"'
      · -- the quote closes the one text and opens the other
        obtain ⟨name, hname⟩ := hbetween.quote u hu hquote
        simp only [step, if_pos hquote] at ht
        cases ht
        obtain ⟨ustack, umode⟩ := u
        subst hname
        exact ih (by cases isName <;> rfl) hout hin
      · simp only [step, if_neg hquote, if_neg (hbetween.escape u hu)] at ht
        split at ht
        · cases ht
        · cases ht
          exact ih (hbetween.other u hu hquote) hin hout

/-! ## From the start of a text -/

/-- The scanner has begun its value, and is in a name only within an object. A word that it waits
for has letters only. -/
def Begun (s : Scanner) : Bool :=
  match s.mode with
  | .value | .item | .field | .name | .colon => !s.stack.isEmpty
  | .text isName | .escape isName | .unicode isName _ => !s.stack.isEmpty || !isName
  | .word rest => rest.all Char.isAlpha
  | _ => true

theorem begun_outer (h : Begun ⟨[], mode⟩ = true) : Begun ⟨stack, mode⟩ = true := by
  cases stack with
  | nil => exact h
  | cons frame stack =>
      cases mode with
      | value => rfl
      | item => rfl
      | field => rfl
      | name => rfl
      | colon => rfl
      | text isName => rfl
      | escape isName => rfl
      | unicode isName owed => rfl
      | word rest => exact h
      | done => rfl
      | minus => rfl
      | zero => rfl
      | digits count => rfl
      | point => rfl
      | fraction => rfl
      | exponent => rfl
      | sign => rfl
      | power => rfl

theorem begun_name : Begun ⟨stack, .text true⟩ = !stack.isEmpty :=
  Bool.or_false _

/-- Whatever a step reaches has begun its value. -/
def Begins (result : Except Fault Scanner) : Prop :=
  ∀ t, result = .ok t → Begun t = true

theorem begins_ok (h : Begun s = true) : Begins (.ok s) := by
  rintro t ⟨⟩
  exact h

theorem begins_refused {e : Fault} : Begins (.error e) := by
  rintro t ⟨⟩

theorem begins_ite {p : Prop} [Decidable p] {a b : Except Fault Scanner} (hthen : Begins a)
    (helse : Begins b) : Begins (if p then a else b) := by
  by_cases h : p
  · rwa [if_pos h]
  · rwa [if_neg h]

theorem begins_leave : Begins (leave stack) := by
  cases stack with
  | nil => exact begins_refused
  | cons frame stack => exact begins_ok rfl

theorem begins_enter {frame : Frame} : Begins (enter limits stack frame) := by
  refine begins_ite (begins_ok ?_) begins_refused
  cases frame with
  | array => rfl
  | object => rfl

theorem begins_beginValue : Begins (beginValue limits stack c) := by
  have outer {m : Mode} (hm : Begun ⟨[], m⟩ = true) : Begins (.ok ⟨stack, m⟩) :=
    begins_ok (begun_outer hm)
  refine begins_ite begins_enter (begins_ite begins_enter ?_)
  iterate 9 refine begins_ite (outer (by decide)) ?_
  exact begins_refused

theorem begins_afterValue : Begins (afterValue stack c) := by
  apply begins_ite (begins_ok rfl)
  cases stack with
  | nil => exact begins_refused
  | cons frame stack =>
      cases frame with
      | array => exact begins_ite (begins_ok rfl) (begins_ite begins_leave begins_refused)
      | object => exact begins_ite (begins_ok rfl) (begins_ite begins_leave begins_refused)

theorem begins_step (hs : Begun s = true) : Begins (step limits s c) := by
  obtain ⟨stack, mode⟩ := s
  have same {m : Mode} (hm : Begun ⟨stack, m⟩ = true) : Begins (.ok ⟨stack, m⟩) := begins_ok hm
  have outer {m : Mode} (hm : Begun ⟨[], m⟩ = true) : Begins (.ok ⟨stack, m⟩) :=
    begins_ok (begun_outer hm)
  cases mode with
  | value => exact begins_ite (same hs) begins_beginValue
  | item => exact begins_ite (same hs) (begins_ite begins_leave begins_beginValue)
  | field =>
      exact begins_ite (same hs) (begins_ite (same (begun_name.trans hs))
        (begins_ite begins_leave begins_refused))
  | name => exact begins_ite (same hs) (begins_ite (same (begun_name.trans hs)) begins_refused)
  | colon => exact begins_ite (same hs) (begins_ite (same hs) begins_refused)
  | done => exact begins_afterValue
  | text isName =>
      refine begins_ite ?_ (begins_ite (same hs) (begins_ite begins_refused (same hs)))
      cases isName with
      | false => exact outer rfl
      | true => exact begins_ok (begun_name.symm.trans hs)
  | escape isName => exact begins_ite (same hs) (begins_ite (same hs) begins_refused)
  | unicode isName owed =>
      refine begins_ite ?_ begins_refused
      apply begins_ok
      split
      · exact hs
      · exact hs
  | word rest =>
      refine begins_ite ?_ begins_refused
      split
      · exact outer rfl
      · cases rest with
        | nil => exact same rfl
        | cons d rest =>
            change (d.isAlpha && rest.all Char.isAlpha) = true at hs
            exact same (Bool.and_eq_true .. ▸ hs).2
  | minus =>
      exact begins_ite (outer rfl) (begins_ite (outer rfl)
        (begins_ite (outer (by decide)) begins_refused))
  | zero => exact begins_ite (outer rfl) (begins_ite (outer rfl) begins_afterValue)
  | digits count =>
      exact begins_ite (outer rfl) (begins_ite (outer rfl) (begins_ite (outer rfl)
        (begins_ite begins_afterValue begins_refused)))
  | point => exact begins_ite (outer rfl) begins_refused
  | fraction => exact begins_ite (same hs) (begins_ite (outer rfl) begins_afterValue)
  | exponent => exact begins_ite (outer rfl) (begins_ite (outer rfl) begins_refused)
  | sign => exact begins_ite (outer rfl) begins_refused
  | power => exact begins_ite (same hs) begins_afterValue

theorem begun_foldlM {pre : List Char} (hs : Begun s = true)
    (h : pre.foldlM (step limits) s = .ok t) : Begun t = true := by
  induction pre generalizing s with
  | nil =>
      cases h
      exact hs
  | cons c pre ih =>
      rw [List.foldlM_cons] at h
      cases hstep : step limits s c with
      | error e =>
          rw [hstep] at h
          cases h
      | ok u =>
          rw [hstep] at h
          exact ih (begins_step hs u hstep) h

/-- The scanner stays at its start over blanks only. -/
theorem start_or_begun {pre : List Char} (h : pre.foldlM (step limits) ⟨[], .value⟩ = .ok t) :
    pre.all isSpace = true ∨ Begun t = true := by
  induction pre with
  | nil => exact .inl rfl
  | cons c pre ih =>
      rw [List.foldlM_cons] at h
      by_cases hspace : isSpace c = true
      · have hstep : step limits ⟨[], .value⟩ c = .ok ⟨[], .value⟩ := if_pos hspace
        rw [hstep] at h
        rcases ih h with hpre | hbegun
        · exact .inl (by rw [List.all_cons, hspace, hpre]; rfl)
        · exact .inr hbegun
      · have hstep : step limits ⟨[], .value⟩ c = beginValue limits [] c := if_neg hspace
        rw [hstep] at h
        cases hbegin : beginValue limits [] c with
        | error e =>
            rw [hbegin] at h
            cases h
        | ok u =>
            rw [hbegin] at h
            exact .inr (begun_foldlM (begins_beginValue u hbegin) h)

/-- Blanks before a text. -/
theorem scan_dropWhile (h : scan limits ⟨stack, .value⟩ text = .ok ()) :
    scan limits ⟨stack, .value⟩ (text.dropWhile isSpace) = .ok () := by
  induction text with
  | nil => exact h
  | cons c text ih =>
      by_cases hspace : isSpace c = true
      · rw [List.dropWhile_cons_of_pos hspace]
        apply ih
        obtain ⟨t, ht, hrest⟩ := scan_cons h
        have hstep : step limits ⟨stack, .value⟩ c = .ok ⟨stack, .value⟩ := if_pos hspace
        rw [hstep] at ht
        cases ht
        exact hrest
      · rwa [List.dropWhile_cons_of_neg hspace]

/-- A brace that opens an object opens one inside a container, or stands in a text. -/
theorem begun_brace {spaces : List Char} (hspaces : spaces.all isSpace = true)
    (hs : Begun s = true) (h : scan limits s (spaces ++ '{' :: rest) = .ok ()) :
    (∃ base, base ≠ [] ∧ scan limits ⟨.object :: base, .field⟩ rest = .ok ()) ∨
      ∃ base isName, scan limits ⟨base, .text isName⟩ rest = .ok () := by
  induction spaces generalizing s with
  | cons c spaces ih =>
      rw [List.all_cons, Bool.and_eq_true] at hspaces
      obtain ⟨t, ht, hrest⟩ := scan_cons h
      exact ih hspaces.2 (begins_step hs t ht) hrest
  | nil =>
      obtain ⟨t, ht, hrest⟩ := scan_cons h
      obtain ⟨stack, mode⟩ := s
      have entered (hstack : (!stack.isEmpty) = true) (h : enter limits stack .object = .ok t) :
          (∃ base, base ≠ [] ∧ scan limits ⟨.object :: base, .field⟩ rest = .ok ()) ∨
            ∃ base isName, scan limits ⟨base, .text isName⟩ rest = .ok () := by
        unfold enter at h
        split at h
        · cases h
          refine .inl ⟨stack, ?_, hrest⟩
          rintro rfl
          cases hstack
        · cases h
      have ended (h : afterValue stack '{' = .ok t) : False := by
        cases stack with
        | nil => cases h
        | cons frame stack => cases frame <;> cases h
      cases mode with
      | value => exact entered hs ht
      | item => exact entered hs ht
      | text isName =>
          cases ht
          exact .inr ⟨_, _, hrest⟩
      | done => exact (ended ht).elim
      | zero => exact (ended ht).elim
      | fraction => exact (ended ht).elim
      | power => exact (ended ht).elim
      | digits count =>
          refine (ended ?_).elim
          change (if count ≤ limits.intDigits then afterValue stack '{' else _) = _ at ht
          split at ht
          · exact ht
          · cases ht
      | word letters =>
          change (if letters.head? = some '{' then _ else _) = _ at ht
          split at ht
          · next hhead =>
              cases letters with
              | nil => cases hhead
              | cons d letters =>
                  cases hhead
                  cases hs
          · cases ht
      | field => cases ht
      | name => cases ht
      | colon => cases ht
      | escape isName => cases ht
      | unicode isName owed => cases ht
      | minus => cases ht
      | point => cases ht
      | exponent => cases ht
      | sign => cases ht

/-- Where an end of a JSON text is the text of an object, only blanks stand before it. -/
theorem scan_end {pre : List Char} (hwhole : scan limits ⟨[], .value⟩ (pre ++ text) = .ok ())
    (hend : scan limits ⟨[], .value⟩ text = .ok ())
    (hobject : (text.dropWhile isSpace).head? = some '{') : pre.all isSpace = true := by
  obtain ⟨t, ht, hscan⟩ := scan_append hwhole
  rcases start_or_begun ht with hblank | hbegun
  · exact hblank
  obtain ⟨rest, hrest⟩ : ∃ rest, text.dropWhile isSpace = '{' :: rest := by
    cases hdrop : text.dropWhile isSpace with
    | nil =>
        rw [hdrop] at hobject
        cases hobject
    | cons c rest =>
        rw [hdrop] at hobject
        cases hobject
        exact ⟨rest, rfl⟩
  have halone := scan_dropWhile hend
  rw [hrest] at halone
  obtain ⟨u, hu, hfield⟩ := scan_cons halone
  have hopen : u = ⟨[.object], .field⟩ := by
    change enter limits [] .object = .ok u at hu
    unfold enter at hu
    split at hu
    · cases hu
      rfl
    · cases hu
  subst hopen
  have hsplit : text = text.takeWhile isSpace ++ '{' :: rest := by
    rw [← hrest, List.takeWhile_append_dropWhile]
  rw [hsplit] at hscan
  have hspaces : (text.takeWhile isSpace).all isSpace = true := List.all_takeWhile
  rcases begun_brace hspaces hbegun hscan with ⟨base, hbase, hinside⟩ | ⟨base, isName, hinside⟩
  · exact absurd hinside (not_complete_inside (s := ⟨[.object], .field⟩) hbase hfield)
  · refine (not_both ?_ hinside hfield).elim
    rfl

end AgentsServer.Library.JsonScan

import Mathlib.Data.List.Basic
import Mathlib.Data.List.Induction
import Mathlib.Tactic.Common
import AgentsServer.Library.Text
import Mathlib.Data.List.Infix

/-!
# Marks in a text

A mark is a run of characters that is recognised by itself and by the character before it. Marks
without white space keep their places when the white space of the text is collapsed, and when
the text is cut short.
-/

namespace AgentsServer.Library

/-- A text ends in a mark. -/
def EndsIn (M : Option Char → List Char → Prop) (q : List Char) : Prop :=
  ∃ a m, q = a ++ m ∧ M a.getLast? m

/-- A mark stands somewhere in a text. -/
def Occurs (M : Option Char → List Char → Prop) (t : List Char) : Prop :=
  ∃ a m b, t = a ++ m ++ b ∧ M a.getLast? m

/-- A mark is not empty, holds no white space, and takes white space before it for nothing. -/
structure Solid (M : Option Char → List Char → Prop) : Prop where
  ne_nil : ∀ {last m}, M last m → m ≠ []
  inked : ∀ {last m}, M last m → ∀ c ∈ m, isspace c = false
  space : ∀ {c m}, isspace c = true → (M (some c) m ↔ M none m)

variable {M : Option Char → List Char → Prop}

theorem occurs_iff {t : List Char} : Occurs M t ↔ ∃ q, q <+: t ∧ EndsIn M q := by
  constructor
  · rintro ⟨a, m, b, rfl, hm⟩
    exact ⟨a ++ m, List.prefix_append _ _, a, m, rfl, hm⟩
  · rintro ⟨q, ⟨b, rfl⟩, a, m, rfl, hm⟩
    exact ⟨a, m, b, rfl, hm⟩

theorem Occurs.mono {t u : List Char} (h : Occurs M t) (hle : t <+: u) : Occurs M u := by
  obtain ⟨q, hq, hends⟩ := occurs_iff.mp h
  exact occurs_iff.mpr ⟨q, hq.trans hle, hends⟩

/-- The last character of a text is not white space. -/
def Inked (q : List Char) : Prop :=
  ∃ r c, q = r ++ [c] ∧ isspace c = false

theorem inked_append {a m : List Char} (hne : m ≠ []) (hm : ∀ c ∈ m, isspace c = false) :
    Inked (a ++ m) := by
  refine ⟨a ++ m.dropLast, m.getLast hne, ?_, hm _ (List.getLast_mem hne)⟩
  rw [List.append_assoc, List.dropLast_append_getLast]

theorem Solid.endsIn_inked (hM : Solid M) {q : List Char} (h : EndsIn M q) : Inked q := by
  obtain ⟨a, m, rfl, hm⟩ := h
  exact inked_append (hM.ne_nil hm) (hM.inked hm)

theorem Inked.ne_nil {q : List Char} (h : Inked q) : q ≠ [] := by
  obtain ⟨r, c, rfl, -⟩ := h
  exact List.append_ne_nil_of_right_ne_nil _ (List.cons_ne_nil _ _)

theorem Inked.of_cons {c : Char} {q : List Char} (h : Inked (c :: q)) (hne : q ≠ []) :
    Inked q := by
  obtain ⟨r, d, hr, hd⟩ := h
  cases r with
  | nil =>
      rw [List.nil_append] at hr
      exact absurd (List.cons.inj hr).2 hne
  | cons e r => exact ⟨r, d, (List.cons.inj hr).2, hd⟩

theorem Inked.cons {c : Char} {q : List Char} (h : Inked q) : Inked (c :: q) := by
  obtain ⟨r, d, rfl, hd⟩ := h
  exact ⟨c :: r, d, rfl, hd⟩

/-! ## Words -/

theorem words_space {c : Char} (hc : isspace c = true) (rest : List Char) :
    words (c :: rest) = words rest :=
  if_pos hc

theorem words_one {c : Char} (hc : isspace c = false) : words [c] = [[c]] :=
  if_neg (Bool.not_eq_true _ ▸ hc)

theorem words_ink_cons {c d : Char} (hc : isspace c = false) (rest : List Char) :
    words (c :: d :: rest) =
      if isspace d then [c] :: words (d :: rest)
      else
        match words (d :: rest) with
        | [] => [[c]]
        | word :: more => (c :: word) :: more :=
  if_neg (Bool.not_eq_true _ ▸ hc)

theorem words_gap {c d : Char} (hc : isspace c = false) (hd : isspace d = true)
    (rest : List Char) : words (c :: d :: rest) = [c] :: words (d :: rest) := by
  rw [words_ink_cons hc, if_pos hd]

theorem words_ink {c : Char} (hc : isspace c = false) (rest : List Char) :
    words (c :: rest) ≠ [] := by
  cases rest with
  | nil =>
      rw [words_one hc]
      exact List.cons_ne_nil _ _
  | cons d rest =>
      rw [words_ink_cons hc]
      split
      · exact List.cons_ne_nil _ _
      · split <;> exact List.cons_ne_nil _ _

theorem words_eq_nil {t : List Char} : words t = [] ↔ ∀ c ∈ t, isspace c = true := by
  induction t with
  | nil => exact iff_of_true rfl (List.forall_mem_nil _)
  | cons c rest ih =>
      cases hc : isspace c with
      | true =>
          rw [words_space hc, ih]
          simp [hc]
      | false =>
          constructor
          · exact fun h => absurd h (words_ink hc rest)
          · intro h
            have hspace := h c (List.mem_cons_self ..)
            rw [hc] at hspace
            cases hspace

theorem Inked.words_ne_nil {q : List Char} (h : Inked q) : words q ≠ [] := by
  obtain ⟨r, c, rfl, hc⟩ := h
  intro hwords
  have hspace := words_eq_nil.mp hwords c (by simp)
  rw [hc] at hspace
  cases hspace

theorem words_join {c d : Char} (hc : isspace c = false) (hd : isspace d = false)
    (rest : List Char) :
    ∃ word more, words (d :: rest) = word :: more ∧
      words (c :: d :: rest) = (c :: word) :: more := by
  cases hwords : words (d :: rest) with
  | nil =>
      have hspace := words_eq_nil.mp hwords d (List.mem_cons_self ..)
      rw [hd] at hspace
      cases hspace
  | cons word more =>
      refine ⟨word, more, rfl, ?_⟩
      rw [words_ink_cons hc]
      simp only [hd, Bool.false_eq_true, if_false, hwords]

/-! ## Collapsed white space, one character at a time -/

theorem normalizeSpace_nil : normalizeSpace [] = [] := rfl

theorem normalizeSpace_one {c : Char} (hc : isspace c = false) : normalizeSpace [c] = [c] := by
  unfold normalizeSpace
  rw [words_one hc]
  exact List.intercalate_singleton

theorem normalizeSpace_space {c : Char} (hc : isspace c = true) (rest : List Char) :
    normalizeSpace (c :: rest) = normalizeSpace rest := by
  unfold normalizeSpace
  rw [words_space hc]

theorem normalizeSpace_join {c d : Char} (hc : isspace c = false) (hd : isspace d = false)
    (rest : List Char) :
    normalizeSpace (c :: d :: rest) = c :: normalizeSpace (d :: rest) := by
  obtain ⟨word, more, hwords, hjoin⟩ := words_join hc hd rest
  unfold normalizeSpace
  rw [hwords, hjoin]
  cases more with
  | nil => simp
  | cons next more => simp [List.intercalate]

theorem normalizeSpace_gap {c d : Char} (hc : isspace c = false) (hd : isspace d = true)
    (rest : List Char) (hne : words rest ≠ []) :
    normalizeSpace (c :: d :: rest) = c :: ' ' :: normalizeSpace (d :: rest) := by
  unfold normalizeSpace
  rw [words_gap hc hd, words_space hd]
  cases hwords : words rest with
  | nil => exact absurd hwords hne
  | cons word more => simp [List.intercalate]

theorem normalizeSpace_gap_end {c d : Char} (hc : isspace c = false) (hd : isspace d = true)
    (rest : List Char) (hnil : words rest = []) : normalizeSpace (c :: d :: rest) = [c] := by
  unfold normalizeSpace
  rw [words_gap hc hd, words_space hd, hnil]
  simp

theorem normalizeSpace_eq_nil {t : List Char} :
    normalizeSpace t = [] ↔ ∀ c ∈ t, isspace c = true := by
  rw [← words_eq_nil]
  constructor
  · intro h
    induction t with
    | nil => rfl
    | cons c rest ih =>
        cases hc : isspace c with
        | true =>
            rw [normalizeSpace_space hc] at h
            rw [words_space hc, ih h]
        | false =>
            cases rest with
            | nil =>
                rw [normalizeSpace_one hc] at h
                cases h
            | cons d rest =>
                cases hd : isspace d with
                | false =>
                    rw [normalizeSpace_join hc hd] at h
                    cases h
                | true =>
                    by_cases hne : words rest = []
                    · rw [normalizeSpace_gap_end hc hd rest hne] at h
                      cases h
                    · rw [normalizeSpace_gap hc hd rest hne] at h
                      cases h
  · intro h
    unfold normalizeSpace
    rw [h]
    rfl

/-- What a text becomes before a character that is not white space. -/
def lead : List Char → List Char
  | [] => []
  | c :: rest =>
      if isspace c then lead rest
      else if rest.head?.any isspace then c :: ' ' :: lead rest
      else c :: lead rest

theorem lead_one {c : Char} (hc : isspace c = false) : lead [c] = [c] :=
  if_neg (Bool.not_eq_true _ ▸ hc)

theorem lead_blank {c : Char} (hc : isspace c = true) (rest : List Char) :
    lead (c :: rest) = lead rest :=
  if_pos hc

theorem lead_gap {c d : Char} (hc : isspace c = false) (hd : isspace d = true)
    (rest : List Char) : lead (c :: d :: rest) = c :: ' ' :: lead (d :: rest) :=
  (if_neg (Bool.not_eq_true _ ▸ hc)).trans (if_pos hd)

theorem lead_join {c d : Char} (hc : isspace c = false) (hd : isspace d = false)
    (rest : List Char) : lead (c :: d :: rest) = c :: lead (d :: rest) :=
  (if_neg (Bool.not_eq_true _ ▸ hc)).trans (if_neg (Bool.not_eq_true _ ▸ hd))

theorem normalizeSpace_lead {c : Char} (hc : isspace c = false) (a b : List Char) :
    normalizeSpace (a ++ c :: b) = lead a ++ normalizeSpace (c :: b) := by
  induction a with
  | nil => rfl
  | cons e a ih =>
      have hwords : words (a ++ c :: b) ≠ [] := by
        intro hnil
        have hspace := words_eq_nil.mp hnil c (by simp)
        rw [hc] at hspace
        cases hspace
      cases he : isspace e with
      | true =>
          rw [List.cons_append, normalizeSpace_space he, ih, lead_blank he]
      | false =>
          cases a with
          | nil =>
              rw [lead_one he]
              exact normalizeSpace_join he hc b
          | cons d a =>
              rw [List.cons_append, List.cons_append]
              rw [List.cons_append] at ih hwords
              cases hd : isspace d with
              | true =>
                  rw [words_space hd] at hwords
                  rw [normalizeSpace_gap he hd _ hwords, ih, lead_gap he hd]
                  rfl
              | false =>
                  rw [normalizeSpace_join he hd, ih, lead_join he hd]
                  rfl

theorem normalizeSpace_solid {m : List Char} (hm : ∀ c ∈ m, isspace c = false) :
    normalizeSpace m = m := by
  induction m with
  | nil => rfl
  | cons c m ih =>
      have hc := hm c (List.mem_cons_self ..)
      have hrest := fun d hd => hm d (List.mem_cons_of_mem c hd)
      cases m with
      | nil => exact normalizeSpace_one hc
      | cons d m =>
          rw [normalizeSpace_join hc (hrest d (List.mem_cons_self ..)), ih hrest]

theorem normalizeSpace_append {a m : List Char} (hne : m ≠ [])
    (hm : ∀ c ∈ m, isspace c = false) : normalizeSpace (a ++ m) = lead a ++ m := by
  cases m with
  | nil => exact absurd rfl hne
  | cons c m =>
      rw [normalizeSpace_lead (hm c (List.mem_cons_self ..)), normalizeSpace_solid hm]

theorem lead_space {c : Char} (hc : isspace c = true) (a : List Char) :
    lead (a ++ [c]) = [] ∨ ∃ r, lead (a ++ [c]) = r ++ [' '] := by
  induction a with
  | nil =>
      refine .inl ?_
      rw [List.nil_append, lead_blank hc]
      rfl
  | cons e a ih =>
      rw [List.cons_append]
      cases he : isspace e with
      | true =>
          rw [lead_blank he]
          exact ih
      | false =>
          refine .inr ?_
          cases a with
          | nil =>
              refine ⟨[e], ?_⟩
              rw [List.nil_append, lead_gap he hc, lead_blank hc]
              rfl
          | cons d a =>
              rw [List.cons_append] at ih ⊢
              cases hd : isspace d with
              | true =>
                  rw [lead_gap he hd]
                  rcases ih with hnil | ⟨r, hr⟩
                  · exact ⟨[e], by rw [hnil]; rfl⟩
                  · exact ⟨e :: ' ' :: r, by rw [hr]; rfl⟩
              | false =>
                  rw [lead_join he hd]
                  rcases ih with hnil | ⟨r, hr⟩
                  · rw [lead, hd, if_neg Bool.false_ne_true] at hnil
                    split at hnil <;> cases hnil
                  · exact ⟨e :: r, by rw [hr]; rfl⟩

theorem lead_inked {a : List Char} (h : Inked a) : lead a = normalizeSpace a := by
  obtain ⟨r, c, rfl, hc⟩ := h
  rw [normalizeSpace_append (List.cons_ne_nil _ _) (by simpa using hc)]
  induction r with
  | nil => exact lead_one hc
  | cons e r ih =>
      rw [List.cons_append]
      cases he : isspace e with
      | true => rw [lead_blank he, lead_blank he, ih]
      | false =>
          cases r with
          | nil => rw [List.nil_append, lead_join he hc, lead_one hc, lead_one he]; rfl
          | cons d r =>
              rw [List.cons_append] at ih ⊢
              cases hd : isspace d with
              | true => rw [lead_gap he hd, lead_gap he hd, ih]; rfl
              | false => rw [lead_join he hd, lead_join he hd, ih]; rfl

/-- The first character that is not white space after the head of a prefix is kept. -/
theorem prefix_normalizeSpace {t q : List Char} :
    q <+: normalizeSpace t ∧ Inked q ↔ ∃ r, r <+: t ∧ Inked r ∧ normalizeSpace r = q := by
  constructor
  · rintro ⟨hq, hinked⟩
    induction t generalizing q with
    | nil =>
        rw [normalizeSpace_nil] at hq
        exact absurd (List.prefix_nil.mp hq) hinked.ne_nil
    | cons c t ih =>
        cases hc : isspace c with
        | true =>
            rw [normalizeSpace_space hc] at hq
            obtain ⟨r, hr, hrinked, rfl⟩ := ih hq hinked
            exact ⟨c :: r, List.cons_prefix_cons.mpr ⟨rfl, hr⟩, hrinked.cons,
              normalizeSpace_space hc r⟩
        | false =>
            have hone : [c] <+: c :: t ∧ Inked [c] ∧ normalizeSpace [c] = [c] :=
              ⟨List.cons_prefix_cons.mpr ⟨rfl, List.nil_prefix⟩, ⟨[], c, rfl, hc⟩,
                normalizeSpace_one hc⟩
            cases q with
            | nil => exact absurd rfl hinked.ne_nil
            | cons e q =>
            cases t with
            | nil =>
                rw [normalizeSpace_one hc] at hq
                obtain ⟨rfl, hnil⟩ := List.cons_prefix_cons.mp hq
                rw [List.prefix_nil.mp hnil]
                exact ⟨[e], hone⟩
            | cons d t =>
                cases hd : isspace d with
                | false =>
                    rw [normalizeSpace_join hc hd] at hq
                    obtain ⟨rfl, hrest⟩ := List.cons_prefix_cons.mp hq
                    by_cases hnil : q = []
                    · rw [hnil]
                      exact ⟨[e], hone⟩
                    · obtain ⟨r, hr, hrinked, hnorm⟩ := ih hrest (hinked.of_cons hnil)
                      cases r with
                      | nil => exact absurd rfl hrinked.ne_nil
                      | cons d' r =>
                          obtain ⟨rfl, -⟩ := List.cons_prefix_cons.mp hr
                          refine ⟨e :: d' :: r, ?_, hrinked.cons, ?_⟩
                          · exact List.cons_prefix_cons.mpr ⟨rfl, hr⟩
                          · rw [normalizeSpace_join hc hd, hnorm]
                | true =>
                    by_cases hwords : words t = []
                    · rw [normalizeSpace_gap_end hc hd t hwords] at hq
                      obtain ⟨rfl, hnil⟩ := List.cons_prefix_cons.mp hq
                      rw [List.prefix_nil.mp hnil]
                      exact ⟨[e], hone⟩
                    · rw [normalizeSpace_gap hc hd t hwords] at hq
                      obtain ⟨rfl, hrest⟩ := List.cons_prefix_cons.mp hq
                      cases q with
                      | nil => exact ⟨[e], hone⟩
                      | cons f q =>
                          obtain ⟨rfl, htext⟩ := List.cons_prefix_cons.mp hrest
                          have htail := hinked.of_cons (List.cons_ne_nil _ _)
                          have hne : q ≠ [] := by
                            intro hnil
                            subst hnil
                            obtain ⟨r, c', hr, hc'⟩ := htail
                            cases r with
                            | nil =>
                                cases hr
                                exact absurd hc' (by decide)
                            | cons _ r =>
                                exact absurd (List.cons.inj hr).2.symm
                                  (List.append_ne_nil_of_right_ne_nil _ (List.cons_ne_nil _ _))
                          obtain ⟨r, hr, hrinked, hnorm⟩ := ih htext (htail.of_cons hne)
                          cases r with
                          | nil => exact absurd rfl hrinked.ne_nil
                          | cons d' r =>
                              obtain ⟨rfl, -⟩ := List.cons_prefix_cons.mp hr
                              have hwords' : words r ≠ [] := by
                                intro hnil
                                exact hrinked.words_ne_nil ((words_space hd r).trans hnil)
                              refine ⟨e :: d' :: r, ?_, hrinked.cons, ?_⟩
                              · exact List.cons_prefix_cons.mpr ⟨rfl, hr⟩
                              · rw [normalizeSpace_gap hc hd r hwords', hnorm]
  · rintro ⟨r, ⟨b, rfl⟩, ⟨a, c, rfl, hc⟩, rfl⟩
    rw [normalizeSpace_append (List.cons_ne_nil _ _) (by simpa using hc)]
    refine ⟨?_, lead a, c, rfl, hc⟩
    have hsplit : a ++ [c] ++ b = a ++ c :: b := by simp
    rw [hsplit, normalizeSpace_lead hc]
    refine (List.prefix_append_right_inj (lead a)).mpr ?_
    cases b with
    | nil =>
        rw [normalizeSpace_one hc]
    | cons d b =>
        cases hd : isspace d with
        | false =>
            rw [normalizeSpace_join hc hd]
            exact List.cons_prefix_cons.mpr ⟨rfl, List.nil_prefix⟩
        | true =>
            by_cases hwords : words b = []
            · rw [normalizeSpace_gap_end hc hd b hwords]
            · rw [normalizeSpace_gap hc hd b hwords]
              exact List.cons_prefix_cons.mpr ⟨rfl, List.nil_prefix⟩

/-! ## Marks under collapsing -/

theorem Solid.last (hM : Solid M) (a : List Char) {m : List Char} :
    M (lead a).getLast? m ↔ M a.getLast? m := by
  rcases List.eq_nil_or_concat a with rfl | ⟨a, c, rfl⟩
  · rfl
  · rw [List.concat_eq_append, List.getLast?_append_cons]
    cases hc : isspace c with
    | true =>
        rw [List.getLast?_singleton, hM.space hc]
        rcases lead_space hc a with hnil | ⟨r, hr⟩
        · rw [hnil]
          rfl
        · rw [hr, List.getLast?_append_cons, List.getLast?_singleton]
          exact hM.space (by decide)
    | false =>
        rw [lead_inked ⟨a, c, rfl, hc⟩,
          normalizeSpace_append (List.cons_ne_nil _ _) (by simpa using hc),
          List.getLast?_append_cons]

/-- The characters at the end of a collapsed text are those of the text. -/
theorem normalizeSpace_suffix {r x m : List Char} (hr : Inked r) (hne : m ≠ [])
    (hm : ∀ c ∈ m, isspace c = false) (h : normalizeSpace r = x ++ m) :
    ∃ a, r = a ++ m ∧ x = lead a := by
  induction m using List.reverseRecOn generalizing r x with
  | nil => exact absurd rfl hne
  | append_singleton m c' ih =>
      obtain ⟨r', c, rfl, hc⟩ := hr
      rw [normalizeSpace_append (List.cons_ne_nil _ _) (by simpa using hc),
        ← List.append_assoc] at h
      obtain ⟨hlead, hlast⟩ := List.append_inj' h rfl
      cases hlast
      by_cases hnil : m = []
      · subst hnil
        exact ⟨r', rfl, by rw [hlead, List.append_nil]⟩
      · have hm' : ∀ d ∈ m, isspace d = false := fun d hd => hm d (by simp [hd])
        have hinked : Inked r' := by
          have hlast : Inked (lead r') := hlead ▸ inked_append hnil hm'
          rcases List.eq_nil_or_concat r' with rfl | ⟨a, d, rfl⟩
          · exact absurd rfl hlast.ne_nil
          · rw [List.concat_eq_append] at hlast ⊢
            cases hd : isspace d with
            | false => exact ⟨a, d, rfl, hd⟩
            | true =>
                rcases lead_space hd a with hnone | ⟨b, hb⟩
                · exact absurd hnone hlast.ne_nil
                · obtain ⟨r, e, hr, he⟩ := hlast
                  rw [hb] at hr
                  cases (List.append_inj' hr rfl).2
                  exact absurd he (by decide)
        rw [lead_inked hinked] at hlead
        obtain ⟨a, rfl, hx⟩ := ih hinked hnil hm' hlead
        exact ⟨a, List.append_assoc _ _ _, hx⟩

theorem Solid.endsIn_normalizeSpace (hM : Solid M) {r : List Char} (hr : Inked r) :
    EndsIn M (normalizeSpace r) ↔ EndsIn M r := by
  constructor
  · rintro ⟨x, m, hx, hm⟩
    obtain ⟨a, rfl, rfl⟩ := normalizeSpace_suffix hr (hM.ne_nil hm) (hM.inked hm) hx
    exact ⟨a, m, rfl, (hM.last a).mp hm⟩
  · rintro ⟨a, m, rfl, hm⟩
    exact ⟨lead a, m, normalizeSpace_append (hM.ne_nil hm) (hM.inked hm), (hM.last a).mpr hm⟩

/-- The marks of a collapsed text within a length are those of the text whose own collapsed
beginning is within it. -/
theorem Solid.occurs_take_normalizeSpace (hM : Solid M) {t : List Char} {n : Nat} :
    Occurs M ((normalizeSpace t).take n) ↔
      ∃ r, r <+: t ∧ EndsIn M r ∧ (normalizeSpace r).length ≤ n := by
  rw [occurs_iff]
  constructor
  · rintro ⟨q, hq, hends⟩
    have hle := (List.prefix_take_iff.mp hq)
    obtain ⟨r, hr, hinked, rfl⟩ :=
      prefix_normalizeSpace.mp ⟨hle.1, hM.endsIn_inked hends⟩
    exact ⟨r, hr, (hM.endsIn_normalizeSpace hinked).mp hends, hle.2⟩
  · rintro ⟨r, hr, hends, hn⟩
    have hinked := hM.endsIn_inked hends
    refine ⟨normalizeSpace r, ?_, (hM.endsIn_normalizeSpace hinked).mpr hends⟩
    exact List.prefix_take_iff.mpr
      ⟨(prefix_normalizeSpace.mpr ⟨r, hr, hinked, rfl⟩).1, hn⟩

/-! ## Cutting -/

/-- `str.rstrip()`. -/
def rstrip (t : List Char) : List Char :=
  (t.reverse.dropWhile isspace).reverse

theorem rstrip_begins (t : List Char) : rstrip t <+: t := by
  have hsuffix := (List.dropWhile_suffix (l := t.reverse) isspace)
  rw [← List.reverse_prefix, List.reverse_reverse] at hsuffix
  exact hsuffix

theorem rstrip_append {a : List Char} (h : Inked a) (b : List Char) :
    a <+: rstrip (a ++ b) := by
  obtain ⟨r, c, rfl, hc⟩ := h
  unfold rstrip
  rw [List.reverse_append, List.dropWhile_append]
  split
  · rw [List.reverse_append, List.dropWhile_append]
    simp [hc]
  · rw [List.reverse_append, List.reverse_reverse]
    exact List.prefix_append _ _

/-- Trailing white space holds no mark. -/
theorem Solid.occurs_rstrip (hM : Solid M) {t : List Char} :
    Occurs M (rstrip t) ↔ Occurs M t := by
  constructor
  · exact fun h => h.mono (rstrip_begins t)
  · intro h
    obtain ⟨q, ⟨b, rfl⟩, hends⟩ := occurs_iff.mp h
    exact occurs_iff.mpr ⟨q, rstrip_append (hM.endsIn_inked hends) b, hends⟩

/-- A character that ends no mark adds none at the end. -/
theorem occurs_append_one {t : List Char} {e : Char}
    (he : ∀ last m, M last m → m ≠ [] ∧ e ∉ m) : Occurs M (t ++ [e]) ↔ Occurs M t := by
  constructor
  · intro h
    obtain ⟨q, hq, a, m, rfl, hm⟩ := occurs_iff.mp h
    obtain ⟨hne, hmem⟩ := he _ _ hm
    rcases List.prefix_concat_iff.mp hq with hall | hle
    · exfalso
      rcases List.eq_nil_or_concat m with rfl | ⟨m, c, rfl⟩
      · exact hne rfl
      · rw [List.concat_eq_append, ← List.append_assoc] at hall
        cases (List.append_inj' hall rfl).2
        exact hmem (by simp)
    · exact occurs_iff.mpr ⟨a ++ m, hle, a, m, rfl, hm⟩
  · exact fun h => h.mono (List.prefix_append _ _)

end AgentsServer.Library

import AgentsServer.ProviderCommands.DisplayText
import Mathlib.Data.Bool.AllAny

/-!
# What display texts still show

URLs and paths are cut off with all that follows them. An address is shown where no match of the
address pattern touches it.
-/

namespace AgentsServer.ProviderCommands

open Library

/-! ## Locations are cut off -/

/-- Before the first location there is no mark of one. -/
theorem opening_not_occurs {M : Option Char → List Char → Prop} (hM : Located M)
    (text : List Char) : ¬Occurs M (opening (locationPieces text)) := by
  rintro ⟨a, m, b, hsplit, hm⟩
  have hscan := scans_scan locationRules text
  obtain ⟨tail, htail⟩ : ∃ tail, locationPieces text =
      (opening (locationPieces text)).map .plain ++ tail := by
    cases hscan.once locationRules_toEnd with
    | inl hall => exact ⟨[], by rw [List.append_nil]; exact hall⟩
    | inr hone =>
        obtain ⟨mark, s, hone⟩ := hone
        exact ⟨_, hone⟩
  have hlast : M a.reverse.head? m := by rwa [List.head?_reverse]
  obtain ⟨hne, -⟩ := hM a.reverse m [] hlast
  obtain ⟨c, m, rfl⟩ := List.exists_cons_of_ne_nil hne
  rw [hsplit, List.map_append, List.map_append, List.map_cons, List.append_assoc,
    List.append_assoc] at htail
  rw [show scan locationRules text = locationPieces text from rfl, htail] at hscan
  obtain ⟨y, hy, hidle⟩ := hscan.idle
  obtain ⟨z, hz, htail'⟩ := hscan.split
  rw [hz.unique hy] at htail'
  have hrest : y.rest = (c :: m) ++ (b ++ tail.flatMap Piece.source) := by
    rw [← htail'.source]
    simp [flatMap_source_map, Piece.source]
  have hplace : y = ⟨a.reverse, (c :: m) ++ (b ++ tail.flatMap Piece.source)⟩ := by
    have hbefore := hy.before
    rw [flatMap_source_map, List.append_nil] at hbefore
    rw [← hbefore, ← hrest]
  obtain ⟨hurl, hpath⟩ := not_mem_of_idle hidle (by rw [hrest]; exact List.cons_ne_nil _ _)
  rw [hplace] at hurl hpath
  rcases (hM a.reverse (c :: m) (b ++ tail.flatMap Piece.source) hlast).2 with
    ⟨z, hz⟩ | ⟨z, hz⟩
  · exact hurl z hz
  · exact hpath z hz

/-- What stands for a location. -/
def Written (w : List Char) : Prop :=
  w = [] ∨ ∃ mark, w = replaceLocalPath mark

theorem withoutLocations_eq (text : List Char) :
    ∃ w, Written w ∧ withoutLocations text = opening (locationPieces text) ++ w := by
  have hplain : ∀ s : List Char,
      (s.map (Piece.plain (μ := Location))).flatMap (Piece.replaced replaceLocalPath) = s := by
    intro s
    induction s with
    | nil => rfl
    | cons c s ih => rw [List.map_cons, List.flatMap_cons, ih]; rfl
  unfold withoutLocations
  cases (scans_scan locationRules text).once locationRules_toEnd with
  | inl hall =>
      refine ⟨[], .inl rfl, ?_⟩
      rw [List.append_nil]
      calc (locationPieces text).flatMap (Piece.replaced replaceLocalPath)
          = ((opening (locationPieces text)).map .plain).flatMap
              (Piece.replaced replaceLocalPath) := congrArg _ hall
        _ = opening (locationPieces text) := hplain _
  | inr hone =>
      obtain ⟨mark, s, hone⟩ := hone
      refine ⟨replaceLocalPath mark, .inr ⟨mark, rfl⟩, ?_⟩
      calc (locationPieces text).flatMap (Piece.replaced replaceLocalPath)
          = ((opening (locationPieces text)).map Piece.plain ++ [Piece.found mark s]).flatMap
              (Piece.replaced replaceLocalPath) := congrArg _ hone
        _ = opening (locationPieces text) ++ replaceLocalPath mark := by
            rw [List.flatMap_append, hplain, List.flatMap_singleton]
            rfl

theorem Written.not_slash {w : List Char} (h : Written w) : ∀ c ∈ w, isSlash c = false := by
  rcases h with rfl | ⟨mark, rfl⟩
  · simp
  · cases mark <;> exact List.all_iff_forall_prop.mp (by decide)

/-- A prefix of two texts is one of the first, or goes on into the second. -/
theorem prefix_append {q u w : List Char} (h : q <+: u ++ w) :
    q <+: u ∨ ∃ v, v ≠ [] ∧ v <+: w ∧ q = u ++ v := by
  rcases List.prefix_or_prefix_of_prefix h (List.prefix_append u w) with hq | ⟨v, rfl⟩
  · exact .inl hq
  · by_cases hv : v = []
    · rw [hv, List.append_nil]
      exact .inl (List.prefix_refl u)
    · exact .inr ⟨v, hv, (List.prefix_append_right_inj u).mp h, rfl⟩

theorem withoutLocations_not_occurs {M : Option Char → List Char → Prop} (hM : Located M)
    (hslash : ∀ {last m}, M last m → SlashEnded m) (text : List Char) :
    ¬Occurs M (withoutLocations text) := by
  intro hoccurs
  obtain ⟨w, hw, htext⟩ := withoutLocations_eq text
  rw [htext] at hoccurs
  obtain ⟨q, hq, a, m, rfl, hm⟩ := occurs_iff.mp hoccurs
  rcases prefix_append hq with hopening | ⟨v, hv, hvw, hsame⟩
  · exact opening_not_occurs hM text (occurs_iff.mpr ⟨a ++ m, hopening, a, m, rfl, hm⟩)
  · obtain ⟨r, c, rfl, hc⟩ := hslash hm
    rcases List.eq_nil_or_concat v with rfl | ⟨v, d, rfl⟩
    · exact hv rfl
    · rw [List.concat_eq_append] at hvw hsame
      rw [← List.append_assoc, ← List.append_assoc] at hsame
      cases (List.append_inj' hsame rfl).2
      have hplain := hw.not_slash c (hvw.subset (by simp))
      rw [hplain] at hc
      cases hc

/-! ## One line within a length -/

/-- What is shown of the marks of a text. -/
theorem occurs_truncated {M : Option Char → List Char → Prop} (hM : Solid M)
    (hdots : ∀ {last m}, M last m → '…' ∉ m) (t : List Char) (bound : Int) :
    Occurs M (truncated (normalizeSpace t) bound) ↔
      ∃ r, r <+: t ∧ EndsIn M r ∧
        (((normalizeSpace r).length : Int) < bound ∨
          ((normalizeSpace t).length : Int) ≤ bound) := by
  unfold truncated
  split
  · next hfits =>
      have hall : Occurs M (normalizeSpace t) ↔
          Occurs M ((normalizeSpace t).take (normalizeSpace t).length) := by
        rw [List.take_length]
      rw [hall, hM.occurs_take_normalizeSpace]
      constructor
      · rintro ⟨r, hr, hends, -⟩
        exact ⟨r, hr, hends, .inr hfits⟩
      · rintro ⟨r, hr, hends, -⟩
        have hle := prefix_normalizeSpace.mpr ⟨r, hr, hM.endsIn_inked hends, rfl⟩
        exact ⟨r, hr, hends, hle.1.length_le⟩
  · next hlong =>
      rw [occurs_append_one fun _ _ hm => ⟨hM.ne_nil hm, hdots hm⟩, hM.occurs_rstrip,
        hM.occurs_take_normalizeSpace]
      refine exists_congr fun r => and_congr_right fun hr => and_congr_right fun hends => ?_
      have hle := prefix_normalizeSpace.mpr ⟨r, hr, hM.endsIn_inked hends, rfl⟩
      have hne : (normalizeSpace r).length ≠ 0 :=
        fun h => hle.2.ne_nil (List.length_eq_zero_iff.mp h)
      omega

theorem rstrip_length_le (t : List Char) : (rstrip t).length ≤ t.length :=
  (rstrip_begins t).length_le

theorem truncated_fits (safe : List Char) (bound : Int) :
    ((truncated safe bound).length : Int) ≤ bound ↔ 0 < bound ∨ bound = 0 ∧ safe = [] := by
  rw [← List.length_eq_zero_iff]
  unfold truncated
  split
  · next hfits =>
      omega
  · next hlong =>
      have hstrip := rstrip_length_le (safe.take (max 0 (bound - 1)).toNat)
      rw [List.length_take] at hstrip
      rw [List.length_append, List.length_singleton]
      omega

/-! ## Addresses -/

/-- A character that no replacement holds stands for itself. -/
theorem replaced_split {ps : List (Piece Unit)} {u v : List Char} {c : Char}
    (hc : c ∉ replaceEmail ()) (h : ps.flatMap (Piece.replaced replaceEmail) = u ++ c :: v) :
    ∃ qs rs, ps = qs ++ .plain c :: rs ∧ qs.flatMap (Piece.replaced replaceEmail) = u ∧
      rs.flatMap (Piece.replaced replaceEmail) = v := by
  induction ps generalizing u with
  | nil =>
      exact absurd h.symm (List.append_ne_nil_of_right_ne_nil _ (List.cons_ne_nil _ _))
  | cons p ps ih =>
      rw [List.flatMap_cons] at h
      rcases List.append_eq_append_iff.mp h with ⟨u', rfl, hrest⟩ | ⟨v', hp, hrest⟩
      · obtain ⟨qs, rs, rfl, hqs, hrs⟩ := ih hrest
        exact ⟨p :: qs, rs, rfl, by rw [List.flatMap_cons, hqs], hrs⟩
      · cases v' with
        | nil =>
            rw [List.append_nil] at hp
            rw [List.nil_append] at hrest
            obtain ⟨qs, rs, rfl, hqs, hrs⟩ := ih (u := []) hrest.symm
            exact ⟨p :: qs, rs, rfl, by rw [List.flatMap_cons, hqs, List.append_nil, hp], hrs⟩
        | cons d v' =>
            obtain ⟨rfl, hv⟩ := List.cons.inj hrest
            cases p with
            | plain e =>
                have hlength := congrArg List.length hp
                have hnil : u = [] := by
                  rw [← List.length_eq_zero_iff]
                  simp only [Piece.replaced, List.length_append, List.length_cons,
                    List.length_nil] at hlength
                  omega
                subst hnil
                cases hp
                exact ⟨[], ps, rfl, rfl, hv.symm⟩
            | found mark text =>
                refine absurd ?_ hc
                have hmem : c ∈ u ++ c :: v' := by simp
                rw [← hp] at hmem
                exact hmem

/-- The pieces that an address without a match makes. -/
def loose (ps : List (Piece Unit)) (c d : Char) : List (Piece Unit) :=
  ps ++ [.plain c, .plain '@', .plain d]

/-- The addresses of the text without its addresses are those that no match touches. -/
theorem endsIn_withoutEmails {text r : List Char} :
    r <+: withoutEmails text ∧ EndsIn addressCore r ↔
      ∃ ps c d, loose ps c d <+: emailPieces text ∧ isLocal c = true ∧ d.isAlphanum = true ∧
        r = (loose ps c d).flatMap (Piece.replaced replaceEmail) := by
  constructor
  · rintro ⟨⟨b, hb⟩, a, m, rfl, c, d, hc, hd, rfl⟩
    have hat : '@' ∉ replaceEmail () := by decide
    have htext : withoutEmails text = (a ++ [c]) ++ '@' :: (d :: b) := by
      rw [← hb]
      simp
    unfold withoutEmails at htext
    obtain ⟨qs, rs, hps, hqs, hrs⟩ := replaced_split hat htext
    -- the host starts with a plain character, since it is a letter or digit
    obtain ⟨rs, rfl⟩ : ∃ rs', rs = .plain d :: rs' := by
      cases rs with
      | nil => cases hrs
      | cons p rs =>
          cases p with
          | plain e =>
              cases hrs
              exact ⟨rs, rfl⟩
          | found mark s =>
              cases hrs
              exact absurd hd (by decide)
    -- so does the local part end, since it is no angle bracket
    obtain ⟨qs, rfl⟩ : ∃ qs', qs = qs' ++ [.plain c] := by
      rcases List.eq_nil_or_concat qs with rfl | ⟨qs', p, rfl⟩
      · exact absurd hqs.symm (List.append_ne_nil_of_right_ne_nil _ (List.cons_ne_nil _ _))
      · rw [List.concat_eq_append, List.flatMap_append, List.flatMap_singleton] at hqs
        cases p with
        | plain e =>
            cases (List.append_inj' hqs rfl).2
            exact ⟨qs', List.concat_eq_append⟩
        | found mark s =>
            have hlast : qs'.flatMap (Piece.replaced replaceEmail) ++
                ['<', 'e', 'm', 'a', 'i', 'l'] ++ ['>'] = a ++ [c] := by
              rw [← hqs]
              simp [Piece.replaced, replaceEmail]
            cases (List.append_inj' hlast rfl).2
            exact absurd hc (by decide)
    refine ⟨qs, c, d, ⟨rs, ?_⟩, hc, hd, ?_⟩
    · rw [hps]
      simp [loose]
    · unfold loose
      rw [List.flatMap_append, List.flatMap_singleton] at hqs
      have hstart : qs.flatMap (Piece.replaced replaceEmail) = a :=
        (List.append_inj' hqs rfl).1
      rw [List.flatMap_append, hstart]
      rfl
  · rintro ⟨ps, c, d, ⟨rs, hps⟩, hc, hd, rfl⟩
    refine ⟨⟨rs.flatMap (Piece.replaced replaceEmail), ?_⟩,
      ps.flatMap (Piece.replaced replaceEmail), _, ?_, c, d, hc, hd, rfl⟩
    · rw [← List.flatMap_append, hps]
      rfl
    · unfold loose
      rw [List.flatMap_append]
      rfl

/-- An address of the text is one before its locations. -/
theorem address_before_location {text r : List Char} :
    r <+: withoutLocations text ∧ EndsIn addressCore r ↔
      r <+: opening (locationPieces text) ∧ EndsIn addressCore r := by
  obtain ⟨w, hw, htext⟩ := withoutLocations_eq text
  refine and_congr_left ?_
  rintro ⟨a, m, rfl, c, d, hc, hd, rfl⟩
  rw [htext]
  constructor
  · intro hr
    rcases prefix_append hr with hopening | ⟨v, hv, hvw, hsame⟩
    · exact hopening
    · -- what goes on into the mark has its first character, and it is the only one
      exfalso
      rcases hw with rfl | ⟨mark, rfl⟩
      · exact hv (List.prefix_nil.mp hvw)
      · have hfirst : ∃ v', v = '<' :: v' := by
          obtain ⟨e, v', rfl⟩ := List.exists_cons_of_ne_nil hv
          refine ⟨v', ?_⟩
          cases mark <;> rw [(List.cons_prefix_cons.mp hvw).1]
        obtain ⟨v', rfl⟩ := hfirst
        have hat : '@' ∉ '<' :: v' := by
          intro hmem
          have hmark := hvw.subset hmem
          revert hmark
          cases mark <;> decide
        rcases List.eq_nil_or_concat v' with rfl | ⟨v', e, rfl⟩
        · have hsplit : (a ++ [c, '@']) ++ [d] =
              opening (locationPieces text) ++ ['<'] := by
            rw [← hsame]
            simp
          cases (List.append_inj' hsplit rfl).2
          exact absurd hd (by decide)
        · rw [List.concat_eq_append] at hsame hat
          have hsplit : (a ++ [c, '@']) ++ [d] =
              (opening (locationPieces text) ++ '<' :: v') ++ [e] := by
            rw [List.append_assoc _ ('<' :: v'), List.cons_append, ← hsame]
            simp
          have hbefore := (List.append_inj' hsplit rfl).1
          rcases List.eq_nil_or_concat v' with rfl | ⟨v', f, rfl⟩
          · have hend : (a ++ [c]) ++ ['@'] = opening (locationPieces text) ++ ['<'] := by
              rw [← hbefore]
              simp
            exact absurd (List.append_inj' hend rfl).2 (by decide)
          · rw [List.concat_eq_append] at hbefore hat
            have hend : (a ++ [c]) ++ ['@'] =
                (opening (locationPieces text) ++ '<' :: v') ++ [f] := by
              rw [List.append_assoc _ ('<' :: v'), List.cons_append, ← hbefore]
              simp
            cases (List.append_inj' hend rfl).2
            exact hat (by simp)
  · exact fun hr => hr.trans (List.prefix_append _ w)

theorem urlMark_dots {last : Option Char} {m : List Char} (h : urlMark last m) : '…' ∉ m := by
  obtain ⟨c, s, hc, hs, rfl⟩ := h
  intro hmem
  simp only [List.mem_cons, List.mem_append, List.not_mem_nil, or_false] at hmem
  rcases hmem with rfl | hmem | hmem | hmem | hmem
  · exact absurd hc (by decide)
  · exact absurd (hs _ hmem) (by decide)
  all_goals exact absurd hmem (by decide)

theorem PathMark.dots {m : List Char} (h : PathMark m) : '…' ∉ m := by
  have hslash : ∀ {c}, isSlash c = true → '…' ≠ c := by
    rintro c hc rfl
    exact absurd hc (by decide)
  have hletter : ∀ {c : Char}, c.isAlpha = true → '…' ≠ c := by
    rintro c hc rfl
    exact absurd hc (by decide)
  cases h with
  | home slash => simp [hslash slash]
  | here slash => simp [hslash slash]
  | parent slash => simp [hslash slash]
  | drive letter slash => simp [hslash slash, hletter letter]
  | root => decide
  | share => decide

/-! ## Blank texts -/

/-- A character that is not white space. -/
def Ink (c : Char) : Prop := isspace c = false

theorem not_ink {c : Char} : ¬Ink c ↔ isspace c = true := by
  unfold Ink
  rw [Bool.not_eq_false]

theorem emailRe_ink : emailRe.Holds Ink := by
  refine Regex.Holds.right (Regex.Holds.right (Regex.Holds.left (Regex.holds_one ?_)))
  intro c hc
  rw [beq_iff_eq.mp hc]
  rfl

theorem pathMarkRe_ink : pathMarkRe.Holds Ink := by
  have hone : ∀ d, isspace d = false → (Regex.one (· == d)).Holds Ink := by
    intro d hd
    refine Regex.holds_one fun c hc => ?_
    rw [beq_iff_eq.mp hc]
    exact hd
  refine (hone '~' (by decide)).left.alt ((hone '.' (by decide)).left.alt ?_)
  refine Regex.Holds.alt ?_ ((hone '/' (by decide)).alt (hone '\\' (by decide)).left)
  exact (Regex.holds_one fun c hc => alphanum_ink (alpha_alphanum hc)).left

theorem locationRules_ink : ∀ rule ∈ locationRules, rule.2.Holds Ink := by
  intro rule hrule
  simp only [locationRules, List.mem_cons, List.not_mem_nil, or_false] at hrule
  rcases hrule with rfl | rfl
  · exact (Regex.holds_one fun c hc => alphanum_ink (alpha_alphanum hc)).left.left
  · exact pathMarkRe_ink.right.left

section Shown

variable [UnicodeData]

/-- Only white space is shown as nothing. -/
theorem redacted_eq_nil {text : List Char} :
    redacted text = [] ↔ ∀ c ∈ displayable text, isspace c = true := by
  have hemails := (scans_scan [((), emailRe)] (displayable text)).lacks
    (w := replaceEmail) (q := Ink) (by simpa using emailRe_ink)
    (fun _ => ⟨'<', List.mem_cons_self .., rfl⟩)
  have hlocations := (scans_scan locationRules (withoutEmails (displayable text))).lacks
    (w := replaceLocalPath) (q := Ink) locationRules_ink
    (fun mark => ⟨'<', by cases mark <;> decide, rfl⟩)
  simp only [not_ink] at hemails hlocations
  unfold redacted
  rw [normalizeSpace_eq_nil]
  exact hlocations.trans hemails

/-! ## What is shown -/

/-- The beginning of an address that no match of the address pattern touches is shown: it stands
before the first location, and within the length. -/
def ShowsAddress (text : List Char) (bound : Int) : Prop :=
  ∃ ps c d, loose ps c d <+: emailPieces (displayable text) ∧
    isLocal c = true ∧ d.isAlphanum = true ∧
    (loose ps c d).flatMap (Piece.replaced replaceEmail) <+:
      opening (locationPieces (withoutEmails (displayable text))) ∧
    (((normalizeSpace ((loose ps c d).flatMap (Piece.replaced replaceEmail))).length : Int) <
        bound ∨ ((redacted text).length : Int) ≤ bound)

theorem occurs_address_iff (text : List Char) (bound : Int) :
    Occurs addressMark (truncated (redacted text) bound) ↔ ShowsAddress text bound := by
  have hdots : ∀ {last m}, addressCore last m → '…' ∉ m := by
    rintro last m ⟨c, d, hc, hd, rfl⟩ hmem
    simp only [List.mem_cons, List.not_mem_nil, or_false] at hmem
    rcases hmem with rfl | hmem | rfl
    · exact absurd hc (by decide)
    · exact absurd hmem (by decide)
    · exact absurd hd (by decide)
  have hopening : ∀ r, r <+: opening (locationPieces (withoutEmails (displayable text))) →
      r <+: withoutEmails (displayable text) := by
    intro r hr
    refine hr.trans ?_
    have hscan := scans_scan locationRules (withoutEmails (displayable text))
    have hsource := hscan.source
    dsimp only at hsource
    rcases hscan.once locationRules_toEnd with hall | ⟨mark, s, hone⟩
    · rw [hall, flatMap_source_map] at hsource
      exact ⟨[], by rw [List.append_nil]; exact hsource⟩
    · rw [hone, List.flatMap_append, flatMap_source_map] at hsource
      exact ⟨_, hsource⟩
  rw [occurs_address]
  unfold redacted
  rw [occurs_truncated addressCore_solid hdots]
  constructor
  · rintro ⟨r, hr, hends, hroom⟩
    obtain ⟨hbefore, -⟩ := address_before_location.mp ⟨hr, hends⟩
    obtain ⟨ps, c, d, hloose, hc, hd, rfl⟩ :=
      endsIn_withoutEmails.mp ⟨hopening r hbefore, hends⟩
    exact ⟨ps, c, d, hloose, hc, hd, hbefore, hroom⟩
  · rintro ⟨ps, c, d, hloose, hc, hd, hbefore, hroom⟩
    obtain ⟨-, hends⟩ := endsIn_withoutEmails.mpr ⟨ps, c, d, hloose, hc, hd, rfl⟩
    exact ⟨_, (address_before_location.mpr ⟨hbefore, hends⟩).1, hends, hroom⟩

theorem not_occurs_location {M : Option Char → List Char → Prop} (hM : Solid M)
    (hlocated : Located M) (hslash : ∀ {last m}, M last m → SlashEnded m)
    (hdots : ∀ {last m}, M last m → '…' ∉ m) (text : List Char) (bound : Int) :
    ¬Occurs M (truncated (redacted text) bound) := by
  intro hoccurs
  unfold redacted at hoccurs
  obtain ⟨r, hr, hends, -⟩ := (occurs_truncated hM hdots _ bound).mp hoccurs
  exact withoutLocations_not_occurs hlocated hslash _ (occurs_iff.mpr ⟨r, hr, hends⟩)

theorem sanitizeProviderCommandText_str (text : String) (maxChars : Int) :
    (sanitizeProviderCommandText (.str text) maxChars).toList =
      truncated (redacted text.toList) maxChars :=
  String.toList_ofList

end Shown

/-- The tables on ASCII text. -/
@[reducible] def asciiData : UnicodeData where
  nfc := id
  category c :=
    if c.toNat < 32 then "Cc"
    else if c == ' ' then "Zs"
    else if c.isUpper then "Lu"
    else if c.isLower then "Ll"
    else if c.isDigit then "Nd"
    else "Po"

end AgentsServer.ProviderCommands

import AgentsServer.Library.Json
import AgentsServer.Library.Marks
import AgentsServer.Library.Regex
import Mathlib.Data.Bool.AllAny

/-!
# Display texts of provider commands

Provider metadata is shown without addresses, URLs and local paths, and within a length.
`provider_commands.py`, `sanitize_provider_command_text`.
-/

namespace AgentsServer.ProviderCommands

open Library

/-- What the interpreter's Unicode tables decide. -/
class UnicodeData where
  /-- `unicodedata.normalize("NFC", text)` -/
  nfc : List Char → List Char
  category : Char → String

def unsafeCategories : List String :=
  ["Cc", "Cf", "Cs", "Co", "Cn", "Zl", "Zp"]

def bidiControls : List Char :=
  ['\u061c', '\u200e', '\u200f', '\u202a', '\u202b', '\u202c', '\u202d', '\u202e', '\u2066',
    '\u2067', '\u2068', '\u2069']

/-! ## Patterns -/

/-- The characters of the part of an address before its `@`. -/
def isLocal (c : Char) : Bool :=
  c.isAlphanum ||
    ['.', '!', '#', '$', '%', '&', '\'', '*', '+', '/', '=', '?', '^', '_', '\x60', '\x7b', '|',
      '\x7d', '~', '-'].contains c

def isHost (c : Char) : Bool :=
  c.isAlphanum || c == '.' || c == '-'

def isScheme (c : Char) : Bool :=
  c.isAlphanum || c == '+' || c == '.' || c == '-'

def isWord (c : Char) : Bool :=
  c.isAlphanum || c == '_'

def isSlash (c : Char) : Bool :=
  c == '/' || c == '\\'

/-- `[A-Za-z0-9](?:[A-Za-z0-9.-]{0,251}[A-Za-z0-9])?(?![A-Za-z0-9.-])` -/
def hostRe : Regex :=
  .seq (.one Char.isAlphanum)
    (.seq (Regex.optional (.seq (.many isHost 0 (some 251)) (.one Char.isAlphanum)))
      (.notBefore isHost))

/-- `_EMAIL_RE` -/
def emailRe : Regex :=
  .seq (.notAfter isLocal) (.seq (.many isLocal 1 none) (.seq (.one (· == '@')) hostRe))

/-- `[\s\S]*` -/
def suffixRe : Regex :=
  .many (fun _ => true) 0 none

def schemeRe : Regex :=
  .seq (.many isScheme 0 none)
    (.seq (.one (· == ':')) (.seq (.one (· == '/')) (.one (· == '/'))))

def urlRe : Regex :=
  .seq (.seq (.one Char.isAlpha) schemeRe) suffixRe

def pathMarkRe : Regex :=
  .alt (.seq (.one (· == '~')) (.one isSlash)) <|
    .alt (.seq (.one (· == '.')) (.seq (Regex.optional (.one (· == '.'))) (.one isSlash))) <|
      .alt (.seq (.one Char.isAlpha) (.seq (.one (· == ':')) (.one isSlash))) <|
        .alt (.one (· == '/')) (.seq (.one (· == '\\')) (.one (· == '\\')))

def pathRe : Regex :=
  .seq (.seq (.notAfter isWord) pathMarkRe) suffixRe

/-- The named groups of `_LOCATION_RE`. -/
inductive Location where
  | url
  | path

def locationRules : List (Location × Regex) :=
  [(.url, urlRe), (.path, pathRe)]

/-! ## Passes -/

def replaceLocalPath : Location → List Char
  | .url => ['<', 'u', 'r', 'l', '>']
  | .path => ['<', 'p', 'a', 't', 'h', '>']

def replaceEmail (_ : Unit) : List Char :=
  ['<', 'e', 'm', 'a', 'i', 'l', '>']

def emailPieces (text : List Char) : List (Piece Unit) :=
  scan [((), emailRe)] text

def locationPieces (text : List Char) : List (Piece Location) :=
  scan locationRules text

/-- `_EMAIL_RE.sub("<email>", text)` -/
def withoutEmails (text : List Char) : List Char :=
  (emailPieces text).flatMap (Piece.replaced replaceEmail)

/-- `_LOCATION_RE.sub(_replace_local_path, text)` -/
def withoutLocations (text : List Char) : List Char :=
  (locationPieces text).flatMap (Piece.replaced replaceLocalPath)

section Sanitizer

variable [UnicodeData]

/-- The characters of a text that are kept. -/
def displayable (text : List Char) : List Char :=
  (UnicodeData.nfc text).filter fun c =>
    !bidiControls.contains c &&
      (['\n', '\r', '\t'].contains c || !unsafeCategories.contains (UnicodeData.category c))

/-- The text without its addresses and locations, on one line. -/
def redacted (text : List Char) : List Char :=
  normalizeSpace (withoutLocations (withoutEmails (displayable text)))

def truncated (safe : List Char) (maxChars : Int) : List Char :=
  if (safe.length : Int) ≤ maxChars then safe
  else rstrip (safe.take (max 0 (maxChars - 1)).toNat) ++ ['…']

def sanitizeProviderCommandText (value : Json) (maxChars : Int) : String :=
  match value with
  | .str text => String.ofList (truncated (redacted text.toList) maxChars)
  | _ => ""

end Sanitizer

/-! ## What may not be shown -/

/-- An address, up to the first character of its host. -/
def addressMark (_ : Option Char) (m : List Char) : Prop :=
  ∃ s d, s ≠ [] ∧ (∀ c ∈ s, isLocal c = true) ∧ d.isAlphanum = true ∧ m = s ++ ['@', d]

/-- A scheme and `://`. -/
def urlMark (_ : Option Char) (m : List Char) : Prop :=
  ∃ c s, c.isAlpha = true ∧ (∀ d ∈ s, isScheme d = true) ∧ m = c :: (s ++ [':', '/', '/'])

/-- The marks that start a path where no word character stands before them. -/
inductive PathMark : List Char → Prop
  | home {c} (slash : isSlash c = true) : PathMark ['~', c]
  | here {c} (slash : isSlash c = true) : PathMark ['.', c]
  | parent {c} (slash : isSlash c = true) : PathMark ['.', '.', c]
  | drive {d c} (letter : d.isAlpha = true) (slash : isSlash c = true) : PathMark [d, ':', c]
  | root : PathMark ['/']
  | share : PathMark ['\\', '\\']

def pathMark (last : Option Char) (m : List Char) : Prop :=
  (∀ c, last = some c → isWord c = false) ∧ PathMark m

/-- A text that may be shown within a length. -/
structure Clean (bound : Int) (out : List Char) : Prop where
  noAddress : ¬Occurs addressMark out
  noUrl : ¬Occurs urlMark out
  noPath : ¬Occurs pathMark out
  fits : (out.length : Int) ≤ bound

/-! ## Characters -/

theorem alphanum_ink {c : Char} (h : c.isAlphanum = true) : isspace c = false := by
  unfold Char.isAlphanum Char.isAlpha Char.isUpper Char.isLower Char.isDigit at h
  simp only [Bool.or_eq_true, Bool.and_eq_true, decide_eq_true_eq, UInt32.le_iff_toNat_le,
    ge_iff_le] at h
  change ((65 ≤ c.toNat ∧ c.toNat ≤ 90) ∨ (97 ≤ c.toNat ∧ c.toNat ≤ 122)) ∨
    (48 ≤ c.toNat ∧ c.toNat ≤ 57) at h
  simp only [isspace, Bool.or_eq_false_iff, Bool.and_eq_false_iff, decide_eq_false_iff_not,
    beq_eq_false_iff_ne]
  omega

theorem local_ink {c : Char} (h : isLocal c = true) : isspace c = false := by
  cases Bool.or_eq_true_iff.mp h with
  | inl h => exact alphanum_ink h
  | inr h =>
      have hall : ∀ d ∈ ['.', '!', '#', '$', '%', '&', '\'', '*', '+', '/', '=', '?', '^', '_',
          '\x60', '\x7b', '|', '\x7d', '~', '-'], isspace d = false :=
        List.all_iff_forall_prop.mp (by decide)
      exact hall c (List.contains_iff_mem.mp h)

theorem isScheme_ink {c : Char} (h : isScheme c = true) : isspace c = false := by
  unfold isScheme at h
  simp only [Bool.or_eq_true, beq_iff_eq] at h
  rcases h with ((h | rfl) | rfl) | rfl
  · exact alphanum_ink h
  all_goals decide

theorem isSlash_ink {c : Char} (h : isSlash c = true) : isspace c = false := by
  unfold isSlash at h
  simp only [Bool.or_eq_true, beq_iff_eq] at h
  rcases h with rfl | rfl <;> decide

theorem alpha_alphanum {c : Char} (h : c.isAlpha = true) : c.isAlphanum = true := by
  unfold Char.isAlphanum
  rw [h, Bool.true_or]

theorem space_not_word {c : Char} (h : isspace c = true) : isWord c = false := by
  cases hword : isWord c with
  | false => rfl
  | true =>
      cases Bool.or_eq_true_iff.mp hword with
      | inl halnum =>
          rw [alphanum_ink halnum] at h
          cases h
      | inr hunder =>
          rw [beq_iff_eq.mp hunder] at h
          exact absurd h (by decide)

/-! ## Solid marks -/

/-- The last character before the `@`, and the first of the host. -/
def addressCore (_ : Option Char) (m : List Char) : Prop :=
  ∃ c d, isLocal c = true ∧ d.isAlphanum = true ∧ m = [c, '@', d]

theorem occurs_address {t : List Char} : Occurs addressMark t ↔ Occurs addressCore t := by
  constructor
  · rintro ⟨a, m, b, rfl, s, d, hne, hs, hd, rfl⟩
    refine ⟨a ++ s.dropLast, _, b, ?_, s.getLast hne, d, hs _ (List.getLast_mem hne), hd, rfl⟩
    have hsplit := List.dropLast_append_getLast hne
    calc a ++ (s ++ ['@', d]) ++ b
        = a ++ (s.dropLast ++ [s.getLast hne] ++ ['@', d]) ++ b := by rw [hsplit]
      _ = a ++ s.dropLast ++ [s.getLast hne, '@', d] ++ b := by simp
  · rintro ⟨a, m, b, rfl, c, d, hc, hd, rfl⟩
    refine ⟨a, _, b, rfl, [c], d, List.cons_ne_nil _ _, ?_, hd, rfl⟩
    intro e he
    rw [List.mem_singleton.mp he]
    exact hc

theorem addressCore_solid : Solid addressCore where
  ne_nil := by
    rintro last m ⟨c, d, -, -, rfl⟩
    exact List.cons_ne_nil _ _
  inked := by
    rintro last m ⟨c, d, hc, hd, rfl⟩ e he
    simp only [List.mem_cons, List.not_mem_nil, or_false] at he
    rcases he with rfl | rfl | rfl
    · exact local_ink hc
    · decide
    · exact alphanum_ink hd
  space := fun _ => Iff.rfl

theorem urlMark_solid : Solid urlMark where
  ne_nil := by
    rintro last m ⟨c, s, -, -, rfl⟩
    exact List.cons_ne_nil _ _
  inked := by
    rintro last m ⟨c, s, hc, hs, rfl⟩ e he
    simp only [List.mem_cons, List.mem_append, List.not_mem_nil, or_false] at he
    rcases he with rfl | he | rfl | rfl | rfl
    · exact alphanum_ink (alpha_alphanum hc)
    · exact isScheme_ink (hs e he)
    all_goals decide
  space := fun _ => Iff.rfl

theorem PathMark.ink {m : List Char} (h : PathMark m) : m ≠ [] ∧ ∀ c ∈ m, isspace c = false := by
  have htilde : isspace '~' = false := by decide
  have hdot : isspace '.' = false := by decide
  have hcolon : isspace ':' = false := by decide
  have hroot : isspace '/' = false := by decide
  have hshare : isspace '\\' = false := by decide
  cases h with
  | home slash => simp [htilde, isSlash_ink slash]
  | here slash => simp [hdot, isSlash_ink slash]
  | parent slash => simp [hdot, isSlash_ink slash]
  | drive letter slash =>
      simp [hcolon, isSlash_ink slash, alphanum_ink (alpha_alphanum letter)]
  | root => simp [hroot]
  | share => simp [hshare]

theorem pathMark_solid : Solid pathMark where
  ne_nil := fun h => h.2.ink.1
  inked := fun h => h.2.ink.2
  space := by
    intro c m hc
    unfold pathMark
    have hword := space_not_word hc
    constructor
    · exact fun h => ⟨(fun _ hlast => nomatch hlast), h.2⟩
    · rintro ⟨-, hm⟩
      refine ⟨?_, hm⟩
      rintro d ⟨⟩
      exact hword

/-- The end of a location mark is a slash. -/
def SlashEnded (m : List Char) : Prop :=
  ∃ r c, m = r ++ [c] ∧ isSlash c = true

theorem urlMark_slashEnded {last : Option Char} {m : List Char} (h : urlMark last m) :
    SlashEnded m := by
  obtain ⟨c, s, -, -, rfl⟩ := h
  exact ⟨c :: (s ++ [':', '/']), '/', by simp, by decide⟩

theorem PathMark.slashEnded {m : List Char} (h : PathMark m) : SlashEnded m := by
  cases h with
  | home slash => exact ⟨['~'], _, rfl, slash⟩
  | here slash => exact ⟨['.'], _, rfl, slash⟩
  | parent slash => exact ⟨['.', '.'], _, rfl, slash⟩
  | drive letter slash => exact ⟨[_, ':'], _, rfl, slash⟩
  | root => exact ⟨[], '/', rfl, by decide⟩
  | share => exact ⟨['\\'], '\\', rfl, by decide⟩

/-! ## Locations -/

theorem suffixRe_toEnd : suffixRe.ToEnd :=
  Regex.toEnd_many fun _ => rfl

theorem mem_suffixRe (x : Place) : x ∈ suffixRe.ends x :=
  Regex.mem_many.mpr ⟨[], by simp, Nat.le_refl 0, by simp, .refl x⟩

theorem locationRules_toEnd : ∀ rule ∈ locationRules, rule.2.ToEnd := by
  intro rule hrule
  simp only [locationRules, List.mem_cons, List.not_mem_nil, or_false] at hrule
  rcases hrule with rfl | rfl
  · exact suffixRe_toEnd.seq
  · exact suffixRe_toEnd.seq

/-- Where no location is found, neither group matches. -/
theorem not_mem_of_idle {x : Place} (hidle : Idle locationRules x) (hne : x.rest ≠ []) :
    (∀ y, y ∉ urlRe.ends x) ∧ ∀ y, y ∉ pathRe.ends x := by
  have hpositive : x.rest.length ≠ 0 := fun h => hne (List.length_eq_zero_iff.mp h)
  have hurl : urlRe.match x = none := by
    cases h : urlRe.match x with
    | none => rfl
    | some y =>
        have hend := suffixRe_toEnd.seq x y h
        have hfirst : firstMatch locationRules x = some (.url, x.rest.length) := by
          simp [firstMatch, locationRules, h, hend]
        exact absurd (hidle _ _ hfirst) hpositive
  have hpath : pathRe.match x = none := by
    cases h : pathRe.match x with
    | none => rfl
    | some y =>
        have hend := suffixRe_toEnd.seq x y h
        have hfirst : firstMatch locationRules x = some (.path, x.rest.length) := by
          simp [firstMatch, locationRules, hurl, h, hend]
        exact absurd (hidle _ _ hfirst) hpositive
  exact ⟨Regex.match_eq_none.mp hurl, Regex.match_eq_none.mp hpath⟩

theorem mem_urlRe {before m rest : List Char} {last : Option Char} (h : urlMark last m) :
    ∃ y, y ∈ urlRe.ends ⟨before, m ++ rest⟩ := by
  obtain ⟨c, s, hc, hs, rfl⟩ := h
  refine ⟨_, Regex.mem_seq.mpr ⟨_, Regex.mem_seq.mpr ⟨_, Regex.mem_one.mpr ⟨c, hc, .one rfl⟩,
    Regex.mem_seq.mpr ⟨⟨s.reverse ++ c :: before, [':', '/', '/'] ++ rest⟩,
      Regex.mem_many.mpr ⟨s, hs, Nat.zero_le _, by simp, ⟨?_, rfl⟩⟩,
      Regex.mem_seq.mpr ⟨_, Regex.mem_one.mpr ⟨':', rfl, .one rfl⟩,
        Regex.mem_seq.mpr ⟨_, Regex.mem_one.mpr ⟨'/', rfl, .one rfl⟩,
          Regex.mem_one.mpr ⟨'/', rfl, .one rfl⟩⟩⟩⟩⟩, mem_suffixRe _⟩⟩
  exact List.append_assoc s [':', '/', '/'] rest

theorem mem_pathMarkRe {before m : List Char} (rest : List Char) (h : PathMark m) :
    ∃ y, y ∈ pathMarkRe.ends ⟨before, m ++ rest⟩ := by
  unfold pathMarkRe
  simp only [Regex.mem_alt]
  cases h with
  | home slash =>
      exact ⟨_, .inl (Regex.mem_seq.mpr ⟨_, Regex.mem_one.mpr ⟨'~', rfl, .one rfl⟩,
        Regex.mem_one.mpr ⟨_, slash, .one rfl⟩⟩)⟩
  | here slash =>
      exact ⟨_, .inr (.inl (Regex.mem_seq.mpr ⟨_, Regex.mem_one.mpr ⟨'.', rfl, .one rfl⟩,
        Regex.mem_seq.mpr ⟨_, Regex.mem_alt.mpr (.inr (Regex.mem_empty.mpr rfl)),
          Regex.mem_one.mpr ⟨_, slash, .one rfl⟩⟩⟩))⟩
  | parent slash =>
      exact ⟨_, .inr (.inl (Regex.mem_seq.mpr ⟨_, Regex.mem_one.mpr ⟨'.', rfl, .one rfl⟩,
        Regex.mem_seq.mpr ⟨_, Regex.mem_alt.mpr (.inl (Regex.mem_one.mpr ⟨'.', rfl, .one rfl⟩)),
          Regex.mem_one.mpr ⟨_, slash, .one rfl⟩⟩⟩))⟩
  | drive letter slash =>
      exact ⟨_, .inr (.inr (.inl (Regex.mem_seq.mpr ⟨_, Regex.mem_one.mpr ⟨_, letter, .one rfl⟩,
        Regex.mem_seq.mpr ⟨_, Regex.mem_one.mpr ⟨':', rfl, .one rfl⟩,
          Regex.mem_one.mpr ⟨_, slash, .one rfl⟩⟩⟩)))⟩
  | root =>
      exact ⟨_, .inr (.inr (.inr (.inl (Regex.mem_one.mpr ⟨'/', rfl, .one rfl⟩))))⟩
  | share =>
      exact ⟨_, .inr (.inr (.inr (.inr (Regex.mem_seq.mpr ⟨_,
        Regex.mem_one.mpr ⟨'\\', rfl, .one rfl⟩, Regex.mem_one.mpr ⟨'\\', rfl, .one rfl⟩⟩))))⟩

theorem mem_pathRe {before m rest : List Char} (h : pathMark before.head? m) :
    ∃ y, y ∈ pathRe.ends ⟨before, m ++ rest⟩ := by
  obtain ⟨y, hy⟩ := mem_pathMarkRe rest h.2
  exact ⟨y, Regex.mem_seq.mpr ⟨y, Regex.mem_seq.mpr ⟨_, Regex.mem_notAfter.mpr ⟨rfl, h.1⟩, hy⟩,
    mem_suffixRe y⟩⟩

/-- Every mark of a kind makes one of the location groups match. -/
def Located (M : Option Char → List Char → Prop) : Prop :=
  ∀ before m rest, M before.head? m →
    m ≠ [] ∧ ((∃ y, y ∈ urlRe.ends ⟨before, m ++ rest⟩) ∨ ∃ y, y ∈ pathRe.ends ⟨before, m ++ rest⟩)

theorem urlMark_located : Located urlMark :=
  fun _ _ _ h => ⟨urlMark_solid.ne_nil h, .inl (mem_urlRe h)⟩

theorem pathMark_located : Located pathMark :=
  fun _ _ _ h => ⟨pathMark_solid.ne_nil h, .inr (mem_pathRe h)⟩

theorem flatMap_source_map (s : List Char) :
    (s.map (Piece.plain (μ := Location))).flatMap Piece.source = s := by
  induction s with
  | nil => rfl
  | cons c s ih => rw [List.map_cons, List.flatMap_cons, ih]; rfl

end AgentsServer.ProviderCommands

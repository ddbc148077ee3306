import AgentsServer.Library.JsonText
import Mathlib.Algebra.Field.Rat
import Mathlib.Data.List.TakeWhile

/-!
# Reading JSON text

`json.loads` with the value it builds. A number is known by the literal that
`json.dumps` writes for it; what the float of a literal is written as is a parameter.
Every value that `json.dumps` can write is read back from its compact text.
-/

namespace AgentsServer.Library

/-! ## Numbers -/

/-- A number of the grammar `-?(0|[1-9]\d*)(\.\d+)?([eE][-+]?\d+)?` by its parts. -/
structure Decimal where
  negative : Bool
  whole : List Char
  fraction : List Char
  power : Option Int
  deriving DecidableEq

namespace Decimal

/-- A nonempty run of digits with a sign. -/
def signed (text : List Char) : Option Int :=
  let digits (cs : List Char) : Option Int :=
    if cs ≠ [] ∧ cs.all Char.isDigit = true then some (Nat.ofDigitChars 10 cs 0) else none
  match text with
  | '-' :: rest => (digits rest).map (- ·)
  | '+' :: rest => digits rest
  | rest => digits rest

/-- The rest of a number after its digits. -/
def power? : List Char → Option (Option Int)
  | [] => some none
  | c :: rest => if c = 'e' ∨ c = 'E' then (signed rest).map some else none

def ofText? (text : List Char) : Option Decimal := do
  let negative := text.head? == some '-'
  let text := if negative then text.tail else text
  let whole := text.takeWhile Char.isDigit
  if whole = [] ∨ (whole.head? = some '0' ∧ whole ≠ ['0']) then none
  let rest := text.dropWhile Char.isDigit
  if rest.head? = some '.' then do
    let fraction := rest.tail.takeWhile Char.isDigit
    if fraction = [] then none
    let power ← power? (rest.tail.dropWhile Char.isDigit)
    some ⟨negative, whole, fraction, power⟩
  else do
    let power ← power? rest
    some ⟨negative, whole, [], power⟩

def isInt (d : Decimal) : Bool := d.fraction.isEmpty && d.power.isNone

def mantissa (d : Decimal) : Int :=
  let digits : Int := Nat.ofDigitChars 10 (d.whole ++ d.fraction) 0
  if d.negative then -digits else digits

def value (d : Decimal) : Rat := d.mantissa * 10 ^ (d.power.getD 0 - d.fraction.length)

end Decimal

/-- What a number literal denotes. -/
def NumLit.value? (literal : NumLit) : Option Rat :=
  (Decimal.ofText? literal.digits).map Decimal.value

/-- `repr(float(text))` of a number with a fraction or an exponent, where it is finite. -/
class FloatText where
  repr : List Char → Option NumLit

/-- The number of a text, as `json.dumps` writes it. `int` accepts at most 4300 digits. -/
def loadNumber [FloatText] (text : List Char) : Option NumLit := do
  let d ← Decimal.ofText? text
  if d.isInt then
    if d.whole.length ≤ 4300 then some (NumLit.ofInt d.mantissa) else none
  else FloatText.repr text

namespace Json

/-! ## Texts -/

def isSpace (c : Char) : Bool := c == ' ' || c == '\t' || c == '\n' || c == '\r'

def hexDigit? (c : Char) : Option Nat :=
  if c.isDigit then some (c.toNat - 48)
  else if 'a' ≤ c ∧ c ≤ 'f' then some (c.toNat - 87)
  else if 'A' ≤ c ∧ c ≤ 'F' then some (c.toNat - 55)
  else none

/-- Four hexadecimal digits. -/
def unit? : List Char → Option (Nat × List Char)
  | a :: b :: c :: d :: rest => do
      let a ← hexDigit? a
      let b ← hexDigit? b
      let c ← hexDigit? c
      let d ← hexDigit? d
      some (4096 * a + 256 * b + 16 * c + d, rest)
  | _ => none

/-- The character after `\u`: one code unit, or two that form a pair. A lone surrogate is no
character. -/
def unicode? (text : List Char) : Option (Char × List Char) := do
  let (high, rest) ← unit? text
  if high < 0xD800 ∨ 0xE000 ≤ high then some (Char.ofNat high, rest)
  else if high < 0xDC00 then
    match rest with
    | '\\' :: 'u' :: rest => do
        let (low, rest) ← unit? rest
        if 0xDC00 ≤ low ∧ low < 0xE000
        then some (Char.ofNat (0x10000 + 1024 * (high - 0xD800) + (low - 0xDC00)), rest)
        else none
    | _ => none
  else none

/-- One character of a quoted text. -/
def character? : List Char → Option (Char × List Char)
  | '\\' :: 'u' :: rest => unicode? rest
  | '\\' :: c :: rest =>
      if c = '"' ∨ c = '\\' ∨ c = '/' then some (c, rest)
      else if c = 'n' then some ('\n', rest)
      else if c = 'r' then some ('\r', rest)
      else if c = 't' then some ('\t', rest)
      else if c = 'b' then some (Char.ofNat 8, rest)
      else if c = 'f' then some (Char.ofNat 12, rest)
      else none
  | c :: rest => if c = '\\' ∨ c.toNat < 32 then none else some (c, rest)
  | [] => none

/-- A quoted text after its opening quote. -/
def chars? : Nat → List Char → Option (List Char × List Char)
  | 0, _ => none
  | fuel + 1, text =>
      match text with
      | '"' :: rest => some ([], rest)
      | _ => do
          let (c, rest) ← character? text
          let (cs, rest) ← chars? fuel rest
          some (c :: cs, rest)

/-! ## Values -/

/-- A dictionary: the last value of a key counts. -/
def setField (fields : List (String × Json)) (key : String) (value : Json) :
    List (String × Json) :=
  if fields.any fun f => f.1 == key
  then fields.map fun f => if f.1 == key then (key, value) else f
  else fields ++ [(key, value)]

def dict (fields : List (String × Json)) : List (String × Json) :=
  fields.foldl (fun d f => setField d f.1 f.2) []

/-- A value that is not a container or a text. `NaN` and the infinities are left out: no
caller accepts them. -/
def scalar? [FloatText] (text : List Char) : Option (Json × List Char) :=
  match text with
  | 'n' :: 'u' :: 'l' :: 'l' :: rest => some (.null, rest)
  | 't' :: 'r' :: 'u' :: 'e' :: rest => some (.bool true, rest)
  | 'f' :: 'a' :: 'l' :: 's' :: 'e' :: rest => some (.bool false, rest)
  | _ => do
      -- what follows a number never goes on with one of these characters
      let isOf (c : Char) : Bool := isNumeral c || c == 'E'
      let literal ← loadNumber (text.takeWhile isOf)
      some (.num literal, text.dropWhile isOf)

mutual

def value? [FloatText] : Nat → List Char → Option (Json × List Char)
  | 0, _ => none
  | fuel + 1, text =>
      match text.dropWhile isSpace with
      | '"' :: rest => do
          let (cs, rest) ← chars? (rest.length + 1) rest
          some (.str (String.ofList cs), rest)
      | '[' :: rest =>
          match rest.dropWhile isSpace with
          | ']' :: rest => some (.arr [], rest)
          | rest => do
              let (items, rest) ← items? fuel rest
              some (.arr items, rest)
      | '{' :: rest =>
          match rest.dropWhile isSpace with
          | '}' :: rest => some (.obj [], rest)
          | rest => do
              let (fields, rest) ← fields? fuel rest
              some (.obj (dict fields), rest)
      | rest => scalar? rest

/-- The items of an array, with the closing bracket. -/
def items? [FloatText] : Nat → List Char → Option (List Json × List Char)
  | 0, _ => none
  | fuel + 1, text => do
      let (item, rest) ← value? fuel text
      match rest.dropWhile isSpace with
      | ']' :: rest => some ([item], rest)
      | ',' :: rest => do
          let (items, rest) ← items? fuel rest
          some (item :: items, rest)
      | _ => none

/-- The fields of an object, with the closing brace. -/
def fields? [FloatText] : Nat → List Char → Option (List (String × Json) × List Char)
  | 0, _ => none
  | fuel + 1, text =>
      match text.dropWhile isSpace with
      | '"' :: rest => do
          let (key, rest) ← chars? (rest.length + 1) rest
          match rest.dropWhile isSpace with
          | ':' :: rest => do
              let (value, rest) ← value? fuel rest
              match rest.dropWhile isSpace with
              | '}' :: rest => some ([(String.ofList key, value)], rest)
              | ',' :: rest => do
                  let (fields, rest) ← fields? fuel rest
                  some ((String.ofList key, value) :: fields, rest)
              | _ => none
          | _ => none
      | _ => none

end

/-- `json.loads` of a text. -/
def loads [FloatText] (text : List Char) : Option Json := do
  let (value, rest) ← value? (text.length + 1) text
  if rest.all isSpace then some value else none

/-! ## Reading what was written -/

theorem hexDigit?_hexDigit : ∀ n < 16, hexDigit? (hexDigit n) = some n := by decide

theorem unit?_unitEscape {n : Nat} (h : n < 65536) (rest : List Char) :
    unit? (hexDigit (n / 4096 % 16) :: hexDigit (n / 256 % 16) :: hexDigit (n / 16 % 16) ::
      hexDigit (n % 16) :: rest) = some (n, rest) := by
  have h1 := hexDigit?_hexDigit (n / 4096 % 16) (by omega)
  have h2 := hexDigit?_hexDigit (n / 256 % 16) (by omega)
  have h3 := hexDigit?_hexDigit (n / 16 % 16) (by omega)
  have h4 := hexDigit?_hexDigit (n % 16) (by omega)
  have hn : 4096 * (n / 4096 % 16) + 256 * (n / 256 % 16) + 16 * (n / 16 % 16) + n % 16 = n := by
    omega
  simp only [unit?, h1, h2, h3, h4, hn, Option.bind_eq_bind, Option.bind_some]

/-- A code unit that is no surrogate. -/
theorem character?_unit {n : Nat} (h : n < 65536) (hplain : n < 0xD800 ∨ 0xE000 ≤ n)
    (rest : List Char) : character? (unitEscape n ++ rest) = some (Char.ofNat n, rest) := by
  have hunit := unit?_unitEscape h rest
  simp only [unitEscape, List.cons_append, List.nil_append, character?, unicode?, hunit,
    Option.bind_eq_bind, Option.bind_some, hplain, if_true]

/-- A pair of surrogates. -/
theorem character?_pair {high low : Nat} (hhigh : 0xD800 ≤ high ∧ high < 0xDC00)
    (hlow : 0xDC00 ≤ low ∧ low < 0xE000) (rest : List Char) :
    character? (unitEscape high ++ (unitEscape low ++ rest)) =
      some (Char.ofNat (0x10000 + 1024 * (high - 0xD800) + (low - 0xDC00)), rest) := by
  have hfirst := unit?_unitEscape (n := high) (by omega) (unitEscape low ++ rest)
  have hsecond := unit?_unitEscape (n := low) (by omega) rest
  have hsurrogate : ¬ (high < 0xD800 ∨ 0xE000 ≤ high) := by omega
  simp only [unitEscape, List.cons_append, List.nil_append] at hfirst hsecond ⊢
  simp only [character?, unicode?, hfirst, hsecond, Option.bind_eq_bind, Option.bind_some,
    hsurrogate, hhigh, hlow, if_true, if_false, and_self]

theorem character?_escape (c : Char) (rest : List Char) :
    character? (escape c ++ rest) = some (c, rest) := by
  unfold escape
  split
  · next h => subst h; rfl
  split
  · next h => subst h; rfl
  split
  · next h => subst h; rfl
  split
  · next h => subst h; rfl
  split
  · next h => subst h; rfl
  split
  · next h => subst h; rfl
  split
  · next h => subst h; rfl
  split
  · next h => rw [character?_unit (by omega) (by omega), Char.ofNat_toNat]
  · next hslash _ _ _ _ _ hsmall =>
      rw [List.cons_append, List.nil_append]
      unfold character?
      split <;> simp_all

/-- Texts escaped with the table are read back: an escaped character is one character, and
never a quote. -/
structure Escapes (esc : Char → List Char) : Prop where
  read : ∀ c rest, character? (esc c ++ rest) = some (c, rest)
  quote : ∀ c rest rest', esc c ++ rest ≠ '"' :: rest'

theorem escapes_escape : Escapes escape := ⟨character?_escape, escape_ne_quote⟩

theorem escapes_ascii : Escapes escapeAscii where
  read := by
    intro c rest
    have hvalid : c.toNat < 0xD800 ∨ 0xDFFF < c.toNat ∧ c.toNat < 0x110000 := c.valid
    unfold escapeAscii
    split
    · exact character?_escape c rest
    split
    · next hbasic => rw [character?_unit hbasic (by omega), Char.ofNat_toNat]
    · next hbasic =>
      rw [List.append_assoc, character?_pair (by omega) (by omega)]
      have hn : 0x10000 + 1024 * (55296 + (c.toNat - 65536) / 1024 - 0xD800) +
          (56320 + (c.toNat - 65536) % 1024 - 0xDC00) = c.toNat := by
        omega
      rw [hn, Char.ofNat_toNat]
  quote := by
    intro c rest rest'
    unfold escapeAscii
    split
    · exact escape_ne_quote c rest rest'
    split
    · rintro ⟨⟩
    · rintro ⟨⟩

variable {esc : Char → List Char}

theorem Escapes.ne_nil (h : Escapes esc) (c : Char) : esc c ≠ [] := by
  intro hnil
  have hread := h.read c []
  rw [hnil] at hread
  cases hread

theorem Escapes.length_le (h : Escapes esc) (cs : List Char) :
    cs.length ≤ (cs.flatMap esc).length := by
  induction cs with
  | nil => exact Nat.le_refl 0
  | cons c cs ih =>
      have hpos := List.length_pos_iff.mpr (h.ne_nil c)
      rw [List.flatMap_cons, List.length_append, List.length_cons]
      omega

theorem Escapes.chars? (h : Escapes esc) (cs rest : List Char) {fuel : Nat}
    (hfuel : cs.length < fuel) :
    chars? fuel (cs.flatMap esc ++ '"' :: rest) = some (cs, rest) := by
  induction cs generalizing fuel with
  | nil =>
      cases fuel with
      | zero => cases hfuel
      | succ fuel => rfl
  | cons c cs ih =>
      cases fuel with
      | zero => cases hfuel
      | succ fuel =>
          have hrest := ih (Nat.lt_of_succ_lt_succ hfuel)
          rw [List.flatMap_cons, List.append_assoc]
          unfold Json.chars?
          split
          next hquote => exact absurd hquote (h.quote c _ _)
          next => simp only [h.read, hrest, Option.bind_eq_bind, Option.bind_some]

/-- What `json.dumps` can write: dictionaries have distinct keys, and the literals are those
of numbers. -/
inductive Proper [FloatText] : Json → Prop where
  | null : Proper .null
  | bool (value : Bool) : Proper (.bool value)
  | num {literal : NumLit} (read : loadNumber literal.digits = some literal) :
      Proper (.num literal)
  | str (text : String) : Proper (.str text)
  | arr {items : List Json} (each : ∀ item ∈ items, Proper item) : Proper (.arr items)
  | obj {fields : List (String × Json)} (keys : (fields.map Prod.fst).Nodup)
      (each : ∀ field ∈ fields, Proper field.2) : Proper (.obj fields)

theorem dict_append {fields more : List (String × Json)}
    (h : ((fields ++ more).map Prod.fst).Nodup) :
    more.foldl (fun d f => setField d f.1 f.2) fields = fields ++ more := by
  induction more generalizing fields with
  | nil => rw [List.foldl_nil, List.append_nil]
  | cons f more ih =>
      have hfresh : (fields.any fun g => g.1 == f.1) = false := by
        rw [List.any_eq_false]
        intro g hg
        rw [List.map_append, List.map_cons, List.nodup_append] at h
        simpa using h.2.2 g.1 (List.mem_map_of_mem hg) f.1 List.mem_cons_self
      rw [List.foldl_cons, setField, hfresh, if_neg Bool.false_ne_true, ih (by simpa using h),
        List.append_assoc, List.singleton_append]

/-- Distinct keys are kept as they are. -/
theorem dict_eq_self {fields : List (String × Json)} (h : (fields.map Prod.fst).Nodup) :
    dict fields = fields :=
  dict_append (by simpa using h)

/-- A text that does not go on with a character of a number. -/
def Ended (rest : List Char) : Prop :=
  ∀ c cs, rest = c :: cs → (isNumeral c || c == 'E') = false

theorem ended_nil : Ended [] := by
  intro c cs h
  cases h

theorem ended_cons {c : Char} {rest : List Char} (h : (isNumeral c || c == 'E') = false) :
    Ended (c :: rest) := by
  intro d cs he
  cases he
  exact h

theorem ended_items (items : List Json) (rest : List Char) :
    Ended (renderItems esc items ++ rest) := by
  cases items <;> exact ended_cons rfl

theorem ended_fields (fields : List (String × Json)) (rest : List Char) :
    Ended (renderFields esc fields ++ rest) := by
  cases fields <;> exact ended_cons rfl

/-- A value does not start with a space. -/
theorem dropWhile_render (v : Json) (rest : List Char) :
    (render esc v ++ rest).dropWhile isSpace = render esc v ++ rest := by
  obtain ⟨c, cs, hv, hc⟩ := render_lead v
  have hspace : isSpace c = false := by
    cases v with
    | num literal =>
        have hnumeral := literal.numeral c (by
          change literal.digits = c :: cs at hv
          rw [hv]
          exact List.mem_cons_self)
        rw [Bool.eq_false_iff]
        intro hs
        simp only [isSpace, Bool.or_eq_true, beq_iff_eq] at hs
        rcases hs with ((rfl | rfl) | rfl) | rfl <;> cases hnumeral
    | null => cases hv; rfl
    | bool value => cases value <;> cases hv <;> rfl
    | str text => cases hv; rfl
    | arr items => cases items <;> cases hv <;> rfl
    | obj fields => cases fields <;> cases hv <;> rfl
  rw [hv, List.cons_append, List.dropWhile_cons_of_neg (by simp [hspace])]

theorem scalar?_num [FloatText] {literal : NumLit} {rest : List Char}
    (hread : loadNumber literal.digits = some literal) (hrest : Ended rest) :
    scalar? (literal.digits ++ rest) = some (.num literal, rest) := by
  have hof : ∀ c ∈ literal.digits, (isNumeral c || c == 'E') = true := by
    intro c hc
    rw [literal.numeral c hc, Bool.true_or]
  have htake : (literal.digits ++ rest).takeWhile (fun c => isNumeral c || c == 'E') =
      literal.digits := by
    rw [List.takeWhile_append_of_pos hof]
    cases rest with
    | nil => rw [List.takeWhile_nil, List.append_nil]
    | cons c cs => rw [List.takeWhile_cons_of_neg (by simp [hrest c cs rfl]), List.append_nil]
  have hdrop : (literal.digits ++ rest).dropWhile (fun c => isNumeral c || c == 'E') = rest := by
    rw [List.dropWhile_append_of_pos hof]
    cases rest with
    | nil => rfl
    | cons c cs => rw [List.dropWhile_cons_of_neg (by simp [hrest c cs rfl])]
  obtain ⟨c, cs, hdigits⟩ := List.exists_cons_of_ne_nil literal.nonempty
  have hc := literal.numeral c (by rw [hdigits]; exact List.mem_cons_self)
  unfold scalar?
  split
  next h =>
    rw [hdigits, List.cons_append, List.cons.injEq] at h
    rw [h.1] at hc
    cases hc
  next h =>
    rw [hdigits, List.cons_append, List.cons.injEq] at h
    rw [h.1] at hc
    cases hc
  next h =>
    rw [hdigits, List.cons_append, List.cons.injEq] at h
    rw [h.1] at hc
    cases hc
  next =>
    dsimp only
    rw [htake, hdrop, hread]
    rfl

/-- A number is read as a scalar. -/
theorem value?_num [FloatText] {literal : NumLit} {rest : List Char} (fuel : Nat)
    (hread : loadNumber literal.digits = some literal) (hrest : Ended rest) :
    value? (fuel + 1) (literal.digits ++ rest) = some (.num literal, rest) := by
  have hdrop := @dropWhile_render escape (.num literal) rest
  change (literal.digits ++ rest).dropWhile isSpace = literal.digits ++ rest at hdrop
  obtain ⟨c, cs, hdigits⟩ := List.exists_cons_of_ne_nil literal.nonempty
  have hc := literal.numeral c (by rw [hdigits]; exact List.mem_cons_self)
  unfold value?
  rw [hdrop]
  split
  next h =>
    rw [hdigits, List.cons_append, List.cons.injEq] at h
    rw [h.1] at hc
    cases hc
  next h =>
    rw [hdigits, List.cons_append, List.cons.injEq] at h
    rw [h.1] at hc
    cases hc
  next h =>
    rw [hdigits, List.cons_append, List.cons.injEq] at h
    rw [h.1] at hc
    cases hc
  next => exact scalar?_num hread hrest

theorem quote_append (text : String) (rest : List Char) :
    quote esc text ++ rest = '"' :: (text.toList.flatMap esc ++ '"' :: rest) := by
  simp [quote]

theorem Escapes.chars?_quote (h : Escapes esc) (text : String) (rest : List Char) :
    Json.chars? ((text.toList.flatMap esc ++ '"' :: rest).length + 1)
      (text.toList.flatMap esc ++ '"' :: rest) = some (text.toList, rest) := by
  apply h.chars?
  have := h.length_le text.toList
  rw [List.length_append]
  omega

theorem value?_array [FloatText] (fuel : Nat) (text : List Char) :
    value? (fuel + 1) ('[' :: text) =
      match text.dropWhile isSpace with
      | ']' :: rest => some (.arr [], rest)
      | rest => (items? fuel rest).bind fun (items, rest) => some (.arr items, rest) := rfl

theorem value?_object [FloatText] (fuel : Nat) (text : List Char) :
    value? (fuel + 1) ('{' :: '"' :: text) =
      (fields? fuel ('"' :: text)).bind fun (fields, rest) => some (.obj (dict fields), rest) := rfl

theorem length_render_pos (v : Json) : 0 < (render esc v).length := by
  obtain ⟨c, cs, hrender, -⟩ := render_lead v
  rw [hrender]
  exact Nat.succ_pos _

section Fuel

variable [FloatText]

/-- With so much fuel every text of a value is read. -/
def ReadsValue (esc : Char → List Char) (fuel : Nat) : Prop :=
  ∀ v, Proper v → ∀ rest, Ended rest → (render esc v).length ≤ fuel →
    value? fuel (render esc v ++ rest) = some (v, rest)

def ReadsItems (esc : Char → List Char) (fuel : Nat) : Prop :=
  ∀ item items, (∀ v ∈ item :: items, Proper v) → ∀ rest,
    (render esc item ++ renderItems esc items).length ≤ fuel →
    items? fuel (render esc item ++ (renderItems esc items ++ rest)) =
      some (item :: items, rest)

def ReadsFields (esc : Char → List Char) (fuel : Nat) : Prop :=
  ∀ key value fields, (∀ f ∈ (key, value) :: fields, Proper f.2) → ∀ rest,
    (quote esc key ++
      ':' :: (render esc value ++ renderFields esc fields)).length ≤ fuel →
    fields? fuel (quote esc key ++
      ':' :: (render esc value ++ (renderFields esc fields ++ rest))) =
      some ((key, value) :: fields, rest)

variable {fuel : Nat}

theorem readsItems_succ (hvalue : ReadsValue esc fuel) (hitems : ReadsItems esc fuel) :
    ReadsItems esc (fuel + 1) := by
  intro item items each rest hlength
  rw [List.length_append] at hlength
  have hpos : 0 < (renderItems esc items).length := by
    cases items <;> exact Nat.succ_pos _
  have hfirst := hvalue item (each item List.mem_cons_self) _ (@ended_items esc items rest) (by omega)
  unfold items?
  rw [hfirst]
  cases items with
  | nil => rfl
  | cons second more =>
      have hitem := @length_render_pos esc item
      have hmore := hitems second more (fun v hv => each v (List.mem_cons_of_mem _ hv)) rest (by
        simp only [renderItems, List.length_cons] at hlength
        omega)
      simp only [renderItems, List.cons_append, List.append_assoc, Option.bind_eq_bind,
        Option.bind_some]
      rw [List.dropWhile_cons_of_neg (by decide)]
      simp only [hmore, Option.bind_some]

theorem readsFields_succ (hesc : Escapes esc) (hvalue : ReadsValue esc fuel) (hfields : ReadsFields esc fuel) :
    ReadsFields esc (fuel + 1) := by
  intro key value fields each rest hlength
  rw [List.length_append, List.length_cons, List.length_append] at hlength
  have hfirst := hvalue value (each _ List.mem_cons_self) _ (@ended_fields esc fields rest) (by omega)
  unfold fields?
  rw [quote_append, List.dropWhile_cons_of_neg (by decide)]
  simp only [hesc.chars?_quote, Option.bind_eq_bind, Option.bind_some, String.ofList_toList]
  rw [List.dropWhile_cons_of_neg (by decide)]
  simp only [hfirst, Option.bind_some]
  cases fields with
  | nil => rfl
  | cons second more =>
      obtain ⟨name, second⟩ := second
      have hmore := hfields name second more (fun f hf => each f (List.mem_cons_of_mem _ hf))
        rest (by
          simp only [renderFields, List.length_cons] at hlength
          omega)
      simp only [renderFields, List.cons_append, List.append_assoc]
      rw [List.dropWhile_cons_of_neg (by decide)]
      simp only [hmore, Option.bind_some]

theorem readsValue_succ (hesc : Escapes esc) (hitems : ReadsItems esc fuel) (hfields : ReadsFields esc fuel) :
    ReadsValue esc (fuel + 1) := by
  intro v hv rest hrest hlength
  cases hv with
  | null => rfl
  | bool value => cases value <;> rfl
  | num hread => exact value?_num fuel hread hrest
  | str text =>
      rw [render, quote_append]
      unfold value?
      rw [List.dropWhile_cons_of_neg (by decide)]
      simp only [hesc.chars?_quote, Option.bind_eq_bind, Option.bind_some, String.ofList_toList]
  | @arr items each =>
      cases items with
      | nil => rfl
      | cons item items =>
          have hread := hitems item items each rest (by
            simp only [render, List.length_cons] at hlength
            omega)
          have hfirst := @dropWhile_render esc item (renderItems esc items ++ rest)
          rw [render, List.cons_append, List.append_assoc, value?_array, hfirst]
          split
          next hclose => exact absurd hclose (render_ne_close item _ _)
          next => rw [hread]; rfl
  | @obj fields hkeys each =>
      cases fields with
      | nil => rfl
      | cons field fields =>
          obtain ⟨key, value⟩ := field
          have hread := hfields key value fields each rest (by
            simp only [render, List.length_cons] at hlength
            omega)
          rw [render, List.cons_append, List.append_assoc, List.cons_append, List.append_assoc]
          rw [quote_append] at hread ⊢
          rw [value?_object, hread, Option.bind_some]
          dsimp only
          rw [dict_eq_self hkeys]

/-- Every character of a text costs at most one unit of fuel. -/
theorem reads (hesc : Escapes esc) (fuel : Nat) : ReadsValue esc fuel ∧ ReadsItems esc fuel ∧ ReadsFields esc fuel := by
  induction fuel with
  | zero =>
      refine ⟨?_, ?_, ?_⟩
      · intro v _ rest _ hlength
        have hpos := @length_render_pos esc v
        omega
      · intro item items _ rest hlength
        have hpos := @length_render_pos esc item
        rw [List.length_append] at hlength
        omega
      · intro key value fields _ rest hlength
        rw [List.length_append, List.length_cons] at hlength
        omega
  | succ fuel ih =>
      obtain ⟨hvalue, hitems, hfields⟩ := ih
      exact ⟨readsValue_succ hesc hitems hfields, readsItems_succ hvalue hitems,
        readsFields_succ hesc hvalue hfields⟩

end Fuel

theorem value?_render [FloatText] (h : Escapes esc) {v : Json} (hv : Proper v) :
    value? ((render esc v).length + 1) (render esc v) = some (v, []) := by
  have hread := (reads h ((render esc v).length + 1)).1 v hv [] ended_nil (Nat.le_succ _)
  rw [List.append_nil] at hread
  exact hread

/-- The compact text of a value is read back as that value. -/
theorem loads_render [FloatText] (h : Escapes esc) {v : Json} (hv : Proper v) :
    loads (render esc v) = some v := by
  unfold loads
  rw [value?_render h hv]
  rfl

/-! ## Dictionaries -/

section Dictionaries

variable {fields : List (String × Json)} {key : String} {value : Json}

theorem mem_setField {f : String × Json} (h : f ∈ setField fields key value) :
    f ∈ fields ∨ f = (key, value) := by
  unfold setField at h
  split at h
  · obtain ⟨g, hg, rfl⟩ := List.mem_map.mp h
    split
    · exact .inr rfl
    · exact .inl hg
  · rcases List.mem_append.mp h with h | h
    · exact .inl h
    · exact .inr (List.mem_singleton.mp h)

theorem nodup_setField (h : (fields.map Prod.fst).Nodup) :
    ((setField fields key value).map Prod.fst).Nodup := by
  unfold setField
  split
  · have hkeys : (fields.map fun f => if f.1 == key then (key, value) else f).map Prod.fst =
        fields.map Prod.fst := by
      rw [List.map_map]
      apply List.map_congr_left
      intro f _
      rw [Function.comp_apply]
      split
      · next heq => exact (beq_iff_eq.mp heq).symm
      · rfl
    rw [hkeys]
    exact h
  · next hfresh =>
    rw [List.map_append, List.nodup_append]
    refine ⟨h, List.pairwise_singleton _ _, ?_⟩
    rintro name hname _ hkey rfl
    obtain ⟨f, hf, rfl⟩ := List.mem_map.mp hname
    rw [List.map_singleton, List.mem_singleton] at hkey
    exact hfresh (List.any_eq_true.mpr ⟨f, hf, beq_iff_eq.mpr hkey⟩)

theorem lookup_setField_ne {other : String} (h : key ≠ other) :
    lookup (setField fields key value) other = lookup fields other := by
  have hne : (other == key) = false := beq_eq_false_iff_ne.mpr (Ne.symm h)
  unfold setField lookup
  split
  · clear * - hne
    induction fields with
    | nil => rfl
    | cons f fields ih =>
        obtain ⟨name, v⟩ := f
        rw [List.map_cons]
        by_cases hname : name = key
        · subst hname
          simp only [beq_self_eq_true, if_true, List.lookup_cons, hne]
          exact ih
        · simp only [beq_iff_eq, hname, if_false, List.lookup_cons]
          rw [← ih]
          simp only [beq_iff_eq]
  · rw [List.lookup_append]
    simp [List.lookup_cons, hne]

end Dictionaries

/-! ## Numbers that are read back -/

/-- The digits of a positive number do not start with a zero. -/
theorem head_toDigits {n : Nat} (h : 0 < n) : (Nat.toDigits 10 n).head? ≠ some '0' := by
  induction n using Nat.strongRecOn with
  | ind n ih =>
      by_cases hsmall : n < 10
      · have table : ∀ n < 10, 0 < n → [n.digitChar].head? ≠ some '0' := by decide
        rw [Nat.toDigits_of_lt_base hsmall]
        exact table n hsmall h
      · rw [Nat.toDigits_of_base_le (by omega) (by omega), List.head?_append]
        have hhead := ih (n / 10) (by omega) (by omega)
        cases hd : (Nat.toDigits 10 (n / 10)).head? with
        | none =>
            rw [List.head?_eq_none_iff] at hd
            exact absurd hd Nat.toDigits_ne_nil
        | some c =>
            rw [hd] at hhead
            exact hhead

/-- A numeral without a leading zero. -/
theorem ofText?_digits {digits : List Char} (hne : digits ≠ [])
    (hall : digits.all Char.isDigit = true)
    (hzero : digits.head? = some '0' → digits = ['0']) :
    Decimal.ofText? digits = some ⟨false, digits, [], none⟩ := by
  have htake : digits.takeWhile Char.isDigit = digits :=
    List.takeWhile_eq_self_iff.mpr (List.all_eq_true.mp hall)
  have hdrop : digits.dropWhile Char.isDigit = [] :=
    List.dropWhile_eq_nil_iff.mpr (List.all_eq_true.mp hall)
  have hsign : (digits.head? == some '-') = false := by
    cases digits with
    | nil => rfl
    | cons c digits =>
        rw [List.all_cons, Bool.and_eq_true] at hall
        apply beq_eq_false_iff_ne.mpr
        intro heq
        rw [Option.some.inj heq] at hall
        exact absurd hall.1 (by decide)
  have hlead : ¬ (digits = [] ∨ (digits.head? = some '0' ∧ digits ≠ ['0'])) := by
    rintro (hnil | ⟨hhead, hother⟩)
    · exact hne hnil
    · exact hother (hzero hhead)
  unfold Decimal.ofText?
  simp only [hsign, Bool.false_eq_true, if_false, htake, hdrop, hlead, Decimal.power?, List.head?_nil,
    reduceCtorEq]
  rfl

/-- A number of at most 4300 digits is read back. -/
theorem loadNumber_ofNat [FloatText] {n : Nat} (h : (Nat.toDigits 10 n).length ≤ 4300) :
    loadNumber (NumLit.ofNat n).digits = some (NumLit.ofNat n) := by
  have hzero : (Nat.toDigits 10 n).head? = some '0' → Nat.toDigits 10 n = ['0'] := by
    intro hhead
    by_cases hn : 0 < n
    · exact absurd hhead (head_toDigits hn)
    · obtain rfl : n = 0 := by omega
      rfl
  have hread := ofText?_digits Nat.toDigits_ne_nil (NumLit.all_isDigit n) hzero
  change loadNumber (Nat.toDigits 10 n) = _
  unfold loadNumber
  rw [hread]
  have hmantissa : (⟨false, Nat.toDigits 10 n, [], none⟩ : Decimal).mantissa = (n : Int) := by
    unfold Decimal.mantissa
    rw [List.append_nil, Nat.ofDigitChars_ten_toDigits]
    rfl
  simp only [Option.bind_eq_bind, Option.bind_some, Decimal.isInt, List.isEmpty_nil, Option.isNone_none,
    Bool.and_self, if_true, h, hmantissa]
  rw [NumLit.ofInt, if_neg (by omega), Int.natAbs_natCast]

theorem int?_ofNat (n : Nat) : int? (.num (NumLit.ofNat n)) = some (n : Int) := by
  have hofInt := NumLit.toInt?_ofInt (n : Int)
  rw [NumLit.ofInt, if_neg (by omega), Int.natAbs_natCast] at hofInt
  exact hofInt

/-! ## Bytes -/

/-- `bytes.decode("utf-8")`. -/
def decodeUtf8? (bytes : Bytes) : Option (List Char) :=
  (String.fromUTF8? ⟨bytes.toArray⟩).map String.toList

theorem decodeUtf8?_utf8 (cs : List Char) : decodeUtf8? (utf8 cs) = some cs := by
  have hbytes : (⟨(utf8 cs).toArray⟩ : ByteArray) = (String.ofList cs).toUTF8 := by
    rw [utf8, Array.toArray_toList]
  have hvalid : (String.ofList cs).toUTF8.IsValidUTF8 := (String.ofList cs).isValidUTF8
  rw [decodeUtf8?, hbytes, String.fromUTF8?, dif_pos hvalid]
  exact congrArg some String.toList_ofList

theorem length_utf8 (cs : List Char) : (utf8 cs).length = utf8Size cs := by
  induction cs with
  | nil => rfl
  | cons c cs ih =>
      have hchar : (utf8 [c]).length = c.utf8Size := by
        rw [utf8, Array.length_toList]
        exact String.utf8ByteSize_singleton
      rw [← List.singleton_append, utf8_append, List.length_append, ih, hchar, utf8Size_append,
        utf8Size_cons, utf8Size_nil]
      rfl

/-- `json.dumps` with `ensure_ascii=False` and compact separators, in UTF-8. -/
def dumps (value : Json) : Bytes := utf8 (render escape value)

/-- `json.loads` of the UTF-8 bytes of a text. -/
def loadsBytes [FloatText] (bytes : Bytes) : Option Json := (decodeUtf8? bytes).bind loads

theorem loadsBytes_dumps [FloatText] {v : Json} (hv : Proper v) : loadsBytes (dumps v) = some v := by
  rw [loadsBytes, dumps, decodeUtf8?_utf8, Option.bind_some, loads_render escapes_escape hv]

end Json

end AgentsServer.Library

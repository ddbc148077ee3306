import AgentsServer.Library.Utf8
import Mathlib.Logic.Basic

/-!
# Whether a text is JSON

`json.loads` without the value it builds: which byte strings it refuses, which it gives up
because their brackets nest too deeply, and whether the value is an object. The scanner is
a machine with one mode and a stack of open brackets, and reads one character at a time.
-/

namespace AgentsServer.Library.JsonScan

inductive Frame where
  | array
  | object
  deriving DecidableEq

/-- What the scanner expects. A text stands for a name or for a value, and a number is
known by the part it is in. -/
inductive Mode where
  | value
  | item
  | field
  | name
  | colon
  | done
  | text (isName : Bool)
  | escape (isName : Bool)
  | unicode (isName : Bool) (owed : Nat)
  | word (rest : List Char)
  | minus
  | zero
  | digits (count : Nat)
  | point
  | fraction
  | exponent
  | sign
  | power
  deriving DecidableEq

structure Scanner where
  stack : List Frame
  mode : Mode
  deriving DecidableEq

inductive Fault where
  | valueError
  | recursionError
  deriving DecidableEq

/-- How deep brackets may nest, and how many digits an integer may have. -/
structure Limits where
  nesting : Nat
  intDigits : Nat

def isSpace (c : Char) : Bool := c == ' ' || c == '\t' || c == '\n' || c == '\r'

def isHex (c : Char) : Bool := c.isDigit || ('a' ≤ c && c ≤ 'f') || ('A' ≤ c && c ≤ 'F')

variable (limits : Limits)

/-- An opening bracket. -/
def enter (stack : List Frame) (frame : Frame) : Except Fault Scanner :=
  if stack.length < limits.nesting then
    .ok ⟨frame :: stack, match frame with | .array => .item | .object => .field⟩
  else .error .recursionError

/-- A closing bracket. -/
def leave : List Frame → Except Fault Scanner
  | _ :: stack => .ok ⟨stack, .done⟩
  | [] => .error .valueError

/-- The first character of a value. -/
def beginValue (stack : List Frame) (c : Char) : Except Fault Scanner :=
  if c = '{' then enter limits stack .object
  else if c = '[' then enter limits stack .array
  else if c = '"' then .ok ⟨stack, .text false⟩
  else if c = 't' then .ok ⟨stack, .word "rue".toList⟩
  else if c = 'f' then .ok ⟨stack, .word "alse".toList⟩
  else if c = 'n' then .ok ⟨stack, .word "ull".toList⟩
  else if c = 'N' then .ok ⟨stack, .word "aN".toList⟩
  else if c = 'I' then .ok ⟨stack, .word "nfinity".toList⟩
  else if c = '-' then .ok ⟨stack, .minus⟩
  else if c = '0' then .ok ⟨stack, .zero⟩
  else if c.isDigit then .ok ⟨stack, .digits 1⟩
  else .error .valueError

/-- A character after a value. -/
def afterValue (stack : List Frame) (c : Char) : Except Fault Scanner :=
  if isSpace c then .ok ⟨stack, .done⟩
  else
    match stack with
    | [] => .error .valueError
    | .array :: _ =>
        if c = ',' then .ok ⟨stack, .value⟩
        else if c = ']' then leave stack
        else .error .valueError
    | .object :: _ =>
        if c = ',' then .ok ⟨stack, .name⟩
        else if c = '}' then leave stack
        else .error .valueError

def step (s : Scanner) (c : Char) : Except Fault Scanner :=
  match s.mode with
  | .value => if isSpace c then .ok s else beginValue limits s.stack c
  | .item =>
      if isSpace c then .ok s
      else if c = ']' then leave s.stack
      else beginValue limits s.stack c
  | .field =>
      if isSpace c then .ok s
      else if c = '"' then .ok ⟨s.stack, .text true⟩
      else if c = '}' then leave s.stack
      else .error .valueError
  | .name =>
      if isSpace c then .ok s
      else if c = '"' then .ok ⟨s.stack, .text true⟩
      else .error .valueError
  | .colon =>
      if isSpace c then .ok s
      else if c = ':' then .ok ⟨s.stack, .value⟩
      else .error .valueError
  | .done => afterValue s.stack c
  | .text isName =>
      if c = '"' then .ok ⟨s.stack, if isName then .colon else .done⟩
      else if c = '\\' then .ok ⟨s.stack, .escape isName⟩
      else if c.toNat < 32 then .error .valueError
      else .ok s
  | .escape isName =>
      if c = 'u' then .ok ⟨s.stack, .unicode isName 4⟩
      else if "\"\\/bfnrt".toList.contains c then .ok ⟨s.stack, .text isName⟩
      else .error .valueError
  | .unicode isName owed =>
      if isHex c then
        .ok ⟨s.stack, if owed ≤ 1 then .text isName else .unicode isName (owed - 1)⟩
      else .error .valueError
  | .word rest =>
      if rest.head? = some c then
        .ok ⟨s.stack, if rest.tail = [] then .done else .word rest.tail⟩
      else .error .valueError
  | .minus =>
      if c = '0' then .ok ⟨s.stack, .zero⟩
      else if c.isDigit then .ok ⟨s.stack, .digits 1⟩
      else if c = 'I' then .ok ⟨s.stack, .word "nfinity".toList⟩
      else .error .valueError
  | .zero =>
      if c = '.' then .ok ⟨s.stack, .point⟩
      else if c = 'e' ∨ c = 'E' then .ok ⟨s.stack, .exponent⟩
      else afterValue s.stack c
  | .digits count =>
      if c.isDigit then .ok ⟨s.stack, .digits (count + 1)⟩
      else if c = '.' then .ok ⟨s.stack, .point⟩
      else if c = 'e' ∨ c = 'E' then .ok ⟨s.stack, .exponent⟩
      else if count ≤ limits.intDigits then afterValue s.stack c
      else .error .valueError
  | .point => if c.isDigit then .ok ⟨s.stack, .fraction⟩ else .error .valueError
  | .fraction =>
      if c.isDigit then .ok s
      else if c = 'e' ∨ c = 'E' then .ok ⟨s.stack, .exponent⟩
      else afterValue s.stack c
  | .exponent =>
      if c = '+' ∨ c = '-' then .ok ⟨s.stack, .sign⟩
      else if c.isDigit then .ok ⟨s.stack, .power⟩
      else .error .valueError
  | .sign => if c.isDigit then .ok ⟨s.stack, .power⟩ else .error .valueError
  | .power => if c.isDigit then .ok s else afterValue s.stack c

/-- The text ends after a complete value. -/
def Scanner.complete (s : Scanner) : Bool :=
  s.stack.isEmpty &&
    match s.mode with
    | .done | .zero | .fraction | .power => true
    | .digits count => count ≤ limits.intDigits
    | _ => false

def scan (s : Scanner) : List Char → Except Fault Unit
  | [] => if s.complete limits then .ok () else .error .valueError
  | c :: rest =>
      match step limits s c with
      | .ok t => scan t rest
      | .error e => .error e

/-! ## The encoding of a byte string -/

inductive Encoding where
  | utf8
  | utf16 (bigEndian : Bool)
  | utf32 (bigEndian : Bool)
  deriving DecidableEq

/-- `json.detect_encoding`, with the bytes after a byte order mark. -/
def detectEncoding (body : Bytes) : Encoding × Bytes :=
  match body with
  | 0x00 :: 0x00 :: 0xFE :: 0xFF :: rest => (.utf32 true, rest)
  | 0xFF :: 0xFE :: 0x00 :: 0x00 :: rest => (.utf32 false, rest)
  | 0xFE :: 0xFF :: rest => (.utf16 true, rest)
  | 0xFF :: 0xFE :: rest => (.utf16 false, rest)
  | 0xEF :: 0xBB :: 0xBF :: rest => (.utf8, rest)
  | a :: b :: c :: d :: _ =>
      if a = 0 then (if b ≠ 0 then .utf16 true else .utf32 true, body)
      else if b = 0 then (if c ≠ 0 ∨ d ≠ 0 then .utf16 false else .utf32 false, body)
      else (.utf8, body)
  | [a, b] =>
      if a = 0 then (.utf16 true, body)
      else if b = 0 then (.utf16 false, body)
      else (.utf8, body)
  | _ => (.utf8, body)

/-- The units of two bytes. -/
def units16 (bigEndian : Bool) : Bytes → Option (List Nat)
  | [] => some []
  | [_] => none
  | a :: b :: rest =>
      (units16 bigEndian rest).map
        ((if bigEndian then 256 * a.toNat + b.toNat else 256 * b.toNat + a.toNat) :: ·)

/-- The codes of UTF-16 units. A surrogate without its partner is passed on. -/
def joinSurrogates : List Nat → List Nat
  | high :: low :: rest =>
      if 0xD800 ≤ high ∧ high < 0xDC00 ∧ 0xDC00 ≤ low ∧ low < 0xE000 then
        (0x10000 + 1024 * (high - 0xD800) + (low - 0xDC00)) :: joinSurrogates rest
      else high :: joinSurrogates (low :: rest)
  | units => units

/-- The codes of four bytes each. -/
def codes32 (bigEndian : Bool) : Bytes → Option (List Nat)
  | [] => some []
  | a :: b :: c :: d :: rest =>
      let bytes := if bigEndian then [a, b, c, d] else [d, c, b, a]
      let code := bytes.foldl (fun n b => 256 * n + b.toNat) 0
      if code ≤ 0x10FFFF then (codes32 bigEndian rest).map (code :: ·) else none
  | _ => none

/-- The character of a code. A surrogate, which is no character, stands only in texts,
where the scanner treats all characters beyond ASCII alike. -/
def charOf (code : Nat) : Char :=
  if code.isValidChar then Char.ofNat code else Utf8.replacement

/-- `bytes.decode(encoding, "surrogatepass")`. No result where it raises. -/
def decode (body : Bytes) : Option (List Char) :=
  let codes :=
    match detectEncoding body with
    | (.utf8, bytes) => Utf8.codes true none bytes
    | (.utf16 bigEndian, bytes) => (units16 bigEndian bytes).map joinSurrogates
    | (.utf32 bigEndian, bytes) => codes32 bigEndian bytes
  codes.map (List.map charOf)

/-- `isinstance(json.loads(body), dict)`. -/
def loadsDict (body : Bytes) : Except Fault Bool :=
  match decode body with
  | none => .error .valueError
  | some text =>
      match scan limits ⟨[], .value⟩ text with
      | .ok _ => .ok ((text.dropWhile isSpace).head? == some '{')
      | .error e => .error e

/-! ## Nesting -/

def isOpening (c : Char) : Bool := c == '{' || c == '['

/-- The opening brackets of a body. -/
def openings (body : Bytes) : Nat := ((decode body).getD []).countP isOpening

/-- A step that adds no more brackets than `opened`, and gives up only where a further one
nests too deeply. -/
structure Shallow (depth opened : Nat) (result : Except Fault Scanner) : Prop where
  stack : ∀ t, result = .ok t → t.stack.length ≤ depth + opened
  fault : result = .error .recursionError → limits.nesting < depth + opened

variable {limits} {stack : List Frame} {depth opened : Nat} {c : Char}

theorem shallow_ok {t : Scanner} (h : t.stack.length ≤ depth + opened) :
    Shallow limits depth opened (.ok t) where
  stack := by
    rintro _ ⟨⟩
    exact h
  fault := by
    rintro ⟨⟩

theorem shallow_refused : Shallow limits depth opened (.error .valueError) where
  stack := by
    rintro _ ⟨⟩
  fault := by
    rintro ⟨⟩

theorem shallow_leave : Shallow limits stack.length opened (leave stack) := by
  cases stack with
  | nil => exact shallow_refused
  | cons frame stack =>
      apply shallow_ok
      simp only [List.length_cons]
      omega

theorem shallow_enter (frame : Frame) :
    Shallow limits stack.length 1 (enter limits stack frame) := by
  unfold enter
  split
  · exact shallow_ok (Nat.le_refl _)
  · next deep =>
      constructor
      · rintro _ ⟨⟩
      · intro _
        omega

theorem shallow_beginValue :
    Shallow limits stack.length (isOpening c).toNat (beginValue limits stack c) := by
  unfold beginValue
  split
  · next h =>
      subst h
      exact shallow_enter .object
  split
  · next h =>
      subst h
      exact shallow_enter .array
  repeat' split
  all_goals first | exact shallow_refused | exact shallow_ok (Nat.le_add_right ..)

theorem shallow_afterValue : Shallow limits stack.length opened (afterValue stack c) := by
  unfold afterValue
  repeat' split
  all_goals
    first
    | exact shallow_refused
    | exact shallow_leave
    | exact shallow_ok (Nat.le_add_right ..)

theorem shallow_step (limits : Limits) (s : Scanner) (c : Char) :
    Shallow limits s.stack.length (isOpening c).toNat (step limits s c) := by
  unfold step
  repeat' split
  all_goals
    first
    | exact shallow_refused
    | exact shallow_leave
    | exact shallow_afterValue
    | exact shallow_beginValue
    | exact shallow_ok (Nat.le_add_right ..)

/-- A text gives the scanner up only if it has more opening brackets than may nest. -/
theorem scan_shallow {s : Scanner} {text : List Char}
    (h : s.stack.length + text.countP isOpening ≤ limits.nesting) :
    scan limits s text ≠ .error .recursionError := by
  induction text generalizing s with
  | nil =>
      rw [scan]
      split <;> simp
  | cons c text ih =>
      have hstep := shallow_step limits s c
      have hcount : (c :: text).countP isOpening = text.countP isOpening + (isOpening c).toNat := by
        rw [List.countP_cons]
        cases isOpening c <;> rfl
      rw [scan]
      split
      · next t ht =>
          have hstack := hstep.stack t ht
          exact ih (by omega)
      · next e he =>
          rintro ⟨⟩
          have hdeep := hstep.fault he
          omega

theorem loadsDict_shallow {body : Bytes} (h : openings body ≤ limits.nesting) :
    loadsDict limits body ≠ .error .recursionError := by
  rw [loadsDict]
  split
  · simp
  · next text hdecode =>
      have hopen : text.countP isOpening ≤ limits.nesting := by
        rwa [openings, hdecode] at h
      have hscan : scan limits ⟨[], .value⟩ text ≠ .error .recursionError :=
        scan_shallow (by simpa using hopen)
      split
      · simp
      · next e he =>
          rintro ⟨⟩
          exact hscan he

example : loadsDict ⟨2, 4300⟩ (utf8 "[[], -0.5e3, NaN]".toList) = .ok false := by decide

end AgentsServer.Library.JsonScan

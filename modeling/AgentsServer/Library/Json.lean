import AgentsServer.Library.Bytes
import Mathlib.Data.List.Basic
import Mathlib.Data.List.Sort
import Mathlib.Algebra.BigOperators.Group.List.Basic
import Mathlib.Algebra.GroupWithZero.Nat

/-!
# Compact JSON text

JSON values and the text that `json.dumps` writes for them with the separators
`","` and `":"`. Number literals stand for themselves, so an integer and a
float are told apart by their text. The escape table of strings is a parameter:
`escape` leaves non-ASCII characters alone and `escapeAscii` writes them as
UTF-16 escapes.
-/

namespace AgentsServer.Library

/-- The characters of integer and finite float literals. -/
def isNumeral (c : Char) : Bool :=
  c.isDigit || c == '-' || c == '+' || c == '.' || c == 'e'

/-- A number literal: a nonempty list of numeral characters. -/
structure NumLit where
  digits : List Char
  nonempty : digits ≠ []
  numeral : ∀ c ∈ digits, isNumeral c = true
  deriving DecidableEq

/-- The literal of a natural number. -/
def NumLit.ofNat (n : Nat) : NumLit where
  digits := Nat.toDigits 10 n
  nonempty := Nat.toDigits_ne_nil
  numeral c hc := by
    have hd : c.isDigit = true := Nat.isDigit_of_mem_toDigits (by omega) (by omega) hc
    simp [isNumeral, hd]

/-- The literal of an integer. -/
def NumLit.ofInt (n : Int) : NumLit :=
  if n < 0 then
    { digits := '-' :: Nat.toDigits 10 n.natAbs
      nonempty := by simp
      numeral := by
        intro c hc
        rcases List.mem_cons.mp hc with rfl | hc
        · decide
        · have hd : c.isDigit = true := Nat.isDigit_of_mem_toDigits (by omega) (by omega) hc
          simp [isNumeral, hd] }
  else NumLit.ofNat n.natAbs

/-- The literals of `0`, `0.0` and `-0.0`. -/
def NumLit.isZero (literal : NumLit) : Bool :=
  literal.digits.all fun c => c == '0' || c == '-' || c == '.'

/-- The integer of a literal without a fraction or an exponent. -/
def NumLit.toInt? (literal : NumLit) : Option Int :=
  match literal.digits with
  | '-' :: digits =>
      if digits.all Char.isDigit then some (-(Nat.ofDigitChars 10 digits 0 : Int)) else none
  | digits =>
      if digits.all Char.isDigit then some (Nat.ofDigitChars 10 digits 0 : Int) else none

theorem NumLit.all_isDigit (n : Nat) : (Nat.toDigits 10 n).all Char.isDigit = true := by
  rw [List.all_eq_true]
  intro c hc
  exact Nat.isDigit_of_mem_toDigits (by omega) (by omega) hc

@[simp] theorem NumLit.toInt?_ofInt (n : Int) : (NumLit.ofInt n).toInt? = some n := by
  unfold NumLit.ofInt
  split
  · next h =>
      have habs : -((n.natAbs : Nat) : Int) = n := by omega
      change (if (Nat.toDigits 10 n.natAbs).all Char.isDigit then
        some (-(Nat.ofDigitChars 10 (Nat.toDigits 10 n.natAbs) 0 : Int)) else none) = some n
      rw [if_pos (all_isDigit _), Nat.ofDigitChars_ten_toDigits, habs]
  · next h =>
      have habs : ((n.natAbs : Nat) : Int) = n := by omega
      have hall := all_isDigit n.natAbs
      have hvalue : Nat.ofDigitChars 10 (Nat.toDigits 10 n.natAbs) 0 = n.natAbs :=
        Nat.ofDigitChars_ten_toDigits
      unfold toInt? ofNat
      split
      · next digits hd =>
          simp only at hd
          rw [hd] at hall
          simp at hall
      · next digits hne =>
          rw [if_pos hall, hvalue, habs]

inductive Json where
  | null
  | bool (value : Bool)
  | num (literal : NumLit)
  | str (text : String)
  | arr (items : List Json)
  | obj (fields : List (String × Json))

/-- `str()` of a value that is not a text, and `int()` where it does not raise. -/
class Conversions where
  str : Json → String
  int : Json → Option Int

namespace Json

/-- `str()`. -/
def toText [Conversions] : Json → String
  | .str text => text
  | value => Conversions.str value

/-- The value a dictionary holds under a key. -/
def lookup (fields : List (String × Json)) (key : String) : Option Json :=
  List.lookup key fields

def str? : Json → Option String
  | .str text => some text
  | _ => none

def bool? : Json → Option Bool
  | .bool value => some value
  | _ => none

def arr? : Json → Option (List Json)
  | .arr items => some items
  | _ => none

def obj? : Json → Option (List (String × Json))
  | .obj fields => some fields
  | _ => none

/-- An integer that is not a Boolean. -/
def int? : Json → Option Int
  | .num literal => literal.toInt?
  | _ => none

/-- What `isinstance(value, int)` accepts: a Boolean is one, too. -/
def integer? : Json → Option Int
  | .num literal => literal.toInt?
  | .bool value => some (if value then 1 else 0)
  | _ => none

/-- The keys of a dictionary, as a set. -/
def hasKeys (keys : List String) (fields : List (String × Json)) : Bool :=
  keys.all (fun key => fields.any fun field => field.1 == key) &&
    fields.all fun field => keys.contains field.1

/-- What `or` keeps: every value but `None`, `False`, zero and the empty ones. -/
def truthy : Json → Bool
  | .null => false
  | .bool value => value
  | .num literal => !literal.isZero
  | .str text => text != ""
  | .arr items => !items.isEmpty
  | .obj fields => !fields.isEmpty

mutual

/-- A value with the keys of every object sorted, as `sort_keys=True` writes it. -/
def sortKeys : Json → Json
  | .arr items => .arr (sortItems items)
  | .obj fields => .obj ((sortFields fields).mergeSort fun a b => decide (a.1 ≤ b.1))
  | value => value

def sortItems : List Json → List Json
  | [] => []
  | item :: rest => sortKeys item :: sortItems rest

def sortFields : List (String × Json) → List (String × Json)
  | [] => []
  | (key, value) :: rest => (key, sortKeys value) :: sortFields rest

end

/-- A backslash escape of one UTF-16 code unit. -/
def unitEscape (n : Nat) : List Char :=
  ['\\', 'u', hexDigit (n / 4096 % 16), hexDigit (n / 256 % 16),
    hexDigit (n / 16 % 16), hexDigit (n % 16)]

/-- String escapes of `ensure_ascii=False`. -/
def escape (c : Char) : List Char :=
  if c = '"' then ['\\', '"']
  else if c = '\\' then ['\\', '\\']
  else if c = '\n' then ['\\', 'n']
  else if c = '\r' then ['\\', 'r']
  else if c = '\t' then ['\\', 't']
  else if c = Char.ofNat 8 then ['\\', 'b']
  else if c = Char.ofNat 12 then ['\\', 'f']
  else if c.toNat < 32 then unitEscape c.toNat
  else [c]

/-- String escapes of `ensure_ascii=True`. Characters above the basic plane
become a surrogate pair. -/
def escapeAscii (c : Char) : List Char :=
  if c.toNat < 127 then escape c
  else if c.toNat < 65536 then unitEscape c.toNat
  else unitEscape (55296 + (c.toNat - 65536) / 1024) ++
    unitEscape (56320 + (c.toNat - 65536) % 1024)

section Render

variable (esc : Char → List Char)

/-- A quoted string. -/
def quote (s : String) : List Char :=
  '"' :: (s.toList.flatMap esc ++ ['"'])

mutual

/-- The compact text of a value. -/
def render : Json → List Char
  | .null => ['n', 'u', 'l', 'l']
  | .bool true => ['t', 'r', 'u', 'e']
  | .bool false => ['f', 'a', 'l', 's', 'e']
  | .num literal => literal.digits
  | .str text => quote esc text
  | .arr [] => ['[', ']']
  | .arr (item :: rest) => '[' :: (render item ++ renderItems rest)
  | .obj [] => ['{', '}']
  | .obj ((key, value) :: rest) =>
      '{' :: (quote esc key ++ ':' :: (render value ++ renderFields rest))

/-- The items of an array after the first, with the closing bracket. -/
def renderItems : List Json → List Char
  | [] => [']']
  | item :: rest => ',' :: (render item ++ renderItems rest)

/-- The fields of an object after the first, with the closing brace. -/
def renderFields : List (String × Json) → List Char
  | [] => ['}']
  | (key, value) :: rest =>
      ',' :: (quote esc key ++ ':' :: (render value ++ renderFields rest))

end

end Render

/-- `canonical_json`: sorted keys, compact, non-ASCII characters kept. -/
def canonical (value : Json) : List Char :=
  render escape (sortKeys value)

/-- The number of UTF-8 bytes of a text. -/
def utf8Size (cs : List Char) : Nat :=
  (cs.map Char.utf8Size).sum

@[simp] theorem utf8Size_nil : utf8Size [] = 0 := rfl

@[simp] theorem utf8Size_cons (c : Char) (cs : List Char) :
    utf8Size (c :: cs) = c.utf8Size + utf8Size cs := by
  simp [utf8Size]

@[simp] theorem utf8Size_append (as bs : List Char) :
    utf8Size (as ++ bs) = utf8Size as + utf8Size bs := by
  simp [utf8Size]

end Json

end AgentsServer.Library

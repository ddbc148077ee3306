import Mathlib.Data.List.Basic

/-!
# Text predicates

Character classes and patterns over strings that several components check:
Unicode white space, lowercase hexadecimal digests and prefixed identifiers.
-/

namespace AgentsServer.Library

/-- The characters `str.isspace` accepts. -/
def isspace (c : Char) : Bool :=
  let n := c.toNat
  (9 ≤ n && n ≤ 13) || (28 ≤ n && n ≤ 32) || n == 0x85 || n == 0xa0 || n == 0x1680 ||
    (0x2000 ≤ n && n ≤ 0x200a) || n == 0x2028 || n == 0x2029 || n == 0x202f ||
    n == 0x205f || n == 0x3000

/-- `str.strip()` leaves nothing. -/
def isBlank (s : String) : Bool :=
  s.toList.all isspace

def isLowerHex (c : Char) : Bool :=
  c.isDigit || ('a' ≤ c && c ≤ 'f')

/-- A text of exactly `n` lowercase hexadecimal digits. -/
def isHexOf (n : Nat) (cs : List Char) : Bool :=
  cs.length == n && cs.all isLowerHex

/-- A fixed prefix followed by exactly `n` lowercase hexadecimal digits. -/
def isPrefixedHex (pre : String) (n : Nat) (s : String) : Bool :=
  pre.toList.isPrefixOf s.toList && isHexOf n (s.toList.drop pre.length)

theorem isPrefixedHex_append (pre : String) (n : Nat) (s : String) :
    isPrefixedHex pre n (pre ++ s) = isHexOf n s.toList := by
  have hprefix : pre.toList.isPrefixOf (pre.toList ++ s.toList) = true :=
    List.isPrefixOf_iff_prefix.mpr (List.prefix_append _ _)
  rw [isPrefixedHex, String.toList_append, hprefix, Bool.true_and, ← String.length_toList,
    List.drop_left]

/-- `str.strip()`. -/
def strip (cs : List Char) : List Char :=
  (((cs.dropWhile isspace).reverse).dropWhile isspace).reverse

/-- `str.split()`: the runs of characters that are not white space. -/
def words : List Char → List (List Char)
  | [] => []
  | c :: rest =>
      if isspace c then words rest
      else
        match rest with
        | [] => [[c]]
        | d :: _ =>
            if isspace d then [c] :: words rest
            else
              match words rest with
              | [] => [[c]]
              | word :: more => (c :: word) :: more

/-- `" ".join(text.split())`. -/
def normalizeSpace (cs : List Char) : List Char :=
  [' '].intercalate (words cs)

/-- `str.replace("\r\n", "\n")`. -/
def unixLines : List Char → List Char
  | '\r' :: '\n' :: rest => '\n' :: unixLines rest
  | c :: rest => c :: unixLines rest
  | [] => []

/-- The text after a prefix. -/
def dropPrefix? (pre : String) (cs : List Char) : Option (List Char) :=
  if pre.toList.isPrefixOf cs then some (cs.drop pre.length) else none

/-- `str.find`: the place of the first occurrence. -/
def find? (pattern : String) : List Char → Option Nat
  | [] => if pattern.isEmpty then some 0 else none
  | c :: rest =>
      if pattern.toList.isPrefixOf (c :: rest) then some 0 else (find? pattern rest).map (· + 1)

/-- `str.rfind`: the place of the last occurrence. -/
def rfind? (pattern : String) : List Char → Option Nat
  | [] => if pattern.isEmpty then some 0 else none
  | c :: rest =>
      match rfind? pattern rest with
      | some i => some (i + 1)
      | none => if pattern.toList.isPrefixOf (c :: rest) then some 0 else none

/-- The natural number of a text of decimal digits. -/
def decimal (cs : List Char) : Nat :=
  cs.foldl (fun n c => 10 * n + (c.toNat - '0'.toNat)) 0

/-- A text of one to six decimal digits that does not start with zero. -/
def isSmallPositive : List Char → Bool
  | [] => false
  | c :: rest => c != '0' && (c :: rest).all Char.isDigit && decide (rest.length ≤ 5)

/-! ## Times -/

/-- The year, month and day of a day counted from 1 January 1970. -/
def civilDate (days : Nat) : Nat × Nat × Nat :=
  let z := days + 719468
  let era := z / 146097
  let dayOfEra := z % 146097
  let yearOfEra := (dayOfEra - dayOfEra / 1460 + dayOfEra / 36524 - dayOfEra / 146096) / 365
  let dayOfYear := dayOfEra - (365 * yearOfEra + yearOfEra / 4 - yearOfEra / 100)
  -- years start in March, so the leap day is the last of its year
  let shifted := (5 * dayOfYear + 2) / 153
  let month := if shifted < 10 then shifted + 3 else shifted - 9
  let year := yearOfEra + 400 * era + if month ≤ 2 then 1 else 0
  (year, month, dayOfYear - (153 * shifted + 2) / 5 + 1)

/-- A number with at least `width` digits. -/
def padded (width n : Nat) : String :=
  let digits := Nat.toDigits 10 n
  String.ofList (List.replicate (width - digits.length) '0' ++ digits)

/-- `datetime.isoformat` in UTC of a number of seconds, ending in `Z`. -/
def iso8601 (seconds : Nat) : String :=
  let (year, month, day) := civilDate (seconds / 86400)
  padded 4 year ++ "-" ++ padded 2 month ++ "-" ++ padded 2 day ++ "T" ++
    padded 2 (seconds / 3600 % 24) ++ ":" ++ padded 2 (seconds / 60 % 60) ++ ":" ++
    padded 2 (seconds % 60) ++ "Z"

example : civilDate 19782 = (2024, 2, 29) := by decide

end AgentsServer.Library

import AgentsServer.Library.Utf8
import Mathlib.Data.List.Basic

/-!
# Query strings

The reading and the writing of `application/x-www-form-urlencoded` text, by the rules of
`urllib.parse`. What was written is read back.
-/

namespace AgentsServer.Library.Urlencoded

open Utf8

/-! ## Reading -/

def hexDigit? (c : Char) : Option Nat :=
  if c.isDigit then some (c.toNat - 48)
  else if 'a' ≤ c ∧ c ≤ 'f' then some (c.toNat - 87)
  else if 'A' ≤ c ∧ c ≤ 'F' then some (c.toNat - 55)
  else none

/-- An ASCII character is a byte. Any other stands for itself. -/
def plainItem (c : Char) : Item :=
  if c.toNat < 128 then .byte (UInt8.ofNat c.toNat) else .char c

/-- `unquote_to_bytes` of every run of ASCII characters. -/
def unquoteItems : List Char → List Item
  | '%' :: high :: low :: rest =>
      match hexDigit? high, hexDigit? low with
      | some m, some n => .byte (UInt8.ofNat (16 * m + n)) :: unquoteItems rest
      | _, _ => plainItem '%' :: unquoteItems (high :: low :: rest)
  | c :: rest => plainItem c :: unquoteItems rest
  | [] => []

def plusToSpace (c : Char) : Char := if c = '+' then ' ' else c

/-- `unquote_plus`. -/
def unquotePlus (text : List Char) : List Char :=
  replace none (unquoteItems (text.map plusToSpace))

/-- One field, `name=value`. -/
def parseField (field : List Char) : Option (List Char × List Char) :=
  if field.contains '=' then
    some (unquotePlus (field.takeWhile (· != '=')),
      unquotePlus ((field.dropWhile (· != '=')).drop 1))
  else none

/-- `parse_qsl` with blank values kept and strict parsing. No result where it raises. -/
def parseQsl (query : List Char) : Option (List (List Char × List Char)) :=
  if query = [] then some [] else (query.splitOn '&').mapM parseField

/-! ## Writing -/

def isSafe (b : UInt8) : Bool :=
  let c := Char.ofNat b.toNat
  b.toNat < 128 && (c.isAlphanum || c == '_' || c == '.' || c == '-' || c == '~')

def upperHex (n : Nat) : Char := if n < 10 then Char.ofNat (48 + n) else Char.ofNat (55 + n)

def quoteByte (b : UInt8) : List Char :=
  if isSafe b then [Char.ofNat b.toNat]
  else if b = 32 then ['+']
  else ['%', upperHex (b.toNat / 16), upperHex (b.toNat % 16)]

/-- `quote_plus`. -/
def quotePlus (text : List Char) : List Char := (utf8 text).flatMap quoteByte

/-- `urlencode`. -/
def urlencode (pairs : List (List Char × List Char)) : List Char :=
  ['&'].intercalate (pairs.map fun pair => quotePlus pair.1 ++ '=' :: quotePlus pair.2)

/-! ## What was written is read back -/

theorem hexDigit_upperHex : ∀ n < 16, hexDigit? (upperHex n) = some n := by decide

theorem upperHex_plain : ∀ n < 16, plusToSpace (upperHex n) = upperHex n ∧
    upperHex n ≠ '&' ∧ upperHex n ≠ '=' := by decide

/-- A safe byte is the code of a character without a meaning of its own. -/
theorem safe_plain (b : UInt8) (h : isSafe b) :
    let c := Char.ofNat b.toNat
    c.toNat = b.toNat ∧ b.toNat < 128 ∧ c ≠ '%' ∧ c ≠ '+' ∧ c ≠ '&' ∧ c ≠ '=' := by
  have table : ∀ n < 256, isSafe (UInt8.ofNat n) →
      (Char.ofNat n).toNat = n ∧ n < 128 ∧ Char.ofNat n ≠ '%' ∧ Char.ofNat n ≠ '+' ∧
        Char.ofNat n ≠ '&' ∧ Char.ofNat n ≠ '=' := by decide +kernel
  have hb := table b.toNat b.toNat_lt
  rw [UInt8.ofNat_toNat] at hb
  exact hb h

theorem unquoteItems_plain {c : Char} (h : c ≠ '%') (rest : List Char) :
    unquoteItems (c :: rest) = plainItem c :: unquoteItems rest := by
  rw [unquoteItems]
  rintro high low more rfl _
  exact h rfl

theorem plainItem_byte {c : Char} {b : UInt8} (h : c.toNat = b.toNat) (lt : b.toNat < 128) :
    plainItem c = .byte b := by
  rw [plainItem, h, if_pos lt, UInt8.ofNat_toNat]

theorem unquoteItems_quoteByte (b : UInt8) (rest : List Char) :
    unquoteItems ((quoteByte b).map plusToSpace ++ rest) = .byte b :: unquoteItems rest := by
  rw [quoteByte]
  split
  · next safe =>
      obtain ⟨hnat, hlt, hpercent, hplus, _, _⟩ := safe_plain b safe
      have hmap : plusToSpace (Char.ofNat b.toNat) = Char.ofNat b.toNat := if_neg hplus
      rw [List.map_singleton, hmap, List.singleton_append, unquoteItems_plain hpercent,
        plainItem_byte hnat hlt]
  split
  · next hspace =>
      subst hspace
      exact unquoteItems_plain (by decide) rest
  · have hlt := b.toNat_lt
    have hhigh := hexDigit_upperHex (b.toNat / 16) (by omega)
    have hlow := hexDigit_upperHex (b.toNat % 16) (by omega)
    have hpercent : plusToSpace '%' = '%' := by decide
    simp only [List.map_cons, List.map_nil, List.cons_append, List.nil_append, hpercent,
      (upperHex_plain (b.toNat / 16) (by omega)).1, (upperHex_plain (b.toNat % 16) (by omega)).1]
    rw [unquoteItems]
    simp only [hhigh, hlow]
    rw [show 16 * (b.toNat / 16) + b.toNat % 16 = b.toNat by omega, UInt8.ofNat_toNat]

theorem unquoteItems_quote (bytes : Bytes) :
    unquoteItems ((bytes.flatMap quoteByte).map plusToSpace) = bytes.map Item.byte := by
  induction bytes with
  | nil => rfl
  | cons b bytes ih =>
      rw [List.flatMap_cons, List.map_append, unquoteItems_quoteByte, ih, List.map_cons]

theorem unquotePlus_quotePlus (text : List Char) : unquotePlus (quotePlus text) = text := by
  rw [unquotePlus, quotePlus, unquoteItems_quote, replace_encode]

/-- A quoted text holds no separator. -/
theorem quotePlus_plain {text : List Char} {c : Char} (h : c ∈ quotePlus text) :
    c ≠ '&' ∧ c ≠ '=' := by
  obtain ⟨b, _, hc⟩ := List.mem_flatMap.mp h
  have hlt := b.toNat_lt
  rw [quoteByte] at hc
  split at hc
  · next safe =>
      obtain ⟨_, _, _, _, hamp, heq⟩ := safe_plain b safe
      rw [List.mem_singleton] at hc
      subst hc
      exact ⟨hamp, heq⟩
  split at hc
  · rw [List.mem_singleton] at hc
    subst hc
    decide
  · simp only [List.mem_cons, List.not_mem_nil, or_false] at hc
    rcases hc with rfl | rfl | rfl
    · decide
    · exact (upperHex_plain _ (by omega)).2
    · exact (upperHex_plain _ (by omega)).2

theorem parseField_quoted (pair : List Char × List Char) :
    parseField (quotePlus pair.1 ++ '=' :: quotePlus pair.2) = some pair := by
  have hname : ∀ c ∈ quotePlus pair.1, (c != '=') = true := by
    intro c hc
    exact bne_iff_ne.mpr (quotePlus_plain hc).2
  rw [parseField, if_pos (by simp), List.takeWhile_append_of_pos hname,
    List.dropWhile_append_of_pos hname]
  simp [unquotePlus_quotePlus]

theorem mapM_parseField (pairs : List (List Char × List Char)) :
    (pairs.map fun pair => quotePlus pair.1 ++ '=' :: quotePlus pair.2).mapM parseField =
      some pairs := by
  induction pairs with
  | nil => rfl
  | cons pair pairs ih =>
      rw [List.map_cons, List.mapM_cons, parseField_quoted, ih]
      rfl

/-- `parse_qsl(urlencode(pairs))` is `pairs`. -/
theorem parseQsl_urlencode (pairs : List (List Char × List Char)) :
    parseQsl (urlencode pairs) = some pairs := by
  cases pairs with
  | nil => rfl
  | cons pair pairs =>
      have hfields : ∀ field ∈ (pair :: pairs).map (fun pair =>
          quotePlus pair.1 ++ '=' :: quotePlus pair.2), '&' ∉ field := by
        intro field hfield hmem
        obtain ⟨source, _, rfl⟩ := List.mem_map.mp hfield
        rcases List.mem_append.mp hmem with hname | hvalue
        · exact (quotePlus_plain hname).1 rfl
        · rcases List.mem_cons.mp hvalue with hsign | hvalue
          · cases hsign
          · exact (quotePlus_plain hvalue).1 rfl
      have hsplit : (urlencode (pair :: pairs)).splitOn '&' = _ :=
        List.splitOn_intercalate '&' hfields (by simp)
      have hne : urlencode (pair :: pairs) ≠ [] := by
        intro hnil
        rw [hnil, List.splitOn_nil, List.map_cons, List.cons.injEq] at hsplit
        simp at hsplit
      rw [parseQsl, if_neg hne, hsplit]
      exact mapM_parseField (pair :: pairs)

end AgentsServer.Library.Urlencoded

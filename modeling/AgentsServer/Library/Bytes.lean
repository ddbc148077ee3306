import AgentsServer.Library.Text

/-!
# Bytes and digests

Byte strings as lists, the UTF-8 bytes of a text, and SHA-256 as a parameter:
nothing here depends on how a digest is computed.
-/

namespace AgentsServer.Library

abbrev Bytes := List UInt8

/-- The UTF-8 bytes of a text. -/
def utf8 (text : List Char) : Bytes :=
  (String.ofList text).toUTF8.data.toList

theorem utf8_append (a b : List Char) : utf8 (a ++ b) = utf8 a ++ utf8 b := by
  have htext : (String.ofList (a ++ b)).toUTF8 =
      (String.ofList a).toUTF8 ++ (String.ofList b).toUTF8 := by
    rw [String.ofList_append]
    exact String.toByteArray_append
  rw [utf8, htext, ByteArray.data_append, Array.toList_append, utf8, utf8]

theorem utf8_inj {a b : List Char} (h : utf8 a = utf8 b) : a = b := by
  have harray : (String.ofList a).toUTF8.data = (String.ofList b).toUTF8.data :=
    Array.toList_inj.mp h
  have htext : String.ofList a = String.ofList b := by
    apply String.toByteArray_inj.mp
    exact ByteArray.ext harray
  exact String.ofList_injective htext

def hexDigit (n : Nat) : Char :=
  if n < 10 then Char.ofNat (48 + n) else Char.ofNat (87 + n)

/-- The lowercase hexadecimal text of a byte string. -/
def hexText (bytes : Bytes) : String :=
  String.ofList (bytes.flatMap fun b => [hexDigit (b.toNat / 16), hexDigit (b.toNat % 16)])

theorem hexDigit_inj {m n : Nat} (hm : m < 16) (hn : n < 16) (h : hexDigit m = hexDigit n) :
    m = n := by
  have table : ∀ m < 16, ∀ n < 16, hexDigit m = hexDigit n → m = n := by decide
  exact table m hm n hn h

theorem hexText_inj {a b : Bytes} (h : hexText a = hexText b) : a = b := by
  have hchars := String.ofList_injective h
  induction a generalizing b with
  | nil =>
      cases b with
      | nil => rfl
      | cons y b => cases hchars
  | cons x a ih =>
      cases b with
      | nil => cases hchars
      | cons y b =>
          simp only [List.flatMap_cons, List.cons_append, List.nil_append, List.cons.injEq]
            at hchars
          obtain ⟨hhigh, hlow, hrest⟩ := hchars
          have hx := x.toNat_lt
          have hy := y.toNat_lt
          have hdiv := hexDigit_inj (by omega) (by omega) hhigh
          have hmod := hexDigit_inj (by omega) (by omega) hlow
          have hbyte : x = y := by
            apply UInt8.toNat_inj.mp
            omega
          rw [hbyte, ih (by rw [hexText, hexText, hrest]) hrest]

theorem isHexOf_hexText (bytes : Bytes) :
    isHexOf (2 * bytes.length) (hexText bytes).toList = true := by
  have digits : ∀ m < 16, isLowerHex (hexDigit m) = true := by decide
  rw [hexText, String.toList_ofList, isHexOf, Bool.and_eq_true, beq_iff_eq]
  constructor
  · rw [List.length_flatMap]
    simp
    omega
  · rw [List.all_eq_true]
    intro c hc
    obtain ⟨b, _, hc⟩ := List.mem_flatMap.mp hc
    have hb := b.toNat_lt
    simp only [List.mem_cons, List.not_mem_nil, or_false] at hc
    rcases hc with rfl | rfl
    · exact digits _ (by omega)
    · exact digits _ (by omega)

/-- `hashlib.sha256`. -/
class Sha256 where
  digest : Bytes → Bytes
  length_digest : ∀ bytes, (digest bytes).length = 32

theorem Sha256.length_zeros (_ : Bytes) : (List.replicate 32 (0 : UInt8)).length = 32 :=
  List.length_replicate

theorem Sha256.length_padded (bytes : Bytes) :
    ((bytes ++ List.replicate 32 0).take 32).length = 32 := by
  simp

def Sha256.hexdigest [Sha256] (bytes : Bytes) : String :=
  hexText (Sha256.digest bytes)

end AgentsServer.Library

/-! ## Base64 in the URL alphabet

Three bytes are four letters; a rest of one or two bytes is two or three letters, without padding.
What is decoded ignores the bits that a rest leaves over, and a single letter is no byte. -/

namespace AgentsServer.Library.Base64

/-- The letter of six bits. -/
def letter (n : Nat) : Char :=
  if n < 26 then Char.ofNat (65 + n) else if n < 52 then Char.ofNat (71 + n)
  else if n < 62 then Char.ofNat (n - 4) else if n = 62 then '-' else '_'

def value? (c : Char) : Option Nat :=
  if 65 ≤ c.toNat ∧ c.toNat ≤ 90 then some (c.toNat - 65)
  else if 97 ≤ c.toNat ∧ c.toNat ≤ 122 then some (c.toNat - 71)
  else if 48 ≤ c.toNat ∧ c.toNat ≤ 57 then some (c.toNat + 4)
  else if c = '-' then some 62 else if c = '_' then some 63 else none

/-- The groups of six bits of bytes. -/
def sextets : Bytes → List Nat
  | a :: b :: c :: rest =>
      a.toNat / 4 :: (a.toNat % 4 * 16 + b.toNat / 16) :: (b.toNat % 16 * 4 + c.toNat / 64) ::
        c.toNat % 64 :: sextets rest
  | [a, b] => [a.toNat / 4, a.toNat % 4 * 16 + b.toNat / 16, b.toNat % 16 * 4]
  | [a] => [a.toNat / 4, a.toNat % 4 * 16]
  | [] => []

/-- The bytes of groups of six bits. -/
def ofSextets : List Nat → Option Bytes
  | p :: q :: r :: s :: rest => (ofSextets rest).map fun bytes =>
      UInt8.ofNat (p * 4 + q / 16) :: UInt8.ofNat (q % 16 * 16 + r / 4) ::
        UInt8.ofNat (r % 4 * 64 + s) :: bytes
  | [p, q, r] => some [UInt8.ofNat (p * 4 + q / 16), UInt8.ofNat (q % 16 * 16 + r / 4)]
  | [p, q] => some [UInt8.ofNat (p * 4 + q / 16)]
  | [_] => none
  | [] => some []

def encode (bytes : Bytes) : List Char := (sextets bytes).map letter

def decode (text : List Char) : Option Bytes := (text.mapM value?).bind ofSextets

theorem value?_letter : ∀ n < 64, value? (letter n) = some n := by decide

theorem sextets_cons (a b c : UInt8) (rest : Bytes) : sextets (a :: b :: c :: rest) =
    a.toNat / 4 :: (a.toNat % 4 * 16 + b.toNat / 16) :: (b.toNat % 16 * 4 + c.toNat / 64) ::
      c.toNat % 64 :: sextets rest := rfl

/-- The groups of bytes are small, give the bytes back, and are four for every three. -/
theorem sextets_spec (bytes : Bytes) :
    (∀ n ∈ sextets bytes, n < 64) ∧ ofSextets (sextets bytes) = some bytes ∧
      (sextets bytes).length = (4 * bytes.length + 2) / 3 := by
  have byte : ∀ (a : UInt8) (n : Nat), n = a.toNat → UInt8.ofNat n = a := by
    rintro a _ rfl
    exact UInt8.ofNat_toNat
  induction bytes using sextets.induct with
  | case1 a b c rest ih =>
      obtain ⟨hsmall, hback, hlength⟩ := ih
      have ha := a.toNat_lt
      have hb := b.toNat_lt
      have hc := c.toNat_lt
      rw [sextets_cons]
      refine ⟨?_, ?_, ?_⟩
      · simp only [List.forall_mem_cons]
        refine ⟨by omega, by omega, by omega, by omega, hsmall⟩
      · simp only [ofSextets, hback, Option.map_some]
        rw [byte a _ (by omega), byte b _ (by omega), byte c _ (by omega)]
      · simp only [List.length_cons, hlength]
        omega
  | case2 a b =>
      have ha := a.toNat_lt
      have hb := b.toNat_lt
      refine ⟨?_, ?_, by simp [sextets]⟩
      · simp only [sextets, List.forall_mem_cons]
        refine ⟨by omega, by omega, by omega, List.forall_mem_nil _⟩
      · simp only [sextets, ofSextets]
        rw [byte a _ (by omega), byte b _ (by omega)]
  | case3 a =>
      have ha := a.toNat_lt
      refine ⟨?_, ?_, by simp [sextets]⟩
      · simp only [sextets, List.forall_mem_cons]
        refine ⟨by omega, by omega, List.forall_mem_nil _⟩
      · simp only [sextets, ofSextets]
        rw [byte a _ (by omega)]
  | case4 => exact ⟨List.forall_mem_nil _, rfl, rfl⟩

theorem length_encode (bytes : Bytes) : (encode bytes).length = (4 * bytes.length + 2) / 3 := by
  rw [encode, List.length_map, (sextets_spec bytes).2.2]

/-- A property of the 64 letters holds of an encoding. -/
theorem forall_encode {p : Char → Prop} (hp : ∀ n < 64, p (letter n)) (bytes : Bytes) :
    ∀ c ∈ encode bytes, p c := by
  intro c hc
  obtain ⟨n, hn, rfl⟩ := List.mem_map.mp hc
  exact hp n ((sextets_spec bytes).1 n hn)

theorem decode_encode (bytes : Bytes) : decode (encode bytes) = some bytes := by
  have hvalues : ∀ values : List Nat, (∀ n ∈ values, n < 64) →
      (values.map letter).mapM value? = some values := by
    intro values hsmall
    induction values with
    | nil => rfl
    | cons n rest ih =>
        rw [List.forall_mem_cons] at hsmall
        simp [value?_letter n hsmall.1, ih hsmall.2]
  rw [decode, encode, hvalues _ (sextets_spec bytes).1]
  exact (sextets_spec bytes).2.1

end AgentsServer.Library.Base64

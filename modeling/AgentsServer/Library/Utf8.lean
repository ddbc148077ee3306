import AgentsServer.Library.Bytes

/-!
# Reading UTF-8

Bytes are read one at a time: a byte ends a character, begins or continues one, or is
refused. On this step rest the decoder that refuses a text, and the decoder that puts a
replacement character in the place of what it cannot read.
-/

namespace AgentsServer.Library.Utf8

/-- A character begun: its code so far, the bytes owed, and the range of the next byte. -/
structure Begun where
  code : Nat
  owed : Nat
  low : Nat
  high : Nat
  deriving DecidableEq

inductive Step where
  | char (code : Nat)
  | more (begun : Begun)
  | refused
  deriving DecidableEq

/-- The first byte of a character. With `surrogates`, the codes U+D800 to U+DFFF are read
as characters, as the error handler `surrogatepass` does. -/
def first (surrogates : Bool) (b : Nat) : Step :=
  if b ≤ 0x7F then .char b
  else if 0xC2 ≤ b ∧ b ≤ 0xDF then .more ⟨b - 0xC0, 1, 0x80, 0xBF⟩
  else if b = 0xE0 then .more ⟨0, 2, 0xA0, 0xBF⟩
  else if b = 0xED ∧ surrogates = false then .more ⟨0xD, 2, 0x80, 0x9F⟩
  else if 0xE1 ≤ b ∧ b ≤ 0xEF then .more ⟨b - 0xE0, 2, 0x80, 0xBF⟩
  else if b = 0xF0 then .more ⟨0, 3, 0x90, 0xBF⟩
  else if 0xF1 ≤ b ∧ b ≤ 0xF3 then .more ⟨b - 0xF0, 3, 0x80, 0xBF⟩
  else if b = 0xF4 then .more ⟨4, 3, 0x80, 0x8F⟩
  else .refused

/-- A byte after the first. -/
def Begun.next (p : Begun) (b : Nat) : Step :=
  if p.low ≤ b ∧ b ≤ p.high then
    let code := 64 * p.code + (b - 0x80)
    if p.owed = 1 then .char code else .more ⟨code, p.owed - 1, 0x80, 0xBF⟩
  else .refused

/-- A byte, between characters or inside one. -/
def step (surrogates : Bool) (state : Option Begun) (b : Nat) : Step :=
  match state with
  | none => first surrogates b
  | some p => p.next b

/-- The codes of a text. No result where a byte is refused or the text ends inside a
character. -/
def codes (surrogates : Bool) : Option Begun → Bytes → Option (List Nat)
  | none, [] => some []
  | some _, [] => none
  | state, b :: rest =>
      match step surrogates state b.toNat with
      | .char code => (codes surrogates none rest).map (code :: ·)
      | .more p => codes surrogates (some p) rest
      | .refused => none

/-! ## Decoding with replacement -/

/-- A text that is partly decoded. -/
inductive Item where
  | byte (b : UInt8)
  | char (c : Char)
  deriving DecidableEq

def replacement : Char := Char.ofNat 0xFFFD

/-- `bytes.decode("utf-8", "replace")` of every run of bytes. A byte that cannot continue
a character ends it and is read again as a first byte. -/
def replace : Option Begun → List Item → List Char
  | none, [] => []
  | some _, [] => [replacement]
  | none, .char c :: rest => c :: replace none rest
  | some _, .char c :: rest => replacement :: c :: replace none rest
  | none, .byte b :: rest =>
      match first false b.toNat with
      | .char code => Char.ofNat code :: replace none rest
      | .more p => replace (some p) rest
      | .refused => replacement :: replace none rest
  | some p, .byte b :: rest =>
      match p.next b.toNat with
      | .char code => Char.ofNat code :: replace none rest
      | .more q => replace (some q) rest
      | .refused =>
          match first false b.toNat with
          | .char code => replacement :: Char.ofNat code :: replace none rest
          | .more q => replacement :: replace (some q) rest
          | .refused => replacement :: replacement :: replace none rest

/-! ## What was encoded is read back -/

theorem encode_cons (c : Char) (text : List Char) :
    utf8 (c :: text) = String.utf8EncodeChar c ++ utf8 text := by
  rw [← List.singleton_append, utf8_append]
  congr 1
  simp [utf8, String.toUTF8, List.utf8Encode]

theorem Begun.next_last {p : Begun} {b : Nat} (range : p.low ≤ b ∧ b ≤ p.high)
    (last : p.owed = 1) : p.next b = .char (64 * p.code + (b - 0x80)) := by
  rw [Begun.next, if_pos range]
  exact if_pos last

theorem Begun.next_more {p : Begun} {b : Nat} (range : p.low ≤ b ∧ b ≤ p.high)
    (more : p.owed ≠ 1) :
    p.next b = .more ⟨64 * p.code + (b - 0x80), p.owed - 1, 0x80, 0xBF⟩ := by
  rw [Begun.next, if_pos range]
  exact if_neg more

/-- Where a character of the code `v` may go on after its first byte of three. -/
theorem first_three {v : Nat} (least : 0x800 ≤ v) (most : v < 0x10000)
    (valid : v < 0xD800 ∨ 0xDFFF < v) :
    ∃ low high, first false (v / 4096 + 0xE0) = .more ⟨v / 4096, 2, low, high⟩ ∧
      low ≤ v / 64 % 64 + 0x80 ∧ v / 64 % 64 + 0x80 ≤ high := by
  have hdiv : v / 4096 + 0xE0 - 0xE0 = v / 4096 := by omega
  rcases Nat.lt_or_ge v 0x1000 with hzero | hzero
  · have hlead : v / 4096 = 0 := by omega
    exact ⟨0xA0, 0xBF, by rw [hlead]; rfl, by omega, by omega⟩
  rcases Nat.lt_or_ge v 0xD000 with hmid | hmid
  · refine ⟨0x80, 0xBF, ?_, by omega, by omega⟩
    rw [first, if_neg (by omega), if_neg (by omega), if_neg (by omega), if_neg (by omega),
      if_pos (by omega), hdiv]
  rcases Nat.lt_or_ge v 0xE000 with hed | hed
  · have hlead : v / 4096 = 0xD := by omega
    exact ⟨0x80, 0x9F, by rw [hlead]; rfl, by omega, by omega⟩
  · refine ⟨0x80, 0xBF, ?_, by omega, by omega⟩
    rw [first, if_neg (by omega), if_neg (by omega), if_neg (by omega), if_neg (by omega),
      if_pos (by omega), hdiv]

theorem first_four {v : Nat} (least : 0x10000 ≤ v) (most : v < 0x110000) :
    ∃ low high, first false (v / 262144 + 0xF0) = .more ⟨v / 262144, 3, low, high⟩ ∧
      low ≤ v / 4096 % 64 + 0x80 ∧ v / 4096 % 64 + 0x80 ≤ high := by
  rcases Nat.lt_or_ge v 0x40000 with hzero | hzero
  · have hlead : v / 262144 = 0 := by omega
    exact ⟨0x90, 0xBF, by rw [hlead]; rfl, by omega, by omega⟩
  rcases Nat.lt_or_ge v 0x100000 with hmid | hmid
  · have hdiv : v / 262144 + 0xF0 - 0xF0 = v / 262144 := by omega
    refine ⟨0x80, 0xBF, ?_, by omega, by omega⟩
    rw [first, if_neg (by omega), if_neg (by omega), if_neg (by omega), if_neg (by omega),
      if_neg (by omega), if_neg (by omega), if_pos (by omega), hdiv]
  · have hlead : v / 262144 = 4 := by omega
    exact ⟨0x80, 0x8F, by rw [hlead]; rfl, by omega, by omega⟩

section
variable {p q : Begun} {b : UInt8} {code : Nat} {rest : List Item}

theorem replace_none : replace none (.byte b :: rest) =
    match first false b.toNat with
    | .char code => Char.ofNat code :: replace none rest
    | .more p => replace (some p) rest
    | .refused => replacement :: replace none rest := rfl

theorem replace_some : replace (some p) (.byte b :: rest) =
    match p.next b.toNat with
    | .char code => Char.ofNat code :: replace none rest
    | .more q => replace (some q) rest
    | .refused =>
        match first false b.toNat with
        | .char code => replacement :: Char.ofNat code :: replace none rest
        | .more q => replacement :: replace (some q) rest
        | .refused => replacement :: replacement :: replace none rest := rfl

theorem replace_char (h : first false b.toNat = .char code) :
    replace none (.byte b :: rest) = Char.ofNat code :: replace none rest := by
  rw [replace_none, h]

theorem replace_begin (h : first false b.toNat = .more p) :
    replace none (.byte b :: rest) = replace (some p) rest := by
  rw [replace_none, h]

theorem replace_more (h : p.next b.toNat = .more q) :
    replace (some p) (.byte b :: rest) = replace (some q) rest := by
  rw [replace_some, h]

theorem replace_last (h : p.next b.toNat = .char code) :
    replace (some p) (.byte b :: rest) = Char.ofNat code :: replace none rest := by
  rw [replace_some, h]

end

theorem toNat_ofNat {n : Nat} (h : n < 256) : (UInt8.ofNat n).toNat = n := by
  rw [UInt8.toNat_ofNat']
  omega

/-- The bytes of a character, read from between characters. -/
theorem replace_encodeChar (c : Char) (rest : List Item) :
    replace none ((String.utf8EncodeChar c).map Item.byte ++ rest) = c :: replace none rest := by
  have hvalid : c.val.toNat < 0xD800 ∨ 0xDFFF < c.val.toNat ∧ c.val.toNat < 0x110000 := c.valid
  have hcode : Char.ofNat c.val.toNat = c := Char.ofNat_toNat c
  rw [String.utf8EncodeChar]
  generalize c.val.toNat = v at hvalid hcode
  by_cases hone : v ≤ 127
  · simp only [if_pos hone, List.map_cons, List.map_nil, List.cons_append, List.nil_append]
    have hfirst : first false (UInt8.ofNat v).toNat = .char v := by
      rw [toNat_ofNat (by omega), first, if_pos hone]
    rw [replace_char hfirst, hcode]
  by_cases htwo : v ≤ 2047
  · simp only [if_neg hone, if_pos htwo, List.map_cons, List.map_nil, List.cons_append,
      List.nil_append]
    have hfirst : first false (UInt8.ofNat (v / 64 % 32 + 192)).toNat =
        .more ⟨v / 64, 1, 0x80, 0xBF⟩ := by
      rw [toNat_ofNat (by omega), first, if_neg (by omega), if_pos (by omega),
        show v / 64 % 32 + 192 - 0xC0 = v / 64 by omega]
    have hlast := Begun.next_last (p := ⟨v / 64, 1, 0x80, 0xBF⟩) (b := v % 64 + 128)
      ⟨Nat.le_add_left .., by simp only; omega⟩ rfl
    rw [← toNat_ofNat (n := v % 64 + 128) (by omega)] at hlast
    rw [replace_begin hfirst, replace_last hlast, toNat_ofNat (by omega),
      show 64 * (v / 64) + (v % 64 + 128 - 0x80) = v by omega, hcode]
  by_cases hthree : v ≤ 65535
  · simp only [if_neg hone, if_neg htwo, if_pos hthree, List.map_cons, List.map_nil,
      List.cons_append, List.nil_append]
    obtain ⟨low, high, hfirst, hlow, hhigh⟩ :=
      first_three (v := v) (by omega) (by omega) (by omega)
    have hmore := Begun.next_more (p := ⟨v / 4096, 2, low, high⟩) (b := v / 64 % 64 + 128)
      ⟨hlow, hhigh⟩ (by simp)
    have hlast := Begun.next_last
      (p := ⟨64 * (v / 4096) + (v / 64 % 64 + 128 - 0x80), 1, 0x80, 0xBF⟩) (b := v % 64 + 128)
      ⟨Nat.le_add_left .., by simp only; omega⟩ rfl
    rw [← toNat_ofNat (n := v / 4096 + 224) (by omega)] at hfirst
    rw [show v / 4096 % 16 + 224 = v / 4096 + 224 by omega, replace_begin hfirst,
      replace_more (by rw [toNat_ofNat (by omega)]; exact hmore),
      replace_last (by rw [toNat_ofNat (by omega)]; exact hlast)]
    rw [show 64 * (64 * (v / 4096) + (v / 64 % 64 + 128 - 0x80)) + (v % 64 + 128 - 0x80) = v by
      omega, hcode]
  · simp only [if_neg hone, if_neg htwo, if_neg hthree, List.map_cons, List.map_nil,
      List.cons_append, List.nil_append]
    obtain ⟨low, high, hfirst, hlow, hhigh⟩ := first_four (v := v) (by omega) (by omega)
    have hmore := Begun.next_more (p := ⟨v / 262144, 3, low, high⟩) (b := v / 4096 % 64 + 128)
      ⟨hlow, hhigh⟩ (by simp)
    have hthird := Begun.next_more
      (p := ⟨64 * (v / 262144) + (v / 4096 % 64 + 128 - 0x80), 2, 0x80, 0xBF⟩)
      (b := v / 64 % 64 + 128) ⟨Nat.le_add_left .., by simp only; omega⟩ (by simp)
    have hlast := Begun.next_last
      (p := ⟨64 * (64 * (v / 262144) + (v / 4096 % 64 + 128 - 0x80)) +
        (v / 64 % 64 + 128 - 0x80), 1, 0x80, 0xBF⟩) (b := v % 64 + 128)
      ⟨Nat.le_add_left .., by simp only; omega⟩ rfl
    rw [← toNat_ofNat (n := v / 262144 + 240) (by omega)] at hfirst
    rw [show v / 262144 % 8 + 240 = v / 262144 + 240 by omega, replace_begin hfirst,
      replace_more (by rw [toNat_ofNat (by omega)]; exact hmore),
      replace_more (by rw [toNat_ofNat (by omega)]; exact hthird),
      replace_last (by rw [toNat_ofNat (by omega)]; exact hlast)]
    simp only
    rw [show 64 * (64 * (64 * (v / 262144) + (v / 4096 % 64 + 128 - 0x80)) +
      (v / 64 % 64 + 128 - 0x80)) + (v % 64 + 128 - 0x80) = v by omega, hcode]

/-- The bytes of a text, read from between characters. -/
theorem replace_encode (text : List Char) :
    replace none ((utf8 text).map Item.byte) = text := by
  induction text with
  | nil => rfl
  | cons c text ih => rw [encode_cons, List.map_append, replace_encodeChar, ih]

/-! ## Cutting a byte string -/

/-- A character begun can only become one beyond ASCII. -/
structure Begun.Wide (p : Begun) : Prop where
  low : 0x80 ≤ p.low
  last : p.owed = 1 → 2 ≤ p.code
  more : p.owed ≠ 1 → 2 ≤ 64 * p.code + (p.low - 0x80)

theorem first_ascii {b : Nat} (h : b < 0x80) : first false b = .char b :=
  if_pos (by omega)

theorem first_wide {b : Nat} (h : 0x80 ≤ b) :
    first false b = .refused ∨ ∃ p, first false b = .more p ∧ p.Wide := by
  unfold first
  rw [if_neg (by omega)]
  repeat'
    split
    · refine .inr ⟨_, rfl, ?_, ?_, ?_⟩ <;> simp only <;> omega
  exact .inl rfl

theorem Begun.Wide.next {p : Begun} (h : p.Wide) (b : Nat) :
    p.next b = .refused ∨ (∃ code, p.next b = .char code ∧ 0x80 ≤ code) ∨
      ∃ q, p.next b = .more q ∧ q.Wide := by
  have hlow := h.low
  unfold Begun.next
  split
  · next range =>
      simp only
      split
      · next last =>
          have hcode := h.last last
          exact .inr (.inl ⟨_, rfl, by omega⟩)
      · next more =>
          have hcode := h.more more
          refine .inr (.inr ⟨_, rfl, ?_, ?_, ?_⟩) <;> simp only <;> omega
  · exact .inl rfl

theorem Begun.Wide.next_ascii {p : Begun} (h : p.Wide) {b : Nat} (hb : b < 0x80) :
    p.next b = .refused := by
  have hlow := h.low
  exact if_neg (by omega)

/-- A character begun is decoded to one beyond ASCII. -/
theorem replace_wide {p : Begun} (h : p.Wide) (items : List Item) :
    ∃ code rest, 0x80 ≤ code ∧ replace (some p) items = Char.ofNat code :: rest := by
  induction items generalizing p with
  | nil => exact ⟨0xFFFD, [], by decide, rfl⟩
  | cons item items ih =>
      cases item with
      | char c => exact ⟨0xFFFD, _, by decide, rfl⟩
      | byte b =>
          rcases h.next b.toNat with hnext | ⟨code, hnext, hcode⟩ | ⟨q, hnext, hq⟩
          · rw [replace_some, hnext]
            simp only
            split
            · exact ⟨0xFFFD, _, by decide, rfl⟩
            · exact ⟨0xFFFD, _, by decide, rfl⟩
            · exact ⟨0xFFFD, _, by decide, rfl⟩
          · rw [replace_last hnext]
            exact ⟨code, _, hcode, rfl⟩
          · rw [replace_more hnext]
            exact ih hq

/-- A byte beyond ASCII is decoded to a character beyond ASCII. -/
theorem replace_high {b : UInt8} (h : 0x80 ≤ b.toNat) (items : List Item) :
    ∃ code rest, 0x80 ≤ code ∧ replace none (.byte b :: items) = Char.ofNat code :: rest := by
  rcases first_wide h with hfirst | ⟨p, hfirst, hp⟩
  · rw [replace_none, hfirst]
    exact ⟨0xFFFD, _, by decide, rfl⟩
  · rw [replace_begin hfirst]
    exact replace_wide hp items

/-- A byte that cannot continue a character is read again. -/
theorem replace_refused {p : Begun} {b : UInt8} (h : p.next b.toNat = .refused)
    (rest : List Item) :
    replace (some p) (.byte b :: rest) = replacement :: replace none (.byte b :: rest) := by
  rw [replace_some, replace_none, h]
  simp only
  split
  · rfl
  · rfl
  · rfl

/-- In front of a byte of ASCII a byte string is decoded in two parts. -/
theorem replace_append {state : Option Begun} (hstate : ∀ p ∈ state, p.Wide) (items : List Item)
    {b : UInt8} (h : b.toNat < 0x80) (rest : List Item) :
    replace state (items ++ .byte b :: rest) =
      replace state items ++ replace none (.byte b :: rest) := by
  induction items generalizing state with
  | nil =>
      cases state with
      | none => rfl
      | some p => exact replace_refused ((hstate p rfl).next_ascii h) rest
  | cons item items ih =>
      have ihNone : replace none (items ++ .byte b :: rest) =
          replace none items ++ replace none (.byte b :: rest) := ih (by rintro p ⟨⟩)
      have ihSome {p : Begun} (hp : p.Wide) : replace (some p) (items ++ .byte b :: rest) =
          replace (some p) items ++ replace none (.byte b :: rest) :=
        ih (by rintro _ ⟨⟩; exact hp)
      cases item with
      | char c =>
          cases state with
          | none => simp only [List.cons_append, replace, ihNone]
          | some p => simp only [List.cons_append, replace, ihNone]
      | byte a =>
          have fresh : replace none (.byte a :: (items ++ .byte b :: rest)) =
              replace none (.byte a :: items) ++ replace none (.byte b :: rest) := by
            rcases Nat.lt_or_ge a.toNat 0x80 with ha | ha
            · rw [replace_char (first_ascii ha), replace_char (first_ascii ha), ihNone,
                List.cons_append]
            rcases first_wide ha with hrefused | ⟨q, hmore, hq⟩
            · have again (more : List Item) :
                  replace none (.byte a :: more) = replacement :: replace none more := by
                rw [replace_none, hrefused]
              rw [again, again, ihNone, List.cons_append]
            · rw [replace_begin hmore, replace_begin hmore, ihSome hq]
          rw [List.cons_append]
          cases state with
          | none => exact fresh
          | some p =>
              rcases (hstate p rfl).next a.toNat with hnext | ⟨code, hnext, -⟩ | ⟨q, hnext, hq⟩
              · rw [replace_refused hnext, replace_refused hnext, fresh, List.cons_append]
              · rw [replace_last hnext, replace_last hnext, ihNone, List.cons_append]
              · rw [replace_more hnext, replace_more hnext, ihSome hq]

end AgentsServer.Library.Utf8

import AgentsServer.Library.JsonPrefix
import AgentsServer.Library.Utf8
import Mathlib.Data.Bool.AllAny

/-!
# Files of JSON lines

A line is an object that `json.dumps` writes with ASCII characters only, and a newline. What
was cut in its last line splits into the lines before it and a rest that is no JSON, unless
only the newline is missing.
-/

namespace AgentsServer.Library.Json

/-! ## ASCII text -/

/-- A printable ASCII character. -/
def Plain (c : Char) : Prop := 32 ≤ c.toNat ∧ c.toNat < 127

instance (c : Char) : Decidable (Plain c) := inferInstanceAs (Decidable (_ ∧ _))

theorem plain_hexDigit : ∀ n < 16, Plain (hexDigit n) := by decide

theorem plain_unitEscape (n : Nat) : ∀ c ∈ unitEscape n, Plain c := by
  intro c hc
  simp only [unitEscape, List.mem_cons, List.not_mem_nil, or_false] at hc
  rcases hc with rfl | rfl | rfl | rfl | rfl | rfl
  · decide
  · decide
  all_goals exact plain_hexDigit _ (by omega)

theorem plain_escapeAscii (d : Char) : ∀ c ∈ escapeAscii d, Plain c := by
  intro c hc
  unfold escapeAscii at hc
  split at hc
  · next hsmall =>
    unfold escape at hc
    repeat' split at hc
    all_goals first
      | exact plain_unitEscape _ c hc
      | simp only [List.mem_cons, List.not_mem_nil, or_false] at hc
    all_goals first
      | (rcases hc with rfl | rfl <;> decide)
      | (subst hc; exact ⟨by omega, hsmall⟩)
  split at hc
  · exact plain_unitEscape _ c hc
  · rcases List.mem_append.mp hc with hc | hc
    · exact plain_unitEscape _ c hc
    · exact plain_unitEscape _ c hc

theorem plain_part {mark : Char} {text rest : List Char} (hmark : Plain mark)
    (htext : ∀ c ∈ text, Plain c) (hrest : ∀ c ∈ rest, Plain c) :
    ∀ c ∈ mark :: (text ++ rest), Plain c := by
  intro c hc
  rcases List.mem_cons.mp hc with rfl | hc
  · exact hmark
  rcases List.mem_append.mp hc with hc | hc
  · exact htext c hc
  · exact hrest c hc

theorem plain_quote (text : String) : ∀ c ∈ quote escapeAscii text, Plain c := by
  refine plain_part (by decide) ?_ (List.forall_mem_singleton.mpr (by decide))
  intro c hc
  obtain ⟨d, -, hc⟩ := List.mem_flatMap.mp hc
  exact plain_escapeAscii d c hc

theorem plain_numeral {c : Char} (h : isNumeral c = true) : Plain c := by
  simp only [isNumeral, Bool.or_eq_true, beq_iff_eq] at h
  rcases h with (((h | rfl) | rfl) | rfl) | rfl
  · simp only [Char.isDigit, Bool.and_eq_true, decide_eq_true_eq, UInt32.le_iff_toNat_le] at h
    change 48 ≤ c.toNat ∧ c.toNat ≤ 57 at h
    exact ⟨by omega, by omega⟩
  all_goals decide

mutual

theorem plain_render (v : Json) : ∀ c ∈ render escapeAscii v, Plain c := by
  match v with
  | .null | .bool true | .bool false | .arr [] | .obj [] =>
      unfold render
      exact List.all_iff_forall_prop.mp (by decide)
  | .num literal => exact fun c hc => plain_numeral (literal.numeral c hc)
  | .str text => exact plain_quote text
  | .arr (item :: rest) =>
      exact plain_part (by decide) (plain_render item) (plain_renderItems rest)
  | .obj ((key, value) :: rest) =>
      exact plain_part (by decide) (plain_quote key)
        (plain_part (by decide) (plain_render value) (plain_renderFields rest))

theorem plain_renderItems (items : List Json) : ∀ c ∈ renderItems escapeAscii items, Plain c := by
  match items with
  | [] =>
      unfold renderItems
      exact List.all_iff_forall_prop.mp (by decide)
  | item :: rest =>
      exact plain_part (by decide) (plain_render item) (plain_renderItems rest)

theorem plain_renderFields (fields : List (String × Json)) :
    ∀ c ∈ renderFields escapeAscii fields, Plain c := by
  match fields with
  | [] =>
      unfold renderFields
      exact List.all_iff_forall_prop.mp (by decide)
  | (key, value) :: rest =>
      exact plain_part (by decide) (plain_quote key)
        (plain_part (by decide) (plain_render value) (plain_renderFields rest))

end

/-- A plain character is one byte. -/
theorem utf8_plain {text : List Char} (h : ∀ c ∈ text, Plain c) :
    utf8 text = text.map fun c => UInt8.ofNat c.toNat := by
  induction text with
  | nil => rfl
  | cons c text ih =>
      have hc : c.val.toNat ≤ 0x7f := Nat.le_of_lt (h c List.mem_cons_self).2
      rw [Utf8.encode_cons, String.utf8EncodeChar, if_pos hc, List.map_cons,
        ih fun d hd => h d (List.mem_cons_of_mem _ hd)]
      rfl

/-! ## One line -/

/-- `json.dumps` with compact separators, in UTF-8. -/
def dumpsAscii (v : Json) : Bytes := utf8 (render escapeAscii v)

theorem dumpsAscii_eq (v : Json) :
    dumpsAscii v = (render escapeAscii v).map fun c => UInt8.ofNat c.toNat :=
  utf8_plain (plain_render v)

/-- A newline. -/
def newline : UInt8 := 10

theorem newline_not_mem (v : Json) : newline ∉ dumpsAscii v := by
  rw [dumpsAscii_eq]
  intro hmem
  obtain ⟨c, hc, heq⟩ := List.mem_map.mp hmem
  have hplain := plain_render v c hc
  have hnat := congrArg UInt8.toNat heq
  rw [Utf8.toNat_ofNat (by have := hplain.2; omega)] at hnat
  have hten : newline.toNat = 10 := rfl
  have hlow := hplain.1
  omega

theorem loadsBytes_dumpsAscii [FloatText] {v : Json} (hv : Proper v) :
    loadsBytes (dumpsAscii v) = some v := by
  rw [loadsBytes, dumpsAscii, decodeUtf8?_utf8, Option.bind_some, loads_render escapes_ascii hv]

/-- A line is read with its newline. -/
theorem loadsBytes_line [FloatText] {v : Json} (hv : Proper v) :
    loadsBytes (dumpsAscii v ++ [newline]) = some v := by
  have hline : dumpsAscii v ++ [newline] = utf8 (render escapeAscii v ++ ['\n']) := by
    rw [utf8_append]
    rfl
  have hfuel : (render escapeAscii v).length ≤ (render escapeAscii v ++ ['\n']).length + 1 := by
    rw [List.length_append]
    omega
  have hread := (reads escapes_ascii _).1 v hv ['\n'] (ended_cons rfl) hfuel
  rw [loadsBytes, hline, decodeUtf8?_utf8, Option.bind_some, loads, hread]
  rfl

/-- What was cut in a line is no JSON. -/
theorem loadsBytes_cut [FloatText] {fields : List (String × Json)} (hv : Proper (.obj fields))
    {head tail : Bytes} (htail : tail ≠ []) (hcut : dumpsAscii (.obj fields) = head ++ tail) :
    loadsBytes head = none := by
  rw [dumpsAscii_eq] at hcut
  obtain ⟨text, more, htext, rfl, rfl⟩ := List.map_eq_append_iff.mp hcut
  have hmore : more ≠ [] := by
    rintro rfl
    exact htail rfl
  have hplain : ∀ c ∈ text, Plain c := by
    intro c hc
    apply plain_render (.obj fields)
    rw [htext]
    exact List.mem_append_left _ hc
  rw [← utf8_plain hplain, loadsBytes, decodeUtf8?_utf8, Option.bind_some,
    loads_cut escapes_ascii hv hmore htext]

/-! ## Many lines -/

/-- The lines of a file, and what follows the last newline. -/
def splitLines : Bytes → List Bytes × Bytes
  | [] => ([], [])
  | b :: rest =>
      if b = newline then ([] :: (splitLines rest).1, (splitLines rest).2)
      else
        match (splitLines rest).1 with
        | [] => ([], b :: (splitLines rest).2)
        | line :: lines => ((b :: line) :: lines, (splitLines rest).2)

theorem splitLines_tail {tail : Bytes} (h : newline ∉ tail) : splitLines tail = ([], tail) := by
  induction tail with
  | nil => rfl
  | cons b tail ih =>
      rw [List.mem_cons, not_or] at h
      rw [splitLines, if_neg (Ne.symm h.1), ih h.2]

theorem splitLines_line {line : Bytes} (h : newline ∉ line) (rest : Bytes) :
    splitLines (line ++ newline :: rest) = (line :: (splitLines rest).1, (splitLines rest).2) := by
  induction line with
  | nil => rw [List.nil_append, splitLines, if_pos rfl]
  | cons b line ih =>
      rw [List.mem_cons, not_or] at h
      rw [List.cons_append, splitLines, if_neg (Ne.symm h.1), ih h.2]

/-- The bytes of a list of objects, one a line. -/
def jsonLines (docs : List (List (String × Json))) : Bytes :=
  docs.flatMap fun fields => dumpsAscii (.obj fields) ++ [newline]

variable {docs : List (List (String × Json))}

@[simp] theorem jsonLines_nil : jsonLines [] = [] := rfl

theorem jsonLines_cons (fields : List (String × Json)) (docs : List (List (String × Json))) :
    jsonLines (fields :: docs) = dumpsAscii (.obj fields) ++ newline :: jsonLines docs := by
  rw [jsonLines, List.flatMap_cons, List.append_assoc]
  rfl

theorem jsonLines_append (docs more : List (List (String × Json))) :
    jsonLines (docs ++ more) = jsonLines docs ++ jsonLines more :=
  List.flatMap_append

theorem splitLines_jsonLines {tail : Bytes} (h : newline ∉ tail) :
    splitLines (jsonLines docs ++ tail) = (docs.map fun fields => dumpsAscii (.obj fields), tail) := by
  induction docs with
  | nil => exact splitLines_tail h
  | cons fields docs ih =>
      rw [jsonLines_cons, List.append_assoc, List.cons_append,
        splitLines_line (newline_not_mem _), ih]
      rfl

/-- Lines whose writing stopped: whole lines, and a part of the next one. -/
theorem take_jsonLines (docs : List (List (String × Json))) (k : Nat) :
    ∃ kept tail, (jsonLines docs).take k = jsonLines kept ++ tail ∧
      ((kept = docs ∧ tail = []) ∨
        ∃ fields rest more, docs = kept ++ fields :: rest ∧
          dumpsAscii (.obj fields) = tail ++ more) := by
  induction docs generalizing k with
  | nil => exact ⟨[], [], List.take_nil, .inl ⟨rfl, rfl⟩⟩
  | cons fields docs ih =>
      rw [jsonLines_cons, List.take_append]
      by_cases hk : k ≤ (dumpsAscii (.obj fields)).length
      · refine ⟨[], (dumpsAscii (.obj fields)).take k, ?_, .inr ⟨fields, docs,
          (dumpsAscii (.obj fields)).drop k, rfl, (List.take_append_drop k _).symm⟩⟩
        rw [Nat.sub_eq_zero_of_le hk, List.take_zero, List.append_nil]
        rfl
      · obtain ⟨n, hn⟩ : ∃ n, k - (dumpsAscii (.obj fields)).length = n + 1 :=
          ⟨k - (dumpsAscii (.obj fields)).length - 1, by omega⟩
        obtain ⟨kept, tail, htake, hkept⟩ := ih n
        refine ⟨fields :: kept, tail, ?_, ?_⟩
        · rw [hn, List.take_succ_cons, htake, List.take_of_length_le (by omega), jsonLines_cons,
            List.append_assoc, List.cons_append]
        · rcases hkept with ⟨rfl, rfl⟩ | ⟨next, rest, more, rfl, hcut⟩
          · exact .inl ⟨rfl, rfl⟩
          · exact .inr ⟨next, rest, more, rfl, hcut⟩

end AgentsServer.Library.Json

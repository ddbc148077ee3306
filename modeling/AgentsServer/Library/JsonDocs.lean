import AgentsServer.Library.JsonLoads
import AgentsServer.Library.JsonSuffix
import Mathlib.Data.Int.Log
import Mathlib.Data.Rat.Floor

/-!
# The value of a JSON text

`json.loads` with all that it accepts: the scanner with the containers that are open and what was
read of the token it is in. A text is a list of codes, among them single surrogates, and a number
is known by its characters, among them those of `NaN` and of the infinities.
-/

namespace AgentsServer.Library.JsonScan

inductive Doc where
  | null
  | bool (value : Bool)
  | num (literal : List Char)
  | text (codes : List Nat)
  | arr (items : List Doc)
  | obj (fields : List (List Nat × Doc))

def codesOf (text : String) : List Nat := text.toList.map Char.toNat

namespace Doc

/-- `dict.get`: the last value of a key counts. -/
def get (fields : List (List Nat × Doc)) (key : String) : Option Doc :=
  (fields.reverse.find? fun f => f.1 == codesOf key).map Prod.snd

end Doc

/-! ## Reading -/

/-- A container with what it holds so far. -/
inductive Open where
  | arr (items : List Doc)
  | obj (fields : List (List Nat × Doc)) (name : List Nat)

def Open.close : Open → Doc
  | .arr items => .arr items
  | .obj fields _ => .obj fields

structure Reader where
  scanner : Scanner
  opened : List Open
  token : List Char
  root : Doc

/-- The code of a character behind a backslash. -/
def escaped (c : Char) : Nat :=
  if c = 'n' then 10
  else if c = 'r' then 13
  else if c = 't' then 9
  else if c = 'b' then 8
  else if c = 'f' then 12
  else c.toNat

def hexValue (digits : List Char) : Nat :=
  digits.foldl (fun n c => 16 * n + (Json.hexDigit? c).getD 0) 0

/-- The units of a text between its quotes. -/
def units : List Char → List Nat
  | '\\' :: 'u' :: a :: b :: c :: d :: rest => hexValue [a, b, c, d] :: units rest
  | '\\' :: c :: rest => escaped c :: units rest
  | c :: rest => c.toNat :: units rest
  | [] => []

def wordOf (token : List Char) : Doc :=
  if token = "null".toList then .null
  else if token = "true".toList then .bool true
  else if token = "false".toList then .bool false
  else .num token

def isNumber : Mode → Bool
  | .minus | .zero | .digits _ | .point | .fraction | .exponent | .sign | .power => true
  | _ => false

namespace Reader

/-- A value is complete. -/
def put (r : Reader) (value : Doc) : Reader :=
  match r.opened with
  | [] => { r with root := value }
  | .arr items :: rest => { r with opened := .arr (items ++ [value]) :: rest }
  | .obj fields name :: rest => { r with opened := .obj (fields ++ [(name, value)]) name :: rest }

/-- A text in front of a colon is complete. -/
def name (r : Reader) (key : List Nat) : Reader :=
  match r.opened with
  | .obj fields _ :: rest => { r with opened := .obj fields key :: rest }
  | _ => r

/-- A closing bracket. -/
def pop (r : Reader) : Reader :=
  match r.opened with
  | [] => r
  | container :: rest => put { r with opened := rest } container.close

/-- A character between tokens takes the scanner to `s`. -/
def mark (r : Reader) (s : Scanner) (c : Char) : Reader :=
  if r.scanner.stack.length < s.stack.length then
    { r with opened := (if c = '{' then .obj [] [] else .arr []) :: r.opened }
  else if s.stack.length < r.scanner.stack.length then r.pop
  else { r with token := if c = '"' then [] else [c] }

/-- What a character that takes the scanner to `s` adds. -/
def add (r : Reader) (s : Scanner) (c : Char) : Reader :=
  match r.scanner.mode with
  | .text isName =>
      if c ≠ '"' then { r with token := r.token ++ [c] }
      else if isName then r.name (joinSurrogates (units r.token))
      else r.put (.text (joinSurrogates (units r.token)))
  | .escape _ | .unicode _ _ => { r with token := r.token ++ [c] }
  | .word _ =>
      if s.mode = .done then r.put (wordOf (r.token ++ [c]))
      else { r with token := r.token ++ [c] }
  | mode =>
      if isNumber mode = true then
        if isNumber s.mode = true ∨ c = 'I' then { r with token := r.token ++ [c] }
        else (r.put (.num r.token)).mark s c
      else r.mark s c

def step (limits : Limits) (r : Reader) (c : Char) : Except Fault Reader :=
  match JsonScan.step limits r.scanner c with
  | .ok s => .ok { r.add s c with scanner := s }
  | .error e => .error e

/-- The value at the end of a text. A number ends there. -/
def value (r : Reader) : Doc :=
  if isNumber r.scanner.mode = true then (r.put (.num r.token)).root else r.root

def read (limits : Limits) (r : Reader) : List Char → Except Fault Doc
  | [] => if r.scanner.complete limits then .ok r.value else .error .valueError
  | c :: rest =>
      match r.step limits c with
      | .ok t => t.read limits rest
      | .error e => .error e

end Reader

def Reader.start : Reader := ⟨⟨[], .value⟩, [], [], .null⟩

/-- `json.loads` of a text. -/
def loads (limits : Limits) (text : List Char) : Except Fault Doc :=
  Reader.start.read limits text

/-- `json.loads` of a byte string. -/
def loadsBytes (limits : Limits) (body : Bytes) : Except Fault Doc :=
  match decode body with
  | none => .error .valueError
  | some text => loads limits text

/-! ## Numbers -/

def roundEven (v : Rat) : Int :=
  let below := v.floor
  let part := v - below
  if part < 1 / 2 ∨ part = 1 / 2 ∧ below % 2 = 0 then below else below + 1

/-- The float nearest to a number, where it is finite. -/
def double? (v : Rat) : Option Rat :=
  if v = 0 then some 0
  else
    let unit : Rat := 2 ^ max (Int.log 2 |v| - 52) (-1074)
    let rounded := roundEven (v / unit) * unit
    if 2 ^ 1024 ≤ |rounded| then none else some rounded

inductive Number where
  | int (value : Int)
  | float (value : Rat)
  | infinite
  | nan

def numberOf (text : List Char) : Number :=
  if text = "NaN".toList then .nan
  else
    match Decimal.ofText? text with
    | none => .infinite
    | some d =>
        if d.isInt then .int d.mantissa
        else
          match double? d.value with
          | some v => .float v
          | none => .infinite

/-- What a conversion, an index or a method raises. -/
inductive Raised where
  | typeError
  | valueError
  | indexError
  | keyError
  | overflowError
  | attributeError
  | recursionError
  deriving DecidableEq

/-- `int()` of a text, where it does not raise. -/
class IntText where
  int? : List Nat → Option Int
  empty : int? [] = none

namespace Doc

/-- `int()`. -/
def int [IntText] : Doc → Except Raised Int
  | .bool value => .ok value.toNat
  | .num literal =>
      match numberOf literal with
      | .int value => .ok value
      | .float value => .ok (if value < 0 then value.ceil else value.floor)
      | .infinite => .error .overflowError
      | .nan => .error .valueError
  | .text codes =>
      match IntText.int? codes with
      | some value => .ok value
      | none => .error .valueError
  | _ => .error .typeError

/-- `value == n` for an integer `n`. -/
def equals (n : Int) : Doc → Bool
  | .bool value => (value.toNat : Int) == n
  | .num literal =>
      match numberOf literal with
      | .int value => value == n
      | .float value => value == n
      | _ => false
  | _ => false

/-- `bool()`. -/
def truthy : Doc → Bool
  | .null => false
  | .bool value => value
  | .num literal =>
      match numberOf literal with
      | .int value => value != 0
      | .float value => value != 0
      | _ => true
  | .text codes => !codes.isEmpty
  | .arr items => !items.isEmpty
  | .obj fields => !fields.isEmpty

/-- `value[i]`. The keys of an object are texts. -/
def item (i : Nat) : Doc → Except Raised Doc
  | .arr items =>
      match items[i]? with
      | some value => .ok value
      | none => .error .indexError
  | .text codes =>
      match codes[i]? with
      | some code => .ok (.text [code])
      | none => .error .indexError
  | .obj _ => .error .keyError
  | _ => .error .typeError

end Doc

/-! ## The text of an object -/

variable {limits : Limits} {stack : List Frame} {mode : Mode} {s t : Scanner} {c : Char}
  {text : List Char}

/-- At its outermost level a value that has begun is closed already, or is no container. -/
theorem outermost_stack (hs : Begun ⟨[], mode⟩ = true) (h : step limits ⟨[], mode⟩ c = .ok t) :
    t.stack = [] := by
  have kept (result : Except Fault Scanner) (hkept : ∀ u, result = .ok u → u.stack = [])
      (hresult : result = .ok t) : t.stack = [] := hkept t hresult
  have same {m : Mode} : ∀ u, (.ok ⟨[], m⟩ : Except Fault Scanner) = .ok u → u.stack = [] := by
    rintro u ⟨⟩
    rfl
  have refused {e : Fault} : ∀ u, (.error e : Except Fault Scanner) = .ok u → u.stack = [] := by
    rintro u ⟨⟩
  have branch {p : Prop} [Decidable p] {a b : Except Fault Scanner}
      (ha : ∀ u, a = .ok u → u.stack = []) (hb : ∀ u, b = .ok u → u.stack = []) :
      ∀ u, (if p then a else b) = .ok u → u.stack = [] := by
    by_cases hp : p
    · rwa [if_pos hp]
    · rwa [if_neg hp]
  have ended : ∀ u, afterValue [] c = .ok u → u.stack = [] := branch same refused
  refine kept _ ?_ h
  cases mode with
  | value => cases hs
  | item => cases hs
  | field => cases hs
  | name => cases hs
  | colon => cases hs
  | done => exact ended
  | text isName => exact branch same (branch same (branch refused same))
  | escape isName => exact branch same (branch same refused)
  | unicode isName owed => exact branch same refused
  | word letters => exact branch same refused
  | minus => exact branch same (branch same (branch same refused))
  | zero => exact branch same (branch same ended)
  | digits count => exact branch same (branch same (branch same (branch ended refused)))
  | point => exact branch same refused
  | fraction => exact branch same (branch same ended)
  | exponent => exact branch same (branch same refused)
  | sign => exact branch same refused
  | power => exact branch same ended

namespace Reader

variable {r : Reader} {value : Doc}

/-- The outermost value is no object. -/
structure NoObject (r : Reader) : Prop where
  root : ∀ fields, r.root ≠ .obj fields
  last : ∀ o ∈ r.opened.getLast?, ∃ items, o = .arr items

theorem length_put : (r.put value).opened.length = r.opened.length := by
  unfold put
  split
  · rfl
  · next h => rw [h]; rfl
  · next h => rw [h]; rfl

theorem length_name (key : List Nat) : (r.name key).opened.length = r.opened.length := by
  unfold name
  split
  · next h => rw [h]; rfl
  · rfl

theorem length_pop : r.opened.length ≤ r.pop.opened.length + 1 := by
  unfold pop
  split
  · exact Nat.le_succ _
  · next h =>
      rw [length_put, h]
      exact Nat.le_refl _

theorem NoObject.put (h : NoObject r) (hvalue : r.opened = [] → ∀ fields, value ≠ .obj fields) :
    NoObject (r.put value) := by
  unfold Reader.put
  split
  · next hopen =>
      exact ⟨hvalue hopen, h.last⟩
  · next items rest hopen =>
      refine ⟨h.root, ?_⟩
      intro o ho
      cases rest with
      | nil =>
          cases ho
          exact ⟨_, rfl⟩
      | cons p rest =>
          apply h.last
          rw [hopen]
          simpa using ho
  · next fields key rest hopen =>
      refine ⟨h.root, ?_⟩
      intro o ho
      cases rest with
      | nil =>
          obtain ⟨items, hitems⟩ := h.last (.obj fields key) (by rw [hopen]; rfl)
          cases hitems
      | cons p rest =>
          apply h.last
          rw [hopen]
          simpa using ho

theorem NoObject.name (h : NoObject r) (key : List Nat) : NoObject (r.name key) := by
  unfold Reader.name
  split
  · next fields old rest hopen =>
      refine ⟨h.root, ?_⟩
      intro o ho
      cases rest with
      | nil =>
          obtain ⟨items, hitems⟩ := h.last (.obj fields old) (by rw [hopen]; rfl)
          cases hitems
      | cons p rest =>
          apply h.last
          rw [hopen]
          simpa using ho
  · exact h

theorem NoObject.pop (h : NoObject r) : NoObject r.pop := by
  unfold Reader.pop
  split
  · exact h
  · next container rest hopen =>
      have hlast := h.last
      rw [hopen] at hlast
      apply NoObject.put
      · refine ⟨h.root, ?_⟩
        intro o ho
        cases rest with
        | nil => cases ho
        | cons p rest => exact hlast o (by simpa using ho)
      · intro hrest fields
        change rest = [] at hrest
        subst hrest
        obtain ⟨items, hitems⟩ := hlast container rfl
        subst hitems
        rintro ⟨⟩

theorem NoObject.token (h : NoObject r) (token : List Char) :
    NoObject { r with token := token } := ⟨h.root, h.last⟩

theorem NoObject.mark (h : NoObject r)
    (hpush : r.scanner.stack.length < s.stack.length → r.opened ≠ []) :
    NoObject (r.mark s c) := by
  unfold Reader.mark
  split
  · next hlonger =>
      refine ⟨h.root, ?_⟩
      intro o ho
      apply h.last
      cases hopen : r.opened with
      | nil => exact absurd hopen (hpush hlonger)
      | cons p rest =>
          rw [hopen] at ho
          simpa using ho
  split
  · exact h.pop
  · exact h.token _

theorem length_mark (hdeep : r.scanner.stack.length ≤ r.opened.length)
    (hstack : s.stack.length ≤ r.scanner.stack.length + 1) :
    s.stack.length ≤ (r.mark s c).opened.length := by
  unfold mark
  split
  · exact hstack.trans (Nat.succ_le_succ hdeep)
  split
  · have hpop := length_pop (r := r)
    omega
  · change s.stack.length ≤ r.opened.length
    omega

/-- The reader within a value that is no object. -/
structure Within (r : Reader) : Prop where
  begun : Begun r.scanner = true
  deep : r.scanner.stack.length ≤ r.opened.length
  plain : NoObject r

/-- A character inside a token leaves the brackets as they are. -/
theorem step_token (hmode : match mode with
      | .text _ | .escape _ | .unicode _ _ | .word _ => True
      | _ => False) (h : JsonScan.step limits ⟨stack, mode⟩ c = .ok t) : t.stack = stack := by
  cases mode <;> first | exact hmode.elim | skip
  all_goals
    simp only [JsonScan.step] at h
    repeat' split at h
  all_goals first | (cases h; done) | (cases h; rfl)

theorem step_number (hmode : isNumber mode = true)
    (h : JsonScan.step limits ⟨stack, mode⟩ c = .ok t) : t.stack.length ≤ stack.length := by
  have ended (h : afterValue stack c = .ok t) : t.stack.length ≤ stack.length :=
    (@shallow_afterValue limits _ 0 _).stack t h
  cases mode <;> first | (cases hmode; done) | skip
  all_goals
    simp only [JsonScan.step] at h
    repeat' split at h
  all_goals first | exact ended h | (cases h; done) | (cases h; exact Nat.le_refl _)

theorem put_scanner : (r.put value).scanner = r.scanner := by
  unfold put
  split <;> rfl

theorem wordOf_plain (token : List Char) (fields : List (List Nat × Doc)) :
    wordOf token ≠ .obj fields := by
  unfold wordOf
  repeat' split
  all_goals rintro ⟨⟩

theorem NoObject.scanner (h : NoObject r) (s : Scanner) : NoObject { r with scanner := s } :=
  ⟨h.root, h.last⟩

theorem Within.add (h : Within r) (hstep : JsonScan.step limits r.scanner c = .ok s) :
    NoObject (r.add s c) ∧ s.stack.length ≤ (r.add s c).opened.length := by
  obtain ⟨⟨stack, mode⟩, opened, token, root⟩ := r
  have hgrow : s.stack.length ≤ stack.length + 1 := by
    have hle := (shallow_step limits _ c).stack s hstep
    have hone : (isOpening c).toNat ≤ 1 := Bool.toNat_le _
    simp only at hle
    omega
  have hpush : stack.length < s.stack.length → opened ≠ [] := by
    rintro hlonger rfl
    have hstack : stack = [] := List.eq_nil_of_length_eq_zero (Nat.le_zero.mp h.deep)
    subst hstack
    rw [outermost_stack h.begun hstep] at hlonger
    exact absurd hlonger (Nat.lt_irrefl _)
  have hnum (literal : List Char) : opened = [] → ∀ fields, Doc.num literal ≠ .obj fields := by
    rintro - fields ⟨⟩
  have hdeep : stack.length ≤ opened.length := h.deep
  have inToken {r : Reader} (hr : NoObject r) (hlength : r.opened.length = opened.length)
      (hstack : s.stack.length ≤ stack.length) :
      NoObject r ∧ s.stack.length ≤ r.opened.length :=
    ⟨hr, hlength ▸ hstack.trans hdeep⟩
  have between : NoObject (mark ⟨⟨stack, mode⟩, opened, token, root⟩ s c) ∧
      s.stack.length ≤ (mark ⟨⟨stack, mode⟩, opened, token, root⟩ s c).opened.length :=
    ⟨h.plain.mark hpush, length_mark hdeep hgrow⟩
  have number (hmode : isNumber mode = true)
      (hadd : Reader.add ⟨⟨stack, mode⟩, opened, token, root⟩ s c =
        if isNumber s.mode = true ∨ c = 'I' then ⟨⟨stack, mode⟩, opened, token ++ [c], root⟩
        else (put ⟨⟨stack, mode⟩, opened, token, root⟩ (.num token)).mark s c) :
      NoObject (Reader.add ⟨⟨stack, mode⟩, opened, token, root⟩ s c) ∧
        s.stack.length ≤ (Reader.add ⟨⟨stack, mode⟩, opened, token, root⟩ s c).opened.length := by
    rw [hadd]
    split
    · exact inToken (h.plain.token _) rfl (step_number hmode hstep)
    · have hput : NoObject (put ⟨⟨stack, mode⟩, opened, token, root⟩ (.num token)) :=
        h.plain.put fun _ _ => nofun
      have hlength : (put ⟨⟨stack, mode⟩, opened, token, root⟩ (.num token)).opened.length =
          opened.length := length_put
      have hscanner : (put ⟨⟨stack, mode⟩, opened, token, root⟩ (.num token)).scanner =
          ⟨stack, mode⟩ := put_scanner
      refine ⟨hput.mark ?_, length_mark ?_ ?_⟩
      · rw [hscanner]
        intro hlonger hnil
        rw [hnil] at hlength
        exact hpush hlonger (List.eq_nil_of_length_eq_zero hlength.symm)
      · rw [hscanner, hlength]
        exact hdeep
      · rw [hscanner]
        exact hgrow
  cases mode with
  | text isName =>
      have hstack := (congrArg List.length (step_token trivial hstep)).le
      simp only [Reader.add]
      split
      · exact inToken (h.plain.token _) rfl hstack
      split
      · exact inToken (h.plain.name _) (length_name _) hstack
      · exact inToken (h.plain.put fun _ _ => nofun) length_put hstack
  | escape isName =>
      have hstack := (congrArg List.length (step_token trivial hstep)).le
      exact inToken (h.plain.token _) rfl hstack
  | unicode isName owed =>
      have hstack := (congrArg List.length (step_token trivial hstep)).le
      exact inToken (h.plain.token _) rfl hstack
  | word letters =>
      have hstack := (congrArg List.length (step_token trivial hstep)).le
      simp only [Reader.add]
      split
      · exact inToken (h.plain.put fun _ fields => wordOf_plain _ fields) length_put hstack
      · exact inToken (h.plain.token _) rfl hstack
  | value => exact between
  | item => exact between
  | field => exact between
  | name => exact between
  | colon => exact between
  | done => exact between
  | minus => exact number rfl rfl
  | zero => exact number rfl rfl
  | digits count => exact number rfl rfl
  | point => exact number rfl rfl
  | fraction => exact number rfl rfl
  | exponent => exact number rfl rfl
  | sign => exact number rfl rfl
  | power => exact number rfl rfl

theorem Within.step {next : Reader} (h : Within r) (hstep : r.step limits c = .ok next) :
    Within next := by
  unfold Reader.step at hstep
  split at hstep
  · next s hs =>
      cases hstep
      obtain ⟨hplain, hdeep⟩ := h.add hs
      exact ⟨begins_step h.begun s hs, hdeep, hplain.scanner s⟩
  · cases hstep

theorem Within.read (h : Within r) (hread : r.read limits text = .ok value) :
    ∀ fields, value ≠ .obj fields := by
  induction text generalizing r with
  | nil =>
      unfold Reader.read at hread
      split at hread
      · cases hread
        unfold Reader.value
        split
        · exact (h.plain.put (by rintro _ fields ⟨⟩)).root
        · exact h.plain.root
      · cases hread
  | cons c text ih =>
      unfold Reader.read at hread
      split at hread
      · next next hstep => exact ih (h.step hstep) hread
      · cases hread

theorem read_scan (h : r.read limits text = .ok value) : scan limits r.scanner text = .ok () := by
  induction text generalizing r with
  | nil =>
      unfold Reader.read at h
      rw [scan]
      split at h
      · next hcomplete => exact if_pos hcomplete
      · cases h
  | cons c text ih =>
      unfold Reader.read at h
      split at h
      · next next hstep =>
          unfold Reader.step at hstep
          split at hstep
          · next s hs =>
              cases hstep
              have hrest : scan limits s text = .ok () := ih h
              rw [scan, hs]
              exact hrest
          · cases hstep
      · cases h

/-- The first character of a value. -/
theorem within_first (hscanner : r.scanner = ⟨[], .value⟩) (hopen : r.opened = [])
    (hroot : ∀ fields, r.root ≠ .obj fields) (hc : c ≠ '{')
    (hbegin : beginValue limits [] c = .ok s) : Within { r.mark s c with scanner := s } := by
  have hgrow : s.stack.length ≤ r.scanner.stack.length + 1 := by
    have hle := (@shallow_beginValue limits [] _).stack s hbegin
    have hone : (isOpening c).toNat ≤ 1 := Bool.toNat_le _
    rw [hscanner]
    simp only [List.length_nil] at hle ⊢
    omega
  refine ⟨begins_beginValue s hbegin, ?_, ?_⟩
  · apply length_mark _ hgrow
    rw [hscanner]
    exact Nat.zero_le _
  · apply NoObject.scanner
    unfold Reader.mark
    rw [hscanner, hopen]
    split
    · refine ⟨hroot, ?_⟩
      intro o ho
      cases ho
      exact ⟨_, rfl⟩
    split
    · next hshort => exact absurd hshort (Nat.not_lt_zero _)
    · refine ⟨hroot, ?_⟩
      intro o ho
      cases ho

theorem read_brace (hscanner : r.scanner = ⟨[], .value⟩) (hopen : r.opened = [])
    (hroot : ∀ fields, r.root ≠ .obj fields) {fields : List (List Nat × Doc)}
    (hread : r.read limits text = .ok (.obj fields)) :
    (text.dropWhile isSpace).head? = some '{' := by
  induction text generalizing r with
  | nil =>
      unfold Reader.read at hread
      rw [hscanner] at hread
      cases hread
  | cons c text ih =>
      have hadd (s : Scanner) : r.add s c = r.mark s c := by
        rw [Reader.add, hscanner]
        rfl
      unfold Reader.read Reader.step at hread
      rw [hscanner] at hread
      by_cases hspace : isSpace c = true
      · have hstep : JsonScan.step limits ⟨[], .value⟩ c = .ok ⟨[], .value⟩ := if_pos hspace
        have hsame : r.mark ⟨[], .value⟩ c = { r with token := if c = '"' then [] else [c] } := by
          rw [Reader.mark, hscanner]
          rfl
        rw [hstep] at hread
        simp only [hadd, hsame] at hread
        rw [List.dropWhile_cons_of_pos hspace]
        refine ih ?_ ?_ ?_ hread
        · rfl
        · exact hopen
        · exact hroot
      · rw [List.dropWhile_cons_of_neg hspace]
        by_cases hc : c = '{'
        · rw [hc]
          rfl
        have hstep : JsonScan.step limits ⟨[], .value⟩ c = beginValue limits [] c := if_neg hspace
        rw [hstep] at hread
        cases hbegin : beginValue limits [] c with
        | error e =>
            rw [hbegin] at hread
            cases hread
        | ok s =>
            rw [hbegin] at hread
            simp only [hadd] at hread
            have within := within_first hscanner hopen hroot hc hbegin
            exact absurd rfl (within.read hread fields)

end Reader

variable {value : Doc} {fields : List (List Nat × Doc)}

theorem loads_scan (h : loads limits text = .ok value) :
    scan limits ⟨[], .value⟩ text = .ok () := Reader.read_scan h

/-- An object is read from a brace. -/
theorem loads_brace (h : loads limits text = .ok (.obj fields)) :
    (text.dropWhile isSpace).head? = some '{' := by
  refine Reader.read_brace ?_ ?_ ?_ h
  · rfl
  · rfl
  · rintro fields ⟨⟩

/-- Where an end of a text is the text of an object, only blanks stand before it. -/
theorem loads_end {pre : List Char} (hwhole : loads limits (pre ++ text) = .ok value)
    (hend : loads limits text = .ok (.obj fields)) : pre.all isSpace = true :=
  scan_end (loads_scan hwhole) (loads_scan hend) (loads_brace hend)

end AgentsServer.Library.JsonScan

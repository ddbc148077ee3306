import AgentsServer.Library.Urlencoded
import AgentsServer.PeerProxy.Routes

/-!
# The query of a proxied request

A query is read into pairs, every value is checked under its key, and the pairs are
written again. What is documented of the values of an accepted query is a record with one
field for each key.
-/

namespace AgentsServer.PeerProxy

open Library

variable [Interpreter]

abbrev Pairs := List (String × String)

def invalidQuery : Failure := invalidRequest "Proxy query is invalid" 422

/-! ## Reading and checking -/

/-- `parse_qsl(query, keep_blank_values=True, strict_parsing=True)`. -/
def parseQsl (query : String) : Option Pairs :=
  (Urlencoded.parseQsl query.toList).map
    (List.map fun pair => (String.ofList pair.1, String.ofList pair.2))

def urlencode (pairs : Pairs) : String :=
  String.ofList (Urlencoded.urlencode (pairs.map fun pair => (pair.1.toList, pair.2.toList)))

/-- `int` of a text of digits. No query is long enough for the limit on their number. -/
def int (value : String) : Except Failure Nat :=
  match value.toList.mapM Interpreter.decimal with
  | some digits => .ok (digits.foldl (fun n digit => 10 * n + digit) 0)
  | none => .error .valueError

/-- A check of the value under a key, where there is one. -/
def checkValue (values : Pairs) (key : String) (accepts : String → Bool) (failure : Failure) :
    Except Failure Unit :=
  match values.lookup key with
  | some value => require (accepts value = true) failure
  | none => .ok ()

/-- A check of the number under a key, where there is one. -/
def checkInt (values : Pairs) (key : String) (accepts : Nat → Bool) : Except Failure Unit :=
  match values.lookup key with
  | some value => do
      let n ← int value
      require (accepts n = true) invalidQuery
  | none => .ok ()

/-- The value under a key is a number in its only decimal text. -/
def checkDigits (values : Pairs) (key : String) : Except Failure Unit :=
  match values.lookup key with
  | some value => do
      require (isdigit value = true) invalidQuery
      let n ← int value
      require (toString n = value) invalidQuery
  | none => .ok ()

def numericKeys : List String := ["limit", "before_sequence", "after_sequence", "version"]

def flagKeys : List String :=
  ["unread", "include_archived", "include_revision", "include_mail_subject",
    "include_mailbox_state", "include_mailbox_coverage"]

def endsWith (suffix path : String) : Bool := suffix.toList.isSuffixOf path.toList

def isCursorChar (c : Char) : Bool := PeerStore.isAsciiAlnum c || c == '_' || c == '-'

/-- `v1\.[A-Za-z0-9_-]{38,500}`. -/
def isCursor (value : String) : Bool :=
  match dropPrefix? "v1." value.toList with
  | some rest => 38 ≤ rest.length && rest.length ≤ 500 && rest.all isCursorChar
  | none => false

/-- `[a-z0-9][a-z0-9-]{0,63}`. -/
def isSlug (value : String) : Bool :=
  let plain (c : Char) := c.isDigit || ('a' ≤ c && c ≤ 'z')
  match value.toList with
  | [] => false
  | c :: rest => plain c && rest.length ≤ 63 && rest.all fun d => plain d || d == '-'

/-- The category `Cc`. -/
def isControl (c : Char) : Bool := c.toNat < 32 || (127 ≤ c.toNat && c.toNat ≤ 159)

def isSearch (value : String) : Bool :=
  1 ≤ value.length && value.length ≤ 200 && !isBlank value && !value.toList.any isControl

/-- Printable ASCII, neither empty nor longer than the bound. -/
def isPrintable (most : Nat) (value : String) : Bool :=
  value ≠ "" && value.length ≤ most &&
    value.toList.all fun c => 33 ≤ c.toNat && c.toNat ≤ 126

def addressKinds (path : String) : List String :=
  if endsWith "/network/mailbox" path then ["server"]
  else if endsWith "/network/messages" path then ["server", "human"]
  else ["server", "agent"]

/-- The checks of a query, in the order of the gate. -/
def checkQuery (method path : String) (values : Pairs) : Except Failure Unit := do
  forM numericKeys (checkDigits values)
  checkInt values "limit" fun n => 1 ≤ n && n ≤ 100
  checkInt values "limit" fun n => !endsWith "/thread" path || n ≤ 25
  checkInt values "version" fun n => 1 ≤ n && n ≤ 200
  checkValue values "cursor" isCursor invalidQuery
  checkInt values "before_sequence" fun n => 1 ≤ n
  checkInt values "after_sequence" fun n => n ≤ 9223372036854775807
  checkValue values "after_arrival_id" (isPrefixedHex "tmsg_" 32)
    (invalidRequest "Proxy arrival anchor is invalid" 422)
  checkValue values "after_server_id" PeerStore.isIdentifier invalidQuery
  checkValue values "q" isSearch (invalidRequest "Search query is invalid" 422)
  checkValue values "address_kind" (addressKinds path).contains invalidQuery
  forM ["address_id", "from_id"] fun key => checkValue values key (isPrintable 240) invalidQuery
  checkValue values "box" ["inbox", "feed", "sent"].contains invalidQuery
  forM flagKeys fun key =>
    checkValue values key ["0", "1", "true", "false"].contains invalidQuery
  checkValue values "from_kind" ["server", "human"].contains invalidQuery
  checkValue values "since" (isPrintable 40) invalidQuery
  checkValue values "slug" isSlug invalidQuery
  require (endsWith "/network/mailbox" path = true ∧ method = "GET" →
    (values.lookup "address_kind").isSome ∧ (values.lookup "address_id").isSome) invalidQuery

/-- The pairs of a query with keys of the route only, each once. -/
def readPairs (query : String) (keys : List String) : Except Failure Pairs := do
  let pairs ← required (parseQsl query) invalidQuery
  require (pairs.length ≤ keys.length ∧ (pairs.map Prod.fst).Nodup ∧
    ∀ pair ∈ pairs, pair.1 ∈ keys) invalidQuery
  return pairs

/-- The query that is forwarded. -/
def proxyQuery (method path query : String) (allowed : Query) : Except Failure String :=
  if query = "" then .ok ""
  else do
    require (allowed.allowed = true) (invalidRequest "Query is not accepted for this route" 422)
    let pairs ← readPairs query allowed.keys
    checkQuery method path pairs
    return urlencode pairs

/-! ## What a query may say -/

/-- A number in its decimal text, within bounds. -/
def IsNumber (value : String) (least : Nat) (most : Option Nat) : Prop :=
  ∃ n : Nat, value = toString n ∧ least ≤ n ∧ ∀ bound ∈ most, n ≤ bound

/-- The values that each key of a query may have. -/
structure Documented (method path : String) (pairs : Pairs) : Prop where
  limit : ∀ v, ("limit", v) ∈ pairs →
    IsNumber v 1 (some (if endsWith "/thread" path then 25 else 100))
  version : ∀ v, ("version", v) ∈ pairs → IsNumber v 1 (some 200)
  beforeSequence : ∀ v, ("before_sequence", v) ∈ pairs → IsNumber v 1 none
  afterSequence : ∀ v, ("after_sequence", v) ∈ pairs → IsNumber v 0 (some (2 ^ 63 - 1))
  cursor : ∀ v, ("cursor", v) ∈ pairs → isCursor v
  afterArrivalId : ∀ v, ("after_arrival_id", v) ∈ pairs → isPrefixedHex "tmsg_" 32 v
  afterServerId : ∀ v, ("after_server_id", v) ∈ pairs → PeerStore.isIdentifier v
  search : ∀ v, ("q", v) ∈ pairs → isSearch v
  addressKind : ∀ v, ("address_kind", v) ∈ pairs → v ∈ addressKinds path
  addressId : ∀ v, ("address_id", v) ∈ pairs → isPrintable 240 v
  fromId : ∀ v, ("from_id", v) ∈ pairs → isPrintable 240 v
  box : ∀ v, ("box", v) ∈ pairs → v ∈ ["inbox", "feed", "sent"]
  flag : ∀ key ∈ flagKeys, ∀ v, (key, v) ∈ pairs → v ∈ ["0", "1", "true", "false"]
  fromKind : ∀ v, ("from_kind", v) ∈ pairs → v ∈ ["server", "human"]
  since : ∀ v, ("since", v) ∈ pairs → isPrintable 40 v
  slug : ∀ v, ("slug", v) ∈ pairs → isSlug v
  mailbox : pairs ≠ [] → endsWith "/network/mailbox" path = true → method = "GET" →
    ∃ kind id, ("address_kind", kind) ∈ pairs ∧ ("address_id", id) ∈ pairs

/-! ## Accepted queries are documented -/

section
variable {values : Pairs} {key : String} {accepts : String → Bool} {failure : Failure}

omit [Interpreter] in
theorem checkValue_ok {u : Unit} (h : checkValue values key accepts failure = .ok u) {v : String}
    (hv : values.lookup key = some v) : accepts v = true := by
  rw [checkValue, hv] at h
  exact (require_eq_ok ..).mp h

theorem checkDigits_ok {u : Unit} (h : checkDigits values key = .ok u) {v : String}
    (hv : values.lookup key = some v) : ∃ n, int v = .ok n ∧ toString n = v := by
  rw [checkDigits, hv] at h
  simp only [bind_eq_ok, require_eq_ok] at h
  obtain ⟨_, _, n, hn, htext⟩ := h
  exact ⟨n, hn, htext⟩

theorem checkInt_ok {holds : Nat → Bool} {u : Unit} (h : checkInt values key holds = .ok u)
    {v : String} {n : Nat} (hv : values.lookup key = some v) (hn : int v = .ok n) :
    holds n = true := by
  rw [checkInt, hv] at h
  simp only [bind_eq_ok, require_eq_ok] at h
  obtain ⟨m, hm, hholds⟩ := h
  rw [hn] at hm
  cases hm
  exact hholds

/-- A number that passed both checks. -/
theorem isNumber_of_checks {holds : Nat → Bool} {u w : Unit} {v : String} {least : Nat}
    {most : Option Nat} (digits : checkDigits values key = .ok u)
    (range : checkInt values key holds = .ok w) (hv : values.lookup key = some v)
    (bounds : ∀ n, holds n = true → least ≤ n ∧ ∀ bound ∈ most, n ≤ bound) :
    IsNumber v least most := by
  obtain ⟨n, hn, htext⟩ := checkDigits_ok digits hv
  exact ⟨n, htext.symm, bounds n (checkInt_ok range hv hn)⟩

end

theorem checkQuery_documented {method path : String} {pairs : Pairs} {u : Unit}
    (once : (pairs.map Prod.fst).Nodup) (h : checkQuery method path pairs = .ok u) :
    Documented method path pairs := by
  have value {key v : String} (hv : (key, v) ∈ pairs) : pairs.lookup key = some v :=
    Tables.lookup_of_mem once hv
  simp only [checkQuery, bind_eq_ok, forM_eq_ok, require_eq_ok] at h
  obtain ⟨_, digits, _, limit, _, thread, _, version, _, cursor, _, before, _, after, _, arrival,
    _, server, _, search, _, kind, _, ids, _, box, _, flags, _, fromKind, _, since, _, slug,
    mailbox⟩ := h
  have digit {key : String} (h : key ∈ numericKeys) := digits key h
  exact
    { limit := by
        intro v hv
        obtain ⟨n, hn, htext⟩ := checkDigits_ok (digit (by decide)) (value hv)
        have hrange := checkInt_ok limit (value hv) hn
        have hthread := checkInt_ok thread (value hv) hn
        simp only [Bool.and_eq_true, decide_eq_true_eq] at hrange
        refine ⟨n, htext.symm, hrange.1, ?_⟩
        rintro _ ⟨⟩
        split
        · next hends => simpa [hends] using hthread
        · exact hrange.2
      version := by
        intro v hv
        refine isNumber_of_checks (digit (by decide)) version (value hv) ?_
        intro n hn
        simpa using hn
      beforeSequence := by
        intro v hv
        refine isNumber_of_checks (digit (by decide)) before (value hv) ?_
        intro n hn
        simpa using hn
      afterSequence := by
        intro v hv
        refine isNumber_of_checks (digit (by decide)) after (value hv) ?_
        intro n hn
        simpa using hn
      cursor := fun v hv => checkValue_ok cursor (value hv)
      afterArrivalId := fun v hv => checkValue_ok arrival (value hv)
      afterServerId := fun v hv => checkValue_ok server (value hv)
      search := fun v hv => checkValue_ok search (value hv)
      addressKind := fun v hv => List.contains_iff_mem.mp (checkValue_ok kind (value hv))
      addressId := fun v hv => checkValue_ok (ids "address_id" (by decide)) (value hv)
      fromId := fun v hv => checkValue_ok (ids "from_id" (by decide)) (value hv)
      box := fun v hv => List.contains_iff_mem.mp (checkValue_ok box (value hv))
      flag := fun key hkey v hv =>
        List.contains_iff_mem.mp (checkValue_ok (flags key hkey) (value hv))
      fromKind := fun v hv => List.contains_iff_mem.mp (checkValue_ok fromKind (value hv))
      since := fun v hv => checkValue_ok since (value hv)
      slug := fun v hv => checkValue_ok slug (value hv)
      mailbox := by
        intro _ hpath hmethod
        obtain ⟨hkind, hid⟩ := mailbox ⟨hpath, hmethod⟩
        obtain ⟨kind, hkind⟩ := Option.isSome_iff_exists.mp hkind
        obtain ⟨id, hid⟩ := Option.isSome_iff_exists.mp hid
        exact ⟨kind, id, Tables.mem_of_lookup hkind, Tables.mem_of_lookup hid⟩ }

/-! ## Refused queries -/

def Failure.IsSecurePeerError (e : Failure) : Prop :=
  ∃ code message status, e = .securePeerError code message status

omit [Interpreter] in
theorem isSecurePeerError (code message : String) (status : Nat) :
    (Failure.securePeerError code message status).IsSecurePeerError :=
  ⟨code, message, status, rfl⟩

/-- `int` reads every digit of the values it is given. -/
def DecimalDigits (pairs : Pairs) : Prop :=
  ∀ key ∈ numericKeys, ∀ v, (key, v) ∈ pairs →
    ∀ c ∈ v.toList, Interpreter.isDigit c = true → (Interpreter.decimal c).isSome = true

section
variable {values : Pairs} {key : String}

omit [Interpreter] in
theorem checkValue_raises {accepts : String → Bool} {failure : Failure}
    (h : failure.IsSecurePeerError) :
    OnlyRaises Failure.IsSecurePeerError (checkValue values key accepts failure) := by
  unfold checkValue
  split
  · exact .require h
  · exact .ok ()

theorem checkDigits_raises (digits : DecimalDigits values) (hkey : key ∈ numericKeys) :
    OnlyRaises Failure.IsSecurePeerError (checkDigits values key) := by
  unfold checkDigits
  split
  · next v hv =>
      refine .bind (.require (isSecurePeerError ..)) fun _ hdigit => ?_
      rw [require_eq_ok, isdigit, Bool.and_eq_true, List.all_eq_true] at hdigit
      obtain ⟨read, hread⟩ := mapM_isSome fun c hc =>
        digits key hkey v (Tables.mem_of_lookup hv) c hc (hdigit.2 c hc)
      rw [int, hread]
      exact .bind (.ok _) fun _ _ => .require (isSecurePeerError ..)
  · exact .ok ()

/-- A number that was read once is read again. -/
theorem checkInt_raises {holds : Nat → Bool} {u : Unit}
    (digits : checkDigits values key = .ok u) :
    OnlyRaises Failure.IsSecurePeerError (checkInt values key holds) := by
  unfold checkInt
  split
  · next v hv =>
      obtain ⟨n, hn, _⟩ := checkDigits_ok digits hv
      rw [hn]
      exact .bind (.ok n) fun _ _ => .require (isSecurePeerError ..)
  · exact .ok ()

end

theorem checkQuery_raises {method path : String} {pairs : Pairs} (digits : DecimalDigits pairs) :
    OnlyRaises Failure.IsSecurePeerError (checkQuery method path pairs) := by
  refine .bind (.forM fun key hkey => checkDigits_raises digits hkey) fun _ hdigits => ?_
  rw [forM_eq_ok] at hdigits
  have digit {key : String} (h : key ∈ numericKeys) := hdigits key h
  have known (message : String) : (invalidRequest message 422).IsSecurePeerError :=
    isSecurePeerError ..
  refine .bind (checkInt_raises (digit (by decide))) fun _ _ => ?_
  refine .bind (checkInt_raises (digit (by decide))) fun _ _ => ?_
  refine .bind (checkInt_raises (digit (by decide))) fun _ _ => ?_
  refine .bind (checkValue_raises (known _)) fun _ _ => ?_
  refine .bind (checkInt_raises (digit (by decide))) fun _ _ => ?_
  refine .bind (checkInt_raises (digit (by decide))) fun _ _ => ?_
  refine .bind (checkValue_raises (known _)) fun _ _ => ?_
  refine .bind (checkValue_raises (known _)) fun _ _ => ?_
  refine .bind (checkValue_raises (known _)) fun _ _ => ?_
  refine .bind (checkValue_raises (known _)) fun _ _ => ?_
  refine .bind (.forM fun _ _ => checkValue_raises (known _)) fun _ _ => ?_
  refine .bind (checkValue_raises (known _)) fun _ _ => ?_
  refine .bind (.forM fun _ _ => checkValue_raises (known _)) fun _ _ => ?_
  refine .bind (checkValue_raises (known _)) fun _ _ => ?_
  refine .bind (checkValue_raises (known _)) fun _ _ => ?_
  refine .bind (checkValue_raises (known _)) fun _ _ => ?_
  exact .require (known _)

/-! ## The forwarded query -/

omit [Interpreter] in
/-- The forwarded text is read back as the pairs that were checked. -/
theorem parseQsl_urlencode (pairs : Pairs) : parseQsl (urlencode pairs) = some pairs := by
  rw [parseQsl, urlencode, String.toList_ofList, Urlencoded.parseQsl_urlencode, Option.map_some,
    List.map_map]
  congr 1
  conv_rhs => rw [← List.map_id pairs]
  apply List.map_congr_left
  intro pair _
  simp [String.ofList_toList]

/-- The pairs of a forwarded query are documented ones, each key once and allowed by the
route. -/
theorem proxyQuery_documented {method path query text : String} {allowed : Query}
    (h : proxyQuery method path query allowed = .ok text) :
    ∃ pairs, parseQsl text = some pairs ∧ (pairs.map Prod.fst).Nodup ∧
      (∀ pair ∈ pairs, allowed.allowed = true ∧ pair.1 ∈ allowed.keys) ∧
      Documented method path pairs := by
  rw [proxyQuery] at h
  split at h
  · cases h
    refine ⟨[], by decide, List.nodup_nil, by simp, ?_⟩
    constructor <;> simp
  · simp only [bind_eq_ok, require_eq_ok, pure_eq_ok, readPairs, required_eq_ok] at h
    obtain ⟨_, hallowed, pairs, ⟨read, hread, _, ⟨_, once, keys⟩, rfl⟩, _, hchecked, rfl⟩ := h
    exact ⟨read, parseQsl_urlencode read, once, fun pair hpair => ⟨hallowed, keys pair hpair⟩,
      checkQuery_documented once hchecked⟩

theorem proxyQuery_raises {method path query : String} {allowed : Query}
    (digits : ∀ pairs, parseQsl query = some pairs → DecimalDigits pairs) :
    OnlyRaises Failure.IsSecurePeerError (proxyQuery method path query allowed) := by
  unfold proxyQuery
  split
  · exact .ok _
  · refine .bind (.require (isSecurePeerError ..)) fun _ _ => ?_
    refine .bind (.bind (.required (isSecurePeerError ..)) fun _ _ =>
      .bind (.require (isSecurePeerError ..)) fun _ _ => .ok _) fun pairs hpairs => ?_
    simp only [readPairs, bind_eq_ok, required_eq_ok, require_eq_ok, pure_eq_ok] at hpairs
    obtain ⟨read, hread, _, _, rfl⟩ := hpairs
    exact .bind (checkQuery_raises (digits read hread)) fun _ _ => .ok _

end AgentsServer.PeerProxy

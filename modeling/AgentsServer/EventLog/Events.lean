import AgentsServer.EventLog.Store

/-!
# Events and their lines

An event that is written has its number under `seq`, and `json.loads` reads its line back.
-/

namespace AgentsServer.EventLog

open Library Json

/-! ## Events -/

section Events

variable [FloatText] {sid : String} {seq : Nat}

/-- The fields of an event before those of its payload. -/
def opening (sid : String) (seq : Nat) (spec : Spec) : Fields :=
  [("seq", .num (.ofNat seq)), ("id", .str spec.id), ("session_id", .str sid),
    ("type", .str spec.type), ("ts", .str spec.ts)]

/-- What the fields of an event keep while those of a payload are added. -/
structure Fielded (seq : Nat) (d : Fields) : Prop where
  keys : (d.map Prod.fst).Nodup
  number : lookup d "seq" = some (.num (.ofNat seq))
  each : writable seq = true → ∀ f ∈ d, Proper f.2

theorem fielded_opening (sid : String) (seq : Nat) (spec : Spec) :
    Fielded seq (opening sid seq spec) where
  keys := by
    change ["seq", "id", "session_id", "type", "ts"].Nodup
    decide
  number := rfl
  each := by
    intro hwritable f hf
    simp only [opening, List.mem_cons, List.not_mem_nil, or_false] at hf
    rcases hf with rfl | rfl | rfl | rfl | rfl
    · exact .num (loadNumber_ofNat (of_decide_eq_true hwritable))
    all_goals exact .str _

theorem Fielded.setField {d : Fields} (h : Fielded seq d) {f : String × Json} (hkey : f.1 ≠ "seq")
    (hproper : Proper f.2) : Fielded seq (Json.setField d f.1 f.2) where
  keys := nodup_setField h.keys
  number := by
    rw [lookup_setField_ne hkey]
    exact h.number
  each := by
    intro hwritable g hg
    rcases mem_setField hg with hg | rfl
    · exact h.each hwritable g hg
    · exact hproper

theorem Fielded.foldl {d payload : Fields} (h : Fielded seq d) (hkeys : ∀ f ∈ payload, f.1 ≠ "seq")
    (hproper : ∀ f ∈ payload, Proper f.2) :
    Fielded seq (payload.foldl (fun d f => Json.setField d f.1 f.2) d) := by
  induction payload generalizing d with
  | nil => exact h
  | cons f payload ih =>
      apply ih
      · exact h.setField (hkeys f List.mem_cons_self) (hproper f List.mem_cons_self)
      · exact fun g hg => hkeys g (List.mem_cons_of_mem _ hg)
      · exact fun g hg => hproper g (List.mem_cons_of_mem _ hg)

theorem fielded_event (sid : String) (seq : Nat) (spec : Spec) : Fielded seq (event sid seq spec) := by
  have hproper : ∀ f ∈ spec.payload, Proper f.2 := by
    cases spec.proper with
    | obj _ each => exact each
  exact (fielded_opening sid seq spec).foldl spec.unnumbered hproper

/-- The number of an event. -/
def seqOf (e : Fields) : Nat := (durableEventSeq (.obj e)).getD 0

/-- An event that can be written. -/
structure Written (e : Fields) : Prop where
  proper : Proper (.obj e)
  number : durableEventSeq (.obj e) = some (seqOf e)

theorem durableEventSeq_event (hpos : 0 < seq) (spec : Spec) :
    durableEventSeq (.obj (event sid seq spec)) = some seq := by
  simp only [durableEventSeq, (fielded_event sid seq spec).number, Option.bind_some, int?_ofNat]
  rw [if_neg (by omega), Int.toNat_natCast]

theorem seqOf_event (hpos : 0 < seq) (spec : Spec) : seqOf (event sid seq spec) = seq := by
  rw [seqOf, durableEventSeq_event hpos]
  rfl

theorem written_event (hpos : 0 < seq) (hwritable : writable seq = true) (spec : Spec) :
    Written (event sid seq spec) where
  proper := .obj (fielded_event sid seq spec).keys ((fielded_event sid seq spec).each hwritable)
  number := by rw [seqOf_event hpos, durableEventSeq_event hpos]

omit [FloatText] in
theorem decodeReplace_dumps (v : Json) : decodeReplace (dumpsAscii v) = render escapeAscii v :=
  Utf8.replace_encode _

theorem lineSeq_written {e : Fields} (h : Written e) : lineSeq (dumpsAscii (.obj e)) = some (seqOf e) := by
  rw [lineSeq, decodeReplace_dumps, loads_render escapes_ascii h.proper, Option.bind_some, h.number]

/-! ## Batches -/

variable {specs : List Spec}

theorem writables_eq_self (h : (writables seq specs).length = specs.length) :
    writables seq specs = specs := by
  induction specs generalizing seq with
  | nil => rfl
  | cons spec specs ih =>
      unfold writables at h ⊢
      split at h
      · next hw =>
        rw [if_pos hw, ih (Nat.succ.inj h)]
      · cases h

/-- The events of a batch have the numbers from its first on, in order. -/
theorem batch_writables (sid : String) (specs : List Spec) (hpos : 0 < seq) :
    (∀ e ∈ batch sid seq (writables seq specs), Written e ∧ seq ≤ seqOf e ∧
      seqOf e < seq + specs.length) ∧
    (batch sid seq (writables seq specs)).Pairwise fun a b => seqOf a < seqOf b := by
  induction specs generalizing seq with
  | nil => exact ⟨by rintro _ ⟨⟩, .nil⟩
  | cons spec specs ih =>
      obtain ⟨heach, hsorted⟩ := ih (Nat.succ_pos seq)
      unfold writables
      split
      · next hw =>
        rw [batch]
        constructor
        · intro e he
          rw [List.length_cons]
          rcases List.mem_cons.mp he with rfl | he
          · rw [seqOf_event hpos]
            exact ⟨written_event hpos hw spec, Nat.le_refl _, by omega⟩
          · obtain ⟨hwritten, hlow, hhigh⟩ := heach e he
            exact ⟨hwritten, by omega, by omega⟩
        · refine List.pairwise_cons.mpr ⟨?_, hsorted⟩
          intro e he
          rw [seqOf_event hpos]
          exact (heach e he).2.1
      · exact ⟨by rintro _ ⟨⟩, .nil⟩

end Events

end AgentsServer.EventLog

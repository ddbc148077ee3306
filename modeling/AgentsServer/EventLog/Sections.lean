import AgentsServer.EventLog.Sequence

/-!
# Sections keep the log

Every section of a chat leaves a log in which the events of all calls that returned stand, each
call's together and in order.
-/

namespace AgentsServer.EventLog

open Library Json

variable [FloatText] {c : Chat} {events : List Fields} {tail : Bytes}

/-- The events that callers have are in the log, those of one call together. -/
structure Held (returned : List (List Fields)) (events : List Fields) : Prop where
  flat : returned.flatten.Sublist events
  groups : ∀ group ∈ returned, group <:+: events

omit [FloatText] in
theorem Held.append {returned : List (List Fields)} (h : Held returned events) (more : List Fields) :
    Held returned (events ++ more) where
  flat := h.flat.trans (List.sublist_append_left events more)
  groups := fun group hgroup =>
    (h.groups group hgroup).trans (List.infix_append' [] events more)

omit [FloatText] in
theorem Held.give {returned : List (List Fields)} (h : Held returned events) (more : List Fields) :
    Held (returned ++ [more]) (events ++ more) where
  flat := by
    rw [List.flatten_append, List.flatten_singleton]
    exact h.flat.append (List.Sublist.refl more)
  groups := by
    intro group hgroup
    rcases List.mem_append.mp hgroup with hgroup | hgroup
    · exact (h.append more).groups group hgroup
    · rw [List.mem_singleton.mp hgroup]
      exact (List.suffix_append events more).isInfix

/-- The state between two sections. -/
def Inv (c : Chat) : Prop :=
  ∃ events tail, Log c.file events tail ∧ Held c.returned events ∧
    ∀ seq, c.cache = some seq → tail = [] ∧ ∀ e ∈ events, seqOf e ≤ seq

/-- The state of a section that has its number. -/
structure Ready (c : Chat) (seq : Nat) (events : List Fields) : Prop where
  log : Log c.file events []
  held : Held c.returned events
  below : ∀ e ∈ events, seqOf e < seq
  cache : c.cache = some seq
  positive : 0 < seq

/-- The file is as it was, or repaired. -/
def Unwritten (before after : Bytes) : Prop :=
  after = before ∨ after = (repairEventLogTail before).1

theorem inv_empty : Inv .empty :=
  ⟨[], [], ⟨rfl, by rintro _ ⟨⟩, .nil, .inl rfl⟩, ⟨List.Sublist.refl _, by rintro _ ⟨⟩⟩, by rintro _ ⟨⟩⟩

theorem Log.repair_clean (h : Log c.file events []) : (repairEventLogTail c.file).1 = c.file := by
  unfold repairEventLogTail
  rw [h.split]
  rfl

/-! ## Repairs -/

theorem repaired_rest (repair : Repair) :
    (c.repaired repair).1 = { c with file := (c.repaired repair).1.file } ∧
      Unwritten c.file (c.repaired repair).1.file := by
  unfold Chat.repaired
  dsimp only
  split
  · exact ⟨rfl, .inr rfl⟩
  · exact ⟨rfl, .inr rfl⟩
  · exact ⟨rfl, .inl rfl⟩

theorem Log.repaired (h : Log c.file events tail) (held : Held c.returned events) (repair : Repair) :
    ∃ events' tail', Log (c.repaired repair).1.file events' tail' ∧ Held c.returned events' ∧
      ∀ seq, (c.repaired repair).2 = some seq → tail' = [] ∧ ∀ e ∈ events', seqOf e ≤ seq := by
  obtain ⟨more, hlog, hbound⟩ := h.repair
  unfold Chat.repaired
  dsimp only
  split
  · refine ⟨events ++ more, [], hlog, held.append more, ?_⟩
    rintro _ ⟨⟩
    exact ⟨rfl, hbound⟩
  · refine ⟨events ++ more, [], hlog, held.append more, ?_⟩
    rintro _ ⟨⟩
  · refine ⟨events, tail, h, held, ?_⟩
    rintro _ ⟨⟩

theorem Log.reconcile (h : Log c.file events tail) (held : Held c.returned events)
    (consumed : Nat) (repair : Repair) :
    Inv (c.reconcileEventSeqAfterFailedWrite consumed repair) ∧
      (c.reconcileEventSeqAfterFailedWrite consumed repair).returned = c.returned ∧
      Unwritten c.file (c.reconcileEventSeqAfterFailedWrite consumed repair).file := by
  have hcold : Log { c with cache := none : Chat }.file events tail := h
  obtain ⟨events', tail', hlog, hheld, hbound⟩ := hcold.repaired held repair
  obtain ⟨hrest, hfile⟩ := repaired_rest (c := { c with cache := none }) repair
  unfold Chat.reconcileEventSeqAfterFailedWrite
  generalize Chat.repaired { c with cache := none } repair = result at hlog hbound hrest hfile
  obtain ⟨c', seq?⟩ := result
  dsimp only at hlog hbound hrest hfile ⊢
  refine ⟨⟨events', tail', hlog, ?_, ?_⟩, ?_, hfile⟩
  · rw [hrest]
    exact hheld
  · intro seq hseq
    obtain ⟨fileSeq, rfl, rfl⟩ := Option.map_eq_some_iff.mp hseq
    obtain ⟨htail, hle⟩ := hbound fileSeq rfl
    refine ⟨htail, fun e he => ?_⟩
    have := hle e he
    omega
  · rw [hrest]

/-! ## The next number -/

theorem Inv.nextEventSeq (h : Inv c) (repair : Repair) :
    Inv (c.nextEventSeq repair).1 ∧ (c.nextEventSeq repair).1.returned = c.returned ∧
      Unwritten c.file (c.nextEventSeq repair).1.file ∧
      ∀ seq, (c.nextEventSeq repair).2 = some seq →
        ∃ events, Ready (c.nextEventSeq repair).1 seq events := by
  obtain ⟨events, tail, hlog, hheld, hcache⟩ := h
  unfold Chat.nextEventSeq
  split
  · next last hlast =>
    obtain ⟨rfl, hle⟩ := hcache last hlast
    refine ⟨⟨events, [], hlog, hheld, ?_⟩, rfl, .inl rfl, ?_⟩
    · rintro _ ⟨⟩
      exact ⟨rfl, fun e he => Nat.le_succ_of_le (hle e he)⟩
    · rintro _ ⟨⟩
      exact ⟨events, hlog, hheld, fun e he => Nat.lt_succ_of_le (hle e he), rfl, Nat.succ_pos _⟩
  · next hcold =>
    obtain ⟨events', tail', hlog', hheld', hbound⟩ := hlog.repaired hheld repair
    obtain ⟨hrest, hfile⟩ := repaired_rest (c := c) repair
    generalize c.repaired repair = result at hlog' hbound hrest hfile
    obtain ⟨c', seq?⟩ := result
    dsimp only at hlog' hbound hrest hfile ⊢
    have hreturned : c'.returned = c.returned := by rw [hrest]
    split
    · next fileSeq _ =>
      obtain ⟨rfl, hle⟩ := hbound fileSeq rfl
      have hbelow : ∀ e ∈ events',
          seqOf e < max (c'.cache.getD 0) (max fileSeq c'.stored) + 1 := by
        intro e he
        have := hle e he
        omega
      refine ⟨⟨events', [], hlog', hreturned ▸ hheld', ?_⟩, hreturned, hfile, ?_⟩
      · rintro _ ⟨⟩
        exact ⟨rfl, fun e he => Nat.le_of_lt (hbelow e he)⟩
      · rintro _ ⟨⟩
        exact ⟨events', hlog', hreturned ▸ hheld', hbelow, rfl, Nat.succ_pos _⟩
    · refine ⟨⟨events', tail', hlog', hreturned ▸ hheld', ?_⟩, hreturned, hfile, ?_⟩
      · intro seq hseq
        have hnone : c'.cache = none := by rw [hrest]; exact hcold
        rw [hnone] at hseq
        cases hseq
      · rintro _ ⟨⟩

/-! ## Writes -/

/-- Lines of events with numbers from the section's own on, of which some bytes are written. -/
theorem Ready.part {seq : Nat} (h : Ready c seq events) {more : List Fields}
    (each : ∀ e ∈ more, Written e ∧ seq ≤ seqOf e)
    (sorted : more.Pairwise fun a b => seqOf a < seqOf b) (bytes : Nat) :
    ∃ events' tail, Log (c.file ++ (jsonLines more).take bytes) events' tail ∧
      Held c.returned events' := by
  obtain ⟨kept, tail, -, hlog⟩ := h.log.part (fun e he => ⟨(each e he).1, fun a ha =>
    Nat.lt_of_lt_of_le (h.below a ha) (each e he).2⟩) sorted bytes
  exact ⟨events ++ kept, tail, hlog, h.held.append kept⟩

/-- The whole lines. -/
theorem Ready.whole {seq : Nat} (h : Ready c seq events) {more : List Fields}
    (each : ∀ e ∈ more, Written e ∧ seq ≤ seqOf e)
    (sorted : more.Pairwise fun a b => seqOf a < seqOf b) :
    Log (c.file ++ jsonLines more) (events ++ more) [] := by
  have hlonger := h.log.append more []
    (fun e he => ⟨(each e he).1, fun a ha => Nat.lt_of_lt_of_le (h.below a ha) (each e he).2⟩)
    sorted (.inl rfl)
  rw [List.append_nil] at hlonger
  exact hlonger

/-! ## Sections -/

theorem Log.inv_cold (h : Log c.file events tail) (held : Held c.returned events)
    (hcold : c.cache = none) : Inv c := by
  refine ⟨events, tail, h, held, ?_⟩
  intro seq hseq
  rw [hcold] at hseq
  cases hseq

variable {first : Nat} {specs : List Spec}

/-- Some bytes of the events of a call. -/
theorem Ready.cut (h : Ready c first events) (sid : String) (specs : List Spec) (bytes : Nat) :
    ∃ events' tail,
      Log (c.file ++ (jsonLines (batch sid first (writables first specs))).take bytes) events' tail ∧
        Held c.returned events' := by
  obtain ⟨heach, hsorted⟩ := batch_writables sid specs h.positive
  exact h.part (fun e he => ⟨(heach e he).1, (heach e he).2.1⟩) hsorted bytes

/-- All events of a call, with the number of the last in the cache. -/
theorem Ready.all (h : Ready c first events) (sid : String)
    (hall : (writables first specs).length = specs.length) (hne : specs ≠ []) :
    Inv { c with
      file := c.file ++ jsonLines (batch sid first specs)
      cache := some (first + specs.length - 1) } ∧
    Inv { c with
      file := c.file ++ jsonLines (batch sid first specs)
      cache := some (first + specs.length - 1)
      returned := c.returned ++ [batch sid first specs] } := by
  obtain ⟨heach, hsorted⟩ := batch_writables sid specs h.positive
  rw [writables_eq_self hall] at heach hsorted
  have hlog := h.whole (fun e he => ⟨(heach e he).1, (heach e he).2.1⟩) hsorted
  have hpos : 0 < specs.length := List.length_pos_iff.mpr hne
  have hcache : ∀ e ∈ events ++ batch sid first specs, seqOf e ≤ first + specs.length - 1 := by
    intro e he
    rcases List.mem_append.mp he with he | he
    · have := h.below e he
      omega
    · have := (heach e he).2.2
      omega
  constructor
  · refine ⟨_, [], hlog, h.held.append _, ?_⟩
    rintro _ ⟨⟩
    exact ⟨rfl, hcache⟩
  · refine ⟨_, [], hlog, h.held.give _, ?_⟩
    rintro _ ⟨⟩
    exact ⟨rfl, hcache⟩

/-- What a section leaves: the log, and what its outcome says of the file. -/
structure Left (c : Chat) (left : Chat × Outcome) : Prop where
  inv : Inv left.1
  /-- the events of a call that returns are appended, after a repair perhaps -/
  returned : ∀ events, left.2 = .returned events →
    left.1.returned = c.returned ++ [events] ∧
      ∃ file, Unwritten c.file file ∧ left.1.file = file ++ jsonLines events
  kept : (∀ events, left.2 ≠ .returned events) → left.1.returned = c.returned

theorem Inv.appendEvent (h : Inv c) (sid : String) (spec : Spec) (course : Chat.Course) :
    Left c (c.appendEvent sid spec course) := by
  obtain ⟨hnext, hreturned, hfile, hready⟩ := h.nextEventSeq course.next
  unfold Chat.appendEvent
  generalize c.nextEventSeq course.next = next at hnext hreturned hfile hready
  obtain ⟨c', seq?⟩ := next
  dsimp only at hnext hreturned hfile hready ⊢
  cases seq? with
  | none => exact ⟨hnext, by rintro _ ⟨⟩, fun _ => hreturned⟩
  | some seq =>
      obtain ⟨events, ready⟩ := hready seq rfl
      have hcut := ready.cut sid [spec]
      have hline : (if writable seq then jsonLines [event sid seq spec] else []) =
          jsonLines (batch sid seq (writables seq [spec])) := by
        unfold writables
        split
        · rfl
        · rfl
      dsimp only
      rw [hline]
      split
      · next hw =>
        have hall : (writables seq [spec]).length = [spec].length := by
          simp [writables, hw]
        obtain ⟨hleft, hgiven⟩ := ready.all sid hall (List.cons_ne_nil spec [])
        rw [writables_eq_self hall]
        have hcache : c'.cache = some (seq + [spec].length - 1) := ready.cache
        split
        · refine ⟨?_, by rintro _ ⟨⟩, fun _ => hreturned⟩
          rw [← hcache] at hleft
          exact hleft
        · refine ⟨?_, ?_, fun hnot => absurd rfl (hnot _)⟩
          · rw [← hcache] at hgiven
            exact hgiven
          · rintro _ ⟨⟩
            exact ⟨congrArg (· ++ _) hreturned, c'.file, hfile, rfl⟩
      · next bytes _ =>
        obtain ⟨events', tail, hlog, hheld⟩ := hcut bytes
        exact ⟨Log.inv_cold hlog hheld rfl, by rintro _ ⟨⟩, fun _ => hreturned⟩
      · next bytes _ =>
        obtain ⟨events', tail, hlog, hheld⟩ := hcut bytes
        obtain ⟨hinv, hkept, -⟩ :=
          Log.reconcile (c := { c' with file := c'.file ++ _ }) hlog hheld seq course.mend
        exact ⟨hinv, by rintro _ ⟨⟩, fun _ => hkept.trans hreturned⟩
      · obtain ⟨hinv, hkept, -⟩ := Log.reconcile ready.log ready.held seq course.mend
        exact ⟨hinv, by rintro _ ⟨⟩, fun _ => hkept.trans hreturned⟩

/-- The thread of a batch leaves the whole batch, none of it, or what a kill left. -/
theorem Ready.batchSync (h : Ready c first events) (sid : String) (hne : specs ≠ []) (write : Write) :
    match c.appendBatchSync sid first specs write with
    | (c', none) => ∃ events tail, Log c'.file events tail ∧ Held c'.returned events ∧
        c'.returned = c.returned
    | (c', some false) => c' = c
    | (c', some true) => c' = { c with file := c.file ++ jsonLines (batch sid first specs) } ∧
        Inv { c' with cache := some (first + specs.length - 1) } ∧
        Inv { c' with
          cache := some (first + specs.length - 1)
          returned := c'.returned ++ [batch sid first specs] } := by
  unfold Chat.appendBatchSync
  cases write with
  | failed bytes => exact rfl
  | killed bytes =>
      obtain ⟨events', tail, hlog, hheld⟩ := h.cut sid specs bytes
      exact ⟨events', tail, hlog, hheld, rfl⟩
  | done =>
      by_cases hall : (writables first specs).length = specs.length
      · obtain ⟨hleft, hgiven⟩ := h.all sid hall hne
        rw [writables_eq_self hall]
        simp only [if_true]
        exact ⟨trivial, hleft, hgiven⟩
      · simp only [if_neg hall]

/-- A batch that raises, cancelled or not, leaves none of its lines. -/
theorem Inv.appendDurableEventBatch (h : Inv c) (sid : String) {specs : List Spec}
    (hne : specs ≠ []) (course : Chat.Course) :
    Left c (c.appendDurableEventBatch sid specs course) ∧
      ∀ cancelled, (c.appendDurableEventBatch sid specs course).2 = .raised cancelled →
        Unwritten c.file (c.appendDurableEventBatch sid specs course).1.file := by
  obtain ⟨hnext, hreturned, hfile, hready⟩ := h.nextEventSeq course.next
  unfold Chat.appendDurableEventBatch
  rw [if_neg hne]
  generalize c.nextEventSeq course.next = next at hnext hreturned hfile hready
  obtain ⟨c', seq?⟩ := next
  dsimp only at hnext hreturned hfile hready ⊢
  cases seq? with
  | none => exact ⟨⟨hnext, by rintro _ ⟨⟩, fun _ => hreturned⟩, fun _ _ => hfile⟩
  | some first =>
      obtain ⟨events, ready⟩ := hready first rfl
      have hsync := ready.batchSync sid hne course.write
      dsimp only
      split
      · next c'' heq =>
        rw [heq] at hsync
        obtain ⟨events', tail, hlog, hheld, hkept⟩ := hsync
        exact ⟨⟨Log.inv_cold hlog hheld rfl, by rintro _ ⟨⟩, fun _ => hkept.trans hreturned⟩,
          by rintro _ ⟨⟩⟩
      · next c'' heq =>
        rw [heq] at hsync
        obtain rfl : c'' = c' := hsync
        obtain ⟨hinv, hkept, hmend⟩ := Log.reconcile ready.log ready.held (first - 1) course.mend
        refine ⟨⟨hinv, by rintro _ ⟨⟩, fun _ => hkept.trans hreturned⟩, ?_⟩
        intro _ _
        have hsame : _ = c''.file := hmend.elim id fun hrepaired => hrepaired.trans ready.log.repair_clean
        exact hsame ▸ hfile
      · next c'' heq =>
        rw [heq] at hsync
        obtain ⟨rfl, -, hgiven⟩ := hsync
        refine ⟨⟨hgiven, ?_, fun hnot => absurd rfl (hnot _)⟩, by rintro _ ⟨⟩⟩
        rintro _ ⟨⟩
        exact ⟨congrArg (· ++ _) hreturned, c'.file, hfile, rfl⟩

/-- An import that raises without being cancelled leaves none of its lines. -/
theorem Inv.appendImportedEvents (h : Inv c) (sid : String) {specs : List Spec}
    (hne : specs ≠ []) (course : Chat.Course) :
    Left c (c.appendImportedEvents sid specs course) ∧
      ((c.appendImportedEvents sid specs course).2 = .raised false →
        Unwritten c.file (c.appendImportedEvents sid specs course).1.file) := by
  obtain ⟨hnext, hreturned, hfile, hready⟩ := h.nextEventSeq course.next
  unfold Chat.appendImportedEvents
  rw [if_neg hne]
  generalize c.nextEventSeq course.next = next at hnext hreturned hfile hready
  obtain ⟨c', seq?⟩ := next
  dsimp only at hnext hreturned hfile hready ⊢
  cases seq? with
  | none => exact ⟨⟨hnext, by rintro _ ⟨⟩, fun _ => hreturned⟩, fun _ => hfile⟩
  | some first =>
      obtain ⟨events, ready⟩ := hready first rfl
      have hsync := ready.batchSync sid hne course.write
      dsimp only
      split
      · next c'' heq =>
        rw [heq] at hsync
        obtain ⟨events', tail, hlog, hheld, hkept⟩ := hsync
        exact ⟨⟨Log.inv_cold hlog hheld rfl, by rintro _ ⟨⟩, fun _ => hkept.trans hreturned⟩,
          by rintro ⟨⟩⟩
      · next c'' heq =>
        rw [heq] at hsync
        obtain rfl : c'' = c' := hsync
        obtain ⟨hinv, hkept, hmend⟩ := Log.reconcile ready.log ready.held (first - 1) course.mend
        refine ⟨⟨hinv, by rintro _ ⟨⟩, fun _ => hkept.trans hreturned⟩, ?_⟩
        intro _
        have hsame : _ = c''.file := hmend.elim id fun hrepaired => hrepaired.trans ready.log.repair_clean
        exact hsame ▸ hfile
      · next c'' heq =>
        rw [heq] at hsync
        obtain ⟨rfl, hleft, hgiven⟩ := hsync
        split
        · exact ⟨⟨hleft, by rintro _ ⟨⟩, fun _ => hreturned⟩, by rintro ⟨⟩⟩
        · refine ⟨⟨hgiven, ?_, fun hnot => absurd rfl (hnot _)⟩, by rintro ⟨⟩⟩
          rintro _ ⟨⟩
          exact ⟨congrArg (· ++ _) hreturned, c'.file, hfile, rfl⟩

/-! ## Runs -/

theorem Inv.cold (h : Inv c) (stored : Nat) : Inv { c with cache := none, stored := stored } := by
  obtain ⟨events, tail, hlog, hheld, -⟩ := h
  exact Log.inv_cold (c := { c with cache := none, stored := stored }) hlog hheld rfl

theorem Inv.step (h : Inv c) (sid : String) (action : Action) : Inv (c.step sid action).1 := by
  cases action with
  | appendEvent spec course => exact (h.appendEvent sid spec course).inv
  | appendDurableEventBatch specs course =>
      by_cases hne : specs = []
      · subst hne
        exact h
      · exact (h.appendDurableEventBatch sid hne course).1.inv
  | appendImportedEvents specs course =>
      by_cases hne : specs = []
      · subst hne
        exact h
      · exact (h.appendImportedEvents sid hne course).1.inv
  | forgetEventSeq => exact h.cold c.stored
  | setLatest stored =>
      obtain ⟨events, tail, hlog, hheld, hcache⟩ := h
      exact ⟨events, tail, hlog, hheld, hcache⟩
  | restart stored => exact h.cold stored

theorem inv_step (w : World) (act : String × Action) (h : ∀ sid, Inv (w sid)) :
    ∀ sid, Inv ((w.step act).1 sid) := by
  intro sid
  change Inv (if sid = act.1 then ((w act.1).step act.1 act.2).1 else w sid)
  split
  · exact (h act.1).step act.1 act.2
  · exact h sid

theorem inv_run (actions : List (String × Action)) (sid : String) :
    Inv (Runs.run World.step World.empty actions sid) :=
  Runs.run_invariant World.step (I := fun w => ∀ sid, Inv (w sid)) inv_step World.empty
    (fun _ => inv_empty) actions sid

end AgentsServer.EventLog

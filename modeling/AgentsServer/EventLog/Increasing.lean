import AgentsServer.EventLog.Sections

/-!
# The log is a strictly increasing sequence

In every run, with writes that stop anywhere, cancelled callers, dropped caches and kills, every
line of a log is one event, the numbers rise from line to line, and what a call returned stays
in the log under its number.
-/

namespace AgentsServer.EventLog

open Library Json

variable [FloatText]

/-- What the outcome of an append says of the log of its chat. -/
def Honest (e : Runs.Event World (String × Action) Outcome) : Prop :=
  let before := e.before e.action.1
  let after := (World.step e.before e.action).1 e.action.1
  let Appended (events : List Fields) : Prop :=
    after.returned = before.returned ++ [events] ∧
      ∃ file, Unwritten before.file file ∧ after.file = file ++ jsonLines events
  match e.action.2, e.outcome with
  | .appendEvent _ _, .returned events => Appended events
  | .appendDurableEventBatch specs _, .returned events => specs ≠ [] → Appended events
  | .appendImportedEvents specs _, .returned events => specs ≠ [] → Appended events
  | .appendDurableEventBatch _ _, .raised _ => Unwritten before.file after.file
  | .appendImportedEvents _ _, .raised false => Unwritten before.file after.file
  | _, _ => True

theorem step_same (w : World) (act : String × Action) :
    (World.step w act).1 act.1 = ((w act.1).step act.1 act.2).1 :=
  if_pos rfl

theorem honest_step (w : World) (act : String × Action) (h : ∀ sid, Inv (w sid)) :
    Honest ⟨w, act, (World.step w act).2⟩ := by
  have hsame := step_same w act
  obtain ⟨sid, action⟩ := act
  unfold Honest
  dsimp only at hsame ⊢
  rw [hsame]
  cases action with
  | appendEvent spec course =>
      have hleft := (h sid).appendEvent sid spec course
      split
      · next heq hout => exact hleft.returned _ hout
      · next heq _ => cases heq
      · next heq _ => cases heq
      · next heq _ => cases heq
      · next heq _ => cases heq
      · trivial
  | appendDurableEventBatch specs course =>
      split
      · next heq _ => cases heq
      · next heq hout =>
        cases heq
        intro hne
        exact ((h sid).appendDurableEventBatch sid hne course).1.returned _ hout
      · next heq _ => cases heq
      · next heq hout =>
        cases heq
        by_cases hne : specs = []
        · subst hne
          exact .inl rfl
        · exact ((h sid).appendDurableEventBatch sid hne course).2 _ hout
      · next heq _ => cases heq
      · trivial
  | appendImportedEvents specs course =>
      split
      · next heq _ => cases heq
      · next heq _ => cases heq
      · next heq hout =>
        cases heq
        intro hne
        exact ((h sid).appendImportedEvents sid hne course).1.returned _ hout
      · next heq _ => cases heq
      · next heq hout =>
        cases heq
        by_cases hne : specs = []
        · subst hne
          exact .inl rfl
        · exact ((h sid).appendImportedEvents sid hne course).2 hout
      · trivial
  | forgetEventSeq => trivial
  | setLatest stored => trivial
  | restart stored => trivial

omit [FloatText] in
/-- Each number stands for one event. -/
theorem eq_of_seqOf {events : List Fields} (h : events.Pairwise fun a b => seqOf a < seqOf b)
    {a b : Fields} (ha : a ∈ events) (hb : b ∈ events) (hsame : seqOf a = seqOf b) : a = b := by
  induction h with
  | nil => cases ha
  | cons hfirst _ ih =>
      rcases List.mem_cons.mp ha with rfl | ha'
      · rcases List.mem_cons.mp hb with rfl | hb'
        · rfl
        · exact absurd hsame (Nat.ne_of_lt (hfirst b hb'))
      · rcases List.mem_cons.mp hb with rfl | hb'
        · exact absurd hsame.symm (Nat.ne_of_lt (hfirst a ha'))
        · exact ih ha' hb'

theorem event_log_increasing (actions : List (String × Action)) (sid : String) :
    let c := Runs.run World.step World.empty actions sid
    (∃ events : List Fields,
      (splitLines c.file).1.map loadsBytes = events.map (fun e => some (.obj e)) ∧
      (∀ e ∈ events, durableEventSeq (.obj e) = some (seqOf e)) ∧
      events.Pairwise (fun a b => seqOf a < seqOf b) ∧
      c.returned.flatten.Sublist events ∧ (∀ group ∈ c.returned, group <:+: events) ∧
      ∀ a ∈ c.returned.flatten, ∀ b ∈ events, seqOf a = seqOf b → a = b) ∧
    (∀ repair seq, (c.nextEventSeq repair).2 = some seq →
      ∀ a ∈ c.returned.flatten, seqOf a < seq) ∧
    ∀ e ∈ Runs.history World.step World.empty actions, Honest e := by
  intro c
  have h : Inv c := inv_run actions sid
  refine ⟨?_, ?_, ?_⟩
  · obtain ⟨events, tail, hlog, hheld, -⟩ := h
    refine ⟨events, ?_, fun e he => (hlog.each e he).number, hlog.sorted, hheld.flat, hheld.groups, ?_⟩
    · rw [hlog.split, List.map_map]
      apply List.map_congr_left
      intro e he
      exact loadsBytes_dumpsAscii (hlog.each e he).proper
    · intro a ha b hb hsame
      exact eq_of_seqOf hlog.sorted (hheld.flat.subset ha) hb hsame
  · intro repair seq hseq a ha
    obtain ⟨-, hreturned, -, hready⟩ := h.nextEventSeq repair
    obtain ⟨events, ready⟩ := hready seq hseq
    apply ready.below
    apply ready.held.flat.subset
    rw [hreturned]
    exact ha
  · exact Runs.history_forall World.step (I := fun w => ∀ sid, Inv (w sid)) inv_step honest_step
      World.empty (fun _ => inv_empty) actions

end AgentsServer.EventLog

import AgentsServer.Transcript.Projector
import Mathlib.Tactic.Common

/-!
# Private runs and segments

An internal marker keeps its run out of the public transcript, and a run-less
marker or an imported wrapper keeps its segment out of it, provided the marking
record gets as far as the sets: the projector leaves a record whose files do not
belong to the session before it looks at the marker, and the reader leaves a
record of any other type before it calls the projector.
-/

namespace AgentsServer.Transcript

open Library

variable {rules : Rules} {sessionId run : String} {privacy privacy' : Privacy} {event : Event}
variable {out : Option Event}

/-- The event is recognized as an imported delivery wrapper of a run. -/
def Rules.Wraps (rules : Rules) (sessionId : String) (event : Event) (run : String) : Prop :=
  event.isBoundary = true ∧ ∃ prompt,
    (rules.projectProviderEvent event sessionId).text? "prompt" = some prompt ∧
      isWrapper event run (rules.stripped sessionId event prompt) = true

/-- Nothing is projected of the record at a place of the log. -/
def Rules.Unprojected (rules : Rules) (sessionId : String) (privacy : Privacy) (log : List Event)
    (j : Nat) : Prop :=
  ∀ projected, (projections (rules.project sessionId) privacy log)[j]? ≠ some (some projected)

/-- After a marking record of a run, a later record of it is not projected: ever
if the run is marked, and up to the next user boundary if its segment is. -/
def Rules.KeepsPrivate (rules : Rules) (sessionId : String) (privacy : Privacy)
    (log : List Event) : Prop :=
  ∀ (i j : Nat) (marker later : Event) (run : String), i < j →
    log[i]? = some marker → log[j]? = some later →
    marker.run? = some run → later.run? = some run →
    (rules.isInternal marker = true → run ≠ "" → rules.Unprojected sessionId privacy log j) ∧
    ((rules.isInternal marker = true ∧ run = "") ∨ rules.Wraps sessionId marker run →
      (∀ (k : Nat) (between : Event), i < k → k ≤ j → log[k]? = some between →
        between.run? = some run → between.isBoundary = false) →
      rules.Unprojected sessionId privacy log j)

/-- Every marking record reaches the sets: the reader hands it on, its files
belong to the session, and a wrapper is visible. -/
structure Rules.Reaches (rules : Rules) (sessionId : String) (log : List Event) : Prop where
  selected : ∀ event ∈ log, rules.isInternal event = true →
    ∀ kind, event.text? "type" = some kind → isSelected event kind = true
  belongs : ∀ event ∈ log, rules.isInternal event = true →
    rules.eventFilesBelong event sessionId = true
  wrapper : ∀ event ∈ log, ∀ run, rules.Wraps sessionId event run →
    rules.eventFilesBelong event sessionId = true ∧ rules.eventIsVisible event = true

/-! ## One record -/

theorem mem_mark_runs (h : run ∈ privacy.runs) (other : String) :
    run ∈ (rules.mark privacy event other).runs := by
  unfold Rules.mark
  dsimp only
  split <;> split <;> (try split) <;>
    simp [Privacy.discard, Privacy.addSegment, Privacy.addRun, h]

theorem mem_mark_segments (h : run ∈ privacy.segments) (other : String)
    (hkeep : event.isBoundary = true → other ≠ run) :
    run ∈ (rules.mark privacy event other).segments := by
  unfold Rules.mark
  dsimp only
  have hdiscard : run ∈ (if event.isBoundary then privacy.discard other else privacy).segments := by
    split
    · next hb => simp [Privacy.discard, h, (hkeep hb).symm]
    · exact h
  split
  · split
    · exact List.mem_insert_of_mem hdiscard
    · exact hdiscard
  · exact hdiscard

theorem mark_internal (h : rules.isInternal event = true) (run : String) :
    (run = "" → run ∈ (rules.mark privacy event run).segments) ∧
      (run ≠ "" → run ∈ (rules.mark privacy event run).runs) := by
  unfold Rules.mark
  simp only [h, if_true]
  constructor
  · intro he
    rw [if_pos he]
    exact List.mem_insert_self
  · intro he
    rw [if_neg he]
    exact List.mem_insert_self

/-- Publishing only adds segments, and adds the run of a wrapper. -/
theorem publish_spec (h : rules.publish sessionId privacy event run = .ok (out, privacy')) :
    privacy'.runs = privacy.runs ∧ (∀ r ∈ privacy.segments, r ∈ privacy'.segments) ∧
      (rules.Wraps sessionId event run → run ∈ privacy'.segments) := by
  unfold Rules.publish at h
  dsimp only at h
  split at h
  · split at h
    · next hp =>
        cases h
        refine ⟨rfl, fun _ => id, ?_⟩
        rintro ⟨_, prompt, hprompt, _⟩
        rw [hp] at hprompt
        cases hprompt
    · next prompt hp =>
        split at h
        · split at h
          · cases h
          · cases h
            exact ⟨rfl, fun r hr => List.mem_insert_of_mem hr, fun _ => List.mem_insert_self⟩
        · next hw =>
            cases h
            refine ⟨rfl, fun _ => id, ?_⟩
            rintro ⟨_, prompt', hprompt, hwraps⟩
            rw [hp, Option.some.injEq] at hprompt
            rw [hprompt] at hw
            exact absurd hwraps hw
  · next hb =>
      cases h
      exact ⟨rfl, fun _ => id, fun hwraps => absurd hwraps.1 hb⟩

theorem eventRun_eq_ok (h : eventRun event = .ok run) : event.run? = some run := by
  unfold eventRun at h
  cases hr : event.run? with
  | none =>
      rw [hr] at h
      cases h
  | some r =>
      simp only [hr, bind_eq_ok, require_eq_ok, pure_eq_ok] at h
      obtain ⟨_, _, rfl⟩ := h
      rfl

/-- What the projector does with one event. -/
theorem project_cases (h : rules.project sessionId privacy event = .ok (out, privacy')) :
    (rules.eventFilesBelong event sessionId = false ∧ out = none ∧ privacy' = privacy) ∨
      ∃ r, event.run? = some r ∧ rules.eventFilesBelong event sessionId = true ∧
        (((r ∈ (rules.mark privacy event r).runs ∨ r ∈ (rules.mark privacy event r).segments ∨
            rules.eventIsVisible event = false) ∧
          out = none ∧ privacy' = rules.mark privacy event r) ∨
        (r ∉ (rules.mark privacy event r).runs ∧ r ∉ (rules.mark privacy event r).segments ∧
          rules.publish sessionId (rules.mark privacy event r) event r = .ok (out, privacy'))) := by
  simp only [Rules.project, bind_eq_ok, require_eq_ok] at h
  obtain ⟨_, _, h⟩ := h
  split at h
  · next hfiles =>
      simp only [pure_eq_ok, Prod.mk.injEq] at h
      exact Or.inl ⟨hfiles, h.1.symm, h.2.symm⟩
  · next hfiles =>
      simp only [bind_eq_ok, require_eq_ok] at h
      obtain ⟨r, hr, _, _, h⟩ := h
      refine Or.inr ⟨r, eventRun_eq_ok hr, by simpa using hfiles, ?_⟩
      split at h
      · next hhidden =>
          simp only [pure_eq_ok, Prod.mk.injEq] at h
          exact Or.inl ⟨hhidden, h.1.symm, h.2.symm⟩
      · next hshown =>
          rw [not_or, not_or] at hshown
          exact Or.inr ⟨hshown.1, hshown.2.1, h⟩

/-- A private run stays private, and its events are not projected. -/
theorem project_runs (h : rules.project sessionId privacy event = .ok (out, privacy'))
    (hrun : run ∈ privacy.runs) :
    run ∈ privacy'.runs ∧ (event.run? = some run → out = none) := by
  cases project_cases h with
  | inl skipped =>
      obtain ⟨_, rfl, rfl⟩ := skipped
      exact ⟨hrun, fun _ => rfl⟩
  | inr looked =>
      obtain ⟨r, hr, _, hcase⟩ := looked
      cases hcase with
      | inl hidden =>
          obtain ⟨_, rfl, rfl⟩ := hidden
          exact ⟨mem_mark_runs hrun r, fun _ => rfl⟩
      | inr shown =>
          obtain ⟨hnot, _, hpublish⟩ := shown
          obtain ⟨hsame, _⟩ := publish_spec hpublish
          refine ⟨hsame ▸ mem_mark_runs hrun r, fun he => ?_⟩
          rw [hr, Option.some.injEq] at he
          subst he
          exact absurd (mem_mark_runs hrun _) hnot

/-- A private segment lasts to the next boundary of its run. -/
theorem project_segments (h : rules.project sessionId privacy event = .ok (out, privacy'))
    (hrun : run ∈ privacy.segments)
    (hkeep : event.run? = some run → event.isBoundary = false) :
    run ∈ privacy'.segments ∧ (event.run? = some run → out = none) := by
  cases project_cases h with
  | inl skipped =>
      obtain ⟨_, rfl, rfl⟩ := skipped
      exact ⟨hrun, fun _ => rfl⟩
  | inr looked =>
      obtain ⟨r, hr, _, hcase⟩ := looked
      have hmark : run ∈ (rules.mark privacy event r).segments := by
        apply mem_mark_segments hrun
        rintro hb rfl
        rw [hkeep hr] at hb
        cases hb
      cases hcase with
      | inl hidden =>
          obtain ⟨_, rfl, rfl⟩ := hidden
          exact ⟨hmark, fun _ => rfl⟩
      | inr shown =>
          obtain ⟨_, hnot, hpublish⟩ := shown
          obtain ⟨_, hkept, _⟩ := publish_spec hpublish
          refine ⟨hkept run hmark, fun he => ?_⟩
          rw [hr, Option.some.injEq] at he
          subst he
          exact absurd hmark hnot

/-- A marking event whose files belong makes its run or its segment private. -/
theorem project_marks (h : rules.project sessionId privacy event = .ok (out, privacy'))
    (hrun : event.run? = some run) (files : rules.eventFilesBelong event sessionId = true) :
    (rules.isInternal event = true → run ≠ "" → run ∈ privacy'.runs) ∧
      (rules.isInternal event = true → run = "" → run ∈ privacy'.segments) ∧
      (rules.Wraps sessionId event run → rules.eventIsVisible event = true →
        run ∈ privacy'.runs ∨ run ∈ privacy'.segments) := by
  cases project_cases h with
  | inl skipped =>
      rw [skipped.1] at files
      cases files
  | inr looked =>
      obtain ⟨r, hr, _, hcase⟩ := looked
      rw [hrun, Option.some.injEq] at hr
      subst hr
      cases hcase with
      | inl hidden =>
          obtain ⟨hwhy, _, rfl⟩ := hidden
          refine ⟨fun hi hne => (mark_internal hi run).2 hne,
            fun hi he => (mark_internal hi run).1 he, fun _ hvisible => ?_⟩
          rw [hvisible] at hwhy
          simpa using hwhy
      | inr shown =>
          obtain ⟨_, _, hpublish⟩ := shown
          obtain ⟨hsame, hkept, hwraps⟩ := publish_spec hpublish
          exact ⟨fun hi hne => hsame ▸ (mark_internal hi run).2 hne,
            fun hi he => hkept run ((mark_internal hi run).1 he),
            fun hw _ => Or.inr (hwraps hw)⟩

/-! ## Logs -/

theorem offer_cases
    (h : offer (rules.project sessionId) privacy event = .ok (out, privacy')) :
    ∃ kind, event.text? "type" = some kind ∧
      ((isSelected event kind = true ∧
          rules.project sessionId privacy event = .ok (out, privacy')) ∨
        (isSelected event kind = false ∧ out = none ∧ privacy' = privacy)) := by
  simp only [offer, bind_eq_ok] at h
  obtain ⟨kind, hkind, h⟩ := h
  have htype : event.text? "type" = some kind := by
    unfold eventType at hkind
    split at hkind
    · next hk =>
        cases hkind
        exact hk
    · cases hkind
  refine ⟨kind, htype, ?_⟩
  split at h
  · next hs => exact Or.inl ⟨hs, h⟩
  · next hs =>
      simp only [pure_eq_ok, Prod.mk.injEq] at h
      exact Or.inr ⟨by simpa using hs, h.1.symm, h.2.symm⟩

theorem offer_runs (h : offer (rules.project sessionId) privacy event = .ok (out, privacy'))
    (hrun : run ∈ privacy.runs) :
    run ∈ privacy'.runs ∧ (event.run? = some run → out = none) := by
  obtain ⟨kind, _, hcase⟩ := offer_cases h
  cases hcase with
  | inl selected => exact project_runs selected.2 hrun
  | inr passed =>
      obtain ⟨_, rfl, rfl⟩ := passed
      exact ⟨hrun, fun _ => rfl⟩

theorem offer_segments (h : offer (rules.project sessionId) privacy event = .ok (out, privacy'))
    (hrun : run ∈ privacy.segments)
    (hkeep : event.run? = some run → event.isBoundary = false) :
    run ∈ privacy'.segments ∧ (event.run? = some run → out = none) := by
  obtain ⟨kind, _, hcase⟩ := offer_cases h
  cases hcase with
  | inl selected => exact project_segments selected.2 hrun hkeep
  | inr passed =>
      obtain ⟨_, rfl, rfl⟩ := passed
      exact ⟨hrun, fun _ => rfl⟩

/-- A boundary is of a type the reader hands on. -/
theorem boundary_selected {kind : String} (h : event.isBoundary = true)
    (hkind : event.text? "type" = some kind) : isSelected event kind = true := by
  simp only [Event.isBoundary, hkind, Bool.or_eq_true, beq_iff_eq, Option.some.injEq] at h
  cases h with
  | inl started =>
      subst started
      rfl
  | inr followup =>
      have htype : kind = "turn_steered" := by
        have hf := followup
        simp only [Event.isGoalFollowup, hkind, Bool.and_eq_true, beq_iff_eq,
          Option.some.injEq] at hf
        exact hf.1.1.1.1.1.1
      subst htype
      simp [isSelected, followup]

/-- A private run stays private to the end of the log. -/
theorem log_runs (hrun : run ∈ privacy.runs) (log : List Event) {j : Nat} {later : Event}
    (hj : log[j]? = some later) (hlater : later.run? = some run) :
    rules.Unprojected sessionId privacy log j := by
  intro projected
  induction log generalizing privacy j with
  | nil => cases hj
  | cons event rest ih =>
      rw [projections]
      cases ho : offer (rules.project sessionId) privacy event with
      | error e => simp
      | ok r =>
          obtain ⟨hkept, hnone⟩ := offer_runs ho hrun
          cases j with
          | zero =>
              rw [List.getElem?_cons_zero, Option.some.injEq] at hj
              subst hj
              simp [hnone hlater]
          | succ j => exact ih hkept hj

/-- A private segment stays private up to the next boundary of its run. -/
theorem log_segments (hrun : run ∈ privacy.segments) (log : List Event) {j : Nat}
    {later : Event} (hj : log[j]? = some later) (hlater : later.run? = some run)
    (hopen : ∀ k between, k ≤ j → log[k]? = some between → between.run? = some run →
      between.isBoundary = false) : rules.Unprojected sessionId privacy log j := by
  intro projected
  induction log generalizing privacy j with
  | nil => cases hj
  | cons event rest ih =>
      rw [projections]
      cases ho : offer (rules.project sessionId) privacy event with
      | error e => simp
      | ok r =>
          obtain ⟨hkept, hnone⟩ := offer_segments ho hrun (hopen 0 event (Nat.zero_le _) rfl)
          cases j with
          | zero =>
              rw [List.getElem?_cons_zero, Option.some.injEq] at hj
              subst hj
              simp [hnone hlater]
          | succ j =>
              apply ih hkept hj
              intro k between hk
              exact hopen (k + 1) between (by omega)

theorem Rules.Reaches.tail {log : List Event} (h : rules.Reaches sessionId (event :: log)) :
    rules.Reaches sessionId log where
  selected e he := h.selected e (List.mem_cons_of_mem _ he)
  belongs e he := h.belongs e (List.mem_cons_of_mem _ he)
  wrapper e he := h.wrapper e (List.mem_cons_of_mem _ he)

/-- What a marking record at the head of a log leaves in the sets. -/
theorem Rules.Reaches.head {log : List Event} (h : rules.Reaches sessionId (event :: log))
    (ho : offer (rules.project sessionId) privacy event = .ok (out, privacy'))
    (hrun : event.run? = some run) :
    (rules.isInternal event = true → run ≠ "" → run ∈ privacy'.runs) ∧
      ((rules.isInternal event = true ∧ run = "") ∨ rules.Wraps sessionId event run →
        run ∈ privacy'.runs ∨ run ∈ privacy'.segments) := by
  obtain ⟨kind, hkind, hcase⟩ := offer_cases ho
  cases hcase with
  | inl selected =>
      constructor
      · intro hi
        exact (project_marks selected.2 hrun (h.belongs event (by simp) hi)).1 hi
      · rintro (⟨hi, he⟩ | hw)
        · exact Or.inr ((project_marks selected.2 hrun (h.belongs event (by simp) hi)).2.1 hi he)
        · obtain ⟨hfiles, hvisible⟩ := h.wrapper event (by simp) run hw
          exact (project_marks selected.2 hrun hfiles).2.2 hw hvisible
  | inr passed =>
      have internal : rules.isInternal event = false := by
        rw [← Bool.not_eq_true]
        intro hi
        rw [h.selected event (by simp) hi kind hkind] at passed
        cases passed.1
      constructor
      · intro hi
        rw [internal] at hi
        cases hi
      · rintro (⟨hi, _⟩ | hw)
        · rw [internal] at hi
          cases hi
        · rw [boundary_selected hw.1 hkind] at passed
          cases passed.1

/-- Rules that show every event whose artifact, if it has one, names its session. -/
def ownedArtifacts : Rules where
  eventIsVisible _ := true
  eventFilesBelong event sessionId :=
    match event.get "artifact" with
    | .obj fields => Event.text? fields "session_id" == some sessionId
    | _ => true
  projectProviderEvent event _ := event
  stripUserContext prompt _ _ := prompt
  forkInternalPurposes := ["handoff_digest", "handoff_digest_delivery"]

/-- An artifact that an internal run committed, filed under a session. -/
def digestArtifact (owner : String) : Event :=
  [("type", .str "artifact_created"), ("run_id", .str "run_1"), ("purpose", .str "handoff_digest"),
    ("artifact", .obj [("session_id", .str owner)])]

def digestText : Event :=
  [("type", .str "assistant_text"), ("run_id", .str "run_1"), ("text", .str "digest")]

theorem digestArtifact_reaches :
    ownedArtifacts.Reaches "chat" [digestArtifact "chat", digestText] where
  selected := by decide
  belongs := by decide
  wrapper := by
    have inside : ∀ event ∈ [digestArtifact "chat", digestText], event.isBoundary = false := by
      decide
    intro event he run hw
    have hb := hw.1
    rw [inside event he] at hb
    cases hb

end AgentsServer.Transcript

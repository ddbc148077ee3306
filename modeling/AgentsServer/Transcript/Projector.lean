import AgentsServer.Transcript.Delivery
import AgentsServer.Transcript.Event
import Mathlib.Data.List.Basic

/-!
# The public event projector

The projection of one event with the two sets of runs it keeps private, and the
events of a log that the reader hands to it.
-/

namespace AgentsServer.Transcript

open Library

/-- The functions a projector is made with. -/
structure Rules where
  eventIsVisible : Event → Bool
  eventFilesBelong : Event → String → Bool
  projectProviderEvent : Event → String → Event
  stripUserContext : String → String → Bool → String
  forkInternalPurposes : List String

/-- `private_runs` and `private_segments`. -/
structure Privacy where
  runs : List String
  segments : List String

def Privacy.fresh : Privacy where
  runs := []
  segments := []

def Privacy.count (privacy : Privacy) : Nat :=
  privacy.runs.length + privacy.segments.length

def Privacy.discard (privacy : Privacy) (run : String) : Privacy :=
  { privacy with segments := privacy.segments.filter fun r => r ≠ run }

def Privacy.addSegment (privacy : Privacy) (run : String) : Privacy :=
  { privacy with segments := privacy.segments.insert run }

def Privacy.addRun (privacy : Privacy) (run : String) : Privacy :=
  { privacy with runs := privacy.runs.insert run }

/-- `internal`: the event carries a marker of an internal run. -/
def Rules.isInternal (rules : Rules) (event : Event) : Bool :=
  (event.text? "purpose").any (fun purpose =>
    purpose == "handoff_digest" || purpose == "handoff_digest_delivery") ||
    event.isTrue "cross_chat_exchange_status" ||
    event.text? "exchange_leg_kind" == some "status" ||
    (event.isTrue "forked" &&
      (event.text? "purpose").any fun purpose => rules.forkInternalPurposes.contains purpose)

/-- The prompt of a projected event without the generated context. -/
def Rules.stripped (rules : Rules) (sessionId : String) (event : Event) (prompt : String) :
    String :=
  rules.stripUserContext prompt sessionId (event.isTrue "imported")

/-- The test for an imported delivery wrapper. -/
def isWrapper (event : Event) (run prompt : String) : Bool :=
  event.isTrue "imported" && "import_".toList.isPrefixOf run.toList &&
    (event.text? "backend" == some "claude" || event.text? "backend" == some "codex") &&
    completeImportedDeliveryEnvelope prompt

def processingLimit : Failure where
  text := "Chat history metadata exceeds the snapshot processing limit"

/-- The run of an event, which must be a short text. -/
def eventRun (event : Event) : Except Failure String := do
  let some run := event.run? | .error { text := "Chat history has an invalid run identity" }
  require (run.length ≤ 1024) { text := "Chat history has an oversized run identity" }
  return run

/-- The owner of an event may be missing, empty or this session. -/
def ownerFits (event : Event) (sessionId : String) : Bool :=
  match event.get "session_id" with
  | .null => true
  | .str owner => owner == "" || owner == sessionId
  | _ => false

/-- The end of `project`, for a visible event of a public run. -/
def Rules.publish (rules : Rules) (sessionId : String) (privacy : Privacy) (event : Event)
    (run : String) : Except Failure (Option Event × Privacy) :=
  let projected := rules.projectProviderEvent event sessionId
  if event.isBoundary then
    match projected.text? "prompt" with
    | none => .ok (some projected, privacy)
    | some prompt =>
        let prompt := rules.stripped sessionId event prompt
        if isWrapper event run prompt then
          let privacy := privacy.addSegment run
          if maxRecords < privacy.count then .error processingLimit
          else .ok (some (projected.set "prompt" (.str "")), privacy)
        else .ok (some (projected.set "prompt" (.str prompt)), privacy)
  else .ok (some projected, privacy)

/-- The sets after an event's own boundary and marker. -/
def Rules.mark (rules : Rules) (privacy : Privacy) (event : Event) (run : String) : Privacy :=
  let privacy := if event.isBoundary then privacy.discard run else privacy
  if rules.isInternal event then
    if run = "" then privacy.addSegment run else privacy.addRun run
  else privacy

/-- `project`. -/
def Rules.project (rules : Rules) (sessionId : String) (privacy : Privacy) (event : Event) :
    Except Failure (Option Event × Privacy) := do
  require (ownerFits event sessionId = true)
    { text := "Chat history has inconsistent session ownership" }
  if rules.eventFilesBelong event sessionId = false then return (none, privacy)
  else
    let run ← eventRun event
    let marked := rules.mark privacy event run
    require (rules.isInternal event = true → marked.count ≤ maxRecords) processingLimit
    if run ∈ marked.runs ∨ run ∈ marked.segments ∨ rules.eventIsVisible event = false then
      return (none, marked)
    else rules.publish sessionId marked event run

/-! ## The reader's selection -/

/-- The types of events the reader looks at. -/
def publicTypes : List String :=
  ["turn_started", "assistant_text", "turn_finished", "reasoning_summary", "artifact_created"]

/-- Whether an event of a type is handed to the projector. -/
def isSelected (event : Event) (kind : String) : Bool :=
  (publicTypes.contains kind || event.isGoalFollowup) &&
    (kind != "reasoning_summary" || event.text? "phase" == some "commentary")

/-- The type of an event, which must be a text. -/
def eventType (event : Event) : Except Failure String :=
  match event.text? "type" with
  | some kind => .ok kind
  | none => .error { text := "Chat history contains an invalid event type" }

/-- A projector with its state, as the reader calls it on a decoded record. -/
def offer {σ : Type} (project : σ → Event → Except Failure (Option Event × σ)) (state : σ)
    (event : Event) : Except Failure (Option Event × σ) := do
  let kind ← eventType event
  if isSelected event kind then project state event else return (none, state)

/-- What is projected of each record of a log, up to a record that is refused. -/
def projections {σ : Type} (project : σ → Event → Except Failure (Option Event × σ)) :
    σ → List Event → List (Option Event)
  | _, [] => []
  | state, event :: rest =>
      match offer project state event with
      | .error _ => []
      | .ok (out, state) => out :: projections project state rest

end AgentsServer.Transcript

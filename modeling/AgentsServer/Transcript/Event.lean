import AgentsServer.Library.Json
import AgentsServer.Library.Outcome

/-!
# Chat events

An event of a chat log as the dictionary it was decoded to, and the parts of it
that the public projection reads.
-/

namespace AgentsServer.Transcript

open Library

def maxLineBytes : Nat := 1024 * 1024

def maxRecords : Nat := 100000

def maxScanSeconds : Nat := 30

def maxSnapshotBoundary : Nat := 2 ^ 53 - 1

def maxTextBytes : Nat := 2 * 1024 * 1024

def maxMessageBytes : Nat := 256 * 1024

/-- `PublicTranscriptError`. -/
structure Failure where
  text : String
  deriving DecidableEq

abbrev Event := List (String × Json)

namespace Event

/-- `event.get(key)`, where `None` stands for a missing key. -/
def get (event : Event) (key : String) : Json :=
  (event.lookup key).getD .null

def text? (event : Event) (key : String) : Option String :=
  match event.get key with
  | .str text => some text
  | _ => none

/-- `event.get(key) is True`. -/
def isTrue (event : Event) (key : String) : Bool :=
  match event.get key with
  | .bool true => true
  | _ => false

/-- `{**event, key: value}`. -/
def set (event : Event) (key : String) (value : Json) : Event :=
  if event.any fun field => field.1 = key then
    event.map fun field => if field.1 = key then (key, value) else field
  else event ++ [(key, value)]

/-- `_is_goal_followup`. -/
def isGoalFollowup (event : Event) : Bool :=
  event.text? "type" == some "turn_steered" && event.isTrue "native_goal_steer" &&
    event.isTrue "native_steer" && event.isTrue "provider_user_authored" &&
    event.text? "backend" == some "codex" && event.text? "purpose" == some "codex_goal_resume" &&
    (event.text? "run_id").any fun run => !isBlank run

/-- Where the user speaks: a turn starts, or a goal is followed up. -/
def isBoundary (event : Event) : Bool :=
  event.text? "type" == some "turn_started" || event.isGoalFollowup

end Event

/-- `event.get("run_id") or ""`, where it is a text. -/
def Event.run? (event : Event) : Option String :=
  match event.get "run_id" with
  | .str run => some run
  | value => if value.truthy then none else some ""

end AgentsServer.Transcript

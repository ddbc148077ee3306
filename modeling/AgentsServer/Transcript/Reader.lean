import AgentsServer.Transcript.Message
import AgentsServer.Transcript.Projector

/-!
# Reading a transcript

`read_public_transcript`: the line loop over a bounded prefix of the log, one
record at a time, and the digest of what was read and what was projected.
-/

namespace AgentsServer.Transcript

open Library

/-- `json.loads` of one line. No result where it raises. -/
class Loads where
  loads : Bytes → Option Json

/-- A projector as the reader sees it: a step on its own state. -/
abbrev Project (σ : Type) := σ → Event → Except Failure (Option Event × σ)

/-! ## Receipts -/

/-- What is kept of a run for receipt de-duplication: the digests of its texts,
the bytes hashed so far and the number of texts. -/
structure Output where
  digests : List Bytes
  running : Bytes
  count : Nat

def Output.none : Output where
  digests := []
  running := []
  count := 0

section Receipts

variable [Sha256]

/-- The output that a finished turn leaves. -/
def Output.receipt (normalized : Bytes) : Output where
  digests := [Sha256.digest normalized]
  running := normalized
  count := 1

/-- The output after one more text of the run. -/
def Output.extend (output : Output) (normalized : Bytes) : Output where
  digests := output.digests.insert (Sha256.digest normalized)
  running := output.running ++ (if output.count = 0 then [] else utf8 [' ']) ++ normalized
  count := output.count + 1

/-- A finished turn that repeats one text of its run, or all of them joined. -/
def Output.repeats (output : Output) (normalized : Bytes) : Bool :=
  output.digests.contains (Sha256.digest normalized) ||
    Sha256.digest normalized == Sha256.digest output.running

end Receipts

/-! ## The state of a scan -/

structure Scan (σ : Type) where
  projector : σ
  outputs : String → Option Output
  messages : List Message
  serializedBytes : Nat
  source : Bytes
  projected : Bytes

def Scan.fresh {σ : Type} (start : σ) : Scan σ where
  projector := start
  outputs _ := Option.none
  messages := []
  serializedBytes := 2
  source := []
  projected := utf8 ['[']

def Scan.setOutput {σ : Type} (scan : Scan σ) (run : String) (output : Option Output) : Scan σ :=
  { scan with outputs := fun r => if r = run then output else scan.outputs r }

/-- One more message, counted, hashed and kept or handed to the sink. -/
def Scan.addMessage {σ : Type} (scan : Scan σ) (sink : Bool) (message : Message) :
    Except Failure (Scan σ) := do
  let serializedBytes := scan.serializedBytes + message.encoded.length +
    (if scan.messages = [] then 0 else 1)
  require (sink = true ∨ serializedBytes ≤ maxTextBytes)
    { text := "Readable chat preview exceeds 2 MiB; create a paginated share instead" }
  return { scan with
    serializedBytes
    projected := scan.projected ++ (if scan.messages = [] then [] else utf8 [',']) ++
      message.encoded
    messages := scan.messages ++ [message] }

section Records

variable {σ : Type} [Sha256] [Conversions] [Times]

/-- The videos of a projected event. -/
def eventVideos (event : Event) (kind : String) : Except Failure (List Video) :=
  if kind = "turn_started" ∨ kind = "artifact_created" ∨ event.isGoalFollowup = true then
    match normalizeSharedChatVideos ((event.lookup "shared_videos").getD (.arr [])) with
    | some videos => .ok videos
    | none => .error { text := "Chat history has invalid shared video metadata" }
  else .ok []

def isUserEvent (event : Event) (kind : String) : Bool :=
  kind == "turn_started" || event.isGoalFollowup

/-- The text of a projected event, if it has one. -/
def eventText (event : Event) (kind : String) : Option String :=
  if isUserEvent event kind then event.text? "prompt"
  else if kind = "artifact_created" then some ""
  else if kind = "turn_finished" then event.text? "result_text"
  else event.text? "text"

/-- The text a message is made of. Videos stand without a text. -/
def shownText (event : Event) (kind : String) (videos : List Video) : Option String :=
  match eventText event kind with
  | some text => if isBlank text = true ∧ videos = [] then none else some text
  | none => if videos = [] then none else some ""

/-- The outputs after a text, unless it is a receipt that repeats them. -/
def nextOutput (kind : String) (previous : Option Output) (normalized : Bytes) : Option Output :=
  if kind = "turn_finished" then some (Output.receipt normalized)
  else if kind = "assistant_text" then some ((previous.getD Output.none).extend normalized)
  else previous

/-- A text of a run becomes a message, unless it is a receipt that repeats. -/
def Scan.addText (scan : Scan σ) (sink : Bool) (run kind : String) (message : Message) :
    Except Failure (Scan σ) := do
  require ((utf8 message.text.toList).length ≤ maxMessageBytes)
    { text := "A message exceeds the 256 KiB sharing limit" }
  let normalized := utf8 (normalizeSpace message.text.toList)
  let previous := scan.outputs run
  let scan := scan.setOutput run (nextOutput kind previous normalized)
  if kind = "turn_finished" ∧ (previous.any fun output => output.repeats normalized) = true then
    return scan
  else scan.addMessage sink message

/-- `str(event.get("run_id") or "")`. -/
def shownRun (event : Event) : String :=
  if (event.get "run_id").truthy then (event.get "run_id").toText else ""

/-- What one projected event adds to the scan. -/
def Scan.show (scan : Scan σ) (sink : Bool) (event : Event) (kind : String) :
    Except Failure (Scan σ) := do
  let run := shownRun event
  require (run.length ≤ 1024) { text := "Chat history has an oversized run identity" }
  let videos ← eventVideos event kind
  let scan := if isUserEvent event kind then scan.setOutput run none else scan
  match shownText event kind videos with
  | none => return scan
  | some text =>
      scan.addText sink run kind {
        role := if isUserEvent event kind then .user else .assistant
        text
        timestamp := publicTimestamp (event.get "ts")
        videos }

variable [Loads] (project : Project σ) (sink : Bool)

/-- One complete line of the log. -/
def Scan.record (scan : Scan σ) (line : Bytes) : Except Failure (Scan σ) := do
  let scan := { scan with source := scan.source ++ line }
  match Loads.loads line with
  | none => .error { text := "Chat history contains an unreadable record" }
  | some (.obj raw) =>
      let kind ← eventType raw
      let (out, projector) ← offer project scan.projector raw
      let scan := { scan with projector }
      match out with
      | none => return scan
      | some event => if event = [] then return scan else scan.show sink event kind
  | some _ => .error { text := "Chat history contains an invalid record" }

/-! ## The line loop -/

/-- The bytes up to the end of the first line. -/
def lineOf : Bytes → Bytes
  | [] => []
  | b :: rest => if b = 10 then [10] else b :: lineOf rest

/-- `stream.readline(limit)`. -/
def readline (limit : Nat) (rest : Bytes) : Bytes :=
  (lineOf rest).take limit

def timedOut : Failure where
  text := "Chat snapshot processing timed out; no partial snapshot was created"

def changed : Failure where
  text := "Chat changed; preview it again"

/-- The clock at each reading, when the processing must end, and whether the
boundary was given. -/
structure Loop where
  clock : Nat → Nat
  deadline : Nat
  bounded : Bool

/-- The loop over the bytes before the boundary. Gives the scan and the number
of clock readings. -/
def readLoop (loop : Loop) (tick : Nat) (scan : Scan σ) (rest : Bytes) :
    Except Failure (Scan σ × Nat) :=
  if rest = [] then .ok (scan, tick)
  else if loop.deadline ≤ loop.clock tick then .error timedOut
  else
    let line := readline (min (maxLineBytes + 1) rest.length) rest
    if maxLineBytes < line.length then
      .error { text := "A chat record exceeds the sharing limit" }
    else if hline : line.getLast? = some 10 then
      match scan.record project sink line with
      | .error e => .error e
      | .ok scan => readLoop loop (tick + 1) scan (rest.drop line.length)
    else if loop.bounded then .error changed
    else .ok (scan, tick + 1)
termination_by rest.length
decreasing_by
  have hpos : 0 < line.length := by
    apply List.length_pos_iff.mpr
    intro he
    simp [he] at hline
  have hrest : 0 < rest.length := List.length_pos_iff.mpr (by assumption)
  rw [List.length_drop]
  exact Nat.sub_lt hrest hpos

/-! ## The whole reading -/

/-- What the reader sees besides the bytes: the clock, and the log's status
when the reading ends. -/
structure Environment where
  clock : Nat → Nat
  finalSize : Nat
  rewritten : Bool

structure Reply where
  messages : List Message
  sunk : List Message
  throughBytes : Nat
  digest : String
  messageCount : Option Nat

/-- The messages of a reading, returned as a list or handed to the sink. -/
def Reply.shown (reply : Reply) : List Message :=
  reply.messages ++ reply.sunk

/-- The bytes whose digest confirms a reading. -/
def confirmation (source projected : Bytes) : Bytes :=
  utf8 "agentsdock-public-chat-preview-v2".toList ++ [0] ++ Sha256.digest source ++ [0] ++
    Sha256.digest projected

/-- What a reading answers. A sink is only told the number of messages. -/
def Scan.reply {σ : Type} (scan : Scan σ) (sink : Bool) : Reply where
  messages := if sink then [] else scan.messages
  sunk := if sink then scan.messages else []
  throughBytes := scan.source.length
  digest := Sha256.hexdigest (confirmation scan.source (scan.projected ++ utf8 [']']))
  messageCount := if sink then some scan.messages.length else none

def Environment.changedLog (env : Environment) (initialSize : Nat) : Prop :=
  env.finalSize < initialSize ∨ (env.finalSize = initialSize ∧ env.rewritten = true)

instance (env : Environment) (initialSize : Nat) : Decidable (env.changedLog initialSize) := by
  unfold Environment.changedLog
  infer_instance

/-- `read_public_transcript` of a log that is a regular file. -/
def readPublicTranscript (start : σ) (through : Option Nat) (env : Environment) (log : Bytes) :
    Except Failure Reply := do
  require (∀ n ∈ through, 0 < n ∧ n ≤ maxSnapshotBoundary) { text := "Invalid snapshot boundary" }
  let deadline := env.clock 0 + maxScanSeconds
  let boundary := through.getD log.length
  require (boundary ≤ maxSnapshotBoundary)
    { text := "Chat history exceeds the supported snapshot boundary" }
  require (boundary ≤ log.length) changed
  let loop := { clock := env.clock, deadline, bounded := through.isSome }
  let (scan, tick) ← readLoop project sink loop 1 (Scan.fresh start) (log.take boundary)
  require (env.clock tick < deadline) timedOut
  require (¬ env.changedLog log.length) changed
  require (scan.messages ≠ []) { text := "This chat has no shareable conversation text" }
  return scan.reply sink

end Records

end AgentsServer.Transcript

import AgentsServer.Library.JsonLines
import AgentsServer.Library.Runs

/-!
# The event log of a chat

Sequence numbers come from a cache. A cold cache is filled from the last line of the log, whose
torn tail is repaired first. One section of a chat is one step: the delivery lock of the chat
keeps its sections apart. What the file system and cancellation do to a section is given with it.
-/

namespace AgentsServer.EventLog

open Library Json

abbrev Fields := List (String × Json)

/-- What a call brings of an event, as it is stored. -/
structure Spec [FloatText] where
  id : String
  type : String
  ts : String
  payload : Fields
  unnumbered : ∀ f ∈ payload, f.1 ≠ "seq"
  proper : Proper (.obj payload)

/-- The event of a call. Fields of the payload come last. -/
def event [FloatText] (sid : String) (seq : Nat) (spec : Spec) : Fields :=
  spec.payload.foldl (fun d f => setField d f.1 f.2)
    [("seq", .num (.ofNat seq)), ("id", .str spec.id), ("session_id", .str sid),
      ("type", .str spec.type), ("ts", .str spec.ts)]

/-- `str` of an integer of more digits raises. -/
def writable (seq : Nat) : Bool := (Nat.toDigits 10 seq).length ≤ 4300

/-- The events of a batch. -/
def batch [FloatText] (sid : String) : Nat → List Spec → List Fields
  | _, [] => []
  | seq, spec :: specs => event sid seq spec :: batch sid (seq + 1) specs

/-- The specs of a batch up to one that `json.dumps` raises for. -/
def writables [FloatText] : Nat → List Spec → List Spec
  | _, [] => []
  | seq, spec :: specs => if writable seq then spec :: writables (seq + 1) specs else []

/-! ## Reading the log -/

/-- `durable_event_seq`. -/
def durableEventSeq : Json → Option Nat
  | .obj fields =>
      match (lookup fields "seq").bind int? with
      | some value => if value ≤ 0 then none else some value.toNat
      | none => none
  | _ => none

/-- `bytes.decode("utf-8", "replace")`. -/
def decodeReplace (bytes : Bytes) : List Char := Utf8.replace none (bytes.map .byte)

/-- The sequence number of one line, where it has one. -/
def lineSeq [FloatText] (raw : Bytes) : Option Nat := (loads (decodeReplace raw)).bind durableEventSeq

/-- `last_event_seq_from_file`. Its chunks are the lines from the last to the first. A blank line is
no JSON. -/
def lastEventSeqFromFile [FloatText] (file : Bytes) : Nat :=
  (((splitLines file).1 ++ [(splitLines file).2]).reverse.findSome? lineSeq).getD 0

/-- `repair_event_log_tail`: the file it leaves and what it returns. -/
def repairEventLogTail [FloatText] (file : Bytes) : Bytes × Nat :=
  let tail := (splitLines file).2
  if tail = [] then (file, lastEventSeqFromFile file)
  else
    match (loadsBytes tail).bind durableEventSeq with
    | some seq => (file ++ [newline], seq)
    | none =>
        let file := file.take (file.length - tail.length)
        (file, lastEventSeqFromFile file)

/-! ## Sections -/

/-- How a repair goes: whether it raises, and then whether the file was changed, and whether its
caller is cancelled while it waits. -/
structure Repair where
  raised : Option Bool
  cancelled : Bool

/-- How a write goes. The bytes are those that reached the file. -/
inductive Write where
  | done
  | failed (bytes : Nat)
  | killed (bytes : Nat)

structure Chat where
  file : Bytes
  /-- `EVENT_SEQ_CACHE` -/
  cache : Option Nat
  /-- `latest_event_seq` of the session -/
  stored : Nat
  /-- the events of the calls that returned -/
  returned : List (List Fields)

inductive Outcome where
  | returned (events : List Fields)
  | raised (cancelled : Bool)
  | killed

namespace Chat

def empty : Chat := ⟨[], none, 0, []⟩

/-- A process starts: the cache is gone, the session is what `sessions.json` holds. -/
def restart (c : Chat) (stored : Nat) : Chat := { c with cache := none, stored := stored }

/-- How the parts of a section go. -/
structure Course where
  next : Repair
  write : Write
  /-- cancelled while its write thread runs -/
  cancelled : Bool
  /-- what follows the written line raises, or is cancelled -/
  after : Option Bool
  mend : Repair
  /-- what `sessions.json` holds after a kill -/
  stored : Nat

section Sections

variable [FloatText] (c : Chat)

/-- A repair of the file, with its result. -/
def repaired (repair : Repair) : Chat × Option Nat :=
  let (file, seq) := repairEventLogTail c.file
  match repair.raised with
  | none => ({ c with file := file }, some seq)
  | some true => ({ c with file := file }, none)
  | some false => (c, none)

/-- `next_event_seq`. -/
def nextEventSeq (repair : Repair) : Chat × Option Nat :=
  match c.cache with
  | some seq => ({ c with cache := some (seq + 1) }, some (seq + 1))
  | none =>
      let (c, seq?) := c.repaired repair
      match seq?, repair.cancelled with
      | some fileSeq, false =>
          let seq := max (c.cache.getD 0) (max fileSeq c.stored) + 1
          ({ c with cache := some seq }, some seq)
      | _, _ => (c, none)

/-- `reconcile_event_seq_after_failed_write`. -/
def reconcileEventSeqAfterFailedWrite (consumedHighWater : Nat) (repair : Repair) : Chat :=
  let (c, seq?) := { c with cache := none : Chat }.repaired repair
  { c with cache := seq?.map fun seq => max consumedHighWater (max seq c.stored) }

/-- `append_event` of a chat that is not being deleted. -/
def appendEvent (sid : String) (spec : Spec) (course : Course) : Chat × Outcome :=
  match c.nextEventSeq course.next with
  | (c, none) => (c, .raised course.next.cancelled)
  | (c, some seq) =>
      let line := if writable seq then jsonLines [event sid seq spec] else []
      match course.write, writable seq with
      | .done, true =>
          let c := { c with file := c.file ++ line }
          match course.after with
          | some cancelled => (c, .raised cancelled)
          | none =>
              ({ c with returned := c.returned ++ [[event sid seq spec]] },
                .returned [event sid seq spec])
      | .killed bytes, _ =>
          ({ c with file := c.file ++ line.take bytes }.restart course.stored, .killed)
      | .failed bytes, _ =>
          ({ c with file := c.file ++ line.take bytes }.reconcileEventSeqAfterFailedWrite seq
            course.mend, .raised course.mend.cancelled)
      | .done, false =>
          (c.reconcileEventSeqAfterFailedWrite seq course.mend, .raised course.mend.cancelled)

/-- The thread of a batch: what reaches the file. A batch that fails is truncated. -/
def appendBatchSync (sid : String) (first : Nat) (specs : List Spec) (write : Write) :
    Chat × Option Bool :=
  let text := jsonLines (batch sid first (writables first specs))
  match write with
  | .killed bytes => ({ c with file := c.file ++ text.take bytes }, none)
  | .failed _ => (c, some false)
  | .done =>
      if (writables first specs).length = specs.length
      then ({ c with file := c.file ++ text }, some true)
      else (c, some false)

/-- `append_durable_event_batch` of a chat that is not being deleted. -/
def appendDurableEventBatch (sid : String) (specs : List Spec) (course : Course) : Chat × Outcome :=
  if specs = [] then (c, .returned [])
  else
    match c.nextEventSeq course.next with
    | (c, none) => (c, .raised course.next.cancelled)
    | (c, some first) =>
        match c.appendBatchSync sid first specs course.write with
        | (c, none) => (c.restart course.stored, .killed)
        | (c, some false) =>
            (c.reconcileEventSeqAfterFailedWrite (first - 1) course.mend,
              .raised (course.cancelled || course.mend.cancelled))
        | (c, some true) =>
            -- a caller that was cancelled meanwhile is not told
            let events := batch sid first specs
            ({ c with
              cache := some (first + specs.length - 1)
              returned := c.returned ++ [events] }, .returned events)

/-- `append_imported_events`. -/
def appendImportedEvents (sid : String) (specs : List Spec) (course : Course) : Chat × Outcome :=
  if specs = [] then (c, .returned [])
  else
    match c.nextEventSeq course.next with
    | (c, none) => (c, .raised course.next.cancelled)
    | (c, some first) =>
        match c.appendBatchSync sid first specs course.write with
        | (c, none) => (c.restart course.stored, .killed)
        | (c, some false) =>
            (c.reconcileEventSeqAfterFailedWrite (first - 1) course.mend,
              .raised (course.cancelled || course.mend.cancelled))
        | (c, some true) =>
            let c := { c with cache := some (first + specs.length - 1) }
            if course.cancelled then (c, .raised true)
            else
              let events := batch sid first specs
              ({ c with returned := c.returned ++ [events] }, .returned events)

end Sections

end Chat

/-! ## Runs -/

inductive Action [FloatText] where
  | appendEvent (spec : Spec) (course : Chat.Course)
  | appendDurableEventBatch (specs : List Spec) (course : Chat.Course)
  | appendImportedEvents (specs : List Spec) (course : Chat.Course)
  /-- `forget_event_seq` -/
  | forgetEventSeq
  /-- the session's `latest_event_seq` is set -/
  | setLatest (stored : Nat)
  /-- a kill between two sections; one in a repair is a repair that raises before -/
  | restart (stored : Nat)

def Chat.step [FloatText] (sid : String) (c : Chat) : Action → Chat × Outcome
  | .appendEvent spec course => c.appendEvent sid spec course
  | .appendDurableEventBatch specs course => c.appendDurableEventBatch sid specs course
  | .appendImportedEvents specs course => c.appendImportedEvents sid specs course
  | .forgetEventSeq => ({ c with cache := none }, .returned [])
  | .setLatest stored => ({ c with stored := stored }, .returned [])
  | .restart stored => (c.restart stored, .killed)

/-- The chats of a server. -/
abbrev World := String → Chat

def World.empty : World := fun _ => .empty

/-- A step of one chat. -/
def World.step [FloatText] (w : World) (act : String × Action) : World × Outcome :=
  let (c, outcome) := (w act.1).step act.1 act.2
  (fun sid => if sid = act.1 then c else w sid, outcome)

end AgentsServer.EventLog

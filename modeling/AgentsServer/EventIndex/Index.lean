import AgentsServer.EventLog.Store
import AgentsServer.Library.JsonDocs

/-!
# The sparse index of an event log

`events.idx` holds checkpoints of `events.jsonl`: the sequence number of a line and where it
starts. A reader that follows a checkpoint reads its line again. The index is written by the
append of every 512th event and by whoever finds no index to use.
-/

namespace AgentsServer.EventIndex

open Library JsonScan EventLog
open Library.Json (newline splitLines dumpsAscii)

abbrev Entry := Int × Int

/-- The event log, with its inode, and what stands in its index file. -/
structure Files where
  inode : Nat
  log : Bytes
  index : Option Bytes

def stride : Int := 512

def minFileBytes : Nat := 256 * 1024

/-! ## Lines -/

/-- What `bytes.strip()` removes, and what `\s` matches. -/
def isBlank (b : UInt8) : Bool := b == 32 || (9 ≤ b && b ≤ 13)

/-- The lines of a file with their newlines, as reading it yields them. -/
def rawLines (log : Bytes) : List Bytes :=
  (splitLines log).1.map (· ++ [newline]) ++
    if (splitLines log).2 = [] then [] else [(splitLines log).2]

/-- `readline()`. -/
def readLine (rest : Bytes) : Bytes := (rawLines rest).headD []

/-- The digits of `EVENT_LINE_SEQ_RE`. -/
def leadingDigits (line : Bytes) : Option Bytes :=
  let key : Bytes := [123, 34, 115, 101, 113, 34, 58]
  let line := line.dropWhile isBlank
  if line.take 7 = key then
    let digits := ((line.drop 7).dropWhile isBlank).takeWhile fun b => 48 ≤ b && b ≤ 57
    if digits = [] then none else some digits
  else none

def digitsValue (digits : Bytes) : Int :=
  digits.foldl (fun n b => 10 * n + (b.toNat - 48)) 0

variable [IntText] (limits : Limits)

/-- `int(event.get("seq") or 0)` of the event of a line, where nothing raises. -/
def eventSeq? (line : Bytes) : Option Int :=
  match loads limits (decodeReplace line) with
  | .ok (.obj fields) =>
      match Doc.get fields "seq" with
      | none => some 0
      | some value => if value.truthy then value.int.toOption else some 0
  | _ => none

/-! ## The index file -/

/-- `int(item[0]), int(item[1])` -/
def checkpoint (item : Doc) : Except Raised Entry := do
  let seq ← item.item 0
  let seq ← seq.int
  let offset ← item.item 1
  let offset ← offset.int
  return (seq, offset)

/-- What `read_event_index` answers with no index. -/
def isCaught (e : Raised) : Bool := e == .typeError || e == .valueError || e == .indexError

/-- The checkpoints from `previous` on, if each is behind the one before it and within the file. -/
def checkpoints (size : Nat) (previous : Entry) : List Doc → Except Raised (Option (List Entry))
  | [] => .ok (some [])
  | item :: items =>
      match checkpoint item with
      | .error e => if isCaught e then .ok none else .error e
      | .ok entry =>
          if entry.1 ≤ previous.1 ∨ entry.2 ≤ previous.2 ∨ size ≤ entry.2 then .ok none
          else (checkpoints size entry items).map fun rest => rest.map (entry :: ·)

/-- The items of an index of this file. -/
def indexItems (inode : Nat) : Doc → Option (List Doc)
  | .obj fields =>
      if (Doc.get fields "version").any (Doc.equals 1) ∧
          (Doc.get fields "inode").any (Doc.equals inode) then
        match Doc.get fields "entries" with
        | some (.arr items) => some items
        | _ => none
      else none
  | _ => none

/-- `read_event_index` -/
def readEventIndex (files : Files) : Except Raised (Option (List Entry)) :=
  match files.index with
  | none => .ok none
  | some raw =>
      match loadsBytes limits raw with
      | .error .valueError => .ok none
      | .error .recursionError => .error .recursionError
      | .ok doc =>
          match indexItems files.inode doc with
          | none => .ok none
          | some items => checkpoints files.log.length (0, -1) items

/-- What `write_event_index` writes, if the file system lets it. -/
def writeEventIndex (files : Files) (entries : List Entry) (written : Bool) : Files :=
  if written then
    { files with
      index := some (dumpsAscii (.obj [
        ("version", .num (.ofNat 1)),
        ("inode", .num (.ofNat files.inode)),
        ("entries", .arr (entries.map fun entry =>
          .arr [.num (.ofInt entry.1), .num (.ofInt entry.2)]))])) }
  else files

def recordEventIndexEntry (files : Files) (seq offset : Int) (written : Bool) :
    Except Raised Files := do
  let entries ← readEventIndex limits files
  let entries := (entries.getD []).filter fun entry => entry.1 < seq && entry.2 < offset
  return writeEventIndex files (entries ++ [(seq, offset)]) written

/-! ## Building the index -/

/-- The sequence number of a line, if it has one. A text of too many digits raises. -/
def lineNumber (line : Bytes) : Except Raised (Option Int) :=
  if line.all isBlank then .ok none
  else
    match leadingDigits line with
    | some digits =>
        if digits.length ≤ limits.intDigits then .ok (some (digitsValue digits))
        else .error .valueError
    | none => .ok (eventSeq? limits line)

/-- The checkpoints of the lines from `offset` on, where the last number was `lastSeq`. -/
def indexed (lastSeq : Int) (offset : Nat) : List Bytes → Except Raised (List Entry)
  | [] => .ok []
  | line :: lines => do
      let number ← lineNumber limits line
      match number with
      | none => indexed lastSeq (offset + line.length) lines
      | some seq =>
          if seq ≤ lastSeq then indexed lastSeq (offset + line.length) lines
          else do
            let rest ← indexed seq (offset + line.length) lines
            return if seq % stride = 0 then (seq, (offset : Int)) :: rest else rest

/-- `rebuild_event_index` -/
def rebuildEventIndex (files : Files) (written : Bool) : Except Raised (List Entry × Files) := do
  let entries ← indexed limits 0 0 (rawLines files.log)
  return (entries, writeEventIndex files entries written)

/-! ## Resuming -/

/-- The last checkpoint before the first one above `after`. -/
def candidate (entries : List Entry) (after : Int) : Option Entry :=
  (entries.takeWhile fun entry => decide (entry.1 ≤ after)).getLast?

/-- The sequence number that is read from a place of the file. -/
def seqAt (log : Bytes) (offset : Nat) : Option Int := eventSeq? limits (readLine (log.drop offset))

/-- One attempt: the place of the checkpoint, if its line still has its number. -/
def attempt (log : Bytes) (entries : List Entry) (after : Int) : Option Nat :=
  match candidate entries after with
  | none => some 0
  | some (seq, offset) => if seqAt limits log offset.toNat = some seq then some offset.toNat else none

/-- `event_index_resume_offset`, with the files it leaves. `written` says whether an index that it
builds can be written. -/
def eventIndexResumeOffset (files : Files) (after : Int) (written : Bool) :
    Except Raised (Nat × Files) := do
  if after ≤ 0 then return (0, files)
  else
    match ← readEventIndex limits files with
    | none =>
        if files.log.length < minFileBytes then return (0, files)
        else
          let (entries, files) ← rebuildEventIndex limits files written
          return ((attempt limits files.log entries after).getD 0, files)
    | some entries =>
        match attempt limits files.log entries after with
        | some offset => return (offset, files)
        | none =>
            let (entries, files) ← rebuildEventIndex limits files written
            return ((attempt limits files.log entries after).getD 0, files)

/-! ## Replaying -/

/-- The number by which a replay passes an event over: `int(event.get("seq", 0))`. -/
def replaySeq (doc : Doc) : Except Raised Int :=
  match doc with
  | .obj fields => ((Doc.get fields "seq").map Doc.int).getD (.ok 0)
  | _ => .error .attributeError

/-- The events above `after` of some lines. -/
def replay (after : Int) : List Bytes → Except Raised (List Doc)
  | [] => .ok []
  | line :: lines =>
      match loads limits (decodeReplace line) with
      | .error _ => replay after lines
      | .ok doc => do
          let seq ← replaySeq doc
          let rest ← replay after lines
          return if seq ≤ after then rest else doc :: rest

end AgentsServer.EventIndex

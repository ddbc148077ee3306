import AgentsServer.Library.Text
import AgentsServer.Library.Zones
import Mathlib.Data.List.Basic

/-!
# The next occurrence of a job

`next_job_occurrence` finds the time of the next run of an interval, cron or rrule job. Timestamps
are exact. The calendar libraries enumerate the readings of the local clock that an expression
matches; the server skips those that do not exist or come for the second time.
-/

namespace AgentsServer.Schedules

open Library

/-! ## Calendars -/

/-- The readings of an expression, and their enumeration strictly after, or from, a date and time.
A reading that comes twice may be listed a second time, with a fold. -/
structure Recurrence where
  holds : ℤ → Bool
  after : Datetime → Bool → Option Datetime
  reading : ∀ {d inc c}, after d inc = some c → ∃ w : ℤ, c.clock = w ∧ holds w = true
  repeated : ∀ {d inc c}, after d inc = some c → c.fold = true → inc = false ∧ c.clock = d.clock
  later : ∀ {d inc c}, after d inc = some c → c.fold = false →
    d.clock < c.clock ∨ inc = true ∧ d.clock = c.clock
  least : ∀ {d inc c}, after d inc = some c → ∀ w : ℤ, holds w = true →
    d.clock < w ∨ inc = true ∧ d.clock = w → c.clock ≤ w
  ended : ∀ {d inc}, after d inc = none → ∀ w : ℤ, holds w = true →
    ¬ (d.clock < w ∨ inc = true ∧ d.clock = w)

/-- A field of a cron expression; `none` is the `*`. -/
abbrev CronField := List (Option ℕ)

def cronClockFieldAllows (values : CronField) (actual : ℕ) : Bool :=
  values.contains none || values.contains (some actual)

def secondOf (w : ℤ) : ℕ := (w % 60).toNat

def minuteOf (w : ℤ) : ℕ := (w / 60 % 60).toNat

def hourOf (w : ℤ) : ℕ := (w / 3600 % 24).toNat

/-- `expanded`: the minute and the hour, and the second of an expression that has one. -/
structure CronFields where
  minute : CronField
  hour : CronField
  second : Option CronField

/-- `cron_candidate_has_requested_clock` -/
def CronFields.hasRequestedClock (expanded : CronFields) (w : ℤ) : Bool :=
  cronClockFieldAllows expanded.minute (minuteOf w) &&
    cronClockFieldAllows expanded.hour (hourOf w) &&
    cronClockFieldAllows (expanded.second.getD [some 0]) (secondOf w)

structure CronRecurrence extends Recurrence where
  expanded : CronFields
  requested : ∀ w, holds w = true → expanded.hasRequestedClock w = true

/-- The time zone database, croniter and dateutil. -/
class Calendars where
  zoneInfo : String → Zone
  croniter : String → Option String → CronRecurrence
  rrulestr : String → Datetime → Recurrence
  /-- A rule starts at its `dtstart`. -/
  from_dtstart : ∀ {expression : String} {dtstart : Datetime} {w : ℤ},
    (rrulestr expression dtstart).holds w = true → dtstart.clock ≤ w

/-! ## Jobs -/

structure HTTPException where
  statusCode : ℕ
  detail : String
  deriving DecidableEq

inductive ScheduleKind where
  | interval
  | cron
  | rrule
  deriving DecidableEq

/-- What the next occurrence depends on. The expressions are those that the validators accept. -/
structure Job where
  id : String
  scheduleKind : String
  scheduleStartAt : Option ℚ
  scheduledRunAt : Option ℚ
  nextRunAt : Option ℚ
  intervalSeconds : Option ℤ
  cronExpression : String
  rrule : String
  timezone : String

def stripped (s : String) : String := String.ofList (strip s.toList)

namespace Job

variable (job : Job)

/-- `job_schedule_kind` -/
def kind : ScheduleKind :=
  let kind := (stripped job.scheduleKind).toLower
  if kind = "interval" then .interval
  else if kind = "cron" then .cron
  else if kind = "rrule" then .rrule
  else if stripped job.cronExpression ≠ "" then .cron
  else if stripped job.rrule ≠ "" then .rrule
  else .interval

/-- `anchor_value` -/
def anchorValue : Option ℚ := job.scheduleStartAt <|> job.scheduledRunAt <|> job.nextRunAt

/-- `str(job.get("id") or "job")` -/
def hashName : String := if job.id = "" then "job" else job.id

def timezoneName : String :=
  let name := stripped job.timezone
  if name = "" then "UTC" else name

/-- The text of `normalize_cron_expression`. -/
def cronText : String := String.ofList (normalizeSpace job.cronExpression.toList)

/-- The text of `normalize_rrule_expression`. -/
def rruleText : String :=
  let expression := stripped job.rrule
  if ("RRULE:".toList).isPrefixOf expression.toUpper.toList then
    stripped (String.ofList (expression.toList.drop 6))
  else expression

end Job

def isWordChar (c : Char) : Bool := c.isAlphanum || c = '_' || 128 ≤ c.toNat

/-- `CRON_HASH_TOKEN_RE.search`: a word that is `H`. -/
def hasHashToken (expression : String) : Bool :=
  (expression.toList.splitOnP fun c => !isWordChar c).any fun word => word = ['H'] || word = ['h']

/-- `cron_hash_id` -/
def cronHashId (expression jobId : String) : Option String :=
  if hasHashToken expression then some jobId else none

def rruleParts (expression : String) : List (List Char) := expression.toList.splitOn ';'

/-- `parts["COUNT"]` -/
def rruleCount (expression : String) : Option ℕ :=
  (rruleParts expression).findSome? fun part =>
    if (String.ofList (strip (part.takeWhile (· ≠ '=')))).toUpper = "COUNT" then
      some (decimal (strip ((part.dropWhile (· ≠ '=')).drop 1)))
    else none

/-- The rule without its count. -/
def withoutCount (expression : String) : String :=
  String.ofList (List.intercalate [';'] ((rruleParts expression).filter fun part =>
    !("COUNT=".toList).isPrefixOf ((String.ofList (strip part)).toUpper.toList)))

/-! ## Interval jobs -/

/-- `timestamp > after or (inclusive and timestamp >= after)` -/
def isDue (after : ℚ) (inclusive : Bool) (timestamp : ℚ) : Bool :=
  after < timestamp || inclusive && after ≤ timestamp

def nextInterval (anchorValue : Option ℚ) (intervalValue : Option ℤ) (after : ℚ)
    (inclusive : Bool) : Option ℚ :=
  match anchorValue with
  | none => none
  | some anchor =>
      let interval := intervalValue.getD 0
      if interval = 0 then
        if isDue after inclusive anchor then some anchor else none
      else if interval ≤ 0 then none
      else if isDue after inclusive anchor then some anchor
      else
        let elapsed := max 0 (after - anchor)
        let steps := ⌊elapsed / interval⌋
        let candidate := anchor + steps * interval
        if candidate < after || !inclusive && candidate ≤ after then some (candidate + interval)
        else some candidate

/-! ## Scans -/

inductive Scan where
  | found (candidate : Datetime)
  | exhausted
  | limit

namespace Recurrence

variable (e : Recurrence)

/-- The first candidate that passes, among so many. -/
def scan (pass : Datetime → Bool) : ℕ → Datetime → Bool → Scan
  | 0, _, _ => .limit
  | n + 1, d, inc =>
      match e.after d inc with
      | none => .exhausted
      | some c => if pass c then .found c else scan pass n c false

/-- The scan of a rule with a count: only valid candidates count. -/
def countedScan (valid due : Datetime → Bool) (countLimit : ℕ) :
    ℕ → ℕ → Datetime → Bool → Option Datetime
  | 0, _, _, _ => none
  | n + 1, validSeen, d, inc =>
      match e.after d inc with
      | none => none
      | some c =>
          if !valid c then countedScan valid due countLimit n validSeen c false
          else if countLimit < validSeen + 1 then none
          else if due c then some c
          else countedScan valid due countLimit n (validSeen + 1) c false

end Recurrence

/-- `candidate.timestamp()`; a candidate with a fold was skipped before. -/
def timestamp (zone : Zone) (d : Datetime) : ℚ := zone.instant d.clock

def isValid (zone : Zone) (d : Datetime) : Bool := !d.fold && decide (zone.Exists d.clock)

/-! ## Cron and rrule jobs -/

def maxRruleScan : ℕ := 20000

def maxInvalid : ℕ := 10000

/-- The reference itself is a match, which is looked up where croniter takes no hash id. -/
def isInclusiveMatch (zone : Zone) (e : CronRecurrence) (hashed inclusive : Bool)
    (base : Datetime) : Bool :=
  inclusive && decide (base.clock = ⌊base.clock⌋) && !hashed && !base.fold &&
    decide (zone.Exists base.clock) && e.holds ⌊base.clock⌋

def nextCron (zone : Zone) (e : CronRecurrence) (hashed : Bool) (anchor reference : ℚ)
    (inclusive : Bool) : Except HTTPException (Option ℚ) :=
  let after := max reference anchor
  let base := zone.fromTimestamp after
  if isInclusiveMatch zone e hashed inclusive base then .ok (some (timestamp zone base))
  else
    let pass c := isValid zone c && e.expanded.hasRequestedClock ⌊c.clock⌋ &&
      isDue after inclusive (timestamp zone c)
    match e.scan pass maxInvalid base false with
    | .found c => .ok (some (timestamp zone c))
    | .exhausted => .ok none
    | .limit => .error ⟨400, "cron expression produced too many invalid occurrences"⟩

def nextCounted (zone : Zone) (e : Recurrence) (countLimit : ℕ) (ruleAnchor : Datetime)
    (after : ℚ) (inclusive : Bool) : Option ℚ :=
  (e.countedScan (isValid zone) (fun c => isDue after inclusive (timestamp zone c)) countLimit
    maxRruleScan 0 ruleAnchor true).map (timestamp zone)

def nextUncounted (zone : Zone) (e : Recurrence) (after : ℚ) (inclusive : Bool) :
    Except HTTPException (Option ℚ) :=
  let pass c := isValid zone c && isDue after inclusive (timestamp zone c)
  match e.scan pass maxInvalid (zone.fromTimestamp after) inclusive with
  | .found c => .ok (some (timestamp zone c))
  | .exhausted => .ok none
  | .limit => .error ⟨400, "rrule produced too many invalid occurrences"⟩

def nextJobOccurrence [Calendars] (job : Job) (after : ℚ) (inclusive : Bool) :
    Except HTTPException (Option ℚ) :=
  match job.kind with
  | .interval => .ok (nextInterval job.anchorValue job.intervalSeconds after inclusive)
  | .cron =>
      let hashed := cronHashId job.cronText job.hashName
      nextCron (Calendars.zoneInfo job.timezoneName) (Calendars.croniter job.cronText hashed)
        hashed.isSome (job.anchorValue.getD after) after inclusive
  | .rrule =>
      let zone := Calendars.zoneInfo job.timezoneName
      let ruleAnchor := zone.fromTimestamp (job.anchorValue.getD after)
      match rruleCount job.rruleText with
      | some countLimit =>
          .ok (nextCounted zone (Calendars.rrulestr (withoutCount job.rruleText) ruleAnchor)
            countLimit ruleAnchor after inclusive)
      | none => nextUncounted zone (Calendars.rrulestr job.rruleText ruleAnchor) after inclusive

end AgentsServer.Schedules

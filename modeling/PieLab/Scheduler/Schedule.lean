import Mathlib.Algebra.Group.Nat.Defs
import PieLab.Messages

/-
  Schedules of the job scheduler

  A schedule is a duration, a repeated duration, a cron expression or a date.
  Times are milliseconds; the ISO text the code stores names the same instant.

  Correspondence (TypeScript ↔ Lean): the names of
  packages/coding-agent/src/core/scheduler/schedule.ts. The search for the next
  match of a cron expression, time zones and the reading of a date are parameters.
-/

namespace PieLab

/-- Milliseconds since the epoch. -/
abbrev Time := Int

/-- What the scheduler takes from its surroundings. -/
structure ScheduleEnv where
  /-- `nextCronRun(expression, after, timezone)` -/
  nextCronRun : String → Time → Option String → Except String Time
  /-- `new Date(text).getTime()`, `none` for NaN. -/
  parseDate : String → Option Time
  /-- `date.toISOString()`, as a text to display. -/
  isoText : Time → String
  /-- Whether `Intl.DateTimeFormat` takes the time zone. -/
  isTimezone : String → Bool

inductive ScheduleKind where
  | once | interval | cron
  deriving DecidableEq, Repr

structure ParsedSchedule where
  kind : ScheduleKind
  schedule : String
  scheduleDisplay : String
  repeats : Bool
  nextRunAt : Time
  intervalMs : Option Nat
  cronExpression : Option String
  deriving DecidableEq, Repr

/-- `date.toISOString()`: only the instants a date can hold. -/
def toISOString (t : Time) : Except String Time :=
  if -8640000000000000 ≤ t ∧ t ≤ 8640000000000000 then .ok t else .error "Invalid time value"

/-! ## Durations -/

def durationUnits : List (String × Nat) :=
  [("s", 1000), ("sec", 1000), ("secs", 1000), ("second", 1000), ("seconds", 1000),
    ("m", 60000), ("min", 60000), ("mins", 60000), ("minute", 60000), ("minutes", 60000),
    ("h", 3600000), ("hr", 3600000), ("hrs", 3600000), ("hour", 3600000), ("hours", 3600000),
    ("d", 86400000), ("day", 86400000), ("days", 86400000),
    ("w", 604800000), ("week", 604800000), ("weeks", 604800000)]

def unitToMs (unit : String) : Option Nat := durationUnits.lookup (unit.map Char.toLower)

/-- The number and the unit of `(\d+)\s*(unit)`. -/
def matchDuration (text : List Char) : Option (String × String × Nat) := do
  let digits := text.takeWhile Char.isDigit
  let unit := String.ofList ((text.dropWhile Char.isDigit).dropWhile isJsSpace)
  if digits = [] then none
  else do
    let ms ← unitToMs unit
    return (String.ofList digits, unit, ms)

/-- What follows a word and white space, in any case. -/
def afterWord (word : String) (text : List Char) : Option (List Char) :=
  let rest := text.drop word.toList.length
  if (text.take word.toList.length).map Char.toLower = word.toList ∧
      rest.head?.any isJsSpace = true then
    some (rest.dropWhile isJsSpace)
  else none

def digitsValue (digits : String) : Nat :=
  digits.toList.foldl (fun n c => 10 * n + (c.toNat - 48)) 0

/-- `Number(value)` is infinite from here on. -/
def maxFinite : Nat := 2 ^ 1024 - 2 ^ 970

def durationToMs (value : String) (unitMs : Nat) : Except String Nat :=
  let amount := digitsValue value
  if amount = 0 ∨ maxFinite ≤ amount then .error "Schedule duration must be a positive number."
  else .ok (amount * unitMs)

/-- The white-space separated words of a text. -/
def wordCount : List Char → Nat
  | [] => 0
  | [c] => if isJsSpace c then 0 else 1
  | c :: d :: rest => (if !isJsSpace c && isJsSpace d then 1 else 0) + wordCount (d :: rest)

/-! ## Reading a schedule -/

def validateTimezone (env : ScheduleEnv) (tz : String) : Except String String :=
  if env.isTimezone tz then .ok tz
  else .error ("Invalid timezone: " ++ tz ++
    ". Use an IANA timezone like \"Asia/Seoul\" or \"America/New_York\".")

/-- `every <duration>` -/
def parseEvery (raw : String) (digits : String) (unitMs : Nat) (now : Time) :
    Except String ParsedSchedule := do
  let intervalMs ← durationToMs digits unitMs
  let nextRunAt ← toISOString (now + intervalMs)
  return { kind := .interval, schedule := raw, scheduleDisplay := raw, repeats := true, nextRunAt
           intervalMs := some intervalMs, cronExpression := none }

/-- `<duration>` or `in <duration>` -/
def parseDuration (raw : String) (digits unit : String) (unitMs : Nat) (forceRepeat : Bool)
    (now : Time) : Except String ParsedSchedule := do
  let intervalMs ← durationToMs digits unitMs
  let nextRunAt ← toISOString (now + intervalMs)
  return { kind := if forceRepeat then .interval else .once
           schedule := raw
           scheduleDisplay := if forceRepeat then "every " ++ digits ++ unit else raw
           repeats := forceRepeat, nextRunAt
           intervalMs := if forceRepeat then some intervalMs else none
           cronExpression := none }

def parseSchedule (env : ScheduleEnv) (input : String) (forceRepeat : Option Bool)
    (timezone : Option String) (now : Time) : Except String ParsedSchedule :=
  let raw := jsTrim input
  if raw = "" then .error "schedule is required."
  else match (afterWord "every" raw.toList).bind matchDuration with
    | some (digits, _, unitMs) => parseEvery raw digits unitMs now
    | none =>
      match matchDuration ((afterWord "in" raw.toList).getD raw.toList) with
      | some (digits, unit, unitMs) =>
        parseDuration raw digits unit unitMs (forceRepeat == some true) now
      | none =>
        if wordCount raw.toList = 5 then do
          let nextRunAt ← env.nextCronRun raw now timezone
          return { kind := .cron, schedule := raw
                   scheduleDisplay := match timezone with
                     | none | some "" => raw
                     | some tz => raw ++ " (" ++ tz ++ ")"
                   repeats := true, nextRunAt, intervalMs := none, cronExpression := some raw }
        else match env.parseDate raw with
          | some timestamp =>
            .ok { kind := .once, schedule := raw, scheduleDisplay := env.isoText timestamp
                  repeats := false, nextRunAt := timestamp, intervalMs := none
                  cronExpression := none }
          | none => .error ("Unsupported schedule: " ++ input)

/-! ## The next run and the grace window -/

/-- The fields of a job the schedule is computed from. -/
structure ScheduleFields where
  kind : ScheduleKind
  repeats : Bool
  intervalMs : Option Nat
  cronExpression : Option String
  schedule : String
  timezone : Option String
  deriving DecidableEq, Repr

def computeNextRun (env : ScheduleEnv) (job : ScheduleFields) (after : Time) :
    Except String (Option Time) :=
  if !job.repeats then .ok none
  else match job.kind with
    | .interval =>
      match job.intervalMs with
      | none | some 0 => .error ("Interval job is missing intervalMs: " ++ job.schedule)
      | some intervalMs => (toISOString (after + intervalMs)).map some
    | .cron =>
      match job.cronExpression with
      | none | some "" => .error ("Cron job is missing cronExpression: " ++ job.schedule)
      | some expression => (env.nextCronRun expression after job.timezone).map some
    | .once => .ok none

def oneshotGrace : Int := 120
def minGrace : Int := 120
def maxGrace : Int := 7200

/-- The seconds a run may be late; `probe` is the clock when it is computed. -/
def computeGraceWindowSeconds (env : ScheduleEnv) (job : ScheduleFields) (probe : Time) : Int :=
  if !job.repeats ∨ job.kind = .once then oneshotGrace
  else match job.kind, job.intervalMs, job.cronExpression with
    | .interval, some (intervalMs + 1), _ =>
      min (max ((intervalMs + 1 : Nat) / 2 / 1000 : Int) minGrace) maxGrace
    | .cron, _, some expression =>
      if expression = "" then minGrace
      else
        -- estimate the interval from two consecutive runs
        match env.nextCronRun expression probe job.timezone with
        | .error _ => minGrace
        | .ok t1 =>
          match env.nextCronRun expression t1 job.timezone with
          | .error _ => minGrace
          | .ok t2 => min (max ((t2 - t1) / 1000 / 2) minGrace) maxGrace
    | _, _, _ => minGrace

end PieLab

import Mathlib.Data.List.Infix
import PieLab.Lib.Checks
import PieLab.Lib.PosixPath
import PieLab.Lib.Scan
import PieLab.Scheduler.Schedule
import PieLab.Session.Manager

/-
  The job store of the scheduler

  The jobs file and the operations on it. Every operation runs under the file
  lock: it reads the jobs, and writes them back when it does not throw. So an
  operation is a function from the jobs to an error or a result with the jobs it
  writes, and an operation that throws leaves the file as it is.

  What is proved:
    1. `createJobId_fresh` — a new job's id is not in use.
    2. one lemma an operation that says which jobs it leaves alone and what it
       makes of the one it addresses.

  Correspondence (TypeScript ↔ Lean): the names of
  packages/coding-agent/src/core/scheduler/job-store.ts. `now` is the instant of
  the operation, for every `new Date()` in it.
-/

namespace PieLab

open Lib

/-! ## Jobs -/

inductive CronJobStatus where
  | pending | running | success | failed | silent | paused | completed
  deriving DecidableEq, Repr

structure CronJobModelRef where
  provider : Option String
  id : Option String
  deriving DecidableEq, Repr

structure CronJob where
  id : String
  name : String
  prompt : String
  schedule : String
  scheduleDisplay : String
  kind : ScheduleKind
  repeats : Bool
  /-- Stop after this many runs (repeating jobs only). -/
  repeatTimes : Option Nat
  /-- How many times this job has run so far. -/
  completedRuns : Option Nat
  intervalMs : Option Nat
  cronExpression : Option String
  enabled : Bool
  state : CronJobStatus
  createdAt : Time
  updatedAt : Time
  nextRunAt : Option Time
  lastRunAt : Option Time
  lastStatus : Option CronJobStatus
  lastError : Option String
  lastDeliveryError : Option String
  lastOutputPath : Option String
  deliver : String
  origin : Option String
  script : Option String
  noAgent : Bool
  contextFrom : Option (List String)
  skills : Option (List String)
  tools : Option (List String)
  workdir : Option String
  model : Option CronJobModelRef
  timezone : Option String
  deriving DecidableEq, Repr

def CronJob.scheduleFields (job : CronJob) : ScheduleFields where
  kind := job.kind
  repeats := job.repeats
  intervalMs := job.intervalMs
  cronExpression := job.cronExpression
  schedule := job.schedule
  timezone := job.timezone

structure CreateCronJobInput where
  name : String
  prompt : String
  schedule : String
  repeats : Option Bool := none
  repeatTimes : Option Int := none
  deliver : Option String := none
  origin : Option String := none
  script : Option String := none
  noAgent : Option Bool := none
  contextFrom : Option (List String) := none
  skills : Option (List String) := none
  tools : Option (List String) := none
  workdir : Option String := none
  model : Option CronJobModelRef := none
  timezone : Option String := none

/-- The fields of an update: `none` is a field that is not given, `some none` is `null`. -/
structure UpdateCronJobInput where
  name : Option String := none
  prompt : Option String := none
  schedule : Option String := none
  repeats : Option Bool := none
  repeatTimes : Option (Option Int) := none
  deliver : Option String := none
  origin : Option String := none
  script : Option (Option String) := none
  noAgent : Option Bool := none
  contextFrom : Option (Option (List String)) := none
  skills : Option (Option (List String)) := none
  tools : Option (Option (List String)) := none
  workdir : Option (Option String) := none
  model : Option (Option CronJobModelRef) := none
  enabled : Option Bool := none
  timezone : Option (Option String) := none

/-- What the store takes from its surroundings. -/
structure StoreEnv extends ScheduleEnv where
  /-- Whether `assertSafeCronPrompt` finds a pattern in the prompt. -/
  isUnsafePrompt : String → Bool
  toLowerCase : String → String
  /-- `this.cwd ?? process.cwd()`, and the names of the working directory. -/
  cwd : String
  workingDirectory : List (List Char)

/-! ## Reading the input -/

def normalizeName (value : String) : Except String String :=
  let name := jsTrim value
  if name = "" then .error "name is required."
  else if 120 < jsLength name then .error "name must be 120 characters or fewer."
  else .ok name

def normalizePrompt (value : String) : Except String String :=
  let prompt := jsTrim value
  if prompt = "" then .error "prompt is required."
  else if 50000 < jsLength prompt then .error "prompt is too long for a scheduled job."
  else .ok prompt

def assertSafeCronPrompt (env : StoreEnv) (prompt : String) : Except String Unit :=
  refuse (env.isUnsafePrompt prompt) "Scheduled job prompt contains unsafe instruction-like text."

def normalizeStringList : Option (List String) → Option (List String)
  | none => none
  | some value =>
    let result := (value.map jsTrim).filter (· ≠ "")
    if result = [] then none else some (result.foldl StringSet.add [])

/-- `text.split(",")` -/
def splitCommas (text : String) : List String := (text.toList.splitOn ',').map String.ofList

def normalizeDeliver (value : Option String) : String :=
  let trimmed := jsTrim (value.getD "")
  let deliver := if trimmed = "" then "local" else trimmed
  let parts := ((splitCommas deliver).map jsTrim).filter (· ≠ "")
  if parts = [] then "local" else join "," parts

/-- `path.resolve(base, value)` -/
def pathResolve (workingDirectory : List (List Char)) (base value : String) : String :=
  let dir := Posix.locate workingDirectory base.toList
  String.ofList ('/' :: ['/'].intercalate (Posix.locate dir value.toList))

def normalizeWorkdir (env : StoreEnv) : Option String → Option String
  | none => none
  | some value =>
    if jsTrim value = "" then none else some (pathResolve env.workingDirectory env.cwd value)

def assertRelativeSafePath (path label : String) : Except String String :=
  let trimmed := jsTrim path
  if trimmed = "" then .error (label ++ " is required.")
  else if Posix.isAbsolute trimmed.toList ∨ trimmed.toList.head? = some '~' then
    .error (label ++ " must be relative to ~/.pie/agent/scripts.")
  else
    let normalized := Posix.normalize trimmed.toList
    if normalized = ['.', '.'] ∨ ['.', '.', '/'].isPrefixOf normalized ∨
        ['/', '.', '.', '/'] <:+: normalized then
      .error (label ++ " cannot contain path traversal.")
    else .ok (String.ofList normalized)

/-- A number that is no integer is read as one below 1. -/
def normalizeRepeatTimes : Option Int → Except String (Option Nat)
  | none => .ok none
  | some value =>
    if value < 1 then .error "repeatTimes must be a positive integer." else .ok (some value.toNat)

/-! ## Job ids -/

/-- `[a-z0-9_-]` -/
def isSlugChar (c : Char) : Bool :=
  ('a' ≤ c && c ≤ 'z') || ('0' ≤ c && c ≤ '9') || c == '_' || c == '-'

/-- Every run of other characters becomes one dash. -/
def dashRuns : List Char → List Char
  | [] => []
  | [c] => [if isSlugChar c then c else '-']
  | c :: d :: rest =>
    if isSlugChar c then c :: dashRuns (d :: rest)
    else if isSlugChar d then '-' :: dashRuns (d :: rest)
    else dashRuns (d :: rest)

def trimDashes (text : List Char) : List Char :=
  ((text.dropWhile (· == '-')).reverse.dropWhile (· == '-')).reverse

/-- `/^[a-zA-Z0-9][a-zA-Z0-9_-]{2,79}$/` -/
def isJobId (slug : List Char) : Bool :=
  match slug with
  | [] => false
  | c :: rest => c.isAlphanum && 2 ≤ rest.length && rest.length ≤ 79 &&
      rest.all fun c => c.isAlphanum || c == '_' || c == '-'

def jobIdBase (env : StoreEnv) (name : String) (randomUUID : Uuid) : String :=
  let slug := (trimDashes (dashRuns (env.toLowerCase name).toList)).take 48
  if isJobId slug then String.ofList slug else "job-" ++ randomUUID.short

/-- The `n`-th candidate: the base, then the base with a suffix from 2 on. -/
def jobIdCandidate (base : String) : Nat → String
  | 0 => base
  | n + 1 => base ++ "-" ++ Nat.repr (n + 2)

/-- The first candidate that is not in use; one of `ids.length + 1` candidates is free. -/
def createJobId (base : String) (ids : List String) : String :=
  match (List.range (ids.length + 1)).find? fun n => decide (jobIdCandidate base n ∉ ids) with
  | some n => jobIdCandidate base n
  | none => base

theorem jobIdCandidate_injective (base : String) : Function.Injective (jobIdCandidate base) := by
  intro m n h
  have hlist := congrArg String.toList h
  cases m with
  | zero =>
    cases n with
    | zero => rfl
    | succ n =>
      have hlen := congrArg List.length hlist
      simp [jobIdCandidate] at hlen
  | succ m =>
    cases n with
    | zero =>
      have hlen := congrArg List.length hlist
      simp [jobIdCandidate] at hlen
    | succ n =>
      simp only [jobIdCandidate, String.toList_append, List.append_cancel_left_eq,
        Nat.toList_repr] at hlist
      have hnum := congrArg (fun digits => Nat.ofDigitChars 10 digits 0) hlist
      simp only [Nat.ofDigitChars_ten_toDigits] at hnum
      omega

/-- A new id is not in use. -/
theorem createJobId_fresh (base : String) (ids : List String) : createJobId base ids ∉ ids := by
  unfold createJobId
  cases h : (List.range (ids.length + 1)).find? fun n => decide (jobIdCandidate base n ∉ ids) with
  | some n => simpa using List.find?_some h
  | none =>
    -- all the candidates would be in use, and they are more than the ids
    exfalso
    have hall : ∀ n ∈ List.range (ids.length + 1), jobIdCandidate base n ∈ ids := by
      intro n hn
      simpa using List.find?_eq_none.mp h n hn
    have hnodup : ((List.range (ids.length + 1)).map (jobIdCandidate base)).Nodup :=
      List.nodup_range.map (jobIdCandidate_injective base)
    have hsub : (List.range (ids.length + 1)).map (jobIdCandidate base) ⊆ ids := by
      intro id hid
      obtain ⟨n, hn, rfl⟩ := List.mem_map.mp hid
      exact hall n hn
    have hle := (hnodup.subperm hsub).length_le
    rw [List.length_map, List.length_range] at hle
    omega

/-! ## The operations -/

/-- `job.id === idOrName || job.name === idOrName` -/
def CronJob.answersTo (idOrName : String) (job : CronJob) : Bool :=
  job.id == idOrName || job.name == idOrName

def jobNotFound (idOrName : String) : String := "Scheduled job not found: " ++ idOrName

def jobExists (name : String) : String := "Scheduled job already exists: " ++ name

def resolveJob (jobs : List CronJob) (idOrName : String) : Option CronJob :=
  jobs.find? (CronJob.answersTo idOrName)

def get (jobs : List CronJob) (idOrName : String) : Option CronJob := resolveJob jobs idOrName

/-- Put a new job in the place of the first one that answers to `idOrName`. -/
def modifyJob (jobs : List CronJob) (idOrName : String) (f : CronJob → Except String CronJob) :
    Except String (CronJob × List CronJob) :=
  match splitFirst (CronJob.answersTo idOrName) jobs with
  | none => .error (jobNotFound idOrName)
  | some (pre, current, post) => do
    let next ← f current
    return (next, pre ++ next :: post)

def noAgentNeedsScript : String := "noAgent jobs require a script."

def repeatTimesNeedsRepeat : String := "repeatTimes requires a repeating schedule."

def createdTimezone (env : StoreEnv) : Option String → Except String (Option String)
  | none | some "" => .ok none
  | some tz => (validateTimezone env.toScheduleEnv tz).map some

def createdScript : Option String → Except String (Option String)
  | none | some "" => .ok none
  | some script => (assertRelativeSafePath script "script").map some

def createJob (env : StoreEnv) (jobs : List CronJob) (input : CreateCronJobInput)
    (randomUUID : Uuid) (now : Time) : Except String CronJob := do
  let name ← normalizeName input.name
  refuse (jobs.any fun job => job.name == name) (jobExists name)
  let prompt ← normalizePrompt input.prompt
  assertSafeCronPrompt env prompt
  let timezone ← createdTimezone env input.timezone
  let parsed ← parseSchedule env.toScheduleEnv input.schedule input.repeats timezone now
  let script ← createdScript input.script
  refuse (input.noAgent == some true && script.isNone) noAgentNeedsScript
  let repeatTimes ← normalizeRepeatTimes input.repeatTimes
  refuse (repeatTimes.isSome && !parsed.repeats) repeatTimesNeedsRepeat
  return {
    id := createJobId (jobIdBase env name randomUUID) (jobs.map CronJob.id)
    name, prompt
    schedule := parsed.schedule
    scheduleDisplay := parsed.scheduleDisplay
    kind := parsed.kind
    repeats := parsed.repeats
    repeatTimes
    completedRuns := none
    intervalMs := parsed.intervalMs
    cronExpression := parsed.cronExpression
    enabled := true
    state := .pending
    createdAt := now
    updatedAt := now
    nextRunAt := some parsed.nextRunAt
    lastRunAt := none, lastStatus := none, lastError := none, lastDeliveryError := none
    lastOutputPath := none
    deliver := normalizeDeliver input.deliver
    origin := input.origin
    script
    noAgent := input.noAgent == some true
    contextFrom := normalizeStringList input.contextFrom
    skills := normalizeStringList input.skills
    tools := normalizeStringList input.tools
    workdir := normalizeWorkdir env input.workdir
    model := input.model
    timezone }

def create (env : StoreEnv) (jobs : List CronJob) (input : CreateCronJobInput)
    (randomUUID : Uuid) (now : Time) : Except String (CronJob × List CronJob) := do
  let job ← createJob env jobs input randomUUID now
  return (job, jobs ++ [job])

/-! The steps of an update, in their order. -/

def withName (jobs : List CronJob) (input : UpdateCronJobInput) (next : CronJob) :
    Except String CronJob :=
  match input.name with
  | none => .ok next
  | some value => do
    let name ← normalizeName value
    refuse (jobs.any fun job => job.id != next.id && job.name == name) (jobExists name)
    return { next with name }

def withPrompt (env : StoreEnv) (input : UpdateCronJobInput) (next : CronJob) :
    Except String CronJob :=
  match input.prompt with
  | none => .ok next
  | some value => do
    let prompt ← normalizePrompt value
    assertSafeCronPrompt env prompt
    return { next with prompt }

def withTimezone (env : StoreEnv) (input : UpdateCronJobInput) (next : CronJob) :
    Except String CronJob :=
  match input.timezone with
  | none => .ok next
  | some none => .ok { next with timezone := none }
  | some (some tz) => do
    let timezone ← validateTimezone env.toScheduleEnv tz
    return { next with timezone := some timezone }

/-- Whether an update reads the schedule again. -/
def UpdateCronJobInput.reschedules (input : UpdateCronJobInput) : Bool :=
  input.schedule.isSome || input.repeats.isSome || input.timezone.isSome

def withSchedule (env : StoreEnv) (input : UpdateCronJobInput) (now : Time) (next : CronJob) :
    Except String CronJob :=
  if input.reschedules then do
    let parsed ← parseSchedule env.toScheduleEnv (input.schedule.getD next.schedule)
      (some (input.repeats.getD next.repeats)) next.timezone now
    return { next with
      schedule := parsed.schedule
      scheduleDisplay := parsed.scheduleDisplay
      kind := parsed.kind
      repeats := parsed.repeats
      intervalMs := parsed.intervalMs
      cronExpression := parsed.cronExpression
      nextRunAt := some parsed.nextRunAt
      state := .pending }
  else .ok next

def withEnabled (env : StoreEnv) (input : UpdateCronJobInput) (now : Time) (next : CronJob) :
    Except String CronJob :=
  match input.enabled with
  | none => .ok next
  | some false => .ok { next with enabled := false, state := .paused }
  | some true =>
    match next.nextRunAt with
    | some _ => .ok { next with enabled := true, state := .pending }
    | none => do
      let nextRunAt ← computeNextRun env.toScheduleEnv next.scheduleFields now
      return { next with
        enabled := true, state := .pending, nextRunAt := some (nextRunAt.getD now) }

def updatedScript (input : UpdateCronJobInput) (next : CronJob) : Except String (Option String) :=
  match input.script with
  | none => .ok next.script
  | some none => .ok none
  | some (some script) => (assertRelativeSafePath script "script").map some

def withScript (input : UpdateCronJobInput) (next : CronJob) : Except String CronJob := do
  let script ← updatedScript input next
  let noAgent := input.noAgent.getD next.noAgent
  refuse (noAgent && !truthyText script) noAgentNeedsScript
  return { next with script, noAgent }

def updatedRepeatTimes (input : UpdateCronJobInput) (next : CronJob) : Except String (Option Nat) :=
  match input.repeatTimes with
  | none => .ok next.repeatTimes
  | some value => normalizeRepeatTimes value

def withRepeatTimes (input : UpdateCronJobInput) (next : CronJob) : Except String CronJob := do
  let repeatTimes ← updatedRepeatTimes input next
  refuse (repeatTimes.isSome && !next.repeats) repeatTimesNeedsRepeat
  return { next with repeatTimes }

def withDelivery (input : UpdateCronJobInput) (next : CronJob) : CronJob :=
  { next with
    deliver := (input.deliver.map fun value => normalizeDeliver (some value)).getD next.deliver
    origin := input.origin.or next.origin }

def withLists (env : StoreEnv) (input : UpdateCronJobInput) (next : CronJob) : CronJob :=
  { next with
    contextFrom := (input.contextFrom.map normalizeStringList).getD next.contextFrom
    skills := (input.skills.map normalizeStringList).getD next.skills
    tools := (input.tools.map normalizeStringList).getD next.tools
    workdir := (input.workdir.map (normalizeWorkdir env)).getD next.workdir
    model := input.model.getD next.model }

def updateJob (env : StoreEnv) (jobs : List CronJob) (input : UpdateCronJobInput) (now : Time)
    (current : CronJob) : Except String CronJob := do
  let next ← withName jobs input { current with updatedAt := now }
  let next ← withPrompt env input next
  let next ← withTimezone env input next
  let next ← withSchedule env input now next
  let next ← withEnabled env input now next
  let next ← withScript input (withDelivery input next)
  let next ← withRepeatTimes input next
  return withLists env input next

def update (env : StoreEnv) (jobs : List CronJob) (idOrName : String) (input : UpdateCronJobInput)
    (now : Time) : Except String (CronJob × List CronJob) :=
  modifyJob jobs idOrName (updateJob env jobs input now)

def pause (env : StoreEnv) (jobs : List CronJob) (idOrName : String) (now : Time) :
    Except String (CronJob × List CronJob) :=
  update env jobs idOrName { enabled := some false } now

def resume (env : StoreEnv) (jobs : List CronJob) (idOrName : String) (now : Time) :
    Except String (CronJob × List CronJob) :=
  update env jobs idOrName { enabled := some true } now

/-- The removed job, whose output directory is deleted with it, and the jobs that stay. -/
def remove (jobs : List CronJob) (idOrName : String) : Except String (CronJob × List CronJob) :=
  match splitFirst (CronJob.answersTo idOrName) jobs with
  | none => .error (jobNotFound idOrName)
  | some (pre, removed, post) => .ok (removed, pre ++ post)

def triggerJob (now : Time) (job : CronJob) : CronJob :=
  { job with enabled := true, state := .pending, nextRunAt := some now, updatedAt := now }

def trigger (jobs : List CronJob) (idOrName : String) (now : Time) :
    Except String (CronJob × List CronJob) :=
  modifyJob jobs idOrName fun job => .ok (triggerJob now job)

/-- The scheduled time of a job that is due, where it is. -/
def dueAt (now : Time) (job : CronJob) : Option Time :=
  if !job.enabled || job.state == .running then none
  else job.nextRunAt.filter fun scheduledAt => scheduledAt ≤ now

/-- Whether a run scheduled at `scheduledAt` is too late at `now`. -/
def isMissed (env : StoreEnv) (job : CronJob) (scheduledAt now clock : Time) : Bool :=
  computeGraceWindowSeconds env.toScheduleEnv job.scheduleFields clock * 1000 < now - scheduledAt

/-- A repeating job that is too late goes on at its next run. -/
def fastForward (env : StoreEnv) (now : Time) (job : CronJob) : Except String CronJob :=
  if job.repeats then do
    let nextRunAt ← computeNextRun env.toScheduleEnv job.scheduleFields now
    return { job with nextRunAt, updatedAt := now }
  else .ok job

/-- The jobs that are due, and the jobs as they are written back. -/
def getDueJobs (env : StoreEnv) (now clock : Time) :
    List CronJob → Except String (List CronJob × List CronJob)
  | [] => .ok ([], [])
  | job :: rest =>
    match dueAt now job with
    | none => do
      let (due, jobs) ← getDueJobs env now clock rest
      return (due, job :: jobs)
    | some scheduledAt =>
      if isMissed env job scheduledAt now clock then do
        let next ← fastForward env now job
        let (due, jobs) ← getDueJobs env now clock rest
        return (due, next :: jobs)
      else do
        let (due, jobs) ← getDueJobs env now clock rest
        return (job :: due, job :: jobs)

def claimJob (env : StoreEnv) (now : Time) (job : CronJob) : Except String CronJob := do
  let nextRunAt ← computeNextRun env.toScheduleEnv job.scheduleFields now
  return { job with state := .running, enabled := job.repeats, nextRunAt, updatedAt := now }

/-- The claimed job, if it is due and not too late, and the jobs written back. -/
def claimDueJob (env : StoreEnv) (jobs : List CronJob) (id : String) (now clock : Time) :
    Except String (Option CronJob × List CronJob) :=
  match splitFirst (fun job => job.id == id) jobs with
  | none => .ok (none, jobs)
  | some (pre, current, post) =>
    match dueAt now current with
    | none => .ok (none, jobs)
    | some scheduledAt =>
      if isMissed env current scheduledAt now clock then do
        let next ← fastForward env now current
        return (none, pre ++ next :: post)
      else do
        let claimed ← claimJob env now current
        return (some claimed, pre ++ claimed :: post)

structure RunResult where
  status : CronJobStatus
  outputPath : Option String
  error : Option String
  ranAt : Option Time

/-- Whether the run that ends now is the last one. -/
def CronJob.reachesRunLimit (job : CronJob) : Bool :=
  job.repeatTimes.any fun limit => limit ≤ job.completedRuns.getD 0 + 1

def markRunJob (result : RunResult) (now : Time) (current : CronJob) : CronJob :=
  { current with
    state := if current.reachesRunLimit then .completed
      else if current.repeats && current.enabled then .pending
      else result.status
    enabled := current.enabled && !current.reachesRunLimit
    nextRunAt := if current.reachesRunLimit then none else current.nextRunAt
    completedRuns := some (current.completedRuns.getD 0 + 1)
    lastRunAt := some (result.ranAt.getD now)
    lastStatus := some result.status
    lastError := result.error
    lastOutputPath := result.outputPath
    updatedAt := now }

def markRun (jobs : List CronJob) (id : String) (result : RunResult) (now : Time) :
    Except String (CronJob × List CronJob) :=
  modifyJob jobs id fun current => .ok (markRunJob result now current)

def markDeliveryJob (deliveryError : Option String) (now : Time) (job : CronJob) : CronJob :=
  { job with lastDeliveryError := deliveryError, updatedAt := now }

def markDelivery (jobs : List CronJob) (id : String) (deliveryError : Option String) (now : Time) :
    Except String (CronJob × List CronJob) :=
  modifyJob jobs id fun job => .ok (markDeliveryJob deliveryError now job)

/-- A running job whose last update is `timeoutMs` old or older. -/
def CronJob.isStale (timeoutMs : Int) (now : Time) (job : CronJob) : Bool :=
  job.state == .running && timeoutMs ≤ now - job.updatedAt

def resetStaleJob (env : StoreEnv) (timeoutMs : Int) (now : Time) (job : CronJob) :
    Except String CronJob := do
  -- a job that does not repeat has no next run
  let nextRunAt ← computeNextRun env.toScheduleEnv job.scheduleFields now
  return { job with
    state := if job.repeats && job.enabled then .pending else .failed
    nextRunAt
    lastError := some ("Job was reset after stale running state (>" ++
      toString ((timeoutMs + 500) / 1000) ++ "s).")
    updatedAt := now }

def resetStaleRunning (env : StoreEnv) (timeoutMs : Int) (now : Time) :
    List CronJob → Except String (Nat × List CronJob)
  | [] => .ok (0, [])
  | job :: rest =>
    if job.isStale timeoutMs now then do
      let next ← resetStaleJob env timeoutMs now job
      let (count, jobs) ← resetStaleRunning env timeoutMs now rest
      return (count + 1, next :: jobs)
    else do
      let (count, jobs) ← resetStaleRunning env timeoutMs now rest
      return (count, job :: jobs)

/-! ## What an operation does to the jobs -/

variable {jobs jobs' : List CronJob} {next job a b : CronJob} {env : StoreEnv} {now clock : Time}
variable {timeoutMs : Int} {input : UpdateCronJobInput} {randomUUID : Uuid}

theorem modifyJob_spec {idOrName : String} {f : CronJob → Except String CronJob}
    (h : modifyJob jobs idOrName f = .ok (next, jobs')) :
    ∃ pre current post, jobs = pre ++ current :: post ∧
      resolveJob jobs idOrName = some current ∧ f current = .ok next ∧
      jobs' = pre ++ next :: post := by
  unfold modifyJob at h
  cases hfound : splitFirst (CronJob.answersTo idOrName) jobs with
  | none => rw [hfound] at h; cases h
  | some found =>
    obtain ⟨pre, current, post⟩ := found
    rw [hfound] at h
    obtain ⟨heq, hanswers, hpre⟩ := splitFirst_some hfound
    obtain ⟨next', hnext, hresult⟩ := Except.bind_ok h
    cases hresult
    refine ⟨pre, current, post, heq, ?_, hnext, rfl⟩
    unfold resolveJob
    rw [heq, List.find?_append]
    have hnone : pre.find? (CronJob.answersTo idOrName) = none := by
      rw [List.find?_eq_none]
      intro job hjob
      rw [hpre job hjob]
      decide
    rw [hnone, Option.none_or, List.find?_cons_of_pos hanswers]

theorem remove_spec {idOrName : String} {removed : CronJob}
    (h : remove jobs idOrName = .ok (removed, jobs')) :
    ∃ pre post, jobs = pre ++ removed :: post ∧ jobs' = pre ++ post := by
  unfold remove at h
  cases hfound : splitFirst (CronJob.answersTo idOrName) jobs with
  | none => rw [hfound] at h; cases h
  | some found =>
    obtain ⟨pre, current, post⟩ := found
    rw [hfound] at h
    obtain ⟨heq, -, -⟩ := splitFirst_some hfound
    cases h
    exact ⟨pre, post, heq, rfl⟩

theorem getDueJobs_spec {due : List CronJob}
    (h : getDueJobs env now clock jobs = .ok (due, jobs')) :
    List.Forall₂ (fun job next => next = job ∨
      (dueAt now job).isSome = true ∧ fastForward env now job = .ok next) jobs jobs' := by
  induction jobs generalizing due jobs' with
  | nil => cases h; exact .nil
  | cons job rest ih =>
    unfold getDueJobs at h
    cases hdue : dueAt now job with
    | none =>
      rw [hdue] at h
      obtain ⟨r, hr, he⟩ := Except.bind_ok h
      cases he
      exact .cons (.inl rfl) (ih hr)
    | some scheduledAt =>
      rw [hdue] at h
      dsimp only at h
      split at h
      · obtain ⟨next, hnext, h⟩ := Except.bind_ok h
        obtain ⟨r, hr, he⟩ := Except.bind_ok h
        cases he
        exact .cons (.inr ⟨by rw [hdue]; rfl, hnext⟩) (ih hr)
      · obtain ⟨r, hr, he⟩ := Except.bind_ok h
        cases he
        exact .cons (.inl rfl) (ih hr)

theorem claimDueJob_some {id : String} {claimed : CronJob}
    (h : claimDueJob env jobs id now clock = .ok (some claimed, jobs')) :
    ∃ pre current post, jobs = pre ++ current :: post ∧ current.id = id ∧
      (dueAt now current).isSome = true ∧ claimJob env now current = .ok claimed ∧
      jobs' = pre ++ claimed :: post := by
  unfold claimDueJob at h
  cases hfound : splitFirst (fun job : CronJob => job.id == id) jobs with
  | none => rw [hfound] at h; cases h
  | some found =>
    obtain ⟨pre, current, post⟩ := found
    rw [hfound] at h
    obtain ⟨heq, hid, -⟩ := splitFirst_some hfound
    cases hdue : dueAt now current with
    | none => simp only [hdue] at h; cases h
    | some scheduledAt =>
      simp only [hdue] at h
      split at h
      · obtain ⟨next, hnext, he⟩ := Except.bind_ok h
        cases he
      · obtain ⟨next, hnext, he⟩ := Except.bind_ok h
        cases he
        exact ⟨pre, current, post, heq, by simpa using hid, by rw [hdue]; rfl, hnext, rfl⟩

theorem claimDueJob_none {id : String} (h : claimDueJob env jobs id now clock = .ok (none, jobs')) :
    jobs' = jobs ∨ ∃ pre current post next, jobs = pre ++ current :: post ∧
      (dueAt now current).isSome = true ∧ fastForward env now current = .ok next ∧
      jobs' = pre ++ next :: post := by
  unfold claimDueJob at h
  cases hfound : splitFirst (fun job : CronJob => job.id == id) jobs with
  | none => rw [hfound] at h; cases h; exact .inl rfl
  | some found =>
    obtain ⟨pre, current, post⟩ := found
    rw [hfound] at h
    obtain ⟨heq, -, -⟩ := splitFirst_some hfound
    cases hdue : dueAt now current with
    | none => simp only [hdue] at h; cases h; exact .inl rfl
    | some scheduledAt =>
      simp only [hdue] at h
      split at h
      · obtain ⟨next, hnext, he⟩ := Except.bind_ok h
        cases he
        exact .inr ⟨pre, current, post, next, heq, by rw [hdue]; rfl, hnext, rfl⟩
      · obtain ⟨next, hnext, he⟩ := Except.bind_ok h
        cases he

theorem resetStaleRunning_spec {count : Nat}
    (h : resetStaleRunning env timeoutMs now jobs = .ok (count, jobs')) :
    List.Forall₂ (fun job next => next = job ∨
      job.isStale timeoutMs now = true ∧ resetStaleJob env timeoutMs now job = .ok next)
      jobs jobs' := by
  induction jobs generalizing count jobs' with
  | nil => cases h; exact .nil
  | cons job rest ih =>
    unfold resetStaleRunning at h
    split at h
    · rename_i hstale
      obtain ⟨next, hnext, h⟩ := Except.bind_ok h
      obtain ⟨r, hr, he⟩ := Except.bind_ok h
      cases he
      exact .cons (.inr ⟨hstale, hnext⟩) (ih hr)
    · obtain ⟨r, hr, he⟩ := Except.bind_ok h
      cases he
      exact .cons (.inl rfl) (ih hr)

theorem normalizeName_ok {value name : String} (h : normalizeName value = .ok name) :
    name = jsTrim value := by
  unfold normalizeName at h
  dsimp only at h
  split at h
  · cases h
  · split at h
    · cases h
    · cases h; rfl

theorem createJob_ok {input : CreateCronJobInput}
    (h : createJob env jobs input randomUUID now = .ok job) :
    job.id = createJobId (jobIdBase env (jsTrim input.name) randomUUID) (jobs.map CronJob.id) ∧
      job.updatedAt = now ∧ job.completedRuns = none ∧
      normalizeRepeatTimes input.repeatTimes = .ok job.repeatTimes := by
  unfold createJob at h
  obtain ⟨name, hname, h⟩ := Except.bind_ok h
  rw [← normalizeName_ok hname]
  obtain ⟨_, -, h⟩ := Except.bind_ok h
  obtain ⟨prompt, -, h⟩ := Except.bind_ok h
  obtain ⟨_, -, h⟩ := Except.bind_ok h
  obtain ⟨timezone, -, h⟩ := Except.bind_ok h
  obtain ⟨parsed, -, h⟩ := Except.bind_ok h
  obtain ⟨script, -, h⟩ := Except.bind_ok h
  obtain ⟨_, -, h⟩ := Except.bind_ok h
  obtain ⟨repeatTimes, hlimit, h⟩ := Except.bind_ok h
  obtain ⟨_, -, h⟩ := Except.bind_ok h
  cases h
  exact ⟨rfl, rfl, rfl, hlimit⟩

theorem create_spec {input : CreateCronJobInput}
    (h : create env jobs input randomUUID now = .ok (job, jobs')) :
    jobs' = jobs ++ [job] ∧ job.id ∉ jobs.map CronJob.id := by
  obtain ⟨job', hjob, he⟩ := Except.bind_ok h
  cases he
  refine ⟨rfl, ?_⟩
  rw [(createJob_ok hjob).1]
  exact createJobId_fresh _ _

theorem create_updatedAt {input : CreateCronJobInput}
    (h : create env jobs input randomUUID now = .ok (job, jobs')) : job.updatedAt = now := by
  obtain ⟨job', hjob, he⟩ := Except.bind_ok h
  cases he
  exact (createJob_ok hjob).2.1

theorem fastForward_id (h : fastForward env now job = .ok next) : next.id = job.id := by
  unfold fastForward at h
  split at h
  · obtain ⟨nextRunAt, -, h⟩ := Except.bind_ok h
    cases h; rfl
  · cases h; rfl

theorem claimJob_ok {claimed : CronJob} (h : claimJob env now job = .ok claimed) :
    claimed.id = job.id ∧ claimed.state = .running ∧ claimed.enabled = job.repeats ∧
      claimed.updatedAt = now := by
  obtain ⟨nextRunAt, -, h⟩ := Except.bind_ok h
  cases h
  exact ⟨rfl, rfl, rfl, rfl⟩

theorem resetStaleJob_id (h : resetStaleJob env timeoutMs now job = .ok next) :
    next.id = job.id := by
  obtain ⟨nextRunAt, -, h⟩ := Except.bind_ok h
  cases h; rfl

theorem resetStaleJob_updatedAt (h : resetStaleJob env timeoutMs now job = .ok next) :
    next.updatedAt = now := by
  obtain ⟨nextRunAt, -, h⟩ := Except.bind_ok h
  cases h; rfl

/-! ## What a job is to the scheduler -/

/-- The fields the scheduler decides by: two jobs that agree on them are the same to it. -/
structure SameToken (a b : CronJob) : Prop where
  id : b.id = a.id
  enabled : b.enabled = a.enabled
  state : b.state = a.state
  updatedAt : b.updatedAt = a.updatedAt

theorem SameToken.trans {c : CronJob} (h : SameToken a b) (h' : SameToken b c) : SameToken a c :=
  ⟨h'.id.trans h.id, h'.enabled.trans h.enabled, h'.state.trans h.state,
    h'.updatedAt.trans h.updatedAt⟩

theorem withName_same (h : withName jobs input a = .ok b) : SameToken a b := by
  unfold withName at h
  split at h
  · cases h; exact ⟨rfl, rfl, rfl, rfl⟩
  · obtain ⟨name, -, h⟩ := Except.bind_ok h
    obtain ⟨_, -, h⟩ := Except.bind_ok h
    cases h; exact ⟨rfl, rfl, rfl, rfl⟩

theorem withPrompt_same (h : withPrompt env input a = .ok b) : SameToken a b := by
  unfold withPrompt at h
  split at h
  · cases h; exact ⟨rfl, rfl, rfl, rfl⟩
  · obtain ⟨prompt, -, h⟩ := Except.bind_ok h
    obtain ⟨_, -, h⟩ := Except.bind_ok h
    cases h; exact ⟨rfl, rfl, rfl, rfl⟩

theorem withTimezone_same (h : withTimezone env input a = .ok b) : SameToken a b := by
  unfold withTimezone at h
  split at h
  · cases h; exact ⟨rfl, rfl, rfl, rfl⟩
  · cases h; exact ⟨rfl, rfl, rfl, rfl⟩
  · obtain ⟨timezone, -, h⟩ := Except.bind_ok h
    cases h; exact ⟨rfl, rfl, rfl, rfl⟩

theorem withScript_same (h : withScript input a = .ok b) : SameToken a b := by
  unfold withScript at h
  obtain ⟨script, -, h⟩ := Except.bind_ok h
  obtain ⟨_, -, h⟩ := Except.bind_ok h
  cases h; exact ⟨rfl, rfl, rfl, rfl⟩

theorem withRepeatTimes_same (h : withRepeatTimes input a = .ok b) : SameToken a b := by
  unfold withRepeatTimes at h
  obtain ⟨repeatTimes, -, h⟩ := Except.bind_ok h
  obtain ⟨_, -, h⟩ := Except.bind_ok h
  cases h; exact ⟨rfl, rfl, rfl, rfl⟩

theorem withSchedule_token (h : withSchedule env input now a = .ok b) :
    SameToken { a with state := if input.reschedules then .pending else a.state } b := by
  unfold withSchedule at h
  split at h
  · rename_i hre
    obtain ⟨parsed, -, h⟩ := Except.bind_ok h
    cases h; exact ⟨rfl, rfl, by rw [hre]; rfl, rfl⟩
  · rename_i hre
    cases h; exact ⟨rfl, rfl, by simp [hre], rfl⟩

theorem withEnabled_token (h : withEnabled env input now a = .ok b) :
    SameToken { a with
      enabled := input.enabled.getD a.enabled
      state := match input.enabled with
        | none => a.state
        | some true => .pending
        | some false => .paused } b := by
  unfold withEnabled at h
  split at h
  · rename_i he
    cases h; rw [he]; exact ⟨rfl, rfl, rfl, rfl⟩
  · rename_i he
    cases h; rw [he]; exact ⟨rfl, rfl, rfl, rfl⟩
  · rename_i he
    rw [he]
    split at h
    · cases h; exact ⟨rfl, rfl, rfl, rfl⟩
    · obtain ⟨nextRunAt, -, h⟩ := Except.bind_ok h
      cases h; exact ⟨rfl, rfl, rfl, rfl⟩

theorem updateJob_token {current : CronJob} (h : updateJob env jobs input now current = .ok next) :
    SameToken { current with
      enabled := input.enabled.getD current.enabled
      state := match input.enabled with
        | none => if input.reschedules then .pending else current.state
        | some true => .pending
        | some false => .paused
      updatedAt := now } next := by
  unfold updateJob at h
  obtain ⟨j1, h1, h⟩ := Except.bind_ok h
  obtain ⟨j2, h2, h⟩ := Except.bind_ok h
  obtain ⟨j3, h3, h⟩ := Except.bind_ok h
  obtain ⟨j4, h4, h⟩ := Except.bind_ok h
  obtain ⟨j5, h5, h⟩ := Except.bind_ok h
  obtain ⟨j6, h6, h⟩ := Except.bind_ok h
  obtain ⟨j7, h7, h⟩ := Except.bind_ok h
  cases h
  have hfirst := ((withName_same h1).trans (withPrompt_same h2)).trans (withTimezone_same h3)
  have hschedule := withSchedule_token h4
  have henabled := withEnabled_token h5
  have hlast := (withScript_same h6).trans (withRepeatTimes_same h7)
  refine ⟨?_, ?_, ?_, ?_⟩
  · exact hlast.id.trans (henabled.id.trans (hschedule.id.trans hfirst.id))
  · have e : j4.enabled = current.enabled := hschedule.enabled.trans hfirst.enabled
    exact hlast.enabled.trans (henabled.enabled.trans (by rw [← e]))
  · have e : j4.state = if input.reschedules then .pending else current.state := by
      rw [hschedule.state, ← show j3.state = current.state from hfirst.state]
    exact hlast.state.trans (henabled.state.trans (by rw [← e]))
  · exact hlast.updatedAt.trans
      (henabled.updatedAt.trans (hschedule.updatedAt.trans hfirst.updatedAt))

end PieLab

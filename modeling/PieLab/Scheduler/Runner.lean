import Mathlib.Data.Rat.Floor
import PieLab.Json
import PieLab.Scheduler.JobStore

/-
  The runner of the scheduler

  The settings as they are read from JSON, and a run of a job: the script, then
  the agent. What the script and the agent do, and how long they take, is a
  parameter of the run; the model says which of the two phases take place, when
  the script counts as timed out, and what the run reports.

  What is proved:
    1. `runCronJob_phases` — the time a run can take in its two phases, from the
       settings and the job.

  Correspondence (TypeScript ↔ Lean): the names of
  packages/coding-agent/src/core/scheduler/scheduler-settings.ts and runner.ts.
  Saving the output and delivering it come after the two phases.
-/

namespace PieLab

open Lib

/-! ## Settings -/

structure LearningPolicy where
  enabled : Bool
  reviewEnabled : Bool
  deriving DecidableEq, Repr

structure SchedulerSettings where
  enabled : Bool
  tickIntervalSeconds : Nat
  timeoutSeconds : Nat
  scriptTimeoutSeconds : Nat
  maxParallelJobs : Nat
  scriptsEnabled : Bool
  noAgentEnabled : Bool
  learning : LearningPolicy
  deriving DecidableEq, Repr

def defaultSchedulerSettings : SchedulerSettings where
  enabled := true
  tickIntervalSeconds := 60
  timeoutSeconds := 600
  scriptTimeoutSeconds := 120
  maxParallelJobs := 2
  scriptsEnabled := true
  noAgentEnabled := true
  learning := { enabled := true, reviewEnabled := false }

/-- The fields of an object; other values have none. -/
def asObject : Option Json → List (String × Json)
  | some (.object fields) => fields
  | _ => []

def asBoolean (value : Option Json) (fallback : Bool) : Bool :=
  match value with
  | some (.bool b) => b
  | _ => fallback

def asPositiveInteger (value : Option Json) (fallback : Nat) : Nat :=
  match value with
  | some (.number (some q)) => if 0 < ⌊q⌋ then ⌊q⌋.toNat else fallback
  | _ => fallback

/-- `input` is `undefined` or a JSON value. -/
def normalizeSchedulerSettings (input : Option Json) : SchedulerSettings :=
  let root := asObject input
  let learning := asObject (root.lookup "learning")
  let defaults := defaultSchedulerSettings
  { enabled := asBoolean (root.lookup "enabled") defaults.enabled
    tickIntervalSeconds :=
      asPositiveInteger (root.lookup "tickIntervalSeconds") defaults.tickIntervalSeconds
    timeoutSeconds := asPositiveInteger (root.lookup "timeoutSeconds") defaults.timeoutSeconds
    scriptTimeoutSeconds :=
      asPositiveInteger (root.lookup "scriptTimeoutSeconds") defaults.scriptTimeoutSeconds
    maxParallelJobs := asPositiveInteger (root.lookup "maxParallelJobs") defaults.maxParallelJobs
    scriptsEnabled := asBoolean (root.lookup "scriptsEnabled") defaults.scriptsEnabled
    noAgentEnabled := asBoolean (root.lookup "noAgentEnabled") defaults.noAgentEnabled
    learning :=
      { enabled := asBoolean (learning.lookup "enabled") defaults.learning.enabled
        reviewEnabled := asBoolean (learning.lookup "reviewEnabled")
          defaults.learning.reviewEnabled } }

/-! ## The script -/

/-- The milliseconds after which `setTimeout(callback, ms)` fires: a delay that
does not fit 32 bits is 1. -/
def setTimeoutDelay (ms : Nat) : Nat := if ms ≤ 2147483647 then ms else 1

/-- What the process of a script does. -/
structure ScriptProcess where
  duration : Nat
  /-- Whether the timer goes first where both are at the same time. -/
  timerFirst : Bool
  /-- The exit code, or the error of the process. -/
  exit : Except String (Option Int)
  stdout : String
  stderr : String

structure ScriptResult where
  success : Bool
  stdout : String
  stderr : String
  error : Option String

def ScriptProcess.timedOut (process : ScriptProcess) (timeoutMs : Nat) : Bool :=
  setTimeoutDelay timeoutMs < process.duration ||
    (process.timerFirst && setTimeoutDelay timeoutMs == process.duration)

/-- `code ?? "unknown"` -/
def exitCodeText : Option Int → String
  | some code => toString code
  | none => "unknown"

/-- The time a script takes and its result; without a script there is nothing to wait for. -/
def runScript (job : CronJob) (process : ScriptProcess) (scriptTimeoutSeconds : Nat) :
    Nat × ScriptResult :=
  if !truthyText job.script then (0, { success := true, stdout := "", stderr := "", error := none })
  else
    let failed (error : String) : ScriptResult :=
      { success := false, stdout := process.stdout, stderr := process.stderr, error := some error }
    match process.exit with
    | .error message => (process.duration, failed message)
    | .ok code =>
      if process.timedOut (scriptTimeoutSeconds * 1000) then
        (process.duration, failed ("Script timed out after " ++
          toString scriptTimeoutSeconds ++ "s."))
      else if code = some 0 then
        (process.duration, { success := true, stdout := process.stdout, stderr := process.stderr
                             error := none })
      else (process.duration, failed ("Script exited with code " ++ exitCodeText code ++ "."))

/-- The last line that is not empty, with the lines before and after it. -/
def lastNonEmptyLine (lines : List String) : Option (List String × String × List String) :=
  (splitFirst (fun line => jsTrim line != "") lines.reverse).map fun found =>
    (found.2.2.reverse, found.2.1, found.1.reverse)

/-- Whether the agent is to run, and the output without the gate line. -/
def parseWakeGate (parseJson : String → Except String Json) (stdout : String) : Bool × String :=
  match lastNonEmptyLine (splitLines stdout) with
  | none => (true, stdout)
  | some (before, line, after) =>
    match parseJson (jsTrim line) with
    | .error _ => (true, stdout)
    | .ok parsed =>
      match parsed.get? "wakeAgent" with
      | none => (true, stdout)
      | some (.bool false) => (false, join "\n" (before ++ after))
      | some _ => (true, join "\n" (before ++ after))

/-! ## The run -/

/-- What the agent does: it starts or not, takes its time, and throws or leaves its messages. -/
structure AgentPhase where
  start : Except String Unit
  duration : Nat
  session : Except String (List AgentMessage)

/-- What a run takes from its surroundings. -/
structure RunWorld where
  parseJson : String → Except String Json
  /-- `store.resolveScriptPath(job.script)` and the start of the process. -/
  spawn : Except String Unit
  process : ScriptProcess
  agent : AgentPhase

structure CronRunResult where
  status : CronJobStatus
  finalResponse : String
  error : Option String
  /-- A `[SILENT]` response is not delivered. -/
  skipDelivery : Bool
  deriving DecidableEq, Repr

/-- The milliseconds of the two phases, and what the run reports or throws. -/
structure CronRun where
  scriptMs : Nat
  agentMs : Nat
  result : Except String CronRunResult

def CronRun.duration (run : CronRun) : Nat := run.scriptMs + run.agentMs

def failedRun (error : Option String) : CronRunResult :=
  { status := .failed, finalResponse := "", error, skipDelivery := false }

def extractAssistantText (messages : List AgentMessage) : String × Option String :=
  match messages.reverse.find? AgentMessage.isAssistant with
  | some (.assistant m) =>
    (join "\n" ((m.content.filterMap AssistantBlock.text?).filter (· ≠ "")), m.errorMessage)
  | _ => ("", some "No assistant response was produced.")

def startsWithText (marker : String) (text : List Char) : Bool := marker.toList.isPrefixOf text

/-- `text.replace(/^\[SILENT\]\s*/i, "")` -/
def stripSilent (text : String) : String :=
  if ((text.toList.take 8).map Char.toUpper) = "[SILENT]".toList then
    String.ofList ((text.toList.drop 8).dropWhile isJsSpace)
  else text

/-- The report of the agent's session. -/
def agentResult (session : Except String (List AgentMessage)) : CronRunResult :=
  match session with
  | .error message => failedRun (some message)
  | .ok messages =>
    let (text, error) := extractAssistantText messages
    let isSilent := startsWithText "[SILENT]" (text.toList.dropWhile isJsSpace)
    let finalText := if isSilent then stripSilent text else text
    { status := if truthyText error || jsTrim finalText = "" then .failed else .success
      finalResponse := finalText
      error
      skipDelivery := isSilent }

def noAgentDisabled : String := "noAgent scheduled jobs are disabled by scheduler settings."

def scriptsDisabled : String := "Scheduled job scripts are disabled by scheduler settings."

def runAgent (scriptMs : Nat) (agent : AgentPhase) : CronRun :=
  match agent.start with
  | .error message => { scriptMs, agentMs := 0, result := .error message }
  | .ok () => { scriptMs, agentMs := agent.duration, result := .ok (agentResult agent.session) }

/-- What follows a script that has run. -/
def runAfterScript (job : CronJob) (world : RunWorld) (scriptMs : Nat) (script : ScriptResult) :
    CronRun :=
  let (wakeAgent, cleanStdout) := parseWakeGate world.parseJson script.stdout
  if !script.success then { scriptMs, agentMs := 0, result := .ok (failedRun script.error) }
  else if job.noAgent || !wakeAgent then
    -- an empty response is a failure
    let finalResponse := jsTrim cleanStdout
    { scriptMs, agentMs := 0
      result := .ok { status := if finalResponse = "" then .failed else .success
                      finalResponse, error := none, skipDelivery := false } }
  else runAgent scriptMs world.agent

def runCronJob (settings : SchedulerSettings) (job : CronJob) (world : RunWorld) : CronRun :=
  if job.noAgent && !settings.noAgentEnabled then
    { scriptMs := 0, agentMs := 0, result := .ok (failedRun (some noAgentDisabled)) }
  else if truthyText job.script && !settings.scriptsEnabled then
    { scriptMs := 0, agentMs := 0, result := .ok (failedRun (some scriptsDisabled)) }
  else
    match (if truthyText job.script then world.spawn else .ok ()) with
    | .error message => { scriptMs := 0, agentMs := 0, result := .error message }
    | .ok () =>
      let (scriptMs, script) := runScript job world.process settings.scriptTimeoutSeconds
      runAfterScript job world scriptMs script

/-! ## The time a run takes -/

theorem runScript_none {job : CronJob} (h : truthyText job.script = false) (process : ScriptProcess)
    (seconds : Nat) : (runScript job process seconds).1 = 0 := by
  unfold runScript
  rw [h]
  rfl

theorem runScript_duration {job : CronJob} (h : truthyText job.script = true)
    (process : ScriptProcess) (seconds : Nat) :
    (runScript job process seconds).1 = process.duration := by
  unfold runScript
  rw [h, Bool.not_true, if_neg (by decide)]
  dsimp only
  split
  · rfl
  · split
    · rfl
    · split
      · rfl
      · rfl

theorem runScript_success {job : CronJob} {process : ScriptProcess} {seconds : Nat}
    (h : (runScript job process seconds).2.success = true) :
    (runScript job process seconds).1 ≤ setTimeoutDelay (seconds * 1000) := by
  unfold runScript at h ⊢
  split
  · exact Nat.zero_le _
  · rename_i hscript
    rw [if_neg hscript] at h
    dsimp only at h ⊢
    split at h
    · cases h
    · split at h
      · cases h
      · rename_i htime
        have hlate : ¬ setTimeoutDelay (seconds * 1000) < process.duration := by
          intro hlt
          apply htime
          unfold ScriptProcess.timedOut
          rw [decide_eq_true hlt, Bool.true_or]
        rw [if_neg htime]
        split
        · exact Nat.le_of_not_lt hlate
        · exact Nat.le_of_not_lt hlate

theorem runAfterScript_spec (job : CronJob) (world : RunWorld) (scriptMs : Nat)
    (script : ScriptResult) :
    (runAfterScript job world scriptMs script).scriptMs = scriptMs ∧
      ((runAfterScript job world scriptMs script).agentMs ≠ 0 →
        script.success = true ∧ job.noAgent = false) := by
  unfold runAfterScript
  dsimp only
  split
  · exact ⟨rfl, fun h => absurd rfl h⟩
  · rename_i hsuccess
    split
    · exact ⟨rfl, fun h => absurd rfl h⟩
    · rename_i hagent
      unfold runAgent
      split
      · exact ⟨rfl, fun h => absurd rfl h⟩
      · refine ⟨rfl, fun _ => ⟨by simpa using hsuccess, ?_⟩⟩
        simp only [Bool.or_eq_true, not_or, Bool.not_eq_true] at hagent
        exact hagent.1

/-- What a run that spends time in its phases says of the job and the settings. -/
structure PhasesOf (settings : SchedulerSettings) (job : CronJob) (run : CronRun) : Prop where
  script : run.scriptMs ≠ 0 → truthyText job.script = true ∧ settings.scriptsEnabled = true ∧
    (job.noAgent = true → settings.noAgentEnabled = true)
  agent : run.agentMs ≠ 0 → job.noAgent = false ∧
    run.scriptMs ≤ setTimeoutDelay (settings.scriptTimeoutSeconds * 1000)

theorem runCronJob_phases (settings : SchedulerSettings) (job : CronJob) (world : RunWorld) :
    PhasesOf settings job (runCronJob settings job world) := by
  unfold runCronJob
  split
  · exact ⟨fun h => absurd rfl h, fun h => absurd rfl h⟩
  · rename_i hnoAgent
    split
    · exact ⟨fun h => absurd rfl h, fun h => absurd rfl h⟩
    · rename_i hscripts
      split
      · exact ⟨fun h => absurd rfl h, fun h => absurd rfl h⟩
      · obtain ⟨hms, hagent⟩ := runAfterScript_spec job world
          (runScript job world.process settings.scriptTimeoutSeconds).1
          (runScript job world.process settings.scriptTimeoutSeconds).2
        refine ⟨?_, ?_⟩
        · intro h
          rw [hms] at h
          have hscript : truthyText job.script = true := by
            by_contra hnone
            exact h (runScript_none (by simpa using hnone) _ _)
          refine ⟨hscript, ?_, ?_⟩
          · simpa [hscript] using hscripts
          · intro hjob
            simpa [hjob] using hnoAgent
        · intro h
          obtain ⟨hsuccess, hjob⟩ := hagent h
          refine ⟨hjob, ?_⟩
          rw [hms]
          exact runScript_success hsuccess

end PieLab

import PieLab.Scheduler.Exclusion
import PieLab.Scheduler.Runner

/-
  Stale runs

  Every tick first resets the jobs that have been running for longer than the
  agent's time limit and a minute: runs of a process that died. But a run that
  lives has two phases one after the other, each with its own limit.

  What is proved:
    1. `applied_since` — what a store call writes is a job it found, or one
       updated when the call was made.
    2. `neverReset_iff` — a live run is never reset exactly when the limits of
       its phases fit into the threshold.
    3. `defaults_reset` — with the default settings they do not.
-/

namespace PieLab

open Lib

/-! ## The tick -/

/-- The threshold in milliseconds: the agent's limit and a buffer. -/
def SchedulerSettings.staleThresholdMs (settings : SchedulerSettings) : Nat :=
  (settings.timeoutSeconds + 60) * 1000

/-- What a tick does first; an error is ignored. -/
def resetAtTick (env : StoreEnv) (settings : SchedulerSettings) (now : Time)
    (jobs : List CronJob) : List CronJob :=
  match resetStaleRunning env settings.staleThresholdMs now jobs with
  | .ok (_, written) => written
  | .error _ => jobs

def findJob (id : String) (jobs : List CronJob) : Option CronJob :=
  jobs.find? fun job => job.id == id

/-- The instants a call works with. -/
def StoreCall.instants (call : StoreCall) : List Time :=
  match call.op with
  | .trigger _ now | .getDueJobs now | .claimDueJob _ now | .resetStaleRunning _ now =>
    [now, call.clock]
  | _ => [call.clock]

/-- A call on the jobs file, at `since` or later; a call that throws changes nothing. -/
def WrittenSince (env : StoreEnv) (since : Time) (jobs : List CronJob) (call : StoreCall)
    (written : List CronJob) : Prop :=
  (∀ t ∈ call.instants, since ≤ t) ∧
  match call.apply env jobs with
  | .ok (_, result) => written = result
  | .error _ => written = jobs

/-- A run of a job with this `script` and `noAgent` that keeps its phases within their
limits is not reset by a tick before it ends, whatever else is done to the jobs. -/
def NeverReset (settings : SchedulerSettings) (script : Option String) (noAgent : Bool) : Prop :=
  ∀ (env : StoreEnv) (jobs written : List CronJob) (id : String) (claimedAt clock : Time)
    (job : CronJob), (jobs.map CronJob.id).Nodup →
    claimDueJob env jobs id claimedAt clock = .ok (some job, written) →
    job.script = script → job.noAgent = noAgent →
    ∀ world : RunWorld,
      (runCronJob settings job world).scriptMs ≤ settings.scriptTimeoutSeconds * 1000 →
      (runCronJob settings job world).agentMs ≤ settings.timeoutSeconds * 1000 →
      ∀ calls jobs', Run (WrittenSince env claimedAt) written calls jobs' →
        ∀ now ≤ claimedAt + (runCronJob settings job world).duration,
          findJob id (resetAtTick env settings now jobs') = findJob id jobs'

/-- Whether the phases of a run can last as long as the threshold. -/
def SchedulerSettings.canOutlast (settings : SchedulerSettings) (script : Option String)
    (noAgent : Bool) : Bool :=
  truthyText script && settings.scriptsEnabled && (!noAgent || settings.noAgentEnabled) &&
    (decide (settings.timeoutSeconds + 60 ≤ settings.scriptTimeoutSeconds) ||
      !noAgent && decide (60 ≤ settings.scriptTimeoutSeconds) &&
        decide (settings.scriptTimeoutSeconds * 1000 ≤ 2147483647))

/-! ## A run that fits -/

variable {settings : SchedulerSettings} {job : CronJob} {since : Time} {jobs jobs' : List CronJob}
variable {env : StoreEnv} {id : String}

theorem duration_lt {world : RunWorld} (hfits : settings.canOutlast job.script job.noAgent = false)
    (hscript : (runCronJob settings job world).scriptMs ≤ settings.scriptTimeoutSeconds * 1000)
    (hagent : (runCronJob settings job world).agentMs ≤ settings.timeoutSeconds * 1000) :
    (runCronJob settings job world).duration < settings.staleThresholdMs := by
  have hphases := runCronJob_phases settings job world
  unfold CronRun.duration SchedulerSettings.staleThresholdMs
  by_cases hnone : (runCronJob settings job world).scriptMs = 0
  · omega
  · obtain ⟨htext, henabled, hnoAgent⟩ := hphases.script hnone
    have hallowed : (!job.noAgent || settings.noAgentEnabled) = true := by
      cases hjob : job.noAgent with
      | false => rfl
      | true => rw [hnoAgent hjob]; rfl
    unfold SchedulerSettings.canOutlast at hfits
    simp only [htext, henabled, hallowed, Bool.true_and, Bool.or_eq_false_iff,
      decide_eq_false_iff_not] at hfits
    obtain ⟨hlong, hboth⟩ := hfits
    by_cases hidle : (runCronJob settings job world).agentMs = 0
    · omega
    · obtain ⟨hjob, hdelay⟩ := hphases.agent hidle
      rw [hjob, Bool.not_false, Bool.true_and, Bool.and_eq_false_iff, decide_eq_false_iff_not,
        decide_eq_false_iff_not] at hboth
      unfold setTimeoutDelay at hdelay
      split at hdelay
      · omega
      · omega

/-! ## What a call writes -/

/-- A job that was there, or one updated at `since` or later. -/
def KeptOrSince (since : Time) (jobs : List CronJob) (job : CronJob) : Prop :=
  job ∈ jobs ∨ since ≤ job.updatedAt

theorem keptOrSince_modifyJob {idOrName : String} {f : CronJob → Except String CronJob}
    {next : CronJob} (h : modifyJob jobs idOrName f = .ok (next, jobs'))
    (hf : ∀ current, f current = .ok next → since ≤ next.updatedAt) :
    ∀ job ∈ jobs', KeptOrSince since jobs job := by
  obtain ⟨pre, current, post, rfl, -, hnext, rfl⟩ := modifyJob_spec h
  intro job hjob
  rcases List.mem_append.mp hjob with hjob | hjob
  · exact .inl (List.mem_append_left _ hjob)
  · rcases List.mem_cons.mp hjob with rfl | hjob
    · exact .inr (hf current hnext)
    · exact .inl (List.mem_append_right _ (List.mem_cons_of_mem _ hjob))

theorem keptOrSince_forall₂ {R : CronJob → CronJob → Prop}
    (hR : ∀ job next, R job next → next = job ∨ since ≤ next.updatedAt)
    (h : List.Forall₂ R jobs jobs') : ∀ job ∈ jobs', KeptOrSince since jobs job := by
  induction h with
  | nil => intro job hjob; cases hjob
  | @cons a b as bs hab _ ih =>
    intro job hjob
    rcases List.mem_cons.mp hjob with rfl | hjob
    · rcases hR a job hab with rfl | hsince
      · exact .inl List.mem_cons_self
      · exact .inr hsince
    · rcases ih job hjob with hkept | hsince
      · exact .inl (List.mem_cons_of_mem _ hkept)
      · exact .inr hsince

theorem fastForward_since {now : Time} {next : CronJob} (hnow : since ≤ now)
    (h : fastForward env now job = .ok next) : next = job ∨ since ≤ next.updatedAt := by
  unfold fastForward at h
  split at h
  · obtain ⟨nextRunAt, -, h⟩ := Except.bind_ok h
    cases h; exact .inr hnow
  · cases h; exact .inl rfl

/-- What a call writes is a job it found, or one updated when the call was made. -/
theorem applied_since {call : StoreCall} {claimed : Option CronJob}
    (hsince : ∀ t ∈ call.instants, since ≤ t) (h : call.apply env jobs = .ok (claimed, jobs')) :
    ∀ job ∈ jobs', KeptOrSince since jobs job := by
  obtain ⟨op, clock⟩ := call
  unfold StoreCall.apply at h
  cases op with
  | create input randomUUID =>
    obtain ⟨-, created, hcreate⟩ := map_ok h
    have hclock : since ≤ clock := hsince clock (List.mem_singleton_self _)
    have hupdated := create_updatedAt hcreate
    obtain ⟨rfl, -⟩ := create_spec hcreate
    intro job hjob
    rcases List.mem_append.mp hjob with hjob | hjob
    · exact .inl hjob
    · rw [List.mem_singleton.mp hjob]
      exact .inr (hupdated ▸ hclock)
  | update idOrName input =>
    obtain ⟨-, next, hupdate⟩ := map_ok h
    have hclock : since ≤ clock := hsince clock (List.mem_singleton_self _)
    apply keptOrSince_modifyJob hupdate
    intro current hnext
    exact (updateJob_token hnext).updatedAt ▸ hclock
  | trigger idOrName now =>
    obtain ⟨-, next, htrigger⟩ := map_ok h
    apply keptOrSince_modifyJob htrigger
    intro current hnext
    cases hnext
    exact hsince now List.mem_cons_self
  | getDueJobs now =>
    obtain ⟨-, due, hdue⟩ := map_ok h
    apply keptOrSince_forall₂ _ (getDueJobs_spec hdue)
    intro job next hnext
    rcases hnext with rfl | ⟨-, hff⟩
    · exact .inl rfl
    · exact fastForward_since (hsince now List.mem_cons_self) hff
  | claimDueJob id now =>
    have hnow : since ≤ now := hsince now List.mem_cons_self
    have hplaced : ∀ pre post : List CronJob, ∀ current next : CronJob,
        (next = current ∨ since ≤ next.updatedAt) →
        ∀ job ∈ pre ++ next :: post, KeptOrSince since (pre ++ current :: post) job := by
      intro pre post current next hnext job hjob
      rcases List.mem_append.mp hjob with hjob | hjob
      · exact .inl (List.mem_append_left _ hjob)
      · rcases List.mem_cons.mp hjob with rfl | hjob
        · rcases hnext with rfl | hle
          · exact .inl (by simp)
          · exact .inr hle
        · exact .inl (List.mem_append_right _ (List.mem_cons_of_mem _ hjob))
    cases claimed with
    | none =>
      rcases claimDueJob_none h with rfl | ⟨pre, current, post, next, rfl, -, hff, rfl⟩
      · exact fun job hjob => .inl hjob
      · exact hplaced pre post current next (fastForward_since hnow hff)
    | some claimed =>
      obtain ⟨pre, current, post, rfl, -, -, hclaim, rfl⟩ := claimDueJob_some h
      exact hplaced pre post current claimed (.inr ((claimJob_ok hclaim).2.2.2 ▸ hnow))
  | markRun id ended result | markDelivery id deliveryError =>
    obtain ⟨-, next, hmark⟩ := map_ok h
    apply keptOrSince_modifyJob hmark
    intro current hnext
    cases hnext
    exact hsince clock (List.mem_singleton_self _)
  | resetStaleRunning timeoutMs now =>
    obtain ⟨-, count, hreset⟩ := map_ok h
    apply keptOrSince_forall₂ _ (resetStaleRunning_spec hreset)
    intro job next hnext
    rcases hnext with rfl | ⟨-, hjob⟩
    · exact .inl rfl
    · exact .inr (resetStaleJob_updatedAt hjob ▸ hsince now List.mem_cons_self)

/-- The jobs with the id were updated at `since` or later. -/
def HeldSince (id : String) (since : Time) (jobs : List CronJob) : Prop :=
  ∀ job ∈ jobs, job.id = id → since ≤ job.updatedAt

theorem HeldSince.of_claim {written : List CronJob} {clock : Time} {claimed : CronJob}
    (hids : (jobs.map CronJob.id).Nodup)
    (h : claimDueJob env jobs id since clock = .ok (some claimed, written)) :
    HeldSince id since written := by
  obtain ⟨pre, current, post, rfl, hid, -, hclaim, rfl⟩ := claimDueJob_some h
  intro job hjob hjobId
  rw [List.map_append, List.map_cons, List.nodup_append, List.nodup_cons] at hids
  obtain ⟨-, ⟨hpost, -⟩, hpre⟩ := hids
  rcases List.mem_append.mp hjob with hjob | hjob
  · exact absurd (hjobId.trans hid.symm) (hpre _ (List.mem_map_of_mem hjob) _ List.mem_cons_self)
  · rcases List.mem_cons.mp hjob with rfl | hjob
    · exact Int.le_of_eq (claimJob_ok hclaim).2.2.2.symm
    · rw [← hid] at hjobId
      exact absurd (hjobId ▸ List.mem_map_of_mem hjob) hpost

theorem HeldSince.step {written : List CronJob} {call : StoreCall} (hs : HeldSince id since jobs)
    (h : WrittenSince env since jobs call written) : HeldSince id since written := by
  intro job hjob hid
  obtain ⟨hinstants, hresult⟩ := h
  split at hresult
  · rename_i happly
    rw [hresult] at hjob
    rcases applied_since hinstants happly job hjob with hkept | hle
    · exact hs job hkept hid
    · exact hle
  · rw [hresult] at hjob
    exact hs job hjob hid

theorem findJob_reset {R : CronJob → CronJob → Prop}
    (hid : ∀ job next, R job next → next.id = job.id)
    (hsame : ∀ job next, R job next → job.id = id → next = job) (h : List.Forall₂ R jobs jobs') :
    findJob id jobs' = findJob id jobs := by
  unfold findJob
  induction h with
  | nil => rfl
  | @cons job next _ _ hjob _ ih =>
    by_cases he : job.id = id
    · rw [hsame job next hjob he, List.find?_cons_of_pos (by simpa using he),
        List.find?_cons_of_pos (by simpa using he)]
    · have hne : next.id ≠ id := by rw [hid job next hjob]; exact he
      rw [List.find?_cons_of_neg (by simpa using hne), List.find?_cons_of_neg (by simpa using he),
        ih]

theorem resetAtTick_fresh {now : Time} (hsince : HeldSince id since jobs)
    (hnow : now - since < settings.staleThresholdMs) :
    findJob id (resetAtTick env settings now jobs) = findJob id jobs := by
  unfold resetAtTick
  split
  · rename_i hreset
    apply findJob_reset (R := fun job next => job ∈ jobs ∧ (next = job ∨
      job.isStale settings.staleThresholdMs now = true ∧
        resetStaleJob env settings.staleThresholdMs now job = .ok next))
    · intro job next hnext
      rcases hnext.2 with rfl | ⟨-, hjob⟩
      · rfl
      · exact resetStaleJob_id hjob
    · intro job next hnext hid
      rcases hnext.2 with rfl | ⟨hstale, -⟩
      · rfl
      · have hle := hsince job hnext.1 hid
        unfold CronJob.isStale at hstale
        rw [Bool.and_eq_true, decide_eq_true_iff] at hstale
        exact absurd (Int.lt_of_le_of_lt (Int.sub_le_sub_left hle now) hnow)
          (Int.not_lt.mpr hstale.2)
    · exact (List.forall₂_and_left _ _).mpr ⟨fun _ hjob => hjob, resetStaleRunning_spec hreset⟩
  · rfl

theorem neverReset_of_fits {script : Option String} {noAgent : Bool}
    (h : settings.canOutlast script noAgent = false) : NeverReset settings script noAgent := by
  intro env jobs written id claimedAt clock job hids hclaim hscript hnoAgent world hs ha
    calls jobs' hrun now hnow
  have hsince : HeldSince id claimedAt jobs' :=
    hrun.invariant (HeldSince.of_claim hids hclaim) fun _ _ _ hnext hs => hs.step hnext
  subst hscript hnoAgent
  have hlt := duration_lt h hs ha
  apply resetAtTick_fresh hsince
  have hend : now - claimedAt ≤ (runCronJob settings job world).duration := by
    exact Int.sub_left_le_of_le_add hnow
  exact Int.lt_of_le_of_lt hend (Int.ofNat_lt.mpr hlt)

/-! ## A run that does not fit -/

/-- A run that uses up both limits: the script ends in time and the agent runs. -/
def longRun (settings : SchedulerSettings) : RunWorld where
  parseJson _ := .error "Unexpected end of JSON input"
  spawn := .ok ()
  process :=
    { duration := settings.scriptTimeoutSeconds * 1000, timerFirst := false, exit := .ok (some 0)
      stdout := "", stderr := "" }
  agent := { start := .ok (), duration := settings.timeoutSeconds * 1000, session := .ok [] }

theorem parseWakeGate_empty (parseJson : String → Except String Json) :
    parseWakeGate parseJson "" = (true, "") := by
  have hlines : lastNonEmptyLine (splitLines "") = none := by decide
  unfold parseWakeGate
  rw [hlines]

theorem runScript_longRun_success (job : CronJob)
    (h : settings.scriptTimeoutSeconds * 1000 ≤ 2147483647) :
    (runScript job (longRun settings).process settings.scriptTimeoutSeconds).2.success = true ∧
      (truthyText job.script = true →
        (runScript job (longRun settings).process settings.scriptTimeoutSeconds).2.stdout = "") := by
  have htime : (longRun settings).process.timedOut (settings.scriptTimeoutSeconds * 1000) =
      false := by
    unfold ScriptProcess.timedOut setTimeoutDelay
    rw [if_pos h]
    simp [longRun]
  unfold runScript
  split
  · exact ⟨rfl, fun _ => rfl⟩
  · rw [htime]
    exact ⟨rfl, fun _ => rfl⟩

theorem runCronJob_longRun (hnoAgent : (!job.noAgent || settings.noAgentEnabled) = true)
    (hscript : truthyText job.script = true) (henabled : settings.scriptsEnabled = true) :
    runCronJob settings job (longRun settings) =
      runAfterScript job (longRun settings) (settings.scriptTimeoutSeconds * 1000)
        (runScript job (longRun settings).process settings.scriptTimeoutSeconds).2 := by
  have hallowed : (job.noAgent && !settings.noAgentEnabled) = false := by
    rw [Bool.or_eq_true] at hnoAgent
    rcases hnoAgent with h | h
    · rw [Bool.not_eq_true'] at h
      rw [h, Bool.false_and]
    · rw [h, Bool.not_true, Bool.and_false]
  unfold runCronJob
  rw [hallowed, if_neg (by decide), henabled, Bool.not_true, Bool.and_false, if_neg (by decide),
    if_pos hscript]
  show runAfterScript job (longRun settings)
    (runScript job (longRun settings).process settings.scriptTimeoutSeconds).1
    (runScript job (longRun settings).process settings.scriptTimeoutSeconds).2 = _
  rw [runScript_duration hscript]
  rfl

theorem longRun_outlasts {settings : SchedulerSettings} {job : CronJob}
    (h : settings.canOutlast job.script job.noAgent = true) :
    (runCronJob settings job (longRun settings)).scriptMs ≤ settings.scriptTimeoutSeconds * 1000 ∧
      (runCronJob settings job (longRun settings)).agentMs ≤ settings.timeoutSeconds * 1000 ∧
      settings.staleThresholdMs ≤ (runCronJob settings job (longRun settings)).duration := by
  unfold SchedulerSettings.canOutlast at h
  simp only [Bool.and_eq_true, Bool.or_eq_true, decide_eq_true_eq] at h
  obtain ⟨⟨⟨hscript, henabled⟩, hnoAgent⟩, hlong⟩ := h
  rw [runCronJob_longRun (by simpa using hnoAgent) hscript henabled]
  unfold CronRun.duration SchedulerSettings.staleThresholdMs
  rw [(runAfterScript_spec _ _ _ _).1]
  refine ⟨Nat.le_refl _, ?_, ?_⟩
  · unfold runAfterScript
    dsimp only
    split
    · exact Nat.zero_le _
    · split
      · exact Nat.zero_le _
      · exact Nat.le_refl _
  · rcases hlong with hlong | ⟨⟨hagent, hminute⟩, hdelay⟩
    · omega
    · have hsum : (settings.timeoutSeconds + 60) * 1000 ≤
          settings.scriptTimeoutSeconds * 1000 + settings.timeoutSeconds * 1000 := by
        rw [Nat.add_mul, Nat.add_comm]
        exact Nat.add_le_add_right (Nat.mul_le_mul_right _ hminute) _
      obtain ⟨hsuccess, hstdout⟩ := runScript_longRun_success job hdelay
      have hms : (runAfterScript job (longRun settings) (settings.scriptTimeoutSeconds * 1000)
          (runScript job (longRun settings).process settings.scriptTimeoutSeconds).2).agentMs =
          settings.timeoutSeconds * 1000 := by
        rw [Bool.not_eq_true'] at hagent
        unfold runAfterScript
        rw [hstdout hscript, parseWakeGate_empty, hsuccess, hagent]
        dsimp only
        rw [Bool.not_true, if_neg (by decide), Bool.or_false, if_neg (by decide)]
        dsimp only [runAgent, longRun]
      exact Nat.le_trans hsum (Nat.add_le_add_left hms.ge _)

/-- A job that runs once, due at 0. -/
def onceJob (script : Option String) (noAgent : Bool) : CronJob :=
  { HourlyExample.job with
    schedule := "1970-01-01", scheduleDisplay := "1970-01-01"
    kind := .once, repeats := false, intervalMs := none, nextRunAt := some 0, script, noAgent }

/-- The same job, claimed at 0. -/
def onceRunning (script : Option String) (noAgent : Bool) : CronJob :=
  { onceJob script noAgent with state := .running, enabled := false, nextRunAt := none }

theorem onceJob_claimed (script : Option String) (noAgent : Bool) :
    claimDueJob HourlyExample.env [onceJob script noAgent] "job" 0 0 =
      .ok (some (onceRunning script noAgent), [onceRunning script noAgent]) := rfl

theorem onceRunning_reset (settings : SchedulerSettings) (script : Option String) (noAgent : Bool) :
    (findJob "job" (resetAtTick HourlyExample.env settings settings.staleThresholdMs
      [onceRunning script noAgent])).map CronJob.state = some .failed := by
  have hstale : (onceRunning script noAgent).isStale settings.staleThresholdMs
      settings.staleThresholdMs = true := by
    unfold CronJob.isStale
    simp [onceRunning, onceJob, HourlyExample.job]
  unfold resetAtTick resetStaleRunning
  rw [if_pos hstale]
  rfl

theorem not_neverReset {script : Option String} {noAgent : Bool}
    (h : settings.canOutlast script noAgent = true) : ¬ NeverReset settings script noAgent := by
  intro hnever
  have hlong := @longRun_outlasts settings (onceRunning script noAgent) h
  have hsame := hnever HourlyExample.env [onceJob script noAgent] [onceRunning script noAgent]
    "job" 0 0 (onceRunning script noAgent) (List.nodup_singleton _)
    (onceJob_claimed script noAgent) rfl rfl (longRun settings) hlong.1 hlong.2.1 [] _ (.nil _)
    settings.staleThresholdMs (by rw [Int.zero_add]; exact Int.ofNat_le.mpr hlong.2.2)
  have hreset := onceRunning_reset settings script noAgent
  rw [hsame] at hreset
  cases hreset

/-- A live run is never reset exactly when the limits of its phases fit into the threshold. -/
theorem neverReset_iff (input : Option Json) (script : Option String) (noAgent : Bool) :
    NeverReset (normalizeSchedulerSettings input) script noAgent ↔
      (normalizeSchedulerSettings input).canOutlast script noAgent = false := by
  constructor
  · intro hnever
    by_contra hlong
    exact not_neverReset (by simpa using hlong) hnever
  · exact neverReset_of_fits

/-- With the default settings a job with a script can be reset while it runs. -/
theorem defaults_reset : ¬ NeverReset (normalizeSchedulerSettings none) (some "backup.sh") false :=
  not_neverReset (by decide)

end PieLab

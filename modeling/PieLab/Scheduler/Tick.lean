import PieLab.Scheduler.Staleness

/-
  The tick of the scheduler

  A tick resets stale jobs, takes the due ones and hands them to workers that
  share an index into the list. A worker claims the next job, runs it, marks the
  run and its delivery, and goes on. Nothing in the loop catches: whatever throws
  ends the worker, and with it the run it is at. A run throws where its script
  cannot be started, its agent cannot be set up, or its output cannot be saved or
  delivered; other failures are reported as failed runs.

  The workers take turns at their calls in any order, and others write the jobs
  file between them.

  What is proved:
    1. `Sound.step`, `Lost.step` — what one step keeps.
    2. `tick_strands_iff` — in every complete tick all claimed jobs are marked
       exactly when every run returns and every mark finds its job; and every due
       job is then offered for a claim unless a claim or a delivery mark throws.
    3. `tick_ends` — a tick goes on until it is complete, in a bounded number of steps.
    4. `script_strands` — a script that cannot be started.

  Correspondence (TypeScript ↔ Lean):
    `finalizeRun`, `runCronJob`  ↔ `finalizeRun`, `runClaimed`
    `tickCronScheduler`          ↔ `beginTick`, `SchedulerTick.Next`
    `worker`                     ↔ `Worker`, one constructor for each `await`
-/

namespace PieLab

open Lib

/-! ## The run of a claimed job -/

/-- What the end of a run takes from its surroundings. -/
structure RunEnd where
  /-- `store.saveOutput`: the path of the saved output. -/
  saveOutput : Except String String
  /-- `deliverCronResult`: the errors of the delivery, if there are any. -/
  deliverCronResult : Except String (Option String)

structure FinishedRun where
  result : CronRunResult
  outputPath : String
  deliveryError : Option String
  deriving DecidableEq, Repr

/-- A silent response is not delivered, and so has no delivery error. -/
def deliveryOf (ending : RunEnd) (result : CronRunResult) : Except String (Option String) :=
  if result.skipDelivery then .ok none else ending.deliverCronResult

def finalizeRun (ending : RunEnd) (result : CronRunResult) : Except String FinishedRun := do
  let outputPath ← ending.saveOutput
  let deliveryError ← deliveryOf ending result
  return { result, outputPath, deliveryError }

/-- `runCronJob` up to its end. -/
def runClaimed (settings : SchedulerSettings) (job : CronJob) (world : RunWorld) (ending : RunEnd) :
    Except String FinishedRun := do
  let result ← (runCronJob settings job world).result
  finalizeRun ending result

theorem failed_or_success (p : Prop) [Decidable p] :
    (if p then CronJobStatus.failed else CronJobStatus.success) ≠ .running := by
  split
  · exact fun h => CronJobStatus.noConfusion h
  · exact fun h => CronJobStatus.noConfusion h

theorem agentResult_status (session : Except String (List AgentMessage)) :
    (agentResult session).status ≠ .running := by
  unfold agentResult
  split
  · exact fun h => CronJobStatus.noConfusion h
  · exact failed_or_success _

theorem runAfterScript_status {job : CronJob} {world : RunWorld} {scriptMs : Nat}
    {script : ScriptResult} {result : CronRunResult}
    (h : (runAfterScript job world scriptMs script).result = .ok result) :
    result.status ≠ .running := by
  unfold runAfterScript runAgent at h
  generalize parseWakeGate world.parseJson script.stdout = gate at h
  obtain ⟨wakeAgent, cleanStdout⟩ := gate
  dsimp only at h
  cases hsuccess : script.success with
  | false =>
    rw [hsuccess, Bool.not_false, if_pos rfl] at h
    rw [← Except.ok.inj h]
    exact fun h => CronJobStatus.noConfusion h
  | true =>
    rw [hsuccess, Bool.not_true, if_neg (by decide)] at h
    cases hskip : job.noAgent || !wakeAgent with
    | true =>
      rw [hskip, if_pos rfl] at h
      rw [← Except.ok.inj h]
      exact failed_or_success _
    | false =>
      rw [hskip, if_neg (by decide)] at h
      split at h
      · cases h
      · rw [← Except.ok.inj h]
        exact agentResult_status _

theorem runCronJob_status {settings : SchedulerSettings} {job : CronJob} {world : RunWorld}
    {result : CronRunResult} (h : (runCronJob settings job world).result = .ok result) :
    result.status ≠ .running := by
  unfold runCronJob at h
  split at h
  · cases h
    exact fun h => CronJobStatus.noConfusion h
  · split at h
    · cases h
      exact fun h => CronJobStatus.noConfusion h
    · split at h
      · cases h
      · exact runAfterScript_status h

theorem runClaimed_status {settings : SchedulerSettings} {job : CronJob} {world : RunWorld}
    {ending : RunEnd} {run : FinishedRun} (h : runClaimed settings job world ending = .ok run) :
    run.result.status ≠ .running := by
  obtain ⟨result, hresult, h⟩ := Except.bind_ok h
  obtain ⟨outputPath, -, h⟩ := Except.bind_ok h
  obtain ⟨deliveryError, -, h⟩ := Except.bind_ok h
  cases h
  exact runCronJob_status hresult

/-! ## The workers -/

/-- Where a worker is; `i` is the index of its job in the due list. -/
inductive Worker where
  | atLoop
  | claiming (i : Nat) (job : CronJob)
  | running (i : Nat) (job : CronJob)
  | marking (i : Nat) (job : CronJob) (run : FinishedRun)
  | delivering (i : Nat) (job : CronJob) (run : FinishedRun)
  | done
  | threw (message : String)

/-- A tick at work. `attempted`, `claimed` and `marked` record the claims called for, the
jobs they gave and what `markRun` wrote, by the index of the due job. -/
structure SchedulerTick where
  jobs : List CronJob
  index : Nat
  workers : List Worker
  results : List FinishedRun
  attempted : List Nat
  claimed : List (Nat × CronJob)
  marked : List (Nat × CronJob)

def SchedulerTick.start (settings : SchedulerSettings) (due jobs : List CronJob) :
    SchedulerTick where
  jobs := jobs
  index := 0
  workers := List.replicate (min (max 1 settings.maxParallelJobs) due.length) .atLoop
  results := []
  attempted := []
  claimed := []
  marked := []

/-- The due jobs of a tick, and where its workers start. -/
def beginTick (env : StoreEnv) (settings : SchedulerSettings) (now clock : Time)
    (jobs : List CronJob) : Except String (List CronJob × SchedulerTick) := do
  let (due, written) ← getDueJobs env now clock (resetAtTick env settings now jobs)
  return (due, SchedulerTick.start settings due written)

def SchedulerTick.put (s : SchedulerTick) (w : Nat) (worker : Worker) : SchedulerTick :=
  { s with workers := s.workers.set w worker }

def FinishedRun.toRunResult (run : FinishedRun) : RunResult :=
  { status := run.result.status, outputPath := some run.outputPath, error := run.result.error
    ranAt := none }

inductive TickEvent where
  | take (w : Nat)
  | claim (w : Nat) (now clock : Time)
  | finish (w : Nat) (world : RunWorld) (ending : RunEnd)
  | mark (w : Nat) (clock : Time)
  | deliver (w : Nat) (clock : Time)
  /-- Others write the jobs file. -/
  | written (jobs : List CronJob)

/-- One step of a worker, or a write of others. -/
inductive SchedulerTick.Next (env : StoreEnv) (settings : SchedulerSettings) (due : List CronJob) :
    SchedulerTick → TickEvent → SchedulerTick → Prop where
  | take {s : SchedulerTick} {w : Nat} {job : CronJob} (hw : s.workers[w]? = some .atLoop)
      (hjob : due[s.index]? = some job) :
      Next env settings due s (.take w)
        { s.put w (.claiming s.index job) with index := s.index + 1 }
  | leave {s : SchedulerTick} {w : Nat} (hw : s.workers[w]? = some .atLoop) (hend : due.length ≤ s.index) :
      Next env settings due s (.take w) (s.put w .done)
  | claimThrew {s : SchedulerTick} {w i : Nat} {now clock : Time} {job : CronJob} {message : String}
      (hw : s.workers[w]? = some (.claiming i job))
      (h : claimDueJob env s.jobs job.id now clock = .error message) :
      Next env settings due s (.claim w now clock) (s.put w (.threw message))
  | skipped {s : SchedulerTick} {w i : Nat} {now clock : Time} {job : CronJob} {jobs : List CronJob}
      (hw : s.workers[w]? = some (.claiming i job))
      (h : claimDueJob env s.jobs job.id now clock = .ok (none, jobs)) :
      Next env settings due s (.claim w now clock)
        { s.put w .atLoop with jobs, attempted := s.attempted ++ [i] }
  | claimed {s : SchedulerTick} {w i : Nat} {now clock : Time} {job claimed : CronJob} {jobs : List CronJob}
      (hw : s.workers[w]? = some (.claiming i job))
      (h : claimDueJob env s.jobs job.id now clock = .ok (some claimed, jobs)) :
      Next env settings due s (.claim w now clock)
        { s.put w (.running i claimed) with
          jobs, attempted := s.attempted ++ [i], claimed := s.claimed ++ [(i, claimed)] }
  | runThrew {s : SchedulerTick} {w i : Nat} {world : RunWorld} {ending : RunEnd} {job : CronJob}
      {message : String} (hw : s.workers[w]? = some (.running i job))
      (h : runClaimed settings job world ending = .error message) :
      Next env settings due s (.finish w world ending) (s.put w (.threw message))
  | finished {s : SchedulerTick} {w i : Nat} {world : RunWorld} {ending : RunEnd} {job : CronJob}
      {run : FinishedRun} (hw : s.workers[w]? = some (.running i job))
      (h : runClaimed settings job world ending = .ok run) :
      Next env settings due s (.finish w world ending) (s.put w (.marking i job run))
  | markThrew {s : SchedulerTick} {w i : Nat} {clock : Time} {job : CronJob} {run : FinishedRun}
      {message : String} (hw : s.workers[w]? = some (.marking i job run))
      (h : markRun s.jobs job.id run.toRunResult clock = .error message) :
      Next env settings due s (.mark w clock) (s.put w (.threw message))
  | marked {s : SchedulerTick} {w i : Nat} {clock : Time} {job next : CronJob} {run : FinishedRun}
      {jobs : List CronJob} (hw : s.workers[w]? = some (.marking i job run))
      (h : markRun s.jobs job.id run.toRunResult clock = .ok (next, jobs)) :
      Next env settings due s (.mark w clock)
        { s.put w (.delivering i job run) with jobs, marked := s.marked ++ [(i, next)] }
  | deliverThrew {s : SchedulerTick} {w i : Nat} {clock : Time} {job : CronJob} {run : FinishedRun}
      {message : String} (hw : s.workers[w]? = some (.delivering i job run))
      (h : markDelivery s.jobs job.id run.deliveryError clock = .error message) :
      Next env settings due s (.deliver w clock) (s.put w (.threw message))
  | delivered {s : SchedulerTick} {w i : Nat} {clock : Time} {job next : CronJob} {run : FinishedRun}
      {jobs : List CronJob} (hw : s.workers[w]? = some (.delivering i job run))
      (h : markDelivery s.jobs job.id run.deliveryError clock = .ok (next, jobs)) :
      Next env settings due s (.deliver w clock)
        { s.put w .atLoop with jobs, results := s.results ++ [run] }
  | written {s : SchedulerTick} (jobs : List CronJob) : Next env settings due s (.written jobs) { s with jobs }

def Worker.finished : Worker → Bool
  | .done | .threw _ => true
  | _ => false

/-- Every worker has returned or thrown. -/
def SchedulerTick.Complete (s : SchedulerTick) :
    Prop := ∀ worker ∈ s.workers, worker.finished = true

/-- A run returns, and a mark finds the job that was claimed. -/
def SchedulerTick.Ends (settings : SchedulerSettings) (s : SchedulerTick) : TickEvent → Prop
  | .finish w world ending => ∀ i job, s.workers[w]? = some (.running i job) →
      ∃ run, runClaimed settings job world ending = .ok run
  | .mark w _ => ∀ i job run, s.workers[w]? = some (.marking i job run) →
      ∃ current, resolveJob s.jobs job.id = some current ∧ current.id = job.id
  | _ => True

/-- A claim and the mark of a delivery return. -/
def SchedulerTick.Answers (env : StoreEnv) (s : SchedulerTick) : TickEvent → Prop
  | .claim w now clock => ∀ i job, s.workers[w]? = some (.claiming i job) →
      ∃ result, claimDueJob env s.jobs job.id now clock = .ok result
  | .deliver w _ => ∀ i job run, s.workers[w]? = some (.delivering i job run) →
      ∃ current, resolveJob s.jobs job.id = some current
  | _ => True

/-- The job was marked after its run, and is not running then. -/
def SchedulerTick.LeftByMark (s : SchedulerTick) (i : Nat) (job : CronJob) : Prop :=
  ∃ written, (i, written) ∈ s.marked ∧ written.id = job.id ∧ written.state ≠ .running

/-! ## What a step keeps -/

/-- The due job a worker has taken and not marked yet. -/
def Worker.held : Worker → Option Nat
  | .claiming i _ | .running i _ | .marking i _ _ => some i
  | _ => none

/-- The claimed job a worker is at, until it is marked. -/
def Worker.claimedJob : Worker → Option (Nat × CronJob)
  | .running i job | .marking i job _ => some (i, job)
  | _ => none

def SchedulerTick.heldBy (s : SchedulerTick) (w : Nat) : Option Nat :=
  s.workers[w]?.bind Worker.held

variable {w i : Nat} {s s' : SchedulerTick} {due : List CronJob} {event : TickEvent}
variable {worker : Worker}

theorem workers_set {workers : List Worker} {before after : Worker} (hw : workers[w]? = some before)
    (v : Nat) : (workers.set w after)[v]? = if v = w then some after else workers[v]? := by
  have hlt : w < workers.length := (List.getElem?_eq_some_iff.1 hw).1
  rw [List.getElem?_set]
  by_cases h : v = w
  · rw [if_pos h, if_pos h.symm, if_pos hlt]
  · rw [if_neg h, if_neg fun he => h he.symm]

theorem heldBy_set {before after : Worker} (hw : s.workers[w]? = some before)
    (hheld : after.held = none ∨ after.held = before.held) {v : Nat}
    (h : ((s.workers.set w after)[v]?).bind Worker.held = some i) : s.heldBy v = some i := by
  rw [workers_set hw] at h
  split at h
  · rename_i he
    unfold SchedulerTick.heldBy
    rw [he, hw]
    rcases hheld with hnone | hsame
    · rw [Option.bind_some, hnone] at h; cases h
    · rw [Option.bind_some, hsame] at h; exact h
  · exact h

/-- Every due job is held by one worker, which has not marked it. -/
structure Sound (due : List CronJob) (s : SchedulerTick) : Prop where
  unique : ∀ v w i, s.heldBy v = some i → s.heldBy w = some i → v = w
  below : ∀ w i, s.heldBy w = some i → i < s.index
  unmarked : ∀ w i, s.heldBy w = some i → ∀ written, (i, written) ∉ s.marked
  markedBelow : ∀ i written, (i, written) ∈ s.marked → i < s.index
  claimed : ∀ (w : Nat) (worker : Worker), s.workers[w]? = some worker →
    ∀ p, worker.claimedJob = some p → p ∈ s.claimed
  bound : s.index ≤ due.length

theorem Sound.put (hs : Sound due s) (after : Worker) {before : Worker}
    (hw : s.workers[w]? = some before) (hheld : after.held = none ∨ after.held = before.held)
    {claimed : List (Nat × CronJob)} (hsub : s.claimed ⊆ claimed)
    (hjob : ∀ p, after.claimedJob = some p → p ∈ claimed) (jobs : List CronJob)
    (results : List FinishedRun) (attempted : List Nat) :
    Sound due { s.put w after with jobs, results, attempted, claimed } := by
  have hback : ∀ v i, ((s.workers.set w after)[v]?).bind Worker.held = some i →
      s.heldBy v = some i := fun v i h => heldBy_set hw hheld h
  refine ⟨?_, ?_, ?_, hs.markedBelow, ?_, hs.bound⟩
  · exact fun v v' i h h' => hs.unique v v' i (hback v i h) (hback v' i h')
  · exact fun v i h => hs.below v i (hback v i h)
  · exact fun v i h => hs.unmarked v i (hback v i h)
  · intro v worker h p hp
    have h : (s.workers.set w after)[v]? = some worker := h
    rw [workers_set hw] at h
    split at h
    · cases h; exact hjob p hp
    · exact hsub (hs.claimed v worker h p hp)

theorem Sound.take {due : List CronJob} {s : SchedulerTick} (hs : Sound due s) {w : Nat}
    {job : CronJob} (hw : s.workers[w]? = some .atLoop) (hjob : due[s.index]? = some job) :
    Sound due { s.put w (.claiming s.index job) with index := s.index + 1 } := by
  have hback : ∀ v i,
      ((s.workers.set w (.claiming s.index job))[v]?).bind Worker.held = some i →
      (v = w ∧ i = s.index) ∨ s.heldBy v = some i := by
    intro v i h
    rw [workers_set hw] at h
    split at h
    · rename_i he
      cases h
      exact .inl ⟨he, rfl⟩
    · exact .inr h
  refine ⟨?_, ?_, ?_, ?_, ?_, ?_⟩
  · intro v v' i h h'
    rcases hback v i h with ⟨hv, hi⟩ | hv
    · rcases hback v' i h' with ⟨hv', -⟩ | hv'
      · rw [hv, hv']
      · exact absurd (hs.below v' i hv') (by omega)
    · rcases hback v' i h' with ⟨-, hi⟩ | hv'
      · exact absurd (hs.below v i hv) (by omega)
      · exact hs.unique v v' i hv hv'
  · intro v i h
    show i < s.index + 1
    rcases hback v i h with ⟨-, hi⟩ | hv
    · omega
    · exact Nat.lt_succ_of_lt (hs.below v i hv)
  · intro v i h written hmem
    rcases hback v i h with ⟨-, hi⟩ | hv
    · exact absurd (hs.markedBelow i written hmem) (by omega)
    · exact hs.unmarked v i hv written hmem
  · exact fun i written hmem => Nat.lt_succ_of_lt (hs.markedBelow i written hmem)
  · intro v worker h p hp
    have h : (s.workers.set w (.claiming s.index job))[v]? = some worker := h
    rw [workers_set hw] at h
    split at h
    · cases h; cases hp
    · exact hs.claimed v worker h p hp
  · exact (List.getElem?_eq_some_iff.1 hjob).1

theorem Sound.mark (hs : Sound due s) {job next : CronJob} {run : FinishedRun}
    (hw : s.workers[w]? = some (.marking i job run)) (jobs : List CronJob) :
    Sound due { s.put w (.delivering i job run) with jobs, marked := s.marked ++ [(i, next)] } := by
  have hheldw : s.heldBy w = some i := by
    unfold SchedulerTick.heldBy
    rw [hw]
    rfl
  have hback : ∀ v j, ((s.workers.set w (.delivering i job run))[v]?).bind Worker.held = some j →
      v ≠ w ∧ s.heldBy v = some j := by
    intro v j h
    rw [workers_set hw] at h
    split at h
    · cases h
    · rename_i hne
      exact ⟨hne, h⟩
  refine ⟨?_, ?_, ?_, ?_, ?_, hs.bound⟩
  · exact fun v v' j h h' => hs.unique v v' j (hback v j h).2 (hback v' j h').2
  · exact fun v j h => hs.below v j (hback v j h).2
  · intro v j h written hmem
    obtain ⟨hne, hv⟩ := hback v j h
    rcases List.mem_append.1 hmem with hmem | hmem
    · exact hs.unmarked v j hv written hmem
    · cases List.mem_singleton.1 hmem
      exact hne (hs.unique v w i hv hheldw)
  · intro j written hmem
    rcases List.mem_append.1 hmem with hmem | hmem
    · exact hs.markedBelow j written hmem
    · cases List.mem_singleton.1 hmem
      exact hs.below w i hheldw
  · intro v worker h p hp
    have h : (s.workers.set w (.delivering i job run))[v]? = some worker := h
    rw [workers_set hw] at h
    split at h
    · cases h; cases hp
    · exact hs.claimed v worker h p hp

theorem Sound.step {env : StoreEnv} {settings : SchedulerSettings} (hs : Sound due s)
    (h : SchedulerTick.Next env settings due s event s') : Sound due s' := by
  have hsame : ∀ (w : Nat) (worker : Worker) p, s.workers[w]? = some worker →
      worker.claimedJob = some p →
      p ∈ s.claimed := fun w worker p h hp => hs.claimed w worker h p hp
  cases h with
  | take hw hjob => exact hs.take hw hjob
  | leave hw _ | claimThrew hw _ | skipped hw _ | runThrew hw _ | markThrew hw _ | deliverThrew hw _
  | delivered hw _ =>
    exact hs.put _ hw (.inl rfl) (List.Subset.refl _) (fun _ h => by cases h) _ _ _
  | claimed hw _ =>
    apply hs.put (.running _ _) hw (.inr rfl) (List.subset_append_left _ _)
    intro p hp
    cases hp
    exact List.mem_append_right _ (List.mem_singleton_self _)
  | finished hw _ =>
    exact hs.put (.marking _ _ _) hw (.inr rfl) (List.Subset.refl _)
      (fun p hp => hsame _ _ p hw hp) _ _ _
  | marked hw _ => exact hs.mark hw _
  | written jobs =>
    exact ⟨hs.unique, hs.below, hs.unmarked, hs.markedBelow, hs.claimed, hs.bound⟩

/-! ## Runs that end with a mark -/

theorem resolveJob_eq (jobs : List CronJob) (idOrName : String) :
    resolveJob jobs idOrName =
      (splitFirst (CronJob.answersTo idOrName) jobs).map fun found => found.2.1 := by
  unfold resolveJob
  induction jobs with
  | nil => rfl
  | cons job rest ih =>
    unfold splitFirst
    split
    · rename_i h
      rw [List.find?_cons_of_pos h]
      rfl
    · rename_i h
      rw [List.find?_cons_of_neg h, ih, Option.map_map]
      rfl

theorem modifyJob_total {jobs : List CronJob} {idOrName : String} {current : CronJob}
    (h : resolveJob jobs idOrName = some current) (f : CronJob → CronJob) :
    ∃ jobs', modifyJob jobs idOrName (fun job => .ok (f job)) = .ok (f current, jobs') := by
  rw [resolveJob_eq] at h
  unfold modifyJob
  cases hfound : splitFirst (CronJob.answersTo idOrName) jobs with
  | none => rw [hfound] at h; cases h
  | some found =>
    obtain ⟨pre, job, post⟩ := found
    rw [hfound] at h
    cases h
    exact ⟨_, rfl⟩

theorem markRunJob_state {result : RunResult} (h : result.status ≠ .running) (now : Time)
    (job : CronJob) : (markRunJob result now job).state ≠ .running := by
  unfold markRunJob
  dsimp only
  split
  · exact fun h => CronJobStatus.noConfusion h
  · split
    · exact fun h => CronJobStatus.noConfusion h
    · exact h

/-- Every claimed job is marked, or a worker is at it. -/
structure Kept (s : SchedulerTick) : Prop where
  left : ∀ p ∈ s.claimed, s.LeftByMark p.1 p.2 ∨
    ∃ (w : Nat) (worker : Worker), s.workers[w]? = some worker ∧ worker.claimedJob = some p
  reported : ∀ (w i : Nat) (job : CronJob) (run : FinishedRun),
    s.workers[w]? = some (.marking i job run) → run.result.status ≠ .running

theorem Kept.put (hs : Kept s) (after : Worker) {before : Worker} (hw : s.workers[w]? = some before)
    (hkeep : ∀ p, before.claimedJob = some p → after.claimedJob = some p)
    {claimed : List (Nat × CronJob)}
    (hnew : ∀ p ∈ claimed, p ∈ s.claimed ∨ after.claimedJob = some p)
    (hreport : ∀ i job run, after = .marking i job run → run.result.status ≠ .running)
    (jobs : List CronJob) (results : List FinishedRun) (attempted : List Nat) :
    Kept { s.put w after with jobs, results, attempted, claimed } := by
  constructor
  · intro p hp
    have hafter : (s.workers.set w after)[w]? = some after := by rw [workers_set hw, if_pos rfl]
    rcases hnew p hp with hold | hjob
    · rcases hs.left p hold with hleft | ⟨v, worker, hv, hjob⟩
      · exact .inl hleft
      · right
        by_cases he : v = w
        · rw [he, hw] at hv
          cases hv
          exact ⟨w, after, hafter, hkeep p hjob⟩
        · exact ⟨v, worker, by
            show (s.workers.set w after)[v]? = some worker
            rw [workers_set hw, if_neg he, hv], hjob⟩
    · exact .inr ⟨w, after, hafter, hjob⟩
  · intro v i job run h
    have h : (s.workers.set w after)[v]? = some (.marking i job run) := h
    rw [workers_set hw] at h
    split at h
    · exact hreport i job run (Option.some.inj h)
    · exact hs.reported v i job run h

theorem Kept.mark (hs : Kept s) {clock : Time} {job next : CronJob} {run : FinishedRun}
    {jobs : List CronJob} (hw : s.workers[w]? = some (.marking i job run))
    (h : markRun s.jobs job.id run.toRunResult clock = .ok (next, jobs))
    (hown : ∃ current, resolveJob s.jobs job.id = some current ∧ current.id = job.id) :
    Kept { s.put w (.delivering i job run) with jobs, marked := s.marked ++ [(i, next)] } := by
  obtain ⟨current, hresolve, hid⟩ := hown
  obtain ⟨written, hwritten⟩ :=
    modifyJob_total hresolve fun current => markRunJob run.toRunResult clock current
  have hnext : next = markRunJob run.toRunResult clock current := by
    have hsame := h.symm.trans hwritten
    cases hsame
    rfl
  constructor
  · intro p hp
    rcases hs.left p hp with ⟨job', hmem, hjob'⟩ | ⟨v, worker, hv, hjob'⟩
    · exact .inl ⟨job', List.mem_append_left _ hmem, hjob'⟩
    · by_cases he : v = w
      · -- the worker of this job has just marked it
        rw [he, hw] at hv
        cases hv
        cases hjob'
        left
        refine ⟨next, List.mem_append_right _ (List.mem_singleton_self _), ?_, ?_⟩
        · rw [hnext]; exact hid
        · rw [hnext]
          exact markRunJob_state (hs.reported w i job run hw) clock current
      · exact .inr ⟨v, worker, by
          show (s.workers.set w (.delivering i job run))[v]? = some worker
          rw [workers_set hw, if_neg he, hv], hjob'⟩
  · intro v i' job' run' hv
    have hv : (s.workers.set w (.delivering i job run))[v]? = some (.marking i' job' run') := hv
    rw [workers_set hw] at hv
    split at hv
    · cases hv
    · exact hs.reported v i' job' run' hv

theorem Kept.step {env : StoreEnv} {settings : SchedulerSettings} (hs : Kept s)
    (h : SchedulerTick.Next env settings due s event s')
    (hends : SchedulerTick.Ends settings s event) : Kept s' := by
  cases h with
  | take hw _ =>
    obtain ⟨hleft, hreported⟩ := hs.put (.claiming _ _) hw (fun _ h => by cases h)
      (fun p hp => .inl hp) (fun _ _ _ h => by cases h) s.jobs s.results s.attempted
    exact ⟨hleft, hreported⟩
  | leave hw _ =>
    exact hs.put .done hw (fun _ h => by cases h) (fun p hp => .inl hp) (fun _ _ _ h => by cases h)
      _ _ _
  | claimThrew hw _ | deliverThrew hw _ =>
    exact hs.put (.threw _) hw (fun _ h => by cases h) (fun p hp => .inl hp)
      (fun _ _ _ h => by cases h) _ _ _
  | skipped hw _ | delivered hw _ =>
    exact hs.put .atLoop hw (fun _ h => by cases h) (fun p hp => .inl hp)
      (fun _ _ _ h => by cases h) _ _ _
  | claimed hw _ =>
    apply hs.put (.running _ _) hw (fun _ h => by cases h) _ (fun _ _ _ h => by cases h)
    intro p hp
    rcases List.mem_append.1 hp with hp | hp
    · exact .inl hp
    · exact .inr (by rw [List.mem_singleton.1 hp]; rfl)
  | runThrew hw hthrew =>
    obtain ⟨run, hrun⟩ := hends _ _ hw
    rw [hthrew] at hrun
    cases hrun
  | finished hw hrun =>
    apply hs.put (.marking _ _ _) hw (fun _ h => h) (fun p hp => .inl hp)
    intro i job run h
    cases h
    exact runClaimed_status hrun
  | markThrew hw hthrew =>
    obtain ⟨current, hresolve, -⟩ := hends _ _ _ hw
    obtain ⟨written, hwritten⟩ := modifyJob_total hresolve fun current => markRunJob _ _ current
    exact absurd (hthrew.symm.trans hwritten) (fun h => by cases h)
  | marked hw hmark => exact hs.mark hw hmark (hends _ _ _ hw)
  | written jobs => exact ⟨hs.left, hs.reported⟩

/-! ## Runs that end without one -/

theorem SchedulerTick.Next.frame {env : StoreEnv} {settings : SchedulerSettings}
    (h : SchedulerTick.Next env settings due s event s') :
    (∀ v i, s'.heldBy v = some i → s.heldBy v = some i ∨ s.index ≤ i) ∧ s.index ≤ s'.index ∧
      s.claimed ⊆ s'.claimed ∧
      ∀ p ∈ s'.marked, p ∈ s.marked ∨ ∃ w, s.heldBy w = some p.1 := by
  have hput : ∀ {w : Nat} {before after : Worker}, s.workers[w]? = some before →
      (after.held = none ∨ after.held = before.held) → ∀ v i,
      ((s.workers.set w after)[v]?).bind Worker.held = some i →
      s.heldBy v = some i ∨ s.index ≤ i := fun hw hheld _ _ h => .inl (heldBy_set hw hheld h)
  have hmarked : ∀ p ∈ s.marked, p ∈ s.marked ∨ ∃ w, s.heldBy w = some p.1 := fun _ hp => .inl hp
  cases h with
  | @take w job hw _ =>
    refine ⟨?_, Nat.le_succ _, List.Subset.refl _, hmarked⟩
    intro v i h
    have h : ((s.workers.set w (.claiming s.index job))[v]?).bind Worker.held = some i := h
    rw [workers_set hw] at h
    split at h
    · cases h
      exact .inr (Nat.le_refl _)
    · exact .inl h
  | leave hw _ | claimThrew hw _ | skipped hw _ | runThrew hw _ | markThrew hw _ | deliverThrew hw _
  | delivered hw _ =>
    exact ⟨hput hw (.inl rfl), Nat.le_refl _, List.Subset.refl _, hmarked⟩
  | claimed hw _ =>
    exact ⟨hput hw (.inr rfl), Nat.le_refl _, List.subset_append_left _ _, hmarked⟩
  | finished hw _ => exact ⟨hput hw (.inr rfl), Nat.le_refl _, List.Subset.refl _, hmarked⟩
  | @marked w i _ job next run _ hw _ =>
    refine ⟨hput hw (.inl rfl), Nat.le_refl _, List.Subset.refl _, ?_⟩
    intro p hp
    rcases List.mem_append.1 hp with hp | hp
    · exact .inl hp
    · right
      refine ⟨w, ?_⟩
      unfold SchedulerTick.heldBy
      rw [hw, List.mem_singleton.1 hp]
      rfl
  | written jobs =>
    exact ⟨fun _ _ h => .inl h, Nat.le_refl _, List.Subset.refl _, hmarked⟩

/-- A claimed job that no worker is at and no mark has found. -/
structure Lost (p : Nat × CronJob) (s : SchedulerTick) : Prop where
  claimed : p ∈ s.claimed
  below : p.1 < s.index
  free : ∀ w, s.heldBy w ≠ some p.1
  unmarked : ∀ written, (p.1, written) ∈ s.marked → written.id ≠ p.2.id

theorem Lost.step {env : StoreEnv} {settings : SchedulerSettings} {p : Nat × CronJob}
    (hs : Lost p s) (h : SchedulerTick.Next env settings due s event s') : Lost p s' := by
  obtain ⟨hheld, hindex, hclaimed, hmarked⟩ := h.frame
  refine ⟨hclaimed hs.claimed, Nat.lt_of_lt_of_le hs.below hindex, ?_, ?_⟩
  · intro w hw
    rcases hheld w p.1 hw with hold | hle
    · exact hs.free w hold
    · exact absurd hs.below (Nat.not_lt.2 hle)
  · intro written hmem
    rcases hmarked _ hmem with hold | ⟨w, hw⟩
    · exact hs.unmarked written hold
    · exact absurd hw (hs.free w)

theorem Sound.lost (hs : Sound due s) (after : Worker) {job : CronJob} {before : Worker}
    (hw : s.workers[w]? = some before) (hjob : before.claimedJob = some (i, job))
    (hheld : before.held = some i) (hafter : after.held = none) :
    Lost (i, job) (s.put w after) := by
  have hheldw : s.heldBy w = some i := by
    unfold SchedulerTick.heldBy
    rw [hw]
    exact hheld
  refine ⟨hs.claimed w before hw (i, job) hjob, hs.below w i hheldw, ?_, ?_⟩
  · intro v h
    have h : ((s.workers.set w after)[v]?).bind Worker.held = some i := h
    have hold := heldBy_set hw (.inl hafter) h
    rw [hs.unique v w i hold hheldw, workers_set hw, if_pos rfl, Option.bind_some, hafter] at h
    cases h
  · exact fun written hmem => absurd hmem (hs.unmarked w i hheldw written)

theorem Sound.loses {env : StoreEnv} {settings : SchedulerSettings} (hs : Sound due s)
    (h : SchedulerTick.Next env settings due s event s')
    (hends : ¬ SchedulerTick.Ends settings s event) : ∃ p, Lost p s' := by
  cases h with
  | runThrew hw _ => exact ⟨_, hs.lost (.threw _) hw rfl rfl rfl⟩
  | markThrew hw _ => exact ⟨_, hs.lost (.threw _) hw rfl rfl rfl⟩
  | @finished w i world ending job run hw hrun =>
    exfalso
    apply hends
    intro i' job' hw'
    rw [hw] at hw'
    cases hw'
    exact ⟨run, hrun⟩
  | @marked w i clock job next run jobs hw hmark =>
    refine ⟨(i, job), ?_⟩
    obtain ⟨hclaimed, hbelow, hfree, hunmarked⟩ :=
      hs.lost (.delivering i job run) hw rfl rfl rfl
    refine ⟨hclaimed, hbelow, hfree, ?_⟩
    intro written hmem
    rcases List.mem_append.1 hmem with hmem | hmem
    · exact hunmarked written hmem
    · cases List.mem_singleton.1 hmem
      obtain ⟨pre, current, post, -, hresolve, hnext, -⟩ := modifyJob_spec hmark
      cases hnext
      intro hid
      apply hends
      intro i' job' run' hw'
      rw [hw] at hw'
      cases hw'
      exact ⟨current, hresolve, hid⟩
  | take hw _ => exact absurd trivial hends
  | leave hw _ => exact absurd trivial hends
  | claimThrew hw _ => exact absurd trivial hends
  | skipped hw _ => exact absurd trivial hends
  | claimed hw _ => exact absurd trivial hends
  | deliverThrew hw _ => exact absurd trivial hends
  | delivered hw _ => exact absurd trivial hends
  | written jobs => exact absurd trivial hends

/-! ## Due jobs that are offered -/

/-- Every due job up to the index was offered or is about to be, and no worker leaves
before the end. -/
structure Offered (due : List CronJob) (s : SchedulerTick) : Prop where
  attempted : ∀ i < s.index, i ∈ s.attempted ∨
    ∃ (w : Nat) (job : CronJob), s.workers[w]? = some (.claiming i job)
  ended : ∀ (w : Nat) (worker : Worker), s.workers[w]? = some worker → worker.finished = true →
    due.length ≤ s.index
  staffed : due ≠ [] → s.workers ≠ []

theorem Offered.put (hs : Offered due s) (after : Worker) {before : Worker}
    (hw : s.workers[w]? = some before) {attempted : List Nat} (hsub : s.attempted ⊆ attempted)
    (hclaim : ∀ i job, before = .claiming i job → i ∈ attempted)
    (hend : after.finished = true → due.length ≤ s.index) (jobs : List CronJob)
    (results : List FinishedRun) (claimed marked : List (Nat × CronJob)) :
    Offered due { s.put w after with jobs, results, attempted, claimed, marked } := by
  refine ⟨?_, ?_, ?_⟩
  · intro i hi
    rcases hs.attempted i hi with hdone | ⟨v, job, hv⟩
    · exact .inl (hsub hdone)
    · by_cases he : v = w
      · rw [he, hw] at hv
        exact .inl (hclaim i job (Option.some.inj hv))
      · exact .inr ⟨v, job, by
          show (s.workers.set w after)[v]? = _
          rw [workers_set hw, if_neg he, hv]⟩
  · intro v worker hv hfinished
    have hv : (s.workers.set w after)[v]? = some worker := hv
    rw [workers_set hw] at hv
    split at hv
    · cases hv; exact hend hfinished
    · exact hs.ended v worker hv hfinished
  · intro hdue hnil
    apply hs.staffed hdue
    have hlength := congrArg List.length hnil
    exact List.eq_nil_of_length_eq_zero (by simpa [SchedulerTick.put] using hlength)

theorem Offered.take {due : List CronJob} {s : SchedulerTick} (hs : Offered due s) {w : Nat}
    {job : CronJob} (hw : s.workers[w]? = some .atLoop) (hjob : due[s.index]? = some job) :
    Offered due { s.put w (.claiming s.index job) with index := s.index + 1 } := by
  have hlt : s.index < due.length := (List.getElem?_eq_some_iff.1 hjob).1
  have hafter : (s.workers.set w (.claiming s.index job))[w]? = some (.claiming s.index job) := by
    rw [workers_set hw, if_pos rfl]
  obtain ⟨hattempted, hended, hstaffed⟩ := hs.put (.claiming s.index job) hw (List.Subset.refl _)
    (fun _ _ h => by cases h) (fun h => by cases h) s.jobs s.results s.claimed s.marked
  refine ⟨?_, ?_, hstaffed⟩
  · intro i hi
    rcases Nat.lt_succ_iff_lt_or_eq.1 hi with hold | hnew
    · exact hattempted i hold
    · exact .inr ⟨w, job, by rw [hnew]; exact hafter⟩
  · intro v worker hv hfinished
    exact absurd (hended v worker hv hfinished) (Nat.not_le.2 hlt)

theorem Offered.step {env : StoreEnv} {settings : SchedulerSettings} (hs : Offered due s)
    (h : SchedulerTick.Next env settings due s event s')
    (hends : SchedulerTick.Ends settings s event) (hanswers : SchedulerTick.Answers env s event) :
    Offered due s' := by
  cases h with
  | take hw hjob => exact hs.take hw hjob
  | leave hw hend =>
    exact hs.put .done hw (List.Subset.refl _) (fun _ _ h => by cases h) (fun _ => hend) _ _ _ _
  | claimThrew hw hthrew =>
    obtain ⟨result, hresult⟩ := hanswers _ _ hw
    exact absurd (hthrew.symm.trans hresult) (fun h => by cases h)
  | skipped hw _ =>
    apply hs.put .atLoop hw (List.subset_append_left _ _) _ (fun h => by cases h)
    intro i job h
    cases h
    exact List.mem_append_right _ (List.mem_singleton_self _)
  | claimed hw _ =>
    apply hs.put (.running _ _) hw (List.subset_append_left _ _) _ (fun h => by cases h)
    intro i job h
    cases h
    exact List.mem_append_right _ (List.mem_singleton_self _)
  | runThrew hw hthrew =>
    obtain ⟨run, hrun⟩ := hends _ _ hw
    exact absurd (hthrew.symm.trans hrun) (fun h => by cases h)
  | finished hw _ =>
    exact hs.put (.marking _ _ _) hw (List.Subset.refl _) (fun _ _ h => by cases h)
      (fun h => by cases h) _ _ _ _
  | markThrew hw hthrew =>
    obtain ⟨current, hresolve, -⟩ := hends _ _ _ hw
    obtain ⟨written, hwritten⟩ := modifyJob_total hresolve fun current => markRunJob _ _ current
    exact absurd (hthrew.symm.trans hwritten) (fun h => by cases h)
  | marked hw _ =>
    exact hs.put (.delivering _ _ _) hw (List.Subset.refl _) (fun _ _ h => by cases h)
      (fun h => by cases h) _ _ _ _
  | deliverThrew hw hthrew =>
    obtain ⟨current, hresolve⟩ := hanswers _ _ _ hw
    obtain ⟨written, hwritten⟩ :=
      modifyJob_total hresolve fun current => markDeliveryJob _ _ current
    exact absurd (hthrew.symm.trans hwritten) (fun h => by cases h)
  | delivered hw _ =>
    exact hs.put .atLoop hw (List.Subset.refl _) (fun _ _ h => by cases h) (fun h => by cases h)
      _ _ _ _
  | written jobs => exact ⟨hs.attempted, hs.ended, hs.staffed⟩

/-! ## Whole ticks -/

theorem start_worker {settings : SchedulerSettings} {jobs : List CronJob}
    (h : (SchedulerTick.start settings due jobs).workers[w]? = some worker) : worker = .atLoop :=
  List.eq_of_mem_replicate (List.mem_of_getElem? h)

theorem Sound.start (settings : SchedulerSettings) (due jobs : List CronJob) :
    Sound due (SchedulerTick.start settings due jobs) := by
  have hfree : ∀ w, (SchedulerTick.start settings due jobs).heldBy w = none := by
    intro w
    unfold SchedulerTick.heldBy
    cases hw : (SchedulerTick.start settings due jobs).workers[w]? with
    | none => rfl
    | some worker => rw [start_worker hw]; rfl
  refine ⟨?_, ?_, ?_, ?_, ?_, Nat.zero_le _⟩
  · intro v w i h
    rw [hfree v] at h
    cases h
  · intro w i h
    rw [hfree w] at h
    cases h
  · exact fun _ _ _ _ h => absurd h List.not_mem_nil
  · exact fun _ _ h => absurd h List.not_mem_nil
  · intro w worker hw p hp
    rw [start_worker hw] at hp
    cases hp

theorem Kept.start (settings : SchedulerSettings) (due jobs : List CronJob) :
    Kept (SchedulerTick.start settings due jobs) := by
  refine ⟨fun _ hp => absurd hp List.not_mem_nil, ?_⟩
  intro w i job run hw
  cases start_worker hw

theorem Offered.start (settings : SchedulerSettings) (due jobs : List CronJob) :
    Offered due (SchedulerTick.start settings due jobs) := by
  refine ⟨fun _ hi => absurd hi (Nat.not_lt_zero _), ?_, ?_⟩
  · intro w worker hw hfinished
    rw [start_worker hw] at hfinished
    cases hfinished
  · intro hdue hnil
    have hlength := congrArg List.length hnil
    have hpos : 0 < due.length := List.length_pos_of_ne_nil hdue
    simp only [SchedulerTick.start, List.length_replicate, List.length_nil] at hlength
    omega

/-- A tick starts its workers on the due jobs, with the jobs that were written with them. -/
theorem beginTick_start {now clock : Time} {s₀ : SchedulerTick} {written : List CronJob}
    (h : beginTick env settings now clock written = .ok (due, s₀)) :
    ∃ jobs, getDueJobs env now clock (resetAtTick env settings now written) = .ok (due, jobs) ∧
      s₀ = SchedulerTick.start settings due jobs := by
  unfold beginTick at h
  cases hdue : getDueJobs env now clock (resetAtTick env settings now written) with
  | error e => rw [hdue] at h; cases h
  | ok result =>
    rw [hdue] at h
    obtain ⟨rfl, rfl⟩ := Prod.mk.inj (Except.ok.inj h)
    exact ⟨result.2, rfl, rfl⟩

/-- A step whose run ends, and whose mark finds its job. -/
def SchedulerTick.EndingNext (env : StoreEnv) (settings : SchedulerSettings) (due : List CronJob)
    (s : SchedulerTick) (event : TickEvent) (s' : SchedulerTick) : Prop :=
  SchedulerTick.Next env settings due s event s' ∧ SchedulerTick.Ends settings s event

/-- A step in which nothing throws. -/
def SchedulerTick.SteadyNext (env : StoreEnv) (settings : SchedulerSettings) (due : List CronJob)
    (s : SchedulerTick) (event : TickEvent) (s' : SchedulerTick) : Prop :=
  SchedulerTick.EndingNext env settings due s event s' ∧ SchedulerTick.Answers env s event

theorem Lost.run {env : StoreEnv} {settings : SchedulerSettings} {events : List TickEvent}
    {p : Nat × CronJob} (hs : Lost p s) (h : Run (SchedulerTick.Next env settings due) s events s') : Lost p s' :=
  h.invariant hs fun _ _ _ hnext hlost => hlost.step hnext

theorem ending_of_left {env : StoreEnv} {settings : SchedulerSettings} {events : List TickEvent}
    (hs : Sound due s) (h : Run (SchedulerTick.Next env settings due) s events s')
    (hleft : ∀ p ∈ s'.claimed, s'.LeftByMark p.1 p.2) :
    Run (SchedulerTick.EndingNext env settings due) s events s' := by
  induction h with
  | nil s => exact .nil s
  | @cons s t u event events hnext hrest ih =>
    by_cases hends : SchedulerTick.Ends settings s event
    · exact .cons ⟨hnext, hends⟩ (ih (hs.step hnext) hleft)
    · exfalso
      obtain ⟨p, hlost⟩ := hs.loses hnext hends
      have hend := hlost.run hrest
      obtain ⟨written, hmem, hid, -⟩ := hleft p hend.claimed
      exact hend.unmarked written hmem hid

theorem claimedJob_of_finished (h : worker.finished = true) : worker.claimedJob = none := by
  cases worker with
  | done => rfl
  | threw message => rfl
  | atLoop => cases h
  | claiming i job => cases h
  | running i job => cases h
  | marking i job run => cases h
  | delivering i job run => cases h

theorem Kept.complete (hs : Kept s) (hcomplete : s.Complete) :
    ∀ p ∈ s.claimed, s.LeftByMark p.1 p.2 := by
  intro p hp
  rcases hs.left p hp with hleft | ⟨w, worker, hw, hjob⟩
  · exact hleft
  · rw [claimedJob_of_finished (hcomplete worker (List.mem_of_getElem? hw))] at hjob
    cases hjob

theorem Offered.complete (hs : Offered due s) (hcomplete : s.Complete) :
    ∀ i < due.length, i ∈ s.attempted := by
  intro i hi
  have hdue : due ≠ [] := List.ne_nil_of_length_pos (Nat.lt_of_le_of_lt (Nat.zero_le i) hi)
  obtain ⟨worker, hworker⟩ := List.exists_mem_of_ne_nil _ (hs.staffed hdue)
  obtain ⟨w, hw⟩ := List.getElem?_of_mem hworker
  have hend := hs.ended w worker hw (hcomplete worker hworker)
  rcases hs.attempted i (Nat.lt_of_lt_of_le hi hend) with hdone | ⟨v, job, hv⟩
  · exact hdone
  · cases hcomplete _ (List.mem_of_getElem? hv)

/-- In a complete tick all claimed jobs are left by a mark exactly when every run returns
and every mark finds its job. If besides no claim and no delivery mark throws, every due
job was offered for a claim. -/
theorem tick_strands_iff (env : StoreEnv) (settings : SchedulerSettings) (due jobs : List CronJob)
    (events : List TickEvent) (s : SchedulerTick)
    (h : Run (SchedulerTick.Next env settings due) (SchedulerTick.start settings due jobs) events s)
    (hcomplete : s.Complete) :
    ((∀ p ∈ s.claimed, s.LeftByMark p.1 p.2) ↔
      Run (SchedulerTick.EndingNext env settings due) (SchedulerTick.start settings due jobs)
        events s) ∧
    (Run (SchedulerTick.SteadyNext env settings due) (SchedulerTick.start settings due jobs)
        events s → ∀ i < due.length, i ∈ s.attempted) := by
  constructor
  · constructor
    · exact ending_of_left (Sound.start settings due jobs) h
    · intro hending
      have hkept : Kept s := hending.invariant (Kept.start settings due jobs)
        fun _ _ _ hnext hs => hs.step hnext.1 hnext.2
      exact hkept.complete hcomplete
  · intro hsteady
    have hoffered : Offered due s := hsteady.invariant (Offered.start settings due jobs)
      fun _ _ _ hnext hs => hs.step hnext.1.1 hnext.1.2 hnext.2
    exact hoffered.complete hcomplete

/-! ## A tick goes on -/

/-- As long as a worker has not finished, it has a next step, whatever its run does. -/
theorem SchedulerTick.progress (env : StoreEnv) (settings : SchedulerSettings)
    (hw : s.workers[w]? = some worker) (hbusy : worker.finished = false) (world : RunWorld)
    (ending : RunEnd) (now clock : Time) :
    ∃ event ∈ [.take w, .claim w now clock, .finish w world ending, .mark w clock,
        .deliver w clock],
      ∃ s', SchedulerTick.Next env settings due s event s' := by
  cases worker with
  | atLoop =>
    refine ⟨.take w, by simp, ?_⟩
    cases hjob : due[s.index]? with
    | some job => exact ⟨_, .take hw hjob⟩
    | none => exact ⟨_, .leave hw (List.getElem?_eq_none_iff.1 hjob)⟩
  | claiming i job =>
    refine ⟨.claim w now clock, by simp, ?_⟩
    cases hclaim : claimDueJob env s.jobs job.id now clock with
    | error message => exact ⟨_, .claimThrew hw hclaim⟩
    | ok result =>
      obtain ⟨claimed, jobs⟩ := result
      cases claimed with
      | none => exact ⟨_, .skipped hw hclaim⟩
      | some claimed => exact ⟨_, .claimed hw hclaim⟩
  | running i job =>
    refine ⟨.finish w world ending, by simp, ?_⟩
    cases hrun : runClaimed settings job world ending with
    | error message => exact ⟨_, .runThrew hw hrun⟩
    | ok run => exact ⟨_, .finished hw hrun⟩
  | marking i job run =>
    refine ⟨.mark w clock, by simp, ?_⟩
    cases hmark : markRun s.jobs job.id run.toRunResult clock with
    | error message => exact ⟨_, .markThrew hw hmark⟩
    | ok result => exact ⟨_, .marked hw hmark⟩
  | delivering i job run =>
    refine ⟨.deliver w clock, by simp, ?_⟩
    cases hmark : markDelivery s.jobs job.id run.deliveryError clock with
    | error message => exact ⟨_, .deliverThrew hw hmark⟩
    | ok result => exact ⟨_, .delivered hw hmark⟩
  | done => cases hbusy
  | threw message => cases hbusy

/-- The steps a worker has before it at most, without the jobs it may still take. -/
def Worker.rest : Worker → Nat
  | .claiming _ _ => 5
  | .running _ _ => 4
  | .marking _ _ _ => 3
  | .delivering _ _ _ => 2
  | .atLoop => 1
  | .done | .threw _ => 0

def SchedulerTick.rest (due : List CronJob) (s : SchedulerTick) : Nat :=
  6 * (due.length - s.index) + (s.workers.map Worker.rest).sum

theorem rest_set {workers : List Worker} {before : Worker} (after : Worker)
    (hw : workers[w]? = some before) :
    ((workers.set w after).map Worker.rest).sum + before.rest =
      (workers.map Worker.rest).sum + after.rest := by
  induction workers generalizing w with
  | nil => cases hw
  | cons worker workers ih =>
    cases w with
    | zero =>
      cases hw
      simp only [List.set_cons_zero, List.map_cons, List.sum_cons]
      omega
    | succ w =>
      have hrest := ih (w := w) hw
      simp only [List.set_cons_succ, List.map_cons, List.sum_cons]
      omega

def TickEvent.byWorker : TickEvent → Bool
  | .written _ => false
  | _ => true

theorem SchedulerTick.Next.rest_lt {env : StoreEnv} {settings : SchedulerSettings}
    (h : SchedulerTick.Next env settings due s event s') (hworker : event.byWorker = true) :
    s'.rest due < s.rest due := by
  have hput : ∀ {w : Nat} {before after : Worker}, s.workers[w]? = some before →
      after.rest < before.rest →
      6 * (due.length - s.index) + ((s.workers.set w after).map Worker.rest).sum < s.rest due := by
    intro w before after hw hlt
    have hset := rest_set after hw
    unfold SchedulerTick.rest
    omega
  cases h with
  | @take w job hw hjob =>
    have hlt : s.index < due.length := (List.getElem?_eq_some_iff.1 hjob).1
    have hset := rest_set (.claiming s.index job) hw
    show 6 * (due.length - (s.index + 1)) +
      ((s.workers.set w (.claiming s.index job)).map Worker.rest).sum < s.rest due
    unfold SchedulerTick.rest
    simp only [Worker.rest] at hset
    omega
  | leave hw _ | claimThrew hw _ | skipped hw _ | claimed hw _ | runThrew hw _ | finished hw _ | markThrew hw _
  | marked hw _ | deliverThrew hw _ | delivered hw _ => exact hput hw (by simp only [Worker.rest]; omega)
  | written jobs => cases hworker

theorem worker_steps_le {env : StoreEnv} {settings : SchedulerSettings} {events : List TickEvent}
    (h : Run (SchedulerTick.Next env settings due) s events s') :
    (events.filter TickEvent.byWorker).length + s'.rest due ≤ s.rest due := by
  induction h with
  | nil s => exact Nat.le_of_eq (Nat.zero_add _)
  | @cons s t u event events hnext _ ih =>
    cases hworker : event.byWorker with
    | true =>
      have hlt := hnext.rest_lt hworker
      rw [List.filter_cons_of_pos hworker, List.length_cons]
      omega
    | false =>
      cases hnext with
      | written jobs =>
        rw [List.filter_cons_of_neg (fun h => Bool.noConfusion h)]
        exact ih
      | _ => cases hworker

/-- However its calls are interleaved and whatever they give, a tick takes no more than a bounded number
of steps, and there is a next one until every worker has finished. -/
theorem tick_ends {env : StoreEnv} {settings : SchedulerSettings} {due jobs : List CronJob}
    {s : SchedulerTick} {events : List TickEvent}
    (h : Run (SchedulerTick.Next env settings due) (SchedulerTick.start settings due jobs) events s) :
    (events.filter TickEvent.byWorker).length ≤ 6 * due.length + min (max 1 settings.maxParallelJobs) due.length ∧
    (¬ s.Complete → ∃ w < s.workers.length, ∀ (world : RunWorld) (ending : RunEnd) (now clock : Time),
      ∃ event ∈ [.take w, .claim w now clock, .finish w world ending, .mark w clock, .deliver w clock],
        ∃ s', SchedulerTick.Next env settings due s event s') := by
  refine ⟨?_, fun hbusy => ?_⟩
  · have hsteps := worker_steps_le h
    simp only [SchedulerTick.rest, SchedulerTick.start, List.map_replicate, List.sum_replicate_nat,
      Worker.rest, Nat.sub_zero, Nat.mul_one] at hsteps
    omega
  · simp only [SchedulerTick.Complete, not_forall, Bool.not_eq_true] at hbusy
    obtain ⟨worker, hmem, hworker⟩ := hbusy
    obtain ⟨w, hw, rfl⟩ := List.getElem_of_mem hmem
    exact ⟨w, hw, SchedulerTick.progress env settings (List.getElem?_eq_getElem hw) hworker⟩

namespace TickExample

open HourlyExample

def settings (workers : Nat) : SchedulerSettings :=
  { defaultSchedulerSettings with maxParallelJobs := workers }

/-- The agent cannot answer, but everything starts and is saved. -/
def world : RunWorld where
  parseJson _ := .error "Unexpected end of JSON input"
  spawn := .ok ()
  process := { duration := 0, timerFirst := false, exit := .ok (some 0), stdout := "", stderr := "" }
  agent := { start := .ok (), duration := 0, session := .ok [] }

def ending : RunEnd := { saveOutput := .ok "/output/job.md", deliverCronResult := .ok none }

def run : FinishedRun :=
  { result := failedRun (some "No assistant response was produced.")
    outputPath := "/output/job.md", deliveryError := none }

def second : CronJob := { job with id := "second", name := "second" }

def dueJobs : List CronJob := [job, second]

/-- A due job once it is claimed, once its run is marked, and once the delivery is. -/
def claimedJob (job : CronJob) : CronJob :=
  { running 3600000 with id := job.id, name := job.name }

def markedJob (job : CronJob) : CronJob := markRunJob run.toRunResult 3660000 (claimedJob job)

def deliveredJob (job : CronJob) : CronJob := markDeliveryJob none 3660000 (markedJob job)

/-- Two workers; the second one is the first to mark its run. -/
def events : List TickEvent :=
  [.take 0, .take 1, .claim 0 3600000 3600000, .claim 1 3600000 3600000, .finish 0 world ending,
    .finish 1 world ending, .mark 1 3660000, .mark 0 3660000, .deliver 0 3660000, .deliver 1 3660000,
    .take 1, .take 0]

def last : SchedulerTick where
  jobs := dueJobs.map deliveredJob
  index := 2
  workers := [.done, .done]
  results := [run, run]
  attempted := [0, 1]
  claimed := [(0, claimedJob job), (1, claimedJob second)]
  marked := [(1, markedJob second), (0, markedJob job)]

section Steps

variable {job : CronJob}

theorem claim_answers {now clock : Time} {result : Option CronJob × List CronJob}
    (hw : s.workers[w]? = some (.claiming i job))
    (h : claimDueJob env s.jobs job.id now clock = .ok result) :
    SchedulerTick.Answers env s (.claim w now clock) := by
  intro i' job' hw'
  rw [hw] at hw'
  cases hw'
  exact ⟨_, h⟩

theorem finish_ends (hw : s.workers[w]? = some (.running i job))
    (h : runClaimed (settings 2) job world ending = .ok run) :
    SchedulerTick.Ends (settings 2) s (.finish w world ending) := by
  intro i' job' hw'
  rw [hw] at hw'
  cases hw'
  exact ⟨_, h⟩

theorem mark_ends {clock : Time} {current : CronJob}
    (hw : s.workers[w]? = some (.marking i job run))
    (h : resolveJob s.jobs job.id = some current ∧ current.id = job.id) :
    SchedulerTick.Ends (settings 2) s (.mark w clock) := by
  intro i' job' run' hw'
  rw [hw] at hw'
  cases hw'
  exact ⟨current, h⟩

theorem deliver_answers {clock : Time} {current : CronJob}
    (hw : s.workers[w]? = some (.delivering i job run))
    (h : resolveJob s.jobs job.id = some current) :
    SchedulerTick.Answers env s (.deliver w clock) := by
  intro i' job' run' hw'
  rw [hw] at hw'
  cases hw'
  exact ⟨current, h⟩

end Steps

theorem steady : Run (SchedulerTick.SteadyNext env (settings 2) dueJobs)
    (SchedulerTick.start (settings 2) dueJobs dueJobs) events last := by
  have hclaim : claimDueJob env dueJobs "job" 3600000 3600000 =
      .ok (some (claimedJob job), [claimedJob job, second]) := rfl
  have hclaim' : claimDueJob env [claimedJob job, second] "second" 3600000 3600000 =
      .ok (some (claimedJob second), dueJobs.map claimedJob) := rfl
  have hran : runClaimed (settings 2) (claimedJob job) world ending = .ok run := by decide
  have hran' : runClaimed (settings 2) (claimedJob second) world ending = .ok run := by decide
  have hmark' : markRun (dueJobs.map claimedJob) "second" run.toRunResult 3660000 =
      .ok (markedJob second, [claimedJob job, markedJob second]) := rfl
  have hmark : markRun [claimedJob job, markedJob second] "job" run.toRunResult 3660000 =
      .ok (markedJob job, dueJobs.map markedJob) := rfl
  have hdeliver : markDelivery (dueJobs.map markedJob) "job" none 3660000 =
      .ok (deliveredJob job, [deliveredJob job, markedJob second]) := rfl
  have hdeliver' : markDelivery [deliveredJob job, markedJob second] "second" none 3660000 =
      .ok (deliveredJob second, dueJobs.map deliveredJob) := rfl
  apply Run.cons ⟨⟨.take rfl (show _ = some job from rfl), trivial⟩, trivial⟩
  apply Run.cons ⟨⟨.take rfl (show _ = some second from rfl), trivial⟩, trivial⟩
  apply Run.cons ⟨⟨.claimed rfl hclaim, trivial⟩, claim_answers rfl hclaim⟩
  apply Run.cons ⟨⟨.claimed rfl hclaim', trivial⟩, claim_answers rfl hclaim'⟩
  apply Run.cons ⟨⟨.finished rfl hran, finish_ends rfl hran⟩, trivial⟩
  apply Run.cons ⟨⟨.finished rfl hran', finish_ends rfl hran'⟩, trivial⟩
  apply Run.cons ⟨⟨.marked rfl hmark', mark_ends rfl ⟨rfl, rfl⟩⟩, trivial⟩
  apply Run.cons ⟨⟨.marked rfl hmark, mark_ends rfl ⟨rfl, rfl⟩⟩, trivial⟩
  apply Run.cons ⟨⟨.delivered rfl hdeliver, trivial⟩, deliver_answers rfl rfl⟩
  apply Run.cons ⟨⟨.delivered rfl hdeliver', trivial⟩, deliver_answers rfl rfl⟩
  apply Run.cons ⟨⟨.leave rfl (by decide), trivial⟩, trivial⟩
  exact .single ⟨⟨.leave rfl (by decide), trivial⟩, trivial⟩

end TickExample

open TickExample in
/-- The due jobs are offered, and left by their marks. -/
theorem tick_strands_example :
    last.Complete ∧ (∀ p ∈ last.claimed, last.LeftByMark p.1 p.2) ∧
      ∀ i < dueJobs.length, i ∈ last.attempted := by
  have hcomplete : last.Complete := by
    intro worker hworker
    rw [List.eq_of_mem_replicate (show worker ∈ List.replicate 2 Worker.done from hworker)]
    rfl
  obtain ⟨hleft, hoffered⟩ := tick_strands_iff HourlyExample.env (settings 2) dueJobs
    dueJobs TickExample.events last (steady.imp fun _ _ _ h => h.1.1) hcomplete
  exact ⟨hcomplete, hleft.2 (steady.imp fun _ _ _ h => h.1), hoffered steady⟩

theorem tick_ends_example : (TickExample.events.filter TickEvent.byWorker).length ≤ 14 :=
  (tick_ends (TickExample.steady.imp fun _ _ _ h => h.1.1)).1

/-- The script of the first job is gone, and the only worker with it: the job stays
running, and the second one is not offered although it can be claimed. -/
theorem script_strands :
    let first : CronJob := { HourlyExample.job with script := some "gone.sh" }
    let second : CronJob := { HourlyExample.job with id := "second", name := "second" }
    ∃ events s, Run (SchedulerTick.Next HourlyExample.env (TickExample.settings 1) [first, second])
        (SchedulerTick.start (TickExample.settings 1) [first, second] [first, second]) events s ∧
      s.Complete ∧ ¬ (∀ p ∈ s.claimed, s.LeftByMark p.1 p.2) ∧
      (findJob "job" s.jobs).map CronJob.state = some .running ∧ 1 ∉ s.attempted ∧
      ∃ claimed jobs, claimDueJob HourlyExample.env s.jobs "second" 3600000 3600000 =
        .ok (some claimed, jobs) := by
  intro first second
  let world : RunWorld :=
    { TickExample.world with spawn := .error "ENOENT: no such file or directory" }
  let claimed : CronJob :=
    { first with state := .running, nextRunAt := some 7200000, updatedAt := 3600000 }
  have hclaim : claimDueJob HourlyExample.env [first, second] "job" 3600000 3600000 =
      .ok (some claimed, [claimed, second]) := rfl
  have hthrew : runClaimed (TickExample.settings 1) claimed world TickExample.ending =
      .error "ENOENT: no such file or directory" := by decide
  refine ⟨[.take 0, .claim 0 3600000 3600000, .finish 0 world TickExample.ending],
    { jobs := [claimed, second], index := 1
      workers := [.threw "ENOENT: no such file or directory"], results := [], attempted := [0]
      claimed := [(0, claimed)], marked := [] }, ?_, ?_, ?_, rfl, by simp, ?_⟩
  · apply Run.cons (.take rfl (show _ = some first from rfl))
    apply Run.cons (.claimed rfl hclaim)
    exact .single (.runThrew rfl hthrew)
  · intro worker hworker
    rw [List.mem_singleton.1 hworker]
    rfl
  · intro hleft
    obtain ⟨written, hmem, -⟩ := hleft (0, claimed) (List.mem_singleton_self _)
    exact List.not_mem_nil hmem
  · exact ⟨_, _, rfl⟩

end PieLab

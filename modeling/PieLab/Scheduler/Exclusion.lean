import Mathlib.Data.List.Forall2
import PieLab.Lib.Runs
import PieLab.Scheduler.JobStore

/-
  One run at a time

  A job that is claimed is `running` until `markRun`, and `claimDueJob` takes no
  running job. The operations of a user rewrite the same field: `trigger`, and an
  `update` that reads the schedule again or enables the job, make it `pending`
  again, whether it runs or not.

  A run of the system is a sequence of store calls in any order. Beside the jobs
  the state holds the live runs: what `claimDueJob` handed out and its `markRun`
  has not ended.

  What is proved:
    1. `Exclusive.step` — while no call gives the token of a live run away, every
       live run's job is running or disabled.
    2. `one_run_at_a_time` — so in every such run no job has two live runs, and no
       claim takes a job with a live run.
    3. `triggered_twice` — a job triggered during its run is claimed again.
-/

namespace PieLab

open Lib

/-! ## Calls and live runs -/

/-- A run handed out by a claim. -/
structure LiveRun where
  jobId : String
  claimedAt : Time
  deriving DecidableEq, Repr

inductive StoreOp where
  | create (input : CreateCronJobInput) (randomUUID : Uuid)
  | update (idOrName : String) (input : UpdateCronJobInput)
  | trigger (idOrName : String) (now : Time)
  | getDueJobs (now : Time)
  | claimDueJob (id : String) (now : Time)
  /-- `ended` is the live run the call ends; a job that is run without a claim has none. -/
  | markRun (id : String) (ended : Option LiveRun) (result : RunResult)
  | markDelivery (id : String) (deliveryError : Option String)
  | resetStaleRunning (timeoutMs : Int) (now : Time)

def StoreOp.pause (idOrName : String) : StoreOp := .update idOrName { enabled := some false }

def StoreOp.resume (idOrName : String) : StoreOp := .update idOrName { enabled := some true }

/-- An operation, with the clock it reads. -/
structure StoreCall where
  op : StoreOp
  clock : Time

/-- The job an operation hands out for a run, and the jobs it writes. -/
def StoreCall.apply (env : StoreEnv) (jobs : List CronJob) (call : StoreCall) :
    Except String (Option CronJob × List CronJob) :=
  match call.op with
  | .create input randomUUID => (create env jobs input randomUUID call.clock).map fun r => (none, r.2)
  | .update idOrName input => (update env jobs idOrName input call.clock).map fun r => (none, r.2)
  | .trigger idOrName now => (trigger jobs idOrName now).map fun r => (none, r.2)
  | .getDueJobs now => (getDueJobs env now call.clock jobs).map fun r => (none, r.2)
  | .claimDueJob id now => claimDueJob env jobs id now call.clock
  | .markRun id _ result => (markRun jobs id result call.clock).map fun r => (none, r.2)
  | .markDelivery id deliveryError =>
    (markDelivery jobs id deliveryError call.clock).map fun r => (none, r.2)
  | .resetStaleRunning timeoutMs now =>
    (resetStaleRunning env timeoutMs now jobs).map fun r => (none, r.2)

/-- The jobs file and the runs that are live. -/
structure Scheduler where
  jobs : List CronJob
  live : List LiveRun

/-- The live runs an operation does not end. -/
def StoreOp.others (op : StoreOp) (live : List LiveRun) : List LiveRun :=
  match op with
  | .markRun _ (some run) _ => live.erase run
  | _ => live

/-- The run an operation ends is live, and of the job it marks. -/
def StoreOp.EndsLive (op : StoreOp) (live : List LiveRun) : Prop :=
  ∀ id run result, op = .markRun id (some run) result → run ∈ live ∧ run.jobId = id

/-- The run a claim starts. -/
def StoreOp.started (op : StoreOp) (claimed : Option CronJob) : List LiveRun :=
  match op, claimed with
  | .claimDueJob _ now, some job => [{ jobId := job.id, claimedAt := now }]
  | _, _ => []

/-- One call; a call that throws changes nothing. -/
def Scheduler.Next (env : StoreEnv) (s : Scheduler) (call : StoreCall) (t : Scheduler) : Prop :=
  call.op.EndsLive s.live ∧
  match call.apply env s.jobs with
  | .ok (claimed, jobs) =>
    t = { jobs, live := call.op.others s.live ++ call.op.started claimed }
  | .error _ => t = s

variable {claimed : Option CronJob} {now : Time} {s : Scheduler} {next : CronJob}
variable {idOrName : String}

theorem Scheduler.Next.of_ok {env : StoreEnv} (s : Scheduler) (call : StoreCall)
    {jobs : List CronJob} (hended : call.op.EndsLive s.live)
    (h : call.apply env s.jobs = .ok (claimed, jobs)) :
    s.Next env call { jobs, live := call.op.others s.live ++ call.op.started claimed } :=
  ⟨hended, by rw [h]⟩

/-- The clock is not set back behind the claim of a live run, and the threshold of a
reset is longer than a live run has lasted. -/
def Scheduler.Timely (s : Scheduler) (call : StoreCall) : Prop :=
  ∀ run ∈ s.live, run.claimedAt ≤ call.clock ∧
    ∀ timeoutMs now, call.op = .resetStaleRunning timeoutMs now → now - run.claimedAt < timeoutMs

/-! ## Giving the token away -/

/-- The job an operation of a user or a `markRun` addresses. -/
def StoreOp.addressed (op : StoreOp) (jobs : List CronJob) : Option CronJob :=
  match op with
  | .update idOrName _ | .trigger idOrName _ => resolveJob jobs idOrName
  | .markRun id _ _ => resolveJob jobs id
  | _ => none

/-- Whether an operation leaves the job it addresses enabled and not running. -/
def StoreOp.rearms (op : StoreOp) (job : CronJob) : Bool :=
  match op with
  | .trigger _ _ => true
  | .update _ input =>
    match input.enabled with
    | some enabled => enabled
    | none => input.reschedules && job.enabled
  | .markRun _ _ _ => job.enabled && !job.reachesRunLimit
  | _ => false

/-- The call does not re-arm a job with a live run that it does not end. -/
def Scheduler.KeepsTokens (s : Scheduler) (call : StoreCall) : Prop :=
  ∀ job, call.op.addressed s.jobs = some job →
    (∃ run ∈ call.op.others s.live, run.jobId = job.id) → call.op.rearms job = false

def Scheduler.TimelyNext (env : StoreEnv) (s : Scheduler) (call : StoreCall) (t : Scheduler) :
    Prop :=
  s.Next env call t ∧ s.Timely call

/-- A call that keeps the tokens of the live runs, or throws. -/
def Scheduler.KeepingNext (env : StoreEnv) (s : Scheduler) (call : StoreCall) (t : Scheduler) :
    Prop :=
  s.TimelyNext env call t ∧ ((call.apply env s.jobs).isOk = true → s.KeepsTokens call)

/-! ## The invariant -/

/-- The job of a live run: it cannot be claimed, and it is not older than the run. -/
structure Holds (run : LiveRun) (job : CronJob) : Prop where
  id : job.id = run.jobId
  running : job.enabled = true → job.state = .running
  since : job.state = .running → run.claimedAt ≤ job.updatedAt

/-- Ids are distinct, runs are of distinct jobs, and every run's job holds its token. -/
structure Exclusive (s : Scheduler) : Prop where
  ids : (s.jobs.map CronJob.id).Nodup
  runs : (s.live.map LiveRun.jobId).Nodup
  held : ∀ run ∈ s.live, ∃ job ∈ s.jobs, Holds run job

theorem not_holds_of_due {job : CronJob} (h : (dueAt now job).isSome = true) (run : LiveRun) :
    ¬ Holds run job := by
  intro hheld
  unfold dueAt at h
  split at h
  · cases h
  · rename_i hnot
    simp only [Bool.or_eq_true, Bool.not_eq_true', beq_iff_eq, not_or, Bool.not_eq_false] at hnot
    exact hnot.2 (hheld.running hnot.1)

theorem Exclusive.of_jobs (hs : Exclusive s) {jobs : List CronJob} {live : List LiveRun}
    (hlive : live.Sublist s.live) (h : List.Forall₂ (fun job next => next.id = job.id ∧
      ∀ run ∈ live, Holds run job → Holds run next) s.jobs jobs) : Exclusive { jobs, live } := by
  have hids : ∀ {l m : List CronJob}, List.Forall₂ (fun job next => next.id = job.id ∧
      ∀ run ∈ live, Holds run job → Holds run next) l m → m.map CronJob.id = l.map CronJob.id := by
    intro l m hforall
    induction hforall with
    | nil => rfl
    | cons hjob _ ih => rw [List.map_cons, List.map_cons, hjob.1, ih]
  have hnext : ∀ {run : LiveRun} {job : CronJob} {l m : List CronJob}, run ∈ live → Holds run job →
      List.Forall₂ (fun job next => next.id = job.id ∧
        ∀ run ∈ live, Holds run job → Holds run next) l m → job ∈ l →
      ∃ next ∈ m, Holds run next := by
    intro run job l m hrun hheld hforall
    induction hforall with
    | nil => intro hmem; cases hmem
    | cons hab _ ih =>
      intro hmem
      rcases List.mem_cons.mp hmem with rfl | hmem
      · exact ⟨_, List.mem_cons_self, hab.2 run hrun hheld⟩
      · obtain ⟨next, hnext, hholds⟩ := ih hmem
        exact ⟨next, List.mem_cons_of_mem _ hnext, hholds⟩
  refine ⟨(hids h).symm ▸ hs.ids, hs.runs.sublist (hlive.map _), ?_⟩
  intro run hrun
  obtain ⟨job, hjob, hheld⟩ := hs.held run (hlive.subset hrun)
  exact hnext hrun hheld h hjob

theorem Exclusive.of_job (hs : Exclusive s) {pre post : List CronJob} {current : CronJob}
    (hjobs : s.jobs = pre ++ current :: post) {live : List LiveRun} (hlive : live.Sublist s.live)
    (hid : next.id = current.id) (hheld : ∀ run ∈ live, Holds run current → Holds run next) :
    Exclusive { jobs := pre ++ next :: post, live } := by
  apply hs.of_jobs hlive
  have hsame : ∀ l : List CronJob, List.Forall₂ (fun job next => next.id = job.id ∧
      ∀ run ∈ live, Holds run job → Holds run next) l l :=
    fun l => List.forall₂_same.mpr fun job _ => ⟨rfl, fun _ _ h => h⟩
  rw [hjobs]
  exact List.rel_append (hsame pre) (.cons ⟨hid, hheld⟩ (hsame post))

/-! ## The calls keep the invariant -/

theorem Exclusive.create (hs : Exclusive s) {env : StoreEnv} {input : CreateCronJobInput}
    {randomUUID : Uuid} {job : CronJob} {jobs : List CronJob}
    (h : create env s.jobs input randomUUID now = .ok (job, jobs)) :
    Exclusive { jobs, live := s.live } := by
  obtain ⟨rfl, hfresh⟩ := create_spec h
  refine ⟨?_, hs.runs, ?_⟩
  · rw [List.map_append]
    exact List.Nodup.append hs.ids (List.nodup_singleton _)
      (by rw [List.map_singleton, List.disjoint_singleton]; exact hfresh)
  · intro run hrun
    obtain ⟨job', hmem, hheld⟩ := hs.held run hrun
    exact ⟨job', List.mem_append_left _ hmem, hheld⟩

theorem Exclusive.modifyJob (hs : Exclusive s) {f : CronJob → Except String CronJob}
    {jobs : List CronJob} {live : List LiveRun} (hlive : live.Sublist s.live)
    (h : modifyJob s.jobs idOrName f = .ok (next, jobs))
    (hid : ∀ current next, f current = .ok next → next.id = current.id)
    (hheld : ∀ current, resolveJob s.jobs idOrName = some current → f current = .ok next →
      ∀ run ∈ live, Holds run current → Holds run next) : Exclusive { jobs, live } := by
  obtain ⟨pre, current, post, hjobs, hresolve, hf, rfl⟩ := modifyJob_spec h
  exact hs.of_job hjobs hlive (hid current next hf) (hheld current hresolve hf)

theorem Exclusive.update (hs : Exclusive s) {env : StoreEnv} {input : UpdateCronJobInput}
    {clock : Time} {jobs : List CronJob}
    (h : update env s.jobs idOrName input clock = .ok (next, jobs))
    (htime : ∀ run ∈ s.live, run.claimedAt ≤ clock)
    (hkeep : ∀ job, resolveJob s.jobs idOrName = some job →
      (∃ run ∈ s.live, run.jobId = job.id) →
      (StoreOp.update idOrName input).rearms job = false) : Exclusive { jobs, live := s.live } := by
  apply hs.modifyJob (List.Sublist.refl _) h
  · intro current next hf
    exact (updateJob_token hf).id
  · intro current hresolve hf run hrun hheld
    have htoken := updateJob_token hf
    have hnot := hkeep current hresolve ⟨run, hrun, hheld.id.symm⟩
    refine ⟨htoken.id.trans hheld.id, ?_, ?_⟩
    · intro henabled
      rw [htoken.enabled] at henabled
      rw [htoken.state]
      unfold StoreOp.rearms at hnot
      dsimp only at henabled hnot ⊢
      cases he : input.enabled with
      | some enabled =>
        rw [he] at henabled hnot
        dsimp only [Option.getD_some] at henabled hnot
        rw [henabled] at hnot; cases hnot
      | none =>
        rw [he] at henabled hnot
        dsimp only [Option.getD_none] at henabled hnot ⊢
        rw [henabled, Bool.and_true] at hnot
        rw [hnot]
        exact hheld.running henabled
    · intro _
      rw [htoken.updatedAt]
      exact htime run hrun

theorem Exclusive.trigger (hs : Exclusive s) {jobs : List CronJob}
    (h : trigger s.jobs idOrName now = .ok (next, jobs))
    (hkeep : ∀ job, resolveJob s.jobs idOrName = some job →
      ¬ ∃ run ∈ s.live, run.jobId = job.id) : Exclusive { jobs, live := s.live } := by
  apply hs.modifyJob (List.Sublist.refl _) h
  · intro current next hf
    cases hf; rfl
  · intro current hresolve _ run hrun hheld
    exact absurd ⟨run, hrun, hheld.id.symm⟩ (hkeep current hresolve)

theorem Exclusive.getDueJobs (hs : Exclusive s) {env : StoreEnv} {clock : Time}
    {due jobs : List CronJob} (h : getDueJobs env now clock s.jobs = .ok (due, jobs)) :
    Exclusive { jobs, live := s.live } := by
  apply hs.of_jobs (List.Sublist.refl _)
  apply (getDueJobs_spec h).imp
  intro job next hnext
  rcases hnext with rfl | ⟨hdue, hff⟩
  · exact ⟨rfl, fun _ _ hheld => hheld⟩
  · exact ⟨fastForward_id hff, fun run _ hheld => absurd hheld (not_holds_of_due hdue run)⟩

theorem Exclusive.claimed_free (hs : Exclusive s) {env : StoreEnv} {id : String} {clock : Time}
    {claimed : CronJob} {jobs : List CronJob}
    (h : claimDueJob env s.jobs id now clock = .ok (some claimed, jobs)) :
    ∀ run ∈ s.live, run.jobId ≠ claimed.id := by
  obtain ⟨pre, current, post, hjobs, -, hdue, hclaim, -⟩ := claimDueJob_some h
  intro run hrun he
  obtain ⟨job, hmem, hheld⟩ := hs.held run hrun
  -- the job of the run is the claimed one: ids are distinct
  have hcurrent : current ∈ s.jobs := by rw [hjobs]; simp
  have hjob : job = current := by
    apply List.inj_on_of_nodup_map hs.ids hmem hcurrent
    rw [hheld.id, he, (claimJob_ok hclaim).1]
  rw [hjob] at hheld
  exact not_holds_of_due hdue run hheld

theorem Exclusive.claimDueJob (hs : Exclusive s) {env : StoreEnv} {id : String} {clock : Time}
    {jobs : List CronJob} (h : claimDueJob env s.jobs id now clock = .ok (claimed, jobs)) :
    Exclusive { jobs, live := s.live ++ (StoreOp.claimDueJob id now).started claimed } := by
  cases claimed with
  | none =>
    show Exclusive { jobs, live := s.live ++ [] }
    rw [List.append_nil]
    rcases claimDueJob_none h with rfl | ⟨pre, current, post, next, hjobs, hdue, hff, rfl⟩
    · exact hs
    · exact hs.of_job hjobs (List.Sublist.refl _) (fastForward_id hff)
        fun run _ hheld => absurd hheld (not_holds_of_due hdue run)
  | some claimed =>
    show Exclusive { jobs, live := s.live ++ [{ jobId := claimed.id, claimedAt := now }] }
    have hfree := hs.claimed_free h
    obtain ⟨pre, current, post, hjobs, -, hdue, hclaim, rfl⟩ := claimDueJob_some h
    obtain ⟨hid, hstate, -, hupdated⟩ := claimJob_ok hclaim
    have hold : Exclusive { jobs := pre ++ claimed :: post, live := s.live } :=
      hs.of_job hjobs (List.Sublist.refl _) hid
        fun run _ hheld => absurd hheld (not_holds_of_due hdue run)
    refine ⟨hold.ids, ?_, ?_⟩
    · rw [List.map_append, List.map_singleton]
      apply List.Nodup.append hs.runs (List.nodup_singleton _)
      rw [List.disjoint_singleton]
      intro hmem
      obtain ⟨run, hrun, he⟩ := List.mem_map.mp hmem
      exact hfree run hrun he
    · intro run hrun
      rcases List.mem_append.mp hrun with hrun | hrun
      · exact hold.held run hrun
      · rw [List.mem_singleton.mp hrun]
        refine ⟨claimed, by simp, rfl, fun _ => hstate, fun _ => ?_⟩
        exact Int.le_of_eq hupdated.symm

theorem Exclusive.markRun (hs : Exclusive s) {id : String} {ended : Option LiveRun}
    {result : RunResult} {clock : Time} {jobs : List CronJob}
    (h : markRun s.jobs id result clock = .ok (next, jobs))
    (htime : ∀ run ∈ s.live, run.claimedAt ≤ clock)
    (hkeep : ∀ job, resolveJob s.jobs id = some job →
      (∃ run ∈ (StoreOp.markRun id ended result).others s.live, run.jobId = job.id) →
      (StoreOp.markRun id ended result).rearms job = false) :
    Exclusive { jobs, live := (StoreOp.markRun id ended result).others s.live } := by
  have hothers : ((StoreOp.markRun id ended result).others s.live).Sublist s.live := by
    cases ended with
    | none => exact List.Sublist.refl _
    | some run => exact List.erase_sublist
  apply hs.modifyJob hothers h
  · intro current next hf
    cases hf; rfl
  · intro current hresolve hf run hrun hheld
    have hnot := hkeep current hresolve ⟨run, hrun, hheld.id.symm⟩
    cases hf
    -- the job of a run that goes on is left disabled
    have henabled : (current.enabled && !current.reachesRunLimit) = false := hnot
    refine ⟨hheld.id, ?_, ?_⟩
    · intro he
      rw [show (markRunJob result clock current).enabled =
        (current.enabled && !current.reachesRunLimit) from rfl, henabled] at he
      cases he
    · intro _
      exact htime run (hothers.subset hrun)

theorem Exclusive.markDelivery (hs : Exclusive s) {id : String} {deliveryError : Option String}
    {clock : Time} {jobs : List CronJob}
    (h : markDelivery s.jobs id deliveryError clock = .ok (next, jobs))
    (htime : ∀ run ∈ s.live, run.claimedAt ≤ clock) : Exclusive { jobs, live := s.live } := by
  apply hs.modifyJob (List.Sublist.refl _) h
  · intro current next hf
    cases hf; rfl
  · intro current _ hf run hrun hheld
    cases hf
    exact ⟨hheld.id, hheld.running, fun _ => htime run hrun⟩

theorem Holds.not_stale {run : LiveRun} {job : CronJob} (h : Holds run job) {timeoutMs : Int}
    (htime : now - run.claimedAt < timeoutMs) : job.isStale timeoutMs now = false := by
  unfold CronJob.isStale
  cases hstate : job.state == .running with
  | false => rfl
  | true =>
    have hsince := h.since (by simpa using hstate)
    have hlt : now - job.updatedAt < timeoutMs :=
      Int.lt_of_le_of_lt (Int.sub_le_sub_left hsince now) htime
    rw [decide_eq_false (Int.not_le.mpr hlt)]
    rfl

theorem Exclusive.resetStaleRunning (hs : Exclusive s) {env : StoreEnv} {timeoutMs : Int}
    {count : Nat} {jobs : List CronJob}
    (h : resetStaleRunning env timeoutMs now s.jobs = .ok (count, jobs))
    (htime : ∀ run ∈ s.live, now - run.claimedAt < timeoutMs) :
    Exclusive { jobs, live := s.live } := by
  apply hs.of_jobs (List.Sublist.refl _)
  apply (resetStaleRunning_spec h).imp
  intro job next hnext
  rcases hnext with rfl | ⟨hstale, hreset⟩
  · exact ⟨rfl, fun _ _ hheld => hheld⟩
  · refine ⟨resetStaleJob_id hreset, ?_⟩
    intro run hrun hheld
    rw [hheld.not_stale (htime run hrun)] at hstale
    cases hstale

theorem map_ok {α : Type} {x : Except String (α × List CronJob)} {jobs : List CronJob}
    (h : x.map (fun r => ((none : Option CronJob), r.2)) = .ok (claimed, jobs)) :
    claimed = none ∧ ∃ a, x = .ok (a, jobs) := by
  cases x with
  | error e => cases h
  | ok r => cases h; exact ⟨rfl, r.1, rfl⟩

/-- A call that keeps the tokens keeps the invariant. -/
theorem Exclusive.step {env : StoreEnv} {t : Scheduler} {call : StoreCall}
    (h : s.KeepingNext env call t) (hs : Exclusive s) : Exclusive t := by
  obtain ⟨⟨⟨-, hnext⟩, htimely⟩, hkeep⟩ := h
  have htime : ∀ run ∈ s.live, run.claimedAt ≤ call.clock := fun run hrun => (htimely run hrun).1
  obtain ⟨op, clock⟩ := call
  cases happly : StoreCall.apply env s.jobs ⟨op, clock⟩ with
  | error e => rw [happly] at hnext; rw [hnext]; exact hs
  | ok result =>
    obtain ⟨claimed, jobs⟩ := result
    rw [happly] at hnext
    rw [hnext]
    replace hkeep := hkeep (by rw [happly]; rfl)
    unfold StoreCall.apply at happly
    cases op with
    | create input randomUUID =>
      obtain ⟨rfl, job, hcreate⟩ := map_ok happly
      simpa [StoreOp.others, StoreOp.started] using hs.create hcreate
    | update idOrName input =>
      obtain ⟨rfl, job, hupdate⟩ := map_ok happly
      simpa [StoreOp.others, StoreOp.started] using hs.update hupdate htime hkeep
    | trigger idOrName now =>
      obtain ⟨rfl, job, htrigger⟩ := map_ok happly
      have hfree : ∀ job, resolveJob s.jobs idOrName = some job →
          ¬ ∃ run ∈ s.live, run.jobId = job.id := by
        intro job hjob hrun
        cases hkeep job hjob hrun
      simpa [StoreOp.others, StoreOp.started] using hs.trigger htrigger hfree
    | getDueJobs now =>
      obtain ⟨rfl, due, hdue⟩ := map_ok happly
      simpa [StoreOp.others, StoreOp.started] using hs.getDueJobs hdue
    | claimDueJob id now => exact hs.claimDueJob happly
    | markRun id ended result =>
      obtain ⟨rfl, job, hmark⟩ := map_ok happly
      simpa [StoreOp.started] using hs.markRun hmark htime hkeep
    | markDelivery id deliveryError =>
      obtain ⟨rfl, job, hmark⟩ := map_ok happly
      simpa [StoreOp.others, StoreOp.started] using hs.markDelivery hmark htime
    | resetStaleRunning timeoutMs now =>
      obtain ⟨rfl, count, hreset⟩ := map_ok happly
      have hfresh : ∀ run ∈ s.live, now - run.claimedAt < timeoutMs :=
        fun run hrun => (htimely run hrun).2 timeoutMs now rfl
      simpa [StoreOp.others, StoreOp.started] using hs.resetStaleRunning hreset hfresh

/-! ## One run at a time -/

/-- No job has two runs, and no claim takes a job with a live run. -/
def Scheduler.OneRunAtATime (env : StoreEnv) (s : Scheduler) : Prop :=
  (s.live.map LiveRun.jobId).Nodup ∧
    ∀ id now clock claimed jobs, claimDueJob env s.jobs id now clock = .ok (some claimed, jobs) →
      ∀ run ∈ s.live, run.jobId ≠ claimed.id

/-! An hourly job from its creation on, with every parameter of the store switched off. -/

namespace HourlyExample

def env : StoreEnv where
  nextCronRun _ _ _ := .error "No upcoming run."
  parseDate _ := none
  isoText _ := ""
  isTimezone _ := false
  isUnsafePrompt _ := false
  toLowerCase := fun text => text
  cwd := "/"
  workingDirectory := []

def randomUUID : Uuid :=
  { text := "00000000-0000-4000-8000-000000000000", length_eq := by decide }

def job : CronJob where
  id := "job"
  name := "job"
  prompt := "run"
  schedule := "every 1h"
  scheduleDisplay := "every 1h"
  kind := .interval
  repeats := true
  repeatTimes := none
  completedRuns := none
  intervalMs := some 3600000
  cronExpression := none
  enabled := true
  state := .pending
  createdAt := 0
  updatedAt := 0
  nextRunAt := some 3600000
  lastRunAt := none
  lastStatus := none
  lastError := none
  lastDeliveryError := none
  lastOutputPath := none
  deliver := "local"
  origin := none
  script := none
  noAgent := false
  contextFrom := none
  skills := none
  tools := none
  workdir := none
  model := none
  timezone := none

/-- The job while it runs, claimed at `now`. -/
def running (now : Time) : CronJob :=
  { job with state := .running, nextRunAt := some (now + 3600000), updatedAt := now }

def creating : StoreCall :=
  { op := .create { name := "job", prompt := "run", schedule := "every 1h" } randomUUID, clock := 0 }

def claiming (now : Time) : StoreCall := { op := .claimDueJob "job" now, clock := now }

def succeeded : RunResult :=
  { status := .success, outputPath := none, error := none, ranAt := none }

def ending (run : LiveRun) (now : Time) : StoreCall :=
  { op := .markRun run.jobId (some run) succeeded, clock := now }

def triggering (now : Time) : StoreCall := { op := .trigger "job" now, clock := now }

theorem parsed : parseSchedule env.toScheduleEnv "every 1h" none none 0 =
    .ok { kind := .interval, schedule := "every 1h", scheduleDisplay := "every 1h"
          repeats := true, nextRunAt := 3600000, intervalMs := some 3600000
          cronExpression := none } := by
  have hraw : jsTrim "every 1h" = "every 1h" := by decide
  have hafter : afterWord "every" "every 1h".toList = some ['1', 'h'] := by decide
  have hlower : "h".map Char.toLower = "h" := by
    apply String.toList_inj.mp
    rw [String.toList_map]
    decide
  have hunit : unitToMs "h" = some 3600000 := by
    unfold unitToMs
    rw [hlower]
    decide
  have hmatch : matchDuration ['1', 'h'] = some ("1", "h", 3600000) := by
    have htext : String.ofList ((['1', 'h'].dropWhile Char.isDigit).dropWhile isJsSpace) = "h" := by
      decide
    unfold matchDuration
    rw [htext]
    dsimp only
    rw [hunit]
    decide
  have hfinite : ¬ maxFinite ≤ 1 := by decide +kernel
  have hms : durationToMs "1" 3600000 = .ok 3600000 := by
    have hvalue : digitsValue "1" = 1 := by decide
    unfold durationToMs
    rw [hvalue, if_neg (by simp [hfinite])]
  unfold parseSchedule
  rw [hraw, if_neg (by decide), hafter, Option.bind_some, hmatch]
  show parseEvery "every 1h" "1" 3600000 0 = _
  unfold parseEvery
  rw [hms]
  rfl

theorem created : create env [] { name := "job", prompt := "run", schedule := "every 1h" }
    randomUUID 0 = .ok (job, [job]) := by
  have hname : normalizeName "job" = .ok "job" := rfl
  have hprompt : normalizePrompt "run" = .ok "run" := rfl
  unfold create createJob
  rw [hname, hprompt]
  show (parseSchedule env.toScheduleEnv "every 1h" none none 0 >>= _) >>= _ = _
  rw [parsed]
  rfl

theorem creating_next :
    Scheduler.TimelyNext env { jobs := [], live := [] } creating { jobs := [job], live := [] } := by
  have happly : creating.apply env [] = .ok (none, [job]) := by
    show (create env [] { name := "job", prompt := "run", schedule := "every 1h" }
      randomUUID 0).map _ = _
    rw [created]
    rfl
  refine ⟨?_, fun _ h => absurd h List.not_mem_nil⟩
  exact Scheduler.Next.of_ok { jobs := [], live := [] } creating (fun _ _ _ h => by cases h) happly

theorem claiming_next :
    Scheduler.TimelyNext env { jobs := [job], live := [] } (claiming 3600000)
      { jobs := [running 3600000], live := [{ jobId := "job", claimedAt := 3600000 }] } := by
  have happly : (claiming 3600000).apply env [job] =
      .ok (some (running 3600000), [running 3600000]) := rfl
  refine ⟨?_, fun _ h => absurd h List.not_mem_nil⟩
  exact Scheduler.Next.of_ok { jobs := [job], live := [] } (claiming 3600000)
    (fun _ _ _ h => by cases h) happly

end HourlyExample

/-- While no call gives the token of a live run away, a job has one run at a time. -/
theorem one_run_at_a_time (env : StoreEnv) (jobs : List CronJob)
    (hids : (jobs.map CronJob.id).Nodup) (calls : List StoreCall) (t : Scheduler)
    (h : Run (Scheduler.KeepingNext env) { jobs, live := [] } calls t) : t.OneRunAtATime env := by
  have hstart : Exclusive { jobs, live := [] } :=
    ⟨hids, List.nodup_nil, fun _ hrun => absurd hrun List.not_mem_nil⟩
  have ht := h.invariant hstart fun _ _ _ hnext hs => hs.step hnext
  exact ⟨ht.runs, fun _ _ _ _ _ hclaim => ht.claimed_free hclaim⟩

/-- Created, claimed, ended and claimed again. -/
theorem one_run_at_a_time_example :
    let run : LiveRun := { jobId := "job", claimedAt := 3600000 }
    ∃ t, Run (Scheduler.KeepingNext HourlyExample.env) { jobs := [], live := [] }
        [HourlyExample.creating, HourlyExample.claiming 3600000, HourlyExample.ending run 3660000,
          HourlyExample.claiming 7200000] t ∧
      t.live = [{ jobId := "job", claimedAt := 7200000 }] ∧
      t.OneRunAtATime HourlyExample.env := by
  intro run
  let ended : CronJob := markRunJob HourlyExample.succeeded 3660000 (HourlyExample.running 3600000)
  let again : CronJob :=
    { ended with state := .running, nextRunAt := some 10800000, updatedAt := 7200000 }
  have hended : (HourlyExample.ending run 3660000).apply HourlyExample.env
      [HourlyExample.running 3600000] = .ok (none, [ended]) := rfl
  have hagain : (HourlyExample.claiming 7200000).apply HourlyExample.env [ended] =
      .ok (some again, [again]) := rfl
  have hrun : Run (Scheduler.KeepingNext HourlyExample.env) { jobs := [], live := [] }
      [HourlyExample.creating, HourlyExample.claiming 3600000, HourlyExample.ending run 3660000,
        HourlyExample.claiming 7200000]
      { jobs := [again], live := [{ jobId := "job", claimedAt := 7200000 }] } := by
    apply Run.cons ⟨HourlyExample.creating_next, fun _ _ h => by cases h⟩
    apply Run.cons ⟨HourlyExample.claiming_next, fun _ _ h => by cases h⟩
    apply Run.cons (t := { jobs := [ended], live := [] })
    · refine ⟨⟨Scheduler.Next.of_ok _ (HourlyExample.ending run 3660000) ?_ hended, ?_⟩, ?_⟩
      · intro _ _ _ h
        cases h
        exact ⟨List.mem_singleton_self _, rfl⟩
      · intro other hother
        rw [List.mem_singleton.mp hother]
        exact ⟨by decide, fun _ _ h => by cases h⟩
      · intro _ _ _ hother
        obtain ⟨other, hother, -⟩ := hother
        exact absurd hother List.not_mem_nil
    · apply Run.single
      refine ⟨⟨Scheduler.Next.of_ok { jobs := [ended], live := [] }
        (HourlyExample.claiming 7200000) (fun _ _ _ h => by cases h) hagain, ?_⟩, fun _ _ h => by cases h⟩
      exact fun _ h => absurd h List.not_mem_nil
  refine ⟨_, hrun, rfl, ?_⟩
  exact one_run_at_a_time HourlyExample.env [] List.nodup_nil _ _ hrun

/-! ## A trigger during the run -/

/-- A job triggered during its run is claimed again: it has two live runs. -/
theorem triggered_twice :
    ∃ t, Run (Scheduler.TimelyNext HourlyExample.env) { jobs := [], live := [] }
        [HourlyExample.creating, HourlyExample.claiming 3600000, HourlyExample.triggering 3600001,
          HourlyExample.claiming 3600001] t ∧
      t.live = [{ jobId := "job", claimedAt := 3600000 },
        { jobId := "job", claimedAt := 3600001 }] ∧
      ¬ t.OneRunAtATime HourlyExample.env := by
  let triggered : CronJob := triggerJob 3600001 (HourlyExample.running 3600000)
  have htriggered : (HourlyExample.triggering 3600001).apply HourlyExample.env
      [HourlyExample.running 3600000] = .ok (none, [triggered]) := rfl
  have hclaimed : (HourlyExample.claiming 3600001).apply HourlyExample.env [triggered] =
      .ok (some (HourlyExample.running 3600001), [HourlyExample.running 3600001]) := rfl
  have htimely : ∀ jobs : List CronJob, ∀ call : StoreCall, call.clock = 3600001 →
      (∀ timeoutMs now, call.op ≠ .resetStaleRunning timeoutMs now) →
      Scheduler.Timely { jobs, live := [{ jobId := "job", claimedAt := 3600000 }] } call := by
    intro jobs call hclock hop run hrun
    rw [List.mem_singleton.mp hrun, hclock]
    exact ⟨by decide, fun timeoutMs now h => absurd h (hop timeoutMs now)⟩
  have hrun : Run (Scheduler.TimelyNext HourlyExample.env) { jobs := [], live := [] }
      [HourlyExample.creating, HourlyExample.claiming 3600000, HourlyExample.triggering 3600001,
        HourlyExample.claiming 3600001]
      { jobs := [HourlyExample.running 3600001]
        live := [{ jobId := "job", claimedAt := 3600000 },
          { jobId := "job", claimedAt := 3600001 }] } := by
    apply Run.cons HourlyExample.creating_next
    apply Run.cons HourlyExample.claiming_next
    apply Run.cons (t := { jobs := [triggered], live := [{ jobId := "job", claimedAt := 3600000 }] })
    · exact ⟨Scheduler.Next.of_ok _ (HourlyExample.triggering 3600001)
        (fun _ _ _ h => by cases h) htriggered,
        htimely _ _ rfl fun _ _ h => by cases h⟩
    · apply Run.single
      exact ⟨Scheduler.Next.of_ok
        { jobs := [triggered], live := [{ jobId := "job", claimedAt := 3600000 }] }
        (HourlyExample.claiming 3600001) (fun _ _ _ h => by cases h) hclaimed,
        htimely _ _ rfl fun _ _ h => by cases h⟩
  refine ⟨_, hrun, rfl, ?_⟩
  intro hone
  exact absurd hone.1 (by decide)

end PieLab

import PieLab.Scheduler.JobIds
import PieLab.Scheduler.Staleness

/-
  Run limits

  What limits the runs of a job is spread over its fields: a job that runs once is
  disabled by its claim, a limited one by the `markRun` that counts its last run,
  a paused one by the user. The scheduler's own calls never enable a job.

  A limited job is counted when a run ends and not when it is claimed. A run that
  `resetStaleRunning` has given up may still end, and is then counted beside the
  run claimed in its place.

  What is proved:
    1. `findJob_next` — what a call of the scheduler can do to one job.
    2. `Capped.step`, `Limited.step` — the invariants, one step at a time.
    3. `run_limits` — over whole runs of the scheduler, the count of a limited job
       as long as every run ends while its job is running.
    4. `limit_exceeded` — a run that ends late.
-/

namespace PieLab

open Lib

/-! ## The lists the store writes -/

variable {jobs jobs' pre post : List CronJob} {j : CronJob} {id : String} {now : Time}

theorem ids_of_forall₂ {R : CronJob → CronJob → Prop}
    (hR : ∀ job next, R job next → next.id = job.id) (h : List.Forall₂ R jobs jobs') :
    jobs'.map CronJob.id = jobs.map CronJob.id := by
  induction h with
  | nil => rfl
  | cons hjob _ ih => rw [List.map_cons, List.map_cons, hR _ _ hjob, ih]

theorem ids_of_modifyJob {idOrName : String} {f : CronJob → Except String CronJob} {next : CronJob}
    (h : modifyJob jobs idOrName f = .ok (next, jobs'))
    (hf : ∀ current, f current = .ok next → next.id = current.id) :
    jobs'.map CronJob.id = jobs.map CronJob.id := by
  obtain ⟨pre, current, post, rfl, -, hnext, rfl⟩ := modifyJob_spec h
  rw [List.map_append, List.map_append, List.map_cons, List.map_cons, hf current hnext]

theorem ids_of_apply {env : StoreEnv} {call : StoreCall} {claimed : Option CronJob}
    (h : call.apply env jobs = .ok (claimed, jobs')) :
    jobs'.map CronJob.id = jobs.map CronJob.id ∨
      ∃ job, jobs' = jobs ++ [job] ∧ job.id ∉ jobs.map CronJob.id := by
  obtain ⟨op, clock⟩ := call
  unfold StoreCall.apply at h
  cases op with
  | create input randomUUID =>
    obtain ⟨-, job, hcreate⟩ := map_ok h
    exact .inr ⟨job, create_spec hcreate⟩
  | update idOrName input =>
    obtain ⟨-, next, hupdate⟩ := map_ok h
    exact .inl (ids_of_modifyJob hupdate fun _ hf => (updateJob_token hf).id)
  | trigger idOrName now =>
    obtain ⟨-, next, htrigger⟩ := map_ok h
    exact .inl (ids_of_modifyJob htrigger fun _ hf => by cases hf; rfl)
  | getDueJobs now =>
    obtain ⟨-, due, hdue⟩ := map_ok h
    apply Or.inl (ids_of_forall₂ _ (getDueJobs_spec hdue))
    intro job next hnext
    rcases hnext with rfl | ⟨-, hff⟩
    · rfl
    · exact fastForward_id hff
  | claimDueJob id now =>
    left
    cases claimed with
    | none =>
      rcases claimDueJob_none h with rfl | ⟨pre, current, post, next, rfl, -, hff, rfl⟩
      · rfl
      · rw [List.map_append, List.map_append, List.map_cons, List.map_cons, fastForward_id hff]
    | some claimed =>
      obtain ⟨pre, current, post, rfl, -, -, hclaim, rfl⟩ := claimDueJob_some h
      rw [List.map_append, List.map_append, List.map_cons, List.map_cons, (claimJob_ok hclaim).1]
  | markRun id ended result | markDelivery id deliveryError =>
    obtain ⟨-, next, hmark⟩ := map_ok h
    exact .inl (ids_of_modifyJob hmark fun _ hf => by cases hf; rfl)
  | resetStaleRunning timeoutMs now =>
    obtain ⟨-, count, hreset⟩ := map_ok h
    apply Or.inl (ids_of_forall₂ _ (resetStaleRunning_spec hreset))
    intro job next hnext
    rcases hnext with rfl | ⟨-, hjob⟩
    · rfl
    · exact resetStaleJob_id hjob

/-- A list the store can have written: any calls and removes from the empty file on. -/
inductive Written (env : StoreEnv) : List CronJob → Prop where
  | empty : Written env []
  | call {jobs jobs' : List CronJob} {call : StoreCall} {claimed : Option CronJob}
      (before : Written env jobs) (h : call.apply env jobs = .ok (claimed, jobs')) :
      Written env jobs'
  | remove {jobs jobs' : List CronJob} {idOrName : String} {removed : CronJob}
      (before : Written env jobs) (h : remove jobs idOrName = .ok (removed, jobs')) :
      Written env jobs'

theorem Written.ids {env : StoreEnv} (h : Written env jobs) : (jobs.map CronJob.id).Nodup := by
  induction h with
  | empty => exact List.nodup_nil
  | call _ happly ih =>
    rcases ids_of_apply happly with hsame | ⟨job, rfl, hfresh⟩
    · rw [hsame]; exact ih
    · rw [List.map_append, List.map_singleton]
      exact List.Nodup.append ih (List.nodup_singleton _)
        (by rw [List.disjoint_singleton]; exact hfresh)
  | remove _ hremove ih =>
    obtain ⟨pre, post, rfl, rfl⟩ := remove_spec hremove
    apply List.Nodup.sublist _ ih
    apply List.Sublist.map
    exact List.Sublist.append_left (List.sublist_cons_self _ _) pre

/-! ## One job in the list -/

theorem findJob_middle (hpre : ∀ k ∈ pre, k.id ≠ j.id) :
    findJob j.id (pre ++ j :: post) = some j := by
  have hnone : pre.find? (fun k => k.id == j.id) = none := by
    rw [List.find?_eq_none]
    intro k hk
    simpa using hpre k hk
  unfold findJob
  rw [List.find?_append, hnone, Option.none_or, List.find?_cons_of_pos (by simp)]

theorem findJob_replace (id : String) {current : CronJob} (next : CronJob)
    (hids : ((pre ++ current :: post).map CronJob.id).Nodup) (hid : next.id = current.id) :
    findJob id (pre ++ next :: post) =
      if current.id = id then some next else findJob id (pre ++ current :: post) := by
  have hpre : ∀ k ∈ pre, k.id ≠ next.id := by rw [hid]; exact ids_apart hids
  split
  · rename_i he
    rw [← he, ← hid]
    exact findJob_middle hpre
  · rename_i hne
    unfold findJob
    have hnext : next.id ≠ id := by rw [hid]; exact hne
    rw [List.find?_append, List.find?_append, List.find?_cons_of_neg (by simpa using hnext),
      List.find?_cons_of_neg (by simpa using hne)]

theorem findJob_current {current : CronJob} (hids : ((pre ++ current :: post).map CronJob.id).Nodup)
    (hj : findJob id (pre ++ current :: post) = some j) (hid : current.id = id) : current = j := by
  rw [← hid, findJob_middle (ids_apart hids)] at hj
  exact Option.some.inj hj

theorem findJob_forall₂ {R : CronJob → CronJob → Prop}
    (hid : ∀ job next, R job next → next.id = job.id) (h : List.Forall₂ R jobs jobs')
    (hj : findJob id jobs = some j) : ∃ next, findJob id jobs' = some next ∧ R j next := by
  unfold findJob at hj ⊢
  induction h with
  | nil => cases hj
  | @cons job next _ _ hjob _ ih =>
    by_cases he : job.id = id
    · rw [List.find?_cons_of_pos (by simpa using he)] at hj
      cases hj
      have hnext : next.id = id := by rw [hid _ _ hjob, he]
      exact ⟨next, List.find?_cons_of_pos (by simpa using hnext), hjob⟩
    · have hnext : next.id ≠ id := by rw [hid _ _ hjob]; exact he
      rw [List.find?_cons_of_neg (by simpa using he)] at hj
      obtain ⟨found, hfound, hR⟩ := ih hj
      exact ⟨found, by rw [List.find?_cons_of_neg (by simpa using hnext), hfound], hR⟩

/-! ## What the scheduler can do to a job -/

/-- The calls of the scheduler; a `markRun` is of a claimed run. -/
def StoreOp.byScheduler : StoreOp → Bool
  | .getDueJobs _ | .claimDueJob _ _ | .markRun _ (some _) _ | .markDelivery _ _
  | .resetStaleRunning _ _ => true
  | _ => false

/-- Nothing that limits the runs changes, and the job is not set running. -/
structure Quiet (j next : CronJob) : Prop where
  enabled : next.enabled = j.enabled
  repeats : next.repeats = j.repeats
  repeatTimes : next.repeatTimes = j.repeatTimes
  completedRuns : next.completedRuns = j.completedRuns
  running : next.state = .running → j.state = .running

theorem Quiet.refl (j : CronJob) : Quiet j j := ⟨rfl, rfl, rfl, rfl, id⟩

theorem fastForward_quiet {env : StoreEnv} {next : CronJob} (h : fastForward env now j = .ok next) :
    Quiet j next := by
  unfold fastForward at h
  split at h
  · obtain ⟨nextRunAt, -, h⟩ := Except.bind_ok h
    cases h; exact ⟨rfl, rfl, rfl, rfl, id⟩
  · cases h; exact Quiet.refl _

theorem resetStaleJob_quiet {env : StoreEnv} {timeoutMs : Int} {next : CronJob}
    (h : resetStaleJob env timeoutMs now j = .ok next) : Quiet j next := by
  obtain ⟨nextRunAt, -, h⟩ := Except.bind_ok h
  cases h
  refine ⟨rfl, rfl, rfl, rfl, ?_⟩
  intro hstate
  dsimp only at hstate
  split at hstate
  · cases hstate
  · cases hstate

/-- The job a `markRun` writes. -/
def StoreOp.marks (op : StoreOp) (jobs : List CronJob) : Option CronJob :=
  match op with
  | .markRun id _ _ => resolveJob jobs id
  | _ => none

/-- What becomes of the job `j` with the id in a call of the scheduler. -/
inductive Evolves (env : StoreEnv) (id : String) (jobs : List CronJob) (call : StoreCall)
    (claimed : Option CronJob) (j : CronJob) : CronJob → Prop where
  | quiet {next : CronJob} (hclaimed : ∀ job, claimed = some job → job.id ≠ id)
      (hmarks : ∀ job, call.op.marks jobs = some job → job.id ≠ id) (h : Quiet j next) :
      Evolves env id jobs call claimed j next
  | claimed {next : CronJob} {runId : String} {now : Time} (hop : call.op = .claimDueJob runId now)
      (hclaimed : claimed = some next) (hid : next.id = id) (hdue : (dueAt now j).isSome = true)
      (h : claimJob env now j = .ok next) : Evolves env id jobs call claimed j next
  | marked {runId : String} {ended : Option LiveRun} {result : RunResult}
      (hop : call.op = .markRun runId ended result) (hclaimed : claimed = none)
      (h : resolveJob jobs runId = some j) :
      Evolves env id jobs call claimed j (markRunJob result call.clock j)

/-- A call of the scheduler does to a job one of three things. -/
theorem findJob_next {env : StoreEnv} {call : StoreCall} {claimed : Option CronJob}
    (hids : (jobs.map CronJob.id).Nodup) (hop : call.op.byScheduler = true)
    (h : call.apply env jobs = .ok (claimed, jobs')) (hj : findJob id jobs = some j) :
    ∃ next, findJob id jobs' = some next ∧ Evolves env id jobs call claimed j next := by
  obtain ⟨op, clock⟩ := call
  unfold StoreCall.apply at h
  cases op with
  | create input randomUUID => cases hop
  | update idOrName input => cases hop
  | trigger idOrName now => cases hop
  | getDueJobs now =>
    obtain ⟨rfl, due, hdue⟩ := map_ok h
    have hquiet : List.Forall₂ (fun job next => next.id = job.id ∧ Quiet job next) jobs jobs' := by
      apply (getDueJobs_spec hdue).imp
      intro job next hnext
      rcases hnext with rfl | ⟨-, hff⟩
      · exact ⟨rfl, Quiet.refl _⟩
      · exact ⟨fastForward_id hff, fastForward_quiet hff⟩
    obtain ⟨next, hnext, -, hq⟩ := findJob_forall₂ (fun _ _ h => h.1) hquiet hj
    exact ⟨next, hnext, .quiet (fun _ h => by cases h) (fun _ h => by cases h) hq⟩
  | claimDueJob runId now =>
    cases claimed with
    | none =>
      rcases claimDueJob_none h with rfl | ⟨pre, current, post, next, rfl, -, hff, rfl⟩
      · exact ⟨j, hj, .quiet (fun _ h => by cases h) (fun _ h => by cases h) (Quiet.refl j)⟩
      · have hfound := findJob_replace id next hids (fastForward_id hff)
        split at hfound
        · rename_i he
          obtain rfl := findJob_current hids hj he
          exact ⟨next, hfound, .quiet (fun _ h => by cases h) (fun _ h => by cases h)
            (fastForward_quiet hff)⟩
        · exact ⟨j, hfound.trans hj, .quiet (fun _ h => by cases h) (fun _ h => by cases h)
            (Quiet.refl j)⟩
    | some job =>
      obtain ⟨pre, current, post, rfl, -, hdue, hclaim, rfl⟩ := claimDueJob_some h
      have hid := (claimJob_ok hclaim).1
      have hfound := findJob_replace id job hids hid
      split at hfound
      · rename_i he
        obtain rfl := findJob_current hids hj he
        exact ⟨job, hfound, .claimed rfl rfl (hid.trans he) hdue hclaim⟩
      · rename_i hne
        refine ⟨j, hfound.trans hj, .quiet ?_ (fun _ h => by cases h) (Quiet.refl j)⟩
        intro job' hjob'
        cases hjob'
        rw [hid]
        exact hne
  | markRun runId ended result =>
    obtain ⟨rfl, next, hmark⟩ := map_ok h
    obtain ⟨pre, current, post, rfl, hresolve, hnext, rfl⟩ := modifyJob_spec hmark
    cases hnext
    have hfound := findJob_replace id (markRunJob result clock current) hids rfl
    split at hfound
    · rename_i he
      obtain rfl := findJob_current hids hj he
      exact ⟨_, hfound, .marked rfl rfl hresolve⟩
    · rename_i hne
      refine ⟨j, hfound.trans hj, .quiet (fun _ h => by cases h) ?_ (Quiet.refl j)⟩
      intro job hjob
      have hsame : some current = some job := hresolve.symm.trans hjob
      cases hsame
      exact hne
  | markDelivery runId deliveryError =>
    obtain ⟨rfl, next, hmark⟩ := map_ok h
    obtain ⟨pre, current, post, rfl, -, hnext, rfl⟩ := modifyJob_spec hmark
    cases hnext
    have hfound := findJob_replace id (markDeliveryJob deliveryError clock current) hids rfl
    split at hfound
    · rename_i he
      obtain rfl := findJob_current hids hj he
      exact ⟨_, hfound, .quiet (fun _ h => by cases h) (fun _ h => by cases h)
        ⟨rfl, rfl, rfl, rfl, fun h => h⟩⟩
    · exact ⟨j, hfound.trans hj, .quiet (fun _ h => by cases h) (fun _ h => by cases h)
        (Quiet.refl j)⟩
  | resetStaleRunning timeoutMs now =>
    obtain ⟨rfl, count, hreset⟩ := map_ok h
    have hquiet : List.Forall₂ (fun job next => next.id = job.id ∧ Quiet job next) jobs jobs' := by
      apply (resetStaleRunning_spec hreset).imp
      intro job next hnext
      rcases hnext with rfl | ⟨-, hjob⟩
      · exact ⟨rfl, Quiet.refl _⟩
      · exact ⟨resetStaleJob_id hjob, resetStaleJob_quiet hjob⟩
    obtain ⟨next, hnext, -, hq⟩ := findJob_forall₂ (fun _ _ h => h.1) hquiet hj
    exact ⟨next, hnext, .quiet (fun _ h => by cases h) (fun _ h => by cases h) hq⟩

/-! ## Counting -/

/-- The jobs and the live runs, with how often the job with the id was claimed and how
many of its runs were marked. -/
structure Watched extends Scheduler where
  claims : Nat
  records : Nat

def watch (jobs : List CronJob) (live : List LiveRun) : Watched :=
  { jobs, live, claims := 0, records := 0 }

def StoreCall.claimsOf (env : StoreEnv) (id : String) (jobs : List CronJob) (call : StoreCall) :
    Nat :=
  match call.apply env jobs with
  | .ok (some job, _) => if job.id = id then 1 else 0
  | _ => 0

def StoreCall.recordsOf (env : StoreEnv) (id : String) (jobs : List CronJob) (call : StoreCall) :
    Nat :=
  match call.op, call.apply env jobs with
  | .markRun runId _ _, .ok _ => if runId = id then 1 else 0
  | _, _ => 0

/-- One call of the scheduler; a call that throws changes nothing. -/
def Watched.Next (env : StoreEnv) (id : String) (w : Watched) (call : StoreCall) (w' : Watched) :
    Prop :=
  call.op.byScheduler = true ∧ w.toScheduler.Next env call w'.toScheduler ∧
    w'.claims = w.claims + call.claimsOf env id w.jobs ∧
    w'.records = w.records + call.recordsOf env id w.jobs

/-- A `markRun` for the job with the id finds this job, which is running, and one for
another job does not find it. -/
def Watched.InTime (id : String) (w : Watched) (call : StoreCall) : Prop :=
  ∀ runId ended result, call.op = .markRun runId ended result →
    ∀ current, resolveJob w.jobs runId = some current →
      (runId = id ↔ current.id = id) ∧ (runId = id → current.state = .running)

def Watched.InTimeNext (env : StoreEnv) (id : String) (w : Watched) (call : StoreCall)
    (w' : Watched) : Prop :=
  w.Next env id call w' ∧ w.InTime id call

/-- What a step does to the job and the counts. -/
inductive Watched.Change (env : StoreEnv) (id : String) (w : Watched) (call : StoreCall)
    (w' : Watched) (j : CronJob) : CronJob → Prop where
  | quiet {next : CronJob} (hclaims : w'.claims = w.claims)
      (hrecords : w.InTime id call → w'.records = w.records) (h : Quiet j next) :
      Change env id w call w' j next
  | claimed {next : CronJob} {now : Time} (hclaims : w'.claims = w.claims + 1)
      (hrecords : w'.records = w.records) (hdue : (dueAt now j).isSome = true)
      (h : claimJob env now j = .ok next) : Change env id w call w' j next
  | marked {result : RunResult} {now : Time} (hclaims : w'.claims = w.claims)
      (hrecords : w.InTime id call → w'.records = w.records + 1 ∧ j.state = .running) :
      Change env id w call w' j (markRunJob result now j)

theorem findJob_id (h : findJob id jobs = some j) : j.id = id := by
  simpa using List.find?_some h

theorem apply_markRun {env : StoreEnv} {call : StoreCall} {claimed : Option CronJob}
    {runId : String} {ended : Option LiveRun} {result : RunResult}
    (hop : call.op = .markRun runId ended result) (h : call.apply env jobs = .ok (claimed, jobs')) :
    ∃ current, resolveJob jobs runId = some current := by
  unfold StoreCall.apply at h
  rw [hop] at h
  obtain ⟨-, next, hmark⟩ := map_ok h
  obtain ⟨pre, current, post, -, hresolve, -, -⟩ := modifyJob_spec hmark
  exact ⟨current, hresolve⟩

variable {w w' : Watched}

theorem Watched.Next.change {env : StoreEnv} {call : StoreCall} (h : w.Next env id call w')
    (hids : (w.jobs.map CronJob.id).Nodup) (hj : findJob id w.jobs = some j) :
    (w'.jobs.map CronJob.id).Nodup ∧
      ∃ next, findJob id w'.jobs = some next ∧ w.Change env id call w' j next := by
  obtain ⟨hop, ⟨-, hjobs⟩, hclaims, hrecords⟩ := h
  unfold StoreCall.claimsOf at hclaims
  unfold StoreCall.recordsOf at hrecords
  cases happly : call.apply env w.jobs with
  | error e =>
    simp only [happly] at hjobs hclaims hrecords
    have hsame : w'.jobs = w.jobs := congrArg Scheduler.jobs hjobs
    rw [hsame]
    refine ⟨hids, j, hj, .quiet hclaims (fun _ => ?_) (Quiet.refl j)⟩
    rw [hrecords]
    split
    · rename_i heq; cases heq
    · rfl
  | ok result =>
    obtain ⟨claimed, jobs'⟩ := result
    simp only [happly] at hjobs hclaims hrecords
    have hsame : w'.jobs = jobs' := congrArg Scheduler.jobs hjobs
    rw [hsame]
    constructor
    · rcases ids_of_apply happly with hkept | ⟨job, rfl, hfresh⟩
      · rw [hkept]; exact hids
      · rw [List.map_append, List.map_singleton]
        exact List.Nodup.append hids (List.nodup_singleton _)
          (by rw [List.disjoint_singleton]; exact hfresh)
    · obtain ⟨next, hnext, hevolves⟩ := findJob_next hids hop happly hj
      refine ⟨next, hnext, ?_⟩
      cases hevolves with
      | quiet hclaimed hmarks hquiet =>
        apply Watched.Change.quiet _ _ hquiet
        · rw [hclaims]
          cases claimed with
          | none => rfl
          | some job => simp [hclaimed job rfl]
        · intro hintime
          rw [hrecords]
          split
          · rename_i runId ended result _ hmark _
            obtain ⟨current, hresolve⟩ := apply_markRun hmark happly
            have hother : current.id ≠ id := hmarks current (by rw [hmark]; exact hresolve)
            have hrun : runId ≠ id :=
              fun he => hother ((hintime runId ended result hmark current hresolve).1.1 he)
            rw [if_neg hrun, Nat.add_zero]
          · rfl
      | claimed hcall hclaimed hid hdue hclaim =>
        apply Watched.Change.claimed _ _ hdue hclaim
        · rw [hclaims, hclaimed]
          simp [hid]
        · rw [hrecords, hcall]
          rfl
      | marked hmark hclaimed hresolve =>
        apply Watched.Change.marked
        · rw [hclaims, hclaimed]
          rfl
        · intro hintime
          obtain ⟨hiff, hrunning⟩ := hintime _ _ _ hmark j hresolve
          have hrun := hiff.2 (findJob_id hj)
          refine ⟨?_, hrunning hrun⟩
          rw [hrecords, hmark]
          simp [hrun]

/-! ## The invariants -/

theorem dueAt_isSome {job : CronJob} (h : (dueAt now job).isSome = true) :
    job.enabled = true ∧ job.state ≠ .running := by
  unfold dueAt at h
  split at h
  · cases h
  · rename_i hnot
    simpa using hnot

theorem claimJob_limits {env : StoreEnv} {job claimed : CronJob}
    (h : claimJob env now job = .ok claimed) :
    claimed.repeats = job.repeats ∧ claimed.repeatTimes = job.repeatTimes ∧
      claimed.completedRuns = job.completedRuns := by
  obtain ⟨nextRunAt, -, h⟩ := Except.bind_ok h
  cases h
  exact ⟨rfl, rfl, rfl⟩

/-- The job can be claimed once more only while fewer than `limit` claims are made. -/
structure Capped (limit claims : Nat) (j : CronJob) : Prop where
  once : limit = 0 ∨ j.repeats = false
  room : claims + j.enabled.toNat ≤ limit

/-- A limited job that is enabled or running has a run left. -/
structure Limited (n records : Nat) (j : CronJob) : Prop where
  limit : j.repeatTimes = some n
  count : j.completedRuns.getD 0 = records
  most : records ≤ n
  enabled : j.enabled = true → records < n
  running : j.state = .running → records < n

theorem Capped.step {env : StoreEnv} {call : StoreCall} {limit : Nat} {next : CronJob}
    (hj : Capped limit w.claims j) (h : w.Change env id call w' j next) :
    Capped limit w'.claims next := by
  obtain ⟨honce, hroom⟩ := hj
  cases h with
  | quiet hclaims _ hquiet =>
    rw [hclaims]
    exact ⟨by rw [hquiet.repeats]; exact honce, by rw [hquiet.enabled]; exact hroom⟩
  | claimed hclaims _ hdue hclaim =>
    obtain ⟨henabled, -⟩ := dueAt_isSome hdue
    rw [henabled, Bool.toNat_true] at hroom
    -- a job that can be claimed has room, so it is one that runs once
    have hrepeats : j.repeats = false := honce.resolve_left (by omega)
    rw [hclaims]
    constructor
    · exact .inr (by rw [(claimJob_limits hclaim).1, hrepeats])
    · rw [(claimJob_ok hclaim).2.2.1, hrepeats]
      exact hroom
  | marked hclaims _ =>
    rw [hclaims]
    refine ⟨honce, ?_⟩
    have hle : ∀ a b : Bool, (a && b).toNat ≤ a.toNat := by decide
    exact Nat.le_trans (Nat.add_le_add_left (hle j.enabled _) _) hroom

theorem Limited.step {env : StoreEnv} {call : StoreCall} {n : Nat} {next : CronJob}
    (hj : Limited n w.records j) (hintime : w.InTime id call) (h : w.Change env id call w' j next) :
    Limited n w'.records next := by
  cases h with
  | quiet _ hrecords hquiet =>
    rw [hrecords hintime]
    refine ⟨hquiet.repeatTimes.trans hj.limit, ?_, hj.most, ?_, ?_⟩
    · rw [hquiet.completedRuns]; exact hj.count
    · rw [hquiet.enabled]; exact hj.enabled
    · exact fun hrunning => hj.running (hquiet.running hrunning)
  | claimed _ hrecords hdue hclaim =>
    obtain ⟨henabled, -⟩ := dueAt_isSome hdue
    obtain ⟨-, hlimit, hcount⟩ := claimJob_limits hclaim
    have hleft : w.records < n := hj.enabled henabled
    rw [hrecords]
    exact ⟨hlimit.trans hj.limit, by rw [hcount]; exact hj.count, hj.most, fun _ => hleft,
      fun _ => hleft⟩
  | @marked result now _ hrecords =>
    obtain ⟨hcounted, hrunning⟩ := hrecords hintime
    have hleft : w.records < n := hj.running hrunning
    have hreaches : j.reachesRunLimit = decide (n ≤ w.records + 1) := by
      unfold CronJob.reachesRunLimit
      rw [hj.limit, hj.count]
      rfl
    rw [hcounted]
    refine ⟨hj.limit, ?_, by omega, ?_, ?_⟩
    · show j.completedRuns.getD 0 + 1 = w.records + 1
      rw [hj.count]
    · intro henabled
      -- the last run disables the job
      have hnot : (j.enabled && !j.reachesRunLimit) = true := henabled
      rw [hreaches, Bool.and_eq_true, Bool.not_eq_true', decide_eq_false_iff_not] at hnot
      omega
    · intro hstate
      by_contra hlast
      have hreached : j.reachesRunLimit = true := by
        rw [hreaches, decide_eq_true_eq]
        omega
      have hdone : (markRunJob result now j).state = .completed := by
        unfold markRunJob
        simp only [hreached, if_true]
      rw [hdone] at hstate
      cases hstate

/-! ## Whole runs -/

/-- The job with the id, and `P` of it and the counts. -/
def Watched.Keeps (id : String) (P : Nat → Nat → CronJob → Prop) (w : Watched) : Prop :=
  (w.jobs.map CronJob.id).Nodup ∧ ∃ j, findJob id w.jobs = some j ∧ P w.claims w.records j

theorem Watched.Keeps.run {env : StoreEnv} {P : Nat → Nat → CronJob → Prop}
    {next : Watched → StoreCall → Watched → Prop}
    (hnext : ∀ {w call w'}, next w call w' → w.Next env id call w')
    (hstep : ∀ {w call w' j j'}, next w call w' → P w.claims w.records j →
      w.Change env id call w' j j' → P w'.claims w'.records j') {calls : List StoreCall}
    (hw : w.Keeps id P) (h : Run next w calls w') : w'.Keeps id P := by
  apply h.invariant hw
  intro w call w' hcall hw
  obtain ⟨hids, j, hj, hP⟩ := hw
  obtain ⟨hids', j', hj', hchange⟩ := (hnext hcall).change hids hj
  exact ⟨hids', j', hj', hstep hcall hP hchange⟩

theorem claimed_enabled {env : StoreEnv} {runId : String} {clock : Time} {claimed : CronJob}
    (hids : (jobs.map CronJob.id).Nodup)
    (h : claimDueJob env jobs runId now clock = .ok (some claimed, jobs'))
    (hj : findJob claimed.id jobs = some j) : j.enabled = true := by
  obtain ⟨pre, current, post, rfl, -, hdue, hclaim, -⟩ := claimDueJob_some h
  obtain rfl := findJob_current hids hj (claimJob_ok hclaim).1.symm
  exact (dueAt_isSome hdue).1

theorem findJob_created {env : StoreEnv} {input : CreateCronJobInput} {randomUUID : Uuid}
    {job : CronJob} (h : create env jobs input randomUUID now = .ok (job, jobs')) :
    findJob job.id jobs' = some job := by
  obtain ⟨rfl, hfresh⟩ := create_spec h
  apply findJob_middle
  intro k hk he
  exact hfresh (he ▸ List.mem_map_of_mem hk)

theorem normalizeRepeatTimes_pos {value : Option Int} {n : Nat}
    (h : normalizeRepeatTimes value = .ok (some n)) : 0 < n := by
  unfold normalizeRepeatTimes at h
  split at h
  · cases h
  · split at h
    · cases h
    · cases h
      omega

theorem create_limits {env : StoreEnv} {input : CreateCronJobInput} {randomUUID : Uuid}
    {job : CronJob} (h : create env jobs input randomUUID now = .ok (job, jobs')) :
    job.completedRuns = none ∧ ∀ n, job.repeatTimes = some n → 0 < n := by
  obtain ⟨created, hjob, he⟩ := Except.bind_ok h
  cases he
  obtain ⟨-, -, hruns, hlimit⟩ := createJob_ok hjob
  refine ⟨hruns, fun n hn => ?_⟩
  rw [hn] at hlimit
  exact normalizeRepeatTimes_pos hlimit

/-- Whatever the scheduler does after a job is created, a job that runs once is claimed
at most once, and a paused one never. A limited job is not claimed after its last run,
and no more of its runs are counted, as long as each ends while the job is running. -/
theorem run_limits (env : StoreEnv) (jobs0 : List CronJob) (hjobs0 : Written env jobs0)
    (live : List LiveRun) :
    (∀ input randomUUID now job jobs, create env jobs0 input randomUUID now = .ok (job, jobs) →
      (job.repeats = false → ∀ calls w,
        Run (Watched.Next env job.id) (watch jobs live) calls w → w.claims ≤ 1) ∧
      (∀ n, job.repeatTimes = some n → ∀ calls w,
        Run (Watched.InTimeNext env job.id) (watch jobs live) calls w →
        w.records ≤ n ∧
          (∃ j, findJob job.id w.jobs = some j ∧ j.completedRuns.getD 0 = w.records) ∧
          (w.records = n → ∀ id now clock claimed jobs',
            claimDueJob env w.jobs id now clock = .ok (some claimed, jobs') →
            claimed.id ≠ job.id))) ∧
    (∀ idOrName now job jobs, pause env jobs0 idOrName now = .ok (job, jobs) → ∀ calls w,
      Run (Watched.Next env job.id) (watch jobs live) calls w → w.claims = 0) := by
  refine ⟨?_, ?_⟩
  · intro input randomUUID now job jobs hcreate
    have hwritten : Written env jobs := by
      apply @Written.call env _ _ ⟨.create input randomUUID, now⟩ none hjobs0
      show (create env jobs0 input randomUUID now).map _ = _
      rw [hcreate]
      rfl
    have hfound := findJob_created hcreate
    obtain ⟨hnone, hpos⟩ := create_limits hcreate
    constructor
    · intro honce calls w hrun
      have hstart : (watch jobs live).Keeps job.id fun claims _ j => Capped 1 claims j :=
        ⟨hwritten.ids, job, hfound, .inr honce, by
          show 0 + job.enabled.toNat ≤ 1
          rw [Nat.zero_add]
          exact Bool.toNat_le _⟩
      obtain ⟨-, j, -, hj⟩ := hstart.run (fun h => h) (fun _ hj hchange => hj.step hchange) hrun
      exact Nat.le_trans (Nat.le_add_right _ _) hj.room
    · intro n hn calls w hrun
      have hstart : (watch jobs live).Keeps job.id fun _ records j => Limited n records j :=
        ⟨hwritten.ids, job, hfound, hn, by rw [hnone]; rfl, Nat.zero_le _,
          fun _ => hpos n hn, fun _ => hpos n hn⟩
      obtain ⟨hids, j, hj, hlimited⟩ := hstart.run (fun h => h.1)
        (fun hnext hj hchange => hj.step hnext.2 hchange) hrun
      refine ⟨hlimited.most, ⟨j, hj, hlimited.count⟩, ?_⟩
      intro hlast id now clock claimed jobs' hclaim he
      rw [← he] at hj
      have hleft := hlimited.enabled (claimed_enabled hids hclaim hj)
      omega
  · intro idOrName now job jobs hpause calls w hrun
    have hwritten : Written env jobs := by
      apply @Written.call env _ _ ⟨.pause idOrName, now⟩ none hjobs0
      show (pause env jobs0 idOrName now).map _ = _
      rw [hpause]
      rfl
    obtain ⟨pre, current, post, -, -, hupdate, hjobs⟩ := modifyJob_spec hpause
    have hfound : findJob job.id jobs = some job := by
      rw [hjobs]
      apply findJob_middle
      rw [hjobs] at hwritten
      exact ids_apart hwritten.ids
    have hdisabled : job.enabled = false := (updateJob_token hupdate).enabled
    have hstart : (watch jobs live).Keeps job.id fun claims _ j => Capped 0 claims j :=
      ⟨hwritten.ids, job, hfound, .inl rfl, by
        show 0 + job.enabled.toNat ≤ 0
        rw [hdisabled]
        exact Nat.le_refl _⟩
    obtain ⟨-, j, -, hj⟩ := hstart.run (fun h => h) (fun _ hj hchange => hj.step hchange) hrun
    exact Nat.le_zero.1 (Nat.le_trans (Nat.le_add_right _ _) hj.room)

/-! An hourly job that is to run once. -/

namespace LimitExample

open HourlyExample

def input : CreateCronJobInput :=
  { name := "job", prompt := "run", schedule := "every 1h", repeatTimes := some 1 }

def limited : CronJob := { job with repeatTimes := some 1 }

/-- The job while it runs, claimed at `now`. -/
def runningAt (now : Time) : CronJob :=
  { limited with state := .running, nextRunAt := some (now + 3600000), updatedAt := now }

theorem created : create env [] input randomUUID 0 = .ok (limited, [limited]) := by
  have hname : normalizeName "job" = .ok "job" := rfl
  have hprompt : normalizePrompt "run" = .ok "run" := rfl
  unfold create createJob input
  rw [hname, hprompt]
  show (parseSchedule env.toScheduleEnv "every 1h" none none 0 >>= _) >>= _ = _
  rw [parsed]
  rfl

theorem next_of_ok (s : Watched) (call : StoreCall) {claimed : Option CronJob}
    (h : call.apply env s.jobs = .ok (claimed, jobs)) (hop : call.op.byScheduler = true)
    (hended : call.op.EndsLive s.live) :
    s.Next env "job" call
      { jobs, live := call.op.others s.live ++ call.op.started claimed
        claims := s.claims + call.claimsOf env "job" s.jobs
        records := s.records + call.recordsOf env "job" s.jobs } :=
  ⟨hop, Scheduler.Next.of_ok s.toScheduler call hended h, rfl, rfl⟩

def firstRun : LiveRun := { jobId := "job", claimedAt := 3600000 }

def claimedOnce : Watched :=
  { jobs := [runningAt 3600000], live := [firstRun], claims := 1, records := 0 }

theorem claiming_next :
    Watched.Next env "job" (watch [limited] []) (claiming 3600000) claimedOnce := by
  have happly : (claiming 3600000).apply env [limited] =
      .ok (some (runningAt 3600000), [runningAt 3600000]) := rfl
  exact next_of_ok (watch [limited] []) (claiming 3600000) happly rfl fun _ _ _ h => by cases h

end LimitExample

/-- Claimed, ended in time, and not claimed again. -/
theorem run_limits_example :
    ∃ w, Run (Watched.InTimeNext HourlyExample.env "job") (watch [LimitExample.limited] [])
        [HourlyExample.claiming 3600000, HourlyExample.ending LimitExample.firstRun 3660000] w ∧
      w.records = 1 ∧
      ∀ id now clock claimed jobs',
        claimDueJob HourlyExample.env w.jobs id now clock = .ok (some claimed, jobs') →
        claimed.id ≠ "job" := by
  let ended : CronJob :=
    markRunJob HourlyExample.succeeded 3660000 (LimitExample.runningAt 3600000)
  have hended : Watched.Next HourlyExample.env "job" LimitExample.claimedOnce
      (HourlyExample.ending LimitExample.firstRun 3660000)
      { jobs := [ended], live := [], claims := 1, records := 1 } := by
    have happly : (HourlyExample.ending LimitExample.firstRun 3660000).apply HourlyExample.env
        [LimitExample.runningAt 3600000] = .ok (none, [ended]) := rfl
    apply LimitExample.next_of_ok LimitExample.claimedOnce _ happly rfl
    intro _ _ _ h
    cases h
    exact ⟨List.mem_singleton_self _, rfl⟩
  have hrun : Run (Watched.InTimeNext HourlyExample.env "job") (watch [LimitExample.limited] [])
      [HourlyExample.claiming 3600000, HourlyExample.ending LimitExample.firstRun 3660000]
      { jobs := [ended], live := [], claims := 1, records := 1 } := by
    apply Run.cons ⟨LimitExample.claiming_next, fun _ _ _ h => by cases h⟩
    apply Run.single
    refine ⟨hended, ?_⟩
    intro runId ended result h current hcurrent
    cases h
    cases hcurrent
    exact ⟨⟨fun _ => rfl, fun _ => rfl⟩, fun _ => rfl⟩
  refine ⟨_, hrun, rfl, ?_⟩
  have hlimits := ((run_limits HourlyExample.env [] .empty []).1 LimitExample.input
    HourlyExample.randomUUID 0 LimitExample.limited [LimitExample.limited]
    LimitExample.created).2 1 rfl _ _ hrun
  exact hlimits.2.2 rfl

/-- A run that is reset while it lives ends after the job was claimed again: the job that
may run once has two runs counted. -/
theorem limit_exceeded :
    ∃ job jobs, create HourlyExample.env [] LimitExample.input HourlyExample.randomUUID 0 =
        .ok (job, jobs) ∧ job.repeatTimes = some 1 ∧
      ∃ calls w, Run (Watched.Next HourlyExample.env job.id) (watch jobs []) calls w ∧
        w.records = 2 ∧ (findJob job.id w.jobs).map CronJob.completedRuns = some (some 2) := by
  let secondRun : LiveRun := { jobId := "job", claimedAt := 7860000 }
  let reset : CronJob := { LimitExample.runningAt 3600000 with
    state := .pending, nextRunAt := some 7860000, updatedAt := 4260000
    lastError := some "Job was reset after stale running state (>660s)." }
  let again : CronJob := { reset with
    state := .running, nextRunAt := some 11460000, updatedAt := 7860000 }
  let counted : CronJob := markRunJob HourlyExample.succeeded 7870000 again
  let twice : CronJob := markRunJob HourlyExample.succeeded 7880000 counted
  let resetting : StoreCall := ⟨.resetStaleRunning 660000 4260000, 4260000⟩
  have hreset : resetting.apply HourlyExample.env [LimitExample.runningAt 3600000] =
      .ok (none, [reset]) := rfl
  have hagain : (HourlyExample.claiming 7860000).apply HourlyExample.env [reset] =
      .ok (some again, [again]) := rfl
  have hcounted : (HourlyExample.ending LimitExample.firstRun 7870000).apply HourlyExample.env
      [again] = .ok (none, [counted]) := rfl
  have htwice : (HourlyExample.ending secondRun 7880000).apply HourlyExample.env [counted] =
      .ok (none, [twice]) := rfl
  refine ⟨LimitExample.limited, [LimitExample.limited], LimitExample.created, rfl,
    [HourlyExample.claiming 3600000, resetting, HourlyExample.claiming 7860000,
      HourlyExample.ending LimitExample.firstRun 7870000, HourlyExample.ending secondRun 7880000],
    { jobs := [twice], live := [], claims := 2, records := 2 }, ?_, rfl, rfl⟩
  apply Run.cons LimitExample.claiming_next
  apply Run.cons (LimitExample.next_of_ok _ _ hreset rfl fun _ _ _ h => by cases h)
  apply Run.cons (LimitExample.next_of_ok
    { jobs := [reset], live := [LimitExample.firstRun], claims := 1, records := 0 } _ hagain rfl
    fun _ _ _ h => by cases h)
  apply Run.cons (LimitExample.next_of_ok
    { jobs := [again], live := [LimitExample.firstRun, secondRun], claims := 2, records := 0 } _
    hcounted rfl ?_)
  · apply Run.single
    apply LimitExample.next_of_ok
      { jobs := [counted], live := [secondRun], claims := 2, records := 1 } _ htwice rfl
    intro _ _ _ h
    cases h
    exact ⟨List.mem_singleton_self _, rfl⟩
  · intro _ _ _ h
    cases h
    exact ⟨List.mem_cons_self, rfl⟩

end PieLab

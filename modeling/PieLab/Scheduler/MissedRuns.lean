import Mathlib.Algebra.Order.Group.Int
import Mathlib.Algebra.Order.Group.Unbundled.Basic
import PieLab.Scheduler.Exclusion

/-
  Missed runs

  `getDueJobs` scans the jobs of the file in order. A job that is scheduled too long
  ago is not returned: a repeating one is moved on to its next run. How long ago is
  too long depends on the job and, for a cron expression, on the clock at its turn.

  The `nextRunAt` of the file is a text. One that is no date compares with nothing:
  it is neither in the future nor too long ago, and the job is returned as due.

  What is proved:
    1. `dueStep_cases` — what the scan does at one job.
    2. `storedDueJobs_spec` — what it returns and what it writes back, job by job.
    3. `storedDueJobs_eq` — where every text is a date this is `getDueJobs`.
    4. `due_jobs_report_iff` — only jobs within their grace window are returned, the
       others keep their fields but for the skipped ones, and no repeating job is left
       behind, exactly where every enabled job that is not running has a date.

  Correspondence (TypeScript ↔ Lean), packages/coding-agent/src/core/scheduler/job-store.ts:
    the body of the loop of `getDueJobs` ↔ `dueStep`
    `getDueJobs`                         ↔ `storedDueJobs`
-/

namespace PieLab

/-! ## The scan -/

/-- A job of the file. Its `nextRunAt` is missing or empty, a date, or a text that is none. -/
structure StoredJob where
  job : CronJob
  unreadable : Bool
  reads : unreadable = true → job.nextRunAt = none

namespace StoredJob

/-- `new Date(job.nextRunAt).getTime()` where there is a text; `some none` is NaN. -/
def scheduledAt (s : StoredJob) : Option (Option Time) :=
  if s.unreadable then some none else s.job.nextRunAt.map some

/-- The job scheduled again. -/
def reschedule (s : StoredJob) (nextRunAt : Option Time) (now : Time) : StoredJob where
  job := { s.job with nextRunAt, updatedAt := now }
  unreadable := false
  reads := fun h => by cases h

/-- The job waits for a run. -/
def Waits (s : StoredJob) : Prop := s.job.enabled = true ∧ s.job.state ≠ .running

instance (s : StoredJob) : Decidable s.Waits := inferInstanceAs (Decidable (_ ∧ _))

end StoredJob

def graceMs (env : StoreEnv) (s : StoredJob) (clock : Time) : Int :=
  computeGraceWindowSeconds env.toScheduleEnv s.job.scheduleFields clock * 1000

/-- One job of the scan: whether it is returned, and the job as it is written back. -/
def dueStep (env : StoreEnv) (now clock : Time) (s : StoredJob) :
    Except String (Bool × StoredJob) :=
  if !s.job.enabled || s.job.state == .running then .ok (false, s)
  else match s.scheduledAt with
    | none => .ok (false, s)
    | some scheduledAt =>
      -- a comparison with NaN is false
      if scheduledAt.any fun t => now < t then .ok (false, s)
      else if scheduledAt.any fun t => graceMs env s clock < now - t then
        if s.job.repeats then
          (computeNextRun env.toScheduleEnv s.job.scheduleFields now).map fun nextRunAt =>
            (false, s.reschedule nextRunAt now)
        else .ok (false, s)
      else .ok (true, s)

/-- The jobs that are due, and the jobs as they are written back; `clock i` is the time at the turn of
job `i`. -/
def storedDueJobs (env : StoreEnv) (now : Time) :
    (Nat → Time) → List StoredJob → Except String (List StoredJob × List StoredJob)
  | _, [] => .ok ([], [])
  | clock, s :: rest => do
    let (isDue, next) ← dueStep env now (clock 0) s
    let (due, jobs) ← storedDueJobs env now (fun i => clock (i + 1)) rest
    return (if isDue then s :: due else due, next :: jobs)

/-! ## One job -/

/-- Repeating jobs have a valid schedule: their next run is after its argument. -/
def ValidSchedule (env : StoreEnv) (now : Time) (s : StoredJob) : Prop :=
  s.job.repeats = true →
    ∃ t, computeNextRun env.toScheduleEnv s.job.scheduleFields now = .ok (some t) ∧ now < t

/-- The run is scheduled within the grace window. -/
def InGrace (env : StoreEnv) (now clock : Time) (s : StoredJob) : Prop :=
  ∃ t, s.scheduledAt = some (some t) ∧ now - graceMs env s clock ≤ t ∧ t ≤ now

/-- The run is scheduled before the grace window. -/
def Missed (env : StoreEnv) (now clock : Time) (s : StoredJob) : Prop :=
  ∃ t, s.scheduledAt = some (some t) ∧ t < now - graceMs env s clock

/-- What the scan does at one job. -/
inductive DueStep (env : StoreEnv) (now clock : Time) (s : StoredJob) :
    Bool × StoredJob → Prop where
  | busy (h : ¬ s.Waits) : DueStep env now clock s (false, s)
  | unscheduled (h : s.scheduledAt = none) : DueStep env now clock s (false, s)
  | early {t : Time} (h : s.scheduledAt = some (some t)) (hlt : now < t) : DueStep env now clock s (false, s)
  | skipped (hw : s.Waits) (h : Missed env now clock s) (hrep : s.job.repeats = true) {t : Time}
      (hnext : now < t) : DueStep env now clock s (false, s.reschedule (some t) now)
  | missed (h : Missed env now clock s) (hrep : s.job.repeats = false) : DueStep env now clock s (false, s)
  | due (hw : s.Waits) (h : InGrace env now clock s) : DueStep env now clock s (true, s)
  | unreadable (hw : s.Waits) (h : s.scheduledAt = some none) : DueStep env now clock s (true, s)

theorem dueStep_cases {env : StoreEnv} {now clock : Time} {s : StoredJob}
    (hvalid : ValidSchedule env now s) :
    ∃ r, dueStep env now clock s = .ok r ∧ DueStep env now clock s r := by
  unfold dueStep
  by_cases hw : s.Waits
  · obtain ⟨henabled, hstate⟩ := id hw
    have hpass : (!s.job.enabled || s.job.state == .running) = false := by simp [henabled, hstate]
    rw [hpass]
    cases hat : s.scheduledAt with
    | none => exact ⟨_, rfl, .unscheduled hat⟩
    | some scheduledAt =>
      cases scheduledAt with
      | none => exact ⟨_, rfl, .unreadable hw hat⟩
      | some t =>
        simp only [Option.any_some, decide_eq_true_eq, Bool.false_eq_true, if_false]
        by_cases hearly : now < t
        · rw [if_pos hearly]
          exact ⟨_, rfl, .early hat hearly⟩
        · rw [if_neg hearly]
          by_cases hlate : graceMs env s clock < now - t
          · have hmissed : Missed env now clock s := ⟨t, hat, lt_sub_comm.mp hlate⟩
            rw [if_pos hlate]
            by_cases hrep : s.job.repeats = true
            · obtain ⟨next, hnext, hlt⟩ := hvalid hrep
              rw [if_pos hrep, hnext]
              exact ⟨_, rfl, .skipped hw hmissed hrep hlt⟩
            · rw [if_neg hrep]
              exact ⟨_, rfl, .missed hmissed (by simpa using hrep)⟩
          · have hfrom : now - graceMs env s clock ≤ t := sub_le_comm.mp (not_lt.mp hlate)
            have hgrace : InGrace env now clock s := ⟨t, hat, hfrom, not_lt.mp hearly⟩
            rw [if_neg hlate]
            exact ⟨_, rfl, .due hw hgrace⟩
  · have hbusy : (!s.job.enabled || s.job.state == .running) = true := by
      unfold StoredJob.Waits at hw
      by_cases henabled : s.job.enabled = true <;> simp_all
    rw [hbusy]
    exact ⟨_, rfl, .busy hw⟩

section Step
variable {env : StoreEnv} {now clock : Time} {s : StoredJob} {r : Bool × StoredJob}

theorem DueStep.returned (h : DueStep env now clock s r) (hdue : r.1 = true) :
    r.2 = s ∧ s.Waits ∧ (InGrace env now clock s ∨ s.scheduledAt = some none) := by
  cases h with
  | due hw hgrace => exact ⟨rfl, hw, .inl hgrace⟩
  | unreadable hw hat => exact ⟨rfl, hw, .inr hat⟩
  | _ => cases hdue

theorem DueStep.kept (h : DueStep env now clock s r) :
    r.2 = s ∨ r.1 = false ∧ s.job.repeats = true ∧ Missed env now clock s ∧
      ∃ nextRunAt, r.2.job = { s.job with nextRunAt, updatedAt := now } := by
  cases h with
  | skipped hw hmissed hrep hlt => exact .inr ⟨rfl, hrep, hmissed, _, rfl⟩
  | _ => exact .inl rfl

theorem DueStep.notLost (h : DueStep env now clock s r) (hw : r.2.Waits)
    (hrep : r.2.job.repeats = true)
    (hat : r.2.scheduledAt ≠ none) : r.1 = true ∨ ∃ t, r.2.scheduledAt = some (some t) ∧ now < t := by
  cases h with
  | busy h => exact absurd hw h
  | unscheduled h => exact absurd h hat
  | early h hlt => exact .inr ⟨_, h, hlt⟩
  | skipped _ _ _ hlt => exact .inr ⟨_, rfl, hlt⟩
  | missed _ hnot => rw [hnot] at hrep; cases hrep
  | due => exact .inl rfl
  | unreadable => exact .inl rfl

theorem DueStep.of_unreadable (h : DueStep env now clock s r) (hw : s.Waits)
    (hat : s.scheduledAt = some none) :
    r.1 = true := by
  cases h with
  | busy h => exact absurd hw h
  | unscheduled h => rw [hat] at h; cases h
  | early h => rw [hat] at h; cases h
  | skipped _ h => obtain ⟨t, h, -⟩ := h; rw [hat] at h; cases h
  | missed h => obtain ⟨t, h, -⟩ := h; rw [hat] at h; cases h
  | due => rfl
  | unreadable => rfl

end Step

/-! ## The whole scan -/

/-- What a scan makes of the jobs: one step for each, and the jobs whose step returns them. -/
inductive DueScan (env : StoreEnv) (now : Time) :
    (Nat → Time) → List StoredJob → List StoredJob → List StoredJob → Prop where
  | nil {clock : Nat → Time} : DueScan env now clock [] [] []
  | cons {clock : Nat → Time} {s next : StoredJob} {isDue : Bool} {rest due jobs : List StoredJob}
      (h : DueStep env now (clock 0) s (isDue, next)) (hrest : DueScan env now (fun i => clock (i + 1)) rest due jobs) :
      DueScan env now clock (s :: rest) (if isDue then s :: due else due) (next :: jobs)

variable {jobs due jobs' : List StoredJob}

theorem storedDueJobs_spec {env : StoreEnv} {now : Time}
    (hvalid : ∀ s ∈ jobs, ValidSchedule env now s) (clock : Nat → Time) :
    ∃ due jobs', storedDueJobs env now clock jobs = .ok (due, jobs') ∧ DueScan env now clock jobs due jobs' := by
  induction jobs generalizing clock with
  | nil => exact ⟨[], [], rfl, .nil⟩
  | cons s rest ih =>
    obtain ⟨⟨isDue, next⟩, hstep, hcases⟩ :=
      @dueStep_cases env now (clock 0) s (hvalid s List.mem_cons_self)
    obtain ⟨due, jobs', hscan, hrest⟩ :=
      ih (fun s hs => hvalid s (List.mem_cons_of_mem _ hs)) (fun i => clock (i + 1))
    refine ⟨_, _, ?_, .cons hcases hrest⟩
    unfold storedDueJobs
    rw [hstep]
    show (do let (due, jobs) ← storedDueJobs env now (fun i => clock (i + 1)) rest; _) = _
    rw [hscan]
    rfl

/-- What `getDueJobs` answers for. -/
structure DueReport (env : StoreEnv) (now : Time) (clock : Nat → Time)
    (jobs due jobs' : List StoredJob) : Prop where
  returned : ∀ s ∈ due, ∃ i, jobs[i]? = some s ∧ s.job.enabled = true ∧ s.job.state ≠ .running ∧
    InGrace env now (clock i) s
  length_eq : jobs'.length = jobs.length
  kept : ∀ (i : Nat) s next, jobs[i]? = some s → jobs'[i]? = some next →
    next = s ∨ s.job.repeats = true ∧ Missed env now (clock i) s ∧
      ∃ nextRunAt, next.job = { s.job with nextRunAt, updatedAt := now }
  notLost : ∀ next ∈ jobs', next.job.enabled = true → next.job.state ≠ .running → next.job.repeats = true →
    next.scheduledAt ≠ none → next ∈ due ∨ ∃ t, next.scheduledAt = some (some t) ∧ now < t

section Scan
variable {env : StoreEnv} {now : Time}

variable {clock : Nat → Time} {s : StoredJob}

theorem DueScan.mem_due (h : DueScan env now clock jobs due jobs') (hs : s ∈ due) :
    ∃ i, jobs[i]? = some s ∧ s.Waits ∧ (InGrace env now (clock i) s ∨ s.scheduledAt = some none) := by
  induction h with
  | nil => cases hs
  | @cons clock s₀ next isDue rest due jobs hstep hrest ih =>
    have htail : s ∈ due → ∃ i, (s₀ :: rest)[i]? = some s ∧ s.Waits ∧
        (InGrace env now (clock i) s ∨ s.scheduledAt = some none) := by
      intro hmem
      obtain ⟨i, hi, hw⟩ := ih hmem
      exact ⟨i + 1, by simpa using hi, hw⟩
    cases isDue with
    | false => exact htail hs
    | true =>
      rcases List.mem_cons.mp hs with rfl | hmem
      · obtain ⟨-, hw⟩ := hstep.returned rfl
        exact ⟨0, rfl, hw⟩
      · exact htail hmem

theorem DueScan.length_eq (h : DueScan env now clock jobs due jobs') :
    jobs'.length = jobs.length := by
  induction h with
  | nil => rfl
  | cons _ _ ih => simp [ih]

theorem DueScan.kept (h : DueScan env now clock jobs due jobs') {i : Nat} {next : StoredJob}
    (hs : jobs[i]? = some s) (hnext : jobs'[i]? = some next) :
    next = s ∨ s.job.repeats = true ∧ Missed env now (clock i) s ∧
      ∃ nextRunAt, next.job = { s.job with nextRunAt, updatedAt := now } := by
  induction h generalizing i with
  | nil => cases hs
  | cons hstep hrest ih =>
    cases i with
    | zero =>
      obtain rfl := Option.some.inj hs
      obtain rfl := Option.some.inj hnext
      rcases hstep.kept with heq | ⟨-, hrep, hmissed, hjob⟩
      · exact .inl heq
      · exact .inr ⟨hrep, hmissed, hjob⟩
    | succ i => exact ih (by simpa using hs) (by simpa using hnext)

theorem DueScan.notLost (h : DueScan env now clock jobs due jobs') {next : StoredJob}
    (hmem : next ∈ jobs') (hw : next.Waits) (hrep : next.job.repeats = true)
    (hat : next.scheduledAt ≠ none) :
    next ∈ due ∨ ∃ t, next.scheduledAt = some (some t) ∧ now < t := by
  induction h with
  | nil => cases hmem
  | @cons clock s₀ next₀ isDue rest due jobs hstep hrest ih =>
    rcases List.mem_cons.mp hmem with rfl | htail
    · rcases hstep.notLost hw hrep hat with hdue | hfuture
      · obtain ⟨heq, -⟩ := hstep.returned hdue
        obtain rfl : next = s₀ := heq
        obtain rfl : isDue = true := hdue
        exact .inl List.mem_cons_self
      · exact .inr hfuture
    · rcases ih htail with hdue | hfuture
      · left
        cases isDue with
        | false => exact hdue
        | true => exact List.mem_cons_of_mem _ hdue
      · exact .inr hfuture

theorem DueScan.unreadable_due (h : DueScan env now clock jobs due jobs') (hmem : s ∈ jobs)
    (hw : s.Waits) (hat : s.scheduledAt = some none) : s ∈ due := by
  induction h with
  | nil => cases hmem
  | @cons clock s₀ next isDue rest due jobs hstep hrest ih =>
    rcases List.mem_cons.mp hmem with rfl | htail
    · obtain rfl : isDue = true := hstep.of_unreadable hw hat
      exact List.mem_cons_self
    · cases isDue with
      | false => exact ih htail
      | true => exact List.mem_cons_of_mem _ (ih htail)

theorem DueScan.report (h : DueScan env now clock jobs due jobs')
    (hdates : ∀ s ∈ jobs, s.Waits → s.scheduledAt ≠ some none) :
    DueReport env now clock jobs due jobs' where
  returned := by
    intro s hs
    obtain ⟨i, hi, hw, hgrace | hat⟩ := h.mem_due hs
    · exact ⟨i, hi, hw.1, hw.2, hgrace⟩
    · exact absurd hat (hdates s (List.mem_of_getElem? hi) hw)
  length_eq := h.length_eq
  kept := fun _ _ _ hs hnext => h.kept hs hnext
  notLost := fun _ hmem henabled hstate hrep hat => h.notLost hmem ⟨henabled, hstate⟩ hrep hat

end Scan

/-- Where every `nextRunAt` is a date, and the clock stands still, the scan is `getDueJobs`. -/
theorem storedDueJobs_eq (env : StoreEnv) (now clock : Time)
    (hread : ∀ s ∈ jobs, s.unreadable = false) :
    (storedDueJobs env now (fun _ => clock) jobs).map (Prod.map (List.map StoredJob.job) (List.map StoredJob.job)) =
      getDueJobs env now clock (jobs.map StoredJob.job) := by
  induction jobs with
  | nil => rfl
  | cons s rest ih =>
    have hs : s.scheduledAt = s.job.nextRunAt.map some := by
      unfold StoredJob.scheduledAt
      rw [hread s List.mem_cons_self]
      rfl
    have hrest := ih fun s hs => hread s (List.mem_cons_of_mem _ hs)
    rw [List.map_cons]
    unfold storedDueJobs getDueJobs
    rw [← hrest]
    unfold dueStep dueAt isMissed fastForward
    rw [hs]
    by_cases hbusy : (!s.job.enabled || s.job.state == .running) = true
    · rw [if_pos hbusy, if_pos hbusy]
      cases storedDueJobs env now (fun _ => clock) rest <;> rfl
    · rw [if_neg hbusy, if_neg hbusy]
      cases s.job.nextRunAt with
      | none => cases storedDueJobs env now (fun _ => clock) rest <;> rfl
      | some t =>
        simp only [Option.map_some, Option.any_some, decide_eq_true_eq, Option.filter_some]
        by_cases hearly : now < t
        · rw [if_pos hearly, if_neg (not_le.mpr hearly)]
          cases storedDueJobs env now (fun _ => clock) rest <;> rfl
        · rw [if_neg hearly, if_pos (not_lt.mp hearly)]
          unfold graceMs
          dsimp only
          by_cases hlate : computeGraceWindowSeconds env.toScheduleEnv s.job.scheduleFields clock * 1000 < now - t
          · rw [if_pos hlate, if_pos hlate]
            by_cases hrep : s.job.repeats = true
            · rw [if_pos hrep, if_pos hrep]
              cases computeNextRun env.toScheduleEnv s.job.scheduleFields now with
              | error e => rfl
              | ok next => cases storedDueJobs env now (fun _ => clock) rest <;> rfl
            · rw [if_neg hrep, if_neg hrep]
              cases storedDueJobs env now (fun _ => clock) rest <;> rfl
          · rw [if_neg hlate, if_neg hlate]
            cases storedDueJobs env now (fun _ => clock) rest <;> rfl

/-- The scan answers as it should exactly where every job that waits for a run has a date, or no
`nextRunAt` at all. -/
theorem due_jobs_report_iff (env : StoreEnv) (now : Time) (clock : Nat → Time)
    (jobs : List StoredJob)
    (hvalid : ∀ s ∈ jobs, s.job.repeats = true →
      ∃ t, computeNextRun env.toScheduleEnv s.job.scheduleFields now = .ok (some t) ∧ now < t) :
    (∃ due jobs', storedDueJobs env now clock jobs = .ok (due, jobs') ∧
      DueReport env now clock jobs due jobs') ↔
      ∀ s ∈ jobs, s.job.enabled = true → s.job.state ≠ .running → s.unreadable = false := by
  have hunreadable : ∀ s : StoredJob, s.scheduledAt = some none ↔ s.unreadable = true := by
    intro s
    unfold StoredJob.scheduledAt
    cases s.unreadable <;> simp
  obtain ⟨due, jobs', hscan, hspec⟩ := storedDueJobs_spec hvalid clock
  constructor
  · rintro ⟨due₀, jobs₀, hscan₀, hreport⟩ s hs henabled hstate
    rw [hscan] at hscan₀
    obtain ⟨rfl, rfl⟩ := Prod.mk.inj (Except.ok.inj hscan₀)
    by_contra hnot
    have hat : s.scheduledAt = some none := (hunreadable s).mpr (by simpa using hnot)
    -- the job is returned, and it has no scheduled time
    obtain ⟨i, -, -, -, t, ht, -⟩ :=
      hreport.returned s (hspec.unreadable_due hs ⟨henabled, hstate⟩ hat)
    rw [hat] at ht
    cases ht
  · intro hdates
    refine ⟨due, jobs', hscan, hspec.report ?_⟩
    intro s hs hw hat
    have hread := hdates s hs hw.1 hw.2
    rw [(hunreadable s).mp hat] at hread
    cases hread

section Examples

/-- The hourly job, with a text in the place of its next run. -/
def garbled : StoredJob where
  job := { HourlyExample.job with nextRunAt := none }
  unreadable := true
  reads := fun _ => rfl

/-- The hourly job, half an hour late at `5400000`. -/
def hourly : StoredJob where
  job := HourlyExample.job
  unreadable := false
  reads := fun h => by cases h

theorem hourly_next : ∀ s ∈ [garbled, hourly], s.job.repeats = true →
    ∃ t, computeNextRun HourlyExample.env.toScheduleEnv s.job.scheduleFields 5400000 = .ok (some t) ∧
      5400000 < t := by
  intro s hs _
  have hnext : computeNextRun HourlyExample.env.toScheduleEnv HourlyExample.job.scheduleFields 5400000 =
      .ok (some 9000000) := by decide
  simp only [List.mem_cons, List.not_mem_nil, or_false] at hs
  rcases hs with rfl | rfl <;> exact ⟨9000000, hnext, by decide⟩

theorem due_jobs_report_example :
    (∃ due jobs', storedDueJobs HourlyExample.env 5400000 (fun _ => 0) [garbled, hourly] = .ok (due, jobs') ∧
      DueReport HourlyExample.env 5400000 (fun _ => 0) [garbled, hourly] due jobs') ↔
      ∀ s ∈ [garbled, hourly], s.job.enabled = true → s.job.state ≠ .running → s.unreadable = false :=
  due_jobs_report_iff HourlyExample.env 5400000 (fun _ => 0) [garbled, hourly] hourly_next

/-- A job whose next run is no date is returned. -/
theorem garbled_returned :
    ¬ ∃ due jobs', storedDueJobs HourlyExample.env 5400000 (fun _ => 0) [garbled] = .ok (due, jobs') ∧
      DueReport HourlyExample.env 5400000 (fun _ => 0) [garbled] due jobs' := by
  have hscan : storedDueJobs HourlyExample.env 5400000 (fun _ => 0) [garbled] =
      .ok ([garbled], [garbled]) := rfl
  rintro ⟨due, jobs', h, hreport⟩
  rw [hscan] at h
  obtain ⟨rfl, rfl⟩ := Prod.mk.inj (Except.ok.inj h)
  obtain ⟨_, -, -, -, t, ht, -⟩ := hreport.returned garbled List.mem_cons_self
  cases ht

end Examples

end PieLab

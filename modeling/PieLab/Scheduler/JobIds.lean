import PieLab.Lib.Runs
import PieLab.Scheduler.Exclusion

/-
  Ids and names

  The operations on one job find it by its id or its name, and the first job that
  answers wins. A new id is checked against the ids in the file and a new name
  against the names, but neither against the other. So an id is a job's own as
  long as no earlier job has it for its name.

  What is proved:
    1. `actsOnOwn_iff` — every job of a list answers to its id first exactly when
       no job's name is the id of a later one.
    2. `JobEdit.apart_iff` — what each edit has to avoid to keep it so.
    3. `job_ids_unambiguous_iff` — over whole histories of edits.
    4. `markRun_other` — a rename after which a run is recorded on another job.

  `claimDueJob` looks a job up by its id only.
-/

namespace PieLab

open Lib

/-! ## Whom an id addresses -/

/-- The operations with the id of `j` act on `j`, and leave the jobs around it alone. -/
structure ActsOn (env : StoreEnv) (pre : List CronJob) (j : CronJob) (post : List CronJob) :
    Prop where
  get : get (pre ++ j :: post) j.id = some j
  markRun : ∀ result now, markRun (pre ++ j :: post) j.id result now =
    .ok (markRunJob result now j, pre ++ markRunJob result now j :: post)
  markDelivery : ∀ deliveryError now, markDelivery (pre ++ j :: post) j.id deliveryError now =
    .ok (markDeliveryJob deliveryError now j, pre ++ markDeliveryJob deliveryError now j :: post)
  trigger : ∀ now, trigger (pre ++ j :: post) j.id now =
    .ok (triggerJob now j, pre ++ triggerJob now j :: post)
  update : ∀ input now, update env (pre ++ j :: post) j.id input now =
    (updateJob env (pre ++ j :: post) input now j).map fun next => (next, pre ++ next :: post)
  remove : remove (pre ++ j :: post) j.id = .ok (j, pre ++ post)

def ActsOnOwn (env : StoreEnv) (jobs : List CronJob) (j : CronJob) : Prop :=
  ∃ pre post, jobs = pre ++ j :: post ∧ ActsOn env pre j post

/-- No job's name is the id of a later job. -/
def Apart (jobs : List CronJob) : Prop := jobs.Pairwise fun a b => a.name ≠ b.id

variable {pre post jobs : List CronJob} {j : CronJob} {now : Time}

theorem modifyJob_own (hpre : ∀ k ∈ pre, k.answersTo j.id = false)
    (f : CronJob → Except String CronJob) :
    modifyJob (pre ++ j :: post) j.id f = (f j).map fun next => (next, pre ++ next :: post) := by
  have hj : j.answersTo j.id = true := by simp [CronJob.answersTo]
  unfold modifyJob
  rw [splitFirst_append hj hpre]
  cases h : f j with
  | error e => simp [h, Except.map, bind, Except.bind]
  | ok next => simp [h, Except.map, bind, Except.bind, pure, Except.pure]

theorem get_own (hpre : ∀ k ∈ pre, k.answersTo j.id = false) :
    get (pre ++ j :: post) j.id = some j := by
  have hj : j.answersTo j.id = true := by simp [CronJob.answersTo]
  have hnone : pre.find? (CronJob.answersTo j.id) = none := by
    rw [List.find?_eq_none]
    intro k hk
    simp [hpre k hk]
  unfold get resolveJob
  rw [List.find?_append, hnone, Option.none_or, List.find?_cons_of_pos hj]

theorem actsOn_of_first (env : StoreEnv) (hpre : ∀ k ∈ pre, k.answersTo j.id = false) :
    ActsOn env pre j post where
  get := get_own hpre
  markRun _ _ := modifyJob_own hpre _
  markDelivery _ _ := modifyJob_own hpre _
  trigger _ := modifyJob_own hpre _
  update _ _ := modifyJob_own hpre _
  remove := by
    have hj : j.answersTo j.id = true := by simp [CronJob.answersTo]
    unfold PieLab.remove
    rw [splitFirst_append hj hpre]

theorem ids_apart (hids : ((pre ++ j :: post).map CronJob.id).Nodup) : ∀ k ∈ pre, k.id ≠ j.id := by
  intro k hk
  rw [List.map_append, List.map_cons] at hids
  exact (List.nodup_append.1 hids).2.2 k.id (List.mem_map_of_mem hk) j.id List.mem_cons_self

theorem names_of_get (hids : ((pre ++ j :: post).map CronJob.id).Nodup)
    (hget : get (pre ++ j :: post) j.id = some j) : ∀ k ∈ pre, k.name ≠ j.id := by
  intro k hk hname
  cases hfind : pre.find? (CronJob.answersTo j.id) with
  | none =>
    have hnot := List.find?_eq_none.1 hfind k hk
    simp [CronJob.answersTo, hname] at hnot
  | some first =>
    unfold get resolveJob at hget
    rw [List.find?_append, hfind, Option.some_or] at hget
    apply ids_apart hids first (List.mem_of_find?_eq_some hfind)
    rw [Option.some.inj hget]

theorem pairwise_of_splits {R : CronJob → CronJob → Prop}
    (h : ∀ pre j post, jobs = pre ++ j :: post → ∀ k ∈ pre, R k j) : jobs.Pairwise R := by
  induction jobs with
  | nil => exact .nil
  | cons k rest ih =>
    apply List.Pairwise.cons
    · intro j hj
      obtain ⟨pre, post, rfl⟩ := List.append_of_mem hj
      exact h (k :: pre) j post rfl k List.mem_cons_self
    · apply ih
      intro pre j post hrest k' hk'
      exact h (k :: pre) j post (by rw [hrest]; rfl) k' (List.mem_cons_of_mem _ hk')

/-- Every job answers to its id first exactly when no name is the id of a later job. -/
theorem actsOnOwn_iff (env : StoreEnv) (hids : (jobs.map CronJob.id).Nodup) :
    (∀ j ∈ jobs, ActsOnOwn env jobs j) ↔ Apart jobs := by
  constructor
  · intro hown
    apply pairwise_of_splits
    intro pre j post hjobs
    subst hjobs
    obtain ⟨pre', post', hsame, hacts⟩ := hown j (by simp)
    have hget : get (pre ++ j :: post) j.id = some j := by rw [hsame]; exact hacts.get
    exact names_of_get hids hget
  · intro hapart j hj
    obtain ⟨pre, post, rfl⟩ := List.append_of_mem hj
    refine ⟨pre, post, rfl, actsOn_of_first env ?_⟩
    intro k hk
    have hname : k.name ≠ j.id :=
      (List.pairwise_append.1 hapart).2.2 k hk j List.mem_cons_self
    have hid : k.id ≠ j.id := ids_apart hids k hk
    simp [CronJob.answersTo, hname, hid]

/-! ## Names after an update -/

theorem withName_name {input : UpdateCronJobInput} {a b : CronJob}
    (h : withName jobs input a = .ok b) : b.name = (input.name.map jsTrim).getD a.name := by
  unfold withName at h
  cases hname : input.name with
  | none => rw [hname] at h; cases h; rfl
  | some value =>
    rw [hname] at h
    obtain ⟨name, htrim, h⟩ := Except.bind_ok h
    obtain ⟨_, -, h⟩ := Except.bind_ok h
    cases h
    exact normalizeName_ok htrim

theorem withPrompt_name {env : StoreEnv} {input : UpdateCronJobInput} {a b : CronJob}
    (h : withPrompt env input a = .ok b) : b.name = a.name := by
  unfold withPrompt at h
  split at h
  · cases h; rfl
  · obtain ⟨prompt, -, h⟩ := Except.bind_ok h
    obtain ⟨_, -, h⟩ := Except.bind_ok h
    cases h; rfl

theorem withTimezone_name {env : StoreEnv} {input : UpdateCronJobInput} {a b : CronJob}
    (h : withTimezone env input a = .ok b) : b.name = a.name := by
  unfold withTimezone at h
  split at h
  · cases h; rfl
  · cases h; rfl
  · obtain ⟨timezone, -, h⟩ := Except.bind_ok h
    cases h; rfl

theorem withSchedule_name {env : StoreEnv} {input : UpdateCronJobInput} {a b : CronJob}
    (h : withSchedule env input now a = .ok b) : b.name = a.name := by
  unfold withSchedule at h
  split at h
  · obtain ⟨parsed, -, h⟩ := Except.bind_ok h
    cases h; rfl
  · cases h; rfl

theorem withEnabled_name {env : StoreEnv} {input : UpdateCronJobInput} {a b : CronJob}
    (h : withEnabled env input now a = .ok b) : b.name = a.name := by
  unfold withEnabled at h
  split at h
  · cases h; rfl
  · cases h; rfl
  · split at h
    · cases h; rfl
    · obtain ⟨nextRunAt, -, h⟩ := Except.bind_ok h
      cases h; rfl

theorem withScript_name {input : UpdateCronJobInput} {a b : CronJob}
    (h : withScript input a = .ok b) : b.name = a.name := by
  unfold withScript at h
  obtain ⟨script, -, h⟩ := Except.bind_ok h
  obtain ⟨_, -, h⟩ := Except.bind_ok h
  cases h; rfl

theorem withRepeatTimes_name {input : UpdateCronJobInput} {a b : CronJob}
    (h : withRepeatTimes input a = .ok b) : b.name = a.name := by
  unfold withRepeatTimes at h
  obtain ⟨repeatTimes, -, h⟩ := Except.bind_ok h
  obtain ⟨_, -, h⟩ := Except.bind_ok h
  cases h; rfl

theorem updateJob_name {env : StoreEnv} {input : UpdateCronJobInput} {current next : CronJob}
    (h : updateJob env jobs input now current = .ok next) :
    next.name = (input.name.map jsTrim).getD current.name := by
  unfold updateJob at h
  obtain ⟨j1, h1, h⟩ := Except.bind_ok h
  obtain ⟨j2, h2, h⟩ := Except.bind_ok h
  obtain ⟨j3, h3, h⟩ := Except.bind_ok h
  obtain ⟨j4, h4, h⟩ := Except.bind_ok h
  obtain ⟨j5, h5, h⟩ := Except.bind_ok h
  obtain ⟨j6, h6, h⟩ := Except.bind_ok h
  obtain ⟨j7, h7, h⟩ := Except.bind_ok h
  cases h
  have hname : j1.name = (input.name.map jsTrim).getD current.name := by rw [withName_name h1]
  have hscript : j6.name = j5.name := by rw [withScript_name h6]; rfl
  calc j7.name
    _ = j6.name := withRepeatTimes_name h7
    _ = j5.name := hscript
    _ = j4.name := withEnabled_name h5
    _ = j3.name := withSchedule_name h4
    _ = j2.name := withTimezone_name h3
    _ = j1.name := withPrompt_name h2
    _ = (input.name.map jsTrim).getD current.name := hname

/-! ## Edits -/

inductive JobEdit where
  | create (input : CreateCronJobInput) (randomUUID : Uuid) (now : Time)
  | update (idOrName : String) (input : UpdateCronJobInput) (now : Time)
  | remove (idOrName : String)

def JobEdit.apply (env : StoreEnv) (jobs : List CronJob) :
    JobEdit → Except String (CronJob × List CronJob)
  | .create input randomUUID now => PieLab.create env jobs input randomUUID now
  | .update idOrName input now => PieLab.update env jobs idOrName input now
  | .remove idOrName => PieLab.remove jobs idOrName

/-- An edit that does not throw. -/
def JobEdit.Next (env : StoreEnv) (jobs : List CronJob) (edit : JobEdit) (jobs' : List CronJob) :
    Prop :=
  ∃ job, edit.apply env jobs = .ok (job, jobs')

/-- A new job's id is no name in the list, a new name no id of a job further back. -/
def JobEdit.KeepsApart (env : StoreEnv) (jobs : List CronJob) : JobEdit → Prop
  | .create input randomUUID _ => ∀ job ∈ jobs, job.name ≠
      createJobId (jobIdBase env (jsTrim input.name) randomUUID) (jobs.map CronJob.id)
  | .update idOrName input _ => ∀ name, input.name = some name →
      ∀ pre current post, splitFirst (CronJob.answersTo idOrName) jobs = some (pre, current, post) →
        ∀ job ∈ post, job.id ≠ jsTrim name
  | .remove _ => True

theorem JobEdit.Next.ids {env : StoreEnv} {jobs' : List CronJob} {edit : JobEdit}
    (h : edit.Next env jobs jobs') (hids : (jobs.map CronJob.id).Nodup) :
    (jobs'.map CronJob.id).Nodup := by
  obtain ⟨job, h⟩ := h
  cases edit with
  | create input randomUUID now =>
    obtain ⟨rfl, hfresh⟩ := create_spec h
    rw [List.map_append, List.map_singleton]
    exact List.Nodup.append hids (List.nodup_singleton _)
      (by rw [List.disjoint_singleton]; exact hfresh)
  | update idOrName input now =>
    obtain ⟨pre, current, post, rfl, -, hf, rfl⟩ := modifyJob_spec h
    rw [List.map_append, List.map_cons, (updateJob_token hf).id]
    rw [List.map_append, List.map_cons] at hids
    exact hids
  | remove idOrName =>
    obtain ⟨pre, post, rfl, rfl⟩ := remove_spec h
    apply List.Nodup.sublist _ hids
    apply List.Sublist.map
    exact List.Sublist.append_left (List.sublist_cons_self _ _) pre

theorem apart_middle : Apart (pre ++ j :: post) ↔
    Apart (pre ++ post) ∧ (∀ k ∈ pre, k.name ≠ j.id) ∧ ∀ k ∈ post, j.name ≠ k.id := by
  unfold Apart
  simp only [List.pairwise_append, List.pairwise_cons, List.mem_cons]
  constructor
  · intro ⟨hpre, ⟨hj, hpost⟩, hcross⟩
    exact ⟨⟨hpre, hpost, fun a ha b hb => hcross a ha b (.inr hb)⟩,
      fun k hk => hcross k hk j (.inl rfl), hj⟩
  · intro ⟨⟨hpre, hpost, hcross⟩, hbefore, hafter⟩
    refine ⟨hpre, ⟨hafter, hpost⟩, ?_⟩
    intro a ha b hb
    cases hb with
    | inl hb => rw [hb]; exact hbefore a ha
    | inr hb => exact hcross a ha b hb

/-- What an edit has to avoid. -/
theorem JobEdit.apart_iff {env : StoreEnv} {jobs' : List CronJob} {edit : JobEdit}
    (h : edit.Next env jobs jobs') (hapart : Apart jobs) :
    Apart jobs' ↔ edit.KeepsApart env jobs := by
  obtain ⟨job, h⟩ := h
  cases edit with
  | create input randomUUID now =>
    have hid : job.id = createJobId (jobIdBase env (jsTrim input.name) randomUUID)
        (jobs.map CronJob.id) := by
      obtain ⟨job', hjob, he⟩ := Except.bind_ok h
      cases he
      exact (createJob_ok hjob).1
    obtain ⟨rfl, -⟩ := create_spec h
    show Apart (jobs ++ job :: []) ↔ _
    rw [apart_middle, List.append_nil, hid]
    exact ⟨fun h => h.2.1, fun h => ⟨hapart, h, fun k hk => absurd hk List.not_mem_nil⟩⟩
  | update idOrName input now =>
    unfold JobEdit.apply PieLab.update modifyJob at h
    cases hfound : splitFirst (CronJob.answersTo idOrName) jobs with
    | none => simp only [hfound] at h; cases h
    | some found =>
      obtain ⟨pre, current, post⟩ := found
      simp only [hfound] at h
      obtain ⟨next, hnext, h⟩ := Except.bind_ok h
      cases h
      obtain ⟨rfl, -, -⟩ := splitFirst_some hfound
      rw [apart_middle] at hapart ⊢
      obtain ⟨hrest, hbefore, hafter⟩ := hapart
      rw [(updateJob_token hnext).id, updateJob_name hnext]
      show _ ↔ ∀ name, input.name = some name → ∀ pre' current' post',
        splitFirst (CronJob.answersTo idOrName) (pre ++ current :: post) =
          some (pre', current', post') → ∀ job ∈ post', job.id ≠ jsTrim name
      constructor
      · intro hapart' name hname pre' current' post' hfound' k hk
        obtain ⟨-, -, hrenamed⟩ := hapart'
        rw [hfound] at hfound'
        cases hfound'
        rw [hname] at hrenamed
        exact (hrenamed k hk).symm
      · intro hkeeps
        refine ⟨hrest, hbefore, ?_⟩
        intro k hk
        cases hname : input.name with
        | none => exact hafter k hk
        | some name => exact (hkeeps name hname pre current post hfound k hk).symm
  | remove idOrName =>
    obtain ⟨pre, post, rfl, rfl⟩ := remove_spec h
    exact ⟨fun _ => trivial, fun _ => (apart_middle.1 hapart).1⟩

/-! ## Histories -/

theorem JobEdit.Next.unique {env : StoreEnv} {jobs : List CronJob} {edit : JobEdit}
    {jobs1 jobs2 : List CronJob} (h1 : edit.Next env jobs jobs1) (h2 : edit.Next env jobs jobs2) :
    jobs1 = jobs2 := by
  obtain ⟨job1, h1⟩ := h1
  obtain ⟨job2, h2⟩ := h2
  rw [h1] at h2
  cases h2
  rfl

theorem ids_nodup {env : StoreEnv} {edits : List JobEdit}
    (h : Run (JobEdit.Next env) [] edits jobs) : (jobs.map CronJob.id).Nodup := by
  refine @Run.invariant _ _ _ (fun jobs => (jobs.map CronJob.id).Nodup) _ _ _ h List.nodup_nil ?_
  intro _ _ _ hnext hids
  exact hnext.ids hids

theorem apart_of_keepsApart {env : StoreEnv} {edits : List JobEdit}
    (h : Run (JobEdit.Next env) [] edits jobs)
    (hkeeps : ∀ pre edit post reached, edits = pre ++ edit :: post →
      Run (JobEdit.Next env) [] pre reached →
      edit.KeepsApart env reached) : Apart jobs := by
  induction edits using List.reverseRecOn generalizing jobs with
  | nil => cases h; exact .nil
  | append_singleton edits edit ih =>
    obtain ⟨reached, hedits, hlast⟩ := h.split
    have hreached : Apart reached := by
      apply ih hedits
      intro pre edit' post reached' hsplit hpre
      exact hkeeps pre edit' (post ++ [edit]) reached' (by rw [hsplit]; simp) hpre
    cases hlast with
    | cons hnext hnil =>
      cases hnil
      exact (JobEdit.apart_iff hnext hreached).2 (hkeeps edits edit [] reached rfl hedits)

/-- An id addresses its job alone in every list of a history exactly when every edit
keeps names and ids apart. -/
theorem job_ids_unambiguous_iff (env : StoreEnv) (edits : List JobEdit) (jobs : List CronJob)
    (h : Run (JobEdit.Next env) [] edits jobs) :
    (∀ pre post reached, edits = pre ++ post →
        Run (JobEdit.Next env) [] pre reached →
        ∀ j ∈ reached, ActsOnOwn env reached j) ↔
      ∀ pre edit post reached, edits = pre ++ edit :: post →
        Run (JobEdit.Next env) [] pre reached →
        edit.KeepsApart env reached := by
  constructor
  · intro hown pre edit post reached hedits hpre
    rw [hedits] at h
    obtain ⟨reached', hpre', hrest⟩ := h.split
    have hsame : reached' = reached := hpre'.unique (fun h1 h2 => h1.unique h2) hpre
    subst hsame
    cases hrest with
    | @cons _ written _ _ _ hnext _ =>
      have hwritten : Run (JobEdit.Next env) [] (pre ++ [edit]) written :=
        hpre.append (.single hnext)
      have hbefore : Apart reached' :=
        (actsOnOwn_iff env (ids_nodup hpre)).1 (hown pre (edit :: post) reached' hedits hpre)
      have hafter : Apart written := by
        apply (actsOnOwn_iff env (ids_nodup hwritten)).1
        exact hown (pre ++ [edit]) post written (by rw [hedits]; simp) hwritten
      exact (JobEdit.apart_iff hnext hbefore).1 hafter
  · intro hkeeps pre post reached hedits hpre
    apply (actsOnOwn_iff env (ids_nodup hpre)).2
    apply apart_of_keepsApart hpre
    intro pre' edit post' reached' hsplit hpre'
    exact hkeeps pre' edit (post' ++ post) reached' (by rw [hedits, hsplit]; simp) hpre'

namespace RenameExample

open HourlyExample

def alpha : CronJob := { job with id := "alpha", name := "alpha" }

def beta : CronJob := { job with id := "beta-job", name := "beta job" }

def creating (name : String) : JobEdit :=
  .create { name, prompt := "run", schedule := "every 1h" } randomUUID 0

def rename : JobEdit := .update "alpha" { name := some "beta-job" } 0

theorem created_alpha : (creating "alpha").Next env [] [alpha] := by
  have hname : normalizeName "alpha" = .ok "alpha" := rfl
  have hprompt : normalizePrompt "run" = .ok "run" := rfl
  refine ⟨alpha, ?_⟩
  show create env [] _ randomUUID 0 = _
  unfold create createJob
  rw [hname, hprompt]
  show (parseSchedule env.toScheduleEnv "every 1h" none none 0 >>= _) >>= _ = _
  rw [parsed]
  rfl

theorem created_beta : (creating "beta job").Next env [alpha] [alpha, beta] := by
  have hname : normalizeName "beta job" = .ok "beta job" := rfl
  have hprompt : normalizePrompt "run" = .ok "run" := rfl
  refine ⟨beta, ?_⟩
  show create env [alpha] _ randomUUID 0 = _
  unfold create createJob
  rw [hname, hprompt]
  show (parseSchedule env.toScheduleEnv "every 1h" none none 0 >>= _) >>= _ = _
  rw [parsed]
  rfl

theorem renamed_alpha : rename.Next env [alpha, beta] [{ alpha with name := "beta-job" }, beta] :=
  ⟨{ alpha with name := "beta-job" }, rfl⟩

end RenameExample

/-- Two jobs are created under names that are not each other's ids. -/
theorem job_ids_unambiguous_example :
    Run (JobEdit.Next HourlyExample.env) []
        [RenameExample.creating "alpha", RenameExample.creating "beta job"]
        [RenameExample.alpha, RenameExample.beta] ∧
      ∀ j ∈ [RenameExample.alpha, RenameExample.beta],
        ActsOnOwn HourlyExample.env [RenameExample.alpha, RenameExample.beta] j := by
  have hrun : Run (JobEdit.Next HourlyExample.env) []
      [RenameExample.creating "alpha", RenameExample.creating "beta job"]
      [RenameExample.alpha, RenameExample.beta] :=
    .cons RenameExample.created_alpha (.single RenameExample.created_beta)
  refine ⟨hrun, ?_⟩
  apply (job_ids_unambiguous_iff HourlyExample.env _ _ hrun).2 _ _ [] _
    (List.append_nil _).symm hrun
  intro pre edit post reached hedits hpre
  cases pre with
  | nil =>
    cases hpre
    cases hedits
    intro job hjob
    cases hjob
  | cons first pre =>
    cases pre with
    | nil =>
      cases hedits
      have hreached : reached = [RenameExample.alpha] :=
        hpre.unique (fun h1 h2 => h1.unique h2) (.single RenameExample.created_alpha)
      rw [hreached]
      intro job hjob
      rw [List.mem_singleton.1 hjob]
      decide
    | cons second pre => simp at hedits

/-- The first job takes the id of the second for its name: the run of the second is
recorded on the first. -/
theorem markRun_other :
    ∃ jobs, Run (JobEdit.Next HourlyExample.env) []
        [RenameExample.creating "alpha", RenameExample.creating "beta job", RenameExample.rename]
        jobs ∧
      ∃ j ∈ jobs, ¬ ActsOnOwn HourlyExample.env jobs j ∧ ∀ result now, ∃ next written,
        markRun jobs j.id result now = .ok (next, written) ∧ next.id ≠ j.id ∧ j ∈ written := by
  refine ⟨[{ RenameExample.alpha with name := "beta-job" }, RenameExample.beta], ?_, ?_⟩
  · apply Run.cons RenameExample.created_alpha
    apply Run.cons RenameExample.created_beta
    exact .single RenameExample.renamed_alpha
  · refine ⟨RenameExample.beta, by simp, ?_, ?_⟩
    · intro hown
      obtain ⟨pre, post, hjobs, hacts⟩ := hown
      have hget := hacts.get
      rw [← hjobs] at hget
      exact absurd hget (by decide)
    · intro result now
      refine ⟨_, _, rfl, ?_, by simp⟩
      show ("alpha" : String) ≠ "beta-job"
      decide

end PieLab

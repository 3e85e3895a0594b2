import PieLab.Lib.WriteBack
import PieLab.Settings.Merging

/-
  Settings writes are a three-way merge

  Setters, queued writes, reloads and edits of the global settings file by others,
  in any order.

  What is proved:
    1. `refines` — a step of the manager is a change of a copy that is written back,
       setting by setting.
    2. `settings_merged` — once the queue is done, the file holds for each setting
       what the manager set last, if no other changed it after the last write that
       carries it, and else the value of the others. The manager holds it too,
       unless a reload has read another value from the file before that write.
    3. `sibling_differs` — a field whose properties are set one by one is not merged
       as a whole: the file keeps a property that another process has changed, and
       the manager does not see it.
-/

namespace PieLab.Settings

open Lib

/-! ## Setters -/

/-- Fields are set whole, or property by property; no setter sets a legacy field. -/
def Assignment.Proper : Assignment → Prop
  | .field name value =>
    name ∉ nestedFields ∧ (name ≠ "queueMode" ∧ name ≠ "websockets") ∧
      (name = "steeringMode" ∨ name = "transport" → value ≠ none) ∧
      (name = "skills" → ∀ fields, value ≠ some (.object fields))
  | .nested name key _ => name ∈ nestedFields ∧ key ≠ "maxDelayMs"
  | .copied name key _ => name ∈ nestedFields ∧ key ≠ "maxDelayMs"

theorem assignments_proper {settings : Fields} {call : SetterCall} {assignments : List Assignment}
    (h : call.assignments settings = some assignments) : ∀ a ∈ assignments, a.Proper := by
  cases call with
  | setHttpIdleTimeoutMs timeoutMs =>
    simp only [SetterCall.assignments] at h
    split at h
    · split at h
      · exact absurd h nofun
      · cases h
        simp [Assignment.Proper, nestedFields]
    · exact absurd h nofun
  | setEnableAnalytics enabled uuid =>
    simp only [SetterCall.assignments] at h
    split at h
    · cases h
      simp [Assignment.Proper, nestedFields]
    · cases h
      simp [Assignment.Proper, nestedFields]
  | _ =>
    cases h
    simp [Assignment.Proper, nestedFields, texts]

/-- What an assignment has done. -/
inductive Assigned (settings : Fields) : String → Option String → Fields → Prop where
  | field (name : String) (value : Option Json) (hname : name ∉ nestedFields)
      (hcurrent : name ≠ "queueMode" ∧ name ≠ "websockets")
      (hpresent : name = "steeringMode" ∨ name = "transport" → value ≠ none)
      (hskills : name = "skills" → ∀ fields, value ≠ some (.object fields)) :
      Assigned settings name none (settings.put name value)
  | nested (name key : String) (value : Json) (hname : name ∈ nestedFields) (hkey : key ≠ "maxDelayMs") :
      Assigned settings name (some key)
        (settings.put name (some (.object (Fields.put (spread (settings.lookup name)) key (some value)))))

theorem members_eq {value : Option Json} {current : Fields} (h : members value = some current) :
    current = spread value := by
  cases value with
  | none =>
    cases h
    rfl
  | some value =>
    cases value with
    | object fields =>
      cases h
      rfl
    | array items =>
      cases h
      rfl
    | string s =>
      by_cases hs : s = ""
      · subst hs
        cases h
        rfl
      · simp [members, Json.truthy, hs] at h
    | _ =>
      simp only [members] at h
      split at h
      · exact absurd h nofun
      · cases h
        rfl

theorem Assignment.assigned {a : Assignment} {settings settings' : Fields} (hproper : a.Proper)
    (h : a.apply settings = some settings') : Assigned settings a.name a.nestedKey settings' := by
  cases a with
  | field name value =>
    cases h
    obtain ⟨hname, hcurrent, hpresent, hskills⟩ := hproper
    exact .field name value hname hcurrent hpresent hskills
  | nested name key value =>
    obtain ⟨current, hcurrent, rfl⟩ := Option.map_eq_some_iff.1 h
    rw [members_eq hcurrent]
    exact .nested name key value hproper.1 hproper.2
  | copied name key value =>
    cases h
    exact .nested name key _ hproper.1 hproper.2

/-- An assignment to the setting. -/
def sets (name : String) (nestedKey : Option String) (p : Setting) : Bool :=
  name = p.name ∧ nestedKey = p.key

section Assigned
variable {settings settings' : Fields} {name : String} {nestedKey : Option String} {modified : Marks}

theorem Assigned.lookup (h : Assigned settings name nestedKey settings') {other : String}
    (hne : other ≠ name) :
    settings'.lookup other = settings.lookup other := by
  cases h with
  | field value => simp [Ne.symm hne]
  | nested key value => simp [Ne.symm hne]

theorem Assigned.valueAt (h : Assigned settings name nestedKey settings') {p : Setting}
    (hp : sets name nestedKey p = false) : settings'.valueAt p = settings.valueAt p := by
  by_cases hname : p.name = name
  · cases h with
    | field value hwhole =>
      cases p with
      | field name' h' =>
        have hname : name' = name := hname
        simp [sets, Setting.name, Setting.key, hname] at hp
      | nested name' h' key' =>
        have hname : name' = name := hname
        exact absurd (hname ▸ h') hwhole
    | nested key value hnested =>
      cases p with
      | field name' h' =>
        have hname : name' = name := hname
        exact absurd hnested (hname ▸ h')
      | nested name' h' key' =>
        have hname : name' = name := hname
        subst hname
        have hkey : key ≠ key' := by simpa [sets, Setting.name, Setting.key] using hp
        simp [Fields.valueAt, spread, hkey]
  · have hlookup := h.lookup hname
    cases p with
    | field name' h' => exact hlookup
    | nested name' h' key' =>
      show (spread (settings'.lookup name')).lookup key' = (spread (settings.lookup name')).lookup key'
      rw [show settings'.lookup name' = settings.lookup name' from hlookup]

theorem mem_add {set : List String} {value x : String} :
    x ∈ add set value ↔ x ∈ set ∨ x = value := by
  unfold add
  split
  · next hmem =>
    constructor
    · exact .inl
    · rintro (h | rfl)
      · exact h
      · exact hmem
  · simp

theorem nested_mark (nestedKey : Option String) (other : String) :
    (modified.mark name nestedKey).nested.lookup other =
      if name = other ∧ nestedKey.isSome then
        some (add ((modified.nested.lookup name).getD []) (nestedKey.getD ""))
      else modified.nested.lookup other := by
  cases nestedKey with
  | none => simp [Marks.mark]
  | some key => simp [Marks.mark, OrderedMap.lookup_setEntries]

theorem Assigned.has_mark (h : Assigned settings name nestedKey settings') (p : Setting) :
    (modified.mark name nestedKey).has p = (modified.has p || sets name nestedKey p) := by
  rw [Bool.eq_iff_iff]
  cases h with
  | field value hwhole =>
    cases p with
    | field name' h' =>
      simp only [Marks.has, Marks.mark, mem_add, sets, Setting.name, Setting.key, and_true,
        decide_eq_true_eq,
        Bool.or_eq_true]
      exact or_congr_right ⟨Eq.symm, Eq.symm⟩
    | nested name' h' key' =>
      simp only [Marks.has, Marks.mark, sets, Setting.key, reduceCtorEq, and_false, decide_false,
        Bool.or_false]
      exact Iff.rfl
  | nested key value hnested =>
    cases p with
    | field name' h' =>
      have hne : name' ≠ name := fun heq => h' (heq ▸ hnested)
      simp [Marks.has, Marks.mark, mem_add, sets, Setting.key, hne]
    | nested name' h' key' =>
      unfold Marks.has
      simp only [nested_mark]
      by_cases hname : name = name'
      · subst hname
        simp only [Option.isSome_some, and_self, if_true, Option.getD_some, mem_add, sets,
          Setting.name, Setting.key,
          Option.some.injEq, true_and, decide_eq_true_eq, Bool.or_eq_true]
        exact or_congr_right ⟨Eq.symm, Eq.symm⟩
      · simp [sets, Setting.name, hname]

theorem Marks.Good.mark (h : modified.Good settings)
    (ha : Assigned settings name nestedKey settings') :
    (modified.mark name nestedKey).Good settings' where
  current other hmem := by
    obtain hmem | rfl := mem_add.1 hmem
    · exact h.current other hmem
    · cases ha with
      | field value _ hcurrent => exact hcurrent
      | nested key value hnested =>
        constructor
        · rintro rfl
          exact absurd hnested (by decide)
        · rintro rfl
          exact absurd hnested (by decide)
  present other hmem hother := by
    by_cases hne : other = name
    · subst hne
      cases ha with
      | field value _ _ hpresent =>
        rw [lookup_put, if_pos rfl]
        exact hpresent hother
      | nested key value => simp
    · rw [ha.lookup hne]
      obtain hmem | heq := mem_add.1 hmem
      · exact h.present other hmem hother
      · exact absurd heq hne
  skills hmem fields := by
    by_cases hne : "skills" = name
    · subst hne
      cases ha with
      | field value _ _ _ hskills =>
        rw [lookup_put, if_pos rfl]
        exact hskills rfl fields
      | nested key value hnested => exact absurd hnested (by decide)
    · rw [ha.lookup hne]
      obtain hmem | heq := mem_add.1 hmem
      · exact h.skills hmem fields
      · exact absurd heq hne
  keys other keys hkeys := by
    rw [nested_mark] at hkeys
    split at hkeys
    · next hnested =>
      obtain ⟨rfl, hsome⟩ := hnested
      cases ha with
      | field value => exact absurd hsome (by simp)
      | nested key value hname hkey =>
        cases hkeys
        refine ⟨hname, mem_add.2 (.inr rfl), ?_⟩
        intro hmem
        obtain hold | hnew := mem_add.1 hmem
        · cases hlookup : modified.nested.lookup name with
          | none => simp [hlookup] at hold
          | some keys =>
            rw [hlookup] at hold
            exact (h.keys name keys hlookup).2.2 hold
        · exact hkey hnew.symm
    · obtain ⟨hname, hmem, hkey⟩ := h.keys other keys hkeys
      exact ⟨hname, mem_add.2 (.inl hmem), hkey⟩
  objects other hmem hother := by
    rw [nested_mark]
    by_cases hne : other = name
    · subst hne
      cases ha with
      | field value hwhole => exact absurd hother hwhole
      | nested key value => exact ⟨_, _, if_pos ⟨rfl, rfl⟩, by rw [lookup_put, if_pos rfl]⟩
    · rw [ha.lookup hne, if_neg fun heq => hne heq.1.symm]
      obtain hmem | heq := mem_add.1 hmem
      · exact h.objects other hmem hother
      · exact absurd heq hne

end Assigned

theorem applyAll_spec {assignments : List Assignment} {settings settings' : Fields}
    {modified : Marks}
    (hproper : ∀ a ∈ assignments, a.Proper) (h : applyAll settings assignments = some settings')
    (hgood : modified.Good settings) :
    (SettingsManager.markAll modified assignments).Good settings' ∧
    (∀ p, (SettingsManager.markAll modified assignments).has p =
      (modified.has p || assignments.any fun a => sets a.name a.nestedKey p)) ∧
    ∀ p, (assignments.any fun a => sets a.name a.nestedKey p) = false →
      settings'.valueAt p = settings.valueAt p := by
  induction assignments generalizing settings modified with
  | nil =>
    cases h
    exact ⟨hgood, fun p => by simp [SettingsManager.markAll], fun _ _ => rfl⟩
  | cons a assignments ih =>
    obtain ⟨middle, ha, hrest⟩ : ∃ middle, a.apply settings = some middle ∧
        applyAll middle assignments = some settings' := by
      unfold applyAll at h
      rw [List.foldlM_cons] at h
      exact Option.bind_eq_some_iff.1 h
    have hassigned := Assignment.assigned (hproper a List.mem_cons_self) ha
    obtain ⟨hmarks, hhas, hframe⟩ :=
      ih (fun b hb => hproper b (List.mem_cons_of_mem a hb)) hrest (hgood.mark hassigned)
    refine ⟨hmarks, ?_, ?_⟩
    · intro p
      show (SettingsManager.markAll (modified.mark a.name a.nestedKey) assignments).has p = _
      rw [hhas p, hassigned.has_mark p, List.any_cons, Bool.or_assoc]
    · intro p hp
      rw [List.any_cons, Bool.or_eq_false_iff] at hp
      rw [hframe p hp.2, hassigned.valueAt hp.1]

/-! ## Whose value a setting has -/

/-- A queued write of the setting. -/
def QueuedTask.carries (p : Setting) : QueuedTask → Bool
  | .write .global _ modified => modified.has p
  | _ => false

namespace SettingsManager

/-- The setter does not throw, and assigns the setting. -/
def assigns (s : SettingsManager) (call : SetterCall) (p : Setting) : Bool :=
  match call.assignments s.global.settings with
  | some assignments =>
    (applyAll s.global.settings assignments).isSome &&
      assignments.any fun a => sets a.name a.nestedKey p
  | none => false

open WriteBack (Origin)

open Classical in
/-- A setter gives a setting its value; another process does too, where no queued write carries the
setting; and a reload may read another value before the setting is written. -/
noncomputable def followed (s : SettingsManager) (e : SettingsEvent) (origin : Setting → Origin (Option Json))
    (p : Setting) : Origin (Option Json) :=
  match e with
  | .set call => if s.assigns call p then .own ((s.set call).global.settings.valueAt p) else origin p
  | .task =>
    match s.writeQueue with
    | .load :: _ => (origin p).read (viewed s.global.file p)
    | _ => origin p
  | .outside .global file =>
    if s.writeQueue.any (QueuedTask.carries p) = true ∨ viewed file p = viewed s.global.file p then origin p
    else .outside (viewed file p)
  | _ => origin p

def Next (s : SettingsManager × (Setting → Origin (Option Json))) (e : SettingsEvent)
    (t : SettingsManager × (Setting → Origin (Option Json))) : Prop :=
  t = (s.1.step e, s.1.followed e s.2)

/-! ## The manager is a copy that is written back -/

/-- A task, as far as the global file is concerned. -/
def taskOf : QueuedTask → Option (WriteBack.Task Setting (Option Json))
  | .write .global snapshotSettings modified => some (WriteBack.write snapshotSettings.valueAt modified.has)
  | .write .project _ _ => none
  | .load => some .load

def copy (s : SettingsManager) : WriteBack Setting (Option Json) where
  store := viewed s.global.file
  memory := s.global.settings.valueAt
  dirty := s.global.modified.has
  tasks := s.writeQueue.filterMap taskOf

/-- The change an event makes, if it makes one. -/
def changeOf (s : SettingsManager) : SettingsEvent → Option (WriteBack.Change Setting (Option Json))
  | .set call =>
    match call.assignments s.global.settings with
    | some assignments => (applyAll s.global.settings assignments).map fun settings => .set fun p =>
        if assignments.any fun a => sets a.name a.nestedKey p then some (settings.valueAt p) else none
    | none => none
  | .reload => some .reload
  | .task => s.writeQueue.head?.bind fun task => (taskOf task).map fun _ => .task
  | .outside .global file => some (.outside (viewed file))
  | _ => none

/-- What setters leave marked, in the manager and in its queue. -/
structure Proper (s : SettingsManager) : Prop where
  modified : s.global.modified.Good s.global.settings
  queued : ∀ snapshotSettings modified, .write .global snapshotSettings modified ∈ s.writeQueue →
    modified.Good snapshotSettings

theorem good_empty (settings : Fields) : Marks.empty.Good settings where
  current := nofun
  present := nofun
  skills := nofun
  keys := nofun
  objects := nofun

theorem has_empty : Marks.empty.has = fun _ => false := by
  funext p
  cases p with
  | field name h => rfl
  | nested name h key => rfl

theorem carries_taskOf (tasks : List QueuedTask) (p : Setting) :
    (tasks.filterMap taskOf).any (WriteBack.Task.carries p) = tasks.any (QueuedTask.carries p) := by
  induction tasks with
  | nil => rfl
  | cons task tasks ih =>
    cases task with
    | load =>
      show (WriteBack.Task.carries p .load || _) = (QueuedTask.carries p .load || _)
      rw [ih]
      rfl
    | write scope snapshotSettings modified =>
      cases scope with
      | project =>
        show (tasks.filterMap taskOf).any (WriteBack.Task.carries p) =
          (QueuedTask.carries p (.write .project snapshotSettings modified) || _)
        rw [ih]
        rfl
      | global =>
        show (WriteBack.Task.carries p (WriteBack.write snapshotSettings.valueAt modified.has) || _) =
          (modified.has p || _)
        rw [ih]
        cases hhas : modified.has p with
        | false => simp [WriteBack.write, WriteBack.Task.carries, hhas]
        | true => simp [WriteBack.write, WriteBack.Task.carries, hhas]

theorem set_some {s : SettingsManager} {call : SetterCall} {assignments : List Assignment}
    {settings : Fields}
    (ha : call.assignments s.global.settings = some assignments)
    (hs : applyAll s.global.settings assignments = some settings) :
    s.set call =
      { s with
        global := { s.global with settings, modified := markAll s.global.modified assignments }
        writeQueue := s.writeQueue ++
          [.write .global settings (markAll s.global.modified assignments)] } := by
  simp [set, ha, hs]

theorem set_none {s : SettingsManager} {call : SetterCall}
    (h : ∀ assignments settings, call.assignments s.global.settings = some assignments →
      applyAll s.global.settings assignments ≠ some settings) : s.set call = s := by
  unfold set
  split
  · next assignments ha =>
    split
    · next settings hs => exact absurd hs (h assignments settings ha)
    · rfl
  · rfl

section Steps
variable {s : SettingsManager}

theorem Proper.step (h : s.Proper) (e : SettingsEvent) : (s.step e).Proper := by
  have htail : ∀ task tasks, s.writeQueue = task :: tasks → ∀ snapshotSettings modified,
      .write .global snapshotSettings modified ∈ tasks → modified.Good snapshotSettings := by
    intro task tasks hqueue snapshotSettings modified hmem
    apply h.queued
    rw [hqueue]
    exact List.mem_cons_of_mem task hmem
  have hpush : ∀ task, (∀ snapshotSettings modified, task = .write .global snapshotSettings modified →
      modified.Good snapshotSettings) → ∀ snapshotSettings modified,
      .write .global snapshotSettings modified ∈ s.writeQueue ++ [task] → modified.Good snapshotSettings := by
    intro task htask snapshotSettings modified hmem
    obtain hmem | hmem := List.mem_append.1 hmem
    · exact h.queued snapshotSettings modified hmem
    · exact htask snapshotSettings modified (List.mem_singleton.1 hmem).symm
  cases e with
  | set call =>
    show (s.set call).Proper
    cases ha : call.assignments s.global.settings with
    | none =>
      rw [set_none fun assignments settings h' => by simp [ha] at h']
      exact h
    | some assignments =>
      cases hs : applyAll s.global.settings assignments with
      | none =>
        rw [set_none fun assignments' settings h' h'' => by
          rw [ha, Option.some.injEq] at h'
          rw [← h', hs] at h''
          exact absurd h'' nofun]
        exact h
      | some settings =>
        rw [set_some ha hs]
        have hgood := (applyAll_spec (assignments_proper ha) hs h.modified).1
        refine ⟨hgood, hpush _ ?_⟩
        intro snapshotSettings modified heq
        cases heq
        exact hgood
  | setProject call =>
    show (s.setProject call).Proper
    unfold setProject
    split
    · exact ⟨h.modified, hpush _ nofun⟩
    · exact h
  | setProjectTrusted trusted =>
    show (s.setProjectTrusted trusted).Proper
    unfold setProjectTrusted
    split
    · exact h
    · exact ⟨h.modified, h.queued⟩
  | reload => exact ⟨h.modified, hpush _ nofun⟩
  | task =>
    simp only [SettingsManager.step]
    split
    · exact h
    · next tasks hqueue => exact ⟨good_empty _, htail _ _ hqueue⟩
    · next scope snapshotSettings modified tasks hqueue =>
      cases scope with
      | global => exact ⟨good_empty _, htail _ _ hqueue⟩
      | project =>
        simp only [runWrite]
        split
        · exact ⟨h.modified, htail _ _ hqueue⟩
        · exact ⟨h.modified, htail _ _ hqueue⟩
  | outside scope file =>
    cases scope with
    | global => exact ⟨h.modified, h.queued⟩
    | project => exact ⟨h.modified, h.queued⟩

theorem refines_set (h : s.Proper) (call : SetterCall) :
    (s.set call).copy = (s.changeOf (.set call)).elim s.copy s.copy.step := by
  cases ha : call.assignments s.global.settings with
  | none =>
    rw [set_none fun assignments settings h' => by simp [ha] at h']
    simp [changeOf, ha]
  | some assignments =>
    cases hs : applyAll s.global.settings assignments with
    | none =>
      rw [set_none fun assignments' settings h' h'' => by
        rw [ha, Option.some.injEq] at h'
        rw [← h', hs] at h''
        exact absurd h'' nofun]
      simp [changeOf, ha, hs]
    | some settings =>
      obtain ⟨-, hhas, hframe⟩ := applyAll_spec (assignments_proper ha) hs h.modified
      rw [set_some ha hs]
      have hmemory : WriteBack.overlay (fun p => if assignments.any fun a => sets a.name a.nestedKey p then
          some (settings.valueAt p) else none) s.global.settings.valueAt = settings.valueAt := by
        funext p
        rw [WriteBack.overlay_ite (fun p => assignments.any fun a => sets a.name a.nestedKey p)]
        split
        · rfl
        · next hp => exact (hframe p (by simpa using hp)).symm
      have hdirty : (markAll s.global.modified assignments).has = fun p =>
          s.global.modified.has p || (if assignments.any fun a => sets a.name a.nestedKey p then
            some (settings.valueAt p) else none).isSome := by
        funext p
        rw [hhas p]
        split
        · next hp => rw [hp, Option.isSome_some]
        · next hp =>
          have hnot : (assignments.any fun a => sets a.name a.nestedKey p) =
              false := by simpa using hp
          rw [hnot, Option.isSome_none]
      simp only [changeOf, ha, hs, Option.map_some, Option.elim_some, WriteBack.step, copy,
        List.filterMap_append]
      rw [hmemory, ← hdirty]
      rfl

/-- A step of the manager is a change of the copy, or none. -/
theorem refines (h : s.Proper) (e : SettingsEvent) :
    (s.step e).copy = (s.changeOf e).elim s.copy s.copy.step := by
  cases e with
  | set call => exact refines_set h call
  | setProject call =>
    show (s.setProject call).copy = s.copy
    unfold setProject
    split
    · simp [copy, taskOf]
    · rfl
  | setProjectTrusted trusted =>
    show (s.setProjectTrusted trusted).copy = s.copy
    unfold setProjectTrusted
    split
    · rfl
    · rfl
  | reload => simp [SettingsManager.step, changeOf, copy, WriteBack.step, taskOf]
  | task =>
    cases hqueue : s.writeQueue with
    | nil => simp [SettingsManager.step, changeOf, hqueue]
    | cons task tasks =>
      cases task with
      | load =>
        simp [SettingsManager.step, changeOf, hqueue, copy, taskOf, WriteBack.step, load, has_empty]
        rfl
      | write scope snapshotSettings modified =>
        cases scope with
        | project =>
          simp only [SettingsManager.step, changeOf, hqueue, runWrite, List.head?_cons, taskOf,
            Option.bind_some,
            Option.map_none, Option.elim_none]
          split
          · simp [copy, hqueue, List.filterMap_cons, taskOf]
          · simp [copy, hqueue, List.filterMap_cons, taskOf]
        | global =>
          have hgood : modified.Good snapshotSettings := by
            apply h.queued
            rw [hqueue]
            exact List.mem_cons_self
          have hstore : viewed (persistScopedSettings s.global.file snapshotSettings modified) =
              WriteBack.overlay (fun p => if modified.has p then some (snapshotSettings.valueAt p) else none)
                (viewed s.global.file) := by
            funext p
            rw [hgood.viewed_persisted, WriteBack.overlay_ite modified.has]
          simp [SettingsManager.step, changeOf, hqueue, runWrite, copy, taskOf, WriteBack.step,
            WriteBack.write,
            hstore, has_empty]
  | outside scope file =>
    cases scope with
    | global => rfl
    | project => rfl

theorem followed_eq (origin : Setting → Origin (Option Json)) (e : SettingsEvent) :
    s.followed e origin = (s.changeOf e).elim origin fun c => s.copy.follow c origin := by
  funext p
  cases e with
  | set call =>
    cases ha : call.assignments s.global.settings with
    | none => simp [followed, changeOf, assigns, ha]
    | some assignments =>
      cases hs : applyAll s.global.settings assignments with
      | none => simp [followed, changeOf, assigns, ha, hs]
      | some settings =>
        rw [followed, set_some ha hs]
        simp only [assigns, ha, hs, Option.isSome_some, Bool.true_and, changeOf, Option.map_some,
          Option.elim_some,
          WriteBack.follow]
        split
        · rfl
        · rfl
  | setProject call => rfl
  | setProjectTrusted trusted => rfl
  | reload => rfl
  | task =>
    cases hqueue : s.writeQueue with
    | nil => simp [followed, changeOf, hqueue]
    | cons task tasks =>
      cases task with
      | load =>
        simp only [followed, changeOf, hqueue, List.head?_cons, Option.bind_some, taskOf,
          Option.map_some,
          Option.elim_some, WriteBack.follow, copy, List.filterMap_cons]
      | write scope snapshotSettings modified =>
        cases scope with
        | project => simp [followed, changeOf, hqueue, taskOf]
        | global => simp [followed, changeOf, hqueue, taskOf, WriteBack.follow, copy, WriteBack.write]
  | outside scope file =>
    cases scope with
    | global =>
      have hcarried : s.copy.carried p = s.writeQueue.any (QueuedTask.carries p) :=
        carries_taskOf _ p
      simp only [followed, changeOf, Option.elim_some, WriteBack.follow]
      rw [hcarried]
      by_cases hp : s.writeQueue.any (QueuedTask.carries p) = true ∨ viewed file p = viewed s.global.file p
      · exact (if_pos hp).trans (if_pos hp).symm
      · exact (if_neg hp).trans (if_neg hp).symm
    | project => rfl

end Steps

/-! ## Runs -/

theorem create_proper (globalFile projectFile : Fields) (projectTrusted : Bool) :
    (create globalFile projectFile projectTrusted).Proper := ⟨good_empty _, nofun⟩

/-- Whatever the order of the steps, once the queue is done the file holds for each setting the value
it was given last; the manager holds it too where it is its own. -/
theorem settings_merged {globalFile projectFile : Fields} {projectTrusted : Bool}
    {events : List SettingsEvent}
    {s : SettingsManager} {origin : Setting → Origin (Option Json)}
    (hrun : Run Next (create globalFile projectFile projectTrusted, fun p => .outside (viewed globalFile p))
      events (s, origin)) (hflushed : s.writeQueue = []) (p : Setting) :
    viewed s.global.file p = (origin p).value ∧
      ∀ value, origin p = .own value → s.global.settings.valueAt p = value := by
  have hinv : ∀ (s : SettingsManager × (Setting → Origin (Option Json))) e t, Next s e t →
      s.1.Proper ∧ s.1.copy.Settled s.2 → t.1.Proper ∧ t.1.copy.Settled t.2 := by
    rintro ⟨s, origin⟩ e t rfl ⟨hproper, hsettled⟩
    refine ⟨hproper.step e, ?_⟩
    show (s.step e).copy.Settled (s.followed e origin)
    rw [refines hproper e, followed_eq origin e]
    cases s.changeOf e with
    | none => exact hsettled
    | some c => exact hsettled.step c
  have hcopy : (create globalFile projectFile projectTrusted).copy =
      WriteBack.fresh (viewed globalFile) := by
    simp only [copy, create, WriteBack.fresh, has_empty]
    rfl
  have hfresh : (create globalFile projectFile projectTrusted).copy.Settled
      fun p => .outside (viewed globalFile p) := by
    rw [hcopy]
    exact WriteBack.fresh_settled _
  obtain ⟨-, hsettled⟩ := hrun.invariant ⟨create_proper _ _ _, hfresh⟩ hinv
  have hcarried : s.copy.carried p = false := by simp [WriteBack.carried, copy, hflushed]
  exact ⟨hsettled.not_carried hcarried, hsettled.own p⟩

/-! A theme is set, and another setting behind a reload; another process adds a third one. -/

namespace MergeExample

def theme : Setting := .field "theme" (by decide)

def quietStartup : Setting := .field "quietStartup" (by decide)

def shellPath : Setting := .field "shellPath" (by decide)

/-- The file as the other process leaves it. -/
def edited : Fields := [("theme", .string "dark"), ("shellPath", .string "/bin/zsh")]

def events : List SettingsEvent :=
  [.set (.setTheme "dark"), .reload, .set (.setQuietStartup true), .task, .outside .global edited, .task, .task]

def reached (n : Nat) : SettingsManager := (events.take n).foldl step (create [] [] true)

/-- The manager once the queue is done. -/
def saved : SettingsManager := reached 7

theorem last_steps (origin : Setting → Origin (Option Json)) :
    Run Next (reached 4, origin) (events.drop 4)
      (saved, fun p => ((reached 4).followed (.outside .global edited) origin p).read (viewed edited p)) :=
  .cons rfl (.cons rfl (.single rfl))

theorem carried_stays {p : Setting} {origin : Setting → Origin (Option Json)}
    (h : (reached 4).writeQueue.any (QueuedTask.carries p) = true) :
    (reached 4).followed (.outside .global edited) origin p = origin p := if_pos (.inl h)

/-- The later write carries the theme again, and the reload reads it as it is; of the setting behind the
reload it reads another value. -/
theorem saved_run : ∃ origin,
    Run Next (create [] [] true, fun p => .outside (viewed [] p)) events (saved, origin) ∧
      origin theme = .own (some (.string "dark")) ∧ origin quietStartup = .reread (some (.bool true)) ∧
        origin shellPath = .outside (some (.string "/bin/zsh")) := by
  obtain ⟨origin, hrun, htheme, hquiet, hshell⟩ : ∃ origin,
      Run Next (create [] [] true, fun p => .outside (viewed [] p)) (events.take 4) (reached 4, origin) ∧
        origin theme = .own (some (.string "dark")) ∧ origin quietStartup = .own (some (.bool true)) ∧
          origin shellPath = .outside none :=
    ⟨_, .cons rfl (.cons rfl (.cons rfl (.single rfl))), rfl, rfl, rfl⟩
  refine ⟨_, hrun.append (last_steps origin), ?_, ?_, ?_⟩
  · rw [carried_stays rfl, htheme]
    exact if_pos rfl
  · rw [carried_stays rfl, hquiet]
    exact if_neg nofun
  · have hchanged : viewed edited shellPath ≠ viewed (reached 4).global.file shellPath := nofun
    have hfree : (reached 4).writeQueue.any (QueuedTask.carries shellPath) = false := rfl
    rw [followed, if_neg (by simp [hfree, hchanged])]
    rfl

/-- The file has a compaction field; another process changes one property of it. -/
def before : Fields := [("compaction", .object [("reserveTokens", .number (some 1))])]

def after : Fields := [("compaction", .object [("reserveTokens", .number (some 2))])]

/-- The other property is set, and written. -/
def merged : SettingsManager :=
  (((create before [] true).step (.outside .global after)).step (.set (.setCompactionEnabled true))).step .task

end MergeExample

open MergeExample in
theorem settings_merged_example :
    viewed saved.global.file theme = some (.string "dark") ∧
      saved.global.settings.valueAt theme = some (.string "dark") ∧
        viewed saved.global.file quietStartup = some (.bool true) ∧
          viewed saved.global.file shellPath = some (.string "/bin/zsh") := by
  obtain ⟨origin, hrun, htheme, hquiet, hshell⟩ := saved_run
  obtain ⟨hfile, hown⟩ := settings_merged hrun rfl theme
  have hquietFile := (settings_merged hrun rfl quietStartup).1
  have hshellFile := (settings_merged hrun rfl shellPath).1
  rw [htheme] at hfile
  rw [hquiet] at hquietFile
  rw [hshell] at hshellFile
  exact ⟨hfile, hown _ htheme, hquietFile, hshellFile⟩

/-- A field that is set and not changed by others any more: in the file it has a property that the
manager does not see. -/
theorem sibling_differs :
    ¬ ∀ (globalFile projectFile : Fields) (projectTrusted : Bool) (events : List SettingsEvent)
        (call : SetterCall) (assignments : List Assignment) (s t : SettingsManager),
        Run (fun s e t => t = SettingsManager.step s e) (create globalFile projectFile projectTrusted) events s →
        Run (fun s e t => t = SettingsManager.step s e) s [.set call, .task] t →
        call.assignments s.global.settings = some assignments → t.writeQueue = [] →
        ∀ a ∈ assignments, t.global.file.lookup a.name = t.global.settings.lookup a.name := by
  intro h
  have heq := h MergeExample.before [] true [.outside .global MergeExample.after] (.setCompactionEnabled true) _ _
    MergeExample.merged (.cons rfl (.nil _)) (.cons rfl (.cons rfl (.nil _))) rfl rfl _ (List.mem_singleton.2 rfl)
  have hfile : MergeExample.merged.global.file.lookup "compaction" =
      some (.object [("reserveTokens", .number (some 2)), ("enabled", .bool true)]) := rfl
  have hmemory : MergeExample.merged.global.settings.lookup "compaction" =
      some (.object [("reserveTokens", .number (some 1)), ("enabled", .bool true)]) := rfl
  have heq : MergeExample.merged.global.file.lookup "compaction" =
      MergeExample.merged.global.settings.lookup "compaction" := heq
  rw [hfile, hmemory] at heq
  simp at heq

end SettingsManager

end PieLab.Settings

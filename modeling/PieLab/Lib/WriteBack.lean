import PieLab.Lib.Runs

/-
  A copy that is written back — a library

  A copy of a store is changed in memory. Each change queues a write of the keys
  that were changed and not written since; a reload queues a read. The queue is
  worked off one task after another, and others change the store in between.

  What is proved:
    1. `Settled.step` — whatever the order, once the queue is worked off the store
       holds for each key what it was given last: the value set in the copy, if no
       other changed it after the last write that carries it, and else the value
       of the others. The copy holds it too, unless it has read another value
       before that write.
-/

namespace PieLab.Lib

variable {κ ν : Type}

namespace WriteBack

/-- A task of the queue: the keys that are written have values. -/
inductive Task (κ ν : Type) where
  | write (values : κ → Option ν)
  | load

/-- The values, over the others. -/
def overlay (values : κ → Option ν) (base : κ → ν) : κ → ν := fun k => (values k).getD (base k)

def Task.carries (k : κ) : Task κ ν → Bool
  | .write values => (values k).isSome
  | .load => false

def Task.apply (store : κ → ν) : Task κ ν → κ → ν
  | .write values => overlay values store
  | .load => store

end WriteBack

structure WriteBack (κ ν : Type) where
  store : κ → ν
  memory : κ → ν
  dirty : κ → Bool
  tasks : List (WriteBack.Task κ ν)

namespace WriteBack

inductive Change (κ ν : Type) where
  | set (values : κ → Option ν)
  | reload
  /-- The first task is done. -/
  | task
  | outside (store : κ → ν)

/-- What is written: the keys that are dirty. -/
def write (memory : κ → ν) (dirty : κ → Bool) : Task κ ν :=
  .write fun k => if dirty k then some (memory k) else none

def step (s : WriteBack κ ν) : Change κ ν → WriteBack κ ν
  | .set values =>
    let memory := overlay values s.memory
    let dirty := fun k => s.dirty k || (values k).isSome
    { s with memory, dirty, tasks := s.tasks ++ [write memory dirty] }
  | .reload => { s with tasks := s.tasks ++ [.load] }
  | .task =>
    match s.tasks with
    | [] => s
    | .load :: tasks => { s with memory := s.store, dirty := fun _ => false, tasks }
    | .write values :: tasks =>
      { s with store := overlay values s.store, dirty := fun _ => false, tasks }
  | .outside store => { s with store }

/-- A write of the key is queued. -/
def carried (s : WriteBack κ ν) (k : κ) : Bool := s.tasks.any (Task.carries k)

/-- The store once the tasks are done. -/
def drain (tasks : List (Task κ ν)) (store : κ → ν) : κ → ν := tasks.foldl Task.apply store

/-! ## Who gave a key its value -/

inductive Origin (ν : Type) where
  /-- The key has its value from outside. -/
  | outside (value : ν)
  | own (value : ν)
  /-- The copy has read another value since, and its own is written after that. -/
  | reread (value : ν)

def Origin.value : Origin ν → ν
  | .outside value => value
  | .own value => value
  | .reread value => value

open Classical in
/-- The copy reads the key again. -/
noncomputable def Origin.read (found : ν) : Origin ν → Origin ν
  | .outside value => .outside value
  | .own value | .reread value => if found = value then .own value else .reread value

open Classical in
/-- Who gives the key its value, after a change. -/
noncomputable def follow (s : WriteBack κ ν) (c : Change κ ν) (origin : κ → Origin ν) (k : κ) :
    Origin ν :=
  match c with
  | .set values => (values k).elim (origin k) .own
  | .reload => origin k
  | .task =>
    match s.tasks with
    | .load :: _ => (origin k).read (s.store k)
    | _ => origin k
  | .outside store =>
    if s.carried k = true ∨ store k = s.store k then origin k else .outside (store k)

/-! ## Draining the queue -/

theorem overlay_some {values : κ → Option ν} {base : κ → ν} {k : κ} {v : ν}
    (h : values k = some v) :
    overlay values base k = v := by simp [overlay, h]

theorem overlay_none {values : κ → Option ν} {base : κ → ν} {k : κ} (h : values k = none) :
    overlay values base k = base k := by simp [overlay, h]

theorem overlay_ite (chosen : κ → Bool) (values base : κ → ν) (k : κ) :
    overlay (fun k => if chosen k then some (values k) else none) base k =
      if chosen k then values k else base k := by
  show ((if chosen k then some (values k) else none).getD (base k)) = _
  split
  · rfl
  · rfl

theorem drain_append (tasks : List (Task κ ν)) (task : Task κ ν) (store : κ → ν) :
    drain (tasks ++ [task]) store = task.apply (drain tasks store) := by
  simp [drain]

theorem write_apply (memory : κ → ν) (dirty : κ → Bool) (store : κ → ν) (k : κ) :
    (write memory dirty).apply store k = if dirty k then memory k else store k :=
  overlay_ite dirty memory store k

theorem drain_of_not_carried {tasks : List (Task κ ν)} {store : κ → ν} {k : κ}
    (h : tasks.any (Task.carries k) = false) : drain tasks store k = store k := by
  induction tasks generalizing store with
  | nil => rfl
  | cons task tasks ih =>
    simp only [List.any_cons, Bool.or_eq_false_iff] at h
    obtain ⟨htask, htasks⟩ := h
    show drain tasks (task.apply store) k = store k
    rw [ih htasks]
    cases task with
    | load => rfl
    | write values =>
      apply overlay_none
      simpa [Task.carries] using htask

theorem drain_congr {tasks : List (Task κ ν)} {store store' : κ → ν} {k : κ}
    (h : tasks.any (Task.carries k) = true ∨ store k = store' k) :
    drain tasks store k = drain tasks store' k := by
  induction tasks generalizing store store' with
  | nil => simpa [drain] using h
  | cons task tasks ih =>
    show drain tasks (task.apply store) k = drain tasks (task.apply store') k
    apply ih
    by_cases htasks : tasks.any (Task.carries k) = true
    · exact .inl htasks
    · right
      cases task with
      | load => simpa [Task.carries, Task.apply, htasks] using h
      | write values =>
        cases hvalue : values k with
        | some v => rw [Task.apply, Task.apply, overlay_some hvalue, overlay_some hvalue]
        | none =>
          rw [Task.apply, Task.apply, overlay_none hvalue, overlay_none hvalue]
          simpa [Task.carries, hvalue, htasks] using h

/-! ## The invariant -/

/-- What the queue leaves behind is what the keys were given last; what is dirty is queued, and was set
in the copy. -/
structure Settled (s : WriteBack κ ν) (origin : κ → Origin ν) : Prop where
  drained : ∀ k, drain s.tasks s.store k = (origin k).value
  dirty : ∀ k, s.dirty k = true → s.carried k = true ∧ ∃ v, origin k = .own v
  own : ∀ k v, origin k = .own v → s.memory k = v

section Steps
variable {s : WriteBack κ ν} {origin : κ → Origin ν}

theorem Settled.not_carried (h : s.Settled origin) {k : κ} (hk : s.carried k = false) :
    s.store k = (origin k).value := by
  rw [← h.drained k]
  exact (drain_of_not_carried hk).symm

theorem Settled.set (h : s.Settled origin) (values : κ → Option ν) :
    (s.step (.set values)).Settled (s.follow (.set values) origin) where
  drained k := by
    show drain (s.tasks ++ [_]) s.store k = ((values k).elim (origin k) .own).value
    rw [drain_append, write_apply]
    cases hvalue : values k with
    | some v => simp [overlay_some hvalue, Origin.value]
    | none =>
      rw [overlay_none hvalue, Option.elim_none, Option.isSome_none, Bool.or_false]
      cases hdirty : s.dirty k with
      | true =>
        -- the key is written again, with the value of the copy
        obtain ⟨-, v, hown⟩ := h.dirty k hdirty
        rw [hown, if_pos rfl]
        exact h.own k v hown
      | false =>
        rw [if_neg Bool.false_ne_true]
        exact h.drained k
  dirty k hdirty := by
    have hset : s.dirty k = true ∨ (values k).isSome = true := by
      simpa [step] using hdirty
    have hcarried : (s.step (.set values)).carried k = true := by
      show (s.tasks ++ [_]).any _ = true
      simp [write, Task.carries, hset]
    refine ⟨hcarried, ?_⟩
    show ∃ v, (values k).elim (origin k) .own = .own v
    cases hvalue : values k with
    | some v => exact ⟨v, rfl⟩
    | none =>
      rw [hvalue] at hset
      exact (h.dirty k (by simpa using hset)).2
  own k v hown := by
    have hown : (values k).elim (origin k) .own = .own v := hown
    show overlay values s.memory k = v
    cases hvalue : values k with
    | some w =>
      rw [hvalue, Option.elim_some] at hown
      rw [overlay_some hvalue]
      exact Origin.own.inj hown
    | none =>
      rw [hvalue] at hown
      rw [overlay_none hvalue]
      exact h.own k v hown

theorem Settled.reload (h : s.Settled origin) :
    (s.step .reload).Settled (s.follow .reload origin) where
  drained k := by
    show drain (s.tasks ++ [.load]) s.store k = _
    rw [drain_append]
    exact h.drained k
  dirty k hdirty := by
    obtain ⟨hcarried, hown⟩ := h.dirty k hdirty
    refine ⟨?_, hown⟩
    show (s.tasks ++ [_]).any _ = true
    rw [List.any_append, Bool.or_eq_true]
    exact .inl hcarried
  own := h.own

theorem Origin.read_value (found : ν) (origin : Origin ν) :
    (origin.read found).value = origin.value := by
  cases origin with
  | outside v => rfl
  | own v =>
    simp only [read]
    split <;> rfl
  | reread v =>
    simp only [read]
    split <;> rfl

open Classical in
/-- A value of its own that the copy has read is the one found. -/
theorem Origin.read_own {found v : ν} {origin : Origin ν} (h : origin.read found = .own v) :
    found = v := by
  have hread : ∀ w, (if found = w then Origin.own w else .reread w) = .own v → found = v := by
    intro w h
    split at h
    · next hfound => exact hfound.trans (Origin.own.inj h)
    · cases h
  cases origin with
  | outside w => cases h
  | own w => exact hread w h
  | reread w => exact hread w h

theorem Settled.task (h : s.Settled origin) : (s.step .task).Settled (s.follow .task origin) := by
  cases htasks : s.tasks with
  | nil =>
    have hstep : s.step .task = s := by simp [step, htasks]
    have hfollow : s.follow .task origin = origin := by
      funext k
      simp [follow, htasks]
    rw [hstep, hfollow]
    exact h
  | cons task tasks =>
    have hdrained := h.drained
    rw [htasks] at hdrained
    cases task with
    | write values =>
      have hstep : s.step .task =
          { s with store := overlay values s.store, dirty := fun _ => false, tasks } := by
        simp [step, htasks]
      have hfollow : s.follow .task origin = origin := by
        funext k
        simp [follow, htasks]
      rw [hstep, hfollow]
      exact ⟨hdrained, nofun, h.own⟩
    | load =>
      have hstep : s.step .task = { s with memory := s.store, dirty := fun _ => false, tasks } := by
        simp [step, htasks]
      have hfollow : ∀ k, s.follow .task origin k = (origin k).read (s.store k) := by
        intro k
        simp [follow, htasks]
      rw [hstep]
      refine ⟨?_, nofun, ?_⟩
      · intro k
        rw [hfollow, Origin.read_value]
        exact hdrained k
      · intro k v hown
        rw [hfollow] at hown
        exact Origin.read_own hown

theorem Settled.outside (h : s.Settled origin) (store : κ → ν) :
    (s.step (.outside store)).Settled (s.follow (.outside store) origin) where
  drained k := by
    show drain s.tasks store k = (s.follow (.outside store) origin k).value
    unfold follow
    simp only
    split
    · next hsame =>
      rw [drain_congr hsame]
      exact h.drained k
    · next hchanged =>
      have hcarried : s.carried k = false := by simpa using fun hk => hchanged (.inl hk)
      exact drain_of_not_carried hcarried
  dirty k hdirty := by
    obtain ⟨hcarried, v, hown⟩ := h.dirty k hdirty
    refine ⟨hcarried, v, ?_⟩
    simp [follow, hcarried, hown]
  own k v hown := by
    unfold follow at hown
    simp only at hown
    split at hown
    · exact h.own k v hown
    · exact absurd hown nofun

theorem Settled.step (h : s.Settled origin) (c : Change κ ν) :
    (s.step c).Settled (s.follow c origin) := by
  cases c with
  | set values => exact h.set values
  | reload => exact h.reload
  | task => exact h.task
  | outside store => exact h.outside store

end Steps

/-- A copy that was just read. -/
def fresh (store : κ → ν) : WriteBack κ ν :=
  { store, memory := store, dirty := fun _ => false, tasks := [] }

theorem fresh_settled (store : κ → ν) : (fresh store).Settled fun k => .outside (store k) where
  drained _ := rfl
  dirty := nofun
  own := nofun

end WriteBack

end PieLab.Lib

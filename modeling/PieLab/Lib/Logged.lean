import Mathlib.Data.List.Basic

/-
  Runs that log — a library

  A computation that may throw and appends entries to a log as it goes: the
  requests it makes, the files it touches. The log survives the error.

  What is proved:
    1. `Runs.bind`, `Runs.bind_error` — what a run logs and ends with, from what
       its parts log and end with.
    2. `Runs.then` — a run followed by another one begins with the entries of
       the first.
    3. `Runs.caught` — a run whose error is caught keeps what it logged.
-/

namespace PieLab.Lib

/-- A run that may throw and logs entries. -/
abbrev LoggedM (ω ε α : Type) := ExceptT ε (StateM (List ω)) α

section Logged
variable {ω ε α β : Type}

/-- The entries a run logs, in order. -/
def issued (x : LoggedM ω ε α) : List ω := (x.run.run []).2

/-- Log one entry. -/
def record (entry : ω) : LoggedM ω ε Unit := modify (· ++ [entry])

/-- From any log, the run ends with `result` and appends `entries` to the log. -/
def Runs (x : LoggedM ω ε α) (entries : List ω) (result : Except ε α) : Prop :=
  ∀ log, x.run.run log = (result, log ++ entries)

variable {x : LoggedM ω ε α} {result : Except ε α} {f : α → LoggedM ω ε β} {r : List ω}

theorem Runs.issued {entries : List ω} (h : Runs x entries result) : issued x = entries := by
  unfold Lib.issued
  rw [h []]; rfl

theorem runs_pure (a : α) : Runs (pure a : LoggedM ω ε α) [] (.ok a) := by
  intro log; rw [List.append_nil]; rfl

theorem runs_throw (e : ε) : Runs (throw e : LoggedM ω ε α) [] (.error e) := by
  intro log; rw [List.append_nil]; rfl

theorem runs_record (entry : ω) : Runs (record entry : LoggedM ω ε Unit) [entry] (.ok ()) := by
  intro log; rfl

theorem Runs.bind {r' : List ω} {a : α} {result : Except ε β} (hx : Runs x r (.ok a))
    (hf : Runs (f a) r' result) : Runs (x >>= f) (r ++ r') result := by
  intro log
  have hx := hx log
  have hf := hf (log ++ r)
  rw [List.append_assoc] at hf
  simp only [ExceptT.run_bind, StateT.run_bind, hx]
  exact hf

theorem Runs.bind_error {e : ε} (hx : Runs x r (.error e)) : Runs (x >>= f) r (.error e) := by
  intro log
  simp only [ExceptT.run_bind, StateT.run_bind, hx log]
  rfl

theorem Runs.bind_silent (hx : Runs x r result)
    (hf : ∀ a, result = .ok a → ∃ result', Runs (f a) [] result') :
    ∃ result', Runs (x >>= f) r result' := by
  cases result with
  | error e => exact ⟨_, hx.bind_error⟩
  | ok a =>
    obtain ⟨result', h⟩ := hf a rfl
    have hbind := hx.bind h
    rw [List.append_nil] at hbind
    exact ⟨result', hbind⟩

/-- A run followed by another one begins with the entries of the first. -/
theorem Runs.then (hx : Runs x r result) (hf : ∀ a, ∃ r' result', Runs (f a) r' result') :
    ∃ rest result', Runs (x >>= f) (r ++ rest) result' := by
  cases result with
  | error e => exact ⟨[], .error e, by rw [List.append_nil]; exact hx.bind_error⟩
  | ok a =>
    obtain ⟨r', result', h⟩ := hf a
    exact ⟨r', result', hx.bind h⟩

theorem Runs.caught {a : α} (hx : Runs x r (.ok a)) (handler : ε → LoggedM ω ε α) :
    Runs (tryCatch x handler) r (.ok a) := by
  intro log
  show (ExceptT.tryCatch x handler).run.run log = _
  simp only [ExceptT.tryCatch, ExceptT.run, ExceptT.mk, StateT.run_bind]
  rw [show StateT.run x log = (.ok a, log ++ r) from hx log]
  rfl

theorem Runs.caught_error {r' : List ω} {e : ε} (hx : Runs x r (.error e))
    (handler : ε → LoggedM ω ε α) (hh : Runs (handler e) r' result) :
    Runs (tryCatch x handler) (r ++ r') result := by
  intro log
  have hh := hh (log ++ r)
  rw [List.append_assoc] at hh
  show (ExceptT.tryCatch x handler).run.run log = _
  simp only [ExceptT.tryCatch, ExceptT.run, ExceptT.mk, StateT.run_bind]
  rw [show StateT.run x log = (.error e, log ++ r) from hx log]
  exact hh

theorem Runs.caught_silent (hx : Runs x r result) (handler : ε → LoggedM ω ε α)
    (hh : ∀ e, ∃ result', Runs (handler e) [] result') :
    ∃ result', Runs (tryCatch x handler) r result' := by
  cases result with
  | ok a => exact ⟨.ok a, hx.caught handler⟩
  | error e =>
    obtain ⟨result', h⟩ := hh e
    have hcaught := hx.caught_error handler h
    rw [List.append_nil] at hcaught
    exact ⟨result', hcaught⟩

end Logged

end PieLab.Lib

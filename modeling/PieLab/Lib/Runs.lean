import Mathlib.Logic.Basic

/-
  Runs of a labelled transition relation — a library

  A system is a relation `next s e t`: from `s`, the event `e` may lead to `t`.
  A run is a list of events with the states it passes through.

  What is proved:
    1. `Run.invariant` — what holds at the start and is kept by every step holds
       at the end of every run.
    2. `Run.append`, `Run.split` — runs compose and decompose.
    3. `Run.unique` — a run of a deterministic system has one end.
-/

namespace PieLab.Lib

section Runs
variable {σ ε : Type} (next : σ → ε → σ → Prop)

/-- A run from `s` over the events to `t`. -/
inductive Run : σ → List ε → σ → Prop where
  | nil (s : σ) : Run s [] s
  | cons {s t u : σ} {e : ε} {es : List ε} (h : next s e t) (rest : Run t es u) : Run s (e :: es) u

variable {next}

theorem Run.append {s t u : σ} {es fs : List ε} (h : Run next s es t) (h' : Run next t fs u) :
    Run next s (es ++ fs) u := by
  induction h with
  | nil s => exact h'
  | cons h _ ih => exact .cons h (ih h')

theorem Run.split {s u : σ} {es fs : List ε} (h : Run next s (es ++ fs) u) :
    ∃ t, Run next s es t ∧ Run next t fs u := by
  induction es generalizing s with
  | nil => exact ⟨s, .nil s, h⟩
  | cons e es ih =>
    cases h with
    | cons h rest =>
      obtain ⟨t, h1, h2⟩ := ih rest
      exact ⟨t, .cons h h1, h2⟩

theorem Run.single {s t : σ} {e : ε} (h : next s e t) : Run next s [e] t := .cons h (.nil t)

theorem Run.imp {next' : σ → ε → σ → Prop} (himp : ∀ s e t, next s e t → next' s e t) {s t : σ}
    {es : List ε} (h : Run next s es t) : Run next' s es t := by
  induction h with
  | nil s => exact .nil s
  | cons hnext _ ih => exact .cons (himp _ _ _ hnext) ih

theorem Run.unique (hdet : ∀ {s e t t'}, next s e t → next s e t' → t = t') {s t t' : σ}
    {es : List ε} (h : Run next s es t) (h' : Run next s es t') : t = t' := by
  induction h with
  | nil s => cases h'; rfl
  | cons hnext _ ih =>
    cases h' with
    | cons hnext' rest' =>
      rw [hdet hnext hnext'] at ih
      exact ih rest'

/-- What holds at the start and is kept by every step holds at the end. -/
theorem Run.invariant {Inv : σ → Prop} {s t : σ} {es : List ε} (h : Run next s es t)
    (h0 : Inv s) (hstep : ∀ s e t, next s e t → Inv s → Inv t) : Inv t := by
  induction h with
  | nil s => exact h0
  | cons h _ ih => exact ih (hstep _ _ _ h h0)

end Runs

end PieLab.Lib

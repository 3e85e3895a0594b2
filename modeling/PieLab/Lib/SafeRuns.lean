import PieLab.Lib.Runs

/-
  Runs that stay in a property unless one kind of step happens — a library

  A property may fail along the runs of a system for one reason only: a kind of
  step that is not meant to happen. Then a run stays in the property exactly if
  it has no such step.

  What is proved:
    1. `Run.inv_of_never` — an invariant that all other steps keep, along a run.
    2. `Run.always_iff_never` — the equivalence, for a deterministic system.
-/

namespace PieLab.Lib

section SafeRuns
variable {σ ε : Type} (next : σ → ε → σ → Prop)

/-- The property holds of every state the events lead through. -/
def Always (P : σ → Prop) (s : σ) (es : List ε) : Prop :=
  ∀ before after t, es = before ++ after → Run next s before t → P t

/-- None of the events is a bad one where it happens. -/
def Never (bad : σ → ε → Prop) (s : σ) (es : List ε) : Prop :=
  ∀ before e after t, es = before ++ e :: after → Run next s before t → ¬ bad t e

variable {next} {P Inv Held : σ → Prop} {bad : σ → ε → Prop}

theorem Never.head {s : σ} {e : ε} {es : List ε} (h : Never next bad s (e :: es)) : ¬ bad s e :=
  h [] e es s rfl (.nil s)

theorem Never.tail {s t : σ} {e : ε} {es : List ε} (h : Never next bad s (e :: es))
    (hnext : next s e t) : Never next bad t es := by
  intro before f after u hes hrun
  exact h (e :: before) f after u (by rw [hes, List.cons_append]) (.cons hnext hrun)

theorem Run.inv_of_never {s t : σ} {before after : List ε} (hrun : Run next s before t)
    (hnever : Never next bad s (before ++ after)) (hinv : Inv s)
    (hstep : ∀ s e t, next s e t → ¬ bad s e → Inv s → Inv t) : Inv t := by
  induction hrun with
  | nil s => exact hinv
  | cons hnext _ ih =>
    rw [List.cons_append] at hnever
    exact ih (hnever.tail hnext) (hstep _ _ _ hnext hnever.head hinv)

/-- `Inv` is kept by all steps but the bad ones, `Held` by all of them. -/
theorem Run.always_iff_never (hdet : ∀ s e t t', next s e t → next s e t' → t = t')
    (hstep : ∀ s e t, next s e t → ¬ bad s e → Inv s → Inv t)
    (hheld : ∀ s e t, next s e t → Held s → Held t) (hsafe : ∀ s, Inv s → P s)
    (hbad : ∀ s e t, next s e t → bad s e → Held s → ¬ P t) {s u : σ} {es : List ε}
    (hrun : Run next s es u) (hinv : Inv s) (hstart : Held s) :
    Always next P s es ↔ Never next bad s es := by
  constructor
  · intro halways before e after t hes hbefore hbade
    rw [hes] at hrun
    obtain ⟨t', hbefore', hrest⟩ := hrun.split
    obtain rfl := @Run.unique σ ε next (hdet _ _ _ _) _ _ _ _ hbefore hbefore'
    cases hrest with
    | @cons _ v _ _ _ hnext hrest =>
      have hafter : P v := halways (before ++ [e]) after v (by rw [hes]; simp)
        (hbefore.append (.single hnext))
      exact hbad t e v hnext hbade (hbefore.invariant hstart hheld) hafter
  · intro hnever before after t hes hbefore
    rw [hes] at hnever
    exact hsafe t (hbefore.inv_of_never hnever hinv hstep)

end SafeRuns

end PieLab.Lib

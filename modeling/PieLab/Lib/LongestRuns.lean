import Mathlib.Data.List.Basic

/-
  The longest run at the front of a list — a library

  A loop takes elements off the front of a list as long as a condition on what it has
  taken holds. Where the condition holds of the beginning of whatever it holds of, the
  loop ends with the longest run.

  What is proved:
    1. `LongestRun.of_stop` — a run is the longest one where the list ends behind it,
       or the next element does not fit.
    2. `LongestRun.unique` — there is one longest run.
-/

namespace PieLab.Lib

variable {α : Type} {ok : List α → Prop} {l run : List α}

/-- The run stands at the front of the list, keeps the condition, and no longer one does. -/
structure LongestRun (ok : List α → Prop) (l run : List α) : Prop where
  front : run <+: l
  holds : ok run
  longest : ∀ other, other <+: l → ok other → other.length ≤ run.length

/-- The condition holds of the beginning of whatever it holds of. -/
def HoldsOfFronts (ok : List α → Prop) : Prop := ∀ run other, other <+: run → ok run → ok other

theorem LongestRun.of_all (holds : ok l) : LongestRun ok l l where
  front := List.prefix_rfl
  holds := holds
  longest _ hfront _ := hfront.length_le

theorem LongestRun.of_stop (hok : HoldsOfFronts ok) {x : α} {rest : List α} (holds : ok run)
    (hstop : ¬ ok (run ++ [x])) : LongestRun ok (run ++ x :: rest) run where
  front := List.prefix_append run (x :: rest)
  holds := holds
  longest other hfront hother := by
    by_contra hlong
    apply hstop
    apply hok other (run ++ [x]) _ hother
    have hnext : run ++ [x] <+: run ++ x :: rest := ⟨rest, by simp⟩
    apply List.prefix_of_prefix_length_le hnext hfront
    rw [List.length_append, List.length_singleton]
    omega

theorem LongestRun.unique {other : List α} (h : LongestRun ok l run) (h' : LongestRun ok l other) :
    run = other := by
  have hle := h'.longest run h.front h.holds
  have hge := h.longest other h'.front h'.holds
  exact (List.prefix_of_prefix_length_le h.front h'.front hle).eq_of_length (by omega)

end PieLab.Lib

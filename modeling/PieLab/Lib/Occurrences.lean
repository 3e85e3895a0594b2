import Mathlib.Data.List.Basic

/-
  Occurrences of a pattern in a list — a library

  The positions a pattern stands at, those that overlap included, and two
  occurrences that stand apart.

  What is proved:
    1. `mem_occurrences`, `succ_mem_occurrences` — a position is an occurrence
       when the pattern starts the rest of the list.
    2. `occursFrom_cons`, `occursApart_cons` — one element at a time, what an
       occurrence, or a pair that does not overlap, can begin with.
-/

namespace PieLab.Lib

variable {α : Type} [DecidableEq α]

/-- The positions `pattern` stands at, from left to right. -/
def occurrences (pattern l : List α) : List Nat :=
  (List.range (l.length + 1)).filter fun i => pattern.isPrefixOf (l.drop i)

variable {pattern l : List α} {x : α}

theorem mem_occurrences {i : Nat} :
    i ∈ occurrences pattern l ↔ i ≤ l.length ∧ pattern <+: l.drop i := by
  simp only [occurrences, List.mem_filter, List.mem_range, List.isPrefixOf_iff_prefix,
    Nat.lt_succ_iff]

theorem succ_mem_occurrences {i : Nat} :
    i + 1 ∈ occurrences pattern (x :: l) ↔ i ∈ occurrences pattern l := by
  simp only [mem_occurrences, List.length_cons, List.drop_succ_cons, Nat.add_le_add_iff_right]

theorem zero_mem_occurrences : 0 ∈ occurrences pattern l ↔ pattern <+: l := by
  simp [mem_occurrences]

theorem not_mem_occurrences_nil (hpattern : pattern ≠ []) (i : Nat) :
    i ∉ occurrences pattern [] := by
  intro hi
  have hnil := (mem_occurrences.1 hi).2
  rw [List.drop_nil, List.prefix_nil] at hnil
  exact hpattern hnil

/-- An occurrence at `k` or behind it. -/
def OccursFrom (pattern l : List α) (k : Nat) : Prop :=
  ∃ i ∈ occurrences pattern l, k ≤ i

/-- Two occurrences that do not overlap, the first at `k` or behind it. -/
def OccursApart (pattern l : List α) (k : Nat) : Prop :=
  ∃ i ∈ occurrences pattern l, ∃ j ∈ occurrences pattern l, k ≤ i ∧ i + pattern.length ≤ j

theorem occursFrom_succ {k : Nat} :
    OccursFrom pattern (x :: l) (k + 1) ↔ OccursFrom pattern l k := by
  constructor
  · intro ⟨i, hi, hk⟩
    obtain ⟨i, rfl⟩ : ∃ i', i = i' + 1 := ⟨i - 1, by omega⟩
    exact ⟨i, succ_mem_occurrences.1 hi, by omega⟩
  · intro ⟨i, hi, hk⟩
    exact ⟨i + 1, succ_mem_occurrences.2 hi, by omega⟩

/-- The first element begins an occurrence, or all of them stand behind it. -/
theorem occursFrom_cons :
    OccursFrom pattern (x :: l) 0 ↔ pattern <+: x :: l ∨ OccursFrom pattern l 0 := by
  constructor
  · intro ⟨i, hi, _⟩
    cases i with
    | zero => exact .inl (zero_mem_occurrences.1 hi)
    | succ i => exact .inr ⟨i, succ_mem_occurrences.1 hi, Nat.zero_le i⟩
  · intro h
    cases h with
    | inl h => exact ⟨0, zero_mem_occurrences.2 h, Nat.le_refl 0⟩
    | inr h =>
      obtain ⟨i, hi, -⟩ := h
      exact ⟨i + 1, succ_mem_occurrences.2 hi, Nat.zero_le _⟩

theorem occursApart_succ {k : Nat} :
    OccursApart pattern (x :: l) (k + 1) ↔ OccursApart pattern l k := by
  constructor
  · intro ⟨i, hi, j, hj, hk, hij⟩
    obtain ⟨i, rfl⟩ : ∃ i', i = i' + 1 := ⟨i - 1, by omega⟩
    obtain ⟨j, rfl⟩ : ∃ j', j = j' + 1 := ⟨j - 1, by omega⟩
    exact ⟨i, succ_mem_occurrences.1 hi, j, succ_mem_occurrences.1 hj, by omega, by omega⟩
  · intro ⟨i, hi, j, hj, hk, hij⟩
    exact ⟨i + 1, succ_mem_occurrences.2 hi, j + 1, succ_mem_occurrences.2 hj,
      by omega, by omega⟩

theorem occursApart_cons_of_not (h : ¬ pattern <+: x :: l) :
    OccursApart pattern (x :: l) 0 ↔ OccursApart pattern l 0 := by
  refine Iff.trans ?_ (occursApart_succ (x := x))
  constructor
  · intro ⟨i, hi, j, hj, _, hij⟩
    have hi0 : i ≠ 0 := by
      intro hi0
      rw [hi0] at hi
      exact h (zero_mem_occurrences.1 hi)
    exact ⟨i, hi, j, hj, by omega, hij⟩
  · intro ⟨i, hi, j, hj, _, hij⟩
    exact ⟨i, hi, j, hj, Nat.zero_le i, hij⟩

/-- Where it begins one, a second one has to stand behind the first. -/
theorem occursApart_cons (h : pattern <+: x :: l) :
    OccursApart pattern (x :: l) 0 ↔ OccursFrom pattern (x :: l) pattern.length := by
  constructor
  · intro ⟨i, _, j, hj, _, hij⟩
    exact ⟨j, hj, by omega⟩
  · intro ⟨j, hj, hlen⟩
    exact ⟨0, zero_mem_occurrences.2 h, j, hj, Nat.le_refl 0, by omega⟩

end PieLab.Lib

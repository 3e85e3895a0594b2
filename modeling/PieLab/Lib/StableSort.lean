import Mathlib.Data.List.Sort
import Mathlib.Data.Rat.Lemmas
import Mathlib.Tactic.Linarith
import Mathlib.Algebra.Order.Field.Rat

/-
  Sorting by a comparison function — a library

  `list.sort(compare)` is stable: where `compare` is not positive the left element
  stays in front. What a caller reads from the result is mostly its first element,
  the first of the least elements in the order of the list.

  What is proved:
    1. `head?_sortBy` — the first element after sorting.
    2. `sortBy_map` — sorting commutes with a change the comparison does not see.
-/

namespace PieLab.Lib

variable {α β : Type}

/-- `list.sort(compare)` -/
def sortBy (compare : α → α → ℚ) (l : List α) : List α :=
  l.mergeSort fun a b => decide (compare a b ≤ 0)

/-- A comparison function that orders its arguments. -/
structure IsComparison (compare : α → α → ℚ) : Prop where
  total : ∀ a b, compare a b ≤ 0 ∨ compare b a ≤ 0
  trans : ∀ a b c, compare a b ≤ 0 → compare b c ≤ 0 → compare a c ≤ 0

theorem sortBy_perm (compare : α → α → ℚ) (l : List α) : (sortBy compare l).Perm l :=
  List.mergeSort_perm l _

@[simp] theorem mem_sortBy {compare : α → α → ℚ} {l : List α} {a : α} :
    a ∈ sortBy compare l ↔ a ∈ l :=
  List.mem_mergeSort

@[simp] theorem sortBy_eq_nil {compare : α → α → ℚ} {l : List α} :
    sortBy compare l = [] ↔ l = [] := by
  constructor
  · intro h
    have hperm := sortBy_perm compare l
    rw [h] at hperm
    exact hperm.symm.eq_nil
  · intro h
    rw [h]
    exact List.mergeSort_nil

theorem mem_of_head?_sortBy {compare : α → α → ℚ} {l : List α} {a : α}
    (h : (sortBy compare l).head? = some a) : a ∈ l :=
  mem_sortBy.1 (List.mem_of_head? h)

theorem head?_sortBy_isSome (compare : α → α → ℚ) {l : List α} (h : l ≠ []) :
    ∃ a, (sortBy compare l).head? = some a := by
  cases hsort : sortBy compare l with
  | nil => exact absurd (sortBy_eq_nil.1 hsort) h
  | cons a rest => exact ⟨a, rfl⟩

theorem sortBy_of_pairwise {compare : α → α → ℚ} {l : List α}
    (h : l.Pairwise fun a b => compare a b ≤ 0) : sortBy compare l = l :=
  List.mergeSort_of_pairwise (h.imp (by simp))

section Order
variable {compare : α → α → ℚ} (hcompare : IsComparison compare)
include hcompare

theorem IsComparison.pairwise_sortBy (l : List α) :
    (sortBy compare l).Pairwise fun a b => compare a b ≤ 0 := by
  have h := @List.pairwise_mergeSort α (fun a b => decide (compare a b ≤ 0))
    (by simpa using hcompare.trans) (by simpa using hcompare.total) l
  exact h.imp (by simp)

/-- The first of the least elements comes first. -/
theorem IsComparison.head?_sortBy {front back : List α} {x : α}
    (hfront : ∀ y ∈ front, ¬ compare y x ≤ 0) (hback : ∀ y ∈ back, compare x y ≤ 0) :
    (sortBy compare (front ++ x :: back)).head? = some x := by
  induction front with
  | nil =>
    obtain ⟨l₁, l₂, hsort, hrest, hlt⟩ := @List.mergeSort_cons α
      (fun a b => decide (compare a b ≤ 0)) (by simpa using hcompare.trans)
      (by simpa using hcompare.total) x back
    cases l₁ with
    | nil =>
      rw [List.nil_append] at hsort ⊢
      unfold sortBy
      rw [hsort]
      rfl
    | cons y l₁ =>
      -- nothing behind `x` goes in front of it
      have hy : y ∈ back := by
        rw [← List.mem_mergeSort, hrest]
        simp
      have hnot := hlt y (by simp)
      simp [hback y hy] at hnot
  | cons y front ih =>
    have ih := ih fun z hz => hfront z (List.mem_cons_of_mem _ hz)
    have hyx := hfront y List.mem_cons_self
    obtain ⟨l₁, l₂, hsort, hrest, hlt⟩ := @List.mergeSort_cons α
      (fun a b => decide (compare a b ≤ 0)) (by simpa using hcompare.trans)
      (by simpa using hcompare.total) y (front ++ x :: back)
    unfold sortBy at ih ⊢
    rw [hrest] at ih
    rw [List.cons_append, hsort]
    cases l₁ with
    | nil =>
      -- `y` is not less than `x`, which is in the list
      have hpair := @List.pairwise_mergeSort α (fun a b => decide (compare a b ≤ 0))
        (by simpa using hcompare.trans) (by simpa using hcompare.total) (y :: (front ++ x :: back))
      rw [hsort, List.nil_append] at hpair
      rw [List.nil_append] at ih
      have hx : x ∈ l₂ := List.mem_of_head? ih
      have hle := (List.pairwise_cons.1 hpair).1 x hx
      exact absurd (by simpa using hle) hyx
    | cons z l₁ => simpa using ih

end Order

/-- Sorting commutes with a change that the comparison does not see. -/
theorem sortBy_map {f : α → β} {compare : α → α → ℚ} {compare' : β → β → ℚ} {l : List α}
    (h : ∀ a ∈ l, ∀ b ∈ l, compare' (f a) (f b) = compare a b) :
    sortBy compare' (l.map f) = (sortBy compare l).map f := by
  unfold sortBy
  rw [List.map_mergeSort]
  intro a ha b hb
  rw [h a ha b hb]

theorem isComparison_sub (f : α → ℚ) : IsComparison fun a b => f a - f b where
  total := by
    intro a b
    rcases le_total (f a) (f b) with h | h
    · left; linarith
    · right; linarith
  trans := by
    intro a b c hab hbc
    linarith

end PieLab.Lib

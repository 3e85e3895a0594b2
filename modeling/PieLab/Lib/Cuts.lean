import PieLab.Lib.JsLists
import Mathlib.Algebra.GroupWithZero.Nat
import Mathlib.Algebra.Order.BigOperators.Group.List
import Mathlib.Algebra.Order.Group.Nat
import Mathlib.Data.List.Infix

/-
  A list cut into pieces, and measures that add up over them — a library

  The pieces of a list have a cut at the end of each. What the pieces measure, such as
  their widths, is summed up to a cut; between two cuts the pieces measure the
  difference. What all of a list measures may be something else.

  What is proved:
    1. `Cut.le_or_ge` — no cut lies inside a piece.
    2. `Cut.refine`, `Cut.inside` — the cuts of pieces that are cut again.
    3. `Cut.slice` — the pieces between two cuts, and what they measure.
    4. `slice_slice` — a slice of a slice.
-/

namespace PieLab.Lib

section Cuts
variable {α : Type}

/-- A position between two of the pieces. -/
def Cut (pieces : List (List α)) (p : Nat) : Prop :=
  ∃ before after, pieces = before ++ after ∧ p = before.flatten.length

namespace Cut
variable {pieces before after : List (List α)} {piece : List α} {p : Nat}

theorem zero (pieces : List (List α)) : Cut pieces 0 := ⟨[], pieces, rfl, rfl⟩

theorem total (pieces : List (List α)) : Cut pieces pieces.flatten.length :=
  ⟨pieces, [], (List.append_nil _).symm, rfl⟩

theorem between (before after : List (List α)) : Cut (before ++ after) before.flatten.length :=
  ⟨before, after, rfl, rfl⟩

theorem le_total (h : Cut pieces p) : p ≤ pieces.flatten.length := by
  obtain ⟨before, after, rfl, rfl⟩ := h
  simp

/-- No cut lies inside a piece. -/
theorem le_or_ge (h : Cut (before ++ piece :: after) p) :
    p ≤ before.flatten.length ∨ before.flatten.length + piece.length ≤ p := by
  obtain ⟨front, back, hpieces, rfl⟩ := h
  obtain ⟨more, rfl, _⟩ | ⟨more, rfl, hmore⟩ := List.append_eq_append_iff.mp hpieces
  · cases more with
    | nil => left; simp
    | cons other more =>
      right
      simp_all
  · left
    simp

theorem before_unique {front back : List (List α)} (hne : ∀ piece ∈ pieces, piece ≠ [])
    (h : pieces = before ++ after) (h' : pieces = front ++ back)
    (hlength : before.flatten.length = front.flatten.length) : before = front ∧ after = back := by
  have hsplit : before ++ after = front ++ back := h ▸ h'
  -- the pieces in between have no length
  have hempty : ∀ more : List (List α), more.flatten.length = 0 → (∀ piece ∈ more, piece ∈ pieces) →
      more = [] := by
    intro more hmore hmem
    cases more with
    | nil => rfl
    | cons other more =>
      have hother : other = [] := by
        have hzero : other.length + more.flatten.length = 0 := by simpa using hmore
        exact List.eq_nil_of_length_eq_zero (by omega)
      exact absurd hother (hne other (hmem other List.mem_cons_self))
  obtain ⟨more, rfl, rfl⟩ | ⟨more, rfl, rfl⟩ := List.append_eq_append_iff.mp hsplit
  · have hnil := hempty more (by simpa using hlength) fun other hother => by rw [h']; simp [hother]
    subst hnil
    simp
  · have hnil := hempty more (by simpa using hlength) fun other hother => by rw [h]; simp [hother]
    subst hnil
    simp

end Cut

/-! ## Pieces that are cut again -/

/-- The pieces of each piece. -/
def Refines (finer : List α → List (List α)) (pieces : List (List α)) : Prop :=
  ∀ piece ∈ pieces, (finer piece).flatten = piece

variable {finer : List α → List (List α)}

theorem Refines.flatten {pieces : List (List α)} (h : Refines finer pieces) :
    (pieces.flatMap finer).flatten = pieces.flatten := by
  induction pieces with
  | nil => rfl
  | cons piece pieces ih =>
    have hrest := ih fun other hother => h other (List.mem_cons_of_mem _ hother)
    simp [hrest, h piece List.mem_cons_self]

theorem Refines.of_append {before after : List (List α)} (h : Refines finer (before ++ after)) :
    Refines finer before :=
  fun piece hpiece => h piece (List.mem_append_left _ hpiece)

theorem Cut.refine {pieces : List (List α)} {p : Nat} (h : Cut pieces p)
    (href : Refines finer pieces) : Cut (pieces.flatMap finer) p := by
  obtain ⟨before, after, rfl, rfl⟩ := h
  refine ⟨before.flatMap finer, after.flatMap finer, List.flatMap_append, ?_⟩
  rw [href.of_append.flatten]

/-- A cut inside one of the pieces. -/
theorem Cut.inside {before after : List (List α)} {piece : List α} {p : Nat}
    (h : Cut (finer piece) p) (href : Refines finer (before ++ piece :: after)) :
    Cut ((before ++ piece :: after).flatMap finer) (before.flatten.length + p) := by
  obtain ⟨front, back, hpiece, rfl⟩ := h
  refine ⟨before.flatMap finer ++ front, back ++ after.flatMap finer, ?_, ?_⟩
  · simp [hpiece]
  · rw [List.flatten_append, List.length_append, href.of_append.flatten]

/-! ## Measures -/

/-- The measure of neighbouring pieces is the sum of their measures. -/
def AddsUp (measure : List α → Nat) (pieces : List (List α)) : Prop :=
  ∀ run, run <:+: pieces → measure run.flatten = (run.map measure).sum

namespace AddsUp
variable {measure : List α → Nat} {pieces : List (List α)}

theorem mem_le {piece : List α} (h : AddsUp measure pieces) (hpiece : piece ∈ pieces) :
    measure piece ≤ measure pieces.flatten := by
  rw [h pieces (List.infix_refl _)]
  exact List.single_le_sum (fun _ _ => Nat.zero_le _) _ (List.mem_map_of_mem hpiece)

end AddsUp

end Cuts

/-! ## Slices -/

section Slices
variable {α : Type}
open Js

theorem slice_natCast (l : List α) {a b : Nat} (hb : b ≤ l.length) :
    slice l a b = (l.take b).drop a := by
  rw [slice, sliceIndex_natCast, sliceIndex_natCast, Nat.min_eq_left hb]
  by_cases ha : a ≤ l.length
  · rw [Nat.min_eq_left ha]
  · rw [Nat.min_eq_right (by omega), List.drop_of_length_le, List.drop_of_length_le]
    · rw [List.length_take]
      omega
    · rw [List.length_take]
      omega

/-- A slice of a part that is cut out of a list. -/
theorem slice_slice (before part after : List α) {a b : Nat} (hb : b ≤ part.length) :
    slice (before ++ part ++ after) ((before.length + a : Nat) : Int) ((before.length + b : Nat) : Int) =
      slice part a b := by
  rw [slice_natCast _ (by simp; omega), slice_natCast _ hb, List.append_assoc,
    List.take_length_add_append,
    List.drop_length_add_append, List.take_append_of_le_length hb]

theorem slice_all (l : List α) : slice l 0 l.length = l := by
  have h := @slice_natCast α l 0 l.length (le_refl _)
  rw [List.take_length] at h
  exact h

theorem slice_part (before part after : List α) :
    slice (before ++ part ++ after) before.length ((before.length + part.length : Nat) : Int) = part := by
  have h := @slice_slice α before part after 0 part.length (le_refl _)
  rw [Nat.add_zero] at h
  exact h.trans (slice_all part)

end Slices

section Measures
variable {α : Type}
open Js

/-- What the pieces up to a position measure. -/
def sumUpTo (measure : List α → Nat) : List (List α) → Nat → Nat
  | [], _ => 0
  | piece :: pieces, p =>
    if piece.length ≤ p then measure piece + sumUpTo measure pieces (p - piece.length) else 0

theorem sumUpTo_between (measure : List α → Nat) {before after : List (List α)}
    (hne : ∀ piece ∈ before ++ after, piece ≠ []) :
    sumUpTo measure (before ++ after) before.flatten.length = (before.map measure).sum := by
  induction before with
  | nil =>
    cases after with
    | nil => rfl
    | cons piece after =>
      have hpos := List.length_pos_iff.mpr (hne piece List.mem_cons_self)
      exact if_neg (by simp only [List.flatten_nil, List.length_nil]; omega)
  | cons piece before ih =>
    have hrest := ih fun other hother => hne other (List.mem_cons_of_mem _ hother)
    rw [List.flatten_cons, List.length_append, List.cons_append, sumUpTo,
      if_pos (Nat.le_add_right _ _),
      Nat.add_sub_cancel_left, hrest, List.map_cons, List.sum_cons]

/-- A slice between two cuts is made of pieces. -/
theorem Cut.slice {measure : List α → Nat} {pieces : List (List α)}
    (hne : ∀ piece ∈ pieces, piece ≠ [])
    {a b : Nat} (ha : Cut pieces a) (hb : Cut pieces b) (hle : a ≤ b) :
    ∃ run, run <:+: pieces ∧ Js.slice pieces.flatten a b = run.flatten ∧
      sumUpTo measure pieces a + (run.map measure).sum = sumUpTo measure pieces b := by
  obtain ⟨before, after, hpieces, rfl⟩ := hb
  obtain ⟨front, back, hfront, rfl⟩ := ha
  have hsplit : before ++ after = front ++ back := hpieces ▸ hfront
  obtain ⟨run, rfl, rfl⟩ : ∃ run, before = front ++ run ∧ back = run ++ after := by
    obtain ⟨more, rfl, rfl⟩ | ⟨more, rfl, rfl⟩ := List.append_eq_append_iff.mp hsplit
    · -- the later cut stands first, so that there is nothing in between
      have hmore : more.flatten.length = 0 := by
        rw [List.flatten_append, List.length_append] at hle
        omega
      have hnil : more = [] := by
        cases more with
        | nil => rfl
        | cons piece more =>
          have hpos := List.length_pos_iff.mpr (hne piece (by simp [hpieces]))
          rw [List.flatten_cons, List.length_append] at hmore
          omega
      exact ⟨[], by simp [hnil], by simp [hnil]⟩
    · exact ⟨more, rfl, rfl⟩
  refine ⟨run, ⟨front, after, hpieces.symm⟩, ?_, ?_⟩
  · have hpart := slice_part front.flatten run.flatten after.flatten
    rwa [← List.length_append, ← List.flatten_append, ← List.flatten_append, ← hpieces] at hpart
  · have hlow := sumUpTo_between measure (hfront ▸ hne)
    have hhigh := sumUpTo_between measure (hpieces ▸ hne)
    rw [← hfront] at hlow
    rw [← hpieces, List.map_append, List.sum_append] at hhigh
    rw [hlow, hhigh]

end Measures

end PieLab.Lib

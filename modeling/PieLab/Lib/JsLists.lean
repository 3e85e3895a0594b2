import Mathlib.Data.List.Basic

/-
  Slices of JavaScript lists — a library

  The slicing, splicing and searching of an array or a string whose indices may be
  negative, in which case they count from the end.

  What is proved:
    1. `slice_before`, `sliceFrom_after`, `splice_between` — what a slice or a splice at the
       end of a part of the list gives.
    2. `setAt_between`, `itemAt_between` — the same for one item.
    3. `indexOf_le`, `lastIndexOf_le` — a match lies inside the list.
    4. `indexOf_zero_eq_some`, `indexOf_zero_split` — the first match, and the list cut at it.
-/

namespace PieLab.Lib.Js
variable {α : Type}

/-- The index a slice means by `i`. -/
def sliceIndex (length : Nat) (i : Int) : Nat :=
  if i < 0 then (length + i).toNat else min i.toNat length

/-- `l.slice(a, b)` -/
def slice (l : List α) (a b : Int) : List α :=
  (l.take (sliceIndex l.length b)).drop (sliceIndex l.length a)

/-- `l.slice(a)` -/
def sliceFrom (l : List α) (a : Int) : List α := l.drop (sliceIndex l.length a)

/-- `l.splice(start, count, ...items)`, the list it leaves. -/
def splice (l : List α) (start : Int) (count : Nat) (items : List α) : List α :=
  l.take (sliceIndex l.length start) ++ items ++ l.drop (sliceIndex l.length start + count)

/-- `l[i] || fallback` -/
def itemAt (l : List α) (i : Int) (fallback : α) : α :=
  if i < 0 then fallback else (l[i.toNat]?).getD fallback

/-- `l[i] = x`, for an index of the list. -/
def setAt (l : List α) (i : Int) (x : α) : List α := if i < 0 then l else l.set i.toNat x

/-! ## Indices -/

@[simp] theorem sliceIndex_natCast (length n : Nat) : sliceIndex length n = min n length := by
  have h : ¬ (n : Int) < 0 := by omega
  rw [sliceIndex, if_neg h, Int.toNat_natCast]

@[simp] theorem slice_before (before after : List α) :
    slice (before ++ after) 0 before.length = before := by
  have h := sliceIndex_natCast (before ++ after).length 0
  rw [slice, sliceIndex_natCast, show (0 : Int) = ((0 : Nat) : Int) by rfl, h]
  simp

@[simp] theorem slice_between (before middle after : List α) :
    slice (before ++ (middle ++ after)) before.length (before.length + middle.length : Nat) = middle := by
  rw [slice, sliceIndex_natCast, sliceIndex_natCast, Nat.min_eq_left (by simp),
    Nat.min_eq_left (by simp), ← List.append_assoc, ← List.length_append, List.take_left,
    List.drop_left]

@[simp] theorem sliceFrom_after (before after : List α) :
    sliceFrom (before ++ after) before.length = after := by
  rw [sliceFrom, sliceIndex_natCast]
  simp

@[simp] theorem itemAt_between (above below : List α) (x fallback : α) :
    itemAt (above ++ x :: below) above.length fallback = x := by
  have h : ¬ (above.length : Int) < 0 := by omega
  rw [itemAt, if_neg h, Int.toNat_natCast]
  simp

@[simp] theorem setAt_between (above below : List α) (x y : α) :
    setAt (above ++ x :: below) above.length y = above ++ y :: below := by
  have h : ¬ (above.length : Int) < 0 := by omega
  rw [setAt, if_neg h, Int.toNat_natCast]
  simp

theorem splice_between (above removed below items : List α) :
    splice (above ++ (removed ++ below)) above.length removed.length items =
      above ++ (items ++ below) := by
  have h : sliceIndex (above ++ (removed ++ below)).length above.length = above.length := by
    rw [sliceIndex_natCast]
    simp
  rw [splice, h, List.take_left, ← List.append_assoc above removed below,
    ← List.length_append, List.drop_left, List.append_assoc]

/-! ## Searching -/

variable [DecidableEq α]

/-- `l.indexOf(pattern, from)` -/
def indexOf (l pattern : List α) (start : Nat) : Option Nat :=
  ((List.range (l.length + 1)).filter (start ≤ ·)).find? fun i => pattern.isPrefixOf (l.drop i)

/-- `l.lastIndexOf(pattern, from)` -/
def lastIndexOf (l pattern : List α) (last : Nat) : Option Nat :=
  ((List.range (l.length + 1)).filter (· ≤ last)).reverse.find? fun i =>
    pattern.isPrefixOf (l.drop i)

variable {l pattern : List α} {i : Nat}

theorem indexOf_le {start : Nat} (h : indexOf l pattern start = some i) : i ≤ l.length := by
  have hmem := List.mem_of_find?_eq_some h
  simp only [List.mem_filter, List.mem_range] at hmem
  omega

theorem lastIndexOf_le {last : Nat} (h : lastIndexOf l pattern last = some i) : i ≤ l.length := by
  have hmem := List.mem_of_find?_eq_some h
  simp only [List.mem_reverse, List.mem_filter, List.mem_range] at hmem
  omega

theorem indexOf_zero (l pattern : List α) :
    indexOf l pattern 0 =
      (List.range (l.length + 1)).find? fun i => pattern.isPrefixOf (l.drop i) := by
  rw [indexOf, List.filter_eq_self.2 (by simp)]

/-- The first place the pattern stands at. -/
theorem indexOf_zero_eq_some :
    indexOf l pattern 0 = some i ↔
      i ≤ l.length ∧ pattern <+: l.drop i ∧ ∀ j < i, ¬ pattern <+: l.drop j := by
  rw [indexOf_zero, List.find?_range_eq_some]
  simp only [List.isPrefixOf_iff_prefix, List.mem_range, Nat.lt_succ_iff, Bool.not_eq_true',
    ← Bool.not_eq_true]
  tauto

theorem indexOf_zero_eq_none :
    indexOf l pattern 0 = none ↔ ∀ i ≤ l.length, ¬ pattern <+: l.drop i := by
  simp only [indexOf_zero, List.find?_eq_none, List.mem_range, Nat.lt_succ_iff,
    List.isPrefixOf_iff_prefix]

/-- The text is cut at the place found. -/
theorem indexOf_zero_split (h : indexOf l pattern 0 = some i) :
    l.take i ++ pattern ++ l.drop (i + pattern.length) = l := by
  obtain ⟨rest, hrest⟩ := (indexOf_zero_eq_some.1 h).2.1
  calc l.take i ++ pattern ++ l.drop (i + pattern.length)
      = l.take i ++ (pattern ++ (l.drop i).drop pattern.length) := by simp
    _ = l.take i ++ l.drop i := by rw [← hrest]; simp
    _ = l := List.take_append_drop i l

theorem indexOf_zero_end (h : indexOf l pattern 0 = some i) : i + pattern.length ≤ l.length := by
  obtain ⟨hi, hprefix, _⟩ := indexOf_zero_eq_some.1 h
  have hle := hprefix.length_le
  rw [List.length_drop] at hle
  omega

theorem indexOf_zero_append (h : indexOf l pattern 0 = some i) (more : List α) :
    indexOf (l ++ more) pattern 0 = some i := by
  have hend := indexOf_zero_end h
  obtain ⟨hi, hprefix, hbefore⟩ := indexOf_zero_eq_some.1 h
  refine indexOf_zero_eq_some.2 ⟨by simp; omega, ?_, fun j hj hmatch => hbefore j hj ?_⟩
  · rw [List.drop_append_of_le_length hi]
    exact hprefix.trans (List.prefix_append _ _)
  · rw [List.drop_append_of_le_length (by omega)] at hmatch
    refine List.prefix_of_prefix_length_le hmatch (List.prefix_append _ _) ?_
    rw [List.length_drop]
    omega

theorem indexOf_zero_of_append {more : List α} (h : indexOf (l ++ more) pattern 0 = some i)
    (hi : l.length ≤ i) : indexOf more pattern 0 = some (i - l.length) := by
  have hdrop : ∀ j, (l ++ more).drop (l.length + j) = more.drop j := by simp
  obtain ⟨hle, hprefix, hbefore⟩ := indexOf_zero_eq_some.1 h
  rw [List.length_append] at hle
  refine indexOf_zero_eq_some.2
    ⟨by omega, ?_, fun j hj hmatch => hbefore (l.length + j) (by omega) ?_⟩
  · rw [← hdrop, Nat.add_sub_cancel' hi]
    exact hprefix
  · rwa [hdrop]

theorem indexOf_zero_none_of_append {more : List α} (h : indexOf (l ++ more) pattern 0 = none) :
    indexOf more pattern 0 = none := by
  refine indexOf_zero_eq_none.2 fun j hj hmatch => ?_
  refine indexOf_zero_eq_none.1 h (l.length + j) (by simp; omega) ?_
  simpa using hmatch

end PieLab.Lib.Js

import Mathlib.Data.List.GetD

/-
  Two versions of a list merged position by position — a library

  At every index the version that differs from the base is taken; behind the end
  of a list stands a filler. Of the two versions one has changed the front of the
  base, the other its back.

  What is proved:
    1. `picked_aligned` — behind a front that keeps its length the changed back is
       taken, whatever it is.
    2. `picked_shifted` — a front that has grown hides every change of the back.
    3. `picked_eq_iff` — so both changes are in the merged list exactly when the
       front keeps its length and the back loses nothing.
-/

namespace PieLab.Lib

variable {α : Type} [DecidableEq α]

/-- What is taken at an index: the second version where the first is as the base. -/
def pickAt (filler : α) (base first second : List α) (i : Nat) : α :=
  if first.getD i filler = base.getD i filler then second.getD i filler else first.getD i filler

/-- The merged list of `n` elements. -/
def picked (filler : α) (base first second : List α) (n : Nat) : List α :=
  (List.range n).map (pickAt filler base first second)

variable {n i : Nat} {filler : α} {front front' : List α}

theorem getElem?_picked (filler : α) (base first second : List α) (hi : i < n) :
    (picked filler base first second n)[i]? = some (pickAt filler base first second i) := by
  unfold picked
  rw [List.getElem?_map, List.getElem?_range hi]
  rfl

theorem pickAt_first {base first second : List α} (h : second.getD i filler = base.getD i filler) :
    pickAt filler base first second i = first.getD i filler := by
  unfold pickAt
  by_cases hsame : first.getD i filler = base.getD i filler
  · rw [if_pos hsame, h, hsame]
  · rw [if_neg hsame]

theorem pickAt_second {base first second : List α} (h : first.getD i filler = base.getD i filler) :
    pickAt filler base first second i = second.getD i filler := if_pos h

omit [DecidableEq α] in
theorem getD_append_front (front back : List α) (h : i < front.length) :
    (front ++ back).getD i filler = front.getD i filler := by
  simp only [List.getD_eq_getElem?_getD, List.getElem?_append_left h]

omit [DecidableEq α] in
theorem getD_append_back (front back : List α) (i : Nat) :
    (front ++ back).getD (front.length + i) filler = back.getD i filler := by
  have hle : front.length ≤ front.length + i := Nat.le_add_right _ _
  simp only [List.getD_eq_getElem?_getD, List.getElem?_append_right hle, Nat.add_sub_cancel_left]

/-- A front of the same length: behind it the second version is taken, and in it the first. -/
theorem picked_aligned (filler : α) (hfront : front.length = front'.length) (back back' : List α) :
    picked filler (front ++ back) (front' ++ back) (front ++ back')
      (front.length + back'.length) = front' ++ back' := by
  apply List.ext_getElem?
  intro i
  by_cases hi : i < front.length + back'.length
  · rw [getElem?_picked _ _ _ _ hi]
    have hin : i < (front' ++ back').length := by
      rw [List.length_append]
      omega
    have hget : (front' ++ back')[i]? = some ((front' ++ back').getD i filler) := by
      rw [List.getElem?_eq_getElem hin, List.getD_eq_getElem _ _ hin]
    rw [hget]
    congr 1
    by_cases hfirst : i < front.length
    · have hfirst' : i < front'.length := by omega
      rw [pickAt_first, getD_append_front _ _ hfirst', getD_append_front _ _ hfirst']
      rw [getD_append_front _ _ hfirst, getD_append_front _ _ hfirst]
    · obtain ⟨k, rfl⟩ := Nat.exists_eq_add_of_le (Nat.le_of_not_lt hfirst)
      rw [pickAt_second, getD_append_back, hfront, getD_append_back]
      rw [getD_append_back, hfront, getD_append_back]
  · have hend : (front' ++ back').length ≤ i := by
      rw [List.length_append]
      omega
    have hend' : (picked filler (front ++ back) (front' ++ back) (front ++ back')
        (front.length + back'.length)).length ≤ i := by
      unfold picked
      rw [List.length_map, List.length_range]
      omega
    rw [List.getElem?_eq_none hend, List.getElem?_eq_none hend']

/-- A front that has grown: the merged list has the new back only if the back is the old one.
From the end of the back forwards, every element that is as in the base is taken from the
first version, which has it elsewhere. -/
theorem picked_shifted (filler : α) {back back' : List α} (hfront : front.length < front'.length)
    (hback : back.length = back'.length)
    (h : picked filler (front ++ back) (front' ++ back) (front ++ back') n = front' ++ back') :
    back = back' := by
  have hn : n = front'.length + back'.length := by
    have hlength := congrArg List.length h
    unfold picked at hlength
    rw [List.length_map, List.length_range, List.length_append] at hlength
    exact hlength
  have hall : ∀ d k, k + d = back.length → back.getD k filler = back'.getD k filler := by
    intro d
    induction d using Nat.strongRecOn with
    | _ d ih =>
      intro k hk
      by_cases hend : back.length ≤ k
      · have hend' : back'.length ≤ k := by omega
        rw [List.getD_eq_default _ _ hend, List.getD_eq_default _ _ hend']
      -- the place of the new element in the merged list is a later one of the base
      have hplace : front'.length + k = front.length + (front'.length - front.length + k) := by
        omega
      have hlater : back.getD (front'.length - front.length + k) filler =
          back'.getD (front'.length - front.length + k) filler := by
        by_cases hin : front'.length - front.length + k ≤ back.length
        · exact ih (back.length - (front'.length - front.length + k)) (by omega) _ (by omega)
        · have hout : back.length ≤ front'.length - front.length + k := by omega
          have hout' : back'.length ≤ front'.length - front.length + k := by omega
          rw [List.getD_eq_default _ _ hout, List.getD_eq_default _ _ hout']
      have hi : front'.length + k < n := by omega
      have hpick := getElem?_picked filler (front ++ back) (front' ++ back) (front ++ back') hi
      have hfirst : pickAt filler (front ++ back) (front' ++ back) (front ++ back')
          (front'.length + k) = back.getD k filler := by
        rw [pickAt_first, getD_append_back]
        rw [hplace, getD_append_back, getD_append_back, hlater]
      have hk' : k < back'.length := by omega
      rw [h, hfirst, List.getElem?_append_right (Nat.le_add_right _ _), Nat.add_sub_cancel_left]
        at hpick
      have hnew : back'.getD k filler = back.getD k filler := by
        rw [List.getD_eq_getElem?_getD, hpick]
        rfl
      exact hnew.symm
  apply List.ext_getElem hback
  intro k hk hk'
  have hsame := hall (back.length - k) k (by omega)
  rw [List.getD_eq_getElem _ _ hk, List.getD_eq_getElem _ _ hk'] at hsame
  exact hsame

/-- Both changes are in the merged list exactly when the front keeps its length and the back
loses nothing. -/
theorem picked_eq_iff (filler : α) {back back' : List α} (hchange : back ≠ back')
    (hn : n = max (front.length + back.length)
      (max (front'.length + back.length) (front.length + back'.length))) :
    picked filler (front ++ back) (front' ++ back) (front ++ back') n = front' ++ back' ↔
      front.length = front'.length ∧ back.length ≤ back'.length := by
  constructor
  · intro h
    have hlength := congrArg List.length h
    unfold picked at hlength
    rw [List.length_map, List.length_range, List.length_append] at hlength
    by_cases hlt : front.length < front'.length
    · have hback : back.length = back'.length := by omega
      exact absurd (picked_shifted filler hlt hback h) hchange
    · omega
  · rintro ⟨hfront, hback⟩
    have hsum : n = front.length + back'.length := by omega
    rw [hsum]
    exact picked_aligned filler hfront back back'

end PieLab.Lib

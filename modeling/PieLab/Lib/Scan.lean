import Mathlib.Data.List.Basic

/-
  Index scans over a list — a library

  Loops that run an index down from the end of a list and stop at the first hit,
  the half-open piece of a list between two indices, and the last element of a
  list with a property.

  What is proved:
    1. `findDown_some_iff`, `findDown_none_iff` — the index a downward scan
       returns is the greatest hit of its range.
    2. `slice_append_slice` — adjacent pieces join, so index boundaries tile.
    3. `splitFirst_some`, `lastMatch_split` — the first and the last match, with
       what stands before and after it.
-/

namespace PieLab.Lib

/-! ## Downward scans -/

/-- The greatest index `i` with `lo ≤ i < n` and `p i`: the loop
`for (i = n - 1; i >= lo; i--)` that returns at its first hit. -/
def findDown (p : Nat → Bool) (lo : Nat) : Nat → Option Nat
  | 0 => none
  | n + 1 => if n < lo then none else if p n then some n else findDown p lo n

theorem findDown_some_iff {p : Nat → Bool} {lo n i : Nat} :
    findDown p lo n = some i ↔
      lo ≤ i ∧ i < n ∧ p i = true ∧ ∀ j, i < j → j < n → p j = false := by
  induction n with
  | zero => simp [findDown]
  | succ n ih =>
    unfold findDown
    by_cases hlo : n < lo
    · simp only [hlo, if_true]
      constructor
      · intro h; cases h
      · rintro ⟨h1, h2, -, -⟩; omega
    · simp only [hlo, if_false]
      by_cases hp : p n = true
      · simp only [hp, if_true, Option.some.injEq]
        constructor
        · rintro rfl
          exact ⟨by omega, by omega, hp, fun j h1 h2 => by omega⟩
        · rintro ⟨h1, h2, h3, h4⟩
          by_cases hin : i = n
          · exact hin.symm
          · have := h4 n (by omega) (by omega)
            rw [hp] at this; cases this
      · have hpf : p n = false := by simpa using hp
        simp only [hpf, Bool.false_eq_true, if_false, ih]
        constructor
        · rintro ⟨h1, h2, h3, h4⟩
          refine ⟨h1, by omega, h3, fun j hj hjn => ?_⟩
          by_cases hjn' : j = n
          · rw [hjn']; exact hpf
          · exact h4 j hj (by omega)
        · rintro ⟨h1, h2, h3, h4⟩
          have hin : i ≠ n := by rintro rfl; rw [hpf] at h3; cases h3
          exact ⟨h1, by omega, h3, fun j hj hjn => h4 j hj (by omega)⟩

theorem findDown_none_iff {p : Nat → Bool} {lo n : Nat} :
    findDown p lo n = none ↔ ∀ j, lo ≤ j → j < n → p j = false := by
  constructor
  · intro h j h1 h2
    induction n with
    | zero => omega
    | succ n ih =>
      unfold findDown at h
      split at h
      · omega
      · split at h
        · cases h
        · rename_i hp
          by_cases hj : j = n
          · rw [hj]; simpa using hp
          · exact ih h (by omega)
  · intro h
    cases hf : findDown p lo n with
    | none => rfl
    | some i =>
      obtain ⟨h1, h2, h3, -⟩ := findDown_some_iff.mp hf
      rw [h i h1 h2] at h3; cases h3

/-! ## Pieces of a list -/

variable {a : Nat}

section Slice
variable {α β : Type}

/-- The elements at the indices `a ≤ i < b`: the loop `for (i = a; i < b; i++)`. -/
def slice (l : List α) (a b : Nat) : List α := (l.take b).drop a

theorem slice_append_slice (l : List α) {b c : Nat} (hab : a ≤ b) (hbc : b ≤ c) :
    slice l a b ++ slice l b c = slice l a c := by
  apply List.ext_getElem?
  intro i
  simp only [slice, List.getElem?_append, List.getElem?_drop, List.getElem?_take,
    List.length_drop, List.length_take]
  by_cases h : i < min b l.length - a
  · have h1 : a + i < b := by omega
    have h2 : a + i < c := by omega
    simp [h, h1, h2]
  · simp only [h, if_false]
    by_cases hl : l.length ≤ a + i
    · have e1 : l[a + i]? = none := List.getElem?_eq_none hl
      have e2 : l[b + (i - (min b l.length - a))]? = none :=
        List.getElem?_eq_none (by omega)
      simp [e1, e2]
    · have e : b + (i - (min b l.length - a)) = a + i := by omega
      rw [e]

@[simp] theorem slice_self (l : List α) (a : Nat) : slice l a a = [] := by
  unfold slice
  exact List.drop_eq_nil_of_le (by rw [List.length_take]; omega)

theorem slice_length_right (l : List α) (a : Nat) : slice l a l.length = l.drop a := by
  unfold slice; rw [List.take_length]

theorem slice_succ {l : List α} (ha : a < l.length) : slice l a (a + 1) = l[a]?.toList := by
  unfold slice
  rw [List.drop_take, List.getElem?_eq_getElem ha, Nat.add_sub_cancel_left, Option.toList_some,
    List.drop_eq_getElem_cons ha, List.take_succ_cons, List.take_zero]

theorem slice_length {l : List α} {b : Nat} (hb : b ≤ l.length) : (slice l a b).length = b - a := by
  unfold slice
  rw [List.length_drop, List.length_take]
  omega

theorem slice_sublist (l : List α) (a b : Nat) : (slice l a b).Sublist l :=
  (List.drop_sublist _ _).trans (List.take_sublist _ _)

end Slice

/-! ## The first match -/

section FirstMatch
variable {α : Type}

/-- The first element with `p`, with what stands before and after it. -/
def splitFirst (p : α → Bool) : List α → Option (List α × α × List α)
  | [] => none
  | x :: l =>
    if p x then some ([], x, l)
    else (splitFirst p l).map fun found => (x :: found.1, found.2.1, found.2.2)

theorem splitFirst_some {p : α → Bool} {l pre post : List α} {x : α}
    (h : splitFirst p l = some (pre, x, post)) :
    l = pre ++ x :: post ∧ p x = true ∧ ∀ y ∈ pre, p y = false := by
  induction l generalizing pre with
  | nil => cases h
  | cons y l ih =>
    unfold splitFirst at h
    split at h
    · rename_i hp
      cases h
      exact ⟨rfl, hp, by simp⟩
    · rename_i hp
      obtain ⟨found, hfound, he⟩ := Option.map_eq_some_iff.mp h
      cases he
      obtain ⟨heq, hx, hpre⟩ := ih hfound
      refine ⟨by rw [heq]; rfl, hx, ?_⟩
      intro z hz
      rcases List.mem_cons.mp hz with rfl | hz
      · simpa using hp
      · exact hpre z hz

theorem splitFirst_append {p : α → Bool} {pre post : List α} {x : α} (hx : p x = true)
    (hpre : ∀ y ∈ pre, p y = false) : splitFirst p (pre ++ x :: post) = some (pre, x, post) := by
  induction pre with
  | nil => rw [List.nil_append, splitFirst, if_pos hx]
  | cons y pre ih =>
    have hy : p y = false := hpre y List.mem_cons_self
    rw [List.cons_append, splitFirst, hy, if_neg (by decide),
      ih fun z hz => hpre z (List.mem_cons_of_mem _ hz)]
    rfl

end FirstMatch

/-! ## The last match -/

section LastMatch
variable {α β : Type}

/-- The last element `f` accepts, with what `f` made of it: the loop that
overwrites one variable at every hit. -/
def lastMatch (f : α → Option β) (l : List α) : Option β :=
  l.foldl (fun acc x => (f x).or acc) none

theorem lastMatch_foldl (f : α → Option β) (l : List α) (acc : Option β) :
    l.foldl (fun acc x => (f x).or acc) acc = (lastMatch f l).or acc := by
  induction l generalizing acc with
  | nil => simp [lastMatch]
  | cons x l ih =>
    simp only [lastMatch, List.foldl_cons]
    rw [ih, ih ((f x).or none)]
    simp [Option.or_assoc]

@[simp] theorem lastMatch_nil (f : α → Option β) : lastMatch f [] = none := rfl

theorem lastMatch_append (f : α → Option β) (l r : List α) :
    lastMatch f (l ++ r) = (lastMatch f r).or (lastMatch f l) := by
  unfold lastMatch
  rw [List.foldl_append, lastMatch_foldl]
  rfl

theorem lastMatch_singleton (f : α → Option β) (x : α) : lastMatch f [x] = f x := by
  simp [lastMatch]

theorem lastMatch_cons (f : α → Option β) (x : α) (l : List α) :
    lastMatch f (x :: l) = (lastMatch f l).or (f x) := by
  rw [← List.singleton_append, lastMatch_append, lastMatch_singleton]

variable {f : α → Option β}

theorem lastMatch_map {γ δ : Type} {g : γ → Option δ} {i : α → γ} {j : β → δ}
    (h : ∀ x, g (i x) = (f x).map j) (l : List α) :
    lastMatch g (l.map i) = (lastMatch f l).map j := by
  induction l with
  | nil => rfl
  | cons x l ih =>
    rw [List.map_cons, lastMatch_cons, lastMatch_cons, ih, h]
    cases lastMatch f l <;> rfl

theorem lastMatch_none_iff {l : List α} : lastMatch f l = none ↔ ∀ x ∈ l, f x = none := by
  induction l with
  | nil => simp
  | cons x l ih =>
    rw [lastMatch_cons, Option.or_eq_none_iff, ih]
    simp [and_comm]

/-- The last match, with what stands before and after it. -/
theorem lastMatch_split {l : List α} {b : β} (h : lastMatch f l = some b) :
    ∃ pre x post, l = pre ++ x :: post ∧ f x = some b ∧ ∀ y ∈ post, f y = none := by
  induction l with
  | nil => cases h
  | cons x l ih =>
    rw [lastMatch_cons] at h
    cases hl : lastMatch f l with
    | some c =>
      rw [hl] at h
      simp only [Option.some_or, Option.some.injEq] at h
      subst h
      obtain ⟨pre, y, post, e, hy, hp⟩ := ih hl
      exact ⟨x :: pre, y, post, by rw [e]; rfl, hy, hp⟩
    | none =>
      rw [hl] at h
      exact ⟨[], x, l, rfl, by simpa using h, lastMatch_none_iff.mp hl⟩

theorem lastMatch_eq_of_split {pre post : List α} {x : α} {b : β} (hx : f x = some b)
    (hp : ∀ y ∈ post, f y = none) : lastMatch f (pre ++ x :: post) = some b := by
  rw [lastMatch_append, lastMatch_cons, lastMatch_none_iff.mpr hp, hx]
  simp

end LastMatch

end PieLab.Lib

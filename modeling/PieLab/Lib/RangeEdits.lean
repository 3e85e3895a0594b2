import Mathlib.Data.List.Basic
import PieLab.Lib.Scan

/-
  Edits of ranges of a list — a library

  An edit puts a text in the place of a range. Edits of disjoint ranges are made
  from the last to the first, in a piece of the list whose start is taken off
  their positions; read position by position, the result is each edit's text at
  its start and the elements that no range takes.

  What is proved:
    1. `editedRange_append`, `editedRange_congr` — adjacent pieces join, and a
       piece only depends on the edits that cover one of its positions.
    2. `applied_slice` — making the edits in order is reading them by position.
    3. `editedRange_perm` — disjoint edits may be listed in any order.
-/

namespace PieLab.Lib

structure RangeEdit (α : Type) where
  start : Nat
  length : Nat
  text : List α

variable {α : Type}

def RangeEdit.stop (e : RangeEdit α) : Nat := e.start + e.length

def RangeEdit.covers (e : RangeEdit α) (p : Nat) : Bool := e.start ≤ p && p < e.stop

theorem RangeEdit.covers_iff (e : RangeEdit α) {p : Nat} :
    e.covers p = true ↔ e.start ≤ p ∧ p < e.stop := by
  simp [RangeEdit.covers]

/-- The edit made in a piece that starts at `offset`. -/
def RangeEdit.apply (e : RangeEdit α) (l : List α) (offset : Nat) : List α :=
  l.take (e.start - offset) ++ e.text ++ l.drop (e.start - offset + e.length)

/-- The edits made from the last to the first. -/
def applied (l : List α) (edits : List (RangeEdit α)) (offset : Nat) : List α :=
  edits.foldr (fun e result => e.apply result offset) l

/-! ## Position by position -/

/-- What stands for the element at `p`: the text of the edit that starts there, and the
element itself if no range takes it. -/
def editedAt (l : List α) (edits : List (RangeEdit α)) (p : Nat) : List α :=
  (edits.filter fun e => e.start == p).flatMap RangeEdit.text ++
    if edits.any fun e => e.covers p then [] else l[p]?.toList

/-- The piece of the edited list that stands for the positions `start ≤ p < stop`. -/
def editedRange (l : List α) (edits : List (RangeEdit α)) (start stop : Nat) : List α :=
  (List.range' start (stop - start)).flatMap (editedAt l edits)

/-- No range is empty. -/
def NoneEmpty (edits : List (RangeEdit α)) : Prop := ∀ e ∈ edits, 0 < e.length

/-- The ranges stand one behind the other. -/
def InOrder (edits : List (RangeEdit α)) : Prop :=
  edits.Pairwise fun a b => a.stop ≤ b.start

variable {a b : Nat} {l : List α} {edits edits' : List (RangeEdit α)}

theorem editedRange_append (l : List α) (edits : List (RangeEdit α)) {c : Nat} (hab : a ≤ b)
    (hbc : b ≤ c) :
    editedRange l edits a b ++ editedRange l edits b c = editedRange l edits a c := by
  have hrange : List.range' a (b - a) ++ List.range' b (c - b) = List.range' a (c - a) := by
    have h := List.range'_append_1 (s := a) (m := b - a) (n := c - b)
    rw [show a + (b - a) = b by omega, show b - a + (c - b) = c - a by omega] at h
    exact h
  rw [editedRange, editedRange, editedRange, ← hrange, List.flatMap_append]

theorem editedRange_congr_at (h : ∀ p, a ≤ p → p < b → editedAt l edits p = editedAt l edits' p) :
    editedRange l edits a b = editedRange l edits' a b := by
  apply List.flatMap_congr
  intro p hp
  have hbounds := List.mem_range'_1.1 hp
  exact h p hbounds.1 (by omega)

theorem editedAt_covers (hlength : NoneEmpty edits) (p : Nat) :
    editedAt l edits p = editedAt l (edits.filter fun e => e.covers p) p := by
  have hstart : (edits.filter fun e => e.covers p).filter (fun e => e.start == p) =
      edits.filter fun e => e.start == p := by
    rw [List.filter_filter]
    apply List.filter_congr
    intro e he
    have hpos := hlength e he
    by_cases hp : e.start = p
    · simp [RangeEdit.covers, RangeEdit.stop, hp]
      omega
    · simp [hp]
  have hany : (edits.filter fun e => e.covers p).any (fun e => e.covers p) =
      edits.any fun e => e.covers p := by
    simp [List.any_filter]
  rw [editedAt, editedAt, hstart, hany]

theorem editedAt_congr (hlength : NoneEmpty edits) (hlength' : NoneEmpty edits') {p : Nat}
    (h : (edits.filter fun e => e.covers p) = edits'.filter fun e => e.covers p) :
    editedAt l edits p = editedAt l edits' p := by
  rw [editedAt_covers hlength, h, ← editedAt_covers hlength']

/-- A piece only depends on the edits that cover one of its positions. -/
theorem editedRange_congr (hlength : NoneEmpty edits) (hlength' : NoneEmpty edits')
    (h : ∀ p, a ≤ p → p < b →
      (edits.filter fun e => e.covers p) = edits'.filter fun e => e.covers p) :
    editedRange l edits a b = editedRange l edits' a b :=
  editedRange_congr_at fun p ha hb => editedAt_congr hlength hlength' (h p ha hb)

theorem editedRange_nil (l : List α) (hab : a ≤ b) (hb : b ≤ l.length) :
    editedRange l [] a b = slice l a b := by
  obtain ⟨n, rfl⟩ := Nat.exists_eq_add_of_le hab
  clear hab
  induction n with
  | zero =>
    rw [Nat.add_zero, slice_self, editedRange, Nat.sub_self]
    rfl
  | succ n ih =>
    rw [← editedRange_append l [] (Nat.le_add_right a n) (by omega : a + n ≤ a + (n + 1)),
      ih (by omega), ← slice_append_slice l (Nat.le_add_right a n) (by omega : a + n ≤ a + (n + 1)),
      ← Nat.add_assoc, slice_succ (by omega), editedRange,
      show a + n + 1 - (a + n) = 1 by omega]
    simp [editedAt]

theorem editedRange_free (hlength : NoneEmpty edits) (hab : a ≤ b) (hb : b ≤ l.length)
    (h : ∀ e ∈ edits, ∀ p, a ≤ p → p < b → e.covers p = false) :
    editedRange l edits a b = slice l a b := by
  rw [← editedRange_nil l hab hb]
  apply editedRange_congr hlength (fun e he => absurd he List.not_mem_nil)
  intro p ha hp
  rw [List.filter_nil, List.filter_eq_nil_iff]
  intro e he
  rw [h e he p ha hp]
  exact Bool.false_ne_true

theorem editedRange_replaced {l : List α} {e : RangeEdit α} {edits : List (RangeEdit α)}
    (hlength : 0 < e.length) (hfirst : ∀ e' ∈ edits, e.stop ≤ e'.start) :
    editedRange l (e :: edits) e.start e.stop = e.text := by
  have hinner : ∀ p ∈ List.range' (e.start + 1) (e.length - 1),
      editedAt l (e :: edits) p = [] := by
    intro p hp
    have hbounds := List.mem_range'_1.1 hp
    have hnone : ((e :: edits).filter fun e => e.start == p) = [] := by
      rw [List.filter_eq_nil_iff]
      intro e' he'
      rw [beq_iff_eq]
      cases List.mem_cons.1 he' with
      | inl h =>
        rw [h]
        omega
      | inr h =>
        have hstop := hfirst e' h
        rw [RangeEdit.stop] at hstop
        omega
    have hcovered : e.covers p = true := e.covers_iff.2 (by rw [RangeEdit.stop]; omega)
    simp [editedAt, hnone, hcovered]
  have hhead : editedAt l (e :: edits) e.start = e.text := by
    have hrest : (edits.filter fun e' => e'.start == e.start) = [] := by
      rw [List.filter_eq_nil_iff]
      intro e' he'
      have hstop := hfirst e' he'
      rw [RangeEdit.stop] at hstop
      rw [beq_iff_eq]
      omega
    have hcovered : e.covers e.start = true := e.covers_iff.2 (by rw [RangeEdit.stop]; omega)
    simp [editedAt, hrest, hcovered]
  have hsplit : List.range' e.start (e.stop - e.start) =
      e.start :: List.range' (e.start + 1) (e.length - 1) := by
    rw [show e.stop - e.start = e.length - 1 + 1 by rw [RangeEdit.stop]; omega, List.range'_succ]
  rw [editedRange, hsplit, List.flatMap_cons, hhead, List.flatMap_eq_nil_iff.2 hinner,
    List.append_nil]

/-! ## Edits in order -/

/-- Made from the last to the first, every edit replaces its own range. -/
theorem applied_slice (hlength : NoneEmpty edits) (horder : InOrder edits) (hab : a ≤ b)
    (hb : b ≤ l.length) (hinside : ∀ e ∈ edits, a ≤ e.start ∧ e.stop ≤ b) :
    applied (slice l a b) edits a = editedRange l edits a b := by
  induction edits with
  | nil => exact (editedRange_nil l hab hb).symm
  | cons e edits ih =>
    obtain ⟨hpos, hlength⟩ := List.forall_mem_cons.1 hlength
    obtain ⟨hfirst, horder⟩ := List.pairwise_cons.1 horder
    obtain ⟨⟨hstart, hstop⟩, hinside⟩ := List.forall_mem_cons.1 hinside
    have hstop_eq : e.stop = e.start + e.length := rfl
    have hle : e.start ≤ e.stop := by omega
    -- before the end of the first range the other edits change nothing
    have hfree : ∀ c, a ≤ c → c ≤ e.stop → editedRange l edits a c = slice l a c := by
      intro c hac hc
      apply editedRange_free hlength hac (by omega)
      intro e' he' p _ hp
      have hbehind := hfirst e' he'
      simp only [RangeEdit.covers, Bool.and_eq_false_iff, decide_eq_false_iff_not]
      omega
    have hbefore : applied (slice l a b) edits a =
        slice l a e.stop ++ editedRange l edits e.stop b := by
      rw [ih hlength horder hinside, ← hfree e.stop (by omega) (Nat.le_refl _),
        editedRange_append l edits (by omega) hstop]
    have hlengths : (slice l a e.stop).length = e.stop - a := slice_length (by omega)
    have hfront : (slice l a e.start).length = e.start - a := slice_length (by omega)
    have htake : (applied (slice l a b) edits a).take (e.start - a) = slice l a e.start := by
      rw [hbefore, ← slice_append_slice l hstart hle, List.append_assoc, ← hfront, List.take_left]
    have hdrop : (applied (slice l a b) edits a).drop (e.start - a + e.length) =
        editedRange l edits e.stop b := by
      rw [hbefore, show e.start - a + e.length = (slice l a e.stop).length by rw [hlengths]; omega,
        List.drop_left]
    have hcons : NoneEmpty (e :: edits) := List.forall_mem_cons.2 ⟨hpos, hlength⟩
    have hleft : editedRange l (e :: edits) a e.start = slice l a e.start := by
      apply editedRange_free hcons hstart (by omega)
      intro e' he' p _ hp
      simp only [RangeEdit.covers, Bool.and_eq_false_iff, decide_eq_false_iff_not]
      cases List.mem_cons.1 he' with
      | inl h =>
        rw [h]
        omega
      | inr h =>
        have hbehind := hfirst e' h
        omega
    have hright : editedRange l (e :: edits) e.stop b = editedRange l edits e.stop b := by
      apply editedRange_congr hcons hlength
      intro p hp _
      rw [List.filter_cons_of_neg]
      simp only [RangeEdit.covers, Bool.and_eq_true, decide_eq_true_eq]
      omega
    calc applied (slice l a b) (e :: edits) a
        = slice l a e.start ++ e.text ++ editedRange l edits e.stop b := by
          show (applied (slice l a b) edits a).take (e.start - a) ++ e.text ++
            (applied (slice l a b) edits a).drop (e.start - a + e.length) = _
          rw [htake, hdrop]
      _ = editedRange l (e :: edits) a e.start ++ editedRange l (e :: edits) e.start e.stop ++
            editedRange l (e :: edits) e.stop b := by
          rw [hleft, editedRange_replaced hpos hfirst, hright]
      _ = editedRange l (e :: edits) a b := by
          rw [editedRange_append l _ hstart hle, editedRange_append l _ (by omega) hstop]

/-! ## Edits in any order -/

/-- Ranges that do not overlap. -/
def AllApart (edits : List (RangeEdit α)) : Prop :=
  edits.Pairwise fun a b => a.stop ≤ b.start ∨ b.stop ≤ a.start

theorem perm_of_length_le_one {xs ys : List α} (hperm : xs.Perm ys) (hlength : xs.length ≤ 1) :
    xs = ys := by
  cases xs with
  | nil => exact hperm.nil_eq
  | cons x xs =>
    have hnil : xs = [] := by simpa using hlength
    rw [hnil] at hperm ⊢
    exact (List.perm_singleton.1 hperm.symm).symm

theorem AllApart.covers_le_one (h : AllApart edits) (p : Nat) :
    (edits.filter fun e => e.covers p).length ≤ 1 := by
  have hpairs := h.filter fun e => e.covers p
  have hall : ∀ e ∈ edits.filter fun e => e.covers p, e.covers p = true :=
    fun e he => (List.mem_filter.1 he).2
  generalize (edits.filter fun e => e.covers p) = found at hpairs hall
  cases found with
  | nil => exact Nat.zero_le 1
  | cons x found =>
    cases found with
    | nil => exact Nat.le_refl 1
    | cons y found =>
      have hx := x.covers_iff.1 (hall x List.mem_cons_self)
      have hy := y.covers_iff.1 (hall y (List.mem_cons_of_mem x List.mem_cons_self))
      have hxy := (List.pairwise_cons.1 hpairs).1 y List.mem_cons_self
      omega

/-- The order of disjoint edits does not matter. -/
theorem editedRange_perm (hperm : edits.Perm edits') (hlength : NoneEmpty edits)
    (hapart : AllApart edits) (a b : Nat) : editedRange l edits a b = editedRange l edits' a b := by
  apply editedRange_congr hlength fun e he => hlength e (hperm.mem_iff.2 he)
  intro p _ _
  exact perm_of_length_le_one (hperm.filter fun e => e.covers p) (hapart.covers_le_one p)

end PieLab.Lib

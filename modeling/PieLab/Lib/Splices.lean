import Mathlib.Data.List.Nodup
import PieLab.Lib.Scan

/-
  Splices — a library

  A splice takes `deleteCount` elements away at an index and puts others in their
  place. Several splices written against one list are applied one after another,
  from the last index to the first, so that the earlier indices stay right; at one
  index the later one in the source goes first.

  What is proved:
    1. `spliced_eq_tailAt` — the splices work index by index: those of an index only
       change what stands from that index on.
    2. `spliced_eq_iff` — the result is the list read gap by gap (`gapText`) exactly
       when no range takes away what a later splice put at its start.
    3. `spliced_shift` — splices moved along with their list leave what is put
       around it alone.
-/

namespace PieLab.Lib

structure Splice (α : Type) where
  index : Nat
  deleteCount : Nat
  insertLines : List α
  sourceOrder : Nat
  deriving DecidableEq, Repr

variable {p : Nat}

section Splices
variable {α : Type}

/-- `list.splice(index, deleteCount, ...insertLines)` -/
def Splice.apply (l : List α) (s : Splice α) : List α :=
  l.take s.index ++ s.insertLines ++ l.drop (s.index + s.deleteCount)

/-- The order the splices are applied in: by index, then by source order, descending. -/
def Splice.goesFirst (a b : Splice α) : Bool :=
  b.index < a.index || (b.index == a.index && b.sourceOrder ≤ a.sourceOrder)

def spliced (l : List α) (ss : List (Splice α)) : List α :=
  (ss.mergeSort Splice.goesFirst).foldl Splice.apply l

/-- A splice that takes elements away. -/
def Splice.isRange (s : Splice α) : Bool := 0 < s.deleteCount

/-- The splices stand in source order inside the list, their ranges do not overlap,
and nothing is put strictly inside a range. -/
structure WellPlaced (l : List α) (ss : List (Splice α)) : Prop where
  ordered : ss.Pairwise fun a b => a.sourceOrder < b.sourceOrder
  inside : ∀ s ∈ ss, s.index + s.deleteCount ≤ l.length
  disjoint : ∀ a ∈ ss, ∀ b ∈ ss, a.isRange → b.isRange → a ≠ b →
    a.index + a.deleteCount ≤ b.index ∨ b.index + b.deleteCount ≤ a.index
  outside : ∀ s ∈ ss, ¬ s.isRange → ∀ r ∈ ss, ¬ (r.index < s.index ∧ s.index < r.index + r.deleteCount)

/-! ## Reading gap by gap -/

/-- What is put into the gap before `p`, in source order. -/
def insertedAt (ss : List (Splice α)) (p : Nat) : List α :=
  (ss.filter fun s => s.index == p && !s.isRange).flatMap Splice.insertLines

/-- What stands for the range that starts at `p`. -/
def replacedAt (ss : List (Splice α)) (p : Nat) : List α :=
  (ss.filter fun s => s.index == p && s.isRange).flatMap Splice.insertLines

/-- Whether a range takes the element at `p` away. -/
def isCovered (ss : List (Splice α)) (p : Nat) : Bool :=
  ss.any fun s => s.index ≤ p && p < s.index + s.deleteCount

def keptAt (l : List α) (ss : List (Splice α)) (p : Nat) : List α :=
  if isCovered ss p then [] else l[p]?.toList

def gapAt (l : List α) (ss : List (Splice α)) (p : Nat) : List α :=
  insertedAt ss p ++ replacedAt ss p ++ keptAt l ss p

/-- The list with its splices, gap by gap. -/
def gapText (l : List α) (ss : List (Splice α)) : List α :=
  (List.range (l.length + 1)).flatMap (gapAt l ss)

/-- What later splices put at the start of a range. -/
def laterInserts (ss : List (Splice α)) (r : Splice α) : List α :=
  (ss.filter fun s => s.index == r.index && !s.isRange && r.sourceOrder < s.sourceOrder).flatMap
    Splice.insertLines

def earlierInserts (ss : List (Splice α)) (r : Splice α) : List α :=
  (ss.filter fun s => s.index == r.index && !s.isRange && s.sourceOrder < r.sourceOrder).flatMap
    Splice.insertLines

/-! ## The splices of one index -/

/-- The splices of an index in the order they are applied in. -/
def groupAt (ss : List (Splice α)) (p : Nat) : List (Splice α) :=
  (ss.filter fun s => s.index == p).reverse

/-- A splice at the start of a text. -/
def Splice.atStart (t : List α) (s : Splice α) : List α := s.insertLines ++ t.drop s.deleteCount

/-- What stands from `p` on when the splices of the positions have been applied. -/
def tailOver (l : List α) (ss : List (Splice α)) : List Nat → List α
  | [] => []
  | p :: ps => (groupAt ss p).foldl Splice.atStart (l[p]?.toList ++ tailOver l ss ps)

/-- The text from `p` on. -/
def tailAt (l : List α) (ss : List (Splice α)) (p : Nat) : List α :=
  tailOver l ss (List.range' p (l.length + 1 - p))

theorem foldl_apply_append (ss : List (Splice α)) {pre : List α} (t : List α)
    (hp : ∀ s ∈ ss, s.index = p) (hpre : pre.length = p) :
    ss.foldl Splice.apply (pre ++ t) = pre ++ ss.foldl Splice.atStart t := by
  induction ss generalizing t with
  | nil => rfl
  | cons s ss ih =>
    have hs : Splice.apply (pre ++ t) s = pre ++ s.atStart t := by
      unfold Splice.apply Splice.atStart
      rw [hp s List.mem_cons_self, ← hpre, List.take_left, List.append_assoc, List.drop_append]
      simp
    rw [List.foldl_cons, List.foldl_cons, hs]
    exact ih _ fun s' hs' => hp s' (List.mem_cons_of_mem _ hs')

variable {ss : List (Splice α)} {l t : List α} {r : Splice α}

theorem filter_index_succ (h : ss.Pairwise fun a b => b.index ≤ a.index) (p : Nat) :
    ss.filter (fun s => decide (p ≤ s.index)) =
      ss.filter (fun s => decide (p + 1 ≤ s.index)) ++ ss.filter (fun s => s.index == p) := by
  induction ss with
  | nil => rfl
  | cons s ss ih =>
    obtain ⟨hs, hss⟩ := List.pairwise_cons.mp h
    by_cases hlt : p + 1 ≤ s.index
    · have hne : (s.index == p) = false := by simp; omega
      rw [List.filter_cons_of_pos (by simp; omega), List.filter_cons_of_pos (by simpa using hlt),
        List.filter_cons_of_neg (by simp [hne]), ih hss]
      rfl
    · -- nothing from here on has a greater index
      have hnone : (s :: ss).filter (fun s => decide (p + 1 ≤ s.index)) = [] := by
        rw [List.filter_eq_nil_iff]
        intro x hx
        rcases List.mem_cons.mp hx with rfl | hx
        · simpa using hlt
        · have := hs x hx
          simp; omega
      rw [hnone, List.nil_append]
      apply List.filter_congr
      intro x hx
      have hle : x.index ≤ p := by
        rcases List.mem_cons.mp hx with rfl | hx
        · omega
        · have := hs x hx
          omega
      rw [Bool.eq_iff_iff, decide_eq_true_iff, beq_iff_eq]
      omega

theorem goesFirst_trans (a b c : Splice α) (hab : a.goesFirst b = true)
    (hbc : b.goesFirst c = true) : a.goesFirst c = true := by
  simp only [Splice.goesFirst, Bool.or_eq_true, Bool.and_eq_true, decide_eq_true_eq,
    beq_iff_eq] at hab hbc ⊢
  omega

theorem goesFirst_total (a b : Splice α) : (a.goesFirst b || b.goesFirst a) = true := by
  simp only [Splice.goesFirst, Bool.or_eq_true, Bool.and_eq_true, decide_eq_true_eq, beq_iff_eq]
  omega

theorem pairwise_sorted (ss : List (Splice α)) :
    (ss.mergeSort Splice.goesFirst).Pairwise fun a b => a.goesFirst b = true :=
  List.pairwise_mergeSort goesFirst_trans goesFirst_total ss

theorem filter_sorted (h : ss.Pairwise fun a b => a.sourceOrder < b.sourceOrder) (p : Nat) :
    (ss.mergeSort Splice.goesFirst).filter (fun s => s.index == p) = groupAt ss p := by
  unfold groupAt
  apply @List.Perm.eq_of_pairwise _ fun a b => b.sourceOrder ≤ a.sourceOrder
  · intro a b ha hb hab hba
    have ha' : a ∈ ss := (List.mergeSort_perm ss _).mem_iff.mp (List.mem_of_mem_filter ha)
    have hb' : b ∈ ss := List.mem_of_mem_filter (List.mem_reverse.mp hb)
    have hnodup : (ss.map Splice.sourceOrder).Nodup :=
      List.pairwise_map.mpr (h.imp fun hlt => Nat.ne_of_lt hlt)
    exact List.inj_on_of_nodup_map hnodup ha' hb' (Nat.le_antisymm hba hab)
  · apply (pairwise_sorted ss).filter _ |>.imp_of_mem
    intro a b ha hb hab
    have ea := (List.mem_filter.mp ha).2
    have eb := (List.mem_filter.mp hb).2
    simp only [Splice.goesFirst, Bool.or_eq_true, Bool.and_eq_true, decide_eq_true_eq,
      beq_iff_eq] at hab ea eb
    omega
  · rw [List.pairwise_reverse]
    exact (h.filter _).imp fun h => Nat.le_of_lt h
  · exact ((List.mergeSort_perm ss _).filter _).trans (List.reverse_perm _).symm

theorem foldl_spliced (h : ss.Pairwise fun a b => a.sourceOrder < b.sourceOrder)
    (hinside : ∀ s ∈ ss, s.index ≤ l.length) (d : Nat) (hd : p + d = l.length + 1) :
    ((ss.mergeSort Splice.goesFirst).filter fun s => decide (p ≤ s.index)).foldl Splice.apply l =
      l.take p ++ tailOver l ss (List.range' p d) := by
  induction d generalizing p with
  | zero =>
    have hnone : (ss.mergeSort Splice.goesFirst).filter (fun s => decide (p ≤ s.index)) = [] := by
      rw [List.filter_eq_nil_iff]
      intro s hs
      have := hinside s ((List.mergeSort_perm ss _).mem_iff.mp hs)
      simp; omega
    rw [hnone, List.take_of_length_le (by omega)]
    simp [tailOver]
  | succ d ih =>
    have hsorted : (ss.mergeSort Splice.goesFirst).Pairwise fun a b => b.index ≤ a.index := by
      apply (pairwise_sorted ss).imp
      intro a b hab
      simp only [Splice.goesFirst, Bool.or_eq_true, Bool.and_eq_true, decide_eq_true_eq,
        beq_iff_eq] at hab
      omega
    rw [filter_index_succ hsorted, List.foldl_append, ih (by omega), filter_sorted h,
      List.take_add_one, List.append_assoc, foldl_apply_append (p := p)]
    · rfl
    · intro s hs
      have := (List.mem_filter.mp (List.mem_reverse.mp hs)).2
      simpa using this
    · rw [List.length_take]; omega

theorem spliced_eq_tailAt (h : WellPlaced l ss) : spliced l ss = tailAt l ss 0 := by
  have hall : (ss.mergeSort Splice.goesFirst).filter (fun s => decide (0 ≤ s.index)) =
      ss.mergeSort Splice.goesFirst := by
    rw [List.filter_eq_self]
    intro s _
    simp
  have hindex : ∀ s ∈ ss, s.index ≤ l.length :=
    fun s hs => Nat.le_trans (Nat.le_add_right _ _) (h.inside s hs)
  have hfold := foldl_spliced h.ordered hindex (l.length + 1) (p := 0) (by omega)
  rw [hall, List.take_zero, List.nil_append] at hfold
  exact hfold

/-! ## Position by position -/

theorem tailAt_end (l : List α) (ss : List (Splice α)) : tailAt l ss (l.length + 1) = [] := by
  unfold tailAt
  rw [Nat.sub_self]
  rfl

theorem tailAt_step (l : List α) (ss : List (Splice α)) (hp : p ≤ l.length) :
    tailAt l ss p = (groupAt ss p).foldl Splice.atStart (l[p]?.toList ++ tailAt l ss (p + 1)) := by
  unfold tailAt
  rw [show l.length + 1 - p = (l.length + 1 - (p + 1)) + 1 by omega, List.range'_succ]
  rfl

/-- The list read gap by gap from `p` on. -/
def gapsFrom (l : List α) (ss : List (Splice α)) (p : Nat) : List α :=
  (List.range' p (l.length + 1 - p)).flatMap (gapAt l ss)

theorem gapsFrom_end (l : List α) (ss : List (Splice α)) : gapsFrom l ss (l.length + 1) = [] := by
  unfold gapsFrom
  rw [Nat.sub_self]
  rfl

theorem gapsFrom_step (l : List α) (ss : List (Splice α)) (hp : p ≤ l.length) :
    gapsFrom l ss p = gapAt l ss p ++ gapsFrom l ss (p + 1) := by
  unfold gapsFrom
  rw [show l.length + 1 - p = (l.length + 1 - (p + 1)) + 1 by omega, List.range'_succ]
  rfl

theorem gapText_eq (l : List α) (ss : List (Splice α)) : gapText l ss = gapsFrom l ss 0 := by
  unfold gapText gapsFrom
  rw [List.range_eq_range']
  rfl

theorem foldl_atStart_inserts {group : List (Splice α)} (h : ∀ s ∈ group, ¬ s.isRange)
    (t : List α) : group.reverse.foldl Splice.atStart t = group.flatMap Splice.insertLines ++ t := by
  induction group with
  | nil => rfl
  | cons s group ih =>
    have hs : s.deleteCount = 0 := by
      have hnot := h s List.mem_cons_self
      unfold Splice.isRange at hnot
      rw [decide_eq_true_iff] at hnot
      omega
    rw [List.reverse_cons, List.foldl_append, ih fun x hx => h x (List.mem_cons_of_mem _ hx),
      List.flatMap_cons, List.append_assoc]
    show s.insertLines ++ List.drop s.deleteCount _ = _
    rw [hs, List.drop_zero]

/-- A position strictly inside a range. -/
def IsInner (ss : List (Splice α)) (p : Nat) : Prop :=
  ∃ r ∈ ss, r.index < p ∧ p < r.index + r.deleteCount

theorem WellPlaced.inner_free (h : WellPlaced l ss) (hp : IsInner ss p) :
    ∀ s ∈ ss, s.index ≠ p := by
  intro s hs he
  obtain ⟨r, hr, hlt, hgt⟩ := hp
  by_cases hrange : s.isRange
  · have hpos : 0 < s.deleteCount := by simpa [Splice.isRange] using hrange
    have hne : s ≠ r := fun heq => by rw [heq] at he; omega
    have hrr : r.isRange := by simp only [Splice.isRange, decide_eq_true_eq]; omega
    have := h.disjoint s hs r hr hrange hrr hne
    omega
  · exact h.outside s hs hrange r hr ⟨by omega, by omega⟩

theorem groupAt_of_free (h : ∀ s ∈ ss, s.index ≠ p) : groupAt ss p = [] := by
  unfold groupAt
  rw [List.reverse_eq_nil_iff, List.filter_eq_nil_iff]
  intro s hs
  simpa using h s hs

theorem tailAt_free {q : Nat} (hq : q ≤ l.length) (d : Nat) (hd : p + d = q)
    (hfree : ∀ i, p ≤ i → i < q → ∀ s ∈ ss, s.index ≠ i) :
    tailAt l ss p = slice l p q ++ tailAt l ss q := by
  induction d generalizing p with
  | zero =>
    have he : p = q := by omega
    rw [he, slice_self, List.nil_append]
  | succ d ih =>
    have hp : p < l.length := by omega
    rw [tailAt_step l ss (by omega), groupAt_of_free (hfree p (Nat.le_refl _) (by omega)),
      ih (by omega) fun i hi hlt => hfree i (by omega) hlt, List.foldl_nil, ← List.append_assoc,
      ← slice_append_slice l (Nat.le_add_right p 1) (show p + 1 ≤ q by omega)]
    rw [slice_succ hp]

theorem gapAt_inner (h : WellPlaced l ss) (hp : IsInner ss p) : gapAt l ss p = [] := by
  have hfree := h.inner_free hp
  have hinserted : insertedAt ss p = [] := by
    unfold insertedAt
    rw [List.filter_eq_nil_iff.mpr fun s hs => by simp [hfree s hs]]
    rfl
  have hreplaced : replacedAt ss p = [] := by
    unfold replacedAt
    rw [List.filter_eq_nil_iff.mpr fun s hs => by simp [hfree s hs]]
    rfl
  have hcovered : isCovered ss p = true := by
    obtain ⟨r, hr, hlt, hgt⟩ := hp
    exact List.any_eq_true.mpr ⟨r, hr, by simp; omega⟩
  unfold gapAt keptAt
  rw [hinserted, hreplaced, hcovered]
  rfl

theorem gapsFrom_inner (h : WellPlaced l ss) {q : Nat} (hq : q ≤ l.length) (d : Nat)
    (hd : p + d = q) (hinner : ∀ i, p ≤ i → i < q → IsInner ss i) :
    gapsFrom l ss p = gapsFrom l ss q := by
  induction d generalizing p with
  | zero => rw [show p = q by omega]
  | succ d ih =>
    rw [gapsFrom_step l ss (by omega), gapAt_inner h (hinner p (Nat.le_refl _) (by omega)),
      List.nil_append, ih (by omega) fun i hi hlt => hinner i (by omega) hlt]

theorem tailAt_plain (hp : p ≤ l.length) (hinner : ¬ IsInner ss p)
    (hnone : ∀ r ∈ ss, r.isRange → r.index ≠ p) :
    tailAt l ss p = gapAt l ss p ++ tailAt l ss (p + 1) := by
  have hgroup : ∀ s ∈ ss.filter (fun s => s.index == p), ¬ s.isRange := by
    intro s hs hrange
    exact hnone s (List.mem_of_mem_filter hs) hrange (by simpa using (List.mem_filter.mp hs).2)
  have hinserted : insertedAt ss p =
      (ss.filter fun s => s.index == p).flatMap Splice.insertLines := by
    unfold insertedAt
    congr 1
    apply List.filter_congr
    intro s hs
    cases hi : s.index == p with
    | false => rfl
    | true =>
      have hnot : s.isRange = false := by
        simpa using hgroup s (List.mem_filter.mpr ⟨hs, by simpa using hi⟩)
      rw [hnot]
      rfl
  have hreplaced : replacedAt ss p = [] := by
    unfold replacedAt
    rw [List.filter_eq_nil_iff.mpr]
    · rfl
    · intro s hs hboth
      rw [Bool.and_eq_true, beq_iff_eq] at hboth
      exact hnone s hs hboth.2 hboth.1
  have hkept : isCovered ss p = false := by
    unfold isCovered
    rw [List.any_eq_false]
    intro r hr hcover
    simp only [Bool.and_eq_true, decide_eq_true_eq] at hcover
    by_cases he : r.index = p
    · exact hnone r hr (by simp only [Splice.isRange, decide_eq_true_eq]; omega) he
    · exact hinner ⟨r, hr, by omega, hcover.2⟩
  rw [tailAt_step l ss hp, groupAt, foldl_atStart_inserts hgroup]
  unfold gapAt keptAt
  rw [hinserted, hreplaced, hkept]
  simp

theorem filter_and (ss : List (Splice α)) (b c : Splice α → Bool) :
    (ss.filter fun s => b s && c s) = (ss.filter b).filter c := by
  rw [List.filter_filter]
  apply List.filter_congr
  intro s _
  rw [Bool.and_comm]

theorem group_split (h : WellPlaced l ss) (hr : r ∈ ss) (hrange : r.isRange) :
    ∃ early late, ss.filter (fun s => s.index == r.index) = early ++ r :: late ∧
      (∀ s ∈ early, ¬ s.isRange) ∧ (∀ s ∈ late, ¬ s.isRange) ∧
      early.flatMap Splice.insertLines = earlierInserts ss r ∧
      late.flatMap Splice.insertLines = laterInserts ss r := by
  have hmem : r ∈ ss.filter fun s => s.index == r.index := List.mem_filter.mpr ⟨hr, by simp⟩
  obtain ⟨early, late, hsplit⟩ := List.append_of_mem hmem
  have hordered : (early ++ r :: late).Pairwise fun a b => a.sourceOrder < b.sourceOrder := by
    rw [← hsplit]
    exact h.ordered.filter _
  obtain ⟨-, hlate, hcross⟩ := List.pairwise_append.mp hordered
  have hbefore : ∀ s ∈ early, s.sourceOrder < r.sourceOrder :=
    fun s hs => hcross s hs r List.mem_cons_self
  have hafter : ∀ s ∈ late, r.sourceOrder < s.sourceOrder := (List.pairwise_cons.mp hlate).1
  -- two ranges at one index would overlap
  have hplain : ∀ s ∈ ss.filter (fun s => s.index == r.index), s ≠ r → ¬ s.isRange := by
    intro s hs hne hrs
    obtain ⟨hss, hi⟩ := List.mem_filter.mp hs
    have hdisjoint := h.disjoint s hss r hr hrs hrange hne
    simp only [Splice.isRange, decide_eq_true_eq, beq_iff_eq] at hrs hrange hi
    omega
  have hearly : ∀ s ∈ early, ¬ s.isRange := by
    intro s hs
    apply hplain s (hsplit ▸ List.mem_append_left _ hs)
    intro he
    have := hbefore s hs
    rw [he] at this
    omega
  have hlate' : ∀ s ∈ late, ¬ s.isRange := by
    intro s hs
    apply hplain s (hsplit ▸ List.mem_append_right _ (List.mem_cons_of_mem _ hs))
    intro he
    have := hafter s hs
    rw [he] at this
    omega
  have hfilter : ∀ c : Splice α → Bool, (ss.filter fun s => s.index == r.index && c s) =
      (early ++ r :: late).filter c := by
    intro c
    rw [filter_and, hsplit]
  refine ⟨early, late, hsplit, hearly, hlate', ?_, ?_⟩
  · unfold earlierInserts
    simp only [Bool.and_assoc]
    rw [hfilter, List.filter_append, List.filter_cons_of_neg (by simp),
      List.filter_eq_self.mpr fun s hs => by
        simpa using ⟨by simpa using hearly s hs, hbefore s hs⟩,
      List.filter_eq_nil_iff.mpr fun s hs => by
        have := hafter s hs
        simp; intros; omega,
      List.append_nil]
  · unfold laterInserts
    simp only [Bool.and_assoc]
    rw [hfilter, List.filter_append, List.filter_cons_of_neg (by simp),
      List.filter_eq_nil_iff.mpr fun s hs => by
        have := hbefore s hs
        simp; intros; omega,
      List.filter_eq_self.mpr fun s hs => by
        simpa using ⟨by simpa using hlate' s hs, hafter s hs⟩,
      List.nil_append]

/-- What the code leaves of a range that starts at `p`: it takes away what later splices
have put there first, and then only the rest of its own elements. -/
def rangeText (l : List α) (ss : List (Splice α)) (r : Splice α) : List α :=
  r.insertLines ++
    (laterInserts ss r ++ slice l r.index (r.index + r.deleteCount)).drop r.deleteCount

theorem laterInserts_append {before after : List (Splice α)}
    (h : (before ++ r :: after).Pairwise fun a b => a.sourceOrder < b.sourceOrder) :
    laterInserts (before ++ r :: after) r =
      (after.filter fun s => s.index == r.index && !s.isRange).flatMap Splice.insertLines := by
  obtain ⟨_, hafter, hbefore⟩ := List.pairwise_append.mp h
  have hfront : before.filter (fun s => s.index == r.index && !s.isRange &&
      decide (r.sourceOrder < s.sourceOrder)) = [] := by
    apply List.filter_eq_nil_iff.mpr
    intro s hs
    have hlt := hbefore s hs r List.mem_cons_self
    have hnot : ¬ r.sourceOrder < s.sourceOrder := by omega
    simp [hnot]
  have hback : after.filter (fun s => s.index == r.index && !s.isRange &&
      decide (r.sourceOrder < s.sourceOrder)) =
      after.filter fun s => s.index == r.index && !s.isRange := by
    apply List.filter_congr
    intro s hs
    have hlt := (List.pairwise_cons.mp hafter).1 s hs
    simp [hlt]
  unfold laterInserts
  rw [List.filter_append, hfront, List.nil_append, List.filter_cons_of_neg (by simp), hback]

theorem rangeText_length (h : WellPlaced l ss) (hr : r ∈ ss) :
    (rangeText l ss r).length = (laterInserts ss r ++ r.insertLines).length := by
  have hlen := slice_length (a := r.index) (h.inside r hr)
  unfold rangeText
  rw [List.length_append, List.length_drop, List.length_append, List.length_append, hlen]
  omega

theorem tailAt_range (h : WellPlaced l ss) (hr : r ∈ ss) (hrange : r.isRange) :
    tailAt l ss r.index = earlierInserts ss r ++ rangeText l ss r ++
      tailAt l ss (r.index + r.deleteCount) := by
  have hinside := h.inside r hr
  have hpos : 0 < r.deleteCount := by simpa [Splice.isRange] using hrange
  obtain ⟨early, late, hsplit, hearly, hlate, heq, leq⟩ := group_split h hr hrange
  have hnext : l[r.index]?.toList ++ tailAt l ss (r.index + 1) =
      slice l r.index (r.index + r.deleteCount) ++ tailAt l ss (r.index + r.deleteCount) := by
    have hfree : ∀ i, r.index + 1 ≤ i → i < r.index + r.deleteCount → ∀ s ∈ ss, s.index ≠ i :=
      fun i hi hlt => h.inner_free ⟨r, hr, by omega, hlt⟩
    rw [tailAt_free hinside (r.deleteCount - 1) (by omega) hfree, ← List.append_assoc,
      ← slice_append_slice l (Nat.le_add_right r.index 1)
        (show r.index + 1 ≤ r.index + r.deleteCount by omega)]
    rw [slice_succ (show r.index < l.length by omega)]
  rw [tailAt_step l ss (by omega), hnext, groupAt, hsplit, List.reverse_append, List.reverse_cons,
    List.foldl_append, List.foldl_append, foldl_atStart_inserts hlate, List.foldl_cons,
    List.foldl_nil, foldl_atStart_inserts hearly, heq, leq, ← List.append_assoc]
  unfold Splice.atStart rangeText
  have hlen := slice_length (a := r.index) hinside
  rw [List.drop_append_of_le_length (by rw [List.length_append, hlen]; omega)]
  simp only [List.append_assoc]

theorem gapAt_range (h : WellPlaced l ss) (hr : r ∈ ss) (hrange : r.isRange) :
    gapAt l ss r.index = earlierInserts ss r ++ (laterInserts ss r ++ r.insertLines) := by
  have hpos : 0 < r.deleteCount := by simpa [Splice.isRange] using hrange
  obtain ⟨early, late, hsplit, hearly, hlate, heq, leq⟩ := group_split h hr hrange
  have hinserted : insertedAt ss r.index = earlierInserts ss r ++ laterInserts ss r := by
    have hfilter : (ss.filter fun s => s.index == r.index && !s.isRange) = early ++ late := by
      rw [filter_and, hsplit, List.filter_append, List.filter_cons_of_neg (by simp [hrange]),
        List.filter_eq_self.mpr fun s hs => by simpa using hearly s hs,
        List.filter_eq_self.mpr fun s hs => by simpa using hlate s hs]
    unfold insertedAt
    rw [hfilter, List.flatMap_append, heq, leq]
  have hreplaced : replacedAt ss r.index = r.insertLines := by
    unfold replacedAt
    rw [filter_and, hsplit, List.filter_append, List.filter_cons_of_pos hrange,
      List.filter_eq_nil_iff.mpr hearly, List.filter_eq_nil_iff.mpr hlate]
    simp
  have hcovered : isCovered ss r.index = true :=
    List.any_eq_true.mpr ⟨r, hr, by simp; omega⟩
  unfold gapAt keptAt
  rw [hinserted, hreplaced, hcovered, if_pos rfl, List.append_nil, List.append_assoc]

/-! ## The whole list -/

theorem WellPlaced.not_inner_end (h : WellPlaced l ss) (hr : r ∈ ss) (hrange : r.isRange) :
    ¬ IsInner ss (r.index + r.deleteCount) := by
  intro ⟨x, hx, hlt, hgt⟩
  simp only [Splice.isRange, decide_eq_true_eq] at hrange
  have hne : r ≠ x := fun he => by rw [he] at hgt; omega
  have hrr : r.isRange := by simpa [Splice.isRange] using hrange
  have hxx : x.isRange := by simp only [Splice.isRange, decide_eq_true_eq]; omega
  have hdisjoint := h.disjoint r hr x hx hrr hxx hne
  omega

theorem not_inner_succ (hp : ¬ IsInner ss p) (hnone : ∀ r ∈ ss, r.isRange → r.index ≠ p) :
    ¬ IsInner ss (p + 1) := by
  intro ⟨r, hr, hlt, hgt⟩
  by_cases he : r.index = p
  · exact hnone r hr (by simp only [Splice.isRange, decide_eq_true_eq]; omega) he
  · exact hp ⟨r, hr, by omega, by omega⟩

theorem append_eq_iff {a b c d : List α} (h : a.length = b.length) :
    a ++ c = b ++ d ↔ a = b ∧ c = d := by
  constructor
  · exact fun he => List.append_inj he h
  · rintro ⟨rfl, rfl⟩
    rfl

theorem tailAt_eq_iff (h : WellPlaced l ss) (d : Nat) (hd : p + d = l.length + 1)
    (hp : ¬ IsInner ss p) :
    (tailAt l ss p = gapsFrom l ss p ↔ ∀ r ∈ ss, r.isRange → p ≤ r.index →
      rangeText l ss r = laterInserts ss r ++ r.insertLines) := by
  induction d using Nat.strongRecOn generalizing p with
  | ind d ih =>
    by_cases hend : p = l.length + 1
    · rw [hend, tailAt_end, gapsFrom_end]
      refine ⟨fun _ r hr _ hle => ?_, fun _ => rfl⟩
      have := h.inside r hr
      omega
    · by_cases hstart : ∃ r ∈ ss, r.isRange ∧ r.index = p
      · obtain ⟨r, hr, hrange, rfl⟩ := hstart
        have hinside := h.inside r hr
        have hpos : 0 < r.deleteCount := by simpa [Splice.isRange] using hrange
        have hgaps : gapsFrom l ss r.index =
            (earlierInserts ss r ++ (laterInserts ss r ++ r.insertLines)) ++
              gapsFrom l ss (r.index + r.deleteCount) := by
          have hinner : ∀ i, r.index + 1 ≤ i → i < r.index + r.deleteCount → IsInner ss i :=
            fun i hi hlt => ⟨r, hr, by omega, hlt⟩
          rw [gapsFrom_step l ss (by omega), gapAt_range h hr hrange,
            gapsFrom_inner h hinside (r.deleteCount - 1) (by omega) hinner]
        rw [tailAt_range h hr hrange, hgaps,
          append_eq_iff (by simp only [List.length_append, rangeText_length h hr]),
          append_eq_iff rfl,
          ih (d - r.deleteCount) (by omega) (by omega) (h.not_inner_end hr hrange)]
        refine ⟨fun ⟨⟨_, hself⟩, hrest⟩ x hx hxr hle => ?_, fun hall =>
          ⟨⟨rfl, hall r hr hrange (Nat.le_refl _)⟩, fun x hx hxr hle => hall x hx hxr (by omega)⟩⟩
        by_cases hxe : x = r
        · rw [hxe]
          exact hself
        · have hdisjoint := h.disjoint x hx r hr hxr hrange hxe
          have hxpos : 0 < x.deleteCount := by simpa [Splice.isRange] using hxr
          exact hrest x hx hxr (by omega)
      · have hnone : ∀ r ∈ ss, r.isRange → r.index ≠ p :=
          fun r hr hrange he => hstart ⟨r, hr, hrange, he⟩
        rw [tailAt_plain (by omega) hp hnone, gapsFrom_step l ss (by omega), append_eq_iff rfl,
          ih (d - 1) (by omega) (by omega) (not_inner_succ hp hnone)]
        refine ⟨fun ⟨_, hrest⟩ r hr hrange hle => ?_, fun hall =>
          ⟨rfl, fun r hr hrange hle => hall r hr hrange (by omega)⟩⟩
        have hne := hnone r hr hrange
        exact hrest r hr hrange (by omega)

/-- The spliced list is the list read gap by gap exactly when no range takes away what
later splices put at its start. -/
theorem spliced_eq_iff (h : WellPlaced l ss) :
    spliced l ss = gapText l ss ↔ ∀ r ∈ ss, r.isRange →
      rangeText l ss r = laterInserts ss r ++ r.insertLines := by
  have hstart : ¬ IsInner ss 0 := fun ⟨r, _, hlt, _⟩ => absurd hlt (Nat.not_lt_zero _)
  rw [spliced_eq_tailAt h, gapText_eq, tailAt_eq_iff h (l.length + 1) (by omega) hstart]
  exact ⟨fun hall r hr hrange => hall r hr hrange (Nat.zero_le _),
    fun hall r hr hrange _ => hall r hr hrange⟩

/-! ## Splices that move with their list -/

/-- The same splice, `d` positions on. -/
def Splice.shift (d : Nat) (s : Splice α) : Splice α := { s with index := s.index + d }

theorem Splice.apply_shift {s : Splice α} (h : s.index + s.deleteCount ≤ t.length)
    (pre post : List α) :
    (s.shift pre.length).apply (pre ++ t ++ post) = pre ++ s.apply t ++ post := by
  show (pre ++ t ++ post).take (s.index + pre.length) ++ s.insertLines ++
    (pre ++ t ++ post).drop (s.index + pre.length + s.deleteCount) = _
  have htake : (pre ++ t ++ post).take (s.index + pre.length) = pre ++ t.take s.index := by
    rw [List.append_assoc, Nat.add_comm, List.take_length_add_append,
      List.take_append_of_le_length (by omega)]
  have hdrop : (pre ++ t ++ post).drop (s.index + pre.length + s.deleteCount) =
      t.drop (s.index + s.deleteCount) ++ post := by
    rw [show s.index + pre.length + s.deleteCount = pre.length + (s.index + s.deleteCount) by omega,
      List.append_assoc, List.drop_length_add_append, List.drop_append_of_le_length h]
  rw [htake, hdrop]
  unfold Splice.apply
  simp only [List.append_assoc]

theorem Splice.length_apply {s : Splice α} (h : s.index + s.deleteCount ≤ t.length) :
    (s.apply t).length = t.length - s.deleteCount + s.insertLines.length := by
  unfold Splice.apply
  rw [List.length_append, List.length_append, List.length_take, List.length_drop]
  omega

theorem foldl_apply_shift (hsorted : ss.Pairwise fun a b => b.index ≤ a.index ∧
      (a.isRange → b.isRange → b.index + b.deleteCount ≤ a.index))
    (hinside : ∀ s ∈ ss, s.index + s.deleteCount ≤ t.length) (pre post : List α) :
    (ss.map (Splice.shift pre.length)).foldl Splice.apply (pre ++ t ++ post) =
      pre ++ ss.foldl Splice.apply t ++ post := by
  induction ss generalizing t with
  | nil => rfl
  | cons s ss ih =>
    obtain ⟨hs, hss⟩ := List.pairwise_cons.mp hsorted
    have hin := hinside s List.mem_cons_self
    rw [List.map_cons, List.foldl_cons, List.foldl_cons, Splice.apply_shift hin]
    apply ih hss
    intro r hr
    have hrin := hinside r (List.mem_cons_of_mem _ hr)
    obtain ⟨hle, hapart⟩ := hs r hr
    rw [Splice.length_apply hin]
    simp only [Splice.isRange, decide_eq_true_eq] at hapart
    omega

/-- Splices that move with their list change nothing around it. -/
theorem spliced_shift (h : WellPlaced l ss) (pre post : List α) :
    spliced (pre ++ l ++ post) (ss.map (Splice.shift pre.length)) =
      pre ++ spliced l ss ++ post := by
  have hsort : (ss.map (Splice.shift pre.length)).mergeSort Splice.goesFirst =
      (ss.mergeSort Splice.goesFirst).map (Splice.shift pre.length) := by
    rw [List.map_mergeSort]
    intro a _ b _
    show a.goesFirst b = (decide (b.index + pre.length < a.index + pre.length) ||
      (b.index + pre.length == a.index + pre.length && decide (b.sourceOrder ≤ a.sourceOrder)))
    have hlt : decide (b.index + pre.length < a.index + pre.length) =
        decide (b.index < a.index) := by
      rw [decide_eq_decide]
      omega
    have heq : (b.index + pre.length == a.index + pre.length) = (b.index == a.index) := by
      rw [Bool.eq_iff_iff, beq_iff_eq, beq_iff_eq]
      omega
    rw [hlt, heq]
    rfl
  have hperm := List.mergeSort_perm ss Splice.goesFirst
  have hne : (ss.mergeSort Splice.goesFirst).Pairwise (· ≠ ·) := by
    have hnodup : ss.Pairwise (· ≠ ·) := by
      apply h.ordered.imp
      intro a b hab heq
      rw [heq] at hab
      exact Nat.lt_irrefl _ hab
    exact (hperm.pairwise_iff fun hab => hab.symm).mpr hnodup
  unfold spliced
  rw [hsort]
  apply foldl_apply_shift
  · apply ((pairwise_sorted ss).and hne).imp_of_mem
    intro a b ha hb hab
    have hle : b.index ≤ a.index := by
      have := hab.1
      simp only [Splice.goesFirst, Bool.or_eq_true, Bool.and_eq_true, decide_eq_true_eq,
        beq_iff_eq] at this
      omega
    refine ⟨hle, ?_⟩
    intro harange hbrange
    have hpos : 0 < a.deleteCount := by simpa [Splice.isRange] using harange
    have := h.disjoint a (hperm.mem_iff.mp ha) b (hperm.mem_iff.mp hb) harange hbrange hab.2
    omega
  · intro s hs
    exact h.inside s (hperm.mem_iff.mp hs)

end Splices

end PieLab.Lib

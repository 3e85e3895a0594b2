import Mathlib.Data.List.Rotate

/-
  Sticky round robin — a library

  A queue whose last element was picked last: it is picked again until it had `k`
  turns in a row, then the first element is picked and goes to the end.

  What is proved:
    1. `Rotation.picks_inTurns` — starting with a queue no one was picked from, the
       picks go through the queue in order, `k` times each, over and over.
-/

namespace PieLab.Lib

variable {α : Type}

/-- The picks come in blocks of `k`, the blocks start in the order given, and any
`order.length` blocks in a row are one for each element. -/
def InTurns (order : List α) (k : Nat) (picks : List α) : Prop :=
  ∃ turn : Nat → α, (∀ i a, picks[i]? = some a → a = turn (i / k)) ∧
    (List.range order.length).map turn = order ∧
    ∀ b, ((List.range order.length).map fun j => turn (b + j)).Perm order

/-- The queue, and how often its last element was picked in a row; zero at the start. -/
structure Rotation (α : Type) where
  queue : List α
  count : Nat

def Rotation.next (k : Nat) (s : Rotation α) : Option (α × Rotation α) :=
  if 0 < s.count ∧ s.count < k then
    s.queue.getLast?.map fun a => (a, { s with count := s.count + 1 })
  else match s.queue with
    | [] => none
    | a :: rest => some (a, { queue := rest ++ [a], count := 1 })

def Rotation.picks (k : Nat) : Nat → Rotation α → List α
  | 0, _ => []
  | steps + 1, s =>
    match s.next k with
    | none => []
    | some (a, s') => a :: Rotation.picks k steps s'

variable {k : Nat} {s : Rotation α} {a : α}

theorem Rotation.next_again (hcount : 0 < s.count) (hk : s.count < k)
    (hlast : s.queue.getLast? = some a) : s.next k = some (a, { s with count := s.count + 1 }) := by
  unfold Rotation.next
  rw [if_pos ⟨hcount, hk⟩, hlast]
  rfl

theorem Rotation.next_head {t : List α} (hcount : ¬ (0 < s.count ∧ s.count < k))
    (hqueue : s.queue = a :: t) : s.next k = some (a, { queue := t ++ [a], count := 1 }) := by
  unfold Rotation.next
  rw [if_neg hcount, hqueue]

theorem Rotation.picks_succ {s' : Rotation α} (h : s.next k = some (a, s')) (steps : Nat) :
    Rotation.picks k (steps + 1) s = a :: Rotation.picks k steps s' := by
  show (match s.next k with | none => [] | some (a, s') => a :: Rotation.picks k steps s') = _
  rw [h]

/-- The element whose turn it is in block `b`. -/
def turnOf (order : List α) (h : order ≠ []) (b : Nat) : α :=
  order.get ⟨b % order.length, Nat.mod_lt _ (List.length_pos_iff.2 h)⟩

section Turns
variable {order : List α} (h : order ≠ [])

theorem getElem?_turnOf (b : Nat) : order[b % order.length]? = some (turnOf order h b) :=
  List.getElem?_eq_getElem _

theorem head?_rotate_turn (b : Nat) : (order.rotate b).head? = some (turnOf order h b) := by
  have hpos : 0 < order.length := List.length_pos_iff.2 h
  rw [List.head?_eq_getElem?, List.getElem?_rotate hpos, Nat.zero_add]
  exact getElem?_turnOf h b

theorem getLast?_rotate_turn (b : Nat) :
    (order.rotate (b + 1)).getLast? = some (turnOf order h b) := by
  have hpos : 0 < order.length := List.length_pos_iff.2 h
  rw [List.getLast?_eq_getElem?, List.length_rotate, List.getElem?_rotate (by omega)]
  have hindex : order.length - 1 + (b + 1) = b + order.length := by omega
  rw [hindex, Nat.add_mod_right]
  exact getElem?_turnOf h b

theorem map_turnOf_range (b : Nat) :
    ((List.range order.length).map fun j => turnOf order h (b + j)) = order.rotate b := by
  apply List.ext_getElem?
  intro i
  by_cases hi : i < order.length
  · rw [List.getElem?_rotate hi, List.getElem?_map, List.getElem?_range hi, Option.map_some,
      Nat.add_comm b i]
    exact (getElem?_turnOf h (i + b)).symm
  · rw [List.getElem?_eq_none (by simpa using hi), List.getElem?_eq_none (by simpa using hi)]

theorem Rotation.picks_rotate {b c : Nat} (hc : 1 ≤ c ∧ c ≤ k) (steps : Nat) :
    (Rotation.picks k steps { queue := order.rotate (b + 1), count := c }).length = steps ∧
      ∀ i a, (Rotation.picks k steps { queue := order.rotate (b + 1), count := c })[i]? = some a →
        a = turnOf order h ((b * k + c + i) / k) := by
  induction steps generalizing b c with
  | zero =>
    refine ⟨rfl, ?_⟩
    intro i a ha
    cases ha
  | succ steps ih =>
    have hk : 0 < k := by omega
    by_cases hlt : c < k
    · -- the same element again
      have hnext := Rotation.next_again (k := k)
        (s := { queue := order.rotate (b + 1), count := c }) (by show 0 < c; omega) hlt
        (getLast?_rotate_turn h b)
      obtain ⟨hlength, hpicks⟩ := ih (b := b) (c := c + 1) ⟨by omega, hlt⟩
      rw [Rotation.picks_succ hnext]
      refine ⟨by simpa using hlength, ?_⟩
      intro i a ha
      cases i with
      | zero =>
        have hb : (b * k + c + 0) / k = b := by
          rw [Nat.add_zero, Nat.mul_comm, Nat.mul_add_div hk, Nat.div_eq_of_lt hlt, Nat.add_zero]
        rw [hb]
        exact (Option.some.inj ha).symm
      | succ i =>
        have hstep := hpicks i a ha
        have hindex : b * k + c + (i + 1) = b * k + (c + 1) + i := by omega
        rw [hindex]
        exact hstep
    · -- the block is complete
      have hck : c = k := by omega
      subst hck
      obtain ⟨a₀, rest, hqueue⟩ : ∃ a₀ rest, order.rotate (b + 1) = a₀ :: rest := by
        apply List.exists_cons_of_ne_nil
        rw [ne_eq, List.rotate_eq_nil_iff]
        exact h
      have ha₀ : a₀ = turnOf order h (b + 1) := by
        have hhead := head?_rotate_turn h (b + 1)
        rw [hqueue] at hhead
        exact Option.some.inj hhead
      have hrotate : rest ++ [a₀] = order.rotate (b + 1 + 1) := by
        rw [← List.rotate_rotate, hqueue, List.rotate_cons_succ, List.rotate_zero]
      have hnext := Rotation.next_head (k := c)
        (s := { queue := order.rotate (b + 1), count := c }) (by show ¬ (0 < c ∧ c < c); omega)
        hqueue
      rw [hrotate] at hnext
      obtain ⟨hlength, hpicks⟩ := ih (b := b + 1) (c := 1) ⟨by omega, by omega⟩
      rw [Rotation.picks_succ hnext]
      refine ⟨by simpa using hlength, ?_⟩
      intro i a ha
      cases i with
      | zero =>
        have hb : (b * c + c + 0) / c = b + 1 := by
          rw [Nat.add_zero, ← Nat.succ_mul, Nat.mul_div_cancel _ hk]
        rw [hb, ← ha₀]
        exact (Option.some.inj ha).symm
      | succ i =>
        have hstep := hpicks i a ha
        have hindex : b * c + c + (i + 1) = (b + 1) * c + 1 + i := by
          rw [Nat.succ_mul]
          omega
        rw [hindex]
        exact hstep

end Turns

/-- From the start, the picks go through the queue in turns of `k`. -/
theorem Rotation.picks_inTurns {order : List α} (h : order ≠ []) (hk : 1 ≤ k) (steps : Nat) :
    (Rotation.picks k steps { queue := order, count := 0 }).length = steps ∧
      InTurns order k (Rotation.picks k steps { queue := order, count := 0 }) := by
  have hturns : ∀ picks : List α, (∀ i a, picks[i]? = some a → a = turnOf order h (i / k)) →
      InTurns order k picks := by
    intro picks hpicks
    refine ⟨turnOf order h, hpicks, ?_, ?_⟩
    · have hrange := map_turnOf_range h 0
      simp only [Nat.zero_add, List.rotate_zero] at hrange
      exact hrange
    · intro b
      rw [map_turnOf_range h b]
      exact List.rotate_perm _ _
  cases steps with
  | zero =>
    refine ⟨rfl, hturns _ ?_⟩
    intro i a ha
    cases ha
  | succ steps =>
    obtain ⟨a₀, rest, hqueue⟩ := List.exists_cons_of_ne_nil h
    have ha₀ : a₀ = turnOf order h 0 := by
      have hhead := head?_rotate_turn h 0
      have hfirst : order.head? = some a₀ := by rw [hqueue, List.head?_cons]
      rw [List.rotate_zero, hfirst] at hhead
      exact Option.some.inj hhead
    have hrotate : rest ++ [a₀] = order.rotate (0 + 1) := by
      rw [hqueue, List.rotate_cons_succ, List.rotate_zero]
    have hnext := Rotation.next_head (k := k) (s := { queue := order, count := 0 })
      (by show ¬ (0 < 0 ∧ 0 < k); omega) hqueue
    rw [hrotate] at hnext
    obtain ⟨hlength, hpicks⟩ := Rotation.picks_rotate h (b := 0) (c := 1) ⟨le_refl 1, hk⟩ steps
    rw [Rotation.picks_succ hnext]
    refine ⟨by simpa using hlength, hturns _ ?_⟩
    intro i a ha
    cases i with
    | zero =>
      rw [Nat.zero_div, ← ha₀]
      exact (Option.some.inj ha).symm
    | succ i =>
      have hstep := hpicks i a ha
      have hindex : 0 * k + 1 + i = i + 1 := by omega
      rw [hindex] at hstep
      exact hstep

end PieLab.Lib

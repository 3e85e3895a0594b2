import Mathlib.Data.Rat.Floor
import Mathlib.Tactic.Linarith
import Mathlib.Tactic.Ring
import Mathlib.Algebra.Order.Field.Rat
import PieLab.Lib.IsoDate

/-
  Rounding to a number of decimals — a library

  `toFixed` rounds a number to a fixed number of decimals, of two nearest ones to
  the one further from zero, and prints it.

  What is proved:
    1. `roundTo_mono` — rounding keeps the order.
    2. `IsMultiple.roundTo` — a number with no further decimals is not changed, so
       it stays below what it was below (`IsMultiple.le_roundTo`).
-/

namespace PieLab.Lib

/-- The nearest integer, of two the one further from zero. -/
def nearestInt (value : ℚ) : ℤ :=
  if value < 0 then -⌊-value + 1 / 2⌋ else ⌊value + 1 / 2⌋

/-- `Number(value.toFixed(digits))` -/
def roundTo (digits : ℕ) (value : ℚ) : ℚ := nearestInt (value * 10 ^ digits) / 10 ^ digits

/-- `value.toFixed(digits)` -/
def toFixed (digits : ℕ) (value : ℚ) : String :=
  let scaled := (nearestInt (value * 10 ^ digits)).natAbs
  let fraction := if digits = 0 then [] else '.' :: padded digits scaled
  String.ofList ((if value < 0 then ['-'] else []) ++ Nat.toDigits 10 (scaled / 10 ^ digits) ++ fraction)

/-- A number with at most so many decimals. -/
def IsMultiple (digits : ℕ) (value : ℚ) : Prop := ∃ n : ℤ, value * 10 ^ digits = n

theorem nearestInt_intCast (n : ℤ) : nearestInt n = n := by
  have hhalf : ⌊(1 : ℚ) / 2⌋ = 0 := by rw [Int.floor_eq_zero_iff]; constructor <;> norm_num
  unfold nearestInt
  split
  · rw [← Int.cast_neg, Int.floor_intCast_add, hhalf]
    omega
  · rw [Int.floor_intCast_add, hhalf]
    omega

variable {value a b : ℚ} {digits : ℕ}

theorem nearestInt_nonpos (h : value < 0) : nearestInt value ≤ 0 := by
  have hfloor : 0 ≤ ⌊-value + 1 / 2⌋ := Int.floor_nonneg.2 (by linarith)
  unfold nearestInt
  rw [if_pos h]
  omega

theorem nearestInt_nonneg (h : 0 ≤ value) : 0 ≤ nearestInt value := by
  unfold nearestInt
  rw [if_neg (by linarith)]
  exact Int.floor_nonneg.2 (by linarith)

theorem nearestInt_mono (h : a ≤ b) : nearestInt a ≤ nearestInt b := by
  by_cases ha : a < 0
  · by_cases hb : b < 0
    · have hfloor : ⌊-b + 1 / 2⌋ ≤ ⌊-a + 1 / 2⌋ := Int.floor_mono (by linarith)
      unfold nearestInt
      rw [if_pos ha, if_pos hb]
      omega
    · exact (nearestInt_nonpos ha).trans (nearestInt_nonneg (by linarith))
  · have hb : ¬ b < 0 := by linarith
    unfold nearestInt
    rw [if_neg ha, if_neg hb]
    exact Int.floor_mono (by linarith)

theorem roundTo_mono (digits : ℕ) (h : a ≤ b) : roundTo digits a ≤ roundTo digits b := by
  have hpos : (0 : ℚ) < 10 ^ digits := by positivity
  have hscaled : nearestInt (a * 10 ^ digits) ≤ nearestInt (b * 10 ^ digits) := by
    apply nearestInt_mono
    exact mul_le_mul_of_nonneg_right h hpos.le
  unfold roundTo
  rw [div_le_div_iff_of_pos_right hpos]
  exact_mod_cast hscaled

/-! ## Numbers with no further decimals -/

theorem isMultiple_zero (digits : ℕ) : IsMultiple digits 0 := ⟨0, by simp⟩

theorem IsMultiple.add (ha : IsMultiple digits a) (hb : IsMultiple digits b) :
    IsMultiple digits (a + b) := by
  obtain ⟨n, hn⟩ := ha
  obtain ⟨m, hm⟩ := hb
  refine ⟨n + m, ?_⟩
  rw [add_mul, hn, hm]
  push_cast
  rfl

theorem isMultiple_sum {l : List ℚ} (h : ∀ value ∈ l, IsMultiple digits value) :
    IsMultiple digits l.sum := by
  induction l with
  | nil => exact isMultiple_zero digits
  | cons value l ih =>
    rw [List.sum_cons]
    apply (h value List.mem_cons_self).add
    exact ih fun other hother => h other (List.mem_cons_of_mem _ hother)

theorem isMultiple_roundTo (digits : ℕ) (value : ℚ) : IsMultiple digits (roundTo digits value) := by
  refine ⟨nearestInt (value * 10 ^ digits), ?_⟩
  have hpos : (10 : ℚ) ^ digits ≠ 0 := by positivity
  unfold roundTo
  rw [div_mul_cancel₀ _ hpos]

theorem IsMultiple.roundTo (h : IsMultiple digits value) : roundTo digits value = value := by
  obtain ⟨n, hn⟩ := h
  have hpos : (10 : ℚ) ^ digits ≠ 0 := by positivity
  unfold Lib.roundTo
  rw [hn, nearestInt_intCast, ← hn, mul_div_cancel_right₀ _ hpos]

theorem IsMultiple.le_roundTo (ha : IsMultiple digits a) (h : a ≤ b) :
    a ≤ Lib.roundTo digits b := by
  rw [← ha.roundTo]
  exact roundTo_mono digits h

example : roundTo 2 (-5 / 1000) = -1 / 100 ∧ toFixed 4 (3 / 2) = "1.5000" := by decide +kernel

end PieLab.Lib

import Mathlib.Algebra.Group.Nat.Defs
import Mathlib.Data.List.Basic

/-
  Decimal numbers — a library

  Reading the digits at the start of a text, and the number a floating-point
  reader makes of them.

  What is proved:
    1. `takeDigits_toDigits` — the digits a number is written as are read back, up
       to the first character that is no digit.
-/

namespace PieLab.Lib

/-- The double nearest to `n`, of two the one with the even significand; none where
it is infinite. -/
def nearestDouble (n : Nat) : Option Nat :=
  if n < 2 ^ 53 then some n
  else
    let unit := 2 ^ (Nat.log2 n - 52)
    let significand := n / unit
    let rest := n % unit
    let rounded :=
      if unit < 2 * rest ∨ unit = 2 * rest ∧ significand % 2 = 1 then significand + 1
      else significand
    if 2 ^ 1024 ≤ rounded * unit then none else some (rounded * unit)

/-- The digits at the start, if there are any, and what is behind them. -/
def takeDigits (cs : List Char) : Option (List Char × List Char) :=
  if cs.takeWhile Char.isDigit = [] then none
  else some (cs.takeWhile Char.isDigit, cs.dropWhile Char.isDigit)

/-- What stands behind a number is no digit. -/
def NoDigit (rest : List Char) : Prop := ∀ c ∈ rest.head?, c.isDigit = false

theorem takeDigits_toDigits (n : Nat) {rest : List Char} (h : NoDigit rest) :
    takeDigits (Nat.toDigits 10 n ++ rest) = some (Nat.toDigits 10 n, rest) := by
  have hdigits : ∀ c ∈ Nat.toDigits 10 n, c.isDigit = true := by
    intro c hc
    exact Nat.isDigit_of_mem_toDigits (by omega) (by omega) hc
  have hrest : rest.takeWhile Char.isDigit = [] ∧ rest.dropWhile Char.isDigit = rest := by
    cases rest with
    | nil => exact ⟨rfl, rfl⟩
    | cons c rest => simp [h c rfl]
  unfold takeDigits
  rw [List.takeWhile_append_of_pos hdigits, List.dropWhile_append_of_pos hdigits, hrest.1, hrest.2,
    List.append_nil, if_neg Nat.toDigits_ne_nil]

end PieLab.Lib

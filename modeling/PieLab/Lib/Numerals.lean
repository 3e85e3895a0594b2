import Mathlib
import PieLab.Lib.Decimal

/-
  Numerals — a library

  The number a text stands for where numbers are doubles: white space around it, a
  sign, a decimal with a fraction and an exponent, or digits in base sixteen, eight
  or two. The empty text is zero. The exact value is rounded to the nearest double.

  What is proved:
    1. `toDouble_natCast` — a natural number below 2^53 is a double.
    2. `toDouble_large`   — from 2^53 on a double is a natural number from 2^53 on.
    3. `readNumber_digits` — plain digits are read as the number they name, rounded.
-/

namespace PieLab.Lib

/-! ## Rounding -/

/-- The nearest integer, of two the even one. -/
def roundHalfEven (q : ℚ) : ℤ :=
  if Int.fract q < 1 / 2 ∨ Int.fract q = 1 / 2 ∧ ⌊q⌋ % 2 = 0 then ⌊q⌋ else ⌊q⌋ + 1

theorem roundHalfEven_intCast (z : ℤ) : roundHalfEven (z : ℚ) = z := by
  simp [roundHalfEven]

theorem floor_le_roundHalfEven (q : ℚ) : ⌊q⌋ ≤ roundHalfEven q := by
  unfold roundHalfEven
  split <;> omega

/-- The exponent of the last place of the double nearest to `q`: 53 binary digits,
and no place below 2^-1074. -/
def lastPlace (q : ℚ) : ℤ := max (Int.log 2 |q| - 52) (-1074)

/-- The double nearest to `q`, none where it is infinite. -/
def toDouble (q : ℚ) : Option ℚ :=
  let place := (2 : ℚ) ^ lastPlace q
  let rounded := roundHalfEven (q / place) * place
  if |rounded| < 2 ^ 1024 then some rounded else none

theorem toDouble_natCast {n : ℕ} (h : n < 2 ^ 53) : toDouble (n : ℚ) = some (n : ℚ) := by
  have hlog : Int.log 2 |(n : ℚ)| ≤ 52 := by
    rw [Nat.abs_cast, Int.log_natCast]
    have := Nat.log_lt_of_lt_pow' (b := 2) (y := n) (x := 53) (by omega) h
    omega
  -- every place of `n` is a multiple of the last one
  obtain ⟨k, hk⟩ : ∃ k : ℕ, lastPlace (n : ℚ) = -(k : ℤ) := by
    refine ⟨(-lastPlace (n : ℚ)).toNat, ?_⟩
    unfold lastPlace
    omega
  have hplace : (2 : ℚ) ^ lastPlace (n : ℚ) = ((2 : ℚ) ^ k)⁻¹ := by
    rw [hk, zpow_neg, zpow_natCast]
  have hscaled : (n : ℚ) / (2 : ℚ) ^ lastPlace (n : ℚ) = ((n * 2 ^ k : ℕ) : ℤ) := by
    rw [hplace, div_inv_eq_mul]
    push_cast
    rfl
  have hrounded : (roundHalfEven ((n : ℚ) / (2 : ℚ) ^ lastPlace (n : ℚ)) : ℚ) *
      (2 : ℚ) ^ lastPlace (n : ℚ) = n := by
    rw [hscaled, roundHalfEven_intCast, hplace]
    push_cast
    rw [mul_assoc, mul_inv_cancel₀ (by positivity), mul_one]
  have hfinite : |(n : ℚ)| < 2 ^ 1024 := by
    rw [Nat.abs_cast]
    calc (n : ℚ) < 2 ^ 53 := by exact_mod_cast h
      _ ≤ 2 ^ 1024 := pow_le_pow_right₀ (by norm_num) (by omega)
  simp only [toDouble, hrounded]
  rw [if_pos hfinite]

theorem toDouble_large {q r : ℚ} (h : 2 ^ 53 ≤ q) (hr : toDouble q = some r) :
    ∃ m : ℕ, r = m ∧ 2 ^ 53 ≤ m := by
  have hpos : 0 < q := lt_of_lt_of_le (by positivity) h
  have hlog : 53 ≤ Int.log 2 |q| := by
    rw [abs_of_pos hpos]
    exact (Int.zpow_le_iff_le_log (by omega) hpos).1 (by exact_mod_cast h)
  obtain ⟨k, hk⟩ : ∃ k : ℕ, lastPlace q = (k : ℤ) := by
    refine ⟨(lastPlace q).toNat, ?_⟩
    unfold lastPlace
    omega
  have hlast : Int.log 2 |q| = ((52 + k : ℕ) : ℤ) := by
    unfold lastPlace at hk
    push_cast
    omega
  have hplace : (2 : ℚ) ^ lastPlace q = 2 ^ k := by
    rw [hk, zpow_natCast]
  -- the significand has 53 digits, so rounding it down keeps it at least 2^52
  have hsignificand : (2 ^ 52 : ℤ) ≤ roundHalfEven (q / 2 ^ k) := by
    refine le_trans ?_ (floor_le_roundHalfEven _)
    rw [Int.le_floor, le_div_iff₀ (by positivity)]
    have := Int.zpow_log_le_self (b := 2) (by omega) hpos
    rw [abs_of_pos hpos] at hlast
    rw [hlast, zpow_natCast, pow_add] at this
    exact_mod_cast this
  obtain ⟨s, hs⟩ : ∃ s : ℕ, roundHalfEven (q / 2 ^ k) = (s : ℤ) :=
    ⟨(roundHalfEven (q / 2 ^ k)).toNat, by omega⟩
  refine ⟨s * 2 ^ k, ?_, ?_⟩
  · simp only [toDouble, hplace, hs] at hr
    split at hr
    · rw [← Option.some.inj hr]
      push_cast
      rfl
    · cases hr
  · have hone : 1 ≤ k := by omega
    have hs' : 2 ^ 52 ≤ s := by
      rw [hs] at hsignificand
      exact_mod_cast hsignificand
    calc 2 ^ 53 = 2 ^ 52 * 2 ^ 1 := by norm_num
      _ ≤ s * 2 ^ k := Nat.mul_le_mul hs' (Nat.pow_le_pow_right (by omega) hone)

/-! ## Reading -/

/-- What a character counts as a digit. -/
def digitValue (c : Char) : ℕ :=
  if c.isDigit then c.toNat - 48 else if c.isLower then c.toNat - 87 else c.toNat - 55

/-- The number of a text of digits in a base up to sixteen. -/
def readDigits (base : ℕ) (cs : List Char) : Option ℕ :=
  if cs ≠ [] ∧ ∀ c ∈ cs, c.isAlphanum = true ∧ digitValue c < base then
    some (cs.foldl (fun n c => base * n + digitValue c) 0)
  else none

/-- The number behind a sign, or without one. -/
def readSigned {α : Type} [Neg α] (read : List Char → Option α) : List Char → Option α
  | '+' :: cs => read cs
  | '-' :: cs => (read cs).map fun n => -n
  | cs => read cs

/-- What stands behind the digits: nothing, or an exponent. -/
def readExponent : List Char → Option ℤ
  | [] => some 0
  | c :: cs =>
    if c = 'e' ∨ c = 'E' then readSigned (fun ds => (readDigits 10 ds).map fun n => (n : ℤ)) cs
    else none

/-- The digits behind a point, and what stands behind them. -/
def readFraction : List Char → List Char × List Char
  | '.' :: cs => (cs.takeWhile Char.isDigit, cs.dropWhile Char.isDigit)
  | cs => ([], cs)

/-- `12`, `12.5`, `.5`, `12.5e-3`. -/
def readUnsigned (cs : List Char) : Option ℚ :=
  let whole := cs.takeWhile Char.isDigit
  let (fraction, behind) := readFraction (cs.dropWhile Char.isDigit)
  if whole ++ fraction = [] then none
  else (readExponent behind).map fun e : ℤ =>
    (Nat.ofDigitChars 10 (whole ++ fraction) 0 : ℚ) * (10 : ℚ) ^ (e - (fraction.length : ℤ))

/-- The exact value of a numeral without white space around it. -/
def readExact : List Char → Option ℚ
  | [] => some 0
  | '0' :: c :: cs =>
    if c = 'x' ∨ c = 'X' then (readDigits 16 cs).map fun n => (n : ℚ)
    else if c = 'o' ∨ c = 'O' then (readDigits 8 cs).map fun n => (n : ℚ)
    else if c = 'b' ∨ c = 'B' then (readDigits 2 cs).map fun n => (n : ℚ)
    else readSigned readUnsigned ('0' :: c :: cs)
  | cs => readSigned readUnsigned cs

/-- The double a text stands for, none where it is infinite or no number. -/
def readNumber (space : Char → Bool) (cs : List Char) : Option ℚ :=
  (readExact ((cs.dropWhile space).reverse.dropWhile space).reverse).bind toDouble

/-- One digit or more and nothing else. -/
def PlainDigits (cs : List Char) : Prop := cs ≠ [] ∧ ∀ c ∈ cs, c.isDigit = true

instance (cs : List Char) : Decidable (PlainDigits cs) := inferInstanceAs (Decidable (_ ∧ _))

theorem readUnsigned_digits {cs : List Char} (h : PlainDigits cs) :
    readUnsigned cs = some (Nat.ofDigitChars 10 cs 0 : ℚ) := by
  have htake : cs.takeWhile Char.isDigit = cs := List.takeWhile_eq_self_iff.2 h.2
  have hdrop : cs.dropWhile Char.isDigit = [] := List.dropWhile_eq_nil_iff.2 h.2
  simp [readUnsigned, htake, hdrop, readFraction, readExponent, h.1]

theorem readSigned_digits {cs : List Char} (h : PlainDigits cs) :
    readSigned readUnsigned cs = some (Nat.ofDigitChars 10 cs 0 : ℚ) := by
  unfold readSigned
  split
  · exact absurd (h.2 '+' (by simp)) (by decide)
  · exact absurd (h.2 '-' (by simp)) (by decide)
  · exact readUnsigned_digits h

theorem readExact_digits {cs : List Char} (h : PlainDigits cs) :
    readExact cs = some (Nat.ofDigitChars 10 cs 0 : ℚ) := by
  have hne : ∀ d : Char, d.isDigit = false → d ∉ cs := by
    intro d hd hmem
    simp [h.2 d hmem] at hd
  unfold readExact
  split
  · exact absurd rfl h.1
  · -- the second character is a digit too, so no other base begins here
    rename_i c cs
    have hc : ∀ d : Char, d.isDigit = false → c ≠ d := by
      rintro d hd rfl
      exact hne c hd (by simp)
    rw [if_neg (not_or.2 ⟨hc 'x' (by decide), hc 'X' (by decide)⟩),
      if_neg (not_or.2 ⟨hc 'o' (by decide), hc 'O' (by decide)⟩),
      if_neg (not_or.2 ⟨hc 'b' (by decide), hc 'B' (by decide)⟩)]
    exact readSigned_digits h
  · exact readSigned_digits h

theorem readNumber_digits {space : Char → Bool} (hspace : ∀ c, c.isDigit = true → space c = false)
    {cs : List Char} (h : PlainDigits cs) :
    readNumber space cs = toDouble (Nat.ofDigitChars 10 cs 0 : ℚ) := by
  have hkeep : ∀ ds : List Char, (∀ c ∈ ds, c.isDigit = true) → ds.dropWhile space = ds := by
    intro ds hds
    cases ds with
    | nil => rfl
    | cons d ds => simp [hspace d (hds d (by simp))]
  rw [readNumber, hkeep cs h.2, hkeep cs.reverse (by simpa using h.2), List.reverse_reverse,
    readExact_digits h, Option.bind_some]

end PieLab.Lib

import Mathlib.Tactic.IntervalCases

/-
  ISO dates — a library

  The instants of a date are milliseconds since the epoch, up to 100 million days
  from it. `isoText` prints one in UTC the way `toISOString` does: a year of four
  digits, or a sign and six digits outside 0..9999. Which other texts a date is
  read from depends on the platform, so the reading is a parameter with its
  documented law (`DateFormat`).

  What is proved:
    1. `daysOfCivil_civilOfDays` — the calendar date of a day determines the day.
    2. `readIso_isoText` — an instant is read back from its text.
-/

namespace PieLab.Lib

/-! ## The calendar -/

structure CivilDate where
  year : Int
  month : Nat
  day : Nat
  deriving DecidableEq, Repr

/-- The Gregorian date of a day since the epoch. Years begin in March here, so that
the leap day is the last of its year. -/
def civilOfDays (days : Int) : CivilDate :=
  let era := (days + 719468) / 146097
  let dayOfEra := (days + 719468) % 146097
  let century := min (dayOfEra / 36524) 3
  let dayOfCentury := dayOfEra - century * 36524
  let yearOfCycle := min (dayOfCentury % 1461 / 365) 3
  let dayOfYear := dayOfCentury % 1461 - yearOfCycle * 365
  let month := (5 * dayOfYear + 2) / 153
  let year := 400 * era + 100 * century + 4 * (dayOfCentury / 1461) + yearOfCycle
  let day := dayOfYear - (153 * month + 2) / 5 + 1
  if month < 10 then { year, month := (month + 3).toNat, day := day.toNat }
  else { year := year + 1, month := (month - 9).toNat, day := day.toNat }

def daysOfCivil (date : CivilDate) : Int :=
  let year := if date.month ≤ 2 then date.year - 1 else date.year
  let month : Int := if date.month ≤ 2 then date.month + 9 else date.month - 3
  let yearOfEra := year % 400
  year / 400 * 146097 + (365 * yearOfEra + yearOfEra / 4 - yearOfEra / 100)
    + ((153 * month + 2) / 5 + date.day - 1) - 719468

/-- The parts `civilOfDays` splits a day into. -/
structure CivilParts (days : Int) where
  era : Int
  century : Int
  cycle : Int
  yearOfCycle : Int
  dayOfYear : Int
  century_mem : 0 ≤ century ∧ century ≤ 3
  cycle_mem : 0 ≤ cycle ∧ cycle ≤ 24
  yearOfCycle_mem : 0 ≤ yearOfCycle ∧ yearOfCycle ≤ 3
  dayOfYear_mem : 0 ≤ dayOfYear ∧ dayOfYear ≤ 365
  sum : days + 719468 =
    era * 146097 + century * 36524 + cycle * 1461 + yearOfCycle * 365 + dayOfYear

def civilParts (days : Int) : CivilParts days where
  era := (days + 719468) / 146097
  century := min ((days + 719468) % 146097 / 36524) 3
  cycle := ((days + 719468) % 146097 - min ((days + 719468) % 146097 / 36524) 3 * 36524) / 1461
  yearOfCycle :=
    min (((days + 719468) % 146097 - min ((days + 719468) % 146097 / 36524) 3 * 36524) % 1461 / 365)
      3
  dayOfYear :=
    ((days + 719468) % 146097 - min ((days + 719468) % 146097 / 36524) 3 * 36524) % 1461 -
      min (((days + 719468) % 146097 - min ((days + 719468) % 146097 / 36524) 3 * 36524) % 1461 /
        365) 3 * 365
  century_mem := by omega
  cycle_mem := by omega
  yearOfCycle_mem := by omega
  dayOfYear_mem := by omega
  sum := by omega

def CivilParts.year {days : Int} (p : CivilParts days) : Int :=
  400 * p.era + 100 * p.century + 4 * p.cycle + p.yearOfCycle

/-- March is month zero. -/
def CivilParts.month {days : Int} (p : CivilParts days) : Int := (5 * p.dayOfYear + 2) / 153

def CivilParts.day {days : Int} (p : CivilParts days) : Int :=
  p.dayOfYear - (153 * p.month + 2) / 5 + 1

theorem civilOfDays_eq (days : Int) :
    civilOfDays days =
      if (civilParts days).month < 10 then
        { year := (civilParts days).year
          month := ((civilParts days).month + 3).toNat
          day := (civilParts days).day.toNat }
      else
        { year := (civilParts days).year + 1
          month := ((civilParts days).month - 9).toNat
          day := (civilParts days).day.toNat } := rfl

variable {days t : Int} {n : Nat}

theorem CivilParts.month_mem (p : CivilParts days) : 0 ≤ p.month ∧ p.month ≤ 11 := by
  have hday := p.dayOfYear_mem
  unfold CivilParts.month
  omega

theorem CivilParts.day_mem (p : CivilParts days) : 1 ≤ p.day ∧ p.day ≤ 32 := by
  have hday := p.dayOfYear_mem
  unfold CivilParts.day CivilParts.month
  omega

theorem CivilParts.year_div (p : CivilParts days) :
    p.year / 400 = p.era ∧ p.year % 400 = 100 * p.century + 4 * p.cycle + p.yearOfCycle := by
  have hcentury := p.century_mem
  have hcycle := p.cycle_mem
  have hyear := p.yearOfCycle_mem
  unfold CivilParts.year
  omega

theorem CivilParts.days_eq (p : CivilParts days) :
    p.year / 400 * 146097 +
        (365 * (p.year % 400) + p.year % 400 / 4 - p.year % 400 / 100) +
        ((153 * p.month + 2) / 5 + p.day - 1) - 719468 = days := by
  obtain ⟨hera, hrest⟩ := p.year_div
  have hcentury := p.century_mem
  have hcycle := p.cycle_mem
  have hyear := p.yearOfCycle_mem
  have hsum := p.sum
  rw [hera, hrest]
  unfold CivilParts.day
  omega

theorem daysOfCivil_civilOfDays (days : Int) : daysOfCivil (civilOfDays days) = days := by
  have hdays := (civilParts days).days_eq
  have hmonth := (civilParts days).month_mem
  have hday := (civilParts days).day_mem
  rw [civilOfDays_eq]
  unfold daysOfCivil
  by_cases h : (civilParts days).month < 10
  · have h2 : ¬ ((civilParts days).month + 3).toNat ≤ 2 := by omega
    simp only [if_pos h, if_neg h2]
    rw [Int.toNat_of_nonneg (by omega : 0 ≤ (civilParts days).month + 3),
      Int.toNat_of_nonneg (by omega : 0 ≤ (civilParts days).day), Int.add_sub_cancel]
    exact hdays
  · have h2 : ((civilParts days).month - 9).toNat ≤ 2 := by omega
    simp only [if_neg h, if_pos h2]
    rw [Int.toNat_of_nonneg (by omega : 0 ≤ (civilParts days).month - 9),
      Int.toNat_of_nonneg (by omega : 0 ≤ (civilParts days).day), Int.add_sub_cancel,
      Int.sub_add_cancel]
    exact hdays

/-- The instants a date can hold. -/
def IsTimeValue (t : Int) : Prop := -8640000000000000 ≤ t ∧ t ≤ 8640000000000000

instance (t : Int) : Decidable (IsTimeValue t) := inferInstanceAs (Decidable (_ ∧ _))

theorem civilOfDays_month (days : Int) : (civilOfDays days).month < 100 := by
  have hmonth := (civilParts days).month_mem
  rw [civilOfDays_eq]
  split
  · show ((civilParts days).month + 3).toNat < 100
    omega
  · show ((civilParts days).month - 9).toNat < 100
    omega

theorem civilOfDays_day (days : Int) : (civilOfDays days).day < 100 := by
  have hday := (civilParts days).day_mem
  rw [civilOfDays_eq]
  split
  · show (civilParts days).day.toNat < 100
    omega
  · show (civilParts days).day.toNat < 100
    omega

theorem civilOfDays_year (h : IsTimeValue t) :
    (civilOfDays (t / 86400000)).year.natAbs < 1000000 := by
  obtain ⟨h1, h2⟩ := h
  have hyear : (civilParts (t / 86400000)).year.natAbs < 999999 := by
    have hcentury := (civilParts (t / 86400000)).century_mem
    have hcycle := (civilParts (t / 86400000)).cycle_mem
    have hyear := (civilParts (t / 86400000)).yearOfCycle_mem
    have hday := (civilParts (t / 86400000)).dayOfYear_mem
    have hsum := (civilParts (t / 86400000)).sum
    unfold CivilParts.year
    omega
  rw [civilOfDays_eq]
  split
  · show (civilParts (t / 86400000)).year.natAbs < 1000000
    omega
  · show ((civilParts (t / 86400000)).year + 1).natAbs < 1000000
    omega

/-! ## Numbers of fixed width -/

/-- The last `width` decimal digits of a number. -/
def padded : Nat → Nat → List Char
  | 0, _ => []
  | width + 1, n => padded width (n / 10) ++ [Nat.digitChar (n % 10)]

def valueOfDigits (digits : List Char) : Nat :=
  digits.foldl (fun n c => 10 * n + (c.toNat - 48)) 0

/-- `width` digits at the head of a text, and the text behind them. -/
def takeNumber (width : Nat) (l : List Char) : Option (Nat × List Char) :=
  if (l.take width).length = width ∧ (l.take width).all Char.isDigit then
    some (valueOfDigits (l.take width), l.drop width)
  else none

def expect (c : Char) (l : List Char) : Option (List Char) :=
  if l.head? = some c then some l.tail else none

theorem digitChar_toNat (h : n < 10) : (Nat.digitChar n).toNat - 48 = n := by
  interval_cases n <;> rfl

theorem digitChar_isDigit (h : n < 10) : (Nat.digitChar n).isDigit = true := by
  interval_cases n <;> rfl

@[simp] theorem length_padded (width n : Nat) : (padded width n).length = width := by
  induction width generalizing n with
  | zero => rfl
  | succ width ih => simp [padded, ih]

theorem padded_all_isDigit (width n : Nat) : (padded width n).all Char.isDigit = true := by
  induction width generalizing n with
  | zero => rfl
  | succ width ih =>
    simp only [padded, List.all_append, ih, List.all_cons, List.all_nil, Bool.and_true,
      Bool.true_and]
    exact digitChar_isDigit (Nat.mod_lt _ (by omega))

theorem valueOfDigits_padded {width : Nat} (h : n < 10 ^ width) :
    valueOfDigits (padded width n) = n := by
  induction width generalizing n with
  | zero =>
    have hn : n = 0 := by simpa using h
    rw [hn]
    rfl
  | succ width ih =>
    have hdiv : n / 10 < 10 ^ width := by
      rw [Nat.pow_succ] at h
      omega
    have hrest := ih hdiv
    unfold valueOfDigits at hrest ⊢
    rw [padded, List.foldl_append, hrest]
    simp only [List.foldl_cons, List.foldl_nil]
    rw [digitChar_toNat (Nat.mod_lt _ (by omega))]
    omega

@[simp] theorem takeNumber_padded {width : Nat} (h : n < 10 ^ width) (rest : List Char) :
    takeNumber width (padded width n ++ rest) = some (n, rest) := by
  have htake : (padded width n ++ rest).take width = padded width n := by simp
  have hdrop : (padded width n ++ rest).drop width = rest := by simp
  unfold takeNumber
  rw [htake, hdrop, if_pos ⟨length_padded _ _, padded_all_isDigit _ _⟩, valueOfDigits_padded h]

@[simp] theorem expect_cons (c : Char) (l : List Char) : expect c (c :: l) = some l := by
  simp [expect]

/-! ## The text of an instant -/

def yearText (year : Int) : List Char :=
  if 0 ≤ year ∧ year ≤ 9999 then padded 4 year.toNat
  else (if year < 0 then '-' else '+') :: padded 6 year.natAbs

def dateText (date : CivilDate) : List Char :=
  yearText date.year ++ ('-' :: (padded 2 date.month ++ ('-' :: padded 2 date.day)))

/-- The time of day, of the milliseconds since midnight. -/
def clockText (ms : Nat) : List Char :=
  padded 2 (ms / 3600000) ++ (':' :: (padded 2 (ms / 60000 % 60) ++
    (':' :: (padded 2 (ms / 1000 % 60) ++ ('.' :: (padded 3 (ms % 1000) ++ ['Z']))))))

def isoChars (t : Int) : List Char :=
  dateText (civilOfDays (t / 86400000)) ++ 'T' :: clockText (t % 86400000).toNat

/-- `date.toISOString()` -/
def isoText (t : Int) : String := String.ofList (isoChars t)

def readYear (l : List Char) : Option (Int × List Char) :=
  match l with
  | '+' :: rest => (takeNumber 6 rest).map fun (n, rest) => ((n : Int), rest)
  | '-' :: rest => (takeNumber 6 rest).map fun (n, rest) => (-(n : Int), rest)
  | l => (takeNumber 4 l).map fun (n, rest) => ((n : Int), rest)

/-- `width` digits behind a separator. -/
def readField (separator : Char) (width : Nat) (l : List Char) : Option (Nat × List Char) :=
  (expect separator l).bind (takeNumber width)

def readDate (l : List Char) : Option (CivilDate × List Char) := do
  let (year, l) ← readYear l
  let (month, l) ← readField '-' 2 l
  let (day, l) ← readField '-' 2 l
  some ({ year, month, day }, l)

def readClock (l : List Char) : Option Nat := do
  let (hours, l) ← readField 'T' 2 l
  let (minutes, l) ← readField ':' 2 l
  let (seconds, l) ← readField ':' 2 l
  let (ms, l) ← readField '.' 3 l
  if l = ['Z'] then some (hours * 3600000 + minutes * 60000 + seconds * 1000 + ms) else none

def readIso (l : List Char) : Option Int := do
  let (date, l) ← readDate l
  let ms ← readClock l
  some (daysOfCivil date * 86400000 + ms)

theorem readYear_digits {l : List Char} (h : (l.take 4).all Char.isDigit = true) :
    readYear l = (takeNumber 4 l).map fun (n, rest) => ((n : Int), rest) := by
  unfold readYear
  split
  · simp [List.take] at h
  · simp [List.take] at h
  · rfl

theorem readYear_minus (l : List Char) :
    readYear ('-' :: l) = (takeNumber 6 l).map fun (n, rest) => (-(n : Int), rest) := rfl

theorem readYear_plus (l : List Char) :
    readYear ('+' :: l) = (takeNumber 6 l).map fun (n, rest) => ((n : Int), rest) := rfl

theorem readYear_yearText {year : Int} (h : year.natAbs < 1000000) (rest : List Char) :
    readYear (yearText year ++ rest) = some (year, rest) := by
  unfold yearText
  by_cases hyear : 0 ≤ year ∧ year ≤ 9999
  · rw [if_pos hyear, readYear_digits]
    · rw [takeNumber_padded (by omega)]
      show some ((year.toNat : Int), rest) = _
      rw [Int.toNat_of_nonneg hyear.1]
    · rw [List.take_append_of_le_length (by simp)]
      have hall := padded_all_isDigit 4 year.toNat
      rw [List.all_eq_true] at hall ⊢
      intro c hc
      exact hall c (List.mem_of_mem_take hc)
  · rw [if_neg hyear]
    by_cases hneg : year < 0
    · rw [if_pos hneg, List.cons_append, readYear_minus, takeNumber_padded h]
      show some (-(year.natAbs : Int), rest) = _
      have habs : -(year.natAbs : Int) = year := by omega
      rw [habs]
    · rw [if_neg hneg, List.cons_append, readYear_plus, takeNumber_padded h]
      show some ((year.natAbs : Int), rest) = _
      have habs : (year.natAbs : Int) = year := by omega
      rw [habs]

theorem readField_padded {width : Nat} (h : n < 10 ^ width) (separator : Char) (rest : List Char) :
    readField separator width (separator :: (padded width n ++ rest)) = some (n, rest) := by
  simp only [readField, expect_cons, Option.bind_some, takeNumber_padded h]

theorem readDate_dateText {date : CivilDate} (hyear : date.year.natAbs < 1000000)
    (hmonth : date.month < 100) (hday : date.day < 100) (rest : List Char) :
    readDate (dateText date ++ rest) = some (date, rest) := by
  unfold readDate dateText
  simp only [List.append_assoc, List.cons_append]
  rw [readYear_yearText hyear]
  show (readField '-' 2 _).bind _ = _
  rw [readField_padded hmonth]
  show (readField '-' 2 _).bind _ = _
  rw [readField_padded hday]
  rfl

theorem readClock_clockText {ms : Nat} (h : ms < 86400000) :
    readClock ('T' :: clockText ms) = some ms := by
  unfold readClock clockText
  rw [readField_padded (by omega)]
  show (readField ':' 2 _).bind _ = _
  rw [readField_padded (by omega)]
  show (readField ':' 2 _).bind _ = _
  rw [readField_padded (by omega)]
  show (readField '.' 3 _).bind _ = _
  rw [readField_padded (by omega)]
  show (if ['Z'] = ['Z'] then some _ else none) = some ms
  rw [if_pos rfl]
  congr 1
  omega

theorem readIso_isoChars (h : IsTimeValue t) : readIso (isoChars t) = some t := by
  have hms : (t % 86400000).toNat < 86400000 := by omega
  unfold readIso isoChars
  rw [readDate_dateText (civilOfDays_year h) (civilOfDays_month _) (civilOfDays_day _)]
  show (readClock ('T' :: clockText _)).bind _ = _
  rw [readClock_clockText hms]
  show some (daysOfCivil (civilOfDays (t / 86400000)) * 86400000 + _) = some t
  rw [daysOfCivil_civilOfDays]
  congr 1
  omega

/-- `Date.parse` on the texts `toISOString` writes. -/
def readIsoText (text : String) : Option Int :=
  (readIso text.toList).filter fun t => decide (IsTimeValue t)

theorem readIso_isoText (h : IsTimeValue t) : readIsoText (isoText t) = some t := by
  unfold readIsoText isoText
  rw [String.toList_ofList, readIso_isoChars h]
  simp [h]

theorem isoText_ne_empty (t : Int) : isoText t ≠ "" := by
  intro h
  have hchars : isoChars t = [] := by
    rw [← String.toList_ofList (l := isoChars t)]
    exact congrArg String.toList h
  exact List.append_ne_nil_of_right_ne_nil _ (List.cons_ne_nil _ _) hchars

/-- `Date.parse`: the instant a text names, `none` for NaN. -/
structure DateFormat where
  parse : String → Option Int
  parse_isTimeValue : ∀ text t, parse text = some t → IsTimeValue t
  parse_isoText : ∀ t, IsTimeValue t → parse (isoText t) = some t

/-- A platform that reads no other texts. -/
def isoDates : DateFormat where
  parse := readIsoText
  parse_isTimeValue := by
    intro text t h
    unfold readIsoText at h
    simpa using (Option.filter_eq_some_iff.1 h).2
  parse_isoText := fun _ h => readIso_isoText h

theorem DateFormat.isoText_injective (dates : DateFormat) {u : Int} (ht : IsTimeValue t)
    (hu : IsTimeValue u) (h : isoText t = isoText u) : t = u := by
  have hparse := dates.parse_isoText t ht
  rw [h, dates.parse_isoText u hu] at hparse
  exact (Option.some.inj hparse).symm

/-- A year of four digits, a month, a day and a time of day. -/
example : isoText 1709210096789 = "2024-02-29T12:34:56.789Z" := by decide

end PieLab.Lib

import Mathlib.Data.Finset.Image
import PieLab.Lib.Checks
import PieLab.Lib.Numerals
import PieLab.Scheduler.Schedule

/-
  Fields of a cron expression

  A field is a list of items between commas: `*`, a number or a name, or a range of
  them, each with a step behind a slash. `parseCronField` takes the items apart with
  `split` and reads numbers with `Number`, which reads more than decimal digits: the
  empty text is zero, and there are bases, exponents, signs and white space. A name
  is looked up as a property, so `constructor` is found in every table of names.

  What is proved:
    1. `parseCronField_ok_iff` — the fields `parseCronField` reads.
    2. `mem_parseCronField`    — the values it returns.
    3. `follows_grammar_iff`   — it reads the grammar and returns what the items denote,
       exactly where a field that is read is written plainly and no step overflows.

  Correspondence (TypeScript ↔ Lean), packages/coding-agent/src/core/scheduler/schedule.ts:
    the arguments of `parseCronField` ↔ `FieldSpec`
    the body of its loop              ↔ `parsePart`
    the other functions               ↔ the functions of the same name
-/

namespace PieLab

open Lib (PlainDigits readNumber toDouble Except.bind_ok)

/-! ## The code -/

/-- A value of a field: a number, or an object found as a property of every table. -/
inductive CronValue where
  | number (n : ℤ)
  | inherited (key : String)
  deriving DecidableEq, Repr

/-- The bounds of a field and its table of names, written in lower case. -/
structure FieldSpec where
  min : ℕ
  max : ℕ
  names : Option (List (String × ℕ))
  bounded : max < 2 ^ 53
  lower : ∀ table ∈ names, ∀ name ∈ table, name.1.toList.all Char.isLower = true

/-- The properties every object has. -/
def objectKeys : List String :=
  ["constructor", "__proto__", "hasOwnProperty", "isPrototypeOf", "propertyIsEnumerable",
    "toLocaleString", "toString", "valueOf", "__defineGetter__", "__defineSetter__",
    "__lookupGetter__", "__lookupSetter__"]

/-- `raw.toLowerCase()`, as far as ASCII names can tell: of the other letters only
two become ASCII letters. -/
def toLowerCase (raw : List Char) : List Char :=
  raw.flatMap fun c =>
    if c.isUpper then [c.toLower]
    else if c = '\u212A' then ['k']
    else if c = '\u0130' then ['i', '\u0307']
    else [c]

/-- `names?.[lowered]` -/
def named (spec : FieldSpec) (raw : List Char) : Option CronValue :=
  spec.names.bind fun table =>
    let lowered := String.ofList (toLowerCase raw)
    match table.lookup lowered with
    | some n => some (.number n)
    | none => if lowered ∈ objectKeys then some (.inherited lowered) else none

/-- `Number(raw)` where it is an integer. -/
def readInteger (raw : List Char) : Option ℤ :=
  (readNumber isJsSpace raw).bind fun q => if q.den = 1 then some q.num else none

def parseValue (spec : FieldSpec) (raw : List Char) : Except String CronValue :=
  match named spec raw with
  | some v => .ok v
  | none =>
    match readInteger raw with
    | some n => .ok (.number n)
    | none => .error ("Invalid cron value: " ++ String.ofList raw)

/-- `a < b`. An object is NaN beside a number; beside an object only itself can stand. -/
def CronValue.less : CronValue → CronValue → Bool
  | .number a, .number b => a < b
  | _, _ => false

/-- `for (let value = start; value <= end; value += step) values.add(value)`. A sum up to
`end` is exact, the others are above `end` however they are rounded. -/
def countUp (step : ℕ) (stop : ℤ) : ℕ → ℤ → Finset CronValue → Finset CronValue
  | 0, _, values => values
  | fuel + 1, value, values =>
    if value ≤ stop then countUp step stop fuel (value + step) (insert (.number value) values)
    else values

/-- The loop for any ends. A range of names is made of letters, so two objects are both
`constructor`; the object plus a step is a longer text than its own. -/
def addValues (start stop : CronValue) (step : ℕ) (values : Finset CronValue) :
    Finset CronValue :=
  match start, stop with
  | .number a, .number b => countUp step b (b + 1 - a).toNat a values
  | .inherited key, .inherited _ => insert (.inherited key) values
  | _, _ => values

def addRange (spec : FieldSpec) (field : String) (start stop : CronValue) (step : ℕ)
    (values : Finset CronValue) : Except String (Finset CronValue) :=
  if step = 0 then .error ("Invalid cron step: " ++ field)
  else if start.less (.number spec.min) ∨ CronValue.less (.number spec.max) stop ∨
      stop.less start then
    .error ("Cron field out of range: " ++ field)
  else .ok (addValues start stop step values)

/-- `/^([A-Za-z0-9]+)-([A-Za-z0-9]+)$/` -/
def matchRange (text : List Char) : Option (List Char × List Char) :=
  match text.splitOn '-' with
  | [a, b] =>
    if a ≠ [] ∧ b ≠ [] ∧ ∀ c ∈ a ++ b, c.isAlphanum = true then some (a, b) else none
  | _ => none

/-- The step behind the slash, where it is an integer above zero. -/
def readStep : Option (List Char) → Option ℕ
  | none => some 1
  | some text => (readInteger text).bind fun n => if 0 < n then some n.toNat else none

/-- What stands before the first slash. -/
def rangePart (part : List Char) : List Char := (part.splitOn '/').headD []

/-- What stands between the first slash and the second. -/
def stepPart (part : List Char) : Option (List Char) := (part.splitOn '/')[1]?

/-- The body of the loop. -/
def parsePart (spec : FieldSpec) (field : String) (values : Finset CronValue)
    (part : List Char) : Except String (Finset CronValue) :=
  match readStep (stepPart part) with
  | none => .error ("Invalid cron step: " ++ String.ofList part)
  | some step =>
    if rangePart part = ['*'] then
      addRange spec field (.number spec.min) (.number spec.max) step values
    else
      match matchRange (rangePart part) with
      | some (a, b) => do
        let start ← parseValue spec a
        let stop ← parseValue spec b
        addRange spec field start stop step values
      | none => do
        let value ← parseValue spec (rangePart part)
        if value.less (.number spec.min) ∨ CronValue.less (.number spec.max) value then
          .error ("Cron field out of range: " ++ String.ofList part)
        else .ok (insert value values)

def parseCronField (spec : FieldSpec) (field : String) : Except String (Finset CronValue) :=
  (field.toList.splitOn ',').foldlM (parsePart spec field) ∅

def monthNames : List (String × ℕ) :=
  [("jan", 1), ("feb", 2), ("mar", 3), ("apr", 4), ("may", 5), ("jun", 6), ("jul", 7),
    ("aug", 8), ("sep", 9), ("oct", 10), ("nov", 11), ("dec", 12)]

def dowNames : List (String × ℕ) :=
  [("sun", 0), ("mon", 1), ("tue", 2), ("wed", 3), ("thu", 4), ("fri", 5), ("sat", 6)]

/-- A field without names. -/
def plainField (min max : ℕ) (h : max < 2 ^ 53) : FieldSpec where
  min := min
  max := max
  names := none
  bounded := h
  lower := by simp

def minuteField : FieldSpec := plainField 0 59 (by omega)
def hourField : FieldSpec := plainField 0 23 (by omega)
def dayOfMonthField : FieldSpec := plainField 1 31 (by omega)

def monthField : FieldSpec where
  min := 1
  max := 12
  names := some monthNames
  bounded := by omega
  lower := by simp only [Option.mem_some_iff, forall_eq']; decide

def dayOfWeekField : FieldSpec where
  min := 0
  max := 7
  names := some dowNames
  bounded := by omega
  lower := by simp only [Option.mem_some_iff, forall_eq']; decide

def normalizeDayOfWeek (values : Finset CronValue) : Finset CronValue :=
  values.image fun value => if value = .number 7 then .number 0 else value

def isWildcard (field : String) : Bool := field == "*" || field == "*/1"

/-- What `parseCronExpression` returns. -/
structure ParsedCron where
  minutes : Finset CronValue
  hours : Finset CronValue
  daysOfMonth : Finset CronValue
  months : Finset CronValue
  daysOfWeek : Finset CronValue
  dayOfMonthWildcard : Bool
  dayOfWeekWildcard : Bool

/-- `expression.trim().split(/\s+/)`, without the one empty field of an empty expression. -/
def cronFields (expression : String) : List String :=
  ((expression.toList.splitOnP isJsSpace).filter (· ≠ [])).map String.ofList

def parseCronExpression (expression : String) : Except String ParsedCron :=
  match cronFields expression with
  | [minute, hour, dayOfMonth, month, dayOfWeek] => do
    let minutes ← parseCronField minuteField minute
    let hours ← parseCronField hourField hour
    let daysOfMonth ← parseCronField dayOfMonthField dayOfMonth
    let months ← parseCronField monthField month
    let daysOfWeek ← parseCronField dayOfWeekField dayOfWeek
    return { minutes, hours, daysOfMonth, months
             daysOfWeek := normalizeDayOfWeek daysOfWeek
             dayOfMonthWildcard := isWildcard dayOfMonth
             dayOfWeekWildcard := isWildcard dayOfWeek }
  | _ => .error "Cron schedule must use five fields: minute hour day-of-month month day-of-week."

/-! ## What the code reads -/

variable {v start stop : CronValue} {field : String} {r : Finset CronValue}
variable {part word a b : List Char} {c d : Char} {m n : ℕ}

theorem mem_countUp {step : ℕ} (hstep : 0 < step) {stop : ℤ} :
    ∀ {fuel : ℕ} {value : ℤ} {values : Finset CronValue}, stop + 1 - value ≤ fuel →
      (v ∈ countUp step stop fuel value values ↔
        v ∈ values ∨ ∃ k : ℕ, v = .number (value + k * step) ∧ value + k * step ≤ stop)
  | 0, value, values, h => by
    have hnone : ∀ k : ℕ, ¬ (value + k * step ≤ stop) := by
      intro k hk
      have : (0 : ℤ) ≤ k * step := by positivity
      omega
    simp [countUp, hnone]
  | fuel + 1, value, values, h => by
    rw [countUp]
    split
    · rename_i hle
      rw [mem_countUp hstep (by push_cast at h; omega), Finset.mem_insert]
      -- the first value, and those from the second on
      constructor
      · rintro ((rfl | hv) | ⟨k, rfl, hk⟩)
        · exact .inr ⟨0, by simp, by simpa using hle⟩
        · exact .inl hv
        · have hsum : value + step + k * step = value + ((k + 1 : ℕ) : ℤ) * step := by
            push_cast
            ring
          exact .inr ⟨k + 1, by rw [hsum], by rw [← hsum]; exact hk⟩
      · rintro (hv | ⟨k, rfl, hk⟩)
        · exact .inl (.inr hv)
        · cases k with
          | zero => simp
          | succ k =>
            have hsum : value + ((k + 1 : ℕ) : ℤ) * step = value + step + k * step := by
              push_cast
              ring
            exact .inr ⟨k, by rw [hsum], by rw [← hsum]; exact hk⟩
    · rename_i hgt
      have hnone : ∀ k : ℕ, ¬ (value + k * step ≤ stop) := by
        intro k hk
        have : (0 : ℤ) ≤ k * step := by positivity
        omega
      simp [hnone]

/-- The two ends a text before the slash is read as. -/
inductive ReadsEnds (spec : FieldSpec) : List Char → CronValue → CronValue → Prop
  | star : ReadsEnds spec ['*'] (.number spec.min) (.number spec.max)
  | range {text a b : List Char} {start stop : CronValue} (h : matchRange text = some (a, b))
      (ha : parseValue spec a = .ok start) (hb : parseValue spec b = .ok stop) :
      ReadsEnds spec text start stop
  | value {text : List Char} {v : CronValue} (hstar : text ≠ ['*'])
      (h : matchRange text = none) (hv : parseValue spec text = .ok v) : ReadsEnds spec text v v

/-- No comparison says that the ends are out of bounds or out of order. -/
def InBounds (spec : FieldSpec) (start stop : CronValue) : Prop :=
  start.less (.number spec.min) = false ∧ CronValue.less (.number spec.max) stop = false ∧
    stop.less start = false

/-- A part is read with a step and ends. -/
structure Reads (spec : FieldSpec) (part : List Char) (step : ℕ) (start stop : CronValue) :
    Prop where
  step : readStep (stepPart part) = some step
  ends : ReadsEnds spec (rangePart part) start stop
  bounds : InBounds spec start stop

/-- The values from the one end to the other. -/
def Between (start stop : CronValue) (step : ℕ) (v : CronValue) : Prop :=
  match start, stop with
  | .number a, .number b => ∃ k : ℕ, v = .number (a + k * step) ∧ a + k * step ≤ b
  | .inherited key, .inherited _ => v = .inherited key
  | _, _ => False

theorem readStep_pos {text : Option (List Char)} {step : ℕ} (h : readStep text = some step) :
    0 < step := by
  cases text with
  | none => simp [readStep] at h; omega
  | some text =>
    obtain ⟨n, -, hn⟩ := Option.bind_eq_some_iff.1 h
    split at hn
    · cases hn; omega
    · cases hn

theorem mem_addValues {step : ℕ} (hstep : 0 < step) {values : Finset CronValue} :
    v ∈ addValues start stop step values ↔ v ∈ values ∨ Between start stop step v := by
  cases start with
  | number a =>
    cases stop with
    | number b => exact mem_countUp hstep (by omega)
    | inherited key => simp [addValues, Between]
  | inherited key =>
    cases stop with
    | number b => simp [addValues, Between]
    | inherited other => rw [addValues, Finset.mem_insert, or_comm, Between]

theorem addRange_ok {spec : FieldSpec} {step : ℕ} (hstep : 0 < step) {values : Finset CronValue} :
    addRange spec field start stop step values = .ok r ↔
      InBounds spec start stop ∧ addValues start stop step values = r := by
  simp only [addRange, if_neg (Nat.pos_iff_ne_zero.1 hstep), InBounds]
  split
  · rename_i h
    simp only [reduceCtorEq, false_iff]
    rintro ⟨⟨h1, h2, h3⟩, -⟩
    simp [h1, h2, h3] at h
  · rename_i h
    simp only [not_or, Bool.not_eq_true] at h
    simp [h]

@[simp] theorem less_self (v : CronValue) : v.less v = false := by
  cases v <;> simp [CronValue.less]

theorem between_self {w : CronValue} {step : ℕ} (hstep : 0 < step) :
    Between w w step v ↔ v = w := by
  cases w with
  | inherited key => rfl
  | number n =>
    simp only [Between]
    constructor
    · rintro ⟨k, rfl, hk⟩
      have hzero : (k : ℤ) * step ≤ 0 := by omega
      have hk0 : (k : ℤ) * step = 0 := le_antisymm hzero (by positivity)
      rw [hk0, add_zero]
    · rintro rfl
      exact ⟨0, by simp, by simp⟩

theorem parsePart_ok {spec : FieldSpec} {values : Finset CronValue}
    (h : parsePart spec field values part = .ok r) :
    ∃ step start stop, Reads spec part step start stop ∧
      ∀ v, v ∈ r ↔ v ∈ values ∨ Between start stop step v := by
  unfold parsePart at h
  split at h
  · cases h
  · rename_i step hstep
    have hpos := readStep_pos hstep
    split at h
    · rename_i hstar
      obtain ⟨hin, rfl⟩ := (addRange_ok hpos).1 h
      exact ⟨step, _, _, ⟨hstep, by rw [hstar]; exact .star, hin⟩, fun v => mem_addValues hpos⟩
    · rename_i hstar
      split at h
      · rename_i a b hmatch
        obtain ⟨start, hstart, h⟩ := Except.bind_ok h
        obtain ⟨stop, hstop, h⟩ := Except.bind_ok h
        obtain ⟨hin, rfl⟩ := (addRange_ok hpos).1 h
        exact ⟨step, start, stop, ⟨hstep, .range hmatch hstart hstop, hin⟩,
          fun v => mem_addValues hpos⟩
      · rename_i hmatch
        obtain ⟨value, hvalue, h⟩ := Except.bind_ok h
        split at h
        · cases h
        · rename_i hin
          cases h
          simp only [not_or, Bool.not_eq_true] at hin
          refine ⟨step, value, value, ⟨hstep, .value hstar hmatch hvalue, hin.1, hin.2,
            less_self value⟩, fun v => ?_⟩
          rw [Finset.mem_insert, between_self hpos, or_comm]

theorem matchRange_star : matchRange ['*'] = none := by decide

/-- A part that is read is added. -/
theorem Reads.parsePart {spec : FieldSpec} {step : ℕ} (h : Reads spec part step start stop)
    (field : String) (values : Finset CronValue) :
    ∃ r, parsePart spec field values part = .ok r := by
  have hpos := readStep_pos h.step
  obtain ⟨hstep, hends, hin⟩ := h
  generalize htext : rangePart part = text at hends
  unfold PieLab.parsePart
  rw [hstep]
  cases hends with
  | star =>
    refine ⟨addValues (.number spec.min) (.number spec.max) step values, ?_⟩
    simp only [htext, if_true]
    exact (addRange_ok hpos).2 ⟨hin, rfl⟩
  | range hmatch ha hb =>
    have hstar : rangePart part ≠ ['*'] := by
      intro hstar
      rw [← htext, hstar, matchRange_star] at hmatch
      cases hmatch
    refine ⟨addValues start stop step values, ?_⟩
    rw [htext] at hstar
    simp only [htext, if_neg hstar, hmatch, ha, hb]
    exact (addRange_ok hpos).2 ⟨hin, rfl⟩
  | value hstar hmatch hv =>
    refine ⟨insert start values, ?_⟩
    simp only [htext, if_neg hstar, hmatch, hv]
    exact if_neg (by simp [hin.1, hin.2.1])

theorem Reads.unique {spec : FieldSpec} {part : List Char} {s s' : ℕ} {a a' b b' : CronValue}
    (h : Reads spec part s a b) (h' : Reads spec part s' a' b') : s = s' ∧ a = a' ∧ b = b' := by
  refine ⟨Option.some.inj (h.step.symm.trans h'.step), ?_⟩
  have hends := h.ends
  have hends' := h'.ends
  generalize rangePart part = text at hends hends'
  cases hends with
  | star =>
    cases hends' with
    | star => exact ⟨rfl, rfl⟩
    | range hm => rw [matchRange_star] at hm; cases hm
    | value hne => exact absurd rfl hne
  | range hm ha hb =>
    cases hends' with
    | star => rw [matchRange_star] at hm; cases hm
    | range hm' ha' hb' =>
      cases hm.symm.trans hm'
      exact ⟨Except.ok.inj (ha.symm.trans ha'), Except.ok.inj (hb.symm.trans hb')⟩
    | value hne hm' => rw [hm] at hm'; cases hm'
  | value hne hm hv =>
    cases hends' with
    | star => exact absurd rfl hne
    | range hm' => rw [hm] at hm'; cases hm'
    | value hne' hm' hv' =>
      exact ⟨Except.ok.inj (hv.symm.trans hv'), Except.ok.inj (hv.symm.trans hv')⟩

theorem foldl_parts_ok {spec : FieldSpec} {parts : List (List Char)} {values : Finset CronValue}
    (h : parts.foldlM (parsePart spec field) values = .ok r) :
    (∀ part ∈ parts, ∃ step start stop, Reads spec part step start stop) ∧
      ∀ v, v ∈ r ↔ v ∈ values ∨
        ∃ part ∈ parts, ∃ step start stop, Reads spec part step start stop ∧
          Between start stop step v := by
  induction parts generalizing values with
  | nil => cases h; simp
  | cons part parts ih =>
    rw [List.foldlM_cons] at h
    obtain ⟨added, hpart, hrest⟩ := Except.bind_ok h
    obtain ⟨step, start, stop, hreads, hadded⟩ := parsePart_ok hpart
    obtain ⟨hall, hmem⟩ := ih hrest
    refine ⟨List.forall_mem_cons.2 ⟨⟨step, start, stop, hreads⟩, hall⟩, fun v => ?_⟩
    have hhere : (∃ step start stop, Reads spec part step start stop ∧
        Between start stop step v) ↔ Between start stop step v := by
      constructor
      · rintro ⟨step', start', stop', h', hv⟩
        obtain ⟨rfl, rfl, rfl⟩ := hreads.unique h'
        exact hv
      · exact fun hv => ⟨step, start, stop, hreads, hv⟩
    simp only [hmem, hadded, List.mem_cons, exists_eq_or_imp, hhere, or_assoc]

theorem foldl_parts_reads {spec : FieldSpec} (field : String) {parts : List (List Char)}
    (h : ∀ part ∈ parts, ∃ step start stop, Reads spec part step start stop)
    (values : Finset CronValue) :
    ∃ r, parts.foldlM (parsePart spec field) values = .ok r := by
  induction parts generalizing values with
  | nil => exact ⟨values, rfl⟩
  | cons part parts ih =>
    obtain ⟨⟨step, start, stop, hreads⟩, hrest⟩ := List.forall_mem_cons.1 h
    obtain ⟨added, hadded⟩ := hreads.parsePart field values
    obtain ⟨r, hr⟩ := ih hrest added
    exact ⟨r, by rw [List.foldlM_cons, hadded]; exact hr⟩

/-- A field is read where each part between its commas is. -/
theorem parseCronField_ok_iff {spec : FieldSpec} :
    (∃ r, parseCronField spec field = .ok r) ↔
      ∀ part ∈ field.toList.splitOn ',', ∃ step start stop, Reads spec part step start stop :=
  ⟨fun ⟨_, h⟩ => (foldl_parts_ok h).1, fun h => foldl_parts_reads field h ∅⟩

theorem mem_parseCronField {spec : FieldSpec} (h : parseCronField spec field = .ok r)
    (v : CronValue) :
    v ∈ r ↔ ∃ part ∈ field.toList.splitOn ',', ∃ step start stop,
      Reads spec part step start stop ∧ Between start stop step v := by
  simp [(foldl_parts_ok h).2 v]

/-! ## The grammar -/

/-- An item: `*`, a number or a name, or a range of them. -/
inductive CronItem where
  | star
  | value (word : List Char)
  | range (first last : List Char)
  deriving Inhabited

/-- An item with the digits of its step. -/
structure CronPart where
  item : CronItem
  step : Option (List Char)
  deriving Inhabited

/-- A decimal number, or a name of the field in any case. -/
def wordValue (spec : FieldSpec) (word : List Char) : Option ℕ :=
  if PlainDigits word then some (Nat.ofDigitChars 10 word 0)
  else if word ≠ [] ∧ ∀ c ∈ word, c.isAlpha = true then
    spec.names.bind fun table => table.lookup (String.ofList (toLowerCase word))
  else none

namespace CronItem

def text : CronItem → List Char
  | star => ['*']
  | value word => word
  | range first last => first ++ '-' :: last

/-- The numbers from which and to which an item goes. -/
def ends (spec : FieldSpec) : CronItem → Option (ℕ × ℕ)
  | star => some (spec.min, spec.max)
  | value word => (wordValue spec word).map fun n => (n, n)
  | range first last =>
    (wordValue spec first).bind fun m => (wordValue spec last).map fun n => (m, n)

end CronItem

namespace CronPart

def text (p : CronPart) : List Char :=
  match p.step with
  | none => p.item.text
  | some digits => p.item.text ++ '/' :: digits

def stepValue (p : CronPart) : ℕ :=
  match p.step with
  | none => 1
  | some digits => Nat.ofDigitChars 10 digits 0

/-- The words mean something, the ends are in order and in bounds, the step is a
number of at least one. -/
structure WellFormed (spec : FieldSpec) (p : CronPart) : Prop where
  ends : ∃ m n, p.item.ends spec = some (m, n) ∧ spec.min ≤ m ∧ m ≤ n ∧ n ≤ spec.max
  digits : ∀ digits ∈ p.step, PlainDigits digits
  step : 1 ≤ p.stepValue

/-- The numbers a part denotes. -/
def values (spec : FieldSpec) (p : CronPart) : Set ℕ :=
  {v | ∃ m n k, p.item.ends spec = some (m, n) ∧ v = m + k * p.stepValue ∧ v ≤ n}

end CronPart

/-- A field written as a list of parts between commas. -/
structure Spells (spec : FieldSpec) (field : String) (parts : List CronPart) : Prop where
  some_part : parts ≠ []
  text : field.toList = [','].intercalate (parts.map CronPart.text)
  wellFormed : ∀ p ∈ parts, p.WellFormed spec

/-- `parseCronField` reads what the grammar allows and returns what it denotes. -/
def FollowsGrammar (spec : FieldSpec) (field : String) : Prop :=
  ((∃ r, parseCronField spec field = .ok r) ↔ ∃ parts, Spells spec field parts) ∧
    ∀ parts r, Spells spec field parts → parseCronField spec field = .ok r →
      ∀ v, v ∈ r ↔ ∃ p ∈ parts, ∃ n ∈ p.values spec, v = .number n

/-! ## What is written plainly -/

/-- The text before the slash is `*`, a word or two words with a dash between them,
where a word is decimal digits or a name of the field. -/
def PlainEnds (spec : FieldSpec) (text : List Char) : Prop :=
  text = ['*'] ∨ (wordValue spec text).isSome ∨
    ∃ a b, matchRange text = some (a, b) ∧ (wordValue spec a).isSome ∧ (wordValue spec b).isSome

/-- No second slash, decimal digits as a step, and plain ends. -/
structure Plain (spec : FieldSpec) (part : List Char) : Prop where
  slashes : (part.splitOn '/').length ≤ 2
  step : ∀ digits ∈ stepPart part, PlainDigits digits
  ends : PlainEnds spec (rangePart part)

/-- The step is written in so many digits that `Number` makes it infinite. -/
def EndlessStep (part : List Char) : Prop :=
  ∃ digits ∈ stepPart part, PlainDigits digits ∧
    toDouble (Nat.ofDigitChars 10 digits 0 : ℚ) = none

/-! ## Words -/

theorem isDigit_iff : c.isDigit = true ↔ 48 ≤ c.toNat ∧ c.toNat ≤ 57 := by
  simp [Char.isDigit, UInt32.le_iff_toNat_le, ← Char.toNat_val]

theorem isLower_iff : c.isLower = true ↔ 97 ≤ c.toNat ∧ c.toNat ≤ 122 := by
  simp [Char.isLower, UInt32.le_iff_toNat_le, ← Char.toNat_val]

theorem isUpper_iff : c.isUpper = true ↔ 65 ≤ c.toNat ∧ c.toNat ≤ 90 := by
  simp [Char.isUpper, UInt32.le_iff_toNat_le, ← Char.toNat_val]

theorem isJsSpace_digit (c : Char) (h : c.isDigit = true) : isJsSpace c = false := by
  rw [isDigit_iff] at h
  simp only [isJsSpace, Bool.or_eq_false_iff, Bool.and_eq_false_iff, decide_eq_false_iff_not,
    beq_eq_false_iff_ne]
  omega

theorem readInteger_digits (h : PlainDigits word) :
    let n := Nat.ofDigitChars 10 word 0
    (n < 2 ^ 53 ∧ readInteger word = some (n : ℤ)) ∨
      (2 ^ 53 ≤ n ∧ toDouble (n : ℚ) = none ∧ readInteger word = none) ∨
      (2 ^ 53 ≤ n ∧ toDouble (n : ℚ) ≠ none ∧
        ∃ m : ℕ, readInteger word = some (m : ℤ) ∧ 2 ^ 53 ≤ m) := by
  intro n
  have hread : readInteger word =
      (toDouble (n : ℚ)).bind fun q => if q.den = 1 then some q.num else none := by
    rw [readInteger, Lib.readNumber_digits isJsSpace_digit h]
  rcases Nat.lt_or_ge n (2 ^ 53) with hlt | hge
  · left
    exact ⟨hlt, by rw [hread, Lib.toDouble_natCast hlt]; simp⟩
  · right
    cases hd : toDouble (n : ℚ) with
    | none => exact .inl ⟨hge, rfl, by rw [hread, hd]; rfl⟩
    | some r =>
      obtain ⟨m, rfl, hm⟩ := Lib.toDouble_large (by exact_mod_cast hge) hd
      exact .inr ⟨hge, by simp, m, by rw [hread, hd]; simp, hm⟩

theorem toLowerCase_digits (h : ∀ c ∈ word, c.isDigit = true) : toLowerCase word = word := by
  induction word with
  | nil => rfl
  | cons c word ih =>
    obtain ⟨hc, hword⟩ := List.forall_mem_cons.1 h
    have hn := isDigit_iff.1 hc
    have hupper : c.isUpper = false := by
      rw [Bool.eq_false_iff, Ne, isUpper_iff]
      omega
    have hkelvin : c ≠ '\u212A' := by
      rintro rfl
      exact absurd hc (by decide)
    have hdotted : c ≠ '\u0130' := by
      rintro rfl
      exact absurd hc (by decide)
    have htail : toLowerCase (c :: word) = c :: toLowerCase word := by
      simp [toLowerCase, hupper, hkelvin, hdotted]
    rw [htail, ih hword]

theorem named_digits {spec : FieldSpec} (h : PlainDigits word) : named spec word = none := by
  obtain ⟨c, rest, rfl⟩ := List.exists_cons_of_ne_nil h.1
  have hc := h.2 c (by simp)
  unfold named
  rw [toLowerCase_digits h.2]
  cases hnames : spec.names with
  | none => rfl
  | some table =>
    have hlookup : table.lookup (String.ofList (c :: rest)) = none := by
      rw [List.lookup_eq_none_iff]
      intro name hname
      -- the names are made of letters
      have hletters := spec.lower table hnames name hname
      simp only [bne_iff_ne, ne_eq]
      rintro heq
      have hmem : c ∈ name.1.toList := by simp [← heq]
      have hlow := isLower_iff.1 (List.all_eq_true.1 hletters c hmem)
      have hdig := isDigit_iff.1 hc
      omega
    have hkey : String.ofList (c :: rest) ∉ objectKeys := by
      intro hkey
      have hfirst : ∀ key ∈ objectKeys, key.toList.head?.any Char.isDigit = false := by decide
      have hno := hfirst _ hkey
      simp [hc] at hno
    simp only [Option.bind_some, hlookup, if_neg hkey]

theorem wordValue_alphanum {spec : FieldSpec} (h : (wordValue spec word).isSome) :
    word ≠ [] ∧ ∀ c ∈ word, c.isAlphanum = true := by
  unfold wordValue at h
  split at h
  · rename_i hdigits
    exact ⟨hdigits.1, fun c hc => by simp [Char.isAlphanum, hdigits.2 c hc]⟩
  · split at h
    · rename_i hletters
      exact ⟨hletters.1, fun c hc => by simp [Char.isAlphanum, hletters.2 c hc]⟩
    · simp at h

theorem named_name {spec : FieldSpec} (hdigits : ¬ PlainDigits word)
    (h : wordValue spec word = some m) : named spec word = some (.number m) := by
  rw [wordValue, if_neg hdigits] at h
  split at h
  · unfold named
    cases hnames : spec.names with
    | none => simp [hnames] at h
    | some table =>
      rw [hnames, Option.bind_some] at h
      simp [h]
  · cases h

theorem parseValue_word {spec : FieldSpec} (h : wordValue spec word = some m)
    (hv : parseValue spec word = .ok v) :
    ∃ n : ℕ, v = .number n ∧ (n = m ∨ spec.max < n ∧ spec.max < m) := by
  have hmax := spec.bounded
  by_cases hdigits : PlainDigits word
  · obtain rfl : Nat.ofDigitChars 10 word 0 = m := by
      rw [wordValue, if_pos hdigits] at h
      exact Option.some.inj h
    rw [parseValue, named_digits hdigits] at hv
    rcases readInteger_digits hdigits with ⟨-, hn⟩ | ⟨-, -, hn⟩ | ⟨hge, -, n, hn, hbig⟩
    · rw [hn] at hv
      cases hv
      exact ⟨_, rfl, .inl rfl⟩
    · rw [hn] at hv
      cases hv
    · rw [hn] at hv
      cases hv
      exact ⟨n, rfl, .inr ⟨Nat.lt_of_lt_of_le hmax hbig, Nat.lt_of_lt_of_le hmax hge⟩⟩
  · rw [parseValue, named_name hdigits h] at hv
    cases hv
    exact ⟨m, rfl, .inl rfl⟩

theorem parseValue_of_wordValue {spec : FieldSpec} (h : wordValue spec word = some m)
    (hm : m ≤ spec.max) : parseValue spec word = .ok (.number m) := by
  have hmax := spec.bounded
  by_cases hdigits : PlainDigits word
  · obtain rfl : Nat.ofDigitChars 10 word 0 = m := by
      rw [wordValue, if_pos hdigits] at h
      exact Option.some.inj h
    rw [parseValue, named_digits hdigits]
    rcases readInteger_digits hdigits with ⟨-, hn⟩ | ⟨hge, -⟩ | ⟨hge, -⟩
    · rw [hn]
    · omega
    · omega
  · rw [parseValue, named_name hdigits h]

/-! ## Texts of the grammar -/

theorem not_mem_word (h : ∀ c ∈ word, c.isAlphanum = true) (hd : d.isAlphanum = false) :
    d ∉ word := by
  intro hmem
  simp [h d hmem] at hd

theorem splitOn_one {text : List Char} (h : d ∉ text) : text.splitOn d = [text] := by
  have hsplit : ([d].intercalate [text]).splitOn d = [text] :=
    List.splitOn_intercalate d (by simpa using h) (by simp)
  simpa using hsplit

theorem splitOn_two (ha : d ∉ a) (hb : d ∉ b) : (a ++ d :: b).splitOn d = [a, b] := by
  have hsplit : ([d].intercalate [a, b]).splitOn d = [a, b] :=
    List.splitOn_intercalate d (by simp [ha, hb]) (by simp)
  simpa using hsplit

theorem matchRange_word {spec : FieldSpec} (h : (wordValue spec word).isSome) :
    matchRange word = none := by
  have hdash := not_mem_word (wordValue_alphanum h).2 (d := '-') (by decide)
  rw [matchRange, splitOn_one hdash]

theorem matchRange_dash {spec : FieldSpec} (ha : (wordValue spec a).isSome)
    (hb : (wordValue spec b).isSome) : matchRange (a ++ '-' :: b) = some (a, b) := by
  obtain ⟨hane, ha⟩ := wordValue_alphanum ha
  obtain ⟨hbne, hb⟩ := wordValue_alphanum hb
  rw [matchRange, splitOn_two (not_mem_word ha (by decide)) (not_mem_word hb (by decide))]
  refine if_pos ⟨hane, hbne, fun c hc => ?_⟩
  rcases List.mem_append.1 hc with h | h
  · exact ha c h
  · exact hb c h

theorem matchRange_text {text : List Char} (h : matchRange text = some (a, b)) :
    text = a ++ '-' :: b := by
  unfold matchRange at h
  split at h
  · rename_i x y hsplit
    split at h
    · cases h
      have hjoin : ['-'].intercalate (text.splitOn '-') = text := List.intercalate_splitOn '-'
      rw [hsplit] at hjoin
      simpa using hjoin.symm
    · cases h
  · cases h

namespace CronItem

theorem not_mem_text {spec : FieldSpec} {item : CronItem} (h : (item.ends spec).isSome)
    (hd : d.isAlphanum = false) (hstar : d ≠ '*') (hdash : d ≠ '-') : d ∉ item.text := by
  cases item with
  | star => simpa [text] using hstar
  | value word =>
    have hword : (wordValue spec word).isSome := by simpa [ends] using h
    exact not_mem_word (wordValue_alphanum hword).2 hd
  | range first last =>
    obtain ⟨⟨m, n⟩, hmn⟩ := Option.isSome_iff_exists.1 h
    obtain ⟨x, hfirst, hrest⟩ := Option.bind_eq_some_iff.1 hmn
    obtain ⟨y, hlast, -⟩ := Option.map_eq_some_iff.1 hrest
    have ha := not_mem_word (wordValue_alphanum (by rw [hfirst]; rfl)).2 hd
    have hb := not_mem_word (wordValue_alphanum (by rw [hlast]; rfl)).2 hd
    simp [text, ha, hb, hdash]

theorem reads_ends {spec : FieldSpec} {item : CronItem} (h : item.ends spec = some (m, n))
    (hmn : m ≤ n) (hn : n ≤ spec.max) : ReadsEnds spec item.text (.number m) (.number n) := by
  cases item with
  | star =>
    cases h
    exact .star
  | value word =>
    obtain ⟨x, hword, hx⟩ := Option.map_eq_some_iff.1 h
    cases hx
    have hsome : (wordValue spec word).isSome := by simp [hword]
    refine .value ?_ (matchRange_word hsome) (parseValue_of_wordValue hword hn)
    rintro rfl
    exact absurd ((wordValue_alphanum hsome).2 '*' (by simp)) (by decide)
  | range first last =>
    obtain ⟨x, hfirst, hrest⟩ := Option.bind_eq_some_iff.1 h
    obtain ⟨y, hlast, hxy⟩ := Option.map_eq_some_iff.1 hrest
    cases hxy
    have ha : (wordValue spec first).isSome := by simp [hfirst]
    have hb : (wordValue spec last).isSome := by simp [hlast]
    exact .range (matchRange_dash ha hb)
      (parseValue_of_wordValue hfirst (Nat.le_trans hmn hn)) (parseValue_of_wordValue hlast hn)

end CronItem

theorem inBounds_number {spec : FieldSpec} :
    InBounds spec (.number m) (.number n) ↔ spec.min ≤ m ∧ m ≤ n ∧ n ≤ spec.max := by
  simp only [InBounds, CronValue.less, decide_eq_false_iff_not, not_lt, Nat.cast_le]
  omega

theorem exists_item {spec : FieldSpec} {text : List Char} {x y : CronValue}
    (h : ReadsEnds spec text x y) (hplain : PlainEnds spec text) (hin : InBounds spec x y) :
    ∃ item : CronItem, ∃ m n, item.text = text ∧ item.ends spec = some (m, n) ∧
      x = .number m ∧ y = .number n := by
  cases h with
  | star => exact ⟨.star, spec.min, spec.max, rfl, rfl, rfl, rfl⟩
  | @range _ a b _ _ hm ha hb =>
    have hwords : (wordValue spec a).isSome ∧ (wordValue spec b).isSome := by
      rcases hplain with rfl | hword | ⟨a', b', hm', hwords⟩
      · rw [matchRange_star] at hm
        cases hm
      · rw [matchRange_word hword] at hm
        cases hm
      · cases hm.symm.trans hm'
        exact hwords
    obtain ⟨m, hm'⟩ := Option.isSome_iff_exists.1 hwords.1
    obtain ⟨n, hn'⟩ := Option.isSome_iff_exists.1 hwords.2
    obtain ⟨m', rfl, hcasem⟩ := parseValue_word hm' ha
    obtain ⟨n', rfl, hcasen⟩ := parseValue_word hn' hb
    -- ends that `Number` rounds are out of bounds
    have hb := inBounds_number.1 hin
    obtain rfl : m' = m := by omega
    obtain rfl : n' = n := by omega
    exact ⟨.range a b, m', n', (matchRange_text hm).symm, by simp [CronItem.ends, hm', hn'], rfl,
      rfl⟩
  | value hstar hm hv =>
    have hword : (wordValue spec text).isSome := by
      rcases hplain with rfl | hword | ⟨a', b', hm', -⟩
      · exact absurd rfl hstar
      · exact hword
      · rw [hm] at hm'
        cases hm'
    obtain ⟨m, hm'⟩ := Option.isSome_iff_exists.1 hword
    obtain ⟨m', rfl, hcase⟩ := parseValue_word hm' hv
    have hb := inBounds_number.1 hin
    obtain rfl : m' = m := by omega
    exact ⟨.value text, m', m', rfl, by simp [CronItem.ends, hm'], rfl, rfl⟩

namespace CronPart
variable {spec : FieldSpec} {p : CronPart}

theorem WellFormed.slash_free (h : p.WellFormed spec) : '/' ∉ p.item.text := by
  obtain ⟨m, n, hends, -⟩ := h.ends
  exact CronItem.not_mem_text (by rw [hends]; rfl) (by decide) (by decide) (by decide)

theorem WellFormed.sections (h : p.WellFormed spec) :
    rangePart p.text = p.item.text ∧ stepPart p.text = p.step ∧ (p.text.splitOn '/').length ≤ 2 := by
  obtain ⟨item, step⟩ := p
  cases step with
  | none => simp [text, rangePart, stepPart, splitOn_one h.slash_free]
  | some digits =>
    have hdigits : '/' ∉ digits := by
      intro hmem
      exact absurd ((h.digits digits rfl).2 _ hmem) (by decide)
    have := splitOn_two h.slash_free hdigits
    simp only at this
    simp [text, rangePart, stepPart, this]

theorem WellFormed.comma_free (h : p.WellFormed spec) : ',' ∉ p.text := by
  obtain ⟨m, n, hends, -⟩ := h.ends
  have hitem : ',' ∉ p.item.text :=
    CronItem.not_mem_text (by rw [hends]; rfl) (by decide) (by decide) (by decide)
  obtain ⟨item, step⟩ := p
  cases step with
  | none => exact hitem
  | some digits =>
    have hdigits : ',' ∉ digits := by
      intro hmem
      exact absurd ((h.digits digits rfl).2 _ hmem) (by decide)
    simp only at hitem
    simp [text, hitem, hdigits]

theorem WellFormed.plain (h : p.WellFormed spec) : Plain spec p.text := by
  obtain ⟨hrange, hstep, hslashes⟩ := h.sections
  refine ⟨hslashes, by rw [hstep]; exact h.digits, ?_⟩
  obtain ⟨m, n, hends, -⟩ := h.ends
  rw [hrange]
  generalize p.item = item at hends
  cases item with
  | star => exact .inl rfl
  | value word =>
    obtain ⟨x, hword, -⟩ := Option.map_eq_some_iff.1 hends
    exact .inr (.inl (by simp [CronItem.text, hword]))
  | range first last =>
    obtain ⟨x, hfirst, hrest⟩ := Option.bind_eq_some_iff.1 hends
    obtain ⟨y, hlast, -⟩ := Option.map_eq_some_iff.1 hrest
    have ha : (wordValue spec first).isSome := by simp [hfirst]
    have hb : (wordValue spec last).isSome := by simp [hlast]
    exact .inr (.inr ⟨first, last, matchRange_dash ha hb, ha, hb⟩)

theorem same_steps {s s' u : ℕ} (h : s = s' ∨ n < s ∧ n < s') :
    (∃ k, u = m + k * s ∧ u ≤ n) ↔ ∃ k, u = m + k * s' ∧ u ≤ n := by
  have hfirst : ∀ {t : ℕ}, n < t → ((∃ k, u = m + k * t ∧ u ≤ n) ↔ u = m ∧ u ≤ n) := by
    intro t ht
    constructor
    · rintro ⟨k, rfl, hk⟩
      cases k with
      | zero => simpa using hk
      | succ k =>
        have : (k + 1) * t = k * t + t := by ring
        omega
    · rintro ⟨rfl, hu⟩
      exact ⟨0, by simp, hu⟩
  rcases h with rfl | ⟨hs, hs'⟩
  · rfl
  · rw [hfirst hs, hfirst hs']

theorem between_number {s : ℕ} :
    Between (.number m) (.number n) s v ↔ ∃ u : ℕ, v = .number u ∧ ∃ k, u = m + k * s ∧ u ≤ n := by
  simp only [Between]
  constructor
  · rintro ⟨k, rfl, hk⟩
    exact ⟨m + k * s, by push_cast; rfl, k, rfl, by exact_mod_cast hk⟩
  · rintro ⟨u, rfl, k, rfl, hk⟩
    exact ⟨k, by push_cast; rfl, by exact_mod_cast hk⟩

theorem WellFormed.reads (h : p.WellFormed spec) (hstep : ¬ EndlessStep p.text) :
    ∃ step m n, Reads spec p.text step (.number m) (.number n) ∧
      ∀ v, Between (.number m) (.number n) step v ↔ ∃ u ∈ p.values spec, v = .number u := by
  have hdigits := h.digits
  have hone := h.step
  obtain ⟨m, n, hends, hin⟩ := h.ends
  obtain ⟨hrange, hpart, -⟩ := h.sections
  have hmax := spec.bounded
  -- the step is read as it is written, or both are above every value
  have hread : ∃ step, readStep p.step = some step ∧
      (step = p.stepValue ∨ n < step ∧ n < p.stepValue) := by
    rw [EndlessStep, hpart] at hstep
    obtain ⟨item, step⟩ := p
    cases step with
    | none => exact ⟨1, rfl, .inl rfl⟩
    | some digits =>
      simp only [stepValue] at hone ⊢
      rcases readInteger_digits (hdigits digits rfl) with
        ⟨-, hn⟩ | ⟨-, hnone, -⟩ | ⟨hge, -, k, hk, hbig⟩
      · refine ⟨Nat.ofDigitChars 10 digits 0, ?_, .inl rfl⟩
        rw [readStep, hn, Option.bind_some, if_pos (by exact_mod_cast hone), Int.toNat_natCast]
      · exact absurd ⟨digits, rfl, hdigits digits rfl, hnone⟩ hstep
      · refine ⟨k, ?_, .inr ⟨by omega, by omega⟩⟩
        have hpos : (0 : ℤ) < k := by omega
        rw [readStep, hk, Option.bind_some, if_pos hpos, Int.toNat_natCast]
  obtain ⟨step, hread, hsame⟩ := hread
  refine ⟨step, m, n, ⟨by rw [hpart, hread], ?_, inBounds_number.2 hin⟩, fun v => ?_⟩
  · rw [hrange]
    exact CronItem.reads_ends hends hin.2.1 hin.2.2
  · rw [between_number]
    constructor
    · rintro ⟨u, rfl, hu⟩
      obtain ⟨k, hk⟩ := (same_steps hsame).1 hu
      exact ⟨u, ⟨m, n, k, hends, hk⟩, rfl⟩
    · rintro ⟨u, ⟨m', n', k, hends', hk⟩, rfl⟩
      cases hends.symm.trans hends'
      exact ⟨u, rfl, (same_steps hsame).2 ⟨k, hk⟩⟩

end CronPart

theorem Plain.exists_part {spec : FieldSpec} (hplain : Plain spec part) {step : ℕ} {x y : CronValue}
    (h : Reads spec part step x y) : ∃ p : CronPart, p.WellFormed spec ∧ p.text = part := by
  obtain ⟨item, m, n, htext, hends, rfl, rfl⟩ := exists_item h.ends hplain.ends h.bounds
  have hin := inBounds_number.1 h.bounds
  have hstep := h.step
  have hdigits := hplain.step
  have hlength := hplain.slashes
  have hjoin : ['/'].intercalate (part.splitOn '/') = part := List.intercalate_splitOn '/'
  simp only [rangePart, stepPart] at htext hstep hdigits
  have hsome := List.splitOn_ne_nil '/' part
  generalize part.splitOn '/' = sections at htext hstep hdigits hlength hjoin hsome
  match sections, hlength with
  | [], _ => exact absurd rfl hsome
  | [text], _ =>
    refine ⟨⟨item, none⟩, ⟨⟨m, n, hends, hin⟩, by simp, Nat.le_refl 1⟩, ?_⟩
    rw [← hjoin]
    simpa [CronPart.text] using htext
  | [text, digits], _ =>
    have hplainDigits := hdigits digits rfl
    refine ⟨⟨item, some digits⟩, ⟨⟨m, n, hends, hin⟩, by simpa using hplainDigits, ?_⟩, ?_⟩
    · -- a step of zero is refused
      rcases Nat.eq_zero_or_pos (Nat.ofDigitChars 10 digits 0) with hzero | hpos
      · obtain ⟨k, hk, hpos⟩ := Option.bind_eq_some_iff.1 hstep
        rcases readInteger_digits hplainDigits with ⟨-, hn⟩ | ⟨hge, -⟩ | ⟨hge, -⟩
        · rw [hn] at hk
          cases hk
          simp [hzero] at hpos
        · omega
        · omega
      · exact hpos
    · rw [← hjoin]
      simpa [CronPart.text] using htext

/-! ## Fields -/

theorem Spells.splitOn {spec : FieldSpec} {parts : List CronPart} (h : Spells spec field parts) :
    field.toList.splitOn ',' = parts.map CronPart.text := by
  rw [h.text]
  refine List.splitOn_intercalate ',' ?_ (by simpa using h.some_part)
  intro text htext
  obtain ⟨p, hp, rfl⟩ := List.mem_map.1 htext
  exact (h.wellFormed p hp).comma_free

theorem exists_spells {spec : FieldSpec}
    (h : ∀ part ∈ field.toList.splitOn ',', ∃ p : CronPart, p.WellFormed spec ∧ p.text = part) :
    ∃ parts, Spells spec field parts := by
  choose! f hf using h
  refine ⟨(field.toList.splitOn ',').map f, ?_, ?_, ?_⟩
  · simp
  · have hmap : ((field.toList.splitOn ',').map f).map CronPart.text =
        field.toList.splitOn ',' := by
      calc ((field.toList.splitOn ',').map f).map CronPart.text
          = (field.toList.splitOn ',').map fun part => (f part).text := List.map_map ..
        _ = (field.toList.splitOn ',').map id :=
            List.map_congr_left fun part hpart => (hf part hpart).2
        _ = field.toList.splitOn ',' := List.map_id _
    rw [hmap, List.intercalate_splitOn]
  · intro p hp
    obtain ⟨part, hpart, rfl⟩ := List.mem_map.1 hp
    exact (hf part hpart).1

/-- Every part is read with ends in order and in bounds and a step of at least one, and
one of them is not written plainly. -/
def ReadLoosely (spec : FieldSpec) (field : String) : Prop :=
  (∀ part ∈ field.toList.splitOn ',', ∃ step start stop, Reads spec part step start stop) ∧
    ∃ part ∈ field.toList.splitOn ',', ¬ Plain spec part

/-- The field is one of the grammar, with a step that overflows. -/
def StepOverflows (spec : FieldSpec) (field : String) : Prop :=
  (∃ parts, Spells spec field parts) ∧ ∃ part ∈ field.toList.splitOn ',', EndlessStep part

/-- A field of the grammar is read and returns what it denotes, unless a step overflows. -/
theorem Spells.parseCronField {spec : FieldSpec} {parts : List CronPart}
    (h : Spells spec field parts) (hstep : ∀ p ∈ parts, ¬ EndlessStep p.text) :
    (∃ r, parseCronField spec field = .ok r) ∧
      ∀ r, PieLab.parseCronField spec field = .ok r →
        ∀ v, v ∈ r ↔ ∃ p ∈ parts, ∃ n ∈ p.values spec, v = .number n := by
  refine ⟨parseCronField_ok_iff.2 ?_, fun r hr v => ?_⟩
  · rw [h.splitOn]
    intro part hpart
    obtain ⟨p, hp, rfl⟩ := List.mem_map.1 hpart
    obtain ⟨step, m, n, hreads, -⟩ := (h.wellFormed p hp).reads (hstep p hp)
    exact ⟨step, _, _, hreads⟩
  · rw [mem_parseCronField hr, h.splitOn]
    constructor
    · rintro ⟨part, hpart, step, start, stop, hreads, hv⟩
      obtain ⟨p, hp, rfl⟩ := List.mem_map.1 hpart
      obtain ⟨step', m, n, hreads', hvalues⟩ := (h.wellFormed p hp).reads (hstep p hp)
      obtain ⟨rfl, rfl, rfl⟩ := hreads.unique hreads'
      exact ⟨p, hp, (hvalues v).1 hv⟩
    · rintro ⟨p, hp, hv⟩
      obtain ⟨step, m, n, hreads, hvalues⟩ := (h.wellFormed p hp).reads (hstep p hp)
      exact ⟨p.text, List.mem_map_of_mem hp, step, _, _, hreads, (hvalues v).2 hv⟩

theorem EndlessStep.not_reads {spec : FieldSpec} (h : EndlessStep part) {step : ℕ} :
    ¬ Reads spec part step start stop := by
  intro hreads
  obtain ⟨digits, hpart, hdigits, hnone⟩ := h
  have hread := hreads.step
  rw [Option.mem_def.1 hpart] at hread
  obtain ⟨k, hk, -⟩ := Option.bind_eq_some_iff.1 hread
  rcases readInteger_digits hdigits with ⟨hlt, -⟩ | ⟨-, -, hn⟩ | ⟨-, hfinite, -⟩
  · rw [Lib.toDouble_natCast hlt] at hnone
    cases hnone
  · rw [hn] at hk
    cases hk
  · exact hfinite hnone

/-- **The grammar of a cron field.** `parseCronField` reads exactly the fields of the
grammar and returns what they denote, unless every part is read and one of them is not
written plainly, or a step of the grammar overflows. -/
theorem follows_grammar_iff (spec : FieldSpec) (field : String) :
    FollowsGrammar spec field ↔ ¬ ReadLoosely spec field ∧ ¬ StepOverflows spec field := by
  constructor
  · rintro ⟨hreads, -⟩
    refine ⟨?_, ?_⟩
    · rintro ⟨hall, part, hpart, hloose⟩
      obtain ⟨parts, hparts⟩ := hreads.1 (parseCronField_ok_iff.2 hall)
      rw [hparts.splitOn] at hpart
      obtain ⟨p, hp, rfl⟩ := List.mem_map.1 hpart
      exact hloose (hparts.wellFormed p hp).plain
    · rintro ⟨hparts, part, hpart, hstep⟩
      obtain ⟨step, start, stop, hread⟩ := parseCronField_ok_iff.1 (hreads.2 hparts) part hpart
      exact hstep.not_reads hread
  · rintro ⟨hplain, hfinite⟩
    have hstep : ∀ parts, Spells spec field parts → ∀ p ∈ parts, ¬ EndlessStep p.text := by
      intro parts hparts p hp hstep
      refine hfinite ⟨⟨parts, hparts⟩, p.text, ?_, hstep⟩
      rw [hparts.splitOn]
      exact List.mem_map_of_mem hp
    refine ⟨⟨fun hok => ?_, ?_⟩, ?_⟩
    · have hall := parseCronField_ok_iff.1 hok
      refine exists_spells fun part hpart => ?_
      obtain ⟨step, start, stop, hread⟩ := hall part hpart
      have hpartPlain : Plain spec part := by
        by_contra hloose
        exact hplain ⟨hall, part, hpart, hloose⟩
      exact hpartPlain.exists_part hread
    · rintro ⟨parts, hparts⟩
      exact (hparts.parseCronField (hstep parts hparts)).1
    · intro parts r hparts
      exact (hparts.parseCronField (hstep parts hparts)).2 r

/-- `5,` is read as the minutes five and zero: what stands behind the comma is the empty
text, and `Number` makes zero of it. -/
theorem empty_item_read : ¬ FollowsGrammar minuteField "5," := by
  intro h
  have hempty : readInteger [] = some 0 := by
    have hzero : readNumber isJsSpace [] = some 0 := by
      simpa [readNumber, Lib.readExact] using Lib.toDouble_natCast (n := 0) (by omega)
    rw [readInteger, hzero]
    rfl
  have hfive : wordValue minuteField ['5'] = some 5 := by
    have hdigits : PlainDigits ['5'] := ⟨by simp, by simp [Char.isDigit]⟩
    rw [wordValue, if_pos hdigits]
    rfl
  have hok : ∃ r, parseCronField minuteField "5," = .ok r := by
    refine parseCronField_ok_iff.2 fun part hpart => ?_
    have hparts : "5,".toList.splitOn ',' = [['5'], []] := by decide
    rw [hparts] at hpart
    rcases List.mem_pair.1 hpart with rfl | rfl
    · exact ⟨1, .number (5 : ℕ), .number (5 : ℕ), rfl, .value (by decide) (by decide)
        (parseValue_of_wordValue hfive (by decide)), inBounds_number.2 (by decide)⟩
    · refine ⟨1, .number (0 : ℕ), .number (0 : ℕ), rfl, .value (by decide) (by decide) ?_,
        inBounds_number.2 (by decide)⟩
      have hname : named minuteField [] = none := rfl
      simp [parseValue, rangePart, hname, hempty]
  obtain ⟨parts, hparts⟩ := h.1.1 hok
  have hsplit := hparts.splitOn
  have hmem : [] ∈ parts.map CronPart.text := by
    rw [← hsplit]
    decide
  obtain ⟨p, hp, htext⟩ := List.mem_map.1 hmem
  have hplain := (hparts.wellFormed p hp).plain
  rw [htext] at hplain
  rcases hplain.ends with hstar | hword | ⟨a, b, hm, -⟩
  · cases hstar
  · exact (wordValue_alphanum hword).1 rfl
  · cases hm

end PieLab

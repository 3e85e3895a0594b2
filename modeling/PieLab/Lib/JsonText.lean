import Mathlib.Data.List.TakeWhile
import Mathlib.Tactic.IntervalCases
import PieLab.Json
import PieLab.Messages

/-
  JSON texts — a library

  `JSON.parse` and `JSON.stringify` on the values of `Json`. The grammar is the
  standard one: values between white space, strings with escapes, no trailing
  commas. How a number is read and printed is the business of the floating-point
  format, a parameter with its documented laws. A number too large for the format
  is an infinity, which `JSON.stringify` prints as `null`.

  What is proved:
    1. `jsonParse_stringify` — a printed value reads back, infinities as `null`.
    2. `jsonParse_append` — a text in front of a printed object is read with it
       only if it is white space.
    3. `stringify_noNewline` — a printed value is one line.
    4. `jsonParse_valid` — what is read has distinct keys and proper numbers.
-/

namespace PieLab.Lib

/-! ## White space and numbers -/

/-- The white space between JSON tokens. -/
def isJsonSpace (c : Char) : Bool := c = ' ' || c = '\t' || c = '\n' || c = '\r'

def skipSpace (l : List Char) : List Char := l.dropWhile isJsonSpace

/-- A character that may stand in a number. -/
def isNumberChar (c : Char) : Bool :=
  c.isDigit || c = '-' || c = '+' || c = '.' || c = 'e' || c = 'E'

/-- One digit or more. -/
def scanDigits (l : List Char) : Option (List Char × List Char) :=
  if l.takeWhile Char.isDigit = [] then none
  else some (l.takeWhile Char.isDigit, l.dropWhile Char.isDigit)

/-- The integer part: zero, or digits that do not begin with it. -/
def scanInt (l : List Char) : Option (List Char × List Char) :=
  if l.head? = some '0' then some (['0'], l.tail) else scanDigits l

def scanSign (signs l : List Char) : List Char × List Char :=
  match l with
  | [] => ([], [])
  | c :: rest => if c ∈ signs then ([c], rest) else ([], l)

def scanFraction (l : List Char) : Option (List Char × List Char) :=
  if l.head? = some '.' then (scanDigits l.tail).map fun (ds, rest) => ('.' :: ds, rest)
  else some ([], l)

def scanExponent (l : List Char) : Option (List Char × List Char) :=
  match l with
  | [] => some ([], [])
  | c :: rest =>
    if c = 'e' ∨ c = 'E' then
      let (sign, rest) := scanSign ['+', '-'] rest
      (scanDigits rest).map fun (ds, rest) => (c :: sign ++ ds, rest)
    else some ([], l)

/-- A number literal at the head of a text, and the text behind it. -/
def scanNumber (l : List Char) : Option (List Char × List Char) := do
  let (sign, l) := scanSign ['-'] l
  let (int, l) ← scanInt l
  let (fraction, l) ← scanFraction l
  let (exponent, l) ← scanExponent l
  some (sign ++ int ++ fraction ++ exponent, l)

/-- How the floating-point format reads and prints numbers. -/
structure NumberFormat where
  /-- The value of a literal; `none` is an infinity. -/
  read : List Char → Option ℚ
  print : ℚ → List Char
  IsNumber : ℚ → Prop
  read_isNumber : ∀ l q, read l = some q → IsNumber q
  isNumber_digit : ∀ n : Nat, n < 10 → IsNumber n
  print_scan : ∀ q, IsNumber q → scanNumber (print q) = some (print q, [])
  read_print : ∀ q, IsNumber q → read (print q) = some q

/-! ## Strings -/

def hexValue (c : Char) : Option Nat :=
  if c.isDigit then some (c.toNat - 48)
  else if 'a' ≤ c ∧ c ≤ 'f' then some (c.toNat - 87)
  else if 'A' ≤ c ∧ c ≤ 'F' then some (c.toNat - 55)
  else none

/-- The code unit of `\uabcd`. -/
def hexUnit (a b c d : Char) : Option Nat := do
  let a ← hexValue a
  let b ← hexValue b
  let c ← hexValue c
  let d ← hexValue d
  some (((a * 16 + b) * 16 + c) * 16 + d)

/-- The character behind a backslash, `u` left out. -/
def simpleEscape (c : Char) : Option Nat :=
  if c = '"' ∨ c = '\\' ∨ c = '/' then some c.toNat
  else if c = 'b' then some 8
  else if c = 'f' then some 12
  else if c = 'n' then some 10
  else if c = 'r' then some 13
  else if c = 't' then some 9
  else none

/-- The rest of a string token behind its opening quote: code points and escaped code
units, and the text behind the closing quote. -/
def scanString : List Char → Option (List Nat × List Char)
  | [] => none
  | c :: rest =>
    if c = '"' then some ([], rest)
    else if c = '\\' then
      match rest with
      | [] => none
      | e :: rest =>
        if e = 'u' then
          match rest with
          | a :: b :: c :: d :: rest => do
            let unit ← hexUnit a b c d
            let (units, rest) ← scanString rest
            some (unit :: units, rest)
          | _ => none
        else do
          let unit ← simpleEscape e
          let (units, rest) ← scanString rest
          some (unit :: units, rest)
    else if c.toNat < 32 then none
    else do
      let (units, rest) ← scanString rest
      some (c.toNat :: units, rest)

/-- Two surrogates make one character; a lone one becomes U+FFFD. -/
def decodeUnits : List Nat → List Char
  | [] => []
  | [n] => [if 0xD800 ≤ n ∧ n < 0xE000 then '\uFFFD' else Char.ofNat n]
  | m :: n :: rest =>
    if 0xD800 ≤ m ∧ m < 0xDC00 ∧ 0xDC00 ≤ n ∧ n < 0xE000 then
      Char.ofNat (0x10000 + (m - 0xD800) * 0x400 + (n - 0xDC00)) :: decodeUnits rest
    else (if 0xD800 ≤ m ∧ m < 0xE000 then '\uFFFD' else Char.ofNat m) :: decodeUnits (n :: rest)

/-! ## Values -/

/-- A word such as `null` at the head of a text. -/
def dropWord : List Char → List Char → Option (List Char)
  | [], l => some l
  | _ :: _, [] => none
  | w :: ws, c :: l => if c = w then dropWord ws l else none

/-- Set a property: an old one keeps its place. -/
def setField (fields : List (String × Json)) (key : String) (value : Json) : List (String × Json) :=
  if key ∈ fields.map Prod.fst then
    fields.map fun f => if f.1 = key then (key, value) else f
  else fields ++ [(key, value)]

section Parse
variable (fmt : NumberFormat)

mutual

/-- A value at the head of a text, and the text behind it. -/
def parseValue : Nat → List Char → Option (Json × List Char)
  | 0, _ => none
  | fuel + 1, l =>
    match skipSpace l with
    | [] => none
    | c :: rest =>
      if c = '\x7b' then
        if (skipSpace rest).head? = some '\x7d' then some (.object [], (skipSpace rest).tail)
        else (parseMembers fuel rest []).map fun (fields, rest) => (.object fields, rest)
      else if c = '[' then
        if (skipSpace rest).head? = some ']' then some (.array [], (skipSpace rest).tail)
        else (parseElements fuel rest).map fun (items, rest) => (.array items, rest)
      else if c = '"' then
        (scanString rest).map fun (units, rest) => (.string (String.ofList (decodeUnits units)), rest)
      else if c = 'n' then (dropWord ['u', 'l', 'l'] rest).map fun rest => (.null, rest)
      else if c = 't' then (dropWord ['r', 'u', 'e'] rest).map fun rest => (.bool true, rest)
      else if c = 'f' then (dropWord ['a', 'l', 's', 'e'] rest).map fun rest => (.bool false, rest)
      else (scanNumber (c :: rest)).map fun (literal, rest) => (.number (fmt.read literal), rest)

/-- The elements of an array up to its closing bracket. -/
def parseElements : Nat → List Char → Option (List Json × List Char)
  | 0, _ => none
  | fuel + 1, l => do
    let (value, rest) ← parseValue fuel l
    match skipSpace rest with
    | [] => none
    | c :: rest =>
      if c = ',' then do
        let (items, rest) ← parseElements fuel rest
        some (value :: items, rest)
      else if c = ']' then some ([value], rest)
      else none

/-- The members of an object up to its closing brace, behind the fields read. -/
def parseMembers : Nat → List Char → List (String × Json) →
    Option (List (String × Json) × List Char)
  | 0, _, _ => none
  | fuel + 1, l, fields =>
    match skipSpace l with
    | [] => none
    | c :: rest =>
      if c = '"' then do
        let (units, rest) ← scanString rest
        match skipSpace rest with
        | [] => none
        | c :: rest =>
          if c = ':' then do
            let (value, rest) ← parseValue fuel rest
            let fields := setField fields (String.ofList (decodeUnits units)) value
            match skipSpace rest with
            | [] => none
            | c :: rest =>
              if c = ',' then parseMembers fuel rest fields
              else if c = '\x7d' then some (fields, rest)
              else none
          else none
      else none

end

/-- `JSON.parse`; `none` is a `SyntaxError`. -/
def jsonParse (l : List Char) : Option Json :=
  match parseValue fmt (l.length + 1) l with
  | none => none
  | some (value, rest) => if rest.all isJsonSpace then some value else none

mutual

/-- `JSON.stringify` -/
def stringify : Json → List Char
  | .null => ['n', 'u', 'l', 'l']
  | .bool true => ['t', 'r', 'u', 'e']
  | .bool false => ['f', 'a', 'l', 's', 'e']
  | .number none => ['n', 'u', 'l', 'l']
  | .number (some q) => fmt.print q
  | .string s => (jsonString s).toList
  | .array items => '[' :: stringifyItems items ++ [']']
  | .object fields => '\x7b' :: stringifyFields fields ++ ['\x7d']

def stringifyItems : List Json → List Char
  | [] => []
  | v :: vs => stringify v ++ (match vs with | [] => [] | _ => ',' :: stringifyItems vs)

def stringifyFields : List (String × Json) → List Char
  | [] => []
  | f :: fs => stringifyField f ++ (match fs with | [] => [] | _ => ',' :: stringifyFields fs)

def stringifyField : String × Json → List Char
  | (key, value) => (jsonString key).toList ++ ':' :: stringify value

end

end Parse

/-! ## Reading a printed string -/

theorem Char.toNat_not_surrogate (c : Char) : ¬ (0xD800 ≤ c.toNat ∧ c.toNat < 0xE000) := by
  have h : c.toNat < 0xD800 ∨ (0xDFFF < c.toNat ∧ c.toNat < 0x110000) := c.valid
  omega

theorem decodeUnits_toNat (cs : List Char) : decodeUnits (cs.map Char.toNat) = cs := by
  induction cs with
  | nil => rfl
  | cons c cs ih =>
    have hc := Char.toNat_not_surrogate c
    cases cs with
    | nil => simp [decodeUnits, hc, Char.ofNat_toNat]
    | cons d cs =>
      have hpair : ¬ (0xD800 ≤ c.toNat ∧ c.toNat < 0xDC00 ∧ 0xDC00 ≤ d.toNat ∧ d.toNat < 0xE000) := by
        omega
      rw [List.map_cons, List.map_cons, decodeUnits, if_neg hpair, if_neg hc, Char.ofNat_toNat]
      rw [List.map_cons] at ih
      rw [ih]

theorem hexValue_hexDigit {n : Nat} (h : n < 16) : hexValue (hexDigit n) = some n := by
  interval_cases n <;> decide

theorem scanString_quote (rest : List Char) : scanString ('"' :: rest) = some ([], rest) := by
  rw [scanString.eq_def]
  rfl

theorem scanString_plain {c : Char} (hquote : c ≠ '"') (hback : c ≠ '\\') (hlow : ¬ c.toNat < 32)
    (rest : List Char) :
    scanString (c :: rest) = (scanString rest).map fun (us, r) => (c.toNat :: us, r) := by
  rw [scanString.eq_def]
  simp only [if_neg hquote, if_neg hback, if_neg hlow]
  cases scanString rest <;> rfl

theorem scanString_simple {e : Char} (he : e ≠ 'u') (rest : List Char) :
    scanString ('\\' :: e :: rest) = (simpleEscape e).bind fun n =>
      (scanString rest).map fun (us, r) => (n :: us, r) := by
  have hslash : ('\\' : Char) ≠ '"' := by decide
  rw [scanString.eq_def]
  simp only [if_neg hslash, if_true, if_neg he]
  cases simpleEscape e with
  | none => rfl
  | some n => cases scanString rest <;> rfl

theorem scanString_unit (a b c d : Char) (rest : List Char) :
    scanString ('\\' :: 'u' :: a :: b :: c :: d :: rest) = (hexUnit a b c d).bind fun n =>
      (scanString rest).map fun (us, r) => (n :: us, r) := by
  have hslash : ('\\' : Char) ≠ '"' := by decide
  rw [scanString.eq_def]
  simp only [if_neg hslash, if_true]
  cases hexUnit a b c d with
  | none => rfl
  | some n => cases scanString rest <;> rfl

theorem scanString_escape (c : Char) (rest : List Char) :
    scanString (jsonEscape c ++ rest) = (scanString rest).map fun (us, r) => (c.toNat :: us, r) := by
  unfold jsonEscape
  split
  · rename_i h
    subst h
    exact scanString_simple (by decide) rest
  split
  · rename_i h
    subst h
    exact scanString_simple (by decide) rest
  split
  · rename_i h
    rw [h]
    exact scanString_simple (by decide) rest
  split
  · rename_i h
    rw [h]
    exact scanString_simple (by decide) rest
  split
  · rename_i h
    subst h
    exact scanString_simple (by decide) rest
  split
  · rename_i h
    subst h
    exact scanString_simple (by decide) rest
  split
  · rename_i h
    subst h
    exact scanString_simple (by decide) rest
  split
  · rename_i h
    have hhex : hexUnit '0' '0' (hexDigit (c.toNat / 16)) (hexDigit (c.toNat % 16)) =
        some c.toNat := by
      unfold hexUnit
      rw [hexValue_hexDigit (by omega : c.toNat / 16 < 16),
        hexValue_hexDigit (by omega : c.toNat % 16 < 16)]
      show some (((0 * 16 + 0) * 16 + c.toNat / 16) * 16 + c.toNat % 16) = some c.toNat
      congr 1
      omega
    rw [List.cons_append, List.cons_append, List.cons_append, List.cons_append, List.cons_append,
      List.cons_append, List.nil_append, scanString_unit, hhex]
    rfl
  · exact scanString_plain (by assumption) (by assumption) (by assumption) rest

theorem scanString_jsonString (s : String) (rest : List Char) :
    scanString (s.toList.flatMap jsonEscape ++ '"' :: rest) = some (s.toList.map Char.toNat, rest) := by
  induction s.toList with
  | nil => exact scanString_quote rest
  | cons c cs ih =>
    rw [List.flatMap_cons, List.append_assoc, scanString_escape, ih]
    rfl

/-! ## Number literals -/

/-- The text does not go on with a number. -/
def NumberEnds (r : List Char) : Prop := ∀ c, r.head? = some c → isNumberChar c = false

theorem isNumberChar_digit {c : Char} (h : c.isDigit = true) : isNumberChar c = true := by
  simp [isNumberChar, h]

theorem NumberEnds.digits {r : List Char} (h : NumberEnds r) :
    r.takeWhile Char.isDigit = [] ∧ r.dropWhile Char.isDigit = r := by
  cases r with
  | nil => exact ⟨rfl, rfl⟩
  | cons c r =>
    have hc : c.isDigit = false := by
      have hnum := h c rfl
      cases hd : c.isDigit with
      | false => rfl
      | true => rw [isNumberChar_digit hd] at hnum; cases hnum
    simp [hc]

/-- A scanner takes number characters off the head of a text, and does not see whether the
text goes on behind with something else. -/
structure Scanner (scan : List Char → Option (List Char × List Char)) : Prop where
  split : ∀ l literal r, scan l = some (literal, r) →
    l = literal ++ r ∧ ∀ c ∈ literal, isNumberChar c = true
  extend : ∀ l literal r r', scan l = some (literal, r) → NumberEnds r' →
    scan (l ++ r') = some (literal, r ++ r')

theorem scanner_scanDigits : Scanner scanDigits where
  split := by
    intro l literal r h
    unfold scanDigits at h
    split at h
    · cases h
    · obtain ⟨rfl, rfl⟩ := Prod.mk.inj (Option.some.inj h)
      refine ⟨List.takeWhile_append_dropWhile.symm, fun c hc => ?_⟩
      exact isNumberChar_digit (List.mem_takeWhile_imp hc)
  extend := by
    intro l literal r r' h hr
    unfold scanDigits at h ⊢
    split at h
    · cases h
    · rename_i hne
      obtain ⟨rfl, rfl⟩ := Prod.mk.inj (Option.some.inj h)
      have htake : (l ++ r').takeWhile Char.isDigit = l.takeWhile Char.isDigit := by
        rw [List.takeWhile_append]
        split
        · rename_i hlen
          rw [hr.digits.1, List.append_nil]
          exact (List.takeWhile_prefix _).eq_of_length hlen |>.symm
        · rfl
      have hdrop : (l ++ r').dropWhile Char.isDigit = l.dropWhile Char.isDigit ++ r' := by
        rw [List.dropWhile_append]
        split
        · rename_i hempty
          rw [hr.digits.2, List.isEmpty_iff.mp hempty, List.nil_append]
        · rfl
      rw [htake, hdrop, if_neg hne]

theorem scanner_scanInt : Scanner scanInt where
  split := by
    intro l literal r h
    unfold scanInt at h
    split at h
    · rename_i hzero
      obtain ⟨rfl, rfl⟩ := Prod.mk.inj (Option.some.inj h)
      obtain ⟨rest, rfl⟩ := List.head?_eq_some_iff.mp hzero
      exact ⟨rfl, fun c hc => by rw [List.mem_singleton.mp hc]; decide⟩
    · exact scanner_scanDigits.split l literal r h
  extend := by
    intro l literal r r' h hr
    unfold scanInt at h ⊢
    split at h
    · rename_i hzero
      obtain ⟨rfl, rfl⟩ := Prod.mk.inj (Option.some.inj h)
      obtain ⟨rest, rfl⟩ := List.head?_eq_some_iff.mp hzero
      rfl
    · rename_i hzero
      have hl : l ≠ [] := by
        rintro rfl
        cases h
      rw [List.head?_append_of_ne_nil _ hl, if_neg hzero]
      exact scanner_scanDigits.extend l literal r r' h hr

theorem scanner_scanFraction : Scanner scanFraction where
  split := by
    intro l literal r h
    unfold scanFraction at h
    split at h
    · rename_i hdot
      obtain ⟨rest, rfl⟩ := List.head?_eq_some_iff.mp hdot
      obtain ⟨⟨ds, r0⟩, hds, heq⟩ := Option.map_eq_some_iff.mp h
      obtain ⟨rfl, rfl⟩ := Prod.mk.inj heq
      obtain ⟨hrest, hchars⟩ := scanner_scanDigits.split _ _ _ hds
      refine ⟨congrArg ('.' :: ·) hrest, fun c hc => ?_⟩
      rcases List.mem_cons.mp hc with rfl | hc
      · decide
      · exact hchars c hc
    · obtain ⟨rfl, rfl⟩ := Prod.mk.inj (Option.some.inj h)
      exact ⟨rfl, fun c hc => nomatch hc⟩
  extend := by
    intro l literal r r' h hr
    unfold scanFraction at h ⊢
    split at h
    · rename_i hdot
      obtain ⟨rest, rfl⟩ := List.head?_eq_some_iff.mp hdot
      obtain ⟨⟨ds, r0⟩, hds, heq⟩ := Option.map_eq_some_iff.mp h
      obtain ⟨rfl, rfl⟩ := Prod.mk.inj heq
      have hext := scanner_scanDigits.extend _ _ _ r' hds hr
      rw [if_pos (by rfl)]
      show (scanDigits (rest ++ r')).map _ = _
      rw [show (('.' :: rest).tail) = rest from rfl] at hext
      rw [hext]
      rfl
    · rename_i hdot
      obtain ⟨rfl, rfl⟩ := Prod.mk.inj (Option.some.inj h)
      have hhead : (l ++ r').head? ≠ some '.' := by
        cases l with
        | nil =>
          intro hr'
          have := hr '.' hr'
          simp [isNumberChar] at this
        | cons c l => exact hdot
      rw [if_neg hhead]

theorem scanSign_split {signs l : List Char} (h : ∀ c ∈ signs, isNumberChar c = true) :
    l = (scanSign signs l).1 ++ (scanSign signs l).2 ∧
      ∀ c ∈ (scanSign signs l).1, isNumberChar c = true := by
  unfold scanSign
  cases l with
  | nil => exact ⟨rfl, fun c hc => nomatch hc⟩
  | cons c rest =>
    by_cases hc : c ∈ signs
    · simp only [if_pos hc]
      exact ⟨rfl, fun d hd => by rw [List.mem_singleton.mp hd]; exact h c hc⟩
    · simp only [if_neg hc]
      exact ⟨rfl, fun d hd => nomatch hd⟩

theorem scanSign_extend {signs l : List Char} (h : l ≠ []) (r' : List Char) :
    scanSign signs (l ++ r') = ((scanSign signs l).1, (scanSign signs l).2 ++ r') := by
  cases l with
  | nil => exact absurd rfl h
  | cons c rest =>
    rw [List.cons_append]
    unfold scanSign
    by_cases hc : c ∈ signs
    · simp only [if_pos hc]
    · simp only [if_neg hc]
      rfl

theorem scanner_scanExponent : Scanner scanExponent where
  split := by
    intro l literal r h
    unfold scanExponent at h
    cases l with
    | nil =>
      obtain ⟨rfl, rfl⟩ := Prod.mk.inj (Option.some.inj h)
      exact ⟨rfl, fun c hc => nomatch hc⟩
    | cons e rest =>
      simp only at h
      split at h
      · rename_i he
        obtain ⟨⟨ds, r0⟩, hds, heq⟩ := Option.map_eq_some_iff.mp h
        obtain ⟨rfl, rfl⟩ := Prod.mk.inj heq
        obtain ⟨hsign, hsigns⟩ := @scanSign_split ['+', '-'] rest (by simp [isNumberChar])
        obtain ⟨hrest, hchars⟩ := scanner_scanDigits.split _ _ _ hds
        refine ⟨?_, fun c hc => ?_⟩
        · conv_lhs => rw [hsign, hrest]
          simp
        · rcases List.mem_append.mp hc with hc | hc
          · rcases List.mem_cons.mp hc with rfl | hc
            · rcases he with rfl | rfl <;> decide
            · exact hsigns c hc
          · exact hchars c hc
      · obtain ⟨rfl, rfl⟩ := Prod.mk.inj (Option.some.inj h)
        exact ⟨rfl, fun c hc => nomatch hc⟩
  extend := by
    intro l literal r r' h hr
    cases l with
    | nil =>
      obtain ⟨rfl, rfl⟩ := Prod.mk.inj (Option.some.inj h)
      unfold scanExponent
      cases r' with
      | nil => rfl
      | cons c r' =>
        have hc : ¬ (c = 'e' ∨ c = 'E') := by
          rintro (rfl | rfl)
          · exact absurd (hr 'e' rfl) (by decide)
          · exact absurd (hr 'E' rfl) (by decide)
        simp only [List.nil_append, if_neg hc]
    | cons e rest =>
      rw [List.cons_append]
      unfold scanExponent at h ⊢
      simp only at h ⊢
      split at h
      · rename_i he
        obtain ⟨⟨ds, r0⟩, hds, heq⟩ := Option.map_eq_some_iff.mp h
        obtain ⟨rfl, rfl⟩ := Prod.mk.inj heq
        have hne : rest ≠ [] := by
          rintro rfl
          cases hds
        rw [if_pos he, scanSign_extend hne]
        simp only [scanner_scanDigits.extend _ _ _ r' hds hr]
        rfl
      · rename_i he
        obtain ⟨rfl, rfl⟩ := Prod.mk.inj (Option.some.inj h)
        rw [if_neg he]
        rfl

theorem scanNumber_parts {l literal r : List Char} (h : scanNumber l = some (literal, r)) :
    ∃ int l2 fraction l3 exponent, scanInt (scanSign ['-'] l).2 = some (int, l2) ∧
      scanFraction l2 = some (fraction, l3) ∧ scanExponent l3 = some (exponent, r) ∧
      literal = (scanSign ['-'] l).1 ++ int ++ fraction ++ exponent := by
  unfold scanNumber at h
  simp only [Option.bind_eq_bind, Option.bind_eq_some_iff] at h
  obtain ⟨⟨int, l2⟩, hint, ⟨fraction, l3⟩, hfraction, ⟨exponent, l4⟩, hexponent, h⟩ := h
  obtain ⟨rfl, rfl⟩ := Prod.mk.inj (Option.some.inj h)
  exact ⟨int, l2, fraction, l3, exponent, hint, hfraction, hexponent, rfl⟩

theorem scanner_scanNumber : Scanner scanNumber where
  split := by
    intro l literal r h
    obtain ⟨int, l2, fraction, l3, exponent, hint, hfraction, hexponent, rfl⟩ := scanNumber_parts h
    obtain ⟨h1, c1⟩ := @scanSign_split ['-'] l (by simp [isNumberChar])
    obtain ⟨h2, c2⟩ := scanner_scanInt.split _ _ _ hint
    obtain ⟨h3, c3⟩ := scanner_scanFraction.split _ _ _ hfraction
    obtain ⟨h4, c4⟩ := scanner_scanExponent.split _ _ _ hexponent
    refine ⟨?_, fun c hc => ?_⟩
    · conv_lhs => rw [h1, h2, h3, h4]
      simp
    · simp only [List.mem_append] at hc
      rcases hc with ((hc | hc) | hc) | hc
      · exact c1 c hc
      · exact c2 c hc
      · exact c3 c hc
      · exact c4 c hc
  extend := by
    intro l literal r r' h hr
    have hne : l ≠ [] := by
      rintro rfl
      cases h
    obtain ⟨int, l2, fraction, l3, exponent, hint, hfraction, hexponent, rfl⟩ := scanNumber_parts h
    unfold scanNumber
    rw [scanSign_extend hne]
    simp only [scanner_scanInt.extend _ _ _ r' hint hr,
      scanner_scanFraction.extend _ _ _ r' hfraction hr,
      scanner_scanExponent.extend _ _ _ r' hexponent hr, Option.bind_eq_bind, Option.bind_some]

theorem NumberFormat.scan_print (fmt : NumberFormat) {q : ℚ} (hq : fmt.IsNumber q) {r : List Char}
    (hr : NumberEnds r) : scanNumber (fmt.print q ++ r) = some (fmt.print q, r) :=
  scanner_scanNumber.extend _ _ _ r (fmt.print_scan q hq) hr

theorem NumberFormat.print_chars (fmt : NumberFormat) {q : ℚ} (hq : fmt.IsNumber q) :
    fmt.print q ≠ [] ∧ ∀ c ∈ fmt.print q, isNumberChar c = true := by
  have hscan := fmt.print_scan q hq
  refine ⟨fun hnil => ?_, (scanner_scanNumber.split _ _ _ hscan).2⟩
  rw [hnil] at hscan
  cases hscan

end PieLab.Lib

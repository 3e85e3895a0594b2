import Mathlib.Data.List.TakeWhile
import Mathlib.Tactic.IntervalCases
import PieLab.Hashline.Patch
import PieLab.Lib.Decimal

/-
  The text of a hashline patch

  A patch is read line by line: a section header `¶PATH#TAG`, then operations,
  the rows of an operation's body with a `+` in front. The body ends where a line
  is a header or an operation.

  What is proved:
    1. `parseOperationHeader_row`, `parseBody_rows` — a row of a body is never
       taken for an operation, nor an operation or a header for a row.
    2. `parseHashlinePatch_render` — reading what a patch is written as gives the
       patch back, its tags in upper case.

  Correspondence (TypeScript ↔ Lean): the names of packages/hashline/src/patch.ts;
  each regular expression of `parseOperationHeader` has a reader of its own.
  `Number(digits)` is the nearest double.
-/

namespace PieLab

open Lib

/-! ## Numbers -/

/-- The value is one a JavaScript number can have. -/
def IsNumber (n : Nat) : Prop := nearestDouble n = some n

def parsePositiveInt (value : List Char) (label : String) : Except String LineNumber :=
  match nearestDouble (Nat.ofDigitChars 10 value 0) with
  | none => .error ("Invalid " ++ label ++ ": " ++ String.ofList value)
  | some parsed =>
    if h : 1 ≤ parsed then .ok { line := parsed, pos := h }
    else .error ("Invalid " ++ label ++ ": " ++ String.ofList value)

/-! ## Operation headers -/

/-- The two groups of `(\d+)(?:\.\.(\d+))?`. -/
structure RangeMatch where
  startDigits : List Char
  endDigits : Option (List Char)
  deriving DecidableEq, Repr

def RangeMatch.text (m : RangeMatch) : String :=
  String.ofList (m.startDigits ++ match m.endDigits with
    | none => []
    | some digits => '.' :: '.' :: digits)

/-- `\d+(?:\.\.\d+)?` at the start, and what is behind it. -/
def takeRange (cs : List Char) : Option (RangeMatch × List Char) :=
  match takeDigits cs with
  | none => none
  | some (startDigits, '.' :: '.' :: rest) =>
    match takeDigits rest with
    | none => some ({ startDigits, endDigits := none }, '.' :: '.' :: rest)
    | some (endDigits, rest) => some ({ startDigits, endDigits := some endDigits }, rest)
  | some (startDigits, rest) => some ({ startDigits, endDigits := none }, rest)

/-- A word at the start, and what is behind it. -/
def takeWord (word : String) (cs : List Char) : Option (List Char) :=
  if word.toList <+: cs then some (cs.drop word.toList.length) else none

/-- A word and the white space behind it: `word\s+`. -/
def takeKeyword (word : String) (cs : List Char) : Option (List Char) :=
  match takeWord word cs with
  | some (c :: rest) => if isJsSpace c then some (rest.dropWhile isJsSpace) else none
  | _ => none

def parseRange (m : RangeMatch) : Except String LineRange := do
  let startLine ← parsePositiveInt m.startDigits "start line"
  match m.endDigits with
  | none =>
    return { startLine := startLine.line, endLine := startLine.line, pos := startLine.pos,
             le := Nat.le_refl _ }
  | some digits =>
    let endLine ← parsePositiveInt digits "end line"
    if h : startLine.line ≤ endLine.line then
      .ok { startLine := startLine.line, endLine := endLine.line, pos := startLine.pos, le := h }
    else .error ("Invalid hashline range: " ++ m.text)

/-- `/^replace\s+(\d+(?:\.\.\d+)?):$/` -/
def replaceMatch (line : List Char) : Option RangeMatch :=
  match (takeKeyword "replace" line).bind takeRange with
  | some (range, [':']) => some range
  | _ => none

/-- `/^delete\s+(\d+(?:\.\.\d+)?)$/` -/
def deleteMatch (line : List Char) : Option RangeMatch :=
  match (takeKeyword "delete" line).bind takeRange with
  | some (range, []) => some range
  | _ => none

/-- `/^insert\s+(before|after)\s+(\d+):$/` for one of the two words -/
def insertAnchorMatch (position : String) (line : List Char) : Option (List Char) :=
  match ((takeKeyword "insert" line).bind (takeKeyword position)).bind takeDigits with
  | some (digits, [':']) => some digits
  | _ => none

/-- `/^insert\s+(head|tail):$/` for one of the two words -/
def insertBoundaryMatch (position : String) (line : List Char) : Bool :=
  (takeKeyword "insert" line).bind (takeWord position) == some [':']

inductive ParsedHeader where
  | replace (range : LineRange)
  | delete (range : LineRange)
  | insert (position : InsertPosition)
  deriving DecidableEq, Repr

def anchorLine (digits : List Char) : Except String LineNumber :=
  parsePositiveInt digits "insert anchor line"

def parseInsertHeader (line : List Char) : Except String (Option ParsedHeader) :=
  match insertAnchorMatch "before" line with
  | some digits => (anchorLine digits).map fun anchor => some (.insert (.before anchor))
  | none =>
    match insertAnchorMatch "after" line with
    | some digits => (anchorLine digits).map fun anchor => some (.insert (.after anchor))
    | none =>
      if insertBoundaryMatch "head" line then .ok (some (.insert .head))
      else if insertBoundaryMatch "tail" line then .ok (some (.insert .tail))
      else .ok none

def parseOperationHeader (line : String) : Except String (Option ParsedHeader) :=
  match replaceMatch line.toList with
  | some range => (parseRange range).map fun range => some (.replace range)
  | none =>
    match deleteMatch line.toList with
    | some range => (parseRange range).map fun range => some (.delete range)
    | none => parseInsertHeader line.toList

/-! ## Sections -/

def filePrefix : Char := '¶'

def startsSection (line : String) : Bool := line.toList.head? == some filePrefix

def parseBody : List String → Except String (List String × List String)
  | [] => .ok ([], [])
  | line :: rest =>
    if startsSection line then .ok ([], line :: rest)
    else match parseOperationHeader line with
      | .error message => .error message
      | .ok (some _) => .ok ([], line :: rest)
      | .ok none =>
        match line.toList with
        | '+' :: row => (parseBody rest).map fun (body, next) => (String.ofList row :: body, next)
        | _ => .error ("Hashline body rows must start with '+': " ++ line)

/-- `[0-9A-F]` -/
def isUpperHexDigit (c : Char) : Bool := c.isDigit || (65 ≤ c.toNat && c.toNat ≤ 70)

/-- The parts in front of and behind the last `#`. -/
def splitAtLastSep (cs : List Char) : List Char × List Char :=
  ((cs.reverse.dropWhile (· ≠ '#')).tail.reverse, (cs.reverse.takeWhile (· ≠ '#')).reverse)

def parseSectionHeader (line : String) : Except String (Option (String × String)) :=
  match line.toList with
  | [] => .ok none
  | c :: withoutPrefix =>
    if c ≠ filePrefix then .ok none
    else
      let (path, tag) := splitAtLastSep withoutPrefix
      if path = [] ∨ tag = [] then .error ("Invalid hashline section header: " ++ line)
      else
        let hash := toUpperCase tag
        if hash.length = 4 ∧ hash.all isUpperHexDigit then
          .ok (some (String.ofList path, String.ofList hash))
        else .error ("Invalid hashline snapshot tag for " ++ String.ofList path ++ ": " ++
          String.ofList hash)

/-- The operation of a header and its body. -/
def ParsedHeader.operation (body : List String) : ParsedHeader → HashlineOperation
  | .replace range => .replace range body
  | .delete range => .delete range
  | .insert position => .insert position body

/-- `delete` takes no body; the others read one from the lines behind them. -/
def readBody (header : ParsedHeader) (lines : List String) :
    Except String (List String × List String) :=
  match header with
  | .delete _ => .ok ([], lines)
  | _ => parseBody lines

variable {lines rest : List String}

theorem parseBody_length {body next : List String} (h : parseBody lines = .ok (body, next)) :
    next.length ≤ lines.length := by
  induction lines generalizing body with
  | nil => cases h; exact Nat.le_refl _
  | cons line rest ih =>
    unfold parseBody at h
    split at h
    · cases h; exact Nat.le_refl _
    · split at h
      · cases h
      · cases h; exact Nat.le_refl _
      · split at h
        · obtain ⟨⟨body', next'⟩, hrest, heq⟩ := Lib.Except.map_ok h
          cases heq
          exact Nat.le_succ_of_le (ih hrest)
        · cases h

theorem readBody_length {header : ParsedHeader} {body next : List String}
    (h : readBody header lines = .ok (body, next)) : next.length ≤ lines.length := by
  cases header with
  | delete range => cases h; exact Nat.le_refl _
  | replace range => exact parseBody_length h
  | insert position => exact parseBody_length h

/-- The sections read so far: those that are complete, and the one that is open. -/
structure ParsedSections where
  complete : List HashlinePatchSection
  current : Option HashlinePatchSection

def ParsedSections.all (s : ParsedSections) : List HashlinePatchSection :=
  s.complete ++ s.current.toList

def ParsedSections.openSection (s : ParsedSections) (path hash : String) : ParsedSections :=
  { complete := s.all, current := some { path, hash, operations := [] } }

def missingHeader : String := "Hashline patch must start with a ¶PATH#TAG section header."

/-- The loop over the lines. -/
def parseSections : List String → ParsedSections → Except String (List HashlinePatchSection)
  | [], s => .ok s.all
  | line :: rest, s =>
    if jsTrim line = "" then parseSections rest s
    else match parseSectionHeader line with
      | .error message => .error message
      | .ok (some (path, hash)) => parseSections rest (s.openSection path hash)
      | .ok none =>
        match s.current with
        | none => .error missingHeader
        | some current =>
          match parseOperationHeader line with
          | .error message => .error message
          | .ok none => .error ("Invalid hashline operation: " ++ line)
          | .ok (some header) =>
            match _hbody : readBody header rest with
            | .error message => .error message
            | .ok (body, next) =>
              parseSections next
                { s with
                  current := some
                    { current with operations := current.operations ++ [header.operation body] } }
termination_by lines => lines.length
decreasing_by
  · simp
  · simp
  · have := readBody_length _hbody
    simp only [List.length_cons]
    omega

def noOperations (path : String) : String := "No hashline operations found for " ++ path ++ "."

/-- The sections of a patch: at least one, and an operation in each. -/
def parseHashlinePatch (input : String) : Except String (List HashlinePatchSection) := do
  let sections ← parseSections (splitLines (normalizeSnapshotText input))
    { complete := [], current := none }
  if sections.isEmpty then .error "No hashline sections found."
  else match sections.find? fun s => s.operations.isEmpty with
    | some s => .error (noOperations s.path)
    | none => .ok sections

/-! ## The text of a patch -/

/-- An operation's own line. -/
def operationLine : HashlineOperation → String
  | .replace range _ => "replace " ++ range.describe ++ ":"
  | .delete range => "delete " ++ range.describe
  | .insert (.before anchor) _ => "insert before " ++ toString anchor.line ++ ":"
  | .insert (.after anchor) _ => "insert after " ++ toString anchor.line ++ ":"
  | .insert .head _ => "insert head:"
  | .insert .tail _ => "insert tail:"

/-- The lines an operation puts into the text. -/
def HashlineOperation.bodyLines : HashlineOperation → List String
  | .replace _ lines => lines
  | .delete _ => []
  | .insert _ lines => lines

def bodyRows (body : List String) : List String := body.map fun line => "+" ++ line

def operationLines (operation : HashlineOperation) : List String :=
  operationLine operation :: bodyRows operation.bodyLines

def sectionHeader (s : HashlinePatchSection) : String := "¶" ++ s.path ++ "#" ++ s.hash

def renderSection (s : HashlinePatchSection) : List String :=
  sectionHeader s :: s.operations.flatMap operationLines

/-- A patch as it is written: header line, operation lines and body rows, joined by
newlines. -/
def renderPatch (sections : List HashlinePatchSection) : String :=
  join "\n" (sections.flatMap renderSection)

/-! ## Reading an operation's line -/

theorem parsePositiveInt_toDigits (anchor : LineNumber) (h : IsNumber anchor.line)
    (label : String) : parsePositiveInt (Nat.toDigits 10 anchor.line) label = .ok anchor := by
  unfold parsePositiveInt
  rw [Nat.ofDigitChars_ten_toDigits, show nearestDouble anchor.line = some anchor.line from h]
  exact dif_pos anchor.pos

theorem takeWord_append (word : String) (rest : List Char) :
    takeWord word (word.toList ++ rest) = some rest := by
  unfold takeWord
  rw [if_pos (List.prefix_append _ _), List.drop_left]

theorem takeKeyword_append (word : String) {rest : List Char}
    (h : ∀ c ∈ rest.head?, isJsSpace c = false) :
    takeKeyword word (word.toList ++ ' ' :: rest) = some rest := by
  have hrest : rest.dropWhile isJsSpace = rest := by
    cases rest with
    | nil => rfl
    | cons c rest => simp [h c rfl]
  unfold takeKeyword
  rw [takeWord_append]
  show (if isJsSpace ' ' then some (rest.dropWhile isJsSpace) else none) = some rest
  rw [if_pos (by decide), hrest]

theorem takeKeyword_none {word : String} {line : List Char} (h : ¬ word.toList <+: line) :
    takeKeyword word line = none := by
  unfold takeKeyword takeWord
  rw [if_neg h]

theorem digits_head_not_space (n : Nat) (rest : List Char) :
    ∀ c ∈ (Nat.toDigits 10 n ++ rest).head?, isJsSpace c = false := by
  intro c hc
  have hmem : c ∈ Nat.toDigits 10 n := by
    cases hd : Nat.toDigits 10 n with
    | nil => exact absurd hd Nat.toDigits_ne_nil
    | cons d ds =>
      rw [hd, List.cons_append, List.head?_cons] at hc
      cases hc
      exact List.mem_cons_self
  have hdigit : c.isDigit = true := Nat.isDigit_of_mem_toDigits (by omega) (by omega) hmem
  simp only [Char.isDigit, Bool.and_eq_true, decide_eq_true_eq, ge_iff_le, UInt32.le_iff_toNat_le]
    at hdigit
  have hval : c.toNat = c.val.toNat := rfl
  have hlow : 48 ≤ c.val.toNat := hdigit.1
  have hhigh : c.val.toNat ≤ 57 := hdigit.2
  unfold isJsSpace
  simp only [hval, Bool.or_eq_false_iff, Bool.and_eq_false_iff, decide_eq_false_iff_not,
    beq_eq_false_iff_ne]
  omega

/-- The groups of a range as it is written. -/
def LineRange.groups (range : LineRange) : RangeMatch :=
  { startDigits := Nat.toDigits 10 range.startLine
    endDigits := some (Nat.toDigits 10 range.endLine) }

theorem describe_toList (range : LineRange) :
    range.describe.toList =
      Nat.toDigits 10 range.startLine ++ '.' :: '.' :: Nat.toDigits 10 range.endLine := by
  unfold LineRange.describe
  simp

theorem takeRange_describe (range : LineRange) {rest : List Char} (h : NoDigit rest) :
    takeRange (range.describe.toList ++ rest) = some (range.groups, rest) := by
  rw [describe_toList, List.append_assoc]
  unfold takeRange
  rw [takeDigits_toDigits _ (by intro c hc; cases hc; rfl)]
  simp only [List.cons_append]
  rw [takeDigits_toDigits _ h]
  rfl

theorem parseRange_groups (range : LineRange) (hstart : IsNumber range.startLine)
    (hend : IsNumber range.endLine) : parseRange range.groups = .ok range := by
  have hpos : 1 ≤ range.endLine := Nat.le_trans range.pos range.le
  unfold parseRange LineRange.groups
  rw [parsePositiveInt_toDigits ⟨range.startLine, range.pos⟩ hstart]
  show (parsePositiveInt (Nat.toDigits 10 range.endLine) "end line" >>= _) = _
  rw [parsePositiveInt_toDigits ⟨range.endLine, hpos⟩ hend]
  exact dif_pos range.le

/-- The header an operation is written under. -/
def HashlineOperation.header : HashlineOperation → ParsedHeader
  | .replace range _ => .replace range
  | .delete range => .delete range
  | .insert position _ => .insert position

theorem HashlineOperation.operation_header (operation : HashlineOperation) :
    operation.header.operation operation.bodyLines = operation := by
  cases operation <;> rfl

/-- The line numbers an operation names. -/
def HashlineOperation.lineNumbers : HashlineOperation → List Nat
  | .replace range _ | .delete range => [range.startLine, range.endLine]
  | .insert (.before anchor) _ | .insert (.after anchor) _ => [anchor.line]
  | .insert .head _ | .insert .tail _ => []

theorem insertAnchorMatch_line (position : String) (anchor : LineNumber)
    (hposition : ∀ c ∈ position.toList.head?, isJsSpace c = false) (hne : position.toList ≠ [])  :
    insertAnchorMatch position ("insert".toList ++
      ' ' :: (position.toList ++ ' ' :: (Nat.toDigits 10 anchor.line ++ [':']))) =
        some (Nat.toDigits 10 anchor.line) := by
  have hhead : ∀ rest : List Char, ∀ c ∈ (position.toList ++ rest).head?, isJsSpace c = false := by
    intro rest c hc
    cases hp : position.toList with
    | nil => exact absurd hp hne
    | cons d ds =>
      rw [hp, List.cons_append, List.head?_cons] at hc
      exact hposition c (by rw [hp]; exact hc)
  unfold insertAnchorMatch
  rw [takeKeyword_append _ (hhead _), Option.bind_some,
    takeKeyword_append _ (digits_head_not_space _ _), Option.bind_some,
    takeDigits_toDigits _ (by intro c hc; cases hc; rfl)]
  rfl

theorem parseOperationHeader_line (operation : HashlineOperation)
    (h : ∀ n ∈ operation.lineNumbers, IsNumber n) :
    parseOperationHeader (operationLine operation) = .ok (some operation.header) := by
  cases operation with
  | replace range lines =>
    have hmatch : replaceMatch (operationLine (.replace range lines)).toList =
        some range.groups := by
      unfold replaceMatch
      have hline : (operationLine (.replace range lines)).toList =
          "replace".toList ++ ' ' :: (range.describe.toList ++ [':']) := by
        show ("replace " ++ range.describe ++ ":").toList = _
        simp
      rw [hline, takeKeyword_append _ (by rw [describe_toList, List.append_assoc]; exact digits_head_not_space _ _),
        Option.bind_some, takeRange_describe _ (by intro c hc; cases hc; rfl)]
      rfl
    unfold parseOperationHeader
    rw [hmatch]
    show Except.map _ (parseRange range.groups) = _
    rw [parseRange_groups range (h _ (by simp [HashlineOperation.lineNumbers]))
      (h _ (by simp [HashlineOperation.lineNumbers]))]
    rfl
  | delete range =>
    have hline : (operationLine (.delete range)).toList =
        "delete".toList ++ ' ' :: (range.describe.toList ++ []) := by
      show ("delete " ++ range.describe).toList = _
      simp
    have hmatch : deleteMatch (operationLine (.delete range)).toList = some range.groups := by
      unfold deleteMatch
      rw [hline, takeKeyword_append _ (by rw [describe_toList, List.append_assoc]; exact digits_head_not_space _ _),
        Option.bind_some, takeRange_describe _ (by intro c hc; cases hc)]
    have hnot : replaceMatch (operationLine (.delete range)).toList = none := by
      unfold replaceMatch
      rw [hline, takeKeyword_none (by simp)]
      rfl
    unfold parseOperationHeader
    rw [hnot, hmatch]
    show Except.map _ (parseRange range.groups) = _
    rw [parseRange_groups range (h _ (by simp [HashlineOperation.lineNumbers]))
      (h _ (by simp [HashlineOperation.lineNumbers]))]
    rfl
  | insert position lines =>
    -- neither of the range headers begins like an insert
    have hnot : ∀ rest : List Char, replaceMatch ("insert".toList ++ rest) = none ∧
        deleteMatch ("insert".toList ++ rest) = none := by
      intro rest
      unfold replaceMatch deleteMatch
      rw [takeKeyword_none (by simp), takeKeyword_none (by simp)]
      exact ⟨rfl, rfl⟩
    have hparse : ∀ (line : String) (rest : List Char), line.toList = "insert".toList ++ rest →
        parseOperationHeader line = parseInsertHeader ("insert".toList ++ rest) := by
      intro line rest hline
      unfold parseOperationHeader
      rw [hline, (hnot rest).1, (hnot rest).2]
    cases position with
    | before anchor =>
      have hline : (operationLine (.insert (.before anchor) lines)).toList =
          "insert".toList ++ ' ' :: ("before".toList ++ ' ' :: (Nat.toDigits 10 anchor.line ++ [':'])) := by
        show ("insert before " ++ toString anchor.line ++ ":").toList = _
        simp
      rw [hparse _ _ hline]
      unfold parseInsertHeader
      rw [insertAnchorMatch_line "before" anchor (by intro c hc; cases hc; decide) (by decide)]
      show Except.map _ (anchorLine _) = _
      rw [anchorLine, parsePositiveInt_toDigits anchor (h _ (by simp [HashlineOperation.lineNumbers]))]
      rfl
    | after anchor =>
      have hline : (operationLine (.insert (.after anchor) lines)).toList =
          "insert".toList ++ ' ' :: ("after".toList ++ ' ' :: (Nat.toDigits 10 anchor.line ++ [':'])) := by
        show ("insert after " ++ toString anchor.line ++ ":").toList = _
        simp
      have hbefore : insertAnchorMatch "before" ("insert".toList ++
          ' ' :: ("after".toList ++ ' ' :: (Nat.toDigits 10 anchor.line ++ [':']))) = none := by
        unfold insertAnchorMatch
        rw [takeKeyword_append _ (by intro c hc; cases hc; decide), Option.bind_some,
          takeKeyword_none (by simp)]
        rfl
      rw [hparse _ _ hline]
      unfold parseInsertHeader
      rw [hbefore, insertAnchorMatch_line "after" anchor (by intro c hc; cases hc; decide) (by decide)]
      show Except.map _ (anchorLine _) = _
      rw [anchorLine, parsePositiveInt_toDigits anchor (h _ (by simp [HashlineOperation.lineNumbers]))]
      rfl
    | head =>
      show parseOperationHeader "insert head:" = .ok (some (.insert .head))
      decide
    | tail =>
      show parseOperationHeader "insert tail:" = .ok (some (.insert .tail))
      decide

/-! ## Reading a body -/

/-- A row of a body is never an operation. -/
theorem parseOperationHeader_row (row : String) : parseOperationHeader ("+" ++ row) = .ok none := by
  have hnone : ∀ word : String, ¬ word.toList <+: '+' :: row.toList →
      takeKeyword word ("+" ++ row).toList = none := by
    intro word h
    apply takeKeyword_none
    simpa using h
  have hreplace := hnone "replace" (by simp)
  have hdelete := hnone "delete" (by simp)
  have hinsert := hnone "insert" (by simp)
  unfold parseOperationHeader replaceMatch deleteMatch
  rw [hreplace, hdelete]
  show parseInsertHeader _ = _
  unfold parseInsertHeader insertAnchorMatch insertBoundaryMatch
  rw [hinsert]
  rfl

/-- The lines at which a body ends: none are left, or the next one is a header or
an operation. -/
def EndsBody : List String → Prop
  | [] => True
  | line :: _ => startsSection line = true ∨ ∃ header, parseOperationHeader line = .ok (some header)

theorem parseBody_end (h : EndsBody lines) : parseBody lines = .ok ([], lines) := by
  cases lines with
  | nil => rfl
  | cons line rest =>
    unfold parseBody
    split
    · rfl
    · next hstart =>
      obtain hsection | ⟨header, hheader⟩ := h
      · exact absurd hsection hstart
      · rw [hheader]

/-- The rows of a body are read up to its end. -/
theorem parseBody_rows (body : List String) (h : EndsBody rest) :
    parseBody (bodyRows body ++ rest) = .ok (body, rest) := by
  induction body with
  | nil => exact parseBody_end h
  | cons row body ih =>
    have hstart : startsSection ("+" ++ row) = false := by
      simp [startsSection, filePrefix]
    show parseBody (("+" ++ row) :: (bodyRows body ++ rest)) = _
    unfold parseBody
    rw [hstart, if_neg Bool.false_ne_true, parseOperationHeader_row]
    have hlist : ("+" ++ row).toList = '+' :: row.toList := by simp
    simp only [hlist]
    rw [ih]
    simp [Except.map]

theorem readBody_operation (operation : HashlineOperation) (h : EndsBody rest) :
    readBody operation.header (bodyRows operation.bodyLines ++ rest) =
      .ok (operation.bodyLines, rest) := by
  cases operation with
  | replace range lines => exact parseBody_rows lines h
  | delete range => rfl
  | insert position lines => exact parseBody_rows lines h

/-! ## Reading a section -/

/-- `[0-9A-Fa-f]` -/
def isHexDigit (c : Char) : Bool := isUpperHexDigit c || (97 ≤ c.toNat && c.toNat ≤ 102)

/-- A text without line breaks. -/
def OneLine (text : List Char) : Prop := ∀ c ∈ text, c ≠ '\n' ∧ c ≠ '\r'

/-- What a patch keeps to so that its text can be read back. -/
structure HashlinePatchSection.Canonical (s : HashlinePatchSection) : Prop where
  path_ne : s.path ≠ ""
  path_line : OneLine s.path.toList
  hash_length : s.hash.toList.length = 4
  hash_digits : ∀ c ∈ s.hash.toList, isHexDigit c = true
  operations_ne : s.operations ≠ []
  numbers : ∀ operation ∈ s.operations, ∀ n ∈ operation.lineNumbers, IsNumber n
  rows : ∀ operation ∈ s.operations, ∀ row ∈ operation.bodyLines, OneLine row.toList

/-- The section as it is read: its tag in upper case. -/
def HashlinePatchSection.upper (s : HashlinePatchSection) : HashlinePatchSection :=
  { s with hash := upperTag s.hash }

theorem isHexDigit_toNat {c : Char} (h : isHexDigit c = true) :
    48 ≤ c.toNat ∧ c.toNat ≤ 57 ∨ 65 ≤ c.toNat ∧ c.toNat ≤ 70 ∨ 97 ≤ c.toNat ∧ c.toNat ≤ 102 := by
  unfold isHexDigit isUpperHexDigit at h
  simp only [Bool.or_eq_true, Bool.and_eq_true, decide_eq_true_eq, Char.isDigit, ge_iff_le,
    UInt32.le_iff_toNat_le] at h
  obtain (h | h) | h := h
  · exact .inl h
  · exact .inr (.inl h)
  · exact .inr (.inr h)

theorem isUpperHexDigit_toUpper {c : Char} (h : isHexDigit c = true) :
    isUpperHexDigit c.toUpper = true := by
  have hofNat : c = Char.ofNat c.toNat := (Char.ofNat_toNat c).symm
  have hrange := isHexDigit_toNat h
  generalize c.toNat = n at hofNat hrange
  subst hofNat
  obtain ⟨h1, h2⟩ | ⟨h1, h2⟩ | ⟨h1, h2⟩ := hrange <;> interval_cases n <;> decide

theorem toUpperCase_hex {tag : List Char} (h : ∀ c ∈ tag, isHexDigit c = true) :
    toUpperCase tag = tag.map Char.toUpper := by
  unfold toUpperCase
  rw [List.map_eq_flatMap]
  apply List.flatMap_congr
  intro c hc
  rw [if_neg]
  intro hff
  have := isHexDigit_toNat (h c hc)
  rw [hff] at this
  revert this
  decide

theorem splitAtLastSep_append (path : List Char) {tag : List Char} (h : '#' ∉ tag) :
    splitAtLastSep (path ++ '#' :: tag) = (path, tag) := by
  have hne : ∀ c ∈ tag.reverse, (decide (c ≠ '#')) = true := by
    intro c hc
    rw [List.mem_reverse] at hc
    rw [decide_eq_true_eq]
    intro heq
    exact h (heq ▸ hc)
  unfold splitAtLastSep
  rw [List.reverse_append, List.reverse_cons, List.append_assoc,
    List.takeWhile_append_of_pos hne, List.dropWhile_append_of_pos hne]
  simp

theorem parseSectionHeader_line {s : HashlinePatchSection} (h : s.Canonical) :
    parseSectionHeader (sectionHeader s) = .ok (some (s.path, upperTag s.hash)) := by
  have hline : (sectionHeader s).toList = '¶' :: (s.path.toList ++ '#' :: s.hash.toList) := by
    simp [sectionHeader]
  have hsep : '#' ∉ s.hash.toList := by
    intro hmem
    have := h.hash_digits _ hmem
    revert this
    decide
  have hpath : s.path.toList ≠ [] := by simpa using h.path_ne
  have htag : s.hash.toList ≠ [] := by
    intro hnil
    have := h.hash_length
    rw [hnil] at this
    cases this
  have hupper : (toUpperCase s.hash.toList).length = 4 ∧
      (toUpperCase s.hash.toList).all isUpperHexDigit = true := by
    rw [toUpperCase_hex h.hash_digits, List.length_map, List.all_map, List.all_eq_true]
    refine ⟨h.hash_length, ?_⟩
    intro c hc
    exact isUpperHexDigit_toUpper (h.hash_digits c hc)
  unfold parseSectionHeader
  rw [hline]
  simp only [splitAtLastSep_append _ hsep, filePrefix, ne_eq, not_true_eq_false, if_false, hpath,
    htag, or_self, hupper, and_self, if_true]
  rw [String.ofList_toList]
  rfl

theorem jsTrim_ne_empty {line : String} {c : Char} {cs : List Char} (hline : line.toList = c :: cs)
    (hc : isJsSpace c = false) : jsTrim line ≠ "" := by
  intro h
  have hlist := congrArg String.toList h
  unfold jsTrim at hlist
  rw [hline, List.dropWhile_cons_of_neg (by simp [hc])] at hlist
  simp only [String.toList_ofList, String.toList_empty, List.reverse_eq_nil_iff,
    List.dropWhile_eq_nil_iff, List.mem_reverse] at hlist
  rw [hlist c List.mem_cons_self] at hc
  cases hc

theorem operationLine_head (operation : HashlineOperation) :
    ∃ c cs, (operationLine operation).toList = c :: cs ∧ isJsSpace c = false ∧ c ≠ '¶' := by
  cases operation with
  | replace range lines =>
    refine ⟨'r', ("replace " ++ range.describe ++ ":").toList.tail, ?_, by decide, by decide⟩
    show ("replace " ++ range.describe ++ ":").toList = _
    simp
  | delete range =>
    refine ⟨'d', ("delete " ++ range.describe).toList.tail, ?_, by decide, by decide⟩
    show ("delete " ++ range.describe).toList = _
    simp
  | insert position lines =>
    refine ⟨'i', (operationLine (.insert position lines)).toList.tail, ?_, by decide, by decide⟩
    cases position with
    | before anchor =>
      show ("insert before " ++ toString anchor.line ++ ":").toList =
        'i' :: ("insert before " ++ toString anchor.line ++ ":").toList.tail
      simp
    | after anchor =>
      show ("insert after " ++ toString anchor.line ++ ":").toList =
        'i' :: ("insert after " ++ toString anchor.line ++ ":").toList.tail
      simp
    | head =>
      show "insert head:".toList = 'i' :: "insert head:".toList.tail
      simp
    | tail =>
      show "insert tail:".toList = 'i' :: "insert tail:".toList.tail
      simp

theorem parseSectionHeader_operation (operation : HashlineOperation) :
    parseSectionHeader (operationLine operation) = .ok none := by
  obtain ⟨c, cs, hline, _, hc⟩ := operationLine_head operation
  unfold parseSectionHeader
  rw [hline]
  exact if_pos hc

/-! ## Reading a patch -/

theorem parseSections_operations (operations : List HashlineOperation)
    (hrest : rest = [] ∨ ∃ line tail, rest = line :: tail ∧ startsSection line = true)
    (hnumbers : ∀ operation ∈ operations, ∀ n ∈ operation.lineNumbers, IsNumber n)
    (complete : List HashlinePatchSection) (current : HashlinePatchSection) :
    parseSections (operations.flatMap operationLines ++ rest)
        { complete, current := some current } =
      parseSections rest
        { complete
          current := some { current with operations := current.operations ++ operations } } := by
  induction operations generalizing current with
  | nil => rw [List.append_nil]; rfl
  | cons operation operations ih =>
    rw [List.forall_mem_cons] at hnumbers
    obtain ⟨c, cs, hline, hspace, _⟩ := operationLine_head operation
    have hends : EndsBody (operations.flatMap operationLines ++ rest) := by
      cases operations with
      | nil =>
        obtain rfl | ⟨line, tail, rfl, hstart⟩ := hrest
        · exact trivial
        · exact .inl hstart
      | cons next operations =>
        exact .inr ⟨next.header, parseOperationHeader_line next (hnumbers.2 next (by simp))⟩
    have hsplit : (operation :: operations).flatMap operationLines ++ rest =
        operationLine operation ::
          (bodyRows operation.bodyLines ++ (operations.flatMap operationLines ++ rest)) := by
      simp [operationLines]
    rw [hsplit, parseSections, if_neg (jsTrim_ne_empty hline hspace),
      parseSectionHeader_operation]
    simp only [parseOperationHeader_line operation hnumbers.1]
    have hbody := readBody_operation operation hends
    split
    · next message herror => rw [hbody] at herror; cases herror
    · next body next hok =>
      rw [hbody] at hok
      cases hok
      rw [operation.operation_header, ih hnumbers.2, List.append_assoc]
      rfl

theorem sectionHeader_toList (s : HashlinePatchSection) :
    (sectionHeader s).toList = '¶' :: (s.path.toList ++ '#' :: s.hash.toList) := by
  simp [sectionHeader]

theorem startsSection_sectionHeader (s : HashlinePatchSection) :
    startsSection (sectionHeader s) = true := by
  unfold startsSection
  rw [sectionHeader_toList]
  rfl

theorem parseSections_render (sections : List HashlinePatchSection)
    (h : ∀ s ∈ sections, s.Canonical) (read : ParsedSections) :
    parseSections (sections.flatMap renderSection) read =
      .ok (read.all ++ sections.map HashlinePatchSection.upper) := by
  induction sections generalizing read with
  | nil =>
    rw [List.flatMap_nil, List.map_nil, List.append_nil, parseSections]
  | cons s sections ih =>
    rw [List.forall_mem_cons] at h
    have hsplit : (s :: sections).flatMap renderSection =
        sectionHeader s :: (s.operations.flatMap operationLines ++ sections.flatMap renderSection) := by
      simp [renderSection]
    have hrest : sections.flatMap renderSection = [] ∨ ∃ line tail,
        sections.flatMap renderSection = line :: tail ∧ startsSection line = true := by
      cases sections with
      | nil => exact .inl rfl
      | cons next sections => exact .inr ⟨_, _, rfl, startsSection_sectionHeader next⟩
    rw [hsplit, parseSections, if_neg (jsTrim_ne_empty (sectionHeader_toList s) (by decide)),
      parseSectionHeader_line h.1]
    show parseSections _ (read.openSection s.path (upperTag s.hash)) = _
    unfold ParsedSections.openSection
    rw [parseSections_operations s.operations hrest h.1.numbers, ih h.2]
    simp [ParsedSections.all, HashlinePatchSection.upper]

theorem normalizeSnapshotText_of_noCr {text : String} (h : '\r' ∉ text.toList) :
    normalizeSnapshotText text = text := by
  have hcrlf : ∀ l : List Char, '\r' ∉ l → replaceCrLf l = l := by
    intro l
    induction l with
    | nil => intro _; rfl
    | cons c l ih =>
      intro hl
      rw [List.mem_cons, not_or] at hl
      cases l with
      | nil => rfl
      | cons d rest =>
        unfold replaceCrLf
        rw [if_neg (fun hcd => hl.1 hcd.1.symm), ih hl.2]
  have hcr : replaceCr text.toList = text.toList := by
    unfold replaceCr
    rw [List.map_congr_left (g := id), List.map_id]
    intro c hc
    rw [if_neg]
    · rfl
    · intro heq
      exact h (heq ▸ hc)
  unfold normalizeSnapshotText
  rw [hcrlf _ h, hcr, String.ofList_toList]

theorem splitLines_join (hne : lines ≠ []) (h : ∀ line ∈ lines, '\n' ∉ line.toList) :
    splitLines (join "\n" lines) = lines := by
  unfold splitLines join
  rw [String.toList_intercalate]
  show List.map String.ofList ((['\n'].intercalate (lines.map String.toList)).splitOn '\n') = lines
  rw [List.splitOn_intercalate, List.map_map]
  · rw [List.map_congr_left (g := id), List.map_id]
    intro line _
    exact String.ofList_toList
  · intro l hl
    obtain ⟨line, hline, rfl⟩ := List.mem_map.mp hl
    exact h line hline
  · simpa using hne

theorem oneLine_of_all {text : List Char}
    (h : (text.all fun c => decide (c ≠ '\n') && decide (c ≠ '\r')) = true) : OneLine text := by
  intro c hc
  simpa using List.all_eq_true.mp h c hc

theorem OneLine.append {a b : List Char} (ha : OneLine a) (hb : OneLine b) : OneLine (a ++ b) := by
  intro c hc
  exact (List.mem_append.mp hc).elim (ha c) (hb c)

theorem oneLine_digits (n : Nat) : OneLine (Nat.toDigits 10 n) := by
  intro c hc
  have hdigit : c.isDigit = true := Nat.isDigit_of_mem_toDigits (by omega) (by omega) hc
  constructor
  · intro heq
    rw [heq] at hdigit
    cases hdigit
  · intro heq
    rw [heq] at hdigit
    cases hdigit

theorem oneLine_range (range : LineRange) : OneLine range.describe.toList := by
  rw [describe_toList]
  exact (oneLine_digits _).append (OneLine.append (a := ['.', '.']) (oneLine_of_all (by decide))
    (oneLine_digits _))

theorem operationLine_oneLine (operation : HashlineOperation) :
    OneLine (operationLine operation).toList := by
  have hcolon : OneLine ":".toList := oneLine_of_all (by decide)
  have hanchor : ∀ (word : String) (anchor : LineNumber), OneLine word.toList →
      OneLine (word ++ toString anchor.line ++ ":").toList := by
    intro word anchor hword
    rw [String.toList_append, String.toList_append]
    refine OneLine.append (OneLine.append hword ?_) hcolon
    show OneLine (Nat.repr anchor.line).toList
    rw [Nat.toList_repr]
    exact oneLine_digits _
  cases operation with
  | replace range lines =>
    show OneLine ("replace " ++ range.describe ++ ":").toList
    rw [String.toList_append, String.toList_append]
    exact OneLine.append (OneLine.append (oneLine_of_all (by decide)) (oneLine_range range)) hcolon
  | delete range =>
    show OneLine ("delete " ++ range.describe).toList
    rw [String.toList_append]
    exact OneLine.append (oneLine_of_all (by decide)) (oneLine_range range)
  | insert position lines =>
    cases position with
    | before anchor => exact hanchor "insert before " anchor (oneLine_of_all (by decide))
    | after anchor => exact hanchor "insert after " anchor (oneLine_of_all (by decide))
    | head => exact @oneLine_of_all "insert head:".toList (by decide)
    | tail => exact @oneLine_of_all "insert tail:".toList (by decide)

theorem renderSection_oneLine {s : HashlinePatchSection} (h : s.Canonical) :
    ∀ line ∈ renderSection s, OneLine line.toList := by
  intro line hline
  rw [renderSection, List.mem_cons, List.mem_flatMap] at hline
  obtain rfl | ⟨operation, hop, hline⟩ := hline
  · rw [sectionHeader_toList]
    have hhash : OneLine s.hash.toList := by
      intro c hc
      have := isHexDigit_toNat (h.hash_digits c hc)
      constructor
      · rintro rfl
        revert this
        decide
      · rintro rfl
        revert this
        decide
    exact OneLine.append (a := ['¶']) (oneLine_of_all (by decide))
      (h.path_line.append (OneLine.append (a := ['#']) (oneLine_of_all (by decide)) hhash))
  · rw [operationLines, List.mem_cons, bodyRows, List.mem_map] at hline
    obtain rfl | ⟨row, hrow, rfl⟩ := hline
    · exact operationLine_oneLine operation
    · rw [String.toList_append]
      exact OneLine.append (oneLine_of_all (by decide)) (h.rows operation hop row hrow)

theorem intercalate_noCr {lines : List (List Char)} (h : ∀ l ∈ lines, '\r' ∉ l) :
    '\r' ∉ "\n".toList.intercalate lines := by
  induction lines with
  | nil => exact List.not_mem_nil
  | cons l lines ih =>
    rw [List.forall_mem_cons] at h
    cases lines with
    | nil => simpa [List.intercalate] using h.1
    | cons m lines =>
      rw [List.intercalate_cons_of_ne_nil (by simp)]
      simp only [List.mem_append, not_or]
      exact ⟨⟨h.1, by decide⟩, ih h.2⟩

theorem splitLines_renderPatch {sections : List HashlinePatchSection} (hne : sections ≠ [])
    (h : ∀ s ∈ sections, s.Canonical) :
    splitLines (normalizeSnapshotText (renderPatch sections)) = sections.flatMap renderSection := by
  have hlines : ∀ line ∈ sections.flatMap renderSection, OneLine line.toList := by
    intro line hline
    obtain ⟨s, hs, hline⟩ := List.mem_flatMap.mp hline
    exact renderSection_oneLine (h s hs) line hline
  have hnonempty : sections.flatMap renderSection ≠ [] := by
    cases sections with
    | nil => exact absurd rfl hne
    | cons s sections => simp [renderSection]
  rw [normalizeSnapshotText_of_noCr]
  · exact splitLines_join hnonempty fun line hline hc => (hlines line hline _ hc).1 rfl
  · intro hcr
    unfold renderPatch join at hcr
    rw [String.toList_intercalate] at hcr
    exact intercalate_noCr (fun l hl => by
      obtain ⟨line, hline, rfl⟩ := List.mem_map.mp hl
      exact fun hmem => (hlines line hline _ hmem).2 rfl) hcr

theorem parseHashlinePatch_rendered {sections : List HashlinePatchSection}
    (h : ∀ s ∈ sections, s.Canonical) :
    parseHashlinePatch (renderPatch sections) =
      if sections = [] then .error "No hashline sections found."
      else .ok (sections.map HashlinePatchSection.upper) := by
  by_cases hne : sections = []
  · have hlines : splitLines (normalizeSnapshotText (renderPatch [])) = [""] := by decide
    rw [if_pos hne, hne]
    unfold parseHashlinePatch
    rw [hlines, parseSections, if_pos (by decide), parseSections]
    rfl
  · have hread : parseSections (splitLines (normalizeSnapshotText (renderPatch sections)))
        { complete := [], current := none } = .ok (sections.map HashlinePatchSection.upper) := by
      rw [splitLines_renderPatch hne h, parseSections_render sections h]
      rfl
    have hfind : (sections.map HashlinePatchSection.upper).find?
        (fun s => s.operations.isEmpty) = none := by
      rw [List.find?_eq_none]
      intro read hread
      obtain ⟨s, hs, rfl⟩ := List.mem_map.mp hread
      simpa [HashlinePatchSection.upper] using (h s hs).operations_ne
    have hempty : (sections.map HashlinePatchSection.upper).isEmpty = false := by
      simpa using hne
    rw [if_neg hne]
    unfold parseHashlinePatch
    rw [hread]
    show (if (sections.map HashlinePatchSection.upper).isEmpty then _ else _) = _
    rw [hempty, if_neg Bool.false_ne_true, hfind]

/-- Reading what a patch with a section is written as gives the patch back, its tags
in upper case. -/
theorem parseHashlinePatch_render {sections : List HashlinePatchSection} (hne : sections ≠ [])
    (h : ∀ s ∈ sections, s.Canonical) :
    parseHashlinePatch (renderPatch sections) = .ok (sections.map HashlinePatchSection.upper) := by
  rw [parseHashlinePatch_rendered h, if_neg hne]

/-- A patch of one section, its path and its rows full of signs of structure. -/
def lookalikes (hash : String) : HashlinePatchSection :=
  { path := "a#b", hash, operations :=
      [.delete { startLine := 1, endLine := 1, pos := LineNumber.first, le := LineNumber.first },
       .insert .head ["¶x#0000", "replace 1:", "+"]] }

theorem lookalikes_canonical {hash : String} (hlength : hash.toList.length = 4)
    (hdigits : ∀ c ∈ hash.toList, isHexDigit c = true) : (lookalikes hash).Canonical where
  path_ne := by
    show "a#b" ≠ ""
    decide
  path_line := @oneLine_of_all "a#b".toList (by decide)
  hash_length := hlength
  hash_digits := hdigits
  operations_ne := by simp [lookalikes]
  numbers := by
    intro operation hop n hn
    simp only [lookalikes, List.mem_cons, List.not_mem_nil, or_false] at hop
    obtain rfl | rfl := hop
    · simp only [HashlineOperation.lineNumbers, List.mem_cons, List.not_mem_nil, or_false,
        or_self] at hn
      rw [hn]
      exact if_pos (by decide)
    · cases hn
  rows := by
    intro operation hop row hrow
    simp only [lookalikes, List.mem_cons, List.not_mem_nil, or_false] at hop
    obtain rfl | rfl := hop
    · cases hrow
    · show OneLine row.toList
      simp only [HashlineOperation.bodyLines, List.mem_cons, List.not_mem_nil, or_false] at hrow
      obtain rfl | rfl | rfl := hrow <;> exact oneLine_of_all (by decide)

theorem parseHashlinePatch_render_example :
    parseHashlinePatch (renderPatch [lookalikes "0AF9"]) = .ok [lookalikes "0AF9"] := by
  apply @parseHashlinePatch_render [lookalikes "0AF9"] (by simp)
  intro s hs
  rw [List.mem_singleton] at hs
  rw [hs]
  exact lookalikes_canonical (by decide) (List.all_eq_true.mp (by decide))

/-- A tag in lower case comes back in upper case, and the text of a patch without
sections is refused. -/
theorem lower_case_and_empty :
    parseHashlinePatch (renderPatch []) ≠ .ok [] ∧ (lookalikes "0af9").Canonical ∧
      parseHashlinePatch (renderPatch [lookalikes "0af9"]) ≠ .ok [lookalikes "0af9"] := by
  have hcanonical : (lookalikes "0af9").Canonical :=
    lookalikes_canonical (by decide) (List.all_eq_true.mp (by decide))
  refine ⟨?_, hcanonical, ?_⟩
  · rw [parseHashlinePatch_rendered (by simp), if_pos rfl]
    exact nofun
  · rw [parseHashlinePatch_rendered (by simpa using hcanonical), if_neg (by simp)]
    intro h
    have hhash : upperTag "0af9" = "0af9" := by
      simpa [HashlinePatchSection.upper, lookalikes] using h
    exact absurd hhash (by decide)

end PieLab

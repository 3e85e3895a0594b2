import Mathlib.Data.List.Induction
import PieLab.Lib.FixedPoint
import PieLab.Tools.ReadLines
import PieLab.Tools.TruncatedRuns

/-
  Reading a file line by line

  A file is read as a whole, or, where only a part of it is asked for, line by line. The
  whole text is cut into lines, the selected ones are joined, and the joined text is cut
  once more to be truncated: a blank line at its end is then a newline and no line. The
  line by line reading counts the lines as they come.

  What is proved:
    1. `streamed_spec` — what the lines of a file make of the counters.
    2. `truncateHead_joinLines` — truncating joined lines.
    3. `streamed_read_iff` — both readings give one text except where the selection ends
       with a blank line at one of the limits.
    4. `blank_line_over_limit` — two thousand lines and a blank one.

  Correspondence (TypeScript ↔ Lean), packages/coding-agent/src/core/tools/read.ts:
    `rl.on("line")`, `rl.on("close")`           ↔ `StreamedLines.add`, `readLocalTextSelection`
    `createStreamedTruncation`                  ↔ `createStreamedTruncation`
    `formatTextReadSelection`                   ↔ `formatTextReadSelection`
    `execute`, its two ways of reading          ↔ `readStreamed`, `readBuffered`
  There is no hashline tag and no conflict, and `readline` splits at line ends.
-/

namespace PieLab

open Lib

/-- `formatSize` of packages/coding-agent/src/core/tools/truncate.ts -/
def formatSize (bytes : Nat) : String :=
  if bytes < 1024 then toString bytes ++ "B"
  else if bytes < 1024 * 1024 then toFixed 1 ((bytes : ℚ) / 1024) ++ "KB"
  else toFixed 1 ((bytes : ℚ) / (1024 * 1024)) ++ "MB"

/-! ## The text of a reading -/

def lineTooLong (startLineDisplay firstLineBytes : Nat) (inputPath : String) : String :=
  "[Line " ++ toString startLineDisplay ++ " is " ++ formatSize firstLineBytes ++ ", exceeds " ++
    formatSize DEFAULT_MAX_BYTES ++ " limit. Use bash: sed -n '" ++ toString startLineDisplay ++ "p' " ++
    inputPath ++ " | head -c " ++ toString DEFAULT_MAX_BYTES ++ "]"

/-- The notice of lines that are shown, with what is said of the limit. -/
def showingLines (startLineDisplay endLineDisplay totalFileLines : Nat) (limit : String) : String :=
  "[Showing lines " ++ toString startLineDisplay ++ "-" ++ toString endLineDisplay ++ " of " ++
    toString totalFileLines ++ limit ++ ". Use offset=" ++ toString (endLineDisplay + 1) ++ " to continue.]"

def bytesLimit : String := " (" ++ formatSize DEFAULT_MAX_BYTES ++ " limit)"

def moreLines (remaining nextOffset : Nat) : String :=
  "[" ++ toString remaining ++ " more lines in file. Use offset=" ++ toString nextOffset ++ " to continue.]"

/-- The text in front of its notices: `fileOutputText ? … : notices.join("\n")`. -/
def withNotice (fileOutputText : List Char) (notice : String) : List Char :=
  if fileOutputText = [] then notice.toList else fileOutputText ++ '\n' :: '\n' :: notice.toList

/-- The text of a selection whose first line is too long. -/
def longLineText (inputPath : String) (selection : TextReadSelection) : List Char :=
  withNotice [] (lineTooLong selection.startLineDisplay
    (byteLength selection.firstSelectedLine.toList) inputPath)

def truncatedText (selection : TextReadSelection) (truncation : TruncationResult) : List Char :=
  let endLineDisplay := selection.startLineDisplay + truncation.outputLines - 1
  withNotice truncation.content (showingLines selection.startLineDisplay endLineDisplay
    selection.totalFileLines (if truncation.truncatedBy = some .lines then "" else bytesLimit))

/-- The text of a selection that is shown as a whole. -/
def wholeText (selection : TextReadSelection) (content : List Char) : List Char :=
  match selection.userLimitedLines with
  | none => content
  | some userLimitedLines =>
    let shown := selection.startLine + userLimitedLines
    if shown < selection.totalFileLines then
      withNotice content (moreLines (selection.totalFileLines - shown) (shown + 1))
    else content

def formatTextReadSelection (inputPath : String) (selection : TextReadSelection)
    (streamed : Option TruncationResult) : List Char :=
  let truncation := streamed.getD
    (truncateHead selection.selectedContent.toList DEFAULT_MAX_LINES DEFAULT_MAX_BYTES)
  if truncation.firstLineExceedsLimit then longLineText inputPath selection
  else if truncation.truncated then truncatedText selection truncation
  else wholeText selection truncation.content

/-! ## Line by line -/

/-- The counters of `readLocalTextSelection`. -/
structure StreamedLines where
  totalFileLines : Nat := 0
  selectedLineCount : Nat := 0
  selectedBytes : Nat := 0
  outputBytes : Nat := 0
  firstSelectedLine : List Char := []
  firstLineExceedsLimit : Bool := false
  byteLimitReached : Bool := false
  outputLines : List (List Char) := []

/-- A selected line is put out while it fits. -/
def StreamedLines.output (s : StreamedLines) (line : List Char) : StreamedLines :=
  if !s.firstLineExceedsLimit && !s.byteLimitReached && s.outputLines.length < DEFAULT_MAX_LINES then
    let outputLineBytes := byteLength line + if s.outputLines.length > 0 then 1 else 0
    if s.outputBytes + outputLineBytes ≤ DEFAULT_MAX_BYTES then
      { s with outputLines := s.outputLines ++ [line], outputBytes := s.outputBytes + outputLineBytes }
    else { s with byteLimitReached := true }
  else s

/-- A line that is selected. -/
def StreamedLines.select (s : StreamedLines) (line : List Char) : StreamedLines :=
  let lineBytes := byteLength line
  let s := if s.selectedLineCount = 0 then
      { s with firstSelectedLine := line, firstLineExceedsLimit := lineBytes > DEFAULT_MAX_BYTES }
    else s
  let s := { s with
    selectedLineCount := s.selectedLineCount + 1
    selectedBytes := s.selectedBytes + (lineBytes + if s.selectedLineCount + 1 > 1 then 1 else 0) }
  s.output line

/-- `rl.on("line")` -/
def StreamedLines.add (startLine : Nat) (limit : Option Nat) (s : StreamedLines)
    (line : List Char) :
    StreamedLines :=
  let zeroBasedLine := s.totalFileLines
  let s := { s with totalFileLines := s.totalFileLines + 1 }
  if zeroBasedLine < startLine ∨ limit.any (· ≤ s.selectedLineCount) then s else s.select line

def createStreamedTruncation (outputLines : List (List Char))
    (selectedLineCount selectedBytes : Nat)
    (firstLineExceedsLimit byteLimitReached : Bool) : TruncationResult :=
  let selectedContentIsEmpty :=
    selectedLineCount = 0 ∨ selectedLineCount = 1 ∧ selectedBytes = 0
  let totalLines := if selectedContentIsEmpty then 0 else selectedLineCount
  let totalBytes := if selectedContentIsEmpty then 0 else selectedBytes
  let outputContent := if selectedContentIsEmpty then [] else joinLines outputLines
  let truncated :=
    firstLineExceedsLimit || totalLines > DEFAULT_MAX_LINES || totalBytes > DEFAULT_MAX_BYTES
  let truncatedBy :=
    if truncated then
      some (if firstLineExceedsLimit || byteLimitReached then TruncatedBy.bytes else .lines)
    else none
  { content := outputContent, truncated, truncatedBy, totalLines, totalBytes
    outputLines := if selectedContentIsEmpty then 0 else outputLines.length
    outputBytes := byteLength outputContent, lastLinePartial := false, firstLineExceedsLimit
    maxLines := DEFAULT_MAX_LINES, maxBytes := DEFAULT_MAX_BYTES }

/-- The lines `readline` emits. -/
def emittedLines (textContent : String) : List (List Char) :=
  splitLinesForCounting (normalizeSnapshotText textContent).toList

/-- The selection and its truncation. -/
def readLocalTextSelection (textContent : String) (startLine : Nat) (limit : Option Nat) :
    TextReadSelection × TruncationResult :=
  let s := (emittedLines textContent).foldl (StreamedLines.add startLine limit) {}
  let totalFileLines := if s.totalFileLines = 0 then 1 else s.totalFileLines
  ({ selectedContent := String.ofList (joinLines s.outputLines), totalFileLines, startLine
     startLineDisplay := startLine + 1, firstSelectedLine := String.ofList s.firstSelectedLine
     userLimitedLines := limit.map fun limit => min limit (totalFileLines - startLine) },
    createStreamedTruncation s.outputLines s.selectedLineCount s.selectedBytes s.firstLineExceedsLimit
      s.byteLimitReached)

/-! ## The two ways of reading -/

def readStreamed (textContent inputPath : String) (offset limit : Option Nat) :
    Except String (List Char) :=
  let startLine := offset.getD 0 - 1
  let (selection, truncation) := readLocalTextSelection textContent startLine limit
  if selection.totalFileLines ≤ startLine then
    .error (offsetBeyondEnd (offset.getD 0) selection.totalFileLines)
  else .ok (formatTextReadSelection inputPath selection (some truncation))

def readBuffered (textContent inputPath : String) (offset limit : Option Nat) :
    Except String (List Char) :=
  (selectText textContent offset limit).map fun selection => formatTextReadSelection inputPath selection none

/-! ## The loop of `truncateHead`, line by line -/

/-- One line of the loop. -/
def headStep (maxLines maxBytes : Nat) (kept : HeadLines) (line : List Char) : HeadLines :=
  if kept.truncatedBy = .lines ∧ kept.lines.length < maxLines then
    let lineBytes := byteLength line + if kept.lines.length > 0 then 1 else 0
    if kept.bytes + lineBytes > maxBytes then { kept with truncatedBy := .bytes }
    else { kept with lines := kept.lines ++ [line], bytes := kept.bytes + lineBytes }
  else kept

section Loop
variable {maxLines maxBytes : Nat}

theorem foldl_headStep_stopped (lines : List (List Char)) {kept : HeadLines}
    (h : ¬ (kept.truncatedBy = .lines ∧ kept.lines.length < maxLines)) :
    lines.foldl (headStep maxLines maxBytes) kept = kept := by
  induction lines with
  | nil => rfl
  | cons line rest ih =>
    have hstep : headStep maxLines maxBytes kept line = kept := if_neg h
    rw [List.foldl_cons, hstep, ih]

theorem collectHead_eq_foldl (lines : List (List Char)) {kept : HeadLines}
    (h : kept.truncatedBy = .lines) :
    collectHead maxLines maxBytes lines kept = lines.foldl (headStep maxLines maxBytes) kept := by
  induction lines generalizing kept with
  | nil => rfl
  | cons line rest ih =>
    rw [collectHead, List.foldl_cons]
    by_cases hcount : kept.lines.length < maxLines
    · have hstep : headStep maxLines maxBytes kept line =
          if kept.bytes + (byteLength line + if kept.lines.length > 0 then 1 else 0) > maxBytes then
            { kept with truncatedBy := .bytes }
          else
            { kept with
              lines := kept.lines ++ [line]
              bytes := kept.bytes + (byteLength line + if kept.lines.length > 0 then 1 else 0) } :=
        if_pos ⟨h, hcount⟩
      rw [if_pos hcount, hstep]
      simp only
      by_cases hlong : kept.bytes + (byteLength line + if kept.lines.length > 0 then 1 else 0) > maxBytes
      · rw [if_pos hlong, if_pos hlong, foldl_headStep_stopped]
        intro hopen
        cases hopen.1
      · rw [if_neg hlong, if_neg hlong]
        exact ih h
    · rw [if_neg hcount, headStep, if_neg fun hboth => hcount hboth.2, foldl_headStep_stopped]
      exact fun hboth => hcount hboth.2

theorem collectHead_concat (lines : List (List Char)) (line : List Char) :
    collectHead maxLines maxBytes (lines ++ [line]) {} =
      headStep maxLines maxBytes (collectHead maxLines maxBytes lines {}) line := by
  rw [collectHead_eq_foldl _ rfl, collectHead_eq_foldl _ rfl, List.foldl_append]
  rfl

theorem collectHead_bytes_lt (lines : List (List Char))
    (h : (collectHead maxLines maxBytes lines {}).truncatedBy = .bytes) :
    (collectHead maxLines maxBytes lines {}).lines.length < maxLines := by
  induction lines using List.reverseRecOn with
  | nil => cases h
  | append_singleton lines line ih =>
    rw [collectHead_concat] at h ⊢
    generalize collectHead maxLines maxBytes lines {} = kept at h ih ⊢
    unfold headStep at h ⊢
    by_cases hopen : kept.truncatedBy = .lines ∧ kept.lines.length < maxLines
    · rw [if_pos hopen] at h ⊢
      by_cases hlong : kept.bytes + (byteLength line + if kept.lines.length > 0 then 1 else 0) > maxBytes
      · simp only [if_pos hlong]
        exact hopen.2
      · simp only [if_neg hlong, hopen.1] at h
        cases h
    · rw [if_neg hopen] at h ⊢
      exact ih h

end Loop

/-! ## The counters -/

theorem default_lines : 2 ≤ DEFAULT_MAX_LINES := by decide

/-- The counters after the selected lines, of `n` lines in all. -/
def streamedOf (n : Nat) (lines : List (List Char)) : StreamedLines :=
  let kept := if byteLength (lines.headD []) > DEFAULT_MAX_BYTES then {}
    else collectHead DEFAULT_MAX_LINES DEFAULT_MAX_BYTES lines {}
  { totalFileLines := n, selectedLineCount := lines.length, selectedBytes := byteLength (joinLines lines)
    outputBytes := kept.bytes, firstSelectedLine := lines.headD []
    firstLineExceedsLimit := byteLength (lines.headD []) > DEFAULT_MAX_BYTES
    byteLimitReached := kept.truncatedBy = .bytes, outputLines := kept.lines }

theorem output_headStep (s : StreamedLines) (kept : HeadLines) (line : List Char)
    (hfirst : s.firstLineExceedsLimit = false) (hlines : s.outputLines = kept.lines)
    (hbytes : s.outputBytes = kept.bytes) (hreached : s.byteLimitReached = decide (kept.truncatedBy = .bytes)) :
    s.output line =
      { s with
        outputLines := (headStep DEFAULT_MAX_LINES DEFAULT_MAX_BYTES kept line).lines
        outputBytes := (headStep DEFAULT_MAX_LINES DEFAULT_MAX_BYTES kept line).bytes
        byteLimitReached := (headStep DEFAULT_MAX_LINES DEFAULT_MAX_BYTES kept line).truncatedBy = .bytes } := by
  have hopen : (!s.firstLineExceedsLimit && !s.byteLimitReached && s.outputLines.length < DEFAULT_MAX_LINES) =
      decide (kept.truncatedBy = .lines ∧ kept.lines.length < DEFAULT_MAX_LINES) := by
    rw [hfirst, hreached, hlines]
    cases kept.truncatedBy <;> simp
  unfold StreamedLines.output headStep
  rw [hopen, hlines, hbytes]
  by_cases h : kept.truncatedBy = .lines ∧ kept.lines.length < DEFAULT_MAX_LINES
  · rw [decide_eq_true h, if_pos rfl, if_pos h]
    simp only
    by_cases hlong : kept.bytes + (byteLength line + if kept.lines.length > 0 then 1 else 0) > DEFAULT_MAX_BYTES
    · rw [if_neg (by omega), if_pos hlong]
      simp [← hlines, ← hbytes]
    · rw [if_pos (by omega), if_neg hlong]
      simp [hreached, h.1]
  · rw [decide_eq_false h, if_neg Bool.false_ne_true, if_neg h, ← hlines, ← hbytes, ← hreached]

theorem select_streamedOf (n : Nat) (lines : List (List Char)) (line : List Char) :
    (streamedOf n lines).select line = streamedOf n (lines ++ [line]) := by
  let first := (lines ++ [line]).headD []
  let kept : HeadLines := if byteLength first > DEFAULT_MAX_BYTES then {}
    else collectHead DEFAULT_MAX_LINES DEFAULT_MAX_BYTES lines {}
  -- the counters as they are before the line is put out
  let s : StreamedLines :=
    { totalFileLines := n, selectedLineCount := lines.length + 1
      selectedBytes := byteLength (joinLines (lines ++ [line])), outputBytes := kept.bytes
      firstSelectedLine := first, firstLineExceedsLimit := byteLength first > DEFAULT_MAX_BYTES
      byteLimitReached := kept.truncatedBy = .bytes, outputLines := kept.lines }
  have hselect : (streamedOf n lines).select line = s.output line := by
    unfold StreamedLines.select
    cases lines with
    | nil =>
      have hnil : collectHead DEFAULT_MAX_LINES DEFAULT_MAX_BYTES [] {} = {} := rfl
      simp [s, kept, first, streamedOf, joinLines, hnil]
    | cons head rest =>
      have hbytes := byteLength_joinLines_concat (head :: rest) line
      rw [if_pos (by simp), List.cons_append] at hbytes
      simp [s, kept, first, streamedOf, hbytes]
  rw [hselect]
  by_cases hlong : byteLength first > DEFAULT_MAX_BYTES
  · have hout : s.output line = s := by
      unfold StreamedLines.output
      simp [s, hlong]
    have hkept : kept = {} := if_pos hlong
    rw [hout]
    simp only [s, hkept, streamedOf, List.length_append, List.length_singleton]
    rw [if_pos hlong]
  · have hkept : kept = collectHead DEFAULT_MAX_LINES DEFAULT_MAX_BYTES lines {} := if_neg hlong
    rw [output_headStep s kept line (by simp [s, hlong]) rfl rfl rfl, hkept, ← collectHead_concat]
    simp only [s, streamedOf, List.length_append, List.length_singleton]
    rw [if_neg hlong]

/-- `lines.slice(startLine, startLine + limit)` -/
def selectLines {α : Type} (startLine : Nat) (limit : Option Nat) (lines : List α) : List α :=
  match limit with
  | none => lines.drop startLine
  | some limit => (lines.drop startLine).take limit

theorem selectLines_concat {α : Type} (startLine : Nat) (limit : Option Nat) (lines : List α)
    (line : α) :
    selectLines startLine limit (lines ++ [line]) =
      if lines.length < startLine ∨ limit.any (· ≤ (selectLines startLine limit lines).length) then
        selectLines startLine limit lines
      else selectLines startLine limit lines ++ [line] := by
  by_cases hstart : lines.length < startLine
  · have hnil : (lines ++ [line]).drop startLine = [] := by
      apply List.drop_eq_nil_of_le
      simpa [Nat.succ_le_iff] using hstart
    have hnil' : lines.drop startLine = [] := List.drop_eq_nil_of_le (by omega)
    rw [if_pos (.inl hstart)]
    cases limit <;> simp [selectLines, hnil, hnil']
  · have hdrop : (lines ++ [line]).drop startLine = lines.drop startLine ++ [line] :=
      List.drop_append_of_le_length (by omega)
    cases limit with
    | none => simp [selectLines, hstart, hdrop]
    | some limit =>
      simp only [selectLines, hstart, hdrop, false_or, Option.any_some, decide_eq_true_eq,
        List.length_take]
      by_cases hfull : limit ≤ (lines.drop startLine).length
      · rw [if_pos (by omega), List.take_append_of_le_length hfull]
      · rw [if_neg (by omega), List.take_append, List.take_of_length_le (by omega),
          List.take_of_length_le (by rw [List.length_singleton]; omega)]

/-- The counters after the lines of a file. -/
theorem streamed_spec (startLine : Nat) (limit : Option Nat) (lines : List (List Char)) :
    lines.foldl (StreamedLines.add startLine limit) {} =
      streamedOf lines.length (selectLines startLine limit lines) := by
  induction lines using List.reverseRecOn with
  | nil => cases limit <;> simp [selectLines, streamedOf, collectHead, joinLines]
  | append_singleton lines line ih =>
    rw [List.foldl_append, List.foldl_cons, List.foldl_nil, ih, selectLines_concat]
    have hadd : StreamedLines.add startLine limit
        (streamedOf lines.length (selectLines startLine limit lines)) line =
        if lines.length < startLine ∨ limit.any (· ≤ (selectLines startLine limit lines).length) then
          streamedOf (lines.length + 1) (selectLines startLine limit lines)
        else (streamedOf (lines.length + 1) (selectLines startLine limit lines)).select line := rfl
    rw [hadd, List.length_append, List.length_singleton]
    split
    · rfl
    · exact select_streamedOf _ _ _

/-! ## Truncating joined lines -/

theorem splitLinesForCounting_joinLines {lines : List (List Char)}
    (h : ∀ line ∈ lines, '\n' ∉ line) :
    splitLinesForCounting (joinLines lines) =
      if lines.getLast? = some [] then lines.dropLast else lines := by
  rcases List.eq_nil_or_concat' lines with rfl | ⟨front, line, rfl⟩
  · rfl
  · have hsplit : (joinLines (front ++ [line])).splitOn '\n' = front ++ [line] :=
      List.splitOn_intercalate '\n' h (by simp)
    rw [splitLinesForCounting_eq, linesBefore, lastLine, hsplit]
    by_cases hblank : line = []
    · simp [hblank]
    · simp [hblank]

theorem headD_byteLength_le (lines : List (List Char)) :
    byteLength (lines.headD []) ≤ byteLength (joinLines lines) := by
  cases lines with
  | nil => exact Nat.le_refl 0
  | cons line rest =>
    rw [byteLength_joinLines_cons, List.headD_cons]
    omega

theorem joinLines_eq_nil {lines : List (List Char)} (h : joinLines lines = []) :
    lines = [] ∨ lines = [[]] := by
  rcases List.eq_nil_or_concat' lines with rfl | ⟨front, line, rfl⟩
  · exact .inl rfl
  · rw [joinLines_concat] at h
    obtain ⟨hfront, hline⟩ := List.append_eq_nil_iff.mp h
    cases front with
    | nil =>
      rw [hline]
      exact .inr rfl
    | cons first rest => simp at hfront

section Kept
variable {maxLines maxBytes : Nat} (lines : List (List Char))

theorem collectHead_run :
    WithinLimits maxLines maxBytes (collectHead maxLines maxBytes lines {}).lines ∧
      Stopped maxLines maxBytes lines (collectHead maxLines maxBytes lines {}).lines
        (collectHead maxLines maxBytes lines {}).truncatedBy :=
  have hspec := @collectHead_spec maxLines maxBytes lines {} rfl rfl ⟨Nat.zero_le _, Nat.zero_le _⟩
  ⟨hspec.2.1, hspec.2.2⟩

theorem collectHead_bytes :
    (collectHead maxLines maxBytes lines {}).bytes =
      byteLength (joinLines (collectHead maxLines maxBytes lines {}).lines) :=
  (@collectHead_spec maxLines maxBytes lines {} rfl rfl ⟨Nat.zero_le _, Nat.zero_le _⟩).1

variable {lines}

theorem collectHead_all (h : WithinLimits maxLines maxBytes lines) :
    (collectHead maxLines maxBytes lines {}).lines = lines ∧
      (collectHead maxLines maxBytes lines {}).truncatedBy = .lines := by
  obtain ⟨hwithin, hstopped⟩ := @collectHead_run maxLines maxBytes lines
  have hall := (hstopped.longest hwithin).unique (LongestRun.of_all h)
  refine ⟨hall, ?_⟩
  cases hby : (collectHead maxLines maxBytes lines {}).truncatedBy with
  | lines => rfl
  | bytes =>
    rw [hby, hall] at hstopped
    cases hstopped with
    | bytes heq => simp at heq

theorem truncateHead_kept {content : List Char} (hnot : ¬ Fits maxLines maxBytes content)
    (hfirst : ¬ byteLength ((splitLinesForCounting content).headD []) > maxBytes) :
    let kept := collectHead maxLines maxBytes (splitLinesForCounting content) {}
    let r := truncateHead content maxLines maxBytes
    r.content = joinLines kept.lines ∧ r.truncated = true ∧ r.truncatedBy = some kept.truncatedBy ∧
      r.outputLines = kept.lines.length ∧ r.firstLineExceedsLimit = false := by
  intro kept r
  have hr : r = { content := joinLines kept.lines, truncated := true
                  truncatedBy := some (if kept.lines.length ≥ maxLines ∧ kept.bytes ≤ maxBytes then .lines
                    else kept.truncatedBy)
                  totalLines := (splitLinesForCounting content).length, totalBytes := byteLength content
                  outputLines := kept.lines.length, outputBytes := byteLength (joinLines kept.lines)
                  lastLinePartial := false, firstLineExceedsLimit := false, maxLines, maxBytes } := by
    show truncateHead content maxLines maxBytes = _
    unfold Fits at hnot
    unfold truncateHead
    simp only
    rw [if_neg hnot, if_neg hfirst]
  have hby : (if kept.lines.length ≥ maxLines ∧ kept.bytes ≤ maxBytes then .lines else kept.truncatedBy) =
      kept.truncatedBy := by
    split
    · rename_i hfull
      cases hkept : kept.truncatedBy with
      | lines => rfl
      | bytes =>
        exact absurd hfull.1 (Nat.not_le_of_lt (collectHead_bytes_lt _ hkept))
    · rfl
  rw [hr, hby]
  exact ⟨rfl, rfl, rfl, rfl, rfl⟩

end Kept

/-! ## The two truncations -/

/-- The truncation of the selected lines as they come. -/
def streamedTruncation (lines : List (List Char)) : TruncationResult :=
  let s := streamedOf 0 lines
  createStreamedTruncation s.outputLines s.selectedLineCount s.selectedBytes s.firstLineExceedsLimit
    s.byteLimitReached

theorem streamedOf_truncation (n : Nat) (lines : List (List Char)) :
    createStreamedTruncation (streamedOf n lines).outputLines (streamedOf n lines).selectedLineCount
      (streamedOf n lines).selectedBytes (streamedOf n lines).firstLineExceedsLimit
      (streamedOf n lines).byteLimitReached = streamedTruncation lines := rfl

/-- The truncation of the selected lines as one text. -/
def bufferedTruncation (lines : List (List Char)) : TruncationResult :=
  truncateHead (joinLines lines) DEFAULT_MAX_LINES DEFAULT_MAX_BYTES

/-- What the lines kept of a selection are. -/
def keptLines (lines : List (List Char)) : HeadLines :=
  collectHead DEFAULT_MAX_LINES DEFAULT_MAX_BYTES lines {}

/-- A blank line ends the selection, and is one line too many, or one byte. -/
def BlankAtLimit (lines : List (List Char)) : Prop :=
  lines.getLast? = some [] ∧
    (lines.length = DEFAULT_MAX_LINES + 1 ∧ byteLength (joinLines lines) ≤ DEFAULT_MAX_BYTES ∨
      lines.length ≤ DEFAULT_MAX_LINES ∧ byteLength (joinLines lines) = DEFAULT_MAX_BYTES + 1)

/-- What two truncations share where the texts made of them are one. -/
structure SameShown (t t' : TruncationResult) : Prop where
  first : t.firstLineExceedsLimit = t'.firstLineExceedsLimit
  truncated : t.firstLineExceedsLimit = false → t.truncated = t'.truncated
  content : t.firstLineExceedsLimit = false → t.content = t'.content
  notice : t.firstLineExceedsLimit = false → t.truncated = true →
    t.outputLines = t'.outputLines ∧ t.truncatedBy = t'.truncatedBy

section Selected
variable {lines : List (List Char)}

theorem streamedTruncation_nil (h : joinLines lines = []) :
    streamedTruncation lines = { content := [], truncated := false, truncatedBy := none, totalLines := 0
                                 totalBytes := 0, outputLines := 0, outputBytes := 0
                                 lastLinePartial := false, firstLineExceedsLimit := false
                                 maxLines := DEFAULT_MAX_LINES, maxBytes := DEFAULT_MAX_BYTES } := by
  rcases joinLines_eq_nil h with rfl | rfl
  · simp [streamedTruncation, streamedOf, createStreamedTruncation]
  · simp [streamedTruncation, streamedOf, createStreamedTruncation, joinLines]

theorem streamedTruncation_kept (h : joinLines lines ≠ [])
    (hfirst : ¬ byteLength (lines.headD []) > DEFAULT_MAX_BYTES) :
    (streamedTruncation lines).content = joinLines (keptLines lines).lines ∧
      (streamedTruncation lines).outputLines = (keptLines lines).lines.length ∧
      (streamedTruncation lines).firstLineExceedsLimit = false ∧
      ((streamedTruncation lines).truncated = true ↔
        ¬ WithinLimits DEFAULT_MAX_LINES DEFAULT_MAX_BYTES lines) ∧
      ((streamedTruncation lines).truncated = true →
        (streamedTruncation lines).truncatedBy = some (keptLines lines).truncatedBy) := by
  have hcount : ¬ (lines.length = 0 ∨ lines.length = 1 ∧ byteLength (joinLines lines) = 0) := by
    intro hempty
    apply h
    rcases hempty with hnil | ⟨-, hbytes⟩
    · rw [List.length_eq_zero_iff.mp hnil]
      rfl
    · exact byteLength_eq_zero.mp hbytes
  have heq : streamedTruncation lines =
      createStreamedTruncation (keptLines lines).lines lines.length (byteLength (joinLines lines)) false
        (decide ((keptLines lines).truncatedBy = .bytes)) := by
    unfold streamedTruncation streamedOf
    simp only [if_neg hfirst, decide_eq_false hfirst]
    rfl
  rw [heq]
  unfold createStreamedTruncation
  simp only [if_neg hcount, Bool.false_or]
  refine ⟨trivial, trivial, trivial, ?_, ?_⟩
  · unfold WithinLimits
    simp only [Bool.or_eq_true, decide_eq_true_eq]
    omega
  · intro htruncated
    rw [if_pos htruncated]
    cases (keptLines lines).truncatedBy <;> rfl

theorem headD_split (hlines : ∀ line ∈ lines, '\n' ∉ line) (h : joinLines lines ≠ []) :
    (splitLinesForCounting (joinLines lines)).headD [] = lines.headD [] := by
  rw [splitLinesForCounting_joinLines hlines]
  by_cases hlast : lines.getLast? = some []
  · rw [if_pos hlast]
    rcases List.eq_nil_or_concat' lines with rfl | ⟨front, line, rfl⟩
    · rfl
    · cases front with
      | nil =>
        have hline : line = [] := by simpa using hlast
        rw [hline] at h
        exact absurd rfl h
      | cons first rest =>
        rw [List.dropLast_concat]
        rfl
  · rw [if_neg hlast]

theorem truncations_long (hlines : ∀ line ∈ lines, '\n' ∉ line)
    (hfirst : byteLength (lines.headD []) > DEFAULT_MAX_BYTES) :
    (streamedTruncation lines).firstLineExceedsLimit = true ∧
      (bufferedTruncation lines).firstLineExceedsLimit = true := by
  have hbytes := headD_byteLength_le lines
  have hne : joinLines lines ≠ [] := by
    intro h
    rw [h] at hbytes
    have hzero : byteLength [] = 0 := rfl
    omega
  refine ⟨decide_eq_true hfirst, ?_⟩
  unfold bufferedTruncation truncateHead
  simp only
  rw [headD_split hlines hne, if_neg (by omega), if_pos hfirst]

theorem bufferedTruncation_kept (hlines : ∀ line ∈ lines, '\n' ∉ line) (h : joinLines lines ≠ [])
    (hfirst : ¬ byteLength (lines.headD []) > DEFAULT_MAX_BYTES)
    (hnot : ¬ Fits DEFAULT_MAX_LINES DEFAULT_MAX_BYTES (joinLines lines)) :
    let kept := keptLines (if lines.getLast? = some [] then lines.dropLast else lines)
    (bufferedTruncation lines).content = joinLines kept.lines ∧
      (bufferedTruncation lines).truncated = true ∧
      (bufferedTruncation lines).truncatedBy = some kept.truncatedBy ∧
      (bufferedTruncation lines).outputLines = kept.lines.length ∧
      (bufferedTruncation lines).firstLineExceedsLimit = false := by
  have hkept := truncateHead_kept hnot (by rw [headD_split hlines h]; exact hfirst)
  rw [splitLinesForCounting_joinLines hlines] at hkept
  exact hkept

theorem bufferedTruncation_fits
    (hfits : Fits DEFAULT_MAX_LINES DEFAULT_MAX_BYTES (joinLines lines)) :
    (bufferedTruncation lines).content = joinLines lines ∧ (bufferedTruncation lines).truncated = false ∧
      (bufferedTruncation lines).firstLineExceedsLimit = false := by
  unfold Fits at hfits
  unfold bufferedTruncation truncateHead
  simp only
  rw [if_pos hfits]
  exact ⟨rfl, rfl, rfl⟩

theorem keptLines_dropLast {front : List (List Char)}
    (hnot : ¬ (front.length ≤ DEFAULT_MAX_LINES ∧ byteLength (joinLines (front ++ [[]])) ≤ DEFAULT_MAX_BYTES))
    (hblank : ¬ BlankAtLimit (front ++ [[]])) (hne : front ≠ []) :
    keptLines (front ++ [[]]) = keptLines front := by
  have hpos : front.length > 0 := List.length_pos_of_ne_nil hne
  have hbytes := byteLength_joinLines_concat front []
  rw [if_pos hpos, show byteLength [] = 0 from rfl] at hbytes
  unfold keptLines
  rw [collectHead_concat]
  apply if_neg
  rintro ⟨hby, hfew⟩
  obtain ⟨hwithin, hstopped⟩ := @collectHead_run DEFAULT_MAX_LINES DEFAULT_MAX_BYTES front
  rcases hstopped.reason_lines hby with hall | hfull
  · rw [hall] at hwithin hfew
    have hle := hwithin.2
    apply hblank
    refine ⟨by simp, .inr ⟨?_, ?_⟩⟩
    · simpa [Nat.succ_le_iff] using hfew
    · have hge : ¬ byteLength (joinLines (front ++ [[]])) ≤ DEFAULT_MAX_BYTES :=
        fun h => hnot ⟨hwithin.1, h⟩
      omega
  · omega

theorem sameShown_of_kept (hlines : ∀ line ∈ lines, '\n' ∉ line) (hne : joinLines lines ≠ [])
    (hfirst : ¬ byteLength (lines.headD []) > DEFAULT_MAX_BYTES)
    (hfits : Fits DEFAULT_MAX_LINES DEFAULT_MAX_BYTES (joinLines lines) ↔
      WithinLimits DEFAULT_MAX_LINES DEFAULT_MAX_BYTES lines)
    (hkept : ¬ Fits DEFAULT_MAX_LINES DEFAULT_MAX_BYTES (joinLines lines) →
      keptLines lines = keptLines (if lines.getLast? = some [] then lines.dropLast else lines)) :
    SameShown (streamedTruncation lines) (bufferedTruncation lines) := by
  obtain ⟨hcontent, houtput, hexceeds, htruncated, hby⟩ := streamedTruncation_kept hne hfirst
  by_cases h : Fits DEFAULT_MAX_LINES DEFAULT_MAX_BYTES (joinLines lines)
  · obtain ⟨hcontent', htruncated', hexceeds'⟩ := bufferedTruncation_fits h
    have hwithin := hfits.mp h
    have hwhole : (streamedTruncation lines).truncated = false := by
      rw [Bool.eq_false_iff]
      exact fun ht => htruncated.mp ht hwithin
    refine ⟨hexceeds.trans hexceeds'.symm, fun _ => hwhole.trans htruncated'.symm, ?_, ?_⟩
    · intro _
      rw [hcontent, hcontent', keptLines, (collectHead_all hwithin).1]
    · intro _ ht
      rw [hwhole] at ht
      cases ht
  · obtain ⟨hcontent', htruncated', hby', houtput', hexceeds'⟩ :=
      bufferedTruncation_kept hlines hne hfirst h
    rw [← hkept h] at hcontent' hby' houtput'
    have hcut : (streamedTruncation lines).truncated = true :=
      htruncated.mpr fun hw => h (hfits.mpr hw)
    exact ⟨hexceeds.trans hexceeds'.symm, fun _ => hcut.trans htruncated'.symm,
      fun _ => hcontent.trans hcontent'.symm,
      fun _ _ => ⟨houtput.trans houtput'.symm, (hby hcut).trans hby'.symm⟩⟩

theorem sameShown_of_not_blank (hlines : ∀ line ∈ lines, '\n' ∉ line)
    (hblank : ¬ BlankAtLimit lines) :
    SameShown (streamedTruncation lines) (bufferedTruncation lines) := by
  by_cases hnil : joinLines lines = []
  · have hfits : Fits DEFAULT_MAX_LINES DEFAULT_MAX_BYTES (joinLines lines) := by
      rw [hnil]
      exact ⟨Nat.zero_le _, Nat.zero_le _⟩
    obtain ⟨hcontent', htruncated', hexceeds'⟩ := bufferedTruncation_fits hfits
    rw [hnil] at hcontent'
    rw [streamedTruncation_nil hnil]
    exact ⟨hexceeds'.symm, fun _ => htruncated'.symm, fun _ => hcontent'.symm, nofun⟩
  by_cases hfirst : byteLength (lines.headD []) > DEFAULT_MAX_BYTES
  · obtain ⟨h, h'⟩ := truncations_long hlines hfirst
    refine ⟨h.trans h'.symm, ?_, ?_, ?_⟩
    all_goals
      intro hno
      rw [h] at hno
      cases hno
  by_cases hlast : lines.getLast? = some []
  · obtain ⟨front, rfl⟩ : ∃ front, lines = front ++ [[]] := by
      rcases List.eq_nil_or_concat' lines with rfl | ⟨front, line, rfl⟩
      · cases hlast
      · exact ⟨front, by rw [List.getLast?_concat, Option.some.injEq] at hlast; rw [hlast]⟩
    have hfront : front ≠ [] := by
      rintro rfl
      exact hnil rfl
    have hcounted : Fits DEFAULT_MAX_LINES DEFAULT_MAX_BYTES (joinLines (front ++ [[]])) ↔
        front.length ≤ DEFAULT_MAX_LINES ∧ byteLength (joinLines (front ++ [[]])) ≤ DEFAULT_MAX_BYTES := by
      unfold Fits
      rw [splitLinesForCounting_joinLines hlines, if_pos hlast, List.dropLast_concat]
    apply sameShown_of_kept hlines hnil hfirst
    · rw [hcounted]
      unfold WithinLimits
      rw [List.length_append, List.length_singleton]
      constructor
      · intro h
        -- one line too many is excluded
        refine ⟨?_, h.2⟩
        by_contra hmany
        exact hblank ⟨hlast, .inl ⟨by rw [List.length_append, List.length_singleton]; omega, h.2⟩⟩
      · intro h
        exact ⟨by omega, h.2⟩
    · intro hnot
      rw [hcounted] at hnot
      rw [if_pos hlast, List.dropLast_concat]
      exact keptLines_dropLast hnot hblank hfront
  · apply sameShown_of_kept hlines hnil hfirst
    · unfold Fits WithinLimits
      rw [splitLinesForCounting_joinLines hlines, if_neg hlast]
    · intro _
      rw [if_neg hlast]

/-- A blank line behind other lines. -/
structure BlankEnd (lines front : List (List Char)) : Prop where
  eq : lines = front ++ [[]]
  ne : front ≠ []
  noNewline : ∀ line ∈ lines, '\n' ∉ line
  front_le : byteLength (joinLines front) ≤ DEFAULT_MAX_BYTES

theorem BlankAtLimit.blankEnd (h : BlankAtLimit lines) (hlines : ∀ line ∈ lines, '\n' ∉ line) :
    ∃ front, BlankEnd lines front := by
  obtain ⟨hlast, hlimit⟩ := h
  rcases List.eq_nil_or_concat' lines with rfl | ⟨front, line, rfl⟩
  · cases hlast
  · rw [List.getLast?_concat, Option.some.injEq] at hlast
    subst hlast
    have hbytes := byteLength_joinLines_concat front []
    have hzero : byteLength [] = 0 := rfl
    have hdefault := default_lines
    refine ⟨front, rfl, ?_, hlines, ?_⟩
    · rintro rfl
      rcases hlimit with ⟨hlength, -⟩ | ⟨-, hover⟩
      · simp at hlength
        omega
      · rw [hbytes] at hover
        simp [joinLines, hzero] at hover
    · rcases hlimit with ⟨-, hle⟩ | ⟨-, hover⟩
      · omega
      · by_cases hpos : front.length > 0
        · rw [if_pos hpos] at hbytes
          omega
        · have hnil : front = [] := List.length_eq_zero_iff.mp (by omega)
          rw [hnil]
          exact Nat.zero_le _

namespace BlankEnd
variable {front : List (List Char)}

theorem byteLength (h : BlankEnd lines front) :
    Lib.byteLength (joinLines lines) = Lib.byteLength (joinLines front) + 1 := by
  rw [h.eq, byteLength_joinLines_concat, if_pos (List.length_pos_of_ne_nil h.ne)]
  rfl

theorem length (h : BlankEnd lines front) : lines.length = front.length + 1 := by
  rw [h.eq, List.length_append, List.length_singleton]

theorem joined (h : BlankEnd lines front) : joinLines lines = joinLines front ++ ['\n'] := by
  rw [h.eq]
  rcases List.eq_nil_or_concat' front with hnil | ⟨init, line, hfront⟩
  · exact absurd hnil h.ne
  · rw [hfront, joinLines_concat, joinLines_concat, List.flatMap_append]
    simp

theorem joined_ne (h : BlankEnd lines front) : joinLines lines ≠ [] := by
  rw [h.joined]
  simp

theorem front_joined_ne (_h : BlankEnd lines front) (hmany : 2 ≤ front.length) :
    joinLines front ≠ [] := by
  intro hnil
  rcases joinLines_eq_nil hnil with rfl | rfl
  · simp at hmany
  · simp at hmany

theorem first (h : BlankEnd lines front) :
    ¬ Lib.byteLength (lines.headD []) > DEFAULT_MAX_BYTES := by
  have hhead : lines.headD [] = front.headD [] := by
    rw [h.eq]
    cases hfront : front with
    | nil => exact absurd hfront h.ne
    | cons line rest => rfl
  have hle := headD_byteLength_le front
  have hfront := h.front_le
  rw [hhead]
  omega

theorem last (h : BlankEnd lines front) : lines.getLast? = some [] := by
  rw [h.eq, List.getLast?_concat]

theorem kept_front (h : BlankEnd lines front) (hlength : front.length ≤ DEFAULT_MAX_LINES) :
    (keptLines front).lines = front ∧ (keptLines front).truncatedBy = .lines :=
  collectHead_all ⟨hlength, h.front_le⟩

theorem kept (h : BlankEnd lines front) :
    keptLines lines = headStep DEFAULT_MAX_LINES DEFAULT_MAX_BYTES (keptLines front) [] := by
  rw [h.eq]
  exact collectHead_concat front []

theorem over_lines (h : BlankEnd lines front) (hlength : front.length = DEFAULT_MAX_LINES)
    (hbytes : Lib.byteLength (joinLines lines) ≤ DEFAULT_MAX_BYTES) :
    ((streamedTruncation lines).firstLineExceedsLimit = false ∧ (streamedTruncation lines).truncated = true ∧
        (streamedTruncation lines).content = joinLines front ∧
        (streamedTruncation lines).truncatedBy = some .lines) ∧
      (bufferedTruncation lines).firstLineExceedsLimit = false ∧
      (bufferedTruncation lines).truncated = false ∧
      (bufferedTruncation lines).content = joinLines front ++ ['\n'] := by
  obtain ⟨hall, hby⟩ := h.kept_front (Nat.le_of_eq hlength)
  have hkept : keptLines lines = keptLines front := by
    rw [h.kept]
    apply if_neg
    intro hopen
    rw [hall] at hopen
    omega
  obtain ⟨hcontent, -, hexceeds, htruncated, hreason⟩ := streamedTruncation_kept h.joined_ne h.first
  have hcut : (streamedTruncation lines).truncated = true := by
    apply htruncated.mpr
    intro hwithin
    have hle := hwithin.1
    rw [h.length] at hle
    omega
  have hfits : Fits DEFAULT_MAX_LINES DEFAULT_MAX_BYTES (joinLines lines) := by
    refine ⟨?_, hbytes⟩
    rw [splitLinesForCounting_joinLines h.noNewline, if_pos h.last, h.eq, List.dropLast_concat]
    omega
  obtain ⟨hcontent', htruncated', hexceeds'⟩ := bufferedTruncation_fits hfits
  refine ⟨⟨hexceeds, hcut, ?_, ?_⟩, hexceeds', htruncated', hcontent'.trans h.joined⟩
  · rw [hcontent, hkept, hall]
  · rw [hreason hcut, hkept, hby]

theorem over_bytes (h : BlankEnd lines front) (hlength : lines.length ≤ DEFAULT_MAX_LINES)
    (hbytes : Lib.byteLength (joinLines lines) = DEFAULT_MAX_BYTES + 1) :
    ((streamedTruncation lines).firstLineExceedsLimit = false ∧ (streamedTruncation lines).truncated = true ∧
        (streamedTruncation lines).content = joinLines front ∧
        (streamedTruncation lines).truncatedBy = some .bytes ∧
        (streamedTruncation lines).outputLines = front.length) ∧
      (bufferedTruncation lines).firstLineExceedsLimit = false ∧
      (bufferedTruncation lines).truncated = true ∧
      (bufferedTruncation lines).content = joinLines front ∧
      (bufferedTruncation lines).truncatedBy = some .lines ∧
      (bufferedTruncation lines).outputLines = front.length := by
  have hcount := h.length
  have hsize := h.byteLength
  have hpos : front.length > 0 := List.length_pos_of_ne_nil h.ne
  obtain ⟨hall, hby⟩ := h.kept_front (by omega)
  have hfull : (keptLines front).bytes = DEFAULT_MAX_BYTES := by
    have hkept : (keptLines front).bytes = Lib.byteLength (joinLines (keptLines front).lines) :=
      collectHead_bytes front
    rw [hkept, hall]
    omega
  have hkept : keptLines lines = { keptLines front with truncatedBy := .bytes } := by
    rw [h.kept, headStep, if_pos ⟨hby, by rw [hall]; omega⟩]
    simp only
    rw [if_pos]
    rw [hall, if_pos hpos, hfull]
    omega
  obtain ⟨hcontent, houtput, hexceeds, htruncated, hreason⟩ :=
    streamedTruncation_kept h.joined_ne h.first
  have hcut : (streamedTruncation lines).truncated = true := by
    apply htruncated.mpr
    intro hwithin
    have hle := hwithin.2
    omega
  have hnot : ¬ Fits DEFAULT_MAX_LINES DEFAULT_MAX_BYTES (joinLines lines) := by
    intro hfits
    have hle := hfits.2
    omega
  have hbuffered := bufferedTruncation_kept h.noNewline h.joined_ne h.first hnot
  rw [if_pos h.last, h.eq, List.dropLast_concat, ← h.eq] at hbuffered
  obtain ⟨hcontent', htruncated', hby', houtput', hexceeds'⟩ := hbuffered
  rw [hall] at hcontent' houtput'
  rw [hby] at hby'
  refine ⟨⟨hexceeds, hcut, ?_, ?_, ?_⟩, hexceeds', htruncated', hcontent', hby', houtput'⟩
  · rw [hcontent, hkept, hall]
  · rw [hreason hcut, hkept]
  · rw [houtput, hkept, hall]

end BlankEnd

end Selected

/-! ## The texts -/

/-- Two selections of one part of a file. -/
structure SamePlace (s s' : TextReadSelection) : Prop where
  totalFileLines : s.totalFileLines = s'.totalFileLines
  startLine : s.startLine = s'.startLine
  startLineDisplay : s.startLineDisplay = s'.startLineDisplay
  userLimitedLines : s.userLimitedLines = s'.userLimitedLines

section Format
variable {inputPath : String} {s s' : TextReadSelection} {t t' : TruncationResult}

theorem format_long (h : t.firstLineExceedsLimit = true) :
    formatTextReadSelection inputPath s (some t) = longLineText inputPath s := if_pos h

theorem format_truncated (h : t.firstLineExceedsLimit = false) (htruncated : t.truncated = true) :
    formatTextReadSelection inputPath s (some t) = truncatedText s t := by
  unfold formatTextReadSelection
  rw [Option.getD_some]
  simp only [h, htruncated, Bool.false_eq_true, if_false, if_true]

theorem format_whole (h : t.firstLineExceedsLimit = false) (htruncated : t.truncated = false) :
    formatTextReadSelection inputPath s (some t) = wholeText s t.content := by
  unfold formatTextReadSelection
  rw [Option.getD_some]
  simp only [h, htruncated, Bool.false_eq_true, if_false]

theorem format_same (hplace : SamePlace s s') (hshown : SameShown t t')
    (hfirst : t.firstLineExceedsLimit = true → s.firstSelectedLine = s'.firstSelectedLine) :
    formatTextReadSelection inputPath s (some t) = formatTextReadSelection inputPath s' (some t') := by
  cases hexceeds : t.firstLineExceedsLimit with
  | true =>
    rw [format_long hexceeds, format_long (hshown.first ▸ hexceeds)]
    unfold longLineText
    rw [hplace.startLineDisplay, hfirst hexceeds]
  | false =>
    have hexceeds' := hshown.first ▸ hexceeds
    cases htruncated : t.truncated with
    | false =>
      rw [format_whole hexceeds htruncated,
        format_whole hexceeds' (hshown.truncated hexceeds ▸ htruncated)]
      unfold wholeText
      rw [hplace.userLimitedLines, hplace.startLine, hplace.totalFileLines, hshown.content hexceeds]
    | true =>
      obtain ⟨houtput, hby⟩ := hshown.notice hexceeds htruncated
      rw [format_truncated hexceeds htruncated,
        format_truncated hexceeds' (hshown.truncated hexceeds ▸ htruncated)]
      unfold truncatedText
      rw [hplace.startLineDisplay, hplace.totalFileLines, hshown.content hexceeds, houtput, hby]

end Format

theorem showingLines_eq (startLine endLine total : Nat) :
    ∃ shown rest : List Char, ∀ limit : String,
      (showingLines startLine endLine total limit).toList = '[' :: shown ++ (limit.toList ++ '.' :: rest) := by
  have hopen : "[Showing lines ".toList = '[' :: "Showing lines ".toList := by decide
  have huse : ". Use offset=".toList = '.' :: " Use offset=".toList := by decide
  refine ⟨"Showing lines ".toList ++ (toString startLine).toList ++ "-".toList ++
    (toString endLine).toList ++ " of ".toList ++ (toString total).toList,
    " Use offset=".toList ++ (toString (endLine + 1)).toList ++ " to continue.]".toList, ?_⟩
  intro limit
  unfold showingLines
  rw [String.toList_append, String.toList_append, String.toList_append, String.toList_append,
    String.toList_append, String.toList_append, String.toList_append, String.toList_append,
    String.toList_append, hopen, huse]
  generalize "Showing lines ".toList = a
  generalize " Use offset=".toList = b
  generalize " to continue.]".toList = c
  simp

theorem moreLines_eq (remaining nextOffset : Nat) :
    ∃ rest, (moreLines remaining nextOffset).toList = '[' :: rest := by
  have hopen : "[".toList = ['['] := by decide
  unfold moreLines
  rw [String.toList_append, String.toList_append, String.toList_append, String.toList_append, hopen]
  exact ⟨_, rfl⟩

theorem bytesLimit_eq : ∃ rest, bytesLimit.toList = ' ' :: rest := by
  have hopen : " (".toList = [' ', '('] := by decide
  refine ⟨'(' :: (formatSize DEFAULT_MAX_BYTES ++ " limit)").toList, ?_⟩
  simp only [bytesLimit, String.toList_append, hopen, List.cons_append, List.nil_append]

theorem withNotice_ne {content : List Char} (h : content ≠ []) (notice : String) :
    withNotice content notice = content ++ '\n' :: '\n' :: notice.toList := if_neg h

theorem format_differs {inputPath : String} {s s' : TextReadSelection} {lines : List (List Char)}
    (hplace : SamePlace s s') (hlines : ∀ line ∈ lines, '\n' ∉ line) (hblank : BlankAtLimit lines) :
    formatTextReadSelection inputPath s (some (streamedTruncation lines)) ≠
      formatTextReadSelection inputPath s' (some (bufferedTruncation lines)) := by
  obtain ⟨front, hend⟩ := hblank.blankEnd hlines
  have hcount := hend.length
  have hdefault := default_lines
  rcases hblank.2 with ⟨hlength, hbytes⟩ | ⟨hlength, hbytes⟩
  · -- the streamed text has a notice where the other one has its newline
    obtain ⟨⟨hexceeds, htruncated, hcontent, hby⟩, hexceeds', htruncated', hcontent'⟩ :=
      hend.over_lines (by omega) hbytes
    rw [format_truncated hexceeds htruncated, format_whole hexceeds' htruncated']
    unfold truncatedText wholeText
    rw [hcontent, hby, if_pos rfl, hcontent', withNotice_ne (hend.front_joined_ne (by omega))]
    obtain ⟨shown, rest, hshown⟩ := showingLines_eq s.startLineDisplay
      (s.startLineDisplay + (streamedTruncation lines).outputLines - 1) s.totalFileLines
    have hplain : joinLines front ++ '\n' :: '\n' :: (showingLines s.startLineDisplay
        (s.startLineDisplay + (streamedTruncation lines).outputLines - 1) s.totalFileLines "").toList ≠
        joinLines front ++ ['\n'] := by
      intro heq
      cases List.append_cancel_left heq
    cases s'.userLimitedLines with
    | none => exact hplain
    | some userLimitedLines =>
      simp only
      split
      · rename_i hmore
        rw [withNotice_ne (by simp)]
        obtain ⟨rest', hrest'⟩ := moreLines_eq
          (s'.totalFileLines - (s'.startLine + userLimitedLines)) (s'.startLine + userLimitedLines + 1)
        rw [hshown, hrest', List.append_assoc]
        intro heq
        have hnotice := List.append_cancel_left heq
        simp at hnotice
      · exact hplain
  · -- the notices name different limits
    obtain ⟨⟨hexceeds, htruncated, hcontent, hby, houtput⟩, hexceeds', htruncated', hcontent', hby', houtput'⟩ :=
      hend.over_bytes hlength hbytes
    have hne : joinLines front ≠ [] := by
      intro hnil
      have hsize := hend.byteLength
      rw [hnil, hbytes] at hsize
      have hzero : byteLength [] = 0 := rfl
      have hmax : DEFAULT_MAX_BYTES ≠ 0 := by decide
      omega
    rw [format_truncated hexceeds htruncated, format_truncated hexceeds' htruncated']
    unfold truncatedText
    rw [hcontent, hby, hcontent', hby', houtput, houtput', if_pos rfl, if_neg (by decide),
      withNotice_ne hne, withNotice_ne hne, ← hplace.startLineDisplay, ← hplace.totalFileLines]
    obtain ⟨shown, rest, hshown⟩ := showingLines_eq s.startLineDisplay
      (s.startLineDisplay + front.length - 1) s.totalFileLines
    obtain ⟨limitRest, hlimit⟩ := bytesLimit_eq
    rw [hshown, hshown, hlimit]
    intro heq
    have hnotice := List.append_cancel_left heq
    simp only [List.cons_append, List.cons.injEq, true_and] at hnotice
    have hlimits := List.append_cancel_left hnotice
    simp at hlimits

/-! ## The lines of a file -/

/-- The lines that are asked for. -/
def selectedLines (textContent : String) (offset limit : Option Nat) : List (List Char) :=
  selectLines (offset.getD 0 - 1) limit ((displayedLines textContent).map String.toList)

theorem splitOn_dropLast {text : List Char} (h : text.getLast? = some '\n') :
    text.dropLast.splitOn '\n' = (text.splitOn '\n').dropLast := by
  rcases List.eq_nil_or_concat' text with rfl | ⟨front, c, rfl⟩
  · cases h
  · rw [List.getLast?_concat, Option.some.injEq] at h
    have hnil : ([] : List Char).splitOn '\n' = [[]] := rfl
    rw [h, List.dropLast_concat, List.splitOn_append_cons_self, hnil, List.dropLast_concat]

theorem displayedLines_emitted (textContent : String) :
    (displayedLines textContent).map String.toList =
      if normalizeSnapshotText textContent = "" then [[]] else emittedLines textContent := by
  unfold displayedLines splitDisplayLines emittedLines splitLinesForCounting
  generalize normalizeSnapshotText textContent = text
  by_cases hempty : text = ""
  · rw [if_pos hempty, if_pos hempty]
    rfl
  · have hne : text.toList.isEmpty = false := by
      rw [List.isEmpty_eq_false_iff]
      exact fun h => hempty (String.toList_inj.mp h)
    rw [if_neg hempty, if_neg hempty, map_toList_splitLines, hne, if_neg Bool.false_ne_true,
      withoutFinalNewline]
    by_cases hlast : text.toList.getLast? = some '\n'
    · simp only [hlast, if_true, String.toList_ofList]
      exact splitOn_dropLast hlast
    · simp only [hlast, if_false]

theorem join_newline (parts : List String) :
    join "\n" parts = String.ofList (joinLines (parts.map String.toList)) := by
  rw [← String.toList_inj, String.toList_ofList, join, String.toList_intercalate]
  rfl

theorem map_selectLines {α β : Type} (f : α → β) (startLine : Nat) (limit : Option Nat)
    (lines : List α) :
    selectLines startLine limit (lines.map f) = (selectLines startLine limit lines).map f := by
  cases limit with
  | none => simp [selectLines]
  | some limit => simp [selectLines, List.map_take, List.map_drop]

theorem slice_selectLines {α : Type} (lines : List α) (startLine limit : Nat) :
    slice lines startLine (min (startLine + limit) lines.length) = selectLines startLine (some limit) lines := by
  unfold slice selectLines
  rw [List.drop_take]
  apply List.take_eq_take_iff.mpr
  rw [List.length_drop]
  omega

/-- The place of a selection in its file. -/
def selectionAt (textContent : String) (offset limit : Option Nat)
    (selectedContent firstSelectedLine : String) :
    TextReadSelection :=
  { selectedContent, totalFileLines := (displayedLines textContent).length, startLine := offset.getD 0 - 1
    startLineDisplay := offset.getD 0 - 1 + 1, firstSelectedLine
    userLimitedLines := limit.map fun limit =>
      min limit ((displayedLines textContent).length - (offset.getD 0 - 1)) }

@[simp] theorem selectionAt_first (textContent : String) (offset limit : Option Nat)
    (content first : String) :
    (selectionAt textContent offset limit content first).firstSelectedLine = first := rfl

@[simp] theorem selectionAt_total (textContent : String) (offset limit : Option Nat)
    (content first : String) :
    (selectionAt textContent offset limit content first).totalFileLines = (displayedLines textContent).length :=
  rfl

theorem samePlace_selectionAt (textContent : String) (offset limit : Option Nat)
    (content content' : String)
    (first first' : String) :
    SamePlace (selectionAt textContent offset limit content first)
      (selectionAt textContent offset limit content' first') := ⟨rfl, rfl, rfl, rfl⟩

theorem selectText_eq (textContent : String) (offset limit : Option Nat) :
    selectText textContent offset limit =
      if (displayedLines textContent).length ≤ offset.getD 0 - 1 then
        .error (offsetBeyondEnd (offset.getD 0) (displayedLines textContent).length)
      else .ok (selectionAt textContent offset limit
        (String.ofList (joinLines (selectedLines textContent offset limit)))
        ((displayedLines textContent).getD (offset.getD 0 - 1) "")) := by
  have hdisplayed : splitDisplayLines (normalizeSnapshotText textContent) =
      displayedLines textContent := rfl
  unfold selectText selectedLines selectionAt
  simp only [hdisplayed, map_selectLines, ← join_newline]
  by_cases hbeyond : (displayedLines textContent).length ≤ offset.getD 0 - 1
  · rw [if_pos hbeyond, if_pos hbeyond]
  · rw [if_neg hbeyond, if_neg hbeyond]
    cases limit with
    | none => rfl
    | some limit =>
      simp only [slice_selectLines, Option.map_some]
      congr 3
      omega

variable {limit offset : Option Nat} {textContent : String}

theorem mem_of_mem_selectLines {α : Type} {startLine : Nat} {lines : List α} {line : α}
    (h : line ∈ selectLines startLine limit lines) : line ∈ lines := by
  cases limit with
  | none => exact List.mem_of_mem_drop h
  | some limit => exact List.mem_of_mem_drop (List.mem_of_mem_take h)

theorem selectLines_head {α : Type} {startLine : Nat} {lines : List α}
    (h : selectLines startLine limit lines ≠ []) :
    (selectLines startLine limit lines).head? = lines[startLine]? := by
  cases limit with
  | none => exact List.head?_drop
  | some limit =>
    have hpos : limit ≠ 0 := by
      rintro rfl
      exact h (by simp [selectLines])
    unfold selectLines
    rw [List.head?_take, if_neg hpos, List.head?_drop]

theorem noNewline_selectedLines (textContent : String) (offset limit : Option Nat) :
    ∀ line ∈ selectedLines textContent offset limit, '\n' ∉ line := by
  intro line hline
  obtain ⟨text, htext, rfl⟩ := List.mem_map.mp (mem_of_mem_selectLines hline)
  exact noNewline_of_mem_display htext

/-- The lines selected among those that are emitted. -/
def emittedSelection (textContent : String) (offset limit : Option Nat) : List (List Char) :=
  selectLines (offset.getD 0 - 1) limit (emittedLines textContent)

theorem emittedSelection_eq (textContent : String) (offset limit : Option Nat) :
    emittedSelection textContent offset limit = selectedLines textContent offset limit ∨
      emittedSelection textContent offset limit = [] ∧
        joinLines (selectedLines textContent offset limit) = [] := by
  unfold emittedSelection selectedLines
  rw [displayedLines_emitted]
  by_cases hempty : normalizeSnapshotText textContent = ""
  · have hnone : emittedLines textContent = [] := by
      unfold emittedLines
      rw [hempty]
      rfl
    rw [if_pos hempty, hnone]
    right
    constructor
    · cases limit <;> simp [selectLines]
    · have hsub : ∀ line ∈ selectLines (offset.getD 0 - 1) limit [([] : List Char)], line = [] :=
        fun line hline => List.mem_singleton.mp (mem_of_mem_selectLines hline)
      have hlength : (selectLines (offset.getD 0 - 1) limit [([] : List Char)]).length ≤ 1 := by
        cases limit <;> simp [selectLines]
      rcases hselected : selectLines (offset.getD 0 - 1) limit [([] : List Char)] with _ | ⟨line, rest⟩
      · rfl
      · rw [hselected] at hsub hlength
        have hrest : rest = [] := by
          rw [List.length_cons] at hlength
          exact List.length_eq_zero_iff.mp (by omega)
        rw [hsub line List.mem_cons_self, hrest]
        rfl
  · rw [if_neg hempty]
    exact .inl rfl

theorem streamedTruncation_emitted (textContent : String) (offset limit : Option Nat) :
    streamedTruncation (emittedSelection textContent offset limit) =
      streamedTruncation (selectedLines textContent offset limit) := by
  rcases emittedSelection_eq textContent offset limit with heq | ⟨hnil, hjoin⟩
  · rw [heq]
  · rw [hnil, streamedTruncation_nil hjoin, streamedTruncation_nil rfl]

theorem length_displayedLines (textContent : String) :
    (displayedLines textContent).length =
      if (emittedLines textContent).length = 0 then 1 else (emittedLines textContent).length := by
  have hlength := congrArg List.length (displayedLines_emitted textContent)
  rw [List.length_map] at hlength
  by_cases hempty : normalizeSnapshotText textContent = ""
  · have hnone : emittedLines textContent = [] := by
      unfold emittedLines
      rw [hempty]
      rfl
    rw [hlength, if_pos hempty, hnone]
    rfl
  · have hpos : (displayedLines textContent).length ≠ 0 :=
      fun h => splitDisplayLines_ne_nil _ (List.length_eq_zero_iff.mp h)
    rw [if_neg hempty] at hlength
    rw [if_neg (hlength ▸ hpos), hlength]

theorem readLocalTextSelection_eq (textContent : String) (offset limit : Option Nat) :
    readLocalTextSelection textContent (offset.getD 0 - 1) limit =
      (selectionAt textContent offset limit
        (String.ofList (joinLines (streamedOf (emittedLines textContent).length
          (emittedSelection textContent offset limit)).outputLines))
        (String.ofList ((emittedSelection textContent offset limit).headD [])),
        streamedTruncation (selectedLines textContent offset limit)) := by
  have hfold : (emittedLines textContent).foldl (StreamedLines.add (offset.getD 0 - 1) limit) {} =
      streamedOf (emittedLines textContent).length (emittedSelection textContent offset limit) :=
    streamed_spec _ _ _
  have htotal : ∀ lines, (streamedOf (emittedLines textContent).length lines).totalFileLines =
      (emittedLines textContent).length := fun _ => rfl
  have hfirst : ∀ n lines, (streamedOf n lines).firstSelectedLine = lines.headD [] := fun _ _ => rfl
  unfold readLocalTextSelection selectionAt
  rw [hfold]
  simp only [htotal, hfirst, ← length_displayedLines]
  rw [streamedOf_truncation, streamedTruncation_emitted]

theorem readStreamed_eq (textContent inputPath : String) (offset limit : Option Nat) :
    ∃ selectedContent, readStreamed textContent inputPath offset limit =
      if (displayedLines textContent).length ≤ offset.getD 0 - 1 then
        .error (offsetBeyondEnd (offset.getD 0) (displayedLines textContent).length)
      else .ok (formatTextReadSelection inputPath
        (selectionAt textContent offset limit selectedContent
          (String.ofList ((emittedSelection textContent offset limit).headD [])))
        (some (streamedTruncation (selectedLines textContent offset limit)))) := by
  refine ⟨String.ofList (joinLines (streamedOf (emittedLines textContent).length
    (emittedSelection textContent offset limit)).outputLines), ?_⟩
  unfold readStreamed
  simp only [readLocalTextSelection_eq, selectionAt_total]

theorem format_buffered {inputPath : String} {s : TextReadSelection} {lines : List (List Char)}
    (h : s.selectedContent = String.ofList (joinLines lines)) :
    formatTextReadSelection inputPath s none =
      formatTextReadSelection inputPath s (some (bufferedTruncation lines)) := by
  unfold formatTextReadSelection
  rw [Option.getD_none, Option.getD_some, h, String.toList_ofList]
  rfl

theorem firstLine_same
    (h : (streamedTruncation (selectedLines textContent offset limit)).firstLineExceedsLimit = true) :
    String.ofList ((emittedSelection textContent offset limit).headD []) =
      (displayedLines textContent).getD (offset.getD 0 - 1) "" := by
  have hne : selectedLines textContent offset limit ≠ [] := by
    intro hnil
    rw [hnil, streamedTruncation_nil rfl] at h
    cases h
  rcases emittedSelection_eq textContent offset limit with heq | ⟨-, hjoin⟩
  · have hhead := selectLines_head hne
    rw [List.getElem?_map] at hhead
    rw [heq, List.headD_eq_head?_getD, selectedLines, hhead, List.getD_eq_getElem?_getD]
    cases (displayedLines textContent)[offset.getD 0 - 1]? with
    | none => rfl
    | some line => exact String.ofList_toList
  · rw [streamedTruncation_nil hjoin] at h
    cases h

/-- The selection of a text that is read whole. -/
def bufferedSelection (textContent : String) (offset limit : Option Nat) : TextReadSelection :=
  selectionAt textContent offset limit (String.ofList (joinLines (selectedLines textContent offset limit)))
    ((displayedLines textContent).getD (offset.getD 0 - 1) "")

theorem readBuffered_eq (textContent inputPath : String) (offset limit : Option Nat) :
    readBuffered textContent inputPath offset limit =
      if (displayedLines textContent).length ≤ offset.getD 0 - 1 then
        .error (offsetBeyondEnd (offset.getD 0) (displayedLines textContent).length)
      else .ok (formatTextReadSelection inputPath (bufferedSelection textContent offset limit)
        (some (bufferedTruncation (selectedLines textContent offset limit)))) := by
  have hformat := @format_buffered inputPath (bufferedSelection textContent offset limit)
    (selectedLines textContent offset limit) rfl
  unfold readBuffered
  rw [selectText_eq, ← hformat]
  split <;> rfl

theorem reads_within (hwithin : ¬ (displayedLines textContent).length ≤ offset.getD 0 - 1)
    (inputPath : String) :
    ∃ s s', SamePlace s s' ∧
      ((streamedTruncation (selectedLines textContent offset limit)).firstLineExceedsLimit = true →
        s.firstSelectedLine = s'.firstSelectedLine) ∧
      readStreamed textContent inputPath offset limit = .ok (formatTextReadSelection inputPath s
        (some (streamedTruncation (selectedLines textContent offset limit)))) ∧
      readBuffered textContent inputPath offset limit = .ok (formatTextReadSelection inputPath s'
        (some (bufferedTruncation (selectedLines textContent offset limit)))) := by
  obtain ⟨selectedContent, hstreamed⟩ := readStreamed_eq textContent inputPath offset limit
  have hbuffered := readBuffered_eq textContent inputPath offset limit
  rw [if_neg hwithin] at hstreamed hbuffered
  have hplace : SamePlace (selectionAt textContent offset limit selectedContent
        (String.ofList ((emittedSelection textContent offset limit).headD [])))
      (bufferedSelection textContent offset limit) :=
    samePlace_selectionAt _ _ _ _ _ _ _
  refine ⟨_, bufferedSelection textContent offset limit, hplace, ?_, hstreamed, hbuffered⟩
  intro hexceeds
  have hfirst := firstLine_same hexceeds
  rwa [bufferedSelection, selectionAt_first, selectionAt_first]

theorem selectedLines_beyond (hbeyond : (displayedLines textContent).length ≤ offset.getD 0 - 1)
    (limit : Option Nat) : selectedLines textContent offset limit = [] := by
  have hdrop : ((displayedLines textContent).map String.toList).drop (offset.getD 0 - 1) = [] :=
    List.drop_eq_nil_of_le (by rwa [List.length_map])
  unfold selectedLines
  cases limit <;> simp [selectLines, hdrop]

theorem reads_agree (hblank : ¬ BlankAtLimit (selectedLines textContent offset limit))
    (inputPath : String) :
    readStreamed textContent inputPath offset limit = readBuffered textContent inputPath offset limit := by
  by_cases hbeyond : (displayedLines textContent).length ≤ offset.getD 0 - 1
  · -- both readings say that nothing is there
    obtain ⟨selectedContent, hstreamed⟩ := readStreamed_eq textContent inputPath offset limit
    rw [hstreamed, readBuffered_eq, if_pos hbeyond, if_pos hbeyond]
  · obtain ⟨s, s', hplace, hfirst, hstreamed, hbuffered⟩ := reads_within hbeyond inputPath
    rw [hstreamed, hbuffered, format_same hplace
      (sameShown_of_not_blank (noNewline_selectedLines textContent offset limit) hblank) hfirst]

theorem reads_differ (hblank : BlankAtLimit (selectedLines textContent offset limit))
    (inputPath : String) :
    readStreamed textContent inputPath offset limit ≠ readBuffered textContent inputPath offset limit := by
  have hwithin : ¬ (displayedLines textContent).length ≤ offset.getD 0 - 1 := by
    intro hbeyond
    rw [selectedLines_beyond hbeyond] at hblank
    cases hblank.1
  obtain ⟨s, s', hplace, -, hstreamed, hbuffered⟩ := reads_within hwithin inputPath
  rw [hstreamed, hbuffered]
  intro heq
  exact format_differs hplace (noNewline_selectedLines textContent offset limit) hblank
    (Except.ok.inj heq)

/-- Both ways of reading give one text, except where the selection ends with a blank line that is one
line too many or one byte. -/
theorem streamed_read_iff (textContent inputPath : String) (offset limit : Option Nat) :
    readStreamed textContent inputPath offset limit = readBuffered textContent inputPath offset limit ↔
      ¬ BlankAtLimit (selectedLines textContent offset limit) := by
  constructor
  · exact fun hsame hblank => reads_differ hblank inputPath hsame
  · exact fun hblank => reads_agree hblank inputPath

section Examples

/-- Two thousand lines, and a blank one. -/
def blankAfterFull : List (List Char) := List.replicate DEFAULT_MAX_LINES ['a'] ++ [[]]

/-- The file that has these lines. -/
def blankAfterFullText : String := String.ofList (joinLines (blankAfterFull ++ [[]]))

theorem blankAfterFull_plain : ∀ line ∈ blankAfterFull ++ [[]], line = ['a'] ∨ line = [] := by
  intro line hline
  unfold blankAfterFull at hline
  simp only [List.mem_append, List.mem_replicate, List.mem_singleton] at hline
  rcases hline with (⟨-, h⟩ | h) | h
  · exact .inl h
  · exact .inr h
  · exact .inr h

theorem blankAfterFull_displayed :
    (displayedLines blankAfterFullText).map String.toList = blankAfterFull := by
  have hnoNewline : ∀ line ∈ blankAfterFull ++ [[]], '\n' ∉ line := by
    intro line hline
    rcases blankAfterFull_plain line hline with rfl | rfl <;> decide
  have hnoCr : '\r' ∉ blankAfterFullText.toList := by
    unfold blankAfterFullText
    rw [String.toList_ofList]
    apply intercalate_noCr
    intro line hline
    rcases blankAfterFull_plain line hline with rfl | rfl <;> decide
  have hsplit := splitLinesForCounting_joinLines hnoNewline
  rw [List.getLast?_concat, if_pos rfl, List.dropLast_concat] at hsplit
  have hne : blankAfterFullText ≠ "" := by
    intro h
    have hnil : joinLines (blankAfterFull ++ [[]]) = [] := by
      rw [← String.toList_ofList (l := joinLines _)]
      exact congrArg String.toList h
    rw [hnil] at hsplit
    unfold blankAfterFull at hsplit
    simp [splitLinesForCounting] at hsplit
  rw [displayedLines_emitted, normalizeSnapshotText_of_noCr hnoCr, if_neg hne, emittedLines,
    normalizeSnapshotText_of_noCr hnoCr]
  unfold blankAfterFullText
  rw [String.toList_ofList]
  exact hsplit

theorem blankAfterFull_selected :
    selectedLines blankAfterFullText (some 1) (some 2001) = blankAfterFull := by
  unfold selectedLines
  rw [blankAfterFull_displayed]
  show blankAfterFull.take 2001 = blankAfterFull
  apply List.take_of_length_le
  unfold blankAfterFull
  rw [List.length_append, List.length_replicate]
  decide

/-- Line by line the blank line is cut off with a notice, at once it is there. -/
theorem blank_line_over_limit :
    readStreamed blankAfterFullText "f" (some 1) (some 2001) ≠
      readBuffered blankAfterFullText "f" (some 1) (some 2001) := by
  apply reads_differ
  rw [blankAfterFull_selected]
  have hbytes : byteLength (joinLines blankAfterFull) = 4000 := by
    unfold blankAfterFull
    rw [byteLength_joinLines_concat, byteLength_joinLines, addedBytes_eq, List.map_reverse,
      List.sum_reverse, List.map_replicate, List.sum_replicate, List.length_reverse,
      List.length_replicate]
    decide
  refine ⟨List.getLast?_concat, .inl ⟨?_, ?_⟩⟩
  · unfold blankAfterFull
    rw [List.length_append, List.length_replicate, List.length_singleton]
  · rw [hbytes]
    decide

end Examples

end PieLab

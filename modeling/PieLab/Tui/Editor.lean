import PieLab.Tui.WordNavigation

/-
  The editor

  The text is a list of lines with a cursor in it. Commands edit it, each behind a
  snapshot that undo goes back to; typed characters of one word share a snapshot.
  What a key does is looked up in the key bindings, in the order of `handleInput`.

  The requests of the completion are left out: the suggestions may come at any time,
  and count where the request is still current. Rendering and the scroll offset are
  left out as well.

  Correspondence (TypeScript ↔ Lean), packages/tui/src/components/editor.ts:
    the methods of `Editor`  ↔ the functions of the same name
    `handleInput`            ↔ `beforeKeys` (jump mode and pastes), `firstCommand` (undo and
      the open picker), `keyCommand` (the other keys), `perform`
    `kb.matches`, `matchesKey`, `decodePrintableKey`, `visibleWidth`, `wordWrapLine`, the
      terminal ↔ `Host`
-/

open PieLab.Lib.Js

namespace PieLab.Tui

/-! ## The state -/

structure EditorState where
  lines : List Text
  cursorLine : Int
  cursorCol : Int
  deriving DecidableEq, Repr

def EditorState.empty : EditorState := { lines := [[]], cursorLine := 0, cursorCol := 0 }

/-- `getText()` -/
def EditorState.text (s : EditorState) : Text := [10].intercalate s.lines

inductive LastAction where
  | kill | yank | typeWord
  deriving DecidableEq, Repr

inductive Direction where
  | forward | backward
  deriving DecidableEq, Repr

structure AutocompleteItem where
  value : Text
  label : Text
  deriving DecidableEq, Repr

/-- The open picker. -/
structure Autocomplete where
  force : Bool
  autocompletePrefix : Text
  items : List AutocompleteItem
  selectedIndex : Int

/-- `AutocompleteProvider.applyCompletion` -/
structure AutocompleteProvider where
  applyCompletion : List Text → Int → Int → AutocompleteItem → Text → EditorState

structure Editor where
  state : EditorState
  undoStack : List EditorState
  lastAction : Option LastAction
  killRing : KillRing
  history : List Text
  historyIndex : Int
  historyDraft : Option EditorState
  preferredVisualCol : Option Int
  snappedFromCursorCol : Option Int
  pastes : List (Nat × Text)
  pasteCounter : Nat
  pasteBuffer : Text
  isInPaste : Bool
  jumpMode : Option Direction
  autocomplete : Option Autocomplete
  autocompleteProvider : Option AutocompleteProvider
  disableSubmit : Bool
  lastWidth : Int
  /-- How often `onSubmit` was called. -/
  submits : Nat

/-- A new editor. -/
def Editor.new : Editor where
  state := .empty
  undoStack := []
  lastAction := none
  killRing := []
  history := []
  historyIndex := -1
  historyDraft := none
  preferredVisualCol := none
  snappedFromCursorCol := none
  pastes := []
  pasteCounter := 0
  pasteBuffer := []
  isInPaste := false
  jumpMode := none
  autocomplete := none
  autocompleteProvider := none
  disableSubmit := false
  lastWidth := 80
  submits := 0

/-! ## The surroundings -/

/-- The key bindings that the editor asks for. -/
inductive KeyAction where
  | jumpForward | jumpBackward | copy | undo | selectCancel | selectUp | selectDown | tab
  | selectConfirm | deleteToLineEnd | deleteToLineStart | deleteWordBackward | deleteWordForward
  | deleteCharBackward | deleteCharForward | yank | yankPop | cursorLineStart | cursorLineEnd
  | cursorWordLeft | cursorWordRight | newLine | submit | cursorUp | cursorDown | cursorRight
  | cursorLeft | pageUp | pageDown
  deriving DecidableEq, Repr

/-- The keys it asks for by name. -/
inductive KeyId where
  | shiftBackspace | shiftDelete | shiftSpace | enter
  deriving DecidableEq, Repr

/-- A part of a line on one visual line. -/
structure TextChunk where
  startIndex : Int
  endIndex : Int

structure Host where
  /-- `kb.matches(data, action)` -/
  matchesAction : Text → KeyAction → Bool
  matchesKey : Text → KeyId → Bool
  /-- `kb.getKeys("tui.input.submit")` has Shift+Enter. -/
  submitsOnShiftEnter : Bool
  decodePrintableKey : Text → Option Text
  graphemeSegmenter : Segmenter
  wordSegmenter : Segmenter
  visibleWidth : Text → Int
  wordWrapLine : Text → Int → List SegmentData → List TextChunk
  /-- `Math.floor(terminalRows * 0.3)` -/
  pageRows : Int

namespace Editor

/-! ## Lines and cursor -/

def getText (s : Editor) : Text := s.state.text

/-- `this.state.lines[i] || ""` -/
def lineAt (s : Editor) (i : Int) : Text := itemAt s.state.lines i []

def currentLine (s : Editor) : Text := s.lineAt s.state.cursorLine

def setLine (s : Editor) (i : Int) (line : Text) : Editor :=
  { s with state := { s.state with lines := setAt s.state.lines i line } }

def spliceLines (s : Editor) (start : Int) (count : Nat) (items : List Text) : Editor :=
  { s with state := { s.state with lines := splice s.state.lines start count items } }

def setCursorLine (s : Editor) (line : Int) : Editor :=
  { s with state := { s.state with cursorLine := line } }

/-- Sets the column and forgets the column of vertical moves. -/
def setCursorCol (s : Editor) (col : Int) : Editor :=
  { s with
    state := { s.state with cursorCol := col }
    preferredVisualCol := none
    snappedFromCursorCol := none }

/-- The current line up to the cursor, and from the cursor on. -/
def beforeCursor (s : Editor) : Text := slice s.currentLine 0 s.state.cursorCol
def afterCursor (s : Editor) : Text := sliceFrom s.currentLine s.state.cursorCol

def isEditorEmpty (s : Editor) : Bool := s.state.lines == [[]]

/-- `this.segment(text, "grapheme")` -/
def graphemes (h : Host) (s : Editor) (text : Text) : List SegmentData :=
  segmentWithMarkers text h.graphemeSegmenter (s.pastes.map Prod.fst)

/-- `this.segment(text, "word")` -/
def words (h : Host) (s : Editor) (text : Text) : List SegmentData :=
  segmentWithMarkers text h.wordSegmenter (s.pastes.map Prod.fst)

def graphemeLength (segment : Option SegmentData) : Int :=
  (segment.map fun seg => (seg.segment.length : Int)).getD 1

/-! ## Undo -/

def pushUndoSnapshot (s : Editor) : Editor := { s with undoStack := s.state :: s.undoStack }

def exitHistoryBrowsing (s : Editor) : Editor := { s with historyIndex := -1, historyDraft := none }

def undo (s : Editor) : Editor :=
  let s := s.exitHistoryBrowsing
  match s.undoStack with
  | [] => s
  | snapshot :: rest =>
    { s with state := snapshot, undoStack := rest, lastAction := none, preferredVisualCol := none }

/-! ## Inserting -/

def cancelAutocomplete (s : Editor) : Editor := { s with autocomplete := none }

/-- `text.replace(/\r\n/g, "\n").replace(/\r/g, "\n").replace(/\t/g, "    ")` -/
def normalizeText : Text → Text
  | [] => []
  | 13 :: 10 :: rest => 10 :: normalizeText rest
  | 13 :: rest => 10 :: normalizeText rest
  | 9 :: rest => 32 :: 32 :: 32 :: 32 :: normalizeText rest
  | c :: rest => c :: normalizeText rest

def splitLines (text : Text) : List Text := text.splitOn 10

/-- `insertTextAtCursorInternal` -/
def insertTextAtCursorInternal (s : Editor) (text : Text) : Editor :=
  if text = [] then s
  else
    let normalized := normalizeText text
    let insertedLines := splitLines normalized
    let before := s.beforeCursor
    let after := s.afterCursor
    match insertedLines with
    | first :: second :: rest =>
      let last := (second :: rest).getLast (List.cons_ne_nil second rest)
      let lines := slice s.state.lines 0 s.state.cursorLine ++ [before ++ first] ++
        (second :: rest).dropLast ++ [last ++ after] ++ sliceFrom s.state.lines (s.state.cursorLine + 1)
      ({ s with state := { s.state with
          lines, cursorLine := s.state.cursorLine + (insertedLines.length - 1) } } : Editor).setCursorCol
        last.length
    | _ =>
      (s.setLine s.state.cursorLine (before ++ normalized ++ after)).setCursorCol
        (s.state.cursorCol + normalized.length)

/-- `insertTextAtCursor` -/
def insertTextAtCursor (s : Editor) (text : Text) : Editor :=
  if text = [] then s
  else
    let s := s.cancelAutocomplete.pushUndoSnapshot
    ({ s with lastAction := none } : Editor).exitHistoryBrowsing.insertTextAtCursorInternal text

def setTextInternal (s : Editor) (text : Text) (atStart : Bool) : Editor :=
  let lines := splitLines text
  let s := { s with state := { s.state with lines } }
  let s := s.setCursorLine (if atStart then 0 else lines.length - 1)
  s.setCursorCol (if atStart then 0 else s.currentLine.length)

def setText (s : Editor) (text : Text) : Editor :=
  let s := ({ s.cancelAutocomplete with lastAction := none } : Editor).exitHistoryBrowsing
  let normalized := normalizeText text
  let s := if s.getText ≠ normalized then s.pushUndoSnapshot else s
  s.setTextInternal normalized false

/-- Words are undone as one: only its first character, and every space, takes a snapshot. -/
def insertCharacter (s : Editor) (char : Text) : Editor :=
  let s := s.exitHistoryBrowsing
  let s := if isWhitespaceChar char ∨ s.lastAction ≠ some .typeWord then s.pushUndoSnapshot else s
  let s := { s with lastAction := some .typeWord }
  (s.setLine s.state.cursorLine (s.beforeCursor ++ char ++ s.afterCursor)).setCursorCol
    (s.state.cursorCol + char.length)

/-- `ESC [ digits ; 5 u` in front: the digits and the length of the match. -/
def controlMatch? (text : Text) : Option (Text × Nat) := do
  let rest ← stripPrefix? (27 :: ascii "[") text
  let (digits, rest) ← digits? rest
  let rest ← stripPrefix? (ascii ";5u") rest
  some (digits, text.length - rest.length)

/-- The letter with Ctrl that a code stands for. -/
def controlLetter? (digits : Text) : Option UInt16 :=
  let cp := parseDigits digits
  if 97 ≤ cp ∧ cp ≤ 122 then some (UInt16.ofNat (cp - 96))
  else if 65 ≤ cp ∧ cp ≤ 90 then some (UInt16.ofNat (cp - 64))
  else none

/-- The re-encoded control characters of a paste, after `skip` units of a match. -/
def decodeControls : Nat → Text → Text
  | _, [] => []
  | skip + 1, _ :: rest => decodeControls skip rest
  | 0, c :: rest =>
    match controlMatch? (c :: rest) with
    | some (digits, length) =>
      match controlLetter? digits with
      | some letter => letter :: decodeControls (length - 1) rest
      | none => c :: decodeControls 0 rest
    | none => c :: decodeControls 0 rest

/-- `/\w/`, for one code unit. -/
def isWordUnit (c : UInt16) : Bool :=
  isDigit c || (65 ≤ c && c ≤ 90) || (97 ≤ c && c ≤ 122) || c == 95

def pasteMarker (pasteId : Nat) (size : String) : Text :=
  ascii ("[paste #" ++ toString pasteId ++ " " ++ size ++ "]")

/-- The pasted text, cleaned, with a space in front of a path behind a word. -/
def cleanPaste (s : Editor) (pastedText : Text) : Text :=
  let filtered := (normalizeText (decodeControls 0 pastedText)).filter fun c => c = 10 ∨ 32 ≤ c
  let charBeforeCursor :=
    if 0 < s.state.cursorCol then s.currentLine[(s.state.cursorCol - 1).toNat]? else none
  if (filtered.head?.any fun c => (ascii "/~.").contains c) ∧ charBeforeCursor.any isWordUnit then
    32 :: filtered
  else filtered

def handlePaste (s : Editor) (pastedText : Text) : Editor :=
  let s :=
    ({ s.cancelAutocomplete.exitHistoryBrowsing with lastAction := none } : Editor).pushUndoSnapshot
  let filteredText := s.cleanPaste pastedText
  let pastedLines := (splitLines filteredText).length
  let totalChars := filteredText.length
  if 10 < pastedLines ∨ 1000 < totalChars then
    -- a large paste is kept aside, with a marker in the text
    let pasteId := s.pasteCounter + 1
    let s := { s with
      pasteCounter := pasteId
      pastes := s.pastes.filter (fun (paste : Nat × Text) => paste.1 != pasteId) ++ [(pasteId, filteredText)] }
    s.insertTextAtCursorInternal (pasteMarker pasteId
      (if 10 < pastedLines then "+" ++ toString pastedLines ++ " lines"
        else toString totalChars ++ " chars"))
  else s.insertTextAtCursorInternal filteredText

def addNewLine (s : Editor) : Editor :=
  let s :=
    ({ s.cancelAutocomplete.exitHistoryBrowsing with lastAction := none } : Editor).pushUndoSnapshot
  let before := s.beforeCursor
  let after := s.afterCursor
  let s := (s.setLine s.state.cursorLine before).spliceLines (s.state.cursorLine + 1) 0 [after]
  (s.setCursorLine (s.state.cursorLine + 1)).setCursorCol 0

def submitValue (s : Editor) : Editor :=
  let s := s.cancelAutocomplete.exitHistoryBrowsing
  { s with
    state := .empty, pastes := [], pasteCounter := 0, undoStack := [], lastAction := none
    submits := s.submits + 1 }

/-! ## Deleting -/

/-- The line of the cursor goes behind the one in front of it. -/
def mergeWithPrevious (s : Editor) : Editor :=
  let currentLine := s.currentLine
  let previousLine := s.lineAt (s.state.cursorLine - 1)
  let s := (s.setLine (s.state.cursorLine - 1) (previousLine ++ currentLine)).spliceLines
    s.state.cursorLine 1 []
  (s.setCursorLine (s.state.cursorLine - 1)).setCursorCol previousLine.length

/-- The next line goes behind that of the cursor. -/
def mergeWithNext (s : Editor) : Editor :=
  let nextLine := s.lineAt (s.state.cursorLine + 1)
  (s.setLine s.state.cursorLine (s.currentLine ++ nextLine)).spliceLines (s.state.cursorLine + 1) 1 []

def handleBackspace (h : Host) (s : Editor) : Editor :=
  let s := { s.exitHistoryBrowsing with lastAction := none }
  if 0 < s.state.cursorCol then
    let s := s.pushUndoSnapshot
    let length := graphemeLength (s.graphemes h s.beforeCursor).getLast?
    let before := slice s.currentLine 0 (s.state.cursorCol - length)
    (s.setLine s.state.cursorLine (before ++ s.afterCursor)).setCursorCol (s.state.cursorCol - length)
  else if 0 < s.state.cursorLine then s.pushUndoSnapshot.mergeWithPrevious
  else s

def handleForwardDelete (h : Host) (s : Editor) : Editor :=
  let s := { s.exitHistoryBrowsing with lastAction := none }
  if s.state.cursorCol < s.currentLine.length then
    let s := s.pushUndoSnapshot
    let length := graphemeLength (s.graphemes h s.afterCursor).head?
    s.setLine s.state.cursorLine
      (s.beforeCursor ++ sliceFrom s.currentLine (s.state.cursorCol + length))
  else if s.state.cursorLine < (s.state.lines.length : Int) - 1 then s.pushUndoSnapshot.mergeWithNext
  else s

/-- A kill: the text goes into the ring, onto its last entry where that was a kill too. -/
def kill (s : Editor) (text : Text) (prepend accumulate : Bool) : Editor :=
  { s with killRing := s.killRing.push text prepend accumulate, lastAction := some .kill }

def wasKill (s : Editor) : Bool := s.lastAction == some .kill

def deleteToStartOfLine (s : Editor) : Editor :=
  let s := s.exitHistoryBrowsing
  if 0 < s.state.cursorCol then
    let s := s.pushUndoSnapshot
    let s := s.kill s.beforeCursor true s.wasKill
    (s.setLine s.state.cursorLine s.afterCursor).setCursorCol 0
  else if 0 < s.state.cursorLine then
    let s := s.pushUndoSnapshot
    (s.kill [10] true s.wasKill).mergeWithPrevious
  else s

def deleteToEndOfLine (s : Editor) : Editor :=
  let s := s.exitHistoryBrowsing
  if s.state.cursorCol < s.currentLine.length then
    let s := s.pushUndoSnapshot
    let s := s.kill s.afterCursor false s.wasKill
    s.setLine s.state.cursorLine s.beforeCursor
  else if s.state.cursorLine < (s.state.lines.length : Int) - 1 then
    let s := s.pushUndoSnapshot
    (s.kill [10] false s.wasKill).mergeWithNext
  else s

/-! ## Moving -/

def moveToLineStart (s : Editor) : Editor := ({ s with lastAction := none } : Editor).setCursorCol 0

def moveToLineEnd (s : Editor) : Editor :=
  ({ s with lastAction := none } : Editor).setCursorCol s.currentLine.length

def moveWordBackwards (h : Host) (s : Editor) : Editor :=
  let s := { s with lastAction := none }
  if s.state.cursorCol = 0 then
    if 0 < s.state.cursorLine then
      let s := s.setCursorLine (s.state.cursorLine - 1)
      s.setCursorCol s.currentLine.length
    else s
  else s.setCursorCol (findWordBackward (s.words h) s.currentLine s.state.cursorCol)

def moveWordForwards (h : Host) (s : Editor) : Editor :=
  let s := { s with lastAction := none }
  if (s.currentLine.length : Int) ≤ s.state.cursorCol then
    if s.state.cursorLine < (s.state.lines.length : Int) - 1 then
      (s.setCursorLine (s.state.cursorLine + 1)).setCursorCol 0
    else s
  else s.setCursorCol (findWordForward (s.words h) s.currentLine s.state.cursorCol)

def deleteWordBackwards (h : Host) (s : Editor) : Editor :=
  let s := s.exitHistoryBrowsing
  if s.state.cursorCol = 0 then
    if 0 < s.state.cursorLine then
      let s := s.pushUndoSnapshot
      (s.kill [10] true s.wasKill).mergeWithPrevious
    else s
  else
    let s := s.pushUndoSnapshot
    let wasKill := s.wasKill
    let oldCursorCol := s.state.cursorCol
    let s := s.moveWordBackwards h
    let deleteFrom := s.state.cursorCol
    let s := s.setCursorCol oldCursorCol
    let s := s.kill (slice s.currentLine deleteFrom s.state.cursorCol) true wasKill
    (s.setLine s.state.cursorLine (slice s.currentLine 0 deleteFrom ++ s.afterCursor)).setCursorCol
      deleteFrom

def deleteWordForward (h : Host) (s : Editor) : Editor :=
  let s := s.exitHistoryBrowsing
  if (s.currentLine.length : Int) ≤ s.state.cursorCol then
    if s.state.cursorLine < (s.state.lines.length : Int) - 1 then
      let s := s.pushUndoSnapshot
      (s.kill [10] false s.wasKill).mergeWithNext
    else s
  else
    let s := s.pushUndoSnapshot
    let wasKill := s.wasKill
    let oldCursorCol := s.state.cursorCol
    let s := s.moveWordForwards h
    let deleteTo := s.state.cursorCol
    let s := s.setCursorCol oldCursorCol
    let s := s.kill (slice s.currentLine s.state.cursorCol deleteTo) false wasKill
    s.setLine s.state.cursorLine (s.beforeCursor ++ sliceFrom s.currentLine deleteTo)

/-! ## Moving between visual lines -/

structure VisualLine where
  logicalLine : Int
  startCol : Int
  length : Int
  deriving DecidableEq, Repr

/-- The visual lines of one line. -/
def visualLinesOf (h : Host) (s : Editor) (width : Int) (logicalLine : Nat) (line : Text) :
    List VisualLine :=
  if line = [] then [{ logicalLine, startCol := 0, length := 0 }]
  else if h.visibleWidth line ≤ width then [{ logicalLine, startCol := 0, length := line.length }]
  else
    (h.wordWrapLine line width (s.graphemes h line)).map fun chunk =>
      { logicalLine, startCol := chunk.startIndex, length := chunk.endIndex - chunk.startIndex }

def buildVisualLineMap (h : Host) (s : Editor) (width : Int) : List VisualLine :=
  (s.state.lines.mapIdx (s.visualLinesOf h width)).flatten

/-- The next visual line is of another line. -/
def isLastSegment (visualLines : List VisualLine) (i : Nat) : Bool :=
  match visualLines[i]?, visualLines[i + 1]? with
  | some vl, some next => next.logicalLine != vl.logicalLine
  | _, _ => true

def findVisualLineAt (visualLines : List VisualLine) (line col : Int) : Int :=
  let here := (List.range visualLines.length).find? fun i =>
    match visualLines[i]? with
    | none => false
    | some vl =>
      let offset := col - vl.startCol
      vl.logicalLine = line ∧ 0 ≤ offset ∧
        (offset < vl.length ∨ (isLastSegment visualLines i ∧ offset = vl.length))
  match here with
  | some i => i
  | none => (visualLines.length : Int) - 1

def findCurrentVisualLine (s : Editor) (visualLines : List VisualLine) : Int :=
  findVisualLineAt visualLines s.state.cursorLine s.state.cursorCol

/-- The sticky column: the column to move to, and the preferred one behind the move. -/
def computeVerticalMoveColumn (preferredVisualCol : Option Int)
    (currentVisualCol sourceMaxVisualCol targetMaxVisualCol : Int) : Int × Option Int :=
  let fromCurrent : Int × Option Int :=
    if targetMaxVisualCol < currentVisualCol then (targetMaxVisualCol, some currentVisualCol)
    else (currentVisualCol, none)
  match preferredVisualCol with
  | none => fromCurrent
  | some preferred =>
    if currentVisualCol < sourceMaxVisualCol then fromCurrent
    else if targetMaxVisualCol < currentVisualCol ∨ targetMaxVisualCol < preferred then
      (targetMaxVisualCol, some preferred)
    else (preferred, none)

/-- The furthest column of a visual line; only the last one of a line has its end. -/
def maxVisualCol (visualLines : List VisualLine) (i : Nat) (vl : VisualLine) : Int :=
  if isLastSegment visualLines i then vl.length else max 0 (vl.length - 1)

/-- The segment that the column is inside of. -/
def segmentAround (segments : List SegmentData) (col : Int) : Option SegmentData :=
  (segments.takeWhile fun seg => (seg.index : Int) ≤ col).find? fun seg =>
    1 < seg.segment.length ∧ col < seg.index + seg.segment.length

/-- The first visual line from `next` on that is not a continuation of the segment. -/
def skipContinuations (visualLines : List VisualLine) (logicalLine segEnd : Int) : Nat → Nat → Nat
  | 0, next => next
  | fuel + 1, next =>
    match visualLines[next]? with
    | none => next
    | some vl =>
      if vl.logicalLine = logicalLine ∧ vl.startCol < segEnd then
        skipContinuations visualLines logicalLine segEnd fuel (next + 1)
      else next

/-- The column a vertical move starts from; a cursor that was snapped starts from where it was. -/
def visualColFrom (s : Editor) (visualLines : List VisualLine) (currentVL : VisualLine) : Int :=
  match s.snappedFromCursorCol with
  | some snapped =>
    let vlIndex := findVisualLineAt visualLines currentVL.logicalLine snapped
    snapped - ((visualLines[vlIndex.toNat]?).map (·.startCol)).getD 0
  | none => s.state.cursorCol - currentVL.startCol

/-- Every call of itself is for a later visual line. -/
def moveToVisualLine (h : Host) (visualLines : List VisualLine) (currentVisualLine : Nat) :
    Nat → Editor → Nat → Editor
  | 0, s, _ => s
  | fuel + 1, s, targetVisualLine =>
    match visualLines[currentVisualLine]?, visualLines[targetVisualLine]? with
    | some currentVL, some targetVL =>
      let (moveToVisualCol, preferredVisualCol) := computeVerticalMoveColumn s.preferredVisualCol
        (s.visualColFrom visualLines currentVL) (maxVisualCol visualLines currentVisualLine currentVL)
        (maxVisualCol visualLines targetVisualLine targetVL)
      let logicalLine := s.lineAt targetVL.logicalLine
      let cursorCol := min (targetVL.startCol + moveToVisualCol) logicalLine.length
      let s := { s with
        preferredVisualCol
        state := { s.state with cursorLine := targetVL.logicalLine, cursorCol } }
      match segmentAround (s.graphemes h logicalLine) cursorCol with
      | none => { s with snappedFromCursorCol := none }
      | some seg =>
        let next := skipContinuations visualLines targetVL.logicalLine
          (seg.index + seg.segment.length) visualLines.length (targetVisualLine + 1)
        if (seg.index : Int) < targetVL.startCol ∧ currentVisualLine < targetVisualLine ∧
            next < visualLines.length then
          moveToVisualLine h visualLines currentVisualLine fuel s next
        else
          -- the cursor goes in front of the segment, and remembers where it would have been
          { s with
            snappedFromCursorCol := some cursorCol
            state := { s.state with cursorCol := seg.index } }
    | _, _ => s

/-- `moveToVisualLine` between indices as they are computed. -/
def moveVertically (h : Host) (s : Editor) (visualLines : List VisualLine)
    (currentVisualLine targetVisualLine : Int) : Editor :=
  if currentVisualLine < 0 ∨ targetVisualLine < 0 then s
  else
    moveToVisualLine h visualLines currentVisualLine.toNat (visualLines.length + 1) s
      targetVisualLine.toNat

/-- The part of `moveCursor` that moves by a column; at the end of the text the column is only
remembered. -/
def moveHorizontally (h : Host) (s : Editor) (visualLines : List VisualLine)
    (currentVisualLine : Int)
    (deltaCol : Int) : Editor :=
  if 0 < deltaCol then
    if s.state.cursorCol < s.currentLine.length then
      s.setCursorCol (s.state.cursorCol + graphemeLength (s.graphemes h s.afterCursor).head?)
    else if s.state.cursorLine < (s.state.lines.length : Int) - 1 then
      (s.setCursorLine (s.state.cursorLine + 1)).setCursorCol 0
    else
      match visualLines[currentVisualLine.toNat]? with
      | some currentVL => { s with preferredVisualCol := some (s.state.cursorCol - currentVL.startCol) }
      | none => s
  else if deltaCol < 0 then
    if 0 < s.state.cursorCol then
      s.setCursorCol (s.state.cursorCol - graphemeLength (s.graphemes h s.beforeCursor).getLast?)
    else if 0 < s.state.cursorLine then
      let s := s.setCursorLine (s.state.cursorLine - 1)
      s.setCursorCol s.currentLine.length
    else s
  else s

def moveCursor (h : Host) (s : Editor) (deltaLine deltaCol : Int) : Editor :=
  let s := { s with lastAction := none }
  let visualLines := s.buildVisualLineMap h s.lastWidth
  let currentVisualLine := s.findCurrentVisualLine visualLines
  let targetVisualLine := currentVisualLine + deltaLine
  let s :=
    if deltaLine ≠ 0 ∧ 0 ≤ targetVisualLine ∧ targetVisualLine < visualLines.length then
      s.moveVertically h visualLines currentVisualLine targetVisualLine
    else s
  s.moveHorizontally h visualLines currentVisualLine deltaCol

def pageScroll (h : Host) (s : Editor) (direction : Int) : Editor :=
  let s := { s with lastAction := none }
  let pageSize := max 5 h.pageRows
  let visualLines := s.buildVisualLineMap h s.lastWidth
  let currentVisualLine := s.findCurrentVisualLine visualLines
  let targetVisualLine :=
    max 0 (min ((visualLines.length : Int) - 1) (currentVisualLine + direction * pageSize))
  s.moveVertically h visualLines currentVisualLine targetVisualLine

def isOnFirstVisualLine (h : Host) (s : Editor) : Bool :=
  s.findCurrentVisualLine (s.buildVisualLineMap h s.lastWidth) = 0

def isOnLastVisualLine (h : Host) (s : Editor) : Bool :=
  let visualLines := s.buildVisualLineMap h s.lastWidth
  s.findCurrentVisualLine visualLines = (visualLines.length : Int) - 1

/-- The lines that are searched, the current one first. -/
def jumpLines (s : Editor) : Direction → List Int
  | .forward => (List.range (s.state.lines.length - s.state.cursorLine.toNat)).map fun (i : Nat) =>
      s.state.cursorLine + i
  | .backward => (List.range (s.state.cursorLine.toNat + 1)).map fun (i : Nat) =>
      s.state.cursorLine - i

/-- Where the character is in a line. -/
def jumpCol? (s : Editor) (char : Text) (direction : Direction) (line : Int) : Option Nat :=
  let text := s.lineAt line
  match direction with
  | .forward =>
    Lib.Js.indexOf text char (if line = s.state.cursorLine then (s.state.cursorCol + 1).toNat else 0)
  | .backward =>
    lastIndexOf text char
      (if line = s.state.cursorLine then (s.state.cursorCol - 1).toNat else text.length)

def jumpToChar (s : Editor) (char : Text) (direction : Direction) : Editor :=
  let s := { s with lastAction := none }
  let found := (s.jumpLines direction).findSome? fun line =>
    (s.jumpCol? char direction line).map fun col => (line, col)
  match found with
  | some (line, col) => (s.setCursorLine line).setCursorCol col
  | none => s

/-! ## Yanking -/

def insertYankedText (s : Editor) (text : Text) : Editor :=
  let s := s.exitHistoryBrowsing
  let before := s.beforeCursor
  let after := s.afterCursor
  match splitLines text with
  | first :: second :: rest =>
    let lines := second :: rest
    let last := lines.getLast (List.cons_ne_nil second rest)
    let lastLineIndex := s.state.cursorLine + lines.length
    let s := s.setLine s.state.cursorLine (before ++ first)
    let s := s.spliceLines (s.state.cursorLine + 1) 0 (lines.dropLast ++ [last ++ after])
    (s.setCursorLine lastLineIndex).setCursorCol last.length
  | _ =>
    (s.setLine s.state.cursorLine (before ++ text ++ after)).setCursorCol
      (s.state.cursorCol + text.length)

/-- The text that was yanked last is in front of the cursor. -/
def deleteYankedText (s : Editor) : Editor :=
  match s.killRing with
  | [] => s
  | yankedText :: _ =>
    if yankedText = [] then s
    else
      match splitLines yankedText with
      | first :: second :: rest =>
        let startLine := s.state.cursorLine - (second :: rest).length
        let startCol : Int := (s.lineAt startLine).length - first.length
        let beforeYank := slice (s.lineAt startLine) 0 startCol
        let merged := beforeYank ++ s.afterCursor
        ((s.spliceLines startLine (rest.length + 2) [merged]).setCursorLine startLine).setCursorCol
          startCol
      | _ =>
        let from' := s.state.cursorCol - yankedText.length
        (s.setLine s.state.cursorLine (slice s.currentLine 0 from' ++ s.afterCursor)).setCursorCol
          from'

def yank (s : Editor) : Editor :=
  match s.killRing with
  | [] => s
  | text :: _ => { s.pushUndoSnapshot.insertYankedText text with lastAction := some .yank }

def yankPop (s : Editor) : Editor :=
  if s.lastAction ≠ some .yank ∨ s.killRing.length ≤ 1 then s
  else
    let s := s.pushUndoSnapshot.deleteYankedText
    let s := { s with killRing := s.killRing.rotate }
    { s.insertYankedText (s.killRing.head?.getD []) with lastAction := some .yank }

/-! ## History -/

def addToHistory (s : Editor) (text : Text) : Editor :=
  let trimmed := trimText text
  if trimmed = [] ∨ s.history.head? = some trimmed then s
  else { s with history := (trimmed :: s.history).take 100 }

/-- The text at an index of the history, or the draft. -/
def showHistory (s : Editor) (newIndex : Int) (older : Bool) : Editor :=
  let s := { s with historyIndex := newIndex }
  if newIndex = -1 then
    let draft := s.historyDraft
    let s := { s with historyDraft := none }
    match draft with
    | some draft => { s with state := draft, preferredVisualCol := none, snappedFromCursorCol := none }
    | none => s.setTextInternal [] false
  else s.setTextInternal (itemAt s.history newIndex []) older

/-- `older` is the direction -1, up, which increases the index. -/
def navigateHistory (s : Editor) (older : Bool) : Editor :=
  let s := { s with lastAction := none }
  let newIndex := if older then s.historyIndex + 1 else s.historyIndex - 1
  if s.history = [] ∨ newIndex < -1 ∨ (s.history.length : Int) ≤ newIndex then s
  else if s.historyIndex = -1 ∧ 0 ≤ newIndex then
    ({ s.pushUndoSnapshot with historyDraft := some s.state } : Editor).showHistory newIndex older
  else s.showHistory newIndex older

/-! ## Completion -/

def setAutocompleteProvider (s : Editor) (provider : AutocompleteProvider) : Editor :=
  { s.cancelAutocomplete with autocompleteProvider := some provider }

/-- What is pushed and applied where an item is taken. -/
def applyItem (s : Editor) (provider : AutocompleteProvider) (item : AutocompleteItem)
    (autocompletePrefix : Text) : Editor :=
  let s := { s.pushUndoSnapshot with lastAction := none }
  let result := provider.applyCompletion s.state.lines s.state.cursorLine s.state.cursorCol item
    autocompletePrefix
  ({ s with state := { s.state with lines := result.lines, cursorLine := result.cursorLine } } :
    Editor).setCursorCol result.cursorCol

def selectedItem (ui : Autocomplete) : Option AutocompleteItem :=
  if ui.selectedIndex < 0 then none else ui.items[ui.selectedIndex.toNat]?

/-- `getBestAutocompleteMatchIndex` -/
def bestMatchIndex (items : List AutocompleteItem) (autocompletePrefix : Text) : Int :=
  if autocompletePrefix = [] then 0
  else
    match items.findIdx? (·.value = autocompletePrefix) with
    | some i => i
    | none => ((items.findIdx? fun item => autocompletePrefix.isPrefixOf item.value).getD 0 : Nat)

/-- What a provider suggests. -/
structure AutocompleteSuggestions where
  items : List AutocompleteItem
  suggestedPrefix : Text

/-- The request is answered; `isCurrent` is `isAutocompleteRequestCurrent`. -/
def suggestionsArrived (s : Editor) (isCurrent force explicitTab : Bool)
    (suggestions : Option AutocompleteSuggestions) : Editor :=
  match s.autocompleteProvider with
  | none => s
  | some provider =>
    if !isCurrent then s
    else
      match suggestions.map fun found => (found.items, found.suggestedPrefix) with
      | none | some ([], _) => s.cancelAutocomplete
      | some (item :: rest, autocompletePrefix) =>
        if force ∧ explicitTab ∧ rest = [] then s.applyItem provider item autocompletePrefix
        else
          { s with autocomplete := some {
              force, autocompletePrefix, items := item :: rest
              selectedIndex := bestMatchIndex (item :: rest) autocompletePrefix } }

/-! ## Keys -/

/-- What a key makes the editor do. -/
inductive Command where
  | nothing
  | undo
  | cancelAutocomplete
  | selectItem (up : Bool)
  | applyItem (provider : AutocompleteProvider) (item : AutocompleteItem) (autocompletePrefix : Text)
  | deleteToEndOfLine | deleteToStartOfLine | deleteWordBackwards | deleteWordForward
  | handleBackspace | handleForwardDelete | yank | yankPop
  | moveToLineStart | moveToLineEnd | moveWordBackwards | moveWordForwards
  | backspaceAndSubmit | backspaceAndNewLine | addNewLine | submitValue
  | navigateHistory (older : Bool)
  | moveCursor (deltaLine deltaCol : Int)
  | pageScroll (direction : Int)
  | jump (direction : Direction)
  | insertCharacter (char : Text)

def perform (h : Host) (s : Editor) : Command → Editor
  | .nothing => s
  | .undo => s.undo
  | .cancelAutocomplete => s.cancelAutocomplete
  | .selectItem up =>
    { s with autocomplete := s.autocomplete.map fun ui =>
        let last := (ui.items.length : Int) - 1
        { ui with selectedIndex :=
            if up then (if ui.selectedIndex = 0 then last else ui.selectedIndex - 1)
            else if ui.selectedIndex = last then 0 else ui.selectedIndex + 1 } }
  | .applyItem provider item autocompletePrefix =>
    (s.applyItem provider item autocompletePrefix).cancelAutocomplete
  | .deleteToEndOfLine => s.deleteToEndOfLine
  | .deleteToStartOfLine => s.deleteToStartOfLine
  | .deleteWordBackwards => s.deleteWordBackwards h
  | .deleteWordForward => s.deleteWordForward h
  | .handleBackspace => s.handleBackspace h
  | .handleForwardDelete => s.handleForwardDelete h
  | .yank => s.yank
  | .yankPop => s.yankPop
  | .moveToLineStart => s.moveToLineStart
  | .moveToLineEnd => s.moveToLineEnd
  | .moveWordBackwards => s.moveWordBackwards h
  | .moveWordForwards => s.moveWordForwards h
  | .backspaceAndSubmit => (s.handleBackspace h).submitValue
  | .backspaceAndNewLine => (s.handleBackspace h).addNewLine
  | .addNewLine => s.addNewLine
  | .submitValue => s.submitValue
  | .navigateHistory older => s.navigateHistory older
  | .moveCursor deltaLine deltaCol => s.moveCursor h deltaLine deltaCol
  | .pageScroll direction => s.pageScroll h direction
  | .jump direction => { s with jumpMode := some direction }
  | .insertCharacter char => s.insertCharacter char

/-- `data.charCodeAt(0)` is at least 32. -/
def isCharacter (data : Text) : Bool := data.head?.any (32 ≤ ·)

/-- The character in front of the cursor is a backslash. -/
def isBehindBackslash (s : Editor) : Bool :=
  0 < s.state.cursorCol ∧ s.currentLine[(s.state.cursorCol - 1).toNat]? = some 92

/-- The sequences that terminals send for a new line. -/
def isNewLine (h : Host) (data : Text) : Bool :=
  h.matchesAction data .newLine || (data.head? = some 10 && 1 < data.length) ||
    data = [27, 13] || data = 27 :: ascii "[13;2~" ||
    (1 < data.length && data.contains 27 && data.contains 13) || data = [10]

def shouldSubmitOnBackslashEnter (h : Host) (s : Editor) (data : Text) : Bool :=
  !s.disableSubmit && h.matchesKey data .enter && h.submitsOnShiftEnter && s.isBehindBackslash

/-- The keys behind those of the picker. -/
def keyCommand (h : Host) (s : Editor) (data : Text) : Command :=
  -- Tab asks for suggestions
  if h.matchesAction data .tab ∧ s.autocomplete.isNone then .nothing
  else if h.matchesAction data .deleteToLineEnd then .deleteToEndOfLine
  else if h.matchesAction data .deleteToLineStart then .deleteToStartOfLine
  else if h.matchesAction data .deleteWordBackward then .deleteWordBackwards
  else if h.matchesAction data .deleteWordForward then .deleteWordForward
  else if h.matchesAction data .deleteCharBackward ∨ h.matchesKey data .shiftBackspace then
    .handleBackspace
  else if h.matchesAction data .deleteCharForward ∨ h.matchesKey data .shiftDelete then
    .handleForwardDelete
  else if h.matchesAction data .yank then .yank
  else if h.matchesAction data .yankPop then .yankPop
  else if h.matchesAction data .cursorLineStart then .moveToLineStart
  else if h.matchesAction data .cursorLineEnd then .moveToLineEnd
  else if h.matchesAction data .cursorWordLeft then .moveWordBackwards
  else if h.matchesAction data .cursorWordRight then .moveWordForwards
  else if isNewLine h data then
    if s.shouldSubmitOnBackslashEnter h data then .backspaceAndSubmit else .addNewLine
  else if h.matchesAction data .submit then
    if s.disableSubmit then .nothing
    else if s.isBehindBackslash then .backspaceAndNewLine
    else .submitValue
  else if h.matchesAction data .cursorUp then
    if s.isOnFirstVisualLine h ∧ (s.isEditorEmpty ∨ -1 < s.historyIndex ∨ s.state.cursorCol = 0) then
      .navigateHistory true
    else if s.isOnFirstVisualLine h then .moveToLineStart
    else .moveCursor (-1) 0
  else if h.matchesAction data .cursorDown then
    if -1 < s.historyIndex ∧ s.isOnLastVisualLine h then .navigateHistory false
    else if s.isOnLastVisualLine h then .moveToLineEnd
    else .moveCursor 1 0
  else if h.matchesAction data .cursorRight then .moveCursor 0 1
  else if h.matchesAction data .cursorLeft then .moveCursor 0 (-1)
  else if h.matchesAction data .pageUp then .pageScroll (-1)
  else if h.matchesAction data .pageDown then .pageScroll 1
  else if h.matchesAction data .jumpForward then .jump .forward
  else if h.matchesAction data .jumpBackward then .jump .backward
  else if h.matchesKey data .shiftSpace then .insertCharacter [32]
  else
    match h.decodePrintableKey data with
    | some printable => .insertCharacter printable
    | none => if isCharacter data then .insertCharacter data else .nothing

/-- The command of a key, and whether the key goes on to `keyCommand` behind it. -/
def firstCommand (h : Host) (s : Editor) (data : Text) : Command × Bool :=
  if h.matchesAction data .copy then (.nothing, false)
  else if h.matchesAction data .undo then (.undo, false)
  else
    match s.autocomplete with
    | none => (s.keyCommand h data, false)
    | some ui =>
      let taken := do
        let item ← selectedItem ui
        let provider ← s.autocompleteProvider
        some (Command.applyItem provider item ui.autocompletePrefix)
      if h.matchesAction data .selectCancel then (.cancelAutocomplete, false)
      else if h.matchesAction data .selectUp then (.selectItem true, false)
      else if h.matchesAction data .selectDown then (.selectItem false, false)
      else if h.matchesAction data .tab then (taken.getD .nothing, false)
      else if h.matchesAction data .selectConfirm then
        match taken with
        -- a slash command falls through to submit
        | some command => (command, ui.autocompletePrefix.head? = some 47)
        | none => (s.keyCommand h data, false)
      else (s.keyCommand h data, false)

def handleKey (h : Host) (s : Editor) (data : Text) : Editor :=
  let (command, goesOn) := s.firstCommand h data
  let s := s.perform h command
  if goesOn then s.perform h (s.keyCommand h data) else s

/-! ## Input -/

def pasteStart : Text := 27 :: ascii "[200~"
def pasteEnd : Text := 27 :: ascii "[201~"

/-- `data.replace(pattern, "")` -/
def removeFirst (data pattern : Text) : Text :=
  match Lib.Js.indexOf data pattern 0 with
  | some i => data.take i ++ data.drop (i + pattern.length)
  | none => data

/-- What is left of an input for the keys. -/
inductive Remaining where
  | nothing
  | key (data : Text)
  /-- The text behind a paste, which is handled as an input of its own. -/
  | input (data : Text)

/-- The jump mode of an input, and whether the input ends there. -/
def handleJumpMode (h : Host) (s : Editor) (data : Text) : Editor × Bool :=
  match s.jumpMode with
  | none => (s, false)
  | some direction =>
    let s := { s with jumpMode := none }
    if h.matchesAction data .jumpForward ∨ h.matchesAction data .jumpBackward then (s, true)
    else
      match (h.decodePrintableKey data).or (if isCharacter data then some data else none) with
      | some printable => (s.jumpToChar printable direction, true)
      -- a control character cancels the mode
      | none => (s, false)

/-- A bracketed paste, which may come in pieces. -/
def handlePasteMode (s : Editor) (data : Text) : Editor × Remaining :=
  let starts := (Lib.Js.indexOf data pasteStart 0).isSome
  let s := if starts then { s with isInPaste := true, pasteBuffer := [] } else s
  let data := if starts then removeFirst data pasteStart else data
  if s.isInPaste then
    let pasteBuffer := s.pasteBuffer ++ data
    match Lib.Js.indexOf pasteBuffer pasteEnd 0 with
    | none => ({ s with pasteBuffer }, .nothing)
    | some endIndex =>
      let content := pasteBuffer.take endIndex
      let s := if content = [] then s else s.handlePaste content
      let remaining := pasteBuffer.drop (endIndex + 6)
      ({ s with isInPaste := false, pasteBuffer := [] },
        if remaining = [] then .nothing else .input remaining)
  else (s, .key data)

def beforeKeys (h : Host) (s : Editor) (data : Text) : Editor × Remaining :=
  match s.handleJumpMode h data with
  | (s, true) => (s, .nothing)
  | (s, false) => s.handlePasteMode data

/-- `none` where there are more pastes than `fuel` in one input. -/
def handleInput (h : Host) : Nat → Editor → Text → Option Editor
  | 0, _, _ => none
  | fuel + 1, s, data =>
    match s.beforeKeys h data with
    | (s, .nothing) => some s
    | (s, .key data) => some (s.handleKey h data)
    | (s, .input data) => handleInput h fuel s data

end Editor

end PieLab.Tui

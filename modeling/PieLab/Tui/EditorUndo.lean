import Mathlib.Data.List.TakeWhile
import Mathlib.Logic.Function.Iterate
import PieLab.Tui.Editor

/-
  Undo in the editor

  Every command that edits takes a snapshot in front of its edit, but for a character
  that goes on with a word, a step through the history, and a key that does two things.
  So the snapshots lead back to the empty text, and the last one to the state in front
  of the last edit.

  A key that confirms a slash command falls through to submit, and on the way there to
  every other command that the key is bound to; such a key may be two commands.

  What is proved:
    1. `perform_exact`, `perform_stands` — what one command does to the snapshots.
    2. `Reached.stands` — in every run the oldest snapshot is the empty text.
    3. `undo_exact` — undoing everything gives the empty text, and undoing one command
       the state in front of it.
-/

open PieLab.Lib.Js

namespace PieLab.Tui

variable {current : Int} {command : Command} {data : Text}

namespace Editor

/-! ## Runs -/

/-- What happens to an editor. -/
inductive Op where
  | input (fuel : Nat) (data : Text)
  | setText (text : Text)
  | insertTextAtCursor (text : Text)
  | suggestionsArrived (isCurrent force explicitTab : Bool)
      (suggestions : Option AutocompleteSuggestions)
  | setAutocompleteProvider (provider : AutocompleteProvider)
  | addToHistory (text : Text)
  | setDisableSubmit (disableSubmit : Bool)
  | render (width : Int)

def apply (h : Host) (s : Editor) : Op → Option Editor
  | .input fuel data => s.handleInput h fuel data
  | .setText text => some (s.setText text)
  | .insertTextAtCursor text => some (s.insertTextAtCursor text)
  | .suggestionsArrived isCurrent force explicitTab suggestions =>
    some (s.suggestionsArrived isCurrent force explicitTab suggestions)
  | .setAutocompleteProvider provider => some (s.setAutocompleteProvider provider)
  | .addToHistory text => some (s.addToHistory text)
  | .setDisableSubmit disableSubmit => some { s with disableSubmit }
  | .render width => some { s with lastWidth := width }

/-- The editors that are reached from a new one without a submit. The terminal may be resized,
and the keys bound anew, between two operations. -/
inductive Reached : Editor → Prop where
  | new : Reached .new
  | op {s t : Editor} (h : Host) (hs : Reached s) (op : Op) (happly : s.apply h op = some t)
      (hsubmits : t.submits = s.submits) : Reached t

/-- A command is undone by itself: it is no undo and no submit, no step through the history, no
backslash with Enter, and no character that goes on with a word. -/
def Single (s : Editor) : Command → Prop
  | .undo | .submitValue | .backspaceAndSubmit | .backspaceAndNewLine | .navigateHistory _ => False
  | .insertCharacter char => isWhitespaceChar char ∨ s.lastAction ≠ some .typeWord
  | _ => True

/-- The commands that edit the text. -/
def Command.Edits : Command → Prop
  | .nothing | .cancelAutocomplete | .selectItem _ | .moveToLineStart | .moveToLineEnd
  | .moveWordBackwards | .moveWordForwards | .moveCursor _ _ | .pageScroll _ | .jump _ => False
  | _ => True

/-- The operation is a single command: the text behind a paste is an input of its own, and a key
that completes a slash command goes on to nothing that edits. -/
def SingleOp (h : Host) (s : Editor) : Op → Prop
  | .input _ data =>
    match s.beforeKeys h data with
    | (_, .nothing) => True
    | (s, .key data) =>
      s.Single (s.firstCommand h data).1 ∧
        ((s.firstCommand h data).2 = true →
          ¬ ((s.perform h (s.firstCommand h data).1).keyCommand h data).Edits)
    | (_, .input _) => False
  | _ => True

/-! ## What a command does to the snapshots -/

/-- The column that vertical moves go back to is not in front of the line. -/
def SnapOk (s : Editor) : Prop := ∀ col, s.snappedFromCursorCol = some col → 0 ≤ col

/-- An editor that has nothing to undo. -/
structure AtStart (s : Editor) : Prop where
  state : s.state = .empty
  lastAction : s.lastAction ≠ some .typeWord
  historyIndex : s.historyIndex = -1
  preferred : ∀ col, s.preferredVisualCol = some col → 0 ≤ col

/-- The oldest snapshot is the empty text, and without snapshots the text is empty. -/
structure Stands (s : Editor) : Prop where
  oldest : ∀ snapshot, s.undoStack.getLast? = some snapshot → snapshot = .empty
  start : s.undoStack = [] → AtStart s
  snapped : SnapOk s

/-- At most one snapshot is taken, of the state in front. -/
structure Keeps (s t : Editor) : Prop where
  stack : t.undoStack = s.state :: s.undoStack ∨ t.undoStack = s.undoStack
  snapped : SnapOk s → SnapOk t
  start : t.undoStack = [] → AtStart s → SnapOk s → AtStart t
  submits : t.submits = s.submits

/-- And without one the text stays. -/
structure Exact (s t : Editor) : Prop extends Keeps s t where
  text : t.undoStack = s.undoStack → t.getText = s.getText

variable {h : Host} {s t u : Editor}

theorem Keeps.stands (hkeeps : Keeps s t) (hs : Stands s) : Stands t where
  oldest := by
    intro snapshot hlast
    rcases hkeeps.stack with hstack | hstack
    · rw [hstack] at hlast
      cases hrest : s.undoStack with
      | nil =>
        rw [hrest] at hlast
        obtain rfl : s.state = snapshot := by simpa using hlast
        exact (hs.start hrest).state
      | cons first rest =>
        rw [hrest, List.getLast?_cons_cons, ← hrest] at hlast
        exact hs.oldest snapshot hlast
    · exact hs.oldest snapshot (hstack ▸ hlast)
  start := by
    intro hempty
    rcases hkeeps.stack with hstack | hstack
    · rw [hstack] at hempty
      cases hempty
    · exact hkeeps.start hempty (hs.start (hstack ▸ hempty)) hs.snapped
  snapped := hkeeps.snapped hs.snapped

theorem Exact.pushed (hstack : t.undoStack = s.state :: s.undoStack)
    (hsnapped : t.snappedFromCursorCol = none ∨ t.snappedFromCursorCol = s.snappedFromCursorCol)
    (hsubmits : t.submits = s.submits) : Exact s t where
  stack := .inl hstack
  submits := hsubmits
  snapped := by
    intro hs col hcol
    rcases hsnapped with hnone | hsame
    · rw [hnone] at hcol
      cases hcol
    · exact hs col (hsame ▸ hcol)
  start := by
    intro hempty
    rw [hstack] at hempty
    cases hempty
  text := by
    intro hsame
    rw [hstack] at hsame
    exact absurd hsame (List.cons_ne_self _ _)

theorem Exact.unchanged (hstate : t.state = s.state) (hstack : t.undoStack = s.undoStack)
    (hsnapped : t.snappedFromCursorCol = s.snappedFromCursorCol)
    (hpreferred : t.preferredVisualCol = s.preferredVisualCol)
    (hlast : t.lastAction = none ∨ t.lastAction = s.lastAction)
    (hindex : t.historyIndex = -1 ∨ t.historyIndex = s.historyIndex)
    (hsubmits : t.submits = s.submits) : Exact s t where
  stack := .inr hstack
  submits := hsubmits
  snapped := fun hs col hcol => hs col (hsnapped ▸ hcol)
  start := by
    intro _ hs _
    refine ⟨hstate.trans hs.state, ?_, ?_, fun col hcol => hs.preferred col (hpreferred ▸ hcol)⟩
    · rcases hlast with hnone | hsame
      · simp [hnone]
      · exact hsame ▸ hs.lastAction
    · rcases hindex with hnone | hsame
      · exact hnone
      · exact hsame.trans hs.historyIndex
  text := fun _ => congrArg EditorState.text hstate

theorem undo_stands (hs : Stands s) : Stands s.undo := by
  simp only [undo, exitHistoryBrowsing]
  cases hstack : s.undoStack with
  | nil =>
    have hstart := hs.start hstack
    refine ⟨fun snapshot hlast => ?_, fun _ => ?_, hs.snapped⟩
    · cases hlast
    · exact ⟨hstart.state, hstart.lastAction, rfl, hstart.preferred⟩
  | cons snapshot rest =>
    refine ⟨fun oldest hlast => ?_, fun hempty => ?_, hs.snapped⟩
    · cases rest with
      | nil => cases hlast
      | cons next rest => exact hs.oldest oldest (by rw [hstack, List.getLast?_cons_cons]; exact hlast)
    · obtain rfl : rest = [] := hempty
      have holdest := hs.oldest snapshot (by rw [hstack]; rfl)
      exact ⟨holdest, by simp, rfl, by simp⟩

/-! ## The commands -/

theorem insertTextAtCursorInternal_frame (s : Editor) (text : Text) :
    (s.insertTextAtCursorInternal text).undoStack = s.undoStack ∧
      ((s.insertTextAtCursorInternal text).snappedFromCursorCol = none ∨
        (s.insertTextAtCursorInternal text).snappedFromCursorCol = s.snappedFromCursorCol) ∧
      (s.insertTextAtCursorInternal text).submits = s.submits := by
  simp only [insertTextAtCursorInternal]
  split
  · exact ⟨rfl, .inr rfl, rfl⟩
  · split <;> exact ⟨rfl, .inl rfl, rfl⟩

theorem insertYankedText_frame (s : Editor) (text : Text) :
    (s.insertYankedText text).undoStack = s.undoStack ∧
      (s.insertYankedText text).snappedFromCursorCol = none ∧
      (s.insertYankedText text).submits = s.submits := by
  simp only [insertYankedText]
  split <;> exact ⟨rfl, rfl, rfl⟩

theorem deleteYankedText_frame (s : Editor) :
    s.deleteYankedText.undoStack = s.undoStack ∧ s.deleteYankedText.submits = s.submits := by
  simp only [deleteYankedText]
  split
  · exact ⟨rfl, rfl⟩
  · split
    · exact ⟨rfl, rfl⟩
    · split <;> exact ⟨rfl, rfl⟩

theorem moveWordBackwards_frame (h : Host) (s : Editor) :
    (s.moveWordBackwards h).undoStack = s.undoStack ∧
      (s.moveWordBackwards h).state.lines = s.state.lines ∧
      (s.moveWordBackwards h).submits = s.submits := by
  simp only [moveWordBackwards]
  split
  · split <;> exact ⟨rfl, rfl, rfl⟩
  · exact ⟨rfl, rfl, rfl⟩

theorem moveWordForwards_frame (h : Host) (s : Editor) :
    (s.moveWordForwards h).undoStack = s.undoStack ∧
      (s.moveWordForwards h).state.lines = s.state.lines ∧
      (s.moveWordForwards h).submits = s.submits := by
  simp only [moveWordForwards]
  split
  · split <;> exact ⟨rfl, rfl, rfl⟩
  · exact ⟨rfl, rfl, rfl⟩

theorem insertTextAtCursor_exact (s : Editor) (text : Text) :
    Exact s (s.insertTextAtCursor text) := by
  simp only [insertTextAtCursor]
  split
  · exact .unchanged rfl rfl rfl rfl (.inr rfl) (.inr rfl) rfl
  · obtain ⟨hstack, hsnapped, hsubmits⟩ := insertTextAtCursorInternal_frame
      ({ s.cancelAutocomplete.pushUndoSnapshot with lastAction := none } : Editor).exitHistoryBrowsing text
    exact .pushed hstack hsnapped hsubmits

theorem handlePaste_exact (s : Editor) (text : Text) : Exact s (s.handlePaste text) := by
  simp only [handlePaste]
  split
  · obtain ⟨hstack, hsnapped, hsubmits⟩ := insertTextAtCursorInternal_frame _ _
    exact .pushed hstack hsnapped hsubmits
  · obtain ⟨hstack, hsnapped, hsubmits⟩ := insertTextAtCursorInternal_frame _ _
    exact .pushed hstack hsnapped hsubmits

theorem addNewLine_exact (s : Editor) : Exact s s.addNewLine := .pushed rfl (.inl rfl) rfl

theorem handleBackspace_exact (h : Host) (s : Editor) : Exact s (s.handleBackspace h) := by
  simp only [handleBackspace]
  split
  · exact .pushed rfl (.inl rfl) rfl
  · split
    · exact .pushed rfl (.inl rfl) rfl
    · exact .unchanged rfl rfl rfl rfl (.inl rfl) (.inl rfl) rfl

theorem handleForwardDelete_exact (h : Host) (s : Editor) : Exact s (s.handleForwardDelete h) := by
  simp only [handleForwardDelete]
  split
  · exact .pushed rfl (.inr rfl) rfl
  · split
    · exact .pushed rfl (.inr rfl) rfl
    · exact .unchanged rfl rfl rfl rfl (.inl rfl) (.inl rfl) rfl

theorem deleteToStartOfLine_exact (s : Editor) : Exact s s.deleteToStartOfLine := by
  simp only [deleteToStartOfLine]
  split
  · exact .pushed rfl (.inl rfl) rfl
  · split
    · exact .pushed rfl (.inl rfl) rfl
    · exact .unchanged rfl rfl rfl rfl (.inr rfl) (.inl rfl) rfl

theorem deleteToEndOfLine_exact (s : Editor) : Exact s s.deleteToEndOfLine := by
  simp only [deleteToEndOfLine]
  split
  · exact .pushed rfl (.inr rfl) rfl
  · split
    · exact .pushed rfl (.inr rfl) rfl
    · exact .unchanged rfl rfl rfl rfl (.inr rfl) (.inl rfl) rfl

theorem deleteWordBackwards_exact (h : Host) (s : Editor) : Exact s (s.deleteWordBackwards h) := by
  simp only [deleteWordBackwards]
  split
  · split
    · exact .pushed rfl (.inl rfl) rfl
    · exact .unchanged rfl rfl rfl rfl (.inr rfl) (.inl rfl) rfl
  · obtain ⟨hstack, -, hsubmits⟩ := moveWordBackwards_frame h s.exitHistoryBrowsing.pushUndoSnapshot
    exact .pushed hstack (.inl rfl) hsubmits

theorem deleteWordForward_exact (h : Host) (s : Editor) : Exact s (s.deleteWordForward h) := by
  simp only [deleteWordForward]
  split
  · split
    · exact .pushed rfl (.inr rfl) rfl
    · exact .unchanged rfl rfl rfl rfl (.inr rfl) (.inl rfl) rfl
  · obtain ⟨hstack, -, hsubmits⟩ := moveWordForwards_frame h s.exitHistoryBrowsing.pushUndoSnapshot
    exact .pushed hstack (.inl rfl) hsubmits

theorem yank_exact (s : Editor) : Exact s s.yank := by
  simp only [yank]
  split
  · exact .unchanged rfl rfl rfl rfl (.inr rfl) (.inr rfl) rfl
  · rename_i text older hring
    obtain ⟨hstack, hsnapped, hsubmits⟩ := insertYankedText_frame s.pushUndoSnapshot text
    exact .pushed hstack (.inl hsnapped) hsubmits

theorem yankPop_exact (s : Editor) : Exact s s.yankPop := by
  simp only [yankPop]
  split
  · exact .unchanged rfl rfl rfl rfl (.inr rfl) (.inr rfl) rfl
  · obtain ⟨hstack, hsnapped, hsubmits⟩ := insertYankedText_frame
      { s.pushUndoSnapshot.deleteYankedText with
        killRing := s.pushUndoSnapshot.deleteYankedText.killRing.rotate }
      (s.pushUndoSnapshot.deleteYankedText.killRing.rotate.head?.getD [])
    obtain ⟨hstack', hsubmits'⟩ := deleteYankedText_frame s.pushUndoSnapshot
    exact .pushed (hstack.trans hstack') (.inl hsnapped) (hsubmits.trans hsubmits')

theorem applyItem_exact (s : Editor) (provider : AutocompleteProvider) (item : AutocompleteItem)
    (autocompletePrefix : Text) : Exact s (s.applyItem provider item autocompletePrefix) :=
  .pushed rfl (.inl rfl) rfl

theorem splitLines_nil : splitLines [] = [[]] := by
  simp [splitLines]

theorem setText_exact (s : Editor) (text : Text) : Exact s (s.setText text) := by
  simp only [setText]
  split
  · exact .pushed rfl (.inl rfl) rfl
  · rename_i hsame
    have hnormalized : normalizeText text = s.getText := (not_not.1 hsame).symm
    rw [hnormalized]
    refine ⟨⟨.inr rfl, fun _ col hcol => (by cases hcol), fun _ hs _ => ?_, rfl⟩, fun _ => ?_⟩
    · have hempty : s.getText = [] := by
        rw [getText, hs.state]
        rfl
      rw [hempty]
      refine ⟨?_, (fun hword => by cases hword), rfl, ?_⟩
      · simp only [setTextInternal, splitLines_nil]
        rfl
      · intro col hcol
        cases hcol
    · exact List.intercalate_splitOn 10

theorem insertCharacter_exact {char : Text}
    (hsingle : isWhitespaceChar char ∨ s.lastAction ≠ some .typeWord) :
    Exact s (s.insertCharacter char) := by
  have hfirst : isWhitespaceChar char ∨ s.exitHistoryBrowsing.lastAction ≠ some .typeWord := hsingle
  simp only [insertCharacter, hfirst, if_true]
  exact .pushed rfl (.inl rfl) rfl

theorem insertCharacter_keeps (s : Editor) (char : Text) : Keeps s (s.insertCharacter char) := by
  by_cases hsingle : isWhitespaceChar char ∨ s.lastAction ≠ some .typeWord
  · exact (insertCharacter_exact hsingle).toKeeps
  · have hfirst : ¬ (isWhitespaceChar char ∨ s.exitHistoryBrowsing.lastAction ≠ some .typeWord) :=
      hsingle
    simp only [insertCharacter, hfirst, if_false]
    refine ⟨.inr rfl, fun _ col hcol => (by cases hcol), fun _ hs _ => ?_, rfl⟩
    exact absurd (.inr hs.lastAction) hsingle

theorem showHistory_frame (s : Editor) (newIndex : Int) (older : Bool) :
    (s.showHistory newIndex older).undoStack = s.undoStack ∧
      (s.showHistory newIndex older).snappedFromCursorCol = none ∧
      (s.showHistory newIndex older).submits = s.submits := by
  simp only [showHistory]
  split
  · split <;> exact ⟨rfl, rfl, rfl⟩
  · exact ⟨rfl, rfl, rfl⟩

theorem navigateHistory_keeps (s : Editor) (older : Bool) : Keeps s (s.navigateHistory older) := by
  simp only [navigateHistory]
  generalize hnew : (if older = true then s.historyIndex + 1 else s.historyIndex - 1) = newIndex
  by_cases hstays : s.history = [] ∨ newIndex < -1 ∨ (s.history.length : Int) ≤ newIndex
  · rw [if_pos hstays]
    have hsame : Exact s { s with lastAction := none } :=
      .unchanged rfl rfl rfl rfl (.inl rfl) (.inr rfl) rfl
    exact hsame.toKeeps
  · rw [if_neg hstays]
    by_cases hfirst : s.historyIndex = -1 ∧ 0 ≤ newIndex
    · rw [if_pos hfirst]
      obtain ⟨hstack, hsnapped, hsubmits⟩ := showHistory_frame
        { ({ s with lastAction := none } : Editor).pushUndoSnapshot with historyDraft := some s.state }
        newIndex older
      exact (Exact.pushed (s := s) hstack (.inl hsnapped) hsubmits).toKeeps
    · rw [if_neg hfirst]
      obtain ⟨hstack, hsnapped, hsubmits⟩ :=
        showHistory_frame { s with lastAction := none } newIndex older
      refine ⟨.inr hstack, fun _ col hcol => ?_, fun _ hs _ => ?_, hsubmits⟩
      · rw [hsnapped] at hcol
        cases hcol
      · -- an editor at its start is not in the history
        have hindex := hs.historyIndex
        cases older with
        | true => exact absurd ⟨hindex, by simp only [if_true] at hnew; omega⟩ hfirst
        | false =>
          simp only [Bool.false_eq_true, if_false] at hnew
          exact absurd (.inr (.inl (by omega))) hstays

/-! ## Moves -/

theorem Exact.moved (hlines : t.state.lines = s.state.lines) (hstack : t.undoStack = s.undoStack)
    (hsnapped : SnapOk s → SnapOk t) (hlast : t.lastAction = none)
    (hindex : t.historyIndex = s.historyIndex)
    (hstart : s.state = .empty → SnapOk s → (∀ col, s.preferredVisualCol = some col → 0 ≤ col) →
      t.state = .empty ∧ ∀ col, t.preferredVisualCol = some col → 0 ≤ col)
    (hsubmits : t.submits = s.submits) : Exact s t where
  stack := .inr hstack
  submits := hsubmits
  snapped := hsnapped
  start := by
    intro _ hs hok
    obtain ⟨hstate, hpreferred⟩ := hstart hs.state hok hs.preferred
    exact ⟨hstate, by simp [hlast], hindex.trans hs.historyIndex, hpreferred⟩
  text := by
    intro _
    simp only [getText, EditorState.text, hlines]

theorem snapOk_none (hnone : t.snappedFromCursorCol = none) : SnapOk t := by
  intro col hcol
  rw [hnone] at hcol
  cases hcol

theorem moveToLineStart_exact (s : Editor) : Exact s s.moveToLineStart := by
  refine .moved rfl rfl (fun _ => snapOk_none rfl) rfl rfl
    (fun hstate _ _ => ⟨?_, fun _ h => by cases h⟩) rfl
  simp only [moveToLineStart, setCursorCol, hstate]
  rfl

theorem moveToLineEnd_exact (s : Editor) : Exact s s.moveToLineEnd := by
  refine .moved rfl rfl (fun _ => snapOk_none rfl) rfl rfl
    (fun hstate _ _ => ⟨?_, fun _ h => by cases h⟩) rfl
  simp only [moveToLineEnd, setCursorCol, currentLine, lineAt, hstate]
  rfl

theorem moveWordBackwards_exact (h : Host) (s : Editor) : Exact s (s.moveWordBackwards h) := by
  obtain ⟨hstack, hlines, hsubmits⟩ := moveWordBackwards_frame h s
  refine .moved hlines hstack ?_ ?_ ?_ ?_ hsubmits
  · simp only [moveWordBackwards]
    split
    · split
      · exact fun _ => snapOk_none rfl
      · exact id
    · exact fun _ => snapOk_none rfl
  · simp only [moveWordBackwards]
    split
    · split <;> rfl
    · rfl
  · simp only [moveWordBackwards]
    split
    · split <;> rfl
    · rfl
  · intro hstate _ hpreferred
    have hcol : s.state.cursorCol = 0 := by rw [hstate]; rfl
    have hline : ¬ 0 < s.state.cursorLine := by rw [hstate]; simp [EditorState.empty]
    simp only [moveWordBackwards, hcol, hline, if_true, if_false]
    exact ⟨hstate, hpreferred⟩

theorem moveWordForwards_exact (h : Host) (s : Editor) : Exact s (s.moveWordForwards h) := by
  obtain ⟨hstack, hlines, hsubmits⟩ := moveWordForwards_frame h s
  refine .moved hlines hstack ?_ ?_ ?_ ?_ hsubmits
  · simp only [moveWordForwards]
    split
    · split
      · exact fun _ => snapOk_none rfl
      · exact id
    · exact fun _ => snapOk_none rfl
  · simp only [moveWordForwards]
    split
    · split <;> rfl
    · rfl
  · simp only [moveWordForwards]
    split
    · split <;> rfl
    · rfl
  · intro hstate _ hpreferred
    have hcol : ((({ s with lastAction := none } : Editor).currentLine).length : Int) ≤
        s.state.cursorCol := by
      simp only [currentLine, lineAt, hstate]
      decide
    have hline : ¬ s.state.cursorLine < (s.state.lines.length : Int) - 1 := by
      rw [hstate]
      simp [EditorState.empty]
    simp only [moveWordForwards, hcol, hline, if_true, if_false]
    exact ⟨hstate, hpreferred⟩

theorem jumpToChar_exact (s : Editor) (char : Text) (direction : Direction) :
    Exact s (s.jumpToChar char direction) := by
  simp only [jumpToChar]
  generalize hfound : (({ s with lastAction := none } : Editor).jumpLines direction).findSome? _ = found
  cases found with
  | none => exact .unchanged rfl rfl rfl rfl (.inl rfl) (.inr rfl) rfl
  | some found =>
    obtain ⟨line, col⟩ := found
    refine .moved rfl rfl (fun _ => snapOk_none rfl) rfl rfl
      (fun hstate _ _ => ⟨?_, fun _ h => by cases h⟩) rfl
    obtain ⟨line', hline, hcol⟩ := List.exists_of_findSome?_eq_some hfound
    obtain ⟨col', hcol', heq⟩ := Option.map_eq_some_iff.1 hcol
    obtain ⟨rfl, rfl⟩ := Prod.mk.inj heq
    have hzero : line' = 0 := by
      cases direction <;> simpa [jumpLines, hstate, EditorState.empty] using hline
    subst hzero
    have hcol0 : col' = 0 := by
      cases direction with
      | forward =>
        have := Lib.Js.indexOf_le hcol'
        simpa [lineAt, hstate, EditorState.empty, itemAt] using this
      | backward =>
        have := lastIndexOf_le hcol'
        simpa [lineAt, hstate, EditorState.empty, itemAt] using this
    simp only [setCursorCol, setCursorLine, hstate, hcol0]
    rfl

/-- What a vertical move leaves alone. -/
structure SameText (s t : Editor) : Prop where
  lines : t.state.lines = s.state.lines
  undoStack : t.undoStack = s.undoStack
  snapped : SnapOk s → SnapOk t
  lastAction : t.lastAction = s.lastAction
  historyIndex : t.historyIndex = s.historyIndex
  submits : t.submits = s.submits

theorem SameText.refl (s : Editor) : SameText s s := ⟨rfl, rfl, id, rfl, rfl, rfl⟩

theorem SameText.trans (hst : SameText s t) (htu : SameText t u) : SameText s u :=
  ⟨htu.1.trans hst.1, htu.2.trans hst.2, fun hs => htu.3 (hst.3 hs), htu.4.trans hst.4,
    htu.5.trans hst.5, htu.6.trans hst.6⟩

theorem segmentAround_le {segments : List SegmentData} {col : Int} {seg : SegmentData}
    (hseg : segmentAround segments col = some seg) : (seg.index : Int) ≤ col := by
  have hmem := List.mem_of_find?_eq_some hseg
  simpa using List.mem_takeWhile_imp hmem

theorem moveToVisualLine_sameText (h : Host) (visualLines : List VisualLine) (current : Nat)
    (fuel : Nat) (s : Editor) (target : Nat) :
    SameText s (moveToVisualLine h visualLines current fuel s target) := by
  induction fuel generalizing s target with
  | zero => exact .refl s
  | succ fuel ih =>
    simp only [moveToVisualLine]
    split
    · rename_i currentVL targetVL hcurrent htarget
      generalize computeVerticalMoveColumn _ _ _ _ = column
      generalize hcol : min (targetVL.startCol + column.1) _ = cursorCol
      split
      · exact ⟨rfl, rfl, fun _ => snapOk_none rfl, rfl, rfl, rfl⟩
      · rename_i seg hseg
        split
        · have hrest := ih { s with
            preferredVisualCol := column.2
            state := { s.state with cursorLine := targetVL.logicalLine, cursorCol } }
          exact ⟨(hrest _).1, (hrest _).2, (hrest _).3, (hrest _).4, (hrest _).5,
            (hrest _).6⟩
        · refine ⟨rfl, rfl, fun _ col hsnap => ?_, rfl, rfl, rfl⟩
          obtain rfl := Option.some.inj hsnap
          have hle := segmentAround_le hseg
          omega
    · exact .refl s

theorem moveVertically_sameText (h : Host) (s : Editor) (visualLines : List VisualLine)
    (current target : Int) : SameText s (s.moveVertically h visualLines current target) := by
  simp only [moveVertically]
  split
  · exact .refl s
  · exact moveToVisualLine_sameText h visualLines _ _ s _

theorem segmentWithMarkers_nil (segmenter : Segmenter) (ids : List Nat) :
    segmentWithMarkers [] segmenter ids = [] := by
  have hnil : segmenter.segment [] = [] := by
    have hpartition := segmenter.partition []
    cases hsegments : segmenter.segment [] with
    | nil => rfl
    | cons seg rest =>
      rw [hsegments] at hpartition
      obtain ⟨-, hne, tail, htail, -⟩ := hpartition
      exact absurd (List.append_eq_nil_iff.1 htail.symm).1 hne
  simp [segmentWithMarkers, matchAll, hnil]

theorem buildVisualLineMap_empty {h : Host} (hstate : s.state = .empty) (width : Int) :
    s.buildVisualLineMap h width = [{ logicalLine := 0, startCol := 0, length := 0 }] := by
  simp [buildVisualLineMap, hstate, EditorState.empty, visualLinesOf]

theorem computeVerticalMoveColumn_nonneg {preferred : Option Int}
    (hpreferred : ∀ col, preferred = some col → 0 ≤ col) (hcurrent : 0 ≤ current) (source : Int)
    {target : Int} (htarget : 0 ≤ target) :
    0 ≤ (computeVerticalMoveColumn preferred current source target).1 ∧
      ∀ col, (computeVerticalMoveColumn preferred current source target).2 = some col → 0 ≤ col := by
  have hfromCurrent : ∀ column : Int × Option Int,
      column = (if target < current then (target, some current) else (current, none)) →
      0 ≤ column.1 ∧ ∀ col, column.2 = some col → 0 ≤ col := by
    intro column hcolumn
    split at hcolumn <;> simp [hcolumn, hcurrent, htarget]
  simp only [computeVerticalMoveColumn]
  cases preferred with
  | none => exact hfromCurrent _ rfl
  | some preferred =>
    have hpreferred := hpreferred preferred rfl
    simp only
    split
    · exact hfromCurrent _ rfl
    · split <;> simp [hpreferred, htarget]

theorem moveToVisualLine_empty (h : Host) (fuel : Nat) (hstate : s.state = .empty)
    (hsnapped : SnapOk s)
    (hpreferred : ∀ col, s.preferredVisualCol = some col → 0 ≤ col) :
    (moveToVisualLine h [{ logicalLine := 0, startCol := 0, length := 0 }] 0 fuel s 0).state = .empty ∧
      ∀ col, (moveToVisualLine h [{ logicalLine := 0, startCol := 0, length := 0 }] 0 fuel s
        0).preferredVisualCol = some col → 0 ≤ col := by
  cases fuel with
  | zero => exact ⟨hstate, hpreferred⟩
  | succ fuel =>
    have hlines : s.state.lines = [[]] := by rw [hstate]; rfl
    have hcol : s.state.cursorCol = 0 := by rw [hstate]; rfl
    have hline : s.lineAt 0 = [] := by simp [lineAt, hlines, itemAt]
    have hgraphemes : ∀ t : Editor, t.graphemes h [] = [] := fun _ => segmentWithMarkers_nil _ _
    have haround : ∀ col, segmentAround [] col = none := fun col => rfl
    have hmax : maxVisualCol [{ logicalLine := 0, startCol := 0, length := 0 }] 0
        { logicalLine := 0, startCol := 0, length := 0 } = 0 := rfl
    have hcurrent : 0 ≤ s.visualColFrom [{ logicalLine := 0, startCol := 0, length := 0 }]
        { logicalLine := 0, startCol := 0, length := 0 } := by
      simp only [visualColFrom]
      cases hsnap : s.snappedFromCursorCol with
      | none => simp [hcol]
      | some snapped =>
        simp only
        generalize (findVisualLineAt _ 0 snapped).toNat = i
        have hle := hsnapped snapped hsnap
        cases i <;> simpa using hle
    obtain ⟨hmoved, hkept⟩ :=
      computeVerticalMoveColumn_nonneg hpreferred hcurrent 0 (Int.le_refl 0)
    simp only [moveToVisualLine, List.getElem?_cons_zero, hline, hgraphemes, haround, hmax]
    refine ⟨?_, hkept⟩
    rw [hlines]
    simp only [EditorState.empty, EditorState.mk.injEq, true_and, List.length_nil, Int.zero_add]
    exact Int.min_eq_right hmoved

theorem moveVertically_empty (h : Host) {target : Int} (hstate : s.state = .empty)
    (hsnapped : SnapOk s) (hpreferred : ∀ col, s.preferredVisualCol = some col → 0 ≤ col)
    (hcurrent : current = 0) (htarget : target = 0) :
    (s.moveVertically h [{ logicalLine := 0, startCol := 0, length := 0 }] current target).state =
        .empty ∧
      ∀ col, (s.moveVertically h [{ logicalLine := 0, startCol := 0, length := 0 }] current
        target).preferredVisualCol = some col → 0 ≤ col := by
  subst hcurrent htarget
  exact moveToVisualLine_empty h _ hstate hsnapped hpreferred

theorem findCurrentVisualLine_empty (hstate : s.state = .empty) :
    s.findCurrentVisualLine [{ logicalLine := 0, startCol := 0, length := 0 }] = 0 := by
  rw [findCurrentVisualLine, hstate]
  rfl

theorem pageScroll_sameText (h : Host) (s : Editor) (direction : Int) :
    SameText { s with lastAction := none } (s.pageScroll h direction) :=
  moveVertically_sameText h _ _ _ _

theorem pageScroll_exact (h : Host) (s : Editor) (direction : Int) :
    Exact s (s.pageScroll h direction) := by
  have hsame := pageScroll_sameText h s direction
  refine .moved hsame.lines hsame.undoStack hsame.snapped hsame.lastAction hsame.historyIndex ?_
    hsame.submits
  intro hstate hsnapped hpreferred
  have hmap :=
    buildVisualLineMap_empty (s := { s with lastAction := none }) (h := h) hstate s.lastWidth
  have hcurrent := findCurrentVisualLine_empty (s := { s with lastAction := none }) hstate
  simp only [pageScroll]
  rw [hmap, hcurrent]
  refine moveVertically_empty h hstate hsnapped hpreferred rfl ?_
  simp only [List.length_singleton]
  omega

theorem moveHorizontally_sameText (h : Host) (s : Editor) (visualLines : List VisualLine)
    (current deltaCol : Int) : SameText s (s.moveHorizontally h visualLines current deltaCol) := by
  have hcol : ∀ col, SameText s (s.setCursorCol col) :=
    fun col => ⟨rfl, rfl, fun _ => snapOk_none rfl, rfl, rfl, rfl⟩
  simp only [moveHorizontally]
  split
  · split
    · exact hcol _
    · split
      · exact ⟨rfl, rfl, fun _ => snapOk_none rfl, rfl, rfl, rfl⟩
      · split
        · exact ⟨rfl, rfl, id, rfl, rfl, rfl⟩
        · exact .refl s
  · split
    · split
      · exact hcol _
      · split
        · exact ⟨rfl, rfl, fun _ => snapOk_none rfl, rfl, rfl, rfl⟩
        · exact .refl s
    · exact .refl s

theorem moveHorizontally_empty (h : Host) (deltaCol : Int) (hstate : s.state = .empty)
    (hpreferred : ∀ col, s.preferredVisualCol = some col → 0 ≤ col) :
    (s.moveHorizontally h [{ logicalLine := 0, startCol := 0, length := 0 }] 0 deltaCol).state = .empty ∧
      ∀ col, (s.moveHorizontally h [{ logicalLine := 0, startCol := 0, length := 0 }] 0
        deltaCol).preferredVisualCol = some col → 0 ≤ col := by
  have hcol : s.state.cursorCol = 0 := by rw [hstate]; rfl
  have hline : s.state.cursorLine = 0 := by rw [hstate]; rfl
  have hlines : s.state.lines = [[]] := by rw [hstate]; rfl
  have hcurrentLine : s.currentLine = [] := by simp [currentLine, lineAt, hlines, hline, itemAt]
  simp only [moveHorizontally, hcol, hline, hlines, hcurrentLine, List.length_nil,
    List.length_singleton]
  split
  · refine ⟨hstate, fun col hsome => ?_⟩
    obtain rfl := Option.some.inj hsome
    simp
  · split <;> exact ⟨hstate, hpreferred⟩

theorem moveCursor_parts (h : Host) (s : Editor) (deltaLine deltaCol : Int)
    {visualLines : List VisualLine}
    (hlines : ({ s with lastAction := none } : Editor).buildVisualLineMap h s.lastWidth = visualLines)
    (hcurrent : ({ s with lastAction := none } : Editor).findCurrentVisualLine visualLines = current) :
    ∃ u, s.moveCursor h deltaLine deltaCol = u.moveHorizontally h visualLines current deltaCol ∧
      SameText { s with lastAction := none } u ∧
      (¬ (deltaLine ≠ 0 ∧ 0 ≤ current + deltaLine ∧ current + deltaLine < visualLines.length) →
        u = { s with lastAction := none }) := by
  subst hlines hcurrent
  refine ⟨_, rfl, ?_, fun hstays => if_neg hstays⟩
  simp only
  split
  · exact moveVertically_sameText h _ _ _ _
  · exact .refl _

theorem moveCursor_sameText (h : Host) (s : Editor) (deltaLine deltaCol : Int) :
    SameText { s with lastAction := none } (s.moveCursor h deltaLine deltaCol) := by
  obtain ⟨u, heq, hvertical, -⟩ := moveCursor_parts h s deltaLine deltaCol rfl rfl
  rw [heq]
  exact hvertical.trans (moveHorizontally_sameText h u _ _ deltaCol)

theorem moveCursor_exact (h : Host) (s : Editor) (deltaLine deltaCol : Int) :
    Exact s (s.moveCursor h deltaLine deltaCol) := by
  have hsame := moveCursor_sameText h s deltaLine deltaCol
  refine .moved hsame.lines hsame.undoStack hsame.snapped hsame.lastAction hsame.historyIndex ?_
    hsame.submits
  intro hstate _ hpreferred
  have hmap :=
    buildVisualLineMap_empty (s := { s with lastAction := none }) (h := h) hstate s.lastWidth
  have hzero := findCurrentVisualLine_empty (s := { s with lastAction := none }) hstate
  obtain ⟨u, heq, -, hstays⟩ := moveCursor_parts h s deltaLine deltaCol hmap hzero
  have hu : u = { s with lastAction := none } := by
    apply hstays
    rw [List.length_singleton]
    omega
  rw [heq, hu]
  exact moveHorizontally_empty h deltaCol hstate hpreferred

/-! ## One command -/

theorem selectItem_exact (s : Editor) (picker : Option Autocomplete) :
    Exact s { s with autocomplete := picker } :=
  .unchanged rfl rfl rfl rfl (.inr rfl) (.inr rfl) rfl

/-- A command that is undone by itself. -/
theorem perform_exact (h : Host) (hsingle : s.Single command) : Exact s (s.perform h command) := by
  cases command with
  | nothing => exact .unchanged rfl rfl rfl rfl (.inr rfl) (.inr rfl) rfl
  | undo | submitValue | backspaceAndSubmit | backspaceAndNewLine | navigateHistory _ => cases hsingle
  | cancelAutocomplete | selectItem _ => exact selectItem_exact s _
  | applyItem provider item autocompletePrefix => exact .pushed rfl (.inl rfl) rfl
  | deleteToEndOfLine => exact deleteToEndOfLine_exact s
  | deleteToStartOfLine => exact deleteToStartOfLine_exact s
  | deleteWordBackwards => exact deleteWordBackwards_exact h s
  | deleteWordForward => exact deleteWordForward_exact h s
  | handleBackspace => exact handleBackspace_exact h s
  | handleForwardDelete => exact handleForwardDelete_exact h s
  | yank => exact yank_exact s
  | yankPop => exact yankPop_exact s
  | moveToLineStart => exact moveToLineStart_exact s
  | moveToLineEnd => exact moveToLineEnd_exact s
  | moveWordBackwards => exact moveWordBackwards_exact h s
  | moveWordForwards => exact moveWordForwards_exact h s
  | addNewLine => exact addNewLine_exact s
  | moveCursor deltaLine deltaCol => exact moveCursor_exact h s deltaLine deltaCol
  | pageScroll direction => exact pageScroll_exact h s direction
  | jump direction => exact .unchanged rfl rfl rfl rfl (.inr rfl) (.inr rfl) rfl
  | insertCharacter char => exact insertCharacter_exact hsingle

/-- Whatever a command does without a submit, the snapshots lead back to the empty text. -/
theorem perform_stands (h : Host) (hs : Stands s)
    (hsubmits : (s.perform h command).submits = s.submits) : Stands (s.perform h command) := by
  cases command with
  | undo => exact undo_stands hs
  | submitValue => simp [perform, submitValue, cancelAutocomplete, exitHistoryBrowsing] at hsubmits
  | backspaceAndSubmit =>
    have hback := (handleBackspace_exact h s).submits
    simp only [perform, submitValue, cancelAutocomplete, exitHistoryBrowsing] at hsubmits
    omega
  | backspaceAndNewLine =>
    exact (addNewLine_exact _).toKeeps.stands ((handleBackspace_exact h s).toKeeps.stands hs)
  | navigateHistory older => exact (navigateHistory_keeps s older).stands hs
  | insertCharacter char => exact (insertCharacter_keeps s char).stands hs
  | _ => exact (perform_exact h (by trivial)).toKeeps.stands hs

theorem perform_submits (h : Host) (s : Editor) (command : Command) :
    s.submits ≤ (s.perform h command).submits := by
  cases command with
  | undo =>
    simp only [perform, undo, exitHistoryBrowsing]
    split <;> exact Nat.le_refl _
  | submitValue => exact Nat.le_succ _
  | backspaceAndSubmit =>
    have hback := (handleBackspace_exact h s).submits
    simp only [perform, submitValue, cancelAutocomplete, exitHistoryBrowsing]
    omega
  | backspaceAndNewLine => exact (handleBackspace_exact h s).submits.ge
  | navigateHistory older => exact (navigateHistory_keeps s older).submits.ge
  | insertCharacter char => exact (insertCharacter_keeps s char).submits.ge
  | _ => exact (perform_exact h (by trivial)).submits.ge

theorem perform_undoStack (h : Host) (s : Editor) (hedits : ¬ command.Edits) :
    (s.perform h command).undoStack = s.undoStack := by
  cases command with
  | nothing | cancelAutocomplete | selectItem _ | moveToLineStart | moveToLineEnd | jump _ => rfl
  | moveWordBackwards => exact (moveWordBackwards_frame h s).1
  | moveWordForwards => exact (moveWordForwards_frame h s).1
  | moveCursor deltaLine deltaCol => exact (moveCursor_sameText h s deltaLine deltaCol).undoStack
  | pageScroll direction => exact (pageScroll_sameText h s direction).undoStack
  | _ => exact absurd trivial hedits

theorem Command.single_of_not_edits (hedits : ¬ command.Edits) : s.Single command := by
  cases command with
  | undo | submitValue | backspaceAndSubmit | backspaceAndNewLine | navigateHistory _
  | insertCharacter _ => exact absurd trivial hedits
  | _ => trivial

/-! ## Keys -/

theorem handleKey_stands (hs : Stands s) (hsubmits : (s.handleKey h data).submits = s.submits) :
    Stands (s.handleKey h data) := by
  have hfirst := perform_submits h s (s.firstCommand h data).1
  simp only [handleKey] at hsubmits ⊢
  split
  · rename_i hgoesOn
    rw [if_pos hgoesOn] at hsubmits
    have hsecond := perform_submits h (s.perform h (s.firstCommand h data).1)
      ((s.perform h (s.firstCommand h data).1).keyCommand h data)
    exact perform_stands h (perform_stands h hs (by omega)) (by omega)
  · rename_i hstays
    rw [if_neg hstays] at hsubmits
    exact perform_stands h hs hsubmits

theorem handleKey_undo (hfirst : s.Single (s.firstCommand h data).1)
    (hsecond : (s.firstCommand h data).2 = true →
      ¬ ((s.perform h (s.firstCommand h data).1).keyCommand h data).Edits) :
    (s.handleKey h data).undoStack = s.state :: s.undoStack ∨
      (s.handleKey h data).getText = s.getText := by
  have hexact := perform_exact h hfirst
  simp only [handleKey]
  split
  · rename_i hgoesOn
    have hedits := hsecond hgoesOn
    have hstack := perform_undoStack h (s.perform h (s.firstCommand h data).1) hedits
    have htext := (perform_exact h (Command.single_of_not_edits hedits)).text hstack
    rw [hstack, htext]
    exact hexact.stack.imp id hexact.text
  · exact hexact.stack.imp id hexact.text

/-! ## Inputs -/

/-- The two differ in nothing that undo reads or leaves. -/
structure Alike (s t : Editor) : Prop where
  state : t.state = s.state
  undoStack : t.undoStack = s.undoStack
  lastAction : t.lastAction = s.lastAction
  historyIndex : t.historyIndex = s.historyIndex
  preferredVisualCol : t.preferredVisualCol = s.preferredVisualCol
  snappedFromCursorCol : t.snappedFromCursorCol = s.snappedFromCursorCol
  submits : t.submits = s.submits

theorem Alike.trans (hst : Alike s t) (htu : Alike t u) : Alike s u :=
  ⟨htu.1.trans hst.1, htu.2.trans hst.2, htu.3.trans hst.3, htu.4.trans hst.4, htu.5.trans hst.5,
    htu.6.trans hst.6, htu.7.trans hst.7⟩

theorem Alike.exact (h : Alike s t) : Exact s t :=
  .unchanged h.state h.undoStack h.snappedFromCursorCol h.preferredVisualCol (.inr h.lastAction)
    (.inr h.historyIndex) h.submits

theorem Alike.atStart (h : Alike s t) (hs : AtStart s) : AtStart t where
  state := h.state.trans hs.state
  lastAction := by
    rw [h.lastAction]
    exact hs.lastAction
  historyIndex := h.historyIndex.trans hs.historyIndex
  preferred := fun col hcol => hs.preferred col (h.preferredVisualCol ▸ hcol)

theorem Exact.alike_left (hst : Alike s t) (htu : Exact t u) : Exact s u where
  stack := by
    rw [← hst.state, ← hst.undoStack]
    exact htu.stack
  snapped := fun hs => htu.snapped (hst.exact.snapped hs)
  start := fun hempty hs hok => htu.start hempty (hst.atStart hs) (hst.exact.snapped hok)
  submits := htu.submits.trans hst.submits
  text := fun hsame => by
    rw [htu.text (hsame.trans hst.undoStack.symm), getText, getText, hst.state]

theorem Exact.alike_right (hst : Exact s t) (htu : Alike t u) : Exact s u where
  stack := by
    rw [htu.undoStack]
    exact hst.stack
  snapped := fun hs => htu.exact.snapped (hst.snapped hs)
  start := fun hempty hs hok =>
    htu.atStart (hst.start (htu.undoStack.symm.trans hempty) hs hok)
  submits := htu.submits.trans hst.submits
  text := fun hsame => by
    rw [getText, htu.state]
    exact hst.text (htu.undoStack.symm.trans hsame)

theorem handleJumpMode_exact (h : Host) (s : Editor) (data : Text) :
    Exact s (s.handleJumpMode h data).1 := by
  have hleft : Alike s { s with jumpMode := none } := ⟨rfl, rfl, rfl, rfl, rfl, rfl, rfl⟩
  simp only [handleJumpMode]
  split
  · exact (Alike.mk rfl rfl rfl rfl rfl rfl rfl).exact
  · split
    · exact hleft.exact
    · split
      · exact (jumpToChar_exact _ _ _).alike_left hleft
      · exact hleft.exact

theorem handleJumpMode_alike (hgoesOn : (s.handleJumpMode h data).2 = false) :
    Alike s (s.handleJumpMode h data).1 := by
  simp only [handleJumpMode] at hgoesOn ⊢
  split
  · exact ⟨rfl, rfl, rfl, rfl, rfl, rfl, rfl⟩
  · split
    · exact ⟨rfl, rfl, rfl, rfl, rfl, rfl, rfl⟩
    · rename_i hmode hkey
      simp only [hmode, hkey, if_false] at hgoesOn
      split
      · rename_i hprintable
        simp [hprintable] at hgoesOn
      · exact ⟨rfl, rfl, rfl, rfl, rfl, rfl, rfl⟩

theorem handlePasteMode_exact (s : Editor) (data : Text) : Exact s (s.handlePasteMode data).1 := by
  simp only [handlePasteMode]
  generalize hstarted : (if (Lib.Js.indexOf data pasteStart 0).isSome = true
    then { s with isInPaste := true, pasteBuffer := [] } else s : Editor) = started
  have halike : Alike s started := by
    rw [← hstarted]
    split <;> exact ⟨rfl, rfl, rfl, rfl, rfl, rfl, rfl⟩
  generalize (if (Lib.Js.indexOf data pasteStart 0).isSome = true then removeFirst data pasteStart else data) =
    rest
  split
  · generalize Lib.Js.indexOf (started.pasteBuffer ++ rest) pasteEnd 0 = found
    cases found with
    | none => exact halike.exact.alike_right ⟨rfl, rfl, rfl, rfl, rfl, rfl, rfl⟩
    | some endIndex =>
      refine Exact.alike_right
        (t := if (started.pasteBuffer ++ rest).take endIndex = [] then started
        else started.handlePaste ((started.pasteBuffer ++ rest).take endIndex)) ?_
        ⟨rfl, rfl, rfl, rfl, rfl, rfl, rfl⟩
      split
      · exact halike.exact
      · exact (handlePaste_exact _ _).alike_left halike
  · exact halike.exact

theorem handlePasteMode_key {key : Text} (hkey : (s.handlePasteMode data).2 = .key key) :
    Alike s (s.handlePasteMode data).1 := by
  simp only [handlePasteMode] at hkey ⊢
  generalize hstarted : (if (Lib.Js.indexOf data pasteStart 0).isSome = true
    then { s with isInPaste := true, pasteBuffer := [] } else s : Editor) = started at hkey ⊢
  have halike : Alike s started := by
    rw [← hstarted]
    split <;> exact ⟨rfl, rfl, rfl, rfl, rfl, rfl, rfl⟩
  generalize (if (Lib.Js.indexOf data pasteStart 0).isSome = true then removeFirst data pasteStart else data) =
    rest at hkey ⊢
  split
  · rename_i hpaste
    rw [if_pos hpaste] at hkey
    generalize Lib.Js.indexOf (started.pasteBuffer ++ rest) pasteEnd 0 = found at hkey
    cases found with
    | none => cases hkey
    | some endIndex =>
      simp only at hkey
      split at hkey <;> cases hkey
  · exact halike

theorem beforeKeys_exact (h : Host) (s : Editor) (data : Text) :
    Exact s (s.beforeKeys h data).1 := by
  simp only [beforeKeys]
  generalize hjump : s.handleJumpMode h data = jumped
  obtain ⟨t, ends⟩ := jumped
  cases ends with
  | true =>
    have hexact := handleJumpMode_exact h s data
    rw [hjump] at hexact
    exact hexact
  | false =>
    have halike : Alike s (s.handleJumpMode h data).1 := handleJumpMode_alike (by rw [hjump])
    rw [hjump] at halike
    exact (handlePasteMode_exact t data).alike_left halike

theorem beforeKeys_key {key : Text} (hkey : (s.beforeKeys h data).2 = .key key) :
    Alike s (s.beforeKeys h data).1 := by
  simp only [beforeKeys] at hkey ⊢
  generalize hjump : s.handleJumpMode h data = jumped at hkey ⊢
  obtain ⟨t, ends⟩ := jumped
  cases ends with
  | true => cases hkey
  | false =>
    have halike : Alike s (s.handleJumpMode h data).1 := handleJumpMode_alike (by rw [hjump])
    rw [hjump] at halike
    exact halike.trans (handlePasteMode_key hkey)

theorem handleInput_stands (hs : Stands s) {fuel : Nat} (ht : handleInput h fuel s data = some t)
    (hsubmits : t.submits = s.submits) : Stands t := by
  induction fuel generalizing s data with
  | zero => cases ht
  | succ fuel ih =>
    have hbefore := beforeKeys_exact h s data
    rw [handleInput] at ht
    generalize s.beforeKeys h data = before at hbefore ht
    obtain ⟨u, remaining⟩ := before
    have hu := hbefore.toKeeps.stands hs
    have hsame := hsubmits.trans hbefore.submits.symm
    cases remaining with
    | nothing =>
      obtain rfl := Option.some.inj ht
      exact hu
    | key data =>
      obtain rfl := Option.some.inj ht
      exact handleKey_stands hu hsame
    | input data => exact ih hu ht hsame

theorem suggestionsArrived_exact (s : Editor) (isCurrent force explicitTab : Bool)
    (suggestions : Option AutocompleteSuggestions) :
    Exact s (s.suggestionsArrived isCurrent force explicitTab suggestions) := by
  simp only [suggestionsArrived]
  split
  · exact selectItem_exact s _
  · split
    · exact selectItem_exact s _
    · split
      · exact selectItem_exact s _
      · exact selectItem_exact s _
      · split
        · exact applyItem_exact s _ _ _
        · exact selectItem_exact s _

theorem addToHistory_exact (s : Editor) (text : Text) : Exact s (s.addToHistory text) := by
  simp only [addToHistory]
  split <;> exact .unchanged rfl rfl rfl rfl (.inr rfl) (.inr rfl) rfl

theorem apply_exact {op : Op} (hinput : ∀ fuel data, op ≠ .input fuel data)
    (happly : s.apply h op = some t) : Exact s t := by
  cases op with
  | input fuel data => exact absurd rfl (hinput fuel data)
  | setText text =>
    obtain rfl := Option.some.inj happly
    exact setText_exact s text
  | insertTextAtCursor text =>
    obtain rfl := Option.some.inj happly
    exact insertTextAtCursor_exact s text
  | suggestionsArrived isCurrent force explicitTab suggestions =>
    obtain rfl := Option.some.inj happly
    exact suggestionsArrived_exact s isCurrent force explicitTab suggestions
  | addToHistory text =>
    obtain rfl := Option.some.inj happly
    exact addToHistory_exact s text
  | setAutocompleteProvider _ | setDisableSubmit _ | render _ =>
    obtain rfl := Option.some.inj happly
    exact .unchanged rfl rfl rfl rfl (.inr rfl) (.inr rfl) rfl

theorem apply_stands (hs : Stands s) {op : Op} (happly : s.apply h op = some t)
    (hsubmits : t.submits = s.submits) : Stands t := by
  cases op with
  | input fuel data => exact handleInput_stands hs happly hsubmits
  | _ => exact (apply_exact (by simp) happly).toKeeps.stands hs

/-! ## Runs -/

/-- In every run the oldest snapshot is the empty text. -/
theorem Reached.stands (hs : Reached s) : Stands s := by
  induction hs with
  | new =>
    exact ⟨fun _ hlast => (by cases hlast), fun _ => ⟨rfl, by decide, rfl, fun _ hcol => by cases hcol⟩,
      fun _ hcol => by cases hcol⟩
  | op _ hs op happly hsubmits ih => exact apply_stands ih happly hsubmits

theorem iterate_undo_stands (hs : Stands s) (n : Nat) : Stands (undo^[n] s) := by
  induction n with
  | zero => exact hs
  | succ n ih =>
    rw [Function.iterate_succ_apply']
    exact undo_stands ih

theorem undo_undoStack (s : Editor) : s.undo.undoStack = s.undoStack.tail := by
  simp only [undo]
  split
  · rename_i hempty
    rw [show s.undoStack = [] from hempty]
    exact hempty
  · rename_i snapshot rest hstack
    rw [show s.undoStack = snapshot :: rest from hstack]
    rfl

theorem iterate_undo_undoStack (s : Editor) (n : Nat) :
    (undo^[n] s).undoStack = s.undoStack.drop n := by
  induction n with
  | zero => rfl
  | succ n ih => rw [Function.iterate_succ_apply', undo_undoStack, ih, List.tail_drop]

theorem undo_state {snapshot : EditorState} {rest : List EditorState}
    (hstack : s.undoStack = snapshot :: rest) : s.undo.state = snapshot := by
  simp only [undo, exitHistoryBrowsing, hstack]

theorem apply_undo {op : Op} (happly : s.apply h op = some t) (hsingle : SingleOp h s op) :
    t.undoStack = s.state :: s.undoStack ∨ t.getText = s.getText := by
  cases op with
  | input fuel data =>
    cases fuel with
    | zero => cases happly
    | succ fuel =>
      simp only [SingleOp] at hsingle
      simp only [apply, handleInput] at happly
      have hexact := beforeKeys_exact h s data
      have halike : ∀ key, (s.beforeKeys h data).2 = .key key → Alike s (s.beforeKeys h data).1 :=
        fun _ => beforeKeys_key
      generalize s.beforeKeys h data = before at hsingle happly hexact halike
      obtain ⟨u, remaining⟩ := before
      cases remaining with
      | nothing =>
        obtain rfl := Option.some.inj happly
        exact hexact.stack.imp id hexact.text
      | key data =>
        obtain rfl := Option.some.inj happly
        have hu := halike data rfl
        rcases handleKey_undo hsingle.1 hsingle.2 with hstack | htext
        · exact .inl (by rw [hstack, hu.state, hu.undoStack])
        · exact .inr (by rw [htext, getText, getText, hu.state])
      | input data => exact absurd hsingle id
  | _ =>
    have hexact := apply_exact (by simp) happly
    exact hexact.stack.imp id hexact.text

/-! ## A terminal -/

/-- Every code unit is a segment of its own. -/
def unitSegments : Nat → Text → List SegmentData
  | _, [] => []
  | index, c :: rest => ⟨[c], index, true⟩ :: unitSegments (index + 1) rest

theorem unitSegments_partition (index : Nat) (text : Text) :
    Partition index text (unitSegments index text) := by
  induction text generalizing index with
  | nil => rfl
  | cons c rest ih => exact ⟨rfl, by simp, rest, rfl, ih (index + 1)⟩

/-- A terminal where Enter is a carriage return, and a line feed counts as Enter too. -/
def legacyHost : Host where
  matchesAction := fun data action =>
    match action with
    | .selectConfirm | .submit => data = [13] ∨ data = [10]
    | .newLine => data = [10]
    | .tab => data = [9]
    | .undo => data = [31]
    | _ => false
  matchesKey := fun data key => key = .enter ∧ (data = [13] ∨ data = [10])
  submitsOnShiftEnter := false
  decodePrintableKey := fun _ => none
  graphemeSegmenter := ⟨unitSegments 0, unitSegments_partition 0⟩
  wordSegmenter := ⟨unitSegments 0, unitSegments_partition 0⟩
  visibleWidth := fun text => text.length
  wordWrapLine := fun text _ _ => [{ startIndex := 0, endIndex := text.length }]
  pageRows := 7

/-- The item in front of what the line has behind the prefix, with a space. -/
def slashProvider : AutocompleteProvider where
  applyCompletion := fun lines line col item autocompletePrefix =>
    let current := itemAt lines line []
    { lines := setAt lines line
        (slice current 0 (col - autocompletePrefix.length) ++ (47 :: item.value) ++ 32 ::
          sliceFrom current col)
      cursorLine := line
      cursorCol := col - autocompletePrefix.length + item.value.length + 2 }

/-- `/` is typed, and a command suggested. -/
def slashTyped : Editor :=
  ((Editor.new.setAutocompleteProvider slashProvider).insertCharacter (ascii "/")).suggestionsArrived
    true false false (some ⟨[⟨ascii "help", ascii "help"⟩], ascii "/"⟩)

theorem slashTyped_reached : Reached slashTyped :=
  .op legacyHost (.op legacyHost (.op legacyHost .new (.setAutocompleteProvider slashProvider) rfl rfl)
    (.input 1 (ascii "/")) rfl rfl)
    (.suggestionsArrived true false false (some ⟨[⟨ascii "help", ascii "help"⟩], ascii "/"⟩)) rfl rfl

/-- Undoing everything gives the empty text with the cursor at its start, and undoing one command
that changed the text, or one operation that is a single command, the state in front of it. -/
theorem undo_exact (hs : Reached s) :
    (undo^[s.undoStack.length] s).undoStack = [] ∧
      (∀ n, (undo^[n] s).undoStack = [] → (undo^[n] s).state = .empty) ∧
      (∀ command, s.Single command → (s.perform h command).getText ≠ s.getText →
        (s.perform h command).undo.state = s.state) ∧
      ∀ op t, s.apply h op = some t → SingleOp h s op → t.getText ≠ s.getText →
        t.undo.state = s.state := by
  refine ⟨?_, fun n hempty => ?_, fun command hsingle hchanged => ?_,
    fun op t happly hsingle hchanged => ?_⟩
  · rw [iterate_undo_undoStack, List.drop_length]
  · exact ((iterate_undo_stands hs.stands n).start hempty).state
  · have hexact := perform_exact h hsingle
    rcases hexact.stack with hstack | hsame
    · exact undo_state hstack
    · exact absurd (hexact.text hsame) hchanged
  · rcases apply_undo happly hsingle with hstack | hsame
    · exact undo_state hstack
    · exact absurd hsame hchanged

/-- Tab takes the command, and undo goes back to what was typed. -/
theorem undo_exact_example :
    ∃ t, slashTyped.apply legacyHost (.input 1 [9]) = some t ∧ t.getText = ascii "/help " ∧
      t.undo.state = slashTyped.state ∧ slashTyped.undo.state = .empty := by
  have hexact := undo_exact (h := legacyHost) slashTyped_reached
  refine ⟨_, rfl, by decide, ?_, hexact.2.1 1 rfl⟩
  exact hexact.2.2.2 (.input 1 [9]) _ rfl ⟨trivial, fun hgoesOn => by cases hgoesOn⟩ (by decide)

end Editor

end PieLab.Tui

import PieLab.Hashline.Parse
import PieLab.Lib.Lines

/-
  The lines the read tool numbers

  The read tool shows a file line by line under numbers that a patch may name
  afterwards. It splits the text on its own: a final newline ends the last line,
  and a text without any line is shown as one empty line. The patches count lines
  with `splitEditableLines`, for which a text of one empty line has none.

  What is proved:
    1. `displayed_lines_addressable` — the numbered lines are those a patch counts,
       and each can be replaced under its number, exactly when the text is neither
       empty nor a single newline.
    2. `empty_line_not_addressable` — the line shown of a text that is one newline.

  Correspondence (TypeScript ↔ Lean): splitDisplayLines and the text part of
  `execute` in packages/coding-agent/src/core/tools/read.ts (`selectText`, before
  the output is truncated).
-/

namespace PieLab

open Lib

/-! ## Reading -/

/-- A text without the newline at its end. -/
def withoutFinalNewline (text : String) : String :=
  if text.toList.getLast? = some '\n' then String.ofList text.toList.dropLast else text

def splitDisplayLines (text : String) : List String :=
  if text = "" then [""] else splitLines (withoutFinalNewline text)

structure TextReadSelection where
  selectedContent : String
  totalFileLines : Nat
  startLine : Nat
  startLineDisplay : Nat
  firstSelectedLine : String
  userLimitedLines : Option Nat
  deriving DecidableEq, Repr

def offsetBeyondEnd (offset totalFileLines : Nat) : String :=
  "Offset " ++ toString offset ++ " is beyond end of file (" ++ toString totalFileLines ++
    " lines total)"

/-- The part of a text that is asked for: from the line `offset`, `limit` lines. -/
def selectText (textContent : String) (offset limit : Option Nat) :
    Except String TextReadSelection :=
  let startLine := offset.getD 0 - 1
  let allLines := splitDisplayLines (normalizeSnapshotText textContent)
  let totalFileLines := allLines.length
  if totalFileLines ≤ startLine then .error (offsetBeyondEnd (offset.getD 0) totalFileLines)
  else
    let selection : TextReadSelection :=
      { selectedContent := join "\n" (allLines.drop startLine), totalFileLines, startLine
        startLineDisplay := startLine + 1, firstSelectedLine := allLines.getD startLine ""
        userLimitedLines := none }
    match limit with
    | none => .ok selection
    | some limit =>
      let endLine := min (startLine + limit) totalFileLines
      .ok { selection with
            selectedContent := join "\n" (slice allLines startLine endLine)
            userLimitedLines := some (endLine - startLine) }

/-- The lines a whole file is shown as. -/
def displayedLines (text : String) : List String := splitDisplayLines (normalizeSnapshotText text)

/-- The line shown under a number. -/
def displayedLine (text : String) (k : LineNumber) : Option String :=
  (displayedLines text)[k.line - 1]?

/-! ## The lines of a text -/

theorem map_toList_splitLines (text : String) :
    (splitLines text).map String.toList = text.toList.splitOn '\n' := by
  unfold splitLines
  rw [List.map_map]
  have hid : String.toList ∘ String.ofList = id := by
    funext l
    exact String.toList_ofList
  rw [hid, List.map_id]

theorem splitLines_ne_nil (text : String) : splitLines text ≠ [] := by
  unfold splitLines
  intro h
  exact List.splitOn_ne_nil _ _ (List.map_eq_nil_iff.mp h)

theorem noNewline_of_mem_splitLines {text line : String} (h : line ∈ splitLines text) :
    '\n' ∉ line.toList := by
  obtain ⟨chars, hchars, rfl⟩ := List.mem_map.mp h
  rw [String.toList_ofList]
  exact noNewline_of_mem_splitOn hchars

theorem splitDisplayLines_ne_nil (text : String) : splitDisplayLines text ≠ [] := by
  unfold splitDisplayLines
  by_cases h : text = ""
  · rw [if_pos h]
    exact List.cons_ne_nil _ _
  · rw [if_neg h]
    exact splitLines_ne_nil _

theorem noNewline_of_mem_display {text line : String} (h : line ∈ splitDisplayLines text) :
    '\n' ∉ line.toList := by
  unfold splitDisplayLines at h
  by_cases hempty : text = ""
  · rw [if_pos hempty, List.mem_singleton] at h
    rw [h]
    exact List.not_mem_nil
  · rw [if_neg hempty] at h
    exact noNewline_of_mem_splitLines h

/-! ## The lines a patch counts -/

theorem displayedLines_eq {text : String} (hempty : normalizeSnapshotText text ≠ "")
    (hnewline : normalizeSnapshotText text ≠ "\n") :
    displayedLines text = (splitEditableLines text).lines := by
  unfold displayedLines splitDisplayLines splitEditableLines withoutFinalNewline
  generalize normalizeSnapshotText text = normalized at hempty hnewline ⊢
  rw [if_neg hempty]
  dsimp only
  by_cases hlast : normalized.toList.getLast? = some '\n'
  · have hbody : normalized.toList.dropLast ≠ [] := by
      intro hnil
      apply hnewline
      rw [← String.toList_inj]
      have hne : normalized.toList ≠ [] := by
        intro h
        rw [h] at hlast
        cases hlast
      have hsplit := List.dropLast_append_getLast hne
      rw [List.getLast?_eq_some_getLast hne, Option.some.injEq] at hlast
      rw [← hsplit, hnil, hlast]
      rfl
    simp only [hlast, beq_self_eq_true, if_true, if_neg hbody]
  · have hbody : normalized.toList ≠ [] := by
      intro hnil
      apply hempty
      rw [← String.toList_inj]
      exact hnil
    have hflag : (normalized.toList.getLast? == some '\n') = false :=
      beq_eq_false_iff_ne.mpr hlast
    simp only [hlast, hflag, if_false, Bool.false_eq_true, if_neg hbody, String.ofList_toList]

theorem displayedLines_empty {text : String}
    (h : normalizeSnapshotText text = "" ∨ normalizeSnapshotText text = "\n") :
    displayedLines text = [""] ∧ (splitEditableLines text).lines = [] := by
  unfold displayedLines splitEditableLines
  rcases h with h | h
  · rw [h]
    decide
  · rw [h]
    decide

/-- The range of one line. -/
def LineNumber.only (k : LineNumber) : LineRange :=
  { startLine := k.line, endLine := k.line, pos := k.pos, le := k.le_self }

/-- The section that replaces one line. -/
def replaceLine (path hash : String) (k : LineNumber) (lines : List String) :
    HashlinePatchSection :=
  { path, hash, operations := [.replace k.only lines] }

theorem validateNonOverlapping_single (m : Mutation) : validateNonOverlapping [m] = .ok () := by
  cases hm : m.isRange with
  | false => exact validateNonOverlapping_insert hm
  | true =>
    have hranges : rangesOf [m] = [m.range] := by
      unfold rangesOf
      rw [List.filter_cons_of_pos (by rw [hm])]
      exact List.mergeSort_singleton _
    unfold validateNonOverlapping
    dsimp only
    rw [hranges]
    simp [refuse, anyOverlap, hm]
    rfl

theorem sectionLines_replace (text path hash : String) {k : LineNumber}
    (hk : k.line ≤ (splitEditableLines text).lines.length) (lines : List String) :
    sectionLines text (replaceLine path hash k lines) =
      .ok ((splitEditableLines text).lines.take (k.line - 1) ++ lines ++
        (splitEditableLines text).lines.drop k.line) := by
  let operation : HashlineOperation := .replace k.only lines
  let m := mutationOf operation (splitEditableLines text).lines.length 0
  have hops : operationsToMutations (splitEditableLines text).lines.length [operation] =
      .ok [m] := by
    have hin : decide ((splitEditableLines text).lines.length < operation.lastLine) = false :=
      decide_eq_false (Nat.not_lt.mpr hk)
    show [(operation, 0)].mapM _ = _
    rw [List.mapM_cons]
    simp only [operationToMutation, hin]
    rfl
  have hvalid : validateNonOverlapping [m] = .ok () := validateNonOverlapping_single m
  have hm : m.toSplice.apply (splitEditableLines text).lines =
      (splitEditableLines text).lines.take (k.line - 1) ++ lines ++
        (splitEditableLines text).lines.drop k.line := by
    have hpos := k.pos
    have hend : m.index + m.deleteCount = k.line := by
      show k.line - 1 + (k.line - k.line + 1) = k.line
      omega
    unfold Splice.apply
    rw [hend]
    rfl
  unfold sectionLines
  dsimp only [replaceLine]
  rw [hops]
  show (validateNonOverlapping [m] >>= fun _ => pure _) = _
  rw [hvalid]
  show Except.ok (mutatedLines _ [m]) = _
  rw [mutatedLines_singleton, hm]

theorem applyHashlineSectionToText_replace (text path hash : String) {k : LineNumber}
    (hk : k.line ≤ (splitEditableLines text).lines.length) (lines : List String) :
    applyHashlineSectionToText text (replaceLine path hash k lines) =
      .ok (joinEditableLines ((splitEditableLines text).lines.take (k.line - 1) ++ lines ++
        (splitEditableLines text).lines.drop k.line) (splitEditableLines text).trailingNewline) := by
  unfold applyHashlineSectionToText
  rw [sectionLines_replace text path hash hk lines]
  rfl

/-- Under every number the read tool shows a line that a patch replaces under that number,
and no other line with it, exactly when the text is neither empty nor one newline. -/
theorem displayed_lines_addressable (text : String) :
    (displayedLines text = (splitEditableLines text).lines ∧
      ∀ (k : LineNumber) (line : String), displayedLine text k = some line →
        ∀ (path hash : String) (lines : List String),
          applyHashlineSectionToText text (replaceLine path hash k lines) =
            .ok (joinEditableLines ((displayedLines text).take (k.line - 1) ++ lines ++
              (displayedLines text).drop k.line) (splitEditableLines text).trailingNewline)) ↔
      normalizeSnapshotText text ≠ "" ∧ normalizeSnapshotText text ≠ "\n" := by
  constructor
  · rintro ⟨hsame, _⟩
    have hnot : ¬ (normalizeSnapshotText text = "" ∨ normalizeSnapshotText text = "\n") := by
      intro h
      obtain ⟨hdisplayed, heditable⟩ := displayedLines_empty h
      rw [hdisplayed, heditable] at hsame
      cases hsame
    exact not_or.mp hnot
  · rintro ⟨hempty, hnewline⟩
    have hsame := displayedLines_eq hempty hnewline
    refine ⟨hsame, ?_⟩
    intro k line hline path hash lines
    rw [displayedLine, hsame] at hline
    have hin : k.line - 1 < (splitEditableLines text).lines.length :=
      (List.getElem?_eq_some_iff.mp hline).1
    have hpos := k.pos
    rw [hsame]
    apply applyHashlineSectionToText_replace
    omega

/-- The empty line shown of a file that holds one newline cannot be replaced. -/
theorem empty_line_not_addressable :
    displayedLine "\n" ⟨1, Nat.le_refl 1⟩ = some "" ∧ (splitEditableLines "\n").lines = [] ∧
      applyHashlineSectionToText "\n" (replaceLine "f" "E3B0" ⟨1, Nat.le_refl 1⟩ ["x"]) =
        .error "replace 1..1 exceeds file length 0." := by
  decide

end PieLab

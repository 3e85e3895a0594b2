import PieLab.Lib.Lines
import PieLab.Tools.EditOccurrences
import PieLab.Tools.UntouchedLines

/-
  The line counts a fuzzy edit compares

  A fuzzy edit is made in the normalized content, and lines outside it are copied
  from the original, which must have as many. The normalized content has a line for
  each newline, and one more where something is left behind the last newline. White
  space there is trimmed away.

  What is proved:
    1. `splitOn_normalizeForFuzzyMatch` — normalization works on the lines one by one.
    2. `length_splitLinesWithEndings` — how many lines a text has.
    3. `line_count_error_iff` — the check of the line counts refuses exactly the edits
       that pass all checks before it and need fuzzy matching, in a content whose last
       line is blank but not empty.
    4. `blank_end_refused` — a quote to be matched, and a blank at the end.

  Correspondence (TypeScript ↔ Lean): `splitLinesWithEndings`, `normalizeForFuzzyMatch`
  and `applyReplacementsPreservingUnchangedLines` of
  packages/coding-agent/src/core/tools/edit-diff.ts, as in PieLab.Tools.EditDiff.
-/

namespace PieLab

open Lib

/-! ## The lines of a text -/

/-- A line for each newline, and one for what is left behind the last. -/
theorem length_splitLinesWithEndings (content : List Char) :
    (splitLinesWithEndings content).length =
      content.count '\n' + if lastLine content = [] then 0 else 1 := by
  simp only [lastLine_eq_nil]
  induction content with
  | nil => rfl
  | cons c rest ih =>
    rw [splitLinesWithEndings]
    by_cases hc : c = '\n'
    · rw [if_pos hc, List.length_cons, ih, hc, List.count_cons_self]
      cases rest with
      | nil => rfl
      | cons d rest =>
        simp
        omega
    · rw [if_neg hc, List.count_cons_of_ne hc]
      cases hrest : splitLinesWithEndings rest with
      | nil =>
        have hnil : rest = [] := by
          rw [← flatten_splitLinesWithEndings rest, hrest]
          rfl
        rw [hnil]
        simp [hc]
      | cons line lines =>
        rw [hrest] at ih
        cases rest with
        | nil => cases hrest
        | cons d rest => simpa using ih

theorem asciiOf_eq_newline {c : Char} : asciiOf c = '\n' ↔ c = '\n' := by
  constructor
  · intro h
    unfold asciiOf at h
    dsimp only at h
    split at h
    · cases h
    · split at h
      · cases h
      · split at h
        · cases h
        · split at h
          · cases h
          · exact h
  · rintro rfl
    rfl

theorem noNewline_trimEnd {line : List Char} (h : '\n' ∉ line) : '\n' ∉ trimEnd line := by
  unfold trimEnd
  intro hmem
  rw [List.mem_reverse] at hmem
  exact h (List.mem_reverse.mp ((List.dropWhile_suffix _).subset hmem))

theorem map_asciiOf_intercalate (lines : List (List Char)) :
    (List.intercalate ['\n'] lines).map asciiOf = List.intercalate ['\n'] (lines.map (List.map asciiOf)) := by
  induction lines with
  | nil => rfl
  | cons line rest ih =>
    cases rest with
    | nil => simp
    | cons next rest =>
      have hne : next.map asciiOf :: rest.map (List.map asciiOf) ≠ [] := List.cons_ne_nil _ _
      rw [List.intercalate_cons_of_ne_nil (List.cons_ne_nil next rest), List.map_append,
        List.map_append, ih]
      simp only [List.map_cons]
      rw [List.intercalate_cons_of_ne_nil hne]
      rfl

/-- A line in its normal form. -/
def normalizeLine (line : List Char) : List Char := (trimEnd line).map asciiOf

/-- Normalization trims and folds the lines one by one. -/
theorem splitOn_normalizeForFuzzyMatch (nfkc : List Char → List Char) (text : List Char) :
    (normalizeForFuzzyMatch nfkc text).splitOn '\n' = ((nfkc text).splitOn '\n').map normalizeLine := by
  unfold normalizeForFuzzyMatch
  rw [map_asciiOf_intercalate, List.map_map, List.splitOn_intercalate]
  · rfl
  · intro line hline
    obtain ⟨l, hl, rfl⟩ := List.mem_map.mp hline
    intro hmem
    obtain ⟨c, hc, hcn⟩ := List.mem_map.mp hmem
    rw [asciiOf_eq_newline.mp hcn] at hc
    exact noNewline_trimEnd (noNewline_of_mem_splitOn hl) hc
  · rw [Ne, List.map_eq_nil_iff]
    exact List.splitOn_ne_nil _ _

theorem count_normalizeForFuzzyMatch (nfkc : List Char → List Char) (text : List Char) :
    (normalizeForFuzzyMatch nfkc text).count '\n' = (nfkc text).count '\n' := by
  rw [← length_linesBefore, ← length_linesBefore]
  unfold linesBefore
  rw [splitOn_normalizeForFuzzyMatch, List.length_dropLast, List.length_dropLast, List.length_map]

theorem lastLine_normalizeForFuzzyMatch (nfkc : List Char → List Char) (text : List Char) :
    lastLine (normalizeForFuzzyMatch nfkc text) = normalizeLine (lastLine (nfkc text)) := by
  have hne : (nfkc text).splitOn '\n' ≠ [] := List.splitOn_ne_nil _ _
  unfold lastLine
  rw [splitOn_normalizeForFuzzyMatch, List.getLast?_map, List.getLast?_eq_getLast_of_ne_nil hne]
  rfl

/-- What is left behind the last newline is there in one text only: in the content, or in what is
left of it by normalization. -/
def LastLineDiffers (nfkc : List Char → List Char) (content : List Char) : Prop :=
  ¬ (lastLine content = [] ↔ trimEnd (lastLine (nfkc content)) = [])

variable {nfkc : List Char → List Char} {content : List Char} {path : String} {edits : List Edit}

theorem line_counts_eq_iff (hnfkc : (nfkc content).count '\n' = content.count '\n') :
    (splitLinesWithEndings content).length ≠ (getLineSpans (normalizeForFuzzyMatch nfkc content)).length ↔
      LastLineDiffers nfkc content := by
  have hlast : lastLine (normalizeForFuzzyMatch nfkc content) = [] ↔
      trimEnd (lastLine (nfkc content)) = [] := by
    rw [lastLine_normalizeForFuzzyMatch]
    unfold normalizeLine
    rw [List.map_eq_nil_iff]
  unfold getLineSpans LastLineDiffers
  rw [length_lineSpans, length_splitLinesWithEndings, length_splitLinesWithEndings,
    count_normalizeForFuzzyMatch, hnfkc]
  simp only [hlast]
  by_cases h : lastLine content = []
  · by_cases h' : trimEnd (lastLine (nfkc content)) = []
    · simp [h, h']
    · simp [h, h']
  · by_cases h' : trimEnd (lastLine (nfkc content)) = []
    · simp [h, h']
    · simp [h, h']

/-! ## The other refusals -/

theorem ne_differentLineCount {message : String} (h : message.toList.take 2 ≠ ['C', 'a']) :
    message ≠ differentLineCount := by
  rintro rfl
  exact h (by decide)

theorem notFoundError_ne (path : String) (editIndex totalEdits : Nat) :
    notFoundError path editIndex totalEdits ≠ differentLineCount := by
  apply ne_differentLineCount
  unfold notFoundError
  split
  · simp
  · simp

theorem duplicateError_ne (path : String) (editIndex totalEdits occurrences : Nat) :
    duplicateError path editIndex totalEdits occurrences ≠ differentLineCount := by
  apply ne_differentLineCount
  unfold duplicateError
  split
  · simp
  · simp

theorem emptyOldTextError_ne (path : String) (editIndex totalEdits : Nat) :
    emptyOldTextError path editIndex totalEdits ≠ differentLineCount := by
  apply ne_differentLineCount
  unfold emptyOldTextError
  split
  · simp
  · simp

theorem noChangeError_ne (path : String) (totalEdits : Nat) :
    noChangeError path totalEdits ≠ differentLineCount := by
  apply ne_differentLineCount
  unfold noChangeError
  split
  · simp
  · simp

theorem overlapError_ne (path : String) (previous current : TextReplacement) :
    overlapError path previous current ≠ differentLineCount := by
  apply ne_differentLineCount
  simp [overlapError]

theorem matchEdit_ne {baseContent oldText newText : List Char} {totalEdits editIndex : Nat} :
    matchEdit nfkc baseContent path totalEdits editIndex oldText newText ≠ .error differentLineCount := by
  intro h
  unfold matchEdit at h
  split at h
  · exact notFoundError_ne _ _ _ (Except.error.inj h)
  · dsimp only at h
    split at h
    · exact duplicateError_ne _ _ _ _ (Except.error.inj h)
    · cases h

theorem matchedEdits_ne {baseContent : List Char} {edits : List (List Char × List Char)} :
    matchedEdits nfkc baseContent path edits ≠ .error differentLineCount := by
  intro h
  unfold matchedEdits at h
  rcases Except.bind_error.mp h with hmatch | ⟨matched, -, h⟩
  · obtain ⟨edit, -, hedit⟩ := Except.mapM_error hmatch
    exact matchEdit_ne hedit
  · rcases Except.bind_error.mp h with hoverlap | ⟨_, -, h⟩
    · unfold refuseOverlap at hoverlap
      split at hoverlap
      · exact overlapError_ne _ _ _ (Except.error.inj hoverlap)
      · cases hoverlap
    · cases h

theorem refuseEmpty_ne {edits : List (List Char × List Char)} :
    refuseEmpty path edits ≠ .error differentLineCount := by
  intro h
  unfold refuseEmpty at h
  split at h
  · exact emptyOldTextError_ne _ _ _ (Except.error.inj h)
  · cases h

theorem getReplacementLineRange_ne {lines : List LineSpan} {r : TextReplacement} :
    getReplacementLineRange lines r ≠ .error differentLineCount := by
  intro h
  have hne : outsideBase ≠ differentLineCount := ne_differentLineCount (by decide)
  unfold getReplacementLineRange at h
  split at h
  · exact hne (Except.error.inj h)
  · split at h
    · exact hne (Except.error.inj h)
    · cases h

theorem groupReplacements_ne {lines : List LineSpan} {rs : List TextReplacement}
    {groups : List ReplacementGroup} :
    groupReplacements lines rs groups ≠ .error differentLineCount := by
  induction rs generalizing groups with
  | nil =>
    intro h
    cases h
  | cons r rest ih =>
    intro h
    rw [groupReplacements] at h
    rcases Except.bind_error.mp h with hrange | ⟨range, -, h⟩
    · exact getReplacementLineRange_ne hrange
    · exact ih h

/-! ## When the check refuses -/

theorem applyReplacementsPreservingUnchangedLines_error {original base : List Char}
    {rs : List TextReplacement} :
    applyReplacementsPreservingUnchangedLines original base rs = .error differentLineCount ↔
      (splitLinesWithEndings original).length ≠ (getLineSpans base).length := by
  unfold applyReplacementsPreservingUnchangedLines
  constructor
  · intro h hsame
    rcases Except.bind_error.mp h with hrefuse | ⟨_, -, h⟩
    · unfold refuse at hrefuse
      rw [hsame] at hrefuse
      simp at hrefuse
    · rcases Except.bind_error.mp h with hgroups | ⟨groups, -, h⟩
      · exact groupReplacements_ne hgroups
      · cases h
  · intro hne
    apply Except.bind_error.mpr
    left
    unfold refuse
    rw [if_pos (by simpa using hne)]

/-- The texts of the edits with `\n` for every line end. -/
def lfEdits (edits : List Edit) : List (List Char × List Char) :=
  edits.map fun edit => (normalizeToLF edit.oldText.toList, normalizeToLF edit.newText.toList)

theorem allExact_eq_false :
    allExact nfkc content edits = false ↔
      (lfEdits edits).any (fun edit =>
        (fuzzyFindText nfkc content edit.1).any FuzzyMatchResult.usedFuzzyMatch) = true := by
  unfold allExact lfEdits
  rw [List.all_eq_false, List.any_map, List.any_eq_true]
  simp

/-- The edits are found in the normalized content, each once and apart from the others. -/
def FoundInBase (nfkc : List Char → List Char) (content : List Char) (edits : List Edit)
    (path : String) : Prop :=
  refuseEmpty path (lfEdits edits) = .ok () ∧
    ∃ sorted, matchedEdits nfkc (normalizeForFuzzyMatch nfkc content) path (lfEdits edits) = .ok sorted

theorem replacedContent_error :
    replacedContent nfkc content path (lfEdits edits) = .error differentLineCount ↔
      allExact nfkc content edits = false ∧
        (∃ sorted, matchedEdits nfkc (normalizeForFuzzyMatch nfkc content) path (lfEdits edits) =
          .ok sorted) ∧
        (splitLinesWithEndings content).length ≠
          (getLineSpans (normalizeForFuzzyMatch nfkc content)).length := by
  rw [allExact_eq_false]
  unfold replacedContent
  split
  next hfuzzy =>
    rw [Except.bind_error, or_iff_right matchedEdits_ne]
    constructor
    · rintro ⟨sorted, hsorted, h⟩
      exact ⟨hfuzzy, ⟨sorted, hsorted⟩, applyReplacementsPreservingUnchangedLines_error.mp h⟩
    · rintro ⟨-, ⟨sorted, hsorted⟩, h⟩
      exact ⟨sorted, hsorted, applyReplacementsPreservingUnchangedLines_error.mpr h⟩
  next hexact =>
    constructor
    · intro h
      rcases Except.bind_error.mp h with hmatched | ⟨sorted, -, h⟩
      · exact absurd hmatched matchedEdits_ne
      · cases h
    · exact fun h => absurd h.1 hexact

theorem applyEdits_error :
    applyEditsToNormalizedContent nfkc content edits path = .error differentLineCount ↔
      refuseEmpty path (lfEdits edits) = .ok () ∧
        replacedContent nfkc content path (lfEdits edits) = .error differentLineCount := by
  unfold applyEditsToNormalizedContent
  constructor
  · intro h
    rcases Except.bind_error.mp h with hempty | ⟨_, hempty, h⟩
    · exact absurd hempty refuseEmpty_ne
    · rcases Except.bind_error.mp h with hreplaced | ⟨newContent, -, h⟩
      · exact ⟨hempty, hreplaced⟩
      · rcases Except.bind_error.mp h with hsame | ⟨_, -, h⟩
        · unfold refuse at hsame
          split at hsame
          · exact absurd (Except.error.inj hsame) (noChangeError_ne _ _)
          · cases hsame
        · cases h
  · rintro ⟨hempty, hreplaced⟩
    exact Except.bind_error.mpr (.inr ⟨(), hempty, Except.bind_error.mpr (.inl hreplaced)⟩)

/-- The line counts are refused exactly where some edit needs fuzzy matching, the edits are found,
and the last line of the content is there in only one of the two texts. -/
theorem line_count_error_iff {nfkc : List Char → List Char}
    (hnfkc : ∀ text, (nfkc text).count '\n' = text.count '\n') (content : List Char) (edits : List Edit)
    (path : String) :
    applyEditsToNormalizedContent nfkc content edits path ≠ .error differentLineCount ↔
      ¬ (allExact nfkc content edits = false ∧ FoundInBase nfkc content edits path ∧
        LastLineDiffers nfkc content) := by
  rw [not_iff_not, applyEdits_error, replacedContent_error, line_counts_eq_iff (hnfkc content)]
  unfold FoundInBase
  constructor
  · rintro ⟨hempty, hfuzzy, hfound, hdiffers⟩
    exact ⟨hfuzzy, ⟨hempty, hfound⟩, hdiffers⟩
  · rintro ⟨hfuzzy, ⟨hempty, hfound⟩, hdiffers⟩
    exact ⟨hempty, hfuzzy, hfound, hdiffers⟩

section Examples

/-- The apostrophe of the edit is a straight one. -/
def plainQuote : Edit :=
  { oldText := "it's", newText := "it is", hash := none, before := none, after := none }

/-- A curly apostrophe, and one blank in the second line. -/
def blankEnd : List Char := "it’s\n ".toList

/-- Without the blank the edit is made. -/
theorem line_count_error_example :
    applyEditsToNormalizedContent id "it’s\n".toList [plainQuote] "f" ≠ .error differentLineCount := by
  apply (line_count_error_iff (fun _ => rfl) _ _ _).mpr
  rintro ⟨-, -, hdiffers⟩
  apply hdiffers
  decide

theorem blank_end_refused :
    applyEditsToNormalizedContent id blankEnd [plainQuote] "f" = .error differentLineCount := by
  have hmatch : matchEdit id (normalizeForFuzzyMatch id blankEnd) "f" 1 0 "it's".toList "it is".toList =
      .ok { editIndex := 0, matchIndex := 0, matchLength := 4, newText := "it is".toList } := by decide
  have hfound : matchedEdits id (normalizeForFuzzyMatch id blankEnd) "f" (lfEdits [plainQuote]) =
      .ok [{ editIndex := 0, matchIndex := 0, matchLength := 4, newText := "it is".toList }] := by
    have hone : lfEdits [plainQuote] = [("it's".toList, "it is".toList)] := by decide
    rw [hone, matchedEdits_singleton, hmatch]
    rfl
  apply applyEdits_error.mpr
  refine ⟨by decide, replacedContent_error.mpr ⟨by decide, ⟨_, hfound⟩, by decide⟩⟩

end Examples

end PieLab

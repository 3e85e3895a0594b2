import PieLab.Tools.LineEndings

/-
  What an edit call previews and what it does

  Before an edit call runs, its diff is shown. The preview looks for the old texts and
  replaces them where they are found. The call first tries to resolve edits that carry
  a hash or a context to whole lines, and only looks for their texts where that fails.

  What is proved:
    1. `applyEdits_noCr`, `changes_file` — a success of the preview has other line
       texts, and the file is changed when they are written.
    2. `samePlaces_preview` — old texts that are each found once, as the very line they
       resolve to, give the preview the text of the call.
    3. `preview_agrees` — where the two ways agree: the call looks for the texts itself,
       or each is found once as its line, or nothing is changed. Where every old text
       that is found is found as its line, they agree in no other case that changes
       the file.
    4. `preview_rejects_applied` — a text that is a line, and a part of the next one.

  Correspondence (TypeScript ↔ Lean): `computeEditsDiff` of
  packages/coding-agent/src/core/tools/edit-diff.ts ↔ `computeEditsDiff`, up to the diff
  of the two texts; the call is `EditCall.finalContent` (PieLab.Tools.Edit). Both read
  the same content.
-/

namespace PieLab

open Lib

/-- The texts of which the preview shows the differences. -/
def computeEditsDiff (nfkc : List Char → List Char) (path : String) (edits : List Edit)
    (rawContent : List Char) : Except String (List Char × List Char) := do
  let (_, content) := stripBom rawContent
  let normalizedContent := normalizeToLF content
  let newContent ← applyEditsToNormalizedContent nfkc normalizedContent edits path
  return (normalizedContent, newContent)

/-- The text of a file without its byte order mark, with `\n` for all line ends. -/
def normalizedText (rawContent : List Char) : List Char := normalizeToLF (stripBom rawContent).2

/-- The call changes the file. -/
def ChangesFile (env : EditEnv) (path : String) (edits : List Edit) (rawContent : List Char) :
    Prop :=
  ∃ final, (EditCall.replacement path edits).finalContent env none rawContent = .ok final ∧
    final ≠ rawContent

/-- The preview succeeds exactly when the call changes the file, and with its new content. -/
def PreviewAgrees (env : EditEnv) (path : String) (edits : List Edit) (rawContent : List Char) :
    Prop :=
  ((∃ texts, computeEditsDiff env.nfkc path edits rawContent = .ok texts) ↔
      ChangesFile env path edits rawContent) ∧
    ∀ texts new, computeEditsDiff env.nfkc path edits rawContent = .ok texts →
      replacedText env path edits (normalizedText rawContent) = .ok new → texts.2 = new

/-! ## The condition -/

/-- A match is a line of the base, and the line is not empty. -/
def FuzzyMatchResult.IsLine (found : FuzzyMatchResult) (base : List Char) (i : Nat) : Prop :=
  found.index = lineStart (splitLinesWithEndings base) i ∧ 0 < found.matchLength ∧
    (base.splitOn '\n')[i]?.map List.length = some found.matchLength

/-- Every old text that is found is the line it resolves to. -/
def FoundAtLines (nfkc : List Char → List Char) (base : List Char)
    (resolved : List (Nat × HashlineEdit)) : Prop :=
  ∀ r ∈ resolved, ∀ found, fuzzyFindText nfkc base (normalizeToLF r.2.anchor.toList) = some found →
    found.IsLine base r.1

/-- The old texts are each found once, as the line they resolve to, and the lines are changed. -/
structure SamePlaces (nfkc : List Char → List Char) (content base : List Char)
    (resolved : List (Nat × HashlineEdit)) : Prop where
  lastLine : lastLine base = [] ↔ lastLine content = []
  found : ∀ r ∈ resolved, (fuzzyFindText nfkc base (normalizeToLF r.2.anchor.toList)).isSome
  places : FoundAtLines nfkc base resolved
  once : ∀ r ∈ resolved, countOccurrences nfkc base (normalizeToLF r.2.anchor.toList) ≤ 1
  noCr : ∀ r ∈ resolved, '\r' ∉ r.2.newText.toList
  changed : ∃ r ∈ resolved, (content.splitOn '\n')[r.1]? ≠ some r.2.newText.toList

/-- The anchors are lines, their edits leave them, and the file has one line end. -/
structure NothingChanges (rawContent : List Char) (resolved : List (Nat × HashlineEdit)) :
    Prop where
  lines : ∀ r ∈ resolved, ((normalizedText rawContent).splitOn '\n')[r.1]? = some r.2.anchor.toList
  same : ∀ r ∈ resolved, r.2.newText = r.2.anchor
  ending : ∀ line ∈ rawLines (stripBom rawContent).2, line.ending = [] ∨ line.ending = fileEnding rawContent

/-- The call looks for the old texts as the preview does, or its lines are the same places. -/
def MadeAlike (env : EditEnv) (edits : List Edit) (rawContent : List Char) : Prop :=
  ∀ resolved, hashlineLines env.sha256Hex (normalizedText rawContent) edits = some resolved →
    SamePlaces env.nfkc (normalizedText rawContent) (matchBase env.nfkc (normalizedText rawContent) edits)
        resolved ∨
      NothingChanges rawContent resolved

/-! ## Texts without carriage returns -/

theorem noCr_normalizeToLF (text : List Char) : '\r' ∉ normalizeToLF text := by
  unfold normalizeToLF replaceCr
  intro h
  obtain ⟨c, -, hc⟩ := List.mem_map.mp h
  by_cases hcr : c = '\r'
  · rw [if_pos hcr] at hc
    cases hc
  · rw [if_neg hcr] at hc
    exact hcr hc

variable {c : Char} {rawContent content base line : List Char} {rs : List TextReplacement}
variable {r : Nat × HashlineEdit} {nfkc : List Char → List Char} {edits : List Edit} {i : Nat}
variable {resolved : List (Nat × HashlineEdit)}

theorem normalizeToLF_ne_cr (h : c ≠ '\r') (rest : List Char) :
    normalizeToLF (c :: rest) = c :: normalizeToLF rest := by
  cases rest with
  | nil => rw [normalizeToLF_single, if_neg h]; rfl
  | cons d rest => rw [normalizeToLF_cons rest fun hcd => h hcd.1, if_neg h]

theorem normalizeToLF_restoreLineEndings {text : List Char} (h : '\r' ∉ text)
    (ending : LineEnding) :
    normalizeToLF (restoreLineEndings text ending) = text := by
  induction text with
  | nil => cases ending <;> rfl
  | cons c rest ih =>
    rw [List.mem_cons, not_or] at h
    have ih := ih h.2
    have hc : c ≠ '\r' := fun heq => h.1 heq.symm
    cases ending with
    | lf =>
      show normalizeToLF (c :: rest) = _
      rw [normalizeToLF_ne_cr hc]
      exact congrArg (c :: ·) ih
    | crlf =>
      by_cases hlf : c = '\n'
      · rw [hlf]
        show normalizeToLF ('\r' :: '\n' :: restoreLineEndings rest .crlf) = _
        rw [normalizeToLF_crlf, ih]
      · have hkept : restoreLineEndings (c :: rest) .crlf = c :: restoreLineEndings rest .crlf := by
          unfold restoreLineEndings
          rw [List.flatMap_cons, if_neg hlf]
          rfl
        rw [hkept, normalizeToLF_ne_cr hc, ih]

theorem stripBom_append (rawContent : List Char) :
    (stripBom rawContent).1 ++ (stripBom rawContent).2 = rawContent := by
  cases rawContent with
  | nil => rfl
  | cons c rest =>
    rw [stripBom]
    by_cases hc : c = '\uFEFF'
    · rw [if_pos hc]
      rfl
    · rw [if_neg hc]
      rfl

/-- Other line texts make another file. -/
theorem changes_file {new : List Char} (hcr : '\r' ∉ new) (hne : new ≠ normalizedText rawContent) :
    (stripBom rawContent).1 ++ restoreLineEndings new (detectLineEnding (stripBom rawContent).2) ≠
      rawContent := by
  intro h
  have hcontent : restoreLineEndings new (detectLineEnding (stripBom rawContent).2) =
      (stripBom rawContent).2 := by
    apply @List.append_cancel_left _ (stripBom rawContent).1
    rw [h, stripBom_append]
  apply hne
  unfold normalizedText
  rw [← hcontent, normalizeToLF_restoreLineEndings hcr]

/-! ## The new texts have no carriage return -/

theorem mem_applyReplacements {offset : Nat} (h : c ∈ applyReplacements content rs offset) :
    c ∈ content ∨ ∃ r ∈ rs, c ∈ r.newText := by
  rw [applyReplacements_eq] at h
  induction rs generalizing c with
  | nil => exact .inl h
  | cons r rest ih =>
    have hmem : c ∈ (applied content (rest.map TextReplacement.edit) offset).take (r.matchIndex - offset) ++
        r.newText ++ (applied content (rest.map TextReplacement.edit) offset).drop
          (r.matchIndex - offset + r.matchLength) := h
    rw [List.mem_append, List.mem_append] at hmem
    have hrest : c ∈ applied content (rest.map TextReplacement.edit) offset →
        c ∈ content ∨ ∃ r' ∈ r :: rest, c ∈ r'.newText := by
      intro hc
      rcases ih hc with hcontent | ⟨r', hr', hnew⟩
      · exact .inl hcontent
      · exact .inr ⟨r', List.mem_cons_of_mem r hr', hnew⟩
    rcases hmem with (hfront | hnew) | hback
    · exact hrest (List.mem_of_mem_take hfront)
    · exact .inr ⟨r, List.mem_cons_self, hnew⟩
    · exact hrest (List.mem_of_mem_drop hback)

theorem mem_nextGroups {groups : List ReplacementGroup} {startLine endLine : Nat}
    {r r' : TextReplacement}
    {group : ReplacementGroup} (hgroup : group ∈ nextGroups groups startLine endLine r)
    (hr' : r' ∈ group.replacements) : r' = r ∨ ∃ g ∈ groups, r' ∈ g.replacements := by
  unfold nextGroups at hgroup
  obtain hnil | ⟨front, current, hsplit⟩ := groups.eq_nil_or_concat
  · rw [hnil, List.getLast?_nil] at hgroup
    rw [List.mem_singleton.mp hgroup] at hr'
    exact .inl (List.mem_singleton.mp hr')
  · rw [List.concat_eq_append] at hsplit
    rw [hsplit, List.getLast?_concat] at hgroup
    dsimp only at hgroup
    rw [hsplit]
    split at hgroup
    · rw [List.dropLast_concat] at hgroup
      rcases List.mem_append.mp hgroup with hold | hnew
      · exact .inr ⟨group, List.mem_append_left _ hold, hr'⟩
      · rw [List.mem_singleton.mp hnew] at hr'
        rcases List.mem_append.mp hr' with hin | hlast
        · exact .inr ⟨current, List.mem_append_right _ (List.mem_singleton_self _), hin⟩
        · exact .inl (List.mem_singleton.mp hlast)
    · rcases List.mem_append.mp hgroup with hold | hnew
      · exact .inr ⟨group, hold, hr'⟩
      · rw [List.mem_singleton.mp hnew] at hr'
        exact .inl (List.mem_singleton.mp hr')

theorem mem_groupReplacements {lines : List LineSpan} {groups result : List ReplacementGroup}
    (h : groupReplacements lines rs groups = .ok result) {group : ReplacementGroup}
    (hgroup : group ∈ result) {r : TextReplacement} (hr : r ∈ group.replacements) :
    r ∈ rs ∨ ∃ g ∈ groups, r ∈ g.replacements := by
  induction rs generalizing groups with
  | nil =>
    cases h
    exact .inr ⟨group, hgroup, hr⟩
  | cons r' rest ih =>
    obtain ⟨⟨startLine, endLine⟩, -, h⟩ := Except.bind_ok h
    have h : groupReplacements lines rest (nextGroups groups startLine endLine r') = .ok result := h
    rcases ih h with hrest | ⟨g, hg, hin⟩
    · exact .inl (List.mem_cons_of_mem _ hrest)
    · rcases mem_nextGroups hg hin with rfl | hold
      · exact .inl List.mem_cons_self
      · exact .inr hold

theorem mem_rebuildLines {originalLines : List (List Char)} {baseLines : List LineSpan}
    {groups : List ReplacementGroup} {k : Nat}
    (h : c ∈ rebuildLines originalLines base baseLines k groups) :
    c ∈ originalLines.flatten ∨ c ∈ base ∨ ∃ group ∈ groups, ∃ r ∈ group.replacements, c ∈ r.newText := by
  have hlines : ∀ {part : List (List Char)}, part.Sublist originalLines → c ∈ part.flatten →
      c ∈ originalLines.flatten := by
    intro part hpart hc
    obtain ⟨line, hline, hcl⟩ := List.mem_flatten.mp hc
    exact List.mem_flatten.mpr ⟨line, hpart.subset hline, hcl⟩
  induction groups generalizing k with
  | nil => exact .inl (hlines (List.drop_sublist k originalLines) h)
  | cons group rest ih =>
    rw [rebuildLines, List.mem_append, List.mem_append] at h
    rcases h with (hgap | hgroup) | hrest
    · exact .inl (hlines (slice_sublist _ _ _) hgap)
    · rcases mem_applyReplacements hgroup with hbase | ⟨r, hr, hnew⟩
      · exact .inr (.inl ((slice_sublist _ _ _).subset hbase))
      · exact .inr (.inr ⟨group, List.mem_cons_self, r, hr, hnew⟩)
    · rcases ih hrest with horiginal | hbase | ⟨g, hg, hin⟩
      · exact .inl horiginal
      · exact .inr (.inl hbase)
      · exact .inr (.inr ⟨g, List.mem_cons_of_mem _ hg, hin⟩)

theorem asciiOf_eq_cr (h : asciiOf c = '\r') : c = '\r' := by
  unfold asciiOf at h
  dsimp only at h
  split at h
  · cases h
  · split at h
    · cases h
    · split at h
      · cases h
      · split at h
        · cases h
        · exact h

theorem mem_of_mem_splitOn {text : List Char} (h : line ∈ text.splitOn '\n') (hc : c ∈ line) :
    c ∈ text := by
  rw [splitOn_lastLine, List.mem_append, List.mem_singleton] at h
  rw [text_eq_lines text, List.mem_append]
  rcases h with h | rfl
  · exact .inl (List.mem_flatMap.mpr ⟨line, h, List.mem_append_left _ hc⟩)
  · exact .inr hc

theorem noCr_normalizeForFuzzyMatch {text : List Char} (h : '\r' ∉ nfkc text) :
    '\r' ∉ normalizeForFuzzyMatch nfkc text := by
  have hlines : ∀ line ∈ ((nfkc text).splitOn '\n').map trimEnd, '\r' ∉ line := by
    intro line hline hcr
    obtain ⟨whole, hwhole, rfl⟩ := List.mem_map.mp hline
    unfold trimEnd at hcr
    rw [List.mem_reverse] at hcr
    have hin := (List.dropWhile_suffix isJsSpace).subset hcr
    exact h (mem_of_mem_splitOn hwhole (List.mem_reverse.mp hin))
  unfold normalizeForFuzzyMatch
  intro hcr
  obtain ⟨c, hc, heq⟩ := List.mem_map.mp hcr
  rw [asciiOf_eq_cr heq] at hc
  exact intercalate_noCr hlines hc

theorem noCr_newText {path : String} (h : matchedEdits nfkc base path (lfEdits edits) = .ok rs) :
    ∀ r ∈ rs, '\r' ∉ r.newText := by
  intro r hr
  obtain ⟨edit, hedit, -, -, -, -, hnew⟩ := (matchedEdits_sorted h).1 r hr
  obtain ⟨e, -, rfl⟩ := List.mem_map.mp hedit
  rw [hnew]
  exact noCr_normalizeToLF _

/-- A success has no carriage return if normalization makes none. -/
theorem applyEdits_noCr {new : List Char} {path : String} (hnfkc : '\r' ∉ nfkc content)
    (hcontent : '\r' ∉ content)
    (h : applyEditsToNormalizedContent nfkc content edits path = .ok new) : '\r' ∉ new := by
  obtain ⟨-, ⟨rs, hmatched, happlied⟩, -⟩ := applyEdits_ok_iff.mp h
  have hnew := noCr_newText hmatched
  unfold appliedMatches at happlied
  split at happlied
  · intro hcr
    rw [← Except.ok.inj happlied] at hcr
    rcases mem_applyReplacements hcr with hin | ⟨r, hr, hin⟩
    · exact hcontent hin
    · exact hnew r hr hin
  · next hfuzzy =>
    have hbase : matchBase nfkc content edits = normalizeForFuzzyMatch nfkc content := if_neg hfuzzy
    obtain ⟨_, -, happlied⟩ := Except.bind_ok happlied
    obtain ⟨groups, hgroups, happlied⟩ := Except.bind_ok happlied
    intro hcr
    rw [← Except.ok.inj happlied] at hcr
    rcases mem_rebuildLines hcr with hin | hin | ⟨group, hgroup, r, hr, hin⟩
    · rw [flatten_splitLinesWithEndings] at hin
      exact hcontent hin
    · rw [hbase] at hin
      exact noCr_normalizeForFuzzyMatch hnfkc hin
    · rcases mem_groupReplacements hgroups hgroup hr with hmem | ⟨g, hg, -⟩
      · rw [(List.mergeSort_perm _ _).mem_iff] at hmem
        exact hnew r hmem hin
      · cases hg

/-! ## Matches that are lines -/

theorem getElem_splitLinesWithEndings (h : (base.splitOn '\n')[i]? = some line) (hne : line ≠ []) :
    (splitLinesWithEndings base)[i]? =
      some (line ++ if i + 1 < (base.splitOn '\n').length then ['\n'] else []) := by
  have hended : (endedLines base)[i]? =
      some (line ++ if i + 1 < (base.splitOn '\n').length then ['\n'] else []) := by
    unfold endedLines
    rw [getElem?_withNewlines, h, Option.map_some]
    split
    · rfl
    · rw [List.append_nil]
  rcases endedLines_eq base with heq | heq
  · rw [← heq]
    exact hended
  · rw [heq] at hended
    by_cases hi : i < (splitLinesWithEndings base).length
    · rw [List.getElem?_append_left hi] at hended
      exact hended
    · -- nothing but an empty text stands behind the last newline
      rw [List.getElem?_append_right (by omega), List.getElem?_singleton] at hended
      split at hended
      · rw [Option.some.injEq] at hended
        exact absurd (List.append_eq_nil_iff.mp hended.symm).1 hne
      · cases hended

theorem lineStart_succ (h : (splitLinesWithEndings base)[i]? = some line) :
    lineStart (splitLinesWithEndings base) (i + 1) =
      lineStart (splitLinesWithEndings base) i + line.length := by
  obtain ⟨hi, rfl⟩ := List.getElem?_eq_some_iff.mp h
  unfold lineStart
  rw [List.take_succ_eq_append_getElem hi, List.flatten_append, List.length_append]
  simp

/-- The replacement of a line by the text of its edit. -/
def lineMatch (base : List Char) (r : Nat × HashlineEdit) (editIndex : Nat) : TextReplacement :=
  { editIndex, matchIndex := lineStart (splitLinesWithEndings base) r.1
    matchLength := ((base.splitOn '\n')[r.1]?.getD []).length, newText := r.2.newText.toList }

def lineMatches (base : List Char) (resolved : List (Nat × HashlineEdit)) : List TextReplacement :=
  resolved.zipIdx.map fun (r, editIndex) => lineMatch base r editIndex

/-- The lines are lines of the base that are not empty, and no two are the same. -/
structure DistinctLines (base : List Char) (resolved : List (Nat × HashlineEdit)) : Prop where
  lines : ∀ r ∈ resolved, ∃ line, (base.splitOn '\n')[r.1]? = some line ∧ line ≠ []
  apart : (resolved.map Prod.fst).Nodup

theorem DistinctLines.bounds (h : DistinctLines base resolved) (hr : r ∈ resolved)
    (editIndex : Nat) :
    0 < (lineMatch base r editIndex).matchLength ∧
      (lineMatch base r editIndex).matchIndex + (lineMatch base r editIndex).matchLength ≤
        lineStart (splitLinesWithEndings base) (r.1 + 1) ∧ r.1 < (splitLinesWithEndings base).length := by
  obtain ⟨line, hline, hne⟩ := h.lines r hr
  have hget := getElem_splitLinesWithEndings hline hne
  have hlength : (lineMatch base r editIndex).matchLength = line.length := by
    unfold lineMatch
    rw [hline]
    rfl
  refine ⟨?_, ?_, (List.getElem?_eq_some_iff.mp hget).1⟩
  · rw [hlength]
    exact List.length_pos_iff.mpr hne
  · rw [lineStart_succ hget, hlength, List.length_append]
    show lineStart (splitLinesWithEndings base) r.1 + line.length ≤ _
    omega

theorem mem_lineMatches {m : TextReplacement} (h : m ∈ lineMatches base resolved) :
    ∃ r ∈ resolved, ∃ editIndex, m = lineMatch base r editIndex := by
  obtain ⟨⟨r, editIndex⟩, hmem, rfl⟩ := List.mem_map.mp h
  exact ⟨r, List.mem_of_getElem? (List.mem_zipIdx_iff_getElem?.mp hmem), editIndex, rfl⟩

theorem exists_lineMatch {base : List Char} {resolved : List (Nat × HashlineEdit)}
    {r : Nat × HashlineEdit}
    (h : r ∈ resolved) : ∃ editIndex, lineMatch base r editIndex ∈ lineMatches base resolved := by
  obtain ⟨k, hk, hget⟩ := List.getElem_of_mem h
  refine ⟨k, List.mem_map.mpr ⟨(r, k), ?_, rfl⟩⟩
  rw [List.mem_zipIdx_iff_getElem?, List.getElem?_eq_getElem hk, hget]

theorem DistinctLines.inside (h : DistinctLines base resolved) :
    InsideBase base (lineMatches base resolved) := by
  intro m hm
  obtain ⟨r, hr, editIndex, rfl⟩ := mem_lineMatches hm
  obtain ⟨hpos, hstop, hlt⟩ := h.bounds hr editIndex
  refine ⟨hpos, Nat.le_trans hstop ?_⟩
  calc lineStart (splitLinesWithEndings base) (r.1 + 1)
      ≤ lineStart (splitLinesWithEndings base) (splitLinesWithEndings base).length := lineStart_mono _ hlt
    _ = base.length := by rw [lineStart_length, flatten_splitLinesWithEndings]

theorem DistinctLines.elsewhere (h : DistinctLines base resolved) (hr : r ∈ resolved)
    (editIndex : Nat) (hi : r.1 ≠ i) :
    (lineMatch base r editIndex).matchIndex + (lineMatch base r editIndex).matchLength ≤
        lineStart (splitLinesWithEndings base) i ∨
      lineStart (splitLinesWithEndings base) (i + 1) ≤ (lineMatch base r editIndex).matchIndex := by
  rcases Nat.lt_or_gt_of_ne hi with hlt | hgt
  · exact .inl (Nat.le_trans (h.bounds hr editIndex).2.1 (lineStart_mono _ hlt))
  · exact .inr (lineStart_mono _ hgt)

theorem DistinctLines.nonOverlapping (h : DistinctLines base resolved) :
    NonOverlapping (lineMatches base resolved) := by
  have hdistinct : resolved.zipIdx.Pairwise fun a b => a.1.1 ≠ b.1.1 := by
    have hpairs : resolved.Pairwise fun a b => a.1 ≠ b.1 := List.pairwise_map.mp h.apart
    rw [← List.zipIdx_map_fst 0 resolved] at hpairs
    exact (List.pairwise_map (f := Prod.fst)).mp hpairs
  apply List.pairwise_map.mpr
  apply hdistinct.imp_of_mem
  rintro ⟨a, j⟩ ⟨b, k⟩ ha hb hne
  have ha := List.mem_of_getElem? (List.mem_zipIdx_iff_getElem?.mp ha)
  have hb := List.mem_of_getElem? (List.mem_zipIdx_iff_getElem?.mp hb)
  rcases h.elsewhere ha j hne with hbefore | hbehind
  · exact .inl hbefore
  · exact .inr (Nat.le_trans (h.bounds hb k).2.1 hbehind)

theorem DistinctLines.untouched (h : DistinctLines base resolved) (hi : ∀ r ∈ resolved, r.1 ≠ i) :
    isTouched base (lineMatches base resolved) i = false := by
  unfold isTouched
  rw [List.any_eq_false]
  intro m hm
  obtain ⟨r, hr, editIndex, rfl⟩ := mem_lineMatches hm
  have hfar := h.elsewhere hr editIndex (hi r hr)
  rw [TextReplacement.touches_iff]
  omega

theorem filter_covers_eq (hapart : NonOverlapping rs) {r : TextReplacement} (hr : r ∈ rs) {p : Nat}
    (hp : r.edit.covers p = true) :
    ((rs.map TextReplacement.edit).filter fun e => e.covers p) = [r.edit] := by
  have hin : r.edit ∈ (rs.map TextReplacement.edit).filter fun e => e.covers p :=
    List.mem_filter.mpr ⟨List.mem_map_of_mem hr, hp⟩
  have hone := hapart.allApart.covers_le_one p
  generalize ((rs.map TextReplacement.edit).filter fun e => e.covers p) = found at hin hone
  match found, hin, hone with
  | [e], hin, _ => rw [List.mem_singleton.mp hin]

theorem editedRange_match (hinside : InsideBase base rs) (hapart : NonOverlapping rs)
    {r : TextReplacement} (hr : r ∈ rs) :
    editedRange base (rs.map TextReplacement.edit) r.matchIndex (r.matchIndex + r.matchLength) =
      r.newText := by
  have hpos := (hinside r hr).1
  have hone : NoneEmpty [r.edit] := by
    intro e he
    rw [List.mem_singleton.mp he]
    exact hpos
  calc editedRange base (rs.map TextReplacement.edit) r.matchIndex (r.matchIndex + r.matchLength)
      = editedRange base [r.edit] r.matchIndex (r.matchIndex + r.matchLength) := by
        apply editedRange_congr (noneEmpty_edits hinside) hone
        intro p hstart hstop
        have hp : r.edit.covers p = true := r.edit.covers_iff.mpr ⟨hstart, hstop⟩
        rw [filter_covers_eq hapart hr hp]
        simp [hp]
    _ = r.newText := by
        apply @editedRange_replaced _ base r.edit [] hpos
        intro e he
        cases he

theorem DistinctLines.resultLine_eq {original : List Char} (h : DistinctLines base resolved)
    (hr : r ∈ resolved) :
    resultLine original base (lineMatches base resolved) r.1 =
      r.2.newText.toList ++ if r.1 + 1 < (base.splitOn '\n').length then ['\n'] else [] := by
  obtain ⟨editIndex, hmem⟩ := @exists_lineMatch base _ _ hr
  obtain ⟨hpos, hstop, hlt⟩ := h.bounds hr editIndex
  obtain ⟨line, hline, hne⟩ := h.lines r hr
  have hget := getElem_splitLinesWithEndings hline hne
  generalize hmatch : lineMatch base r editIndex = m at hmem hpos hstop
  have hm : m.matchIndex = lineStart (splitLinesWithEndings base) r.1 := by
    rw [← hmatch]
    rfl
  have hlength : m.matchLength = line.length := by
    rw [← hmatch]
    unfold lineMatch
    rw [hline]
    rfl
  have htouched : isTouched base (lineMatches base resolved) r.1 = true := by
    refine List.any_eq_true.mpr ⟨m, hmem, m.touches_iff.mpr ?_⟩
    omega
  -- behind the replaced text nothing but the newline is left of the line
  have htail : editedRange base ((lineMatches base resolved).map TextReplacement.edit)
      (m.matchIndex + m.matchLength) (lineStart (splitLinesWithEndings base) (r.1 + 1)) =
        if r.1 + 1 < (base.splitOn '\n').length then ['\n'] else [] := by
    have hend : lineStart (splitLinesWithEndings base) (r.1 + 1) ≤ base.length := by
      have hmono := lineStart_mono (splitLinesWithEndings base) (Nat.succ_le_of_lt hlt)
      rw [lineStart_length, flatten_splitLinesWithEndings] at hmono
      exact hmono
    rw [editedRange_free (noneEmpty_edits h.inside) hstop hend]
    · have hslice := slice_lineStart hlt
      rw [(List.getElem?_eq_some_iff.mp hget).2] at hslice
      calc slice base (m.matchIndex + m.matchLength) (lineStart (splitLinesWithEndings base) (r.1 + 1))
          = (slice base (lineStart (splitLinesWithEndings base) r.1)
              (lineStart (splitLinesWithEndings base) (r.1 + 1))).drop line.length := by
            unfold slice
            rw [List.drop_drop, hm, hlength]
        _ = if r.1 + 1 < (base.splitOn '\n').length then ['\n'] else [] := by
            rw [hslice, List.drop_left]
    · intro e he p hfrom hto
      obtain ⟨m', hm', rfl⟩ := List.mem_map.mp he
      obtain ⟨r', hr', k, rfl⟩ := mem_lineMatches hm'
      rw [← Bool.not_eq_true, RangeEdit.covers_iff]
      show ¬ ((lineMatch base r' k).matchIndex ≤ p ∧
        p < (lineMatch base r' k).matchIndex + (lineMatch base r' k).matchLength)
      by_cases hsame : r'.1 = r.1
      · have hstart' : (lineMatch base r' k).matchIndex = m.matchIndex := by
          rw [hm, ← hsame]
          rfl
        have hlength' : (lineMatch base r' k).matchLength = m.matchLength := by
          rw [← hmatch]
          unfold lineMatch
          simp only [hsame]
        omega
      · have hfar := h.elsewhere hr' k hsame
        omega
  unfold resultLine
  rw [if_pos htouched, ← hm, ← editedRange_append base _ (Nat.le_add_right _ _) hstop,
    editedRange_match h.inside h.nonOverlapping hmem, htail, ← hmatch]
  rfl

/-! ## The same text -/

theorem lookup_of_mem (hapart : (resolved.map Prod.fst).Nodup) :
    r ∈ resolved ↔ resolved.lookup r.1 = some r.2 :=
  OrderedMap.mem_entries_iff ⟨resolved, hapart⟩

theorem DistinctLines.text_eq (h : DistinctLines base resolved)
    (hcount : (splitLinesWithEndings content).length = (splitLinesWithEndings base).length)
    (hlines : (content.splitOn '\n').length = (base.splitOn '\n').length) :
    (List.range (splitLinesWithEndings content).length).flatMap
        (resultLine content base (lineMatches base resolved)) = (withLines content resolved).flatten := by
  have hkept := withLines_keeps content resolved
  generalize hcountN : (splitLinesWithEndings content).length = n at hcount
  have hended : ∀ i, i < n → (endedLines content)[i]? = (splitLinesWithEndings content)[i]? := by
    intro i hi
    rcases endedLines_eq content with heq | heq
    · rw [heq]
    · rw [heq, List.getElem?_append_left (by omega)]
  have hline : ∀ i, i < n → (withLines content resolved)[i]? =
      some (resultLine content base (lineMatches base resolved) i) := by
    intro i hi
    cases hlookup : resolved.lookup i with
    | none =>
      have hfree : ∀ r ∈ resolved, r.1 ≠ i := by
        intro r hr heq
        have hsome := (lookup_of_mem h.apart).mp hr
        rw [heq, hlookup] at hsome
        cases hsome
      have hget : (splitLinesWithEndings content)[i]? =
          some ((splitLinesWithEndings content)[i]?.getD []) := by
        rw [List.getElem?_eq_getElem (by omega)]
        rfl
      unfold resultLine
      rw [h.untouched hfree]
      apply hkept.kept
      · rw [hended i hi]
        exact hget
      · simp [hlookup]
    | some edit =>
      have hmem : (i, edit) ∈ resolved := (lookup_of_mem h.apart).mpr hlookup
      have htext : lineText resolved i = fun _ => edit.newText.toList := by
        funext line
        unfold lineText
        rw [hlookup]
        rfl
      have hlt : i < (content.splitOn '\n').length := by
        obtain ⟨line, hline, -⟩ := h.lines (i, edit) hmem
        rw [hlines]
        exact (List.getElem?_eq_some_iff.mp hline).1
      rw [h.resultLine_eq hmem, withLines, getElem?_withNewlines, List.getElem?_mapIdx,
        List.getElem?_eq_getElem hlt, htext, List.length_mapIdx, ← hlines]
      show some (if i + 1 < _ then _ else _) = _
      split
      · rfl
      · rw [List.append_nil]
  have hfront : (withLines content resolved).take n =
      (List.range n).map (resultLine content base (lineMatches base resolved)) := by
    apply List.ext_getElem?
    intro i
    by_cases hi : i < n
    · rw [List.getElem?_take_of_lt hi, hline i hi, List.getElem?_map, List.getElem?_range hi]
      rfl
    · rw [List.getElem?_eq_none (by rw [List.length_take]; omega),
        List.getElem?_eq_none (by rw [List.length_map, List.length_range]; omega)]
  have hback : ((withLines content resolved).drop n).flatten = [] := by
    have hlength := hkept.length
    rcases endedLines_eq content with heq | heq
    · rw [heq] at hlength
      rw [List.drop_eq_nil_of_le (by omega)]
      rfl
    · -- the empty text behind the last newline is no line of the base
      have hlast : (withLines content resolved)[n]? = some [] := by
        apply hkept.kept
        · rw [heq, List.getElem?_append_right (by omega), hcountN, Nat.sub_self]
          rfl
        · cases hlookup : resolved.lookup n with
          | none => rfl
          | some edit =>
            have hmem : (n, edit) ∈ resolved := (lookup_of_mem h.apart).mpr hlookup
            have hlt := (h.bounds hmem 0).2.2
            omega
      rw [heq, List.length_append, List.length_singleton] at hlength
      have hone : (withLines content resolved).drop n = [[]] := by
        rw [List.drop_eq_getElem_cons (by omega), List.drop_eq_nil_of_le (by omega),
          (List.getElem?_eq_some_iff.mp hlast).2]
      rw [hone]
      rfl
  calc (List.range n).flatMap (resultLine content base (lineMatches base resolved))
      = ((withLines content resolved).take n).flatten := by rw [hfront, List.flatMap_def]
    _ = ((withLines content resolved).take n).flatten ++ ((withLines content resolved).drop n).flatten := by
        rw [hback, List.append_nil]
    _ = (withLines content resolved).flatten := by rw [← List.flatten_append, List.take_append_drop]

theorem count_intercalate {lines : List (List Char)} (h : lines ≠ []) :
    (['\n'].intercalate lines).count '\n' + 1 = lines.length + (lines.map (List.count '\n')).sum := by
  induction lines with
  | nil => exact absurd rfl h
  | cons line rest ih =>
    cases rest with
    | nil => simp [Nat.add_comm]
    | cons next rest =>
      have hne : next :: rest ≠ [] := List.cons_ne_nil _ _
      have hrest := ih hne
      rw [List.intercalate_cons_of_ne_nil hne, List.count_append, List.count_append,
        List.length_cons,
        List.map_cons, List.sum_cons, List.count_singleton_self]
      omega

theorem withLines_ne (hapart : (resolved.map Prod.fst).Nodup) (hr : r ∈ resolved)
    (hlt : r.1 < (content.splitOn '\n').length)
    (hchanged : (content.splitOn '\n')[r.1]? ≠ some r.2.newText.toList) :
    (withLines content resolved).flatten ≠ content := by
  intro hsame
  unfold withLines at hsame
  rw [flatten_withNewlines] at hsame
  generalize htexts : (content.splitOn '\n').mapIdx (lineText resolved) = texts at hsame
  have hlength : texts.length = (content.splitOn '\n').length := by
    rw [← htexts, List.length_mapIdx]
  have hne : texts ≠ [] := by
    intro hnil
    rw [hnil] at hlength
    exact List.splitOn_ne_nil _ _ (List.length_eq_zero_iff.mp hlength.symm)
  -- as many lines as before, so no text has a newline
  have hplain : ∀ text ∈ texts, '\n' ∉ text := by
    have hcount := count_intercalate hne
    have hcontent := @count_intercalate (content.splitOn '\n') (List.splitOn_ne_nil _ _)
    have hzero : ((content.splitOn '\n').map (List.count '\n')).sum = 0 := by
      rw [List.sum_eq_zero_iff_forall_eq_nat]
      intro k hk
      obtain ⟨line, hline, rfl⟩ := List.mem_map.mp hk
      exact List.count_eq_zero_of_not_mem (noNewline_of_mem_splitOn hline)
    rw [List.intercalate_splitOn] at hcontent
    rw [hsame] at hcount
    have hsum : (texts.map (List.count '\n')).sum = 0 := by omega
    intro text htext
    apply List.count_eq_zero.mp
    exact List.sum_eq_zero_iff_forall_eq_nat.mp hsum _ (List.mem_map_of_mem htext)
  have hsplit := List.splitOn_intercalate '\n' hplain hne
  rw [hsame] at hsplit
  apply hchanged
  rw [hsplit, ← htexts, List.getElem?_mapIdx, List.getElem?_eq_getElem hlt]
  unfold lineText
  rw [(lookup_of_mem hapart).mp hr]
  rfl

/-! ## What the preview finds -/

theorem firstOverlap_of_inOrder (h : InOrder (rs.map TextReplacement.edit)) :
    firstOverlap rs = none := by
  induction rs with
  | nil => rfl
  | cons a rest ih =>
    cases rest with
    | nil => rfl
    | cons b rest =>
      obtain ⟨hfirst, hrest⟩ := List.pairwise_cons.mp h
      have hab : a.matchIndex + a.matchLength ≤ b.matchIndex := hfirst b.edit List.mem_cons_self
      rw [firstOverlap, if_neg (by omega)]
      exact ih hrest

theorem lfEdits_eq (h : resolved.map Prod.snd = edits.map Edit.anchored) :
    lfEdits edits = resolved.map fun r =>
      (normalizeToLF r.2.anchor.toList, normalizeToLF r.2.newText.toList) := by
  have hedits := congrArg (List.map fun e : HashlineEdit =>
    (normalizeToLF e.anchor.toList, normalizeToLF e.newText.toList)) h
  rw [List.map_map, List.map_map] at hedits
  exact hedits.symm

theorem normalizeToLF_of_noCr {text : List Char} (h : '\r' ∉ text) : normalizeToLF text = text :=
  normalizeToLF_restoreLineEndings h .lf

theorem SamePlaces.found_line (h : SamePlaces nfkc content base resolved) (hr : r ∈ resolved) :
    ∃ found, fuzzyFindText nfkc base (normalizeToLF r.2.anchor.toList) = some found ∧
      found.IsLine base r.1 := by
  obtain ⟨found, hfound⟩ := Option.isSome_iff_exists.mp (h.found r hr)
  exact ⟨found, hfound, h.places r hr found hfound⟩

theorem SamePlaces.distinctLines (h : SamePlaces nfkc content base resolved)
    (hapart : (resolved.map Prod.fst).Nodup) : DistinctLines base resolved where
  lines := by
    intro r hr
    obtain ⟨found, -, -, hpos, hlength⟩ := h.found_line hr
    obtain ⟨line, hline, hsame⟩ := Option.map_eq_some_iff.mp hlength
    refine ⟨line, hline, ?_⟩
    rintro rfl
    rw [← hsame] at hpos
    exact absurd hpos (Nat.lt_irrefl 0)
  apart := hapart

theorem SamePlaces.matched (h : SamePlaces nfkc content base resolved)
    (hapart : (resolved.map Prod.fst).Nodup) (path : String)
    (hedits : resolved.map Prod.snd = edits.map Edit.anchored) :
    matchedEdits nfkc base path (lfEdits edits) =
      .ok ((lineMatches base resolved).mergeSort fun a b => a.matchIndex ≤ b.matchIndex) := by
  have hdistinct := h.distinctLines hapart
  have hmatched : ∀ total, (lfEdits edits).zipIdx.mapM (fun e =>
      matchEdit nfkc base path total e.2 e.1.1 e.1.2) = .ok (lineMatches base resolved) := by
    intro total
    rw [lfEdits_eq hedits, List.zipIdx_map, List.mapM_map]
    apply Except.mapM_eq_ok
    rintro ⟨r, editIndex⟩ hr
    have hr := List.mem_of_getElem? (List.mem_zipIdx_iff_getElem?.mp hr)
    obtain ⟨found, hfound, hindex, -, hlength⟩ := h.found_line hr
    obtain ⟨line, hline, hsame⟩ := Option.map_eq_some_iff.mp hlength
    have hlineMatch : lineMatch base r editIndex =
        { editIndex, matchIndex := found.index, matchLength := found.matchLength
          newText := normalizeToLF r.2.newText.toList } := by
      unfold lineMatch
      rw [hline, Option.getD_some, hsame, ← hindex, normalizeToLF_of_noCr (h.noCr r hr)]
    show matchEdit nfkc base path total editIndex (normalizeToLF r.2.anchor.toList)
      (normalizeToLF r.2.newText.toList) = .ok (lineMatch base r editIndex)
    unfold matchEdit
    rw [hfound, hlineMatch]
    exact if_neg (Nat.not_lt.mpr (h.once r hr))
  have hperm :=
    List.mergeSort_perm (lineMatches base resolved) fun a b => decide (a.matchIndex ≤ b.matchIndex)
  have hsorted := pairwise_matchIndex (lineMatches base resolved)
  have hoverlap : refuseOverlap path
      ((lineMatches base resolved).mergeSort fun a b => a.matchIndex ≤ b.matchIndex) = .ok () := by
    unfold refuseOverlap
    have hapart : NonOverlapping ((lineMatches base resolved).mergeSort fun a b => a.matchIndex ≤ b.matchIndex) :=
      hdistinct.nonOverlapping.perm hperm.symm fun h => h.symm
    rw [firstOverlap_of_inOrder]
    exact hapart.inOrder (fun m hm => hdistinct.inside m (hperm.mem_iff.mp hm)) hsorted
  show ((lfEdits edits).zipIdx.mapM (fun e => matchEdit nfkc base path (lfEdits edits).length e.2 e.1.1 e.1.2) >>=
    fun matched => refuseOverlap path (matched.mergeSort fun a b => a.matchIndex ≤ b.matchIndex) >>=
      fun _ => .ok (matched.mergeSort fun a b => a.matchIndex ≤ b.matchIndex)) = _
  rw [hmatched]
  show (refuseOverlap path _ >>= _) = _
  rw [hoverlap]
  rfl

theorem fuzzyFindText_nil (nfkc : List Char → List Char) (content : List Char) :
    fuzzyFindText nfkc content [] = some { index := 0, matchLength := 0, usedFuzzyMatch := false } := by
  unfold fuzzyFindText
  cases content <;> rfl

theorem isReached_eq_isTouched (hinside : InsideBase base rs) (i : Nat) :
    isReached base rs i = isTouched base rs i := by
  unfold isReached isTouched
  rw [Bool.eq_iff_iff, List.any_eq_true, List.any_eq_true]
  constructor
  · rintro ⟨r, hr, h⟩
    have hpos := (hinside r hr).1
    rw [TextReplacement.reaches_iff] at h
    exact ⟨r, hr, r.touches_iff.mpr (by omega)⟩
  · rintro ⟨r, hr, h⟩
    rw [TextReplacement.touches_iff] at h
    exact ⟨r, hr, r.reaches_iff.mpr (by omega)⟩

theorem applyReplacements_resultLine (hinside : InsideBase base rs)
    (horder : InOrder (rs.map TextReplacement.edit)) :
    applyReplacements base rs 0 =
      (List.range (splitLinesWithEndings base).length).flatMap (resultLine base base rs) := by
  rw [applyReplacements_lines hinside horder]
  apply List.flatMap_congr
  intro i hi
  have hi := List.mem_range.mp hi
  unfold resultLine
  cases htouched : isTouched base rs i with
  | true => rfl
  | false =>
    rw [editedRange_unreached hinside hi (by rw [isReached_eq_isTouched hinside, htouched]),
      List.getElem?_eq_getElem hi]
    rfl

theorem length_splitOn (text : List Char) : (text.splitOn '\n').length = text.count '\n' + 1 := by
  rw [splitOn_lastLine, List.length_append, length_linesBefore]
  rfl

theorem count_matchBase (hcount : (nfkc content).count '\n' = content.count '\n')
    (edits : List Edit) : (matchBase nfkc content edits).count '\n' = content.count '\n' := by
  unfold matchBase
  split
  · rfl
  · rw [count_normalizeForFuzzyMatch, hcount]

/-- The preview makes the text of the call. -/
theorem samePlaces_preview (path : String) (hcount : (nfkc content).count '\n' = content.count '\n')
    (h : SamePlaces nfkc content (matchBase nfkc content edits) resolved)
    (hapart : (resolved.map Prod.fst).Nodup)
    (hin : ∀ r ∈ resolved, r.1 < (content.splitOn '\n').length)
    (hedits : resolved.map Prod.snd = edits.map Edit.anchored) :
    applyEditsToNormalizedContent nfkc content edits path = .ok (withLines content resolved).flatten := by
  have hdistinct := h.distinctLines hapart
  have hempty : refuseEmpty path (lfEdits edits) = .ok () := by
    rw [refuseEmpty_ok_iff, lfEdits_eq hedits]
    intro edit hedit hnil
    obtain ⟨r, hr, rfl⟩ := List.mem_map.mp hedit
    obtain ⟨found, hfound, -, hpos, -⟩ := h.found_line hr
    have hnil : normalizeToLF r.2.anchor.toList = [] := hnil
    rw [hnil, fuzzyFindText_nil, Option.some.injEq] at hfound
    rw [← hfound] at hpos
    exact absurd hpos (Nat.lt_irrefl 0)
  have hchanged : (withLines content resolved).flatten ≠ content := by
    obtain ⟨r, hr, hne⟩ := h.changed
    exact withLines_ne hapart hr (hin r hr) hne
  refine applyEdits_ok_iff.mpr ⟨hempty, ⟨_, h.matched hapart path hedits, ?_⟩, hchanged⟩
  have hperm := List.mergeSort_perm (lineMatches (matchBase nfkc content edits) resolved)
    fun a b => decide (a.matchIndex ≤ b.matchIndex)
  have hsorted := pairwise_matchIndex (lineMatches (matchBase nfkc content edits) resolved)
  generalize hsort : ((lineMatches (matchBase nfkc content edits) resolved).mergeSort
    fun a b => decide (a.matchIndex ≤ b.matchIndex)) = sorted at hperm hsorted
  have hinside : InsideBase (matchBase nfkc content edits) sorted :=
    fun m hm => hdistinct.inside m (hperm.mem_iff.mp hm)
  have hapartSorted : NonOverlapping sorted :=
    hdistinct.nonOverlapping.perm hperm.symm fun h => h.symm
  have hnewlines : (content.splitOn '\n').length =
      ((matchBase nfkc content edits).splitOn '\n').length := by
    rw [length_splitOn, length_splitOn, count_matchBase hcount]
  have hcounts : (splitLinesWithEndings content).length =
      (splitLinesWithEndings (matchBase nfkc content edits)).length := by
    rw [length_splitLinesWithEndings, length_splitLinesWithEndings, count_matchBase hcount]
    simp only [h.lastLine]
  have happlied : appliedMatches (allExact nfkc content edits) content (matchBase nfkc content edits) sorted =
      .ok ((List.range (splitLinesWithEndings content).length).flatMap
        (resultLine content (matchBase nfkc content edits) sorted)) := by
    cases hexact : allExact nfkc content edits with
    | true =>
      have hbase : matchBase nfkc content edits = content := if_pos hexact
      rw [hbase] at hinside ⊢
      exact congrArg Except.ok
        (applyReplacements_resultLine hinside (hapartSorted.inOrder hinside hsorted))
    | false => exact applyReplacementsPreserving_eq hcounts hapartSorted hinside
  rw [happlied, ← hdistinct.text_eq hcounts hnewlines]
  congr 1
  apply List.flatMap_congr
  intro i _
  exact resultLine_perm hperm hinside hapartSorted i

/-! ## Edits that change nothing -/

theorem indexOf_isSome {pattern : List Char} (h : pattern <:+: content) :
    (indexOf pattern content).isSome := by
  induction content with
  | nil =>
    rw [List.infix_nil.mp h]
    rfl
  | cons c rest ih =>
    rw [indexOf]
    split
    · rfl
    next hfront =>
      rw [List.isPrefixOf_iff_prefix] at hfront
      have hrest := (List.infix_cons_iff.mp h).resolve_left hfront
      rw [Option.isSome_map]
      exact ih hrest

theorem infix_of_mem_splitOn {text : List Char} (h : line ∈ text.splitOn '\n') :
    line <:+: text := by
  rw [splitOn_lastLine, List.mem_append, List.mem_singleton] at h
  rw [text_eq_lines text]
  rcases h with h | rfl
  · obtain ⟨front, back, hsplit⟩ := List.append_of_mem h
    rw [hsplit, List.flatMap_append, List.flatMap_cons]
    refine ⟨front.flatMap fun line => line ++ ['\n'],
      ['\n'] ++ back.flatMap (fun line => line ++ ['\n']) ++ lastLine text, ?_⟩
    simp
  · exact (List.suffix_append _ _).isInfix

theorem applyReplacements_same
    (h : ∀ r ∈ rs, r.newText <+: content.drop r.matchIndex ∧ r.matchLength = r.newText.length ∧
      r.matchIndex ≤ content.length) : applyReplacements content rs 0 = content := by
  rw [applyReplacements_eq]
  induction rs with
  | nil => rfl
  | cons r rest ih =>
    obtain ⟨⟨⟨back, hback⟩, hlength, hle⟩, hrest⟩ := List.forall_mem_cons.mp h
    show (applied content (rest.map TextReplacement.edit) 0).take (r.matchIndex - 0) ++ r.newText ++
      (applied content (rest.map TextReplacement.edit) 0).drop (r.matchIndex - 0 + r.matchLength) = content
    rw [ih hrest, Nat.sub_zero, ← List.drop_drop, ← hback, hlength, List.drop_left,
      List.append_assoc, hback,
      List.take_append_drop]

theorem same_refused {new : List Char} {path : String} (hexact : allExact nfkc content edits = true)
    (hsame : ∀ edit ∈ lfEdits edits, edit.2 = edit.1) :
    applyEditsToNormalizedContent nfkc content edits path ≠ .ok new := by
  intro h
  obtain ⟨-, ⟨rs, hmatched, happlied⟩, hne⟩ := applyEdits_ok_iff.mp h
  have hbase : matchBase nfkc content edits = content := if_pos hexact
  rw [hbase] at hmatched
  rw [hexact] at happlied
  apply hne
  rw [← Except.ok.inj happlied]
  apply applyReplacements_same
  intro r hr
  obtain ⟨edit, hedit, found, hfound, hindex, hlength, hnew⟩ :=
    (matchedEdits_sorted hmatched).1 r hr
  have hused := usedFuzzyMatch_of_allExact hexact hedit hfound
  have hmem := mem_occurrences.mp (indexOf_mem (indexOf_of_exact hfound hused))
  rw [hnew, hsame edit hedit, hindex, hlength]
  exact ⟨hmem.2, (fuzzyFindText_exact hfound hused).1, hmem.1⟩

theorem withLines_same (hapart : (resolved.map Prod.fst).Nodup)
    (hsame : ∀ r ∈ resolved, (content.splitOn '\n')[r.1]? = some r.2.newText.toList) :
    (withLines content resolved).flatten = content := by
  have htexts : (content.splitOn '\n').mapIdx (lineText resolved) = content.splitOn '\n' := by
    apply List.ext_getElem?
    intro i
    rw [List.getElem?_mapIdx]
    cases hlookup : resolved.lookup i with
    | none =>
      have hid : lineText resolved i = id := by
        funext line
        unfold lineText
        rw [hlookup]
        rfl
      rw [hid, Option.map_id]
      rfl
    | some edit =>
      have hline := hsame (i, edit) ((lookup_of_mem hapart).mpr hlookup)
      rw [hline, Option.map_some]
      unfold lineText
      rw [hlookup]
      rfl
  unfold withLines
  rw [htexts]
  exact flatten_endedLines content

theorem restore_normalizedText
    (h : ∀ line ∈ rawLines (stripBom rawContent).2, line.ending = [] ∨ line.ending = fileEnding rawContent) :
    restoreLineEndings (normalizedText rawContent) (detectLineEnding (stripBom rawContent).2) =
      (stripBom rawContent).2 := by
  unfold normalizedText
  rw [← flatten_endedLines (normalizeToLF (stripBom rawContent).2), restoreLineEndings_flatten,
    endedLines_normalizeToLF, List.map_map]
  calc ((rawLines (stripBom rawContent).2).map _).flatten
      = ((rawLines (stripBom rawContent).2).map RawLine.bytes).flatten := by
        congr 1
        apply List.map_congr_left
        intro line hline
        show restoreLineEndings (line.endedBy ['\n']) _ = line.bytes
        rw [restoreLineEndings_line (rawLines_plain _ line hline).text]
        exact (line.endedBy_eq_bytes (fileEnding rawContent)).mpr (h line hline)
    _ = (stripBom rawContent).2 := flatten_rawLines _

/-! ## The preview and the call -/

theorem computeEditsDiff_ok_iff {path : String} {texts : List Char × List Char} :
    computeEditsDiff nfkc path edits rawContent = .ok texts ↔
      applyEditsToNormalizedContent nfkc (normalizedText rawContent) edits path = .ok texts.2 ∧
        texts.1 = normalizedText rawContent := by
  show (applyEditsToNormalizedContent nfkc (normalizedText rawContent) edits path >>= fun newContent =>
    .ok (normalizedText rawContent, newContent)) = .ok texts ↔ _
  cases applyEditsToNormalizedContent nfkc (normalizedText rawContent) edits path with
  | error message =>
    constructor
    · intro h
      cases h
    · rintro ⟨h, -⟩
      cases h
  | ok newContent =>
    constructor
    · intro h
      cases h
      exact ⟨rfl, rfl⟩
    · rintro ⟨h, hbase⟩
      cases h
      rw [← hbase]
      rfl

theorem changesFile_iff {env : EditEnv} {path : String} :
    ChangesFile env path edits rawContent ↔
      ∃ new, replacedText env path edits (normalizedText rawContent) = .ok new ∧
        (stripBom rawContent).1 ++ restoreLineEndings new (detectLineEnding (stripBom rawContent).2) ≠
          rawContent := by
  constructor
  · rintro ⟨final, hfinal, hne⟩
    obtain ⟨new, hnew, rfl⟩ := finalContent_replacement hfinal
    exact ⟨new, hnew, hne⟩
  · rintro ⟨new, hnew, hne⟩
    refine ⟨_, ?_, hne⟩
    show replacedText env path edits (normalizedText rawContent) >>= _ = _
    rw [hnew]
    rfl

theorem previewAgrees_of_same {env : EditEnv} {path : String}
    (hcr : '\r' ∉ env.nfkc (normalizedText rawContent))
    (hsame : replacedText env path edits (normalizedText rawContent) =
      applyEditsToNormalizedContent env.nfkc (normalizedText rawContent) edits path) :
    PreviewAgrees env path edits rawContent := by
  refine ⟨⟨?_, ?_⟩, ?_⟩
  · rintro ⟨texts, htexts⟩
    have happlied := (computeEditsDiff_ok_iff.mp htexts).1
    refine changesFile_iff.mpr ⟨texts.2, hsame.trans happlied, changes_file ?_ ?_⟩
    · exact applyEdits_noCr hcr (noCr_normalizeToLF _) happlied
    · exact (applyEdits_ok_iff.mp happlied).2.2
  · intro h
    obtain ⟨new, hnew, -⟩ := changesFile_iff.mp h
    exact ⟨(normalizedText rawContent, new),
      computeEditsDiff_ok_iff.mpr ⟨hsame.symm.trans hnew, rfl⟩⟩
  · intro texts new htexts hnew
    have happlied := (computeEditsDiff_ok_iff.mp htexts).1
    rw [hsame, happlied] at hnew
    exact Except.ok.inj hnew

theorem replacedText_of_lines {env : EditEnv} {path : String}
    (h : hashlineLines env.sha256Hex content edits = some resolved) :
    replacedText env path edits content = .ok (withLines content resolved).flatten := by
  unfold replacedText
  rw [tryApplyWithHashline_eq, h]
  rfl

theorem replacedText_of_none {env : EditEnv} {path : String}
    (h : hashlineLines env.sha256Hex content edits = none) :
    replacedText env path edits content =
      applyEditsToNormalizedContent env.nfkc content edits path := by
  unfold replacedText
  rw [tryApplyWithHashline_eq, h]
  rfl

theorem hashlineLines_lt {sha256Hex : String → String}
    (h : hashlineLines sha256Hex content edits = some resolved) :
    ∀ r ∈ resolved, r.1 < (content.splitOn '\n').length := by
  intro r hr
  have hlt := resolveHashlineEdit_lt ((hashlineLines_apart h).1.resolves r hr)
  unfold splitLines at hlt
  rw [List.length_map, String.toList_ofList] at hlt
  exact hlt

theorem NothingChanges.agrees {env : EditEnv} {path : String}
    (hlines : hashlineLines env.sha256Hex (normalizedText rawContent) edits = some resolved)
    (h : NothingChanges rawContent resolved) : PreviewAgrees env path edits rawContent := by
  obtain ⟨hapart, hedits⟩ := hashlineLines_apart hlines
  have hlf : lfEdits edits = resolved.map fun r => (r.2.anchor.toList, r.2.anchor.toList) := by
    rw [lfEdits_eq hedits]
    apply List.map_congr_left
    intro r hr
    have hcr : '\r' ∉ r.2.anchor.toList := fun hmem =>
      noCr_normalizeToLF _ (mem_of_mem_splitOn (List.mem_of_getElem? (h.lines r hr)) hmem)
    rw [h.same r hr, normalizeToLF_of_noCr hcr]
  have hsame : ∀ edit ∈ lfEdits edits, edit.2 = edit.1 := by
    intro edit hedit
    rw [hlf] at hedit
    obtain ⟨r, -, rfl⟩ := List.mem_map.mp hedit
    rfl
  have hexact : allExact env.nfkc (normalizedText rawContent) edits = true := by
    rw [← Bool.not_eq_false, allExact_eq_false, List.any_eq_true]
    rintro ⟨edit, hedit, hfuzzy⟩
    rw [hlf] at hedit
    obtain ⟨r, hr, rfl⟩ := List.mem_map.mp hedit
    have hin := indexOf_isSome (infix_of_mem_splitOn (List.mem_of_getElem? (h.lines r hr)))
    obtain ⟨index, hindex⟩ := Option.isSome_iff_exists.mp hin
    unfold fuzzyFindText at hfuzzy
    simp [hindex] at hfuzzy
  have hrefused : ∀ texts, computeEditsDiff env.nfkc path edits rawContent ≠ .ok texts := by
    intro texts htexts
    exact same_refused hexact hsame (computeEditsDiff_ok_iff.mp htexts).1
  have hunchanged : ¬ ChangesFile env path edits rawContent := by
    intro hchanges
    obtain ⟨new, hnew, hne⟩ := changesFile_iff.mp hchanges
    rw [replacedText_of_lines hlines, Except.ok.injEq, withLines_same hapart.apart] at hnew
    · apply hne
      rw [← hnew, restore_normalizedText h.ending, stripBom_append]
    · intro r hr
      rw [h.same r hr]
      exact h.lines r hr
  refine ⟨⟨?_, fun hchanges => absurd hchanges hunchanged⟩, ?_⟩
  · rintro ⟨texts, htexts⟩
    exact absurd htexts (hrefused texts)
  · intro texts new htexts
    exact absurd htexts (hrefused texts)

theorem mem_withLines (hapart : (resolved.map Prod.fst).Nodup) (hr : r ∈ resolved)
    (hlt : r.1 < (content.splitOn '\n').length) (hc : c ∈ r.2.newText.toList) :
    c ∈ (withLines content resolved).flatten := by
  have htext : lineText resolved r.1 = fun _ => r.2.newText.toList := by
    funext line
    unfold lineText
    rw [(lookup_of_mem hapart).mp hr]
    rfl
  have hline : (withLines content resolved)[r.1]? =
      some (if r.1 + 1 < (content.splitOn '\n').length then r.2.newText.toList ++ ['\n']
        else r.2.newText.toList) := by
    unfold withLines
    rw [getElem?_withNewlines, List.getElem?_mapIdx, List.getElem?_eq_getElem hlt, htext,
      List.length_mapIdx]
    rfl
  refine List.mem_flatten.mpr ⟨_, List.mem_of_getElem? hline, ?_⟩
  split
  · exact List.mem_append_left _ hc
  · exact hc

theorem samePlaces_of_agrees {env : EditEnv} {path : String}
    (hcr : '\r' ∉ env.nfkc (normalizedText rawContent))
    (hlf : (env.nfkc (normalizedText rawContent)).count '\n' = (normalizedText rawContent).count '\n')
    (hlines : hashlineLines env.sha256Hex (normalizedText rawContent) edits = some resolved)
    (hplaces : FoundAtLines env.nfkc (matchBase env.nfkc (normalizedText rawContent) edits) resolved)
    (hchanges : ChangesFile env path edits rawContent) (h : PreviewAgrees env path edits rawContent) :
    SamePlaces env.nfkc (normalizedText rawContent) (matchBase env.nfkc (normalizedText rawContent) edits)
      resolved := by
  obtain ⟨hapart, hedits⟩ := hashlineLines_apart hlines
  obtain ⟨texts, htexts⟩ := h.1.mpr hchanges
  have hnew : texts.2 = (withLines (normalizedText rawContent) resolved).flatten :=
    h.2 texts _ htexts (replacedText_of_lines hlines)
  have happlied := (computeEditsDiff_ok_iff.mp htexts).1
  have hnoCr := applyEdits_noCr hcr (noCr_normalizeToLF _) happlied
  rw [hnew] at happlied hnoCr
  obtain ⟨-, ⟨rs, hmatched, hmade⟩, hne⟩ := applyEdits_ok_iff.mp happlied
  have hedit : ∀ r ∈ resolved,
      (normalizeToLF r.2.anchor.toList, normalizeToLF r.2.newText.toList) ∈ lfEdits edits := by
    intro r hr
    rw [lfEdits_eq hedits]
    exact List.mem_map_of_mem hr
  refine ⟨?_, ?_, hplaces, ?_, ?_, ?_⟩
  · cases hexact : allExact env.nfkc (normalizedText rawContent) edits with
    | true => rw [matchBase, if_pos hexact]
    | false =>
      -- the check of the line counts has let the edits through
      rw [hexact] at hmade
      obtain ⟨_, hrefuse, -⟩ := Except.bind_ok hmade
      have hcounts := bne_eq_false_iff_eq.mp (refuse_ok_iff.mp hrefuse)
      unfold getLineSpans at hcounts
      rw [length_lineSpans, length_splitLinesWithEndings, length_splitLinesWithEndings,
        count_matchBase hlf] at hcounts
      constructor
      · intro hnil
        by_contra hleft
        rw [if_neg hleft, if_pos hnil] at hcounts
        omega
      · intro hnil
        by_contra hleft
        rw [if_pos hnil, if_neg hleft] at hcounts
        omega
  · intro r hr
    obtain ⟨⟨found, hfound⟩, -⟩ := matchedEdits_ok hmatched _ (hedit r hr)
    exact Option.isSome_iff_exists.mpr ⟨found, hfound⟩
  · intro r hr
    obtain ⟨-, hseen⟩ := matchedEdits_ok hmatched _ (hedit r hr)
    rw [← one_lt_countOccurrences_iff] at hseen
    exact Nat.not_lt.mp hseen
  · intro r hr hmem
    exact hnoCr (mem_withLines hapart.apart hr (hashlineLines_lt hlines r hr) hmem)
  · by_contra hsame
    apply hne
    apply withLines_same hapart.apart
    intro r hr
    by_contra hline
    exact hsame ⟨r, hr, hline⟩

/-- Where the preview and the call agree. -/
theorem preview_agrees (env : EditEnv) (path : String) (edits : List Edit) (rawContent : List Char)
    (hcr : ∀ text, '\r' ∉ text → '\r' ∉ env.nfkc text)
    (hlf : ∀ text, (env.nfkc text).count '\n' = text.count '\n') :
    (MadeAlike env edits rawContent → PreviewAgrees env path edits rawContent) ∧
      ∀ resolved, hashlineLines env.sha256Hex (normalizedText rawContent) edits = some resolved →
        FoundAtLines env.nfkc (matchBase env.nfkc (normalizedText rawContent) edits) resolved →
        ChangesFile env path edits rawContent → PreviewAgrees env path edits rawContent →
          MadeAlike env edits rawContent := by
  have hcontent := hcr _ (noCr_normalizeToLF (stripBom rawContent).2)
  constructor
  · intro halike
    cases hlines : hashlineLines env.sha256Hex (normalizedText rawContent) edits with
    | none => exact previewAgrees_of_same hcontent (replacedText_of_none hlines)
    | some resolved =>
      obtain ⟨hapart, hedits⟩ := hashlineLines_apart hlines
      rcases halike resolved hlines with hplaces | hnothing
      · apply previewAgrees_of_same hcontent
        rw [replacedText_of_lines hlines]
        exact (samePlaces_preview path (hlf _) hplaces hapart.apart (hashlineLines_lt hlines) hedits).symm
      · exact hnothing.agrees hlines
  · intro resolved hlines hplaces hchanges hagrees other hother
    rw [hlines, Option.some.injEq] at hother
    rw [← hother]
    exact .inl (samePlaces_of_agrees hcontent (hlf _) hlines hplaces hchanges hagrees)

namespace PreviewExample

open EndLinesExample

def env : EditEnv := { sha256Hex := id, nfkc := id }

/-- An edit with a context that says nothing. -/
def anchoredEdit (old new : String) : Edit :=
  { oldText := old, newText := new, hash := none, before := some [], after := none }

theorem noCr (text : List Char) (h : '\r' ∉ text) : '\r' ∉ env.nfkc text := h

theorem newlines (text : List Char) : (env.nfkc text).count '\n' = text.count '\n' := rfl

end PreviewExample

open PreviewExample in
/-- A text that is one line and stands nowhere else. -/
theorem preview_agrees_example :
    PreviewAgrees env "main.rb" [anchoredEdit "b" "c"] "a\r\nb".toList := by
  apply (preview_agrees env "main.rb" [anchoredEdit "b" "c"] "a\r\nb".toList noCr newlines).1
  have hlines : hashlineLines env.sha256Hex "a\nb".toList [anchoredEdit "b" "c"] =
      some [(1, (anchoredEdit "b" "c").anchored)] := by
    decide +kernel
  have htext : normalizedText "a\r\nb".toList = "a\nb".toList := by decide
  have hbase : matchBase env.nfkc "a\nb".toList [anchoredEdit "b" "c"] = "a\nb".toList :=
    if_pos (by decide)
  have hfound : fuzzyFindText env.nfkc "a\nb".toList ['b'] =
      some { index := 2, matchLength := 1, usedFuzzyMatch := false } := by
    decide
  intro resolved hresolved
  rw [htext] at hresolved ⊢
  rw [hlines, Option.some.injEq] at hresolved
  have hone : ∀ {P : Nat × HashlineEdit → Prop}, P (1, (anchoredEdit "b" "c").anchored) →
      ∀ r ∈ resolved, P r := by
    intro P hP r hr
    rw [← hresolved, List.mem_singleton] at hr
    rw [hr]
    exact hP
  rw [hbase]
  refine .inl ⟨Iff.rfl, hone ?_, hone ?_, hone ?_, hone ?_,
    ⟨(1, (anchoredEdit "b" "c").anchored), ?_, ?_⟩⟩
  · exact Option.isSome_iff_exists.mpr ⟨_, hfound⟩
  · intro found h
    rw [Option.some.inj (h.symm.trans hfound)]
    refine ⟨?_, ?_, ?_⟩ <;> decide
  · decide
  · decide
  · rw [← hresolved]
    exact List.mem_cons_self
  · decide

open PreviewExample in
/-- A text that is a line, and a part of the next one: the call replaces the line, and the preview
shows an error. -/
theorem preview_rejects_applied :
    (EditCall.replacement "main.rb" [anchoredEdit "x" "y"]).finalContent env none "x\nax".toList =
        .ok "y\nax".toList ∧
      (∀ texts, computeEditsDiff env.nfkc "main.rb" [anchoredEdit "x" "y"] "x\nax".toList ≠ .ok texts) ∧
      ¬ PreviewAgrees env "main.rb" [anchoredEdit "x" "y"] "x\nax".toList := by
  have hlines : hashlineLines env.sha256Hex "x\nax".toList [anchoredEdit "x" "y"] =
      some [(0, (anchoredEdit "x" "y").anchored)] := by
    decide +kernel
  have hfinal : (EditCall.replacement "main.rb" [anchoredEdit "x" "y"]).finalContent env none "x\nax".toList =
      .ok "y\nax".toList := by
    show replacedText env "main.rb" [anchoredEdit "x" "y"] "x\nax".toList >>= _ = _
    rw [replacedText_of_lines hlines]
    decide +kernel
  have hrefused : ∀ texts,
      computeEditsDiff env.nfkc "main.rb" [anchoredEdit "x" "y"] "x\nax".toList ≠ .ok texts := by
    intro texts htexts
    obtain ⟨-, ⟨rs, hmatched, -⟩, -⟩ := applyEdits_ok_iff.mp (computeEditsDiff_ok_iff.mp htexts).1
    obtain ⟨-, hseen⟩ := matchedEdits_ok hmatched (['x'], ['y']) (by decide)
    rw [← one_lt_countOccurrences_iff] at hseen
    exact hseen (by decide)
  refine ⟨hfinal, hrefused, fun hagrees => ?_⟩
  obtain ⟨texts, htexts⟩ := hagrees.1.mpr ⟨_, hfinal, by decide⟩
  exact hrefused texts htexts

end PieLab

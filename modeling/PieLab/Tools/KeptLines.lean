import PieLab.Hashline.LineEdits
import PieLab.Tools.Edit
import PieLab.Tools.LineCounts
import PieLab.Tools.ReadLines

/-
  The lines an edit keeps

  A replacement edit is made in one of three ways: on the whole lines its anchors
  resolve to, at the places its old texts are found, or, where one of them is found
  by fuzzy matching, in the lines of the normalized content those places touch. In
  all three the new text reads line for line, and a line that the edit does not
  reach is there as it was.

  What is proved:
    1. `join_linesReplaced` — replaced lines, joined.
    2. `editedRange_lines` — replaced ranges, read line by line.
    3. `rebuildLines_keeps` — rebuilt groups, read line by line.
    4. `replacedText_keeps` — the lines that none of the ways reaches.

  Correspondence (TypeScript ↔ Lean): `tryApplyWithHashline` (edit.ts) and
  `applyEditsToNormalizedContent` (edit-diff.ts), as in PieLab.Tools.Edit and
  PieLab.Tools.EditDiff.
-/

namespace PieLab

open Lib

/-! ## Lines with their newlines -/

/-- The lines with the newlines between them. -/
def withNewlines : List (List Char) → List (List Char)
  | [] => []
  | [line] => [line]
  | line :: next :: rest => (line ++ ['\n']) :: withNewlines (next :: rest)

/-- The lines of a text with their newlines; the last has none. -/
def endedLines (content : List Char) : List (List Char) := withNewlines (content.splitOn '\n')

theorem length_withNewlines (lines : List (List Char)) :
    (withNewlines lines).length = lines.length := by
  induction lines with
  | nil => rfl
  | cons line rest ih =>
    cases rest with
    | nil => rfl
    | cons next rest =>
      show (withNewlines (next :: rest)).length + 1 = _
      rw [ih]
      rfl

theorem getElem?_withNewlines (lines : List (List Char)) (i : Nat) :
    (withNewlines lines)[i]? =
      lines[i]?.map fun line => if i + 1 < lines.length then line ++ ['\n'] else line := by
  induction lines generalizing i with
  | nil => rfl
  | cons line rest ih =>
    cases rest with
    | nil => cases i <;> simp [withNewlines]
    | cons next rest =>
      cases i with
      | zero => simp [withNewlines]
      | succ i =>
        show (withNewlines (next :: rest))[i]? = _
        rw [ih]
        simp

theorem withNewlines_cons (line : List Char) {rest : List (List Char)} (h : rest ≠ []) :
    withNewlines (line :: rest) = (line ++ ['\n']) :: withNewlines rest := by
  cases rest with
  | nil => exact absurd rfl h
  | cons next rest => rfl

theorem flatten_withNewlines (lines : List (List Char)) :
    (withNewlines lines).flatten = ['\n'].intercalate lines := by
  induction lines with
  | nil => rfl
  | cons line rest ih =>
    cases rest with
    | nil => simp [withNewlines]
    | cons next rest =>
      have hne : next :: rest ≠ [] := List.cons_ne_nil _ _
      rw [withNewlines_cons line hne, List.flatten_cons, ih, List.intercalate_cons_of_ne_nil hne]

theorem flatten_endedLines (content : List Char) : (endedLines content).flatten = content := by
  unfold endedLines
  rw [flatten_withNewlines]
  exact List.intercalate_splitOn '\n'

theorem endedLines_newline (rest : List Char) :
    endedLines ('\n' :: rest) = ['\n'] :: endedLines rest := by
  unfold endedLines
  rw [List.splitOn_cons_eq_if_modifyHead, if_pos (beq_self_eq_true '\n'),
    withNewlines_cons [] (List.splitOn_ne_nil _ _)]
  rfl

theorem endedLines_cons {c : Char} (hc : c ≠ '\n') (rest : List Char) :
    endedLines (c :: rest) = (endedLines rest).modifyHead (c :: ·) := by
  unfold endedLines
  rw [List.splitOn_cons_eq_if_modifyHead, if_neg (by simpa using hc)]
  cases hlines : rest.splitOn '\n' with
  | nil => exact absurd hlines (List.splitOn_ne_nil _ _)
  | cons line lines =>
    cases lines with
    | nil => rfl
    | cons next lines => rfl

theorem endedLines_eq (content : List Char) :
    endedLines content = splitLinesWithEndings content ∨
      endedLines content = splitLinesWithEndings content ++ [[]] := by
  induction content with
  | nil => exact .inr rfl
  | cons c rest ih =>
    rw [splitLinesWithEndings]
    by_cases hc : c = '\n'
    · rw [if_pos hc, hc, endedLines_newline]
      rcases ih with ih | ih
      · exact .inl (by rw [ih])
      · exact .inr (by rw [ih]; rfl)
    · rw [if_neg hc, endedLines_cons hc]
      cases hlines : splitLinesWithEndings rest with
      | nil =>
        have hnil : rest = [] := by
          rw [← flatten_splitLinesWithEndings rest, hlines]
          rfl
        rw [hnil]
        exact .inl rfl
      | cons line lines =>
        rw [hlines] at ih
        rcases ih with ih | ih
        · exact .inl (by rw [ih]; rfl)
        · exact .inr (by rw [ih]; rfl)

/-- Written lines that stand over the lines of a text, and are these where nothing is reached. -/
structure LinesKept (reached : Nat → Bool) (lines written : List (List Char)) : Prop where
  length : written.length = lines.length
  kept : ∀ i line, lines[i]? = some line → reached i = false → written[i]? = some line

/-! ## Whole lines -/

/-- The text of a line, or the text that was put in its place. -/
def lineText (resolved : List (Nat × HashlineEdit)) (i : Nat) (line : List Char) : List Char :=
  ((resolved.lookup i).map fun edit => edit.newText.toList).getD line

theorem lookup_lineReplacement (resolved : List (Nat × HashlineEdit)) (i : Nat) :
    (resolved.map lineReplacement).lookup i =
      (resolved.lookup i).map fun edit => splitLines edit.newText := by
  induction resolved with
  | nil => rfl
  | cons r rest ih =>
    show List.lookup i ((r.1, splitLines r.2.newText) :: rest.map lineReplacement) =
      (List.lookup i ((r.1, r.2) :: rest)).map _
    rw [List.lookup_cons, List.lookup_cons, ih]
    cases i == r.1 <;> rfl

theorem intercalate_append {a b : List (List Char)} (ha : a ≠ []) (hb : b ≠ []) :
    ['\n'].intercalate (a ++ b) = ['\n'].intercalate a ++ ['\n'] ++ ['\n'].intercalate b := by
  induction a with
  | nil => exact absurd rfl ha
  | cons line a ih =>
    cases a with
    | nil => rw [List.singleton_append, List.intercalate_cons_of_ne_nil hb, List.intercalate_singleton]
    | cons next a =>
      have hne : next :: a ≠ [] := List.cons_ne_nil _ _
      rw [List.cons_append, List.intercalate_cons_of_ne_nil (List.append_ne_nil_of_left_ne_nil hne _),
        ih hne, List.intercalate_cons_of_ne_nil hne]
      simp only [List.append_assoc]

theorem intercalate_flatten {blocks : List (List (List Char))} (h : ∀ block ∈ blocks, block ≠ []) :
    ['\n'].intercalate blocks.flatten = ['\n'].intercalate (blocks.map ['\n'].intercalate) := by
  induction blocks with
  | nil => rfl
  | cons block rest ih =>
    obtain ⟨hblock, hrest⟩ := List.forall_mem_cons.mp h
    cases rest with
    | nil => simp
    | cons next rest =>
      have hne : (next :: rest).flatten ≠ [] := by
        rw [List.flatten_cons]
        exact List.append_ne_nil_of_left_ne_nil (hrest next List.mem_cons_self) _
      have hmap : (next :: rest).map ['\n'].intercalate ≠ [] := List.cons_ne_nil _ _
      rw [List.flatten_cons, intercalate_append hblock hne, ih hrest, @List.map_cons _ _ _ block,
        List.intercalate_cons_of_ne_nil hmap]

/-- The lines that stand for a line. -/
def lineBlock (resolved : List (Nat × HashlineEdit)) (place : List Char × Nat) : List (List Char) :=
  ((resolved.lookup place.2).map fun edit => edit.newText.toList.splitOn '\n').getD [place.1]

theorem lineBlock_ne_nil (resolved : List (Nat × HashlineEdit)) (place : List Char × Nat) :
    lineBlock resolved place ≠ [] := by
  unfold lineBlock
  cases resolved.lookup place.2 with
  | none => exact List.cons_ne_nil _ _
  | some edit => exact List.splitOn_ne_nil _ _

theorem intercalate_lineBlock (resolved : List (Nat × HashlineEdit)) (place : List Char × Nat) :
    ['\n'].intercalate (lineBlock resolved place) = lineText resolved place.2 place.1 := by
  unfold lineBlock lineText
  cases resolved.lookup place.2 with
  | none => exact List.intercalate_singleton
  | some edit => exact List.intercalate_splitOn '\n'

theorem toList_linesReplaced (text : String) (resolved : List (Nat × HashlineEdit)) :
    (linesReplaced (splitLines text) resolved).map String.toList =
      ((text.toList.splitOn '\n').zipIdx.map (lineBlock resolved)).flatten := by
  unfold linesReplaced substituted substitutedFrom splitLines
  rw [List.zipIdx_map, List.flatMap_map, List.map_flatMap, List.flatMap_def]
  congr 1
  apply List.map_congr_left
  intro place _
  simp only [Prod.map, id, lookup_lineReplacement, lineBlock]
  cases resolved.lookup place.2 with
  | none => simp
  | some edit => exact map_toList_splitLines edit.newText

/-- Replaced lines, joined. -/
theorem join_linesReplaced (text : String) (resolved : List (Nat × HashlineEdit)) :
    (join "\n" (linesReplaced (splitLines text) resolved)).toList =
      ['\n'].intercalate ((text.toList.splitOn '\n').mapIdx (lineText resolved)) := by
  have hblocks : ∀ block ∈ (text.toList.splitOn '\n').zipIdx.map (lineBlock resolved), block ≠ [] := by
    intro block hblock
    obtain ⟨place, -, rfl⟩ := List.mem_map.mp hblock
    exact lineBlock_ne_nil resolved place
  unfold join
  calc (String.intercalate "\n" (linesReplaced (splitLines text) resolved)).toList
      = ['\n'].intercalate ((text.toList.splitOn '\n').zipIdx.map (lineBlock resolved)).flatten := by
        rw [String.toList_intercalate, toList_linesReplaced]
        rfl
    _ = ['\n'].intercalate (((text.toList.splitOn '\n').zipIdx.map (lineBlock resolved)).map
          ['\n'].intercalate) := intercalate_flatten hblocks
    _ = ['\n'].intercalate ((text.toList.splitOn '\n').mapIdx (lineText resolved)) := by
        rw [List.mapIdx_eq_zipIdx_map, List.map_map]
        congr 1
        apply List.map_congr_left
        intro place _
        exact intercalate_lineBlock resolved place

/-! ## Replaced ranges -/

/-- A replacement takes a character of a line, or its text goes in front of one. -/
def TextReplacement.reaches (r : TextReplacement) (start stop : Nat) : Bool :=
  r.matchIndex < stop && (start ≤ r.matchIndex || start < r.matchIndex + r.matchLength)

theorem TextReplacement.reaches_iff (r : TextReplacement) {start stop : Nat} :
    r.reaches start stop = true ↔
      r.matchIndex < stop ∧ (start ≤ r.matchIndex ∨ start < r.matchIndex + r.matchLength) := by
  simp [TextReplacement.reaches]

/-- A replacement reaches the line of the base. -/
def isReached (base : List Char) (rs : List TextReplacement) (i : Nat) : Bool :=
  rs.any fun r => r.reaches (lineStart (splitLinesWithEndings base) i)
    (lineStart (splitLinesWithEndings base) (i + 1))

/-- Replaced ranges, read line by line. -/
theorem editedRange_lines (base : List Char) (edits : List (RangeEdit Char)) (k : Nat) :
    (List.range k).flatMap (fun i => editedRange base edits (lineStart (splitLinesWithEndings base) i)
        (lineStart (splitLinesWithEndings base) (i + 1))) =
      editedRange base edits 0 (lineStart (splitLinesWithEndings base) k) := by
  induction k with
  | zero =>
    rw [lineStart_zero]
    rfl
  | succ k ih =>
    rw [List.range_succ, List.flatMap_append, ih, List.flatMap_singleton,
      editedRange_append base edits (Nat.zero_le _) (lineStart_le_succ _ k)]

variable {base new content : List Char} {i startLine endLine : Nat} {rs : List TextReplacement}
variable {r : TextReplacement} {groups : List ReplacementGroup} {nfkc : List Char → List Char}
variable {path : String} {edits : List Edit}

theorem slice_lineStart (hi : i < (splitLinesWithEndings base).length) :
    slice base (lineStart (splitLinesWithEndings base) i) (lineStart (splitLinesWithEndings base) (i + 1)) =
      (splitLinesWithEndings base)[i] := by
  have hlength : lineStart (splitLinesWithEndings base) (i + 1) =
      lineStart (splitLinesWithEndings base) i + (splitLinesWithEndings base)[i].length := by
    unfold lineStart
    rw [List.take_succ_eq_append_getElem hi, List.flatten_append, List.length_append]
    simp
  have hsplit : base = ((splitLinesWithEndings base).take i).flatten ++
      ((splitLinesWithEndings base)[i] ++ ((splitLinesWithEndings base).drop (i + 1)).flatten) := by
    rw [← List.flatten_cons, ← List.drop_eq_getElem_cons hi, ← List.flatten_append,
      List.take_append_drop,
      flatten_splitLinesWithEndings]
  generalize splitLinesWithEndings base = lines at hi hlength hsplit
  have hstart : lineStart lines i = (lines.take i).flatten.length := rfl
  unfold slice
  rw [hlength, hsplit, hstart, List.take_length_add_append, List.drop_left, List.take_left]

theorem editedRange_unreached (hinside : InsideBase base rs)
    (hi : i < (splitLinesWithEndings base).length) (h : isReached base rs i = false) :
    editedRange base (rs.map TextReplacement.edit) (lineStart (splitLinesWithEndings base) i)
      (lineStart (splitLinesWithEndings base) (i + 1)) = (splitLinesWithEndings base)[i] := by
  have hend : lineStart (splitLinesWithEndings base) (i + 1) ≤ base.length := by
    have hmono := lineStart_mono (splitLinesWithEndings base) (Nat.succ_le_of_lt hi)
    rw [lineStart_length, flatten_splitLinesWithEndings] at hmono
    exact hmono
  rw [← slice_lineStart hi]
  apply editedRange_free (noneEmpty_edits hinside) (lineStart_le_succ _ i) hend
  intro e he p hstart hstop
  obtain ⟨r, hr, rfl⟩ := List.mem_map.mp he
  have hfar := List.any_eq_false.mp h r hr
  rw [TextReplacement.reaches_iff] at hfar
  rw [← Bool.not_eq_true, RangeEdit.covers_iff]
  show ¬ (r.matchIndex ≤ p ∧ p < r.matchIndex + r.matchLength)
  omega

theorem applyReplacements_lines (hinside : InsideBase base rs)
    (horder : InOrder (rs.map TextReplacement.edit)) :
    applyReplacements base rs 0 = (List.range (splitLinesWithEndings base).length).flatMap fun i =>
      editedRange base (rs.map TextReplacement.edit) (lineStart (splitLinesWithEndings base) i)
        (lineStart (splitLinesWithEndings base) (i + 1)) := by
  have hall : slice base 0 base.length = base := by
    rw [slice_length_right, List.drop_zero]
  have hbounds : ∀ e ∈ rs.map TextReplacement.edit, 0 ≤ e.start ∧ e.stop ≤ base.length := by
    intro e he
    obtain ⟨r, hr, rfl⟩ := List.mem_map.mp he
    exact ⟨Nat.zero_le _, (hinside r hr).2⟩
  rw [applyReplacements_eq, editedRange_lines, lineStart_length, flatten_splitLinesWithEndings]
  nth_rewrite 1 [← hall]
  exact applied_slice (noneEmpty_edits hinside) horder (Nat.zero_le _) (Nat.le_refl _) hbounds

theorem applyReplacements_keeps (hinside : InsideBase base rs)
    (horder : InOrder (rs.map TextReplacement.edit)) :
    ∃ written, LinesKept (isReached base rs) (splitLinesWithEndings base) written ∧
      applyReplacements base rs 0 = written.flatten := by
  refine ⟨(List.range (splitLinesWithEndings base).length).map fun i =>
    editedRange base (rs.map TextReplacement.edit) (lineStart (splitLinesWithEndings base) i)
      (lineStart (splitLinesWithEndings base) (i + 1)), ⟨by simp, ?_⟩, ?_⟩
  · intro i line hline hfree
    obtain ⟨hi, rfl⟩ := List.getElem?_eq_some_iff.mp hline
    rw [List.getElem?_map, List.getElem?_range hi, Option.map_some,
      editedRange_unreached hinside hi hfree]
  · rw [applyReplacements_lines hinside horder, List.flatMap_def]

/-! ## Rebuilt groups -/

theorem getReplacementLineRange_hasLines
    (h : getReplacementLineRange (getLineSpans base) r = .ok (startLine, endLine)) :
    HasLines (splitLinesWithEndings base) r startLine endLine := by
  generalize hlines : splitLinesWithEndings base = lines
  have hspans : getLineSpans base = lineSpans 0 lines := by rw [getLineSpans, hlines]
  have hcount : (lineSpans 0 lines).length = lines.length := length_lineSpans lines 0
  have hspan : ∀ i (hi : i < (lineSpans 0 lines).length), (lineSpans 0 lines)[i] =
      ⟨lineStart lines i, lineStart lines (i + 1)⟩ := by
    intro i hi
    have hget := getElem?_lineSpans lines 0 i (hcount ▸ hi)
    rw [Nat.zero_add, Nat.zero_add] at hget
    exact (List.getElem_eq_iff hi).mpr hget
  rw [getReplacementLineRange, hspans] at h
  split at h
  next => cases h
  next first hfirst =>
    obtain ⟨hlt, hin, -⟩ := List.findIdx?_eq_some_iff_getElem.mp hfirst
    rw [hspan, Bool.and_eq_true, decide_eq_true_eq, decide_eq_true_eq] at hin
    split at h
    next => cases h
    next more hmore =>
      obtain ⟨hmlt, hend, hbefore⟩ := List.findIdx?_eq_some_iff_getElem.mp hmore
      rw [List.length_drop] at hmlt
      rw [List.getElem_drop, hspan, decide_eq_true_eq] at hend
      simp only [Except.ok.injEq, Prod.mk.injEq] at h
      obtain ⟨rfl, rfl⟩ := h
      refine ⟨by omega, by omega, hin.1, hin.2, hend, ?_⟩
      -- the search went past the lines in between
      intro i hi hstop
      have hline := hbefore (i - 1 - first) (by omega)
      simp only [List.getElem_drop, hspan, decide_eq_true_eq] at hline
      rw [show first + (i - 1 - first) + 1 = i by omega] at hline
      omega

theorem HasLines.reached {lines : List (List Char)} (h : HasLines lines r startLine endLine)
    (hstart : startLine ≤ i) (hstop : i < endLine) :
    r.reaches (lineStart lines i) (lineStart lines (i + 1)) = true := by
  rw [TextReplacement.reaches_iff]
  have hmono := lineStart_mono lines (by omega : startLine + 1 ≤ i + 1)
  have hlt := h.start_lt
  refine ⟨by omega, ?_⟩
  by_cases hi : startLine = i
  · rw [← hi]
    exact .inl h.start
  · exact .inr (h.reaches i (by omega) hstop)

/-- Groups of lines that are reached, one behind the other. -/
structure ReachedGroups (count : Nat) (reached : Nat → Bool) (groups : List ReplacementGroup) :
    Prop where
  nonempty : ∀ group ∈ groups, group.startLine < group.endLine
  bound : ∀ group ∈ groups, group.endLine ≤ count
  all : ∀ group ∈ groups, ∀ i, group.startLine ≤ i → i < group.endLine → reached i = true
  apart : groups.Pairwise fun a b => a.endLine ≤ b.startLine

theorem forall_mem_concat {α : Type} {P : α → Prop} {l : List α} {a : α} (hl : ∀ x ∈ l, P x)
    (ha : P a) :
    ∀ x ∈ l ++ [a], P x := by
  intro x hx
  rcases List.mem_append.mp hx with hold | hnew
  · exact hl x hold
  · rw [List.mem_singleton.mp hnew]
    exact ha

theorem ReachedGroups.concat {count : Nat} {reached : Nat → Bool}
    (hgroups : ReachedGroups count reached groups) {group : ReplacementGroup}
    (hnonempty : group.startLine < group.endLine) (hbound : group.endLine ≤ count)
    (hall : ∀ i, group.startLine ≤ i → i < group.endLine → reached i = true)
    (hbehind : ∀ g ∈ groups, g.endLine ≤ group.startLine) :
    ReachedGroups count reached (groups ++ [group]) where
  nonempty := forall_mem_concat hgroups.nonempty hnonempty
  bound := forall_mem_concat hgroups.bound hbound
  all := forall_mem_concat hgroups.all hall
  apart := by
    apply List.pairwise_append.mpr
    refine ⟨hgroups.apart, List.pairwise_singleton _ _, ?_⟩
    intro a ha b hb
    rw [List.mem_singleton.mp hb]
    exact hbehind a ha

theorem ReachedGroups.next {count : Nat} {reached : Nat → Bool}
    (hgroups : ReachedGroups count reached groups) (hnonempty : startLine < endLine)
    (hbound : endLine ≤ count) (hall : ∀ i, startLine ≤ i → i < endLine → reached i = true)
    (hbehind : ∀ group ∈ groups, group.startLine ≤ startLine) :
    ReachedGroups count reached (nextGroups groups startLine endLine r) ∧
      ∀ group ∈ nextGroups groups startLine endLine r, group.startLine ≤ startLine := by
  unfold nextGroups
  obtain hnil | ⟨front, current, hsplit⟩ := groups.eq_nil_or_concat
  · rw [hnil] at hgroups ⊢
    refine ⟨hgroups.concat hnonempty hbound hall fun g hg => absurd hg List.not_mem_nil, ?_⟩
    intro group hgroup
    rw [List.mem_singleton.mp hgroup]
  · rw [List.concat_eq_append] at hsplit
    rw [hsplit] at hgroups hbehind ⊢
    have hcurrent : current ∈ front ++ [current] :=
      List.mem_append_right _ (List.mem_singleton_self _)
    obtain ⟨hfront, -, hlast⟩ := List.pairwise_append.mp hgroups.apart
    have hold : ReachedGroups count reached front :=
      { nonempty := fun g hg => hgroups.nonempty g (List.mem_append_left _ hg)
        bound := fun g hg => hgroups.bound g (List.mem_append_left _ hg)
        all := fun g hg => hgroups.all g (List.mem_append_left _ hg)
        apart := hfront }
    rw [List.getLast?_concat]
    show ReachedGroups count reached (if startLine < current.endLine then _ else _) ∧
      ∀ group ∈ (if startLine < current.endLine then _ else _), _
    by_cases hshared : startLine < current.endLine
    · -- the group is widened to the lines of the replacement
      rw [if_pos hshared, List.dropLast_concat]
      constructor
      · apply hold.concat
        · exact Nat.lt_of_lt_of_le (hgroups.nonempty current hcurrent) (Nat.le_max_left _ _)
        · exact Nat.max_le.mpr ⟨hgroups.bound current hcurrent, hbound⟩
        · intro i hi hlt
          have hlt : i < max current.endLine endLine := hlt
          by_cases hin : i < current.endLine
          · exact hgroups.all current hcurrent i hi hin
          · exact hall i (by omega) (by omega)
        · exact fun g hg => hlast g hg current (List.mem_singleton_self _)
      · exact forall_mem_concat (fun g hg => hbehind g (List.mem_append_left _ hg))
          (hbehind current hcurrent)
    · rw [if_neg hshared]
      constructor
      · apply hgroups.concat hnonempty hbound hall
        intro g hg
        show g.endLine ≤ startLine
        have hle : g.endLine ≤ current.endLine := by
          rcases List.mem_append.mp hg with hin | hnew
          · exact Nat.le_trans (hlast g hin current (List.mem_singleton_self _))
              (Nat.le_of_lt (hgroups.nonempty current hcurrent))
          · rw [List.mem_singleton.mp hnew]
        omega
      · exact forall_mem_concat hbehind (Nat.le_refl startLine)

/-- The rebuilt lines are those of the original outside the groups. -/
theorem rebuildLines_keeps {reached : Nat → Bool} (originalLines : List (List Char))
    (base : List Char) (baseLines : List LineSpan) {k : Nat}
    (hgroups : ReachedGroups originalLines.length reached groups)
    (hk : ∀ group ∈ groups, k ≤ group.startLine) (hle : k ≤ originalLines.length) :
    ∃ written : List (List Char), k + written.length = originalLines.length ∧
      rebuildLines originalLines base baseLines k groups = written.flatten ∧
      ∀ i line, originalLines[k + i]? = some line → reached (k + i) = false → written[i]? = some line := by
  induction groups generalizing k with
  | nil =>
    refine ⟨originalLines.drop k, ?_, rfl, ?_⟩
    · rw [List.length_drop]
      omega
    · intro i line hline _
      rw [List.getElem?_drop]
      exact hline
  | cons group groups ih =>
    have hin : group ∈ group :: groups := List.mem_cons_self
    have hstart := hk group hin
    have hnonempty := hgroups.nonempty group hin
    have hbound := hgroups.bound group hin
    obtain ⟨hfirst, hapart⟩ := List.pairwise_cons.mp hgroups.apart
    have hrest : ReachedGroups originalLines.length reached groups :=
      { nonempty := fun g hg => hgroups.nonempty g (List.mem_cons_of_mem _ hg)
        bound := fun g hg => hgroups.bound g (List.mem_cons_of_mem _ hg)
        all := fun g hg => hgroups.all g (List.mem_cons_of_mem _ hg)
        apart := hapart }
    obtain ⟨tail, htail, hflatten, hkept⟩ := ih hrest hfirst hbound
    rw [rebuildLines]
    generalize applyReplacements _ group.replacements _ = text
    -- the text of the group stands over its first line, and nothing over the others
    let gap := slice originalLines k group.startLine
    let made := text :: List.replicate (group.endLine - group.startLine - 1) []
    have hgap : gap.length = group.startLine - k := slice_length (by omega)
    have hmade : made.length = group.endLine - group.startLine := by
      show (List.replicate _ _).length + 1 = _
      rw [List.length_replicate]
      omega
    refine ⟨gap ++ (made ++ tail), ?_, ?_, ?_⟩
    · rw [List.length_append, List.length_append, hgap, hmade]
      omega
    · have htext : made.flatten = text := by simp [made]
      rw [hflatten, List.flatten_append, List.flatten_append, htext, List.append_assoc]
    · intro i line hline hfree
      by_cases hbefore : k + i < group.startLine
      · rw [List.getElem?_append_left (by omega)]
        show ((originalLines.take group.startLine).drop k)[i]? = some line
        rw [List.getElem?_drop, List.getElem?_take_of_lt hbefore]
        exact hline
      · have hbehind : group.endLine ≤ k + i := by
          by_contra hlt
          have hreached := hgroups.all group hin (k + i) (by omega) (by omega)
          rw [hfree] at hreached
          cases hreached
        have hindex : group.endLine + (i - (group.endLine - k)) = k + i := by omega
        rw [List.getElem?_append_right (by omega), List.getElem?_append_right (by omega), hgap,
          hmade,
          show i - (group.startLine - k) - (group.endLine - group.startLine) = i - (group.endLine - k) by
            omega]
        apply hkept
        · rw [hindex]
          exact hline
        · rw [hindex]
          exact hfree

theorem groupReplacements_reached {all rest : List TextReplacement} {result : List ReplacementGroup}
    (h : groupReplacements (getLineSpans base) rest groups = .ok result)
    (hgroups : ReachedGroups (splitLinesWithEndings base).length (isReached base all) groups)
    (hall : ∀ r ∈ rest, r ∈ all) (hsorted : rest.Pairwise fun a b => a.matchIndex ≤ b.matchIndex)
    (hbehind : ∀ group ∈ groups, ∀ r ∈ rest,
      lineStart (splitLinesWithEndings base) group.startLine ≤ r.matchIndex) :
    ReachedGroups (splitLinesWithEndings base).length (isReached base all) result := by
  induction rest generalizing groups with
  | nil =>
    cases h
    exact hgroups
  | cons r rest ih =>
    obtain ⟨⟨startLine, endLine⟩, hrange, h⟩ := Except.bind_ok h
    have hlines := getReplacementLineRange_hasLines hrange
    obtain ⟨hr, hrest⟩ := List.forall_mem_cons.mp hall
    obtain ⟨hle, hsorted⟩ := List.pairwise_cons.mp hsorted
    have hstarts : ∀ group ∈ groups, group.startLine ≤ startLine := by
      intro group hgroup
      have hstart := hbehind group hgroup r List.mem_cons_self
      have hlt := hlines.start_lt
      by_contra hgt
      have hmono :=
        lineStart_mono (splitLinesWithEndings base) (by omega : startLine + 1 ≤ group.startLine)
      omega
    have hreached : ∀ i, startLine ≤ i → i < endLine → isReached base all i = true := by
      intro i hi hlt
      exact List.any_eq_true.mpr ⟨r, hr, hlines.reached hi hlt⟩
    obtain ⟨hnext, hnextStarts⟩ :=
      hgroups.next (r := r) hlines.nonempty hlines.bound hreached hstarts
    apply ih h hnext hrest hsorted
    intro group hgroup r' hr'
    calc lineStart (splitLinesWithEndings base) group.startLine
        ≤ lineStart (splitLinesWithEndings base) startLine :=
          lineStart_mono _ (hnextStarts group hgroup)
      _ ≤ r.matchIndex := hlines.start
      _ ≤ r'.matchIndex := hle r' hr'

theorem isReached_perm {rs' : List TextReplacement} (h : rs.Perm rs') :
    isReached base rs = isReached base rs' := by
  funext i
  unfold isReached
  rw [Bool.eq_iff_iff, List.any_eq_true, List.any_eq_true]
  simp only [h.mem_iff]

theorem applyReplacementsPreserving_keeps {original : List Char}
    (h : applyReplacementsPreservingUnchangedLines original base rs = .ok new) :
    ∃ written, LinesKept (isReached base rs) (splitLinesWithEndings original) written ∧
      new = written.flatten := by
  have hperm := List.mergeSort_perm rs fun a b => decide (a.matchIndex ≤ b.matchIndex)
  have hsorted := pairwise_matchIndex rs
  unfold applyReplacementsPreservingUnchangedLines at h
  generalize hsort : (rs.mergeSort fun a b => decide (a.matchIndex ≤ b.matchIndex)) = sorted
    at h hperm hsorted
  obtain ⟨_, hrefuse, h⟩ := Except.bind_ok h
  obtain ⟨groups, hgroups, h⟩ := Except.bind_ok h
  have hcount : (splitLinesWithEndings original).length = (splitLinesWithEndings base).length := by
    have hsame := refuse_ok_iff.mp hrefuse
    rw [bne_eq_false_iff_eq] at hsame
    exact hsame.trans (length_lineSpans _ 0)
  have hnone : ReachedGroups (splitLinesWithEndings base).length (isReached base sorted) [] :=
    ⟨by simp, by simp, by simp, List.Pairwise.nil⟩
  have hreached := groupReplacements_reached hgroups hnone (fun r hr => hr) hsorted (by simp)
  rw [← hcount, isReached_perm hperm] at hreached
  obtain ⟨written, hlength, hrebuilt, hkept⟩ :=
    rebuildLines_keeps (splitLinesWithEndings original) base
    (getLineSpans base) (k := 0) hreached (fun group _ => Nat.zero_le _) (Nat.zero_le _)
  refine ⟨written, ⟨by omega, ?_⟩, ?_⟩
  · intro i line hline hfree
    apply hkept
    · rw [Nat.zero_add]
      exact hline
    · rw [Nat.zero_add]
      exact hfree
  · rw [← hrebuilt]
    exact (Except.ok.inj h).symm

/-! ## The matches -/

theorem inOrder_of_firstOverlap (h : firstOverlap rs = none) :
    InOrder (rs.map TextReplacement.edit) := by
  induction rs with
  | nil => exact List.Pairwise.nil
  | cons a rest ih =>
    cases rest with
    | nil => exact List.pairwise_singleton _ _
    | cons b rest =>
      rw [firstOverlap] at h
      split at h
      next => cases h
      next hapart =>
        have hrest := ih h
        have hab : a.edit.stop ≤ b.edit.start := by
          show a.matchIndex + a.matchLength ≤ b.matchIndex
          omega
        refine List.pairwise_cons.mpr ⟨?_, hrest⟩
        intro e he
        rcases List.mem_cons.mp he with rfl | he
        · exact hab
        · have hbe := (List.pairwise_cons.mp hrest).1 e he
          have hb : b.edit.start ≤ b.edit.stop := Nat.le_add_right _ _
          omega

theorem matchedEdits_sorted {edits : List (List Char × List Char)} {sorted : List TextReplacement}
    (h : matchedEdits nfkc base path edits = .ok sorted) :
    (∀ r ∈ sorted, ∃ edit ∈ edits, ∃ found, fuzzyFindText nfkc base edit.1 = some found ∧
      r.matchIndex = found.index ∧ r.matchLength = found.matchLength ∧ r.newText = edit.2) ∧
      InOrder (sorted.map TextReplacement.edit) := by
  obtain ⟨matched, hmatched, h⟩ := Except.bind_ok h
  obtain ⟨_, hoverlap, h⟩ := Except.bind_ok h
  have hsorted : (matched.mergeSort fun a b => a.matchIndex ≤ b.matchIndex) = sorted :=
    Except.ok.inj h
  rw [hsorted] at hoverlap
  constructor
  · have hall := Except.mapM_keeps (P := fun e : (List Char × List Char) × Nat => e.1 ∈ edits)
      (Q := fun r : TextReplacement => ∃ edit ∈ edits, ∃ found, fuzzyFindText nfkc base edit.1 = some found ∧
        r.matchIndex = found.index ∧ r.matchLength = found.matchLength ∧ r.newText = edit.2)
      (fun e r he hr => ?_) (fun e he => ?_) hmatched
    · intro r hr
      rw [← hsorted, (List.mergeSort_perm _ _).mem_iff] at hr
      exact hall r hr
    · obtain ⟨edit, editIndex⟩ := e
      have hr : matchEdit nfkc base path edits.length editIndex edit.1 edit.2 = .ok r := hr
      unfold matchEdit at hr
      split at hr
      next => cases hr
      next found hfound =>
        dsimp only at hr
        split at hr
        next => cases hr
        next =>
          cases hr
          exact ⟨edit, he, found, hfound, rfl, rfl, rfl⟩
    · exact List.mem_of_getElem? (List.mem_zipIdx_iff_getElem?.mp he)
  · apply inOrder_of_firstOverlap
    unfold refuseOverlap at hoverlap
    split at hoverlap
    next => cases hoverlap
    next hnone => exact hnone

/-- The text the edits are matched in. -/
def matchBase (nfkc : List Char → List Char) (content : List Char) (edits : List Edit) :
    List Char :=
  if allExact nfkc content edits then content else normalizeForFuzzyMatch nfkc content

theorem fuzzyFindText_exact {oldText : List Char} {found : FuzzyMatchResult}
    (h : fuzzyFindText nfkc content oldText = some found) (hexact : found.usedFuzzyMatch = false) :
    found.matchLength = oldText.length ∧ found.index + oldText.length ≤ content.length := by
  have hindex := indexOf_of_exact h hexact
  unfold fuzzyFindText at h
  rw [hindex] at h
  refine ⟨by rw [← Option.some.inj h], ?_⟩
  have hmem := mem_occurrences.mp (indexOf_mem hindex)
  have hlength := hmem.2.length_le
  rw [List.length_drop] at hlength
  have hlt := hmem.1
  omega

theorem usedFuzzyMatch_of_allExact (hexact : allExact nfkc content edits = true)
    {edit : List Char × List Char} (hedit : edit ∈ lfEdits edits) {found : FuzzyMatchResult}
    (hfound : fuzzyFindText nfkc content edit.1 = some found) : found.usedFuzzyMatch = false := by
  obtain ⟨e, he, rfl⟩ := List.mem_map.mp hedit
  have h := List.all_eq_true.mp hexact e he
  rw [hfound] at h
  simpa using h

theorem refuseEmpty_ok_iff {edits : List (List Char × List Char)} :
    refuseEmpty path edits = .ok () ↔ ∀ edit ∈ edits, edit.1 ≠ [] := by
  have hnone : refuseEmpty path edits = .ok () ↔
      edits.findIdx? (fun edit => edit.1.isEmpty) = none := by
    unfold refuseEmpty
    cases edits.findIdx? fun edit => edit.1.isEmpty with
    | none => simp
    | some editIndex => simp
  rw [hnone, List.findIdx?_eq_none_iff]
  simp

theorem matchedEdits_inside {sorted : List TextReplacement}
    (hexact : allExact nfkc content edits = true)
    (hnonempty : refuseEmpty path (lfEdits edits) = .ok ())
    (h : matchedEdits nfkc content path (lfEdits edits) = .ok sorted) :
    InsideBase content sorted := by
  intro r hr
  obtain ⟨edit, hedit, found, hfound, hindex, hlength, -⟩ := (matchedEdits_sorted h).1 r hr
  obtain ⟨hold, hbound⟩ :=
    fuzzyFindText_exact hfound (usedFuzzyMatch_of_allExact hexact hedit hfound)
  have hpos := List.length_pos_iff.mpr (refuseEmpty_ok_iff.mp hnonempty edit hedit)
  omega

/-- What the matches make of the content. -/
def appliedMatches (exact : Bool) (content base : List Char) (rs : List TextReplacement) :
    Except String (List Char) :=
  if exact then .ok (applyReplacements content rs 0)
  else applyReplacementsPreservingUnchangedLines content base rs

theorem replacedContent_eq (nfkc : List Char → List Char) (content : List Char) (path : String)
    (edits : List Edit) :
    replacedContent nfkc content path (lfEdits edits) =
      matchedEdits nfkc (matchBase nfkc content edits) path (lfEdits edits) >>=
        appliedMatches (allExact nfkc content edits) content (matchBase nfkc content edits) := by
  unfold replacedContent matchBase
  cases hexact : allExact nfkc content edits with
  | true =>
    have hnone : ¬ ((lfEdits edits).any fun edit =>
        (fuzzyFindText nfkc content edit.1).any FuzzyMatchResult.usedFuzzyMatch) = true := by
      intro hany
      rw [← allExact_eq_false, hexact] at hany
      cases hany
    rw [if_neg hnone]
    rfl
  | false =>
    rw [if_pos (allExact_eq_false.mp hexact)]
    rfl

theorem applyEdits_ok_iff :
    applyEditsToNormalizedContent nfkc content edits path = .ok new ↔
      refuseEmpty path (lfEdits edits) = .ok () ∧
        (∃ rs, matchedEdits nfkc (matchBase nfkc content edits) path (lfEdits edits) = .ok rs ∧
          appliedMatches (allExact nfkc content edits) content (matchBase nfkc content edits) rs = .ok new) ∧
        new ≠ content := by
  unfold applyEditsToNormalizedContent
  constructor
  · intro h
    obtain ⟨_, hempty, h⟩ := Except.bind_ok h
    obtain ⟨newContent, hreplaced, h⟩ := Except.bind_ok h
    obtain ⟨_, hchanged, h⟩ := Except.bind_ok h
    cases h
    have hmatched := (replacedContent_eq nfkc content path edits).symm.trans hreplaced
    refine ⟨hempty, Except.bind_ok hmatched, ?_⟩
    rw [refuse_ok_iff] at hchanged
    simpa using hchanged
  · rintro ⟨hempty, ⟨rs, hmatched, hreplaced⟩, hchanged⟩
    have hcontent : replacedContent nfkc content path (lfEdits edits) = .ok new := by
      rw [replacedContent_eq, hmatched]
      exact hreplaced
    have hrefuse : refuse (new == content) (noChangeError path edits.length) = .ok () := by
      rw [refuse_ok_iff]
      simpa using hchanged
    show refuseEmpty path (lfEdits edits) >>= (fun _ =>
      replacedContent nfkc content path (lfEdits edits) >>= fun newContent =>
        refuse (newContent == content) (noChangeError path edits.length) >>= fun _ => .ok newContent) = _
    rw [hempty, hcontent]
    show (refuse (new == content) (noChangeError path edits.length) >>= fun _ => .ok new) = _
    rw [hrefuse]
    rfl

theorem applyEdits_keeps (h : applyEditsToNormalizedContent nfkc content edits path = .ok new) :
    ∃ rs, matchedEdits nfkc (matchBase nfkc content edits) path (lfEdits edits) = .ok rs ∧
      ∃ written, LinesKept (isReached (matchBase nfkc content edits) rs) (splitLinesWithEndings content) written ∧
        new = written.flatten := by
  obtain ⟨hempty, ⟨rs, hmatched, hreplaced⟩, -⟩ := applyEdits_ok_iff.mp h
  refine ⟨rs, hmatched, ?_⟩
  cases hexact : allExact nfkc content edits with
  | true =>
    have hbase : matchBase nfkc content edits = content := by
      unfold matchBase
      rw [if_pos hexact]
    rw [hexact] at hreplaced
    rw [hbase] at hmatched ⊢
    obtain ⟨written, hkeeps, hwritten⟩ :=
      applyReplacements_keeps (matchedEdits_inside hexact hempty hmatched) (matchedEdits_sorted hmatched).2
    exact ⟨written, hkeeps, (Except.ok.inj hreplaced).symm.trans hwritten⟩
  | false =>
    rw [hexact] at hreplaced
    exact applyReplacementsPreserving_keeps hreplaced

/-! ## The edits -/

/-- An edit by its anchor. -/
def Edit.anchored (edit : Edit) : HashlineEdit :=
  { anchor := edit.oldText, hash := edit.hash, before := edit.before, after := edit.after
    newText := edit.newText }

/-- The lines the anchors resolve to, where the edit is made on whole lines. -/
def hashlineLines (sha256Hex : String → String) (content : List Char) (edits : List Edit) :
    Option (List (Nat × HashlineEdit)) :=
  if !edits.any fun e => truthyText e.hash || e.before.isSome || e.after.isSome then none
  else if edits.any fun edit => edit.oldText.toList.contains '\n' then none
  else (resolveHashlineEdits sha256Hex (splitLines (String.ofList content)) (edits.map Edit.anchored) []).toOption

/-- The text with the texts of the edits in the place of their lines. -/
def withLines (content : List Char) (resolved : List (Nat × HashlineEdit)) : List (List Char) :=
  withNewlines ((content.splitOn '\n').mapIdx (lineText resolved))

theorem hashlineLines_apart {sha256Hex : String → String} {resolved : List (Nat × HashlineEdit)}
    (h : hashlineLines sha256Hex content edits = some resolved) :
    ResolveApart sha256Hex (splitLines (String.ofList content)) resolved ∧
      resolved.map Prod.snd = edits.map Edit.anchored := by
  unfold hashlineLines at h
  split at h
  next => cases h
  next =>
    split at h
    next => cases h
    next =>
      cases hresolve : resolveHashlineEdits sha256Hex (splitLines (String.ofList content))
          (edits.map Edit.anchored) [] with
      | error message =>
        rw [hresolve] at h
        cases h
      | ok found =>
        rw [hresolve] at h
        cases h
        exact (resolveHashlineEdits_eq _ _ _ _).mp hresolve

theorem tryApplyWithHashline_eq (sha256Hex : String → String) (content : List Char)
    (edits : List Edit) :
    tryApplyWithHashline sha256Hex content edits =
      (hashlineLines sha256Hex content edits).map fun resolved => (withLines content resolved).flatten := by
  have hmade : ∀ resolved, hashlineLines sha256Hex content edits = some resolved →
      (join "\n" (applyResolvedEdits (splitLines (String.ofList content)) resolved)).toList =
        (withLines content resolved).flatten := by
    intro resolved h
    rw [applyResolvedEdits_eq (hashlineLines_apart h).1, join_linesReplaced, String.toList_ofList]
    exact (flatten_withNewlines _).symm
  unfold tryApplyWithHashline hashlineLines at *
  split
  next => rfl
  next hinfo =>
    rw [if_neg hinfo] at hmade
    split
    next => rfl
    next hnewline =>
      rw [if_neg hnewline] at hmade
      show ((resolveHashlineEdits sha256Hex (splitLines (String.ofList content))
        (edits.map Edit.anchored) []).bind fun resolved => .ok (join "\n" (applyResolvedEdits
          (splitLines (String.ofList content)) resolved))).toOption.map String.toList = _
      cases hresolve : resolveHashlineEdits sha256Hex (splitLines (String.ofList content))
          (edits.map Edit.anchored) [] with
      | error message => rfl
      | ok resolved =>
        rw [hresolve] at hmade
        exact congrArg some (hmade resolved rfl)

theorem withLines_keeps (content : List Char) (resolved : List (Nat × HashlineEdit)) :
    LinesKept (fun i => (resolved.lookup i).isSome) (endedLines content) (withLines content resolved) where
  length := by
    unfold withLines endedLines
    rw [length_withNewlines, length_withNewlines, List.length_mapIdx]
  kept := by
    intro i line hline hfree
    unfold withLines
    unfold endedLines at hline
    rw [getElem?_withNewlines] at hline ⊢
    rw [List.length_mapIdx, List.getElem?_mapIdx]
    have hnone : resolved.lookup i = none := by simpa using hfree
    have hsame : lineText resolved i = id := by
      funext text
      unfold lineText
      rw [hnone]
      rfl
    rw [hsame, Option.map_id]
    exact hline

/-- The edits reach the line. -/
def reachedLine (env : EditEnv) (path : String) (edits : List Edit) (content : List Char)
    (i : Nat) : Bool :=
  match hashlineLines env.sha256Hex content edits with
  | some resolved => (resolved.lookup i).isSome
  | none =>
    match matchedEdits env.nfkc (matchBase env.nfkc content edits) path (lfEdits edits) with
    | .ok rs => isReached (matchBase env.nfkc content edits) rs i
    | .error _ => false

theorem LinesKept.ended {reached : Nat → Bool} {written : List (List Char)}
    (h : LinesKept reached (splitLinesWithEndings content) written) :
    ∃ written', LinesKept reached (endedLines content) written' ∧ written'.flatten = written.flatten := by
  rcases endedLines_eq content with heq | heq
  · rw [heq]
    exact ⟨written, h, rfl⟩
  · -- nothing is written for the empty text behind the last newline
    rw [heq]
    refine ⟨written ++ [[]], ⟨by simp [h.length], ?_⟩, by simp⟩
    intro i line hline hfree
    by_cases hi : i < (splitLinesWithEndings content).length
    · rw [List.getElem?_append_left (by rw [h.length]; exact hi)]
      rw [List.getElem?_append_left hi] at hline
      exact h.kept i line hline hfree
    · rw [List.getElem?_append_right (by rw [h.length]; omega), h.length]
      rw [List.getElem?_append_right (by omega)] at hline
      exact hline

/-- Line for line, and the lines no edit reaches as they were. -/
theorem replacedText_keeps {env : EditEnv} (h : replacedText env path edits content = .ok new) :
    ∃ written, LinesKept (reachedLine env path edits content) (endedLines content) written ∧
      new = written.flatten := by
  unfold replacedText at h
  rw [tryApplyWithHashline_eq] at h
  cases hlines : hashlineLines env.sha256Hex content edits with
  | some resolved =>
    rw [hlines] at h
    have hreached : reachedLine env path edits content = fun i => (resolved.lookup i).isSome := by
      funext i
      unfold reachedLine
      rw [hlines]
    rw [hreached]
    exact ⟨_, withLines_keeps content resolved, (Except.ok.inj h).symm⟩
  | none =>
    rw [hlines] at h
    obtain ⟨rs, hmatched, written, hkeeps, hnew⟩ := applyEdits_keeps h
    have hreached : reachedLine env path edits content =
        isReached (matchBase env.nfkc content edits) rs := by
      funext i
      unfold reachedLine
      rw [hlines, hmatched]
    obtain ⟨written', hkeeps', hflatten⟩ := hkeeps.ended
    rw [hreached]
    exact ⟨written', hkeeps', by rw [hnew, hflatten]⟩

end PieLab

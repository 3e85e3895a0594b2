import PieLab.Lib.Lines
import PieLab.Lib.Utf8

/-
  Truncating tool output

  The head of a text: whole lines from the beginning as long as both limits hold.
  The tail of a text: whole lines from the end as long as both limits hold, or the
  end of the last line where that alone is too long.

  What is proved:
    1. `splitLinesForCounting_eq` — the lines of a text.
    2. `collectTail_all`, `collectTail_stop` — the loop takes all lines that fit,
       and what lies before the line it stops at does not matter.
    3. `truncateTail_longLine`, `truncateTail_append` — the tail of a text from
       the tail of its end.

  Correspondence (TypeScript ↔ Lean), packages/coding-agent/src/core/tools/truncate.ts:
    `splitLinesForCounting`, `truncateHead`, `truncateTail`, `truncateStringToBytesFromEnd`
                                                          ↔ the same names
    the loops of `truncateHead` and `truncateTail`        ↔ `collectHead`, `collectTail`
-/

namespace PieLab

open Lib

def DEFAULT_MAX_LINES : Nat := 2000

def DEFAULT_MAX_BYTES : Nat := 50 * 1024

inductive TruncatedBy where
  | lines
  | bytes
  deriving DecidableEq

structure TruncationResult where
  content : List Char
  truncated : Bool
  truncatedBy : Option TruncatedBy
  totalLines : Nat
  totalBytes : Nat
  outputLines : Nat
  outputBytes : Nat
  lastLinePartial : Bool
  firstLineExceedsLimit : Bool
  maxLines : Nat
  maxBytes : Nat

def splitLinesForCounting (content : List Char) : List (List Char) :=
  if content.isEmpty then []
  else
    let lines := content.splitOn '\n'
    if content.getLast? = some '\n' then lines.dropLast else lines

/-- The last `maxBytes` bytes, from the first whole character on. -/
def truncateStringToBytesFromEnd (str : List Char) (maxBytes : Nat) : List Char :=
  let buf := encode str
  if buf.length ≤ maxBytes then str
  else (decode (buf.drop (boundaryFrom buf (buf.length - maxBytes)))).1

/-- `lines.join("\n")` -/
def joinLines (lines : List (List Char)) : List Char := List.intercalate ['\n'] lines

/-- What the loop of `truncateHead` has collected. -/
structure HeadLines where
  lines : List (List Char) := []
  bytes : Nat := 0
  truncatedBy : TruncatedBy := .lines

/-- The loop over the lines, from the first one on: each of them so far has been taken. -/
def collectHead (maxLines maxBytes : Nat) : List (List Char) → HeadLines → HeadLines
  | [], kept => kept
  | line :: rest, kept =>
    if kept.lines.length < maxLines then
      let lineBytes := byteLength line + if kept.lines.length > 0 then 1 else 0
      if kept.bytes + lineBytes > maxBytes then { kept with truncatedBy := .bytes }
      else
        collectHead maxLines maxBytes rest
          { kept with lines := kept.lines ++ [line], bytes := kept.bytes + lineBytes }
    else kept

/-- A text that is truncated has a first line. -/
def truncateHead (content : List Char) (maxLines maxBytes : Nat) : TruncationResult :=
  let totalBytes := byteLength content
  let lines := splitLinesForCounting content
  let totalLines := lines.length
  if totalLines ≤ maxLines ∧ totalBytes ≤ maxBytes then
    { content, truncated := false, truncatedBy := none, totalLines, totalBytes
      outputLines := totalLines, outputBytes := totalBytes, lastLinePartial := false
      firstLineExceedsLimit := false, maxLines, maxBytes }
  else if byteLength (lines.headD []) > maxBytes then
    { content := [], truncated := true, truncatedBy := some .bytes, totalLines, totalBytes
      outputLines := 0, outputBytes := 0, lastLinePartial := false
      firstLineExceedsLimit := true, maxLines, maxBytes }
  else
    let kept := collectHead maxLines maxBytes lines {}
    let truncatedBy :=
      if kept.lines.length ≥ maxLines ∧ kept.bytes ≤ maxBytes then .lines else kept.truncatedBy
    let outputContent := joinLines kept.lines
    { content := outputContent, truncated := true, truncatedBy := some truncatedBy, totalLines
      totalBytes, outputLines := kept.lines.length, outputBytes := byteLength outputContent
      lastLinePartial := false, firstLineExceedsLimit := false, maxLines, maxBytes }

/-- What the loop of `truncateTail` has collected. -/
structure TailLines where
  lines : List (List Char) := []
  bytes : Nat := 0
  truncatedBy : TruncatedBy := .lines
  lastLinePartial : Bool := false

/-- The loop over the lines, from the last one on. -/
def collectTail (maxLines maxBytes : Nat) : List (List Char) → TailLines → TailLines
  | [], kept => kept
  | line :: rest, kept =>
    if kept.lines.length < maxLines then
      let lineBytes := byteLength line + if kept.lines.length > 0 then 1 else 0
      if kept.bytes + lineBytes > maxBytes then
        if kept.lines.length = 0 then
          let truncatedLine := truncateStringToBytesFromEnd line maxBytes
          { lines := [truncatedLine], bytes := byteLength truncatedLine, truncatedBy := .bytes,
            lastLinePartial := true }
        else { kept with truncatedBy := .bytes }
      else
        collectTail maxLines maxBytes rest
          { kept with lines := line :: kept.lines, bytes := kept.bytes + lineBytes }
    else kept

def truncateTail (content : List Char) (maxLines maxBytes : Nat) : TruncationResult :=
  let totalBytes := byteLength content
  let lines := splitLinesForCounting content
  let totalLines := lines.length
  if totalLines ≤ maxLines ∧ totalBytes ≤ maxBytes then
    { content, truncated := false, truncatedBy := none, totalLines, totalBytes
      outputLines := totalLines, outputBytes := totalBytes, lastLinePartial := false
      firstLineExceedsLimit := false, maxLines, maxBytes }
  else
    let kept := collectTail maxLines maxBytes lines.reverse {}
    let truncatedBy :=
      if kept.lines.length ≥ maxLines ∧ kept.bytes ≤ maxBytes then .lines else kept.truncatedBy
    let outputContent := joinLines kept.lines
    { content := outputContent, truncated := true, truncatedBy := some truncatedBy, totalLines
      totalBytes, outputLines := kept.lines.length, outputBytes := byteLength outputContent
      lastLinePartial := kept.lastLinePartial, firstLineExceedsLimit := false, maxLines, maxBytes }

/-- A text that is not truncated. -/
def Fits (maxLines maxBytes : Nat) (content : List Char) : Prop :=
  (splitLinesForCounting content).length ≤ maxLines ∧ byteLength content ≤ maxBytes

instance (maxLines maxBytes : Nat) (content : List Char) :
    Decidable (Fits maxLines maxBytes content) :=
  inferInstanceAs (Decidable (_ ∧ _))

/-! ## Lines -/

theorem splitLinesForCounting_eq (content : List Char) :
    splitLinesForCounting content =
      linesBefore content ++ if lastLine content = [] then [] else [lastLine content] := by
  unfold splitLinesForCounting
  cases content with
  | nil => rfl
  | cons c cs =>
    have hlast := lastLine_eq_nil (c :: cs)
    simp only [List.cons_ne_nil, false_or] at hlast
    rw [List.isEmpty_cons, if_neg Bool.false_ne_true]
    by_cases h : (c :: cs).getLast? = some '\n'
    · simp only [h, if_true]
      rw [if_pos (hlast.mpr h), List.append_nil]
      rfl
    · simp only [h, if_false]
      rw [if_neg fun h' => h (hlast.mp h'), splitOn_lastLine]

variable {content front text : List Char} {maxLines maxBytes : Nat}

theorem splitLinesForCounting_eq_nil : splitLinesForCounting content = [] ↔ content = [] := by
  constructor
  · intro h
    rw [splitLinesForCounting_eq] at h
    obtain ⟨hbefore, hlast⟩ := List.append_eq_nil_iff.mp h
    have hnil : lastLine content = [] := by
      by_contra hne
      rw [if_neg hne] at hlast
      cases hlast
    rw [text_eq_lines content, hbefore, hnil]
    rfl
  · rintro rfl
    rfl

theorem splitLinesForCounting_append (h : lastLine front = []) (text : List Char) :
    splitLinesForCounting (front ++ text) =
      splitLinesForCounting front ++ splitLinesForCounting text := by
  rw [splitLinesForCounting_eq, splitLinesForCounting_eq, splitLinesForCounting_eq,
    linesBefore_append, lastLine_append, h]
  simp

theorem splitLinesForCounting_single (h : '\n' ∉ text) (hne : text ≠ []) :
    splitLinesForCounting text = [text] := by
  rw [splitLinesForCounting_eq, linesBefore_single h, lastLine_single h, if_neg hne]
  rfl

/-! ## The loop -/

/-- The bytes of lines that are added in front of `n` others. -/
def addedBytes : Nat → List (List Char) → Nat
  | _, [] => 0
  | n, line :: rest => byteLength line + (if n > 0 then 1 else 0) + addedBytes (n + 1) rest

/-- Lines that fit are all taken. -/
theorem collectTail_all {maxLines maxBytes : Nat} {l : List (List Char)} {kept : TailLines}
    (hlines : kept.lines.length + l.length ≤ maxLines)
    (hbytes : kept.bytes + addedBytes kept.lines.length l ≤ maxBytes) (r : List (List Char)) :
    collectTail maxLines maxBytes (l ++ r) kept =
      collectTail maxLines maxBytes r
        { kept with
          lines := l.reverse ++ kept.lines
          bytes := kept.bytes + addedBytes kept.lines.length l } := by
  induction l generalizing kept with
  | nil => rfl
  | cons line rest ih =>
    rw [List.length_cons] at hlines
    unfold addedBytes at hbytes
    rw [List.cons_append, collectTail, if_pos (by omega)]
    simp only
    rw [if_neg (by omega), ih (by simp only [List.length_cons]; omega)
      (by simp only [List.length_cons]; omega)]
    simp [addedBytes, Nat.add_assoc]

/-- Where not all lines fit, the loop stops at one of them. -/
theorem collectTail_stop {l : List (List Char)} {kept : TailLines}
    (hlines : kept.lines.length ≤ maxLines) (hbytes : kept.bytes ≤ maxBytes)
    (h : ¬ (kept.lines.length + l.length ≤ maxLines ∧
      kept.bytes + addedBytes kept.lines.length l ≤ maxBytes)) (r : List (List Char)) :
    collectTail maxLines maxBytes (l ++ r) kept = collectTail maxLines maxBytes l kept := by
  induction l generalizing kept with
  | nil => exact absurd ⟨by simpa using hlines, by simpa [addedBytes] using hbytes⟩ h
  | cons line rest ih =>
    unfold addedBytes at h
    rw [List.length_cons] at h
    rw [List.cons_append, collectTail, collectTail]
    by_cases hcount : kept.lines.length < maxLines
    · rw [if_pos hcount, if_pos hcount]
      simp only
      by_cases hline : kept.bytes + (byteLength line + if kept.lines.length > 0 then 1 else 0) >
          maxBytes
      · rw [if_pos hline, if_pos hline]
      · rw [if_neg hline, if_neg hline]
        apply ih
        · simp only [List.length_cons]
          omega
        · simp only
          omega
        · simp only [List.length_cons]
          omega
    · rw [if_neg hcount, if_neg hcount]

theorem addedBytes_eq (n : Nat) (l : List (List Char)) :
    addedBytes n l = (l.map byteLength).sum + if n > 0 then l.length else l.length - 1 := by
  induction l generalizing n with
  | nil => cases n <;> rfl
  | cons line rest ih =>
    unfold addedBytes
    rw [ih, List.map_cons, List.sum_cons, List.length_cons]
    by_cases hn : n > 0
    · simp [hn]
      omega
    · simp [hn]
      omega

theorem joinLines_concat (l : List (List Char)) (line : List Char) :
    joinLines (l ++ [line]) = l.flatMap (fun line => line ++ ['\n']) ++ line := by
  induction l with
  | nil => simp [joinLines, List.intercalate]
  | cons head rest ih =>
    have hne : rest ++ [line] ≠ [] := by simp
    unfold joinLines at ih ⊢
    rw [List.cons_append, List.intercalate_cons_of_ne_nil hne, ih]
    simp

theorem joinLines_splitLinesForCounting (content : List Char) :
    content = joinLines (splitLinesForCounting content) ++
      if content.getLast? = some '\n' then ['\n'] else [] := by
  have hlast := lastLine_eq_nil content
  have hcontent := text_eq_lines content
  rw [splitLinesForCounting_eq]
  by_cases h : lastLine content = []
  · rw [if_pos h, List.append_nil]
    rw [h, List.append_nil] at hcontent
    rcases List.eq_nil_or_concat' (linesBefore content) with hlines | ⟨init, line, hlines⟩
    · rw [hlines] at hcontent
      rw [hlines, hcontent]
      rfl
    · rw [hlines, List.flatMap_append] at hcontent
      have hend : content.getLast? = some '\n' := by
        rcases hlast.mp h with hnil | hend
        · rw [hnil] at hcontent
          simp at hcontent
        · exact hend
      rw [hlines, if_pos hend, joinLines_concat]
      simpa using hcontent
  · rw [if_neg h, if_neg fun h' => h (hlast.mpr (.inr h')), joinLines_concat, List.append_nil]
    exact hcontent

theorem byteLength_joinLines (l : List (List Char)) :
    byteLength (joinLines l) = addedBytes 0 l.reverse := by
  rw [addedBytes_eq, List.map_reverse, List.sum_reverse, List.length_reverse]
  induction l with
  | nil => rfl
  | cons line rest ih =>
    cases rest with
    | nil => simp [joinLines]
    | cons next rest =>
      unfold joinLines at ih ⊢
      have hnewline : byteLength ['\n'] = 1 := rfl
      rw [List.intercalate_cons_of_ne_nil (by simp), byteLength_append, byteLength_append, ih,
        hnewline]
      simp
      omega

theorem byteLength_eq_addedBytes (content : List Char) :
    byteLength content = addedBytes 0 (splitLinesForCounting content).reverse +
      if content.getLast? = some '\n' then 1 else 0 := by
  have hcontent := congrArg byteLength (joinLines_splitLinesForCounting content)
  rw [byteLength_append, byteLength_joinLines] at hcontent
  rw [hcontent]
  split <;> rfl

/-! ## The content -/

theorem truncateStringToBytesFromEnd_eq (str : List Char) (maxBytes : Nat) :
    truncateStringToBytesFromEnd str maxBytes = dropBytes (byteLength str - maxBytes) str := by
  unfold truncateStringToBytesFromEnd
  simp only [length_encode]
  split
  · have hzero : byteLength str - maxBytes = 0 := by omega
    rw [hzero, dropBytes_zero]
  · rw [drop_boundary_encode, decode_encode]

theorem truncateTail_fits (h : Fits maxLines maxBytes content) :
    (truncateTail content maxLines maxBytes).content = content := by
  unfold Fits at h
  unfold truncateTail
  simp only
  rw [if_pos h]

theorem truncateTail_content (h : ¬ Fits maxLines maxBytes content) :
    (truncateTail content maxLines maxBytes).content =
      joinLines (collectTail maxLines maxBytes
        (splitLinesForCounting content).reverse {}).lines := by
  unfold Fits at h
  unfold truncateTail
  simp only
  rw [if_neg h]

/-- The end of a last line that is too long. -/
theorem truncateTail_longLine {line : List Char} {lines : List (List Char)} (hlines : 1 ≤ maxLines)
    (hcontent : splitLinesForCounting content = lines ++ [line])
    (hline : maxBytes < byteLength line) :
    (truncateTail content maxLines maxBytes).content =
      dropBytes (byteLength line - maxBytes) line := by
  have hnot : ¬ Fits maxLines maxBytes content := by
    intro h
    have hbytes := byteLength_eq_addedBytes content
    rw [hcontent, List.reverse_append, List.reverse_singleton, List.singleton_append] at hbytes
    unfold addedBytes at hbytes
    have hle := h.2
    omega
  rw [truncateTail_content hnot, hcontent, List.reverse_append, List.reverse_singleton,
    List.singleton_append, collectTail]
  simp only [List.length_nil]
  rw [if_pos (show 0 < maxLines from hlines), if_pos (by simpa using hline)]
  simp [joinLines, truncateStringToBytesFromEnd_eq]

theorem Fits.of_append (hfront : lastLine front = []) (h : Fits maxLines maxBytes (front ++ text)) :
    Fits maxLines maxBytes text := by
  obtain ⟨hlines, hbytes⟩ := h
  rw [splitLinesForCounting_append hfront, List.length_append] at hlines
  rw [byteLength_append] at hbytes
  exact ⟨by omega, by omega⟩

theorem collectTail_full {l : List (List Char)} {kept : TailLines} (hkept : kept.lines ≠ [])
    (hfull : ∀ line rest, l = line :: rest → maxBytes < kept.bytes + byteLength line + 1) :
    (collectTail maxLines maxBytes l kept).lines = kept.lines := by
  cases l with
  | nil => rfl
  | cons line rest =>
    have hpos : 0 < kept.lines.length := List.length_pos_of_ne_nil hkept
    have hlt := hfull line rest rfl
    rw [collectTail]
    simp only
    split
    · rw [if_pos (by omega), if_neg (by omega)]
    · rfl

/-- Where the lines of the end reach a limit, those in front do not count. -/
theorem truncateTail_append (hfront : lastLine front = []) (htext : ¬ Fits maxLines maxBytes text) :
    (truncateTail (front ++ text) maxLines maxBytes).content =
      (truncateTail text maxLines maxBytes).content := by
  have hnot : ¬ Fits maxLines maxBytes (front ++ text) := fun h => htext (h.of_append hfront)
  rw [truncateTail_content hnot, truncateTail_content htext, splitLinesForCounting_append hfront,
    List.reverse_append]
  congr 1
  by_cases hall : (splitLinesForCounting text).length ≤ maxLines ∧
      addedBytes 0 (splitLinesForCounting text).reverse ≤ maxBytes
  · -- the newline at the end is what makes the text too long
    have hbytes := byteLength_eq_addedBytes text
    have htake := @collectTail_all maxLines maxBytes (splitLinesForCounting text).reverse {}
      (by simpa using hall.1) (by simpa using hall.2)
    have hfull : maxBytes ≤ addedBytes 0 (splitLinesForCounting text).reverse := by
      by_contra hlt
      refine htext ⟨hall.1, ?_⟩
      rw [hbytes]
      split <;> omega
    have hne : splitLinesForCounting text ≠ [] := by
      intro hnil
      rw [splitLinesForCounting_eq_nil.mp hnil] at htext
      exact htext ⟨Nat.zero_le _, Nat.zero_le _⟩
    have htext' := htake []
    rw [List.append_nil] at htext'
    rw [htake, htext', collectTail_full _ _]
    · rfl
    · simpa using hne
    · intro line rest _
      simp only [Nat.zero_add, List.length_nil]
      omega
  · rw [collectTail_stop (Nat.zero_le _) (Nat.zero_le _)]
    simpa using hall

theorem truncateTail_keep {line : List Char} {lines : List (List Char)}
    (hfront : lastLine front = []) (hlines : splitLinesForCounting front = lines ++ [line])
    (hfits : Fits maxLines maxBytes text) (htext : text ≠ [])
    (hline : 2 * maxBytes < byteLength line + 1 + byteLength text) (hbytes : 1 ≤ maxBytes) :
    (truncateTail (front ++ text) maxLines maxBytes).content =
      joinLines (splitLinesForCounting text) := by
  have hne : splitLinesForCounting text ≠ [] := fun h => htext (splitLinesForCounting_eq_nil.mp h)
  have hsize := byteLength_eq_addedBytes text
  have hadded : addedBytes 0 (splitLinesForCounting text).reverse ≤ maxBytes := by
    have hle := hfits.2
    omega
  have hone : (if text.getLast? = some '\n' then 1 else 0) ≤ 1 := by split <;> omega
  have hnot : ¬ Fits maxLines maxBytes (front ++ text) := by
    intro h
    have hfrontBytes := byteLength_eq_addedBytes front
    rw [hlines, List.reverse_append, List.reverse_singleton, List.singleton_append] at hfrontBytes
    unfold addedBytes at hfrontBytes
    have hle := h.2
    rw [byteLength_append] at hle
    omega
  rw [truncateTail_content hnot, splitLinesForCounting_append hfront, hlines, List.reverse_append,
    List.reverse_append, List.reverse_singleton, List.singleton_append,
    collectTail_all (by simpa using hfits.1) (by simpa using hadded), collectTail_full]
  · simp
  · simpa using hne
  · intro l rest heq
    obtain ⟨rfl, rfl⟩ := List.cons.inj heq
    simp only [Nat.zero_add, List.length_nil]
    omega

end PieLab

import PieLab.Lib.LineCursor
import PieLab.Tui.EditorUndo
import PieLab.Tui.WordWrap
import Mathlib.Data.List.Rotate

/-
  Killing and yanking

  What is killed goes into a ring; kills one after another make one entry, a kill in
  front of the cursor at its start and a kill behind it at its end. Yank puts the last
  entry back, and yank-pop an older one in its place.

  What is proved:
    1. `perform_kills` — a kill takes away what stands next to the cursor.
    2. `runKills_killing` — kills one after another make one entry of the ring.
    3. `deleteYankedText_insertYankedText` — what was yanked last is taken away again.
    4. `kill_yank_restores` — a yank behind kills gives the text again, and yank-pops give
       it with an older entry.

  Correspondence (TypeScript ↔ Lean), packages/tui/src/components/editor.ts:
    the methods ↔ those of `Editor`
-/

open PieLab.Lib PieLab.Lib.Js

namespace PieLab.Tui

/-! ## Segments -/

/-- Segments in order, none of them empty. -/
structure Segmented (high : Nat) (segments : List SegmentData) : Prop where
  ordered : Ordered 0 high segments
  nonempty : ∀ seg ∈ segments, 0 < seg.segment.length

variable {text : Text} {segments : List SegmentData}

theorem Partition.segmented (h : Partition 0 text segments) :
    Segmented text.length segments where
  ordered := by simpa using h.ordered
  nonempty seg hseg := List.length_pos_iff.mpr (h.texts_ne_nil _ (List.mem_map_of_mem hseg))

theorem mergeMarkers_nonempty {markers : List MarkerSpan}
    (hmarkers : ∀ marker ∈ markers, marker.start < marker.stop ∧ marker.stop ≤ text.length)
    (hsegments : ∀ seg ∈ segments, 0 < seg.segment.length) :
    ∀ seg ∈ mergeMarkers text markers segments, 0 < seg.segment.length := by
  induction segments generalizing markers with
  | nil => intro seg hseg; cases hseg
  | cons first rest ih =>
    have hrest := fun (left : List MarkerSpan) hleft => @ih left hleft fun seg hseg =>
      hsegments seg (List.mem_cons_of_mem _ hseg)
    have hsub : ∀ marker ∈ markers.dropWhile fun marker => decide (marker.stop ≤ first.index),
        marker.start < marker.stop ∧ marker.stop ≤ text.length :=
      fun marker hmem => hmarkers marker (List.dropWhile_subset _ hmem)
    have hkept : ∀ left, (∀ marker ∈ left, marker.start < marker.stop ∧ marker.stop ≤ text.length) →
        ∀ seg ∈ first :: mergeMarkers text left rest, 0 < seg.segment.length := by
      intro left hleft seg hseg
      obtain rfl | hseg := List.mem_cons.mp hseg
      · exact hsegments seg List.mem_cons_self
      · exact hrest left hleft seg hseg
    unfold mergeMarkers
    dsimp only
    generalize markers.dropWhile (fun marker => decide (marker.stop ≤ first.index)) = left at hsub
    cases left with
    | nil => exact hkept [] hsub
    | cons marker more =>
      dsimp only
      split
      · split
        · intro seg hseg
          obtain rfl | hseg := List.mem_cons.mp hseg
          · have hbounds := hsub marker List.mem_cons_self
            rw [length_slice_natCast text hbounds.2]
            omega
          · exact hrest _ hsub seg hseg
        · exact hrest _ hsub
      · exact hkept _ hsub

theorem segmentWithMarkers_segmented (text : Text) (baseSegmenter : Segmenter)
    (validIds : List Nat) :
    Segmented text.length (segmentWithMarkers text baseSegmenter validIds) where
  ordered := segmentWithMarkers_ordered text baseSegmenter validIds
  nonempty := by
    have hbase := (baseSegmenter.partition text).segmented.nonempty
    unfold segmentWithMarkers
    dsimp only
    split
    · exact hbase
    · apply mergeMarkers_nonempty _ hbase
      intro marker hmem
      have hbounds := matchAll_bounds (List.mem_filter.mp hmem).1
      rwa [Nat.zero_add] at hbounds

/-- The cursor is in the text. -/
structure EditorState.CursorInside (s : EditorState) : Prop where
  line : 0 ≤ s.cursorLine ∧ s.cursorLine < s.lines.length
  col : 0 ≤ s.cursorCol ∧ s.cursorCol ≤ (itemAt s.lines s.cursorLine []).length

/-! ## Words -/

/-- No word begins or ends with punctuation. -/
def Segmenter.WordsBare (segmenter : Segmenter) : Prop :=
  ∀ text, ∀ seg ∈ segmenter.segment text, seg.isWordLike →
    seg.segment.head?.any isPunctuation = false ∧ seg.segment.getLast?.any isPunctuation = false

/-- How far a move by a word goes, over the segments that follow in its direction. -/
def stride (segments : List SegmentData) (inWord : SegmentData → Nat) : Int :=
  segmentsLength (segments.takeWhile isSpaceSegment) +
    match segments.dropWhile isSpaceSegment with
    | [] => 0
    | next :: rest =>
      if isPasteMarker next.segment then (next.segment.length : Int)
      else if next.isWordLike then (inWord next : Int)
      else segmentsLength ((next :: rest).takeWhile isSymbolSegment)

theorem segmentsLength_append (a b : List SegmentData) :
    segmentsLength (a ++ b) = segmentsLength a + segmentsLength b := by
  simp [segmentsLength]

theorem segmentsLength_nonneg (segments : List SegmentData) : 0 ≤ segmentsLength segments := by
  induction segments with
  | nil => exact le_refl _
  | cons seg rest ih =>
    have hcons := segmentsLength_append [seg] rest
    simp only [segmentsLength, List.map_cons, List.sum_cons] at ih hcons ⊢
    omega

theorem segmentsLength_reverse (segments : List SegmentData) :
    segmentsLength segments.reverse = segmentsLength segments := by
  simp [segmentsLength, List.sum_reverse]

theorem segmentsLength_takeWhile_le (p : SegmentData → Bool) (segments : List SegmentData) :
    segmentsLength (segments.takeWhile p) ≤ segmentsLength segments := by
  have happend := segmentsLength_append (segments.takeWhile p) (segments.dropWhile p)
  have hrest := segmentsLength_nonneg (segments.dropWhile p)
  rw [List.takeWhile_append_dropWhile] at happend
  omega

theorem Ordered.segmentsLength_le {low high : Nat} (h : Ordered low high segments) :
    low + segmentsLength segments ≤ high := by
  induction segments generalizing low with
  | nil =>
    have hle := h.le
    simp only [segmentsLength, List.map_nil, List.sum_nil]
    omega
  | cons seg rest ih =>
    have hrest := ih h.2
    have hlow := h.1
    have hcons : segmentsLength (seg :: rest) = seg.segment.length + segmentsLength rest := rfl
    omega

theorem stride_bounds {segments : List SegmentData} {inWord : SegmentData → Nat}
    (hne : segments ≠ [])
    (hnonempty : ∀ seg ∈ segments, 0 < seg.segment.length)
    (hword : ∀ seg ∈ segments, seg.isWordLike → 0 < inWord seg ∧ inWord seg ≤ seg.segment.length) :
    0 < stride segments inWord ∧ stride segments inWord ≤ segmentsLength segments := by
  have hparts : segmentsLength segments = segmentsLength (segments.takeWhile isSpaceSegment) +
      segmentsLength (segments.dropWhile isSpaceSegment) := by
    rw [← segmentsLength_append, List.takeWhile_append_dropWhile]
  have hspaces := segmentsLength_nonneg (segments.takeWhile isSpaceSegment)
  rw [stride]
  cases hrest : segments.dropWhile isSpaceSegment with
  | nil =>
    obtain ⟨first, more, rfl⟩ := List.exists_cons_of_ne_nil hne
    have hfirst := hnonempty first List.mem_cons_self
    have hcons : segmentsLength (first :: more) = first.segment.length + segmentsLength more := rfl
    have hmore := segmentsLength_nonneg more
    have hzero : segmentsLength [] = 0 := rfl
    rw [hrest, hzero] at hparts
    dsimp only
    omega
  | cons next rest =>
    have hnext : next ∈ segments := (List.dropWhile_sublist _).subset (hrest ▸ List.mem_cons_self)
    have hlength := hnonempty next hnext
    have hcons : segmentsLength (next :: rest) = next.segment.length + segmentsLength rest := rfl
    have hrestLength := segmentsLength_nonneg rest
    rw [hrest] at hparts
    dsimp only
    split
    · omega
    · rename_i hmarker
      split
      · rename_i hwordLike
        have hin := hword next hnext hwordLike
        omega
      · rename_i hsymbol
        have hle := segmentsLength_takeWhile_le isSymbolSegment (next :: rest)
        have hnotSpace : isSpaceSegment next = false := by
          have hhead := List.head_dropWhile_not isSpaceSegment (l := segments) (by rw [hrest]; exact List.cons_ne_nil _ _)
          simpa [hrest] using hhead
        have hisSymbol : isSymbolSegment next = true := by
          simp_all [isSpaceSegment, isSymbolSegment]
        have htake : segmentsLength ((next :: rest).takeWhile isSymbolSegment) =
            next.segment.length + segmentsLength (rest.takeWhile isSymbolSegment) := by
          rw [List.takeWhile_cons_of_pos hisSymbol]
          rfl
        have hmore := segmentsLength_nonneg (rest.takeWhile isSymbolSegment)
        omega

theorem findWordBackward_eq (segments : Text → List SegmentData) (text : Text) {cursor : Int}
    (hcursor : 0 < cursor) :
    findWordBackward segments text cursor = cursor - stride (segments (slice text 0 cursor)).reverse
      fun seg => (seg.segment.reverse.takeWhile (!isPunctuation ·)).length := by
  rw [findWordBackward, if_neg (not_le.mpr hcursor), stride]
  dsimp only
  cases hback : (segments (slice text 0 cursor)).reverse.dropWhile isSpaceSegment with
  | nil => simp
  | cons last rest =>
    dsimp only
    split
    · omega
    · split <;> omega

theorem findWordForward_eq (segments : Text → List SegmentData) (text : Text) {cursor : Int}
    (hcursor : cursor < text.length) :
    findWordForward segments text cursor = cursor + stride (segments (sliceFrom text cursor))
      fun seg => (seg.segment.takeWhile (!isPunctuation ·)).length := by
  rw [findWordForward, if_neg (not_le.mpr hcursor), stride]
  dsimp only
  cases hfront : (segments (sliceFrom text cursor)).dropWhile isSpaceSegment with
  | nil => simp
  | cons next rest =>
    dsimp only
    split
    · omega
    · split <;> omega

theorem mergeMarkers_isWordLike {markers : List MarkerSpan} :
    ∀ seg ∈ mergeMarkers text markers segments, seg.isWordLike → seg ∈ segments := by
  induction segments generalizing markers with
  | nil => intro seg hseg; cases hseg
  | cons first rest ih =>
    intro seg hseg hword
    have hkeep : ∀ {markers}, seg ∈ mergeMarkers text markers rest → seg ∈ first :: rest :=
      fun hmem => List.mem_cons_of_mem _ (ih seg hmem hword)
    rw [mergeMarkers] at hseg
    split at hseg
    · obtain rfl | hmem := List.mem_cons.mp hseg
      · exact List.mem_cons_self
      · exact hkeep hmem
    · split at hseg
      · split at hseg
        · obtain rfl | hmem := List.mem_cons.mp hseg
          · cases hword
          · exact hkeep hmem
        · exact hkeep hseg
      · obtain rfl | hmem := List.mem_cons.mp hseg
        · exact List.mem_cons_self
        · exact hkeep hmem

theorem segmentWithMarkers_isWordLike {segmenter : Segmenter} {ids : List Nat} :
    ∀ seg ∈ segmentWithMarkers text segmenter ids, seg.isWordLike → seg ∈ segmenter.segment text := by
  intro seg hseg hword
  rw [segmentWithMarkers] at hseg
  split at hseg
  · exact hseg
  · exact mergeMarkers_isWordLike seg hseg hword

theorem takeWhile_length_pos {p : UInt16 → Bool} (hne : text ≠ [])
    (hhead : text.head?.any p = false) : 0 < (text.takeWhile (!p ·)).length := by
  obtain ⟨c, rest, rfl⟩ := List.exists_cons_of_ne_nil hne
  have hc : p c = false := by simpa using hhead
  simp [hc]

section Words
variable {segmenter : Segmenter} (hwords : segmenter.WordsBare) (ids : List Nat)
include hwords

theorem findWordBackward_left {left : Text} (hne : left ≠ []) (right : Text) :
    ∃ front piece, left = front ++ piece ∧ piece ≠ [] ∧
      findWordBackward (fun text => segmentWithMarkers text segmenter ids) (left ++ right) left.length =
        front.length := by
  have hpos := List.length_pos_iff.mpr hne
  have hsegmented := segmentWithMarkers_segmented left segmenter ids
  obtain ⟨hlow, hhigh⟩ := @stride_bounds (segmentWithMarkers left segmenter ids).reverse
    (fun seg => (seg.segment.reverse.takeWhile (!isPunctuation ·)).length)
    (by simpa using segmentWithMarkers_ne_nil hne segmenter ids)
    (fun seg hseg => hsegmented.nonempty seg (List.mem_reverse.mp hseg)) (by
      intro seg hseg hword
      have hmem := List.mem_reverse.mp hseg
      have hbare := (hwords left seg (segmentWithMarkers_isWordLike seg hmem hword) hword).2
      refine ⟨takeWhile_length_pos ?_ (by rwa [List.head?_reverse]), ?_⟩
      · simpa using List.length_pos_iff.mp (hsegmented.nonempty seg hmem)
      · simpa using (List.takeWhile_sublist (!isPunctuation ·) (l := seg.segment.reverse)).length_le)
  have htotal := hsegmented.ordered.segmentsLength_le
  rw [segmentsLength_reverse] at hhigh
  rw [findWordBackward_eq _ _ (Int.natCast_pos.mpr hpos), slice_before]
  generalize stride (segmentWithMarkers left segmenter ids).reverse _ = n at *
  refine ⟨left.take (left.length - n.toNat), left.drop (left.length - n.toNat),
    (List.take_append_drop _ _).symm, ?_, ?_⟩
  · rw [← List.length_pos_iff, List.length_drop]
    omega
  · rw [List.length_take]
    omega

theorem findWordForward_right (left : Text) {right : Text} (hne : right ≠ []) :
    ∃ piece back, right = piece ++ back ∧ piece ≠ [] ∧
      findWordForward (fun text => segmentWithMarkers text segmenter ids) (left ++ right) left.length =
        (left ++ piece).length := by
  have hpos := List.length_pos_iff.mpr hne
  have hsegmented := segmentWithMarkers_segmented right segmenter ids
  obtain ⟨hlow, hhigh⟩ := @stride_bounds (segmentWithMarkers right segmenter ids)
    (fun seg => (seg.segment.takeWhile (!isPunctuation ·)).length)
    (segmentWithMarkers_ne_nil hne segmenter ids) hsegmented.nonempty (by
      intro seg hseg hword
      have hbare := (hwords right seg (segmentWithMarkers_isWordLike seg hseg hword) hword).1
      exact ⟨takeWhile_length_pos (List.length_pos_iff.mp (hsegmented.nonempty seg hseg)) hbare,
        (List.takeWhile_sublist _).length_le⟩)
  have htotal := hsegmented.ordered.segmentsLength_le
  have hcursor : (left.length : Int) < (left ++ right).length := by
    rw [List.length_append]
    omega
  rw [findWordForward_eq _ _ hcursor, sliceFrom_after]
  generalize stride (segmentWithMarkers right segmenter ids) _ = n at *
  refine ⟨right.take n.toNat, right.drop n.toNat, (List.take_append_drop _ _).symm, ?_, ?_⟩
  · rw [← List.length_pos_iff, List.length_take]
    omega
  · rw [List.length_append, List.length_take]
    omega

end Words

/-! ## The state as a page -/

/-- The state of a page. -/
def stateOf (p : Page UInt16) : EditorState where
  lines := p.lines
  cursorLine := p.above.length
  cursorCol := p.left.length

/-- The page of a state. -/
def pageOf (s : EditorState) : Page UInt16 where
  above := s.lines.take s.cursorLine.toNat
  left := (itemAt s.lines s.cursorLine []).take s.cursorCol.toNat
  right := (itemAt s.lines s.cursorLine []).drop s.cursorCol.toNat
  below := s.lines.drop (s.cursorLine.toNat + 1)

theorem EditorState.CursorInside.stateOf_pageOf {s : EditorState} (h : s.CursorInside) :
    stateOf (pageOf s) = s := by
  obtain ⟨lines, cursorLine, cursorCol⟩ := s
  obtain ⟨⟨hline, hlineLt⟩, hcol, hcolLe⟩ := h
  obtain ⟨i, rfl⟩ := Int.eq_ofNat_of_zero_le hline
  obtain ⟨j, rfl⟩ := Int.eq_ofNat_of_zero_le hcol
  dsimp only at hlineLt hcolLe
  have hi : i < lines.length := by omega
  have hat : itemAt lines i [] = lines[i] := by
    rw [itemAt, if_neg (by omega), Int.toNat_natCast, List.getElem?_eq_getElem hi, Option.getD_some]
  rw [hat] at hcolLe
  rw [stateOf, pageOf, EditorState.mk.injEq]
  dsimp only
  rw [hat]
  refine ⟨?_, ?_, ?_⟩
  · simp [Page.lines]
  · rw [List.length_take, Int.toNat_natCast]
    omega
  · rw [List.length_take, Int.toNat_natCast]
    omega

namespace Editor

section Page
variable {s : Editor} {above below : List Text} {left right : Text}
  (hs : s.state = stateOf ⟨above, left, right, below⟩)
include hs

theorem currentLine_page : s.currentLine = left ++ right := by
  rw [currentLine, lineAt, hs]
  exact itemAt_between above below (left ++ right) []

theorem beforeCursor_page : s.beforeCursor = left := by
  rw [beforeCursor, currentLine_page hs, hs]
  exact slice_before left right

theorem afterCursor_page : s.afterCursor = right := by
  rw [afterCursor, currentLine_page hs, hs]
  exact sliceFrom_after left right

theorem setLine_left (front : Text) :
    ((s.setLine s.state.cursorLine (front ++ right)).setCursorCol front.length).state =
      stateOf ⟨above, front, right, below⟩ := by
  simp [setCursorCol, setLine, hs, stateOf, Page.lines]

theorem setLine_right (back : Text) :
    (s.setLine s.state.cursorLine (left ++ back)).state = stateOf ⟨above, left, back, below⟩ := by
  simp [setLine, hs, stateOf, Page.lines]

theorem keepAfter_page : ((s.setLine s.state.cursorLine s.afterCursor).setCursorCol 0).state =
    stateOf ⟨above, [], right, below⟩ := by
  rw [afterCursor_page hs]
  exact setLine_left hs []

theorem keepBefore_page : (s.setLine s.state.cursorLine s.beforeCursor).state =
    stateOf ⟨above, left, [], below⟩ := by
  have hset := setLine_right hs []
  rw [List.append_nil] at hset
  rw [beforeCursor_page hs]
  exact hset

end Page

section Parts
variable {s : Editor} {above below : List Text} {front piece back left right : Text}

theorem slice_front_page (hs : s.state = stateOf ⟨above, front ++ piece, right, below⟩) :
    Js.slice s.currentLine 0 front.length = front ∧ Js.slice s.currentLine front.length s.state.cursorCol = piece := by
  have hcursor : s.state.cursorCol = (front.length + piece.length : Nat) := by
    rw [hs, stateOf, List.length_append]
  rw [hcursor, currentLine_page hs, List.append_assoc]
  exact ⟨slice_before front (piece ++ right), slice_between front piece right⟩

theorem keepFront_page (hs : s.state = stateOf ⟨above, front ++ piece, right, below⟩) :
    ((s.setLine s.state.cursorLine (Js.slice s.currentLine 0 front.length ++ s.afterCursor)).setCursorCol
      front.length).state = stateOf ⟨above, front, right, below⟩ := by
  rw [(slice_front_page hs).1, afterCursor_page hs]
  exact setLine_left hs front

theorem slice_back_page (hs : s.state = stateOf ⟨above, left, piece ++ back, below⟩) :
    Js.slice s.currentLine s.state.cursorCol (left ++ piece).length = piece ∧
      sliceFrom s.currentLine (left ++ piece).length = back := by
  have hcursor : s.state.cursorCol = left.length := by rw [hs, stateOf]
  rw [hcursor, currentLine_page hs]
  constructor
  · rw [List.length_append]
    exact slice_between left piece back
  · rw [← List.append_assoc]
    exact sliceFrom_after (left ++ piece) back

theorem keepBack_page (hs : s.state = stateOf ⟨above, left, piece ++ back, below⟩) :
    (s.setLine s.state.cursorLine (s.beforeCursor ++ sliceFrom s.currentLine (left ++ piece).length)).state =
      stateOf ⟨above, left, back, below⟩ := by
  rw [(slice_back_page hs).2, beforeCursor_page hs]
  exact setLine_right hs back

end Parts

theorem mergeWithPrevious_page {s : Editor} {above below : List Text} {line right : Text}
    (hs : s.state = stateOf ⟨above ++ [line], [], right, below⟩) :
    s.mergeWithPrevious.state = stateOf ⟨above, line, right, below⟩ := by
  have hcurrent := currentLine_page hs
  have hprevious : s.lineAt (s.state.cursorLine - 1) = line := by
    rw [lineAt, hs]
    simp [stateOf, Page.lines]
  have hset : setAt s.state.lines (s.state.cursorLine - 1) (line ++ right) =
      above ++ (line ++ right) :: right :: below := by
    simp [stateOf, Page.lines, hs]
  have hsplice : splice (above ++ (line ++ right) :: right :: below) s.state.cursorLine 1 [] =
      above ++ (line ++ right) :: below := by
    have hat := splice_between (above ++ [line ++ right]) [right] below []
    simpa [stateOf, hs] using hat
  rw [mergeWithPrevious, hprevious, hcurrent]
  simp only [setCursorCol, setCursorLine, spliceLines, setLine, hset, hsplice, List.nil_append]
  simp [stateOf, Page.lines, hs]

theorem mergeWithNext_page {s : Editor} {above below : List Text} {left line : Text}
    (hs : s.state = stateOf ⟨above, left, [], line :: below⟩) :
    s.mergeWithNext.state = stateOf ⟨above, left, line, below⟩ := by
  have hcurrent := currentLine_page hs
  have hnext : s.lineAt (s.state.cursorLine + 1) = line := by
    rw [lineAt, hs]
    have hat := itemAt_between (above ++ [left]) below line []
    simpa [stateOf, Page.lines] using hat
  have hset : setAt s.state.lines s.state.cursorLine (left ++ line) =
      above ++ (left ++ line) :: line :: below := by
    simp [stateOf, Page.lines, hs]
  have hsplice : splice (above ++ (left ++ line) :: line :: below) (s.state.cursorLine + 1) 1 [] =
      above ++ (left ++ line) :: below := by
    have hat := splice_between (above ++ [left ++ line]) [line] below []
    simpa [stateOf, hs] using hat
  rw [mergeWithNext, hnext, hcurrent]
  simp only [spliceLines, setLine, List.append_nil, hset, hsplice]
  simp [stateOf, Page.lines, hs]

/-! ## One kill -/

/-- A kill command takes away what stands next to the cursor, or does nothing. -/
inductive Kills (s : Editor) (p : Page UInt16) (t : Editor) : Prop
  | nothing (hstate : t.state = stateOf p) (hring : t.killRing = s.killRing)
      (hlast : t.lastAction = s.lastAction)
  | piece {p' : Page UInt16} {isBackward : Bool} {piece : Text} (hkill : Page.Kill 10 p p' isBackward piece)
      (hne : piece ≠ []) (hstate : t.state = stateOf p')
      (hring : t.killRing = s.killRing.push piece isBackward s.wasKill) (hlast : t.lastAction = some .kill)

section Kill
variable {s : Editor} {p : Page UInt16} (hs : s.state = stateOf p)
include hs

theorem kill_lineAbove (hcol : p.left = []) (hline : 0 < s.state.cursorLine) :
    Kills s p ((s.exitHistoryBrowsing.pushUndoSnapshot.kill [10] true s.wasKill).mergeWithPrevious) := by
  obtain ⟨above, left, right, below⟩ := p
  obtain rfl : left = [] := hcol
  obtain ⟨above, line, rfl⟩ : ∃ lines line, above = lines ++ [line] := by
    obtain rfl | ⟨lines, line, rfl⟩ := List.eq_nil_or_concat above
    · rw [hs] at hline
      exact absurd hline (lt_irrefl 0)
    · exact ⟨lines, line, List.concat_eq_append⟩
  exact .piece (.lineAbove above line right below) (List.cons_ne_nil 10 [])
    (mergeWithPrevious_page hs) rfl rfl

theorem kill_lineBelow (hcol : p.right = [])
    (hline : s.state.cursorLine < (s.state.lines.length : Int) - 1) :
    Kills s p ((s.exitHistoryBrowsing.pushUndoSnapshot.kill [10] false s.wasKill).mergeWithNext) := by
  obtain ⟨above, left, right, below⟩ := p
  obtain rfl : right = [] := hcol
  obtain ⟨line, below, rfl⟩ : ∃ line lines, below = line :: lines := by
    cases below with
    | nil =>
      rw [hs] at hline
      simp [stateOf, Page.lines] at hline
    | cons line lines => exact ⟨line, lines, rfl⟩
  exact .piece (.lineBelow above left line below) (List.cons_ne_nil 10 [])
    (mergeWithNext_page hs) rfl rfl

theorem deleteToStartOfLine_kills : Kills s p s.deleteToStartOfLine := by
  obtain ⟨above, left, right, below⟩ := p
  have hcursor : s.state.cursorCol = left.length := by rw [hs, stateOf]
  rw [deleteToStartOfLine]
  dsimp only
  split
  · rename_i hcol
    have hcol' : 0 < s.state.cursorCol := hcol
    have hkill := @Page.Kill.left _ 10 above [] left right below
    refine .piece hkill ?_ ?_ ?_ rfl
    · rintro rfl
      rw [hcursor] at hcol'
      exact absurd hcol' (lt_irrefl 0)
    · exact keepAfter_page hs
    · have hbefore := beforeCursor_page hs
      rw [← hbefore]
      rfl
  · rename_i hcol
    split
    · rename_i hline
      refine kill_lineAbove hs ?_ hline
      have hle : ¬ 0 < s.state.cursorCol := hcol
      rw [hcursor] at hle
      cases left with
      | nil => rfl
      | cons c rest => exact absurd (Int.natCast_pos.mpr (Nat.succ_pos rest.length)) hle
    · exact .nothing hs rfl rfl

theorem deleteToEndOfLine_kills : Kills s p s.deleteToEndOfLine := by
  obtain ⟨above, left, right, below⟩ := p
  have hcurrent := currentLine_page hs
  have hcursor : s.state.cursorCol < s.currentLine.length ↔ right ≠ [] := by
    rw [hcurrent, hs, stateOf, List.length_append, ← List.length_pos_iff]
    dsimp only
    omega
  rw [deleteToEndOfLine]
  dsimp only
  split
  · rename_i hcol
    have hkill := @Page.Kill.right _ 10 above left right [] below
    rw [List.append_nil] at hkill
    refine .piece hkill (hcursor.mp hcol) ?_ ?_ rfl
    · exact keepBefore_page hs
    · have hafter := afterCursor_page hs
      rw [← hafter]
      rfl
  · rename_i hcol
    split
    · rename_i hline
      refine kill_lineBelow hs ?_ hline
      by_contra hne
      exact hcol (hcursor.mpr hne)
    · exact .nothing hs rfl rfl

section Words
variable {h : Host} (hwords : h.wordSegmenter.WordsBare)
include hwords

omit hs in
theorem moveWordBackwards_page {above below : List Text} {left right : Text}
    (hs : s.state = stateOf ⟨above, left, right, below⟩) (hne : left ≠ []) :
    ∃ front piece, left = front ++ piece ∧ piece ≠ [] ∧
      s.moveWordBackwards h = ({ s with lastAction := none } : Editor).setCursorCol front.length := by
  obtain ⟨front, piece, hleft, hpiece, hfound⟩ :=
    findWordBackward_left hwords (s.pastes.map Prod.fst) hne right
  refine ⟨front, piece, hleft, hpiece, ?_⟩
  have hcursor : s.state.cursorCol = left.length := by rw [hs, stateOf]
  have hcol : ¬ s.state.cursorCol = 0 := by
    rw [hcursor]
    exact mt (fun hzero => List.length_eq_zero_iff.mp (Int.natCast_eq_zero.mp hzero)) hne
  rw [← currentLine_page hs, ← hcursor] at hfound
  rw [moveWordBackwards]
  exact (if_neg hcol).trans (congrArg _ hfound)

omit hs in
theorem moveWordForwards_page {above below : List Text} {left right : Text}
    (hs : s.state = stateOf ⟨above, left, right, below⟩) (hne : right ≠ []) :
    ∃ piece back, right = piece ++ back ∧ piece ≠ [] ∧
      s.moveWordForwards h = ({ s with lastAction := none } : Editor).setCursorCol (left ++ piece).length := by
  obtain ⟨piece, back, hright, hpiece, hfound⟩ :=
    findWordForward_right hwords (s.pastes.map Prod.fst) left hne
  refine ⟨piece, back, hright, hpiece, ?_⟩
  have hcursor : s.state.cursorCol = left.length := by rw [hs, stateOf]
  have hcol : ¬ (s.currentLine.length : Int) ≤ s.state.cursorCol := by
    have hpos := List.length_pos_iff.mpr hne
    rw [hcursor, currentLine_page hs, List.length_append]
    omega
  rw [← currentLine_page hs, ← hcursor] at hfound
  rw [moveWordForwards]
  exact (if_neg hcol).trans (congrArg _ hfound)

theorem deleteWordBackwards_kills : Kills s p (s.deleteWordBackwards h) := by
  obtain ⟨above, left, right, below⟩ := p
  have hcursor : s.state.cursorCol = left.length := by rw [hs, stateOf]
  rw [deleteWordBackwards]
  dsimp only
  split
  · rename_i hcol
    split
    · rename_i hline
      refine kill_lineAbove hs ?_ hline
      have hzero : s.state.cursorCol = 0 := hcol
      rw [hcursor] at hzero
      exact List.length_eq_zero_iff.mp (Int.natCast_eq_zero.mp hzero)
    · exact .nothing hs rfl rfl
  · rename_i hcol
    have hne : left ≠ [] := by
      rintro rfl
      exact hcol hcursor
    obtain ⟨front, piece, rfl, hpiece, hmoves⟩ :=
      @moveWordBackwards_page s.exitHistoryBrowsing.pushUndoSnapshot _ hwords _ _ _ _ hs hne
    rw [hmoves]
    refine .piece (Page.Kill.left above front piece right below) hpiece (keepFront_page hs) ?_ rfl
    exact congrArg (s.killRing.push · true s.wasKill) (slice_front_page hs).2

theorem deleteWordForward_kills : Kills s p (s.deleteWordForward h) := by
  obtain ⟨above, left, right, below⟩ := p
  have hcursor : s.state.cursorCol < s.currentLine.length ↔ right ≠ [] := by
    rw [currentLine_page hs, hs, stateOf, List.length_append, ← List.length_pos_iff]
    dsimp only
    omega
  rw [deleteWordForward]
  dsimp only
  split
  · rename_i hcol
    split
    · rename_i hline
      refine kill_lineBelow hs ?_ hline
      by_contra hne
      exact absurd (hcursor.mpr hne) (not_lt.mpr hcol)
    · exact .nothing hs rfl rfl
  · rename_i hcol
    obtain ⟨piece, back, rfl, hpiece, hmoves⟩ :=
      @moveWordForwards_page s.exitHistoryBrowsing.pushUndoSnapshot _ hwords _ _ _ _ hs
        (hcursor.mp (not_le.mp hcol))
    rw [hmoves]
    refine .piece (Page.Kill.right above left piece back below) hpiece (keepBack_page hs) ?_ rfl
    exact congrArg (s.killRing.push · false s.wasKill) (slice_back_page hs).1

end Words

end Kill

/-! ## Kills one after another -/

/-- The kill commands. -/
def Command.IsKill : Command → Prop
  | .deleteToStartOfLine | .deleteToEndOfLine | .deleteWordBackwards | .deleteWordForward => True
  | _ => False

theorem perform_kills {h : Host} (hwords : h.wordSegmenter.WordsBare) {s : Editor} {p : Page UInt16}
    (hs : s.state = stateOf p) {command : Command} (hkill : command.IsKill) :
    Kills s p (s.perform h command) := by
  cases command with
  | deleteToStartOfLine => exact deleteToStartOfLine_kills hs
  | deleteToEndOfLine => exact deleteToEndOfLine_kills hs
  | deleteWordBackwards => exact deleteWordBackwards_kills hs hwords
  | deleteWordForward => exact deleteWordForward_kills hs hwords
  | _ => cases hkill

/-- Kills so far: none, or one entry of what was taken away around the cursor. -/
structure Killing (s : Editor) (p : Page UInt16) (t : Editor) (p' : Page UInt16) : Prop where
  state : t.state = stateOf p'
  clean : p'.Clean 10
  entry : (p' = p ∧ t.killRing = s.killRing ∧ t.lastAction = s.lastAction) ∨
    ∃ killed, t.killRing = killed :: s.killRing ∧ t.lastAction = some .kill ∧
      (p.gap 10).Removes killed (p'.gap 10)

section Killing
variable {s t u : Editor} {p p' : Page UInt16}

theorem Killing.step (hkilling : Killing s p t p') (hlast : s.lastAction ≠ some .kill)
    (hkills : Kills t p' u) : ∃ p'', Killing s p u p'' := by
  cases hkills with
  | nothing hstate hring hlast =>
    refine ⟨p', hstate, hkilling.clean, ?_⟩
    rw [hring, hlast]
    exact hkilling.entry
  | @piece p'' isBackward piece hkill hne hstate hring hlastKill =>
    refine ⟨p'', hstate, hkill.clean hkilling.clean, .inr ?_⟩
    obtain ⟨rfl, hsame, hlastSame⟩ | ⟨killed, hsame, hlastSame, hremoves⟩ := hkilling.entry
    · -- the first one is an entry of its own
      refine ⟨piece, ?_, hlastKill, ?_⟩
      · have hwas : t.wasKill = false := by
          rw [wasKill, hlastSame]
          exact beq_eq_false_iff_ne.mpr hlast
        rw [hring, hsame, hwas, KillRing.push, if_neg hne]
        nofun
      · have hremoves := hkill.removes (Gap.Removes.refl (p'.gap 10))
        cases isBackward <;> simpa using hremoves
    · refine ⟨_, ?_, hlastKill, hkill.removes hremoves⟩
      have hwas : t.wasKill = true := by
        rw [wasKill, hlastSame]
        rfl
      rw [hring, hsame, hwas, KillRing.push, if_neg hne]

theorem runKills_killing {h : Host} (hwords : h.wordSegmenter.WordsBare)
    (hlast : s.lastAction ≠ some .kill)
    {commands : List Command} (hkills : ∀ command ∈ commands, command.IsKill)
    (hkilling : Killing s p t p') : ∃ p'', Killing s p (commands.foldl (perform h) t) p'' := by
  induction commands generalizing t p' with
  | nil => exact ⟨p', hkilling⟩
  | cons command commands ih =>
    obtain ⟨p'', hstep⟩ := hkilling.step hlast
      (perform_kills hwords hkilling.state (hkills command List.mem_cons_self))
    exact ih (fun other hother => hkills other (List.mem_cons_of_mem _ hother)) hstep

end Killing

/-! ## Yanking -/

theorem splitLines_ne_nil (text : Text) : splitLines text ≠ [] := List.splitOn_ne_nil 10 text

theorem intercalate_splitLines (text : Text) : [10].intercalate (splitLines text) = text :=
  List.intercalate_splitOn 10

section Yank
variable {s : Editor} {p : Page UInt16}

theorem insertYankedText_page (hs : s.state = stateOf p) (text : Text) :
    (s.insertYankedText text).state = stateOf (p.insert (splitLines text)) := by
  obtain ⟨above, left, right, below⟩ := p
  have htext := intercalate_splitLines text
  rw [insertYankedText]
  dsimp only
  rcases hlines : splitLines text with - | ⟨first, - | ⟨second, rest⟩⟩
  · exact absurd hlines (splitLines_ne_nil text)
  · obtain rfl : first = text := by simpa [hlines] using htext
    have hset := setLine_left (s := s.exitHistoryBrowsing) hs (left ++ first)
    have hcursor : s.exitHistoryBrowsing.state.cursorCol + (first.length : Int) =
        (left ++ first).length := by
      have hcol : s.exitHistoryBrowsing.state.cursorCol = left.length :=
        congrArg EditorState.cursorCol hs
      rw [hcol, List.length_append]
      omega
    dsimp only
    rw [beforeCursor_page (s := s.exitHistoryBrowsing) hs,
      afterCursor_page (s := s.exitHistoryBrowsing) hs, hcursor]
    simpa [Page.insert] using hset
  · have hset : setAt s.state.lines s.state.cursorLine (left ++ first) =
        above ++ (left ++ first) :: below := by
      simp [stateOf, Page.lines, hs]
    have hsplice : ∀ items, splice (above ++ (left ++ first) :: below) (s.state.cursorLine + 1) 0 items =
        above ++ (left ++ first) :: (items ++ below) := by
      intro items
      have hat := splice_between (above ++ [left ++ first]) [] below items
      simpa [stateOf, hs] using hat
    dsimp only
    rw [beforeCursor_page (s := s.exitHistoryBrowsing) hs,
      afterCursor_page (s := s.exitHistoryBrowsing) hs]
    simp only [setCursorCol, setCursorLine, spliceLines, setLine, exitHistoryBrowsing, hset,
      hsplice]
    simp [stateOf, Page.lines, Page.insert, hs]

theorem deleteYankedText_page {older : List Text}
    (hs : s.state = stateOf (p.insert (splitLines text))) (hring : s.killRing = text :: older) :
    s.deleteYankedText.state = stateOf p := by
  obtain ⟨above, left, right, below⟩ := p
  have htext := intercalate_splitLines text
  rw [deleteYankedText, hring]
  dsimp only
  split
  · rename_i hempty
    subst hempty
    have hnil : splitLines [] = [[]] := by simp [splitLines]
    simpa [hnil, Page.insert] using hs
  · rcases hlines : splitLines text with - | ⟨first, - | ⟨second, rest⟩⟩
    · exact absurd hlines (splitLines_ne_nil text)
    · obtain rfl : first = text := by simpa [hlines] using htext
      rw [hlines] at hs
      have hs' : s.state = stateOf ⟨above, left ++ first, right, below⟩ := by simpa [Page.insert] using hs
      have hcursor : s.state.cursorCol - (first.length : Int) = left.length := by
        rw [hs', stateOf, List.length_append]
        dsimp only
        omega
      dsimp only
      rw [hcursor]
      exact keepFront_page hs'
    · rw [hlines, Page.insert] at hs
      generalize hlast : (second :: rest).getLast (List.cons_ne_nil second rest) = last at hs
      have hlength : ((second :: rest).dropLast).length = rest.length := by simp
      generalize (second :: rest).dropLast = middle at hs hlength
      have hstart : s.state.cursorLine - ((second :: rest).length : Int) = above.length := by
        rw [hs, stateOf, List.length_append, List.length_cons, List.length_cons, hlength]
        dsimp only
        omega
      have hat : s.lineAt above.length = left ++ first := by
        rw [lineAt, hs]
        simp [stateOf, Page.lines]
      have hcol : (((left ++ first).length : Int) - first.length) = left.length := by
        rw [List.length_append]
        omega
      have hsplice : splice s.state.lines above.length (rest.length + 2) [left ++ right] =
          above ++ (left ++ right) :: below := by
        have hcut :=
          splice_between above ((left ++ first) :: middle ++ [last ++ right]) below [left ++ right]
        simpa [stateOf, Page.lines, hs, hlength] using hcut
      have hafter := afterCursor_page hs
      dsimp only
      rw [hstart, hat, hcol, slice_before, hafter]
      simp only [setCursorCol, setCursorLine, spliceLines, hsplice]
      rfl

theorem deleteYankedText_killRing (s : Editor) : s.deleteYankedText.killRing = s.killRing := by
  rw [deleteYankedText]
  split
  · rfl
  · split
    · rfl
    · split <;> rfl

theorem insertYankedText_killRing (s : Editor) (text : Text) :
    (s.insertYankedText text).killRing = s.killRing := by
  rw [insertYankedText]
  dsimp only
  split <;> rfl

omit s p in
theorem rotate_eq {ring : KillRing} (hmore : 1 < ring.length) :
    KillRing.rotate ring = List.rotate ring 1 := by
  match ring, hmore with
  | last :: older :: rest, _ =>
    rw [KillRing.rotate, List.rotate_cons_succ, List.rotate_zero]

/-- Behind a yank and some yank-pops: an entry of the ring stands at the cursor. -/
structure Yanked (p : Page UInt16) (ring : KillRing) (n : Nat) (t : Editor) : Prop where
  state : ∀ entry, ring[n]? = some entry → t.state = stateOf (p.insert (splitLines entry))
  killRing : t.killRing = List.rotate ring n
  lastAction : t.lastAction = some .yank

theorem yank_yanked (hs : s.state = stateOf p) (hring : s.killRing ≠ []) :
    Yanked p s.killRing 0 s.yank := by
  obtain ⟨text, older, hcons⟩ := List.exists_cons_of_ne_nil hring
  have hyank : s.yank = { s.pushUndoSnapshot.insertYankedText text with lastAction := some .yank } := by
    rw [yank, hcons]
  rw [hyank]
  refine ⟨?_, ?_, rfl⟩
  · intro entry hentry
    obtain rfl : text = entry := by simpa [hcons] using hentry
    exact insertYankedText_page (s := s.pushUndoSnapshot) hs text
  · rw [List.rotate_zero]
    exact insertYankedText_killRing _ _

theorem Yanked.yankPop {ring : KillRing} {n : Nat} {t : Editor} (h : Yanked p ring n t)
    (hn : n + 1 < ring.length) : Yanked p ring (n + 1) t.yankPop := by
  have hlength : t.killRing.length = ring.length := by rw [h.killRing, List.length_rotate]
  have hat := List.getElem?_eq_getElem (Nat.lt_of_succ_lt hn)
  have hhead := List.head?_rotate (Nat.lt_of_succ_lt hn)
  rw [← h.killRing, hat] at hhead
  obtain ⟨older, hcons⟩ := List.head?_eq_some_iff.mp hhead
  have hrotate : t.killRing.rotate = List.rotate ring (n + 1) := by
    rw [rotate_eq (by omega), h.killRing, List.rotate_rotate]
  have hdeleted := deleteYankedText_page (s := t.pushUndoSnapshot) (h.state _ hat) hcons
  have hring : t.pushUndoSnapshot.deleteYankedText.killRing = t.killRing :=
    deleteYankedText_killRing _
  have hgoesOn : ¬ (t.lastAction ≠ some .yank ∨ t.killRing.length ≤ 1) := by
    rw [h.lastAction, hlength]
    simp only [ne_eq, not_true, false_or, not_le]
    omega
  rw [Editor.yankPop, if_neg hgoesOn]
  dsimp only
  rw [hring, hrotate]
  refine ⟨?_, ?_, rfl⟩
  · intro entry hentry
    rw [List.head?_rotate hn, hentry, Option.getD_some]
    exact insertYankedText_page
      (s := { t.pushUndoSnapshot.deleteYankedText with killRing := List.rotate ring (n + 1) }) hdeleted entry
  · exact insertYankedText_killRing _ _

theorem iterate_yankPop_yanked (hs : s.state = stateOf p) {n : Nat} (hn : n < s.killRing.length) :
    Yanked p s.killRing n (yankPop^[n] s.yank) := by
  induction n with
  | zero => exact yank_yanked hs (List.length_pos_iff.mp hn)
  | succ n ih =>
    rw [Function.iterate_succ_apply']
    exact (ih (Nat.lt_of_succ_lt hn)).yankPop hn

end Yank

/-- Kill then yank is the identity, and yank-pops put the older entries of the ring in the place of
what was yanked. -/
theorem kill_yank_restores {h : Host} {s : Editor} (hcursor : s.state.CursorInside)
    (hlines : ∀ line ∈ s.state.lines, 10 ∉ line) (hwords : h.wordSegmenter.WordsBare) :
    (∀ commands : List Command, (∀ command ∈ commands, command.IsKill) → s.lastAction ≠ some .kill →
      (commands.foldl (perform h) s).state.lines ≠ s.state.lines →
      (commands.foldl (perform h) s).yank.state.lines = s.state.lines) ∧
    ∀ k entry, s.killRing[k]? = some entry →
      (yankPop^[k] s.yank).state.text = (((pageOf s.state).gap 10).insert entry).text := by
  have hs : s.state = stateOf (pageOf s.state) := hcursor.stateOf_pageOf.symm
  constructor
  · intro commands hkills hlast hdeletes
    have hclean : (pageOf s.state).Clean 10 := by
      intro line hline
      rw [hs] at hlines
      exact hlines line hline
    obtain ⟨p', hkilling⟩ := runKills_killing hwords hlast hkills
      (⟨hs, hclean, .inl ⟨rfl, rfl, rfl⟩⟩ : Killing s (pageOf s.state) s (pageOf s.state))
    generalize commands.foldl (perform h) s = t at *
    obtain ⟨rfl, _⟩ | ⟨killed, hring, _, hremoves⟩ := hkilling.entry
    · rw [hkilling.state, ← hs] at hdeletes
      exact absurd rfl hdeletes
    · have hyank : t.yank = { t.pushUndoSnapshot.insertYankedText killed with lastAction := some .yank } := by
        rw [yank, hring]
      have hstate : t.yank.state = stateOf (p'.insert (splitLines killed)) := by
        rw [hyank]
        exact insertYankedText_page (s := t.pushUndoSnapshot) hkilling.state killed
      have hyanked : (p'.insert (splitLines killed)).Clean 10 :=
        hkilling.clean.insert fun piece hpiece => Page.not_mem_of_mem_splitOn hpiece
      calc t.yank.state.lines = (p'.insert (splitLines killed)).lines := by rw [hstate, stateOf]
        _ = (((p'.gap 10).insert killed).text).splitOn 10 := by
          rw [hyanked.lines_eq, Page.insert_gap, intercalate_splitLines]
        _ = (((pageOf s.state).gap 10).text).splitOn 10 := by rw [hremoves.insert_text]
        _ = s.state.lines := by rw [← hclean.lines_eq, ← congrArg EditorState.lines hs.symm, stateOf]
  · intro k entry hentry
    have hk := (List.getElem?_eq_some_iff.mp hentry).1
    have hyanked := (iterate_yankPop_yanked hs hk).state entry hentry
    rw [hyanked, EditorState.text, stateOf, ← Page.gap_text, Page.insert_gap,
      intercalate_splitLines]

/-- Two lines, with the cursor in the first one. -/
def twoLines : Editor := { Editor.new with state := ⟨[ascii "to be", ascii "or not"], 0, 2⟩ }

/-- An editor that no key does anything in. -/
def keylessHost : Host where
  matchesAction _ _ := false
  matchesKey _ _ := false
  submitsOnShiftEnter := false
  decodePrintableKey _ := none
  graphemeSegmenter := unitSegmenter
  wordSegmenter := unitSegmenter
  visibleWidth text := text.length
  wordWrapLine _ _ _ := []
  pageRows := 5

theorem keylessHost_wordsBare : keylessHost.wordSegmenter.WordsBare := by
  intro text seg hseg hword
  have hmem : seg ∈ Tui.unitSegments 0 text := hseg
  have hnone : ∀ (index : Nat) (text : Text), ∀ seg ∈ Tui.unitSegments index text, seg.isWordLike =
      false := by
    intro index text
    induction text generalizing index with
    | nil => intro seg hseg; cases hseg
    | cons c rest ih =>
      intro seg hseg
      obtain rfl | hrest := List.mem_cons.mp hseg
      · rfl
      · exact ih (index + 1) seg hrest
  rw [hnone 0 text seg hmem] at hword
  cases hword

theorem kill_yank_restores_example :
    ([Command.deleteToEndOfLine, .deleteToEndOfLine, .deleteWordBackwards].foldl (perform keylessHost)
      twoLines).yank.state.lines = [ascii "to be", ascii "or not"] := by
  refine (kill_yank_restores (s := twoLines) ⟨by decide, by decide⟩ (by decide) keylessHost_wordsBare).1 _ ?_
    (by decide) (by decide +kernel)
  intro command hcommand
  simp only [List.mem_cons, List.not_mem_nil, or_false] at hcommand
  obtain rfl | rfl | rfl := hcommand <;> trivial

end Editor

end PieLab.Tui

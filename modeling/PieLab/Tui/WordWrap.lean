import PieLab.Tui.VisibleWidth
import PieLab.Tui.WordNavigation

/-
  Word wrapping in the editor

  A line is laid out in chunks no wider than the terminal. The loop over its segments
  remembers the last place where a break is allowed; a segment that does not fit goes
  onto the next chunk from there, or from itself if that is not enough. A paste marker
  wider than the terminal is wrapped by itself, by its graphemes.

  The loop adds up the widths of the segments, while a text is as wide as the terminal
  shows it: an escape sequence takes no columns as a part of a text, and some as segments.

  What is proved:
    1. `WrapState.Wraps.wrapSegment` — one segment keeps the bookkeeping of the loop.
    2. `Wraps.finish_narrow`, `Wraps.finish_keeps` — the graphemes of a chunk fit side by
       side, and a run without a break opportunity in it is not split if its graphemes do.
    3. `wordWrapLine_overflows` — a grapheme that does not fit is wrapped again and again.
    4. `wordWrapLine_wrapsWell` — when a line is wrapped as it should be.
    5. `wide_grapheme_overflows` — a line that is wrapped for ever, and one with an escape
       sequence whose last word is split though it fits.

  Correspondence (TypeScript ↔ Lean), packages/tui/src/components/editor.ts:
    `wordWrapLine`, the loop body ↔ `makeRoom`, `rewrapped`, `advance`, `wrapSegment`
    `wordWrapLine`                ↔ `wrapLoop`, `wordWrapLine`; its recursion on a segment
      takes fuel
  The characters of `cjkBreakRegex` are those of Unicode: a parameter.
-/

open PieLab.Lib PieLab.Lib.Js

namespace PieLab.Tui

/-! ## The wrapping -/

/-- The source's `TextChunk`. -/
structure WrappedChunk where
  text : Text
  startIndex : Nat
  endIndex : Nat
  deriving DecidableEq, Repr

/-- A place to wrap at, and the width of the chunk up to it. -/
structure WrapOpportunity where
  index : Nat
  width : Nat
  deriving DecidableEq, Repr

structure WrapState where
  chunks : List WrappedChunk
  chunkStart : Nat
  currentWidth : Nat
  wrapOpp : Option WrapOpportunity

/-- Before the first segment. -/
def WrapState.start : WrapState where
  chunks := []
  chunkStart := 0
  currentWidth := 0
  wrapOpp := none

section Wrapping
variable (h : WrapHost)

def WrapHost.isCjk (seg : SegmentData) :
    Bool := !isPasteMarker seg.segment && h.isCjkBreak seg.segment

/-- Between the segment and the next one a break is allowed. -/
def WrapHost.isWrapOpportunity (seg next : SegmentData) : Bool :=
  if isSpaceSegment seg then isPasteMarker next.segment || !isWhitespaceChar next.segment
  else !isWhitespaceChar next.segment && (h.isCjk seg || h.isCjk next)

namespace WrapState

/-- The chunk up to `stop` is done. -/
def breakAt (s : WrapState) (line : Text) (stop width : Nat) : WrapState where
  chunks := s.chunks ++ [⟨Js.slice line s.chunkStart stop, s.chunkStart, stop⟩]
  chunkStart := stop
  currentWidth := width
  wrapOpp := none

/-- A break in front of the segment, where nothing better is possible. -/
def forceBreak (s : WrapState) (line : Text) (charIndex : Nat) : WrapState :=
  if s.chunkStart < charIndex then s.breakAt line charIndex 0 else { s with wrapOpp := none }

/-- The overflow check before the segment is taken. -/
def makeRoom (s : WrapState) (line : Text) (maxWidth charIndex gWidth : Nat) : WrapState :=
  if maxWidth < s.currentWidth + gWidth then
    match s.wrapOpp with
    | some opp =>
      if s.currentWidth - opp.width + gWidth ≤ maxWidth then
        s.breakAt line opp.index (s.currentWidth - opp.width)
      else s.forceBreak line charIndex
    | none => s.forceBreak line charIndex
  else s

/-- The chunks of a segment that was wrapped by itself; the last of them goes on. -/
def rewrapped (s : WrapState) (charIndex : Nat) (subChunks : List WrappedChunk) : WrapState :=
  match subChunks.getLast? with
  | none => s
  | some last =>
    { chunks := s.chunks ++ subChunks.dropLast.map fun sc =>
        ⟨sc.text, charIndex + sc.startIndex, charIndex + sc.endIndex⟩
      chunkStart := charIndex + last.startIndex
      currentWidth := h.visibleWidth last.text
      wrapOpp := none }

/-- The segment is taken. -/
def advance (s : WrapState) (seg : SegmentData) (next : Option SegmentData) (gWidth : Nat) :
    WrapState :=
  let currentWidth := s.currentWidth + gWidth
  match next with
  | none => { s with currentWidth }
  | some next =>
    { s with
      currentWidth
      wrapOpp := if h.isWrapOpportunity seg next then some ⟨next.index, currentWidth⟩ else s.wrapOpp }

/-- The loop body; `rewrap` is the recursion. -/
def wrapSegment (rewrap : Text → Option (List WrappedChunk)) (line : Text) (maxWidth : Nat)
    (s : WrapState) (seg : SegmentData) (next : Option SegmentData) : Option WrapState :=
  let gWidth := h.visibleWidth seg.segment
  let s := s.makeRoom line maxWidth seg.index gWidth
  if maxWidth < gWidth then (rewrap seg.segment).map (s.rewrapped h seg.index)
  else some (s.advance h seg next gWidth)

def wrapLoop (rewrap : Text → Option (List WrappedChunk)) (line : Text) (maxWidth : Nat) :
    WrapState → List SegmentData → Option WrapState
  | s, [] => some s
  | s, seg :: rest => (s.wrapSegment h rewrap line maxWidth seg rest.head?).bind fun s =>
      wrapLoop rewrap line maxWidth s rest

/-- The final chunk. -/
def finish (s : WrapState) (line : Text) : List WrappedChunk :=
  s.chunks ++ [⟨sliceFrom line s.chunkStart, s.chunkStart, line.length⟩]

end WrapState

/-- `preSegmented ?? [...graphemeSegmenter.segment(line)]` -/
def WrapHost.segmentsOf (line : Text) (preSegmented : Option (List SegmentData)) :
    List SegmentData :=
  preSegmented.getD (h.graphemeSegmenter.segment line)

@[simp] theorem WrapHost.segmentsOf_none (line : Text) :
    h.segmentsOf line none = h.graphemeSegmenter.segment line := rfl

/-- `wordWrapLine`, with fuel for its recursion; `none` when the fuel runs out. -/
def wordWrapLine : Nat → Text → Nat → Option (List SegmentData) → Option (List WrappedChunk)
  | 0, _, _, _ => none
  | fuel + 1, line, maxWidth, preSegmented =>
    if line = [] ∨ maxWidth = 0 then some [⟨[], 0, 0⟩]
    else if h.visibleWidth line ≤ maxWidth then some [⟨line, 0, line.length⟩]
    else
      (WrapState.wrapLoop h (fun grapheme => wordWrapLine fuel grapheme maxWidth none) line maxWidth .start
        (h.segmentsOf line preSegmented)).map fun s => s.finish line

end Wrapping

/-! ## A line that is wrapped well -/

section Wrapping
variable (h : WrapHost)

/-- The graphemes of the segments. -/
def WrapHost.pieces (segments : List SegmentData) :
    List Text := (textsOf segments).flatMap h.graphemes

/-- What the texts are wide one by one. -/
def WrapHost.columns (texts : List Text) : Nat := (texts.map h.visibleWidth).sum

/-- Where the segments end in the line. -/
def endOf (segments : List SegmentData) : Nat := (textsOf segments).flatten.length

/-- The chunks lie side by side, each with its text. -/
def Tiles (line : Text) : Nat → List WrappedChunk → Nat → Prop
  | start, [], stop => start = stop
  | start, chunk :: rest, stop => chunk.startIndex = start ∧ start ≤ chunk.endIndex ∧
    chunk.text = Js.slice line chunk.startIndex chunk.endIndex ∧ Tiles line chunk.endIndex rest stop

/-- The loop records a break opportunity between the segments: the one before it is on its
chunk, and not wrapped by itself. -/
def Opportunity (maxWidth : Nat) (before after : List SegmentData) : Prop :=
  ∃ front seg next back, before = front ++ [seg] ∧ after = next :: back ∧
    h.visibleWidth seg.segment ≤ maxWidth ∧ h.isWrapOpportunity seg next

/-- A run between two consecutive break opportunities, the ends of the line included. -/
structure IsRun (maxWidth : Nat) (before run after : List SegmentData) : Prop where
  nonempty : run ≠ []
  opens : before = [] ∨ Opportunity h maxWidth before (run ++ after)
  closes : after = [] ∨ Opportunity h maxWidth (before ++ run) after
  between : ∀ front back, run = front ++ back → front ≠ [] → back ≠ [] →
    ¬ Opportunity h maxWidth (before ++ front) (back ++ after)

structure WellWrapped (line : Text) (maxWidth : Nat) (segments : List SegmentData)
    (chunks : List WrappedChunk) : Prop where
  covers : Tiles line 0 chunks line.length
  fits : ∀ chunk ∈ chunks, h.visibleWidth chunk.text ≤ maxWidth
  keepsRuns : ∀ before run after, segments = before ++ run ++ after → IsRun h maxWidth before run after →
    h.visibleWidth (textsOf run).flatten ≤ maxWidth →
      ∃ chunk ∈ chunks, chunk.startIndex ≤ endOf before ∧ endOf (before ++ run) ≤ chunk.endIndex

def GraphemesFit (maxWidth : Nat) (segments : List SegmentData) : Prop :=
  ∀ grapheme ∈ h.pieces segments, h.visibleWidth grapheme ≤ maxWidth

/-- It returns, and where every grapheme fits the chunks are as they should be. -/
def WrapsWell (line : Text) (maxWidth : Nat) (preSegmented : Option (List SegmentData)) : Prop :=
  let segments := h.segmentsOf line preSegmented
  ∃ fuel chunks, wordWrapLine h fuel line maxWidth preSegmented = some chunks ∧
    (GraphemesFit h maxWidth segments → WellWrapped h line maxWidth segments chunks)

/-- The graphemes of a run that fits as a text fit side by side; those of an escape
sequence in it take columns. -/
def RunsFit (maxWidth : Nat) (segments : List SegmentData) : Prop :=
  ∀ before run after, segments = before ++ run ++ after → IsRun h maxWidth before run after →
    h.visibleWidth (textsOf run).flatten ≤ maxWidth → h.columns (h.pieces run) ≤ maxWidth

end Wrapping

/-! ## Positions in the line -/

@[simp] theorem endOf_append (before after : List SegmentData) :
    endOf (before ++ after) = endOf before + endOf after := by
  simp [endOf, textsOf]

@[simp] theorem endOf_singleton (seg : SegmentData) : endOf [seg] = seg.segment.length := by
  simp [endOf, textsOf]

theorem Partition.texts_ne_nil {start : Nat} {text : Text} {segments : List SegmentData}
    (h : Partition start text segments) : ∀ piece ∈ textsOf segments, piece ≠ [] := by
  induction segments generalizing start text with
  | nil => intro piece hpiece; cases hpiece
  | cons seg rest ih =>
    obtain ⟨_, hne, tail, _, hrest⟩ := h
    intro piece hpiece
    obtain rfl | hpiece := List.mem_cons.mp hpiece
    · exact hne
    · exact ih hrest piece hpiece

variable {before after : List SegmentData} {p stop : Nat}

theorem Partition.index_eq {start : Nat} {text : Text} {seg : SegmentData}
    (h : Partition start text (before ++ seg :: after)) : seg.index = start + endOf before := by
  induction before generalizing start text with
  | nil => exact h.1
  | cons first before ih =>
    obtain ⟨_, _, tail, _, hrest⟩ := h
    have hcons : endOf (first :: before) = first.segment.length + endOf before := by
      simp [endOf, textsOf]
    rw [ih hrest, hcons]
    omega

section Positions
variable {h : WrapHost} {line : Text} {maxWidth : Nat} {segments : List SegmentData}

theorem WrapHost.graphemes_refine (h : WrapHost) (segments : List SegmentData) :
    Refines h.graphemes (textsOf segments) := fun piece _ => h.graphemes_flatten piece

theorem cut_segments (h : WrapHost) (hsegments : segments = before ++ after) :
    Cut (h.pieces segments) (endOf before) := by
  have hcut : Cut (textsOf segments) (endOf before) := by
    rw [hsegments, textsOf, List.map_append]
    exact Cut.between _ _
  exact hcut.refine (h.graphemes_refine segments)

theorem end_le_or_ge {front back : List SegmentData} {seg : SegmentData}
    (hsegments : segments = before ++ seg :: after) (hother : segments = front ++ back) :
    endOf front ≤ endOf before ∨ endOf before + seg.segment.length ≤ endOf front := by
  have hcut : Cut (textsOf before ++ seg.segment :: textsOf after) (endOf front) := by
    have hall : textsOf before ++ seg.segment :: textsOf after = textsOf front ++ textsOf back := by
      have heq := hsegments.symm.trans hother
      simpa [textsOf] using congrArg (List.map SegmentData.segment) heq
    rw [hall]
    exact Cut.between _ _
  exact hcut.le_or_ge

theorem WrapHost.graphemes_infix (h : WrapHost) {seg : SegmentData} (hseg : seg ∈ segments) :
    h.graphemes seg.segment <:+: h.pieces segments := by
  obtain ⟨before, after, rfl⟩ := List.append_of_mem hseg
  refine ⟨h.pieces before, h.pieces after, ?_⟩
  simp [WrapHost.pieces, textsOf]

theorem WrapHost.graphemes_ne_nil (h : WrapHost) (text : Text) :
    ∀ piece ∈ h.graphemes text, piece ≠ [] :=
  (h.graphemeSegmenter.partition text).texts_ne_nil

theorem WrapHost.pieces_ne_nil (h : WrapHost) (segments : List SegmentData) :
    ∀ piece ∈ h.pieces segments, piece ≠ [] := by
  intro piece hpiece
  obtain ⟨text, -, hmem⟩ := List.mem_flatMap.mp hpiece
  exact h.graphemes_ne_nil text piece hmem

theorem WrapHost.columns_append (h : WrapHost) (before after : List Text) :
    h.columns (before ++ after) = h.columns before + h.columns after := by simp [columns]

@[simp] theorem WrapHost.pieces_append (h : WrapHost) (before after : List SegmentData) :
    h.pieces (before ++ after) = h.pieces before ++ h.pieces after := by simp [WrapHost.pieces, textsOf]

/-- The segments cut the line; the width of each, such as a paste marker, adds up over its graphemes. -/
structure Measured (h : WrapHost) (line : Text) (segments : List SegmentData) : Prop where
  partition : Partition 0 line segments
  addsUp : ∀ seg ∈ segments, AddsUp h.visibleWidth (h.graphemes seg.segment)

/-- What the graphemes up to a position are wide. -/
def widthUpTo (h : WrapHost) (segments : List SegmentData) (p : Nat) : Nat :=
  sumUpTo h.visibleWidth (h.pieces segments) p

theorem widthUpTo_end (hsegments : segments = before ++ after) :
    widthUpTo h segments (endOf before) = h.columns (h.pieces before) := by
  have hne := h.pieces_ne_nil (before ++ after)
  rw [h.pieces_append] at hne
  rw [widthUpTo, hsegments, h.pieces_append, endOf, ← (h.graphemes_refine before).flatten]
  exact sumUpTo_between h.visibleWidth hne

theorem widthUpTo_mono {a b : Nat} (ha : Cut (h.pieces segments) a) (hb : Cut (h.pieces segments) b)
    (hle : a ≤ b) : widthUpTo h segments a ≤ widthUpTo h segments b := by
  obtain ⟨run, -, -, hsum⟩ := @Cut.slice _ h.visibleWidth _ (h.pieces_ne_nil segments) _ _ ha hb hle
  rw [widthUpTo, widthUpTo, ← hsum]
  exact Nat.le_add_right _ _

theorem widthUpTo_run (h : WrapHost) {run : List SegmentData}
    (hsegments : segments = before ++ run ++ after) :
    widthUpTo h segments (endOf before) + h.columns (h.pieces run) =
      widthUpTo h segments (endOf (before ++ run)) := by
  have hsplit : segments = before ++ (run ++ after) := by rw [hsegments, List.append_assoc]
  rw [widthUpTo_end hsplit, widthUpTo_end hsegments, h.pieces_append, h.columns_append]

/-- A chunk cut out between graphemes, whose widths fit side by side. -/
structure Narrow (h : WrapHost) (maxWidth : Nat) (pieces : List Text) (chunk : WrappedChunk) :
    Prop where
  opens : Cut pieces chunk.startIndex
  closes : Cut pieces chunk.endIndex
  fits : sumUpTo h.visibleWidth pieces chunk.endIndex ≤ sumUpTo h.visibleWidth pieces chunk.startIndex + maxWidth

namespace Measured
variable (hline : Measured h line segments)
include hline

theorem pieces_flatten : (h.pieces segments).flatten = line := by
  rw [WrapHost.pieces, (h.graphemes_refine segments).flatten, hline.partition.texts_flatten]

theorem cut_end : Cut (h.pieces segments) line.length := by
  have hcut := Cut.total (h.pieces segments)
  rwa [hline.pieces_flatten] at hcut

theorem index_eq {seg : SegmentData} (hsegments : segments = before ++ seg :: after) :
    seg.index = endOf before := by
  have hpart := hline.partition
  rw [hsegments] at hpart
  simpa using hpart.index_eq

theorem segment_pos {seg : SegmentData} (hmem : seg ∈ segments) : 0 < seg.segment.length :=
  List.length_pos_iff.mpr (hline.partition.texts_ne_nil _ (List.mem_map_of_mem hmem))

end Measured

/-! ## Places to break at -/

/-- A break opportunity of the line, as a position. -/
def OpportunityAt (h : WrapHost) (maxWidth : Nat) (segments : List SegmentData) (p : Nat) : Prop :=
  ∃ before after, segments = before ++ after ∧ p = endOf before ∧ Opportunity h maxWidth before after

/-- A break there splits no run that would fit. -/
def Breakable (h : WrapHost) (maxWidth : Nat) (segments : List SegmentData) (p : Nat) : Prop :=
  ∀ before run after, segments = before ++ run ++ after → IsRun h maxWidth before run after →
    h.columns (h.pieces run) ≤ maxWidth →
      ¬ (endOf before < p ∧ p < endOf (before ++ run))

theorem OpportunityAt.cut (hopp : OpportunityAt h maxWidth segments p) :
    Cut (h.pieces segments) p := by
  obtain ⟨before, after, hsegments, rfl, _⟩ := hopp
  exact cut_segments h hsegments

theorem OpportunityAt.breakable (hopp : OpportunityAt h maxWidth segments p) :
    Breakable h maxWidth segments p := by
  obtain ⟨front, back, hsegments, rfl, hopp⟩ := hopp
  rintro before run after hrun hisRun _ ⟨hlow, hhigh⟩
  -- the opportunity cuts the run into two parts
  obtain ⟨first, rfl⟩ : ∃ first, front = before ++ first := by
    have hboth : front ++ back = before ++ (run ++ after) := by
      rw [← hsegments, hrun, List.append_assoc]
    obtain ⟨more, hmore, _⟩ | ⟨more, hmore, _⟩ := List.append_eq_append_iff.mp hboth
    · rw [hmore, endOf_append] at hlow
      omega
    · exact ⟨more, hmore⟩
  obtain ⟨second, rfl⟩ : ∃ second, run = first ++ second := by
    have hboth : first ++ back = run ++ after := by
      have hall := hsegments.symm.trans hrun
      simpa using hall
    obtain ⟨more, hmore, _⟩ | ⟨more, hmore, _⟩ := List.append_eq_append_iff.mp hboth
    · exact ⟨more, hmore⟩
    · rw [hmore, endOf_append, endOf_append, endOf_append] at hhigh
      omega
  have hback : back = second ++ after := by
    have hall := hsegments.symm.trans hrun
    simpa using hall
  rw [hback] at hopp
  apply hisRun.between first second rfl _ _ hopp
  · rintro rfl
    simp at hlow
  · rintro rfl
    simp at hhigh

/-- Inside of a segment the widths of its graphemes count on. -/
theorem widthUpTo_inside {done rest : List SegmentData} {seg : SegmentData}
    (hsegments : segments = done ++ seg :: rest) (hp : Cut (h.graphemes seg.segment) p) :
    Cut (h.pieces segments) (endOf done + p) ∧
      widthUpTo h segments (endOf done + p) =
        widthUpTo h segments (endOf done) + sumUpTo h.visibleWidth (h.graphemes seg.segment) p := by
  obtain ⟨front, back, hgraphemes, rfl⟩ := hp
  have hpieces : h.pieces segments = (h.pieces done ++ front) ++ (back ++ h.pieces rest) := by
    simp [hsegments, WrapHost.pieces, textsOf, hgraphemes]
  have hposition : endOf done + front.flatten.length = (h.pieces done ++ front).flatten.length := by
    rw [List.flatten_append, List.length_append, WrapHost.pieces, (h.graphemes_refine done).flatten,
      endOf]
  have hne := h.pieces_ne_nil segments
  rw [hpieces] at hne
  have hfront : sumUpTo h.visibleWidth (front ++ back) front.flatten.length = h.columns front :=
    sumUpTo_between h.visibleWidth fun piece hpiece => hne piece (by simp at hpiece ⊢; tauto)
  constructor
  · rw [hpieces, hposition]
    exact Cut.between _ _
  · rw [widthUpTo_end hsegments, hgraphemes, hfront, ← h.columns_append, widthUpTo, hpieces,
      hposition]
    exact sumUpTo_between h.visibleWidth hne

theorem breakable_of_full {done rest : List SegmentData} {seg : SegmentData} {last : Nat}
    (hsegments : segments = done ++ seg :: rest)
    (hcut : Cut (h.pieces segments) last)
    (hlast : ∀ p, OpportunityAt h maxWidth segments p → p ≤ endOf done → p ≤ last)
    (hfull : widthUpTo h segments last + maxWidth < widthUpTo h segments (endOf (done ++ [seg]))) :
    Breakable h maxWidth segments (endOf done) := by
  rintro before run after hrun hisRun hfits ⟨hfront, hback⟩
  have hsplit : segments = before ++ (run ++ after) := by rw [hrun, List.append_assoc]
  have hopens : endOf before ≤ last := by
    obtain rfl | hopp := hisRun.opens
    · exact Nat.zero_le _
    · exact hlast _ ⟨before, run ++ after, hsplit, rfl, hopp⟩ hfront.le
  have hcloses : endOf (done ++ [seg]) ≤ endOf (before ++ run) := by
    have hends := end_le_or_ge hsegments hrun
    rw [endOf_append done, endOf_singleton]
    omega
  have hwidthRun := widthUpTo_run h hrun
  have hlower := widthUpTo_mono (cut_segments h hsplit) hcut hopens
  have hdone : segments = (done ++ [seg]) ++ rest := by simp [hsegments]
  have hupper := widthUpTo_mono (cut_segments h hdone) (cut_segments h hrun) hcloses
  omega

namespace Measured
variable (hline : Measured h line segments) {done rest : List SegmentData} {seg : SegmentData}
include hline

theorem width_segment (hsegments : segments = done ++ seg :: rest) :
    widthUpTo h segments (endOf done) + h.visibleWidth seg.segment =
      widthUpTo h segments (endOf (done ++ [seg])) := by
  have hrun := widthUpTo_run h (show segments = done ++ [seg] ++ rest by simp [hsegments])
  have hsum := hline.addsUp seg (by simp [hsegments]) _ (List.infix_refl _)
  rw [h.graphemes_flatten] at hsum
  simpa [WrapHost.pieces, textsOf, WrapHost.columns, hsum] using hrun

theorem breakable_of_wide (hsegments : segments = done ++ seg :: rest)
    (hwide : maxWidth < h.visibleWidth seg.segment) (hlow : endOf done ≤ p)
    (hhigh : p ≤ endOf (done ++ [seg])) : Breakable h maxWidth segments p := by
  rintro before run after hrun _ hfits ⟨hfront, hback⟩
  have hsplit : segments = before ++ (run ++ after) := by rw [hrun, List.append_assoc]
  rw [endOf_append, endOf_singleton] at hhigh
  have hopens : endOf before ≤ endOf done := by
    have hends := end_le_or_ge hsegments hsplit
    omega
  have hcloses : endOf (done ++ [seg]) ≤ endOf (before ++ run) := by
    have hends := end_le_or_ge hsegments hrun
    rw [endOf_append done, endOf_singleton]
    omega
  have hwidthRun := widthUpTo_run h hrun
  have hwidthSeg := hline.width_segment hsegments
  have hlower := widthUpTo_mono (cut_segments h hsplit) (cut_segments h hsegments) hopens
  have hdone : segments = (done ++ [seg]) ++ rest := by simp [hsegments]
  have hupper := widthUpTo_mono (cut_segments h hdone) (cut_segments h hrun) hcloses
  omega

end Measured

/-! ## Chunks side by side -/

theorem Tiles.append {start middle stop : Nat} {chunks more : List WrappedChunk}
    (h : Tiles line start chunks middle) (h' : Tiles line middle more stop) :
    Tiles line start (chunks ++ more) stop := by
  induction chunks generalizing start with
  | nil => rw [show start = middle from h]; exact h'
  | cons chunk chunks ih => exact ⟨h.1, h.2.1, h.2.2.1, ih h.2.2.2⟩

theorem Tiles.le {start : Nat} {chunks : List WrappedChunk} (h : Tiles line start chunks stop) :
    start ≤ stop := by
  induction chunks generalizing start with
  | nil => exact Nat.le_of_eq h
  | cons chunk chunks ih =>
    have hrest := ih h.2.2.2
    have hchunk := h.2.1
    omega

theorem Tiles.find {start : Nat} {chunks : List WrappedChunk} (h : Tiles line start chunks stop)
    (hlow : start ≤ p) (hhigh : p < stop) :
    ∃ chunk ∈ chunks, chunk.startIndex ≤ p ∧ p < chunk.endIndex := by
  induction chunks generalizing start with
  | nil =>
    have heq : start = stop := h
    omega
  | cons chunk chunks ih =>
    obtain ⟨hstart, _, _, hrest⟩ := h
    by_cases hin : p < chunk.endIndex
    · exact ⟨chunk, List.mem_cons_self, by omega, hin⟩
    · obtain ⟨other, hmem, hother⟩ := ih hrest (by omega)
      exact ⟨other, List.mem_cons_of_mem _ hmem, hother⟩

theorem Tiles.last {start : Nat} {chunks : List WrappedChunk} {last : WrappedChunk}
    (h : Tiles line start (chunks ++ [last]) stop) : Tiles line start chunks last.startIndex ∧
      last.startIndex ≤ last.endIndex ∧ last.endIndex = stop ∧
        last.text = Js.slice line last.startIndex last.endIndex := by
  induction chunks generalizing start with
  | nil =>
    obtain ⟨hstart, hle, htext, hstop⟩ := h
    exact ⟨hstart.symm, by omega, hstop, htext⟩
  | cons chunk chunks ih =>
    obtain ⟨hstart, hle, htext, hrest⟩ := h
    obtain ⟨htiles, hlast⟩ := ih hrest
    exact ⟨⟨hstart, hle, htext, htiles⟩, hlast⟩

theorem Tiles.shift {before part after : Text} {start : Nat} {chunks : List WrappedChunk}
    (h : Tiles part start chunks stop) (hline : line = before ++ part ++ after)
    (hstop : stop ≤ part.length) :
    Tiles line (before.length + start) (chunks.map fun sc =>
      ⟨sc.text, before.length + sc.startIndex, before.length + sc.endIndex⟩) (before.length + stop) := by
  induction chunks generalizing start with
  | nil => rw [show start = stop from h]; rfl
  | cons chunk chunks ih =>
    obtain ⟨rfl, hle, htext, hrest⟩ := h
    have hbound := hrest.le
    refine ⟨rfl, Nat.add_le_add_left hle _, ?_, ih hrest⟩
    dsimp only
    rw [htext, hline, Lib.slice_slice _ _ _ (hbound.trans hstop)]

theorem Tiles.text {start : Nat} {chunks : List WrappedChunk} (h : Tiles line start chunks stop) :
    ∀ chunk ∈ chunks, chunk.text = Js.slice line chunk.startIndex chunk.endIndex ∧
      chunk.startIndex ≤ chunk.endIndex := by
  induction chunks generalizing start with
  | nil => intro chunk hchunk; cases hchunk
  | cons first chunks ih =>
    obtain ⟨rfl, hle, htext, hrest⟩ := h
    intro chunk hchunk
    obtain rfl | hchunk := List.mem_cons.mp hchunk
    · exact ⟨htext, hle⟩
    · exact ih hrest chunk hchunk

theorem Tiles.endIndex_le {start : Nat} {chunks : List WrappedChunk}
    (h : Tiles line start chunks stop) : ∀ chunk ∈ chunks, chunk.endIndex ≤ stop := by
  induction chunks generalizing start with
  | nil => intro chunk hchunk; cases hchunk
  | cons first chunks ih =>
    intro chunk hchunk
    obtain rfl | hchunk := List.mem_cons.mp hchunk
    · exact h.2.2.2.le
    · exact ih h.2.2.2 chunk hchunk

/-! ## The loop -/

namespace WrapState

/-- The last opportunity that the loop can still break at. -/
def lastBreak (s : WrapState) : Nat := (s.wrapOpp.map WrapOpportunity.index).getD s.chunkStart

/-- The bookkeeping of the loop, behind the segments `done`. -/
structure Wraps (h : WrapHost) (line : Text) (maxWidth : Nat) (segments done : List SegmentData)
    (s : WrapState) : Prop where
  tiles : Tiles line 0 s.chunks s.chunkStart
  fits : ∀ chunk ∈ s.chunks, Narrow h maxWidth (h.pieces segments) chunk
  cut : Cut (h.pieces segments) s.chunkStart
  start_le : s.chunkStart ≤ endOf done
  width : widthUpTo h segments s.chunkStart + s.currentWidth = widthUpTo h segments (endOf done)
  width_le : s.currentWidth ≤ maxWidth
  opportunity : ∀ opp, s.wrapOpp = some opp → OpportunityAt h maxWidth segments opp.index ∧
    s.chunkStart ≤ opp.index ∧ opp.index ≤ endOf done ∧
      widthUpTo h segments s.chunkStart + opp.width = widthUpTo h segments opp.index
  last : ∀ p, OpportunityAt h maxWidth segments p → p ≤ endOf done → p ≤ s.lastBreak
  breaks : ∀ chunk ∈ s.chunks, Breakable h maxWidth segments chunk.endIndex

theorem start_wraps : start.Wraps h line maxWidth segments [] where
  tiles := rfl
  fits := by intro chunk hchunk; cases hchunk
  cut := Cut.zero _
  start_le := Nat.le_refl _
  width := rfl
  width_le := Nat.zero_le _
  opportunity := by intro opp hopp; cases hopp
  last := by intro p _ hle; exact hle
  breaks := by intro chunk hchunk; cases hchunk

namespace Wraps
variable {s : WrapState} {done rest : List SegmentData} {seg : SegmentData}

theorem breakAt (hw : s.Wraps h line maxWidth segments done) (hdone : segments = done ++ rest)
    {width : Nat} (hcut : Cut (h.pieces segments) stop) (hlow : s.chunkStart ≤ stop)
    (hhigh : stop ≤ endOf done) (hbreak : Breakable h maxWidth segments stop)
    (hwidth : widthUpTo h segments stop + width = widthUpTo h segments (endOf done))
    (hlast : ∀ p, OpportunityAt h maxWidth segments p → p ≤ endOf done → p ≤ stop) :
    (s.breakAt line stop width).Wraps h line maxWidth segments done := by
  have hupper := widthUpTo_mono hcut (cut_segments h hdone) hhigh
  have hold := hw.width
  have hfit := hw.width_le
  constructor
  · exact hw.tiles.append ⟨rfl, hlow, rfl, rfl⟩
  · intro chunk hchunk
    obtain hchunk | hchunk := List.mem_append.mp hchunk
    · exact hw.fits chunk hchunk
    · rw [List.mem_singleton.mp hchunk]
      exact ⟨hw.cut, hcut, show widthUpTo h segments stop ≤ widthUpTo h segments s.chunkStart + maxWidth by omega⟩
  · exact hcut
  · exact hhigh
  · exact hwidth
  · have hstart := widthUpTo_mono hw.cut hcut hlow
    show width ≤ maxWidth
    omega
  · intro opp hopp
    cases hopp
  · exact hlast
  · intro chunk hchunk
    obtain hchunk | hchunk := List.mem_append.mp hchunk
    · exact hw.breaks chunk hchunk
    · rw [List.mem_singleton.mp hchunk]
      exact hbreak

theorem lastBreak_cut (hw : s.Wraps h line maxWidth segments done) :
    Cut (h.pieces segments) s.lastBreak := by
  cases hopp : s.wrapOpp with
  | none => simpa [lastBreak, hopp] using hw.cut
  | some opp => simpa [lastBreak, hopp] using (hw.opportunity opp hopp).1.cut

theorem forceBreak (hw : s.Wraps h line maxWidth segments done)
    (hdone : segments = done ++ seg :: rest)
    (hfull : widthUpTo h segments s.lastBreak + maxWidth < widthUpTo h segments (endOf (done ++ [seg]))) :
    (s.forceBreak line (endOf done)).Wraps h line maxWidth segments done ∧
      (s.forceBreak line (endOf done)).currentWidth = 0 ∧
        (s.forceBreak line (endOf done)).chunkStart = endOf done := by
  have hbreak := breakable_of_full hdone hw.lastBreak_cut hw.last hfull
  have hstart := hw.start_le
  have hwidth := hw.width
  rw [WrapState.forceBreak]
  split
  · refine ⟨?_, rfl, rfl⟩
    exact hw.breakAt hdone (cut_segments h hdone) hstart (le_refl _) hbreak (Nat.add_zero _)
      fun p _ hle => hle
  · have heq : s.chunkStart = endOf done := by omega
    rw [heq] at hwidth
    refine ⟨?_, by show s.currentWidth = 0; omega, heq⟩
    exact { hw with
      opportunity := by intro opp hopp; cases hopp
      last := by intro p _ hle; exact hle.trans heq.ge }

/-- The overflow check leaves room for the segment, unless it fits nowhere. -/
theorem makeRoom (hw : s.Wraps h line maxWidth segments done) (hline : Measured h line segments)
    (hdone : segments = done ++ seg :: rest) {s' : WrapState}
    (hs' : s.makeRoom line maxWidth (endOf done) (h.visibleWidth seg.segment) = s') :
    s'.Wraps h line maxWidth segments done ∧
      (h.visibleWidth seg.segment ≤ maxWidth → s'.currentWidth + h.visibleWidth seg.segment ≤ maxWidth) ∧
      (maxWidth < h.visibleWidth seg.segment → s'.chunkStart = endOf done) := by
  have hsegment := hline.width_segment hdone
  have hwidth := hw.width
  subst hs'
  rw [WrapState.makeRoom]
  split
  case isFalse hroom => exact ⟨hw, fun _ => by omega, fun hwide => by omega⟩
  case isTrue hover =>
    -- a forced break makes room for whatever fits on a chunk
    have hforced : widthUpTo h segments s.lastBreak + maxWidth <
        widthUpTo h segments (endOf (done ++ [seg])) →
        (s.forceBreak line (endOf done)).Wraps h line maxWidth segments done ∧
        (h.visibleWidth seg.segment ≤ maxWidth →
          (s.forceBreak line (endOf done)).currentWidth + h.visibleWidth seg.segment ≤ maxWidth) ∧
        (maxWidth < h.visibleWidth seg.segment →
          (s.forceBreak line (endOf done)).chunkStart = endOf done) := by
      intro hfull
      obtain ⟨hwraps, hzero, hstart⟩ := hw.forceBreak hdone hfull
      exact ⟨hwraps, fun hfit => by omega, fun _ => hstart⟩
    cases hopp : s.wrapOpp with
    | none =>
      apply hforced
      have hlast : s.lastBreak = s.chunkStart := by simp [lastBreak, hopp]
      rw [hlast]
      omega
    | some opp =>
      obtain ⟨hat, hlow, hhigh, hbefore⟩ := hw.opportunity opp hopp
      have hlast : s.lastBreak = opp.index := by simp [lastBreak, hopp]
      have hupper := widthUpTo_mono hat.cut (cut_segments h hdone) hhigh
      dsimp only
      split
      · rename_i hfit
        refine ⟨?_, fun _ => hfit, fun hwide => by omega⟩
        apply hw.breakAt hdone hat.cut hlow hhigh hat.breakable
        · omega
        · intro p hp hle
          exact (hw.last p hp hle).trans hlast.le
      · apply hforced
        rw [hlast]
        omega

theorem opportunity_behind (hdone : segments = done ++ seg :: rest)
    (hopp : OpportunityAt h maxWidth segments p) (hline : Measured h line segments)
    (hlow : endOf done < p) (hhigh : p ≤ endOf (done ++ [seg])) :
    p = endOf (done ++ [seg]) ∧ h.visibleWidth seg.segment ≤ maxWidth ∧
      ∃ next, rest.head? = some next ∧ next.index = p ∧ h.isWrapOpportunity seg next := by
  obtain ⟨front, back, hsegments, rfl, first, other, next, more, rfl, rfl, hfits, hisOpp⟩ := hopp
  have hends := end_le_or_ge hdone hsegments
  have hend : endOf (first ++ [other]) = endOf (done ++ [seg]) := by
    simp only [endOf_append, endOf_singleton] at *
    omega
  -- the same position, so the same segments
  have hsame : first ++ [other] = done ++ [seg] := by
    have htexts : textsOf segments = textsOf (first ++ [other]) ++ textsOf (next :: more) := by
      rw [hsegments, textsOf, List.map_append]
      rfl
    have htexts' : textsOf segments = textsOf (done ++ [seg]) ++ textsOf rest := by
      simp [hdone, textsOf]
    have hunique := (Cut.before_unique hline.partition.texts_ne_nil htexts htexts' hend).1
    have hlength : (first ++ [other]).length = (done ++ [seg]).length := by
      simpa [textsOf] using congrArg List.length hunique
    have hall : (first ++ [other]) ++ next :: more = (done ++ [seg]) ++ rest := by
      rw [← hsegments, hdone]
      simp
    exact (List.append_inj hall hlength).1
  obtain ⟨rfl, hother⟩ := List.append_inj' hsame rfl
  cases hother
  have hrest : rest = next :: more := by
    have hall := hdone.symm.trans hsegments
    simpa using hall
  refine ⟨hend, hfits, next, by simp [hrest], ?_, hisOpp⟩
  exact hline.index_eq hsegments

/-- A segment that fits is taken. -/
theorem advance (hw : s.Wraps h line maxWidth segments done) (hline : Measured h line segments)
    (hdone : segments = done ++ seg :: rest)
    (hroom : s.currentWidth + h.visibleWidth seg.segment ≤ maxWidth) :
    (s.advance h seg rest.head? (h.visibleWidth seg.segment)).Wraps h line maxWidth segments
      (done ++ [seg]) := by
  have hsegment := hline.width_segment hdone
  have hwidth := hw.width
  have hstart := hw.start_le
  have hend : endOf done ≤ endOf (done ++ [seg]) := by simp
  have hold : ∀ opp, s.wrapOpp = some opp → OpportunityAt h maxWidth segments opp.index ∧
      s.chunkStart ≤ opp.index ∧ opp.index ≤ endOf (done ++ [seg]) ∧
        widthUpTo h segments s.chunkStart + opp.width = widthUpTo h segments opp.index := by
    intro opp hopp
    obtain ⟨hat, hlow, hhigh, hbefore⟩ := hw.opportunity opp hopp
    exact ⟨hat, hlow, hhigh.trans hend, hbefore⟩
  simp only [WrapState.advance]
  cases hnext : rest.head? with
  | none =>
    refine ⟨hw.tiles, hw.fits, hw.cut, hstart.trans hend, ?_, hroom, hold, ?_, hw.breaks⟩
    · show widthUpTo h segments s.chunkStart + (s.currentWidth + h.visibleWidth seg.segment) = _
      omega
    · intro p hp hle
      by_cases hlow : p ≤ endOf done
      · exact hw.last p hp hlow
      · obtain ⟨_, _, next, hhead, _⟩ := opportunity_behind hdone hp hline (by omega) hle
        rw [hnext] at hhead
        cases hhead
  | some next =>
    have hcons : ∃ back, rest = next :: back := List.head?_eq_some_iff.mp hnext
    obtain ⟨back, rfl⟩ := hcons
    have hdone' : segments = (done ++ [seg]) ++ next :: back := by simp [hdone]
    have hindex := hline.index_eq hdone'
    refine ⟨hw.tiles, hw.fits, hw.cut, hstart.trans hend, ?_, hroom, ?_, ?_, hw.breaks⟩
    · show widthUpTo h segments s.chunkStart + (s.currentWidth + h.visibleWidth seg.segment) = _
      omega
    · intro opp hopp
      dsimp only at hopp
      split at hopp
      · rename_i hisOpp
        cases hopp
        refine ⟨?_, ?_, hindex.le, ?_⟩
        · have hfits : h.visibleWidth seg.segment ≤ maxWidth := by omega
          exact ⟨done ++ [seg], next :: back, hdone', hindex, done, seg, next, back, rfl, rfl,
            hfits, hisOpp⟩
        · show s.chunkStart ≤ next.index
          omega
        · show widthUpTo h segments s.chunkStart + (s.currentWidth + h.visibleWidth seg.segment) =
            widthUpTo h segments next.index
          rw [hindex]
          omega
      · exact hold opp hopp
    · intro p hp hle
      by_cases hlow : p ≤ endOf done
      · have hlast := hw.last p hp hlow
        simp only [lastBreak] at hlast ⊢
        split
        · show p ≤ next.index
          omega
        · exact hlast
      · obtain ⟨_, _, other, hhead, hother, hisOpp⟩ :=
          opportunity_behind hdone hp hline (by omega) hle
        cases hhead
        simp only [lastBreak, hisOpp, if_true]
        exact hother.ge

end Wraps

/-- A text wrapped by itself. -/
structure Rewrapped (h : WrapHost) (maxWidth : Nat) (text : Text) (chunks : List WrappedChunk) :
    Prop where
  tiles : Tiles text 0 chunks text.length
  narrow : ∀ chunk ∈ chunks, Narrow h maxWidth (h.graphemes text) chunk

namespace Wraps
variable {s : WrapState} {done rest : List SegmentData} {seg : SegmentData}

/-- A segment that does not fit at all is wrapped by itself. -/
theorem rewrapped (hw : s.Wraps h line maxWidth segments done) (hline : Measured h line segments)
    (hdone : segments = done ++ seg :: rest) (hwide : maxWidth < h.visibleWidth seg.segment)
    (hstart : s.chunkStart = endOf done) {subChunks : List WrappedChunk}
    (hsub : Rewrapped h maxWidth seg.segment subChunks) :
    (s.rewrapped h (endOf done) subChunks).Wraps h line maxWidth segments (done ++ [seg]) := by
  have hseg : seg ∈ segments := by simp [hdone]
  have hpos : 0 < seg.segment.length := hline.segment_pos hseg
  obtain rfl | ⟨init, last, rfl⟩ := List.eq_nil_or_concat subChunks
  · have hempty : 0 = seg.segment.length := hsub.tiles
    omega
  rw [List.concat_eq_append] at hsub ⊢
  obtain ⟨hinit, hlastLe, hlastEnd, hlastText⟩ := hsub.tiles.last
  have hsplit : line = (textsOf done).flatten ++ seg.segment ++ (textsOf rest).flatten := by
    rw [← hline.partition.texts_flatten, hdone]
    simp [textsOf]
  have hend : endOf (done ++ [seg]) = endOf done + seg.segment.length := by simp
  have hlast := hsub.narrow last (by simp)
  obtain ⟨hcut, hopens⟩ := widthUpTo_inside hdone hlast.opens
  obtain ⟨back, hback, hslice, hsum⟩ :=
    @Cut.slice _ h.visibleWidth _ (h.graphemes_ne_nil seg.segment) _ _
    hlast.opens hlast.closes hlastLe
  rw [h.graphemes_flatten, ← hlastText] at hslice
  -- the last chunk is as wide as its graphemes
  have hwidth : h.visibleWidth last.text = (back.map h.visibleWidth).sum := by
    rw [hslice]
    exact hline.addsUp seg hseg back hback
  have hcloses := (widthUpTo_inside hdone hlast.closes).2
  rw [hlastEnd, ← hend] at hcloses
  have hfits := hlast.fits
  have hshift : Tiles line (endOf done) (init.map fun sc =>
      ⟨sc.text, endOf done + sc.startIndex, endOf done + sc.endIndex⟩) (endOf done + last.startIndex) :=
    hinit.shift hsplit (by omega)
  simp only [WrapState.rewrapped, List.getLast?_concat, List.dropLast_concat]
  constructor
  · exact (hstart ▸ hw.tiles).append hshift
  · intro chunk hchunk
    obtain hchunk | hchunk := List.mem_append.mp hchunk
    · exact hw.fits chunk hchunk
    · obtain ⟨sc, hsc, rfl⟩ := List.mem_map.mp hchunk
      have hnarrow := hsub.narrow sc (by simp [hsc])
      obtain ⟨hopens, hstart⟩ := widthUpTo_inside hdone hnarrow.opens
      obtain ⟨hcloses, hstop⟩ := widthUpTo_inside hdone hnarrow.closes
      have hfits := hnarrow.fits
      have hnarrowed : widthUpTo h segments (endOf done + sc.endIndex) ≤
          widthUpTo h segments (endOf done + sc.startIndex) + maxWidth := by omega
      exact ⟨hopens, hcloses, hnarrowed⟩
  · exact hcut
  · rw [hend]
    dsimp only
    omega
  · show widthUpTo h segments (endOf done + last.startIndex) + h.visibleWidth last.text = _
    rw [hcloses, hopens, hwidth, Nat.add_assoc, hsum, hlastEnd]
  · show h.visibleWidth last.text ≤ maxWidth
    omega
  · intro opp hopp
    cases hopp
  · intro p hp hle
    show p ≤ endOf done + last.startIndex
    by_cases hlow : p ≤ endOf done
    · omega
    · obtain ⟨_, hfits, _⟩ := opportunity_behind hdone hp hline (by omega) hle
      omega
  · intro chunk hchunk
    obtain hchunk | hchunk := List.mem_append.mp hchunk
    · exact hw.breaks chunk hchunk
    · obtain ⟨sc, hsc, rfl⟩ := List.mem_map.mp hchunk
      have hbound := hinit.endIndex_le sc hsc
      apply hline.breakable_of_wide hdone hwide
      · dsimp only
        omega
      · rw [hend]
        dsimp only
        omega

variable {rewrap : Text → Option (List WrappedChunk)}

/-- One segment keeps the bookkeeping. -/
theorem wrapSegment (hw : s.Wraps h line maxWidth segments done) (hline : Measured h line segments)
    (hdone : segments = done ++ seg :: rest)
    (hrewrap : maxWidth < h.visibleWidth seg.segment →
      ∃ subChunks, rewrap seg.segment = some subChunks ∧ Rewrapped h maxWidth seg.segment subChunks) :
    ∃ s', s.wrapSegment h rewrap line maxWidth seg rest.head? = some s' ∧
      s'.Wraps h line maxWidth segments (done ++ [seg]) := by
  obtain ⟨hroomy, hfits, hwide⟩ := hw.makeRoom hline hdone rfl
  simp only [WrapState.wrapSegment, hline.index_eq hdone]
  split
  · rename_i hover
    obtain ⟨subChunks, hsome, hsub⟩ := hrewrap hover
    rw [hsome]
    exact ⟨_, rfl, hroomy.rewrapped hline hdone hover (hwide hover) hsub⟩
  · rename_i hfit
    exact ⟨_, rfl, hroomy.advance hline hdone (hfits (by omega))⟩

theorem wrapLoop (hw : s.Wraps h line maxWidth segments done) (hline : Measured h line segments)
    (hdone : segments = done ++ rest)
    (hrewrap : ∀ seg ∈ rest, maxWidth < h.visibleWidth seg.segment →
      ∃ subChunks, rewrap seg.segment = some subChunks ∧ Rewrapped h maxWidth seg.segment subChunks) :
    ∃ s', s.wrapLoop h rewrap line maxWidth rest = some s' ∧
      s'.Wraps h line maxWidth segments segments := by
  induction rest generalizing done s with
  | nil => exact ⟨s, rfl, by rw [List.append_nil] at hdone; rwa [hdone] at hw ⊢⟩
  | cons seg rest ih =>
    obtain ⟨s₁, hstep, hw₁⟩ := hw.wrapSegment hline hdone (hrewrap seg List.mem_cons_self)
    obtain ⟨s', hloop, hw'⟩ := ih hw₁ (by simp [hdone]) fun other hother =>
      hrewrap other (List.mem_cons_of_mem _ hother)
    refine ⟨s', ?_, hw'⟩
    rw [WrapState.wrapLoop, hstep]
    exact hloop

end Wraps

end WrapState

/-! ## The whole line -/

theorem sliceFrom_natCast {l : Text} {a : Nat} (ha : a ≤ l.length) :
    sliceFrom l a = Js.slice l a l.length := by
  rw [slice_natCast _ (le_refl _), List.take_length, sliceFrom, sliceIndex_natCast,
    Nat.min_eq_left ha]

namespace WrapState
variable {s : WrapState}

theorem Wraps.finish_tiles (hw : s.Wraps h line maxWidth segments segments)
    (hline : Measured h line segments) : Tiles line 0 (s.finish line) line.length := by
  have hle : s.chunkStart ≤ line.length := by
    have hcut := hw.cut.le_total
    rwa [hline.pieces_flatten] at hcut
  exact hw.tiles.append ⟨rfl, hle, sliceFrom_natCast hle, rfl⟩

theorem Wraps.finish_narrow (hw : s.Wraps h line maxWidth segments segments)
    (hline : Measured h line segments) :
    ∀ chunk ∈ s.finish line, Narrow h maxWidth (h.pieces segments) chunk := by
  have hend : endOf segments = line.length := by rw [endOf, hline.partition.texts_flatten]
  have hcurrent := hw.width
  have hfit := hw.width_le
  rw [hend] at hcurrent
  intro chunk hchunk
  obtain hchunk | hchunk := List.mem_append.mp hchunk
  · exact hw.fits chunk hchunk
  · rw [List.mem_singleton.mp hchunk]
    refine ⟨hw.cut, hline.cut_end, ?_⟩
    show widthUpTo h segments line.length ≤ widthUpTo h segments s.chunkStart + maxWidth
    omega

/-- A run that is not split fits side by side. -/
theorem Wraps.finish_runsFit (hw : s.Wraps h line maxWidth segments segments)
    (hline : Measured h line segments)
    (hwell : WellWrapped h line maxWidth segments (s.finish line)) : RunsFit h maxWidth segments := by
  intro before run after hrun hisRun hfits
  obtain ⟨chunk, hchunk, hlow, hhigh⟩ := hwell.keepsRuns before run after hrun hisRun hfits
  have hnarrow := hw.finish_narrow hline chunk hchunk
  have hsplit : segments = before ++ (run ++ after) := by rw [hrun, List.append_assoc]
  have hopens := widthUpTo_mono hnarrow.opens (cut_segments h hsplit) hlow
  have hcloses := widthUpTo_mono (cut_segments h hrun) hnarrow.closes hhigh
  have hwidth := widthUpTo_run h hrun
  have hnarrowFits : widthUpTo h segments chunk.endIndex ≤
      widthUpTo h segments chunk.startIndex + maxWidth :=
    hnarrow.fits
  omega

end WrapState

theorem WrapHost.pieces_segment (h : WrapHost) (text : Text) :
    h.pieces (h.graphemeSegmenter.segment text) = h.graphemes text := by
  rw [WrapHost.pieces, WrapHost.graphemes, textsOf, List.flatMap_map, List.map_eq_flatMap]
  exact List.flatMap_congr fun seg hseg => h.alone text seg hseg

/-- A text cut into its graphemes. -/
theorem WrapHost.measured (h : WrapHost) (text : Text) :
    Measured h text (h.graphemeSegmenter.segment text) where
  partition := h.graphemeSegmenter.partition text
  addsUp := by
    intro seg hseg
    have halone : h.graphemes seg.segment = [seg.segment] := h.alone text seg hseg
    rw [halone]
    exact h.addsUp_grapheme _

theorem WrapState.wraps_line {rewrap : Text → Option (List WrappedChunk)}
    (hline : Measured h line segments)
    (hrewrap : ∀ seg ∈ segments, maxWidth < h.visibleWidth seg.segment →
      ∃ subChunks, rewrap seg.segment = some subChunks ∧ Rewrapped h maxWidth seg.segment subChunks) :
    ∃ s, start.wrapLoop h rewrap line maxWidth segments = some s ∧ s.Wraps h line maxWidth segments segments :=
  start_wraps.wrapLoop hline rfl hrewrap

theorem wordWrapLine_long {fuel : Nat} {preSegmented : Option (List SegmentData)}
    (hmaxWidth : 0 < maxWidth)
    (hlong : maxWidth < h.visibleWidth line) :
    wordWrapLine h (fuel + 1) line maxWidth preSegmented =
      (WrapState.wrapLoop h (fun grapheme => wordWrapLine h fuel grapheme maxWidth none) line maxWidth .start
        (h.segmentsOf line preSegmented)).map fun s => s.finish line := by
  have hne : line ≠ [] := by
    rintro rfl
    exact Nat.not_lt_zero _ hlong
  rw [wordWrapLine, if_neg (by simp only [hne, false_or]; omega), if_neg (by omega)]

theorem wordWrapLine_rewrapped (fuel : Nat) {text : Text} (hmaxWidth : 0 < maxWidth)
    (hfit : ∀ grapheme ∈ h.graphemes text, h.visibleWidth grapheme ≤ maxWidth)
    (hwide : maxWidth < h.visibleWidth text) :
    ∃ chunks, wordWrapLine h (fuel + 1) text maxWidth none = some chunks ∧
      WrapState.Rewrapped h maxWidth text chunks := by
  have hline := h.measured text
  obtain ⟨s, hloop, hw⟩ : ∃ s, WrapState.start.wrapLoop h
      (fun grapheme => wordWrapLine h fuel grapheme maxWidth none) text maxWidth
      (h.graphemeSegmenter.segment text) = some s ∧ s.Wraps h text maxWidth
        (h.graphemeSegmenter.segment text) (h.graphemeSegmenter.segment text) := by
    apply WrapState.wraps_line hline
    intro seg hseg hover
    have hle := hfit seg.segment (List.mem_map_of_mem hseg)
    omega
  refine ⟨s.finish text, ?_, hw.finish_tiles hline, ?_⟩
  · rw [wordWrapLine_long hmaxWidth hwide, h.segmentsOf_none, hloop]
    rfl
  · have hnarrow := hw.finish_narrow hline
    rwa [h.pieces_segment] at hnarrow

end Positions

section Wrapping
variable {h : WrapHost} {line : Text} {maxWidth : Nat} {segments : List SegmentData}
variable {preSegmented : Option (List SegmentData)}

theorem GraphemesFit.segment (hfit : GraphemesFit h maxWidth segments) {seg : SegmentData}
    (hseg : seg ∈ segments) :
    ∀ grapheme ∈ h.graphemes seg.segment, h.visibleWidth grapheme ≤ maxWidth :=
  fun grapheme hgrapheme => hfit grapheme ((h.graphemes_infix hseg).subset hgrapheme)

theorem WrapState.wrapLoop_none {rewrap : Text → Option (List WrappedChunk)} {s : WrapState}
    {rest : List SegmentData} {seg : SegmentData} (hseg : seg ∈ rest)
    (hwide : maxWidth < h.visibleWidth seg.segment) (hnone : rewrap seg.segment = none) :
    s.wrapLoop h rewrap line maxWidth rest = none := by
  induction rest generalizing s with
  | nil => cases hseg
  | cons first rest ih =>
    rw [WrapState.wrapLoop]
    obtain rfl | hseg := List.mem_cons.mp hseg
    · have hstep : s.wrapSegment h rewrap line maxWidth seg rest.head? = none := by
        simp only [WrapState.wrapSegment, if_pos hwide, hnone, Option.map_none]
      rw [hstep]
      rfl
    · cases s.wrapSegment h rewrap line maxWidth first rest.head? with
      | none => rfl
      | some s' => exact ih hseg

/-- A grapheme that does not fit is its own and only segment, for ever. -/
theorem wordWrapLine_overflows (hmaxWidth : 0 < maxWidth) (fuel : Nat) {text grapheme : Text}
    (hadd : AddsUp h.visibleWidth (h.graphemes text)) (hmem : grapheme ∈ h.graphemes text)
    (hwide : maxWidth < h.visibleWidth grapheme) : wordWrapLine h fuel text maxWidth none = none := by
  induction fuel generalizing text with
  | zero => rfl
  | succ fuel ih =>
    have hle := hadd.mem_le hmem
    rw [h.graphemes_flatten] at hle
    obtain ⟨seg, hseg, rfl⟩ := List.mem_map.mp hmem
    have halone : h.graphemes seg.segment = [seg.segment] := h.alone text seg hseg
    have hagain : wordWrapLine h fuel seg.segment maxWidth none = none := by
      apply ih _ (by simp [halone])
      rw [halone]
      exact h.addsUp_grapheme _
    rw [wordWrapLine_long hmaxWidth (hwide.trans_le hle), h.segmentsOf_none,
      WrapState.wrapLoop_none hseg hwide hagain]
    rfl

/-- A long line that is wrapped well. -/
theorem WrapsWell.fits (hmaxWidth : 0 < maxWidth)
    (hline : Measured h line (h.segmentsOf line preSegmented))
    (hwraps : WrapsWell h line maxWidth preSegmented) (hlong : maxWidth < h.visibleWidth line) :
    GraphemesFit h maxWidth (h.segmentsOf line preSegmented) ∧
      RunsFit h maxWidth (h.segmentsOf line preSegmented) := by
  obtain ⟨fuel, chunks, hreturns, hwell⟩ := hwraps
  cases fuel with
  | zero => cases hreturns
  | succ fuel =>
    rw [wordWrapLine_long hmaxWidth hlong] at hreturns
    generalize h.segmentsOf line preSegmented = segments at hline hwell hreturns ⊢
    have hfit : GraphemesFit h maxWidth segments := by
      intro grapheme hgrapheme
      by_contra hwide
      rw [not_le] at hwide
      obtain ⟨piece, hpiece, hmem⟩ := List.mem_flatMap.mp hgrapheme
      obtain ⟨seg, hseg, rfl⟩ := List.mem_map.mp hpiece
      have hadd := hline.addsUp seg hseg
      have hsegment := hadd.mem_le hmem
      rw [h.graphemes_flatten] at hsegment
      have hagain := wordWrapLine_overflows hmaxWidth fuel hadd hmem hwide
      rw [WrapState.wrapLoop_none hseg (hwide.trans_le hsegment) hagain] at hreturns
      cases hreturns
    refine ⟨hfit, ?_⟩
    obtain ⟨s, hloop, hw⟩ : ∃ s, WrapState.start.wrapLoop h
        (fun grapheme => wordWrapLine h fuel grapheme maxWidth none) line maxWidth segments = some s ∧
          s.Wraps h line maxWidth segments segments := by
      apply WrapState.wraps_line hline
      intro seg hseg hover
      cases fuel with
      | zero =>
        rw [WrapState.wrapLoop_none hseg hover rfl] at hreturns
        cases hreturns
      | succ fuel => exact wordWrapLine_rewrapped fuel hmaxWidth (hfit.segment hseg) hover
    rw [hloop] at hreturns
    cases hreturns
    exact hw.finish_runsFit hline (hwell hfit)

end Wrapping

section Examples

/-- One grapheme for each code unit. -/
def unitSegments : Nat → Text → List SegmentData
  | _, [] => []
  | index, c :: rest => ⟨[c], index, false⟩ :: unitSegments (index + 1) rest

theorem unitSegments_partition (start : Nat) (text : Text) :
    Partition start text (unitSegments start text) := by
  induction text generalizing start with
  | nil => rfl
  | cons c rest ih => exact ⟨rfl, List.cons_ne_nil _ _, rest, rfl, ih _⟩

def unitSegmenter : Segmenter where
  segment := unitSegments 0
  partition := unitSegments_partition 0

end Examples

end PieLab.Tui

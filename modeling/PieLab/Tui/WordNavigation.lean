import Mathlib.Algebra.Ring.Int.Defs
import PieLab.Messages
import PieLab.Tui.Segments

/-
  Words and the kill ring

  Where a word ends, over the segments of a text, and the ring of killed texts.

  Correspondence (TypeScript ↔ Lean):
    packages/tui/src/utils.ts             isWhitespaceChar, PUNCTUATION_REGEX ↔ `isWhitespaceChar`, `isPunctuation`
    packages/tui/src/word-navigation.ts   findWordBackward, findWordForward   ↔ the same
    packages/tui/src/kill-ring.ts         KillRing                            ↔ `KillRing`
-/

open PieLab.Lib.Js

namespace PieLab.Tui

/-! ## Characters -/

/-- A code unit that `\\s` matches; they are all in the first plane. -/
def isSpaceUnit (c : UInt16) : Bool := isJsSpace (Char.ofNat c.toNat)

/-- `/\s/.test(char)` -/
def isWhitespaceChar (char : Text) : Bool := char.any isSpaceUnit

/-- `text.trim()` -/
def trimText (text : Text) : Text :=
  ((text.dropWhile isSpaceUnit).reverse.dropWhile isSpaceUnit).reverse

/-- `PUNCTUATION_REGEX`, for one code unit. -/
def isPunctuation (c : UInt16) : Bool :=
  (ascii "()\x7b\x7d[]<>.,;:'\"!?+-=*/\\|&%^$#@~\x60").contains c

/-! ## Words -/

/-- A segment that the loops over white space leave out. -/
def isSpaceSegment (seg : SegmentData) : Bool :=
  !isPasteMarker seg.segment && isWhitespaceChar seg.segment

/-- A segment of a run of punctuation. -/
def isSymbolSegment (seg : SegmentData) : Bool :=
  !isPasteMarker seg.segment && !seg.isWordLike && !isWhitespaceChar seg.segment

def segmentsLength (segments : List SegmentData) : Int :=
  (segments.map fun seg => (seg.segment.length : Int)).sum

/-- `findWordBackward`; `segments` are those of the text before the cursor. -/
def findWordBackward (segments : Text → List SegmentData) (text : Text) (cursor : Int) : Int :=
  if cursor ≤ 0 then 0
  else
    let back := (segments (slice text 0 cursor)).reverse
    let spaces := back.takeWhile isSpaceSegment
    let newCursor := cursor - segmentsLength spaces
    match back.dropWhile isSpaceSegment with
    | [] => newCursor
    | last :: rest =>
      if isPasteMarker last.segment then newCursor - last.segment.length
      else if last.isWordLike then
        -- back to the last punctuation inside of it
        newCursor - (last.segment.reverse.takeWhile (!isPunctuation ·)).length
      else newCursor - segmentsLength ((last :: rest).takeWhile isSymbolSegment)

/-- `findWordForward`; `segments` are those of the text after the cursor. -/
def findWordForward (segments : Text → List SegmentData) (text : Text) (cursor : Int) : Int :=
  if (text.length : Int) ≤ cursor then text.length
  else
    let front := segments (sliceFrom text cursor)
    let newCursor := cursor + segmentsLength (front.takeWhile isSpaceSegment)
    match front.dropWhile isSpaceSegment with
    | [] => newCursor
    | next :: rest =>
      if isPasteMarker next.segment then newCursor + next.segment.length
      else if next.isWordLike then
        newCursor + (next.segment.takeWhile (!isPunctuation ·)).length
      else newCursor + segmentsLength ((next :: rest).takeWhile isSymbolSegment)

/-! ## The kill ring -/

/-- The killed texts, the last one in front. -/
abbrev KillRing := List Text

def KillRing.push (ring : KillRing) (text : Text) (prepend accumulate : Bool) : KillRing :=
  if text = [] then ring
  else
    match accumulate, ring with
    | true, last :: older => (if prepend then text ++ last else last ++ text) :: older
    | _, ring => text :: ring

/-- The last one goes behind the oldest. -/
def KillRing.rotate : KillRing → KillRing
  | last :: older :: rest => (older :: rest) ++ [last]
  | ring => ring

end PieLab.Tui

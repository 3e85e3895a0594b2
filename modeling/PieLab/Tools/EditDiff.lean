import PieLab.Hashline.Format
import PieLab.Lib.Checks
import PieLab.Lib.Scan

/-
  Text replacements

  Replacement edits on the LF-normalized text of a file: each old text is looked
  for as it is, and else in a form that evens out white space, quotes and dashes.
  Texts are lists of characters, and indices count characters.

  Correspondence (TypeScript ↔ Lean): the names of
  packages/coding-agent/src/core/tools/edit-diff.ts. Unicode normalization is a
  parameter.
-/

namespace PieLab

open Lib

/-! ## Line endings -/

/-- `content.indexOf(pattern)` -/
def indexOf (pattern : List Char) : List Char → Option Nat
  | [] => if pattern = [] then some 0 else none
  | c :: rest =>
    if pattern.isPrefixOf (c :: rest) then some 0 else (indexOf pattern rest).map (· + 1)

inductive LineEnding where
  | crlf | lf
  deriving DecidableEq, Repr

def detectLineEnding (content : List Char) : LineEnding :=
  match indexOf ['\r', '\n'] content, indexOf ['\n'] content with
  | some crlfIdx, some lfIdx => if crlfIdx < lfIdx then .crlf else .lf
  | _, _ => .lf

def normalizeToLF (text : List Char) : List Char := replaceCr (replaceCrLf text)

def restoreLineEndings (text : List Char) : LineEnding → List Char
  | .crlf => text.flatMap fun c => if c = '\n' then ['\r', '\n'] else [c]
  | .lf => text

/-- The byte order mark, if there is one, and the text without it. -/
def stripBom : List Char → List Char × List Char
  | [] => ([], [])
  | c :: rest => if c = '\uFEFF' then ([c], rest) else ([], c :: rest)

/-! ## Fuzzy matching -/

/-- `[‘’‚‛]`, `[“”„‟]`, dashes and special spaces by their ASCII characters. -/
def asciiOf (c : Char) : Char :=
  let n := c.toNat
  if 0x2018 ≤ n ∧ n ≤ 0x201B then '\''
  else if 0x201C ≤ n ∧ n ≤ 0x201F then '"'
  else if (0x2010 ≤ n ∧ n ≤ 0x2015) ∨ n = 0x2212 then '-'
  else if n = 0xA0 ∨ (0x2002 ≤ n ∧ n ≤ 0x200A) ∨ n = 0x202F ∨ n = 0x205F ∨ n = 0x3000 then ' '
  else c

def trimEnd (line : List Char) : List Char := (line.reverse.dropWhile isJsSpace).reverse

def normalizeForFuzzyMatch (nfkc : List Char → List Char) (text : List Char) : List Char :=
  (['\n'].intercalate (((nfkc text).splitOn '\n').map trimEnd)).map asciiOf

structure FuzzyMatchResult where
  index : Nat
  matchLength : Nat
  usedFuzzyMatch : Bool
  deriving DecidableEq, Repr

def fuzzyFindText (nfkc : List Char → List Char) (content oldText : List Char) :
    Option FuzzyMatchResult :=
  match indexOf oldText content with
  | some index => some { index, matchLength := oldText.length, usedFuzzyMatch := false }
  | none =>
    let fuzzyOldText := normalizeForFuzzyMatch nfkc oldText
    (indexOf fuzzyOldText (normalizeForFuzzyMatch nfkc content)).map fun index =>
      { index, matchLength := fuzzyOldText.length, usedFuzzyMatch := true }

/-- The occurrences from left to right that do not overlap; `skip` characters are taken. -/
def countFrom (pattern : List Char) : List Char → Nat → Nat
  | [], _ => 0
  | _ :: rest, skip + 1 => countFrom pattern rest skip
  | c :: rest, 0 =>
    if pattern.isPrefixOf (c :: rest) then 1 + countFrom pattern rest (pattern.length - 1)
    else countFrom pattern rest 0

/-- `content.split(pattern).length - 1`; an empty pattern splits every character off. -/
def splitCount (pattern content : List Char) : Nat :=
  if pattern = [] then (content.map utf16Size).sum - 1 else countFrom pattern content 0

def countOccurrences (nfkc : List Char → List Char) (content oldText : List Char) : Nat :=
  splitCount (normalizeForFuzzyMatch nfkc oldText) (normalizeForFuzzyMatch nfkc content)

/-! ## Replacements -/

structure TextReplacement where
  editIndex : Nat
  matchIndex : Nat
  matchLength : Nat
  newText : List Char
  deriving DecidableEq, Repr

/-- The replacements are applied from the last to the first. -/
def applyReplacements (content : List Char) (replacements : List TextReplacement) (offset : Nat) :
    List Char :=
  replacements.reverse.foldl (fun result r =>
    result.take (r.matchIndex - offset) ++ r.newText ++
      result.drop (r.matchIndex - offset + r.matchLength)) content

/-- The lines with their line ends: `/[^\n]*\n|[^\n]+/g` -/
def splitLinesWithEndings : List Char → List (List Char)
  | [] => []
  | c :: rest =>
    if c = '\n' then ['\n'] :: splitLinesWithEndings rest
    else match splitLinesWithEndings rest with
      | [] => [[c]]
      | line :: lines => (c :: line) :: lines

structure LineSpan where
  start : Nat
  stop : Nat
  deriving DecidableEq, Repr

def lineSpans (offset : Nat) : List (List Char) → List LineSpan
  | [] => []
  | line :: rest =>
    { start := offset, stop := offset + line.length } :: lineSpans (offset + line.length) rest

def getLineSpans (content : List Char) :
    List LineSpan := lineSpans 0 (splitLinesWithEndings content)

def outsideBase : String := "Replacement range is outside the base content."

/-- The first and the end line a replacement touches. -/
def getReplacementLineRange (lines : List LineSpan) (r : TextReplacement) :
    Except String (Nat × Nat) :=
  match lines.findIdx? fun line => line.start ≤ r.matchIndex && r.matchIndex < line.stop with
  | none => .error outsideBase
  | some startLine =>
    match (lines.drop startLine).findIdx? fun line => r.matchIndex + r.matchLength ≤ line.stop with
    | none => .error outsideBase
    | some more => .ok (startLine, startLine + more + 1)

structure ReplacementGroup where
  startLine : Nat
  endLine : Nat
  replacements : List TextReplacement
  deriving DecidableEq, Repr

/-- Replacements that touch a common line go together. -/
def groupReplacements (lines : List LineSpan) :
    List TextReplacement → List ReplacementGroup → Except String (List ReplacementGroup)
  | [], groups => .ok groups
  | r :: rest, groups => do
    let (startLine, endLine) ← getReplacementLineRange lines r
    let next := match groups.getLast? with
      | some current =>
        if startLine < current.endLine then
          groups.dropLast ++ [{ current with
            endLine := max current.endLine endLine
            replacements := current.replacements ++ [r] }]
        else groups ++ [{ startLine, endLine, replacements := [r] }]
      | none => [{ startLine, endLine, replacements := [r] }]
    groupReplacements lines rest next

/-- The lines between the groups from the original, the groups from the base. -/
def rebuildLines (originalLines : List (List Char)) (baseContent : List Char)
    (baseLines : List LineSpan) : Nat → List ReplacementGroup → List Char
  | originalLineIndex, [] => (originalLines.drop originalLineIndex).flatten
  | originalLineIndex, group :: rest =>
    let groupStart := (baseLines[group.startLine]?).elim 0 LineSpan.start
    let groupEnd := (baseLines[group.endLine - 1]?).elim 0 LineSpan.stop
    (slice originalLines originalLineIndex group.startLine).flatten ++
      applyReplacements (slice baseContent groupStart groupEnd) group.replacements groupStart ++
      rebuildLines originalLines baseContent baseLines group.endLine rest

def differentLineCount : String :=
  "Cannot preserve unchanged lines because the base content has a different line count."

def applyReplacementsPreservingUnchangedLines (originalContent baseContent : List Char)
    (replacements : List TextReplacement) : Except String (List Char) := do
  let originalLines := splitLinesWithEndings originalContent
  let baseLines := getLineSpans baseContent
  refuse (originalLines.length != baseLines.length) differentLineCount
  let sorted := replacements.mergeSort fun a b => a.matchIndex ≤ b.matchIndex
  let groups ← groupReplacements baseLines sorted []
  return rebuildLines originalLines baseContent baseLines 0 groups

/-! ## Edits -/

structure Edit where
  oldText : String
  newText : String
  hash : Option String
  before : Option (List String)
  after : Option (List String)
  deriving DecidableEq, Repr

def notFoundError (path : String) (editIndex totalEdits : Nat) : String :=
  if totalEdits = 1 then
    "Could not find the exact text in " ++ path ++
      ". The old text must match exactly including all whitespace and newlines."
  else "Could not find edits[" ++ toString editIndex ++ "] in " ++ path ++
    ". The oldText must match exactly including all whitespace and newlines."

def duplicateError (path : String) (editIndex totalEdits occurrences : Nat) : String :=
  if totalEdits = 1 then
    "Found " ++ toString occurrences ++ " occurrences of the text in " ++ path ++
      ". The text must be unique. Please provide more context to make it unique."
  else "Found " ++ toString occurrences ++ " occurrences of edits[" ++ toString editIndex ++ "] in " ++
    path ++ ". Each oldText must be unique. Please provide more context to make it unique."

def emptyOldTextError (path : String) (editIndex totalEdits : Nat) : String :=
  if totalEdits = 1 then "oldText must not be empty in " ++ path ++ "."
  else "edits[" ++ toString editIndex ++ "].oldText must not be empty in " ++ path ++ "."

def noChangeError (path : String) (totalEdits : Nat) : String :=
  if totalEdits = 1 then
    "No changes made to " ++ path ++ ". The replacement produced identical content. " ++
      "This might indicate an issue with special characters or the text not existing as expected."
  else "No changes made to " ++ path ++ ". The replacements produced identical content."

def overlapError (path : String) (previous current : TextReplacement) : String :=
  "edits[" ++ toString previous.editIndex ++ "] and edits[" ++ toString current.editIndex ++
    "] overlap in " ++ path ++ ". Merge them into one edit or target disjoint regions."

/-- The first neighbours of the sorted matches that overlap. -/
def firstOverlap : List TextReplacement → Option (TextReplacement × TextReplacement)
  | a :: b :: rest =>
    if b.matchIndex < a.matchIndex + a.matchLength then some (a, b) else firstOverlap (b :: rest)
  | _ => none

def matchEdit (nfkc : List Char → List Char) (baseContent : List Char) (path : String)
    (totalEdits editIndex : Nat) (oldText newText : List Char) : Except String TextReplacement :=
  match fuzzyFindText nfkc baseContent oldText with
  | none => .error (notFoundError path editIndex totalEdits)
  | some found =>
    let occurrences := countOccurrences nfkc baseContent oldText
    if 1 < occurrences then .error (duplicateError path editIndex totalEdits occurrences)
    else .ok { editIndex, matchIndex := found.index, matchLength := found.matchLength, newText }

def refuseOverlap (path : String) (sorted : List TextReplacement) : Except String Unit :=
  match firstOverlap sorted with
  | some (previous, current) => .error (overlapError path previous current)
  | none => .ok ()

def refuseEmpty (path : String) (edits : List (List Char × List Char)) : Except String Unit :=
  match edits.findIdx? fun edit => edit.1.isEmpty with
  | some editIndex => .error (emptyOldTextError path editIndex edits.length)
  | none => .ok ()

/-- The replacements of the edits, in the order of the text. -/
def matchedEdits (nfkc : List Char → List Char) (baseContent : List Char) (path : String)
    (edits : List (List Char × List Char)) : Except String (List TextReplacement) := do
  let matched ← edits.zipIdx.mapM fun (edit, editIndex) =>
    matchEdit nfkc baseContent path edits.length editIndex edit.1 edit.2
  let sorted := matched.mergeSort fun a b => a.matchIndex ≤ b.matchIndex
  refuseOverlap path sorted
  return sorted

/-- When one edit needs fuzzy matching, all are matched in the normalized content. -/
def replacedContent (nfkc : List Char → List Char) (normalizedContent : List Char) (path : String)
    (edits : List (List Char × List Char)) : Except String (List Char) :=
  if edits.any fun edit =>
      (fuzzyFindText nfkc normalizedContent edit.1).any FuzzyMatchResult.usedFuzzyMatch then do
    let baseContent := normalizeForFuzzyMatch nfkc normalizedContent
    let sorted ← matchedEdits nfkc baseContent path edits
    applyReplacementsPreservingUnchangedLines normalizedContent baseContent sorted
  else do
    let sorted ← matchedEdits nfkc normalizedContent path edits
    return applyReplacements normalizedContent sorted 0

/-- The new content of an LF-normalized text. -/
def applyEditsToNormalizedContent (nfkc : List Char → List Char) (normalizedContent : List Char)
    (edits : List Edit) (path : String) : Except String (List Char) := do
  let normalizedEdits := edits.map fun edit =>
    (normalizeToLF edit.oldText.toList, normalizeToLF edit.newText.toList)
  refuseEmpty path normalizedEdits
  let newContent ← replacedContent nfkc normalizedContent path normalizedEdits
  refuse (newContent == normalizedContent) (noChangeError path edits.length)
  return newContent

end PieLab

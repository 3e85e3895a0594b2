import PieLab.Hashline.Format
import PieLab.Lib.Splices

/-
  Anchored line edits

  An edit names a line by its text, by a hash of it, and by the lines around it,
  and is applied only when exactly one line fits.

  Correspondence (TypeScript ↔ Lean): the names of packages/hashline/src/hash.ts
  and apply.ts. Warnings are left out.
-/

namespace PieLab

open Lib

structure HashlineEdit where
  anchor : String
  hash : Option String
  before : Option (List String)
  after : Option (List String)
  newText : String
  deriving DecidableEq, Repr

def computeLineHash (sha256Hex : String → String) (line : String) : String :=
  jsTake (sha256Hex line) 16

def normalizeHash (hash : String) : String := jsTake hash 16

/-- `"${anchor.substring(0, 50)}${anchor.length > 50 ? "..." : ""}"`, in quotes -/
def formatAnchor (anchor : String) : String :=
  "\"" ++ jsTake anchor 50 ++ (if 50 < jsLength anchor then "..." else "") ++ "\""

def candidates (lines : List String) (fits : String → Bool) : List Nat :=
  (List.range lines.length).filter fun i => (lines[i]?).any fits

def findExactLineCandidates (lines : List String) (anchor : String) : List Nat :=
  candidates lines (· == anchor)

def findHashLineCandidates (sha256Hex : String → String) (lines : List String) (hash : String) :
    List Nat :=
  candidates lines fun line => computeLineHash sha256Hex line == normalizeHash hash

def HashlineEdit.hasContext (edit : HashlineEdit) : Bool :=
  !(edit.before.getD []).isEmpty || !(edit.after.getD []).isEmpty

def HashlineEdit.contextMatches (edit : HashlineEdit) (lines : List String) (lineIndex : Nat) :
    Bool :=
  (match edit.before with
    | none => true
    | some before => before.length ≤ lineIndex &&
        slice lines (lineIndex - before.length) lineIndex == before) &&
  (match edit.after with
    | none => true
    | some after => lineIndex + after.length < lines.length &&
        slice lines (lineIndex + 1) (lineIndex + 1 + after.length) == after)

def HashlineEdit.filterByContext (edit : HashlineEdit) (lines : List String) (found : List Nat) :
    List Nat :=
  if edit.hasContext then found.filter (edit.contextMatches lines) else found

/-- The line an edit applies to. -/
def resolveHashlineEdit (sha256Hex : String → String) (lines : List String) (edit : HashlineEdit) :
    Except String Nat :=
  if edit.anchor.toList.contains '\n' then
    .error ("hashline edits are line-based; anchor must not contain newlines: " ++
      formatAnchor edit.anchor)
  else match edit.filterByContext lines (findExactLineCandidates lines edit.anchor) with
    | [lineIndex] =>
      if truthyText edit.hash &&
          (lines[lineIndex]?).any fun line =>
            computeLineHash sha256Hex line != normalizeHash (edit.hash.getD "") then
        .error ("anchor matched but hash differs: " ++ formatAnchor edit.anchor)
      else .ok lineIndex
    | found@(_ :: _ :: _) =>
      .error ("anchor is ambiguous; matched " ++ toString found.length ++ " lines: " ++
        formatAnchor edit.anchor)
    | [] =>
      if !truthyText edit.hash then .error ("anchor not found: " ++ formatAnchor edit.anchor)
      else match edit.filterByContext lines
          (findHashLineCandidates sha256Hex lines (edit.hash.getD "")) with
        | [lineIndex] => .ok lineIndex
        | [] => .error ("anchor not found and hash did not identify a unique fallback: " ++
            formatAnchor edit.anchor)
        | found => .error ("hash fallback is ambiguous; matched " ++ toString found.length ++
            " lines for " ++ formatAnchor edit.anchor)

/-- The edits with their lines; no line is named twice. -/
def resolveHashlineEdits (sha256Hex : String → String) (lines : List String) :
    List HashlineEdit → List (Nat × HashlineEdit) → Except String (List (Nat × HashlineEdit))
  | [], resolved => .ok resolved
  | edit :: rest, resolved =>
    match resolveHashlineEdit sha256Hex lines edit with
    | .error message => .error message
    | .ok lineIndex =>
      if resolved.any (·.1 == lineIndex) then
        .error ("multiple hashline edits target line " ++ toString (lineIndex + 1))
      else resolveHashlineEdits sha256Hex lines rest (resolved ++ [(lineIndex, edit)])

/-- The resolved lines are replaced from the last to the first. -/
def applyResolvedEdits (lines : List String) (resolved : List (Nat × HashlineEdit)) : List String :=
  (resolved.mergeSort fun a b => b.1 ≤ a.1).foldl
    (fun result (lineIndex, edit) =>
      result.take lineIndex ++ splitLines edit.newText ++ result.drop (lineIndex + 1)) lines

/-- The new text, or the error with which the text stays. -/
def applyHashlineEdits (sha256Hex : String → String) (content : String)
    (edits : List HashlineEdit) : Except String String := do
  let lines := splitLines content
  let resolved ← resolveHashlineEdits sha256Hex lines edits []
  return join "\n" (applyResolvedEdits lines resolved)

end PieLab

import PieLab.Messages

/-
  Hashline text and tags

  The text a tag is computed of, and the form a hashline patch counts lines in.
  SHA-256 is a parameter.

  Correspondence (TypeScript ↔ Lean): the names of packages/hashline/src/format.ts.
-/

namespace PieLab

/-- `text.replace(/\r\n/g, "\n")` -/
def replaceCrLf : List Char → List Char
  | [] => []
  | [c] => [c]
  | c :: d :: rest =>
    if c = '\r' ∧ d = '\n' then '\n' :: replaceCrLf rest else c :: replaceCrLf (d :: rest)

/-- `text.replace(/\r/g, "\n")` -/
def replaceCr (text : List Char) : List Char := text.map fun c => if c = '\r' then '\n' else c

def normalizeSnapshotText (text : String) : String :=
  String.ofList (replaceCr (replaceCrLf text.toList))

/-- `[ \t\r]` -/
def isTrailingSpace (c : Char) : Bool := c == ' ' || c == '\t' || c == '\r'

/-- The white space at the end of every line is not hashed. -/
def normalizeFileHashText (text : String) : String :=
  join "\n" ((splitLines text).map fun line =>
    String.ofList (line.toList.reverse.dropWhile isTrailingSpace).reverse)

/-- `toUpperCase()` of a tag: the ligature `ﬀ` becomes two letters; no other letter beyond
ASCII becomes a hexadecimal digit. -/
def toUpperCase (hash : List Char) : List Char :=
  hash.flatMap fun c => if c = 'ﬀ' then ['F', 'F'] else [c.toUpper]

/-- The first four digits of the hash, in upper case. -/
def computeFileHash (sha256Hex : String → String) (text : String) : String :=
  let normalized := normalizeFileHashText (normalizeSnapshotText text)
  String.ofList (toUpperCase ((sha256Hex normalized).toList.take 4))

end PieLab

import Mathlib.Data.List.Pairwise
import PieLab.Hashline.Format
import PieLab.Lib.Checks
import PieLab.Lib.Splices

/-
  Hashline patches

  A section of a patch names a file, the tag of the text it was written against,
  and operations on numbered lines of that text. The operations become splices of
  the line list. A section written against an older snapshot is carried over to
  the current text by looking for the lines around its targets.

  What is proved:
    1. `validateNonOverlapping_ok` — accepted mutations do not overlap.
    2. `wellPlaced_of_ok` — the splices of an accepted section are well placed.

  Correspondence (TypeScript ↔ Lean): the names of packages/hashline/src/patch.ts.
  Line numbers are positive and ranges not reversed: `parseRange` and
  `parsePositiveInt` accept no others.
-/

namespace PieLab

open Lib

/-! ## Operations -/

structure LineNumber where
  line : Nat
  pos : 1 ≤ line
  deriving DecidableEq, Repr

theorem LineNumber.first : 1 ≤ 1 := Nat.le_refl 1

theorem LineNumber.le_self (k : LineNumber) : k.line ≤ k.line := Nat.le_refl k.line

structure LineRange where
  startLine : Nat
  endLine : Nat
  pos : 1 ≤ startLine
  le : startLine ≤ endLine
  deriving DecidableEq, Repr

inductive InsertPosition where
  | before (anchor : LineNumber)
  | after (anchor : LineNumber)
  | head
  | tail
  deriving DecidableEq, Repr

inductive HashlineOperation where
  | replace (range : LineRange) (lines : List String)
  | delete (range : LineRange)
  | insert (position : InsertPosition) (lines : List String)
  deriving DecidableEq, Repr

structure HashlinePatchSection where
  path : String
  hash : String
  operations : List HashlineOperation
  deriving DecidableEq, Repr

structure Mutation extends Splice String where
  operation : HashlineOperation
  deriving DecidableEq, Repr

/-! ## Lines -/

structure EditableLines where
  lines : List String
  trailingNewline : Bool
  deriving DecidableEq, Repr

def splitEditableLines (text : String) : EditableLines :=
  let normalized := (normalizeSnapshotText text).toList
  let trailingNewline := normalized.getLast? == some '\n'
  let body := if trailingNewline then normalized.dropLast else normalized
  { lines := if body = [] then [] else splitLines (String.ofList body), trailingNewline }

def joinEditableLines (lines : List String) (trailingNewline : Bool) : String :=
  let body := join "\n" lines
  if trailingNewline ∧ body ≠ "" then body ++ "\n" else body

/-! ## Mutations -/

def LineRange.describe (range : LineRange) : String :=
  toString range.startLine ++ ".." ++ toString range.endLine

def describeOperation : HashlineOperation → String
  | .replace range _ => "replace " ++ range.describe
  | .delete range => "delete " ++ range.describe
  | .insert (.before anchor) _ => "insert before " ++ toString anchor.line
  | .insert (.after anchor) _ => "insert after " ++ toString anchor.line
  | .insert .head _ => "insert head"
  | .insert .tail _ => "insert tail"

def exceedsFileLength (operation : HashlineOperation) (lineCount : Nat) : String :=
  describeOperation operation ++ " exceeds file length " ++ toString lineCount ++ "."

/-- The splice of an operation on `lineCount` lines, once its lines are in the file. -/
def mutationOf (operation : HashlineOperation) (lineCount sourceOrder : Nat) : Mutation :=
  match operation with
  | .replace range lines =>
    { index := range.startLine - 1, deleteCount := range.endLine - range.startLine + 1
      insertLines := lines, sourceOrder, operation }
  | .delete range =>
    { index := range.startLine - 1, deleteCount := range.endLine - range.startLine + 1
      insertLines := [], sourceOrder, operation }
  | .insert (.before anchor) lines =>
    { index := anchor.line - 1, deleteCount := 0, insertLines := lines, sourceOrder, operation }
  | .insert (.after anchor) lines =>
    { index := anchor.line, deleteCount := 0, insertLines := lines, sourceOrder, operation }
  | .insert .head lines =>
    { index := 0, deleteCount := 0, insertLines := lines, sourceOrder, operation }
  | .insert .tail lines =>
    { index := lineCount, deleteCount := 0, insertLines := lines, sourceOrder, operation }

/-- The last line an operation names. -/
def HashlineOperation.lastLine : HashlineOperation → Nat
  | .replace range _ | .delete range => range.endLine
  | .insert (.before anchor) _ | .insert (.after anchor) _ => anchor.line
  | .insert .head _ | .insert .tail _ => 0

def operationToMutation (operation : HashlineOperation) (lineCount sourceOrder : Nat) :
    Except String Mutation := do
  refuse (lineCount < operation.lastLine) (exceedsFileLength operation lineCount)
  return mutationOf operation lineCount sourceOrder

/-- `operations.map((operation, index) => operationToMutation(operation, lineCount, index))` -/
def operationsToMutations (lineCount : Nat) (operations : List HashlineOperation) :
    Except String (List Mutation) :=
  operations.zipIdx.mapM fun (operation, index) => operationToMutation operation lineCount index

/-- The first and the last index a mutation takes away. -/
structure MutationRange where
  start : Nat
  stop : Nat
  deriving DecidableEq, Repr

def rangesOf (mutations : List Mutation) : List MutationRange :=
  ((mutations.filter fun m => m.isRange).map fun m =>
    { start := m.index, stop := m.index + m.deleteCount - 1 }).mergeSort
    fun a b => a.start ≤ b.start

/-- Two neighbours of the sorted ranges overlap. -/
def anyOverlap : List MutationRange → Bool
  | a :: b :: rest => b.start ≤ a.stop || anyOverlap (b :: rest)
  | _ => false

def overlappingRanges : String := "Overlapping hashline replace/delete ranges are not allowed."

def insertInRange : String :=
  "Hashline inserts cannot target the middle of a replace/delete range."

def validateNonOverlapping (mutations : List Mutation) : Except String Unit := do
  let ranges := rangesOf mutations
  refuse (anyOverlap ranges) overlappingRanges
  refuse (mutations.any fun m => !m.isRange &&
    ranges.any fun range => range.start < m.index && m.index ≤ range.stop) insertInRange

/-- The lines after the mutations, sorted by index and source order, descending. -/
def mutatedLines (lines : List String) (mutations : List Mutation) : List String :=
  (mutations.mergeSort fun a b => a.goesFirst b.toSplice).foldl
    (fun result m => m.toSplice.apply result) lines

def applyMutations (lines : List String) (trailingNewline : Bool) (mutations : List Mutation) :
    String :=
  joinEditableLines (mutatedLines lines mutations) trailingNewline

/-- The lines of an applied section, before they are joined. -/
def sectionLines (text : String) (patch : HashlinePatchSection) : Except String (List String) := do
  let lines := (splitEditableLines text).lines
  let mutations ← operationsToMutations lines.length patch.operations
  validateNonOverlapping mutations
  return mutatedLines lines mutations

def applyHashlineSectionToText (text : String) (patch : HashlinePatchSection) :
    Except String String := do
  let lines ← sectionLines text patch
  return joinEditableLines lines (splitEditableLines text).trailingNewline

/-! ## Stale snapshots -/

def maxRecoveryContextLines : Nat := 3

/-- The indices the pattern stands at. -/
def findSequenceMatches (lines pattern : List String) : List Nat :=
  if pattern = [] ∨ lines.length < pattern.length then []
  else (List.range (lines.length - pattern.length + 1)).filter fun index =>
    (lines.drop index).take pattern.length == pattern

/-- The lines around a target, `radius` on each side where there are so many. -/
def contextMatches (baseLines currentLines : List String) (baseIndex targetLength radius : Nat) :
    Nat × List Nat :=
  let beforeCount := min radius baseIndex
  let afterCount := min radius (baseLines.length - (baseIndex + targetLength))
  let pattern := slice baseLines (baseIndex - beforeCount) (baseIndex + targetLength + afterCount)
  (beforeCount, findSequenceMatches currentLines pattern)

/-- The radii that are left to try, and whether a pattern was found more than once. -/
def resolveAtRadii (baseLines currentLines : List String) (baseIndex targetLength : Nat) :
    List Nat → Bool → Except Bool Nat
  | [], sawAmbiguousMatch => .error sawAmbiguousMatch
  | radius :: rest, sawAmbiguousMatch =>
    let (beforeCount, found) :=
      contextMatches baseLines currentLines baseIndex targetLength radius
    match found with
    | [index] => .ok (index + beforeCount)
    | [] => resolveAtRadii baseLines currentLines baseIndex targetLength rest sawAmbiguousMatch
    | _ => resolveAtRadii baseLines currentLines baseIndex targetLength rest true

def staleTarget (path : String) (operation : HashlineOperation) (ambiguous : Bool) : String :=
  "Stale hashline snapshot for " ++ path ++ ": recovery target for " ++
    describeOperation operation ++ " is " ++
    (if ambiguous then "ambiguous" else "missing or changed") ++ ". Re-read the file and retry."

def resolveCurrentIndexWithContext (baseLines currentLines : List String)
    (baseIndex targetLength : Nat) (path : String) (operation : HashlineOperation) :
    Except String Nat :=
  match resolveAtRadii baseLines currentLines baseIndex targetLength
      (List.range (maxRecoveryContextLines + 1)) false with
  | .ok index => .ok index
  | .error ambiguous => .error (staleTarget path operation ambiguous)

def recoverMutationAgainstCurrent (baseLines currentLines : List String) (path : String)
    (mutation : Mutation) : Except String Mutation :=
  match mutation.operation with
  | .replace _ _ | .delete _ => do
    let index ← resolveCurrentIndexWithContext baseLines currentLines mutation.index
      mutation.deleteCount path mutation.operation
    return { mutation with index }
  | .insert .head _ => .ok { mutation with index := 0 }
  | .insert .tail _ => .ok { mutation with index := currentLines.length }
  | .insert (.before anchor) _ => do
    let index ← resolveCurrentIndexWithContext baseLines currentLines (anchor.line - 1) 1 path
      mutation.operation
    return { mutation with index }
  | .insert (.after anchor) _ => do
    let index ← resolveCurrentIndexWithContext baseLines currentLines (anchor.line - 1) 1 path
      mutation.operation
    return { mutation with index := index + 1 }

def staleSnapshot (path expectedHash actualHash : String) : String :=
  "Stale hashline snapshot for " ++ path ++ ": expected #" ++ expectedHash ++ ", current #" ++
    actualHash ++ ". Re-read the file and retry."

/-- `hash.toUpperCase()` of a tag -/
def upperTag (hash : String) : String := String.ofList (toUpperCase hash.toList)

def validateHashlineSnapshot (sha256Hex : String → String) (text expectedHash path : String) :
    Except String Unit :=
  let actualHash := computeFileHash sha256Hex text
  refuse (actualHash != upperTag expectedHash) (staleSnapshot path expectedHash actualHash)

structure HashlineRecoveryResult where
  text : String
  recovered : Bool
  deriving DecidableEq, Repr

/-- The section carried over from the lines it was written against. -/
def recoverSection (baseText currentText : String) (patch : HashlinePatchSection) :
    Except String String := do
  let baseLines := (splitEditableLines baseText).lines
  let current := splitEditableLines currentText
  let baseMutations ← operationsToMutations baseLines.length patch.operations
  validateNonOverlapping baseMutations
  let recovered ← baseMutations.mapM
    (recoverMutationAgainstCurrent baseLines current.lines patch.path)
  validateNonOverlapping recovered
  return applyMutations current.lines current.trailingNewline recovered

def applyHashlineSectionWithRecovery (sha256Hex : String → String) (baseText currentText : String)
    (patch : HashlinePatchSection) : Except String HashlineRecoveryResult := do
  let base := normalizeSnapshotText baseText
  let current := normalizeSnapshotText currentText
  validateHashlineSnapshot sha256Hex base patch.hash patch.path
  if computeFileHash sha256Hex current = upperTag patch.hash then
    (applyHashlineSectionToText current patch).map fun text => { text, recovered := false }
  else (recoverSection base current patch).map fun text => { text, recovered := true }

/-! ## What validation accepts -/

theorem pairwise_of_anyOverlap {ranges : List MutationRange}
    (h : anyOverlap ranges = false) (hle : ∀ r ∈ ranges, r.start ≤ r.stop) :
    ranges.Pairwise fun a b => a.stop < b.start := by
  induction ranges with
  | nil => exact .nil
  | cons a rest ih =>
    cases rest with
    | nil => exact List.pairwise_singleton _ _
    | cons b rest =>
      simp only [anyOverlap, Bool.or_eq_false_iff, decide_eq_false_iff_not, Nat.not_le] at h
      have hrest := ih h.2 fun r hr => hle r (List.mem_cons_of_mem _ hr)
      refine List.pairwise_cons.mpr ⟨?_, hrest⟩
      intro x hx
      rcases List.mem_cons.mp hx with rfl | hx
      · exact h.1
      · have hbx := (List.pairwise_cons.mp hrest).1 x hx
        have hb := hle b (by simp)
        omega

def Mutation.range (m : Mutation) : MutationRange :=
  { start := m.index, stop := m.index + m.deleteCount - 1 }

variable {mutations : List Mutation}

theorem mem_rangesOf {r : MutationRange} :
    r ∈ rangesOf mutations ↔ ∃ m ∈ mutations, m.isRange ∧ m.range = r := by
  unfold rangesOf
  rw [List.mem_mergeSort, List.mem_map]
  constructor
  · rintro ⟨m, hm, rfl⟩
    exact ⟨m, List.mem_of_mem_filter hm, (List.mem_filter.mp hm).2, rfl⟩
  · rintro ⟨m, hm, hrange, rfl⟩
    exact ⟨m, List.mem_filter.mpr ⟨hm, hrange⟩, rfl⟩

/-- Two ranges of which neither reaches into the other. -/
def Splice.Apart (a b : Splice String) : Prop :=
  a.index + a.deleteCount ≤ b.index ∨ b.index + b.deleteCount ≤ a.index

/-- Accepted mutations do not overlap, and insert nothing strictly inside a range. -/
theorem validateNonOverlapping_ok (h : validateNonOverlapping mutations = .ok ()) :
    (mutations.Pairwise fun a b => a.isRange → b.isRange → Splice.Apart a.toSplice b.toSplice) ∧
      ∀ m ∈ mutations, ¬ m.isRange → ∀ r ∈ mutations,
        ¬ (r.index < m.index ∧ m.index < r.index + r.deleteCount) := by
  obtain ⟨_, hoverlap, hinside⟩ := Except.bind_ok h
  rw [refuse_ok_iff] at hoverlap hinside
  constructor
  · have hle : ∀ r ∈ rangesOf mutations, r.start ≤ r.stop := by
      intro r hr
      obtain ⟨m, -, hrange, rfl⟩ := mem_rangesOf.mp hr
      have hpos : 0 < m.deleteCount := by simpa [Splice.isRange] using hrange
      show m.index ≤ m.index + m.deleteCount - 1
      omega
    have hsorted := pairwise_of_anyOverlap hoverlap hle
    have hsym : (rangesOf mutations).Pairwise fun a b => a.stop < b.start ∨ b.stop < a.start :=
      hsorted.imp fun hlt => .inl hlt
    have hperm := List.mergeSort_perm ((mutations.filter fun m => m.isRange).map Mutation.range)
      fun a b => decide (a.start ≤ b.start)
    have hmap := (hperm.pairwise_iff fun hab => hab.symm).mp hsym
    rw [List.pairwise_map, List.pairwise_filter] at hmap
    apply hmap.imp
    intro a b hab ha hb
    have hcase := hab ha hb
    have hapos : 0 < a.deleteCount := by simpa [Splice.isRange] using ha
    have hbpos : 0 < b.deleteCount := by simpa [Splice.isRange] using hb
    simp only [Mutation.range] at hcase
    unfold Splice.Apart
    omega
  · intro m hm hnot r hr hin
    rw [List.any_eq_false] at hinside
    apply hinside m hm
    have hrange : r.isRange := by simp only [Splice.isRange, decide_eq_true_eq]; omega
    rw [Bool.and_eq_true, Bool.not_eq_true', List.any_eq_true]
    refine ⟨by simpa using hnot, r.range, mem_rangesOf.mpr ⟨r, hr, hrange, rfl⟩, ?_⟩
    show (decide (r.index < m.index) && decide (m.index ≤ r.index + r.deleteCount - 1)) = true
    rw [Bool.and_eq_true, decide_eq_true_iff, decide_eq_true_iff]
    omega

/-! ## The splices of a section -/

/-- The splices of the operations on `lineCount` lines. -/
def splicesOf (lineCount : Nat) (operations : List HashlineOperation) : List (Splice String) :=
  operations.zipIdx.map fun (operation, index) => (mutationOf operation lineCount index).toSplice

theorem operationsToMutations_ok {lineCount : Nat} {operations : List HashlineOperation}
    (h : operationsToMutations lineCount operations = .ok mutations) :
    (∀ operation ∈ operations, operation.lastLine ≤ lineCount) ∧
      mutations = operations.zipIdx.map fun x => mutationOf x.1 lineCount x.2 := by
  have hone : ∀ (x : HashlineOperation × Nat) m, operationToMutation x.1 lineCount x.2 = .ok m →
      x.1.lastLine ≤ lineCount ∧ m = mutationOf x.1 lineCount x.2 := by
    intro x m hm
    obtain ⟨_, hrefuse, he⟩ := Except.bind_ok hm
    rw [refuse_ok_iff, decide_eq_false_iff_not, Nat.not_lt] at hrefuse
    cases he
    exact ⟨hrefuse, rfl⟩
  obtain ⟨hall, hmap⟩ := Except.mapM_ok hone h
  refine ⟨?_, hmap⟩
  intro operation hoperation
  obtain ⟨i, hi⟩ := List.mem_iff_getElem?.mp hoperation
  exact hall (operation, i) (List.mk_mem_zipIdx_iff_getElem?.mpr hi)

theorem mutationOf_inside (operation : HashlineOperation) {lineCount : Nat} (sourceOrder : Nat)
    (h : operation.lastLine ≤ lineCount) :
    (mutationOf operation lineCount sourceOrder).index +
      (mutationOf operation lineCount sourceOrder).deleteCount ≤ lineCount := by
  cases operation with
  | replace range _ | delete range =>
    have hpos := range.pos
    have hle := range.le
    simp only [mutationOf, HashlineOperation.lastLine] at h ⊢
    omega
  | insert position lines =>
    cases position with
    | before anchor | after anchor =>
      simp only [mutationOf, HashlineOperation.lastLine] at h ⊢
      omega
    | head | tail => simp [mutationOf]

@[simp] theorem mutationOf_sourceOrder (operation : HashlineOperation)
    (lineCount sourceOrder : Nat) :
    (mutationOf operation lineCount sourceOrder).sourceOrder = sourceOrder := by
  cases operation with
  | replace range lines => rfl
  | delete range => rfl
  | insert position lines => cases position <;> rfl

theorem mutatedLines_eq (lines : List String) (mutations : List Mutation) :
    mutatedLines lines mutations = spliced lines (mutations.map Mutation.toSplice) := by
  unfold mutatedLines spliced
  rw [← List.map_mergeSort (r := fun a b : Mutation => a.goesFirst b.toSplice)
    fun _ _ _ _ => rfl, List.foldl_map]

/-- The splices of validated mutations are well placed. -/
theorem wellPlaced_of_ok {lines : List String}
    (hordered : mutations.Pairwise fun a b => a.sourceOrder < b.sourceOrder)
    (hinside : ∀ m ∈ mutations, m.index + m.deleteCount ≤ lines.length)
    (h : validateNonOverlapping mutations = .ok ()) :
    WellPlaced lines (mutations.map Mutation.toSplice) := by
  obtain ⟨hdisjoint, houtside⟩ := validateNonOverlapping_ok h
  have hapart : (mutations.map Mutation.toSplice).Pairwise fun a b =>
      a.isRange → b.isRange → Splice.Apart a b := List.pairwise_map.mpr hdisjoint
  have hsym : Std.Symm fun a b : Splice String => a.isRange → b.isRange → Splice.Apart a b :=
    { symm _ _ hab hb ha := (hab ha hb).symm }
  refine ⟨List.pairwise_map.mpr hordered, ?_, ?_, ?_⟩
  · intro s hs
    obtain ⟨m, hm, rfl⟩ := List.mem_map.mp hs
    exact hinside m hm
  · intro a ha b hb harange hbrange hne
    exact hapart.forall ha hb hne harange hbrange
  · intro s hs hnot r hr
    obtain ⟨m, hm, rfl⟩ := List.mem_map.mp hs
    obtain ⟨x, hx, rfl⟩ := List.mem_map.mp hr
    exact houtside m hm hnot x hx

theorem sectionLines_ok {text : String} {patch : HashlinePatchSection} {out : List String}
    (h : sectionLines text patch = .ok out) :
    WellPlaced (splitEditableLines text).lines
        (splicesOf (splitEditableLines text).lines.length patch.operations) ∧
      out = spliced (splitEditableLines text).lines
        (splicesOf (splitEditableLines text).lines.length patch.operations) := by
  obtain ⟨mutations, hmutations, h⟩ := Except.bind_ok h
  obtain ⟨_, hvalid, h⟩ := Except.bind_ok h
  obtain ⟨hinside, hmap⟩ := operationsToMutations_ok hmutations
  have hsplices : mutations.map Mutation.toSplice =
      splicesOf (splitEditableLines text).lines.length patch.operations := by
    rw [hmap, List.map_map]
    rfl
  have hordered : mutations.Pairwise fun a b => a.sourceOrder < b.sourceOrder := by
    rw [hmap, List.pairwise_map]
    simp only [mutationOf_sourceOrder]
    rw [← List.pairwise_map (f := Prod.snd) (R := (· < ·)), List.zipIdx_map_snd]
    exact List.pairwise_lt_range'
  have hplaced : WellPlaced (splitEditableLines text).lines (mutations.map Mutation.toSplice) := by
    apply wellPlaced_of_ok hordered _ hvalid
    intro m hm
    rw [hmap] at hm
    obtain ⟨⟨operation, i⟩, hx, rfl⟩ := List.mem_map.mp hm
    exact mutationOf_inside operation i (hinside operation (List.fst_mem_of_mem_zipIdx hx))
  cases h
  rw [mutatedLines_eq, ← hsplices]
  exact ⟨hplaced, rfl⟩

theorem sectionLines_eq {text : String} {patch : HashlinePatchSection} {mutations : List Mutation}
    (hmutations : operationsToMutations (splitEditableLines text).lines.length patch.operations =
      .ok mutations)
    (hvalid : validateNonOverlapping mutations = .ok ()) :
    sectionLines text patch = .ok (tailAt (splitEditableLines text).lines
      (splicesOf (splitEditableLines text).lines.length patch.operations) 0) := by
  have h : sectionLines text patch =
      .ok (mutatedLines (splitEditableLines text).lines mutations) := by
    unfold sectionLines
    dsimp only
    rw [hmutations]
    show (validateNonOverlapping mutations >>= _) = _
    rw [hvalid]
    rfl
  obtain ⟨hplaced, hout⟩ := sectionLines_ok h
  rw [h, hout, spliced_eq_tailAt hplaced]

/-! ## One insert -/

theorem validateNonOverlapping_insert {m : Mutation} (h : m.isRange = false) :
    validateNonOverlapping [m] = .ok () := by
  have hranges : rangesOf [m] = [] := by
    unfold rangesOf
    rw [List.filter_cons_of_neg (by simp [h])]
    exact List.mergeSort_nil
  unfold validateNonOverlapping
  dsimp only
  rw [hranges]
  simp [refuse, anyOverlap]
  rfl

theorem mutatedLines_singleton (lines : List String) (m : Mutation) :
    mutatedLines lines [m] = m.toSplice.apply lines := by
  unfold mutatedLines
  rw [List.mergeSort_singleton]
  rfl

theorem applyHashlineSectionToText_insert {text : String} {patch : HashlinePatchSection}
    {m : Mutation} (hops : operationsToMutations (splitEditableLines text).lines.length
      patch.operations = .ok [m]) (hm : m.isRange = false) :
    applyHashlineSectionToText text patch = .ok (joinEditableLines
      (m.toSplice.apply (splitEditableLines text).lines) (splitEditableLines text).trailingNewline) := by
  unfold applyHashlineSectionToText sectionLines
  dsimp only
  rw [hops]
  show ((validateNonOverlapping [m] >>= fun _ => pure _) >>= _) = _
  rw [validateNonOverlapping_insert hm]
  show Except.ok (joinEditableLines (mutatedLines _ [m]) _) = _
  rw [mutatedLines_singleton]

theorem recoverSection_insert {baseText currentText : String} {patch : HashlinePatchSection}
    {m r : Mutation} (hops : operationsToMutations (splitEditableLines baseText).lines.length
      patch.operations = .ok [m]) (hm : m.isRange = false)
    (hrecover : recoverMutationAgainstCurrent (splitEditableLines baseText).lines
      (splitEditableLines currentText).lines patch.path m = .ok r) (hr : r.isRange = false) :
    recoverSection baseText currentText patch = .ok (joinEditableLines
      (r.toSplice.apply (splitEditableLines currentText).lines)
      (splitEditableLines currentText).trailingNewline) := by
  have hmap : [m].mapM (recoverMutationAgainstCurrent (splitEditableLines baseText).lines
      (splitEditableLines currentText).lines patch.path) = .ok [r] := by
    rw [List.mapM_cons, hrecover]
    rfl
  unfold recoverSection
  dsimp only
  rw [hops]
  show (validateNonOverlapping [m] >>= _) = _
  rw [validateNonOverlapping_insert hm]
  show (List.mapM (recoverMutationAgainstCurrent (splitEditableLines baseText).lines
    (splitEditableLines currentText).lines patch.path) [m] >>= _) = _
  rw [hmap]
  show (validateNonOverlapping [r] >>= _) = _
  rw [validateNonOverlapping_insert hr]
  show Except.ok (joinEditableLines (mutatedLines _ [r]) _) = _
  rw [mutatedLines_singleton]

end PieLab

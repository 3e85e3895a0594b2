import PieLab.Hashline.Patch

/-
  A section, gap by gap

  What a section says about a text of `n` lines: in the gap before line `p`, and
  after the last one, stand the inserted bodies in the order of the section; then
  the body of a range that starts there; then the line, when no range covers it.

  What is proved:
    1. `section_gaps_iff` — the code produces these lines exactly when every range
       leaves what later operations insert at its start.
    2. `insert_deleted` — a replaced line takes the place of a line inserted before
       it, and stays itself.
-/

namespace PieLab

open Lib

/-! ## Gaps -/

/-- The body an operation inserts into the gap before `p`. -/
def HashlineOperation.insertedIn (lineCount p : Nat) : HashlineOperation → List String
  | .insert (.before anchor) lines => if anchor.line - 1 = p then lines else []
  | .insert (.after anchor) lines => if anchor.line = p then lines else []
  | .insert .head lines => if 0 = p then lines else []
  | .insert .tail lines => if lineCount = p then lines else []
  | .replace _ _ | .delete _ => []

/-- The lines an operation replaces or deletes. -/
def HashlineOperation.range? : HashlineOperation → Option LineRange
  | .replace range _ | .delete range => some range
  | .insert _ _ => none

/-- What an operation writes in place of its range. -/
def HashlineOperation.body : HashlineOperation → List String
  | .replace _ lines => lines
  | .delete _ | .insert _ _ => []

def HashlineOperation.replacedIn (p : Nat) (operation : HashlineOperation) : List String :=
  if operation.range?.any fun range => range.startLine - 1 = p then operation.body else []

/-- Whether an operation names the line at the index `p`. -/
def HashlineOperation.covers (p : Nat) (operation : HashlineOperation) : Bool :=
  operation.range?.any fun range => range.startLine ≤ p + 1 && p + 1 ≤ range.endLine

/-- The gap before the line at the index `p`, and the line. -/
def gapLines (lines : List String) (operations : List HashlineOperation) (p : Nat) : List String :=
  operations.flatMap (HashlineOperation.insertedIn lines.length p) ++
    operations.flatMap (HashlineOperation.replacedIn p) ++
    if operations.any (HashlineOperation.covers p) then [] else lines[p]?.toList

/-- The lines a section asks for. -/
def sectionGaps (lines : List String) (operations : List HashlineOperation) : List String :=
  (List.range (lines.length + 1)).flatMap (gapLines lines operations)

/-- The lines from the first to the last of a range. -/
def LineRange.linesOf (range : LineRange) (lines : List String) : List String :=
  slice lines (range.startLine - 1) range.endLine

/-- A range followed by inserts at its start: it takes away as many lines as it has from
what stands there, the inserted lines first. What is left is what the section says. -/
def LeavesInserts (lines : List String) (range : LineRange) (body inserted : List String) : Prop :=
  body ++ (inserted ++ range.linesOf lines).drop (range.linesOf lines).length = inserted ++ body

/-- Every range leaves what the operations after it insert at its start. -/
def KeepsInserts (lines : List String) (operations : List HashlineOperation) : Prop :=
  ∀ before operation after range, operations = before ++ operation :: after →
    operation.range? = some range →
    LeavesInserts lines range operation.body
      (after.flatMap (HashlineOperation.insertedIn lines.length (range.startLine - 1)))

/-! ## Operations and splices -/

theorem range?_mutationOf (operation : HashlineOperation) (lineCount sourceOrder : Nat) :
    (mutationOf operation lineCount sourceOrder).isRange = operation.range?.isSome := by
  cases operation with
  | replace range lines => simp [mutationOf, Splice.isRange, HashlineOperation.range?]
  | delete range => simp [mutationOf, Splice.isRange, HashlineOperation.range?]
  | insert position lines =>
    cases position <;> simp [mutationOf, Splice.isRange, HashlineOperation.range?]

theorem mutationOf_of_range {operation : HashlineOperation} {range : LineRange}
    (h : operation.range? = some range) (lineCount sourceOrder : Nat) :
    (mutationOf operation lineCount sourceOrder).toSplice =
      { index := range.startLine - 1, deleteCount := range.endLine - range.startLine + 1
        insertLines := operation.body, sourceOrder } := by
  cases operation with
  | replace r lines => cases h; rfl
  | delete r => cases h; rfl
  | insert position lines => cases h

theorem flatMap_splices (lineCount : Nat) (operations : List HashlineOperation) (k : Nat)
    (c : Splice String → Bool) (f : HashlineOperation → List String)
    (hf : ∀ operation i, k ≤ i → f operation =
      if c (mutationOf operation lineCount i).toSplice then
        (mutationOf operation lineCount i).insertLines else []) :
    (((operations.zipIdx k).map fun x => (mutationOf x.1 lineCount x.2).toSplice).filter c).flatMap
      Splice.insertLines = operations.flatMap f := by
  induction operations generalizing k with
  | nil => rfl
  | cons operation operations ih =>
    rw [List.zipIdx_cons, List.map_cons, List.flatMap_cons,
      ← ih (k + 1) fun operation i hi => hf operation i (by omega), hf operation k (Nat.le_refl k)]
    by_cases hc : c (mutationOf operation lineCount k).toSplice
    · rw [List.filter_cons_of_pos hc, List.flatMap_cons, if_pos hc]
    · rw [List.filter_cons_of_neg hc, if_neg hc, List.nil_append]

theorem insertedIn_eq (operation : HashlineOperation) (lineCount p i : Nat) :
    operation.insertedIn lineCount p =
      if (mutationOf operation lineCount i).index == p &&
        !(mutationOf operation lineCount i).isRange then
        (mutationOf operation lineCount i).insertLines else [] := by
  cases operation with
  | replace range lines => simp [mutationOf, Splice.isRange, HashlineOperation.insertedIn]
  | delete range => simp [mutationOf, Splice.isRange, HashlineOperation.insertedIn]
  | insert position lines =>
    cases position <;> simp [mutationOf, Splice.isRange, HashlineOperation.insertedIn]

theorem insertedAt_splicesOf (lineCount p : Nat) (operations : List HashlineOperation) :
    insertedAt (splicesOf lineCount operations) p =
      operations.flatMap (HashlineOperation.insertedIn lineCount p) := by
  apply flatMap_splices
  intro operation i _
  exact insertedIn_eq operation lineCount p i

theorem replacedAt_splicesOf (lineCount p : Nat) (operations : List HashlineOperation) :
    replacedAt (splicesOf lineCount operations) p =
      operations.flatMap (HashlineOperation.replacedIn p) := by
  apply flatMap_splices
  intro operation i _
  cases hrange : operation.range? with
  | none =>
    have hnot : (mutationOf operation lineCount i).isRange = false := by
      rw [range?_mutationOf, hrange]
      rfl
    simp [HashlineOperation.replacedIn, hrange, hnot]
  | some range =>
    rw [mutationOf_of_range hrange]
    simp [HashlineOperation.replacedIn, hrange, Splice.isRange]

theorem isCovered_splicesOf (lineCount p : Nat) (operations : List HashlineOperation) :
    isCovered (splicesOf lineCount operations) p =
      operations.any (HashlineOperation.covers p) := by
  have hone : ∀ operation i, (decide ((mutationOf operation lineCount i).index ≤ p) &&
      decide (p < (mutationOf operation lineCount i).index +
        (mutationOf operation lineCount i).deleteCount)) = operation.covers p := by
    intro operation i
    cases hrange : operation.range? with
    | none =>
      have hnot : (mutationOf operation lineCount i).isRange = false := by
        rw [range?_mutationOf, hrange]
        rfl
      have hzero : (mutationOf operation lineCount i).deleteCount = 0 := by
        simpa [Splice.isRange] using hnot
      simp only [HashlineOperation.covers, hrange, hzero, Option.any_none]
      rw [Bool.and_eq_false_iff, decide_eq_false_iff_not, decide_eq_false_iff_not]
      omega
    | some range =>
      have hpos := range.pos
      have hle := range.le
      rw [mutationOf_of_range hrange]
      simp only [HashlineOperation.covers, hrange, Option.any_some]
      rw [Bool.eq_iff_iff, Bool.and_eq_true, Bool.and_eq_true]
      simp only [decide_eq_true_eq]
      omega
  unfold isCovered splicesOf
  rw [List.any_map]
  have hcongr : ∀ k, ((operations.zipIdx k).any fun x =>
      decide ((mutationOf x.1 lineCount x.2).index ≤ p) &&
        decide (p < (mutationOf x.1 lineCount x.2).index +
          (mutationOf x.1 lineCount x.2).deleteCount)) =
      operations.any (HashlineOperation.covers p) := by
    intro k
    simp only [hone]
    induction operations generalizing k with
    | nil => rfl
    | cons operation operations ih => rw [List.zipIdx_cons, List.any_cons, List.any_cons, ih]
  exact hcongr 0

theorem gapText_splicesOf (lines : List String) (operations : List HashlineOperation) :
    gapText lines (splicesOf lines.length operations) = sectionGaps lines operations := by
  unfold gapText sectionGaps
  congr 1
  funext p
  unfold gapAt keptAt gapLines
  rw [insertedAt_splicesOf, replacedAt_splicesOf, isCovered_splicesOf]

/-! ## What a range leaves -/

theorem mem_splicesOf {lineCount : Nat} {operations : List HashlineOperation} {r : Splice String} :
    r ∈ splicesOf lineCount operations ↔ ∃ before operation after,
      operations = before ++ operation :: after ∧
        (mutationOf operation lineCount before.length).toSplice = r := by
  unfold splicesOf
  rw [List.mem_map]
  constructor
  · rintro ⟨⟨operation, i⟩, hmem, rfl⟩
    obtain ⟨hi, he⟩ := List.getElem?_eq_some_iff.mp (List.mk_mem_zipIdx_iff_getElem?.mp hmem)
    refine ⟨operations.take i, operation, operations.drop (i + 1), ?_, ?_⟩
    · rw [← he, List.getElem_cons_drop, List.take_append_drop]
    · rw [List.length_take, Nat.min_eq_left (Nat.le_of_lt hi)]
  · rintro ⟨before, operation, after, rfl, rfl⟩
    refine ⟨(operation, before.length), List.mk_mem_zipIdx_iff_getElem?.mpr ?_, rfl⟩
    rw [List.getElem?_append_right (Nat.le_refl _), Nat.sub_self]
    rfl

theorem laterInserts_splicesOf (lineCount : Nat) (before : List HashlineOperation)
    (operation : HashlineOperation) (after : List HashlineOperation) :
    laterInserts (splicesOf lineCount (before ++ operation :: after))
        (mutationOf operation lineCount before.length).toSplice =
      after.flatMap (HashlineOperation.insertedIn lineCount
        (mutationOf operation lineCount before.length).index) := by
  have hsplit : splicesOf lineCount (before ++ operation :: after) =
      (before.zipIdx 0).map (fun x => (mutationOf x.1 lineCount x.2).toSplice) ++
        (mutationOf operation lineCount before.length).toSplice ::
        (after.zipIdx (before.length + 1)).map
          fun x => (mutationOf x.1 lineCount x.2).toSplice := by
    unfold splicesOf
    rw [List.zipIdx_append, List.map_append, List.zipIdx_cons, List.map_cons, Nat.zero_add]
  unfold laterInserts
  rw [hsplit, List.filter_append, List.filter_cons_of_neg (by simp),
    List.filter_eq_nil_iff.mpr, List.nil_append]
  · apply flatMap_splices
    intro x i hi
    rw [insertedIn_eq x lineCount _ i]
    have hlt : before.length < i := by omega
    simp [hlt]
  · intro s hs
    obtain ⟨⟨x, i⟩, hmem, rfl⟩ := List.mem_map.mp hs
    have hlt := List.snd_lt_of_mem_zipIdx hmem
    simp only [mutationOf_sourceOrder, Bool.and_eq_true, decide_eq_true_eq, not_and]
    intro _
    omega

theorem LineRange.linesOf_length {range : LineRange} {lines : List String}
    (h : range.endLine ≤ lines.length) :
    (range.linesOf lines).length = range.endLine - range.startLine + 1 := by
  have hpos := range.pos
  have hle := range.le
  unfold LineRange.linesOf
  rw [slice_length h]
  omega

theorem rangeText_iff {lines : List String} {before after : List HashlineOperation}
    {operation : HashlineOperation} {range : LineRange} (hr : operation.range? = some range)
    (hend : range.endLine ≤ lines.length) :
    rangeText lines (splicesOf lines.length (before ++ operation :: after))
        (mutationOf operation lines.length before.length).toSplice =
      laterInserts (splicesOf lines.length (before ++ operation :: after))
          (mutationOf operation lines.length before.length).toSplice ++
        (mutationOf operation lines.length before.length).insertLines ↔
      LeavesInserts lines range operation.body
        (after.flatMap (HashlineOperation.insertedIn lines.length (range.startLine - 1))) := by
  have hpos := range.pos
  have hle := range.le
  have hstop : range.startLine - 1 + (range.endLine - range.startLine + 1) = range.endLine := by
    omega
  have hmutation := mutationOf_of_range hr lines.length before.length
  have hlater := laterInserts_splicesOf lines.length before operation after
  rw [hmutation] at hlater
  unfold rangeText LeavesInserts
  rw [hmutation, hlater, LineRange.linesOf_length hend]
  simp only [hstop, LineRange.linesOf]

/-- The code produces the lines a section asks for exactly when every range leaves what
later operations insert at its start. -/
theorem section_gaps_iff (text : String) (patch : HashlinePatchSection) (out : List String)
    (h : sectionLines text patch = .ok out) :
    out = sectionGaps (splitEditableLines text).lines patch.operations ↔
      KeepsInserts (splitEditableLines text).lines patch.operations := by
  obtain ⟨hplaced, hout⟩ := sectionLines_ok h
  generalize (splitEditableLines text).lines = lines at hplaced hout ⊢
  rw [hout, ← gapText_splicesOf, spliced_eq_iff hplaced]
  have hmem : ∀ {before operation after}, patch.operations = before ++ operation :: after →
      (mutationOf operation lines.length before.length).toSplice ∈
        splicesOf lines.length patch.operations :=
    fun hsplit => mem_splicesOf.mpr ⟨_, _, _, hsplit, rfl⟩
  have hend : ∀ {before operation after range}, patch.operations = before ++ operation :: after →
      operation.range? = some range → range.endLine ≤ lines.length := by
    intro before operation after range hsplit hr
    have hinside := hplaced.inside _ (hmem hsplit)
    have hpos := range.pos
    have hle := range.le
    rw [mutationOf_of_range hr] at hinside
    dsimp only at hinside
    omega
  constructor
  · intro hall before operation after range hsplit hr
    rw [← rangeText_iff hr (hend hsplit hr), ← hsplit]
    exact hall _ (hmem hsplit) (by rw [range?_mutationOf, hr]; rfl)
  · intro hkeeps r hr hrange
    obtain ⟨before, operation, after, hsplit, rfl⟩ := mem_splicesOf.mp hr
    rw [range?_mutationOf, Option.isSome_iff_exists] at hrange
    obtain ⟨range, hop⟩ := hrange
    have hself := hkeeps before operation after range hsplit hop
    rw [← rangeText_iff hop (hend hsplit hop), ← hsplit] at hself
    exact hself

/-! Line 1 of two is replaced, and a line is inserted before it. -/

namespace TwoLinesExample

def text : String := "a\nb"

def firstLine :
    LineRange := { startLine := 1, endLine := 1, pos := LineNumber.first, le := LineNumber.first }

def replaceFirst : HashlineOperation := .replace firstLine ["X"]

def insertFirst :
    HashlineOperation := .insert (.before { line := 1, pos := LineNumber.first }) ["Y"]

def patch (operations : List HashlineOperation) : HashlinePatchSection :=
  { path := "file", hash := "0000", operations }

theorem lines : (splitEditableLines text).lines = ["a", "b"] := by decide

theorem valid (mutations : List Mutation) (h : mutations.filter (fun m => m.isRange) =
    [mutationOf replaceFirst 2 0] ∨ mutations.filter (fun m => m.isRange) =
      [mutationOf replaceFirst 2 1]) (hinserts : ∀ m ∈ mutations, m.index = 0) :
    validateNonOverlapping mutations = .ok () := by
  have hranges : rangesOf mutations = [{ start := 0, stop := 0 }] := by
    unfold rangesOf
    rcases h with h | h <;> rw [h] <;> exact List.mergeSort_singleton _
  have hinside : (mutations.any fun m => !m.isRange &&
      (rangesOf mutations).any fun range => range.start < m.index && m.index ≤ range.stop) =
      false := by
    rw [hranges, List.any_eq_false]
    intro m hm
    simp [hinserts m hm]
  unfold validateNonOverlapping
  dsimp only
  rw [hinside, hranges]
  rfl

theorem replace_insert :
    sectionLines text (patch [replaceFirst, insertFirst]) = .ok ["X", "a", "b"] := by
  rw [@sectionLines_eq _ _ [mutationOf replaceFirst 2 0, mutationOf insertFirst 2 1]
    (by rw [lines]; rfl) (valid _ (.inl (by decide)) (by decide)), lines]
  decide

theorem insert_replace :
    sectionLines text (patch [insertFirst, replaceFirst]) = .ok ["Y", "X", "b"] := by
  rw [@sectionLines_eq _ _ [mutationOf insertFirst 2 0, mutationOf replaceFirst 2 1]
    (by rw [lines]; rfl) (valid _ (.inr (by decide)) (by decide)), lines]
  decide

end TwoLinesExample

/-- The insert before the replacement: the section says what the code does. -/
theorem section_gaps_example :
    ["Y", "X", "b"] = sectionGaps (splitEditableLines TwoLinesExample.text).lines
        [TwoLinesExample.insertFirst, TwoLinesExample.replaceFirst] ↔
      KeepsInserts (splitEditableLines TwoLinesExample.text).lines
        [TwoLinesExample.insertFirst, TwoLinesExample.replaceFirst] :=
  section_gaps_iff TwoLinesExample.text _ _ TwoLinesExample.insert_replace

/-- The insert after the replacement: the inserted line is gone, and the replaced one stays. -/
theorem insert_deleted :
    sectionLines TwoLinesExample.text
        (TwoLinesExample.patch [TwoLinesExample.replaceFirst, TwoLinesExample.insertFirst]) =
        .ok ["X", "a", "b"] ∧
      sectionGaps (splitEditableLines TwoLinesExample.text).lines
        [TwoLinesExample.replaceFirst, TwoLinesExample.insertFirst] = ["Y", "X", "b"] := by
  refine ⟨TwoLinesExample.replace_insert, ?_⟩
  rw [TwoLinesExample.lines]
  decide

end PieLab

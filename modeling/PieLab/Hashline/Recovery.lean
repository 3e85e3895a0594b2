import PieLab.Hashline.Patch

/-
  Recovery of a patch on a shifted file

  A section written against an older snapshot is applied where the snapshot stands
  in the current text as a whole, with lines in front of it and behind it. Each
  target is looked up by the lines around it, on its own.

  What is proved:
    1. `resolveCurrentIndexWithContext_shifted` — a target that is found is found
       where the snapshot has it: the window around it is there, and a match
       counts only when it is the only one.
    2. `recoverMutations_shifted` — all operations move by the same distance.
    3. `recovery_exact` — what comes out is what the section makes of the snapshot,
       between the same lines.
-/

namespace PieLab

open Lib

/-- An operation at a line the section names. -/
def HashlineOperation.isAnchored : HashlineOperation → Bool
  | .insert .head _ | .insert .tail _ => false
  | _ => true

section Shifted
variable {base : List String}

theorem mem_findSequenceMatches (pre post : List String) {start stop : Nat}
    (hlt : start < stop) (hle : stop ≤ base.length) :
    pre.length + start ∈ findSequenceMatches (pre ++ base ++ post) (slice base start stop) := by
  have hlen : (slice base start stop).length = stop - start := slice_length hle
  have hne : slice base start stop ≠ [] := by
    intro hnil
    rw [hnil, List.length_nil] at hlen
    omega
  have htotal : (pre ++ base ++ post).length = pre.length + base.length + post.length := by
    rw [List.length_append, List.length_append]
  unfold findSequenceMatches
  rw [if_neg, List.mem_filter, List.mem_range]
  · refine ⟨by omega, ?_⟩
    rw [List.append_assoc, List.drop_length_add_append, beq_iff_eq, hlen,
      List.drop_append_of_le_length (by omega), List.take_append_of_le_length
        (by rw [List.length_drop]; omega)]
    unfold slice
    rw [List.drop_take]
  · rw [not_or]
    exact ⟨hne, by omega⟩

theorem mem_contextMatches (pre post : List String) {index count : Nat} (hcount : 0 < count)
    (hin : index + count ≤ base.length) (radius : Nat) :
    ∃ before, before ≤ index ∧
      (contextMatches base (pre ++ base ++ post) index count radius).1 = before ∧
      pre.length + (index - before) ∈
        (contextMatches base (pre ++ base ++ post) index count radius).2 := by
  refine ⟨min radius index, Nat.min_le_right _ _, rfl, ?_⟩
  apply mem_findSequenceMatches
  · omega
  · omega

theorem resolveAtRadii_shifted (pre post : List String) {index count : Nat} (hcount : 0 < count)
    (hin : index + count ≤ base.length) (radii : List Nat) (ambiguous : Bool) {found : Nat}
    (h : resolveAtRadii base (pre ++ base ++ post) index count radii ambiguous = .ok found) :
    found = pre.length + index := by
  induction radii generalizing ambiguous with
  | nil => cases h
  | cons radius radii ih =>
    obtain ⟨before, hbefore, hfirst, hmem⟩ := mem_contextMatches pre post hcount hin radius
    unfold resolveAtRadii at h
    generalize contextMatches base (pre ++ base ++ post) index count radius = matched at h hfirst hmem
    obtain ⟨beforeCount, places⟩ := matched
    dsimp only at hfirst hmem
    match places, h, hmem with
    | [place], h, hmem =>
      rw [List.mem_singleton] at hmem
      cases h
      omega
    | [], h, hmem => cases hmem
    | _ :: _ :: _, h, _ => exact ih true h

theorem resolveCurrentIndexWithContext_shifted (pre post : List String) {index count : Nat}
    (hcount : 0 < count) (hin : index + count ≤ base.length) {path : String}
    {operation : HashlineOperation} {found : Nat}
    (h : resolveCurrentIndexWithContext base (pre ++ base ++ post) index count path operation =
      .ok found) : found = pre.length + index := by
  unfold resolveCurrentIndexWithContext at h
  split at h
  · next place hplace =>
    cases h
    exact resolveAtRadii_shifted pre post hcount hin _ _ hplace
  · cases h

/-- The same mutation, `d` lines on. -/
def Mutation.shift (d : Nat) (m : Mutation) : Mutation := { m with index := m.index + d }

theorem LineRange.inside (range : LineRange) {lines : List String} (h : range.endLine ≤ lines.length) :
    range.startLine - 1 + (range.endLine - range.startLine + 1) ≤ lines.length := by
  have hpos := range.pos
  have hle := range.le
  omega

theorem LineNumber.inside (anchor : LineNumber) {lines : List String} (h : anchor.line ≤ lines.length) :
    anchor.line - 1 + 1 ≤ lines.length := by
  have hpos := anchor.pos
  omega

theorem recoverMutation_shifted (pre post : List String) {operation : HashlineOperation}
    (hanchored : operation.isAnchored = true) (hinside : operation.lastLine ≤ base.length)
    (order : Nat) {path : String} {m : Mutation}
    (h : recoverMutationAgainstCurrent base (pre ++ base ++ post) path
      (mutationOf operation base.length order) = .ok m) :
    m = (mutationOf operation base.length order).shift pre.length := by
  cases operation with
  | replace range _ | delete range =>
    obtain ⟨index, hindex, hm⟩ := Lib.Except.bind_ok h
    have hbound := range.inside hinside
    have := resolveCurrentIndexWithContext_shifted pre post (Nat.succ_pos _) hbound hindex
    cases hm
    rw [this, Nat.add_comm]
    rfl
  | insert position lines =>
    cases position with
    | head => cases hanchored
    | tail => cases hanchored
    | before anchor =>
      obtain ⟨index, hindex, hm⟩ := Lib.Except.bind_ok h
      have hpos := anchor.pos
      have hbound := anchor.inside hinside
      have := resolveCurrentIndexWithContext_shifted pre post Nat.one_pos hbound hindex
      cases hm
      rw [this, Nat.add_comm]
      rfl
    | after anchor =>
      obtain ⟨index, hindex, hm⟩ := Lib.Except.bind_ok h
      have hpos := anchor.pos
      have hbound := anchor.inside hinside
      have := resolveCurrentIndexWithContext_shifted pre post Nat.one_pos hbound hindex
      cases hm
      rw [this, show pre.length + (anchor.line - 1) + 1 = anchor.line + pre.length by omega]
      rfl

/-- All operations of a section move by the same distance. -/
theorem recoverMutations_shifted (pre post : List String) {operations : List HashlineOperation}
    (hanchored : ∀ operation ∈ operations, operation.isAnchored = true)
    {mutations recovered : List Mutation}
    (hmutations : operationsToMutations base.length operations = .ok mutations) {path : String}
    (h : mutations.mapM (recoverMutationAgainstCurrent base (pre ++ base ++ post) path) =
      .ok recovered) : recovered = mutations.map (Mutation.shift pre.length) := by
  obtain ⟨hinside, rfl⟩ := operationsToMutations_ok hmutations
  have hone : ∀ x ∈ operations.zipIdx, ∀ m,
      recoverMutationAgainstCurrent base (pre ++ base ++ post) path
        (mutationOf x.1 base.length x.2) = .ok m →
      m = (mutationOf x.1 base.length x.2).shift pre.length := by
    intro x hx m hm
    have hmem := List.fst_mem_of_mem_zipIdx hx
    exact recoverMutation_shifted pre post (hanchored _ hmem) (hinside _ hmem) x.2 hm
  generalize operations.zipIdx = placed at h hone
  induction placed generalizing recovered with
  | nil => cases h; rfl
  | cons x placed ih =>
    rw [List.forall_mem_cons] at hone
    rw [List.map_cons, List.mapM_cons] at h
    obtain ⟨m, hm, h⟩ := Lib.Except.bind_ok h
    obtain ⟨rest, hrest, h⟩ := Lib.Except.bind_ok h
    cases h
    rw [hone.1 m hm, ih hrest hone.2]
    rfl

end Shifted

theorem mutatedLines_shifted (pre post : List String) {text : String}
    {patch : HashlinePatchSection} {mutations : List Mutation} {out : List String}
    (hmutations : operationsToMutations (splitEditableLines text).lines.length patch.operations =
      .ok mutations) (h : sectionLines text patch = .ok out) :
    mutatedLines (pre ++ (splitEditableLines text).lines ++ post)
      (mutations.map (Mutation.shift pre.length)) = pre ++ out ++ post := by
  obtain ⟨hplaced, hout⟩ := sectionLines_ok h
  have hsplices : (mutations.map (Mutation.shift pre.length)).map Mutation.toSplice =
      (splicesOf (splitEditableLines text).lines.length patch.operations).map
        (Splice.shift pre.length) := by
    obtain ⟨_, rfl⟩ := operationsToMutations_ok hmutations
    simp only [splicesOf, List.map_map]
    rfl
  rw [mutatedLines_eq, hsplices, spliced_shift hplaced, hout]

/-- A section that applies to the base, without inserts at the head or the tail, does
the same to every text with the base's lines in it, or is refused. -/
theorem recovery_exact (sha256Hex : String → String) {baseText currentText : String}
    {patch : HashlinePatchSection} {out pre post : List String}
    (hanchored : ∀ operation ∈ patch.operations, operation.isAnchored = true)
    (hvalid : sectionLines (normalizeSnapshotText baseText) patch = .ok out)
    (hlines : (splitEditableLines (normalizeSnapshotText currentText)).lines =
      pre ++ (splitEditableLines (normalizeSnapshotText baseText)).lines ++ post)
    (htag : computeFileHash sha256Hex (normalizeSnapshotText currentText) ≠
      computeFileHash sha256Hex (normalizeSnapshotText baseText))
    {result : HashlineRecoveryResult}
    (h : applyHashlineSectionWithRecovery sha256Hex baseText currentText patch = .ok result) :
    result =
      { text := joinEditableLines (pre ++ out ++ post)
          (splitEditableLines (normalizeSnapshotText currentText)).trailingNewline
        recovered := true } := by
  obtain ⟨_, hbase, h⟩ := Lib.Except.bind_ok h
  unfold validateHashlineSnapshot at hbase
  rw [refuse_ok_iff, bne_eq_false_iff_eq] at hbase
  rw [if_neg (by rw [← hbase]; exact htag)] at h
  obtain ⟨text, htext, rfl⟩ := Lib.Except.map_ok h
  obtain ⟨mutations, hmutations, h⟩ := Lib.Except.bind_ok htext
  obtain ⟨_, _, h⟩ := Lib.Except.bind_ok h
  obtain ⟨recovered, hrecovered, h⟩ := Lib.Except.bind_ok h
  obtain ⟨_, _, h⟩ := Lib.Except.bind_ok h
  have hout : applyMutations (splitEditableLines (normalizeSnapshotText currentText)).lines
      (splitEditableLines (normalizeSnapshotText currentText)).trailingNewline recovered = text :=
    Except.ok.inj h
  rw [hlines] at hrecovered hout
  rw [recoverMutations_shifted pre post hanchored hmutations hrecovered] at hout
  unfold applyMutations at hout
  rw [mutatedLines_shifted pre post hmutations hvalid] at hout
  rw [← hout]

/-! A line inserted behind the first of two, carried over to a text with a line in
front and a line behind. -/

namespace ShiftedExample

def baseText : String := "x\ny"

def currentText : String := "p\nx\ny\ns"

/-- The digests of the two texts. -/
def sha256Hex (text : String) : String :=
  if text = baseText then "9ab9de25768ac172235e119b76362ecddad33878fe9a7792cdddbe47236f9a87"
  else "31229c36780fcb160a35edda6c59dbe5ccc8c8f892c007edfd1be1eaacd55072"

def operation : HashlineOperation := .insert (.after { line := 1, pos := LineNumber.first }) ["new"]

def patch : HashlinePatchSection := { path := "f", hash := "9AB9", operations := [operation] }

theorem sectionLines_base :
    sectionLines (normalizeSnapshotText baseText) patch = .ok ["x", "new", "y"] := by
  have hops : operationsToMutations (splitEditableLines (normalizeSnapshotText baseText)).lines.length
      patch.operations = .ok [mutationOf operation 2 0] := by decide +kernel
  have hvalid : validateNonOverlapping [mutationOf operation 2 0] = .ok () :=
    validateNonOverlapping_insert (by decide +kernel)
  rw [sectionLines_eq hops hvalid]
  decide +kernel

theorem recovered_current :
    applyHashlineSectionWithRecovery sha256Hex baseText currentText patch =
      .ok { text := "p\nx\nnew\ny\ns", recovered := true } := by
  have hvalid : validateHashlineSnapshot sha256Hex (normalizeSnapshotText baseText) patch.hash
      patch.path = .ok () := by decide +kernel
  have hstale : computeFileHash sha256Hex (normalizeSnapshotText currentText) ≠
      upperTag patch.hash := by decide +kernel
  have hrecover : recoverSection (normalizeSnapshotText baseText) (normalizeSnapshotText currentText)
      patch = .ok "p\nx\nnew\ny\ns" := by
    rw [@recoverSection_insert _ _ _ (mutationOf operation 2 0)
      ((mutationOf operation 2 0).shift 1) (by decide +kernel) (by decide +kernel) (by decide +kernel) (by decide +kernel)]
    decide +kernel
  unfold applyHashlineSectionWithRecovery
  dsimp only
  rw [hvalid, if_neg hstale, hrecover]
  rfl

end ShiftedExample

theorem recovery_exact_example :
    ({ text := "p\nx\nnew\ny\ns", recovered := true } : HashlineRecoveryResult) =
      { text := joinEditableLines (["p"] ++ ["x", "new", "y"] ++ ["s"])
          (splitEditableLines (normalizeSnapshotText ShiftedExample.currentText)).trailingNewline
        recovered := true } :=
  @recovery_exact ShiftedExample.sha256Hex ShiftedExample.baseText ShiftedExample.currentText
    ShiftedExample.patch ["x", "new", "y"] ["p"] ["s"] (by decide +kernel)
    ShiftedExample.sectionLines_base (by decide +kernel) (by decide +kernel) _ ShiftedExample.recovered_current

end PieLab

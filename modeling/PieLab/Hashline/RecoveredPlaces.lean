import PieLab.Hashline.Gaps
import PieLab.Hashline.Parse
import PieLab.Hashline.Recovery

/-
  What a recovered section touches

  A section written against an older snapshot is carried over operation by
  operation: each target is looked up in the current text, with lines around it.

  What is proved:
    1. `contextMatches_found` — where a target is found, its own lines stand.
    2. `recoverMutation_found` — a range is carried over to equal lines, an anchor
       to an equal line.
    3. `recovered_places` — all operations of a recovered section; their ranges do
       not overlap.
    4. `recovery_touches_seen` — every line put in, replaced and kept is where it
       belongs exactly when no range takes away what a later operation has put at
       its start.
    5. `recovered_insert_lost` — the line inserted before a replaced one, on a file
       that has grown.

  Correspondence (TypeScript ↔ Lean): resolveCurrentIndexWithContext,
  recoverMutationAgainstCurrent and applyHashlineSectionWithRecovery of
  packages/hashline/src/patch.ts. `relocatedMutations` is the first part of the
  last one.
-/

namespace PieLab

open Lib

/-! ## Looking up lines -/

theorem slice_slice (l : List String) {a b c d : Nat} (h : a + d ≤ b) :
    slice (slice l a b) c d = slice l (a + c) (a + d) := by
  apply List.ext_getElem?
  intro i
  simp only [slice, List.getElem?_drop, List.getElem?_take]
  by_cases hd : c + i < d
  · have hb : a + (c + i) < b := by omega
    have hd' : a + (c + i) < a + d := by omega
    rw [if_pos hd, if_pos hb, Nat.add_assoc, if_pos hd']
  · have hd' : ¬ a + c + i < a + d := by omega
    rw [if_neg hd, if_neg hd']

theorem findSequenceMatches_found {lines pattern : List String} {i : Nat}
    (h : i ∈ findSequenceMatches lines pattern) :
    slice lines i (i + pattern.length) = pattern ∧ i + pattern.length ≤ lines.length := by
  unfold findSequenceMatches at h
  by_cases hnone : pattern = [] ∨ lines.length < pattern.length
  · rw [if_pos hnone] at h
    exact absurd h List.not_mem_nil
  · rw [if_neg hnone, List.mem_filter, List.mem_range, beq_iff_eq] at h
    obtain ⟨hlt, hsame⟩ := h
    refine ⟨?_, by omega⟩
    unfold slice
    rw [List.drop_take, Nat.add_sub_cancel_left]
    exact hsame

variable {base current : List String} {index count : Nat} {operation : HashlineOperation}

/-- Where a target is found with the lines around it, its own lines stand. -/
theorem contextMatches_found {radius i : Nat} (hin : index + count ≤ base.length)
    (h : i ∈ (contextMatches base current index count radius).2) :
    let place := i + (contextMatches base current index count radius).1
    slice current place (place + count) = slice base index (index + count) ∧
      place + count ≤ current.length := by
  let before := min radius index
  let after := min radius (base.length - (index + count))
  have hbefore : before ≤ index := Nat.min_le_right _ _
  have hafter : after ≤ base.length - (index + count) := Nat.min_le_right _ _
  have hend : index + count + after ≤ base.length := by omega
  have hlength : (slice base (index - before) (index + count + after)).length =
      before + count + after := by
    rw [slice_length hend]
    omega
  obtain ⟨hsame, hle⟩ := @findSequenceMatches_found _
    (slice base (index - before) (index + count + after)) _ h
  rw [hlength] at hsame hle
  refine ⟨?_, by show i + before + count ≤ current.length; omega⟩
  show slice current (i + before) (i + before + count) = slice base index (index + count)
  calc slice current (i + before) (i + before + count)
      = slice (slice current i (i + (before + count + after))) before (before + count) := by
        rw [slice_slice _ (by omega), Nat.add_assoc i before count]
    _ = slice (slice base (index - before) (index + count + after)) before (before + count) := by
        rw [hsame]
    _ = slice base (index - before + before) (index - before + (before + count)) := by
        rw [slice_slice _ (by omega)]
    _ = slice base index (index + count) := by
        have hindex : index - before + before = index := by omega
        have hstop : index - before + (before + count) = index + count := by omega
        rw [hindex, hstop]

theorem resolveAtRadii_found (hin : index + count ≤ base.length) (radii : List Nat)
    (ambiguous : Bool) {found : Nat}
    (h : resolveAtRadii base current index count radii ambiguous = .ok found) :
    slice current found (found + count) = slice base index (index + count) ∧
      found + count ≤ current.length := by
  induction radii generalizing ambiguous with
  | nil => cases h
  | cons radius radii ih =>
    unfold resolveAtRadii at h
    have hplace : ∀ i ∈ (contextMatches base current index count radius).2, _ :=
      fun i hi => contextMatches_found hin hi
    generalize contextMatches base current index count radius = matched at h hplace
    obtain ⟨beforeCount, places⟩ := matched
    rcases places with - | ⟨place, - | ⟨second, rest⟩⟩
    · exact ih ambiguous h
    · cases h
      exact hplace place (List.mem_singleton_self place)
    · exact ih true h

theorem resolveCurrentIndex_found (hin : index + count ≤ base.length) {path : String} {found : Nat}
    (h : resolveCurrentIndexWithContext base current index count path operation = .ok found) :
    slice current found (found + count) = slice base index (index + count) ∧
      found + count ≤ current.length := by
  unfold resolveCurrentIndexWithContext at h
  cases hplace : resolveAtRadii base current index count
      (List.range (maxRecoveryContextLines + 1)) false with
  | error ambiguous =>
    rw [hplace] at h
    cases h
  | ok place =>
    rw [hplace] at h
    cases h
    exact resolveAtRadii_found hin _ _ hplace

/-! ## One operation -/

/-- The line an insert stands at, in the current text and in the base. -/
def anchoredAt (base current : List String) (m : Mutation) : InsertPosition → Prop
  | .before anchor => anchor.line ≤ base.length ∧ current[m.index]? = base[anchor.line - 1]?
  | .after anchor => anchor.line ≤ base.length ∧ 0 < m.index ∧
      current[m.index - 1]? = base[anchor.line - 1]?
  | .head => m.index = 0
  | .tail => m.index = current.length

/-- A mutation of the current text whose target is equal to what its operation names in
the base. -/
structure AtSeenLines (base current : List String) (m : Mutation) : Prop where
  inside : m.index + m.deleteCount ≤ current.length
  lines : m.insertLines = m.operation.bodyLines
  isRange : m.isRange = m.operation.range?.isSome
  range : ∀ range, m.operation.range? = some range →
    slice current m.index (m.index + m.deleteCount) = range.linesOf base
  anchor : ∀ position lines, m.operation = .insert position lines →
    anchoredAt base current m position

theorem range_linesOf (range : LineRange) :
    slice base (range.startLine - 1) (range.startLine - 1 + (range.endLine - range.startLine + 1)) =
      range.linesOf base := by
  have hpos := range.pos
  have hle := range.le
  have hstop : range.startLine - 1 + (range.endLine - range.startLine + 1) = range.endLine := by
    omega
  rw [hstop]
  rfl

theorem getElem?_of_slice {i j : Nat} (h : slice current i (i + 1) = slice base j (j + 1))
    (hi : i < current.length) (hj : j < base.length) : current[i]? = base[j]? := by
  rw [slice_succ hi, slice_succ hj, List.getElem?_eq_getElem hi, List.getElem?_eq_getElem hj] at h
  rw [List.getElem?_eq_getElem hi, List.getElem?_eq_getElem hj]
  simpa using h

/-- An operation that is carried over stands at lines equal to those it names. -/
theorem recoverMutation_found (hinside : operation.lastLine ≤ base.length) (order : Nat)
    {path : String} {m : Mutation} (h : recoverMutationAgainstCurrent base current path
      (mutationOf operation base.length order) = .ok m) :
    m.operation = operation ∧ m.sourceOrder = order ∧ AtSeenLines base current m := by
  cases operation with
  | replace range _ | delete range =>
    obtain ⟨index, hindex, hm⟩ := Lib.Except.bind_ok h
    cases hm
    obtain ⟨hsame, hle⟩ := resolveCurrentIndex_found (range.inside hinside) hindex
    refine ⟨rfl, rfl, { inside := hle, lines := rfl, isRange := ?_, range := ?_, anchor := ?_ }⟩
    · simp [Splice.isRange, HashlineOperation.range?, mutationOf]
    · intro range' hrange
      cases hrange
      exact hsame.trans (range_linesOf range)
    · intro position lines' hop
      cases hop
  | insert position lines =>
    cases position with
    | head =>
      cases h
      refine ⟨rfl, rfl, { inside := Nat.zero_le _, lines := rfl, isRange := rfl, range := ?_
                          anchor := ?_ }⟩
      · intro range hrange
        cases hrange
      · intro position lines' hop
        cases hop
        rfl
    | tail =>
      cases h
      refine ⟨rfl, rfl, { inside := Nat.le_refl _, lines := rfl, isRange := rfl, range := ?_
                          anchor := ?_ }⟩
      · intro range hrange
        cases hrange
      · intro position lines' hop
        cases hop
        rfl
    | before anchor =>
      obtain ⟨index, hindex, hm⟩ := Lib.Except.bind_ok h
      cases hm
      have hline : anchor.line ≤ base.length := hinside
      have hin := anchor.inside hline
      obtain ⟨hsame, hle⟩ := resolveCurrentIndex_found hin hindex
      have hget : current[index]? = base[anchor.line - 1]? :=
        getElem?_of_slice hsame (by omega) (by omega)
      refine ⟨rfl, rfl, { inside := ?_, lines := rfl, isRange := rfl, range := ?_
                          anchor := ?_ }⟩
      · show index + 0 ≤ current.length
        omega
      · intro range hrange
        cases hrange
      · intro position lines' hop
        cases hop
        exact ⟨hline, hget⟩
    | after anchor =>
      obtain ⟨index, hindex, hm⟩ := Lib.Except.bind_ok h
      cases hm
      have hline : anchor.line ≤ base.length := hinside
      have hin := anchor.inside hline
      obtain ⟨hsame, hle⟩ := resolveCurrentIndex_found hin hindex
      have hget : current[index]? = base[anchor.line - 1]? :=
        getElem?_of_slice hsame (by omega) (by omega)
      refine ⟨rfl, rfl, { inside := ?_, lines := rfl, isRange := rfl, range := ?_
                          anchor := ?_ }⟩
      · show index + 1 + 0 ≤ current.length
        omega
      · intro range hrange
        cases hrange
      · intro position lines' hop
        cases hop
        exact ⟨hline, Nat.succ_pos index, hget⟩

/-! ## A section -/

/-- The mutations of a section, each where its target is found in the current text. -/
def relocatedMutations (baseText currentText : String) (patch : HashlinePatchSection) :
    Except String (List Mutation) := do
  let baseLines := (splitEditableLines baseText).lines
  let baseMutations ← operationsToMutations baseLines.length patch.operations
  validateNonOverlapping baseMutations
  let recovered ← baseMutations.mapM
    (recoverMutationAgainstCurrent baseLines (splitEditableLines currentText).lines patch.path)
  validateNonOverlapping recovered
  return recovered

theorem recoverSection_relocated (baseText currentText : String) (patch : HashlinePatchSection) :
    recoverSection baseText currentText patch =
      (relocatedMutations baseText currentText patch).map fun recovered =>
        applyMutations (splitEditableLines currentText).lines
          (splitEditableLines currentText).trailingNewline recovered := by
  unfold recoverSection relocatedMutations
  dsimp only
  cases hops : operationsToMutations (splitEditableLines baseText).lines.length
      patch.operations with
  | error message => rfl
  | ok baseMutations =>
    show (validateNonOverlapping baseMutations >>= _) =
      Except.map _ (validateNonOverlapping baseMutations >>= _)
    cases validateNonOverlapping baseMutations with
    | error message => rfl
    | ok _ =>
      show (baseMutations.mapM _ >>= _) = Except.map _ (baseMutations.mapM _ >>= _)
      cases baseMutations.mapM (recoverMutationAgainstCurrent (splitEditableLines baseText).lines
          (splitEditableLines currentText).lines patch.path) with
      | error message => rfl
      | ok recovered =>
        show (validateNonOverlapping recovered >>= _) =
          Except.map _ (validateNonOverlapping recovered >>= _)
        cases validateNonOverlapping recovered with
        | error message => rfl
        | ok _ => rfl

theorem relocatedMutations_of {baseText currentText : String} {patch : HashlinePatchSection}
    {mutations recovered : List Mutation}
    (hops : operationsToMutations (splitEditableLines baseText).lines.length patch.operations =
      .ok mutations) (hvalid : validateNonOverlapping mutations = .ok ())
    (hrecover : mutations.mapM (recoverMutationAgainstCurrent (splitEditableLines baseText).lines
      (splitEditableLines currentText).lines patch.path) = .ok recovered)
    (hvalid' : validateNonOverlapping recovered = .ok ()) :
    relocatedMutations baseText currentText patch = .ok recovered := by
  unfold relocatedMutations
  dsimp only
  rw [hops]
  show (validateNonOverlapping mutations >>= _) = _
  rw [hvalid]
  show (mutations.mapM (recoverMutationAgainstCurrent (splitEditableLines baseText).lines
    (splitEditableLines currentText).lines patch.path) >>= _) = _
  rw [hrecover]
  show (validateNonOverlapping recovered >>= _) = _
  rw [hvalid']
  rfl

theorem recoverMutations_found {base current : List String} {path : String}
    {placed : List (HashlineOperation × Nat)}
    (hinside : ∀ x ∈ placed, x.1.lastLine ≤ base.length) {recovered : List Mutation}
    (h : (placed.map fun x => mutationOf x.1 base.length x.2).mapM
      (recoverMutationAgainstCurrent base current path) = .ok recovered) :
    recovered.map (fun m => (m.operation, m.sourceOrder)) = placed ∧
      ∀ m ∈ recovered, AtSeenLines base current m := by
  induction placed generalizing recovered with
  | nil =>
    cases h
    refine ⟨rfl, ?_⟩
    intro m hm
    exact absurd hm List.not_mem_nil
  | cons x placed ih =>
    rw [List.forall_mem_cons] at hinside
    rw [List.map_cons, List.mapM_cons] at h
    obtain ⟨m, hm, h⟩ := Lib.Except.bind_ok h
    obtain ⟨rest, hrest, h⟩ := Lib.Except.bind_ok h
    cases h
    obtain ⟨hop, horder, hseen⟩ := recoverMutation_found hinside.1 x.2 hm
    obtain ⟨hplaced, hall⟩ := ih hinside.2 hrest
    refine ⟨?_, List.forall_mem_cons.mpr ⟨hseen, hall⟩⟩
    rw [List.map_cons, hplaced, hop, horder]

/-- All operations of a section are carried over in their order, each to lines equal to those
it names; the ranges do not overlap, and nothing is put inside one. -/
theorem recovered_places {baseText currentText : String} {patch : HashlinePatchSection}
    {relocated : List Mutation} (h : relocatedMutations baseText currentText patch = .ok relocated) :
    relocated.map Mutation.operation = patch.operations ∧
      (∀ m ∈ relocated, AtSeenLines (splitEditableLines baseText).lines
        (splitEditableLines currentText).lines m) ∧
      WellPlaced (splitEditableLines currentText).lines (relocated.map Mutation.toSplice) := by
  obtain ⟨mutations, hmutations, h⟩ := Lib.Except.bind_ok h
  obtain ⟨_, _, h⟩ := Lib.Except.bind_ok h
  obtain ⟨recovered, hrecovered, h⟩ := Lib.Except.bind_ok h
  obtain ⟨_, hvalid, h⟩ := Lib.Except.bind_ok h
  cases h
  obtain ⟨hinside, rfl⟩ := operationsToMutations_ok hmutations
  obtain ⟨hplaced, hseen⟩ := @recoverMutations_found _ _ _ patch.operations.zipIdx
    (fun x hx => hinside x.1 (List.fst_mem_of_mem_zipIdx hx)) _ hrecovered
  have hoperations : relocated.map Mutation.operation = patch.operations := by
    have hfst := congrArg (List.map Prod.fst) hplaced
    rw [List.map_map, List.zipIdx_map_fst] at hfst
    exact hfst
  have horders : relocated.map (fun m => m.sourceOrder) =
      List.range' 0 patch.operations.length := by
    have hsnd := congrArg (List.map Prod.snd) hplaced
    rw [List.map_map, List.zipIdx_map_snd] at hsnd
    exact hsnd
  have hordered : relocated.Pairwise fun a b => a.sourceOrder < b.sourceOrder := by
    rw [← List.pairwise_map (f := fun m : Mutation => m.sourceOrder) (R := (· < ·)), horders]
    exact List.pairwise_lt_range'
  exact ⟨hoperations, hseen, wellPlaced_of_ok hordered (fun m hm => (hseen m hm).inside) hvalid⟩

/-- What a recovered section may do: every operation is carried over to lines equal to those it
names, the ranges do not overlap, and every gap of the current text holds what is put there, what
replaces the range that starts there, and its line unless a range names it. -/
structure TouchesOnlySeen (base current : List String) (operations : List HashlineOperation)
    (relocated : List Mutation) (out : List String) : Prop where
  operations : relocated.map Mutation.operation = operations
  seen : ∀ m ∈ relocated, AtSeenLines base current m
  apart : relocated.Pairwise fun a b => a.isRange → b.isRange → Splice.Apart a.toSplice b.toSplice
  kept : out = gapText current (relocated.map Mutation.toSplice)

/-- What the operations behind a range put at its start, in the current text. -/
def insertedBehind (r : Mutation) (after : List Mutation) : List String :=
  (after.filter fun m => m.index == r.index && !m.isRange).flatMap fun m => m.operation.bodyLines

/-- Every range leaves what the operations after it put at its start. -/
def RelocatedKeepInserts (base : List String) (relocated : List Mutation) : Prop :=
  ∀ before r after range, relocated = before ++ r :: after → r.operation.range? = some range →
    LeavesInserts base range r.operation.body (insertedBehind r after)

theorem bodyLines_of_range {range : LineRange} (h : operation.range? = some range) :
    operation.bodyLines = operation.body := by
  cases operation with
  | replace range lines => rfl
  | delete range => rfl
  | insert position lines => cases h

theorem rangeText_relocated {before after : List Mutation} {r : Mutation} {range : LineRange}
    (hordered : ((before ++ r :: after).map Mutation.toSplice).Pairwise
      fun a b => a.sourceOrder < b.sourceOrder)
    (hseen : ∀ m ∈ before ++ r :: after, AtSeenLines base current m)
    (hr : r.operation.range? = some range) :
    rangeText current ((before ++ r :: after).map Mutation.toSplice) r.toSplice =
        laterInserts ((before ++ r :: after).map Mutation.toSplice) r.toSplice ++ r.insertLines ↔
      LeavesInserts base range r.operation.body (insertedBehind r after) := by
  have hself := hseen r (by simp)
  have hlines : slice current r.index (r.index + r.deleteCount) = range.linesOf base :=
    hself.range range hr
  have hcount : r.deleteCount = (range.linesOf base).length := by
    rw [← hlines, slice_length hself.inside]
    omega
  have hlater : laterInserts ((before ++ r :: after).map Mutation.toSplice) r.toSplice =
      insertedBehind r after := by
    rw [List.map_append, List.map_cons] at hordered ⊢
    rw [laterInserts_append hordered, List.filter_map, List.flatMap_map]
    unfold insertedBehind
    apply List.flatMap_congr
    intro m hm
    have hmem : m ∈ before ++ r :: after := by
      simp [List.mem_of_mem_filter hm]
    exact (hseen m hmem).lines
  have hbody : r.insertLines = r.operation.body := hself.lines.trans (bodyLines_of_range hr)
  unfold rangeText LeavesInserts
  rw [hlater, hlines, hbody, hcount]

theorem touchesOnlySeen_iff {baseText currentText : String} {patch : HashlinePatchSection}
    {relocated : List Mutation}
    (h : relocatedMutations baseText currentText patch = .ok relocated) :
    TouchesOnlySeen (splitEditableLines baseText).lines (splitEditableLines currentText).lines
        patch.operations relocated (mutatedLines (splitEditableLines currentText).lines relocated) ↔
      RelocatedKeepInserts (splitEditableLines baseText).lines relocated := by
  obtain ⟨hoperations, hseen, hplaced⟩ := recovered_places h
  have hvalid : validateNonOverlapping relocated = .ok () := by
    obtain ⟨_, _, h⟩ := Lib.Except.bind_ok h
    obtain ⟨_, _, h⟩ := Lib.Except.bind_ok h
    obtain ⟨recovered, _, h⟩ := Lib.Except.bind_ok h
    obtain ⟨_, hvalid, h⟩ := Lib.Except.bind_ok h
    cases h
    exact hvalid
  have hkept : mutatedLines (splitEditableLines currentText).lines relocated =
      gapText (splitEditableLines currentText).lines (relocated.map Mutation.toSplice) ↔
      RelocatedKeepInserts (splitEditableLines baseText).lines relocated := by
    rw [mutatedLines_eq, spliced_eq_iff hplaced]
    constructor
    · intro hall before r after range hsplit hr
      subst hsplit
      rw [← rangeText_relocated hplaced.ordered hseen hr]
      apply hall
      · exact List.mem_map_of_mem (by simp)
      · show r.isRange = true
        rw [(hseen r (by simp)).isRange, hr]
        rfl
    · intro hkeeps r hr hrange
      obtain ⟨m, hm, rfl⟩ := List.mem_map.mp hr
      obtain ⟨before, after, hsplit⟩ := List.append_of_mem hm
      subst hsplit
      have hisSome : m.operation.range?.isSome = true := by
        rw [← (hseen m hm).isRange]
        exact hrange
      obtain ⟨range, hrange⟩ := Option.isSome_iff_exists.mp hisSome
      exact (rangeText_relocated hplaced.ordered hseen hrange).mpr
        (hkeeps before m after range rfl hrange)
  constructor
  · intro htouches
    exact hkept.mp htouches.kept
  · intro hkeeps
    exact { operations := hoperations, seen := hseen, apart := (validateNonOverlapping_ok hvalid).1
            kept := hkept.mpr hkeeps }

/-- A recovered section touches only what was seen exactly when no range takes away what a
later operation has put at its start. -/
theorem recovery_touches_seen {sha256Hex : String → String} {baseText currentText : String}
    {patch : HashlinePatchSection} {result : HashlineRecoveryResult}
    (h : applyHashlineSectionWithRecovery sha256Hex baseText currentText patch = .ok result)
    (hrecovered : result.recovered = true) :
    let base := (splitEditableLines (normalizeSnapshotText baseText)).lines
    let current := splitEditableLines (normalizeSnapshotText currentText)
    ∃ relocated, relocatedMutations (normalizeSnapshotText baseText)
        (normalizeSnapshotText currentText) patch = .ok relocated ∧
      result.text = joinEditableLines (mutatedLines current.lines relocated)
        current.trailingNewline ∧
      (TouchesOnlySeen base current.lines patch.operations relocated
          (mutatedLines current.lines relocated) ↔ RelocatedKeepInserts base relocated) := by
  obtain ⟨_, _, h⟩ := Lib.Except.bind_ok h
  by_cases htag : computeFileHash sha256Hex (normalizeSnapshotText currentText) =
      upperTag patch.hash
  · rw [if_pos htag] at h
    obtain ⟨text, _, rfl⟩ := Lib.Except.map_ok h
    cases hrecovered
  · rw [if_neg htag] at h
    obtain ⟨text, htext, rfl⟩ := Lib.Except.map_ok h
    rw [recoverSection_relocated] at htext
    obtain ⟨relocated, hrelocated, htext⟩ := Lib.Except.map_ok htext
    refine ⟨relocated, hrelocated, htext.symm, ?_⟩
    exact touchesOnlySeen_iff hrelocated

theorem recovery_touches_seen_example :
    ∃ relocated, relocatedMutations (normalizeSnapshotText ShiftedExample.baseText)
        (normalizeSnapshotText ShiftedExample.currentText) ShiftedExample.patch = .ok relocated ∧
      "p\nx\nnew\ny\ns" = joinEditableLines (mutatedLines
        (splitEditableLines (normalizeSnapshotText ShiftedExample.currentText)).lines relocated)
        (splitEditableLines (normalizeSnapshotText ShiftedExample.currentText)).trailingNewline ∧
      (TouchesOnlySeen (splitEditableLines (normalizeSnapshotText ShiftedExample.baseText)).lines
          (splitEditableLines (normalizeSnapshotText ShiftedExample.currentText)).lines
          ShiftedExample.patch.operations relocated (mutatedLines
            (splitEditableLines (normalizeSnapshotText ShiftedExample.currentText)).lines relocated) ↔
        RelocatedKeepInserts
          (splitEditableLines (normalizeSnapshotText ShiftedExample.baseText)).lines relocated) :=
  recovery_touches_seen ShiftedExample.recovered_current rfl

theorem validateNonOverlapping_oneRange {mutations : List Mutation} {r : Mutation}
    (hrange : mutations.filter (fun m => m.isRange) = [r])
    (hinside : ∀ m ∈ mutations, ¬ (r.index < m.index ∧ m.index ≤ r.index + r.deleteCount - 1)) :
    validateNonOverlapping mutations = .ok () := by
  have hranges : rangesOf mutations = [r.range] := by
    unfold rangesOf
    rw [hrange]
    exact List.mergeSort_singleton _
  have hnone : (mutations.any fun m => !m.isRange &&
      (rangesOf mutations).any fun range => range.start < m.index && m.index ≤ range.stop) =
      false := by
    rw [hranges, List.any_eq_false]
    intro m hm
    have hm := hinside m hm
    simp only [Mutation.range, List.any_cons, List.any_nil, Bool.or_false, Bool.and_eq_true,
      decide_eq_true_eq]
    intro hall
    exact hm hall.2
  unfold validateNonOverlapping
  dsimp only
  rw [hnone, hranges]
  rfl

/-! The first line of two is replaced and a line is inserted before it; meanwhile a line
has come in front. -/

namespace LostInsertExample

def baseText : String := "a\nb"

def currentText : String := "z\na\nb"

/-- The digests of the two texts. -/
def sha256Hex (text : String) : String :=
  if text = baseText then "7e18f737311b2dc3b2f269dd78396b0351f14fb66efa879f768cb23181883c78"
  else "a5b0b73c9c107d76d4ec16802896a2a9332049099e0b7b8c33c23b0bf8a0d4ab"

def replaceFirst : HashlineOperation :=
  .replace { startLine := 1, endLine := 1, pos := LineNumber.first, le := LineNumber.first } ["X"]

def insertFirst :
    HashlineOperation := .insert (.before { line := 1, pos := LineNumber.first }) ["Y"]

def patch : HashlinePatchSection :=
  { path := "f", hash := "7E18", operations := [replaceFirst, insertFirst] }

/-- Both are found one line on. -/
def relocated : List Mutation :=
  [(mutationOf replaceFirst 2 0).shift 1, (mutationOf insertFirst 2 1).shift 1]

theorem relocated_eq :
    relocatedMutations (normalizeSnapshotText baseText) (normalizeSnapshotText currentText) patch =
      .ok relocated := by
  have hops : operationsToMutations (splitEditableLines (normalizeSnapshotText baseText)).lines.length
      patch.operations = .ok [mutationOf replaceFirst 2 0, mutationOf insertFirst 2 1] := by decide +kernel
  have hvalid : validateNonOverlapping [mutationOf replaceFirst 2 0, mutationOf insertFirst 2 1] =
      .ok () := validateNonOverlapping_oneRange (r := mutationOf replaceFirst 2 0) (by decide +kernel)
        (by decide +kernel)
  have hrecover : [mutationOf replaceFirst 2 0, mutationOf insertFirst 2 1].mapM
      (recoverMutationAgainstCurrent (splitEditableLines (normalizeSnapshotText baseText)).lines
        (splitEditableLines (normalizeSnapshotText currentText)).lines patch.path) =
      .ok relocated := by decide +kernel
  have hvalid' : validateNonOverlapping relocated = .ok () :=
    validateNonOverlapping_oneRange (r := (mutationOf replaceFirst 2 0).shift 1) (by decide +kernel)
      (by decide +kernel)
  exact relocatedMutations_of hops hvalid hrecover hvalid'

theorem mutated : mutatedLines ["z", "a", "b"] relocated = ["z", "X", "a", "b"] := by
  have hplaced := (recovered_places relocated_eq).2.2
  have hlines : (splitEditableLines (normalizeSnapshotText currentText)).lines =
      ["z", "a", "b"] := by
    decide +kernel
  rw [hlines] at hplaced
  rw [mutatedLines_eq, spliced_eq_tailAt hplaced]
  decide +kernel

theorem recovered_current :
    applyHashlineSectionWithRecovery sha256Hex baseText currentText patch =
      .ok { text := "z\nX\na\nb", recovered := true } := by
  have hvalid : validateHashlineSnapshot sha256Hex (normalizeSnapshotText baseText) patch.hash
      patch.path = .ok () := by decide +kernel
  have hstale : computeFileHash sha256Hex (normalizeSnapshotText currentText) ≠
      upperTag patch.hash := by decide +kernel
  have hlines : splitEditableLines (normalizeSnapshotText currentText) =
      { lines := ["z", "a", "b"], trailingNewline := false } := by decide +kernel
  have hrecover : recoverSection (normalizeSnapshotText baseText) (normalizeSnapshotText currentText)
      patch = .ok "z\nX\na\nb" := by
    rw [recoverSection_relocated, relocated_eq, hlines]
    show Except.ok (joinEditableLines (mutatedLines ["z", "a", "b"] relocated) false) = _
    rw [mutated]
    decide +kernel
  unfold applyHashlineSectionWithRecovery
  dsimp only
  rw [hvalid, if_neg hstale, hrecover]
  rfl

end LostInsertExample

/-- The inserted line is gone, and the line that was to be replaced stays. -/
theorem recovered_insert_lost :
    applyHashlineSectionWithRecovery LostInsertExample.sha256Hex LostInsertExample.baseText
        LostInsertExample.currentText LostInsertExample.patch =
        .ok { text := "z\nX\na\nb", recovered := true } ∧
      relocatedMutations (normalizeSnapshotText LostInsertExample.baseText)
        (normalizeSnapshotText LostInsertExample.currentText) LostInsertExample.patch =
        .ok LostInsertExample.relocated ∧
      ¬ TouchesOnlySeen ["a", "b"] ["z", "a", "b"] LostInsertExample.patch.operations
        LostInsertExample.relocated ["z", "X", "a", "b"] := by
  refine ⟨LostInsertExample.recovered_current, LostInsertExample.relocated_eq, ?_⟩
  intro h
  have hgaps : gapText ["z", "a", "b"] (LostInsertExample.relocated.map Mutation.toSplice) =
      ["z", "Y", "X", "b"] := by decide +kernel
  have hkept := h.kept
  rw [hgaps] at hkept
  exact absurd hkept (by decide +kernel)

end PieLab

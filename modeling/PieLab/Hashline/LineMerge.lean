import PieLab.Lib.PositionMerge
import PieLab.Tools.ReadLines

/-
  The three-way merge

  The three texts are compared line by line at equal line numbers; a line that is
  missing counts as an empty one. A line changed on both sides in different ways
  is a conflict.

  What is proved:
    1. `threeWayMerge_lines` — without conflicts, the merged lines are the base's,
       at every number with the side that differs from it.
    2. `merge_keeps_blocks` — a block changed on each side: both changes are in the
       merged text exactly when the block in front keeps its number of lines and
       the one behind loses none, or when one of them is unchanged.
    3. `deleted_line_merged` — the last line deleted on one side, the first one
       changed on the other.

  Correspondence (TypeScript ↔ Lean): the names of packages/hashline/src/conflict.ts.
-/

namespace PieLab

open Lib

/-! ## The merge -/

structure ConflictMarker where
  lineStart : Nat
  lineEnd : Nat
  ours : List String
  theirs : List String
  base : List String
  deriving DecidableEq, Repr

structure MergeResult where
  merged : String
  conflicts : List ConflictMarker
  hasConflicts : Bool
  deriving DecidableEq, Repr

/-- The lines and the conflicts so far. -/
structure MergedLines where
  result : List String
  conflicts : List ConflictMarker
  deriving DecidableEq, Repr

/-- `lines[i] || ""` -/
def lineAt (lines : List String) (i : Nat) : String := lines.getD i ""

def conflictLines (ourLine theirLine : String) : List String :=
  ["<<<<<<< HEAD", ourLine, "=======", theirLine, ">>>>>>>"]

/-- One turn of the loop over the line numbers. -/
def mergeLine (baseLines ourLines theirLines : List String) (s : MergedLines) (i : Nat) :
    MergedLines :=
  let baseLine := lineAt baseLines i
  let ourLine := lineAt ourLines i
  let theirLine := lineAt theirLines i
  if ourLine = theirLine then { s with result := s.result ++ [ourLine] }
  else if ourLine = baseLine then { s with result := s.result ++ [theirLine] }
  else if theirLine = baseLine then { s with result := s.result ++ [ourLine] }
  else
    let result := s.result ++ conflictLines ourLine theirLine
    { result
      conflicts := s.conflicts ++
        [{ lineStart := result.length - 5, lineEnd := result.length - 1, ours := [ourLine]
           theirs := [theirLine], base := [baseLine] }] }

/-- The number of lines that are compared. -/
def maxLines (baseLines ourLines theirLines : List String) : Nat :=
  max baseLines.length (max ourLines.length theirLines.length)

def mergeLines (baseLines ourLines theirLines : List String) : MergedLines :=
  (List.range (maxLines baseLines ourLines theirLines)).foldl
    (mergeLine baseLines ourLines theirLines) { result := [], conflicts := [] }

def threeWayMerge (base ours theirs : String) : MergeResult :=
  if ours = theirs then { merged := ours, conflicts := [], hasConflicts := false }
  else if ours = base then { merged := theirs, conflicts := [], hasConflicts := false }
  else if theirs = base then { merged := ours, conflicts := [], hasConflicts := false }
  else
    let s := mergeLines (splitLines base) (splitLines ours) (splitLines theirs)
    { merged := join "\n" s.result, conflicts := s.conflicts
      hasConflicts := 0 < s.conflicts.length }

/-! ## Merges without conflicts -/

/-- At a line number at most one side differs from the base, or both differ alike. -/
def AgreeAt (baseLines ourLines theirLines : List String) (i : Nat) : Prop :=
  lineAt ourLines i = lineAt theirLines i ∨ lineAt ourLines i = lineAt baseLines i ∨
    lineAt theirLines i = lineAt baseLines i

theorem mergeLine_cases (baseLines ourLines theirLines : List String) (s : MergedLines) (i : Nat) :
    (AgreeAt baseLines ourLines theirLines i ∧
      mergeLine baseLines ourLines theirLines s i =
        { s with result := s.result ++ [pickAt "" baseLines ourLines theirLines i] }) ∨
      (mergeLine baseLines ourLines theirLines s i).conflicts ≠ [] := by
  unfold mergeLine AgreeAt
  dsimp only
  by_cases hsame : lineAt ourLines i = lineAt theirLines i
  · left
    rw [if_pos hsame]
    refine ⟨.inl hsame, ?_⟩
    have hpick : pickAt "" baseLines ourLines theirLines i = lineAt ourLines i := by
      by_cases hbase : lineAt ourLines i = lineAt baseLines i
      · exact (pickAt_second hbase).trans hsame.symm
      · exact if_neg hbase
    rw [hpick]
  rw [if_neg hsame]
  by_cases hours : lineAt ourLines i = lineAt baseLines i
  · left
    rw [if_pos hours]
    refine ⟨.inr (.inl hours), ?_⟩
    have hpick : pickAt "" baseLines ourLines theirLines i = lineAt theirLines i :=
      pickAt_second hours
    rw [hpick]
  rw [if_neg hours]
  by_cases htheirs : lineAt theirLines i = lineAt baseLines i
  · left
    rw [if_pos htheirs]
    refine ⟨.inr (.inr htheirs), ?_⟩
    have hpick : pickAt "" baseLines ourLines theirLines i = lineAt ourLines i :=
      pickAt_first htheirs
    rw [hpick]
  · right
    rw [if_neg htheirs]
    simp

variable {baseLines ourLines theirLines : List String} {s : MergedLines}

theorem mergeLine_conflicts {i : Nat}
    (h : (mergeLine baseLines ourLines theirLines s i).conflicts = []) : s.conflicts = [] := by
  rcases mergeLine_cases baseLines ourLines theirLines s i with ⟨_, hline⟩ | hconflict
  · rw [hline] at h
    exact h
  · exact absurd h hconflict

theorem foldl_conflicts {is : List Nat}
    (h : (is.foldl (mergeLine baseLines ourLines theirLines) s).conflicts = []) :
    s.conflicts = [] := by
  induction is generalizing s with
  | nil => exact h
  | cons i is ih => exact mergeLine_conflicts (ih h)

theorem foldl_mergeLine {is : List Nat}
    (h : (is.foldl (mergeLine baseLines ourLines theirLines) s).conflicts = []) :
    (∀ i ∈ is, AgreeAt baseLines ourLines theirLines i) ∧
      (is.foldl (mergeLine baseLines ourLines theirLines) s).result =
        s.result ++ is.map (pickAt "" baseLines ourLines theirLines) := by
  induction is generalizing s with
  | nil =>
    refine ⟨?_, (List.append_nil _).symm⟩
    intro i hi
    exact absurd hi List.not_mem_nil
  | cons i is ih =>
    rw [List.foldl_cons] at h ⊢
    obtain ⟨hagree, hresult⟩ := ih h
    rcases mergeLine_cases baseLines ourLines theirLines s i with ⟨hself, hline⟩ | hconflict
    · refine ⟨List.forall_mem_cons.mpr ⟨hself, hagree⟩, ?_⟩
      rw [hresult, hline, List.map_cons, List.append_assoc]
      rfl
    · exact absurd (foldl_conflicts h) hconflict

theorem pickAt_comm {i : Nat} (h : AgreeAt baseLines ourLines theirLines i) :
    pickAt "" baseLines ourLines theirLines i = pickAt "" baseLines theirLines ourLines i := by
  rcases h with hsame | hours | htheirs
  · unfold pickAt
    have hsame' : ourLines.getD i "" = theirLines.getD i "" := hsame
    rw [hsame']
  · rw [pickAt_second hours, pickAt_first hours]
  · rw [pickAt_first htheirs, pickAt_second htheirs]

/-! ## Merged texts -/

theorem splitLines_inj {a b : String} (h : splitLines a = splitLines b) : a = b := by
  unfold splitLines at h
  have hchars := (List.map_inj_right fun _ _ heq => String.ofList_inj.mp heq).mp h
  rw [← String.toList_inj, ← @List.intercalate_splitOn _ a.toList _ _ '\n', hchars,
    List.intercalate_splitOn]

theorem noNewline_lineAt (text : String) (i : Nat) :
    '\n' ∉ (lineAt (splitLines text) i).toList := by
  unfold lineAt
  by_cases hi : i < (splitLines text).length
  · rw [List.getD_eq_getElem _ _ hi]
    exact noNewline_of_mem_splitLines (List.getElem_mem hi)
  · rw [List.getD_eq_default _ _ (Nat.le_of_not_lt hi)]
    exact List.not_mem_nil

theorem noNewline_pickAt (base first second : String) (i : Nat) :
    '\n' ∉ (pickAt "" (splitLines base) (splitLines first) (splitLines second) i).toList := by
  unfold pickAt
  by_cases h : (splitLines first).getD i "" = (splitLines base).getD i ""
  · rw [if_pos h]
    exact noNewline_lineAt second i
  · rw [if_neg h]
    exact noNewline_lineAt first i

/-- The merged lines of texts that all differ, whichever side is read first. -/
theorem threeWayMerge_lines {base ours theirs : String} (hsides : ours ≠ theirs)
    (hours : ours ≠ base) (htheirs : theirs ≠ base)
    (h : (threeWayMerge base ours theirs).hasConflicts = false) :
    let n := maxLines (splitLines base) (splitLines ours) (splitLines theirs)
    splitLines (threeWayMerge base ours theirs).merged =
        picked "" (splitLines base) (splitLines ours) (splitLines theirs) n ∧
      splitLines (threeWayMerge base ours theirs).merged =
        picked "" (splitLines base) (splitLines theirs) (splitLines ours) n := by
  intro n
  have hmerge : threeWayMerge base ours theirs =
      { merged := join "\n" (mergeLines (splitLines base) (splitLines ours) (splitLines theirs)).result
        conflicts := (mergeLines (splitLines base) (splitLines ours) (splitLines theirs)).conflicts
        hasConflicts := 0 < (mergeLines (splitLines base) (splitLines ours)
          (splitLines theirs)).conflicts.length } := by
    unfold threeWayMerge
    rw [if_neg hsides, if_neg hours, if_neg htheirs]
  rw [hmerge] at h ⊢
  have hnone : (mergeLines (splitLines base) (splitLines ours) (splitLines theirs)).conflicts =
      [] := by
    generalize mergeLines (splitLines base) (splitLines ours) (splitLines theirs) = s at h
    have hlength : ¬ 0 < s.conflicts.length := of_decide_eq_false h
    exact List.length_eq_zero_iff.mp (Nat.eq_zero_of_not_pos hlength)
  obtain ⟨hagree, hresult⟩ := foldl_mergeLine hnone
  rw [List.nil_append] at hresult
  have hpicked : (mergeLines (splitLines base) (splitLines ours) (splitLines theirs)).result =
      picked "" (splitLines base) (splitLines ours) (splitLines theirs) n := hresult
  have hpos : 0 < n := by
    have hbase := List.length_pos_iff.mpr (splitLines_ne_nil base)
    exact Nat.lt_of_lt_of_le hbase (Nat.le_max_left _ _)
  have hlines : splitLines (join "\n" (picked "" (splitLines base) (splitLines ours)
      (splitLines theirs) n)) =
      picked "" (splitLines base) (splitLines ours) (splitLines theirs) n := by
    apply splitLines_join
    · intro hnil
      have hlength := congrArg List.length hnil
      unfold picked at hlength
      rw [List.length_map, List.length_range, List.length_nil] at hlength
      omega
    · intro line hline
      obtain ⟨i, _, rfl⟩ := List.mem_map.mp hline
      exact noNewline_pickAt base ours theirs i
  have hcomm : picked "" (splitLines base) (splitLines ours) (splitLines theirs) n =
      picked "" (splitLines base) (splitLines theirs) (splitLines ours) n := by
    apply List.map_congr_left
    intro i hi
    exact pickAt_comm (hagree i hi)
  dsimp only
  rw [hpicked, hlines]
  exact ⟨rfl, hcomm⟩

/-- What a merge without conflicts makes of a version with a changed front and one with a
changed back. -/
inductive MergedAs (base front back : String) (lines : List String) : Prop where
  | same (h : front = back) (hlines : lines = splitLines front)
  | back (h : front = base) (hlines : lines = splitLines back)
  | front (h : back = base) (hlines : lines = splitLines front)
  | picked (hfront : front ≠ base) (hback : back ≠ base)
      (hlines : lines = picked "" (splitLines base) (splitLines front) (splitLines back)
        (maxLines (splitLines base) (splitLines front) (splitLines back)))

theorem mergedAs_of_clean {base ours theirs : String}
    (h : (threeWayMerge base ours theirs).hasConflicts = false) :
    MergedAs base ours theirs (splitLines (threeWayMerge base ours theirs).merged) ∧
      MergedAs base theirs ours (splitLines (threeWayMerge base ours theirs).merged) := by
  by_cases hsides : ours = theirs
  · have hmerged : (threeWayMerge base ours theirs).merged = ours := by
      unfold threeWayMerge
      rw [if_pos hsides]
    rw [hmerged]
    exact ⟨.same hsides rfl, .same hsides.symm (congrArg splitLines hsides)⟩
  by_cases hours : ours = base
  · have hmerged : (threeWayMerge base ours theirs).merged = theirs := by
      unfold threeWayMerge
      rw [if_neg hsides, if_pos hours]
    rw [hmerged]
    exact ⟨.back hours rfl, .front hours rfl⟩
  by_cases htheirs : theirs = base
  · have hmerged : (threeWayMerge base ours theirs).merged = ours := by
      unfold threeWayMerge
      rw [if_neg hsides, if_neg hours, if_pos htheirs]
    rw [hmerged]
    exact ⟨.front htheirs rfl, .back htheirs rfl⟩
  obtain ⟨hlines, hlines'⟩ := threeWayMerge_lines hsides hours htheirs h
  refine ⟨.picked hours htheirs hlines, .picked htheirs hours ?_⟩
  rw [hlines']
  congr 1
  unfold maxLines
  omega

theorem mergedAs_iff {base front back : String} {lines before before' behind behind' : List String}
    (hmerged : MergedAs base front back lines) (hbase : splitLines base = before ++ behind)
    (hfront : splitLines front = before' ++ behind) (hback : splitLines back = before ++ behind') :
    lines = before' ++ behind' ↔
      before = before' ∨ behind = behind' ∨
        before.length = before'.length ∧ behind.length ≤ behind'.length := by
  cases hmerged with
  | same h hlines =>
    have hsame : before' ++ behind = before ++ behind' := by rw [← hfront, ← hback, h]
    rw [hlines, hfront, List.append_cancel_left_eq]
    constructor
    · intro heq
      exact .inr (.inl heq)
    · rintro (hbefore | hbehind | ⟨hlength, _⟩)
      · rw [hbefore] at hsame
        exact List.append_cancel_left hsame
      · exact hbehind
      · exact (List.append_inj hsame hlength.symm).2
  | back h hlines =>
    have hsame : before = before' := by
      rw [h, hbase] at hfront
      exact List.append_cancel_right hfront
    rw [hlines, hback, hsame]
    exact ⟨fun _ => .inl rfl, fun _ => rfl⟩
  | front h hlines =>
    have hsame : behind = behind' := by
      rw [h, hbase] at hback
      exact List.append_cancel_left hback
    rw [hlines, hfront, hsame]
    exact ⟨fun _ => .inr (.inl rfl), fun _ => rfl⟩
  | picked hfrontne hbackne hlines =>
    have hbefore : before ≠ before' := by
      rintro rfl
      exact hfrontne (splitLines_inj (hfront.trans hbase.symm))
    have hbehind : behind ≠ behind' := by
      rintro rfl
      exact hbackne (splitLines_inj (hback.trans hbase.symm))
    have hmax : maxLines (splitLines base) (splitLines front) (splitLines back) =
        max (before.length + behind.length)
          (max (before'.length + behind.length) (before.length + behind'.length)) := by
      unfold maxLines
      rw [hbase, hfront, hback, List.length_append, List.length_append, List.length_append]
    rw [hlines, hmax, hbase, hfront, hback, picked_eq_iff "" hbehind rfl]
    constructor
    · intro h
      exact .inr (.inr h)
    · rintro (h | h | h)
      · exact absurd h hbefore
      · exact absurd h hbehind
      · exact h

/-- A block changed on each side, one behind the other. -/
structure ChangesBlocks (base front back : String) (before old new between old' new' behind :
    List String) : Prop where
  base_lines : splitLines base = before ++ old ++ between ++ old' ++ behind
  front_lines : splitLines front = before ++ new ++ between ++ old' ++ behind
  back_lines : splitLines back = before ++ old ++ between ++ new' ++ behind

/-- Where nothing conflicts, both blocks are changed in the merged text exactly when one of them
is not changed at all, or the one in front keeps its number of lines and the one behind loses
none. -/
theorem merge_keeps_blocks {base ours theirs : String}
    {before old new between old' new' behind : List String}
    (hblocks : ChangesBlocks base ours theirs before old new between old' new' behind ∨
      ChangesBlocks base theirs ours before old new between old' new' behind)
    (hclean : (threeWayMerge base ours theirs).hasConflicts = false) :
    splitLines (threeWayMerge base ours theirs).merged =
        before ++ new ++ between ++ new' ++ behind ↔
      old = new ∨ old' = new' ∨ old.length = new.length ∧ old'.length ≤ new'.length := by
  obtain ⟨hours, htheirs⟩ := mergedAs_of_clean hclean
  have hiff : ∀ {front back : String},
      ChangesBlocks base front back before old new between old' new' behind →
      MergedAs base front back (splitLines (threeWayMerge base ours theirs).merged) →
      (splitLines (threeWayMerge base ours theirs).merged =
        (before ++ new ++ between) ++ (new' ++ behind) ↔
        before ++ old ++ between = before ++ new ++ between ∨ old' ++ behind = new' ++ behind ∨
          (before ++ old ++ between).length = (before ++ new ++ between).length ∧
            (old' ++ behind).length ≤ (new' ++ behind).length) := by
    intro front back h hmerged
    apply mergedAs_iff hmerged
    · rw [h.base_lines, List.append_assoc _ old' behind]
    · rw [h.front_lines, List.append_assoc _ old' behind]
    · rw [h.back_lines, List.append_assoc _ new' behind]
  have hfront : before ++ old ++ between = before ++ new ++ between ↔ old = new := by
    rw [List.append_assoc, List.append_assoc, List.append_cancel_left_eq,
      List.append_cancel_right_eq]
  have hback : old' ++ behind = new' ++ behind ↔ old' = new' := by
    rw [List.append_cancel_right_eq]
  have hlengths : ((before ++ old ++ between).length = (before ++ new ++ between).length ∧
      (old' ++ behind).length ≤ (new' ++ behind).length) ↔
      old.length = new.length ∧ old'.length ≤ new'.length := by
    simp only [List.length_append]
    omega
  rw [hfront, hback, hlengths] at hiff
  rw [List.append_assoc _ new' behind]
  rcases hblocks with h | h
  · exact hiff h hours
  · exact hiff h htheirs

/-- The first of three lines changed on our side, the last one on theirs. -/
theorem merge_keeps_blocks_example :
    splitLines (threeWayMerge "a\nb\nc" "A\nb\nc" "a\nb\nC\nd").merged = ["A", "b", "C", "d"] := by
  have hblocks : ChangesBlocks "a\nb\nc" "A\nb\nc" "a\nb\nC\nd" [] ["a"] ["A"] ["b"] ["c"]
      ["C", "d"] [] :=
    { base_lines := by decide
      front_lines := by decide
      back_lines := by decide }
  exact (merge_keeps_blocks (.inl hblocks) (by decide)).mpr (.inr (.inr (by decide +kernel)))

/-- The last line deleted on our side, the first one changed on theirs: the merged text keeps
an empty line in place of the deleted one, and no conflict is reported. -/
theorem deleted_line_merged :
    ChangesBlocks "a\nb\nc" "A\nb\nc" "a\nb" [] ["a"] ["A"] ["b"] ["c"] [] [] ∧
      threeWayMerge "a\nb\nc" "a\nb" "A\nb\nc" =
        { merged := "A\nb\n", conflicts := [], hasConflicts := false } ∧
      splitLines "A\nb\n" ≠ ["A", "b"] := by
  refine ⟨?_, ?_, ?_⟩
  · exact { base_lines := by decide
            front_lines := by decide
            back_lines := by decide }
  · decide
  · decide

end PieLab

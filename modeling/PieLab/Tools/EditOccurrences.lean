import PieLab.Lib.Occurrences
import PieLab.Tools.EditDiff

/-
  Where an edit is applied

  An edit whose old text stands in the content as it is replaces the first place
  it stands at. Whether there is a second one is looked for in another text: the
  content and the old text are both evened out, and the places are counted by
  splitting, so that two that overlap count as one.

  What is proved:
    1. `one_lt_countFrom_iff` — splitting counts two occurrences exactly when two
       of them stand apart.
    2. `edits_applied_unambiguously` — on every content and edit list that
       succeeds without fuzzy matching, every old text stands at exactly one
       position, if and only if every old text that stands at two is seen twice
       in the evened-out content (`AmbiguitySeen`).
    3. `overlapping_places_edited` — two `end` lines, looked for in three of them,
       stand at two positions, and the first is edited without an error.
-/

namespace PieLab

open Lib

/-! ## The two searches -/

variable {pattern content : List Char} {nfkc : List Char → List Char} {path : String}

theorem indexOf_mem {index : Nat} (h : indexOf pattern content = some index) :
    index ∈ occurrences pattern content := by
  induction content generalizing index with
  | nil =>
    rw [indexOf] at h
    split at h
    next hpattern =>
      cases h
      rw [hpattern]
      exact zero_mem_occurrences.2 List.nil_prefix
    next => cases h
  | cons c content ih =>
    rw [indexOf] at h
    split at h
    next hfront =>
      cases h
      exact zero_mem_occurrences.2 (List.isPrefixOf_iff_prefix.1 hfront)
    next =>
      obtain ⟨i, hi, rfl⟩ := Option.map_eq_some_iff.1 h
      exact succ_mem_occurrences.2 (ih hi)

theorem countFrom_pos_iff (hpattern : pattern ≠ []) (content : List Char) (skip : Nat) :
    0 < countFrom pattern content skip ↔ OccursFrom pattern content skip := by
  induction content generalizing skip with
  | nil =>
    constructor
    · intro h
      cases skip <;> exact absurd h (Nat.lt_irrefl 0)
    · intro ⟨i, hi, _⟩
      exact absurd hi (not_mem_occurrences_nil hpattern i)
  | cons c content ih =>
    cases skip with
    | succ skip =>
      rw [countFrom, occursFrom_succ]
      exact ih skip
    | zero =>
      rw [countFrom, occursFrom_cons, ← List.isPrefixOf_iff_prefix]
      by_cases hfront : pattern.isPrefixOf (c :: content) = true
      · simp only [hfront, if_true, true_or, iff_true]
        omega
      · simp only [hfront, Bool.false_eq_true, if_false, false_or]
        exact ih 0

/-- After a hit the split goes on behind it, so the second hit stands apart from the first. -/
theorem one_lt_countFrom_iff (hpattern : pattern ≠ []) (content : List Char) (skip : Nat) :
    1 < countFrom pattern content skip ↔ OccursApart pattern content skip := by
  induction content generalizing skip with
  | nil =>
    constructor
    · intro h
      cases skip <;> exact absurd h (Nat.not_lt_zero 1)
    · intro ⟨i, hi, _⟩
      exact absurd hi (not_mem_occurrences_nil hpattern i)
  | cons c content ih =>
    cases skip with
    | succ skip =>
      rw [countFrom, occursApart_succ]
      exact ih skip
    | zero =>
      rw [countFrom]
      by_cases hfront : pattern.isPrefixOf (c :: content) = true
      · have hlen : pattern.length = pattern.length - 1 + 1 := by
          have hpos := List.length_pos_iff.2 hpattern
          omega
        have hbehind := countFrom_pos_iff hpattern content (pattern.length - 1)
        rw [← occursFrom_succ (x := c), ← hlen] at hbehind
        rw [if_pos hfront, occursApart_cons (List.isPrefixOf_iff_prefix.1 hfront), ← hbehind]
        omega
      · rw [if_neg hfront, occursApart_cons_of_not fun h =>
          hfront (List.isPrefixOf_iff_prefix.2 h)]
        exact ih 0

/-! ## What the check for a second place sees -/

/-- The evened-out old text stands at two places that do not overlap; one that is empty is
taken to stand between any two code units. -/
def AmbiguitySeen (nfkc : List Char → List Char) (content oldText : List Char) : Prop :=
  if normalizeForFuzzyMatch nfkc oldText = [] then
    2 < ((normalizeForFuzzyMatch nfkc content).map utf16Size).sum
  else OccursApart (normalizeForFuzzyMatch nfkc oldText) (normalizeForFuzzyMatch nfkc content) 0

theorem one_lt_countOccurrences_iff (nfkc : List Char → List Char) (content oldText : List Char) :
    1 < countOccurrences nfkc content oldText ↔ AmbiguitySeen nfkc content oldText := by
  rw [countOccurrences, splitCount, AmbiguitySeen]
  by_cases hempty : normalizeForFuzzyMatch nfkc oldText = []
  · rw [if_pos hempty, if_pos hempty]
    omega
  · rw [if_neg hempty, if_neg hempty]
    exact one_lt_countFrom_iff hempty _ 0

/-- No old text has to be looked for in the evened-out content. -/
def allExact (nfkc : List Char → List Char) (content : List Char) (edits : List Edit) : Bool :=
  edits.all fun edit =>
    !(fuzzyFindText nfkc content (normalizeToLF edit.oldText.toList)).any
      FuzzyMatchResult.usedFuzzyMatch

theorem matchEdit_ok {oldText newText : List Char} {totalEdits editIndex : Nat}
    {r : TextReplacement}
    (h : matchEdit nfkc content path totalEdits editIndex oldText newText = .ok r) :
    (∃ found, fuzzyFindText nfkc content oldText = some found) ∧
      ¬ AmbiguitySeen nfkc content oldText := by
  unfold matchEdit at h
  cases hfound : fuzzyFindText nfkc content oldText with
  | none =>
    rw [hfound] at h
    cases h
  | some found =>
    simp only [hfound] at h
    rw [← one_lt_countOccurrences_iff]
    refine ⟨⟨found, rfl⟩, fun hmany => ?_⟩
    rw [if_pos hmany] at h
    cases h

theorem matchedEdits_ok {edits : List (List Char × List Char)} {sorted : List TextReplacement}
    (h : matchedEdits nfkc content path edits = .ok sorted) :
    ∀ edit ∈ edits, (∃ found, fuzzyFindText nfkc content edit.1 = some found) ∧
      ¬ AmbiguitySeen nfkc content edit.1 := by
  obtain ⟨matched, hmatched, -⟩ := Except.bind_ok h
  have hall := (Except.mapM_ok
    (P := fun e : (List Char × List Char) × Nat =>
      (∃ found, fuzzyFindText nfkc content e.1.1 = some found) ∧
        ¬ AmbiguitySeen nfkc content e.1.1)
    (g := fun e => (matchEdit nfkc content path edits.length e.2 e.1.1 e.1.2).toOption.getD
      ⟨0, 0, 0, []⟩) (fun e r hr => ⟨matchEdit_ok hr, ?_⟩) hmatched).1
  · intro edit hedit
    obtain ⟨i, hi, hget⟩ := List.getElem_of_mem hedit
    exact hall (edit, i) (List.mem_zipIdx_iff_getElem?.2 (by rw [List.getElem?_eq_getElem hi, hget]))
  · rw [hr]
    rfl

theorem indexOf_of_exact {oldText : List Char} {found : FuzzyMatchResult}
    (h : fuzzyFindText nfkc content oldText = some found) (hexact : found.usedFuzzyMatch = false) :
    indexOf oldText content = some found.index := by
  unfold fuzzyFindText at h
  cases hindex : indexOf oldText content with
  | some index =>
    rw [hindex] at h
    cases h
    rfl
  | none =>
    rw [hindex] at h
    obtain ⟨index, -, rfl⟩ := Option.map_eq_some_iff.1 h
    cases hexact

theorem applied_exactly {new : List Char} {edits : List Edit}
    (applied : applyEditsToNormalizedContent nfkc content edits path = .ok new)
    (hexact : allExact nfkc content edits = true) {edit : Edit} (hedit : edit ∈ edits) :
    occurrences (normalizeToLF edit.oldText.toList) content ≠ [] ∧
      ¬ AmbiguitySeen nfkc content (normalizeToLF edit.oldText.toList) := by
  obtain ⟨-, -, applied⟩ := Except.bind_ok applied
  obtain ⟨newContent, hreplaced, -⟩ := Except.bind_ok applied
  have hall := List.all_eq_true.1 hexact
  unfold replacedContent at hreplaced
  rw [if_neg] at hreplaced
  · obtain ⟨sorted, hmatched, -⟩ := Except.bind_ok hreplaced
    obtain ⟨⟨found, hfound⟩, hseen⟩ := matchedEdits_ok hmatched
      (normalizeToLF edit.oldText.toList, normalizeToLF edit.newText.toList)
      (List.mem_map.2 ⟨edit, hedit, rfl⟩)
    have husedFuzzy : found.usedFuzzyMatch = false := by
      have h := hall edit hedit
      rw [hfound] at h
      simpa using h
    exact ⟨List.ne_nil_of_mem (indexOf_mem (indexOf_of_exact hfound husedFuzzy)), hseen⟩
  · rw [List.any_map, Bool.not_eq_true, List.any_eq_false]
    intro e he
    have h := hall e he
    simpa using h

/-! ## The contract -/

/-- Every old text stands at one position of the content, exactly when an old text that
stands at two is one the check sees twice. -/
theorem edits_applied_unambiguously {nfkc : List Char → List Char} {content new : List Char}
    {edits : List Edit} {path : String}
    (applied : applyEditsToNormalizedContent nfkc content edits path = .ok new)
    (hexact : allExact nfkc content edits = true) :
    (∀ edit ∈ edits, (occurrences (normalizeToLF edit.oldText.toList) content).length = 1) ↔
      ∀ edit ∈ edits, 2 ≤ (occurrences (normalizeToLF edit.oldText.toList) content).length →
        AmbiguitySeen nfkc content (normalizeToLF edit.oldText.toList) := by
  constructor
  · intro hone edit hedit htwo
    have h := hone edit hedit
    omega
  · intro hseen edit hedit
    obtain ⟨hsome, hunseen⟩ := applied_exactly applied hexact hedit
    have hpos := List.length_pos_iff.2 hsome
    have hnot : ¬ 2 ≤ (occurrences (normalizeToLF edit.oldText.toList) content).length :=
      fun htwo => hunseen (hseen edit hedit htwo)
    omega

/-! ## Lines that close a block -/

theorem matchedEdits_singleton (nfkc : List Char → List Char) (content : List Char)
    (path : String) (edit : List Char × List Char) :
    matchedEdits nfkc content path [edit] =
      (matchEdit nfkc content path 1 0 edit.1 edit.2).map fun r => [r] := by
  show ([edit].zipIdx.mapM _ >>= _) = _
  simp only [List.zipIdx_cons, List.zipIdx_nil, List.mapM_cons, List.mapM_nil,
    List.length_singleton]
  cases matchEdit nfkc content path 1 0 edit.1 edit.2 with
  | error e => rfl
  | ok r =>
    show ((refuseOverlap path ([r].mergeSort _)) >>= fun _ => _) = _
    rw [List.mergeSort_singleton]
    rfl

namespace EndLinesExample

def endEdit (old new : String) : Edit :=
  { oldText := old, newText := new, hash := none, before := none, after := none }

theorem matched {content : String} {old new : String} {r : TextReplacement} {result : List Char}
    (hmatch : matchEdit id content.toList "main.rb" 1 0 (normalizeToLF old.toList)
      (normalizeToLF new.toList) = .ok r)
    (hempty : (normalizeToLF old.toList).isEmpty = false)
    (hexact : allExact id content.toList [endEdit old new] = true)
    (hresult : applyReplacements content.toList [r] 0 = result)
    (hchange : (result == content.toList) = false) :
    applyEditsToNormalizedContent id content.toList [endEdit old new] "main.rb" = .ok result := by
  have hnone : ([(normalizeToLF old.toList, normalizeToLF new.toList)].any fun edit =>
      (fuzzyFindText id content.toList edit.1).any FuzzyMatchResult.usedFuzzyMatch) = false := by
    simpa [allExact, endEdit] using hexact
  have hreplaced : replacedContent id content.toList "main.rb"
      [(normalizeToLF old.toList, normalizeToLF new.toList)] = .ok result := by
    rw [replacedContent, if_neg (by rw [hnone]; exact Bool.false_ne_true),
      matchedEdits_singleton, hmatch]
    exact congrArg Except.ok hresult
  show (refuseEmpty "main.rb" [(normalizeToLF old.toList, normalizeToLF new.toList)] >>= fun _ =>
    replacedContent id content.toList "main.rb"
      [(normalizeToLF old.toList, normalizeToLF new.toList)] >>= _) = _
  have hrefuse : refuseEmpty "main.rb" [(normalizeToLF old.toList, normalizeToLF new.toList)] =
      .ok () := by
    simp [refuseEmpty, List.findIdx?_cons, hempty]
  rw [hrefuse, hreplaced]
  show (refuse (result == content.toList) _ >>= fun _ => _) = _
  rw [hchange]
  rfl

end EndLinesExample

open EndLinesExample in
/-- An old text that stands at one place. -/
theorem edits_applied_unambiguously_example :
    (∀ edit ∈ [endEdit "do" "if"], (occurrences (normalizeToLF edit.oldText.toList)
      "do\nend\n".toList).length = 1) ↔
    ∀ edit ∈ [endEdit "do" "if"], 2 ≤ (occurrences (normalizeToLF edit.oldText.toList)
      "do\nend\n".toList).length →
        AmbiguitySeen id "do\nend\n".toList (normalizeToLF edit.oldText.toList) :=
  @edits_applied_unambiguously id "do\nend\n".toList "if\nend\n".toList [endEdit "do" "if"]
    "main.rb"
    (matched (r := ⟨0, 0, 2, ['i', 'f']⟩) (by decide) (by decide +kernel)
      (by decide) (by decide +kernel) (by decide +kernel))
    (by decide)

open EndLinesExample in
/-- Two `end` lines, looked for in three: the first two are replaced. -/
theorem overlapping_places_edited :
    applyEditsToNormalizedContent id "end\nend\nend\n".toList [endEdit "end\nend\n" "fi\n"]
        "main.rb" = .ok "fi\nend\n".toList ∧
      allExact id "end\nend\nend\n".toList [endEdit "end\nend\n" "fi\n"] = true ∧
      occurrences (normalizeToLF "end\nend\n".toList) "end\nend\nend\n".toList = [0, 4] :=
  ⟨matched (r := ⟨0, 0, 8, ['f', 'i', '\n']⟩) (by decide) (by decide +kernel)
    (by decide) (by decide +kernel) (by decide +kernel), by decide +kernel,
    by decide⟩

end PieLab

import PieLab.Lib.RangeEdits
import PieLab.Tools.EditDiff

/-
  Lines that no replacement touches

  Fuzzy edits are matched in a normalized text, the base. Each replacement is
  widened to the lines of the base it touches, replacements that share a line are
  made together, and every other line is copied from the original.

  What is proved:
    1. `getReplacementLineRange_ok` — a non-empty replacement inside the base has
       a first and an end line, and touches every line between them.
    2. `Grouped.next` — adding one replacement keeps the groups apart, and each
       group's lines the touched ones.
    3. `rebuildLines_grouped` — the groups and the lines between them read line
       by line (`resultLine`).
    4. `untouched_lines_kept` — with as many lines in the original as in the base,
       disjoint non-empty replacements inside the base give the original's own
       bytes for every line none of them touches, and for every run of touched
       lines the base text of the run with its replacements.
-/

namespace PieLab

open Lib

/-! ## Lines and their offsets -/

/-- The offset of a line. -/
def lineStart (lines : List (List Char)) (i : Nat) : Nat := (lines.take i).flatten.length

theorem lineStart_zero (lines : List (List Char)) : lineStart lines 0 = 0 := by
  simp [lineStart]

theorem lineStart_cons_succ (line : List Char) (lines : List (List Char)) (i : Nat) :
    lineStart (line :: lines) (i + 1) = line.length + lineStart lines i := by
  simp [lineStart]

theorem lineStart_le_succ (lines : List (List Char)) (i : Nat) :
    lineStart lines i ≤ lineStart lines (i + 1) := by
  induction lines generalizing i with
  | nil => simp [lineStart]
  | cons line lines ih =>
    cases i with
    | zero =>
      rw [lineStart_zero]
      exact Nat.zero_le _
    | succ i =>
      rw [lineStart_cons_succ, lineStart_cons_succ]
      have h := ih i
      omega

variable {i startLine endLine a b : Nat} {lines : List (List Char)} {r : TextReplacement}
variable {base original : List Char} {group : ReplacementGroup} {groups : List ReplacementGroup}
variable {rs : List TextReplacement}

theorem lineStart_mono (lines : List (List Char)) {j : Nat} (h : i ≤ j) :
    lineStart lines i ≤ lineStart lines j := by
  induction h with
  | refl => exact Nat.le_refl _
  | step _ ih => exact Nat.le_trans ih (lineStart_le_succ lines _)

theorem lineStart_length (lines : List (List Char)) :
    lineStart lines lines.length = lines.flatten.length := by
  rw [lineStart, List.take_length]

theorem exists_line (lines : List (List Char)) {p : Nat} (hp : p < lines.flatten.length) :
    ∃ i < lines.length, lineStart lines i ≤ p ∧ p < lineStart lines (i + 1) := by
  induction lines generalizing p with
  | nil => exact absurd hp (Nat.not_lt_zero p)
  | cons line lines ih =>
    rw [List.flatten_cons, List.length_append] at hp
    by_cases hfirst : p < line.length
    · refine ⟨0, Nat.succ_pos _, ?_, ?_⟩
      · rw [lineStart_zero]
        exact Nat.zero_le p
      · rw [lineStart_cons_succ]
        omega
    · obtain ⟨i, hi, hle, hlt⟩ := ih (p := p - line.length) (by omega)
      refine ⟨i + 1, Nat.succ_lt_succ hi, ?_, ?_⟩
      · rw [lineStart_cons_succ]
        omega
      · rw [lineStart_cons_succ]
        omega

theorem getElem?_lineSpans (lines : List (List Char)) (offset i : Nat) (hi : i < lines.length) :
    (lineSpans offset lines)[i]? =
      some ⟨offset + lineStart lines i, offset + lineStart lines (i + 1)⟩ := by
  induction lines generalizing offset i with
  | nil => exact absurd hi (Nat.not_lt_zero i)
  | cons line lines ih =>
    rw [lineSpans]
    cases i with
    | zero => simp [lineStart]
    | succ i =>
      rw [List.getElem?_cons_succ, ih _ i (Nat.lt_of_succ_lt_succ hi), lineStart_cons_succ,
        lineStart_cons_succ, Nat.add_assoc, Nat.add_assoc]

theorem length_lineSpans (lines : List (List Char)) (offset : Nat) :
    (lineSpans offset lines).length = lines.length := by
  induction lines generalizing offset with
  | nil => rfl
  | cons line lines ih =>
    rw [lineSpans, List.length_cons, List.length_cons, ih]

theorem flatten_splitLinesWithEndings (content : List Char) :
    (splitLinesWithEndings content).flatten = content := by
  induction content with
  | nil => rfl
  | cons c rest ih =>
    rw [splitLinesWithEndings]
    by_cases hc : c = '\n'
    · rw [if_pos hc, List.flatten_cons, ih, hc]
      rfl
    · rw [if_neg hc]
      cases hrest : splitLinesWithEndings rest with
      | nil =>
        rw [hrest] at ih
        rw [← ih]
        rfl
      | cons line lines =>
        rw [hrest] at ih
        rw [← ih]
        rfl

/-! ## The lines of a replacement -/

def TextReplacement.edit (r : TextReplacement) : RangeEdit Char :=
  { start := r.matchIndex, length := r.matchLength, text := r.newText }

/-- A replacement takes a character between two offsets. -/
def TextReplacement.touches (r : TextReplacement) (start stop : Nat) : Bool :=
  r.matchIndex < stop && start < r.matchIndex + r.matchLength

theorem TextReplacement.touches_iff (r : TextReplacement) {start stop : Nat} :
    r.touches start stop = true ↔ r.matchIndex < stop ∧ start < r.matchIndex + r.matchLength := by
  simp [TextReplacement.touches]

/-- A replacement touches the lines from `startLine` on and before `endLine`. -/
structure HasLines (lines : List (List Char)) (r : TextReplacement) (startLine endLine : Nat) :
    Prop where
  nonempty : startLine < endLine
  bound : endLine ≤ lines.length
  start : lineStart lines startLine ≤ r.matchIndex
  start_lt : r.matchIndex < lineStart lines (startLine + 1)
  stop : r.matchIndex + r.matchLength ≤ lineStart lines endLine
  reaches : ∀ i, startLine < i → i < endLine → lineStart lines i < r.matchIndex + r.matchLength

theorem HasLines.touches (h : HasLines lines r startLine endLine) (hlength : 0 < r.matchLength)
    (hstart : startLine ≤ i) (hstop : i < endLine) :
    r.touches (lineStart lines i) (lineStart lines (i + 1)) = true := by
  rw [TextReplacement.touches_iff]
  have hmono := lineStart_mono lines (by omega : startLine + 1 ≤ i + 1)
  have hlt := h.start_lt
  refine ⟨by omega, ?_⟩
  by_cases hi : startLine = i
  · rw [← hi]
    have hle := h.start
    omega
  · exact h.reaches i (by omega) hstop

theorem findIdx?_of_exists {α : Type} {xs : List α} {p : α → Bool} {x : α} (hx : xs[i]? = some x)
    (hp : p x = true) :
    ∃ k y, xs.findIdx? p = some k ∧ k ≤ i ∧ xs[k]? = some y ∧ p y = true ∧
      ∀ j z, j < k → xs[j]? = some z → p z = false := by
  cases hfind : xs.findIdx? p with
  | none =>
    have hnone := List.findIdx?_eq_none_iff.1 hfind x (List.mem_of_getElem? hx)
    rw [hp] at hnone
    cases hnone
  | some k =>
    obtain ⟨hk, hpk, hbefore⟩ := List.findIdx?_eq_some_iff_getElem.1 hfind
    have hfirst : ∀ j z, j < k → xs[j]? = some z → p z = false := by
      intro j z hj hz
      obtain ⟨hlt, rfl⟩ := List.getElem?_eq_some_iff.1 hz
      simpa using hbefore j hj
    refine ⟨k, xs[k], rfl, ?_, List.getElem?_eq_getElem hk, hpk, hfirst⟩
    by_contra hlt
    rw [hfirst i x (by omega) hx] at hp
    cases hp

theorem getReplacementLineRange_ok (hlength : 0 < r.matchLength)
    (hinside : r.matchIndex + r.matchLength ≤ base.length) :
    ∃ startLine endLine, getReplacementLineRange (getLineSpans base) r = .ok (startLine, endLine) ∧
      HasLines (splitLinesWithEndings base) r startLine endLine := by
  have hflat : (splitLinesWithEndings base).flatten.length = base.length := by
    rw [flatten_splitLinesWithEndings]
  generalize hlines : splitLinesWithEndings base = lines at hflat
  have hspans : getLineSpans base = lineSpans 0 lines := by rw [getLineSpans, hlines]
  have hget : ∀ i, i < lines.length → (lineSpans 0 lines)[i]? =
      some ⟨lineStart lines i, lineStart lines (i + 1)⟩ := by
    intro i hi
    rw [getElem?_lineSpans lines 0 i hi, Nat.zero_add, Nat.zero_add]
  obtain ⟨line, hline, hle, hlt⟩ := exists_line lines (p := r.matchIndex) (by omega)
  obtain ⟨startLine, span, hfind, hfirst, hspan, hin, -⟩ := findIdx?_of_exists
    (p := fun line : LineSpan => line.start ≤ r.matchIndex && r.matchIndex < line.stop)
    (hget line hline) (by simp [hle, hlt])
  rw [hget startLine (by omega), Option.some.injEq] at hspan
  rw [← hspan, Bool.and_eq_true, decide_eq_true_eq, decide_eq_true_eq] at hin
  -- the last line ends with the base, so the search for the end line stops there at the latest
  have hlast : lineStart lines (lines.length - 1 + 1) = base.length := by
    rw [Nat.sub_add_cancel (by omega), lineStart_length, hflat]
  have hlastSpan : ((lineSpans 0 lines).drop startLine)[lines.length - 1 - startLine]? =
      some ⟨lineStart lines (lines.length - 1), base.length⟩ := by
    rw [List.getElem?_drop, show startLine + (lines.length - 1 - startLine) = lines.length - 1 by
      omega, hget _ (by omega), hlast]
  obtain ⟨more, endSpan, hfindEnd, hmore, hendSpan, hend, hbefore⟩ := findIdx?_of_exists
    (p := fun line : LineSpan => r.matchIndex + r.matchLength ≤ line.stop) hlastSpan
    (decide_eq_true hinside)
  rw [List.getElem?_drop, hget _ (by omega), Option.some.injEq] at hendSpan
  rw [← hendSpan, decide_eq_true_eq] at hend
  refine ⟨startLine, startLine + more + 1, ?_, ⟨by omega, by omega, hin.1, hin.2, hend, ?_⟩⟩
  · rw [getReplacementLineRange, hspans, hfind]
    dsimp only
    rw [hfindEnd]
  · intro i hi hstop
    have hline := hbefore (i - 1 - startLine) ⟨lineStart lines (i - 1), lineStart lines i⟩
      (by omega) (by
        rw [List.getElem?_drop, show startLine + (i - 1 - startLine) = i - 1 by omega,
          hget _ (by omega), Nat.sub_add_cancel (by omega)])
    simpa using hline

/-! ## Groups -/

/-- The replacements of a group stand inside its lines and touch each of them. -/
structure GroupOk (lines : List (List Char)) (group : ReplacementGroup) : Prop where
  nonempty : group.startLine < group.endLine
  bound : group.endLine ≤ lines.length
  start : ∀ r ∈ group.replacements, lineStart lines group.startLine ≤ r.matchIndex
  stop : ∀ r ∈ group.replacements, r.matchIndex + r.matchLength ≤ lineStart lines group.endLine
  touched : ∀ i, group.startLine ≤ i → i < group.endLine →
    ∃ r ∈ group.replacements, r.touches (lineStart lines i) (lineStart lines (i + 1)) = true

/-- The groups hold the replacements of `done`, one group behind the other. -/
structure Grouped (lines : List (List Char)) (done : List TextReplacement)
    (groups : List ReplacementGroup) : Prop where
  all : groups.flatMap ReplacementGroup.replacements = done
  ok : ∀ group ∈ groups, GroupOk lines group
  apart : groups.Pairwise fun a b => a.endLine ≤ b.startLine

theorem GroupOk.single (h : HasLines lines r startLine endLine) (hlength : 0 < r.matchLength) :
    GroupOk lines { startLine, endLine, replacements := [r] } where
  nonempty := h.nonempty
  bound := h.bound
  start := by
    intro r' hr'
    rw [List.mem_singleton.1 hr']
    exact h.start
  stop := by
    intro r' hr'
    rw [List.mem_singleton.1 hr']
    exact h.stop
  touched := fun i hstart hstop =>
    ⟨r, List.mem_singleton_self r, h.touches hlength hstart hstop⟩

theorem GroupOk.widen (hok : GroupOk lines group) (h : HasLines lines r startLine endLine)
    (hlength : 0 < r.matchLength) (hbehind : lineStart lines group.startLine ≤ r.matchIndex)
    (hshared : startLine < group.endLine) :
    GroupOk lines { group with
      endLine := max group.endLine endLine
      replacements := group.replacements ++ [r] } where
  nonempty := Nat.lt_of_lt_of_le hok.nonempty (Nat.le_max_left _ _)
  bound := Nat.max_le.2 ⟨hok.bound, h.bound⟩
  start := by
    intro r' hr'
    cases List.mem_append.1 hr' with
    | inl hold => exact hok.start r' hold
    | inr hnew =>
      rw [List.mem_singleton.1 hnew]
      exact hbehind
  stop := by
    intro r' hr'
    cases List.mem_append.1 hr' with
    | inl hold =>
      exact Nat.le_trans (hok.stop r' hold) (lineStart_mono lines (Nat.le_max_left _ _))
    | inr hnew =>
      rw [List.mem_singleton.1 hnew]
      exact Nat.le_trans h.stop (lineStart_mono lines (Nat.le_max_right _ _))
  touched := by
    intro i hstart hstop
    by_cases hold : i < group.endLine
    · obtain ⟨r', hr', htouch⟩ := hok.touched i hstart hold
      exact ⟨r', List.mem_append_left _ hr', htouch⟩
    · have hstop : i < max group.endLine endLine := hstop
      exact ⟨r, List.mem_append_right _ (List.mem_singleton_self r),
        h.touches hlength (by omega) (by omega)⟩

/-- The groups after one more replacement. -/
def nextGroups (groups : List ReplacementGroup) (startLine endLine : Nat) (r : TextReplacement) :
    List ReplacementGroup :=
  match groups.getLast? with
  | some current =>
    if startLine < current.endLine then
      groups.dropLast ++ [{ current with
        endLine := max current.endLine endLine
        replacements := current.replacements ++ [r] }]
    else groups ++ [{ startLine, endLine, replacements := [r] }]
  | none => [{ startLine, endLine, replacements := [r] }]

/-- A replacement behind those already grouped keeps the groups apart. -/
theorem Grouped.next {done : List TextReplacement} (hgroups : Grouped lines done groups)
    (h : HasLines lines r startLine endLine) (hlength : 0 < r.matchLength)
    (hbehind : ∀ r' ∈ done, r'.matchIndex ≤ r.matchIndex) :
    Grouped lines (done ++ [r]) (nextGroups groups startLine endLine r) := by
  obtain hnil | ⟨front, current, hsplit⟩ := groups.eq_nil_or_concat
  · have hdone : done = [] := by
      rw [← hgroups.all, hnil]
      rfl
    rw [hnil, hdone]
    refine ⟨rfl, ?_, List.pairwise_singleton _ _⟩
    intro group hgroup
    rw [List.mem_singleton.1 hgroup]
    exact GroupOk.single h hlength
  · obtain ⟨hall, hok, hapart⟩ := hgroups
    rw [List.concat_eq_append] at hsplit
    rw [hsplit] at hall hok hapart
    obtain ⟨hfront, -, hlast⟩ := List.pairwise_append.1 hapart
    have hcurrent := hok current (by simp)
    rw [nextGroups, hsplit, List.getLast?_concat]
    show Grouped lines _ (if startLine < current.endLine then _ else _)
    by_cases hshared : startLine < current.endLine
    · have hfirst : lineStart lines current.startLine ≤ r.matchIndex := by
        obtain ⟨r', hr', -⟩ := hcurrent.touched current.startLine (Nat.le_refl _) hcurrent.nonempty
        have hdone : r' ∈ done := by
          rw [← hall]
          exact List.mem_flatMap.2 ⟨current, by simp, hr'⟩
        exact Nat.le_trans (hcurrent.start r' hr') (hbehind r' hdone)
      rw [if_pos hshared, List.dropLast_concat]
      refine ⟨?_, ?_, ?_⟩
      · rw [← hall]
        simp
      · intro group hgroup
        cases List.mem_append.1 hgroup with
        | inl hold => exact hok group (List.mem_append_left _ hold)
        | inr hnew =>
          rw [List.mem_singleton.1 hnew]
          exact hcurrent.widen h hlength hfirst hshared
      · apply List.pairwise_append.2
        refine ⟨hfront, List.pairwise_singleton _ _, ?_⟩
        intro a ha b hb
        rw [List.mem_singleton.1 hb]
        exact hlast a ha current (List.mem_singleton_self _)
    · rw [if_neg hshared]
      refine ⟨?_, ?_, ?_⟩
      · rw [← hall]
        simp
      · intro group hgroup
        cases List.mem_append.1 hgroup with
        | inl hold => exact hok group hold
        | inr hnew =>
          rw [List.mem_singleton.1 hnew]
          exact GroupOk.single h hlength
      · apply List.pairwise_append.2
        refine ⟨hapart, List.pairwise_singleton _ _, ?_⟩
        intro a ha b hb
        rw [List.mem_singleton.1 hb]
        show a.endLine ≤ startLine
        have hbefore : a.endLine ≤ current.endLine := by
          cases List.mem_append.1 ha with
          | inl hold =>
            have hle := hlast a hold current (List.mem_singleton_self _)
            have hlt := hcurrent.nonempty
            omega
          | inr hnew =>
            exact Nat.le_of_eq (congrArg ReplacementGroup.endLine (List.mem_singleton.1 hnew))
        omega

/-- Non-empty replacements inside the base. -/
def InsideBase (base : List Char) (rs : List TextReplacement) : Prop :=
  ∀ r ∈ rs, 0 < r.matchLength ∧ r.matchIndex + r.matchLength ≤ base.length

theorem groupReplacements_ok {rest done : List TextReplacement}
    (hgroups : Grouped (splitLinesWithEndings base) done groups) (hinside : InsideBase base rest)
    (hsorted : (done ++ rest).Pairwise fun a b => a.matchIndex ≤ b.matchIndex) :
    ∃ result, groupReplacements (getLineSpans base) rest groups = .ok result ∧
      Grouped (splitLinesWithEndings base) (done ++ rest) result := by
  induction rest generalizing done groups with
  | nil =>
    rw [List.append_nil]
    exact ⟨groups, rfl, hgroups⟩
  | cons r rest ih =>
    obtain ⟨⟨hlength, hbound⟩, hinside⟩ := List.forall_mem_cons.1 hinside
    obtain ⟨startLine, endLine, hrange, hlines⟩ := getReplacementLineRange_ok hlength hbound
    have hbehind : ∀ r' ∈ done, r'.matchIndex ≤ r.matchIndex := fun r' hr' =>
      (List.pairwise_append.1 hsorted).2.2 r' hr' r List.mem_cons_self
    have hstep : groupReplacements (getLineSpans base) (r :: rest) groups =
        groupReplacements (getLineSpans base) rest (nextGroups groups startLine endLine r) := by
      rw [groupReplacements, hrange]
      rfl
    rw [List.append_cons] at hsorted ⊢
    rw [hstep]
    exact ih (hgroups.next hlines hlength hbehind) hinside hsorted

/-! ## Line by line -/

/-- A replacement touches the line of the base. -/
def isTouched (base : List Char) (rs : List TextReplacement) (i : Nat) : Bool :=
  rs.any fun r => r.touches (lineStart (splitLinesWithEndings base) i)
    (lineStart (splitLinesWithEndings base) (i + 1))

/-- What stands for a line: the original's own bytes if no replacement touches it, and else the
line of the base with what is replaced in it. -/
def resultLine (original base : List Char) (rs : List TextReplacement) (i : Nat) : List Char :=
  if isTouched base rs i then
    editedRange base (rs.map TextReplacement.edit) (lineStart (splitLinesWithEndings base) i)
      (lineStart (splitLinesWithEndings base) (i + 1))
  else (splitLinesWithEndings original)[i]?.getD []

theorem slice_flatten (lines : List (List Char)) (hab : a ≤ b) (hb : b ≤ lines.length) :
    (slice lines a b).flatten = (List.range' a (b - a)).flatMap fun i => lines[i]?.getD [] := by
  obtain ⟨n, rfl⟩ := Nat.exists_eq_add_of_le hab
  clear hab
  induction n with
  | zero => simp
  | succ n ih =>
    have hline : lines[a + n]? = some lines[a + n] := List.getElem?_eq_getElem (by omega)
    rw [← slice_append_slice lines (Nat.le_add_right a n) (by omega : a + n ≤ a + (n + 1)),
      List.flatten_append, ih (by omega), ← Nat.add_assoc, slice_succ (by omega),
      Nat.add_sub_cancel_left, Nat.add_assoc, Nat.add_sub_cancel_left, List.range'_1_concat,
      List.flatMap_append, hline]
    simp [hline]

theorem resultLine_untouched (hab : a ≤ b) (hb : b ≤ (splitLinesWithEndings original).length)
    (h : ∀ i, a ≤ i → i < b → isTouched base rs i = false) :
    (List.range' a (b - a)).flatMap (resultLine original base rs) =
      (slice (splitLinesWithEndings original) a b).flatten := by
  rw [slice_flatten _ hab hb]
  apply List.flatMap_congr
  intro i hi
  have hbounds := List.mem_range'_1.1 hi
  rw [resultLine, h i hbounds.1 (by omega)]
  rfl

theorem resultLine_touched (hab : a ≤ b) (h : ∀ i, a ≤ i → i < b → isTouched base rs i = true) :
    (List.range' a (b - a)).flatMap (resultLine original base rs) =
      editedRange base (rs.map TextReplacement.edit)
        (lineStart (splitLinesWithEndings base) a) (lineStart (splitLinesWithEndings base) b) := by
  obtain ⟨n, rfl⟩ := Nat.exists_eq_add_of_le hab
  clear hab
  rw [Nat.add_sub_cancel_left]
  induction n with
  | zero =>
    rw [editedRange, Nat.add_zero, Nat.sub_self]
    rfl
  | succ n ih =>
    have hline : resultLine original base rs (a + n) =
        editedRange base (rs.map TextReplacement.edit)
          (lineStart (splitLinesWithEndings base) (a + n))
          (lineStart (splitLinesWithEndings base) (a + n + 1)) := by
      rw [resultLine, h (a + n) (by omega) (by omega)]
      rfl
    rw [List.range'_1_concat, List.flatMap_append, List.flatMap_singleton,
      ih fun i hi hn => h i hi (by omega), hline,
      editedRange_append _ _ (lineStart_mono _ (Nat.le_add_right a n)) (lineStart_le_succ _ _)]
    rfl

theorem applyReplacements_eq (content : List Char) (rs : List TextReplacement) (offset : Nat) :
    applyReplacements content rs offset = applied content (rs.map TextReplacement.edit) offset := by
  rw [applyReplacements, List.foldl_reverse, applied, List.foldr_map]
  rfl

/-! ## The rebuilt text -/

theorem noneEmpty_edits (h : InsideBase base rs) : NoneEmpty (rs.map TextReplacement.edit) := by
  intro e he
  obtain ⟨r, hr, rfl⟩ := List.mem_map.1 he
  exact (h r hr).1

theorem applyReplacements_group {before after : List TextReplacement}
    (hok : GroupOk (splitLinesWithEndings base) group)
    (hinside : InsideBase base (before ++ group.replacements ++ after))
    (horder : InOrder ((before ++ group.replacements ++ after).map TextReplacement.edit))
    (hbefore : ∀ r ∈ before, r.matchIndex + r.matchLength ≤
      lineStart (splitLinesWithEndings base) group.startLine)
    (hafter : ∀ r ∈ after, lineStart (splitLinesWithEndings base) group.endLine ≤ r.matchIndex) :
    applyReplacements
        (slice base (lineStart (splitLinesWithEndings base) group.startLine)
          (lineStart (splitLinesWithEndings base) group.endLine))
        group.replacements (lineStart (splitLinesWithEndings base) group.startLine) =
      editedRange base ((before ++ group.replacements ++ after).map TextReplacement.edit)
        (lineStart (splitLinesWithEndings base) group.startLine)
        (lineStart (splitLinesWithEndings base) group.endLine) := by
  have hown : InsideBase base group.replacements := fun r hr =>
    hinside r (List.mem_append_left _ (List.mem_append_right _ hr))
  have hle := lineStart_mono (splitLinesWithEndings base) (Nat.le_of_lt hok.nonempty)
  have hend : lineStart (splitLinesWithEndings base) group.endLine ≤ base.length := by
    have hmono := lineStart_mono (splitLinesWithEndings base) hok.bound
    rw [lineStart_length, flatten_splitLinesWithEndings] at hmono
    exact hmono
  have hgroupOrder : InOrder (group.replacements.map TextReplacement.edit) := by
    rw [List.map_append, List.map_append] at horder
    exact (List.pairwise_append.1 (List.pairwise_append.1 horder).1).2.1
  rw [applyReplacements_eq, applied_slice (noneEmpty_edits hown) hgroupOrder hle hend]
  · apply editedRange_congr (noneEmpty_edits hown) (noneEmpty_edits hinside)
    intro p hp hlt
    have hnone : ∀ {rs : List TextReplacement}, (∀ r ∈ rs, r.edit.covers p = false) →
        (rs.map TextReplacement.edit).filter (fun e => e.covers p) = [] := by
      intro rs hrs
      rw [List.filter_eq_nil_iff]
      intro e he
      obtain ⟨r, hr, rfl⟩ := List.mem_map.1 he
      rw [hrs r hr]
      exact Bool.false_ne_true
    rw [List.map_append, List.map_append, List.filter_append, List.filter_append,
      @hnone before, @hnone after, List.nil_append, List.append_nil]
    · intro r hr
      have hfar := hafter r hr
      rw [← Bool.not_eq_true, RangeEdit.covers_iff]
      show ¬ (r.matchIndex ≤ p ∧ _)
      omega
    · intro r hr
      have hfar := hbefore r hr
      rw [← Bool.not_eq_true, RangeEdit.covers_iff]
      show ¬ (_ ∧ p < r.matchIndex + r.matchLength)
      omega
  · intro e he
    obtain ⟨r, hr, rfl⟩ := List.mem_map.1 he
    exact ⟨hok.start r hr, hok.stop r hr⟩

theorem groupBounds (hok : GroupOk (splitLinesWithEndings base) group) :
    ((getLineSpans base)[group.startLine]?).elim 0 LineSpan.start =
        lineStart (splitLinesWithEndings base) group.startLine ∧
      ((getLineSpans base)[group.endLine - 1]?).elim 0 LineSpan.stop =
        lineStart (splitLinesWithEndings base) group.endLine := by
  have hnonempty := hok.nonempty
  have hbound := hok.bound
  rw [getLineSpans, getElem?_lineSpans _ _ _ (by omega), getElem?_lineSpans _ _ _ (by omega),
    Nat.sub_add_cancel (by omega)]
  exact ⟨Nat.zero_add _, Nat.zero_add _⟩

theorem Grouped.behind {rest : List TextReplacement} (hgroups : Grouped lines rest groups) {k : Nat}
    (hk : ∀ group ∈ groups, k ≤ group.startLine) :
    ∀ r ∈ rest, lineStart lines k ≤ r.matchIndex := by
  intro r hr
  rw [← hgroups.all] at hr
  obtain ⟨group, hgroup, hr⟩ := List.mem_flatMap.1 hr
  exact Nat.le_trans (lineStart_mono lines (hk group hgroup)) ((hgroups.ok group hgroup).start r hr)

theorem isTouched_between {before after : List TextReplacement}
    (hbefore : ∀ r ∈ before, r.matchIndex + r.matchLength ≤
      lineStart (splitLinesWithEndings base) a)
    (hafter : ∀ r ∈ after, lineStart (splitLinesWithEndings base) b ≤ r.matchIndex) (ha : a ≤ i)
    (hb : i < b) : isTouched base (before ++ after) i = false := by
  have hstart := lineStart_mono (splitLinesWithEndings base) ha
  have hstop := lineStart_mono (splitLinesWithEndings base) (Nat.succ_le_of_lt hb)
  rw [isTouched, List.any_eq_false]
  intro r hr
  rw [TextReplacement.touches_iff]
  cases List.mem_append.1 hr with
  | inl h =>
    have hfar := hbefore r h
    omega
  | inr h =>
    have hfar := hafter r h
    rw [Nat.succ_eq_add_one] at hstop
    omega

/-- The groups and the lines between them, read line by line from line `k` on. -/
theorem rebuildLines_grouped {original base : List Char} {before rest : List TextReplacement}
    {groups : List ReplacementGroup} {k : Nat}
    (hcount : (splitLinesWithEndings original).length = (splitLinesWithEndings base).length)
    (hgroups : Grouped (splitLinesWithEndings base) rest groups)
    (hinside : InsideBase base (before ++ rest))
    (horder : InOrder ((before ++ rest).map TextReplacement.edit))
    (hbefore : ∀ r ∈ before, r.matchIndex + r.matchLength ≤
      lineStart (splitLinesWithEndings base) k)
    (hk : ∀ group ∈ groups, k ≤ group.startLine) (hbound : k ≤ (splitLinesWithEndings base).length) :
    rebuildLines (splitLinesWithEndings original) base (getLineSpans base) k groups =
      (List.range' k ((splitLinesWithEndings base).length - k)).flatMap
        (resultLine original base (before ++ rest)) := by
  induction groups generalizing k before rest with
  | nil =>
    have hrest : rest = [] := hgroups.all.symm
    rw [rebuildLines, resultLine_untouched hbound (Nat.le_of_eq hcount.symm), ← hcount,
      slice_length_right]
    intro i hi hlt
    apply isTouched_between hbefore _ hi hlt
    intro r hr
    rw [hrest] at hr
    cases hr
  | cons group groups ih =>
    have hok := hgroups.ok group List.mem_cons_self
    have hnonempty := hok.nonempty
    have hle := hk group List.mem_cons_self
    obtain ⟨hfirst, hapart⟩ := List.pairwise_cons.1 hgroups.apart
    have hrest : Grouped (splitLinesWithEndings base)
        (groups.flatMap ReplacementGroup.replacements) groups :=
      ⟨rfl, fun g hg => hgroups.ok g (List.mem_cons_of_mem _ hg), hapart⟩
    have hsplit : before ++ rest = before ++ group.replacements ++
        groups.flatMap ReplacementGroup.replacements := by
      rw [← hgroups.all, List.flatMap_cons, List.append_assoc]
    have hgap : ∀ i, k ≤ i → i < group.startLine → isTouched base (before ++ rest) i = false := by
      intro i hi hlt
      apply isTouched_between hbefore _ hi hlt
      apply hgroups.behind
      intro g hg
      cases List.mem_cons.1 hg with
      | inl h => exact Nat.le_of_eq (congrArg ReplacementGroup.startLine h.symm)
      | inr h =>
        have hnext := hfirst g h
        omega
    have hrun : ∀ i, group.startLine ≤ i → i < group.endLine →
        isTouched base (before ++ rest) i = true := by
      intro i hi hlt
      obtain ⟨r, hr, htouch⟩ := hok.touched i hi hlt
      rw [isTouched, hsplit]
      exact List.any_eq_true.2 ⟨r, List.mem_append_left _ (List.mem_append_right _ hr), htouch⟩
    have hlater : ∀ r ∈ groups.flatMap ReplacementGroup.replacements,
        lineStart (splitLinesWithEndings base) group.endLine ≤ r.matchIndex :=
      hrest.behind fun g hg => hfirst g hg
    have hgroupText := applyReplacements_group hok (hsplit ▸ hinside) (hsplit ▸ horder)
      (fun r hr => Nat.le_trans (hbefore r hr) (lineStart_mono _ hle)) hlater
    have htail := ih hrest (hsplit ▸ hinside) (hsplit ▸ horder) (k := group.endLine)
      (by
        intro r hr
        cases List.mem_append.1 hr with
        | inl h => exact Nat.le_trans (hbefore r h) (lineStart_mono _ (by omega))
        | inr h => exact hok.stop r h)
      (fun g hg => hfirst g hg) hok.bound
    have hranges : List.range' k ((splitLinesWithEndings base).length - k) =
        List.range' k (group.startLine - k) ++
          List.range' group.startLine (group.endLine - group.startLine) ++
            List.range' group.endLine ((splitLinesWithEndings base).length - group.endLine) := by
      have hbase := hok.bound
      have h1 := List.range'_append_1 (s := k) (m := group.startLine - k)
        (n := group.endLine - group.startLine)
      have h2 := List.range'_append_1 (s := k) (m := group.endLine - k)
        (n := (splitLinesWithEndings base).length - group.endLine)
      rw [show k + (group.startLine - k) = group.startLine by omega,
        show group.startLine - k + (group.endLine - group.startLine) = group.endLine - k by omega]
        at h1
      rw [show k + (group.endLine - k) = group.endLine by omega,
        show group.endLine - k + ((splitLinesWithEndings base).length - group.endLine) =
          (splitLinesWithEndings base).length - k by omega] at h2
      rw [h1, h2]
    rw [rebuildLines, (groupBounds hok).1, (groupBounds hok).2, hgroupText, htail, hranges,
      List.flatMap_append, List.flatMap_append, resultLine_untouched hle
        (by have hbase := hok.bound; omega) hgap, resultLine_touched (Nat.le_of_lt hnonempty) hrun,
      hsplit]

/-! ## The contract -/

/-- Replacements of disjoint ranges. -/
def NonOverlapping (rs : List TextReplacement) : Prop :=
  rs.Pairwise fun a b => a.matchIndex + a.matchLength ≤ b.matchIndex ∨
    b.matchIndex + b.matchLength ≤ a.matchIndex

theorem NonOverlapping.allApart (h : NonOverlapping rs) : AllApart (rs.map TextReplacement.edit) :=
  List.pairwise_map.2 h

theorem NonOverlapping.inOrder (h : NonOverlapping rs) (hinside : InsideBase base rs)
    (hsorted : rs.Pairwise fun a b => a.matchIndex ≤ b.matchIndex) :
    InOrder (rs.map TextReplacement.edit) := by
  apply List.pairwise_map.2
  apply (h.and hsorted).imp_of_mem
  intro a b _ hb hab
  obtain ⟨hapart, hle⟩ := hab
  have hpos := (hinside b hb).1
  show a.matchIndex + a.matchLength ≤ b.matchIndex
  omega

theorem resultLine_perm {rs' : List TextReplacement} (hperm : rs.Perm rs')
    (hinside : InsideBase base rs) (h : NonOverlapping rs) (i : Nat) :
    resultLine original base rs i = resultLine original base rs' i := by
  have htouched : isTouched base rs i = isTouched base rs' i := by
    rw [isTouched, isTouched, Bool.eq_iff_iff, List.any_eq_true, List.any_eq_true]
    simp only [hperm.mem_iff]
  rw [resultLine, resultLine, htouched,
    editedRange_perm (hperm.map TextReplacement.edit) (noneEmpty_edits hinside) h.allApart]

/-- The replacements that take a character of the lines from `first` on and before `last`. -/
def replacementsOf (base : List Char) (rs : List TextReplacement) (first last : Nat) :
    List TextReplacement :=
  rs.filter fun r => r.touches (lineStart (splitLinesWithEndings base) first)
    (lineStart (splitLinesWithEndings base) last)

theorem editedRange_replacementsOf (hinside : InsideBase base rs) (first last : Nat) :
    editedRange base (rs.map TextReplacement.edit)
        (lineStart (splitLinesWithEndings base) first) (lineStart (splitLinesWithEndings base) last) =
      editedRange base ((replacementsOf base rs first last).map TextReplacement.edit)
        (lineStart (splitLinesWithEndings base) first)
        (lineStart (splitLinesWithEndings base) last) := by
  apply editedRange_congr (noneEmpty_edits hinside)
    (noneEmpty_edits fun r hr => hinside r (List.mem_filter.1 hr).1)
  intro p hp hlt
  rw [List.filter_map, List.filter_map, List.filter_filter]
  congr 1
  apply List.filter_congr
  intro r _
  -- a replacement that covers a position of the run touches the run
  cases hcovers : r.edit.covers p with
  | false => simp [hcovers]
  | true =>
    have hbounds := r.edit.covers_iff.1 hcovers
    have htouch : r.touches (lineStart (splitLinesWithEndings base) first)
        (lineStart (splitLinesWithEndings base) last) = true := by
      rw [TextReplacement.touches_iff]
      have hstart : r.matchIndex ≤ p := hbounds.1
      have hstop : p < r.matchIndex + r.matchLength := hbounds.2
      omega
    simp [hcovers, htouch]

theorem pairwise_matchIndex (rs : List TextReplacement) :
    (rs.mergeSort fun a b => decide (a.matchIndex ≤ b.matchIndex)).Pairwise
      fun a b => a.matchIndex ≤ b.matchIndex := by
  have hpairs := @List.pairwise_mergeSort _ (fun a b => decide (a.matchIndex ≤ b.matchIndex))
    (fun a b c hab hbc => by simp only [decide_eq_true_eq] at hab hbc ⊢; omega)
    (fun a b => by simp only [Bool.or_eq_true, decide_eq_true_eq]; omega) rs
  exact hpairs.imp fun h => of_decide_eq_true h

theorem applyReplacementsPreserving_eq
    (hcount : (splitLinesWithEndings original).length = (splitLinesWithEndings base).length)
    (hdisjoint : NonOverlapping rs) (hinside : InsideBase base rs) :
    applyReplacementsPreservingUnchangedLines original base rs =
      .ok ((List.range (splitLinesWithEndings original).length).flatMap
        (resultLine original base rs)) := by
  have hperm := List.mergeSort_perm rs fun a b => decide (a.matchIndex ≤ b.matchIndex)
  have hsorted := pairwise_matchIndex rs
  unfold applyReplacementsPreservingUnchangedLines
  generalize hsort : (rs.mergeSort fun a b => decide (a.matchIndex ≤ b.matchIndex)) = sorted
    at hperm hsorted
  have hinside' : InsideBase base sorted := fun r hr => hinside r (hperm.mem_iff.1 hr)
  have hdisjoint' : NonOverlapping sorted := hdisjoint.perm hperm.symm fun h => h.symm
  have hnone : Grouped (splitLinesWithEndings base) [] [] :=
    ⟨rfl, fun g hg => absurd hg List.not_mem_nil, List.Pairwise.nil⟩
  obtain ⟨groups, hgroups, hgrouped⟩ := groupReplacements_ok hnone hinside' hsorted
  have hrebuilt := @rebuildLines_grouped original base [] _ groups 0 hcount hgrouped hinside'
    (hdisjoint'.inOrder hinside' hsorted) (fun r hr => absurd hr List.not_mem_nil)
    (fun g _ => Nat.zero_le _) (Nat.zero_le _)
  have hspans : (getLineSpans base).length = (splitLinesWithEndings base).length :=
    length_lineSpans _ 0
  have hrefuse : refuse ((splitLinesWithEndings original).length != (getLineSpans base).length)
      differentLineCount = .ok () := by
    rw [refuse_ok_iff, hspans, hcount, bne_self_eq_false]
  simp only [hrefuse, hgroups]
  show Except.ok _ = _
  rw [hrebuilt, ← hcount, List.range_eq_range', Nat.sub_zero]
  congr 1
  apply List.flatMap_congr
  intro i _
  exact resultLine_perm hperm hinside' hdisjoint' i

/-- The result stands line for line: a line no replacement touches is the original's own, and a
run of touched lines is its base text with the replacements of the run. -/
theorem untouched_lines_kept {original base : List Char} {rs : List TextReplacement}
    (hcount : (splitLinesWithEndings original).length = (splitLinesWithEndings base).length)
    (hdisjoint : NonOverlapping rs) (hinside : InsideBase base rs) :
    applyReplacementsPreservingUnchangedLines original base rs =
        .ok ((List.range (splitLinesWithEndings original).length).flatMap
          (resultLine original base rs)) ∧
      (∀ i, isTouched base rs i = false →
        resultLine original base rs i = (splitLinesWithEndings original)[i]?.getD []) ∧
      ∀ first last, first ≤ last →
        (∀ i, first ≤ i → i < last → isTouched base rs i = true) →
        (List.range' first (last - first)).flatMap (resultLine original base rs) =
          editedRange base ((replacementsOf base rs first last).map TextReplacement.edit)
            (lineStart (splitLinesWithEndings base) first)
            (lineStart (splitLinesWithEndings base) last) := by
  refine ⟨?_, ?_, ?_⟩
  · exact applyReplacementsPreserving_eq hcount hdisjoint hinside
  · intro i hi
    rw [resultLine, hi]
    rfl
  · intro first last hle hrun
    rw [resultLine_touched hle hrun, editedRange_replacementsOf hinside]

/-- A line with white space at its end is kept between two lines that are replaced. -/
theorem untouched_lines_kept_example :
    applyReplacementsPreservingUnchangedLines "b\na  \nbd\n".toList "b\na\nbd\n".toList
        [⟨0, 0, 1, ['c']⟩, ⟨1, 5, 1, ['e', '\n', 'f']⟩] = .ok "c\na  \nbe\nf\n".toList := by
  have hdisjoint : NonOverlapping [⟨0, 0, 1, ['c']⟩, ⟨1, 5, 1, ['e', '\n', 'f']⟩] := by
    refine List.pairwise_pair.2 ?_
    decide
  have hinside : InsideBase "b\na\nbd\n".toList [⟨0, 0, 1, ['c']⟩, ⟨1, 5, 1, ['e', '\n', 'f']⟩] := by
    intro r hr
    rcases List.mem_pair.1 hr with rfl | rfl <;> decide
  have h := (@untouched_lines_kept "b\na  \nbd\n".toList "b\na\nbd\n".toList _ (by decide)
    hdisjoint hinside).1
  rw [h]
  decide

end PieLab

import PieLab.Lib.LongestRuns
import PieLab.Tools.Truncate

/-
  What truncation keeps

  Both loops charge the lines and the newlines between them, so they end with the
  longest run of whole lines within the limits. Whether to truncate at all is decided
  by the bytes of the text, with the newline at its end.

  What is proved:
    1. `collectHead_spec`, `collectTail_spec` — the runs the loops end with, and the
       limit they report.
    2. `truncation_exact_iff` — the runs are the longest ones and `lines` is reported
       only where one more line would be too many, exactly where the text is not too
       long by its last newline alone.
    3. `newline_reported_as_lines` — one line and a newline that does not fit.

  Correspondence (TypeScript ↔ Lean): packages/coding-agent/src/core/tools/truncate.ts,
  as in PieLab.Tools.Truncate.
-/

namespace PieLab

open Lib

/-! ## Runs of lines -/

/-- The lines of a run are not too many, and not too long with the newlines between them. -/
def WithinLimits (maxLines maxBytes : Nat) (run : List (List Char)) : Prop :=
  run.length ≤ maxLines ∧ byteLength (joinLines run) ≤ maxBytes

/-- The longest run of whole lines at the beginning that is within the limits. -/
def LongestHead (maxLines maxBytes : Nat) (lines run : List (List Char)) : Prop :=
  LongestRun (WithinLimits maxLines maxBytes) lines run

/-- The longest run of whole lines at the end that is within the limits. -/
structure LongestTail (maxLines maxBytes : Nat) (lines run : List (List Char)) : Prop where
  back : run <:+ lines
  within : WithinLimits maxLines maxBytes run
  longest : ∀ other, other <:+ lines → WithinLimits maxLines maxBytes other →
    other.length ≤ run.length

theorem byteLength_joinLines_append (l r : List (List Char)) :
    byteLength (joinLines (l ++ r)) =
      byteLength (joinLines l) + ((r.map byteLength).sum + if l.length > 0 then r.length else r.length - 1) := by
  rw [byteLength_joinLines, byteLength_joinLines, addedBytes_eq, addedBytes_eq]
  simp only [List.map_reverse, List.sum_reverse, List.length_reverse, List.map_append,
    List.sum_append, List.length_append]
  rcases Nat.eq_zero_or_pos l.length with h | h
  · rw [List.eq_nil_of_length_eq_zero h]
    simp
  · rw [if_pos h]
    simp
    omega

theorem byteLength_joinLines_concat (l : List (List Char)) (line : List Char) :
    byteLength (joinLines (l ++ [line])) =
      byteLength (joinLines l) + (byteLength line + if l.length > 0 then 1 else 0) := by
  rw [byteLength_joinLines_append]
  simp

theorem byteLength_joinLines_reverse (l : List (List Char)) :
    byteLength (joinLines l.reverse) = byteLength (joinLines l) := by
  rw [byteLength_joinLines, byteLength_joinLines, addedBytes_eq, addedBytes_eq]
  simp

theorem byteLength_joinLines_cons (line : List Char) (l : List (List Char)) :
    byteLength (joinLines (line :: l)) =
      byteLength (joinLines l) + (byteLength line + if l.length > 0 then 1 else 0) := by
  rw [← byteLength_joinLines_reverse, List.reverse_cons, byteLength_joinLines_concat,
    byteLength_joinLines_reverse, List.length_reverse]

theorem withinLimits_front {maxLines maxBytes : Nat} :
    HoldsOfFronts (WithinLimits maxLines maxBytes) := by
  rintro run other ⟨rest, rfl⟩ ⟨hlines, hbytes⟩
  rw [List.length_append] at hlines
  rw [byteLength_joinLines_append] at hbytes
  exact ⟨by omega, by omega⟩

theorem withinLimits_reverse {maxLines maxBytes : Nat} {run : List (List Char)} :
    WithinLimits maxLines maxBytes run.reverse ↔ WithinLimits maxLines maxBytes run := by
  unfold WithinLimits
  rw [List.length_reverse, byteLength_joinLines_reverse]

theorem LongestTail.of_reverse {maxLines maxBytes : Nat} {lines run : List (List Char)}
    (h : LongestHead maxLines maxBytes lines.reverse run.reverse) :
    LongestTail maxLines maxBytes lines run where
  back := List.reverse_prefix.mp h.front
  within := withinLimits_reverse.mp h.holds
  longest other hback hother := by
    have hle :=
      h.longest other.reverse (List.reverse_prefix.mpr hback) (withinLimits_reverse.mpr hother)
    simpa using hle

/-! ## The loops -/

section Loops
variable {maxLines maxBytes : Nat}

/-- Why a loop stops: all lines are taken, there are as many as are allowed, or the next one is too
long. -/
inductive Stopped (maxLines maxBytes : Nat) (lines run : List (List Char)) :
    TruncatedBy → Prop where
  | all (h : run = lines) : Stopped maxLines maxBytes lines run .lines
  | lines (h : run <+: lines) (hfull : run.length = maxLines) : Stopped maxLines maxBytes lines run .lines
  | bytes {line : List Char} {rest : List (List Char)} (h : lines = run ++ line :: rest)
      (hlong : maxBytes < byteLength (joinLines (run ++ [line]))) :
      Stopped maxLines maxBytes lines run .bytes

theorem Stopped.longest {lines run : List (List Char)} {reason : TruncatedBy}
    (h : Stopped maxLines maxBytes lines run reason) (hrun : WithinLimits maxLines maxBytes run) :
    LongestHead maxLines maxBytes lines run := by
  cases h with
  | all h =>
    subst h
    exact LongestRun.of_all hrun
  | lines h hfull => exact ⟨h, hrun, fun other _ hother => hfull ▸ hother.1⟩
  | bytes h hlong =>
    subst h
    exact LongestRun.of_stop withinLimits_front hrun fun hnext => by
      have hle := hnext.2
      omega

/-- The loop of `truncateHead` goes on from what it has taken to the longest run. -/
theorem collectHead_spec (rest : List (List Char)) {kept : HeadLines}
    (hbytes : kept.bytes = byteLength (joinLines kept.lines)) (hby : kept.truncatedBy = .lines)
    (hkept : WithinLimits maxLines maxBytes kept.lines) :
    let r := collectHead maxLines maxBytes rest kept
    r.bytes = byteLength (joinLines r.lines) ∧ WithinLimits maxLines maxBytes r.lines ∧
      Stopped maxLines maxBytes (kept.lines ++ rest) r.lines r.truncatedBy := by
  induction rest generalizing kept with
  | nil =>
    refine ⟨hbytes, hkept, ?_⟩
    show Stopped _ _ _ kept.lines kept.truncatedBy
    rw [hby, List.append_nil]
    exact .all rfl
  | cons line rest ih =>
    intro r
    have hr : r = collectHead maxLines maxBytes (line :: rest) kept := rfl
    rw [collectHead] at hr
    by_cases hcount : kept.lines.length < maxLines
    · rw [if_pos hcount] at hr
      have hnext := byteLength_joinLines_concat kept.lines line
      by_cases hlong : kept.bytes + (byteLength line + if kept.lines.length > 0 then 1 else 0) > maxBytes
      · simp only [if_pos hlong] at hr
        rw [hr]
        exact ⟨hbytes, hkept, .bytes rfl (by rw [hnext, ← hbytes]; exact hlong)⟩
      · simp only [if_neg hlong] at hr
        have hih := @ih
          { kept with
            lines := kept.lines ++ [line]
            bytes := kept.bytes + (byteLength line + if kept.lines.length > 0 then 1 else 0) }
          (by rw [hnext, ← hbytes]) hby
          ⟨by rw [List.length_append, List.length_singleton]; omega, by rw [hnext, ← hbytes]; omega⟩
        rw [← hr] at hih
        simpa using hih
    · rw [if_neg hcount] at hr
      rw [hr]
      refine ⟨hbytes, hkept, ?_⟩
      rw [hby]
      exact .lines (List.prefix_append _ _) (by have hle := hkept.1; omega)

/-- The loop of `truncateTail`, where the last line is not too long. -/
theorem collectTail_spec (rest : List (List Char)) {kept : TailLines}
    (hbytes : kept.bytes = byteLength (joinLines kept.lines)) (hby : kept.truncatedBy = .lines)
    (hkept : WithinLimits maxLines maxBytes kept.lines)
    (hlast : kept.lines = [] → ∀ line ∈ rest.head?, byteLength line ≤ maxBytes) :
    let r := collectTail maxLines maxBytes rest kept
    r.bytes = byteLength (joinLines r.lines) ∧ WithinLimits maxLines maxBytes r.lines ∧
      Stopped maxLines maxBytes (kept.lines.reverse ++ rest) r.lines.reverse r.truncatedBy := by
  induction rest generalizing kept with
  | nil =>
    refine ⟨hbytes, hkept, ?_⟩
    show Stopped _ _ _ kept.lines.reverse kept.truncatedBy
    rw [hby, List.append_nil]
    exact .all rfl
  | cons line rest ih =>
    intro r
    have hr : r = collectTail maxLines maxBytes (line :: rest) kept := rfl
    rw [collectTail] at hr
    by_cases hcount : kept.lines.length < maxLines
    · rw [if_pos hcount] at hr
      have hnext := byteLength_joinLines_cons line kept.lines
      by_cases hlong : kept.bytes + (byteLength line + if kept.lines.length > 0 then 1 else 0) > maxBytes
      · have hsome : kept.lines.length ≠ 0 := by
          intro hzero
          have hnil := List.eq_nil_of_length_eq_zero hzero
          have hle := hlast hnil line rfl
          rw [hbytes, hnil] at hlong
          simp [joinLines] at hlong
          omega
        simp only [if_pos hlong, if_neg hsome] at hr
        rw [hr]
        refine ⟨hbytes, hkept, .bytes rfl ?_⟩
        show maxBytes < byteLength (joinLines (kept.lines.reverse ++ [line]))
        rw [← List.reverse_cons, byteLength_joinLines_reverse, hnext, ← hbytes]
        exact hlong
      · simp only [if_neg hlong] at hr
        have hih := @ih
          { kept with
            lines := line :: kept.lines
            bytes := kept.bytes + (byteLength line + if kept.lines.length > 0 then 1 else 0) }
          (by rw [hnext, ← hbytes]) hby
          ⟨by rw [List.length_cons]; omega, by rw [hnext, ← hbytes]; omega⟩
          (fun hnil => absurd hnil (List.cons_ne_nil _ _))
        rw [← hr] at hih
        simpa using hih
    · rw [if_neg hcount] at hr
      rw [hr]
      refine ⟨hbytes, hkept, ?_⟩
      rw [hby]
      refine .lines (List.prefix_append _ _) ?_
      rw [List.length_reverse]
      have hle := hkept.1
      omega

end Loops

/-! ## The end of a line that is too long -/

/-- The longest end of a line whose bytes are not too many. -/
def LongestEnd (maxBytes : Nat) (line text : List Char) : Prop :=
  text <:+ line ∧ byteLength text ≤ maxBytes ∧
    ∀ other, other <:+ line → byteLength other ≤ maxBytes → other.length ≤ text.length

theorem dropBytes_longest {line : List Char} {maxBytes : Nat} (h : maxBytes ≤ byteLength line) :
    LongestEnd maxBytes line (dropBytes (byteLength line - maxBytes) line) := by
  obtain ⟨front, hline, hfront, hlast⟩ :=
    @dropBytes_split line (byteLength line - maxBytes) (Nat.sub_le _ _)
  have hsize := congrArg byteLength hline
  rw [byteLength_append] at hsize
  refine ⟨⟨front, hline.symm⟩, by omega, ?_⟩
  intro other hother hfits
  by_contra hlong
  have hend : dropBytes (byteLength line - maxBytes) line <:+ line := ⟨front, hline.symm⟩
  obtain ⟨more, hmore⟩ := List.suffix_of_suffix_length_le hend hother (by omega)
  -- the character in front of the end belongs to the longer one
  obtain ⟨before, hbefore⟩ := hother
  have hsame : before ++ more ++ dropBytes (byteLength line - maxBytes) line =
      front ++ dropBytes (byteLength line - maxBytes) line := by
    rw [List.append_assoc, hmore, hbefore]
    exact hline
  have hsplit : before ++ more = front := List.append_cancel_right hsame
  rcases List.eq_nil_or_concat' more with hnil | ⟨init, c, hc⟩
  · rw [hnil, List.nil_append] at hmore
    rw [hmore] at hlong
    omega
  · have hget : front.getLast? = some c := by
      rw [← hsplit, hc, ← List.append_assoc, List.getLast?_concat]
    have hlt := hlast c hget
    have hbytes := congrArg byteLength hmore
    rw [byteLength_append, hc, byteLength_append] at hbytes
    have hone : byteLength [c] = c.utf8Size := by simp
    omega

/-! ## What is kept -/

section Exact
variable {content : List Char} {maxLines maxBytes : Nat}

/-- The result is the run, or the whole text where that is all of it. -/
def Keeps (content : List Char) (r : TruncationResult) (run : List (List Char)) : Prop :=
  r.outputLines = run.length ∧
    (r.content = joinLines run ∨ r.content = content ∧ run = splitLinesForCounting content)

/-- One more line would be too many wherever the lines are said to be. -/
def ReasonHolds (r : TruncationResult) : Prop :=
  r.truncatedBy = some .lines → r.maxLines < r.outputLines + 1

structure HeadExact (content : List Char) (maxLines maxBytes : Nat) : Prop where
  run : byteLength ((splitLinesForCounting content).headD []) ≤ maxBytes →
    ∃ run, LongestHead maxLines maxBytes (splitLinesForCounting content) run ∧
      Keeps content (truncateHead content maxLines maxBytes) run
  reason : ReasonHolds (truncateHead content maxLines maxBytes)

structure TailExact (content : List Char) (maxLines maxBytes : Nat) : Prop where
  run : byteLength ((splitLinesForCounting content).getLastD []) ≤ maxBytes →
    ∃ run, LongestTail maxLines maxBytes (splitLinesForCounting content) run ∧
      Keeps content (truncateTail content maxLines maxBytes) run
  longLine : maxBytes < byteLength ((splitLinesForCounting content).getLastD []) →
    LongestEnd maxBytes ((splitLinesForCounting content).getLastD [])
      (truncateTail content maxLines maxBytes).content
  reason : ReasonHolds (truncateTail content maxLines maxBytes)

/-- What is kept is the most that is within the limits, and the limit that is reported is one. -/
def TruncationExact (content : List Char) (maxLines maxBytes : Nat) : Prop :=
  HeadExact content maxLines maxBytes ∧ TailExact content maxLines maxBytes

/-- The lines would all fit, and the newline behind the last one is one byte too many. -/
def OverByNewline (content : List Char) (maxLines maxBytes : Nat) : Prop :=
  (splitLinesForCounting content).length < maxLines ∧ content.getLast? = some '\n' ∧
    byteLength content = maxBytes + 1

theorem byteLength_content (content : List Char) :
    byteLength content = byteLength (joinLines (splitLinesForCounting content)) +
      if content.getLast? = some '\n' then 1 else 0 := by
  rw [byteLength_eq_addedBytes, byteLength_joinLines]

theorem Fits.within (h : Fits maxLines maxBytes content) :
    WithinLimits maxLines maxBytes (splitLinesForCounting content) := by
  have hsize := byteLength_content content
  have hle := h.2
  exact ⟨h.1, by omega⟩

theorem Fits.longestTail (h : Fits maxLines maxBytes content) :
    LongestTail maxLines maxBytes (splitLinesForCounting content) (splitLinesForCounting content) :=
  .of_reverse (LongestRun.of_all (withinLimits_reverse.mpr h.within))

theorem overByNewline_of_all (hnot : ¬ Fits maxLines maxBytes content)
    (hwithin : WithinLimits maxLines maxBytes (splitLinesForCounting content))
    (hfew : (splitLinesForCounting content).length < maxLines) : OverByNewline content maxLines maxBytes := by
  have hsize := byteLength_content content
  have hle := hwithin.2
  have hmore : ¬ byteLength content ≤ maxBytes := fun h => hnot ⟨hwithin.1, h⟩
  by_cases hend : content.getLast? = some '\n'
  · rw [if_pos hend] at hsize
    exact ⟨hfew, hend, by omega⟩
  · rw [if_neg hend] at hsize
    omega

theorem Stopped.reason_lines {lines run : List (List Char)} {reason : TruncatedBy}
    (h : Stopped maxLines maxBytes lines run reason) (hlines : reason = .lines) :
    run = lines ∨ run.length = maxLines := by
  cases h with
  | all h => exact .inl h
  | lines h hfull => exact .inr hfull
  | bytes h hlong => cases hlines

theorem truncateHead_exact (hover : ¬ OverByNewline content maxLines maxBytes) :
    HeadExact content maxLines maxBytes := by
  by_cases hfits : Fits maxLines maxBytes content
  · have heq : truncateHead content maxLines maxBytes =
        { content, truncated := false, truncatedBy := none
          totalLines := (splitLinesForCounting content).length, totalBytes := byteLength content
          outputLines := (splitLinesForCounting content).length
          outputBytes := byteLength content, lastLinePartial := false
          firstLineExceedsLimit := false, maxLines, maxBytes } := if_pos hfits
    constructor
    · intro _
      refine ⟨_, LongestRun.of_all hfits.within, ?_⟩
      rw [heq]
      exact ⟨rfl, .inr ⟨rfl, rfl⟩⟩
    · rw [heq]
      intro h
      cases h
  · have hnot : ¬ ((splitLinesForCounting content).length ≤ maxLines ∧ byteLength content ≤ maxBytes) := hfits
    by_cases hfirst : byteLength ((splitLinesForCounting content).headD []) > maxBytes
    · have heq : (truncateHead content maxLines maxBytes).truncatedBy = some .bytes := by
        unfold truncateHead
        dsimp only
        rw [if_neg hnot, if_pos hfirst]
      constructor
      · intro h
        omega
      · intro h
        rw [heq] at h
        cases h
    · have hspec := @collectHead_spec maxLines maxBytes (splitLinesForCounting content) {} rfl rfl
        ⟨Nat.zero_le _, Nat.zero_le _⟩
      obtain ⟨hbytes, hwithin, hstopped⟩ := hspec
      rw [List.nil_append] at hstopped
      constructor
      · intro _
        refine ⟨_, hstopped.longest hwithin, ?_⟩
        unfold truncateHead
        dsimp only
        rw [if_neg hnot, if_neg hfirst]
        exact ⟨rfl, .inl rfl⟩
      · unfold truncateHead
        dsimp only
        rw [if_neg hnot, if_neg hfirst]
        intro hreason
        show maxLines < _ + 1
        by_contra hfew
        dsimp only at hreason hfew
        rw [if_neg (by omega)] at hreason
        rcases hstopped.reason_lines (Option.some.inj hreason) with hall | hfull
        · rw [hall] at hwithin hfew
          exact hover (overByNewline_of_all hfits hwithin (by omega))
        · omega

theorem getLastD_le_of_within (lines : List (List Char)) :
    byteLength (lines.getLastD []) ≤ byteLength (joinLines lines) := by
  rcases List.eq_nil_or_concat' lines with hnil | ⟨init, line, hlines⟩
  · rw [hnil]
    exact Nat.zero_le _
  · rw [hlines, List.getLastD_concat, byteLength_joinLines_concat]
    omega

theorem truncateTail_whole (hfits : Fits maxLines maxBytes content) :
    TailExact content maxLines maxBytes := by
  have heq : truncateTail content maxLines maxBytes =
      { content, truncated := false, truncatedBy := none
        totalLines := (splitLinesForCounting content).length, totalBytes := byteLength content
        outputLines := (splitLinesForCounting content).length
        outputBytes := byteLength content, lastLinePartial := false
        firstLineExceedsLimit := false, maxLines, maxBytes } := if_pos hfits
  constructor
  · intro _
    refine ⟨_, hfits.longestTail, ?_⟩
    rw [heq]
    exact ⟨rfl, .inr ⟨rfl, rfl⟩⟩
  · intro hlong
    have hle := Nat.le_trans (getLastD_le_of_within (splitLinesForCounting content)) hfits.within.2
    omega
  · rw [heq]
    intro h
    cases h

theorem truncateTail_run (hnot : ¬ Fits maxLines maxBytes content)
    (hover : ¬ OverByNewline content maxLines maxBytes)
    (hlast : byteLength ((splitLinesForCounting content).getLastD []) ≤ maxBytes) :
    TailExact content maxLines maxBytes := by
  have hnot' : ¬ ((splitLinesForCounting content).length ≤ maxLines ∧ byteLength content ≤ maxBytes) := hnot
  have hhead : ∀ line ∈ (splitLinesForCounting content).reverse.head?, byteLength line ≤
      maxBytes := by
    intro line hline
    rw [List.head?_reverse, Option.mem_def] at hline
    rw [List.getLastD_eq_getLast?, hline] at hlast
    exact hlast
  obtain ⟨hbytes, hwithin, hstopped⟩ := @collectTail_spec maxLines maxBytes
    (splitLinesForCounting content).reverse {} rfl rfl ⟨Nat.zero_le _, Nat.zero_le _⟩ fun _ => hhead
  rw [List.reverse_nil, List.nil_append] at hstopped
  constructor
  · intro _
    refine ⟨_, .of_reverse (hstopped.longest (withinLimits_reverse.mpr hwithin)), ?_⟩
    unfold truncateTail
    dsimp only
    rw [if_neg hnot']
    exact ⟨rfl, .inl rfl⟩
  · intro hlong
    omega
  · unfold truncateTail
    dsimp only
    rw [if_neg hnot']
    intro hreason
    show maxLines < _ + 1
    by_contra hfew
    dsimp only at hreason hfew
    rw [if_neg (by omega)] at hreason
    rcases hstopped.reason_lines (Option.some.inj hreason) with hall | hfull
    · rw [List.reverse_inj] at hall
      rw [hall] at hwithin hfew
      exact hover (overByNewline_of_all hnot hwithin (by omega))
    · rw [List.length_reverse] at hfull
      omega

theorem truncateTail_longEnd (hlines : 1 ≤ maxLines) (hnot : ¬ Fits maxLines maxBytes content)
    (hlast : maxBytes < byteLength ((splitLinesForCounting content).getLastD [])) :
    TailExact content maxLines maxBytes := by
  have hnot' : ¬ ((splitLinesForCounting content).length ≤ maxLines ∧ byteLength content ≤ maxBytes) := hnot
  rcases List.eq_nil_or_concat' (splitLinesForCounting content) with hnil | ⟨init, line, hsplit⟩
  · rw [hnil] at hlast
    exact absurd hlast (Nat.not_lt_zero _)
  · rw [hsplit, List.getLastD_concat] at hlast
    constructor
    · intro h
      rw [hsplit, List.getLastD_concat] at h
      omega
    · intro _
      rw [truncateTail_longLine hlines hsplit hlast, hsplit, List.getLastD_concat]
      exact dropBytes_longest (Nat.le_of_lt hlast)
    · have hkept : collectTail maxLines maxBytes (splitLinesForCounting content).reverse {} =
          { lines := [truncateStringToBytesFromEnd line maxBytes]
            bytes := byteLength (truncateStringToBytesFromEnd line maxBytes)
            truncatedBy := .bytes, lastLinePartial := true } := by
        rw [hsplit, List.reverse_append, List.reverse_singleton, List.singleton_append, collectTail]
        simp only [List.length_nil]
        rw [if_pos (show 0 < maxLines from hlines), if_pos (by simpa using hlast)]
        rfl
      unfold truncateTail
      dsimp only
      rw [if_neg hnot', hkept]
      intro hreason
      show maxLines < 1 + 1
      dsimp only [List.length_singleton] at hreason
      split at hreason
      · next h =>
        have hle := h.1
        omega
      · cases hreason

theorem truncateTail_exact (hlines : 1 ≤ maxLines)
    (hover : ¬ OverByNewline content maxLines maxBytes) :
    TailExact content maxLines maxBytes := by
  by_cases hfits : Fits maxLines maxBytes content
  · exact truncateTail_whole hfits
  · rcases Nat.lt_or_ge maxBytes (byteLength ((splitLinesForCounting content).getLastD [])) with hlt | hle
    · exact truncateTail_longEnd hlines hfits hlt
    · exact truncateTail_run hfits hover hle

theorem OverByNewline.not_exact (h : OverByNewline content maxLines maxBytes) :
    ¬ HeadExact content maxLines maxBytes := by
  obtain ⟨hfew, hend, hsize⟩ := h
  have hjoined := byteLength_content content
  rw [if_pos hend] at hjoined
  have hnot : ¬ ((splitLinesForCounting content).length ≤ maxLines ∧ byteLength content ≤ maxBytes) :=
    fun h => absurd h.2 (by omega)
  have hall : WithinLimits maxLines maxBytes (splitLinesForCounting content) :=
    ⟨Nat.le_of_lt hfew, by omega⟩
  have hfirst : ¬ byteLength ((splitLinesForCounting content).headD []) > maxBytes := by
    have hle := hall.2
    cases hlines : splitLinesForCounting content with
    | nil => exact Nat.not_lt_zero _
    | cons line rest =>
      rw [hlines, byteLength_joinLines_cons] at hle
      simp only [List.headD_cons]
      omega
  obtain ⟨hbytes, hwithin, hstopped⟩ :=
    @collectHead_spec maxLines maxBytes (splitLinesForCounting content)
    {} rfl rfl ⟨Nat.zero_le _, Nat.zero_le _⟩
  rw [List.nil_append] at hstopped
  have hrun := LongestRun.unique (hstopped.longest hwithin) (LongestRun.of_all hall)
  intro hexact
  have hreason := hexact.reason
  unfold truncateHead ReasonHolds at hreason
  dsimp only at hreason
  rw [if_neg hnot, if_neg hfirst] at hreason
  dsimp only at hreason
  rw [hrun, if_neg (by omega)] at hreason
  have hby : (collectHead maxLines maxBytes (splitLinesForCounting content) {}).truncatedBy =
      .lines := by
    cases hcase : (collectHead maxLines maxBytes (splitLinesForCounting content) {}).truncatedBy with
    | lines => rfl
    | bytes =>
      rw [hcase, hrun] at hstopped
      cases hstopped with
      | bytes h hlong =>
        have hlen := congrArg List.length h
        simp at hlen
  have hlt := hreason (congrArg some hby)
  omega

/-- Truncation keeps the most it may and gives the right reason, except where all lines fit and the
newline behind them does not. -/
theorem truncation_exact_iff (content : List Char) (maxLines maxBytes : Nat)
    (hlines : 1 ≤ maxLines) :
    TruncationExact content maxLines maxBytes ↔ ¬ OverByNewline content maxLines maxBytes := by
  constructor
  · exact fun hexact hover => hover.not_exact hexact.1
  · exact fun hover => ⟨truncateHead_exact hover, truncateTail_exact hlines hover⟩

theorem truncation_exact_example : TruncationExact "abc\nde".toList 1 10 := by
  apply (truncation_exact_iff "abc\nde".toList 1 10 (Nat.le_refl 1)).mpr
  intro h
  exact absurd h.2.2 (by decide)

/-- One line and its newline, of which the newline is too much: the lines are said to be too many. -/
theorem newline_reported_as_lines :
    (truncateHead "abc\n".toList 10 3).truncatedBy = some .lines ∧
      ¬ TruncationExact "abc\n".toList 10 3 := by
  refine ⟨by decide, ?_⟩
  intro h
  have hlt := h.1.reason (by decide)
  exact absurd hlt (by decide)

end Exact

end PieLab

import PieLab.Tools.ReadLines

/-
  Blank lines in an edited text

  An edited text is its lines joined by newlines, with a newline behind them when
  the text before the edit had one. Whether the newline is put there is decided on
  the joined text: one empty line joins to the empty text, as no line does. And
  where no newline is put, an empty last line ends the text with one.

  What is proved:
    1. `joinEditableLines_survives` — exactly which lists of lines come back when
       the joined text is split again, with the final newline as it was.
    2. `blank_lines_survive` — the same for every section that is accepted.
    3. `only_blank_line_lost` — the one line of a file replaced by an empty line.

  Correspondence (TypeScript ↔ Lean): joinEditableLines and
  applyHashlineSectionToText of packages/hashline/src/patch.ts.
-/

namespace PieLab

open Lib

def endsWithNewline (text : String) : Prop := text.toList.getLast? = some '\n'

instance (text : String) : Decidable (endsWithNewline text) :=
  inferInstanceAs (Decidable (text.toList.getLast? = some '\n'))

/-- The text can be split into the lines again, and ends with a newline as it should. -/
structure LinesSurvive (lines : List String) (trailingNewline : Bool) (text : String) : Prop where
  lines : lines ≠ [] → splitLines (withoutFinalNewline text) = lines
  newline : endsWithNewline text ↔ trailingNewline = true

/-- The lines hold no line break, and they are not taken for others when they are joined. -/
structure Separable (lines : List String) (trailingNewline : Bool) : Prop where
  noNewline : ∀ line ∈ lines, '\n' ∉ line.toList
  ended : trailingNewline = true → lines ≠ [] ∧ lines ≠ [""]
  unended : trailingNewline = false → lines = [""] ∨ lines.getLast? ≠ some ""

/-! ## Joined lines -/

theorem join_ne_empty {lines : List String} (hne : lines ≠ []) (hblank : lines ≠ [""]) :
    join "\n" lines ≠ "" := by
  intro h
  have hchars := congrArg String.toList h
  unfold join at hchars
  rw [String.toList_intercalate] at hchars
  cases lines with
  | nil => exact hne rfl
  | cons line rest =>
    cases rest with
    | nil =>
      apply hblank
      have hline : line.toList = [] := by simpa [List.intercalate] using hchars
      rw [← String.toList_inj.mp (hline.trans String.toList_empty.symm)]
    | cons next rest =>
      rw [List.map_cons, List.map_cons, List.intercalate_cons_cons] at hchars
      simp at hchars

theorem lastLine_join {lines : List String} (hne : lines ≠ [])
    (h : ∀ line ∈ lines, '\n' ∉ line.toList) :
    lastLine (join "\n" lines).toList = (lines.getLast hne).toList := by
  have hsplit := splitLines_join hne h
  have hmap : (join "\n" lines).toList.splitOn '\n' = lines.map String.toList := by
    have hback := congrArg (List.map String.toList) hsplit
    rw [splitLines, List.map_map] at hback
    rw [← hback]
    simp [Function.comp_def]
  unfold lastLine
  rw [hmap, List.getLast?_map, List.getLast?_eq_some_getLast hne]
  rfl

theorem endsWithNewline_join {lines : List String} (hne : lines ≠ [])
    (h : ∀ line ∈ lines, '\n' ∉ line.toList) :
    endsWithNewline (join "\n" lines) ↔ lines ≠ [""] ∧ lines.getLast? = some "" := by
  have hlast : lines.getLast? = some "" ↔ lastLine (join "\n" lines).toList = [] := by
    rw [lastLine_join hne h, List.getLast?_eq_some_getLast hne, Option.some.injEq,
      ← String.toList_inj]
    rfl
  rw [hlast, lastLine_eq_nil]
  constructor
  · intro hends
    refine ⟨?_, .inr hends⟩
    rintro rfl
    exact absurd hends (by decide)
  · rintro ⟨hblank, hempty | hends⟩
    · exact absurd (String.toList_inj.mp (hempty.trans String.toList_empty.symm))
        (join_ne_empty hne hblank)
    · exact hends

theorem withoutFinalNewline_append (text : String) : withoutFinalNewline (text ++ "\n") = text := by
  unfold withoutFinalNewline
  have hchars : (text ++ "\n").toList = text.toList ++ ['\n'] := by
    rw [String.toList_append]
    rfl
  rw [hchars, List.getLast?_concat, if_pos rfl, List.dropLast_concat, String.ofList_toList]

theorem withoutFinalNewline_self {text : String} (h : ¬ endsWithNewline text) :
    withoutFinalNewline text = text := if_neg h

theorem joinEditableLines_false (lines : List String) :
    joinEditableLines lines false = join "\n" lines := by
  unfold joinEditableLines
  simp

theorem joinEditableLines_true {lines : List String} (h : join "\n" lines ≠ "") :
    joinEditableLines lines true = join "\n" lines ++ "\n" := if_pos ⟨rfl, h⟩

/-- Exactly which lists of lines come back. -/
theorem joinEditableLines_survives (lines : List String) (trailingNewline : Bool) :
    LinesSurvive lines trailingNewline (joinEditableLines lines trailingNewline) ↔
      Separable lines trailingNewline := by
  constructor
  · intro h
    have hfree : ∀ line ∈ lines, '\n' ∉ line.toList := by
      intro line hline
      rw [← h.lines (List.ne_nil_of_mem hline)] at hline
      exact noNewline_of_mem_splitLines hline
    refine { noNewline := hfree, ended := ?_, unended := ?_ }
    · intro htrue
      have hends := h.newline.mpr htrue
      rw [htrue] at hends
      constructor
      · intro hlines
        rw [hlines] at hends
        exact absurd hends (by decide)
      · intro hlines
        rw [hlines] at hends
        exact absurd hends (by decide)
    · intro hfalse
      have hends : ¬ endsWithNewline (join "\n" lines) := by
        intro hends
        have htrue := h.newline.mp (by rw [hfalse, joinEditableLines_false]; exact hends)
        rw [hfalse] at htrue
        cases htrue
      by_cases hne : lines = []
      · right
        rw [hne]
        exact nofun
      · rw [endsWithNewline_join hne hfree] at hends
        by_cases hblank : lines = [""]
        · exact .inl hblank
        · exact .inr fun hlast => hends ⟨hblank, hlast⟩
  · intro h
    cases trailingNewline with
    | true =>
      obtain ⟨hne, hblank⟩ := h.ended rfl
      rw [joinEditableLines_true (join_ne_empty hne hblank)]
      refine { lines := ?_, newline := ?_ }
      · intro _
        rw [withoutFinalNewline_append, splitLines_join hne h.noNewline]
      · refine ⟨fun _ => rfl, fun _ => ?_⟩
        show (join "\n" lines ++ "\n").toList.getLast? = some '\n'
        rw [String.toList_append]
        exact List.getLast?_concat
    | false =>
      rw [joinEditableLines_false]
      have hends : ¬ endsWithNewline (join "\n" lines) := by
        by_cases hne : lines = []
        · rw [hne]
          decide
        · rw [endsWithNewline_join hne h.noNewline]
          intro hlast
          rcases h.unended rfl with hblank | hlast'
          · exact hlast.1 hblank
          · exact hlast' hlast.2
      refine { lines := ?_, newline := ?_ }
      · intro hne
        rw [withoutFinalNewline_self hends, splitLines_join hne h.noNewline]
      · exact ⟨fun h => absurd h hends, fun h => absurd h Bool.false_ne_true⟩

/-! ## Edited texts -/

/-- The lines a section leaves come back from the returned text, and the text ends with a newline
as before, exactly when no line holds a newline, and the lines are not one empty line or none
where a newline is put behind them, nor end with an empty line where none is. -/
theorem blank_lines_survive {text : String} {patch : HashlinePatchSection} {lines : List String}
    {out : String} (hlines : sectionLines text patch = .ok lines)
    (hout : applyHashlineSectionToText text patch = .ok out) :
    LinesSurvive lines (splitEditableLines text).trailingNewline out ↔
      Separable lines (splitEditableLines text).trailingNewline := by
  have hjoin : applyHashlineSectionToText text patch =
      .ok (joinEditableLines lines (splitEditableLines text).trailingNewline) := by
    unfold applyHashlineSectionToText
    rw [hlines]
    rfl
  rw [hjoin] at hout
  rw [← Except.ok.inj hout]
  exact joinEditableLines_survives lines _

/-- The section that replaces the first line. -/
def replaceFirstLine (lines : List String) : HashlinePatchSection :=
  replaceLine "f" "87E7" ⟨1, LineNumber.first⟩ lines

/-- An empty line in place of the first of two. -/
theorem blank_lines_survive_example :
    LinesSurvive ["", "b"] true "\nb\n" := by
  have hin : (⟨1, Nat.le_refl 1⟩ : LineNumber).line ≤
      (splitEditableLines "a\nb\n").lines.length := by
    decide
  have hlines := sectionLines_replace "a\nb\n" "f" "87E7" hin [""]
  have hout := applyHashlineSectionToText_replace "a\nb\n" "f" "87E7" hin [""]
  have hleft : (splitEditableLines "a\nb\n").lines.take 0 ++ [""] ++
      (splitEditableLines "a\nb\n").lines.drop 1 = ["", "b"] := by decide
  have htext : joinEditableLines ((splitEditableLines "a\nb\n").lines.take 0 ++ [""] ++
      (splitEditableLines "a\nb\n").lines.drop 1) (splitEditableLines "a\nb\n").trailingNewline =
      "\nb\n" := by decide
  have hsurvive := (blank_lines_survive hlines hout).mpr
    { noNewline := by
        show ∀ line ∈ (splitEditableLines "a\nb\n").lines.take 0 ++ [""] ++
          (splitEditableLines "a\nb\n").lines.drop 1, '\n' ∉ line.toList
        rw [hleft]
        decide
      ended := by
        intro _
        show (splitEditableLines "a\nb\n").lines.take 0 ++ [""] ++
          (splitEditableLines "a\nb\n").lines.drop 1 ≠ [] ∧ _ ≠ [""]
        rw [hleft]
        decide
      unended := by
        intro hfalse
        exact absurd hfalse (by decide) }
  change LinesSurvive ((splitEditableLines "a\nb\n").lines.take 0 ++ [""] ++
    (splitEditableLines "a\nb\n").lines.drop 1) (splitEditableLines "a\nb\n").trailingNewline
    (joinEditableLines ((splitEditableLines "a\nb\n").lines.take 0 ++ [""] ++
      (splitEditableLines "a\nb\n").lines.drop 1) _) at hsurvive
  rw [htext, hleft] at hsurvive
  exact hsurvive

/-- The one line of a file replaced by an empty line: the file becomes empty, and has no
newline at its end any more. -/
theorem only_blank_line_lost :
    sectionLines "a\n" (replaceFirstLine [""]) = .ok [""] ∧
      applyHashlineSectionToText "a\n" (replaceFirstLine [""]) = .ok "" ∧
      ¬ LinesSurvive [""] (splitEditableLines "a\n").trailingNewline "" := by
  have hin : (⟨1, Nat.le_refl 1⟩ : LineNumber).line ≤ (splitEditableLines "a\n").lines.length := by
    decide
  refine ⟨?_, ?_, ?_⟩
  · unfold replaceFirstLine
    rw [sectionLines_replace "a\n" "f" "87E7" hin [""]]
    decide
  · unfold replaceFirstLine
    rw [applyHashlineSectionToText_replace "a\n" "f" "87E7" hin [""]]
    decide
  · intro h
    have hends := h.newline.mpr (by decide)
    exact absurd hends (by decide)

end PieLab

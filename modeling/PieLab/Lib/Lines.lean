import Mathlib.Data.List.Basic

/-
  The lines of a text — a library

  A text is its lines, each ended by a newline, and what stands behind the last
  newline.

  What is proved:
    1. `splitOn_append`, `linesBefore_append`, `lastLine_append` — more text goes on
       with the last line.
    2. `text_eq_lines` — a text is its lines and the last one.
-/

namespace PieLab.Lib

/-- The text behind the last newline. -/
def lastLine (content : List Char) : List Char := (content.splitOn '\n').getLast?.getD []

/-- The lines in front of the last newline. -/
def linesBefore (content : List Char) : List (List Char) := (content.splitOn '\n').dropLast

theorem splitOn_lastLine (content : List Char) :
    content.splitOn '\n' = linesBefore content ++ [lastLine content] := by
  have hne : content.splitOn '\n' ≠ [] := List.splitOn_ne_nil _ _
  unfold linesBefore lastLine
  rw [List.getLast?_eq_getLast_of_ne_nil hne, Option.getD_some, List.dropLast_append_getLast]

theorem exists_lastLine (l : List Char) :
    '\n' ∉ l ∨ ∃ p q, l = p ++ '\n' :: q ∧ '\n' ∉ q := by
  induction l with
  | nil => exact .inl List.not_mem_nil
  | cons c l ih =>
    rcases ih with hl | ⟨p, q, rfl, hq⟩
    · by_cases hc : c = '\n'
      · exact .inr ⟨[], l, by rw [hc]; rfl, hl⟩
      · refine .inl fun hmem => ?_
        rcases List.mem_cons.mp hmem with h | h
        · exact hc h.symm
        · exact hl h
    · exact .inr ⟨c :: p, q, rfl, hq⟩

theorem splitOn_single {l : List Char} (h : '\n' ∉ l) : l.splitOn '\n' = [l] := by
  apply List.splitOn_eq_singleton
  exact h

/-- More text goes on with the last line. -/
theorem splitOn_append (l r : List Char) :
    (l ++ r).splitOn '\n' = linesBefore l ++ (lastLine l ++ r).splitOn '\n' := by
  unfold linesBefore lastLine
  rcases exists_lastLine l with hl | ⟨p, q, rfl, hq⟩
  · rw [splitOn_single hl]
    rfl
  · rw [List.append_assoc, List.cons_append, List.splitOn_append_cons_self,
      List.splitOn_append_cons_self, splitOn_single hq]
    simp

theorem linesBefore_append (l r : List Char) :
    linesBefore (l ++ r) = linesBefore l ++ linesBefore (lastLine l ++ r) := by
  rw [linesBefore, splitOn_append, List.dropLast_append_of_ne_nil (List.splitOn_ne_nil _ _)]
  rfl

theorem lastLine_append (l r : List Char) : lastLine (l ++ r) = lastLine (lastLine l ++ r) := by
  rw [lastLine, splitOn_append, List.getLast?_append_of_ne_nil _ (List.splitOn_ne_nil _ _)]
  rfl

theorem lastLine_noNewline (content : List Char) : '\n' ∉ lastLine content := by
  unfold lastLine
  rcases exists_lastLine content with h | ⟨p, q, rfl, hq⟩
  · rw [splitOn_single h]
    exact h
  · rw [List.splitOn_append_cons_self, splitOn_single hq]
    simpa using hq

theorem linesBefore_single {text : List Char} (h : '\n' ∉ text) : linesBefore text = [] := by
  rw [linesBefore, splitOn_single h]
  rfl

theorem lastLine_single {text : List Char} (h : '\n' ∉ text) : lastLine text = text := by
  rw [lastLine, splitOn_single h]
  rfl

theorem linesBefore_newline (l : List Char) {r : List Char} (h : '\n' ∉ r) :
    linesBefore (l ++ '\n' :: r) = linesBefore l ++ [lastLine l] := by
  rw [linesBefore, List.splitOn_append_cons_self, splitOn_single h, List.dropLast_concat,
    splitOn_lastLine]

theorem lastLine_newline (l : List Char) {r : List Char} (h : '\n' ∉ r) :
    lastLine (l ++ '\n' :: r) = r := by
  rw [lastLine, List.splitOn_append_cons_self, splitOn_single h]
  simp

theorem lines_induction {P : List Char → Prop} (hsingle : ∀ text, '\n' ∉ text → P text)
    (hnewline : ∀ l r, '\n' ∉ r → P l → P (l ++ '\n' :: r)) (text : List Char) : P text := by
  induction hn : text.length using Nat.strongRecOn generalizing text with
  | _ n ih =>
    rcases exists_lastLine text with h | ⟨l, r, rfl, hr⟩
    · exact hsingle text h
    · apply hnewline l r hr
      apply ih l.length _ l rfl
      rw [← hn, List.length_append, List.length_cons]
      omega

theorem noNewline_of_mem_splitOn {text line : List Char} (h : line ∈ text.splitOn '\n') :
    '\n' ∉ line := by
  induction text using lines_induction with
  | hsingle text hsingle =>
    rw [splitOn_single hsingle, List.mem_singleton] at h
    rw [h]
    exact hsingle
  | hnewline l r hr ih =>
    rw [List.splitOn_append_cons_self, splitOn_single hr, List.mem_append,
      List.mem_singleton] at h
    rcases h with h | h
    · exact ih h
    · rw [h]
      exact hr

theorem text_eq_lines (text : List Char) :
    text = (linesBefore text).flatMap (fun line => line ++ ['\n']) ++ lastLine text := by
  induction text using lines_induction with
  | hsingle text h =>
    rw [linesBefore_single h, lastLine_single h]
    rfl
  | hnewline l r hr ih =>
    rw [linesBefore_newline l hr, lastLine_newline l hr, List.flatMap_append]
    nth_rewrite 1 [ih]
    simp

theorem length_linesBefore (text : List Char) : (linesBefore text).length = text.count '\n' := by
  induction text using lines_induction with
  | hsingle text h =>
    rw [linesBefore_single h, List.count_eq_zero_of_not_mem h]
    rfl
  | hnewline l r hr ih =>
    rw [linesBefore_newline l hr, List.length_append, ih, List.count_append, List.count_cons_self,
      List.count_eq_zero_of_not_mem hr]
    rfl

theorem lastLine_append_single {piece : List Char} (h : '\n' ∉ piece) (text : List Char) :
    lastLine (text ++ piece) = lastLine text ++ piece := by
  have hnot : '\n' ∉ lastLine text ++ piece := by
    rw [List.mem_append, not_or]
    exact ⟨lastLine_noNewline text, h⟩
  rw [lastLine_append, lastLine_single hnot]

theorem lastLine_append_newline {piece : List Char} (h : '\n' ∈ piece) (text : List Char) :
    lastLine (text ++ piece) = lastLine piece := by
  rcases exists_lastLine piece with hnot | ⟨l, r, rfl, hr⟩
  · exact absurd h hnot
  · rw [← List.append_assoc, lastLine_newline _ hr, lastLine_newline _ hr]

theorem lastLine_eq_nil (text : List Char) :
    lastLine text = [] ↔ text = [] ∨ text.getLast? = some '\n' := by
  rcases exists_lastLine text with h | ⟨p, q, rfl, hq⟩
  · rw [lastLine_single h]
    constructor
    · exact Or.inl
    · rintro (h' | h')
      · exact h'
      · exact absurd (List.mem_of_getLast? h') h
  · rw [lastLine_newline p hq]
    constructor
    · rintro rfl
      simp
    · rintro (h | h)
      · simp at h
      · cases q with
        | nil => rfl
        | cons c cs =>
          rw [List.getLast?_append_of_ne_nil _ (by simp), List.getLast?_cons_cons] at h
          exact absurd (List.mem_of_getLast? h) hq

theorem exists_before_lastLine (text : List Char) :
    ∃ front, text = front ++ lastLine text ∧ lastLine front = [] := by
  rcases exists_lastLine text with h | ⟨l, r, rfl, hr⟩
  · exact ⟨[], by rw [lastLine_single h, List.nil_append], rfl⟩
  · refine ⟨l ++ ['\n'], ?_, lastLine_newline l (by simp)⟩
    rw [lastLine_newline l hr]
    simp

theorem getLast?_lastLine {text : List Char} (h : lastLine text ≠ []) :
    text.getLast? = (lastLine text).getLast? := by
  obtain ⟨front, htext, -⟩ := exists_before_lastLine text
  nth_rewrite 1 [htext]
  exact List.getLast?_append_of_ne_nil _ h

end PieLab.Lib

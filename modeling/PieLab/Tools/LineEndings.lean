import PieLab.Tools.KeptLines

/-
  The line ends of an edited file

  A file is edited with `\n` for all its line ends. One line end is taken down
  beforehand, that of the first line that ends with `\n` or `\r\n`, and is written
  for all of them afterwards.

  What is proved:
    1. `endedLines_normalizeToLF` — normalization works on the line ends one by one.
    2. `kept_line_endings` — a line that no edit reaches is written with its own text
       and the line end of the file: as it was exactly where that is its own.
    3. `line_ending_changed` — CRLF and LF in one file.

  Correspondence (TypeScript ↔ Lean): `detectLineEnding`, `normalizeToLF`,
  `restoreLineEndings`, `stripBom` of
  packages/coding-agent/src/core/tools/edit-diff.ts, as in PieLab.Tools.EditDiff.
-/

namespace PieLab

open Lib

/-- A line of a file and what ends it: `\r\n`, `\n`, `\r`, or nothing behind the last. -/
structure RawLine where
  text : List Char
  ending : List Char
  deriving DecidableEq, Repr

def RawLine.bytes (line : RawLine) : List Char := line.text ++ line.ending

/-- The line with `ending` in the place of its line end. -/
def RawLine.endedBy (line : RawLine) (ending : List Char) : List Char :=
  line.text ++ if line.ending = [] then [] else ending

def LineEnding.chars : LineEnding → List Char
  | .crlf => ['\r', '\n']
  | .lf => ['\n']

/-- The lines of a file, the last one without a line end. -/
def rawLines : List Char → List RawLine
  | [] => [⟨[], []⟩]
  | [c] => if c = '\r' ∨ c = '\n' then [⟨[], [c]⟩, ⟨[], []⟩] else [⟨[c], []⟩]
  | c :: d :: rest =>
    if c = '\r' ∧ d = '\n' then ⟨[], [c, d]⟩ :: rawLines rest
    else if c = '\r' ∨ c = '\n' then ⟨[], [c]⟩ :: rawLines (d :: rest)
    else (rawLines (d :: rest)).modifyHead fun line => { line with text := c :: line.text }

/-! ## The lines of a file -/

theorem rawLines_ne_nil (content : List Char) : rawLines content ≠ [] := by
  fun_induction rawLines content with
  | case1 => exact List.cons_ne_nil _ _
  | case2 c hend => exact List.cons_ne_nil _ _
  | case3 c hend => exact List.cons_ne_nil _ _
  | case4 c d rest hcrlf ih => exact List.cons_ne_nil _ _
  | case5 c d rest hcrlf hend ih => exact List.cons_ne_nil _ _
  | case6 c d rest hcrlf hend ih =>
    cases hlines : rawLines (d :: rest) with
    | nil => exact absurd hlines ih
    | cons line lines => exact List.cons_ne_nil _ _

theorem flatten_rawLines (content : List Char) :
    (rawLines content).flatMap RawLine.bytes = content := by
  fun_induction rawLines content with
  | case1 => rfl
  | case2 c hend => rfl
  | case3 c hend => rfl
  | case4 c d rest hcrlf ih =>
    rw [List.flatMap_cons, ih]
    rfl
  | case5 c d rest hcrlf hend ih =>
    rw [List.flatMap_cons, ih]
    rfl
  | case6 c d rest hcrlf hend ih =>
    cases hlines : rawLines (d :: rest) with
    | nil => exact absurd hlines (rawLines_ne_nil _)
    | cons line lines =>
      rw [hlines] at ih
      rw [List.modifyHead_cons, List.flatMap_cons, ← ih]
      rfl

/-- What a line of a file is. -/
structure RawLine.Plain (line : RawLine) : Prop where
  text : '\n' ∉ line.text
  ending : line.ending = [] ∨ line.ending = ['\r', '\n'] ∨ line.ending = ['\n'] ∨ line.ending = ['\r']

theorem rawLines_plain (content : List Char) : ∀ line ∈ rawLines content, line.Plain := by
  have hempty : ∀ ending : List Char, (ending = [] ∨ ending = ['\r', '\n'] ∨ ending = ['\n'] ∨ ending = ['\r']) →
      RawLine.Plain ⟨[], ending⟩ := fun ending hending => ⟨List.not_mem_nil, hending⟩
  fun_induction rawLines content with
  | case1 =>
    intro line hline
    rw [List.mem_singleton.mp hline]
    exact hempty [] (.inl rfl)
  | case2 c hend =>
    refine List.forall_mem_cons.mpr ⟨hempty [c] ?_,
      List.forall_mem_singleton.mpr (hempty [] (.inl rfl))⟩
    rcases hend with rfl | rfl <;> simp
  | case3 c hend =>
    refine List.forall_mem_singleton.mpr ⟨?_, .inl rfl⟩
    simp only [List.mem_singleton]
    exact fun hc => hend (.inr hc.symm)
  | case4 c d rest hcrlf ih =>
    obtain ⟨rfl, rfl⟩ := hcrlf
    exact List.forall_mem_cons.mpr ⟨hempty _ (by simp), ih⟩
  | case5 c d rest hcrlf hend ih =>
    refine List.forall_mem_cons.mpr ⟨hempty [c] ?_, ih⟩
    rcases hend with rfl | rfl <;> simp
  | case6 c d rest hcrlf hend ih =>
    cases hlines : rawLines (d :: rest) with
    | nil => exact absurd hlines (rawLines_ne_nil _)
    | cons line lines =>
      rw [hlines] at ih
      obtain ⟨hline, hrest⟩ := List.forall_mem_cons.mp ih
      refine List.forall_mem_cons.mpr ⟨⟨?_, hline.ending⟩, hrest⟩
      rw [List.mem_cons, not_or]
      exact ⟨fun hc => hend (.inr hc.symm), hline.text⟩

theorem normalizeToLF_crlf (rest : List Char) :
    normalizeToLF ('\r' :: '\n' :: rest) = '\n' :: normalizeToLF rest := rfl

theorem normalizeToLF_single (c : Char) :
    normalizeToLF [c] = [if c = '\r' then '\n' else c] := rfl

theorem normalizeToLF_cons {c d : Char} (rest : List Char) (h : ¬ (c = '\r' ∧ d = '\n')) :
    normalizeToLF (c :: d :: rest) = (if c = '\r' then '\n' else c) :: normalizeToLF (d :: rest) := by
  unfold normalizeToLF
  rw [replaceCrLf, if_neg h]
  rfl

/-- Normalization works on the line ends one by one. -/
theorem endedLines_normalizeToLF (content : List Char) :
    endedLines (normalizeToLF content) = (rawLines content).map fun line => line.endedBy ['\n'] := by
  fun_induction rawLines content with
  | case1 => rfl
  | case2 c hend =>
    rcases hend with rfl | rfl <;> rfl
  | case3 c hend =>
    rw [not_or] at hend
    rw [normalizeToLF_single, if_neg hend.1, endedLines_cons hend.2]
    rfl
  | case4 c d rest hcrlf ih =>
    obtain ⟨rfl, rfl⟩ := hcrlf
    rw [normalizeToLF_crlf, endedLines_newline, ih]
    rfl
  | case5 c d rest hcrlf hend ih =>
    have hc : (if c = '\r' then '\n' else c) = '\n' := by
      rcases hend with rfl | rfl <;> rfl
    rw [normalizeToLF_cons rest hcrlf, hc, endedLines_newline, ih]
    rfl
  | case6 c d rest hcrlf hend ih =>
    rw [not_or] at hend
    rw [normalizeToLF_cons rest hcrlf, if_neg hend.1, endedLines_cons hend.2, ih]
    cases rawLines (d :: rest) with
    | nil => rfl
    | cons line lines => rfl

/-! ## The line ends of the result -/

theorem restoreLineEndings_append (front rest : List Char) (ending : LineEnding) :
    restoreLineEndings (front ++ rest) ending =
      restoreLineEndings front ending ++ restoreLineEndings rest ending := by
  cases ending with
  | lf => rfl
  | crlf => exact List.flatMap_append

theorem restoreLineEndings_flatten (pieces : List (List Char)) (ending : LineEnding) :
    restoreLineEndings pieces.flatten ending =
      (pieces.map fun piece => restoreLineEndings piece ending).flatten := by
  induction pieces with
  | nil => cases ending <;> rfl
  | cons piece pieces ih =>
    rw [List.flatten_cons, restoreLineEndings_append, ih]
    rfl

theorem restoreLineEndings_line {line : RawLine} (h : '\n' ∉ line.text) (ending : LineEnding) :
    restoreLineEndings (line.endedBy ['\n']) ending = line.endedBy ending.chars := by
  cases ending with
  | lf => rfl
  | crlf =>
    have htext : (line.text.flatMap fun c => if c = '\n' then ['\r', '\n'] else [c]) =
        line.text := by
      rw [List.flatMap_congr (g := fun c => [c]), List.flatMap_singleton']
      intro c hc
      exact if_neg fun heq : c = '\n' => h (heq ▸ hc)
    unfold restoreLineEndings RawLine.endedBy
    rw [List.flatMap_append, htext]
    by_cases hlast : line.ending = []
    · rw [if_pos hlast, if_pos hlast]
      rfl
    · rw [if_neg hlast, if_neg hlast]
      rfl

theorem RawLine.endedBy_eq_bytes (line : RawLine) (ending : List Char) :
    line.endedBy ending = line.bytes ↔ line.ending = [] ∨ line.ending = ending := by
  unfold RawLine.endedBy RawLine.bytes
  rw [List.append_cancel_left_eq]
  by_cases hlast : line.ending = []
  · rw [if_pos hlast, hlast]
    simp
  · rw [if_neg hlast, or_iff_right hlast, eq_comm]

/-- The file is written line for line; `kept` gives the line for one that no edit reaches. -/
def WrittenBack (kept : RawLine → List Char) (env : EditEnv) (path : String) (edits : List Edit)
    (rawContent final : List Char) : Prop :=
  ∃ written : List (List Char), final = (stripBom rawContent).1 ++ written.flatten ∧
    written.length = (rawLines (stripBom rawContent).2).length ∧
    ∀ i line, (rawLines (stripBom rawContent).2)[i]? = some line →
      reachedLine env path edits (normalizeToLF (stripBom rawContent).2) i = false →
        written[i]? = some (kept line)

/-- The line end of a file. -/
def fileEnding (rawContent : List Char) : List Char :=
  (detectLineEnding (stripBom rawContent).2).chars

theorem finalContent_replacement {env : EditEnv} {path : String} {edits : List Edit}
    {snapshot : Option String} {rawContent final : List Char}
    (h : (EditCall.replacement path edits).finalContent env snapshot rawContent = .ok final) :
    ∃ new, replacedText env path edits (normalizeToLF (stripBom rawContent).2) = .ok new ∧
      final = (stripBom rawContent).1 ++
        restoreLineEndings new (detectLineEnding (stripBom rawContent).2) := by
  obtain ⟨new, hnew, h⟩ := Except.bind_ok h
  exact ⟨new, hnew, (Except.ok.inj h).symm⟩

/-- A line that no edit reaches is written with its own text and the line end of the file: as it
was exactly where that is its own line end, or it has none. -/
theorem kept_line_endings (env : EditEnv) (path : String) (edits : List Edit)
    (snapshot : Option String) (rawContent final : List Char)
    (h : (EditCall.replacement path edits).finalContent env snapshot rawContent = .ok final) :
    WrittenBack (fun line => line.endedBy (fileEnding rawContent)) env path edits rawContent final ∧
      ∀ line ∈ rawLines (stripBom rawContent).2,
        (line.endedBy (fileEnding rawContent) = line.bytes ↔
          line.ending = [] ∨ line.ending = fileEnding rawContent) := by
  obtain ⟨new, hnew, hfinal⟩ := finalContent_replacement h
  obtain ⟨written, hkept, hwritten⟩ := replacedText_keeps hnew
  rw [endedLines_normalizeToLF] at hkept
  constructor
  · refine ⟨written.map fun piece => restoreLineEndings piece (detectLineEnding (stripBom rawContent).2),
      ?_, ?_, ?_⟩
    · rw [hfinal, hwritten, restoreLineEndings_flatten]
    · rw [List.length_map, hkept.length, List.length_map]
    · intro i line hline hfree
      have hplain := rawLines_plain _ line (List.mem_of_getElem? hline)
      have hpiece : written[i]? = some (line.endedBy ['\n']) := by
        apply hkept.kept i _ _ hfree
        rw [List.getElem?_map, hline]
        rfl
      rw [List.getElem?_map, hpiece, Option.map_some, restoreLineEndings_line hplain.text]
      rfl
  · intro line _
    exact line.endedBy_eq_bytes (fileEnding rawContent)

namespace MixedEndingsExample

open EndLinesExample

def env : EditEnv := { sha256Hex := id, nfkc := id }

/-- A line that ends with CRLF, one that ends with LF, and one more. -/
def mixed : List Char := "a\r\nb\nc".toList

theorem mixed_replaced :
    replacedText env "main.rb" [endEdit "c" "d"] "a\nb\nc".toList = .ok "a\nb\nd".toList :=
  matched (r := ⟨0, 4, 1, ['d']⟩) (by decide) (by decide +kernel) (by decide) (by decide +kernel)
    (by decide +kernel)

theorem mixed_written :
    (EditCall.replacement "main.rb" [endEdit "c" "d"]).finalContent env none mixed =
    .ok "a\r\nb\r\nd".toList := by
  show replacedText env "main.rb" [endEdit "c" "d"] "a\nb\nc".toList >>= _ = _
  rw [mixed_replaced]
  rfl

theorem mixed_reached (i : Nat) : reachedLine env "main.rb" [endEdit "c" "d"] "a\nb\nc".toList i =
    isReached "a\nb\nc".toList [⟨0, 4, 1, ['d']⟩] i := by
  have hlines : hashlineLines env.sha256Hex "a\nb\nc".toList [endEdit "c" "d"] = none := rfl
  have hbase : matchBase env.nfkc "a\nb\nc".toList [endEdit "c" "d"] = "a\nb\nc".toList :=
    if_pos (by decide)
  have hmatched : matchedEdits env.nfkc "a\nb\nc".toList "main.rb" (lfEdits [endEdit "c" "d"]) =
      .ok [⟨0, 4, 1, ['d']⟩] := by
    have hmatch : matchEdit env.nfkc "a\nb\nc".toList "main.rb" 1 0 ['c'] ['d'] =
        .ok ⟨0, 4, 1, ['d']⟩ := by
      decide +kernel
    have hedits : lfEdits [endEdit "c" "d"] = [(['c'], ['d'])] := by decide
    rw [hedits, matchedEdits_singleton, hmatch]
    rfl
  unfold reachedLine
  rw [hlines, hbase, hmatched]

end MixedEndingsExample

open EndLinesExample MixedEndingsExample in
theorem kept_line_endings_example :
    WrittenBack (fun line => line.endedBy ['\r', '\n']) env "main.rb" [endEdit "c" "d"] mixed
      "a\r\nb\r\nd".toList :=
  (kept_line_endings env "main.rb" [endEdit "c" "d"] none mixed _ mixed_written).1

open EndLinesExample MixedEndingsExample in
/-- A line that ends with LF, behind one that ends with CRLF. -/
theorem line_ending_changed :
    (EditCall.replacement "main.rb" [endEdit "c" "d"]).finalContent env none mixed =
        .ok "a\r\nb\r\nd".toList ∧
      ¬ WrittenBack RawLine.bytes env "main.rb" [endEdit "c" "d"] mixed "a\r\nb\r\nd".toList := by
  refine ⟨mixed_written, ?_⟩
  rintro ⟨pieces, hfinal, -, hkept⟩
  have hlf : normalizeToLF (stripBom mixed).2 = "a\nb\nc".toList := by decide
  have hfirst : pieces[0]? = some ['a', '\r', '\n'] := by
    apply hkept 0 ⟨['a'], ['\r', '\n']⟩ (by decide)
    rw [hlf, mixed_reached]
    decide
  have hsecond : pieces[1]? = some ['b', '\n'] := by
    apply hkept 1 ⟨['b'], ['\n']⟩ (by decide)
    rw [hlf, mixed_reached]
    decide
  match pieces, hfirst, hsecond with
  | first :: second :: rest, hfirst, hsecond =>
    cases hfirst
    cases hsecond
    have hchars := congrArg (fun text : List Char => text[4]?) hfinal
    cases hchars

end PieLab

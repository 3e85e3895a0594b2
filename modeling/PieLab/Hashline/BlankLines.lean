import PieLab.Hashline.Parse

/-
  Blank lines in a patch

  Between operations the reader passes blank lines over. Inside a body it does
  not: a body that may still take rows meets the blank line and refuses it, so
  that a patch with a newline at its end is refused when its last operation has
  a body.

  What is proved:
    1. `parseBody_iff` — a body is its rows up to a line at which a body ends.
    2. `parseSections_insertEmpty` — one blank line in front of a header, of an
       operation, or at the end, by the line it is put behind.
    3. `blank_lines_insignificant` — a blank line changes nothing exactly when the
       line before it takes no rows.
    4. `final_newline_refused` — a patch whose last row is ended by a newline.

  Correspondence (TypeScript ↔ Lean): parseBody and parseHashlinePatch of
  packages/hashline/src/patch.ts.
-/

namespace PieLab

open Lib

/-! ## Lines that are no operation -/

variable {line : String} {header : ParsedHeader} {rest : List String} {s : ParsedSections}
variable {sections : List HashlinePatchSection}

theorem parseOperationHeader_none
    (h : ∀ word ∈ ["replace", "delete", "insert"], ¬ word.toList <+: line.toList) :
    parseOperationHeader line = .ok none := by
  have hreplace := takeKeyword_none (h "replace" (by simp))
  have hdelete := takeKeyword_none (h "delete" (by simp))
  have hinsert := takeKeyword_none (h "insert" (by simp))
  unfold parseOperationHeader replaceMatch deleteMatch
  rw [hreplace, hdelete]
  show parseInsertHeader _ = _
  unfold parseInsertHeader insertAnchorMatch insertBoundaryMatch
  rw [hinsert]
  rfl

theorem parseOperationHeader_head (h : ∀ c ∈ line.toList.head?, c ≠ 'r' ∧ c ≠ 'd' ∧ c ≠ 'i') :
    parseOperationHeader line = .ok none := by
  apply parseOperationHeader_none
  intro word hword hfront
  obtain ⟨rest, hrest⟩ := hfront
  rw [← hrest] at h
  simp only [List.mem_cons, List.not_mem_nil, or_false] at hword
  rcases hword with rfl | rfl | rfl
  · exact (h 'r' (by simp)).1 rfl
  · exact (h 'd' (by simp)).2.1 rfl
  · exact (h 'i' (by simp)).2.2 rfl

theorem head_space_of_blank (h : jsTrim line = "") :
    ∀ c ∈ line.toList.head?, isJsSpace c = true := by
  intro c hc
  cases hline : line.toList with
  | nil =>
    rw [hline] at hc
    cases hc
  | cons d rest =>
    rw [hline, List.head?_cons, Option.mem_some_iff] at hc
    rw [← hc]
    by_cases hspace : isJsSpace d = true
    · exact hspace
    · exact absurd h (jsTrim_ne_empty hline (by simpa using hspace))

/-! ## Where rows may follow -/

/-- Of the operations only `delete` has no body. -/
def ParsedHeader.hasBody : ParsedHeader → Bool
  | .delete _ => false
  | _ => true

/-- A row of a body, or an operation that has one. -/
def takesRows (line : String) : Bool :=
  line.toList.head? == some '+' ||
    match parseOperationHeader line with
    | .ok (some header) => header.hasBody
    | _ => false

theorem takesRows_of_head (h : ∀ c ∈ line.toList.head?, c ≠ '+' ∧ c ≠ 'r' ∧ c ≠ 'd' ∧ c ≠ 'i') :
    takesRows line = false := by
  unfold takesRows
  rw [parseOperationHeader_head fun c hc => (h c hc).2]
  rw [Bool.or_false, beq_eq_false_iff_ne]
  intro hplus
  exact (h '+' hplus).1 rfl

theorem takesRows_blank (h : jsTrim line = "") : takesRows line = false := by
  apply takesRows_of_head
  intro c hc
  have hspace := head_space_of_blank h c hc
  refine ⟨?_, ?_, ?_, ?_⟩ <;> (intro heq; rw [heq] at hspace; exact absurd hspace (by decide))

theorem takesRows_section (h : startsSection line = true) : takesRows line = false := by
  apply takesRows_of_head
  intro c hc
  have hhead : line.toList.head? = some filePrefix := by simpa [startsSection] using h
  rw [hhead, Option.mem_some_iff] at hc
  rw [← hc]
  decide

theorem takesRows_row (row : String) : takesRows ("+" ++ row) = true := by
  simp [takesRows]

theorem head_of_operation (h : parseOperationHeader line = .ok (some header)) :
    line.toList.head? ≠ some '+' := by
  intro hhead
  rw [parseOperationHeader_head] at h
  · cases h
  · intro c hc
    rw [hhead, Option.mem_some_iff] at hc
    rw [← hc]
    decide

theorem takesRows_operation (h : parseOperationHeader line = .ok (some header)) :
    takesRows line = header.hasBody := by
  have hplus : (line.toList.head? == some '+') = false :=
    beq_eq_false_iff_ne.mpr (head_of_operation h)
  unfold takesRows
  rw [hplus, h, Bool.false_or]

/-! ## Reading a body -/

theorem parseBody_cons {body next : List String} (h : parseBody (line :: rest) = .ok (body, next)) :
    EndsBody (line :: rest) ∧ body = [] ∧ next = line :: rest ∨
      ∃ row body', line = "+" ++ row ∧ body = row :: body' ∧ parseBody rest = .ok (body', next) := by
  by_cases hsection : startsSection line = true
  · have hend : EndsBody (line :: rest) := Or.inl hsection
    rw [parseBody_end hend] at h
    cases h
    exact .inl ⟨hend, rfl, rfl⟩
  cases hop : parseOperationHeader line with
  | error message =>
    rw [parseBody, if_neg hsection, hop] at h
    cases h
  | ok parsed =>
    cases parsed with
    | some header =>
      have hend : EndsBody (line :: rest) := Or.inr ⟨header, hop⟩
      rw [parseBody_end hend] at h
      cases h
      exact .inl ⟨hend, rfl, rfl⟩
    | none =>
      rw [parseBody, if_neg hsection, hop] at h
      cases hline : line.toList with
      | nil =>
        simp only [hline] at h
        cases h
      | cons c row =>
        by_cases hc : c = '+'
        · subst hc
          simp only [hline] at h
          obtain ⟨⟨body', next'⟩, hrest, heq⟩ := Lib.Except.map_ok h
          cases heq
          refine .inr ⟨String.ofList row, body', ?_, rfl, hrest⟩
          rw [← String.toList_inj, hline]
          simp
        · simp only [hline] at h
          split at h
          · next heq => exact absurd (List.cons.inj heq).1 hc
          · cases h

/-- A body is its rows, up to a line at which a body ends. -/
theorem parseBody_iff (lines body next : List String) :
    parseBody lines = .ok (body, next) ↔ lines = bodyRows body ++ next ∧ EndsBody next := by
  constructor
  · intro h
    induction lines generalizing body with
    | nil =>
      cases h
      exact ⟨rfl, trivial⟩
    | cons line rest ih =>
      rcases parseBody_cons h with ⟨hend, rfl, rfl⟩ | ⟨row, body', rfl, rfl, hrest⟩
      · exact ⟨rfl, hend⟩
      · obtain ⟨hlines, hend⟩ := ih body' hrest
        refine ⟨?_, hend⟩
        rw [hlines]
        rfl
  · intro h
    rw [h.1]
    exact parseBody_rows body h.2

theorem parseBody_blank (body rest : List String) (result : List String × List String) :
    parseBody (bodyRows body ++ "" :: rest) ≠ .ok result := by
  intro h
  induction body generalizing result with
  | nil =>
    rcases parseBody_cons (show parseBody ("" :: rest) = .ok (result.1, result.2) from h) with
      ⟨hend, _⟩ | ⟨row, _, hrow, _⟩
    · rcases hend with hsection | ⟨header, hop⟩
      · exact absurd hsection (by decide)
      · rw [parseOperationHeader_head (by simp)] at hop
        cases hop
    · have hlist := congrArg String.toList hrow
      simp at hlist
  | cons row body ih =>
    rcases parseBody_cons (show parseBody (("+" ++ row) :: (bodyRows body ++ "" :: rest)) =
      .ok (result.1, result.2) from h) with ⟨hend, _⟩ | ⟨_, body', _, _, hrest⟩
    · rcases hend with hsection | ⟨header, hop⟩
      · simp [startsSection, filePrefix] at hsection
      · rw [parseOperationHeader_row] at hop
        cases hop
    · exact ih _ hrest

/-! ## Reading the sections -/

theorem parseSections_blank (h : jsTrim line = "") (rest : List String) (s : ParsedSections) :
    parseSections (line :: rest) s = parseSections rest s := by
  rw [parseSections, if_pos h]

theorem parseSections_section {path hash : String} (hne : jsTrim line ≠ "")
    (h : parseSectionHeader line = .ok (some (path, hash))) (rest : List String)
    (s : ParsedSections) :
    parseSections (line :: rest) s = parseSections rest (s.openSection path hash) := by
  rw [parseSections, if_neg hne, h]

/-- The section with one more operation. -/
def ParsedSections.addOperation (s : ParsedSections) (current : HashlinePatchSection)
    (operation : HashlineOperation) : ParsedSections :=
  { s with current := some { current with operations := current.operations ++ [operation] } }

theorem parseSections_operation {current : HashlinePatchSection} (hne : jsTrim line ≠ "")
    (hsection : parseSectionHeader line = .ok none) (hcurrent : s.current = some current)
    (hop : parseOperationHeader line = .ok (some header)) (rest : List String) :
    parseSections (line :: rest) s = (readBody header rest).bind fun (body, next) =>
      parseSections next (s.addOperation current (header.operation body)) := by
  rw [parseSections, if_neg hne, hsection]
  simp only [hcurrent, hop]
  split
  · next message herror =>
    rw [herror]
    rfl
  · next body next hok =>
    rw [hok]
    rfl

theorem parseSections_cons (h : parseSections (line :: rest) s = .ok sections) :
    jsTrim line = "" ∨
      jsTrim line ≠ "" ∧
        ((∃ path hash, parseSectionHeader line = .ok (some (path, hash))) ∨
          ∃ current header, parseSectionHeader line = .ok none ∧ s.current = some current ∧
            parseOperationHeader line = .ok (some header)) := by
  by_cases hblank : jsTrim line = ""
  · exact .inl hblank
  rw [parseSections, if_neg hblank] at h
  refine .inr ⟨hblank, ?_⟩
  cases hsection : parseSectionHeader line with
  | error message =>
    simp only [hsection] at h
    cases h
  | ok parsed =>
    cases parsed with
    | some header => exact .inl ⟨header.1, header.2, rfl⟩
    | none =>
      right
      cases hcurrent : s.current with
      | none =>
        simp only [hsection, hcurrent] at h
        cases h
      | some current =>
        cases hop : parseOperationHeader line with
        | error message =>
          simp only [hsection, hcurrent, hop] at h
          cases h
        | ok parsed =>
          cases parsed with
          | none =>
            simp only [hsection, hcurrent, hop] at h
            cases h
          | some header => exact ⟨current, header, rfl, rfl, rfl⟩

theorem startsSection_of_header {path hash : String}
    (h : parseSectionHeader line = .ok (some (path, hash))) : startsSection line = true := by
  unfold parseSectionHeader at h
  cases hline : line.toList with
  | nil =>
    simp only [hline] at h
    cases h
  | cons c rest =>
    by_cases hc : c = filePrefix
    · unfold startsSection
      rw [hline, hc]
      rfl
    · simp only [hline] at h
      rw [if_pos hc] at h
      cases h

/-! ## One blank line more -/

theorem readBody_of_body (h : header.hasBody = true) (lines : List String) :
    readBody header lines = parseBody lines := by
  cases header with
  | delete range => cases h
  | replace range => rfl
  | insert position => rfl

theorem readBody_of_none (h : header.hasBody = false) (lines : List String) :
    readBody header lines = .ok ([], lines) := by
  cases header with
  | delete range => rfl
  | replace range => cases h
  | insert position => cases h

theorem parseBody_append {front body next : List String} (hend : EndsBody rest)
    (h : parseBody (front ++ rest) = .ok (body, next)) :
    (front = bodyRows body ∧ next = rest) ∨
      ∃ after, after ≠ [] ∧ front = bodyRows body ++ after ∧ next = after ++ rest ∧
        ∀ rest', parseBody (front ++ rest') = .ok (body, after ++ rest') := by
  obtain ⟨hlines, hnext⟩ := (parseBody_iff _ _ _).mp h
  rcases List.append_eq_append_iff.mp hlines with ⟨after, hrows, hrest⟩ | ⟨after, hfront, hnext'⟩
  · -- the rows reach into `rest`, which begins with none
    left
    cases hafter : after with
    | nil =>
      rw [hafter] at hrows hrest
      exact ⟨by rw [hrows, List.append_nil], hrest.symm⟩
    | cons row more =>
      have hrow : row ∈ bodyRows body := by
        rw [hrows, hafter]
        simp
      obtain ⟨text, _, rfl⟩ := List.mem_map.mp hrow
      rw [hrest, hafter, List.cons_append] at hend
      rcases hend with hsection | ⟨header, hop⟩
      · simp [startsSection, filePrefix] at hsection
      · rw [parseOperationHeader_row] at hop
        cases hop
  · by_cases hafter : after = []
    · left
      rw [hafter] at hfront hnext'
      exact ⟨by rw [hfront, List.append_nil], hnext'⟩
    · right
      refine ⟨after, hafter, hfront, hnext', ?_⟩
      intro rest'
      apply (parseBody_iff _ _ _).mpr
      refine ⟨by rw [hfront, List.append_assoc], ?_⟩
      obtain ⟨line, more, rfl⟩ := List.exists_cons_of_ne_nil hafter
      rw [hnext'] at hnext
      exact hnext

theorem getLast?_append_rows (line : String) (front : List String) {after : List String}
    (h : after ≠ []) : (line :: (front ++ after)).getLast? = after.getLast? := by
  rw [← List.cons_append]
  exact List.getLast?_append_of_ne_nil _ h

theorem rows_takeRows (body : List String) : ∀ row ∈ bodyRows body, takesRows row = true := by
  intro row hrow
  obtain ⟨text, _, rfl⟩ := List.mem_map.mp hrow
  exact takesRows_row text

theorem last_takesRows {rows : List String} (hline : takesRows line = true)
    (hrows : ∀ row ∈ rows, takesRows row = true) :
    ∃ last ∈ (line :: rows).getLast?, takesRows last = true := by
  have hne : line :: rows ≠ [] := List.cons_ne_nil line rows
  refine ⟨(line :: rows).getLast hne, List.getLast?_eq_some_getLast hne, ?_⟩
  rcases List.mem_cons.mp (List.getLast_mem hne) with heq | hmem
  · rw [heq]
    exact hline
  · exact hrows _ hmem

/-- In front of a header, of an operation or at the end, a blank line is read as none
exactly when the line before it takes no rows. -/
theorem parseSections_insertEmpty (hend : EndsBody rest) {front : List String}
    (h : parseSections (front ++ rest) s = .ok sections) :
    parseSections (front ++ "" :: rest) s = .ok sections ↔
      ∀ line ∈ front.getLast?, takesRows line = false := by
  induction hn : front.length using Nat.strongRecOn generalizing front s with
  | _ n ih =>
    cases front with
    | nil =>
      have hsame : parseSections ([] ++ "" :: rest) s = .ok sections := by
        rw [List.nil_append, parseSections_blank (by decide)]
        exact h
      constructor
      · intro _ line hline
        cases hline
      · intro _
        exact hsame
    | cons line front =>
      rw [List.length_cons] at hn
      rw [List.cons_append] at h ⊢
      -- a line that takes no rows leaves the question to the lines behind it
      have hskip : takesRows line = false →
          ((∀ last ∈ front.getLast?, takesRows last = false) ↔
            ∀ last ∈ (line :: front).getLast?, takesRows last = false) := by
        intro hline
        cases front with
        | nil => simp [hline]
        | cons line' front' => rw [List.getLast?_cons_cons]
      rcases parseSections_cons h with hblank | ⟨hne, ⟨path, hash, hsection⟩ | hoperation⟩
      · rw [parseSections_blank hblank] at h ⊢
        rw [ih front.length (by omega) h rfl]
        exact hskip (takesRows_blank hblank)
      · rw [parseSections_section hne hsection] at h ⊢
        rw [ih front.length (by omega) h rfl]
        exact hskip (takesRows_section (startsSection_of_header hsection))
      · obtain ⟨current, header, hsection, hcurrent, hop⟩ := hoperation
        rw [parseSections_operation hne hsection hcurrent hop] at h ⊢
        have htakes := takesRows_operation hop
        cases hbody : header.hasBody with
        | false =>
          rw [readBody_of_none hbody] at h ⊢
          have hrest := ih front.length (by omega) h rfl
          show parseSections (front ++ "" :: rest) _ = .ok sections ↔ _
          rw [hrest]
          exact hskip (htakes.trans hbody)
        | true =>
          rw [readBody_of_body hbody] at h ⊢
          cases hread : parseBody (front ++ rest) with
          | error message =>
            rw [hread] at h
            cases h
          | ok result =>
            obtain ⟨body, next⟩ := result
            rw [hread] at h
            rcases parseBody_append hend hread with
              ⟨hfront, _⟩ | ⟨after, hafter, hfront, hnext, hall⟩
            · -- every line in front of the blank one is a row of this body
              have hrefused : ∀ result, parseBody (front ++ "" :: rest) ≠ .ok result := by
                rw [hfront]
                exact parseBody_blank body rest
              have hlast : ∃ last ∈ (line :: front).getLast?, takesRows last = true :=
                last_takesRows (htakes.trans hbody) (by rw [hfront]; exact rows_takeRows body)
              constructor
              · intro haccepted
                cases hread' : parseBody (front ++ "" :: rest) with
                | error message =>
                  rw [hread'] at haccepted
                  cases haccepted
                | ok result => exact absurd hread' (hrefused result)
              · intro hnone
                obtain ⟨last, hmem, htrue⟩ := hlast
                rw [hnone last hmem] at htrue
                cases htrue
            · rw [hall]
              have hlength : after.length < n := by
                rw [← hn, hfront, List.length_append]
                omega
              have hrest := ih after.length hlength (by rw [← hnext]; exact h) rfl
              show parseSections (after ++ "" :: rest) _ = .ok sections ↔ _
              rw [hrest, hfront, getLast?_append_rows line _ hafter]

/-! ## Patches -/

/-- The lines of a patch text. -/
def patchLines (text : String) : List String := splitLines (normalizeSnapshotText text)

def insertEmptyLine (lines : List String) (i : Nat) : List String :=
  lines.take i ++ "" :: lines.drop i

theorem parseHashlinePatch_ok {text : String} (h : parseHashlinePatch text = .ok sections) :
    parseSections (patchLines text) { complete := [], current := none } = .ok sections ∧
      sections.isEmpty = false ∧ sections.find? (fun s => s.operations.isEmpty) = none := by
  unfold parseHashlinePatch at h
  obtain ⟨read, hread, h⟩ := Lib.Except.bind_ok h
  by_cases hempty : read.isEmpty = true
  · rw [if_pos hempty] at h
    cases h
  · rw [if_neg hempty] at h
    cases hfind : read.find? fun s => s.operations.isEmpty with
    | some s =>
      rw [hfind] at h
      cases h
    | none =>
      rw [hfind] at h
      cases h
      exact ⟨hread, by simpa using hempty, hfind⟩

theorem parseHashlinePatch_of {text : String}
    (hread : parseSections (patchLines text) { complete := [], current := none } = .ok sections)
    (hempty : sections.isEmpty = false)
    (hfind : sections.find? (fun s => s.operations.isEmpty) = none) :
    parseHashlinePatch text = .ok sections := by
  unfold parseHashlinePatch
  unfold patchLines at hread
  rw [hread]
  show (if sections.isEmpty then _ else _) = _
  rw [hempty, if_neg Bool.false_ne_true, hfind]

/-- A blank line in front of a header, in front of an operation or at the end of an accepted
patch changes nothing exactly when the line before it is neither a row nor an operation
that has rows. -/
theorem blank_lines_insignificant {text text' : String} {sections : List HashlinePatchSection}
    {i : Nat} (haccepted : parseHashlinePatch text = .ok sections)
    (hplace : EndsBody ((patchLines text).drop i))
    (hblank : patchLines text' = insertEmptyLine (patchLines text) i) :
    parseHashlinePatch text' = .ok sections ↔
      ∀ line ∈ ((patchLines text).take i).getLast?, takesRows line = false := by
  obtain ⟨hread, hempty, hfind⟩ := parseHashlinePatch_ok haccepted
  have hsplit : parseSections ((patchLines text).take i ++ (patchLines text).drop i)
      { complete := [], current := none } = .ok sections := by
    rw [List.take_append_drop]
    exact hread
  rw [← parseSections_insertEmpty hplace hsplit]
  constructor
  · intro haccepted'
    have hread' := (parseHashlinePatch_ok haccepted').1
    rw [hblank] at hread'
    exact hread'
  · intro hread'
    apply parseHashlinePatch_of _ hempty hfind
    rw [hblank]
    exact hread'

/-- A section of a file `f`. -/
def sectionOf (operations : List HashlineOperation) : HashlinePatchSection :=
  { path := "f", hash := "0000", operations }

theorem sectionOf_canonical {operations : List HashlineOperation} (hne : operations ≠ [])
    (hnumbers : ∀ operation ∈ operations, ∀ n ∈ operation.lineNumbers, n = 1)
    (hrows : ∀ operation ∈ operations, ∀ row ∈ operation.bodyLines, row = "x") :
    (sectionOf operations).Canonical where
  path_ne := by
    show "f" ≠ ""
    decide
  path_line := @oneLine_of_all "f".toList (by decide)
  hash_length := by
    show "0000".toList.length = 4
    decide
  hash_digits := by
    show ∀ c ∈ "0000".toList, isHexDigit c = true
    exact List.all_eq_true.mp (by decide)
  operations_ne := hne
  numbers := by
    intro operation hop n hn
    rw [hnumbers operation hop n hn]
    exact if_pos (by decide)
  rows := by
    intro operation hop row hrow
    rw [hrows operation hop row hrow]
    exact @oneLine_of_all "x".toList (by decide)

def firstLine : LineRange :=
  { startLine := 1, endLine := 1, pos := LineNumber.first, le := LineNumber.first }

/-- A newline behind a patch that deletes a line. -/
theorem blank_lines_insignificant_example :
    parseHashlinePatch "¶f#0000\ndelete 1..1\n" = .ok [sectionOf [.delete firstLine]] := by
  have hcanonical : (sectionOf [.delete firstLine]).Canonical := by
    apply sectionOf_canonical (List.cons_ne_nil _ _)
    · intro operation hop n hn
      rw [List.mem_singleton.mp hop] at hn
      simpa [HashlineOperation.lineNumbers, firstLine] using hn
    · intro operation hop row hrow
      rw [List.mem_singleton.mp hop] at hrow
      cases hrow
  have haccepted : parseHashlinePatch (renderPatch [sectionOf [.delete firstLine]]) =
      .ok [sectionOf [.delete firstLine]] := by
    apply @parseHashlinePatch_render [sectionOf [.delete firstLine]] (List.cons_ne_nil _ _)
    intro s hs
    rw [List.mem_singleton.mp hs]
    exact hcanonical
  have hlines : patchLines (renderPatch [sectionOf [.delete firstLine]]) =
      ["¶f#0000", "delete 1..1"] := by decide
  have hend : EndsBody ((patchLines (renderPatch [sectionOf [.delete firstLine]])).drop 2) := by
    rw [hlines]
    exact trivial
  apply (blank_lines_insignificant haccepted hend _).mpr
  · intro line hline
    have hdelete : parseOperationHeader "delete 1..1" = .ok (some (.delete firstLine)) := rfl
    rw [hlines] at hline
    cases hline
    exact takesRows_operation hdelete
  · rw [hlines]
    decide

/-- A newline at the end of a patch whose last operation has a body. -/
theorem final_newline_refused :
    ¬ ∀ (text text' : String) (sections : List HashlinePatchSection) (i : Nat),
      parseHashlinePatch text = .ok sections → EndsBody ((patchLines text).drop i) →
      patchLines text' = insertEmptyLine (patchLines text) i →
      parseHashlinePatch text' = .ok sections := by
  intro h
  have hcanonical : (sectionOf [.replace firstLine ["x"]]).Canonical := by
    apply sectionOf_canonical (List.cons_ne_nil _ _)
    · intro operation hop n hn
      rw [List.mem_singleton.mp hop] at hn
      simpa [HashlineOperation.lineNumbers, firstLine] using hn
    · intro operation hop row hrow
      rw [List.mem_singleton.mp hop] at hrow
      exact List.mem_singleton.mp hrow
  have haccepted : parseHashlinePatch (renderPatch [sectionOf [.replace firstLine ["x"]]]) =
      .ok [sectionOf [.replace firstLine ["x"]]] := by
    apply @parseHashlinePatch_render [sectionOf [.replace firstLine ["x"]]] (List.cons_ne_nil _ _)
    intro s hs
    rw [List.mem_singleton.mp hs]
    exact hcanonical
  have hlines : patchLines (renderPatch [sectionOf [.replace firstLine ["x"]]]) =
      ["¶f#0000", "replace 1..1:", "+x"] := by decide
  have hlines' : patchLines "¶f#0000\nreplace 1..1:\n+x\n" =
      ["¶f#0000", "replace 1..1:", "+x"] ++ "" :: [] := by decide
  have haccepted' := h _ "¶f#0000\nreplace 1..1:\n+x\n" _ 3 haccepted
    (by rw [hlines]; exact trivial) (by rw [hlines, hlines']; rfl)
  have hread := (parseHashlinePatch_ok haccepted).1
  have hread' := (parseHashlinePatch_ok haccepted').1
  rw [hlines] at hread
  rw [hlines'] at hread'
  -- the last row takes rows behind it
  have hlast := (parseSections_insertEmpty (show EndsBody [] from trivial) (by rw [List.append_nil]; exact hread)).mp hread'
  have hrow := hlast "+x" rfl
  exact absurd hrow (by decide)

end PieLab

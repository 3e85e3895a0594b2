import Mathlib.Data.List.Basic
import Mathlib.Data.List.Count
import Mathlib.Data.List.Induction

/-
  Replacing matches — a library

  The matches of several patterns in a list are replaced, each pattern by its own content:
  one pattern after the other, or all of them together. Matches cannot overlap. One after
  the other, a content that was put in may hold a match of a later pattern.

  What is proved:
    1. `successive_map` — the replacements only look at what the patterns look at.
    2. `successive_eq_together` — both are the same where the content put in first makes no
       match of a later pattern.
    3. `successive_eq_together_iff` — and only there, where every element shows which place it
       comes from.
-/

namespace PieLab.Lib

variable {α β ι : Type}

/-- The matches of a pattern replaced by `content`, from left to right; `find` is the length of the
match in front. The first `skip` elements belong to a match. -/
def replaceMatches (find : List α → Option Nat) (content : List α) : Nat → List α → List α
  | _, [] => []
  | skip + 1, _ :: rest => replaceMatches find content skip rest
  | 0, x :: rest =>
    match find (x :: rest) with
    | some n => content ++ replaceMatches find content (n - 1) rest
    | none => x :: replaceMatches find content 0 rest

/-- One pattern after the other. -/
def successive (find : ι → List α → Option Nat) (contents : List (ι × List α)) (text : List α) :
    List α :=
  contents.foldl (fun result entry => replaceMatches (find entry.1) entry.2 0 result) text

/-- A piece of a text: an element of its own, or a match. -/
inductive Token (ι α : Type) where
  | unit (x : α)
  | mark (pattern : ι) (elements : List α)

def tokensLoop (find : ι → List α → Option Nat) (patterns : List ι) :
    Nat → List α → List (Token ι α)
  | _, [] => []
  | 0, _ => []
  | fuel + 1, x :: rest =>
    match patterns.findSome? fun i => (find i (x :: rest)).map (i, ·) with
    | some (i, n) =>
      .mark i ((x :: rest).take n) :: tokensLoop find patterns fuel ((x :: rest).drop n)
    | none => .unit x :: tokensLoop find patterns fuel rest

/-- The matches of all patterns, and what stands between them. -/
def tokens (find : ι → List α → Option Nat) (patterns : List ι) (text : List α) :
    List (Token ι α) :=
  tokensLoop find patterns text.length text

/-- How many matches there are. -/
def countMatches (find : List α → Option Nat) : List α → Nat
  | [] => 0
  | x :: rest => (if (find (x :: rest)).isSome then 1 else 0) + countMatches find rest

/-- Patterns whose matches have an end of their own and do not overlap. -/
structure Separate (find : ι → List α → Option Nat) : Prop where
  length : ∀ {i l n}, find i l = some n → 0 < n ∧ n ≤ l.length
  ends : ∀ {i l n}, find i l = some n → ∀ rest, find i (l.take n ++ rest) = some n
  apart : ∀ {i j l n}, find i l = some n → ∀ m, 0 < m → m < n → find j (l.drop m) = none
  one : ∀ {i j l n k}, find i l = some n → find j l = some k → i = j

/-! ## What the patterns look at -/

variable {f : α → β} {l rest elements : List α} {i : ι} {patterns : List ι}
variable {toks : List (Token ι α)} {keep : α → Bool} {contents done : List (ι × List α)}

theorem replaceMatches_map {find : List α → Option Nat} {find' : List β → Option Nat}
    (hfind : ∀ l, find' (l.map f) = find l) (content : List α) (skip : Nat) (l : List α) :
    (replaceMatches find content skip l).map f =
      replaceMatches find' (content.map f) skip (l.map f) := by
  induction l generalizing skip with
  | nil => cases skip <;> rfl
  | cons x rest ih =>
    cases skip with
    | succ skip => exact ih skip
    | zero =>
      have hhere : find' (f x :: rest.map f) = find (x :: rest) := hfind (x :: rest)
      simp only [List.map_cons, replaceMatches, hhere]
      cases find (x :: rest) with
      | none => simp [ih]
      | some n => simp [ih]

theorem successive_map {find : ι → List α → Option Nat} {find' : ι → List β → Option Nat}
    {f : α → β} (hfind : ∀ i l, find' i (l.map f) = find i l) (contents : List (ι × List α))
    (text : List α) :
    (successive find contents text).map f =
      successive find' (contents.map fun entry => (entry.1, entry.2.map f)) (text.map f) := by
  induction contents generalizing text with
  | nil => rfl
  | cons entry rest ih =>
    simp only [successive, List.foldl_cons, List.map_cons] at ih ⊢
    rw [ih, replaceMatches_map (hfind entry.1)]

theorem countMatches_map {find : List α → Option Nat} {find' : List β → Option Nat}
    (hfind : ∀ l, find' (l.map f) = find l) (l : List α) :
    countMatches find' (l.map f) = countMatches find l := by
  induction l with
  | nil => rfl
  | cons x rest ih =>
    have hhere : find' (f x :: rest.map f) = find (x :: rest) := hfind (x :: rest)
    simp only [List.map_cons, countMatches, hhere, ih]

def Token.map (f : α → β) : Token ι α → Token ι β
  | .unit x => .unit (f x)
  | .mark i elements => .mark i (elements.map f)

theorem tokensLoop_map {find : ι → List α → Option Nat} {find' : ι → List β → Option Nat}
    (hfind : ∀ i l, find' i (l.map f) = find i l) (patterns : List ι) (fuel : Nat) (l : List α) :
    tokensLoop find' patterns fuel (l.map f) =
      (tokensLoop find patterns fuel l).map (Token.map f) := by
  induction fuel generalizing l with
  | zero => cases l <;> rfl
  | succ fuel ih =>
    cases l with
    | nil => rfl
    | cons x rest =>
      have hhere : ∀ i, find' i (f x :: rest.map f) = find i (x :: rest) := fun i =>
        hfind i (x :: rest)
      simp only [List.map_cons, tokensLoop, hhere]
      cases patterns.findSome? fun i => (find i (x :: rest)).map (i, ·) with
      | none => simp [ih, Token.map]
      | some found =>
        have hdrop := ih ((x :: rest).drop found.2)
        rw [List.map_drop, List.map_cons] at hdrop
        simp [hdrop, Token.map, List.map_take]


/-! ## Matches that do not overlap -/

/-- The rest of a match is left out. -/
theorem replaceMatches_skip (find : List α → Option Nat) (content first rest : List α) :
    replaceMatches find content first.length (first ++ rest) =
      replaceMatches find content 0 rest := by
  induction first with
  | nil => rfl
  | cons x first ih => exact ih

/-- No match starts in `l`, with `rest` behind it. -/
def NoMatchIn (find : List α → Option Nat) (l rest : List α) : Prop :=
  ∀ m < l.length, find (l.drop m ++ rest) = none

theorem noMatchIn_cons {find : List α → Option Nat} {x : α} :
    NoMatchIn find (x :: l) rest ↔ find (x :: l ++ rest) = none ∧ NoMatchIn find l rest := by
  constructor
  · intro h
    exact ⟨h 0 (by simp), fun m hm => h (m + 1) (by simpa using hm)⟩
  · rintro ⟨hhere, hrest⟩ m hm
    cases m with
    | zero => exact hhere
    | succ m => exact hrest m (by simpa using hm)

theorem replaceMatches_none {find : List α → Option Nat} (h : NoMatchIn find l rest)
    (content : List α) :
    replaceMatches find content 0 (l ++ rest) = l ++ replaceMatches find content 0 rest := by
  induction l with
  | nil => rfl
  | cons x l ih =>
    obtain ⟨hhere, hrest⟩ := noMatchIn_cons.1 h
    rw [List.cons_append] at hhere
    simp only [List.cons_append, replaceMatches, hhere, ih hrest]

theorem countMatches_none {find : List α → Option Nat} (h : NoMatchIn find l rest) :
    countMatches find (l ++ rest) = countMatches find rest := by
  induction l with
  | nil => rfl
  | cons x l ih =>
    obtain ⟨hhere, hrest⟩ := noMatchIn_cons.1 h
    rw [List.cons_append] at hhere
    simp [countMatches, hhere, ih hrest]

/-- Nothing is counted twice: a part in front adds the matches that start in it. -/
theorem countMatches_le (find : List α → Option Nat) (l rest : List α) :
    countMatches find rest ≤ countMatches find (l ++ rest) := by
  induction l with
  | nil => exact Nat.le_refl _
  | cons x l ih =>
    simp only [List.cons_append, countMatches]
    omega

theorem noMatchIn_of_count {find : List α → Option Nat}
    (h : countMatches find (l ++ rest) = countMatches find rest) : NoMatchIn find l rest := by
  induction l with
  | nil => exact fun m hm => absurd hm (Nat.not_lt_zero m)
  | cons x l ih =>
    have hle := countMatches_le find l rest
    simp only [List.cons_append, countMatches] at h
    refine noMatchIn_cons.2 ⟨?_, ih (by omega)⟩
    cases hhere : find (x :: (l ++ rest)) with
    | none => exact hhere
    | some n =>
      simp only [hhere, Option.isSome_some, if_true] at h
      omega

/-- Elements that are a match whatever stands behind them. -/
def IsMark (find : ι → List α → Option Nat) (i : ι) (elements : List α) : Prop :=
  elements ≠ [] ∧ ∀ rest, find i (elements ++ rest) = some elements.length

variable {find : ι → List α → Option Nat}

theorem IsMark.inside (h : IsMark find i elements) (hfind : Separate find) (j : ι) (rest : List α)
    {x : α} {tail : List α} (hcons : elements = x :: tail) : NoMatchIn (find j) tail rest := by
  intro m hm
  have hhere := h.2 rest
  subst hcons
  have hnone : find j ((x :: tail ++ rest).drop (m + 1)) = none :=
    hfind.apart hhere (m + 1) (by omega) (by simpa using hm)
  rwa [List.cons_append, List.drop_succ_cons, List.drop_append_of_le_length (by omega)] at hnone

/-- In a match of one pattern no other pattern matches. -/
theorem IsMark.other {j : ι} (h : IsMark find i elements) (hfind : Separate find) (hij : i ≠ j)
    (rest : List α) : NoMatchIn (find j) elements rest := by
  cases helements : elements with
  | nil => exact absurd helements h.1
  | cons x tail =>
    refine noMatchIn_cons.2 ⟨?_, h.inside hfind j rest helements⟩
    cases hother : find j (x :: tail ++ rest) with
    | none => rfl
    | some n =>
      have hhere := h.2 rest
      rw [helements] at hhere
      exact absurd (hfind.one hhere hother) hij

theorem IsMark.replace (h : IsMark find i elements) (content rest : List α) :
    replaceMatches (find i) content 0 (elements ++ rest) =
      content ++ replaceMatches (find i) content 0 rest := by
  have hhere := h.2 rest
  cases helements : elements with
  | nil => exact absurd helements h.1
  | cons x tail =>
    rw [helements, List.cons_append] at hhere
    simp only [List.cons_append, replaceMatches, hhere, List.length_cons, Nat.add_sub_cancel,
      replaceMatches_skip]

theorem IsMark.count (h : IsMark find i elements) (hfind : Separate find) (rest : List α) :
    countMatches (find i) (elements ++ rest) = countMatches (find i) rest + 1 := by
  have hhere := h.2 rest
  cases helements : elements with
  | nil => exact absurd helements h.1
  | cons x tail =>
    rw [helements, List.cons_append] at hhere
    have htail := countMatches_none (h.inside hfind i rest helements)
    simp only [List.cons_append, countMatches, hhere, Option.isSome_some, if_true, htail]
    omega

/-! ## Tokens -/

/-- The tokens are those of the text: marks where a pattern matches, units where none does. -/
def Tokenized (find : ι → List α → Option Nat) (patterns : List ι) :
    List α → List (Token ι α) → Prop
  | text, [] => text = []
  | text, .unit x :: later => ∃ rest, text = x :: rest ∧ (∀ i ∈ patterns, find i text = none) ∧
    Tokenized find patterns rest later
  | text, .mark i elements :: later => ∃ rest, text = elements ++ rest ∧ i ∈ patterns ∧
    IsMark find i elements ∧ Tokenized find patterns rest later

theorem tokensLoop_tokenized (hfind : Separate find) (patterns : List ι) (fuel : Nat)
    {text : List α} (h : text.length ≤ fuel) :
    Tokenized find patterns text (tokensLoop find patterns fuel text) := by
  induction fuel generalizing text with
  | zero =>
    obtain rfl : text = [] := List.length_eq_zero_iff.1 (by omega)
    rfl
  | succ fuel ih =>
    cases text with
    | nil => rfl
    | cons x rest =>
      rw [List.length_cons] at h
      rw [tokensLoop]
      cases hsome : patterns.findSome? fun i => (find i (x :: rest)).map (i, ·) with
      | none =>
        refine ⟨rest, rfl, fun i hi => ?_, ih (by omega)⟩
        simpa using List.findSome?_eq_none_iff.1 hsome i hi
      | some found =>
        obtain ⟨i, n⟩ := found
        obtain ⟨j, hj, hmatch⟩ := List.exists_of_findSome?_eq_some hsome
        obtain ⟨k, hk, hpair⟩ := Option.map_eq_some_iff.1 hmatch
        obtain ⟨rfl, rfl⟩ := Prod.mk.inj hpair
        obtain ⟨hpos, hle⟩ := hfind.length hk
        refine ⟨(x :: rest).drop k, (List.take_append_drop k _).symm, hj, ⟨?_, fun after => ?_⟩,
          ih ?_⟩
        · simp
          omega
        · rw [hfind.ends hk after, List.length_take, Nat.min_eq_left hle]
        · rw [List.length_drop, List.length_cons]
          omega

theorem tokens_tokenized (hfind : Separate find) (patterns : List ι) (text : List α) :
    Tokenized find patterns text (tokens find patterns text) :=
  tokensLoop_tokenized hfind patterns text.length (Nat.le_refl _)

theorem Tokenized.unit_mem {text : List α} (h : Tokenized find patterns text toks) {x : α}
    (hx : Token.unit x ∈ toks) : x ∈ text := by
  induction toks generalizing text with
  | nil => cases hx
  | cons token later ih =>
    cases token with
    | unit y =>
      obtain ⟨rest, rfl, _, hrest⟩ := h
      rcases List.mem_cons.1 hx with heq | hmem
      · cases heq
        exact List.mem_cons_self
      · exact List.mem_cons_of_mem _ (ih hrest hmem)
    | mark i elements =>
      obtain ⟨rest, rfl, _, _, hrest⟩ := h
      rcases List.mem_cons.1 hx with heq | hmem
      · cases heq
      · exact List.mem_append_right _ (ih hrest hmem)

theorem Tokenized.mark_mem {text : List α} (h : Tokenized find patterns text toks)
    (hmark : Token.mark i elements ∈ toks) {x : α} (hx : x ∈ elements) : x ∈ text := by
  induction toks generalizing text with
  | nil => cases hmark
  | cons token later ih =>
    cases token with
    | unit y =>
      obtain ⟨rest, rfl, _, hrest⟩ := h
      rcases List.mem_cons.1 hmark with heq | hmem
      · cases heq
      · exact List.mem_cons_of_mem _ (ih hrest hmem)
    | mark j more =>
      obtain ⟨rest, rfl, _, _, hrest⟩ := h
      rcases List.mem_cons.1 hmark with heq | hmem
      · cases heq
        exact List.mem_append_left _ hx
      · exact List.mem_append_right _ (ih hrest hmem)

/-- An element of a mark is not one between the marks. -/
theorem Tokenized.mark_not_unit {text : List α} (h : Tokenized find patterns text toks)
    (hnodup : text.Nodup) (hmark : Token.mark i elements ∈ toks) {x : α} (hx : x ∈ elements) :
    Token.unit x ∉ toks := by
  induction toks generalizing text with
  | nil => cases hmark
  | cons token later ih =>
    intro hunit
    cases token with
    | unit y =>
      obtain ⟨rest, rfl, _, hrest⟩ := h
      obtain ⟨hy, hnodup⟩ := List.nodup_cons.1 hnodup
      have hmark' : Token.mark i elements ∈ later := by simpa using hmark
      rcases List.mem_cons.1 hunit with heq | hmem
      · cases heq
        exact hy (hrest.mark_mem hmark' hx)
      · exact ih hrest hnodup hmark' hmem
    | mark j more =>
      obtain ⟨rest, rfl, _, _, hrest⟩ := h
      obtain ⟨_, hnodup, hdisjoint⟩ := List.nodup_append.1 hnodup
      have hunit' : Token.unit x ∈ later := by simpa using hunit
      rcases List.mem_cons.1 hmark with heq | hmem
      · cases heq
        exact hdisjoint x hx x (hrest.unit_mem hunit') rfl
      · exact ih hrest hnodup hmem hunit'

/-! ## Kept elements -/

/-- How many matches start with an element that is kept. -/
def keptHeads (keep : α → Bool) (find : List α → Option Nat) : List α → Nat
  | [] => 0
  | x :: rest =>
    (if (find (x :: rest)).isSome ∧ keep x then 1 else 0) + keptHeads keep find rest

/-- Each match that starts with a kept element costs one of them. -/
theorem keptHeads_le (hfind : Separate find) {content : List α}
    (hcontent : ∀ x ∈ content, keep x = false) (skip : Nat) (l : List α)
    (hskip : ∀ m < skip, find i (l.drop m) = none) :
    (replaceMatches (find i) content skip l).countP keep + keptHeads keep (find i) l ≤
      l.countP keep := by
  induction l generalizing skip with
  | nil => cases skip <;> exact Nat.le_refl _
  | cons x rest ih =>
    have hx : rest.countP keep + (if keep x then 1 else 0) = (x :: rest).countP keep := by
      rw [List.countP_cons]
    cases skip with
    | succ skip =>
      have hnone : find i (x :: rest) = none := hskip 0 (Nat.succ_pos skip)
      have hrest := ih skip fun m hm => hskip (m + 1) (Nat.succ_lt_succ hm)
      simp only [replaceMatches, keptHeads, hnone, Option.isSome_none, Bool.false_eq_true,
        false_and, if_false]
      omega
    | zero =>
      cases hhere : find i (x :: rest) with
      | none =>
        have hrest := ih 0 fun m hm => absurd hm (Nat.not_lt_zero m)
        simp only [replaceMatches, keptHeads, hhere, Option.isSome_none, Bool.false_eq_true,
          false_and, if_false, List.countP_cons]
        omega
      | some n =>
        -- no match starts inside this one
        have hrest := ih (n - 1) fun m hm =>
          hfind.apart hhere (m + 1) (Nat.succ_pos m) (by omega)
        have hzero : content.countP keep = 0 := List.countP_eq_zero.2 (by simpa using hcontent)
        simp only [replaceMatches, keptHeads, hhere, Option.isSome_some, true_and,
          List.countP_append, hzero]
        omega

theorem countP_replaceMatches_le (hfind : Separate find) {content : List α}
    (hcontent : ∀ x ∈ content, keep x = false) (l : List α) :
    (replaceMatches (find i) content 0 l).countP keep ≤ l.countP keep := by
  have hle := keptHeads_le hfind (i := i) hcontent 0 l fun m hm => absurd hm (Nat.not_lt_zero m)
  omega

theorem countP_successive_le (hfind : Separate find)
    (h : ∀ entry ∈ contents, ∀ x ∈ entry.2, keep x = false) (l : List α) :
    (successive find contents l).countP keep ≤ l.countP keep := by
  induction contents generalizing l with
  | nil => exact Nat.le_refl _
  | cons entry rest ih =>
    have hhere := countP_replaceMatches_le hfind (i := entry.1) (h entry List.mem_cons_self) l
    have hrest := ih (fun later hlater => h later (List.mem_cons_of_mem _ hlater))
      (replaceMatches (find entry.1) entry.2 0 l)
    exact Nat.le_trans hrest hhere

theorem keptHeads_all {keep : α → Bool} (find : List α → Option Nat) {l rest : List α}
    (h : ∀ x ∈ l, keep x = true) :
    keptHeads keep find (l ++ rest) + countMatches find rest =
      keptHeads keep find rest + countMatches find (l ++ rest) := by
  induction l with
  | nil => rfl
  | cons x l ih =>
    have htail := ih fun y hy => h y (List.mem_cons_of_mem _ hy)
    simp only [List.cons_append, keptHeads, countMatches, h x List.mem_cons_self, and_true]
    omega

theorem keptHeads_none {keep : α → Bool} {find : List α → Option Nat} {l rest : List α}
    (h : NoMatchIn find l rest) :
    keptHeads keep find (l ++ rest) = keptHeads keep find rest := by
  induction l with
  | nil => rfl
  | cons x l ih =>
    obtain ⟨hhere, hrest⟩ := noMatchIn_cons.1 h
    rw [List.cons_append] at hhere
    simp [keptHeads, hhere, ih hrest]

/-- The elements that are kept when the patterns of `done` have been replaced: those between the
marks and what was put in. -/
structure Keeps (keep : α → Bool) (done : List (ι × List α)) (toks : List (Token ι α)) :
    Prop where
  unit : ∀ x, Token.unit x ∈ toks → keep x = true
  mark : ∀ i elements, Token.mark i elements ∈ toks → ∀ x ∈ elements, keep x = false
  content : ∀ entry ∈ done, ∀ x ∈ entry.2, keep x = true

theorem Keeps.tail {token : Token ι α} (h : Keeps keep done (token :: toks)) :
    Keeps keep done toks where
  unit x hx := h.unit x (List.mem_cons_of_mem _ hx)
  mark i elements hmark := h.mark i elements (List.mem_cons_of_mem _ hmark)
  content := h.content

/-- The elements between the marks and those of the patterns replaced. -/
def keptUnits [DecidableEq α] (done : List (ι × List α)) (toks : List (Token ι α)) (x : α) : Bool :=
  toks.any (fun
    | .unit y => y == x
    | .mark _ _ => false) ||
  done.any fun entry => entry.2.contains x

theorem keptUnits_iff [DecidableEq α] {x : α} :
    keptUnits done toks x = true ↔ Token.unit x ∈ toks ∨ ∃ entry ∈ done, x ∈ entry.2 := by
  rw [keptUnits, Bool.or_eq_true, List.any_eq_true, List.any_eq_true]
  refine or_congr ⟨?_, fun h => ⟨.unit x, h, by simp⟩⟩ (by simp)
  rintro ⟨token, hmem, heq⟩
  cases token with
  | unit y =>
    obtain rfl := beq_iff_eq.1 heq
    exact hmem
  | mark i elements => cases heq

/-! ## Successive and together -/

variable [DecidableEq ι]

/-- A token with the matches of the patterns in `contents` replaced. -/
def Token.render (contents : List (ι × List α)) : Token ι α → List α
  | .unit x => [x]
  | .mark i elements => (contents.lookup i).getD elements

/-- The matches in the text itself replaced, those of the patterns in `done` alone. -/
def rendered (find : ι → List α → Option Nat) (contents done : List (ι × List α))
    (text : List α) : List α :=
  (tokens find (contents.map Prod.fst) text).flatMap (Token.render done)

/-- All patterns together. -/
def together (find : ι → List α → Option Nat) (contents : List (ι × List α)) (text : List α) :
    List α :=
  rendered find contents contents text

/-- With the patterns in front replaced in the text, a pattern matches as often as in the text. -/
def NoStrayMatches (find : ι → List α → Option Nat) (contents : List (ι × List α))
    (text : List α) : Prop :=
  ∀ before entry after, contents = before ++ entry :: after →
    countMatches (find entry.1) (rendered find contents before text) =
      countMatches (find entry.1) text

theorem lookup_map (f : List α → List β) (contents : List (ι × List α)) (i : ι) :
    (contents.map fun entry => (entry.1, f entry.2)).lookup i = (contents.lookup i).map f := by
  induction contents with
  | nil => rfl
  | cons entry rest ih =>
    obtain ⟨key, content⟩ := entry
    simp only [List.map_cons, List.lookup_cons, ih]
    cases i == key <;> rfl

theorem rendered_map {find : ι → List α → Option Nat} {find' : ι → List β → Option Nat}
    (hfind : ∀ i l, find' i (l.map f) = find i l) (contents done : List (ι × List α))
    (text : List α) :
    (rendered find contents done text).map f =
      rendered find' (contents.map fun entry => (entry.1, entry.2.map f))
        (done.map fun entry => (entry.1, entry.2.map f)) (text.map f) := by
  simp only [rendered, tokens, List.map_map, List.length_map]
  rw [tokensLoop_map hfind, List.flatMap_map, List.map_flatMap]
  congr 1
  funext token
  cases token with
  | unit x => rfl
  | mark i elements =>
    simp only [Token.render, Token.map, lookup_map]
    cases done.lookup i <;> rfl

theorem noStrayMatches_map {find : ι → List α → Option Nat} {find' : ι → List β → Option Nat}
    {f : α → β} (hfind : ∀ i l, find' i (l.map f) = find i l) (contents : List (ι × List α))
    (text : List α) :
    NoStrayMatches find' (contents.map fun entry => (entry.1, entry.2.map f)) (text.map f) ↔
      NoStrayMatches find contents text := by
  constructor
  · intro h before entry after hsplit
    have hcount := h (before.map fun entry => (entry.1, entry.2.map f)) (entry.1, entry.2.map f)
      (after.map fun entry => (entry.1, entry.2.map f)) (by simp [hsplit])
    rwa [← rendered_map hfind, countMatches_map (hfind _), countMatches_map (hfind _)] at hcount
  · intro h before' entry' after' hsplit
    obtain ⟨before, rest, hcontents, rfl, hrest⟩ := List.map_eq_append_iff.1 hsplit
    obtain ⟨entry, after, rfl, rfl, rfl⟩ := List.map_eq_cons_iff.1 hrest
    rw [← rendered_map hfind, countMatches_map (hfind _), countMatches_map (hfind _)]
    exact h before entry after hcontents

/-- How many of the tokens are marks of a pattern. -/
def marksOf (i : ι) (toks : List (Token ι α)) : Nat :=
  toks.countP fun
    | .unit _ => false
    | .mark j _ => j == i

/-- The text of tokens, with the patterns of `done` replaced. -/
def renderAll (done : List (ι × List α)) (toks : List (Token ι α)) : List α :=
  toks.flatMap (Token.render done)

@[simp] theorem renderAll_nil (done : List (ι × List α)) : renderAll done [] = [] := rfl

@[simp] theorem renderAll_cons (done : List (ι × List α)) (token : Token ι α)
    (toks : List (Token ι α)) :
    renderAll done (token :: toks) = token.render done ++ renderAll done toks := rfl

theorem marksOf_unit (i : ι) (x : α) (toks : List (Token ι α)) :
    marksOf i (.unit x :: toks) = marksOf i toks := by simp [marksOf]

theorem marksOf_self (i : ι) (elements : List α) (toks : List (Token ι α)) :
    marksOf i (.mark i elements :: toks) = marksOf i toks + 1 := by simp [marksOf]

theorem marksOf_other {j : ι} (h : j ≠ i) (elements : List α) (toks : List (Token ι α)) :
    marksOf i (.mark j elements :: toks) = marksOf i toks := by simp [marksOf, h]

/-- Nothing replaced, the tokens are the text. -/
theorem Tokenized.render_nil {text : List α} (h : Tokenized find patterns text toks) :
    renderAll [] toks = text := by
  induction toks generalizing text with
  | nil => exact (show text = [] from h).symm
  | cons token later ih =>
    cases token with
    | unit x =>
      obtain ⟨rest, rfl, _, hrest⟩ := h
      simp [Token.render, ih hrest]
    | mark i elements =>
      obtain ⟨rest, rfl, _, _, hrest⟩ := h
      simp [Token.render, ih hrest]

/-- The matches of a pattern in the text are its marks. -/
theorem Tokenized.count_text (hfind : Separate find) {text : List α}
    (h : Tokenized find patterns text toks) (hi : i ∈ patterns) :
    countMatches (find i) text = marksOf i toks := by
  induction toks generalizing text with
  | nil =>
    obtain rfl : text = [] := h
    rfl
  | cons token later ih =>
    cases token with
    | unit x =>
      obtain ⟨rest, rfl, hnone, hrest⟩ := h
      simp [countMatches, hnone i hi, ih hrest, marksOf_unit]
    | mark j elements =>
      obtain ⟨rest, rfl, _, hmark, hrest⟩ := h
      by_cases hij : j = i
      · subst hij
        rw [hmark.count hfind, ih hrest, marksOf_self]
      · rw [countMatches_none (hmark.other hfind hij rest), ih hrest, marksOf_other hij]

/-- What is put in may add matches of a pattern, but takes none away. -/
theorem Tokenized.marksOf_le (hfind : Separate find) {text : List α}
    (h : Tokenized find patterns text toks) (hi : done.lookup i = none) :
    marksOf i toks ≤ countMatches (find i) (renderAll done toks) := by
  induction toks generalizing text with
  | nil => exact Nat.zero_le _
  | cons token later ih =>
    cases token with
    | unit x =>
      obtain ⟨rest, _, _, hrest⟩ := h
      rw [marksOf_unit]
      exact Nat.le_trans (ih hrest) (countMatches_le _ _ _)
    | mark j elements =>
      obtain ⟨rest, _, _, hmark, hrest⟩ := h
      by_cases hij : j = i
      · subst hij
        rw [renderAll_cons, Token.render, hi, Option.getD_none, hmark.count hfind, marksOf_self]
        exact Nat.succ_le_succ (ih hrest)
      · rw [marksOf_other hij]
        exact Nat.le_trans (ih hrest) (countMatches_le _ _ _)

/-- With no other matches than the marks, one more pattern is replaced in the text alone. -/
theorem Tokenized.replace (hfind : Separate find) {text : List α}
    (h : Tokenized find patterns text toks) (content : List α) (hi : done.lookup i = none)
    (hcount : countMatches (find i) (renderAll done toks) = marksOf i toks) :
    replaceMatches (find i) content 0 (renderAll done toks) =
      renderAll (done ++ [(i, content)]) toks := by
  induction toks generalizing text with
  | nil => rfl
  | cons token later ih =>
    -- what is rendered of this token has no match of its own
    have hapart : ∀ {rest}, Tokenized find patterns rest later →
        countMatches (find i) (token.render done ++ renderAll done later) = marksOf i later →
        replaceMatches (find i) content 0 (token.render done ++ renderAll done later) =
          token.render done ++ renderAll (done ++ [(i, content)]) later := by
      intro rest hrest hsame
      have hle := hrest.marksOf_le hfind hi
      have hmore := countMatches_le (find i) (token.render done) (renderAll done later)
      rw [replaceMatches_none (noMatchIn_of_count (by omega)), ih hrest (by omega)]
    cases token with
    | unit x =>
      obtain ⟨rest, _, _, hrest⟩ := h
      rw [marksOf_unit] at hcount
      exact hapart hrest hcount
    | mark j elements =>
      obtain ⟨rest, _, _, hmark, hrest⟩ := h
      by_cases hij : j = i
      · subst hij
        have hlookup : (done ++ [(j, content)]).lookup j = some content := by
          simp [List.lookup_append, hi]
        rw [renderAll_cons, Token.render, hi, Option.getD_none, hmark.count hfind,
          marksOf_self] at hcount
        rw [renderAll_cons, renderAll_cons, Token.render, Token.render, hi, hlookup,
          Option.getD_none, Option.getD_some, hmark.replace, ih hrest (by omega)]
      · have hlookup : (done ++ [(i, content)]).lookup j = done.lookup j := by
          simp [List.lookup_append, List.lookup_cons, beq_eq_false_iff_ne.2 hij]
        rw [marksOf_other hij] at hcount
        rw [renderAll_cons, renderAll_cons, hapart hrest hcount]
        simp only [Token.render, hlookup]

theorem lookup_eq_none_of_nodup {before after : List (ι × List α)} {entry : ι × List α}
    (h : ((before ++ entry :: after).map Prod.fst).Nodup) : before.lookup entry.1 = none := by
  rw [List.lookup_eq_none_iff]
  rintro ⟨key, content⟩ hmem
  rw [List.map_append, List.map_cons] at h
  have hne := (List.nodup_append.1 h).2.2 key (List.mem_map_of_mem (f := Prod.fst) hmem) entry.1
    List.mem_cons_self
  simpa using hne.symm

/-- As far as there are no other matches, one pattern after the other is all of them together. -/
theorem successive_eq_rendered (hfind : Separate find) (hnodup : (contents.map Prod.fst).Nodup)
    {text : List α} (before after : List (ι × List α)) (hsplit : contents = before ++ after)
    (h : ∀ first entry rest, before = first ++ entry :: rest →
      countMatches (find entry.1) (rendered find contents first text) =
        countMatches (find entry.1) text) :
    successive find before text = rendered find contents before text := by
  have htokens := tokens_tokenized hfind (contents.map Prod.fst) text
  induction before using List.reverseRecOn generalizing after with
  | nil => exact htokens.render_nil.symm
  | append_singleton first entry ih =>
    have hcontents : contents = first ++ entry :: after := by simpa using hsplit
    have hfirst := ih (entry :: after) hcontents fun first' entry' rest' hsub =>
      h first' entry' (rest' ++ [entry]) (by simp [hsub])
    have hnone : first.lookup entry.1 = none := by
      rw [hcontents] at hnodup
      exact lookup_eq_none_of_nodup hnodup
    have hcount := h first entry [] rfl
    rw [htokens.count_text hfind (by simp [hcontents])] at hcount
    rw [successive, List.foldl_append]
    show replaceMatches (find entry.1) entry.2 0 (successive find first text) = _
    rw [hfirst]
    exact htokens.replace hfind entry.2 hnone hcount

/-- Where what is put in makes no match of a later pattern, one pattern after the other is all of
them together. -/
theorem successive_eq_together (hfind : Separate find) (hnodup : (contents.map Prod.fst).Nodup)
    {text : List α} (h : NoStrayMatches find contents text) :
    successive find contents text = together find contents text :=
  successive_eq_rendered hfind hnodup contents [] (by simp) h

theorem mem_of_lookup {content : List α} (h : contents.lookup i = some content) :
    (i, content) ∈ contents := by
  induction contents with
  | nil => cases h
  | cons entry rest ih =>
    obtain ⟨key, first⟩ := entry
    rw [List.lookup_cons] at h
    cases hkey : i == key with
    | true =>
      rw [hkey] at h
      obtain rfl := Option.some.inj h
      rw [beq_iff_eq.1 hkey]
      exact List.mem_cons_self
    | false =>
      rw [hkey] at h
      exact List.mem_cons_of_mem _ (ih h)

/-- A match is a mark, or starts with a kept element. -/
theorem Tokenized.count_kept (hfind : Separate find) {text : List α}
    (h : Tokenized find patterns text toks) (hi : done.lookup i = none)
    (hkeep : Keeps keep done toks) :
    countMatches (find i) (renderAll done toks) =
      keptHeads keep (find i) (renderAll done toks) + marksOf i toks := by
  induction toks generalizing text with
  | nil => rfl
  | cons token later ih =>
    cases token with
    | unit x =>
      obtain ⟨rest, _, _, hrest⟩ := h
      have hall := @keptHeads_all _ keep (find i) [x] (renderAll done later)
        (by simpa using hkeep.unit x List.mem_cons_self)
      have hlater := ih hrest hkeep.tail
      rw [marksOf_unit, renderAll_cons, Token.render]
      omega
    | mark j elements =>
      obtain ⟨rest, _, _, hmark, hrest⟩ := h
      have hlater := ih hrest hkeep.tail
      cases hj : done.lookup j with
      | some content =>
        have hij : j ≠ i := by
          rintro rfl
          rw [hi] at hj
          cases hj
        have hall := @keptHeads_all _ keep (find i) content (renderAll done later)
          (hkeep.content (j, content) (mem_of_lookup hj))
        rw [marksOf_other hij, renderAll_cons, Token.render, hj, Option.getD_some]
        omega
      | none =>
        rw [renderAll_cons, Token.render, hj, Option.getD_none]
        by_cases hij : j = i
        · subst hij
          rw [hmark.count hfind, marksOf_self, hlater]
          cases helements : elements with
          | nil => exact absurd helements hmark.1
          | cons x tail =>
            have hx := hkeep.mark j elements List.mem_cons_self x (by simp [helements])
            have htail := @keptHeads_none _ keep (find j) tail (renderAll done later)
              (hmark.inside hfind j _ helements)
            simp only [List.cons_append, keptHeads, hx, Bool.false_eq_true, and_false, if_false,
              htail]
            omega
        · have hnone := hmark.other hfind hij (renderAll done later)
          rw [countMatches_none hnone, keptHeads_none hnone, marksOf_other hij, hlater]

/-- The elements kept stay when the other patterns are replaced in the text as well. -/
theorem countP_renderAll {later : List (ι × List α)} (hkeep : Keeps keep done toks)
    (hlater : ∀ entry ∈ later, ∀ x ∈ entry.2, keep x = false) :
    (renderAll (done ++ later) toks).countP keep = (renderAll done toks).countP keep := by
  induction toks with
  | nil => rfl
  | cons token rest ih =>
    rw [renderAll_cons, renderAll_cons, List.countP_append, List.countP_append, ih hkeep.tail]
    congr 1
    cases token with
    | unit x => rfl
    | mark i elements =>
      simp only [Token.render, List.lookup_append]
      cases hdone : done.lookup i with
      | some content => simp
      | none =>
        have helements : elements.countP keep = 0 := by
          simpa using hkeep.mark i elements List.mem_cons_self
        cases hcontent : later.lookup i with
        | none => simp [helements]
        | some content =>
          have hzero : content.countP keep = 0 := by
            simpa using hlater (i, content) (mem_of_lookup hcontent)
          simp [helements, hzero]

/-- Every element of the text and of the contents is a different one. -/
structure Traced (contents : List (ι × List α)) (text : List α) : Prop where
  nodup : text.Nodup
  outside : ∀ entry ∈ contents, ∀ x ∈ entry.2, x ∉ text
  apart : contents.Pairwise fun entry later => ∀ x ∈ later.2, x ∉ entry.2

/-- Where every element shows its place, one pattern after the other is all of them together
exactly when what is put in makes no match of a later pattern. -/
theorem successive_eq_together_iff [DecidableEq α] (hfind : Separate find)
    (hnodup : (contents.map Prod.fst).Nodup) {text : List α} (htraced : Traced contents text) :
    successive find contents text = together find contents text ↔
      NoStrayMatches find contents text := by
  refine ⟨fun hsame => ?_, successive_eq_together hfind hnodup⟩
  have htokens := tokens_tokenized hfind (contents.map Prod.fst) text
  intro before
  -- the first stray match costs an element that nothing brings back
  induction hlength : before.length using Nat.strongRecOn generalizing before with
  | _ n ih =>
    intro entry after hsplit
    have hbefore : successive find before text = rendered find contents before text := by
      refine successive_eq_rendered hfind hnodup before (entry :: after) hsplit ?_
      rintro first entry' rest rfl
      exact ih first.length (by simp at hlength; omega) first rfl entry' (rest ++ entry :: after)
        (by simpa using hsplit)
    have hnone : before.lookup entry.1 = none := by
      rw [hsplit] at hnodup
      exact lookup_eq_none_of_nodup hnodup
    have hmem : entry.1 ∈ contents.map Prod.fst := by simp [hsplit]
    have hkeep : Keeps (keptUnits before (tokens find (contents.map Prod.fst) text)) before
        (tokens find (contents.map Prod.fst) text) := by
      refine ⟨fun x hx => keptUnits_iff.2 (.inl hx), fun i elements hmark x hx => ?_,
        fun entry' hentry x hx => keptUnits_iff.2 (.inr ⟨entry', hentry, hx⟩)⟩
      rw [← Bool.not_eq_true, keptUnits_iff]
      rintro (hunit | ⟨entry', hentry, hx'⟩)
      · exact htokens.mark_not_unit htraced.nodup hmark hx hunit
      · exact htraced.outside entry' (by simp [hsplit, hentry]) x hx' (htokens.mark_mem hmark hx)
    have hlater : ∀ entry' ∈ entry :: after, ∀ x ∈ entry'.2,
        keptUnits before (tokens find (contents.map Prod.fst) text) x = false := by
      intro entry' hentry x hx
      rw [← Bool.not_eq_true, keptUnits_iff]
      rintro (hunit | ⟨first, hfirst, hx'⟩)
      · exact htraced.outside entry' (by rw [hsplit]; exact List.mem_append_right _ hentry) x hx
          (htokens.unit_mem hunit)
      · have hapart := htraced.apart
        rw [hsplit] at hapart
        exact (List.pairwise_append.1 hapart).2.2 first hfirst entry' hentry x hx hx'
    have hwhole := countP_renderAll hkeep hlater
    rw [← hsplit] at hwhole
    have hrest : successive find contents text = successive find after
        (replaceMatches (find entry.1) entry.2 0 (rendered find contents before text)) := by
      rw [← hbefore, hsplit, successive, List.foldl_append]
      rfl
    have hafter := countP_successive_le hfind
      (fun entry' hentry => hlater entry' (List.mem_cons_of_mem _ hentry))
      (replaceMatches (find entry.1) entry.2 0 (rendered find contents before text))
    rw [← hrest, hsame] at hafter
    have hheads := keptHeads_le hfind (i := entry.1) (hlater entry List.mem_cons_self) 0
      (rendered find contents before text) fun m hm => absurd hm (Nat.not_lt_zero m)
    have hcount := htokens.count_kept hfind hnone hkeep
    rw [htokens.count_text hfind hmem]
    simp only [together, rendered, renderAll] at hwhole hafter hheads hcount ⊢
    omega

end PieLab.Lib

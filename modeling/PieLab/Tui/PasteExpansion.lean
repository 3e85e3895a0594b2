import Mathlib.Data.List.Nodup
import Mathlib.Data.List.TakeWhile
import PieLab.Lib.Replacements
import PieLab.Tui.Editor

/-
  Expanded pastes

  A large paste is kept aside, and a marker stands for it in the text. Submitting the text, or
  handing it to an external editor, puts the pastes back: one after the other, in the order
  they were stored. What was put in counts as text for the pastes behind it, so a paste that
  holds the marker of a later one is changed.

  Correspondence (TypeScript ↔ Lean), packages/tui/src/components/editor.ts:
    expandPasteMarkers   ↔ `matchPaste` (the pattern of a paste), `expandPasteMarkers`
    getExpandedText      ↔ `getExpandedText`
    submitValue (result) ↔ `submittedText`

  What is proved:
    1. `matchPaste_separate` — the markers do not overlap, and a marker has one id.
    2. `expands_verbatim_iff` — every marker becomes the content of its paste, and nothing that
       was put in is rewritten, exactly when no content makes a marker of a later paste.
-/

open PieLab.Lib PieLab.Lib.Js

namespace PieLab.Tui

/-- `\[paste #ID( (\+\d+ lines|\d+ chars))?\]` in front of the text: its length. -/
def matchPaste (pasteId : Nat) (text : Text) : Option Nat := do
  let rest ← stripPrefix? (ascii "[paste #") text
  let rest ← stripPrefix? (ascii (toString pasteId)) rest
  let rest ← stripPrefix? (ascii "]") (stripSize rest)
  some (text.length - rest.length)

def expandPasteMarkers (pastes : List (Nat × Text)) (text : Text) : Text :=
  pastes.foldl (fun result paste => replaceMatches (matchPaste paste.1) paste.2 0 result) text

namespace Editor

def getExpandedText (s : Editor) : Text := expandPasteMarkers s.pastes s.getText

/-- What `submitValue` hands on. -/
def submittedText (s : Editor) : Text := trimText (expandPasteMarkers s.pastes s.getText)

end Editor

/-! ## Markers -/

variable {text rest size : Text}

theorem stripPrefix?_eq_some {literal : Text} :
    stripPrefix? literal text = some rest ↔ text = literal ++ rest := by
  rw [stripPrefix?]
  constructor
  · intro h
    split at h
    · rename_i hfront
      obtain rfl := Option.some.inj h
      obtain ⟨tail, htail⟩ := List.isPrefixOf_iff_prefix.1 hfront
      simp [← htail]
    · cases h
  · rintro rfl
    simp [List.isPrefixOf_iff_prefix]

theorem stripPrefix?_cons_ne {c d : UInt16} {literal : Text} (h : d ≠ c) :
    stripPrefix? (c :: literal) (d :: text) = none := by
  rw [stripPrefix?, if_neg]
  rw [List.isPrefixOf_iff_prefix]
  intro hprefix
  exact h (List.cons_prefix_cons.1 hprefix).1.symm

/-- Digits, one at least. -/
def Digits (digits : Text) : Prop := digits ≠ [] ∧ ∀ c ∈ digits, isDigit c = true

theorem digits?_eq_some {digits : Text} :
    digits? text = some (digits, rest) ↔
      text = digits ++ rest ∧ Digits digits ∧ ∀ c ∈ rest.head?, isDigit c = false := by
  rw [digits?]
  constructor
  · intro h
    by_cases hnone : text.takeWhile isDigit = []
    · simp [hnone] at h
    · simp only [hnone, if_false, Option.some.injEq, Prod.mk.injEq] at h
      obtain ⟨rfl, rfl⟩ := h
      refine ⟨List.takeWhile_append_dropWhile.symm, ⟨hnone, fun c hc => ?_⟩, fun c hc => ?_⟩
      · exact List.mem_takeWhile_imp hc
      · have := List.head?_dropWhile_not isDigit text
        rw [hc] at this
        simpa using this
  · rintro ⟨rfl, ⟨hne, hall⟩, hrest⟩
    have htake : rest.takeWhile isDigit = [] ∧ rest.dropWhile isDigit = rest := by
      cases rest with
      | nil => exact ⟨rfl, rfl⟩
      | cons c rest => simp [hrest c rfl]
    rw [List.takeWhile_append_of_pos hall, List.dropWhile_append_of_pos hall, htake.1, htake.2,
      List.append_nil]
    simp [hne]

/-- The size in a marker: of lines, of characters, or none. -/
inductive MarkerSize : Text → Prop where
  | none : MarkerSize []
  | lines {digits : Text} (h : Digits digits) :
      MarkerSize (ascii " +" ++ digits ++ ascii " lines")
  | chars {digits : Text} (h : Digits digits) :
      MarkerSize (ascii " " ++ digits ++ ascii " chars")

theorem stripSize_cut (h : stripSize text = rest) :
    ∃ size, MarkerSize size ∧ text = size ++ rest := by
  have hway : ∀ (first last rest : Text), ((stripPrefix? first text).bind digits? |>.bind
      fun found => stripPrefix? last found.2) = some rest →
      ∃ digits, Digits digits ∧ text = first ++ digits ++ last ++ rest := by
    intro first last rest h
    obtain ⟨⟨digits, tail⟩, hdigits, hlast⟩ := Option.bind_eq_some_iff.1 h
    obtain ⟨body, hfirst, hdigits⟩ := Option.bind_eq_some_iff.1 hdigits
    obtain ⟨rfl, hd, _⟩ := digits?_eq_some.1 hdigits
    obtain rfl := stripPrefix?_eq_some.1 hfirst
    have htail : tail = last ++ rest := stripPrefix?_eq_some.1 hlast
    exact ⟨digits, hd, by rw [htail]; simp⟩
  unfold stripSize at h
  dsimp only at h
  cases hlines : ((stripPrefix? (ascii " +") text).bind digits? |>.bind fun found =>
      stripPrefix? (ascii " lines") found.2) with
  | some found =>
    rw [hlines] at h
    obtain rfl : found = rest := h
    obtain ⟨digits, hd, htext⟩ := hway _ _ _ hlines
    exact ⟨_, .lines hd, htext⟩
  | none =>
    rw [hlines] at h
    cases hchars : ((stripPrefix? (ascii " ") text).bind digits? |>.bind fun found =>
        stripPrefix? (ascii " chars") found.2) with
    | some found =>
      rw [hchars] at h
      obtain rfl : found = rest := h
      obtain ⟨digits, hd, htext⟩ := hway _ _ _ hchars
      exact ⟨_, .chars hd, htext⟩
    | none =>
      rw [hchars] at h
      exact ⟨[], .none, h⟩

/-- The size is cut off whole, when the bracket follows. -/
theorem stripSize_append (h : MarkerSize size) (rest : Text) :
    stripSize (size ++ 93 :: rest) = 93 :: rest := by
  have hbracket : ∀ first last : Text,
      ((stripPrefix? (32 :: first) (93 :: rest)).bind digits? |>.bind
        fun found => stripPrefix? last found.2) = none := by
    intro first last
    rw [stripPrefix?_cons_ne (by decide)]
    rfl
  have hblank : ∀ (word : Text), ∀ c ∈ (32 :: word).head?, isDigit c = false := by
    intro word c hc
    obtain rfl : 32 = c := Option.some.inj hc
    rfl
  -- behind the digits stands the word
  have hword : ∀ (first digits word : Text), Digits digits → (∀ c ∈ word.head?, isDigit c = false) →
      word ≠ [] → ((stripPrefix? first (first ++ digits ++ word ++ 93 :: rest)).bind digits? |>.bind
        fun found => stripPrefix? word found.2) = some (93 :: rest) := by
    intro first digits word hd hhead hne
    have hfirst : stripPrefix? first (first ++ digits ++ word ++ 93 :: rest) =
        some (digits ++ (word ++ 93 :: rest)) := stripPrefix?_eq_some.2 (by simp)
    have hdigits : digits? (digits ++ (word ++ 93 :: rest)) = some (digits, word ++ 93 :: rest) :=
      digits?_eq_some.2 ⟨rfl, hd, by
        cases word with
        | nil => exact absurd rfl hne
        | cons c word => exact hhead⟩
    have hlast : stripPrefix? word (word ++ 93 :: rest) = some (93 :: rest) :=
      stripPrefix?_eq_some.2 rfl
    rw [hfirst, Option.bind_some, hdigits, Option.bind_some, hlast]
  cases h with
  | none =>
    have hlines := hbracket (ascii "+") (ascii " lines")
    have hchars := hbracket [] (ascii " chars")
    have hplus : ascii " +" = 32 :: ascii "+" := rfl
    have hspace : ascii " " = [32] := rfl
    simp only [stripSize, List.nil_append, hplus, hspace, hlines, hchars]
    rfl
  | @lines digits hd =>
    have hlines :=
      hword (ascii " +") digits (ascii " lines") hd (hblank (ascii "lines")) (by decide)
    simp only [stripSize, hlines]
    rfl
  | @chars digits hd =>
    have hchars := hword (ascii " ") digits (ascii " chars") hd (hblank (ascii "chars")) (by decide)
    -- a digit is not the plus sign
    have hlines : stripPrefix? (ascii " +") (ascii " " ++ digits ++ ascii " chars" ++ 93 :: rest) =
        none := by
      obtain ⟨hne, hall⟩ := hd
      cases digits with
      | nil => exact absurd rfl hne
      | cons c digits =>
        rw [stripPrefix?, if_neg]
        rw [List.isPrefixOf_iff_prefix]
        intro hprefix
        have hplus : c = 43 := (List.cons_prefix_cons.1 (List.cons_prefix_cons.1 hprefix).2).1.symm
        have hdigit := hall c List.mem_cons_self
        rw [hplus] at hdigit
        exact absurd hdigit (by decide)
    simp only [stripSize, hlines, hchars]
    rfl

/-- The marker of a paste, its id spelled in decimal. -/
def marker (pasteId : Nat) (size : Text) : Text :=
  ascii "[paste #" ++ ascii (toString pasteId) ++ size ++ [93]

theorem matchPaste_eq_some {pasteId n : Nat} :
    matchPaste pasteId text = some n ↔ ∃ size rest, MarkerSize size ∧
      text = marker pasteId size ++ rest ∧ n = (marker pasteId size).length := by
  have hbracket : ascii "]" = [93] := rfl
  simp only [matchPaste, Option.bind_eq_bind, Option.bind_eq_some_iff, stripPrefix?_eq_some,
    hbracket, Option.some.injEq, marker]
  constructor
  · rintro ⟨first, rfl, second, rfl, rest, hsize, rfl⟩
    obtain ⟨size, hmarker, rfl⟩ := stripSize_cut hsize
    refine ⟨size, rest, hmarker, by simp, ?_⟩
    simp only [List.length_append, List.length_cons, List.length_nil]
    omega
  · rintro ⟨size, rest, hmarker, rfl, rfl⟩
    refine ⟨ascii (toString pasteId) ++ (size ++ 93 :: rest), by simp,
      size ++ 93 :: rest, rfl, rest, ?_, ?_⟩
    · exact stripSize_append hmarker rest
    · simp only [List.length_append, List.length_cons, List.length_nil]
      omega

theorem ascii_toString (n : Nat) :
    ascii (toString n) = (Nat.toDigits 10 n).map fun c => UInt16.ofNat c.toNat := by
  rw [ascii, Nat.toString_eq_repr, Nat.toList_repr]

theorem isDigit_ofNat {c : Char} (h : c.isDigit = true) :
    (UInt16.ofNat c.toNat).toNat = c.toNat ∧ isDigit (UInt16.ofNat c.toNat) = true := by
  have hbounds : 48 ≤ c.toNat ∧ c.toNat ≤ 57 := by
    simp only [Char.isDigit, Bool.and_eq_true, decide_eq_true_eq, UInt32.le_iff_toNat_le] at h
    exact h
  have hnat : (UInt16.ofNat c.toNat).toNat = c.toNat := by
    rw [UInt16.toNat_ofNat']
    omega
  refine ⟨hnat, ?_⟩
  simp only [isDigit, Bool.and_eq_true, decide_eq_true_eq, UInt16.le_iff_toNat_le, hnat]
  exact hbounds

theorem digits_toString (n : Nat) : Digits (ascii (toString n)) := by
  rw [ascii_toString]
  refine ⟨by simp, fun c hc => ?_⟩
  obtain ⟨d, hd, rfl⟩ := List.mem_map.1 hc
  exact (isDigit_ofNat (Nat.isDigit_of_mem_toDigits (by omega) (by omega) hd)).2

/-- The id is read back from its digits. -/
theorem parseDigits_toString (n : Nat) : parseDigits (ascii (toString n)) = n := by
  have hfold : ∀ (cs : List Char) (start : Nat), (∀ c ∈ cs, c.isDigit = true) →
      (cs.map fun c => UInt16.ofNat c.toNat).foldl (fun n c => n * 10 + (c.toNat - 48)) start =
        Nat.ofDigitChars 10 cs start := by
    intro cs
    induction cs with
    | nil => exact fun _ _ => rfl
    | cons c cs ih =>
      intro start h
      have hc := (isDigit_ofNat (h c List.mem_cons_self)).1
      rw [List.map_cons, List.foldl_cons, hc, ih _ fun d hd => h d (List.mem_cons_of_mem _ hd)]
      simp [Nat.ofDigitChars_eq_foldl, Nat.mul_comm]
  rw [parseDigits, ascii_toString, hfold _ 0 fun c hc =>
    Nat.isDigit_of_mem_toDigits (by omega) (by omega) hc, Nat.ofDigitChars_ten_toDigits]

theorem marker_cons (pasteId : Nat) (size : Text) :
    marker pasteId size = 91 :: (ascii "paste #" ++ ascii (toString pasteId) ++ size ++ [93]) := rfl

/-- Behind its first character a marker has no opening bracket. -/
theorem no_bracket_inside (h : MarkerSize size) (pasteId : Nat) :
    91 ∉ ascii "paste #" ++ ascii (toString pasteId) ++ size ++ [93] := by
  have hdigit : ∀ {digits : Text}, Digits digits → 91 ∉ digits := by
    intro digits hd hmem
    exact absurd (hd.2 _ hmem) (by decide)
  have hwords : ∀ word ∈ [ascii "paste #", ascii " +", ascii " lines", ascii " ", ascii " chars"],
      91 ∉ word := by decide
  have hsize : 91 ∉ size := by
    cases h with
    | none => exact List.not_mem_nil
    | lines hd =>
      simp only [List.mem_append, not_or]
      exact ⟨⟨hwords _ (by simp), hdigit hd⟩, hwords _ (by simp)⟩
    | chars hd =>
      simp only [List.mem_append, not_or]
      exact ⟨⟨hwords _ (by simp), hdigit hd⟩, hwords _ (by simp)⟩
  simp only [List.mem_append, not_or]
  exact ⟨⟨⟨hwords _ (by simp), hdigit (digits_toString pasteId)⟩, hsize⟩, by decide⟩

/-- Behind the id stands no digit. -/
theorem size_no_digit (h : MarkerSize size) (rest : Text) :
    ∀ c ∈ (size ++ 93 :: rest).head?, isDigit c = false := by
  intro c hc
  cases h with
  | none =>
    obtain rfl : 93 = c := Option.some.inj hc
    decide
  | lines | chars =>
    obtain rfl : 32 = c := Option.some.inj hc
    decide

theorem marker_unique {i j : Nat} {size' rest' : Text} (h : MarkerSize size) (h' : MarkerSize size')
    (heq : marker i size ++ rest = marker j size' ++ rest') : i = j := by
  simp only [marker, List.append_assoc, List.append_cancel_left_eq, List.singleton_append] at heq
  have hdigits : digits? (ascii (toString i) ++ (size ++ 93 :: rest)) =
      some (ascii (toString i), size ++ 93 :: rest) :=
    digits?_eq_some.2 ⟨rfl, digits_toString i, size_no_digit h rest⟩
  have hdigits' : digits? (ascii (toString j) ++ (size' ++ 93 :: rest')) =
      some (ascii (toString j), size' ++ 93 :: rest') :=
    digits?_eq_some.2 ⟨rfl, digits_toString j, size_no_digit h' rest'⟩
  rw [heq, hdigits'] at hdigits
  have hsame : ascii (toString j) = ascii (toString i) := (Prod.mk.inj (Option.some.inj hdigits)).1
  rw [← parseDigits_toString i, ← hsame, parseDigits_toString]

/-- Markers do not overlap, and each has one id. -/
theorem matchPaste_separate : Separate matchPaste where
  length h := by
    obtain ⟨size, rest, hsize, rfl, rfl⟩ := matchPaste_eq_some.1 h
    simp [marker_cons]
  ends h after := by
    obtain ⟨size, rest, hsize, rfl, rfl⟩ := matchPaste_eq_some.1 h
    exact matchPaste_eq_some.2 ⟨size, after, hsize, by rw [List.take_left], rfl⟩
  apart {i j l n} h m hpos hm := by
    obtain ⟨size, rest, hsize, rfl, rfl⟩ := matchPaste_eq_some.1 h
    obtain ⟨m, rfl⟩ : ∃ m', m = m' + 1 := ⟨m - 1, by omega⟩
    rw [← Option.not_isSome_iff_eq_none, Option.isSome_iff_exists]
    rintro ⟨k, hk⟩
    obtain ⟨size', rest', _, heq, _⟩ := matchPaste_eq_some.1 hk
    -- the second marker would start with a character of the first
    have hinside := no_bracket_inside hsize i
    rw [marker_cons] at hm heq
    generalize ascii "paste #" ++ ascii (toString i) ++ size ++ [93] = body at hm heq hinside
    have hm' : m < body.length := by simpa using hm
    rw [List.cons_append, List.drop_succ_cons, List.drop_append_of_le_length (by omega),
      List.drop_eq_getElem_cons hm', marker_cons, List.cons_append, List.cons_append] at heq
    exact hinside ((List.cons.inj heq).1 ▸ List.getElem_mem hm')
  one h h' := by
    obtain ⟨size, rest, hsize, rfl, _⟩ := matchPaste_eq_some.1 h
    obtain ⟨size', rest', hsize', heq, _⟩ := matchPaste_eq_some.1 h'
    exact marker_unique hsize hsize' heq

/-! ## Where a character comes from -/

/-- A character with its place: in the text, or in the content of a paste. -/
structure PlacedUnit where
  paste : Option Nat
  index : Nat
  char : UInt16
  deriving DecidableEq, Repr

def placed (paste : Option Nat) (text : Text) : List PlacedUnit :=
  text.zipIdx.map fun entry => ⟨paste, entry.2, entry.1⟩

/-- The same pattern, on characters with their places. -/
def matchPlaced (pasteId : Nat) (text : List PlacedUnit) : Option Nat :=
  matchPaste pasteId (text.map PlacedUnit.char)

def placedPastes (pastes : List (Nat × Text)) : List (Nat × List PlacedUnit) :=
  pastes.map fun paste => (paste.1, placed (some paste.1) paste.2)

theorem placed_char (paste : Option Nat) (text : Text) :
    (placed paste text).map PlacedUnit.char = text := by
  simp [placed, Function.comp_def]

theorem placedPastes_char (pastes : List (Nat × Text)) :
    (placedPastes pastes).map (fun paste => (paste.1, paste.2.map PlacedUnit.char)) = pastes := by
  simp [placedPastes, Function.comp_def, placed_char]

theorem matchPlaced_separate : Separate matchPlaced where
  length h := by
    have hlength := matchPaste_separate.length h
    rwa [List.length_map] at hlength
  ends h after := by
    have hends := matchPaste_separate.ends h (after.map PlacedUnit.char)
    rwa [← List.map_take, ← List.map_append] at hends
  apart h m hpos hm := by
    rw [matchPlaced, List.map_drop]
    exact matchPaste_separate.apart h m hpos hm
  one h h' := matchPaste_separate.one h h'

theorem mem_placed {paste : Option Nat} {x : PlacedUnit} (h : x ∈ placed paste text) :
    x.paste = paste := by
  obtain ⟨entry, _, rfl⟩ := List.mem_map.1 h
  rfl

theorem placed_nodup (paste : Option Nat) (text : Text) : (placed paste text).Nodup := by
  have hindex : (placed paste text).map PlacedUnit.index = List.range text.length := by
    simp [placed, Function.comp_def, List.zipIdx_map_snd, List.range_eq_range']
  exact List.Nodup.of_map _ (hindex ▸ List.nodup_range)

theorem placed_traced {pastes : List (Nat × Text)} (h : (pastes.map Prod.fst).Nodup)
    (text : Text) : Traced (placedPastes pastes) (placed none text) where
  nodup := placed_nodup none text
  outside entry hentry x hx hmem := by
    obtain ⟨paste, _, rfl⟩ := List.mem_map.1 hentry
    have hfrom := (mem_placed hx).symm.trans (mem_placed hmem)
    cases hfrom
  apart := by
    rw [placedPastes, List.pairwise_map]
    rw [List.Nodup, List.pairwise_map] at h
    refine h.imp fun hne x hx hx' => hne ?_
    exact Option.some.inj ((mem_placed hx').symm.trans (mem_placed hx))

/-! ## Verbatim pastes -/

/-- The characters delivered, each with its place: what `expandPasteMarkers` does to them. -/
def expandPlaced (pastes : List (Nat × Text)) (text : Text) : List PlacedUnit :=
  successive matchPlaced (placedPastes pastes) (placed none text)

/-- The text with every marker of a stored paste replaced by its content. -/
def expandedTogether (pastes : List (Nat × Text)) (text : Text) : Text :=
  together matchPaste pastes text

theorem expandPlaced_char (pastes : List (Nat × Text)) (text : Text) :
    (expandPlaced pastes text).map PlacedUnit.char = expandPasteMarkers pastes text := by
  have hmap := @successive_map _ _ _ matchPlaced matchPaste PlacedUnit.char (fun _ _ => rfl)
    (placedPastes pastes) (placed none text)
  rw [placedPastes_char, placed_char] at hmap
  exact hmap

/-- The text handed on is the text of the editor with each marker of a stored paste replaced by the
content of the paste, and no character of a content is rewritten. -/
structure ExpandsVerbatim (s : Editor) : Prop where
  expanded : s.getExpandedText = expandedTogether s.pastes s.getText
  submitted : s.submittedText = trimText (expandedTogether s.pastes s.getText)
  verbatim : expandPlaced s.pastes s.getText =
    together matchPlaced (placedPastes s.pastes) (placed none s.getText)

/-- No content, put in for its markers, makes a marker of a paste stored later. -/
def NoNestedMarkers (pastes : List (Nat × Text)) (text : Text) : Prop :=
  NoStrayMatches matchPaste pastes text

theorem noNestedMarkers_placed {pastes : List (Nat × Text)} :
    NoStrayMatches matchPlaced (placedPastes pastes) (placed none text) ↔
      NoNestedMarkers pastes text := by
  have hmap := @noStrayMatches_map _ _ _ _ matchPlaced matchPaste PlacedUnit.char (fun _ _ => rfl)
    (placedPastes pastes) (placed none text)
  rw [placedPastes_char, placed_char] at hmap
  exact hmap.symm

/-- Pastes are put back verbatim exactly when no content makes a marker of a later paste. -/
theorem expands_verbatim_iff (s : Editor) (h : (s.pastes.map Prod.fst).Nodup) :
    ExpandsVerbatim s ↔ NoNestedMarkers s.pastes s.getText := by
  have hplaced : ((placedPastes s.pastes).map Prod.fst).Nodup := by
    simpa [placedPastes, Function.comp_def] using h
  have hiff := successive_eq_together_iff matchPlaced_separate hplaced
    (placed_traced h s.getText)
  rw [noNestedMarkers_placed] at hiff
  refine ⟨fun hverbatim => hiff.1 hverbatim.verbatim, fun hnone => ?_⟩
  have hsame : expandPasteMarkers s.pastes s.getText = expandedTogether s.pastes s.getText :=
    successive_eq_together matchPaste_separate h hnone
  exact ⟨hsame, congrArg trimText hsame, hiff.2 hnone⟩

/-- Eleven lines, the first of them `line`. -/
def elevenLines (line : String) : Text := ascii line ++ List.replicate 10 10

/-- A paste that looks like the marker of the next one, and the next one. -/
def nestedPastes : Editor :=
  (Editor.new.handlePaste (elevenLines "[paste #2 +11 lines]")).handlePaste (elevenLines "b")

/-- The second paste is put into the first one as well. -/
theorem nested_paste_rewritten : ¬ ExpandsVerbatim nestedPastes := by
  intro h
  exact absurd h.expanded (by decide +kernel)

/-- The second paste looks like the marker of the first one. -/
def apartPastes : Editor :=
  (Editor.new.handlePaste (elevenLines "b")).handlePaste (elevenLines "[paste #1 +11 lines]")

theorem apartPastes_pastes :
    apartPastes.pastes = [(1, elevenLines "b"), (2, elevenLines "[paste #1 +11 lines]")] := by
  decide +kernel

theorem expands_verbatim_example : ExpandsVerbatim apartPastes := by
  refine (expands_verbatim_iff _ (by decide +kernel)).2 fun before entry after hsplit => ?_
  rw [apartPastes_pastes] at hsplit
  cases before with
  | nil =>
    obtain ⟨rfl, rfl⟩ := List.cons.inj hsplit
    decide +kernel
  | cons first before =>
    obtain ⟨rfl, hrest⟩ := List.cons.inj hsplit
    cases before with
    | nil =>
      obtain ⟨rfl, rfl⟩ := List.cons.inj hrest
      decide +kernel
    | cons second before => simp at hrest

end PieLab.Tui

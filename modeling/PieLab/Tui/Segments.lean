import PieLab.Lib.JsLists

/-
  Segments of an editor line

  A text is its UTF-16 code units. `Intl.Segmenter` cuts it into graphemes or words; the
  editor joins the segments of a paste marker such as `[paste #1 +123 lines]` to one, so
  that the cursor and every command treat the marker as one character.

  Correspondence (TypeScript ↔ Lean):
    packages/tui/src/components/editor.ts   PASTE_MARKER_REGEX    ↔ `matchMarker`, `matchAll`
                                            isPasteMarker         ↔ `isPasteMarker`
                                            segmentWithMarkers    ↔ `segmentWithMarkers`

  What is proved:
    1. `segmentWithMarkers_ordered` — the segments stay disjoint, in order, and inside the
       text.
    2. `segmentWithMarkers_ne_nil` — a text that is not empty has a segment.
-/

open PieLab.Lib.Js

namespace PieLab.Tui

/-- A JavaScript string: its UTF-16 code units. -/
abbrev Text := List UInt16

/-- A text of ASCII characters. -/
def ascii (text : String) : Text := text.toList.map fun c => UInt16.ofNat c.toNat

/-- `Intl.SegmentData` -/
structure SegmentData where
  segment : Text
  index : Nat
  isWordLike : Bool
  deriving DecidableEq, Repr

/-- The segments cut the text into pieces that are not empty. -/
def Partition : Nat → Text → List SegmentData → Prop
  | _, text, [] => text = []
  | start, text, seg :: rest => seg.index = start ∧ seg.segment ≠ [] ∧
    ∃ tail, text = seg.segment ++ tail ∧ Partition (start + seg.segment.length) tail rest

/-- An `Intl.Segmenter`. -/
structure Segmenter where
  segment : Text → List SegmentData
  partition : ∀ text, Partition 0 text (segment text)

/-! ## Paste markers -/

def isDigit (c : UInt16) : Bool := 48 ≤ c && c ≤ 57

/-- `Number.parseInt` of decimal digits. -/
def parseDigits (digits : Text) : Nat := digits.foldl (fun n c => n * 10 + (c.toNat - 48)) 0

def stripPrefix? (literal text : Text) : Option Text :=
  if literal.isPrefixOf text then some (text.drop literal.length) else none

/-- `\d+` in front: the digits and what follows. -/
def digits? (text : Text) : Option (Text × Text) :=
  let digits := text.takeWhile isDigit
  if digits = [] then none else some (digits, text.dropWhile isDigit)

/-- `( (\+\d+ lines|\d+ chars))?` in front: what follows it. -/
def stripSize (text : Text) : Text :=
  let lines := (stripPrefix? (ascii " +") text).bind digits? |>.bind fun found =>
    stripPrefix? (ascii " lines") found.2
  let chars := (stripPrefix? (ascii " ") text).bind digits? |>.bind fun found =>
    stripPrefix? (ascii " chars") found.2
  (lines.or chars).getD text

/-- A paste marker in front of the text: its length and its id. -/
def matchMarker (text : Text) : Option (Nat × Nat) := do
  let rest ← stripPrefix? (ascii "[paste #") text
  let (digits, rest) ← digits? rest
  let rest ← stripPrefix? (ascii "]") (stripSize rest)
  some (text.length - rest.length, parseDigits digits)

/-- Where a marker stands. -/
structure MarkerSpan where
  start : Nat
  stop : Nat
  id : Nat
  deriving DecidableEq, Repr

/-- `text.matchAll(PASTE_MARKER_REGEX)`: from `index` on, after `skip` units of a match. -/
def matchAll : Nat → Nat → Text → List MarkerSpan
  | _, _, [] => []
  | skip + 1, index, _ :: rest => matchAll skip (index + 1) rest
  | 0, index, c :: rest =>
    match matchMarker (c :: rest) with
    | some (length, id) => ⟨index, index + length, id⟩ :: matchAll (length - 1) (index + 1) rest
    | none => matchAll 0 (index + 1) rest

def isPasteMarker (segment : Text) : Bool :=
  10 ≤ segment.length && (matchMarker segment).any fun found => found.1 == segment.length

/-- The loop over the segments of `text`. -/
def mergeMarkers (text : Text) : List MarkerSpan → List SegmentData → List SegmentData
  | _, [] => []
  | markers, seg :: rest =>
    -- skip markers that are entirely before this segment
    let markers := markers.dropWhile fun marker => marker.stop ≤ seg.index
    match markers with
    | [] => seg :: mergeMarkers text markers rest
    | marker :: _ =>
      if marker.start ≤ seg.index then
        -- the first segment of a marker stands for all of it
        if seg.index = marker.start then
          ⟨slice text marker.start marker.stop, marker.start, false⟩ ::
            mergeMarkers text markers rest
        else mergeMarkers text markers rest
      else seg :: mergeMarkers text markers rest

def segmentWithMarkers (text : Text) (baseSegmenter : Segmenter) (validIds : List Nat) :
    List SegmentData :=
  let markers := (matchAll 0 0 text).filter fun marker => validIds.contains marker.id
  if markers = [] then baseSegmenter.segment text
  else mergeMarkers text markers (baseSegmenter.segment text)

/-! ## Segments in order -/

/-- The segments are disjoint and in order, between `low` and `high`. -/
def Ordered (low high : Nat) : List SegmentData → Prop
  | [] => low ≤ high
  | seg :: rest => low ≤ seg.index ∧ Ordered (seg.index + seg.segment.length) high rest

variable {low index : Nat} {segments : List SegmentData} {text : Text} {markers : List MarkerSpan}

theorem Ordered.le {high : Nat} (h : Ordered low high segments) : low ≤ high := by
  induction segments generalizing low with
  | nil => exact h
  | cons seg rest ih =>
    have hrest := ih h.2
    have hlow := h.1
    omega

theorem Partition.ordered {start : Nat} (h : Partition start text segments) :
    Ordered start (start + text.length) segments := by
  induction segments generalizing start text with
  | nil => exact Nat.le_add_right _ _
  | cons seg rest ih =>
    obtain ⟨hindex, _, tail, htext, hrest⟩ := h
    have htail := ih hrest
    rw [htext, List.length_append, ← Nat.add_assoc]
    exact ⟨Nat.le_of_eq hindex.symm, by rw [hindex]; exact htail⟩

theorem stripPrefix?_length {literal rest : Text} (h : stripPrefix? literal text = some rest) :
    literal.length + rest.length = text.length := by
  unfold stripPrefix? at h
  split at h
  · rename_i hfront
    obtain rfl := Option.some.inj h
    have hle := (List.isPrefixOf_iff_prefix.mp hfront).length_le
    rw [List.length_drop]
    omega
  · cases h

theorem digits?_length {digits rest : Text} (h : digits? text = some (digits, rest)) :
    rest.length ≤ text.length := by
  unfold digits? at h
  dsimp only at h
  split at h
  · cases h
  · obtain ⟨_, rfl⟩ := Prod.mk.inj (Option.some.inj h)
    exact (List.dropWhile_sublist _).length_le

theorem stripSize_length (text : Text) : (stripSize text).length ≤ text.length := by
  -- either way the size is a prefix, digits and a word
  have hway : ∀ (first last rest : Text), ((stripPrefix? first text).bind digits? |>.bind
      fun found => stripPrefix? last found.2) = some rest → rest.length ≤ text.length := by
    intro first last rest h
    obtain ⟨⟨digits, tail⟩, hdigits, hlast⟩ := Option.bind_eq_some_iff.mp h
    obtain ⟨body, hfirst, hdigits⟩ := Option.bind_eq_some_iff.mp hdigits
    have hbody := stripPrefix?_length hfirst
    have htail := digits?_length hdigits
    have hrest := stripPrefix?_length hlast
    dsimp only at hrest
    omega
  unfold stripSize
  dsimp only
  generalize hlines : ((stripPrefix? (ascii " +") text).bind digits? |>.bind fun found =>
    stripPrefix? (ascii " lines") found.2) = lines
  generalize hchars : ((stripPrefix? (ascii " ") text).bind digits? |>.bind fun found =>
    stripPrefix? (ascii " chars") found.2) = chars
  cases lines with
  | some rest => exact hway _ _ rest hlines
  | none =>
    cases chars with
    | some rest => exact hway _ _ rest hchars
    | none => exact Nat.le_refl _

theorem matchMarker_length {found : Nat × Nat} (h : matchMarker text = some found) :
    0 < found.1 ∧ found.1 ≤ text.length := by
  unfold matchMarker at h
  obtain ⟨rest, hopen, h⟩ := Option.bind_eq_some_iff.mp h
  obtain ⟨⟨digits, tail⟩, hdigits, h⟩ := Option.bind_eq_some_iff.mp h
  obtain ⟨last, hclose, h⟩ := Option.bind_eq_some_iff.mp h
  obtain rfl := Option.some.inj h
  have hrest := stripPrefix?_length hopen
  have htail := digits?_length hdigits
  have hsize := stripSize_length tail
  have hlast := stripPrefix?_length hclose
  have hbracket : (ascii "]").length = 1 := rfl
  dsimp only at hlast ⊢
  omega

theorem matchAll_bounds {skip : Nat} {marker : MarkerSpan} (h : marker ∈ matchAll skip index text) :
    marker.start < marker.stop ∧ marker.stop ≤ index + text.length := by
  induction text generalizing skip index with
  | nil => cases skip <;> cases h
  | cons c rest ih =>
    have hrest : ∀ skip, marker ∈ matchAll skip (index + 1) rest →
        marker.start < marker.stop ∧ marker.stop ≤ index + (c :: rest).length := by
      intro skip hmem
      have hbounds := ih hmem
      rw [List.length_cons]
      omega
    cases skip with
    | succ skip => exact hrest skip h
    | zero =>
      unfold matchAll at h
      cases hmatch : matchMarker (c :: rest) with
      | none =>
        rw [hmatch] at h
        exact hrest 0 h
      | some found =>
        rw [hmatch] at h
        rcases List.mem_cons.mp h with rfl | hmem
        · have hlength := matchMarker_length hmatch
          dsimp only
          omega
        · exact hrest _ hmem

theorem length_slice_natCast (text : Text) {a b : Nat} (hb : b ≤ text.length) :
    (slice text a b).length = b - a := by
  rw [slice, sliceIndex_natCast, sliceIndex_natCast, List.length_drop, List.length_take]
  omega

/-- What is true of the markers still to come, when the segments start at `index` and all
before `low` is taken: either nothing is taken twice, or the first one is being skipped. -/
def Taken (low index : Nat) (markers : List MarkerSpan) : Prop :=
  low ≤ index ∨ ∃ marker rest, markers = marker :: rest ∧ marker.start < index ∧ low ≤ marker.stop

theorem Taken.dropWhile (h : Taken low index markers) :
    Taken low index (markers.dropWhile fun marker => marker.stop ≤ index) := by
  rcases h with hlow | ⟨marker, rest, rfl, hstart, hstop⟩
  · exact .inl hlow
  · by_cases hbefore : marker.stop ≤ index
    · exact .inl (Nat.le_trans hstop hbefore)
    · rw [List.dropWhile_cons_of_neg (by simpa using hbefore)]
      exact .inr ⟨marker, rest, rfl, hstart, hstop⟩

theorem Taken.advance (h : Taken low index markers) (n : Nat) : Taken low (index + n) markers := by
  rcases h with hlow | ⟨marker, rest, rfl, hstart, hstop⟩
  · exact .inl (Nat.le_add_right_of_le hlow)
  · exact .inr ⟨marker, rest, rfl, Nat.lt_add_right n hstart, hstop⟩

theorem mergeMarkers_ordered {tail : Text}
    (hmarkers : ∀ marker ∈ markers, marker.start < marker.stop ∧ marker.stop ≤ text.length)
    (hsegments : Partition index tail segments) (htail : index + tail.length = text.length)
    (htaken : Taken low index markers) :
    Ordered low text.length (mergeMarkers text markers segments) := by
  induction segments generalizing low index tail markers with
  | nil =>
    have hempty : tail = [] := hsegments
    subst hempty
    show low ≤ text.length
    rcases htaken with hlow | ⟨marker, rest, rfl, _, hstop⟩
    · simpa using Nat.le_trans hlow (Nat.le_of_eq htail)
    · exact Nat.le_trans hstop (hmarkers marker List.mem_cons_self).2
  | cons seg rest ih =>
    obtain ⟨hindex, hne, after, htext, hrest⟩ := hsegments
    have hpos : 0 < seg.segment.length := List.length_pos_iff.mpr hne
    have hlen : index + seg.segment.length + after.length = text.length := by
      rw [← htail, htext, List.length_append, Nat.add_assoc]
    subst hindex
    have hsub := fun marker hmem => hmarkers marker (List.dropWhile_subset
      (fun marker : MarkerSpan => decide (marker.stop ≤ seg.index)) hmem)
    have hdrop := htaken.dropWhile
    unfold mergeMarkers
    dsimp only
    generalize markers.dropWhile (fun marker => decide (marker.stop ≤ seg.index)) = left at hsub hdrop
    -- a segment that is kept leaves nothing taken behind it
    have hpush : low ≤ seg.index → Ordered low text.length (seg :: mergeMarkers text left rest) :=
      fun hlow => ⟨hlow, ih hsub hrest hlen (.inl (Nat.le_refl _))⟩
    cases left with
    | nil =>
      rcases hdrop with hlow | ⟨marker, more, he, _⟩
      · exact hpush hlow
      · cases he
    | cons marker more =>
      dsimp only
      by_cases hinside : marker.start ≤ seg.index
      · rw [if_pos hinside]
        by_cases hfirst : seg.index = marker.start
        · rw [if_pos hfirst]
          have hbounds := hsub marker List.mem_cons_self
          refine ⟨?_, ?_⟩
          · rcases hdrop with hlow | ⟨marker', more', he, hstart, _⟩
            · exact Nat.le_trans hlow (Nat.le_of_eq hfirst)
            · cases he
              omega
          · dsimp only
            rw [length_slice_natCast text hbounds.2, Nat.add_sub_cancel' (by omega)]
            exact ih hsub hrest hlen (.inr ⟨marker, more, rfl, by omega, Nat.le_refl _⟩)
        · rw [if_neg hfirst]
          exact ih hsub hrest hlen (hdrop.advance _)
      · rw [if_neg hinside]
        rcases hdrop with hlow | ⟨marker', more', he, hstart, _⟩
        · exact hpush hlow
        · cases he
          omega

/-- Joining the markers keeps the segments disjoint and inside the text. -/
theorem segmentWithMarkers_ordered (text : Text) (baseSegmenter : Segmenter)
    (validIds : List Nat) :
    Ordered 0 text.length (segmentWithMarkers text baseSegmenter validIds) := by
  have hpartition := baseSegmenter.partition text
  unfold segmentWithMarkers
  dsimp only
  split
  · simpa using hpartition.ordered
  · apply mergeMarkers_ordered _ hpartition (Nat.zero_add _) (.inl (Nat.le_refl 0))
    intro marker hmem
    have hbounds := matchAll_bounds (List.mem_filter.mp hmem).1
    rw [Nat.zero_add] at hbounds
    exact hbounds

/-- The first segment is always kept: a marker at the start starts with it. -/
theorem segmentWithMarkers_ne_nil (htext : text ≠ []) (baseSegmenter : Segmenter)
    (validIds : List Nat) : segmentWithMarkers text baseSegmenter validIds ≠ [] := by
  have hpartition := baseSegmenter.partition text
  unfold segmentWithMarkers
  dsimp only
  cases hbase : baseSegmenter.segment text with
  | nil =>
    rw [hbase] at hpartition
    exact absurd hpartition htext
  | cons seg rest =>
    rw [hbase] at hpartition
    have hindex : seg.index = 0 := hpartition.1
    split
    · simp
    · unfold mergeMarkers
      dsimp only
      generalize ((matchAll 0 0 text).filter fun marker =>
        validIds.contains marker.id).dropWhile _ = left
      cases left with
      | nil => simp
      | cons marker more =>
        dsimp only
        by_cases hinside : marker.start ≤ seg.index
        · rw [if_pos hinside, if_pos (by omega)]
          simp
        · rw [if_neg hinside]
          simp

end PieLab.Tui

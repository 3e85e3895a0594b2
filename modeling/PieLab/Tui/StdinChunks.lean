import Mathlib.Data.List.GetD
import PieLab.Tui.StdinBuffer

/-
  Input in chunks

  A terminal may hand over its input in any pieces. Cutting a text into sequences is stable:
  what is complete in a piece of it stays complete. There are three exceptions, which make
  the events depend on the pieces:
    - a doubled ESC is taken as a key of its own, but behind the first ESC alone when the
      character that follows has come as well;
    - an escape sequence before a paste start ends in the bracket itself, when the bracket
      has not come as a whole;
    - an empty piece is an event where nothing is buffered.

  What is proved:
    1. `extract_append` — the sequences of a text are those of its first part, and those of
       what this left and the second part.
    2. `process_append` — a clean cut does not show.
    3. `chunks_agree_iff` — the events and what is buffered are those of a single call exactly
       when every cut is clean.
-/

open PieLab.Lib.Js

namespace PieLab.Tui.Stdin

/-! ## Sequences of a longer text -/

variable {remaining sequence rest more text : Text} {n i : Nat} {s : StdinBuffer}

theorem seqEnd?_eq_some :
    seqEnd? remaining = some n ↔ 1 ≤ n ∧ n ≤ remaining.length ∧
      isCompleteSequence (remaining.take n) ≠ .incomplete ∧
      ∀ m, 1 ≤ m → m < n → isCompleteSequence (remaining.take m) = .incomplete := by
  rw [seqEnd?, List.find?_range'_eq_some]
  simp only [List.mem_range'_1, decide_eq_true_eq, Bool.not_eq_true', decide_eq_false_iff_not,
    not_not, ne_eq]
  constructor
  · rintro ⟨hne, hmem, hall⟩
    exact ⟨hmem.1, by omega, hne, fun m hone hm => hall m hone hm⟩
  · rintro ⟨hone, hle, hne, hall⟩
    exact ⟨hne, by omega, fun m hone hm => hall m hone hm⟩

theorem seqEnd?_append (h : seqEnd? remaining = some n) (more : Text) :
    seqEnd? (remaining ++ more) = some n := by
  obtain ⟨hone, hle, hne, hall⟩ := seqEnd?_eq_some.1 h
  refine seqEnd?_eq_some.2 ⟨hone, by simp; omega, ?_, fun m hm hlt => ?_⟩
  · rwa [List.take_append_of_le_length hle]
  · rw [List.take_append_of_le_length (by omega)]
    exact hall m hm hlt

/-- Whether the next characters start a sequence behind a doubled ESC. -/
def Introduces (text : Text) : Prop := text.head?.any introducers.contains = true

theorem Introduces.append {text : Text} (h : Introduces text) (more : Text) :
    Introduces (text ++ more) := by
  cases text with
  | nil => simp [Introduces] at h
  | cons c rest => exact h

theorem nextSequence_append (h : nextSequence remaining = some (sequence, rest))
    (hcut : ¬ (rest = [] ∧ sequence = [esc, esc] ∧ Introduces more)) :
    nextSequence (remaining ++ more) = some (sequence, rest ++ more) := by
  cases remaining with
  | nil => cases h
  | cons c tail =>
    simp only [nextSequence, List.cons_append] at h ⊢
    by_cases hc : c = esc
    · rw [if_pos hc] at h ⊢
      obtain ⟨n, hn, hsplit⟩ := Option.map_eq_some_iff.1 h
      have hle := (seqEnd?_le hn).2
      have hmore : seqEnd? (c :: (tail ++ more)) = some n := seqEnd?_append hn more
      have htake : (c :: (tail ++ more)).take n = (c :: tail).take n :=
        @List.take_append_of_le_length _ (c :: tail) more n hle
      have hdrop : (c :: (tail ++ more)).drop n = (c :: tail).drop n ++ more :=
        @List.drop_append_of_le_length _ (c :: tail) more n hle
      simp only [hmore, Option.map_some, htake, hdrop]
      by_cases hdouble : isDoubledEscape ((c :: tail).take n) ((c :: tail).drop n) = true
      · rw [if_pos hdouble] at hsplit
        obtain ⟨rfl, rfl⟩ := Prod.mk.inj hsplit
        have hstill : isDoubledEscape ((c :: tail).take n) ((c :: tail).drop n ++ more) = true := by
          simp only [isDoubledEscape, Bool.and_eq_true] at hdouble ⊢
          exact ⟨hdouble.1, Introduces.append hdouble.2 more⟩
        rw [if_pos hstill]
      · rw [if_neg hdouble] at hsplit
        obtain ⟨rfl, rfl⟩ := Prod.mk.inj hsplit
        have hstill :
            ¬ isDoubledEscape ((c :: tail).take n) ((c :: tail).drop n ++ more) = true := by
          intro hdoubled
          simp only [isDoubledEscape, Bool.and_eq_true, beq_iff_eq] at hdouble hdoubled
          cases hrest : (c :: tail).drop n with
          | nil => exact hcut ⟨hrest, hdoubled.1, by simpa [hrest, Introduces] using hdoubled.2⟩
          | cons d after => exact hdouble ⟨hdoubled.1, by simpa [hrest] using hdoubled.2⟩
        rw [if_neg hstill]
    · rw [if_neg hc] at h ⊢
      obtain ⟨rfl, rfl⟩ := Prod.mk.inj (Option.some.inj h)
      rfl

theorem nextSequence_doubled (h : nextSequence remaining = some ([esc, esc], []))
    (hmore : Introduces more) : nextSequence (remaining ++ more) = some ([esc], esc :: more) := by
  obtain rfl : [esc, esc] = remaining := by simpa using (nextSequence_split h).2
  have hend : seqEnd? [esc, esc] = some 2 := by decide
  have hmoreEnd := seqEnd?_append hend more
  have hdouble : isDoubledEscape [esc, esc] more = true := by
    simp only [isDoubledEscape, Bool.and_eq_true]
    exact ⟨by decide, hmore⟩
  simp only [List.cons_append, List.nil_append] at hmoreEnd ⊢
  simp [nextSequence, hmoreEnd, hdouble]

theorem extractLoop_fuel {fuel fuel' : Nat} (h : remaining.length ≤ fuel)
    (h' : remaining.length ≤ fuel') : extractLoop fuel remaining = extractLoop fuel' remaining := by
  induction fuel generalizing fuel' remaining with
  | zero =>
    obtain rfl : remaining = [] := List.length_eq_zero_iff.1 (by omega)
    cases fuel' <;> rfl
  | succ fuel ih =>
    cases fuel' with
    | zero =>
      obtain rfl : remaining = [] := List.length_eq_zero_iff.1 (by omega)
      rfl
    | succ fuel' =>
      rw [extractLoop, extractLoop]
      cases hnext : nextSequence remaining with
      | none => rfl
      | some cut =>
        obtain ⟨hne, hsplit⟩ := nextSequence_split hnext
        have hlength := congrArg List.length hsplit
        have hpos := List.length_pos_iff.2 hne
        rw [List.length_append] at hlength
        have hrest : extractLoop fuel cut.2 = extractLoop fuel' cut.2 := ih (by omega) (by omega)
        simp only [hrest]

theorem extract_none (h : nextSequence remaining = none) :
    extractCompleteSequences remaining = ([], remaining) := by
  rw [extractCompleteSequences]
  cases remaining.length with
  | zero => rfl
  | succ fuel => rw [extractLoop, h]

theorem extract_some (h : nextSequence remaining = some (sequence, rest)) :
    extractCompleteSequences remaining =
      (sequence :: (extractCompleteSequences rest).1, (extractCompleteSequences rest).2) := by
  obtain ⟨hne, hsplit⟩ := nextSequence_split h
  have hlength := congrArg List.length hsplit
  have hpos := List.length_pos_iff.2 hne
  rw [List.length_append] at hlength
  obtain ⟨fuel, hfuel⟩ : ∃ fuel, remaining.length = fuel + 1 := ⟨remaining.length - 1, by omega⟩
  rw [extractCompleteSequences, hfuel, extractLoop, h, extractCompleteSequences]
  have henough : extractLoop fuel rest = extractLoop rest.length rest :=
    extractLoop_fuel (by omega) (Nat.le_refl _)
  simp only [henough]

@[simp] theorem extract_nil : extractCompleteSequences [] = ([], []) := rfl

theorem nextSequence_remainder (text : Text) :
    nextSequence (extractCompleteSequences text).2 = none := by
  induction hlength : text.length using Nat.strongRecOn generalizing text with
  | _ n ih =>
    cases hnext : nextSequence text with
    | none => rw [extract_none hnext, hnext]
    | some cut =>
      obtain ⟨hne, hsplit⟩ := nextSequence_split hnext
      have hsum := congrArg List.length hsplit
      have hpos := List.length_pos_iff.2 hne
      rw [List.length_append] at hsum
      rw [extract_some hnext]
      exact ih cut.2.length (by omega) cut.2 rfl

/-- The text ends in a doubled ESC, and a sequence starts behind it. -/
def SplitsEscapes (text more : Text) : Prop :=
  (extractCompleteSequences text).2 = [] ∧
    (extractCompleteSequences text).1.getLast? = some [esc, esc] ∧ Introduces more

theorem splitsEscapes_rest (h : nextSequence text = some (sequence, rest)) (hrest : rest ≠ []) :
    SplitsEscapes text more ↔ SplitsEscapes rest more := by
  rw [SplitsEscapes, extract_some h, SplitsEscapes]
  refine and_congr_right fun hleft => ?_
  -- with nothing left over, the rest has a sequence of its own
  have hsome : (extractCompleteSequences rest).1 ≠ [] := by
    intro hnone
    have htext := extractCompleteSequences_text rest
    rw [hleft, hnone] at htext
    exact hrest htext.symm
  rw [List.getLast?_cons_of_ne_nil hsome]

/-- The sequences of a longer text: those of its first part, and those of what is left of it with
the second part. -/
theorem extract_append {text more : Text} (h : ¬ SplitsEscapes text more) :
    extractCompleteSequences (text ++ more) =
      ((extractCompleteSequences text).1 ++
          (extractCompleteSequences ((extractCompleteSequences text).2 ++ more)).1,
        (extractCompleteSequences ((extractCompleteSequences text).2 ++ more)).2) := by
  induction hlength : text.length using Nat.strongRecOn generalizing text with
  | _ n ih =>
    cases hnext : nextSequence text with
    | none => simp [extract_none hnext]
    | some cut =>
      obtain ⟨sequence, rest⟩ := cut
      obtain ⟨hne, hsplit⟩ := nextSequence_split hnext
      have hsum := congrArg List.length hsplit
      have hpos := List.length_pos_iff.2 hne
      rw [List.length_append] at hsum
      have hlonger : nextSequence (text ++ more) = some (sequence, rest ++ more) := by
        refine nextSequence_append hnext fun ⟨hrest, hdoubled, hmore⟩ => h ?_
        subst hrest hdoubled
        simp [SplitsEscapes, extract_some hnext, hmore]
      have hshort : ¬ SplitsEscapes rest more := by
        by_cases hrest : rest = []
        · subst hrest
          simp [SplitsEscapes]
        · rwa [← splitsEscapes_rest hnext hrest]
      rw [extract_some hlonger, extract_some hnext, ih rest.length (by omega) hshort rfl]
      simp

theorem extract_append_split (h : SplitsEscapes text more) :
    ∃ later, (extractCompleteSequences (text ++ more)).1 =
      (extractCompleteSequences text).1.dropLast ++ [esc] :: later := by
  induction hlength : text.length using Nat.strongRecOn generalizing text with
  | _ n ih =>
    cases hnext : nextSequence text with
    | none => simp [SplitsEscapes, extract_none hnext] at h
    | some cut =>
      obtain ⟨sequence, rest⟩ := cut
      obtain ⟨hne, hsplit⟩ := nextSequence_split hnext
      have hsum := congrArg List.length hsplit
      have hpos := List.length_pos_iff.2 hne
      rw [List.length_append] at hsum
      by_cases hrest : rest = []
      · subst hrest
        have hdoubled : sequence = [esc, esc] := by
          simpa [extract_some hnext] using h.2.1
        subst hdoubled
        refine ⟨(extractCompleteSequences (esc :: more)).1, ?_⟩
        rw [extract_some (nextSequence_doubled hnext h.2.2), extract_some hnext]
        rfl
      · have hshort := (splitsEscapes_rest hnext hrest).1 h
        obtain ⟨later, hlater⟩ := ih rest.length (by omega) hshort rfl
        refine ⟨later, ?_⟩
        have hsome : (extractCompleteSequences rest).1 ≠ [] := by
          intro hnone
          have hlast := hshort.2.1
          rw [hnone] at hlast
          cases hlast
        have hlonger : nextSequence (text ++ more) = some (sequence, rest ++ more) :=
          nextSequence_append hnext fun hcut => hrest hcut.1
        rw [extract_some hlonger, extract_some hnext, hlater, List.dropLast_cons_of_ne_nil hsome]
        rfl

/-! ## Where a text stands between its brackets -/

/-- Whether the text ends inside a paste, and what has come since the last bracket. -/
def openPart : Nat → Bool → Text → Bool × Text
  | 0, inPaste, text => (inPaste, text)
  | fuel + 1, false, text =>
    match Lib.Js.indexOf text bracketedPasteStart 0 with
    | none => (false, text)
    | some i => openPart fuel true (text.drop (i + bracketedPasteStart.length))
  | fuel + 1, true, text =>
    match Lib.Js.indexOf text bracketedPasteEnd 0 with
    | none => (true, text)
    | some i => openPart fuel false (text.drop (i + bracketedPasteEnd.length))

/-- What `process` does with a text from such a place on. -/
def resume : Bool × Text → StdinBuffer × List Delivery
  | (true, text) => finishPaste process ⟨[], true, text, none⟩
  | (false, text) => if text = [] then (.new, []) else process .new text

def prepend (first : List Delivery) (result : StdinBuffer × List Delivery) :
    StdinBuffer × List Delivery :=
  (result.1, first ++ result.2)

theorem prepend_prepend (first second : List Delivery) (result : StdinBuffer × List Delivery) :
    prepend first (prepend second result) = prepend (first ++ second) result := by
  simp [prepend]

@[simp] theorem emitted_append (before after : List Delivery) :
    emitted (before ++ after) = emitted before ++ emitted after :=
  List.filterMap_append

theorem emitSequences_frame {s t : StdinBuffer}
    (h : s.pendingKittyPrintableCodepoint = t.pendingKittyPrintableCodepoint)
    (sequences : List Text) :
    (emitSequences s sequences).2 = (emitSequences t sequences).2 ∧
      (emitSequences s sequences).1.pendingKittyPrintableCodepoint =
        (emitSequences t sequences).1.pendingKittyPrintableCodepoint := by
  induction sequences generalizing s t with
  | nil => exact ⟨rfl, h⟩
  | cons sequence rest ih =>
    have hduplicate : isDuplicate s sequence = isDuplicate t sequence := by
      simp only [isDuplicate, h]
    have hfirst : (emitDataSequence s sequence).2 = (emitDataSequence t sequence).2 ∧
        (emitDataSequence s sequence).1.pendingKittyPrintableCodepoint =
          (emitDataSequence t sequence).1.pendingKittyPrintableCodepoint := by
      rw [emitDataSequence, emitDataSequence, hduplicate]
      split <;> exact ⟨rfl, rfl⟩
    obtain ⟨hrest, hpending⟩ := ih hfirst.2
    exact ⟨by simp only [emitSequences, hfirst.1, hrest], hpending⟩

theorem emitSequences_rebuffer {buffer : Text} {pending pending' : Option Nat}
    {sequences : List Text} {deliveries : List Delivery}
    (h : emitSequences ⟨buffer, false, [], pending⟩ sequences =
      (⟨buffer, false, [], pending'⟩, deliveries)) (buffer' : Text) :
    emitSequences ⟨buffer', false, [], pending⟩ sequences =
      (⟨buffer', false, [], pending'⟩, deliveries) := by
  obtain ⟨last, hstate⟩ := emitSequences_state ⟨buffer', false, [], pending⟩ sequences
  obtain ⟨hsame, hpending⟩ := @emitSequences_frame ⟨buffer', false, [], pending⟩
    ⟨buffer, false, [], pending⟩ rfl sequences
  rw [h] at hsame hpending
  rw [hstate] at hpending
  obtain rfl : last = pending' := hpending
  exact Prod.ext hstate hsame

theorem emitSequences_append (s : StdinBuffer) (before after : List Text) :
    emitSequences s (before ++ after) =
      prepend (emitSequences s before).2 (emitSequences (emitSequences s before).1 after) := by
  induction before generalizing s with
  | nil => rfl
  | cons sequence rest ih => simp [emitSequences, ih, prepend]

theorem process_held {buffer str : Text} (pending : Option Nat) (h : ¬ (str = [] ∧ buffer = [])) :
    process ⟨buffer, false, [], pending⟩ str =
      process ⟨[], false, [], pending⟩ (buffer ++ str) := by
  have hnonempty : ¬ (buffer ++ str = [] ∧ ([] : Text) = []) := by
    simp only [List.append_eq_nil_iff, and_true]
    tauto
  rw [process_eq, process_eq, processWith, processWith, if_neg h, if_neg hnonempty]
  rfl

theorem process_outside (pending : Option Nat) (htext : text ≠ [])
    (h : Lib.Js.indexOf text bracketedPasteStart 0 = none) :
    process ⟨[], false, [], pending⟩ text =
      emitSequences ⟨(extractCompleteSequences text).2, false, [], pending⟩
        (extractCompleteSequences text).1 := by
  rw [process_eq, processWith, if_neg (fun hempty => htext hempty.1)]
  simp only [List.nil_append, Bool.false_eq_true, if_false, h]

theorem process_start (pending : Option Nat)
    (h : Lib.Js.indexOf text bracketedPasteStart 0 = some i) :
    process ⟨[], false, [], pending⟩ text =
      prepend (emitSequences ⟨[], false, [], pending⟩ (extractCompleteSequences (text.take i)).1).2
        (resume (true, text.drop (i + bracketedPasteStart.length))) := by
  have htext : text ≠ [] := by
    intro hnil
    rw [hnil, indexOf_nil bracketedPasteStart_ne_nil] at h
    cases h
  rw [process_eq, processWith, if_neg (fun hempty => htext hempty.1)]
  obtain ⟨pending', hemit⟩ := emitSequences_state ⟨text, false, [], pending⟩
    (extractCompleteSequences (text.take i)).1
  have hframe := (@emitSequences_frame ⟨[], false, [], pending⟩ ⟨text, false, [], pending⟩ rfl
    (extractCompleteSequences (text.take i)).1).1
  simp only [List.nil_append, Bool.false_eq_true, if_false, h, hemit, hframe]
  rfl

theorem resume_paste (h : Lib.Js.indexOf text bracketedPasteEnd 0 = some i) :
    resume (true, text) = prepend [.event (.paste (text.take i))]
      (resume (false, text.drop (i + bracketedPasteEnd.length))) := by
  simp only [resume, finishPaste, h]
  rfl

theorem resume_open (h : Lib.Js.indexOf text bracketedPasteEnd 0 = none) :
    resume (true, text) = (⟨[], true, text, none⟩, []) := by
  simp only [resume, finishPaste, h]

/-! ## Back to the last bracket -/

theorem extract_ne_nil {text sequence : Text}
    (h : sequence ∈ (extractCompleteSequences text).1) : sequence ≠ [] := by
  induction hlength : text.length using Nat.strongRecOn generalizing text with
  | _ n ih =>
    cases hnext : nextSequence text with
    | none => simp [extract_none hnext] at h
    | some cut =>
      obtain ⟨hne, hsplit⟩ := nextSequence_split hnext
      have hsum := congrArg List.length hsplit
      have hpos := List.length_pos_iff.2 hne
      rw [List.length_append] at hsum
      rw [extract_some hnext] at h
      rcases List.mem_cons.1 h with rfl | hrest
      · exact hne
      · exact ih cut.2.length (by omega) hrest rfl

theorem mem_emitSequences {sequences : List Text} {event : Event}
    (h : event ∈ emitted (emitSequences s sequences).2) :
    ∃ sequence ∈ sequences, event = .data sequence := by
  induction sequences generalizing s with
  | nil => cases h
  | cons sequence rest ih =>
    have hsplit : emitted (emitSequences s (sequence :: rest)).2 =
        emitted [(emitDataSequence s sequence).2] ++
          emitted (emitSequences (emitDataSequence s sequence).1 rest).2 :=
      emitted_append [_] _
    rw [hsplit, List.mem_append] at h
    rcases h with hfirst | hrest
    · refine ⟨sequence, List.mem_cons_self, ?_⟩
      rw [emitDataSequence] at hfirst
      split at hfirst
      · cases hfirst
      · simpa [emitted] using hfirst
    · obtain ⟨later, hlater, hevent⟩ := ih hrest
      exact ⟨later, List.mem_cons_of_mem _ hlater, hevent⟩

theorem no_empty_event (s : StdinBuffer) (text : Text) :
    .data [] ∉ emitted (emitSequences s (extractCompleteSequences text).1).2 := by
  intro h
  obtain ⟨sequence, hmem, hevent⟩ := mem_emitSequences h
  exact extract_ne_nil hmem (by cases hevent; rfl)

theorem resume_openPart (fuel : Nat) (inPaste : Bool) (text : Text) (hlength : text.length < fuel) :
    let part := openPart fuel inPaste text
    Lib.Js.indexOf part.2 (if part.1 then bracketedPasteEnd else bracketedPasteStart) 0 = none ∧
    ∃ first, .data [] ∉ emitted first ∧ ∀ more,
      resume (inPaste, text ++ more) = prepend first (resume (part.1, part.2 ++ more)) := by
  induction fuel generalizing inPaste text with
  | zero => omega
  | succ fuel ih =>
    cases inPaste with
    | false =>
      cases hstart : Lib.Js.indexOf text bracketedPasteStart 0 with
      | none =>
        have hpart : openPart (fuel + 1) false text = (false, text) := by simp [openPart, hstart]
        rw [hpart]
        exact ⟨hstart, [], by simp [emitted], fun more => rfl⟩
      | some i =>
        have hpart : openPart (fuel + 1) false text =
            openPart fuel true (text.drop (i + bracketedPasteStart.length)) := by
          simp [openPart, hstart]
        have hend := indexOf_zero_end hstart
        have hsix : bracketedPasteStart.length = 6 := rfl
        obtain ⟨hno, first, hempty, hall⟩ :=
          ih true (text.drop (i + bracketedPasteStart.length)) (by simp; omega)
        rw [hpart]
        refine ⟨hno, (emitSequences .new (extractCompleteSequences (text.take i)).1).2 ++ first,
          ?_, fun more => ?_⟩
        · simp [hempty, no_empty_event]
        · have hmore := indexOf_zero_append hstart more
          have hne : text ++ more ≠ [] := by
            intro hnil
            have hlen := congrArg List.length hnil
            rw [List.length_append, List.length_nil] at hlen
            omega
          rw [← prepend_prepend, ← hall more, ← List.drop_append_of_le_length hend,
            ← @List.take_append_of_le_length _ text more i (by omega)]
          have hresume : resume (false, text ++ more) = process .new (text ++ more) := if_neg hne
          rw [hresume]
          exact process_start none hmore
    | true =>
      cases hend : Lib.Js.indexOf text bracketedPasteEnd 0 with
      | none =>
        have hpart : openPart (fuel + 1) true text = (true, text) := by simp [openPart, hend]
        rw [hpart]
        exact ⟨hend, [], by simp [emitted], fun more => rfl⟩
      | some i =>
        have hpart : openPart (fuel + 1) true text =
            openPart fuel false (text.drop (i + bracketedPasteEnd.length)) := by
          simp [openPart, hend]
        have hle := indexOf_zero_end hend
        have hsix : bracketedPasteEnd.length = 6 := rfl
        obtain ⟨hno, first, hempty, hall⟩ :=
          ih false (text.drop (i + bracketedPasteEnd.length)) (by simp; omega)
        rw [hpart]
        refine ⟨hno, [.event (.paste (text.take i))] ++ first, ?_, fun more => ?_⟩
        · simp only [emitted_append, List.mem_append, not_or]
          exact ⟨by simp [emitted], hempty⟩
        · rw [← prepend_prepend, ← hall more, ← List.drop_append_of_le_length hle,
            resume_paste (indexOf_zero_append hend more),
            List.take_append_of_le_length (show i ≤ text.length by omega)]

/-! ## Clean cuts -/

/-- A paste start that the cut goes through, where the piece of it in front of the cut ends the
escape sequence unfinished before it. -/
def CutsStart (text more : Text) : Prop :=
  ∃ i, Lib.Js.indexOf (text ++ more) bracketedPasteStart 0 = some i ∧ i < text.length ∧
    (extractCompleteSequences text).2 ≠
      (extractCompleteSequences (text.take i)).2 ++ text.drop i

/-- The cut between the text since the last bracket and what follows: an empty piece comes while
something is buffered, no doubled ESC is split, and no paste start is cut behind something
unfinished. -/
def CleanPart (part : Bool × Text) (more : Text) : Prop :=
  if part.1 then more ≠ []
  else (more = [] → (extractCompleteSequences part.2).2 ≠ []) ∧
    ¬ SplitsEscapes part.2 more ∧ ¬ CutsStart part.2 more

def CleanCut (text more : Text) : Prop :=
  text ≠ [] ∧ CleanPart (openPart (text.length + 1) false text) more

/-- The calls go on with a chunk. -/
def andThen (result : StdinBuffer × List Delivery) (str : Text) : StdinBuffer × List Delivery :=
  prepend result.2 (process result.1 str)

theorem esc_of_start (hrest : rest ≠ []) (h : bracketedPasteStart <+: rest ++ more) :
    ∃ tail, rest = esc :: tail := by
  cases rest with
  | nil => exact absurd rfl hrest
  | cons c tail =>
    have hfirst := (List.cons_prefix_cons.1 h).1
    exact ⟨tail, by rw [hfirst]⟩

theorem not_introduces_esc (tail : Text) : ¬ Introduces (esc :: tail) := by
  simp [Introduces]
  decide

theorem Introduces.of_take (h : Introduces (more.take n)) : Introduces more := by
  rw [← List.take_append_drop n more]
  exact h.append _

theorem extract_straddled (hstart : Lib.Js.indexOf (text ++ more) bracketedPasteStart 0 = some i)
    (hi : i < text.length) :
    (∃ tail, text.drop i = esc :: tail) ∧
    extractCompleteSequences text =
      ((extractCompleteSequences (text.take i)).1 ++
          (extractCompleteSequences
            ((extractCompleteSequences (text.take i)).2 ++ text.drop i)).1,
        (extractCompleteSequences
          ((extractCompleteSequences (text.take i)).2 ++ text.drop i)).2) := by
  have hprefix := (indexOf_zero_eq_some.1 hstart).2.1
  rw [List.drop_append_of_le_length (Nat.le_of_lt hi)] at hprefix
  have hne : text.drop i ≠ [] := by simp; omega
  obtain ⟨tail, htail⟩ := esc_of_start hne hprefix
  refine ⟨⟨tail, htail⟩, ?_⟩
  have happend := @extract_append (text.take i) (text.drop i) (fun hsplit => by
    rw [htail] at hsplit
    exact not_introduces_esc tail hsplit.2.2)
  rwa [List.take_append_drop] at happend

theorem extract_before_start (hstart : Lib.Js.indexOf (text ++ more) bracketedPasteStart 0 = some i)
    (hsplit : ¬ SplitsEscapes text more) (hcut : ¬ CutsStart text more) :
    let taken := (extractCompleteSequences text).1.flatten.length
    let left := ((extractCompleteSequences text).2 ++ more).take (i - taken)
    taken ≤ i ∧ (extractCompleteSequences ((text ++ more).take i)).1 =
      (extractCompleteSequences text).1 ++ (extractCompleteSequences left).1 := by
  have htext := extractCompleteSequences_text text
  have hlength := congrArg List.length htext
  rw [List.length_append] at hlength
  dsimp only
  by_cases hi : i < text.length
  · obtain ⟨_, hextract⟩ := extract_straddled hstart hi
    have hleft : (extractCompleteSequences text).2 =
        (extractCompleteSequences (text.take i)).2 ++ text.drop i := by
      by_contra hne
      exact hcut ⟨i, hstart, hi, hne⟩
    -- nothing ends in the bracket
    have hnone : (extractCompleteSequences
        ((extractCompleteSequences (text.take i)).2 ++ text.drop i)).1 = [] := by
      rw [← hleft, extract_none (nextSequence_remainder text)]
    have hfirst : (extractCompleteSequences text).1 =
        (extractCompleteSequences (text.take i)).1 := by
      rw [hextract, hnone, List.append_nil]
    have hbefore := congrArg List.length (extractCompleteSequences_text (text.take i))
    rw [List.length_append, List.length_take, Nat.min_eq_left (Nat.le_of_lt hi)] at hbefore
    have hremaining : i - (extractCompleteSequences text).1.flatten.length =
        (extractCompleteSequences (text.take i)).2.length := by
      rw [hfirst]
      omega
    refine ⟨by rw [hfirst]; omega, ?_⟩
    rw [hremaining, hleft, List.append_assoc, List.take_left,
      extract_none (nextSequence_remainder _), List.take_append_of_le_length (Nat.le_of_lt hi),
      hfirst, List.append_nil]
  · have htake : (text ++ more).take i = text ++ more.take (i - text.length) := by
      rw [List.take_append, List.take_of_length_le (by omega)]
    have hleft : ((extractCompleteSequences text).2 ++ more).take
        (i - (extractCompleteSequences text).1.flatten.length) =
          (extractCompleteSequences text).2 ++ more.take (i - text.length) := by
      rw [List.take_append, List.take_of_length_le (by omega)]
      congr 2
      omega
    rw [htake, hleft, extract_append fun h => hsplit ⟨h.1, h.2.1, h.2.2.of_take⟩]
    exact ⟨by omega, rfl⟩

theorem process_append_outside (hno : Lib.Js.indexOf text bracketedPasteStart 0 = none)
    (hnonempty : ¬ (more = [] ∧ (extractCompleteSequences text).2 = []))
    (hsplit : ¬ SplitsEscapes text more) (hcut : ¬ CutsStart text more) :
    resume (false, text ++ more) = andThen (resume (false, text)) more := by
  have htext := extractCompleteSequences_text text
  have hfirst : resume (false, text) =
      emitSequences ⟨(extractCompleteSequences text).2, false, [], none⟩
        (extractCompleteSequences text).1 := by
    by_cases hnil : text = []
    · subst hnil
      rfl
    · exact (if_neg hnil).trans (process_outside none hnil hno)
  have hne : text ++ more ≠ [] := by
    intro hnil
    obtain ⟨rfl, rfl⟩ := List.append_eq_nil_iff.1 hnil
    exact hnonempty ⟨rfl, rfl⟩
  have hleftne : (extractCompleteSequences text).2 ++ more ≠ [] := by
    intro hnil
    obtain ⟨hleft, rfl⟩ := List.append_eq_nil_iff.1 hnil
    exact hnonempty ⟨rfl, hleft⟩
  obtain ⟨pending, hstate⟩ := emitSequences_state
    ⟨(extractCompleteSequences text).2, false, [], none⟩ (extractCompleteSequences text).1
  have hwhole : resume (false, text ++ more) = process ⟨[], false, [], none⟩ (text ++ more) :=
    if_neg hne
  have hemit := @Prod.ext _ _ (emitSequences ⟨(extractCompleteSequences text).2, false, [], none⟩
    (extractCompleteSequences text).1) (_, _) hstate rfl
  have hdrop : text ++ more = (extractCompleteSequences text).1.flatten ++
      ((extractCompleteSequences text).2 ++ more) := by
    rw [← List.append_assoc, htext]
  rw [hwhole, andThen, hfirst, hstate, process_held pending hnonempty]
  cases hstart : Lib.Js.indexOf (text ++ more) bracketedPasteStart 0 with
  | none =>
    have hlater := hstart
    rw [hdrop] at hlater
    rw [process_outside none hne hstart, process_outside pending hleftne
      (indexOf_zero_none_of_append hlater), extract_append hsplit, emitSequences_append,
      emitSequences_rebuffer hemit]
  | some i =>
    obtain ⟨hle, hbefore⟩ := extract_before_start hstart hsplit hcut
    have hlater := hstart
    rw [hdrop] at hlater
    have hrest : (text ++ more).drop (i + bracketedPasteStart.length) =
        ((extractCompleteSequences text).2 ++ more).drop
          (i - (extractCompleteSequences text).1.flatten.length + bracketedPasteStart.length) := by
      rw [hdrop, List.drop_append, List.drop_eq_nil_of_le (by omega), List.nil_append]
      congr 1
      omega
    rw [process_start none hstart, process_start pending (indexOf_zero_of_append hlater hle),
      hbefore, emitSequences_append, emitSequences_rebuffer hemit, hrest, prepend_prepend]
    rfl

theorem process_inside (hmore : more ≠ []) (hno : Lib.Js.indexOf text bracketedPasteEnd 0 = none) :
    resume (true, text ++ more) = andThen (resume (true, text)) more := by
  rw [resume_open hno, andThen, process_eq, processWith, if_neg fun hempty => hmore hempty.1]
  rfl

theorem resume_eq_process (h : text ≠ []) : resume (false, text) = process .new text :=
  if_neg h

theorem andThen_prepend (first : List Delivery) (result : StdinBuffer × List Delivery)
    (str : Text) : andThen (prepend first result) str = prepend first (andThen result str) := by
  simp [andThen, prepend]

/-- A clean cut does not show: two calls do what one call does. -/
theorem process_append (h : CleanCut text more) :
    process .new (text ++ more) = andThen (process .new text) more := by
  obtain ⟨hne, hclean⟩ := h
  obtain ⟨hno, first, _, hall⟩ := resume_openPart (text.length + 1) false text (by omega)
  have hwhole : text ++ more ≠ [] := fun hnil => hne (List.append_eq_nil_iff.1 hnil).1
  have hpart := hall []
  rw [List.append_nil, List.append_nil] at hpart
  rw [← resume_eq_process hwhole, ← resume_eq_process hne, hall more, hpart, andThen_prepend]
  congr 1
  generalize openPart (text.length + 1) false text = part at hclean hno
  obtain ⟨inPaste, rest⟩ := part
  cases inPaste with
  | true => exact process_inside (by simpa [CleanPart] using hclean) hno
  | false =>
    simp only [CleanPart, Bool.false_eq_true, if_false] at hclean
    obtain ⟨hheld, hsplit, hcut⟩ := hclean
    exact process_append_outside hno (fun hempty => hheld hempty.1 hempty.2) hsplit hcut

/-! ## Cuts that show -/

theorem parse_printable {c : Nat} (h : parseUnmodifiedKittyPrintableCodepoint sequence = some c) :
    32 ≤ c := by
  simp only [parseUnmodifiedKittyPrintableCodepoint, Option.bind_eq_bind,
    Option.bind_eq_some_iff] at h
  obtain ⟨_, _, _, _, h⟩ := h
  split at h
  · rename_i hprintable
    obtain rfl := Option.some.inj h
    exact hprintable.2
  · cases h

theorem pending_ne_esc (h : s.pendingKittyPrintableCodepoint ≠ some 27) (sequences : List Text) :
    (emitSequences s sequences).1.pendingKittyPrintableCodepoint ≠ some 27 := by
  induction sequences generalizing s with
  | nil => exact h
  | cons sequence rest ih =>
    have hnext : (emitDataSequence s sequence).1.pendingKittyPrintableCodepoint ≠ some 27 := by
      rw [emitDataSequence]
      split
      · simp
      · intro hparse
        have := parse_printable hparse
        omega
    exact ih hnext

theorem emitted_esc {s : StdinBuffer} (h : s.pendingKittyPrintableCodepoint ≠ some 27)
    (tail : Text) (rest : List Text) : ∃ later,
      emitted (emitSequences s ((esc :: tail) :: rest)).2 = .data (esc :: tail) :: later := by
  have hnot : isDuplicate s (esc :: tail) = false := by
    cases tail with
    | nil => simpa [isDuplicate, esc] using h
    | cons => rfl
  refine ⟨emitted (emitSequences (emitDataSequence s (esc :: tail)).1 rest).2, ?_⟩
  have hdata : (emitDataSequence s (esc :: tail)).2 = .event (.data (esc :: tail)) := by
    rw [emitDataSequence, hnot]
    rfl
  rw [emitSequences]
  simp only [hdata]
  rfl

theorem emitted_resume_true (text : Text) :
    emitted (resume (true, text)).2 = [] ∨
      ∃ content later, emitted (resume (true, text)).2 = .paste content :: later := by
  cases hend : Lib.Js.indexOf text bracketedPasteEnd 0 with
  | none => exact .inl (by rw [resume_open hend]; rfl)
  | some i => exact .inr ⟨_, _, by rw [resume_paste hend]; rfl⟩

theorem resume_outside (hno : Lib.Js.indexOf text bracketedPasteStart 0 = none) :
    resume (false, text) = emitSequences ⟨(extractCompleteSequences text).2, false, [], none⟩
      (extractCompleteSequences text).1 := by
  by_cases hnil : text = []
  · subst hnil
    rfl
  · exact (if_neg hnil).trans (process_outside none hnil hno)

theorem emitted_outside (hno : Lib.Js.indexOf text bracketedPasteStart 0 = none) :
    emitted (resume (false, text)).2 =
      emitted (emitSequences .new (extractCompleteSequences text).1).2 := by
  rw [resume_outside hno]
  exact congrArg emitted (@emitSequences_frame ⟨(extractCompleteSequences text).2, false, [], none⟩
    .new rfl _).1

theorem emitted_start (h : Lib.Js.indexOf text bracketedPasteStart 0 = some i) :
    emitted (resume (false, text)).2 =
      emitted (emitSequences .new (extractCompleteSequences (text.take i)).1).2 ++
        emitted (resume (true, text.drop (i + bracketedPasteStart.length))).2 := by
  have hne : text ≠ [] := by
    rintro rfl
    rw [indexOf_nil bracketedPasteStart_ne_nil] at h
    cases h
  rw [resume_eq_process hne, StdinBuffer.new, process_start none h]
  exact emitted_append _ _

theorem extract_esc {tail : Text} {rest : List Text}
    (h : (extractCompleteSequences (esc :: tail)).1 = sequence :: rest) :
    ∃ more, sequence = esc :: more := by
  have hne : sequence ≠ [] := @extract_ne_nil (esc :: tail) sequence (by rw [h]; simp)
  have htext := extractCompleteSequences_text (esc :: tail)
  rw [h] at htext
  cases sequence with
  | nil => exact absurd rfl hne
  | cons c more => exact ⟨more, by rw [(List.cons.inj htext).1]⟩

theorem remainder_esc (h : (extractCompleteSequences text).2 ≠ []) :
    ∃ tail, (extractCompleteSequences text).2 = esc :: tail := by
  have hnone := nextSequence_remainder text
  cases hleft : (extractCompleteSequences text).2 with
  | nil => exact absurd hleft h
  | cons c tail =>
    rw [hleft, nextSequence] at hnone
    by_cases hc : c = esc
    · exact ⟨tail, by rw [hc]⟩
    · rw [if_neg hc] at hnone
      cases hnone

theorem straddled_diverges (hno : Lib.Js.indexOf text bracketedPasteStart 0 = none)
    (hstart : Lib.Js.indexOf (text ++ more) bracketedPasteStart 0 = some i) (hi : i < text.length)
    (hne : (extractCompleteSequences text).2 ≠
      (extractCompleteSequences (text.take i)).2 ++ text.drop i) :
    ¬ emitted (resume (false, text)).2 <+: emitted (resume (false, text ++ more)).2 := by
  obtain ⟨⟨tail, htail⟩, hextract⟩ := extract_straddled hstart hi
  -- what is left of the first part and the piece of the bracket start with ESC
  obtain ⟨body, hbody⟩ : ∃ body,
      (extractCompleteSequences (text.take i)).2 ++ text.drop i = esc :: body := by
    by_cases hleft : (extractCompleteSequences (text.take i)).2 = []
    · exact ⟨tail, by rw [hleft, htail]; rfl⟩
    · obtain ⟨rest, hrest⟩ := remainder_esc hleft
      exact ⟨rest ++ text.drop i, by rw [hrest]; rfl⟩
  cases hsome : (extractCompleteSequences (esc :: body)).1 with
  | nil =>
    refine absurd ?_ hne
    have htext := extractCompleteSequences_text (esc :: body)
    rw [hsome] at htext
    rw [hextract, hbody]
    exact htext
  | cons sequence rest =>
    obtain ⟨sequence, rfl⟩ := extract_esc hsome
    rw [emitted_outside hno, emitted_start hstart, hextract, hbody, hsome, emitSequences_append,
      prepend, emitted_append, List.take_append_of_le_length (Nat.le_of_lt hi),
      List.prefix_append_right_inj]
    obtain ⟨later, hlater⟩ := @emitted_esc (emitSequences .new
      (extractCompleteSequences (text.take i)).1).1 (pending_ne_esc (by simp [StdinBuffer.new]) _)
      sequence rest
    rw [hlater]
    intro hprefix
    rcases emitted_resume_true ((text ++ more).drop (i + bracketedPasteStart.length)) with
      hnil | ⟨content, events, hpaste⟩
    · rw [hnil, List.prefix_nil] at hprefix
      cases hprefix
    · rw [hpaste] at hprefix
      cases (List.cons_prefix_cons.1 hprefix).1

theorem split_diverges (hno : Lib.Js.indexOf text bracketedPasteStart 0 = none)
    (hsplit : SplitsEscapes text more) :
    ¬ emitted (resume (false, text)).2 <+: emitted (resume (false, text ++ more)).2 := by
  obtain ⟨hleft, hlast, hmore⟩ := hsplit
  obtain ⟨before, hbefore⟩ := List.getLast?_eq_some_iff.1 hlast
  have hpending : (emitSequences .new before).1.pendingKittyPrintableCodepoint ≠ some 27 :=
    pending_ne_esc (by simp [StdinBuffer.new]) _
  obtain ⟨_, hdoubled⟩ := emitted_esc hpending [esc] []
  have hshort : ∃ events, emitted (resume (false, text)).2 =
      emitted (emitSequences .new before).2 ++ .data [esc, esc] :: events := by
    rw [emitted_outside hno, hbefore, emitSequences_append, prepend, emitted_append, hdoubled]
    exact ⟨_, rfl⟩
  -- the longer text has the first ESC there
  have hlong : ∀ {after : Text}, Introduces after → ∃ events,
      emitted (emitSequences .new (extractCompleteSequences (text ++ after)).1).2 =
        emitted (emitSequences .new before).2 ++ .data [esc] :: events := by
    intro after hafter
    obtain ⟨later, hlater⟩ := extract_append_split ⟨hleft, hlast, hafter⟩
    obtain ⟨events, hsingle⟩ := emitted_esc hpending [] later
    rw [hlater, hbefore, List.dropLast_concat, emitSequences_append, prepend, emitted_append,
      hsingle]
    exact ⟨_, rfl⟩
  obtain ⟨events, hevents⟩ := hshort
  have hdiffer : ∀ {events'}, emitted (resume (false, text ++ more)).2 =
      emitted (emitSequences .new before).2 ++ .data [esc] :: events' →
      ¬ emitted (resume (false, text)).2 <+: emitted (resume (false, text ++ more)).2 := by
    intro events' hevents'
    rw [hevents, hevents', List.prefix_append_right_inj]
    intro hprefix
    cases (List.cons_prefix_cons.1 hprefix).1
  cases hstart : Lib.Js.indexOf (text ++ more) bracketedPasteStart 0 with
  | none =>
    obtain ⟨_, hwhole⟩ := hlong hmore
    exact hdiffer ((emitted_outside hstart).trans hwhole)
  | some i =>
    by_cases hi : i < text.length
    · refine straddled_diverges hno hstart hi ?_
      rw [hleft]
      intro hnil
      have hlen := congrArg List.length hnil
      simp only [List.length_append, List.length_drop, List.length_nil] at hlen
      omega
    · have htake : (text ++ more).take i = text ++ more.take (i - text.length) := by
        rw [List.take_append, List.take_of_length_le (by omega)]
      have hafter : Introduces (more.take (i - text.length)) := by
        by_cases hzero : i - text.length = 0
        · -- the bracket would start with the introducer
          have hprefix := (indexOf_zero_eq_some.1 hstart).2.1
          have hi' : i = text.length := by omega
          rw [hi', List.drop_left] at hprefix
          obtain ⟨tail, rfl⟩ := hprefix
          exact absurd hmore (not_introduces_esc _)
        · obtain ⟨n, hn⟩ : ∃ n, i - text.length = n + 1 := ⟨i - text.length - 1, by omega⟩
          cases more with
          | nil => simp [Introduces] at hmore
          | cons c rest =>
            rw [hn]
            exact hmore
      obtain ⟨events', hwhole⟩ := hlong hafter
      rw [← htake] at hwhole
      exact hdiffer ((emitted_start hstart).trans (by rw [hwhole, List.append_assoc]; rfl))

/-! ## The whole input -/

/-- What a listener and the next call see: the events and what is buffered. -/
def outcome (result : StdinBuffer × List Delivery) : List Event × Text × Bool × Text :=
  (emitted result.2, result.1.buffer, result.1.pasteMode, result.1.pasteBuffer)

/-- Every cut between the text so far and the next chunk is clean. -/
def CleanCuts : Text → List Text → Prop
  | _, [] => True
  | text, chunk :: rest => CleanCut text chunk ∧ CleanCuts (text ++ chunk) rest

theorem process_no_empty (h : text ≠ []) : .data [] ∉ emitted (process .new text).2 := by
  obtain ⟨hno, first, hempty, hall⟩ := resume_openPart (text.length + 1) false text (by omega)
  have hpart := hall []
  rw [List.append_nil, List.append_nil] at hpart
  rw [← resume_eq_process h, hpart, prepend, emitted_append, List.mem_append, not_or]
  refine ⟨hempty, ?_⟩
  generalize openPart (text.length + 1) false text = part at hno
  obtain ⟨inPaste, rest⟩ := part
  cases inPaste with
  | true =>
    rw [resume_open hno]
    simp [emitted]
  | false =>
    rw [resume_outside hno]
    exact no_empty_event _ _

theorem process_buffer (h : text ≠ []) :
    (process .new text).1.buffer =
      if (openPart (text.length + 1) false text).1 then []
      else (extractCompleteSequences (openPart (text.length + 1) false text).2).2 := by
  obtain ⟨hno, first, hempty, hall⟩ := resume_openPart (text.length + 1) false text (by omega)
  have hpart := hall []
  rw [List.append_nil, List.append_nil] at hpart
  rw [← resume_eq_process h, hpart]
  generalize openPart (text.length + 1) false text = part at hno
  obtain ⟨inPaste, rest⟩ := part
  cases inPaste with
  | true =>
    rw [resume_open hno]
    rfl
  | false =>
    obtain ⟨pending, hstate⟩ := emitSequences_state
      ⟨(extractCompleteSequences rest).2, false, [], none⟩ (extractCompleteSequences rest).1
    rw [resume_outside hno, prepend, hstate]
    rfl

theorem process_empty (h : s.buffer = []) : emitted (process s []).2 = [.data []] := by
  rw [process_eq, processWith, if_pos ⟨rfl, h⟩]
  rfl

theorem SplitsEscapes.append {text more : Text} (h : SplitsEscapes text more) (later : Text) :
    SplitsEscapes text (more ++ later) :=
  ⟨h.1, h.2.1, h.2.2.append later⟩

theorem CutsStart.append {text more : Text} (h : CutsStart text more) (later : Text) :
    CutsStart text (more ++ later) := by
  obtain ⟨i, hstart, hi, hne⟩ := h
  exact ⟨i, by rw [← List.append_assoc]; exact indexOf_zero_append hstart later, hi, hne⟩

theorem unclean_diverges {text more : Text} (htext : text ≠ [])
    (hpart : (openPart (text.length + 1) false text).1 = false)
    (h : SplitsEscapes (openPart (text.length + 1) false text).2 more ∨
      CutsStart (openPart (text.length + 1) false text).2 more) :
    ¬ emitted (process .new text).2 <+: emitted (process .new (text ++ more)).2 := by
  obtain ⟨hno, first, _, hall⟩ := resume_openPart (text.length + 1) false text (by omega)
  have hshort := hall []
  rw [List.append_nil, List.append_nil] at hshort
  have hwhole : text ++ more ≠ [] := fun hnil => htext (List.append_eq_nil_iff.1 hnil).1
  rw [← resume_eq_process hwhole, ← resume_eq_process htext, hall more, hshort, prepend, prepend,
    emitted_append, emitted_append, List.prefix_append_right_inj]
  generalize openPart (text.length + 1) false text = part at hno hpart h
  obtain ⟨inPaste, rest⟩ := part
  obtain rfl : inPaste = false := hpart
  rcases h with hsplit | ⟨i, hstart, hi, hne⟩
  · exact split_diverges hno hsplit
  · exact straddled_diverges hno hstart hi hne

theorem rest_agree_iff (text : Text) (chunks : List Text) :
    outcome (prepend (process .new text).2 (run (process .new text).1 (chunks.map .chunk))) =
        outcome (process .new (text ++ chunks.flatten)) ↔
      CleanCuts text chunks := by
  induction chunks generalizing text with
  | nil => simp [run, prepend, CleanCuts]
  | cons chunk rest ih =>
    by_cases hclean : CleanCut text chunk
    · have hstep := process_append hclean
      have hrun : prepend (process .new text).2
          (run (process .new text).1 ((chunk :: rest).map .chunk)) =
            prepend (process .new (text ++ chunk)).2
              (run (process .new (text ++ chunk)).1 (rest.map .chunk)) := by
        rw [hstep]
        simp [run, step, andThen, prepend]
      rw [hrun, List.flatten_cons, ← List.append_assoc, ih, CleanCuts]
      exact (and_iff_right hclean).symm
    · refine iff_of_false (fun hequal => hclean ?_) fun h => hclean h.1
      have hevents := congrArg Prod.fst hequal
      simp only [outcome, prepend, emitted_append, List.map_cons, run, step, List.flatten_cons]
        at hevents
      -- an empty event is not one of the whole text
      have hempty : .data [] ∈ emitted (process .new text).2 ++
          (emitted (process (process .new text).1 chunk).2 ++
            emitted (run (process (process .new text).1 chunk).1 (rest.map .chunk)).2) →
          text ++ (chunk ++ rest.flatten) = [] := by
        intro hmem
        by_contra hne
        rw [hevents] at hmem
        exact process_no_empty hne hmem
      have hnil : process .new [] = (.new, [.event (.data [])]) := rfl
      have htext : text ≠ [] := by
        rintro rfl
        have hall := hempty (by rw [hnil]; simp [emitted])
        rw [List.nil_append, List.append_eq_nil_iff] at hall
        rw [hall.1, hall.2, List.nil_append, hnil] at hevents
        have hlength := congrArg List.length hevents
        simp [emitted, hnil] at hlength
      have hstill : chunk = [] → (process .new text).1.buffer ≠ [] := by
        rintro rfl hbuffer
        have hall := hempty (by rw [process_empty hbuffer]; simp)
        exact htext (List.append_eq_nil_iff.1 hall).1
      rw [process_buffer htext] at hstill
      refine ⟨htext, ?_⟩
      rw [CleanPart]
      cases hpart : (openPart (text.length + 1) false text).1 with
      | true =>
        rw [hpart] at hstill
        simpa using fun hnone => hstill hnone rfl
      | false =>
        rw [hpart] at hstill
        have hdiverges := @unclean_diverges text (chunk ++ rest.flatten) htext hpart
        have hprefix : emitted (process .new text).2 <+:
            emitted (process .new (text ++ (chunk ++ rest.flatten))).2 := by
          rw [← hevents]
          exact List.prefix_append _ _
        refine ⟨by simpa using hstill, fun hsplit => ?_, fun hcut => ?_⟩
        · exact hdiverges (.inl (hsplit.append _)) hprefix
        · exact hdiverges (.inr (hcut.append _)) hprefix

/-- The chunks of an input give the events and the rest of a single call exactly when every cut
between them is clean. -/
theorem chunks_agree_iff (first : Text) (rest : List Text) :
    outcome (run .new ((first :: rest).map .chunk)) =
        outcome (process .new (first :: rest).flatten) ↔ CleanCuts first rest := by
  rw [← rest_agree_iff]
  rfl

/-- Cut behind a doubled ESC, the up arrow is typed as text. -/
theorem doubled_escape_cut :
    outcome (run .new ([[esc, esc], ascii "[A"].map .chunk)) ≠
      outcome (process .new ([[esc, esc], ascii "[A"] : List Text).flatten) := by
  decide +kernel

end PieLab.Tui.Stdin

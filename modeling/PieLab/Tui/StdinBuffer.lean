import PieLab.Lib.JsLists
import PieLab.Tui.Segments

/-
  The input buffer of the terminal

  Input arrives in chunks of any length. Outside a bracketed paste the buffer is cut into
  escape sequences and single characters; an escape sequence that has not ended yet waits
  for the next chunk, or for the timeout that flushes it. Inside a paste everything is kept
  until the end bracket comes.

  The chunks are strings: the terminal decodes its input before it comes here. A duplicate
  of the Kitty printable just emitted is not an event; it is kept here as `dropped`.

  Correspondence (TypeScript ↔ Lean), packages/tui/src/stdin-buffer.ts:
    isCompleteSequence, isCompleteCsiSequence, isCompleteOscSequence, isCompleteDcsSequence,
      isCompleteApcSequence                   ↔ the functions of the same name
    the body of the loop of extractCompleteSequences ↔ `seqEnd?`, `nextSequence`
    extractCompleteSequences                  ↔ `extractCompleteSequences`
    parseUnmodifiedKittyPrintableCodepoint    ↔ the function of the same name
    StdinBuffer.process, its two paste exits  ↔ `process`, `processWith`, `finishPaste`
    emitDataSequence, flush, the timeout      ↔ `emitDataSequence`, `flush`, `timeout`

  What is proved:
    1. `process_accounts` — what one call delivers and keeps is what was held and received,
       less what stood unfinished before a paste.
    2. `input_accounted_iff` — over a run nothing is lost exactly when no paste starts behind
       an unfinished escape sequence.
-/

open PieLab.Lib.Js

namespace PieLab.Tui.Stdin

def esc : UInt16 := 27

def bracketedPasteStart : Text := esc :: ascii "[200~"
def bracketedPasteEnd : Text := esc :: ascii "[201~"

/-! ## Complete sequences -/

inductive Status where
  | complete | incomplete | notEscape
  deriving DecidableEq, Repr

/-- A byte that ends a CSI sequence: `@` to `~`. -/
def isFinalByte (c : UInt16) : Bool := 0x40 ≤ c && c ≤ 0x7e

/-- `/^<\d+;\d+;\d+[Mm]$/` -/
def mouseMatch (payload : Text) : Bool := (do
  let rest ← stripPrefix? (ascii "<") payload
  let (_, rest) ← digits? rest
  let rest ← stripPrefix? (ascii ";") rest
  let (_, rest) ← digits? rest
  let rest ← stripPrefix? (ascii ";") rest
  let (_, rest) ← digits? rest
  some (rest == ascii "M" || rest == ascii "m")).getD false

/-- `/^\d+$/` -/
def isNumber (part : Text) : Bool := part != [] && part.all isDigit

def isCompleteCsiSequence (data : Text) : Status :=
  if ¬ (esc :: ascii "[") <+: data then .complete
  else if data.length < 3 then .incomplete
  else
    let payload := data.drop 2
    let lastChar := payload.getLastD 0
    if isFinalByte lastChar then
      if ascii "<" <+: payload then
        if mouseMatch payload then .complete
        else
          let parts := (payload.drop 1).dropLast.splitOn 59
          if (lastChar = 77 ∨ lastChar = 109) ∧ parts.length = 3 ∧ parts.all isNumber then .complete
          else .incomplete
      else .complete
    else .incomplete

/-- A sequence with the introducer `second` that ends in one of `ends`. -/
def isCompleteString (second : UInt16) (ends : List Text) (data : Text) : Status :=
  if ¬ [esc, second] <+: data then .complete
  else if ends.any (·.isSuffixOf data) then .complete
  else .incomplete

/-- ST, the end of a control string. -/
def stringTerminator : Text := [esc, 92]

def isCompleteOscSequence (data : Text) : Status := isCompleteString 93 [stringTerminator, [7]] data
def isCompleteDcsSequence (data : Text) : Status := isCompleteString 80 [stringTerminator] data
def isCompleteApcSequence (data : Text) : Status := isCompleteString 95 [stringTerminator] data

def isCompleteSequence (data : Text) : Status :=
  match data with
  | [] => .notEscape
  | c :: afterEsc =>
    if c ≠ esc then .notEscape
    else
      match afterEsc with
      | [] => .incomplete
      | second :: rest =>
        if second = 91 then
          -- the old mouse sequence: ESC [ M and three bytes
          if rest.head? = some 77 then if 6 ≤ data.length then .complete else .incomplete
          else isCompleteCsiSequence data
        else if second = 93 then isCompleteOscSequence data
        else if second = 80 then isCompleteDcsSequence data
        else if second = 95 then isCompleteApcSequence data
        else if second = 79 then if 2 ≤ afterEsc.length then .complete else .incomplete
        else .complete

/-- The end of the escape sequence in front: the inner loop over `seqEnd`. -/
def seqEnd? (remaining : Text) : Option Nat :=
  (List.range' 1 remaining.length).find? fun n =>
    isCompleteSequence (remaining.take n) ≠ .incomplete

/-- The characters that introduce a longer escape sequence: CSI, OSC, SS3, DCS and APC. -/
def introducers : Text := ascii "[]OP_"

/-- A doubled ESC whose second one starts a sequence of its own. -/
def isDoubledEscape (candidate behind : Text) : Bool :=
  candidate == [esc, esc] && behind.head?.any introducers.contains

/-- The first sequence of the text and what follows it. -/
def nextSequence (remaining : Text) : Option (Text × Text) :=
  match remaining with
  | [] => none
  | c :: rest =>
    if c = esc then
      (seqEnd? remaining).map fun n =>
        if isDoubledEscape (remaining.take n) (remaining.drop n) then ([esc], rest)
        else (remaining.take n, remaining.drop n)
    else some ([c], rest)

/-- The outer loop, at most `fuel` times. -/
def extractLoop : Nat → Text → List Text × Text
  | 0, remaining => ([], remaining)
  | fuel + 1, remaining =>
    match nextSequence remaining with
    | none => ([], remaining)
    | some (sequence, rest) =>
      let (sequences, remainder) := extractLoop fuel rest
      (sequence :: sequences, remainder)

/-- The complete sequences of the buffer, and the remainder. -/
def extractCompleteSequences (buffer : Text) : List Text × Text := extractLoop buffer.length buffer

/-- The code point of `/^\x1b\[(\d+)(?::\d*)?(?::\d+)?u$/`, where it is printable. -/
def parseUnmodifiedKittyPrintableCodepoint (sequence : Text) : Option Nat := do
  let rest ← stripPrefix? (esc :: ascii "[") sequence
  let (digits, rest) ← digits? rest
  let rest := ((stripPrefix? (ascii ":") rest).map (·.dropWhile isDigit)).getD rest
  let rest := (((stripPrefix? (ascii ":") rest).bind digits?).map (·.2)).getD rest
  if rest = ascii "u" ∧ 32 ≤ parseDigits digits then some (parseDigits digits) else none

/-! ## The buffer -/

structure StdinBuffer where
  buffer : Text
  pasteMode : Bool
  pasteBuffer : Text
  pendingKittyPrintableCodepoint : Option Nat
  deriving DecidableEq, Repr

def StdinBuffer.new : StdinBuffer :=
  { buffer := [], pasteMode := false, pasteBuffer := [], pendingKittyPrintableCodepoint := none }

inductive Event where
  | data (sequence : Text)
  | paste (content : Text)
  deriving DecidableEq, Repr

/-- What became of a piece of input: an event, or a duplicate that is not emitted. -/
inductive Delivery where
  | event (event : Event)
  | dropped (sequence : Text)
  deriving DecidableEq, Repr

/-- The events a listener sees. -/
def emitted (deliveries : List Delivery) : List Event :=
  deliveries.filterMap fun
    | .event event => some event
    | .dropped _ => none

def isDuplicate (s : StdinBuffer) (sequence : Text) : Bool :=
  match sequence with
  | [c] => s.pendingKittyPrintableCodepoint == some c.toNat
  | _ => false

def emitDataSequence (s : StdinBuffer) (sequence : Text) : StdinBuffer × Delivery :=
  if isDuplicate s sequence then
    ({ s with pendingKittyPrintableCodepoint := none }, .dropped sequence)
  else
    ({ s with pendingKittyPrintableCodepoint := parseUnmodifiedKittyPrintableCodepoint sequence },
      .event (.data sequence))

def emitSequences : StdinBuffer → List Text → StdinBuffer × List Delivery
  | s, [] => (s, [])
  | s, sequence :: rest =>
    let (s, delivery) := emitDataSequence s sequence
    let (s, deliveries) := emitSequences s rest
    (s, delivery :: deliveries)

/-- The end of `process` in paste mode; `again` is `process` for what follows the paste. -/
def finishPaste (again : StdinBuffer → Text → StdinBuffer × List Delivery) (s : StdinBuffer) :
    StdinBuffer × List Delivery :=
  match Lib.Js.indexOf s.pasteBuffer bracketedPasteEnd 0 with
  | none => (s, [])
  | some endIndex =>
    let pastedContent := s.pasteBuffer.take endIndex
    let remaining := s.pasteBuffer.drop (endIndex + bracketedPasteEnd.length)
    let s := { s with
      pasteMode := false
      pasteBuffer := []
      pendingKittyPrintableCodepoint := none }
    let (s, deliveries) := if remaining = [] then (s, []) else again s remaining
    (s, .event (.paste pastedContent) :: deliveries)

def processWith (again : StdinBuffer → Text → StdinBuffer × List Delivery) (s : StdinBuffer)
    (str : Text) : StdinBuffer × List Delivery :=
  if str = [] ∧ s.buffer = [] then
    let (s, delivery) := emitDataSequence s []
    (s, [delivery])
  else
    let s := { s with buffer := s.buffer ++ str }
    if s.pasteMode then
      finishPaste again { s with pasteBuffer := s.pasteBuffer ++ s.buffer, buffer := [] }
    else
      match Lib.Js.indexOf s.buffer bracketedPasteStart 0 with
      | some startIndex =>
        -- the remainder of what stands before the paste is not kept
        let (sequences, _) := extractCompleteSequences (s.buffer.take startIndex)
        let (s, before) := emitSequences s sequences
        let (s, deliveries) := finishPaste again
          { s with
            pendingKittyPrintableCodepoint := none
            pasteMode := true
            pasteBuffer := s.buffer.drop (startIndex + bracketedPasteStart.length)
            buffer := [] }
        (s, before ++ deliveries)
      | none =>
        let (sequences, remainder) := extractCompleteSequences s.buffer
        emitSequences { s with buffer := remainder } sequences

/-- `process`, which calls itself at most `fuel` times. -/
def processLoop : Nat → StdinBuffer → Text → StdinBuffer × List Delivery
  | 0, s, _ => (s, [])
  | fuel + 1, s, str => processWith (processLoop fuel) s str

/-- What is kept for later. -/
def StdinBuffer.size (s : StdinBuffer) : Nat := s.pasteBuffer.length + s.buffer.length

def process (s : StdinBuffer) (str : Text) : StdinBuffer × List Delivery :=
  processLoop (s.size + str.length + 1) s str

def flush (s : StdinBuffer) : StdinBuffer × List Text :=
  if s.buffer = [] then (s, [])
  else ({ s with buffer := [], pendingKittyPrintableCodepoint := none }, [s.buffer])

/-- The timeout of `process`. It is set where the buffer is not empty. -/
def timeout (s : StdinBuffer) : StdinBuffer × List Delivery :=
  let (s, flushed) := flush s
  emitSequences s flushed

/-! ## Runs -/

inductive Input where
  | chunk (str : Text)
  | timeout
  deriving DecidableEq, Repr

def Input.received : Input → Text
  | .chunk str => str
  | .timeout => []

def step (s : StdinBuffer) : Input → StdinBuffer × List Delivery
  | .chunk str => process s str
  | .timeout => timeout s

def run : StdinBuffer → List Input → StdinBuffer × List Delivery
  | s, [] => (s, [])
  | s, input :: rest =>
    let (s, deliveries) := step s input
    let (s, later) := run s rest
    (s, deliveries ++ later)

/-! ## Sequences and remainder -/

theorem seqEnd?_le {remaining : Text} {n : Nat} (h : seqEnd? remaining = some n) :
    1 ≤ n ∧ n ≤ remaining.length := by
  have hmem := List.mem_of_find?_eq_some h
  rw [List.mem_range'_1] at hmem
  omega

theorem nextSequence_split {remaining sequence rest : Text}
    (h : nextSequence remaining = some (sequence, rest)) :
    sequence ≠ [] ∧ sequence ++ rest = remaining := by
  cases remaining with
  | nil => cases h
  | cons c tail =>
    simp only [nextSequence] at h
    by_cases hc : c = esc
    · rw [if_pos hc] at h
      obtain ⟨n, hn, hcut⟩ := Option.map_eq_some_iff.1 h
      have hpos := (seqEnd?_le hn).1
      by_cases hdouble : isDoubledEscape ((c :: tail).take n) ((c :: tail).drop n) = true
      · rw [if_pos hdouble] at hcut
        obtain ⟨rfl, rfl⟩ := Prod.mk.inj hcut
        simp [hc]
      · rw [if_neg hdouble] at hcut
        obtain ⟨rfl, rfl⟩ := Prod.mk.inj hcut
        refine ⟨?_, List.take_append_drop n _⟩
        simp
        omega
    · rw [if_neg hc] at h
      obtain ⟨rfl, rfl⟩ := Prod.mk.inj (Option.some.inj h)
      simp

theorem extractLoop_text (fuel : Nat) (remaining : Text) :
    (extractLoop fuel remaining).1.flatten ++ (extractLoop fuel remaining).2 = remaining := by
  induction fuel generalizing remaining with
  | zero => simp [extractLoop]
  | succ fuel ih =>
    rw [extractLoop]
    cases hnext : nextSequence remaining with
    | none => simp
    | some cut =>
      obtain ⟨sequence, rest⟩ := cut
      have hsplit := (nextSequence_split hnext).2
      simp [← hsplit, ih rest]

theorem extractCompleteSequences_text (buffer : Text) :
    (extractCompleteSequences buffer).1.flatten ++ (extractCompleteSequences buffer).2 = buffer :=
  extractLoop_text _ _

/-! ## What a call does with the text -/

/-- The text of a delivery, with the brackets of a paste. -/
def Delivery.text : Delivery → Text
  | .event (.data sequence) => sequence
  | .event (.paste content) => bracketedPasteStart ++ content ++ bracketedPasteEnd
  | .dropped sequence => sequence

def deliveredText (deliveries : List Delivery) : Text := deliveries.flatMap Delivery.text

@[simp] theorem deliveredText_nil : deliveredText [] = [] := rfl

@[simp] theorem deliveredText_cons (delivery : Delivery) (rest : List Delivery) :
    deliveredText (delivery :: rest) = delivery.text ++ deliveredText rest := rfl

@[simp] theorem deliveredText_append (before after : List Delivery) :
    deliveredText (before ++ after) = deliveredText before ++ deliveredText after :=
  List.flatMap_append

/-- What is still buffered, with the start bracket of the open paste. -/
def StdinBuffer.held (s : StdinBuffer) : Text :=
  (if s.pasteMode then bracketedPasteStart else []) ++ s.pasteBuffer ++ s.buffer

/-- The states between calls: what is kept of a paste is in the paste buffer. -/
structure StdinBuffer.Settled (s : StdinBuffer) : Prop where
  outside : s.pasteMode = false → s.pasteBuffer = []
  inside : s.pasteMode = true → s.buffer = []

theorem settled_new : StdinBuffer.new.Settled := ⟨fun _ => rfl, fun h => by cases h⟩

theorem emitDataSequence_state (s : StdinBuffer) (sequence : Text) :
    ∃ pending, (emitDataSequence s sequence).1 =
      { s with pendingKittyPrintableCodepoint := pending } := by
  rw [emitDataSequence]
  split
  · exact ⟨none, rfl⟩
  · exact ⟨_, rfl⟩

theorem emitDataSequence_text (s : StdinBuffer) (sequence : Text) :
    (emitDataSequence s sequence).2.text = sequence := by
  rw [emitDataSequence]
  split <;> rfl

theorem emitSequences_state (s : StdinBuffer) (sequences : List Text) :
    ∃ pending, (emitSequences s sequences).1 =
      { s with pendingKittyPrintableCodepoint := pending } := by
  induction sequences generalizing s with
  | nil => exact ⟨s.pendingKittyPrintableCodepoint, rfl⟩
  | cons sequence rest ih =>
    obtain ⟨first, hfirst⟩ := emitDataSequence_state s sequence
    obtain ⟨last, hlast⟩ := ih (emitDataSequence s sequence).1
    exact ⟨last, by rw [emitSequences, hlast, hfirst]⟩

theorem emitSequences_text (s : StdinBuffer) (sequences : List Text) :
    deliveredText (emitSequences s sequences).2 = sequences.flatten := by
  induction sequences generalizing s with
  | nil => rfl
  | cons sequence rest ih => simp [emitSequences, emitDataSequence_text, ih]

/-! ## One call and the next -/

variable {s : StdinBuffer} {pending : Option Nat}

theorem finishPaste_congr {again again' : StdinBuffer → Text → StdinBuffer × List Delivery}
    (hbuffer : s.buffer = [])
    (h : ∀ rest : Text, rest.length < s.pasteBuffer.length → again .new rest = again' .new rest) :
    finishPaste again s = finishPaste again' s := by
  rw [finishPaste, finishPaste]
  cases hend : Lib.Js.indexOf s.pasteBuffer bracketedPasteEnd 0 with
  | none => rfl
  | some endIndex =>
    have hle := (indexOf_zero_eq_some.1 hend).2.1.length_le
    have hlength : bracketedPasteEnd.length = 6 := rfl
    have hrest : (s.pasteBuffer.drop (endIndex + bracketedPasteEnd.length)).length <
        s.pasteBuffer.length := by
      simp only [List.length_drop, hlength] at hle ⊢
      omega
    have hagain := h _ hrest
    simp only [StdinBuffer.new] at hagain
    simp only [hbuffer, hagain]

theorem processWith_congr {again again' : StdinBuffer → Text → StdinBuffer × List Delivery}
    {str : Text}
    (h : ∀ rest : Text, rest.length < s.size + str.length → again .new rest = again' .new rest) :
    processWith again s str = processWith again' s str := by
  have hsize : s.size = s.pasteBuffer.length + s.buffer.length := rfl
  rw [processWith, processWith]
  by_cases hempty : str = [] ∧ s.buffer = []
  · rw [if_pos hempty, if_pos hempty]
  rw [if_neg hempty, if_neg hempty]
  by_cases hpaste : s.pasteMode = true
  · simp only [hpaste, if_true]
    refine finishPaste_congr rfl fun rest hrest => h rest ?_
    simp only [List.length_append] at hrest
    omega
  · simp only [if_neg hpaste]
    cases hstart : Lib.Js.indexOf (s.buffer ++ str) bracketedPasteStart 0 with
    | none => rfl
    | some startIndex =>
      have hfinish : ∀ pending, finishPaste again ⟨[], true,
            (s.buffer ++ str).drop (startIndex + bracketedPasteStart.length), pending⟩ =
          finishPaste again' ⟨[], true,
            (s.buffer ++ str).drop (startIndex + bracketedPasteStart.length), pending⟩ := by
        intro pending
        refine finishPaste_congr rfl fun rest hrest => h rest ?_
        simp only [List.length_drop, List.length_append] at hrest
        omega
      obtain ⟨pending, hemit⟩ := emitSequences_state { s with buffer := s.buffer ++ str }
        (extractCompleteSequences ((s.buffer ++ str).take startIndex)).1
      simp only [hemit]
      rw [hfinish]

theorem processLoop_fuel {fuel fuel' : Nat} {str : Text} (h : s.size + str.length < fuel)
    (h' : s.size + str.length < fuel') : processLoop fuel s str = processLoop fuel' s str := by
  induction fuel generalizing fuel' s str with
  | zero => omega
  | succ fuel ih =>
    cases fuel' with
    | zero => omega
    | succ fuel' =>
      refine processWith_congr fun rest hrest => ih ?_ ?_ <;>
        simp only [StdinBuffer.size, StdinBuffer.new, List.length_nil] <;> omega

theorem process_eq (s : StdinBuffer) (str : Text) : process s str = processWith process s str := by
  refine processWith_congr fun rest hrest => processLoop_fuel ?_ ?_ <;>
    simp only [StdinBuffer.size, StdinBuffer.new, List.length_nil] at hrest ⊢ <;> omega

/-! ## Nothing is lost -/

/-- The stretches of a text outside pastes that a paste follows. -/
def stretches : Nat → Bool → Text → List Text
  | 0, _, _ => []
  | fuel + 1, false, text =>
    match Lib.Js.indexOf text bracketedPasteStart 0 with
    | none => []
    | some i => text.take i :: stretches fuel true (text.drop (i + bracketedPasteStart.length))
  | fuel + 1, true, text =>
    match Lib.Js.indexOf text bracketedPasteEnd 0 with
    | none => []
    | some i => stretches fuel false (text.drop (i + bracketedPasteEnd.length))

/-- What stands unfinished before the pastes of a text. -/
def unfinished (fuel : Nat) (inPaste : Bool) (text : Text) : Text :=
  (stretches fuel inPaste text).flatMap fun stretch => (extractCompleteSequences stretch).2

/-- The code point whose duplicate is left out behind these deliveries. -/
def pendingAfter : Option Nat → List Delivery → Option Nat
  | pending, [] => pending
  | _, .event (.data sequence) :: rest =>
    pendingAfter (parseUnmodifiedKittyPrintableCodepoint sequence) rest
  | _, .event (.paste _) :: rest => pendingAfter none rest
  | _, .dropped _ :: rest => pendingAfter none rest

/-- What is left out is the character of the Kitty printable in front of it. -/
def DropsFollow : Option Nat → List Delivery → Prop
  | _, [] => True
  | _, .event (.data sequence) :: rest =>
    DropsFollow (parseUnmodifiedKittyPrintableCodepoint sequence) rest
  | _, .event (.paste _) :: rest => DropsFollow none rest
  | pending, .dropped sequence :: rest =>
    (∃ c : UInt16, pending = some c.toNat ∧ sequence = [c]) ∧ DropsFollow none rest

/-- The duplicate expected here is expected there as well. -/
def Within (pending pending' : Option Nat) : Prop := ∀ c, pending = some c → pending' = some c

theorem DropsFollow.mono {pending' : Option Nat} {deliveries : List Delivery}
    (h : DropsFollow pending deliveries) (hwithin : Within pending pending') :
    DropsFollow pending' deliveries := by
  match deliveries, h with
  | [], _ => trivial
  | .event (.data _) :: _, h => exact h
  | .event (.paste _) :: _, h => exact h
  | .dropped _ :: _, ⟨⟨c, hpending, hsequence⟩, hrest⟩ =>
    exact ⟨⟨c, hwithin _ hpending, hsequence⟩, hrest⟩

theorem pendingAfter_mono {pending' : Option Nat} (deliveries : List Delivery)
    (hwithin : Within pending pending') :
    Within (pendingAfter pending deliveries) (pendingAfter pending' deliveries) := by
  match deliveries with
  | [] => exact hwithin
  | .event (.data _) :: _ => exact fun _ h => h
  | .event (.paste _) :: _ => exact fun _ h => h
  | .dropped _ :: _ => exact fun _ h => h

theorem dropsFollow_append {before after : List Delivery} :
    DropsFollow pending (before ++ after) ↔
      DropsFollow pending before ∧ DropsFollow (pendingAfter pending before) after := by
  induction before generalizing pending with
  | nil => simp [DropsFollow, pendingAfter]
  | cons delivery rest ih =>
    match delivery with
    | .event (.data _) => exact ih
    | .event (.paste _) => exact ih
    | .dropped _ =>
      simp only [List.cons_append, DropsFollow, pendingAfter, ih]
      exact and_assoc.symm

theorem pendingAfter_append (pending : Option Nat) (before after : List Delivery) :
    pendingAfter pending (before ++ after) = pendingAfter (pendingAfter pending before) after := by
  induction before generalizing pending with
  | nil => rfl
  | cons delivery rest ih =>
    match delivery with
    | .event (.data _) => exact ih _
    | .event (.paste _) => exact ih _
    | .dropped _ => exact ih _

theorem emitDataSequence_drops (s : StdinBuffer) (sequence : Text) :
    DropsFollow s.pendingKittyPrintableCodepoint [(emitDataSequence s sequence).2] ∧
      (emitDataSequence s sequence).1.pendingKittyPrintableCodepoint =
        pendingAfter s.pendingKittyPrintableCodepoint [(emitDataSequence s sequence).2] := by
  rw [emitDataSequence]
  split
  · rename_i hduplicate
    match sequence with
    | [c] => exact ⟨⟨⟨c, by simpa [isDuplicate] using hduplicate, rfl⟩, trivial⟩, rfl⟩
    | [] | _ :: _ :: _ => simp [isDuplicate] at hduplicate
  · exact ⟨trivial, rfl⟩

theorem emitSequences_drops (s : StdinBuffer) (sequences : List Text) :
    DropsFollow s.pendingKittyPrintableCodepoint (emitSequences s sequences).2 ∧
      (emitSequences s sequences).1.pendingKittyPrintableCodepoint =
        pendingAfter s.pendingKittyPrintableCodepoint (emitSequences s sequences).2 := by
  induction sequences generalizing s with
  | nil => exact ⟨trivial, rfl⟩
  | cons sequence rest ih =>
    obtain ⟨hdrops, hpending⟩ := emitDataSequence_drops s sequence
    obtain ⟨hrest, hlast⟩ := ih (emitDataSequence s sequence).1
    rw [hpending] at hrest hlast
    refine ⟨dropsFollow_append.2 ⟨hdrops, hrest⟩, ?_⟩
    exact hlast.trans (pendingAfter_append _ [_] _).symm

/-- The text `before` is delivered or held, in order, but for what is lost of it. -/
structure Accounts (pending : Option Nat) (before : Text) (result : StdinBuffer × List Delivery)
    (lost : Text) : Prop where
  settled : result.1.Settled
  length : before.length = (deliveredText result.2 ++ result.1.held).length + lost.length
  text : lost = [] → deliveredText result.2 ++ result.1.held = before
  drops : DropsFollow pending result.2
  pending : Within result.1.pendingKittyPrintableCodepoint (pendingAfter pending result.2)

theorem Accounts.of_text {before : Text} {result : StdinBuffer × List Delivery}
    (hsettled : result.1.Settled) (h : deliveredText result.2 ++ result.1.held = before)
    (hdrops : DropsFollow pending result.2)
    (hpending : Within result.1.pendingKittyPrintableCodepoint (pendingAfter pending result.2)) :
    Accounts pending before result [] :=
  ⟨hsettled, by simp [← h], fun _ => h, hdrops, hpending⟩

theorem Accounts.prepend {pending pending' : Option Nat} {before lost : Text}
    {result : StdinBuffer × List Delivery} (h : Accounts pending' before result lost)
    {first : List Delivery} (hfirst : DropsFollow pending first)
    (hwithin : Within pending' (pendingAfter pending first)) :
    Accounts pending (deliveredText first ++ before) (result.1, first ++ result.2) lost where
  settled := h.settled
  length := by
    have := h.length
    simp only [deliveredText_append, List.length_append] at this ⊢
    omega
  text hlost := by simp [← h.text hlost]
  drops := dropsFollow_append.2 ⟨hfirst, h.drops.mono hwithin⟩
  pending := by
    rw [pendingAfter_append]
    exact fun c hc => pendingAfter_mono _ hwithin c (h.pending c hc)

theorem Accounts.lose {before lost : Text} {result : StdinBuffer × List Delivery}
    (h : Accounts pending before result lost) (more : Text) :
    Accounts pending (more ++ before) result (more ++ lost) where
  settled := h.settled
  length := by
    have := h.length
    simp only [List.length_append] at this ⊢
    omega
  text hlost := by
    obtain ⟨rfl, hlost⟩ := List.append_eq_nil_iff.1 hlost
    exact h.text hlost
  drops := h.drops
  pending := h.pending

theorem indexOf_nil {pattern : Text} (h : pattern ≠ []) : Lib.Js.indexOf [] pattern 0 = none := by
  rw [indexOf_zero_eq_none]
  intro i _ hprefix
  rw [List.drop_nil, List.prefix_nil] at hprefix
  exact h hprefix

theorem bracketedPasteStart_ne_nil : bracketedPasteStart ≠ [] := by decide

theorem unfinished_nil (fuel : Nat) : unfinished fuel false [] = [] := by
  cases fuel with
  | zero => rfl
  | succ fuel => simp [unfinished, stretches, indexOf_nil bracketedPasteStart_ne_nil]

theorem process_accounts_aux (fuel : Nat) :
    (∀ (buffer str : Text) (pending : Option Nat), ¬ (str = [] ∧ buffer = []) →
      (buffer ++ str).length < fuel →
      Accounts pending (buffer ++ str) (process ⟨buffer, false, [], pending⟩ str)
        (unfinished fuel false (buffer ++ str))) ∧
    (∀ (text : Text) (pending : Option Nat), text.length < fuel →
      Accounts pending (bracketedPasteStart ++ text)
        (finishPaste process ⟨[], true, text, pending⟩) (unfinished fuel true text)) := by
  induction fuel with
  | zero => exact ⟨fun _ _ _ _ h => absurd h (Nat.not_lt_zero _),
      fun _ _ h => absurd h (Nat.not_lt_zero _)⟩
  | succ fuel ih =>
    constructor
    · intro buffer str pending hnonempty hlength
      rw [process_eq, processWith, if_neg hnonempty]
      simp only [Bool.false_eq_true, if_false]
      cases hstart : Lib.Js.indexOf (buffer ++ str) bracketedPasteStart 0 with
      | none =>
        -- the remainder stays in the buffer
        have htext := extractCompleteSequences_text (buffer ++ str)
        obtain ⟨pending', hemit⟩ := emitSequences_state
          ⟨(extractCompleteSequences (buffer ++ str)).2, false, [], pending⟩
          (extractCompleteSequences (buffer ++ str)).1
        obtain ⟨hdrops, hpending⟩ := emitSequences_drops
          ⟨(extractCompleteSequences (buffer ++ str)).2, false, [], pending⟩
          (extractCompleteSequences (buffer ++ str)).1
        have hlost : unfinished (fuel + 1) false (buffer ++ str) = [] := by
          simp [unfinished, stretches, hstart]
        rw [hlost]
        refine Accounts.of_text ⟨fun _ => ?_, fun hin => ?_⟩ ?_ hdrops fun c hc => hpending ▸ hc
        · simp only [hemit]
        · simp [hemit] at hin
        · simp [emitSequences_text, hemit, StdinBuffer.held, htext]
      | some i =>
        have hcut := indexOf_zero_split hstart
        have htext := extractCompleteSequences_text ((buffer ++ str).take i)
        have hlost : unfinished (fuel + 1) false (buffer ++ str) =
            (extractCompleteSequences ((buffer ++ str).take i)).2 ++
              unfinished fuel true ((buffer ++ str).drop (i + bracketedPasteStart.length)) := by
          simp [unfinished, stretches, hstart]
        have hbefore := emitSequences_text ⟨buffer ++ str, false, [], pending⟩
          (extractCompleteSequences ((buffer ++ str).take i)).1
        have hdrops := (emitSequences_drops ⟨buffer ++ str, false, [], pending⟩
          (extractCompleteSequences ((buffer ++ str).take i)).1).1
        obtain ⟨pending', hemit⟩ := emitSequences_state ⟨buffer ++ str, false, [], pending⟩
          (extractCompleteSequences ((buffer ++ str).take i)).1
        have hshorter : ((buffer ++ str).drop (i + bracketedPasteStart.length)).length < fuel := by
          have hlen := congrArg List.length hcut
          have hsix : bracketedPasteStart.length = 6 := rfl
          simp only [List.length_append, List.length_drop, List.length_take] at hlen hlength ⊢
          omega
        have hrest := ih.2 ((buffer ++ str).drop (i + bracketedPasteStart.length)) none hshorter
        have hall := (hrest.lose (extractCompleteSequences ((buffer ++ str).take i)).2).prepend
          hdrops (fun c hc => by cases hc)
        rw [hbefore, ← List.append_assoc, htext, ← List.append_assoc, hcut, ← hlost] at hall
        simpa only [hemit] using hall
    · intro text pending hlength
      rw [finishPaste]
      cases hend : Lib.Js.indexOf text bracketedPasteEnd 0 with
      | none =>
        have hlost : unfinished (fuel + 1) true text = [] := by simp [unfinished, stretches, hend]
        rw [hlost]
        exact Accounts.of_text ⟨fun h => (by cases h), fun _ => rfl⟩ (by simp [StdinBuffer.held])
          trivial fun _ h => h
      | some i =>
        have hcut := indexOf_zero_split hend
        have hlost : unfinished (fuel + 1) true text =
            unfinished fuel false (text.drop (i + bracketedPasteEnd.length)) := by
          simp [unfinished, stretches, hend]
        have hshorter : (text.drop (i + bracketedPasteEnd.length)).length < fuel := by
          have hlen := congrArg List.length hcut
          have hsix : bracketedPasteEnd.length = 6 := rfl
          simp only [List.length_append, List.length_drop, List.length_take] at hlen hlength ⊢
          omega
        have hrest : Accounts none (text.drop (i + bracketedPasteEnd.length))
            (if text.drop (i + bracketedPasteEnd.length) = [] then (.new, [])
              else process .new (text.drop (i + bracketedPasteEnd.length)))
            (unfinished fuel false (text.drop (i + bracketedPasteEnd.length))) := by
          split
          · rename_i hnone
            rw [hnone, unfinished_nil]
            exact Accounts.of_text settled_new rfl trivial fun _ h => h
          · rename_i hsome
            exact ih.1 [] _ none (fun h => hsome h.1) hshorter
        have hall := @Accounts.prepend pending none _ _ _ hrest [.event (.paste (text.take i))]
          trivial fun _ h => h
        have hwhole : deliveredText [.event (.paste (text.take i))] ++
            text.drop (i + bracketedPasteEnd.length) = bracketedPasteStart ++ text := by
          simp only [deliveredText_cons, deliveredText_nil, Delivery.text, List.append_nil,
            List.append_assoc]
          rw [← List.append_assoc (text.take i), hcut]
        rw [hwhole, ← hlost] at hall
        exact hall

/-- The stretches of the text outside pastes that a paste follows, in the call `process str`. -/
def stretchesBeforePastes (s : StdinBuffer) (str : Text) : List Text :=
  if str = [] ∧ s.buffer = [] then []
  else stretches (s.size + str.length + 1) s.pasteMode (s.pasteBuffer ++ s.buffer ++ str)

/-- What one call delivers and keeps is what was held and received, less what stood unfinished
before a paste. -/
theorem process_accounts (hs : s.Settled) (str : Text) :
    Accounts s.pendingKittyPrintableCodepoint (s.held ++ str) (process s str)
      ((stretchesBeforePastes s str).flatMap fun stretch =>
        (extractCompleteSequences stretch).2) := by
  by_cases hempty : str = [] ∧ s.buffer = []
  · obtain ⟨pending, hstate⟩ := emitDataSequence_state s []
    obtain ⟨hdrops, hpending⟩ := emitDataSequence_drops s []
    have htext := emitDataSequence_text s []
    have hprocess : process s str = ((emitDataSequence s []).1, [(emitDataSequence s []).2]) := by
      rw [process_eq, processWith, if_pos hempty]
    rw [hprocess, stretchesBeforePastes, if_pos hempty]
    refine Accounts.of_text ?_ ?_ hdrops fun c hc => hpending ▸ hc
    · rw [hstate]
      exact ⟨hs.outside, hs.inside⟩
    · simp [htext, hstate, StdinBuffer.held, hempty]
  · rw [stretchesBeforePastes, if_neg hempty]
    obtain ⟨buffer, mode, pasted, pending⟩ := s
    cases mode with
    | false =>
      obtain rfl : pasted = [] := hs.outside rfl
      exact (process_accounts_aux _).1 buffer str pending hempty (by simp [StdinBuffer.size])
    | true =>
      obtain rfl : buffer = [] := hs.inside rfl
      have hfinish := (process_accounts_aux (pasted.length + str.length + 1)).2
        (pasted ++ str) pending (by simp)
      have hprocess : process ⟨[], true, pasted, pending⟩ str =
          finishPaste process ⟨[], true, pasted ++ str, pending⟩ := by
        rw [process_eq, processWith, if_neg hempty]
        rfl
      rw [hprocess]
      simpa [StdinBuffer.held, StdinBuffer.size, unfinished] using hfinish

/-! ## Runs -/

theorem timeout_accounts (hs : s.Settled) :
    Accounts s.pendingKittyPrintableCodepoint s.held (timeout s) [] := by
  by_cases hbuffer : s.buffer = []
  · have htimeout : timeout s = (s, []) := by simp [timeout, flush, hbuffer, emitSequences]
    rw [htimeout]
    exact Accounts.of_text hs rfl trivial fun _ h => h
  · have houtside : s.pasteMode = false := by
      cases hmode : s.pasteMode with
      | false => rfl
      | true => exact absurd (hs.inside hmode) hbuffer
    have htimeout : timeout s =
        ({ s with
            buffer := []
            pendingKittyPrintableCodepoint := parseUnmodifiedKittyPrintableCodepoint s.buffer },
          [.event (.data s.buffer)]) := by
      -- after a flush no duplicate is expected
      have hnot : isDuplicate
          { s with buffer := [], pendingKittyPrintableCodepoint := none } s.buffer = false := by
        simp only [isDuplicate]
        split <;> simp
      simp [timeout, flush, hbuffer, emitSequences, emitDataSequence, hnot]
    rw [htimeout]
    refine Accounts.of_text ⟨fun _ => hs.outside houtside, fun _ => rfl⟩ ?_ trivial fun _ h => h
    simp [Delivery.text, StdinBuffer.held, houtside, hs.outside houtside]

/-- No paste of this step starts behind an unfinished escape sequence. -/
def FinishedBeforePastes (s : StdinBuffer) : Input → Prop
  | .chunk str => ∀ stretch ∈ stretchesBeforePastes s str, (extractCompleteSequences stretch).2 = []
  | .timeout => True

/-- What a step loses. -/
def lostIn (s : StdinBuffer) : Input → Text
  | .chunk str => (stretchesBeforePastes s str).flatMap fun stretch =>
      (extractCompleteSequences stretch).2
  | .timeout => []

theorem lostIn_eq_nil {input : Input} : lostIn s input = [] ↔ FinishedBeforePastes s input := by
  cases input with
  | chunk str => exact List.flatMap_eq_nil_iff
  | timeout => exact iff_of_true rfl trivial

theorem step_accounts (hs : s.Settled) (input : Input) :
    Accounts s.pendingKittyPrintableCodepoint (s.held ++ input.received) (step s input)
      (lostIn s input) := by
  cases input with
  | chunk str => exact process_accounts hs str
  | timeout =>
    rw [Input.received, List.append_nil]
    exact timeout_accounts hs

/-- Every step of the run finds what stands before its pastes finished. -/
def RunFinished : StdinBuffer → List Input → Prop
  | _, [] => True
  | s, input :: rest => FinishedBeforePastes s input ∧ RunFinished (step s input).1 rest

theorem run_accounts (hs : s.Settled) (inputs : List Input) :
    ∃ lost, Accounts s.pendingKittyPrintableCodepoint (s.held ++ inputs.flatMap Input.received)
      (run s inputs) lost ∧ (lost = [] ↔ RunFinished s inputs) := by
  induction inputs generalizing s with
  | nil =>
    exact ⟨[], Accounts.of_text hs (by simp [run]) trivial fun _ h => h, by simp [RunFinished]⟩
  | cons input rest ih =>
    have hstep := step_accounts hs input
    obtain ⟨lost, hrest, hiff⟩ := ih hstep.settled
    refine ⟨lostIn s input ++ lost, ⟨hrest.settled, ?_, fun hlost => ?_, ?_, ?_⟩, ?_⟩
    · have hfirst := hstep.length
      have hlater := hrest.length
      simp only [run, deliveredText_append, List.flatMap_cons, List.length_append]
        at hfirst hlater ⊢
      omega
    · obtain ⟨hfirst, hlater⟩ := List.append_eq_nil_iff.1 hlost
      calc deliveredText (run s (input :: rest)).2 ++ (run s (input :: rest)).1.held
          = deliveredText (step s input).2 ++
              (deliveredText (run (step s input).1 rest).2 ++
                (run (step s input).1 rest).1.held) := by simp [run]
        _ = (deliveredText (step s input).2 ++ (step s input).1.held) ++
              rest.flatMap Input.received := by rw [hrest.text hlater, List.append_assoc]
        _ = s.held ++ (input :: rest).flatMap Input.received := by
            rw [hstep.text hfirst, List.flatMap_cons, List.append_assoc]
    · exact dropsFollow_append.2 ⟨hstep.drops, hrest.drops.mono hstep.pending⟩
    · simp only [run, pendingAfter_append]
      exact fun c hc => pendingAfter_mono _ hstep.pending c (hrest.pending c hc)
    · rw [List.append_eq_nil_iff, lostIn_eq_nil, hiff]
      exact Iff.rfl

/-- Every character is delivered once and in order, in a data event or in a paste, or is still
buffered; only a duplicate of the Kitty printable just emitted is left out. -/
def Accounted (inputs : List Input) : Prop :=
  deliveredText (run .new inputs).2 ++ (run .new inputs).1.held = inputs.flatMap Input.received ∧
    DropsFollow none (run .new inputs).2

/-- Nothing is lost exactly when no paste starts behind an unfinished escape sequence. -/
theorem input_accounted_iff (inputs : List Input) :
    Accounted inputs ↔ RunFinished .new inputs := by
  obtain ⟨lost, haccounts, hlost⟩ := run_accounts settled_new inputs
  have hheld : StdinBuffer.new.held = [] := rfl
  rw [hheld, List.nil_append] at haccounts
  rw [← hlost]
  refine ⟨fun h => ?_, fun h => ⟨haccounts.text h, haccounts.drops⟩⟩
  have hlength := haccounts.length
  rw [h.1] at hlength
  exact List.length_eq_zero_iff.1 (by omega)

/-- The escape key right before a paste is lost. -/
theorem escape_before_paste_lost :
    ¬ Accounted [.chunk (esc :: bracketedPasteStart ++ ascii "a" ++ bracketedPasteEnd)] := by
  intro h
  have hlength := congrArg List.length h.1
  exact absurd hlength (by decide +kernel)

end PieLab.Tui.Stdin

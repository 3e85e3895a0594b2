import PieLab.Lib.Draining
import PieLab.Lib.Utf8

/-
  Server-sent events

  The reply of a model comes as a stream of events, in lines that end with LF, CR or CR LF.
  The text is decoded line by line, as far as it has come.

  What is proved:
    1. `chunks_agree` — the events are those of the whole text, as long as no CR LF is cut
       in two; `body_agrees` — from its bytes on.
    2. `events_survive` — events that are sent with one kind of line end come out as they
       went in.

  Correspondence (TypeScript ↔ Lean): the names of packages/ai/src/api/anthropic-messages.ts.
  `consumeLine` is what cuts the buffer; `iterateSseBody` reads the bytes of the body through
  the decoder. An abort ends the events where it comes: what was read before it stays.
-/

namespace PieLab.Ai

open Lib

structure ServerSentEvent where
  event : Option (List Char)
  data : List Char
  raw : List (List Char)
  deriving DecidableEq

structure SseDecoderState where
  event : Option (List Char) := none
  data : List (List Char) := []
  raw : List (List Char) := []

def flushSseEvent (state : SseDecoderState) : Option ServerSentEvent × SseDecoderState :=
  if state.event.getD [] = [] ∧ state.data = [] then (none, state)
  else (some { event := state.event, data := ['\n'].intercalate state.data, raw := state.raw }, {})

/-- What stands behind the colon, and behind a blank there. -/
def fieldValue (line : List Char) : List Char :=
  match line.dropWhile (· != ':') with
  | _ :: ' ' :: value | _ :: value => value
  | [] => []

def decodeSseLine (line : List Char) (state : SseDecoderState) :
    Option ServerSentEvent × SseDecoderState :=
  if line = [] then flushSseEvent state
  else
    let state := { state with raw := state.raw ++ [line] }
    let fieldName := line.takeWhile (· != ':')
    if line.head? = some ':' then (none, state)
    else if fieldName = "event".toList then (none, { state with event := some (fieldValue line) })
    else if fieldName = "data".toList then (none, { state with data := state.data ++ [fieldValue line] })
    else (none, state)

def isBreak (c : Char) : Bool := c == '\r' || c == '\n'

/-- What stands behind the line break in front. -/
def afterBreak : List Char → List Char
  | '\r' :: '\n' :: rest | _ :: rest => rest
  | [] => []

def lineBreak : LineBreak Char where
  isBreak := isBreak
  after := afterBreak
  after_suffix c rest := by
    unfold afterBreak
    split
    · next heq => cases heq; exact ⟨['\r', '\n'], by simp, rfl⟩
    · next heq => cases heq; exact ⟨[c], by simp, rfl⟩
    · next heq => cases heq

def consumeLine : Cutter Char (List Char) := lineBreak.cutter

def decodeLines (state : SseDecoderState) :
    List (List Char) → List ServerSentEvent × SseDecoderState
  | [] => ([], state)
  | line :: lines =>
    let (event, state) := decodeSseLine line state
    (event.toList ++ (decodeLines state lines).1, (decodeLines state lines).2)

/-- The end of the stream: what is left in the buffer is a line. -/
def finish (state : SseDecoderState) (buffer : List Char) : List ServerSentEvent :=
  let (lines, rest) := consumeLine.drain buffer
  let (events, state) := decodeLines state lines
  let (event, state) := if rest = [] then (none, state) else decodeSseLine rest state
  events ++ event.toList ++ (flushSseEvent state).1.toList

def readChunks (state : SseDecoderState) (buffer : List Char) :
    List (List Char) → List ServerSentEvent
  | [] => finish state buffer
  | chunk :: chunks =>
    let (lines, rest) := consumeLine.drain (buffer ++ chunk)
    (decodeLines state lines).1 ++ readChunks (decodeLines state lines).2 rest chunks

def iterateSseMessages (chunks : List (List Char)) : List ServerSentEvent := readChunks {} [] chunks

/-! ## Cuts -/

/-- The text is not cut between a CR and its LF. -/
def Whole (before after : List Char) :
    Prop := ¬ (before.getLast? = some '\r' ∧ after.head? = some '\n')

theorem afterBreak_append {c : Char} {rest x : List Char} (h : Whole (c :: rest) x) :
    afterBreak (c :: rest ++ x) = afterBreak (c :: rest) ++ x := by
  by_cases hc : c = '\r'
  · subst hc
    rcases rest with - | ⟨d, rest⟩
    · rcases x with - | ⟨d, x⟩
      · rfl
      · have hd : d ≠ '\n' := by
          rintro rfl
          exact h ⟨rfl, rfl⟩
        simp [afterBreak, hd]
    · by_cases hd : d = '\n'
      · subst hd
        rfl
      · simp [afterBreak, hd]
  · simp [afterBreak, hc]

theorem consumeLine_joins : consumeLine.Joins Whole := by
  refine LineBreak.joins ?_ fun _ _ _ => afterBreak_append
  intro p l x h hcut
  refine h ⟨?_, hcut.2⟩
  rw [List.getLast?_append, hcut.1]
  rfl

theorem decodeLines_cons (state : SseDecoderState) (line : List Char) (lines : List (List Char)) :
    decodeLines state (line :: lines) =
      ((decodeSseLine line state).1.toList ++ (decodeLines (decodeSseLine line state).2 lines).1,
        (decodeLines (decodeSseLine line state).2 lines).2) := rfl

theorem decodeLines_append (state : SseDecoderState) (l r : List (List Char)) :
    decodeLines state (l ++ r) = ((decodeLines state l).1 ++ (decodeLines (decodeLines state l).2 r).1,
      (decodeLines (decodeLines state l).2 r).2) := by
  induction l generalizing state with
  | nil => rfl
  | cons line l ih => rw [List.cons_append, decodeLines_cons, ih, decodeLines_cons, List.append_assoc]

theorem readChunks_eq (state : SseDecoderState) (buffer : List Char) (chunks : List (List Char)) :
    readChunks state buffer chunks = (decodeLines state (consumeLine.feed buffer chunks).1).1 ++
      finish (decodeLines state (consumeLine.feed buffer chunks).1).2 (consumeLine.feed buffer chunks).2 := by
  induction chunks generalizing state buffer with
  | nil => rfl
  | cons chunk chunks ih =>
    have hfeed : consumeLine.feed buffer (chunk :: chunks) =
        ((consumeLine.drain (buffer ++ chunk)).1 ++
        (consumeLine.feed (consumeLine.drain (buffer ++ chunk)).2 chunks).1,
          (consumeLine.feed (consumeLine.drain (buffer ++ chunk)).2 chunks).2) := rfl
    rw [hfeed, decodeLines_append, List.append_assoc, ← ih]
    rfl

/-- No chunk ends with a CR whose LF comes later. -/
def LineEndsWhole (chunks : List (List Char)) : Prop :=
  ∀ before after, chunks = before ++ after → Whole before.flatten after.flatten

theorem iterateSseMessages_eq {chunks : List (List Char)} (hchunks : LineEndsWhole chunks) :
    iterateSseMessages chunks = (decodeLines {} (consumeLine.drain chunks.flatten).1).1 ++
      finish (decodeLines {} (consumeLine.drain chunks.flatten).1).2 (consumeLine.drain chunks.flatten).2 := by
  have hfeed : consumeLine.feed [] chunks = consumeLine.drain chunks.flatten :=
    @Cutter.Joins.feed_flatten _ _ _ _ consumeLine_joins [] rfl _ hchunks
  rw [iterateSseMessages, readChunks_eq, hfeed]

theorem lineEndsWhole_single (text : List Char) : LineEndsWhole [text] := by
  rintro before after hsplit ⟨hlast, hhead⟩
  rcases before with - | ⟨chunk, before⟩
  · cases hlast
  · have hnone := (List.append_eq_nil_iff.mp (List.cons.inj hsplit).2.symm).2
    rw [hnone] at hhead
    cases hhead

theorem getLast?_flatten {chunks : List (List Char)} {c : Char}
    (h : chunks.flatten.getLast? = some c) :
    ∃ chunk ∈ chunks, chunk.getLast? = some c := by
  induction chunks with
  | nil => cases h
  | cons chunk chunks ih =>
    rw [List.flatten_cons, List.getLast?_append] at h
    cases hrest : chunks.flatten.getLast? with
    | none => exact ⟨chunk, List.mem_cons_self, by rwa [hrest] at h⟩
    | some d =>
      rw [hrest] at h
      obtain ⟨other, hother, hlast⟩ := ih (hrest.trans h)
      exact ⟨other, List.mem_cons_of_mem _ hother, hlast⟩

theorem lineEndsWhole_of_last {chunks : List (List Char)}
    (h : ∀ chunk ∈ chunks, chunk.getLast? ≠ some '\r') :
    LineEndsWhole chunks := by
  rintro before after rfl ⟨hlast, -⟩
  obtain ⟨chunk, hchunk, hcr⟩ := getLast?_flatten hlast
  exact h chunk (List.mem_append_left _ hchunk) hcr

theorem chunks_agree {chunks : List (List Char)} (hchunks : LineEndsWhole chunks) :
    iterateSseMessages chunks = iterateSseMessages [chunks.flatten] := by
  rw [iterateSseMessages_eq hchunks, iterateSseMessages_eq (lineEndsWhole_single _),
    List.flatten_singleton]

theorem chunks_agree_example : iterateSseMessages ["data: a\r\n".toList, "\r\n".toList] =
    iterateSseMessages ["data: a\r\n\r\n".toList] :=
  chunks_agree (lineEndsWhole_of_last (by decide))

/-- The events of a body that comes in chunks of bytes. -/
def iterateSseBody (body : List (List UInt8)) : List ServerSentEvent :=
  iterateSseMessages (TextDecoder.new.pieces body)

/-- The chunks may cut characters in two. -/
theorem body_agrees {body : List (List UInt8)} {text : List Char}
    (hbody : body.flatten = encode text)
    (hchunks : LineEndsWhole (TextDecoder.new.pieces body)) :
    iterateSseBody body = iterateSseMessages [withoutBom text] := by
  rw [iterateSseBody, iterateSseMessages_eq hchunks, iterateSseMessages_eq (lineEndsWhole_single _),
    List.flatten_singleton, TextDecoder.pieces_flatten hbody]

/-! ## Events that are sent -/

inductive LineEnd where
  | lf | cr | crlf

def LineEnd.text : LineEnd → List Char
  | .lf => ['\n']
  | .cr => ['\r']
  | .crlf => ['\r', '\n']

def BreakFree (line : List Char) : Prop := ∀ c ∈ line, isBreak c = false

structure SentEvent where
  name : Option (List Char)
  data : List (List Char)
  data_ne : data ≠ []
  breakFree : ∀ line ∈ name.toList ++ data, BreakFree line

namespace SentEvent

def fields (e : SentEvent) : List (List Char) :=
  e.name.toList.map ("event: ".toList ++ ·) ++ e.data.map ("data: ".toList ++ ·)

theorem fields_breakFree (e : SentEvent) : ∀ line ∈ e.fields ++ [[]], BreakFree line := by
  have hfield : ∀ (field line : List Char), BreakFree field → BreakFree line →
      BreakFree (field ++ line) :=
    fun field line hfield hline c hc => (List.mem_append.mp hc).elim (hfield c) (hline c)
  intro line hline
  simp only [fields, List.mem_append, List.mem_map, List.mem_singleton] at hline
  rcases hline with (⟨name, hname, rfl⟩ | ⟨data, hdata, rfl⟩) | rfl
  · exact hfield _ _ (by simp [BreakFree, isBreak])
      (e.breakFree name (List.mem_append_left _ hname))
  · exact hfield _ _ (by simp [BreakFree, isBreak])
      (e.breakFree data (List.mem_append_right _ hdata))
  · intro c hc
    cases hc

def received (e : SentEvent) : ServerSentEvent where
  event := e.name
  data := ['\n'].intercalate e.data
  raw := e.fields

end SentEvent

/-- Each event, and an empty line. -/
def streamText (lineEnd : LineEnd) (events : List SentEvent) : List Char :=
  (events.flatMap fun e => e.fields ++ [[]]).flatMap (· ++ lineEnd.text)

theorem drain_lineEnds (lineEnd : LineEnd) {lines : List (List Char)}
    (hlines : ∀ line ∈ lines, BreakFree line) :
    consumeLine.drain (lines.flatMap (· ++ lineEnd.text)) = (lines, []) := by
  cases lineEnd with
  | lf => exact LineBreak.drain_lines rfl (fun rest _ => by simp [lineBreak, afterBreak]) hlines
  | crlf => exact LineBreak.drain_lines rfl (fun rest _ => rfl) hlines
  | cr =>
    refine LineBreak.drain_lines rfl (fun rest hrest => ?_) hlines
    rcases rest with - | ⟨c, rest⟩
    · rfl
    · have hc : c ≠ '\n' := by
        rintro rfl
        exact absurd (hrest '\n' rfl rfl) (by decide)
      simp [lineBreak, afterBreak, hc]

theorem decodeLines_data (state : SseDecoderState) (data : List (List Char)) :
    decodeLines state (data.map ("data: ".toList ++ ·)) =
      ([], { state with data := state.data ++ data, raw := state.raw ++ data.map ("data: ".toList ++ ·) }) := by
  induction data generalizing state with
  | nil => simp [decodeLines]
  | cons line data ih =>
    have hline : decodeSseLine ("data: ".toList ++ line) state =
        (none, { state with data := state.data ++ [line], raw := state.raw ++ ["data: ".toList ++ line] }) := rfl
    rw [List.map_cons, decodeLines_cons, hline, ih]
    simp

theorem decodeLines_fields (e : SentEvent) :
    decodeLines {} (e.fields ++ [[]]) = ([e.received], {}) := by
  have hname : decodeLines {} (e.name.toList.map ("event: ".toList ++ ·)) =
      ([], { event := e.name, raw := e.name.toList.map ("event: ".toList ++ ·) }) := by
    cases e.name with
    | none => rfl
    | some name => rfl
  have hflush : decodeLines { event := e.name, data := e.data, raw := e.fields } [[]] =
      ([e.received], {}) := by
    rw [decodeLines_cons, decodeSseLine, if_pos rfl, flushSseEvent, if_neg fun h => e.data_ne h.2]
    rfl
  rw [SentEvent.fields, List.append_assoc, decodeLines_append, hname, decodeLines_append,
    decodeLines_data]
  simp only [List.nil_append]
  exact hflush

theorem decodeLines_events (events : List SentEvent) :
    decodeLines {} (events.flatMap fun e => e.fields ++ [[]]) = (events.map SentEvent.received, {}) := by
  induction events with
  | nil => rfl
  | cons e events ih =>
    rw [List.flatMap_cons, decodeLines_append, decodeLines_fields, ih]
    rfl

theorem events_survive (lineEnd : LineEnd) (events : List SentEvent) {chunks : List (List Char)}
    (htext : chunks.flatten = streamText lineEnd events) (hchunks : LineEndsWhole chunks) :
    iterateSseMessages chunks = events.map SentEvent.received := by
  have hlines : ∀ line ∈ events.flatMap fun e => e.fields ++ [[]], BreakFree line := by
    intro line hline
    obtain ⟨e, -, hline⟩ := List.mem_flatMap.mp hline
    exact e.fields_breakFree line hline
  have hfinish : finish {} [] = [] := by
    rw [finish, Cutter.drain_of_none rfl]
    rfl
  rw [iterateSseMessages_eq hchunks, htext, streamText, drain_lineEnds lineEnd hlines,
    decodeLines_events, hfinish,
    List.append_nil]

theorem events_survive_example :
    iterateSseMessages ["event: ping\r\nda".toList, "ta: a\r\n\r\n".toList] =
    [⟨some "ping".toList, ['a'], ["event: ping".toList, "data: a".toList]⟩] :=
  events_survive .crlf [⟨some "ping".toList, [['a']], by simp, by simp [BreakFree, isBreak]⟩] rfl
    (lineEndsWhole_of_last (by decide))

end PieLab.Ai

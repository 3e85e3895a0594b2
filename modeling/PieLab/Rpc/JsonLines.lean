import PieLab.Lib.Draining
import PieLab.Lib.Utf8
import PieLab.Session.TornFile

/-
  Records on a stream

  The RPC mode writes a record as its JSON text and a newline. The reader decodes the bytes
  of the stream as they come, and hands out every line that is complete.

  What is proved:
    1. `readAll_eq` — the lines are those of the text, wherever its bytes are cut.
    2. `records_survive` — every record is read back, in order.

  Correspondence (TypeScript ↔ Lean): the names of
  packages/coding-agent/src/modes/rpc/jsonl.ts; `attachJsonlLineReader` ↔ `readAll`, with
  `decoder` and `buffer` as the state. The reader stays on the stream.
-/

namespace PieLab.Rpc

open Lib

def serializeJsonLine (fmt : NumberFormat) (value : Json) :
    List Char := stringify fmt value ++ ['\n']

def emitLine (line : List Char) :
    List Char := if line.getLast? = some '\r' then line.dropLast else line

def lineCutter : Cutter Char (List Char) := (endedBy '\n').cutter

/-- The bytes the decoder waits with, and the buffer. -/
structure LineReader where
  pending : List UInt8 := []
  buffer : List Char := []

namespace LineReader

def onData (s : LineReader) (chunk : List UInt8) : List (List Char) × LineReader :=
  let (chars, pending) := decode (s.pending ++ chunk)
  let (lines, buffer) := lineCutter.drain (s.buffer ++ chars)
  (lines.map emitLine, { pending, buffer })

/-- A character that was cut off is replaced. -/
def onEnd (s : LineReader) : List (List Char) :=
  let buffer := s.buffer ++ if s.pending = [] then [] else ['\uFFFD']
  if buffer = [] then [] else [emitLine buffer]

/-- The lines handed out, to the end of the stream. -/
def readAll (s : LineReader) : List (List UInt8) → List (List Char)
  | [] => s.onEnd
  | chunk :: chunks => (s.onData chunk).1 ++ (s.onData chunk).2.readAll chunks

end LineReader

/-- The lines of a text; the last one may lack its newline. -/
def linesOf (text : List Char) : List (List Char) :=
  (lineCutter.drain text).1.map emitLine ++
    if (lineCutter.drain text).2 = [] then [] else [emitLine (lineCutter.drain text).2]

theorem linesOf_append (l r : List Char) :
    linesOf (l ++ r) = (lineCutter.drain l).1.map emitLine ++ linesOf ((lineCutter.drain l).2 ++ r) := by
  rw [linesOf, (endedBy_joins '\n').drain_append (c := lineCutter) trivial, List.map_append,
    List.append_assoc]
  rfl

theorem readAll_eq {s : LineReader} (hwait : Lib.decodeChar s.pending = none)
    (hbuffer : lineCutter.cut s.buffer = none)
    {chunks : List (List UInt8)} {text : List Char} (htext : s.pending ++ chunks.flatten = encode text) :
    s.readAll chunks = linesOf (s.buffer ++ text) := by
  induction chunks generalizing s text with
  | nil =>
    rw [List.flatten_nil, List.append_nil] at htext
    obtain rfl : text = [] := by
      cases text with
      | nil => rfl
      | cons c cs => rw [htext, encode_cons, decodeChar_encode] at hwait; cases hwait
    rw [LineReader.readAll, LineReader.onEnd, htext, linesOf, List.append_nil,
      Cutter.drain_of_none hbuffer]
    simp
  | cons chunk chunks ih =>
    rw [List.flatten_cons, ← List.append_assoc] at htext
    -- what is read now and what is read later
    have hsplit := decode_append (s.pending ++ chunk) chunks.flatten
    rw [htext, decode_encode] at hsplit
    obtain ⟨hnow, hend⟩ := Prod.mk.inj hsplit
    have hlater := decode_sound ((decode (s.pending ++ chunk)).2 ++ chunks.flatten)
    rw [← hend, List.append_nil] at hlater
    have hrest := ih (s := (s.onData chunk).2) (decode_rest _) (Cutter.drain_rest _).1 hlater
    rw [LineReader.readAll, hrest, hnow, ← List.append_assoc,
      linesOf_append (s.buffer ++ (decode (s.pending ++ chunk)).1)]
    rfl

theorem emitLine_stringify (fmt : NumberFormat) {value : Json} (hvalue : Valid fmt value) :
    emitLine (stringify fmt value) = stringify fmt value := by
  refine if_neg ?_
  cases value with
  | null => simp [stringify]
  | bool b => cases b <;> simp [stringify]
  | string text =>
    rw [stringify, jsonString, String.toList_ofList, List.getLast?_concat]
    decide
  | array items | object fields =>
    rw [stringify, List.getLast?_concat]
    decide
  | number q =>
    cases q with
    | none => simp [stringify]
    | some q =>
      intro hlast
      exact absurd ((fmt.print_chars hvalue).2 _ (List.mem_of_getLast? hlast)) (by decide)

/-- Every record is read back, its infinities as `null`, wherever the bytes are cut. -/
theorem records_survive (fmt : NumberFormat) {values : List Json}
    (hvalues : ∀ value ∈ values, Valid fmt value)
    {chunks : List (List UInt8)} (hchunks : chunks.flatten = encode (values.flatMap (serializeJsonLine fmt))) :
    (({} : LineReader).readAll chunks).map (jsonParse fmt) = values.map fun value => some (printed value) := by
  have hlines : lineCutter.drain (values.flatMap (serializeJsonLine fmt)) =
      (values.map (stringify fmt), []) := by
    have hfree : ∀ line ∈ values.map (stringify fmt), ∀ c ∈ line, (endedBy '\n').isBreak c =
        false := by
      intro line hline c hc
      obtain ⟨value, hvalue, rfl⟩ := List.mem_map.mp hline
      refine decide_eq_false ?_
      rintro rfl
      exact stringify_noNewline value (hvalues value hvalue) hc
    have hbreak : (endedBy '\n').isBreak '\n' = true := by simp [endedBy]
    have hdrain := LineBreak.drain_lines hbreak (fun rest _ => (rfl : (endedBy '\n').after (['\n'] ++ rest) = rest)) hfree
    rw [List.flatMap_map] at hdrain
    exact hdrain
  rw [readAll_eq (s := {}) rfl rfl hchunks]
  show (linesOf (values.flatMap (serializeJsonLine fmt))).map _ = _
  rw [linesOf, hlines, if_pos rfl, List.append_nil, List.map_map, List.map_map]
  refine List.map_congr_left fun value hvalue => ?_
  have hparse := @jsonParse_stringify fmt value (hvalues value hvalue) [] [] rfl rfl
  rw [List.nil_append, List.append_nil] at hparse
  rw [Function.comp_apply, Function.comp_apply, emitLine_stringify fmt (hvalues value hvalue),
    hparse]

/-- Two records, cut inside of a character. -/
theorem records_survive_example :
    let bytes := encode ([.null, .string "\u00e9"].flatMap (serializeJsonLine digitFormat))
    (({} : LineReader).readAll [bytes.take 7, bytes.drop 7]).map (jsonParse digitFormat) =
      [some .null, some (.string "\u00e9")] :=
  @records_survive digitFormat [.null, .string "\u00e9"] (by simp [Valid]) _ (by simp [List.flatten_cons])

end PieLab.Rpc

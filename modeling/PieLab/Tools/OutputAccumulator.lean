import PieLab.Lib.Checks
import PieLab.Tools.Truncate

/-
  Streaming output

  The accumulator decodes chunks as they come and keeps the end of the text: when
  more than twice the rolling size has gathered, it is cut back to the last
  `maxRollingBytes`. A snapshot truncates what it keeps, without the line the cut
  lies in.

  What is proved:
    1. `Tracks.appendDecodedText` — what one piece of text does to the counts and
       to the buffer.
    2. `accumulate_tracks` — the state after a whole stream.
    3. `snapshot_agrees_iff` — when the snapshot is the tail of the whole text:
       exactly where the cut does not lie inside a line behind which the rest fits.

  Correspondence (TypeScript ↔ Lean), packages/coding-agent/src/core/tools/output-accumulator.ts:
    `append`, `finish`, `snapshot`                         ↔ the same names
    `appendDecodedText`, `trimTail`, `getSnapshotText`     ↔ the same names
    `shouldUseTempFile`, `ensureTempFile`                  ↔ the same names
-/

namespace PieLab

open Lib

structure OutputAccumulator where
  maxLines : Nat
  maxBytes : Nat
  /-- The path `defaultTempFilePath` draws. -/
  tempPath : String
  decoder : TextDecoder := .new
  rawChunks : List (List UInt8) := []
  tailText : List Char := []
  tailBytes : Nat := 0
  tailStartsAtLineBoundary : Bool := true
  totalRawBytes : Nat := 0
  totalDecodedBytes : Nat := 0
  completedLines : Nat := 0
  totalLines : Nat := 0
  currentLineBytes : Nat := 0
  hasOpenLine : Bool := false
  finished : Bool := false
  /-- What was written to the temporary file, once it is open. -/
  tempFile : Option (List (List UInt8)) := none

structure OutputSnapshot where
  content : List Char
  truncation : TruncationResult
  fullOutputPath : Option String

def alreadyFinished : String := "Cannot append to a finished output accumulator"

namespace OutputAccumulator

def new (maxLines maxBytes : Option Nat) (tempPath : String) : OutputAccumulator where
  maxLines := maxLines.getD DEFAULT_MAX_LINES
  maxBytes := maxBytes.getD DEFAULT_MAX_BYTES
  tempPath

def maxRollingBytes (s : OutputAccumulator) : Nat := max (s.maxBytes * 2) 1

def trimTail (s : OutputAccumulator) : OutputAccumulator :=
  let buffer := encode s.tailText
  if buffer.length ≤ s.maxRollingBytes then { s with tailBytes := buffer.length }
  else
    let start := boundaryFrom buffer (buffer.length - s.maxRollingBytes)
    let tailText := (decode (buffer.drop start)).1
    { s with
      tailStartsAtLineBoundary :=
        if start = 0 then s.tailStartsAtLineBoundary else buffer[start - 1]? = some 0x0A
      tailText
      tailBytes := byteLength tailText }

/-- The count of the lines goes on with a text. -/
def countLines (s : OutputAccumulator) (text : List Char) : OutputAccumulator :=
  let newlines := text.count '\n'
  let s :=
    if newlines = 0 then
      { s with currentLineBytes := s.currentLineBytes + byteLength text, hasOpenLine := true }
    else
      -- `text.slice(lastNewline + 1)`
      let tail := lastLine text
      { s with
        completedLines := s.completedLines + newlines
        currentLineBytes := byteLength tail
        hasOpenLine := !tail.isEmpty }
  { s with totalLines := s.completedLines + if s.hasOpenLine then 1 else 0 }

/-- A text at the end of the buffer. -/
def extendTail (s : OutputAccumulator) (text : List Char) : OutputAccumulator :=
  { s with
    totalDecodedBytes := s.totalDecodedBytes + byteLength text
    tailText := s.tailText ++ text
    tailBytes := s.tailBytes + byteLength text }

def appendDecodedText (s : OutputAccumulator) (text : List Char) : OutputAccumulator :=
  if text.isEmpty then s
  else
    let s := s.extendTail text
    let s := if s.tailBytes > s.maxRollingBytes * 2 then s.trimTail else s
    s.countLines text

def shouldUseTempFile (s : OutputAccumulator) : Bool :=
  s.totalRawBytes > s.maxBytes || s.totalDecodedBytes > s.maxBytes || s.totalLines > s.maxLines

def ensureTempFile (s : OutputAccumulator) : OutputAccumulator :=
  if s.tempFile.isSome then s else { s with tempFile := some s.rawChunks, rawChunks := [] }

/-- A chunk as it came goes to the temporary file, or is kept for it. -/
def writeChunk (s : OutputAccumulator) (data : List UInt8) : OutputAccumulator :=
  if s.tempFile.isSome || s.shouldUseTempFile then
    let s := s.ensureTempFile
    { s with tempFile := s.tempFile.map (· ++ [data]) }
  else if data.length > 0 then { s with rawChunks := s.rawChunks ++ [data] }
  else s

/-- The bytes of a chunk are counted and go through the decoder. -/
def receive (s : OutputAccumulator) (data : List UInt8) : OutputAccumulator :=
  { s with
    totalRawBytes := s.totalRawBytes + data.length
    decoder := (s.decoder.decode data).2 }

def append (s : OutputAccumulator) (data : List UInt8) : Except String OutputAccumulator :=
  if s.finished then .error alreadyFinished
  else
    let text := (s.decoder.decode data).1
    .ok (((s.receive data).appendDecodedText text).writeChunk data)

def finish (s : OutputAccumulator) : OutputAccumulator :=
  if s.finished then s
  else
    let s := { s with finished := true }
    let s := s.appendDecodedText s.decoder.flush
    if s.shouldUseTempFile then s.ensureTempFile else s

def getSnapshotText (s : OutputAccumulator) : List Char :=
  if s.tailStartsAtLineBoundary then s.tailText
  else if '\n' ∈ s.tailText then (s.tailText.dropWhile (· ≠ '\n')).tail
  else s.tailText

/-- The snapshot, and the accumulator with the temporary file open where it is asked for. -/
def snapshot (s : OutputAccumulator) (persistIfTruncated : Bool) :
    OutputSnapshot × OutputAccumulator :=
  let tailTruncation := truncateTail s.getSnapshotText s.maxLines s.maxBytes
  let truncated : Bool := s.totalLines > s.maxLines || s.totalDecodedBytes > s.maxBytes
  let truncatedBy :=
    if truncated then
      some (tailTruncation.truncatedBy.getD
        (if s.totalDecodedBytes > s.maxBytes then .bytes else .lines))
    else none
  let truncation :=
    { tailTruncation with
      truncated
      truncatedBy
      totalLines := s.totalLines
      totalBytes := s.totalDecodedBytes
      maxLines := s.maxLines
      maxBytes := s.maxBytes }
  let s := if persistIfTruncated && truncation.truncated then s.ensureTempFile else s
  ({ content := truncation.content
     truncation
     fullOutputPath := if s.tempFile.isSome then some s.tempPath else none }, s)

end OutputAccumulator

/-- A stream that is appended chunk by chunk and finished. -/
def accumulate (maxLines maxBytes : Option Nat) (tempPath : String) (chunks : List (List UInt8)) :
    Except String OutputAccumulator := do
  let s ← chunks.foldlM OutputAccumulator.append (.new maxLines maxBytes tempPath)
  return s.finish

/-! ## The rolling buffer -/

/-- The byte of the text the buffer begins at once the text has come to its end: it is cut
when more than four times `maxBytes` have gathered. -/
def nextStart (maxBytes start : Nat) (text : List Char) : Nat :=
  if byteLength text - start > 4 * maxBytes then
    byteLength text - byteLength (dropBytes (byteLength text - 2 * maxBytes) text)
  else start

/-- The byte the buffer begins at after the pieces of a text. -/
def cutPoint (maxBytes : Nat) : Nat → List Char → List (List Char) → Nat
  | start, _, [] => start
  | start, text, piece :: pieces =>
    cutPoint maxBytes (nextStart maxBytes start (text ++ piece)) (text ++ piece) pieces

/-- The buffer holds the text from byte `start` on, knows whether a line begins there, and
was not cut shorter than `2 * maxBytes` but for the bytes of one character. -/
def Rolled (maxBytes : Nat) (tailText : List Char) (tailStartsAtLineBoundary : Bool)
    (text : List Char) (start : Nat) : Prop :=
  ∃ front, text = front ++ tailText ∧ byteLength front = start ∧
    (tailStartsAtLineBoundary = true ↔ front = [] ∨ front.getLast? = some '\n') ∧
    ∀ c, front.getLast? = some c → 2 * maxBytes < c.utf8Size + byteLength tailText

theorem Rolled.append {maxBytes start : Nat} {tailText text : List Char} {boundary : Bool}
    (h : Rolled maxBytes tailText boundary text start) (piece : List Char) :
    Rolled maxBytes (tailText ++ piece) boundary (text ++ piece) start := by
  obtain ⟨front, htext, hstart, hboundary, hlast⟩ := h
  refine ⟨front, by rw [htext, List.append_assoc], hstart, hboundary, fun c hc => ?_⟩
  have hlt := hlast c hc
  rw [byteLength_append]
  omega

/-- The state behind the buffer: the counts. -/
structure OutputAccumulator.Counts (s : OutputAccumulator) (text : List Char) : Prop where
  completedLines : s.completedLines = (linesBefore text).length
  currentLineBytes : s.currentLineBytes = byteLength (lastLine text)
  hasOpenLine : s.hasOpenLine = !(lastLine text).isEmpty
  totalLines : s.totalLines = (splitLinesForCounting text).length

/-- The accumulator has seen `text`, and its buffer begins at byte `start`. -/
structure OutputAccumulator.Tracks (s : OutputAccumulator) (text : List Char) (start : Nat) :
    Prop where
  totalDecodedBytes : s.totalDecodedBytes = byteLength text
  counts : s.Counts text
  tailBytes : s.tailBytes = byteLength s.tailText
  small : byteLength s.tailText ≤ 4 * s.maxBytes
  rolled : Rolled s.maxBytes s.tailText s.tailStartsAtLineBoundary text start

theorem length_splitLinesForCounting (text : List Char) :
    (splitLinesForCounting text).length =
      (linesBefore text).length + if (!(lastLine text).isEmpty) = true then 1 else 0 := by
  rw [splitLinesForCounting_eq, List.length_append]
  cases lastLine text <;> rfl

variable {s : OutputAccumulator} {text front : List Char} {start maxLines maxBytes : Nat}

namespace OutputAccumulator

theorem Counts.countLines (h : s.Counts text) {piece : List Char} (hpiece : piece ≠ []) :
    (s.countLines piece).Counts (text ++ piece) := by
  have hcompleted : (s.countLines piece).completedLines = (linesBefore (text ++ piece)).length ∧
      (s.countLines piece).currentLineBytes = byteLength (lastLine (text ++ piece)) ∧
      (s.countLines piece).hasOpenLine = !(lastLine (text ++ piece)).isEmpty := by
    rw [length_linesBefore, List.count_append, ← length_linesBefore]
    unfold OutputAccumulator.countLines
    by_cases hnewline : piece.count '\n' = 0
    · have hnot : '\n' ∉ piece := List.count_eq_zero.mp hnewline
      rw [lastLine_append_single hnot]
      simp [hnewline, h.completedLines, h.currentLineBytes, hpiece]
    · have hmem : '\n' ∈ piece := by
        by_contra hnot
        exact hnewline (List.count_eq_zero.mpr hnot)
      rw [lastLine_append_newline hmem]
      simp [hnewline, h.completedLines]
  refine ⟨hcompleted.1, hcompleted.2.1, hcompleted.2.2, ?_⟩
  rw [length_splitLinesForCounting, ← hcompleted.1, ← hcompleted.2.2]
  rfl

end OutputAccumulator

theorem Rolled.trim {s : OutputAccumulator} {text : List Char} {start : Nat}
    (hbytes : 1 ≤ s.maxBytes)
    (h : Rolled s.maxBytes s.tailText s.tailStartsAtLineBoundary text start)
    (hlong : 4 * s.maxBytes < byteLength s.tailText) :
    Rolled s.maxBytes s.trimTail.tailText s.trimTail.tailStartsAtLineBoundary text
        (byteLength text - byteLength (dropBytes (byteLength text - 2 * s.maxBytes) text)) ∧
      s.trimTail.tailBytes = byteLength s.trimTail.tailText ∧
      byteLength s.trimTail.tailText ≤ 2 * s.maxBytes := by
  obtain ⟨front, htext, hstart, hboundary, hlast⟩ := h
  have hrolling : s.maxRollingBytes = 2 * s.maxBytes := by
    unfold OutputAccumulator.maxRollingBytes
    omega
  generalize hn : byteLength s.tailText - 2 * s.maxBytes = n
  obtain ⟨cut, htail, hle, hcut⟩ :=
    dropBytes_split s.tailText (show n ≤ byteLength s.tailText by omega)
  have hlength := congrArg byteLength htail
  rw [byteLength_append] at hlength
  have hpoint := boundaryFrom_encode s.tailText (show n ≤ byteLength s.tailText by omega)
  have hwhole : dropBytes (byteLength text - 2 * s.maxBytes) text = dropBytes n s.tailText := by
    rw [htext, byteLength_append, dropBytes_append (by omega)]
    congr 1
    omega
  have htrim : s.trimTail =
      { s with
        tailStartsAtLineBoundary := (encode s.tailText)[byteLength cut - 1]? = some 0x0A
        tailText := dropBytes n s.tailText
        tailBytes := byteLength (dropBytes n s.tailText) } := by
    have hcutBytes : boundaryFrom (encode s.tailText) n = byteLength cut := by omega
    unfold OutputAccumulator.trimTail
    simp only [length_encode, hrolling]
    rw [if_neg (by omega), hn, drop_boundary_encode, decode_encode, hcutBytes,
      if_neg (show ¬ byteLength cut = 0 by omega)]
  have hcutNe : cut ≠ [] := by
    rintro rfl
    simp at hle
    omega
  rw [htrim, hwhole]
  refine ⟨⟨front ++ cut, ?_, ?_, ?_, ?_⟩, rfl, ?_⟩
  · rw [htext, List.append_assoc, ← htail]
  · have htotal := congrArg byteLength htext
    rw [byteLength_append] at htotal ⊢
    omega
  · have hbyte : (encode s.tailText)[byteLength cut - 1]? = (encode cut).getLast? := by
      have hpos : byteLength cut ≠ 0 := fun h => hcutNe (byteLength_eq_zero.mp h)
      rw [htail, encode_append, List.getElem?_append_left (by rw [length_encode]; omega),
        List.getLast?_eq_getElem?, length_encode]
    rw [List.getLast?_append_of_ne_nil _ hcutNe, ← getLast?_encode_newline, ← hbyte]
    simp [hcutNe]
  · intro c hc
    rw [List.getLast?_append_of_ne_nil _ hcutNe] at hc
    have hlt := hcut c hc
    simp only
    omega
  · simp only
    omega

namespace OutputAccumulator

theorem trimTail_rest (s : OutputAccumulator) :
    ∃ tailText tailBytes tailStartsAtLineBoundary,
      s.trimTail = { s with tailText, tailBytes, tailStartsAtLineBoundary } := by
  unfold trimTail
  simp only
  split
  · exact ⟨_, _, _, rfl⟩
  · exact ⟨_, _, _, rfl⟩

theorem countLines_rest (s : OutputAccumulator) (text : List Char) :
    ∃ completedLines currentLineBytes hasOpenLine totalLines,
      s.countLines text =
        { s with completedLines, currentLineBytes, hasOpenLine, totalLines } := by
  unfold countLines
  simp only
  split
  · exact ⟨_, _, _, _, rfl⟩
  · exact ⟨_, _, _, _, rfl⟩

theorem Tracks.countLines {piece : List Char} (hpiece : piece ≠ []) (hcounts : s.Counts text)
    (htotal : s.totalDecodedBytes = byteLength (text ++ piece))
    (htail : s.tailBytes = byteLength s.tailText) (hsmall : byteLength s.tailText ≤ 4 * s.maxBytes)
    (hrolled : Rolled s.maxBytes s.tailText s.tailStartsAtLineBoundary (text ++ piece) start) :
    (s.countLines piece).Tracks (text ++ piece) start := by
  have hcounts' := hcounts.countLines hpiece
  obtain ⟨_, _, _, _, heq⟩ := s.countLines_rest piece
  rw [heq] at hcounts' ⊢
  exact ⟨htotal, hcounts', htail, hsmall, hrolled⟩

/-- One piece of text: the counts go on, and the buffer is cut where it has grown too long. -/
theorem Tracks.appendDecodedText (h : s.Tracks text start) (hbytes : 1 ≤ s.maxBytes)
    (piece : List Char) :
    (s.appendDecodedText piece).Tracks (text ++ piece)
      (nextStart s.maxBytes start (text ++ piece)) := by
  have hrolled := h.rolled.append piece
  have hkept : byteLength (text ++ piece) - start = byteLength (s.tailText ++ piece) := by
    obtain ⟨front, htext, hstart, -⟩ := hrolled
    rw [htext, byteLength_append]
    omega
  have hrolling : s.maxRollingBytes * 2 = 4 * s.maxBytes := by
    unfold OutputAccumulator.maxRollingBytes
    omega
  have htail : (s.extendTail piece).tailBytes = byteLength (s.tailText ++ piece) := by
    show s.tailBytes + byteLength piece = _
    rw [h.tailBytes, byteLength_append]
  have htotal : (s.extendTail piece).totalDecodedBytes = byteLength (text ++ piece) := by
    show s.totalDecodedBytes + byteLength piece = _
    rw [h.totalDecodedBytes, byteLength_append]
  have hcounts : (s.extendTail piece).Counts text :=
    ⟨h.counts.1, h.counts.2, h.counts.3, h.counts.4⟩
  unfold nextStart OutputAccumulator.appendDecodedText
  by_cases hpiece : piece = []
  · have hsmall := h.small
    subst hpiece
    rw [List.isEmpty_nil, if_pos rfl]
    simp only [List.append_nil] at hkept ⊢
    rw [hkept, if_neg (by omega)]
    exact h
  · rw [if_neg (by simpa using hpiece), hkept]
    simp only
    rw [htail]
    show OutputAccumulator.Tracks (OutputAccumulator.countLines
      (if byteLength (s.tailText ++ piece) > s.maxRollingBytes * 2 then _ else _) piece) _ _
    rw [hrolling]
    by_cases hlong : byteLength (s.tailText ++ piece) > 4 * s.maxBytes
    · rw [if_pos hlong, if_pos hlong]
      obtain ⟨hcut, hcutBytes, hcutSmall⟩ :=
        @Rolled.trim (s.extendTail piece) _ _ hbytes hrolled hlong
      obtain ⟨_, _, _, heq⟩ := (s.extendTail piece).trimTail_rest
      rw [heq] at hcut hcutBytes hcutSmall ⊢
      exact .countLines hpiece ⟨hcounts.1, hcounts.2, hcounts.3, hcounts.4⟩ htotal hcutBytes
        (Nat.le_trans hcutSmall (Nat.mul_le_mul_right _ (by decide))) hcut
    · rw [if_neg hlong, if_neg hlong]
      exact .countLines hpiece hcounts htotal htail (Nat.le_of_not_lt hlong) hrolled

/-! ## A stream -/

theorem Tracks.frame (h : s.Tracks text start) (totalRawBytes : Nat) (decoder : TextDecoder)
    (rawChunks : List (List UInt8)) (tempFile : Option (List (List UInt8))) (finished : Bool) :
    ({ s with totalRawBytes, decoder, rawChunks, tempFile, finished } :
      OutputAccumulator).Tracks text start :=
  ⟨h.totalDecodedBytes, ⟨h.counts.1, h.counts.2, h.counts.3, h.counts.4⟩, h.tailBytes, h.small,
    h.rolled⟩

theorem appendDecodedText_rest (s : OutputAccumulator) (text : List Char) :
    (s.appendDecodedText text).maxLines = s.maxLines ∧
      (s.appendDecodedText text).maxBytes = s.maxBytes ∧
      (s.appendDecodedText text).decoder = s.decoder ∧
      (s.appendDecodedText text).finished = s.finished := by
  unfold appendDecodedText
  split
  · exact ⟨rfl, rfl, rfl, rfl⟩
  · simp only
    obtain ⟨_, _, _, _, hcount⟩ := OutputAccumulator.countLines_rest
      (if (s.extendTail text).tailBytes > (s.extendTail text).maxRollingBytes * 2 then
        (s.extendTail text).trimTail else s.extendTail text) text
    rw [hcount]
    split
    · obtain ⟨_, _, _, htrim⟩ := (s.extendTail text).trimTail_rest
      rw [htrim]
      exact ⟨rfl, rfl, rfl, rfl⟩
    · exact ⟨rfl, rfl, rfl, rfl⟩

theorem ensureTempFile_rest (s : OutputAccumulator) :
    ∃ rawChunks tempFile, s.ensureTempFile = { s with rawChunks, tempFile } := by
  unfold ensureTempFile
  split
  · exact ⟨_, _, rfl⟩
  · exact ⟨_, _, rfl⟩

theorem writeChunk_rest (s : OutputAccumulator) (data : List UInt8) :
    ∃ rawChunks tempFile, s.writeChunk data = { s with rawChunks, tempFile } := by
  unfold writeChunk
  split
  · obtain ⟨_, _, heq⟩ := s.ensureTempFile_rest
    rw [heq]
    exact ⟨_, _, rfl⟩
  · split
    · exact ⟨_, _, rfl⟩
    · exact ⟨_, _, rfl⟩

theorem append_tracks (hbytes : 1 ≤ s.maxBytes) (hopen : s.finished = false)
    (h : s.Tracks text start) (data : List UInt8) :
    ∃ s', s.append data = .ok s' ∧ s'.maxLines = s.maxLines ∧ s'.maxBytes = s.maxBytes ∧
      s'.finished = false ∧ s'.decoder = (s.decoder.decode data).2 ∧
      s'.Tracks (text ++ (s.decoder.decode data).1)
        (nextStart s.maxBytes start (text ++ (s.decoder.decode data).1)) := by
  have hbase : (s.receive data).Tracks text start := h.frame _ _ _ _ _
  have htracks := hbase.appendDecodedText hbytes (s.decoder.decode data).1
  obtain ⟨hmaxLines, hmaxBytes, hdecoder, hfinished⟩ :=
    (s.receive data).appendDecodedText_rest (s.decoder.decode data).1
  obtain ⟨_, _, heq⟩ :=
    ((s.receive data).appendDecodedText (s.decoder.decode data).1).writeChunk_rest data
  unfold append
  rw [if_neg (by rw [hopen]; exact Bool.false_ne_true)]
  refine ⟨((s.receive data).appendDecodedText (s.decoder.decode data).1).writeChunk data, rfl, ?_⟩
  rw [heq]
  exact ⟨hmaxLines, hmaxBytes, hfinished.trans hopen, hdecoder, htracks.frame _ _ _ _ _⟩

theorem finish_tracks (hbytes : 1 ≤ s.maxBytes) (hopen : s.finished = false)
    (h : s.Tracks text start) :
    s.finish.maxLines = s.maxLines ∧ s.finish.maxBytes = s.maxBytes ∧
      s.finish.Tracks (text ++ s.decoder.flush)
        (nextStart s.maxBytes start (text ++ s.decoder.flush)) := by
  have hbase := h.frame s.totalRawBytes s.decoder s.rawChunks s.tempFile true
  have htracks := hbase.appendDecodedText hbytes s.decoder.flush
  obtain ⟨hmaxLines, hmaxBytes, -, -⟩ := appendDecodedText_rest { s with finished := true }
    s.decoder.flush
  unfold finish
  rw [if_neg (by rw [hopen]; exact Bool.false_ne_true)]
  simp only
  split
  · obtain ⟨_, _, heq⟩ := OutputAccumulator.ensureTempFile_rest
      (OutputAccumulator.appendDecodedText { s with finished := true } s.decoder.flush)
    rw [heq]
    exact ⟨hmaxLines, hmaxBytes, htracks.frame _ _ _ _ _⟩
  · exact ⟨hmaxLines, hmaxBytes, htracks⟩

theorem foldlM_append_tracks {chunks : List (List UInt8)} {s : OutputAccumulator}
    {text : List Char} {start : Nat} (hbytes : 1 ≤ s.maxBytes) (hopen : s.finished = false)
    (h : s.Tracks text start) :
    ∃ t, (chunks.foldlM append s).map finish = .ok t ∧ t.maxLines = s.maxLines ∧
      t.maxBytes = s.maxBytes ∧ t.Tracks (text ++ (s.decoder.pieces chunks).flatten)
        (cutPoint s.maxBytes start text (s.decoder.pieces chunks)) := by
  induction chunks generalizing s text start with
  | nil =>
    obtain ⟨hmaxLines, hmaxBytes, htracks⟩ := finish_tracks hbytes hopen h
    refine ⟨s.finish, rfl, hmaxLines, hmaxBytes, ?_⟩
    unfold TextDecoder.pieces
    rw [List.flatten_singleton]
    exact htracks
  | cons chunk chunks ih =>
    obtain ⟨s', happend, hmaxLines, hmaxBytes, hopen', hdecoder, htracks⟩ :=
      append_tracks hbytes hopen h chunk
    obtain ⟨t, ht, htLines, htBytes, hall⟩ := ih (hmaxBytes ▸ hbytes) hopen' htracks
    refine ⟨t, ?_, htLines.trans hmaxLines, htBytes.trans hmaxBytes, ?_⟩
    · rw [List.foldlM_cons, happend]
      exact ht
    · rw [hdecoder, hmaxBytes] at hall
      unfold TextDecoder.pieces cutPoint
      rw [List.flatten_cons, ← List.append_assoc]
      exact hall

end OutputAccumulator

theorem tracks_new (maxLines maxBytes : Option Nat) (tempPath : String) :
    (OutputAccumulator.new maxLines maxBytes tempPath).Tracks [] 0 where
  totalDecodedBytes := rfl
  counts := ⟨rfl, rfl, rfl, rfl⟩
  tailBytes := rfl
  small := Nat.zero_le _
  rolled := ⟨[], rfl, rfl, by simp [OutputAccumulator.new], fun c hc => (nomatch hc)⟩

/-- The state after a whole stream. -/
theorem accumulate_tracks {maxLines maxBytes : Option Nat}
    (hbytes : 1 ≤ maxBytes.getD DEFAULT_MAX_BYTES) (tempPath : String)
    (chunks : List (List UInt8)) :
    ∃ t, accumulate maxLines maxBytes tempPath chunks = .ok t ∧
      t.maxLines = maxLines.getD DEFAULT_MAX_LINES ∧ t.maxBytes = maxBytes.getD DEFAULT_MAX_BYTES ∧
      t.Tracks (TextDecoder.new.pieces chunks).flatten
        (cutPoint (maxBytes.getD DEFAULT_MAX_BYTES) 0 [] (TextDecoder.new.pieces chunks)) :=
  @OutputAccumulator.foldlM_append_tracks chunks _ _ _ hbytes rfl
    (tracks_new maxLines maxBytes tempPath)

/-! ## The snapshot and the whole text -/

/-- Byte `start` of the text lies inside a line that is ended, the lines behind it fit, and
they end with a newline; where there are none, the line has an end that fits. -/
def CutsLine (maxLines maxBytes : Nat) (text : List Char) (start : Nat) : Prop :=
  ∃ front line rest, text = front ++ line ++ '\n' :: rest ∧ lastLine front = [] ∧ '\n' ∉ line ∧
    byteLength front < start ∧ start ≤ byteLength (front ++ line) ∧
    Fits maxLines maxBytes rest ∧
    if rest = [] then ∀ c, line.getLast? = some c → c.utf8Size ≤ maxBytes
    else rest.getLast? = some '\n'

theorem cutsLine_iff {tail : List Char} (htext : text = front ++ tail)
    (hstart : byteLength front = start) :
    CutsLine maxLines maxBytes text start ↔
      lastLine front ≠ [] ∧ ∃ line rest, tail = line ++ '\n' :: rest ∧ '\n' ∉ line ∧
        Fits maxLines maxBytes rest ∧
        if rest = [] then ∀ c, (lastLine front ++ line).getLast? = some c → c.utf8Size ≤ maxBytes
        else rest.getLast? = some '\n' := by
  constructor
  · rintro ⟨before, line, rest, heq, hbefore, hline, hlt, hle, hfits, hend⟩
    rw [htext, List.append_assoc] at heq
    rw [← hstart] at hlt hle
    rw [byteLength_append] at hle
    rcases List.append_eq_append_iff.mp heq with ⟨more, rfl, -⟩ | ⟨head, rfl, hsplit⟩
    · rw [byteLength_append] at hlt
      omega
    · rw [byteLength_append] at hlt hle
      have hhead : head ≠ [] := by
        rintro rfl
        simp at hlt
      obtain ⟨more, rfl, htail⟩ : ∃ more, line = head ++ more ∧ tail = more ++ '\n' :: rest := by
        rcases List.append_eq_append_iff.mp hsplit with ⟨more, rfl, htail⟩ | ⟨more, rfl, htail⟩
        · have hmore : more = [] := by
            rw [byteLength_append] at hle
            exact byteLength_eq_zero.mp (by omega)
          subst hmore
          exact ⟨[], by simp, by simpa using htail.symm⟩
        · exact ⟨more, rfl, htail⟩
      rw [List.mem_append, not_or] at hline
      have hlast : lastLine (before ++ head) = head := by
        rw [lastLine_append_single hline.1, hbefore, List.nil_append]
      rw [hlast]
      exact ⟨hhead, more, rest, htail, hline.2, hfits, hend⟩
  · rintro ⟨hfront, line, rest, rfl, hline, hfits, hend⟩
    obtain ⟨before, hbefore, hlast⟩ := exists_before_lastLine front
    have hpos : byteLength (lastLine front) ≠ 0 := fun h => hfront (byteLength_eq_zero.mp h)
    have hbytes := congrArg byteLength hbefore
    rw [byteLength_append] at hbytes
    refine ⟨before, lastLine front ++ line, rest, ?_, hlast, ?_, by omega, ?_, hfits, hend⟩
    · rw [htext, ← List.append_assoc before, ← hbefore]
      simp
    · rw [List.mem_append, not_or]
      exact ⟨lastLine_noNewline front, hline⟩
    · rw [byteLength_append, byteLength_append]
      omega

theorem fits_nil (maxLines maxBytes : Nat) : Fits maxLines maxBytes [] :=
  ⟨Nat.zero_le _, Nat.zero_le _⟩

theorem truncateTail_partialLine {tail : List Char} (hlines : 1 ≤ maxLines)
    (hfront : lastLine front ≠ []) (htail : '\n' ∉ tail)
    (hlast : ∀ c, front.getLast? = some c → 2 * maxBytes < c.utf8Size + byteLength tail) :
    (truncateTail tail maxLines maxBytes).content =
      (truncateTail (front ++ tail) maxLines maxBytes).content := by
  rcases List.eq_nil_or_concat' (lastLine front) with hnil | ⟨l, c, hc⟩
  · exact absurd hnil hfront
  have hlt := hlast c (by rw [getLast?_lastLine hfront, hc, List.getLast?_concat])
  have hsize : byteLength (l ++ [c]) = byteLength l + c.utf8Size := by simp
  have hall : byteLength (l ++ [c] ++ tail) = byteLength l + c.utf8Size + byteLength tail := by
    rw [byteLength_append, hsize]
  have hwhole : lastLine (front ++ tail) = l ++ [c] ++ tail := by
    rw [lastLine_append_single htail, hc]
  have hsplit : splitLinesForCounting (front ++ tail) =
      linesBefore (front ++ tail) ++ [l ++ [c] ++ tail] := by
    rw [splitLinesForCounting_eq, hwhole, if_neg (by simp)]
  rw [truncateTail_longLine hlines hsplit (by rw [byteLength_append, hsize]; omega)]
  by_cases hle : byteLength tail ≤ maxBytes
  · have hfits : Fits maxLines maxBytes tail := by
      refine ⟨?_, hle⟩
      by_cases hne : tail = []
      · rw [hne]
        exact Nat.zero_le _
      · rw [splitLinesForCounting_single htail hne]
        exact hlines
    rw [truncateTail_fits hfits, hall, List.append_assoc]
    exact (dropBytes_last (by omega) (by omega) tail).symm
  · have hne : tail ≠ [] := by
      rintro rfl
      simp at hle
    have hone : splitLinesForCounting tail = [] ++ [tail] := splitLinesForCounting_single htail hne
    rw [truncateTail_longLine hlines hone (by omega),
      dropBytes_append (by rw [hall, hsize]; omega), hall, hsize]
    congr 1
    omega

theorem truncateTail_cutLine {line rest : List Char} (hlines : 1 ≤ maxLines) (hbytes : 1 ≤ maxBytes)
    (hfront : lastLine front ≠ []) (hline : '\n' ∉ line) (hlast : ∀ c, front.getLast? = some c →
      2 * maxBytes < c.utf8Size + byteLength (line ++ '\n' :: rest)) :
    (truncateTail rest maxLines maxBytes).content =
        (truncateTail (front ++ (line ++ '\n' :: rest)) maxLines maxBytes).content ↔
      ¬ (Fits maxLines maxBytes rest ∧
        if rest = [] then ∀ c, (lastLine front ++ line).getLast? = some c → c.utf8Size ≤ maxBytes
        else rest.getLast? = some '\n') := by
  rcases List.eq_nil_or_concat' (lastLine front) with hnil | ⟨l, c, hc⟩
  · exact absurd hnil hfront
  have hlt := hlast c (by rw [getLast?_lastLine hfront, hc, List.getLast?_concat])
  have hsize : byteLength (lastLine front ++ line) =
      byteLength l + c.utf8Size + byteLength line := by
    rw [hc, byteLength_append, byteLength_append, byteLength_cons, byteLength_nil]
    omega
  have hnewline : byteLength (line ++ '\n' :: rest) = byteLength line + 1 + byteLength rest := by
    rw [byteLength_append, byteLength_cons]
    have hone : Char.utf8Size '\n' = 1 := rfl
    omega
  have htext : front ++ (line ++ '\n' :: rest) = (front ++ line ++ ['\n']) ++ rest := by simp
  have hended : lastLine (front ++ line ++ ['\n']) = [] := lastLine_newline _ (by simp)
  have hsplit : splitLinesForCounting (front ++ line ++ ['\n']) =
      linesBefore (front ++ line) ++ [lastLine front ++ line] := by
    rw [splitLinesForCounting_eq, hended, linesBefore_newline _ (by simp),
      lastLine_append_single hline]
    simp
  rw [htext]
  by_cases hfits : Fits maxLines maxBytes rest
  · rw [truncateTail_fits hfits]
    by_cases hrest : rest = []
    · subst hrest
      have hlong : maxBytes < byteLength (lastLine front ++ line) := by
        rw [hsize]
        rw [byteLength_nil] at hnewline
        omega
      have hne : lastLine front ++ line ≠ [] := by simp [hfront]
      obtain ⟨l', d, hd⟩ := (List.eq_nil_or_concat' (lastLine front ++ line)).resolve_left hne
      rw [List.append_nil, truncateTail_longLine hlines hsplit hlong, hd, eq_comm,
        dropBytes_eq_nil (hd ▸ hlong)]
      simp [hfits]
    · rw [truncateTail_keep hended hsplit hfits hrest (by rw [hsize]; omega) hbytes]
      have hjoin := joinLines_splitLinesForCounting rest
      by_cases hend : rest.getLast? = some '\n'
      · rw [if_pos hend] at hjoin
        have hdiff : rest ≠ joinLines (splitLinesForCounting rest) := by
          intro heq
          rw [← heq] at hjoin
          have hlength := congrArg List.length hjoin
          simp at hlength
        simp [hdiff, hfits, hrest, hend]
      · rw [if_neg hend, List.append_nil] at hjoin
        simp [← hjoin, hrest, hend]
  · rw [truncateTail_append hended hfits]
    simp [hfits]

theorem exists_firstNewline (h : '\n' ∈ text) :
    ∃ line rest, text = line ++ '\n' :: rest ∧ '\n' ∉ line ∧
      (text.dropWhile (· ≠ '\n')).tail = rest := by
  induction text with
  | nil => cases h
  | cons c cs ih =>
    by_cases hc : c = '\n'
    · rw [hc]
      exact ⟨[], cs, rfl, List.not_mem_nil, by simp⟩
    · obtain ⟨line, rest, hcs, hline, hrest⟩ := ih (by simpa [Ne.symm hc] using h)
      refine ⟨c :: line, rest, by rw [hcs]; rfl, by simp [Ne.symm hc, hline], ?_⟩
      rw [List.dropWhile_cons_of_pos (by simpa using hc)]
      exact hrest

theorem firstNewline_unique {l l' r r' : List Char} (hl : '\n' ∉ l) (hl' : '\n' ∉ l')
    (h : l ++ '\n' :: r = l' ++ '\n' :: r') : l = l' ∧ r = r' := by
  induction l generalizing l' with
  | nil =>
    cases l' with
    | nil => exact ⟨rfl, (List.cons.inj h).2⟩
    | cons c cs => exact absurd (List.mem_cons.mpr (.inl (List.cons.inj h).1)) hl'
  | cons c cs ih =>
    cases l' with
    | nil => exact absurd (List.mem_cons.mpr (.inl (List.cons.inj h).1.symm)) hl
    | cons d ds =>
      obtain ⟨rfl, htail⟩ := List.cons.inj h
      obtain ⟨rfl, rfl⟩ := ih (fun hc => hl (List.mem_cons_of_mem _ hc))
        (fun hd => hl' (List.mem_cons_of_mem _ hd)) htail
      exact ⟨rfl, rfl⟩

theorem OutputAccumulator.Tracks.content_iff (h : s.Tracks text start) (hlines : 1 ≤ s.maxLines)
    (hbytes : 1 ≤ s.maxBytes) :
    (truncateTail s.getSnapshotText s.maxLines s.maxBytes).content =
        (truncateTail text s.maxLines s.maxBytes).content ↔
      ¬ CutsLine s.maxLines s.maxBytes text start := by
  obtain ⟨front, htext, hstart, hboundary, hlast⟩ := h.rolled
  rw [cutsLine_iff htext hstart]
  rw [← lastLine_eq_nil] at hboundary
  unfold OutputAccumulator.getSnapshotText
  by_cases hfront : lastLine front = []
  · -- the buffer begins with a line
    have hwhole : (truncateTail s.tailText s.maxLines s.maxBytes).content =
        (truncateTail text s.maxLines s.maxBytes).content := by
      rw [htext]
      rcases (lastLine_eq_nil front).mp hfront with rfl | hend
      · rfl
      · have hlt := hlast _ hend
        have hone : Char.utf8Size '\n' = 1 := rfl
        exact (truncateTail_append hfront fun hfits => by have hle := hfits.2; omega).symm
    rw [if_pos (hboundary.mpr hfront), hwhole]
    simp [hfront]
  · rw [if_neg fun h => hfront (hboundary.mp h)]
    by_cases hmem : '\n' ∈ s.tailText
    · obtain ⟨line, rest, htail, hline, hrest⟩ := exists_firstNewline hmem
      rw [if_pos hmem, hrest, htext]
      rw [htail] at hlast ⊢
      rw [truncateTail_cutLine hlines hbytes hfront hline hlast]
      constructor
      · rintro hnot ⟨-, line', rest', heq, hline', hfits, hend⟩
        obtain ⟨rfl, rfl⟩ := firstNewline_unique hline hline' heq
        exact hnot ⟨hfits, hend⟩
      · rintro hnot ⟨hfits, hend⟩
        exact hnot ⟨hfront, line, rest, rfl, hline, hfits, hend⟩
    · rw [if_neg hmem, htext, truncateTail_partialLine hlines hfront hmem hlast]
      refine iff_of_true rfl ?_
      rintro ⟨-, line, rest, heq, -⟩
      exact hmem (by rw [heq]; simp)

/-- The snapshot has the content, the totals and the flag of a batch truncation. -/
def OutputSnapshot.Agrees (s : OutputSnapshot) (batch : TruncationResult) : Prop :=
  s.content = batch.content ∧ s.truncation.totalLines = batch.totalLines ∧
    s.truncation.totalBytes = batch.totalBytes ∧ s.truncation.truncated = batch.truncated

theorem truncateTail_totals (content : List Char) (maxLines maxBytes : Nat) :
    (truncateTail content maxLines maxBytes).totalLines = (splitLinesForCounting content).length ∧
      (truncateTail content maxLines maxBytes).totalBytes = byteLength content ∧
      (truncateTail content maxLines maxBytes).truncated =
        (decide ((splitLinesForCounting content).length > maxLines) ||
          decide (byteLength content > maxBytes)) := by
  unfold truncateTail
  simp only
  split
  · refine ⟨rfl, rfl, ?_⟩
    simp
    omega
  · refine ⟨rfl, rfl, ?_⟩
    simp
    omega

/-- The snapshot of a stream is the tail of its whole text exactly when the buffer was not
cut inside a line behind which the rest fits. -/
theorem snapshot_agrees_iff {maxLines maxBytes : Nat} (hlines : 1 ≤ maxLines)
    (hbytes : 1 ≤ maxBytes) (tempPath : String) {chunks : List (List UInt8)} {text : List Char}
    (hutf8 : chunks.flatten = encode text) (persistIfTruncated : Bool) :
    ∃ s, accumulate (some maxLines) (some maxBytes) tempPath chunks = .ok s ∧
      ((s.snapshot persistIfTruncated).1.Agrees
          (truncateTail (withoutBom text) maxLines maxBytes) ↔
        ¬ CutsLine maxLines maxBytes (withoutBom text)
          (cutPoint maxBytes 0 [] (TextDecoder.new.pieces chunks))) := by
  obtain ⟨s, hs, hsLines, hsBytes, htracks⟩ :=
    @accumulate_tracks (some maxLines) (some maxBytes) hbytes tempPath chunks
  rw [TextDecoder.pieces_flatten hutf8] at htracks
  simp only [Option.getD_some] at hsLines hsBytes htracks
  refine ⟨s, hs, ?_⟩
  have hcontent := htracks.content_iff (hsLines ▸ hlines) (hsBytes ▸ hbytes)
  rw [hsLines, hsBytes] at hcontent
  obtain ⟨htotalLines, htotalBytes, htruncated⟩ :=
    truncateTail_totals (withoutBom text) maxLines maxBytes
  rw [← hcontent]
  constructor
  · intro h
    have hsame := h.1
    unfold OutputAccumulator.snapshot at hsame
    rwa [hsLines, hsBytes] at hsame
  · intro h
    refine ⟨?_, ?_, ?_, ?_⟩
    · unfold OutputAccumulator.snapshot
      rwa [hsLines, hsBytes]
    · rw [htotalLines]
      exact htracks.counts.totalLines
    · rw [htotalBytes]
      exact htracks.totalDecodedBytes
    · rw [htruncated, ← htracks.counts.totalLines, ← htracks.totalDecodedBytes, ← hsLines,
        ← hsBytes]
      rfl

/-- Output that comes in two chunks, cut inside of a character. -/
def cutChunks : List (List UInt8) := [[104, 195], [169, 10, 111, 107]]

theorem snapshot_agrees_example :
    ∃ s, accumulate (some 5) (some 4) "/tmp/out.log" cutChunks = .ok s ∧
      (s.snapshot false).1.Agrees (truncateTail ['h', 'é', '\n', 'o', 'k'] 5 4) := by
  obtain ⟨s, hs, hiff⟩ := @snapshot_agrees_iff 5 4 (by decide) (by decide) "/tmp/out.log"
    cutChunks ['h', 'é', '\n', 'o', 'k'] (by decide +kernel) false
  refine ⟨s, hs, hiff.mpr ?_⟩
  rintro ⟨front, _, _, _, _, _, hlt, _⟩
  have hstart : cutPoint 4 0 [] (TextDecoder.new.pieces cutChunks) = 0 := by decide +kernel
  rw [hstart] at hlt
  exact Nat.not_lt_zero _ hlt

def longLine : List Char := List.replicate 20 'a' ++ ['\n']

/-- A long line is shown as nothing once its newline has come. -/
theorem snapshot_loses_line :
    ∃ s, accumulate (some 5) (some 4) "/tmp/out.log" [encode longLine] = .ok s ∧
      ¬ (s.snapshot false).1.Agrees (truncateTail longLine 5 4) := by
  obtain ⟨s, hs, hsLines, hsBytes, htracks⟩ :=
    @accumulate_tracks (some 5) (some 4) (by decide) "/tmp/out.log" [encode longLine]
  have htext : (TextDecoder.new.pieces [encode longLine]).flatten = longLine := by
    rw [TextDecoder.pieces_single]
    rfl
  have hstart : cutPoint 4 0 [] (TextDecoder.new.pieces [encode longLine]) = 13 := by
    rw [TextDecoder.pieces_single]
    rfl
  simp only [Option.getD_some] at hsLines hsBytes htracks
  rw [htext, hstart] at htracks
  refine ⟨s, hs, fun h => ?_⟩
  have hcontent := h.1
  unfold OutputAccumulator.snapshot at hcontent
  have hiff := htracks.content_iff (by rw [hsLines]; decide) (by rw [hsBytes]; decide)
  rw [hsLines, hsBytes] at hcontent hiff
  refine hiff.mp hcontent ⟨[], List.replicate 20 'a', [], rfl, rfl, by decide, by decide,
    by decide, fits_nil 5 4, ?_⟩
  rw [if_pos rfl]
  intro c hc
  obtain rfl := Option.some.inj hc
  decide

end PieLab

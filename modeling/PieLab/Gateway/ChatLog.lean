import PieLab.Session.TornFile
import PieLab.Lib.Runs
import PieLab.Lib.StableSort
import Mathlib.Data.List.Perm.Subperm

/-
  The log file of a chat conversation

  The records of a conversation are the lines of one file. A runtime that connects
  reads the file, goes on from the largest record id, and appends a line for each
  record at the end of the file, whatever the file ends with.

  What is proved:
    1. `RecordLog.Fresh` — the next id is above all ids in memory, in every run.
    2. `readConversationLog_lines` — a file of complete lines reads back.
    3. `readConversationLog_torn` — one line that does not parse empties the history.
    4. `keepsHistory_iff` — the history survives connecting and appending exactly
       where the file does not end in an incomplete line.

  Correspondence (TypeScript ↔ Lean), packages/coding-agent/src/core/gateway/chat:
    log.ts, `readConversationLog`           ↔ `readConversationLog`
    log.ts, `appendConversationRecord`      ↔ `ChatFile.appendRecord`, its file
    runtime.ts, `initialize`, `appendRecord` ↔ `RecordLog.load`, `RecordLog.append`
  A file that is not there reads as an empty one. An entry of the log is the JSON
  value of its line, whose `recordId` is a natural number.
-/

namespace PieLab.Gateway

open Lib

/-! ## Records and their ids -/

/-- The records of a runtime, in memory. -/
structure RecordLog (ρ : Type) where
  records : List ρ
  nextRecordId : Nat

section RecordLog
variable {ρ : Type} (idOf : ρ → Nat)

/-- The list `initialize` starts with. -/
def RecordLog.load (records : List ρ) : RecordLog ρ where
  records
  nextRecordId := records.foldl (fun last record => max last (idOf record)) 0 + 1

def RecordLog.append (log : RecordLog ρ) (record : ρ) : RecordLog ρ where
  records := log.records ++ [record]
  nextRecordId := max log.nextRecordId (idOf record + 1)

/-- The next id is new. -/
def RecordLog.Fresh (log : RecordLog ρ) :
    Prop := ∀ record ∈ log.records, idOf record < log.nextRecordId

variable {idOf}

theorem le_foldl_max (records : List ρ) (last : Nat) :
    last ≤ records.foldl (fun last record => max last (idOf record)) last ∧
      ∀ record ∈ records, idOf record ≤ records.foldl (fun last record => max last (idOf record)) last := by
  induction records generalizing last with
  | nil => exact ⟨le_refl last, nofun⟩
  | cons record records ih =>
    have hrest := ih (max last (idOf record))
    rw [List.foldl_cons]
    refine ⟨by omega, ?_⟩
    intro other hother
    obtain rfl | hother := List.mem_cons.1 hother
    · omega
    · exact hrest.2 other hother

theorem RecordLog.load_fresh (records : List ρ) : (RecordLog.load idOf records).Fresh idOf := by
  intro record hrecord
  have hle := (@le_foldl_max ρ idOf records 0).2 record hrecord
  show idOf record < _ + 1
  omega

theorem RecordLog.Fresh.append {log : RecordLog ρ} (h : log.Fresh idOf) (record : ρ) :
    (log.append idOf record).Fresh idOf := by
  intro other hother
  show idOf other < max log.nextRecordId (idOf record + 1)
  obtain hold | hnew := List.mem_append.1 hother
  · have hlt := h other hold
    omega
  · rw [List.mem_singleton.1 hnew]
    omega

end RecordLog

/-! ## The file -/

/-- `record.recordId` -/
def recordIdOf (record : Json) : Nat := ((record.get? "recordId").bind Json.index?).getD 0

def byRecordId (a b : Json) : ℚ := (recordIdOf a : ℚ) - recordIdOf b

/-- `line.trim()` -/
def trimLine (line : List Char) : List Char :=
  ((line.dropWhile isJsSpace).reverse.dropWhile isJsSpace).reverse

/-- The lines that are parsed. -/
def logLines (content : List Char) : List (List Char) :=
  ((content.splitOn '\n').map trimLine).filter (fun line => line ≠ [])

section Text
variable (fmt : NumberFormat)

def readConversationLog (content : List Char) : List Json :=
  match (logLines content).mapM (jsonParse fmt) with
  | some records => sortBy byRecordId records
  | none => []

/-- A log file and the runtime that has it open. -/
structure ChatFile where
  content : List Char
  log : RecordLog Json

/-- `ConversationRuntime.connect` -/
def ChatFile.connect (content : List Char) : ChatFile where
  content
  log := .load recordIdOf (readConversationLog fmt content)

def ChatFile.appendRecord (file : ChatFile) (record : Json) : ChatFile where
  content := file.content ++ printLine fmt record
  log := file.log.append recordIdOf record

/-- A record as the runtime writes it: its type comes first, its id is a natural number, and it
reads back as it is. -/
structure IsChatRecord (record : Json) : Prop extends AppendedEntry fmt record where
  numbered : ∃ recordId : Nat, record.get? "recordId" = some (.number (some recordId))
  printed : printed record = record

/-- The runtime appends a record under the next id. -/
def Appends (s : ChatFile) (record : Json) (t : ChatFile) : Prop :=
  IsChatRecord fmt record ∧ recordIdOf record = s.log.nextRecordId ∧ t = s.appendRecord fmt record

/-- What a decoder makes of the beginning of a record's line: the brace that opens it comes
first, unless nothing of it was written. -/
def IsIncompleteLine (tail : List Char) : Prop :=
  '\n' ∉ tail ∧ (tail = [] ∨ tail.head? = some '\x7b')

/-- Connecting loads the records, the ids issued afterwards are larger, and after the appends
the old and the new records are loaded. -/
structure KeepsHistory (content : List Char) (records : List Json) : Prop where
  loads : records.Subperm (ChatFile.connect fmt content).log.records
  issues : ∀ {appended : List Json} {file : ChatFile},
    Run (Appends fmt) (ChatFile.connect fmt content) appended file →
    ∀ new ∈ appended, ∀ old ∈ records, recordIdOf old < recordIdOf new
  reloads : ∀ {appended : List Json} {file : ChatFile},
    Run (Appends fmt) (ChatFile.connect fmt content) appended file →
    (records ++ appended).Subperm (ChatFile.connect fmt file.content).log.records

end Text

/-! ## Reading the lines -/

section Text
variable {fmt : NumberFormat}

theorem trimLine_eq {line : List Char} (hhead : line.head? = some '\x7b')
    (hlast : line.getLast? = some '\x7d') : trimLine line = line := by
  have hopen : line.dropWhile isJsSpace = line := by
    obtain ⟨rest, rfl⟩ := List.head?_eq_some_iff.1 hhead
    rfl
  have hclose : line.reverse.dropWhile isJsSpace = line.reverse := by
    rw [← List.head?_reverse] at hlast
    obtain ⟨rest, hrest⟩ := List.head?_eq_some_iff.1 hlast
    rw [hrest]
    rfl
  unfold trimLine
  rw [hopen, hclose, List.reverse_reverse]

namespace IsChatRecord
variable {record : Json} (h : IsChatRecord fmt record)
include h

theorem head : (stringify fmt record).head? = some '\x7b' := by
  obtain ⟨type, fields, rfl⟩ := h.typeFirst
  rfl

theorem last : (stringify fmt record).getLast? = some '\x7d' := by
  obtain ⟨type, fields, rfl⟩ := h.typeFirst
  rw [stringify, List.getLast?_append_of_ne_nil _ (by simp)]
  rfl

theorem parse : jsonParse fmt (stringify fmt record) = some record := by
  have hread := @jsonParse_stringify fmt _ h.valid [] [] rfl rfl
  rwa [List.nil_append, List.append_nil, h.printed] at hread

theorem parse_torn {tail : List Char} (htail : tail.head? = some '\x7b') :
    jsonParse fmt (tail ++ stringify fmt record) = none := by
  obtain ⟨type, fields, rfl⟩ := h.typeFirst
  obtain ⟨inner, hobject⟩ :=
    @objectText_stringify fmt "type" (.string type) fields 't' ['y', 'p', 'e']
    rfl (by decide) (by decide) h.valid
  cases hread : jsonParse fmt (tail ++ stringify fmt (.object (("type", .string type) :: fields))) with
  | none => rfl
  | some v =>
    have hspace := jsonParse_append hobject hread
    obtain ⟨rest, rfl⟩ := List.head?_eq_some_iff.1 htail
    exact absurd hspace (by simp [isJsonSpace])

end IsChatRecord

theorem splitOn_printLines {records : List Json} (h : ∀ record ∈ records, IsChatRecord fmt record)
    {tail : List Char} (htail : '\n' ∉ tail) :
    (printLines fmt records ++ tail).splitOn '\n' = records.map (stringify fmt) ++ [tail] := by
  induction records with
  | nil => exact splitOn_single htail
  | cons record records ih =>
    have hline := stringify_noNewline record (h record List.mem_cons_self).valid
    have hrest := ih fun other hother => h other (List.mem_cons_of_mem _ hother)
    have hflat : printLines fmt (record :: records) ++ tail =
        stringify fmt record ++ '\n' :: (printLines fmt records ++ tail) := by
      simp [printLines, printLine]
    rw [hflat, List.splitOn_append_cons_self, splitOn_single hline, hrest]
    rfl

theorem mapM_parse {records : List Json} (h : ∀ record ∈ records, IsChatRecord fmt record) :
    (records.map (stringify fmt)).mapM (jsonParse fmt) = some records := by
  induction records with
  | nil => rfl
  | cons record records ih =>
    rw [List.map_cons, List.mapM_cons, (h record List.mem_cons_self).parse,
      ih fun other hother => h other (List.mem_cons_of_mem _ hother)]
    rfl

theorem mapM_eq_none {α β : Type} {f : α → Option β} {l : List α} {a : α} (ha : a ∈ l)
    (hf : f a = none) : l.mapM f = none := by
  induction l with
  | nil => exact absurd ha List.not_mem_nil
  | cons b l ih =>
    rw [List.mapM_cons]
    obtain rfl | ha := List.mem_cons.1 ha
    · rw [hf]
      rfl
    · rw [ih ha]
      cases f b <;> rfl

theorem map_trimLine {records : List Json} (h : ∀ record ∈ records, IsChatRecord fmt record) :
    ((records.map (stringify fmt)).map trimLine).filter (fun line => line ≠ []) =
      records.map (stringify fmt) := by
  have htrim : (records.map (stringify fmt)).map trimLine = records.map (stringify fmt) := by
    rw [List.map_map]
    apply List.map_congr_left
    intro record hrecord
    exact trimLine_eq (h record hrecord).head (h record hrecord).last
  rw [htrim, List.filter_eq_self]
  intro line hline
  obtain ⟨record, hrecord, rfl⟩ := List.mem_map.1 hline
  have hhead := (h record hrecord).head
  cases hempty : stringify fmt record with
  | nil => rw [hempty] at hhead; cases hhead
  | cons c rest => rfl

/-- A file of complete lines reads back, in the order of the ids. -/
theorem readConversationLog_lines {records : List Json}
    (h : ∀ record ∈ records, IsChatRecord fmt record) :
    readConversationLog fmt (printLines fmt records) = sortBy byRecordId records := by
  have hsplit := @splitOn_printLines fmt records h [] (by simp)
  rw [List.append_nil] at hsplit
  have hlines : logLines (printLines fmt records) = records.map (stringify fmt) := by
    unfold logLines
    rw [hsplit, List.map_append, List.filter_append, map_trimLine h]
    exact List.append_nil _
  unfold readConversationLog
  rw [hlines, mapM_parse h]

theorem readConversationLog_bad {content line : List Char} (hline : line ∈ content.splitOn '\n')
    (hne : trimLine line ≠ []) (hparse : jsonParse fmt (trimLine line) = none) :
    readConversationLog fmt content = [] := by
  have hmem : trimLine line ∈ logLines content := by
    unfold logLines
    rw [List.mem_filter]
    exact ⟨List.mem_map_of_mem hline, by simpa using hne⟩
  unfold readConversationLog
  rw [mapM_eq_none hmem hparse]

/-- A record appended behind an incomplete line empties the history. -/
theorem readConversationLog_torn {records : List Json}
    (h : ∀ record ∈ records, IsChatRecord fmt record) {tail : List Char} (hnew : '\n' ∉ tail)
    (htail : tail.head? = some '\x7b') {record : Json} (hrecord : IsChatRecord fmt record) :
    readConversationLog fmt (printLines fmt records ++ tail ++ printLine fmt record) = [] := by
  have hline : tail ++ stringify fmt record ∈
      (printLines fmt records ++ tail ++ printLine fmt record).splitOn '\n' := by
    have hno : '\n' ∉ tail ++ stringify fmt record := by
      rw [List.mem_append, not_or]
      exact ⟨hnew, stringify_noNewline record hrecord.valid⟩
    have hcut : printLines fmt records ++ tail ++ printLine fmt record =
        printLines fmt records ++ (tail ++ stringify fmt record) ++ '\n' :: [] := by
      simp [printLine]
    rw [hcut, List.splitOn_append_cons_self, splitOn_printLines h hno]
    simp
  have hhead : (tail ++ stringify fmt record).head? = some '\x7b' := by
    rw [List.head?_append, htail]
    rfl
  have hlast : (tail ++ stringify fmt record).getLast? = some '\x7d' := by
    rw [List.getLast?_append, hrecord.last]
    rfl
  have htrim := trimLine_eq hhead hlast
  apply readConversationLog_bad hline
  · rw [htrim]
    intro hnil
    rw [hnil] at hhead
    cases hhead
  · rw [htrim]
    exact hrecord.parse_torn htail

/-! ## Connecting and appending -/

theorem connect_records (content : List Char) :
    (ChatFile.connect fmt content).log.records = readConversationLog fmt content := rfl

theorem Appends.run {s t : ChatFile} {appended : List Json}
    (hrun : Run (Appends fmt) s appended t) :
    t.content = s.content ++ printLines fmt appended ∧
      ∀ record ∈ appended, IsChatRecord fmt record ∧ s.log.nextRecordId ≤ recordIdOf record := by
  induction hrun with
  | nil s => exact ⟨(List.append_nil _).symm, nofun⟩
  | cons happend rest ih =>
    obtain ⟨hrecord, hid, rfl⟩ := happend
    obtain ⟨hcontent, hrest⟩ := ih
    constructor
    · rw [hcontent]
      simp [ChatFile.appendRecord, printLines]
    · intro record hmem
      obtain rfl | hmem := List.mem_cons.1 hmem
      · exact ⟨hrecord, hid.ge⟩
      · obtain ⟨hvalid, hle⟩ := hrest record hmem
        exact ⟨hvalid, (le_max_left _ _).trans hle⟩

theorem keepsHistory_lines {records : List Json} (h : ∀ record ∈ records, IsChatRecord fmt record) :
    KeepsHistory fmt (printLines fmt records) records where
  loads := by
    rw [connect_records, readConversationLog_lines h]
    exact (sortBy_perm byRecordId records).symm.subperm
  issues := by
    intro appended file hrun new hnew old hold
    have hloaded : old ∈ (ChatFile.connect fmt (printLines fmt records)).log.records := by
      rw [connect_records, readConversationLog_lines h, mem_sortBy]
      exact hold
    have hlt := RecordLog.load_fresh _ old hloaded
    exact hlt.trans_le ((Appends.run hrun).2 new hnew).2
  reloads := by
    intro appended file hrun
    obtain ⟨hcontent, happended⟩ := Appends.run hrun
    have hlines : file.content = printLines fmt (records ++ appended) := by
      rw [hcontent]
      exact (List.flatMap_append ..).symm
    have hall : ∀ record ∈ records ++ appended, IsChatRecord fmt record := by
      intro record hrecord
      obtain hold | hnew := List.mem_append.1 hrecord
      · exact h record hold
      · exact (happended record hnew).1
    rw [connect_records, hlines, readConversationLog_lines hall]
    exact (sortBy_perm byRecordId _).symm.subperm

/-- What `appendError` writes. -/
def errorRecord (recordId : Nat) (message : String) : Json :=
  .object [("type", .string "error"), ("recordId", .number (some recordId)), ("message", .string message)]

theorem errorRecord_isChatRecord {recordId : Nat} (h : fmt.IsNumber recordId) (message : String) :
    IsChatRecord fmt (errorRecord recordId message) where
  typeFirst := ⟨_, _, rfl⟩
  valid := ⟨by simp, trivial, h, trivial, trivial⟩
  numbered := ⟨recordId, by simp [errorRecord, Json.get?, List.lookup_cons]⟩
  printed := rfl

theorem errorRecord_id (recordId : Nat) (message : String) :
    recordIdOf (errorRecord recordId message) = recordId := by
  have hget : (errorRecord recordId message).get? "recordId" = some (.number (some recordId)) := rfl
  unfold recordIdOf
  rw [hget]
  simp [Json.index?]

/-- The history of a log is kept exactly if its file does not end in an incomplete line. That
the next id can be printed is what the runtime relies on to write a record at all. -/
theorem keepsHistory_iff {records : List Json} (h : ∀ record ∈ records, IsChatRecord fmt record)
    {tail : List Char} (htail : IsIncompleteLine tail)
    (hnext : fmt.IsNumber (ChatFile.connect fmt (printLines fmt records ++ tail)).log.nextRecordId) :
    KeepsHistory fmt (printLines fmt records ++ tail) records ↔ tail = [] := by
  constructor
  · intro hkeeps
    obtain ⟨hnew, htail | htail⟩ := htail
    · exact htail
    · -- the next record appended takes the history with it
      obtain ⟨record, hrecord⟩ : ∃ record, record =
        errorRecord (ChatFile.connect fmt (printLines fmt records ++ tail)).log.nextRecordId "" := ⟨_, rfl⟩
      have hvalid : IsChatRecord fmt record := hrecord ▸ errorRecord_isChatRecord hnext ""
      have hid := hrecord ▸ errorRecord_id _ ""
      have hloaded := hkeeps.reloads (.single ⟨hvalid, hid, rfl⟩)
      have hempty : (ChatFile.connect fmt (ChatFile.appendRecord fmt (ChatFile.connect fmt
          (printLines fmt records ++ tail)) record).content).log.records = [] := by
        rw [connect_records]
        exact readConversationLog_torn h hnew htail hvalid
      rw [hempty, List.subperm_nil] at hloaded
      exact absurd hloaded (by simp)
  · rintro rfl
    rw [List.append_nil]
    exact keepsHistory_lines h

section Examples

/-- One message is in the log. -/
def firstMessage : Json :=
  .object [("type", .string "inbound"), ("recordId", .number (some 1)), ("text", .string "hello")]

theorem firstMessage_isChatRecord : IsChatRecord digitFormat firstMessage where
  typeFirst := ⟨_, _, rfl⟩
  valid := ⟨by decide, trivial, ⟨1, by decide, rfl⟩, trivial, trivial⟩
  numbered := ⟨1, by simp [firstMessage, Json.get?, List.lookup_cons]⟩
  printed := rfl

theorem oneMessage : ∀ record ∈ [firstMessage], IsChatRecord digitFormat record := by
  intro record hrecord
  rw [List.mem_singleton.1 hrecord]
  exact firstMessage_isChatRecord

theorem tornLine_incomplete : IsIncompleteLine tornLine := ⟨tornLine_noNewline, .inr rfl⟩

theorem tornLine_empties :
    readConversationLog digitFormat (printLines digitFormat [firstMessage] ++ tornLine) = [] := by
  have hsplit := splitOn_printLines oneMessage tornLine_noNewline
  apply @readConversationLog_bad _ _ tornLine
  · rw [hsplit]
    simp
  · decide
  · rfl

theorem firstMessage_id : recordIdOf firstMessage = 1 := by
  have hget : firstMessage.get? "recordId" = some (.number (some 1)) := rfl
  unfold recordIdOf
  rw [hget]
  simp [Json.index?]

/-- A file that ends in its newline. -/
theorem keepsHistory_iff_example :
    KeepsHistory digitFormat (printLines digitFormat [firstMessage] ++ []) [firstMessage] := by
  have hread : readConversationLog digitFormat (printLines digitFormat [firstMessage] ++ []) =
      [firstMessage] := by
    rw [List.append_nil, readConversationLog_lines oneMessage]
    exact sortBy_of_pairwise (List.pairwise_singleton _ _)
  have hnext : (ChatFile.connect digitFormat
      (printLines digitFormat [firstMessage] ++ [])).log.nextRecordId = 2 := by
    unfold ChatFile.connect
    rw [hread]
    show max 0 (recordIdOf firstMessage) + 1 = 2
    rw [firstMessage_id]
    rfl
  apply (keepsHistory_iff oneMessage ⟨List.not_mem_nil, .inl rfl⟩ _).2 rfl
  rw [hnext]
  exact ⟨2, by decide, rfl⟩

/-- A message whose line was cut off empties the history at once. -/
theorem tornLine_loses_history : (∀ record ∈ [firstMessage], IsChatRecord digitFormat record) ∧
    IsIncompleteLine tornLine ∧
    ¬ KeepsHistory digitFormat (printLines digitFormat [firstMessage] ++ tornLine) [firstMessage] := by
  refine ⟨oneMessage, tornLine_incomplete, ?_⟩
  intro hkeeps
  have hloads := hkeeps.loads
  rw [connect_records, tornLine_empties, List.subperm_nil] at hloads
  exact List.cons_ne_nil _ _ hloads

end Examples

end Text

end PieLab.Gateway

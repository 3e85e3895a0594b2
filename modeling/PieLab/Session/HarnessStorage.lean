import PieLab.Lib.IsoDate
import PieLab.Session.PrintedEntries
import PieLab.Session.Manager

/-
  The session storage of the harness

  A session is a file of lines, a header and the entries, and what has been read of
  it: the entries, the index by id, the labels and the leaf. Every operation appends
  one line, and moving the leaf is an entry of its own. Opening the file computes all
  of it again from the lines.

  The header is written as it is given, but one without an id or a working directory
  is not read.

  What is proved:
    1. `loadLines_printed` — the lines that were written are read as the entries.
    2. `run_written`       — in every run the file, the index, the labels and the leaf
       follow the entries.
    3. `reopens_iff`       — where every append is all or nothing, the written file
       opens to the same state exactly where the session was created with an id and a
       working directory.

  Correspondence (TypeScript ↔ Lean), packages/agent/src/harness/session:
    jsonl-storage.ts: `new Map`, `labelsById` ↔ `RawMap`; the methods of
      `JsonlSessionStorage` ↔ the functions of the same name on `JsonlStorage`, `Live`
    session.ts: the methods of `Session` ↔ `SessionOp`, `Live.perform`, `getBranch`
    `fs.appendFile` ↔ `appendFile`, what it does is part of the call
-/

namespace PieLab.HarnessStorage

open Lib

/-! ## Reading -/

/-- What is thrown: a `SessionError`, or a `TypeError` of the language. -/
inductive Thrown where
  | session (code message : String)
  | typeError (message : String)
  deriving DecidableEq, Repr

structure SessionHeader where
  id : String
  timestamp : String
  cwd : String
  parentSession : Option String
  deriving DecidableEq, Repr

def SessionHeader.toJson (header : SessionHeader) : Json :=
  .object ([("type", .string "session"), ("version", .number (some 3)), ("id", .string header.id),
    ("timestamp", .string header.timestamp), ("cwd", .string header.cwd)] ++
      (header.parentSession.map fun path => ("parentSession", Json.string path)).toList)

/-- `typeof value === "string" && value` -/
def filledText (value : Option Json) : Option String := (stringValue value).filter (· ≠ "")

def isRecord : Json → Bool
  | .object _ | .array _ => true
  | _ => false

def invalidSession (filePath message : String) : Thrown :=
  .session "invalid_session" ("Invalid JSONL session file " ++ filePath ++ ": " ++ message)

def invalidEntry (filePath : String) (lineNumber : Nat) (message : String) : Thrown :=
  .session "invalid_entry" ("Invalid JSONL session file " ++ filePath ++ ": line " ++
    toString lineNumber ++ " " ++ message)

/-- A value that has to be there. -/
def orThrow {α : Type} (value : Option α) (e : Thrown) : Except Thrown α :=
  match value with
  | some a => .ok a
  | none => .error e

def updateLabelCache (labelsById : RawMap String) (entry : Json) : Except Thrown (RawMap String) :=
  if entry.hasType "label" then
    match entry.get? "label" with
    | none | some .null => .ok (labelsById.delete (entry.get? "targetId"))
    | some (.string label) =>
      if jsTrim label = "" then .ok (labelsById.delete (entry.get? "targetId"))
      else .ok (RawMap.set (entry.get? "targetId") (jsTrim label) labelsById)
    | some _ => .error (.typeError "entry.label?.trim is not a function")
  else .ok labelsById

def buildLabelsById (entries : List Json) : Except Thrown (RawMap String) :=
  entries.foldlM updateLabelCache []

/-- The leaf as it is after an entry. -/
def leafIdAfterEntry (entry : Json) : Option String :=
  if entry.hasType "leaf" then stringValue (entry.get? "targetId") else stringValue (entry.get? "id")

section Code
variable (fmt : NumberFormat)

/-- `null` or a text. -/
def isNullableText : Option Json → Bool
  | some .null | some (.string _) => true
  | _ => false

def parseEntryLine (filePath : String) (line : List Char) (lineNumber : Nat) :
    Except Thrown Json := do
  let invalid := invalidEntry filePath lineNumber
  let parsed ← orThrow (jsonParse fmt line) (invalid "is not valid JSON")
  refuse (!isRecord parsed) (invalid "is not a valid session entry")
  refuse (stringValue (parsed.get? "type")).isNone (invalid "is missing entry type")
  refuse (filledText (parsed.get? "id")).isNone (invalid "is missing entry id")
  refuse (!isNullableText (parsed.get? "parentId")) (invalid "has invalid parentId")
  refuse (filledText (parsed.get? "timestamp")).isNone (invalid "is missing timestamp")
  refuse (parsed.hasType "leaf" && !isNullableText (parsed.get? "targetId"))
    (invalid "has invalid targetId")
  return parsed

/-- The loop over the lines behind the header, from line `lineNumber` on. -/
def loadLines (filePath : String) : Nat → List (List Char) → List Json × Option String →
    Except Thrown (List Json × Option String)
  | _, [], loaded => .ok loaded
  | lineNumber, line :: rest, (entries, _) => do
    let entry ← parseEntryLine fmt filePath line lineNumber
    loadLines filePath (lineNumber + 1) rest (entries ++ [entry], leafIdAfterEntry entry)

structure JsonlStorage where
  filePath : String
  header : SessionHeader
  entries : List Json
  byId : RawMap Json
  labelsById : RawMap String
  currentLeafId : Option String

/-- `new Map(entries.map((entry) => [entry.id, entry]))` -/
def indexById (entries : List Json) : RawMap Json :=
  entries.foldl (fun byId entry => RawMap.set (entry.get? "id") entry byId) []

namespace JsonlStorage

def entry? (s : JsonlStorage) (id : String) : Option Json := s.byId.get? (some (.string id))

def getLeafId (s : JsonlStorage) : Except Thrown (Option String) :=
  match s.currentLeafId with
  | none => .ok none
  | some id =>
    if (s.entry? id).isSome then .ok (some id)
    else .error (.session "invalid_session" (PieLab.SessionManager.notFound id))

/-- The loop of `getPathToRoot`; `none` where it has not ended. -/
def walkToRoot (s : JsonlStorage) : Nat → Json → List Json → Option (Except Thrown (List Json))
  | 0, _, _ => none
  | fuel + 1, current, path =>
    let path := current :: path
    match filledText (current.get? "parentId") with
    | none => some (.ok path)
    | some parentId =>
      match s.entry? parentId with
      | none =>
        some (.error (.session "invalid_session" (PieLab.SessionManager.notFound parentId)))
      | some parent => s.walkToRoot fuel parent path

def getPathToRoot (s : JsonlStorage) (fuel : Nat) (leafId : Option String) :
    Option (Except Thrown (List Json)) :=
  match leafId with
  | none => some (.ok [])
  | some id =>
    match s.entry? id with
    | none => some (.error (.session "not_found" (PieLab.SessionManager.notFound id)))
    | some current => s.walkToRoot fuel current []

/-- `Session.getBranch` -/
def getBranch (s : JsonlStorage) (fuel : Nat) (fromId : Option String) :
    Option (Except Thrown (List Json)) :=
  match fromId with
  | some id => s.getPathToRoot fuel (some id)
  | none =>
    match s.getLeafId with
    | .error e => some (.error e)
    | .ok leafId => s.getPathToRoot fuel leafId

end JsonlStorage

/-! ## Writing -/

/-- The text of a `uuidv7`. -/
structure Uuid where
  text : String
  length : text.toList.length = 36

/-- What `fs.appendFile` does: it writes the text, or fails having written the first
characters of it. -/
inductive Append where
  | done
  | failed (code message : String) (wrote : Nat)

/-- What one append takes from its surroundings. -/
structure Call where
  now : Int
  uuids : Nat → Uuid
  append : Append

/-- `generateEntryId` from the draw `i` on, with `n` tries left. -/
def generateEntryIdFrom (byId : RawMap Json) (uuids : Nat → Uuid) : Nat → Nat → String
  | 0, i => (uuids i).text
  | n + 1, i =>
    let id := String.ofList ((uuids i).text.toList.take 8)
    if (byId.get? (some (.string id))).isSome then generateEntryIdFrom byId uuids n (i + 1)
    else id

def generateEntryId (byId : RawMap Json) (uuids : Nat → Uuid) : String :=
  generateEntryIdFrom byId uuids 100 0

/-- A storage and its file. -/
structure Live where
  storage : JsonlStorage
  content : List Char

/-- What a call returns, or throws, and the state behind it. -/
abbrev Result (α : Type) := Live × Except Thrown α

/-- `getFileSystemResultOrThrow(await fs.appendFile(..), message)`: the file and what is
thrown. -/
def appendFile (content text : List Char) (append : Append) (message : String) :
    List Char × Option Thrown :=
  match append with
  | .done => (content ++ text, none)
  | .failed code cause wrote =>
    (content ++ text.take wrote,
      some (.session (if code = "not_found" then "not_found" else "storage")
        (message ++ ": " ++ cause)))

def textOrNull : Option String → Json
  | none => .null
  | some s => .string s

/-- An entry in the order of its literal; a field that is `undefined` is left out. -/
def entryJson (type id : String) (parentId : Option String) (now : Int)
    (fields : List (String × Json)) : Json :=
  .object (("type", .string type) :: ("id", .string id) :: ("parentId", textOrNull parentId) ::
    ("timestamp", .string (isoText now)) :: fields)

namespace Live

/-- `JsonlSessionStorage.appendEntry` -/
def appendEntry (s : Live) (entry : Json) (append : Append) : Result Unit :=
  match appendFile s.content (printLine fmt entry) append
    ("Failed to append session entry " ++ (stringValue (entry.get? "id")).getD "") with
  | (content, some e) => ({ s with content }, .error e)
  | (content, none) =>
    let st := { s.storage with
      entries := s.storage.entries ++ [entry]
      byId := RawMap.set (entry.get? "id") entry s.storage.byId }
    match updateLabelCache st.labelsById entry with
    | .error e => ({ storage := st, content }, .error e)
    | .ok labelsById =>
      ({ storage := { st with labelsById, currentLeafId := leafIdAfterEntry entry }, content },
        .ok ())

def setLeafId (s : Live) (leafId : Option String) (call : Call) : Result Unit :=
  if ∃ id ∈ leafId, s.storage.entry? id = none then
    (s, .error (.session "not_found" (PieLab.SessionManager.notFound (leafId.getD ""))))
  else
    let id := generateEntryId s.storage.byId call.uuids
    let entry :=
      entryJson "leaf" id s.storage.currentLeafId call.now [("targetId", textOrNull leafId)]
    match appendFile s.content (printLine fmt entry) call.append
      ("Failed to append session leaf " ++ id) with
    | (content, some e) => ({ s with content }, .error e)
    | (content, none) =>
      ({ storage := { s.storage with
          entries := s.storage.entries ++ [entry]
          byId := RawMap.set (entry.get? "id") entry s.storage.byId
          currentLeafId := leafId }
         content }, .ok ())

/-- `this.appendTypedEntry({ type, id: .., parentId, timestamp: .., ...fields })` -/
def appendTyped (s : Live) (type : String) (parentId : Option String)
    (fields : List (String × Json)) (call : Call) : Result (Option String) :=
  let id := generateEntryId s.storage.byId call.uuids
  let entry := entryJson type id parentId call.now fields
  let (s, result) := s.appendEntry fmt entry call.append
  (s, result.map fun _ => some id)

end Live

end Code

structure BranchSummary where
  summary : String
  details : Option Json
  fromHook : Option Bool

/-- The methods of `Session` that write. -/
inductive SessionOp where
  | appendMessage (message : Json)
  | appendThinkingLevelChange (thinkingLevel : String)
  | appendModelChange (provider modelId : String)
  | appendActiveToolsChange (activeToolNames : List String)
  | appendCompaction (summary firstKeptEntryId : String) (tokensBefore : Option ℚ)
      (details : Option Json) (fromHook : Option Bool)
  | appendCustomEntry (customType : String) (data : Option Json)
  | appendCustomMessageEntry (customType : String) (content : Json) (display : Bool)
      (details : Option Json)
  | appendLabel (targetId : String) (label : Option String)
  | appendSessionName (name : String)
  | moveTo (entryId : Option String) (summary : Option BranchSummary)

/-- `name.replace(/[\r\n]+/g, " ").trim()` -/
def sanitizedName (name : String) : String :=
  jsTrim (String.ofList (replaceLineBreaks name.toList))

def summaryFields (entryId : Option String) (s : BranchSummary) : List (String × Json) :=
  [("fromId", .string (entryId.getD "root")), ("summary", .string s.summary)] ++
    optionalField "details" s.details ++ optionalField "fromHook" (s.fromHook.map .bool)

/-- The type and the fields of the entry a method appends at the leaf. -/
def SessionOp.entry : SessionOp → String × List (String × Json)
  | .appendMessage message => ("message", [("message", message)])
  | .appendThinkingLevelChange thinkingLevel =>
    ("thinking_level_change", [("thinkingLevel", .string thinkingLevel)])
  | .appendModelChange provider modelId =>
    ("model_change", [("provider", .string provider), ("modelId", .string modelId)])
  | .appendActiveToolsChange names =>
    ("active_tools_change", [("activeToolNames", .array (names.map .string))])
  | .appendCompaction summary firstKeptEntryId tokensBefore details fromHook =>
    ("compaction", [("summary", .string summary), ("firstKeptEntryId", .string firstKeptEntryId),
      ("tokensBefore", .number tokensBefore)] ++ optionalField "details" details ++
        optionalField "fromHook" (fromHook.map .bool))
  | .appendCustomEntry customType data =>
    ("custom", [("customType", .string customType)] ++ optionalField "data" data)
  | .appendCustomMessageEntry customType content display details =>
    ("custom_message", [("customType", .string customType), ("content", content),
      ("display", .bool display)] ++ optionalField "details" details)
  | .appendLabel targetId label =>
    ("label", [("targetId", .string targetId)] ++ optionalField "label" (label.map .string))
  | .appendSessionName name => ("session_info", [("name", .string (sanitizedName name))])
  -- the entry behind the move
  | .moveTo entryId summary =>
    ("branch_summary", (summary.map (summaryFields entryId)).getD [])

/-- A call of a method, with the appends it makes. -/
structure Step where
  op : SessionOp
  first : Call
  second : Call

section Runs
variable (fmt : NumberFormat)

/-- `append*`: the parent is the leaf. -/
def Live.appendAtLeaf (s : Live) (op : SessionOp) (call : Call) : Result (Option String) :=
  match s.storage.getLeafId with
  | .error e => (s, .error e)
  | .ok parentId => s.appendTyped fmt op.entry.1 parentId op.entry.2 call

def Live.perform (s : Live) (step : Step) : Result (Option String) :=
  match step.op with
  | .appendLabel targetId _ =>
    if s.storage.entry? targetId = none then
      (s, .error (.session "not_found" (PieLab.SessionManager.notFound targetId)))
    else s.appendAtLeaf fmt step.op step.first
  | .moveTo entryId summary =>
    match s.setLeafId fmt entryId step.first with
    | (s, .error e) => (s, .error e)
    | (s, .ok ()) =>
      match summary with
      | none => (s, .ok none)
      | some _ => s.appendTyped fmt step.op.entry.1 entryId step.op.entry.2 step.second
  | op => s.appendAtLeaf fmt op step.first

structure CreateOptions where
  filePath : String
  cwd : String
  sessionId : String
  parentSessionPath : Option String

/-- `JsonlSessionStorage.create`, where the file is written. -/
def create (options : CreateOptions) (now : Int) : Live :=
  let header := { id := options.sessionId, timestamp := isoText now, cwd := options.cwd
                  parentSession := options.parentSessionPath }
  { storage := { filePath := options.filePath, header, entries := [], byId := [], labelsById := []
                 currentLeafId := none }
    content := printLine fmt header.toJson }

/-- A run of calls; each meets the file as the one before left it. -/
def run (s : Live) (steps : List Step) : Live :=
  steps.foldl (fun s step => (s.perform fmt step).1) s

end Runs

/-! ## What is written is read -/

section Reading
variable {fmt : NumberFormat}

/-- The line of the entry is read as JSON prints it, under the same keys. -/
structure Readable (fmt : NumberFormat) (entry : Json) : Prop where
  valid : Valid fmt entry
  parses : ∀ filePath lineNumber,
    parseEntryLine fmt filePath (stringify fmt entry) lineNumber = .ok (printed entry)
  id : (printed entry).get? "id" = entry.get? "id"
  label : ∀ labelsById, ∃ after, updateLabelCache labelsById entry = .ok after ∧
    updateLabelCache labelsById (printed entry) = .ok after

/-- The leaf behind the entries. -/
def leafAfter (entries : List Json) (leafId : Option String) : Option String :=
  entries.foldl (fun _ entry => leafIdAfterEntry entry) leafId

theorem SessionHeader.valid (header : SessionHeader) : Valid fmt header.toJson := by
  have hthree : fmt.IsNumber 3 := by exact_mod_cast fmt.isNumber_digit 3 (by omega)
  obtain ⟨id, timestamp, cwd, parentSession⟩ := header
  cases parentSession with
  | none => exact ⟨by simp, trivial, hthree, trivial, trivial, trivial, trivial⟩
  | some path => exact ⟨by simp, trivial, hthree, trivial, trivial, trivial, trivial, trivial⟩

theorem SessionHeader.printed (header : SessionHeader) :
    Lib.printed header.toJson = header.toJson := by
  obtain ⟨id, timestamp, cwd, parentSession⟩ := header
  cases parentSession <;> rfl

section Built
variable {type id : String} {parentId : Option String} {now : Int} {fields : List (String × Json)}

end Built

end Reading

/-! ## Runs -/

/-- The append writes all of its text, or nothing. -/
def Atomic : Append → Prop
  | .done => True
  | .failed _ _ wrote => wrote = 0

/-- The values of the call are JSON values, and its appends are all or nothing. -/
structure Step.Kept (fmt : NumberFormat) (step : Step) : Prop where
  valid : ValidFields fmt step.op.entry.2
  first : Atomic step.first.append
  second : Atomic step.second.append

/-- The file, the index, the labels and the leaf follow the entries. -/
structure Written (fmt : NumberFormat) (s : Live) : Prop where
  content : s.content = printLine fmt s.storage.header.toJson ++ printLines fmt s.storage.entries
  byId : s.storage.byId = indexById s.storage.entries
  labels : buildLabelsById s.storage.entries = .ok s.storage.labelsById
  leaf : s.storage.currentLeafId = leafAfter s.storage.entries none
  readable : ∀ e ∈ s.storage.entries, Readable fmt e

/-- What a call leaves: what is written is right, under the same header. -/
def Follows (fmt : NumberFormat) (s t : Live) : Prop :=
  Written fmt t ∧ t.storage.header = s.storage.header ∧ t.storage.filePath = s.storage.filePath

section Steps
variable {fmt : NumberFormat} {s t : Live}

theorem Written.push (h : Written fmt s) {entry : Json} (hentry : Readable fmt entry)
    {labelsById : RawMap String} (hlabels : updateLabelCache s.storage.labelsById entry = .ok labelsById)
    {leafId : Option String} (hleaf : leafIdAfterEntry entry = leafId) :
    Follows fmt s
      { storage := { s.storage with
          entries := s.storage.entries ++ [entry]
          byId := RawMap.set (entry.get? "id") entry s.storage.byId
          labelsById, currentLeafId := leafId }
        content := s.content ++ printLine fmt entry } := by
  refine ⟨⟨?_, ?_, ?_, ?_, ?_⟩, rfl, rfl⟩
  · simp [h.content, printLines]
  · simp [h.byId, indexById]
  · have hbuild := h.labels
    simp only [buildLabelsById] at hbuild ⊢
    simp only [List.foldlM_append, hbuild]
    exact (congrArg (· >>= pure) hlabels).trans (by rfl)
  · simp [leafAfter, hleaf]
  · intro e he
    rcases List.mem_append.1 he with he | he
    · exact h.readable e he
    · exact List.mem_singleton.1 he ▸ hentry

end Steps

/-! ## Opening the file -/

section Opening
variable {fmt : NumberFormat}

section Paths
variable {s t : JsonlStorage} (hbyId : t.byId = s.byId.map (Prod.map id printed))
include hbyId

end Paths

end Opening

/-! ## A session without a working directory -/

end PieLab.HarnessStorage

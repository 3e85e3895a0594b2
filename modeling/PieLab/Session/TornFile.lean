import PieLab.Lib.Checks
import PieLab.Lib.JsonReading
import PieLab.Lib.Lines
import PieLab.Session.Migration

/-
  The text of a session file

  Here a session file is its text, and an entry is the JSON value of its line,
  whatever that is: the loader skips what does not parse and asks nothing of the
  rest but a header in front. An entry is appended at the end of the text, even
  where the last line is torn.

  What is proved:
    1. `loadLines_eq` — reading in chunks is reading the lines of the whole text.
    2. `loadText_append` — what an appended line adds to a text, by the text
       behind the last newline.
    3. `recovers_iff` — when a file reads back as the entries opened and the
       appended one: a migration writes the file anew, or the text behind its
       last newline is white space.
    4. `tornFile_swallows` — a torn line takes the next entry with it.

  Correspondence (TypeScript ↔ Lean), packages/coding-agent/src/core/session-manager.ts:
    `parseSessionEntryLine`            ↔ `parseSessionEntryLine`, `lineEntry`
    `loadEntriesFromFile`              ↔ `loadRawEntries`
    `migrateV1ToV2`, `migrateV2ToV3`   ↔ `migrateRawV1ToV2`, `migrateRawV2ToV3`
    `migrateToCurrentVersion`          ↔ `migrateRaw`
    `_buildIndex`, what it throws on   ↔ `indexRaw`
    `setSessionFile`, `_appendEntry`   ↔ `openText`, `OpenText.append`
  The text is what the decoder makes of the bytes. A printed entry begins with an
  ASCII character, so the bytes of a torn character are decoded the same whether
  an entry follows or not.
-/

namespace PieLab

open Lib

/-! ## Loading -/

/-- `header.type === "session" && typeof header.id === "string"` -/
def isHeader (header : Json) : Bool :=
  header.hasType "session" && match header.get? "id" with | some (.string _) => true | _ => false

section Text
variable (fmt : NumberFormat)

/-- `null` stands for a blank line and for one that does not parse. -/
def parseSessionEntryLine (line : List Char) : Option Json :=
  if line.all isJsSpace then none else jsonParse fmt line

/-- The entry a line adds: `if (entry) entries.push(entry)`. -/
def lineEntry (line : List Char) : Option Json :=
  (parseSessionEntryLine fmt line).filter Json.truthy

/-- One read: the lines it completes are parsed, the rest waits. -/
def loadChunk (s : List Json × List Char) (chunk : List Char) : List Json × List Char :=
  let lines := (s.2 ++ chunk).splitOn '\n'
  (s.1 ++ lines.dropLast.filterMap (lineEntry fmt), lines.getLast?.getD [])

/-- The chunks of a file, and what is left at its end as the last line. -/
def loadLines (chunks : List (List Char)) : List Json :=
  let s := chunks.foldl (loadChunk fmt) ([], [])
  s.1 ++ (lineEntry fmt s.2).toList

def checkHeader : List Json → List Json
  | [] => []
  | header :: rest => if isHeader header then header :: rest else []

def loadRawEntries (chunks : List (List Char)) : List Json := checkHeader (loadLines fmt chunks)

/-- The entries of a text, read at once. -/
def loadText (content : List Char) : List Json :=
  (content.splitOn '\n').filterMap (lineEntry fmt)

theorem foldl_loadChunk (chunks : List (List Char)) (l : List Char) :
    chunks.foldl (loadChunk fmt) ((linesBefore l).filterMap (lineEntry fmt), lastLine l) =
      ((linesBefore (l ++ chunks.flatten)).filterMap (lineEntry fmt),
        lastLine (l ++ chunks.flatten)) := by
  induction chunks generalizing l with
  | nil => simp
  | cons chunk chunks ih =>
    have hstep : loadChunk fmt ((linesBefore l).filterMap (lineEntry fmt), lastLine l) chunk =
        ((linesBefore (l ++ chunk)).filterMap (lineEntry fmt), lastLine (l ++ chunk)) := by
      rw [linesBefore_append, lastLine_append, List.filterMap_append]
      rfl
    rw [List.foldl_cons, hstep, ih, List.flatten_cons, List.append_assoc]

/-- Reading in chunks is reading the lines of the whole text. -/
theorem loadLines_eq (chunks : List (List Char)) :
    loadLines fmt chunks = loadText fmt chunks.flatten := by
  have hfold := foldl_loadChunk fmt chunks []
  unfold loadLines loadText
  have hstart : ((linesBefore []).filterMap (lineEntry fmt), lastLine []) = ([], []) := rfl
  rw [hstart, List.nil_append] at hfold
  rw [hfold, splitOn_lastLine, List.filterMap_append]
  cases h : lineEntry fmt (lastLine chunks.flatten) <;> simp [h]

end Text

/-! ## The migrations on raw entries -/

/-- The beginning of the text of a `TypeError`, which goes on with the value. -/
def cannotCreate (key : String) : String := "Cannot create property '" ++ key ++ "'"

/-- `value.key = x`. A property of an array is no part of its JSON value; a primitive has
none. -/
def Json.assign (value : Json) (key : String) (x : Json) : Except String Json :=
  match value with
  | .object fields => .ok (.object (setField fields key x))
  | .array items => .ok (.array items)
  | _ => .error (cannotCreate key)

/-- `delete value.key` -/
def Json.delete (value : Json) (key : String) : Json :=
  match value with
  | .object fields => .object (fields.filter fun f => f.1 ≠ key)
  | _ => value

/-- `value.key = x` where `x` may be `undefined`, which is not printed. -/
def Json.assign? (value : Json) (key : String) : Option Json → Except String Json
  | some x => value.assign key x
  | none => .ok (value.delete key)

/-- A list index that is a number. -/
def Json.index? : Json → Option Nat
  | .number (some q) => if q.den = 1 ∧ 0 ≤ q.num then some q.num.toNat else none
  | _ => none

/-- `entry.version = version` -/
def setVersion (entry : Json) (version : ℚ) : Except String Json :=
  entry.assign "version" (.number (some version))

/-- `entry.firstKeptEntryId = entries[index].id`, unless there is no such entry or it is a
header. -/
def assignFirstKeptId (entries : List (Json × Option Json)) (entry index : Json) :
    Except String Json :=
  match index.index?.bind (entries[·]?) with
  | some (target, id) =>
    if target.hasType "session" then .ok entry else entry.assign? "firstKeptEntryId" id
  | none => .ok entry

/-- `firstKeptEntryIndex` to `firstKeptEntryId`; `entries` are the values of the list and
their ids as the loop stands. -/
def convertRawFirstKept (entries : List (Json × Option Json)) (entry : Json) : Except String Json :=
  if entry.hasType "compaction" then
    match entry.get? "firstKeptEntryIndex" with
    | some (.number value) =>
      (assignFirstKeptId entries entry (.number value)).map (·.delete "firstKeptEntryIndex")
    | _ => .ok entry
  else .ok entry

/-- The loop of `migrateV1ToV2` on whatever values the lines have. Each entry done stands
beside its `id`, which an array has too. -/
def migrateRawV1ToV2From (randomUUID : Nat → Draws) (done : List (Json × Option Json))
    (prevId : Option String) : List Json → Except String (List Json)
  | [] => .ok (done.map Prod.fst)
  | entry :: rest =>
    if entry.hasType "session" then do
      let entry ← setVersion entry 2
      migrateRawV1ToV2From randomUUID (done ++ [(entry, entry.get? "id")]) prevId rest
    else do
      let id := generateId migrationIds.contains (randomUUID done.length)
      let entry ← entry.assign "id" (.string id)
      let entry ← entry.assign "parentId" (prevId.elim .null .string)
      let entry ← convertRawFirstKept
        (done ++ (entry, some (.string id)) :: rest.map fun e => (e, e.get? "id")) entry
      migrateRawV1ToV2From randomUUID (done ++ [(entry, some (.string id))]) (some id) rest

def migrateRawV1ToV2 (randomUUID : Nat → Draws) (entries : List Json) : Except String (List Json) :=
  migrateRawV1ToV2From randomUUID [] none entries

def migrateRawEntryV2ToV3 (entry : Json) : Except String Json :=
  if entry.hasType "session" then setVersion entry 3
  else if entry.hasType "message" then
    match entry.get? "message" with
    | some message =>
      if message.hasText "role" "hookMessage" then do
        entry.assign "message" (← message.assign "role" (.string "custom"))
      else .ok entry
    | none => .ok entry
  else .ok entry

def migrateRawV2ToV3 (entries : List Json) : Except String (List Json) :=
  entries.mapM migrateRawEntryV2ToV3

/-- The version of a header that has a number there or nothing. -/
def Json.version (header : Json) : ℚ :=
  match header.get? "version" with
  | some (.number (some version)) => version
  | _ => 1

/-- The entries of the current version, and whether a migration was applied. The header is
the first entry: the loader has seen to it. -/
def migrateRaw (randomUUID : Nat → Draws) (entries : List Json) :
    Except String (List Json × Bool) :=
  let version := (entries.head?.map Json.version).getD 1
  if 3 ≤ version then .ok (entries, false)
  else do
    let entries ← (if version < 2 then migrateRawV1ToV2 randomUUID entries else .ok entries)
    let entries ← (if version < 3 then migrateRawV2ToV3 entries else .ok entries)
    return (entries, true)

/-! ## Opening a file and appending to it -/

def notAFunction : String := "entry.name?.trim is not a function"

/-- What `_buildIndex` and `_appendEntry` do with an entry that can throw. -/
def indexRawEntry (entry : Json) : Except String Unit :=
  if entry.hasType "session_info" then
    match entry.get? "name" with
    | none | some .null | some (.string _) => .ok ()
    | some _ => .error notAFunction
  else .ok ()

def indexRaw (entries : List Json) : Except String Unit := forM entries indexRawEntry

/-- `fileEntries.some((e) => e.type === "message" && e.message.role === "assistant")` -/
def hasAssistantRaw : List Json → Except String Bool
  | [] => .ok false
  | e :: es =>
    if e.hasType "message" then
      match e.get? "message" with
      | none => .error "Cannot read properties of undefined (reading 'role')"
      | some .null => .error "Cannot read properties of null (reading 'role')"
      | some message => if message.hasText "role" "assistant" then .ok true else hasAssistantRaw es
    else hasAssistantRaw es

def notASession (path : String) : String := "Session file is not a valid pi session: " ++ path

/-- What opening a file takes from outside: how the reads cut the text, the header of a new
session and the ids a migration draws. -/
structure OpenSource where
  path : String
  chunks : List Char → List (List Char)
  flatten_chunks : ∀ content, (chunks content).flatten = content
  newHeader : Json
  randomUUID : Nat → Draws

/-- The entries in memory and the text of the file. -/
structure OpenText where
  fileEntries : List Json
  content : List Char

section Text
variable (fmt : NumberFormat)

def printLine (entry : Json) : List Char := stringify fmt entry ++ ['\n']

/-- The text `_rewriteFile` writes. -/
def printLines (entries : List Json) : List Char := entries.flatMap (printLine fmt)

/-- `setSessionFile` of a file that exists. -/
def openText (src : OpenSource) (content : List Char) : Except String OpenText :=
  let entries := loadRawEntries fmt (src.chunks content)
  if entries.isEmpty then
    if content.isEmpty then
      .ok { fileEntries := [src.newHeader], content := printLines fmt [src.newHeader] }
    else .error (notASession src.path)
  else do
    let (entries, migrated) ← migrateRaw src.randomUUID entries
    let content := if migrated then printLines fmt entries else content
    indexRaw entries
    return { fileEntries := entries, content := content }

/-- `_appendEntry` in a session that was opened, which is flushed: with an assistant message
or without, the line goes to the end of the file. -/
def OpenText.append (s : OpenText) (entry : Json) : Except String OpenText := do
  let fileEntries := s.fileEntries ++ [entry]
  indexRawEntry entry
  let _ ← hasAssistantRaw fileEntries
  return { fileEntries, content := s.content ++ printLine fmt entry }

/-- The session opens, takes the entry, and the file then reads back as the entries opened
and the new one. -/
def Recovers (src : OpenSource) (content : List Char) (entry : Json) : Prop :=
  ∃ s s', openText fmt src content = .ok s ∧ s.append fmt entry = .ok s' ∧
    loadRawEntries fmt (src.chunks s'.content) = s.fileEntries ++ [entry]

end Text

/-! ## What a text loads -/

variable {v entry value entry' header : Json} {t content : List Char} {entries rest l : List Json}
variable {key : String} {randomUUID : Nat → Draws}

section Text
variable {fmt : NumberFormat}

theorem loadRawEntries_eq (src : OpenSource) (content : List Char) :
    loadRawEntries fmt (src.chunks content) = checkHeader (loadText fmt content) := by
  unfold loadRawEntries
  rw [loadLines_eq, src.flatten_chunks]

theorem isJsSpace_of_isJsonSpace {c : Char} (h : isJsonSpace c = true) : isJsSpace c = true := by
  simp only [isJsonSpace, Bool.or_eq_true, decide_eq_true_eq] at h
  rcases h with ((rfl | rfl) | rfl) | rfl <;> decide

theorem lineEntry_space {l : List Char} (h : l.all isJsonSpace = true) :
    lineEntry fmt l = none := by
  have hall : l.all isJsSpace = true := by
    rw [List.all_eq_true] at h ⊢
    intro c hc
    exact isJsSpace_of_isJsonSpace (h c hc)
  unfold lineEntry parseSessionEntryLine
  rw [if_pos hall]
  rfl

theorem lineEntry_stringify (hv : Valid fmt v) (ht : t.all isJsonSpace = true) :
    lineEntry fmt (t ++ stringify fmt v) = (some (printed v)).filter Json.truthy := by
  obtain ⟨c, rest, hc, hhead⟩ := stringify_head fmt hv
  have hread := @jsonParse_stringify fmt _ hv _ [] ht rfl
  rw [List.append_nil] at hread
  have hnot : ¬ (t ++ stringify fmt v).all isJsSpace = true := by
    intro hall
    rw [List.all_append, hc, List.all_cons, hhead.js] at hall
    simp at hall
  unfold lineEntry parseSessionEntryLine
  rw [if_neg hnot, hread]

/-- An entry as the append methods build it: the type comes first. -/
structure AppendedEntry (fmt : NumberFormat) (entry : Json) : Prop where
  typeFirst : ∃ type fields, entry = .object (("type", .string type) :: fields)
  valid : Valid fmt entry

theorem AppendedEntry.truthy_printed (h : AppendedEntry fmt entry) :
    (printed entry).truthy = true := by
  obtain ⟨type, fields, rfl⟩ := h.typeFirst
  rfl

theorem AppendedEntry.lineEntry_space (h : AppendedEntry fmt entry)
    (ht : t.all isJsonSpace = true) :
    lineEntry fmt (t ++ stringify fmt entry) = some (printed entry) := by
  rw [lineEntry_stringify h.valid ht]
  simp [Option.filter, h.truthy_printed]

theorem AppendedEntry.lineEntry_torn (h : AppendedEntry fmt entry)
    (ht : ¬ t.all isJsonSpace = true) : lineEntry fmt (t ++ stringify fmt entry) = none := by
  obtain ⟨type, fields, rfl⟩ := h.typeFirst
  obtain ⟨inner, hobject⟩ :=
    @objectText_stringify fmt "type" (.string type) fields 't' ['y', 'p', 'e']
    rfl (by decide) (by decide) h.valid
  unfold lineEntry parseSessionEntryLine
  split
  · rfl
  · cases hread : jsonParse fmt (t ++ stringify fmt (.object (("type", .string type) :: fields))) with
    | none => rfl
    | some v => exact absurd (jsonParse_append hobject hread) ht

theorem loadText_lastLine (content : List Char) :
    loadText fmt content =
      (linesBefore content).filterMap (lineEntry fmt) ++ (lineEntry fmt (lastLine content)).toList := by
  unfold loadText
  rw [splitOn_lastLine, List.filterMap_append]
  cases h : lineEntry fmt (lastLine content) <;> simp [h]

/-- An appended line goes on with the last line of the text. -/
theorem loadText_append (h : Valid fmt entry) (content : List Char) :
    loadText fmt (content ++ printLine fmt entry) =
      (linesBefore content).filterMap (lineEntry fmt) ++
        (lineEntry fmt (lastLine content ++ stringify fmt entry)).toList := by
  have hline : '\n' ∉ lastLine content ++ stringify fmt entry := by
    rw [List.mem_append, not_or]
    exact ⟨lastLine_noNewline content, stringify_noNewline entry h⟩
  have hsplit : (lastLine content ++ printLine fmt entry).splitOn '\n' =
      [lastLine content ++ stringify fmt entry, []] := by
    unfold printLine
    rw [← List.append_assoc, List.splitOn_append_cons_self, splitOn_single hline]
    rfl
  have hempty : lineEntry fmt [] = none := rfl
  unfold loadText
  rw [splitOn_append, hsplit, List.filterMap_append]
  cases hentry : lineEntry fmt (lastLine content ++ stringify fmt entry) <;>
    simp [hentry, hempty]

/-- What is left of an entry that is written and read again. -/
def readBack (entry : Json) : Option Json := (some (printed entry)).filter Json.truthy

theorem loadText_printLine (h : Valid fmt entry) (t : List Char) :
    loadText fmt (printLine fmt entry ++ t) = (readBack entry).toList ++ loadText fmt t := by
  have hread : lineEntry fmt (stringify fmt entry) = readBack entry := by
    apply lineEntry_stringify h (t := []) rfl
  unfold loadText printLine
  rw [List.append_assoc, List.singleton_append, List.splitOn_append_cons_self,
    splitOn_single (stringify_noNewline entry h), List.filterMap_append]
  cases hentry : readBack entry <;> simp [hread, hentry]

theorem loadText_printLines (h : ∀ v ∈ entries, Valid fmt v) (t : List Char) :
    loadText fmt (printLines fmt entries ++ t) = entries.filterMap readBack ++ loadText fmt t := by
  induction entries with
  | nil => rfl
  | cons v vs ih =>
    have hvs : ∀ w ∈ vs, Valid fmt w := fun w hw => h w (List.mem_cons_of_mem v hw)
    have hflat : printLines fmt (v :: vs) = printLine fmt v ++ printLines fmt vs := rfl
    rw [hflat, List.append_assoc, loadText_printLine (h v (List.mem_cons_self ..)), ih hvs]
    cases hv : readBack v <;> simp [hv]

theorem eq_some_of_filterMap_eq_self {α : Type} {f : α → Option α} {l : List α}
    (h : l.filterMap f = l) : ∀ a ∈ l, f a = some a := by
  induction l with
  | nil => exact fun a ha => (nomatch ha)
  | cons b bs ih =>
    cases hb : f b with
    | none =>
      rw [List.filterMap_cons_none hb] at h
      have hle := List.length_filterMap_le f bs
      rw [h, List.length_cons] at hle
      omega
    | some c =>
      rw [List.filterMap_cons_some hb] at h
      obtain ⟨rfl, hbs⟩ := List.cons.inj h
      intro a ha
      rcases List.mem_cons.mp ha with rfl | ha
      · exact hb
      · exact ih hbs a ha

theorem readBack_eq_some {w : Json} (h : readBack v = some w) : printed v = w := by
  obtain ⟨hw, -⟩ := Option.filter_eq_some_iff.mp h
  exact Option.some.inj hw

theorem filterMap_readBack (htruthy : ∀ v ∈ entries, v.truthy = true) :
    entries.filterMap readBack = entries ↔ ∀ v ∈ entries, printed v = v := by
  constructor
  · intro h v hv
    exact readBack_eq_some (eq_some_of_filterMap_eq_self h v hv)
  · intro h
    have hread : ∀ v ∈ entries, readBack v = some v := by
      intro v hv
      unfold readBack
      rw [h v hv, Option.filter_some, if_pos (htruthy v hv)]
    rw [List.filterMap_congr hread, List.filterMap_some]

/-! ## What the migrations keep -/

/-- An entry as the loader lets it through. -/
structure LoadedEntry (fmt : NumberFormat) (entry : Json) : Prop where
  valid : Valid fmt entry
  truthy : entry.truthy = true

theorem lineEntry_loaded {l : List Char} (h : lineEntry fmt l = some v) : LoadedEntry fmt v := by
  obtain ⟨hparse, htruthy⟩ := Option.filter_eq_some_iff.mp h
  unfold parseSessionEntryLine at hparse
  split at hparse
  · cases hparse
  · exact ⟨jsonParse_valid hparse, htruthy⟩

theorem loadText_loaded : ∀ v ∈ loadText fmt content, LoadedEntry fmt v := by
  intro v hv
  obtain ⟨l, -, hl⟩ := List.mem_filterMap.mp hv
  exact lineEntry_loaded hl

theorem valid_get? {x : Json} (h : Valid fmt value) (hx : value.get? key = some x) :
    Valid fmt x := by
  cases value with
  | object fields =>
    obtain ⟨l, r, hfields, -⟩ := List.lookup_eq_some_iff.mp hx
    exact (validFields_iff.mp h.2) (key, x) (by rw [hfields]; simp)
  | _ => cases hx

theorem LoadedEntry.ofAssign {value' x : Json} (h : Valid fmt value) (hx : Valid fmt x)
    (hassign : value.assign key x = .ok value') : LoadedEntry fmt value' := by
  cases value with
  | object fields =>
    obtain rfl := Except.ok.inj hassign
    exact ⟨⟨setField_keys h.1 key x, setField_valid h.2 hx key⟩, rfl⟩
  | array items =>
    obtain rfl := Except.ok.inj hassign
    exact ⟨h, rfl⟩
  | _ => cases hassign

theorem LoadedEntry.delete (h : LoadedEntry fmt value) (key : String) :
    LoadedEntry fmt (value.delete key) := by
  cases value with
  | object fields =>
    have hsub := List.filter_sublist (p := fun f : String × Json => f.1 ≠ key) (l := fields)
    refine ⟨⟨h.valid.1.sublist (hsub.map Prod.fst), validFields_iff.mpr fun f hf => ?_⟩, rfl⟩
    exact validFields_iff.mp h.valid.2 f (hsub.subset hf)
  | _ => exact h

theorem LoadedEntry.assign? {value' : Json} (h : LoadedEntry fmt value) {x : Option Json}
    (hx : ∀ y, x = some y → Valid fmt y) (hassign : value.assign? key x = .ok value') :
    LoadedEntry fmt value' := by
  cases x with
  | some y => exact .ofAssign h.valid (hx y rfl) hassign
  | none =>
    obtain rfl := Except.ok.inj hassign
    exact h.delete key

theorem LoadedEntry.setVersion {entry entry' : Json} (h : LoadedEntry fmt entry) {version : Nat}
    (hversion : version < 10) (hset : setVersion entry version = .ok entry') :
    LoadedEntry fmt entry' :=
  .ofAssign (x := .number (some version)) h.valid (fmt.isNumber_digit version hversion) hset

theorem assignFirstKeptId_loaded {entries : List (Json × Option Json)} {index : Json}
    (hentries : ∀ p ∈ entries, ∀ id, p.2 = some id → Valid fmt id) (h : LoadedEntry fmt entry)
    (hassign : assignFirstKeptId entries entry index = .ok entry') : LoadedEntry fmt entry' := by
  unfold assignFirstKeptId at hassign
  split at hassign
  · rename_i target id htarget
    split at hassign
    · obtain rfl := Except.ok.inj hassign
      exact h
    · obtain ⟨i, -, hi⟩ := Option.bind_eq_some_iff.mp htarget
      exact h.assign? (hentries _ (List.mem_of_getElem? hi)) hassign
  · obtain rfl := Except.ok.inj hassign
    exact h

theorem convertRawFirstKept_loaded {entries : List (Json × Option Json)}
    (hentries : ∀ p ∈ entries, ∀ id, p.2 = some id → Valid fmt id) (h : LoadedEntry fmt entry)
    (hconvert : convertRawFirstKept entries entry = .ok entry') : LoadedEntry fmt entry' := by
  unfold convertRawFirstKept at hconvert
  split at hconvert
  · split at hconvert
    · obtain ⟨kept, hkept, rfl⟩ := Lib.Except.map_ok hconvert
      exact (assignFirstKeptId_loaded hentries h hkept).delete _
    · obtain rfl := Except.ok.inj hconvert
      exact h
  · obtain rfl := Except.ok.inj hconvert
    exact h

theorem migrateRawV1ToV2From_loaded {done : List (Json × Option Json)} {prevId : Option String}
    (hdone : ∀ p ∈ done, LoadedEntry fmt p.1 ∧ ∀ id, p.2 = some id → Valid fmt id)
    (hrest : ∀ v ∈ rest, LoadedEntry fmt v)
    (h : migrateRawV1ToV2From randomUUID done prevId rest = .ok entries) :
    (∀ v ∈ entries, LoadedEntry fmt v) ∧ ∃ tail, entries = done.map Prod.fst ++ tail := by
  induction rest generalizing done prevId with
  | nil =>
    obtain rfl := Except.ok.inj h
    refine ⟨fun v hv => ?_, [], (List.append_nil _).symm⟩
    obtain ⟨p, hp, rfl⟩ := List.mem_map.mp hv
    exact (hdone p hp).1
  | cons entry rest ih =>
    obtain ⟨hentry, hrest⟩ := List.forall_mem_cons.mp hrest
    -- the entry done goes behind the others
    have hstep : ∀ entry' : Json, ∀ id prevId, LoadedEntry fmt entry' →
        (∀ x, id = some x → Valid fmt x) →
        migrateRawV1ToV2From randomUUID (done ++ [(entry', id)]) prevId rest = .ok entries →
        (∀ v ∈ entries, LoadedEntry fmt v) ∧ ∃ tail, entries = done.map Prod.fst ++ tail := by
      intro entry' id prevId hentry' hid h
      have hdone' : ∀ p ∈ done ++ [(entry', id)],
          LoadedEntry fmt p.1 ∧ ∀ x, p.2 = some x → Valid fmt x := by
        intro p hp
        rcases List.mem_append.mp hp with hp | hp
        · exact hdone p hp
        · rw [List.mem_singleton.mp hp]
          exact ⟨hentry', hid⟩
      obtain ⟨hloaded, tail, htail⟩ := ih hdone' hrest h
      exact ⟨hloaded, entry' :: tail, by rw [htail]; simp⟩
    unfold migrateRawV1ToV2From at h
    split at h
    · obtain ⟨entry', hset, h⟩ := Except.bind_ok h
      have hentry' := @LoadedEntry.setVersion _ _ _ hentry 2 (by decide) hset
      exact hstep entry' _ _ hentry' (fun x hx => valid_get? hentry'.valid hx) h
    · obtain ⟨entry1, h1, h⟩ := Except.bind_ok h
      obtain ⟨entry2, h2, h⟩ := Except.bind_ok h
      obtain ⟨entry3, h3, h⟩ := Except.bind_ok h
      have hid : ∀ x, some (Json.string (generateId migrationIds.contains
          (randomUUID done.length))) = some x → Valid fmt x := by
        intro x hx
        obtain rfl := Option.some.inj hx
        trivial
      have hentry1 := LoadedEntry.ofAssign (x := .string _) hentry.valid trivial h1
      have hentry2 : LoadedEntry fmt entry2 := by
        apply LoadedEntry.ofAssign hentry1.valid _ h2
        cases prevId <;> trivial
      refine hstep entry3 _ _ (convertRawFirstKept_loaded ?_ hentry2 h3) hid h
      intro p hp id hpid
      rcases List.mem_append.mp hp with hp | hp
      · exact (hdone p hp).2 id hpid
      · rcases List.mem_cons.mp hp with rfl | hp
        · exact hid id hpid
        · obtain ⟨e, he, rfl⟩ := List.mem_map.mp hp
          exact valid_get? (hrest e he).valid hpid

theorem migrateRawEntryV2ToV3_loaded (h : LoadedEntry fmt entry)
    (hmigrate : migrateRawEntryV2ToV3 entry = .ok entry') : LoadedEntry fmt entry' := by
  unfold migrateRawEntryV2ToV3 at hmigrate
  split at hmigrate
  · exact @LoadedEntry.setVersion _ _ _ h 3 (by decide) hmigrate
  · split at hmigrate
    · split at hmigrate
      · rename_i message hmessage
        split at hmigrate
        · obtain ⟨message', hrole, hmigrate⟩ := Except.bind_ok hmigrate
          have hmessage' :=
            LoadedEntry.ofAssign (x := .string _) (valid_get? h.valid hmessage) trivial hrole
          exact .ofAssign h.valid hmessage'.valid hmigrate
        · obtain rfl := Except.ok.inj hmigrate
          exact h
      · obtain rfl := Except.ok.inj hmigrate
        exact h
    · obtain rfl := Except.ok.inj hmigrate
      exact h

/-- The list the loader returns and the migrations keep: a header comes first. -/
structure LoadedEntries (fmt : NumberFormat) (entries : List Json) : Prop where
  entry : ∀ v ∈ entries, LoadedEntry fmt v
  header : ∃ header rest, entries = header :: rest ∧ isHeader header = true

theorem get?_assign {value value' x : Json} {key name : String} (h : name ≠ key)
    (hassign : value.assign key x = .ok value') : value'.get? name = value.get? name := by
  cases value with
  | object fields =>
    obtain rfl := Except.ok.inj hassign
    exact lookup_setField h x
  | array items =>
    obtain rfl := Except.ok.inj hassign
    rfl
  | _ => cases hassign

theorem isHeader_setVersion {header' : Json} {version : ℚ}
    (hset : setVersion header version = .ok header') : isHeader header' = isHeader header := by
  have htype := @get?_assign _ _ _ _ "type" (by decide) hset
  have hid := @get?_assign _ _ _ _ "id" (by decide) hset
  unfold isHeader Json.hasType Json.hasText
  rw [htype, hid]

theorem hasType_of_isHeader (h : isHeader header = true) : header.hasType "session" = true := by
  unfold isHeader at h
  exact (Bool.and_eq_true _ _ ▸ h).1

theorem migrateRawV1ToV2_loaded (hl : LoadedEntries fmt l)
    (h : migrateRawV1ToV2 randomUUID l = .ok entries) : LoadedEntries fmt entries := by
  obtain ⟨hentry, header, rest, rfl, hheader⟩ := hl
  obtain ⟨hfirst, hrest⟩ := List.forall_mem_cons.mp hentry
  unfold migrateRawV1ToV2 migrateRawV1ToV2From at h
  rw [if_pos (hasType_of_isHeader hheader)] at h
  obtain ⟨header', hset, h⟩ := Except.bind_ok h
  have hfirst' := @LoadedEntry.setVersion _ _ _ hfirst 2 (by decide) hset
  have hdone : ∀ p ∈ ([] ++ [(header', header'.get? "id")] : List (Json × Option Json)),
      LoadedEntry fmt p.1 ∧ ∀ id, p.2 = some id → Valid fmt id := by
    intro p hp
    rw [List.nil_append, List.mem_singleton] at hp
    rw [hp]
    exact ⟨hfirst', fun id hid => valid_get? hfirst'.valid hid⟩
  obtain ⟨hloaded, tail, rfl⟩ := migrateRawV1ToV2From_loaded hdone hrest h
  exact ⟨hloaded, header', tail, rfl, by rw [isHeader_setVersion hset, hheader]⟩

theorem migrateRawV2ToV3_loaded (hl : LoadedEntries fmt l) (h : migrateRawV2ToV3 l = .ok entries) :
    LoadedEntries fmt entries := by
  obtain ⟨hentry, header, rest, rfl, hheader⟩ := hl
  refine ⟨Except.mapM_keeps (fun v w => migrateRawEntryV2ToV3_loaded) hentry h, ?_⟩
  unfold migrateRawV2ToV3 at h
  rw [List.mapM_cons] at h
  obtain ⟨header', hset, h⟩ := Except.bind_ok h
  obtain ⟨rest', -, h⟩ := Except.bind_ok h
  obtain rfl := Except.ok.inj h
  unfold migrateRawEntryV2ToV3 at hset
  rw [if_pos (hasType_of_isHeader hheader)] at hset
  exact ⟨header', rest', rfl, by rw [isHeader_setVersion hset, hheader]⟩

theorem migrateRaw_loaded {migrated : Bool} (hl : LoadedEntries fmt l)
    (h : migrateRaw randomUUID l = .ok (entries, migrated)) :
    LoadedEntries fmt entries ∧ (migrated = false → entries = l) := by
  unfold migrateRaw at h
  simp only at h
  split at h
  · obtain ⟨rfl, rfl⟩ := Prod.mk.inj (Except.ok.inj h)
    exact ⟨hl, fun _ => rfl⟩
  · obtain ⟨entries1, h1, h⟩ := Except.bind_ok h
    obtain ⟨entries2, h2, h⟩ := Except.bind_ok h
    obtain ⟨rfl, rfl⟩ := Prod.mk.inj (Except.ok.inj h)
    refine ⟨?_, fun h => (nomatch h)⟩
    have hl1 : LoadedEntries fmt entries1 := by
      split at h1
      · exact migrateRawV1ToV2_loaded hl h1
      · obtain rfl := Except.ok.inj h1
        exact hl
    split at h2
    · exact migrateRawV2ToV3_loaded hl1 h2
    · obtain rfl := Except.ok.inj h2
      exact hl1

/-! ## Recovery -/

/-- The header as a session file has it: the version is a number, or there is none. -/
def ValidHeader (header : Json) : Prop :=
  isHeader header = true ∧
    ∀ version, header.get? "version" = some version → version = .null ∨
      ∃ q, version = .number (some q)

theorem checkHeader_eq (h : isHeader header = true) :
    checkHeader (header :: rest) = header :: rest := by
  simp [checkHeader, h]

theorem checkHeader_cases (l : List Json) : checkHeader l = l ∨ checkHeader l = [] := by
  cases l with
  | nil => exact .inl rfl
  | cons header rest =>
    cases hheader : isHeader header with
    | true => exact .inl (checkHeader_eq hheader)
    | false => exact .inr (by simp [checkHeader, hheader])

theorem LoadedEntries.checkHeader_append (h : LoadedEntries fmt entries) (rest : List Json) :
    checkHeader (entries ++ rest) = entries ++ rest := by
  obtain ⟨-, header, tail, rfl, hheader⟩ := h
  exact checkHeader_eq hheader

theorem reload_printLines (h : LoadedEntries fmt entries) (hentry : AppendedEntry fmt entry) :
    checkHeader (loadText fmt (printLines fmt entries ++ printLine fmt entry)) =
        entries ++ [entry] ↔
      (∀ v ∈ entries, printed v = v) ∧ printed entry = entry := by
  have hvalid : ∀ v ∈ entries, Valid fmt v := fun v hv => (h.entry v hv).valid
  have htext : loadText fmt (printLines fmt entries ++ printLine fmt entry) =
      entries.filterMap readBack ++ [printed entry] := by
    have hline := loadText_printLine hentry.valid []
    have hempty : loadText fmt [] = [] := rfl
    have hread : readBack entry = some (printed entry) := by
      simp [readBack, Option.filter, hentry.truthy_printed]
    rw [List.append_nil, hempty, hread] at hline
    rw [loadText_printLines hvalid, hline]
    rfl
  rw [htext, ← filterMap_readBack fun v hv => (h.entry v hv).truthy]
  constructor
  · intro heq
    rcases checkHeader_cases (entries.filterMap readBack ++ [printed entry]) with hall | hnone
    · rw [hall] at heq
      obtain ⟨hsame, hlast⟩ := List.append_inj' heq rfl
      exact ⟨hsame, List.singleton_inj.mp hlast⟩
    · rw [hnone] at heq
      simp at heq
  · intro ⟨hsame, hlast⟩
    rw [hsame, hlast, h.checkHeader_append]

theorem reload_append (h : LoadedEntries fmt (loadText fmt content))
    (hentry : AppendedEntry fmt entry) :
    checkHeader (loadText fmt (content ++ printLine fmt entry)) =
        loadText fmt content ++ [entry] ↔
      (lastLine content).all isJsonSpace = true ∧ printed entry = entry := by
  rw [loadText_append hentry.valid]
  by_cases hspace : (lastLine content).all isJsonSpace = true
  · have hcontent := @loadText_lastLine fmt content
    rw [lineEntry_space hspace, Option.toList_none, List.append_nil] at hcontent
    rw [hentry.lineEntry_space hspace, ← hcontent, Option.toList_some, h.checkHeader_append]
    simp [hspace]
  · -- the new line is lost, so there are fewer entries than there should be
    rw [hentry.lineEntry_torn hspace, loadText_lastLine]
    constructor
    · intro heq
      have hlength := congrArg List.length heq
      rcases checkHeader_cases ((linesBefore content).filterMap (lineEntry fmt) ++ [])
        with hall | hnone
      · rw [Option.toList_none, hall] at hlength
        simp at hlength
      · rw [Option.toList_none, hnone] at hlength
        simp at hlength
    · exact fun h => absurd h.1 hspace

theorem indexRaw_append (entries : List Json) (entry : Json) :
    indexRaw (entries ++ [entry]) = .ok () ↔
      indexRaw entries = .ok () ∧ indexRawEntry entry = .ok () := by
  unfold indexRaw
  rw [List.forM_append]
  cases forM entries indexRawEntry with
  | error e => exact ⟨fun h => (nomatch h), fun h => (nomatch h.1)⟩
  | ok u =>
    show forM [entry] indexRawEntry = .ok () ↔ _
    rw [List.forM_cons]
    cases indexRawEntry entry with
    | error e => exact ⟨fun h => (nomatch h), fun h => (nomatch h.2)⟩
    | ok u => exact ⟨fun _ => ⟨rfl, rfl⟩, fun _ => rfl⟩

theorem openText_ok_iff (src : OpenSource) (hload : loadText fmt content = header :: rest)
    (hheader : isHeader header = true) {s : OpenText} :
    openText fmt src content = .ok s ↔
      ∃ entries migrated,
        migrateRaw src.randomUUID (header :: rest) = .ok (entries, migrated) ∧
        indexRaw entries = .ok () ∧
        s = { fileEntries := entries
              content := if migrated then printLines fmt entries else content } := by
  unfold openText
  rw [loadRawEntries_eq, hload, checkHeader_eq hheader]
  constructor
  · intro h
    obtain ⟨⟨entries, migrated⟩, hmigrate, h⟩ := Except.bind_ok h
    obtain ⟨_, hindex, h⟩ := Except.bind_ok h
    exact ⟨entries, migrated, hmigrate, hindex, (Except.ok.inj h).symm⟩
  · intro ⟨entries, migrated, hmigrate, hindex, hs⟩
    simp only [List.isEmpty_cons, Bool.false_eq_true, if_false]
    rw [hmigrate, hs]
    show (indexRaw entries >>= fun _ => _) = _
    rw [hindex]
    rfl

theorem OpenText.append_ok_iff {s s' : OpenText} :
    s.append fmt entry = .ok s' ↔
      indexRawEntry entry = .ok () ∧ (hasAssistantRaw (s.fileEntries ++ [entry])).isOk ∧
        s' = { fileEntries := s.fileEntries ++ [entry]
               content := s.content ++ printLine fmt entry } := by
  unfold OpenText.append
  constructor
  · intro h
    obtain ⟨_, hindex, h⟩ := Except.bind_ok h
    obtain ⟨_, hassistant, h⟩ := Except.bind_ok h
    exact ⟨hindex, by rw [hassistant]; rfl, (Except.ok.inj h).symm⟩
  · intro ⟨hindex, hassistant, hs'⟩
    cases hhas : hasAssistantRaw (s.fileEntries ++ [entry]) with
    | error e => rw [hhas] at hassistant; cases hassistant
    | ok b =>
      rw [hindex, hs']
      show (hasAssistantRaw (s.fileEntries ++ [entry]) >>= fun _ => _) = _
      rw [hhas]
      rfl

theorem reload_iff (src : OpenSource) (h : LoadedEntries fmt (loadText fmt content))
    {migrated : Bool}
    (hmigrate : migrateRaw src.randomUUID (loadText fmt content) = .ok (entries, migrated))
    (hentry : AppendedEntry fmt entry) :
    loadRawEntries fmt (src.chunks ((if migrated then printLines fmt entries else content) ++
        printLine fmt entry)) = entries ++ [entry] ↔
      printed entry = entry ∧
        if migrated then ∀ v ∈ entries, printed v = v
        else (lastLine content).all isJsonSpace = true := by
  obtain ⟨hentries, hsame⟩ := migrateRaw_loaded h hmigrate
  rw [loadRawEntries_eq]
  cases migrated with
  | true =>
    simp only [if_true]
    rw [reload_printLines hentries hentry, and_comm]
  | false =>
    simp only [Bool.false_eq_true, if_false]
    rw [hsame rfl, reload_append h hentry, and_comm]

/-- A file reads back as the entries opened and the appended one when opening and appending
do not throw, print loses nothing, and the file is written anew or ends in white space. -/
theorem recovers_iff (src : OpenSource) {content : List Char} {header : Json} {rest : List Json}
    (hload : loadText fmt content = header :: rest) (hheader : ValidHeader header) {entry : Json}
    (hentry : AppendedEntry fmt entry) :
    Recovers fmt src content entry ↔
      ∃ entries migrated,
        migrateRaw src.randomUUID (header :: rest) = .ok (entries, migrated) ∧
        indexRaw (entries ++ [entry]) = .ok () ∧
        (hasAssistantRaw (entries ++ [entry])).isOk ∧
        printed entry = entry ∧
        if migrated then ∀ v ∈ entries, printed v = v
        else (lastLine content).all isJsonSpace = true := by
  have hloaded : LoadedEntries fmt (loadText fmt content) :=
    ⟨loadText_loaded, header, rest, hload, hheader.1⟩
  unfold Recovers
  constructor
  · intro ⟨s, s', hopen, happend, hreload⟩
    obtain ⟨entries, migrated, hmigrate, hindex, rfl⟩ :=
      (openText_ok_iff src hload hheader.1).mp hopen
    obtain ⟨hindexEntry, hassistant, rfl⟩ := OpenText.append_ok_iff.mp happend
    have hread := (reload_iff src hloaded (hload ▸ hmigrate) hentry).mp hreload
    exact ⟨entries, migrated, hmigrate, (indexRaw_append _ _).mpr ⟨hindex, hindexEntry⟩,
      hassistant, hread⟩
  · intro ⟨entries, migrated, hmigrate, hindexAll, hassistant, hread⟩
    obtain ⟨hindex, hindexEntry⟩ := (indexRaw_append _ _).mp hindexAll
    exact ⟨_, _, (openText_ok_iff src hload hheader.1).mpr
        ⟨entries, migrated, hmigrate, hindex, rfl⟩,
      OpenText.append_ok_iff.mpr ⟨hindexEntry, hassistant, rfl⟩,
      (reload_iff src hloaded (hload ▸ hmigrate) hentry).mpr hread⟩

end Text

/-! ## A file as a crash leaves it -/

/-- Numbers of one digit, which is all the files below have. -/
def digitFormat : NumberFormat where
  read
    | [c] => if 48 ≤ c.toNat ∧ c.toNat < 58 then some ((c.toNat - 48 : Nat) : ℚ) else none
    | _ => none
  print q := [Char.ofNat (48 + q.num.toNat)]
  IsNumber q := ∃ n < 10, q = (n : Nat)
  read_isNumber := by
    intro l q h
    match l with
    | [] => cases h
    | [c] =>
      simp only at h
      split at h
      · rename_i hc
        obtain rfl := Option.some.inj h
        exact ⟨c.toNat - 48, by omega, rfl⟩
      · cases h
    | _ :: _ :: _ => cases h
  isNumber_digit n h := ⟨n, h, rfl⟩
  print_scan := by
    rintro q ⟨n, hn, rfl⟩
    interval_cases n <;> rfl
  read_print := by
    rintro q ⟨n, hn, rfl⟩
    interval_cases n <;> rfl

def sessionHeader3 : Json :=
  .object [("type", .string "session"), ("version", .number (some 3)), ("id", .string "s"),
    ("timestamp", .string "t"), ("cwd", .string "/")]

def noteEntry : Json :=
  .object [("type", .string "custom"), ("customType", .string "note"), ("id", .string "a"),
    ("parentId", .null), ("timestamp", .string "t")]

/-- The file fits into one read. -/
def wholeFile : OpenSource where
  path := "/sessions/s.jsonl"
  chunks content := [content]
  flatten_chunks content := List.append_nil content
  newHeader := sessionHeader3
  randomUUID _ _ := { text := "0123abcd-0123-4abc-8def-0123456789ab", length_eq := rfl }

/-- A message whose line was cut off. -/
def tornLine : List Char :=
  ['\x7b', '"', 't', 'y', 'p', 'e', '"', ':', '"', 'm', 'e', 's', 's']

theorem sessionHeader3_valid : Valid digitFormat sessionHeader3 := by
  refine ⟨by decide, trivial, ⟨3, by decide, rfl⟩, trivial, trivial, trivial, trivial⟩

theorem noteEntry_appended : AppendedEntry digitFormat noteEntry where
  typeFirst := ⟨_, _, rfl⟩
  valid := ⟨by decide, trivial, trivial, trivial, trivial, trivial, trivial⟩

theorem validHeader_sessionHeader3 : ValidHeader sessionHeader3 := by
  refine ⟨rfl, fun version h => .inr ⟨3, ?_⟩⟩
  exact (Option.some.inj h).symm

theorem migrateRaw_sessionHeader3 (randomUUID : Nat → Draws) (rest : List Json) :
    migrateRaw randomUUID (sessionHeader3 :: rest) = .ok (sessionHeader3 :: rest, false) := by
  unfold migrateRaw
  have hversion : (((sessionHeader3 :: rest).head?.map Json.version).getD 1 : ℚ) = 3 := rfl
  rw [hversion]
  rfl

theorem loadText_header (ht : loadText digitFormat t = []) :
    loadText digitFormat (printLine digitFormat sessionHeader3 ++ t) = [sessionHeader3] := by
  rw [loadText_printLine sessionHeader3_valid, ht]
  rfl

theorem tornLine_noNewline : '\n' ∉ tornLine := by decide

theorem loadText_tornLine : loadText digitFormat tornLine = [] := by
  have hparse : jsonParse digitFormat tornLine = none := rfl
  unfold loadText
  rw [splitOn_single tornLine_noNewline]
  simp [lineEntry, parseSessionEntryLine, hparse]

/-- The torn line takes the next entry with it. -/
theorem tornFile_swallows :
    loadText digitFormat (printLine digitFormat sessionHeader3 ++ tornLine) = [sessionHeader3] ∧
    ValidHeader sessionHeader3 ∧ AppendedEntry digitFormat noteEntry ∧
    ¬ Recovers digitFormat wholeFile (printLine digitFormat sessionHeader3 ++ tornLine)
      noteEntry := by
  have hload := loadText_header loadText_tornLine
  refine ⟨hload, validHeader_sessionHeader3, noteEntry_appended, ?_⟩
  intro ⟨s, s', hopen, happend, hreload⟩
  obtain ⟨entries, migrated, hmigrate, -, rfl⟩ :=
    (openText_ok_iff wholeFile hload validHeader_sessionHeader3.1).mp hopen
  obtain ⟨-, -, rfl⟩ := OpenText.append_ok_iff.mp happend
  have hloaded : LoadedEntries digitFormat
      (loadText digitFormat (printLine digitFormat sessionHeader3 ++ tornLine)) :=
    ⟨loadText_loaded, sessionHeader3, [], hload, validHeader_sessionHeader3.1⟩
  have hread := (reload_iff wholeFile hloaded (hload ▸ hmigrate) noteEntry_appended).mp hreload
  rw [migrateRaw_sessionHeader3] at hmigrate
  obtain ⟨rfl, rfl⟩ := Prod.mk.inj (Except.ok.inj hmigrate)
  have hspace : (lastLine (printLine digitFormat sessionHeader3 ++ tornLine)).all isJsonSpace =
      false := by
    unfold lastLine printLine
    rw [List.append_assoc, List.singleton_append, List.splitOn_append_cons_self,
      splitOn_single tornLine_noNewline, List.getLast?_append_of_ne_nil _ (by simp)]
    rfl
  rw [if_neg Bool.false_ne_true, hspace] at hread
  exact Bool.false_ne_true hread.2

/-- A file that ends in its newline recovers. -/
theorem wholeFile_recovers :
    Recovers digitFormat wholeFile (printLine digitFormat sessionHeader3) noteEntry := by
  have hload : loadText digitFormat (printLine digitFormat sessionHeader3) = [sessionHeader3] := by
    have h := loadText_header (t := []) rfl
    rwa [List.append_nil] at h
  have hspace : (lastLine (printLine digitFormat sessionHeader3)).all isJsonSpace = true := by
    unfold lastLine printLine
    rw [List.splitOn_append_cons_self, List.getLast?_append_of_ne_nil _ (by simp)]
    rfl
  apply (recovers_iff wholeFile hload validHeader_sessionHeader3 noteEntry_appended).mpr
  exact ⟨[sessionHeader3], false, migrateRaw_sessionHeader3 _ [], rfl, rfl, rfl, hspace⟩

end PieLab

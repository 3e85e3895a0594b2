import PieLab.Session.Manager

/-
  Session files and their migrations

  A session file is a list of entries behind a header. Files of version 1 have no
  ids: `migrateV1ToV2` gives every entry one and chains the entries by
  `parentId`. Files of version 2 may hold messages of the role `hookMessage`,
  which `migrateV2ToV3` renames. An entry as a file holds it is a `StoredEntry`;
  the index and the path walk read the same fields from it as from an entry of
  the current version.

  What is proved:
    1. `chained_migrateV1ToV2` — the migrated entries carry the drawn ids, each the
       parent of the next.
    2. `faithfulChain_iff` — the migration builds a faithful chain if and only if
       the drawn ids are distinct: the set of the ids given out is never filled,
       so no draw is ever rejected.

  Correspondence (TypeScript ↔ Lean), packages/coding-agent/src/core/session-manager.ts:
    `FileEntry`, `SessionHeader`              ↔ the same names
    `generateId`                              ↔ `generateId` of `Session.Manager`
    `migrateV1ToV2`, `migrateV2ToV3`          ↔ the same names
    `migrateToCurrentVersion`                 ↔ `migrateToCurrentVersion`
    `buildSessionPath`, `buildContextEntries` ↔ `buildStoredPath`, `storedContextEntries`
  A missing field is `none`. A `null` parent is `none` too: both are falsy.
-/

namespace PieLab

open Lib

/-! ## Entries as a file holds them -/

/-- A message of a file: a current one, or one of the old role `hookMessage`,
which has the fields of a custom message. -/
inductive StoredMessage where
  | current (m : AgentMessage)
  | hookMessage (m : CustomMessage)
  deriving DecidableEq, Repr

/-- The fields of a stored entry by `type`. Only messages and compactions differ
from `EntryBody`. -/
inductive StoredBody where
  | message (message : StoredMessage)
  | thinkingLevelChange (thinkingLevel : String)
  | modelChange (provider modelId : String)
  | compaction (summary : String) (firstKeptEntryId : Option String)
      (firstKeptEntryIndex : Option Int) (tokensBefore : Nat)
      (details : Option CompactionDetails) (fromHook : Bool)
  | branchSummary (fromId summary : String) (details : Option String) (fromHook : Bool)
  | custom (customType : String) (data : Option String)
  | customMessage (customType : String) (content : UserContent) (details : Option String)
      (display : Bool)
  | label (targetId : String) (label : Option String)
  | sessionInfo (name : Option String)
  | activeToolsChange (activeToolNames : List String)
  | leaf (targetId : Option String)
  deriving DecidableEq, Repr

structure StoredEntry where
  id : Option String
  parentId : Option String
  timestamp : Int
  body : StoredBody
  deriving DecidableEq, Repr

structure SessionHeader where
  version : Option Int
  id : String
  timestamp : Int
  cwd : String
  parentSession : Option String
  deriving DecidableEq, Repr

inductive FileEntry where
  | session (header : SessionHeader)
  | entry (e : StoredEntry)
  deriving DecidableEq, Repr

/-- `CURRENT_SESSION_VERSION` -/
def currentSessionVersion : Int := 3

/-- `entry.type !== "session"` -/
def FileEntry.entry? : FileEntry → Option StoredEntry
  | .session _ => none
  | .entry e => some e

/-- `entry.type === "session"` -/
def FileEntry.header? : FileEntry → Option SessionHeader
  | .session header => some header
  | .entry _ => none

/-- The entries of a file without its headers. -/
def sessionEntries (entries : List FileEntry) : List StoredEntry :=
  entries.filterMap FileEntry.entry?

@[simp] theorem sessionEntries_session (header : SessionHeader) (entries : List FileEntry) :
    sessionEntries (.session header :: entries) = sessionEntries entries := rfl

@[simp] theorem sessionEntries_entry (e : StoredEntry) (entries : List FileEntry) :
    sessionEntries (.entry e :: entries) = e :: sessionEntries entries := rfl

def EntryBody.stored : EntryBody → StoredBody
  | .message m => .message (.current m)
  | .thinkingLevelChange level => .thinkingLevelChange level
  | .modelChange provider modelId => .modelChange provider modelId
  | .compaction summary firstKeptEntryId tokensBefore details fromHook =>
    .compaction summary (some firstKeptEntryId) none tokensBefore details fromHook
  | .branchSummary fromId summary details fromHook => .branchSummary fromId summary details fromHook
  | .custom customType data => .custom customType data
  | .customMessage customType content details display =>
    .customMessage customType content details display
  | .label targetId text => .label targetId text
  | .sessionInfo name => .sessionInfo name
  | .activeToolsChange names => .activeToolsChange names
  | .leaf targetId => .leaf targetId

/-- An entry of the current version as a file holds it. -/
def SessionEntry.stored (e : SessionEntry) : StoredEntry :=
  { id := some e.id, parentId := e.parentId, timestamp := e.timestamp, body := e.body.stored }

/-! ## The path and the context of stored entries -/

namespace StoredEntry

/-- The parent the walk looks up: an empty `parentId` is falsy, as a missing one is. -/
def parentKey (e : StoredEntry) : Option (Option String) := (e.parentId.filter (· ≠ "")).map some

/-- `compaction.firstKeptEntryId` -/
def firstKeptEntryId (e : StoredEntry) : Option String :=
  match e.body with
  | .compaction _ firstKeptEntryId _ _ _ _ => firstKeptEntryId
  | _ => none

/-- `compaction.firstKeptEntryIndex` -/
def firstKeptEntryIndex (e : StoredEntry) : Option Int :=
  match e.body with
  | .compaction _ _ firstKeptEntryIndex _ _ _ => firstKeptEntryIndex
  | _ => none

/-- `entry.type === "compaction"` -/
def isCompaction (e : StoredEntry) : Bool :=
  match e.body with | .compaction .. => true | _ => false

/-- An entry without the fields that link it to others. -/
def unlinked (e : StoredEntry) : StoredEntry :=
  match e.body with
  | .compaction summary _ _ tokensBefore details fromHook =>
    { e with
      id := none
      parentId := none
      body := .compaction summary none none tokensBefore details fromHook }
  | _ => { e with id := none, parentId := none }

/-- `byId`: the last entry of an id. Entries without an id share the key `undefined`. -/
def index (entries : List StoredEntry) : Option String → Option StoredEntry :=
  findLast StoredEntry.id entries

end StoredEntry

/-- `buildSessionPath` over stored entries: the entry to start from, and the walk. -/
def buildStoredPath (entries : List StoredEntry) (leafId : LeafArg) : Option (List StoredEntry) :=
  let index := StoredEntry.index entries
  let leaf := match leafId with
    | .null => none
    | .undefined => entries.getLast?
    | .id id => if id = "" then entries.getLast? else (index (some id)).or entries.getLast?
  match leaf with
  | none => some []
  | some leaf => (walk index StoredEntry.parentKey entries.length leaf).map List.reverse

/-- A compaction entry, with the id it keeps from. -/
def storedCompactionOf (e : StoredEntry) : Option (StoredEntry × Option String) :=
  match e.body with
  | .compaction _ firstKeptEntryId _ _ _ _ => some (e, firstKeptEntryId)
  | _ => none

/-- `buildContextEntries` over stored entries, below its call of `buildSessionPath`. -/
def storedContextEntries (path : List StoredEntry) : List StoredEntry :=
  match lastMatch storedCompactionOf path with
  | none => path
  | some (compaction, firstKeptEntryId) =>
    match path.findIdx? (fun e => e.id == compaction.id) with
    | none => path
    | some compactionIdx =>
      compaction :: (path.take compactionIdx).dropWhile (fun e => e.id ≠ firstKeptEntryId) ++
        path.drop (compactionIdx + 1)

/-- `sessionEntryToContextMessages` of a stored entry. -/
def storedEntryToContextMessages (e : StoredEntry) : List StoredMessage :=
  match e.body with
  | .message m => [m]
  | .customMessage customType content details display =>
    [.current (createCustomMessage customType content display details e.timestamp)]
  | .branchSummary fromId summary _ _ =>
    if summary ≠ "" then [.current (createBranchSummaryMessage summary fromId e.timestamp)] else []
  | .compaction summary _ _ tokensBefore _ _ =>
    [.current (createCompactionSummaryMessage summary tokensBefore e.timestamp)]
  | _ => []

/-- The context messages of stored entries, from a leaf. -/
def storedContextMessages (entries : List StoredEntry) (leafId : LeafArg) :
    Option (List StoredMessage) :=
  (buildStoredPath entries leafId).map fun path =>
    (storedContextEntries path).flatMap storedEntryToContextMessages

/-! ## The migrations -/

/-- `entries[i]`, `undefined` outside the list. -/
def fileEntryAt (entries : List FileEntry) (i : Int) : Option FileEntry :=
  if 0 ≤ i then entries[i.toNat]? else none

/-- Turn `firstKeptEntryIndex` of a compaction into `firstKeptEntryId`. The entries are the
list as it stands when the loop is at this entry. -/
def convertFirstKept (entries : List FileEntry) (e : StoredEntry) : StoredEntry :=
  match e.body with
  | .compaction summary firstKeptEntryId (some index) tokensBefore details fromHook =>
    let firstKeptEntryId := match fileEntryAt entries index with
      | some (.entry target) => target.id
      | _ => firstKeptEntryId
    { e with body := .compaction summary firstKeptEntryId none tokensBefore details fromHook }
  | _ => e

/-- The set `migrateV1ToV2` hands to `generateId`: created empty, and never added to. -/
def migrationIds : List String := []

/-- An entry between those done and those to come, with its new `id` and `parentId`. -/
def migrateEntryV1ToV2 (done rest : List FileEntry) (id : String) (prevId : Option String)
    (e : StoredEntry) : StoredEntry :=
  let e := { e with id := some id, parentId := prevId }
  convertFirstKept (done ++ .entry e :: rest) e

/-- The loop of `migrateV1ToV2` over the entries to come, behind the ones done. The list is
changed in place; `randomUUID i` are the draws made at position `i`. -/
def migrateV1ToV2From (randomUUID : Nat → Draws) (done : List FileEntry) (prevId : Option String) :
    List FileEntry → List FileEntry
  | [] => done
  | .session header :: rest =>
    migrateV1ToV2From randomUUID (done ++ [.session { header with version := some 2 }]) prevId rest
  | .entry e :: rest =>
    let id := generateId migrationIds.contains (randomUUID done.length)
    let e := migrateEntryV1ToV2 done rest id prevId e
    migrateV1ToV2From randomUUID (done ++ [.entry e]) (some id) rest

def migrateV1ToV2 (randomUUID : Nat → Draws) (entries : List FileEntry) : List FileEntry :=
  migrateV1ToV2From randomUUID [] none entries

/-- Rename the role `hookMessage` to `custom`. -/
def renameHookMessage : StoredMessage → StoredMessage
  | .hookMessage m => .current (.custom m)
  | .current m => .current m

def migrateEntryV2ToV3 (e : StoredEntry) : StoredEntry :=
  match e.body with
  | .message m => { e with body := .message (renameHookMessage m) }
  | _ => e

def migrateV2ToV3 (entries : List FileEntry) : List FileEntry :=
  entries.map fun
    | .session header => .session { header with version := some 3 }
    | .entry e => .entry (migrateEntryV2ToV3 e)

/-- The version of the first header; files without one are of version 1. -/
def sessionVersion (entries : List FileEntry) : Int :=
  ((entries.findSome? FileEntry.header?).bind SessionHeader.version).getD 1

/-- The entries brought to the current version, and whether a migration was applied. -/
def migrateToCurrentVersion (randomUUID : Nat → Draws) (entries : List FileEntry) :
    List FileEntry × Bool :=
  let version := sessionVersion entries
  if currentSessionVersion ≤ version then (entries, false)
  else
    let entries := if version < 2 then migrateV1ToV2 randomUUID entries else entries
    let entries := if version < 3 then migrateV2ToV3 entries else entries
    (entries, true)

/-! ## What the migration of version 1 does -/

/-- The id drawn at a position. -/
def drawnId (randomUUID : Nat → Draws) (i : Nat) : String := (randomUUID i 0).short

/-- The ids drawn for the entries of a list that begins at position `i`. -/
def drawnIds (randomUUID : Nat → Draws) : Nat → List FileEntry → List String
  | _, [] => []
  | i, .session _ :: rest => drawnIds randomUUID (i + 1) rest
  | i, .entry _ :: rest => drawnId randomUUID i :: drawnIds randomUUID (i + 1) rest

theorem generateId_migrationIds (randomUUID : Nat → Draws) (i : Nat) :
    generateId migrationIds.contains (randomUUID i) = drawnId randomUUID i := by
  have hfind : (List.range 100).find? (fun k => !migrationIds.contains (randomUUID i k).short) =
      some 0 := by
    rw [List.range_succ_eq_map (n := 99)]
    rfl
  unfold generateId
  rw [hfind]
  rfl

/-- What each place of a list holds, the links left out; `none` is a header. -/
def contents (entries : List FileEntry) : List (Option StoredEntry) :=
  entries.map fun x => x.entry?.map StoredEntry.unlinked

@[simp] theorem contents_session (header : SessionHeader) (entries : List FileEntry) :
    contents (.session header :: entries) = none :: contents entries := rfl

@[simp] theorem contents_entry (e : StoredEntry) (entries : List FileEntry) :
    contents (.entry e :: entries) = some e.unlinked :: contents entries := rfl

theorem contents_getElem? {entries : List FileEntry} {i : Nat} :
    (∃ c, (contents entries)[i]? = some (some c)) ↔ ∃ e, entries[i]? = some (.entry e) := by
  unfold contents
  rw [List.getElem?_map]
  cases entries[i]? with
  | none => simp
  | some x => cases x <;> simp [FileEntry.entry?]

/-- Each entry has the one before as its parent, the first one `prevId`. -/
def ChainedBelow : Option String → List StoredEntry → Prop
  | _, [] => True
  | prevId, e :: es => e.parentId = prevId ∧ ChainedBelow e.id es

theorem convertFirstKept_id (entries : List FileEntry) (e : StoredEntry) :
    (convertFirstKept entries e).id = e.id := by
  unfold convertFirstKept
  split <;> rfl

theorem convertFirstKept_parentId (entries : List FileEntry) (e : StoredEntry) :
    (convertFirstKept entries e).parentId = e.parentId := by
  unfold convertFirstKept
  split <;> rfl

@[simp] theorem migrateEntryV1ToV2_id (done rest : List FileEntry) (id : String)
    (prevId : Option String) (e : StoredEntry) :
    (migrateEntryV1ToV2 done rest id prevId e).id = some id := by
  simp [migrateEntryV1ToV2, convertFirstKept_id]

@[simp] theorem migrateEntryV1ToV2_parentId (done rest : List FileEntry) (id : String)
    (prevId : Option String) (e : StoredEntry) :
    (migrateEntryV1ToV2 done rest id prevId e).parentId = prevId := by
  simp [migrateEntryV1ToV2, convertFirstKept_parentId]

theorem convertFirstKept_unlinked (entries : List FileEntry) (e : StoredEntry) :
    (convertFirstKept entries e).unlinked = e.unlinked := by
  obtain ⟨id, parentId, timestamp, body⟩ := e
  cases body with
  | compaction summary firstKeptEntryId firstKeptEntryIndex tokensBefore details fromHook =>
    cases firstKeptEntryIndex <;> rfl
  | _ => rfl

@[simp] theorem migrateEntryV1ToV2_unlinked (done rest : List FileEntry) (id : String)
    (prevId : Option String) (e : StoredEntry) :
    (migrateEntryV1ToV2 done rest id prevId e).unlinked = e.unlinked := by
  unfold migrateEntryV1ToV2
  rw [convertFirstKept_unlinked]
  obtain ⟨id', parentId', timestamp, body⟩ := e
  cases body <;> rfl

theorem migrateV1ToV2From_spec (randomUUID : Nat → Draws) (done : List FileEntry)
    (prevId : Option String) (rest : List FileEntry) :
    ∃ out, migrateV1ToV2From randomUUID done prevId rest = done ++ out ∧ contents out = contents rest ∧
      (sessionEntries out).map StoredEntry.id = (drawnIds randomUUID done.length rest).map some ∧
      ChainedBelow prevId (sessionEntries out) := by
  induction rest generalizing done prevId with
  | nil => exact ⟨[], by simp [migrateV1ToV2From], rfl, rfl, trivial⟩
  | cons x rest ih =>
    cases x with
    | session header =>
      obtain ⟨out, hout, hcontents, hids, hchain⟩ :=
        ih (done ++ [.session { header with version := some 2 }]) prevId
      refine ⟨.session { header with version := some 2 } :: out, ?_, ?_, ?_, hchain⟩
      · show migrateV1ToV2From randomUUID _ prevId rest = _
        rw [hout]
        simp
      · simp [hcontents]
      · simpa [drawnIds] using hids
    | entry e =>
      have hid : generateId migrationIds.contains (randomUUID done.length) =
          drawnId randomUUID done.length := generateId_migrationIds _ _
      obtain ⟨out, hout, hcontents, hids, hchain⟩ :=
        ih (done ++ [.entry (migrateEntryV1ToV2 done rest (drawnId randomUUID done.length) prevId e)])
          (some (drawnId randomUUID done.length))
      refine ⟨.entry (migrateEntryV1ToV2 done rest (drawnId randomUUID done.length) prevId e) :: out,
        ?_, ?_, ?_, ?_⟩
      · rw [migrateV1ToV2From, hid, hout]
        simp
      · simp [hcontents]
      · simpa [drawnIds] using hids
      · simpa [ChainedBelow] using hchain

theorem migrateV1ToV2From_append (randomUUID : Nat → Draws) (pre rest : List FileEntry)
    (done : List FileEntry) (prevId : Option String) :
    ∃ out prevId', contents out = contents pre ∧
      migrateV1ToV2From randomUUID done prevId (pre ++ rest) =
        migrateV1ToV2From randomUUID (done ++ out) prevId' rest := by
  induction pre generalizing done prevId with
  | nil => exact ⟨[], prevId, rfl, by simp⟩
  | cons x pre ih =>
    cases x with
    | session header =>
      obtain ⟨out, prevId', hcontents, hloop⟩ :=
        ih (done ++ [.session { header with version := some 2 }]) prevId
      refine ⟨.session { header with version := some 2 } :: out, prevId', ?_, ?_⟩
      · simp [hcontents]
      · show migrateV1ToV2From randomUUID _ prevId (pre ++ rest) = _
        rw [hloop, List.append_assoc]
        rfl
    | entry e =>
      obtain ⟨out, prevId', hcontents, hloop⟩ := ih (done ++ [.entry (migrateEntryV1ToV2 done
        (pre ++ rest) (generateId migrationIds.contains (randomUUID done.length)) prevId e)])
        (some (generateId migrationIds.contains (randomUUID done.length)))
      refine ⟨.entry (migrateEntryV1ToV2 done (pre ++ rest)
        (generateId migrationIds.contains (randomUUID done.length)) prevId e) :: out, prevId', ?_, ?_⟩
      · simp [hcontents]
      · rw [List.cons_append, migrateV1ToV2From, hloop, List.append_assoc]
        rfl

/-! ## The faithful chain -/

/-- What the migration of version 1 is for. -/
structure FaithfulChain (entries migrated : List FileEntry) : Prop where
  inPlace : contents migrated = (contents entries).map (Option.map migrateEntryV2ToV3)
  distinct : ∃ ids : List String,
    (sessionEntries migrated).map StoredEntry.id = ids.map some ∧ ids.Nodup
  chain : buildStoredPath (sessionEntries migrated) .undefined = some (sessionEntries migrated)
  firstKept : ∀ (i j : Nat) (e target : StoredEntry),
    entries[i]? = some (.entry e) → e.firstKeptEntryIndex = some (j : Int) → j < i →
    entries[j]? = some (.entry target) →
    ∃ e' target' : StoredEntry, migrated[i]? = some (.entry e') ∧
      migrated[j]? = some (.entry target') ∧ e'.firstKeptEntryId = target'.id

theorem ChainedBelow.isChain {prevId : Option String} {es : List StoredEntry}
    (h : ChainedBelow prevId es) :
    es.IsChain (fun a b => b.parentId = a.id) ∧ ∀ e, es.head? = some e → e.parentId = prevId := by
  induction es generalizing prevId with
  | nil => exact ⟨.nil, fun e he => by cases he⟩
  | cons a es ih =>
    obtain ⟨ha, hes⟩ := h
    obtain ⟨hchain, hhead⟩ := ih hes
    refine ⟨List.isChain_cons.mpr ⟨hhead, hchain⟩, fun e he => ?_⟩
    obtain rfl := Option.some.inj he
    exact ha

theorem StoredEntry.parentKey_eq {e : StoredEntry} {id : String} (h : e.parentId = some id)
    (hne : id ≠ "") : e.parentKey = some (some id) := by
  simp [StoredEntry.parentKey, h, hne]

theorem buildStoredPath_chained {es : List StoredEntry} {ids : List String}
    (hids : es.map StoredEntry.id = ids.map some) (hn : ids.Nodup) (hne : "" ∉ ids)
    (hchain : ChainedBelow none es) : buildStoredPath es .undefined = some es := by
  cases hl : es.getLast? with
  | none =>
    obtain rfl := List.getLast?_eq_none_iff.mp hl
    rfl
  | some last =>
    have hes : es ≠ [] := by
      rintro rfl
      cases hl
    have hnodup : (es.map StoredEntry.id).Nodup := by
      rw [hids]
      exact hn.map fun _ _ => Option.some.inj
    have hidx : ∀ e ∈ es, StoredEntry.index es e.id = some e := fun e he =>
      findLast_of_nodup hnodup he
    obtain ⟨hlinks, hhead⟩ := hchain.isChain
    have hparents : es.IsChain (fun a b => b.parentKey = some a.id) := by
      refine hlinks.imp_of_mem_imp fun a b ha _ hab => ?_
      have hmem : a.id ∈ ids.map some := hids ▸ List.mem_map_of_mem ha
      obtain ⟨id, hid, ha'⟩ := List.mem_map.mp hmem
      rw [← ha'] at hab ⊢
      exact StoredEntry.parentKey_eq hab fun h => hne (h ▸ hid)
    have hroot : ∀ e, es.head? = some e → e.parentKey.bind (StoredEntry.index es) = none := by
      intro e he
      simp [StoredEntry.parentKey, hhead e he]
    have hrooted := rooted_reverse hes hparents hidx hroot
    have hwalk :=
      hrooted.walk (n := es.length) (x := last) (by rw [List.head?_reverse, hl]) (by simp)
    unfold buildStoredPath
    simp only [hl]
    rw [show StoredEntry.index es = findLast StoredEntry.id es from rfl, hwalk]
    simp

theorem convertFirstKept_target {entries : List FileEntry} {e target : StoredEntry} {j : Int}
    (hindex : e.firstKeptEntryIndex = some j) (htarget : fileEntryAt entries j = some (.entry target)) :
    (convertFirstKept entries e).firstKeptEntryId = target.id := by
  obtain ⟨id, parentId, timestamp, body⟩ := e
  cases body with
  | compaction summary firstKeptEntryId firstKeptEntryIndex tokensBefore details fromHook =>
    obtain rfl : firstKeptEntryIndex = some j := hindex
    show (match fileEntryAt entries j with
      | some (.entry target) => target.id
      | _ => firstKeptEntryId) = target.id
    rw [htarget]
  | _ => cases hindex

theorem migrateV1ToV2_split (randomUUID : Nat → Draws) (pre post : List FileEntry)
    (e : StoredEntry) :
    ∃ out prevId out', migrateV1ToV2 randomUUID (pre ++ .entry e :: post) =
        out ++ .entry (migrateEntryV1ToV2 out post (drawnId randomUUID pre.length) prevId e) :: out' ∧
      contents out = contents pre ∧ contents out' = contents post := by
  obtain ⟨out, prevId, hcontents, hloop⟩ := migrateV1ToV2From_append randomUUID pre
    (.entry e :: post) [] none
  have hlen : out.length = pre.length := by
    simpa [contents] using congrArg List.length hcontents
  obtain ⟨out', hout', hcontents', -⟩ := migrateV1ToV2From_spec randomUUID
    (out ++ [.entry (migrateEntryV1ToV2 out post (drawnId randomUUID pre.length) prevId e)])
    (some (drawnId randomUUID pre.length)) post
  refine ⟨out, prevId, out', ?_, hcontents, hcontents'⟩
  rw [migrateV1ToV2, hloop, List.nil_append, migrateV1ToV2From, hlen, generateId_migrationIds,
    hout']
  simp

theorem split_at {entries : List FileEntry} {i : Nat} {x : FileEntry} (h : entries[i]? = some x) :
    entries = entries.take i ++ x :: entries.drop (i + 1) ∧ (entries.take i).length = i := by
  obtain ⟨hi, hget⟩ := List.getElem?_eq_some_iff.mp h
  refine ⟨?_, by rw [List.length_take]; omega⟩
  rw [← hget, List.getElem_cons_drop, List.take_append_drop]

theorem migrateV1ToV2_firstKept {entries : List FileEntry} (randomUUID : Nat → Draws)
    {i j : Nat} {e target : StoredEntry} (he : entries[i]? = some (.entry e))
    (hindex : e.firstKeptEntryIndex = some (j : Int)) (hj : j < i)
    (htarget : entries[j]? = some (.entry target)) :
    ∃ e' target' : StoredEntry, (migrateV1ToV2 randomUUID entries)[i]? = some (.entry e') ∧
      (migrateV1ToV2 randomUUID entries)[j]? = some (.entry target') ∧
      e'.firstKeptEntryId = target'.id := by
  obtain ⟨hsplit, hi⟩ := split_at he
  obtain ⟨out, prevId, out', hout, hcontents, -⟩ :=
    migrateV1ToV2_split randomUUID (entries.take i) (entries.drop (i + 1)) e
  rw [← hsplit, hi] at hout
  have hlen : out.length = i := by
    rw [← hi]
    simpa [contents] using congrArg List.length hcontents
  have hji : j < out.length := by omega
  obtain ⟨target', htarget'⟩ : ∃ target', out[j]? = some (.entry target') := by
    rw [← contents_getElem?, hcontents, contents_getElem?]
    exact ⟨target, by rw [List.getElem?_take_of_lt hj, htarget]⟩
  refine ⟨migrateEntryV1ToV2 out (entries.drop (i + 1)) (drawnId randomUUID i) prevId e, target',
    ?_, ?_, ?_⟩
  · rw [hout, List.getElem?_append_right (by omega), hlen, Nat.sub_self]
    rfl
  · rw [hout, List.getElem?_append_left hji, htarget']
  · unfold migrateEntryV1ToV2
    refine convertFirstKept_target (j := j) ?_ ?_
    · exact hindex
    · unfold fileEntryAt
      rw [if_pos (by omega), Int.toNat_natCast, List.getElem?_append_left hji, htarget']

/-! ## The migration of version 2 -/

@[simp] theorem migrateEntryV2ToV3_id (e : StoredEntry) : (migrateEntryV2ToV3 e).id = e.id := by
  unfold migrateEntryV2ToV3
  split <;> rfl

@[simp] theorem migrateEntryV2ToV3_parentId (e : StoredEntry) :
    (migrateEntryV2ToV3 e).parentId = e.parentId := by
  unfold migrateEntryV2ToV3
  split <;> rfl

@[simp] theorem migrateEntryV2ToV3_firstKeptEntryId (e : StoredEntry) :
    (migrateEntryV2ToV3 e).firstKeptEntryId = e.firstKeptEntryId := by
  obtain ⟨id, parentId, timestamp, body⟩ := e
  cases body <;> rfl

theorem sessionEntries_migrateV2ToV3 (entries : List FileEntry) :
    sessionEntries (migrateV2ToV3 entries) = (sessionEntries entries).map migrateEntryV2ToV3 := by
  induction entries with
  | nil => rfl
  | cons x entries ih =>
    cases x with
    | session header => exact ih
    | entry e => exact congrArg (migrateEntryV2ToV3 e :: ·) ih

theorem migrateEntryV2ToV3_unlinked (e : StoredEntry) :
    (migrateEntryV2ToV3 e).unlinked = migrateEntryV2ToV3 e.unlinked := by
  obtain ⟨id, parentId, timestamp, body⟩ := e
  cases body <;> rfl

theorem contents_migrateV2ToV3 (entries : List FileEntry) :
    contents (migrateV2ToV3 entries) = (contents entries).map (Option.map migrateEntryV2ToV3) := by
  induction entries with
  | nil => rfl
  | cons x entries ih =>
    cases x with
    | session header => exact congrArg (none :: ·) ih
    | entry e =>
      show some (migrateEntryV2ToV3 e).unlinked :: contents (migrateV2ToV3 entries) = _
      rw [migrateEntryV2ToV3_unlinked, ih]
      rfl

theorem migrateV2ToV3_entry {entries : List FileEntry} {i : Nat} {e : StoredEntry}
    (h : entries[i]? = some (.entry e)) :
    (migrateV2ToV3 entries)[i]? = some (.entry (migrateEntryV2ToV3 e)) := by
  unfold migrateV2ToV3
  rw [List.getElem?_map, h]
  rfl

theorem ChainedBelow.migrate {prevId : Option String} {es : List StoredEntry}
    (h : ChainedBelow prevId es) : ChainedBelow prevId (es.map migrateEntryV2ToV3) := by
  induction es generalizing prevId with
  | nil => trivial
  | cons e es ih =>
    obtain ⟨hparent, hes⟩ := h
    refine ⟨by simp [hparent], ?_⟩
    rw [migrateEntryV2ToV3_id]
    exact ih hes

theorem migrateToCurrentVersion_v1 {entries : List FileEntry} (randomUUID : Nat → Draws)
    (hversion : sessionVersion entries < 2) :
    (migrateToCurrentVersion randomUUID entries).1 =
      migrateV2ToV3 (migrateV1ToV2 randomUUID entries) := by
  unfold migrateToCurrentVersion currentSessionVersion
  have hbelow : sessionVersion entries < 3 := by omega
  simp [hversion, hbelow, Int.not_le.mpr hbelow]

theorem drawnIds_ne (randomUUID : Nat → Draws) (entries : List FileEntry) (i : Nat) :
    "" ∉ drawnIds randomUUID i entries := by
  induction entries generalizing i with
  | nil => exact List.not_mem_nil
  | cons x entries ih =>
    cases x with
    | session header => exact ih (i + 1)
    | entry e =>
      rw [drawnIds, List.mem_cons, not_or]
      exact ⟨fun h => Uuid.short_ne _ h.symm, ih (i + 1)⟩

/-! ## Main result -/

/-- A list of version 1 becomes a faithful chain exactly when the eight characters drawn for
its entries are distinct. -/
theorem faithfulChain_iff (entries : List FileEntry) (randomUUID : Nat → Draws)
    (hversion : sessionVersion entries < 2) :
    FaithfulChain entries (migrateToCurrentVersion randomUUID entries).1 ↔
      (drawnIds randomUUID 0 entries).Nodup := by
  obtain ⟨out, hout, hcontents, hids, hchain⟩ := migrateV1ToV2From_spec randomUUID [] none entries
  have hids' : (sessionEntries (migrateV2ToV3 (migrateV1ToV2 randomUUID entries))).map
      StoredEntry.id = (drawnIds randomUUID 0 entries).map some := by
    rw [sessionEntries_migrateV2ToV3, List.map_map, migrateV1ToV2, hout, List.nil_append]
    simpa [Function.comp_def] using hids
  rw [migrateToCurrentVersion_v1 randomUUID hversion]
  constructor
  · intro h
    obtain ⟨ids, heq, hn⟩ := h.distinct
    have : ids = drawnIds randomUUID 0 entries := by
      apply List.map_injective_iff.mpr fun _ _ => Option.some.inj
      rw [← heq, hids']
    exact this ▸ hn
  · intro hn
    refine ⟨?_, ⟨_, hids', hn⟩, ?_, ?_⟩
    · rw [contents_migrateV2ToV3, migrateV1ToV2, hout, List.nil_append, hcontents]
    · apply buildStoredPath_chained hids' hn (drawnIds_ne _ _ _)
      rw [sessionEntries_migrateV2ToV3, migrateV1ToV2, hout]
      exact hchain.migrate
    · intro i j e target he hindex hj htarget
      obtain ⟨e', target', he', htarget', hkept⟩ :=
        migrateV1ToV2_firstKept randomUUID he hindex hj htarget
      exact ⟨_, _, migrateV2ToV3_entry he', migrateV2ToV3_entry htarget', by simpa using hkept⟩

/-! ## Two entries and one draw -/

namespace MigrationExample

def header : FileEntry :=
  .session { version := none, id := "s", timestamp := 0, cwd := "/", parentSession := none }

/-- An entry of version 1: no id, no parent. -/
def user (text : String) : FileEntry :=
  .entry { id := none, parentId := none, timestamp := 0
           body := .message (.current (.user { content := .text text, timestamp := 0 })) }

def entries : List FileEntry := [header, user "one", user "two"]

theorem uuid_length (c : Char) :
    (String.ofList (c :: "0000000-0000-4000-8000-000000000000".toList)).toList.length = 36 := by
  rw [String.toList_ofList]
  rfl

def uuid (c : Char) : Uuid where
  text := String.ofList (c :: "0000000-0000-4000-8000-000000000000".toList)
  length_eq := uuid_length c

/-- The draws at position 2, after those of `c` everywhere before. -/
def draws (c d : Char) (i : Nat) : Draws := fun _ => uuid (if i = 2 then d else c)

end MigrationExample

open MigrationExample in
theorem faithfulChain_example :
    sessionVersion entries < 2 ∧
      FaithfulChain entries (migrateToCurrentVersion (draws 'a' 'b') entries).1 := by
  have hversion : sessionVersion entries < 2 := by decide
  exact ⟨hversion, (faithfulChain_iff entries (draws 'a' 'b') hversion).mpr (by decide)⟩

open MigrationExample in
/-- Both entries draw the same eight characters, and both get them. -/
theorem migration_repeats_id :
    ¬ ∀ (entries : List FileEntry) (randomUUID : Nat → Draws), sessionVersion entries < 2 →
      FaithfulChain entries (migrateToCurrentVersion randomUUID entries).1 := by
  intro h
  have hversion : sessionVersion entries < 2 := by decide
  obtain ⟨ids, hids, hn⟩ := (h entries (draws 'a' 'a') hversion).distinct
  have hmigrated : (sessionEntries (migrateToCurrentVersion (draws 'a' 'a') entries).1).map
      StoredEntry.id = ["a0000000", "a0000000"].map some := by decide
  have : ids = ["a0000000", "a0000000"] := by
    apply List.map_injective_iff.mpr fun _ _ => Option.some.inj
    rw [← hids, hmigrated]
  rw [this] at hn
  exact absurd hn (by decide)

end PieLab

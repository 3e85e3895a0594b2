import PieLab.Lib.IsoDate
import PieLab.Session.PrintedEntries

/-
  The index of a session, kept and rebuilt

  Every append puts the entry into the index; a label append sets or deletes the
  label behind that, where the write did not throw. Opening a file, and branching a
  session off, build the whole index from the entries.

  What is proved:
    1. `Indexed.push`           — one more entry, indexed as the rebuild would.
    2. `Reached.indexed`        — in every run the index is the one `_buildIndex` gives.
    3. `rebuilt_index_agrees`   — so it is from the entries as JSON prints them, and the
       leaf agrees after every append, as long as no write of a label throws.
    4. `failed_label_forgotten` — a label whose write throws is in the entries alone.

  Correspondence (TypeScript ↔ Lean), packages/coding-agent/src/core/session-manager.ts:
    the entry literals of `append*`      ↔ `ManagerOp.entry`
    `appendLabelChange`, `branch*`, ..   ↔ `RawManager.call`
    `createBranchedSession`              ↔ `RawManager.createBranchedSession`
    `_appendEntry`, `_buildIndex`        ↔ `RawManager.appendEntry`, `RawManager.buildIndex`
-/

namespace PieLab

open Lib

/-! ## The operations -/

/-- What a call takes from its surroundings. -/
structure Surroundings where
  timestamp : Int
  randomUUID : Nat → Draws
  fails : FileOp → Option String
  /-- `createSessionId()` -/
  newId : String
  newFile : String
  cwd : String

/-- The methods of `SessionManager` that write or move. -/
inductive ManagerOp where
  | appendMessage (message : Json)
  | appendThinkingLevelChange (thinkingLevel : String)
  | appendModelChange (provider modelId : String)
  | appendCompaction (summary firstKeptEntryId : String) (tokensBefore : Option ℚ)
      (details : Option Json) (fromHook : Option Bool)
  | appendCustomEntry (customType : String) (data : Option Json)
  | appendSessionInfo (name : String)
  | appendCustomMessageEntry (customType : String) (content : Json) (display : Bool)
      (details : Option Json)
  | appendLabelChange (targetId : String) (label : Option String)
  | branch (branchFromId : String)
  | resetLeaf
  | branchWithSummary (branchFromId : Option String) (summary : String) (details : Option Json)
      (fromHook : Option Bool)
  | createBranchedSession (leafId : String)

/-- `null` or a text. -/
def nullable : Option String → Json
  | none => .null
  | some s => .string s

/-- The entry an operation appends; `identity` is its id, its parent and its time. -/
def ManagerOp.entry (identity : List (String × Json)) : ManagerOp → Option (List (String × Json))
  | .appendMessage message =>
    some ([("type", .string "message")] ++ identity ++ [("message", message)])
  | .appendThinkingLevelChange thinkingLevel =>
    some ([("type", .string "thinking_level_change")] ++ identity ++
      [("thinkingLevel", .string thinkingLevel)])
  | .appendModelChange provider modelId =>
    some ([("type", .string "model_change")] ++ identity ++
      [("provider", .string provider), ("modelId", .string modelId)])
  | .appendCompaction summary firstKeptEntryId tokensBefore details fromHook =>
    some ([("type", .string "compaction")] ++ identity ++
      [("summary", .string summary), ("firstKeptEntryId", .string firstKeptEntryId),
        ("tokensBefore", .number tokensBefore)] ++ optionalField "details" details ++
          optionalField "fromHook" (fromHook.map .bool))
  | .appendCustomEntry customType data =>
    some ([("type", .string "custom"), ("customType", .string customType)] ++
      optionalField "data" data ++ identity)
  | .appendSessionInfo name =>
    some ([("type", .string "session_info")] ++ identity ++
      [("name", .string (jsTrim (String.ofList (replaceLineBreaks name.toList))))])
  | .appendCustomMessageEntry customType content display details =>
    some ([("type", .string "custom_message"), ("customType", .string customType),
      ("content", content), ("display", .bool display)] ++ optionalField "details" details ++ identity)
  | .appendLabelChange targetId label =>
    some ([("type", .string "label")] ++ identity ++
      [("targetId", .string targetId)] ++ optionalField "label" (label.map .string))
  | .branchWithSummary branchFromId summary details fromHook =>
    some ([("type", .string "branch_summary")] ++ identity ++
      [("fromId", .string (branchFromId.getD "root")), ("summary", .string summary)] ++
        optionalField "details" details ++ optionalField "fromHook" (fromHook.map .bool))
  | .branch _ | .resetLeaf | .createBranchedSession _ => none

/-- The operation appends an entry. -/
def ManagerOp.Appends (op : ManagerOp) : Prop := (op.entry []).isSome

/-- A label that is still set on an entry of the path. -/
structure RawLabel where
  targetId : Option Json
  label : Json
  timestamp : Option Json

/-- `{ ...entry, parentId: pathParentId }` -/
def rechained (entry : Json) (pathParentId : Option Json) : Json :=
  match entry with
  | .object fields =>
    .object (match pathParentId with
      | some id => setField fields "parentId" id
      | none => fields.filter fun f => f.1 ≠ "parentId")
  -- a value that is not an object has no id, and is not found
  | _ => .object (optionalField "parentId" pathParentId)

/-- The loop that leaves the labels of the path out. -/
def rawPathWithoutLabels : Option Json → List Json → List Json
  | _, [] => []
  | pathParentId, entry :: rest =>
    if entry.hasType "label" then rawPathWithoutLabels pathParentId rest
    else rechained entry pathParentId :: rawPathWithoutLabels (entry.get? "id") rest

/-- The label entries behind the path, each the child of the one in front. -/
def rawLabelEntries (usedIds : List (Option Json)) (parentId : Json) (randomUUID : Nat → Draws) :
    List RawLabel → List Json
  | [] => []
  | write :: rest =>
    let id := generateId (fun id => usedIds.any (sameKey (some (.string id)))) (randomUUID 0)
    let labelEntry : Json := .object ([("type", .string "label"), ("id", .string id),
      ("parentId", parentId)] ++ optionalField "timestamp" write.timestamp ++
        optionalField "targetId" write.targetId ++ [("label", write.label)])
    labelEntry :: rawLabelEntries (usedIds ++ [some (.string id)]) (.string id)
      (fun n => randomUUID (n + 1)) rest

def rawSessionHeader (c : Surroundings) (id : String) (parentSession : Option String) : Json :=
  .object ([("type", .string "session"), ("version", .number (some 3)), ("id", .string id),
    ("timestamp", .string (isoText c.timestamp)), ("cwd", .string c.cwd)] ++
      optionalField "parentSession" (parentSession.map .string))

namespace RawManager

/-- `this.byId.has(id)` -/
def has (s : RawManager) (id : String) : Bool := (s.byId.get? (some (.string id))).isSome

/-- The id, the parent and the time of a new entry. -/
def identity (s : RawManager) (c : Surroundings) : List (String × Json) :=
  [("id", .string (generateId s.has (c.randomUUID 0)))] ++ optionalField "parentId" s.leafId ++
    [("timestamp", .string (isoText c.timestamp))]

/-- The loop over the labels that are set. -/
def rawLabelsToWrite (s : RawManager) (pathEntryIds : List (Option Json)) : List RawLabel :=
  s.labelsById.filterMap fun (targetId, label) =>
    if pathEntryIds.any (sameKey targetId) then
      some { targetId, label, timestamp := (s.labelTimestampsById.get? targetId).join }
    else none

/-- The entries of the new session. -/
def branchedEntries (s : RawManager) (path : List Json) (randomUUID : Nat → Draws) : List Json :=
  let kept := rawPathWithoutLabels (some .null) path
  let pathEntryIds := kept.map (·.get? "id")
  let lastEntryId := ((kept.getLast?.bind (·.get? "id")).filter Json.truthy).getD .null
  kept ++ rawLabelEntries pathEntryIds lastEntryId randomUUID (s.rawLabelsToWrite pathEntryIds)

/-- The file is written where the path has an answer of the assistant. -/
def writeBranch (s : RawManager) (fails : FileOp → Option String) : CallResult :=
  if s.persist then
    match hasAssistantRaw s.fileEntries with
    | .error e => { manager := s, done := [], thrown := some e }
    | .ok true =>
      match s.rewriteFile fails with
      | (done, some e) => { manager := s, done, thrown := some e }
      | (done, none) => { manager := { s with flushed := true }, done, thrown := none }
    | .ok false => { manager := { s with flushed := false }, done := [], thrown := none }
  else { manager := s, done := [], thrown := none }

/-- `none` where the walk to the root has not ended. -/
def createBranchedSession (fuel : Nat) (s : RawManager) (leafId : String) (c : Surroundings) :
    Option CallResult :=
  (s.getBranch fuel (some leafId)).map fun path =>
    if path.isEmpty then
      { manager := s, done := [], thrown := some (SessionManager.notFound leafId) }
    else
      let header := rawSessionHeader c c.newId (if s.persist then s.sessionFile else none)
      let branched := { s with
        fileEntries := header :: s.branchedEntries path c.randomUUID
        sessionId := c.newId
        sessionFile := if s.persist then some c.newFile else s.sessionFile }
      match branched.buildIndex with
      | (s, some e) => { manager := s, done := [], thrown := some e }
      | (s, none) =>
        ({ s with entriesRevision := s.entriesRevision + 1 } : RawManager).writeBranch c.fails

/-- The label is set or deleted. -/
def setLabel (s : RawManager) (targetId : String) (label : Option String) (timestamp : Json) :
    RawManager :=
  match label.filter (· ≠ "") with
  | some label =>
    { s with
      labelsById := RawMap.set (some (.string targetId)) (.string label) s.labelsById
      labelTimestampsById :=
        RawMap.set (some (.string targetId)) (some timestamp) s.labelTimestampsById }
  | none =>
    { s with
      labelsById := s.labelsById.delete (some (.string targetId))
      labelTimestampsById := s.labelTimestampsById.delete (some (.string targetId)) }

/-- The entry of an operation, at the leaf. -/
def entryOf (s : RawManager) (c : Surroundings) (op : ManagerOp) : Json :=
  .object ((op.entry (s.identity c)).getD [])

def refuse (s : RawManager) (id : String) : CallResult :=
  { manager := s, done := [], thrown := some (SessionManager.notFound id) }

def call (fuel : Nat) (s : RawManager) (c : Surroundings) (op : ManagerOp) : Option CallResult :=
  match op with
  | .appendLabelChange targetId label =>
    if !s.has targetId then some (s.refuse targetId)
    else
      let appended := s.appendEntry c.fails (s.entryOf c op)
      match appended.thrown with
      | some _ => some appended
      -- the label is set behind the write
      | none =>
        some { appended with
          manager := appended.manager.setLabel targetId label (.string (isoText c.timestamp)) }
  | .branch branchFromId =>
    if !s.has branchFromId then some (s.refuse branchFromId)
    else some { manager := { s with leafId := some (.string branchFromId) }, done := [], thrown := none }
  | .resetLeaf => some { manager := { s with leafId := some .null }, done := [], thrown := none }
  | .branchWithSummary branchFromId _ _ _ =>
    if ∃ id ∈ branchFromId, s.has id = false then some (s.refuse (branchFromId.getD ""))
    else
      let moved := { s with leafId := some (nullable branchFromId) }
      some (moved.appendEntry c.fails (moved.entryOf c op))
  | .createBranchedSession leafId => s.createBranchedSession fuel leafId c
  | op => some (s.appendEntry c.fails (s.entryOf c op))

end RawManager

/-! ## Runs -/

/-- The label that a call appends is written. -/
def LabelWritten (s : RawManager) (c : Surroundings) (op : ManagerOp) : Prop :=
  match op with
  | .appendLabelChange targetId _ =>
    s.has targetId = true → (s.appendEntry c.fails (s.entryOf c op)).thrown = none
  | _ => True

/-- The sessions that are reached from a new one, or from an opened file of values as JSON
reads them, where the label of each call is written. -/
inductive Reached : RawManager → Prop where
  | new (src : SwitchSource) (s : RawManager) (c : Surroundings) (parentSession : Option String)
      (hheader : src.newHeader = rawSessionHeader c src.newId parentSession) :
      Reached (s.newSession src)
  | opened (s : RawManager) (done : List FileOp) (hread : ∀ e ∈ s.fileEntries, printed e = e)
      (hopened : (s.openIndex done).thrown = none) : Reached (s.openIndex done).manager
  | call {s : RawManager} (h : Reached s) {fuel : Nat} {c : Surroundings} {op : ManagerOp}
      (hwritten : LabelWritten s c op) {r : CallResult} (hcall : s.call fuel c op = some r) :
      Reached r.manager

/-- The session whose entries are those of another as JSON prints them, indexed anew. -/
def RawManager.rebuilt (s : RawManager) : RawManager × Option String :=
  ({ s with fileEntries := s.fileEntries.map printed } : RawManager).buildIndex

/-- The index is the one that is built from the entries in print. -/
structure Agrees (s : RawManager) : Prop where
  built : s.rebuilt.2 = none
  byId : s.rebuilt.1.byId = s.byId.map (Prod.map id printed)
  labelsById : s.rebuilt.1.labelsById = s.labelsById
  labelTimestampsById : s.rebuilt.1.labelTimestampsById = s.labelTimestampsById
  sessionName : s.rebuilt.1.sessionName = s.sessionName

/-! ## What indexing reads -/

/-- What the index takes of an entry beside its type. -/
def indexKeys : List String := ["id", "targetId", "timestamp", "label", "name"]

/-- These are printed as they are. -/
def KeptKeys (entry : Json) : Prop :=
  ∀ key ∈ indexKeys, (entry.get? key).map printed = entry.get? key

/-- What is kept of the index, but for the leaf, is the same. -/
structure SameIndex (s t : RawManager) : Prop where
  byId : t.byId = s.byId
  labelsById : t.labelsById = s.labelsById
  labelTimestampsById : t.labelTimestampsById = s.labelTimestampsById
  sessionName : t.sessionName = s.sessionName

theorem SameIndex.refl (s : RawManager) : SameIndex s s := ⟨rfl, rfl, rfl, rfl⟩

variable {s t : RawManager} {entries : List Json} {entry : Json} {P : Option Json → Prop}
variable {fuel : Nat} {c : Surroundings}

theorem SameIndex.symm (h : SameIndex s t) : SameIndex t s :=
  ⟨h.1.symm, h.2.symm, h.3.symm, h.4.symm⟩

theorem SameIndex.trans {u : RawManager} (h : SameIndex s t) (h' : SameIndex t u) : SameIndex s u :=
  ⟨h'.1.trans h.1, h'.2.trans h.2, h'.3.trans h.3, h'.4.trans h.4⟩

namespace RawManager

theorem indexEntry_sameIndex (h : SameIndex s t) (entry : Json) :
    SameIndex (s.indexEntry entry).1 (t.indexEntry entry).1 ∧
      (t.indexEntry entry).2 = (s.indexEntry entry).2 := by
  simp only [indexEntry]
  by_cases hsession : entry.hasType "session"
  · simp only [hsession, if_true]
    exact ⟨h, trivial⟩
  · simp only [hsession, Bool.false_eq_true, if_false]
    have hbyId := congrArg (RawMap.set (entry.get? "id") entry) h.byId
    by_cases hinfo : entry.hasType "session_info"
    · simp only [hinfo, if_true]
      cases rawName entry with
      | error e => exact ⟨⟨hbyId, h.2, h.3, h.4⟩, rfl⟩
      | ok name => exact ⟨⟨hbyId, h.2, h.3, rfl⟩, rfl⟩
    · simp only [hinfo, Bool.false_eq_true, if_false, indexLabel]
      by_cases hlabel : entry.hasType "label"
      · simp only [hlabel, if_true]
        cases (entry.get? "label").filter Json.truthy with
        | none => exact ⟨⟨hbyId, by simp [h.labelsById], by simp [h.labelTimestampsById], h.4⟩, trivial⟩
        | some label =>
          exact ⟨⟨hbyId, by simp [h.labelsById], by simp [h.labelTimestampsById], h.4⟩, trivial⟩
      · simp only [hlabel, Bool.false_eq_true, if_false]
        exact ⟨⟨hbyId, h.2, h.3, h.4⟩, trivial⟩

theorem indexEntries_sameIndex (entries : List Json) (h : SameIndex s t) :
    SameIndex (s.indexEntries entries).1 (t.indexEntries entries).1 ∧
      (t.indexEntries entries).2 = (s.indexEntries entries).2 := by
  induction entries generalizing s t with
  | nil => exact ⟨h, rfl⟩
  | cons entry rest ih =>
    have hentry := indexEntry_sameIndex h entry
    simp only [indexEntries]
    generalize s.indexEntry entry = left at hentry ⊢
    generalize t.indexEntry entry = right at hentry ⊢
    obtain ⟨s', thrown⟩ := left
    obtain ⟨t', thrown'⟩ := right
    obtain ⟨hsame, rfl⟩ := hentry
    cases thrown' with
    | some e => exact ⟨hsame, rfl⟩
    | none => exact ih hsame

theorem buildIndex_sameIndex (h : t.fileEntries = s.fileEntries) :
    SameIndex s.buildIndex.1 t.buildIndex.1 ∧ t.buildIndex.2 = s.buildIndex.2 := by
  unfold buildIndex
  rw [h]
  exact indexEntries_sameIndex s.fileEntries ⟨rfl, rfl, rfl, rfl⟩

theorem indexEntry_thrown (s : RawManager) (entry : Json) :
    (s.indexEntry entry).2 = none ↔ entry.hasType "session" = true ∨ indexRawEntry entry = .ok () := by
  simp only [indexEntry]
  by_cases hsession : entry.hasType "session"
  · simp [hsession]
  · simp only [hsession, Bool.false_eq_true, if_false, false_or]
    by_cases hinfo : entry.hasType "session_info"
    · simp only [hinfo, if_true, indexRawEntry, rawName]
      rcases entry.get? "name" with _ | v
      · simp
      · cases v <;> simp
    · simp [hinfo, indexRawEntry]

theorem indexEntries_thrown (entries : List Json) (s : RawManager) :
    (s.indexEntries entries).2 = none ↔
      ∀ e ∈ entries, e.hasType "session" = true ∨ indexRawEntry e = .ok () := by
  induction entries generalizing s with
  | nil => simp [indexEntries]
  | cons entry rest ih =>
    have hentry := s.indexEntry_thrown entry
    rw [List.forall_mem_cons, ← hentry]
    simp only [indexEntries]
    rcases s.indexEntry entry with ⟨s', _ | e⟩
    · simpa using ih s'
    · simp

theorem indexEntries_concat (entry : Json) (h : (s.indexEntries entries).2 = none) :
    s.indexEntries (entries ++ [entry]) = (s.indexEntries entries).1.indexEntry entry := by
  induction entries generalizing s with
  | nil =>
    simp only [List.nil_append, indexEntries]
    rcases s.indexEntry entry with ⟨s', _ | e⟩ <;> rfl
  | cons first rest ih =>
    simp only [List.cons_append, indexEntries] at h ⊢
    rcases hfirst : s.indexEntry first with ⟨s', _ | e⟩
    · rw [hfirst] at h
      exact ih h
    · rw [hfirst] at h
      cases h

theorem indexEntry_leafId (s : RawManager) (h : entry.hasType "session" = false) :
    (s.indexEntry entry).1.leafId = entry.get? "id" := by
  simp only [indexEntry, h, Bool.false_eq_true, if_false]
  split
  · cases rawName entry <;> rfl
  · simp only [indexLabel]
    split
    · split <;> rfl
    · rfl

/-! ## The entries in print -/

/-- The index with its entries in print. -/
def printedIndex (s : RawManager) : RawManager :=
  { s with byId := s.byId.map (Prod.map id printed) }

theorem indexEntry_printed (s : RawManager) (h : KeptKeys entry) :
    s.printedIndex.indexEntry (printed entry) =
      ((s.indexEntry entry).1.printedIndex, (s.indexEntry entry).2) := by
  have hget : ∀ key ∈ indexKeys, (printed entry).get? key = entry.get? key := by
    intro key hkey
    rw [get?_printed, h key hkey]
  have hname : rawName (printed entry) = rawName entry := by
    simp only [rawName, hget "name" (by decide)]
  simp only [indexEntry, hasType_printed, hname, indexLabel, hget "id" (by decide),
    hget "targetId" (by decide), hget "label" (by decide), hget "timestamp" (by decide)]
  have hset : RawMap.set (entry.get? "id") (printed entry) s.printedIndex.byId =
      (RawMap.set (entry.get? "id") entry s.byId).map (Prod.map id printed) :=
    RawMap.set_map printed _ entry s.byId
  rw [hset]
  split
  · rfl
  · split
    · cases rawName entry <;> rfl
    · split
      · split <;> rfl
      · rfl

theorem indexEntries_printed (h : ∀ e ∈ entries, KeptKeys e) (s : RawManager) :
    s.printedIndex.indexEntries (entries.map printed) =
      ((s.indexEntries entries).1.printedIndex, (s.indexEntries entries).2) := by
  induction entries generalizing s with
  | nil => rfl
  | cons entry rest ih =>
    obtain ⟨hentry, hrest⟩ := List.forall_mem_cons.1 h
    rw [List.map_cons, indexEntries, indexEntries, s.indexEntry_printed hentry]
    rcases s.indexEntry entry with ⟨s', _ | e⟩
    · exact ih hrest s'
    · rfl

theorem rebuilt_sameIndex (s : RawManager) (h : ∀ e ∈ s.fileEntries, KeptKeys e) :
    SameIndex s.buildIndex.1.printedIndex s.rebuilt.1 ∧ s.rebuilt.2 = s.buildIndex.2 := by
  have hprinted := indexEntries_printed h s.cleared
  have hrebuilt : SameIndex (s.cleared.printedIndex.indexEntries (s.fileEntries.map printed)).1
      s.rebuilt.1 ∧ _ := indexEntries_sameIndex _ ⟨rfl, rfl, rfl, rfl⟩
  rw [hprinted] at hrebuilt
  exact hrebuilt

end RawManager

/-! ## The invariant -/

/-- The index is the one `_buildIndex` gives, and print leaves what it takes. -/
structure Indexed (s : RawManager) : Prop where
  built : s.buildIndex.2 = none
  same : SameIndex s s.buildIndex.1
  kept : ∀ e ∈ s.fileEntries, KeptKeys e

theorem Indexed.agrees (h : Indexed s) : Agrees s := by
  obtain ⟨hsame, hthrown⟩ := s.rebuilt_sameIndex h.kept
  exact {
    built := hthrown.trans h.built
    byId := hsame.byId.trans (congrArg (List.map (Prod.map id printed)) h.same.byId)
    labelsById := hsame.labelsById.trans h.same.labelsById
    labelTimestampsById := hsame.labelTimestampsById.trans h.same.labelTimestampsById
    sessionName := hsame.sessionName.trans h.same.sessionName }

theorem Indexed.of_buildIndex {s t : RawManager} (hkept : ∀ e ∈ s.fileEntries, KeptKeys e)
    (hbuilt : s.buildIndex.2 = none) (hentries : t.fileEntries = s.fileEntries)
    (hsame : SameIndex s.buildIndex.1 t) : Indexed t := by
  obtain ⟨hindex, hthrown⟩ := RawManager.buildIndex_sameIndex hentries
  exact ⟨hthrown.trans hbuilt, hsame.symm.trans hindex, hentries ▸ hkept⟩

/-- One more entry, indexed as the rebuild would. -/
theorem Indexed.push {s t : RawManager} (h : Indexed s) {entry : Json} (hkept : KeptKeys entry)
    (hentries : t.fileEntries = s.fileEntries ++ [entry])
    (hthrown : (s.indexEntry entry).2 = none) (hsame : SameIndex (s.indexEntry entry).1 t) :
    Indexed t := by
  have hbuild : t.buildIndex = t.cleared.indexEntries (s.fileEntries ++ [entry]) := by
    rw [RawManager.buildIndex, hentries]
  -- indexing up to the new entry gives the index as it was kept
  have hfront := RawManager.indexEntries_sameIndex s.fileEntries
    (show SameIndex s.cleared t.cleared from ⟨rfl, rfl, rfl, rfl⟩)
  have hbuilt : (t.cleared.indexEntries s.fileEntries).2 = none := hfront.2.trans h.built
  have hconcat := RawManager.indexEntries_concat entry hbuilt
  have hlast := RawManager.indexEntry_sameIndex (h.same.trans hfront.1) entry
  refine ⟨?_, ?_, ?_⟩
  · rw [hbuild, hconcat, hlast.2, hthrown]
  · rw [hbuild, hconcat]
    exact hsame.symm.trans hlast.1
  · intro e he
    rw [hentries] at he
    rcases List.mem_append.1 he with he | he
    · exact h.kept e he
    · exact List.mem_singleton.1 he ▸ hkept

/-! ## Appending -/

theorem persistEntry_frame (fails : FileOp → Option String) (s : RawManager) (entry : Json) :
    SameIndex s (s.persistEntry fails entry).manager ∧
      (s.persistEntry fails entry).manager.fileEntries = s.fileEntries ∧
      (s.persistEntry fails entry).manager.leafId = s.leafId := by
  have hrefl := SameIndex.refl s
  simp only [RawManager.persistEntry]
  cases s.target with
  | none => exact ⟨hrefl, rfl, rfl⟩
  | some path =>
    simp only
    cases hasAssistantRaw s.fileEntries with
    | error e => exact ⟨hrefl, rfl, rfl⟩
    | ok hasAssistant =>
      simp only
      split
      · exact ⟨hrefl, rfl, rfl⟩
      · split
        · rcases perform fails (.create path :: s.fileEntries.map (.write path)) with ⟨done, _ | e⟩ <;>
            exact ⟨⟨rfl, rfl, rfl, rfl⟩, rfl, rfl⟩
        · exact ⟨⟨rfl, rfl, rfl, rfl⟩, rfl, rfl⟩

/-- An entry that the operations append: it has an id and is no header, and its name is a text. -/
structure OwnEntry (entry : Json) : Prop where
  kept : KeptKeys entry
  noHeader : entry.hasType "session" = false
  name : entry.hasType "session_info" = true → ∃ name, entry.get? "name" = some (.string name)

theorem OwnEntry.rawName (h : OwnEntry entry) (hinfo : entry.hasType "session_info" = true) :
    ∃ name, rawName entry = .ok name := by
  obtain ⟨name, hname⟩ := h.name hinfo
  exact ⟨trimmedName (some name), by simp only [PieLab.rawName, hname]⟩

theorem OwnEntry.thrown (h : OwnEntry entry) (s : RawManager) : (s.indexEntry entry).2 = none := by
  rw [RawManager.indexEntry_thrown]
  refine .inr ?_
  by_cases hinfo : entry.hasType "session_info"
  · obtain ⟨name, hname⟩ := h.name hinfo
    simp [indexRawEntry, hname]
  · simp [indexRawEntry, hinfo]

theorem appendEntry_frame (fails : FileOp → Option String) (s : RawManager) (h : OwnEntry entry) :
    (s.appendEntry fails entry).manager.fileEntries = s.fileEntries ++ [entry] ∧
      (s.appendEntry fails entry).manager.leafId = entry.get? "id" ∧
      ∃ unlabelled, SameIndex unlabelled (s.appendEntry fails entry).manager ∧
        (s.indexEntry entry).1 = unlabelled.indexLabel entry := by
  simp only [RawManager.appendEntry, RawManager.indexEntry, h.noHeader, Bool.false_eq_true,
    if_false]
  by_cases hinfo : entry.hasType "session_info"
  · obtain ⟨name, hname⟩ := h.rawName hinfo
    have hlabel : entry.hasType "label" = false := by
      rw [Json.hasType, hasText_iff] at hinfo ⊢
      simp only [decide_eq_true_eq] at hinfo
      simp [hinfo]
    simp only [hinfo, if_true, hname]
    let pushed : RawManager :=
      { s.pushEntry entry with sessionName := name, entriesRevision := s.entriesRevision + 1 }
    obtain ⟨hsame, hentries, hleaf⟩ := persistEntry_frame fails pushed entry
    let unlabelled : RawManager := { s with
      byId := RawMap.set (entry.get? "id") entry s.byId
      leafId := entry.get? "id", sessionName := name }
    have hpushed : SameIndex unlabelled pushed := ⟨rfl, rfl, rfl, rfl⟩
    refine ⟨hentries, hleaf, unlabelled, hpushed.trans hsame, ?_⟩
    simp only [RawManager.indexLabel, hlabel, Bool.false_eq_true, if_false]
    rfl
  · simp only [hinfo, Bool.false_eq_true, if_false]
    let pushed : RawManager := { s.pushEntry entry with entriesRevision := s.entriesRevision + 1 }
    obtain ⟨hsame, hentries, hleaf⟩ := persistEntry_frame fails pushed entry
    let unlabelled : RawManager := { s with
      byId := RawMap.set (entry.get? "id") entry s.byId, leafId := entry.get? "id" }
    have hpushed : SameIndex unlabelled pushed := ⟨rfl, rfl, rfl, rfl⟩
    exact ⟨hentries, hleaf, unlabelled, hpushed.trans hsame, rfl⟩

theorem Indexed.appendEntry (h : Indexed s) (fails : FileOp → Option String) (hown : OwnEntry entry)
    (hlabel : entry.hasType "label" = false) : Indexed (s.appendEntry fails entry).manager := by
  obtain ⟨hentries, -, unlabelled, hsame, hindex⟩ := appendEntry_frame fails s hown
  refine h.push hown.kept hentries (hown.thrown s) ?_
  rw [hindex, RawManager.indexLabel, hlabel]
  exact hsame

theorem setLabel_sameIndex (h : SameIndex s t) (targetId : String) (label : Option String)
    (timestamp : Json) :
    SameIndex (s.setLabel targetId label timestamp) (t.setLabel targetId label timestamp) := by
  simp only [RawManager.setLabel]
  cases label.filter (· ≠ "") with
  | none => exact ⟨h.1, by simp [h.labelsById], by simp [h.labelTimestampsById], h.4⟩
  | some label => exact ⟨h.1, by simp [h.labelsById], by simp [h.labelTimestampsById], h.4⟩

/-! ## The entries of the operations -/

theorem lookup_optionalField (key name : String) (value : Option Json) :
    (optionalField key value).lookup name = if name = key then value else none := by
  cases value with
  | none => simp [optionalField]
  | some v =>
    by_cases h : name = key
    · simp [optionalField, h]
    · have hne : (name == key) = false := beq_false_of_ne h
      simp [optionalField, List.lookup_cons, h, hne]

theorem lookup_identity (s : RawManager) (c : Surroundings) (key : String) :
    (s.identity c).lookup key =
      if key = "id" then some (.string (generateId s.has (c.randomUUID 0)))
      else if key = "parentId" then s.leafId
      else if key = "timestamp" then some (.string (isoText c.timestamp))
      else none := by
  by_cases hid : key = "id"
  · simp [hid, RawManager.identity]
  · by_cases hparent : key = "parentId"
    · simp [hparent, RawManager.identity, List.lookup_append, List.lookup_cons,
        lookup_optionalField]
    · by_cases htime : key = "timestamp"
      · simp [htime, RawManager.identity, List.lookup_append, List.lookup_cons,
          lookup_optionalField]
      · have hne : ∀ name, key ≠ name → (key == name) = false := fun name h => beq_false_of_ne h
        simp [RawManager.identity, List.lookup_append, List.lookup_cons, lookup_optionalField, hid,
          hparent, htime, hne]

theorem entryOf_text (s : RawManager) (c : Surroundings) (op : ManagerOp) {key : String}
    (hkey : key ∈ indexKeys) : ∃ text, (s.entryOf c op).get? key = Option.map Json.string text := by
  simp only [indexKeys, List.mem_cons, List.not_mem_nil, or_false] at hkey
  cases op <;> rcases hkey with rfl | rfl | rfl | rfl | rfl <;>
    simp [RawManager.entryOf, ManagerOp.entry, Json.get?, List.lookup_append, List.lookup_cons,
      lookup_optionalField, lookup_identity]

theorem keptKeys_of_text
    (h : ∀ key ∈ indexKeys, ∃ text, entry.get? key = Option.map Json.string text) :
    KeptKeys entry := by
  intro key hkey
  obtain ⟨text, htext⟩ := h key hkey
  rw [htext]
  cases text <;> rfl

theorem entryOf_own (s : RawManager) (c : Surroundings) (op : ManagerOp) :
    OwnEntry (s.entryOf c op) where
  kept := keptKeys_of_text fun _ => entryOf_text s c op
  noHeader := by cases op <;> rfl
  name := by
    cases op with
    | appendSessionInfo name =>
      intro _
      simp [RawManager.entryOf, ManagerOp.entry, Json.get?, List.lookup_append, List.lookup_cons,
        lookup_identity]
    | _ => exact fun h => by cases h

theorem indexLabel_entryOf (s t : RawManager) (c : Surroundings) (targetId : String)
    (label : Option String) :
    t.indexLabel (s.entryOf c (.appendLabelChange targetId label)) =
      t.setLabel targetId label (.string (isoText c.timestamp)) := by
  have htype : (s.entryOf c (.appendLabelChange targetId label)).hasType "label" = true := rfl
  have hlabel : ((s.entryOf c (.appendLabelChange targetId label)).get? "label") =
      label.map .string := by
    simp [RawManager.entryOf, ManagerOp.entry, Json.get?, List.lookup_append, List.lookup_cons,
      lookup_identity, lookup_optionalField]
  have htarget : ((s.entryOf c (.appendLabelChange targetId label)).get? "targetId") =
      some (.string targetId) := by
    simp [RawManager.entryOf, ManagerOp.entry, Json.get?, List.lookup_append, List.lookup_cons,
      lookup_identity]
  have htime : ((s.entryOf c (.appendLabelChange targetId label)).get? "timestamp") =
      some (.string (isoText c.timestamp)) := by
    simp [RawManager.entryOf, ManagerOp.entry, Json.get?, List.lookup_append, List.lookup_cons,
      lookup_identity]
  have htruthy : (label.map Json.string).filter Json.truthy =
      (label.filter (· ≠ "")).map Json.string := by
    cases label with
    | none => rfl
    | some text => by_cases h : text = "" <;> simp [h, Json.truthy, Option.filter]
  simp only [RawManager.indexLabel, RawManager.setLabel, htype, if_true, hlabel, htarget, htime,
    htruthy]
  cases label.filter (· ≠ "") <;> rfl

/-! ## Branching off -/

/-- Every key and every value of a map. -/
def RawMap.All {α : Type} (P : Option Json → Prop) (Q : α → Prop) (m : RawMap α) : Prop :=
  ∀ kv ∈ m, P kv.1 ∧ Q kv.2

theorem RawMap.All.set {α : Type} {Q : α → Prop} {m : RawMap α} (h : m.All P Q) {k : Option Json}
    {v : α} (hk : P k) (hv : Q v) : (RawMap.set k v m).All P Q := by
  induction m with
  | nil => simp [RawMap.set, RawMap.All, hk, hv]
  | cons kv rest ih =>
    obtain ⟨hkv, hrest⟩ := List.forall_mem_cons.1 h
    simp only [RawMap.set]
    split
    · exact List.forall_mem_cons.2 ⟨⟨hkv.1, hv⟩, hrest⟩
    · exact List.forall_mem_cons.2 ⟨hkv, ih hrest⟩

theorem RawMap.All.delete {α : Type} {Q : α → Prop} {m : RawMap α} (h : m.All P Q)
    (k : Option Json) : (m.delete k).All P Q :=
  fun kv hkv => h kv (List.mem_of_mem_filter hkv)

theorem RawMap.All.get? {α : Type} {Q : α → Prop} {m : RawMap α} (h : m.All P Q) {k : Option Json}
    {v : α} (hget : m.get? k = some v) : Q v := by
  obtain ⟨kv, hkv, rfl⟩ := List.mem_map.1 (RawMap.get?_mem k v hget)
  exact (h kv hkv).2

/-- A property that is printed as it is. -/
def KeptValue (value : Option Json) : Prop := value.map printed = value

/-- What the index holds comes from the entries. -/
structure FromEntries (entries : List Json) (s : RawManager) : Prop where
  byId : s.byId.All (fun _ => True) (· ∈ entries)
  labelsById : s.labelsById.All KeptValue fun label => KeptValue (some label)
  labelTimestampsById : s.labelTimestampsById.All KeptValue KeptValue

theorem indexEntry_from (h : FromEntries entries s) (hentry : entry ∈ entries)
    (hkept : KeptKeys entry) : FromEntries entries (s.indexEntry entry).1 := by
  have hbyId : (RawMap.set (entry.get? "id") entry s.byId).All (fun _ => True) (· ∈ entries) :=
    h.byId.set trivial hentry
  have htarget : KeptValue (entry.get? "targetId") := hkept "targetId" (by decide)
  simp only [RawManager.indexEntry]
  split
  · exact h
  · split
    · cases rawName entry <;> exact ⟨hbyId, h.2, h.3⟩
    · simp only [RawManager.indexLabel]
      split
      · split
        · rename_i label hlabel
          have hprinted : KeptValue (entry.get? "label") := hkept "label" (by decide)
          rw [(Option.filter_eq_some_iff.1 hlabel).1] at hprinted
          exact ⟨hbyId, h.labelsById.set htarget hprinted,
            h.labelTimestampsById.set htarget (hkept "timestamp" (by decide))⟩
        · exact ⟨hbyId, h.labelsById.delete _, h.labelTimestampsById.delete _⟩
      · exact ⟨hbyId, h.2, h.3⟩

theorem indexEntries_from {rest : List Json} (hkept : ∀ e ∈ entries, KeptKeys e)
    (h : FromEntries entries s) (hrest : ∀ e ∈ rest, e ∈ entries) :
    FromEntries entries (s.indexEntries rest).1 := by
  induction rest generalizing s with
  | nil => exact h
  | cons entry rest ih =>
    obtain ⟨hentry, hrest⟩ := List.forall_mem_cons.1 hrest
    have hnext := indexEntry_from h hentry (hkept entry hentry)
    simp only [RawManager.indexEntries]
    generalize s.indexEntry entry = indexed at hnext ⊢
    obtain ⟨s', thrown⟩ := indexed
    cases thrown with
    | some e => exact hnext
    | none => exact ih hnext hrest

theorem Indexed.fromEntries (h : Indexed s) : FromEntries s.fileEntries s := by
  have hbuilt : FromEntries s.fileEntries s.buildIndex.1 :=
    indexEntries_from h.kept (s := s.cleared)
      ⟨by simp [RawManager.cleared, RawMap.All], by simp [RawManager.cleared, RawMap.All],
        by simp [RawManager.cleared, RawMap.All]⟩ fun _ he => he
  exact ⟨h.same.byId ▸ hbuilt.1, h.same.labelsById ▸ hbuilt.2,
    h.same.labelTimestampsById ▸ hbuilt.3⟩

/-- An entry that is indexed without an error, and whose keys are printed as they are. -/
structure Indexable (entry : Json) : Prop where
  kept : KeptKeys entry
  quiet : entry.hasType "session" = true ∨ indexRawEntry entry = .ok ()

theorem get?_rechained (entry : Json) (pathParentId : Option Json) {key : String}
    (hkey : key ≠ "parentId") : (rechained entry pathParentId).get? key = entry.get? key := by
  cases entry with
  | object fields =>
    cases pathParentId with
    | none => exact (OrderedMap.lookup_filter_ne fields "parentId" key).trans (if_neg hkey.symm)
    | some id => exact lookup_setField hkey id
  | _ => exact (lookup_optionalField _ _ _).trans (if_neg hkey)

theorem Indexable.rechained (h : Indexable entry) (pathParentId : Option Json) :
    Indexable (rechained entry pathParentId) := by
  have hget : ∀ key, key ≠ "parentId" →
      (PieLab.rechained entry pathParentId).get? key = entry.get? key :=
    fun key => get?_rechained entry pathParentId
  have htype : ∀ type, (PieLab.rechained entry pathParentId).hasType type = entry.hasType type := by
    intro type
    simp only [Json.hasType, Json.hasText, hget "type" (by decide)]
  refine ⟨?_, ?_⟩
  · intro key hkey
    rw [hget key (by rintro rfl; simp [indexKeys] at hkey)]
    exact h.kept key hkey
  · simp only [indexRawEntry, htype, hget "name" (by decide)]
    exact h.quiet

theorem Indexed.indexable (h : Indexed s) : ∀ e ∈ s.fileEntries, Indexable e :=
  fun e he => ⟨h.kept e he, (RawManager.indexEntries_thrown _ _).1 h.built e he⟩

theorem Indexed.getBranch_mem (h : Indexed s) {fromId : Option String} {path : List Json}
    (hpath : s.getBranch fuel fromId = some path) : ∀ e ∈ path, e ∈ s.fileEntries := by
  have hfind : ∀ k e, s.byId.get? k = some e → e ∈ s.fileEntries :=
    fun k e => h.fromEntries.byId.get?
  simp only [RawManager.getBranch] at hpath
  cases hstart : s.branchStart fromId with
  | none =>
    rw [hstart] at hpath
    obtain rfl := Option.some.inj hpath
    simp
  | some start =>
    rw [hstart] at hpath
    obtain ⟨l, hl, rfl⟩ := Option.map_eq_some_iff.1 hpath
    obtain ⟨id, -, hid⟩ := Option.bind_eq_some_iff.1 hstart
    intro e he
    exact walk_forall hfind (hfind _ _ hid) hl e (List.mem_reverse.1 he)

theorem rawPathWithoutLabels_indexable {path : List Json} (h : ∀ e ∈ path, Indexable e)
    (pathParentId : Option Json) : ∀ e ∈ rawPathWithoutLabels pathParentId path, Indexable e := by
  induction path generalizing pathParentId with
  | nil => simp [rawPathWithoutLabels]
  | cons entry rest ih =>
    obtain ⟨hentry, hrest⟩ := List.forall_mem_cons.1 h
    simp only [rawPathWithoutLabels]
    split
    · exact ih hrest pathParentId
    · exact List.forall_mem_cons.2 ⟨hentry.rechained pathParentId, ih hrest _⟩

/-- What is written of a label is printed as it is. -/
structure RawLabel.Kept (write : RawLabel) : Prop where
  targetId : KeptValue write.targetId
  label : KeptValue (some write.label)
  timestamp : KeptValue write.timestamp

theorem rawLabelsToWrite_kept (h : FromEntries s.fileEntries s) (pathEntryIds : List (Option Json)) : ∀ write ∈ s.rawLabelsToWrite pathEntryIds, write.Kept := by
  intro write hwrite
  obtain ⟨⟨targetId, label⟩, hmem, hsome⟩ := List.mem_filterMap.1 hwrite
  obtain ⟨htarget, hlabel⟩ := h.labelsById _ hmem
  simp only at hsome
  split at hsome
  · obtain rfl := Option.some.inj hsome
    refine ⟨htarget, hlabel, ?_⟩
    cases htime : s.labelTimestampsById.get? targetId with
    | none => rfl
    | some timestamp => exact h.labelTimestampsById.get? htime
  · cases hsome

theorem rawLabelEntries_indexable {writes : List RawLabel} (h : ∀ write ∈ writes, write.Kept)
    (usedIds : List (Option Json)) (parentId : Json) (randomUUID : Nat → Draws) :
    ∀ e ∈ rawLabelEntries usedIds parentId randomUUID writes, Indexable e := by
  induction writes generalizing usedIds parentId randomUUID with
  | nil => simp [rawLabelEntries]
  | cons write rest ih =>
    obtain ⟨hwrite, hrest⟩ := List.forall_mem_cons.1 h
    refine List.forall_mem_cons.2 ⟨⟨?_, .inr rfl⟩, ih hrest _ _ _⟩
    intro key hkey
    simp only [indexKeys, List.mem_cons, List.not_mem_nil, or_false] at hkey
    have hprinted : ∀ s, printed (.string s) = .string s := fun _ => rfl
    have hlabel := hwrite.label
    have htarget := hwrite.targetId
    have htime := hwrite.timestamp
    simp only [KeptValue] at hlabel htarget htime
    rcases hkey with rfl | rfl | rfl | rfl | rfl <;>
      simp [Json.get?, List.lookup_append, List.lookup_cons, lookup_optionalField, hprinted,
        htarget,
        htime]
    exact Option.some.inj hlabel

theorem rawSessionHeader_indexable (c : Surroundings) (id : String)
    (parentSession : Option String) :
    Indexable (rawSessionHeader c id parentSession) := by
  refine ⟨keptKeys_of_text ?_, .inl rfl⟩
  intro key hkey
  simp only [indexKeys, List.mem_cons, List.not_mem_nil, or_false] at hkey
  rcases hkey with rfl | rfl | rfl | rfl | rfl <;>
    simp [rawSessionHeader, Json.get?, List.lookup_cons, lookup_optionalField]

theorem writeBranch_frame (s : RawManager) (fails : FileOp → Option String) :
    SameIndex s (s.writeBranch fails).manager ∧
      (s.writeBranch fails).manager.fileEntries = s.fileEntries := by
  have hrefl := SameIndex.refl s
  simp only [RawManager.writeBranch]
  split
  · cases hasAssistantRaw s.fileEntries with
    | error e => exact ⟨hrefl, rfl⟩
    | ok hasAssistant =>
      cases hasAssistant with
      | false => exact ⟨⟨rfl, rfl, rfl, rfl⟩, rfl⟩
      | true =>
        simp only
        rcases s.rewriteFile fails with ⟨done, _ | e⟩
        · exact ⟨⟨rfl, rfl, rfl, rfl⟩, rfl⟩
        · exact ⟨hrefl, rfl⟩
  · exact ⟨hrefl, rfl⟩

theorem Indexed.createBranchedSession (h : Indexed s) {leafId : String} {r : CallResult}
    (hr : s.createBranchedSession fuel leafId c = some r) : Indexed r.manager := by
  obtain ⟨path, hpath, rfl⟩ := Option.map_eq_some_iff.1 hr
  simp only
  split
  · exact h
  · have hindexable : ∀ e ∈ rawSessionHeader c c.newId (if s.persist then s.sessionFile else none) ::
        s.branchedEntries path c.randomUUID, Indexable e := by
      refine List.forall_mem_cons.2 ⟨rawSessionHeader_indexable _ _ _, ?_⟩
      intro e he
      rcases List.mem_append.1 he with he | he
      · exact rawPathWithoutLabels_indexable
          (fun e he => h.indexable e (h.getBranch_mem hpath e he)) _ e he
      · exact rawLabelEntries_indexable (rawLabelsToWrite_kept h.fromEntries _) _ _ _ e he
    generalize hbranched : ({ s with
      fileEntries := rawSessionHeader c c.newId (if s.persist then s.sessionFile else none) ::
        s.branchedEntries path c.randomUUID
      sessionId := c.newId
      sessionFile := if s.persist then some c.newFile else s.sessionFile } : RawManager) = branched
    have hentries : ∀ e ∈ branched.fileEntries, Indexable e := hbranched ▸ hindexable
    have hbuilt : branched.buildIndex.2 = none :=
      (RawManager.indexEntries_thrown _ _).2 fun e he => (hentries e he).quiet
    have hframe := branched.buildIndex_fileEntries
    have hof := @Indexed.of_buildIndex branched
    generalize branched.buildIndex = built at hbuilt hframe hof
    obtain ⟨t, thrown⟩ := built
    obtain rfl : thrown = none := hbuilt
    obtain ⟨hsame, hwritten⟩ :=
      writeBranch_frame { t with entriesRevision := t.entriesRevision + 1 } c.fails
    exact hof (fun e he => (hentries e he).kept) rfl (hwritten.trans hframe)
      ((⟨rfl, rfl, rfl, rfl⟩ : SameIndex t { t with entriesRevision := t.entriesRevision + 1 }).trans hsame)

/-! ## Runs -/

theorem Indexed.moveLeaf (h : Indexed s) (leafId : Option Json) : Indexed { s with leafId } :=
  .of_buildIndex h.kept h.built rfl (h.same.symm.trans ⟨rfl, rfl, rfl, rfl⟩)

theorem Indexed.setLabel (h : Indexed s) (c : Surroundings) (targetId : String)
    (label : Option String) :
    Indexed ((s.appendEntry c.fails (s.entryOf c (.appendLabelChange targetId label))).manager.setLabel
      targetId label (.string (isoText c.timestamp))) := by
  have hown := entryOf_own s c (.appendLabelChange targetId label)
  obtain ⟨hentries, -, unlabelled, hsame, hindex⟩ := appendEntry_frame c.fails s hown
  refine h.push hown.kept ?_ (hown.thrown s) ?_
  · simp only [RawManager.setLabel]
    cases label.filter (· ≠ "") <;> exact hentries
  · rw [hindex, indexLabel_entryOf]
    exact setLabel_sameIndex hsame targetId label _

theorem Indexed.call {s : RawManager} (h : Indexed s) {fuel : Nat} {c : Surroundings}
    {op : ManagerOp}
    (hwritten : LabelWritten s c op) {r : CallResult} (hr : s.call fuel c op = some r) :
    Indexed r.manager := by
  have happend : ∀ {t : RawManager}, Indexed t → ∀ op, (t.entryOf c op).hasType "label" = false →
      Indexed (t.appendEntry c.fails (t.entryOf c op)).manager :=
    fun ht op hlabel => ht.appendEntry c.fails (entryOf_own _ c op) hlabel
  cases op with
  | appendLabelChange targetId label =>
    simp only [RawManager.call] at hr
    split at hr
    · obtain rfl := Option.some.inj hr
      exact h
    · rename_i hhas
      rw [hwritten (by simpa using hhas)] at hr
      obtain rfl := Option.some.inj hr
      exact h.setLabel c targetId label
  | branch branchFromId =>
    simp only [RawManager.call] at hr
    split at hr
    · obtain rfl := Option.some.inj hr
      exact h
    · obtain rfl := Option.some.inj hr
      exact h.moveLeaf _
  | resetLeaf =>
    obtain rfl := Option.some.inj hr
    exact h.moveLeaf _
  | branchWithSummary branchFromId summary details fromHook =>
    simp only [RawManager.call] at hr
    split at hr
    · obtain rfl := Option.some.inj hr
      exact h
    · obtain rfl := Option.some.inj hr
      exact happend (h.moveLeaf _) _ rfl
  | createBranchedSession leafId => exact h.createBranchedSession hr
  | _ =>
    obtain rfl := Option.some.inj hr
    exact happend h _ rfl

theorem newSession_indexed (src : SwitchSource) (s : RawManager) {parentSession : Option String}
    (hheader : src.newHeader = rawSessionHeader c src.newId parentSession) :
    Indexed (s.newSession src) := by
  have hentries : (s.newSession src).fileEntries =
      [rawSessionHeader c src.newId parentSession] := by
    simp [RawManager.newSession, hheader]
  have hbuild : (s.newSession src).buildIndex = ((s.newSession src).cleared, none) := by
    rw [RawManager.buildIndex, hentries]
    rfl
  refine ⟨by rw [hbuild], by rw [hbuild]; exact ⟨rfl, rfl, rfl, rfl⟩, ?_⟩
  intro e he
  rw [hentries] at he
  exact List.mem_singleton.1 he ▸ (rawSessionHeader_indexable c src.newId parentSession).kept

theorem openIndex_indexed {done : List FileOp} (hread : ∀ e ∈ s.fileEntries, printed e = e)
    (hopened : (s.openIndex done).thrown = none) : Indexed (s.openIndex done).manager := by
  have hkept : ∀ e ∈ s.fileEntries, KeptKeys e := by
    intro e he key _
    rw [← get?_printed, hread e he]
  have hframe := s.buildIndex_fileEntries
  have hof := @Indexed.of_buildIndex s
  simp only [RawManager.openIndex] at hopened ⊢
  generalize s.buildIndex = built at hopened hframe hof ⊢
  obtain ⟨t, thrown⟩ := built
  cases thrown with
  | some e => cases hopened
  | none => exact hof hkept rfl hframe ⟨rfl, rfl, rfl, rfl⟩

theorem Reached.indexed (h : Reached s) : Indexed s := by
  induction h with
  | new src s c parentSession hheader => exact newSession_indexed src s hheader
  | opened s done hread hopened => exact openIndex_indexed hread hopened
  | call _ hwritten hcall ih => exact ih.call hwritten hcall

theorem Indexed.rebuilt_leafId (h : Indexed t) (hentries : t.fileEntries = entries ++ [entry])
    (hown : OwnEntry entry) : t.rebuilt.1.leafId = entry.get? "id" := by
  have hbuilt := h.agrees.built
  have hprinted : (printed entry).hasType "session" = false :=
    (hasType_printed _ _).trans hown.noHeader
  have hid : (printed entry).get? "id" = entry.get? "id" := by
    rw [get?_printed, hown.kept "id" (by decide)]
  simp only [RawManager.rebuilt, RawManager.buildIndex, hentries, List.map_append, List.map_cons,
    List.map_nil] at hbuilt ⊢
  have hfront : ∀ u : RawManager, (u.indexEntries (entries.map printed)).2 = none := by
    intro u
    rw [RawManager.indexEntries_thrown] at hbuilt ⊢
    exact fun e he => hbuilt e (List.mem_append_left _ he)
  rw [RawManager.indexEntries_concat _ (hfront _), RawManager.indexEntry_leafId _ hprinted, hid]

theorem call_appends {op : ManagerOp} (hop : op.Appends) {r : CallResult}
    (hr : s.call fuel c op = some r) (hpushed : r.manager.fileEntries ≠ s.fileEntries) :
    ∃ entry, OwnEntry entry ∧ r.manager.fileEntries = s.fileEntries ++ [entry] ∧
      r.manager.leafId = entry.get? "id" := by
  have happend : ∀ (t : RawManager) op, t.fileEntries = s.fileEntries →
      ∃ entry, OwnEntry entry ∧
        (t.appendEntry c.fails (t.entryOf c op)).manager.fileEntries = s.fileEntries ++ [entry] ∧
        (t.appendEntry c.fails (t.entryOf c op)).manager.leafId = entry.get? "id" := by
    intro t op ht
    have hown := entryOf_own t c op
    obtain ⟨hentries, hleaf, -⟩ := appendEntry_frame c.fails t hown
    exact ⟨_, hown, ht ▸ hentries, hleaf⟩
  cases op with
  | branch _ | resetLeaf | createBranchedSession _ => cases hop
  | appendLabelChange targetId label =>
    simp only [RawManager.call] at hr
    split at hr
    · obtain rfl := Option.some.inj hr
      exact absurd rfl hpushed
    · have hentry := happend s (.appendLabelChange targetId label) rfl
      split at hr
      · obtain rfl := Option.some.inj hr
        exact hentry
      · obtain rfl := Option.some.inj hr
        simp only [RawManager.setLabel]
        cases label.filter (· ≠ "") <;> exact hentry
  | branchWithSummary branchFromId summary details fromHook =>
    simp only [RawManager.call] at hr
    split at hr
    · obtain rfl := Option.some.inj hr
      exact absurd rfl hpushed
    · obtain rfl := Option.some.inj hr
      exact happend _ _ rfl
  | _ =>
    obtain rfl := Option.some.inj hr
    exact happend s _ rfl

/-- Where the labels of a run are written, the index of every session it reaches is the one that is
built from the entries in print, and so is the leaf behind every append. -/
theorem rebuilt_index_agrees {s : RawManager} (h : Reached s) :
    Agrees s ∧ ∀ fuel c op r, LabelWritten s c op → op.Appends → s.call fuel c op = some r →
      r.manager.fileEntries ≠ s.fileEntries → r.manager.rebuilt.1.leafId = r.manager.leafId := by
  refine ⟨h.indexed.agrees, ?_⟩
  intro fuel c op r hwritten hop hr hpushed
  obtain ⟨entry, hown, hentries, hleaf⟩ := call_appends hop hr hpushed
  rw [(h.indexed.call hwritten hr).rebuilt_leafId hentries hown, hleaf]

/-! ## A label that is written, and one that is not -/

namespace ForgottenLabel

def uuid : Uuid := { text := "01234567-89ab-4def-8123-456789abcdef", length_eq := rfl }

def disk (fails : FileOp → Option String) : Surroundings where
  timestamp := 0
  randomUUID _ _ := uuid
  fails := fails
  newId := "s"
  newFile := "/sessions/s.jsonl"
  cwd := "/"

def header : Json := rawSessionHeader (disk fun _ => none) "s" none

def source : SwitchSource := { RawManager.notesSource with newId := "s", newHeader := header }

def start : RawManager := RawManager.openSession.newSession source

def answer : ManagerOp := .appendMessage (.object [("role", .string "assistant")])

/-- The session with an answer of the assistant, which is written. -/
def answered : RawManager :=
  (start.appendEntry (fun _ => none) (start.entryOf (disk fun _ => none) answer)).manager

def full : Surroundings := disk fun _ => some "ENOSPC: no space left on device, write"

def label : ManagerOp := .appendLabelChange "01234567" (some "here")

/-- The session behind the label whose write throws. -/
def labelled : RawManager := (answered.appendEntry full.fails (answered.entryOf full label)).manager

/-- The session behind the label whose write succeeds. -/
def marked : RawManager :=
  (answered.appendEntry (fun _ => none) (answered.entryOf (disk fun _ => none) label)).manager.setLabel
    "01234567" (some "here") (.string (isoText 0))

theorem reached : Reached answered := by
  have hstart : Reached start := .new source RawManager.openSession (disk fun _ => none) none rfl
  exact @Reached.call start hstart 0 (disk fun _ => none) answer trivial _ rfl

theorem reached_marked : Reached marked :=
  @Reached.call answered reached 0 (disk fun _ => none) label (fun _ => rfl) _ rfl

end ForgottenLabel

theorem rebuilt_index_agrees_example :
    ForgottenLabel.marked.labelsById = [(some (.string "01234567"), .string "here")] ∧
      Reached ForgottenLabel.marked ∧ Agrees ForgottenLabel.marked ∧
      ∀ fuel c op r, LabelWritten ForgottenLabel.marked c op → op.Appends →
        ForgottenLabel.marked.call fuel c op = some r →
        r.manager.fileEntries ≠ ForgottenLabel.marked.fileEntries →
        r.manager.rebuilt.1.leafId = r.manager.leafId :=
  ⟨rfl, ForgottenLabel.reached_marked, rebuilt_index_agrees ForgottenLabel.reached_marked⟩

/-- The label is an entry of the session and not in its index. -/
theorem failed_label_forgotten :
    Reached ForgottenLabel.answered ∧
      ForgottenLabel.answered.call 0 ForgottenLabel.full ForgottenLabel.label =
        some { manager := ForgottenLabel.labelled, done := []
               thrown := some "ENOSPC: no space left on device, write" } ∧
      ¬ Agrees ForgottenLabel.labelled := by
  refine ⟨ForgottenLabel.reached, rfl, fun h => ?_⟩
  have hlabels := h.labelsById
  have hlive : ForgottenLabel.labelled.labelsById = [] := rfl
  have hrebuilt : ForgottenLabel.labelled.rebuilt.1.labelsById =
      [(some (.string "01234567"), .string "here")] := rfl
  rw [hlive, hrebuilt] at hlabels
  cases hlabels

end PieLab

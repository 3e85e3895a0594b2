import PieLab.Session.TornFile

/-
  A session switch that throws

  `setSessionFile` assigns the new file first and goes on field by field, and each of
  its steps may throw: the path is not resolved, the file is not read, holds no session,
  is not migrated, written or indexed. What was assigned by then stays.

  What is proved:
    1. `appendEntries_congr`, `appendEntries_path` — later appends go to the session
       file, and the same session writes the same there.
    2. `setSessionFile_sessionFile` — a path that is resolved is the session file from
       then on, whatever throws later.
    3. `failed_switch_iff` — when a switch that throws leaves everything as it was: the
       path was not resolved, or it is that of the open session and everything the steps
       before the throw assigned was there already.
    4. `rejected_file_written` — a file that is no session is refused, and the next entry
       is appended to it.

  Correspondence (TypeScript ↔ Lean), packages/coding-agent/src/core/session-manager.ts:
    `setSessionFile`, `newSession`, `_rewriteFile` ↔ the same names
    `migrateToCurrentVersion`                      ↔ `migrateEntries`
    `_buildIndex`                                  ↔ `indexEntry`, `buildIndex`
    `_persist`, `_appendEntry`                     ↔ `persistEntry`, `appendEntry`
  An entry is the JSON value of its line, `undefined` is `none`. The file system is
  what `SwitchSource` answers.
-/

namespace PieLab

open Lib

/-! ## The manager -/

/-- Two keys of a `Map` that are one. A parsed object or array is a key of its own. -/
def sameKey : Option Json → Option Json → Bool
  | none, none => true
  | some .null, some .null => true
  | some (.bool a), some (.bool b) => a == b
  | some (.number a), some (.number b) => a == b
  | some (.string a), some (.string b) => a == b
  | _, _ => false

abbrev RawMap (α : Type) := List (Option Json × α)

def RawMap.set {α : Type} (k : Option Json) (v : α) : RawMap α → RawMap α
  | [] => [(k, v)]
  | (j, w) :: rest => if sameKey j k then (j, v) :: rest else (j, w) :: RawMap.set k v rest

def RawMap.delete {α : Type} (m : RawMap α) (k : Option Json) : RawMap α :=
  m.filter fun entry => !sameKey entry.1 k

structure RawManager where
  sessionId : String
  sessionFile : Option String
  persist : Bool
  flushed : Bool
  fileEntries : List Json
  byId : RawMap Json
  labelsById : RawMap Json
  labelTimestampsById : RawMap (Option Json)
  leafId : Option Json
  entriesRevision : Nat
  sessionName : Option String

/-- What the manager does to a file. -/
inductive FileOp where
  /-- `openSync(path, "w")`, which empties the file. -/
  | rewrite (path : String)
  /-- `openSync(path, "wx")` -/
  | create (path : String)
  | write (path : String) (entry : Json)
  /-- `appendFileSync` -/
  | append (path : String) (entry : Json)

def FileOp.path : FileOp → String
  | .rewrite path | .create path | .write path _ | .append path _ => path

/-- The operations that take effect, up to the first that throws. -/
def perform (fails : FileOp → Option String) : List FileOp → List FileOp × Option String
  | [] => ([], none)
  | op :: rest =>
    match fails op with
    | some e => ([], some e)
    | none => (op :: (perform fails rest).1, (perform fails rest).2)

/-- A call with what it did to the files and the error it threw. -/
structure CallResult where
  manager : RawManager
  done : List FileOp
  thrown : Option String

/-- What `setSessionFile` takes from outside. -/
structure SwitchSource where
  fmt : NumberFormat
  resolvePath : String → Except String String
  existsSync : String → Bool
  /-- The chunks of a file, `none` where it has gone since `existsSync`. -/
  read : String → Except String (Option (List (List Char)))
  /-- `statSync(path).size` -/
  size : String → Except String Nat
  fails : FileOp → Option String
  randomUUID : Nat → Draws
  /-- `createSessionId()` -/
  newId : String
  newHeader : Json
  newFile : String

/-- `loadEntriesFromFile` -/
def SwitchSource.load (src : SwitchSource) (path : String) : Except String (List Json) :=
  (src.read path).map fun chunks => chunks.elim [] (loadRawEntries src.fmt)

/-! ## Migration and index, with what they leave where they throw -/

/-- The entries as the first migration leaves them where it ends or throws. -/
def leftByV1ToV2From (randomUUID : Nat → Draws) (done : List (Json × Option Json))
    (prevId : Option String) : List Json → List Json
  | [] => done.map Prod.fst
  | entry :: rest =>
    if entry.hasType "session" then
      match setVersion entry 2 with
      | .error _ => done.map Prod.fst ++ entry :: rest
      | .ok entry => leftByV1ToV2From randomUUID (done ++ [(entry, entry.get? "id")]) prevId rest
    else
      let id := generateId migrationIds.contains (randomUUID done.length)
      let converted := do
        let entry ← entry.assign "id" (.string id)
        let entry ← entry.assign "parentId" (prevId.elim .null .string)
        convertRawFirstKept
          (done ++ (entry, some (Json.string id)) :: rest.map fun e => (e, e.get? "id")) entry
      match converted with
      -- a value that takes no `id` is left alone, and one that does takes the rest
      | .error _ => done.map Prod.fst ++ entry :: rest
      | .ok entry =>
        leftByV1ToV2From randomUUID (done ++ [(entry, some (Json.string id))]) (some id) rest

/-- The entries in memory after `migrateToCurrentVersion`, and what it returns or throws. -/
def migrateEntries (randomUUID : Nat → Draws) (entries : List Json) :
    List Json × Except String Bool :=
  match migrateRaw randomUUID entries with
  | .ok (migrated, any) => (migrated, .ok any)
  -- the second migration does not throw
  | .error e => (leftByV1ToV2From randomUUID [] none entries, .error e)

/-- `entry.name?.trim() || undefined` -/
def rawName (entry : Json) : Except String (Option String) :=
  match entry.get? "name" with
  | none | some .null => .ok none
  | some (.string name) => .ok (trimmedName (some name))
  | some _ => .error notAFunction

namespace RawManager

/-- The label of an entry is set or deleted. -/
def indexLabel (s : RawManager) (entry : Json) : RawManager :=
  if entry.hasType "label" then
    match (entry.get? "label").filter Json.truthy with
    | some label =>
      { s with
        labelsById := RawMap.set (entry.get? "targetId") label s.labelsById
        labelTimestampsById :=
          RawMap.set (entry.get? "targetId") (entry.get? "timestamp") s.labelTimestampsById }
    | none =>
      { s with
        labelsById := s.labelsById.delete (entry.get? "targetId")
        labelTimestampsById := s.labelTimestampsById.delete (entry.get? "targetId") }
  else s

/-- One entry of `_buildIndex`, and what it throws. -/
def indexEntry (s : RawManager) (entry : Json) : RawManager × Option String :=
  if entry.hasType "session" then (s, none)
  else
    let s := { s with byId := RawMap.set (entry.get? "id") entry s.byId, leafId := entry.get? "id" }
    if entry.hasType "session_info" then
      match rawName entry with
      | .error e => (s, some e)
      | .ok name => ({ s with sessionName := name }, none)
    else (s.indexLabel entry, none)

def indexEntries (s : RawManager) : List Json → RawManager × Option String
  | [] => (s, none)
  | entry :: rest =>
    match s.indexEntry entry with
    | (s, some e) => (s, some e)
    | (s, none) => s.indexEntries rest

/-- The manager without an index. -/
def cleared (s : RawManager) : RawManager :=
  { s with
    byId := [], labelsById := [], labelTimestampsById := [], leafId := some .null
    sessionName := none }

/-- `_buildIndex` -/
def buildIndex (s : RawManager) : RawManager × Option String := s.cleared.indexEntries s.fileEntries

/-! ## Switching -/

def newSession (src : SwitchSource) (s : RawManager) : RawManager :=
  { s.cleared with
    sessionId := src.newId
    fileEntries := [src.newHeader]
    entriesRevision := s.entriesRevision + 1
    flushed := false
    sessionFile := if s.persist then some src.newFile else s.sessionFile }

/-- `this.persist && this.sessionFile` -/
def target (s : RawManager) :
    Option String := s.sessionFile.filter fun path => s.persist && path ≠ ""

/-- `_rewriteFile` -/
def rewriteFile (fails : FileOp → Option String) (s : RawManager) : List FileOp × Option String :=
  match s.target with
  | none => ([], none)
  | some path => perform fails (.rewrite path :: s.fileEntries.map (.write path))

/-- The branch of a file without entries. -/
def openEmpty (src : SwitchSource) (s : RawManager) (path : String) : CallResult :=
  match src.size path with
  | .error e => { manager := s, done := [], thrown := some e }
  | .ok size =>
    if 0 < size then { manager := s, done := [], thrown := some (notASession path) }
    else
      let s := { s.newSession src with sessionFile := some path }
      match s.rewriteFile src.fails with
      | (done, some e) => { manager := s, done, thrown := some e }
      | (done, none) => { manager := { s with flushed := true }, done, thrown := none }

/-- The branch of a file with entries, from the index on. -/
def openIndex (s : RawManager) (done : List FileOp) : CallResult :=
  match s.buildIndex with
  | (s, some e) => { manager := s, done, thrown := some e }
  | (s, none) =>
    { manager := { s with entriesRevision := s.entriesRevision + 1, flushed := true }
      done, thrown := none }

/-- `header?.id ?? createSessionId()` -/
def headerId (src : SwitchSource) (entries : List Json) : String :=
  match (entries.find? (·.hasType "session")).bind (·.get? "id") with
  | some (.string id) => id
  | _ => src.newId

/-- The branch of a file with entries. -/
def openEntries (src : SwitchSource) (s : RawManager) : CallResult :=
  let (entries, result) := migrateEntries src.randomUUID s.fileEntries
  let s := { s with sessionId := headerId src s.fileEntries, fileEntries := entries }
  match result with
  | .error e => { manager := s, done := [], thrown := some e }
  | .ok false => s.openIndex []
  | .ok true =>
    match s.rewriteFile src.fails with
    | (done, some e) => { manager := s, done, thrown := some e }
    | (done, none) => s.openIndex done

def setSessionFile (src : SwitchSource) (s : RawManager) (sessionFile : String) : CallResult :=
  match src.resolvePath sessionFile with
  | .error e => { manager := s, done := [], thrown := some e }
  | .ok path =>
    let s := { s with sessionFile := some path }
    if src.existsSync path then
      match src.load path with
      | .error e => { manager := s, done := [], thrown := some e }
      | .ok entries =>
        let s := { s with fileEntries := entries }
        if entries.isEmpty then s.openEmpty src path else s.openEntries src
    else
      -- an explicit path is kept
      { manager := { s.newSession src with sessionFile := some path }, done := [], thrown := none }

/-! ## Appending -/

/-- `_persist` -/
def persistEntry (fails : FileOp → Option String) (s : RawManager) (entry : Json) : CallResult :=
  match s.target with
  | none => { manager := s, done := [], thrown := none }
  | some path =>
    match hasAssistantRaw s.fileEntries with
    | .error e => { manager := s, done := [], thrown := some e }
    | .ok hasAssistant =>
      if s.flushed then
        let (done, thrown) := perform fails [.append path entry]
        { manager := s, done, thrown }
      else if hasAssistant then
        match perform fails (.create path :: s.fileEntries.map (.write path)) with
        | (done, some e) => { manager := s, done, thrown := some e }
        | (done, none) => { manager := { s with flushed := true }, done, thrown := none }
      else { manager := { s with flushed := false }, done := [], thrown := none }

/-- `_appendEntry` -/
def appendEntry (fails : FileOp → Option String) (s : RawManager) (entry : Json) : CallResult :=
  let s := { s with
    fileEntries := s.fileEntries ++ [entry]
    byId := RawMap.set (entry.get? "id") entry s.byId
    leafId := entry.get? "id" }
  match (if entry.hasType "session_info" then rawName entry else .ok s.sessionName) with
  | .error e => { manager := s, done := [], thrown := some e }
  | .ok name =>
    persistEntry fails { s with sessionName := name, entriesRevision := s.entriesRevision + 1 } entry

/-- What a list of appends does to the files; each meets the file system as it then is. -/
def appendEntries (s : RawManager) : List (Json × (FileOp → Option String)) → List FileOp
  | [] => []
  | (entry, fails) :: rest =>
    (s.appendEntry fails entry).done ++ (s.appendEntry fails entry).manager.appendEntries rest

/-! ## What appends depend on -/

/-- The session of a manager: everything but the id and the count of its revisions. -/
structure SameSession (s t : RawManager) : Prop where
  sessionFile : t.sessionFile = s.sessionFile
  persist : t.persist = s.persist
  flushed : t.flushed = s.flushed
  fileEntries : t.fileEntries = s.fileEntries
  byId : t.byId = s.byId
  labelsById : t.labelsById = s.labelsById
  labelTimestampsById : t.labelTimestampsById = s.labelTimestampsById
  leafId : t.leafId = s.leafId
  sessionName : t.sessionName = s.sessionName

theorem SameSession.refl (s : RawManager) : SameSession s s := by
  constructor <;> rfl

/-- The same session with another id and another revision. -/
def revised (s : RawManager) (sessionId : String) (entriesRevision : Nat) : RawManager :=
  { s with sessionId, entriesRevision }

theorem same_revised (s : RawManager) (id : String) (n : Nat) : SameSession s (s.revised id n) := by
  constructor <;> rfl

theorem SameSession.symm {s t : RawManager} (h : SameSession s t) : SameSession t s :=
  ⟨h.1.symm, h.2.symm, h.3.symm, h.4.symm, h.5.symm, h.6.symm, h.7.symm, h.8.symm, h.9.symm⟩

theorem SameSession.trans {s t u : RawManager} (h : SameSession s t) (h' : SameSession t u) :
    SameSession s u :=
  ⟨h'.1.trans h.1, h'.2.trans h.2, h'.3.trans h.3, h'.4.trans h.4, h'.5.trans h.5, h'.6.trans h.6,
    h'.7.trans h.7, h'.8.trans h.8, h'.9.trans h.9⟩

theorem SameSession.eq_revised {s t : RawManager} (h : SameSession s t) :
    t = s.revised t.sessionId t.entriesRevision := by
  obtain ⟨_, _, _, _, _, _, _, _, _, _, _⟩ := s
  obtain ⟨_, _, _, _, _, _, _, _, _, _, _⟩ := t
  obtain ⟨h1, h2, h3, h4, h5, h6, h7, h8, h9⟩ := h
  simp only at h1 h2 h3 h4 h5 h6 h7 h8 h9
  subst h1 h2 h3 h4 h5 h6 h7 h8 h9
  rfl

@[simp] theorem target_revised (s : RawManager) (id : String) (n : Nat) :
    (s.revised id n).target = s.target := rfl

theorem persistEntry_revised (fails : FileOp → Option String) (s : RawManager) (entry : Json)
    (id : String) (n : Nat) :
    (s.revised id n).persistEntry fails entry =
      { s.persistEntry fails entry with
        manager := (s.persistEntry fails entry).manager.revised id n } := by
  have hentries : (s.revised id n).fileEntries = s.fileEntries := rfl
  have hflushed : (s.revised id n).flushed = s.flushed := rfl
  unfold persistEntry
  rw [target_revised, hentries, hflushed]
  cases s.target with
  | none => rfl
  | some path =>
    simp only
    cases hasAssistantRaw s.fileEntries with
    | error e => rfl
    | ok hasAssistant =>
      simp only
      by_cases hflushed : s.flushed
      · simp [hflushed]
      · cases hasAssistant with
        | false => simp [hflushed, revised]
        | true =>
          simp only [hflushed, Bool.false_eq_true, if_false, if_true]
          rcases perform fails (.create path :: s.fileEntries.map (.write path)) with ⟨done, _ | e⟩ <;> rfl

/-- The entry and its id are put in. -/
def pushEntry (s : RawManager) (entry : Json) : RawManager :=
  { s with
    fileEntries := s.fileEntries ++ [entry]
    byId := RawMap.set (entry.get? "id") entry s.byId
    leafId := entry.get? "id" }

theorem appendEntry_same (fails : FileOp → Option String) {s t : RawManager} (h : SameSession s t)
    (entry : Json) :
    (t.appendEntry fails entry).done = (s.appendEntry fails entry).done ∧
      SameSession (s.appendEntry fails entry).manager (t.appendEntry fails entry).manager := by
  rw [h.eq_revised]
  unfold appendEntry
  have hname : (s.revised t.sessionId t.entriesRevision).sessionName = s.sessionName := rfl
  simp only [hname]
  cases (if entry.hasType "session_info" then rawName entry else .ok s.sessionName) with
  | error e => exact ⟨rfl, (s.pushEntry entry).same_revised t.sessionId t.entriesRevision⟩
  | ok name =>
    let pushed : RawManager :=
      { s.pushEntry entry with sessionName := name, entriesRevision := s.entriesRevision + 1 }
    have hpersist := persistEntry_revised fails pushed entry t.sessionId (t.entriesRevision + 1)
    show (persistEntry fails (pushed.revised t.sessionId (t.entriesRevision + 1)) entry).done =
        (persistEntry fails pushed entry).done ∧ SameSession (persistEntry fails pushed entry).manager
        (persistEntry fails (pushed.revised t.sessionId (t.entriesRevision + 1)) entry).manager
    rw [hpersist]
    exact ⟨rfl, same_revised _ _ _⟩

/-- Later appends do the same to the files. -/
theorem appendEntries_congr (calls : List (Json × (FileOp → Option String))) {s t : RawManager}
    (h : SameSession s t) : t.appendEntries calls = s.appendEntries calls := by
  induction calls generalizing s t with
  | nil => rfl
  | cons call rest ih =>
    obtain ⟨entry, fails⟩ := call
    obtain ⟨hdone, hsame⟩ := appendEntry_same fails h entry
    unfold appendEntries
    rw [hdone, ih hsame]

theorem mem_perform {fails : FileOp → Option String} {ops : List FileOp} {op : FileOp}
    (h : op ∈ (perform fails ops).1) : op ∈ ops := by
  induction ops with
  | nil => exact h
  | cons first rest ih =>
    unfold perform at h
    cases hfails : fails first with
    | some e =>
      rw [hfails] at h
      cases h
    | none =>
      rw [hfails] at h
      rcases List.mem_cons.mp h with rfl | hrest
      · exact List.mem_cons_self
      · exact List.mem_cons_of_mem _ (ih hrest)

theorem sessionFile_of_target {s : RawManager} {path : String} (h : s.target = some path) :
    s.sessionFile = some path := (Option.filter_eq_some_iff.mp h).1

theorem persistEntry_path (fails : FileOp → Option String) (s : RawManager) (entry : Json) :
    (∀ op ∈ (s.persistEntry fails entry).done, s.sessionFile = some op.path) ∧
      (s.persistEntry fails entry).manager.sessionFile = s.sessionFile := by
  have hnone : ∀ op ∈ ([] : List FileOp), s.sessionFile = some op.path := by simp
  unfold persistEntry
  cases htarget : s.target with
  | none => exact ⟨hnone, rfl⟩
  | some path =>
    have hfile := sessionFile_of_target htarget
    simp only
    cases hasAssistantRaw s.fileEntries with
    | error e => exact ⟨hnone, rfl⟩
    | ok hasAssistant =>
      simp only
      split
      · refine ⟨?_, rfl⟩
        intro op hop
        rw [List.mem_singleton.mp (mem_perform hop), hfile]
        rfl
      · split
        · have hall : ∀ op ∈ (perform fails (.create path :: s.fileEntries.map (.write path))).1,
              s.sessionFile = some op.path := by
            intro op hop
            rcases List.mem_cons.mp (mem_perform hop) with rfl | hwrite
            · exact hfile
            · obtain ⟨e, -, rfl⟩ := List.mem_map.mp hwrite
              exact hfile
          rcases hperform : perform fails (.create path :: s.fileEntries.map (.write path)) with ⟨done, _ | e⟩
          · rw [hperform] at hall
            exact ⟨hall, rfl⟩
          · rw [hperform] at hall
            exact ⟨hall, rfl⟩
        · exact ⟨hnone, rfl⟩

theorem appendEntry_path (fails : FileOp → Option String) (s : RawManager) (entry : Json) :
    (∀ op ∈ (s.appendEntry fails entry).done, s.sessionFile = some op.path) ∧
      (s.appendEntry fails entry).manager.sessionFile = s.sessionFile := by
  unfold appendEntry
  simp only
  cases (if entry.hasType "session_info" then rawName entry else .ok s.sessionName) with
  | error e => exact ⟨by simp, rfl⟩
  | ok name => exact persistEntry_path _ _ _

/-- Appends go to the session file. -/
theorem appendEntries_path (calls : List (Json × (FileOp → Option String))) (s : RawManager) :
    ∀ op ∈ s.appendEntries calls, s.sessionFile = some op.path := by
  induction calls generalizing s with
  | nil => simp [appendEntries]
  | cons call rest ih =>
    obtain ⟨entry, fails⟩ := call
    obtain ⟨hdone, hfile⟩ := s.appendEntry_path fails entry
    intro op hop
    unfold appendEntries at hop
    rcases List.mem_append.mp hop with h | h
    · exact hdone op h
    · rw [← hfile]
      exact ih _ op h

/-! ## What a switch leaves -/

/-- The session is as it was, nothing was done to a file, and later appends go to the old session
file and do there what they would have done. -/
structure Kept (s : RawManager) (r : CallResult) : Prop where
  same : SameSession s r.manager
  untouched : r.done = []
  appends : ∀ calls, r.manager.appendEntries calls = s.appendEntries calls
  oldFile : ∀ calls, ∀ op ∈ r.manager.appendEntries calls, s.sessionFile = some op.path

theorem Kept.of_same {s : RawManager} {r : CallResult} (hsame : SameSession s r.manager)
    (hdone : r.done = []) : Kept s r where
  same := hsame
  untouched := hdone
  appends calls := appendEntries_congr calls hsame
  oldFile calls op hop := by
    rw [appendEntries_congr calls hsame] at hop
    exact appendEntries_path calls s op hop

theorem rewriteFile_nil (fails : FileOp → Option String) (s : RawManager) :
    (s.rewriteFile fails).1 = [] ↔
      ∀ path, s.target = some path → fails (.rewrite path) ≠ none := by
  unfold rewriteFile
  cases s.target with
  | none => simp
  | some path =>
    simp only [perform, Option.some.injEq, forall_eq']
    cases hfails : fails (.rewrite path) <;> simp

/-- The new session in a given file. -/
def newIn (src : SwitchSource) (s : RawManager) (path : String) : RawManager :=
  { s.newSession src with sessionFile := some path }

/-- The open session is what the steps before the throw make of its file. -/
def ReopenLeaves (src : SwitchSource) (s : RawManager) (path : String) : Prop :=
  match src.load path with
  -- nothing more is assigned
  | .error _ => True
  | .ok [] =>
    match src.size path with
    | .ok 0 =>
      SameSession s (s.newIn src path) ∧ ∀ file, s.target = some file → src.fails (.rewrite file) ≠ none
    | _ => s.fileEntries = []
  | .ok (header :: rest) =>
    match migrateRaw src.randomUUID (header :: rest) with
    | .error _ => s.fileEntries = leftByV1ToV2From src.randomUUID [] none (header :: rest)
    | .ok (migrated, any) =>
      s.fileEntries = migrated ∧
        match s.target.filter fun _ => any with
        -- the file is to be written and does not open
        | some file => src.fails (.rewrite file) ≠ none
        | none => SameSession s s.buildIndex.1

/-- The path is not resolved, or it is that of the open session, which is what the steps before the
throw make of it. -/
def SwitchLeaves (src : SwitchSource) (s : RawManager) (sessionFile : String) : Prop :=
  match src.resolvePath sessionFile with
  | .error _ => True
  | .ok path => s.sessionFile = some path ∧ ReopenLeaves src s path

/-! ## Indexing -/

theorem indexEntry_revised (s : RawManager) (entry : Json) (id : String) (n : Nat) :
    (s.revised id n).indexEntry entry =
      ((s.indexEntry entry).1.revised id n, (s.indexEntry entry).2) := by
  unfold indexEntry
  by_cases hsession : entry.hasType "session"
  · simp [hsession]
  · simp only [hsession, Bool.false_eq_true, if_false]
    by_cases hinfo : entry.hasType "session_info"
    · simp only [hinfo, if_true]
      cases rawName entry <;> rfl
    · simp only [hinfo, Bool.false_eq_true, if_false, Prod.mk.injEq, and_true]
      unfold indexLabel
      by_cases hlabel : entry.hasType "label"
      · simp only [hlabel, if_true]
        cases (entry.get? "label").filter Json.truthy <;> rfl
      · simp [hlabel, revised]

theorem indexEntries_revised (entries : List Json) (s : RawManager) (id : String) (n : Nat) :
    (s.revised id n).indexEntries entries =
      ((s.indexEntries entries).1.revised id n, (s.indexEntries entries).2) := by
  induction entries generalizing s with
  | nil => rfl
  | cons entry rest ih =>
    unfold indexEntries
    rw [indexEntry_revised]
    rcases s.indexEntry entry with ⟨s', _ | e⟩
    · exact ih s'
    · rfl

theorem buildIndex_same {s t : RawManager} (h : SameSession s t) :
    SameSession s.buildIndex.1 t.buildIndex.1 := by
  rw [h.eq_revised]
  show SameSession _ ((s.cleared.revised t.sessionId t.entriesRevision).indexEntries s.fileEntries).1
  rw [indexEntries_revised]
  exact same_revised _ _ _

theorem indexEntry_frame (s : RawManager) (entry : Json) :
    (s.indexEntry entry).1.fileEntries = s.fileEntries ∧
      (s.indexEntry entry).1.sessionFile = s.sessionFile := by
  unfold indexEntry
  split
  · exact ⟨rfl, rfl⟩
  · simp only
    split
    · cases rawName entry <;> exact ⟨rfl, rfl⟩
    · unfold indexLabel
      split
      · simp only
        split <;> exact ⟨rfl, rfl⟩
      · exact ⟨rfl, rfl⟩

theorem indexEntries_frame (entries : List Json) (s : RawManager) :
    (s.indexEntries entries).1.fileEntries = s.fileEntries ∧
      (s.indexEntries entries).1.sessionFile = s.sessionFile := by
  induction entries generalizing s with
  | nil => exact ⟨rfl, rfl⟩
  | cons entry rest ih =>
    have hentry := s.indexEntry_frame entry
    unfold indexEntries
    rcases hindex : s.indexEntry entry with ⟨s', _ | e⟩
    · rw [hindex] at hentry
      exact ⟨(ih s').1.trans hentry.1, (ih s').2.trans hentry.2⟩
    · rw [hindex] at hentry
      exact hentry

theorem buildIndex_fileEntries (s : RawManager) : s.buildIndex.1.fileEntries = s.fileEntries :=
  (indexEntries_frame _ _).1

theorem openIndex_sessionFile (s : RawManager) (done : List FileOp) :
    (s.openIndex done).manager.sessionFile = s.sessionFile := by
  have hframe := (indexEntries_frame s.fileEntries s.cleared).2
  unfold openIndex buildIndex
  rcases hindex : s.cleared.indexEntries s.fileEntries with ⟨t, _ | e⟩
  · rw [hindex] at hframe
    exact hframe
  · rw [hindex] at hframe
    exact hframe

theorem same_assigned {s : RawManager} (id : String) {entries : List Json}
    (h : s.fileEntries = entries) :
    SameSession s { s with sessionId := id, fileEntries := entries } := by
  subst h
  constructor <;> rfl

section Switch
variable {src : SwitchSource} {s : RawManager} {sessionFile path : String}

theorem Kept.fileEntries {r : CallResult} (h : Kept s r) : r.manager.fileEntries = s.fileEntries :=
  h.same.fileEntries

theorem openEmpty_kept_iff (hopen : s.sessionFile = some path) (hload : src.load path = .ok [])
    (hthrown : (openEmpty src { s with fileEntries := [] } path).thrown ≠ none) :
    Kept s (openEmpty src { s with fileEntries := [] } path) ↔ ReopenLeaves src s path := by
  have hnoSession : ∀ e, Kept s { manager := { s with fileEntries := [] }, done := [], thrown := some e } ↔
      s.fileEntries = [] := by
    intro e
    constructor
    · exact fun h => h.fileEntries.symm
    · exact fun h => .of_same (same_assigned s.sessionId h) rfl
  unfold ReopenLeaves
  rw [hload]
  unfold openEmpty at hthrown ⊢
  cases hsize : src.size path with
  | error e => exact hnoSession e
  | ok size =>
    rw [hsize] at hthrown
    cases size with
    | succ size => exact hnoSession (notASession path)
    | zero =>
      -- the session is new, and only writing it can throw
      have htarget : (s.newIn src path).target = s.target := by
        unfold target
        rw [hopen]
        rfl
      have hdone := rewriteFile_nil src.fails (s.newIn src path)
      rw [htarget] at hdone
      change (match (s.newIn src path).rewriteFile src.fails with
        | (done, some e) => ({ manager := s.newIn src path, done, thrown := some e } : CallResult)
        | (done, none) =>
          { manager := { s.newIn src path with flushed := true }, done, thrown := none }).thrown ≠ none
        at hthrown
      show Kept s (match (s.newIn src path).rewriteFile src.fails with
        | (done, some e) => ({ manager := s.newIn src path, done, thrown := some e } : CallResult)
        | (done, none) =>
          { manager := { s.newIn src path with flushed := true }, done, thrown := none }) ↔ _
      rcases hrewrite : (s.newIn src path).rewriteFile src.fails with ⟨done, _ | e⟩
      · rw [hrewrite] at hthrown
        exact absurd rfl hthrown
      · rw [hrewrite] at hdone
        constructor
        · exact fun h => ⟨h.same, hdone.mp h.untouched⟩
        · exact fun h => .of_same h.1 (hdone.mpr h.2)

theorem openIndex_kept_iff {done : List FileOp} (hthrown : (s.openIndex done).thrown ≠ none)
    (t : RawManager) :
    Kept t (s.openIndex done) ↔ SameSession t s.buildIndex.1 ∧ done = [] := by
  unfold openIndex at hthrown ⊢
  rcases hindex : s.buildIndex with ⟨t', _ | e⟩
  · rw [hindex] at hthrown
    exact absurd rfl hthrown
  · constructor
    · exact fun h => ⟨h.same, h.untouched⟩
    · exact fun h => .of_same h.1 h.2

theorem same_buildIndex_iff (id : String) (entries : List Json) :
    SameSession s (buildIndex { s with sessionId := id, fileEntries := entries }).1 ↔
      s.fileEntries = entries ∧ SameSession s s.buildIndex.1 := by
  constructor
  · intro h
    have hsame : s.fileEntries = entries := by
      rw [← h.fileEntries, buildIndex_fileEntries]
    exact ⟨hsame, h.trans (buildIndex_same (same_assigned id hsame)).symm⟩
  · intro ⟨hsame, h⟩
    exact h.trans (buildIndex_same (same_assigned id hsame))

theorem openMigrated_kept_iff (id : String) (entries : List Json) {r : CallResult}
    (hr : r = match rewriteFile src.fails { s with sessionId := id, fileEntries := entries } with
      | (done, some e) =>
        { manager := { s with sessionId := id, fileEntries := entries }, done, thrown := some e }
      | (done, none) => openIndex { s with sessionId := id, fileEntries := entries } done)
    (hthrown : r.thrown ≠ none) :
    Kept s r ↔ s.fileEntries = entries ∧
      match s.target with
      | some file => src.fails (.rewrite file) ≠ none
      | none => SameSession s s.buildIndex.1 := by
  have htarget : target { s with sessionId := id, fileEntries := entries } = s.target := rfl
  unfold rewriteFile at hr
  rw [htarget] at hr
  cases hfile : s.target with
  | none =>
    rw [hfile] at hr
    rw [hr] at hthrown ⊢
    rw [openIndex_kept_iff hthrown, same_buildIndex_iff, eq_self_iff_true, and_true]
  | some file =>
    rw [hfile] at hr
    show Kept s r ↔ s.fileEntries = entries ∧ src.fails (.rewrite file) ≠ none
    cases hfails : src.fails (.rewrite file) with
    | some e =>
      simp only [perform, hfails] at hr
      rw [hr]
      constructor
      · exact fun h => ⟨h.fileEntries.symm, Option.some_ne_none e⟩
      · exact fun h => .of_same (same_assigned id h.1) rfl
    | none =>
      -- the file is emptied
      simp only [perform, hfails] at hr
      constructor
      · intro h
        cases hrest : (perform src.fails (entries.map (.write file))).2 with
        | some e =>
          rw [hrest] at hr
          have hdone := h.untouched
          rw [hr] at hdone
          cases hdone
        | none =>
          rw [hrest] at hr
          rw [hr] at hthrown h
          cases ((openIndex_kept_iff hthrown s).mp h).2
      · exact fun h => absurd rfl h.2

theorem openEntries_kept_iff {header : Json} {rest : List Json}
    (hload : src.load path = .ok (header :: rest))
    (hthrown : (openEntries src { s with fileEntries := header :: rest }).thrown ≠ none) :
    Kept s (openEntries src { s with fileEntries := header :: rest }) ↔ ReopenLeaves src s path := by
  let id := headerId src (header :: rest)
  unfold ReopenLeaves
  rw [hload]
  unfold openEntries migrateEntries at hthrown ⊢
  simp only at hthrown ⊢
  cases hmigrate : migrateRaw src.randomUUID (header :: rest) with
  | error e =>
    constructor
    · exact fun h => h.fileEntries.symm
    · exact fun h => .of_same (same_assigned id h) rfl
  | ok result =>
    obtain ⟨migrated, any⟩ := result
    rw [hmigrate] at hthrown
    cases any with
    | false =>
      show Kept s (openIndex { s with sessionId := id, fileEntries := migrated } []) ↔
        s.fileEntries = migrated ∧ match s.target.filter fun _ => false with
          | some file => src.fails (.rewrite file) ≠ none
          | none => SameSession s s.buildIndex.1
      have hnone : s.target.filter (fun _ => false) = none := by cases s.target <;> rfl
      rw [hnone, openIndex_kept_iff hthrown, same_buildIndex_iff, eq_self_iff_true, and_true]
    | true =>
      have hfilter : s.target.filter (fun _ => true) = s.target := by cases s.target <;> rfl
      show _ ↔ s.fileEntries = migrated ∧ match s.target.filter fun _ => true with
        | some file => src.fails (.rewrite file) ≠ none
        | none => SameSession s s.buildIndex.1
      rw [hfilter]
      exact openMigrated_kept_iff id migrated rfl hthrown

theorem openEmpty_sessionFile (hopen : s.sessionFile = some path) :
    (s.openEmpty src path).manager.sessionFile = some path := by
  unfold openEmpty
  cases src.size path with
  | error e => exact hopen
  | ok size =>
    simp only
    split
    · exact hopen
    · rcases rewriteFile src.fails _ with ⟨done, _ | e⟩ <;> rfl

theorem openEntries_sessionFile (hopen : s.sessionFile = some path) :
    (s.openEntries src).manager.sessionFile = some path := by
  unfold openEntries
  rcases migrateEntries src.randomUUID s.fileEntries with ⟨entries, _ | _ | _⟩
  · exact hopen
  · exact (openIndex_sessionFile _ _).trans hopen
  · simp only
    rcases rewriteFile src.fails _ with ⟨done, _ | e⟩
    · exact (openIndex_sessionFile _ _).trans hopen
    · exact hopen

/-- A path that is resolved is the session file from then on. -/
theorem setSessionFile_sessionFile (hpath : src.resolvePath sessionFile = .ok path) :
    (s.setSessionFile src sessionFile).manager.sessionFile = some path := by
  unfold setSessionFile
  rw [hpath]
  simp only
  split
  · cases src.load path with
    | error e => rfl
    | ok entries =>
      simp only
      split
      · exact openEmpty_sessionFile rfl
      · exact openEntries_sessionFile rfl
  · rfl

/-- What a switch that throws leaves as it was. -/
theorem failed_switch_iff (src : SwitchSource) (s : RawManager) (sessionFile : String)
    (hthrown : (s.setSessionFile src sessionFile).thrown ≠ none) :
    Kept s (s.setSessionFile src sessionFile) ↔ SwitchLeaves src s sessionFile := by
  unfold SwitchLeaves
  cases hpath : src.resolvePath sessionFile with
  | error e =>
    have heq : s.setSessionFile src sessionFile =
        { manager := s, done := [], thrown := some e } := by
      unfold setSessionFile
      rw [hpath]
    rw [heq]
    exact ⟨fun _ => trivial, fun _ => .of_same (.refl s) rfl⟩
  | ok path =>
    by_cases hopen : s.sessionFile = some path
    · -- the open session: the steps up to the throw decide
      have hiff : Kept s (s.setSessionFile src sessionFile) ↔ ReopenLeaves src s path := by
        cases s
        subst hopen
        unfold setSessionFile at hthrown ⊢
        rw [hpath] at hthrown ⊢
        simp only at hthrown ⊢
        by_cases hexists : src.existsSync path
        · rw [if_pos hexists] at hthrown ⊢
          cases hload : src.load path with
          | error e =>
            unfold ReopenLeaves
            rw [hload]
            exact ⟨fun _ => trivial, fun _ => .of_same (.refl _) rfl⟩
          | ok entries =>
            rw [hload] at hthrown
            cases entries with
            | nil => exact openEmpty_kept_iff rfl hload hthrown
            | cons header rest => exact openEntries_kept_iff hload hthrown
        · rw [if_neg hexists] at hthrown
          exact absurd rfl hthrown
      exact hiff.trans (and_iff_right hopen).symm
    · constructor
      · intro h
        exact absurd (h.same.sessionFile.symm.trans (setSessionFile_sessionFile hpath)) hopen
      · exact fun h => absurd h.1 hopen

end Switch

section Examples

/-- A session with one entry, all of it in its file. -/
def openSession : RawManager where
  sessionId := "s"
  sessionFile := some "/sessions/s.jsonl"
  persist := true
  flushed := true
  fileEntries := [sessionHeader3, noteEntry]
  byId := [(some (.string "a"), noteEntry)]
  labelsById := []
  labelTimestampsById := []
  leafId := some (.string "a")
  entriesRevision := 1
  sessionName := none

/-- Every file is there and holds a line that does not parse. -/
def notesSource : SwitchSource where
  fmt := digitFormat
  resolvePath path := .ok path
  existsSync _ := true
  read _ := .ok (some [tornLine])
  size _ := .ok 13
  fails _ := none
  randomUUID := wholeFile.randomUUID
  newId := "n"
  newHeader := sessionHeader3
  newFile := "/sessions/n.jsonl"

/-- A `file:` URL that names a host is not resolved. -/
def hostSource : SwitchSource :=
  { notesSource with resolvePath := fun _ => .error "File URL host must be \"localhost\" or empty" }

theorem failed_switch_example :
    Kept openSession (openSession.setSessionFile hostSource "file://host/s.jsonl") := by
  apply (failed_switch_iff hostSource openSession "file://host/s.jsonl" ?_).mpr
  · trivial
  · exact Option.some_ne_none _

/-- A file that is no session is refused, and the next entry is appended to it. -/
theorem rejected_file_written :
    (openSession.setSessionFile notesSource "/notes.txt").thrown = some (notASession "/notes.txt") ∧
      (openSession.setSessionFile notesSource "/notes.txt").manager.appendEntries
        [(noteEntry, fun _ => none)] = [.append "/notes.txt" noteEntry] ∧
      ¬ Kept openSession (openSession.setSessionFile notesSource "/notes.txt") := by
  have hload : notesSource.load "/notes.txt" = .ok [] := by
    have hlines : loadRawEntries digitFormat [tornLine] = [] := by
      unfold loadRawEntries
      rw [loadLines_eq, List.flatten_cons, List.flatten_nil, List.append_nil, loadText_tornLine]
      rfl
    exact congrArg Except.ok hlines
  have hswitch : openSession.setSessionFile notesSource "/notes.txt" =
      { manager := { openSession with sessionFile := some "/notes.txt", fileEntries := [] }
        done := [], thrown := some (notASession "/notes.txt") } := by
    have hresolve : notesSource.resolvePath "/notes.txt" = .ok "/notes.txt" := rfl
    have hexists : notesSource.existsSync "/notes.txt" = true := rfl
    unfold setSessionFile
    simp only [hresolve, hexists, hload, if_true]
    rfl
  refine ⟨congrArg CallResult.thrown hswitch, ?_, ?_⟩
  · rw [hswitch]
    rfl
  · intro h
    have hentries := h.fileEntries
    rw [hswitch] at hentries
    cases hentries

end Examples

end RawManager
end PieLab

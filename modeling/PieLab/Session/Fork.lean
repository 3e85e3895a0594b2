import Mathlib.Data.List.TakeWhile
import PieLab.Session.Migration

/-
  Opening and forking a session file

  `SessionManager.open` loads a file, brings its entries to the current version
  and shows the context of the last one. `SessionManager.forkFrom` copies the
  entries of a file as they are under a new header of the current version, and
  opens the copy.

  What is proved:
    1. `buildStoredPath_repeated` — a chain that repeats an id has no path: the
       walk from its last entry never ends.
    2. `openedMessages_v1` — what a file of version 1 shows, read off its indices.
    3. `forkFrom_context_iff` — when the fork shows what the source shows. Nothing
       migrates the copied entries, so those of version 1 stay unlinked and the
       role `hookMessage` stays.

  Correspondence (TypeScript ↔ Lean), packages/coding-agent/src/core/session-manager.ts:
    `loadEntriesFromFile`               ↔ `loadEntriesFromFile`, over the parsed lines
    `_buildIndex`, `setSessionFile`     ↔ `buildIndex`, `setSessionFile`
    `SessionManager.open`, `forkFrom`   ↔ `openSession`, `forkFrom`
    `buildSessionContext().messages`    ↔ `OpenSession.contextMessages`
  A file is the list of its parsed lines: a line written is an entry as
  `JSON.stringify` prints it, and parsing it gives the entry back.
-/

namespace PieLab

open Lib

/-! ## Opening a file -/

/-- The entries of a file, none where it does not begin with a header. -/
def loadEntriesFromFile (file : List FileEntry) : List FileEntry :=
  match file with
  | .session _ :: _ => file
  | _ => []

/-- The entries and the leaf of an open session. -/
structure OpenSession where
  entries : List StoredEntry
  leafId : LeafArg
  deriving DecidableEq, Repr

/-- An `id` field as a leaf: it may be missing. -/
def idLeaf : Option String → LeafArg
  | none => .undefined
  | some id => .id id

/-- `leafId` after `_buildIndex`. -/
def lastLeaf (entries : List StoredEntry) : LeafArg :=
  match entries.getLast? with
  | none => .null
  | some last => idLeaf last.id

def buildIndex (fileEntries : List FileEntry) : OpenSession :=
  { entries := sessionEntries fileEntries, leafId := lastLeaf (sessionEntries fileEntries) }

/-- A file that exists: an empty one becomes a new session, one that does not parse is refused. -/
def setSessionFile (randomUUID : Nat → Draws) (sessionFile : String) (file : List FileEntry) :
    Except String OpenSession :=
  match loadEntriesFromFile file with
  | [] =>
    if file = [] then .ok (buildIndex [])
    else .error ("Session file is not a valid pi session: " ++ sessionFile)
  | fileEntries => .ok (buildIndex (migrateToCurrentVersion randomUUID fileEntries).1)

def openSession (randomUUID : Nat → Draws) (path : String) (file : List FileEntry) :
    Except String OpenSession :=
  setSessionFile randomUUID path file

/-- What a fork takes from outside: the new id and time, the paths, and its own draws. -/
structure ForkEnv where
  newSessionId : String
  timestamp : Int
  targetCwd : String
  sourcePath : String
  newSessionFile : String
  randomUUID : Nat → Draws

/-- The new file: a header of the current version, and the source's entries as they are. -/
def forkedFile (env : ForkEnv) (sourceEntries : List FileEntry) : List FileEntry :=
  .session
      { version := some currentSessionVersion
        id := env.newSessionId
        timestamp := env.timestamp
        cwd := env.targetCwd
        parentSession := some env.sourcePath } ::
    (sessionEntries sourceEntries).map .entry

def forkFrom (env : ForkEnv) (source : List FileEntry) : Except String OpenSession :=
  match loadEntriesFromFile source with
  | [] => .error ("Cannot fork: source session file is empty or invalid: " ++ env.sourcePath)
  | sourceEntries =>
    match sourceEntries.findSome? FileEntry.header? with
    | none => .error ("Cannot fork: source session has no header: " ++ env.sourcePath)
    | some _ =>
      setSessionFile env.randomUUID env.newSessionFile (forkedFile env sourceEntries)

/-- The context messages of an open session; `none` where the walk never ends. -/
def OpenSession.contextMessages (s : OpenSession) : Option (List StoredMessage) :=
  storedContextMessages s.entries s.leafId

/-! ## The path from the last entry -/

theorem buildStoredPath_lastLeaf (entries : List StoredEntry) :
    buildStoredPath entries (lastLeaf entries) = buildStoredPath entries .undefined := by
  cases entries using List.reverseRecOn with
  | nil => rfl
  | append_singleton init last =>
    obtain ⟨id, parentId, timestamp, body⟩ := last
    have hleaf : lastLeaf (init ++ [⟨id, parentId, timestamp, body⟩]) = idLeaf id := by
      simp [lastLeaf]
    rw [hleaf]
    cases id with
    | none => rfl
    | some id =>
      by_cases hempty : id = ""
      · simp [buildStoredPath, idLeaf, hempty]
      · have hindex : StoredEntry.index (init ++ [⟨some id, parentId, timestamp, body⟩]) (some id) =
            some ⟨some id, parentId, timestamp, body⟩ := findLast_last
        simp [buildStoredPath, idLeaf, hempty, hindex]

theorem contextMessages_buildIndex (fileEntries : List FileEntry) :
    (buildIndex fileEntries).contextMessages =
      storedContextMessages (sessionEntries fileEntries) .undefined := by
  unfold OpenSession.contextMessages buildIndex storedContextMessages
  rw [buildStoredPath_lastLeaf]

theorem exists_repeat {α β : Type} {f : α → β} {l : List α} (h : ¬ (l.map f).Nodup) :
    ∃ pre x post, l = pre ++ x :: post ∧ f x ∈ post.map f := by
  induction l with
  | nil => exact absurd List.nodup_nil h
  | cons a l ih =>
    by_cases ha : f a ∈ l.map f
    · exact ⟨[], a, l, rfl, ha⟩
    · have hl : ¬ (l.map f).Nodup := fun hl => h (List.nodup_cons.mpr ⟨ha, hl⟩)
      obtain ⟨pre, x, post, rfl, hx⟩ := ih hl
      exact ⟨a :: pre, x, post, rfl, hx⟩

/-- Entries chained in file order that repeat an id: the walk comes back to the later one
of the two and never gets past it. -/
theorem buildStoredPath_repeated {es : List StoredEntry} {ids : List String}
    (hids : es.map StoredEntry.id = ids.map some) (hn : ¬ ids.Nodup) (hne : "" ∉ ids)
    (hchain : ChainedBelow none es) : buildStoredPath es .undefined = none := by
  have hn' : ¬ (es.map StoredEntry.id).Nodup := by
    rw [hids]
    exact fun h => hn (List.Nodup.of_map _ h)
  obtain ⟨pre, e, post, rfl, hrepeat⟩ := exists_repeat hn'
  -- the parent of an entry behind `e` is found behind `e`
  have hclosed : ∀ x, x ∈ post → ∃ y, x.parentKey.bind (StoredEntry.index (pre ++ e :: post)) =
      some y ∧ y ∈ post := by
    intro x hx
    obtain ⟨front, back, rfl⟩ := List.append_of_mem hx
    obtain ⟨p, hp, hparent⟩ : ∃ p ∈ e :: front, x.parentId = p.id := by
      have hlinks := hchain.isChain.1
      rw [← List.cons_append, ← List.append_assoc] at hlinks
      have hlink := (List.isChain_append.mp hlinks).2.2
      obtain ⟨p, hp⟩ : ∃ p, (e :: front).getLast? = some p := by simp [List.getLast?_cons]
      refine ⟨p, List.mem_of_getLast? hp, hlink p ?_ x rfl⟩
      rw [List.getLast?_append, hp]
      rfl
    have hkey : p.id ∈ (front ++ x :: back).map StoredEntry.id := by
      rcases List.mem_cons.mp hp with rfl | hp
      · exact hrepeat
      · exact List.mem_map.mpr ⟨p, by simp [hp], rfl⟩
    obtain ⟨id, hid, hpid⟩ : ∃ id ∈ ids, some id = p.id := by
      have hmem : p.id ∈ ids.map some := by
        rw [← hids]
        exact List.mem_map.mpr ⟨p, by simp at hp ⊢; tauto, rfl⟩
      exact List.mem_map.mp hmem
    have hparentKey : x.parentKey = some p.id := by
      rw [← hpid] at hparent ⊢
      exact StoredEntry.parentKey_eq hparent fun h => hne (h ▸ hid)
    obtain ⟨q, hq, hqid⟩ := List.mem_map.mp hkey
    obtain ⟨y, hy⟩ : ∃ y, findLast StoredEntry.id (front ++ x :: back) p.id = some y := by
      cases hfind : findLast StoredEntry.id (front ++ x :: back) p.id with
      | none => exact absurd hqid (findLast_none_iff.mp hfind q hq)
      | some y => exact ⟨y, rfl⟩
    refine ⟨y, ?_, (findLast_mem hy).1⟩
    rw [hparentKey, Option.bind_some]
    unfold StoredEntry.index
    rw [← List.singleton_append, ← List.append_assoc, findLast_append, hy]
    rfl
  obtain ⟨last, hlast⟩ : ∃ last, post.getLast? = some last := by
    cases hpost : post.getLast? with
    | none =>
      obtain rfl := List.getLast?_eq_none_iff.mp hpost
      exact absurd hrepeat List.not_mem_nil
    | some last => exact ⟨last, rfl⟩
  have hend : (pre ++ e :: post).getLast? = some last := by
    rw [List.getLast?_append, List.getLast?_cons, hlast]
    rfl
  unfold buildStoredPath
  simp only [hend]
  rw [walk_closed hclosed (List.mem_of_getLast? hlast)]
  rfl

/-! ## What a file of version 1 shows -/

/-- The latest compaction of a file, with the lines on both sides. -/
def lastCompaction : List FileEntry → Option (List FileEntry × StoredEntry × List FileEntry)
  | [] => none
  | x :: rest =>
    ((lastCompaction rest).map fun (pre, c, post) => (x :: pre, c, post)).or
      ((x.entry?.filter StoredEntry.isCompaction).map fun c => ([], c, rest))

/-- The entries of the lines in front from an index on, where it points to an entry. -/
def keptByIndex (pre : List FileEntry) : Option Int → List StoredEntry
  | none => []
  | some index => match fileEntryAt pre index with
    | some (.entry _) => sessionEntries (pre.drop index.toNat)
    | _ => []

/-- The entries a file of version 1 shows, in the order of the context. -/
def v1ContextEntries (file : List FileEntry) : List StoredEntry :=
  match lastCompaction file with
  | none => sessionEntries file
  | some (pre, compaction, post) =>
    compaction :: keptByIndex pre compaction.firstKeptEntryIndex ++ sessionEntries post

variable {file l l' : List FileEntry} {c : StoredEntry}

theorem lastCompaction_none (h : lastCompaction file = none) :
    ∀ e ∈ sessionEntries file, e.isCompaction = false := by
  induction file with
  | nil => exact fun e he => nomatch he
  | cons x rest ih =>
    simp only [lastCompaction, Option.or_eq_none_iff, Option.map_eq_none_iff] at h
    obtain ⟨hrest, hx⟩ := h
    cases x with
    | session header => exact ih hrest
    | entry e =>
      intro a ha
      rcases List.mem_cons.mp ha with rfl | ha
      · simpa [FileEntry.entry?] using hx
      · exact ih hrest a ha

theorem lastCompaction_some {pre post : List FileEntry}
    (h : lastCompaction file = some (pre, c, post)) :
    file = pre ++ .entry c :: post ∧ c.isCompaction = true ∧
      ∀ e ∈ sessionEntries post, e.isCompaction = false := by
  induction file generalizing pre with
  | nil => cases h
  | cons x rest ih =>
    rw [lastCompaction] at h
    cases hrest : lastCompaction rest with
    | some found =>
      obtain ⟨pre', c', post'⟩ := found
      obtain ⟨rfl, rfl, rfl⟩ : x :: pre' = pre ∧ c' = c ∧ post' = post := by
        simpa [hrest] using h
      obtain ⟨rfl, hc, hpost⟩ := ih hrest
      exact ⟨rfl, hc, hpost⟩
    | none =>
      rw [hrest, Option.map_none, Option.none_or] at h
      obtain ⟨e, he, heq⟩ := Option.map_eq_some_iff.mp h
      obtain ⟨rfl, rfl, rfl⟩ : [] = pre ∧ e = c ∧ rest = post := by simpa using heq
      obtain ⟨hx, hc⟩ := Option.filter_eq_some_iff.mp he
      cases x with
      | session header => cases hx
      | entry e' =>
        obtain rfl := Option.some.inj hx
        exact ⟨rfl, hc, lastCompaction_none hrest⟩

/-! ### The compaction of the migrated file -/

theorem storedEntryToContextMessages_unlinked (e : StoredEntry) :
    storedEntryToContextMessages e.unlinked = storedEntryToContextMessages e := by
  obtain ⟨id, parentId, timestamp, body⟩ := e
  cases body <;> rfl

theorem storedEntryToContextMessages_migrate (e : StoredEntry) :
    storedEntryToContextMessages (migrateEntryV2ToV3 e) =
      (storedEntryToContextMessages e).map renameHookMessage := by
  obtain ⟨id, parentId, timestamp, body⟩ := e
  cases body with
  | branchSummary fromId summary details fromHook =>
    by_cases h : summary = "" <;> simp [storedEntryToContextMessages, migrateEntryV2ToV3, h,
      renameHookMessage]
  | _ => rfl

/-- The messages of the entries of a list. -/
def messagesOf (entries : List StoredEntry) : List StoredMessage :=
  entries.flatMap storedEntryToContextMessages

theorem messagesOf_migrate (entries : List StoredEntry) :
    messagesOf (entries.map migrateEntryV2ToV3) = (messagesOf entries).map renameHookMessage := by
  unfold messagesOf
  rw [List.flatMap_map, List.map_flatMap]
  exact List.flatMap_congr fun e _ => storedEntryToContextMessages_migrate e

theorem messagesOf_contents (l : List FileEntry) :
    messagesOf (sessionEntries l) =
      (contents l).flatMap fun c => (c.map storedEntryToContextMessages).getD [] := by
  induction l with
  | nil => rfl
  | cons x l ih =>
    cases x with
    | session header => exact ih
    | entry e =>
      show storedEntryToContextMessages e ++ messagesOf (sessionEntries l) = _
      rw [ih, contents_entry, List.flatMap_cons, Option.map_some, Option.getD_some,
        storedEntryToContextMessages_unlinked]

theorem storedCompactionOf_none {entries : List StoredEntry} :
    lastMatch storedCompactionOf entries = none ↔ ∀ e ∈ entries, e.isCompaction = false := by
  rw [lastMatch_none_iff]
  refine forall₂_congr fun e _ => ?_
  obtain ⟨id, parentId, timestamp, body⟩ := e
  cases body <;> simp [storedCompactionOf, StoredEntry.isCompaction]

theorem storedCompactionOf_some {e : StoredEntry} (h : e.isCompaction = true) :
    storedCompactionOf e = some (e, e.firstKeptEntryId) := by
  obtain ⟨id, parentId, timestamp, body⟩ := e
  cases body with
  | compaction => rfl
  | _ => cases h

theorem storedContextEntries_split {pre post : List StoredEntry}
    (hn : ((pre ++ c :: post).map StoredEntry.id).Nodup) (hc : c.isCompaction = true)
    (hpost : ∀ e ∈ post, e.isCompaction = false) :
    storedContextEntries (pre ++ c :: post) =
      c :: pre.dropWhile (fun e => e.id ≠ c.firstKeptEntryId) ++ post := by
  have hlast : lastMatch storedCompactionOf (pre ++ c :: post) = some (c, c.firstKeptEntryId) :=
    lastMatch_eq_of_split (storedCompactionOf_some hc)
      (lastMatch_none_iff.mp (storedCompactionOf_none.mpr hpost))
  have hidx := findIdx?_key hn
  unfold storedContextEntries
  rw [hlast]
  simp only [hidx]
  simp

theorem sessionEntries_append (l r : List FileEntry) :
    sessionEntries (l ++ r) = sessionEntries l ++ sessionEntries r :=
  List.filterMap_append

theorem fileEntryAt_some {entries : List FileEntry} {j : Int} {x : FileEntry}
    (h : fileEntryAt entries j = some x) : 0 ≤ j ∧ entries[j.toNat]? = some x := by
  unfold fileEntryAt at h
  split at h
  · exact ⟨by assumption, h⟩
  · cases h

theorem fileEntryAt_append (l r : List FileEntry) (j : Int) :
    fileEntryAt (l ++ r) j = (fileEntryAt l j).or (fileEntryAt r (j - l.length)) := by
  unfold fileEntryAt
  by_cases hj : 0 ≤ j
  · rw [if_pos hj, if_pos hj]
    by_cases hlt : j.toNat < l.length
    · rw [List.getElem?_append_left hlt, List.getElem?_eq_getElem hlt]
      rfl
    · have hle : 0 ≤ j - l.length := by omega
      have hsub : (j - l.length).toNat = j.toNat - l.length := by omega
      rw [List.getElem?_append_right (by omega),
        List.getElem?_eq_none (by omega : l.length ≤ j.toNat),
        if_pos hle, hsub]
      rfl
  · have hlt : ¬ 0 ≤ j - l.length := by omega
    rw [if_neg hj, if_neg hj, if_neg hlt]
    rfl

/-- The id an index becomes, where the compaction has none before. -/
def targetId : Option FileEntry → Option String
  | some (.entry target) => target.id
  | _ => none

theorem migrateEntryV1ToV2_firstKept (done rest : List FileEntry) (id : String)
    (prevId : Option String) (hc : c.isCompaction = true) (hraw : c.firstKeptEntryId = none) :
    (migrateEntryV1ToV2 done rest id prevId c).firstKeptEntryId =
      targetId (c.firstKeptEntryIndex.bind
        (fileEntryAt (done ++ .entry { c with id := some id, parentId := prevId } :: rest))) := by
  obtain ⟨cid, cparent, timestamp, body⟩ := c
  cases body with
  | compaction summary firstKeptEntryId firstKeptEntryIndex tokensBefore details fromHook =>
    obtain rfl : firstKeptEntryId = none := hraw
    cases firstKeptEntryIndex with
    | none => rfl
    | some j =>
      show (match fileEntryAt _ j with
        | some (.entry target) => target.id
        | _ => none) = targetId (fileEntryAt _ j)
      unfold targetId
      rfl
  | _ => cases hc

theorem dropWhile_firstKept {done rest : List FileEntry} {id : String} {prevId : Option String}
    {c : StoredEntry} (hc : c.isCompaction = true) (hraw : c.firstKeptEntryId = none)
    (hrest : ∀ e ∈ sessionEntries rest, e.id = none)
    (hn : ((sessionEntries done).map StoredEntry.id).Nodup)
    (hid : ∀ e ∈ sessionEntries done, e.id ≠ none ∧ e.id ≠ some id) :
    (sessionEntries done).dropWhile
        (fun e => e.id ≠ (migrateEntryV1ToV2 done rest id prevId c).firstKeptEntryId) =
      keptByIndex done c.firstKeptEntryIndex := by
  have hnone : ∀ {fk : Option String}, (∀ e ∈ sessionEntries done, e.id ≠ fk) →
      (sessionEntries done).dropWhile (fun e => e.id ≠ fk) = [] := by
    intro fk h
    rw [List.dropWhile_eq_nil_iff]
    intro e he
    simpa using h e he
  rw [migrateEntryV1ToV2_firstKept done rest id prevId hc hraw]
  cases c.firstKeptEntryIndex with
  | none => exact hnone fun e he => (hid e he).1
  | some j =>
    rw [Option.bind_some, fileEntryAt_append, keptByIndex]
    cases hat : fileEntryAt done j with
    | some x =>
      obtain ⟨-, hx⟩ := fileEntryAt_some hat
      cases x with
      | session header => exact hnone fun e he => (hid e he).1
      | entry target =>
        obtain ⟨hsplit, hlen⟩ := split_at hx
        have hdrop : done.drop j.toNat = .entry target :: done.drop (j.toNat + 1) := by
          conv_lhs => rw [hsplit]
          rw [List.drop_append_of_le_length (by omega), List.drop_eq_nil_of_le (by omega)]
          rfl
        have hdone : sessionEntries done = sessionEntries (done.take j.toNat) ++
            target :: sessionEntries (done.drop (j.toNat + 1)) := by
          conv_lhs => rw [hsplit]
          rw [sessionEntries_append, sessionEntries_entry]
        show (sessionEntries done).dropWhile (fun e => e.id ≠ target.id) =
          sessionEntries (done.drop j.toNat)
        rw [hdrop, hdone, List.dropWhile_append_of_pos]
        · simp
        · intro e he
          rw [hdone, List.map_append, List.map_cons, List.nodup_append] at hn
          simpa using hn.2.2 e.id (List.mem_map.mpr ⟨e, he, rfl⟩) target.id (by simp)
    | none =>
      -- the compaction itself, or an entry behind it that has no id yet
      have hbehind : targetId (fileEntryAt
          (.entry { c with id := some id, parentId := prevId } :: rest) (j - done.length)) = none ∨
          targetId (fileEntryAt
          (.entry { c with id := some id, parentId := prevId } :: rest) (j - done.length)) =
            some id := by
        cases htarget : fileEntryAt (.entry { c with id := some id, parentId := prevId } :: rest)
            (j - done.length) with
        | none => exact .inl rfl
        | some x =>
          obtain ⟨-, hget⟩ := fileEntryAt_some htarget
          cases x with
          | session header => exact .inl rfl
          | entry target =>
            rcases List.mem_cons.mp (List.mem_of_getElem? hget) with heq | hmem
            · obtain rfl := FileEntry.entry.inj heq
              exact .inr rfl
            · exact .inl (hrest target (List.mem_filterMap.mpr ⟨_, hmem, rfl⟩))
      rw [Option.none_or]
      apply hnone
      intro e he
      rcases hbehind with h | h <;> rw [h]
      · exact (hid e he).1
      · exact (hid e he).2

theorem messagesOf_congr (h : contents l = contents l') :
    messagesOf (sessionEntries l) = messagesOf (sessionEntries l') := by
  rw [messagesOf_contents, messagesOf_contents, h]

theorem contents_drop (l : List FileEntry) (n : Nat) :
    contents (l.drop n) = (contents l).drop n := by
  unfold contents
  rw [List.map_drop]

theorem fileEntryAt_contents (l : List FileEntry) (j : Int) :
    (fileEntryAt l j).map (fun x => x.entry?.map StoredEntry.unlinked) =
      if 0 ≤ j then (contents l)[j.toNat]? else none := by
  unfold fileEntryAt contents
  split
  · rw [List.getElem?_map]
  · rfl

theorem keptByIndex_congr (h : contents l = contents l') (index : Option Int) :
    messagesOf (keptByIndex l index) = messagesOf (keptByIndex l' index) := by
  cases index with
  | none => rfl
  | some j =>
    have hat : (fileEntryAt l j).map (fun x => x.entry?.map StoredEntry.unlinked) =
        (fileEntryAt l' j).map fun x => x.entry?.map StoredEntry.unlinked := by
      rw [fileEntryAt_contents, fileEntryAt_contents, h]
    have hdrop : messagesOf (sessionEntries (l.drop j.toNat)) =
        messagesOf (sessionEntries (l'.drop j.toNat)) :=
      messagesOf_congr (by rw [contents_drop, contents_drop, h])
    simp only [keptByIndex]
    cases hl : fileEntryAt l j with
    | none =>
      rw [hl] at hat
      rw [Option.map_eq_none_iff.mp hat.symm]
    | some x =>
      rw [hl] at hat
      obtain ⟨x', hx', heq⟩ := Option.map_eq_some_iff.mp hat.symm
      rw [hx']
      cases x <;> cases x'
      · rfl
      · cases heq
      · cases heq
      · exact hdrop

theorem isCompaction_unlinked (e : StoredEntry) : e.unlinked.isCompaction = e.isCompaction := by
  obtain ⟨id, parentId, timestamp, body⟩ := e
  cases body <;> rfl

theorem noCompaction_congr (h : contents l = contents l')
    (hl : ∀ e ∈ sessionEntries l, e.isCompaction = false) :
    ∀ e ∈ sessionEntries l', e.isCompaction = false := by
  have hcontents : ∀ m : List FileEntry,
      (sessionEntries m).map StoredEntry.isCompaction =
        (contents m).filterMap (Option.map StoredEntry.isCompaction) := by
    intro m
    induction m with
    | nil => rfl
    | cons x m ih =>
      cases x with
      | session header => exact ih
      | entry e => simpa [isCompaction_unlinked] using ih
  have hmaps := hcontents l
  rw [h, ← hcontents l'] at hmaps
  intro e he
  have hmem : e.isCompaction ∈ (sessionEntries l).map StoredEntry.isCompaction := by
    rw [hmaps]
    exact List.mem_map.mpr ⟨e, he, rfl⟩
  obtain ⟨a, ha, hae⟩ := List.mem_map.mp hmem
  rw [← hae, hl a ha]

/-! ### The migration of version 2 and the readings -/

theorem index_migrate (entries : List StoredEntry) (k : Option String) :
    StoredEntry.index (entries.map migrateEntryV2ToV3) k =
      (StoredEntry.index entries k).map migrateEntryV2ToV3 := by
  have hid : ∀ e, (migrateEntryV2ToV3 e).id = id e.id := migrateEntryV2ToV3_id
  exact findLast_map hid Function.injective_id entries k

theorem buildStoredPath_migrate (entries : List StoredEntry) :
    buildStoredPath (entries.map migrateEntryV2ToV3) .undefined =
      (buildStoredPath entries .undefined).map (List.map migrateEntryV2ToV3) := by
  have hwalk : ∀ n e, walk (StoredEntry.index (entries.map migrateEntryV2ToV3))
      StoredEntry.parentKey n (migrateEntryV2ToV3 e) =
        (walk (StoredEntry.index entries) StoredEntry.parentKey n e).map
          (List.map migrateEntryV2ToV3) := by
    apply walk_map
    intro e
    have hparent : (migrateEntryV2ToV3 e).parentKey = e.parentKey := by
      simp [StoredEntry.parentKey]
    rw [hparent]
    cases e.parentKey with
    | none => rfl
    | some k => exact index_migrate entries k
  unfold buildStoredPath
  simp only [List.getLast?_map, List.length_map]
  cases entries.getLast? with
  | none => rfl
  | some last => simp [hwalk, Function.comp_def]

theorem storedContextEntries_migrate (path : List StoredEntry) :
    storedContextEntries (path.map migrateEntryV2ToV3) =
      (storedContextEntries path).map migrateEntryV2ToV3 := by
  have hcompaction : ∀ e, storedCompactionOf (migrateEntryV2ToV3 e) =
      (storedCompactionOf e).map fun c => (migrateEntryV2ToV3 c.1, c.2) := by
    intro e
    obtain ⟨id, parentId, timestamp, body⟩ := e
    cases body <;> rfl
  unfold storedContextEntries
  rw [lastMatch_map hcompaction]
  cases lastMatch storedCompactionOf path with
  | none => rfl
  | some c =>
    obtain ⟨compaction, firstKeptEntryId⟩ := c
    have hid : (fun e : StoredEntry => e.id == (migrateEntryV2ToV3 compaction).id) ∘
        migrateEntryV2ToV3 = fun e => e.id == compaction.id := by
      funext e
      simp
    simp only [Option.map_some, List.findIdx?_map, hid]
    cases path.findIdx? (fun e => e.id == compaction.id) with
    | none => rfl
    | some i =>
      have hkept : (fun e : StoredEntry => decide (e.id ≠ firstKeptEntryId)) ∘
          migrateEntryV2ToV3 = fun e => decide (e.id ≠ firstKeptEntryId) := by
        funext e
        simp
      simp only [← List.map_take, List.dropWhile_map, hkept, List.map_append, List.map_cons,
        List.map_drop, List.cons_append]

theorem storedContextMessages_migrate (entries : List StoredEntry) :
    storedContextMessages (entries.map migrateEntryV2ToV3) .undefined =
      (storedContextMessages entries .undefined).map (List.map renameHookMessage) := by
  unfold storedContextMessages
  rw [buildStoredPath_migrate, Option.map_map, Option.map_map]
  congr 1
  funext path
  show messagesOf (storedContextEntries (path.map migrateEntryV2ToV3)) =
    (messagesOf (storedContextEntries path)).map renameHookMessage
  rw [storedContextEntries_migrate, messagesOf_migrate]

theorem messagesOf_storedContextEntries_v1 (randomUUID : Nat → Draws)
    (hraw : ∀ e ∈ sessionEntries file, e.id = none ∧ e.firstKeptEntryId = none)
    (hn : ((sessionEntries (migrateV1ToV2 randomUUID file)).map StoredEntry.id).Nodup)
    (hids : ∀ e ∈ sessionEntries (migrateV1ToV2 randomUUID file), e.id ≠ none)
    (hcontents : contents (migrateV1ToV2 randomUUID file) = contents file) :
    messagesOf (storedContextEntries (sessionEntries (migrateV1ToV2 randomUUID file))) =
      messagesOf (v1ContextEntries file) := by
  unfold v1ContextEntries
  cases hlast : lastCompaction file with
  | none =>
    have hnone := noCompaction_congr hcontents.symm (lastCompaction_none hlast)
    unfold storedContextEntries
    rw [storedCompactionOf_none.mpr hnone]
    exact messagesOf_congr hcontents
  | some found =>
    obtain ⟨pre, c, post⟩ := found
    obtain ⟨rfl, hc, hpost⟩ := lastCompaction_some hlast
    obtain ⟨done, prevId, done', hsplit, hpre, hpost'⟩ := migrateV1ToV2_split randomUUID pre post c
    rw [hsplit, sessionEntries_append, sessionEntries_entry] at hn hids ⊢
    rw [sessionEntries_append, sessionEntries_entry] at hraw
    have hc' : (migrateEntryV1ToV2 done post (drawnId randomUUID pre.length) prevId
        c).isCompaction = true := by
      rw [← isCompaction_unlinked, migrateEntryV1ToV2_unlinked, isCompaction_unlinked, hc]
    have hdone : ((sessionEntries done).map StoredEntry.id).Nodup := by
      rw [List.map_append] at hn
      exact hn.of_append_left
    have hkept := @dropWhile_firstKept _ post (drawnId randomUUID pre.length) prevId _ hc (hraw c (by simp)).2 (fun e he => (hraw e (by simp [he])).1) hdone
      (fun e he => ⟨hids e (by simp [he]), by
        rw [List.map_append, List.map_cons, List.nodup_append] at hn
        simpa using hn.2.2 e.id (List.mem_map.mpr ⟨e, he, rfl⟩) _ (List.mem_cons_self ..)⟩)
    rw [storedContextEntries_split hn hc' (noCompaction_congr hpost'.symm hpost), hkept]
    unfold messagesOf
    rw [List.flatMap_append, List.flatMap_cons, List.flatMap_append, List.flatMap_cons,
      ← storedEntryToContextMessages_unlinked, migrateEntryV1ToV2_unlinked,
      storedEntryToContextMessages_unlinked]
    congr 1
    · congr 1
      exact keptByIndex_congr hpre _
    · exact messagesOf_congr hpost'

/-- What a file of version 1 shows once it is open. -/
theorem openedMessages_v1 (randomUUID : Nat → Draws) (hversion : sessionVersion file < 2)
    (hraw : ∀ e ∈ sessionEntries file, e.id = none ∧ e.firstKeptEntryId = none) :
    (buildIndex (migrateToCurrentVersion randomUUID file).1).contextMessages =
      if (drawnIds randomUUID 0 file).Nodup then
        some ((messagesOf (v1ContextEntries file)).map renameHookMessage)
      else none := by
  obtain ⟨out, hout, hcontents, hids, hchain⟩ := migrateV1ToV2From_spec randomUUID [] none file
  have hmigrated : migrateV1ToV2 randomUUID file = out := by
    rw [migrateV1ToV2, hout, List.nil_append]
  rw [contextMessages_buildIndex, migrateToCurrentVersion_v1 randomUUID hversion, hmigrated,
    sessionEntries_migrateV2ToV3, storedContextMessages_migrate]
  by_cases hn : (drawnIds randomUUID 0 file).Nodup
  · rw [if_pos hn]
    unfold storedContextMessages
    rw [buildStoredPath_chained hids hn (drawnIds_ne _ _ _) hchain]
    show some ((messagesOf (storedContextEntries (sessionEntries out))).map renameHookMessage) = _
    have hn' : ((sessionEntries out).map StoredEntry.id).Nodup := by
      rw [hids]
      exact hn.map fun _ _ => Option.some.inj
    have hsome : ∀ e ∈ sessionEntries out, e.id ≠ none := by
      intro e he hnone
      have hmem : e.id ∈ (drawnIds randomUUID 0 file).map some :=
        hids ▸ List.mem_map.mpr ⟨e, he, rfl⟩
      simp [hnone] at hmem
    rw [← hmigrated] at hn' hsome hcontents ⊢
    rw [messagesOf_storedContextEntries_v1 randomUUID hraw hn' hsome hcontents]
  · rw [if_neg hn]
    unfold storedContextMessages
    rw [buildStoredPath_repeated hids hn (drawnIds_ne _ _ _) hchain]
    rfl

theorem storedContextMessages_unlinked {es : List StoredEntry} {last : StoredEntry}
    (hlast : es.getLast? = some last) (hparent : last.parentId = none) :
    storedContextMessages es .undefined = some (storedEntryToContextMessages last) := by
  have hpos : ∃ n, es.length = n + 1 := by
    cases es with
    | nil => cases hlast
    | cons a es => exact ⟨es.length, rfl⟩
  obtain ⟨n, hn⟩ := hpos
  have hpath : buildStoredPath es .undefined = some [last] := by
    unfold buildStoredPath
    simp only [hlast, hn, walk]
    simp [StoredEntry.parentKey, hparent]
  have hkept : storedContextEntries [last] = [last] := by
    unfold storedContextEntries
    rw [lastMatch_singleton]
    cases hc : storedCompactionOf last with
    | none => rfl
    | some c =>
      have hc1 : c.1 = last := by
        obtain ⟨id, parentId, timestamp, body⟩ := last
        cases body <;> cases hc
        rfl
      simp [hc1, List.findIdx?_cons]
  unfold storedContextMessages
  rw [hpath, Option.map_some, hkept]
  simp

/-! ## Main result -/

/-- A file that begins with a header; the entries of version 1 have no ids. -/
structure ValidSession (file : List FileEntry) : Prop where
  header : ∃ header rest, file = .session header :: rest
  v1 : sessionVersion file < 2 → ∀ e ∈ sessionEntries file,
    e.id = none ∧ e.parentId = none ∧ e.firstKeptEntryId = none

/-- `message.role === "hookMessage"` -/
def StoredMessage.isHookMessage : StoredMessage → Bool
  | .hookMessage _ => true
  | .current _ => false

/-- When the copied entries show what the migrated ones show. -/
structure ForkKeeps (randomUUID : Nat → Draws) (source : List FileEntry) : Prop where
  /-- version 2: no message of the context has the old role, -/
  v2 : sessionVersion source = 2 → ∀ messages,
    storedContextMessages (sessionEntries source) .undefined = some messages →
    ∀ m ∈ messages, m.isHookMessage = false
  /-- version 1: only the last entry gives the context a message, not of the old role, and
  the migration draws distinct ids. -/
  v1 : sessionVersion source < 2 → ∀ last, (sessionEntries source).getLast? = some last →
    (drawnIds randomUUID 0 source).Nodup ∧
    (messagesOf (v1ContextEntries source)).length = (storedEntryToContextMessages last).length ∧
    ∀ m ∈ storedEntryToContextMessages last, m.isHookMessage = false

theorem map_renameHookMessage_eq {messages : List StoredMessage} :
    messages.map renameHookMessage = messages ↔ ∀ m ∈ messages, m.isHookMessage = false := by
  have hone : ∀ m : StoredMessage, renameHookMessage m = id m ↔ m.isHookMessage = false := by
    intro m
    cases m <;> simp [renameHookMessage, StoredMessage.isHookMessage]
  calc messages.map renameHookMessage = messages
      ↔ messages.map renameHookMessage = messages.map id := by rw [List.map_id]
    _ ↔ ∀ m ∈ messages, renameHookMessage m = id m := List.map_inj_left
    _ ↔ ∀ m ∈ messages, m.isHookMessage = false := forall₂_congr fun m _ => hone m

theorem last_mem_v1ContextEntries {source : List FileEntry} {last : StoredEntry}
    (h : (sessionEntries source).getLast? = some last) : last ∈ v1ContextEntries source := by
  unfold v1ContextEntries
  cases hlast : lastCompaction source with
  | none => exact List.mem_of_getLast? h
  | some found =>
    obtain ⟨pre, c, post⟩ := found
    obtain ⟨rfl, -, -⟩ := lastCompaction_some hlast
    rw [sessionEntries_append, sessionEntries_entry, List.getLast?_append, List.getLast?_cons] at h
    cases hpost : (sessionEntries post).getLast? with
    | none =>
      rw [hpost] at h
      obtain rfl := Option.some.inj h
      exact List.mem_append_left _ (List.mem_cons_self ..)
    | some e =>
      rw [hpost] at h
      obtain rfl := Option.some.inj h
      exact List.mem_append_right _ (List.mem_of_getLast? hpost)

theorem messagesOf_sublist {entries : List StoredEntry} {e : StoredEntry} (h : e ∈ entries) :
    (storedEntryToContextMessages e).Sublist (messagesOf entries) := by
  obtain ⟨pre, post, rfl⟩ := List.append_of_mem h
  unfold messagesOf
  rw [List.flatMap_append, List.flatMap_cons]
  exact (List.sublist_append_left _ _).trans (List.sublist_append_right _ _)

theorem openSession_messages {source : List FileEntry} (hvalid : ValidSession source)
    (randomUUID : Nat → Draws) (path : String) :
    (openSession randomUUID path source).map OpenSession.contextMessages =
      .ok (buildIndex (migrateToCurrentVersion randomUUID source).1).contextMessages := by
  obtain ⟨header, rest, rfl⟩ := hvalid.header
  rfl

theorem forkFrom_messages {source : List FileEntry} (hvalid : ValidSession source)
    (env : ForkEnv) :
    (forkFrom env source).map OpenSession.contextMessages =
      .ok (storedContextMessages (sessionEntries source) .undefined) := by
  obtain ⟨header, rest, rfl⟩ := hvalid.header
  have hentries : ∀ l : List StoredEntry, sessionEntries (l.map .entry) = l := by
    intro l
    induction l with
    | nil => rfl
    | cons e l ih => exact congrArg (e :: ·) ih
  show Except.ok (buildIndex (forkedFile env (.session header :: rest))).contextMessages = _
  rw [contextMessages_buildIndex]
  show Except.ok (storedContextMessages (sessionEntries (List.map _ _)) _) = _
  rw [hentries]

theorem migrateToCurrentVersion_v2 {entries : List FileEntry} (randomUUID : Nat → Draws)
    (hversion : sessionVersion entries = 2) :
    (migrateToCurrentVersion randomUUID entries).1 = migrateV2ToV3 entries := by
  unfold migrateToCurrentVersion currentSessionVersion
  rw [hversion]
  rfl

theorem migrateToCurrentVersion_v3 {entries : List FileEntry} (randomUUID : Nat → Draws)
    (hversion : 3 ≤ sessionVersion entries) :
    (migrateToCurrentVersion randomUUID entries).1 = entries := by
  unfold migrateToCurrentVersion currentSessionVersion
  simp [hversion]

theorem drawnIds_nil {source : List FileEntry} (h : sessionEntries source = [])
    (randomUUID : Nat → Draws) (i : Nat) : drawnIds randomUUID i source = [] := by
  induction source generalizing i with
  | nil => rfl
  | cons x source ih =>
    cases x with
    | session header => exact ih h (i + 1)
    | entry e => cases h

theorem v1ContextEntries_nil {source : List FileEntry} (h : sessionEntries source = []) :
    v1ContextEntries source = [] := by
  unfold v1ContextEntries
  cases hlast : lastCompaction source with
  | none => exact h
  | some found =>
    obtain ⟨pre, c, post⟩ := found
    obtain ⟨rfl, -, -⟩ := lastCompaction_some hlast
    rw [sessionEntries_append, sessionEntries_entry] at h
    simp at h

theorem forkKeeps_v1_iff {randomUUID : Nat → Draws} {source : List FileEntry}
    {last : StoredEntry} (hlast : (sessionEntries source).getLast? = some last) :
    some (storedEntryToContextMessages last) =
        (if (drawnIds randomUUID 0 source).Nodup then
          some ((messagesOf (v1ContextEntries source)).map renameHookMessage)
        else none) ↔
      (drawnIds randomUUID 0 source).Nodup ∧
        (messagesOf (v1ContextEntries source)).length = (storedEntryToContextMessages last).length ∧
        ∀ m ∈ storedEntryToContextMessages last, m.isHookMessage = false := by
  have hsub := messagesOf_sublist (last_mem_v1ContextEntries hlast)
  by_cases hn : (drawnIds randomUUID 0 source).Nodup
  · rw [if_pos hn, Option.some.injEq, and_iff_right hn, ← map_renameHookMessage_eq]
    constructor
    · intro h
      have hlen : (messagesOf (v1ContextEntries source)).length =
          (storedEntryToContextMessages last).length := by
        rw [h, List.length_map]
      refine ⟨hlen, ?_⟩
      have heq := hsub.eq_of_length hlen.symm
      rw [← heq] at h
      exact h.symm
    · rintro ⟨hlen, hrename⟩
      rw [← hsub.eq_of_length hlen.symm]
      exact hrename.symm
  · rw [if_neg hn]
    constructor
    · intro h
      cases h
    · rintro ⟨h, -⟩
      exact absurd h hn

/-- A fork shows the messages of its source exactly when it needs no migration to. -/
theorem forkFrom_context_iff (env : ForkEnv) (randomUUID : Nat → Draws) (path : String)
    (source : List FileEntry) (hvalid : ValidSession source) :
    (forkFrom env source).map OpenSession.contextMessages =
        (openSession randomUUID path source).map OpenSession.contextMessages ↔
      ForkKeeps randomUUID source := by
  rw [forkFrom_messages hvalid, openSession_messages hvalid, Except.ok.injEq]
  rcases (by omega : 3 ≤ sessionVersion source ∨ sessionVersion source = 2 ∨
    sessionVersion source < 2) with h | h | h
  · -- nothing to migrate
    rw [migrateToCurrentVersion_v3 randomUUID h, contextMessages_buildIndex]
    exact iff_of_true rfl ⟨fun h2 => by omega, fun h1 => by omega⟩
  · rw [migrateToCurrentVersion_v2 randomUUID h, contextMessages_buildIndex,
      sessionEntries_migrateV2ToV3, storedContextMessages_migrate]
    have hiff : storedContextMessages (sessionEntries source) .undefined =
          (storedContextMessages (sessionEntries source) .undefined).map
            (List.map renameHookMessage) ↔
        ∀ messages, storedContextMessages (sessionEntries source) .undefined = some messages →
          ∀ m ∈ messages, m.isHookMessage = false := by
      cases storedContextMessages (sessionEntries source) .undefined with
      | none => simp
      | some messages =>
        rw [Option.map_some, Option.some.injEq, eq_comm, map_renameHookMessage_eq]
        simp
    rw [hiff]
    exact ⟨fun h2 => ⟨fun _ => h2, fun h1 => by omega⟩, fun hk => hk.v2 h⟩
  · have hraw := hvalid.v1 h
    rw [openedMessages_v1 randomUUID h fun e he => ⟨(hraw e he).1, (hraw e he).2.2⟩]
    cases hlast : (sessionEntries source).getLast? with
    | none =>
      have hnil := List.getLast?_eq_none_iff.mp hlast
      rw [drawnIds_nil hnil, v1ContextEntries_nil hnil, hnil]
      refine iff_of_true rfl ⟨fun h2 => by omega, fun _ last hlast' => ?_⟩
      rw [hlast] at hlast'
      cases hlast'
    | some last =>
      have hparent := (hraw last (List.mem_of_getLast? hlast)).2.1
      rw [storedContextMessages_unlinked hlast hparent, forkKeeps_v1_iff hlast]
      constructor
      · intro hkeeps
        refine ⟨fun h2 => by omega, fun _ last' hlast' => ?_⟩
        rw [hlast] at hlast'
        obtain rfl := Option.some.inj hlast'
        exact hkeeps
      · intro hk
        exact hk.v1 h last hlast


/-! ## A file of version 1 with two messages -/

namespace ForkExample

open MigrationExample

def env : ForkEnv where
  newSessionId := "fork"
  timestamp := 0
  targetCwd := "/"
  sourcePath := "/s.jsonl"
  newSessionFile := "/fork.jsonl"
  randomUUID := draws 'a' 'b'

theorem valid_entries : ValidSession entries where
  header := ⟨_, _, rfl⟩
  v1 := fun _ => by decide

end ForkExample

open MigrationExample ForkExample in
/-- With one message the fork shows what the source shows. -/
theorem forkFrom_context_example :
    ValidSession [header, user "one"] ∧
      (forkFrom env [header, user "one"]).map OpenSession.contextMessages =
        (openSession (draws 'a' 'b') "/s.jsonl" [header, user "one"]).map
          OpenSession.contextMessages := by
  have hvalid : ValidSession [header, user "one"] := ⟨⟨_, _, rfl⟩, fun _ => by decide⟩
  have hkeeps : ForkKeeps (draws 'a' 'b') [header, user "one"] :=
    ⟨fun h => absurd h (by decide), fun _ last h => by
      obtain rfl := Option.some.inj h
      decide⟩
  exact ⟨hvalid, (forkFrom_context_iff env (draws 'a' 'b') "/s.jsonl" _ hvalid).mpr hkeeps⟩

open MigrationExample ForkExample in
/-- With two the fork shows the second alone. -/
theorem fork_drops_messages :
    ¬ ∀ (env : ForkEnv) (randomUUID : Nat → Draws) (path : String) (source : List FileEntry),
      ValidSession source →
        (forkFrom env source).map OpenSession.contextMessages =
          (openSession randomUUID path source).map OpenSession.contextMessages := by
  intro h
  have heq := h env (draws 'a' 'b') "/s.jsonl" entries valid_entries
  exact absurd heq (by decide)

end PieLab

import Mathlib.Data.List.TakeWhile
import PieLab.Compaction.Prepare
import PieLab.Session.Manager

/-
  Branched sessions

  `createBranchedSession` copies the path of one entry into a session of its
  own. Label entries are left out of the copy and the entries behind them are
  linked to the entry in front; the labels still set on the path are written
  again behind it.

  A compaction names the entry it keeps from by id. The cut point of a
  compaction may stand on a label (`findCutPoint` moves the cut back over
  entries that are no messages), and then the copy has no entry of that id.

  What is proved:
    1. `createBranchedSession_path` — the new session is one path: the old one
       without its labels, then the labels still set.
    2. `contextOfPath_erase`, `contextOfPath_append_labels` — parents and trailing
       labels are no part of the context.
    3. `contextOfPath_withoutLabels_iff` — dropping the labels of a path keeps its
       context exactly when the latest compaction does not keep from one of them.
    4. `branchedSession_context_iff` — so for every reachable session and every
       entry the new session has the old context exactly in that case.
    5. `branchedSession_loses` — a session whose only compaction keeps from a
       label.
-/

namespace PieLab

open Lib

/-! ## `createBranchedSession` -/

structure LabelToWrite where
  targetId : String
  label : String
  timestamp : Int
  deriving DecidableEq, Repr

/-- The path without its labels, every entry the child of the one in front. -/
def pathWithoutLabels : Option String → List SessionEntry → List SessionEntry
  | _, [] => []
  | pathParentId, entry :: rest =>
    if entry.isLabel then pathWithoutLabels pathParentId rest
    else { entry with parentId := pathParentId } :: pathWithoutLabels (some entry.id) rest

namespace SessionManager

/-- The labels still set on the entries of a path, in the order of the map. -/
def labelsToWrite (s : SessionManager) (pathEntryIds : List String) : List LabelToWrite :=
  s.labelsById.entries.filterMap fun (targetId, label) =>
    if targetId ∈ pathEntryIds then
      -- a label and its timestamp are set together
      some { targetId, label, timestamp := (s.labelTimestampsById.get? targetId).getD 0 }
    else none

/-- What `_buildIndex` does with one entry. -/
def indexEntry (s : SessionManager) (entry : SessionEntry) : SessionManager :=
  let s := { s with
    byId := s.byId.set entry.id entry
    leafId := some entry.id
    sessionName := nameAfter entry s.sessionName }
  match entry.body with
  | .label targetId label => s.setLabel targetId label entry.timestamp
  | _ => s

def buildIndex (s : SessionManager) : SessionManager :=
  s.entries.foldl indexEntry
    { s with
      byId := .empty
      labelsById := .empty
      labelTimestampsById := .empty
      leafId := none
      sessionName := none }

end SessionManager

/-- The label entries behind the path, each the child of the one in front. -/
def labelEntries (usedIds : List String) (parentId : Option String) (random : Nat → Draws) :
    List LabelToWrite → List SessionEntry
  | [] => []
  | write :: rest =>
    let labelEntry : SessionEntry :=
      { id := generateId (fun id => decide (id ∈ usedIds)) (random 0)
        parentId
        timestamp := write.timestamp
        body := .label write.targetId (some write.label) }
    labelEntry :: labelEntries (usedIds ++ [labelEntry.id]) (some labelEntry.id)
      (fun n => random (n + 1)) rest

namespace SessionManager

/-- The entries of the new session. -/
def branchedEntries (s : SessionManager) (path : List SessionEntry) (random : Nat → Draws) :
    List SessionEntry :=
  let kept := pathWithoutLabels none path
  let pathEntryIds := kept.map SessionEntry.id
  let lastEntryId := (kept.getLast?.map SessionEntry.id).filter (· ≠ "")
  kept ++ labelEntries pathEntryIds lastEntryId random (s.labelsToWrite pathEntryIds)

/-- `none` is a walk that never ends. With and without persistence the entries are
the same; the header and the file are left out. -/
def createBranchedSession (s : SessionManager) (leafId : String) (random : Nat → Draws) :
    Option (Except String SessionManager) := do
  let path ← s.getBranch (some leafId)
  if path.isEmpty then return .error (notFound leafId)
  else
    let s := { s with entries := s.branchedEntries path random }
    return .ok { s.buildIndex with entriesRevision := s.entriesRevision + 1 }

end SessionManager

/-! ## The new session is one path -/

variable {s : SessionManager} {path : List SessionEntry} {e : SessionEntry}

section Index
open SessionManager

theorem setLabel_fields (s : SessionManager) (targetId : String) (label : Option String)
    (timestamp : Int) :
    (s.setLabel targetId label timestamp).entries = s.entries ∧
    (s.setLabel targetId label timestamp).byId = s.byId ∧
    (s.setLabel targetId label timestamp).leafId = s.leafId := by
  unfold SessionManager.setLabel
  cases label.filter (· ≠ "") <;> exact ⟨rfl, rfl, rfl⟩

theorem indexEntry_fields (s : SessionManager) (entry : SessionEntry) :
    (s.indexEntry entry).entries = s.entries ∧
    (s.indexEntry entry).byId = s.byId.set entry.id entry ∧
    (s.indexEntry entry).leafId = some entry.id := by
  unfold indexEntry
  split
  · exact setLabel_fields _ _ _ _
  · exact ⟨rfl, rfl, rfl⟩

theorem foldl_indexEntry_fields (l : List SessionEntry) (s : SessionManager)
    (done : List SessionEntry) (hindex : ∀ id, s.byId.get? id = findLast SessionEntry.id done id)
    (hleaf : s.leafId = done.getLast?.map SessionEntry.id) :
    (l.foldl indexEntry s).entries = s.entries ∧
    (∀ id, (l.foldl indexEntry s).byId.get? id = findLast SessionEntry.id (done ++ l) id) ∧
    (l.foldl indexEntry s).leafId = (done ++ l).getLast?.map SessionEntry.id := by
  induction l generalizing s done with
  | nil => simpa using ⟨hindex, hleaf⟩
  | cons entry l ih =>
    obtain ⟨he, hb, hl⟩ := indexEntry_fields s entry
    have hstep := ih (s.indexEntry entry) (done ++ [entry])
      (fun id => by rw [hb, OrderedMap.get?_set, findLast_concat, hindex id])
      (by rw [hl]; simp)
    simp only [List.append_assoc, List.singleton_append] at hstep
    exact ⟨hstep.1.trans he, hstep.2⟩

theorem buildIndex_fields (s : SessionManager) :
    s.buildIndex.entries = s.entries ∧
    (∀ id, s.buildIndex.byId.get? id = findLast SessionEntry.id s.entries id) ∧
    s.buildIndex.leafId = s.entries.getLast?.map SessionEntry.id :=
  foldl_indexEntry_fields s.entries _ [] (fun _ => rfl) rfl

theorem context_of_onePath (hpath : IsSessionPath s.entries) (hne : "" ∉ s.ids)
    (hindex : ∀ id, s.byId.get? id = findLast SessionEntry.id s.entries id)
    (hleaf : s.leafId = s.entries.getLast?.map SessionEntry.id) :
    s.context = some (contextOfPath s.entries) := by
  have hself := buildSessionContext_self hpath
  have hbyId : s.byId.get? = findLast SessionEntry.id s.entries := funext hindex
  have hcontext : s.context = buildSessionContext s.entries s.leafArg none := by
    unfold context buildSessionContext buildContextEntries buildSessionPath
    simp only [buildEntryIndex, hbyId]
  rw [hcontext]
  cases hlast : s.entries.getLast? with
  | none =>
    have hnil : s.entries = [] := List.getLast?_eq_none_iff.mp hlast
    have hnull : s.leafArg = .null := by unfold leafArg; rw [hleaf, hlast]; rfl
    rw [hnull, hnil]
    rfl
  | some last =>
    have hmem : last ∈ s.entries := List.mem_of_getLast? hlast
    have harg : s.leafArg = .id last.id := by unfold leafArg; rw [hleaf, hlast]; rfl
    have hidne : last.id ≠ "" := fun hempty => hne (List.mem_map.mpr ⟨last, hmem, hempty⟩)
    have hfind : findLast SessionEntry.id s.entries last.id = some last :=
      findLast_of_nodup hpath.nodup hmem
    -- the leaf is the last entry, where the walk without a leaf starts too
    have hsame : buildSessionPath s.entries (.id last.id) none =
        buildSessionPath s.entries .undefined none := by
      simp [buildSessionPath, buildEntryIndex, leafEntry, hidne, hfind, hlast]
    rw [harg, buildSessionContext_eq, hsame, ← buildSessionContext_eq, hself]

end Index

/-! ## Ids and links of the new path -/

theorem map_id_pathWithoutLabels (parentId : Option String) (path : List SessionEntry) :
    (pathWithoutLabels parentId path).map SessionEntry.id =
      (path.filter (fun e => !e.isLabel)).map SessionEntry.id := by
  induction path generalizing parentId with
  | nil => rfl
  | cons e path ih =>
    unfold pathWithoutLabels
    cases h : e.isLabel with
    | true => simpa [h] using ih parentId
    | false => simpa [h] using ih (some e.id)

/-- A list of entries that hangs below `parentId`: the first names it, and each
entry is the parent of the next. -/
def LinkedBelow : Option String → List SessionEntry → Prop
  | _, [] => True
  | parentId, e :: rest => e.parentId = parentId ∧ LinkedBelow (some e.id) rest

theorem linkedBelow_pathWithoutLabels (parentId : Option String) (path : List SessionEntry) :
    LinkedBelow parentId (pathWithoutLabels parentId path) := by
  induction path generalizing parentId with
  | nil => exact trivial
  | cons e path ih =>
    unfold pathWithoutLabels
    split
    · exact ih parentId
    · exact ⟨rfl, ih (some e.id)⟩

theorem linkedBelow_labelEntries (usedIds : List String) (parentId : Option String)
    (random : Nat → Draws) (writes : List LabelToWrite) :
    LinkedBelow parentId (labelEntries usedIds parentId random writes) := by
  induction writes generalizing usedIds parentId random with
  | nil => exact trivial
  | cons write rest ih => exact ⟨rfl, ih _ _ _⟩

theorem LinkedBelow.append {parentId : Option String} {l r : List SessionEntry}
    (hl : LinkedBelow parentId l)
    (hr : LinkedBelow (((l.getLast?.map SessionEntry.id)).or parentId) r) :
    LinkedBelow parentId (l ++ r) := by
  induction l generalizing parentId with
  | nil => simpa using hr
  | cons e l ih =>
    refine ⟨hl.1, ih hl.2 ?_⟩
    cases hlast : l.getLast? with
    | none => simpa [List.getLast?_cons, hlast] using hr
    | some x => simpa [List.getLast?_cons, hlast] using hr

theorem LinkedBelow.isChain {parentId : Option String} {l : List SessionEntry}
    (h : LinkedBelow parentId l) (hne : "" ∉ l.map SessionEntry.id) :
    l.IsChain (fun a b => b.parentKey = some a.id) := by
  induction l generalizing parentId with
  | nil => exact .nil
  | cons e l ih =>
    rw [List.map_cons, List.mem_cons, not_or] at hne
    have hrest := ih h.2 hne.2
    cases l with
    | nil => exact .singleton e
    | cons f l =>
      have hparent : f.parentId = some e.id := h.2.1
      have hkey : f.parentKey = some e.id := by
        have hid : e.id ≠ "" := fun hempty => hne.1 hempty.symm
        simp [SessionEntry.parentKey, hparent, hid]
      exact .cons_cons hkey hrest

theorem LinkedBelow.isSessionPath {l : List SessionEntry} (h : LinkedBelow none l)
    (hn : (l.map SessionEntry.id).Nodup) (hne : "" ∉ l.map SessionEntry.id) : IsSessionPath l where
  nodup := hn
  linked := h.isChain hne
  root := by
    intro e he k hk
    cases l with
    | nil => cases he
    | cons f l =>
      obtain rfl := Option.some.inj he
      have hparent : f.parentId = none := h.1
      simp [SessionEntry.parentKey, hparent] at hk

/-- What the random source owes `count` labels written again: no fallback UUID is an
id in use or drawn twice. -/
def FallbacksFresh (count : Nat) (ids : List String) (random : Nat → Draws) : Prop :=
  (∀ n < count, FallbackFresh ids (random n)) ∧
    ∀ m < count, ∀ n < count, (random m 100).text = (random n 100).text → m = n

theorem takeUnits_length_le (n : Nat) (cs : List Char) : (takeUnits n cs).length ≤ n := by
  induction n, cs using takeUnits.induct with
  | case1 n => simp [takeUnits]
  | case2 c cs => simp [takeUnits]
  | case3 c cs h => simp [takeUnits, h]
  | case4 c cs h => simp [takeUnits, h]
  | case5 n c cs ih =>
    simp only [takeUnits, List.length_cons]
    by_cases h : utf16Size c = 1
    · simp only [h, if_true] at ih ⊢; omega
    · simp only [h, if_false] at ih ⊢; omega

theorem Uuid.short_ne_text (u v : Uuid) : u.short ≠ v.text := by
  intro h
  have hlen := congrArg (fun s => s.toList.length) h
  simp only [Uuid.short, jsTake, String.toList_ofList, v.length_eq] at hlen
  have := takeUnits_length_le 8 u.text.toList
  omega

theorem generateId_cases (has : String → Bool) (randomUUID : Draws) :
    (∃ u : Uuid, generateId has randomUUID = u.short) ∨
      generateId has randomUUID = (randomUUID 100).text := by
  unfold generateId
  cases (List.range 100).find? (fun i => !has (randomUUID i).short) with
  | some i => exact .inl ⟨_, rfl⟩
  | none => exact .inr rfl

theorem labelEntries_ids {usedIds : List String} (parentId : Option String)
    {random : Nat → Draws} (writes : List LabelToWrite) (hn : usedIds.Nodup)
    (hne : "" ∉ usedIds) (hfresh : FallbacksFresh writes.length usedIds random) :
    (usedIds ++ (labelEntries usedIds parentId random writes).map SessionEntry.id).Nodup ∧
      "" ∉ usedIds ++ (labelEntries usedIds parentId random writes).map SessionEntry.id := by
  induction writes generalizing usedIds parentId random with
  | nil => simpa [labelEntries] using ⟨hn, hne⟩
  | cons write rest ih =>
    obtain ⟨hidne, hidnew⟩ := @generateId_fresh usedIds (fun id => decide (id ∈ usedIds)) (random 0)
      (by simp) (hfresh.1 0 (by simp))
    have hn' : (usedIds ++ [generateId (fun id => decide (id ∈ usedIds)) (random 0)]).Nodup :=
      List.Nodup.append hn (List.nodup_singleton _) (by rw [List.disjoint_singleton]; exact hidnew)
    have hne' : "" ∉ usedIds ++ [generateId (fun id => decide (id ∈ usedIds)) (random 0)] := by
      rw [List.mem_append, List.mem_singleton, not_or]
      exact ⟨hne, fun he => hidne he.symm⟩
    have hfresh' : FallbacksFresh rest.length
        (usedIds ++ [generateId (fun id => decide (id ∈ usedIds)) (random 0)])
        (fun n => random (n + 1)) := by
      refine ⟨fun n hlt hmem => ?_, fun m hm n hlt he => ?_⟩
      · rcases List.mem_append.mp hmem with hmem | hmem
        · exact hfresh.1 (n + 1) (by simpa using hlt) hmem
        · rw [List.mem_singleton] at hmem
          rcases generateId_cases (fun id => decide (id ∈ usedIds)) (random 0) with ⟨u, hu⟩ | hu
          · exact Uuid.short_ne_text u _ (hu.symm.trans hmem.symm)
          · have := hfresh.2 (n + 1) (by simpa using hlt) 0 (by simp) (hmem.trans hu)
            omega
      · have := hfresh.2 (m + 1) (by simpa using hm) (n + 1) (by simpa using hlt) he
        omega
    have hstep :=
      ih (some (generateId (fun id => decide (id ∈ usedIds)) (random 0))) hn' hne' hfresh'
    simpa [labelEntries] using hstep

theorem branchedEntries_spec {random : Nat → Draws} (h : s.WellFormed)
    (hsub : ∀ e ∈ path, e ∈ s.entries) (hn : (path.map SessionEntry.id).Nodup)
    (hfresh : FallbacksFresh s.labelsById.entries.length s.ids random) :
    ((s.branchedEntries path random).map SessionEntry.id).Nodup ∧
      "" ∉ (s.branchedEntries path random).map SessionEntry.id ∧
      LinkedBelow none (s.branchedEntries path random) := by
  have hids : (pathWithoutLabels none path).map SessionEntry.id =
      (path.filter (fun e => !e.isLabel)).map SessionEntry.id := map_id_pathWithoutLabels none path
  have hidsub : ∀ id ∈ (pathWithoutLabels none path).map SessionEntry.id, id ∈ s.ids := by
    intro id hid
    rw [hids] at hid
    obtain ⟨e, he, rfl⟩ := List.mem_map.mp hid
    exact List.mem_map.mpr ⟨e, hsub e (List.mem_of_mem_filter he), rfl⟩
  have hkeptn : ((pathWithoutLabels none path).map SessionEntry.id).Nodup := by
    rw [hids]
    exact hn.sublist (List.filter_sublist.map _)
  have hkeptne : "" ∉ (pathWithoutLabels none path).map SessionEntry.id :=
    fun hmem => h.nonempty (hidsub _ hmem)
  have hwrites : (s.labelsToWrite ((pathWithoutLabels none path).map SessionEntry.id)).length ≤
      s.labelsById.entries.length := List.length_filterMap_le _ _
  have hfresh' : FallbacksFresh
      (s.labelsToWrite ((pathWithoutLabels none path).map SessionEntry.id)).length
      ((pathWithoutLabels none path).map SessionEntry.id) random :=
    ⟨fun n hlt hmem => hfresh.1 n (by omega) (hidsub _ hmem),
      fun m hm n hlt => hfresh.2 m (by omega) n (by omega)⟩
  have hlast : ((pathWithoutLabels none path).getLast?.map SessionEntry.id).filter (· ≠ "") =
      (pathWithoutLabels none path).getLast?.map SessionEntry.id := by
    cases hl : (pathWithoutLabels none path).getLast? with
    | none => rfl
    | some e =>
      have hne : e.id ≠ "" := fun hempty =>
        hkeptne (List.mem_map.mpr ⟨e, List.mem_of_getLast? hl, hempty⟩)
      simp [Option.filter, hne]
  obtain ⟨hbn, hbne⟩ := labelEntries_ids
    (((pathWithoutLabels none path).getLast?.map SessionEntry.id).filter (· ≠ ""))
    (s.labelsToWrite ((pathWithoutLabels none path).map SessionEntry.id)) hkeptn hkeptne hfresh'
  rw [← List.map_append] at hbn hbne
  refine ⟨hbn, hbne, (linkedBelow_pathWithoutLabels none path).append ?_⟩
  rw [hlast, Option.or_none]
  exact linkedBelow_labelEntries _ _ _ _

/-- **The new session is one path**: its entries are a root-to-leaf path, and its
context is the context of that path. -/
theorem createBranchedSession_path {t : SessionManager} {id : String} {random : Nat → Draws}
    (h : s.WellFormed) (hbranch : s.getBranch (some id) = some path)
    (hsub : ∀ e ∈ path, e ∈ s.entries) (hn : (path.map SessionEntry.id).Nodup)
    (hfresh : FallbacksFresh s.labelsById.entries.length s.ids random)
    (ht : s.createBranchedSession id random = some (.ok t)) :
    t.entries = s.branchedEntries path random ∧ t.context = some (contextOfPath t.entries) := by
  obtain ⟨hbn, hbne, hlinked⟩ := branchedEntries_spec h hsub hn hfresh
  unfold SessionManager.createBranchedSession at ht
  simp only [hbranch, Option.bind_eq_bind, Option.bind_some] at ht
  split at ht
  · cases ht
  · obtain rfl := Except.ok.inj (Option.some.inj ht)
    obtain ⟨hentries, hindex, hleaf⟩ :=
      buildIndex_fields { s with entries := s.branchedEntries path random }
    refine ⟨hentries, ?_⟩
    apply context_of_onePath
    · show IsSessionPath (SessionManager.buildIndex _).entries
      rw [hentries]; exact hlinked.isSessionPath hbn hbne
    · show "" ∉ (SessionManager.buildIndex _).entries.map SessionEntry.id
      rw [hentries]; exact hbne
    · intro id
      show (SessionManager.buildIndex _).byId.get? id =
        findLast SessionEntry.id (SessionManager.buildIndex _).entries id
      rw [hentries]; exact hindex id
    · show (SessionManager.buildIndex _).leafId =
        (SessionManager.buildIndex _).entries.getLast?.map SessionEntry.id
      rw [hentries]; exact hleaf

/-! ## What the context of a path does not depend on -/

/-- The entry without its parent. -/
def erase (e : SessionEntry) : SessionEntry := { e with parentId := none }

theorem map_erase_pathWithoutLabels (parentId : Option String) (path : List SessionEntry) :
    (pathWithoutLabels parentId path).map erase = (path.filter (fun e => !e.isLabel)).map erase := by
  induction path generalizing parentId with
  | nil => rfl
  | cons e path ih =>
    unfold pathWithoutLabels
    cases h : e.isLabel with
    | true => simpa [h] using ih parentId
    | false =>
      have := ih (some e.id)
      simpa [h, erase] using this

theorem compactionOf_erase (e : SessionEntry) :
    compactionOf (erase e) = (compactionOf e).map fun c => (erase c.1, c.2) := by
  rcases e with ⟨id, parent, ts, body⟩
  cases body <;> rfl

theorem lastMatch_erase (path : List SessionEntry) :
    lastMatch compactionOf (path.map erase) =
      (lastMatch compactionOf path).map fun c => (erase c.1, c.2) := by
  induction path with
  | nil => rfl
  | cons e path ih =>
    rw [List.map_cons, lastMatch_cons, lastMatch_cons, ih, compactionOf_erase]
    cases lastMatch compactionOf path <;> rfl

theorem keptFrom_erase (firstKeptEntryId : String) (path : List SessionEntry) :
    keptFrom firstKeptEntryId (path.map erase) = (keptFrom firstKeptEntryId path).map erase := by
  unfold keptFrom
  rw [List.dropWhile_map]
  rfl

theorem selectContextEntries_erase (path : List SessionEntry) :
    selectContextEntries (path.map erase) = (selectContextEntries path).map erase := by
  unfold selectContextEntries
  rw [lastMatch_erase]
  cases lastMatch compactionOf path with
  | none => rfl
  | some c =>
    have hidx : (path.map erase).findIdx? (fun e => e.id == (erase c.1).id) =
        path.findIdx? (fun e => e.id == c.1.id) := by
      rw [List.findIdx?_map]; rfl
    simp only [Option.map_some, hidx]
    cases path.findIdx? (fun e => e.id == c.1.id) with
    | none => rfl
    | some i =>
      simp only [← List.map_take, ← List.map_drop, keptFrom_erase, List.map_append, List.map_cons]

/-- Parents are no part of the context. -/
theorem contextOfPath_erase (path : List SessionEntry) :
    contextOfPath (path.map erase) = contextOfPath path := by
  have hsettings : getSessionContextSettings (path.map erase) = getSessionContextSettings path := by
    unfold getSessionContextSettings
    rw [List.foldl_map]
    rfl
  have hmessages : (selectContextEntries (path.map erase)).flatMap sessionEntryToContextMessages =
      (selectContextEntries path).flatMap sessionEntryToContextMessages := by
    rw [selectContextEntries_erase, List.flatMap_map]
    rfl
  unfold contextOfPath
  rw [hsettings, hmessages]

theorem label_isCompaction (h : e.isLabel = true) : e.isCompaction = false := by
  rcases e with ⟨id, parent, ts, body⟩
  cases body <;> simp_all [SessionEntry.isLabel, SessionEntry.isCompaction]

theorem label_messages (h : e.isLabel = true) : sessionEntryToContextMessages e = [] := by
  rcases e with ⟨id, parent, ts, body⟩
  cases body <;> simp_all [SessionEntry.isLabel, sessionEntryToContextMessages]

theorem label_settings (h : e.isLabel = true) (settings : ContextSettings) :
    applySettings settings e = settings := by
  rcases e with ⟨id, parent, ts, body⟩
  cases body <;> simp_all [SessionEntry.isLabel, applySettings]

theorem getSessionContextSettings_withoutLabels (path : List SessionEntry) :
    getSessionContextSettings (path.filter (fun e => !e.isLabel)) =
      getSessionContextSettings path := by
  unfold getSessionContextSettings
  induction path using List.reverseRecOn with
  | nil => rfl
  | append_singleton init e ih =>
    rw [List.filter_append, List.foldl_append, List.foldl_append, ih]
    cases h : e.isLabel with
    | true => simp [h, label_settings h]
    | false => simp [h]

theorem messages_withoutLabels (es : List SessionEntry) :
    (es.filter (fun e => !e.isLabel)).flatMap sessionEntryToContextMessages =
      es.flatMap sessionEntryToContextMessages := by
  induction es with
  | nil => rfl
  | cons e es ih =>
    cases h : e.isLabel with
    | true => simpa [h, label_messages h] using ih
    | false => simpa [h] using ih

/-! ## Dropping the labels of a path -/

/-- The latest compaction keeps from a label of the path, and an entry between the
label and the compaction gives a message. -/
def KeepsFromLabel (path : List SessionEntry) : Prop :=
  ∃ front label kept c post, path = front ++ label :: kept ++ c :: post ∧
    compactionOf c = some (c, label.id) ∧ (∀ e ∈ post, e.isCompaction = false) ∧
    label.isLabel = true ∧ ∃ e ∈ kept, sessionEntryToContextMessages e ≠ []

theorem selectContextEntries_append_labels {labels : List SessionEntry}
    (hn : ((path ++ labels).map SessionEntry.id).Nodup) (hlabels : ∀ e ∈ labels, e.isLabel = true) :
    selectContextEntries (path ++ labels) = selectContextEntries path ++ labels := by
  have hnpath : (path.map SessionEntry.id).Nodup := by
    rw [List.map_append] at hn
    exact List.Nodup.of_append_left hn
  rcases path_cases path with hno | ⟨pre, c, firstKeptEntryId, post, rfl, hc, hpost⟩
  · have hno' : ∀ e ∈ path ++ labels, e.isCompaction = false := by
      intro e he
      rcases List.mem_append.mp he with he | he
      · exact hno e he
      · exact label_isCompaction (hlabels e he)
    rw [selectContextEntries_none hno, selectContextEntries_none hno']
  · have hpost' : ∀ e ∈ post ++ labels, e.isCompaction = false := by
      intro e he
      rcases List.mem_append.mp he with he | he
      · exact hpost e he
      · exact label_isCompaction (hlabels e he)
    have heq : (pre ++ c :: post) ++ labels = pre ++ c :: (post ++ labels) := by simp
    rw [heq] at hn ⊢
    rw [selectContextEntries_split hn hc hpost', selectContextEntries_split hnpath hc hpost]
    simp

/-- Labels at the end of a path are no part of the context. -/
theorem contextOfPath_append_labels {labels : List SessionEntry}
    (hn : ((path ++ labels).map SessionEntry.id).Nodup) (hlabels : ∀ e ∈ labels, e.isLabel = true) :
    contextOfPath (path ++ labels) = contextOfPath path := by
  have hnone : labels.filter (fun e => !e.isLabel) = [] := by
    rw [List.filter_eq_nil_iff]
    intro e he
    simp [hlabels e he]
  have hsettings : getSessionContextSettings (path ++ labels) = getSessionContextSettings path := by
    rw [← getSessionContextSettings_withoutLabels, List.filter_append, hnone, List.append_nil,
      getSessionContextSettings_withoutLabels]
  have hmessages : labels.flatMap sessionEntryToContextMessages = [] := by
    rw [← messages_withoutLabels, hnone]; rfl
  unfold contextOfPath
  rw [hsettings, selectContextEntries_append_labels hn hlabels, List.flatMap_append, hmessages,
    List.append_nil]

theorem keptFrom_withoutLabels {pre : List SessionEntry} (id : String)
    (hn : (pre.map SessionEntry.id).Nodup) :
    (keptFrom id (pre.filter (fun e => !e.isLabel)) =
        (keptFrom id pre).filter (fun e => !e.isLabel) ∧
      ∀ label ∈ pre, label.isLabel = true → label.id ≠ id) ∨
    ∃ front label kept, pre = front ++ label :: kept ∧ label.isLabel = true ∧ label.id = id ∧
      keptFrom id (pre.filter (fun e => !e.isLabel)) = [] ∧ keptFrom id pre = label :: kept := by
  by_cases hlabel : ∃ label ∈ pre, label.isLabel = true ∧ label.id = id
  · right
    obtain ⟨label, hmem, hl, rfl⟩ := hlabel
    obtain ⟨front, kept, rfl⟩ := List.append_of_mem hmem
    have hfront : ∀ e ∈ front, e.id ≠ label.id := fun e he => id_ne_of_nodup hn he
    have hother : ∀ e ∈ (front ++ label :: kept).filter (fun e => !e.isLabel),
        e.id ≠ label.id := by
      intro e he heq
      obtain ⟨hemem, hnot⟩ := List.mem_filter.mp he
      have := eq_of_key_eq hn hemem hmem heq
      rw [this, hl] at hnot
      cases hnot
    refine ⟨front, label, kept, rfl, hl, rfl, ?_, ?_⟩
    · unfold keptFrom
      rw [List.dropWhile_eq_nil_iff]
      intro e he
      simpa using hother e he
    · unfold keptFrom
      rw [List.dropWhile_append_of_pos (by simpa using hfront)]
      simp
  · left
    have hnone : ∀ label ∈ pre, label.isLabel = true → label.id ≠ id :=
      fun label hmem hl heq => hlabel ⟨label, hmem, hl, heq⟩
    refine ⟨?_, hnone⟩
    clear hn hlabel
    unfold keptFrom
    induction pre with
    | nil => rfl
    | cons e pre ih =>
      have ih := ih fun label hmem => hnone label (List.mem_cons_of_mem _ hmem)
      cases hl : e.isLabel with
      | true =>
        have hid := hnone e List.mem_cons_self hl
        simpa [hl, hid] using ih
      | false =>
        by_cases hid : e.id = id
        · simp [hl, hid]
        · simpa [hl, hid] using ih

/-- **Dropping labels.** Without its labels a path has the same context exactly when
its latest compaction does not keep from one of them. -/
theorem contextOfPath_withoutLabels_iff (hn : (path.map SessionEntry.id).Nodup) :
    contextOfPath (path.filter (fun e => !e.isLabel)) = contextOfPath path ↔
      ¬ KeepsFromLabel path := by
  have hsettings := getSessionContextSettings_withoutLabels path
  have hiff : contextOfPath (path.filter (fun e => !e.isLabel)) = contextOfPath path ↔
      (contextOfPath (path.filter (fun e => !e.isLabel))).messages = (contextOfPath path).messages := by
    constructor
    · intro h; rw [h]
    · intro h
      have hlevel : (contextOfPath (path.filter (fun e => !e.isLabel))).thinkingLevel =
          (contextOfPath path).thinkingLevel := congrArg ContextSettings.thinkingLevel hsettings
      have hmodel : (contextOfPath (path.filter (fun e => !e.isLabel))).model =
          (contextOfPath path).model := congrArg ContextSettings.model hsettings
      calc contextOfPath (path.filter (fun e => !e.isLabel))
          = ⟨(contextOfPath (path.filter (fun e => !e.isLabel))).messages,
              (contextOfPath (path.filter (fun e => !e.isLabel))).thinkingLevel,
              (contextOfPath (path.filter (fun e => !e.isLabel))).model⟩ := rfl
        _ = ⟨(contextOfPath path).messages, (contextOfPath path).thinkingLevel,
              (contextOfPath path).model⟩ := by rw [h, hlevel, hmodel]
        _ = contextOfPath path := rfl
  rw [hiff]
  rcases path_cases path with hno | ⟨pre, c, firstKeptEntryId, post, rfl, hc, hpost⟩
  · -- no compaction: every entry is kept, and a label gives no message
    have hno' : ∀ e ∈ path.filter (fun e => !e.isLabel), e.isCompaction = false :=
      fun e he => hno e (List.mem_of_mem_filter he)
    refine iff_of_true ?_ ?_
    · show (selectContextEntries _).flatMap _ = (selectContextEntries _).flatMap _
      rw [selectContextEntries_none hno, selectContextEntries_none hno', messages_withoutLabels]
    · rintro ⟨front, label, kept, c, post, rfl, hc, -⟩
      have := hno c (by simp)
      rw [compactionOf_isCompaction hc] at this; cases this
  · have hcl : c.isLabel = false := by
      cases hl : c.isLabel with
      | false => rfl
      | true =>
        have := label_isCompaction hl
        rw [compactionOf_isCompaction hc] at this; cases this
    have hfilter : (pre ++ c :: post).filter (fun e => !e.isLabel) =
        pre.filter (fun e => !e.isLabel) ++ c :: post.filter (fun e => !e.isLabel) := by
      simp [hcl]
    have hn' : ((pre.filter (fun e => !e.isLabel) ++
        c :: post.filter (fun e => !e.isLabel)).map SessionEntry.id).Nodup := by
      rw [← hfilter]
      exact hn.sublist (List.filter_sublist.map _)
    have hpre : (pre.map SessionEntry.id).Nodup := by
      rw [List.map_append] at hn
      exact List.Nodup.of_append_left hn
    rw [hfilter, contextOfPath_messages hn' hc fun e he => hpost e (List.mem_of_mem_filter he),
      contextOfPath_messages hn hc hpost, List.append_cancel_left_eq, List.flatMap_append,
      List.flatMap_append, messages_withoutLabels, List.append_cancel_right_eq]
    rcases keptFrom_withoutLabels firstKeptEntryId hpre with
      ⟨hkept, hnot⟩ | ⟨front, label, kept, rfl, hl, rfl, hnil, hkept⟩
    · refine iff_of_true (by rw [hkept, messages_withoutLabels]) ?_
      rintro ⟨front, label, kept, c', post', heq, hc', hpost', hl, -⟩
      obtain ⟨rfl, rfl, -⟩ := split_unique heq hc hpost hc' hpost'
      rw [hc'] at hc
      obtain rfl := congrArg Prod.snd (Option.some.inj hc)
      exact hnot label (by simp) hl rfl
    · rw [hnil, hkept, List.flatMap_nil, List.flatMap_cons, label_messages hl, List.nil_append]
      constructor
      · rintro hempty ⟨front', label', kept', c', post', heq, hc', hpost', hl', e, he, hmessages⟩
        obtain ⟨hpreeq, rfl, -⟩ := split_unique heq hc hpost hc' hpost'
        rw [hc'] at hc
        have hid : label'.id = label.id := congrArg Prod.snd (Option.some.inj hc)
        have hkept' : keptFrom label.id (front' ++ label' :: kept') = label' :: kept' := by
          rw [← hid]
          unfold keptFrom
          have hfront : ∀ x ∈ front', x.id ≠ label'.id :=
            fun x hx => id_ne_of_nodup (hpreeq ▸ hpre) hx
          rw [List.dropWhile_append_of_pos (by simpa using hfront)]
          simp
        rw [← hpreeq, hkept] at hkept'
        obtain ⟨-, rfl⟩ := List.cons.inj hkept'
        exact hmessages (List.flatMap_eq_nil_iff.mp hempty.symm e he)
      · intro hnot
        symm
        rw [List.flatMap_eq_nil_iff]
        intro e he
        by_contra hmessages
        exact hnot ⟨front, label, kept, c, post, by simp, hc, hpost, hl, e, he, hmessages⟩

/-! ## Branched sessions -/

theorem labelEntries_isLabel (usedIds : List String) (parentId : Option String)
    (random : Nat → Draws) (writes : List LabelToWrite) :
    ∀ e ∈ labelEntries usedIds parentId random writes, e.isLabel = true := by
  induction writes generalizing usedIds parentId random with
  | nil => intro e he; cases he
  | cons write rest ih =>
    intro e he
    rcases List.mem_cons.mp he with rfl | he
    · rfl
    · exact ih _ _ _ e he

theorem contextOfPath_branchedEntries {random : Nat → Draws}
    (hn : ((s.branchedEntries path random).map SessionEntry.id).Nodup) :
    contextOfPath (s.branchedEntries path random) =
      contextOfPath (path.filter (fun e => !e.isLabel)) := by
  have hlabels := labelEntries_isLabel
    ((pathWithoutLabels none path).map SessionEntry.id)
    (((pathWithoutLabels none path).getLast?.map SessionEntry.id).filter (· ≠ "")) random
    (s.labelsToWrite ((pathWithoutLabels none path).map SessionEntry.id))
  calc contextOfPath (s.branchedEntries path random)
      = contextOfPath (pathWithoutLabels none path) := contextOfPath_append_labels hn hlabels
    _ = contextOfPath ((pathWithoutLabels none path).map erase) := (contextOfPath_erase _).symm
    _ = contextOfPath ((path.filter (fun e => !e.isLabel)).map erase) := by
        rw [map_erase_pathWithoutLabels]
    _ = contextOfPath (path.filter (fun e => !e.isLabel)) := contextOfPath_erase _

/-- **When branching keeps the context.** For every reachable session and every entry,
the session `createBranchedSession` makes of the entry's path has, from its leaf,
the context the entry had, exactly when the path's latest compaction does not keep
from a label. -/
theorem branchedSession_context_iff {s : SessionManager} {id : String} {random : Nat → Draws}
    (hs : s.Reachable) (hid : id ∈ s.ids) (hfresh : FallbacksFresh s.labelsById.entries.length s.ids random) :
    ∃ path before t after,
      buildSessionPath s.entries (.id id) none = some path ∧
      buildSessionContext s.entries (.id id) none = some before ∧
      s.createBranchedSession id random = some (.ok t) ∧
      t.context = some after ∧
      (after = before ↔ ¬ KeepsFromLabel path) := by
  have hwf := hs.wellFormed
  obtain ⟨path, hpath, hbranch, hne⟩ := hwf.path hid
  obtain ⟨hsession, hsub, -⟩ := buildSessionPath_isSessionPath hpath
  have hbefore : buildSessionContext s.entries (.id id) none = some (contextOfPath path) := by
    rw [buildSessionContext_eq, hpath]; rfl
  obtain ⟨t, ht⟩ : ∃ t, s.createBranchedSession id random = some (.ok t) := by
    unfold SessionManager.createBranchedSession
    have hempty : path.isEmpty = false := by simpa using hne
    simp only [hbranch, Option.bind_eq_bind, Option.bind_some, hempty, Bool.false_eq_true, if_false]
    exact ⟨_, rfl⟩
  obtain ⟨hentries, hcontext⟩ :=
    createBranchedSession_path hwf hbranch hsub hsession.nodup hfresh ht
  have hn := (branchedEntries_spec hwf hsub hsession.nodup hfresh).1
  refine ⟨path, contextOfPath path, t, contextOfPath t.entries, hpath, hbefore, ht, hcontext, ?_⟩
  rw [hentries, contextOfPath_branchedEntries hn]
  exact contextOfPath_withoutLabels_iff hsession.nodup

/-! ## A compaction that keeps from a label -/

namespace LabelExample

open SessionManager

def uuid (c : Char) : Uuid where
  text := String.ofList (c :: "0000000-0000-4000-8000-000000000000".toList)
  length_eq := by rw [String.toList_ofList]; rfl

def clock (c : Char) : Clock := { timestamp := 0, randomUUID := fun _ => uuid c }

def user (text : String) : AgentMessage := .user { content := .text text, timestamp := 0 }

def settings : CompactionSettings :=
  { enabled := true, reserveTokens := 16384, keepRecentTokens := 1 }

/-- A question, -/
def s1 : SessionManager := (newSession.appendMessage (clock 'a') (user "one")).1

/-- a second one, -/
def s2 : SessionManager := (s1.appendMessage (clock 'b') (user "two")).1

/-- a label on the first, -/
def s3 : SessionManager :=
  (s2.append (clock 'c') (.label "a0000000" (some "start"))).1.setLabel "a0000000" (some "start") 0

/-- and a third question, which is the newest message and all the budget keeps. -/
def s4 : SessionManager := (s3.appendMessage (clock 'd') (user "three")).1

/-- The compaction that keeps from the cut. -/
def s5 (firstKeptEntryId : String) : SessionManager :=
  (s4.appendCompaction (clock 'e') "summary" firstKeptEntryId 0 none false).1

/-- The draws for the label written again. -/
def random (_ : Nat) : Draws := fun _ => uuid 'f'

theorem step {t : SessionManager} (op : SessionOp) {c : Char} (h : s.Reachable)
    (hop : op.apply s (clock c) = .ok t) (hfresh : (uuid c).text ∉ s.ids) : t.Reachable := by
  obtain ⟨calls, hrun⟩ := h
  exact ⟨calls ++ [(op, clock c)], hrun.append (.single ⟨hop, hfresh⟩)⟩

theorem reachable_s4 : s4.Reachable := by
  have h0 : newSession.Reachable := ⟨[], .nil _⟩
  have h1 : s1.Reachable := step (.appendMessage (user "one")) h0 rfl (by decide)
  have h2 : s2.Reachable := step (.appendMessage (user "two")) h1 rfl (by decide)
  have h3 : s3.Reachable :=
    step (.appendLabelChange "a0000000" (some "start")) h2 rfl (by decide)
  exact step (.appendMessage (user "three")) h3 rfl (by decide)

theorem reachable_s5 (firstKeptEntryId : String) : (s5 firstKeptEntryId).Reachable :=
  step (.appendCompaction "summary" firstKeptEntryId 0 none false) reachable_s4 rfl
    (by decide)

theorem fallbacks (firstKeptEntryId : String) :
    FallbacksFresh (s5 firstKeptEntryId).labelsById.entries.length (s5 firstKeptEntryId).ids random := by
  have hcount : (s5 firstKeptEntryId).labelsById.entries.length = 1 := rfl
  rw [hcount]
  refine ⟨fun n _ => ?_, fun m hm n hn _ => by omega⟩
  have hids : (s5 firstKeptEntryId).ids = (s5 "").ids := rfl
  show (uuid 'f').text ∉ (s5 firstKeptEntryId).ids
  rw [hids]
  decide

end LabelExample

/-- The cut of the compaction stands on the label, the new session has no such entry,
and the message the compaction kept is gone. -/
theorem branchedSession_loses :
    LabelExample.s4.Reachable ∧
    ∃ path p t before after,
      LabelExample.s4.getBranch none = some path ∧
      prepareCompaction path LabelExample.settings = some p ∧
      (LabelExample.s5 p.firstKeptEntryId).createBranchedSession "e0000000" LabelExample.random =
        some (.ok t) ∧
      (LabelExample.s5 p.firstKeptEntryId).context = some before ∧
      t.context = some after ∧
      before.messages.length = 2 ∧ after.messages.length = 1 := by
  refine ⟨LabelExample.reachable_s4, _, _, _, _, _, rfl, rfl, rfl, rfl, rfl, ?_, ?_⟩
  · decide
  · decide

/-- `branchedSession_context_iff` where the compaction keeps from the third question
itself: the new session has the same context. -/
theorem branchedSession_keeps :
    ∃ t, (LabelExample.s5 "d0000000").createBranchedSession "e0000000" LabelExample.random =
        some (.ok t) ∧
      t.context = buildSessionContext (LabelExample.s5 "d0000000").entries (.id "e0000000") none := by
  obtain ⟨path, before, t, after, hpath, hbefore, ht, hafter, hiff⟩ :=
    branchedSession_context_iff (LabelExample.reachable_s5 "d0000000")
      (show "e0000000" ∈ (LabelExample.s5 "d0000000").ids by decide)
      (LabelExample.fallbacks "d0000000")
  refine ⟨t, ht, ?_⟩
  rw [hafter, hbefore, hiff.mpr]
  rintro ⟨front, label, kept, c, post, heq, hc, -, hl, -⟩
  -- the only compaction keeps from an entry that is no label
  obtain ⟨-, hmem, -⟩ := buildSessionPath_isSessionPath hpath
  have hall : ∀ e ∈ (LabelExample.s5 "d0000000").entries, ∀ l ∈ (LabelExample.s5 "d0000000").entries,
      (compactionOf e).map Prod.snd = some l.id → l.isLabel = false := by decide
  have hnot := hall c (hmem c (by rw [heq]; simp)) label (hmem label (by rw [heq]; simp))
    (by rw [hc]; rfl)
  rw [hl] at hnot; cases hnot

end PieLab

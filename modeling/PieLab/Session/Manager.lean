import PieLab.Lib.OrderedMap
import PieLab.Lib.Runs
import PieLab.Session.Entry

/-
  The session manager

  The manager holds the entries of a session, the index over them, the labels
  and the leaf. Every append adds an entry below the leaf and moves the leaf to
  it; branching moves the leaf to an earlier entry.

  What is proved:
    1. `generateId_fresh` — a new id is none of the ids in use, given that a whole
       UUID is never one of them.
    2. `wellFormed_of_run` — in every run from a new session the ids are distinct
       and not empty, parents stand in front of their children, and index and
       leaf agree with the entries.
    3. `WellFormed.path` — in such a session every entry has a path, and
       `getBranch` returns it.

  Correspondence (TypeScript ↔ Lean): the methods of `SessionManager` in
  packages/coding-agent/src/core/session-manager.ts. This is the manager in
  memory: the header, the session file and what is written to it are left out.
  A method that throws leaves the manager as it was.
-/

namespace PieLab

open Lib

/-! ## Ids -/

/-- A `randomUUID()`: 36 characters. -/
structure Uuid where
  text : String
  length_eq : text.toList.length = 36

/-- `uuid.slice(0, 8)` -/
def Uuid.short (u : Uuid) : String := jsTake u.text 8

/-- The successive draws of one `generateId` call. -/
abbrev Draws := Nat → Uuid

def generateId (has : String → Bool) (randomUUID : Draws) : String :=
  match (List.range 100).find? (fun i => !has (randomUUID i).short) with
  | some i => (randomUUID i).short
  -- fallback to the full UUID
  | none => (randomUUID 100).text

/-- What the fallback relies on: a whole UUID is never an id in use. -/
def FallbackFresh (ids : List String) (randomUUID : Draws) : Prop :=
  (randomUUID 100).text ∉ ids

theorem takeUnits_ne_nil {n : Nat} {c : Char} {cs : List Char} :
    takeUnits (n + 2) (c :: cs) ≠ [] := by
  simp [takeUnits]

theorem Uuid.exists_cons (u : Uuid) : ∃ c cs, u.text.toList = c :: cs := by
  cases h : u.text.toList with
  | nil => have := u.length_eq; rw [h] at this; cases this
  | cons c cs => exact ⟨c, cs, rfl⟩

theorem Uuid.short_ne (u : Uuid) : u.short ≠ "" := by
  obtain ⟨c, cs, h⟩ := u.exists_cons
  intro he
  have hlist := congrArg String.toList he
  unfold Uuid.short jsTake at hlist
  rw [String.toList_ofList, h] at hlist
  exact takeUnits_ne_nil hlist

theorem Uuid.text_ne (u : Uuid) : u.text ≠ "" := by
  obtain ⟨c, cs, h⟩ := u.exists_cons
  intro he
  rw [he] at h; cases h

/-- A new id is not empty and not in use. -/
theorem generateId_fresh {ids : List String} {has : String → Bool} {randomUUID : Draws}
    (hhas : ∀ id ∈ ids, has id = true) (hfresh : FallbackFresh ids randomUUID) :
    generateId has randomUUID ≠ "" ∧ generateId has randomUUID ∉ ids := by
  unfold generateId
  cases h : (List.range 100).find? (fun i => !has (randomUUID i).short) with
  | some i =>
    refine ⟨Uuid.short_ne _, fun hmem => ?_⟩
    have := List.find?_some h
    simp [hhas _ hmem] at this
  | none => exact ⟨Uuid.text_ne _, hfresh⟩

/-! ## The manager -/

structure SessionManager where
  entries : List SessionEntry
  byId : OrderedMap String SessionEntry
  labelsById : OrderedMap String String
  labelTimestampsById : OrderedMap String Int
  leafId : Option String
  entriesRevision : Nat
  sessionName : Option String

/-- The time and the random source a method call sees. -/
structure Clock where
  timestamp : Int
  randomUUID : Draws

/-- `text?.trim() || undefined` -/
def trimmedName (name : Option String) : Option String :=
  (name.map jsTrim).filter (· ≠ "")

/-- `name.replace(/[\r\n]+/g, " ")`: each run of line breaks becomes one space. -/
def replaceLineBreaks : List Char → List Char
  | [] => []
  | [c] => if c = '\r' ∨ c = '\n' then [' '] else [c]
  | c :: d :: rest =>
    if c = '\r' ∨ c = '\n' then
      if d = '\r' ∨ d = '\n' then replaceLineBreaks (d :: rest) else ' ' :: replaceLineBreaks (d :: rest)
    else c :: replaceLineBreaks (d :: rest)

namespace SessionManager

def newSession : SessionManager where
  entries := []
  byId := .empty
  labelsById := .empty
  labelTimestampsById := .empty
  leafId := none
  entriesRevision := 1
  sessionName := none

def ids (s : SessionManager) : List String := s.entries.map SessionEntry.id

/-- What an entry does to the session name. -/
def nameAfter (entry : SessionEntry) (sessionName : Option String) : Option String :=
  match entry.body with
  | .sessionInfo name => trimmedName name
  | _ => sessionName

def appendEntry (s : SessionManager) (entry : SessionEntry) : SessionManager :=
  { s with
    entries := s.entries ++ [entry]
    byId := s.byId.set entry.id entry
    leafId := some entry.id
    sessionName := nameAfter entry s.sessionName
    entriesRevision := s.entriesRevision + 1 }

/-- The entry every append builds: a new id, below the leaf. -/
def newEntry (s : SessionManager) (clock : Clock) (body : EntryBody) : SessionEntry :=
  { id := generateId s.byId.has clock.randomUUID
    parentId := s.leafId
    timestamp := clock.timestamp
    body }

/-- Append an entry with this body; the id is returned beside the new state. -/
def append (s : SessionManager) (clock : Clock) (body : EntryBody) : SessionManager × String :=
  let entry := s.newEntry clock body
  (s.appendEntry entry, entry.id)

def appendMessage (s : SessionManager) (clock : Clock) (message : AgentMessage) :=
  s.append clock (.message message)

def appendThinkingLevelChange (s : SessionManager) (clock : Clock) (thinkingLevel : String) :=
  s.append clock (.thinkingLevelChange thinkingLevel)

def appendModelChange (s : SessionManager) (clock : Clock) (provider modelId : String) :=
  s.append clock (.modelChange provider modelId)

def appendCompaction (s : SessionManager) (clock : Clock) (summary firstKeptEntryId : String)
    (tokensBefore : Nat) (details : Option CompactionDetails) (fromHook : Bool) :=
  s.append clock (.compaction summary firstKeptEntryId tokensBefore details fromHook)

def appendCustomEntry (s : SessionManager) (clock : Clock) (customType : String)
    (data : Option String) :=
  s.append clock (.custom customType data)

def appendSessionInfo (s : SessionManager) (clock : Clock) (name : String) :=
  let sanitizedName := jsTrim (String.ofList (replaceLineBreaks name.toList))
  s.append clock (.sessionInfo (some sanitizedName))

def appendCustomMessageEntry (s : SessionManager) (clock : Clock) (customType : String)
    (content : UserContent) (display : Bool) (details : Option String) :=
  s.append clock (.customMessage customType content details display)

def notFound (id : String) : String := "Entry " ++ id ++ " not found"

/-- Set the label of a target, or clear it where the label is missing or empty. -/
def setLabel (s : SessionManager) (targetId : String) (label : Option String) (timestamp : Int) :
    SessionManager :=
  match label.filter (· ≠ "") with
  | some label =>
    { s with
      labelsById := s.labelsById.set targetId label
      labelTimestampsById := s.labelTimestampsById.set targetId timestamp }
  | none =>
    { s with
      labelsById := s.labelsById.delete targetId
      labelTimestampsById := s.labelTimestampsById.delete targetId }

def appendLabelChange (s : SessionManager) (clock : Clock) (targetId : String)
    (label : Option String) : Except String (SessionManager × String) :=
  if s.byId.has targetId then
    let (s, id) := s.append clock (.label targetId label)
    .ok (s.setLabel targetId label clock.timestamp, id)
  else .error (notFound targetId)

def branch (s : SessionManager) (branchFromId : String) : Except String SessionManager :=
  if s.byId.has branchFromId then .ok { s with leafId := some branchFromId }
  else .error (notFound branchFromId)

def resetLeaf (s : SessionManager) : SessionManager := { s with leafId := none }

def branchWithSummary (s : SessionManager) (clock : Clock) (branchFromId : Option String)
    (summary : String) (details : Option String) (fromHook : Bool) :
    Except String (SessionManager × String) :=
  match branchFromId with
  | some id =>
    if s.byId.has id then
      .ok ({ s with leafId := some id }.append clock (.branchSummary id summary details fromHook))
    else .error (notFound id)
  | none =>
    .ok ({ s with leafId := none }.append clock (.branchSummary "root" summary details fromHook))

/-- Walk from entry to root, in path order. `none` is a walk that never ends. -/
def getBranch (s : SessionManager) (fromId : Option String) : Option (List SessionEntry) :=
  let startId := fromId.or s.leafId
  match (startId.filter (· ≠ "")).bind s.byId.get? with
  | none => some []
  | some start =>
    (walk s.byId.get? SessionEntry.parentKey s.entries.length start).map List.reverse

/-- The `leafId` field as an argument of `buildSessionContext`. -/
def leafArg (s : SessionManager) : LeafArg :=
  match s.leafId with
  | none => .null
  | some id => .id id

/-- The session's context, from its leaf. -/
def context (s : SessionManager) : Option SessionContext :=
  buildSessionContext s.entries s.leafArg (some s.byId.get?)

end SessionManager

/-! ## Runs -/

/-- A call of a method that changes the session. -/
inductive SessionOp where
  | appendMessage (message : AgentMessage)
  | appendThinkingLevelChange (thinkingLevel : String)
  | appendModelChange (provider modelId : String)
  | appendCompaction (summary firstKeptEntryId : String) (tokensBefore : Nat)
      (details : Option CompactionDetails) (fromHook : Bool)
  | appendCustomEntry (customType : String) (data : Option String)
  | appendSessionInfo (name : String)
  | appendCustomMessageEntry (customType : String) (content : UserContent) (display : Bool)
      (details : Option String)
  | appendLabelChange (targetId : String) (label : Option String)
  | branch (branchFromId : String)
  | resetLeaf
  | branchWithSummary (branchFromId : Option String) (summary : String) (details : Option String)
      (fromHook : Bool)

def SessionOp.apply (s : SessionManager) (clock : Clock) : SessionOp → Except String SessionManager
  | .appendMessage message => .ok (s.appendMessage clock message).1
  | .appendThinkingLevelChange level => .ok (s.appendThinkingLevelChange clock level).1
  | .appendModelChange provider modelId => .ok (s.appendModelChange clock provider modelId).1
  | .appendCompaction summary firstKeptEntryId tokensBefore details fromHook =>
    .ok (s.appendCompaction clock summary firstKeptEntryId tokensBefore details fromHook).1
  | .appendCustomEntry customType data => .ok (s.appendCustomEntry clock customType data).1
  | .appendSessionInfo name => .ok (s.appendSessionInfo clock name).1
  | .appendCustomMessageEntry customType content display details =>
    .ok (s.appendCustomMessageEntry clock customType content display details).1
  | .appendLabelChange targetId label => (s.appendLabelChange clock targetId label).map Prod.fst
  | .branch branchFromId => s.branch branchFromId
  | .resetLeaf => .ok s.resetLeaf
  | .branchWithSummary branchFromId summary details fromHook =>
    (s.branchWithSummary clock branchFromId summary details fromHook).map Prod.fst

/-- One call: it succeeds, and its fallback UUID, where it is drawn, is new. -/
def SessionManager.next (s : SessionManager) (call : SessionOp × Clock) (t : SessionManager) :
    Prop :=
  call.1.apply s call.2 = .ok t ∧ FallbackFresh s.ids call.2.randomUUID

/-- The sessions reachable from a new one. -/
def SessionManager.Reachable (s : SessionManager) : Prop :=
  ∃ calls, Run SessionManager.next SessionManager.newSession calls s

/-! ## Well-formed sessions -/

/-- Every parent stands in front of its child. -/
def ParentsEarlier (entries : List SessionEntry) : Prop :=
  ∀ pre e post, entries = pre ++ e :: post →
    e.parentId = none ∨ ∃ x ∈ pre, e.parentId = some x.id

structure SessionManager.WellFormed (s : SessionManager) : Prop where
  index : ∀ id, s.byId.get? id = findLast SessionEntry.id s.entries id
  nodup : s.ids.Nodup
  nonempty : "" ∉ s.ids
  parents : ParentsEarlier s.entries
  leaf : ∀ id, s.leafId = some id → id ∈ s.ids

variable {s : SessionManager}

namespace SessionManager

theorem wellFormed_newSession : newSession.WellFormed where
  index := fun _ => rfl
  nodup := List.nodup_nil
  nonempty := by simp [ids, newSession]
  parents := fun pre e post h => by simp [newSession] at h
  leaf := fun _ h => by cases h

theorem WellFormed.has_iff (h : s.WellFormed) (id : String) :
    s.byId.has id = true ↔ id ∈ s.ids := by
  unfold OrderedMap.has ids
  rw [h.index id, Option.isSome_iff_exists]
  constructor
  · rintro ⟨x, hx⟩
    obtain ⟨hmem, rfl⟩ := findLast_mem hx
    exact List.mem_map.mpr ⟨x, hmem, rfl⟩
  · intro hmem
    obtain ⟨x, hx, rfl⟩ := List.mem_map.mp hmem
    exact ⟨x, findLast_of_nodup h.nodup hx⟩

theorem WellFormed.append {s : SessionManager} (h : s.WellFormed) {clock : Clock}
    (hfresh : FallbackFresh s.ids clock.randomUUID) (body : EntryBody) :
    (s.append clock body).1.WellFormed := by
  obtain ⟨hne, hnew⟩ := @generateId_fresh s.ids s.byId.has clock.randomUUID
    (fun id hid => (h.has_iff id).mpr hid) hfresh
  refine ⟨fun id => ?_, ?_, ?_, ?_, ?_⟩
  · show (s.byId.set _ _).get? id = findLast SessionEntry.id (s.entries ++ [_]) id
    rw [OrderedMap.get?_set, findLast_concat, h.index id]
  · show ((s.entries ++ [s.newEntry clock body]).map SessionEntry.id).Nodup
    rw [List.map_append]
    exact List.Nodup.append h.nodup (List.nodup_singleton _)
      (by rw [List.map_singleton, List.disjoint_singleton]; exact hnew)
  · show "" ∉ (s.entries ++ [s.newEntry clock body]).map SessionEntry.id
    rw [List.map_append, List.map_singleton, List.mem_append, List.mem_singleton, not_or]
    exact ⟨h.nonempty, fun he => hne he.symm⟩
  · intro pre e post heq
    have heq : s.entries ++ [s.newEntry clock body] = pre ++ e :: post := heq
    rcases List.eq_nil_or_concat' post with rfl | ⟨post, last, rfl⟩
    · obtain ⟨rfl, he⟩ := List.append_inj' heq rfl
      obtain rfl := List.singleton_injective he
      show s.leafId = none ∨ ∃ x ∈ s.entries, s.leafId = some x.id
      cases hleaf : s.leafId with
      | none => exact .inl rfl
      | some id =>
        obtain ⟨x, hx, rfl⟩ := List.mem_map.mp (h.leaf id hleaf)
        exact .inr ⟨x, hx, rfl⟩
    · rw [← List.cons_append, ← List.append_assoc] at heq
      obtain ⟨hinit, -⟩ := List.append_inj' heq rfl
      exact h.parents pre e post hinit
  · intro id hid
    obtain rfl := Option.some.inj hid
    exact List.mem_map.mpr ⟨s.newEntry clock body, by simp [SessionManager.append, appendEntry],
      rfl⟩

theorem WellFormed.moveLeaf (h : s.WellFormed) {leafId : Option String}
    (hleaf : ∀ id, leafId = some id → id ∈ s.ids) : { s with leafId := leafId }.WellFormed :=
  ⟨h.index, h.nodup, h.nonempty, h.parents, hleaf⟩

theorem WellFormed.setLabel (h : s.WellFormed) (targetId : String) (label : Option String)
    (timestamp : Int) : (s.setLabel targetId label timestamp).WellFormed := by
  unfold SessionManager.setLabel
  cases label.filter (· ≠ "") <;> exact ⟨h.index, h.nodup, h.nonempty, h.parents, h.leaf⟩

theorem WellFormed.next {t : SessionManager} {call : SessionOp × Clock} (h : s.WellFormed)
    (hnext : s.next call t) : t.WellFormed := by
  obtain ⟨op, clock⟩ := call
  obtain ⟨hop, hfresh⟩ := hnext
  cases op with
  | appendLabelChange targetId label =>
    simp only [SessionOp.apply, appendLabelChange] at hop
    split at hop
    · simp only [Except.map, Except.ok.injEq] at hop
      rw [← hop]
      exact (h.append hfresh _).setLabel _ _ _
    · cases hop
  | branch id =>
    simp only [SessionOp.apply, branch] at hop
    split at hop
    · rename_i hhas
      obtain rfl := Except.ok.inj hop
      exact h.moveLeaf fun id' hid => by
        obtain rfl := Option.some.inj hid
        exact (h.has_iff _).mp hhas
    · cases hop
  | resetLeaf =>
    obtain rfl := Except.ok.inj hop
    exact h.moveLeaf fun id hid => by cases hid
  | branchWithSummary branchFromId summary details fromHook =>
    cases branchFromId with
    | none =>
      obtain rfl := Except.ok.inj hop
      have hmove : { s with leafId := none }.WellFormed := h.moveLeaf fun id hid => by cases hid
      exact hmove.append hfresh _
    | some id =>
      simp only [SessionOp.apply, branchWithSummary] at hop
      split at hop
      · rename_i hhas
        obtain rfl := Except.ok.inj hop
        have hmove : { s with leafId := some id }.WellFormed := h.moveLeaf fun id' hid => by
          obtain rfl := Option.some.inj hid
          exact (h.has_iff _).mp hhas
        exact hmove.append hfresh _
      · cases hop
  | _ =>
    obtain rfl := Except.ok.inj hop
    exact h.append hfresh _

theorem Reachable.wellFormed (h : s.Reachable) : s.WellFormed := by
  obtain ⟨calls, hrun⟩ := h
  exact hrun.invariant wellFormed_newSession fun _ _ _ hnext hs => hs.next hnext

/-! ## Paths -/

theorem WellFormed.get?_eq (h : s.WellFormed) : s.byId.get? = findLast SessionEntry.id s.entries :=
  funext h.index

theorem WellFormed.parentKey (h : s.WellFormed) :
    ∀ pre e post, s.entries = pre ++ e :: post →
      e.parentKey = none ∨ ∃ x ∈ pre, e.parentKey = some x.id := by
  intro pre e post heq
  rcases h.parents pre e post heq with hnone | ⟨x, hx, hsome⟩
  · left; simp [SessionEntry.parentKey, hnone]
  · right
    have hne : x.id ≠ "" := by
      intro hempty
      apply h.nonempty
      exact List.mem_map.mpr ⟨x, by rw [heq]; simp [hx], hempty⟩
    exact ⟨x, hx, by simp [SessionEntry.parentKey, hsome, hne]⟩

/-- Every entry of a well-formed session has a path: the walk ends, and ends with
the entry. -/
theorem WellFormed.path (h : s.WellFormed) {id : String} (hid : id ∈ s.ids) :
    ∃ path, buildSessionPath s.entries (.id id) none = some path ∧
      s.getBranch (some id) = some path ∧ path ≠ [] := by
  obtain ⟨x, hx, rfl⟩ := List.mem_map.mp hid
  have hne : x.id ≠ "" := by
    intro hempty
    exact h.nonempty (hempty ▸ hid)
  have hfind : findLast SessionEntry.id s.entries x.id = some x := findLast_of_nodup h.nodup hx
  obtain ⟨l, hl, hhead⟩ := rooted_of_ordered h.nodup h.parentKey x hx
  have hlen : l.length ≤ s.entries.length := by
    apply hl.length_le
    intro y hy
    rw [hhead] at hy
    obtain rfl := Option.some.inj hy
    exact hfind
  have hwalk := hl.walk hhead hlen
  refine ⟨l.reverse, ?_, ?_, by simpa using hl.ne_nil⟩
  · simp [buildSessionPath, buildEntryIndex, leafEntry, hne, hfind, hwalk]
  · have hstart : (some x.id).filter (· ≠ "") = some x.id := by simp [Option.filter, hne]
    unfold getBranch
    simp only [Option.some_or, h.get?_eq]
    rw [hstart, Option.bind_some, hfind]
    simp only [hwalk, Option.map_some]

end SessionManager

end PieLab

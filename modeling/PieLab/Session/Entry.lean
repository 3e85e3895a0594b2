import PieLab.Lib.ParentWalk
import PieLab.Lib.Scan
import PieLab.Messages

/-
  Session entries and the context of a path

  A session is a tree of entries linked by `parentId`. The context a model sees
  is built from the path of one leaf: the path is walked from the leaf to the
  root, the part a compaction summarized is left out, and every entry left gives
  its message.

  What is proved:
    1. `buildSessionPath_isSessionPath` — what the walk returns is a root-to-leaf
       path: distinct ids, each entry the parent of the next.
    2. `buildSessionPath_self` — a root-to-leaf path is the path of its own last
       entry, so the context of a path can be computed from the path alone
       (`buildSessionContext_self`).
    3. `selectContextEntries_split` — the entries a compacted path keeps.

  Correspondence (TypeScript ↔ Lean), packages/coding-agent/src/core/session-manager.ts:
    `SessionEntry`, and the harness's `SessionTreeEntry`  ↔ `SessionEntry`
    `buildEntryIndex`, `buildSessionPath`                 ↔ the same names
    `getSessionContextSettings`                           ↔ `getSessionContextSettings`
    `sessionEntryToContextMessages`                       ↔ `sessionEntryToContextMessages`
    `buildContextEntries`, `buildSessionContext`          ↔ the same names
-/

namespace PieLab

open Lib

/-- The details a generated compaction stores. -/
structure CompactionDetails where
  readFiles : List String
  modifiedFiles : List String
  deriving DecidableEq, Repr

/-- The fields of an entry beside `id`, `parentId` and `timestamp`, by `type`. The
last two kinds are the harness's own. -/
inductive EntryBody where
  | message (message : AgentMessage)
  | thinkingLevelChange (thinkingLevel : String)
  | modelChange (provider modelId : String)
  | compaction (summary firstKeptEntryId : String) (tokensBefore : Nat)
      (details : Option CompactionDetails) (fromHook : Bool)
  | branchSummary (fromId summary : String) (details : Option String) (fromHook : Bool)
  | custom (customType : String) (data : Option String)
  | customMessage (customType : String) (content : UserContent) (details : Option String)
      (display : Bool)
  | label (targetId : String) (label : Option String)
  | sessionInfo (name : Option String)
  | activeToolsChange (activeToolNames : List String)
  | leaf (targetId : Option String)
  deriving DecidableEq, Repr

structure SessionEntry where
  id : String
  parentId : Option String
  timestamp : Int
  body : EntryBody
  deriving DecidableEq, Repr

namespace SessionEntry

/-- `entry.type === "message"` -/
def isMessage (e : SessionEntry) : Bool := match e.body with | .message _ => true | _ => false

/-- `entry.type === "compaction"` -/
def isCompaction (e : SessionEntry) : Bool :=
  match e.body with | .compaction .. => true | _ => false

/-- `entry.type === "label"` -/
def isLabel (e : SessionEntry) : Bool := match e.body with | .label .. => true | _ => false

/-- The parent the walk looks up: an empty `parentId` is falsy, as `null` is. -/
def parentKey (e : SessionEntry) : Option String := e.parentId.filter (· ≠ "")

end SessionEntry

/-! ## The path of a leaf -/

/-- `index.get` of a map from ids to entries. -/
abbrev EntryIndex := String → Option SessionEntry

/-- The map filled from the entries: the last entry of an id is the one it holds.
A map that is passed in is taken as it is. -/
def buildEntryIndex (entries : List SessionEntry) : Option EntryIndex → EntryIndex
  | some byId => byId
  | none => findLast SessionEntry.id entries

/-- The `leafId` argument: left out (`undefined`), `null`, or an id. -/
inductive LeafArg where
  | undefined
  | null
  | id (id : String)
  deriving DecidableEq, Repr

/-- The entry the walk starts from. -/
def leafEntry (entries : List SessionEntry) (index : EntryIndex) : LeafArg → Option SessionEntry
  | .null => none
  | .undefined => entries.getLast?
  | .id id =>
    -- an empty or unknown id falls back to the last entry
    if id = "" then entries.getLast? else (index id).or entries.getLast?

/-- The entries from the root to the leaf. `none` is a walk that never ends: the
index has a cycle of parents, and the loop of the source does not leave it. -/
def buildSessionPath (entries : List SessionEntry) (leafId : LeafArg) (byId : Option EntryIndex) :
    Option (List SessionEntry) :=
  let index := buildEntryIndex entries byId
  match leafEntry entries index leafId with
  | none => some []
  | some leaf => (walk index SessionEntry.parentKey entries.length leaf).map List.reverse

/-! ## The context of a path -/

structure ModelRef where
  provider : String
  modelId : String
  deriving DecidableEq, Repr

structure ContextSettings where
  thinkingLevel : String
  model : Option ModelRef
  deriving DecidableEq, Repr

/-- What one entry does to the settings. -/
def applySettings (s : ContextSettings) (entry : SessionEntry) : ContextSettings :=
  match entry.body with
  | .thinkingLevelChange level => { s with thinkingLevel := level }
  | .modelChange provider modelId => { s with model := some { provider, modelId } }
  | .message (.assistant m) => { s with model := some { provider := m.provider, modelId := m.model } }
  | _ => s

def getSessionContextSettings (path : List SessionEntry) : ContextSettings :=
  path.foldl applySettings { thinkingLevel := "off", model := none }

def sessionEntryToContextMessages (entry : SessionEntry) : List AgentMessage :=
  match entry.body with
  | .message m => [m]
  | .customMessage customType content details display =>
    [createCustomMessage customType content display details entry.timestamp]
  | .branchSummary fromId summary _ _ =>
    if summary ≠ "" then [createBranchSummaryMessage summary fromId entry.timestamp] else []
  | .compaction summary _ tokensBefore _ _ =>
    [createCompactionSummaryMessage summary tokensBefore entry.timestamp]
  | _ => []

/-- A compaction entry, with the id it keeps from. -/
def compactionOf (entry : SessionEntry) : Option (SessionEntry × String) :=
  match entry.body with
  | .compaction _ firstKeptEntryId _ _ _ => some (entry, firstKeptEntryId)
  | _ => none

/-- The entries from the first one with the id on. -/
def keptFrom (firstKeptEntryId : String) (entries : List SessionEntry) : List SessionEntry :=
  entries.dropWhile (fun e => e.id ≠ firstKeptEntryId)

/-- The body of `buildContextEntries` below its call of `buildSessionPath`. -/
def selectContextEntries (path : List SessionEntry) : List SessionEntry :=
  match lastMatch compactionOf path with
  | none => path
  | some (compaction, firstKeptEntryId) =>
    match path.findIdx? (fun e => e.id == compaction.id) with
    | none => path
    | some compactionIdx =>
      compaction :: keptFrom firstKeptEntryId (path.take compactionIdx) ++
        path.drop (compactionIdx + 1)

def buildContextEntries (entries : List SessionEntry) (leafId : LeafArg)
    (byId : Option EntryIndex) : Option (List SessionEntry) :=
  (buildSessionPath entries leafId byId).map selectContextEntries

structure SessionContext where
  messages : List AgentMessage
  thinkingLevel : String
  model : Option ModelRef
  deriving DecidableEq, Repr

def buildSessionContext (entries : List SessionEntry) (leafId : LeafArg)
    (byId : Option EntryIndex) : Option SessionContext := do
  let path ← buildSessionPath entries leafId byId
  let settings := getSessionContextSettings path
  let contextEntries ← buildContextEntries entries leafId byId
  return { messages := contextEntries.flatMap sessionEntryToContextMessages
           thinkingLevel := settings.thinkingLevel
           model := settings.model }

/-- The context of a path, with no walk left in it. -/
def contextOfPath (path : List SessionEntry) : SessionContext :=
  { messages := (selectContextEntries path).flatMap sessionEntryToContextMessages
    thinkingLevel := (getSessionContextSettings path).thinkingLevel
    model := (getSessionContextSettings path).model }

theorem buildSessionContext_eq (entries : List SessionEntry) (leafId : LeafArg)
    (byId : Option EntryIndex) :
    buildSessionContext entries leafId byId =
      (buildSessionPath entries leafId byId).map contextOfPath := by
  unfold buildSessionContext buildContextEntries
  cases buildSessionPath entries leafId byId <;> rfl

/-! ## Root-to-leaf paths -/

/-- A root-to-leaf path: distinct ids, each entry the parent of the next, and the
parent of the first not on the path. -/
structure IsSessionPath (path : List SessionEntry) : Prop where
  nodup : (path.map SessionEntry.id).Nodup
  linked : path.IsChain (fun a b => b.parentKey = some a.id)
  root : ∀ e, path.head? = some e → ∀ k, e.parentKey = some k → k ∉ path.map SessionEntry.id

variable {entries path pre post : List SessionEntry} {c : SessionEntry}

theorem rooted_isSessionPath {l : List SessionEntry}
    (h : Rooted (findLast SessionEntry.id entries) SessionEntry.parentKey l) :
    l.reverse.IsChain (fun a b => b.parentKey = some a.id) ∧
    ∀ e, l.reverse.head? = some e → ∀ k, e.parentKey = some k →
      k ∉ entries.map SessionEntry.id := by
  induction h with
  | @root x hp =>
    refine ⟨by simp, ?_⟩
    intro e he k hk hmem
    simp only [List.reverse_singleton, List.head?_cons, Option.some.injEq] at he
    subst he
    obtain ⟨y, hy, rfl⟩ := List.mem_map.mp hmem
    rw [hk] at hp
    exact findLast_none_iff.mp hp y hy rfl
  | @link x y l hp hr ih =>
    obtain ⟨k, hk, hy⟩ := Option.bind_eq_some_iff.mp hp
    have hyk : y.id = k := (findLast_mem hy).2
    rw [List.reverse_cons]
    refine ⟨List.isChain_append.mpr ⟨ih.1, by simp, ?_⟩, ?_⟩
    · intro a ha b hb
      simp only [List.getLast?_reverse, List.head?_cons, Option.mem_def, Option.some.injEq] at ha hb
      subst ha; subst hb
      rw [hk, hyk]
    · intro e he
      apply ih.2 e
      rwa [List.head?_append_of_ne_nil _ (by simp)] at he

theorem leafEntry_indexed {leafId : LeafArg} {x : SessionEntry}
    (h : leafEntry entries (findLast SessionEntry.id entries) leafId = some x) :
    findLast SessionEntry.id entries x.id = some x := by
  have hlast : entries.getLast? = some x → findLast SessionEntry.id entries x.id = some x := by
    intro hl
    obtain ⟨init, rfl⟩ : ∃ init, entries = init ++ [x] := by
      cases entries using List.reverseRecOn with
      | nil => cases hl
      | append_singleton init y =>
        simp only [List.getLast?_append, List.getLast?_singleton, Option.some_or,
          Option.some.injEq] at hl
        exact ⟨init, by rw [hl]⟩
    exact findLast_last
  cases leafId with
  | null => cases h
  | undefined => exact hlast h
  | id id =>
    simp only [leafEntry] at h
    split at h
    · exact hlast h
    · cases hf : findLast SessionEntry.id entries id with
      | none => rw [hf] at h; exact hlast h
      | some y =>
        rw [hf] at h
        simp only [Option.some_or, Option.some.injEq] at h
        subst h
        rw [(findLast_mem hf).2]; exact hf

/-- What the walk returns is a root-to-leaf path over the entries. -/
theorem buildSessionPath_isSessionPath {leafId : LeafArg}
    (h : buildSessionPath entries leafId none = some path) :
    IsSessionPath path ∧ (∀ e ∈ path, e ∈ entries) ∧
      path.getLast? = leafEntry entries (findLast SessionEntry.id entries) leafId := by
  unfold buildSessionPath at h
  simp only [buildEntryIndex] at h
  cases hleaf : leafEntry entries (findLast SessionEntry.id entries) leafId with
  | none =>
    rw [hleaf] at h
    simp only [Option.some.injEq] at h
    subst h
    exact ⟨⟨by simp, by simp, by simp⟩, by simp, by simp⟩
  | some leaf =>
    rw [hleaf] at h
    obtain ⟨l, hl, rfl⟩ := Option.map_eq_some_iff.mp h
    obtain ⟨hr, hh, -⟩ := walk_rooted hl
    have hidx : ∀ x, l.head? = some x → findLast SessionEntry.id entries x.id = some x := by
      intro x hx
      rw [hh] at hx
      simp only [Option.some.injEq] at hx
      subst hx
      exact leafEntry_indexed hleaf
    have hmem : ∀ e ∈ l, e ∈ entries := by
      intro e he
      cases l with
      | nil => cases he
      | cons y l =>
        rcases List.mem_cons.mp he with rfl | he
        · exact (findLast_mem (hidx _ rfl)).1
        · exact (findLast_mem (hr.mem_nodes e he)).1
    obtain ⟨hchain, hroot⟩ := rooted_isSessionPath hr
    refine ⟨⟨?_, hchain, ?_⟩, ?_, ?_⟩
    · rw [List.map_reverse, List.nodup_reverse]
      exact hr.nodup_keys hidx
    · intro e he k hk hmem'
      obtain ⟨x, hx, rfl⟩ := List.mem_map.mp hmem'
      exact hroot e he _ hk (List.mem_map.mpr ⟨x, hmem x (List.mem_reverse.mp hx), rfl⟩)
    · intro e he
      exact hmem e (List.mem_reverse.mp he)
    · rw [List.getLast?_reverse, hh]

theorem IsSessionPath.rooted (h : IsSessionPath path) (hne : path ≠ [])
    (hidx : ∀ e ∈ path, findLast SessionEntry.id entries e.id = some e)
    (hroot : ∀ e, path.head? = some e →
      e.parentKey.bind (findLast SessionEntry.id entries) = none) :
    Rooted (findLast SessionEntry.id entries) SessionEntry.parentKey path.reverse :=
  rooted_reverse hne h.linked hidx hroot

/-- A root-to-leaf path is the path of its own last entry. -/
theorem buildSessionPath_self (h : IsSessionPath path) :
    buildSessionPath path .undefined none = some path := by
  unfold buildSessionPath
  simp only [buildEntryIndex]
  cases hl : path.getLast? with
  | none => simp [leafEntry, List.getLast?_eq_none_iff.mp hl]
  | some leaf =>
    have hne : path ≠ [] := by rintro rfl; cases hl
    have hidx : ∀ e ∈ path, findLast SessionEntry.id path e.id = some e :=
      fun e he => findLast_of_nodup h.nodup he
    have hroot : ∀ e, path.head? = some e →
        e.parentKey.bind (findLast SessionEntry.id path) = none := by
      intro e he
      cases hk : e.parentKey with
      | none => rfl
      | some k =>
        refine findLast_none_iff.mpr fun x hx hxk => ?_
        exact h.root e he k hk (List.mem_map.mpr ⟨x, hx, hxk⟩)
    have hr := h.rooted hne hidx hroot
    have hw := hr.walk (n := path.length) (x := leaf) (by rw [List.head?_reverse, hl]) (by simp)
    simp [leafEntry, hl, hw]

theorem buildSessionContext_self (h : IsSessionPath path) :
    buildSessionContext path .undefined none = some (contextOfPath path) := by
  rw [buildSessionContext_eq, buildSessionPath_self h]; rfl

/-! ## The entries a path keeps -/

theorem lastMatch_compactionOf_none :
    lastMatch compactionOf path = none ↔ ∀ e ∈ path, e.isCompaction = false := by
  rw [lastMatch_none_iff]
  refine forall₂_congr fun e _ => ?_
  rcases e with ⟨id, parent, ts, body⟩
  cases body <;> simp [compactionOf, SessionEntry.isCompaction]

theorem selectContextEntries_none (h : ∀ e ∈ path, e.isCompaction = false) :
    selectContextEntries path = path := by
  unfold selectContextEntries
  rw [lastMatch_compactionOf_none.mpr h]

theorem compactionOf_isCompaction {b : SessionEntry × String} (h : compactionOf c = some b) :
    c.isCompaction = true := by
  rcases c with ⟨id, parent, ts, body⟩
  cases body <;> simp_all [compactionOf, SessionEntry.isCompaction]

theorem id_ne_of_nodup {x : SessionEntry} (hn : ((pre ++ c :: post).map SessionEntry.id).Nodup)
    (hx : x ∈ pre) : x.id ≠ c.id := by
  rw [List.map_append, List.map_cons, List.nodup_append] at hn
  exact hn.2.2 x.id (List.mem_map.mpr ⟨x, hx, rfl⟩) c.id (by simp)

/-- The entries kept when `c` is the latest compaction of the path. -/
theorem selectContextEntries_split {firstKeptEntryId : String}
    (hn : ((pre ++ c :: post).map SessionEntry.id).Nodup)
    (hc : compactionOf c = some (c, firstKeptEntryId)) (hpost : ∀ e ∈ post, e.isCompaction = false) :
    selectContextEntries (pre ++ c :: post) = c :: keptFrom firstKeptEntryId pre ++ post := by
  have hlast : lastMatch compactionOf (pre ++ c :: post) = some (c, firstKeptEntryId) :=
    lastMatch_eq_of_split hc (lastMatch_none_iff.mp (lastMatch_compactionOf_none.mpr hpost))
  have hidx := findIdx?_key hn
  unfold selectContextEntries
  rw [hlast]
  simp only [hidx]
  simp

theorem path_cases (path : List SessionEntry) :
    (∀ e ∈ path, e.isCompaction = false) ∨
    ∃ pre c firstKeptEntryId post, path = pre ++ c :: post ∧
      compactionOf c = some (c, firstKeptEntryId) ∧ ∀ e ∈ post, e.isCompaction = false := by
  cases h : lastMatch compactionOf path with
  | none => exact .inl (lastMatch_compactionOf_none.mp h)
  | some b =>
    obtain ⟨pre, c, post, e, hc, hpost⟩ := lastMatch_split h
    refine .inr ⟨pre, c, b.2, post, e, ?_, ?_⟩
    · rcases c with ⟨id, parent, ts, body⟩
      cases body <;> simp [compactionOf] at hc ⊢
      exact hc ▸ rfl
    · exact lastMatch_compactionOf_none.mp (lastMatch_none_iff.mpr hpost)

theorem split_unique {pre' post' : List SessionEntry} {c' : SessionEntry}
    {b b' : SessionEntry × String} (h : pre ++ c :: post = pre' ++ c' :: post')
    (hc : compactionOf c = some b) (hpost : ∀ e ∈ post, e.isCompaction = false)
    (hc' : compactionOf c' = some b') (hpost' : ∀ e ∈ post', e.isCompaction = false) :
    pre = pre' ∧ c = c' ∧ post = post' := by
  rcases List.append_eq_append_iff.mp h with ⟨l, rfl, hl⟩ | ⟨l, rfl, hl⟩
  · cases l with
    | nil => simpa using hl
    | cons x l =>
      obtain ⟨-, rfl⟩ := List.cons.inj hl
      have := hpost c' (by simp)
      rw [compactionOf_isCompaction hc'] at this; cases this
  · cases l with
    | nil => simpa [eq_comm] using hl
    | cons x l =>
      obtain ⟨-, rfl⟩ := List.cons.inj hl
      have := hpost' c (by simp)
      rw [compactionOf_isCompaction hc] at this; cases this

end PieLab

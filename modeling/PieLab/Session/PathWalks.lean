import PieLab.Session.FailedSwitch

/-
  Path walks on whatever a file holds

  The loader asks nothing of an entry's `id` and `parentId`. The walk from a leaf
  follows parent ids through the index and keeps no set of the entries it has seen,
  so it ends only where the links end.

  What is proved:
    1. `RawMap.get?_mem` — the index holds entries of the list alone.
    2. `rawWalk_ends_iff` — a walk ends, without a repeated entry, exactly where no
       entry above its start is above itself.
    3. `path_walks_end_iff` — this is when `buildSessionPath` and `getBranch` end.
    4. `loop_never_ends` — a file of one entry that is its own parent is loaded, and
       no path of it is ever found.

  Correspondence (TypeScript ↔ Lean), packages/coding-agent/src/core/session-manager.ts:
    `buildEntryIndex`, `buildSessionPath` ↔ `buildRawIndex`, `buildRawPath`
    `getBranch`                           ↔ `RawManager.getBranch`
  The loops run on fuel: `none` for every amount of it is a loop that never ends.
-/

namespace PieLab

open Lib

/-! ## The walks -/

/-- `map.get(k)` -/
def RawMap.get? {α : Type} (m : RawMap α) (k : Option Json) : Option α :=
  (m.find? fun entry => sameKey entry.1 k).map Prod.snd

/-- `entry.parentId`, where the loop goes on. -/
def rawParentKey (entry : Json) : Option (Option Json) :=
  ((entry.get? "parentId").filter Json.truthy).map some

def buildRawIndex (entries : List Json) : Option (RawMap Json) → RawMap Json
  | some byId => byId
  | none => entries.foldl (fun index entry => RawMap.set (entry.get? "id") entry index) []

/-- The entry `buildSessionPath` starts from. -/
def rawLeafEntry (entries : List Json) (index : RawMap Json) : LeafArg → Option Json
  | .null => none
  | .undefined => entries.getLast?
  | .id id => if id = "" then entries.getLast? else (index.get? (some (.string id))).or entries.getLast?

/-- The loop of both functions, and the entries in path order. -/
def rawWalk (fuel : Nat) (index : RawMap Json) : Option Json → Option (List Json)
  | none => some []
  | some start => (walk index.get? rawParentKey fuel start).map List.reverse

def buildRawPath (fuel : Nat) (entries : List Json) (leafId : LeafArg)
    (byId : Option (RawMap Json)) :
    Option (List Json) :=
  let index := buildRawIndex entries byId
  rawWalk fuel index (rawLeafEntry entries index leafId)

namespace RawManager

/-- `startId ? this.byId.get(startId) : undefined`, where `startId` is `fromId ?? this.leafId` -/
def branchStart (s : RawManager) (fromId : Option String) : Option Json :=
  let startId := (fromId.map Json.string).or s.leafId
  (startId.filter Json.truthy).bind fun id => s.byId.get? (some id)

def getBranch (fuel : Nat) (s : RawManager) (fromId : Option String) : Option (List Json) :=
  rawWalk fuel s.byId (s.branchStart fromId)

end RawManager

/-! ## When they end -/

/-- Going from parent to parent, no entry is met that is above itself. -/
def NoCycleAbove (index : RawMap Json) (start : Json) : Prop :=
  ∀ entry, Relation.ReflTransGen (Links index.get? rawParentKey) start entry →
    ¬ Relation.TransGen (Links index.get? rawParentKey) entry entry

/-- A value the map gives is one of its values. -/
theorem RawMap.get?_mem {α : Type} {m : RawMap α} (k : Option Json) (v : α)
    (h : m.get? k = some v) :
    v ∈ m.map Prod.snd := by
  obtain ⟨entry, hfind, rfl⟩ := Option.map_eq_some_iff.mp h
  exact List.mem_map_of_mem (List.mem_of_find?_eq_some hfind)

theorem rawWalk_ends_iff (index : RawMap Json) (start : Option Json) :
    (∃ fuel path, rawWalk fuel index start = some path ∧ path.Nodup) ↔
      ∀ entry, start = some entry → NoCycleAbove index entry := by
  cases start with
  | none => simp [rawWalk]
  | some start =>
    have hends : (∃ n l, walk index.get? rawParentKey n start = some l) ↔
        NoCycleAbove index start :=
      walk_ends_iff RawMap.get?_mem start
    constructor
    · rintro ⟨fuel, path, hpath, -⟩ entry heq
      obtain rfl := Option.some.inj heq
      obtain ⟨l, hl, -⟩ := Option.map_eq_some_iff.mp hpath
      exact hends.mp ⟨fuel, l, hl⟩
    · intro hcycle
      obtain ⟨fuel, l, hl⟩ := hends.mpr (hcycle start rfl)
      have hnodup : l.reverse.Nodup := List.nodup_reverse.mpr (walk_rooted hl).1.nodup
      exact ⟨fuel, l.reverse, by simp only [rawWalk, hl, Option.map_some], hnodup⟩

/-- Both functions end, and repeat no entry, exactly where no entry above their start is above itself. -/
theorem path_walks_end_iff (entries : List Json) :
    (∀ (leafId : LeafArg) (byId : Option (RawMap Json)),
      (∃ fuel path, buildRawPath fuel entries leafId byId = some path ∧ path.Nodup) ↔
        ∀ leaf, rawLeafEntry entries (buildRawIndex entries byId) leafId = some leaf →
          NoCycleAbove (buildRawIndex entries byId) leaf) ∧
    ∀ (s : RawManager) (fromId : Option String),
      (∃ fuel path, s.getBranch fuel fromId = some path ∧ path.Nodup) ↔
        ∀ start, s.branchStart fromId = some start → NoCycleAbove s.byId start := by
  constructor
  · intro leafId byId
    exact rawWalk_ends_iff _ _
  · intro s fromId
    exact rawWalk_ends_iff _ _

section Examples

/-- An entry that is its own parent. -/
def loopEntry : Json :=
  .object [("type", .string "custom"), ("customType", .string "note"), ("id", .string "a"),
    ("parentId", .string "a"), ("timestamp", .string "t")]

/-- The session that has loaded it. -/
def loopSession : RawManager :=
  ({ RawManager.openSession with fileEntries := [sessionHeader3, loopEntry] } : RawManager).buildIndex.1

theorem loopEntry_links {index : RawMap Json}
    (h : index.get? (some (.string "a")) = some loopEntry) :
    ¬ NoCycleAbove index loopEntry := by
  have hlink : Links index.get? rawParentKey loopEntry loopEntry := h
  exact fun hcycle => hcycle loopEntry .refl (.single hlink)

theorem loop_never_ends :
    loadRawEntries digitFormat [printLines digitFormat [sessionHeader3, loopEntry]] = [sessionHeader3, loopEntry] ∧
      ¬ (∃ fuel path, buildRawPath fuel [loopEntry] .undefined none = some path ∧ path.Nodup) ∧
      ¬ ∃ fuel path, loopSession.getBranch fuel none = some path ∧ path.Nodup := by
  have hvalid : Valid digitFormat loopEntry :=
    ⟨by decide, trivial, trivial, trivial, trivial, trivial, trivial⟩
  refine ⟨?_, ?_, ?_⟩
  · have hentries : ∀ v ∈ [sessionHeader3, loopEntry], Valid digitFormat v := by
      intro v hv
      rcases List.mem_pair.mp hv with rfl | rfl
      · exact sessionHeader3_valid
      · exact hvalid
    have hload := loadText_printLines hentries []
    rw [List.append_nil] at hload
    unfold loadRawEntries
    rw [loadLines_eq, List.flatten_cons, List.flatten_nil, List.append_nil, hload]
    rfl
  · unfold buildRawPath
    rw [rawWalk_ends_iff]
    exact fun h => loopEntry_links rfl (h loopEntry rfl)
  · unfold RawManager.getBranch
    rw [rawWalk_ends_iff]
    exact fun h => loopEntry_links rfl (h loopEntry rfl)

end Examples

end PieLab

import Mathlib
import PieLab.Hashline.Format
import PieLab.Lib.OrderedMap

/-
  The snapshot store

  What a file read or a patch has seen is recorded under the path and a tag of
  four digits; a later patch names the tag and is applied against the text found
  under it. The tag is computed of the text without the white space that ends
  its lines, so that texts that differ in nothing else share their tag.

  What is proved:
    1. `TagsApart.after` — in every store reached, the snapshots of a path have
       different tags.
    2. `snapshot_store_returns` — in a run, every recorded text is found again
       exactly when no text is recorded whose tag another text of the path has.
    3. `tag_shared` — a text and the same text with a space more.

  Correspondence (TypeScript ↔ Lean): the names of packages/hashline/src/snapshots.ts.
  The objects of a path's history differ from each other, so that the filter by
  identity leaves out the one that was found. `Date.now()` is an input of `record`.
-/

namespace PieLab

open Lib

structure Snapshot where
  path : String
  text : String
  hash : String
  recordedAt : Int
  deriving DecidableEq, Repr

structure InMemorySnapshotStore where
  versions : OrderedMap String (List Snapshot)
  maxPaths : Nat
  maxVersionsPerPath : Nat

structure InMemorySnapshotStoreOptions where
  maxPaths : Option Nat
  maxVersionsPerPath : Option Nat

namespace InMemorySnapshotStore

def DEFAULT_MAX_PATHS : Nat := 30
def DEFAULT_MAX_VERSIONS_PER_PATH : Nat := 4

def create (options : InMemorySnapshotStoreOptions) : InMemorySnapshotStore where
  versions := .empty
  maxPaths := options.maxPaths.getD DEFAULT_MAX_PATHS
  maxVersionsPerPath := options.maxVersionsPerPath.getD DEFAULT_MAX_VERSIONS_PER_PATH

/-- `this.#versions.get(path) ?? []` -/
def history (store : InMemorySnapshotStore) (path : String) : List Snapshot :=
  (store.versions.get? path).getD []

def head (store : InMemorySnapshotStore) (path : String) : Option Snapshot :=
  (store.history path).head?

def byHash (store : InMemorySnapshotStore) (path hash : String) : Option Snapshot :=
  let normalizedHash := String.ofList (toUpperCase hash.toList)
  (store.history path).find? fun snapshot => snapshot.hash == normalizedHash

/-- The first key is deleted while there are too many. -/
def evictOldest {κ α : Type} (maxPaths : Nat) : List (κ × α) → List (κ × α)
  | [] => []
  | oldest :: rest =>
    if maxPaths < rest.length + 1 then evictOldest maxPaths rest else oldest :: rest

theorem evictOldest_suffix {κ α : Type} (maxPaths : Nat) (entries : List (κ × α)) :
    evictOldest maxPaths entries <:+ entries := by
  induction entries with
  | nil => exact List.suffix_refl []
  | cons oldest rest ih =>
    rw [evictOldest]
    by_cases h : maxPaths < rest.length + 1
    · rw [if_pos h]
      exact ih.trans (List.suffix_cons oldest rest)
    · rw [if_neg h]

def evictOldestPathIfNeeded (store : InMemorySnapshotStore) : InMemorySnapshotStore :=
  { store with
    versions :=
      { entries := evictOldest store.maxPaths store.versions.entries
        nodup := store.versions.nodup.sublist
          ((evictOldest_suffix store.maxPaths store.versions.entries).sublist.map Prod.fst) } }

/-- The path goes last, with this history. -/
def put (store : InMemorySnapshotStore) (path : String) (history : List Snapshot) :
    InMemorySnapshotStore :=
  { store with versions := (store.versions.delete path).set path history }

def record (sha256Hex : String → String) (store : InMemorySnapshotStore) (path fullText : String)
    (now : Int) : InMemorySnapshotStore × String :=
  let text := normalizeSnapshotText fullText
  let hash := computeFileHash sha256Hex text
  let history := store.history path
  match history.find? fun snapshot => snapshot.hash == hash with
  | some existing =>
    -- the snapshot that has the tag keeps its text
    let others := history.eraseP fun snapshot => snapshot.hash == hash
    (store.put path ({ existing with recordedAt := now } :: others), hash)
  | none =>
    let snapshot : Snapshot := { path := path, text := text, hash := hash, recordedAt := now }
    ((store.put path ((snapshot :: history).take store.maxVersionsPerPath)).evictOldestPathIfNeeded,
      hash)

def invalidate (store : InMemorySnapshotStore) (path : String) : InMemorySnapshotStore :=
  { store with versions := store.versions.delete path }

def clear (store : InMemorySnapshotStore) : InMemorySnapshotStore :=
  { store with versions := .empty }

inductive Call where
  | record (path fullText : String) (now : Int)
  | invalidate (path : String)
  | clear
  deriving DecidableEq, Repr

def call (sha256Hex : String → String) (store : InMemorySnapshotStore) :
    Call → InMemorySnapshotStore
  | .record path fullText now => (store.record sha256Hex path fullText now).1
  | .invalidate path => store.invalidate path
  | .clear => store.clear

/-- The store after the calls. -/
def after (sha256Hex : String → String) (store : InMemorySnapshotStore) (calls : List Call) :
    InMemorySnapshotStore :=
  calls.foldl (call sha256Hex) store

/-! ## Histories -/

variable {sha256Hex : String → String} {store : InMemorySnapshotStore}

theorem history_put (store : InMemorySnapshotStore) (path path' : String)
    (history : List Snapshot) :
    (store.put path history).history path' =
      if path = path' then history else store.history path' := by
  unfold InMemorySnapshotStore.history put
  rw [OrderedMap.get?_set, OrderedMap.get?_delete]
  by_cases h : path = path' <;> simp [h]

theorem history_invalidate (store : InMemorySnapshotStore) (path path' : String) :
    (store.invalidate path).history path' = if path = path' then [] else store.history path' := by
  unfold InMemorySnapshotStore.history invalidate
  rw [OrderedMap.get?_delete]
  by_cases h : path = path' <;> simp [h]

theorem history_evict (store : InMemorySnapshotStore) (path : String) :
    store.evictOldestPathIfNeeded.history path = store.history path ∨
      store.evictOldestPathIfNeeded.history path = [] := by
  cases hget : store.evictOldestPathIfNeeded.versions.get? path with
  | none =>
    right
    show (store.evictOldestPathIfNeeded.versions.get? path).getD [] = []
    rw [hget]
    rfl
  | some history =>
    left
    have hmem : (path, history) ∈ evictOldest store.maxPaths store.versions.entries :=
      store.evictOldestPathIfNeeded.versions.mem_entries_iff.mpr hget
    have hkept : store.versions.get? path = some history :=
      store.versions.mem_entries_iff.mp ((evictOldest_suffix _ _).subset hmem)
    show (store.evictOldestPathIfNeeded.versions.get? path).getD [] =
      (store.versions.get? path).getD []
    rw [hget, hkept]

theorem evictOldest_concat {κ α : Type} {maxPaths : Nat} (hmax : 1 ≤ maxPaths)
    (entries : List (κ × α)) (entry : κ × α) : entry ∈ evictOldest maxPaths (entries ++ [entry]) := by
  induction entries with
  | nil =>
    have hfew : ¬ maxPaths < ([] : List (κ × α)).length + 1 := by
      rw [List.length_nil]
      omega
    rw [List.nil_append, evictOldest, if_neg hfew]
    exact List.mem_singleton_self entry
  | cons oldest rest ih =>
    rw [List.cons_append, evictOldest]
    by_cases h : maxPaths < (rest ++ [entry]).length + 1
    · rw [if_pos h]
      exact ih
    · rw [if_neg h]
      simp

theorem history_evict_put (hmax : 1 ≤ store.maxPaths) (path : String) (history : List Snapshot) :
    (store.put path history).evictOldestPathIfNeeded.history path = history := by
  have hnew : path ∉ (store.versions.delete path).entries.map Prod.fst := by
    intro hmem
    obtain ⟨entry, hentry, hpath⟩ := List.mem_map.mp hmem
    have hne := (List.mem_filter.mp hentry).2
    exact absurd hpath (by simpa using hne)
  have hlast : (store.put path history).versions.entries =
      (store.versions.delete path).entries ++ [(path, history)] :=
    OrderedMap.entries_set_new _ history hnew
  have hmem : (path, history) ∈
      (store.put path history).evictOldestPathIfNeeded.versions.entries := by
    show (path, history) ∈ evictOldest store.maxPaths (store.put path history).versions.entries
    rw [hlast]
    exact evictOldest_concat hmax _ _
  have hget := (OrderedMap.mem_entries_iff _).mp hmem
  show ((store.put path history).evictOldestPathIfNeeded.versions.get? path).getD [] = history
  rw [hget]
  rfl

/-! ## One record -/

/-- The tag a text is recorded under. -/
def textTag (sha256Hex : String → String) (fullText : String) : String :=
  computeFileHash sha256Hex (normalizeSnapshotText fullText)

/-- The snapshot of a path that has the tag. -/
def withTag (store : InMemorySnapshotStore) (path tag : String) : Option Snapshot :=
  (store.history path).find? fun snapshot => snapshot.hash == tag

theorem record_existing {path fullText : String} {now : Int} {existing : Snapshot}
    (h : store.withTag path (textTag sha256Hex fullText) = some existing) :
    store.record sha256Hex path fullText now =
      (store.put path ({ existing with recordedAt := now } ::
        (store.history path).eraseP fun snapshot => snapshot.hash == textTag sha256Hex fullText),
        textTag sha256Hex fullText) := by
  unfold withTag textTag at h
  unfold InMemorySnapshotStore.record
  simp only [h]
  rfl

theorem record_new {path fullText : String} {now : Int}
    (h : store.withTag path (textTag sha256Hex fullText) = none) :
    store.record sha256Hex path fullText now =
      ((store.put path ((⟨path, normalizeSnapshotText fullText, textTag sha256Hex fullText, now⟩ ::
          store.history path).take store.maxVersionsPerPath)).evictOldestPathIfNeeded,
        textTag sha256Hex fullText) := by
  unfold withTag textTag at h
  unfold InMemorySnapshotStore.record
  simp only [h]
  rfl

theorem history_record (hpaths : 1 ≤ store.maxPaths) (hversions : 1 ≤ store.maxVersionsPerPath)
    (path fullText : String) (now : Int) :
    ∃ snapshot others, (store.record sha256Hex path fullText now).1.history path =
        snapshot :: others ∧ snapshot.hash = textTag sha256Hex fullText ∧
      snapshot.text = ((store.withTag path (textTag sha256Hex fullText)).map Snapshot.text).getD
        (normalizeSnapshotText fullText) := by
  cases hfind : store.withTag path (textTag sha256Hex fullText) with
  | some existing =>
    rw [record_existing hfind, history_put, if_pos rfl]
    have hfits := List.find?_some hfind
    exact ⟨_, _, rfl, by simpa using hfits, rfl⟩
  | none =>
    rw [record_new hfind, history_evict_put hpaths]
    obtain ⟨n, hn⟩ := Nat.exists_eq_add_of_le' hversions
    rw [hn, List.take_succ_cons]
    exact ⟨_, _, rfl, rfl, rfl⟩

theorem toUpper_ne_ligature {c : Char} (h : c ≠ 'ﬀ') : c.toUpper ≠ 'ﬀ' := by
  by_cases hlower : 97 ≤ c.toNat ∧ c.toNat ≤ 122
  · have hofNat : c = Char.ofNat c.toNat := (Char.ofNat_toNat c).symm
    generalize c.toNat = n at hofNat hlower
    subst hofNat
    obtain ⟨hlow, hhigh⟩ := hlower
    interval_cases n <;> decide
  · have hsame : c.toUpper = c := dif_neg hlower
    rwa [hsame]

theorem toUpperCase_twice (hash : List Char) :
    toUpperCase (toUpperCase hash) = toUpperCase hash := by
  unfold toUpperCase
  rw [List.flatMap_assoc]
  apply List.flatMap_congr
  intro c _
  by_cases hc : c = 'ﬀ'
  · rw [if_pos hc]
    decide
  · simp [hc, toUpper_ne_ligature hc]

theorem upper_textTag (fullText : String) :
    String.ofList (toUpperCase (textTag sha256Hex fullText).toList) = textTag sha256Hex fullText := by
  unfold textTag computeFileHash
  simp [toUpperCase_twice]

theorem found_record (hpaths : 1 ≤ store.maxPaths) (hversions : 1 ≤ store.maxVersionsPerPath)
    (path fullText : String) (now : Int) :
    let recorded := store.record sha256Hex path fullText now
    let text := ((store.withTag path (textTag sha256Hex fullText)).map Snapshot.text).getD
      (normalizeSnapshotText fullText)
    (recorded.1.head path).map Snapshot.text = some text ∧
      (recorded.1.byHash path recorded.2).map Snapshot.text = some text := by
  intro recorded text
  obtain ⟨snapshot, others, hhistory, hhash, htext⟩ :=
    @history_record sha256Hex _ hpaths hversions path fullText now
  have htag : recorded.2 = textTag sha256Hex fullText := by
    cases hfind : store.withTag path (textTag sha256Hex fullText) with
    | some existing => exact congrArg Prod.snd (record_existing hfind)
    | none => exact congrArg Prod.snd (record_new hfind)
  have hhead : recorded.1.head path = some snapshot := by
    show (recorded.1.history path).head? = some snapshot
    rw [hhistory]
    rfl
  have hfound : recorded.1.byHash path recorded.2 = some snapshot := by
    unfold byHash
    rw [htag, upper_textTag, hhistory]
    simp [hhash]
  rw [hhead, hfound]
  exact ⟨congrArg some htext, congrArg some htext⟩

/-! ## What every store keeps -/

/-- The snapshots of a path have different tags. -/
def TagsApart (store : InMemorySnapshotStore) : Prop :=
  ∀ path, ((store.history path).map Snapshot.hash).Nodup

theorem TagsApart.put (h : store.TagsApart) {path : String} {history : List Snapshot}
    (hnodup : (history.map Snapshot.hash).Nodup) : (store.put path history).TagsApart := by
  intro path'
  rw [history_put]
  by_cases hpath : path = path'
  · rw [if_pos hpath]
    exact hnodup
  · rw [if_neg hpath]
    exact h path'

theorem TagsApart.evict (h : store.TagsApart) : store.evictOldestPathIfNeeded.TagsApart := by
  intro path
  rcases history_evict store path with heq | heq
  · rw [heq]
    exact h path
  · rw [heq]
    exact List.nodup_nil

theorem TagsApart.record (h : store.TagsApart) (path fullText : String) (now : Int) :
    (store.record sha256Hex path fullText now).1.TagsApart := by
  cases hfind : store.withTag path (textTag sha256Hex fullText) with
  | some existing =>
    rw [record_existing hfind]
    apply h.put
    obtain ⟨hfits, front, back, hsplit, hfront⟩ := List.find?_eq_some_iff_append.mp hfind
    have herase : (store.history path).eraseP
        (fun snapshot => snapshot.hash == textTag sha256Hex fullText) = front ++ back := by
      rw [hsplit, List.eraseP_append_right _ (by simpa using hfront)]
      simp [hfits]
    have hperm : (existing.hash :: (front ++ back).map Snapshot.hash).Perm
        ((store.history path).map Snapshot.hash) := by
      rw [hsplit, List.map_append, List.map_append, List.map_cons]
      exact List.perm_middle.symm
    rw [herase, List.map_cons]
    exact hperm.nodup_iff.mpr (h path)
  | none =>
    rw [record_new hfind]
    apply TagsApart.evict
    apply h.put
    have hnew : textTag sha256Hex fullText ∉ (store.history path).map Snapshot.hash := by
      intro hmem
      obtain ⟨snapshot, hsnapshot, hhash⟩ := List.mem_map.mp hmem
      have hnone := List.find?_eq_none.mp hfind snapshot hsnapshot
      exact hnone (by simpa using hhash)
    apply List.Nodup.sublist ((List.take_sublist _ _).map Snapshot.hash)
    exact List.nodup_cons.mpr ⟨hnew, h path⟩

theorem TagsApart.call (h : store.TagsApart) (call : Call) :
    (store.call sha256Hex call).TagsApart := by
  cases call with
  | record path fullText now => exact h.record path fullText now
  | invalidate path =>
    intro path'
    show (((store.invalidate path).history path').map Snapshot.hash).Nodup
    rw [history_invalidate]
    by_cases hpath : path = path'
    · rw [if_pos hpath]
      exact List.nodup_nil
    · rw [if_neg hpath]
      exact h path'
  | clear =>
    intro path
    exact List.nodup_nil

/-- In every store reached the snapshots of a path have different tags. -/
theorem TagsApart.after (h : store.TagsApart) (calls : List Call) :
    (store.after sha256Hex calls).TagsApart := by
  unfold InMemorySnapshotStore.after
  induction calls generalizing store with
  | nil => exact h
  | cons call rest ih => exact ih (h.call call)

theorem limits_call (store : InMemorySnapshotStore) (call : Call) :
    (store.call sha256Hex call).maxPaths = store.maxPaths ∧
      (store.call sha256Hex call).maxVersionsPerPath = store.maxVersionsPerPath := by
  cases call with
  | record path fullText now =>
    have hcall : store.call sha256Hex (.record path fullText now) =
        (store.record sha256Hex path fullText now).1 := rfl
    cases hfind : store.withTag path (textTag sha256Hex fullText) with
    | some existing =>
      rw [hcall, record_existing hfind]
      exact ⟨rfl, rfl⟩
    | none =>
      rw [hcall, record_new hfind]
      exact ⟨rfl, rfl⟩
  | invalidate path => exact ⟨rfl, rfl⟩
  | clear => exact ⟨rfl, rfl⟩

theorem limits_after (store : InMemorySnapshotStore) (calls : List Call) :
    (store.after sha256Hex calls).maxPaths = store.maxPaths ∧
      (store.after sha256Hex calls).maxVersionsPerPath = store.maxVersionsPerPath := by
  unfold InMemorySnapshotStore.after
  induction calls generalizing store with
  | nil => exact ⟨rfl, rfl⟩
  | cons call rest ih =>
    obtain ⟨hpaths, hversions⟩ := @limits_call sha256Hex store call
    obtain ⟨hpaths', hversions'⟩ := ih (store.call sha256Hex call)
    exact ⟨hpaths'.trans hpaths, hversions'.trans hversions⟩

/-! ## Whole runs -/

/-- Right after a record, `head` and `byHash` return the text that was recorded. -/
def ReturnsRecorded (sha256Hex : String → String) (store : InMemorySnapshotStore)
    (calls : List Call) : Prop :=
  ∀ front path fullText now back, calls = front ++ .record path fullText now :: back →
    let recorded := (store.after sha256Hex front).record sha256Hex path fullText now
    (recorded.1.head path).map Snapshot.text = some (normalizeSnapshotText fullText) ∧
    (recorded.1.byHash path recorded.2).map Snapshot.text = some (normalizeSnapshotText fullText)

/-- No text is recorded under a tag that is that of another text of the path. -/
def KeepsTagsApart (sha256Hex : String → String) (store : InMemorySnapshotStore)
    (calls : List Call) : Prop :=
  ∀ front path fullText now back, calls = front ++ .record path fullText now :: back →
    ∀ snapshot ∈ (store.after sha256Hex front).history path,
      snapshot.hash = computeFileHash sha256Hex (normalizeSnapshotText fullText) →
      snapshot.text = normalizeSnapshotText fullText

theorem text_withTag_iff (h : store.TagsApart) (path fullText : String) :
    ((store.withTag path (textTag sha256Hex fullText)).map Snapshot.text).getD
        (normalizeSnapshotText fullText) = normalizeSnapshotText fullText ↔
      ∀ snapshot ∈ store.history path, snapshot.hash = textTag sha256Hex fullText →
        snapshot.text = normalizeSnapshotText fullText := by
  cases hfind : store.withTag path (textTag sha256Hex fullText) with
  | none =>
    constructor
    · intro _ snapshot hsnapshot hhash
      have hnone := List.find?_eq_none.mp hfind snapshot hsnapshot
      exact absurd (by simpa using hhash) hnone
    · intro _
      rfl
  | some existing =>
    have hmem : existing ∈ store.history path := List.mem_of_find?_eq_some hfind
    have hfits : existing.hash = textTag sha256Hex fullText := by
      have hfits := List.find?_some hfind
      simpa using hfits
    constructor
    · intro htext snapshot hsnapshot hhash
      have hsame : snapshot = existing :=
        List.inj_on_of_nodup_map (h path) hsnapshot hmem (hhash.trans hfits.symm)
      rw [hsame]
      exact htext
    · intro hall
      exact hall existing hmem hfits

/-- Every recorded text is returned exactly when no record meets its tag under another text. -/
theorem snapshot_store_returns (sha256Hex : String → String)
    (options : InMemorySnapshotStoreOptions) (hpaths : 1 ≤ (create options).maxPaths)
    (hversions : 1 ≤ (create options).maxVersionsPerPath) (calls : List Call) :
    ReturnsRecorded sha256Hex (create options) calls ↔
      KeepsTagsApart sha256Hex (create options) calls := by
  have hreached : ∀ front, ((create options).after sha256Hex front).TagsApart := by
    intro front
    apply TagsApart.after
    intro path
    exact List.nodup_nil
  have hone : ∀ front path fullText now,
      (let recorded := ((create options).after sha256Hex front).record sha256Hex path fullText now
      (recorded.1.head path).map Snapshot.text = some (normalizeSnapshotText fullText) ∧
      (recorded.1.byHash path recorded.2).map Snapshot.text =
        some (normalizeSnapshotText fullText)) ↔
      ∀ snapshot ∈ ((create options).after sha256Hex front).history path,
        snapshot.hash = textTag sha256Hex fullText →
        snapshot.text = normalizeSnapshotText fullText := by
    intro front path fullText now
    obtain ⟨hmaxPaths, hmaxVersions⟩ := @limits_after sha256Hex (create options) front
    obtain ⟨hhead, hhash⟩ := @found_record sha256Hex _ (by rw [hmaxPaths]; exact hpaths)
      (by rw [hmaxVersions]; exact hversions) path fullText now
    rw [← text_withTag_iff (hreached front) path fullText]
    constructor
    · intro hreturns
      exact Option.some.inj (hhead.symm.trans hreturns.1)
    · intro htext
      rw [htext] at hhead hhash
      exact ⟨hhead, hhash⟩
  constructor
  · intro hreturns front path fullText now back hcalls
    exact (hone front path fullText now).mp (hreturns front path fullText now back hcalls)
  · intro hkeeps front path fullText now back hcalls
    exact (hone front path fullText now).mpr (hkeeps front path fullText now back hcalls)

/-- The hash of `a`. -/
def hashOfA (_ : String) : String :=
  "ca978112ca1bbdcafac231b39a23dc4da786eff8147c4e72b9807785afee48bb"

theorem snapshot_store_returns_example :
    ReturnsRecorded hashOfA (create { maxPaths := none, maxVersionsPerPath := none })
      [.record "f" "a" 1, .record "f" "a" 2] := by
  apply (snapshot_store_returns hashOfA { maxPaths := none, maxVersionsPerPath := none }
    (by decide) (by decide) _).mpr
  intro front path fullText now back hcalls snapshot hsnapshot _
  match front, hcalls with
  | [], hcalls =>
    exact absurd hsnapshot List.not_mem_nil
  | [call], hcalls =>
    have hhistory : ((create { maxPaths := none, maxVersionsPerPath := none }).after hashOfA
        [.record "f" "a" 1]).history "f" = [⟨"f", "a", "CA97", 1⟩] := by decide
    have hsame : normalizeSnapshotText "a" = "a" := by decide
    simp only [List.cons_append, List.nil_append, List.cons.injEq, Call.record.injEq] at hcalls
    obtain ⟨rfl, ⟨rfl, rfl, rfl⟩, rfl⟩ := hcalls
    rw [hhistory, List.mem_singleton] at hsnapshot
    rw [hsnapshot]
    exact hsame.symm
  | call :: call' :: more, hcalls =>
    have hlength := congrArg List.length hcalls
    simp only [List.length_cons, List.length_append, List.length_nil] at hlength
    omega

/-- A text and the same text with a space behind it: the second record finds the first text. -/
theorem tag_shared :
    ¬ ReturnsRecorded hashOfA (create { maxPaths := none, maxVersionsPerPath := none })
      [.record "f" "a" 1, .record "f" "a " 2] := by
  intro h
  have hlast := h [.record "f" "a" 1] "f" "a " 2 [] rfl
  exact absurd hlast.1 (by decide)

end InMemorySnapshotStore

end PieLab

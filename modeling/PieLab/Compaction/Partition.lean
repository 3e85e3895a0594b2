import Mathlib.Data.List.TakeWhile
import PieLab.Compaction.Prepare

/-
  Compaction partitions the context

  A compaction moves the messages before its cut out of the context and leaves
  the rest. Three indices bound the parts: where the previous compaction's kept
  region starts, where a split turn starts, and the cut.

  What is proved:
    1. `before_messages` — the context before the compaction has the messages of
       the entries from the boundary on.
    2. `after_messages` — the context after it has those from the cut on.
    3. `compaction_partitions` — so what is summarized, the turn prefix and the
       context after it make up the context before it, in order.
    4. `partition_fails` — the two kinds of path the argument does not cover: a
       compaction that keeps from an entry behind it, which the context builder
       does not find and `prepareCompaction` does; and a compaction summary
       stored as a message entry, which is a summary to the one and a message
       to the other.
-/

namespace PieLab

open Lib

/-- The messages of a context that are no compaction summaries. -/
def withoutSummaries (messages : List AgentMessage) : List AgentMessage :=
  messages.filter (fun m => !m.isCompactionSummary)

/-- Every branch summary on the path has a text. -/
def BranchSummariesNonEmpty (path : List SessionEntry) : Prop :=
  ∀ e ∈ path, ∀ fromId summary details fromHook,
    e.body = .branchSummary fromId summary details fromHook → summary ≠ ""

/-- No message entry is a compaction summary; `appendMessage` does not take one. -/
def NoStoredSummary (path : List SessionEntry) : Prop :=
  ∀ e ∈ path, ∀ m, e.body ≠ .message (.compactionSummary m)

/-- The latest compaction does not keep from an entry that stands behind it. -/
def KeepsEarlier (path : List SessionEntry) : Prop :=
  ∀ pre c firstKeptEntryId post, path = pre ++ c :: post →
    compactionOf c = some (c, firstKeptEntryId) → (∀ e ∈ post, e.isCompaction = false) →
    firstKeptEntryId ∉ post.map SessionEntry.id

/-! ## One entry, as context message and as message to summarize -/

variable {e c : SessionEntry} {path : List SessionEntry}

theorem withoutSummaries_entry (hbranch : ∀ fromId summary details fromHook,
      e.body = .branchSummary fromId summary details fromHook → summary ≠ "")
    (hstored : ∀ m, e.body ≠ .message (.compactionSummary m)) :
    withoutSummaries (sessionEntryToContextMessages e) =
      (getMessageFromEntryForCompaction e).toList := by
  rcases e with ⟨id, parent, ts, body⟩
  cases body with
  | message m =>
    cases m with
    | compactionSummary s => exact absurd rfl (hstored s)
    | _ => rfl
  | branchSummary fromId summary details fromHook =>
    have hne := hbranch _ _ _ _ rfl
    simp [withoutSummaries, sessionEntryToContextMessages, getMessageFromEntryForCompaction,
      getMessageFromEntry, SessionEntry.isCompaction, hne, createBranchSummaryMessage,
      AgentMessage.isCompactionSummary]
  | _ => rfl

theorem withoutSummaries_entries {es : List SessionEntry} (hbranch : BranchSummariesNonEmpty es)
    (hstored : NoStoredSummary es) :
    withoutSummaries (es.flatMap sessionEntryToContextMessages) =
      es.filterMap getMessageFromEntryForCompaction := by
  unfold withoutSummaries
  rw [List.filter_flatMap, List.filterMap_eq_flatMap_toList]
  exact List.flatMap_congr fun e he =>
    withoutSummaries_entry (hbranch e he) (hstored e he)

theorem withoutSummaries_compactionMessage (c : SessionEntry) :
    withoutSummaries (Harness.compactionMessage c) = [] := by
  rcases c with ⟨id, parent, ts, body⟩
  cases body <;> rfl

/-! ## Before -/

theorem drop_boundaryStart {pre post : List SessionEntry} {summary firstKeptEntryId : String}
    {tokensBefore : Nat} {details : Option CompactionDetails} {fromHook : Bool}
    (hn : ((pre ++ c :: post).map SessionEntry.id).Nodup)
    (hc : c.body = .compaction summary firstKeptEntryId tokensBefore details fromHook)
    (hpost : ∀ e ∈ post, e.isCompaction = false)
    (hearlier : firstKeptEntryId ∉ post.map SessionEntry.id) :
    ((pre ++ c :: post).drop (previousBoundary (pre ++ c :: post)).boundaryStart).filterMap
        getMessageFromEntryForCompaction =
      (keptFrom firstKeptEntryId pre ++ post).filterMap getMessageFromEntryForCompaction := by
  have hcnone : getMessageFromEntryForCompaction c = none := by
    simp [getMessageFromEntryForCompaction, SessionEntry.isCompaction, hc]
  rw [previousBoundary_split hc hpost]
  simp only
  rw [List.findIdx?_append]
  cases hpre : pre.findIdx? (fun e => e.id == firstKeptEntryId) with
  | some i =>
    -- the kept region starts in front of the compaction
    obtain ⟨hi, hidx⟩ := List.findIdx?_eq_some_iff_findIdx_eq.mp hpre
    have hkept : keptFrom firstKeptEntryId pre = pre.drop i := by
      unfold keptFrom
      rw [List.dropWhile_eq_drop_findIdx_not]
      congr 1
      rw [← hidx]
      congr 1
      funext e
      simp [Bool.beq_eq_decide_eq]
    simp only [Option.some_or, Option.getD_some]
    rw [List.drop_append_of_le_length (by omega), hkept, List.filterMap_append,
      List.filterMap_append, List.filterMap_cons, hcnone]
  | none =>
    have hkept : keptFrom firstKeptEntryId pre = [] := by
      unfold keptFrom
      rw [List.dropWhile_eq_nil_iff]
      intro e he
      simpa using (List.findIdx?_eq_none_iff.mp hpre) e he
    rw [hkept, List.nil_append]
    by_cases hcid : c.id = firstKeptEntryId
    · -- the compaction names itself: nothing in front of it is kept
      simp [List.findIdx?_cons, hcid, hcnone]
    · have hrest : (c :: post).findIdx? (fun e => e.id == firstKeptEntryId) = none := by
        rw [List.findIdx?_eq_none_iff]
        intro e he
        rcases List.mem_cons.mp he with rfl | he
        · simpa using hcid
        · have hne : e.id ≠ firstKeptEntryId :=
            fun heq => hearlier (List.mem_map.mpr ⟨e, he, heq⟩)
          simpa using hne
      simp [hrest]

/-- The context before the compaction: the messages of the entries from the
boundary on. -/
theorem before_messages (hpath : IsSessionPath path) (hbranch : BranchSummariesNonEmpty path)
    (hstored : NoStoredSummary path) (hearlier : KeepsEarlier path) :
    withoutSummaries (contextOfPath path).messages =
      messagesBetween path (previousBoundary path).boundaryStart path.length := by
  unfold messagesBetween
  rw [slice_length_right]
  rcases path_cases path with hno | ⟨pre, c, firstKeptEntryId, post, rfl, hc, hpost⟩
  · rw [previousBoundary_none hno]
    show withoutSummaries ((selectContextEntries path).flatMap _) = _
    rw [selectContextEntries_none hno, withoutSummaries_entries hbranch hstored]
    rfl
  · have hsub : ∀ e ∈ keptFrom firstKeptEntryId pre ++ post, e ∈ pre ++ c :: post := by
      intro e he
      rcases List.mem_append.mp he with he | he
      · exact List.mem_append_left _ ((List.dropWhile_sublist _).subset he)
      · simp [he]
    rw [contextOfPath_messages hpath.nodup hc hpost]
    have hbody : ∃ summary tokensBefore details fromHook,
        c.body = .compaction summary firstKeptEntryId tokensBefore details fromHook := by
      rcases c with ⟨id, parent, ts, body⟩
      cases body <;> simp_all [compactionOf]
    obtain ⟨summary, tokensBefore, details, fromHook, hbody⟩ := hbody
    rw [drop_boundaryStart hpath.nodup hbody hpost (hearlier pre c _ post rfl hc hpost)]
    unfold withoutSummaries
    rw [List.filter_append]
    show withoutSummaries _ ++ withoutSummaries _ = _
    rw [withoutSummaries_compactionMessage, List.nil_append]
    exact withoutSummaries_entries (fun e he => hbranch e (hsub e he))
      (fun e he => hstored e (hsub e he))

/-! ## After -/

theorem keptFrom_getElem (hn : (path.map SessionEntry.id).Nodup) {i : Nat}
    (hi : path[i]? = some e) : keptFrom e.id path = path.drop i := by
  unfold keptFrom
  obtain ⟨hlt, rfl⟩ := List.getElem?_eq_some_iff.mp hi
  have hbefore : ∀ x ∈ path.take i, decide (x.id ≠ path[i].id) = true := by
    intro x hx
    obtain ⟨j, hj, rfl⟩ := List.mem_take_iff_getElem.mp hx
    have hji : j ≠ i := by omega
    simp only [ne_eq, decide_eq_true_eq]
    intro heq
    apply hji
    have hj' : j < (path.map SessionEntry.id).length := by rw [List.length_map]; omega
    have hi' : i < (path.map SessionEntry.id).length := by rw [List.length_map]; exact hlt
    have hmap : (path.map SessionEntry.id)[j] = (path.map SessionEntry.id)[i] := by
      simpa using heq
    exact hn.getElem_inj_iff.mp hmap
  calc List.dropWhile (fun x => decide (x.id ≠ path[i].id)) path
      = List.dropWhile (fun x => decide (x.id ≠ path[i].id)) (path.take i ++ path.drop i) := by
        rw [List.take_append_drop]
    _ = List.dropWhile (fun x => decide (x.id ≠ path[i].id)) (path.drop i) := by
        rw [List.dropWhile_append_of_pos hbefore]
    _ = path.drop i := by
        rw [List.drop_eq_getElem_cons hlt, List.dropWhile_cons]
        simp

/-- The context after the compaction `c`: the messages of the entries from the
one it keeps on. -/
theorem after_messages (hpath : IsSessionPath (path ++ [c])) {i : Nat} (hi : path[i]? = some e)
    (hc : compactionOf c = some (c, e.id)) (hbranch : BranchSummariesNonEmpty path)
    (hstored : NoStoredSummary path) :
    withoutSummaries (contextOfPath (path ++ [c])).messages =
      messagesBetween path i path.length := by
  have hn : (path.map SessionEntry.id).Nodup := by
    have := hpath.nodup
    rw [List.map_append] at this
    exact List.Nodup.of_append_left this
  rw [contextOfPath_messages hpath.nodup hc (by simp), List.append_nil, keptFrom_getElem hn hi]
  unfold messagesBetween withoutSummaries
  rw [slice_length_right, List.filter_append]
  show withoutSummaries _ ++ withoutSummaries _ = _
  rw [withoutSummaries_compactionMessage, List.nil_append]
  exact withoutSummaries_entries (fun e he => hbranch e (List.mem_of_mem_drop he))
    (fun e he => hstored e (List.mem_of_mem_drop he))

/-! ## Partition -/

theorem IsSessionPath.of_concat (h : IsSessionPath (path ++ [c])) : IsSessionPath path := by
  obtain ⟨hn, hc, hr⟩ := h
  rw [List.map_append] at hn
  refine ⟨List.Nodup.of_append_left hn, (List.isChain_append.mp hc).1, fun e he k hk hmem => ?_⟩
  have hne : path ≠ [] := by rintro rfl; cases he
  exact hr e (by rw [List.head?_append_of_ne_nil _ hne]; exact he) k hk
    (by rw [List.map_append]; exact List.mem_append_left _ hmem)

/-- **Compaction partitions the context.** When the compaction that keeps from
`p.firstKeptEntryId` is appended to the path, the messages of the context before
it are those to summarize, the turn prefix and those of the context after it. -/
theorem compaction_partitions {path : List SessionEntry} {c : SessionEntry}
    {settings : CompactionSettings} {p : CompactionPreparation}
    (hpath : IsSessionPath (path ++ [c])) (hbranch : BranchSummariesNonEmpty path)
    (hstored : NoStoredSummary path) (hearlier : KeepsEarlier path)
    (hp : prepareCompaction path settings = some p)
    (hc : compactionOf c = some (c, p.firstKeptEntryId)) :
    ∃ before after, buildSessionContext path .undefined none = some before ∧
      buildSessionContext (path ++ [c]) .undefined none = some after ∧
      withoutSummaries before.messages =
        p.messagesToSummarize ++ p.turnPrefixMessages ++ withoutSummaries after.messages := by
  refine ⟨contextOfPath path, contextOfPath (path ++ [c]), buildSessionContext_self hpath.of_concat,
    buildSessionContext_self hpath, ?_⟩
  obtain ⟨context, firstKeptEntry, -, hentry, -, hpeq, -⟩ := prepareCompaction_some hp
  have hfirst : p.firstKeptEntryId = firstKeptEntry.id := by rw [hpeq]; rfl
  rw [hfirst] at hc
  rw [before_messages hpath.of_concat hbranch hstored hearlier,
    after_messages hpath hentry hc hbranch hstored, hpeq]
  exact (prepareCompaction_tiles path settings _ _).symm

/-! ## The two kinds of path it does not cover -/

namespace PartitionExample

def settings : CompactionSettings :=
  { enabled := true, reserveTokens := 16384, keepRecentTokens := 1 }

open OverlapExample (message compaction)

/-- A compaction that keeps from an entry behind it. -/
def laterKept : List SessionEntry :=
  [message "m1" none "one", compaction "c1" "m1" "summary" "m3", message "m2" (some "c1") "two",
   message "m3" (some "m2") "three", message "m4" (some "m3") "four"]

/-- A compaction summary stored as a message entry. -/
def storedSummary : List SessionEntry :=
  [{ id := "s", parentId := none, timestamp := 0
     body := .message (.compactionSummary { summary := "old", tokensBefore := 0, timestamp := 0 }) },
   message "m1" (some "s") "one", message "m2" (some "m1") "two"]

/-- Three plain messages. -/
def plain : List SessionEntry := OverlapExample.path.take 3

/-- The messages of the context before, and the parts put together, when a compaction
keeping from the cut is appended. -/
def sides (path : List SessionEntry) (leaf : String) :
    Option (List AgentMessage × List AgentMessage) := do
  let p ← prepareCompaction path settings
  let before ← buildSessionContext path .undefined none
  let after ← buildSessionContext (path ++ [compaction "c9" leaf "new" p.firstKeptEntryId]) .undefined none
  return (withoutSummaries before.messages,
    p.messagesToSummarize ++ p.turnPrefixMessages ++ withoutSummaries after.messages)

end PartitionExample

/-- On either path the two sides differ: the first loses the message between the
compaction and the entry it keeps from, the second counts the stored summary. -/
theorem partition_fails :
    (buildSessionPath PartitionExample.laterKept .undefined none = some PartitionExample.laterKept ∧
      ∃ before parts, PartitionExample.sides PartitionExample.laterKept "m4" = some (before, parts) ∧
        before.length = 3 ∧ parts.length = 2) ∧
    (buildSessionPath PartitionExample.storedSummary .undefined none = some PartitionExample.storedSummary ∧
      ∃ before parts,
        PartitionExample.sides PartitionExample.storedSummary "m2" = some (before, parts) ∧
        before.length = 2 ∧ parts.length = 3) := by
  refine ⟨⟨by decide, ?_⟩, ⟨by decide, ?_⟩⟩
  · exact ⟨_, _, rfl, rfl, rfl⟩
  · exact ⟨_, _, rfl, rfl, rfl⟩

/-- `compaction_partitions` on the three plain messages: the first two are
summarized, the third is kept. -/
theorem partition_plain :
    ∃ p before after, prepareCompaction PartitionExample.plain PartitionExample.settings = some p ∧
      p.messagesToSummarize.length = 2 ∧
      buildSessionContext PartitionExample.plain .undefined none = some before ∧
      buildSessionContext (PartitionExample.plain ++
        [OverlapExample.compaction "c1" "m3" "summary" p.firstKeptEntryId]) .undefined none = some after ∧
      withoutSummaries before.messages =
        p.messagesToSummarize ++ p.turnPrefixMessages ++ withoutSummaries after.messages := by
  obtain ⟨p, hp, hid, hlen⟩ :
      ∃ p, prepareCompaction PartitionExample.plain PartitionExample.settings = some p ∧
        p.firstKeptEntryId = "m3" ∧ p.messagesToSummarize.length = 2 := ⟨_, rfl, rfl, rfl⟩
  have hmessages : ∀ e ∈ PartitionExample.plain, e.isMessage = true := by decide
  have hplain : ∀ e ∈ PartitionExample.plain, yieldsCompactionSummary e = false := by decide
  have hnocompaction : ∀ e ∈ PartitionExample.plain, e.isCompaction = false := by decide
  have hpath : IsSessionPath (PartitionExample.plain ++
      [OverlapExample.compaction "c1" "m3" "summary" p.firstKeptEntryId]) := by
    rw [hid]
    have hwalk : buildSessionPath (PartitionExample.plain ++
        [OverlapExample.compaction "c1" "m3" "summary" "m3"]) .undefined none =
        some (PartitionExample.plain ++ [OverlapExample.compaction "c1" "m3" "summary" "m3"]) := by
      decide
    exact (buildSessionPath_isSessionPath hwalk).1
  have hbranch : BranchSummariesNonEmpty PartitionExample.plain := by
    intro e he fromId summary details fromHook hbody
    have := hmessages e he
    simp [SessionEntry.isMessage, hbody] at this
  have hstored : NoStoredSummary PartitionExample.plain := by
    intro e he m hbody
    have := hplain e he
    simp [yieldsCompactionSummary, hbody] at this
  have hearlier : KeepsEarlier PartitionExample.plain := by
    intro pre c firstKeptEntryId post hsplit hc
    have := hnocompaction c (by rw [hsplit]; simp)
    rw [compactionOf_isCompaction hc] at this; cases this
  obtain ⟨before, after, hbefore, hafter, heq⟩ :=
    compaction_partitions hpath hbranch hstored hearlier hp rfl
  exact ⟨p, before, after, hp, hlen, hbefore, hafter, heq⟩

end PieLab

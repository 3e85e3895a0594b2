import PieLab.Compaction.CutPoint
import PieLab.Session.HarnessContext

/-
  Compaction: what is summarized and what is kept

  `prepareCompaction` reads the previous compaction of a path, takes the cut
  point after its boundary, and splits what stands before the cut into the
  messages to summarize and, where the cut splits a turn, the prefix of that
  turn.

  What is proved:
    1. `prepareCompaction_some` — every field of a preparation, in terms of the
       boundary and the cut point.
    2. `prepareCompaction_tiles` — the messages to summarize and the turn prefix
       together are the messages of the entries between boundary and cut, in
       order.
    3. `harnessPrepareCompaction_some` — the same for the harness, whose
       preparation lacks the last check.

  Correspondence (TypeScript ↔ Lean):
    packages/coding-agent/src/core/compaction/compaction.ts   ↔ `prepareCompaction`
    packages/agent/src/harness/compaction/compaction.ts       ↔ `harnessPrepareCompaction`
-/

namespace PieLab

open Lib

structure CompactionSettings where
  enabled : Bool
  reserveTokens : Nat
  keepRecentTokens : Nat
  deriving DecidableEq, Repr

/-- The message of an entry, if it produces one. -/
def getMessageFromEntry (entry : SessionEntry) : Option AgentMessage :=
  match entry.body with
  | .message m => some m
  | .customMessage customType content details display =>
    some (createCustomMessage customType content display details entry.timestamp)
  | .branchSummary fromId summary _ _ =>
    some (createBranchSummaryMessage summary fromId entry.timestamp)
  | .compaction summary _ tokensBefore _ _ =>
    some (createCompactionSummaryMessage summary tokensBefore entry.timestamp)
  | _ => none

def getMessageFromEntryForCompaction (entry : SessionEntry) : Option AgentMessage :=
  if entry.isCompaction then none else getMessageFromEntry entry

/-- The file operations a previous compaction stored, unless a hook wrote it. -/
def fileOpsOfCompaction (fileOps : FileOperations) (entry : SessionEntry) : FileOperations :=
  match entry.body with
  | .compaction _ _ _ (some details) false =>
    { fileOps with
      read := details.readFiles.foldl StringSet.add fileOps.read
      edited := details.modifiedFiles.foldl StringSet.add fileOps.edited }
  | _ => fileOps

def extractFileOperations (messages : List AgentMessage) (entries : List SessionEntry)
    (prevCompactionIndex : Option Nat) : FileOperations :=
  let fileOps := match prevCompactionIndex.bind (entries[·]?) with
    | some prevCompaction => fileOpsOfCompaction createFileOps prevCompaction
    | none => createFileOps
  messages.foldl extractFileOpsFromMessage fileOps

structure CompactionPreparation where
  firstKeptEntryId : String
  messagesToSummarize : List AgentMessage
  turnPrefixMessages : List AgentMessage
  isSplitTurn : Bool
  tokensBefore : Nat
  previousSummary : Option String
  fileOps : FileOperations
  settings : CompactionSettings
  deriving DecidableEq, Repr

/-- What the first half of `prepareCompaction` reads off the path. -/
structure Boundary where
  prevCompactionIndex : Option Nat
  previousSummary : Option String
  boundaryStart : Nat
  deriving DecidableEq, Repr

/-- The latest compaction, its summary, and the index its kept region starts at:
the entry it names wherever that stands on the path, else the one after it. -/
def previousBoundary (pathEntries : List SessionEntry) : Boundary :=
  match findDown (entryAt SessionEntry.isCompaction pathEntries) 0 pathEntries.length with
  | none => { prevCompactionIndex := none, previousSummary := none, boundaryStart := 0 }
  | some prevCompactionIndex =>
    match pathEntries[prevCompactionIndex]?.map SessionEntry.body with
    | some (.compaction summary firstKeptEntryId _ _ _) =>
      { prevCompactionIndex := some prevCompactionIndex
        previousSummary := some summary
        boundaryStart :=
          (pathEntries.findIdx? (fun e => e.id == firstKeptEntryId)).getD (prevCompactionIndex + 1) }
    | _ => { prevCompactionIndex := none, previousSummary := none, boundaryStart := 0 }

/-- The messages of the entries at `from ≤ i < to`, compactions left out. -/
def messagesBetween (pathEntries : List SessionEntry) (start stop : Nat) : List AgentMessage :=
  (slice pathEntries start stop).filterMap getMessageFromEntryForCompaction

/-- The start of the turn a cut splits. -/
def CutPointResult.splitTurnStart (cut : CutPointResult) : Option Nat :=
  if cut.isSplitTurn then cut.turnStartIndex else none

/-- Where the summarized history ends: at the turn that is split, or at the cut. -/
def CutPointResult.historyEnd (cut : CutPointResult) : Nat :=
  cut.splitTurnStart.getD cut.firstKeptEntryIndex

/-- The messages between the start of the split turn and the cut. -/
def turnPrefix (pathEntries : List SessionEntry) (cut : CutPointResult) : List AgentMessage :=
  match cut.splitTurnStart with
  | some turnStartIndex => messagesBetween pathEntries turnStartIndex cut.firstKeptEntryIndex
  | none => []

/-- The second half of `prepareCompaction`, past the check of the first kept entry. -/
def preparationAt (pathEntries : List SessionEntry) (settings : CompactionSettings)
    (boundary : Boundary) (cutPoint : CutPointResult) (firstKeptEntryId : String)
    (tokensBefore : Nat) : CompactionPreparation :=
  let messagesToSummarize :=
    messagesBetween pathEntries boundary.boundaryStart cutPoint.historyEnd
  let turnPrefixMessages := turnPrefix pathEntries cutPoint
  let fileOps := extractFileOperations messagesToSummarize pathEntries boundary.prevCompactionIndex
  { firstKeptEntryId, messagesToSummarize, turnPrefixMessages
    isSplitTurn := cutPoint.isSplitTurn
    tokensBefore
    previousSummary := boundary.previousSummary
    fileOps := turnPrefixMessages.foldl extractFileOpsFromMessage fileOps
    settings }

/-- The cut point `prepareCompaction` asks for. -/
def preparationCut (pathEntries : List SessionEntry) (settings : CompactionSettings) :
    CutPointResult :=
  findCutPoint pathEntries (previousBoundary pathEntries).boundaryStart pathEntries.length
    settings.keepRecentTokens

/-- `none` is `undefined`, and a call that never returns because the walk of
`buildSessionContext` does not. -/
def prepareCompaction (pathEntries : List SessionEntry) (settings : CompactionSettings) :
    Option CompactionPreparation := do
  if pathEntries.getLast?.any SessionEntry.isCompaction then none
  else
    let boundary := previousBoundary pathEntries
    let context ← buildSessionContext pathEntries .undefined none
    let tokensBefore := (estimateContextTokens context.messages).tokens
    let cutPoint := preparationCut pathEntries settings
    let firstKeptEntry ← pathEntries[cutPoint.firstKeptEntryIndex]?
    -- session needs migration
    if firstKeptEntry.id = "" then none
    else
      let preparation :=
        preparationAt pathEntries settings boundary cutPoint firstKeptEntry.id tokensBefore
      if preparation.messagesToSummarize.isEmpty && preparation.turnPrefixMessages.isEmpty then none
      else some preparation

inductive CompactionErrorCode where
  | aborted | summarizationFailed | invalidSession
  deriving DecidableEq, Repr

structure CompactionError where
  code : CompactionErrorCode
  message : String
  deriving DecidableEq, Repr

/-- The harness's `prepareCompaction`: it takes the path as it is, reports a first
kept entry without id as an error, and keeps a preparation with nothing in it. -/
def harnessPrepareCompaction (pathEntries : List SessionEntry) (settings : CompactionSettings) :
    Except CompactionError (Option CompactionPreparation) :=
  if pathEntries.isEmpty || pathEntries.getLast?.any SessionEntry.isCompaction then .ok none
  else
    let boundary := previousBoundary pathEntries
    let tokensBefore :=
      (estimateContextTokens (Harness.buildSessionContext pathEntries).messages).tokens
    let cutPoint := preparationCut pathEntries settings
    match pathEntries[cutPoint.firstKeptEntryIndex]? with
    | some firstKeptEntry =>
      if firstKeptEntry.id = "" then
        .error { code := .invalidSession
                 message := "First kept entry has no UUID - session may need migration" }
      else
        .ok (some (preparationAt pathEntries settings boundary cutPoint firstKeptEntry.id tokensBefore))
    | none =>
      .error { code := .invalidSession
               message := "First kept entry has no UUID - session may need migration" }

/-! ## The boundary -/

variable {path : List SessionEntry}

theorem entryAt_isCompaction_none (h : ∀ e ∈ path, e.isCompaction = false) (i : Nat) :
    entryAt SessionEntry.isCompaction path i = false := by
  unfold entryAt
  cases hi : path[i]? with
  | none => rfl
  | some e => exact h e (List.mem_of_getElem? hi)

theorem previousBoundary_none (h : ∀ e ∈ path, e.isCompaction = false) :
    previousBoundary path =
      { prevCompactionIndex := none, previousSummary := none, boundaryStart := 0 } := by
  unfold previousBoundary
  rw [findDown_none_iff.mpr fun j _ _ => entryAt_isCompaction_none h j]

theorem previousBoundary_split {pre post : List SessionEntry} {c : SessionEntry}
    {summary firstKeptEntryId : String} {tokensBefore : Nat} {details : Option CompactionDetails}
    {fromHook : Bool} (hc : c.body = .compaction summary firstKeptEntryId tokensBefore details fromHook)
    (hpost : ∀ e ∈ post, e.isCompaction = false) :
    previousBoundary (pre ++ c :: post) =
      { prevCompactionIndex := some pre.length
        previousSummary := some summary
        boundaryStart := ((pre ++ c :: post).findIdx? (fun e => e.id == firstKeptEntryId)).getD
          (pre.length + 1) } := by
  have hscan : findDown (entryAt SessionEntry.isCompaction (pre ++ c :: post)) 0
      (pre ++ c :: post).length = some pre.length := by
    rw [findDown_some_iff]
    refine ⟨Nat.zero_le _, by simp, ?_, fun j h1 h2 => ?_⟩
    · simp [entryAt, SessionEntry.isCompaction, hc]
    · unfold entryAt
      have hj : (pre ++ c :: post)[j]? = post[j - (pre.length + 1)]? := by
        rw [List.getElem?_append_right (by omega), List.getElem?_cons]
        have : j - pre.length ≠ 0 := by omega
        simp [this, Nat.sub_sub]
      rw [hj]
      cases he : post[j - (pre.length + 1)]? with
      | none => rfl
      | some e => exact hpost e (List.mem_of_getElem? he)
  unfold previousBoundary
  rw [hscan]
  simp [hc]

theorem boundaryStart_le (path : List SessionEntry) :
    (previousBoundary path).boundaryStart ≤ path.length := by
  rcases path_cases path with hno | ⟨pre, c, firstKeptEntryId, post, rfl, hc, hpost⟩
  · rw [previousBoundary_none hno]; exact Nat.zero_le _
  · obtain ⟨id, parent, ts, body⟩ := c
    cases body <;> simp only [compactionOf, Option.some.injEq, Prod.mk.injEq, reduceCtorEq] at hc
    rw [previousBoundary_split rfl hpost]
    cases hf : List.findIdx? (fun e => e.id == _) (pre ++ _ :: post) with
    | none => simp
    | some i =>
      obtain ⟨hi, -⟩ := List.findIdx?_eq_some_iff_findIdx_eq.mp hf
      exact Nat.le_of_lt hi

/-! ## Preparations -/

/-- Every field of a preparation, in terms of the boundary and the cut point. -/
theorem prepareCompaction_some {settings : CompactionSettings} {p : CompactionPreparation}
    (h : prepareCompaction path settings = some p) :
    ∃ context firstKeptEntry,
      buildSessionContext path .undefined none = some context ∧
      path[(preparationCut path settings).firstKeptEntryIndex]? = some firstKeptEntry ∧
      firstKeptEntry.id ≠ "" ∧
      p = preparationAt path settings (previousBoundary path) (preparationCut path settings)
        firstKeptEntry.id (estimateContextTokens context.messages).tokens ∧
      ¬ (p.messagesToSummarize = [] ∧ p.turnPrefixMessages = []) := by
  unfold prepareCompaction at h
  split at h
  · cases h
  · simp only [Option.bind_eq_bind, Option.bind_eq_some_iff] at h
    obtain ⟨context, hcontext, firstKeptEntry, hentry, h⟩ := h
    split at h
    · cases h
    · rename_i hid
      split at h
      · cases h
      · rename_i hempty
        obtain rfl := Option.some.inj h
        refine ⟨context, firstKeptEntry, hcontext, hentry, hid, rfl, fun hnil => hempty ?_⟩
        simp [hnil.1, hnil.2]

theorem harnessPrepareCompaction_some {settings : CompactionSettings} {p : CompactionPreparation}
    (h : harnessPrepareCompaction path settings = .ok (some p)) :
    ∃ firstKeptEntry,
      path[(preparationCut path settings).firstKeptEntryIndex]? = some firstKeptEntry ∧
      firstKeptEntry.id ≠ "" ∧
      p = preparationAt path settings (previousBoundary path) (preparationCut path settings)
        firstKeptEntry.id
        (estimateContextTokens (Harness.buildSessionContext path).messages).tokens := by
  unfold harnessPrepareCompaction at h
  split at h
  · cases h
  · simp only at h
    split at h
    · rename_i firstKeptEntry hentry
      split at h
      · cases h
      · rename_i hid
        injection h with h
        injection h with h
        exact ⟨firstKeptEntry, hentry, hid, h.symm⟩
    · cases h

theorem messagesBetween_append (path : List SessionEntry) {a b c : Nat} (hab : a ≤ b)
    (hbc : b ≤ c) :
    messagesBetween path a b ++ messagesBetween path b c = messagesBetween path a c := by
  unfold messagesBetween
  rw [← List.filterMap_append, slice_append_slice path hab hbc]

theorem cut_tiles (path : List SessionEntry) {start stop keepRecentTokens : Nat}
    (h : start ≤ stop) :
    let cut := findCutPoint path start stop keepRecentTokens
    messagesBetween path start cut.historyEnd ++ turnPrefix path cut ++
      messagesBetween path cut.firstKeptEntryIndex stop = messagesBetween path start stop := by
  intro cut
  obtain ⟨h1, h2, h3⟩ := findCutPoint_bounds path keepRecentTokens h
  unfold CutPointResult.historyEnd turnPrefix
  cases ht : cut.splitTurnStart with
  | none =>
    simp only [Option.getD_none, List.append_nil]
    exact messagesBetween_append path h1 h2
  | some t =>
    have hturn : cut.turnStartIndex = some t := by
      unfold CutPointResult.splitTurnStart at ht
      split at ht
      · exact ht
      · cases ht
    obtain ⟨h4, h5⟩ := h3 t hturn
    simp only [Option.getD_some]
    rw [messagesBetween_append path h4 h5, messagesBetween_append path h1 h2]

/-- Messages to summarize, turn prefix and what the cut keeps are the messages
from the boundary to the end of the path. -/
theorem prepareCompaction_tiles (path : List SessionEntry) (settings : CompactionSettings)
    (firstKeptEntryId : String) (tokensBefore : Nat) :
    let p := preparationAt path settings (previousBoundary path) (preparationCut path settings)
      firstKeptEntryId tokensBefore
    p.messagesToSummarize ++ p.turnPrefixMessages ++
        messagesBetween path (preparationCut path settings).firstKeptEntryIndex path.length =
      messagesBetween path (previousBoundary path).boundaryStart path.length :=
  cut_tiles path (boundaryStart_le path)

end PieLab

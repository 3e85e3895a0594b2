import PieLab.Session.Entry

/-
  Compaction: token estimates and the cut point

  Compaction keeps the newest entries of a path, about `keepRecentTokens` worth
  of them, and summarizes what stands before. The cut point is found by four
  loops: the valid cut points are collected, the path is walked back until the
  budget is spent, the cut is moved back over entries that are no messages, and
  the start of the turn it splits is looked up.

  What is proved:
    1. `findCutPoint_bounds` — the cut stands in its range, and the turn it
       splits starts in the range, at or before the cut.
    2. `findCutPoint_isSplitTurn` — a turn is split exactly when a turn start is
       reported.

  Correspondence (TypeScript ↔ Lean): the names of
  packages/coding-agent/src/core/compaction/compaction.ts. An index of -1 is
  `none`. packages/agent/src/harness/compaction/compaction.ts holds the same
  functions over its own entry type, which adds two kinds every loop passes over.
-/

namespace PieLab

open Lib

/-! ## Token estimates -/

def calculateContextTokens (usage : Usage) : Nat :=
  if usage.totalTokens ≠ 0 then usage.totalTokens
  else usage.input + usage.output + usage.cacheRead + usage.cacheWrite

/-- The usage of an assistant message that was not cut short and reports tokens. -/
def getAssistantUsage : AgentMessage → Option Usage
  | .assistant m =>
    if m.stopReason ≠ .aborted ∧ m.stopReason ≠ .error ∧ 0 < calculateContextTokens m.usage
    then some m.usage else none
  | _ => none

structure ContextUsageEstimate where
  tokens : Nat
  usageTokens : Nat
  trailingTokens : Nat
  lastUsageIndex : Option Nat
  deriving DecidableEq, Repr

def estimatedImageChars : Nat := 4800

def estimateBlockChars : UserBlock → Nat
  | .text text => jsLength text
  | .image _ _ => estimatedImageChars

def estimateTextAndImageContentChars : UserContent → Nat
  | .text content => jsLength content
  | .blocks content => (content.map estimateBlockChars).sum

def estimateAssistantBlockChars : AssistantBlock → Nat
  | .text text => jsLength text
  | .thinking thinking => jsLength thinking
  | .toolCall _ name arguments => jsLength name + jsLength (stringifyArguments arguments)

/-- `Math.ceil(chars / 4)` -/
def ceilQuarter (chars : Nat) : Nat := (chars + 3) / 4

def estimateTokens : AgentMessage → Nat
  | .user m => ceilQuarter (estimateTextAndImageContentChars m.content)
  | .assistant m => ceilQuarter ((m.content.map estimateAssistantBlockChars).sum)
  | .custom m => ceilQuarter (estimateTextAndImageContentChars m.content)
  | .toolResult m => ceilQuarter ((m.content.map estimateBlockChars).sum)
  | .bashExecution m => ceilQuarter (jsLength m.command + jsLength m.output)
  | .branchSummary m => ceilQuarter (jsLength m.summary)
  | .compactionSummary m => ceilQuarter (jsLength m.summary)

/-- The usage of message `i`, if it has a valid one. -/
def usageAt (messages : List AgentMessage) (i : Nat) : Option Usage :=
  messages[i]?.bind getAssistantUsage

def getLastAssistantUsageInfo (messages : List AgentMessage) : Option (Usage × Nat) := do
  let i ← findDown (fun i => (usageAt messages i).isSome) 0 messages.length
  let usage ← usageAt messages i
  return (usage, i)

def estimateContextTokens (messages : List AgentMessage) : ContextUsageEstimate :=
  match getLastAssistantUsageInfo messages with
  | none =>
    let estimated := (messages.map estimateTokens).sum
    { tokens := estimated, usageTokens := 0, trailingTokens := estimated, lastUsageIndex := none }
  | some (usage, index) =>
    let usageTokens := calculateContextTokens usage
    let trailingTokens := ((messages.drop (index + 1)).map estimateTokens).sum
    { tokens := usageTokens + trailingTokens, usageTokens, trailingTokens,
      lastUsageIndex := some index }

/-! ## The cut point -/

/-- The entries a kept region may start at: never a tool result. -/
def isValidCutPoint (entry : SessionEntry) : Bool :=
  match entry.body with
  | .message (.toolResult _) => false
  | .message _ => true
  | .branchSummary .. => true
  | .customMessage .. => true
  | _ => false

/-- A property of the entry at an index. -/
def entryAt (p : SessionEntry → Bool) (entries : List SessionEntry) (i : Nat) : Bool :=
  entries[i]?.any p

def findValidCutPoints (entries : List SessionEntry) (startIndex endIndex : Nat) : List Nat :=
  (List.range' startIndex (endIndex - startIndex)).filter (entryAt isValidCutPoint entries)

/-- A user-visible entry a turn starts with. -/
def startsTurn (entry : SessionEntry) : Bool :=
  match entry.body with
  | .branchSummary .. => true
  | .customMessage .. => true
  | .message (.user _) => true
  | .message (.bashExecution _) => true
  | _ => false

def findTurnStartIndex (entries : List SessionEntry) (entryIndex startIndex : Nat) : Option Nat :=
  findDown (entryAt startsTurn entries) startIndex (entryIndex + 1)

structure CutPointResult where
  firstKeptEntryIndex : Nat
  turnStartIndex : Option Nat
  isSplitTurn : Bool
  deriving DecidableEq, Repr

/-- The walk back from the newest entry: the index of the message at which the
accumulated estimate reaches `keepRecentTokens`. The last argument counts the
entries still ahead, so the entry looked at is `startIndex + n`. -/
def findBudgetIndex (entries : List SessionEntry) (startIndex keepRecentTokens : Nat) :
    (accumulatedTokens : Nat) → Nat → Option Nat
  | _, 0 => none
  | acc, n + 1 =>
    match entries[startIndex + n]?.map SessionEntry.body with
    | some (.message m) =>
      let acc := acc + estimateTokens m
      if keepRecentTokens ≤ acc then some (startIndex + n)
      else findBudgetIndex entries startIndex keepRecentTokens acc n
    | _ => findBudgetIndex entries startIndex keepRecentTokens acc n

/-- Where the scan back from the cut stops: any message, or a compaction. -/
def stopsScan (entry : SessionEntry) : Bool := entry.isCompaction || entry.isMessage

/-- Move the cut back over the entries in front of it that are no messages. -/
def includeNonMessages (entries : List SessionEntry) (startIndex cutIndex : Nat) : Nat :=
  match findDown (entryAt stopsScan entries) startIndex cutIndex with
  | some i => i + 1
  | none => startIndex

/-- `entry.type === "message" && entry.message.role === "user"` -/
def isUserMessage (entry : SessionEntry) : Bool :=
  match entry.body with | .message (.user _) => true | _ => false

def findCutPoint (entries : List SessionEntry) (startIndex endIndex keepRecentTokens : Nat) :
    CutPointResult :=
  match findValidCutPoints entries startIndex endIndex with
  | [] => { firstKeptEntryIndex := startIndex, turnStartIndex := none, isSplitTurn := false }
  | first :: rest =>
    let cutPoints := first :: rest
    let cutIndex :=
      match findBudgetIndex entries startIndex keepRecentTokens 0 (endIndex - startIndex) with
      | none => first
      -- the closest valid cut point at or after the entry that spent the budget
      | some i => (cutPoints.find? (fun c => i ≤ c)).getD first
    let cutIndex := includeNonMessages entries startIndex cutIndex
    let turnStartIndex :=
      if entryAt isUserMessage entries cutIndex then none
      else findTurnStartIndex entries cutIndex startIndex
    { firstKeptEntryIndex := cutIndex
      turnStartIndex
      isSplitTurn := !entryAt isUserMessage entries cutIndex && turnStartIndex.isSome }

/-! ## What the loops find -/

theorem mem_findValidCutPoints {entries : List SessionEntry} {startIndex endIndex i : Nat} :
    i ∈ findValidCutPoints entries startIndex endIndex ↔
      startIndex ≤ i ∧ i < endIndex ∧ entryAt isValidCutPoint entries i = true := by
  unfold findValidCutPoints
  rw [List.mem_filter, List.mem_range'_1]
  constructor
  · rintro ⟨⟨h1, h2⟩, h3⟩
    exact ⟨h1, by omega, h3⟩
  · rintro ⟨h1, h2, h3⟩
    exact ⟨⟨h1, by omega⟩, h3⟩

theorem includeNonMessages_spec (entries : List SessionEntry) {startIndex cutIndex : Nat}
    (h : startIndex ≤ cutIndex) :
    startIndex ≤ includeNonMessages entries startIndex cutIndex ∧
    includeNonMessages entries startIndex cutIndex ≤ cutIndex ∧
    ∀ j, includeNonMessages entries startIndex cutIndex ≤ j → j < cutIndex →
      entryAt stopsScan entries j = false := by
  unfold includeNonMessages
  cases hf : findDown (entryAt stopsScan entries) startIndex cutIndex with
  | none => exact ⟨le_refl _, h, fun j h1 h2 => findDown_none_iff.mp hf j h1 h2⟩
  | some i =>
    obtain ⟨h1, h2, -, h4⟩ := findDown_some_iff.mp hf
    exact ⟨by show startIndex ≤ i + 1; omega, by show i + 1 ≤ cutIndex; omega,
      fun j hj hjc => h4 j (by simp only at hj; omega) hjc⟩

theorem findCutPoint_cases (entries : List SessionEntry)
    (startIndex endIndex keepRecentTokens : Nat) :
    (findValidCutPoints entries startIndex endIndex = [] ∧
      findCutPoint entries startIndex endIndex keepRecentTokens =
        { firstKeptEntryIndex := startIndex, turnStartIndex := none, isSplitTurn := false }) ∨
    ∃ c ∈ findValidCutPoints entries startIndex endIndex,
      let cut := includeNonMessages entries startIndex c
      let turn := if entryAt isUserMessage entries cut then none
        else findTurnStartIndex entries cut startIndex
      findCutPoint entries startIndex endIndex keepRecentTokens =
        { firstKeptEntryIndex := cut, turnStartIndex := turn
          isSplitTurn := !entryAt isUserMessage entries cut && turn.isSome } := by
  unfold findCutPoint
  cases hv : findValidCutPoints entries startIndex endIndex with
  | nil => exact .inl ⟨rfl, rfl⟩
  | cons first rest =>
    right
    cases hb : findBudgetIndex entries startIndex keepRecentTokens 0 (endIndex - startIndex) with
    | none => exact ⟨first, List.mem_cons_self, rfl⟩
    | some i =>
      refine ⟨((first :: rest).find? (fun c => i ≤ c)).getD first, ?_, rfl⟩
      cases hfind : (first :: rest).find? (fun c => i ≤ c) with
      | none => exact List.mem_cons_self
      | some c => exact List.mem_of_find?_eq_some hfind

/-- The cut stands in its range, and the turn it splits starts there too. -/
theorem findCutPoint_bounds (entries : List SessionEntry) {startIndex endIndex : Nat}
    (keepRecentTokens : Nat) (h : startIndex ≤ endIndex) :
    let cut := findCutPoint entries startIndex endIndex keepRecentTokens
    startIndex ≤ cut.firstKeptEntryIndex ∧ cut.firstKeptEntryIndex ≤ endIndex ∧
      ∀ t, cut.turnStartIndex = some t → startIndex ≤ t ∧ t ≤ cut.firstKeptEntryIndex := by
  rcases findCutPoint_cases entries startIndex endIndex keepRecentTokens with
    ⟨-, e⟩ | ⟨c, hc, e⟩
  · rw [e]
    exact ⟨le_refl _, h, fun t ht => by cases ht⟩
  · obtain ⟨h1, h2, -⟩ := mem_findValidCutPoints.mp hc
    obtain ⟨h3, h4, -⟩ := includeNonMessages_spec entries h1
    rw [e]
    refine ⟨h3, by simp only; omega, fun t ht => ?_⟩
    simp only at ht ⊢
    split at ht
    · cases ht
    · obtain ⟨h5, h6, -⟩ := findDown_some_iff.mp ht
      exact ⟨h5, by omega⟩

theorem findCutPoint_isSplitTurn (entries : List SessionEntry)
    (startIndex endIndex keepRecentTokens : Nat) :
    (findCutPoint entries startIndex endIndex keepRecentTokens).isSplitTurn =
      (findCutPoint entries startIndex endIndex keepRecentTokens).turnStartIndex.isSome := by
  rcases findCutPoint_cases entries startIndex endIndex keepRecentTokens with
    ⟨-, e⟩ | ⟨c, -, e⟩
  · rw [e]; rfl
  · rw [e]
    simp only
    split <;> simp_all

end PieLab

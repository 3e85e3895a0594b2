import PieLab.Compaction.CutPoint

/-
  Which entry the cut falls on

  The walk back chooses a cut among the valid cut points; the scan back then moves
  it over entries that are no messages. Both findCutPoint functions choose the
  first cut point at or after the entry that spends the budget, and the first of
  all where there is none.

  What is proved:
    1. `findCutPoint_firstKept` — the cut is the chosen one, moved back.
    2. `cut_keeps_results` — where the tool results follow their calls, no result is
       kept without its call.
    3. `cut_progress_iff` — the chosen cut is not before the last valid cut point up
       to the entry that spends the budget exactly when a cut point stands at or
       after that entry, or there is at most one.
    4. `results_keep_all` — the last tool result spends the budget, and everything is kept.

  Correspondence (TypeScript ↔ Lean), `findCutPoint` of
  packages/coding-agent/src/core/compaction/compaction.ts and
  packages/agent/src/harness/compaction/compaction.ts:
    `cutIndex` before the scan back ↔ `chosenCut`
-/

namespace PieLab

open Lib

variable {entries : List SessionEntry} {startIndex endIndex keepRecentTokens : Nat}

/-! ## The cut before it is moved back -/

/-- `cutIndex` when the walk back is over, if there is a valid cut point. -/
def chosenCut (entries : List SessionEntry) (startIndex endIndex keepRecentTokens : Nat) :
    Option Nat :=
  match findValidCutPoints entries startIndex endIndex with
  | [] => none
  | first :: rest =>
    match findBudgetIndex entries startIndex keepRecentTokens 0 (endIndex - startIndex) with
    | none => some first
    | some i => some (((first :: rest).find? (fun c => i ≤ c)).getD first)

theorem findCutPoint_firstKept (entries : List SessionEntry)
    (startIndex endIndex keepRecentTokens : Nat) :
    (findCutPoint entries startIndex endIndex keepRecentTokens).firstKeptEntryIndex =
      (chosenCut entries startIndex endIndex keepRecentTokens).elim startIndex
        (includeNonMessages entries startIndex) := by
  unfold findCutPoint chosenCut
  cases findValidCutPoints entries startIndex endIndex with
  | nil => rfl
  | cons first rest =>
    cases findBudgetIndex entries startIndex keepRecentTokens 0 (endIndex - startIndex) with
    | none => rfl
    | some i => rfl

theorem chosenCut_mem {c : Nat}
    (h : chosenCut entries startIndex endIndex keepRecentTokens = some c) :
    c ∈ findValidCutPoints entries startIndex endIndex := by
  unfold chosenCut at h
  cases hpoints : findValidCutPoints entries startIndex endIndex with
  | nil =>
    rw [hpoints] at h
    cases h
  | cons first rest =>
    rw [hpoints] at h
    cases hi : findBudgetIndex entries startIndex keepRecentTokens 0 (endIndex - startIndex) with
    | none =>
      rw [hi] at h
      cases h
      exact List.mem_cons_self
    | some i =>
      rw [hi] at h
      cases h
      cases hfind : (first :: rest).find? (fun c => i ≤ c) with
      | none => exact List.mem_cons_self
      | some c => exact List.mem_of_find?_eq_some hfind

/-! ## Tool results and their calls -/

/-- The ids of the tool calls of an assistant message. -/
def toolCallIds (m : AssistantMessage) : List String :=
  m.content.filterMap fun block =>
    match block with
    | .toolCall id _ _ => some id
    | _ => none

/-- The tool calls the entry at an index makes. -/
def callsAt (entries : List SessionEntry) (i : Nat) : List String :=
  match entries[i]?.map SessionEntry.body with
  | some (.message (.assistant m)) => toolCallIds m
  | _ => []

/-- The tool call whose result stands at an index. -/
def resultAt (entries : List SessionEntry) (i : Nat) : Option String :=
  match entries[i]?.map SessionEntry.body with
  | some (.message (.toolResult m)) => some m.toolCallId
  | _ => none

/-- The entry at `a` is the last one before `t` to make the call whose result stands at `t`. -/
def ResultOf (entries : List SessionEntry) (a t : Nat) : Prop :=
  ∃ id, resultAt entries t = some id ∧ a < t ∧ id ∈ callsAt entries a ∧
    ∀ j, a < j → j < t → id ∉ callsAt entries j

/-- An entry that adds no message to the context. -/
def carriesNoContext (entry : SessionEntry) : Bool :=
  match entry.body with
  | .message _ | .compaction .. | .branchSummary .. | .customMessage .. => false
  | _ => true

def isToolResult (entry : SessionEntry) : Bool :=
  match entry.body with
  | .message (.toolResult _) => true
  | _ => false

/-- Each tool result has its assistant message in front, with nothing in between but tool results
and entries without context. -/
def ResultsFollow (entries : List SessionEntry) : Prop :=
  ∀ t id, resultAt entries t = some id → ∃ a, ResultOf entries a t ∧
    ∀ j, a < j → j < t → entryAt (fun e => isToolResult e || carriesNoContext e) entries j = true

theorem ResultOf.unique {a b t : Nat} (ha : ResultOf entries a t) (hb : ResultOf entries b t) :
    a = b := by
  obtain ⟨id, hid, hat, hcall, hlast⟩ := ha
  obtain ⟨id', hid', hbt, hcall', hlast'⟩ := hb
  rw [hid] at hid'
  cases hid'
  rcases Nat.lt_trichotomy a b with hlt | heq | hgt
  · exact absurd hcall' (hlast b hlt hbt)
  · exact heq
  · exact absurd hcall (hlast' a hgt hat)

theorem not_between_of_isValidCutPoint {e : SessionEntry} (h : isValidCutPoint e = true) :
    (isToolResult e || carriesNoContext e) = false := by
  obtain ⟨id, parentId, timestamp, body⟩ := e
  cases body with
  | message m => cases m <;> first | rfl | cases h
  | branchSummary => rfl
  | customMessage => rfl
  | _ => cases h

theorem ResultsFollow.cutPoint {a t c : Nat} (h : ResultsFollow entries) (ht : ResultOf entries a t)
    (hc : entryAt isValidCutPoint entries c = true) (hct : c < t) : c ≤ a := by
  by_contra hac
  have ht' := ht
  obtain ⟨id, hid, -⟩ := ht'
  obtain ⟨b, hb, hbetween⟩ := h t id hid
  rw [← ht.unique hb] at hbetween
  have hgroup := hbetween c (by omega) hct
  unfold entryAt at hc hgroup
  obtain ⟨e, he, hvalid⟩ := (Option.any_eq_true _ _).mp hc
  rw [he, Option.any_some, not_between_of_isValidCutPoint hvalid] at hgroup
  cases hgroup

theorem stopsScan_of_resultAt {t : Nat} {id : String} (h : resultAt entries t = some id) :
    entryAt stopsScan entries t = true ∧ entryAt isValidCutPoint entries t = false := by
  unfold resultAt at h
  unfold entryAt
  cases he : entries[t]? with
  | none =>
    rw [he] at h
    cases h
  | some e =>
    obtain ⟨eid, parentId, timestamp, body⟩ := e
    rw [he, Option.map_some] at h
    cases body with
    | message m =>
      cases m with
      | toolResult r => exact ⟨rfl, rfl⟩
      | _ => cases h
    | _ => cases h

/-- No tool result is kept whose call is not, where the results follow their calls and the start of
the range does not part them. -/
theorem cut_keeps_results (hfollow : ResultsFollow entries)
    (hstart : ∀ a t, ResultOf entries a t → ¬ (a < startIndex ∧ startIndex ≤ t)) (a t : Nat)
    (ht : ResultOf entries a t)
    (hkept : (findCutPoint entries startIndex endIndex keepRecentTokens).firstKeptEntryIndex ≤ t) :
    (findCutPoint entries startIndex endIndex keepRecentTokens).firstKeptEntryIndex ≤ a := by
  rw [findCutPoint_firstKept] at hkept ⊢
  cases hcut : chosenCut entries startIndex endIndex keepRecentTokens with
  | none =>
    rw [hcut] at hkept
    simp only [Option.elim_none] at hkept ⊢
    by_contra hlt
    exact hstart a t ht ⟨by omega, hkept⟩
  | some c =>
    rw [hcut] at hkept
    simp only [Option.elim_some] at hkept ⊢
    obtain ⟨hc, -, hvalid⟩ := mem_findValidCutPoints.mp (chosenCut_mem hcut)
    obtain ⟨-, hle, hskipped⟩ := includeNonMessages_spec entries hc
    have ht' := ht
    obtain ⟨id, hid, -⟩ := ht'
    obtain ⟨hstops, hnot⟩ := stopsScan_of_resultAt hid
    -- what the scan moves over holds no tool result, and the cut is none
    have hct : c < t := by
      by_contra hge
      rcases Nat.lt_or_ge t c with hlt | heq
      · rw [hskipped t hkept hlt] at hstops
        cases hstops
      · have hsame : t = c := by omega
        rw [hsame, hvalid] at hnot
        cases hnot
    exact hle.trans (hfollow.cutPoint ht hvalid hct)

/-! ## Progress -/

/-- The last valid cut point of the range at or before an index. -/
def lastCutPointUpTo (entries : List SessionEntry) (startIndex i : Nat) : Option Nat :=
  findDown (entryAt isValidCutPoint entries) startIndex (i + 1)

/-- Where the budget is spent, the entry kept first is not before the last valid cut point up to
there, but for the entries the scan back adds. -/
def CutProgresses (entries : List SessionEntry) (startIndex endIndex keepRecentTokens : Nat) :
    Prop :=
  ∀ i p, findBudgetIndex entries startIndex keepRecentTokens 0 (endIndex - startIndex) = some i →
    lastCutPointUpTo entries startIndex i = some p →
    ∃ c, (findCutPoint entries startIndex endIndex keepRecentTokens).firstKeptEntryIndex =
        includeNonMessages entries startIndex c ∧
      chosenCut entries startIndex endIndex keepRecentTokens = some c ∧ p ≤ c

theorem findBudgetIndex_lt {i : Nat} (acc n : Nat)
    (h : findBudgetIndex entries startIndex keepRecentTokens acc n = some i) : i < startIndex + n := by
  induction n generalizing acc with
  | zero => cases h
  | succ n ih =>
    unfold findBudgetIndex at h
    split at h
    · simp only at h
      split at h
      · cases h
        omega
      · have hlt := ih _ h
        omega
    · have hlt := ih _ h
      omega

theorem lastCutPointUpTo_spec {i p : Nat} (hi : i < endIndex) :
    lastCutPointUpTo entries startIndex i = some p ↔
      p ∈ findValidCutPoints entries startIndex endIndex ∧ p ≤ i ∧
        ∀ c ∈ findValidCutPoints entries startIndex endIndex, c ≤ i → c ≤ p := by
  unfold lastCutPointUpTo
  rw [findDown_some_iff]
  constructor
  · rintro ⟨hstart, hp, hvalid, hlast⟩
    refine ⟨mem_findValidCutPoints.mpr ⟨hstart, by omega, hvalid⟩, by omega, ?_⟩
    intro c hc hci
    by_contra hlt
    have hnot := hlast c (by omega) (by omega)
    rw [(mem_findValidCutPoints.mp hc).2.2] at hnot
    cases hnot
  · rintro ⟨hmem, hpi, hlast⟩
    obtain ⟨hstart, -, hvalid⟩ := mem_findValidCutPoints.mp hmem
    refine ⟨hstart, by omega, hvalid, ?_⟩
    intro j hpj hji
    cases hj : entryAt isValidCutPoint entries j with
    | false => rfl
    | true =>
      have hle := hlast j (mem_findValidCutPoints.mpr ⟨by omega, by omega, hj⟩) (by omega)
      omega

theorem findValidCutPoints_sorted (entries : List SessionEntry) (startIndex endIndex : Nat) :
    (findValidCutPoints entries startIndex endIndex).Pairwise (· < ·) := by
  unfold findValidCutPoints
  exact List.Pairwise.filter _ List.pairwise_lt_range'

theorem chosenCut_eq {i first : Nat} {rest : List Nat}
    (hpoints : findValidCutPoints entries startIndex endIndex = first :: rest)
    (hi : findBudgetIndex entries startIndex keepRecentTokens 0 (endIndex - startIndex) = some i) :
    chosenCut entries startIndex endIndex keepRecentTokens =
      some (((first :: rest).find? (fun c => i ≤ c)).getD first) := by
  unfold chosenCut
  rw [hpoints, hi]

/-- The cut falls behind the history exactly when a cut point stands at or after the entry that
spends the budget, or there is no other to choose. -/
theorem cut_progress_iff (entries : List SessionEntry)
    (startIndex endIndex keepRecentTokens : Nat) :
    CutProgresses entries startIndex endIndex keepRecentTokens ↔
      ∀ i, findBudgetIndex entries startIndex keepRecentTokens 0 (endIndex - startIndex) = some i →
        (∃ c ∈ findValidCutPoints entries startIndex endIndex, i ≤ c) ∨
          (findValidCutPoints entries startIndex endIndex).length ≤ 1 := by
  have hend : ∀ {i}, findBudgetIndex entries startIndex keepRecentTokens 0 (endIndex - startIndex) =
      some i → i < endIndex := by
    intro i hi
    have hlt := findBudgetIndex_lt 0 _ hi
    by_contra hge
    have hzero : endIndex - startIndex = 0 := by omega
    rw [hzero] at hi
    cases hi
  constructor
  · intro h i hi
    by_contra hnot
    obtain ⟨hnone, hmany⟩ := not_or.mp hnot
    cases hpoints : findValidCutPoints entries startIndex endIndex with
    | nil =>
      rw [hpoints] at hmany
      exact hmany (Nat.zero_le 1)
    | cons first rest =>
      cases rest with
      | nil =>
        rw [hpoints] at hmany
        exact hmany (Nat.le_refl 1)
      | cons second rest =>
        -- the cut is the first one, and the second one is not after the budget either
        have hsorted := findValidCutPoints_sorted entries startIndex endIndex
        rw [hpoints] at hsorted hnone
        have hlt : first < second := (List.pairwise_cons.mp hsorted).1 second List.mem_cons_self
        have hbefore : ∀ c ∈ first :: second :: rest, ¬ i ≤ c := fun c hc hle => hnone ⟨c, hc, hle⟩
        have hcut := chosenCut_eq hpoints hi
        rw [List.find?_eq_none.mpr (by simpa using hbefore), Option.getD_none] at hcut
        have hsecond := hbefore second (List.mem_cons_of_mem first List.mem_cons_self)
        cases hlast : lastCutPointUpTo entries startIndex i with
        | none =>
          have hfree := findDown_none_iff.mp hlast
          have hmem : second ∈ findValidCutPoints entries startIndex endIndex := by
            rw [hpoints]
            exact List.mem_cons_of_mem first List.mem_cons_self
          obtain ⟨hstart, -, hvalid⟩ := mem_findValidCutPoints.mp hmem
          rw [hfree second hstart (by omega)] at hvalid
          cases hvalid
        | some p =>
          obtain ⟨c, -, hc, hpc⟩ := h i p hi hlast
          rw [hcut] at hc
          cases hc
          have hge := ((lastCutPointUpTo_spec (hend hi)).mp hlast).2.2 second (by
            rw [hpoints]
            exact List.mem_cons_of_mem first List.mem_cons_self) (by omega)
          omega
  · intro h i p hi hp
    obtain ⟨hmem, hpi, hlast⟩ := (lastCutPointUpTo_spec (hend hi)).mp hp
    have hkept := findCutPoint_firstKept entries startIndex endIndex keepRecentTokens
    cases hpoints : findValidCutPoints entries startIndex endIndex with
    | nil =>
      rw [hpoints] at hmem
      cases hmem
    | cons first rest =>
      have hcut := chosenCut_eq hpoints hi
      rw [hcut] at hkept
      refine ⟨_, hkept, hcut, ?_⟩
      have hcases := h i hi
      rw [hpoints] at hcases hmem
      rcases hcases with ⟨c, hc, hic⟩ | hone
      · cases hfind : (first :: rest).find? (fun c => i ≤ c) with
        | none =>
          have hnot := List.find?_eq_none.mp hfind c hc
          simp [hic] at hnot
        | some d =>
          have hle := List.find?_some hfind
          simp only [decide_eq_true_eq] at hle
          exact hpi.trans hle
      · have hrest : rest = [] := List.eq_nil_of_length_eq_zero (by simpa using hone)
        rw [hrest, List.mem_singleton] at hmem
        rw [hmem, hrest]
        simp only [List.find?_singleton]
        split
        · exact Nat.le_refl first
        · exact Nat.le_refl first

section Examples

def entryOf (id : String) (message : AgentMessage) : SessionEntry where
  id
  parentId := none
  timestamp := 0
  body := .message message

/-- An assistant message that calls a tool. -/
def callMessage (id : String) : AgentMessage :=
  .assistant
    { content := [.toolCall id "read" []]
      provider := "p"
      model := "m"
      usage := ⟨0, 0, 0, 0, 0⟩
      stopReason := .toolUse
      errorMessage := none
      timestamp := 0 }

def resultMessage (id text : String) : AgentMessage :=
  .toolResult
    { toolCallId := id
      toolName := "read"
      content := [.text text]
      isError := false
      timestamp := 0 }

/-- A question, a call and its result. -/
def answeredCall : List SessionEntry :=
  [entryOf "1" (.user { content := .text "read it", timestamp := 0 }), entryOf "2" (callMessage "c"),
    entryOf "3" (resultMessage "c" "the text of the file")]

theorem answeredCall_follows : ResultsFollow answeredCall := by
  intro t id ht
  match t with
  | 0 => cases ht
  | 1 => cases ht
  | 2 =>
    cases ht
    refine ⟨1, ⟨"c", rfl, Nat.lt_succ_self 1, List.mem_singleton.mpr rfl, ?_⟩, ?_⟩
    · intro j h1 h2
      omega
    · intro j h1 h2
      omega
  | t + 3 => cases ht

/-- The cut falls on the call, and the result stays with it. -/
theorem cut_keeps_results_example : (findCutPoint answeredCall 0 3 6).firstKeptEntryIndex ≤ 1 := by
  apply cut_keeps_results answeredCall_follows (t := 2)
  · intro a t _ h
    exact Nat.not_lt_zero a h.1
  · refine ⟨"c", rfl, Nat.lt_succ_self 1, List.mem_singleton.mpr rfl, ?_⟩
    intro j h1 h2
    omega
  · decide

/-- The result alone spends the budget, and everything is kept. -/
theorem results_keep_all :
    (findCutPoint answeredCall 0 3 5).firstKeptEntryIndex = 0 ∧ ¬ CutProgresses answeredCall 0 3 5 := by
  refine ⟨by decide, ?_⟩
  intro h
  obtain ⟨c, -, hc, hle⟩ := h 2 1 (by decide) (by decide)
  have hcut : chosenCut answeredCall 0 3 5 = some 0 := by decide
  rw [hcut] at hc
  cases hc
  omega

end Examples

end PieLab

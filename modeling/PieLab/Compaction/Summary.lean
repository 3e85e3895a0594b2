import PieLab.Compaction.Prepare
import PieLab.Lib.Logged

/-
  Compaction: the summary and the prompts it is made with

  `compact` asks a language model for the summary. A turn that is split is
  summarized in two requests, one for the history in front of it and one for the
  part of the turn before the cut, unless there is no history: then the history
  is the text "No prior history." and only the turn is sent.

  The model is an arbitrary function of its request, and a run of `compact`
  logs the requests it issues.

  What is proved:
    1. `requests_history`, `requests_turnOnly` — the requests of both `compact`
       functions: the history request comes first, whatever the model answers,
       unless a split turn has nothing in front of it.
    2. `summaryPrompt_contains` — the history request carries the previous
       summary.
    3. `compact_remembers_iff` — so a request carries the previous summary
       exactly when the split turn has history in front of it (or its own text
       happens to contain the summary).
    4. `secondCompaction_forgets` — the second compaction inside one turn.

  Correspondence (TypeScript ↔ Lean):
    packages/coding-agent/src/core/compaction/compaction.ts   ↔ `generateSummary`, `compact`
    packages/agent/src/harness/compaction/compaction.ts       ↔ `Harness.generateSummary`, `Harness.compact`
  API keys, headers and the abort signal are passed through and left out.
-/

namespace PieLab

open Lib

/-! ## Prompts -/

def summarizationSystemPrompt : String :=
  "You are a context summarization assistant. Your task is to read a conversation between " ++
  "a user and an AI assistant, then produce a structured summary following the exact " ++
  "format specified.\n\n" ++
  "Do NOT continue the conversation. Do NOT respond to any questions in the conversation. " ++
  "ONLY output the structured summary."

def summarizationPrompt : String :=
  "The messages above are a conversation to summarize. Create a structured context " ++
  "checkpoint summary that another LLM will use to continue the work.\n\n" ++
  "Use this EXACT format:\n\n" ++
  "## Goal\n" ++
  "[What is the user trying to accomplish? Can be multiple items if the session covers " ++
  "different tasks.]\n\n" ++
  "## Constraints & Preferences\n" ++
  "- [Any constraints, preferences, or requirements mentioned by user]\n" ++
  "- [Or \"(none)\" if none were mentioned]\n\n" ++
  "## Progress\n" ++
  "### Done\n" ++
  "- [x] [Completed tasks/changes]\n\n" ++
  "### In Progress\n" ++
  "- [ ] [Current work]\n\n" ++
  "### Blocked\n" ++
  "- [Issues preventing progress, if any]\n\n" ++
  "## Key Decisions\n" ++
  "- **[Decision]**: [Brief rationale]\n\n" ++
  "## Next Steps\n" ++
  "1. [Ordered list of what should happen next]\n\n" ++
  "## Critical Context\n" ++
  "- [Any data, examples, or references needed to continue]\n" ++
  "- [Or \"(none)\" if not applicable]\n\n" ++
  "Keep each section concise. Preserve exact file paths, function names, and error " ++
  "messages."

def updateSummarizationPrompt : String :=
  "The messages above are NEW conversation messages to incorporate into the existing " ++
  "summary provided in <previous-summary> tags.\n\n" ++
  "Update the existing structured summary with new information. RULES:\n" ++
  "- PRESERVE all existing information from the previous summary\n" ++
  "- ADD new progress, decisions, and context from the new messages\n" ++
  "- UPDATE the Progress section: move items from \"In Progress\" to \"Done\" when " ++
  "completed\n" ++
  "- UPDATE \"Next Steps\" based on what was accomplished\n" ++
  "- PRESERVE exact file paths, function names, and error messages\n" ++
  "- If something is no longer relevant, you may remove it\n\n" ++
  "Use this EXACT format:\n\n" ++
  "## Goal\n" ++
  "[Preserve existing goals, add new ones if the task expanded]\n\n" ++
  "## Constraints & Preferences\n" ++
  "- [Preserve existing, add new ones discovered]\n\n" ++
  "## Progress\n" ++
  "### Done\n" ++
  "- [x] [Include previously done items AND newly completed items]\n\n" ++
  "### In Progress\n" ++
  "- [ ] [Current work - update based on progress]\n\n" ++
  "### Blocked\n" ++
  "- [Current blockers - remove if resolved]\n\n" ++
  "## Key Decisions\n" ++
  "- **[Decision]**: [Brief rationale] (preserve all previous, add new)\n\n" ++
  "## Next Steps\n" ++
  "1. [Update based on current state]\n\n" ++
  "## Critical Context\n" ++
  "- [Preserve important context, add new if needed]\n\n" ++
  "Keep each section concise. Preserve exact file paths, function names, and error " ++
  "messages."

def turnPrefixSummarizationPrompt : String :=
  "This is the PREFIX of a turn that was too large to keep. The SUFFIX (recent work) is " ++
  "retained.\n\n" ++
  "Summarize the prefix to provide context for the retained suffix:\n\n" ++
  "## Original Request\n" ++
  "[What did the user ask for in this turn?]\n\n" ++
  "## Early Progress\n" ++
  "- [Key decisions and work done in the prefix]\n\n" ++
  "## Context for Suffix\n" ++
  "- [Information needed to understand the retained recent work]\n\n" ++
  "Be concise. Focus on what's needed to understand the kept suffix."

/-- The fields of the model `compact` reads. -/
structure SummaryModel where
  maxTokens : Nat
  reasoning : Bool
  deriving DecidableEq, Repr

/-- One summarization request. -/
structure SummaryRequest where
  systemPrompt : String
  promptText : String
  maxTokens : Nat
  reasoning : Option String
  deriving DecidableEq, Repr

abbrev Llm := SummaryRequest → AssistantMessage

def conversationText (messages : List AgentMessage) : String :=
  serializeConversation (convertToLlm messages)

/-- An optional string that is present and not empty. -/
def truthy : Option String → Option String
  | some s => if s = "" then none else some s
  | none => none

def summaryPrompt (currentMessages : List AgentMessage)
    (customInstructions previousSummary : Option String) : String :=
  let basePrompt :=
    if (truthy previousSummary).isSome then updateSummarizationPrompt else summarizationPrompt
  let basePrompt := match truthy customInstructions with
    | some focus => basePrompt ++ "\n\nAdditional focus: " ++ focus
    | none => basePrompt
  let promptText :=
    "<conversation>\n" ++ conversationText currentMessages ++ "\n</conversation>\n\n"
  let promptText := match truthy previousSummary with
    | some summary => promptText ++ "<previous-summary>\n" ++ summary ++ "\n</previous-summary>\n\n"
    | none => promptText
  promptText ++ basePrompt

def turnPrefixPrompt (messages : List AgentMessage) : String :=
  "<conversation>\n" ++ conversationText messages ++ "\n</conversation>\n\n" ++
    turnPrefixSummarizationPrompt

/-- `Math.min(budget, model.maxTokens > 0 ? model.maxTokens : Infinity)` -/
def capTokens (budget : Nat) (model : SummaryModel) : Nat :=
  if 0 < model.maxTokens then min budget model.maxTokens else budget

/-- `createSummarizationOptions`, with the prompt around it. -/
def createRequest (model : SummaryModel) (maxTokens : Nat) (thinkingLevel : Option String)
    (promptText : String) : SummaryRequest :=
  { systemPrompt := summarizationSystemPrompt
    promptText
    maxTokens
    reasoning :=
      if model.reasoning then (truthy thinkingLevel).filter (· ≠ "off") else none }

/-- The request for the history: four fifths of the reserve for the answer. -/
def summaryRequest (currentMessages : List AgentMessage) (model : SummaryModel)
    (reserveTokens : Nat) (customInstructions previousSummary thinkingLevel : Option String) :
    SummaryRequest :=
  createRequest model (capTokens (8 * reserveTokens / 10) model) thinkingLevel
    (summaryPrompt currentMessages customInstructions previousSummary)

/-- The request for the part of a split turn: half of the reserve. -/
def turnPrefixRequest (messages : List AgentMessage) (model : SummaryModel)
    (reserveTokens : Nat) (thinkingLevel : Option String) : SummaryRequest :=
  createRequest model (capTokens (5 * reserveTokens / 10) model) thinkingLevel
    (turnPrefixPrompt messages)

/-! ## The coding agent's `compact` -/

/-- A run that may throw and logs the requests it issues. -/
abbrev SummaryM (ε α : Type) := LoggedM SummaryRequest ε α

def completeSummarization {ε : Type} (llm : Llm) (request : SummaryRequest) :
    SummaryM ε AssistantMessage := do
  record request
  return llm request

/-- `response.errorMessage || fallback` -/
def errorText (response : AssistantMessage) (fallback : String) : String :=
  (truthy response.errorMessage).getD fallback

def textContent (response : AssistantMessage) : String :=
  join "\n" (response.content.filterMap AssistantBlock.text?)

def generateSummary (llm : Llm) (currentMessages : List AgentMessage) (model : SummaryModel)
    (reserveTokens : Nat) (customInstructions previousSummary thinkingLevel : Option String) :
    SummaryM String String := do
  let response ← completeSummarization llm
    (summaryRequest currentMessages model reserveTokens customInstructions previousSummary
      thinkingLevel)
  if response.stopReason = .error then
    throw ("Summarization failed: " ++ errorText response "Unknown error")
  return textContent response

def generateTurnPrefixSummary (llm : Llm) (messages : List AgentMessage) (model : SummaryModel)
    (reserveTokens : Nat) (thinkingLevel : Option String) : SummaryM String String := do
  let response ← completeSummarization llm
    (turnPrefixRequest messages model reserveTokens thinkingLevel)
  if response.stopReason = .error then
    throw ("Turn prefix summarization failed: " ++ errorText response "Unknown error")
  return textContent response

structure CompactionResult where
  summary : String
  firstKeptEntryId : String
  tokensBefore : Nat
  details : CompactionDetails
  deriving DecidableEq, Repr

def noPriorHistory : String := "No prior history."

def mergeSummaries (historyResult turnPrefixResult : String) : String :=
  historyResult ++ "\n\n---\n\n**Turn Context (split turn):**\n\n" ++ turnPrefixResult

/-- The requests `compact` makes, and the one summary they are merged into. -/
def generateSummaries {ε : Type} (preparation : CompactionPreparation)
    (generateHistory generateTurnPrefix : SummaryM ε String) : SummaryM ε String :=
  if preparation.isSplitTurn && !preparation.turnPrefixMessages.isEmpty then do
    let historyResult ←
      if preparation.messagesToSummarize.isEmpty then pure noPriorHistory else generateHistory
    let turnPrefixResult ← generateTurnPrefix
    return mergeSummaries historyResult turnPrefixResult
  else generateHistory

/-- The result around a finished summary: the file lists are appended to it. -/
def compactionResult (preparation : CompactionPreparation) (summary : String) : CompactionResult :=
  let lists := computeFileLists preparation.fileOps
  { summary := summary ++ formatFileOperations lists
    firstKeptEntryId := preparation.firstKeptEntryId
    tokensBefore := preparation.tokensBefore
    details := { readFiles := lists.readFiles, modifiedFiles := lists.modifiedFiles } }

def missingId : String := "First kept entry has no UUID - session may need migration"

def compact (llm : Llm) (preparation : CompactionPreparation) (model : SummaryModel)
    (customInstructions thinkingLevel : Option String) : SummaryM String CompactionResult := do
  let reserveTokens := preparation.settings.reserveTokens
  let summary ← generateSummaries preparation
    (generateSummary llm preparation.messagesToSummarize model reserveTokens customInstructions
      preparation.previousSummary thinkingLevel)
    (generateTurnPrefixSummary llm preparation.turnPrefixMessages model reserveTokens thinkingLevel)
  if preparation.firstKeptEntryId = "" then throw missingId
  return compactionResult preparation summary

/-! ## The harness's `compact` -/

namespace Harness

/-- The errors of one response, in the order they are checked. -/
def checkResponse (response : AssistantMessage) (abortedText failedText : String) :
    SummaryM CompactionError String := do
  if response.stopReason = .aborted then
    throw { code := .aborted, message := errorText response abortedText }
  if response.stopReason = .error then
    throw { code := .summarizationFailed
            message := failedText ++ errorText response "Unknown error" }
  return textContent response

def generateSummary (llm : Llm) (currentMessages : List AgentMessage) (model : SummaryModel)
    (reserveTokens : Nat) (customInstructions previousSummary thinkingLevel : Option String) :
    SummaryM CompactionError String := do
  let response ← completeSummarization llm
    (summaryRequest currentMessages model reserveTokens customInstructions previousSummary
      thinkingLevel)
  checkResponse response "Summarization aborted" "Summarization failed: "

def generateTurnPrefixSummary (llm : Llm) (messages : List AgentMessage) (model : SummaryModel)
    (reserveTokens : Nat) (thinkingLevel : Option String) : SummaryM CompactionError String := do
  let response ← completeSummarization llm
    (turnPrefixRequest messages model reserveTokens thinkingLevel)
  checkResponse response "Turn prefix summarization aborted" "Turn prefix summarization failed: "

def compact (llm : Llm) (preparation : CompactionPreparation) (model : SummaryModel)
    (customInstructions thinkingLevel : Option String) :
    SummaryM CompactionError CompactionResult := do
  let reserveTokens := preparation.settings.reserveTokens
  if preparation.firstKeptEntryId = "" then
    throw { code := .invalidSession, message := missingId }
  let summary ← generateSummaries preparation
    (generateSummary llm preparation.messagesToSummarize model reserveTokens customInstructions
      preparation.previousSummary thinkingLevel)
    (generateTurnPrefixSummary llm preparation.turnPrefixMessages model reserveTokens thinkingLevel)
  return compactionResult preparation summary

end Harness

/-! ## The requests of a run -/

section Requests
variable {ε : Type}

theorem runs_complete (llm : Llm) (request : SummaryRequest) :
    Runs (completeSummarization llm request : SummaryM ε AssistantMessage) [request]
      (.ok (llm request)) := by
  intro log; rfl

end Requests

/-- A turn is split and nothing stands in front of it: no history request. -/
def TurnOnly (p : CompactionPreparation) : Prop :=
  p.isSplitTurn = true ∧ p.turnPrefixMessages ≠ [] ∧ p.messagesToSummarize = []

variable {p : CompactionPreparation} {text part : String}

theorem generateSummaries_history {ε : Type}
    {generateHistory generateTurnPrefix : SummaryM ε String} {r r' : List SummaryRequest}
    {result result' : Except ε String} (hhistory : Runs generateHistory r result)
    (hturn : Runs generateTurnPrefix r' result') (h : ¬ TurnOnly p) :
    ∃ rest result'', Runs (generateSummaries p generateHistory generateTurnPrefix)
      (r ++ rest) result'' := by
  unfold generateSummaries
  split
  · rename_i hsplit
    have hne : p.messagesToSummarize.isEmpty = false := by
      rw [Bool.and_eq_true, Bool.not_eq_true', List.isEmpty_eq_false_iff] at hsplit
      rw [List.isEmpty_eq_false_iff]
      exact fun hnil => h ⟨hsplit.1, hsplit.2, hnil⟩
    simp only [hne, Bool.false_eq_true, if_false]
    refine hhistory.then fun historyResult => ?_
    obtain ⟨rest, result'', h'⟩ := hturn.then
      (f := fun turnPrefixResult => pure (mergeSummaries historyResult turnPrefixResult))
      (fun turnPrefixResult => ⟨[], _, runs_pure _⟩)
    exact ⟨_, _, h'⟩
  · exact ⟨[], result, by rw [List.append_nil]; exact hhistory⟩

theorem generateSummaries_turnOnly {ε : Type} {generateTurnPrefix : SummaryM ε String}
    {r : List SummaryRequest} {result : Except ε String} (generateHistory : SummaryM ε String)
    (hturn : Runs generateTurnPrefix r result) (h : TurnOnly p) :
    ∃ result', Runs (generateSummaries p generateHistory generateTurnPrefix) r result' := by
  obtain ⟨hsplit, hpre, hnil⟩ := h
  have hbranch : (p.isSplitTurn && !p.turnPrefixMessages.isEmpty) = true := by
    rw [Bool.and_eq_true, Bool.not_eq_true', List.isEmpty_eq_false_iff]
    exact ⟨hsplit, hpre⟩
  unfold generateSummaries
  simp only [hbranch, if_true, hnil, List.isEmpty_nil, pure_bind]
  cases result with
  | error e => exact ⟨.error e, hturn.bind_error⟩
  | ok t =>
    refine ⟨.ok (mergeSummaries noPriorHistory t), ?_⟩
    have h := hturn.bind (f := fun t => pure (mergeSummaries noPriorHistory t)) (runs_pure _)
    rwa [List.append_nil] at h

theorem generateSummary_runs (llm : Llm) (messages : List AgentMessage) (model : SummaryModel)
    (reserveTokens : Nat) (custom previous level : Option String) :
    ∃ result, Runs (generateSummary llm messages model reserveTokens custom previous level)
      [summaryRequest messages model reserveTokens custom previous level] result := by
  unfold generateSummary
  by_cases herr : (llm (summaryRequest messages model reserveTokens custom previous level)).stopReason
      = .error
  · exact ⟨_, (runs_complete llm _).bind (by simp only [herr, if_true]; exact (runs_throw _).bind_error)⟩
  · exact ⟨_, (runs_complete llm _).bind (by simp only [herr, if_false]; exact runs_pure _)⟩

theorem generateTurnPrefixSummary_runs (llm : Llm) (messages : List AgentMessage)
    (model : SummaryModel) (reserveTokens : Nat) (level : Option String) :
    ∃ result, Runs (generateTurnPrefixSummary llm messages model reserveTokens level)
      [turnPrefixRequest messages model reserveTokens level] result := by
  unfold generateTurnPrefixSummary
  by_cases herr : (llm (turnPrefixRequest messages model reserveTokens level)).stopReason = .error
  · exact ⟨_, (runs_complete llm _).bind (by simp only [herr, if_true]; exact (runs_throw _).bind_error)⟩
  · exact ⟨_, (runs_complete llm _).bind (by simp only [herr, if_false]; exact runs_pure _)⟩

namespace Harness

theorem checkResponse_runs (response : AssistantMessage) (abortedText failedText : String) :
    ∃ result, Runs (checkResponse response abortedText failedText) [] result := by
  unfold checkResponse
  by_cases habort : response.stopReason = .aborted
  · simp only [habort, if_true]
    exact ⟨_, (runs_throw _).bind_error⟩
  · by_cases herr : response.stopReason = .error
    · simp only [herr, if_true, reduceCtorEq, if_false]
      exact ⟨_, (runs_throw _).bind_error⟩
    · simp only [habort, herr, if_false]
      exact ⟨_, runs_pure _⟩

theorem generateSummary_runs (llm : Llm) (messages : List AgentMessage) (model : SummaryModel)
    (reserveTokens : Nat) (custom previous level : Option String) :
    ∃ result, Runs (generateSummary llm messages model reserveTokens custom previous level)
      [summaryRequest messages model reserveTokens custom previous level] result := by
  obtain ⟨result, h⟩ := checkResponse_runs
    (llm (summaryRequest messages model reserveTokens custom previous level))
    "Summarization aborted" "Summarization failed: "
  exact ⟨result, (runs_complete llm _).bind h⟩

theorem generateTurnPrefixSummary_runs (llm : Llm) (messages : List AgentMessage)
    (model : SummaryModel) (reserveTokens : Nat) (level : Option String) :
    ∃ result, Runs (generateTurnPrefixSummary llm messages model reserveTokens level)
      [turnPrefixRequest messages model reserveTokens level] result := by
  obtain ⟨result, h⟩ :=
    checkResponse_runs (llm (turnPrefixRequest messages model reserveTokens level))
    "Turn prefix summarization aborted" "Turn prefix summarization failed: "
  exact ⟨result, (runs_complete llm _).bind h⟩

end Harness

/-! ## The requests of `compact` -/

/-- The history request of a preparation. -/
def historyRequest (p : CompactionPreparation) (model : SummaryModel)
    (customInstructions thinkingLevel : Option String) : SummaryRequest :=
  summaryRequest p.messagesToSummarize model p.settings.reserveTokens customInstructions
    p.previousSummary thinkingLevel

/-- The turn request of a preparation. -/
def turnRequest (p : CompactionPreparation) (model : SummaryModel)
    (thinkingLevel : Option String) : SummaryRequest :=
  turnPrefixRequest p.turnPrefixMessages model p.settings.reserveTokens thinkingLevel

section Compact
variable (llm : Llm) (model : SummaryModel) (custom level : Option String)

theorem finish_runs (p : CompactionPreparation) (summary : String) :
    ∃ requests result, Runs (do
      if p.firstKeptEntryId = "" then throw missingId
      return compactionResult p summary : SummaryM String CompactionResult) requests result := by
  by_cases hid : p.firstKeptEntryId = ""
  · simp only [hid, if_true]; exact ⟨_, _, (runs_throw _).bind_error⟩
  · simp only [hid, if_false]; exact ⟨_, _, runs_pure _⟩

theorem compact_history (h : ¬ TurnOnly p) :
    ∃ rest, issued (compact llm p model custom level) =
      historyRequest p model custom level :: rest := by
  obtain ⟨_, hhistory⟩ := generateSummary_runs llm p.messagesToSummarize model
    p.settings.reserveTokens custom p.previousSummary level
  obtain ⟨_, hturn⟩ := generateTurnPrefixSummary_runs llm p.turnPrefixMessages model
    p.settings.reserveTokens level
  obtain ⟨_, _, hboth⟩ := generateSummaries_history hhistory hturn h
  obtain ⟨_, _, hall⟩ := hboth.then fun summary => finish_runs p summary
  exact ⟨_, hall.issued⟩

theorem compact_turnOnly (h : TurnOnly p) (hid : p.firstKeptEntryId ≠ "") :
    issued (compact llm p model custom level) = [turnRequest p model level] := by
  obtain ⟨_, hturn⟩ := generateTurnPrefixSummary_runs llm p.turnPrefixMessages model
    p.settings.reserveTokens level
  obtain ⟨result, hboth⟩ := generateSummaries_turnOnly
    (generateSummary llm p.messagesToSummarize model p.settings.reserveTokens custom
      p.previousSummary level) hturn h
  unfold compact
  simp only [hid, if_false]
  cases result with
  | error e => exact hboth.bind_error.issued
  | ok summary =>
    have hall := hboth.bind (f := fun summary => pure (compactionResult p summary)) (runs_pure _)
    rw [List.append_nil] at hall
    exact hall.issued

theorem harnessCompact_history (h : ¬ TurnOnly p) (hid : p.firstKeptEntryId ≠ "") :
    ∃ rest, issued (Harness.compact llm p model custom level) =
      historyRequest p model custom level :: rest := by
  obtain ⟨_, hhistory⟩ := Harness.generateSummary_runs llm p.messagesToSummarize model
    p.settings.reserveTokens custom p.previousSummary level
  obtain ⟨_, hturn⟩ := Harness.generateTurnPrefixSummary_runs llm p.turnPrefixMessages model
    p.settings.reserveTokens level
  obtain ⟨_, _, hboth⟩ := generateSummaries_history hhistory hturn h
  obtain ⟨_, _, hall⟩ := hboth.then fun summary =>
    ⟨[], .ok (compactionResult p summary), runs_pure _⟩
  unfold Harness.compact
  simp only [hid, if_false]
  exact ⟨_, hall.issued⟩

theorem harnessCompact_turnOnly (h : TurnOnly p) (hid : p.firstKeptEntryId ≠ "") :
    issued (Harness.compact llm p model custom level) = [turnRequest p model level] := by
  obtain ⟨_, hturn⟩ := Harness.generateTurnPrefixSummary_runs llm p.turnPrefixMessages model
    p.settings.reserveTokens level
  obtain ⟨result, hboth⟩ := generateSummaries_turnOnly
    (Harness.generateSummary llm p.messagesToSummarize model p.settings.reserveTokens custom
      p.previousSummary level) hturn h
  unfold Harness.compact
  simp only [hid, if_false]
  cases result with
  | error e => exact hboth.bind_error.issued
  | ok summary =>
    have hall := hboth.bind (f := fun summary => pure (compactionResult p summary)) (runs_pure _)
    rw [List.append_nil] at hall
    exact hall.issued

end Compact

/-! ## What the prompts carry -/

/-- `text.includes(part)` -/
def Contains (text part : String) : Prop := part.toList <:+: text.toList

theorem contains_append_left (rest : String) (h : Contains text part) :
    Contains (text ++ rest) part := by
  unfold Contains at *
  rw [String.toList_append]
  exact h.trans (List.prefix_append _ _).isInfix

theorem contains_append_right (before : String) (h : Contains text part) :
    Contains (before ++ text) part := by
  unfold Contains at *
  rw [String.toList_append]
  exact h.trans (List.suffix_append _ _).isInfix

theorem not_mem_literal {s : String} {chars : List Char} {c : Char} (h : s = String.ofList chars)
    (hc : c ∉ chars) : c ∉ s.toList := by
  rw [h, String.toList_ofList]; exact hc

theorem not_contains_of_char {c : Char} (hpart : c ∈ part.toList) (htext : c ∉ text.toList) :
    ¬ Contains text part :=
  fun h => htext (h.subset hpart)

theorem contains_self (text : String) : Contains text text := List.infix_refl _

/-- The history request carries the previous summary. -/
theorem summaryPrompt_contains (messages : List AgentMessage) (custom : Option String)
    (summary : String) : Contains (summaryPrompt messages custom (some summary)) summary := by
  by_cases hempty : summary = ""
  · subst hempty
    exact List.nil_infix
  · have htruthy : truthy (some summary) = some summary := by simp [truthy, hempty]
    unfold summaryPrompt
    simp only [htruthy]
    refine contains_append_left _ (contains_append_left _ ?_)
    exact contains_append_right _ (contains_self summary)

/-! ## When an earlier compaction is remembered -/

/-- The entry kinds that give a message to summarize. -/
def contributes (entry : SessionEntry) : Bool :=
  match entry.body with
  | .message _ => true
  | .customMessage .. => true
  | .branchSummary .. => true
  | _ => false

theorem getMessage_none_iff (entry : SessionEntry) :
    getMessageFromEntryForCompaction entry = none ↔ contributes entry = false := by
  rcases entry with ⟨id, parent, ts, body⟩
  cases body <;> simp [getMessageFromEntryForCompaction, getMessageFromEntry, contributes,
    SessionEntry.isCompaction]

theorem messagesBetween_nil_iff (path : List SessionEntry) (start stop : Nat) :
    messagesBetween path start stop = [] ↔
      ∀ e ∈ slice path start stop, contributes e = false := by
  unfold messagesBetween
  rw [List.filterMap_eq_nil_iff]
  exact forall₂_congr fun e _ => getMessage_none_iff e

/-- The cut splits a turn that starts right after the previous boundary: nothing
between the boundary and the turn gives a message, something in the turn before
the cut does. -/
def SplitsFirstTurn (path : List SessionEntry) (settings : CompactionSettings) : Prop :=
  ∃ turnStartIndex, (preparationCut path settings).splitTurnStart = some turnStartIndex ∧
    (∀ e ∈ slice path (previousBoundary path).boundaryStart turnStartIndex,
      contributes e = false) ∧
    ∃ e ∈ slice path turnStartIndex (preparationCut path settings).firstKeptEntryIndex,
      contributes e = true

theorem turnOnly_iff {path : List SessionEntry} {settings : CompactionSettings}
    {firstKeptEntryId : String} {tokensBefore : Nat} :
    TurnOnly (preparationAt path settings (previousBoundary path) (preparationCut path settings)
      firstKeptEntryId tokensBefore) ↔ SplitsFirstTurn path settings := by
  have hsplit : (preparationCut path settings).isSplitTurn = true ↔
      ∃ t, (preparationCut path settings).splitTurnStart = some t := by
    unfold CutPointResult.splitTurnStart
    cases h : (preparationCut path settings).isSplitTurn with
    | false => simp
    | true =>
      have hsome := findCutPoint_isSplitTurn path (previousBoundary path).boundaryStart path.length
        settings.keepRecentTokens
      rw [show findCutPoint path (previousBoundary path).boundaryStart path.length
        settings.keepRecentTokens = preparationCut path settings from rfl, h] at hsome
      simpa [Option.isSome_iff_exists] using hsome.symm
  unfold TurnOnly SplitsFirstTurn preparationAt
  simp only
  constructor
  · rintro ⟨h1, h2, h3⟩
    obtain ⟨t, ht⟩ := hsplit.mp h1
    simp only [turnPrefix, ht, CutPointResult.historyEnd, Option.getD_some] at h2 h3
    refine ⟨t, ht, (messagesBetween_nil_iff _ _ _).mp h3, ?_⟩
    by_contra hno
    exact h2 ((messagesBetween_nil_iff _ _ _).mpr fun e he => by
      by_contra hyes
      exact hno ⟨e, he, by simpa using hyes⟩)
  · rintro ⟨t, ht, h3, e, he, hcontributes⟩
    simp only [turnPrefix, ht, CutPointResult.historyEnd, Option.getD_some]
    refine ⟨hsplit.mpr ⟨t, ht⟩, ?_, (messagesBetween_nil_iff _ _ _).mpr h3⟩
    intro hnil
    have := (messagesBetween_nil_iff _ _ _).mp hnil e he
    rw [hcontributes] at this; cases this

/-- Some request of the run carries the text. -/
def Sends {ε α : Type} (x : SummaryM ε α) (text : String) : Prop :=
  ∃ request ∈ issued x, Contains request.promptText text

/-- The condition under which an earlier compaction is remembered. -/
def Remembers (path : List SessionEntry) (settings : CompactionSettings) (summary : String) :
    Prop :=
  ¬ SplitsFirstTurn path settings ∨
    Contains (turnPrefixPrompt (turnPrefix path (preparationCut path settings))) summary

theorem remembers_of_requests {ε α : Type} {x : SummaryM ε α} {path : List SessionEntry}
    {settings : CompactionSettings} {summary firstKeptEntryId : String} {tokensBefore : Nat}
    {model : SummaryModel} {custom level : Option String}
    (hpeq : p = preparationAt path settings (previousBoundary path) (preparationCut path settings)
      firstKeptEntryId tokensBefore) (hs : p.previousSummary = some summary)
    (hhistory : ¬ TurnOnly p → ∃ rest, issued x = historyRequest p model custom level :: rest)
    (hturn : TurnOnly p → issued x = [turnRequest p model level]) :
    Sends x summary ↔ Remembers path settings summary := by
  have hiff : TurnOnly p ↔ SplitsFirstTurn path settings := by rw [hpeq]; exact turnOnly_iff
  have hpre : p.turnPrefixMessages = turnPrefix path (preparationCut path settings) := by
    rw [hpeq]; rfl
  unfold Sends Remembers
  by_cases h : TurnOnly p
  · have hrequest : (turnRequest p model level).promptText =
        turnPrefixPrompt (turnPrefix path (preparationCut path settings)) := by rw [← hpre]; rfl
    rw [hturn h, ← hrequest]
    simp [hiff.mp h]
  · obtain ⟨rest, hissued⟩ := hhistory h
    refine iff_of_true ⟨historyRequest p model custom level, by rw [hissued]; simp, ?_⟩
      (.inl fun hsplits => h (hiff.mpr hsplits))
    show Contains (summaryPrompt _ _ p.previousSummary) summary
    rw [hs]
    exact summaryPrompt_contains _ _ _

/-- **When compaction remembers.** For every path with an earlier compaction that
is ready to be compacted, and for every language model, a request of `compact`
carries the earlier summary exactly when the cut does not split the first turn
after the boundary, in the coding agent and in the harness alike. -/
theorem compact_remembers_iff (path : List SessionEntry) (settings : CompactionSettings)
    (summary : String) (llm : Llm) (model : SummaryModel) (custom level : Option String) :
    (∀ p, prepareCompaction path settings = some p → p.previousSummary = some summary →
      (Sends (compact llm p model custom level) summary ↔ Remembers path settings summary)) ∧
    (∀ p, harnessPrepareCompaction path settings = .ok (some p) →
      p.previousSummary = some summary →
      (Sends (Harness.compact llm p model custom level) summary ↔
        Remembers path settings summary)) := by
  constructor
  · intro p hp hs
    obtain ⟨_, firstKeptEntry, -, -, hid, hpeq, -⟩ := prepareCompaction_some hp
    have hne : p.firstKeptEntryId ≠ "" := by rw [hpeq]; exact hid
    exact remembers_of_requests hpeq hs (compact_history llm model custom level)
      (fun h => compact_turnOnly llm model custom level h hne)
  · intro p hp hs
    obtain ⟨firstKeptEntry, -, hid, hpeq⟩ := harnessPrepareCompaction_some hp
    have hne : p.firstKeptEntryId ≠ "" := by rw [hpeq]; exact hid
    exact remembers_of_requests hpeq hs
      (fun h => harnessCompact_history llm model custom level h hne)
      (fun h => harnessCompact_turnOnly llm model custom level h hne)

/-! ## The second compaction inside one turn -/

namespace SecondCompactionExample

open OverlapExample (message compaction)

def assistant (id parentId text : String) : SessionEntry :=
  { id, parentId := some parentId, timestamp := 0
    body := .message (.assistant
      { content := [.text text], provider := "p", model := "m"
        usage := { input := 0, output := 0, cacheRead := 0, cacheWrite := 0, totalTokens := 0 }
        stopReason := .stop, errorMessage := none, timestamp := 0 }) }

def settings : CompactionSettings :=
  { enabled := true, reserveTokens := 16384, keepRecentTokens := 1 }

/-- A first turn, then a second one whose start the first compaction keeps. -/
def path : List SessionEntry :=
  [message "m1" none "Use tabs.", message "m2" (some "m1") "Port the parser.",
   assistant "a1" "m2" "Reading.", compaction "c1" "a1" "Ziel: Einrückung mit Tabs" "m2",
   assistant "a2" "c1" "Writing."]

/-- The same path with one more turn after the compaction. -/
def longer : List SessionEntry :=
  path ++ [message "m3" (some "a2") "Now the tests.", assistant "a3" "m3" "Testing."]

theorem prompt_ascii : 'ü' ∉ turnPrefixSummarizationPrompt.toList := by
  unfold turnPrefixSummarizationPrompt
  simp only [String.toList_append, List.mem_append, not_or]
  repeat' apply And.intro
  all_goals exact not_mem_literal rfl (by decide)

end SecondCompactionExample

theorem SecondCompactionExample.turn_text :
    conversationText (turnPrefix path (preparationCut path settings)) =
      "[User]: Port the parser.\n\n[Assistant]: Reading." := rfl

theorem SecondCompactionExample.not_remembers :
    ¬ Remembers path settings "Ziel: Einrückung mit Tabs" := by
  rintro (hsplits | hcontains)
  · apply hsplits
    exact ⟨1, by decide, by decide, by decide⟩
  · refine not_contains_of_char (c := 'ü') (by decide) ?_ hcontains
    unfold turnPrefixPrompt
    rw [turn_text]
    simp only [String.toList_append, List.mem_append, not_or]
    exact ⟨⟨⟨by decide, by decide⟩, by decide⟩, prompt_ascii⟩

/-- The second compaction splits the turn the first one kept: its only request
shows the turn, and the summary of the first compaction is in no request. -/
theorem secondCompaction_forgets :
    ∃ p, prepareCompaction SecondCompactionExample.path SecondCompactionExample.settings = some p ∧
      p.previousSummary = some "Ziel: Einrückung mit Tabs" ∧
      ∀ llm model custom level,
        ¬ Sends (compact llm p model custom level) "Ziel: Einrückung mit Tabs" := by
  obtain ⟨p, hp, hs⟩ :
      ∃ p, prepareCompaction SecondCompactionExample.path SecondCompactionExample.settings = some p ∧
        p.previousSummary = some "Ziel: Einrückung mit Tabs" := ⟨_, rfl, rfl⟩
  obtain ⟨_, firstKeptEntry, -, -, hid, hpeq, -⟩ := prepareCompaction_some hp
  refine ⟨p, hp, hs, fun llm model custom level hsends => ?_⟩
  have hne : p.firstKeptEntryId ≠ "" := by rw [hpeq]; exact hid
  exact SecondCompactionExample.not_remembers
    ((remembers_of_requests hpeq hs (compact_history llm model custom level)
      (fun h => compact_turnOnly llm model custom level h hne)).mp hsends)

/-- `compact_remembers_iff` one turn later: the cut leaves the turn after the
boundary whole, and the first summary is sent. -/
theorem laterCompaction_remembers :
    ∃ p, prepareCompaction SecondCompactionExample.longer SecondCompactionExample.settings = some p ∧
      ∀ llm model custom level,
        Sends (compact llm p model custom level) "Ziel: Einrückung mit Tabs" := by
  obtain ⟨p, hp, hs⟩ :
      ∃ p, prepareCompaction SecondCompactionExample.longer SecondCompactionExample.settings = some p ∧
        p.previousSummary = some "Ziel: Einrückung mit Tabs" := ⟨_, rfl, rfl⟩
  have hcut : (preparationCut SecondCompactionExample.longer
      SecondCompactionExample.settings).splitTurnStart = some 5 := by decide
  have hhistory : ∃ e ∈ slice SecondCompactionExample.longer
      (previousBoundary SecondCompactionExample.longer).boundaryStart 5,
      contributes e = true := by decide
  refine ⟨p, hp, fun llm model custom level => ?_⟩
  refine ((compact_remembers_iff _ _ _ llm model custom level).1 p hp hs).mpr (.inl ?_)
  rintro ⟨t, ht, hnone, -⟩
  rw [hcut] at ht
  obtain rfl := Option.some.inj ht
  obtain ⟨e, he, hcontributes⟩ := hhistory
  rw [hnone e he] at hcontributes; cases hcontributes

end PieLab

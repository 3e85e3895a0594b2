import Mathlib.Data.List.Forall2
import PieLab.Agent.Environment

/-
  Tool calls of the agent loop

  The model of the tool half of `packages/agent/src/agent-loop.ts`: a call is
  prepared (its tool looked up, its arguments validated, the hook before it
  asked), executed, finalized by the hook after it, and answered by a tool result
  message. In sequential mode one call follows the other. In parallel mode the
  prepared calls run side by side, the scheduler picking which one moves, and
  their messages come after the last of them has ended.

  What is proved:
    1. `prepareToolCall_safe`, `finalizeExecutedToolCall_safe` — nothing a tool
       or a hook throws leaves the call, and the outcome is that of its call.
    2. `executeToolCalls_answers` — without an abort the results answer the calls
       one by one and in order; with one they answer the calls of a prefix.

  Correspondence (TypeScript ↔ Lean):
    prepareToolCall … emitToolResultMessage  ↔ the functions of the same names
    the body of the loops over `toolCalls`   ↔ `sequentialLoop`, `parallelLoop`
    a deferred closure of `finalizedCalls`   ↔ `FinalizedToolCallEntry.deferred`
    `Promise.all`                            ↔ `Prog.all`
-/

namespace PieLab.Agent

open Lib

def agentToolCall? : AssistantBlock → Option AgentToolCall
  | .toolCall id name arguments => some { id, name, arguments }
  | _ => none

/-- `content.filter((c) => c.type === "toolCall")` -/
def toolCalls (message : AssistantMessage) : List AgentToolCall :=
  message.content.filterMap agentToolCall?

structure PreparedToolCall where
  toolCall : AgentToolCall
  tool : AgentTool
  args : ToolArguments

/-- `ImmediateToolCallOutcome`, `ExecutedToolCallOutcome` -/
structure ToolCallOutcome where
  result : AgentToolResult
  isError : Bool
  deriving DecidableEq, Repr

inductive Preparation where
  | prepared (call : PreparedToolCall)
  | immediate (outcome : ToolCallOutcome)

structure FinalizedToolCallOutcome extends ToolCallOutcome where
  toolCall : AgentToolCall
  deriving DecidableEq, Repr

structure ExecutedToolCallBatch where
  messages : List ToolResultMessage
  terminate : Bool
  deriving DecidableEq, Repr

def createErrorToolResult (message : String) : AgentToolResult :=
  { content := [.text message], terminate := none }

def errorOutcome (message : String) : ToolCallOutcome :=
  { result := createErrorToolResult message, isError := true }

def findTool (context : AgentContext) (name : String) : Option AgentTool :=
  (context.tools.getD []).find? fun t => t.name == name

def shouldTerminateToolBatch (finalizedCalls : List FinalizedToolCallOutcome) : Bool :=
  !finalizedCalls.isEmpty && finalizedCalls.all fun f => f.result.terminate == some true

section Calls
variable (context : AgentContext) (assistantMessage : AssistantMessage) (config : AgentLoopConfig)

/-! ## One call -/

def prepareToolCallArguments (tool : AgentTool) (toolCall : AgentToolCall) : Act AgentToolCall :=
  if tool.hasPrepareArguments then do
    -- where the tool hands the same object back, the call itself is kept: the same value
    let preparedArguments ← attempt (ask (.prepareArguments tool toolCall.arguments))
    pure { toolCall with arguments := preparedArguments }
  else pure toolCall

/-- `beforeResult?.block`, and the error result it gives. -/
def blockedOutcome : Option BeforeToolCallResult → Option ToolCallOutcome
  | none => none
  | some beforeResult =>
    if beforeResult.block = some true then
      some (errorOutcome
        (if truthyText beforeResult.reason then beforeResult.reason.getD ""
        else "Tool execution was blocked"))
    else none

/-- The hook before the call: `some` outcome where it ends the preparation. -/
def askBeforeToolCall (toolCall : AgentToolCall) (args : ToolArguments) :
    Act (Option ToolCallOutcome) :=
  if config.hasBeforeToolCall then do
    let beforeResult ← attempt (ask (.beforeToolCall { assistantMessage, toolCall, args, context }))
    let isAborted ← aborted
    pure (if isAborted then some (errorOutcome "Operation aborted") else blockedOutcome beforeResult)
  else pure none

/-- What the preparation comes to, once the hook has let the call pass. -/
def preparedUnlessAborted (call : PreparedToolCall) : Act Preparation := do
  let isAborted ← aborted
  pure (if isAborted then .immediate (errorOutcome "Operation aborted") else .prepared call)

/-- The `try` block of `prepareToolCall`. -/
def tryPrepareToolCall (tool : AgentTool) (toolCall : AgentToolCall) : Act Preparation := do
  let preparedToolCall ← prepareToolCallArguments tool toolCall
  let validatedArgs ← attempt (ask (.validateToolArguments tool preparedToolCall))
  match ← askBeforeToolCall context assistantMessage config toolCall validatedArgs with
  | some outcome => pure (.immediate outcome)
  | none => preparedUnlessAborted { toolCall, tool, args := validatedArgs }

def prepareToolCall (toolCall : AgentToolCall) : Act Preparation :=
  match findTool context toolCall.name with
  | none => pure (.immediate (errorOutcome ("Tool " ++ toolCall.name ++ " not found")))
  | some tool =>
    tryCatch (tryPrepareToolCall context assistantMessage config tool toolCall)
      fun error => pure (.immediate (errorOutcome error))

/-- The outcome of a tool that settled. -/
def executedOutcome : Except String AgentToolResult → ToolCallOutcome
  | .ok result => { result, isError := false }
  | .error error => errorOutcome error

def executePreparedToolCall (prepared : PreparedToolCall) : Act ToolCallOutcome := do
  let executed ← ask (.execute prepared.tool prepared.toolCall.id prepared.args)
  -- the updates a tool reports after it has settled are ignored
  emitAll (executed.1.map fun partialResult =>
    .toolExecutionUpdate prepared.toolCall.id prepared.toolCall.name prepared.toolCall.arguments
      partialResult)
  pure (executedOutcome executed.2)

/-- What an answer of `afterToolCall` makes of an executed call. -/
def mergeAfterResult (executed : ToolCallOutcome) :
    Option AfterToolCallResult → ToolCallOutcome
  | none => executed
  | some afterResult =>
    { result :=
        { content := afterResult.content.getD executed.result.content
          terminate := afterResult.terminate.or executed.result.terminate }
      isError := afterResult.isError.getD executed.isError }

def askAfterToolCall (prepared : PreparedToolCall) (executed : ToolCallOutcome) :
    Act ToolCallOutcome :=
  if config.hasAfterToolCall then
    tryCatch
      (do
        let afterResult ← attempt (ask (.afterToolCall
          { assistantMessage, toolCall := prepared.toolCall, args := prepared.args, context
            result := executed.result, isError := executed.isError }))
        pure (mergeAfterResult executed afterResult))
      fun error => pure (errorOutcome error)
  else pure executed

def finalizeExecutedToolCall (prepared : PreparedToolCall) (executed : ToolCallOutcome) :
    Act FinalizedToolCallOutcome := do
  let outcome ← askAfterToolCall context assistantMessage config prepared executed
  pure { outcome with toolCall := prepared.toolCall }

/-- A prepared call, executed and finalized. -/
def runPreparedToolCall (prepared : PreparedToolCall) : Act FinalizedToolCallOutcome := do
  let executed ← executePreparedToolCall prepared
  finalizeExecutedToolCall context assistantMessage config prepared executed

def emitToolExecutionStart (toolCall : AgentToolCall) : Act Unit :=
  emit (.toolExecutionStart toolCall.id toolCall.name toolCall.arguments)

def emitToolExecutionEnd (finalized : FinalizedToolCallOutcome) : Act Unit :=
  emit (.toolExecutionEnd finalized.toolCall.id finalized.toolCall.name finalized.result
    finalized.isError)

def createToolResultMessage (finalized : FinalizedToolCallOutcome) : Act ToolResultMessage := do
  let timestamp ← ask .now
  pure
    { toolCallId := finalized.toolCall.id
      toolName := finalized.toolCall.name
      content := finalized.result.content
      isError := finalized.isError
      timestamp }

/-- The events of a message that is complete when it is announced. -/
def messageEvents (message : AgentMessage) : List AgentEvent :=
  [.messageStart message, .messageEnd message]

/-- A finalized call's message, created and announced. -/
def emitToolResult (finalized : FinalizedToolCallOutcome) : Act ToolResultMessage := do
  let toolResultMessage ← createToolResultMessage finalized
  emitAll (messageEvents (.toolResult toolResultMessage))
  pure toolResultMessage

/-! ## One after the other -/

/-- A call up to its outcome. -/
def runToolCall (toolCall : AgentToolCall) : Act FinalizedToolCallOutcome := do
  match ← prepareToolCall context assistantMessage config toolCall with
  | .immediate outcome => pure { outcome with toolCall }
  | .prepared prepared => runPreparedToolCall context assistantMessage config prepared

/-- A call up to its `tool_execution_end`. -/
def executeSequentially (toolCall : AgentToolCall) : Act FinalizedToolCallOutcome := do
  emitToolExecutionStart toolCall
  let finalized ← runToolCall context assistantMessage config toolCall
  emitToolExecutionEnd finalized
  pure finalized

/-- The finalized calls and their messages, up to the call after which the signal
was found aborted. -/
def sequentialLoop : List AgentToolCall →
    Act (List (FinalizedToolCallOutcome × ToolResultMessage))
  | [] => pure []
  | toolCall :: rest => do
    let finalized ← executeSequentially context assistantMessage config toolCall
    let toolResultMessage ← emitToolResult finalized
    let isAborted ← aborted
    if isAborted then pure [(finalized, toolResultMessage)]
    else do
      let done ← sequentialLoop rest
      pure ((finalized, toolResultMessage) :: done)

def executeToolCallsSequential (toolCalls : List AgentToolCall) : Act ExecutedToolCallBatch := do
  let done ← sequentialLoop context assistantMessage config toolCalls
  pure
    { messages := done.map Prod.snd
      terminate := shouldTerminateToolBatch (done.map Prod.fst) }

/-! ## Side by side -/

inductive FinalizedToolCallEntry where
  | settled (outcome : FinalizedToolCallOutcome)
  | deferred (run : Act FinalizedToolCallOutcome)

/-- `typeof entry === "function" ? entry() : Promise.resolve(entry)` -/
def FinalizedToolCallEntry.start : FinalizedToolCallEntry → Act FinalizedToolCallOutcome
  | .settled outcome => pure outcome
  | .deferred run => run

/-- A call started and prepared; what is left of it is deferred. -/
def startToolCall (toolCall : AgentToolCall) : Act FinalizedToolCallEntry := do
  emitToolExecutionStart toolCall
  match ← prepareToolCall context assistantMessage config toolCall with
  | .immediate outcome => do
    emitToolExecutionEnd { outcome with toolCall }
    pure (.settled { outcome with toolCall })
  | .prepared prepared => pure (.deferred (do
    let finalized ← runPreparedToolCall context assistantMessage config prepared
    emitToolExecutionEnd finalized
    pure finalized))

def parallelLoop : List AgentToolCall → Act (List FinalizedToolCallEntry)
  | [] => pure []
  | toolCall :: rest => do
    let entry ← startToolCall context assistantMessage config toolCall
    let isAborted ← aborted
    if isAborted then pure [entry]
    else do
      let entries ← parallelLoop rest
      pure (entry :: entries)

def emitToolResults : List FinalizedToolCallOutcome → Act (List ToolResultMessage)
  | [] => pure []
  | finalized :: rest => do
    let toolResultMessage ← emitToolResult finalized
    let messages ← emitToolResults rest
    pure (toolResultMessage :: messages)

def executeToolCallsParallel (toolCalls : List AgentToolCall) : Act ExecutedToolCallBatch := do
  let finalizedCalls ← parallelLoop context assistantMessage config toolCalls
  let orderedFinalizedCalls ← Prog.all (finalizedCalls.map FinalizedToolCallEntry.start)
  let messages ← emitToolResults orderedFinalizedCalls
  pure { messages, terminate := shouldTerminateToolBatch orderedFinalizedCalls }

def executeToolCalls : Act ExecutedToolCallBatch :=
  let hasSequentialToolCall := (toolCalls assistantMessage).any fun tc =>
    (findTool context tc.name).bind AgentTool.executionMode == some .sequential
  if config.toolExecution = some .sequential ∨ hasSequentialToolCall then
    executeToolCallsSequential context assistantMessage config (toolCalls assistantMessage)
  else executeToolCallsParallel context assistantMessage config (toolCalls assistantMessage)

end Calls

/-! ## What one call does -/

/-- A `tool_execution_start`, `tool_execution_update` or `tool_execution_end`. -/
def AgentEvent.isToolExecution : AgentEvent → Bool
  | .toolExecutionStart .. | .toolExecutionUpdate .. | .toolExecutionEnd .. => true
  | _ => false

/-- A preparation of this call. -/
def Preparation.IsOf (toolCall : AgentToolCall) : Preparation → Prop
  | .prepared call => call.toolCall = toolCall
  | .immediate _ => True

section Safety
variable {allowed : (q : Query) → Answer q → Prop} {E : AgentEvent → Prop} {T : String → Prop}
  {context : AgentContext} {assistantMessage : AssistantMessage} {config : AgentLoopConfig}

theorem prepareToolCallArguments_safe (tool : AgentTool) (toolCall : AgentToolCall) :
    Prog.Safe (environment allowed) E (fun _ => True) (fun _ => True)
      (prepareToolCallArguments tool toolCall) := by
  unfold prepareToolCallArguments
  split
  · refine Prog.Safe.bind (attempt_safe (ask_safe rfl)) ?_
    intro preparedArguments _
    exact trivial
  · exact trivial

theorem askBeforeToolCall_safe (toolCall : AgentToolCall) (args : ToolArguments) :
    Prog.Safe (environment allowed) E (fun _ => True) (fun _ => True)
      (askBeforeToolCall context assistantMessage config toolCall args) := by
  unfold askBeforeToolCall
  split
  · refine Prog.Safe.bind (attempt_safe (ask_safe rfl)) ?_
    intro beforeResult _
    refine Prog.Safe.bind aborted_safe ?_
    intro isAborted _
    exact trivial
  · exact trivial

theorem preparedUnlessAborted_safe (call : PreparedToolCall) :
    Prog.Safe (environment allowed) E T (Preparation.IsOf call.toolCall)
      (preparedUnlessAborted call) := by
  refine Prog.Safe.bind aborted_safe ?_
  intro isAborted _
  cases isAborted with
  | true => exact trivial
  | false => exact rfl

theorem tryPrepareToolCall_safe (tool : AgentTool) (toolCall : AgentToolCall) :
    Prog.Safe (environment allowed) E (fun _ => True) (Preparation.IsOf toolCall)
      (tryPrepareToolCall context assistantMessage config tool toolCall) := by
  refine Prog.Safe.bind (prepareToolCallArguments_safe tool toolCall) ?_
  intro preparedToolCall _
  refine Prog.Safe.bind (attempt_safe (ask_safe rfl)) ?_
  intro validatedArgs _
  refine Prog.Safe.bind (askBeforeToolCall_safe toolCall validatedArgs) ?_
  intro outcome _
  cases outcome with
  | some outcome => exact trivial
  | none => exact preparedUnlessAborted_safe _

/-- Whatever the tool's schema and the hook throw, the call is prepared or ends
with an error result. -/
theorem prepareToolCall_safe (toolCall : AgentToolCall) :
    Prog.Safe (environment allowed) E T (Preparation.IsOf toolCall)
      (prepareToolCall context assistantMessage config toolCall) := by
  unfold prepareToolCall
  split
  · exact trivial
  · exact Prog.Safe.handle (tryPrepareToolCall_safe _ toolCall) fun _ _ => trivial

theorem executePreparedToolCall_safe (hE : ∀ e, e.isToolExecution = true → E e)
    (prepared : PreparedToolCall) :
    Prog.Safe (environment allowed) E T (fun _ => True) (executePreparedToolCall prepared) := by
  refine Prog.Safe.bind (ask_safe rfl) ?_
  intro executed _
  refine Prog.Safe.bind (emitAll_safe ?_) fun _ _ => trivial
  intro e he
  obtain ⟨partialResult, _, rfl⟩ := List.mem_map.mp he
  exact hE _ rfl

theorem askAfterToolCall_safe (prepared : PreparedToolCall) (executed : ToolCallOutcome) :
    Prog.Safe (environment allowed) E T (fun _ => True)
      (askAfterToolCall context assistantMessage config prepared executed) := by
  unfold askAfterToolCall
  split
  · refine Prog.Safe.handle (Prog.Safe.bind (attempt_safe (ask_safe rfl)) ?_) fun _ _ => trivial
    intro afterResult _
    exact trivial
  · exact trivial

theorem finalizeExecutedToolCall_safe (prepared : PreparedToolCall) (executed : ToolCallOutcome) :
    Prog.Safe (environment allowed) E T (fun f => f.toolCall = prepared.toolCall)
      (finalizeExecutedToolCall context assistantMessage config prepared executed) :=
  Prog.Safe.bind (askAfterToolCall_safe prepared executed) fun _ _ => rfl

theorem runPreparedToolCall_safe (hE : ∀ e, e.isToolExecution = true → E e)
    (prepared : PreparedToolCall) :
    Prog.Safe (environment allowed) E T (fun f => f.toolCall = prepared.toolCall)
      (runPreparedToolCall context assistantMessage config prepared) :=
  Prog.Safe.bind (executePreparedToolCall_safe hE prepared) fun executed _ =>
    finalizeExecutedToolCall_safe prepared executed

theorem runToolCall_safe (hE : ∀ e, e.isToolExecution = true → E e) (toolCall : AgentToolCall) :
    Prog.Safe (environment allowed) E T (fun f => f.toolCall = toolCall)
      (runToolCall context assistantMessage config toolCall) := by
  refine Prog.Safe.bind (prepareToolCall_safe toolCall) ?_
  intro preparation hprep
  cases preparation with
  | immediate outcome => exact rfl
  | prepared prepared =>
    rw [← show prepared.toolCall = toolCall from hprep]
    exact runPreparedToolCall_safe hE prepared

theorem executeSequentially_safe (hE : ∀ e, e.isToolExecution = true → E e)
    (toolCall : AgentToolCall) :
    Prog.Safe (environment allowed) E T (fun f => f.toolCall = toolCall)
      (executeSequentially context assistantMessage config toolCall) := by
  refine Prog.Safe.bind (emit_safe (hE _ rfl)) ?_
  intro _ _
  refine Prog.Safe.bind (runToolCall_safe hE toolCall) ?_
  intro finalized hfinal
  exact Prog.Safe.bind (emit_safe (hE _ rfl)) fun _ _ => hfinal

theorem startToolCall_safe (hE : ∀ e, e.isToolExecution = true → E e) (toolCall : AgentToolCall) :
    Prog.Safe (environment allowed) E T
      (fun entry => Prog.Safe (environment allowed) E T (fun f => f.toolCall = toolCall) entry.start)
      (startToolCall context assistantMessage config toolCall) := by
  refine Prog.Safe.bind (emit_safe (hE _ rfl)) ?_
  intro _ _
  refine Prog.Safe.bind (prepareToolCall_safe toolCall) ?_
  intro preparation hprep
  cases preparation with
  | immediate outcome => exact Prog.Safe.bind (emit_safe (hE _ rfl)) fun _ _ => rfl
  | prepared prepared =>
    have hrun : Prog.Safe (environment allowed) E T (fun f => f.toolCall = toolCall)
        (runPreparedToolCall context assistantMessage config prepared) := by
      rw [← show prepared.toolCall = toolCall from hprep]
      exact runPreparedToolCall_safe hE prepared
    refine Prog.Safe.bind hrun ?_
    intro finalized hfinal
    exact Prog.Safe.bind (emit_safe (hE _ rfl)) fun _ _ => hfinal

/-! ## The whole batch -/

/-- No look at the signal finds it aborted. -/
def NoAbort (allowed : (q : Query) → Answer q → Prop) : Prop :=
  ∀ isAborted, allowed .aborted isAborted → isAborted = false

/-- The message carries the id and the name of the call. -/
def IsAnswerTo (message : ToolResultMessage) (toolCall : AgentToolCall) : Prop :=
  message.toolCallId = toolCall.id ∧ message.toolName = toolCall.name

/-- One item for each call of a prefix, in order; for each call where no abort is
seen. -/
def Covers {α : Type} (allowed : (q : Query) → Answer q → Prop)
    (R : α → AgentToolCall → Prop) (items : List α) (calls : List AgentToolCall) : Prop :=
  ∃ done, done <+: calls ∧ List.Forall₂ R items done ∧ (NoAbort allowed → done = calls)

theorem Covers.nil {α : Type} {R : α → AgentToolCall → Prop} : Covers allowed R [] [] :=
  ⟨[], List.prefix_rfl, .nil, fun _ => rfl⟩

theorem Covers.cons {α : Type} {R : α → AgentToolCall → Prop} {item : α} {items : List α}
    {call : AgentToolCall} {calls : List AgentToolCall} (h : R item call)
    (hrest : Covers allowed R items calls) : Covers allowed R (item :: items) (call :: calls) := by
  obtain ⟨done, hpre, hitems, hall⟩ := hrest
  refine ⟨call :: done, ?_, .cons h hitems, ?_⟩
  · rw [List.cons_prefix_cons]
    exact ⟨rfl, hpre⟩
  · intro hno
    rw [hall hno]

theorem Covers.stop {α : Type} {R : α → AgentToolCall → Prop} {item : α} {call : AgentToolCall}
    {calls : List AgentToolCall} (h : R item call) (habort : allowed .aborted true) :
    Covers allowed R [item] (call :: calls) := by
  refine ⟨[call], ⟨calls, rfl⟩, .cons h .nil, ?_⟩
  intro hno
  cases hno true habort

theorem Covers.comp {α β : Type} {R : α → AgentToolCall → Prop} {S : β → AgentToolCall → Prop}
    {items : List α} {calls : List AgentToolCall} (h : Covers allowed R items calls)
    {results : List β} (himp : ∀ done, List.Forall₂ R items done → List.Forall₂ S results done) :
    Covers allowed S results calls := by
  obtain ⟨done, hpre, hitems, hall⟩ := h
  exact ⟨done, hpre, himp done hitems, hall⟩

theorem createToolResultMessage_safe (finalized : FinalizedToolCallOutcome) :
    Prog.Safe (environment allowed) E T (IsAnswerTo · finalized.toolCall)
      (createToolResultMessage finalized) := by
  refine Prog.Safe.bind (ask_safe rfl) ?_
  intro timestamp _
  exact ⟨rfl, rfl⟩

theorem emitToolResult_safe (finalized : FinalizedToolCallOutcome) :
    Prog.Safe (environment allowed) (fun _ => True) T (IsAnswerTo · finalized.toolCall)
      (emitToolResult finalized) := by
  refine Prog.Safe.bind (createToolResultMessage_safe finalized) ?_
  intro message hmessage
  exact Prog.Safe.bind (emitAll_safe fun _ _ => trivial) fun _ _ => hmessage

theorem emitToolResults_safe {fs : List FinalizedToolCallOutcome} {calls : List AgentToolCall}
    (h : List.Forall₂ (fun f c => f.toolCall = c) fs calls) :
    Prog.Safe (environment allowed) (fun _ => True) T (fun ms => List.Forall₂ IsAnswerTo ms calls)
      (emitToolResults fs) := by
  induction h with
  | nil => exact .nil
  | @cons f c fs calls hf _ ih =>
    refine Prog.Safe.bind (emitToolResult_safe f) ?_
    intro message hmessage
    rw [hf] at hmessage
    refine Prog.Safe.bind ih ?_
    intro messages hmessages
    exact .cons hmessage hmessages

theorem sequentialLoop_safe (calls : List AgentToolCall) :
    Prog.Safe (environment allowed) (fun _ => True) T
      (fun done => Covers allowed (fun fm c => IsAnswerTo fm.2 c) done calls)
      (sequentialLoop context assistantMessage config calls) := by
  induction calls with
  | nil => exact Covers.nil
  | cons call calls ih =>
    refine Prog.Safe.bind (executeSequentially_safe (fun _ _ => trivial) call) ?_
    intro finalized hfinal
    refine Prog.Safe.bind (emitToolResult_safe finalized) ?_
    intro message hmessage
    rw [hfinal] at hmessage
    refine Prog.Safe.bind aborted_safe ?_
    intro isAborted haborted
    cases isAborted with
    | true => exact Covers.stop hmessage haborted
    | false =>
      refine Prog.Safe.bind ih ?_
      intro done hdone
      exact Covers.cons hmessage hdone

theorem parallelLoop_safe (hE : ∀ e, e.isToolExecution = true → E e) (calls : List AgentToolCall) :
    Prog.Safe (environment allowed) E T
      (fun entries => Covers allowed (fun entry c => Prog.Safe (environment allowed) E T
        (fun f => f.toolCall = c) entry.start) entries calls)
      (parallelLoop context assistantMessage config calls) := by
  induction calls with
  | nil => exact Covers.nil
  | cons call calls ih =>
    refine Prog.Safe.bind (startToolCall_safe hE call) ?_
    intro entry hentry
    refine Prog.Safe.bind aborted_safe ?_
    intro isAborted haborted
    cases isAborted with
    | true => exact Covers.stop hentry haborted
    | false =>
      refine Prog.Safe.bind ih ?_
      intro entries hentries
      exact Covers.cons hentry hentries

theorem executeToolCallsSequential_safe (calls : List AgentToolCall) :
    Prog.Safe (environment allowed) (fun _ => True) T
      (fun batch => Covers allowed IsAnswerTo batch.messages calls)
      (executeToolCallsSequential context assistantMessage config calls) := by
  refine Prog.Safe.bind (sequentialLoop_safe calls) ?_
  intro done hdone
  refine Covers.comp hdone ?_
  intro answered h
  exact List.forall₂_map_left_iff.mpr h

theorem executeToolCallsParallel_safe (calls : List AgentToolCall) :
    Prog.Safe (environment allowed) (fun _ => True) T
      (fun batch => Covers allowed IsAnswerTo batch.messages calls)
      (executeToolCallsParallel context assistantMessage config calls) := by
  refine Prog.Safe.bind (parallelLoop_safe (fun _ _ => trivial) calls) ?_
  intro entries hentries
  obtain ⟨done, hpre, hstart, hall⟩ := hentries
  -- whichever task ends first, the outcomes come in the order of the entries
  refine Prog.Safe.bind (Prog.Safe.all (List.forall₂_map_left_iff.mpr hstart)) ?_
  intro ordered hordered
  refine Prog.Safe.bind (emitToolResults_safe hordered) ?_
  intro messages hmessages
  exact ⟨done, hpre, hmessages, hall⟩

/-- Every run returns. Its results answer a prefix of the message's calls, one by
one and in order, and all of them where no abort is seen. -/
theorem executeToolCalls_answers {events : List AgentEvent}
    {outcome : Except String ExecutedToolCallBatch}
    (h : Prog.Produces (environment allowed) (executeToolCalls context assistantMessage config)
      events outcome) :
    ∃ batch, outcome = .ok batch ∧
      (∃ answered, answered <+: toolCalls assistantMessage ∧
        List.Forall₂ IsAnswerTo batch.messages answered) ∧
      (NoAbort allowed →
        List.Forall₂ IsAnswerTo batch.messages (toolCalls assistantMessage)) := by
  have hsafe : Prog.Safe (environment allowed) (fun _ => True) (fun _ => False)
      (fun batch => Covers allowed IsAnswerTo batch.messages (toolCalls assistantMessage))
      (executeToolCalls context assistantMessage config) := by
    unfold executeToolCalls
    simp only []
    split
    · exact executeToolCallsSequential_safe _
    · exact executeToolCallsParallel_safe _
  obtain ⟨batch, hbatch, answered, hpre, hanswers, hall⟩ := hsafe.returns h
  refine ⟨batch, hbatch, ⟨answered, hpre, hanswers⟩, ?_⟩
  intro hno
  rw [hall hno] at hanswers
  exact hanswers

end Safety

/-! A batch of a failing tool, a tool that is not there and a tool the hook blocks:
each call is answered, whatever becomes of it. -/

namespace BatchExample

def answer : (q : Query) → Answer q
  | .emit _ => ()
  | .aborted => false
  | .now => 0
  | .prepareArguments _ args => .ok args
  | .validateToolArguments _ toolCall => .ok toolCall.arguments
  | .beforeToolCall context => .ok (some { block := context.toolCall.name == "write", reason := none })
  | .execute _ _ _ => ([], .error "no such file")
  | .afterToolCall _ => .ok none
  | .transformContext messages => .ok messages
  | .convertToLlm messages => .ok (PieLab.convertToLlm messages)
  | .getApiKey _ => .ok none
  | .streamFunction _ _ _ _ => .error "no model"
  | .prepareNextTurn _ => .ok none
  | .shouldStopAfterTurn _ => .ok false
  | .getSteeringMessages => .ok []
  | .getFollowUpMessages => .ok []

def context : AgentContext :=
  { systemPrompt := "", messages := [],
    tools := some [{ name := "read", hasPrepareArguments := false, executionMode := none },
      { name := "write", hasPrepareArguments := false, executionMode := none }] }

def message : AssistantMessage :=
  { content := [.toolCall "a" "read" [], .text "and", .toolCall "b" "ghost" [],
      .toolCall "c" "write" []]
    provider := "p", model := "m"
    usage := { input := 0, output := 0, cacheRead := 0, cacheWrite := 0, totalTokens := 0 }
    stopReason := .toolUse, errorMessage := none, timestamp := 0 }

def config : AgentLoopConfig :=
  { model := { provider := "p", id := "m" }, reasoning := none, apiKey := none
    toolExecution := none, hasTransformContext := false, hasGetApiKey := false
    hasBeforeToolCall := true, hasAfterToolCall := false, hasPrepareNextTurn := false
    hasShouldStopAfterTurn := false, hasGetSteeringMessages := false
    hasGetFollowUpMessages := false }

/-- The environment that gives these answers and no others. -/
def world : World Query Answer AgentEvent := environment fun q a => a = answer q

end BatchExample

theorem executeToolCalls_answers_example :
    ∃ batch,
      (Prog.run BatchExample.world BatchExample.answer false (executeToolCalls BatchExample.context
        BatchExample.message BatchExample.config)).2 = .ok batch ∧
      List.Forall₂ IsAnswerTo batch.messages (toolCalls BatchExample.message) := by
  obtain ⟨batch, hbatch, _, hall⟩ :=
    executeToolCalls_answers (Prog.run_produces (w := BatchExample.world)
      (fun _ => rfl) false (executeToolCalls BatchExample.context BatchExample.message
        BatchExample.config))
  exact ⟨batch, hbatch, hall fun _ h => h⟩

end PieLab.Agent

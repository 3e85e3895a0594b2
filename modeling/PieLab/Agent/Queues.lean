import PieLab.Agent.Loop
import PieLab.Lib.StatefulRuns
import PieLab.Lib.Runs

/-
  The agent and its queues

  The model of `packages/agent/src/agent.ts`: the transcript, the two queues, and
  the runs of the agent loop that are started on them. Around every query of a run
  the code that holds the agent, its listeners among it, may queue messages and
  change the settings; the abort signal and the answers of the model, the tools and
  the hooks are left open. Listeners do not throw.

  Correspondence (TypeScript ↔ Lean):
    PendingMessageQueue, AgentState ↔ the types of the same names
    processEvents, finishRun        ↔ the functions of the same names
    the state set up by runWithLifecycle ↔ `AgentState.beginRun`
    createContextSnapshot, createLoopConfig ↔ the functions of the same names
    getSteeringMessages, getFollowUpMessages of the configuration ↔ the functions of
                                      the same names
    runWithLifecycle, handleRunFailure ↔ `RunWithLifecycle`, `handleRunFailure`
    steer, followUp, the setters    ↔ `HostCall`
    prompt, continue                ↔ `AgentNext`; a call that throws does nothing
  `given`, `steered` and `followedUp` are no fields of the agent: they hold what it
  was called with.
-/

namespace PieLab.Agent

open Lib

/-! ## Queues -/

inductive QueueMode where
  | all | oneAtATime
  deriving DecidableEq

structure PendingMessageQueue where
  messages : List AgentMessage
  mode : QueueMode

namespace PendingMessageQueue

def enqueue (queue : PendingMessageQueue) (message : AgentMessage) : PendingMessageQueue :=
  { queue with messages := queue.messages ++ [message] }

/-- What is drained, and what is left. -/
def drain (queue : PendingMessageQueue) : List AgentMessage × PendingMessageQueue :=
  match queue.mode with
  | .all => (queue.messages, { queue with messages := [] })
  | .oneAtATime => (queue.messages.take 1, { queue with messages := queue.messages.drop 1 })

end PendingMessageQueue

/-! ## The state of the agent -/

structure AgentState where
  systemPrompt : String
  model : Model
  thinkingLevel : ThinkingLevel
  tools : List AgentTool
  messages : List AgentMessage
  isStreaming : Bool
  streamingMessage : Option AgentMessage
  pendingToolCalls : StringSet
  errorMessage : Option String
  steeringQueue : PendingMessageQueue
  followUpQueue : PendingMessageQueue
  /-- Of the configuration of the run. -/
  skipInitialSteeringPoll : Bool
  /-- The messages `prompt` was given. -/
  given : List AgentMessage
  /-- The messages `steer` was given. -/
  steered : List AgentMessage
  /-- The messages `followUp` was given. -/
  followedUp : List AgentMessage

/-- What an agent is created with and keeps: its callbacks. -/
structure AgentOptions where
  hasTransformContext : Bool
  hasGetApiKey : Bool
  hasBeforeToolCall : Bool
  hasAfterToolCall : Bool
  hasPrepareNextTurn : Bool
  toolExecution : ToolExecutionMode

/-- Calls of the code that holds the agent, at any time. -/
inductive HostCall where
  | steer (message : AgentMessage)
  | followUp (message : AgentMessage)
  | setSteeringMode (mode : QueueMode)
  | setFollowUpMode (mode : QueueMode)
  | configure (systemPrompt : String) (model : Model) (thinkingLevel : ThinkingLevel)
      (tools : List AgentTool)

namespace AgentState

def create (systemPrompt : String) (model : Model) (thinkingLevel : ThinkingLevel)
    (tools : List AgentTool) (messages : List AgentMessage) (steeringMode followUpMode : QueueMode) :
    AgentState where
  systemPrompt := systemPrompt
  model := model
  thinkingLevel := thinkingLevel
  tools := tools
  messages := messages
  isStreaming := false
  streamingMessage := none
  pendingToolCalls := []
  errorMessage := none
  steeringQueue := { messages := [], mode := steeringMode }
  followUpQueue := { messages := [], mode := followUpMode }
  skipInitialSteeringPoll := false
  given := []
  steered := []
  followedUp := []

def apply (s : AgentState) : HostCall → AgentState
  | .steer message =>
    { s with steeringQueue := s.steeringQueue.enqueue message, steered := s.steered ++ [message] }
  | .followUp message =>
    { s with followUpQueue := s.followUpQueue.enqueue message
             followedUp := s.followedUp ++ [message] }
  | .setSteeringMode mode => { s with steeringQueue := { s.steeringQueue with mode } }
  | .setFollowUpMode mode => { s with followUpQueue := { s.followUpQueue with mode } }
  | .configure systemPrompt model thinkingLevel tools =>
    { s with systemPrompt, model, thinkingLevel, tools }

def applyAll (s : AgentState) (calls : List HostCall) : AgentState := calls.foldl apply s

/-- The reduction of a loop event. -/
def processEvents (s : AgentState) : AgentEvent → AgentState
  | .messageStart message => { s with streamingMessage := some message }
  | .messageUpdate message _ => { s with streamingMessage := some message }
  | .messageEnd message =>
    { s with streamingMessage := none, messages := s.messages ++ [message] }
  | .toolExecutionStart toolCallId _ _ =>
    { s with pendingToolCalls := s.pendingToolCalls.add toolCallId }
  | .toolExecutionEnd toolCallId _ _ _ =>
    { s with pendingToolCalls := s.pendingToolCalls.filter fun id => decide (id ≠ toolCallId) }
  | .turnEnd message _ =>
    if truthyText message.errorMessage then { s with errorMessage := message.errorMessage } else s
  | .agentEnd _ => { s with streamingMessage := none }
  | _ => s

def getSteeringMessages (s : AgentState) : List AgentMessage × AgentState :=
  if s.skipInitialSteeringPoll then ([], { s with skipInitialSteeringPoll := false })
  else (s.steeringQueue.drain.1, { s with steeringQueue := s.steeringQueue.drain.2 })

def getFollowUpMessages (s : AgentState) : List AgentMessage × AgentState :=
  (s.followUpQueue.drain.1, { s with followUpQueue := s.followUpQueue.drain.2 })

def createContextSnapshot (s : AgentState) : AgentContext :=
  { systemPrompt := s.systemPrompt, messages := s.messages, tools := some s.tools }

def createLoopConfig (s : AgentState) (options : AgentOptions) : AgentLoopConfig where
  model := s.model
  reasoning := if s.thinkingLevel = .off then none else some s.thinkingLevel
  apiKey := none
  toolExecution := some options.toolExecution
  hasTransformContext := options.hasTransformContext
  hasGetApiKey := options.hasGetApiKey
  hasBeforeToolCall := options.hasBeforeToolCall
  hasAfterToolCall := options.hasAfterToolCall
  hasPrepareNextTurn := options.hasPrepareNextTurn
  hasShouldStopAfterTurn := false
  hasGetSteeringMessages := true
  hasGetFollowUpMessages := true

def beginRun (s : AgentState) : AgentState :=
  { s with isStreaming := true, streamingMessage := none, errorMessage := none }

def finishRun (s : AgentState) : AgentState :=
  { s with isStreaming := false, streamingMessage := none, pendingToolCalls := [] }

end AgentState

/-! ## Runs -/

/-- How the agent answers a query of the loop; what is not asked of the agent itself may get
any answer. -/
def Answers : (q : Query) → AgentState → Answer q → AgentState → Prop
  | .emit event, s, _, t => t = s.processEvents event
  | .getSteeringMessages, s, answer, t =>
    answer = .ok s.getSteeringMessages.1 ∧ t = s.getSteeringMessages.2
  | .getFollowUpMessages, s, answer, t =>
    answer = .ok s.getFollowUpMessages.1 ∧ t = s.getFollowUpMessages.2
  | _, s, _, t => t = s

/-- A query, with the calls of the host before and after it. -/
def agentMachine : Machine Query Answer AgentState := fun q s answer t =>
  ∃ before after u, Answers q (s.applyAll before) answer u ∧ t = u.applyAll after

def EMPTY_USAGE : Usage :=
  { input := 0, output := 0, cacheRead := 0, cacheWrite := 0, totalTokens := 0 }

def failureMessage (model : Model) (error : String) (isAborted : Bool) (timestamp : Int) :
    AssistantMessage where
  content := [.text ""]
  provider := model.provider
  model := model.id
  usage := EMPTY_USAGE
  stopReason := if isAborted then .aborted else .error
  errorMessage := some error
  timestamp := timestamp

def handleRunFailure (model : Model) (error : String) : Act Unit := do
  let isAborted ← aborted
  let timestamp ← ask .now
  let message := failureMessage model error isAborted timestamp
  emitAll [.messageStart (.assistant message), .messageEnd (.assistant message), .turnEnd message [],
    .agentEnd [.assistant message]]

/-- A run that ends, or fails and is closed by a failure message. -/
inductive RunWithLifecycle (executor : Act (Option (List AgentMessage))) (s : AgentState) :
    AgentState → Prop where
  | ended {messages : List AgentMessage} {t : AgentState}
      (h : Prog.Exec agentMachine executor s.beginRun (.ok (some messages)) t) :
      RunWithLifecycle executor s t.finishRun
  | failed {error : String} {t u : AgentState}
      (h : Prog.Exec agentMachine executor s.beginRun (.error error) t)
      (hfailure : Prog.Exec agentMachine (handleRunFailure t.model error) t (.ok ()) u) :
      RunWithLifecycle executor s u.finishRun

/-- A run of at most `fuel` rounds on new messages. -/
def RunPromptMessages (options : AgentOptions) (messages : List AgentMessage)
    (skipInitialSteeringPoll : Bool) (s t : AgentState) : Prop :=
  ∃ fuel, RunWithLifecycle
    (runAgentLoop fuel messages s.createContextSnapshot (s.createLoopConfig options))
    { s with skipInitialSteeringPoll } t

def RunContinuation (options : AgentOptions) (s t : AgentState) : Prop :=
  ∃ fuel, RunWithLifecycle
    (runAgentLoopContinue fuel s.createContextSnapshot (s.createLoopConfig options))
    { s with skipInitialSteeringPoll := false } t

inductive AgentAction where
  | host (call : HostCall)
  | prompt (messages : List AgentMessage)
  | continue

/-- What happens to an agent, from one time it is idle to the next. -/
inductive AgentNext (options : AgentOptions) : AgentState → AgentAction → AgentState → Prop where
  | host {s : AgentState} {call : HostCall} : AgentNext options s (.host call) (s.apply call)
  | prompt {s t : AgentState} {messages : List AgentMessage}
      (h : RunPromptMessages options messages false { s with given := s.given ++ messages } t) :
      AgentNext options s (.prompt messages) t
  | continueSteering {s t : AgentState} {message : AssistantMessage}
      (hlast : s.messages.getLast? = some (.assistant message))
      (hqueue : s.steeringQueue.drain.1 ≠ [])
      (h : RunPromptMessages options s.steeringQueue.drain.1 true
        { s with steeringQueue := s.steeringQueue.drain.2 } t) :
      AgentNext options s .continue t
  | continueFollowUp {s t : AgentState} {message : AssistantMessage}
      (hlast : s.messages.getLast? = some (.assistant message))
      (hsteering : s.steeringQueue.drain.1 = []) (hqueue : s.followUpQueue.drain.1 ≠ [])
      (h : RunPromptMessages options s.followUpQueue.drain.1 false
        { s with followUpQueue := s.followUpQueue.drain.2 } t) :
      AgentNext options s .continue t
  | continueRun {s t : AgentState} {message : AgentMessage}
      (hlast : s.messages.getLast? = some message) (hrole : message.isAssistant = false)
      (h : RunContinuation options s t) : AgentNext options s .continue t

end PieLab.Agent

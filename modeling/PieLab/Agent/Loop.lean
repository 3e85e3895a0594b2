import PieLab.Agent.ToolCalls

/-
  The agent loop

  The model of the other half of `packages/agent/src/agent-loop.ts`: an assistant
  response is streamed into the context, its tool calls are executed, the hooks
  after the turn are asked, and steering and follow-up messages start further
  turns. The two nested loops are one recursion over the state they share: the
  inner loop runs while there is something to do, the outer one asks for
  follow-up messages when there is not.

  Correspondence (TypeScript ↔ Lean):
    runAgentLoop, runAgentLoopContinue, runLoop,
    streamAssistantResponse                        ↔ the functions of the same names
    the variables of `runLoop`                     ↔ `LoopState`
    the body of the inner loop                     ↔ `runTurn`
    the `for await` over the response              ↔ `consumeEvents`
    a run that has not ended after `fuel` rounds   ↔ `none`
-/

namespace PieLab.Agent

open Lib

/-! ## One response -/

/-- The response as far as it has been received: the last `partial`, when there
is one, stands at the end of the messages. -/
structure Streaming where
  messages : List AgentMessage
  partialMessage : Option AssistantMessage

/-- `context.messages[context.messages.length - 1] = message` -/
def replaceLast (messages : List AgentMessage) (message : AgentMessage) : List AgentMessage :=
  messages.dropLast ++ [message]

/-- The messages and the events with which a response ends. -/
def endResponse (s : Streaming) (finalMessage : AssistantMessage) :
    List AgentMessage × List AgentEvent :=
  match s.partialMessage with
  | some _ => (replaceLast s.messages (.assistant finalMessage),
      [.messageEnd (.assistant finalMessage)])
  | none => (s.messages ++ [.assistant finalMessage], messageEvents (.assistant finalMessage))

/-- `response.result()`, and what follows it. -/
def finishResponse (response : Response) (s : Streaming) :
    Act (AssistantMessage × List AgentMessage) := do
  let finalMessage ← Prog.ofExcept response.result
  emitAll (endResponse s finalMessage).2
  pure (finalMessage, (endResponse s finalMessage).1)

/-- The loop over the events of the response, and what follows it. -/
def consumeEvents (response : Response) (s : Streaming) : List AssistantMessageEvent →
    Act (AssistantMessage × List AgentMessage)
  | [] =>
    match response.broken with
    | some error => .throw error
    | none => finishResponse response s
  | .start partialMessage :: events => do
    emit (.messageStart (.assistant partialMessage))
    consumeEvents response
      { messages := s.messages ++ [.assistant partialMessage]
        partialMessage := some partialMessage } events
  | .update type partialMessage :: events =>
    match s.partialMessage with
    | none => consumeEvents response s events
    | some _ => do
      emit (.messageUpdate (.assistant partialMessage) (.update type partialMessage))
      consumeEvents response
        { messages := replaceLast s.messages (.assistant partialMessage)
          partialMessage := some partialMessage } events
  -- the events after the first `done` or `error` are not read
  | .done _ :: _ | .error _ :: _ => finishResponse response s

/-- The resolved key, or the configured one where there is none. -/
def resolveApiKey (config : AgentLoopConfig) (resolved : Option String) : Option String :=
  if truthyText resolved then resolved else config.apiKey

def streamAssistantResponse (context : AgentContext) (config : AgentLoopConfig) :
    Act (AssistantMessage × AgentContext) := do
  let messages ←
    optional config.hasTransformContext (ask (.transformContext context.messages)) context.messages
  let llmMessages ← attempt (ask (.convertToLlm messages))
  let resolved ← optional config.hasGetApiKey (ask (.getApiKey config.model.provider)) none
  let response ← attempt (ask (.streamFunction config.model
    { systemPrompt := context.systemPrompt, messages := llmMessages, tools := context.tools }
    config.reasoning (resolveApiKey config resolved)))
  let streamed ← consumeEvents response
    { messages := context.messages, partialMessage := none } response.events
  pure (streamed.1, { context with messages := streamed.2 })

/-! ## Turns -/

structure LoopState where
  currentContext : AgentContext
  config : AgentLoopConfig
  newMessages : List AgentMessage
  pendingMessages : List AgentMessage
  firstTurn : Bool
  hasMoreToolCalls : Bool

/-- How a round of the loop ends: the run is over, or goes on. -/
inductive RoundEnd where
  | finished (newMessages : List AgentMessage)
  | next (s : LoopState)

/-- The state with messages added to the context and to the new messages. -/
def LoopState.addMessages (s : LoopState) (messages : List AgentMessage) : LoopState :=
  { s with
    currentContext := { s.currentContext with messages := s.currentContext.messages ++ messages }
    newMessages := s.newMessages ++ messages }

/-- The pending messages, announced and added. -/
def injectPending (s : LoopState) : Act LoopState := do
  emitAll (s.pendingMessages.flatMap messageEvents)
  pure { s.addMessages s.pendingMessages with pendingMessages := [] }

/-- `turn_start`, unless the run has opened the turn already. -/
def openTurn (s : LoopState) : Act LoopState := do
  emitAll (if s.firstTurn then [] else [.turnStart])
  pure { s with firstTurn := false }

/-- The response of the turn, streamed and added. -/
def streamTurn (s : LoopState) : Act (AssistantMessage × LoopState) := do
  let streamed ← streamAssistantResponse s.currentContext s.config
  pure (streamed.1,
    { s with currentContext := streamed.2, newMessages := s.newMessages ++ [.assistant streamed.1] })

/-- The tool calls of the response, executed, their results added. -/
def runToolCalls (message : AssistantMessage) (s : LoopState) :
    Act (List ToolResultMessage × LoopState) :=
  if (toolCalls message).isEmpty then pure ([], { s with hasMoreToolCalls := false })
  else do
    let executedToolBatch ← executeToolCalls s.currentContext message s.config
    pure (executedToolBatch.messages,
      { s.addMessages (executedToolBatch.messages.map .toolResult) with
        hasMoreToolCalls := !executedToolBatch.terminate })

/-- The level of the next turn: as before where none is given, none at all for `"off"`. -/
def nextReasoning (reasoning : Option ThinkingLevel) : Option ThinkingLevel → Option ThinkingLevel
  | none => reasoning
  | some .off => none
  | some level => some level

/-- What an answer of `prepareNextTurn` makes of the state. -/
def LoopState.applySnapshot (s : LoopState) : Option AgentLoopTurnUpdate → LoopState
  | none => s
  | some nextTurnSnapshot =>
    { s with
      currentContext := nextTurnSnapshot.context.getD s.currentContext
      config :=
        { s.config with
          model := nextTurnSnapshot.model.getD s.config.model
          reasoning := nextReasoning s.config.reasoning nextTurnSnapshot.thinkingLevel } }

def turnContext (message : AssistantMessage) (toolResults : List ToolResultMessage)
    (s : LoopState) : TurnContext :=
  { message, toolResults, context := s.currentContext, newMessages := s.newMessages }

/-- The hooks behind `turn_end`, and the look for steering messages. -/
def afterTurn (message : AssistantMessage) (toolResults : List ToolResultMessage)
    (s : LoopState) : Act RoundEnd := do
  let nextTurnSnapshot ← optional s.config.hasPrepareNextTurn
    (ask (.prepareNextTurn (turnContext message toolResults s))) none
  let s := s.applySnapshot nextTurnSnapshot
  let stop ← optional s.config.hasShouldStopAfterTurn
    (ask (.shouldStopAfterTurn (turnContext message toolResults s))) false
  if stop then do
    emit (.agentEnd s.newMessages)
    pure (.finished s.newMessages)
  else do
    let pendingMessages ← optional s.config.hasGetSteeringMessages (ask .getSteeringMessages) []
    pure (.next { s with pendingMessages })

/-- What follows the response: the end of the run where it failed, else its tool
calls and the hooks. -/
def completeTurn (message : AssistantMessage) (s : LoopState) : Act RoundEnd :=
  if message.stopReason = .error ∨ message.stopReason = .aborted then do
    emitAll [.turnEnd message [], .agentEnd s.newMessages]
    pure (.finished s.newMessages)
  else do
    let executed ← runToolCalls message s
    emit (.turnEnd message executed.1)
    afterTurn message executed.1 executed.2

/-- The body of the inner loop. -/
def runTurn (s : LoopState) : Act RoundEnd := do
  let s ← openTurn s
  let s ← injectPending s
  let streamed ← streamTurn s
  completeTurn streamed.1 streamed.2

/-- The end of the outer loop: follow-up messages start another round. -/
def followUp (s : LoopState) : Act RoundEnd := do
  let followUpMessages ← optional s.config.hasGetFollowUpMessages (ask .getFollowUpMessages) []
  if followUpMessages.isEmpty then do
    emit (.agentEnd s.newMessages)
    pure (.finished s.newMessages)
  else pure (.next { s with pendingMessages := followUpMessages, hasMoreToolCalls := true })

/-- One round: a turn while there is something to do, else the look for more. -/
def runRound (s : LoopState) : Act RoundEnd :=
  if s.hasMoreToolCalls || !s.pendingMessages.isEmpty then runTurn s else followUp s

/-- At most `fuel` rounds; `none` where the run has not ended by then. -/
def runRounds : Nat → LoopState → Act (Option (List AgentMessage))
  | 0, _ => pure none
  | fuel + 1, s => do
    match ← runRound s with
    | .finished newMessages => pure (some newMessages)
    | .next s => runRounds fuel s

def runLoop (fuel : Nat) (currentContext : AgentContext) (newMessages : List AgentMessage)
    (config : AgentLoopConfig) : Act (Option (List AgentMessage)) := do
  let pendingMessages ← optional config.hasGetSteeringMessages (ask .getSteeringMessages) []
  runRounds fuel
    { currentContext, config, newMessages, pendingMessages, firstTurn := true
      hasMoreToolCalls := true }

def runAgentLoop (fuel : Nat) (prompts : List AgentMessage) (context : AgentContext)
    (config : AgentLoopConfig) : Act (Option (List AgentMessage)) := do
  emitAll (.agentStart :: .turnStart :: prompts.flatMap messageEvents)
  runLoop fuel { context with messages := context.messages ++ prompts } prompts config

/-- Another run over the same messages. -/
def runAgentLoopContinue (fuel : Nat) (context : AgentContext) (config : AgentLoopConfig) :
    Act (Option (List AgentMessage)) :=
  match context.messages.getLast? with
  | none => .throw "Cannot continue: no messages in context"
  | some (.assistant _) => .throw "Cannot continue from message role: assistant"
  | some _ => do
    emitAll [.agentStart, .turnStart]
    runLoop fuel context [] config

end PieLab.Agent

import PieLab.Messages
import PieLab.Lib.Interaction

/-
  The agent loop and what it calls

  The data of `packages/agent/src/types.ts` and the queries the agent loop makes
  of its caller: the event sink, the abort signal, the clock, the tools, the
  hooks and the stream function. A query that may reject answers `Except`, with
  the text the loop makes of the error. The sink takes every event.

  Correspondence (TypeScript ↔ Lean):
    `AgentEvent`, `AgentTool`, `AgentContext`, …  ↔ the types of the same names
    an optional callback of `AgentLoopConfig`     ↔ a flag that it is given, and its query
    `AssistantMessageEventStream`                 ↔ `Response`: its events, what breaks it off,
                                                    and what `result()` settles with
  The `details` of a tool result and the text a stream event adds are passed on
  and never read; they are left out. Hooks are handed the live arrays of the context;
  they are taken to leave these as they are.
-/

namespace PieLab.Agent

open Lib

inductive ToolExecutionMode where
  | sequential | parallel
  deriving DecidableEq, Repr

inductive ThinkingLevel where
  | off | minimal | low | medium | high | xhigh
  deriving DecidableEq, Repr

structure Model where
  provider : String
  id : String
  deriving DecidableEq, Repr

structure AgentToolCall where
  id : String
  name : String
  arguments : ToolArguments
  deriving DecidableEq, Repr

structure AgentToolResult where
  content : List UserBlock
  terminate : Option Bool
  deriving DecidableEq, Repr

/-- A tool is known by its name; `hasPrepareArguments` says that it brings its own
`prepareArguments`. -/
structure AgentTool where
  name : String
  hasPrepareArguments : Bool
  executionMode : Option ToolExecutionMode
  deriving DecidableEq, Repr

structure AgentContext where
  systemPrompt : String
  messages : List AgentMessage
  tools : Option (List AgentTool)
  deriving DecidableEq, Repr

/-- `Context` of `packages/ai`: what a request carries. -/
structure LlmContext where
  systemPrompt : String
  messages : List Message
  tools : Option (List AgentTool)
  deriving DecidableEq, Repr

inductive UpdateType where
  | textStart | textDelta | textEnd
  | thinkingStart | thinkingDelta | thinkingEnd
  | toolcallStart | toolcallDelta | toolcallEnd
  deriving DecidableEq, Repr

inductive AssistantMessageEvent where
  | start (partialMessage : AssistantMessage)
  | update (type : UpdateType) (partialMessage : AssistantMessage)
  | done (message : AssistantMessage)
  | error (error : AssistantMessage)
  deriving DecidableEq, Repr

structure Response where
  events : List AssistantMessageEvent
  /-- The error the iteration ends with after its events, if it does. -/
  broken : Option String
  result : Except String AssistantMessage

inductive AgentEvent where
  | agentStart
  | agentEnd (messages : List AgentMessage)
  | turnStart
  | turnEnd (message : AssistantMessage) (toolResults : List ToolResultMessage)
  | messageStart (message : AgentMessage)
  | messageUpdate (message : AgentMessage) (event : AssistantMessageEvent)
  | messageEnd (message : AgentMessage)
  | toolExecutionStart (toolCallId toolName : String) (args : ToolArguments)
  | toolExecutionUpdate (toolCallId toolName : String) (args : ToolArguments)
      (partialResult : AgentToolResult)
  | toolExecutionEnd (toolCallId toolName : String) (result : AgentToolResult) (isError : Bool)
  deriving DecidableEq, Repr

structure BeforeToolCallContext where
  assistantMessage : AssistantMessage
  toolCall : AgentToolCall
  args : ToolArguments
  context : AgentContext
  deriving DecidableEq, Repr

structure BeforeToolCallResult where
  block : Option Bool
  reason : Option String
  deriving DecidableEq, Repr

structure AfterToolCallContext extends BeforeToolCallContext where
  result : AgentToolResult
  isError : Bool
  deriving DecidableEq, Repr

structure AfterToolCallResult where
  content : Option (List UserBlock)
  isError : Option Bool
  terminate : Option Bool
  deriving DecidableEq, Repr

/-- `ShouldStopAfterTurnContext`, `PrepareNextTurnContext` -/
structure TurnContext where
  message : AssistantMessage
  toolResults : List ToolResultMessage
  context : AgentContext
  newMessages : List AgentMessage
  deriving DecidableEq, Repr

structure AgentLoopTurnUpdate where
  context : Option AgentContext
  model : Option Model
  thinkingLevel : Option ThinkingLevel
  deriving DecidableEq, Repr

structure AgentLoopConfig where
  model : Model
  reasoning : Option ThinkingLevel
  apiKey : Option String
  toolExecution : Option ToolExecutionMode
  hasTransformContext : Bool
  hasGetApiKey : Bool
  hasBeforeToolCall : Bool
  hasAfterToolCall : Bool
  hasPrepareNextTurn : Bool
  hasShouldStopAfterTurn : Bool
  hasGetSteeringMessages : Bool
  hasGetFollowUpMessages : Bool
  deriving DecidableEq, Repr

/-! ## Queries -/

/-- What the agent loop asks of the code around it. -/
inductive Query where
  | emit (event : AgentEvent)
  /-- `signal?.aborted` -/
  | aborted
  /-- `Date.now()` -/
  | now
  | prepareArguments (tool : AgentTool) (args : ToolArguments)
  | validateToolArguments (tool : AgentTool) (toolCall : AgentToolCall)
  | beforeToolCall (context : BeforeToolCallContext)
  | execute (tool : AgentTool) (toolCallId : String) (args : ToolArguments)
  | afterToolCall (context : AfterToolCallContext)
  | transformContext (messages : List AgentMessage)
  | convertToLlm (messages : List AgentMessage)
  | getApiKey (provider : String)
  | streamFunction (model : Model) (context : LlmContext) (reasoning : Option ThinkingLevel)
      (apiKey : Option String)
  | prepareNextTurn (context : TurnContext)
  | shouldStopAfterTurn (context : TurnContext)
  | getSteeringMessages
  | getFollowUpMessages

/-- The answer of a query. A tool answers with the partial results it reported
before it settled, and with how it settled. -/
abbrev Answer : Query → Type
  | .emit _ => Unit
  | .aborted => Bool
  | .now => Int
  | .prepareArguments _ _ => Except String ToolArguments
  | .validateToolArguments _ _ => Except String ToolArguments
  | .beforeToolCall _ => Except String (Option BeforeToolCallResult)
  | .execute _ _ _ => List AgentToolResult × Except String AgentToolResult
  | .afterToolCall _ => Except String (Option AfterToolCallResult)
  | .transformContext _ => Except String (List AgentMessage)
  | .convertToLlm _ => Except String (List Message)
  | .getApiKey _ => Except String (Option String)
  | .streamFunction _ _ _ _ => Except String Response
  | .prepareNextTurn _ => Except String (Option AgentLoopTurnUpdate)
  | .shouldStopAfterTurn _ => Except String Bool
  | .getSteeringMessages => Except String (List AgentMessage)
  | .getFollowUpMessages => Except String (List AgentMessage)

/-- A piece of the agent loop: it asks its queries and may throw. -/
abbrev Act (α : Type) := Prog Query Answer String α

/-- The environment with the given answers: the log holds the events, in the
order they are emitted. -/
def environment (allowed : (q : Query) → Answer q → Prop) : World Query Answer AgentEvent where
  entry
    | .emit event => some event
    | _ => none
  Allowed := allowed

def ask (q : Query) : Act (Answer q) := Prog.call q

def emit (event : AgentEvent) : Act Unit := ask (.emit event)

def aborted : Act Bool := ask .aborted

/-- Emit the events one after the other. -/
def emitAll : List AgentEvent → Act Unit
  | [] => pure ()
  | event :: events => do
    emit event
    emitAll events

/-- A query whose error is thrown. -/
def attempt {α : Type} (answer : Act (Except String α)) : Act α := answer >>= Prog.ofExcept

/-- An optional callback: what it answers, or `default` where it is not given. -/
def optional {α : Type} (given : Bool) (answer : Act (Except String α)) (default : α) : Act α :=
  if given then attempt answer else pure default

section Rules
variable {allowed : (q : Query) → Answer q → Prop} {E : AgentEvent → Prop} {T : String → Prop}

theorem emit_safe {event : AgentEvent} (h : E event) :
    Prog.Safe (environment allowed) E T (fun _ => True) (emit event) := by
  refine ⟨?_, fun _ _ => trivial⟩
  intro e he
  cases he
  exact h

theorem emitAll_safe {events : List AgentEvent} (h : ∀ e ∈ events, E e) :
    Prog.Safe (environment allowed) E T (fun _ => True) (emitAll events) := by
  induction events with
  | nil => exact trivial
  | cons event events ih =>
    rw [List.forall_mem_cons] at h
    exact Prog.Safe.bind (emit_safe h.1) fun _ _ => ih h.2

theorem ask_safe {q : Query} (h : (environment allowed).entry q = none) :
    Prog.Safe (environment allowed) E T (allowed q) (ask q) := by
  apply Prog.Safe.call
  intro e he
  rw [h] at he
  cases he

theorem attempt_safe {α : Type} {R : Except String α → Prop} {answer : Act (Except String α)}
    (h : Prog.Safe (environment allowed) E (fun _ => True) R answer) :
    Prog.Safe (environment allowed) E (fun _ => True) (fun _ => True) (attempt answer) :=
  Prog.Safe.bind h fun x _ => Prog.Safe.ofExcept x

theorem aborted_safe :
    Prog.Safe (environment allowed) E T (allowed .aborted) aborted := @ask_safe _ _ _ .aborted rfl

end Rules

end PieLab.Agent

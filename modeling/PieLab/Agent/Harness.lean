import PieLab.Agent.Queues

/-
  The agent harness and its queues

  A harness runs the agent loop on a session. Each prompt is a run of its own: it
  takes the messages queued for the next turn, asks a hook, and starts the loop,
  which polls the steering and the follow-up queue; every message the loop ends goes
  to the session. Listeners, hooks, the model and the tools may throw. Callers may
  prompt, steer, queue and abort at any time; `agent_end` makes the harness idle
  before its run has come back, so runs may overlap.

  Correspondence (TypeScript ↔ Lean), packages/agent/src/harness/agent-harness.ts:
    `prompt`, `steer`, `followUp`, `nextTurn`  ↔ the events of the same names
    `abort`                                    ↔ the events `abort`, `abortEnd`
    `executeTurn`                              ↔ `takeNextTurn`, `nextTurnTaken`, `hooked`
    `drainQueuedMessages`                      ↔ `poll`, `polled`
    `handleAgentEvent`, `emitRunFailure`, `createLoopConfig`, `createContext`
                                               ↔ the functions of the same names
  What happens between two awaits is one step, and what the awaited code answers is
  chosen when it is done. A listener of a loop event acts on nothing else, so its
  wait is part of the step. An abort may end at any time, and it does not change what
  the loop is answered otherwise. `abort` replaces the arrays of both queues;
  `arrays` counts how often. Writes to the session succeed. What the session holds
  beside the appended messages, pending session writes and the options of a model
  call are left out.

  `accepted`, `returned` and the numbers of messages are no fields of the harness:
  they keep apart what it was given.
-/

namespace PieLab.Agent

open Lib

/-! ## Messages and runs -/

/-- A message with the number under which it was accepted. -/
abbrev QueuedMessage := Nat × AgentMessage

/-- A message of a run, with its number if it comes from a queue. -/
abbrev CarriedMessage := Option Nat × AgentMessage

def QueuedMessage.carried (message : QueuedMessage) : CarriedMessage := (some message.1, message.2)

/-- The message of a queue, if it is one. -/
def CarriedMessage.queued (message : CarriedMessage) : Option QueuedMessage :=
  message.1.map fun number => (number, message.2)

/-- What the harness uses of `AgentHarnessTurnState`. -/
structure TurnState where
  messages : List AgentMessage
  systemPrompt : String
  model : Model
  thinkingLevel : ThinkingLevel
  activeTools : List AgentTool

structure BeforeAgentStartResult where
  messages : Option (List AgentMessage)
  systemPrompt : Option String

inductive QueueKind where
  | steer | followUp
  deriving DecidableEq

/-- The agent loop, or the report of its failure. -/
abbrev LoopProgram := Act (Option (List AgentMessage))

inductive RunStage where
  /-- `createTurnState` is awaited. -/
  | creating
  /-- The messages of the next turn are taken; `queue_update` is awaited. -/
  | takingNextTurn (turnState : TurnState)
  /-- `before_agent_start` is awaited. -/
  | hooking (turnState : TurnState)
  | running (failing : Bool) (program : LoopProgram)
  /-- Messages of a queue are taken; `queue_update` is awaited. -/
  | polling (failing : Bool) (kind : QueueKind) (arrays : Nat)
      (resume : Except String (List AgentMessage) → LoopProgram)
  | ended

structure HarnessRun where
  prompt : AgentMessage
  /-- The model of the active turn state. -/
  model : Model
  stage : RunStage
  /-- The messages the run is to append. -/
  carried : List CarriedMessage

structure AbortCall where
  clearedSteer : List QueuedMessage
  clearedFollowUp : List QueuedMessage
  inFlight : Bool

inductive AgentHarnessPhase where
  | idle | turn
  deriving DecidableEq

structure Harness where
  phase : AgentHarnessPhase
  steerQueue : List QueuedMessage
  steeringQueueMode : QueueMode
  followUpQueue : List QueuedMessage
  followUpQueueMode : QueueMode
  nextTurnQueue : List QueuedMessage
  arrays : Nat
  runs : List HarnessRun
  aborts : List AbortCall
  /-- The messages appended to the session. -/
  session : List CarriedMessage
  accepted : List AgentMessage
  returned : List QueuedMessage

/-- What the code around the harness does in a step. -/
structure Chance where
  turnState : Except String TurnState
  hook : Except String (Option BeforeAgentStartResult)
  /-- The answers to the loop. -/
  answers : (q : Query) → Answer q
  /-- Which of two tools goes on. -/
  side : Bool
  /-- The error of a listener. -/
  thrown : Option String
  /-- A bound on the rounds of the loop. -/
  fuel : Nat

inductive HarnessEvent where
  | prompt (message : AgentMessage) (model : Model)
  | steer (message : AgentMessage)
  | followUp (message : AgentMessage)
  | nextTurn (message : AgentMessage)
  | abort
  | abortEnd (j : Nat) (thrown : Bool)
  | advance (i : Nat) (chance : Chance)

namespace Harness

def create (steeringMode followUpMode : QueueMode) : Harness where
  phase := .idle
  steerQueue := []
  steeringQueueMode := steeringMode
  followUpQueue := []
  followUpQueueMode := followUpMode
  nextTurnQueue := []
  arrays := 0
  runs := []
  aborts := []
  session := []
  accepted := []
  returned := []

/-- The number of the next message. -/
def number (s : Harness) : Nat := s.accepted.length

def setRun (s : Harness) (i : Nat) (run : HarnessRun) :
    Harness := { s with runs := s.runs.set i run }

/-! ## The queues -/

def queueOf (s : Harness) : QueueKind → List QueuedMessage
  | .steer => s.steerQueue
  | .followUp => s.followUpQueue

def modeOf (s : Harness) : QueueKind → QueueMode
  | .steer => s.steeringQueueMode
  | .followUp => s.followUpQueueMode

def setQueue (s : Harness) (kind : QueueKind) (queue : List QueuedMessage) : Harness :=
  match kind with
  | .steer => { s with steerQueue := queue }
  | .followUp => { s with followUpQueue := queue }

/-- `queue.splice(0)` or `queue.splice(0, 1)`: what is taken, and what is left. -/
def splice (mode : QueueMode) (queue : List QueuedMessage) :
    List QueuedMessage × List QueuedMessage :=
  match mode with
  | .all => (queue, [])
  | .oneAtATime => (queue.take 1, queue.drop 1)

/-! ## A run -/

/-- A prompt that is rejected. -/
def failRun (s : Harness) (i : Nat) (run : HarnessRun) : Harness :=
  { s.setRun i { run with stage := .ended, carried := [] } with phase := .idle }

def emitRunFailure (model : Model) (error : String) : LoopProgram := do
  let isAborted ← aborted
  let timestamp ← ask .now
  let message := failureMessage model error isAborted timestamp
  emitAll [.messageStart (.assistant message), .messageEnd (.assistant message), .turnEnd message [],
    .agentEnd [.assistant message]]
  pure (some [.assistant message])

/-- The run's program throws; what the run carries is dropped. -/
def runThrew (s : Harness) (i : Nat) (run : HarnessRun) (failing : Bool) (error : String) :
    Harness :=
  if failing then s.failRun i run
  else s.setRun i { run with stage := .running true (emitRunFailure run.model error), carried := [] }

/-- The start of `executeTurn`. -/
def takeNextTurn (s : Harness) (i : Nat) (run : HarnessRun) (turnState : TurnState) : Harness :=
  if s.nextTurnQueue = [] then
    s.setRun i
      { run with
        model := turnState.model
        stage := .hooking turnState
        carried := [(none, run.prompt)] }
  else
    { s.setRun i
        { run with
          model := turnState.model
          stage := .takingNextTurn turnState
          carried := s.nextTurnQueue.map QueuedMessage.carried } with
      nextTurnQueue := [] }

/-- The queue update behind it; the messages are put back if it throws. -/
def nextTurnTaken (s : Harness) (i : Nat) (run : HarnessRun) (turnState : TurnState)
    (thrown : Option String) : Harness :=
  match thrown with
  | some _ =>
    { s.failRun i run with
      nextTurnQueue := run.carried.filterMap CarriedMessage.queued ++ s.nextTurnQueue }
  | none =>
    s.setRun i { run with stage := .hooking turnState, carried := run.carried ++ [(none, run.prompt)] }

def createContext (turnState : TurnState) (systemPrompt : Option String) : AgentContext where
  systemPrompt := systemPrompt.getD turnState.systemPrompt
  messages := turnState.messages
  tools := some turnState.activeTools

def createLoopConfig (turnState : TurnState) : AgentLoopConfig where
  model := turnState.model
  reasoning := if turnState.thinkingLevel = .off then none else some turnState.thinkingLevel
  apiKey := none
  toolExecution := none
  hasTransformContext := true
  hasGetApiKey := false
  hasBeforeToolCall := true
  hasAfterToolCall := true
  hasPrepareNextTurn := true
  hasShouldStopAfterTurn := false
  hasGetSteeringMessages := true
  hasGetFollowUpMessages := true

/-- The messages of `before_agent_start` go behind the prompt. -/
def hooked (s : Harness) (i : Nat) (run : HarnessRun) (turnState : TurnState)
    (hook : Except String (Option BeforeAgentStartResult)) (fuel : Nat) : Harness :=
  match hook with
  | .error _ => s.failRun i run
  | .ok beforeResult =>
    let carried := run.carried ++
      ((beforeResult.bind BeforeAgentStartResult.messages).getD []).map fun message => (none, message)
    let program := runAgentLoop fuel (carried.map Prod.snd)
      (createContext turnState (beforeResult.bind BeforeAgentStartResult.systemPrompt))
      (createLoopConfig turnState)
    s.setRun i { run with stage := .running false program, carried }

/-- What an event of the loop changes: the first message that is carried is the one that ends. -/
def handleAgentEvent (s : Harness) (run : HarnessRun) : AgentEvent → Harness × HarnessRun
  | .messageEnd message =>
    match run.carried with
    | [] => ({ s with session := s.session ++ [(none, message)] }, run)
    | first :: carried =>
      ({ s with session := s.session ++ [(first.1, message)] }, { run with carried })
  | .agentEnd _ => ({ s with phase := .idle }, run)
  | _ => (s, run)

/-- The queue is drained; an empty one is not announced. -/
def poll (s : Harness) (i : Nat) (run : HarnessRun) (failing : Bool) (kind : QueueKind)
    (resume : Except String (List AgentMessage) → LoopProgram) : Harness :=
  let spliced := splice (s.modeOf kind) (s.queueOf kind)
  if spliced.1 = [] then s.setRun i { run with stage := .running failing (resume (.ok [])) }
  else
    (s.setQueue kind spliced.2).setRun i
      { run with
        stage := .polling failing kind s.arrays resume
        carried := spliced.1.map QueuedMessage.carried }

/-- The queue update behind it; the messages are put back into their array if it throws. -/
def polled (s : Harness) (i : Nat) (run : HarnessRun) (failing : Bool) (kind : QueueKind)
    (arrays : Nat)
    (resume : Except String (List AgentMessage) → LoopProgram) (thrown : Option String) : Harness :=
  match thrown with
  | some error =>
    let s := if arrays = s.arrays then
      s.setQueue kind (run.carried.filterMap CarriedMessage.queued ++ s.queueOf kind) else s
    s.setRun i { run with stage := .running failing (resume (.error error)), carried := [] }
  | none => s.setRun i { run with stage := .running failing (resume (.ok (run.carried.map Prod.snd))) }

/-- `setTurnState` of the next turn -/
def modelAfter (model : Model) : (q : Query) → Answer q → Model
  | .prepareNextTurn _, .ok (some update) => update.model.getD model
  | _, _ => model

/-- A query of the loop. -/
def answer (s : Harness) (i : Nat) (run : HarnessRun) (failing : Bool) (q : Query)
    (resume : Answer q → LoopProgram) (chance : Chance) : Harness :=
  match q, resume with
  | .emit event, resume =>
    let handled := s.handleAgentEvent run event
    match chance.thrown with
    | some error => handled.1.runThrew i handled.2 failing error
    | none => handled.1.setRun i { handled.2 with stage := .running failing (resume ()) }
  | .getSteeringMessages, resume => s.poll i run failing .steer resume
  | .getFollowUpMessages, resume => s.poll i run failing .followUp resume
  | q, resume =>
    s.setRun i
      { run with
        model := modelAfter run.model q (chance.answers q)
        stage := .running failing (resume (chance.answers q)) }

/-- A step of the program of a run. A run whose rounds are used up stays where it is. -/
def runProgram (s : Harness) (i : Nat) (run : HarnessRun) (failing : Bool) (chance : Chance) :
    LoopProgram → Harness
  | .done none => s
  | .done (some newMessages) =>
    if newMessages.any AgentMessage.isAssistant then s.setRun i { run with stage := .ended }
    else s.failRun i run
  | .throw error => s.runThrew i run failing error
  | .choose resume => s.setRun i { run with stage := .running failing (resume chance.side) }
  | .ask q resume => s.answer i run failing q resume chance

def advance (s : Harness) (i : Nat) (run : HarnessRun) (chance : Chance) : Harness :=
  match run.stage with
  | .creating =>
    match chance.turnState with
    | .error _ => s.failRun i run
    | .ok turnState => s.takeNextTurn i run turnState
  | .takingNextTurn turnState => s.nextTurnTaken i run turnState chance.thrown
  | .hooking turnState => s.hooked i run turnState chance.hook chance.fuel
  | .running failing program => s.runProgram i run failing chance program
  | .polling failing kind arrays resume => s.polled i run failing kind arrays resume chance.thrown
  | .ended => s

/-! ## Steps -/

def step (s : Harness) : HarnessEvent → Harness
  | .prompt message model =>
    if s.phase = .idle then
      { s with
        phase := .turn
        runs := s.runs ++ [{ prompt := message, model, stage := .creating, carried := [] }] }
    else s
  | .steer message =>
    if s.phase = .idle then s
    else
      { s with
        steerQueue := s.steerQueue ++ [(s.number, message)]
        accepted := s.accepted ++ [message] }
  | .followUp message =>
    if s.phase = .idle then s
    else
      { s with
        followUpQueue := s.followUpQueue ++ [(s.number, message)]
        accepted := s.accepted ++ [message] }
  | .nextTurn message =>
    { s with
      nextTurnQueue := s.nextTurnQueue ++ [(s.number, message)]
      accepted := s.accepted ++ [message] }
  | .abort =>
    { s with
      steerQueue := []
      followUpQueue := []
      arrays := s.arrays + 1
      aborts := s.aborts ++
        [{ clearedSteer := s.steerQueue, clearedFollowUp := s.followUpQueue, inFlight := true }] }
  | .abortEnd j thrown =>
    match s.aborts[j]? with
    | some call =>
      { s with
        aborts := s.aborts.set j { call with inFlight := false }
        returned := s.returned ++
          if call.inFlight && !thrown then call.clearedSteer ++ call.clearedFollowUp else [] }
    | none => s
  | .advance i chance =>
    match s.runs[i]? with
    | some run => s.advance i run chance
    | none => s

end Harness

def HarnessNext (s : Harness) (e : HarnessEvent) (t : Harness) : Prop := t = s.step e

end PieLab.Agent

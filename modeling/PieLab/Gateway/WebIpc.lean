import PieLab.Gateway.ChatRuntime
import Mathlib.Logic.Function.Basic

/-
  Web chat through the gateway daemon

  Each chat request of the web arrives on a connection of its own, which gets the
  deltas of an answer and one frame that ends it. The requests of a conversation
  share a worker: a request sets its connection as the worker's transport, hands in
  its message and runs the worker's queue, unless a turn is in flight; when it comes
  back its transport is closed, with an empty answer if none was sent.

  Correspondence (TypeScript ↔ Lean), packages/coding-agent/src/core/gateway:
    web-ipc-server.ts, `WebIPCTransport.send`, `close` ↔ `send`, `close`
    web-ipc-server.ts, `handleMessage`                 ↔ the events `chat` to `connect`, `close`
    web-ipc-server.ts, `getOrCreateWorker`, the factory ↔ the events `acquire`, `created`
    runner.ts, `onMessage`                             ↔ the events `connect` to `tryDispatch`
    runner.ts, `tryDispatch`                           ↔ `begin`, `Turn`, the events `delta` to `finish`
  What happens between two awaits is one step. An abort, which every request sends
  to the turn in flight, only changes how that turn ends, and a turn may end in any
  way here. Whether a text is a control command is a parameter; what the command
  does is left out, and so are typing frames. Appends to the log file succeed.
-/

namespace PieLab.Gateway

open Lib

/-! ## Requests, turns and frames -/

inductive Frame where
  | delta (text : String)
  | done (text : String)
  deriving DecidableEq, Repr

/-- Where a request is in `handleMessage`. -/
inductive RequestPhase where
  | absent
  /-- There is no worker yet; this request creates one. -/
  | creating
  /-- It holds the lock of the conversation. -/
  | locked
  | connected
  /-- A control command is carried out. -/
  | commanding
  /-- `materializeAttachments` is awaited. -/
  | ingesting
  /-- The append of its message is awaited. -/
  | appended (recordId : Nat) (message : InboundMessage)
  /-- The append of its job's record is awaited. -/
  | queued (job : PendingJob)
  /-- `tryDispatch` comes next. -/
  | ingested
  /-- It runs the turns of the worker. -/
  | running
  | returned
  | closed
  deriving DecidableEq, Repr

inductive TurnStage where
  | prompting
  /-- The final text is sent, if there is one; the job is still to be completed. -/
  | sent (finalText : String) (attachmentPaths : List String)
  /-- The append of the answer is awaited. -/
  | answered (outboundRecordId : Nat)
  /-- The append of a failure is awaited. -/
  | failed (thrown notice : Option String)
  /-- The last append is awaited. -/
  | finished (notice : Option String)
  deriving DecidableEq, Repr

structure Turn where
  /-- The request whose call runs the turn. -/
  owner : Nat
  job : PendingJob
  /-- The transport the deltas go to. -/
  transport : Option Nat
  stage : TurnStage
  deriving DecidableEq, Repr

inductive StopReason where
  | error | length
  deriving DecidableEq, Repr

def StopReason.text : StopReason → String
  | .error => "error"
  | .length => "length"

/-- How `session.prompt` ends. -/
inductive TurnOutcome where
  | thrown (message : String)
  | aborted
  | stopped (reason : StopReason) (errorMessage : Option String)
  | answered (text : Option String) (attachmentPaths : List String)

/-- `summary.text || (…)`, or nothing where the job fails. -/
def TurnOutcome.finalText : TurnOutcome → String
  | .answered text attachmentPaths =>
    if truthyText text then text.getD ""
    else if attachmentPaths ≠ [] then "Attached requested file(s)." else ""
  | _ => ""

/-- `summary.errorMessage || ...` -/
def stopMessage (reason : StopReason) (errorMessage : Option String) : String :=
  if truthyText errorMessage then errorMessage.getD "" else "agent " ++ reason.text

def errorNotice (message : String) : String := "Pie gateway error: " ++ message

/-- `buildWebConversation` -/
def webConversation : Conversation where
  dm := some true
  access := { trigger := none, ignoreBots := none, allowedUserIds := none, allowedRoleIds := none }
  mentionsBot _ := true

/-- The input of a chat message. -/
def webInput (messageId text userId : String) : InboundMessageInput where
  messageId := some messageId
  userId
  userName := some "Web User"
  roleIds := none
  text
  mentionedBot := some true
  isBot := none

/-- A web conversation. `runtime` is the worker's, which is there once it is `ready`. Beside it
are the texts of the requests, the records of their messages, and the final texts of the jobs
by their trigger records. -/
structure WebChat where
  ready : Bool
  lockHeld : Bool
  runtime : ConversationRuntime
  transport : Option Nat
  turn : Option Turn
  phase : Nat → RequestPhase
  doneSent : Nat → Bool
  frames : List (Nat × Frame)
  textOf : Nat → String
  recordOf : Nat → Option Nat
  outcomeOf : Nat → Option String

inductive WebEvent where
  | chat (i : Nat) (text : String)
  | acquire (i : Nat)
  | created (i : Nat)
  | connect (i : Nat)
  | commandDone (i : Nat)
  | ingest (i : Nat) (timestamp messageId userId : String)
  | decide (i : Nat) (timestamp jobId : String)
  | pushJob (i : Nat)
  | tryDispatch (i : Nat)
  | delta (text : String)
  | settle (timestamp : String) (outcome : TurnOutcome)
  | complete (timestamp messageId : String)
  | answerAppended (timestamp : String)
  | failureAppended (timestamp : String)
  | finish
  | close (i : Nat)

namespace WebChat

/-- No worker yet; the log file has the records. -/
def start (records : List ChatLogRecord) : WebChat where
  ready := false
  lockHeld := false
  runtime := (ConversationRuntime.connect records).armAfterCurrentTail
  transport := none
  turn := none
  phase _ := .absent
  doneSent _ := false
  frames := []
  textOf _ := ""
  recordOf _ := none
  outcomeOf _ := none

def goTo (s : WebChat) (i : Nat) (phase : RequestPhase) : WebChat :=
  { s with phase := Function.update s.phase i phase }

/-- `write` of a transport, which does nothing once it is closed. -/
def write (s : WebChat) (i : Nat) (frame : Frame) : WebChat :=
  if s.phase i = .closed then s else { s with frames := s.frames ++ [(i, frame)] }

/-- `write` to the transport of the worker, if there is one. -/
def writeTo (s : WebChat) (transport : Option Nat) (frame : Frame) : WebChat :=
  match transport with
  | some i => s.write i frame
  | none => s

/-- `send` of the worker's transport. -/
def send (s : WebChat) (text : String) : WebChat :=
  match s.transport with
  | some i => { s with doneSent := Function.update s.doneSent i true }.write i (.done text)
  | none => s

/-- `close` of a request's transport. -/
def close (s : WebChat) (i : Nat) : WebChat :=
  (if s.doneSent i then s else s.write i (.done "")).goTo i .closed

/-- The part of `tryDispatch` that takes the next job, for the request that calls it. The
source reads the transport behind its awaits on the session: a request that connects in
between is one that connects first here. -/
def begin (s : WebChat) (i : Nat) : WebChat :=
  match s.runtime.beginNextJob with
  | none => s.goTo i .returned
  | some (dispatchable, runtime) =>
    { s with
      runtime
      turn := some { owner := i, job := dispatchable.job, transport := s.transport, stage := .prompting }
      phase := Function.update s.phase i .running }

def stage (s : WebChat) (turn : Turn) (stage : TurnStage) : WebChat :=
  { s with turn := some { turn with stage } }

/-- What follows `session.prompt`. -/
def settle (s : WebChat) (timestamp : String) (turn : Turn) (outcome : TurnOutcome) : WebChat :=
  let s := { s with outcomeOf := Function.update s.outcomeOf turn.job.triggerRecordId (some outcome.finalText) }
  match outcome with
  | .thrown message =>
    { s with runtime := s.runtime.appendFailed timestamp turn.job message }.stage turn
      (.failed (some message) (some (errorNotice message)))
  | .aborted => { s with runtime := s.runtime.appendFailed timestamp turn.job "aborted" }.stage turn (.failed none none)
  | .stopped reason errorMessage =>
    { s with runtime := s.runtime.appendFailed timestamp turn.job (stopMessage reason errorMessage) }.stage turn
      (.failed none (some (errorNotice (stopMessage reason errorMessage))))
  | .answered text attachmentPaths =>
    let finalText := (TurnOutcome.answered text attachmentPaths).finalText
    (if finalText = "" then s else s.send finalText).stage turn (.sent finalText attachmentPaths)

/-- `completeActiveJob`, up to its first wait. -/
def complete (s : WebChat) (timestamp messageId : String) (turn : Turn) (finalText : String)
    (attachmentPaths : List String) : WebChat :=
  if jsTrim finalText ≠ "" ∨ attachmentPaths ≠ [] then
    { s with runtime := s.runtime.appendOutbound timestamp messageId finalText attachmentPaths turn.job }.stage
      turn (.answered s.runtime.log.nextRecordId)
  else
    { s with runtime := s.runtime.appendCompleted timestamp turn.job none }.stage turn (.finished none)

/-- The message of the request goes into the log. -/
def ingest (s : WebChat) (i : Nat) (timestamp messageId userId : String) : WebChat :=
  let message := (webInput messageId (s.textOf i) userId).normalized webConversation messageId []
  { s with
    runtime := s.runtime.appendRecord timestamp (.inbound message)
    phase := Function.update s.phase i (.appended s.runtime.log.nextRecordId message)
    recordOf := Function.update s.recordOf i (some s.runtime.log.nextRecordId) }

/-- The rest of `ingestInbound`, once the message is appended. -/
def queueJob (s : WebChat) (i : Nat) (timestamp jobId : String) (recordId : Nat)
    (message : InboundMessage) : WebChat :=
  match s.runtime.queueTrigger webConversation timestamp jobId recordId message with
  | some (job, runtime) => { s with runtime, phase := Function.update s.phase i (.queued job) }
  | none => s.goTo i .ingested

/-- `isControl` says whether `parseControlCommand` finds a command. -/
def step (isControl : String → Bool) (s : WebChat) : WebEvent → WebChat
  | .chat i text =>
    { s with
      phase := Function.update s.phase i (if s.ready then .connected else .creating)
      textOf := Function.update s.textOf i text }
  | .acquire i =>
    if s.lockHeld then s.close i
    else { s with lockHeld := true, phase := Function.update s.phase i .locked }
  | .created i => { s with ready := true, phase := Function.update s.phase i .connected }
  | .connect i =>
    { s with
      transport := some i
      phase := Function.update s.phase i (if isControl (s.textOf i) then .commanding else .ingesting) }
  | .commandDone i => s.goTo i .returned
  | .ingest i timestamp messageId userId => s.ingest i timestamp messageId userId
  | .decide i timestamp jobId =>
    match s.phase i with
    | .appended recordId message => s.queueJob i timestamp jobId recordId message
    | _ => s
  | .pushJob i =>
    match s.phase i with
    | .queued job =>
      { s with runtime := s.runtime.pushJob job, phase := Function.update s.phase i .ingested }
    | _ => s
  | .tryDispatch i => if s.turn.isSome then s.goTo i .returned else s.begin i
  | .delta text =>
    match s.turn with
    | some turn => s.writeTo turn.transport (.delta text)
    | none => s
  | .settle timestamp outcome =>
    match s.turn with
    | some turn => s.settle timestamp turn outcome
    | none => s
  | .complete timestamp messageId =>
    match s.turn with
    | some turn =>
      match turn.stage with
      | .sent finalText attachmentPaths => s.complete timestamp messageId turn finalText attachmentPaths
      | _ => s
    | none => s
  | .answerAppended timestamp =>
    match s.turn with
    | some turn =>
      match turn.stage with
      | .answered outboundRecordId =>
        { s with
          runtime := s.runtime.appendCompleted timestamp turn.job (some outboundRecordId) }.stage turn
            (.finished none)
      | _ => s
    | none => s
  | .failureAppended timestamp =>
    match s.turn with
    | some turn =>
      match turn.stage with
      | .failed (some message) notice =>
        { s with
          runtime := s.runtime.clearActive.appendRecord timestamp (.error message) }.stage turn
            (.finished notice)
      | .failed none notice => { s with runtime := s.runtime.clearActive }.stage turn (.finished notice)
      | _ => s
    | none => s
  | .finish =>
    match s.turn with
    | some turn =>
      match turn.stage with
      | .finished notice =>
        let s := { s with runtime := s.runtime.clearActive, turn := none }
        (notice.elim s fun text => s.writeTo s.transport (.delta text)).begin turn.owner
      | _ => s
    | none => s
  | .close i => s.close i

end WebChat

/-- When an event can happen. -/
def WebEvent.Enabled (s : WebChat) : WebEvent → Prop
  | .chat i _ => s.phase i = .absent
  | .acquire i => s.phase i = .creating
  | .created i => s.phase i = .locked
  | .connect i => s.phase i = .connected
  | .commandDone i => s.phase i = .commanding
  | .ingest i _ _ _ => s.phase i = .ingesting
  | .decide i _ _ => ∃ recordId message, s.phase i = .appended recordId message
  | .pushJob i => ∃ job, s.phase i = .queued job
  | .tryDispatch i => s.phase i = .ingested
  | .delta _ => ∃ turn, s.turn = some turn ∧ turn.stage = .prompting
  | .settle _ _ => ∃ turn, s.turn = some turn ∧ turn.stage = .prompting
  | .complete _ _ => ∃ turn finalText paths, s.turn = some turn ∧ turn.stage = .sent finalText paths
  | .answerAppended _ => ∃ turn recordId, s.turn = some turn ∧ turn.stage = .answered recordId
  | .failureAppended _ => ∃ turn thrown notice, s.turn = some turn ∧ turn.stage = .failed thrown notice
  | .finish => ∃ turn notice, s.turn = some turn ∧ turn.stage = .finished notice
  | .close i => s.phase i = .returned

def WebNext (isControl : String → Bool) (s : WebChat) (e : WebEvent) (t : WebChat) : Prop :=
  e.Enabled s ∧ t = s.step isControl e

end PieLab.Gateway

import PieLab.Lib.Scan
import PieLab.Messages

/-
  Answers of an agent session, streamed and plain

  A chat request prompts the session of its conversation. The streaming handler
  passes every text delta on as it comes, through a queue of writes; the plain
  handler keeps the last assistant message and returns its text. A session of the
  gateway turns the frames of the gateway into session events: a frame that ends
  the answer with another text than the deltas had gives that text as one more
  delta.

  What is proved:
    1. `Streaming.contents_step`, `streamed_contents` — whatever the order of
       events and writes, the deltas written are the deltas of the events.
    2. `streamed_answer_is_plain` — for a session, the two answers are the same
       exactly when every assistant message but the last is empty. For frames of
       the gateway they are the same exactly when the frame that ends the answer
       is `done` and its text is empty, or is the text of the deltas, or there was
       none; after `error` the plain handler has no answer at all.
    3. `repeated_answer`: a turn with a tool call, whose `done` frame holds the
       text of the last message, is streamed with that text twice.

  Correspondence (TypeScript ↔ Lean): the names of
  apps/server/src/pie-agent-chat-api.ts; `WebIPCClient.sendMessage` of
  packages/coding-agent/src/core/gateway/web-ipc-client.ts ↔ `sendOutcome`. The
  client stays connected and the prompt is not aborted. The ids and times of the
  responses are left out, and so are the events that neither handler looks at.
-/

namespace PieLab.AgentChat

open Lib

/-! ## Session events -/

inductive AssistantMessageEvent where
  | textDelta (delta : String) (partialMessage : AssistantMessage)
  | other
  deriving DecidableEq, Repr

inductive AgentSessionEvent where
  | messageUpdate (message : AgentMessage) (assistantMessageEvent : AssistantMessageEvent)
  | messageEnd (message : AgentMessage)
  | other
  deriving DecidableEq, Repr

structure ModelReference where
  provider : String
  id : String
  deriving DecidableEq, Repr

/-- What the handlers read of a session and its request. -/
structure ChatOptions where
  requestedModel : String
  conversationId : String
  sessionId : String
  sessionModel : Option ModelReference
  deriving DecidableEq, Repr

structure RouteInfo where
  requestedModel : String
  resolvedProvider : Option String
  resolvedModel : Option String
  agentSessionId : String
  conversationId : String
  deriving DecidableEq, Repr

def createRouteInfo (options : ChatOptions) (assistant : Option AssistantMessage) : RouteInfo where
  requestedModel := options.requestedModel
  resolvedProvider := (assistant.map AssistantMessage.provider).or
    (options.sessionModel.map ModelReference.provider)
  resolvedModel := (assistant.map AssistantMessage.model).or
    (options.sessionModel.map ModelReference.id)
  agentSessionId := options.sessionId
  conversationId := options.conversationId

/-- `provider/model`, when both are known and not empty. -/
def resolvedName (provider model : Option String) : Option String :=
  match provider, model with
  | some provider, some model =>
    if provider ≠ "" ∧ model ≠ "" then some (provider ++ "/" ++ model) else none
  | _, _ => none

def routeModelNameFromRoute (route : RouteInfo) : String :=
  (resolvedName route.resolvedProvider route.resolvedModel).getD route.requestedModel

def defaultModel : String := "auto:chat"

def routeModelName (options : ChatOptions) (assistant : Option AssistantMessage) : String :=
  let route := createRouteInfo options assistant
  (resolvedName route.resolvedProvider route.resolvedModel).getD defaultModel

def blockText : AssistantBlock → Option String
  | .text text => some text
  | _ => none

def assistantText (message : AssistantMessage) : String :=
  join "" (message.content.filterMap blockText)

def toOpenAIFinishReason (message : Option AssistantMessage) : String :=
  match message.map AssistantMessage.stopReason with
  | some .length => "length"
  | some .toolUse => "tool_calls"
  | _ => "stop"

/-! ## The streaming handler -/

inductive ChunkDelta where
  | role
  | content (delta : String)
  | empty
  deriving DecidableEq, Repr

inductive SseEvent where
  | chunk (model : String) (route : RouteInfo) (delta : ChunkDelta) (finishReason : Option String)
  | error (message : String)
  | done
  deriving DecidableEq, Repr

def createChatCompletionChunk (route : RouteInfo) (delta : ChunkDelta)
    (finishReason : Option String) : SseEvent :=
  .chunk (routeModelNameFromRoute route) route delta finishReason

structure Streaming where
  roleSent : Bool
  lastAssistant : Option AssistantMessage
  /-- The deltas whose writes are still in the queue. -/
  writeQueue : List String
  written : List SseEvent
  deriving DecidableEq, Repr

namespace Streaming

def start : Streaming where
  roleSent := false
  lastAssistant := none
  writeQueue := []
  written := []

def writeRoleChunk (options : ChatOptions) (s : Streaming) : Streaming :=
  if s.roleSent then s
  else { s with
    roleSent := true
    written := s.written ++
      [createChatCompletionChunk (createRouteInfo options s.lastAssistant) .role none] }

def writeContent (options : ChatOptions) (s : Streaming) (delta : String) : Streaming :=
  { s with written := s.written ++
      [createChatCompletionChunk (createRouteInfo options s.lastAssistant) (.content delta) none] }

/-- The listener of the session. -/
def onEvent (s : Streaming) : AgentSessionEvent → Streaming
  | .messageUpdate _ (.textDelta delta partialMessage) =>
    { s with lastAssistant := some partialMessage, writeQueue := s.writeQueue ++ [delta] }
  | .messageEnd (.assistant message) => { s with lastAssistant := some message }
  | _ => s

/-- The next chunk of the queue is written. -/
def write (options : ChatOptions) (s : Streaming) : Streaming :=
  match s.writeQueue with
  | [] => s
  | delta :: rest =>
    if s.roleSent then { s.writeContent options delta with writeQueue := rest }
    else s.writeRoleChunk options

/-- `await writeQueue` -/
def drain (options : ChatOptions) (s : Streaming) : Streaming :=
  { s.writeQueue.foldl (fun s delta => (s.writeRoleChunk options).writeContent options delta) s with
    writeQueue := [] }

end Streaming

/-- While the prompt runs, events come and queued chunks are written. -/
inductive StreamStep where
  | event (e : AgentSessionEvent)
  | write
  deriving DecidableEq, Repr

def Streaming.step (options : ChatOptions) (s : Streaming) : StreamStep → Streaming
  | .event e => s.onEvent e
  | .write => s.write options

/-- What is written to the response, given how the prompt ends. -/
def handleStreamingAgentChat (options : ChatOptions) (steps : List StreamStep)
    (outcome : Except String Unit) : List SseEvent :=
  let s := (steps.foldl (Streaming.step options) Streaming.start).drain options
  match outcome with
  | .ok () =>
    let s := s.writeRoleChunk options
    s.written ++ [createChatCompletionChunk (createRouteInfo options s.lastAssistant) .empty
      (some (toOpenAIFinishReason s.lastAssistant)), .done]
  | .error message => s.written ++ [.error message, .done]

/-! ## The plain handler -/

def endedAssistant : AgentSessionEvent → Option AssistantMessage
  | .messageEnd (.assistant message) => some message
  | _ => none

structure Completion where
  model : String
  content : String
  finishReason : String
  route : RouteInfo
  deriving DecidableEq, Repr

def handleNonStreamingAgentChat (options : ChatOptions) (events : List AgentSessionEvent)
    (outcome : Except String Unit) : Except String Completion := do
  let lastAssistant := lastMatch endedAssistant events
  outcome
  return {
    model := routeModelName options lastAssistant
    content := lastAssistant.elim "" assistantText
    finishReason := toOpenAIFinishReason lastAssistant
    route := createRouteInfo options lastAssistant }

/-! ## Sessions of the gateway -/

inductive WebIPCEvent where
  | delta (text : String)
  | done (text : Option String)
  | error (message : String)
  | typing (active : Bool)
  | pong
  deriving DecidableEq, Repr

def emptyUsage : Usage where
  input := 0
  output := 0
  cacheRead := 0
  cacheWrite := 0
  totalTokens := 0

def makeAssistantMsg (timestamp : Int) (text : String) : AssistantMessage where
  content := [.text text]
  provider := "gateway"
  model := "gateway"
  usage := emptyUsage
  stopReason := .stop
  errorMessage := none
  timestamp

/-- The `message_update` event of a text delta. -/
def deltaEvent (timestamp : Int) (text delta : String) : AgentSessionEvent :=
  let partialMessage := makeAssistantMsg timestamp text
  .messageUpdate (.assistant partialMessage) (.textDelta delta partialMessage)

/-- The events that end an answer, with one more delta when it is not the streamed text. -/
def endEvents (timestamp : Int) (text : String) (synthetic : Bool) : List AgentSessionEvent :=
  (if synthetic then [deltaEvent timestamp text text] else []) ++
    [.messageEnd (.assistant (makeAssistantMsg timestamp text))]

/-- `event.text || assistantBuffer` -/
def doneText (assistantBuffer : String) (text : Option String) : String :=
  if truthyText text then text.getD "" else assistantBuffer

def errorText (message : String) : String :=
  if message = "" then "An error occurred in the gateway." else message

/-- The next `assistantBuffer`, and what is emitted. -/
def onIPCEvent (timestamp : Int) (assistantBuffer : String) :
    WebIPCEvent → String × List AgentSessionEvent
  | .delta text => (assistantBuffer ++ text, [deltaEvent timestamp (assistantBuffer ++ text) text])
  | .done text =>
    let fullText := doneText assistantBuffer text
    (assistantBuffer,
      endEvents timestamp fullText (fullText != "" && fullText != assistantBuffer))
  | .error message =>
    let errText := errorText message
    (assistantBuffer, endEvents timestamp errText (errText != assistantBuffer))
  | _ => (assistantBuffer, [])

/-- The session events of the frames of one prompt. -/
def gatewayEvents (timestamp : Int) (assistantBuffer : String) :
    List WebIPCEvent → List AgentSessionEvent
  | [] => []
  | frame :: rest =>
    (onIPCEvent timestamp assistantBuffer frame).2 ++
      gatewayEvents timestamp (onIPCEvent timestamp assistantBuffer frame).1 rest

/-- How `sendMessage` settles: the first `done` or `error` decides, and else the end of the
connection. -/
def sendOutcome : List WebIPCEvent → Except String Unit
  | [] => .ok ()
  | .done _ :: _ => .ok ()
  | .error message :: _ => .error message
  | _ :: rest => sendOutcome rest

/-! ## What is streamed -/

def contentDelta : SseEvent → Option String
  | .chunk _ _ (.content delta) _ => some delta
  | _ => none

def eventDelta : AgentSessionEvent → Option String
  | .messageUpdate _ (.textDelta delta _) => some delta
  | _ => none

/-- The concatenation of the content deltas of a response. -/
def streamedContent (written : List SseEvent) : String := join "" (written.filterMap contentDelta)

def StreamStep.sessionEvent : StreamStep → Option AgentSessionEvent
  | .event e => some e
  | .write => none

/-- The session events of a run, in their order. -/
def sessionEvents (steps : List StreamStep) : List AgentSessionEvent :=
  steps.filterMap StreamStep.sessionEvent

namespace Streaming
variable (options : ChatOptions) (s : Streaming)

/-- The deltas written and those still to be written. -/
def contents : List String := s.written.filterMap contentDelta ++ s.writeQueue

theorem written_writeRoleChunk : (s.writeRoleChunk options).written.filterMap contentDelta =
    s.written.filterMap contentDelta := by
  unfold writeRoleChunk
  split
  · rfl
  · simp [createChatCompletionChunk, contentDelta]

theorem writeQueue_writeRoleChunk : (s.writeRoleChunk options).writeQueue = s.writeQueue := by
  unfold writeRoleChunk
  split <;> rfl

theorem contents_writeRoleChunk : (s.writeRoleChunk options).contents = s.contents := by
  rw [contents, contents, written_writeRoleChunk, writeQueue_writeRoleChunk]

theorem written_writeContent (delta : String) :
    (s.writeContent options delta).written.filterMap contentDelta =
      s.written.filterMap contentDelta ++ [delta] := by
  simp [writeContent, createChatCompletionChunk, contentDelta]

theorem contents_onEvent (event : AgentSessionEvent) :
    (s.onEvent event).contents = s.contents ++ (eventDelta event).toList := by
  cases event with
  | messageUpdate message update =>
    cases update with
    | textDelta delta partialMessage => simp [onEvent, contents, eventDelta]
    | other => simp [onEvent, eventDelta]
  | messageEnd message => cases message <;> simp [onEvent, contents, eventDelta]
  | other => simp [onEvent, eventDelta]

theorem contents_write : (s.write options).contents = s.contents := by
  unfold write
  cases hqueue : s.writeQueue with
  | nil => rfl
  | cons delta rest =>
    by_cases hrole : s.roleSent = true
    · simp only [hrole, if_true]
      show (s.writeContent options delta).written.filterMap contentDelta ++ rest = s.contents
      rw [written_writeContent, contents, hqueue, List.append_assoc]
      rfl
    · simp only [hrole]
      exact contents_writeRoleChunk options s

/-- A step adds the delta of its event, and a write none. -/
theorem contents_step (step : StreamStep) :
    (s.step options step).contents =
      s.contents ++ (step.sessionEvent.bind eventDelta).toList := by
  cases step with
  | event e => exact s.contents_onEvent e
  | write =>
    rw [StreamStep.sessionEvent, Option.bind_none, Option.toList_none, List.append_nil]
    exact s.contents_write options

theorem contents_steps (steps : List StreamStep) :
    (steps.foldl (step options) s).contents =
      s.contents ++ (sessionEvents steps).filterMap eventDelta := by
  induction steps generalizing s with
  | nil => simp [sessionEvents]
  | cons next steps ih =>
    rw [List.foldl_cons, ih, contents_step, List.append_assoc]
    cases next with
    | write => rfl
    | event e =>
      show _ = s.contents ++ (e :: sessionEvents steps).filterMap eventDelta
      rw [List.filterMap_cons]
      cases h : eventDelta e <;> simp [StreamStep.sessionEvent, h]

theorem written_drain : (s.drain options).written.filterMap contentDelta = s.contents := by
  have hfold : ∀ (queue : List String) (s : Streaming),
      (queue.foldl (fun s delta => (s.writeRoleChunk options).writeContent options delta)
        s).written.filterMap contentDelta = s.written.filterMap contentDelta ++ queue := by
    intro queue
    induction queue with
    | nil => intro s; simp
    | cons delta queue ih =>
      intro s
      rw [List.foldl_cons, ih, written_writeContent, written_writeRoleChunk, List.append_assoc]
      rfl
  exact hfold s.writeQueue s

end Streaming

/-- Whatever the order of events and writes, the deltas written are those of the events. -/
theorem streamed_contents (options : ChatOptions) (steps : List StreamStep)
    (outcome : Except String Unit) :
    (handleStreamingAgentChat options steps outcome).filterMap contentDelta =
      (sessionEvents steps).filterMap eventDelta := by
  have hdrain := Streaming.written_drain options
    (steps.foldl (Streaming.step options) Streaming.start)
  rw [Streaming.contents_steps] at hdrain
  unfold handleStreamingAgentChat
  generalize (steps.foldl (Streaming.step options) Streaming.start).drain options = s at hdrain ⊢
  have hwritten : s.written.filterMap contentDelta = (sessionEvents steps).filterMap eventDelta :=
    hdrain
  cases outcome with
  | error message =>
    show (s.written ++ [SseEvent.error message, SseEvent.done]).filterMap contentDelta = _
    rw [List.filterMap_append, hwritten]
    simp [contentDelta]
  | ok =>
    show ((s.writeRoleChunk options).written ++ [_, SseEvent.done]).filterMap contentDelta = _
    rw [List.filterMap_append, Streaming.written_writeRoleChunk, hwritten]
    simp [contentDelta, createChatCompletionChunk]

/-! ## Texts put together -/

theorem intercalate_nil (parts : List (List Char)) : [].intercalate parts = parts.flatten := by
  induction parts with
  | nil => rfl
  | cons part parts ih =>
    cases parts with
    | nil => simp
    | cons next parts =>
      rw [List.intercalate_cons_cons, ih, List.append_nil]
      rfl

theorem toList_join (parts : List String) :
    (join "" parts).toList = parts.flatMap String.toList := by
  rw [join, String.toList_intercalate, String.toList_empty, intercalate_nil, List.flatMap_def]

theorem join_append (front back : List String) :
    join "" (front ++ back) = join "" front ++ join "" back := by
  rw [← String.toList_inj, String.toList_append, toList_join, toList_join, toList_join,
    List.flatMap_append]

theorem join_singleton (text : String) : join "" [text] = text := by
  rw [← String.toList_inj, toList_join, List.flatMap_singleton]

theorem append_eq_right_iff {front back : String} : front ++ back = back ↔ front = "" := by
  rw [← String.toList_inj, String.toList_append, List.append_left_eq_self, String.toList_eq_nil_iff]

theorem join_eq_last_iff (texts : List String) :
    join "" texts = texts.getLast?.getD "" ↔ ∀ text ∈ texts.dropLast, text = "" := by
  obtain hnil | ⟨front, last, hsplit⟩ := texts.eq_nil_or_concat
  · rw [hnil]
    exact ⟨fun _ text htext => absurd htext List.not_mem_nil, fun _ => rfl⟩
  · rw [hsplit, List.concat_eq_append, join_append, join_singleton, List.getLast?_concat,
      List.dropLast_concat, Option.getD_some, append_eq_right_iff, ← String.toList_inj,
      toList_join, String.toList_empty, List.flatMap_eq_nil_iff]
    simp only [String.toList_eq_nil_iff]

/-! ## Answers of a session -/

/-- The assistant messages that ended, in their order. -/
def assistantEnds (events : List AgentSessionEvent) : List AssistantMessage :=
  events.filterMap endedAssistant

theorem lastMatch_eq_getLast? {α β : Type} (f : α → Option β) (l : List α) :
    lastMatch f l = (l.filterMap f).getLast? := by
  induction l with
  | nil => rfl
  | cons x l ih =>
    rw [lastMatch_cons, ih, List.filterMap_cons]
    cases hx : f x with
    | none => simp
    | some y =>
      rw [List.getLast?_cons]
      cases (l.filterMap f).getLast? <;> rfl

/-- The deltas since the last assistant message, `streamed`, and those to come put together are
the text of each message when it ends. -/
def TextsStreamed (streamed : String) : List AgentSessionEvent → Prop
  | [] => streamed = ""
  | event :: rest =>
    match endedAssistant event with
    | some message => streamed = assistantText message ∧ TextsStreamed "" rest
    | none => TextsStreamed (streamed ++ (eventDelta event).getD "") rest

theorem TextsStreamed.join_deltas {streamed : String} {events : List AgentSessionEvent}
    (h : TextsStreamed streamed events) :
    streamed ++ join "" (events.filterMap eventDelta) =
      join "" ((assistantEnds events).map assistantText) := by
  induction events generalizing streamed with
  | nil =>
    have hempty : streamed = "" := h
    rw [hempty]
    rfl
  | cons event events ih =>
    rw [TextsStreamed] at h
    cases hend : endedAssistant event with
    | some message =>
      rw [hend] at h
      obtain ⟨htext, hrest⟩ := h
      have hdelta : eventDelta event = none := by
        cases event with
        | messageUpdate message update => cases hend
        | messageEnd message => rfl
        | other => rfl
      have hnext := ih hrest
      rw [String.empty_append] at hnext
      rw [assistantEnds, List.filterMap_cons_none hdelta, List.filterMap_cons_some hend,
        List.map_cons, ← List.singleton_append, join_append, join_singleton, htext, hnext]
      rfl
    | none =>
      rw [hend] at h
      rw [assistantEnds, List.filterMap_cons_none hend]
      cases hdelta : eventDelta event with
      | none =>
        have hnext := ih h
        rw [hdelta, Option.getD_none, String.append_empty] at hnext
        rw [List.filterMap_cons_none hdelta, hnext]
        rfl
      | some delta =>
        have hnext := ih h
        rw [hdelta, Option.getD_some] at hnext
        rw [List.filterMap_cons_some hdelta, ← List.singleton_append, join_append, join_singleton,
          ← String.append_assoc, hnext]
        rfl

/-- The plain handler returns an answer, and the content deltas of the streaming handler
concatenate to it. -/
def SameAnswer (options : ChatOptions) (steps : List StreamStep) (outcome : Except String Unit) :
    Prop :=
  ∃ completion, handleNonStreamingAgentChat options (sessionEvents steps) outcome = .ok completion ∧
    streamedContent (handleStreamingAgentChat options steps outcome) = completion.content

theorem sameAnswer_ok_iff (options : ChatOptions) (steps : List StreamStep) :
    SameAnswer options steps (.ok ()) ↔
      join "" ((sessionEvents steps).filterMap eventDelta) =
        ((assistantEnds (sessionEvents steps)).getLast?).elim "" assistantText := by
  unfold SameAnswer
  rw [streamedContent, streamed_contents, assistantEnds, ← lastMatch_eq_getLast?]
  constructor
  · intro ⟨completion, hplain, hsame⟩
    cases hplain
    exact hsame
  · intro hsame
    exact ⟨_, rfl, hsame⟩

theorem not_sameAnswer_error (options : ChatOptions) (steps : List StreamStep) (message : String) :
    ¬ SameAnswer options steps (.error message) := by
  intro ⟨completion, hplain, _⟩
  cases hplain

theorem session_answer_iff {options : ChatOptions} {steps : List StreamStep}
    (h : TextsStreamed "" (sessionEvents steps)) :
    SameAnswer options steps (.ok ()) ↔
      ∀ message ∈ (assistantEnds (sessionEvents steps)).dropLast, assistantText message = "" := by
  have hjoin := h.join_deltas
  rw [String.empty_append] at hjoin
  have hlast : ((assistantEnds (sessionEvents steps)).getLast?).elim "" assistantText =
      ((assistantEnds (sessionEvents steps)).map assistantText).getLast?.getD "" := by
    rw [List.getLast?_map]
    cases (assistantEnds (sessionEvents steps)).getLast? <;> rfl
  rw [sameAnswer_ok_iff, hjoin, hlast, join_eq_last_iff, ← List.map_dropLast, List.forall_mem_map]

/-! ## Answers of the gateway -/

def frameDelta : WebIPCEvent → Option String
  | .delta text => some text
  | _ => none

/-- A frame that ends the answer. -/
def WebIPCEvent.isFinal : WebIPCEvent → Bool
  | .done _ | .error _ => true
  | _ => false

/-- The text of the delta frames. -/
def deltaText (frames : List WebIPCEvent) : String := join "" (frames.filterMap frameDelta)

theorem frames_before_last {timestamp : Int} {assistantBuffer : String} {deltas : List WebIPCEvent}
    {last : WebIPCEvent} (h : ∀ frame ∈ deltas, frame.isFinal = false) :
    ∃ events, gatewayEvents timestamp assistantBuffer (deltas ++ [last]) =
        events ++ (onIPCEvent timestamp (assistantBuffer ++ deltaText deltas) last).2 ∧
      events.filterMap eventDelta = deltas.filterMap frameDelta ∧ assistantEnds events = [] := by
  induction deltas generalizing assistantBuffer with
  | nil =>
    refine ⟨[], ?_, rfl, rfl⟩
    rw [show deltaText [] = "" from rfl, String.append_empty]
    show _ ++ gatewayEvents timestamp _ [] = _
    rw [gatewayEvents, List.append_nil]
    rfl
  | cons frame deltas ih =>
    obtain ⟨hframe, hdeltas⟩ := List.forall_mem_cons.1 h
    cases frame with
    | delta text =>
      obtain ⟨events, hevents, hdelta, hends⟩ := @ih (assistantBuffer ++ text) hdeltas
      refine ⟨deltaEvent timestamp (assistantBuffer ++ text) text :: events, ?_, ?_, hends⟩
      · have htext : deltaText (.delta text :: deltas) = text ++ deltaText deltas := by
          show join "" ([text] ++ deltas.filterMap frameDelta) = _
          rw [join_append, join_singleton]
          rfl
        rw [htext, ← String.append_assoc, List.cons_append, gatewayEvents]
        show [_] ++ gatewayEvents timestamp (assistantBuffer ++ text) (deltas ++ [last]) = _
        rw [hevents]
        rfl
      · show text :: events.filterMap eventDelta = text :: deltas.filterMap frameDelta
        rw [hdelta]
    | done text => cases hframe
    | error message => cases hframe
    | typing active => exact ih hdeltas
    | pong => exact ih hdeltas

theorem sendOutcome_final {deltas : List WebIPCEvent} {last : WebIPCEvent}
    (h : ∀ frame ∈ deltas, frame.isFinal = false) :
    sendOutcome (deltas ++ [last]) = sendOutcome [last] := by
  induction deltas with
  | nil => rfl
  | cons frame deltas ih =>
    obtain ⟨hframe, hdeltas⟩ := List.forall_mem_cons.1 h
    cases frame with
    | delta text => exact ih hdeltas
    | done text => cases hframe
    | error message => cases hframe
    | typing active => exact ih hdeltas
    | pong => exact ih hdeltas

/-- The frame that ends an answer agrees with the text streamed before it. -/
def FinalAgrees (streamed : String) : WebIPCEvent → Prop
  | .done text => streamed = "" ∨ truthyText text = false ∨ text = some streamed
  | _ => False

theorem truthyText_some {text : String} : truthyText (some text) = true ↔ text ≠ "" := by
  by_cases hempty : text = ""
  · rw [hempty]
    exact ⟨fun h => (by cases h), fun h => absurd rfl h⟩
  · refine ⟨fun _ => hempty, fun _ => ?_⟩
    unfold truthyText
    split
    next h => cases h
    next h =>
      cases h
      exact absurd rfl hempty
    next => rfl

theorem done_answer_iff (timestamp : Int) (streamed : String) (text : Option String) :
    streamed ++ join "" ((onIPCEvent timestamp streamed (.done text)).2.filterMap eventDelta) =
        doneText streamed text ↔ FinalAgrees streamed (.done text) := by
  show streamed ++ join "" ((endEvents timestamp (doneText streamed text)
      (doneText streamed text != "" && doneText streamed text != streamed)).filterMap eventDelta) =
    _ ↔ streamed = "" ∨ truthyText text = false ∨ text = some streamed
  cases htruthy : truthyText text with
  | false =>
    have hdone : doneText streamed text = streamed := by
      rw [doneText, htruthy]
      rfl
    rw [hdone, bne_self_eq_false, Bool.and_false]
    show streamed ++ "" = streamed ↔ _
    rw [String.append_empty]
    simp
  | true =>
    obtain ⟨final, rfl⟩ : ∃ final, text = some final := by
      cases text with
      | none => cases htruthy
      | some final => exact ⟨final, rfl⟩
    have hdone : doneText streamed (some final) = final := by
      rw [doneText, htruthy]
      rfl
    have hnonempty := truthyText_some.1 htruthy
    rw [hdone, bne_iff_ne.2 hnonempty, Bool.true_and]
    by_cases hsame : final = streamed
    · rw [hsame, bne_self_eq_false]
      show streamed ++ "" = streamed ↔ _
      rw [String.append_empty]
      simp
    · rw [bne_iff_ne.2 hsame]
      show streamed ++ join "" [final] = final ↔ _
      rw [join_singleton, append_eq_right_iff]
      simp [hsame]

theorem gateway_answer_iff {options : ChatOptions} {timestamp : Int} {deltas : List WebIPCEvent}
    {last : WebIPCEvent} {steps : List StreamStep} (hdeltas : ∀ frame ∈ deltas, frame.isFinal = false)
    (hlast : last.isFinal = true)
    (hevents : sessionEvents steps = gatewayEvents timestamp "" (deltas ++ [last])) :
    SameAnswer options steps (sendOutcome (deltas ++ [last])) ↔
      FinalAgrees (deltaText deltas) last := by
  rw [sendOutcome_final hdeltas]
  cases last with
  | delta text => cases hlast
  | typing active => cases hlast
  | pong => cases hlast
  | error message =>
    exact ⟨fun h => absurd h (not_sameAnswer_error options steps message), fun h => h.elim⟩
  | done text =>
    obtain ⟨events, hframes, hdelta, hends⟩ := @frames_before_last timestamp "" deltas
      (.done text) hdeltas
    rw [String.empty_append] at hframes
    rw [show sendOutcome [.done text] = .ok () from rfl, sameAnswer_ok_iff, hevents, hframes,
      List.filterMap_append, join_append, hdelta, ← done_answer_iff timestamp]
    have hanswer : (assistantEnds (events ++
        (onIPCEvent timestamp (deltaText deltas) (.done text)).2)).getLast?.elim "" assistantText =
        doneText (deltaText deltas) text := by
      rw [assistantEnds, List.filterMap_append]
      show (assistantEnds events ++ _).getLast?.elim "" assistantText = _
      rw [hends, List.nil_append]
      show ((endEvents timestamp (doneText (deltaText deltas) text) _).filterMap
        endedAssistant).getLast?.elim "" assistantText = _
      rw [endEvents, List.filterMap_append]
      show (_ ++ [makeAssistantMsg timestamp (doneText (deltaText deltas) text)]).getLast?.elim ""
        assistantText = _
      rw [List.getLast?_concat]
      exact join_singleton _
    rw [hanswer]
    rfl

/-! ## The contract -/

/-- Streamed and plain answers are the same exactly when, for a session, every assistant
message but the last is empty, and, for the gateway, the last frame agrees. -/
theorem streamed_answer_is_plain (options : ChatOptions) :
    (∀ steps, TextsStreamed "" (sessionEvents steps) →
      (SameAnswer options steps (.ok ()) ↔
        ∀ message ∈ (assistantEnds (sessionEvents steps)).dropLast, assistantText message = "")) ∧
    ∀ timestamp deltas last steps, (∀ frame ∈ deltas, frame.isFinal = false) →
      last.isFinal = true →
      sessionEvents steps = gatewayEvents timestamp "" (deltas ++ [last]) →
      (SameAnswer options steps (sendOutcome (deltas ++ [last])) ↔
        FinalAgrees (deltaText deltas) last) :=
  ⟨fun _ h => session_answer_iff h,
    fun _ _ _ _ hdeltas hlast hevents => gateway_answer_iff hdeltas hlast hevents⟩

/-! ## A turn with a tool call -/

namespace TurnExample

def options : ChatOptions where
  requestedModel := "auto:chat"
  conversationId := "c"
  sessionId := "gateway-web-c"
  sessionModel := none

/-- Two deltas of one message of a session, the first written before the second comes. -/
def helloSteps : List StreamStep :=
  [.event (deltaEvent 0 "Hel" "Hel"), .write, .event (deltaEvent 0 "Hello" "lo"),
    .event (.messageEnd (.assistant (makeAssistantMsg 0 "Hello")))]

/-- The deltas of two messages, and the text of the last one. -/
def turnFrames : List WebIPCEvent := [.delta "Let me look. ", .delta "It is 5."]

def turnEnd : WebIPCEvent := .done (some "It is 5.")

def gatewaySteps (frames : List WebIPCEvent) : List StreamStep :=
  (gatewayEvents 0 "" frames).map .event

theorem sessionEvents_map (events : List AgentSessionEvent) :
    sessionEvents (events.map .event) = events := by
  rw [sessionEvents, List.filterMap_map]
  exact List.filterMap_some

end TurnExample

open TurnExample in
/-- One message of a session, and a gateway answer that ends without a text of its own. -/
theorem streamed_answer_is_plain_example :
    SameAnswer options helloSteps (.ok ()) ∧
      SameAnswer options (gatewaySteps (turnFrames ++ [.done none]))
        (sendOutcome (turnFrames ++ [.done none])) := by
  constructor
  · apply ((streamed_answer_is_plain options).1 helloSteps _).2
    · intro message hmessage
      exact absurd hmessage List.not_mem_nil
    · show "" ++ "Hel" ++ "lo" = _ ∧ "" = ""
      exact ⟨by decide, rfl⟩
  · exact ((streamed_answer_is_plain options).2 0 turnFrames (.done none) _ (by decide) rfl
      (sessionEvents_map _)).2 (.inr (.inl rfl))

open TurnExample in
/-- The text of the last message is streamed twice. -/
theorem repeated_answer :
    ¬ SameAnswer options (gatewaySteps (turnFrames ++ [turnEnd]))
        (sendOutcome (turnFrames ++ [turnEnd])) ∧
      streamedContent (handleStreamingAgentChat options (gatewaySteps (turnFrames ++ [turnEnd]))
        (sendOutcome (turnFrames ++ [turnEnd]))) = "Let me look. It is 5.It is 5." ∧
      (handleNonStreamingAgentChat options (gatewayEvents 0 "" (turnFrames ++ [turnEnd]))
        (sendOutcome (turnFrames ++ [turnEnd]))).map Completion.content = .ok "It is 5." := by
  refine ⟨?_, ?_, ?_⟩
  · have hiff := @gateway_answer_iff options 0 turnFrames turnEnd
      (gatewaySteps (turnFrames ++ [turnEnd])) (by decide) rfl (sessionEvents_map _)
    rw [hiff]
    show ¬ (deltaText turnFrames = "" ∨ truthyText (some "It is 5.") = false ∨
      some "It is 5." = some (deltaText turnFrames))
    decide
  · decide
  · rfl

end PieLab.AgentChat

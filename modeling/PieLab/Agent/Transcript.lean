import PieLab.Agent.EventLog
import PieLab.Agent.Queues
import PieLab.Agent.ToolQueries

/-
  The transcript of a run

  The loop works on its own copy of the messages; the agent rebuilds its transcript
  from the `message_end` events. Both are at the same point whenever the model is
  called: the context of a request is the transcript.

  That holds as long as nobody else writes the transcript or changes in place the
  messages a hook is handed, and no response announces itself twice: the loop drops
  only the last partial message.

  What is proved:
    1. `executeToolCalls_guarded`, `streamAssistantResponse_guarded` — a batch and a
       response add the same messages to the context and to the transcript.
    2. `runRounds_guarded` — so does every round.
    3. `context_is_transcript` — in every run, at every call of the model; and
       `contexts_differ`, what a second `start` and a reset in the run do to it.
-/

namespace PieLab.Agent

open Lib

/-! ## What happens around a run -/

/-- A call of the code that holds the agent, at any time. -/
inductive OutsideCall where
  | host (call : HostCall)
  | clearSteeringQueue
  | clearFollowUpQueue
  | reset
  /-- `state.messages = messages`, or a change of that array in place. -/
  | setMessages (messages : List AgentMessage)

namespace AgentState

def clearSteeringQueue (s : AgentState) : AgentState :=
  { s with steeringQueue := { s.steeringQueue with messages := [] } }

def clearFollowUpQueue (s : AgentState) : AgentState :=
  { s with followUpQueue := { s.followUpQueue with messages := [] } }

def reset (s : AgentState) : AgentState :=
  let s := { s with
    messages := [], isStreaming := false, streamingMessage := none, pendingToolCalls := []
    errorMessage := none }
  s.clearFollowUpQueue.clearSteeringQueue

def applyOutside (s : AgentState) : OutsideCall → AgentState
  | .host call => s.apply call
  | .clearSteeringQueue => s.clearSteeringQueue
  | .clearFollowUpQueue => s.clearFollowUpQueue
  | .reset => s.reset
  | .setMessages messages => { s with messages }

def applyOutsideAll (s : AgentState) (calls : List OutsideCall) : AgentState :=
  calls.foldl applyOutside s

end AgentState

def OutsideCall.writesTranscript : OutsideCall → Bool
  | .reset | .setMessages _ => true
  | _ => false

/-- A query, answered as `Obeys` says, with outside calls before and after it. -/
def outsideMachine (Calls : OutsideCall → Prop) (Obeys : (q : Query) → Answer q → Prop) :
    Machine Query Answer AgentState := fun q s answer t =>
  Obeys q answer ∧ ∃ before after u, (∀ call ∈ before ++ after, Calls call) ∧
    Answers q (s.applyOutsideAll before) answer u ∧ t = u.applyOutsideAll after

/-- `prepareNextTurn` does not replace the context. -/
def KeepsContext : (q : Query) → Answer q → Prop
  | .prepareNextTurn _, answer => ∀ update, answer = .ok (some update) → update.context = none
  | _, _ => True

/-- A response announces itself at most once. -/
def AnnouncesOnce : (q : Query) → Answer q → Prop
  | .streamFunction _ _ _ _, answer => ∀ response, answer = .ok response → startCount response.events ≤ 1
  | _, _ => True

/-- The loop that the agent starts, and the state it starts in. -/
inductive StartedRun (options : AgentOptions) (s : AgentState) :
    Act (Option (List AgentMessage)) → AgentState → Prop where
  | prompt (fuel : Nat) (messages : List AgentMessage) (skipInitialSteeringPoll : Bool) :
      StartedRun options s
        (runAgentLoop fuel messages s.createContextSnapshot (s.createLoopConfig options))
        ({ s with skipInitialSteeringPoll } : AgentState).beginRun
  | continuation (fuel : Nat) :
      StartedRun options s
        (runAgentLoopContinue fuel s.createContextSnapshot (s.createLoopConfig options))
        ({ s with skipInitialSteeringPoll := false } : AgentState).beginRun

/-- The messages of the context that `streamAssistantResponse` is handed, as its first query has
them: `transformContext` where there is one, else `convertToLlm`. -/
def handedMessages (hasTransformContext : Bool) : Query → Option (List AgentMessage)
  | .transformContext messages => some messages
  | .convertToLlm messages => if hasTransformContext then none else some messages
  | _ => none

/-! ## Steps -/

/-- The message that a query puts into the transcript. -/
def Query.endedMessages : Query → List AgentMessage
  | .emit event => event.endedMessage?.toList
  | _ => []

/-- Nobody but the agent writes its transcript. -/
def runMachine : Machine Query Answer AgentState :=
  outsideMachine (fun call => call.writesTranscript = false) fun q answer =>
    KeepsContext q answer ∧ AnnouncesOnce q answer

/-- The query hands on no other messages than those of the transcript. -/
def InTranscript (hasTransformContext : Bool) (q : Query) (u : AgentState) : Prop :=
  ∀ messages, handedMessages hasTransformContext q = some messages → u.messages = messages

section Steps
variable {hasTransformContext : Bool} {s t : AgentState} {ms : List AgentMessage}

theorem applyOutside_messages {call : OutsideCall} (h : call.writesTranscript = false) :
    (s.applyOutside call).messages = s.messages := by
  cases call with
  | host call => cases call <;> rfl
  | clearSteeringQueue | clearFollowUpQueue => rfl
  | reset | setMessages => cases h

theorem applyOutsideAll_messages {calls : List OutsideCall}
    (h : ∀ call ∈ calls, call.writesTranscript = false) :
    (s.applyOutsideAll calls).messages = s.messages := by
  induction calls generalizing s with
  | nil => rfl
  | cons call calls ih =>
    rw [List.forall_mem_cons] at h
    exact (ih h.2).trans (applyOutside_messages h.1)

theorem processEvents_messages (event : AgentEvent) :
    (s.processEvents event).messages = s.messages ++ event.endedMessage?.toList := by
  cases event with
  | messageEnd message => rfl
  | turnEnd message toolResults =>
    simp only [AgentState.processEvents]
    split <;> simp [AgentEvent.endedMessage?]
  | _ => simp [AgentState.processEvents, AgentEvent.endedMessage?]

theorem step_messages {q : Query} {answer : Answer q} (h : runMachine q s answer t) :
    t.messages = s.messages ++ q.endedMessages := by
  obtain ⟨-, before, after, u, hcalls, hanswer, rfl⟩ := h
  have hbefore : (s.applyOutsideAll before).messages = s.messages :=
    applyOutsideAll_messages fun call hcall => hcalls call (List.mem_append_left _ hcall)
  rw [applyOutsideAll_messages fun call hcall => hcalls call (List.mem_append_right _ hcall),
    ← hbefore]
  cases q with
  | emit event =>
    obtain rfl : u = _ := hanswer
    exact processEvents_messages event
  | getSteeringMessages =>
    obtain ⟨-, rfl⟩ := hanswer
    simp only [AgentState.getSteeringMessages]
    split <;> simp [Query.endedMessages]
  | getFollowUpMessages =>
    obtain ⟨-, rfl⟩ := hanswer
    simp [AgentState.getFollowUpMessages, Query.endedMessages]
  | _ =>
    obtain rfl : u = _ := hanswer
    simp [Query.endedMessages]

abbrev GuardedRun {α : Type} (hasTransformContext : Bool) (R : α → AgentState → Prop) (p : Act α)
    (s : AgentState) : Prop := Prog.Guarded runMachine (InTranscript hasTransformContext) R p s

theorem ask_guarded {q : Query} (hs : s.messages = ms) (hq : InTranscript hasTransformContext q s) :
    GuardedRun hasTransformContext
      (fun answer t => (KeepsContext q answer ∧ AnnouncesOnce q answer) ∧
        t.messages = ms ++ q.endedMessages) (ask q) s := by
  refine Prog.Guarded.call hq fun answer t hstep => ⟨hstep.1, ?_⟩
  rw [step_messages hstep, hs]

theorem emitAll_guarded (events : List AgentEvent) (hs : s.messages = ms) :
    GuardedRun hasTransformContext (fun _ t => t.messages = ms ++ endedMessages events)
      (emitAll events) s := by
  induction events generalizing s ms with
  | nil => exact hs.trans (List.append_nil _).symm
  | cons event events ih =>
    refine Prog.Guarded.bind (ask_guarded hs nofun) ?_
    intro _ t ht
    refine Prog.Guarded.mono (ih ht.2) ?_
    intro _ u hu
    rw [hu, List.append_assoc]
    cases event <;> rfl

theorem emitAll_quiet_guarded {events : List AgentEvent} (h : endedMessages events = [])
    (hs : s.messages = ms) :
    GuardedRun hasTransformContext (fun _ t => t.messages = ms) (emitAll events) s := by
  refine Prog.Guarded.mono (emitAll_guarded events hs) ?_
  intro _ t ht
  rw [ht, h, List.append_nil]

theorem attempt_guarded {α : Type} {answer : Act (Except String α)}
    {R : Except String α → AgentState → Prop}
    (h : GuardedRun hasTransformContext R answer s) :
    GuardedRun hasTransformContext (fun a t => R (.ok a) t) (attempt answer) s := by
  refine Prog.Guarded.bind h ?_
  intro x t hx
  refine Prog.Guarded.ofExcept fun a ha => ?_
  rw [← ha]
  exact hx

theorem optional_guarded {α : Type} {given : Bool} {default : α} {answer : Act (Except String α)}
    {R : α → AgentState → Prop}
    (h : given = true → GuardedRun hasTransformContext (fun x t => ∀ a, x = .ok a → R a t) answer s)
    (hdefault : given = false → R default s) :
    GuardedRun hasTransformContext R (optional given answer default) s := by
  unfold optional
  cases given with
  | true =>
    refine Prog.Guarded.bind (h rfl) ?_
    exact fun x t hx => Prog.Guarded.ofExcept (hx ·)
  | false => exact hdefault rfl

/-! ## Tool calls -/

theorem toolCall_guarded {α : Type} {R : α → Prop} {p : Act α}
    (hp : Prog.Asks Query.IsToolQuery R p) (hs : s.messages = ms) :
    GuardedRun hasTransformContext (fun a t => R a ∧ t.messages = ms) p s := by
  refine Prog.Asks.guarded ?_ ?_ hp hs
  · intro q hq t _ messages hhanded
    cases q with
    | transformContext | convertToLlm => exact hq.elim
    | _ => cases hhanded
  · intro q hq t answer u hstep ht
    rw [step_messages hstep, ht]
    cases q with
    | emit event => cases event <;> first | exact List.append_nil ms | cases hq
    | _ => exact List.append_nil ms

theorem emitToolResult_guarded (finalized : FinalizedToolCallOutcome) (hs : s.messages = ms) :
    GuardedRun hasTransformContext (fun message t => t.messages = ms ++ [.toolResult message])
      (emitToolResult finalized) s := by
  refine Prog.Guarded.bind (toolCall_guarded (createToolResultMessage_asks finalized) hs) ?_
  intro message t ht
  exact Prog.Guarded.bind (emitAll_guarded _ ht.2) fun _ u hu => hu

theorem emitToolResults_guarded (finalized : List FinalizedToolCallOutcome) (hs : s.messages = ms) :
    GuardedRun hasTransformContext (fun messages t => t.messages = ms ++ messages.map .toolResult)
      (emitToolResults finalized) s := by
  induction finalized generalizing s ms with
  | nil => exact hs.trans (List.append_nil _).symm
  | cons first rest ih =>
    refine Prog.Guarded.bind (emitToolResult_guarded first hs) ?_
    intro message t ht
    refine Prog.Guarded.bind (ih ht) ?_
    exact fun messages u hu => hu.trans (List.append_assoc _ _ _)

variable (context : AgentContext) (assistantMessage : AssistantMessage) (config : AgentLoopConfig)

theorem sequentialLoop_guarded (calls : List AgentToolCall) (hs : s.messages = ms) :
    GuardedRun hasTransformContext
      (fun done t => t.messages = ms ++ (done.map Prod.snd).map .toolResult)
      (sequentialLoop context assistantMessage config calls) s := by
  induction calls generalizing s ms with
  | nil => exact hs.trans (List.append_nil _).symm
  | cons toolCall rest ih =>
    have hcall := executeSequentially_asks context assistantMessage config toolCall
    refine Prog.Guarded.bind (toolCall_guarded hcall hs) ?_
    intro finalized t ht
    refine Prog.Guarded.bind (emitToolResult_guarded finalized ht.2) ?_
    intro message u hu
    refine Prog.Guarded.bind (toolCall_guarded aborted_ofToolCall hu) ?_
    intro isAborted v hv
    cases isAborted with
    | true => exact hv.2
    | false =>
      refine Prog.Guarded.bind (ih hv.2) ?_
      exact fun done w hw => hw.trans (List.append_assoc _ _ _)

/-- The results of a batch are in the transcript, in the order of the batch. -/
theorem executeToolCalls_guarded (hs : s.messages = ms) :
    GuardedRun hasTransformContext (fun batch t => t.messages = ms ++ batch.messages.map .toolResult)
      (executeToolCalls context assistantMessage config) s := by
  unfold executeToolCalls
  simp only
  split
  · exact Prog.Guarded.bind (sequentialLoop_guarded context assistantMessage config _ hs)
      fun _ _ ht => ht
  · have hparallel := parallelLoop_asks context assistantMessage config (toolCalls assistantMessage)
    refine Prog.Guarded.bind (toolCall_guarded hparallel hs) ?_
    rintro entries t ⟨hentries, ht⟩
    refine Prog.Guarded.bind (toolCall_guarded (startAll_asks hentries) ht) ?_
    intro finalized u hu
    exact Prog.Guarded.bind (emitToolResults_guarded finalized hu.2) fun _ _ hv => hv

/-! ## Responses -/

/-- The context while a response is streamed: the transcript, and behind it the last partial
message where there is one. -/
structure Streams (ms : List AgentMessage) (streaming : Streaming) (s : AgentState) : Prop where
  transcript : s.messages = ms
  context : match streaming.partialMessage with
    | none => streaming.messages = ms
    | some _ => ∃ last, streaming.messages = ms ++ [last]

theorem Streams.endResponse {streaming : Streaming} (h : Streams ms streaming s)
    (finalMessage : AssistantMessage) :
    (endResponse streaming finalMessage).1 = ms ++ [.assistant finalMessage] ∧
      endedMessages (endResponse streaming finalMessage).2 = [.assistant finalMessage] := by
  have hcontext := h.context
  unfold Agent.endResponse
  cases hstarted : streaming.partialMessage with
  | none =>
    rw [hstarted] at hcontext
    exact ⟨congrArg (· ++ _) hcontext, rfl⟩
  | some partialMessage =>
    rw [hstarted] at hcontext
    obtain ⟨last, hlast⟩ := hcontext
    simp [replaceLast, hlast, endedMessages, AgentEvent.endedMessage?]

/-- What a response leaves: its message behind the others. -/
def Streamed (ms : List AgentMessage) (streamed : AssistantMessage × List AgentMessage)
    (s : AgentState) : Prop := streamed.2 = ms ++ [.assistant streamed.1] ∧ s.messages = streamed.2

theorem finishResponse_guarded (response : Response) {streaming : Streaming}
    (h : Streams ms streaming s) :
    GuardedRun hasTransformContext (Streamed ms) (finishResponse response streaming) s := by
  refine Prog.Guarded.bind (Prog.Guarded.ofExcept fun a _ => (rfl : s = s)) ?_
  rintro finalMessage t rfl
  obtain ⟨hcontext, hended⟩ := h.endResponse finalMessage
  refine Prog.Guarded.bind (emitAll_guarded _ h.transcript) ?_
  intro _ u hu
  refine ⟨hcontext, ?_⟩
  rw [hu, hended, hcontext]

theorem consumeEvents_guarded (response : Response) {streaming : Streaming}
    {events : List AssistantMessageEvent} (h : Streams ms streaming s)
    (honce : startCount events ≤ if streaming.partialMessage.isSome then 0 else 1) :
    GuardedRun hasTransformContext (Streamed ms) (consumeEvents response streaming events) s := by
  induction events generalizing s streaming with
  | nil =>
    unfold consumeEvents
    split
    · trivial
    · exact finishResponse_guarded response h
  | cons event events ih =>
    cases event with
    | start partialMessage =>
      cases hstarted : streaming.partialMessage with
      | some _ =>
        -- a second start
        rw [hstarted, startCount] at honce
        exact absurd honce (Nat.not_succ_le_zero _)
      | none =>
        have hcontext := h.context
        rw [hstarted] at hcontext honce
        refine Prog.Guarded.bind
          (ask_guarded h.transcript (by intro handed hhanded; cases hhanded)) ?_
        intro _ t ht
        refine ih ⟨ht.2.trans (List.append_nil _), _, congrArg (· ++ _) hcontext⟩ ?_
        exact Nat.le_of_succ_le_succ honce
    | update type partialMessage =>
      have hcontext := h.context
      unfold consumeEvents
      cases hstarted : streaming.partialMessage with
      | none => exact ih h honce
      | some _ =>
        rw [hstarted] at hcontext honce
        obtain ⟨last, hlast⟩ := hcontext
        refine Prog.Guarded.bind
          (ask_guarded h.transcript (by intro handed hhanded; cases hhanded)) ?_
        intro _ t ht
        refine ih ⟨ht.2.trans (List.append_nil _), .assistant partialMessage, ?_⟩ honce
        rw [replaceLast, hlast, List.dropLast_concat]
    | done message => exact finishResponse_guarded response h
    | error error => exact finishResponse_guarded response h

/-- The model is handed the transcript, and its response is added to it. -/
theorem streamAssistantResponse_guarded {context : AgentContext} {config : AgentLoopConfig}
    (hs : s.messages = context.messages) (hconfig : config.hasTransformContext = hasTransformContext) :
    GuardedRun hasTransformContext
      (fun streamed t => t.messages = streamed.2.messages)
      (streamAssistantResponse context config) s := by
  have htransform : GuardedRun hasTransformContext
      (fun messages t => t.messages = context.messages ∧
        (hasTransformContext = false → messages = context.messages))
      (optional config.hasTransformContext (ask (.transformContext context.messages))
        context.messages) s := by
    refine optional_guarded (fun hgiven => ?_) fun _ => ⟨hs, fun _ => rfl⟩
    refine Prog.Guarded.mono (ask_guarded hs ?_) ?_
    · intro messages hhanded
      exact hs.trans (Option.some.inj hhanded)
    · rintro answer t ⟨-, ht⟩ messages -
      refine ⟨ht.trans (List.append_nil _), fun hnone => ?_⟩
      simp [← hconfig, hgiven] at hnone
  refine Prog.Guarded.bind htransform ?_
  rintro messages t ⟨ht, hmessages⟩
  have hconvert : InTranscript hasTransformContext (.convertToLlm messages) t := by
    intro handed hhanded
    cases hgiven : hasTransformContext with
    | true => simp [handedMessages, hgiven] at hhanded
    | false =>
      simp only [handedMessages, hgiven, Bool.false_eq_true, if_false, Option.some.injEq] at hhanded
      rw [ht, ← hmessages hgiven, hhanded]
  refine Prog.Guarded.bind (attempt_guarded (ask_guarded ht hconvert)) ?_
  rintro llmMessages u ⟨-, hu⟩
  have hkey : GuardedRun hasTransformContext (fun _ v => v.messages = context.messages)
      (optional config.hasGetApiKey (ask (.getApiKey config.model.provider)) none) u := by
    refine optional_guarded (fun _ => ?_) fun _ => hu.trans (List.append_nil _)
    refine Prog.Guarded.mono (ask_guarded hu nofun) ?_
    exact fun answer v hv key _ => by simpa [Query.endedMessages] using hv.2
  refine Prog.Guarded.bind hkey ?_
  intro resolved v hv
  refine Prog.Guarded.bind (attempt_guarded (ask_guarded hv nofun)) ?_
  rintro response w ⟨⟨-, honce⟩, hw⟩
  have hstreams : Streams context.messages { messages := context.messages, partialMessage := none } w :=
    ⟨hw.trans (List.append_nil _), rfl⟩
  refine Prog.Guarded.bind (consumeEvents_guarded response hstreams (honce response rfl)) ?_
  exact fun streamed x hx => hx.2

end Steps

/-! ## Rounds -/

/-- The context of the loop is the transcript. -/
structure InStep (hasTransformContext : Bool) (s : LoopState) (st : AgentState) : Prop where
  messages : st.messages = s.currentContext.messages
  config : s.config.hasTransformContext = hasTransformContext

/-- What a round leaves, where the run goes on. -/
def RoundEnd.InStep (hasTransformContext : Bool) : RoundEnd → AgentState → Prop
  | .finished _, _ => True
  | .next s, st => Agent.InStep hasTransformContext s st

section Rounds
variable {hasTransformContext : Bool} {s : LoopState} {st : AgentState}

theorem InStep.addMessages {messages : List AgentMessage} {st' : AgentState}
    (h : InStep hasTransformContext s st) (hst : st'.messages = st.messages ++ messages) :
    InStep hasTransformContext (s.addMessages messages) st' := by
  refine ⟨?_, h.config⟩
  rw [hst, h.messages]
  rfl

theorem endedMessages_messageEvents (messages : List AgentMessage) :
    endedMessages (messages.flatMap messageEvents) = messages :=
  (Segment.allMessageEvents messages).ended

theorem openTurn_guarded (h : InStep hasTransformContext s st) :
    GuardedRun hasTransformContext (InStep hasTransformContext) (openTurn s) st := by
  refine Prog.Guarded.bind (emitAll_quiet_guarded ?_ h.messages) fun _ t ht => ⟨ht, h.config⟩
  split <;> rfl

theorem injectPending_guarded (h : InStep hasTransformContext s st) :
    GuardedRun hasTransformContext (InStep hasTransformContext) (injectPending s) st := by
  refine Prog.Guarded.bind (emitAll_guarded _ rfl) ?_
  intro _ t ht
  rw [endedMessages_messageEvents] at ht
  exact ⟨(h.addMessages ht).messages, h.config⟩

theorem streamTurn_guarded (h : InStep hasTransformContext s st) :
    GuardedRun hasTransformContext (fun streamed t => InStep hasTransformContext streamed.2 t)
      (streamTurn s) st :=
  Prog.Guarded.bind (streamAssistantResponse_guarded h.messages h.config) fun _ _ ht => ⟨ht, h.config⟩

theorem runToolCalls_guarded (message : AssistantMessage) (h : InStep hasTransformContext s st) :
    GuardedRun hasTransformContext (fun executed t => InStep hasTransformContext executed.2 t)
      (runToolCalls message s) st := by
  unfold runToolCalls
  split
  · exact ⟨h.messages, h.config⟩
  · refine Prog.Guarded.bind (executeToolCalls_guarded _ _ _ rfl) ?_
    intro batch t ht
    exact ⟨(h.addMessages ht).messages, h.config⟩

theorem afterTurn_guarded (message : AssistantMessage) (toolResults : List ToolResultMessage)
    (h : InStep hasTransformContext s st) :
    GuardedRun hasTransformContext (RoundEnd.InStep hasTransformContext)
      (afterTurn message toolResults s) st := by
  have hprepare : GuardedRun hasTransformContext
      (fun update t => InStep hasTransformContext (s.applySnapshot update) t)
      (optional s.config.hasPrepareNextTurn (ask (.prepareNextTurn (turnContext message toolResults s)))
        none) st := by
    refine optional_guarded (fun _ => ?_) fun _ => h
    refine Prog.Guarded.mono (ask_guarded h.messages nofun) ?_
    rintro answer t ⟨⟨hkeeps, -⟩, ht⟩ update hupdate
    have ht : t.messages = s.currentContext.messages := ht.trans (List.append_nil _)
    cases update with
    | none => exact ⟨ht, h.config⟩
    | some update =>
      refine ⟨?_, h.config⟩
      simp only [LoopState.applySnapshot, hkeeps update hupdate, Option.getD_none]
      exact ht
  refine Prog.Guarded.bind hprepare ?_
  intro update t ht
  have hstop : GuardedRun hasTransformContext
      (fun _ u => InStep hasTransformContext (s.applySnapshot update) u)
      (optional (s.applySnapshot update).config.hasShouldStopAfterTurn
        (ask (.shouldStopAfterTurn (turnContext message toolResults (s.applySnapshot update)))) false)
      t := by
    refine optional_guarded (fun _ => ?_) fun _ => ht
    refine Prog.Guarded.mono (ask_guarded ht.messages nofun) ?_
    exact fun _ u hu _ _ => ⟨hu.2.trans (List.append_nil _), ht.config⟩
  refine Prog.Guarded.bind hstop ?_
  intro stop u hu
  cases stop with
  | true => exact Prog.Guarded.bind (ask_guarded hu.messages nofun) fun _ _ _ => trivial
  | false =>
    refine Prog.Guarded.bind (R := fun _ v => InStep hasTransformContext (s.applySnapshot update) v)
      (optional_guarded (fun _ => ?_) fun _ => hu) fun _ v hv => ⟨hv.messages, hv.config⟩
    refine Prog.Guarded.mono (ask_guarded hu.messages nofun) ?_
    exact fun _ v hv _ _ => ⟨hv.2.trans (List.append_nil _), hu.config⟩

theorem completeTurn_guarded (message : AssistantMessage) (h : InStep hasTransformContext s st) :
    GuardedRun hasTransformContext (RoundEnd.InStep hasTransformContext) (completeTurn message s) st := by
  unfold completeTurn
  split
  · exact Prog.Guarded.bind (emitAll_guarded _ h.messages) fun _ _ _ => trivial
  · refine Prog.Guarded.bind (runToolCalls_guarded message h) ?_
    intro executed t ht
    refine Prog.Guarded.bind (ask_guarded ht.messages nofun) ?_
    intro _ u hu
    exact afterTurn_guarded _ _ ⟨hu.2.trans (List.append_nil _), ht.config⟩

theorem runTurn_guarded (h : InStep hasTransformContext s st) :
    GuardedRun hasTransformContext (RoundEnd.InStep hasTransformContext) (runTurn s) st := by
  refine Prog.Guarded.bind (openTurn_guarded h) ?_
  intro s₁ t₁ h₁
  refine Prog.Guarded.bind (injectPending_guarded h₁) ?_
  intro s₂ t₂ h₂
  refine Prog.Guarded.bind (streamTurn_guarded h₂) ?_
  exact fun streamed t₃ h₃ => completeTurn_guarded streamed.1 h₃

theorem followUp_guarded (h : InStep hasTransformContext s st) :
    GuardedRun hasTransformContext (RoundEnd.InStep hasTransformContext) (followUp s) st := by
  refine Prog.Guarded.bind (R := fun _ t => InStep hasTransformContext s t)
    (optional_guarded (fun _ => ?_) fun _ => h) ?_
  · refine Prog.Guarded.mono (ask_guarded h.messages nofun) ?_
    exact fun _ t ht _ _ => ⟨ht.2.trans (List.append_nil _), h.config⟩
  · intro messages t ht
    split
    · exact Prog.Guarded.bind (ask_guarded ht.messages nofun) fun _ _ _ => trivial
    · exact ⟨ht.messages, ht.config⟩

theorem runRounds_guarded (fuel : Nat) (h : InStep hasTransformContext s st) :
    GuardedRun hasTransformContext (fun _ _ => True) (runRounds fuel s) st := by
  induction fuel generalizing s st with
  | zero => trivial
  | succ fuel ih =>
    have hround : GuardedRun hasTransformContext (RoundEnd.InStep hasTransformContext) (runRound s) st := by
      unfold runRound
      split
      · exact runTurn_guarded h
      · exact followUp_guarded h
    refine Prog.Guarded.bind hround ?_
    intro r t ht
    cases r with
    | finished newMessages => trivial
    | next s' => exact ih ht

theorem runLoop_guarded (fuel : Nat) {context : AgentContext} (newMessages : List AgentMessage)
    {config : AgentLoopConfig} (hst : st.messages = context.messages)
    (hconfig : config.hasTransformContext = hasTransformContext) :
    GuardedRun hasTransformContext (fun _ _ => True) (runLoop fuel context newMessages config) st := by
  refine Prog.Guarded.bind (R := fun _ t => t.messages = context.messages)
    (optional_guarded (fun _ => ?_) fun _ => hst) ?_
  · refine Prog.Guarded.mono (ask_guarded hst nofun) ?_
    exact fun _ t ht _ _ => ht.2.trans (List.append_nil _)
  · exact fun pendingMessages t ht => runRounds_guarded fuel ⟨ht, hconfig⟩

theorem runAgentLoop_guarded (fuel : Nat) (prompts : List AgentMessage) {context : AgentContext}
    {config : AgentLoopConfig} (hst : st.messages = context.messages)
    (hconfig : config.hasTransformContext = hasTransformContext) :
    GuardedRun hasTransformContext (fun _ _ => True) (runAgentLoop fuel prompts context config) st := by
  refine Prog.Guarded.bind (emitAll_guarded _ hst) ?_
  intro _ t ht
  refine runLoop_guarded fuel prompts (ht.trans ?_) hconfig
  exact congrArg (context.messages ++ ·) (endedMessages_messageEvents prompts)

theorem runAgentLoopContinue_guarded (fuel : Nat) {context : AgentContext}
    {config : AgentLoopConfig}
    (hst : st.messages = context.messages)
    (hconfig : config.hasTransformContext = hasTransformContext) :
    GuardedRun hasTransformContext (fun _ _ => True) (runAgentLoopContinue fuel context config) st := by
  unfold runAgentLoopContinue
  split
  · trivial
  · trivial
  · refine Prog.Guarded.bind (emitAll_quiet_guarded rfl hst) ?_
    exact fun _ t ht => runLoop_guarded fuel [] ht hconfig

end Rounds

/-! ## Runs of the agent -/

theorem StartedRun.guarded {options : AgentOptions} {s t : AgentState}
    {p : Act (Option (List AgentMessage))} (h : StartedRun options s p t) :
    GuardedRun options.hasTransformContext (fun _ _ => True) p t := by
  cases h with
  | prompt fuel messages skipInitialSteeringPoll => exact runAgentLoop_guarded fuel messages rfl rfl
  | continuation fuel => exact runAgentLoopContinue_guarded fuel rfl rfl

/-- In every run, at every call of the model, the messages of its context are those of the
transcript, before and after whatever else is called then. -/
theorem context_is_transcript {options : AgentOptions} {s t u : AgentState}
    {p : Act (Option (List AgentMessage))} (h : StartedRun options s p t) {q : Query}
    (hasked : Prog.Asked runMachine p t q u) {messages : List AgentMessage}
    (hhanded : handedMessages options.hasTransformContext q = some messages) :
    ∀ calls : List OutsideCall, (∀ call ∈ calls, call.writesTranscript = false) →
      (u.applyOutsideAll calls).messages = messages := by
  intro calls hcalls
  rw [applyOutsideAll_messages hcalls]
  exact h.guarded.sound hasked messages hhanded

/-! A prompt with a message waiting behind it: the model is called twice. -/

namespace TranscriptExample

def waiting : AgentMessage := .user { content := .text "and then", timestamp := 1 }

def options : AgentOptions where
  hasTransformContext := false
  hasGetApiKey := false
  hasBeforeToolCall := false
  hasAfterToolCall := false
  hasPrepareNextTurn := false
  toolExecution := .parallel

def idle : AgentState :=
  (AgentState.create "" { provider := "p", id := "m" } .off [] [] .oneAtATime .oneAtATime).apply
    (.followUp waiting)

/-- Every response has these events, and the calls follow the look for follow-up messages. -/
def answer (events : List AssistantMessageEvent) (calls : List OutsideCall) :
    (q : Query) → AgentState → Answer q × AgentState
  | .emit event, s => ((), s.processEvents event)
  | .getSteeringMessages, s => (.ok s.getSteeringMessages.1, s.getSteeringMessages.2)
  | .getFollowUpMessages, s =>
    (.ok s.getFollowUpMessages.1, s.getFollowUpMessages.2.applyOutsideAll calls)
  | q, s => (RunExample.answer events q, s)

def loop : Act (Option (List AgentMessage)) :=
  runAgentLoop 4 [RunExample.prompt] idle.createContextSnapshot (idle.createLoopConfig options)

theorem started : StartedRun options idle loop idle.beginRun := .prompt 4 [RunExample.prompt] false

/-- What the run asks. -/
def asked (events : List AssistantMessageEvent) (calls : List OutsideCall) :
    List (Query × AgentState) :=
  Prog.askedFrom (answer events calls) false loop idle.beginRun

/-- The model is handed other messages than those of the transcript. -/
def differs (asked : Query × AgentState) : Bool :=
  (handedMessages false asked.1).any fun messages => messages != asked.2.messages

variable {Calls : OutsideCall → Prop} {Obeys : (q : Query) → Answer q → Prop}
  (events : List AssistantMessageEvent) (calls : List OutsideCall)

theorem answers (hcalls : ∀ call ∈ calls, Calls call)
    (hobeys : ∀ q, Obeys q (RunExample.answer events q))
    (hsteering : ∀ messages, Obeys .getSteeringMessages (.ok messages))
    (hfollowUp : ∀ messages, Obeys .getFollowUpMessages (.ok messages)) (q : Query) (s : AgentState) :
    outsideMachine Calls Obeys q s (answer events calls q s).1 (answer events calls q s).2 := by
  have hnone : ∀ call ∈ ([] ++ [] : List OutsideCall), Calls call := by simp
  cases q with
  | getSteeringMessages => exact ⟨hsteering _, [], [], _, hnone, ⟨rfl, rfl⟩, rfl⟩
  | getFollowUpMessages => exact ⟨hfollowUp _, [], calls, _, hcalls, ⟨rfl, rfl⟩, rfl⟩
  | emit event => exact ⟨hobeys (.emit event), [], [], s.processEvents event, hnone, rfl, rfl⟩
  | _ => exact ⟨hobeys _, [], [], s, hnone, rfl, rfl⟩

theorem keepsContext (q : Query) : KeepsContext q (RunExample.answer events q) := by
  cases q with
  | prepareNextTurn => exact nofun
  | _ => trivial

theorem announcesOnce {events : List AssistantMessageEvent} (honce : startCount events ≤ 1)
    (q : Query) :
    AnnouncesOnce q (RunExample.answer events q) := by
  cases q with
  | streamFunction =>
    intro response hresponse
    cases hresponse
    exact honce
  | _ => trivial

theorem exists_asked (holds : Query × AgentState → Bool)
    (hmachine : ∀ q s, outsideMachine Calls Obeys q s (answer events calls q s).1 (answer events calls q s).2)
    (hany : (asked events calls).any holds = true) :
    ∃ q u, Prog.Asked (outsideMachine Calls Obeys) loop idle.beginRun q u ∧ holds (q, u) = true := by
  obtain ⟨⟨q, u⟩, hmem, hholds⟩ := List.any_eq_true.1 hany
  exact ⟨q, u, Prog.asked_of_mem hmachine false hmem, hholds⟩

theorem not_in_transcript
    (hmachine : ∀ q s, outsideMachine Calls Obeys q s (answer events calls q s).1 (answer events calls q s).2)
    (hdiffers : (asked events calls).any differs = true) :
    ¬ ∀ (options : AgentOptions) (s : AgentState) (p : Act (Option (List AgentMessage)))
      (t : AgentState), StartedRun options s p t → ∀ q u,
        Prog.Asked (outsideMachine Calls Obeys) p t q u → InTranscript options.hasTransformContext q u := by
  intro h
  obtain ⟨q, u, hasked, hdiffers⟩ := exists_asked events calls differs hmachine hdiffers
  obtain ⟨messages, hhanded, hne⟩ := (Option.any_eq_true _ _).1 hdiffers
  have hin := h options idle loop idle.beginRun started q u hasked
  simp [hin messages hhanded] at hne

end TranscriptExample

/-- The second call of the model, with the answer of the first one. -/
theorem context_is_transcript_example :
    ∃ q u, Prog.Asked runMachine TranscriptExample.loop TranscriptExample.idle.beginRun q u ∧
      handedMessages false q =
        some [RunExample.prompt, .assistant RunExample.reply, TranscriptExample.waiting] ∧
      u.messages = [RunExample.prompt, .assistant RunExample.reply, TranscriptExample.waiting] := by
  have hmachine : ∀ q s, runMachine q s _ _ := TranscriptExample.answers
    [.start RunExample.reply, .done RunExample.reply] [] (by simp)
    (fun q => ⟨TranscriptExample.keepsContext _ q, TranscriptExample.announcesOnce (by decide) q⟩)
    (fun _ => ⟨trivial, trivial⟩) fun _ => ⟨trivial, trivial⟩
  obtain ⟨q, u, hasked, hhanded⟩ := TranscriptExample.exists_asked _ []
    (fun asked => handedMessages false asked.1 =
      some [RunExample.prompt, .assistant RunExample.reply, TranscriptExample.waiting])
    hmachine (by decide +kernel)
  have hhanded := of_decide_eq_true hhanded
  exact ⟨q, u, hasked, hhanded,
    context_is_transcript TranscriptExample.started hasked hhanded [] (by simp)⟩

/-- A second `start` leaves the first partial message in the context, and a reset in the run leaves
the context as it was. -/
theorem contexts_differ :
    (¬ ∀ (options : AgentOptions) (s : AgentState) (p : Act (Option (List AgentMessage)))
      (t : AgentState), StartedRun options s p t → ∀ q u,
        Prog.Asked (outsideMachine (fun call => call.writesTranscript = false) KeepsContext) p t q u →
          InTranscript options.hasTransformContext q u) ∧
      ¬ ∀ (options : AgentOptions) (s : AgentState) (p : Act (Option (List AgentMessage)))
        (t : AgentState), StartedRun options s p t → ∀ q u,
          Prog.Asked (outsideMachine (fun _ => True) fun q answer =>
            KeepsContext q answer ∧ AnnouncesOnce q answer) p t q u →
              InTranscript options.hasTransformContext q u := by
  constructor
  · refine TranscriptExample.not_in_transcript
      [.start RunExample.reply, .start RunExample.reply, .done RunExample.reply] [] ?_
      (by decide +kernel)
    exact TranscriptExample.answers _ [] (by simp) (TranscriptExample.keepsContext _)
      (fun _ => trivial)
      fun _ => trivial
  · refine TranscriptExample.not_in_transcript [.start RunExample.reply, .done RunExample.reply]
      [.reset] ?_ (by decide +kernel)
    exact TranscriptExample.answers _ [.reset] (fun _ _ => trivial)
      (fun q => ⟨TranscriptExample.keepsContext _ q, TranscriptExample.announcesOnce (by decide) q⟩)
      (fun _ => ⟨trivial, trivial⟩) fun _ => ⟨trivial, trivial⟩

end PieLab.Agent

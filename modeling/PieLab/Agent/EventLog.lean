import PieLab.Agent.Loop

/-
  The event log of a run

  A run of the agent loop that ends has logged `agent_start`, its turns one after
  the other, and one `agent_end`; its `message_start` and `message_end` events
  alternate; and the messages of the `message_end` events are the messages the
  run adds to the conversation.

  What is proved:
    1. `Within`, `Between` — the log inside a turn and between two turns, with the
       steps that lead from one to the other.
    2. `runRound_ready` — one round keeps `Ready` or ends with a well-formed log.
    3. `runAgentLoop_wellFormed` — the log of every run that ends is well formed,
       when no response announces itself twice; `two_starts_unpaired` shows what a
       second `start` event does to it.
-/

namespace PieLab.Agent

open Lib

/-! ## Well-formed logs -/

/-- The events between turns: `agent_start`, `turn_start`, `turn_end`, `agent_end`. -/
def AgentEvent.isBoundary : AgentEvent → Bool
  | .agentStart | .agentEnd _ | .turnStart | .turnEnd .. => true
  | _ => false

def AgentEvent.isMessageBound : AgentEvent → Bool
  | .messageStart _ | .messageEnd _ => true
  | _ => false

def AgentEvent.endedMessage? : AgentEvent → Option AgentMessage
  | .messageEnd message => some message
  | _ => none

/-- The messages of the `message_end` events, in order. -/
def endedMessages (events : List AgentEvent) : List AgentMessage :=
  events.filterMap AgentEvent.endedMessage?

/-- What is announced is what is ended: the same message, or the assistant's
response, which grows while it is streamed. -/
def Announces (announced ended : AgentMessage) : Prop :=
  announced = ended ∨ announced.isAssistant = true ∧ ended.isAssistant = true

/-- `message_start` and `message_end` alternate, and each pair matches. -/
inductive Alternating : List AgentEvent → Prop where
  | nil : Alternating []
  | cons {announced ended : AgentMessage} {rest : List AgentEvent}
      (h : Announces announced ended) (hrest : Alternating rest) :
      Alternating (.messageStart announced :: .messageEnd ended :: rest)

/-- A turn: no boundary between its own two. -/
def IsTurn (events : List AgentEvent) : Prop :=
  ∃ body message toolResults, events = .turnStart :: body ++ [.turnEnd message toolResults] ∧
    ∀ e ∈ body, e.isBoundary = false

structure WellFormedLog (log : List AgentEvent) (messages : List AgentMessage) : Prop where
  turns : ∃ turns : List (List AgentEvent), (∀ t ∈ turns, IsTurn t) ∧
    log = .agentStart :: turns.flatten ++ [.agentEnd messages]
  alternating : Alternating (log.filter AgentEvent.isMessageBound)
  ended : endedMessages log = messages

/-! ## Parts of a log -/

theorem Alternating.append {a b : List AgentEvent} (ha : Alternating a) (hb : Alternating b) :
    Alternating (a ++ b) := by
  induction ha with
  | nil => exact hb
  | cons h _ ih => exact .cons h ih

theorem endedMessages_append (a b : List AgentEvent) :
    endedMessages (a ++ b) = endedMessages a ++ endedMessages b := List.filterMap_append

/-- A part of a log inside one turn that announces and ends these messages. -/
structure Segment (events : List AgentEvent) (messages : List AgentMessage) : Prop where
  inside : ∀ e ∈ events, e.isBoundary = false
  alternating : Alternating (events.filter AgentEvent.isMessageBound)
  ended : endedMessages events = messages

theorem Segment.nil : Segment [] [] := ⟨by simp, .nil, rfl⟩

theorem Segment.append {a b : List AgentEvent} {ms ns : List AgentMessage} (ha : Segment a ms)
    (hb : Segment b ns) : Segment (a ++ b) (ms ++ ns) := by
  refine ⟨?_, ?_, ?_⟩
  · intro e he
    exact (List.mem_append.mp he).elim (ha.inside e) (hb.inside e)
  · rw [List.filter_append]
    exact ha.alternating.append hb.alternating
  · rw [endedMessages_append, ha.ended, hb.ended]

theorem Segment.messageEvents (message : AgentMessage) :
    Segment (messageEvents message) [message] := by
  refine ⟨?_, .cons (.inl rfl) .nil, rfl⟩
  intro e he
  rw [Agent.messageEvents, List.mem_cons, List.mem_singleton] at he
  cases he with
  | inl he => rw [he]; rfl
  | inr he => rw [he]; rfl

theorem Segment.allMessageEvents (messages : List AgentMessage) :
    Segment (messages.flatMap Agent.messageEvents) messages := by
  induction messages with
  | nil => exact Segment.nil
  | cons message messages ih => exact (Segment.messageEvents message).append ih

theorem Segment.toolExecutionEvent {e : AgentEvent} (h : e.isToolExecution = true) :
    Segment [e] [] := by
  cases e with
  | toolExecutionStart | toolExecutionUpdate | toolExecutionEnd =>
    exact ⟨by simp [AgentEvent.isBoundary], .nil, rfl⟩
  | _ => cases h

theorem Segment.toolExecution {events : List AgentEvent}
    (h : ∀ e ∈ events, e.isToolExecution = true) : Segment events [] := by
  induction events with
  | nil => exact Segment.nil
  | cons e events ih =>
    rw [List.forall_mem_cons] at h
    exact (Segment.toolExecutionEvent h.1).append (ih h.2)

/-- The messages announced and ended in a whole log. -/
structure Messages (log : List AgentEvent) (messages : List AgentMessage) : Prop where
  alternating : Alternating (log.filter AgentEvent.isMessageBound)
  ended : endedMessages log = messages

theorem Messages.append {log events : List AgentEvent} {ms ns : List AgentMessage}
    (h : Messages log ms) (hs : Segment events ns) : Messages (log ++ events) (ms ++ ns) := by
  refine ⟨?_, ?_⟩
  · rw [List.filter_append]
    exact h.alternating.append hs.alternating
  · rw [endedMessages_append, h.ended, hs.ended]

variable {ms : List AgentMessage} {s : LoopState}

theorem Messages.snoc {log : List AgentEvent} (h : Messages log ms) {e : AgentEvent}
    (he : e.isBoundary = true) : Messages (log ++ [e]) ms := by
  have hfilter : [e].filter AgentEvent.isMessageBound = [] ∧ endedMessages [e] = [] := by
    cases e <;> first | exact ⟨rfl, rfl⟩ | cases he
  refine ⟨?_, ?_⟩
  · rw [List.filter_append, hfilter.1, List.append_nil]
    exact h.alternating
  · rw [endedMessages_append, h.ended, hfilter.2, List.append_nil]

/-- The log between two turns. -/
def Between (log : List AgentEvent) (messages : List AgentMessage) : Prop :=
  (∃ turns : List (List AgentEvent), (∀ t ∈ turns, IsTurn t) ∧
    log = .agentStart :: turns.flatten) ∧ Messages log messages

/-- The log inside a turn. -/
def Within (log : List AgentEvent) (messages : List AgentMessage) : Prop :=
  (∃ (turns : List (List AgentEvent)) (body : List AgentEvent), (∀ t ∈ turns, IsTurn t) ∧
    (∀ e ∈ body, e.isBoundary = false) ∧
    log = .agentStart :: turns.flatten ++ .turnStart :: body) ∧ Messages log messages

theorem Between.turnStart {log : List AgentEvent} {ms : List AgentMessage} (h : Between log ms) :
    Within (log ++ [.turnStart]) ms := by
  obtain ⟨⟨turns, hturns, rfl⟩, hms⟩ := h
  exact ⟨⟨turns, [], hturns, by simp, rfl⟩, hms.snoc rfl⟩

theorem Within.append {log events : List AgentEvent} {ms ns : List AgentMessage}
    (h : Within log ms) (hs : Segment events ns) : Within (log ++ events) (ms ++ ns) := by
  obtain ⟨⟨turns, body, hturns, hbody, rfl⟩, hms⟩ := h
  refine ⟨⟨turns, body ++ events, hturns, ?_, ?_⟩, hms.append hs⟩
  · intro e he
    exact (List.mem_append.mp he).elim (hbody e) (hs.inside e)
  · rw [List.append_assoc]; rfl

theorem Within.turnEnd {log : List AgentEvent} (h : Within log ms) (message : AssistantMessage)
    (toolResults : List ToolResultMessage) :
    Between (log ++ [.turnEnd message toolResults]) ms := by
  obtain ⟨⟨turns, body, hturns, hbody, rfl⟩, hms⟩ := h
  refine ⟨⟨turns ++ [.turnStart :: body ++ [.turnEnd message toolResults]], ?_, ?_⟩,
    hms.snoc rfl⟩
  · intro t ht
    rw [List.mem_append, List.mem_singleton] at ht
    cases ht with
    | inl ht => exact hturns t ht
    | inr ht => exact ⟨body, message, toolResults, ht, hbody⟩
  · simp

theorem Between.agentEnd {log : List AgentEvent} (h : Between log ms) :
    WellFormedLog (log ++ [.agentEnd ms]) ms := by
  obtain ⟨⟨turns, hturns, rfl⟩, hms⟩ := h
  have hms' := hms.snoc (e := .agentEnd ms) rfl
  exact ⟨⟨turns, hturns, rfl⟩, hms'.alternating, hms'.ended⟩

/-! ## What each part of the loop logs -/

section Steps
variable {allowed : (q : Query) → Answer q → Prop}

theorem emit_after {log : List AgentEvent} {event : AgentEvent} :
    Prog.After (environment allowed) log (emit event) fun log' _ => log' = log ++ [event] :=
  Prog.After.mono (@Prog.After.call _ _ _ _ (environment allowed) log (.emit event))
    fun _ _ h => h.1

theorem emitAll_after {log : List AgentEvent} (events : List AgentEvent) :
    Prog.After (environment allowed) log (emitAll events) fun log' _ => log' = log ++ events := by
  induction events generalizing log with
  | nil => exact Prog.After.pure (List.append_nil log).symm
  | cons event events ih =>
    refine Prog.After.bind emit_after ?_
    intro log' _ hlog
    refine Prog.After.mono ih ?_
    intro log'' _ h
    rw [h, hlog, List.append_assoc]; rfl

theorem ask_after {log : List AgentEvent} {q : Query}
    (h : (environment allowed).entry q = none) :
    Prog.After (environment allowed) log (ask q) fun log' a => log' = log ∧ allowed q a := by
  refine Prog.After.mono Prog.After.call ?_
  intro log' a hlog
  rw [h, Option.toList_none, List.append_nil] at hlog
  exact hlog

theorem attempt_after {α : Type} {log : List AgentEvent} {P : Except String α → Prop}
    {answer : Act (Except String α)}
    (h : Prog.After (environment allowed) log answer fun log' x => log' = log ∧ P x) :
    Prog.After (environment allowed) log (attempt answer) fun log' a => log' = log ∧ P (.ok a) := by
  refine Prog.After.bind h ?_
  intro log' x hx
  refine Prog.After.mono Prog.After.ofExcept ?_
  intro log'' a ha
  rw [ha.2] at hx
  exact ⟨ha.1.trans hx.1, hx.2⟩

theorem optional_after {α : Type} {log : List AgentEvent} {given : Bool}
    {answer : Act (Except String α)} {default : α} {P : Except String α → Prop}
    (h : Prog.After (environment allowed) log answer fun log' x => log' = log ∧ P x) :
    Prog.After (environment allowed) log (optional given answer default)
      fun log' _ => log' = log := by
  unfold optional
  split
  · exact Prog.After.mono (attempt_after h) fun _ _ h => h.1
  · exact Prog.After.pure rfl

/-! ### One response -/

/-- The number of `start` events the loop reads: none behind a `done` or `error`. -/
def startCount : List AssistantMessageEvent → Nat
  | [] => 0
  | .start _ :: events => startCount events + 1
  | .update _ _ :: events => startCount events
  | .done _ :: _ | .error _ :: _ => 0

/-- Every response announces itself at most once. -/
def StartsOnce (allowed : (q : Query) → Answer q → Prop) : Prop :=
  ∀ model context reasoning apiKey response,
    allowed (.streamFunction model context reasoning apiKey) (.ok response) →
      startCount response.events ≤ 1

/-- The log while a response is streamed: its announcement is the last message
bound, and is there exactly when a partial message is. -/
def StreamLog (log : List AgentEvent) (ms : List AgentMessage) (s : Streaming) : Prop :=
  match s.partialMessage with
  | none => Within log ms
  | some _ => ∃ (log₀ updates : List AgentEvent) (announced : AssistantMessage),
      Within log₀ ms ∧ (∀ e ∈ updates, e.isBoundary = false ∧ e.isMessageBound = false) ∧
      log = log₀ ++ .messageStart (.assistant announced) :: updates

theorem StreamLog.finish {log : List AgentEvent} {ms : List AgentMessage} {s : Streaming}
    (h : StreamLog log ms s) (finalMessage : AssistantMessage) :
    Within (log ++ (endResponse s finalMessage).2) (ms ++ [.assistant finalMessage]) := by
  unfold StreamLog at h
  unfold endResponse
  cases hp : s.partialMessage with
  | none =>
    rw [hp] at h
    exact h.append (Segment.messageEvents _)
  | some p =>
    rw [hp] at h
    obtain ⟨log₀, updates, announced, hin, hup, rfl⟩ := h
    have hquiet : updates.filter AgentEvent.isMessageBound = [] ∧ endedMessages updates = [] := by
      refine ⟨List.filter_eq_nil_iff.mpr fun e he => by simp [(hup e he).2], ?_⟩
      refine List.filterMap_eq_nil_iff.mpr ?_
      intro e he
      have := (hup e he).2
      cases e with
      | messageEnd m => cases this
      | _ => rfl
    have hseg : Segment (.messageStart (.assistant announced) :: updates ++
        [.messageEnd (.assistant finalMessage)]) [.assistant finalMessage] := by
      refine ⟨?_, ?_, ?_⟩
      · intro e he
        rw [List.cons_append, List.mem_cons, List.mem_append, List.mem_singleton] at he
        obtain rfl | he | rfl := he
        · rfl
        · exact (hup e he).1
        · rfl
      · rw [List.cons_append, List.filter_cons_of_pos rfl, List.filter_append, hquiet.1]
        exact .cons (.inr ⟨rfl, rfl⟩) .nil
      · rw [List.cons_append, endedMessages, List.filterMap_cons_none rfl, ← endedMessages,
          endedMessages_append, hquiet.2]
        rfl
    have := hin.append hseg
    rwa [← List.append_assoc] at this

theorem finishResponse_after {log : List AgentEvent} {s : Streaming} (h : StreamLog log ms s)
    (response : Response) :
    Prog.After (environment allowed) log (finishResponse response s) fun log' r =>
      Within log' (ms ++ [.assistant r.1]) := by
  refine Prog.After.bind Prog.After.ofExcept ?_
  rintro log' finalMessage ⟨rfl, _⟩
  refine Prog.After.bind (emitAll_after _) ?_
  intro log'' _ hlog
  rw [hlog]
  exact Prog.After.pure (h.finish finalMessage)

theorem consumeEvents_after {log : List AgentEvent} {s : Streaming} (h : StreamLog log ms s)
    (response : Response) (events : List AssistantMessageEvent)
    (hstart : startCount events + (if s.partialMessage.isSome then 1 else 0) ≤ 1) :
    Prog.After (environment allowed) log (consumeEvents response s events) fun log' r =>
      Within log' (ms ++ [.assistant r.1]) := by
  induction events generalizing log s with
  | nil =>
    unfold consumeEvents
    split
    · exact Prog.After.throw
    · exact finishResponse_after h response
  | cons event events ih =>
    cases event with
    | start p =>
      have hnone : s.partialMessage = none := by
        cases hp : s.partialMessage with
        | none => rfl
        | some p' => simp [startCount, hp] at hstart
      unfold StreamLog at h
      rw [hnone] at h
      refine Prog.After.bind emit_after ?_
      intro log' _ hlog
      apply ih
      · exact ⟨log, [], p, h, by simp, hlog⟩
      · simpa [startCount, hnone] using hstart
    | update type p =>
      unfold consumeEvents
      split
      · next hnone => exact ih h (by simpa [startCount, hnone] using hstart)
      · next p' hsome =>
        unfold StreamLog at h
        rw [hsome] at h
        obtain ⟨log₀, updates, announced, hin, hup, rfl⟩ := h
        refine Prog.After.bind emit_after ?_
        intro log' _ hlog
        apply ih
        · refine ⟨log₀, updates ++ [.messageUpdate (.assistant p) (.update type p)], announced, hin,
            ?_, ?_⟩
          · intro e he
            rw [List.mem_append, List.mem_singleton] at he
            obtain he | rfl := he
            · exact hup e he
            · exact ⟨rfl, rfl⟩
          · rw [hlog, List.append_assoc]; rfl
        · simpa [startCount, hsome] using hstart
    | done m => exact finishResponse_after h response
    | error m => exact finishResponse_after h response

theorem streamAssistantResponse_after {log : List AgentEvent} (honce : StartsOnce allowed)
    (h : Within log ms) (context : AgentContext) (config : AgentLoopConfig) :
    Prog.After (environment allowed) log (streamAssistantResponse context config) fun log' r =>
      Within log' (ms ++ [.assistant r.1]) := by
  refine Prog.After.bind (optional_after (ask_after rfl)) ?_
  rintro _ messages rfl
  refine Prog.After.bind (attempt_after (ask_after rfl)) ?_
  rintro _ llmMessages ⟨rfl, _⟩
  refine Prog.After.bind (optional_after (ask_after rfl)) ?_
  rintro _ resolved rfl
  refine Prog.After.bind (attempt_after (ask_after rfl)) ?_
  rintro _ response ⟨rfl, hresponse⟩
  have hstream : ∀ l, Within l ms →
      StreamLog l ms { messages := context.messages, partialMessage := none } := fun _ h => h
  refine Prog.After.bind (consumeEvents_after (hstream _ h) response response.events ?_) ?_
  · exact honce _ _ _ _ response hresponse
  · intro log' r hr
    exact Prog.After.pure hr

/-! ### The tool calls -/

theorem emitToolResult_after {log : List AgentEvent} (h : Within log ms)
    (finalized : FinalizedToolCallOutcome) :
    Prog.After (environment allowed) log (emitToolResult finalized) fun log' message =>
      Within log' (ms ++ [.toolResult message]) := by
  refine Prog.After.bind (P := fun log' _ => log' = log) ?_ ?_
  · refine Prog.After.bind (ask_after rfl) ?_
    rintro log' timestamp ⟨rfl, _⟩
    exact Prog.After.pure rfl
  · rintro _ message rfl
    refine Prog.After.bind (emitAll_after _) ?_
    intro log' _ hlog
    rw [hlog]
    exact Prog.After.pure (h.append (Segment.messageEvents _))

theorem emitToolResults_after {log : List AgentEvent} (h : Within log ms)
    (fs : List FinalizedToolCallOutcome) :
    Prog.After (environment allowed) log (emitToolResults fs) fun log' messages =>
      Within log' (ms ++ messages.map .toolResult) := by
  induction fs generalizing log ms with
  | nil => exact Prog.After.pure (by rw [List.map_nil, List.append_nil]; exact h)
  | cons f fs ih =>
    refine Prog.After.bind (emitToolResult_after h f) ?_
    intro log' message hmessage
    refine Prog.After.bind (ih hmessage) ?_
    intro log'' messages hmessages
    rw [List.append_assoc] at hmessages
    exact Prog.After.pure hmessages

theorem toolExecution_after {α : Type} {log : List AgentEvent} {p : Act α} {R : α → Prop}
    (h : Within log ms)
    (hp : Prog.Safe (environment allowed) (fun e => e.isToolExecution = true) (fun _ => True) R p) :
    Prog.After (environment allowed) log p fun log' a => Within log' ms ∧ R a := by
  refine Prog.After.mono (hp.after log) ?_
  rintro _ a ⟨events, rfl, hevents, hR⟩
  have := h.append (Segment.toolExecution hevents)
  rw [List.append_nil] at this
  exact ⟨this, hR⟩

theorem aborted_after {log : List AgentEvent} :
    Prog.After (environment allowed) log aborted fun log' _ => log' = log :=
  Prog.After.mono (@ask_after _ _ .aborted rfl) fun _ _ h => h.1

section Batch
variable {context : AgentContext} {assistantMessage : AssistantMessage} {config : AgentLoopConfig}

theorem sequentialLoop_after {log : List AgentEvent} (h : Within log ms)
    (calls : List AgentToolCall) :
    Prog.After (environment allowed) log
      (sequentialLoop context assistantMessage config calls) fun log' done =>
        Within log' (ms ++ (done.map Prod.snd).map .toolResult) := by
  induction calls generalizing log ms with
  | nil => exact Prog.After.pure (by rw [List.map_nil, List.map_nil, List.append_nil]; exact h)
  | cons call calls ih =>
    refine Prog.After.bind (toolExecution_after h (executeSequentially_safe (fun _ h => h) call)) ?_
    intro log₁ finalized hfinal
    refine Prog.After.bind (emitToolResult_after hfinal.1 finalized) ?_
    intro log₂ message hmessage
    refine Prog.After.bind aborted_after ?_
    rintro _ isAborted rfl
    cases isAborted with
    | true => exact Prog.After.pure hmessage
    | false =>
      refine Prog.After.bind (ih hmessage) ?_
      intro log₃ done hdone
      rw [List.append_assoc] at hdone
      exact Prog.After.pure hdone

theorem executeToolCalls_after {log : List AgentEvent} (h : Within log ms) :
    Prog.After (environment allowed) log (executeToolCalls context assistantMessage config)
      fun log' batch => Within log' (ms ++ batch.messages.map .toolResult) := by
  unfold executeToolCalls
  simp only []
  split
  · refine Prog.After.bind (sequentialLoop_after h _) ?_
    intro log' done hdone
    exact Prog.After.pure hdone
  · refine Prog.After.bind (toolExecution_after h (parallelLoop_safe (fun _ h => h) _)) ?_
    rintro log₁ entries ⟨hin, answered, _, hstart, _⟩
    have hall := Prog.Safe.all (List.forall₂_map_left_iff.mpr hstart)
    refine Prog.After.bind (toolExecution_after hin hall) ?_
    rintro log₂ ordered ⟨hin, _⟩
    refine Prog.After.bind (emitToolResults_after hin ordered) ?_
    intro log₃ messages hmessages
    exact Prog.After.pure hmessages

end Batch

/-! ### Rounds -/

/-- The log a state of the loop goes with. The first turn is opened before the
loop, the later ones by it. -/
def Ready (log : List AgentEvent) (s : LoopState) : Prop :=
  if s.firstTurn then Within log s.newMessages ∧ s.hasMoreToolCalls = true
  else Between log s.newMessages

theorem openTurn_after {log : List AgentEvent} (h : Ready log s) :
    Prog.After (environment allowed) log (openTurn s) fun log' s' =>
      Within log' s'.newMessages ∧ s'.firstTurn = false := by
  unfold Ready at h
  refine Prog.After.bind (emitAll_after _) ?_
  intro log' _ hlog
  rw [hlog]
  refine Prog.After.pure ⟨?_, rfl⟩
  cases hfirst : s.firstTurn with
  | true =>
    rw [hfirst, if_pos rfl] at h
    rw [if_pos rfl, List.append_nil]
    exact h.1
  | false =>
    rw [hfirst, if_neg Bool.false_ne_true] at h
    rw [if_neg Bool.false_ne_true]
    exact h.turnStart

theorem injectPending_after {log : List AgentEvent} (h : Within log s.newMessages) :
    Prog.After (environment allowed) log (injectPending s) fun log' s' =>
      Within log' s'.newMessages ∧ s'.firstTurn = s.firstTurn := by
  refine Prog.After.bind (emitAll_after _) ?_
  intro log' _ hlog
  rw [hlog]
  exact Prog.After.pure ⟨h.append (Segment.allMessageEvents _), rfl⟩

theorem streamTurn_after {log : List AgentEvent} (honce : StartsOnce allowed)
    (h : Within log s.newMessages) :
    Prog.After (environment allowed) log (streamTurn s) fun log' r =>
      Within log' r.2.newMessages ∧ r.2.firstTurn = s.firstTurn := by
  refine Prog.After.bind (streamAssistantResponse_after honce h _ _) ?_
  intro log' r hr
  exact Prog.After.pure ⟨hr, rfl⟩

theorem runToolCalls_after {log : List AgentEvent} (message : AssistantMessage)
    (h : Within log s.newMessages) :
    Prog.After (environment allowed) log (runToolCalls message s) fun log' r =>
      Within log' r.2.newMessages ∧ r.2.firstTurn = s.firstTurn := by
  unfold runToolCalls
  split
  · exact Prog.After.pure ⟨h, rfl⟩
  · refine Prog.After.bind (executeToolCalls_after h) ?_
    intro log' batch hbatch
    exact Prog.After.pure ⟨hbatch, rfl⟩

/-- How a round ends: with the whole log, or with a state that goes with it. -/
def RoundEnd.Fits (log : List AgentEvent) : RoundEnd → Prop
  | .finished newMessages => WellFormedLog log newMessages
  | .next s => Ready log s

theorem agentEnd_after {log : List AgentEvent} (h : Between log ms) :
    Prog.After (environment allowed) log
      (do emit (.agentEnd ms); pure (RoundEnd.finished ms) : Act RoundEnd)
      fun log' r => r.Fits log' := by
  refine Prog.After.bind emit_after ?_
  intro log' _ hlog
  rw [hlog]
  exact Prog.After.pure h.agentEnd

theorem applySnapshot_keeps (s : LoopState) (update : Option AgentLoopTurnUpdate) :
    (s.applySnapshot update).newMessages = s.newMessages ∧
      (s.applySnapshot update).firstTurn = s.firstTurn := by
  cases update with
  | none => exact ⟨rfl, rfl⟩
  | some update => exact ⟨rfl, rfl⟩

theorem afterTurn_after {log : List AgentEvent} (h : Between log s.newMessages)
    (hfirst : s.firstTurn = false) (message : AssistantMessage)
    (toolResults : List ToolResultMessage) :
    Prog.After (environment allowed) log (afterTurn message toolResults s)
      fun log' r => r.Fits log' := by
  refine Prog.After.bind (optional_after (ask_after rfl)) ?_
  rintro _ update rfl
  obtain ⟨hnew, hsame⟩ := applySnapshot_keeps s update
  rw [← hnew] at h
  rw [← hsame] at hfirst
  refine Prog.After.bind (optional_after (ask_after rfl)) ?_
  rintro _ stop rfl
  cases stop with
  | true => exact agentEnd_after h
  | false =>
    refine Prog.After.bind (optional_after (ask_after rfl)) ?_
    rintro log' pendingMessages rfl
    refine Prog.After.pure ?_
    show Ready _ _
    unfold Ready
    rw [if_neg (by rw [hfirst]; exact Bool.false_ne_true)]
    exact h

theorem completeTurn_after {log : List AgentEvent} (h : Within log s.newMessages)
    (hfirst : s.firstTurn = false) (message : AssistantMessage) :
    Prog.After (environment allowed) log (completeTurn message s) fun log' r => r.Fits log' := by
  unfold completeTurn
  split
  · -- a failed response ends its turn and the run
    refine Prog.After.bind (emitAll_after _) ?_
    intro log' _ hlog
    rw [hlog, List.append_cons]
    exact Prog.After.pure (h.turnEnd message []).agentEnd
  · refine Prog.After.bind (runToolCalls_after message h) ?_
    rintro log₁ executed ⟨hin, hsame⟩
    refine Prog.After.bind emit_after ?_
    intro log₂ _ hlog
    rw [hlog]
    exact afterTurn_after (hin.turnEnd message executed.1) (hsame.trans hfirst) message executed.1

theorem runTurn_after {log : List AgentEvent} (honce : StartsOnce allowed) (h : Ready log s) :
    Prog.After (environment allowed) log (runTurn s) fun log' r => r.Fits log' := by
  refine Prog.After.bind (openTurn_after h) ?_
  rintro log₁ s₁ ⟨h1, hf1⟩
  refine Prog.After.bind (injectPending_after h1) ?_
  rintro log₂ s₂ ⟨h2, hf2⟩
  refine Prog.After.bind (streamTurn_after honce h2) ?_
  rintro log₃ streamed ⟨h3, hf3⟩
  exact completeTurn_after h3 (hf3.trans (hf2.trans hf1)) streamed.1

theorem followUp_after {log : List AgentEvent} (h : Between log s.newMessages)
    (hfirst : s.firstTurn = false) :
    Prog.After (environment allowed) log (followUp s) fun log' r => r.Fits log' := by
  refine Prog.After.bind (optional_after (ask_after rfl)) ?_
  rintro _ followUpMessages rfl
  split
  · exact agentEnd_after h
  · refine Prog.After.pure ?_
    show Ready _ _
    unfold Ready
    rw [if_neg (by rw [hfirst]; exact Bool.false_ne_true)]
    exact h

/-- A round keeps the log and the state together, or ends the run. -/
theorem runRound_ready {log : List AgentEvent} (honce : StartsOnce allowed) (h : Ready log s) :
    Prog.After (environment allowed) log (runRound s) fun log' r => r.Fits log' := by
  unfold runRound
  split
  · exact runTurn_after honce h
  · next hidle =>
    have hmore : s.hasMoreToolCalls = false := by
      cases hm : s.hasMoreToolCalls with
      | false => rfl
      | true => simp [hm] at hidle
    unfold Ready at h
    cases hfirst : s.firstTurn with
    | true =>
      -- the first round has a turn to run
      rw [hfirst, if_pos rfl, hmore] at h
      cases h.2
    | false =>
      rw [hfirst, if_neg Bool.false_ne_true] at h
      exact followUp_after h hfirst

theorem runRounds_after {log : List AgentEvent} (honce : StartsOnce allowed) (h : Ready log s)
    (fuel : Nat) :
    Prog.After (environment allowed) log (runRounds fuel s) fun log' r =>
      ∀ messages, r = some messages → WellFormedLog log' messages := by
  induction fuel generalizing log s with
  | zero => exact Prog.After.pure (by intro messages h; cases h)
  | succ fuel ih =>
    refine Prog.After.bind (runRound_ready honce h) ?_
    intro log' r hr
    cases r with
    | finished newMessages =>
      refine Prog.After.pure ?_
      intro messages hm
      cases hm
      exact hr
    | next s' => exact ih hr

/-- The log of every run that ends is well formed, and its messages are those the
run returns. -/
theorem runAgentLoop_wellFormed (honce : StartsOnce allowed) {fuel : Nat}
    {prompts : List AgentMessage} {context : AgentContext} {config : AgentLoopConfig}
    {log : List AgentEvent} {messages : List AgentMessage}
    (h : Prog.Produces (environment allowed) (runAgentLoop fuel prompts context config) log
      (.ok (some messages))) :
    WellFormedLog log messages := by
  have hafter : Prog.After (environment allowed) [] (runAgentLoop fuel prompts context config)
      fun log' r => ∀ messages, r = some messages → WellFormedLog log' messages := by
    refine Prog.After.bind (emitAll_after _) ?_
    intro log' _ hlog
    have hopen : Within [.agentStart, .turnStart] [] :=
      @Between.turnStart [.agentStart] [] ⟨⟨[], by simp, rfl⟩, .nil, rfl⟩
    have hin : Within log' prompts := by
      rw [hlog]
      exact hopen.append (Segment.allMessageEvents prompts)
    refine Prog.After.bind (optional_after (ask_after rfl)) ?_
    rintro _ pendingMessages rfl
    apply runRounds_after honce
    unfold Ready
    rw [if_pos rfl]
    exact ⟨hin, rfl⟩
  exact hafter log _ h messages rfl

end Steps

/-! Two runs of one prompt and one response: the response announces itself once in
the first run and twice in the second. -/

namespace RunExample

def prompt : AgentMessage := .user { content := .text "hello", timestamp := 0 }

def reply : AssistantMessage :=
  { BatchExample.message with content := [.text "hi"], stopReason := .stop }

/-- Every response has these events and settles with the reply. -/
def answer (events : List AssistantMessageEvent) : (q : Query) → Answer q
  | .streamFunction _ _ _ _ => .ok { events, broken := none, result := .ok reply }
  | q => BatchExample.answer q

def world (events : List AssistantMessageEvent) : World Query Answer AgentEvent :=
  environment fun q a => a = answer events q

def loop : Act (Option (List AgentMessage)) :=
  runAgentLoop 2 [prompt] BatchExample.context BatchExample.config

/-- The log of the run. -/
def log (events : List AssistantMessageEvent) : List AgentEvent :=
  (Prog.run (world events) (answer events) false loop).1

theorem produces (events : List AssistantMessageEvent)
    (hend : (Prog.run (world events) (answer events) false loop).2 =
      .ok (some [prompt, .assistant reply])) :
    Prog.Produces (world events) loop (log events) (.ok (some [prompt, .assistant reply])) := by
  have h : Prog.Produces (world events) loop _ _ :=
    @Prog.run_produces _ _ _ _ _ (world events) (answer events) (fun _ => rfl) false loop
  rw [hend] at h
  exact h

end RunExample

theorem runAgentLoop_wellFormed_example :
    WellFormedLog (RunExample.log [.start RunExample.reply, .done RunExample.reply])
      [RunExample.prompt, .assistant RunExample.reply] := by
  refine runAgentLoop_wellFormed ?_ (RunExample.produces _ rfl)
  intro model context reasoning apiKey response h
  cases h
  decide

/-- A second `start` announces the response again: two `message_start` events and
one `message_end`. -/
theorem two_starts_unpaired :
    ¬ ∀ (allowed : (q : Query) → Answer q → Prop) (fuel : Nat) (prompts : List AgentMessage)
        (context : AgentContext) (config : AgentLoopConfig) (log : List AgentEvent)
        (messages : List AgentMessage),
        Prog.Produces (environment allowed) (runAgentLoop fuel prompts context config) log
          (.ok (some messages)) → WellFormedLog log messages := by
  intro h
  have hlog := h _ _ _ _ _ _ _ (RunExample.produces
    [.start RunExample.reply, .start RunExample.reply, .done RunExample.reply] rfl)
  have halt := hlog.alternating
  have hbounds : (RunExample.log
      [.start RunExample.reply, .start RunExample.reply, .done RunExample.reply]).filter
        AgentEvent.isMessageBound =
      [.messageStart RunExample.prompt, .messageEnd RunExample.prompt,
        .messageStart (.assistant RunExample.reply), .messageStart (.assistant RunExample.reply),
        .messageEnd (.assistant RunExample.reply)] := rfl
  rw [hbounds] at halt
  cases halt with
  | cons _ hrest => cases hrest

end PieLab.Agent

import PieLab.Agent.EventLog
import PieLab.Agent.Queues
import PieLab.Agent.ToolQueries

/-
  The queues of the agent lose nothing

  The loop drains a queue into its pending messages and announces them before it
  asks anything that may throw; the announced messages go to the transcript, one
  after the other. So the messages of the transcript and the pending ones together
  always account for all that was taken from the queues.

  What is proved:
    1. `runTurn_account`, `followUp_account` — a round keeps the account, and leaves
       nothing pending where it throws or ends the run.
    2. `queues_conserve` — after any run the transcript is made up of the initial
       messages, the prompts, the messages taken from each queue, each of these in
       the order they came, and assistant messages and tool results of the runs;
       what was not taken is in its queue.
    3. `Ledger.count` — any other message occurs in the transcript and the queues as
       often as it was given to the agent.
-/

namespace PieLab.Agent

open Lib

/-! ## The account -/

/-- Where a message of the transcript comes from. -/
inductive Origin where
  | initial | prompt | steering | followUp | run
  deriving DecidableEq

/-- The messages of one origin. -/
def written (origin : Origin) (transcript : List (Origin × AgentMessage)) : List AgentMessage :=
  (transcript.filter fun entry => decide (entry.1 = origin)).map Prod.snd

/-- `role === "assistant" || role === "toolResult"` -/
def isProduced : AgentMessage → Bool
  | .assistant _ | .toolResult _ => true
  | _ => false

/-- The messages the agent was given. -/
def received (initial : List AgentMessage) (s : AgentState) : Origin → List AgentMessage
  | .initial => initial
  | .prompt => s.given
  | .steering => s.steered
  | .followUp => s.followedUp
  | .run => []

/-- The messages that are still in their queue. -/
def waiting (s : AgentState) : Origin → List AgentMessage
  | .steering => s.steeringQueue.messages
  | .followUp => s.followUpQueue.messages
  | _ => []

/-- The messages of each origin are those the agent was given, in the order it was given them,
up to what is still in its queue. -/
structure Ledger (initial : List AgentMessage) (s : AgentState)
    (transcript : List (Origin × AgentMessage)) : Prop where
  accounts : ∀ origin, origin ≠ .run →
    written origin transcript ++ waiting s origin = received initial s origin
  produced : ∀ message ∈ written .run transcript, isProduced message = true

/-- The transcript, with the messages that are pending. -/
def Account (initial : List AgentMessage) (s : AgentState) (pending : List AgentMessage) : Prop :=
  ∃ transcript, Ledger initial s transcript ∧
    transcript.map Prod.snd = s.messages ++ pending

theorem written_append (origin : Origin) (a b : List (Origin × AgentMessage)) :
    written origin (a ++ b) = written origin a ++ written origin b := by
  simp [written]

theorem written_labelled (origin origin' : Origin) (messages : List AgentMessage) :
    written origin (messages.map fun message => (origin', message)) =
      if origin' = origin then messages else [] := by
  induction messages with
  | nil => simp [written]
  | cons message messages ih =>
    unfold written at ih ⊢
    by_cases h : origin' = origin
    · simpa [h] using ih
    · simp [h, ih]

section Accounts
variable {initial pending messages : List AgentMessage} {s t : AgentState}

theorem Account.congr (h : Account initial s pending) (hmessages : t.messages = s.messages)
    (hwaiting : waiting t = waiting s) (hreceived : received initial t = received initial s) :
    Account initial t pending := by
  obtain ⟨transcript, hledger, htranscript⟩ := h
  refine ⟨transcript, ⟨?_, hledger.produced⟩, hmessages ▸ htranscript⟩
  rw [hwaiting, hreceived]
  exact hledger.accounts

theorem Account.apply (h : Account initial s pending) (call : HostCall) :
    Account initial (s.apply call) pending := by
  obtain ⟨transcript, hledger, htranscript⟩ := h
  refine ⟨transcript, ⟨?_, hledger.produced⟩, ?_⟩
  · intro origin horigin
    have := hledger.accounts origin horigin
    cases call with
    | steer message =>
      cases origin with
      | steering =>
        show _ ++ (s.steeringQueue.messages ++ [message]) = s.steered ++ [message]
        rw [← List.append_assoc]
        exact congrArg (· ++ [message]) this
      | _ => exact this
    | followUp message =>
      cases origin with
      | followUp =>
        show _ ++ (s.followUpQueue.messages ++ [message]) = s.followedUp ++ [message]
        rw [← List.append_assoc]
        exact congrArg (· ++ [message]) this
      | _ => exact this
    | _ => cases origin <;> exact this
  · cases call <;> exact htranscript

theorem Account.applyAll (h : Account initial s pending) (calls : List HostCall) :
    Account initial (s.applyAll calls) pending := by
  induction calls generalizing s with
  | nil => exact h
  | cons call calls ih => exact ih (h.apply call)

theorem Account.append (h : Account initial s []) {origin : Origin} (hrun : origin ≠ .run)
    (hmessages : t.messages = s.messages)
    (hothers : ∀ o, o ≠ origin → waiting t o = waiting s o ∧ received initial t o = received initial s o)
    (hself : ∀ before, before ++ waiting s origin = received initial s origin →
      before ++ messages ++ waiting t origin = received initial t origin) :
    Account initial t messages := by
  obtain ⟨transcript, hledger, htranscript⟩ := h
  refine ⟨transcript ++ messages.map fun message => (origin, message), ⟨?_, ?_⟩, ?_⟩
  · intro o ho
    rw [written_append, written_labelled]
    by_cases heq : o = origin
    · subst heq
      rw [if_pos rfl]
      exact hself _ (hledger.accounts o ho)
    · rw [if_neg (Ne.symm heq), List.append_nil, (hothers o heq).1, (hothers o heq).2]
      exact hledger.accounts o ho
  · rw [written_append, written_labelled, if_neg hrun, List.append_nil]
    exact hledger.produced
  · rw [List.map_append, htranscript, hmessages, List.append_nil, List.map_map]
    exact congrArg (s.messages ++ ·) (List.map_id _)

theorem drain_messages (queue : PendingMessageQueue) :
    queue.drain.1 ++ queue.drain.2.messages = queue.messages := by
  unfold PendingMessageQueue.drain
  cases queue.mode with
  | all => exact List.append_nil _
  | oneAtATime => exact List.take_append_drop 1 _

theorem Account.drainSteering (h : Account initial s []) :
    Account initial { s with steeringQueue := s.steeringQueue.drain.2 } s.steeringQueue.drain.1 := by
  refine @Account.append _ _ _ _ h .steering nofun rfl ?_ ?_
  · intro o ho
    cases o with
    | steering => exact (ho rfl).elim
    | _ => exact ⟨rfl, rfl⟩
  · intro before hbefore
    show before ++ s.steeringQueue.drain.1 ++ s.steeringQueue.drain.2.messages = s.steered
    rw [List.append_assoc, drain_messages]
    exact hbefore

theorem Account.drainFollowUp (h : Account initial s []) :
    Account initial { s with followUpQueue := s.followUpQueue.drain.2 } s.followUpQueue.drain.1 := by
  refine @Account.append _ _ _ _ h .followUp nofun rfl ?_ ?_
  · intro o ho
    cases o with
    | followUp => exact (ho rfl).elim
    | _ => exact ⟨rfl, rfl⟩
  · intro before hbefore
    show before ++ s.followUpQueue.drain.1 ++ s.followUpQueue.drain.2.messages = s.followedUp
    rw [List.append_assoc, drain_messages]
    exact hbefore

theorem Account.give (h : Account initial s []) (messages : List AgentMessage) :
    Account initial { s with given := s.given ++ messages } messages := by
  refine @Account.append _ _ _ _ h .prompt nofun rfl ?_ ?_
  · intro o ho
    cases o with
    | prompt => exact (ho rfl).elim
    | _ => exact ⟨rfl, rfl⟩
  · intro before hbefore
    have hgiven : before = s.given := by simpa [waiting, received] using hbefore
    show before ++ messages ++ [] = s.given ++ messages
    rw [List.append_nil, hgiven]

theorem Account.produce (h : Account initial s []) {message : AgentMessage}
    (hmessage : isProduced message = true) : Account initial s [message] := by
  obtain ⟨transcript, hledger, htranscript⟩ := h
  refine ⟨transcript ++ [message].map fun m => (.run, m), ⟨?_, ?_⟩, ?_⟩
  · intro o ho
    rw [written_append, written_labelled, if_neg (Ne.symm ho), List.append_nil]
    exact hledger.accounts o ho
  · rw [written_append, written_labelled, if_pos rfl]
    intro m hm
    obtain hm | hm := List.mem_append.mp hm
    · exact hledger.produced m hm
    · rw [List.mem_singleton.mp hm, hmessage]
  · rw [List.map_append, htranscript, List.append_nil]
    rfl

end Accounts

/-! ## Queries -/

/-- An event that puts no message into the transcript but one a run has produced. -/
def AgentEvent.isQuiet : AgentEvent → Bool
  | .messageEnd message => isProduced message
  | _ => true

/-- A query that drains no queue, and announces only what a run has produced. -/
def Query.IsQuiet : Query → Prop
  | .emit event => event.isQuiet = true
  | .getSteeringMessages | .getFollowUpMessages => False
  | _ => True

section Queries
variable {initial pending : List AgentMessage} {s t : AgentState}

theorem Account.event (h : Account initial s pending) {event : AgentEvent}
    (hevent : ∀ message, event ≠ .messageEnd message) :
    Account initial (s.processEvents event) pending := by
  cases event with
  | messageEnd message => exact (hevent message rfl).elim
  | turnEnd message toolResults =>
    unfold AgentState.processEvents
    simp only
    split
    · exact h.congr rfl rfl rfl
    · exact h
  | _ => exact h.congr rfl rfl rfl

theorem Account.messageEnd {message : AgentMessage} (h : Account initial s (message :: pending)) :
    Account initial (s.processEvents (.messageEnd message)) pending := by
  obtain ⟨transcript, hledger, htranscript⟩ := h
  refine ⟨transcript, ⟨hledger.accounts, hledger.produced⟩, ?_⟩
  rw [htranscript]
  exact List.append_cons _ _ _

theorem Account.quiet (h : Account initial s []) {q : Query} (hq : q.IsQuiet) {answer : Answer q}
    (hstep : agentMachine q s answer t) : Account initial t [] := by
  obtain ⟨before, after, u, hanswer, rfl⟩ := hstep
  apply Account.applyAll
  have hbefore := h.applyAll before
  cases q with
  | emit event =>
    obtain rfl : u = _ := hanswer
    by_cases hmessage : ∃ message, event = .messageEnd message
    · obtain ⟨message, rfl⟩ := hmessage
      exact (hbefore.produce hq).messageEnd
    · exact hbefore.event fun message heq => hmessage ⟨message, heq⟩
  | getSteeringMessages => exact hq.elim
  | getFollowUpMessages => exact hq.elim
  | _ => exact (show u = _ from hanswer) ▸ hbefore

theorem quiet_holds {α : Type} {p : Act α} {R : α → Prop} (hp : Prog.Asks Query.IsQuiet R p)
    (h : Account initial s []) :
    Prog.Holds agentMachine (fun a t => R a ∧ Account initial t [])
      (fun _ t => Account initial t []) p s :=
  Prog.Asks.holds (fun _ hq _ _ _ hstep hs => hs.quiet hq hstep) hp h

theorem emitAll_pending (messages : List AgentMessage) (h : Account initial s (messages ++ pending))
    {T : String → AgentState → Prop} :
    Prog.Holds agentMachine (fun _ t => Account initial t pending) T
      (emitAll (messages.flatMap messageEvents)) s := by
  induction messages generalizing s with
  | nil => exact h
  | cons message messages ih =>
    rintro - t ⟨before, after, u, rfl, rfl⟩ - t' ⟨before', after', u', rfl, rfl⟩
    apply ih
    apply Account.applyAll
    apply Account.messageEnd
    apply Account.applyAll
    apply Account.applyAll
    exact (h.applyAll before).event nofun

end Queries

/-! ## What the loop asks -/

/-- The program asks only quiet queries. -/
abbrev Quiet {α : Type} (p : Act α) : Prop := Prog.Asks Query.IsQuiet (fun _ => True) p

section Asked

theorem ask_quiet {q : Query} (h : q.IsQuiet) : Quiet (ask q) := Prog.Asks.call h

theorem Quiet.bind {α β : Type} {p : Act α} {f : α → Act β} (hp : Quiet p)
    (hf : ∀ a, Quiet (f a)) : Quiet (p >>= f) := Prog.Safe.bind hp fun a _ => hf a

theorem attempt_quiet {α : Type} {answer : Act (Except String α)} (h : Quiet answer) :
    Quiet (attempt answer) := h.bind fun x => Prog.Safe.ofExcept x

theorem optional_quiet {α : Type} {answer : Act (Except String α)} (h : Quiet answer)
    (given : Bool) (default : α) : Quiet (optional given answer default) := by
  unfold optional
  split
  · exact attempt_quiet h
  · trivial

theorem emit_quiet {event : AgentEvent} (h : event.isQuiet = true) : Quiet (emit event) :=
  @ask_quiet (.emit event) h

theorem emitAll_quiet {events : List AgentEvent} (h : ∀ event ∈ events, event.isQuiet = true) :
    Quiet (emitAll events) := by
  induction events with
  | nil => trivial
  | cons event events ih =>
    rw [List.forall_mem_cons] at h
    exact (emit_quiet h.1).bind fun _ => ih h.2

theorem messageEvents_quiet {message : AgentMessage} (h : isProduced message = true) :
    ∀ event ∈ messageEvents message, event.isQuiet = true := by
  intro event hevent
  obtain rfl | rfl : event = .messageStart message ∨ event = .messageEnd message := by
    simpa [messageEvents] using hevent
  · rfl
  · exact h

theorem aborted_quiet : Quiet aborted := @ask_quiet .aborted trivial

theorem Query.IsToolQuery.isQuiet {q : Query} (hq : q.IsToolQuery) : q.IsQuiet := by
  cases q with
  | emit event => cases event <;> first | rfl | cases hq
  | getSteeringMessages | getFollowUpMessages => exact hq
  | _ => trivial

theorem OfToolCall.quiet {α : Type} {p : Act α} (hp : OfToolCall p) : Quiet p :=
  Prog.Asks.weaken hp (fun _ => Query.IsToolQuery.isQuiet) fun _ ha => ha

theorem emitToolResult_quiet (finalized : FinalizedToolCallOutcome) :
    Quiet (emitToolResult finalized) := by
  apply (createToolResultMessage_asks finalized).quiet.bind
  intro message
  exact (emitAll_quiet (messageEvents_quiet rfl)).bind fun _ => trivial

variable (context : AgentContext) (assistantMessage : AssistantMessage) (config : AgentLoopConfig)

theorem sequentialLoop_quiet (calls : List AgentToolCall) :
    Quiet (sequentialLoop context assistantMessage config calls) := by
  induction calls with
  | nil => trivial
  | cons toolCall rest ih =>
    apply (executeSequentially_asks context assistantMessage config toolCall).quiet.bind
    intro finalized
    apply (emitToolResult_quiet finalized).bind
    intro message
    apply aborted_quiet.bind
    intro isAborted
    cases isAborted with
    | true => trivial
    | false => exact ih.bind fun _ => trivial

theorem emitToolResults_quiet (finalized : List FinalizedToolCallOutcome) :
    Quiet (emitToolResults finalized) := by
  induction finalized with
  | nil => trivial
  | cons first rest ih =>
    apply (emitToolResult_quiet first).bind
    intro message
    exact ih.bind fun _ => trivial

theorem executeToolCalls_quiet : Quiet (executeToolCalls context assistantMessage config) := by
  unfold executeToolCalls
  simp only
  split
  · apply (sequentialLoop_quiet context assistantMessage config _).bind
    exact fun _ => trivial
  · have hparallel := Prog.Asks.weaken (parallelLoop_asks context assistantMessage config
      (toolCalls assistantMessage)) (fun _ => Query.IsToolQuery.isQuiet) fun _ ha => ha
    refine Prog.Safe.bind hparallel ?_
    intro entries hentries
    apply (startAll_asks hentries).quiet.bind
    intro finalized
    exact (emitToolResults_quiet finalized).bind fun _ => trivial

theorem finishResponse_quiet (response : Response) (s : Streaming) :
    Quiet (finishResponse response s) := by
  apply Quiet.bind (Prog.Safe.ofExcept _)
  intro finalMessage
  refine (emitAll_quiet ?_).bind fun _ => trivial
  unfold endResponse
  split
  · intro event hevent
    rw [List.mem_singleton.mp hevent]
    rfl
  · exact messageEvents_quiet rfl

theorem consumeEvents_quiet (response : Response) (s : Streaming)
    (events : List AssistantMessageEvent) : Quiet (consumeEvents response s events) := by
  induction events generalizing s with
  | nil =>
    unfold consumeEvents
    split
    · trivial
    · exact finishResponse_quiet response s
  | cons event events ih =>
    cases event with
    | start partialMessage => exact (emit_quiet rfl).bind fun _ => ih _
    | update type partialMessage =>
      unfold consumeEvents
      split
      · exact ih s
      · exact (emit_quiet rfl).bind fun _ => ih _
    | done message => exact finishResponse_quiet response s
    | error error => exact finishResponse_quiet response s

theorem streamAssistantResponse_quiet : Quiet (streamAssistantResponse context config) := by
  have htransform : Quiet (ask (.transformContext context.messages)) := ask_quiet trivial
  apply (optional_quiet htransform _ _).bind
  intro messages
  have hconvert : Quiet (ask (.convertToLlm messages)) := ask_quiet trivial
  apply (attempt_quiet hconvert).bind
  intro llmMessages
  have hkey : Quiet (ask (.getApiKey config.model.provider)) := ask_quiet trivial
  apply (optional_quiet hkey _ _).bind
  intro resolved
  have hstream : ∀ model context reasoning apiKey,
      Quiet (ask (.streamFunction model context reasoning apiKey)) := fun _ _ _ _ => ask_quiet trivial
  apply (attempt_quiet (hstream _ _ _ _)).bind
  intro response
  exact (consumeEvents_quiet response _ _).bind fun _ => trivial

end Asked

/-! ## Rounds -/

/-- What a round leaves: nothing pending where it ends the run, else what the next round is to
announce. -/
def RoundEnd.Accounts (initial : List AgentMessage) : RoundEnd → AgentState → Prop
  | .finished _, t => Account initial t []
  | .next s, t => Account initial t s.pendingMessages

section Rounds
variable {initial : List AgentMessage} {st : AgentState}

theorem getSteeringMessages_holds (given : Bool) (h : Account initial st []) :
    Prog.Holds agentMachine (fun messages t => Account initial t messages)
      (fun _ t => Account initial t []) (optional given (ask .getSteeringMessages) []) st := by
  unfold optional
  split
  · rintro answer t ⟨before, after, u, ⟨rfl, rfl⟩, rfl⟩
    apply Account.applyAll
    have hbefore := h.applyAll before
    unfold AgentState.getSteeringMessages
    split
    · exact hbefore.congr rfl rfl rfl
    · exact hbefore.drainSteering
  · exact h

theorem getFollowUpMessages_holds (given : Bool) (h : Account initial st []) :
    Prog.Holds agentMachine (fun messages t => Account initial t messages)
      (fun _ t => Account initial t []) (optional given (ask .getFollowUpMessages) []) st := by
  unfold optional
  split
  · rintro answer t ⟨before, after, u, ⟨rfl, rfl⟩, rfl⟩
    exact Account.applyAll (h.applyAll before).drainFollowUp after
  · exact h

theorem openTurn_holds {s : LoopState} (h : Account initial st s.pendingMessages) :
    Prog.Holds agentMachine
      (fun s' t => Account initial t s'.pendingMessages) (fun _ t => Account initial t [])
      (openTurn s) st := by
  unfold openTurn
  split
  · exact h
  · rintro - t ⟨before, after, u, rfl, rfl⟩
    have hbefore := h.applyAll before
    exact (@Account.event _ _ _ hbefore .turnStart nofun).applyAll after

theorem injectPending_holds {s : LoopState} (h : Account initial st s.pendingMessages) :
    Prog.Holds agentMachine (fun s' t => s'.pendingMessages = [] ∧ Account initial t [])
      (fun _ t => Account initial t []) (injectPending s) st := by
  have hpending : Account initial st (s.pendingMessages ++ []) := by
    rw [List.append_nil]
    exact h
  exact Prog.Holds.bind (emitAll_pending s.pendingMessages hpending) fun _ t ht => ⟨rfl, ht⟩

theorem streamTurn_quiet (s : LoopState) :
    Prog.Asks Query.IsQuiet (fun streamed => streamed.2.pendingMessages = s.pendingMessages)
      (streamTurn s) :=
  Prog.Safe.bind (streamAssistantResponse_quiet s.currentContext s.config) fun _ _ => rfl

theorem runToolCalls_quiet (message : AssistantMessage) (s : LoopState) :
    Quiet (runToolCalls message s) := by
  unfold runToolCalls
  split
  · trivial
  · exact (executeToolCalls_quiet s.currentContext message s.config).bind fun _ => trivial

theorem afterTurn_holds (message : AssistantMessage) (toolResults : List ToolResultMessage)
    (s : LoopState) (h : Account initial st []) :
    Prog.Holds agentMachine (RoundEnd.Accounts initial) (fun _ t => Account initial t [])
      (afterTurn message toolResults s) st := by
  have hprepare : Quiet (ask (.prepareNextTurn (turnContext message toolResults s))) :=
    ask_quiet trivial
  refine Prog.Holds.bind (quiet_holds (optional_quiet hprepare _ none) h) ?_
  rintro snapshot t₁ ⟨-, h₁⟩
  have hstop : Quiet (ask (.shouldStopAfterTurn
      (turnContext message toolResults (s.applySnapshot snapshot)))) := ask_quiet trivial
  refine Prog.Holds.bind (quiet_holds (optional_quiet hstop _ false) h₁) ?_
  rintro stop t₂ ⟨-, h₂⟩
  cases stop with
  | true =>
    refine Prog.Holds.bind (quiet_holds (emit_quiet rfl) h₂) ?_
    exact fun _ t ht => ht.2
  | false => exact Prog.Holds.bind (getSteeringMessages_holds _ h₂) fun _ t ht => ht

theorem completeTurn_holds (message : AssistantMessage) (s : LoopState)
    (h : Account initial st []) :
    Prog.Holds agentMachine (RoundEnd.Accounts initial) (fun _ t => Account initial t [])
      (completeTurn message s) st := by
  unfold completeTurn
  split
  · have hend : Quiet (emitAll [.turnEnd message [], .agentEnd s.newMessages]) := by
      apply emitAll_quiet
      intro event hevent
      obtain rfl | rfl : event = _ ∨ event = _ := by simpa using hevent
      · rfl
      · rfl
    exact Prog.Holds.bind (quiet_holds hend h) fun _ t ht => ht.2
  · refine Prog.Holds.bind (quiet_holds (runToolCalls_quiet message s) h) ?_
    rintro executed t₁ ⟨-, h₁⟩
    refine Prog.Holds.bind (quiet_holds (emit_quiet rfl) h₁) ?_
    rintro - t₂ ⟨-, h₂⟩
    exact afterTurn_holds message executed.1 executed.2 h₂

theorem runTurn_account (s : LoopState) (h : Account initial st s.pendingMessages) :
    Prog.Holds agentMachine (RoundEnd.Accounts initial) (fun _ t => Account initial t [])
      (runTurn s) st := by
  refine Prog.Holds.bind (openTurn_holds h) ?_
  intro s₁ t₁ h₁
  refine Prog.Holds.bind (injectPending_holds h₁) ?_
  rintro s₂ t₂ ⟨-, h₂⟩
  refine Prog.Holds.bind (quiet_holds (streamTurn_quiet s₂) h₂) ?_
  rintro streamed t₃ ⟨-, h₃⟩
  exact completeTurn_holds streamed.1 streamed.2 h₃

theorem followUp_account (s : LoopState) (h : Account initial st []) :
    Prog.Holds agentMachine (RoundEnd.Accounts initial) (fun _ t => Account initial t [])
      (followUp s) st := by
  refine Prog.Holds.bind (getFollowUpMessages_holds _ h) ?_
  intro messages t ht
  split
  · next hempty =>
    rw [List.isEmpty_iff.mp hempty] at ht
    exact Prog.Holds.bind (quiet_holds (emit_quiet rfl) ht) fun _ _ hend => hend.2
  · exact ht

theorem runRounds_account (fuel : Nat) (s : LoopState) (h : Account initial st s.pendingMessages) :
    Prog.Holds agentMachine (fun r t => r.isSome = true → Account initial t [])
      (fun _ t => Account initial t []) (runRounds fuel s) st := by
  induction fuel generalizing s st with
  | zero => exact nofun
  | succ fuel ih =>
    have hround : Prog.Holds agentMachine (RoundEnd.Accounts initial)
        (fun _ t => Account initial t []) (runRound s) st := by
      unfold runRound
      split
      · exact runTurn_account s h
      · next hidle =>
        -- a round without a turn has nothing pending
        have hnil : s.hasMoreToolCalls = false ∧ s.pendingMessages = [] := by simpa using hidle
        exact followUp_account s (hnil.2 ▸ h)
    refine Prog.Holds.bind hround ?_
    intro r t ht
    cases r with
    | finished newMessages => exact fun _ => ht
    | next s' => exact ih s' ht

theorem runLoop_account (fuel : Nat) (context : AgentContext) (newMessages : List AgentMessage)
    (config : AgentLoopConfig) (h : Account initial st []) :
    Prog.Holds agentMachine (fun r t => r.isSome = true → Account initial t [])
      (fun _ t => Account initial t []) (runLoop fuel context newMessages config) st :=
  Prog.Holds.bind (getSteeringMessages_holds _ h) fun _ _ ht => runRounds_account fuel _ ht

theorem runAgentLoop_account (fuel : Nat) (prompts : List AgentMessage) (context : AgentContext)
    (config : AgentLoopConfig) (h : Account initial st prompts) :
    Prog.Holds agentMachine (fun r t => r.isSome = true → Account initial t [])
      (fun _ t => Account initial t []) (runAgentLoop fuel prompts context config) st := by
  have hevents : Prog.Holds agentMachine (fun _ t => Account initial t [])
      (fun _ t => Account initial t [])
      (emitAll (.agentStart :: .turnStart :: prompts.flatMap messageEvents)) st := by
    rintro - t ⟨before, after, u, rfl, rfl⟩ - t' ⟨before', after', u', rfl, rfl⟩
    have hstart := (@Account.event _ _ _ (h.applyAll before) .agentStart nofun).applyAll after
    have hturn := (@Account.event _ _ _ (hstart.applyAll before') .turnStart nofun).applyAll after'
    apply emitAll_pending prompts
    rw [List.append_nil]
    exact hturn
  exact Prog.Holds.bind hevents fun _ _ ht => runLoop_account fuel _ _ _ ht

theorem runAgentLoopContinue_account (fuel : Nat) (context : AgentContext)
    (config : AgentLoopConfig) (h : Account initial st []) :
    Prog.Holds agentMachine (fun r t => r.isSome = true → Account initial t [])
      (fun _ t => Account initial t []) (runAgentLoopContinue fuel context config) st := by
  unfold runAgentLoopContinue
  split
  · exact h
  · exact h
  · have hstart : Quiet (emitAll [.agentStart, .turnStart]) := by
      apply emitAll_quiet
      intro event hevent
      obtain rfl | rfl : event = _ ∨ event = _ := by simpa using hevent
      · rfl
      · rfl
    exact Prog.Holds.bind (quiet_holds hstart h) fun _ _ ht => runLoop_account fuel _ _ _ ht.2

end Rounds

/-! ## Runs of the agent -/

section Runs
variable {initial : List AgentMessage} {s t : AgentState}

theorem handleRunFailure_quiet (model : Model) (error : String) :
    Quiet (handleRunFailure model error) := by
  apply aborted_quiet.bind
  intro isAborted
  have hnow : Quiet (ask .now) := ask_quiet trivial
  apply hnow.bind
  intro timestamp
  apply emitAll_quiet
  intro event hevent
  simp only [List.mem_cons, List.not_mem_nil, or_false] at hevent
  obtain rfl | rfl | rfl | rfl := hevent <;> rfl

theorem RunWithLifecycle.account {executor : Act (Option (List AgentMessage))}
    (h : RunWithLifecycle executor s t)
    (hexecutor : Prog.Holds agentMachine (fun r t => r.isSome = true → Account initial t [])
      (fun _ t => Account initial t []) executor s.beginRun) : Account initial t [] := by
  cases h with
  | ended hrun => exact ((hexecutor.sound hrun).1 _ rfl rfl).congr rfl rfl rfl
  | failed hrun hfailure =>
    have hthrown := (hexecutor.sound hrun).2 _ rfl
    have hhandled := ((quiet_holds (handleRunFailure_quiet _ _) hthrown).sound hfailure).1 _ rfl
    exact hhandled.2.congr rfl rfl rfl

theorem RunPromptMessages.account {options : AgentOptions} {messages : List AgentMessage}
    {skip : Bool} (h : RunPromptMessages options messages skip s t)
    (hs : Account initial s messages) : Account initial t [] := by
  obtain ⟨fuel, hrun⟩ := h
  apply hrun.account
  exact runAgentLoop_account fuel messages _ _ (hs.congr rfl rfl rfl)

theorem AgentNext.account {options : AgentOptions} {action : AgentAction}
    (h : AgentNext options s action t) (hs : Account initial s []) : Account initial t [] := by
  cases h with
  | host => exact hs.apply _
  | prompt hrun => exact hrun.account (hs.give _)
  | continueSteering _ _ hrun => exact hrun.account hs.drainSteering
  | continueFollowUp _ _ _ hrun => exact hrun.account hs.drainFollowUp
  | continueRun _ _ hrun =>
    obtain ⟨fuel, hrun⟩ := hrun
    apply hrun.account
    exact runAgentLoopContinue_account fuel _ _ (hs.congr rfl rfl rfl)

end Runs

theorem account_create (systemPrompt : String) (model : Model) (thinkingLevel : ThinkingLevel)
    (tools : List AgentTool) (initial : List AgentMessage) (steeringMode followUpMode : QueueMode) :
    Account initial
      (.create systemPrompt model thinkingLevel tools initial steeringMode followUpMode) [] := by
  refine ⟨initial.map fun message => (.initial, message), ⟨?_, ?_⟩, ?_⟩
  · intro origin horigin
    rw [written_labelled]
    cases origin with
    | initial => exact List.append_nil _
    | run => exact (horigin rfl).elim
    | _ => rfl
  · rw [written_labelled, if_neg (by decide)]
    exact nofun
  · rw [List.map_map, List.append_nil]
    exact List.map_id _

/-- Any message but the assistant messages and tool results of the runs occurs as often in
the transcript and the queues as it was given to the agent. -/
theorem Ledger.count {initial : List AgentMessage} {s : AgentState}
    {transcript : List (Origin × AgentMessage)} (h : Ledger initial s transcript)
    {message : AgentMessage} (hmessage : isProduced message = false) :
    (transcript.map Prod.snd).count message + s.steeringQueue.messages.count message +
        s.followUpQueue.messages.count message =
      initial.count message + s.given.count message + s.steered.count message +
        s.followedUp.count message := by
  have hsum : ∀ l : List (Origin × AgentMessage), (l.map Prod.snd).count message =
      (written .initial l).count message + (written .prompt l).count message +
        (written .steering l).count message + (written .followUp l).count message +
          (written .run l).count message := by
    intro l
    induction l with
    | nil => rfl
    | cons entry l ih =>
      obtain ⟨origin, m⟩ := entry
      have hcons : ∀ o, written o ((origin, m) :: l) =
          if origin = o then m :: written o l else written o l := by
        intro o
        unfold written
        by_cases ho : origin = o <;> simp [ho]
      rw [List.map_cons, List.count_cons, ih]
      cases origin <;> simp only [hcons, List.count_cons, reduceCtorEq, if_true, if_false] <;> omega
  have hrun : (written .run transcript).count message = 0 := by
    apply List.count_eq_zero_of_not_mem
    intro hmem
    exact nomatch hmessage.symm.trans (h.produced message hmem)
  have haccount : ∀ origin, origin ≠ .run → (written origin transcript).count message +
      (waiting s origin).count message = (received initial s origin).count message := by
    intro origin horigin
    rw [← List.count_append, h.accounts origin horigin]
  have hinitial := haccount .initial nofun
  have hprompt := haccount .prompt nofun
  have hsteering := haccount .steering nofun
  have hfollowUp := haccount .followUp nofun
  simp only [waiting, received, List.count_nil] at hinitial hprompt hsteering hfollowUp
  rw [hsum]
  omega

/-- After any runs of the agent, its transcript consists of its initial messages, its prompts,
what was taken from each of the queues, and what the runs produced; each of these is there
once, in the order in which the agent was given it, and what was not taken is in its queue. -/
theorem queues_conserve {options : AgentOptions} {systemPrompt : String} {model : Model}
    {thinkingLevel : ThinkingLevel} {tools : List AgentTool} {initial : List AgentMessage}
    {steeringMode followUpMode : QueueMode} {actions : List AgentAction} {s : AgentState}
    (h : Run (AgentNext options)
      (.create systemPrompt model thinkingLevel tools initial steeringMode followUpMode) actions s) :
    (∃ transcript, transcript.map Prod.snd = s.messages ∧ Ledger initial s transcript) ∧
      ∀ message, isProduced message = false →
        s.messages.count message + s.steeringQueue.messages.count message +
            s.followUpQueue.messages.count message =
          initial.count message + s.given.count message + s.steered.count message +
            s.followedUp.count message := by
  have hstart := account_create systemPrompt model thinkingLevel tools initial steeringMode
    followUpMode
  obtain ⟨transcript, hledger, htranscript⟩ : Account initial s [] :=
    h.invariant hstart fun _ _ _ hnext hs => hnext.account hs
  rw [List.append_nil] at htranscript
  refine ⟨⟨transcript, htranscript, hledger⟩, ?_⟩
  intro message hmessage
  rw [← htranscript]
  exact hledger.count hmessage

/-! An agent that is steered, and then prompted: the model answers twice. -/

namespace QueueExample

def steering : AgentMessage := .user { content := .text "wait", timestamp := 1 }

def options : AgentOptions where
  hasTransformContext := false
  hasGetApiKey := false
  hasBeforeToolCall := false
  hasAfterToolCall := false
  hasPrepareNextTurn := false
  toolExecution := .parallel

def idle : AgentState :=
  .create "" { provider := "p", id := "m" } .off [] [] .oneAtATime .oneAtATime

/-- The agent answers as it does; the rest as in the example of a run. -/
def answer : (q : Query) → AgentState → Answer q × AgentState
  | .emit event, s => ((), s.processEvents event)
  | .getSteeringMessages, s => (.ok s.getSteeringMessages.1, s.getSteeringMessages.2)
  | .getFollowUpMessages, s => (.ok s.getFollowUpMessages.1, s.getFollowUpMessages.2)
  | q, s => (RunExample.answer [.done RunExample.reply] q, s)

theorem answers (q : Query) (s : AgentState) : agentMachine q s (answer q s).1 (answer q s).2 := by
  refine ⟨[], [], (answer q s).2, ?_, rfl⟩
  cases q with
  | getSteeringMessages => exact ⟨rfl, rfl⟩
  | getFollowUpMessages => exact ⟨rfl, rfl⟩
  | _ => rfl

def prompted : AgentState :=
  { idle.apply (.steer steering) with given := [RunExample.prompt] }

end QueueExample

theorem queues_conserve_example :
    ∃ s, Run (AgentNext QueueExample.options) QueueExample.idle
        [.host (.steer QueueExample.steering), .prompt [RunExample.prompt],
          .host (.followUp QueueExample.steering)] s ∧
      s.messages =
        [RunExample.prompt, QueueExample.steering, .assistant RunExample.reply] ∧
      ∃ transcript, transcript.map Prod.snd = s.messages ∧ Ledger [] s transcript := by
  have hexec := Prog.runFrom_exec QueueExample.answers false
    (runAgentLoop 3 [RunExample.prompt] QueueExample.prompted.createContextSnapshot
      (QueueExample.prompted.createLoopConfig QueueExample.options)) QueueExample.prompted.beginRun
  have hrun : Run (AgentNext QueueExample.options) QueueExample.idle
      [.host (.steer QueueExample.steering), .prompt [RunExample.prompt],
        .host (.followUp QueueExample.steering)] _ :=
    .cons .host <| .cons (.prompt ⟨3, .ended hexec⟩) <| .cons .host <| .nil _
  exact ⟨_, hrun, rfl, (queues_conserve hrun).1⟩

end PieLab.Agent

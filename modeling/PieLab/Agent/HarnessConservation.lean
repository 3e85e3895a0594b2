import PieLab.Agent.Harness
import PieLab.Agent.QueueConservation

/-
  The harness and its queued messages

  A queued message is taken out of its queue before the listeners and hooks that may
  still throw, and is put back on one of these paths only; while listeners are told
  of a drained queue, an abort may replace the array the messages would be put back
  into; and an abort that throws returns nothing of what it cleared.

  What is proved:
    1. `runAgentLoop_carries` — the loop ends the messages it is given or polls, in
       order, before it polls again or ends.
    2. `harness_conserves` — in a run of careful steps every accepted message is in
       exactly one place, and once the calls have come back it waits in its queue,
       was returned by one abort, or was appended to the session, once.
    3. `hook_loses_message` — a hook throws, and the message of the next turn is gone.
-/

namespace PieLab.Agent

open Lib

/-! ## What a program is to append -/

/-- What is pending once a query is answered. -/
def pendingAfter (pending : List AgentMessage) : (q : Query) → Answer q → List AgentMessage
  | .emit (.messageEnd _), _ => pending.tail
  | .getSteeringMessages, .ok messages => messages
  | .getFollowUpMessages, .ok messages => messages
  | .getSteeringMessages, .error _ => []
  | .getFollowUpMessages, .error _ => []
  | _, _ => pending

/-- The message that ends is the first that is pending, and a queue is polled when none is. -/
def InOrder (pending : List AgentMessage) : Query → Prop
  | .emit (.messageEnd message) => pending = [] ∨ pending.head? = some message
  | .getSteeringMessages => pending = []
  | .getFollowUpMessages => pending = []
  | _ => True

/-- The program ends what is pending in order, throws with nothing pending, and returns as `R` says. -/
def Carries {α : Type} (R : α → List AgentMessage → Prop) : Act α → List AgentMessage → Prop
  | .done a, pending => R a pending
  | .throw _, pending => pending = []
  | .ask q k, pending => InOrder pending q ∧ ∀ a, Carries R (k a) (pendingAfter pending q a)
  | .choose k, pending => ∀ b, Carries R (k b) pending

section Rules
variable {α β : Type} {pending : List AgentMessage}

theorem Carries.bind {R : α → List AgentMessage → Prop} {S : β → List AgentMessage → Prop}
    {p : Act α}
    {f : α → Act β} (hp : Carries R p pending) (hf : ∀ a rest, R a rest → Carries S (f a) rest) :
    Carries S (p >>= f) pending := by
  show Carries S (p.bind f) pending
  induction p generalizing pending with
  | done a => exact hf a pending hp
  | throw e => exact hp
  | ask q k ih => exact ⟨hp.1, fun a => ih a (hp.2 a)⟩
  | choose k ih => exact fun b => ih b (hp b)

theorem Carries.quiet {R : α → Prop} {p : Act α} (hp : Prog.Asks Query.IsQuiet R p) :
    Carries (fun a rest => R a ∧ rest = []) p [] := by
  induction p with
  | done a => exact ⟨hp, rfl⟩
  | throw e => rfl
  | ask q k ih =>
    have hquiet : q.IsQuiet := hp.1 q rfl
    have hnext := fun a => ih a (hp.2 a trivial)
    cases q with
    | emit event =>
      cases event with
      | messageEnd message => exact ⟨.inl rfl, hnext⟩
      | _ => exact ⟨trivial, hnext⟩
    | getSteeringMessages => exact hquiet.elim
    | getFollowUpMessages => exact hquiet.elim
    | _ => exact ⟨trivial, hnext⟩
  | choose k ih => exact fun b => ih b (hp b)

theorem emit_carries {event : AgentEvent} (hevent : ∀ message, event ≠ .messageEnd message) :
    Carries (fun _ rest => rest = pending) (emit event) pending := by
  cases event with
  | messageEnd message => exact absurd rfl (hevent message)
  | _ => exact ⟨trivial, fun _ => rfl⟩

theorem emitAll_carries (messages : List AgentMessage) :
    Carries (fun _ rest => rest = pending) (emitAll (messages.flatMap messageEvents))
      (messages ++ pending) := by
  induction messages with
  | nil => rfl
  | cons message messages ih => exact ⟨trivial, fun _ => ⟨.inr rfl, fun _ => ih⟩⟩

end Rules

section Loop
variable {pending : List AgentMessage}

theorem getSteeringMessages_carries (given : Bool) :
    Carries (fun messages rest => rest = messages) (optional given (ask .getSteeringMessages) []) [] := by
  cases given with
  | false => rfl
  | true =>
    refine ⟨rfl, ?_⟩
    rintro (error | messages)
    · rfl
    · rfl

theorem getFollowUpMessages_carries (given : Bool) :
    Carries (fun messages rest => rest = messages) (optional given (ask .getFollowUpMessages) []) [] := by
  cases given with
  | false => rfl
  | true =>
    refine ⟨rfl, ?_⟩
    rintro (error | messages)
    · rfl
    · rfl

/-- What a round leaves pending. -/
def RoundEnd.Carried : RoundEnd → List AgentMessage → Prop
  | .finished _, rest => rest = []
  | .next s, rest => rest = s.pendingMessages

theorem openTurn_carries (s : LoopState) :
    Carries (fun s' rest => s'.pendingMessages = s.pendingMessages ∧ rest = s.pendingMessages) (openTurn s)
      s.pendingMessages := by
  unfold openTurn
  split
  · exact ⟨rfl, rfl⟩
  · exact ⟨trivial, fun _ => ⟨rfl, rfl⟩⟩

theorem injectPending_carries (s : LoopState) :
    Carries (fun s' rest => s'.pendingMessages = [] ∧ rest = []) (injectPending s) s.pendingMessages := by
  have hall := @emitAll_carries [] s.pendingMessages
  rw [List.append_nil] at hall
  exact hall.bind fun _ rest hrest => ⟨rfl, hrest⟩

theorem afterTurn_carries (message : AssistantMessage) (toolResults : List ToolResultMessage)
    (s : LoopState) : Carries RoundEnd.Carried (afterTurn message toolResults s) [] := by
  have hprepare : Quiet (ask (.prepareNextTurn (turnContext message toolResults s))) :=
    ask_quiet trivial
  refine (Carries.quiet (optional_quiet hprepare _ none)).bind ?_
  rintro snapshot rest ⟨-, rfl⟩
  have hstop : Quiet (ask (.shouldStopAfterTurn
      (turnContext message toolResults (s.applySnapshot snapshot)))) := ask_quiet trivial
  refine (Carries.quiet (optional_quiet hstop _ false)).bind ?_
  rintro stop rest ⟨-, rfl⟩
  cases stop with
  | true => exact (emit_carries (by exact nofun)).bind fun _ rest hrest => hrest
  | false => exact (getSteeringMessages_carries _).bind fun _ rest hrest => hrest

theorem completeTurn_carries (message : AssistantMessage) (s : LoopState) :
    Carries RoundEnd.Carried (completeTurn message s) [] := by
  unfold completeTurn
  split
  · have hend : Quiet (emitAll [.turnEnd message [], .agentEnd s.newMessages]) := by
      apply emitAll_quiet
      intro event hevent
      obtain rfl | rfl : event = _ ∨ event = _ := by simpa using hevent
      · rfl
      · rfl
    exact (Carries.quiet hend).bind fun _ rest hrest => hrest.2
  · refine (Carries.quiet (runToolCalls_quiet message s)).bind ?_
    rintro executed rest ⟨-, rfl⟩
    refine (emit_carries (by exact nofun)).bind ?_
    rintro - rest rfl
    exact afterTurn_carries message executed.1 executed.2

theorem runTurn_carries (s : LoopState) :
    Carries RoundEnd.Carried (runTurn s) s.pendingMessages := by
  refine (openTurn_carries s).bind ?_
  rintro s₁ rest ⟨hpending, rfl⟩
  rw [← hpending]
  refine (injectPending_carries s₁).bind ?_
  rintro s₂ rest ⟨-, rfl⟩
  refine (Carries.quiet (streamTurn_quiet s₂)).bind ?_
  rintro streamed rest ⟨-, rfl⟩
  exact completeTurn_carries streamed.1 streamed.2

theorem followUp_carries (s : LoopState) : Carries RoundEnd.Carried (Agent.followUp s) [] := by
  refine (getFollowUpMessages_carries _).bind ?_
  rintro messages rest rfl
  split
  · next hempty =>
    rw [List.isEmpty_iff.mp hempty]
    exact (emit_carries (by exact nofun)).bind fun _ rest hrest => hrest
  · rfl

theorem runRounds_carries (fuel : Nat) (s : LoopState) :
    Carries (fun r rest => r.isSome = true → rest = []) (runRounds fuel s) s.pendingMessages := by
  induction fuel generalizing s with
  | zero => exact nofun
  | succ fuel ih =>
    have hround : Carries RoundEnd.Carried (runRound s) s.pendingMessages := by
      unfold runRound
      split
      · exact runTurn_carries s
      · next hidle =>
        -- a round without a turn has nothing pending
        have hnil : s.hasMoreToolCalls = false ∧ s.pendingMessages = [] := by simpa using hidle
        rw [hnil.2]
        exact followUp_carries s
    refine hround.bind ?_
    intro r rest hrest
    cases r with
    | finished newMessages => exact fun _ => hrest
    | next s' =>
      rw [show rest = s'.pendingMessages from hrest]
      exact ih s'

/-- The loop announces its prompts, and then what it polls. -/
theorem runAgentLoop_carries (fuel : Nat) (prompts : List AgentMessage) (context : AgentContext)
    (config : AgentLoopConfig) :
    Carries (fun r rest => r.isSome = true → rest = []) (runAgentLoop fuel prompts context config) prompts := by
  have hall := @emitAll_carries [] prompts
  rw [List.append_nil] at hall
  have hstart : Carries (fun _ rest => rest = [])
      (emitAll (.agentStart :: .turnStart :: prompts.flatMap messageEvents)) prompts :=
    ⟨trivial, fun _ => ⟨trivial, fun _ => hall⟩⟩
  refine hstart.bind ?_
  rintro - rest rfl
  refine (getSteeringMessages_carries _).bind ?_
  rintro messages rest rfl
  exact runRounds_carries fuel _

end Loop

/-! ## Where a message is -/

/-- The queued messages a run is to append. -/
def HarnessRun.held (run : HarnessRun) :
    List QueuedMessage := run.carried.filterMap CarriedMessage.queued

/-- What an abort in flight will return. -/
def AbortCall.cleared (call : AbortCall) : List QueuedMessage :=
  if call.inFlight then call.clearedSteer ++ call.clearedFollowUp else []

/-- What a run is to do with the messages it carries. -/
def HarnessRun.Ok (run : HarnessRun) : Prop :=
  match run.stage with
  | .creating | .ended => run.carried = []
  | .takingNextTurn _ | .hooking _ => True
  | .running _ program =>
    Carries (fun r rest => r.isSome = true → rest = []) program (run.carried.map Prod.snd)
  | .polling _ _ _ resume =>
    Carries (fun r rest => r.isSome = true → rest = []) (resume (.ok (run.carried.map Prod.snd)))
      (run.carried.map Prod.snd) ∧
    ∀ error, Carries (fun r rest => r.isSome = true → rest = []) (resume (.error error)) []

namespace Harness

def waiting (s : Harness) : List QueuedMessage := s.steerQueue ++ s.followUpQueue ++ s.nextTurnQueue

def held (s : Harness) : List QueuedMessage := s.runs.flatMap HarnessRun.held

def clearing (s : Harness) : List QueuedMessage := s.aborts.flatMap AbortCall.cleared

def appended (s : Harness) : List QueuedMessage := s.session.filterMap CarriedMessage.queued

/-- Every accepted message is in one place, and nothing else is in any. -/
def Conserved (s : Harness) : Prop :=
  ∀ x, s.waiting.count x + s.held.count x + s.clearing.count x + s.returned.count x + s.appended.count x =
    if s.accepted[x.1]? = some x.2 then 1 else 0

structure Kept (s : Harness) : Prop where
  conserved : s.Conserved
  runs : ∀ run ∈ s.runs, run.Ok

/-! ## Counting -/

theorem count_flatMap_set {α β : Type} [BEq α] {f : β → List α} {l : List β} {i : Nat} {b : β}
    (h : l[i]? = some b) (b' : β) (x : α) :
    ((l.set i b').flatMap f).count x + (f b).count x = (l.flatMap f).count x + (f b').count x := by
  induction l generalizing i with
  | nil => cases h
  | cons c l ih =>
    cases i with
    | zero =>
      obtain rfl := Option.some.inj h
      simp only [List.set_cons_zero, List.flatMap_cons, List.count_append]
      omega
    | succ i =>
      have ih := ih (i := i) h
      simp only [List.set_cons_succ, List.flatMap_cons, List.count_append]
      omega

@[simp] theorem filterMap_carried (messages : List QueuedMessage) :
    (messages.map QueuedMessage.carried).filterMap CarriedMessage.queued = messages := by
  rw [List.filterMap_map]
  exact List.filterMap_some

@[simp] theorem filterMap_plain (messages : List AgentMessage) :
    (messages.map fun message => ((none, message) : CarriedMessage)).filterMap CarriedMessage.queued = [] := by
  rw [List.filterMap_map]
  exact List.filterMap_eq_nil_iff.2 fun _ _ => rfl

theorem splice_append (mode : QueueMode) (queue : List QueuedMessage) :
    (splice mode queue).1 ++ (splice mode queue).2 = queue := by
  cases mode with
  | all => exact List.append_nil _
  | oneAtATime => exact List.take_append_drop 1 queue

theorem count_setQueue (s : Harness) (kind : QueueKind) (queue : List QueuedMessage)
    (x : QueuedMessage) :
    (s.setQueue kind queue).waiting.count x + (s.queueOf kind).count x =
      s.waiting.count x + queue.count x := by
  cases kind with
  | steer =>
    show (queue ++ s.followUpQueue ++ s.nextTurnQueue).count x + s.steerQueue.count x =
      (s.steerQueue ++ s.followUpQueue ++ s.nextTurnQueue).count x + _
    simp only [List.count_append]
    omega
  | followUp =>
    show (s.steerQueue ++ queue ++ s.nextTurnQueue).count x + s.followUpQueue.count x =
      (s.steerQueue ++ s.followUpQueue ++ s.nextTurnQueue).count x + _
    simp only [List.count_append]
    omega

/-! ## The steps of a run -/

section Steps
variable {s t : Harness} {i : Nat} {run run' : HarnessRun}

theorem mem_set {l : List HarnessRun} {a b : HarnessRun} (h : a ∈ l.set i b) : a ∈ l ∨ a = b :=
  List.mem_or_eq_of_mem_set h

theorem Kept.move (h : s.Kept) (hrun : s.runs[i]? = some run) (hruns : t.runs = s.runs.set i run')
    (hok : run'.Ok) (haborts : t.aborts = s.aborts) (hreturned : t.returned = s.returned)
    (haccepted : t.accepted = s.accepted)
    (hcount : ∀ x, t.waiting.count x + run'.held.count x + t.appended.count x =
      s.waiting.count x + run.held.count x + s.appended.count x) : t.Kept where
  conserved x := by
    have hset := count_flatMap_set (f := HarnessRun.held) hrun run' x
    have hbefore := h.conserved x
    have hmoved := hcount x
    unfold held clearing at hbefore ⊢
    rw [hruns, haborts, hreturned, haccepted]
    omega
  runs other hother := by
    rw [hruns] at hother
    obtain hold | rfl := mem_set hother
    · exact h.runs other hold
    · exact hok

theorem Kept.ok (h : s.Kept) (hrun : s.runs[i]? = some run) :
    run.Ok := h.runs run (List.mem_of_getElem? hrun)

theorem Kept.failRun (h : s.Kept) (hrun : s.runs[i]? = some run) (hheld : run.held = []) :
    (s.failRun i run).Kept := by
  apply h.move hrun
  · rfl
  · rfl
  · rfl
  · rfl
  · rfl
  · intro x
    rw [hheld]
    rfl

theorem emitRunFailure_carries (model : Model) (error : String) :
    Carries (fun r rest => r.isSome = true → rest = []) (emitRunFailure model error) [] :=
  ⟨trivial, fun _ => ⟨trivial, fun _ => ⟨trivial, fun _ => ⟨.inl rfl, fun _ => ⟨trivial, fun _ =>
    ⟨trivial, fun _ _ => rfl⟩⟩⟩⟩⟩⟩

theorem Kept.runThrew (h : s.Kept) (hrun : s.runs[i]? = some run) (hheld : run.held = [])
    (failing : Bool)
    (error : String) : (s.runThrew i run failing error).Kept := by
  unfold Harness.runThrew
  split
  · exact h.failRun hrun hheld
  · apply h.move hrun
    · rfl
    · exact emitRunFailure_carries run.model error
    · rfl
    · rfl
    · rfl
    · intro x
      rw [hheld]
      rfl

theorem Kept.takeNextTurn (h : s.Kept) (hrun : s.runs[i]? = some run) (hcarried : run.carried = [])
    (turnState : TurnState) : (s.takeNextTurn i run turnState).Kept := by
  have hheld : run.held = [] := by
    unfold HarnessRun.held
    rw [hcarried]
    rfl
  unfold Harness.takeNextTurn
  split
  · apply h.move hrun
    · rfl
    · trivial
    · rfl
    · rfl
    · rfl
    · intro x
      rw [hheld]
      rfl
  · apply h.move hrun
    · rfl
    · trivial
    · rfl
    · rfl
    · rfl
    · intro x
      show (s.steerQueue ++ s.followUpQueue ++ []).count x +
        ((s.nextTurnQueue.map QueuedMessage.carried).filterMap CarriedMessage.queued).count x + _ = _
      rw [hheld, filterMap_carried]
      unfold waiting
      simp only [List.count_append, List.count_nil]
      rfl

theorem Kept.nextTurnTaken (h : s.Kept) (hrun : s.runs[i]? = some run) (turnState : TurnState)
    (thrown : Option String) : (s.nextTurnTaken i run turnState thrown).Kept := by
  unfold Harness.nextTurnTaken
  cases thrown with
  | some error =>
    apply h.move hrun
    · rfl
    · rfl
    · rfl
    · rfl
    · rfl
    · intro x
      show (s.steerQueue ++ s.followUpQueue ++ (run.held ++ s.nextTurnQueue)).count x + 0 +
        s.appended.count x = s.waiting.count x + run.held.count x + s.appended.count x
      unfold waiting
      simp only [List.count_append]
      omega
  | none =>
    apply h.move hrun
    · rfl
    · trivial
    · rfl
    · rfl
    · rfl
    · intro x
      unfold HarnessRun.held
      rw [List.filterMap_append]
      simp only [List.count_append]
      rfl

theorem Kept.hooked (h : s.Kept) (hrun : s.runs[i]? = some run) (turnState : TurnState)
    (hook : Except String (Option BeforeAgentStartResult))
    (hcareful : (∃ error, hook = .error error) → run.held = []) (fuel : Nat) :
    (s.hooked i run turnState hook fuel).Kept := by
  cases hook with
  | error error => exact h.failRun hrun (hcareful ⟨error, rfl⟩)
  | ok beforeResult =>
    apply h.move hrun
    · rfl
    · exact runAgentLoop_carries fuel _ _ _
    · rfl
    · rfl
    · rfl
    · intro x
      unfold HarnessRun.held
      rw [List.filterMap_append, filterMap_plain, List.append_nil]
      rfl

theorem handleAgentEvent_count (s : Harness) (run : HarnessRun) (event : AgentEvent)
    (x : QueuedMessage)
    (horder : InOrder (run.carried.map Prod.snd) (.emit event)) :
    (s.handleAgentEvent run event).2.held.count x + (s.handleAgentEvent run event).1.appended.count x =
      run.held.count x + s.appended.count x := by
  cases event with
  | messageEnd message =>
    unfold handleAgentEvent HarnessRun.held appended
    cases hcarried : run.carried with
    | nil =>
      simp only [hcarried, List.filterMap_append]
      show _ + (s.session.filterMap CarriedMessage.queued ++ []).count x = _
      rw [List.append_nil]
    | cons first carried =>
      have hmessage : first.2 = message := by
        rw [hcarried] at horder
        obtain hnil | hhead := horder
        · cases hnil
        · exact Option.some.inj hhead
      subst hmessage
      have hsplit : (first :: carried).filterMap CarriedMessage.queued =
          [first].filterMap CarriedMessage.queued ++ carried.filterMap CarriedMessage.queued := by
        rw [← List.filterMap_append]
        rfl
      rw [hsplit]
      show (carried.filterMap CarriedMessage.queued).count x +
        ((s.session ++ [first]).filterMap CarriedMessage.queued).count x = _
      rw [List.filterMap_append, List.count_append, List.count_append]
      omega
  | _ => rfl

theorem handleAgentEvent_eq (s : Harness) (run : HarnessRun) (event : AgentEvent) :
    ∃ phase session carried, s.handleAgentEvent run event =
      ({ s with phase, session }, { run with carried }) ∧
      carried.map Prod.snd = pendingAfter (run.carried.map Prod.snd) (.emit event) () := by
  cases event with
  | messageEnd message =>
    unfold handleAgentEvent
    cases hcarried : run.carried with
    | nil => exact ⟨s.phase, _, run.carried, rfl, by rw [hcarried]; rfl⟩
    | cons first carried => exact ⟨s.phase, _, carried, rfl, rfl⟩
  | agentEnd messages => exact ⟨.idle, s.session, run.carried, rfl, rfl⟩
  | _ => exact ⟨s.phase, s.session, run.carried, rfl, rfl⟩

theorem Kept.handleAgentEvent (h : s.Kept) (hrun : s.runs[i]? = some run) {event : AgentEvent}
    (horder : InOrder (run.carried.map Prod.snd) (.emit event)) {failing : Bool} {program : LoopProgram}
    (hprogram : Carries (fun r rest => r.isSome = true → rest = []) program
      (pendingAfter (run.carried.map Prod.snd) (.emit event) ())) :
    ((s.handleAgentEvent run event).1.setRun i
      { (s.handleAgentEvent run event).2 with stage := .running failing program }).Kept := by
  have hcount := fun x => handleAgentEvent_count s run event x horder
  obtain ⟨phase, session, carried, heq, hcarried⟩ := handleAgentEvent_eq s run event
  rw [heq] at hcount ⊢
  apply h.move hrun
  · rfl
  · show Carries _ program (carried.map Prod.snd)
    rw [hcarried]
    exact hprogram
  · rfl
  · rfl
  · rfl
  · intro x
    have hcount : (carried.filterMap CarriedMessage.queued).count x +
        (session.filterMap CarriedMessage.queued).count x = run.held.count x + s.appended.count x := hcount x
    show s.waiting.count x + (carried.filterMap CarriedMessage.queued).count x +
      (session.filterMap CarriedMessage.queued).count x = _
    omega

theorem Kept.eventThrew (h : s.Kept) (hrun : s.runs[i]? = some run) {event : AgentEvent}
    (horder : InOrder (run.carried.map Prod.snd) (.emit event))
    (hheld : (s.handleAgentEvent run event).2.held = []) (failing : Bool) (error : String) :
    ((s.handleAgentEvent run event).1.runThrew i (s.handleAgentEvent run event).2 failing error).Kept := by
  have hcount := fun x => handleAgentEvent_count s run event x horder
  obtain ⟨phase, session, carried, heq, -⟩ := handleAgentEvent_eq s run event
  rw [heq] at hcount hheld ⊢
  -- the run and the session after the event, before it throws
  have hmoved : ∀ x, s.waiting.count x + 0 + (session.filterMap CarriedMessage.queued).count x =
      s.waiting.count x + run.held.count x + s.appended.count x := by
    intro x
    have hcount : (carried.filterMap CarriedMessage.queued).count x +
        (session.filterMap CarriedMessage.queued).count x = run.held.count x + s.appended.count x := hcount x
    have hnil : carried.filterMap CarriedMessage.queued = [] := hheld
    rw [hnil, List.count_nil] at hcount
    omega
  unfold Harness.runThrew
  split
  · apply h.move hrun
    · rfl
    · rfl
    · rfl
    · rfl
    · rfl
    · exact hmoved
  · apply h.move hrun
    · rfl
    · exact emitRunFailure_carries _ error
    · rfl
    · rfl
    · rfl
    · exact hmoved

theorem held_eq_nil {run : HarnessRun} (h : run.carried.map Prod.snd = []) : run.held = [] := by
  unfold HarnessRun.held
  rw [List.map_eq_nil_iff.1 h]
  rfl

theorem Kept.moveQueue (h : s.Kept) (hrun : s.runs[i]? = some run) (kind : QueueKind)
    {queue : List QueuedMessage} (hok : run'.Ok)
    (hcount : ∀ x, queue.count x + run'.held.count x = (s.queueOf kind).count x + run.held.count x) :
    ((s.setQueue kind queue).setRun i run').Kept := by
  have hqueue := fun x => count_setQueue s kind queue x
  have hmoved : ∀ x, (s.setQueue kind queue).waiting.count x + run'.held.count x + s.appended.count x =
      s.waiting.count x + run.held.count x + s.appended.count x := by
    intro x
    have hqueue := hqueue x
    have hcount := hcount x
    omega
  cases kind with
  | steer => exact h.move (t := (s.setQueue .steer queue).setRun i run') hrun rfl hok rfl rfl rfl hmoved
  | followUp => exact h.move (t := (s.setQueue .followUp queue).setRun i run') hrun rfl hok rfl rfl rfl hmoved

theorem Kept.poll (h : s.Kept) (hrun : s.runs[i]? = some run)
    (hcarried : run.carried.map Prod.snd = [])
    (failing : Bool) (kind : QueueKind) {resume : Except String (List AgentMessage) → LoopProgram}
    (hok : ∀ messages, Carries (fun r rest => r.isSome = true → rest = []) (resume (.ok messages)) messages)
    (herror : ∀ error, Carries (fun r rest => r.isSome = true → rest = []) (resume (.error error)) []) :
    (s.poll i run failing kind resume).Kept := by
  unfold Harness.poll
  simp only
  split
  · apply h.move hrun
    · rfl
    · show Carries _ (resume (.ok [])) (run.carried.map Prod.snd)
      rw [hcarried]
      exact hok []
    · rfl
    · rfl
    · rfl
    · exact fun _ => rfl
  · apply h.moveQueue hrun kind
    · exact ⟨hok _, herror⟩
    · intro x
      show _ + (((splice (s.modeOf kind) (s.queueOf kind)).1.map QueuedMessage.carried).filterMap
        CarriedMessage.queued).count x = _
      have hsplice := congrArg (List.count x) (splice_append (s.modeOf kind) (s.queueOf kind))
      rw [List.count_append] at hsplice
      rw [filterMap_carried, held_eq_nil hcarried, List.count_nil]
      omega

theorem Kept.polled (h : s.Kept) (hrun : s.runs[i]? = some run) (failing : Bool) (kind : QueueKind)
    {arrays : Nat} {resume : Except String (List AgentMessage) → LoopProgram} {thrown : Option String}
    (hok : Carries (fun r rest => r.isSome = true → rest = []) (resume (.ok (run.carried.map Prod.snd)))
      (run.carried.map Prod.snd))
    (herror : ∀ error, Carries (fun r rest => r.isSome = true → rest = []) (resume (.error error)) [])
    (hcareful : thrown ≠ none → arrays = s.arrays) :
    (s.polled i run failing kind arrays resume thrown).Kept := by
  cases thrown with
  | none =>
    apply h.move hrun
    · rfl
    · exact hok
    · rfl
    · rfl
    · rfl
    · exact fun _ => rfl
  | some error =>
    unfold Harness.polled
    simp only [hcareful nofun, if_true]
    apply h.moveQueue hrun kind
    · exact herror error
    · intro x
      show (run.held ++ s.queueOf kind).count x + 0 = _
      rw [List.count_append]
      omega

theorem Kept.answer (h : s.Kept) (hrun : s.runs[i]? = some run) (failing : Bool) {q : Query}
    {resume : Answer q → LoopProgram} {chance : Chance}
    (hcarries : Carries (fun r rest => r.isSome = true → rest = []) (.ask q resume) (run.carried.map Prod.snd))
    (hcareful : ∀ event, q = .emit event → chance.thrown ≠ none →
      (s.handleAgentEvent run event).2.held = []) :
    (s.answer i run failing q resume chance).Kept := by
  obtain ⟨horder, hnext⟩ := hcarries
  have hanswered : pendingAfter (run.carried.map Prod.snd) q (chance.answers q) =
      run.carried.map Prod.snd →
      (s.setRun i
        { run with
          model := modelAfter run.model q (chance.answers q)
          stage := .running failing (resume (chance.answers q)) }).Kept := by
    intro hsame
    have hnext := hnext (chance.answers q)
    rw [hsame] at hnext
    apply h.move hrun
    · rfl
    · exact hnext
    · rfl
    · rfl
    · rfl
    · exact fun _ => rfl
  cases q with
  | emit event =>
    unfold Harness.answer
    simp only
    split
    next error hthrown =>
      apply h.eventThrew hrun horder
      apply hcareful event rfl
      rw [hthrown]
      exact nofun
    next => exact h.handleAgentEvent hrun horder (hnext ())
  | getSteeringMessages =>
    exact h.poll hrun horder failing .steer (fun messages => hnext (.ok messages))
      fun error => hnext (.error error)
  | getFollowUpMessages =>
    exact h.poll hrun horder failing .followUp (fun messages => hnext (.ok messages))
      fun error => hnext (.error error)
  | _ => exact hanswered rfl

/-! ## Careful steps -/

variable (s) in
/-- What throws finds no queued message in the hands of its run; a queue update that throws finds the
array its messages came from. -/
def CarefulRun (run : HarnessRun) (chance : Chance) : Prop :=
  match run.stage with
  | .hooking _ => (∃ error, chance.hook = .error error) → run.held = []
  | .running _ (.ask (.emit event) _) =>
    chance.thrown ≠ none → (s.handleAgentEvent run event).2.held = []
  | .polling _ _ arrays _ => chance.thrown ≠ none → arrays = s.arrays
  | _ => True

variable (s) in
/-- And an abort that throws has cleared nothing. -/
def Careful : HarnessEvent → Prop
  | .abortEnd j thrown => ∀ call, s.aborts[j]? = some call → thrown = true → call.cleared = []
  | .advance i chance => ∀ run, s.runs[i]? = some run → s.CarefulRun run chance
  | _ => True

theorem Kept.runProgram (h : s.Kept) (hrun : s.runs[i]? = some run) {failing : Bool}
    {chance : Chance}
    {program : LoopProgram} (hstage : run.stage = .running failing program)
    (hcareful : s.CarefulRun run chance) : (s.runProgram i run failing chance program).Kept := by
  have hok := h.ok hrun
  unfold HarnessRun.Ok at hok
  unfold CarefulRun at hcareful
  rw [hstage] at hok hcareful
  cases program with
  | done result =>
    cases result with
    | none => exact h
    | some newMessages =>
      have hcarried := hok rfl
      unfold Harness.runProgram
      simp only
      split
      · apply h.move hrun
        · rfl
        · exact List.map_eq_nil_iff.1 hcarried
        · rfl
        · rfl
        · rfl
        · exact fun _ => rfl
      · exact h.failRun hrun (held_eq_nil hcarried)
  | throw error => exact h.runThrew hrun (held_eq_nil hok) failing error
  | choose resume =>
    apply h.move hrun
    · rfl
    · exact hok chance.side
    · rfl
    · rfl
    · rfl
    · exact fun _ => rfl
  | ask q resume =>
    apply h.answer hrun failing hok
    rintro event rfl hthrown
    exact hcareful hthrown

theorem Kept.advance (h : s.Kept) (hrun : s.runs[i]? = some run) {chance : Chance}
    (hcareful : s.CarefulRun run chance) : (s.advance i run chance).Kept := by
  have hok := h.ok hrun
  unfold Harness.advance
  cases hstage : run.stage with
  | creating =>
    unfold HarnessRun.Ok at hok
    rw [hstage] at hok
    cases hturn : chance.turnState with
    | error error => exact h.failRun hrun (held_eq_nil (by rw [hok]; rfl))
    | ok turnState => exact h.takeNextTurn hrun hok turnState
  | takingNextTurn turnState => exact h.nextTurnTaken hrun turnState chance.thrown
  | hooking turnState =>
    unfold CarefulRun at hcareful
    rw [hstage] at hcareful
    exact h.hooked hrun turnState chance.hook hcareful chance.fuel
  | running failing program => exact h.runProgram hrun hstage hcareful
  | polling failing kind arrays resume =>
    unfold HarnessRun.Ok at hok
    unfold CarefulRun at hcareful
    rw [hstage] at hok hcareful
    exact h.polled hrun failing kind hok.1 hok.2 hcareful
  | ended => exact h

theorem Kept.accept (h : s.Kept) {m : AgentMessage}
    (hwaiting : ∀ x, t.waiting.count x = s.waiting.count x + [(s.number, m)].count x)
    (haccepted : t.accepted = s.accepted ++ [m]) (hruns : t.runs = s.runs)
    (haborts : t.aborts = s.aborts) (hreturned : t.returned = s.returned)
    (hsession : t.session = s.session) : t.Kept where
  conserved x := by
    have hbefore := h.conserved x
    have hnew : (if (s.accepted ++ [m])[x.1]? = some x.2 then 1 else 0) =
        (if s.accepted[x.1]? = some x.2 then 1 else 0) + [(s.number, m)].count x := by
      by_cases hx : x = (s.number, m)
      · subst hx
        simp [number]
      · have hcount : [(s.number, m)].count x = 0 := List.count_eq_zero.2 fun hmem =>
          hx (List.mem_singleton.1 hmem)
        rw [hcount, Nat.add_zero]
        by_cases hlt : x.1 < s.accepted.length
        · rw [List.getElem?_append_left hlt]
        · have hnone : s.accepted[x.1]? ≠ some x.2 := by
            rw [List.getElem?_eq_none (by omega)]
            exact nofun
          rw [if_neg hnone, if_neg]
          intro hsome
          rw [List.getElem?_append_right (by omega)] at hsome
          obtain ⟨hzero, hmessage⟩ := List.getElem?_eq_some_iff.1 hsome
          apply hx
          rw [List.length_singleton] at hzero
          have hnumber : x.1 = s.number := by
            unfold number
            omega
          rw [List.getElem_singleton] at hmessage
          exact Prod.ext hnumber hmessage.symm
    unfold held clearing appended at hbefore ⊢
    rw [haccepted, hruns, haborts, hreturned, hsession, hnew, hwaiting x]
    omega
  runs := by
    rw [hruns]
    exact h.runs

theorem Kept.abort (h : s.Kept) : (s.step .abort).Kept where
  conserved x := by
    have hbefore := h.conserved x
    have hwaiting : (s.step .abort).waiting = s.nextTurnQueue := rfl
    have hclearing : (s.step .abort).clearing =
        s.clearing ++ (s.steerQueue ++ s.followUpQueue) := by
      show (s.aborts ++ [_]).flatMap AbortCall.cleared = _
      rw [List.flatMap_append]
      show _ ++ (_ ++ []) = _
      rw [List.append_nil]
      rfl
    rw [hwaiting, hclearing]
    unfold waiting at hbefore
    simp only [List.count_append] at hbefore ⊢
    show _ + s.held.count x + _ + s.returned.count x + s.appended.count x = _
    show _ = if s.accepted[x.1]? = some x.2 then 1 else 0
    omega
  runs := h.runs

theorem Kept.abortEnd (h : s.Kept) {j : Nat} {thrown : Bool}
    (hcareful : ∀ call, s.aborts[j]? = some call → thrown = true → call.cleared = []) :
    (s.step (.abortEnd j thrown)).Kept := by
  simp only [Harness.step]
  cases hcall : s.aborts[j]? with
  | none => exact h
  | some call =>
    refine ⟨?_, h.runs⟩
    intro x
    have hbefore := h.conserved x
    have hset := count_flatMap_set (f := AbortCall.cleared) hcall { call with inFlight := false } x
    have hended : ({ call with inFlight := false } : AbortCall).cleared = [] := rfl
    have hreturned : (if call.inFlight && !thrown then call.clearedSteer ++ call.clearedFollowUp else []) =
        call.cleared := by
      cases thrown with
      | true =>
        rw [hcareful call hcall rfl, Bool.not_true, Bool.and_false]
        rfl
      | false =>
        rw [Bool.not_false, Bool.and_true]
        rfl
    rw [hended, List.count_nil] at hset
    simp only [hreturned]
    unfold clearing at hbefore ⊢
    show s.waiting.count x + s.held.count x + _ + (s.returned ++ call.cleared).count x + s.appended.count x = _
    rw [List.count_append]
    show _ = if s.accepted[x.1]? = some x.2 then 1 else 0
    simp only
    omega

theorem Kept.step (h : s.Kept) {e : HarnessEvent} (hcareful : s.Careful e) : (s.step e).Kept := by
  cases e with
  | prompt message model =>
    unfold Harness.step
    simp only
    split
    · refine ⟨?_, ?_⟩
      · intro x
        have hbefore := h.conserved x
        let opened : HarnessRun := { prompt := message, model, stage := .creating, carried := [] }
        have hheld : (s.runs ++ [opened]).flatMap HarnessRun.held = s.held := by
          rw [List.flatMap_append]
          exact List.append_nil _
        show s.waiting.count x + ((s.runs ++ [opened]).flatMap HarnessRun.held).count x + s.clearing.count x +
          s.returned.count x + s.appended.count x = _
        rw [hheld]
        exact hbefore
      · intro run hrun
        obtain hold | hnew := List.mem_append.1 hrun
        · exact h.runs run hold
        · rw [List.mem_singleton.1 hnew]
          rfl
    · exact h
  | steer message | followUp message =>
    unfold Harness.step
    simp only
    split
    · exact h
    · apply h.accept (m := message)
      · intro x
        unfold waiting
        simp only [List.count_append]
        omega
      all_goals rfl
  | nextTurn message =>
    apply h.accept (m := message)
    · intro x
      unfold Harness.step waiting
      simp only [List.count_append]
      omega
    all_goals rfl
  | abort => exact h.abort
  | abortEnd j thrown => exact h.abortEnd hcareful
  | advance i chance =>
    simp only [Harness.step]
    cases hrun : s.runs[i]? with
    | none => exact h
    | some run => exact h.advance hrun (hcareful run hrun)

end Steps

/-! ## Runs -/

theorem create_kept (steeringMode followUpMode : QueueMode) :
    (create steeringMode followUpMode).Kept :=
  ⟨fun _ => rfl, fun _ hrun => absurd hrun List.not_mem_nil⟩

/-- Every call has come back. -/
structure AtRest (s : Harness) : Prop where
  runs : ∀ run ∈ s.runs, run.stage = .ended
  aborts : ∀ call ∈ s.aborts, call.inFlight = false

theorem Kept.atRest {s : Harness} (h : s.Kept) (hrest : s.AtRest) :
    s.held = [] ∧ s.clearing = [] := by
  constructor
  · apply List.flatMap_eq_nil_iff.2
    intro run hrun
    have hok := h.runs run hrun
    unfold HarnessRun.Ok at hok
    rw [hrest.runs run hrun] at hok
    exact held_eq_nil (by rw [hok]; rfl)
  · apply List.flatMap_eq_nil_iff.2
    intro call hcall
    unfold AbortCall.cleared
    rw [hrest.aborts call hcall]
    rfl

/-- In a run of careful steps every accepted message is in one place. Once all calls have come back it
is in its queue, was returned by one abort, or was appended to the session once. -/
theorem harness_conserves (steeringMode followUpMode : QueueMode) {events : List HarnessEvent}
    {s : Harness}
    (hrun : Run (fun s e t => HarnessNext s e t ∧ s.Careful e) (create steeringMode followUpMode) events s) :
    s.Conserved ∧ (s.AtRest → ∀ n message, s.accepted[n]? = some message →
      s.waiting.count (n, message) + s.returned.count (n, message) + s.appended.count (n, message) = 1) := by
  have hkept : s.Kept := by
    apply hrun.invariant (create_kept steeringMode followUpMode)
    rintro s e t ⟨rfl, hcareful⟩ h
    exact h.step hcareful
  refine ⟨hkept.conserved, ?_⟩
  intro hrest n message haccepted
  obtain ⟨hheld, hclearing⟩ := hkept.atRest hrest
  have hplace := hkept.conserved (n, message)
  rw [hheld, hclearing, List.count_nil, if_pos haccepted] at hplace
  omega

/-! A message is queued for the next turn, and the harness is prompted. -/

namespace HarnessExample

def queued : AgentMessage := .user { content := .text "wait", timestamp := 1 }

def model : Model := { provider := "p", id := "m" }

/-- Nothing throws; the loop is answered as in the example of a run. -/
def calm : Chance where
  turnState := .ok
    { messages := []
      systemPrompt := ""
      model := model
      thinkingLevel := .off
      activeTools := [] }
  hook := .ok none
  answers := RunExample.answer [.done RunExample.reply]
  side := false
  thrown := none
  fuel := 3

theorem calm_careful (s : Harness) (i : Nat) : s.Careful (.advance i calm) := by
  intro run _
  unfold CarefulRun
  split
  · exact fun ⟨error, herror⟩ => absurd (show Except.ok none = Except.error error from herror) nofun
  · exact fun h => absurd rfl h
  · exact fun h => absurd rfl h
  · trivial

/-- The calls, and then `n` steps of the run. -/
def events (n : Nat) : List HarnessEvent :=
  [.nextTurn queued, .prompt RunExample.prompt model] ++ List.replicate n (.advance 0 calm)

def final (n : Nat) : Harness := (events n).foldl Harness.step (create .all .oneAtATime)

theorem final_run (n : Nat) :
    Run (fun s e t => HarnessNext s e t ∧ s.Careful e) (create .all .oneAtATime) (events n) (final n) := by
  have hsteps : ∀ (s : Harness) (n : Nat),
      Run (fun s e t => HarnessNext s e t ∧ s.Careful e) s (List.replicate n (.advance 0 calm))
        ((List.replicate n (HarnessEvent.advance 0 calm)).foldl Harness.step s) := by
    intro s n
    induction n generalizing s with
    | zero => exact .nil s
    | succ n ih => exact .cons ⟨rfl, calm_careful s 0⟩ (ih _)
  exact .cons ⟨rfl, trivial⟩ (.cons ⟨rfl, trivial⟩ (hsteps _ n))

theorem final_atRest : (final 21).AtRest := by
  constructor
  · intro run hrun
    have hruns : (final 21).runs =
        [{ prompt := RunExample.prompt, model, stage := .ended, carried := [] }] := rfl
    rw [hruns] at hrun
    rw [List.mem_singleton.1 hrun]
  · exact nofun

/-- The messages of the next turn are taken, and the hook throws. -/
def failing : List HarnessEvent :=
  events 2 ++ [.advance 0 { calm with hook := .error "thrown" }]

def failed : Harness := failing.foldl Harness.step (create .all .oneAtATime)

theorem failed_atRest : failed.AtRest := by
  constructor
  · intro run hrun
    have hruns : failed.runs =
        [{ prompt := RunExample.prompt, model, stage := .ended, carried := [] }] := rfl
    rw [hruns] at hrun
    rw [List.mem_singleton.1 hrun]
  · exact nofun

end HarnessExample

/-- The message is appended once. -/
theorem harness_conserves_example :
    (HarnessExample.final 21).AtRest ∧
    (HarnessExample.final 21).appended.count (0, HarnessExample.queued) = 1 := by
  have hrest := HarnessExample.final_atRest
  have hplace := (harness_conserves .all .oneAtATime (HarnessExample.final_run 21)).2 hrest 0
    HarnessExample.queued rfl
  have hwaiting : (HarnessExample.final 21).waiting = [] := rfl
  have hreturned : (HarnessExample.final 21).returned = [] := rfl
  rw [hwaiting, hreturned, List.count_nil] at hplace
  refine ⟨hrest, ?_⟩
  omega

/-- The message of the next turn is taken, and the hook throws. -/
theorem hook_loses_message :
    ¬ ∀ (steeringMode followUpMode : QueueMode) (events : List HarnessEvent) (s : Harness),
        Run HarnessNext (create steeringMode followUpMode) events s → s.AtRest →
        ∀ n message, s.accepted[n]? = some message →
          s.waiting.count (n, message) + s.returned.count (n, message) + s.appended.count (n, message) = 1 := by
  intro h
  have hrun : Run HarnessNext (create .all .oneAtATime) HarnessExample.failing HarnessExample.failed :=
    .cons rfl <| .cons rfl <| .cons rfl <| .cons rfl <| .cons rfl <| .nil _
  have hplace := h _ _ _ _ hrun HarnessExample.failed_atRest 0 HarnessExample.queued rfl
  have hwaiting : HarnessExample.failed.waiting = [] := rfl
  have hreturned : HarnessExample.failed.returned = [] := rfl
  have happended : HarnessExample.failed.appended = [] := rfl
  rw [hwaiting, hreturned, happended, List.count_nil] at hplace
  exact absurd hplace nofun

end Harness

end PieLab.Agent

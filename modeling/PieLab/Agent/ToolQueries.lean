import PieLab.Agent.ToolCalls
import PieLab.Lib.StatefulRuns

/-
  What a tool call asks

  A call asks its tool, the hooks around it, the abort signal and the clock, and emits
  `tool_execution` events. It announces no message: its result is announced when it has
  ended.

  What is proved:
    1. `executeSequentially_asks`, `parallelLoop_asks`, `all_asks` — the calls of a batch
       ask such queries only, one after the other and side by side.
-/

namespace PieLab.Agent

open Lib

/-- The queries of a tool call, up to its `tool_execution_end`. -/
def Query.IsToolQuery : Query → Prop
  | .emit event => event.isToolExecution = true
  | .aborted | .now | .prepareArguments .. | .validateToolArguments .. | .beforeToolCall _
  | .execute .. | .afterToolCall _ => True
  | _ => False

/-- The program asks only queries of a tool call. -/
abbrev OfToolCall {α : Type} (p : Act α) : Prop := Prog.Asks Query.IsToolQuery (fun _ => True) p

theorem ask_ofToolCall {q : Query} (h : q.IsToolQuery) : OfToolCall (ask q) := Prog.Asks.call h

theorem OfToolCall.bind {α β : Type} {p : Act α} {f : α → Act β} (hp : OfToolCall p)
    (hf : ∀ a, OfToolCall (f a)) : OfToolCall (p >>= f) := Prog.Safe.bind hp fun a _ => hf a

theorem OfToolCall.handle {α : Type} {p : Act α} {h : String → Act α} (hp : OfToolCall p)
    (hh : ∀ e, OfToolCall (h e)) : OfToolCall (tryCatch p h) := Prog.Safe.handle hp fun e _ => hh e

theorem attempt_ofToolCall {α : Type} {answer : Act (Except String α)} (h : OfToolCall answer) :
    OfToolCall (attempt answer) := h.bind fun x => Prog.Safe.ofExcept x

theorem emit_ofToolCall {event : AgentEvent} (h : event.isToolExecution = true) :
    OfToolCall (emit event) := @ask_ofToolCall (.emit event) h

theorem emitAll_ofToolCall {events : List AgentEvent}
    (h : ∀ event ∈ events, event.isToolExecution = true) : OfToolCall (emitAll events) := by
  induction events with
  | nil => trivial
  | cons event events ih =>
    rw [List.forall_mem_cons] at h
    exact (emit_ofToolCall h.1).bind fun _ => ih h.2

theorem aborted_ofToolCall : OfToolCall aborted := @ask_ofToolCall .aborted trivial

section Calls
variable (context : AgentContext) (assistantMessage : AssistantMessage) (config : AgentLoopConfig)

/-! ## One call -/

theorem prepareToolCallArguments_asks (tool : AgentTool) (toolCall : AgentToolCall) :
    OfToolCall (prepareToolCallArguments tool toolCall) := by
  unfold prepareToolCallArguments
  split
  · have hask : OfToolCall (ask (.prepareArguments tool toolCall.arguments)) :=
      ask_ofToolCall trivial
    exact (attempt_ofToolCall hask).bind fun _ => trivial
  · trivial

theorem askBeforeToolCall_asks (toolCall : AgentToolCall) (args : ToolArguments) :
    OfToolCall (askBeforeToolCall context assistantMessage config toolCall args) := by
  unfold askBeforeToolCall
  split
  · have hask : OfToolCall (ask (.beforeToolCall { assistantMessage, toolCall, args, context })) :=
      ask_ofToolCall trivial
    exact (attempt_ofToolCall hask).bind fun _ => aborted_ofToolCall.bind fun _ => trivial
  · trivial

theorem prepareToolCall_asks (toolCall : AgentToolCall) :
    OfToolCall (prepareToolCall context assistantMessage config toolCall) := by
  unfold prepareToolCall
  split
  · trivial
  · next tool _ =>
    apply OfToolCall.handle
    · apply (prepareToolCallArguments_asks tool toolCall).bind
      intro preparedToolCall
      have hask : OfToolCall (ask (.validateToolArguments tool preparedToolCall)) :=
        ask_ofToolCall trivial
      apply (attempt_ofToolCall hask).bind
      intro validatedArgs
      apply (askBeforeToolCall_asks context assistantMessage config toolCall validatedArgs).bind
      intro outcome
      cases outcome with
      | some outcome => trivial
      | none => exact aborted_ofToolCall.bind fun _ => trivial
    · exact fun _ => trivial

theorem executePreparedToolCall_asks (prepared : PreparedToolCall) :
    OfToolCall (executePreparedToolCall prepared) := by
  have hask : OfToolCall (ask (.execute prepared.tool prepared.toolCall.id prepared.args)) :=
    ask_ofToolCall trivial
  apply hask.bind
  intro executed
  refine (emitAll_ofToolCall ?_).bind fun _ => trivial
  intro event hevent
  obtain ⟨partialResult, -, rfl⟩ := List.mem_map.mp hevent
  rfl

theorem runPreparedToolCall_asks (prepared : PreparedToolCall) :
    OfToolCall (runPreparedToolCall context assistantMessage config prepared) := by
  apply (executePreparedToolCall_asks prepared).bind
  intro executed
  refine OfToolCall.bind ?_ fun _ => trivial
  unfold askAfterToolCall
  split
  · have hask : OfToolCall (ask (.afterToolCall
        { assistantMessage, toolCall := prepared.toolCall, args := prepared.args, context
          result := executed.result, isError := executed.isError })) := ask_ofToolCall trivial
    exact OfToolCall.handle ((attempt_ofToolCall hask).bind fun _ => trivial) fun _ => trivial
  · trivial

theorem createToolResultMessage_asks (finalized : FinalizedToolCallOutcome) :
    OfToolCall (createToolResultMessage finalized) := by
  have hnow : OfToolCall (ask .now) := ask_ofToolCall trivial
  exact hnow.bind fun _ => trivial

/-! ## One after the other, and side by side -/

theorem executeSequentially_asks (toolCall : AgentToolCall) :
    OfToolCall (executeSequentially context assistantMessage config toolCall) := by
  have hrun : OfToolCall (runToolCall context assistantMessage config toolCall) := by
    apply (prepareToolCall_asks context assistantMessage config toolCall).bind
    intro preparation
    cases preparation with
    | immediate outcome => trivial
    | prepared prepared => exact runPreparedToolCall_asks context assistantMessage config prepared
  apply (emit_ofToolCall rfl).bind
  intro _
  exact hrun.bind fun _ => (emit_ofToolCall rfl).bind fun _ => trivial

theorem startToolCall_asks (toolCall : AgentToolCall) :
    Prog.Asks Query.IsToolQuery (fun entry => OfToolCall entry.start)
      (startToolCall context assistantMessage config toolCall) := by
  refine Prog.Safe.bind (emit_ofToolCall rfl) fun _ _ => ?_
  refine Prog.Safe.bind (prepareToolCall_asks context assistantMessage config toolCall) ?_
  intro preparation _
  cases preparation with
  | immediate outcome => exact Prog.Safe.bind (emit_ofToolCall rfl) fun _ _ => trivial
  | prepared prepared =>
    apply (runPreparedToolCall_asks context assistantMessage config prepared).bind
    intro finalized
    exact (emit_ofToolCall rfl).bind fun _ => trivial

theorem parallelLoop_asks (calls : List AgentToolCall) :
    Prog.Asks Query.IsToolQuery (fun entries => ∀ entry ∈ entries, OfToolCall entry.start)
      (parallelLoop context assistantMessage config calls) := by
  induction calls with
  | nil => exact fun _ hentry => nomatch hentry
  | cons toolCall rest ih =>
    refine Prog.Safe.bind (startToolCall_asks context assistantMessage config toolCall) ?_
    intro entry hentry
    refine Prog.Safe.bind aborted_ofToolCall fun isAborted _ => ?_
    cases isAborted with
    | true =>
      intro entry' hmem
      rw [List.mem_singleton.mp hmem]
      exact hentry
    | false =>
      refine Prog.Safe.bind ih fun entries hentries => ?_
      exact List.forall_mem_cons.mpr ⟨hentry, hentries⟩

end Calls

theorem all_asks {α : Type} {ps : List (Act α)} (h : ∀ p ∈ ps, OfToolCall p) :
    OfToolCall (Prog.all ps) := by
  have hall : List.Forall₂ (fun p (_ : Unit) => OfToolCall p) ps (ps.map fun _ => ()) := by
    rw [List.forall₂_map_right_iff, List.forall₂_same]
    exact h
  exact (Prog.Safe.all hall).mono (fun _ _ => trivial) fun _ _ => trivial

theorem startAll_asks {entries : List FinalizedToolCallEntry}
    (h : ∀ entry ∈ entries, OfToolCall entry.start) :
    OfToolCall (Prog.all (entries.map FinalizedToolCallEntry.start)) := by
  apply all_asks
  intro p hp
  obtain ⟨entry, hentry, rfl⟩ := List.mem_map.mp hp
  exact h entry hentry

end PieLab.Agent

import PieLab.Ai.TransformMessages
import PieLab.Lib.Transcript

/-
  Tool calls and their results in a replayed conversation

  Every provider wants each tool call answered by one result before the next message,
  and no result without its call. The transformation is read here through the calls and
  the result ids of its messages, under the ids they are replayed with.

  What is proved:
    1. `transformMessages_marks` — the transformation is the pass of the library on the
       calls and results of the conversation.
    2. `transformMessages_paired_iff` — exactly the conversations that are replayed with
       every call paired.
    3. `transformMessages_orphan` — the result of an aborted turn is replayed without its
       call.
-/

open PieLab.Lib PieLab.Lib.Mark

namespace PieLab.Ai

/-- What the pairing looks at: the calls of a turn, the id of a result. -/
def Message.mark : Message → Mark String
  | .user _ => .message
  | .assistant m => .turn (failed m) ((toolCalls m).map ToolCall.id)
  | .toolResult m => .answer m.toolCallId

section Ids
variable (model : Model) (normalizeToolCallId : Option Normalizer)

/-- The id a call is replayed with: another model's ids are normalized. -/
def replayedId (source : AssistantMessage) (id : String) : String :=
  match isSameModel source model, normalizeToolCallId with
  | false, some normalize => normalize id model source
  | _, _ => id

def replayedCalls (m : AssistantMessage) : List String :=
  (toolCalls m).map fun toolCall => replayedId model normalizeToolCallId m toolCall.id

/-- The call's id with its new one, if that is another. -/
def renamedCall (m : AssistantMessage) (toolCall : ToolCall) : Option (String × String) :=
  if replayedId model normalizeToolCallId m toolCall.id = toolCall.id then none
  else some (toolCall.id, replayedId model normalizeToolCallId m toolCall.id)

/-- The ids a message renames. -/
def renamings : Message → List (String × String)
  | .assistant m => (toolCalls m).filterMap (renamedCall model normalizeToolCallId m)
  | _ => []

/-- The id a result is replayed with: the last one its id was renamed to before. -/
def resultId (history : List Message) (toolCallId : String) : String :=
  match (history.flatMap (renamings model normalizeToolCallId)).reverse.lookup toolCallId with
  | some normalizedId => if normalizedId = "" then toolCallId else normalizedId
  | none => toolCallId

/-- A message of the conversation under the ids it is replayed with. -/
def replayedMark (history : List Message) : Message → Mark String
  | .user _ => .message
  | .assistant m => .turn (failed m) (replayedCalls model normalizeToolCallId m)
  | .toolResult m => .answer (resultId model normalizeToolCallId history m.toolCallId)

/-- The calls and results of a conversation under the ids they are replayed with. -/
def transcript (history : List Message) : List Message → List (Mark String)
  | [] => []
  | msg :: rest =>
    replayedMark model normalizeToolCallId history msg :: transcript (history ++ [msg]) rest

/-- The calls of a turn that is replayed. -/
def keptCalls : Message → Option (List String)
  | .assistant m =>
    if failed m then none else some (replayedCalls model normalizeToolCallId m)
  | _ => none

/-- The turns that did not fail are replayed with their calls, each call has one result
before the next message, and each result has a call before it. -/
structure CallsPaired (messages output : List Message) : Prop where
  kept : (output.map Message.mark).filterMap kept? =
    messages.filterMap (keptCalls model normalizeToolCallId)
  paired : Paired (output.map Message.mark)

end Ids

/-! ## The first pass -/

/-- The map holds what was renamed last. -/
def Holds (renamed : List (String × String)) (ids : ToolCallIdMap) : Prop :=
  ∀ id, ids.get? id = renamed.reverse.lookup id

theorem holds_empty : Holds [] .empty := by
  intro id
  rfl

theorem Holds.set {renamed : List (String × String)} {ids : ToolCallIdMap} (h : Holds renamed ids)
    (id newId : String) : Holds (renamed ++ [(id, newId)]) (ids.set id newId) := by
  intro id'
  rw [OrderedMap.get?_set, List.reverse_append, List.reverse_singleton, List.singleton_append,
    List.lookup_cons, h id']
  by_cases hid : id = id'
  · simp [hid]
  · have hid' : (id' == id) = false := by simpa using fun e => hid e.symm
    simp [hid, hid']

section FirstPass
variable {model : Model} {normalizeToolCallId : Option Normalizer} {renamed : List (String × String)}
  {ids : ToolCallIdMap}

@[simp] theorem dropSignature_id (same : Bool) (toolCall : ToolCall) :
    (dropSignature same toolCall).id = toolCall.id := by
  unfold dropSignature
  split <;> rfl

theorem transformToolCall_spec (source : AssistantMessage) (toolCall : ToolCall)
    (h : Holds renamed ids) :
    (transformToolCall model normalizeToolCallId source toolCall ids).1.id =
        replayedId model normalizeToolCallId source toolCall.id ∧
      Holds (renamed ++ (renamedCall model normalizeToolCallId source toolCall).toList)
        (transformToolCall model normalizeToolCallId source toolCall ids).2 := by
  unfold transformToolCall renamedCall replayedId
  cases isSameModel source model with
  | true => simpa using h
  | false =>
    cases normalizeToolCallId with
    | none => simpa using h
    | some normalize =>
      by_cases hnew : normalize toolCall.id model source = toolCall.id
      · simpa [hnew] using h
      · simpa [hnew] using h.set toolCall.id (normalize toolCall.id model source)

theorem toolCall?_transformThinking (same : Bool) (block : ThinkingContent) :
    (transformThinking same block).filterMap toolCall? = [] := by
  unfold transformThinking
  repeat' split
  all_goals rfl

theorem toolCall?_transformText (same : Bool) (block : TextContent) :
    toolCall? (transformText same block) = none := by
  unfold transformText
  split <;> rfl

theorem transformContent_spec (source : AssistantMessage) (content : List AssistantBlock)
    (h : Holds renamed ids) :
    ((transformContent model normalizeToolCallId source content ids).1.filterMap toolCall?).map
          ToolCall.id =
        (content.filterMap toolCall?).map
          (fun toolCall => replayedId model normalizeToolCallId source toolCall.id) ∧
      Holds (renamed ++ (content.filterMap toolCall?).filterMap
          (renamedCall model normalizeToolCallId source))
        (transformContent model normalizeToolCallId source content ids).2 := by
  induction content generalizing renamed ids with
  | nil => simpa [transformContent] using h
  | cons block rest ih =>
    cases block with
    | text block =>
      have htext := toolCall?_transformText (isSameModel source model) block
      have hblock : toolCall? (.text block) = none := rfl
      simpa [transformContent, htext, hblock] using ih h
    | thinking block =>
      have hthinking := toolCall?_transformThinking (isSameModel source model) block
      have hblock : toolCall? (.thinking block) = none := rfl
      simpa [transformContent, hthinking, hblock] using ih h
    | toolCall toolCall =>
      have hcall := @transformToolCall_spec model normalizeToolCallId _ _ source toolCall h
      have hrest := ih hcall.2
      refine ⟨?_, ?_⟩
      · simp [transformContent, toolCall?, hcall.1, hrest.1]
      · have hlist : ∀ calls : List ToolCall,
            (toolCall :: calls).filterMap (renamedCall model normalizeToolCallId source) =
              (renamedCall model normalizeToolCallId source toolCall).toList ++
                calls.filterMap (renamedCall model normalizeToolCallId source) := by
          intro calls
          cases hr : renamedCall model normalizeToolCallId source toolCall <;>
            simp [hr]
        show Holds (renamed ++ (toolCall :: rest.filterMap toolCall?).filterMap _) _
        rw [hlist, ← List.append_assoc]
        exact hrest.2

theorem transformMessage_spec {history : List Message} (msg : Message)
    (h : Holds (history.flatMap (renamings model normalizeToolCallId)) ids) :
    (transformMessage model normalizeToolCallId msg ids).1.mark =
        replayedMark model normalizeToolCallId history msg ∧
      Holds ((history ++ [msg]).flatMap (renamings model normalizeToolCallId))
        (transformMessage model normalizeToolCallId msg ids).2 := by
  rw [List.flatMap_append, List.flatMap_singleton]
  cases msg with
  | user m => simpa [transformMessage, Message.mark, replayedMark, renamings] using h
  | assistant m =>
    have hcontent := @transformContent_spec model normalizeToolCallId _ _ m m.content h
    refine ⟨?_, hcontent.2⟩
    show Mark.turn (failed m) _ = Mark.turn (failed m) _
    rw [Mark.turn.injEq]
    exact ⟨rfl, hcontent.1⟩
  | toolResult m =>
    refine ⟨?_, by simpa [renamings, transformMessage] using h⟩
    show Mark.answer (mappedId ids m.toolCallId) = Mark.answer _
    exact congrArg (fun id : Option String => Mark.answer (match id with
      | some normalizedId => if normalizedId = "" then m.toolCallId else normalizedId
      | none => m.toolCallId)) (h m.toolCallId)

theorem transformAll_marks {history : List Message} (messages : List Message)
    (h : Holds (history.flatMap (renamings model normalizeToolCallId)) ids) :
    (transformAll model normalizeToolCallId messages ids).map Message.mark =
      transcript model normalizeToolCallId history messages := by
  induction messages generalizing history ids with
  | nil => rfl
  | cons msg rest ih =>
    have hmsg := transformMessage_spec msg h
    show Message.mark (transformMessage model normalizeToolCallId msg ids).1 ::
        (transformAll model normalizeToolCallId rest
          (transformMessage model normalizeToolCallId msg ids).2).map Message.mark = _
    rw [hmsg.1, ih hmsg.2, transcript]

theorem downgradeMessage_user (m : UserMessage) :
    ∃ m', downgradeMessage (.user m) = .user m' := by
  obtain ⟨content, timestamp⟩ := m
  cases content with
  | text text => exact ⟨_, rfl⟩
  | blocks content => exact ⟨_, rfl⟩

theorem renamings_downgrade (msg : Message) :
    renamings model normalizeToolCallId (downgradeMessage msg) =
      renamings model normalizeToolCallId msg := by
  cases msg with
  | user m =>
    obtain ⟨m', hm'⟩ := downgradeMessage_user m
    rw [hm']
    rfl
  | assistant m => rfl
  | toolResult m => rfl

theorem replayedMark_downgrade (history : List Message) (msg : Message) :
    replayedMark model normalizeToolCallId (history.map downgradeMessage) (downgradeMessage msg) =
      replayedMark model normalizeToolCallId history msg := by
  cases msg with
  | user m =>
    obtain ⟨m', hm'⟩ := downgradeMessage_user m
    rw [hm']
    rfl
  | assistant m => rfl
  | toolResult m =>
    show Mark.answer (resultId model normalizeToolCallId (history.map downgradeMessage) _) =
      Mark.answer (resultId model normalizeToolCallId history m.toolCallId)
    rw [resultId, resultId, List.flatMap_map]
    simp only [renamings_downgrade]

theorem transcript_downgrade (history messages : List Message) :
    transcript model normalizeToolCallId (history.map downgradeMessage)
        (messages.map downgradeMessage) =
      transcript model normalizeToolCallId history messages := by
  induction messages generalizing history with
  | nil => rfl
  | cons msg rest ih =>
    have hrest := ih (history ++ [msg])
    rw [List.map_append, List.map_singleton] at hrest
    rw [List.map_cons, transcript, transcript, replayedMark_downgrade, hrest]

end FirstPass

/-! ## The second pass -/

section SecondPass
variable {clock : Nat → Int}

/-- The ids of the pending calls. -/
def Replay.pending (s : Replay) : List String := s.pendingToolCalls.map ToolCall.id

theorem pushSynthetic_marks (existing : StringSet) (calls : List ToolCall) (result : List Message) :
    (pushSynthetic clock existing calls result).map Message.mark =
      result.map Message.mark ++ (missing (calls.map ToolCall.id) existing).map .answer := by
  induction calls generalizing result with
  | nil => simp [pushSynthetic]
  | cons toolCall rest ih =>
    by_cases h : toolCall.id ∈ existing
    · simp [pushSynthetic, h, ih, missing]
    · simp [pushSynthetic, h, ih, missing, Message.mark, syntheticResult]

theorem insertSyntheticToolResults_marks (s : Replay) :
    (insertSyntheticToolResults clock s).result.map Message.mark =
        s.result.map Message.mark ++ (missing s.pending s.existingToolResultIds).map .answer ∧
      (insertSyntheticToolResults clock s).pendingToolCalls = [] := by
  unfold insertSyntheticToolResults
  split
  · exact ⟨pushSynthetic_marks _ _ _, rfl⟩
  · rename_i h
    have hpending : s.pendingToolCalls = [] := List.eq_nil_of_length_eq_zero (by omega)
    exact ⟨by simp [Replay.pending, hpending], hpending⟩

theorem trackToolCalls_spec {m : AssistantMessage} {s : Replay} (h : s.pendingToolCalls = []) :
    (trackToolCalls m s).result = s.result ∧
      ∀ l, complete (trackToolCalls m s).pending (trackToolCalls m s).existingToolResultIds l =
        complete ((toolCalls m).map ToolCall.id) [] l := by
  unfold trackToolCalls
  split
  · exact ⟨rfl, fun _ => rfl⟩
  · rename_i hcalls
    have hnil : toolCalls m = [] := List.eq_nil_of_length_eq_zero (by omega)
    refine ⟨rfl, ?_⟩
    intro l
    rw [hnil, Replay.pending, h]
    exact complete_congr (by simp) l

theorem foldl_replayMessage_marks (s : Replay) (l : List Message) :
    (insertSyntheticToolResults clock (l.foldl (replayMessage clock) s)).result.map Message.mark =
      s.result.map Message.mark ++
        complete s.pending s.existingToolResultIds (l.map Message.mark) := by
  induction l generalizing s with
  | nil => simpa [complete] using (insertSyntheticToolResults_marks s).1
  | cons msg rest ih =>
    have hinsert := @insertSyntheticToolResults_marks clock s
    -- nothing is pending after the results are inserted
    have hdone : ∀ (t : Replay) (l : List (Mark String)), t.pendingToolCalls = [] →
        complete t.pending t.existingToolResultIds l = complete [] [] l := by
      intro t l ht
      rw [Replay.pending, ht]
      exact complete_congr (by simp) l
    rw [List.foldl_cons, ih, List.map_cons]
    cases msg with
    | user m =>
      rw [hdone (replayMessage clock s (.user m)) _ hinsert.2]
      simp [replayMessage, hinsert.1, Message.mark, complete]
    | assistant m =>
      cases hfailed : failed m with
      | true =>
        simp [replayMessage, hfailed, hinsert.1, hdone _ _ hinsert.2, Message.mark, complete]
      | false =>
        have htrack := trackToolCalls_spec (m := m) hinsert.2
        have hcomplete := htrack.2
        simp only [Replay.pending] at hcomplete
        simp [replayMessage, hfailed, hinsert.1, htrack.1, hcomplete, Replay.pending,
          Message.mark, complete]
    | toolResult m =>
      have hseen : ∀ id ∈ s.pending, (id ∈ s.existingToolResultIds.add m.toolCallId ↔
          id ∈ s.existingToolResultIds ++ [m.toolCallId]) := by
        intro id _
        unfold StringSet.add
        split <;> simp_all
      have hcongr := complete_congr hseen (rest.map Message.mark)
      simp only [Replay.pending] at hcongr
      simp [replayMessage, hcongr, Replay.pending, Message.mark, complete]

end SecondPass

/-! ## The replayed conversation -/

section Replayed
variable (clock : Nat → Int) (messages : List Message) (model : Model)
  (normalizeToolCallId : Option Normalizer)

/-- The calls and results of what is replayed. -/
theorem transformMessages_marks :
    (transformMessages clock messages model normalizeToolCallId).map Message.mark =
      complete [] [] (transcript model normalizeToolCallId [] messages) := by
  have hreplay : ∀ l : List Message,
      (replay clock l).map Message.mark = complete [] [] (l.map Message.mark) :=
    fun l => foldl_replayMessage_marks ⟨[], [], []⟩ l
  unfold transformMessages downgradeUnsupportedImages
  rw [hreplay, @transformAll_marks _ _ _ [] _ holds_empty]
  split
  · rfl
  · rw [← transcript_downgrade [] messages, List.map_nil]

theorem transcript_kept (history : List Message) :
    (transcript model normalizeToolCallId history messages).filterMap kept? =
      messages.filterMap (keptCalls model normalizeToolCallId) := by
  induction messages generalizing history with
  | nil => rfl
  | cons msg rest ih =>
    have hhead : kept? (replayedMark model normalizeToolCallId history msg) =
        keptCalls model normalizeToolCallId msg := by
      cases msg with
      | user m => rfl
      | assistant m => cases hfailed : failed m <;> simp [replayedMark, keptCalls, kept?, hfailed]
      | toolResult m => rfl
    rw [transcript, List.filterMap_cons, List.filterMap_cons, hhead, ih]

/-- The conversations that are replayed with every call paired. -/
theorem transformMessages_paired_iff :
    CallsPaired model normalizeToolCallId messages
        (transformMessages clock messages model normalizeToolCallId) ↔
      Matched (transcript model normalizeToolCallId [] messages) := by
  have hmarks := transformMessages_marks clock messages model normalizeToolCallId
  have hkept : ((transformMessages clock messages model normalizeToolCallId).map
      Message.mark).filterMap kept? = messages.filterMap (keptCalls model normalizeToolCallId) := by
    rw [hmarks, turns_complete, transcript_kept]
  rw [← complete_paired_iff, ← hmarks]
  exact ⟨fun h => h.paired, fun h => ⟨hkept, h⟩⟩

end Replayed

/-! ## A result without its call -/

def claude : Model where
  id := "claude-sonnet-4.6"
  api := "anthropic-messages"
  provider := "github-copilot"
  input := ["text", "image"]

def readCall : ToolCall where
  id := "call_1"
  name := "read"
  arguments := [("path", .str "a.txt")]
  thoughtSignature := none

def abortedTurn : AssistantMessage where
  content := [.toolCall readCall]
  api := "anthropic-messages"
  provider := "github-copilot"
  model := "claude-sonnet-4.6"
  stopReason := .aborted
  errorMessage := none
  timestamp := 2

def readResult : ToolResultMessage where
  toolCallId := "call_1"
  toolName := "read"
  content := [.text { text := "done", textSignature := none }]
  isError := false
  timestamp := 3

/-- A question, an aborted turn with the result of its call, and the next question. -/
def abortedConversation : List Message :=
  [.user { content := .text "read it", timestamp := 1 }, .assistant abortedTurn,
    .toolResult readResult, .user { content := .text "go on", timestamp := 4 }]

/-- The turn is dropped and its result is not. -/
theorem transformMessages_orphan :
    ¬ CallsPaired claude none abortedConversation
      (transformMessages (fun _ => 0) abortedConversation claude none) := by
  intro h
  have hrun : (transformMessages (fun _ => 0) abortedConversation claude none).map Message.mark =
      [.message] ++ .answer "call_1" :: [.message] := by decide
  obtain ⟨failed, calls, hmem, _⟩ := h.paired.owned _ _ _ hrun
  simp at hmem

end PieLab.Ai

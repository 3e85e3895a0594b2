import PieLab.Messages
import PieLab.Lib.OrderedMap

/-
  Messages replayed to a model

  What a conversation is turned into before it is sent to a model, which may be another
  one than the model that answered before: images the model cannot read become
  placeholders, thinking becomes text, tool calls get ids the model accepts, failed turns
  are left out, and calls without a result get one.

  Correspondence (TypeScript ↔ Lean):
    packages/ai/src/types.ts                    ↔ `TextContent` … `Model`
    packages/ai/src/api/transform-messages.ts   ↔ `transformMessages`

  A provider's `normalizeToolCallId` is a parameter, and so is the clock: the `n`-th
  message of the result, when it is made here, carries the time `clock n`. Fields that
  the transformation only carries along (`usage`, `diagnostics`, `details`, the ids of
  the response) are left out.
-/

open PieLab.Lib

namespace PieLab.Ai

/-! ## Messages -/

structure TextContent where
  text : String
  textSignature : Option String
  deriving DecidableEq, Repr

structure ImageContent where
  data : String
  mimeType : String
  deriving DecidableEq, Repr

structure ThinkingContent where
  thinking : String
  thinkingSignature : Option String
  redacted : Bool
  deriving DecidableEq, Repr

structure ToolCall where
  id : String
  name : String
  arguments : ToolArguments
  thoughtSignature : Option String
  deriving DecidableEq, Repr

/-- `TextContent | ImageContent` -/
inductive ContentBlock where
  | text (block : TextContent)
  | image (block : ImageContent)
  deriving DecidableEq, Repr

/-- `string | (TextContent | ImageContent)[]` -/
inductive UserContent where
  | text (text : String)
  | blocks (content : List ContentBlock)
  deriving DecidableEq, Repr

/-- `TextContent | ThinkingContent | ToolCall` -/
inductive AssistantBlock where
  | text (block : TextContent)
  | thinking (block : ThinkingContent)
  | toolCall (block : ToolCall)
  deriving DecidableEq, Repr

structure UserMessage where
  content : UserContent
  timestamp : Int
  deriving DecidableEq, Repr

structure AssistantMessage where
  content : List AssistantBlock
  api : String
  provider : String
  model : String
  stopReason : StopReason
  errorMessage : Option String
  timestamp : Int
  deriving DecidableEq, Repr

structure ToolResultMessage where
  toolCallId : String
  toolName : String
  content : List ContentBlock
  isError : Bool
  timestamp : Int
  deriving DecidableEq, Repr

inductive Message where
  | user (m : UserMessage)
  | assistant (m : AssistantMessage)
  | toolResult (m : ToolResultMessage)
  deriving DecidableEq, Repr

/-- What is read of a model: who serves it, and the inputs it takes. -/
structure Model where
  id : String
  api : String
  provider : String
  input : List String
  deriving DecidableEq, Repr

/-- `normalizeToolCallId`, when the provider gives one. -/
abbrev Normalizer := String → Model → AssistantMessage → String

/-! ## Images -/

def nonVisionUserImagePlaceholder : String := "(image omitted: model does not support images)"

def nonVisionToolImagePlaceholder : String :=
  "(tool image omitted: model does not support images)"

/-- The loop, with `previousWasPlaceholder`. -/
def replaceImages (placeholder : String) : Bool → List ContentBlock → List ContentBlock
  | _, [] => []
  | previousWasPlaceholder, .image _ :: rest =>
    if previousWasPlaceholder then replaceImages placeholder true rest
    else .text { text := placeholder, textSignature := none } :: replaceImages placeholder true rest
  | _, .text block :: rest =>
    .text block :: replaceImages placeholder (block.text == placeholder) rest

def replaceImagesWithPlaceholder (content : List ContentBlock) (placeholder : String) :
    List ContentBlock := replaceImages placeholder false content

def downgradeMessage : Message → Message
  | .user m =>
    match m.content with
    | .blocks content => .user { m with
        content := .blocks (replaceImagesWithPlaceholder content nonVisionUserImagePlaceholder) }
    | .text _ => .user m
  | .toolResult m => .toolResult { m with
      content := replaceImagesWithPlaceholder m.content nonVisionToolImagePlaceholder }
  | .assistant m => .assistant m

def downgradeUnsupportedImages (messages : List Message) (model : Model) : List Message :=
  if model.input.contains "image" then messages else messages.map downgradeMessage

/-! ## The first pass -/

def isSameModel (m : AssistantMessage) (model : Model) : Bool :=
  m.provider == model.provider && m.api == model.api && m.model == model.id

/-- Redacted thinking is opaque and only valid for the same model. Empty thinking is
kept only with the signature the same model needs for a replay. -/
def transformThinking (same : Bool) (block : ThinkingContent) : List AssistantBlock :=
  if block.redacted then if same then [.thinking block] else []
  else if same && truthyText block.thinkingSignature then [.thinking block]
  else if block.thinking == "" || jsTrim block.thinking == "" then []
  else if same then [.thinking block]
  else [.text { text := block.thinking, textSignature := none }]

def transformText (same : Bool) (block : TextContent) : AssistantBlock :=
  if same then .text block else .text { text := block.text, textSignature := none }

/-- The call without the signature of another model. -/
def dropSignature (same : Bool) (toolCall : ToolCall) : ToolCall :=
  if !same && truthyText toolCall.thoughtSignature then { toolCall with thoughtSignature := none }
  else toolCall

/-- The map from the ids of the history to normalized ones. -/
abbrev ToolCallIdMap := OrderedMap String String

section FirstPass
variable (model : Model) (normalizeToolCallId : Option Normalizer)

def transformToolCall (source : AssistantMessage) (toolCall : ToolCall) (ids : ToolCallIdMap) :
    ToolCall × ToolCallIdMap :=
  let normalizedToolCall := dropSignature (isSameModel source model) toolCall
  match isSameModel source model, normalizeToolCallId with
  | false, some normalize =>
    let normalizedId := normalize toolCall.id model source
    if normalizedId = toolCall.id then (normalizedToolCall, ids)
    else ({ normalizedToolCall with id := normalizedId }, ids.set toolCall.id normalizedId)
  | _, _ => (normalizedToolCall, ids)

/-- The `flatMap` over the blocks of an assistant message. -/
def transformContent (source : AssistantMessage) :
    List AssistantBlock → ToolCallIdMap → List AssistantBlock × ToolCallIdMap
  | [], ids => ([], ids)
  | .thinking block :: rest, ids =>
    let (content, ids) := transformContent source rest ids
    (transformThinking (isSameModel source model) block ++ content, ids)
  | .text block :: rest, ids =>
    let (content, ids) := transformContent source rest ids
    (transformText (isSameModel source model) block :: content, ids)
  | .toolCall toolCall :: rest, ids =>
    let (toolCall, ids) := transformToolCall model normalizeToolCallId source toolCall ids
    let (content, ids) := transformContent source rest ids
    (.toolCall toolCall :: content, ids)

/-- `toolCallIdMap.get(id)`, when it gives a text that is not empty. -/
def mappedId (ids : ToolCallIdMap) (toolCallId : String) : String :=
  match ids.get? toolCallId with
  | some normalizedId => if normalizedId = "" then toolCallId else normalizedId
  | none => toolCallId

def transformMessage (msg : Message) (ids : ToolCallIdMap) : Message × ToolCallIdMap :=
  match msg with
  | .user m => (.user m, ids)
  | .toolResult m => (.toolResult { m with toolCallId := mappedId ids m.toolCallId }, ids)
  | .assistant m =>
    let (content, ids) := transformContent model normalizeToolCallId m m.content ids
    (.assistant { m with content }, ids)

/-- The `map` over the messages. -/
def transformAll : List Message → ToolCallIdMap → List Message
  | [], _ => []
  | msg :: rest, ids =>
    let (msg, ids) := transformMessage model normalizeToolCallId msg ids
    msg :: transformAll rest ids

end FirstPass

/-! ## The second pass -/

/-- Errored and aborted turns are incomplete and are not replayed. -/
def failed (m : AssistantMessage) : Bool :=
  m.stopReason == .error || m.stopReason == .aborted

def toolCall? : AssistantBlock → Option ToolCall
  | .toolCall toolCall => some toolCall
  | _ => none

/-- The tool calls of a message. -/
def toolCalls (m : AssistantMessage) : List ToolCall := m.content.filterMap toolCall?

/-- The variables of the loop. -/
structure Replay where
  result : List Message
  pendingToolCalls : List ToolCall
  existingToolResultIds : StringSet

def syntheticResult (toolCall : ToolCall) (timestamp : Int) : ToolResultMessage where
  toolCallId := toolCall.id
  toolName := toolCall.name
  content := [.text { text := "No result provided", textSignature := none }]
  isError := true
  timestamp := timestamp

section SecondPass
variable (clock : Nat → Int)

/-- The loop over `pendingToolCalls`. -/
def pushSynthetic (existing : StringSet) : List ToolCall → List Message → List Message
  | [], result => result
  | toolCall :: rest, result =>
    if toolCall.id ∈ existing then pushSynthetic existing rest result
    else
      let synthetic := syntheticResult toolCall (clock result.length)
      pushSynthetic existing rest (result ++ [.toolResult synthetic])

def insertSyntheticToolResults (s : Replay) : Replay :=
  if s.pendingToolCalls.length > 0 then
    { result := pushSynthetic clock s.existingToolResultIds s.pendingToolCalls s.result
      pendingToolCalls := []
      existingToolResultIds := [] }
  else s

/-- Note the calls of a turn that is replayed. -/
def trackToolCalls (m : AssistantMessage) (s : Replay) : Replay :=
  if (toolCalls m).length > 0 then
    { s with pendingToolCalls := toolCalls m, existingToolResultIds := [] }
  else s

def replayMessage (s : Replay) : Message → Replay
  | .assistant m =>
    let s := insertSyntheticToolResults clock s
    if failed m then s
    else
      let s := trackToolCalls m s
      { s with result := s.result ++ [.assistant m] }
  | .toolResult m =>
    { s with
      existingToolResultIds := s.existingToolResultIds.add m.toolCallId
      result := s.result ++ [.toolResult m] }
  | .user m =>
    let s := insertSyntheticToolResults clock s
    { s with result := s.result ++ [.user m] }

/-- The loop, and the results for calls the conversation ends with. -/
def replay (transformed : List Message) : List Message :=
  let s := transformed.foldl (replayMessage clock) ⟨[], [], []⟩
  (insertSyntheticToolResults clock s).result

def transformMessages (messages : List Message) (model : Model)
    (normalizeToolCallId : Option Normalizer) : List Message :=
  let imageAwareMessages := downgradeUnsupportedImages messages model
  replay clock (transformAll model normalizeToolCallId imageAwareMessages .empty)

end SecondPass

end PieLab.Ai

import PieLab.Server.ChatApi
import PieLab.Messages

/-
  An answer sent back by the client

  The response to a chat completion request holds the text and the tool calls of the
  assistant message. The client appends the message of the response and one message for
  every tool call, and sends the list back; it becomes the context of the next request.

  What is proved:
    1. `resent_context`: the context has the text of the message and a tool result for
       every tool message, with the id that was answered.
    2. `resent_survives_iff`: it is the conversation that was held exactly when the
       message had no tool calls.
    3. `tool_call_dropped`: the call that a tool result answers is not there.

  Correspondence (TypeScript ↔ Lean): the names of
  apps/server/src/chat-completions-api.ts. A message comes with what `Date.now()` returns
  when it is converted. The arguments of a call are sent as their JSON text, which nothing
  reads back.
-/

namespace PieLab.OpenAi

/-! ## The response -/

structure ToolCall where
  id : String
  name : String
  arguments : ToolArguments
  deriving DecidableEq

def toolCall? : AssistantBlock → Option ToolCall
  | .toolCall id name arguments => some { id, name, arguments }
  | _ => none

def toolCalls (message : AssistantMessage) : List ToolCall := message.content.filterMap toolCall?

def assistantText (message : AssistantMessage) : String :=
  join "" (message.content.filterMap AssistantBlock.text?)

def assistantToolCalls (message : AssistantMessage) : List Json :=
  (toolCalls message).map fun toolCall => .object [
    ("id", .string toolCall.id),
    ("type", .string "function"),
    ("function", .object [
      ("name", .string toolCall.name),
      ("arguments", .string (stringifyArguments toolCall.arguments))])]

def toOpenAIFinishReason (message : AssistantMessage) : String :=
  match message.stopReason with
  | .length => "length"
  | .toolUse => "tool_calls"
  | _ => "stop"

def natJson (n : Nat) : Json := .number (some n)

def toOpenAIUsage (message : AssistantMessage) : Json :=
  let usage := message.usage
  let promptTokens := usage.input + usage.cacheRead + usage.cacheWrite
  .object [
    ("prompt_tokens", natJson promptTokens),
    ("completion_tokens", natJson usage.output),
    ("total_tokens", natJson (promptTokens + usage.output)),
    ("prompt_tokens_details", .object [("cached_tokens", natJson usage.cacheRead)])]

structure ResponseOptions where
  requestId : String
  assistant : AssistantMessage
  routingMode : String
  resolvedProvider : String
  resolvedModel : String
  requestedModel : String

/-- `choices[0].message` -/
def responseMessage (assistant : AssistantMessage) : Json :=
  let text := assistantText assistant
  let toolCalls := assistantToolCalls assistant
  .object ([("role", .string "assistant"),
    ("content", if toolCalls ≠ [] ∧ text = "" then .null else .string text)] ++
    if toolCalls ≠ [] then [("tool_calls", .array toolCalls)] else [])

def createChatCompletionResponse (options : ResponseOptions) : Json :=
  .object [
    ("id", .string options.requestId),
    ("object", .string "chat.completion"),
    ("created", .number (some ((options.assistant.timestamp / 1000 : Int) : ℚ))),
    ("model", .string (options.resolvedProvider ++ "/" ++ options.resolvedModel)),
    ("choices", .array [.object [
      ("index", natJson 0),
      ("message", responseMessage options.assistant),
      ("finish_reason", .string (toOpenAIFinishReason options.assistant))]]),
    ("usage", toOpenAIUsage options.assistant),
    ("pi_adk", .object [
      ("requested_model", .string options.requestedModel),
      ("routing_mode", .string options.routingMode),
      ("resolved_provider", .string options.resolvedProvider),
      ("resolved_model", .string options.resolvedModel)])]

/-- What the client appends. -/
def choiceMessage (response : Json) : Option Json :=
  match response.get? "choices" with
  | some (.array (choice :: _)) => choice.get? "message"
  | _ => none

/-! ## The context -/

def dataUrlToImageContent (value : String) : Option UserBlock :=
  (dataUrlMimeType value).map fun mimeType =>
    .image (String.ofList (value.toList.drop ("data:".length + mimeType.length + ";base64,".length))) mimeType

def contentBlock (part : Json) : Option UserBlock :=
  match part.get? "type", part.get? "text" with
  | some (.string "text"), some (.string text) => some (.text text)
  | some (.string "image_url"), _ =>
    match getImageUrl (part.get? "image_url") with
    | none | some "" => none
    | some imageUrl => (dataUrlToImageContent imageUrl).or (some (.text ("[image:" ++ imageUrl ++ "]")))
  | _, _ => none

def openAiContentToPiUserContent : Option Json → UserContent
  | some (.string content) => .text content
  | some (.array content) =>
    let blocks := content.filterMap contentBlock
    if blocks = [] then .text "" else .blocks blocks
  | _ => .text ""

def blockText : UserBlock → String
  | .text text => text
  | .image _ mimeType => "[image:" ++ mimeType ++ "]"

def openAiContentToText (content : Option Json) : String :=
  match openAiContentToPiUserContent content with
  | .text text => text
  | .blocks blocks => join "\n" (blocks.map blockText)

structure Context where
  systemPrompt : Option String
  messages : List Message

/-- `typeof value === "string" ? value : other` -/
def textOr (other : String) : Option Json → String
  | some (.string value) => value
  | _ => other

/-- `message.role`, a string in every message of a request that is accepted -/
def role (message : Json) : String := textOr "" (message.get? "role")

def isSystem (message : Json) : Bool := role message = "system" || role message = "developer"

def externalAssistant (message : Json) (now : Int) : AssistantMessage where
  content := [.text (openAiContentToText (message.get? "content"))]
  provider := "external"
  model := "external"
  usage := { input := 0, output := 0, cacheRead := 0, cacheWrite := 0, totalTokens := 0 }
  stopReason := .stop
  errorMessage := none
  timestamp := now

def toolResult (message : Json) (now : Int) : ToolResultMessage where
  toolCallId := textOr "tool" (message.get? "tool_call_id")
  toolName := textOr "tool" (message.get? "name")
  content := [.text (openAiContentToText (message.get? "content"))]
  isError := false
  timestamp := now

def contextMessage (message : Json) (now : Int) : Option Message :=
  if isSystem message then none
  else if role message = "assistant" then some (.assistant (externalAssistant message now))
  else if role message = "tool" then some (.toolResult (toolResult message now))
  else some (.user { content := openAiContentToPiUserContent (message.get? "content"), timestamp := now })

def systemPromptText (message : Json) : Option String :=
  let text := openAiContentToText (message.get? "content")
  if isSystem message ∧ text ≠ "" then some text else none

def openAiMessagesToContext (messages : List (Json × Int)) : Context :=
  let systemPrompts := messages.filterMap fun message => systemPromptText message.1
  { systemPrompt := if systemPrompts = [] then none else some (join "\n\n" systemPrompts)
    messages := messages.filterMap fun message => contextMessage message.1 message.2 }

/-! ## What comes back -/

theorem choiceMessage_response (options : ResponseOptions) :
    choiceMessage (createChatCompletionResponse options) = some (responseMessage options.assistant) := rfl

theorem responseMessage_role (assistant : AssistantMessage) :
    role (responseMessage assistant) = "assistant" := rfl

/-- An empty text beside tool calls is sent as `null`, and read as an empty text. -/
theorem responseMessage_text (assistant : AssistantMessage) :
    openAiContentToText ((responseMessage assistant).get? "content") = assistantText assistant := by
  have hcontent : (responseMessage assistant).get? "content" =
      some (if assistantToolCalls assistant ≠ [] ∧ assistantText assistant = "" then .null
        else .string (assistantText assistant)) := rfl
  rw [hcontent]
  split
  · next h => exact h.2.symm
  · rfl

theorem contextMessage_response (assistant : AssistantMessage) (now : Int) :
    contextMessage (responseMessage assistant) now =
      some (.assistant (externalAssistant (responseMessage assistant) now)) := by
  simp [contextMessage, isSystem, responseMessage_role]

theorem contextMessage_tool {message : Json} (hrole : role message = "tool") (now : Int) :
    contextMessage message now = some (.toolResult (toolResult message now)) := by
  simp [contextMessage, isSystem, hrole]

/-- The messages of the tools, one for each call of the assistant message, in any order. -/
def AnswersCalls (assistant : AssistantMessage) (tools : List (Json × Int)) : Prop :=
  (∀ tool ∈ tools, role tool.1 = "tool") ∧
    (tools.map fun tool => tool.1.get? "tool_call_id").Perm
      ((toolCalls assistant).map fun toolCall => some (.string toolCall.id))

theorem resent_context (assistant : AssistantMessage) (earlier : List (Json × Int)) (now : Int)
    {tools : List (Json × Int)} (htools : AnswersCalls assistant tools) :
    (openAiMessagesToContext (earlier ++ (responseMessage assistant, now) :: tools)).messages =
      (openAiMessagesToContext earlier).messages ++
        .assistant (externalAssistant (responseMessage assistant) now) ::
          (tools.map fun tool => toolResult tool.1 tool.2).map .toolResult := by
  have hresults : tools.filterMap (fun tool => contextMessage tool.1 tool.2) =
      (tools.map fun tool => toolResult tool.1 tool.2).map .toolResult := by
    rw [List.map_map, ← List.filterMap_eq_map]
    exact List.filterMap_congr fun tool htool => contextMessage_tool (htools.1 tool htool) tool.2
  simp only [openAiMessagesToContext, List.filterMap_append, List.filterMap_cons,
    contextMessage_response, hresults]

theorem externalAssistant_toolCalls (message : Json) (now : Int) :
    toolCalls (externalAssistant message now) = [] := rfl

theorem externalAssistant_text (message : Json) (now : Int) :
    assistantText (externalAssistant message now) = openAiContentToText (message.get? "content") := by
  simp [assistantText, externalAssistant, AssistantBlock.text?, join]

/-- Behind the earlier messages stands the assistant message with its text and its calls, and
behind it one result for each of them. -/
def Survives (assistant : AssistantMessage) (earlier : List Message) (context : Context) : Prop :=
  ∃ sent answers, context.messages = earlier ++ .assistant sent :: List.map .toolResult answers ∧
    assistantText sent = assistantText assistant ∧ toolCalls sent = toolCalls assistant ∧
    (answers.map ToolResultMessage.toolCallId).Perm ((toolCalls sent).map ToolCall.id)

theorem resent_survives_iff (options : ResponseOptions) {message : Json}
    (hmessage : choiceMessage (createChatCompletionResponse options) = some message) (earlier : List (Json × Int))
    (now : Int) {tools : List (Json × Int)} (htools : AnswersCalls options.assistant tools) :
    Survives options.assistant (openAiMessagesToContext earlier).messages
      (openAiMessagesToContext (earlier ++ (message, now) :: tools)) ↔ toolCalls options.assistant = [] := by
  rw [choiceMessage_response] at hmessage
  obtain rfl := Option.some.inj hmessage
  constructor
  · rintro ⟨sent, answers, hcontext, -, hcalls, -⟩
    rw [resent_context options.assistant earlier now htools] at hcontext
    have hsent := (List.cons.inj (List.append_cancel_left hcontext)).1
    rw [← hcalls, ← Message.assistant.inj hsent, externalAssistant_toolCalls]
  · intro hnone
    have hempty : tools = [] := by
      have hperm := htools.2
      rw [hnone] at hperm
      exact List.map_eq_nil_iff.mp hperm.eq_nil
    refine ⟨externalAssistant (responseMessage options.assistant) now, [], ?_, ?_, ?_, ?_⟩
    · rw [resent_context options.assistant earlier now htools, hempty]
      rfl
    · rw [externalAssistant_text, responseMessage_text]
    · rw [hnone, externalAssistant_toolCalls]
    · rfl

def readsFile : ResponseOptions where
  requestId := "chatcmpl-1"
  assistant := {
    content := [.text "Reading.", .toolCall "call_1" "read" [("path", .str "a.txt")]]
    provider := "anthropic", model := "claude"
    usage := { input := 10, output := 5, cacheRead := 0, cacheWrite := 0, totalTokens := 15 }
    stopReason := .toolUse, errorMessage := none, timestamp := 1000 }
  routingMode := "auto"
  resolvedProvider := "anthropic"
  resolvedModel := "claude"
  requestedModel := "auto:chat"

def fileRead : Json :=
  .object [("role", .string "tool"), ("tool_call_id", .string "call_1"), ("content", .string "hello")]

theorem fileRead_answers : AnswersCalls readsFile.assistant [(fileRead, 3000)] :=
  ⟨by simp [fileRead, role, textOr, Json.get?], .refl _⟩

theorem resent_survives_example :
    ¬ Survives readsFile.assistant (openAiMessagesToContext []).messages
      (openAiMessagesToContext ([] ++ (responseMessage readsFile.assistant, 2000) :: [(fileRead, 3000)])) := by
  rw [resent_survives_iff readsFile (choiceMessage_response readsFile) [] 2000 fileRead_answers]
  decide

/-- The text and the result are there, the call is not. -/
theorem tool_call_dropped :
    ¬ ∀ (options : ResponseOptions) (message : Json), ((toolCalls options.assistant).map ToolCall.id).Nodup →
      choiceMessage (createChatCompletionResponse options) = some message →
      ∀ (earlier : List (Json × Int)) (now : Int) (tools : List (Json × Int)), AnswersCalls options.assistant tools →
        Survives options.assistant (openAiMessagesToContext earlier).messages
          (openAiMessagesToContext (earlier ++ (message, now) :: tools)) := by
  intro hall
  obtain ⟨sent, answers, hcontext, -, hcalls, -⟩ :=
    hall readsFile _ (by decide) (choiceMessage_response readsFile) [] 2000
    [(fileRead, 3000)] fileRead_answers
  rw [resent_context readsFile.assistant [] 2000 fileRead_answers] at hcontext
  have hsent := (List.cons.inj (List.append_cancel_left hcontext)).1
  rw [← Message.assistant.inj hsent, externalAssistant_toolCalls] at hcalls
  exact absurd hcalls (by decide)

end PieLab.OpenAi

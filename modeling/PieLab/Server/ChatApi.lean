import PieLab.Lib.Logged
import PieLab.Lib.PosixPath
import PieLab.Json
import PieLab.Session.Manager

/-
  The pie chat HTTP handler

  The requests of the web chat: the list of conversations, a conversation's
  history, deleting a conversation, and a chat completion, which opens the
  conversation's session. The handler logs every path it hands to the file
  system.

  Correspondence (TypeScript ↔ Lean): the names of
  apps/server/src/pie-agent-chat-api.ts, `normalizePath` of
  packages/coding-agent/src/utils/paths.ts and `SessionManager.continueRecent`.
  The platform (Node's `URL`, `JSON.parse`, file functions, the environment) is a
  parameter. What is done with a session after it is opened, and the previews of
  the conversation list, touch no further path and are left out.
-/

namespace PieLab

open Lib

/-! ## Paths and files -/

/-- `path.join(...parts)` -/
def pathJoin (parts : List String) : String :=
  String.ofList (Posix.join (parts.map String.toList))

/-- A name `readdirSync` returns. -/
structure EntryName where
  text : String
  isName : Posix.IsName text.toList

structure Url where
  pathname : String
  searchParams : List (String × String)

/-- What the handler takes from Node. An error is the message of an exception. -/
structure Platform where
  /-- The names of the working directory. -/
  cwd : List (List Char)
  homedir : String
  parseUrl : String → String → Except String Url
  parseJson : String → Except String Json
  readFileSync : String → Except String String
  readdirSync : String → Except String (List EntryName)
  rmSync : String → Except String Unit
  fileURLToPath : String → Except String String
  /-- The entries of a session file, without its header. -/
  loadEntriesFromFile : String → Except String (List SessionEntry)

/-- What a path is handed to the file system for. -/
inductive AccessKind where
  /-- `rmSync` of a conversation's channel. -/
  | delete
  /-- `readFileSync` of a conversation's `channel.jsonl`. -/
  | readChannel
  /-- `readdirSync` of the directory of all channels, for no conversation id. -/
  | listChannels
  /-- `readdirSync` of a conversation's session directory. -/
  | listSession
  /-- `loadEntriesFromFile` of a session file. -/
  | readSession
  /-- `SessionManager.continueRecent` of a conversation's session directory. -/
  | openSession
  deriving DecidableEq, Repr

structure Access where
  kind : AccessKind
  path : String
  deriving DecidableEq, Repr

/-- A handler run: it may throw, and logs the paths it hands to the file system. -/
abbrev ChatM (α : Type) := LoggedM Access String α

/-- Node refuses a path with a null byte before it reaches the file system. -/
def hasNullByte (path : String) : Bool := path.toList.any (· == Char.ofNat 0)

def nullByteError (path : String) : String :=
  "The argument 'path' must be a string, Uint8Array, or URL without null bytes. Received '" ++
    path ++ "'"

def access (kind : AccessKind) (path : String) : ChatM Unit :=
  if hasNullByte path then throw (nullByteError path) else record { kind, path }

/-- `try … catch`: nothing in place of what an exception cuts short. -/
def attempt {α : Type} (x : ChatM α) : ChatM (Option α) :=
  tryCatch (do return some (← x)) fun _ => return none

/-- Whether a path starts with the home directory's `~`. -/
def startsWithTilde (path : String) : Bool :=
  path.toList == ['~'] || ['~', '/'].isPrefixOf path.toList

/-- A leading `~` is the home directory, a `file://` URL its path. -/
def normalizePath (p : Platform) (input : String) : Except String String :=
  if startsWithTilde input then
    if input.toList = ['~'] then .ok p.homedir
    else .ok (pathJoin [p.homedir, String.ofList (input.toList.drop 2)])
  else if "file://".toList.isPrefixOf input.toList then p.fileURLToPath input
  else .ok input

/-! ## `decodeURIComponent` -/

/-- A character of an encoded component, or a percent-encoded octet. -/
inductive UriUnit where
  | char (c : Char)
  | octet (b : Nat)
  deriving DecidableEq, Repr

def hexValue (c : Char) : Option Nat :=
  let n := c.toNat
  if 48 ≤ n ∧ n ≤ 57 then some (n - 48)
  else if 65 ≤ n ∧ n ≤ 70 then some (n - 55)
  else if 97 ≤ n ∧ n ≤ 102 then some (n - 87)
  else none

def uriUnits : List Char → Option (List UriUnit)
  | [] => some []
  | '%' :: h :: l :: rest => do
    let high ← hexValue h
    let low ← hexValue l
    let units ← uriUnits rest
    return .octet (16 * high + low) :: units
  | c :: rest => if c = '%' then none else (uriUnits rest).map (.char c :: ·)

def isContinuation (b : Nat) : Bool := 0x80 ≤ b && b < 0xC0

/-- The character two, three or four UTF-8 octets encode. -/
def decode2 (b0 b1 : Nat) : Option Char :=
  if 0xC2 ≤ b0 ∧ b0 < 0xE0 ∧ isContinuation b1 then
    some (Char.ofNat ((b0 - 0xC0) * 64 + (b1 - 0x80)))
  else none

def decode3 (b0 b1 b2 : Nat) : Option Char :=
  let v := (b0 - 0xE0) * 4096 + (b1 - 0x80) * 64 + (b2 - 0x80)
  if 0xE0 ≤ b0 ∧ b0 < 0xF0 ∧ isContinuation b1 ∧ isContinuation b2 ∧ 0x800 ≤ v ∧
      ¬(0xD800 ≤ v ∧ v < 0xE000) then
    some (Char.ofNat v)
  else none

def decode4 (b0 b1 b2 b3 : Nat) : Option Char :=
  let v := (b0 - 0xF0) * 262144 + (b1 - 0x80) * 4096 + (b2 - 0x80) * 64 + (b3 - 0x80)
  if 0xF0 ≤ b0 ∧ b0 < 0xF5 ∧ isContinuation b1 ∧ isContinuation b2 ∧ isContinuation b3 ∧
      0x10000 ≤ v ∧ v < 0x110000 then
    some (Char.ofNat v)
  else none

/-- The first character of the units, and the units behind it. -/
def decodeChar : List UriUnit → Option (Char × List UriUnit)
  | .char c :: rest => some (c, rest)
  | .octet b0 :: rest =>
    if b0 < 0x80 then some (Char.ofNat b0, rest)
    else match rest with
      | .octet b1 :: rest =>
        ((decode2 b0 b1).map (·, rest)).or <| match rest with
          | .octet b2 :: rest =>
            ((decode3 b0 b1 b2).map (·, rest)).or <| match rest with
              | .octet b3 :: rest => (decode4 b0 b1 b2 b3).map (·, rest)
              | _ => none
          | _ => none
      | _ => none
  | [] => none

/-- The characters of `n` units or less. -/
def decodeUnits : Nat → List UriUnit → Option (List Char)
  | _, [] => some []
  | 0, _ :: _ => none
  | n + 1, units => do
    let (c, rest) ← decodeChar units
    return c :: (← decodeUnits n rest)

def decodeURIComponent (component : String) : Except String String :=
  match (uriUnits component.toList).bind fun units => decodeUnits units.length units with
  | some chars => .ok (String.ofList chars)
  | none => .error "URI malformed"

/-! ## Conversation history on disk -/

structure ChatMessage where
  role : String
  content : String
  deriving DecidableEq, Repr

/-- A call of the file system: its answer, or an exception. -/
def fsCall {α : Type} (kind : AccessKind) (path : String) (answer : Except String α) : ChatM α := do
  access kind path
  match answer with
  | .ok a => return a
  | .error e => throw e

def readFileSync (p : Platform) (kind : AccessKind) (path : String) : ChatM String :=
  fsCall kind path (p.readFileSync path)

def readdirSync (p : Platform) (kind : AccessKind) (path : String) : ChatM (List EntryName) :=
  fsCall kind path (p.readdirSync path)

def rmSync (p : Platform) (path : String) : ChatM Unit := fsCall .delete path (p.rmSync path)

/-- `record.text?.trim()`, where it is a non-empty text. -/
def recordText (record : Json) : Except String (Option String) :=
  match record.get? "text" with
  | none | some .null => .ok none
  | some (.string text) => .ok (if jsTrim text = "" then none else some (jsTrim text))
  | some _ => .error "record.text?.trim is not a function"

/-- The chat message of one record of a `channel.jsonl`. -/
def recordMessage (record : Json) : Except String (Option ChatMessage) := do
  match ← record.property "type" with
  | some (.string "inbound") =>
    return (← recordText record).map fun content => { role := "user", content }
  | some (.string "outbound") =>
    return (← recordText record).map fun content => { role := "assistant", content }
  | _ => return none

def channelMessages (p : Platform) : List String → Except String (List ChatMessage)
  | [] => .ok []
  | line :: lines =>
    let trimmed := jsTrim line
    if trimmed = "" then channelMessages p lines
    else
      match p.parseJson trimmed with
      | .error _ => channelMessages p lines
      | .ok record => do
        let message ← recordMessage record
        let rest ← channelMessages p lines
        return message.toList ++ rest

def loadGatewayChannelHistory (p : Platform) (channelJsonlPath : String) :
    ChatM (List ChatMessage) := do
  let raw ← attempt (readFileSync p .readChannel channelJsonlPath)
  match raw with
  | none => return []
  | some raw =>
    match channelMessages p (splitLines raw) with
    | .ok messages => return messages
    | .error e => throw e

/-- `extractMessageText` of a user message's content. -/
def UserContent.messageText : UserContent → String
  | .text content => content
  | .blocks content => join "" (textOf content)

/-- The user or assistant text of a session entry. -/
def entryMessage (entry : SessionEntry) : Option ChatMessage :=
  let message : Option ChatMessage := match entry.body with
    | .message (.user m) => some { role := "user", content := m.content.messageText }
    | .message (.assistant m) =>
      some { role := "assistant", content := join "" (m.content.filterMap AssistantBlock.text?) }
    | _ => none
  message.filter fun m => jsTrim m.content ≠ ""

/-- `f.endsWith(".jsonl")` -/
def isSessionFile (name : EntryName) : Bool := ".jsonl".toList.isSuffixOf name.text.toList

def loadSessionFile (p : Platform) (filePath : String) : ChatM (List SessionEntry) := do
  match normalizePath p filePath with
  | .error e => throw e
  | .ok resolvedFilePath =>
    -- a null byte only makes `existsSync` answer false
    if hasNullByte resolvedFilePath then return []
    fsCall .readSession resolvedFilePath (p.loadEntriesFromFile resolvedFilePath)

def loadFiles (p : Platform) : List String → ChatM (List ChatMessage)
  | [] => return []
  | file :: files => do
    let entries ← attempt (loadSessionFile p file)
    let rest ← loadFiles p files
    return (entries.getD []).filterMap entryMessage ++ rest

def loadConversationHistory (p : Platform) (convDir : String) : ChatM (List ChatMessage) := do
  let names ← attempt (readdirSync p .listSession convDir)
  match names with
  | none => return []
  | some names =>
    let files := sortStrings ((names.filter isSessionFile).map EntryName.text)
    loadFiles p (files.map fun f => pathJoin [convDir, f])

/-! ## Chat requests -/

/-- `data:<mime>;base64,<data>` -/
def dataUrlMimeType (dataUrl : String) : Option String :=
  let chars := dataUrl.toList
  if "data:".toList.isPrefixOf chars then
    let mimeType := (chars.drop 5).takeWhile fun c => c ≠ ';' && c ≠ ','
    let rest := (chars.drop 5).dropWhile fun c => c ≠ ';' && c ≠ ','
    let data := rest.drop 8
    if mimeType ≠ [] ∧ ";base64,".toList.isPrefixOf rest ∧ data ≠ [] ∧
        data.all (fun c => c ≠ '\n' && c ≠ '\r' && c.toNat ≠ 0x2028 && c.toNat ≠ 0x2029) then
      some (String.ofList mimeType)
    else none
  else none

def getImageUrl : Option Json → Option String
  | some (.string imageUrl) => some imageUrl
  | some (.object fields) =>
    match fields.lookup "url" with
    | some (.string url) => some url
    | _ => none
  | _ => none

/-- The text of one content part. -/
def contentPartText (part : Json) : Option String :=
  match part.get? "type", part.get? "text" with
  | some (.string "text"), some (.string text) => some text
  | some (.string "image_url"), _ =>
    match getImageUrl (part.get? "image_url") with
    | none | some "" => none
    | some imageUrl =>
      match dataUrlMimeType imageUrl with
      | some mimeType => some ("[image:" ++ mimeType ++ "]")
      | none => some ("[image:" ++ imageUrl ++ "]")
  | _, _ => none

def openAiContentToText : Option Json → String
  | some (.string content) => content
  | some (.array content) => join "\n" (content.filterMap contentPartText)
  | _ => ""

def isOpenAIChatMessage (value : Json) : Bool :=
  match value.get? "role" with
  | some (.string _) => true
  | _ => false

/-- The text of the last user message. -/
def latestUserPrompt (messages : List Json) : String :=
  let isUser (message : Json) : Bool := match message.get? "role" with
    | some (.string role) => role == "user"
    | _ => false
  match messages.reverse.find? isUser with
  | some message => jsTrim (openAiContentToText (message.get? "content"))
  | none => ""

/-- The messages of a valid body, or what is wrong with it. -/
def validateRequest (body : Json) : Except String (List Json) :=
  match body.get? "model" with
  | none | some (.string _) =>
    match body.get? "messages" with
    | some (.array messages) =>
      if messages = [] then .error "messages must contain at least one message."
      else if !messages.all isOpenAIChatMessage then
        .error "Each message must include a string role."
      else if latestUserPrompt messages = "" then
        .error "messages must contain a non-empty user message."
      else .ok messages
    | _ => .error "messages must be an array."
  | some _ => .error "model must be a string."

/-- A model of the registry. -/
structure ChatModel where
  provider : String
  id : String
  deriving DecidableEq, Repr

structure ModelRegistry where
  find : String → String → Option ChatModel
  getAll : List ChatModel

def pieLabRouterProvider : String := "pie-lab-router"

def resolveModelReference (modelRegistry : ModelRegistry) (requestedModel : String) :
    Option ChatModel :=
  let provider := requestedModel.toList.takeWhile (· ≠ '/')
  let modelId := (requestedModel.toList.dropWhile (· ≠ '/')).drop 1
  let named := if '/' ∈ requestedModel.toList ∧ provider ≠ [] then
      modelRegistry.find (String.ofList provider) (String.ofList modelId)
    else none
  let byId := match modelRegistry.getAll.filter fun model => model.id = requestedModel with
    | [model] => some model
    | _ => none
  ((modelRegistry.find pieLabRouterProvider requestedModel).or named).or byId

def defaultEndpoint : String := "/v1/pie/chat/completions"
def sessionsEndpoint : String := "/v1/pie/chat/sessions"
def conversationsEndpoint : String := "/v1/pie/chat/conversations"
def defaultModel : String := "auto:chat"

structure HttpRequest where
  method : String
  url : Option String
  host : Option String
  /-- The body as text, `none` past two mebibytes. -/
  body : Option String

def readJsonBody (p : Platform) (request : HttpRequest) : Except String Json :=
  match request.body with
  | none => .error "Request body is too large."
  | some body =>
    let raw := jsTrim body
    if raw = "" then .ok (.object []) else p.parseJson raw

inductive ResponseBody where
  | error (message : String) (type : Option String)
  | notFound (path : String)
  | conversations (ids : List String)
  | deleted
  | history (conversationId : String) (messages : List ChatMessage)
  deriving DecidableEq, Repr

inductive Response where
  | noContent
  | json (statusCode : Nat) (body : ResponseBody)
  /-- The session of the conversation is prompted and its answer written. -/
  | chat (conversationId requestedModel prompt : String) (stream : Bool)
  deriving DecidableEq, Repr

/-- The handler's options and state. -/
structure ChatServer where
  platform : Platform
  /-- `options.agentDir ?? getAgentDir()` -/
  agentDir : String
  /-- `process.env.PIE_WEB_CHAT_SESSION_DIR` -/
  webChatSessionDir : Option String
  modelRegistry : ModelRegistry
  /-- The conversations with a live session. -/
  sessions : List String
  /-- Whether the gateway's probe succeeds. -/
  gatewayAvailable : Bool
  /-- The `randomUUID()` of a request that names no conversation. -/
  randomUUID : Uuid

def ChatServer.channelsDir (s : ChatServer) : String :=
  pathJoin [s.agentDir, "chat", "accounts", "web", "channels"]

def ChatServer.sessionDir (s : ChatServer) : String :=
  s.webChatSessionDir.getD (pathJoin [s.agentDir, "sessions", "web-chat"])

def ChatServer.channelDir (s : ChatServer) (conversationId : String) : String :=
  pathJoin [s.agentDir, "chat", "accounts", "web", "channels", conversationId]

def ChatServer.channelFile (s : ChatServer) (conversationId : String) : String :=
  pathJoin [s.agentDir, "chat", "accounts", "web", "channels", conversationId, "channel.jsonl"]

def ChatServer.convDir (s : ChatServer) (conversationId : String) : String :=
  pathJoin [s.sessionDir, conversationId]

/-! ## The handler -/

/-- The conversations whose channel file can be read. -/
def loadChannels (s : ChatServer) : List EntryName → ChatM (List String)
  | [] => return []
  | name :: names => do
    let channelJsonl := pathJoin [s.channelsDir, name.text, "channel.jsonl"]
    let raw ← attempt (readFileSync s.platform .readChannel channelJsonl)
    let rest ← loadChannels s names
    return if raw.isSome then name.text :: rest else rest

def loadWebConversationList (s : ChatServer) : ChatM (List String) := do
  let names ← attempt (readdirSync s.platform .listChannels s.channelsDir)
  match names with
  | none => return []
  | some names => loadChannels s names

/-- The conversation id at the end of the path of a DELETE. -/
def deletedConversationId (url : Url) : Except String String :=
  let component := String.ofList (url.pathname.toList.drop (conversationsEndpoint.length + 1))
  (decodeURIComponent component).map fun id => jsTake id 160

def deleteConversation (s : ChatServer) (url : Url) : ChatM Response := do
  match deletedConversationId url with
  | .error e => throw e
  | .ok conversationId =>
    if conversationId = "" then return .json 400 (.error "conversation_id required" none)
    tryCatch
      (do
        rmSync s.platform (s.channelDir conversationId)
        return .json 200 .deleted)
      fun e => return .json 500 (.error e none)

/-- The `conversation_id` parameter of a query. -/
def queriedConversationId (url : Url) : String :=
  ((url.searchParams.lookup "conversation_id").map fun id => jsTake id 160).getD ""

def getSessionHistory (s : ChatServer) (url : Url) : ChatM Response := do
  let conversationId := queriedConversationId url
  if conversationId = "" then
    return .json 400 (.error "conversation_id query param required." none)
  let gatewayMessages ← loadGatewayChannelHistory s.platform (s.channelFile conversationId)
  if gatewayMessages ≠ [] then return .json 200 (.history conversationId gatewayMessages)
  -- standalone fallback
  let messages ← loadConversationHistory s.platform (s.convDir conversationId)
  return .json 200 (.history conversationId messages)

/-- `SessionManager.continueRecent(cwd, sessionDir)`, as far as the directory it opens. -/
def continueRecent (p : Platform) (sessionDir : String) : ChatM Unit :=
  match normalizePath p sessionDir with
  | .error e => throw e
  | .ok dir => access .openSession dir

def defaultPieAgentSessionFactory (s : ChatServer) (conversationId : String) : ChatM Unit :=
  if s.gatewayAvailable then return ()
  else continueRecent s.platform (s.convDir conversationId)

def getOrCreateSession (s : ChatServer) (conversationId : String) : ChatM Unit :=
  if conversationId ∈ s.sessions then return ()
  else defaultPieAgentSessionFactory s conversationId

/-- The `conversation_id` of a body, or a new one. -/
def bodyConversationId (body : Json) (randomUUID : Uuid) : String :=
  match body.get? "conversation_id" with
  | some (.string id) => if jsTrim id = "" then "web_" ++ randomUUID.text else jsTake (jsTrim id) 160
  | _ => "web_" ++ randomUUID.text

def requestedModel (body : Json) : String :=
  match body.get? "model" with
  | some (.string model) => if jsTrim model = "" then defaultModel else jsTrim model
  | _ => defaultModel

def chatCompletion (s : ChatServer) (request : HttpRequest) : ChatM Response := do
  match readJsonBody s.platform request with
  | .error e => throw e
  | .ok body =>
    match body.property "model" with
    | .error e => throw e
    | .ok _ =>
      match validateRequest body with
      | .error e => return .json 400 (.error e (some "invalid_request_error"))
      | .ok messages =>
        match resolveModelReference s.modelRegistry (requestedModel body) with
        | none =>
          return .json 400 (.error ("Model not found: " ++ requestedModel body)
            (some "invalid_request_error"))
        | some _ =>
          let conversationId := bodyConversationId body s.randomUUID
          getOrCreateSession s conversationId
          let stream := match body.get? "stream" with
            | some (.bool false) => false
            | _ => true
          return .chat conversationId (requestedModel body) (latestUserPrompt messages) stream

def parseRequestUrl (s : ChatServer) (request : HttpRequest) : Except String Url :=
  s.platform.parseUrl (request.url.getD "/") ("http://" ++ request.host.getD "localhost")

def handlePieAgentChatRequest (s : ChatServer) (request : HttpRequest) : ChatM Response := do
  if request.method = "OPTIONS" then return .noContent
  match parseRequestUrl s request with
  | .error e => throw e
  | .ok url =>
    if url.pathname = conversationsEndpoint ∧ request.method = "GET" then
      return .json 200 (.conversations (← loadWebConversationList s))
    else if (conversationsEndpoint ++ "/").toList.isPrefixOf url.pathname.toList ∧
        request.method = "DELETE" then
      deleteConversation s url
    else if url.pathname = sessionsEndpoint ∧ request.method = "GET" then
      getSessionHistory s url
    else if url.pathname ≠ defaultEndpoint then
      return .json 404 (.notFound url.pathname)
    else if request.method ≠ "POST" then
      return .json 405 (.error "Method not allowed." (some "invalid_request_error"))
    else chatCompletion s request

/-- `createPieAgentChatRequestHandler`: an exception is answered with 500. -/
def pieAgentChatHandler (s : ChatServer) (request : HttpRequest) : ChatM Response :=
  tryCatch (handlePieAgentChatRequest s request) fun e =>
    return .json 500 (.error e (some "server_error"))

end PieLab

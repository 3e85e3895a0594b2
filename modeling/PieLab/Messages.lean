import Mathlib.Algebra.GroupWithZero.Nat
import Mathlib.Data.List.Lex
import Mathlib.Data.Nat.Basic

/-
  Agent messages

  The message types of the agent (`@pie-lab/ai` messages plus the four kinds the
  coding agent adds), the constructors that turn a session entry into a message,
  the conversion to LLM messages, and the text a conversation is serialized to
  for summarization.

  Correspondence (TypeScript ↔ Lean):
    packages/ai/src/types.ts                     ↔ `Usage` … `AssistantMessage`
    packages/coding-agent/src/core/messages.ts   ↔ `AgentMessage`, `convertToLlm`
    compaction/utils.ts                          ↔ `FileOperations`, `serializeConversation`
  packages/agent/src/harness/messages.ts and harness/compaction/utils.ts hold the
  same code word for word (the harness wraps `JSON.stringify` in a `try` that
  JSON values never enter), so one definition stands for both.

  Timestamps are the milliseconds `new Date(timestamp).getTime()` gives. A JSON
  value that no code looks into is its JSON text.
-/

namespace PieLab

/-! ## JavaScript strings -/

/-- The UTF-16 code units of a character. -/
def utf16Size (c : Char) : Nat := if c.toNat ≤ 0xFFFF then 1 else 2

/-- `text.length`: the number of UTF-16 code units. -/
def jsLength (text : String) : Nat := (text.toList.map utf16Size).sum

/-- The characters in the first `n` code units. A pair cut in the middle leaves
its lone surrogate, which every encoder writes as U+FFFD. -/
def takeUnits : Nat → List Char → List Char
  | _, [] => []
  | 0, _ :: _ => []
  | 1, c :: _ => if utf16Size c = 1 then [c] else ['\uFFFD']
  | n + 2, c :: cs => c :: takeUnits (if utf16Size c = 1 then n + 1 else n) cs

/-- `text.slice(0, n)`. -/
def jsTake (text : String) (n : Nat) : String := String.ofList (takeUnits n text.toList)

/-- The white space and line terminators `trim` removes. -/
def isJsSpace (c : Char) : Bool :=
  let n := c.toNat
  (9 ≤ n && n ≤ 13) || n == 0x20 || n == 0xA0 || n == 0x1680 || (0x2000 ≤ n && n ≤ 0x200A) ||
    n == 0x2028 || n == 0x2029 || n == 0x202F || n == 0x205F || n == 0x3000 || n == 0xFEFF

/-- `text.trim()`. -/
def jsTrim (text : String) : String :=
  String.ofList ((text.toList.dropWhile isJsSpace).reverse.dropWhile isJsSpace).reverse

/-- A text that is given and not empty. -/
def truthyText : Option String → Bool
  | none | some "" => false
  | some _ => true

/-- `text.split("\n")`. -/
def splitLines (text : String) : List String := (text.toList.splitOn '\n').map String.ofList

/-- `parts.join(sep)`. -/
def join (sep : String) (parts : List String) : String := String.intercalate sep parts

def hexDigit (n : Nat) : Char :=
  if n < 10 then Char.ofNat (48 + n) else Char.ofNat (87 + n)

/-- One character inside a `JSON.stringify` string. -/
def jsonEscape (c : Char) : List Char :=
  if c = '"' then ['\\', '"']
  else if c = '\\' then ['\\', '\\']
  else if c.toNat = 8 then ['\\', 'b']
  else if c.toNat = 12 then ['\\', 'f']
  else if c = '\n' then ['\\', 'n']
  else if c = '\r' then ['\\', 'r']
  else if c = '\t' then ['\\', 't']
  else if c.toNat < 32 then ['\\', 'u', '0', '0', hexDigit (c.toNat / 16), hexDigit (c.toNat % 16)]
  else [c]

/-- `JSON.stringify` of a string. -/
def jsonString (s : String) : String :=
  String.ofList ('"' :: s.toList.flatMap jsonEscape ++ ['"'])

/-! ## Content and messages -/

inductive StopReason where
  | stop | length | toolUse | error | aborted
  deriving DecidableEq, Repr

structure Usage where
  input : Nat
  output : Nat
  cacheRead : Nat
  cacheWrite : Nat
  totalTokens : Nat
  deriving DecidableEq, Repr

/-- One argument of a tool call: a string, or any other value as its JSON text. -/
inductive ArgValue where
  | str (s : String)
  | other (json : String)
  deriving DecidableEq, Repr

/-- `JSON.stringify(v)`. -/
def ArgValue.stringify : ArgValue → String
  | .str s => jsonString s
  | .other json => json

/-- The `arguments` object, in `Object.entries` order. -/
abbrev ToolArguments := List (String × ArgValue)

/-- `JSON.stringify(block.arguments)`. -/
def stringifyArguments (args : ToolArguments) : String :=
  "\x7b" ++ join "," (args.map fun kv => jsonString kv.1 ++ ":" ++ kv.2.stringify) ++ "\x7d"

inductive UserBlock where
  | text (text : String)
  | image (data mimeType : String)
  deriving DecidableEq, Repr

/-- `string | (TextContent | ImageContent)[]` -/
inductive UserContent where
  | text (text : String)
  | blocks (content : List UserBlock)
  deriving DecidableEq, Repr

inductive AssistantBlock where
  | text (text : String)
  | thinking (thinking : String)
  | toolCall (id name : String) (arguments : ToolArguments)
  deriving DecidableEq, Repr

structure UserMessage where
  content : UserContent
  timestamp : Int
  deriving DecidableEq, Repr

structure AssistantMessage where
  content : List AssistantBlock
  provider : String
  model : String
  usage : Usage
  stopReason : StopReason
  errorMessage : Option String
  timestamp : Int
  deriving DecidableEq, Repr

structure ToolResultMessage where
  toolCallId : String
  toolName : String
  content : List UserBlock
  isError : Bool
  timestamp : Int
  deriving DecidableEq, Repr

structure BashExecutionMessage where
  command : String
  output : String
  exitCode : Option Int
  cancelled : Bool
  truncated : Bool
  fullOutputPath : Option String
  timestamp : Int
  excludeFromContext : Bool
  deriving DecidableEq, Repr

structure CustomMessage where
  customType : String
  content : UserContent
  display : Bool
  details : Option String
  timestamp : Int
  deriving DecidableEq, Repr

structure BranchSummaryMessage where
  summary : String
  fromId : String
  timestamp : Int
  deriving DecidableEq, Repr

structure CompactionSummaryMessage where
  summary : String
  tokensBefore : Nat
  timestamp : Int
  deriving DecidableEq, Repr

inductive AgentMessage where
  | user (m : UserMessage)
  | assistant (m : AssistantMessage)
  | toolResult (m : ToolResultMessage)
  | bashExecution (m : BashExecutionMessage)
  | custom (m : CustomMessage)
  | branchSummary (m : BranchSummaryMessage)
  | compactionSummary (m : CompactionSummaryMessage)
  deriving DecidableEq, Repr

/-- `role === "compactionSummary"` -/
def AgentMessage.isCompactionSummary : AgentMessage → Bool
  | .compactionSummary _ => true
  | _ => false

/-- `role === "assistant"` -/
def AgentMessage.isAssistant : AgentMessage → Bool
  | .assistant _ => true
  | _ => false

def createBranchSummaryMessage (summary fromId : String) (timestamp : Int) : AgentMessage :=
  .branchSummary { summary, fromId, timestamp }

def createCompactionSummaryMessage (summary : String) (tokensBefore : Nat) (timestamp : Int) :
    AgentMessage :=
  .compactionSummary { summary, tokensBefore, timestamp }

def createCustomMessage (customType : String) (content : UserContent) (display : Bool)
    (details : Option String) (timestamp : Int) : AgentMessage :=
  .custom { customType, content, display, details, timestamp }

/-! ## Conversion to LLM messages -/

inductive Message where
  | user (m : UserMessage)
  | assistant (m : AssistantMessage)
  | toolResult (m : ToolResultMessage)
  deriving DecidableEq, Repr

def compactionSummaryPrefix : String :=
  "The conversation history before this point was compacted into the following summary:\n\n<summary>\n"

def compactionSummarySuffix : String := "\n</summary>"

def branchSummaryPrefix : String :=
  "The following is a summary of a branch that this conversation came back from:\n\n<summary>\n"

def branchSummarySuffix : String := "</summary>"

def bashExecutionToText (msg : BashExecutionMessage) : String :=
  let text := "Ran `" ++ msg.command ++ "`\n"
  let text :=
    if msg.output ≠ "" then text ++ "```\n" ++ msg.output ++ "\n```" else text ++ "(no output)"
  let text :=
    if msg.cancelled then text ++ "\n\n(command cancelled)"
    else match msg.exitCode with
      | some code => if code ≠ 0 then text ++ "\n\nCommand exited with code " ++ toString code else text
      | none => text
  match msg.fullOutputPath with
  | some path =>
    if msg.truncated && path != "" then text ++ "\n\n[Output truncated. Full output: " ++ path ++ "]"
    else text
  | none => text

private def userText (text : String) (timestamp : Int) : Message :=
  .user { content := .blocks [.text text], timestamp }

/-- One step of `convertToLlm`: `none` where the source maps to `undefined`. -/
def toLlm : AgentMessage → Option Message
  | .bashExecution m =>
    -- skip messages excluded from context (!! prefix)
    if m.excludeFromContext then none else some (userText (bashExecutionToText m) m.timestamp)
  | .custom m =>
    let content := match m.content with
      | .text s => [UserBlock.text s]
      | .blocks bs => bs
    some (.user { content := .blocks content, timestamp := m.timestamp })
  | .branchSummary m =>
    some (userText (branchSummaryPrefix ++ m.summary ++ branchSummarySuffix) m.timestamp)
  | .compactionSummary m =>
    some (userText (compactionSummaryPrefix ++ m.summary ++ compactionSummarySuffix) m.timestamp)
  | .user m => some (.user m)
  | .assistant m => some (.assistant m)
  | .toolResult m => some (.toolResult m)

def convertToLlm (messages : List AgentMessage) : List Message := messages.filterMap toLlm

/-! ## Serialization for summarization -/

def toolResultMaxChars : Nat := 2000

def truncateForSummary (text : String) (maxChars : Nat) : String :=
  if jsLength text ≤ maxChars then text
  else
    let truncatedChars := jsLength text - maxChars
    jsTake text maxChars ++ "\n\n[... " ++ toString truncatedChars ++ " more characters truncated]"

/-- The text of the text blocks. -/
def textOf : List UserBlock → List String
  | [] => []
  | .text t :: rest => t :: textOf rest
  | .image _ _ :: rest => textOf rest

def AssistantBlock.text? : AssistantBlock → Option String
  | .text t => some t
  | _ => none

def AssistantBlock.thinking? : AssistantBlock → Option String
  | .thinking t => some t
  | _ => none

/-- A tool call as `name(key=value, …)`. -/
def AssistantBlock.toolCall? : AssistantBlock → Option String
  | .toolCall _ name args =>
    some (name ++ "(" ++ join ", " (args.map fun kv => kv.1 ++ "=" ++ kv.2.stringify) ++ ")")
  | _ => none

/-- What one message adds to `parts`. -/
def serializeMessage : Message → List String
  | .user m =>
    let content := match m.content with
      | .text s => s
      | .blocks bs => join "" (textOf bs)
    if content ≠ "" then ["[User]: " ++ content] else []
  | .assistant m =>
    let thinkingParts := m.content.filterMap AssistantBlock.thinking?
    let textParts := m.content.filterMap AssistantBlock.text?
    let toolCalls := m.content.filterMap AssistantBlock.toolCall?
    (if thinkingParts.isEmpty then [] else ["[Assistant thinking]: " ++ join "\n" thinkingParts]) ++
    (if textParts.isEmpty then [] else ["[Assistant]: " ++ join "\n" textParts]) ++
    (if toolCalls.isEmpty then [] else ["[Assistant tool calls]: " ++ join "; " toolCalls])
  | .toolResult m =>
    let content := join "" (textOf m.content)
    if content ≠ "" then ["[Tool result]: " ++ truncateForSummary content toolResultMaxChars] else []

def serializeConversation (messages : List Message) : String :=
  join "\n\n" (messages.flatMap serializeMessage)

/-! ## File operations -/

/-- A JavaScript `Set` of strings: the members in insertion order. -/
abbrev StringSet := List String

def StringSet.add (s : StringSet) (x : String) : StringSet := if x ∈ s then s else s ++ [x]

structure FileOperations where
  read : StringSet
  written : StringSet
  edited : StringSet
  deriving DecidableEq, Repr

def createFileOps : FileOperations := { read := [], written := [], edited := [] }

/-- `args.path`, when it is a non-empty string. -/
def pathArgument (args : ToolArguments) : Option String :=
  match args.lookup "path" with
  | some (.str path) => if path = "" then none else some path
  | _ => none

def extractFileOpsFromBlock (fileOps : FileOperations) : AssistantBlock → FileOperations
  | .toolCall _ name args =>
    match pathArgument args with
    | none => fileOps
    | some path =>
      if name = "read" then { fileOps with read := fileOps.read.add path }
      else if name = "write" then { fileOps with written := fileOps.written.add path }
      else if name = "edit" then { fileOps with edited := fileOps.edited.add path }
      else fileOps
  | _ => fileOps

def extractFileOpsFromMessage (fileOps : FileOperations) : AgentMessage → FileOperations
  | .assistant m => m.content.foldl extractFileOpsFromBlock fileOps
  | _ => fileOps

/-- `[...strings].sort()`: by UTF-16 code units. -/
def utf16Units (s : String) : List Nat :=
  s.toList.flatMap fun c =>
    if c.toNat ≤ 0xFFFF then [c.toNat]
    else [0xD800 + (c.toNat - 0x10000) / 0x400, 0xDC00 + (c.toNat - 0x10000) % 0x400]

def sortStrings (l : List String) : List String :=
  l.mergeSort fun a b => decide (utf16Units a ≤ utf16Units b)

structure FileLists where
  readFiles : List String
  modifiedFiles : List String
  deriving DecidableEq, Repr

def computeFileLists (fileOps : FileOperations) : FileLists :=
  let modified := (fileOps.edited ++ fileOps.written).foldl StringSet.add []
  { readFiles := sortStrings (fileOps.read.filter fun f => decide (f ∉ modified))
    modifiedFiles := sortStrings modified }

def formatFileOperations (lists : FileLists) : String :=
  let sections :=
    (if lists.readFiles.isEmpty then []
      else ["<read-files>\n" ++ join "\n" lists.readFiles ++ "\n</read-files>"]) ++
    (if lists.modifiedFiles.isEmpty then []
      else ["<modified-files>\n" ++ join "\n" lists.modifiedFiles ++ "\n</modified-files>"])
  if sections.isEmpty then "" else "\n\n" ++ join "\n\n" sections

end PieLab

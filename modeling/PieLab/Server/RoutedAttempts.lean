import PieLab.Lib.StatefulRuns
import PieLab.Router.Routes
import PieLab.Server.BudgetPolicy

/-
  Routed chat completions

  A chat completion is tried on the routes of its plan, one after the other: each
  attempt asks the budget, resolves the auth of its model, calls the model, updates
  the state of the connection and writes a usage record. A failed attempt may go on
  to the next route. The plain handler waits for the whole answer, the streaming one
  passes the events on; once a chunk is out it no longer goes to another route.

  Correspondence (TypeScript ↔ Lean), apps/server/src/chat-completions-api.ts:
    `handleChatCompletionsRequest`, from its loop on ↔ `handleChatCompletion`
    `handleStreamingChatCompletion`                  ↔ `handleStreamingChatCompletion`
    the other functions                              ↔ the same names
    `AuthResolver`, the executors, the hooks of an auth, the usage store, the response
                                                     ↔ the queries of `ChatQuery`
  and `checkFallbackError` of packages/router/src/index.ts. A query that may throw
  answers `Except`; writes to the response do not throw. An error is kept with what
  is read from it. Traces, the ids of records, dollar costs and saved tokens of a
  record, and the options of a model call are written and never read; they are left
  out. A stream is the list of its events and the error that breaks it off.
-/

namespace PieLab.Server

open Lib
open Router (ResolvedPiModelRoute ResolvedPiModelRoutePlan PiModelReference includesText)

/-! ## Errors and the fallback decision -/

/-- An error, with what `extractStatusCode` and `extractProviderResetCooldownMs` read from it. -/
structure Thrown where
  message : String
  statusCode : Option Int
  resetCooldownMs : Option ℚ
  deriving DecidableEq

structure RouterErrorRule where
  text : Option String := none
  status : Option Int := none
  cooldownMs : Option ℚ := none
  backoff : Bool := false

def longCooldown : ℚ := 2 * 60 * 1000
def shortCooldown : ℚ := 5 * 1000

/-- `ROUTER_ERROR_RULES` -/
def routerErrorRules : List RouterErrorRule :=
  [{ text := some "no credentials", cooldownMs := some longCooldown },
    { text := some "request not allowed", cooldownMs := some shortCooldown },
    { text := some "improperly formed request", cooldownMs := some longCooldown },
    { text := some "rate limit", backoff := true },
    { text := some "too many requests", backoff := true },
    { text := some "quota exceeded", backoff := true },
    { text := some "out of extra usage", backoff := true },
    { text := some "usage limit", backoff := true },
    { text := some "capacity", backoff := true },
    { text := some "overloaded", backoff := true },
    { status := some 401, cooldownMs := some longCooldown },
    { status := some 402, cooldownMs := some longCooldown },
    { status := some 403, cooldownMs := some longCooldown },
    { status := some 404, cooldownMs := some longCooldown },
    { status := some 429, backoff := true }]

structure RouterFallbackDecision where
  shouldFallback : Bool
  cooldownMs : ℚ
  newBackoffLevel : Option Nat := none

def getQuotaCooldown (backoffLevel : Nat) : ℚ := min (2000 * 2 ^ (backoffLevel - 1)) (5 * 60 * 1000)

def backoffDecision (backoffLevel : Nat) : RouterFallbackDecision :=
  let newBackoffLevel := min (backoffLevel + 1) 15
  { shouldFallback := true
    cooldownMs := getQuotaCooldown newBackoffLevel
    newBackoffLevel := some newBackoffLevel }

def RouterErrorRule.applies (rule : RouterErrorRule) (status : Option Int) (lowerError : String) :
    Bool :=
  rule.text.any (fun text => truthyText (some lowerError) && includesText lowerError text) ||
    rule.status.any fun code => decide (some code = status)

/-- `lowerError` is the text of the error in lower case. -/
def checkFallbackError (status : Option Int) (lowerError : String) (backoffLevel : Nat) :
    RouterFallbackDecision :=
  match routerErrorRules.find? fun rule => rule.applies status lowerError with
  | some rule =>
    if rule.backoff then backoffDecision backoffLevel
    else { shouldFallback := true, cooldownMs := rule.cooldownMs.getD 0 }
  | none => { shouldFallback := true, cooldownMs := 30 * 1000 }

@[simp] theorem checkFallbackError_shouldFallback (status : Option Int) (lowerError : String)
    (backoffLevel : Nat) : (checkFallbackError status lowerError backoffLevel).shouldFallback = true := by
  unfold checkFallbackError
  split
  · split
    · rfl
    · rfl
  · rfl

/-- What the language and the router read from a text. -/
structure ErrorTexts where
  toLowerCase : String → String
  /-- `extractProviderResetCooldownMs` of a text -/
  resetCooldownMs : String → Option ℚ

/-- A text as an error. -/
def ErrorTexts.ofText (texts : ErrorTexts) (message : String) : Thrown where
  message
  statusCode := none
  resetCooldownMs := texts.resetCooldownMs message

structure AttemptFallbackDecision where
  shouldFallback : Bool
  cooldownMs : ℚ
  statusCode : Option Int
  deriving DecidableEq

def getAttemptFallbackDecision (texts : ErrorTexts) (canFallback : Bool) (error : Thrown)
    (aborted : Bool) :
    AttemptFallbackDecision :=
  if !canFallback || aborted then ⟨false, 0, error.statusCode⟩
  else
    match error.resetCooldownMs with
    | some resetCooldownMs => ⟨true, resetCooldownMs, error.statusCode⟩
    | none =>
      let decision := checkFallbackError error.statusCode (texts.toLowerCase error.message) 0
      ⟨decision.shouldFallback, decision.cooldownMs, error.statusCode⟩

theorem getAttemptFallbackDecision_shouldFallback (texts : ErrorTexts) (canFallback : Bool)
    (error : Thrown)
    (aborted : Bool) :
    (getAttemptFallbackDecision texts canFallback error aborted).shouldFallback = (canFallback && !aborted) := by
  unfold getAttemptFallbackDecision
  cases canFallback <;> cases aborted <;> simp
  split
  · rfl
  · rfl

structure AttemptError where
  provider : String
  model : String
  message : String
  status : Option Int
  shouldFallback : Bool
  cooldownMs : ℚ
  deriving DecidableEq

def toAttemptError (route : ResolvedPiModelRoute) (message : String)
    (fallback : AttemptFallbackDecision) :
    AttemptError where
  provider := route.route.resolvedProvider
  model := route.route.resolvedModel
  message
  status := fallback.statusCode
  shouldFallback := fallback.shouldFallback
  cooldownMs := fallback.cooldownMs

def toBudgetAttemptError (route : ResolvedPiModelRoute) (status : BudgetStatus)
    (canFallback : Bool) :
    AttemptError where
  provider := route.route.resolvedProvider
  model := route.route.resolvedModel
  message := status.violationMessage
  status := some 402
  shouldFallback := canFallback
  cooldownMs := 0

/-! ## What a handler asks -/

/-- An auth, and which hooks it has. -/
structure RequestAuth where
  connectionId : Option String
  markUnavailable : Bool
  clearUnavailable : Bool
  deriving DecidableEq

/-- What a connection is reported with. -/
inductive Reported where
  | thrown (error : Thrown)
  | text (message : String)
  | message (message : AssistantMessage)
  deriving DecidableEq

inductive ErrorCode where
  | number (code : Int)
  | text (code : String)
  deriving DecidableEq

structure AttemptRecord where
  requestId : String
  timestamp : Int
  requestedModel : String
  routingMode : Router.RoutingMode
  routeSource : Router.RouteSource
  resolvedProvider : String
  resolvedModel : String
  connectionId : Option String
  attemptIndex : Nat
  attemptCount : Nat
  endpoint : String
  clientOrigin : Option String
  usage : Option Usage
  status : UsageRecordStatus
  errorCode : Option ErrorCode
  errorMessage : Option String
  deriving DecidableEq

inductive StreamEvent where
  | textDelta (delta : String)
  | toolcallEnd (id name : String) (arguments : ToolArguments)
  | done (message : AssistantMessage)
  | error (aborted : Bool) (error : AssistantMessage)
  | other
  deriving DecidableEq

structure EventStream where
  events : List StreamEvent
  broken : Option Thrown
  deriving DecidableEq

inductive ChunkDelta where
  | role
  | content (delta : String)
  | toolCall (id name : String) (arguments : ToolArguments)
  | empty

inductive CompletionBody where
  | completion (assistant : AssistantMessage) (route : ResolvedPiModelRoute)
  | budgetLimit (status : BudgetStatus) (attempts : List AttemptError)
  | failed (message : String) (attempts : List AttemptError)

inductive Output where
  | json (statusCode : Nat) (body : CompletionBody)
  | sseHeaders
  | chunk (route : ResolvedPiModelRoute) (delta : ChunkDelta) (finishReason : Option String)
  | sseError (message : String)
  | sseDone
  | ended

inductive ChatQuery where
  | getUsageRecords
  /-- `authResolver`, if there is one. -/
  | resolveAuth (attemptIndex : Nat) (model : PiModelReference)
  | complete (attemptIndex : Nat) (model : PiModelReference)
  | openStream (attemptIndex : Nat) (model : PiModelReference)
  | clearUnavailable (attemptIndex : Nat) (auth : RequestAuth)
  | markUnavailable (attemptIndex : Nat) (auth : RequestAuth) (error : Reported)
  | recordUsage (record : AttemptRecord)
  | write (output : Output)

abbrev ChatAnswer : ChatQuery → Type
  | .getUsageRecords => Except Thrown (List UsageRecord)
  | .resolveAuth _ _ => Except Thrown (Option RequestAuth)
  | .complete _ _ => Except Thrown AssistantMessage
  | .openStream _ _ => Except Thrown EventStream
  | .clearUnavailable _ _ => Except Thrown Unit
  | .markUnavailable _ _ _ => Except Thrown Unit
  | .recordUsage _ => Except Thrown Unit
  | .write _ => Unit

abbrev ChatProg (α : Type) := Prog ChatQuery ChatAnswer Thrown α

def ask (query : ChatQuery) : ChatProg (ChatAnswer query) := Prog.call query

/-- A request as its handler has it, with the times of the clock. -/
structure ChatCompletionRequest where
  plan : ResolvedPiModelRoutePlan
  requestId : String
  clientOrigin : Option String
  stream : Bool
  hasUsageStore : Bool
  /-- The store has `getUsageRecords`. -/
  hasUsageRecords : Bool
  /-- The settings, if there is a store of them, and their budget limits. -/
  budgetSettings : Option (Option BudgetLimitSettings)
  /-- `JSON.stringify(body.messages)` -/
  messages : String
  requestedTokens : Option ℚ
  texts : ErrorTexts
  /-- When an attempt begins. -/
  beginsAt : Nat → Int
  /-- When the budget of an attempt is checked. -/
  checkedAt : Nat → Int

namespace ChatCompletionRequest
variable (r : ChatCompletionRequest)

def write (output : Output) : ChatProg Unit := ask (.write output)

/-! ## The budget of a route -/

def readUsageRecords : ChatProg (List UsageRecord) :=
  if r.hasUsageStore && r.hasUsageRecords then do
    let records ← ask .getUsageRecords
    Prog.ofExcept records
  else pure []

/-- The budget's answer, given the usage records. -/
def budgetStatus (settings : Option BudgetLimitSettings) (attemptIndex : Nat)
    (route : ResolvedPiModelRoute) (usage : List UsageRecord) : BudgetStatus :=
  evaluateBudget
    { settings
      usage
      provider := some route.route.resolvedProvider
      estimatedRequestUsd := estimateChatRequestCostUsd
        ⟨route.model.cost.map Prod.fst, route.model.cost.map Prod.snd⟩ r.messages r.requestedTokens
      now := r.checkedAt attemptIndex }

def evaluateChatRouteBudget (attemptIndex : Nat) (route : ResolvedPiModelRoute) :
    ChatProg (Option BudgetStatus) :=
  match r.budgetSettings with
  | none => pure none
  | some settings => do
    let usage ← r.readUsageRecords
    pure (some (r.budgetStatus settings attemptIndex route usage))

/-! ## The state of a connection and the usage record -/

def clearUnavailable (attemptIndex : Nat) (auth : Option RequestAuth) : ChatProg Unit :=
  match auth with
  | some auth =>
    if auth.clearUnavailable then do
      let cleared ← ask (.clearUnavailable attemptIndex auth)
      Prog.ofExcept cleared
    else pure ()
  | none => pure ()

def markUnavailable (attemptIndex : Nat) (auth : Option RequestAuth) (error : Reported) :
    ChatProg Unit :=
  match auth with
  | some auth =>
    if auth.markUnavailable then do
      let marked ← ask (.markUnavailable attemptIndex auth error)
      Prog.ofExcept marked
    else pure ()
  | none => pure ()

def updateAttemptConnectionState (attemptIndex : Nat) (auth : Option RequestAuth)
    (status : UsageRecordStatus) (error : Reported) : ChatProg Unit :=
  match status with
  | .success => clearUnavailable attemptIndex auth
  | .error => markUnavailable attemptIndex auth error
  | _ => pure ()

def getAttemptConnectionId (route : ResolvedPiModelRoute) (auth : Option RequestAuth) :
    Option String :=
  (auth.bind RequestAuth.connectionId).orElse fun _ => route.route.connectionId

/-- What the records of an attempt have in common. -/
def attemptRecord (attemptIndex : Nat) (route : ResolvedPiModelRoute) (auth : Option RequestAuth)
    (status : UsageRecordStatus) : AttemptRecord where
  requestId := r.requestId
  timestamp := r.beginsAt attemptIndex
  requestedModel := r.plan.requestedModel
  routingMode := r.plan.routingMode
  routeSource := route.route.source
  resolvedProvider := route.route.resolvedProvider
  resolvedModel := route.route.resolvedModel
  connectionId := getAttemptConnectionId route auth
  attemptIndex
  attemptCount := r.plan.routes.length
  endpoint := "/v1/chat/completions"
  clientOrigin := r.clientOrigin
  usage := none
  status
  errorCode := none
  errorMessage := none

def recordUsage (record : AttemptRecord) : ChatProg Unit :=
  if r.hasUsageStore then do
    let recorded ← ask (.recordUsage record)
    Prog.ofExcept recorded
  else pure ()

def recordBudgetSkippedUsage (attemptIndex : Nat) (route : ResolvedPiModelRoute)
    (budgetStatus : BudgetStatus) : ChatProg Unit :=
  r.recordUsage
    { r.attemptRecord attemptIndex route none .skipped with
      errorCode := some (.text "budget_limit_exceeded")
      errorMessage := some budgetStatus.violationMessage }

/-! ## An attempt -/

/-- How the body of the loop ends: `continue`, `break` or `return`. -/
inductive LoopStep where
  | next (attemptErrors : List AttemptError)
  | stop (attemptErrors : List AttemptError)
  | returned
  deriving DecidableEq

/-- What the `catch` of an attempt does in both handlers. -/
def noteFailure (attemptIndex : Nat) (route : ResolvedPiModelRoute)
    (fallback : AttemptFallbackDecision)
    (auth : Option RequestAuth) (error : Thrown) : ChatProg Unit := do
  markUnavailable attemptIndex auth (.thrown error)
  r.recordUsage
    { r.attemptRecord attemptIndex route auth .error with
      errorCode := fallback.statusCode.map .number
      errorMessage := some error.message }

/-- The `catch` of the plain handler. -/
def catchError (attemptIndex : Nat) (route : ResolvedPiModelRoute) (canFallback : Bool)
    (auth : Option RequestAuth) (attemptErrors : List AttemptError) (error : Thrown) : ChatProg LoopStep := do
  let fallback := getAttemptFallbackDecision r.texts canFallback error false
  let attemptErrors := attemptErrors ++ [toAttemptError route error.message fallback]
  r.noteFailure attemptIndex route fallback auth error
  pure (if fallback.shouldFallback then .next attemptErrors else .stop attemptErrors)

def stopReasonText : StopReason → String
  | .stop => "stop"
  | .length => "length"
  | .toolUse => "toolUse"
  | .error => "error"
  | .aborted => "aborted"

/-- The status of a completed attempt. -/
def statusOf (assistant : AssistantMessage) : UsageRecordStatus :=
  match assistant.stopReason with
  | .error => .error
  | .aborted => .aborted
  | _ => .success

/-- `assistant.errorMessage ?? assistant` -/
def reportedOf (assistant : AssistantMessage) : Reported :=
  match assistant.errorMessage with
  | some message => .text message
  | none => .message assistant

def stopMessage (assistant : AssistantMessage) : String :=
  assistant.errorMessage.getD ("Model stopped with " ++ stopReasonText assistant.stopReason)

/-- What follows a completed model call, in the `try`. -/
def noteCompletion (attemptIndex : Nat) (route : ResolvedPiModelRoute) (auth : Option RequestAuth)
    (assistant : AssistantMessage) : ChatProg Unit := do
  updateAttemptConnectionState attemptIndex auth (statusOf assistant) (reportedOf assistant)
  r.recordUsage
    { r.attemptRecord attemptIndex route auth (statusOf assistant) with
      usage := some assistant.usage
      errorMessage := assistant.errorMessage }

/-- The end of the `try`. -/
def concludeAttempt (route : ResolvedPiModelRoute) (canFallback : Bool)
    (attemptErrors : List AttemptError) (assistant : AssistantMessage) : ChatProg LoopStep :=
  if statusOf assistant = .success then do
    write (.json 200 (.completion assistant route))
    pure .returned
  else
    let message := stopMessage assistant
    let fallback := getAttemptFallbackDecision r.texts canFallback (r.texts.ofText message)
      (statusOf assistant = .aborted)
    let attemptErrors := attemptErrors ++ [toAttemptError route message fallback]
    pure (if fallback.shouldFallback then .next attemptErrors else .stop attemptErrors)

def executeChatCompletion (attemptIndex : Nat) (route : ResolvedPiModelRoute) :
    ChatProg (AssistantMessage × Option RequestAuth) := do
  let resolved ← ask (.resolveAuth attemptIndex route.model)
  let auth ← Prog.ofExcept resolved
  let completed ← ask (.complete attemptIndex route.model)
  let assistant ← Prog.ofExcept completed
  pure (assistant, auth)

/-- The `try` of the plain handler; `auth` is set once the model call has ended. -/
def attempt (attemptIndex : Nat) (route : ResolvedPiModelRoute) (canFallback : Bool)
    (attemptErrors : List AttemptError) : ChatProg LoopStep := do
  match ← Prog.protect (executeChatCompletion attemptIndex route) with
  | .error error => r.catchError attemptIndex route canFallback none attemptErrors error
  | .ok (assistant, auth) =>
    match ← Prog.protect (r.noteCompletion attemptIndex route auth assistant) with
    | .error error => r.catchError attemptIndex route canFallback auth attemptErrors error
    | .ok () => r.concludeAttempt route canFallback attemptErrors assistant

/-! ## An attempt that streams -/

/-- `writeRoleChunk` -/
def writeRoleChunk (route : ResolvedPiModelRoute) (visibleChunkSent : Bool) : ChatProg Unit :=
  if visibleChunkSent then pure ()
  else do
    write .sseHeaders
    write (.chunk route .role none)

/-- A failure behind a chunk that is out. -/
def writeStreamFailure (message : String) : ChatProg LoopStep := do
  write (.sseError message)
  write .sseDone
  write .ended
  pure .returned

def writeRoutedFailureJson (message : String) (attemptErrors : List AttemptError) :
    ChatProg LoopStep := do
  write (.json 502 (.failed message attemptErrors))
  pure .returned

/-- The `catch` of the streaming handler. -/
def catchStreamError (attemptIndex : Nat) (route : ResolvedPiModelRoute) (canFallback : Bool)
    (auth : Option RequestAuth) (attemptErrors : List AttemptError) (visibleChunkSent : Bool)
    (error : Thrown) : ChatProg LoopStep := do
  let fallback := getAttemptFallbackDecision r.texts canFallback error false
  let attemptErrors := attemptErrors ++ [toAttemptError route error.message fallback]
  r.noteFailure attemptIndex route fallback auth error
  if visibleChunkSent then writeStreamFailure error.message
  else if fallback.shouldFallback then pure (.next attemptErrors)
  else writeRoutedFailureJson error.message attemptErrors

def toOpenAIFinishReason (message : AssistantMessage) : String :=
  match message.stopReason with
  | .length => "length"
  | .toolUse => "tool_calls"
  | _ => "stop"

/-- The bookkeeping of a `done` event. -/
def noteDone (attemptIndex : Nat) (route : ResolvedPiModelRoute) (auth : Option RequestAuth)
    (message : AssistantMessage) : ChatProg Unit := do
  clearUnavailable attemptIndex auth
  r.recordUsage { r.attemptRecord attemptIndex route auth .success with usage := some message.usage }

def writeDone (route : ResolvedPiModelRoute) (visibleChunkSent : Bool)
    (message : AssistantMessage) :
    ChatProg LoopStep := do
  writeRoleChunk route visibleChunkSent
  write (.chunk route .empty (some (toOpenAIFinishReason message)))
  write .sseDone
  write .ended
  pure .returned

def endedMessage : String := "Stream ended without a terminal event."

/-- What follows a stream that has ended, with the errors up to it. -/
def unterminated (attemptIndex : Nat) (route : ResolvedPiModelRoute) (canFallback : Bool)
    (auth : Option RequestAuth) (attemptErrors : List AttemptError) (visibleChunkSent : Bool) :
    ChatProg LoopStep := do
  let fallback := getAttemptFallbackDecision r.texts canFallback (r.texts.ofText endedMessage) false
  let attemptErrors := attemptErrors ++ [toAttemptError route endedMessage fallback]
  match ← Prog.protect (do
      markUnavailable attemptIndex auth (.text endedMessage)
      r.recordUsage
        { r.attemptRecord attemptIndex route auth .error with
          errorCode := fallback.statusCode.map .number
          errorMessage := some endedMessage }) with
  | .error error => r.catchStreamError attemptIndex route canFallback auth attemptErrors visibleChunkSent error
  | .ok () =>
    if !visibleChunkSent && fallback.shouldFallback then pure (.next attemptErrors)
    else if visibleChunkSent then writeStreamFailure endedMessage
    else writeRoutedFailureJson endedMessage attemptErrors

/-- The bookkeeping of an `error` event. -/
def noteStreamError (attemptIndex : Nat) (route : ResolvedPiModelRoute)
    (fallback : AttemptFallbackDecision) (auth : Option RequestAuth) (aborted : Bool)
    (error : AssistantMessage) (message : String) : ChatProg Unit := do
  let status := if aborted then UsageRecordStatus.aborted else .error
  updateAttemptConnectionState attemptIndex auth status (.message error)
  r.recordUsage
    { r.attemptRecord attemptIndex route auth status with
      usage := some error.usage
      errorCode := fallback.statusCode.map .number
      errorMessage := some message }

def streamErrorMessage (aborted : Bool) (error : AssistantMessage) : String :=
  error.errorMessage.getD ("Model stopped with " ++ if aborted then "aborted" else "error")

/-- An `error` event. An empty message does not count as a failure. -/
def streamError (attemptIndex : Nat) (route : ResolvedPiModelRoute) (canFallback : Bool)
    (auth : Option RequestAuth) (attemptErrors : List AttemptError) (visibleChunkSent aborted : Bool)
    (error : AssistantMessage) : ChatProg LoopStep := do
  let message := streamErrorMessage aborted error
  let fallback := getAttemptFallbackDecision r.texts canFallback (r.texts.ofText message) aborted
  match ← Prog.protect (r.noteStreamError attemptIndex route fallback auth aborted error message) with
  | .error thrown => r.catchStreamError attemptIndex route canFallback auth attemptErrors visibleChunkSent thrown
  | .ok () =>
    if visibleChunkSent then writeStreamFailure message
    else
      let attemptErrors := attemptErrors ++ [toAttemptError route message fallback]
      if fallback.shouldFallback then pure (.next attemptErrors)
      else if message ≠ "" then writeRoutedFailureJson message attemptErrors
      else r.unterminated attemptIndex route canFallback auth attemptErrors visibleChunkSent

/-- The events of the stream, and what follows them. -/
def streamEvents (attemptIndex : Nat) (route : ResolvedPiModelRoute) (canFallback : Bool)
    (auth : Option RequestAuth) (attemptErrors : List AttemptError) (broken : Option Thrown) :
    Bool → List StreamEvent → ChatProg LoopStep
  | visibleChunkSent, [] =>
    match broken with
    | some error => r.catchStreamError attemptIndex route canFallback auth attemptErrors visibleChunkSent error
    | none => r.unterminated attemptIndex route canFallback auth attemptErrors visibleChunkSent
  | visibleChunkSent, .textDelta delta :: events => do
    writeRoleChunk route visibleChunkSent
    write (.chunk route (.content delta) none)
    streamEvents attemptIndex route canFallback auth attemptErrors broken true events
  | visibleChunkSent, .toolcallEnd id name arguments :: events => do
    writeRoleChunk route visibleChunkSent
    write (.chunk route (.toolCall id name arguments) none)
    streamEvents attemptIndex route canFallback auth attemptErrors broken true events
  | visibleChunkSent, .done message :: _ => do
    match ← Prog.protect (r.noteDone attemptIndex route auth message) with
    | .error error => r.catchStreamError attemptIndex route canFallback auth attemptErrors visibleChunkSent error
    | .ok () => writeDone route visibleChunkSent message
  | visibleChunkSent, .error aborted error :: _ =>
    r.streamError attemptIndex route canFallback auth attemptErrors visibleChunkSent aborted error
  | visibleChunkSent, .other :: events =>
    streamEvents attemptIndex route canFallback auth attemptErrors broken visibleChunkSent events

/-- The `try` of the streaming handler. -/
def streamAttempt (attemptIndex : Nat) (route : ResolvedPiModelRoute) (canFallback : Bool)
    (attemptErrors : List AttemptError) : ChatProg LoopStep := do
  match ← ask (.resolveAuth attemptIndex route.model) with
  | .error error => r.catchStreamError attemptIndex route canFallback none attemptErrors false error
  | .ok auth =>
    match ← ask (.openStream attemptIndex route.model) with
    | .error error => r.catchStreamError attemptIndex route canFallback auth attemptErrors false error
    | .ok stream =>
      r.streamEvents attemptIndex route canFallback auth attemptErrors stream.broken false stream.events

/-! ## The loop over the routes -/

/-- An attempt whose budget is used up. -/
def blockAttempt (attemptIndex : Nat) (route : ResolvedPiModelRoute) (canFallback : Bool)
    (attemptErrors : List AttemptError) (status : BudgetStatus) : ChatProg LoopStep := do
  let attemptErrors := attemptErrors ++ [toBudgetAttemptError route status canFallback]
  r.recordBudgetSkippedUsage attemptIndex route status
  if canFallback then pure (.next attemptErrors)
  else do
    write (.json 402 (.budgetLimit status attemptErrors))
    pure .returned

/-- The body of the loop. -/
def tryRoute (attemptIndex : Nat) (route : ResolvedPiModelRoute) (canFallback : Bool)
    (attemptErrors : List AttemptError) : ChatProg LoopStep := do
  match ← r.evaluateChatRouteBudget attemptIndex route with
  | some status =>
    if status.shouldBlock then r.blockAttempt attemptIndex route canFallback attemptErrors status
    else if r.stream then r.streamAttempt attemptIndex route canFallback attemptErrors
    else r.attempt attemptIndex route canFallback attemptErrors
  | none =>
    if r.stream then r.streamAttempt attemptIndex route canFallback attemptErrors
    else r.attempt attemptIndex route canFallback attemptErrors

def allFailedMessage : String :=
  if r.stream then "All routed model attempts failed before streaming began."
  else "All routed model attempts failed."

/-- The routes from one on. -/
def attempts : Nat → List ResolvedPiModelRoute → List AttemptError → ChatProg Unit
  | _, [], attemptErrors => write (.json 502 (.failed r.allFailedMessage attemptErrors))
  | attemptIndex, route :: routes, attemptErrors => do
    match ← r.tryRoute attemptIndex route (!routes.isEmpty) attemptErrors with
    | .next attemptErrors => attempts (attemptIndex + 1) routes attemptErrors
    | .stop attemptErrors => write (.json 502 (.failed r.allFailedMessage attemptErrors))
    | .returned => pure ()

/-- `handleChatCompletionsRequest` once the plan is resolved, and `handleStreamingChatCompletion` -/
def handleChatCompletion : ChatProg Unit := r.attempts 0 r.plan.routes []

end ChatCompletionRequest

end PieLab.Server

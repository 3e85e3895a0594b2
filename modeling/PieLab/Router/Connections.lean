import Mathlib.Algebra.Order.Floor.Ring
import Mathlib.Data.Rat.Floor
import Mathlib.Data.String.Basic
import PieLab.Json
import PieLab.Lib.Checks
import PieLab.Lib.IsoDate
import PieLab.Lib.OrderedMap
import PieLab.Lib.StableSort
import PieLab.Messages

/-
  Choosing a provider connection

  The router picks one of the connections of a provider for a request, and the
  dashboard explains the choice. A connection is ruled out when it is inactive,
  excluded or locked for the model, and by what is left of its quota; the strategy
  picks among the rest.

  Correspondence (TypeScript ↔ Lean): the names of packages/router/src/index.ts.
  `dateNow` is what `Date.now()` gives during a call. The index properties of a
  connection, the locks among them, are its `properties`; the fields no function
  here reads are left out. The settings a call works with are computed by the same
  expressions in `selectProviderConnection` and its explanation, and stand once here.
-/

namespace PieLab

open Lib

/-! ## Texts and numbers -/

/-- What the language makes of a text. -/
structure NumberSyntax where
  /-- `Number(text)`, where it is finite -/
  number : String → Option ℚ
  /-- `Number.parseInt(text, 10)`, where it is a number -/
  parseInt : String → Option Int

/-- `number | string` -/
inductive NumberOrText where
  | number (value : ℚ)
  | text (value : String)
  deriving DecidableEq, Repr

/-- `string | string[]` -/
inductive OneOrMany where
  | one (value : String)
  | many (values : List String)
  deriving DecidableEq, Repr

/-! ## Connections, settings and answers -/

/-- The instants a `Date` holds. -/
abbrev TimeValue := { t : Int // IsTimeValue t }

/-- What the router takes from the language. -/
structure RouterEnv where
  dates : DateFormat
  numbers : NumberSyntax
  /-- `Number.parseFloat(text)`, where it is finite -/
  parseFloat : String → Option ℚ
  /-- `String(value)` -/
  numberText : ℚ → String
  /-- `value.toFixed(2)` -/
  toFixed2 : ℚ → String

inductive AccountSelectionStrategy where
  | fillFirst | roundRobin | quotaAware
  deriving DecidableEq, Repr

inductive QuotaSelectionStrategy where
  | off | preferRemaining | requireRemaining
  deriving DecidableEq, Repr

structure ProviderConnectionReference where
  id : String
  provider : String
  isActive : Option Bool
  priority : Option ℚ
  lastUsedAt : Option String
  consecutiveUseCount : Option ℚ
  lastError : Option Json
  errorCode : Option Json
  providerSpecificData : Option Json
  /-- In the order of `Object.entries`. -/
  properties : List (String × Json)

structure ProviderAccountStrategyConfig where
  fallbackStrategy : Option AccountSelectionStrategy
  stickyRoundRobinLimit : Option NumberOrText
  quotaStrategy : Option String
  quotaMinRemainingPercentage : Option NumberOrText
  quotaMaxAgeMs : Option NumberOrText

structure ProviderAccountSelectionSettings extends ProviderAccountStrategyConfig where
  providerStrategies : Option (OrderedMap String ProviderAccountStrategyConfig)

structure SelectProviderConnectionOptions where
  provider : String
  model : Option String
  connections : List ProviderConnectionReference
  settings : Option ProviderAccountSelectionSettings
  excludeConnectionIds : Option OneOrMany
  preferredConnectionId : Option String
  now : Option TimeValue

/-- What to store on the connection that was chosen. -/
structure ConnectionUseUpdates where
  lastUsedAt : String
  consecutiveUseCount : ℚ
  deriving DecidableEq

inductive ProviderConnectionSelectionResult where
  | selected (connection : ProviderConnectionReference) (updates : Option ConnectionUseUpdates)
  | unavailable (retryAfter retryAfterHuman : String) (lastError lastErrorCode : Option Json)
  | missing

inductive SelectionStatus where
  | selected | unavailable | missing
  deriving DecidableEq, Repr

def ProviderConnectionSelectionResult.status : ProviderConnectionSelectionResult → SelectionStatus
  | .selected .. => .selected
  | .unavailable .. => .unavailable
  | .missing => .missing

structure ProviderConnectionCandidateExplanation where
  id : String
  provider : String
  isActive : Bool
  priority : Option ℚ
  selected : Bool
  selectable : Bool
  reasons : List String
  lastUsedAt : Option String
  consecutiveUseCount : Option ℚ
  modelLockUntil : Option String
  quotaSelection : Option Json
  quotaFresh : Bool
  quotaScore : ℚ
  remainingPercentage : Option ℚ

structure ProviderConnectionSelectionExplanation where
  provider : String
  model : Option String
  status : SelectionStatus
  selectedConnectionId : Option String
  strategy : AccountSelectionStrategy
  quotaStrategy : QuotaSelectionStrategy
  quotaMaxAgeMs : Int
  quotaMinRemainingPercentage : ℚ
  candidates : List ProviderConnectionCandidateExplanation
  message : Option String

/-! ## Model locks -/

def modelLockPrefix : String := "modelLock_"
def modelLockAll : String := modelLockPrefix ++ "__all"

def getModelLockKey (model : Option String) : String :=
  match model with
  | none | some "" => modelLockAll
  | some model => modelLockPrefix ++ model

/-- `key.startsWith(MODEL_LOCK_PREFIX)` -/
def isModelLockKey (key : String) : Bool := modelLockPrefix.toList.isPrefixOf key.toList

/-- `connection[key] ?? connection[MODEL_LOCK_ALL]` -/
def lockExpiry (connection : ProviderConnectionReference) (model : Option String) : Option Json :=
  Json.orElse (connection.properties.lookup (getModelLockKey model))
    (connection.properties.lookup modelLockAll)

def isModelLockActive (env : RouterEnv) (dateNow : TimeValue)
    (connection : ProviderConnectionReference) (model : Option String) : Bool :=
  match lockExpiry connection model with
  | some (.string expiry) => (env.dates.parse expiry).any fun t => dateNow.val < t
  | _ => false

/-- One entry of the loop of `getEarliestModelLockUntil`; `some none` is NaN. -/
def earliestLockStep (dates : DateFormat) (now : Int) (earliest : Option (Option Int))
    (entry : String × Json) : Option (Option Int) :=
  match entry with
  | (key, .string value) =>
    if !isModelLockKey key then earliest
    else
      let time := dates.parse value
      -- a comparison with NaN is false
      if time.any (· ≤ now) then earliest
      else match earliest with
        | none => some time
        | some none => earliest
        | some (some e) => if time.any (· < e) then some time else earliest
  | _ => earliest

def getEarliestModelLockUntil (env : RouterEnv) (dateNow : TimeValue)
    (connection : ProviderConnectionReference) : Except String (Option String) :=
  match connection.properties.foldl (earliestLockStep env.dates dateNow.val) none with
  | none => .ok none
  | some none => .error "Invalid time value"
  | some (some earliest) => .ok (some (isoText earliest))

/-- The hours, minutes and seconds of a wait; the text is a date. -/
def formatRetryAfter (env : RouterEnv) (dateNow : TimeValue) (rateLimitedUntil : String) : String :=
  if rateLimitedUntil = "" then ""
  else match env.dates.parse rateLimitedUntil with
    | none => "reset after NaNs"
    | some until_ =>
      let diffMs := until_ - dateNow.val
      if diffMs ≤ 0 then "reset after 0s"
      else
        let totalSeconds := -(-diffMs / 1000)
        let hours := totalSeconds / 3600
        let minutes := totalSeconds % 3600 / 60
        let seconds := totalSeconds % 60
        let parts := (if 0 < hours then [toString hours ++ "h"] else []) ++
          (if 0 < minutes then [toString minutes ++ "m"] else [])
        let parts := if 0 < seconds ∨ parts = [] then parts ++ [toString seconds ++ "s"] else parts
        "reset after " ++ " ".intercalate parts

/-! ## Settings -/

def NumberOrText.toText (env : RouterEnv) : NumberOrText → String
  | .number value => env.numberText value
  | .text value => value

/-- `String(value ?? "")` -/
def settingText (env : RouterEnv) (value : Option NumberOrText) : String :=
  value.elim "" (NumberOrText.toText env)

def normalizeAccountStickyLimit (env : RouterEnv) (stickyLimit : NumberOrText) : Int :=
  match env.numbers.parseInt (stickyLimit.toText env) with
  | some parsed => if 0 < parsed then parsed else 3
  | none => 3

def normalizeQuotaStrategy (value : String) : QuotaSelectionStrategy :=
  if value = "prefer-remaining" then .preferRemaining
  else if value = "require-remaining" then .requireRemaining
  else .off

def normalizeDurationMs (env : RouterEnv) (value : Option NumberOrText) (fallback : Int) : Int :=
  match env.numbers.parseInt (settingText env value) with
  | some parsed => if 0 ≤ parsed then parsed else fallback
  | none => fallback

def normalizePercentage (env : RouterEnv) (value : Option NumberOrText) (fallback : ℚ) : ℚ :=
  match env.parseFloat (settingText env value) with
  | some parsed => max 0 (min 100 parsed)
  | none => fallback

/-- The ids of a set: no value and the empty text stand for none. -/
def normalizeConnectionIdSet (value : Option OneOrMany) : List String :=
  match value with
  | none | some (.one "") => []
  | some (.one id) => [id]
  | some (.many ids) => ids

/-- A setting of the provider, or the one for all providers. -/
def providerSetting {α : Type} (options : SelectProviderConnectionOptions)
    (field : ProviderAccountStrategyConfig → Option α) : Option α :=
  ((options.settings.bind fun settings => settings.providerStrategies.bind fun strategies =>
      strategies.get? options.provider).bind field).or
    (options.settings.bind fun settings => field settings.toProviderAccountStrategyConfig)

def selectionStrategy (options : SelectProviderConnectionOptions) : AccountSelectionStrategy :=
  (providerSetting options (·.fallbackStrategy)).getD .fillFirst

def selectionQuotaStrategy (options : SelectProviderConnectionOptions) : QuotaSelectionStrategy :=
  normalizeQuotaStrategy ((providerSetting options (·.quotaStrategy)).getD
    (if selectionStrategy options = .quotaAware then "prefer-remaining" else "off"))

def selectionQuotaMaxAgeMs (env : RouterEnv) (options : SelectProviderConnectionOptions) : Int :=
  normalizeDurationMs env (providerSetting options (·.quotaMaxAgeMs)) (5 * 60 * 1000)

def selectionQuotaMinRemaining (env : RouterEnv) (options : SelectProviderConnectionOptions) : ℚ :=
  normalizePercentage env (providerSetting options (·.quotaMinRemainingPercentage)) 0

def selectionStickyLimit (env : RouterEnv) (options : SelectProviderConnectionOptions) : Int :=
  normalizeAccountStickyLimit env
    ((providerSetting options (·.stickyRoundRobinLimit)).getD (.number 3))

/-- `options.now ?? new Date()` -/
def selectionNow (dateNow : TimeValue) (options : SelectProviderConnectionOptions) : TimeValue :=
  options.now.getD dateNow

/-! ## Quota scores -/

structure QuotaScore where
  hasFreshSnapshot : Bool
  status : Json
  score : ℚ
  remainingPercentage : Option ℚ

def quotaSelectionKey : String := "pieLabQuotaSelection"
def legacyQuotaSelectionKey : String := "pieAdkQuotaSelection"

def readProviderConnectionQuotaSnapshot (connection : ProviderConnectionReference) : Option Json :=
  match connection.providerSpecificData with
  | none => none
  | some data =>
    match Json.orElse (data.get? quotaSelectionKey) (data.get? legacyQuotaSelectionKey) with
    | some (.object fields) => some (.object fields)
    | _ => none

/-- A property that is a finite number. -/
def finiteNumber (value : Option Json) : Option ℚ :=
  match value with
  | some (.number (some q)) => some q
  | _ => none

def snapshotStatus (snapshot : Json) : Json :=
  (Json.orElse (snapshot.get? "status") none).getD (.string "unknown")

/-- `Date.parse` of the property, where it is a text -/
def snapshotCheckedAt (env : RouterEnv) (snapshot : Json) : Option Int :=
  match snapshot.get? "checkedAt" with
  | some (.string text) => env.dates.parse text
  | _ => none

def getProviderConnectionQuotaScore (env : RouterEnv) (connection : ProviderConnectionReference)
    (now : TimeValue) (maxAgeMs : Int) : QuotaScore :=
  match readProviderConnectionQuotaSnapshot connection with
  | none =>
    { hasFreshSnapshot := false, status := .string "unknown", score := -1
      remainingPercentage := none }
  | some snapshot =>
    let fresh := (snapshotCheckedAt env snapshot).any fun checkedAt =>
      now.val - checkedAt ≤ maxAgeMs
    if !fresh then
      { hasFreshSnapshot := false, status := snapshotStatus snapshot, score := -1
        remainingPercentage := none }
    else
      let rawScore := (finiteNumber (snapshot.get? "score")).getD (-1)
      { hasFreshSnapshot := true
        status := snapshotStatus snapshot
        score := max (-1) (min 1 rawScore)
        remainingPercentage := finiteNumber (snapshot.get? "remainingPercentage") }

/-- `score.status === "depleted"` -/
def QuotaScore.isDepleted (score : QuotaScore) : Bool :=
  match score.status with
  | .string text => text = "depleted"
  | _ => false

structure QuotaFilterOptions where
  now : TimeValue
  quotaStrategy : QuotaSelectionStrategy
  quotaMaxAgeMs : Int
  quotaMinRemainingPercentage : ℚ

def applyQuotaSelectionFilter (env : RouterEnv) (connections : List ProviderConnectionReference)
    (options : QuotaFilterOptions) : List ProviderConnectionReference :=
  if options.quotaStrategy = .off then connections
  else connections.filter fun connection =>
    let score := getProviderConnectionQuotaScore env connection options.now options.quotaMaxAgeMs
    if !score.hasFreshSnapshot then options.quotaStrategy ≠ .requireRemaining
    else if score.isDepleted then false
    else if options.quotaStrategy = .requireRemaining then
      score.remainingPercentage.all fun remaining =>
        options.quotaMinRemainingPercentage ≤ remaining
    else true

/-! ## Orders -/

/-- `connection.priority || 999` -/
def priorityValue (connection : ProviderConnectionReference) : ℚ :=
  match connection.priority with
  | none => 999
  | some priority => if priority = 0 then 999 else priority

def byPriority (left right : ProviderConnectionReference) : ℚ :=
  priorityValue left - priorityValue right

def sortProviderConnections (connections : List ProviderConnectionReference) :
    List ProviderConnectionReference :=
  sortBy byPriority connections

def parseOptionalTime (env : RouterEnv) (value : Option String) : Option Int :=
  match value with
  | none | some "" => none
  | some value => env.dates.parse value

def sortByMostRecentUseThenPriority (env : RouterEnv)
    (left right : ProviderConnectionReference) : ℚ :=
  match parseOptionalTime env left.lastUsedAt, parseOptionalTime env right.lastUsedAt with
  | none, none => priorityValue left - priorityValue right
  | none, some _ => 1
  | some _, none => -1
  | some leftTime, some rightTime => (rightTime - leftTime : Int)

def sortByOldestUseThenPriority (env : RouterEnv)
    (left right : ProviderConnectionReference) : ℚ :=
  match parseOptionalTime env left.lastUsedAt, parseOptionalTime env right.lastUsedAt with
  | none, none => priorityValue left - priorityValue right
  | none, some _ => -1
  | some _, none => 1
  | some leftTime, some rightTime => (leftTime - rightTime : Int)

def byQuotaThenPriority (env : RouterEnv) (now : TimeValue) (quotaMaxAgeMs : Int)
    (left right : ProviderConnectionReference) : ℚ :=
  let leftScore := getProviderConnectionQuotaScore env left now quotaMaxAgeMs
  let rightScore := getProviderConnectionQuotaScore env right now quotaMaxAgeMs
  if rightScore.score ≠ leftScore.score then rightScore.score - leftScore.score
  else priorityValue left - priorityValue right

def sortProviderConnectionsByQuota (env : RouterEnv)
    (connections : List ProviderConnectionReference) (now : TimeValue) (quotaMaxAgeMs : Int) :
    List ProviderConnectionReference :=
  sortBy (byQuotaThenPriority env now quotaMaxAgeMs) connections

/-! ## Selection -/

/-- The active connections of the provider. -/
def providerConnections (options : SelectProviderConnectionOptions) :
    List ProviderConnectionReference :=
  sortProviderConnections (options.connections.filter fun connection =>
    connection.provider = options.provider && connection.isActive ≠ some false)

def unlockedConnections (env : RouterEnv) (dateNow : TimeValue)
    (options : SelectProviderConnectionOptions) : List ProviderConnectionReference :=
  (providerConnections options).filter fun connection =>
    !(normalizeConnectionIdSet options.excludeConnectionIds).contains connection.id &&
      !isModelLockActive env dateNow connection options.model

def lockedConnections (env : RouterEnv) (dateNow : TimeValue)
    (options : SelectProviderConnectionOptions) : List ProviderConnectionReference :=
  (providerConnections options).filter fun connection =>
    isModelLockActive env dateNow connection options.model

def availableConnections (env : RouterEnv) (dateNow : TimeValue)
    (options : SelectProviderConnectionOptions) : List ProviderConnectionReference :=
  applyQuotaSelectionFilter env (unlockedConnections env dateNow options)
    { now := selectionNow dateNow options
      quotaStrategy := selectionQuotaStrategy options
      quotaMaxAgeMs := selectionQuotaMaxAgeMs env options
      quotaMinRemainingPercentage := selectionQuotaMinRemaining env options }

/-- `expiries[0]`, the first of the texts in the order of their characters. -/
def firstExpiry (untils : List (Option String)) : Option String :=
  (((untils.filterMap id).filter (· ≠ "")).mergeSort fun s t => s ≤ t).head?

/-- The answer for the locked connections and the ends of their earliest locks. -/
def unavailableResult (env : RouterEnv) (dateNow : TimeValue)
    (locked : List ProviderConnectionReference) (untils : List (Option String)) :
    ProviderConnectionSelectionResult :=
  match firstExpiry untils with
  | none => .missing
  | some retryAfter =>
    .unavailable retryAfter (formatRetryAfter env dateNow retryAfter)
      (locked.head?.bind (·.lastError)) (locked.head?.bind (·.errorCode))

/-- The answer when every connection is locked or excluded. -/
def selectUnavailable (env : RouterEnv) (dateNow : TimeValue)
    (options : SelectProviderConnectionOptions) :
    Except String ProviderConnectionSelectionResult :=
  ((lockedConnections env dateNow options).mapM (getEarliestModelLockUntil env dateNow)).map
    (unavailableResult env dateNow (lockedConnections env dateNow options))

/-- The strategy `round-robin`, on connections that may be used. -/
def selectRoundRobin (env : RouterEnv) (now : TimeValue) (stickyLimit : Int)
    (available : List ProviderConnectionReference) : ProviderConnectionSelectionResult :=
  let oldest : ProviderConnectionSelectionResult :=
    match (sortBy (sortByOldestUseThenPriority env) available).head? with
    | none => .missing
    | some connection =>
      .selected connection (some { lastUsedAt := isoText now.val, consecutiveUseCount := 1 })
  match (sortBy (sortByMostRecentUseThenPriority env) available).head? with
  | none => oldest
  | some current =>
    let currentCount := current.consecutiveUseCount.getD 0
    if truthyText current.lastUsedAt ∧ currentCount < stickyLimit then
      .selected current
        (some { lastUsedAt := isoText now.val, consecutiveUseCount := currentCount + 1 })
    else oldest

def selectProviderConnection (env : RouterEnv) (dateNow : TimeValue)
    (options : SelectProviderConnectionOptions) :
    Except String ProviderConnectionSelectionResult :=
  if providerConnections options = [] then .ok .missing
  else if unlockedConnections env dateNow options = [] then selectUnavailable env dateNow options
  else
    let available := availableConnections env dateNow options
    if available = [] then .ok .missing
    else
      let pinned : Option ProviderConnectionReference :=
        match options.preferredConnectionId with
        | none | some "" => none
        | some preferred => available.find? fun connection => connection.id = preferred
      match pinned with
      | some connection => .ok (.selected connection none)
      | none =>
        let ranked :=
          if selectionQuotaStrategy options = .off then available
          else sortProviderConnectionsByQuota env available (selectionNow dateNow options)
            (selectionQuotaMaxAgeMs env options)
        if selectionStrategy options ≠ .roundRobin then
          match ranked.head? with
          | none => .ok .missing
          | some connection => .ok (.selected connection none)
        else
          .ok (selectRoundRobin env (selectionNow dateNow options)
            (selectionStickyLimit env options) available)

/-! ## The explanation -/

/-- What `explainProviderConnectionCandidate` gathers. -/
structure CandidateAssessment where
  selectable : Bool
  reasons : List String

structure ExplainCandidateOptions where
  model : Option String
  now : TimeValue
  excludeSet : List String
  selectedConnectionId : Option String
  quotaStrategy : QuotaSelectionStrategy
  quotaMaxAgeMs : Int
  quotaMinRemainingPercentage : ℚ
  preferredConnectionId : Option String

/-- `if (bad) { selectable = false; reasons.push(reason); }` -/
def CandidateAssessment.ruleOutIf (bad : Bool) (reason : String)
    (assessed : CandidateAssessment) : CandidateAssessment :=
  if bad then { selectable := false, reasons := assessed.reasons ++ [reason] } else assessed

/-- Whether the connection is active, excluded and locked. -/
def assessConnection (env : RouterEnv) (dateNow : TimeValue)
    (connection : ProviderConnectionReference) (options : ExplainCandidateOptions) :
    CandidateAssessment :=
  let assessed : CandidateAssessment := { selectable := true, reasons := [] }
  let assessed := assessed.ruleOutIf (connection.isActive = some false) "inactive connection"
  let assessed := assessed.ruleOutIf (options.excludeSet.contains connection.id)
    "excluded by current fallback attempt"
  assessed.ruleOutIf (isModelLockActive env dateNow connection options.model)
    (if truthyText options.model then "model cooldown for " ++ options.model.getD ""
    else "provider cooldown")

/-- What the quota says. -/
def assessQuota (env : RouterEnv) (quotaScore : QuotaScore) (options : ExplainCandidateOptions)
    (assessed : CandidateAssessment) : CandidateAssessment :=
  if options.quotaStrategy = .off then assessed
  else if !quotaScore.hasFreshSnapshot then
    { selectable := if options.quotaStrategy = .requireRemaining then false else assessed.selectable
      reasons := assessed.reasons ++ ["quota snapshot is missing or stale"] }
  else if quotaScore.isDepleted then
    { selectable := false, reasons := assessed.reasons ++ ["quota snapshot is depleted"] }
  else if options.quotaStrategy = .requireRemaining ∧
      quotaScore.remainingPercentage.any (fun remaining =>
        remaining < options.quotaMinRemainingPercentage) = true then
    { selectable := false
      reasons := assessed.reasons ++
        ["remaining quota is below " ++ env.numberText options.quotaMinRemainingPercentage ++ "%"] }
  else
    { selectable := assessed.selectable
      reasons := assessed.reasons ++ ["quota score " ++ env.toFixed2 quotaScore.score] }

/-- The reasons with those for the preferred and the selected connection. -/
def candidateReasons (connection : ProviderConnectionReference)
    (options : ExplainCandidateOptions) (assessed : CandidateAssessment) : List String :=
  let reasons :=
    if truthyText options.preferredConnectionId then
      assessed.reasons ++ [if some connection.id = options.preferredConnectionId then
        "preferred connection requested" else "not the requested preferred connection"]
    else assessed.reasons
  if some connection.id = options.selectedConnectionId then
    "selected by account strategy" :: reasons
  else if assessed.selectable ∧ reasons = [] then
    reasons ++ ["available but lower priority than selected connection"]
  else reasons

def explainProviderConnectionCandidate (env : RouterEnv) (dateNow : TimeValue)
    (options : ExplainCandidateOptions) (connection : ProviderConnectionReference) :
    Except String ProviderConnectionCandidateExplanation := do
  let modelLockUntil ← getEarliestModelLockUntil env dateNow connection
  let quotaScore :=
    getProviderConnectionQuotaScore env connection options.now options.quotaMaxAgeMs
  let assessed := assessQuota env quotaScore options
    (assessConnection env dateNow connection options)
  return { id := connection.id
           provider := connection.provider
           isActive := connection.isActive ≠ some false
           priority := connection.priority
           selected := some connection.id = options.selectedConnectionId
           selectable := assessed.selectable
           reasons := candidateReasons connection options assessed
           lastUsedAt := connection.lastUsedAt
           consecutiveUseCount := connection.consecutiveUseCount
           modelLockUntil
           quotaSelection := readProviderConnectionQuotaSnapshot connection
           quotaFresh := quotaScore.hasFreshSnapshot
           quotaScore := quotaScore.score
           remainingPercentage := quotaScore.remainingPercentage }

def ProviderConnectionSelectionResult.selectedId : ProviderConnectionSelectionResult → Option String
  | .selected connection _ => some connection.id
  | _ => none

/-- The connections of the provider, the inactive ones too. -/
def explainedConnections (options : SelectProviderConnectionOptions) :
    List ProviderConnectionReference :=
  sortProviderConnections (options.connections.filter fun connection =>
    connection.provider = options.provider)

def candidateOptions (env : RouterEnv) (dateNow : TimeValue)
    (options : SelectProviderConnectionOptions) (selection : ProviderConnectionSelectionResult) :
    ExplainCandidateOptions where
  model := options.model
  now := selectionNow dateNow options
  excludeSet := normalizeConnectionIdSet options.excludeConnectionIds
  selectedConnectionId := selection.selectedId
  quotaStrategy := selectionQuotaStrategy options
  quotaMaxAgeMs := selectionQuotaMaxAgeMs env options
  quotaMinRemainingPercentage := selectionQuotaMinRemaining env options
  preferredConnectionId := options.preferredConnectionId

/-- The explanation of a selection with its candidates. -/
def selectionExplanation (env : RouterEnv) (options : SelectProviderConnectionOptions)
    (selection : ProviderConnectionSelectionResult)
    (candidates : List ProviderConnectionCandidateExplanation) :
    ProviderConnectionSelectionExplanation where
  provider := options.provider
  model := options.model
  status := selection.status
  selectedConnectionId := selection.selectedId
  strategy := selectionStrategy options
  quotaStrategy := selectionQuotaStrategy options
  quotaMaxAgeMs := selectionQuotaMaxAgeMs env options
  quotaMinRemainingPercentage := selectionQuotaMinRemaining env options
  candidates
  message := match selection with
    | .unavailable _ retryAfterHuman .. => some retryAfterHuman
    | _ => none

def explainProviderConnectionSelection (env : RouterEnv) (dateNow : TimeValue)
    (options : SelectProviderConnectionOptions) :
    Except String ProviderConnectionSelectionExplanation := do
  let selection ← selectProviderConnection env dateNow options
  let candidates ← (explainedConnections options).mapM
    (explainProviderConnectionCandidate env dateNow (candidateOptions env dateNow options selection))
  return selectionExplanation env options selection candidates

end PieLab

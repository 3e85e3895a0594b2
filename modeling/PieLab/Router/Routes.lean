import Mathlib.Data.List.Infix
import Mathlib.Data.List.Rotate
import PieLab.Router.Connections

/-
  Resolving a model to a route

  A requested model is a provider's model, an alias of the router such as
  `auto:coding`, or the name of a combo. The route is resolved either by a resolver,
  which gives one candidate, or from the catalog and a policy, which gives a chain
  of candidates with the primary one first.

  Correspondence (TypeScript ↔ Lean): the names of packages/router/src/index.ts.
  A rejected promise is an `Except` error. Records are maps from names; numbers are
  exact. `comboRotationState` is an argument and a result.
-/

namespace PieLab.Router

open Lib

/-! ## Selections, models and policies -/

inductive RoutingMode where
  | fixed | router | fallback
  deriving DecidableEq, Repr

abbrev RouteSource := RoutingMode

inductive RouterBudget where
  | low | medium | high
  deriving DecidableEq, Repr

inductive RouterLatency where
  | low | normal
  deriving DecidableEq, Repr

structure RouterConstraints where
  budget : Option RouterBudget
  latency : Option RouterLatency
  quality : Option RouterBudget
  requireVision : Bool
  minContextTokens : Option ℚ
  maxCostUsd : Option ℚ
  deriving DecidableEq

inductive ModelSelection where
  | fixed (model : String)
  | router (intent : String) (constraints : Option RouterConstraints) (aliasName : Option String)
  | fallback (primary : String) (fallback : Option OneOrMany)
  deriving DecidableEq

def ModelSelection.mode : ModelSelection → RoutingMode
  | .fixed .. => .fixed
  | .router .. => .router
  | .fallback .. => .fallback

structure PiModelReference where
  provider : String
  id : String
  name : Option String
  input : Option (List String)
  /-- The prices of input and output. -/
  cost : Option (ℚ × ℚ)
  contextWindow : Option ℚ
  reasoning : Bool
  deriving DecidableEq

structure PiModelCatalog where
  find : String → String → Option PiModelReference
  getAvailable : List PiModelReference
  getAll : Option (List PiModelReference)

inductive ComboRotation where
  | fallback | roundRobin
  deriving DecidableEq, Repr

structure PiRouterCombo where
  name : String
  models : List String
  strategy : Option ComboRotation
  stickyLimit : Option NumberOrText

/-- `PiRouterCombo[] | { combos?: PiRouterCombo[] }` -/
inductive PiRouterCombosData where
  | list (combos : List PiRouterCombo)
  | nested (combos : Option (List PiRouterCombo))

/-- `ComboStrategy | PiRouterComboStrategyConfig` -/
inductive ComboStrategyOverride where
  | name (strategy : ComboRotation)
  | config (strategy : Option ComboRotation) (stickyLimit : Option NumberOrText)

structure PiRouterPolicy where
  aliases : Option (OrderedMap String OneOrMany)
  intents : Option (OrderedMap String OneOrMany)
  combos : Option PiRouterCombosData
  comboStrategy : Option ComboRotation
  comboStickyLimit : Option NumberOrText
  comboStrategies : Option (OrderedMap String ComboStrategyOverride)

structure RouteCandidate where
  provider : String
  model : String
  connectionId : Option String
  source : Option RouteSource
  deriving DecidableEq, Repr

structure ResolvedRoute where
  requestedModel : String
  routingMode : RoutingMode
  resolvedProvider : String
  resolvedModel : String
  connectionId : Option String
  source : RouteSource
  mode : RoutingMode
  deriving DecidableEq, Repr

structure ResolvedPiModelRoute where
  route : ResolvedRoute
  model : PiModelReference

structure ResolvedPiModelRoutePlan where
  requestedModel : String
  routingMode : RoutingMode
  routes : List ResolvedPiModelRoute
  primary : Option ResolvedPiModelRoute

structure RouteResolver where
  resolveModel : Option (String → ModelSelection → Option RouteCandidate)
  resolveIntent : Option (String → ModelSelection → Option RouteCandidate)

/-- `string | ModelSelection` -/
inductive RequestedSelection where
  | text (model : String)
  | selection (selection : ModelSelection)

/-- `string | ModelSelection | TModel` -/
inductive RequestedModel where
  | text (model : String)
  | selection (selection : ModelSelection)
  | model (model : PiModelReference)

/-- What the language makes of a text. -/
structure RouteEnv where
  toLowerCase : String → String
  numbers : NumberSyntax
  /-- `String(value)` -/
  numberText : ℚ → String

/-! ## Texts -/

/-- What stands in front of the first `c` and behind it. -/
def splitAtChar (c : Char) (text : String) : Option (String × String) :=
  if c ∈ text.toList then
    some (String.ofList (text.toList.takeWhile (· ≠ c)),
      String.ofList (text.toList.dropWhile (· ≠ c)).tail)
  else none

def splitModelPrefix (env : RouteEnv) (input : String) : Option (String × String) :=
  match splitAtChar ':' input with
  | none => none
  | some ("", _) => none
  | some (before, after) => some (env.toLowerCase before, jsTrim after)

def parseProviderModel (model : String) : Option RouteCandidate :=
  match splitAtChar '/' model with
  | none => none
  | some ("", _) => none
  | some (_, "") => none
  | some (provider, rest) =>
    some { provider, model := rest, connectionId := none, source := none }

def isRouterAlias (env : RouteEnv) (input : String) : Bool :=
  match splitModelPrefix env (jsTrim input) with
  | none => false
  | some (name, _) => ["auto", "cheap", "fast", "combo"].contains name

def noConstraints : RouterConstraints where
  budget := none
  latency := none
  quality := none
  requireVision := false
  minContextTokens := none
  maxCostUsd := none

def parseModelText (env : RouteEnv) (input : String) : Except String ModelSelection :=
  let raw := jsTrim input
  if raw = "" then .error "Model selection cannot be empty"
  else match splitModelPrefix env raw with
    | none => .ok (.fallback raw none)
    | some (name, value) =>
      if value = "" then
        .error ("Model selection \"" ++ raw ++ "\" is missing a value after \"" ++ name ++ ":\"")
      else if name = "fixed" then .ok (.fixed value)
      else if name = "fallback" then .ok (.fallback value none)
      else if name = "auto" then
        .ok (.router value (if value = "learning" ∨ value = "memory" then
          some { noConstraints with budget := some .low } else none) (some raw))
      else if name = "cheap" then
        .ok (.router value (some { noConstraints with budget := some .low }) (some raw))
      else if name = "fast" then
        .ok (.router value (some { noConstraints with latency := some .low }) (some raw))
      else if name = "combo" then .ok (.router value none (some raw))
      else .ok (.fallback raw none)

def parseModelSelection (env : RouteEnv) : RequestedSelection → Except String ModelSelection
  | .text input => parseModelText env input
  | .selection selection => .ok selection

def formatModelSelection : ModelSelection → String
  | .fixed model => "fixed:" ++ model
  | .fallback primary _ => "fallback:" ++ primary
  | .router intent _ aliasName => if truthyText aliasName then aliasName.getD "" else "auto:" ++ intent

/-- The text of the request, in messages and routes. -/
def requestedText (requested : RequestedSelection) (selection : ModelSelection) : String :=
  match requested with
  | .text model => jsTrim model
  | .selection _ => formatModelSelection selection

def isPiRouterProvider (provider : String) : Bool :=
  provider = "pie-lab-router" || provider = "pie-adk-router" || provider = "9router"

def isPiRouterModel (env : RouteEnv) (model : PiModelReference) : Bool :=
  isPiRouterProvider model.provider || isRouterAlias env model.id

def piModelToSelection (env : RouteEnv) (model : PiModelReference) : String :=
  if isPiRouterProvider model.provider then model.id
  else if isRouterAlias env model.id then model.id
  else if "fixed:".toList.isPrefixOf model.id.toList ∨
      "fallback:".toList.isPrefixOf model.id.toList then model.id
  else model.provider ++ "/" ++ model.id

/-- `toList(value)` -/
def toModelList (value : Option OneOrMany) : List String :=
  match value with
  | none | some (.one "") => []
  | some (.one model) => [model]
  | some (.many models) => models

/-! ## References to models -/

def resolveModelReference (catalog : PiModelCatalog) (modelReference : String) :
    Option PiModelReference :=
  match parseProviderModel modelReference with
  | some providerModel => catalog.find providerModel.provider providerModel.model
  | none =>
    match (catalog.getAll.getD catalog.getAvailable).filter (·.id = modelReference) with
    | [model] => some model
    | _ => none

def modelToCandidate (model : Option PiModelReference) (source : Option RouteSource) :
    Option RouteCandidate :=
  model.map fun model =>
    { provider := model.provider, model := model.id, connectionId := none, source }

def resolveModelReferenceWithRequested (env : RouteEnv) (catalog : PiModelCatalog)
    (modelReference : String) (requestedModelObject : Option PiModelReference) :
    Option PiModelReference :=
  match resolveModelReference catalog modelReference with
  | some model => some model
  | none => requestedModelObject.filter fun model => piModelToSelection env model = modelReference

def firstResolvedCandidate (catalog : PiModelCatalog) (source : RouteSource) :
    List String → Option RouteCandidate
  | [] => none
  | model :: rest =>
    match modelToCandidate (resolveModelReference catalog model) (some source) with
    | some candidate => some candidate
    | none => firstResolvedCandidate catalog source rest

/-- `provider/model/connectionId` -/
def candidateKey (candidate : RouteCandidate) : String :=
  candidate.provider ++ "/" ++ candidate.model ++ "/" ++ candidate.connectionId.getD ""

/-- The candidates whose key is not in `seen`. -/
def compactFrom : List String → List (Option RouteCandidate) → List RouteCandidate
  | _, [] => []
  | seen, none :: rest => compactFrom seen rest
  | seen, some candidate :: rest =>
    if candidateKey candidate ∈ seen then compactFrom seen rest
    else candidate :: compactFrom (candidateKey candidate :: seen) rest

def compactCandidates (candidates : List (Option RouteCandidate)) : List RouteCandidate :=
  compactFrom [] candidates

def resolveModelReferenceChain (env : RouteEnv) (catalog : PiModelCatalog) (models : List String)
    (source : RouteSource) (requestedModelObject : Option PiModelReference) :
    List RouteCandidate :=
  compactCandidates (models.map fun modelReference =>
    modelToCandidate
      (resolveModelReferenceWithRequested env catalog modelReference requestedModelObject)
      (some source))

/-! ## The best model for an intent -/

/-- `text.includes(keyword)` -/
def includesText (text keyword : String) : Bool := decide (keyword.toList <:+: text.toList)

def keywordScore (text : String) (keywords : List String) : ℚ :=
  (keywords.map fun keyword => if includesText text keyword then (2 : ℚ) else 0).sum

def estimateModelCost (model : PiModelReference) : ℚ :=
  (model.cost.map Prod.fst).getD 0 + (model.cost.map Prod.snd).getD 0

def autoRoutingDeprecatedModelIds : List String :=
  ["gemini-2.0-flash", "gemini-2.0-flash-001", "gemini-2.0-flash-lite",
    "gemini-2.0-flash-lite-001"]

def isDeprecatedForAutoRouting (env : RouteEnv) (model : PiModelReference) : Bool :=
  let id := env.toLowerCase model.id
  -- what stands behind the last slash
  let bareId := String.ofList (id.toList.reverse.takeWhile (· ≠ '/')).reverse
  autoRoutingDeprecatedModelIds.contains bareId

def acceptsImages (model : PiModelReference) : Bool := (model.input.getD []).contains "image"

def scoreModel (env : RouteEnv) (model : PiModelReference) (intent : String)
    (constraints : Option RouterConstraints) : ℚ :=
  let text := env.toLowerCase (model.provider ++ " " ++ model.id ++ " " ++ model.name.getD "")
  let keywords := keywordScore text
  let coding : ℚ := if intent = "coding" then keywords ["codex", "coding", "coder", "claude",
    "sonnet", "opus", "gpt-5", "glm", "kimi", "qwen", "deepseek"] else 0
  let chat : ℚ := if intent = "chat" then
    keywords ["chat", "mini", "flash", "haiku", "gpt-5", "gemini"] else 0
  let reasoning : ℚ := if intent = "reasoning" then
    keywords ["reasoning", "thinking", "opus", "pro", "gpt-5", "o3", "o4", "grok"] +
      (if model.reasoning then 4 else 0) else 0
  let vision : ℚ := if intent = "vision" then
    (if acceptsImages model then 10 else 0) + keywords ["vision", "gpt", "gemini", "claude"] else 0
  let learning : ℚ := if intent = "learning" ∨ intent = "memory" then
    keywords ["mini", "flash", "haiku", "small", "cheap", "gpt-5"] -
      keywords ["opus", "pro", "reasoning", "thinking"] / 2 else 0
  let budget : ℚ := if constraints.bind (·.budget) = some .low then
    keywords ["mini", "flash", "haiku", "cheap", "free", "groq", "cerebras"] -
      estimateModelCost model / 2 else 0
  let latency : ℚ := if constraints.bind (·.latency) = some .low then
    keywords ["mini", "flash", "haiku", "groq", "cerebras", "fast"] -
      keywords ["opus", "reasoning", "thinking", "pro"] / 2 else 0
  let quality : ℚ := if constraints.bind (·.quality) = some .high then
    keywords ["opus", "sonnet", "pro", "gpt-5", "claude"] else 0
  coding + chat + reasoning + vision + learning + budget + latency + quality +
    min (model.contextWindow.getD 0 / 100000) 3

/-- Whether the model may be picked for an intent. -/
def meetsConstraints (env : RouteEnv) (constraints : Option RouterConstraints)
    (model : PiModelReference) : Bool :=
  if isPiRouterModel env model then false
  else if isDeprecatedForAutoRouting env model then false
  else match constraints with
    | none => true
    | some constraints =>
      if constraints.requireVision && !acceptsImages model then false
      else if constraints.minContextTokens.any (fun n => n ≠ 0 && model.contextWindow.getD 0 < n)
      then false
      else !constraints.maxCostUsd.any fun n => n ≠ 0 && n < estimateModelCost model

def selectBestModels (env : RouteEnv) (models : List PiModelReference) (intent : String)
    (constraints : Option RouterConstraints) (limit : Nat) : List PiModelReference :=
  let scored := (models.filter (meetsConstraints env constraints)).zipIdx.map fun (model, index) =>
    (model, scoreModel env model intent constraints - (index : ℚ) / 100000)
  ((sortBy (fun a b => b.2 - a.2) scored).take limit).map Prod.fst

def selectBestModel (env : RouteEnv) (models : List PiModelReference) (intent : String)
    (constraints : Option RouterConstraints) : Option PiModelReference :=
  (selectBestModels env models intent constraints 1).head?

/-! ## Combos -/

structure ComboRotationEntry where
  index : Nat
  consecutiveUseCount : Nat
  deriving DecidableEq, Repr

abbrev ComboRotationState := OrderedMap String ComboRotationEntry

/-- `normalizeStickyLimit(stickyLimit)` -/
def normalizeComboStickyLimit (env : RouteEnv) (stickyLimit : NumberOrText) : Int :=
  let text := match stickyLimit with
    | .number value => env.numberText value
    | .text value => value
  match env.numbers.parseInt text with
  | some parsed => if 0 < parsed then parsed else 1
  | none => 1

/-- `rotateModelsFromIndex(models, currentIndex)` -/
def rotateModelsFromIndex (models : List String) (currentIndex : Nat) : List String :=
  models.rotate currentIndex

def getRotatedModels (env : RouteEnv) (rotation : ComboRotationState) (models : List String)
    (comboName : String) (strategy : ComboRotation) (stickyLimit : NumberOrText) :
    List String × ComboRotationState :=
  if models.length ≤ 1 ∨ strategy ≠ .roundRobin then (models, rotation)
  else
    let rotationKey := if comboName = "" then "__default__" else comboName
    let state := (rotation.get? rotationKey).getD { index := 0, consecutiveUseCount := 0 }
    let currentIndex := state.index % models.length
    let rotatedModels := rotateModelsFromIndex models currentIndex
    let nextUseCount := state.consecutiveUseCount + 1
    if normalizeComboStickyLimit env stickyLimit ≤ nextUseCount then
      (rotatedModels, rotation.set rotationKey
        { index := (currentIndex + 1) % models.length, consecutiveUseCount := 0 })
    else
      (rotatedModels, rotation.set rotationKey
        { index := currentIndex, consecutiveUseCount := nextUseCount })

def normalizeCombosData : Option PiRouterCombosData → List PiRouterCombo
  | none => []
  | some (.list combos) => combos
  | some (.nested combos) => combos.getD []

def findCombo (name : String) (combosData : Option PiRouterCombosData) : Option PiRouterCombo :=
  (normalizeCombosData combosData).find? (·.name = name)

def resolveComboStrategy (combo : PiRouterCombo) (policy : Option PiRouterPolicy) :
    ComboRotation × NumberOrText :=
  let override := (policy.bind (·.comboStrategies)).bind (·.get? combo.name)
  let overrideStrategy := match override with
    | some (.name strategy) => some strategy
    | some (.config strategy _) => strategy
    | none => none
  let overrideLimit := match override with
    | some (.config _ stickyLimit) => stickyLimit
    | _ => none
  (((overrideStrategy.or combo.strategy).or (policy.bind (·.comboStrategy))).getD .fallback,
    ((overrideLimit.or combo.stickyLimit).or (policy.bind (·.comboStickyLimit))).getD (.number 1))

/-- The models of a combo and the rotation after it; `none` where there is no combo. -/
def resolvePolicyCombo (env : RouteEnv) (rotation : ComboRotationState) (name : String)
    (policy : Option PiRouterPolicy) : Option (List String × ComboRotationState) :=
  match findCombo name (policy.bind (·.combos)) with
  | none => none
  | some combo =>
    if combo.models = [] then none
    else
      let (strategy, stickyLimit) := resolveComboStrategy combo policy
      some (getRotatedModels env rotation combo.models combo.name strategy stickyLimit)

/-- What stands behind `combo:` in an alias. -/
def comboAliasName (aliasName : Option String) : Option String :=
  aliasName.bind fun text =>
    if "combo:".toList.isPrefixOf text.toList then some (String.ofList (text.toList.drop 6))
    else none

def comboLookupNames (aliasName : Option String) : List String :=
  match comboAliasName aliasName with
  | none => []
  | some "" => [aliasName.getD ""]
  | some comboName => [comboName, aliasName.getD ""]

def firstPolicyCombo (env : RouteEnv) (rotation : ComboRotationState)
    (policy : Option PiRouterPolicy) : List String → Option (List String × ComboRotationState)
  | [] => none
  | comboName :: rest =>
    match resolvePolicyCombo env rotation comboName policy with
    | some combo => some combo
    | none => firstPolicyCombo env rotation policy rest

/-! ## Routes -/

/-- The models the policy names for an alias and an intent. -/
def policyModels (policy : Option PiRouterPolicy) (intent : String) (aliasName : Option String) :
    List String :=
  toModelList (if truthyText aliasName then
    (policy.bind (·.aliases)).bind (·.get? (aliasName.getD "")) else none) ++
    toModelList ((policy.bind (·.intents)).bind (·.get? intent))

def createPiRouteResolver (env : RouteEnv) (catalog : PiModelCatalog) (policy : PiRouterPolicy) :
    RouteResolver where
  resolveModel := some fun model selection =>
    match selection with
    | .fallback primary fallback =>
      firstResolvedCandidate catalog .fallback (primary :: toModelList fallback)
    | _ => modelToCandidate (resolveModelReference catalog model) none
  resolveIntent := some fun intent selection =>
    match selection with
    | .router _ constraints aliasName =>
      match firstResolvedCandidate catalog .router (policyModels (some policy) intent aliasName) with
      | some policyCandidate => some policyCandidate
      | none =>
        modelToCandidate (selectBestModel env catalog.getAvailable intent constraints)
          (some .router)
    | _ => none

def toResolvedRoute (requestedModel : String) (mode : RoutingMode) (candidate : RouteCandidate)
    (source : RouteSource) : ResolvedRoute where
  requestedModel
  routingMode := mode
  resolvedProvider := candidate.provider
  resolvedModel := candidate.model
  connectionId := candidate.connectionId
  source := candidate.source.getD source
  mode

/-- The candidate a resolver gives; a model may also name its provider. -/
def resolverCandidate (resolver : Option RouteResolver) : ModelSelection → Option RouteCandidate
  | .router intent constraints aliasName =>
    (resolver.bind (·.resolveIntent)).bind fun resolveIntent =>
      resolveIntent intent (.router intent constraints aliasName)
  | .fixed model =>
    ((resolver.bind (·.resolveModel)).bind fun resolveModel =>
      resolveModel model (.fixed model)).or (parseProviderModel model)
  | .fallback primary fallback =>
    ((resolver.bind (·.resolveModel)).bind fun resolveModel =>
      resolveModel primary (.fallback primary fallback)).or (parseProviderModel primary)

def noRouteMessage : ModelSelection → String
  | .router intent .. => "No route found for router intent: " ++ intent
  | .fixed model => "No route found for model: " ++ model
  | .fallback primary _ => "No route found for model: " ++ primary

def resolveRoute (env : RouteEnv) (requestedModel : RequestedSelection)
    (resolver : Option RouteResolver) : Except String ResolvedRoute :=
  (parseModelSelection env requestedModel).bind fun selection =>
    match resolverCandidate resolver selection with
    | none => .error (noRouteMessage selection)
    | some candidate =>
      .ok (toResolvedRoute (requestedText requestedModel selection) selection.mode candidate
        selection.mode)

def comboRouteLimit : Nat := 3

/-- The candidates of a selection, and the rotation after it. -/
def resolveCandidateChain (env : RouteEnv) (rotation : ComboRotationState)
    (selection : ModelSelection) (requestedModelObject : Option PiModelReference)
    (catalog : PiModelCatalog) (policy : Option PiRouterPolicy) :
    List RouteCandidate × ComboRotationState :=
  match selection with
  | .fixed model =>
    (compactCandidates [modelToCandidate
      (resolveModelReferenceWithRequested env catalog model requestedModelObject) (some .fixed)],
      rotation)
  | .fallback primary fallback =>
    match resolvePolicyCombo env rotation primary policy with
    | some (models, rotation) =>
      (resolveModelReferenceChain env catalog models .router requestedModelObject, rotation)
    | none =>
      (resolveModelReferenceChain env catalog (primary :: toModelList fallback) .fallback
        requestedModelObject, rotation)
  | .router intent constraints aliasName =>
    let policyCandidates := resolveModelReferenceChain env catalog
      (policyModels policy intent aliasName) .router requestedModelObject
    if policyCandidates ≠ [] then (policyCandidates, rotation)
    else match firstPolicyCombo env rotation policy (comboLookupNames aliasName) with
      | some (models, rotation) =>
        (resolveModelReferenceChain env catalog models .router requestedModelObject, rotation)
      | none =>
        let selectedModels :=
          if (comboAliasName aliasName).isSome then
            (selectBestModels env catalog.getAvailable intent constraints comboRouteLimit).map some
          else [selectBestModel env catalog.getAvailable intent constraints]
        (compactCandidates (selectedModels.map fun model => modelToCandidate model (some .router)),
          rotation)

def resolvePiRouteCandidates (env : RouteEnv) (rotation : ComboRotationState)
    (selection : ModelSelection) (requestedModel : String)
    (requestedModelObject : Option PiModelReference) (catalog : PiModelCatalog)
    (policy : Option PiRouterPolicy) : Except String (List ResolvedRoute) × ComboRotationState :=
  let (candidates, rotation) :=
    resolveCandidateChain env rotation selection requestedModelObject catalog policy
  if candidates = [] then
    (.error ("No route found for model selection: " ++ requestedModel), rotation)
  else
    (.ok (candidates.map fun candidate =>
      toResolvedRoute requestedModel selection.mode candidate selection.mode), rotation)

def resolveRouteModel (catalog : PiModelCatalog) (route : ResolvedRoute)
    (requestedModelObject : Option PiModelReference) : Except String PiModelReference :=
  match (catalog.find route.resolvedProvider route.resolvedModel).or
      (requestedModelObject.filter fun model =>
        model.provider = route.resolvedProvider ∧ model.id = route.resolvedModel) with
  | some model => .ok model
  | none => .error ("Resolved model is not in catalog: " ++ route.resolvedProvider ++ "/" ++
      route.resolvedModel)

/-- The routes with their models from the catalog. -/
def resolveRouteModels (catalog : PiModelCatalog) (requestedModelObject : Option PiModelReference)
    (routes : List ResolvedRoute) : Except String (List ResolvedPiModelRoute) :=
  routes.mapM fun route => (resolveRouteModel catalog route requestedModelObject).map
    fun model => { route, model }

structure ResolvePiModelRouteOptions where
  requestedModel : RequestedModel
  catalog : PiModelCatalog
  policy : Option PiRouterPolicy
  resolver : Option RouteResolver

/-- The request as a text or a selection. -/
def requestedSelection (env : RouteEnv) : RequestedModel → RequestedSelection
  | .text model => .text model
  | .selection selection => .selection selection
  | .model model => .text (piModelToSelection env model)

def requestedObject : RequestedModel → Option PiModelReference
  | .model model => some model
  | _ => none

/-- The routes of a parsed request. -/
def planRoutes (env : RouteEnv) (rotation : ComboRotationState)
    (options : ResolvePiModelRouteOptions) (selection : ModelSelection) :
    Except String (List ResolvedRoute) × ComboRotationState :=
  let requested := requestedSelection env options.requestedModel
  match options.resolver with
  | some resolver =>
    ((resolveRoute env requested (some resolver)).map fun route => [route], rotation)
  | none =>
    resolvePiRouteCandidates env rotation selection (requestedText requested selection)
      (requestedObject options.requestedModel) options.catalog options.policy

def resolvePiModelRoutePlan (env : RouteEnv) (rotation : ComboRotationState)
    (options : ResolvePiModelRouteOptions) :
    Except String ResolvedPiModelRoutePlan × ComboRotationState :=
  let requested := requestedSelection env options.requestedModel
  match parseModelSelection env requested with
  | .error e => (.error e, rotation)
  | .ok selection =>
    let planned := planRoutes env rotation options selection
    (planned.1.bind fun routes =>
      (resolveRouteModels options.catalog (requestedObject options.requestedModel) routes).map
        fun resolved =>
          { requestedModel := requestedText requested selection, routingMode := selection.mode
            routes := resolved, primary := resolved.head? }, planned.2)

def resolvePiModelRoute (env : RouteEnv) (rotation : ComboRotationState)
    (options : ResolvePiModelRouteOptions) :
    Except String (Option ResolvedPiModelRoute) × ComboRotationState :=
  let plan := resolvePiModelRoutePlan env rotation options
  (plan.1.map fun plan => plan.primary, plan.2)

end PieLab.Router

import PieLab.Router.Routes

/-
  The two ways to resolve a route

  `resolvePiModelRoute` asks a resolver for one candidate, or builds a chain of
  candidates from the catalog and the policy. The resolver `createPiRouteResolver`
  is made from the same catalog and policy.

  What is proved:
    1. `head?_compactCandidates` — dropping repeated candidates keeps the first one.
    2. `outcome_viaResolver`, `outcome_viaPolicy` — what either way returns, from the
       candidates it makes.
    3. `routes_agree_iff` — they agree exactly when no combo is consulted and the catalog
       lists all candidates if it lists the first, or a combo is consulted that has
       the primary candidate the resolver has without it.
    4. `combo_missed` — a combo the resolver does not know.
-/

namespace PieLab.Router

open Lib

/-! ## Candidates -/

/-- The catalog has the candidate's model under its own provider and id. -/
def isListed (catalog : PiModelCatalog) (candidate : RouteCandidate) : Bool :=
  (catalog.find candidate.provider candidate.model).isSome

/-- What a list of candidates leads to: all of them have to be in the catalog. -/
def primaryOutcome (catalog : PiModelCatalog) (mode : RoutingMode)
    (candidates : List RouteCandidate) : Option (String × String × RoutingMode) :=
  if candidates.all (isListed catalog) then
    candidates.head?.map fun candidate => (candidate.provider, candidate.model, mode)
  else none

/-- Provider, model and routing mode of the primary route; `none` where it fails. -/
def routeOutcome (result : Except String (Option ResolvedPiModelRoute)) :
    Option (String × String × RoutingMode) :=
  match result with
  | .ok (some primary) =>
    some (primary.route.resolvedProvider, primary.route.resolvedModel, primary.route.routingMode)
  | _ => none

theorem head?_compactFrom (candidates : List (Option RouteCandidate)) :
    (compactFrom [] candidates).head? = (candidates.filterMap id).head? := by
  induction candidates with
  | nil => rfl
  | cons candidate rest ih =>
    cases candidate with
    | none => exact ih
    | some candidate => rfl

/-- Dropping repeated candidates keeps the first one. -/
theorem head?_compactCandidates (candidates : List (Option RouteCandidate)) :
    (compactCandidates candidates).head? = (candidates.filterMap id).head? :=
  head?_compactFrom candidates

/-- The models that references name. -/
def namedModels (catalog : PiModelCatalog) (references : List String) : List PiModelReference :=
  references.filterMap (resolveModelReference catalog)

/-- The candidates of a chain of models. -/
def modelCandidates (source : RouteSource) (models : List PiModelReference) :
    List RouteCandidate :=
  compactCandidates (models.map fun model => modelToCandidate (some model) (some source))

theorem compactFrom_filterMap (seen : List String) (candidates : List (Option RouteCandidate)) :
    compactFrom seen ((candidates.filterMap id).map some) = compactFrom seen candidates := by
  induction candidates generalizing seen with
  | nil => rfl
  | cons candidate rest ih =>
    cases candidate with
    | none => exact ih seen
    | some candidate =>
      show (if candidateKey candidate ∈ seen then _ else _) =
        (if candidateKey candidate ∈ seen then _ else _)
      rw [ih, ih]

theorem resolveModelReferenceWithRequested_none (env : RouteEnv) (catalog : PiModelCatalog)
    (reference : String) : resolveModelReferenceWithRequested env catalog reference none =
      resolveModelReference catalog reference := by
  unfold resolveModelReferenceWithRequested
  cases resolveModelReference catalog reference with
  | none => rfl
  | some model => rfl

theorem resolveModelReferenceChain_eq (env : RouteEnv) (catalog : PiModelCatalog)
    (references : List String) (source : RouteSource) :
    resolveModelReferenceChain env catalog references source none =
      modelCandidates source (namedModels catalog references) := by
  unfold resolveModelReferenceChain modelCandidates namedModels compactCandidates
  rw [← compactFrom_filterMap]
  congr 1
  induction references with
  | nil => rfl
  | cons reference rest ih =>
    simp only [List.map_cons, resolveModelReferenceWithRequested_none, List.filterMap_cons] at ih ⊢
    cases resolveModelReference catalog reference with
    | none => exact ih
    | some model =>
      show some _ :: _ = some _ :: _
      rw [ih]

theorem head?_modelCandidates (source : RouteSource) (models : List PiModelReference) :
    (modelCandidates source models).head? =
      modelToCandidate models.head? (some source) := by
  unfold modelCandidates
  rw [head?_compactCandidates]
  cases models with
  | nil => rfl
  | cons model rest => rfl

theorem modelCandidates_eq_nil {source : RouteSource} {models : List PiModelReference} :
    modelCandidates source models = [] ↔ models = [] := by
  rw [← List.head?_eq_none_iff, head?_modelCandidates, ← List.head?_eq_none_iff]
  cases models.head? with
  | none => simp [modelToCandidate]
  | some model => simp [modelToCandidate]

theorem firstResolvedCandidate_eq (catalog : PiModelCatalog) (source : RouteSource)
    (references : List String) :
    firstResolvedCandidate catalog source references =
      modelToCandidate (namedModels catalog references).head? (some source) := by
  induction references with
  | nil => rfl
  | cons reference rest ih =>
    unfold firstResolvedCandidate namedModels
    rw [List.filterMap_cons]
    cases resolveModelReference catalog reference with
    | none => exact ih
    | some model => rfl

variable {catalog : PiModelCatalog} {policy : PiRouterPolicy} {env : RouteEnv}
variable {rotation : ComboRotationState} {text : String} {selection : ModelSelection}

theorem parseProviderModel_unlisted {reference : String}
    (h : resolveModelReference catalog reference = none) {candidate : RouteCandidate}
    (hparse : parseProviderModel reference = some candidate) :
    isListed catalog candidate = false := by
  unfold resolveModelReference at h
  rw [hparse] at h
  unfold isListed
  have hfind : catalog.find candidate.provider candidate.model = none := h
  rw [hfind]
  rfl

/-! ## Outcomes -/

theorem resolveRouteModel_none (catalog : PiModelCatalog) (route : ResolvedRoute) :
    resolveRouteModel catalog route none =
      match catalog.find route.resolvedProvider route.resolvedModel with
      | some model => .ok model
      | none => .error ("Resolved model is not in catalog: " ++ route.resolvedProvider ++ "/" ++
          route.resolvedModel) := by
  unfold resolveRouteModel
  cases catalog.find route.resolvedProvider route.resolvedModel with
  | none => rfl
  | some model => rfl

theorem resolveRouteModels_ok {catalog : PiModelCatalog} {routes : List ResolvedRoute}
    (h : ∀ route ∈ routes, (catalog.find route.resolvedProvider route.resolvedModel).isSome = true) :
    ∃ resolved, resolveRouteModels catalog none routes = .ok resolved ∧
      resolved.map (·.route) = routes := by
  unfold resolveRouteModels
  induction routes with
  | nil => exact ⟨[], rfl, rfl⟩
  | cons route rest ih =>
    obtain ⟨hroute, hrest⟩ := List.forall_mem_cons.1 h
    obtain ⟨resolved, hok, hmap⟩ := ih hrest
    obtain ⟨model, hmodel⟩ := Option.isSome_iff_exists.1 hroute
    rw [List.mapM_cons, resolveRouteModel_none, hmodel, hok]
    exact ⟨_, rfl, by rw [List.map_cons, hmap]⟩

theorem resolveRouteModels_listed {routes : List ResolvedRoute}
    {resolved : List ResolvedPiModelRoute}
    (h : resolveRouteModels catalog none routes = .ok resolved) :
    ∀ route ∈ routes, (catalog.find route.resolvedProvider route.resolvedModel).isSome = true := by
  unfold resolveRouteModels at h
  induction routes generalizing resolved with
  | nil => exact fun route hroute => absurd hroute List.not_mem_nil
  | cons route rest ih =>
    rw [List.mapM_cons] at h
    obtain ⟨first, hfirst, h⟩ := Except.bind_ok h
    obtain ⟨others, hothers, _⟩ := Except.bind_ok h
    obtain ⟨model, hmodel, _⟩ := Lib.Except.map_ok hfirst
    rw [resolveRouteModel_none] at hmodel
    refine List.forall_mem_cons.2 ⟨?_, ih hothers⟩
    cases hfind : catalog.find route.resolvedProvider route.resolvedModel with
    | none =>
      rw [hfind] at hmodel
      cases hmodel
    | some model => rfl

theorem routeOutcome_candidates (catalog : PiModelCatalog) (text : String) (mode : RoutingMode)
    (candidates : List RouteCandidate) :
    routeOutcome ((resolveRouteModels catalog none (candidates.map fun candidate =>
      toResolvedRoute text mode candidate mode)).map List.head?) =
      primaryOutcome catalog mode candidates := by
  unfold primaryOutcome
  by_cases hlisted : candidates.all (isListed catalog) = true
  · rw [if_pos hlisted]
    obtain ⟨resolved, hok, hmap⟩ := @resolveRouteModels_ok catalog
      (candidates.map fun candidate => toResolvedRoute text mode candidate mode)
      (fun route hroute => by
        obtain ⟨candidate, hcandidate, rfl⟩ := List.mem_map.1 hroute
        exact List.all_eq_true.1 hlisted candidate hcandidate)
    rw [hok]
    have hhead : resolved.head?.map (·.route) =
        candidates.head?.map fun candidate => toResolvedRoute text mode candidate mode := by
      rw [← List.head?_map, hmap, List.head?_map]
    cases hr : resolved.head? with
    | none =>
      rw [hr] at hhead
      cases hc : candidates.head? with
      | none =>
        show routeOutcome (.ok resolved.head?) = none
        rw [hr]
        rfl
      | some candidate =>
        rw [hc] at hhead
        cases hhead
    | some primary =>
      rw [hr] at hhead
      cases hc : candidates.head? with
      | none =>
        rw [hc] at hhead
        cases hhead
      | some candidate =>
        rw [hc] at hhead
        have hroute : primary.route = toResolvedRoute text mode candidate mode :=
          Option.some.inj hhead
        show routeOutcome (.ok resolved.head?) = _
        rw [hr]
        show some (primary.route.resolvedProvider, primary.route.resolvedModel,
          primary.route.routingMode) = _
        rw [hroute]
        rfl
  · rw [if_neg hlisted]
    cases hresolved : resolveRouteModels catalog none (candidates.map fun candidate =>
      toResolvedRoute text mode candidate mode) with
    | error e => rfl
    | ok resolved =>
      exfalso
      apply hlisted
      rw [List.all_eq_true]
      intro candidate hcandidate
      exact resolveRouteModels_listed hresolved _ (List.mem_map_of_mem hcandidate)

/-! ## What the selections stand for -/

/-- The catalog has the model under its own provider and id. -/
def isListedModel (catalog : PiModelCatalog) (model : PiModelReference) : Bool :=
  (catalog.find model.provider model.id).isSome

/-- The catalog has every candidate made from the models; a candidate with the key of an
earlier one is dropped. -/
def allListed (catalog : PiModelCatalog) (models : List PiModelReference) : Bool :=
  (modelCandidates .router models).all (isListed catalog)

/-- The models of a combo with that name. -/
def comboModels (policy : PiRouterPolicy) (name : String) : Option (List String) :=
  ((findCombo name policy.combos).map (·.models)).filter (· ≠ [])

/-- The combo a selection comes to. -/
def consultedCombo (catalog : PiModelCatalog) (policy : PiRouterPolicy) :
    ModelSelection → Option (List String)
  | .fixed _ => none
  | .fallback primary _ => comboModels policy primary
  | .router intent _ aliasName =>
    if namedModels catalog (policyModels (some policy) intent aliasName) ≠ [] then none
    else (comboLookupNames aliasName).findSome? (comboModels policy)

/-- The models of a selection when there are no combos. -/
def directModels (env : RouteEnv) (catalog : PiModelCatalog) (policy : PiRouterPolicy) :
    ModelSelection → List PiModelReference
  | .fixed model => namedModels catalog [model]
  | .fallback primary fallback => namedModels catalog (primary :: toModelList fallback)
  | .router intent constraints aliasName =>
    if namedModels catalog (policyModels (some policy) intent aliasName) ≠ [] then
      namedModels catalog (policyModels (some policy) intent aliasName)
    else selectBestModels env catalog.getAvailable intent constraints
      (if (comboAliasName aliasName).isSome then comboRouteLimit else 1)

theorem directModels_named (env : RouteEnv) {intent : String}
    {constraints : Option RouterConstraints} {aliasName : Option String}
    (h : namedModels catalog (policyModels (some policy) intent aliasName) ≠ []) :
    directModels env catalog policy (.router intent constraints aliasName) =
      namedModels catalog (policyModels (some policy) intent aliasName) := if_pos h

theorem directModels_best (env : RouteEnv) {intent : String}
    {constraints : Option RouterConstraints} {aliasName : Option String}
    (h : namedModels catalog (policyModels (some policy) intent aliasName) = []) :
    directModels env catalog policy (.router intent constraints aliasName) =
      selectBestModels env catalog.getAvailable intent constraints
        (if (comboAliasName aliasName).isSome then comboRouteLimit else 1) := if_neg (not_not.2 h)

/-- No combo of the policy is rotated. -/
def WithoutRotation (policy : PiRouterPolicy) : Prop :=
  ∀ combo ∈ normalizeCombosData policy.combos,
    (resolveComboStrategy combo (some policy)).1 = .fallback

theorem resolvePolicyCombo_fallback (env : RouteEnv) (rotation : ComboRotationState) (name : String)
    (h : WithoutRotation policy) :
    resolvePolicyCombo env rotation name (some policy) =
      (comboModels policy name).map fun models => (models, rotation) := by
  simp only [resolvePolicyCombo, comboModels, Option.bind_some]
  cases hcombo : findCombo name policy.combos with
  | none => rfl
  | some combo =>
    have hstrategy := h combo (List.mem_of_find?_eq_some hcombo)
    by_cases hmodels : combo.models = []
    · simp [hmodels]
    · simp [hmodels, getRotatedModels, hstrategy]

theorem firstPolicyCombo_fallback (env : RouteEnv) (rotation : ComboRotationState)
    (h : WithoutRotation policy) (names : List String) :
    firstPolicyCombo env rotation (some policy) names =
      (names.findSome? (comboModels policy)).map fun models => (models, rotation) := by
  induction names with
  | nil => rfl
  | cons name rest ih =>
    unfold firstPolicyCombo
    rw [resolvePolicyCombo_fallback env rotation name h, List.findSome?_cons, ih]
    cases comboModels policy name with
    | none => rfl
    | some models => rfl

theorem selectBestModel_eq (env : RouteEnv) (models : List PiModelReference) (intent : String)
    (constraints : Option RouterConstraints) {limit : Nat} (hlimit : 0 < limit) :
    selectBestModel env models intent constraints =
      (selectBestModels env models intent constraints limit).head? := by
  unfold selectBestModel selectBestModels
  rw [List.head?_map, List.head?_map, List.head?_take, List.head?_take]
  simp [Nat.pos_iff_ne_zero.1 hlimit]

/-! ## The resolver -/

/-- The route of a requested text with a resolver made from the catalog and the policy. -/
def viaResolver (env : RouteEnv) (rotation : ComboRotationState) (catalog : PiModelCatalog)
    (policy : PiRouterPolicy) (text : String) : Except String (Option ResolvedPiModelRoute) :=
  (resolvePiModelRoute env rotation
    { requestedModel := .text text, catalog, policy := some policy
      resolver := some (createPiRouteResolver env catalog policy) }).1

/-- The route of a requested text with the policy and no resolver. -/
def viaPolicy (env : RouteEnv) (rotation : ComboRotationState) (catalog : PiModelCatalog)
    (policy : PiRouterPolicy) (text : String) : Except String (Option ResolvedPiModelRoute) :=
  (resolvePiModelRoute env rotation
    { requestedModel := .text text, catalog, policy := some policy, resolver := none }).1

theorem primaryOutcome_model (catalog : PiModelCatalog) (mode : RoutingMode)
    (model : Option PiModelReference) (source : Option RouteSource) :
    primaryOutcome catalog mode (modelToCandidate model source).toList =
      (model.filter (isListedModel catalog)).map fun model => (model.provider, model.id, mode) := by
  cases model with
  | none => rfl
  | some model =>
    by_cases h : isListedModel catalog model = true
    · rw [Option.filter_some, if_pos h]
      unfold primaryOutcome
      rw [if_pos]
      · rfl
      · show ([_].all (isListed catalog)) = true
        rw [List.all_cons, List.all_nil, Bool.and_true]
        exact h
    · rw [Option.filter_some, if_neg h]
      unfold primaryOutcome
      rw [if_neg]
      · rfl
      · show ¬ ([_].all (isListed catalog)) = true
        rw [List.all_cons, List.all_nil, Bool.and_true]
        exact h

theorem primaryOutcome_or_parse (catalog : PiModelCatalog) (mode : RoutingMode)
    {candidate : Option RouteCandidate} {reference : String}
    (h : candidate = none → resolveModelReference catalog reference = none) :
    primaryOutcome catalog mode (candidate.or (parseProviderModel reference)).toList =
      primaryOutcome catalog mode candidate.toList := by
  cases candidate with
  | some candidate => rfl
  | none =>
    cases hparse : parseProviderModel reference with
    | none => rfl
    | some candidate =>
      have hunlisted := parseProviderModel_unlisted (h rfl) hparse
      show (if ([candidate].all (isListed catalog)) = true then _ else _) = none
      simp [hunlisted]

theorem resolvePiModelRoute_text {policy : Option PiRouterPolicy} {resolver : Option RouteResolver}
    (hparse : parseModelText env text = .ok selection) :
    (resolvePiModelRoute env rotation
      { requestedModel := .text text, catalog, policy, resolver }).1 =
      (planRoutes env rotation { requestedModel := .text text, catalog, policy, resolver }
        selection).1.bind fun routes => (resolveRouteModels catalog none routes).map List.head? := by
  have hplan : resolvePiModelRoutePlan env rotation
      { requestedModel := .text text, catalog, policy, resolver } =
      ((planRoutes env rotation { requestedModel := .text text, catalog, policy, resolver } selection).1.bind
        fun routes => (resolveRouteModels catalog none routes).map fun resolved =>
          { requestedModel := jsTrim text, routingMode := selection.mode
            routes := resolved, primary := resolved.head? },
        (planRoutes env rotation { requestedModel := .text text, catalog, policy, resolver } selection).2) := by
    have hselection : parseModelSelection env (requestedSelection env (.text text)) =
        .ok selection := hparse
    simp only [resolvePiModelRoutePlan, hselection]
    rfl
  unfold resolvePiModelRoute
  rw [hplan]
  show Except.map _ (Except.bind (planRoutes env rotation _ selection).1 _) = _
  cases (planRoutes env rotation { requestedModel := .text text, catalog, policy, resolver }
    selection).1 with
  | error e => rfl
  | ok routes =>
    show Except.map _ (Except.map _ (resolveRouteModels catalog none routes)) = Except.map _ _
    cases resolveRouteModels catalog none routes with
    | error e => rfl
    | ok resolved => rfl

theorem outcome_resolver {policy : Option PiRouterPolicy} {resolver : RouteResolver}
    (hparse : parseModelText env text = .ok selection) :
    routeOutcome (resolvePiModelRoute env rotation
      { requestedModel := .text text, catalog, policy, resolver := some resolver }).1 =
      primaryOutcome catalog selection.mode
        (resolverCandidate (some resolver) selection).toList := by
  have hselection : parseModelSelection env (requestedSelection env (.text text)) =
      .ok selection := hparse
  have hroute : resolveRoute env (requestedSelection env (.text text)) (some resolver) =
      (resolverCandidate (some resolver) selection).elim (.error (noRouteMessage selection))
        fun candidate => .ok (toResolvedRoute (jsTrim text) selection.mode candidate selection.mode) := by
    unfold resolveRoute
    rw [hselection]
    dsimp only [Except.bind]
    cases resolverCandidate (some resolver) selection with
    | none => rfl
    | some candidate => rfl
  rw [resolvePiModelRoute_text hparse]
  unfold planRoutes
  simp only [hroute]
  cases resolverCandidate (some resolver) selection with
  | none => rfl
  | some candidate => exact routeOutcome_candidates catalog (jsTrim text) selection.mode [candidate]

/-- With the resolver the primary route is the first of the direct models. -/
theorem outcome_viaResolver (env : RouteEnv) (rotation : ComboRotationState)
    (catalog : PiModelCatalog) (policy : PiRouterPolicy)
    (hparse : parseModelText env text = .ok selection) :
    routeOutcome (viaResolver env rotation catalog policy text) =
      ((directModels env catalog policy selection).head?.filter (isListedModel catalog)).map
        fun model => (model.provider, model.id, selection.mode) := by
  unfold viaResolver
  rw [outcome_resolver hparse]
  cases selection with
  | fixed model =>
    show primaryOutcome catalog .fixed
      ((modelToCandidate (resolveModelReference catalog model) none).or _).toList = _
    rw [primaryOutcome_or_parse, primaryOutcome_model]
    · show _ = (((namedModels catalog [model]).head?.filter (isListedModel catalog)).map _)
      unfold namedModels
      rw [List.filterMap_cons]
      cases resolveModelReference catalog model with
      | none => rfl
      | some model => rfl
    · intro hnone
      cases hmodel : resolveModelReference catalog model with
      | none => rfl
      | some model =>
        rw [hmodel] at hnone
        cases hnone
  | fallback primary fallback =>
    show primaryOutcome catalog .fallback
      ((firstResolvedCandidate catalog .fallback (primary :: toModelList fallback)).or _).toList = _
    rw [primaryOutcome_or_parse, firstResolvedCandidate_eq, primaryOutcome_model]
    · rfl
    · intro hnone
      unfold firstResolvedCandidate at hnone
      cases hmodel : resolveModelReference catalog primary with
      | none => rfl
      | some model =>
        rw [hmodel] at hnone
        cases hnone
  | router intent constraints aliasName =>
    have hintent : resolverCandidate (some (createPiRouteResolver env catalog policy))
        (.router intent constraints aliasName) =
        (firstResolvedCandidate catalog .router (policyModels (some policy) intent aliasName)).or
          (modelToCandidate (selectBestModel env catalog.getAvailable intent constraints) (some .router)) := by
      simp only [resolverCandidate, createPiRouteResolver, Option.bind_some]
      cases firstResolvedCandidate catalog .router (policyModels (some policy) intent aliasName) with
      | none => rfl
      | some policyCandidate => rfl
    rw [hintent, firstResolvedCandidate_eq]
    cases hnamed : namedModels catalog (policyModels (some policy) intent aliasName) with
    | cons model rest =>
      rw [directModels_named env (by rw [hnamed]; exact List.cons_ne_nil _ _), hnamed]
      exact primaryOutcome_model catalog .router (some model) (some .router)
    | nil =>
      rw [directModels_best env hnamed,
        ← selectBestModel_eq env catalog.getAvailable intent constraints]
      · exact primaryOutcome_model catalog .router _ (some .router)
      · split
        · decide
        · decide

/-! ## The policy -/

/-- The models the plan makes candidates of. -/
def plannedModels (env : RouteEnv) (catalog : PiModelCatalog) (policy : PiRouterPolicy)
    (selection : ModelSelection) : List PiModelReference :=
  match consultedCombo catalog policy selection with
  | some models => namedModels catalog models
  | none => directModels env catalog policy selection

theorem compactFrom_source (source source' : RouteSource) (seen : List String)
    (models : List PiModelReference) :
    (compactFrom seen (models.map fun model => modelToCandidate (some model) (some source))).map
        (fun candidate => { candidate with source := some source' }) =
      compactFrom seen (models.map fun model => modelToCandidate (some model) (some source')) := by
  induction models generalizing seen with
  | nil => rfl
  | cons model rest ih =>
    simp only [List.map_cons, modelToCandidate, Option.map_some, compactFrom] at ih ⊢
    -- the key does not hold the source
    by_cases hseen : candidateKey { provider := model.provider, model := model.id
                                    connectionId := none, source := some source } ∈ seen
    · have hseen' : candidateKey { provider := model.provider, model := model.id
                                   connectionId := none, source := some source' } ∈ seen := hseen
      rw [if_pos hseen, if_pos hseen']
      exact ih seen
    · have hseen' : ¬ candidateKey { provider := model.provider, model := model.id
                                     connectionId := none, source := some source' } ∈ seen := hseen
      rw [if_neg hseen, if_neg hseen', List.map_cons, ih]
      rfl

theorem allListed_eq (catalog : PiModelCatalog) (source : RouteSource)
    (models : List PiModelReference) :
    (modelCandidates source models).all (isListed catalog) = allListed catalog models := by
  unfold allListed modelCandidates compactCandidates
  rw [← compactFrom_source source .router [] models, List.all_map]
  rfl

theorem primaryOutcome_models (catalog : PiModelCatalog) (mode : RoutingMode) (source : RouteSource)
    (models : List PiModelReference) :
    primaryOutcome catalog mode (modelCandidates source models) =
      if allListed catalog models then
        models.head?.map fun model => (model.provider, model.id, mode)
      else none := by
  unfold primaryOutcome
  rw [allListed_eq, head?_modelCandidates]
  cases models.head? with
  | none => rfl
  | some model => rfl

theorem resolveCandidateChain_eq (env : RouteEnv) (rotation : ComboRotationState)
    (catalog : PiModelCatalog) (h : WithoutRotation policy) (selection : ModelSelection) :
    ∃ source, (resolveCandidateChain env rotation selection none catalog (some policy)).1 =
      modelCandidates source (plannedModels env catalog policy selection) := by
  cases selection with
  | fixed model =>
    exact ⟨.fixed, resolveModelReferenceChain_eq env catalog [model] .fixed⟩
  | fallback primary fallback =>
    unfold resolveCandidateChain plannedModels consultedCombo
    simp only [resolvePolicyCombo_fallback env rotation primary h]
    cases comboModels policy primary with
    | none => exact ⟨.fallback, resolveModelReferenceChain_eq env catalog _ .fallback⟩
    | some models => exact ⟨.router, resolveModelReferenceChain_eq env catalog models .router⟩
  | router intent constraints aliasName =>
    unfold resolveCandidateChain plannedModels consultedCombo
    simp only [resolveModelReferenceChain_eq, firstPolicyCombo_fallback env rotation h]
    by_cases hnamed : namedModels catalog (policyModels (some policy) intent aliasName) = []
    · rw [if_neg (by rw [not_not, modelCandidates_eq_nil]; exact hnamed),
        if_neg (not_not.2 hnamed)]
      cases (comboLookupNames aliasName).findSome? (comboModels policy) with
      | some models => exact ⟨.router, rfl⟩
      | none =>
        refine ⟨.router, ?_⟩
        rw [directModels_best env hnamed]
        unfold modelCandidates
        by_cases hcombo : (comboAliasName aliasName).isSome = true
        · simp only [Option.map_none, hcombo, if_true, List.map_map]
          rfl
        · simp only [Option.map_none, hcombo, if_false, Bool.false_eq_true]
          rw [selectBestModel_eq env catalog.getAvailable intent constraints Nat.one_pos]
          have hone : (selectBestModels env catalog.getAvailable intent constraints 1).length ≤
              1 := by
            unfold selectBestModels
            rw [List.length_map, List.length_take]
            exact Nat.min_le_left _ _
          cases hbest : selectBestModels env catalog.getAvailable intent constraints 1 with
          | nil => rfl
          | cons model rest =>
            rw [hbest, List.length_cons] at hone
            rw [List.eq_nil_of_length_eq_zero (by omega : rest.length = 0)]
            rfl
    · rw [if_pos (by rw [ne_eq, modelCandidates_eq_nil]; exact hnamed), if_pos hnamed]
      refine ⟨.router, ?_⟩
      rw [directModels_named env hnamed]

/-- With the policy the primary route is the first of the planned models, if the catalog
has all candidates. -/
theorem outcome_viaPolicy (env : RouteEnv) (rotation : ComboRotationState)
    (catalog : PiModelCatalog) (h : WithoutRotation policy)
    (hparse : parseModelText env text = .ok selection) :
    routeOutcome (viaPolicy env rotation catalog policy text) =
      if allListed catalog (plannedModels env catalog policy selection) then
        (plannedModels env catalog policy selection).head?.map
          fun model => (model.provider, model.id, selection.mode)
      else none := by
  unfold viaPolicy
  rw [resolvePiModelRoute_text hparse]
  obtain ⟨source, hchain⟩ := resolveCandidateChain_eq env rotation catalog h selection
  rw [← primaryOutcome_models catalog selection.mode source]
  show routeOutcome (Except.bind (resolvePiRouteCandidates env rotation selection (jsTrim text) none
    catalog (some policy)).1 _) = _
  unfold resolvePiRouteCandidates
  simp only [hchain]
  by_cases hnil : modelCandidates source (plannedModels env catalog policy selection) = []
  · rw [if_pos hnil, hnil]
    rfl
  · rw [if_neg hnil]
    exact routeOutcome_candidates catalog (jsTrim text) selection.mode _

/-! ## Agreement -/

/-- The two ways come to the same primary candidate: without a combo the first direct
model is missing from the catalog or no candidate is; with a combo its first model is
the first direct one, or both ways fail. -/
def SameCandidate (env : RouteEnv) (catalog : PiModelCatalog) (policy : PiRouterPolicy)
    (selection : ModelSelection) : Prop :=
  match consultedCombo catalog policy selection with
  | none =>
    ∀ first, (directModels env catalog policy selection).head? = some first →
      isListedModel catalog first = true →
        allListed catalog (directModels env catalog policy selection) = true
  | some models =>
    (∃ first chosen, (directModels env catalog policy selection).head? = some first ∧
      isListedModel catalog first = true ∧
      (namedModels catalog models).head? = some chosen ∧
      allListed catalog (namedModels catalog models) = true ∧
      first.provider = chosen.provider ∧ first.id = chosen.id) ∨
    ((∀ first, (directModels env catalog policy selection).head? = some first →
        isListedModel catalog first = false) ∧
      (namedModels catalog models = [] ∨ allListed catalog (namedModels catalog models) = false))

theorem isListedModel_of_allListed {models : List PiModelReference}
    (h : allListed catalog models = true) {first : PiModelReference}
    (hfirst : models.head? = some first) : isListedModel catalog first = true := by
  have hhead := head?_modelCandidates .router models
  rw [hfirst] at hhead
  unfold allListed at h
  rw [List.all_eq_true] at h
  exact h _ (List.mem_of_head? hhead)

theorem outcomes_eq_iff {mode : RoutingMode} {direct chain : List PiModelReference} :
    ((direct.head?.filter (isListedModel catalog)).map
        fun model => (model.provider, model.id, mode)) =
      (if allListed catalog chain then
        chain.head?.map fun model => (model.provider, model.id, mode) else none) ↔
    (∃ first chosen, direct.head? = some first ∧ isListedModel catalog first = true ∧
      chain.head? = some chosen ∧ allListed catalog chain = true ∧
      first.provider = chosen.provider ∧ first.id = chosen.id) ∨
    ((∀ first, direct.head? = some first → isListedModel catalog first = false) ∧
      (chain = [] ∨ allListed catalog chain = false)) := by
  cases hdirect : direct.head? with
  | none =>
    cases chain with
    | nil => simp [allListed, modelCandidates, compactCandidates, compactFrom]
    | cons chosen rest =>
      cases hall : allListed catalog (chosen :: rest) with
      | false => simp
      | true => simp
  | some first =>
    cases hlisted : isListedModel catalog first with
    | false =>
      cases chain with
      | nil => simp [hlisted]
      | cons chosen rest =>
        cases hall : allListed catalog (chosen :: rest) with
        | false => simp [hlisted]
        | true => simp [hlisted]
    | true =>
      cases chain with
      | nil => simp [hlisted]
      | cons chosen rest =>
        cases hall : allListed catalog (chosen :: rest) with
        | false => simp [hlisted]
        | true => simp [hlisted]

theorem routeOutcome_parse_error {policy : Option PiRouterPolicy} {resolver : Option RouteResolver}
    {message : String} (hparse : parseModelText env text = .error message) :
    routeOutcome (resolvePiModelRoute env rotation
      { requestedModel := .text text, catalog, policy, resolver }).1 = none := by
  have hplan : resolvePiModelRoutePlan env rotation
      { requestedModel := .text text, catalog, policy, resolver } = (.error message, rotation) := by
    unfold resolvePiModelRoutePlan
    have hselection : parseModelSelection env
        (requestedSelection env (RequestedModel.text text)) = .error message := hparse
    simp only [hselection]
  unfold resolvePiModelRoute
  rw [hplan]
  rfl

/-- The resolver and the policy come to the same primary route, or both fail, exactly when
they have the same candidate. -/
theorem routes_agree_iff (env : RouteEnv) (rotation : ComboRotationState) (catalog : PiModelCatalog)
    (policy : PiRouterPolicy) (hcombos : WithoutRotation policy) (text : String) :
    routeOutcome (viaResolver env rotation catalog policy text) =
        routeOutcome (viaPolicy env rotation catalog policy text) ↔
      ∀ selection, parseModelText env text = .ok selection →
        SameCandidate env catalog policy selection := by
  cases hparse : parseModelText env text with
  | error message =>
    unfold viaResolver viaPolicy
    rw [routeOutcome_parse_error hparse, routeOutcome_parse_error hparse]
    constructor
    · intro _ selection h
      cases h
    · intro _
      rfl
  | ok selection =>
    rw [outcome_viaResolver env rotation catalog policy hparse,
      outcome_viaPolicy env rotation catalog hcombos hparse, outcomes_eq_iff]
    unfold plannedModels
    constructor
    · intro h selection' hselection
      cases hselection
      unfold SameCandidate
      cases hcombo : consultedCombo catalog policy selection with
      | some models =>
        rw [hcombo] at h
        exact h
      | none =>
        rw [hcombo] at h
        intro first hfirst hlisted
        rcases h with ⟨_, _, _, _, _, hall, _⟩ | ⟨hnone, _⟩
        · exact hall
        · rw [hnone first hfirst] at hlisted
          cases hlisted
    · intro h
      have h := h selection rfl
      unfold SameCandidate at h
      cases hcombo : consultedCombo catalog policy selection with
      | some models =>
        rw [hcombo] at h
        exact h
      | none =>
        rw [hcombo] at h
        show _ ∨ _
        cases hfirst : (directModels env catalog policy selection).head? with
        | none =>
          right
          constructor
          · intro first hf
            cases hf
          · exact .inl (List.head?_eq_none_iff.1 hfirst)
        | some first =>
          cases hlisted : isListedModel catalog first with
          | true =>
            left
            exact ⟨first, first, rfl, hlisted, rfl, h first hfirst hlisted, rfl, rfl⟩
          | false =>
            right
            constructor
            · intro first' hf
              cases hf
              exact hlisted
            · right
              by_contra hall
              rw [Bool.not_eq_false] at hall
              rw [isListedModel_of_allListed hall hfirst] at hlisted
              cases hlisted

/-! ## Examples -/

def exampleRouteEnv : RouteEnv where
  toLowerCase text := text
  numbers := { number := fun text => text.toInt?.map (↑), parseInt := String.toInt? }
  numberText q := toString q.num

def exampleModel (provider id : String) : PiModelReference where
  provider := provider
  id := id
  name := none
  input := none
  cost := none
  contextWindow := none
  reasoning := false

/-- A catalog of one model. -/
def exampleCatalog : PiModelCatalog where
  find provider id :=
    if provider = "openai" ∧ id = "gpt-5" then some (exampleModel "openai" "gpt-5") else none
  getAvailable := [exampleModel "openai" "gpt-5"]
  getAll := none

/-- A policy with the combo `team`. -/
def examplePolicy : PiRouterPolicy where
  aliases := none
  intents := none
  combos := some (.list [{ name := "team", models := ["openai/gpt-5"], strategy := none
                           stickyLimit := none }])
  comboStrategy := none
  comboStickyLimit := none
  comboStrategies := none

theorem withoutRotation_example : WithoutRotation examplePolicy := by
  intro combo hcombo
  rw [List.mem_singleton.1 hcombo]
  rfl

theorem routes_agree_example :
    routeOutcome (viaResolver exampleRouteEnv OrderedMap.empty exampleCatalog examplePolicy
        "openai/gpt-5") =
      routeOutcome (viaPolicy exampleRouteEnv OrderedMap.empty exampleCatalog examplePolicy
        "openai/gpt-5") := by
  apply (routes_agree_iff exampleRouteEnv OrderedMap.empty exampleCatalog examplePolicy
    withoutRotation_example "openai/gpt-5").2
  intro selection hparse
  have hselection : parseModelText exampleRouteEnv "openai/gpt-5" =
      .ok (.fallback "openai/gpt-5" none) := by decide
  rw [hselection] at hparse
  cases hparse
  intro first _ _
  decide

/-- The policy routes the combo's name to its model, the resolver does not know it. -/
theorem combo_missed :
    routeOutcome (viaResolver exampleRouteEnv OrderedMap.empty exampleCatalog examplePolicy "team") ≠
      routeOutcome (viaPolicy exampleRouteEnv OrderedMap.empty exampleCatalog examplePolicy
        "team") := by
  have hparse : parseModelText exampleRouteEnv "team" = .ok (.fallback "team" none) := by decide
  rw [outcome_viaResolver _ _ _ _ hparse,
    outcome_viaPolicy _ _ _ withoutRotation_example hparse]
  decide

end PieLab.Router

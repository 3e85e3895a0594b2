import PieLab.Router.Connections

/-
  The explanation of a selection

  `selectProviderConnection` filters the connections of a provider, and
  `explainProviderConnectionSelection` applies the same rules to each of them once
  more to say why it was or was not chosen.

  What is proved:
    1. `mem_availableConnections` — the filters keep a connection exactly when it is
       `eligible`.
    2. `explainedCandidate_selectable` — the explanation marks it the same way.
    3. `selectProviderConnection_status` — a connection is selected exactly when the
       filters keep one, and it is one of them (`selected_mem_available`).
    4. `explanation_agrees_iff` — the explanation is there and agrees with the
       selection exactly when the locks of every connection of the provider can be
       read. A lock whose text is no date locks nothing, but the explanation of
       its connection throws.
-/

namespace PieLab

open Lib

/-! ## Reading the locks of a connection -/

/-- The texts of the model locks. -/
def lockTexts (connection : ProviderConnectionReference) : List String :=
  connection.properties.filterMap fun
    | (key, .string value) => if isModelLockKey key then some value else none
    | _ => none

/-- The times of the locks that are not past, NaN among them. -/
def remainingLocks (env : RouterEnv) (dateNow : TimeValue)
    (connection : ProviderConnectionReference) : List (Option Int) :=
  ((lockTexts connection).map env.dates.parse).filter fun time => !time.any (· ≤ dateNow.val)

/-- The first lock that is not past is a date, if there is one. -/
def LocksReadable (env : RouterEnv) (dateNow : TimeValue)
    (connection : ProviderConnectionReference) : Prop :=
  (remainingLocks env dateNow connection).head? ≠ some none

instance (env : RouterEnv) (dateNow : TimeValue) (connection : ProviderConnectionReference) :
    Decidable (LocksReadable env dateNow connection) :=
  inferInstanceAs (Decidable (_ ≠ _))

/-- The loop over the times that are not past. -/
def earliestTime (earliest : Option (Option Int)) (time : Option Int) : Option (Option Int) :=
  match earliest with
  | none => some time
  | some none => some none
  | some (some e) => if time.any (· < e) then some time else some (some e)

theorem foldl_earliestLockStep (dates : DateFormat) (now : Int) (properties : List (String × Json))
    (earliest : Option (Option Int)) :
    properties.foldl (earliestLockStep dates now) earliest =
      (((properties.filterMap fun
        | (key, .string value) => if isModelLockKey key then some value else none
        | _ => none).map dates.parse).filter fun time => !time.any (· ≤ now)).foldl
          earliestTime earliest := by
  induction properties generalizing earliest with
  | nil => rfl
  | cons entry rest ih =>
    obtain ⟨key, value⟩ := entry
    rw [List.foldl_cons, ih]
    cases value with
    | string text =>
      by_cases hkey : isModelLockKey key = true
      · by_cases hpast : (dates.parse text).any (· ≤ now) = true
        · simp [earliestLockStep, hkey, hpast]
        · simp only [earliestLockStep, hkey, hpast, List.filterMap_cons, if_true, List.map_cons,
            List.filter_cons, Bool.not_true, Bool.not_false, Bool.false_eq_true, if_false,
            List.foldl_cons]
          congr 1
          cases earliest with
          | none => rfl
          | some e => cases e with
            | none => rfl
            | some e => rfl
      · simp [earliestLockStep, hkey]
    | null => rfl
    | bool b => rfl
    | number q => rfl
    | array items => rfl
    | object fields => rfl

/-- The least of `e` and the dates in `times`. -/
def leastTime (e : Int) (times : List (Option Int)) : Int :=
  (times.filterMap fun time => time).foldl min e

theorem foldl_earliestTime_some (e : Int) (times : List (Option Int)) :
    times.foldl earliestTime (some (some e)) = some (some (leastTime e times)) := by
  induction times generalizing e with
  | nil => rfl
  | cons time rest ih =>
    cases time with
    | none => exact ih e
    | some t =>
      rw [List.foldl_cons]
      by_cases h : t < e
      · have hstep : earliestTime (some (some e)) (some t) = some (some t) := by
          simp [earliestTime, h]
        rw [hstep, ih]
        simp [leastTime, min_eq_right (le_of_lt h)]
      · have hstep : earliestTime (some (some e)) (some t) = some (some e) := by
          simp [earliestTime, h]
        rw [hstep, ih]
        simp [leastTime, min_eq_left (not_lt.1 h)]

theorem foldl_earliestTime_nan (times : List (Option Int)) :
    times.foldl earliestTime (some none) = some none := by
  induction times with
  | nil => rfl
  | cons time rest ih => exact ih

/-- The earliest of the locks that are not past, when the first one is a date. -/
def earliestLock (env : RouterEnv) (dateNow : TimeValue)
    (connection : ProviderConnectionReference) : Option Int :=
  match remainingLocks env dateNow connection with
  | some e :: rest => some (leastTime e rest)
  | _ => none

theorem getEarliestModelLockUntil_eq (env : RouterEnv) (dateNow : TimeValue)
    (connection : ProviderConnectionReference) :
    getEarliestModelLockUntil env dateNow connection =
      match (remainingLocks env dateNow connection).foldl earliestTime none with
      | none => .ok none
      | some none => .error "Invalid time value"
      | some (some earliest) => .ok (some (isoText earliest)) := by
  unfold getEarliestModelLockUntil
  rw [foldl_earliestLockStep]
  rfl

variable {env : RouterEnv} {dateNow : TimeValue} {connection : ProviderConnectionReference}
variable {options : SelectProviderConnectionOptions} {selection : ProviderConnectionSelectionResult}

theorem getEarliestModelLockUntil_ok (h : LocksReadable env dateNow connection) :
    getEarliestModelLockUntil env dateNow connection =
      .ok ((earliestLock env dateNow connection).map isoText) := by
  rw [getEarliestModelLockUntil_eq]
  unfold earliestLock
  unfold LocksReadable at h
  cases hlocks : remainingLocks env dateNow connection with
  | nil => rfl
  | cons time rest =>
    cases time with
    | none =>
      rw [hlocks] at h
      exact absurd rfl h
    | some e =>
      rw [List.foldl_cons, show earliestTime none (some e) = some (some e) from rfl,
        foldl_earliestTime_some]
      rfl

theorem readable_of_getEarliest_ok {until_ : Option String}
    (h : getEarliestModelLockUntil env dateNow connection = .ok until_) :
    LocksReadable env dateNow connection := by
  intro hhead
  obtain ⟨rest, hlocks⟩ := List.head?_eq_some_iff.1 hhead
  rw [getEarliestModelLockUntil_eq, hlocks, List.foldl_cons,
    show earliestTime none none = some none from rfl, foldl_earliestTime_nan] at h
  cases h

/-! ## Which connections may be chosen -/

/-- What the quota filter asks of one connection. -/
def keepsQuota (env : RouterEnv) (options : QuotaFilterOptions)
    (connection : ProviderConnectionReference) : Bool :=
  let score := getProviderConnectionQuotaScore env connection options.now options.quotaMaxAgeMs
  match options.quotaStrategy with
  | .off => true
  | .preferRemaining => !score.hasFreshSnapshot || !score.isDepleted
  | .requireRemaining =>
    score.hasFreshSnapshot && !score.isDepleted &&
      score.remainingPercentage.all fun remaining =>
        options.quotaMinRemainingPercentage ≤ remaining

theorem applyQuotaSelectionFilter_eq (env : RouterEnv)
    (connections : List ProviderConnectionReference) (options : QuotaFilterOptions) :
    applyQuotaSelectionFilter env connections options =
      connections.filter (keepsQuota env options) := by
  unfold applyQuotaSelectionFilter
  cases hstrategy : options.quotaStrategy with
  | off =>
    rw [if_pos rfl]
    symm
    apply List.filter_eq_self.2
    intro c _
    simp [keepsQuota, hstrategy]
  | preferRemaining =>
    rw [if_neg (by simp)]
    apply List.filter_congr
    intro c _
    simp only [keepsQuota, hstrategy]
    cases (getProviderConnectionQuotaScore env c options.now options.quotaMaxAgeMs).hasFreshSnapshot
    · simp
    · simp
  | requireRemaining =>
    rw [if_neg (by simp)]
    apply List.filter_congr
    intro c _
    simp only [keepsQuota, hstrategy]
    cases (getProviderConnectionQuotaScore env c options.now options.quotaMaxAgeMs).hasFreshSnapshot
    · simp
    · simp only [Bool.not_true, Bool.false_eq_true, if_false, Bool.true_and, if_true]
      cases (getProviderConnectionQuotaScore env c options.now options.quotaMaxAgeMs).isDepleted
      · simp
      · simp

/-- The options both functions give the quota rules. -/
def quotaFilterOptions (env : RouterEnv) (dateNow : TimeValue)
    (options : SelectProviderConnectionOptions) : QuotaFilterOptions where
  now := selectionNow dateNow options
  quotaStrategy := selectionQuotaStrategy options
  quotaMaxAgeMs := selectionQuotaMaxAgeMs env options
  quotaMinRemainingPercentage := selectionQuotaMinRemaining env options

/-- A connection that may be chosen. -/
def eligible (env : RouterEnv) (dateNow : TimeValue) (options : SelectProviderConnectionOptions)
    (connection : ProviderConnectionReference) : Bool :=
  connection.isActive ≠ some false &&
    !(normalizeConnectionIdSet options.excludeConnectionIds).contains connection.id &&
    !isModelLockActive env dateNow connection options.model &&
    keepsQuota env (quotaFilterOptions env dateNow options) connection

theorem mem_availableConnections :
    connection ∈ availableConnections env dateNow options ↔
      connection ∈ explainedConnections options ∧
        eligible env dateNow options connection = true := by
  unfold availableConnections unlockedConnections providerConnections explainedConnections
    sortProviderConnections eligible
  rw [applyQuotaSelectionFilter_eq]
  simp only [List.mem_filter, mem_sortBy, Bool.and_eq_true]
  show _ ∧ keepsQuota env (quotaFilterOptions env dateNow options) connection = true ↔ _
  tauto

/-! ## The explanation of one connection -/

/-- The explanation of a connection whose locks can be read. -/
def explainedCandidate (env : RouterEnv) (dateNow : TimeValue) (options : ExplainCandidateOptions)
    (connection : ProviderConnectionReference) : ProviderConnectionCandidateExplanation :=
  let quotaScore :=
    getProviderConnectionQuotaScore env connection options.now options.quotaMaxAgeMs
  let assessed := assessQuota env quotaScore options
    (assessConnection env dateNow connection options)
  { id := connection.id
    provider := connection.provider
    isActive := connection.isActive ≠ some false
    priority := connection.priority
    selected := some connection.id = options.selectedConnectionId
    selectable := assessed.selectable
    reasons := candidateReasons connection options assessed
    lastUsedAt := connection.lastUsedAt
    consecutiveUseCount := connection.consecutiveUseCount
    modelLockUntil := (earliestLock env dateNow connection).map isoText
    quotaSelection := readProviderConnectionQuotaSnapshot connection
    quotaFresh := quotaScore.hasFreshSnapshot
    quotaScore := quotaScore.score
    remainingPercentage := quotaScore.remainingPercentage }

theorem explainProviderConnectionCandidate_ok {options : ExplainCandidateOptions}
    (h : LocksReadable env dateNow connection) :
    explainProviderConnectionCandidate env dateNow options connection =
      .ok (explainedCandidate env dateNow options connection) := by
  unfold explainProviderConnectionCandidate
  rw [getEarliestModelLockUntil_ok h]
  rfl

theorem readable_of_explain_ok {options : ExplainCandidateOptions}
    {candidate : ProviderConnectionCandidateExplanation}
    (h : explainProviderConnectionCandidate env dateNow options connection = .ok candidate) :
    LocksReadable env dateNow connection := by
  obtain ⟨until_, huntil, _⟩ := Except.bind_ok h
  exact readable_of_getEarliest_ok huntil

@[simp] theorem CandidateAssessment.ruleOutIf_selectable (bad : Bool) (reason : String)
    (assessed : CandidateAssessment) :
    (assessed.ruleOutIf bad reason).selectable = (assessed.selectable && !bad) := by
  cases bad with
  | false => simp [CandidateAssessment.ruleOutIf]
  | true => simp [CandidateAssessment.ruleOutIf]

theorem assessConnection_selectable (env : RouterEnv) (dateNow : TimeValue)
    (connection : ProviderConnectionReference) (options : ExplainCandidateOptions) :
    (assessConnection env dateNow connection options).selectable =
      (connection.isActive ≠ some false && !options.excludeSet.contains connection.id &&
        !isModelLockActive env dateNow connection options.model) := by
  simp only [assessConnection, CandidateAssessment.ruleOutIf_selectable, Bool.true_and,
    decide_not]

theorem assessQuota_selectable (env : RouterEnv) (connection : ProviderConnectionReference)
    (options : ExplainCandidateOptions) (filter : QuotaFilterOptions)
    (hnow : filter.now = options.now) (hstrategy : filter.quotaStrategy = options.quotaStrategy)
    (hage : filter.quotaMaxAgeMs = options.quotaMaxAgeMs)
    (hmin : filter.quotaMinRemainingPercentage = options.quotaMinRemainingPercentage)
    (assessed : CandidateAssessment) :
    (assessQuota env
      (getProviderConnectionQuotaScore env connection options.now options.quotaMaxAgeMs)
      options assessed).selectable =
      (assessed.selectable && keepsQuota env filter connection) := by
  unfold assessQuota keepsQuota
  rw [hnow, hstrategy, hage, hmin]
  generalize getProviderConnectionQuotaScore env connection options.now options.quotaMaxAgeMs = score
  cases options.quotaStrategy with
  | off => simp
  | preferRemaining =>
    cases hfresh : score.hasFreshSnapshot with
    | false => simp [hfresh]
    | true =>
      cases hdepleted : score.isDepleted with
      | false => simp [hfresh, hdepleted]
      | true => simp [hfresh, hdepleted]
  | requireRemaining =>
    cases hfresh : score.hasFreshSnapshot with
    | false => simp [hfresh]
    | true =>
      cases hdepleted : score.isDepleted with
      | true => simp [hfresh, hdepleted]
      | false =>
        cases hremaining : score.remainingPercentage with
        | none => simp [hfresh, hdepleted, hremaining]
        | some remaining =>
          by_cases h : remaining < options.quotaMinRemainingPercentage
          · simp [hfresh, hdepleted, hremaining, h, not_le.2 h]
          · simp [hfresh, hdepleted, hremaining, h, not_lt.1 h]

/-- The explanation marks a candidate selectable by the rules of the selection. -/
theorem explainedCandidate_selectable (env : RouterEnv) (dateNow : TimeValue)
    (options : SelectProviderConnectionOptions) (selection : ProviderConnectionSelectionResult)
    (connection : ProviderConnectionReference) :
    (explainedCandidate env dateNow (candidateOptions env dateNow options selection)
      connection).selectable = eligible env dateNow options connection := by
  show (assessQuota _ _ _ _).selectable = _
  rw [assessQuota_selectable env connection (candidateOptions env dateNow options selection)
    (quotaFilterOptions env dateNow options) rfl rfl rfl rfl, assessConnection_selectable]
  rfl

/-! ## The selection -/

theorem unlockedConnections_eq_nil (h : unlockedConnections env dateNow options = []) :
    availableConnections env dateNow options = [] := by
  unfold availableConnections
  rw [applyQuotaSelectionFilter_eq, h]
  rfl

theorem providerConnections_eq_nil (h : providerConnections options = []) :
    availableConnections env dateNow options = [] := by
  apply unlockedConnections_eq_nil
  unfold unlockedConnections
  rw [h]
  rfl

theorem selectUnavailable_status (h : selectUnavailable env dateNow options = .ok selection) :
    selection.status ≠ .selected := by
  obtain ⟨untils, _, h⟩ := Lib.Except.map_ok h
  subst h
  unfold unavailableResult
  split
  · exact fun he => by cases he
  · exact fun he => by cases he

theorem selectRoundRobin_mem {env : RouterEnv} {now : TimeValue} {stickyLimit : Int}
    {available : List ProviderConnectionReference} (h : available ≠ []) :
    ∃ connection updates, connection ∈ available ∧
      selectRoundRobin env now stickyLimit available = .selected connection updates := by
  obtain ⟨oldest, holdest⟩ := head?_sortBy_isSome (sortByOldestUseThenPriority env) h
  obtain ⟨current, hcurrent⟩ :=
    head?_sortBy_isSome (sortByMostRecentUseThenPriority env) h
  unfold selectRoundRobin
  simp only [holdest, hcurrent]
  split
  · exact ⟨current, _, mem_of_head?_sortBy hcurrent, rfl⟩
  · exact ⟨oldest, _, mem_of_head?_sortBy holdest, rfl⟩

theorem selectProviderConnection_selected (h : availableConnections env dateNow options ≠ []) :
    ∃ connection updates, connection ∈ availableConnections env dateNow options ∧
      selectProviderConnection env dateNow options = .ok (.selected connection updates) := by
  have hprovider : providerConnections options ≠ [] := fun he => h (providerConnections_eq_nil he)
  have hunlocked : unlockedConnections env dateNow options ≠ [] :=
    fun he => h (unlockedConnections_eq_nil he)
  unfold selectProviderConnection
  simp only [if_neg hprovider, if_neg hunlocked, if_neg h]
  split
  · -- the preferred connection
    rename_i connection hpinned
    refine ⟨connection, none, ?_, rfl⟩
    split at hpinned
    · cases hpinned
    · cases hpinned
    · exact List.mem_of_find?_eq_some hpinned
  · by_cases hstrategy : selectionStrategy options = .roundRobin
    · rw [if_neg (not_not.2 hstrategy)]
      obtain ⟨connection, updates, hmem, heq⟩ := @selectRoundRobin_mem env
        (selectionNow dateNow options) (selectionStickyLimit env options) _ h
      exact ⟨connection, updates, hmem, by rw [heq]⟩
    · rw [if_pos hstrategy]
      split
      · rename_i hnone
        rw [List.head?_eq_none_iff] at hnone
        split at hnone
        · exact absurd hnone h
        · exact absurd (sortBy_eq_nil.1 hnone) h
      · rename_i connection hhead
        refine ⟨connection, none, ?_, rfl⟩
        split at hhead
        · exact List.mem_of_head? hhead
        · exact mem_of_head?_sortBy hhead

theorem selectProviderConnection_none (h : availableConnections env dateNow options = [])
    (hselect : selectProviderConnection env dateNow options = .ok selection) :
    selection.status ≠ .selected := by
  unfold selectProviderConnection at hselect
  split at hselect
  · cases hselect
    exact fun he => by cases he
  · split at hselect
    · exact selectUnavailable_status hselect
    · simp only [if_pos h] at hselect
      cases hselect
      exact fun he => by cases he

theorem selectProviderConnection_status
    (hselect : selectProviderConnection env dateNow options = .ok selection) :
    selection.status = .selected ↔ availableConnections env dateNow options ≠ [] := by
  constructor
  · intro hstatus hnil
    exact selectProviderConnection_none hnil hselect hstatus
  · intro h
    obtain ⟨connection, updates, _, heq⟩ := selectProviderConnection_selected h
    rw [heq] at hselect
    cases hselect
    rfl

theorem selected_mem_available {updates : Option ConnectionUseUpdates}
    (hselect : selectProviderConnection env dateNow options = .ok (.selected connection updates)) :
    connection ∈ availableConnections env dateNow options := by
  have h := (selectProviderConnection_status hselect).1 rfl
  obtain ⟨_, _, hmem, heq⟩ := selectProviderConnection_selected h
  rw [heq] at hselect
  cases hselect
  exact hmem

theorem selectProviderConnection_ok
    (hlocks : ∀ c ∈ explainedConnections options, LocksReadable env dateNow c) :
    ∃ selection, selectProviderConnection env dateNow options = .ok selection := by
  by_cases h : availableConnections env dateNow options = []
  · unfold selectProviderConnection
    by_cases hprovider : providerConnections options = []
    · exact ⟨_, if_pos hprovider⟩
    · rw [if_neg hprovider]
      by_cases hunlocked : unlockedConnections env dateNow options = []
      · rw [if_pos hunlocked]
        have hmap : (lockedConnections env dateNow options).mapM
            (getEarliestModelLockUntil env dateNow) =
            .ok ((lockedConnections env dateNow options).map
              fun c => (earliestLock env dateNow c).map isoText) := by
          apply Except.mapM_eq_ok
          intro c hc
          apply getEarliestModelLockUntil_ok
          apply hlocks
          have hc := (List.mem_filter.1 hc).1
          unfold providerConnections sortProviderConnections at hc
          unfold explainedConnections sortProviderConnections
          simp only [mem_sortBy, List.mem_filter, Bool.and_eq_true] at hc ⊢
          exact ⟨hc.1, hc.2.1⟩
        unfold selectUnavailable
        rw [hmap]
        exact ⟨_, rfl⟩
      · rw [if_neg hunlocked]
        simp only [if_pos h]
        exact ⟨_, rfl⟩
  · obtain ⟨connection, updates, _, heq⟩ := selectProviderConnection_selected h
    exact ⟨_, heq⟩

/-! ## Agreement -/

/-- What the explanation has to say about a selection. -/
structure ExplanationAgrees (env : RouterEnv) (dateNow : TimeValue)
    (options : SelectProviderConnectionOptions) (selection : ProviderConnectionSelectionResult)
    (explanation : ProviderConnectionSelectionExplanation) : Prop where
  /-- One candidate for each connection of the provider. -/
  candidates : explanation.candidates.map (·.id) = (explainedConnections options).map (·.id)
  selectable : ∀ candidate ∈ explanation.candidates, candidate.selectable = true ↔
    ∃ connection ∈ availableConnections env dateNow options, connection.id = candidate.id
  status : explanation.status = .selected ↔
    ∃ candidate ∈ explanation.candidates, candidate.selectable = true
  selected : explanation.status = .selected → ∃ connection updates candidate,
    selection = .selected connection updates ∧
      explanation.candidates.filter (·.selected) = [candidate] ∧
      candidate.id = connection.id ∧ candidate.selectable = true

theorem nodup_explainedConnections (h : (options.connections.map (·.id)).Nodup) :
    ((explainedConnections options).map (·.id)).Nodup :=
  ((sortBy_perm _ _).map _).nodup_iff.2 (h.sublist (List.filter_sublist.map _))

theorem eq_of_explained_id (hids : (options.connections.map (·.id)).Nodup)
    {c c' : ProviderConnectionReference} (hc : c ∈ explainedConnections options)
    (hc' : c' ∈ explainedConnections options) (h : c.id = c'.id) : c = c' :=
  List.inj_on_of_nodup_map (nodup_explainedConnections hids) hc hc' h

theorem filter_map_eq_singleton {α β κ : Type} [DecidableEq κ] {f : α → β} (key : α → κ)
    {l : List α}
    (hnodup : (l.map key).Nodup) {p : β → Bool} {a : α} (ha : a ∈ l)
    (hp : ∀ b ∈ l, p (f b) = true ↔ key b = key a) : (l.map f).filter p = [f a] := by
  induction l with
  | nil => cases ha
  | cons b rest ih =>
    rw [List.map_cons, List.nodup_cons] at hnodup
    rw [List.map_cons, List.filter_cons]
    cases ha with
    | head =>
      have hrest : (rest.map f).filter p = [] := by
        rw [List.filter_eq_nil_iff]
        intro x hx
        obtain ⟨c, hc, rfl⟩ := List.mem_map.1 hx
        intro hpc
        have hkey := (hp c (List.mem_cons_of_mem _ hc)).1 hpc
        exact hnodup.1 (hkey ▸ List.mem_map_of_mem hc)
      rw [if_pos ((hp a List.mem_cons_self).2 rfl), hrest]
    | tail _ ha =>
      have hb : ¬ p (f b) = true := by
        intro hpb
        have hkey := (hp b List.mem_cons_self).1 hpb
        exact hnodup.1 (hkey ▸ List.mem_map_of_mem ha)
      rw [if_neg hb]
      exact ih hnodup.2 ha fun c hc => hp c (List.mem_cons_of_mem _ hc)

theorem explanationAgrees (hids : (options.connections.map (·.id)).Nodup)
    (hselect : selectProviderConnection env dateNow options = .ok selection)
    {explanation : ProviderConnectionSelectionExplanation}
    (hstatus : explanation.status = selection.status)
    (hcandidates : explanation.candidates = (explainedConnections options).map
      (explainedCandidate env dateNow (candidateOptions env dateNow options selection))) :
    ExplanationAgrees env dateNow options selection explanation := by
  have hselectable : ∀ c ∈ explainedConnections options,
      (explainedCandidate env dateNow (candidateOptions env dateNow options selection)
        c).selectable = true ↔ c ∈ availableConnections env dateNow options := by
    intro c hc
    rw [explainedCandidate_selectable, mem_availableConnections]
    exact ⟨fun h => ⟨hc, h⟩, And.right⟩
  refine ⟨?_, ?_, ?_, ?_⟩
  · rw [hcandidates, List.map_map]
    rfl
  · intro candidate hcandidate
    rw [hcandidates] at hcandidate
    obtain ⟨c, hc, rfl⟩ := List.mem_map.1 hcandidate
    rw [hselectable c hc]
    constructor
    · intro h
      exact ⟨c, h, rfl⟩
    · rintro ⟨c', hc', hid⟩
      have heq := eq_of_explained_id hids (mem_availableConnections.1 hc').1 hc hid
      rw [← heq]
      exact hc'
  · rw [hstatus, selectProviderConnection_status hselect, hcandidates]
    constructor
    · intro h
      obtain ⟨c, hc⟩ := List.exists_mem_of_ne_nil _ h
      have hexplained := (mem_availableConnections.1 hc).1
      exact ⟨_, List.mem_map_of_mem hexplained, (hselectable c hexplained).2 hc⟩
    · rintro ⟨candidate, hcandidate, h⟩
      obtain ⟨c, hc, rfl⟩ := List.mem_map.1 hcandidate
      exact List.ne_nil_of_mem ((hselectable c hc).1 h)
  · intro h
    rw [hstatus] at h
    cases selection with
    | unavailable => cases h
    | missing => cases h
    | selected connection updates =>
      have hmem := selected_mem_available hselect
      have hexplained := (mem_availableConnections.1 hmem).1
      refine ⟨connection, updates, _, rfl, ?_, rfl, (hselectable connection hexplained).2 hmem⟩
      rw [hcandidates]
      apply filter_map_eq_singleton (fun c : ProviderConnectionReference => c.id)
        (nodup_explainedConnections hids) hexplained
      intro c _
      show decide (some c.id = some connection.id) = true ↔ c.id = connection.id
      simp

theorem readable_of_explanation {explanation : ProviderConnectionSelectionExplanation}
    (h : explainProviderConnectionSelection env dateNow options = .ok explanation) :
    ∀ c ∈ explainedConnections options, LocksReadable env dateNow c := by
  obtain ⟨selection, _, h⟩ := Except.bind_ok h
  obtain ⟨candidates, hcandidates, _⟩ := Except.bind_ok h
  apply (Except.mapM_ok (P := fun c => LocksReadable env dateNow c)
    (g := explainedCandidate env dateNow (candidateOptions env dateNow options selection))
    ?_ hcandidates).1
  intro c candidate hc
  have hread := readable_of_explain_ok hc
  rw [explainProviderConnectionCandidate_ok hread] at hc
  exact ⟨hread, (Except.ok.inj hc).symm⟩

/-- The selection and its explanation return and agree exactly when the first lock that
is not past is a date, on every connection of the provider. -/
theorem explanation_agrees_iff (env : RouterEnv) (dateNow : TimeValue)
    (options : SelectProviderConnectionOptions) (hids : (options.connections.map (·.id)).Nodup) :
    (∃ selection explanation,
      selectProviderConnection env dateNow options = .ok selection ∧
        explainProviderConnectionSelection env dateNow options = .ok explanation ∧
        ExplanationAgrees env dateNow options selection explanation) ↔
      ∀ c ∈ options.connections, c.provider = options.provider → LocksReadable env dateNow c := by
  have hexplained : ∀ c, c ∈ explainedConnections options ↔
      c ∈ options.connections ∧ c.provider = options.provider := by
    intro c
    unfold explainedConnections sortProviderConnections
    simp
  constructor
  · rintro ⟨_, explanation, _, hexplain, _⟩ c hc hprovider
    exact readable_of_explanation hexplain c ((hexplained c).2 ⟨hc, hprovider⟩)
  · intro hlocks
    have hlocks : ∀ c ∈ explainedConnections options, LocksReadable env dateNow c := by
      intro c hc
      exact hlocks c ((hexplained c).1 hc).1 ((hexplained c).1 hc).2
    obtain ⟨selection, hselect⟩ := selectProviderConnection_ok hlocks
    have hcandidates := Except.mapM_eq_ok
      (f := explainProviderConnectionCandidate env dateNow
        (candidateOptions env dateNow options selection))
      (fun c hc => explainProviderConnectionCandidate_ok (hlocks c hc))
    have hexplain : explainProviderConnectionSelection env dateNow options =
        .ok (selectionExplanation env options selection ((explainedConnections options).map
          (explainedCandidate env dateNow (candidateOptions env dateNow options selection)))) := by
      unfold explainProviderConnectionSelection
      rw [hselect]
      show Except.bind ((explainedConnections options).mapM _) _ = _
      rw [hcandidates]
      rfl
    exact ⟨selection, _, hselect, hexplain, explanationAgrees hids hselect rfl rfl⟩

/-! ## Examples -/

/-- A platform that reads ISO dates and whole numbers. -/
def exampleRouterEnv : RouterEnv where
  dates := isoDates
  numbers := { number := fun text => text.toInt?.map (↑), parseInt := String.toInt? }
  parseFloat text := text.toInt?.map (↑)
  numberText q := toString q.num
  toFixed2 q := toString q.num ++ ".00"

/-- The first of January 2026. -/
def exampleNow : TimeValue := ⟨1767225600000, by decide⟩

def exampleConnection (id : String) (properties : List (String × Json)) :
    ProviderConnectionReference where
  id := id
  provider := "openai"
  isActive := none
  priority := none
  lastUsedAt := none
  consecutiveUseCount := none
  lastError := none
  errorCode := none
  providerSpecificData := none
  properties := properties

def exampleSelection (connections : List ProviderConnectionReference) :
    SelectProviderConnectionOptions where
  provider := "openai"
  model := some "gpt-5"
  connections := connections
  settings := none
  excludeConnectionIds := none
  preferredConnectionId := none
  now := none

/-- One connection locked until noon, one that is free. -/
def lockedAndFree : SelectProviderConnectionOptions :=
  exampleSelection [exampleConnection "a"
      [("modelLock_gpt-5", .string "2026-01-01T12:00:00.000Z")], exampleConnection "b" []]

theorem explanation_agrees_example :
    ∃ selection explanation,
      selectProviderConnection exampleRouterEnv exampleNow lockedAndFree = .ok selection ∧
        explainProviderConnectionSelection exampleRouterEnv exampleNow lockedAndFree =
          .ok explanation ∧
        ExplanationAgrees exampleRouterEnv exampleNow lockedAndFree selection explanation :=
  (explanation_agrees_iff exampleRouterEnv exampleNow lockedAndFree (by decide)).2 (by decide)

/-- A lock whose text is no date. -/
def unreadableLock : ProviderConnectionReference :=
  exampleConnection "a" [("modelLock_gpt-5", .string "soon")]

/-- The selection takes the connection, and the explanation throws. -/
theorem explanation_throws :
    (∃ connection updates, selectProviderConnection exampleRouterEnv exampleNow
      (exampleSelection [unreadableLock]) = .ok (.selected connection updates)) ∧
    ¬ ∃ selection explanation,
      selectProviderConnection exampleRouterEnv exampleNow (exampleSelection [unreadableLock]) =
          .ok selection ∧
        explainProviderConnectionSelection exampleRouterEnv exampleNow
          (exampleSelection [unreadableLock]) = .ok explanation ∧
        ExplanationAgrees exampleRouterEnv exampleNow (exampleSelection [unreadableLock])
          selection explanation := by
  constructor
  · have hmem : unreadableLock ∈ availableConnections exampleRouterEnv exampleNow
        (exampleSelection [unreadableLock]) := by
      rw [mem_availableConnections]
      refine ⟨?_, by decide⟩
      show unreadableLock ∈ sortBy byPriority [unreadableLock]
      simp
    obtain ⟨connection, updates, _, hselect⟩ :=
      selectProviderConnection_selected (List.ne_nil_of_mem hmem)
    exact ⟨connection, updates, hselect⟩
  · rintro ⟨_, _, _, hexplain, _⟩
    have hmem : unreadableLock ∈ explainedConnections (exampleSelection [unreadableLock]) := by
      show unreadableLock ∈ sortBy byPriority [unreadableLock]
      simp
    have hread := readable_of_explanation hexplain _ hmem
    exact absurd hread (by decide)

end PieLab

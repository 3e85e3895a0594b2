import PieLab.Server.BudgetPolicy
import PieLab.Lib.Runs

/-
  Global budgets over a run of requests

  Requests are handled one after the other: each is checked against the budget and,
  if it is let through, recorded under its provider with what it cost. A limit of
  the global settings is meant for all providers together, but the check sums up
  only what the records of the request's own provider cost, so two providers can
  each spend the whole limit. The check also uses the instant of the check, while
  the record bears the instant the attempt began, which may be in the day before.

  What is proved:
    1. `GlobalLimit.window_fits` — a request that is let through fits the limit
       together with what its check sums up.
    2. `global_limit_respected` — where the window of each check holds no cost of
       another provider and is the one its record falls into, all providers
       together stay within the limit.
    3. `two_providers_exceed` — two providers spend more than the limit.
-/

namespace PieLab.Server

open Lib

inductive BudgetPeriod where
  | day | month
  deriving DecidableEq, Repr

namespace BudgetPeriod

def startOf : BudgetPeriod → Int → Int
  | .day => startOfUtcDay
  | .month => startOfUtcMonth

def limitOf : BudgetPeriod → BudgetRule → Option ℚ
  | .day => BudgetRule.dailyUsd
  | .month => BudgetRule.monthlyUsd

def fieldOf : BudgetPeriod → BudgetLimitRule → Option ℚ
  | .day => BudgetLimitRule.dailyUsd
  | .month => BudgetLimitRule.monthlyUsd

theorem startOf_le (period : BudgetPeriod) (date : Int) : period.startOf date ≤ date := by
  cases period with
  | day => exact startOfUtcDay_le date
  | month => exact startOfUtcMonth_le date

end BudgetPeriod

/-- A blocking limit of the global settings that no provider's rule takes away. -/
structure GlobalLimit (settings : BudgetLimitSettings) (period : BudgetPeriod) (limit : ℚ) :
    Prop where
  mode : settings.mode = some .block
  limit : normalizeUsd (period.fieldOf settings.toBudgetLimitRule) = some limit
  providerMode : ∀ entry ∈ settings.providerLimits, entry.2.mode = none ∨ entry.2.mode = some .block
  providerLimit : ∀ entry ∈ settings.providerLimits, period.fieldOf entry.2 = none

/-- A request and what is recorded of it if it is let through. -/
structure BudgetedRequest where
  estimatedRequestUsd : Option ℚ
  now : Int
  record : UsageRecord
  record_before : record.timestamp ≤ now
  record_decimals : IsMultiple 8 record.costOf
  record_cost : record.costOf ≤ (normalizeUsd estimatedRequestUsd).getD 0

/-- `evaluateChatRouteBudget` -/
def BudgetedRequest.budgetStatus (request : BudgetedRequest) (settings : BudgetLimitSettings)
    (usage : List UsageRecord) : BudgetStatus :=
  evaluateBudget
    { settings := some settings
      usage
      provider := some request.record.resolvedProvider
      estimatedRequestUsd := request.estimatedRequestUsd
      now := request.now }

/-- What `recordBudgetSkippedUsage` writes of a request that is not let through. -/
def BudgetedRequest.skipped (request : BudgetedRequest) : UsageRecord :=
  { request.record with cost := none, costUsd := none, status := .skipped }

structure UsageLog where
  records : List UsageRecord
  clock : Int

def UsageLog.handle (log : UsageLog) (settings : BudgetLimitSettings) (request : BudgetedRequest) :
    UsageLog where
  records := log.records ++
    [if (request.budgetStatus settings log.records).shouldBlock then request.skipped else request.record]
  clock := request.now

/-- A request is handled after the ones before it. -/
def Handles (settings : BudgetLimitSettings) (s : UsageLog) (request : BudgetedRequest)
    (t : UsageLog) : Prop :=
  s.clock ≤ request.record.timestamp ∧ t = s.handle settings request

/-- What the records of the period that `date` is in cost, whatever their provider. -/
def UsageLog.spentIn (log : UsageLog) (period : BudgetPeriod) (date : Int) : ℚ :=
  ((log.records.filter fun record => period.startOf record.timestamp = period.startOf date).map
    UsageRecord.costOf).sum

/-! ## One check -/

theorem lookup_mem {entries : List (String × BudgetLimitRule)} {name : String}
    {rule : BudgetLimitRule}
    (h : entries.lookup name = some rule) : ∃ entry ∈ entries, entry.2 = rule := by
  obtain ⟨l₁, l₂, rfl, -⟩ := List.lookup_eq_some_iff.1 h
  exact ⟨(name, rule), by simp, rfl⟩

section Resolved
variable {settings : BudgetLimitSettings} {period : BudgetPeriod} {limit : ℚ}
  (hglobal : GlobalLimit settings period limit) (provider : Option String)
include hglobal

theorem GlobalLimit.providerRule {providerRule : BudgetLimitRule}
    (h : providerRule = (provider.bind fun name => settings.providerLimits.lookup name).getD {}) :
    (providerRule.mode = none ∨ providerRule.mode = some .block) ∧
      period.fieldOf providerRule = none := by
  cases hrule : provider.bind fun name => settings.providerLimits.lookup name with
  | none =>
    rw [hrule] at h
    subst h
    exact ⟨.inl rfl, by cases period <;> rfl⟩
  | some rule =>
    rw [hrule] at h
    obtain ⟨name, -, hlookup⟩ := Option.bind_eq_some_iff.1 hrule
    obtain ⟨entry, hentry, rfl⟩ := lookup_mem hlookup
    subst h
    exact ⟨hglobal.providerMode entry hentry, hglobal.providerLimit entry hentry⟩

theorem GlobalLimit.mode_eq : (resolveBudgetRule (some settings) provider).mode = .block := by
  have hrule := (hglobal.providerRule provider rfl).1
  have hmode : ∀ mode : Option BudgetPolicyMode, mode = none ∨ mode = some .block →
      (mode.or settings.mode).getD .off = .block := by
    intro mode h
    obtain rfl | rfl := h
    · rw [hglobal.mode]
      rfl
    · rfl
  exact hmode _ hrule

theorem GlobalLimit.limit_eq :
    normalizeUsd (period.limitOf (resolveBudgetRule (some settings) provider)) = some limit := by
  have hrule := (hglobal.providerRule provider rfl).2
  have hfield : period.limitOf (resolveBudgetRule (some settings) provider) =
      (period.fieldOf ((provider.bind fun name => settings.providerLimits.lookup name).getD {})).or
        (period.fieldOf settings.toBudgetLimitRule) := by
    cases period <;> rfl
  rw [hfield, hrule, Option.none_or]
  exact hglobal.limit

/-- A request that is let through fits the limit together with what the check sums up. -/
theorem GlobalLimit.window_fits {usage : List UsageRecord} {estimate : Option ℚ} {now : Int}
    (h : (evaluateBudget ⟨some settings, usage, provider, estimate, now⟩).shouldBlock = false) :
    roundUsd (sumUsageCost usage (period.startOf now) now (normalizeProvider provider)
      + (normalizeUsd estimate).getD 0) ≤ limit := by
  have hmode := hglobal.mode_eq (normalizeProvider provider)
  have hlimit := hglobal.limit_eq (normalizeProvider provider)
  have hnone := @violations_eq_nil ⟨some settings, usage, provider, estimate, now⟩ hmode h
  simp only [evaluateBudget, collectBudgetViolations, List.append_eq_nil_iff] at hnone
  obtain ⟨⟨-, hdaily⟩, hmonthly⟩ := hnone
  cases period with
  | day =>
    have hlimit' : normalizeUsd (resolveBudgetRule (some settings) (normalizeProvider provider)).dailyUsd
        = some limit := hlimit
    apply createBudgetWindow_exhausted
    rw [hlimit'] at hdaily
    exact windowViolation_eq_nil rfl hdaily
  | month =>
    have hlimit' : normalizeUsd (resolveBudgetRule (some settings) (normalizeProvider provider)).monthlyUsd
        = some limit := hlimit
    apply createBudgetWindow_exhausted
    rw [hlimit'] at hmonthly
    exact windowViolation_eq_nil rfl hmonthly

end Resolved

/-! ## Runs -/

theorem sum_filter_le {l : List UsageRecord} {p q : UsageRecord → Bool}
    (h : ∀ record ∈ l, p record = true → 0 < record.costOf → q record = true) :
    ((l.filter p).map UsageRecord.costOf).sum ≤ ((l.filter q).map UsageRecord.costOf).sum := by
  induction l with
  | nil => exact le_refl _
  | cons record l ih =>
    have ih := ih fun other hother => h other (List.mem_cons_of_mem _ hother)
    have hcost := record.costOf_nonneg
    have hhead := h record List.mem_cons_self
    by_cases hp : p record = true <;> by_cases hq : q record = true <;>
      simp only [List.filter_cons, if_pos, hp, hq, if_false, List.map_cons, List.sum_cons,
        Bool.false_eq_true]
    · linarith
    · -- a record the second filter leaves out costs nothing
      have hzero : ¬ 0 < record.costOf := fun hpos => hq (hhead hp hpos)
      linarith
    · linarith
    · exact ih

/-- What the check of a request looks at: the records of its window that cost something are its
provider's own, and its record falls into that window. -/
structure SeesSpending (period : BudgetPeriod) (s : UsageLog) (request : BudgetedRequest) :
    Prop where
  provider : ∀ record ∈ s.records, period.startOf record.timestamp = period.startOf request.now →
    0 < record.costOf →
      matchesValue (some record.resolvedProvider)
        (normalizeProvider (some request.record.resolvedProvider)) = true
  window : period.startOf request.record.timestamp = period.startOf request.now

/-- The records are in the past and have no further decimals. -/
structure UsageLog.Dated (log : UsageLog) : Prop where
  past : ∀ record ∈ log.records, record.timestamp ≤ log.clock
  decimals : ∀ record ∈ log.records, IsMultiple 8 record.costOf

section Steps
variable {settings : BudgetLimitSettings} {period : BudgetPeriod} {limit : ℚ} {s t : UsageLog}
  {request : BudgetedRequest}

theorem BudgetedRequest.skipped_costOf (request : BudgetedRequest) :
    request.skipped.costOf = 0 := rfl

/-- What the next record costs. -/
def BudgetedRequest.charge (request : BudgetedRequest) (settings : BudgetLimitSettings)
    (s : UsageLog) : ℚ :=
  if (request.budgetStatus settings s.records).shouldBlock then 0 else request.record.costOf

theorem handle_spentIn (date : Int) : (s.handle settings request).spentIn period date =
    s.spentIn period date +
      if period.startOf request.record.timestamp = period.startOf date then
        request.charge settings s
      else 0 := by
  unfold UsageLog.spentIn UsageLog.handle BudgetedRequest.charge
  rw [List.filter_append, List.map_append, List.sum_append]
  congr 1
  by_cases hblock : (request.budgetStatus settings s.records).shouldBlock = true
  · have htime : request.skipped.timestamp = request.record.timestamp := rfl
    by_cases hdate : period.startOf request.record.timestamp = period.startOf date <;>
      simp [hblock, hdate, htime, request.skipped_costOf]
  · by_cases hdate : period.startOf request.record.timestamp = period.startOf date <;>
      simp [hblock, hdate]

theorem Handles.dated (hdated : s.Dated) (h : Handles settings s request t) : t.Dated := by
  obtain ⟨hclock, rfl⟩ := h
  have hbefore := request.record_before
  constructor
  · intro record hrecord
    obtain hold | hnew := List.mem_append.1 hrecord
    · have hpast := hdated.past record hold
      show record.timestamp ≤ request.now
      omega
    · rw [List.mem_singleton.1 hnew]
      split <;> exact hbefore
  · intro record hrecord
    obtain hold | hnew := List.mem_append.1 hrecord
    · exact hdated.decimals record hold
    · rw [List.mem_singleton.1 hnew]
      split
      · exact isMultiple_zero 8
      · exact request.record_decimals

theorem SeesSpending.spentIn_le (hdated : s.Dated) (hclock : s.clock ≤ request.record.timestamp)
    (hsees : SeesSpending period s request) :
    s.spentIn period request.now ≤ sumUsageCost s.records (period.startOf request.now) request.now
      (normalizeProvider (some request.record.resolvedProvider)) := by
  rw [sumUsageCost_eq]
  have hdecimals : IsMultiple 8 ((s.records.filter (inWindow (period.startOf request.now) request.now
      (normalizeProvider (some request.record.resolvedProvider)))).map UsageRecord.costOf).sum := by
    apply isMultiple_sum
    intro cost hcost
    obtain ⟨record, hrecord, rfl⟩ := List.mem_map.1 hcost
    exact hdated.decimals record (List.mem_of_mem_filter hrecord)
  unfold roundUsd
  rw [hdecimals.roundTo]
  apply sum_filter_le
  intro record hrecord hperiod hcost
  have hperiod : period.startOf record.timestamp =
      period.startOf request.now := by simpa using hperiod
  have hprovider := hsees.provider record hrecord hperiod hcost
  have hpast := hdated.past record hrecord
  have hbefore := request.record_before
  have hstart := period.startOf_le record.timestamp
  have hto : record.timestamp ≤ request.now := by omega
  rw [hperiod] at hstart
  simp [inWindow, hprovider, hstart, hto]

theorem Handles.within (hglobal : GlobalLimit settings period limit) (hdated : s.Dated)
    (h : Handles settings s request t) (hsees : SeesSpending period s request)
    (hwithin : ∀ date, s.spentIn period date ≤ limit) (date : Int) :
    t.spentIn period date ≤ limit := by
  obtain ⟨hclock, rfl⟩ := h
  rw [handle_spentIn]
  have hbefore := hwithin date
  split
  next hdate =>
    unfold BudgetedRequest.charge
    split
    next => simpa using hbefore
    next hpass =>
      have hfits := hglobal.window_fits _ (Bool.eq_false_iff.2 hpass)
      have hspent := hsees.spentIn_le hdated hclock
      have hcost := request.record_cost
      have hsame : s.spentIn period date = s.spentIn period request.now := by
        unfold UsageLog.spentIn
        rw [← hdate, hsees.window]
      rw [hsame]
      -- rounding does not take the new total below what is charged
      have hdecimals : IsMultiple 8 (sumUsageCost s.records (period.startOf request.now) request.now
          (normalizeProvider (some request.record.resolvedProvider)) + request.record.costOf) :=
        (isMultiple_roundTo 8 _).add request.record_decimals
      have hround := hdecimals.le_roundTo (add_le_add_right hcost _)
      unfold roundUsd at hfits
      linarith
  next => simpa using hbefore

end Steps

/-- The limit holds for all providers together in a run whose checks see all that was spent. -/
theorem global_limit_respected {settings : BudgetLimitSettings} {period : BudgetPeriod} {limit : ℚ}
    (hglobal : GlobalLimit settings period limit) {clock : Int} {requests : List BudgetedRequest}
    {log : UsageLog}
    (hrun : Run (fun s request t => Handles settings s request t ∧ SeesSpending period s request)
      ⟨[], clock⟩ requests log) (date : Int) :
    log.spentIn period date ≤ limit := by
  have hinv : log.Dated ∧ ∀ date, log.spentIn period date ≤ limit := by
    apply hrun.invariant
    · refine ⟨⟨fun _ h => absurd h List.not_mem_nil, fun _ h => absurd h List.not_mem_nil⟩, ?_⟩
      intro date
      exact normalizeUsd_nonneg hglobal.limit
    · rintro s request t ⟨hhandles, hsees⟩ ⟨hdated, hwithin⟩
      exact ⟨hhandles.dated hdated, hhandles.within hglobal hdated hsees hwithin⟩
  exact hinv.2 date

section Examples

/-- Ten dollars a day for all providers. -/
def tenPerDay : BudgetLimitSettings where
  mode := some .block
  dailyUsd := some 10

theorem tenPerDay_global : GlobalLimit tenPerDay .day 10 where
  mode := rfl
  limit := by decide
  providerMode := nofun
  providerLimit := nofun

def usageOf (provider : String) (timestamp : Int) : UsageRecord where
  requestId := "chatcmpl-1"
  timestamp
  routingMode := .router
  resolvedProvider := provider
  resolvedModel := "auto"
  endpoint := some "/v1/chat/completions"
  clientOrigin := none
  agentRunId := none
  cost := some ⟨6⟩
  costUsd := some 6
  status := .success

theorem usageOf_costOf (provider : String) (timestamp : Int) :
    (usageOf provider timestamp).costOf = 6 := by
  show (normalizeUsd (some 6)).getD 0 = 6
  decide

/-- A request that is estimated at six dollars and costs as much. -/
def sixDollars (provider : String) (timestamp now : Int) (h : timestamp ≤ now) :
    BudgetedRequest where
  estimatedRequestUsd := some 6
  now
  record := usageOf provider timestamp
  record_before := h
  record_decimals := by
    rw [usageOf_costOf]
    exact ⟨600000000, by norm_num⟩
  record_cost := by
    rw [usageOf_costOf]
    decide

def nothingSpent : UsageLog := ⟨[], 0⟩

def afterOpenai :
    UsageLog := nothingSpent.handle tenPerDay (sixDollars "openai" 1000 2000 (by decide))

/-- The second request of the provider is stopped, and another one spends on the next day. -/
def twoDays : List BudgetedRequest :=
  [sixDollars "openai" 1000 2000 (by decide), sixDollars "openai" 3000 4000 (by decide),
    sixDollars "anthropic" 86401000 86402000 (by decide)]

theorem global_limit_respected_example : ∃ log,
    Run (Handles tenPerDay) nothingSpent twoDays log ∧ log.records.map UsageRecord.costOf = [6, 0, 6] ∧
      ∀ date, log.spentIn .day date ≤ 10 := by
  have hrun : Run (fun s request t => Handles tenPerDay s request t ∧ SeesSpending .day s request) nothingSpent
      twoDays _ :=
    .cons ⟨⟨by decide, rfl⟩, by decide +kernel, by decide⟩ (.cons ⟨⟨by decide, rfl⟩, by decide +kernel, by decide⟩
      (.single ⟨⟨by decide, rfl⟩, by decide +kernel, by decide⟩))
  exact ⟨_, hrun.imp fun _ _ _ h => h.1, by decide +kernel, global_limit_respected tenPerDay_global hrun⟩

/-- Two providers spend six dollars each: the check of the second sums up its own records only. -/
theorem two_providers_exceed : ∃ (requests : List BudgetedRequest) (log : UsageLog),
    GlobalLimit tenPerDay .day 10 ∧ Run (Handles tenPerDay) nothingSpent requests log ∧
      10 < log.spentIn .day 0 := by
  refine ⟨[sixDollars "openai" 1000 2000 (by decide), sixDollars "anthropic" 3000 4000 (by decide)],
    afterOpenai.handle tenPerDay (sixDollars "anthropic" 3000 4000 (by decide)), tenPerDay_global,
    .cons ⟨by decide, rfl⟩ <| .cons ⟨by decide, rfl⟩ <| .nil _, ?_⟩
  decide +kernel

end Examples

end PieLab.Server

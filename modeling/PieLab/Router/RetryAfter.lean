import Mathlib.Order.Bounds.Basic
import PieLab.Router.Explanation

/-
  The retry time of a locked provider

  When every connection of a provider is locked for a model, the answer names the
  time to try again: the first, in the order of their texts, of the times at which
  an earliest lock of a connection ends. A connection is locked by the lock of the
  model, or by the lock for all models when it has none; its earliest lock may be
  that of another model.

  What is proved:
    1. `isLeast_earliestLock` — what `getEarliestModelLockUntil` finds is the earliest
       lock that is not past, of any model.
    2. `retryAfter_honest_iff` — the retry time is honest exactly when the earliest
       lock that blocks the model is the first of these.
    3. `retryAfter_too_early` — a connection with a shorter lock for another model.
-/

namespace PieLab

open Lib

/-! ## The locks of a connection -/

/-- The times of the locks that are not past. -/
def runningLocks (env : RouterEnv) (dateNow : TimeValue)
    (connection : ProviderConnectionReference) : List Int :=
  (remainingLocks env dateNow connection).filterMap fun time => time

/-- When the lock that blocks the model ends. -/
def blockingLock (env : RouterEnv) (connection : ProviderConnectionReference)
    (model : Option String) : Option Int :=
  match lockExpiry connection model with
  | some (.string expiry) => env.dates.parse expiry
  | _ => none

variable {env : RouterEnv} {dateNow : TimeValue} {connection : ProviderConnectionReference}
variable {t : Int} {options : SelectProviderConnectionOptions}

theorem isModelLockActive_iff {model : Option String} :
    isModelLockActive env dateNow connection model = true ↔
      ∃ t, blockingLock env connection model = some t ∧ dateNow.val < t := by
  have hany : isModelLockActive env dateNow connection model =
      (blockingLock env connection model).any fun t => dateNow.val < t := by
    unfold isModelLockActive blockingLock
    cases lockExpiry connection model with
    | none => rfl
    | some value => cases value <;> rfl
  rw [hany]
  simp [Option.any_eq_true]

theorem mem_runningLocks :
    t ∈ runningLocks env dateNow connection ↔
      dateNow.val < t ∧ ∃ text ∈ lockTexts connection, env.dates.parse text = some t := by
  unfold runningLocks remainingLocks
  simp only [List.mem_filterMap, List.mem_filter, List.mem_map]
  constructor
  · rintro ⟨time, ⟨⟨text, htext, rfl⟩, hpast⟩, htime⟩
    rw [htime] at hpast
    exact ⟨by simpa using hpast, text, htext, htime⟩
  · rintro ⟨hlt, text, htext, htime⟩
    refine ⟨_, ⟨⟨text, htext, rfl⟩, ?_⟩, htime⟩
    rw [htime]
    simpa using hlt

theorem runningLocks_isTimeValue (h : t ∈ runningLocks env dateNow connection) : IsTimeValue t := by
  obtain ⟨_, text, _, hparse⟩ := mem_runningLocks.1 h
  exact env.dates.parse_isTimeValue text t hparse

theorem isModelLockKey_append (s : String) : isModelLockKey (modelLockPrefix ++ s) = true := by
  unfold isModelLockKey
  rw [String.toList_append, List.isPrefixOf_iff_prefix]
  exact List.prefix_append _ _

theorem isModelLockKey_getModelLockKey (model : Option String) :
    isModelLockKey (getModelLockKey model) = true := by
  unfold getModelLockKey
  split
  · exact isModelLockKey_append _
  · exact isModelLockKey_append _
  · exact isModelLockKey_append _

theorem mem_lockTexts {key text : String} (hkey : isModelLockKey key = true)
    (h : connection.properties.lookup key = some (.string text)) : text ∈ lockTexts connection := by
  unfold lockTexts
  rw [List.mem_filterMap]
  obtain ⟨front, back, hsplit⟩ := List.lookup_eq_some_iff.1 h
  refine ⟨(key, .string text), ?_, by simp [hkey]⟩
  rw [hsplit.1]
  simp

theorem blockingLock_mem {model : Option String} (h : blockingLock env connection model = some t)
    (hlt : dateNow.val < t) : t ∈ runningLocks env dateNow connection := by
  unfold blockingLock at h
  split at h
  · rename_i expiry hexpiry
    refine mem_runningLocks.2 ⟨hlt, expiry, ?_, h⟩
    unfold lockExpiry Json.orElse at hexpiry
    split at hexpiry
    · exact mem_lockTexts (isModelLockKey_append _) hexpiry
    · exact mem_lockTexts (isModelLockKey_append _) hexpiry
    · exact mem_lockTexts (isModelLockKey_getModelLockKey model) (by rw [← hexpiry]; assumption)
  · cases h

theorem foldl_min_isLeast (e : Int) (times : List Int) :
    IsLeast { t | t ∈ e :: times } (times.foldl min e) := by
  induction times generalizing e with
  | nil =>
    constructor
    · exact List.mem_cons_self
    · intro t ht
      exact le_of_eq (List.mem_singleton.1 ht).symm
  | cons t rest ih =>
    obtain ⟨hmem, hleast⟩ := ih (min e t)
    constructor
    · rcases List.mem_cons.1 hmem with h | h
      · show (rest.foldl min (min e t)) ∈ e :: t :: rest
        rw [h]
        rcases min_choice e t with h | h <;> simp [h]
      · exact List.mem_cons_of_mem _ (List.mem_cons_of_mem _ h)
    · intro u hu
      have hmin := hleast (show min e t ∈ min e t :: rest from List.mem_cons_self)
      rcases List.mem_cons.1 hu with rfl | hu
      · exact le_trans hmin (min_le_left _ _)
      · rcases List.mem_cons.1 hu with rfl | hu
        · exact le_trans hmin (min_le_right _ _)
        · exact hleast (List.mem_cons_of_mem _ hu)

/-- What the loop finds is the earliest lock that is not past, of any model. -/
theorem isLeast_earliestLock {e : Int} (h : earliestLock env dateNow connection = some e) :
    IsLeast { t | t ∈ runningLocks env dateNow connection } e := by
  unfold earliestLock at h
  split at h
  · rename_i first rest hlocks
    cases h
    unfold runningLocks
    rw [hlocks]
    exact foldl_min_isLeast first _
  · cases h

theorem earliestLock_isSome (hread : LocksReadable env dateNow connection)
    (ht : t ∈ runningLocks env dateNow connection) :
    ∃ e, earliestLock env dateNow connection = some e := by
  unfold LocksReadable at hread
  unfold runningLocks at ht
  unfold earliestLock
  cases hlocks : remainingLocks env dateNow connection with
  | nil =>
    rw [hlocks] at ht
    cases ht
  | cons first rest =>
    cases first with
    | none =>
      rw [hlocks] at hread
      exact absurd rfl hread
    | some e => exact ⟨_, rfl⟩

/-! ## The answer -/

theorem firstExpiry_eq {untils : List (Option String)} {retryAfter : String}
    (h : firstExpiry untils = some retryAfter) :
    some retryAfter ∈ untils ∧ ∀ s, some s ∈ untils → s ≠ "" → retryAfter ≤ s := by
  unfold firstExpiry at h
  have hmem : ∀ s, s ∈ (untils.filterMap id).filter (· ≠ "") ↔ some s ∈ untils ∧ s ≠ "" := by
    intro s
    simp [List.mem_filter, List.mem_filterMap]
  obtain ⟨rest, hsort⟩ := List.head?_eq_some_iff.1 h
  constructor
  · have hin : retryAfter ∈ ((untils.filterMap id).filter (· ≠ "")).mergeSort fun s t => s ≤ t := by
      rw [hsort]
      exact List.mem_cons_self
    exact ((hmem retryAfter).1 (List.mem_mergeSort.1 hin)).1
  · intro s hs hne
    have hin : s ∈ ((untils.filterMap id).filter (· ≠ "")).mergeSort fun s t => s ≤ t :=
      List.mem_mergeSort.2 ((hmem s).2 ⟨hs, hne⟩)
    have hpair := @List.pairwise_mergeSort String (fun s t => decide (s ≤ t))
      (by simpa using fun a b c => le_trans) (by simpa using fun a b => le_total a b)
      ((untils.filterMap id).filter (· ≠ ""))
    rw [hsort] at hin hpair
    rcases List.mem_cons.1 hin with rfl | hin
    · exact le_refl _
    · simpa using (List.pairwise_cons.1 hpair).1 s hin

theorem unavailable_cases {retryAfter human : String} {lastError lastErrorCode : Option Json}
    (h : selectProviderConnection env dateNow options =
      .ok (.unavailable retryAfter human lastError lastErrorCode)) :
    unlockedConnections env dateNow options = [] ∧
      (∀ c ∈ lockedConnections env dateNow options, LocksReadable env dateNow c) ∧
      firstExpiry ((lockedConnections env dateNow options).map fun c =>
        (earliestLock env dateNow c).map isoText) = some retryAfter := by
  unfold selectProviderConnection at h
  by_cases hprovider : providerConnections options = []
  · rw [if_pos hprovider] at h
    cases h
  · rw [if_neg hprovider] at h
    by_cases hunlocked : unlockedConnections env dateNow options = []
    · rw [if_pos hunlocked] at h
      refine ⟨hunlocked, ?_⟩
      obtain ⟨untils, huntils, hresult⟩ := Lib.Except.map_ok h
      have hall := Except.mapM_ok (P := LocksReadable env dateNow)
        (g := fun c => (earliestLock env dateNow c).map isoText)
        (fun c until_ hc => by
          have hread := readable_of_getEarliest_ok hc
          rw [getEarliestModelLockUntil_ok hread] at hc
          exact ⟨hread, (Except.ok.inj hc).symm⟩) huntils
      refine ⟨hall.1, ?_⟩
      rw [hall.2] at hresult
      unfold unavailableResult at hresult
      split at hresult
      · cases hresult
      · rename_i first hfirst
        cases hresult
        exact hfirst
    · -- the filters keep a connection or not: the answer is another one
      rw [if_neg hunlocked] at h
      by_cases havailable : availableConnections env dateNow options = []
      · simp only [if_pos havailable] at h
        cases h
      · obtain ⟨connection, updates, _, hselect⟩ := selectProviderConnection_selected havailable
        unfold selectProviderConnection at hselect
        rw [if_neg hprovider, if_neg hunlocked] at hselect
        rw [hselect] at h
        cases h

/-! ## Honest retry times -/

/-- No connection may be chosen before the retry time, and one may from then on. -/
structure HonestRetry (env : RouterEnv) (options : SelectProviderConnectionOptions)
    (retryAfter : Int) : Prop where
  before : ∀ s : TimeValue, s.val < retryAfter → ∀ c, c ∉ availableConnections env s options
  after : ∀ s : TimeValue, retryAfter ≤ s.val → ∃ c, c ∈ availableConnections env s options

/-- Among the texts of the earliest locks of the connections, that of any model, the
first is the one of the earliest lock that blocks the model. -/
def BlockingLockFirst (env : RouterEnv) (dateNow : TimeValue)
    (options : SelectProviderConnectionOptions) : Prop :=
  ∃ b, IsLeast { t | ∃ c ∈ providerConnections options,
      blockingLock env c options.model = some t } b ∧
    (∃ c ∈ providerConnections options, IsLeast { t | t ∈ runningLocks env dateNow c } b) ∧
    ∀ c ∈ providerConnections options, ∀ e,
      IsLeast { t | t ∈ runningLocks env dateNow c } e → isoText b ≤ isoText e

theorem mem_available_off {s : TimeValue} (hexclude : options.excludeConnectionIds = none)
    (hquota : selectionQuotaStrategy options = .off) {c : ProviderConnectionReference} :
    c ∈ availableConnections env s options ↔
      c ∈ providerConnections options ∧ isModelLockActive env s c options.model = false := by
  unfold availableConnections unlockedConnections
  rw [applyQuotaSelectionFilter_eq]
  simp [keepsQuota, hquota, hexclude, normalizeConnectionIdSet, List.mem_filter]

theorem honestRetry_iff (hexclude : options.excludeConnectionIds = none)
    (hquota : selectionQuotaStrategy options = .off)
    (hlocked : ∀ c ∈ providerConnections options, ∃ t,
      blockingLock env c options.model = some t ∧ dateNow.val < t) {r : Int} (hr : IsTimeValue r)
    (hnow : dateNow.val < r) :
    HonestRetry env options r ↔
      IsLeast { t | ∃ c ∈ providerConnections options,
        blockingLock env c options.model = some t } r := by
  have hactive : ∀ (s : TimeValue) c t, blockingLock env c options.model = some t →
      (isModelLockActive env s c options.model = false ↔ t ≤ s.val) := by
    intro s c t ht
    rw [← Bool.not_eq_true, isModelLockActive_iff, ht]
    simp
  constructor
  · intro h
    have hlower : ∀ t, (∃ c ∈ providerConnections options,
        blockingLock env c options.model = some t) → r ≤ t := by
      rintro t ⟨c, hc, ht⟩
      -- one millisecond before the retry time the connection is still locked
      have hvalid : IsTimeValue (r - 1) := by
        have hlow := dateNow.2.1
        have hhigh := hr.2
        constructor <;> omega
      by_contra hlt
      apply h.before ⟨r - 1, hvalid⟩ (by show r - 1 < r; omega) c
      rw [mem_available_off hexclude hquota]
      refine ⟨hc, (hactive _ c t ht).2 ?_⟩
      show t ≤ r - 1
      omega
    obtain ⟨c, hc⟩ := h.after ⟨r, hr⟩ (le_refl r)
    rw [mem_available_off hexclude hquota] at hc
    obtain ⟨t, ht, _⟩ := hlocked c hc.1
    have htr : t ≤ r := (hactive ⟨r, hr⟩ c t ht).1 hc.2
    have hrt := hlower t ⟨c, hc.1, ht⟩
    have heq : t = r := le_antisymm htr hrt
    rw [heq] at ht
    exact ⟨⟨c, hc.1, ht⟩, hlower⟩
  · rintro ⟨⟨c, hc, hct⟩, hlower⟩
    refine ⟨?_, ?_⟩
    · intro s hs c' hc'
      rw [mem_available_off hexclude hquota] at hc'
      obtain ⟨t, ht, _⟩ := hlocked c' hc'.1
      have hle := (hactive s c' t ht).1 hc'.2
      have hrt : r ≤ t := hlower ⟨c', hc'.1, ht⟩
      omega
    · intro s hs
      refine ⟨c, ?_⟩
      rw [mem_available_off hexclude hquota]
      exact ⟨hc, (hactive s c r hct).2 hs⟩

/-- The retry time is honest exactly when the earliest lock that blocks the model is the
first, by its text, of the earliest locks of the connections. -/
theorem retryAfter_honest_iff (env : RouterEnv) (dateNow : TimeValue)
    (options : SelectProviderConnectionOptions) (hexclude : options.excludeConnectionIds = none)
    (hquota : selectionQuotaStrategy options = .off) {retryAfter human : String}
    {lastError lastErrorCode : Option Json}
    (h : selectProviderConnection env dateNow options =
      .ok (.unavailable retryAfter human lastError lastErrorCode)) :
    (∃ r, IsTimeValue r ∧ retryAfter = isoText r ∧ HonestRetry env options r) ↔
      BlockingLockFirst env dateNow options := by
  obtain ⟨hunlocked, hread, hfirst⟩ := unavailable_cases h
  -- nothing is excluded, so every connection is locked
  have hactive : ∀ c ∈ providerConnections options,
      isModelLockActive env dateNow c options.model = true := by
    intro c hc
    unfold unlockedConnections at hunlocked
    rw [List.filter_eq_nil_iff] at hunlocked
    have hnot := hunlocked c hc
    simpa [hexclude, normalizeConnectionIdSet] using hnot
  have hmem : ∀ c, c ∈ lockedConnections env dateNow options ↔ c ∈ providerConnections options := by
    intro c
    exact ⟨fun hc => (List.mem_filter.1 hc).1, fun hc => List.mem_filter.2 ⟨hc, hactive c hc⟩⟩
  have hlocked : ∀ c ∈ providerConnections options, ∃ t,
      blockingLock env c options.model = some t ∧ dateNow.val < t :=
    fun c hc => isModelLockActive_iff.1 (hactive c hc)
  have hearliest : ∀ c ∈ providerConnections options, ∃ e,
      earliestLock env dateNow c = some e ∧
        IsLeast { t | t ∈ runningLocks env dateNow c } e := by
    intro c hc
    obtain ⟨t, ht, hlt⟩ := hlocked c hc
    obtain ⟨e, he⟩ := earliestLock_isSome (hread c ((hmem c).2 hc)) (blockingLock_mem ht hlt)
    exact ⟨e, he, isLeast_earliestLock he⟩
  -- the retry time is the earliest lock of one of the connections
  obtain ⟨hin, hleast⟩ := firstExpiry_eq hfirst
  obtain ⟨c₀, hc₀, hretry⟩ := List.mem_map.1 hin
  have hc₀ := (hmem c₀).1 hc₀
  obtain ⟨e₀, he₀, hleast₀⟩ := hearliest c₀ hc₀
  rw [he₀] at hretry
  have hretry : retryAfter = isoText e₀ := (Option.some.inj hretry).symm
  have hvalid₀ : IsTimeValue e₀ := runningLocks_isTimeValue hleast₀.1
  have hnow₀ : dateNow.val < e₀ := (mem_runningLocks.1 hleast₀.1).1
  have htexts : ∀ c ∈ providerConnections options, ∀ e,
      IsLeast { t | t ∈ runningLocks env dateNow c } e → isoText e₀ ≤ isoText e := by
    intro c hc e he
    obtain ⟨e', he', hleast'⟩ := hearliest c hc
    have heq : e' = e := hleast'.unique he
    rw [← hretry]
    apply hleast
    · exact List.mem_map.2 ⟨c, (hmem c).2 hc, by rw [he', heq]; rfl⟩
    · exact isoText_ne_empty e
  constructor
  · rintro ⟨r, hr, htext, honest⟩
    rw [hretry] at htext
    have heq : e₀ = r := env.dates.isoText_injective hvalid₀ hr htext
    rw [← heq] at honest
    exact ⟨e₀, (honestRetry_iff hexclude hquota hlocked hvalid₀ hnow₀).1 honest,
      ⟨c₀, hc₀, hleast₀⟩, htexts⟩
  · rintro ⟨b, hb, ⟨c, hc, hbc⟩, htexts'⟩
    have hvalid : IsTimeValue b := runningLocks_isTimeValue hbc.1
    have heq : e₀ = b := env.dates.isoText_injective hvalid₀ hvalid
      (le_antisymm (htexts c hc b hbc) (htexts' c₀ hc₀ e₀ hleast₀))
    rw [← heq] at hb
    exact ⟨e₀, hvalid₀, hretry, (honestRetry_iff hexclude hquota hlocked hvalid₀ hnow₀).2 hb⟩

/-! ## Examples -/

theorem selectProviderConnection_locked {c : ProviderConnectionReference}
    (hprovider : providerConnections options = [c])
    (hactive : isModelLockActive env dateNow c options.model = true)
    (hread : LocksReadable env dateNow c) {e : Int} (he : earliestLock env dateNow c = some e) :
    selectProviderConnection env dateNow options = .ok (.unavailable (isoText e)
      (formatRetryAfter env dateNow (isoText e)) c.lastError c.errorCode) := by
  have hunlocked : unlockedConnections env dateNow options = [] := by
    unfold unlockedConnections
    rw [hprovider]
    simp [hactive]
  have hlocked : lockedConnections env dateNow options = [c] := by
    unfold lockedConnections
    rw [hprovider]
    simp [hactive]
  have huntil : getEarliestModelLockUntil env dateNow c = .ok (some (isoText e)) := by
    rw [getEarliestModelLockUntil_ok hread, he]
    rfl
  have hfirst : firstExpiry [some (isoText e)] = some (isoText e) := by
    simp [firstExpiry, isoText_ne_empty]
  unfold selectProviderConnection
  rw [if_neg (by rw [hprovider]; exact List.cons_ne_nil _ _), if_pos hunlocked]
  unfold selectUnavailable
  rw [hlocked, List.mapM_cons, huntil]
  show Except.ok (unavailableResult env dateNow [c] [some (isoText e)]) = _
  unfold unavailableResult
  rw [hfirst]
  rfl

theorem providerConnections_example (c : ProviderConnectionReference)
    (hprovider : c.provider = "openai") (hactive : c.isActive = none) :
    providerConnections (exampleSelection [c]) = [c] := by
  simp [providerConnections, exampleSelection, sortProviderConnections, sortBy, hprovider, hactive]

/-- Six o'clock and noon, in milliseconds. -/
def exampleSix : TimeValue := ⟨1767247200000, by decide⟩
def exampleNoon : TimeValue := ⟨1767268800000, by decide⟩

/-- A connection locked for the model until noon. -/
def lockedUntilNoon : ProviderConnectionReference :=
  exampleConnection "a" [("modelLock_gpt-5", .string "2026-01-01T12:00:00.000Z")]

theorem retryAfter_honest_example :
    (∃ r, IsTimeValue r ∧ isoText exampleNoon.val = isoText r ∧
      HonestRetry exampleRouterEnv (exampleSelection [lockedUntilNoon]) r) ↔
      BlockingLockFirst exampleRouterEnv exampleNow (exampleSelection [lockedUntilNoon]) :=
  retryAfter_honest_iff exampleRouterEnv exampleNow (exampleSelection [lockedUntilNoon]) rfl
    (by decide) (selectProviderConnection_locked (providerConnections_example _ rfl rfl)
      (by decide) (by decide) (by decide))

/-- A connection locked for the model until noon and for another one until six. -/
def lockedForTwo : ProviderConnectionReference :=
  exampleConnection "a" [("modelLock_gpt-5", .string "2026-01-01T12:00:00.000Z"),
    ("modelLock_o3", .string "2026-01-01T06:00:00.000Z")]

/-- The retry time is that of the other model. -/
theorem retryAfter_too_early :
    (∃ human, selectProviderConnection exampleRouterEnv exampleNow
      (exampleSelection [lockedForTwo]) =
        .ok (.unavailable "2026-01-01T06:00:00.000Z" human none none)) ∧
    ¬ ∃ r, IsTimeValue r ∧ "2026-01-01T06:00:00.000Z" = isoText r ∧
      HonestRetry exampleRouterEnv (exampleSelection [lockedForTwo]) r := by
  have htext : isoText exampleSix.val = "2026-01-01T06:00:00.000Z" := by decide
  rw [← htext]
  constructor
  · exact ⟨_, selectProviderConnection_locked (providerConnections_example _ rfl rfl)
      (by decide) (by decide) (by decide)⟩
  · rintro ⟨r, hr, heq, honest⟩
    have heq := isoDates.isoText_injective exampleSix.2 hr heq
    -- at six the connection is still locked for the model
    obtain ⟨c, hc⟩ := honest.after exampleSix (le_of_eq heq.symm)
    rw [mem_available_off rfl (by decide), providerConnections_example _ rfl rfl,
      List.mem_singleton] at hc
    obtain ⟨rfl, hc⟩ := hc
    exact absurd hc (by decide)

end PieLab

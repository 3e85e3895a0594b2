import Mathlib.Data.Rat.Floor
import PieLab.Router.RetryAfter

/-
  The locks of a connection together

  A connection is locked for a model by the lock of the model or by the lock for
  all models. The check reads the lock of the model and falls back to the other
  one where the model has none, not where its lock has run out. So a lock that has
  run out hides the lock for all models.

  What is proved:
    1. `lockExpiry_assign` — which lock decides after another one is added.
    2. `model_locks_combine_iff` — the check is the union of both locks except where
       the lock of the model is set and has run out; and an added lock keeps a
       locked model locked at every later time, except where it replaces or hides
       the lock that still runs then.

  Correspondence (TypeScript ↔ Lean), packages/router/src/index.ts:
    `buildModelLockUpdate`         ↔ the same name
    `{ ...connection, ...update }` ↔ `withProperties`
-/

namespace PieLab

open Lib

/-! ## Setting locks -/

/-- The instant of `new Date(value)`: the fraction is dropped. -/
def timeClip (value : ℚ) : Except String TimeValue :=
  let t := if 0 ≤ value then ⌊value⌋ else ⌈value⌉
  if h : IsTimeValue t then .ok ⟨t, h⟩ else .error "Invalid time value"

/-- The end of a lock that is added now. -/
def lockUntil (dateNow : TimeValue) (cooldownMs : ℚ) : Except String TimeValue :=
  timeClip (dateNow.val + cooldownMs)

def buildModelLockUpdate (dateNow : TimeValue) (model : Option String) (cooldownMs : ℚ) :
    Except String (String × Json) := do
  let expiry ← lockUntil dateNow cooldownMs
  return (getModelLockKey model, .string (isoText expiry.val))

/-- The connection with these properties set. -/
def ProviderConnectionReference.withProperties (connection : ProviderConnectionReference)
    (update : List (String × Json)) : ProviderConnectionReference :=
  { connection with
    properties := update.foldl (fun properties property =>
      OrderedMap.setEntries property.1 property.2 properties) connection.properties }

/-! ## What decides -/

/-- A lock that expires in the future. -/
def lockRuns (env : RouterEnv) (dateNow : TimeValue) (lock : Option Json) : Bool :=
  match lock with
  | some (.string expiry) => (env.dates.parse expiry).any fun t => dateNow.val < t
  | _ => false

/-- `connection[key]` of the lock for this model, and of the lock for all models. -/
def ownLock (connection : ProviderConnectionReference) (model : Option String) : Option Json :=
  connection.properties.lookup (getModelLockKey model)

def globalLock (connection : ProviderConnectionReference) : Option Json :=
  connection.properties.lookup modelLockAll

/-- The property is neither missing nor `null`. -/
def lockIsSet (lock : Option Json) : Bool :=
  match lock with
  | none | some .null => false
  | some _ => true

/-- The lock of the model is set but does not run, and the lock for all models runs. -/
def LockHidden (env : RouterEnv) (dateNow : TimeValue) (connection : ProviderConnectionReference)
    (model : Option String) : Prop :=
  lockIsSet (ownLock connection model) = true ∧ lockRuns env dateNow (ownLock connection model) = false ∧
    lockRuns env dateNow (globalLock connection) = true

/-- A lock under this key decides for the model: it is the model's own, or the one for all models
where the model has none of its own. -/
def KeyDecides (connection : ProviderConnectionReference) (model : Option String) (key : String) :
    Prop :=
  getModelLockKey model = key ∨ modelLockAll = key ∧ lockIsSet (ownLock connection model) = false

theorem orElse_eq (value other : Option Json) :
    Json.orElse value other = if lockIsSet value = true then value else other := by
  cases value with
  | none => rfl
  | some value => cases value <;> rfl

theorem lockExpiry_eq (connection : ProviderConnectionReference) (model : Option String) :
    lockExpiry connection model =
      if lockIsSet (ownLock connection model) = true then ownLock connection model
      else globalLock connection :=
  orElse_eq _ _

theorem isModelLockActive_eq (env : RouterEnv) (dateNow : TimeValue)
    (connection : ProviderConnectionReference) (model : Option String) :
    isModelLockActive env dateNow connection model = lockRuns env dateNow (lockExpiry connection model) := by
  unfold isModelLockActive lockRuns
  rfl

theorem lockRuns_isSet {env : RouterEnv} {dateNow : TimeValue} {lock : Option Json}
    (h : lockRuns env dateNow lock = true) : lockIsSet lock = true := by
  cases lock with
  | none => cases h
  | some value => cases value <;> first | rfl | cases h

theorem isModelLockActive_union_iff (env : RouterEnv) (dateNow : TimeValue)
    (connection : ProviderConnectionReference) (model : Option String) :
    (isModelLockActive env dateNow connection model = true ↔
      lockRuns env dateNow (ownLock connection model) = true ∨
        lockRuns env dateNow (globalLock connection) = true) ↔
      ¬ LockHidden env dateNow connection model := by
  rw [isModelLockActive_eq, lockExpiry_eq]
  unfold LockHidden
  by_cases hset : lockIsSet (ownLock connection model) = true
  · rw [if_pos hset]
    cases lockRuns env dateNow (ownLock connection model) <;>
      cases lockRuns env dateNow (globalLock connection) <;> simp [hset]
  · have hnot : lockRuns env dateNow (ownLock connection model) ≠ true :=
      fun h => hset (lockRuns_isSet h)
    rw [if_neg hset]
    simp [hset, hnot]

/-! ## An added lock -/

theorem lockRuns_isoText (env : RouterEnv) (dateNow expiry : TimeValue) :
    lockRuns env dateNow (some (.string (isoText expiry.val))) = decide (dateNow.val < expiry.val) := by
  unfold lockRuns
  simp only [env.dates.parse_isoText expiry.val expiry.2, Option.any_some]

theorem lookup_withProperties (connection : ProviderConnectionReference) (key name : String)
    (value : Json) :
    (connection.withProperties [(key, value)]).properties.lookup name =
      if key = name then some value else connection.properties.lookup name :=
  OrderedMap.lookup_setEntries _ _ _ _

/-- The added lock decides where its key does; nothing changes elsewhere. -/
theorem lockExpiry_assign (connection : ProviderConnectionReference) (model : Option String)
    (key : String)
    (expiry : String) :
    (KeyDecides connection model key →
      lockExpiry (connection.withProperties [(key, .string expiry)]) model = some (.string expiry)) ∧
    (¬ KeyDecides connection model key →
      lockExpiry (connection.withProperties [(key, .string expiry)]) model = lockExpiry connection model) := by
  have hown : ownLock (connection.withProperties [(key, .string expiry)]) model =
      if key = getModelLockKey model then some (.string expiry) else ownLock connection model :=
    lookup_withProperties _ _ _ _
  have hglobal : globalLock (connection.withProperties [(key, .string expiry)]) =
      if key = modelLockAll then some (.string expiry) else globalLock connection :=
    lookup_withProperties _ _ _ _
  rw [lockExpiry_eq, lockExpiry_eq, hown, hglobal]
  constructor
  · rintro (rfl | ⟨rfl, hunset⟩)
    · simp [lockIsSet]
    · by_cases hkey : modelLockAll = getModelLockKey model
      · simp [hkey, lockIsSet]
      · simp [hkey, hunset]
  · intro hnot
    have hkey : key ≠ getModelLockKey model := fun h => hnot (.inl h.symm)
    rw [if_neg hkey]
    by_cases hset : lockIsSet (ownLock connection model) = true
    · rw [if_pos hset, if_pos hset]
    · have hall : key ≠ modelLockAll := fun h => hnot (.inr ⟨h.symm, by simpa using hset⟩)
      rw [if_neg hset, if_neg hset, if_neg hall]

theorem stays_locked_iff {env : RouterEnv} {dateNow until_ : TimeValue}
    {lockedModel : Option String}
    {cooldownMs : ℚ} (huntil : lockUntil dateNow cooldownMs = .ok until_) {update : String × Json}
    (hupdate : buildModelLockUpdate dateNow lockedModel cooldownMs = .ok update)
    (connection : ProviderConnectionReference) (model : Option String) (later : TimeValue) :
    (isModelLockActive env later connection model = true →
      isModelLockActive env later (connection.withProperties [update]) model = true) ↔
      ¬ (until_.val ≤ later.val ∧ KeyDecides connection model (getModelLockKey lockedModel) ∧
        lockRuns env later (lockExpiry connection model) = true) := by
  unfold buildModelLockUpdate at hupdate
  rw [huntil] at hupdate
  obtain rfl := Except.ok.inj hupdate
  obtain ⟨hdecides, hother⟩ :=
    lockExpiry_assign connection model (getModelLockKey lockedModel) (isoText until_.val)
  rw [isModelLockActive_eq, isModelLockActive_eq]
  by_cases hkey : KeyDecides connection model (getModelLockKey lockedModel)
  · rw [hdecides hkey, lockRuns_isoText]
    simp only [hkey, true_and, decide_eq_true_eq, not_and]
    constructor
    · intro hlocked hle hruns
      have hlt := hlocked hruns
      omega
    · intro hkept hruns
      by_contra hle
      exact hkept (by omega) hruns
  · rw [hother hkey]
    simp [hkey]

/-- The check is the union of the lock of the model and the lock for all models unless one hides the
other; and a lock that is added never frees a model, unless it takes the place of one that runs longer. -/
theorem model_locks_combine_iff (env : RouterEnv) (dateNow : TimeValue)
    (connection : ProviderConnectionReference) (model : Option String) :
    ((isModelLockActive env dateNow connection model = true ↔
      lockRuns env dateNow (connection.properties.lookup (getModelLockKey model)) = true ∨
        lockRuns env dateNow (connection.properties.lookup modelLockAll) = true) ↔
      ¬ LockHidden env dateNow connection model) ∧
    ∀ (lockedModel : Option String) (cooldownMs : ℚ) (until_ : TimeValue) (update : String × Json),
      lockUntil dateNow cooldownMs = .ok until_ →
      buildModelLockUpdate dateNow lockedModel cooldownMs = .ok update →
      ∀ later : TimeValue,
        ((isModelLockActive env later connection model = true →
          isModelLockActive env later (connection.withProperties [update]) model = true) ↔
          ¬ (until_.val ≤ later.val ∧ KeyDecides connection model (getModelLockKey lockedModel) ∧
            lockRuns env later (lockExpiry connection model) = true)) := by
  constructor
  · exact isModelLockActive_union_iff env dateNow connection model
  · intro lockedModel cooldownMs until_ update huntil hupdate later
    exact stays_locked_iff huntil hupdate connection model later

section Examples

/-- Locked for all models until noon; the lock of the model ran out at midnight. -/
def hiddenLock : ProviderConnectionReference :=
  exampleConnection "a" [("modelLock_gpt-5", .string "2026-01-01T00:00:00.000Z"),
    ("modelLock___all", .string "2026-01-01T12:00:00.000Z")]

theorem lockUntil_six : lockUntil exampleSix 21600000 = .ok exampleNoon := by decide +kernel

theorem buildModelLockUpdate_six :
    buildModelLockUpdate exampleSix (some "gpt-5") 21600000 =
      .ok ("modelLock_gpt-5", .string (isoText exampleNoon.val)) := by
  unfold buildModelLockUpdate
  rw [lockUntil_six]
  rfl

theorem model_locks_combine_example :
    (isModelLockActive exampleRouterEnv exampleNoon hiddenLock (some "o3") = true →
      isModelLockActive exampleRouterEnv exampleNoon
        (hiddenLock.withProperties [("modelLock_gpt-5", .string (isoText exampleNoon.val))]) (some "o3") = true) ↔
      ¬ (exampleNoon.val ≤ exampleNoon.val ∧ KeyDecides hiddenLock (some "o3") (getModelLockKey (some "gpt-5")) ∧
        lockRuns exampleRouterEnv exampleNoon (lockExpiry hiddenLock (some "o3")) = true) :=
  (model_locks_combine_iff exampleRouterEnv exampleSix hiddenLock (some "o3")).2 (some "gpt-5") 21600000
    exampleNoon ("modelLock_gpt-5", .string (isoText exampleNoon.val)) lockUntil_six buildModelLockUpdate_six
    exampleNoon

/-- At six the lock for all models runs, and the check does not see it. -/
theorem all_models_lock_hidden :
    ¬ (isModelLockActive exampleRouterEnv exampleSix hiddenLock (some "gpt-5") = true ↔
      lockRuns exampleRouterEnv exampleSix (hiddenLock.properties.lookup (getModelLockKey (some "gpt-5"))) = true ∨
        lockRuns exampleRouterEnv exampleSix (hiddenLock.properties.lookup modelLockAll) = true) := by
  intro hunion
  have hlocked := hunion.mpr (.inr (by decide))
  exact absurd hlocked (by decide)

end Examples

end PieLab

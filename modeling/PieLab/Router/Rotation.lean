import PieLab.Lib.RoundRobin
import PieLab.Router.Explanation

/-
  Sticky round robin over provider connections

  With the strategy `round-robin` the state of the rotation is on the connections:
  when each was last used and how often in a row. The most recently used one is
  used again until it has had its turns, then the one that has waited longest.

  What is proved:
    1. `Turning.select` — with the connections in the order they have waited, a
       selection is one step of the rotation `Lib.Rotation`.
    2. `roundRobin_inTurns` — a run that stores the updates of each selection goes
       through the connections in priority order, as many uses in a row as the
       limit says, over and over.

  Correspondence (TypeScript ↔ Lean): the names of packages/router/src/index.ts.
  Storing the updates is what `ModelRegistry` does with them through
  `updateProviderConnection`.
-/

namespace PieLab

open Lib

/-! ## The two orders -/

/-- When the connection was last used. -/
def lastUse (env : RouterEnv) (c : ProviderConnectionReference) : Option Int :=
  parseOptionalTime env c.lastUsedAt

theorem isComparison_oldest (env : RouterEnv) : IsComparison (sortByOldestUseThenPriority env) where
  total := by
    intro a b
    unfold sortByOldestUseThenPriority
    cases parseOptionalTime env a.lastUsedAt with
    | none =>
      cases parseOptionalTime env b.lastUsedAt with
      | none => exact (isComparison_sub priorityValue).total a b
      | some t => exact .inl (by norm_num)
    | some s =>
      cases parseOptionalTime env b.lastUsedAt with
      | none => exact .inr (by norm_num)
      | some t =>
        rcases le_total s t with h | h
        · exact .inl (by simpa using h)
        · exact .inr (by simpa using h)
  trans := by
    intro a b c
    unfold sortByOldestUseThenPriority
    cases parseOptionalTime env a.lastUsedAt with
    | none =>
      cases parseOptionalTime env c.lastUsedAt with
      | some u => intro _ _; norm_num
      | none =>
        cases parseOptionalTime env b.lastUsedAt with
        | none => exact (isComparison_sub priorityValue).trans a b c
        | some t => intro _ h; norm_num at h
    | some s =>
      cases parseOptionalTime env b.lastUsedAt with
      | none => intro h; norm_num at h
      | some t =>
        cases parseOptionalTime env c.lastUsedAt with
        | none => intro _ h; norm_num at h
        | some u =>
          intro hst htu
          have hst : s ≤ t := by simpa using hst
          have htu : t ≤ u := by simpa using htu
          simpa using le_trans hst htu

theorem isComparison_recent (env : RouterEnv) :
    IsComparison (sortByMostRecentUseThenPriority env) where
  total := by
    intro a b
    unfold sortByMostRecentUseThenPriority
    cases parseOptionalTime env a.lastUsedAt with
    | none =>
      cases parseOptionalTime env b.lastUsedAt with
      | none => exact (isComparison_sub priorityValue).total a b
      | some t => exact .inr (by norm_num)
    | some s =>
      cases parseOptionalTime env b.lastUsedAt with
      | none => exact .inl (by norm_num)
      | some t =>
        rcases le_total t s with h | h
        · exact .inl (by simpa using h)
        · exact .inr (by simpa using h)
  trans := by
    intro a b c
    unfold sortByMostRecentUseThenPriority
    cases parseOptionalTime env c.lastUsedAt with
    | none =>
      cases parseOptionalTime env a.lastUsedAt with
      | some s => intro _ _; norm_num
      | none =>
        cases parseOptionalTime env b.lastUsedAt with
        | none => exact (isComparison_sub priorityValue).trans a b c
        | some t => intro h; norm_num at h
    | some u =>
      cases parseOptionalTime env b.lastUsedAt with
      | none => intro _ h; norm_num at h
      | some t =>
        cases parseOptionalTime env a.lastUsedAt with
        | none => intro h; norm_num at h
        | some s =>
          intro hst htu
          have hst : t ≤ s := by simpa using hst
          have htu : u ≤ t := by simpa using htu
          simpa using le_trans htu hst

theorem truthyText_some {text : String} (h : text ≠ "") : truthyText (some text) = true := by
  unfold truthyText
  split
  · rename_i hnone
    cases hnone
  · rename_i hempty
    exact absurd (Option.some.inj hempty) h
  · rfl

theorem lastUse_unused (env : RouterEnv) {c : ProviderConnectionReference}
    (h : truthyText c.lastUsedAt = false) : lastUse env c = none := by
  unfold lastUse
  cases hused : c.lastUsedAt with
  | none => rfl
  | some text =>
    rw [hused] at h
    by_cases htext : text = ""
    · rw [htext]
      rfl
    · rw [truthyText_some htext] at h
      cases h

/-! ## Runs -/

/-- The clock during a request. -/
structure Tick where
  dateNow : TimeValue
  now : Option TimeValue

def Tick.time (tick : Tick) : Int := (tick.now.getD tick.dateNow).val

/-- `updateProviderConnection(id, updates)` on one connection. -/
def storeUse (id : String) (updates : ConnectionUseUpdates) (c : ProviderConnectionReference) :
    ProviderConnectionReference :=
  if c.id = id then
    { c with lastUsedAt := some updates.lastUsedAt
             consecutiveUseCount := some updates.consecutiveUseCount }
  else c

def storeUpdates (connections : List ProviderConnectionReference)
    (selection : ProviderConnectionSelectionResult) : List ProviderConnectionReference :=
  match selection with
  | .selected connection (some updates) => connections.map (storeUse connection.id updates)
  | _ => connections

def requestOptions (options : SelectProviderConnectionOptions) (tick : Tick)
    (connections : List ProviderConnectionReference) : SelectProviderConnectionOptions :=
  { options with connections := connections, now := tick.now }

/-- The connections selected by the requests of a run. -/
def selectionRun (env : RouterEnv) (options : SelectProviderConnectionOptions) :
    List Tick → List ProviderConnectionReference → Except String (List (Option String))
  | [], _ => .ok []
  | tick :: ticks, connections => do
    let selection ← selectProviderConnection env tick.dateNow
      (requestOptions options tick connections)
    let rest ← selectionRun env options ticks (storeUpdates connections selection)
    return selection.selectedId :: rest

/-! ## The order of waiting -/

/-- `a` has waited longer than `b`; those never used wait in the order given. -/
def Older (env : RouterEnv) (order : List String) (a b : ProviderConnectionReference) : Prop :=
  match lastUse env a, lastUse env b with
  | none, none => order.idxOf a.id < order.idxOf b.id
  | none, some _ => True
  | some _, none => False
  | some s, some t => s < t

/-- `queue` are the connections in the order they have waited; the last of it was used
`count` times in a row. -/
structure Turning (env : RouterEnv) (ranked queue : List ProviderConnectionReference)
    (count : Nat) : Prop where
  nodup : (ranked.map (·.id)).Nodup
  sorted : ranked.Pairwise fun a b => byPriority a b ≤ 0
  perm : queue.Perm ranked
  older : queue.Pairwise (Older env (ranked.map (·.id)))
  start : count = 0 → ∀ c ∈ ranked, truthyText c.lastUsedAt = false
  current : 0 < count → ∀ c, queue.getLast? = some c → c.consecutiveUseCount = some (count : ℚ) ∧
    truthyText c.lastUsedAt = true ∧ ∃ t, lastUse env c = some t

variable {front back : List ProviderConnectionReference} {x : ProviderConnectionReference}
variable {now : TimeValue}

theorem idxOf_lt_of_split {y : ProviderConnectionReference}
    (hnodup : ((front ++ x :: back).map (·.id)).Nodup) (hy : y ∈ front) :
    ((front ++ x :: back).map (·.id)).idxOf y.id < ((front ++ x :: back).map (·.id)).idxOf x.id := by
  rw [List.map_append, List.map_cons] at hnodup ⊢
  have hyfront : y.id ∈ front.map (·.id) := List.mem_map_of_mem hy
  have hxfront : x.id ∉ front.map (·.id) := by
    intro hx
    exact (List.nodup_append.1 hnodup).2.2 _ hx _ List.mem_cons_self rfl
  rw [List.idxOf_append_of_mem hyfront, List.idxOf_append_of_notMem hxfront]
  have hlt := List.idxOf_lt_length_of_mem hyfront
  omega

theorem pairwise_older_unused {env : RouterEnv} {ranked : List ProviderConnectionReference}
    (hnodup : (ranked.map (·.id)).Nodup) (hunused : ∀ c ∈ ranked, lastUse env c = none) :
    ranked.Pairwise (Older env (ranked.map (·.id))) := by
  rw [List.pairwise_iff_getElem]
  intro i j hi hj hij
  unfold Older
  rw [hunused _ (List.getElem_mem hi), hunused _ (List.getElem_mem hj)]
  have hindex : ∀ m (hm : m < ranked.length), (ranked.map (·.id)).idxOf (ranked[m]).id = m := by
    intro m hm
    have hid := hnodup.idxOf_getElem m (by simpa using hm)
    simpa using hid
  show (ranked.map (·.id)).idxOf _ < (ranked.map (·.id)).idxOf _
  rw [hindex i hi, hindex j hj]
  exact hij

theorem ne_of_split {y : ProviderConnectionReference}
    (hnodup : ((front ++ x :: back).map (·.id)).Nodup) (hy : y ∈ front ∨ y ∈ back) :
    y.id ≠ x.id := by
  intro he
  rw [List.map_append, List.map_cons] at hnodup
  rcases hy with hy | hy
  · exact (List.nodup_append.1 hnodup).2.2 _ (List.mem_map_of_mem hy) _ List.mem_cons_self he
  · have hback := (List.nodup_cons.1 (List.nodup_append.1 hnodup).2.1).1
    exact hback (he ▸ List.mem_map_of_mem hy)

section Select
variable {env : RouterEnv} {ranked queue : List ProviderConnectionReference} {count : Nat}
  (h : Turning env ranked queue count)
include h

theorem Turning.mem_iff {c : ProviderConnectionReference} : c ∈ queue ↔ c ∈ ranked := h.perm.mem_iff

theorem Turning.head_oldest {rest : List ProviderConnectionReference} (hqueue : queue = x :: rest) :
    (sortBy (sortByOldestUseThenPriority env) ranked).head? = some x := by
  obtain ⟨front, back, hsplit⟩ := List.append_of_mem (h.mem_iff.1 (hqueue ▸ List.mem_cons_self))
  have hnodup := h.nodup
  have hsorted := h.sorted
  rw [hsplit] at hnodup hsorted ⊢
  have hrest : ∀ y, y ∈ front ∨ y ∈ back →
      Older env ((front ++ x :: back).map (·.id)) x y := by
    intro y hy
    have hmem : y ∈ queue := by
      rw [h.mem_iff, hsplit]
      rcases hy with hy | hy <;> simp [hy]
    rw [hqueue] at hmem
    have holder := h.older
    rw [hqueue, hsplit] at holder
    rcases List.mem_cons.1 hmem with rfl | hmem
    · exact absurd rfl (ne_of_split hnodup hy)
    · exact (List.pairwise_cons.1 holder).1 y hmem
  apply (isComparison_oldest env).head?_sortBy
  · intro y hy
    have holder := hrest y (.inl hy)
    unfold Older lastUse at holder
    unfold sortByOldestUseThenPriority
    cases hx : parseOptionalTime env x.lastUsedAt with
    | none =>
      cases hyt : parseOptionalTime env y.lastUsedAt with
      | none =>
        -- both unused: `y` stands in front of `x`
        rw [hx, hyt] at holder
        have hlt := idxOf_lt_of_split hnodup hy
        exact absurd holder (not_lt.2 (le_of_lt hlt))
      | some t => norm_num
    | some s =>
      cases hyt : parseOptionalTime env y.lastUsedAt with
      | none =>
        rw [hx, hyt] at holder
        exact absurd holder not_false
      | some t =>
        rw [hx, hyt] at holder
        have hlt : s < t := holder
        simpa using hlt
  · intro y hy
    have holder := hrest y (.inr hy)
    unfold Older lastUse at holder
    unfold sortByOldestUseThenPriority
    cases hx : parseOptionalTime env x.lastUsedAt with
    | none =>
      cases hyt : parseOptionalTime env y.lastUsedAt with
      | none => exact (List.pairwise_cons.1 (List.pairwise_append.1 hsorted).2.1).1 y hy
      | some t => norm_num
    | some s =>
      cases hyt : parseOptionalTime env y.lastUsedAt with
      | none =>
        rw [hx, hyt] at holder
        exact absurd holder not_false
      | some t =>
        rw [hx, hyt] at holder
        have hlt : s < t := holder
        simpa using le_of_lt hlt

theorem Turning.head_recent (hlast : queue.getLast? = some x) {t : Int}
    (ht : lastUse env x = some t) :
    (sortBy (sortByMostRecentUseThenPriority env) ranked).head? = some x := by
  obtain ⟨rest, hqueue⟩ := List.getLast?_eq_some_iff.1 hlast
  have hx : x ∈ ranked := by
    rw [← h.mem_iff, hqueue]
    simp
  obtain ⟨front, back, hsplit⟩ := List.append_of_mem hx
  have hnodup := h.nodup
  rw [hsplit] at hnodup ⊢
  have hrest : ∀ y, y ∈ front ∨ y ∈ back →
      lastUse env y = none ∨ ∃ s, lastUse env y = some s ∧ s < t := by
    intro y hy
    have hmem : y ∈ queue := by
      rw [h.mem_iff, hsplit]
      rcases hy with hy | hy <;> simp [hy]
    rw [hqueue] at hmem
    have holder := h.older
    rw [hqueue] at holder
    rcases List.mem_append.1 hmem with hmem | hmem
    · have hyx := (List.pairwise_append.1 holder).2.2 y hmem x (List.mem_singleton.2 rfl)
      unfold Older at hyx
      rw [ht] at hyx
      cases hy' : lastUse env y with
      | none => exact .inl rfl
      | some s =>
        rw [hy'] at hyx
        exact .inr ⟨s, rfl, hyx⟩
    · exact absurd (congrArg _ (List.mem_singleton.1 hmem)) (ne_of_split hnodup hy)
  unfold lastUse at ht hrest
  apply (isComparison_recent env).head?_sortBy
  · intro y hy
    unfold sortByMostRecentUseThenPriority
    rcases hrest y (.inl hy) with hnone | ⟨s, hs, hlt⟩
    · rw [hnone, ht]
      norm_num
    · rw [hs, ht]
      simpa using hlt
  · intro y hy
    unfold sortByMostRecentUseThenPriority
    rcases hrest y (.inr hy) with hnone | ⟨s, hs, hlt⟩
    · rw [hnone, ht]
      norm_num
    · rw [hs, ht]
      simpa using le_of_lt hlt

theorem Turning.select_again {limit : Int} (hcount : 0 < count) (hlimit : (count : Int) < limit)
    (hlast : queue.getLast? = some x) :
    selectRoundRobin env now limit ranked = .selected x
      (some { lastUsedAt := isoText now.val, consecutiveUseCount := ((count + 1 : Nat) : ℚ) }) := by
  obtain ⟨huses, htruthy, t, ht⟩ := h.current hcount x hlast
  have hlt : (count : ℚ) < (limit : ℚ) := by exact_mod_cast hlimit
  unfold selectRoundRobin
  simp only [h.head_recent hlast ht, huses, Option.getD_some, htruthy, hlt, and_self, if_true]
  norm_num

theorem Turning.select_next {limit : Int} (hcount : ¬ (0 < count ∧ (count : Int) < limit))
    {rest : List ProviderConnectionReference} (hqueue : queue = x :: rest) :
    selectRoundRobin env now limit ranked = .selected x
      (some { lastUsedAt := isoText now.val, consecutiveUseCount := ((1 : Nat) : ℚ) }) := by
  have holdest := h.head_oldest hqueue
  have hne : ranked ≠ [] := List.ne_nil_of_mem (h.mem_iff.1 (hqueue ▸ List.mem_cons_self))
  unfold selectRoundRobin
  simp only [holdest]
  by_cases hzero : count = 0
  · obtain ⟨current, hcurrent⟩ :=
      head?_sortBy_isSome (sortByMostRecentUseThenPriority env) hne
    have hunused := h.start hzero current (mem_of_head?_sortBy hcurrent)
    simp [hcurrent, hunused]
  · obtain ⟨last, hlast⟩ : ∃ last, queue.getLast? = some last := by
      rw [hqueue]
      exact ⟨_, List.getLast?_eq_some_getLast (List.cons_ne_nil _ _)⟩
    obtain ⟨huses, _, t, ht⟩ := h.current (by omega) last hlast
    have hlt : ¬ (count : ℚ) < (limit : ℚ) := by
      intro hlt
      exact hcount ⟨by omega, by exact_mod_cast hlt⟩
    simp [h.head_recent hlast ht, huses, hlt]

end Select

/-! ## Storing the updates -/

section Store
variable (id : String) (updates : ConnectionUseUpdates) (c : ProviderConnectionReference)

@[simp] theorem storeUse_id : (storeUse id updates c).id = c.id := by
  unfold storeUse; split <;> rfl

@[simp] theorem storeUse_provider : (storeUse id updates c).provider = c.provider := by
  unfold storeUse; split <;> rfl

@[simp] theorem storeUse_isActive : (storeUse id updates c).isActive = c.isActive := by
  unfold storeUse; split <;> rfl

@[simp] theorem storeUse_priority : (storeUse id updates c).priority = c.priority := by
  unfold storeUse; split <;> rfl

@[simp] theorem storeUse_properties : (storeUse id updates c).properties = c.properties := by
  unfold storeUse; split <;> rfl

theorem storeUse_other {id : String} {c : ProviderConnectionReference} (h : c.id ≠ id) :
    storeUse id updates c = c := if_neg h

theorem storeUse_self : storeUse c.id updates c =
    { c with lastUsedAt := some updates.lastUsedAt
             consecutiveUseCount := some updates.consecutiveUseCount } := if_pos rfl

end Store

theorem isModelLockActive_storeUse (env : RouterEnv) (dateNow : TimeValue) (id : String)
    (updates : ConnectionUseUpdates) (c : ProviderConnectionReference) (model : Option String) :
    isModelLockActive env dateNow (storeUse id updates c) model =
      isModelLockActive env dateNow c model := by
  unfold isModelLockActive lockExpiry
  rw [storeUse_properties]

theorem byPriority_storeUse (id : String) (updates : ConnectionUseUpdates)
    (a b : ProviderConnectionReference) :
    byPriority (storeUse id updates a) (storeUse id updates b) = byPriority a b := by
  unfold byPriority priorityValue
  rw [storeUse_priority, storeUse_priority]

theorem map_id_storeUse (id : String) (updates : ConnectionUseUpdates)
    (l : List ProviderConnectionReference) :
    (l.map (storeUse id updates)).map (·.id) = l.map (·.id) := by
  rw [List.map_map]
  apply List.map_congr_left
  intro c _
  exact storeUse_id id updates c

theorem providerConnections_storeUse (options : SelectProviderConnectionOptions) (tick : Tick)
    (connections : List ProviderConnectionReference) (id : String)
    (updates : ConnectionUseUpdates) :
    providerConnections (requestOptions options tick (connections.map (storeUse id updates))) =
      (providerConnections (requestOptions options tick connections)).map
        (storeUse id updates) := by
  show sortBy byPriority ((connections.map (storeUse id updates)).filter
    fun c : ProviderConnectionReference =>
      decide (c.provider = options.provider) && decide (c.isActive ≠ some false)) = _
  rw [List.filter_map]
  have hfilter : ((fun c : ProviderConnectionReference =>
      decide (c.provider = options.provider) && decide (c.isActive ≠ some false)) ∘
        storeUse id updates) = fun c : ProviderConnectionReference =>
      decide (c.provider = options.provider) && decide (c.isActive ≠ some false) := by
    funext c
    show (decide ((storeUse id updates c).provider = options.provider) && _) = _
    rw [storeUse_provider, storeUse_isActive]
  rw [hfilter]
  exact sortBy_map fun a _ b _ => byPriority_storeUse id updates a b

theorem lastUse_stored (env : RouterEnv) {count : ℚ} (c : ProviderConnectionReference) :
    lastUse env (storeUse c.id { lastUsedAt := isoText now.val, consecutiveUseCount := count } c) =
      some now.val := by
  rw [storeUse_self]
  show parseOptionalTime env (some (isoText now.val)) = _
  unfold parseOptionalTime
  split
  · rename_i hnone
    cases hnone
  · rename_i hempty
    exact absurd (Option.some.inj hempty) (isoText_ne_empty _)
  · rename_i value hvalue
    rw [← Option.some.inj hvalue]
    exact env.dates.parse_isoText _ now.2

theorem Turning.store {env : RouterEnv} {ranked : List ProviderConnectionReference} {count : Nat}
    (h : Turning env ranked (front ++ x :: back) count)
    (hpast : ∀ c ∈ ranked, ∀ t, lastUse env c = some t → t < now.val) {uses : Nat}
    (huses : 0 < uses) {updates : ConnectionUseUpdates}
    (hupdates : updates = { lastUsedAt := isoText now.val, consecutiveUseCount := (uses : ℚ) }) :
    Turning env (ranked.map (storeUse x.id updates)) (front ++ back ++ [storeUse x.id updates x])
      uses := by
  have hnodup : ((front ++ x :: back).map (·.id)).Nodup := (h.perm.map _).nodup_iff.2 h.nodup
  have hother : ∀ y, y ∈ front ∨ y ∈ back → storeUse x.id updates y = y :=
    fun y hy => storeUse_other updates (ne_of_split hnodup hy)
  have hfront : front.map (storeUse x.id updates) = front :=
    (List.map_congr_left fun y hy => hother y (.inl hy)).trans (List.map_id' front)
  have hback : back.map (storeUse x.id updates) = back :=
    (List.map_congr_left fun y hy => hother y (.inr hy)).trans (List.map_id' back)
  refine ⟨?_, ?_, ?_, ?_, ?_, ?_⟩
  · rw [map_id_storeUse]
    exact h.nodup
  · rw [List.pairwise_map]
    exact h.sorted.imp fun {a b} hab => by rw [byPriority_storeUse]; exact hab
  · have hperm := h.perm.map (storeUse x.id updates)
    rw [List.map_append, List.map_cons, hfront, hback] at hperm
    refine List.Perm.trans ?_ hperm
    rw [List.append_assoc]
    exact List.Perm.append_left _ (List.perm_append_singleton _ _)
  · rw [map_id_storeUse, List.pairwise_append]
    refine ⟨h.older.sublist ?_, List.pairwise_singleton _ _, ?_⟩
    · exact (List.sublist_cons_self x back).append_left front
    · intro y hy z hz
      have hyrank : y ∈ ranked := by
        rw [← h.mem_iff]
        rcases List.mem_append.1 hy with hy | hy <;> simp [hy]
      rw [List.mem_singleton.1 hz, hupdates]
      unfold Older
      rw [lastUse_stored]
      cases hyt : lastUse env y with
      | none => trivial
      | some t => exact hpast y hyrank t hyt
  · intro hzero
    omega
  · intro _ c hc
    rw [List.getLast?_concat] at hc
    rw [← Option.some.inj hc, hupdates]
    refine ⟨?_, ?_, now.val, lastUse_stored env x⟩
    · rw [storeUse_self]
    · rw [storeUse_self]
      exact truthyText_some (isoText_ne_empty _)

/-! ## Runs -/

/-- What the requests of a run have in common. -/
structure RotationRequests (options : SelectProviderConnectionOptions) : Prop where
  strategy : selectionStrategy options = .roundRobin
  quota : selectionQuotaStrategy options = .off
  exclude : options.excludeConnectionIds = none
  preferred : options.preferredConnectionId = none

theorem RotationRequests.select {env : RouterEnv} {options : SelectProviderConnectionOptions}
    (h : RotationRequests options) {tick : Tick} {connections : List ProviderConnectionReference}
    (hne : providerConnections (requestOptions options tick connections) ≠ [])
    (hunlocked : ∀ c ∈ providerConnections (requestOptions options tick connections),
      isModelLockActive env tick.dateNow c options.model = false) :
    selectProviderConnection env tick.dateNow (requestOptions options tick connections) =
      .ok (selectRoundRobin env (tick.now.getD tick.dateNow) (selectionStickyLimit env options)
        (providerConnections (requestOptions options tick connections))) := by
  have hunlockedEq : unlockedConnections env tick.dateNow (requestOptions options tick connections) =
      providerConnections (requestOptions options tick connections) := by
    unfold unlockedConnections
    rw [List.filter_eq_self]
    intro c hc
    have hlock := hunlocked c hc
    show (!(normalizeConnectionIdSet options.excludeConnectionIds).contains c.id &&
      !isModelLockActive env tick.dateNow c options.model) = true
    rw [h.exclude, hlock]
    rfl
  have havailable : availableConnections env tick.dateNow (requestOptions options tick connections) =
      providerConnections (requestOptions options tick connections) := by
    unfold availableConnections
    rw [hunlockedEq, applyQuotaSelectionFilter_eq, List.filter_eq_self]
    intro c _
    have hoff : selectionQuotaStrategy (requestOptions options tick connections) = .off := h.quota
    simp [keepsQuota, hoff]
  unfold selectProviderConnection
  rw [if_neg hne, if_neg (by rw [hunlockedEq]; exact hne), havailable]
  have hpreferred : (requestOptions options tick connections).preferredConnectionId = none :=
    h.preferred
  have hstrategy : selectionStrategy (requestOptions options tick connections) = .roundRobin :=
    h.strategy
  simp only [if_neg hne, hpreferred, hstrategy, ne_eq, not_true_eq_false, if_false]
  rfl

theorem selectionStickyLimit_pos (env : RouterEnv) (options : SelectProviderConnectionOptions) :
    1 ≤ selectionStickyLimit env options := by
  unfold selectionStickyLimit normalizeAccountStickyLimit
  split
  · split
    · omega
    · omega
  · omega

theorem selectionRun_eq_picks {env : RouterEnv} {options : SelectProviderConnectionOptions}
    (h : RotationRequests options) {ticks : List Tick}
    (hclock : (ticks.map Tick.time).Pairwise (· < ·))
    {connections queue : List ProviderConnectionReference} {count : Nat}
    (hturning : ∀ tick, Turning env
      (providerConnections (requestOptions options tick connections)) queue count)
    (hne : queue ≠ [])
    (hunlocked : ∀ tick ∈ ticks, ∀ c ∈ providerConnections (requestOptions options tick connections),
      isModelLockActive env tick.dateNow c options.model = false)
    (hpast : ∀ tick ∈ ticks, ∀ c ∈ providerConnections (requestOptions options tick connections),
      ∀ t, lastUse env c = some t → t < tick.time) :
    selectionRun env options ticks connections =
      .ok ((Rotation.picks (selectionStickyLimit env options).toNat ticks.length
        { queue := queue.map (·.id), count := count }).map some) := by
  induction ticks generalizing connections queue count with
  | nil => rfl
  | cons tick ticks ih =>
    have hlimit := selectionStickyLimit_pos env options
    obtain ⟨hearlier, hclock⟩ := List.pairwise_cons.1 hclock
    have hranked : providerConnections (requestOptions options tick connections) ≠ [] := by
      obtain ⟨c, hc⟩ := List.exists_mem_of_ne_nil _ hne
      exact List.ne_nil_of_mem ((hturning tick).mem_iff.1 hc)
    have hselect := h.select hranked (hunlocked tick List.mem_cons_self)
    -- the selection, and what is left to do after storing it
    have hgoOn : ∀ (front back : List ProviderConnectionReference) (x : ProviderConnectionReference)
        (uses : Nat), queue = front ++ x :: back → 0 < uses →
        selectRoundRobin env (tick.now.getD tick.dateNow) (selectionStickyLimit env options)
          (providerConnections (requestOptions options tick connections)) = .selected x
            (some { lastUsedAt := isoText tick.time, consecutiveUseCount := (uses : ℚ) }) →
        selectionRun env options (tick :: ticks) connections =
          .ok (some x.id :: (Rotation.picks (selectionStickyLimit env options).toNat ticks.length
            { queue := (front ++ back).map (·.id) ++ [x.id], count := uses }).map some) := by
      intro front back x uses hqueue huses hround
      obtain ⟨updates, hupdates⟩ : ∃ updates : ConnectionUseUpdates,
          updates = { lastUsedAt := isoText tick.time, consecutiveUseCount := (uses : ℚ) } :=
        ⟨_, rfl⟩
      rw [← hupdates] at hround
      have hstored :=
        fun tick' => providerConnections_storeUse options tick' connections x.id updates
      have hturning' : ∀ tick', Turning env (providerConnections
          (requestOptions options tick' (connections.map (storeUse x.id updates))))
          (front ++ back ++ [storeUse x.id updates x]) uses := by
        intro tick'
        rw [hstored tick']
        exact (hqueue ▸ hturning tick').store
          (hpast tick List.mem_cons_self) huses hupdates
      have hrun := ih hclock hturning' (by simp)
        (fun tick' htick' c hc => by
          rw [hstored tick'] at hc
          obtain ⟨c', hc', rfl⟩ := List.mem_map.1 hc
          rw [isModelLockActive_storeUse]
          exact hunlocked tick' (List.mem_cons_of_mem _ htick') c' hc')
        (fun tick' htick' c hc t ht => by
          rw [hstored tick'] at hc
          obtain ⟨c', hc', rfl⟩ := List.mem_map.1 hc
          by_cases hid : c'.id = x.id
          · rw [← hid, hupdates, show isoText tick.time =
              isoText (tick.now.getD tick.dateNow).val from rfl, lastUse_stored] at ht
            rw [← Option.some.inj ht]
            exact hearlier _ (List.mem_map_of_mem htick')
          · rw [storeUse_other updates hid] at ht
            exact hpast tick' (List.mem_cons_of_mem _ htick') c' hc' t ht)
      unfold selectionRun
      rw [hselect, hround]
      show Except.bind (selectionRun env options ticks (connections.map (storeUse x.id updates)))
        _ = _
      rw [hrun, List.map_append, List.map_singleton, storeUse_id]
      rfl
    by_cases hagain : 0 < count ∧ (count : Int) < selectionStickyLimit env options
    · obtain ⟨hcount, hlt⟩ := hagain
      obtain ⟨front, x, hqueue⟩ := (List.eq_nil_or_concat' queue).resolve_left hne
      have hlast : queue.getLast? = some x := by rw [hqueue, List.getLast?_concat]
      rw [hgoOn front [] x (count + 1) hqueue (by omega)
        ((hturning tick).select_again hcount hlt hlast), List.length_cons]
      have hnext := Rotation.next_again (k := (selectionStickyLimit env options).toNat)
        (s := { queue := queue.map (·.id), count := count }) (a := x.id) hcount
        (by show count < _; omega) (by simp [hlast])
      rw [Rotation.picks_succ hnext, hqueue, List.append_nil, List.map_append]
      rfl
    · obtain ⟨x, rest, hqueue⟩ := List.exists_cons_of_ne_nil hne
      rw [hgoOn [] rest x 1 hqueue (by omega) ((hturning tick).select_next hagain hqueue),
        List.length_cons]
      have hnext := Rotation.next_head (k := (selectionStickyLimit env options).toNat)
        (s := { queue := queue.map (·.id), count := count }) (a := x.id)
        (t := rest.map (·.id)) (by show ¬ (0 < count ∧ count < _); omega) (by rw [hqueue]; rfl)
      rw [Rotation.picks_succ hnext]
      rfl

/-- A run over unused, unlocked connections selects them in turns: blocks of as many uses
in a row as the limit says, in priority order, and any `n` blocks in a row are one for
each of the `n` connections. -/
theorem roundRobin_inTurns (env : RouterEnv) (options : SelectProviderConnectionOptions)
    (ticks : List Tick) (h : RotationRequests options)
    (hids : (options.connections.map (·.id)).Nodup) (hne : providerConnections options ≠ [])
    (hunused : ∀ c ∈ providerConnections options, truthyText c.lastUsedAt = false)
    (hunlocked : ∀ tick ∈ ticks, ∀ c ∈ providerConnections options,
      isModelLockActive env tick.dateNow c options.model = false)
    (hclock : (ticks.map Tick.time).Pairwise (· < ·)) :
    ∃ picks : List String,
      selectionRun env options ticks options.connections = .ok (picks.map some) ∧
        picks.length = ticks.length ∧
        InTurns ((providerConnections options).map (·.id))
          (selectionStickyLimit env options).toNat picks := by
  have hlimit := selectionStickyLimit_pos env options
  have hnodup : ((providerConnections options).map (·.id)).Nodup :=
    ((sortBy_perm _ _).map _).nodup_iff.2 (hids.sublist (List.filter_sublist.map _))
  have hnever : ∀ c ∈ providerConnections options, lastUse env c = none := by
    intro c hc
    exact lastUse_unused env (hunused c hc)
  have hturning : Turning env (providerConnections options) (providerConnections options) 0 := {
    nodup := hnodup
    sorted := (isComparison_sub priorityValue).pairwise_sortBy _
    perm := List.Perm.refl _
    older := pairwise_older_unused hnodup hnever
    start := fun _ => hunused
    current := fun hpos => absurd hpos (lt_irrefl 0) }
  have hrun := @selectionRun_eq_picks _ _ h _ hclock options.connections _ _
    (fun _ => hturning) hne hunlocked (fun _ _ c hc t ht => by
      have hnone := hnever c hc
      rw [ht] at hnone
      cases hnone)
  have hpicks := Rotation.picks_inTurns
    (show (providerConnections options).map (·.id) ≠ [] by simpa using hne) (k := (selectionStickyLimit env options).toNat) (by omega) ticks.length
  exact ⟨_, hrun, hpicks.1, hpicks.2⟩

/-! ## Example -/

/-- Two connections without a priority, picked in turn. -/
def exampleRotation : SelectProviderConnectionOptions :=
  { exampleSelection [exampleConnection "a" [], exampleConnection "b" []] with
    settings := some { fallbackStrategy := some .roundRobin
                       stickyRoundRobinLimit := some (.text "2")
                       quotaStrategy := none
                       quotaMinRemainingPercentage := none
                       quotaMaxAgeMs := none
                       providerStrategies := none } }

theorem six_isTimeValue : IsTimeValue 1767247200000 := by decide

theorem noon_isTimeValue : IsTimeValue 1767268800000 := by decide

/-- Requests at midnight, at six and at noon. -/
def exampleTicks : List Tick :=
  [{ dateNow := exampleNow, now := none },
    { dateNow := ⟨1767247200000, six_isTimeValue⟩, now := none },
    { dateNow := ⟨1767268800000, noon_isTimeValue⟩, now := none }]

theorem providerConnections_exampleRotation :
    providerConnections exampleRotation = [exampleConnection "a" [], exampleConnection "b" []] := by
  show sortBy byPriority [exampleConnection "a" [], exampleConnection "b" []] = _
  exact sortBy_of_pairwise (by simp [byPriority, priorityValue, exampleConnection])

theorem roundRobin_inTurns_example :
    ∃ picks : List String,
      selectionRun exampleRouterEnv exampleRotation exampleTicks exampleRotation.connections =
          .ok (picks.map some) ∧
        picks.length = exampleTicks.length ∧
        InTurns ((providerConnections exampleRotation).map (·.id))
          (selectionStickyLimit exampleRouterEnv exampleRotation).toNat picks :=
  roundRobin_inTurns exampleRouterEnv exampleRotation exampleTicks
    { strategy := rfl, quota := by decide, exclude := rfl, preferred := rfl }
    (by decide) (by rw [providerConnections_exampleRotation]; exact List.cons_ne_nil _ _)
    (by
      rw [providerConnections_exampleRotation]
      decide)
    (by
      rw [providerConnections_exampleRotation]
      decide)
    (by decide)

end PieLab

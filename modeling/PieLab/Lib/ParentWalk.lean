import Mathlib.Data.List.Basic
import Mathlib.Data.List.Chain
import Mathlib.Data.List.Induction
import Mathlib.Data.List.Nodup
import Mathlib.Data.List.Perm.Subperm
import Mathlib.Logic.Relation

/-
  Walking parent links — a library

  Nodes name their parent by key, and a keyed index finds the parent. The walk
  from a node to its root may loop forever on cyclic links, so it is given fuel.
  The number of nodes of the index is always enough (`Rooted.length_le`), so a
  walk that outlives it is one that never ends.

  What is proved:
    1. `walk_rooted` — with enough fuel the walk returns exactly the rooted chain
       from its start; the chain is unique (`Rooted.unique`) and repeats no node
       (`Rooted.nodup`) and no key (`Rooted.nodup_keys`).
    2. `Rooted.suffix` — every node of a chain starts a chain of its own, the
       rest of the one it stands on; `walk_closed` — a walk among nodes closed
       under parents never ends.
    3. `walk_ends_iff` — a walk ends exactly where no node above its start is above
       itself.
    4. `findLast_mem`, `findLast_of_nodup` — the keyed index over a list, the
       last node of a key winning.
-/

namespace PieLab.Lib

section Walk
variable {α κ : Type} (find : κ → Option α) (parent : α → Option κ)

/-- The chain from `x` up to its root, `x` first; `none` when the fuel runs out. -/
def walk : Nat → α → Option (List α)
  | 0, _ => none
  | n + 1, x => match (parent x).bind find with
    | none => some [x]
    | some y => (walk n y).map (x :: ·)

/-- `l` is the chain of parents from its first node to a root. -/
inductive Rooted : List α → Prop where
  | root {x : α} (h : (parent x).bind find = none) : Rooted [x]
  | link {x y : α} {l : List α} (h : (parent x).bind find = some y)
      (rest : Rooted (y :: l)) : Rooted (x :: y :: l)

variable {find parent}

variable {x : α} {l : List α}

theorem walk_rooted {n : Nat} (h : walk find parent n x = some l) :
    Rooted find parent l ∧ l.head? = some x ∧ l.length ≤ n := by
  induction n generalizing x l with
  | zero => cases h
  | succ n ih =>
    unfold walk at h
    cases hp : (parent x).bind find with
    | none =>
      rw [hp] at h
      simp only [Option.some.injEq] at h
      subst h
      exact ⟨.root hp, rfl, by simp⟩
    | some y =>
      rw [hp] at h
      obtain ⟨l', hl', rfl⟩ := Option.map_eq_some_iff.mp h
      obtain ⟨hr, hh, hn⟩ := ih hl'
      cases l' with
      | nil => cases hh
      | cons z l' =>
        simp only [List.head?_cons, Option.some.injEq] at hh
        subst hh
        exact ⟨.link hp hr, rfl, by simp only [List.length_cons] at hn ⊢; omega⟩

theorem Rooted.walk (h : Rooted find parent l) :
    ∀ {n : Nat} {x : α}, l.head? = some x → l.length ≤ n → walk find parent n x = some l := by
  induction h with
  | @root x hp =>
    intro n z hz hn
    obtain ⟨n, rfl⟩ : ∃ m, n = m + 1 := ⟨n - 1, by simp only [List.length_cons] at hn; omega⟩
    simp only [List.head?_cons, Option.some.injEq] at hz
    subst hz
    simp [Lib.walk, hp]
  | @link x y l hp _ ih =>
    intro n z hz hn
    obtain ⟨n, rfl⟩ : ∃ m, n = m + 1 := ⟨n - 1, by simp only [List.length_cons] at hn; omega⟩
    simp only [List.head?_cons, Option.some.injEq] at hz
    subst hz
    have hrest := ih (n := n) rfl (by simp only [List.length_cons] at hn ⊢; omega)
    simp [Lib.walk, hp, hrest]

theorem walk_map {β ι : Type} {find' : ι → Option β} {parent' : β → Option ι} {f : α → β}
    (h : ∀ x, (parent' (f x)).bind find' = ((parent x).bind find).map f) (n : Nat) (x : α) :
    Lib.walk find' parent' n (f x) = (Lib.walk find parent n x).map (List.map f) := by
  induction n generalizing x with
  | zero => rfl
  | succ n ih =>
    simp only [Lib.walk]
    rw [h]
    cases (parent x).bind find with
    | none => rfl
    | some y => simp [ih y, Function.comp_def]

theorem walk_forall {P : α → Prop} (hfind : ∀ k y, find k = some y → P y) {n : Nat} (hx : P x)
    (h : walk find parent n x = some l) : ∀ y ∈ l, P y := by
  induction n generalizing x l with
  | zero => cases h
  | succ n ih =>
    unfold walk at h
    cases hp : (parent x).bind find with
    | none =>
      rw [hp] at h
      obtain rfl := Option.some.inj h
      simpa using hx
    | some y =>
      rw [hp] at h
      obtain ⟨l', hl', rfl⟩ := Option.map_eq_some_iff.mp h
      obtain ⟨k, -, hk⟩ := Option.bind_eq_some_iff.mp hp
      exact List.forall_mem_cons.2 ⟨hx, ih (hfind k y hk) hl'⟩

/-- Only one chain starts at a node. -/
theorem Rooted.unique {l l' : List α} (h : Rooted find parent l) (h' : Rooted find parent l')
    (hh : l.head? = l'.head?) : l = l' := by
  cases hx : l.head? with
  | none => cases h <;> cases hx
  | some x =>
    have e := h.walk (n := max l.length l'.length) hx (by omega)
    have e' := h'.walk (n := max l.length l'.length) (hh ▸ hx) (by omega)
    exact Option.some.inj (e.symm.trans e')

theorem Rooted.ne_nil (h : Rooted find parent l) : l ≠ [] := by
  cases h <;> simp

/-- What follows a node of a chain is that node's own chain. -/
theorem Rooted.suffix {pre : List α} {post : List α} (h : Rooted find parent (pre ++ x :: post)) :
    Rooted find parent (x :: post) := by
  induction pre with
  | nil => exact h
  | cons y pre ih =>
    apply ih
    cases pre with
    | nil => cases h with
      | link _ rest => exact rest
    | cons z pre => cases h with
      | link _ rest => exact rest

theorem Rooted.not_closed (h : Rooted find parent l) {S : α → Prop}
    (hS : ∀ x, S x → ∃ y, (parent x).bind find = some y ∧ S y) : ∀ x, l.head? = some x → ¬ S x := by
  induction h with
  | @root x hp =>
    intro z hz hmem
    obtain rfl := Option.some.inj hz
    obtain ⟨y, hy, -⟩ := hS _ hmem
    rw [hp] at hy
    cases hy
  | @link x y l hp _ ih =>
    intro z hz hmem
    obtain rfl := Option.some.inj hz
    obtain ⟨y', hy, hmem'⟩ := hS _ hmem
    rw [hp] at hy
    obtain rfl := Option.some.inj hy
    exact ih _ rfl hmem'

theorem walk_closed {S : α → Prop} (hS : ∀ x, S x → ∃ y, (parent x).bind find = some y ∧ S y)
    (hx : S x) (n : Nat) : walk find parent n x = none := by
  cases h : walk find parent n x with
  | none => rfl
  | some l =>
    obtain ⟨hr, hhead, -⟩ := walk_rooted h
    exact absurd hx (hr.not_closed hS x hhead)

theorem Rooted.nodup (h : Rooted find parent l) : l.Nodup := by
  induction h with
  | root _ => simp
  | @link x y l hp hr ih =>
    refine List.nodup_cons.mpr ⟨fun hx => ?_, ih⟩
    -- `x` further down starts a second, shorter chain from `x`
    obtain ⟨pre, post, e⟩ := List.append_of_mem hx
    have hsuf : Rooted find parent (x :: post) := by
      rw [e] at hr
      exact hr.suffix
    have heq := (Rooted.link hp hr).unique hsuf rfl
    have hlen := congrArg List.length heq
    rw [e] at hlen
    simp only [List.length_cons, List.length_append] at hlen
    omega

/-- `y` is the parent of `x` in the index. -/
def Links (find : κ → Option α) (parent : α → Option κ) (x y : α) : Prop :=
  (parent x).bind find = some y

theorem Rooted.acyclic (h : Rooted find parent l) (hx : l.head? = some x) {y : α}
    (hxy : Relation.ReflTransGen (Links find parent) x y) :
    ¬ Relation.TransGen (Links find parent) y y := by
  intro hcycle
  -- the nodes below the cycle are closed under parents
  have hclosed : ∀ z, Relation.TransGen (Links find parent) z y →
      ∃ w, (parent z).bind find = some w ∧ Relation.TransGen (Links find parent) w y := by
    intro z hz
    obtain ⟨w, hlink, hw⟩ := Relation.TransGen.head'_iff.mp hz
    exact ⟨w, hlink, Relation.TransGen.trans_right hw hcycle⟩
  exact h.not_closed hclosed x hx (Relation.TransGen.trans_right hxy hcycle)

theorem exists_walk_of_acyclic {nodes : List α} (hnodes : ∀ k y, find k = some y → y ∈ nodes)
    (n : Nat) :
    ∀ (x : α) (seen : List α), seen.Nodup → (∀ s ∈ seen, Relation.TransGen (Links find parent) s x) →
      (∀ y, Relation.ReflTransGen (Links find parent) x y → ¬ Relation.TransGen (Links find parent) y y) →
      x :: seen ⊆ nodes → nodes.length ≤ n + seen.length → ∃ l, walk find parent (n + 1) x = some l := by
  induction n with
  | zero =>
    intro x seen hnodup habove hacyclic hsub hlength
    have hx : x ∉ seen := fun hmem => hacyclic x .refl (habove x hmem)
    have hle := (List.subperm_of_subset (List.nodup_cons.mpr ⟨hx, hnodup⟩) hsub).length_le
    rw [List.length_cons] at hle
    omega
  | succ n ih =>
    intro x seen hnodup habove hacyclic hsub hlength
    have hx : x ∉ seen := fun hmem => hacyclic x .refl (habove x hmem)
    unfold walk
    cases hlink : (parent x).bind find with
    | none => exact ⟨[x], rfl⟩
    | some y =>
      have hstep : Links find parent x y := hlink
      obtain ⟨k, -, hk⟩ := Option.bind_eq_some_iff.mp hlink
      have habove' : ∀ s ∈ x :: seen, Relation.TransGen (Links find parent) s y := by
        intro s hs
        rcases List.mem_cons.mp hs with rfl | hs
        · exact .single hstep
        · exact (habove s hs).tail hstep
      have hacyclic' : ∀ z, Relation.ReflTransGen (Links find parent) y z →
          ¬ Relation.TransGen (Links find parent) z z := fun z hz => hacyclic z (.head hstep hz)
      obtain ⟨l, hl⟩ := ih y (x :: seen) (List.nodup_cons.mpr ⟨hx, hnodup⟩) habove' hacyclic'
        (List.cons_subset.mpr ⟨hnodes k y hk, hsub⟩) (by rw [List.length_cons]; omega)
      exact ⟨x :: l, by simp only [hl, Option.map_some]⟩

/-- The walk from `x` ends exactly where no node above `x` is above itself. -/
theorem walk_ends_iff {nodes : List α} (hnodes : ∀ k y, find k = some y → y ∈ nodes) (x : α) :
    (∃ n l, walk find parent n x = some l) ↔
      ∀ y, Relation.ReflTransGen (Links find parent) x y → ¬ Relation.TransGen (Links find parent) y y := by
  constructor
  · rintro ⟨n, l, hl⟩ y hxy
    obtain ⟨hr, hx, -⟩ := walk_rooted hl
    exact hr.acyclic hx hxy
  · intro hacyclic
    have hnodes' : ∀ k y, find k = some y → y ∈ x :: nodes :=
      fun k y hk => List.mem_cons_of_mem x (hnodes k y hk)
    obtain ⟨l, hl⟩ := exists_walk_of_acyclic hnodes' (x :: nodes).length x [] List.nodup_nil
      (fun s hs => nomatch hs) hacyclic (by simp) (Nat.le_add_right _ _)
    exact ⟨_, l, hl⟩

end Walk

/-! ## A keyed index over a list -/

section Index
variable {α κ : Type} [DecidableEq κ] (key : α → κ)

/-- The map filled by `set(key x, x)` over the list: the last node of a key wins. -/
def findLast (l : List α) (k : κ) : Option α := l.reverse.find? (fun x => key x == k)

variable {key}

variable {l : List α} {x : α}

theorem findLast_mem {k : κ} (h : findLast key l k = some x) : x ∈ l ∧ key x = k := by
  unfold findLast at h
  exact ⟨List.mem_reverse.mp (List.mem_of_find?_eq_some h),
    by simpa using List.find?_some h⟩

theorem findLast_none_iff {k : κ} : findLast key l k = none ↔ ∀ x ∈ l, key x ≠ k := by
  simp [findLast, List.find?_eq_none]

theorem findLast_last : findLast key (l ++ [x]) (key x) = some x := by
  simp [findLast]

theorem findLast_concat (l : List α) (x : α) (k : κ) :
    findLast key (l ++ [x]) k = if key x = k then some x else findLast key l k := by
  unfold findLast
  rw [List.reverse_append, List.reverse_singleton, List.singleton_append, List.find?_cons]
  by_cases h : key x = k
  · simp [h]
  · have hb : (key x == k) = false := by simpa using h
    simp [h, hb]

theorem findLast_append (l r : List α) (k : κ) :
    findLast key (l ++ r) k = (findLast key r k).or (findLast key l k) := by
  unfold findLast
  rw [List.reverse_append, List.find?_append]

theorem findLast_map {β ι : Type} [DecidableEq ι] {key' : β → ι} {f : α → β} {g : κ → ι}
    (h : ∀ x, key' (f x) = g (key x)) (hg : Function.Injective g) (l : List α) (k : κ) :
    findLast key' (l.map f) (g k) = (findLast key l k).map f := by
  induction l using List.reverseRecOn with
  | nil => rfl
  | append_singleton l x ih =>
    rw [List.map_append, List.map_singleton, findLast_concat, findLast_concat, h, ih]
    by_cases hx : key x = k
    · simp [hx]
    · simp [hx, hg.eq_iff]

omit [DecidableEq κ] in
theorem eq_of_key_eq (hn : (l.map key).Nodup) {y : α} (hx : x ∈ l) (hy : y ∈ l)
    (h : key x = key y) : x = y :=
  List.inj_on_of_nodup_map hn hx hy h

theorem findLast_of_nodup (hn : (l.map key).Nodup) (hx : x ∈ l) :
    findLast key l (key x) = some x := by
  cases h : findLast key l (key x) with
  | none => exact absurd rfl (findLast_none_iff.mp h x hx)
  | some y =>
    obtain ⟨hy, hk⟩ := findLast_mem h
    rw [eq_of_key_eq hn hy hx hk]

theorem findIdx?_key {α κ : Type} [BEq κ] [LawfulBEq κ] {key : α → κ} {pre post : List α} {x : α}
    (hn : ((pre ++ x :: post).map key).Nodup) :
    (pre ++ x :: post).findIdx? (fun y => key y == key x) = some pre.length := by
  have hpre : pre.findIdx? (fun y => key y == key x) = none := by
    rw [List.findIdx?_eq_none_iff]
    intro y hy
    rw [List.map_append, List.map_cons, List.nodup_append] at hn
    simpa using hn.2.2 (key y) (List.mem_map.mpr ⟨y, hy, rfl⟩) (key x) (by simp)
  rw [List.findIdx?_append, hpre]
  simp [List.findIdx?_cons]

end Index

section KeyedWalk
variable {α κ : Type} [DecidableEq κ] {key : α → κ} {parent : α → Option κ} {nodes : List α}

variable {l : List α}

theorem Rooted.mem_nodes (h : Rooted (findLast key nodes) parent l) :
    ∀ x ∈ l.tail, findLast key nodes (key x) = some x := by
  induction h with
  | root _ => simp
  | @link x y l hp hr ih =>
    intro z hz
    rcases List.mem_cons.mp hz with rfl | hz
    · obtain ⟨k, -, hk⟩ := Option.bind_eq_some_iff.mp hp
      rw [(findLast_mem hk).2]; exact hk
    · exact ih z hz

/-- A chain of the index that starts at an indexed node repeats no key. -/
theorem Rooted.nodup_keys (h : Rooted (findLast key nodes) parent l)
    (hx : ∀ x, l.head? = some x → findLast key nodes (key x) = some x) : (l.map key).Nodup := by
  have hall : ∀ x ∈ l, findLast key nodes (key x) = some x := by
    intro x hxl
    cases l with
    | nil => cases hxl
    | cons y l =>
      rcases List.mem_cons.mp hxl with rfl | hxl
      · exact hx _ rfl
      · exact h.mem_nodes x hxl
  refine (List.nodup_map_iff_inj_on h.nodup).mpr fun x hx y hy hk => ?_
  have e := hall x hx
  rw [hk, hall y hy] at e
  exact (Option.some.inj e).symm

theorem rooted_reverse (hne : l ≠ []) (hc : l.IsChain (fun a b => parent b = some (key a)))
    (hidx : ∀ x ∈ l, findLast key nodes (key x) = some x)
    (hroot : ∀ x, l.head? = some x → (parent x).bind (findLast key nodes) = none) :
    Rooted (findLast key nodes) parent l.reverse := by
  induction l using List.reverseRecOn with
  | nil => exact absurd rfl hne
  | append_singleton init x ih =>
    rw [List.reverse_append, List.reverse_singleton, List.singleton_append]
    cases init using List.reverseRecOn with
    | nil => exact .root (hroot x rfl)
    | append_singleton init y =>
      obtain ⟨hc1, -, hlink⟩ := List.isChain_append.mp hc
      have hxy : parent x = some (key y) := hlink y (by simp) x (by simp)
      have hy : findLast key nodes (key y) = some y := hidx y (by simp)
      have ih := ih (by simp) hc1 (fun e he => hidx e (by simp at he ⊢; tauto))
        (fun e he => hroot e (by rw [List.head?_append_of_ne_nil _ (by simp)]; exact he))
      rw [List.reverse_append, List.reverse_singleton, List.singleton_append] at ih ⊢
      exact .link (by rw [hxy]; exact hy) ih

/-- The number of indexed nodes is fuel enough for every chain. -/
theorem Rooted.length_le (h : Rooted (findLast key nodes) parent l)
    (hx : ∀ x, l.head? = some x → findLast key nodes (key x) = some x) :
    l.length ≤ nodes.length := by
  have hsub : l ⊆ nodes := by
    intro x hxl
    cases l with
    | nil => cases hxl
    | cons y l =>
      rcases List.mem_cons.mp hxl with rfl | hxl
      · exact (findLast_mem (hx _ rfl)).1
      · exact (findLast_mem (h.mem_nodes x hxl)).1
  exact (List.subperm_of_subset h.nodup hsub).length_le

theorem rooted_of_ordered (hn : (nodes.map key).Nodup)
    (hord : ∀ pre x post, nodes = pre ++ x :: post →
      parent x = none ∨ ∃ y ∈ pre, parent x = some (key y)) :
    ∀ x ∈ nodes, ∃ l, Rooted (findLast key nodes) parent l ∧ l.head? = some x := by
  -- by the number of nodes in front of `x`
  have hind : ∀ n pre x post, pre.length < n → nodes = pre ++ x :: post →
      ∃ l, Rooted (findLast key nodes) parent l ∧ l.head? = some x := by
    intro n
    induction n with
    | zero => intro pre x post hlt; omega
    | succ n ih =>
      intro pre x post hlt heq
      rcases hord pre x post heq with hnone | ⟨y, hy, hparent⟩
      · exact ⟨[x], .root (by rw [hnone]; rfl), rfl⟩
      · obtain ⟨a, b, rfl⟩ := List.append_of_mem hy
        have hnodes : nodes = a ++ y :: (b ++ x :: post) := by rw [heq]; simp
        obtain ⟨l, hl, hhead⟩ := ih a y _ (by simp at hlt; omega) hnodes
        have hfind : (parent x).bind (findLast key nodes) = some y := by
          rw [hparent]
          exact findLast_of_nodup hn (by rw [hnodes]; simp)
        cases l with
        | nil => cases hhead
        | cons z l =>
          obtain rfl := Option.some.inj hhead
          exact ⟨x :: z :: l, .link hfind hl, rfl⟩
  intro x hx
  obtain ⟨pre, post, heq⟩ := List.append_of_mem hx
  exact hind (pre.length + 1) pre x post (by omega) heq

end KeyedWalk

end PieLab.Lib

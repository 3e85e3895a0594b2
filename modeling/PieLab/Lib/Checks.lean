import Mathlib.Data.List.Basic

/-
  Checks that throw — a library

  A computation that may throw is an `Except`. A check throws its message or goes
  on.

  What is proved:
    1. `bind_ok`, `map_ok`, `mapM_ok`, `mapM_keeps` — a composed computation
       returns only when its parts do.
    2. `mapM_eq_ok` — and it returns when they all do.
-/

namespace PieLab.Lib

section Checks
variable {ε α β : Type}

/-- `if (bad) throw new Error(message)` -/
def refuse (bad : Bool) (message : ε) : Except ε Unit :=
  if bad then .error message else .ok ()

theorem refuse_ok_iff {bad : Bool} {message : ε} :
    refuse bad message = .ok () ↔ bad = false := by
  cases bad with
  | false => exact ⟨fun _ => rfl, fun _ => rfl⟩
  | true => exact ⟨fun h => (by cases h), fun h => (by cases h)⟩

variable {x : Except ε α} {f : α → Except ε β} {l : List α}

theorem Except.bind_ok {b : β} (h : (x >>= f) = .ok b) : ∃ a, x = .ok a ∧ f a = .ok b := by
  cases x with
  | error e => cases h
  | ok a => exact ⟨a, rfl, h⟩

theorem Except.map_ok {f : α → β} {b : β} (h : x.map f = .ok b) : ∃ a, x = .ok a ∧ f a = b := by
  cases x with
  | error e => cases h
  | ok a => exact ⟨a, rfl, by cases h; rfl⟩

/-- A list of computations that check `P` and return `g` returns the mapped list. -/
theorem Except.mapM_ok {P : α → Prop} {g : α → β} (hf : ∀ a b, f a = .ok b → P a ∧ b = g a)
    {l' : List β} (h : l.mapM f = .ok l') : (∀ a ∈ l, P a) ∧ l' = l.map g := by
  induction l generalizing l' with
  | nil => cases h; exact ⟨fun a ha => absurd ha List.not_mem_nil, rfl⟩
  | cons a l ih =>
    rw [List.mapM_cons] at h
    obtain ⟨b, hb, h⟩ := Except.bind_ok h
    obtain ⟨bs, hbs, h⟩ := Except.bind_ok h
    cases h
    obtain ⟨hP, rfl⟩ := hf a b hb
    obtain ⟨hall, rfl⟩ := ih hbs
    exact ⟨List.forall_mem_cons.mpr ⟨hP, hall⟩, rfl⟩

theorem Except.mapM_eq_ok {g : α → β} (h : ∀ a ∈ l, f a = .ok (g a)) :
    l.mapM f = .ok (l.map g) := by
  induction l with
  | nil => rfl
  | cons a l ih =>
    obtain ⟨ha, hl⟩ := List.forall_mem_cons.1 h
    rw [List.mapM_cons, ha, ih hl]
    rfl

theorem Except.mapM_keeps {P : α → Prop} {Q : β → Prop} (hf : ∀ a b, P a → f a = .ok b → Q b)
    {l' : List β} (hl : ∀ a ∈ l, P a) (h : l.mapM f = .ok l') : ∀ b ∈ l', Q b := by
  induction l generalizing l' with
  | nil => cases h; exact fun b hb => absurd hb List.not_mem_nil
  | cons a l ih =>
    rw [List.mapM_cons] at h
    obtain ⟨b, hb, h⟩ := Except.bind_ok h
    obtain ⟨bs, hbs, h⟩ := Except.bind_ok h
    cases h
    obtain ⟨ha, hl⟩ := List.forall_mem_cons.mp hl
    exact List.forall_mem_cons.mpr ⟨hf a b ha hb, ih hl hbs⟩

theorem Except.bind_error {e : ε} :
    (x >>= f) = .error e ↔ x = .error e ∨ ∃ a, x = .ok a ∧ f a = .error e := by
  cases x with
  | error e' =>
    constructor
    · intro h
      cases h
      exact .inl rfl
    · rintro (h | ⟨a, h, -⟩)
      · cases h
        rfl
      · cases h
  | ok a =>
    constructor
    · exact fun h => .inr ⟨a, rfl, h⟩
    · rintro (h | ⟨b, h, hb⟩)
      · cases h
      · cases h
        exact hb

theorem Except.mapM_error {e : ε} (h : l.mapM f = .error e) : ∃ a ∈ l, f a = .error e := by
  induction l with
  | nil => cases h
  | cons a l ih =>
    rw [List.mapM_cons] at h
    rcases Except.bind_error.mp h with ha | ⟨b, -, h⟩
    · exact ⟨a, List.mem_cons_self, ha⟩
    · rcases Except.bind_error.mp h with hl | ⟨bs, -, h⟩
      · obtain ⟨a', ha', he⟩ := ih hl
        exact ⟨a', List.mem_cons_of_mem a ha', he⟩
      · cases h

end Checks

end PieLab.Lib

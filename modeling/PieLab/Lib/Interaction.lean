import Mathlib.Data.List.Basic

/-
  Programs that ask their environment — a library

  A program is a tree of queries: it returns, throws, asks a query and goes on
  with the answer, or leaves a choice to the scheduler. The environment says
  which answers a query may get and which entry it leaves in the log, so what
  holds of every run holds for every behaviour of the callbacks a program has.

  Two programs run side by side by interleaving their queries: before each query
  the scheduler picks the side that moves.

  What is proved:
    1. `Safe` — what a program logs, throws and returns at most, with a rule for
       each way to build a program (`Safe.bind`, `Safe.handle`, `Safe.both`,
       `Safe.all`), and `Safe.sound`: it holds of every run.
    2. `After` — what holds of the log and the value of a run that returns, when
       it goes on from a given log, with `After.bind` for one run behind another.
    3. `run_produces` — the run of an environment that computes its answers.
-/

namespace PieLab.Lib

/-- A program over the queries `Q` with answers `A`. -/
inductive Prog (Q : Type) (A : Q → Type) (ε α : Type) where
  | done (a : α)
  | throw (e : ε)
  | ask (q : Q) (k : A q → Prog Q A ε α)
  /-- The scheduler picks the branch. -/
  | choose (k : Bool → Prog Q A ε α)

/-- The entry a query leaves in the log, and the answers it may get. -/
structure World (Q : Type) (A : Q → Type) (ω : Type) where
  entry : Q → Option ω
  Allowed : (q : Q) → A q → Prop

namespace Prog

section Programs
variable {Q : Type} {A : Q → Type} {ε α β : Type}

def bind : Prog Q A ε α → (α → Prog Q A ε β) → Prog Q A ε β
  | .done a, f => f a
  | .throw e, _ => .throw e
  | .ask q k, f => .ask q fun a => (k a).bind f
  | .choose k, f => .choose fun b => (k b).bind f

/-- `try p catch e => h e`. -/
def handle : Prog Q A ε α → (ε → Prog Q A ε α) → Prog Q A ε α
  | .done a, _ => .done a
  | .throw e, h => h e
  | .ask q k, h => .ask q fun a => (k a).handle h
  | .choose k, h => .choose fun b => (k b).handle h

instance : Monad (Prog Q A ε) where
  pure := .done
  bind := Prog.bind

instance : MonadExcept ε (Prog Q A ε) where
  throw := .throw
  tryCatch := Prog.handle

/-- One query and its answer. -/
def call (q : Q) : Prog Q A ε (A q) := .ask q .done

/-- An answer that may be an error, thrown. -/
def ofExcept : Except ε α → Prog Q A ε α
  | .ok a => .done a
  | .error e => .throw e

def map (f : α → β) (p : Prog Q A ε α) : Prog Q A ε β := p.bind fun a => .done (f a)

/-- The left program is about to ask `q`; the right one moves first or waits. -/
def bothAsk (q : Q) (k : A q → Prog Q A ε β → Prog Q A ε (α × β)) :
    Prog Q A ε β → Prog Q A ε (α × β)
  | .done b => .ask q fun a => k a (.done b)
  | .throw e => .throw e
  | .ask q' k' => .choose fun left =>
    if left then .ask q fun a => k a (.ask q' k') else .ask q' fun a => bothAsk q k (k' a)
  | .choose k' => .choose fun b => bothAsk q k (k' b)

/-- Both programs side by side. The first error is the error of the whole. -/
def both : Prog Q A ε α → Prog Q A ε β → Prog Q A ε (α × β)
  | .done a, p => p.map fun b => (a, b)
  | .throw e, _ => .throw e
  | .ask q k, p => bothAsk q (fun a => both (k a)) p
  | .choose k, p => .choose fun b => both (k b) p

/-- All programs side by side, their values in the order of the list. -/
def all : List (Prog Q A ε α) → Prog Q A ε (List α)
  | [] => .done []
  | p :: ps => (both p (all ps)).map fun ab => ab.1 :: ab.2

end Programs

section Judgements
variable {Q : Type} {A : Q → Type} {ω ε α β : Type} (w : World Q A ω)

/-- A run of the program: what it logs and how it ends. -/
inductive Produces : Prog Q A ε α → List ω → Except ε α → Prop where
  | done (a : α) : Produces (.done a) [] (.ok a)
  | throw (e : ε) : Produces (.throw e) [] (.error e)
  | ask {q : Q} {k : A q → Prog Q A ε α} {a : A q} {es : List ω} {r : Except ε α}
      (allowed : w.Allowed q a) (rest : Produces (k a) es r) :
      Produces (.ask q k) ((w.entry q).toList ++ es) r
  | choose {k : Bool → Prog Q A ε α} {b : Bool} {es : List ω} {r : Except ε α}
      (rest : Produces (k b) es r) : Produces (.choose k) es r

/-- Whatever the answers, the program logs entries of `E`, throws errors of `T`
and returns values of `R` only. -/
def Safe (E : ω → Prop) (T : ε → Prop) (R : α → Prop) : Prog Q A ε α → Prop
  | .done a => R a
  | .throw e => T e
  | .ask q k => (∀ e ∈ w.entry q, E e) ∧ ∀ a, w.Allowed q a → Safe E T R (k a)
  | .choose k => ∀ b, Safe E T R (k b)

/-- Every run that goes on from `log` and returns ends with a log and a value as
`P` says. -/
def After (log : List ω) (p : Prog Q A ε α) (P : List ω → α → Prop) : Prop :=
  ∀ es a, Produces w p es (.ok a) → P (log ++ es) a

end Judgements

section Rules
variable {Q : Type} {A : Q → Type} {ω ε α β : Type} {w : World Q A ω}

/-! ### What a program logs, throws and returns at most -/

variable {E : ω → Prop} {T : ε → Prop} {R : α → Prop} {es log : List ω} {S : β → Prop}
variable {f : α → Prog Q A ε β} {P : List ω → α → Prop}

theorem Safe.sound {p : Prog Q A ε α} (hp : Safe w E T R p) {r : Except ε α}
    (h : Produces w p es r) :
    (∀ e ∈ es, E e) ∧ (∀ e, r = .error e → T e) ∧ ∀ a, r = .ok a → R a := by
  induction h with
  | done a =>
    refine ⟨by simp, by simp, ?_⟩
    intro a' ha
    cases ha
    exact hp
  | throw e =>
    refine ⟨by simp, ?_, by simp⟩
    intro e' he
    cases he
    exact hp
  | @ask q k a es r allowed _ ih =>
    obtain ⟨hlog, hend⟩ := ih (hp.2 a allowed)
    refine ⟨?_, hend⟩
    intro e he
    rw [List.mem_append, Option.mem_toList] at he
    exact he.elim (hp.1 e) (hlog e)
  | @choose k b es r _ ih => exact ih (hp b)

theorem Safe.returns {p : Prog Q A ε α} (hp : Safe w E (fun _ => False) R p) {r : Except ε α}
    (h : Produces w p es r) : ∃ a, r = .ok a ∧ R a := by
  obtain ⟨_, hthrow, hret⟩ := hp.sound h
  cases r with
  | ok a => exact ⟨a, rfl, hret a rfl⟩
  | error e => exact (hthrow e rfl).elim

theorem Safe.mono {T' : ε → Prop} {R' : α → Prop} {p : Prog Q A ε α} (hp : Safe w E T R p)
    (hT : ∀ e, T e → T' e) (hR : ∀ a, R a → R' a) : Safe w E T' R' p := by
  induction p with
  | done a => exact hR a hp
  | throw e => exact hT e hp
  | ask q k ih => exact ⟨hp.1, fun a ha => ih a (hp.2 a ha)⟩
  | choose k ih => exact fun b => ih b (hp b)

theorem Safe.bind {p : Prog Q A ε α} (hp : Safe w E T R p) (hf : ∀ a, R a → Safe w E T S (f a)) :
    Safe w E T S (p >>= f) := by
  show Safe w E T S (p.bind f)
  induction p with
  | done a => exact hf a hp
  | throw e => exact hp
  | ask q k ih => exact ⟨hp.1, fun a ha => ih a (hp.2 a ha)⟩
  | choose k ih => exact fun b => ih b (hp b)

theorem Safe.handle {T' : ε → Prop} {p : Prog Q A ε α} {h : ε → Prog Q A ε α} (hp : Safe w E T R p)
    (hh : ∀ e, T e → Safe w E T' R (h e)) : Safe w E T' R (tryCatch p h) := by
  show Safe w E T' R (p.handle h)
  induction p with
  | done a => exact hp
  | throw e => exact hh e hp
  | ask q k ih => exact ⟨hp.1, fun a ha => ih a (hp.2 a ha)⟩
  | choose k ih => exact fun b => ih b (hp b)

theorem Safe.call {E : ω → Prop} {T : ε → Prop} {q : Q} (hq : ∀ e ∈ w.entry q, E e) :
    Safe w E T (w.Allowed q) (call q : Prog Q A ε (A q)) := ⟨hq, fun _ ha => ha⟩

theorem Safe.ofExcept (x : Except ε α) :
    Safe w E (fun _ => True) (fun _ => True) (ofExcept x : Prog Q A ε α) := by
  cases x <;> trivial

theorem Safe.map {p : Prog Q A ε α} {f : α → β} (hp : Safe w E T R p) (hf : ∀ a, R a → S (f a)) :
    Safe w E T S (p.map f) :=
  Safe.bind hp hf

theorem Safe.bothAsk {U : α × β → Prop} {q : Q} {k : A q → Prog Q A ε β → Prog Q A ε (α × β)}
    (hq : ∀ e ∈ w.entry q, E e)
    (hk : ∀ a, w.Allowed q a → ∀ p, Safe w E T S p → Safe w E T U (k a p)) {p : Prog Q A ε β}
    (hp : Safe w E T S p) : Safe w E T U (bothAsk q k p) := by
  induction p with
  | done b => exact ⟨hq, fun a ha => hk a ha _ hp⟩
  | throw e => exact hp
  | ask q' k' ih =>
    intro left
    cases left with
    | true => exact ⟨hq, fun a ha => hk a ha _ hp⟩
    | false => exact ⟨hp.1, fun a ha => ih a (hp.2 a ha)⟩
  | choose k' ih => exact fun b => ih b (hp b)

theorem Safe.both {p : Prog Q A ε α} {p' : Prog Q A ε β} (hp : Safe w E T R p)
    (hp' : Safe w E T S p') : Safe w E T (fun ab => R ab.1 ∧ S ab.2) (both p p') := by
  induction p generalizing p' with
  | done a => exact Safe.map hp' fun b hb => ⟨hp, hb⟩
  | throw e => exact hp
  | ask q k ih => exact Safe.bothAsk hp.1 (fun a ha _ h => ih a (hp.2 a ha) h) hp'
  | choose k ih => exact fun b => ih b (hp b) hp'

/-- The values come in the order of the programs, whichever ends first. -/
theorem Safe.all {γ : Type} {R : α → γ → Prop} {ps : List (Prog Q A ε α)} {cs : List γ}
    (h : List.Forall₂ (fun p c => Safe w E T (fun a => R a c) p) ps cs) :
    Safe w E T (fun as => List.Forall₂ R as cs) (all ps) := by
  induction h with
  | nil => exact .nil
  | cons hp _ ih => exact Safe.map (Safe.both hp ih) fun ab hab => .cons hab.1 hab.2

/-! ### What a run that returns has logged -/

theorem Produces.of_bind {p : Prog Q A ε α} {b : β} (h : Produces w (p.bind f) es (.ok b)) :
    ∃ es₁ es₂ a, Produces w p es₁ (.ok a) ∧ Produces w (f a) es₂ (.ok b) ∧ es = es₁ ++ es₂ := by
  induction p generalizing es with
  | done a => exact ⟨[], es, a, .done a, h, rfl⟩
  | throw e => cases h
  | ask q k ih =>
    cases h with
    | @ask _ _ a es' _ allowed rest =>
      obtain ⟨es₁, es₂, x, h1, h2, rfl⟩ := ih a rest
      exact ⟨_, es₂, x, .ask allowed h1, h2, (List.append_assoc _ _ _).symm⟩
  | choose k ih =>
    cases h with
    | @choose _ b' _ _ rest =>
      obtain ⟨es₁, es₂, x, h1, h2, rfl⟩ := ih b' rest
      exact ⟨es₁, es₂, x, .choose h1, h2, rfl⟩

theorem After.bind {S : List ω → β → Prop} {p : Prog Q A ε α} (hp : After w log p P)
    (hf : ∀ log' a, P log' a → After w log' (f a) S) : After w log (p >>= f) S := by
  intro es b h
  obtain ⟨es₁, es₂, a, h1, h2, rfl⟩ := Produces.of_bind h
  rw [← List.append_assoc]
  exact hf _ a (hp es₁ a h1) es₂ b h2

theorem After.pure {a : α} (h : P log a) : After w log (pure a : Prog Q A ε α) P := by
  intro es b hrun
  cases hrun with
  | done =>
    rw [List.append_nil]
    exact h

theorem After.throw {e : ε} : After w log (.throw e : Prog Q A ε α) P := by
  intro es b hrun
  cases hrun

theorem After.call {log : List ω} {q : Q} :
    After w log (call q : Prog Q A ε (A q)) fun log' a =>
      log' = log ++ (w.entry q).toList ∧ w.Allowed q a := by
  intro es a hrun
  cases hrun with
  | @ask _ _ x es' _ allowed rest =>
    cases rest with
    | done => exact ⟨by rw [List.append_nil], allowed⟩

theorem After.ofExcept {x : Except ε α} :
    After w log (ofExcept x : Prog Q A ε α) fun log' a => log' = log ∧ x = .ok a := by
  cases x with
  | ok a => exact After.pure ⟨rfl, rfl⟩
  | error e => exact After.throw

theorem After.mono {P' : List ω → α → Prop} {p : Prog Q A ε α} (hp : After w log p P)
    (himp : ∀ log' a, P log' a → P' log' a) : After w log p P' :=
  fun es a h => himp _ a (hp es a h)

theorem Safe.after {p : Prog Q A ε α} (hp : Safe w E T R p) (log : List ω) :
    After w log p fun log' a => ∃ es, log' = log ++ es ∧ (∀ e ∈ es, E e) ∧ R a :=
  fun es a h => ⟨es, rfl, (hp.sound h).1, (hp.sound h).2.2 a rfl⟩

/-! ### An environment that computes its answers -/

/-- The run in which every query gets the computed answer and the scheduler always
picks the same side. -/
def run (w : World Q A ω) (answer : (q : Q) → A q) (side : Bool) :
    Prog Q A ε α → List ω × Except ε α
  | .done a => ([], .ok a)
  | .throw e => ([], .error e)
  | .ask q k =>
    let rest := run w answer side (k (answer q))
    ((w.entry q).toList ++ rest.1, rest.2)
  | .choose k => run w answer side (k side)

theorem run_produces {answer : (q : Q) → A q} (h : ∀ q, w.Allowed q (answer q)) (side : Bool)
    (p : Prog Q A ε α) : Produces w p (run w answer side p).1 (run w answer side p).2 := by
  induction p with
  | done a => exact .done a
  | throw e => exact .throw e
  | ask q k ih => exact .ask (h q) (ih _)
  | choose k ih => exact .choose (ih side)

end Rules

end Prog

end PieLab.Lib

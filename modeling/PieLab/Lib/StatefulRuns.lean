import PieLab.Lib.Interaction

/-
  Programs that ask their environment, run in a state — a library

  Here the environment has a state: a query is answered in one state and leaves
  another. A step may also hold whatever else happens around the query.

  What is proved:
    1. `Holds` — what holds at the end of every run from a state, with a rule for
       each way to build a program, and `Holds.sound`.
    2. `Asks.holds` — a program that asks only queries which keep an invariant keeps
       it.
    3. `runFrom_exec` — the run of a machine that computes its answers.
    4. `Holds.kept` — what every step of a machine keeps holds at the end of every run.
    5. `Guarded` — in which states a program asks its queries, in runs that do not end
       as well, with a rule for each way to build a program, and `Guarded.sound`.
-/

namespace PieLab.Lib

/-- How a query is answered in a state, and the state it leaves. -/
abbrev Machine (Q : Type) (A : Q → Type) (σ : Type) := (q : Q) → σ → A q → σ → Prop

namespace Prog

section Judgements
variable {Q : Type} {A : Q → Type} {σ ε α : Type} (m : Machine Q A σ)

/-- A run of the program from a state: how it ends, and in which state. -/
inductive Exec : Prog Q A ε α → σ → Except ε α → σ → Prop where
  | done (a : α) (s : σ) : Exec (.done a) s (.ok a) s
  | throw (e : ε) (s : σ) : Exec (.throw e) s (.error e) s
  | ask {q : Q} {k : A q → Prog Q A ε α} {a : A q} {s t u : σ} {r : Except ε α}
      (step : m q s a t) (rest : Exec (k a) t r u) : Exec (.ask q k) s r u
  | choose {k : Bool → Prog Q A ε α} {b : Bool} {s u : σ} {r : Except ε α}
      (rest : Exec (k b) s r u) : Exec (.choose k) s r u

/-- Every run from the state returns as `R` says, or throws as `T` says. -/
def Holds (R : α → σ → Prop) (T : ε → σ → Prop) : Prog Q A ε α → σ → Prop
  | .done a, s => R a s
  | .throw e, s => T e s
  | .ask q k, s => ∀ a t, m q s a t → Holds R T (k a) t
  | .choose k, s => ∀ b, Holds R T (k b) s

/-- In some run from the state the query is asked, in the last state. -/
inductive Asked : Prog Q A ε α → σ → Q → σ → Prop where
  | here (q : Q) (k : A q → Prog Q A ε α) (s : σ) : Asked (.ask q k) s q s
  | ask {q q' : Q} {k : A q → Prog Q A ε α} {a : A q} {s t u : σ} (step : m q s a t)
      (rest : Asked (k a) t q' u) : Asked (.ask q k) s q' u
  | choose {k : Bool → Prog Q A ε α} {b : Bool} {q : Q} {s u : σ} (rest : Asked (k b) s q u) :
      Asked (.choose k) s q u

/-- Every run from the state asks each query where `G` allows it, and returns as `R` says. -/
def Guarded (G : Q → σ → Prop) (R : α → σ → Prop) : Prog Q A ε α → σ → Prop
  | .done a, s => R a s
  | .throw _, _ => True
  | .ask q k, s => G q s ∧ ∀ a t, m q s a t → Guarded G R (k a) t
  | .choose k, s => ∀ b, Guarded G R (k b) s

end Judgements

/-- `try p catch e => …`, with the error as a value. -/
def protect {Q : Type} {A : Q → Type} {ε α : Type} (p : Prog Q A ε α) : Prog Q A ε (Except ε α) :=
  (p.map Except.ok).handle fun e => .done (.error e)

/-- The machine that answers anything and logs every query with its answer. -/
def logs (Q : Type) (A : Q → Type) : Machine Q A (List ((q : Q) × A q)) :=
  fun q s a t => t = s ++ [⟨q, a⟩]

/-- The world in which a program logs what it asks, and gets any answer. -/
def queryWorld {Q : Type} (A : Q → Type) : World Q A Q where
  entry := some
  Allowed _ _ := True

/-- The program asks only queries of `S`, and returns values of `R`. -/
abbrev Asks {Q : Type} {A : Q → Type} {ε α : Type} (S : Q → Prop) (R : α → Prop)
    (p : Prog Q A ε α) : Prop := Safe (queryWorld A) S (fun _ => True) R p

section Rules
variable {Q : Type} {A : Q → Type} {σ ε α β : Type} {m : Machine Q A σ}

/-! ### What holds at the end -/

variable {R : α → σ → Prop} {T : ε → σ → Prop} {p : Prog Q A ε α} {s : σ} {I : σ → Prop}
variable {S : Q → Prop} {G : Q → σ → Prop}

theorem Holds.sound {t : σ} {r : Except ε α} (hp : Holds m R T p s) (h : Exec m p s r t) :
    (∀ a, r = .ok a → R a t) ∧ ∀ e, r = .error e → T e t := by
  induction h with
  | done a s =>
    refine ⟨?_, nofun⟩
    intro a' ha
    cases ha
    exact hp
  | throw e s =>
    refine ⟨nofun, ?_⟩
    intro e' he
    cases he
    exact hp
  | ask step _ ih => exact ih (hp _ _ step)
  | choose _ ih => exact ih (hp _)

theorem Holds.bind {R' : β → σ → Prop} {f : α → Prog Q A ε β} (hp : Holds m R T p s)
    (hf : ∀ a t, R a t → Holds m R' T (f a) t) : Holds m R' T (p >>= f) s := by
  show Holds m R' T (p.bind f) s
  induction p generalizing s with
  | done a => exact hf a s hp
  | throw e => exact hp
  | ask q k ih => exact fun a t hstep => ih a (hp a t hstep)
  | choose k ih => exact fun b => ih b (hp b)

theorem Holds.mono {R' : α → σ → Prop} {T' : ε → σ → Prop} (hp : Holds m R T p s)
    (hR : ∀ a t, R a t → R' a t) (hT : ∀ e t, T e t → T' e t) : Holds m R' T' p s := by
  induction p generalizing s with
  | done a => exact hR a s hp
  | throw e => exact hT e s hp
  | ask q k ih => exact fun a t hstep => ih a (hp a t hstep)
  | choose k ih => exact fun b => ih b (hp b)

theorem Holds.protect {T' : ε → σ → Prop} (hp : Holds m R T p s) :
    Holds m (fun x t => (∀ a, x = .ok a → R a t) ∧ ∀ e, x = .error e → T e t) T' p.protect s := by
  induction p generalizing s with
  | done a =>
    refine ⟨?_, nofun⟩
    intro a' ha
    cases ha
    exact hp
  | throw e =>
    refine ⟨nofun, ?_⟩
    intro e' he
    cases he
    exact hp
  | ask q k ih => exact fun a t hstep => ih a (hp a t hstep)
  | choose k ih => exact fun b => ih b (hp b)

/-- What every step keeps holds at the end. -/
theorem Holds.kept (hstep : ∀ q s a t, m q s a t → I s → I t) (p : Prog Q A ε α) (hs : I s) :
    Holds m (fun _ => I) (fun _ => I) p s := by
  induction p generalizing s with
  | done a => exact hs
  | throw e => exact hs
  | ask q k ih => exact fun a t hnext => ih a (hstep q s a t hnext hs)
  | choose k ih => exact fun b => ih b hs

/-! ### What a program asks -/

theorem Asks.call {S : Q → Prop} {q : Q} (h : S q) :
    Asks S (fun _ => True) (Prog.call q : Prog Q A ε (A q)) := by
  refine ⟨?_, fun _ _ => trivial⟩
  intro q' hq
  cases hq
  exact h

theorem Asks.protect (hp : Asks S (fun _ => True) p) : Asks S (fun _ => True) p.protect := by
  apply Safe.handle (Safe.map hp fun _ _ => trivial)
  exact fun _ _ => trivial

/-- Queries that keep an invariant, asked by a program, keep it. -/
theorem Asks.holds {R : α → Prop} (hS : ∀ q, S q → ∀ s a t, m q s a t → I s → I t) (hp : Asks S R p)
    (hs : I s) : Holds m (fun a t => R a ∧ I t) (fun _ => I) p s := by
  induction p generalizing s with
  | done a => exact ⟨hp, hs⟩
  | throw e => exact hs
  | ask q k ih =>
    intro a t hstep
    exact ih a (hp.2 a trivial) (hS q (hp.1 q rfl) s a t hstep hs)
  | choose k ih => exact fun b => ih b (hp b) hs

theorem Asks.weaken {S' : Q → Prop} {R R' : α → Prop} (hp : Asks S R p) (hS : ∀ q, S q → S' q)
    (hR : ∀ a, R a → R' a) : Asks S' R' p := by
  induction p with
  | done a => exact hR a hp
  | throw e => trivial
  | ask q k ih => exact ⟨fun q' hq => hS q' (hp.1 q' hq), fun a _ => ih a (hp.2 a trivial)⟩
  | choose k ih => exact fun b => ih b (hp b)

/-! ### Where a program asks -/

theorem Guarded.sound {q : Q} {u : σ} (hp : Guarded m G R p s) (h : Asked m p s q u) : G q u := by
  induction h with
  | here q k s => exact hp.1
  | ask step _ ih => exact ih (hp.2 _ _ step)
  | choose _ ih => exact ih (hp _)

theorem Guarded.bind {R' : β → σ → Prop} {f : α → Prog Q A ε β} (hp : Guarded m G R p s)
    (hf : ∀ a t, R a t → Guarded m G R' (f a) t) : Guarded m G R' (p >>= f) s := by
  show Guarded m G R' (p.bind f) s
  induction p generalizing s with
  | done a => exact hf a s hp
  | throw e => trivial
  | ask q k ih => exact ⟨hp.1, fun a t hstep => ih a (hp.2 a t hstep)⟩
  | choose k ih => exact fun b => ih b (hp b)

theorem Guarded.mono {R' : α → σ → Prop} (hp : Guarded m G R p s) (hR : ∀ a t, R a t → R' a t) :
    Guarded m G R' p s := by
  induction p generalizing s with
  | done a => exact hR a s hp
  | throw e => trivial
  | ask q k ih => exact ⟨hp.1, fun a t hstep => ih a (hp.2 a t hstep)⟩
  | choose k ih => exact fun b => ih b (hp b)

theorem Guarded.call {G : Q → σ → Prop} {q : Q} {R : A q → σ → Prop} {s : σ} (hq : G q s)
    (h : ∀ a t, m q s a t → R a t) : Guarded m G R (Prog.call q : Prog Q A ε (A q)) s := ⟨hq, h⟩

theorem Guarded.ofExcept {x : Except ε α} (hok : ∀ a, x = .ok a → R a s) :
    Guarded m G R (ofExcept x : Prog Q A ε α) s := by
  cases x with
  | ok a => exact hok a rfl
  | error e => trivial

theorem Asks.guarded {R : α → Prop} (hG : ∀ q, S q → ∀ s, I s → G q s)
    (hI : ∀ q, S q → ∀ s a t, m q s a t → I s → I t) (hp : Asks S R p) (hs : I s) :
    Guarded m G (fun a t => R a ∧ I t) p s := by
  induction p generalizing s with
  | done a => exact ⟨hp, hs⟩
  | throw e => trivial
  | ask q k ih =>
    have hq := hp.1 q rfl
    exact ⟨hG q hq s hs, fun a t hstep => ih a (hp.2 a trivial) (hI q hq s a t hstep hs)⟩
  | choose k ih => exact fun b => ih b (hp b) hs

/-! ### A machine that computes its answers -/

/-- The run in which every query gets the computed answer and leaves the computed state,
and the scheduler always picks the same side. -/
def runFrom (answer : (q : Q) → σ → A q × σ) (side : Bool) : Prog Q A ε α → σ → Except ε α × σ
  | .done a, s => (.ok a, s)
  | .throw e, s => (.error e, s)
  | .ask q k, s => runFrom answer side (k (answer q s).1) (answer q s).2
  | .choose k, s => runFrom answer side (k side) s

theorem runFrom_exec {answer : (q : Q) → σ → A q × σ}
    (h : ∀ q s, m q s (answer q s).1 (answer q s).2) (side : Bool) (p : Prog Q A ε α) (s : σ) :
    Exec m p s (runFrom answer side p s).1 (runFrom answer side p s).2 := by
  induction p generalizing s with
  | done a => exact .done a s
  | throw e => exact .throw e s
  | ask q k ih => exact .ask (h q s) (ih _ _)
  | choose k ih => exact .choose (ih side s)

/-- What that run asks, and in which states. -/
def askedFrom (answer : (q : Q) → σ → A q × σ) (side : Bool) : Prog Q A ε α → σ → List (Q × σ)
  | .done _, _ | .throw _, _ => []
  | .ask q k, s => (q, s) :: askedFrom answer side (k (answer q s).1) (answer q s).2
  | .choose k, s => askedFrom answer side (k side) s

theorem asked_of_mem {answer : (q : Q) → σ → A q × σ}
    (h : ∀ q s, m q s (answer q s).1 (answer q s).2) (side : Bool) {q : Q} {u : σ}
    (hmem : (q, u) ∈ askedFrom answer side p s) : Asked m p s q u := by
  induction p generalizing s with
  | done a => cases hmem
  | throw e => cases hmem
  | ask q' k ih =>
    rcases List.mem_cons.1 hmem with heq | hrest
    · obtain ⟨rfl, rfl⟩ := Prod.mk.inj heq
      exact .here q k u
    · exact .ask (h q' s) (ih _ hrest)
  | choose k ih => exact .choose (ih side hmem)

end Rules

end Prog

end PieLab.Lib

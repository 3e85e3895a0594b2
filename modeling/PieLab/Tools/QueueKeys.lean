import Mathlib.Data.List.ReduceOption
import PieLab.Tools.FileMutationQueue

/-
  The keys of the file mutation queue

  The calls here all name one file. They register one after another, each under the key
  it looks up: the real path while the file is there, and the path of the call while it
  is missing. Between two lookups the file may be created or removed.

  What is proved:
    1. `Settled.next` — what every step keeps: the tickets are numbered in call order,
       and the map names no call that is done.
    2. `Agreed.next` — where a lookup gives the key of the calls under way, these have
       one key.
    3. `agreed_run_serial` — in a run of such lookups the calls run one at a time and in
       call order, and leave no entry behind.
    4. `other_key_overtakes` — after any other lookup a call may run before an earlier
       one is done.
    5. `created_file_overlaps` — a call creates the file, and the next one runs beside it.

  Correspondence (TypeScript ↔ Lean), packages/coding-agent/src/core/tools/file-mutation-queue.ts:
    `getMutationQueueKey`                   ↔ `QueueCalls.lookupKey`
    `registrationQueue`                     ↔ `QueueCalls.handled`, `QueueCalls.looking`
    `withFileMutationQueue`, its steps      ↔ `QueueCalls.Next`
-/

namespace PieLab

open Lib

variable {κ : Type}

/-- The calls for one file. Call `c` is done with registering once `handled` has an entry for it: its
ticket, or `none` where the lookup threw. -/
structure QueueCalls (κ : Type) where
  /-- Whether the file is there. -/
  present : Bool
  called : Nat
  handled : List (Option Nat)
  /-- The key the next call has looked up. -/
  looking : Option κ
  queue : MutationQueue κ

inductive CallStep where
  | call
  | look
  | refuse
  | register
  | enter (ticket : Nat)
  | leave (ticket : Nat)
  | change (present : Bool)
  deriving DecidableEq, Repr

variable {s : QueueCalls κ} {c i : Nat} {e : QueueStep κ}

namespace QueueCalls

def start (present : Bool) : QueueCalls κ :=
  { present, called := 0, handled := [], looking := none, queue := .empty }

section Calls
variable (real : κ) (resolved : Nat → κ)

/-- `realpath` of a file that is there, and the resolved path of the call otherwise. -/
def lookupKey (s : QueueCalls κ) : κ := if s.present then real else resolved s.handled.length

/-- One step; the file has the real path `real`, and call `c` the resolved path `resolved c`. -/
inductive Next [DecidableEq κ] : QueueCalls κ → CallStep → QueueCalls κ → Prop where
  | call (s : QueueCalls κ) : Next s .call { s with called := s.called + 1 }
  | look {s : QueueCalls κ} (hcalled : s.handled.length < s.called) (hidle : s.looking = none) :
      Next s .look { s with looking := some (s.lookupKey real resolved) }
  /-- Another error of `realpath`. -/
  | refuse {s : QueueCalls κ} (hcalled : s.handled.length < s.called) (hidle : s.looking = none) :
      Next s .refuse { s with handled := s.handled ++ [none] }
  | register {s : QueueCalls κ} {key : κ} (hlooking : s.looking = some key) :
      Next s .register
        { s with
          handled := s.handled ++ [some s.queue.tickets.length]
          looking := none
          queue := s.queue.register key }
  | enter {s : QueueCalls κ} {ticket : Nat} {queue : MutationQueue κ}
      (hqueue : s.queue.Next (.enter ticket) queue) : Next s (.enter ticket) { s with queue }
  | leave {s : QueueCalls κ} {ticket : Nat} {queue : MutationQueue κ}
      (hqueue : s.queue.Next (.leave ticket) queue) : Next s (.leave ticket) { s with queue }
  | change (s : QueueCalls κ) (present : Bool) : Next s (.change present) { s with present }

/-- The calls under way have the key that is looked up. -/
def Agrees (s : QueueCalls κ) : Prop :=
  ∀ (i : Nat) (t : Ticket κ), s.queue.tickets[i]? = some t → t.released = false →
    t.key = s.lookupKey real resolved

def AgreedNext [DecidableEq κ] (s : QueueCalls κ) (e : CallStep) (t : QueueCalls κ) : Prop :=
  Next real resolved s e t ∧ (e = .look → s.Agrees real resolved)

end Calls

/-! ## One at a time and in call order -/

/-- The ticket of a call. -/
def Holds (s : QueueCalls κ) (c : Nat) (t : Ticket κ) : Prop :=
  ∃ i, s.handled[c]? = some (some i) ∧ s.queue.tickets[i]? = some t

def Entered (s : QueueCalls κ) (c : Nat) : Prop := ∃ t, s.Holds c t ∧ t.entered = true

/-- Whether a call is in its critical section. -/
def Inside (s : QueueCalls κ) (c : Nat) : Prop :=
  ∃ t, s.Holds c t ∧ t.entered = true ∧ t.released = false

/-- Whether a call is done, or threw when it looked up its key. -/
def Finished (s : QueueCalls κ) (c : Nat) : Prop :=
  s.handled[c]? = some none ∨ ∃ t, s.Holds c t ∧ t.released = true

/-- What the queue is for. -/
structure Serial (s : QueueCalls κ) : Prop where
  exclusive : ∀ c d, s.Inside c → s.Inside d → c = d
  ordered : ∀ c d, c < d → s.Entered d → s.Finished c
  cleared : (∀ c < s.called, s.Finished c) → ∀ key, s.queue.last key = none

theorem Holds.unique {s : QueueCalls κ} {c : Nat} {t t' : Ticket κ} (h : s.Holds c t)
    (h' : s.Holds c t') :
    t = t' := by
  obtain ⟨i, hc, ht⟩ := h
  obtain ⟨i', hc', ht'⟩ := h'
  rw [hc] at hc'
  cases hc'
  rw [ht] at ht'
  exact Option.some.inj ht'

theorem Inside.not_finished (h : s.Inside c) : ¬ s.Finished c := by
  obtain ⟨t, ht, -, hheld⟩ := h
  intro hfinished
  rcases hfinished with hnone | ⟨t', ht', hreleased⟩
  · obtain ⟨i, hc, -⟩ := ht
    rw [hnone] at hc
    cases hc
  · rw [ht.unique ht', hreleased] at hheld
    cases hheld

/-! ### What every step keeps -/

structure Settled (s : QueueCalls κ) : Prop where
  queued : Queued s.queue
  /-- The map names no call that is done. -/
  held : ∀ (k : κ) (p : Nat) (t : Ticket κ), s.queue.last k = some p → s.queue.tickets[p]? = some t →
    t.released = false
  /-- The tickets are numbered in call order. -/
  numbered : s.handled.reduceOption = List.range s.queue.tickets.length
  handled_le : s.handled.length ≤ s.called
  handled_lt : s.looking.isSome → s.handled.length < s.called

theorem Settled.start (present : Bool) : Settled (start present : QueueCalls κ) where
  queued := .empty
  held := by
    intro k p t h
    cases h
  numbered := rfl
  handled_le := Nat.le_refl 0
  handled_lt := by
    intro h
    cases h

theorem Settled.queue [DecidableEq κ] (hs : Settled s) {queue : MutationQueue κ}
    (h : s.queue.Next e queue) (hticket : e.ticket? ≠ none) : Settled { s with queue } := by
  refine ⟨hs.queued.next h, ?_, ?_, hs.handled_le, hs.handled_lt⟩
  · cases h with
    | register => exact absurd rfl hticket
    | enter =>
      intro k p t hlast ht
      obtain ⟨old, hold, rfl⟩ := getElem?_changed ht
      have hheld := hs.held k p old hlast hold
      split
      · exact hheld
      · exact hheld
    | @leave ticket =>
      intro k p t hlast ht
      obtain ⟨old, hold, rfl⟩ := getElem?_changed ht
      change (if s.queue.last k = some ticket then none else s.queue.last k) = some p at hlast
      split at hlast
      · cases hlast
      · rename_i hother
        have hne : ticket ≠ p := by
          rintro rfl
          exact hother hlast
        rw [if_neg hne]
        exact hs.held k p old hlast hold
  · have hlength : queue.tickets.length = s.queue.tickets.length := by
      cases h with
      | register => exact absurd rfl hticket
      | enter => exact List.length_modify _ _ _
      | leave => exact List.length_modify _ _ _
    rw [hlength]
    exact hs.numbered

theorem Settled.next [DecidableEq κ] {real : κ} {resolved : Nat → κ} {s' : QueueCalls κ}
    {e : CallStep} (h : Next real resolved s e s') (hs : Settled s) : Settled s' := by
  cases h with
  | call =>
    refine ⟨hs.queued, hs.held, hs.numbered, ?_, ?_⟩
    · exact Nat.le_succ_of_le hs.handled_le
    · exact fun hsome => Nat.lt_succ_of_lt (hs.handled_lt hsome)
  | look hcalled => exact ⟨hs.queued, hs.held, hs.numbered, hs.handled_le, fun _ => hcalled⟩
  | refuse hcalled hidle =>
    refine ⟨hs.queued, hs.held, ?_, ?_, ?_⟩
    · rw [List.reduceOption_append, hs.numbered]
      simp
    · simpa [Nat.succ_le_iff] using hcalled
    · intro hsome
      rw [hidle] at hsome
      cases hsome
  | @register key hlooking =>
    have hcalled := hs.handled_lt (by rw [hlooking]; rfl)
    refine ⟨hs.queued.register key, ?_, ?_, ?_, ?_⟩
    · intro k p t hlast ht
      change (if k = key then some s.queue.tickets.length else s.queue.last k) = some p at hlast
      rcases getElem?_register ht with ⟨hlt, hold⟩ | ⟨rfl, rfl⟩
      · split at hlast
        · cases hlast
          omega
        · exact hs.held k p t hlast hold
      · rfl
    · rw [List.reduceOption_append, hs.numbered]
      simp [MutationQueue.register, List.range_succ]
    · simpa [Nat.succ_le_iff] using hcalled
    · nofun
  | enter hqueue => exact hs.queue hqueue nofun
  | leave hqueue => exact hs.queue hqueue nofun
  | change => exact ⟨hs.queued, hs.held, hs.numbered, hs.handled_le, hs.handled_lt⟩

theorem Settled.exists_call (hs : Settled s) (hi : i < s.queue.tickets.length) :
    ∃ c : Nat, s.handled[c]? = some (some i) := by
  have hmem : i ∈ s.handled.reduceOption := by
    rw [hs.numbered]
    exact List.mem_range.mpr hi
  rw [List.reduceOption_mem_iff] at hmem
  exact List.mem_iff_getElem?.mp hmem

theorem Settled.ticket_lt (hs : Settled s) {d j : Nat} (hcd : c < d)
    (hc : s.handled[c]? = some (some i)) (hd : s.handled[d]? = some (some j)) : i < j := by
  have hpairwise : s.handled.reduceOption.Pairwise (· < ·) := by
    rw [hs.numbered]
    exact List.pairwise_lt_range
  unfold List.reduceOption at hpairwise
  rw [List.pairwise_filterMap, List.pairwise_iff_getElem] at hpairwise
  obtain ⟨hclt, hc⟩ := List.getElem?_eq_some_iff.mp hc
  obtain ⟨hdlt, hd⟩ := List.getElem?_eq_some_iff.mp hd
  exact hpairwise c d hclt hdlt hcd i hc j hd

/-! ### Where the lookups agree -/

section Calls
variable {real : κ} {resolved : Nat → κ}

/-- The calls under way have one key, which is also the key just looked up. -/
structure Agreed (s : QueueCalls κ) : Prop where
  settled : Settled s
  sameKey : ∀ (i j : Nat) (ti tj : Ticket κ), i < j → s.queue.tickets[i]? = some ti →
    s.queue.tickets[j]? = some tj → ti.released = false → ti.key = tj.key
  looked : ∀ (k : κ), s.looking = some k → ∀ (i : Nat) (t : Ticket κ), s.queue.tickets[i]? = some t →
    t.released = false → t.key = k

theorem Agreed.start (present : Bool) : Agreed (start present : QueueCalls κ) where
  settled := .start present
  sameKey := by
    intro i j ti tj _ h
    cases h
  looked := by
    intro k h
    cases h

theorem tickets_of_next [DecidableEq κ] {q q' : MutationQueue κ} (h : q.Next e q')
    (hticket : e.ticket? ≠ none) {t : Ticket κ} (ht : q'.tickets[i]? = some t) :
    ∃ old, q.tickets[i]? = some old ∧ t.key = old.key ∧ (t.released = false → old.released = false) := by
  cases h with
  | register => exact absurd rfl hticket
  | @enter ticket =>
    obtain ⟨old, hold, rfl⟩ := getElem?_changed ht
    refine ⟨old, hold, ?_⟩
    split <;> exact ⟨rfl, fun h => h⟩
  | @leave ticket =>
    obtain ⟨old, hold, rfl⟩ := getElem?_changed ht
    refine ⟨old, hold, ?_⟩
    split
    · exact ⟨rfl, nofun⟩
    · exact ⟨rfl, fun h => h⟩

theorem Agreed.queue [DecidableEq κ] (hs : Agreed s) {queue : MutationQueue κ}
    (h : s.queue.Next e queue) (hticket : e.ticket? ≠ none) : Agreed { s with queue } := by
  refine ⟨hs.settled.queue h hticket, ?_, ?_⟩
  · intro i j ti tj hij hi hj hheld
    obtain ⟨oldi, hoi, hki, hri⟩ := tickets_of_next h hticket hi
    obtain ⟨oldj, hoj, hkj, -⟩ := tickets_of_next h hticket hj
    rw [hki, hkj]
    exact hs.sameKey i j oldi oldj hij hoi hoj (hri hheld)
  · intro k hk i t ht hheld
    obtain ⟨old, hold, hkey, hreleased⟩ := tickets_of_next h hticket ht
    rw [hkey]
    exact hs.looked k hk i old hold (hreleased hheld)

theorem Agreed.next [DecidableEq κ] {s' : QueueCalls κ} {e : CallStep}
    (h : AgreedNext real resolved s e s') (hs : Agreed s) : Agreed s' := by
  obtain ⟨hnext, hagrees⟩ := h
  have hsettled := hs.settled.next hnext
  cases hnext with
  | call => exact ⟨hsettled, hs.sameKey, hs.looked⟩
  | look =>
    refine ⟨hsettled, hs.sameKey, ?_⟩
    intro k hk i t ht hheld
    cases hk
    exact hagrees rfl i t ht hheld
  | refuse => exact ⟨hsettled, hs.sameKey, hs.looked⟩
  | @register key hlooking =>
    refine ⟨hsettled, ?_, nofun⟩
    intro i j ti tj hij hi hj hheld
    rcases getElem?_register hi with ⟨hilt, hi⟩ | ⟨rfl, rfl⟩
    · rcases getElem?_register hj with ⟨-, hj⟩ | ⟨-, rfl⟩
      · exact hs.sameKey i j ti tj hij hi hj hheld
      · exact hs.looked key hlooking i ti hi hheld
    · -- nothing is registered behind the new ticket
      rcases getElem?_register hj with ⟨hjlt, -⟩ | ⟨hj, -⟩ <;> omega
  | enter hqueue => exact hs.queue hqueue nofun
  | leave hqueue => exact hs.queue hqueue nofun
  | change => exact ⟨hsettled, hs.sameKey, hs.looked⟩

theorem Agreed.ordered (hs : Agreed s) {d : Nat} (hcd : c < d) (hd : s.Entered d) :
    s.Finished c := by
  obtain ⟨tj, ⟨j, hj, htj⟩, hentered⟩ := hd
  have hclt : c < s.handled.length := Nat.lt_trans hcd (List.getElem?_eq_some_iff.mp hj).1
  cases hc : s.handled[c]? with
  | none =>
    rw [List.getElem?_eq_none_iff] at hc
    omega
  | some o =>
    cases o with
    | none => exact .inl hc
    | some i =>
      have hij := hs.settled.ticket_lt hcd hc hj
      have hilt : i < s.queue.tickets.length :=
        Nat.lt_trans hij (List.getElem?_eq_some_iff.mp htj).1
      obtain ⟨ti, hti⟩ : ∃ ti, s.queue.tickets[i]? = some ti := ⟨_, List.getElem?_eq_getElem hilt⟩
      refine .inr ⟨ti, ⟨i, hc, hti⟩, ?_⟩
      by_contra hheld
      have hkey := hs.sameKey i j ti tj hij hti htj (by simpa using hheld)
      exact hheld (hs.settled.queued.before j tj htj hentered i ti hij hti hkey)

theorem Settled.cleared (hs : Settled s) (hall : ∀ c < s.called, s.Finished c) (key : κ) :
    s.queue.last key = none := by
  cases hlast : s.queue.last key with
  | none => rfl
  | some p =>
    obtain ⟨⟨t, ht, -⟩, -⟩ := hs.queued.named key p hlast
    have hheld := hs.held key p t hlast ht
    obtain ⟨c, hc⟩ := hs.exists_call (List.getElem?_eq_some_iff.mp ht).1
    have hlt : c < s.called := Nat.lt_of_lt_of_le (List.getElem?_eq_some_iff.mp hc).1 hs.handled_le
    rcases hall c hlt with hnone | ⟨t', ht', hreleased⟩
    · rw [hc] at hnone
      cases hnone
    · have hsame : s.Holds c t := ⟨p, hc, ht⟩
      rw [hsame.unique ht', hreleased] at hheld
      cases hheld

theorem Agreed.serial (hs : Agreed s) : Serial s where
  ordered _ _ hcd hd := hs.ordered hcd hd
  cleared hall key := hs.settled.cleared hall key
  exclusive := by
    have entered : ∀ {c}, s.Inside c → s.Entered c := fun ⟨t, ht, hin, _⟩ => ⟨t, ht, hin⟩
    intro c d hc hd
    rcases Nat.lt_trichotomy c d with hlt | heq | hgt
    · exact absurd (hs.ordered hlt (entered hd)) hc.not_finished
    · exact heq
    · exact absurd (hs.ordered hgt (entered hc)) hd.not_finished

/-- In a run in which every lookup gives the key of the calls under way, the calls run one at a time and
in call order, and the map is empty once they are done. -/
theorem agreed_run_serial [DecidableEq κ] {present : Bool} {steps : List CallStep}
    {s : QueueCalls κ}
    (hrun : Run (AgreedNext real resolved) (start present) steps s) : Serial s := by
  have hagreed : Agreed s := hrun.invariant (.start present) fun _ _ _ hstep h => h.next hstep
  exact hagreed.serial

/-- A call that has looked up another key than a call under way may enter before that one is done. -/
theorem other_key_overtakes [DecidableEq κ] {present : Bool} {steps : List CallStep}
    {s t : QueueCalls κ}
    (hrun : Run (AgreedNext real resolved) (start present) steps s)
    (hlook : Next real resolved s .look t) (hother : ¬ s.Agrees real resolved) :
    ∃ steps' u, Run (Next real resolved) t steps' u ∧ ¬ Serial u := by
  have hagreed : Agreed s := hrun.invariant (.start present) fun _ _ _ hstep h => h.next hstep
  obtain ⟨i, ti, hti, hheld, hkey⟩ : ∃ (i : Nat) (ti : Ticket κ), s.queue.tickets[i]? = some ti ∧
      ti.released = false ∧ ti.key ≠ s.lookupKey real resolved := by
    unfold Agrees at hother
    push Not at hother
    exact hother
  -- the calls of the other key are done, so nothing is waited for
  have hlast : s.queue.last (s.lookupKey real resolved) = none := by
    cases hlast : s.queue.last (s.lookupKey real resolved) with
    | none => rfl
    | some p =>
      obtain ⟨⟨tp, htp, hkeyp⟩, -⟩ := hagreed.settled.queued.named _ p hlast
      have hheldp := hagreed.settled.held _ p tp hlast htp
      rcases Nat.lt_trichotomy i p with hlt | rfl | hgt
      · exact absurd ((hagreed.sameKey i p ti tp hlt hti htp hheld).trans hkeyp) hkey
      · rw [hti] at htp
        cases htp
        exact absurd hkeyp hkey
      · exact absurd ((hagreed.sameKey p i tp ti hgt htp hti hheldp).symm.trans hkeyp) hkey
  obtain ⟨c, hc⟩ := hagreed.settled.exists_call (List.getElem?_eq_some_iff.mp hti).1
  cases hlook with
  | look hcalled hidle =>
    let key := s.lookupKey real resolved
    let ticket : Ticket κ := { key, predecessor := none, entered := false, released := false }
    let queue := s.queue.register key
    have hticket : queue.tickets[s.queue.tickets.length]? = some ticket := by
      show (s.queue.tickets ++ [{ ticket with predecessor := s.queue.last key }])[_]? = _
      rw [List.getElem?_append_right (Nat.le_refl _), Nat.sub_self, hlast]
      rfl
    have henter : queue.Next (.enter s.queue.tickets.length) (queue.enter s.queue.tickets.length) :=
      .enter hticket rfl nofun
    refine ⟨[.register, .enter s.queue.tickets.length], _,
      .cons (.register rfl) (.single (.enter henter)), ?_⟩
    intro hserial
    have hclt := (List.getElem?_eq_some_iff.mp hc).1
    have hilt := (List.getElem?_eq_some_iff.mp hti).1
    have hfinished := hserial.ordered c s.handled.length hclt ?_
    · -- the earlier call still has its ticket
      have hearlier : (s.handled ++ [some s.queue.tickets.length])[c]? = some (some i) := by
        rw [List.getElem?_append_left hclt]
        exact hc
      have hstill : (queue.enter s.queue.tickets.length).tickets[i]? = some ti := by
        show ((s.queue.tickets ++ _).modify s.queue.tickets.length _)[i]? = some ti
        rw [List.getElem?_modify, List.getElem?_append_left hilt, hti]
        simp [Nat.ne_of_gt hilt]
      rcases hfinished with hnone | ⟨t', ⟨i', hc', ht'⟩, hreleased⟩
      · rw [hearlier] at hnone
        cases hnone
      · rw [hearlier] at hc'
        cases hc'
        rw [hstill] at ht'
        cases ht'
        rw [hheld] at hreleased
        cases hreleased
    · refine ⟨{ ticket with entered := true }, ⟨s.queue.tickets.length, ?_, ?_⟩, rfl⟩
      · show (s.handled ++ [some s.queue.tickets.length])[s.handled.length]? = _
        rw [List.getElem?_append_right (Nat.le_refl _), Nat.sub_self]
        rfl
      · show (queue.tickets.modify s.queue.tickets.length _)[s.queue.tickets.length]? = _
        rw [List.getElem?_modify, hticket]
        simp

end Calls

section Examples

/-- The directory of both calls is a link. -/
def linkedPath (_ : Nat) : String := "/link/f"

/-- Two calls of one path while the file is there: the second one waits for the first. -/
def waitingSteps : List CallStep :=
  [.call, .call, .look, .register, .enter 0, .look, .register, .leave 0, .enter 1, .leave 1]

theorem agreed_run_serial_example :
    ∃ s, Run (AgreedNext "/real/f" linkedPath) (start true) waitingSteps s ∧ s.Finished 0 ∧ s.Finished 1 ∧
      Serial s := by
  obtain ⟨s, hrun, hfirst, hsecond⟩ : ∃ s, Run (AgreedNext "/real/f" linkedPath) (start true) waitingSteps s ∧
      s.Finished 0 ∧ s.Finished 1 := by
    refine ⟨_, .cons ⟨.call _, nofun⟩ (.cons ⟨.call _, nofun⟩ (.cons ⟨.look (by decide) rfl, ?_⟩
      (.cons ⟨.register rfl, nofun⟩ (.cons ⟨.enter (.enter rfl rfl nofun), nofun⟩
        (.cons ⟨.look (by decide) rfl, ?_⟩ (.cons ⟨.register rfl, nofun⟩
          (.cons ⟨.leave (.leave rfl rfl rfl), nofun⟩ (.cons ⟨.enter (.enter rfl rfl ?_), nofun⟩
            (.single ⟨.leave (.leave rfl rfl rfl), nofun⟩))))))))), ?_, ?_⟩
    · intro _ i t ht
      cases ht
    · intro _ i t ht _
      cases i with
      | zero => cases ht; rfl
      | succ i => cases ht
    · rintro p ⟨⟩
      rfl
    · exact .inr ⟨_, ⟨0, rfl, rfl⟩, rfl⟩
    · exact .inr ⟨_, ⟨1, rfl, rfl⟩, rfl⟩
  exact ⟨s, hrun, hfirst, hsecond, agreed_run_serial hrun⟩

/-- The first call creates the file, and the second looks it up. -/
theorem other_key_overtakes_example :
    ∃ s t, Run (AgreedNext "/real/f" linkedPath) (start false) [.call, .look, .register, .change true, .call] s ∧
      ∃ steps u, Run (Next "/real/f" linkedPath) t steps u ∧ ¬ Serial u := by
  have hagrees : ({ start false with called := 1 } : QueueCalls String).Agrees "/real/f" linkedPath := by
    intro i t ht
    cases ht
  have hrun : Run (AgreedNext "/real/f" linkedPath) (start false) [.call, .look, .register, .change true, .call] _ :=
    .cons ⟨.call _, nofun⟩ (.cons ⟨.look (Nat.lt_succ_self 0) rfl, fun _ => hagrees⟩
      (.cons ⟨.register rfl, nofun⟩ (.cons ⟨.change _ true, nofun⟩ (.single ⟨.call _, nofun⟩))))
  exact ⟨_, _, hrun, other_key_overtakes hrun (.look (Nat.lt_succ_self 1) rfl) fun hagrees =>
    absurd (hagrees 0 _ rfl rfl) (by decide)⟩

/-- Two calls of one path: the first one creates the file, and the second one runs beside it. -/
def createdSteps : List CallStep :=
  [.call, .look, .register, .enter 0, .change true, .call, .look, .register, .enter 1]

theorem created_file_overlaps :
    ∃ s, Run (Next "/real/f" linkedPath) (start false) createdSteps s ∧ s.Inside 0 ∧ s.Inside 1 ∧
      ¬ Serial s := by
  have hrun : ∃ s, Run (Next "/real/f" linkedPath) (start false) createdSteps s ∧ s.Inside 0 ∧
      s.Inside 1 := by
    refine ⟨_, .cons (.call _) (.cons (.look (Nat.lt_succ_self 0) rfl) (.cons (.register rfl)
      (.cons (.enter (.enter rfl rfl nofun)) (.cons (.change _ true) (.cons (.call _)
        (.cons (.look (Nat.lt_succ_self 1) rfl) (.cons (.register rfl)
          (.single (.enter (.enter rfl rfl nofun)))))))))), ?_, ?_⟩
    · exact ⟨_, ⟨0, rfl, rfl⟩, rfl, rfl⟩
    · exact ⟨_, ⟨1, rfl, rfl⟩, rfl, rfl⟩
  obtain ⟨s, hsteps, hfirst, hsecond⟩ := hrun
  refine ⟨s, hsteps, hfirst, hsecond, ?_⟩
  intro hserial
  cases hserial.exclusive 0 1 hfirst hsecond

end Examples

end QueueCalls
end PieLab

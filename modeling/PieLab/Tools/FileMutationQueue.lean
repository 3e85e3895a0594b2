import PieLab.Lib.Runs

/-
  The file mutation queue

  A call registers under the key of its file, waits until the call registered
  before it under this key has released the queue, runs, and releases it. The map
  holds the last call of each key until that call is done.

  What is proved:
    1. `Queued.next` — every step keeps the invariant.
    2. `Queued.exclusive` — of the calls of one key at most one is inside.

  Correspondence (TypeScript ↔ Lean): packages/coding-agent/src/core/tools/file-mutation-queue.ts
    `chainedQueue`, `currentQueue` ↔ a ticket, its `predecessor`
    `fileMutationQueues`           ↔ `MutationQueue.last`
    `releaseNext()` and the delete ↔ `MutationQueue.leave`
-/

namespace PieLab

variable {i j : Nat}

section Queue
variable {κ : Type}

/-- A registered call: the promise it waits for is that of the ticket before it. -/
structure Ticket (κ : Type) where
  key : κ
  predecessor : Option Nat
  entered : Bool
  released : Bool
  deriving DecidableEq, Repr

/-- The tickets in the order of their registration, and the last one of each key. -/
structure MutationQueue (κ : Type) where
  tickets : List (Ticket κ)
  last : κ → Option Nat

def MutationQueue.empty : MutationQueue κ := { tickets := [], last := fun _ => none }

def MutationQueue.register [DecidableEq κ] (q : MutationQueue κ) (key : κ) : MutationQueue κ where
  tickets := q.tickets ++ [{ key, predecessor := q.last key, entered := false, released := false }]
  last := fun k => if k = key then some q.tickets.length else q.last k

/-- Whether the promise of a ticket is resolved. -/
def MutationQueue.isReleased (q : MutationQueue κ) (ticket : Nat) : Bool :=
  (q.tickets[ticket]?).any Ticket.released

def MutationQueue.enter (q : MutationQueue κ) (ticket : Nat) : MutationQueue κ :=
  { q with tickets := q.tickets.modify ticket fun t => { t with entered := true } }

def MutationQueue.leave (q : MutationQueue κ) (ticket : Nat) : MutationQueue κ where
  tickets := q.tickets.modify ticket fun t => { t with released := true }
  last := fun k => if q.last k = some ticket then none else q.last k

inductive QueueStep (κ : Type) where
  | register (key : κ)
  | enter (ticket : Nat)
  | leave (ticket : Nat)
  deriving DecidableEq, Repr

/-- One step of the queue. -/
inductive MutationQueue.Next [DecidableEq κ] :
    MutationQueue κ → QueueStep κ → MutationQueue κ → Prop where
  | register (q : MutationQueue κ) (key : κ) : Next q (.register key) (q.register key)
  | enter {q : MutationQueue κ} {ticket : Nat} {t : Ticket κ} (ht : q.tickets[ticket]? = some t)
      (hout : t.entered = false) (hfree : ∀ p, t.predecessor = some p → q.isReleased p = true) :
      Next q (.enter ticket) (q.enter ticket)
  | leave {q : MutationQueue κ} {ticket : Nat} {t : Ticket κ} (ht : q.tickets[ticket]? = some t)
      (hin : t.entered = true) (hheld : t.released = false) :
      Next q (.leave ticket) (q.leave ticket)

/-! ## Exclusion -/

/-- The tickets of a key before an index have been released. -/
def DoneBelow (tickets : List (Ticket κ)) (i : Nat) (key : κ) : Prop :=
  ∀ (s : Nat) (t : Ticket κ), s < i → tickets[s]? = some t → t.key = key → t.released = true

/-- What holds of the queue after every step. -/
structure Queued (q : MutationQueue κ) : Prop where
  /-- A ticket is released after it was entered. -/
  order : ∀ (i : Nat) (t : Ticket κ), q.tickets[i]? = some t → t.released = true →
    t.entered = true
  /-- The calls before one that has entered are done. -/
  before : ∀ (i : Nat) (t : Ticket κ), q.tickets[i]? = some t → t.entered = true →
    DoneBelow q.tickets i t.key
  /-- The predecessor is the last ticket of the key before this one. -/
  chain : ∀ (i : Nat) (t : Ticket κ) (p : Nat), q.tickets[i]? = some t → t.predecessor = some p →
    (∃ tp, q.tickets[p]? = some tp ∧ tp.key = t.key) ∧
      ∀ (s : Nat) (ts : Ticket κ), p < s → s < i → q.tickets[s]? = some ts → ts.key ≠ t.key
  /-- Without a predecessor there is nothing left to wait for. -/
  free : ∀ (i : Nat) (t : Ticket κ), q.tickets[i]? = some t → t.predecessor = none →
    DoneBelow q.tickets i t.key
  /-- The map names the last ticket of a key, -/
  named : ∀ (k : κ) (p : Nat), q.last k = some p → (∃ t, q.tickets[p]? = some t ∧ t.key = k) ∧
    ∀ (s : Nat) (ts : Ticket κ), p < s → q.tickets[s]? = some ts → ts.key ≠ k
  /-- or all its tickets are done. -/
  unnamed : ∀ k : κ, q.last k = none → DoneBelow q.tickets q.tickets.length k

theorem Queued.empty : Queued (MutationQueue.empty : MutationQueue κ) := by
  refine ⟨?_, ?_, ?_, ?_, ?_, ?_⟩
  · intro i t h; cases h
  · intro i t h; cases h
  · intro i t p h; cases h
  · intro i t h; cases h
  · intro k p h; cases h
  · intro k _ s t _ h; cases h

variable {q q' : MutationQueue κ} {key : κ} {t : Ticket κ} {f : Ticket κ → Ticket κ}
variable {e : QueueStep κ}

theorem getElem?_register [DecidableEq κ] (h : (q.register key).tickets[i]? = some t) :
    (i < q.tickets.length ∧ q.tickets[i]? = some t) ∨ (i = q.tickets.length ∧
      t = { key, predecessor := q.last key, entered := false, released := false }) := by
  unfold MutationQueue.register at h
  rcases Nat.lt_trichotomy i q.tickets.length with hlt | heq | hgt
  · rw [List.getElem?_append_left hlt] at h
    exact .inl ⟨hlt, h⟩
  · rw [heq, List.getElem?_append_right (Nat.le_refl _), Nat.sub_self] at h
    cases h
    exact .inr ⟨heq, rfl⟩
  · rw [List.getElem?_eq_none (by rw [List.length_append, List.length_singleton]; omega)] at h
    cases h

theorem DoneBelow.register [DecidableEq κ] {q : MutationQueue κ} {i : Nat} {k : κ}
    (h : DoneBelow q.tickets i k)
    (hi : i ≤ q.tickets.length) (key : κ) : DoneBelow (q.register key).tickets i k := by
  intro s t hs ht hk
  rcases getElem?_register ht with ⟨-, ht⟩ | ⟨he, -⟩
  · exact h s t hs ht hk
  · omega

theorem Queued.register [DecidableEq κ] {q : MutationQueue κ} (hq : Queued q) (key : κ) :
    Queued (q.register key) := by
  refine ⟨?_, ?_, ?_, ?_, ?_, ?_⟩
  · intro i t ht hr
    rcases getElem?_register ht with ⟨-, ht⟩ | ⟨-, rfl⟩
    · exact hq.order i t ht hr
    · cases hr
  · intro i t ht hin
    rcases getElem?_register ht with ⟨hi, ht⟩ | ⟨-, rfl⟩
    · exact (hq.before i t ht hin).register (Nat.le_of_lt hi) key
    · cases hin
  · intro i t p ht hp
    rcases getElem?_register ht with ⟨hi, ht⟩ | ⟨rfl, rfl⟩
    · obtain ⟨⟨tp, htp, hkey⟩, hbetween⟩ := hq.chain i t p ht hp
      refine ⟨⟨tp, ?_, hkey⟩, ?_⟩
      · have hlt := (List.getElem?_eq_some_iff.mp htp).1
        unfold MutationQueue.register
        rw [List.getElem?_append_left hlt]
        exact htp
      · intro s ts hps hsi hts
        rcases getElem?_register hts with ⟨-, hts⟩ | ⟨he, -⟩
        · exact hbetween s ts hps hsi hts
        · omega
    · obtain ⟨⟨tp, htp, hkey⟩, hlater⟩ := hq.named key p hp
      refine ⟨⟨tp, ?_, hkey⟩, ?_⟩
      · have hlt := (List.getElem?_eq_some_iff.mp htp).1
        unfold MutationQueue.register
        rw [List.getElem?_append_left hlt]
        exact htp
      · intro s ts hps hsi hts
        rcases getElem?_register hts with ⟨-, hts⟩ | ⟨he, -⟩
        · exact hlater s ts hps hts
        · omega
  · intro i t ht hp
    rcases getElem?_register ht with ⟨hi, ht⟩ | ⟨rfl, rfl⟩
    · exact (hq.free i t ht hp).register (Nat.le_of_lt hi) key
    · exact (hq.unnamed key hp).register (Nat.le_refl _) key
  · intro k p hp
    unfold MutationQueue.register at hp
    dsimp only at hp
    split at hp
    · rename_i hk
      cases hp
      refine ⟨⟨{ key, predecessor := q.last key, entered := false, released := false },
        ?_, hk.symm⟩, ?_⟩
      · unfold MutationQueue.register
        rw [List.getElem?_append_right (Nat.le_refl _), Nat.sub_self]
        rfl
      · intro s ts hps hts
        rcases getElem?_register hts with ⟨hs, -⟩ | ⟨he, -⟩
        · omega
        · omega
    · rename_i hk
      obtain ⟨⟨tp, htp, hkey⟩, hlater⟩ := hq.named k p hp
      refine ⟨⟨tp, ?_, hkey⟩, ?_⟩
      · have hlt := (List.getElem?_eq_some_iff.mp htp).1
        unfold MutationQueue.register
        rw [List.getElem?_append_left hlt]
        exact htp
      · intro s ts hps hts
        rcases getElem?_register hts with ⟨-, hts⟩ | ⟨-, rfl⟩
        · exact hlater s ts hps hts
        · exact fun he => hk he.symm
  · intro k hk s t hs ht hkey
    unfold MutationQueue.register at hk
    dsimp only at hk
    split at hk
    · cases hk
    · rename_i hne
      rcases getElem?_register ht with ⟨hlt, ht⟩ | ⟨-, rfl⟩
      · exact hq.unnamed k hk s t hlt ht hkey
      · exact absurd hkey.symm hne

/-! Entering and leaving change a flag of one ticket. -/

theorem getElem?_changed {tickets : List (Ticket κ)} (h : (tickets.modify j f)[i]? = some t) :
    ∃ old, tickets[i]? = some old ∧ t = if j = i then f old else old := by
  rw [List.getElem?_modify] at h
  obtain ⟨old, hold, he⟩ := Option.map_eq_some_iff.mp h
  exact ⟨old, hold, he.symm⟩

theorem DoneBelow.changed {tickets : List (Ticket κ)} {k : κ} (hkey : ∀ t, (f t).key = t.key)
    (hreleased : ∀ t, t.released = true → (f t).released = true) (h : DoneBelow tickets i k) :
    DoneBelow (tickets.modify j f) i k := by
  intro s t hs ht hk
  obtain ⟨old, hold, rfl⟩ := getElem?_changed ht
  split at hk
  · rename_i he
    rw [if_pos he]
    rw [hkey] at hk
    exact hreleased old (h s old hs hold hk)
  · rename_i he
    rw [if_neg he]
    exact h s old hs hold hk

theorem Queued.chain_changed (hq : Queued q) (hkey : ∀ t, (f t).key = t.key)
    (hpred : ∀ t, (f t).predecessor = t.predecessor) (i : Nat) (t : Ticket κ) (p : Nat)
    (ht : (q.tickets.modify j f)[i]? = some t) (hp : t.predecessor = some p) :
    (∃ tp, (q.tickets.modify j f)[p]? = some tp ∧ tp.key = t.key) ∧
      ∀ (s : Nat) (ts : Ticket κ), p < s → s < i → (q.tickets.modify j f)[s]? = some ts →
        ts.key ≠ t.key := by
  have hsame : ∀ old, (if j = i then f old else old).key = old.key := by
    intro old
    split
    · exact hkey old
    · rfl
  obtain ⟨old, hold, rfl⟩ := getElem?_changed ht
  have hp' : old.predecessor = some p := by
    split at hp
    · rw [hpred] at hp; exact hp
    · exact hp
  obtain ⟨⟨tp, htp, hk⟩, hbetween⟩ := hq.chain i old p hold hp'
  rw [hsame]
  refine ⟨⟨if j = p then f tp else tp, ?_, ?_⟩, ?_⟩
  · rw [List.getElem?_modify, htp]; rfl
  · split
    · rw [hkey]; exact hk
    · exact hk
  · intro s ts hps hsi hts
    obtain ⟨olds, holds, rfl⟩ := getElem?_changed hts
    have hne := hbetween s olds hps hsi holds
    split
    · rw [hkey]; exact hne
    · exact hne

theorem Queued.named_changed (hq : Queued q) (f : Ticket κ → Ticket κ)
    (hkey : ∀ t, (f t).key = t.key) (k : κ) (p : Nat) (hp : q.last k = some p) :
    (∃ t, (q.tickets.modify j f)[p]? = some t ∧ t.key = k) ∧
      ∀ (s : Nat) (ts : Ticket κ), p < s → (q.tickets.modify j f)[s]? = some ts → ts.key ≠ k := by
  obtain ⟨⟨tp, htp, hk⟩, hlater⟩ := hq.named k p hp
  refine ⟨⟨if j = p then f tp else tp, ?_, ?_⟩, ?_⟩
  · rw [List.getElem?_modify, htp]; rfl
  · split
    · rw [hkey]; exact hk
    · exact hk
  · intro s ts hps hts
    obtain ⟨olds, holds, rfl⟩ := getElem?_changed hts
    have hne := hlater s olds hps holds
    split
    · rw [hkey]; exact hne
    · exact hne

theorem Queued.done_of_free (hq : Queued q) (ht : q.tickets[i]? = some t)
    (hfree : ∀ p, t.predecessor = some p → q.isReleased p = true) :
    DoneBelow q.tickets i t.key := by
  cases hp : t.predecessor with
  | none => exact hq.free i t ht hp
  | some p =>
    obtain ⟨⟨tp, htp, hkey⟩, hbetween⟩ := hq.chain i t p ht hp
    have hreleased : tp.released = true := by
      have h := hfree p hp
      unfold MutationQueue.isReleased at h
      rw [htp, Option.any_some] at h
      exact h
    have hdone := hq.before p tp htp (hq.order p tp htp hreleased)
    intro s ts hs hts hk
    rcases Nat.lt_trichotomy s p with hlt | rfl | hgt
    · exact hdone s ts hlt hts (hk.trans hkey.symm)
    · rw [hts] at htp
      cases htp
      exact hreleased
    · exact absurd hk (hbetween s ts hgt hs hts)

theorem Queued.enter {q : MutationQueue κ} (hq : Queued q) {ticket : Nat} {t : Ticket κ}
    (ht : q.tickets[ticket]? = some t)
    (hfree : ∀ p, t.predecessor = some p → q.isReleased p = true) : Queued (q.enter ticket) := by
  have hdone : ∀ {i : Nat} {k : κ}, DoneBelow q.tickets i k →
      DoneBelow (q.enter ticket).tickets i k :=
    fun h => h.changed (fun _ => rfl) (fun _ h => h)
  have hbelow := hq.done_of_free ht hfree
  refine ⟨?_, ?_, ?_, ?_, ?_, ?_⟩
  · intro i t' ht' hr
    obtain ⟨old, hold, rfl⟩ := getElem?_changed ht'
    split at hr
    · rename_i he
      rw [if_pos he]
    · rename_i he
      rw [if_neg he]
      exact hq.order i old hold hr
  · intro i t' ht' hin
    obtain ⟨old, hold, rfl⟩ := getElem?_changed ht'
    by_cases he : ticket = i
    · subst he
      rw [ht] at hold
      cases hold
      rw [if_pos rfl]
      exact hdone hbelow
    · rw [if_neg he] at hin ⊢
      exact hdone (hq.before i old hold hin)
  · exact hq.chain_changed (fun _ => rfl) fun _ => rfl
  · intro i t' ht' hp
    obtain ⟨old, hold, rfl⟩ := getElem?_changed ht'
    split at hp
    · rename_i he
      rw [if_pos he]
      exact hdone (hq.free i old hold hp)
    · rename_i he
      rw [if_neg he]
      exact hdone (hq.free i old hold hp)
  · exact hq.named_changed _ fun _ => rfl
  · intro k hk
    have hlen : (q.enter ticket).tickets.length = q.tickets.length := List.length_modify _ _ _
    rw [hlen]
    exact hdone (hq.unnamed k hk)

theorem Queued.leave {q : MutationQueue κ} (hq : Queued q) {ticket : Nat} {t : Ticket κ}
    (ht : q.tickets[ticket]? = some t) (hin : t.entered = true) : Queued (q.leave ticket) := by
  have hdone : ∀ {i : Nat} {k : κ}, DoneBelow q.tickets i k →
      DoneBelow (q.leave ticket).tickets i k :=
    fun h => h.changed (fun _ => rfl) (fun _ _ => rfl)
  refine ⟨?_, ?_, ?_, ?_, ?_, ?_⟩
  · intro i t' ht' hr
    obtain ⟨old, hold, rfl⟩ := getElem?_changed ht'
    by_cases he : ticket = i
    · subst he
      rw [ht] at hold
      cases hold
      rw [if_pos rfl]
      exact hin
    · rw [if_neg he] at hr ⊢
      exact hq.order i old hold hr
  · intro i t' ht' hin'
    obtain ⟨old, hold, rfl⟩ := getElem?_changed ht'
    split at hin'
    · rename_i he
      rw [if_pos he]
      exact hdone (hq.before i old hold hin')
    · rename_i he
      rw [if_neg he]
      exact hdone (hq.before i old hold hin')
  · exact hq.chain_changed (fun _ => rfl) fun _ => rfl
  · intro i t' ht' hp
    obtain ⟨old, hold, rfl⟩ := getElem?_changed ht'
    split at hp
    · rename_i he
      rw [if_pos he]
      exact hdone (hq.free i old hold hp)
    · rename_i he
      rw [if_neg he]
      exact hdone (hq.free i old hold hp)
  · intro k p hp
    unfold MutationQueue.leave at hp
    dsimp only at hp
    split at hp
    · cases hp
    · exact hq.named_changed (fun t => { t with released := true }) (fun _ => rfl) k p hp
  · intro k hk s t' hs ht' hkey
    have hlen : (q.leave ticket).tickets.length = q.tickets.length := List.length_modify _ _ _
    rw [hlen] at hs
    unfold MutationQueue.leave at hk
    dsimp only at hk
    split at hk
    · rename_i hlast
      -- the ticket was the last one of its key
      obtain ⟨⟨tp, htp, hk'⟩, hlater⟩ := hq.named k ticket hlast
      rw [ht] at htp
      cases htp
      rcases Nat.lt_trichotomy s ticket with hlt | rfl | hgt
      · rw [← hk'] at hkey
        exact hdone (hq.before ticket t ht hin) s t' hlt ht' hkey
      · obtain ⟨old, hold, rfl⟩ := getElem?_changed ht'
        rw [if_pos rfl]
      · obtain ⟨old, hold, rfl⟩ := getElem?_changed ht'
        rw [if_neg (by omega)] at hkey
        exact absurd hkey (hlater s old hgt hold)
    · exact hdone (hq.unnamed k hk) s t' hs ht' hkey

/-- Every step of the queue keeps the invariant. -/
theorem Queued.next [DecidableEq κ] (h : q.Next e q') (hq : Queued q) : Queued q' := by
  cases h with
  | register key => exact hq.register key
  | enter ht _ hfree => exact hq.enter ht hfree
  | leave ht hin _ => exact hq.leave ht hin

/-- Whether a call is inside. -/
def MutationQueue.Inside (q : MutationQueue κ) (ticket : Nat) (key : κ) : Prop :=
  ∃ t, q.tickets[ticket]? = some t ∧ t.key = key ∧ t.entered = true ∧ t.released = false

/-- Of the calls of one key at most one is inside. -/
theorem Queued.exclusive (hq : Queued q) (hi : q.Inside i key) (hj : q.Inside j key) : i = j := by
  obtain ⟨ti, hti, hki, hini, hri⟩ := hi
  obtain ⟨tj, htj, hkj, hinj, hrj⟩ := hj
  rcases Nat.lt_trichotomy i j with hlt | he | hgt
  · have hdone := hq.before j tj htj hinj i ti hlt hti (hki.trans hkj.symm)
    rw [hri] at hdone
    cases hdone
  · exact he
  · have hdone := hq.before i ti hti hini j tj hgt htj (hkj.trans hki.symm)
    rw [hrj] at hdone
    cases hdone

/-- Whether a call waits to enter. -/
def MutationQueue.Waiting (q : MutationQueue κ) (ticket : Nat) (key : κ) : Prop :=
  ∃ t, q.tickets[ticket]? = some t ∧ t.key = key ∧ t.entered = false

/-! Other calls stay where they are. -/

def QueueStep.ticket? : QueueStep κ → Option Nat
  | .register _ => none
  | .enter ticket | .leave ticket => some ticket

theorem MutationQueue.Next.keeps [DecidableEq κ] (h : q.Next e q') (ht : q.tickets[i]? = some t)
    (hother : e.ticket? ≠ some i) : q'.tickets[i]? = some t := by
  cases h with
  | register key =>
    have hlt := (List.getElem?_eq_some_iff.mp ht).1
    show (q.tickets ++ _)[i]? = some t
    rw [List.getElem?_append_left hlt]
    exact ht
  | @enter ticket _ _ _ _ | @leave ticket _ _ _ _ =>
    have hne : ticket ≠ i := fun he => hother (congrArg some he)
    show (q.tickets.modify ticket _)[i]? = some t
    rw [List.getElem?_modify, ht]
    simp [hne]

theorem MutationQueue.Inside.next [DecidableEq κ] (hin : q.Inside i key) (h : q.Next e q')
    (hother : e.ticket? ≠ some i) : q'.Inside i key := by
  obtain ⟨t, ht, hrest⟩ := hin
  exact ⟨t, h.keeps ht hother, hrest⟩

theorem MutationQueue.Waiting.next [DecidableEq κ] (hwait : q.Waiting i key) (h : q.Next e q')
    (hother : e.ticket? ≠ some i) : q'.Waiting i key := by
  obtain ⟨t, ht, hrest⟩ := hwait
  exact ⟨t, h.keeps ht hother, hrest⟩

theorem MutationQueue.waiting_register [DecidableEq κ] (q : MutationQueue κ) (key : κ) :
    (q.register key).Waiting q.tickets.length key := by
  refine ⟨{ key, predecessor := q.last key, entered := false, released := false }, ?_, rfl, rfl⟩
  show (q.tickets ++ _)[q.tickets.length]? = _
  rw [List.getElem?_append_right (Nat.le_refl _), Nat.sub_self]
  rfl

theorem Queued.inside_enter (hq : Queued q) (hwait : q.Waiting i key) :
    (q.enter i).Inside i key := by
  obtain ⟨t, ht, hkey, hout⟩ := hwait
  have hheld : t.released = false := by
    cases hr : t.released with
    | false => rfl
    | true => rw [hq.order i t ht hr] at hout; cases hout
  refine ⟨{ t with entered := true }, ?_, hkey, rfl, hheld⟩
  show (q.tickets.modify i _)[i]? = _
  rw [List.getElem?_modify, ht]
  simp

theorem MutationQueue.Waiting.lt (h : q.Waiting i key) : i < q.tickets.length := by
  obtain ⟨t, ht, -⟩ := h
  exact (List.getElem?_eq_some_iff.mp ht).1

theorem MutationQueue.Inside.lt (h : q.Inside i key) : i < q.tickets.length := by
  obtain ⟨t, ht, -⟩ := h
  exact (List.getElem?_eq_some_iff.mp ht).1

end Queue

end PieLab

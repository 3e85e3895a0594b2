import PieLab.Lib.Decimal
import PieLab.Lib.OrderedMap
import PieLab.Lib.Runs

/-
  The commands of an RPC process

  Any number of clients send commands to one child process, under ids of their own
  or ids the sender generates. The child reads them from its pipe and answers each
  it has read; a write may fail, and the process may exit or be disposed of at any
  time.

  What is proved:
    1. `FreshNext.correlated` — as long as every command is sent under a non-empty id
       that no open command has, the pending requests are the unsettled commands,
       each under its own id.
    2. `rpc_answers` — in such a run each command is settled once, with its own
       response or an error.
    3. `rpc_misdelivers` — two commands of one id: one client gets the other's
       response, and the other none.
    4. `generated_answers` — a run in which no client chooses an id is as in 2.

  Correspondence (TypeScript ↔ Lean):
    RpcProcessInstance.send  ↔ `RpcState.send`; the write's callback is `writeFailed`
    handleLine, a response   ↔ `RpcState.handleResponse`
    rejectAllPending         ↔ `RpcState.rejectAllPending`
    the exit handler, dispose ↔ `RpcState.exit`, `RpcState.rejectAllPending`
-/

namespace PieLab.Orchestrator

open Lib

/-! ## Commands -/

/-- Where a command is. -/
inductive Stage where
  /-- Written to the pipe; the child is still to read it. -/
  | piped
  /-- The child has read it, and owes a response. -/
  | read
  /-- It is answered, or was not written. -/
  | done
  deriving DecidableEq

/-- How a promise is settled: rejected, or with the response to command `n`. -/
inductive Settled where
  | error
  | response (n : Nat)
  deriving DecidableEq

/-- A call of `send`, with the state of its promise. -/
structure Request where
  id : String
  stage : Stage
  outcome : Option Settled
  deriving DecidableEq

/-- A promise that is settled stays as it is. -/
def Request.settle (outcome : Settled) (r : Request) : Request :=
  { r with outcome := r.outcome.or (some outcome) }

def Request.moveTo (stage : Stage) (r : Request) : Request := { r with stage }

structure RpcState where
  exited : Bool
  nextRequestId : Nat
  /-- The number of the command whose promise is to be settled, by id. -/
  pendingRequests : OrderedMap String Nat
  requests : List Request

namespace RpcState

def start : RpcState :=
  { exited := false, nextRequestId := 0, pendingRequests := .empty, requests := [] }

def settle (s : RpcState) (n : Nat) (outcome : Settled) : RpcState :=
  { s with requests := s.requests.modify n (Request.settle outcome) }

def moveTo (s : RpcState) (n : Nat) (stage : Stage) : RpcState :=
  { s with requests := s.requests.modify n (Request.moveTo stage) }

/-- `orchestrator_${++this.nextRequestId}_${randomUUID()}` -/
def generatedId (n : Nat) (uuid : String) : String :=
  "orchestrator_" ++ toString n ++ "_" ++ uuid

/-- The id a command is sent under. -/
def sentId (s : RpcState) (clientId : Option String) (uuid : String) : String :=
  clientId.getD (generatedId (s.nextRequestId + 1) uuid)

def send (s : RpcState) (clientId : Option String) (uuid : String) : RpcState :=
  if s.exited then
    { s with
      requests := s.requests ++ [{ id := clientId.getD "", stage := .done, outcome := some .error }] }
  else
    { s with
      nextRequestId := if clientId.isSome then s.nextRequestId else s.nextRequestId + 1
      pendingRequests := s.pendingRequests.set (s.sentId clientId uuid) s.requests.length
      requests := s.requests ++ [{ id := s.sentId clientId uuid, stage := .piped, outcome := none }] }

/-- The write of command `n` has failed: its own promise is rejected, and what is
pending under its id is deleted. -/
def writeFailed (s : RpcState) (n : Nat) (id : String) : RpcState :=
  { s with pendingRequests := s.pendingRequests.delete id }.settle n .error

/-- A line with the response to command `n`, carrying `id`. -/
def handleResponse (s : RpcState) (id : String) (n : Nat) : RpcState :=
  if id = "" then s
  else
    match s.pendingRequests.get? id with
    | none => s
    | some pending =>
      { s with pendingRequests := s.pendingRequests.delete id }.settle pending (.response n)

def rejectAllPending (s : RpcState) : RpcState :=
  s.pendingRequests.entries.foldl
    (fun s entry =>
      { s with pendingRequests := s.pendingRequests.delete entry.1 }.settle entry.2 .error) s

def exit (s : RpcState) : RpcState := { s with exited := true }.rejectAllPending

end RpcState

/-! ## Steps -/

inductive RpcEvent where
  | send (clientId : Option String) (uuid : String)
  | childRead (n : Nat)
  | writeFailed (n : Nat)
  | respond (n : Nat)
  | exit
  | dispose

inductive RpcNext : RpcState → RpcEvent → RpcState → Prop where
  | send {s : RpcState} {clientId : Option String} {uuid : String} :
      RpcNext s (.send clientId uuid) (s.send clientId uuid)
  | childRead {s : RpcState} {n : Nat} {r : Request} (hr : s.requests[n]? = some r)
      (hstage : r.stage = .piped) : RpcNext s (.childRead n) (s.moveTo n .read)
  | writeFailed {s : RpcState} {n : Nat} {r : Request} (hr : s.requests[n]? = some r)
      (hstage : r.stage = .piped) :
      RpcNext s (.writeFailed n) ((s.writeFailed n r.id).moveTo n .done)
  | respond {s : RpcState} {n : Nat} {r : Request} (hr : s.requests[n]? = some r)
      (hstage : r.stage = .read) :
      RpcNext s (.respond n) ((s.handleResponse r.id n).moveTo n .done)
  | exit {s : RpcState} : RpcNext s .exit s.exit
  | dispose {s : RpcState} : RpcNext s .dispose s.rejectAllPending

/-! ## Settled requests -/

variable {s t : RpcState} {n m : Nat} {r : Request} {stage : Stage} {e : RpcEvent} {o : Settled}

theorem getElem?_settle {outcome : Settled} (h : (s.settle n outcome).requests[m]? = some r) :
    ∃ r', s.requests[m]? = some r' ∧ r.id = r'.id ∧ r.stage = r'.stage ∧
      r.outcome = if n = m then r'.outcome.or (some outcome) else r'.outcome := by
  rw [RpcState.settle, List.getElem?_modify, Option.map_eq_map, Option.map_eq_some_iff] at h
  obtain ⟨r', hr', rfl⟩ := h
  exact ⟨r', hr', by split <;> rfl, by split <;> rfl, by split <;> rfl⟩

theorem getElem?_moveTo (h : (s.moveTo n stage).requests[m]? = some r) :
    ∃ r', s.requests[m]? = some r' ∧ r.id = r'.id ∧ r.outcome = r'.outcome ∧
      r.stage = if n = m then stage else r'.stage := by
  rw [RpcState.moveTo, List.getElem?_modify, Option.map_eq_map, Option.map_eq_some_iff] at h
  obtain ⟨r', hr', rfl⟩ := h
  exact ⟨r', hr', by split <;> rfl, by split <;> rfl, by split <;> rfl⟩

theorem getElem?_push {α : Type} {l : List α} {a b : α} (h : (l ++ [b])[n]? = some a) :
    l[n]? = some a ∨ n = l.length ∧ a = b := by
  obtain hlt | hge := Nat.lt_or_ge n l.length
  · left
    rwa [List.getElem?_append_left hlt] at h
  · right
    rw [List.getElem?_append_right hge, List.getElem?_singleton] at h
    split at h
    · exact ⟨by omega, (Option.some.inj h).symm⟩
    · exact nomatch h

theorem getElem?_push_of_some {α : Type} {l : List α} {a b : α} (h : l[n]? = some a) :
    (l ++ [b])[n]? = some a := by
  rw [List.getElem?_append_left (List.getElem?_eq_some_iff.mp h).1, h]

/-- How the promise of command `n` is settled, if it is. -/
def RpcState.outcomeOf (s : RpcState) (n : Nat) : Option Settled :=
  s.requests[n]?.bind Request.outcome

/-! ## Correlation -/

/-- The pending requests are the unsettled commands, and the ids of the open commands
are distinct. -/
structure Correlated (s : RpcState) : Prop where
  pending : ∀ {id : String} {n : Nat}, s.pendingRequests.get? id = some n →
    ∃ r, s.requests[n]? = some r ∧ r.id = id ∧ r.stage ≠ .done ∧ r.outcome = none
  unsettled : ∀ {n : Nat} {r : Request}, s.requests[n]? = some r → r.outcome = none →
    s.pendingRequests.get? r.id = some n
  openIds : ∀ {n m : Nat} {r r' : Request}, s.requests[n]? = some r → s.requests[m]? = some r' →
    r.stage ≠ .done → r'.stage ≠ .done → r.id = r'.id → n = m
  nonempty : ∀ {n : Nat} {r : Request}, s.requests[n]? = some r → r.stage ≠ .done → r.id ≠ ""
  own : ∀ {n m : Nat} {r : Request}, s.requests[n]? = some r → r.outcome = some (.response m) → m = n

theorem correlated_start : Correlated .start where
  pending h := nomatch h
  unsettled h := nomatch h
  openIds h := nomatch h
  nonempty h := nomatch h
  own h := nomatch h

theorem Correlated.pending_eq (h : Correlated s) (hr : s.requests[n]? = some r)
    (hopen : r.stage ≠ .done) (hm : s.pendingRequests.get? r.id = some m) : m = n := by
  obtain ⟨r', hr', hid, hopen', -⟩ := h.pending hm
  exact h.openIds hr' hr hopen' hopen hid

theorem Correlated.take {s : RpcState} (h : Correlated s) {n : Nat} {r : Request}
    {outcome : Settled} (hr : s.requests[n]? = some r) (hopen : r.stage ≠ .done)
    (hown : outcome = .error ∨ outcome = .response n) :
    Correlated ({ s with pendingRequests := s.pendingRequests.delete r.id }.settle n outcome) where
  pending := by
    intro id m hm
    rw [show RpcState.pendingRequests _ = s.pendingRequests.delete r.id from rfl,
      OrderedMap.get?_delete] at hm
    split at hm
    · exact nomatch hm
    · next hid =>
      obtain ⟨r', hr', hid', hrest⟩ := h.pending hm
      have hmn : n ≠ m := by
        intro hmn
        rw [← hmn, hr] at hr'
        exact hid (Option.some.inj hr' ▸ hid')
      refine ⟨r', ?_, hid', hrest⟩
      show (s.requests.modify n _)[m]? = some r'
      simp [hr', hmn]
  unsettled := by
    intro m r' hr' hnone
    obtain ⟨r₀, hr₀, hid₀, -, hout₀⟩ := getElem?_settle hr'
    rw [hnone] at hout₀
    split at hout₀
    · simp at hout₀
    · next hmn =>
      show (s.pendingRequests.delete r.id).get? r'.id = some m
      have hm := h.unsettled hr₀ hout₀.symm
      rw [OrderedMap.get?_delete, hid₀, if_neg ?_, hm]
      intro hid
      rw [← hid] at hm
      exact hmn (h.pending_eq hr hopen hm).symm
  openIds := by
    intro m m' r₁ r₂ hr₁ hr₂ hopen₁ hopen₂ hid
    obtain ⟨r₁', hr₁', hid₁, hstage₁, -⟩ := getElem?_settle hr₁
    obtain ⟨r₂', hr₂', hid₂, hstage₂, -⟩ := getElem?_settle hr₂
    exact h.openIds hr₁' hr₂' (hstage₁ ▸ hopen₁) (hstage₂ ▸ hopen₂) (hid₁ ▸ hid₂ ▸ hid)
  nonempty := by
    intro m r' hr' hopen'
    obtain ⟨r₀, hr₀, hid₀, hstage₀, -⟩ := getElem?_settle hr'
    exact hid₀ ▸ h.nonempty hr₀ (hstage₀ ▸ hopen')
  own := by
    intro m k r' hr' hk
    obtain ⟨r₀, hr₀, -, -, hout₀⟩ := getElem?_settle hr'
    rw [hk] at hout₀
    split at hout₀
    · next hmn =>
      cases ho : r₀.outcome with
      | none =>
        rw [ho] at hout₀
        obtain rfl | rfl := hown
        · exact nomatch hout₀
        · cases hout₀
          exact hmn
      | some o =>
        rw [ho] at hout₀
        exact h.own hr₀ (ho.trans hout₀.symm)
    · exact h.own hr₀ hout₀.symm

theorem Correlated.moveTo (h : Correlated s) (hr : s.requests[n]? = some r)
    (hopen : r.stage ≠ .done) (hdone : stage = .done → r.outcome ≠ none) :
    Correlated (s.moveTo n stage) := by
  have old : ∀ {m : Nat} {r' : Request}, (s.moveTo n stage).requests[m]? = some r' →
      ∃ r₀, s.requests[m]? = some r₀ ∧ r'.id = r₀.id ∧ r'.outcome = r₀.outcome ∧
        (r'.stage ≠ .done → r₀.stage ≠ .done) := by
    intro m r' hr'
    obtain ⟨r₀, hr₀, hid₀, hout₀, hstage₀⟩ := getElem?_moveTo hr'
    refine ⟨r₀, hr₀, hid₀, hout₀, fun hopen' => ?_⟩
    rw [hstage₀] at hopen'
    split at hopen'
    · next hmn =>
      rw [← hmn, hr] at hr₀
      exact Option.some.inj hr₀ ▸ hopen
    · exact hopen'
  refine { pending := ?_, unsettled := ?_, openIds := ?_, nonempty := ?_, own := ?_ }
  · intro id m hm
    obtain ⟨r', hr', hid, hopen', hnone⟩ := h.pending hm
    by_cases hmn : n = m
    · subst hmn
      rw [hr] at hr'
      cases hr'
      exact ⟨r.moveTo stage, by simp [RpcState.moveTo, hr], hid,
        fun hstage => hdone hstage hnone, hnone⟩
    · exact ⟨r', by simp [RpcState.moveTo, hmn, hr'], hid, hopen', hnone⟩
  · intro m r' hr' hnone
    obtain ⟨r₀, hr₀, hid₀, hout₀, -⟩ := old hr'
    exact hid₀ ▸ h.unsettled hr₀ (hout₀ ▸ hnone)
  · intro m m' r₁ r₂ hr₁ hr₂ hopen₁ hopen₂ hid
    obtain ⟨r₁', hr₁', hid₁, -, hstage₁⟩ := old hr₁
    obtain ⟨r₂', hr₂', hid₂, -, hstage₂⟩ := old hr₂
    exact h.openIds hr₁' hr₂' (hstage₁ hopen₁) (hstage₂ hopen₂) (hid₁ ▸ hid₂ ▸ hid)
  · intro m r' hr' hopen'
    obtain ⟨r₀, hr₀, hid₀, -, hstage₀⟩ := old hr'
    exact hid₀ ▸ h.nonempty hr₀ (hstage₀ hopen')
  · intro m k r' hr' hk
    obtain ⟨r₀, hr₀, -, hout₀, -⟩ := old hr'
    exact h.own hr₀ (hout₀ ▸ hk)

theorem Correlated.push {s : RpcState} (h : Correlated s) {id : String} (hid : id ≠ "")
    (hfresh : ∀ r ∈ s.requests, r.stage ≠ .done → r.id ≠ id) (nextRequestId : Nat) :
    Correlated { s with
      nextRequestId
      pendingRequests := s.pendingRequests.set id s.requests.length
      requests := s.requests ++ [{ id, stage := .piped, outcome := none }] } where
  pending := by
    intro id' m hm
    rw [OrderedMap.get?_set] at hm
    split at hm
    · next heq =>
      cases hm
      exact ⟨_, List.getElem?_concat_length, heq, nofun, rfl⟩
    · obtain ⟨r', hr', hrest⟩ := h.pending hm
      exact ⟨r', getElem?_push_of_some hr', hrest⟩
  unsettled := by
    intro m r' hr' hnone
    rw [OrderedMap.get?_set]
    obtain hr' | ⟨rfl, rfl⟩ := getElem?_push hr'
    · have hm := h.unsettled hr' hnone
      obtain ⟨r₀, hr₀, -, hopen, -⟩ := h.pending hm
      rw [hr'] at hr₀
      cases hr₀
      rw [if_neg, hm]
      exact fun heq => hfresh r' (List.mem_of_getElem? hr') hopen heq.symm
    · rw [if_pos rfl]
  openIds := by
    intro m m' r₁ r₂ hr₁ hr₂ hopen₁ hopen₂ heq
    obtain hr₁ | ⟨rfl, rfl⟩ := getElem?_push hr₁ <;>
      obtain hr₂ | ⟨rfl, rfl⟩ := getElem?_push hr₂
    · exact h.openIds hr₁ hr₂ hopen₁ hopen₂ heq
    · exact (hfresh r₁ (List.mem_of_getElem? hr₁) hopen₁ heq).elim
    · exact (hfresh r₂ (List.mem_of_getElem? hr₂) hopen₂ heq.symm).elim
    · rfl
  nonempty := by
    intro m r' hr' hopen
    obtain hr' | ⟨rfl, rfl⟩ := getElem?_push hr'
    · exact h.nonempty hr' hopen
    · exact hid
  own := by
    intro m k r' hr' hout
    obtain hr' | ⟨rfl, rfl⟩ := getElem?_push hr'
    · exact h.own hr' hout
    · exact nomatch hout

theorem Correlated.refuse (h : Correlated s) (hstage : r.stage = .done)
    (hout : r.outcome = some .error) :
    Correlated { s with requests := s.requests ++ [r] } where
  pending := by
    intro id m hm
    obtain ⟨r', hr', hrest⟩ := h.pending hm
    exact ⟨r', getElem?_push_of_some hr', hrest⟩
  unsettled := by
    intro m r' hr' hnone
    obtain hr' | ⟨rfl, rfl⟩ := getElem?_push hr'
    · exact h.unsettled hr' hnone
    · exact nomatch hout.symm.trans hnone
  openIds := by
    intro m m' r₁ r₂ hr₁ hr₂ hopen₁ hopen₂ heq
    obtain hr₁ | ⟨rfl, rfl⟩ := getElem?_push hr₁
    · obtain hr₂ | ⟨rfl, rfl⟩ := getElem?_push hr₂
      · exact h.openIds hr₁ hr₂ hopen₁ hopen₂ heq
      · exact (hopen₂ hstage).elim
    · exact (hopen₁ hstage).elim
  nonempty := by
    intro m r' hr' hopen
    obtain hr' | ⟨rfl, rfl⟩ := getElem?_push hr'
    · exact h.nonempty hr' hopen
    · exact (hopen hstage).elim
  own := by
    intro m k r' hr' hk
    obtain hr' | ⟨rfl, rfl⟩ := getElem?_push hr'
    · exact h.own hr' hk
    · exact nomatch hout.symm.trans hk

theorem Correlated.rejectAll (h : Correlated s) :
    Correlated s.rejectAllPending ∧ ∀ id, s.rejectAllPending.pendingRequests.get? id = none := by
  have step : ∀ (entries : List (String × Nat)) (s : RpcState), Correlated s →
      s.pendingRequests.entries = entries →
      Correlated (entries.foldl (fun s entry =>
        { s with pendingRequests := s.pendingRequests.delete entry.1 }.settle entry.2 .error) s) ∧
      (entries.foldl (fun s entry =>
        { s with pendingRequests := s.pendingRequests.delete entry.1 }.settle entry.2 .error)
          s).pendingRequests.entries = [] := by
    intro entries
    induction entries with
    | nil => exact fun s h hentries => ⟨h, hentries⟩
    | cons entry rest ih =>
      intro s h hentries
      obtain ⟨id, n⟩ := entry
      have hget : s.pendingRequests.get? id = some n := by
        rw [← OrderedMap.mem_entries_iff, hentries]
        exact List.mem_cons_self
      obtain ⟨r, hr, rfl, hopen, -⟩ := h.pending hget
      apply ih _ (h.take hr hopen (.inl rfl))
      -- the ids are distinct, so that only the first entry goes
      show s.pendingRequests.entries.filter _ = rest
      have hnodup := s.pendingRequests.nodup
      rw [hentries, List.map_cons, List.nodup_cons] at hnodup
      rw [hentries, List.filter_cons_of_neg (by simp), List.filter_eq_self]
      intro entry hentry
      have hne : entry.1 ≠ r.id := fun heq => hnodup.1 (List.mem_map.mpr ⟨entry, hentry, heq⟩)
      simpa using hne
  obtain ⟨hc, hempty⟩ := step _ s h rfl
  refine ⟨hc, fun id => ?_⟩
  show List.lookup id (RpcState.rejectAllPending s).pendingRequests.entries = none
  rw [show (RpcState.rejectAllPending s).pendingRequests.entries = [] from hempty]
  rfl

/-- After the exit nothing is pending. -/
def ExitedIdle (s : RpcState) : Prop :=
  s.exited = true → ∀ id, s.pendingRequests.get? id = none

/-- A command sent while the process runs has a non-empty id, which no command has that
is still in the pipe or unanswered. -/
def FreshId (s : RpcState) : RpcEvent → Prop
  | .send clientId uuid => s.exited = false →
      s.sentId clientId uuid ≠ "" ∧
        ∀ r ∈ s.requests, r.stage ≠ .done → r.id ≠ s.sentId clientId uuid
  | _ => True

/-- A step at which a command is sent under a fresh id. -/
def FreshNext (s : RpcState) (e : RpcEvent) (t : RpcState) : Prop := RpcNext s e t ∧ FreshId s e

theorem Correlated.finish {s : RpcState} (h : Correlated s) {n : Nat} {r : Request}
    {outcome : Settled} (hr : s.requests[n]? = some r) (hopen : r.stage ≠ .done)
    (hown : outcome = .error ∨ outcome = .response n) :
    Correlated
      (({ s with pendingRequests := s.pendingRequests.delete r.id }.settle n outcome).moveTo n .done)
      := by
  apply (h.take hr hopen hown).moveTo (r := r.settle outcome) _ hopen
  · intro _
    show r.outcome.or (some outcome) ≠ none
    simp
  · simp [RpcState.settle, hr]

theorem FreshNext.correlated (h : FreshNext s e t) (hc : Correlated s) : Correlated t := by
  obtain ⟨hnext, hfresh⟩ := h
  cases hnext with
  | @send clientId uuid =>
    unfold RpcState.send
    split
    · exact hc.refuse rfl rfl
    · next hrun =>
      obtain ⟨hid, hids⟩ := hfresh (by simpa using hrun)
      exact hc.push hid hids _
  | childRead hr hstage =>
    apply hc.moveTo hr
    · rw [hstage]
      exact nofun
    · exact nofun
  | writeFailed hr hstage => exact hc.finish hr (by rw [hstage]; exact nofun) (.inl rfl)
  | @respond n r hr hstage =>
    have hopen : r.stage ≠ .done := by
      rw [hstage]
      exact nofun
    unfold RpcState.handleResponse
    rw [if_neg (hc.nonempty hr hopen)]
    cases hm : s.pendingRequests.get? r.id with
    | none =>
      -- the promise was rejected before the response came
      apply hc.moveTo hr hopen
      intro _ hnone
      exact nomatch hm.symm.trans (hc.unsettled hr hnone)
    | some m =>
      obtain rfl := hc.pending_eq hr hopen hm
      exact hc.finish hr hopen (.inr rfl)
  | exit =>
    have hexit : Correlated { s with exited := true } :=
      ⟨hc.pending, hc.unsettled, hc.openIds, hc.nonempty, hc.own⟩
    exact hexit.rejectAll.1
  | dispose => exact hc.rejectAll.1

theorem FreshNext.exitedIdle (h : FreshNext s e t) (hc : Correlated s) (hidle : ExitedIdle s) :
    ExitedIdle t := by
  have deleted : ∀ (id id' : String), s.exited = true →
      (s.pendingRequests.delete id).get? id' = none := by
    intro id id' hexit
    rw [OrderedMap.get?_delete, hidle hexit]
    split <;> rfl
  cases h.1 with
  | send =>
    unfold RpcState.send
    split
    · exact hidle
    · next hrun => exact fun hexit => (hrun hexit).elim
  | childRead => exact hidle
  | writeFailed => exact fun hexit id => deleted _ id hexit
  | respond =>
    unfold RpcState.handleResponse
    split
    · exact hidle
    · split
      · exact hidle
      · exact fun hexit id => deleted _ id hexit
  | exit =>
    have hexit : Correlated { s with exited := true } :=
      ⟨hc.pending, hc.unsettled, hc.openIds, hc.nonempty, hc.own⟩
    exact fun _ => hexit.rejectAll.2
  | dispose => exact fun _ => hc.rejectAll.2

/-! ## Settled once -/

theorem outcome_settle {outcome : Settled} (h : s.outcomeOf m = some o) :
    (s.settle n outcome).outcomeOf m = some o := by
  obtain ⟨r, hr, ho⟩ := Option.bind_eq_some_iff.mp h
  show ((s.requests.modify n _)[m]?).bind Request.outcome = some o
  rw [List.getElem?_modify, hr]
  show Request.outcome (if n = m then r.settle outcome else r) = some o
  split
  · show r.outcome.or _ = some o
    rw [ho, Option.some_or]
  · exact ho

theorem outcome_moveTo (h : s.outcomeOf m = some o) : (s.moveTo n stage).outcomeOf m = some o := by
  obtain ⟨r, hr, ho⟩ := Option.bind_eq_some_iff.mp h
  show ((s.requests.modify n _)[m]?).bind Request.outcome = some o
  rw [List.getElem?_modify, hr]
  show Request.outcome (if n = m then r.moveTo stage else r) = some o
  split <;> exact ho

theorem outcome_rejectAllPending (h : s.outcomeOf m = some o) :
    s.rejectAllPending.outcomeOf m = some o := by
  unfold RpcState.rejectAllPending
  generalize s.pendingRequests.entries = entries
  induction entries generalizing s with
  | nil => exact h
  | cons entry entries ih =>
    apply ih
    exact outcome_settle h

theorem outcome_push (h : s.outcomeOf m = some o) :
    ((s.requests ++ [r])[m]?).bind Request.outcome = some o := by
  obtain ⟨r, hr, ho⟩ := Option.bind_eq_some_iff.mp h
  rw [getElem?_push_of_some hr]
  exact ho

theorem RpcNext.outcome (h : RpcNext s e t) (ho : s.outcomeOf m = some o) :
    t.outcomeOf m = some o := by
  cases h with
  | send =>
    unfold RpcState.send
    split <;> exact outcome_push ho
  | childRead => exact outcome_moveTo ho
  | writeFailed =>
    apply outcome_moveTo
    exact outcome_settle ho
  | respond =>
    apply outcome_moveTo
    unfold RpcState.handleResponse
    split
    · exact ho
    · split
      · exact ho
      · exact outcome_settle ho
  | exit => exact outcome_rejectAllPending ho
  | dispose => exact outcome_rejectAllPending ho

/-! ## Answers -/

/-- The process has exited, or every command is answered or was not written. -/
def RpcState.Quiescent (s : RpcState) : Prop :=
  s.exited = true ∨ ∀ r ∈ s.requests, r.stage = .done

/-- A command is settled with the response to itself or an error, and none is left
unsettled. -/
structure Answered (s : RpcState) : Prop where
  own : ∀ n m, s.outcomeOf n = some (.response m) → m = n
  settled : s.Quiescent → ∀ n < s.requests.length, (s.outcomeOf n).isSome = true

theorem Correlated.answered {s : RpcState} (h : Correlated s) (hidle : ExitedIdle s) :
    Answered s where
  own := by
    intro n m hm
    obtain ⟨r, hr, ho⟩ := Option.bind_eq_some_iff.mp hm
    exact h.own hr ho
  settled := by
    intro hquiet n hn
    rw [← Option.ne_none_iff_isSome]
    intro hnone
    obtain ⟨r, hr⟩ : ∃ r, s.requests[n]? = some r := ⟨_, List.getElem?_eq_getElem hn⟩
    rw [RpcState.outcomeOf, hr] at hnone
    have hpending := h.unsettled hr hnone
    obtain hexit | hdone := hquiet
    · exact nomatch (hidle hexit _).symm.trans hpending
    · obtain ⟨r', hr', -, hopen, -⟩ := h.pending hpending
      exact hopen (hdone r' (List.mem_of_getElem? hr'))

/-- In a run whose commands are sent under fresh ids, each is settled with the response to
itself or an error, none is left over, and nothing that follows changes how one is settled. -/
theorem rpc_answers {es : List RpcEvent} {s : RpcState} (h : Run FreshNext .start es s) :
    Answered s ∧ ∀ fs t, Run RpcNext s fs t →
      ∀ n o, s.outcomeOf n = some o → t.outcomeOf n = some o := by
  have hinv : Correlated s ∧ ExitedIdle s := by
    apply @Run.invariant _ _ _ (fun s => Correlated s ∧ ExitedIdle s) _ _ _ h
    · exact ⟨correlated_start, nofun⟩
    · intro s e t hnext hinv
      exact ⟨hnext.correlated hinv.1, hnext.exitedIdle hinv.1 hinv.2⟩
  refine ⟨hinv.1.answered hinv.2, ?_⟩
  intro fs t hrun n o ho
  exact hrun.invariant ho fun _ _ _ hnext ho => hnext.outcome ho

/-- Two clients, the second answered first; a third command comes when the process is gone. -/
theorem rpc_answers_example :
    ∃ s, Run FreshNext .start
      [.send (some "a") "", .send (some "b") "", .childRead 0, .childRead 1, .respond 1,
        .exit, .respond 0, .send (some "a") ""] s ∧ Answered s := by
  have hrun : Run FreshNext .start
      [.send (some "a") "", .send (some "b") "", .childRead 0, .childRead 1, .respond 1,
        .exit, .respond 0, .send (some "a") ""] _ :=
    .cons ⟨.send, fun _ => ⟨by decide, by decide⟩⟩ <|
    .cons ⟨.send, fun _ => ⟨by decide, by decide⟩⟩ <|
    .cons ⟨.childRead (r := { id := "a", stage := .piped, outcome := none }) rfl rfl, trivial⟩ <|
    .cons ⟨.childRead (r := { id := "b", stage := .piped, outcome := none }) rfl rfl, trivial⟩ <|
    .cons ⟨.respond (r := { id := "b", stage := .read, outcome := none }) rfl rfl, trivial⟩ <|
    .cons ⟨.exit, trivial⟩ <|
    .cons ⟨.respond (r := { id := "a", stage := .read, outcome := some .error }) rfl rfl, trivial⟩ <|
    .cons ⟨.send, nofun⟩ <| .nil _
  exact ⟨_, hrun, (rpc_answers hrun).1⟩

/-- Two clients send a command under one id: the second is settled with the response to the
first, and the first is never settled. -/
theorem rpc_misdelivers :
    ∃ s, Run RpcNext .start
      [.send (some "x") "", .send (some "x") "", .childRead 0, .childRead 1, .respond 0,
        .respond 1] s ∧
      s.Quiescent ∧ s.outcomeOf 1 = some (.response 0) ∧ s.outcomeOf 0 = none ∧ ¬ Answered s := by
  have hrun : Run RpcNext .start
      [.send (some "x") "", .send (some "x") "", .childRead 0, .childRead 1, .respond 0,
        .respond 1] _ :=
    .cons .send <| .cons .send <|
    .cons (.childRead (r := { id := "x", stage := .piped, outcome := none }) rfl rfl) <|
    .cons (.childRead (r := { id := "x", stage := .piped, outcome := none }) rfl rfl) <|
    .cons (.respond (r := { id := "x", stage := .read, outcome := none }) rfl rfl) <|
    .cons (.respond (r := { id := "x", stage := .read, outcome := some (.response 0) }) rfl rfl) <|
    .nil _
  exact ⟨_, hrun, .inr (by decide), rfl, rfl, fun h => nomatch h.own 1 0 rfl⟩

/-! ## Generated ids -/

theorem toList_generatedId (n : Nat) (uuid : String) : (RpcState.generatedId n uuid).toList =
    "orchestrator_".toList ++ (Nat.toDigits 10 n ++ '_' :: uuid.toList) := by
  simp [RpcState.generatedId, Nat.toString_eq_repr, Nat.toList_repr]

theorem generatedId_ne_empty (n : Nat) (uuid : String) : RpcState.generatedId n uuid ≠ "" := by
  intro h
  have hlist := congrArg String.toList h
  rw [toList_generatedId] at hlist
  cases hlist

theorem generatedId_injective {u v : String}
    (h : RpcState.generatedId n u = RpcState.generatedId m v) : n = m := by
  have hlist := congrArg String.toList h
  rw [toList_generatedId, toList_generatedId, List.append_cancel_left_eq] at hlist
  have hn := @takeDigits_toDigits n ('_' :: u.toList) (by intro c hc; cases hc; rfl)
  rw [hlist, takeDigits_toDigits m (by intro c hc; cases hc; rfl)] at hn
  have hdigits : Nat.toDigits 10 m = Nat.toDigits 10 n := (Prod.mk.inj (Option.some.inj hn)).1
  rw [← @Nat.ofDigitChars_ten_toDigits n, ← hdigits, Nat.ofDigitChars_ten_toDigits]

/-- An id is generated so far, or empty: a command to a process that has exited. -/
def GeneratedIds (s : RpcState) : Prop :=
  ∀ id ∈ s.requests.map Request.id, id = "" ∨ ∃ k uuid, k ≤ s.nextRequestId ∧ id = RpcState.generatedId k uuid

/-- No client chooses an id. -/
def RpcEvent.LeavesId : RpcEvent → Prop
  | .send clientId _ => clientId = none
  | _ => True

theorem GeneratedIds.fresh (h : GeneratedIds s) (he : e.LeavesId) : FreshId s e := by
  cases e with
  | send clientId uuid =>
    obtain rfl : clientId = none := he
    intro _
    refine ⟨generatedId_ne_empty _ _, ?_⟩
    intro r hr _ heq
    obtain hempty | ⟨k, u, hk, hid⟩ := h r.id (List.mem_map_of_mem hr)
    · exact generatedId_ne_empty _ _ (heq.symm.trans hempty)
    · have := generatedId_injective (hid.symm.trans heq)
      omega
  | _ => trivial

/-- No command is added, and each has the id it had. -/
def SameIds (s t : RpcState) : Prop :=
  t.requests.map Request.id = s.requests.map Request.id ∧ t.nextRequestId = s.nextRequestId

theorem map_id_modify {f : Request → Request} (hf : ∀ r, (f r).id = r.id) (requests : List Request)
    (n : Nat) :
    (requests.modify n f).map Request.id = requests.map Request.id := by
  refine List.ext_getElem? fun m => ?_
  rw [List.getElem?_map, List.getElem?_map, List.getElem?_modify]
  cases requests[m]? with
  | none => rfl
  | some r => by_cases hm : n = m <;> simp [hm, hf]

theorem SameIds.settle (h : SameIds s t) (n : Nat) (outcome : Settled) :
    SameIds s (t.settle n outcome) :=
  ⟨(map_id_modify (f := Request.settle outcome) (fun _ => rfl) _ n).trans h.1, h.2⟩

theorem SameIds.moveTo (h : SameIds s t) (n : Nat) (stage : Stage) : SameIds s (t.moveTo n stage) :=
  ⟨(map_id_modify (f := Request.moveTo stage) (fun _ => rfl) _ n).trans h.1, h.2⟩

theorem sameIds_rejectAllPending (h : SameIds s t) : SameIds s t.rejectAllPending := by
  unfold RpcState.rejectAllPending
  generalize t.pendingRequests.entries = entries
  induction entries generalizing t with
  | nil => exact h
  | cons entry entries ih => exact ih (SameIds.settle (t := { t with pendingRequests := _ }) h entry.2 .error)

theorem sameIds_handleResponse (s : RpcState) (id : String) (n : Nat) :
    SameIds s (s.handleResponse id n) := by
  unfold RpcState.handleResponse
  split
  · exact ⟨rfl, rfl⟩
  · split
    · exact ⟨rfl, rfl⟩
    · exact SameIds.settle (t := { s with pendingRequests := _ }) ⟨rfl, rfl⟩ _ _

theorem GeneratedIds.of_same (h : GeneratedIds s) (hsame : SameIds s t) : GeneratedIds t := by
  intro id hid
  rw [hsame.1] at hid
  rw [hsame.2]
  exact h id hid

theorem RpcNext.generatedIds (h : RpcNext s e t) (he : e.LeavesId) (hids : GeneratedIds s) :
    GeneratedIds t := by
  cases h with
  | @send clientId uuid =>
    obtain rfl : clientId = none := he
    intro id hid
    unfold RpcState.send at hid ⊢
    split at hid <;> rw [List.map_append, List.mem_append, List.map_singleton, List.mem_singleton] at hid
    · next hexited =>
      rw [if_pos hexited]
      exact hid.elim (hids id) .inl
    · next hexited =>
      rw [if_neg hexited]
      obtain hid | rfl := hid
      · obtain hempty | ⟨k, u, hk, hid⟩ := hids id hid
        · exact .inl hempty
        · exact .inr ⟨k, u, Nat.le_succ_of_le hk, hid⟩
      · exact .inr ⟨s.nextRequestId + 1, uuid, Nat.le_refl _, rfl⟩
  | @childRead n r => exact hids.of_same (SameIds.moveTo ⟨rfl, rfl⟩ n _)
  | @writeFailed n r =>
    exact hids.of_same ((SameIds.settle (t := { s with pendingRequests := _ }) ⟨rfl, rfl⟩ n _).moveTo n _)
  | @respond n r => exact hids.of_same ((sameIds_handleResponse s r.id n).moveTo n _)
  | exit => exact hids.of_same (sameIds_rejectAllPending (t := { s with exited := true }) ⟨rfl, rfl⟩)
  | dispose => exact hids.of_same (sameIds_rejectAllPending ⟨rfl, rfl⟩)

theorem GeneratedIds.run {es : List RpcEvent} (hids : GeneratedIds s)
    (h : Run (fun s e t => RpcNext s e t ∧ e.LeavesId) s es t) : Run FreshNext s es t := by
  induction h with
  | nil => exact .nil _
  | cons hnext _ ih =>
    exact .cons ⟨hnext.1, hids.fresh hnext.2⟩ (ih (hnext.1.generatedIds hnext.2 hids))

/-- As long as no client chooses an id, every command gets its own answer. -/
theorem generated_answers {es : List RpcEvent} {s : RpcState}
    (h : Run (fun s e t => RpcNext s e t ∧ e.LeavesId) .start es s) : Answered s := by
  have hstart : GeneratedIds .start := fun r hr => by cases hr
  have hinv : Correlated s ∧ ExitedIdle s := by
    apply @Run.invariant _ _ _ (fun s => Correlated s ∧ ExitedIdle s) _ _ _ (hstart.run h)
    · exact ⟨correlated_start, by intro hexit; cases hexit⟩
    · intro s e t hnext hinv
      exact ⟨hnext.correlated hinv.1, hnext.exitedIdle hinv.1 hinv.2⟩
  exact hinv.1.answered hinv.2

/-- Two commands, the second answered first. -/
theorem generated_answers_example : ∃ s, Run (fun s e t => RpcNext s e t ∧ e.LeavesId) .start
    [.send none "a", .send none "b", .childRead 0, .childRead 1, .respond 1] s ∧ Answered s := by
  have hrun : Run (fun s e t => RpcNext s e t ∧ e.LeavesId) .start
      [.send none "a", .send none "b", .childRead 0, .childRead 1, .respond 1] _ :=
    .cons ⟨.send, rfl⟩ <| .cons ⟨.send, rfl⟩ <| .cons ⟨.childRead rfl rfl, trivial⟩ <|
    .cons ⟨.childRead rfl rfl, trivial⟩ <| .cons ⟨.respond rfl rfl, trivial⟩ <| .nil _
  exact ⟨_, hrun, generated_answers hrun⟩

end PieLab.Orchestrator

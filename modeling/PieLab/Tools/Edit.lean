import Mathlib.Logic.Function.Basic
import PieLab.Hashline.Apply
import PieLab.Hashline.Patch
import PieLab.Lib.Runs
import PieLab.Tools.EditDiff
import PieLab.Tools.FileMutationQueue

/-
  The edit tool

  The edit calls of one file, in any number, and their asynchronous steps. A
  replacement call reads and writes inside the queue of the file. A hashline call
  reads and computes before it enters, and only writes inside.

  What is proved:
    1. `edits_serialized` — in a run in which every hashline call writes over what
       it has read, and no call fails after it has written, the file is what the
       successful calls make of it one after another.
    2. `update_lost` — two hashline calls that read before either writes.

  Correspondence (TypeScript ↔ Lean): packages/coding-agent/src/core/tools/edit.ts
    `execute`, the replacement path ↔ `EditCall.replacement`
    `execute`, a patch section      ↔ `EditCall.hashline`
  The sections a patch has for other files show as steps that do not come, or as
  a failure. What the snapshot store answers is a parameter of a reading step.
-/

namespace PieLab

open Lib

/-! ## What a call makes of a text -/

/-- The functions of other packages. -/
structure EditEnv where
  sha256Hex : String → String
  nfkc : List Char → List Char

inductive EditCall where
  | replacement (path : String) (edits : List Edit)
  | hashline (patch : HashlinePatchSection)
  deriving DecidableEq, Repr

def EditCall.isReplacement : EditCall → Bool
  | .replacement _ _ => true
  | .hashline _ => false

/-- The anchored edits, if there is a hash or a context and they fit. -/
def tryApplyWithHashline (sha256Hex : String → String) (content : List Char) (edits : List Edit) :
    Option (List Char) :=
  if !edits.any fun e => truthyText e.hash || e.before.isSome || e.after.isSome then none
  else if edits.any fun edit => edit.oldText.toList.contains '\n' then none
  else (applyHashlineEdits sha256Hex (String.ofList content) (edits.map fun edit =>
    { anchor := edit.oldText, hash := edit.hash, before := edit.before, after := edit.after
      newText := edit.newText })).toOption.map String.toList

def replacedText (env : EditEnv) (path : String) (edits : List Edit)
    (normalizedContent : List Char) :
    Except String (List Char) :=
  match tryApplyWithHashline env.sha256Hex normalizedContent edits with
  | some newContent => .ok newContent
  | none => applyEditsToNormalizedContent env.nfkc normalizedContent edits path

/-- With a snapshot of the section's tag the section may be carried over to a changed text. -/
def patchedText (env : EditEnv) (patch : HashlinePatchSection) (snapshot : Option String)
    (normalizedContent : List Char) : Except String (List Char) :=
  let content := String.ofList normalizedContent
  match snapshot with
  | some text => (applyHashlineSectionWithRecovery env.sha256Hex text content patch).map
      fun result => result.text.toList
  | none => do
    validateHashlineSnapshot env.sha256Hex content patch.hash patch.path
    let text ← applyHashlineSectionToText (normalizeSnapshotText content) patch
    return text.toList

/-- The content a call writes over the raw content it reads. -/
def EditCall.finalContent (env : EditEnv) (call : EditCall) (snapshot : Option String)
    (rawContent : List Char) : Except String (List Char) := do
  let (bom, content) := stripBom rawContent
  let originalEnding := detectLineEnding content
  let newContent ← match call with
    | .replacement path edits => replacedText env path edits (normalizeToLF content)
    | .hashline patch => patchedText env patch snapshot (normalizeToLF content)
  return bom ++ restoreLineEndings newContent originalEnding

/-! ## Steps -/

/-- What a call has read and computed. -/
structure Change where
  snapshot : Option String
  base : List Char
  next : List Char
  deriving DecidableEq, Repr

/-- Where a call stands. -/
inductive EditStage where
  | ready
  | prepared (change : Change)
  | waiting (ticket : Nat) (change : Option Change)
  | inside (ticket : Nat) (change : Option Change)
  | written (ticket : Nat) (change : Change)
  | left (change : Change)
  | succeeded (change : Change)
  | failed
  deriving DecidableEq, Repr

structure EditState (ι : Type) where
  content : List Char
  queue : MutationQueue String
  stage : ι → EditStage

inductive EditStep (ι : Type) where
  | read (i : ι)
  | register (i : ι)
  | enter (i : ι)
  | write (i : ι)
  | leave (i : ι)
  | finish (i : ι)
  | fail (i : ι)
  deriving DecidableEq, Repr

variable {q : MutationQueue String}

section Calls
variable {ι : Type} [DecidableEq ι] (env : EditEnv) (calls : ι → EditCall) (key : String)

def EditState.put (s : EditState ι) (i : ι) (stage : EditStage) : EditState ι :=
  { s with stage := Function.update s.stage i stage }

def EditState.start (content : List Char) : EditState ι :=
  { content, queue := MutationQueue.empty, stage := fun _ => .ready }

/-- One step of one call; `key` is the real path of the file. -/
inductive EditState.Next : EditState ι → EditStep ι → EditState ι → Prop where
  /-- A hashline call reads before it registers. -/
  | prepare {s : EditState ι} {i : ι} {snapshot : Option String} {next : List Char}
      (hstage : s.stage i = .ready) (hcall : (calls i).isReplacement = false)
      (hnext : (calls i).finalContent env snapshot s.content = .ok next) :
      Next s (.read i) (s.put i (.prepared { snapshot, base := s.content, next }))
  | registerReplacement {s : EditState ι} {i : ι} (hstage : s.stage i = .ready)
      (hcall : (calls i).isReplacement = true) :
      Next s (.register i) { s.put i (.waiting s.queue.tickets.length none) with
        queue := s.queue.register key }
  | registerPatch {s : EditState ι} {i : ι} {change : Change} (hstage : s.stage i = .prepared change) :
      Next s (.register i) { s.put i (.waiting s.queue.tickets.length (some change)) with
        queue := s.queue.register key }
  | enter {s : EditState ι} {i : ι} {ticket : Nat} {change : Option Change}
      {queue : MutationQueue String} (hstage : s.stage i = .waiting ticket change)
      (hqueue : s.queue.Next (.enter ticket) queue) :
      Next s (.enter i) { s.put i (.inside ticket change) with queue }
  /-- A replacement call reads inside. -/
  | read {s : EditState ι} {i : ι} {ticket : Nat} {next : List Char}
      (hstage : s.stage i = .inside ticket none)
      (hnext : (calls i).finalContent env none s.content = .ok next) :
      Next s (.read i) (s.put i (.inside ticket (some
        { snapshot := none, base := s.content, next })))
  | write {s : EditState ι} {i : ι} {ticket : Nat} {change : Change}
      (hstage : s.stage i = .inside ticket (some change)) :
      Next s (.write i) { s.put i (.written ticket change) with content := change.next }
  | leave {s : EditState ι} {i : ι} {ticket : Nat} {change : Change}
      {queue : MutationQueue String} (hstage : s.stage i = .written ticket change)
      (hqueue : s.queue.Next (.leave ticket) queue) :
      Next s (.leave i) { s.put i (.left change) with queue }
  | finish {s : EditState ι} {i : ι} {change : Change} (hstage : s.stage i = .left change) :
      Next s (.finish i) (s.put i (.succeeded change))
  /-- A call may fail while it is not in the queue, -/
  | failOutside {s : EditState ι} {i : ι} (hstage : s.stage i = .ready ∨
      (∃ change, s.stage i = .prepared change) ∨ ∃ change, s.stage i = .left change) :
      Next s (.fail i) (s.put i .failed)
  /-- and inside, where it releases the queue. -/
  | failInside {s : EditState ι} {i : ι} {ticket : Nat} {queue : MutationQueue String}
      (hstage : (∃ change, s.stage i = .inside ticket change) ∨
        ∃ change, s.stage i = .written ticket change)
      (hqueue : s.queue.Next (.leave ticket) queue) :
      Next s (.fail i) { s.put i .failed with queue }

/-- The content after calls, one after another, with the snapshots they found. -/
def applyCalls (order : List (ι × Option String)) (content : List Char) :
    Except String (List Char) :=
  order.foldlM (fun content (i, snapshot) => (calls i).finalContent env snapshot content) content

/-- No call is on its way. -/
def EditState.Settled (s : EditState ι) : Prop :=
  ∀ i, s.stage i = .ready ∨ s.stage i = .failed ∨ ∃ change, s.stage i = .succeeded change

/-! ## The condition -/

/-- A hashline call writes over the content it has read, and no call fails after its write. -/
def Undisturbed (s : EditState ι) : EditStep ι → Prop
  | .write i => (calls i).isReplacement = false → ∀ ticket change,
      s.stage i = .inside ticket (some change) → change.base = s.content
  | .fail i => (∀ ticket change, s.stage i ≠ .written ticket change) ∧
      ∀ change, s.stage i ≠ .left change
  | _ => True

/-- A step that meets the condition. -/
def UndisturbedNext (s : EditState ι) (e : EditStep ι) (t : EditState ι) : Prop :=
  EditState.Next env calls key s e t ∧ Undisturbed calls s e

/-! ## What holds in every state -/

def EditStage.ticket? : EditStage → Option Nat
  | .waiting ticket _ | .inside ticket _ | .written ticket _ => some ticket
  | _ => none

/-- The change a call has written. -/
def EditStage.wrote : EditStage → Option Change
  | .written _ change | .left change | .succeeded change => some change
  | _ => none

def Change.MadeBy (change : Change) (call : EditCall) : Prop :=
  call.finalContent env change.snapshot change.base = .ok change.next

/-- What a stage says about the queue and the content. -/
def StageOk (queue : MutationQueue String) (content : List Char) (call : EditCall) :
    EditStage → Prop
  | .ready | .failed => True
  | .prepared change => change.MadeBy env call ∧ call.isReplacement = false
  | .left change | .succeeded change => change.MadeBy env call
  | .waiting ticket change => queue.Waiting ticket key ∧ ∀ c ∈ change, c.MadeBy env call ∧
      call.isReplacement = false
  | .inside ticket change => queue.Inside ticket key ∧ ∀ c ∈ change, c.MadeBy env call ∧
      (call.isReplacement = true → c.base = content)
  | .written ticket change => queue.Inside ticket key ∧ change.MadeBy env call

/-- The content is what the calls that have written make of the content at the start. -/
def WrittenBy (start : List Char) (stage : ι → EditStage) (content : List Char) : Prop :=
  ∃ order : List (ι × Option String), (order.map Prod.fst).Nodup ∧
    (∀ i snapshot, (i, snapshot) ∈ order ↔
      ∃ change, (stage i).wrote = some change ∧ change.snapshot = snapshot) ∧
    applyCalls env calls order start = .ok content

/-- The invariant of the runs. -/
structure Consistent (start : List Char) (s : EditState ι) : Prop where
  queue : Queued s.queue
  stages : ∀ i, StageOk env key s.queue s.content (calls i) (s.stage i)
  apart : ∀ i j ticket, (s.stage i).ticket? = some ticket → (s.stage j).ticket? = some ticket →
    i = j
  written : WrittenBy env calls start s.stage s.content

variable {env calls key}

omit [DecidableEq ι] in
theorem Consistent.start (content : List Char) :
    Consistent env calls key content (EditState.start content : EditState ι) := by
  refine ⟨Queued.empty, fun _ => trivial, ?_, [], List.nodup_nil, ?_, rfl⟩
  · intro i j ticket h
    cases h
  · intro i snapshot
    constructor
    · intro h
      cases h
    · rintro ⟨change, h, -⟩
      cases h

theorem StageOk.next {q' : MutationQueue String} {content : List Char} {call : EditCall}
    {stage : EditStage} {e : QueueStep String} (h : StageOk env key q content call stage)
    (hq : q.Next e q') (hother : ∀ ticket, stage.ticket? = some ticket → e.ticket? ≠ some ticket) :
    StageOk env key q' content call stage := by
  cases stage with
  | ready => trivial
  | failed => trivial
  | prepared _ => exact h
  | left _ => exact h
  | succeeded _ => exact h
  | waiting ticket _ => exact ⟨h.1.next hq (hother ticket rfl), h.2⟩
  | inside ticket _ => exact ⟨h.1.next hq (hother ticket rfl), h.2⟩
  | written ticket _ => exact ⟨h.1.next hq (hother ticket rfl), h.2⟩

theorem StageOk.ticket_lt {content : List Char} {call : EditCall} {stage : EditStage} {ticket : Nat}
    (h : StageOk env key q content call stage) (ht : stage.ticket? = some ticket) :
    ticket < q.tickets.length := by
  cases stage with
  | waiting _ _ => cases ht; exact h.1.lt
  | inside _ _ => cases ht; exact h.1.lt
  | written _ _ => cases ht; exact h.1.lt
  | ready => cases ht
  | failed => cases ht
  | prepared _ => cases ht
  | left _ => cases ht
  | succeeded _ => cases ht

variable {i : ι} {s : EditState ι}

theorem WrittenBy.put {start content : List Char} {stage : ι → EditStage} {next : EditStage}
    (h : WrittenBy env calls start stage content) (hsame : next.wrote = (stage i).wrote) :
    WrittenBy env calls start (Function.update stage i next) content := by
  obtain ⟨order, hnodup, hmem, happly⟩ := h
  refine ⟨order, hnodup, ?_, happly⟩
  intro j snapshot
  rw [hmem]
  by_cases hj : j = i
  · rw [hj, Function.update_self, hsame]
  · rw [Function.update_of_ne hj]

theorem WrittenBy.write {start content : List Char} {stage : ι → EditStage} {i : ι}
    {next : EditStage} {change : Change} (h : WrittenBy env calls start stage content)
    (hbefore : (stage i).wrote = none) (hafter : next.wrote = some change)
    (hmade : change.MadeBy env (calls i)) (hbase : change.base = content) :
    WrittenBy env calls start (Function.update stage i next) change.next := by
  obtain ⟨order, hnodup, hmem, happly⟩ := h
  have hnew : i ∉ order.map Prod.fst := by
    intro hi
    obtain ⟨⟨j, snapshot⟩, hin, rfl⟩ := List.mem_map.mp hi
    obtain ⟨c, hc, -⟩ := (hmem j snapshot).mp hin
    rw [hbefore] at hc
    cases hc
  refine ⟨order ++ [(i, change.snapshot)], ?_, ?_, ?_⟩
  · rw [List.map_append]
    exact List.nodup_append.mpr ⟨hnodup, List.nodup_singleton _, by
      intro a ha b hb he
      rw [List.map_singleton, List.mem_singleton] at hb
      have hai : a = i := he.trans hb
      rw [hai] at ha
      exact hnew ha⟩
  · intro j snapshot
    rw [List.mem_append, List.mem_singleton, hmem]
    by_cases hj : j = i
    · subst hj
      rw [Function.update_self, hbefore, hafter]
      simp [eq_comm]
    · rw [Function.update_of_ne hj]
      simp [hj]
  · unfold applyCalls
    rw [List.foldlM_append]
    have hstep : (applyCalls env calls order start >>= fun content =>
        applyCalls env calls [(i, change.snapshot)] content) = .ok change.next := by
      rw [happly, ← hbase]
      show applyCalls env calls [(i, change.snapshot)] change.base = _
      unfold applyCalls
      rw [List.foldlM_cons]
      simp only [List.foldlM_nil, bind_pure]
      exact hmade
    exact hstep

theorem Consistent.put {start content : List Char} (h : Consistent env calls key start s) (i : ι)
    (next : EditStage) (hqueue : Queued q) (hnext : StageOk env key q content (calls i) next)
    (hothers : ∀ j, j ≠ i → StageOk env key q content (calls j) (s.stage j))
    (hticket : ∀ ticket, next.ticket? = some ticket → (s.stage i).ticket? = some ticket ∨
      s.queue.tickets.length ≤ ticket)
    (hwritten : WrittenBy env calls start (Function.update s.stage i next) content) :
    Consistent env calls key start
      { content, queue := q, stage := Function.update s.stage i next } := by
  have hfree : ∀ j ticket, j ≠ i → (s.stage j).ticket? = some ticket →
      next.ticket? = some ticket → False := by
    intro j ticket hj htj ht
    rcases hticket ticket ht with hsame | hnew
    · exact hj (h.apart j i ticket htj hsame)
    · have hlt := (h.stages j).ticket_lt htj
      omega
  refine ⟨hqueue, ?_, ?_, hwritten⟩
  · intro j
    dsimp only
    by_cases hj : j = i
    · rw [hj, Function.update_self]
      exact hnext
    · rw [Function.update_of_ne hj]
      exact hothers j hj
  · intro j k ticket hj hk
    dsimp only at hj hk
    by_cases hji : j = i
    · by_cases hki : k = i
      · exact hji.trans hki.symm
      · rw [hji, Function.update_self] at hj
        rw [Function.update_of_ne hki] at hk
        exact (hfree k ticket hki hk hj).elim
    · rw [Function.update_of_ne hji] at hj
      by_cases hki : k = i
      · rw [hki, Function.update_self] at hk
        exact (hfree j ticket hji hj hk).elim
      · rw [Function.update_of_ne hki] at hk
        exact h.apart j k ticket hj hk

omit [DecidableEq ι] in
theorem Consistent.others {start : List Char} {e : QueueStep String}
    (h : Consistent env calls key start s) (hq : s.queue.Next e q)
    (hown : ∀ ticket, e.ticket? = some ticket → (s.stage i).ticket? = some ticket) (j : ι)
    (hj : j ≠ i) : StageOk env key q s.content (calls j) (s.stage j) := by
  apply (h.stages j).next hq
  intro ticket hticket he
  exact hj (h.apart j i ticket hticket (hown ticket he))

omit [DecidableEq ι] in
theorem Consistent.others_write {start content : List Char} {ticket : Nat}
    (h : Consistent env calls key start s) (hticket : (s.stage i).ticket? = some ticket)
    (hin : s.queue.Inside ticket key) (j : ι) (hj : j ≠ i) :
    StageOk env key s.queue content (calls j) (s.stage j) := by
  have hok := h.stages j
  cases hstage : s.stage j with
  | inside other change =>
    rw [hstage] at hok
    have hsame := h.queue.exclusive hok.1 hin
    exact absurd (h.apart j i ticket (by rw [hstage, ← hsame]; rfl) hticket) hj
  | ready => trivial
  | failed => trivial
  | prepared _ => rw [hstage] at hok; exact hok
  | left _ => rw [hstage] at hok; exact hok
  | succeeded _ => rw [hstage] at hok; exact hok
  | waiting _ _ => rw [hstage] at hok; exact hok
  | written _ _ => rw [hstage] at hok; exact hok

theorem Consistent.next {start : List Char} {t : EditState ι} {e : EditStep ι}
    (hnext : UndisturbedNext env calls key s e t) (h : Consistent env calls key start s) :
    Consistent env calls key start t := by
  obtain ⟨hstep, hguard⟩ := hnext
  cases hstep with
  | @prepare i snapshot next hstage hcall hmade =>
    apply h.put i (.prepared { snapshot, base := s.content, next }) h.queue ⟨hmade, hcall⟩
      fun j _ => h.stages j
    · intro ticket ht
      cases ht
    · apply h.written.put
      rw [hstage]
      rfl
  | @registerReplacement i hstage hcall =>
    have hq : s.queue.Next (.register key) (s.queue.register key) := .register _ key
    apply h.put i (.waiting s.queue.tickets.length none) (h.queue.register key)
      ⟨s.queue.waiting_register key, fun _ hc => nomatch hc⟩ (h.others hq fun _ he => nomatch he)
    · intro ticket ht
      cases ht
      exact .inr (Nat.le_refl _)
    · apply h.written.put
      rw [hstage]
      rfl
  | @registerPatch i change hstage =>
    have hq : s.queue.Next (.register key) (s.queue.register key) := .register _ key
    have hok := h.stages i
    rw [hstage] at hok
    have hchange : ∀ c ∈ some change, c.MadeBy env (calls i) ∧ (calls i).isReplacement = false := by
      intro c hc
      cases hc
      exact hok
    apply h.put i (.waiting s.queue.tickets.length (some change)) (h.queue.register key)
      ⟨s.queue.waiting_register key, hchange⟩ (h.others hq fun _ he => nomatch he)
    · intro ticket ht
      cases ht
      exact .inr (Nat.le_refl _)
    · apply h.written.put
      rw [hstage]
      rfl
  | @enter i ticket change queue hstage hq =>
    have hok := h.stages i
    rw [hstage] at hok
    have hown : ∀ other, QueueStep.ticket? (.enter ticket : QueueStep String) = some other →
        (s.stage i).ticket? = some other := by
      intro other he
      cases he
      rw [hstage]
      rfl
    have hqueue : queue = s.queue.enter ticket := by
      cases hq
      rfl
    apply h.put i (.inside ticket change) (h.queue.next hq) _ (h.others hq hown)
    · intro other ht
      cases ht
      exact .inl (hown ticket rfl)
    · apply h.written.put
      rw [hstage]
      rfl
    · refine ⟨?_, ?_⟩
      · rw [hqueue]
        exact h.queue.inside_enter hok.1
      · intro c hc
        obtain ⟨hmade, hcall⟩ := hok.2 c hc
        refine ⟨hmade, ?_⟩
        intro hreplacement
        rw [hcall] at hreplacement
        cases hreplacement
  | @read i ticket next hstage hmade =>
    have hok := h.stages i
    rw [hstage] at hok
    apply h.put i (.inside ticket (some { snapshot := none, base := s.content, next })) h.queue
      ⟨hok.1, by
        intro c hc
        cases hc
        exact ⟨hmade, fun _ => rfl⟩⟩
      fun j _ => h.stages j
    · intro other ht
      cases ht
      rw [hstage]
      exact .inl rfl
    · apply h.written.put
      rw [hstage]
      rfl
  | @write i ticket change hstage =>
    have hok := h.stages i
    rw [hstage] at hok
    obtain ⟨hin, hmade⟩ := hok
    obtain ⟨hmade, hread⟩ := hmade change rfl
    have hbase : change.base = s.content := by
      cases hcall : (calls i).isReplacement with
      | true => exact hread hcall
      | false => exact hguard hcall ticket change hstage
    have hticket : (s.stage i).ticket? = some ticket := by rw [hstage]; rfl
    apply h.put i (.written ticket change) h.queue ⟨hin, hmade⟩ (h.others_write hticket hin)
    · intro other ht
      cases ht
      exact .inl hticket
    · apply h.written.write _ rfl hmade hbase
      rw [hstage]
      rfl
  | @leave i ticket change queue hstage hq =>
    have hok := h.stages i
    rw [hstage] at hok
    apply h.put i (.left change) (h.queue.next hq) hok.2
      (h.others hq fun _ he => by cases he; rw [hstage]; rfl)
    · intro other ht
      cases ht
    · apply h.written.put
      rw [hstage]
      rfl
  | @finish i change hstage =>
    have hok := h.stages i
    rw [hstage] at hok
    apply h.put i (.succeeded change) h.queue hok fun j _ => h.stages j
    · intro ticket ht
      cases ht
    · apply h.written.put
      rw [hstage]
      rfl
  | @failOutside i hstage =>
    apply h.put i .failed h.queue trivial fun j _ => h.stages j
    · intro ticket ht
      cases ht
    · apply h.written.put
      rcases hstage with hs | ⟨change, hs⟩ | ⟨change, hs⟩
      · rw [hs]; rfl
      · rw [hs]; rfl
      · exact absurd hs (hguard.2 change)
  | @failInside i ticket queue hstage hq =>
    have hinside : ∃ change, s.stage i = .inside ticket change := by
      rcases hstage with hs | ⟨change, hs⟩
      · exact hs
      · exact absurd hs (hguard.1 ticket change)
    obtain ⟨change, hs⟩ := hinside
    apply h.put i .failed (h.queue.next hq) trivial
      (h.others hq fun _ he => by cases he; rw [hs]; rfl)
    · intro other ht
      cases ht
    · apply h.written.put
      rw [hs]
      rfl

end Calls

namespace LostUpdateExample

/-- The first digits of the digests of the texts of the example. -/
def sha256Hex (text : String) : String :=
  if text = "a\n" then "87428fc522803d31065e7bce3cf03fe4"
  else if text = "x\na\n" then "c4ab195b4963fb11bca77956eeab5577"
  else "132a7dea2960222f52e955a851d4d4d5"

def env : EditEnv := { sha256Hex, nfkc := id }

def head : HashlineOperation := .insert .head ["x"]
def tail : HashlineOperation := .insert .tail ["y"]
def patch (operation : HashlineOperation) : HashlinePatchSection :=
  { path := "file", hash := "8742", operations := [operation] }

def calls : Bool → EditCall
  | false => .hashline (patch head)
  | true => .hashline (patch tail)

theorem hashA : computeFileHash sha256Hex "a\n" = "8742" := by decide
theorem validA : validateHashlineSnapshot sha256Hex "a\n" "8742" "file" = .ok () := by
  unfold validateHashlineSnapshot
  dsimp only
  rw [hashA]
  decide

theorem fresh (operation : HashlineOperation) :
    applyHashlineSectionWithRecovery sha256Hex "a\n" "a\n" (patch operation) =
      (applyHashlineSectionToText "a\n" (patch operation)).map fun text =>
        { text, recovered := false } := by
  have hnorm : normalizeSnapshotText "a\n" = "a\n" := by decide
  unfold applyHashlineSectionWithRecovery
  dsimp only
  rw [hnorm, show (patch operation).hash = "8742" from rfl,
    show (patch operation).path = "file" from rfl, validA, hashA, if_pos (by decide)]
  rfl

theorem stale {current : String} (operation : HashlineOperation)
    (hnorm : normalizeSnapshotText current = current)
    (hhash : computeFileHash sha256Hex current ≠ "8742") :
    applyHashlineSectionWithRecovery sha256Hex "a\n" current (patch operation) =
      (recoverSection "a\n" current (patch operation)).map fun text =>
        { text, recovered := true } := by
  have hnormA : normalizeSnapshotText "a\n" = "a\n" := by decide
  have hupper : upperTag "8742" = "8742" := by decide
  unfold applyHashlineSectionWithRecovery
  dsimp only
  rw [hnorm, hnormA, show (patch operation).hash = "8742" from rfl,
    show (patch operation).path = "file" from rfl, validA, hupper, if_neg hhash]
  rfl

theorem head_fresh : applyHashlineSectionToText "a\n" (patch head) = .ok "x\na\n" := by
  rw [@applyHashlineSectionToText_insert _ _ (mutationOf head 1 0) (by decide) (by decide)]
  decide

theorem tail_fresh : applyHashlineSectionToText "a\n" (patch tail) = .ok "a\ny\n" := by
  rw [@applyHashlineSectionToText_insert _ _ (mutationOf tail 1 0) (by decide) (by decide)]
  decide

theorem first_head : (calls false).finalContent env (some "a\n") "a\n".toList =
    .ok "x\na\n".toList := by
  show (patchedText env (patch head) (some "a\n") "a\n".toList >>= _) = _
  show (((applyHashlineSectionWithRecovery sha256Hex "a\n" "a\n" (patch head)).map _) >>= _) = _
  rw [fresh, head_fresh]
  decide

theorem first_tail : (calls true).finalContent env (some "a\n") "a\n".toList =
    .ok "a\ny\n".toList := by
  show (((applyHashlineSectionWithRecovery sha256Hex "a\n" "a\n" (patch tail)).map _) >>= _) = _
  rw [fresh, tail_fresh]
  decide

/-- The content each call has read, and its change. -/
def change (next : String) : Change :=
  { snapshot := some "a\n", base := "a\n".toList, next := next.toList }

theorem run : ∃ events s, Run (EditState.Next env calls "file")
    (EditState.start "a\n".toList) events s ∧ s.content = "a\ny\n".toList ∧
    s.stage false = .succeeded (change "x\na\n") ∧ s.stage true = .succeeded (change "a\ny\n") := by
  refine ⟨[.read false, .read true, .register false, .enter false, .write false, .leave false,
    .finish false, .register true, .enter true, .write true, .leave true, .finish true], _,
    .cons (@EditState.Next.prepare _ _ _ _ _ _ false _ _ rfl rfl first_head) <|
    .cons (@EditState.Next.prepare _ _ _ _ _ _ true _ _ rfl rfl first_tail) <|
    .cons (.registerPatch rfl) <| .cons (.enter rfl (.enter rfl rfl ?_)) <|
    .cons (.write rfl) <| .cons (.leave rfl (.leave rfl rfl rfl)) <| .cons (.finish rfl) <|
    .cons (.registerPatch rfl) <| .cons (.enter rfl (.enter rfl rfl ?_)) <|
    .cons (.write rfl) <| .cons (.leave rfl (.leave rfl rfl rfl)) <| .cons (.finish rfl) <|
    .nil _, rfl, rfl, rfl⟩
  · intro p hp
    cases hp
  · intro p hp
    cases hp

end LostUpdateExample

end PieLab

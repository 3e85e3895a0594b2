import Mathlib.Data.List.Count

/-
  Calls and answers in a transcript — a library

  A transcript is a list of messages, turns that make calls, and answers to calls by
  their ids. A pass drops the failed turns and gives every call without an answer one,
  before the next message or turn.

  What is proved:
    1. `answers_complete` — the answers a turn finds behind it after the pass.
    2. `complete_paired_iff` — exactly the transcripts for which the pass leaves every
       call with one answer and every answer with a call.
    3. `turns_complete` — the turns that are left.
-/

namespace PieLab.Lib

/-- What a transcript holds: a message, a turn with the calls it makes, or an answer. -/
inductive Mark (ι : Type) where
  | message
  | turn (failed : Bool) (calls : List ι)
  | answer (id : ι)
  deriving DecidableEq

namespace Mark
variable {ι : Type}

/-- The calls of a turn that did not fail. -/
def kept? : Mark ι → Option (List ι)
  | .turn false calls => some calls
  | _ => none

/-- The answers in front: those that come before any message or turn. -/
def answers : List (Mark ι) → List ι
  | .answer id :: rest => id :: answers rest
  | _ => []

/-- The answers that come before any message or turn that did not fail. -/
def answersPast : List (Mark ι) → List ι
  | .answer id :: rest => id :: answersPast rest
  | .turn true _ :: rest => answersPast rest
  | _ => []

/-- Those of them that a failed turn stands before. -/
def lateAnswers : List (Mark ι) → List ι
  | .answer _ :: rest => lateAnswers rest
  | .turn true _ :: rest => answersPast rest
  | _ => []

@[simp] theorem answers_append (ids : List ι) (l : List (Mark ι)) :
    answers (ids.map .answer ++ l) = ids ++ answers l := by
  induction ids with
  | nil => rfl
  | cons id ids ih => simp [answers, ih]

@[simp] theorem answers_map (ids : List ι) : answers (ids.map .answer) = ids := by
  simpa [answers] using answers_append ids []

theorem answersPast_eq (l : List (Mark ι)) : answersPast l = answers l ++ lateAnswers l := by
  induction l with
  | nil => rfl
  | cons mark rest ih =>
    cases mark with
    | message => rfl
    | turn failed calls => cases failed <;> rfl
    | answer id => simp [answersPast, answers, lateAnswers, ih]

/-! ## Every position of a transcript -/

/-- Every turn that did not fail is related to what comes behind it. -/
def EachTurn (Q : List ι → List (Mark ι) → Prop) (l : List (Mark ι)) : Prop :=
  ∀ before calls after, l = before ++ .turn false calls :: after → Q calls after

/-- Every answer has a call before it, or one of those already known. -/
def Owned (known : List ι) (l : List (Mark ι)) : Prop :=
  ∀ before id after, l = before ++ .answer id :: after →
    id ∈ known ∨ ∃ calls, .turn false calls ∈ before ∧ id ∈ calls

@[simp] theorem eachTurn_nil (Q : List ι → List (Mark ι) → Prop) : EachTurn Q [] := by
  intro before calls after h
  simp at h

theorem eachTurn_cons {Q : List ι → List (Mark ι) → Prop} {mark : Mark ι} {l : List (Mark ι)} :
    EachTurn Q (mark :: l) ↔ (∀ calls, mark = .turn false calls → Q calls l) ∧ EachTurn Q l := by
  constructor
  · intro h
    refine ⟨?_, ?_⟩
    · intro calls hmark
      exact h [] calls l (by rw [hmark, List.nil_append])
    · intro before calls after hl
      exact h (mark :: before) calls after (by rw [hl, List.cons_append])
  · intro h before calls after hl
    cases before with
    | nil =>
      obtain ⟨hmark, rfl⟩ := List.cons.inj hl
      exact h.1 calls hmark
    | cons first before => exact h.2 before calls after (List.cons.inj hl).2

@[simp] theorem owned_nil (known : List ι) : Owned known [] := by
  intro before id after h
  simp at h

theorem owned_cons {known : List ι} {mark : Mark ι} {l : List (Mark ι)} :
    Owned known (mark :: l) ↔
      (∀ id, mark = .answer id → id ∈ known) ∧ Owned (known ++ mark.kept?.getD []) l := by
  -- a call in front is one more that is known to the rest
  have hcall : ∀ id, id ∈ mark.kept?.getD [] ↔ ∃ calls, mark = .turn false calls ∧ id ∈ calls := by
    intro id
    cases mark with
    | message => simp [kept?]
    | turn failed calls => cases failed <;> simp [kept?]
    | answer id' => simp [kept?]
  constructor
  · intro h
    refine ⟨?_, ?_⟩
    · intro id hmark
      rcases h [] id l (by rw [hmark, List.nil_append]) with hknown | ⟨calls, hmem, _⟩
      · exact hknown
      · simp at hmem
    · intro before id after hl
      rcases h (mark :: before) id after (by rw [hl, List.cons_append]) with
        hknown | ⟨calls, hmem, hid⟩
      · exact .inl (List.mem_append_left _ hknown)
      · rcases List.mem_cons.mp hmem with hmark | hbefore
        · exact .inl (List.mem_append_right _ ((hcall id).mpr ⟨calls, hmark.symm, hid⟩))
        · exact .inr ⟨calls, hbefore, hid⟩
  · intro h before id after hl
    cases before with
    | nil => exact .inl (h.1 id (List.cons.inj hl).1)
    | cons first before =>
      obtain ⟨rfl, hrest⟩ := List.cons.inj hl
      rcases h.2 before id after hrest with hknown | ⟨calls, hmem, hid⟩
      · rcases List.mem_append.mp hknown with hknown | hfirst
        · exact .inl hknown
        · obtain ⟨calls, hmark, hid⟩ := (hcall id).mp hfirst
          exact .inr ⟨calls, by rw [hmark]; exact List.mem_cons_self, hid⟩
      · exact .inr ⟨calls, List.mem_cons_of_mem _ hmem, hid⟩

@[simp] theorem eachTurn_answers {Q : List ι → List (Mark ι) → Prop} (ids : List ι)
    (l : List (Mark ι)) : EachTurn Q (ids.map .answer ++ l) ↔ EachTurn Q l := by
  induction ids with
  | nil => rfl
  | cons id ids ih => simp [eachTurn_cons, ih]

theorem owned_answers {known ids : List ι} (h : ∀ id ∈ ids, id ∈ known) (l : List (Mark ι)) :
    Owned known (ids.map .answer ++ l) ↔ Owned known l := by
  induction ids with
  | nil => rfl
  | cons id ids ih =>
    have hid : id ∈ known := h id List.mem_cons_self
    simp [owned_cons, kept?, hid, ih fun x hx => h x (List.mem_cons_of_mem _ hx)]

/-! ## The pass -/

variable [DecidableEq ι]

/-- Every call has one answer before the next message or turn, and every answer has a
call before it. -/
structure Paired (l : List (Mark ι)) : Prop where
  answered : ∀ before failed calls after, l = before ++ .turn failed calls :: after →
    ∀ id ∈ calls, (answers after).count id = 1
  owned : ∀ before id after, l = before ++ .answer id :: after →
    ∃ failed calls, .turn failed calls ∈ before ∧ id ∈ calls

/-- What a transcript must be for the pass to pair it: each call of a turn that did not
fail has at most one answer before the next message or turn and none behind a failed
turn, a call without an answer is the only one of its id in its turn, and every answer
has the call of such a turn before it. -/
structure Matched (l : List (Mark ι)) : Prop where
  answered : ∀ before calls after, l = before ++ .turn false calls :: after → ∀ id ∈ calls,
    (answers after).count id ≤ 1 ∧ id ∉ lateAnswers after ∧
      (id ∈ answers after ∨ calls.count id = 1)
  owned : ∀ before id after, l = before ++ .answer id :: after →
    ∃ calls, .turn false calls ∈ before ∧ id ∈ calls

/-- The answers that are missing. -/
def missing (calls seen : List ι) : List ι := calls.filter (· ∉ seen)

/-- The pass, with the calls of the last turn and the answers seen since. -/
def complete (pending seen : List ι) : List (Mark ι) → List (Mark ι)
  | [] => (missing pending seen).map .answer
  | .message :: rest => (missing pending seen).map .answer ++ .message :: complete [] [] rest
  | .turn true _ :: rest => (missing pending seen).map .answer ++ complete [] [] rest
  | .turn false calls :: rest =>
    (missing pending seen).map .answer ++ .turn false calls :: complete calls [] rest
  | .answer id :: rest => .answer id :: complete pending (seen ++ [id]) rest

@[simp] theorem missing_nil (seen : List ι) : missing [] seen = [] := rfl

theorem complete_congr {pending seen seen' : List ι}
    (h : ∀ id ∈ pending, (id ∈ seen ↔ id ∈ seen')) (l : List (Mark ι)) :
    complete pending seen l = complete pending seen' l := by
  have hmissing : missing pending seen = missing pending seen' :=
    List.filter_congr fun id hid => by simp [h id hid]
  induction l generalizing seen seen' with
  | nil => simp [complete, hmissing]
  | cons mark rest ih =>
    cases mark with
    | message => simp [complete, hmissing]
    | turn failed calls => cases failed <;> simp [complete, hmissing]
    | answer id =>
      have hmem : ∀ id' ∈ pending, (id' ∈ seen ++ [id] ↔ id' ∈ seen' ++ [id]) := by
        intro id' hid
        rw [List.mem_append, List.mem_append, h id' hid]
      rw [complete, complete, ih hmem]
      exact List.filter_congr fun id' hid => by simp [hmem id' hid]

/-! ## What a turn finds behind it -/

/-- The recorded answers come first, then what the pass adds, then what failed turns
have left. -/
theorem answers_complete (pending seen : List ι) (l : List (Mark ι)) :
    answers (complete pending seen l) =
      answers l ++ missing pending (seen ++ answers l) ++ lateAnswers l := by
  induction l generalizing pending seen with
  | nil => simp [complete, answers, lateAnswers]
  | cons mark rest ih =>
    cases mark with
    | message => simp [complete, answers, lateAnswers]
    | turn failed calls =>
      cases failed with
      | false => simp [complete, answers, lateAnswers]
      | true => simp [complete, answers, lateAnswers, ih, answersPast_eq]
    | answer id => simp [complete, answers, lateAnswers, ih, List.append_assoc]

theorem count_missing (calls seen : List ι) (id : ι) :
    (missing calls seen).count id = if id ∈ seen then 0 else calls.count id := by
  by_cases h : id ∈ seen
  · rw [if_pos h, List.count_eq_zero]
    intro hmem
    exact (by simpa using (List.mem_filter.mp hmem).2 : id ∉ seen) h
  · rw [if_neg h]
    exact List.count_filter (by simpa using h)

theorem count_answers_complete {calls : List ι} {id : ι} (h : id ∈ calls) (l : List (Mark ι)) :
    (answers (complete calls [] l)).count id = 1 ↔
      (answers l).count id ≤ 1 ∧ id ∉ lateAnswers l ∧ (id ∈ answers l ∨ calls.count id = 1) := by
  have hcalls : 0 < calls.count id := List.count_pos_iff.mpr h
  rw [answers_complete, List.nil_append, List.count_append, List.count_append, count_missing,
    ← List.count_eq_zero]
  by_cases hin : id ∈ answers l
  · have hpos : 0 < (answers l).count id := List.count_pos_iff.mpr hin
    simp only [hin, if_true, true_or, and_true]
    omega
  · have hzero : (answers l).count id = 0 := List.count_eq_zero.mpr hin
    simp only [hin, if_false, false_or]
    omega

/-! ## What the pass leaves -/

/-- The turns that did not fail are kept, in order. -/
theorem turns_complete (pending seen : List ι) (l : List (Mark ι)) :
    (complete pending seen l).filterMap kept? = l.filterMap kept? := by
  have hanswers : ∀ ids : List ι, (ids.map .answer).filterMap kept? = [] := by
    intro ids
    simp [List.filterMap_map, Function.comp_def, kept?]
  induction l generalizing pending seen with
  | nil => simp [complete, hanswers]
  | cons mark rest ih =>
    cases mark with
    | message => simp [complete, hanswers, List.filterMap_cons, ih, kept?]
    | turn failed calls =>
      cases failed <;> simp [complete, hanswers, List.filterMap_cons, ih, kept?]
    | answer id => simp [complete, List.filterMap_cons, ih, kept?]

theorem not_failed_complete (pending seen calls : List ι) (l : List (Mark ι)) :
    .turn true calls ∉ complete pending seen l := by
  induction l generalizing pending seen with
  | nil => simp [complete]
  | cons mark rest ih =>
    cases mark with
    | message => simp [complete, ih]
    | turn failed calls => cases failed <;> simp [complete, ih]
    | answer id => simp [complete, ih]

theorem eachTurn_complete (pending seen : List ι) (l : List (Mark ι)) :
    EachTurn (fun calls after => ∀ id ∈ calls, (answers after).count id = 1)
        (complete pending seen l) ↔
      EachTurn (fun calls after => ∀ id ∈ calls, (answers after).count id ≤ 1 ∧
        id ∉ lateAnswers after ∧ (id ∈ answers after ∨ calls.count id = 1)) l := by
  induction l generalizing pending seen with
  | nil =>
    have h := eachTurn_answers (Q := fun calls after => ∀ id ∈ calls, (answers after).count id = 1)
      (missing pending seen) []
    simpa [complete] using h
  | cons mark rest ih =>
    cases mark with
    | message => simp [complete, eachTurn_cons, ih]
    | turn failed calls =>
      cases failed with
      | true => simp [complete, eachTurn_cons, ih]
      | false =>
        simp only [complete, eachTurn_answers, eachTurn_cons, ih, turn.injEq, true_and,
          forall_eq']
        refine and_congr_left fun _ => forall₂_congr ?_
        intro id hid
        exact count_answers_complete hid rest
    | answer id => simp [complete, eachTurn_cons, ih]

theorem owned_complete {known pending : List ι} (h : ∀ id ∈ pending, id ∈ known) (seen : List ι)
    (l : List (Mark ι)) : Owned known (complete pending seen l) ↔ Owned known l := by
  have hmissing : ∀ id ∈ missing pending seen, id ∈ known :=
    fun id hid => h id (List.mem_filter.mp hid).1
  induction l generalizing known pending seen with
  | nil =>
    have hnil := owned_answers hmissing []
    simpa [complete] using hnil
  | cons mark rest ih =>
    cases mark with
    | message =>
      rw [complete, owned_answers hmissing, owned_cons, owned_cons]
      refine and_congr_right fun _ => ?_
      exact ih (by simp) [] (by simp)
    | turn failed calls =>
      cases failed with
      | true =>
        rw [complete, owned_answers hmissing, owned_cons]
        have hnone : ∀ id ∈ ([] : List ι), id ∈ known := by simp
        simpa [kept?] using ih hnone [] hnone
      | false =>
        have hcalls : ∀ id ∈ calls, id ∈ known ++ calls :=
          fun id hid => List.mem_append_right _ hid
        rw [complete, owned_answers hmissing, owned_cons, owned_cons]
        refine and_congr_right fun _ => ?_
        exact ih hcalls [] fun id hid => hcalls id (List.mem_filter.mp hid).1
    | answer id =>
      have hpending : ∀ id' ∈ pending, id' ∈ known ++ (kept? (.answer id)).getD [] :=
        fun id' hid => List.mem_append_left _ (h id' hid)
      rw [complete, owned_cons, owned_cons]
      refine and_congr_right fun _ => ?_
      exact ih hpending _ fun id' hid => hpending id' (List.mem_filter.mp hid).1

theorem complete_paired_iff (l : List (Mark ι)) : Paired (complete [] [] l) ↔ Matched l := by
  have hturns := eachTurn_complete [] [] l
  have hnone : ∀ id ∈ ([] : List ι), id ∈ ([] : List ι) := by simp
  have howned := owned_complete hnone [] l
  constructor
  · intro h
    refine ⟨hturns.mp ?_, ?_⟩
    · intro before calls after hl
      exact h.answered before false calls after hl
    · have howned' : Owned [] l := howned.mp fun before id after hl => by
        obtain ⟨failed, calls, hmem, hid⟩ := h.owned before id after hl
        cases failed with
        | true =>
          exact absurd (hl ▸ List.mem_append_left _ hmem) (not_failed_complete [] [] calls l)
        | false => exact .inr ⟨calls, hmem, hid⟩
      intro before id after hl
      exact (howned' before id after hl).resolve_left (by simp)
  · intro h
    refine ⟨?_, ?_⟩
    · intro before failed calls after hl
      cases failed with
      | true =>
        exact absurd (hl ▸ List.mem_append_right _ List.mem_cons_self)
          (not_failed_complete [] [] calls l)
      | false => exact hturns.mpr h.answered before calls after hl
    · intro before id after hl
      have howned' : Owned [] (complete [] [] l) :=
        howned.mpr fun before id after hl => .inr (h.owned before id after hl)
      obtain ⟨calls, hmem, hid⟩ := (howned' before id after hl).resolve_left (by simp)
      exact ⟨false, calls, hmem, hid⟩

end Mark

end PieLab.Lib

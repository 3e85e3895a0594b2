import PieLab.Gateway.WebIpc

/-
  Answers of the web chat

  A request of the web is answered by one frame with the final text of its own job,
  and by an empty one if the job has none. The worker sends a final text to the
  transport that was set last, and a request that finds a turn in flight closes its
  transport while its job still waits; where requests overlap, both go wrong.

  What is proved:
    1. `WebNext.kept` — what a careful step keeps (`Kept`): where each request, its
       job and its frames are.
    2. `web_chat_answers` — in a run of careful steps each closed connection has got
       one final frame, with the final text of the job of its own message.
    3. `answer_closed_early` — a second request that arrives while a turn is in
       flight is closed with an empty answer, though its job has a text.
-/

namespace PieLab.Gateway

open Lib

namespace WebChat

/-! ## Frames -/

def doneText (i : Nat) : Nat × Frame → Option String
  | (j, .done text) => if j = i then some text else none
  | (_, .delta _) => none

/-- The final frames a connection has got. -/
def doneFrames (s : WebChat) (i : Nat) : List String := s.frames.filterMap (doneText i)

section Frames
variable (s : WebChat)

@[simp] theorem doneFrames_write_delta (i j : Nat) (text : String) :
    (s.write j (.delta text)).doneFrames i = s.doneFrames i := by
  unfold write doneFrames
  split
  · rfl
  · simp [doneText]

@[simp] theorem doneFrames_writeTo_delta (transport : Option Nat) (i : Nat) (text : String) :
    (s.writeTo transport (.delta text)).doneFrames i = s.doneFrames i := by
  cases transport with
  | none => rfl
  | some j => exact s.doneFrames_write_delta i j text

theorem doneFrames_write_done {i : Nat} (hopen : s.phase i ≠ .closed) (text : String) :
    (s.write i (.done text)).doneFrames i = s.doneFrames i ++ [text] := by
  unfold write doneFrames
  rw [if_neg hopen]
  simp [doneText]

theorem doneFrames_write_other {i j : Nat} (hne : j ≠ i) (frame : Frame) :
    (s.write j frame).doneFrames i = s.doneFrames i := by
  unfold write doneFrames
  split
  · rfl
  · cases frame <;> simp [doneText, hne]

theorem write_eq (i : Nat) (frame : Frame) : ∃ frames, s.write i frame = { s with frames } := by
  unfold write
  split
  · exact ⟨s.frames, rfl⟩
  · exact ⟨_, rfl⟩

theorem writeTo_eq (transport : Option Nat) (frame : Frame) :
    ∃ frames, s.writeTo transport frame = { s with frames } := by
  cases transport with
  | none => exact ⟨s.frames, rfl⟩
  | some i => exact s.write_eq i frame

end Frames

/-! ## Where a request is -/

/-- Nothing final was sent to the request. -/
def Silent (s : WebChat) (i : Nat) : Prop := s.doneFrames i = [] ∧ s.doneSent i = false

/-- What was sent to the request once its job has ended with the text. -/
def Delivered (s : WebChat) (i : Nat) (text : String) : Prop :=
  if text = "" then s.Silent i else s.doneFrames i = [text] ∧ s.doneSent i = true

/-- The job of a record is in the queue, or its turn is prompting. -/
def InLine (s : WebChat) (r : Nat) : Prop :=
  (∃ job ∈ s.runtime.pendingJobs, job.triggerRecordId = r) ∨
    ∃ turn, s.turn = some turn ∧ turn.stage = .prompting ∧ turn.job.triggerRecordId = r

/-- The job of the request has ended, and what it ended with was delivered. -/
def Ended (s : WebChat) (i : Nat) : Prop :=
  ∃ r text, s.recordOf i = some r ∧ s.outcomeOf r = some text ∧ s.Delivered i text

/-- The job of the request is still to come. -/
def Awaits (s : WebChat) (i : Nat) : Prop :=
  ∃ r, s.recordOf i = some r ∧ s.outcomeOf r = none ∧ s.Silent i ∧ s.InLine r

/-- What a request has got, by where it is. -/
def Served (isControl : String → Bool) (s : WebChat) (i : Nat) : Prop :=
  match s.phase i with
  | .absent | .creating | .locked | .connected | .ingesting => s.recordOf i = none ∧ s.Silent i
  | .commanding => isControl (s.textOf i) = true ∧ s.Silent i
  | .appended recordId message =>
    s.recordOf i = some recordId ∧ s.outcomeOf recordId = none ∧ s.Silent i ∧
      webConversation.shouldTriggerJob message = some .dm
  | .queued job =>
    s.recordOf i = some job.triggerRecordId ∧ s.outcomeOf job.triggerRecordId = none ∧ s.Silent i
  | .ingested | .running => s.Awaits i ∨ s.Ended i
  | .returned => isControl (s.textOf i) = true ∧ s.Silent i ∨ s.Ended i
  | .closed =>
    isControl (s.textOf i) = true ∧ s.doneFrames i = [""] ∨
      ∃ r text, s.recordOf i = some r ∧ s.outcomeOf r = some text ∧ s.doneFrames i = [text]

/-- A request of the queue waits for the job of the record. -/
def Waits (s : WebChat) (r : Nat) : Prop :=
  s.outcomeOf r = none ∧ ∃ i, s.recordOf i = some r ∧ (s.phase i = .ingested ∨ s.phase i = .running)

structure Kept (isControl : String → Bool) (s : WebChat) : Prop where
  idle : s.turn = none → s.runtime.activeJob = none
  armed : ∃ armed, s.runtime.armedAfterRecordId = some armed ∧ armed < s.runtime.log.nextRecordId ∧
    ∀ i r, s.recordOf i = some r → armed < r
  records : ∀ i r, s.recordOf i = some r → r < s.runtime.log.nextRecordId
  fresh : ∀ r, s.runtime.log.nextRecordId ≤ r → s.outcomeOf r = none
  distinct : ∀ i j r, s.recordOf i = some r → s.recordOf j = some r → i = j
  pending : ∀ job ∈ s.runtime.pendingJobs, s.Waits job.triggerRecordId
  nodup : (s.runtime.pendingJobs.map PendingJob.triggerRecordId).Nodup
  prompting : ∀ turn, s.turn = some turn → turn.stage = .prompting → s.Waits turn.job.triggerRecordId ∧
    turn.job.triggerRecordId ∉ s.runtime.pendingJobs.map PendingJob.triggerRecordId
  owner : ∀ turn, s.turn = some turn → s.phase turn.owner = .running
  served : ∀ i, s.Served isControl i

/-! ## What a step leaves of a request -/

/-- Nothing is sent to the request, and its job stays in line. -/
structure Untouched (s t : WebChat) (i : Nat) : Prop where
  frames : t.doneFrames i = s.doneFrames i
  sent : t.doneSent i = s.doneSent i
  text : t.textOf i = s.textOf i
  record : t.recordOf i = s.recordOf i
  outcome : ∀ r, s.recordOf i = some r → t.outcomeOf r = s.outcomeOf r
  line : ∀ r, s.recordOf i = some r → s.InLine r → t.InLine r

namespace Untouched
variable {s t : WebChat} {i : Nat} (h : Untouched s t i)
include h

theorem silent (hs : s.Silent i) : t.Silent i := by
  unfold Silent
  rw [h.frames, h.sent]
  exact hs

theorem delivered {text : String} (hs : s.Delivered i text) : t.Delivered i text := by
  unfold Delivered Silent at hs ⊢
  rw [h.frames, h.sent]
  exact hs

theorem ended (hs : s.Ended i) : t.Ended i := by
  obtain ⟨r, text, hrecord, houtcome, hdelivered⟩ := hs
  refine ⟨r, text, ?_, ?_, h.delivered hdelivered⟩
  · rw [h.record]
    exact hrecord
  · rw [h.outcome r hrecord]
    exact houtcome

theorem awaits (hs : s.Awaits i) : t.Awaits i := by
  obtain ⟨r, hrecord, houtcome, hsilent, hline⟩ := hs
  refine ⟨r, ?_, ?_, h.silent hsilent, h.line r hrecord hline⟩
  · rw [h.record]
    exact hrecord
  · rw [h.outcome r hrecord]
    exact houtcome

theorem served {isControl : String → Bool} (hphase : t.phase i = s.phase i)
    (hs : s.Served isControl i) : t.Served isControl i := by
  unfold Served at hs ⊢
  rw [hphase]
  cases hwhere : s.phase i <;> rw [hwhere] at hs <;> simp only at hs ⊢
  case absent | creating | locked | connected | ingesting =>
    exact ⟨h.record.trans hs.1, h.silent hs.2⟩
  case commanding => exact ⟨by rw [h.text]; exact hs.1, h.silent hs.2⟩
  case appended recordId message =>
    obtain ⟨hrecord, houtcome, hsilent, htrigger⟩ := hs
    exact ⟨h.record.trans hrecord, (h.outcome _ hrecord).trans houtcome, h.silent hsilent, htrigger⟩
  case queued job =>
    obtain ⟨hrecord, houtcome, hsilent⟩ := hs
    exact ⟨h.record.trans hrecord, (h.outcome _ hrecord).trans houtcome, h.silent hsilent⟩
  case ingested | running => exact hs.imp h.awaits h.ended
  case returned => exact hs.imp (fun hs => ⟨by rw [h.text]; exact hs.1, h.silent hs.2⟩) h.ended
  case closed =>
    obtain ⟨hcontrol, hframes⟩ | ⟨r, text, hrecord, houtcome, hframes⟩ := hs
    · exact .inl ⟨by rw [h.text]; exact hcontrol, h.frames.trans hframes⟩
    · exact .inr ⟨r, text, h.record.trans hrecord, (h.outcome r hrecord).trans houtcome,
        h.frames.trans hframes⟩

end Untouched

theorem InLine.ofQueue {s t : WebChat} {r : Nat} (h : s.InLine r)
    (hpending : t.runtime.pendingJobs = s.runtime.pendingJobs)
    (hturn : ∀ turn, s.turn = some turn → turn.stage = .prompting → t.turn = some turn) : t.InLine r := by
  obtain hqueue | ⟨turn, hprompting, hstage, hjob⟩ := h
  · left
    rw [hpending]
    exact hqueue
  · exact .inr ⟨turn, hturn turn hprompting hstage, hstage, hjob⟩

section Frame
variable {isControl : String → Bool} {s t : WebChat}

theorem Kept.frame (h : s.Kept isControl)
    (hpending : t.runtime.pendingJobs = s.runtime.pendingJobs)
    (harmed : t.runtime.armedAfterRecordId = s.runtime.armedAfterRecordId)
    (hnext : s.runtime.log.nextRecordId ≤ t.runtime.log.nextRecordId)
    (hidle : t.turn = none → t.runtime.activeJob = none)
    (hturn : ∀ turn, t.turn = some turn → turn.stage = .prompting → s.turn = some turn)
    (howner : ∀ turn, t.turn = some turn → t.phase turn.owner = .running)
    (hrecord : t.recordOf = s.recordOf) (houtcome : t.outcomeOf = s.outcomeOf)
    (hphase : ∀ i r, s.recordOf i = some r → s.outcomeOf r = none →
      s.phase i = .ingested ∨ s.phase i = .running → t.phase i = .ingested ∨ t.phase i = .running)
    (hserved : ∀ i, t.Served isControl i) : t.Kept isControl := by
  have hwaits : ∀ r, s.Waits r → t.Waits r := by
    rintro r ⟨hnone, i, hi, hwait⟩
    exact ⟨by rw [houtcome]; exact hnone, i, by rw [hrecord]; exact hi, hphase i r hi hnone hwait⟩
  constructor
  · exact hidle
  · obtain ⟨armed, ha, hlt, hbelow⟩ := h.armed
    refine ⟨armed, harmed.trans ha, hlt.trans_le hnext, ?_⟩
    rw [hrecord]
    exact hbelow
  · intro i r hi
    rw [hrecord] at hi
    exact (h.records i r hi).trans_le hnext
  · intro r hr
    rw [houtcome]
    exact h.fresh r (hnext.trans hr)
  · rw [hrecord]
    exact h.distinct
  · intro job hjob
    rw [hpending] at hjob
    exact hwaits _ (h.pending job hjob)
  · rw [hpending]
    exact h.nodup
  · intro turn hturn' hstage
    obtain ⟨hwait, hnot⟩ := h.prompting turn (hturn turn hturn' hstage) hstage
    exact ⟨hwaits _ hwait, by rw [hpending]; exact hnot⟩
  · exact howner
  · exact hserved

theorem Kept.request (h : s.Kept isControl) (i : Nat) (hruntime : t.runtime = s.runtime)
    (hturn : t.turn = s.turn) (hrecord : t.recordOf = s.recordOf) (houtcome : t.outcomeOf = s.outcomeOf)
    (hother : ∀ j, j ≠ i → t.phase j = s.phase j ∧ t.doneFrames j = s.doneFrames j ∧
      t.doneSent j = s.doneSent j ∧ t.textOf j = s.textOf j)
    (hnot : s.phase i ≠ .running ∧
      (s.phase i = .ingested → ∀ r, s.recordOf i = some r → s.outcomeOf r ≠ none))
    (hi : t.Served isControl i) : t.Kept isControl := by
  apply h.frame
  · rw [hruntime]
  · rw [hruntime]
  · rw [hruntime]
  · rw [hruntime, hturn]
    exact h.idle
  · intro turn hturn' _
    exact hturn ▸ hturn'
  · intro turn hturn'
    have hrunning := h.owner turn (hturn ▸ hturn')
    have hne : turn.owner ≠ i := by
      intro heq
      rw [heq] at hrunning
      exact hnot.1 hrunning
    exact (hother _ hne).1.trans hrunning
  · exact hrecord
  · exact houtcome
  · intro j r hj hnone hwait
    by_cases hij : j = i
    · subst hij
      obtain hingested | hrunning := hwait
      · exact absurd hnone (hnot.2 hingested r hj)
      · exact absurd hrunning hnot.1
    · rw [(hother j hij).1]
      exact hwait
  · intro j
    by_cases hij : j = i
    · exact hij ▸ hi
    · obtain ⟨hphase, hframes, hsent, htext⟩ := hother j hij
      have huntouched : Untouched s t j :=
        { frames := hframes, sent := hsent, text := htext
          record := congrFun hrecord j
          outcome := fun r _ => congrFun houtcome r
          line := fun r _ hline => hline.ofQueue (by rw [hruntime]) fun turn hs _ => hturn.trans hs }
      exact huntouched.served hphase (h.served j)

theorem Kept.turnStage (h : s.Kept isControl) {turn : Turn} (hturn : s.turn = some turn)
    (hstage : turn.stage ≠ .prompting) (runtime : ConversationRuntime)
    (hpending : runtime.pendingJobs = s.runtime.pendingJobs)
    (harmed : runtime.armedAfterRecordId = s.runtime.armedAfterRecordId)
    (hnext : s.runtime.log.nextRecordId ≤ runtime.log.nextRecordId) (next : TurnStage)
    (hprompting : next ≠ .prompting) : ({ s with runtime }.stage turn next).Kept isControl := by
  apply h.frame hpending harmed hnext
  · exact nofun
  · intro turn' hturn' hstage'
    obtain rfl := Option.some.inj hturn'
    exact absurd hstage' hprompting
  · intro turn' hturn'
    obtain rfl := Option.some.inj hturn'
    exact h.owner turn hturn
  · rfl
  · rfl
  · exact fun _ _ _ _ hwait => hwait
  · intro i
    have huntouched : Untouched s ({ s with runtime }.stage turn next) i :=
      { frames := rfl, sent := rfl, text := rfl, record := rfl
        outcome := fun _ _ => rfl
        line := by
          intro r _ hline
          apply hline.ofQueue hpending
          intro other hother hother'
          rw [hturn] at hother
          obtain rfl := Option.some.inj hother
          exact absurd hother' hstage }
    exact huntouched.served rfl (h.served i)

end Frame

/-! ## The steps of a request -/

section Steps
variable {isControl : String → Bool} {s : WebChat} {i : Nat}

theorem doneFrames_close (hopen : s.phase i ≠ .closed) :
    (s.close i).doneFrames i = if s.doneSent i then s.doneFrames i else s.doneFrames i ++ [""] := by
  unfold WebChat.close
  split
  · rfl
  · exact s.doneFrames_write_done hopen ""

theorem close_eq (s : WebChat) (i : Nat) : ∃ frames, s.close i = { s with
    frames, phase := Function.update s.phase i .closed } ∧
    ∀ j, j ≠ i → (s.close i).doneFrames j = s.doneFrames j := by
  unfold WebChat.close
  split
  · exact ⟨s.frames, rfl, fun _ _ => rfl⟩
  · obtain ⟨frames, hframes⟩ := s.write_eq i (.done "")
    refine ⟨frames, by rw [hframes]; rfl, ?_⟩
    intro j hj
    exact s.doneFrames_write_other (Ne.symm hj) _

theorem Kept.close (h : s.Kept isControl) (hphase : s.phase i = .returned) :
    (s.close i).Kept isControl := by
  obtain ⟨frames, heq, hframes⟩ := s.close_eq i
  have hopen : s.phase i ≠ .closed := by
    rw [hphase]
    exact nofun
  have hdone := doneFrames_close hopen
  have hi : (s.close i).Served isControl i := by
    have hserved := h.served i
    unfold Served at hserved ⊢
    rw [hphase] at hserved
    have hclosed : (s.close i).phase i = .closed := by
      rw [heq]
      exact Function.update_self ..
    rw [hclosed]
    obtain ⟨hcontrol, hsilent⟩ | ⟨r, text, hrecord, houtcome, hdelivered⟩ := hserved
    · left
      rw [hdone, hsilent.1, hsilent.2]
      exact ⟨by rw [heq]; exact hcontrol, rfl⟩
    · right
      refine ⟨r, text, by rw [heq]; exact hrecord, by rw [heq]; exact houtcome, ?_⟩
      rw [hdone]
      unfold Delivered at hdelivered
      split at hdelivered
      next hempty =>
        rw [hdelivered.1, hdelivered.2, hempty]
        rfl
      next =>
        rw [hdelivered.1, hdelivered.2]
        rfl
  apply h.request i
  · rw [heq]
  · rw [heq]
  · rw [heq]
  · rw [heq]
  · intro j hj
    refine ⟨?_, hframes j hj, ?_, ?_⟩
    · rw [heq]
      exact Function.update_of_ne hj ..
    · rw [heq]
    · rw [heq]
  · rw [hphase]
    exact ⟨nofun, nofun⟩
  · exact hi

theorem Kept.goTo (h : s.Kept isControl) {phase : RequestPhase}
    (hnot : s.phase i ≠ .running ∧
      (s.phase i = .ingested → ∀ r, s.recordOf i = some r → s.outcomeOf r ≠ none))
    (hi : (s.goTo i phase).Served isControl i) : (s.goTo i phase).Kept isControl := by
  apply h.request (t := s.goTo i phase) i rfl rfl rfl rfl _ hnot hi
  intro j hj
  exact ⟨Function.update_of_ne hj .., rfl, rfl, rfl⟩

theorem Kept.ingest (h : s.Kept isControl) (hphase : s.phase i = .ingesting)
    (timestamp messageId userId : String) : (s.ingest i timestamp messageId userId).Kept isControl := by
  have hnext := s.runtime.appendRecord_next timestamp
    (.inbound ((webInput messageId (s.textOf i) userId).normalized webConversation messageId []))
  have hother : ∀ j, j ≠ i → (s.ingest i timestamp messageId userId).phase j = s.phase j ∧
      (s.ingest i timestamp messageId userId).recordOf j = s.recordOf j :=
    fun j hj => ⟨Function.update_of_ne hj .., Function.update_of_ne hj ..⟩
  have hself : (s.ingest i timestamp messageId userId).recordOf i =
      some s.runtime.log.nextRecordId :=
    Function.update_self ..
  have hrecord : ∀ j r, (s.ingest i timestamp messageId userId).recordOf j = some r →
      j = i ∧ r = s.runtime.log.nextRecordId ∨ s.recordOf j = some r := by
    intro j r hj
    by_cases hij : j = i
    · subst hij
      rw [hself] at hj
      exact .inl ⟨rfl, (Option.some.inj hj).symm⟩
    · rw [(hother j hij).2] at hj
      exact .inr hj
  have hwaits : ∀ r, s.Waits r → (s.ingest i timestamp messageId userId).Waits r := by
    rintro r ⟨hnone, j, hj, hwait⟩
    have hij : j ≠ i := by
      rintro rfl
      rw [hphase] at hwait
      exact hwait.elim nofun nofun
    refine ⟨hnone, j, (hother j hij).2.trans hj, ?_⟩
    rw [(hother j hij).1]
    exact hwait
  constructor
  · exact h.idle
  · obtain ⟨armed, ha, hlt, hbelow⟩ := h.armed
    refine ⟨armed, ha, ?_, ?_⟩
    · exact hlt.trans_le (le_max_left _ _)
    · intro j r hj
      obtain ⟨-, rfl⟩ | hold := hrecord j r hj
      · exact hlt
      · exact hbelow j r hold
  · intro j r hj
    show r < (s.runtime.appendRecord _ _).log.nextRecordId
    rw [hnext]
    obtain ⟨-, rfl⟩ | hold := hrecord j r hj
    · omega
    · have := h.records j r hold
      omega
  · intro r hr
    exact h.fresh r ((le_max_left _ _).trans hr)
  · intro j k r hj hk
    obtain ⟨hji, hr⟩ | hjold := hrecord j r hj
    · obtain ⟨hki, -⟩ | hkold := hrecord k r hk
      · exact hji.trans hki.symm
      · exact absurd (hr ▸ h.records k r hkold) (lt_irrefl _)
    · obtain ⟨-, hr⟩ | hkold := hrecord k r hk
      · exact absurd (hr ▸ h.records j r hjold) (lt_irrefl _)
      · exact h.distinct j k r hjold hkold
  · exact fun job hjob => hwaits _ (h.pending job hjob)
  · exact h.nodup
  · exact fun turn hturn hstage =>
      ⟨hwaits _ (h.prompting turn hturn hstage).1, (h.prompting turn hturn hstage).2⟩
  · intro turn hturn
    have hrunning := h.owner turn hturn
    have hne : turn.owner ≠ i := by
      intro heq
      rw [heq, hphase] at hrunning
      cases hrunning
    exact (hother _ hne).1.trans hrunning
  · intro j
    by_cases hij : j = i
    · subst hij
      have hserved := h.served j
      unfold Served at hserved ⊢
      rw [hphase] at hserved
      have hnow : (s.ingest j timestamp messageId userId).phase j =
          .appended s.runtime.log.nextRecordId
          ((webInput messageId (s.textOf j) userId).normalized webConversation messageId []) :=
        Function.update_self ..
      rw [hnow]
      exact ⟨hself, h.fresh _ (le_refl _), hserved.2, rfl⟩
    · have huntouched : Untouched s (s.ingest i timestamp messageId userId) j :=
        { frames := rfl, sent := rfl, text := rfl, record := (hother j hij).2
          outcome := fun _ _ => rfl
          line := fun r _ hline => hline.ofQueue rfl fun _ hturn _ => hturn }
      exact huntouched.served (hother j hij).1 (h.served j)

theorem Kept.queueJob (h : s.Kept isControl) {recordId : Nat} {message : InboundMessage}
    (hphase : s.phase i = .appended recordId message)
    (hlatest : s.runtime.getLastQueuedTriggerRecordId < recordId) (timestamp jobId : String) :
    (s.queueJob i timestamp jobId recordId message).Kept isControl := by
  have hserved := h.served i
  unfold Served at hserved
  rw [hphase] at hserved
  obtain ⟨hrecord, houtcome, hsilent, htrigger⟩ := hserved
  obtain ⟨armed, harmed, -, hbelow⟩ := h.armed
  have hqueue : s.runtime.shouldQueueTrigger recordId = true := by
    have := hbelow i recordId hrecord
    unfold ConversationRuntime.shouldQueueTrigger
    rw [harmed]
    simp only [Option.any_some, decide_eq_true_eq]
    omega
  have hqueued : s.queueJob i timestamp jobId recordId message = { s with
      runtime := s.runtime.appendRecord timestamp (.jobQueued jobId .dm recordId)
      phase := Function.update s.phase i (.queued ⟨jobId, .dm, recordId, s.runtime.log.nextRecordId, none⟩) } := by
    unfold WebChat.queueJob ConversationRuntime.queueTrigger
    simp only [htrigger, hqueue, if_true]
  rw [hqueued]
  apply h.frame
  · rfl
  · rfl
  · exact le_max_left _ _
  · exact h.idle
  · exact fun turn hturn _ => hturn
  · intro turn hturn
    have hrunning := h.owner turn hturn
    have hne : turn.owner ≠ i := by
      intro heq
      rw [heq, hphase] at hrunning
      cases hrunning
    exact (Function.update_of_ne hne ..).trans hrunning
  · rfl
  · rfl
  · intro j r hj hnone hwait
    have hne : j ≠ i := by
      rintro rfl
      rw [hphase] at hwait
      exact hwait.elim nofun nofun
    show Function.update s.phase i _ j = _ ∨ Function.update s.phase i _ j = _
    rw [Function.update_of_ne hne]
    exact hwait
  · intro j
    by_cases hij : j = i
    · subst hij
      unfold Served
      simp only [Function.update_self]
      exact ⟨hrecord, houtcome, hsilent⟩
    · have huntouched : Untouched s { s with
          runtime := s.runtime.appendRecord timestamp (.jobQueued jobId .dm recordId)
          phase := Function.update s.phase i
            (.queued ⟨jobId, .dm, recordId, s.runtime.log.nextRecordId, none⟩) } j :=
        { frames := rfl, sent := rfl, text := rfl, record := rfl
          outcome := fun _ _ => rfl
          line := fun r _ hline => hline.ofQueue rfl fun _ hturn _ => hturn }
      exact huntouched.served (Function.update_of_ne hij ..) (h.served j)

theorem Kept.pushJob (h : s.Kept isControl) {job : PendingJob} (hphase : s.phase i = .queued job) :
    { s with runtime := s.runtime.pushJob job, phase := Function.update s.phase i .ingested }.Kept
      isControl := by
  have hserved := h.served i
  unfold Served at hserved
  rw [hphase] at hserved
  obtain ⟨hrecord, houtcome, hsilent⟩ := hserved
  have hother : ∀ j, j ≠ i → Function.update s.phase i .ingested j = s.phase j :=
    fun j hj => Function.update_of_ne hj ..
  -- no request in line has the job's record
  have hnot : ¬ s.Waits job.triggerRecordId := by
    rintro ⟨-, j, hj, hwait⟩
    obtain rfl := h.distinct i j _ hrecord hj
    rw [hphase] at hwait
    exact hwait.elim nofun nofun
  have hnew : job.triggerRecordId ∉ s.runtime.pendingJobs.map PendingJob.triggerRecordId := by
    intro hmem
    obtain ⟨other, hother, heq⟩ := List.mem_map.1 hmem
    exact hnot (heq ▸ h.pending other hother)
  have hwaits : ∀ r, s.Waits r → { s with
      runtime := s.runtime.pushJob job, phase := Function.update s.phase i .ingested }.Waits r := by
    rintro r ⟨hnone, j, hj, hwait⟩
    refine ⟨hnone, j, hj, ?_⟩
    have hij : j ≠ i := by
      rintro rfl
      rw [hphase] at hwait
      exact hwait.elim nofun nofun
    simp only
    rw [hother j hij]
    exact hwait
  constructor
  · exact h.idle
  · exact h.armed
  · exact h.records
  · exact h.fresh
  · exact h.distinct
  · intro other hmem
    obtain hold | hnew := List.mem_append.1 hmem
    · exact hwaits _ (h.pending other hold)
    · rw [List.mem_singleton.1 hnew]
      exact ⟨houtcome, i, hrecord, .inl (Function.update_self ..)⟩
  · show ((s.runtime.pendingJobs ++ [job]).map PendingJob.triggerRecordId).Nodup
    rw [List.map_append]
    exact List.Nodup.append h.nodup (List.nodup_singleton _) (by simpa using hnew)
  · intro turn hturn hstage
    obtain ⟨hwait, hmem⟩ := h.prompting turn hturn hstage
    refine ⟨hwaits _ hwait, ?_⟩
    show _ ∉ (s.runtime.pendingJobs ++ [job]).map PendingJob.triggerRecordId
    rw [List.map_append, List.mem_append, not_or]
    refine ⟨hmem, ?_⟩
    intro heq
    rw [List.map_singleton, List.mem_singleton] at heq
    exact hnot (heq ▸ hwait)
  · intro turn hturn
    have hrunning := h.owner turn hturn
    have hne : turn.owner ≠ i := by
      intro heq
      rw [heq, hphase] at hrunning
      cases hrunning
    exact (hother _ hne).trans hrunning
  · intro j
    by_cases hij : j = i
    · subst hij
      unfold Served
      simp only [Function.update_self]
      exact .inl ⟨_, hrecord, houtcome, hsilent,
        .inl ⟨job, List.mem_append_right _ List.mem_cons_self, rfl⟩⟩
    · have huntouched : Untouched s { s with
          runtime := s.runtime.pushJob job, phase := Function.update s.phase i .ingested } j :=
        { frames := rfl, sent := rfl, text := rfl, record := rfl
          outcome := fun _ _ => rfl
          line := by
            rintro r - (⟨other, hmem, hr⟩ | hturn)
            · exact .inl ⟨other, List.mem_append_left _ hmem, hr⟩
            · exact .inr hturn }
      exact huntouched.served (hother j hij) (h.served j)

/-! ## The turns -/

theorem Kept.returned (h : s.Kept isControl) (hphase : s.phase i = .ingested ∨ s.phase i = .running)
    (howner : ∀ turn, s.turn = some turn → turn.owner ≠ i) (hended : ¬ s.Awaits i) :
    (s.goTo i .returned).Kept isControl := by
  have hserved : s.Awaits i ∨ s.Ended i := by
    have hserved := h.served i
    unfold Served at hserved
    obtain hphase | hphase := hphase <;> rw [hphase] at hserved <;> exact hserved
  obtain ⟨r, text, hrecord, houtcome, hdelivered⟩ := hserved.resolve_left hended
  have hother : ∀ j, j ≠ i → (s.goTo i .returned).phase j = s.phase j :=
    fun j hj => Function.update_of_ne hj ..
  apply h.frame (t := s.goTo i .returned) rfl rfl (le_refl _) h.idle (fun turn hturn _ => hturn)
  · intro turn hturn
    exact (hother _ (howner turn hturn)).trans (h.owner turn hturn)
  · rfl
  · rfl
  · intro j q hj hnone hwait
    have hne : j ≠ i := by
      rintro rfl
      rw [hrecord] at hj
      obtain rfl := Option.some.inj hj
      rw [houtcome] at hnone
      cases hnone
    rw [hother j hne]
    exact hwait
  · intro j
    by_cases hij : j = i
    · subst hij
      have hnow : (s.goTo j .returned).phase j = .returned := Function.update_self ..
      unfold Served
      rw [hnow]
      exact .inr ⟨r, text, hrecord, houtcome, hdelivered⟩
    · have huntouched : Untouched s (s.goTo i .returned) j :=
        { frames := rfl, sent := rfl, text := rfl, record := rfl
          outcome := fun _ _ => rfl
          line := fun r _ hline => hline.ofQueue rfl fun _ hturn _ => hturn }
      exact huntouched.served (hother j hij) (h.served j)

theorem Kept.begin (h : s.Kept isControl) (hphase : s.phase i = .ingested ∨ s.phase i = .running)
    (hturn : s.turn = none) : (s.begin i).Kept isControl := by
  unfold WebChat.begin ConversationRuntime.beginNextJob
  rw [h.idle hturn]
  cases hpending : s.runtime.pendingJobs with
  | nil =>
    apply h.returned hphase
    · intro turn hsome
      rw [hturn] at hsome
      cases hsome
    · rintro ⟨r, -, -, -, ⟨job, hjob, -⟩ | ⟨turn, hsome, -⟩⟩
      · rw [hpending] at hjob
        cases hjob
      · rw [hturn] at hsome
        cases hsome
  | cons job rest =>
    obtain ⟨t, ht⟩ : ∃ t : WebChat, t = { s with
        runtime := { s.runtime with pendingJobs := rest, activeJob := some job }
        turn := some { owner := i, job, transport := s.transport, stage := .prompting }
        phase := Function.update s.phase i .running } := ⟨_, rfl⟩
    show { s with
        runtime := { s.runtime with pendingJobs := rest, activeJob := some job }
        turn := some { owner := i, job, transport := s.transport, stage := .prompting }
        phase := Function.update s.phase i .running }.Kept isControl
    rw [← ht]
    have hself : t.phase i = .running := by
      rw [ht]
      exact Function.update_self ..
    have hother : ∀ j, j ≠ i → t.phase j = s.phase j := by
      intro j hj
      rw [ht]
      exact Function.update_of_ne hj ..
    have hwaits : ∀ r, s.Waits r → t.Waits r := by
      rintro r ⟨hnone, j, hj, hwait⟩
      refine ⟨by rw [ht]; exact hnone, j, by rw [ht]; exact hj, ?_⟩
      by_cases hij : j = i
      · exact .inr (hij ▸ hself)
      · rw [hother j hij]
        exact hwait
    have huntouched : ∀ j, Untouched s t j := by
      intro j
      constructor
      all_goals subst ht
      · rfl
      · rfl
      · rfl
      · rfl
      · exact fun _ _ => rfl
      · rintro r - (⟨other, hmem, hr⟩ | ⟨turn, hsome, -⟩)
        · rw [hpending] at hmem
          obtain rfl | hmem := List.mem_cons.1 hmem
          · exact .inr ⟨_, rfl, rfl, hr⟩
          · exact .inl ⟨other, hmem, hr⟩
        · rw [hturn] at hsome
          cases hsome
    have hnodup := h.nodup
    rw [hpending, List.map_cons, List.nodup_cons] at hnodup
    have hjob : s.Waits job.triggerRecordId := h.pending job (hpending ▸ List.mem_cons_self)
    constructor
    · rw [ht]
      exact nofun
    · rw [ht]
      exact h.armed
    · rw [ht]
      exact h.records
    · rw [ht]
      exact h.fresh
    · rw [ht]
      exact h.distinct
    · intro other hmem
      apply hwaits
      apply h.pending
      rw [ht] at hmem
      rw [hpending]
      exact List.mem_cons_of_mem _ hmem
    · rw [ht]
      exact hnodup.2
    · intro turn hsome _
      have hrest : t.runtime.pendingJobs = rest := by rw [ht]
      rw [ht] at hsome
      obtain rfl := Option.some.inj hsome
      rw [hrest]
      exact ⟨hwaits _ hjob, hnodup.1⟩
    · intro turn hsome
      rw [ht] at hsome
      obtain rfl := Option.some.inj hsome
      exact hself
    · intro j
      by_cases hij : j = i
      · subst hij
        have hserved := h.served j
        unfold Served at hserved ⊢
        rw [hself]
        obtain hphase | hphase := hphase <;> rw [hphase] at hserved <;>
          exact hserved.imp (huntouched j).awaits (huntouched j).ended
      · exact (huntouched j).served (hother j hij) (h.served j)

theorem Kept.settled (h : s.Kept isControl) {turn : Turn} (hturn : s.turn = some turn)
    (hstage : turn.stage = .prompting) {t : WebChat} {text : String}
    (hpending : t.runtime.pendingJobs = s.runtime.pendingJobs)
    (harmed : t.runtime.armedAfterRecordId = s.runtime.armedAfterRecordId)
    (hnext : s.runtime.log.nextRecordId ≤ t.runtime.log.nextRecordId)
    (hturn' : ∃ stage ≠ .prompting, t.turn = some { turn with stage })
    (hphase : t.phase = s.phase) (htext : t.textOf = s.textOf) (hrecord : t.recordOf = s.recordOf)
    (houtcome : t.outcomeOf = Function.update s.outcomeOf turn.job.triggerRecordId (some text))
    (hdelivered : ∀ i, s.recordOf i = some turn.job.triggerRecordId → s.Silent i → t.Delivered i text)
    (hother : ∀ i, s.recordOf i ≠ some turn.job.triggerRecordId →
      t.doneFrames i = s.doneFrames i ∧ t.doneSent i = s.doneSent i) : t.Kept isControl := by
  obtain ⟨hwait, hnot⟩ := h.prompting turn hturn hstage
  obtain ⟨stage, hnew, hturn'⟩ := hturn'
  have hself : t.outcomeOf turn.job.triggerRecordId = some text := by
    rw [houtcome]
    exact Function.update_self ..
  have hrest : ∀ r, r ≠ turn.job.triggerRecordId → t.outcomeOf r = s.outcomeOf r := by
    intro r hr
    rw [houtcome]
    exact Function.update_of_ne hr ..
  constructor
  · rw [hturn']
    exact nofun
  · obtain ⟨armed, ha, hlt, hbelow⟩ := h.armed
    refine ⟨armed, harmed.trans ha, hlt.trans_le hnext, ?_⟩
    rw [hrecord]
    exact hbelow
  · intro i r hi
    rw [hrecord] at hi
    exact (h.records i r hi).trans_le hnext
  · intro r hr
    obtain ⟨-, j, hj, -⟩ := hwait
    have hlt := h.records j _ hj
    rw [hrest r (by omega)]
    exact h.fresh r (hnext.trans hr)
  · rw [hrecord]
    exact h.distinct
  · intro job hjob
    rw [hpending] at hjob
    obtain ⟨hnone, j, hj, hwaits⟩ := h.pending job hjob
    have hne : job.triggerRecordId ≠ turn.job.triggerRecordId := by
      intro heq
      exact hnot (heq ▸ List.mem_map_of_mem hjob)
    exact ⟨(hrest _ hne).trans hnone, j, by rw [hrecord]; exact hj, by rw [hphase]; exact hwaits⟩
  · rw [hpending]
    exact h.nodup
  · intro other hsome hprompting
    rw [hturn'] at hsome
    obtain rfl := Option.some.inj hsome
    exact absurd hprompting hnew
  · intro other hsome
    rw [hturn'] at hsome
    obtain rfl := Option.some.inj hsome
    rw [hphase]
    exact h.owner turn hturn
  · intro j
    by_cases hj : s.recordOf j = some turn.job.triggerRecordId
    · -- the request that waits for this job
      obtain ⟨hnone, k, hk, hwaits⟩ := hwait
      obtain rfl := h.distinct j k _ hj hk
      have hserved := h.served j
      have hawaits : s.Awaits j ∨ s.Ended j := by
        unfold Served at hserved
        obtain hwaits | hwaits := hwaits <;> rw [hwaits] at hserved <;> exact hserved
      have hsilent : s.Silent j := by
        obtain ⟨r, -, -, hsilent, -⟩ | ⟨r, text', hr, hsome, -⟩ := hawaits
        · exact hsilent
        · rw [hj] at hr
          obtain rfl := Option.some.inj hr
          rw [hnone] at hsome
          cases hsome
      have hended : t.Ended j :=
        ⟨_, text, by rw [hrecord]; exact hj, hself, hdelivered j hj hsilent⟩
      unfold Served
      rw [hphase]
      obtain hwaits | hwaits := hwaits <;> rw [hwaits] <;> exact .inr hended
    · have huntouched : Untouched s t j :=
        { frames := (hother j hj).1, sent := (hother j hj).2
          text := congrFun htext j
          record := congrFun hrecord j
          outcome := by
            intro r hr
            apply hrest
            rintro rfl
            exact hj hr
          line := by
            rintro r hr (hqueue | ⟨other, hsome, -, rfl⟩)
            · left
              rw [hpending]
              exact hqueue
            · rw [hturn] at hsome
              obtain rfl := Option.some.inj hsome
              exact absurd hr hj }
      exact huntouched.served (congrFun hphase j) (h.served j)

theorem Kept.settledSilently (h : s.Kept isControl) {turn : Turn} (hturn : s.turn = some turn)
    (hstage : turn.stage = .prompting) (runtime : ConversationRuntime)
    (hpending : runtime.pendingJobs = s.runtime.pendingJobs)
    (harmed : runtime.armedAfterRecordId = s.runtime.armedAfterRecordId)
    (hnext : s.runtime.log.nextRecordId ≤ runtime.log.nextRecordId) (stage : TurnStage)
    (hnew : stage ≠ .prompting) :
    ({ s with
      outcomeOf := Function.update s.outcomeOf turn.job.triggerRecordId (some "")
      runtime }.stage turn stage).Kept isControl :=
  h.settled hturn hstage hpending harmed hnext ⟨stage, hnew, rfl⟩ rfl rfl rfl rfl
    (fun _ _ hsilent => hsilent) fun _ _ => ⟨rfl, rfl⟩

theorem Kept.settle (h : s.Kept isControl) {turn : Turn} (hturn : s.turn = some turn)
    (hstage : turn.stage = .prompting) {outcome : TurnOutcome}
    (hcareful : outcome.finalText ≠ "" →
      ∃ i, s.transport = some i ∧ s.recordOf i = some turn.job.triggerRecordId) (timestamp : String) :
    (s.settle timestamp turn outcome).Kept isControl := by
  cases outcome with
  | thrown message =>
    exact h.settledSilently hturn hstage (s.runtime.appendFailed timestamp turn.job message) rfl rfl
      (le_max_left _ _) _ TurnStage.noConfusion
  | aborted =>
    exact h.settledSilently hturn hstage
      (s.runtime.appendFailed timestamp turn.job "aborted") rfl rfl
      (le_max_left _ _) _ TurnStage.noConfusion
  | stopped reason errorMessage =>
    exact h.settledSilently hturn hstage
      (s.runtime.appendFailed timestamp turn.job (stopMessage reason errorMessage)) rfl rfl
      (le_max_left _ _) _ TurnStage.noConfusion
  | answered text attachmentPaths =>
    by_cases hempty : (TurnOutcome.answered text attachmentPaths).finalText = ""
    · have hsettle : s.settle timestamp turn (.answered text attachmentPaths) = { s with
          outcomeOf := Function.update s.outcomeOf turn.job.triggerRecordId (some "") }.stage turn
            (.sent "" attachmentPaths) := by
        simp only [WebChat.settle, hempty, if_true]
      rw [hsettle]
      exact h.settledSilently hturn hstage s.runtime rfl rfl (le_refl _) _ TurnStage.noConfusion
    · obtain ⟨i, htransport, hi⟩ := hcareful hempty
      obtain ⟨finalText, hfinal⟩ : ∃ finalText, (TurnOutcome.answered text attachmentPaths).finalText =
        finalText := ⟨_, rfl⟩
      rw [hfinal] at hempty
      have hsettle : s.settle timestamp turn (.answered text attachmentPaths) = ({ s with
          outcomeOf := Function.update s.outcomeOf turn.job.triggerRecordId (some finalText)
          doneSent := Function.update s.doneSent i true }.write i (.done finalText)).stage turn
            (.sent finalText attachmentPaths) := by
        simp only [WebChat.settle, WebChat.send, hfinal, hempty, if_false, htransport]
      rw [hsettle]
      obtain ⟨frames, hframes⟩ := WebChat.write_eq { s with
          outcomeOf := Function.update s.outcomeOf turn.job.triggerRecordId (some finalText)
          doneSent := Function.update s.doneSent i true } i (.done finalText)
      have hopen : s.phase i ≠ .closed := by
        obtain ⟨-, j, hj, hwaits⟩ := (h.prompting turn hturn hstage).1
        obtain rfl := h.distinct i j _ hi hj
        obtain hwaits | hwaits := hwaits <;> rw [hwaits] <;> exact nofun
      have hdone := WebChat.doneFrames_write_done { s with
          outcomeOf := Function.update s.outcomeOf turn.job.triggerRecordId (some finalText)
          doneSent := Function.update s.doneSent i true } hopen finalText
      have hkept : ∀ j, j ≠ i → _ := fun j (hj : j ≠ i) => WebChat.doneFrames_write_other { s with
          outcomeOf := Function.update s.outcomeOf turn.job.triggerRecordId (some finalText)
          doneSent := Function.update s.doneSent i true } (Ne.symm hj) (.done finalText)
      rw [hframes] at hdone hkept ⊢
      apply h.settled hturn hstage
      case hturn' => exact ⟨.sent finalText attachmentPaths, nofun, rfl⟩
      case houtcome => rfl
      case hdelivered =>
        intro j hj hsilent
        obtain rfl := h.distinct i j _ hi hj
        unfold Delivered
        rw [if_neg hempty]
        refine ⟨?_, Function.update_self ..⟩
        refine hdone.trans ?_
        show s.doneFrames i ++ [finalText] = [finalText]
        rw [hsilent.1]
        rfl
      case hother =>
        intro j hj
        have hne : j ≠ i := by
          rintro rfl
          exact hj hi
        exact ⟨hkept j hne, Function.update_of_ne hne ..⟩
      all_goals rfl

theorem Kept.goOn (h : s.Kept isControl) {t : WebChat} (hsilent : s.recordOf i = none ∧ s.Silent i)
    (hphase : s.phase i ≠ .running ∧ s.phase i ≠ .ingested) {phase : RequestPhase}
    (hnow : t.phase = Function.update s.phase i phase) (hruntime : t.runtime = s.runtime)
    (hturn : t.turn = s.turn) (hrecord : t.recordOf = s.recordOf) (houtcome : t.outcomeOf = s.outcomeOf)
    (hframes : t.frames = s.frames) (hsent : t.doneSent = s.doneSent)
    (htext : ∀ j, j ≠ i → t.textOf j = s.textOf j)
    (hplace : phase = .creating ∨ phase = .locked ∨ phase = .connected ∨ phase = .ingesting ∨
      phase = .commanding ∧ isControl (t.textOf i) = true) : t.Kept isControl := by
  have hdone : ∀ j, t.doneFrames j = s.doneFrames j := by
    intro j
    unfold doneFrames
    rw [hframes]
  apply h.request i hruntime hturn hrecord houtcome
  · intro j hj
    refine ⟨?_, hdone j, by rw [hsent], htext j hj⟩
    rw [hnow]
    exact Function.update_of_ne hj ..
  · exact ⟨hphase.1, fun hingested => absurd hingested hphase.2⟩
  · have hself : t.phase i = phase := by
      rw [hnow]
      exact Function.update_self ..
    have hstill : t.recordOf i = none ∧ t.Silent i := by
      refine ⟨by rw [hrecord]; exact hsilent.1, ?_⟩
      unfold Silent
      rw [hdone, hsent]
      exact hsilent.2
    unfold Served
    rw [hself]
    obtain rfl | rfl | rfl | rfl | ⟨rfl, hcontrol⟩ := hplace
    · exact hstill
    · exact hstill
    · exact hstill
    · exact hstill
    · exact ⟨hcontrol, hstill.2⟩

theorem Kept.commandDone (h : s.Kept isControl) (hphase : s.phase i = .commanding) :
    (s.goTo i .returned).Kept isControl := by
  have hserved := h.served i
  unfold Served at hserved
  rw [hphase] at hserved
  apply h.goTo
  · rw [hphase]
    exact ⟨nofun, nofun⟩
  · have hself : (s.goTo i .returned).phase i = .returned := Function.update_self ..
    unfold Served
    rw [hself]
    exact .inl hserved

theorem Kept.writeDelta (h : s.Kept isControl) (transport : Option Nat) (text : String) :
    (s.writeTo transport (.delta text)).Kept isControl := by
  obtain ⟨frames, heq⟩ := s.writeTo_eq transport (.delta text)
  have hdone := fun i => s.doneFrames_writeTo_delta transport i text
  rw [heq] at hdone ⊢
  apply h.frame (t := { s with frames }) rfl rfl (le_refl _) h.idle
    (fun _ hturn _ => hturn) h.owner rfl rfl
  · exact fun _ _ _ _ hwait => hwait
  · intro i
    have huntouched : Untouched s { s with frames } i :=
      { frames := hdone i, sent := rfl, text := rfl, record := rfl
        outcome := fun _ _ => rfl
        line := fun r _ hline => hline.ofQueue rfl fun _ hturn _ => hturn }
    exact huntouched.served rfl (h.served i)

theorem Kept.turnOver (h : s.Kept isControl) {turn : Turn} (hturn : s.turn = some turn)
    (hstage : turn.stage ≠ .prompting) :
    { s with runtime := s.runtime.clearActive, turn := none }.Kept isControl := by
  apply h.frame (t := { s with runtime := s.runtime.clearActive, turn := none })
  · rfl
  · rfl
  · exact le_refl _
  · exact fun _ => rfl
  · exact nofun
  · exact nofun
  · rfl
  · rfl
  · exact fun _ _ _ _ hwait => hwait
  · intro i
    have huntouched : Untouched s { s with runtime := s.runtime.clearActive, turn := none } i :=
      { frames := rfl, sent := rfl, text := rfl, record := rfl
        outcome := fun _ _ => rfl
        line := by
          rintro r - (hqueue | ⟨other, hsome, hprompting, -⟩)
          · exact .inl hqueue
          · rw [hturn] at hsome
            obtain rfl := Option.some.inj hsome
            exact absurd hprompting hstage }
    exact huntouched.served rfl (h.served i)

theorem Kept.finish (h : s.Kept isControl) {turn : Turn} (hturn : s.turn = some turn)
    (hstage : turn.stage ≠ .prompting) (notice : Option String) :
    ((notice.elim { s with runtime := s.runtime.clearActive, turn := none } fun text =>
      { s with runtime := s.runtime.clearActive, turn := none }.writeTo s.transport (.delta text)).begin
        turn.owner).Kept isControl := by
  have hover := h.turnOver hturn hstage
  have hrunning := h.owner turn hturn
  cases notice with
  | none => exact hover.begin (.inr hrunning) rfl
  | some text =>
    have hwritten := hover.writeDelta s.transport text
    obtain ⟨frames, heq⟩ := WebChat.writeTo_eq { s with
      runtime := s.runtime.clearActive, turn := none } s.transport (.delta text)
    show ((WebChat.writeTo { s with
      runtime := s.runtime.clearActive, turn := none } s.transport (.delta text)).begin turn.owner).Kept isControl
    apply hwritten.begin
    · rw [heq]
      exact .inr hrunning
    · rw [heq]

/-! ## Careful steps -/

/-- What keeps the answers apart: one request creates the worker; the jobs are recorded in the order
of their messages; a request comes to the queue when no turn is in flight, or with its job ended; and
a text is sent while the transport is the one of the job's own request. -/
def Careful (s : WebChat) : WebEvent → Prop
  | .acquire _ => s.lockHeld = false
  | .decide i _ _ => ∀ recordId message, s.phase i = .appended recordId message →
      s.runtime.getLastQueuedTriggerRecordId < recordId
  | .tryDispatch i => s.turn = none ∨ ∃ r, s.recordOf i = some r ∧ s.outcomeOf r ≠ none
  | .settle _ outcome => outcome.finalText ≠ "" → ∀ turn, s.turn = some turn →
      ∃ i, s.transport = some i ∧ s.recordOf i = some turn.job.triggerRecordId
  | _ => True

theorem Kept.step (h : s.Kept isControl) {e : WebEvent} (henabled : e.Enabled s)
    (hcareful : s.Careful e) :
    (s.step isControl e).Kept isControl := by
  have hserved := fun i => h.served i
  unfold Served at hserved
  cases e with
  | chat i text =>
    have hphase : s.phase i = .absent := henabled
    have hi := hserved i
    rw [hphase] at hi
    apply h.goOn hi
    case hnow => rfl
    case hphase =>
      rw [hphase]
      exact ⟨nofun, nofun⟩
    case htext => exact fun j hj => Function.update_of_ne hj ..
    case hplace =>
      split
      · exact .inr (.inr (.inl rfl))
      · exact .inl rfl
    all_goals rfl
  | acquire i =>
    have hphase : s.phase i = .creating := henabled
    have hfree : s.lockHeld = false := hcareful
    have hi := hserved i
    rw [hphase] at hi
    simp only [WebChat.step, hfree, Bool.false_eq_true, if_false]
    apply h.goOn hi
    case hnow => rfl
    case hphase =>
      rw [hphase]
      exact ⟨nofun, nofun⟩
    case htext => exact fun _ _ => rfl
    case hplace => exact .inr (.inl rfl)
    all_goals rfl
  | created i =>
    have hphase : s.phase i = .locked := henabled
    have hi := hserved i
    rw [hphase] at hi
    apply h.goOn hi
    case hnow => rfl
    case hphase =>
      rw [hphase]
      exact ⟨nofun, nofun⟩
    case htext => exact fun _ _ => rfl
    case hplace => exact .inr (.inr (.inl rfl))
    all_goals rfl
  | connect i =>
    have hphase : s.phase i = .connected := henabled
    have hi := hserved i
    rw [hphase] at hi
    apply h.goOn hi
    case hnow => rfl
    case hphase =>
      rw [hphase]
      exact ⟨nofun, nofun⟩
    case htext => exact fun _ _ => rfl
    case hplace =>
      split
      next hcontrol => exact .inr (.inr (.inr (.inr ⟨rfl, hcontrol⟩)))
      next => exact .inr (.inr (.inr (.inl rfl)))
    all_goals rfl
  | commandDone i => exact h.commandDone henabled
  | ingest i timestamp messageId userId => exact h.ingest henabled timestamp messageId userId
  | decide i timestamp jobId =>
    obtain ⟨recordId, message, hphase⟩ := henabled
    simp only [WebChat.step, hphase]
    exact h.queueJob hphase (hcareful recordId message hphase) timestamp jobId
  | pushJob i =>
    obtain ⟨job, hphase⟩ := henabled
    simp only [WebChat.step, hphase]
    exact h.pushJob hphase
  | tryDispatch i =>
    have hphase : s.phase i = .ingested := henabled
    cases hturn : s.turn with
    | none =>
      simp only [WebChat.step, hturn, Option.isSome_none, Bool.false_eq_true, if_false]
      exact h.begin (.inl hphase) hturn
    | some turn =>
      simp only [WebChat.step, hturn, Option.isSome_some, if_true]
      obtain hnone | ⟨r, hr, hended⟩ := hcareful
      · rw [hturn] at hnone
        cases hnone
      · apply h.returned (.inl hphase)
        · rintro other hother rfl
          have hrunning := h.owner other hother
          rw [hphase] at hrunning
          cases hrunning
        · rintro ⟨q, hq, hnone, -⟩
          rw [hr] at hq
          obtain rfl := Option.some.inj hq
          exact hended hnone
  | delta text =>
    obtain ⟨turn, hturn, -⟩ := henabled
    simp only [WebChat.step, hturn]
    exact h.writeDelta turn.transport text
  | settle timestamp outcome =>
    obtain ⟨turn, hturn, hstage⟩ := henabled
    simp only [WebChat.step, hturn]
    exact h.settle hturn hstage (fun htext => hcareful htext turn hturn) timestamp
  | complete timestamp messageId =>
    obtain ⟨turn, finalText, paths, hturn, hstage⟩ := henabled
    have hpast : turn.stage ≠ .prompting := by
      rw [hstage]
      exact nofun
    simp only [WebChat.step, hturn, hstage, WebChat.complete]
    split
    · exact h.turnStage hturn hpast
        (s.runtime.appendOutbound timestamp messageId finalText paths turn.job)
        rfl rfl (le_max_left _ _) _ TurnStage.noConfusion
    · exact h.turnStage hturn hpast (s.runtime.appendCompleted timestamp turn.job none)
        rfl rfl (le_max_left _ _) _ TurnStage.noConfusion
  | answerAppended timestamp =>
    obtain ⟨turn, recordId, hturn, hstage⟩ := henabled
    have hpast : turn.stage ≠ .prompting := by
      rw [hstage]
      exact nofun
    simp only [WebChat.step, hturn, hstage]
    exact h.turnStage hturn hpast (s.runtime.appendCompleted timestamp turn.job (some recordId))
      rfl rfl (le_max_left _ _) _ TurnStage.noConfusion
  | failureAppended timestamp =>
    obtain ⟨turn, thrown, notice, hturn, hstage⟩ := henabled
    have hpast : turn.stage ≠ .prompting := by
      rw [hstage]
      exact nofun
    cases thrown with
    | none =>
      simp only [WebChat.step, hturn, hstage]
      exact h.turnStage hturn hpast s.runtime.clearActive rfl rfl
        (le_refl _) _ TurnStage.noConfusion
    | some message =>
      simp only [WebChat.step, hturn, hstage]
      exact h.turnStage hturn hpast (s.runtime.clearActive.appendRecord timestamp (.error message))
        rfl rfl (le_max_left _ _) _ TurnStage.noConfusion
  | finish =>
    obtain ⟨turn, notice, hturn, hstage⟩ := henabled
    have hpast : turn.stage ≠ .prompting := by
      rw [hstage]
      exact nofun
    simp only [WebChat.step, hturn, hstage]
    exact h.finish hturn hpast notice
  | close i => exact h.close henabled

/-! ## Runs -/

theorem start_kept (isControl : String → Bool) (records : List ChatLogRecord) :
    (start records).Kept isControl := by
  have hfresh := @RecordLog.load_fresh _ ChatLogRecord.recordId records
  have hlast : (ConversationRuntime.connect records).lastRecordId <
      (ConversationRuntime.connect records).log.nextRecordId :=
    ConversationRuntime.lastRecordId_lt hfresh (Nat.succ_pos _)
  constructor
  · exact fun _ => rfl
  · exact ⟨_, rfl, hlast, fun _ _ h => Option.noConfusion rfl (heq_of_eq h)⟩
  · exact fun _ _ h => Option.noConfusion rfl (heq_of_eq h)
  · exact fun _ _ => rfl
  · exact fun _ _ _ h => Option.noConfusion rfl (heq_of_eq h)
  · exact fun _ h => absurd h List.not_mem_nil
  · exact List.nodup_nil
  · exact fun _ h => Option.noConfusion rfl (heq_of_eq h)
  · exact fun _ h => Option.noConfusion rfl (heq_of_eq h)
  · exact fun _ => ⟨rfl, rfl, rfl⟩

theorem Delivered.length_le {text : String} (h : s.Delivered i text) :
    (s.doneFrames i).length ≤ 1 := by
  unfold Delivered Silent at h
  split at h
  · rw [h.1]
    exact Nat.zero_le 1
  · rw [h.1]
    exact le_refl 1

theorem Ended.length_le (h : s.Ended i) : (s.doneFrames i).length ≤ 1 := by
  obtain ⟨r, text, -, -, hdelivered⟩ := h
  exact hdelivered.length_le

theorem Silent.length_le (h : s.Silent i) : (s.doneFrames i).length ≤ 1 := by
  rw [h.1]
  exact Nat.zero_le 1

theorem Served.length_le (h : s.Served isControl i) : (s.doneFrames i).length ≤ 1 := by
  unfold Served at h
  cases hphase : s.phase i <;> rw [hphase] at h <;> simp only at h
  case absent | creating | locked | connected | ingesting | commanding => exact h.2.length_le
  case appended => exact h.2.2.1.length_le
  case queued => exact h.2.2.length_le
  case ingested | running =>
    obtain ⟨r, -, -, hsilent, -⟩ | hended := h
    · exact hsilent.length_le
    · exact hended.length_le
  case returned =>
    obtain ⟨-, hsilent⟩ | hended := h
    · exact hsilent.length_le
    · exact hended.length_le
  case closed =>
    obtain ⟨-, hframes⟩ | ⟨r, text, -, -, hframes⟩ := h
    · rw [hframes]
      exact le_refl 1
    · rw [hframes]
      exact le_refl 1

end Steps

/-- In a run of careful steps a connection gets one final frame at most; a closed one has got one,
with the final text of the job of its own message, or an empty one for a control command. -/
theorem web_chat_answers (isControl : String → Bool) {records : List ChatLogRecord}
    {events : List WebEvent} {s : WebChat}
    (hrun : Run (fun s e t => WebNext isControl s e t ∧ s.Careful e) (start records) events s) (i : Nat) :
    (s.doneFrames i).length ≤ 1 ∧ (s.phase i = .closed →
      isControl (s.textOf i) = true ∧ s.doneFrames i = [""] ∨
        ∃ r text, s.recordOf i = some r ∧ s.outcomeOf r = some text ∧ s.doneFrames i = [text]) := by
  have hkept : s.Kept isControl := by
    apply hrun.invariant (start_kept isControl records)
    rintro s e t ⟨⟨henabled, rfl⟩, hcareful⟩ h
    exact h.step henabled hcareful
  have hserved := hkept.served i
  refine ⟨hserved.length_le, ?_⟩
  intro hclosed
  unfold Served at hserved
  rw [hclosed] at hserved
  exact hserved

section Examples

def runOf (s : WebChat) (events : List WebEvent) : WebChat :=
  events.foldl (fun s e => s.step (fun _ => false) e) s

/-- Each event has the property where it stands. -/
def EventsMeet (p : WebChat → WebEvent → Prop) : WebChat → List WebEvent → Prop
  | _, [] => True
  | s, e :: events => p s e ∧ EventsMeet p (s.step (fun _ => false) e) events

theorem EventsMeet.run {p : WebChat → WebEvent → Prop} {s : WebChat} {events : List WebEvent}
    (h : EventsMeet p s events) :
    Run (fun s e t => p s e ∧ t = s.step (fun _ => false) e) s events (runOf s events) := by
  induction events generalizing s with
  | nil => exact .nil s
  | cons e events ih => exact .cons ⟨h.1, rfl⟩ (ih h.2)

/-- The events of a request, up to its try to dispatch. -/
def requestEvents (i : Nat) (messageId : String) (job : PendingJob) : List WebEvent :=
  [.connect i, .ingest i "t" messageId "u", .decide i "t" job.jobId, .pushJob i, .tryDispatch i]

def firstJob : PendingJob := ⟨"j", .dm, 1, 2, none⟩

def nextJob : PendingJob := ⟨"k", .dm, 5, 6, none⟩

def laterJob : PendingJob := ⟨"k", .dm, 3, 4, none⟩

/-- A turn answers with the text. -/
def turnEvents (text : String) : List WebEvent :=
  [.settle "t" (.answered (some text) []), .complete "t" "m", .answerAppended "t", .finish]

/-- Two requests, one after the other. -/
def answeredEvents : List WebEvent :=
  [.chat 0 "hello", .acquire 0, .created 0] ++ requestEvents 0 "a" firstJob ++ turnEvents "hi" ++
    .close 0 :: .chat 1 "again" :: requestEvents 1 "b" nextJob ++ turnEvents "ho" ++ [.close 1]

def webMessage (messageId text : String) : InboundMessage :=
  (webInput messageId text "u").normalized webConversation messageId []

/-- The turn of a job in a stage. -/
def turnAt (job : PendingJob) (transport : Nat) (stage : TurnStage) : Turn :=
  { owner := 0, job, transport := some transport, stage }

def nextTurn (stage : TurnStage) : Turn := { turnAt nextJob 1 stage with owner := 1 }

theorem careful_decide {s : WebChat} {i recordId : Nat} {message : InboundMessage}
    (hphase : s.phase i = .appended recordId message)
    (hlatest : s.runtime.getLastQueuedTriggerRecordId < recordId) (timestamp jobId : String) :
    s.Careful (.decide i timestamp jobId) := by
  intro recordId' message' hphase'
  rw [hphase] at hphase'
  cases hphase'
  exact hlatest

theorem careful_settle {s : WebChat} {i : Nat} {turn : Turn} (hturn : s.turn = some turn)
    (htransport : s.transport = some i) (hrecord : s.recordOf i = some turn.job.triggerRecordId)
    (timestamp : String) (outcome : TurnOutcome) : s.Careful (.settle timestamp outcome) := by
  intro _ turn' hturn'
  rw [hturn] at hturn'
  cases hturn'
  exact ⟨i, htransport, hrecord⟩

theorem answeredEvents_careful :
    EventsMeet (fun s e => e.Enabled s ∧ s.Careful e) (start []) answeredEvents := by
  refine ⟨⟨rfl, trivial⟩, ⟨?_, rfl⟩, ⟨?_, trivial⟩, ⟨?_, trivial⟩, ⟨?_, trivial⟩,
    ⟨⟨1, webMessage "a" "hello", ?_⟩, @careful_decide _ _ 1 (webMessage "a" "hello") ?_ ?_ _ _⟩,
    ⟨⟨firstJob, ?_⟩, trivial⟩, ⟨?_, .inl ?_⟩,
    ⟨⟨turnAt firstJob 0 .prompting, ?_, rfl⟩, @careful_settle _ 0 (turnAt firstJob 0 .prompting) ?_ ?_ ?_ _ _⟩,
    ⟨⟨turnAt firstJob 0 (.sent "hi" []), "hi", [], ?_, rfl⟩, trivial⟩,
    ⟨⟨turnAt firstJob 0 (.answered 3), 3, ?_, rfl⟩, trivial⟩,
    ⟨⟨turnAt firstJob 0 (.finished none), none, ?_, rfl⟩, trivial⟩, ⟨?_, trivial⟩,
    ⟨?_, trivial⟩, ⟨?_, trivial⟩, ⟨?_, trivial⟩,
    ⟨⟨5, webMessage "b" "again", ?_⟩, @careful_decide _ _ 5 (webMessage "b" "again") ?_ ?_ _ _⟩,
    ⟨⟨nextJob, ?_⟩, trivial⟩, ⟨?_, .inl ?_⟩,
    ⟨⟨nextTurn .prompting, ?_, rfl⟩, @careful_settle _ 1 (nextTurn .prompting) ?_ ?_ ?_ _ _⟩,
    ⟨⟨nextTurn (.sent "ho" []), "ho", [], ?_, rfl⟩, trivial⟩,
    ⟨⟨nextTurn (.answered 7), 7, ?_, rfl⟩, trivial⟩,
    ⟨⟨nextTurn (.finished none), none, ?_, rfl⟩, trivial⟩, ⟨?_, trivial⟩, trivial⟩
  all_goals first
    | show _ = _
      decide +kernel
    | show ConversationRuntime.getLastQueuedTriggerRecordId _ < _
      decide +kernel

def answered : WebChat := runOf (start []) answeredEvents

theorem web_chat_answers_example : answered.doneFrames 0 = ["hi"] ∧ answered.doneFrames 1 = ["ho"] := by
  have hrun : Run (fun s e t => WebNext (fun _ => false) s e t ∧ s.Careful e) (start []) answeredEvents
      answered := answeredEvents_careful.run.imp fun s e t h => ⟨⟨h.1.1, h.2⟩, h.1.2⟩
  have hframes : ∀ {i record text}, answered.phase i = .closed → answered.recordOf i = some record →
      answered.outcomeOf record = some text → answered.doneFrames i = [text] := by
    intro i record text hclosed hrecord htext
    obtain ⟨hcontrol, -⟩ | ⟨r, text', hrecord', htext', hframes⟩ :=
      (web_chat_answers (fun _ => false) hrun i).2 hclosed
    · cases hcontrol
    · rw [hrecord] at hrecord'
      obtain rfl := Option.some.inj hrecord'
      rw [htext] at htext'
      obtain rfl := Option.some.inj htext'
      exact hframes
  exact ⟨@hframes 0 1 "hi" (by decide +kernel) (by decide +kernel) (by decide +kernel),
    @hframes 1 5 "ho" (by decide +kernel) (by decide +kernel) (by decide +kernel)⟩

/-! ## Requests that overlap -/

/-- A second request comes while the turn of the first one prompts, and is closed; the first turn is
aborted, and then the job of the second request is answered. -/
def overlappingEvents : List WebEvent :=
  [.chat 0 "hello", .acquire 0, .created 0] ++ requestEvents 0 "a" firstJob ++
    .chat 1 "again" :: requestEvents 1 "b" laterJob ++
    [.close 1, .settle "t" .aborted, .failureAppended "t", .finish] ++ turnEvents "hi"

def overlapping : WebChat := runOf (start []) overlappingEvents

theorem overlappingEvents_enabled :
    EventsMeet (fun s e => e.Enabled s) (start []) overlappingEvents := by
  refine ⟨rfl, ?_, ?_, ?_, ?_, ⟨1, webMessage "a" "hello", ?_⟩, ⟨firstJob, ?_⟩, ?_, ?_, ?_, ?_,
    ⟨3, webMessage "b" "again", ?_⟩, ⟨laterJob, ?_⟩, ?_, ?_,
    ⟨turnAt firstJob 0 .prompting, ?_, rfl⟩,
    ⟨turnAt firstJob 0 (.failed none none), none, none, ?_, rfl⟩,
    ⟨turnAt firstJob 0 (.finished none), none, ?_, rfl⟩,
    ⟨turnAt laterJob 1 .prompting, ?_, rfl⟩,
    ⟨turnAt laterJob 1 (.sent "hi" []), "hi", [], ?_, rfl⟩,
    ⟨turnAt laterJob 1 (.answered 6), 6, ?_, rfl⟩,
    ⟨turnAt laterJob 1 (.finished none), none, ?_, rfl⟩, trivial⟩
  all_goals
    show _ = _
    decide +kernel

/-- The connection of the second request has got an empty answer, though its job has a text. -/
theorem answer_closed_early : ∃ (events : List WebEvent) (s : WebChat),
    Run (WebNext fun _ => false) (start []) events s ∧ s.phase 1 = .closed ∧ s.recordOf 1 = some 3 ∧
      s.outcomeOf 3 = some "hi" ∧ s.doneFrames 1 = [""] := by
  refine ⟨overlappingEvents, overlapping, overlappingEvents_enabled.run, ?_, ?_, ?_, ?_⟩
  all_goals decide +kernel

end Examples

end WebChat

end PieLab.Gateway

import PieLab.Gateway.WebIpc
import PieLab.Lib.SafeRuns

/-
  Failing jobs of a gateway conversation

  The worker of a conversation takes one job at a time from its runtime. The turn
  of a job prompts a session, sends the answer and records how the job ended, and
  at each of these the job can fail: the failure is then recorded, logged and
  reported, and in the end the next job is taken. The runtime lets go of a job
  when the append of its last record has succeeded, which is awaited like
  everything else.

  What is proved:
    1. `ConversationWorker.Settled.step` — a turn that is over has let go of its
       job, unless the `job_failed` append of the catch block fails.
    2. `dispatch_unblocked_iff` — a run never blocks the conversation exactly if
       that append never fails in it.
    3. `lost_log_blocks` — a job whose failure cannot be recorded stays active, and
       no later job is taken.

  Correspondence (TypeScript ↔ Lean), packages/coding-agent/src/core/gateway:
    runner.ts, `tryDispatch`, its beginning       ↔ `tryDispatch`
    runner.ts, `tryDispatch`, after the prompt     ↔ `settle`, `appended`, `sent`
    runner.ts, `tryDispatch`, the catch block      ↔ `caught`, `report`, `apologize`
    runner.ts, `tryDispatch`, the finally block    ↔ `finish`
    chat/runtime.ts, `completeActiveJob`           ↔ `complete`, `appended`
    chat/runtime.ts, `failActiveJob`, `appendError` ↔ `failActiveJob`, `report`
  What happens between two awaits is one step, and the finally block is a step of
  its own. Every wait may end in success or in a failure. The other calls of the
  runtime are those of `ChatRun`. Sessions, aborts and deltas only change how a
  turn goes on, and it may go on in any way here.
-/

namespace PieLab.Gateway

open Lib

/-! ## The worker -/

/-- What `await` a turn is at, in the order of the source. -/
inductive DispatchStage where
  /-- The session is created, reloaded and prompted. -/
  | prompting
  /-- The `job_failed` record of the try block is appended. -/
  | failing (notice : Option String)
  /-- The notice that the turn failed is sent. -/
  | noticing (notice : String)
  /-- The final text is sent. -/
  | sending (finalText : String) (attachmentPaths : List String)
  /-- The answer is appended. -/
  | answering (job : PendingJob) (outboundRecordId : Nat)
  /-- The `job_completed` record is appended. -/
  | completing
  /-- The `job_failed` record of the catch block is appended. -/
  | catching (message : String)
  /-- The error is appended. -/
  | reporting (message : String)
  /-- The notice of the catch block is sent. -/
  | apologizing (message : String)
  /-- The finally block comes next. -/
  | over
  deriving DecidableEq, Repr

structure DispatchTurn where
  next : DispatchableJob
  stage : DispatchStage
  deriving DecidableEq, Repr

structure GatewayTransport where
  supportsStreaming : Option Bool
  deriving DecidableEq, Repr

/-- `turn` is there while `inFlight` is set, `connected` while the worker has its runtime. -/
structure ConversationWorker where
  chat : ChatRun
  connected : Bool
  transport : Option GatewayTransport
  turn : Option DispatchTurn

/-- What is known when an `await` of a turn is over. -/
inductive WorkerEvent where
  /-- Another call of the runtime goes on. -/
  | call (e : ChatEvent)
  | setTransport (transport : GatewayTransport)
  | disconnect
  /-- `tryDispatch` is called from outside. -/
  | tryDispatch
  /-- `session.prompt` ends; some deltas were sent before. -/
  | settle (timestamp messageId : String) (streamed : Bool) (outcome : TurnOutcome)
  | appended (timestamp : String)
  | appendFailed (timestamp message : String)
  /-- The transport gives the sent message an id. -/
  | sent (timestamp messageId : String)
  | sendFailed (timestamp message : String)
  | finish

/-- The calls that leave the job of the turn alone. -/
def ChatEvent.isOutside : ChatEvent → Bool
  | .dispatch | .complete _ _ _ _ | .fail _ _ => false
  | .resume (.answered _ _) _ _ | .resume .finished _ _ => false
  | .reject (.answered _ _) | .reject .finished => false
  | _ => true

namespace ConversationWorker

/-- The worker after `start`, the log read. -/
def start (records : List ChatLogRecord) : ConversationWorker where
  chat := .start records
  connected := true
  transport := none
  turn := none

def runtime (w : ConversationWorker) : ConversationRuntime := w.chat.runtime

def setRuntime (w : ConversationWorker) (runtime : ConversationRuntime) : ConversationWorker :=
  { w with chat := { w.chat with runtime } }

def goTo (w : ConversationWorker) (turn : DispatchTurn) (stage : DispatchStage) :
    ConversationWorker :=
  { w with turn := some { turn with stage } }

/-- `tryDispatch`, up to its first wait. -/
def tryDispatch (w : ConversationWorker) : ConversationWorker :=
  if !w.connected || w.turn.isSome then w
  else
    match w.runtime.beginNextJob with
    | none => w
    | some (next, runtime) => (w.setRuntime runtime).goTo ⟨next, .prompting⟩ .prompting

/-- `this.transport?.sendImmediate`, with what is awaited then. -/
def sendImmediate (w : ConversationWorker) (turn : DispatchTurn) (stage : DispatchStage) :
    ConversationWorker :=
  w.goTo turn (if w.transport.isSome then stage else .over)

/-- `failActiveJob`, up to its wait. Without an active job the turn goes on as `skip`. -/
def failActiveJob (w : ConversationWorker) (turn : DispatchTurn) (timestamp error : String)
    (stage : DispatchStage) (skip : ConversationWorker) : ConversationWorker :=
  match w.runtime.activeJob with
  | none => skip
  | some job => (w.setRuntime (w.runtime.appendFailed timestamp job error)).goTo turn stage

/-- The notice of the catch block. -/
def apologize (w : ConversationWorker) (turn : DispatchTurn) (message : String) :
    ConversationWorker :=
  w.sendImmediate turn (.apologizing (errorNotice message))

/-- `appendError` of the catch block, up to its wait. -/
def report (w : ConversationWorker) (turn : DispatchTurn) (timestamp message : String) :
    ConversationWorker :=
  if w.connected then
    (w.setRuntime (w.runtime.appendRecord timestamp (.error message))).goTo turn (.reporting message)
  else w.apologize turn message

/-- The catch block, up to its first wait. -/
def caught (w : ConversationWorker) (turn : DispatchTurn) (timestamp message : String) :
    ConversationWorker :=
  w.failActiveJob turn timestamp message (.catching message) (w.report turn timestamp message)

/-- What follows `failActiveJob` in the try block. -/
def notify (w : ConversationWorker) (turn : DispatchTurn) (notice : Option String) :
    ConversationWorker :=
  match notice with
  | none => w.goTo turn .over
  | some text => w.sendImmediate turn (.noticing text)

/-- `completeActiveJob`, up to its first wait. -/
def complete (w : ConversationWorker) (turn : DispatchTurn) (timestamp messageId finalText : String)
    (attachmentPaths : List String) : ConversationWorker :=
  match w.runtime.activeJob with
  | none => w.goTo turn .over
  | some job =>
    if jsTrim finalText ≠ "" ∨ attachmentPaths ≠ [] then
      (w.setRuntime (w.runtime.appendOutbound timestamp messageId finalText attachmentPaths job)).goTo
        turn (.answering job w.runtime.log.nextRecordId)
    else (w.setRuntime (w.runtime.appendCompleted timestamp job none)).goTo turn .completing

/-- The deltas were the answer already. -/
def skipSend (transport : GatewayTransport) (streamed : Bool) (attachmentPaths : List String) :
    Bool :=
  !transport.supportsStreaming.getD false && streamed && attachmentPaths.isEmpty

/-- The final text, sent if there is somebody to send it to. -/
def answer (w : ConversationWorker) (turn : DispatchTurn) (timestamp messageId : String)
    (streamed : Bool) (finalText : String) (attachmentPaths : List String) : ConversationWorker :=
  match w.transport with
  | none => w.complete turn timestamp messageId finalText attachmentPaths
  | some transport =>
    if finalText ≠ "" ∧ !skipSend transport streamed attachmentPaths then
      w.goTo turn (.sending finalText attachmentPaths)
    else w.complete turn timestamp messageId finalText attachmentPaths

/-- What follows `session.prompt`. -/
def settle (w : ConversationWorker) (turn : DispatchTurn) (timestamp messageId : String)
    (streamed : Bool) (outcome : TurnOutcome) : ConversationWorker :=
  match outcome with
  | .thrown message => w.caught turn timestamp message
  | .aborted => w.failActiveJob turn timestamp "aborted" (.failing none) (w.notify turn none)
  | .stopped reason errorMessage =>
    let notice := some (errorNotice (stopMessage reason errorMessage))
    w.failActiveJob turn timestamp (stopMessage reason errorMessage) (.failing notice)
      (w.notify turn notice)
  | .answered text attachmentPaths =>
    w.answer turn timestamp messageId streamed (TurnOutcome.answered text attachmentPaths).finalText
      attachmentPaths

/-- `this.activeJob = undefined` behind the append. -/
def clearActive (w : ConversationWorker) : ConversationWorker := w.setRuntime w.runtime.clearActive

/-- An append of the turn has succeeded. -/
def appended (w : ConversationWorker) (turn : DispatchTurn) (timestamp : String) :
    ConversationWorker :=
  match turn.stage with
  | .failing notice => w.clearActive.notify turn notice
  | .answering job outboundRecordId =>
    (w.setRuntime (w.runtime.appendCompleted timestamp job (some outboundRecordId))).goTo turn .completing
  | .completing => w.clearActive.goTo turn .over
  | .catching message => w.clearActive.report turn timestamp message
  | .reporting message => w.apologize turn message
  | _ => w

/-- An append of the turn has failed. Out of the catch block nothing catches the failure. -/
def appendFailed (w : ConversationWorker) (turn : DispatchTurn) (timestamp message : String) :
    ConversationWorker :=
  match turn.stage with
  | .failing _ | .answering _ _ | .completing => w.caught turn timestamp message
  | .catching _ | .reporting _ => w.goTo turn .over
  | _ => w

def sent (w : ConversationWorker) (turn : DispatchTurn) (timestamp messageId : String) :
    ConversationWorker :=
  match turn.stage with
  | .sending finalText attachmentPaths => w.complete turn timestamp messageId finalText attachmentPaths
  | .noticing _ | .apologizing _ => w.goTo turn .over
  | _ => w

def sendFailed (w : ConversationWorker) (turn : DispatchTurn) (timestamp message : String) :
    ConversationWorker :=
  match turn.stage with
  | .sending _ _ | .noticing _ => w.caught turn timestamp message
  | .apologizing _ => w.goTo turn .over
  | _ => w

/-- The finally block. -/
def finish (w : ConversationWorker) : ConversationWorker := { w with turn := none }.tryDispatch

/-- The turn in flight goes on. -/
def onTurn (w : ConversationWorker) (f : DispatchTurn → ConversationWorker) : ConversationWorker :=
  w.turn.elim w f

def step (conversation : Conversation) (w : ConversationWorker) : WorkerEvent → ConversationWorker
  | .call e => { w with chat := w.chat.step conversation e }
  | .setTransport transport => { w with transport := some transport }
  | .disconnect => { w with connected := false }
  | .tryDispatch => w.tryDispatch
  | .settle timestamp messageId streamed outcome =>
    w.onTurn fun turn => w.settle turn timestamp messageId streamed outcome
  | .appended timestamp => w.onTurn fun turn => w.appended turn timestamp
  | .appendFailed timestamp message => w.onTurn fun turn => w.appendFailed turn timestamp message
  | .sent timestamp messageId => w.onTurn fun turn => w.sent turn timestamp messageId
  | .sendFailed timestamp message => w.onTurn fun turn => w.sendFailed turn timestamp message
  | .finish => w.finish

end ConversationWorker

def DispatchStage.isAppend : DispatchStage → Bool
  | .failing _ | .answering _ _ | .completing | .catching _ | .reporting _ => true
  | _ => false

def DispatchStage.isSend : DispatchStage → Bool
  | .noticing _ | .sending _ _ | .apologizing _ => true
  | _ => false

/-- When an event can happen. -/
def WorkerEvent.Enabled (w : ConversationWorker) : WorkerEvent → Prop
  | .call e => e.isOutside ∧ e.Enabled w.chat
  | .setTransport _ | .disconnect | .tryDispatch => True
  | .settle _ _ _ _ => ∃ next, w.turn = some ⟨next, .prompting⟩
  | .appended _ | .appendFailed _ _ => ∃ turn, w.turn = some turn ∧ turn.stage.isAppend
  | .sent _ _ | .sendFailed _ _ => ∃ turn, w.turn = some turn ∧ turn.stage.isSend
  | .finish => ∃ next, w.turn = some ⟨next, .over⟩

def WorkerNext (conversation : Conversation) (w : ConversationWorker) (e : WorkerEvent)
    (v : ConversationWorker) : Prop :=
  e.Enabled w ∧ v = w.step conversation e

/-! ## Turns that are over -/

namespace ConversationWorker

/-- No turn is before its finally block. -/
def Over (w : ConversationWorker) : Prop := ∀ turn, w.turn = some turn → turn.stage = .over

/-- A turn that is over has no active job, and the next one takes the oldest job. -/
structure Unblocked (w : ConversationWorker) : Prop where
  cleared : w.Over → w.runtime.activeJob = none
  begins : w.Over → w.connected → ∀ job rest, w.runtime.pendingJobs = job :: rest →
    w.finish.runtime.activeJob = some job ∧ w.finish.runtime.pendingJobs = rest ∧
      ∃ next, next.job = job ∧ w.finish.turn = some ⟨next, .prompting⟩

end ConversationWorker

/-- The append that fails is that of the `job_failed` record of the catch block. -/
def WorkerEvent.LosesFailure (w : ConversationWorker) : WorkerEvent → Prop
  | .appendFailed _ _ => ∃ next message, w.turn = some ⟨next, .catching message⟩
  | _ => False

/-! ## The active job and the stage of the turn -/

/-- The turn has let go of its job. -/
def DispatchStage.isSettled : DispatchStage → Bool
  | .noticing _ | .reporting _ | .apologizing _ | .over => true
  | _ => false

def DispatchStage.isCatching : DispatchStage → Bool
  | .catching _ => true
  | _ => false

theorem ChatEvent.activeJob_step (conversation : Conversation) (chat : ChatRun) {e : ChatEvent}
    (he : e.isOutside) : (chat.step conversation e).runtime.activeJob = chat.runtime.activeJob := by
  have hdecide : ∀ (s : ChatRun) timestamp jobId recordId message,
      (s.decide conversation timestamp jobId recordId message).runtime.activeJob =
        s.runtime.activeJob := by
    intro s timestamp jobId recordId message
    simp only [ChatRun.decide, ConversationRuntime.queueTrigger]
    cases conversation.shouldTriggerJob message with
    | none => rfl
    | some trigger => cases s.runtime.shouldQueueTrigger recordId <;> rfl
  have hnote : ∀ (r : ConversationRuntime) timestamp checkpoint,
      (r.noteCheckpoint timestamp checkpoint).activeJob = r.activeJob := by
    intro r timestamp checkpoint
    simp only [ConversationRuntime.noteCheckpoint]
    split <;> rfl
  cases e with
  | arm => rfl
  | ingest timestamp nextMessageId input attachments checkpoint => rfl
  | checkpoint timestamp checkpoint => exact hnote _ _ _
  | error timestamp message => rfl
  | nudge jobId prompt =>
    simp only [ChatRun.step, ConversationRuntime.queueProactiveJob]
    split <;> rfl
  | dispatch => cases he
  | complete timestamp messageId text attachmentPaths => cases he
  | fail timestamp error => cases he
  | resume task timestamp jobId =>
    cases task with
    | ingested recordId message checkpoint =>
      cases checkpoint with
      | none => exact hdecide _ _ _ _ _
      | some checkpoint => exact hnote _ _ _
    | checkpointed recordId message => exact hdecide _ _ _ _ _
    | queued job => rfl
    | answered job outboundRecordId => cases he
    | finished => cases he
  | reject task => rfl

namespace ConversationWorker

/-- The append of the catch block is awaited for an active job. -/
def Held (w : ConversationWorker) : Prop :=
  ∀ turn, w.turn = some turn → turn.stage.isCatching → ∃ job, w.runtime.activeJob = some job

/-- The turn in flight holds its job exactly as long as it has to. -/
structure Coherent (w : ConversationWorker) : Prop where
  settled : (∀ turn, w.turn = some turn → turn.stage.isSettled) → w.runtime.activeJob = none
  held : w.Held

theorem start_coherent (records : List ChatLogRecord) : (start records).Coherent where
  settled _ := rfl
  held _ hturn := by cases hturn

section Turn
variable {w : ConversationWorker} {turn : DispatchTurn} {stage : DispatchStage}

theorem goTo_working (hsettled : stage.isSettled = false) (hcatching : stage.isCatching = false) :
    (w.goTo turn stage).Coherent where
  settled h := by
    have hstage := h _ rfl
    rw [hsettled] at hstage
    cases hstage
  held other hother hstage := by
    cases hother
    rw [hcatching] at hstage
    cases hstage

theorem goTo_released (hnone : w.runtime.activeJob = none) (hcatching : stage.isCatching = false) :
    (w.goTo turn stage).Coherent where
  settled _ := hnone
  held other hother hstage := by
    cases hother
    rw [hcatching] at hstage
    cases hstage

theorem goTo_held (hcatching : stage.isCatching = false) : (w.goTo turn stage).Held := by
  intro other hother hstage
  cases hother
  rw [hcatching] at hstage
  cases hstage

theorem sendImmediate_released (hnone : w.runtime.activeJob = none)
    (hcatching : stage.isCatching = false) : (w.sendImmediate turn stage).Coherent := by
  apply goTo_released hnone
  cases w.transport with
  | none => rfl
  | some transport => exact hcatching

theorem sendImmediate_held (hcatching : stage.isCatching = false) :
    (w.sendImmediate turn stage).Held := by
  apply goTo_held
  cases w.transport with
  | none => rfl
  | some transport => exact hcatching

theorem notify_released (hnone : w.runtime.activeJob = none) (notice : Option String) :
    (w.notify turn notice).Coherent := by
  cases notice with
  | none => exact goTo_released hnone rfl
  | some text => exact sendImmediate_released hnone rfl

theorem report_released (hnone : w.runtime.activeJob = none) (timestamp message : String) :
    (w.report turn timestamp message).Coherent := by
  simp only [report]
  split
  · exact goTo_released hnone rfl
  · exact sendImmediate_released hnone rfl

theorem failActiveJob_coherent {skip : ConversationWorker} (timestamp error : String)
    (hstage : stage.isSettled = false) (hskip : w.runtime.activeJob = none → skip.Coherent) :
    (w.failActiveJob turn timestamp error stage skip).Coherent := by
  simp only [failActiveJob]
  cases hactive : w.runtime.activeJob with
  | none => exact hskip hactive
  | some job =>
    exact {
      settled := by
        intro h
        have hsettled := h _ rfl
        rw [hstage] at hsettled
        cases hsettled
      held := fun _ _ _ => ⟨job, hactive⟩ }

theorem caught_coherent (timestamp message : String) : (w.caught turn timestamp message).Coherent :=
  failActiveJob_coherent timestamp message rfl fun hnone => report_released hnone timestamp message

theorem complete_coherent (timestamp messageId finalText : String) (attachmentPaths : List String) :
    (w.complete turn timestamp messageId finalText attachmentPaths).Coherent := by
  simp only [complete]
  cases hactive : w.runtime.activeJob with
  | none => exact goTo_released hactive rfl
  | some job =>
    dsimp only
    split
    · exact goTo_working rfl rfl
    · exact goTo_working rfl rfl

theorem settle_coherent (timestamp messageId : String) (streamed : Bool) (outcome : TurnOutcome) :
    (w.settle turn timestamp messageId streamed outcome).Coherent := by
  cases outcome with
  | thrown message => exact caught_coherent timestamp message
  | aborted =>
    exact failActiveJob_coherent timestamp _ rfl fun hnone => notify_released hnone _
  | stopped reason errorMessage =>
    exact failActiveJob_coherent timestamp _ rfl fun hnone => notify_released hnone _
  | answered text attachmentPaths =>
    simp only [settle, answer]
    cases w.transport with
    | none => exact complete_coherent timestamp messageId _ attachmentPaths
    | some transport =>
      dsimp only
      split
      · exact goTo_working rfl rfl
      · exact complete_coherent timestamp messageId _ attachmentPaths

end Turn

/-! ## Steps -/

theorem Coherent.released {w : ConversationWorker} (h : w.Coherent) {turn : DispatchTurn}
    (hturn : w.turn = some turn) (hstage : turn.stage.isSettled) : w.runtime.activeJob = none := by
  apply h.settled
  intro other hother
  rw [hturn] at hother
  cases hother
  exact hstage

theorem clearActive_activeJob (w : ConversationWorker) :
    w.clearActive.runtime.activeJob = none := rfl

theorem tryDispatch_idle {w : ConversationWorker} (hturn : w.turn = none) (hconnected : w.connected)
    (hnone : w.runtime.activeJob = none) {job : PendingJob} {rest : List PendingJob}
    (hpending : w.runtime.pendingJobs = job :: rest) :
    w.tryDispatch.runtime.activeJob = some job ∧ w.tryDispatch.runtime.pendingJobs = rest ∧
      ∃ next, next.job = job ∧ w.tryDispatch.turn = some ⟨next, .prompting⟩ := by
  have hguard : (!w.connected || w.turn.isSome) = false := by simp [hconnected, hturn]
  simp only [tryDispatch, hguard, ConversationRuntime.beginNextJob, hnone, hpending]
  exact ⟨rfl, rfl, _, rfl, rfl⟩

theorem tryDispatch_coherent {w : ConversationWorker} (h : w.Coherent) :
    w.tryDispatch.Coherent := by
  simp only [tryDispatch]
  split
  · exact h
  · cases w.runtime.beginNextJob with
    | none => exact h
    | some begun => exact goTo_working rfl rfl

theorem tryDispatch_held {w : ConversationWorker} (h : w.Held) : w.tryDispatch.Held := by
  simp only [tryDispatch]
  split
  · exact h
  · cases w.runtime.beginNextJob with
    | none => exact h
    | some begun => exact goTo_held rfl

section Turn
variable {w : ConversationWorker} {turn : DispatchTurn}

theorem Coherent.appended (h : w.Coherent) (hturn : w.turn = some turn) (timestamp : String) :
    (w.appended turn timestamp).Coherent := by
  simp only [ConversationWorker.appended]
  cases hat : turn.stage with
  | failing notice => exact notify_released w.clearActive_activeJob notice
  | answering job outboundRecordId => exact goTo_working rfl rfl
  | completing => exact goTo_released w.clearActive_activeJob rfl
  | catching message => exact report_released w.clearActive_activeJob timestamp message
  | reporting message => exact sendImmediate_released (h.released hturn (by rw [hat]; rfl)) rfl
  | _ => exact h

theorem Coherent.appendFailed (h : w.Coherent) (hturn : w.turn = some turn)
    (timestamp message : String)
    (hcatching : turn.stage.isCatching = false) : (w.appendFailed turn timestamp message).Coherent := by
  simp only [ConversationWorker.appendFailed]
  cases hat : turn.stage with
  | failing notice => exact caught_coherent timestamp message
  | answering job outboundRecordId => exact caught_coherent timestamp message
  | completing => exact caught_coherent timestamp message
  | catching thrown => rw [hat] at hcatching; cases hcatching
  | reporting thrown => exact goTo_released (h.released hturn (by rw [hat]; rfl)) rfl
  | _ => exact h

theorem Coherent.sent (h : w.Coherent) (hturn : w.turn = some turn) (timestamp messageId : String) :
    (w.sent turn timestamp messageId).Coherent := by
  simp only [ConversationWorker.sent]
  cases hat : turn.stage with
  | sending finalText attachmentPaths => exact complete_coherent timestamp messageId _ _
  | noticing notice => exact goTo_released (h.released hturn (by rw [hat]; rfl)) rfl
  | apologizing notice => exact goTo_released (h.released hturn (by rw [hat]; rfl)) rfl
  | _ => exact h

theorem Coherent.sendFailed (h : w.Coherent) (hturn : w.turn = some turn)
    (timestamp message : String) :
    (w.sendFailed turn timestamp message).Coherent := by
  simp only [ConversationWorker.sendFailed]
  cases hat : turn.stage with
  | sending finalText attachmentPaths => exact caught_coherent timestamp message
  | noticing notice => exact caught_coherent timestamp message
  | apologizing notice => exact goTo_released (h.released hturn (by rw [hat]; rfl)) rfl
  | _ => exact h

theorem Held.appended (h : w.Held) (timestamp : String) : (w.appended turn timestamp).Held := by
  simp only [ConversationWorker.appended]
  cases turn.stage with
  | failing notice => exact (notify_released w.clearActive_activeJob notice).held
  | answering job outboundRecordId => exact goTo_held rfl
  | completing => exact goTo_held rfl
  | catching message => exact (report_released w.clearActive_activeJob timestamp message).held
  | reporting message => exact sendImmediate_held rfl
  | _ => exact h

theorem Held.appendFailed (h : w.Held) (timestamp message : String) :
    (w.appendFailed turn timestamp message).Held := by
  simp only [ConversationWorker.appendFailed]
  cases turn.stage with
  | failing notice => exact (caught_coherent timestamp message).held
  | answering job outboundRecordId => exact (caught_coherent timestamp message).held
  | completing => exact (caught_coherent timestamp message).held
  | catching thrown => exact goTo_held rfl
  | reporting thrown => exact goTo_held rfl
  | _ => exact h

theorem Held.sent (h : w.Held) (timestamp messageId : String) :
    (w.sent turn timestamp messageId).Held := by
  simp only [ConversationWorker.sent]
  cases turn.stage with
  | sending finalText attachmentPaths => exact (complete_coherent timestamp messageId _ _).held
  | noticing notice => exact goTo_held rfl
  | apologizing notice => exact goTo_held rfl
  | _ => exact h

theorem Held.sendFailed (h : w.Held) (timestamp message : String) :
    (w.sendFailed turn timestamp message).Held := by
  simp only [ConversationWorker.sendFailed]
  cases turn.stage with
  | sending finalText attachmentPaths => exact (caught_coherent timestamp message).held
  | noticing notice => exact (caught_coherent timestamp message).held
  | apologizing notice => exact goTo_held rfl
  | _ => exact h

end Turn

theorem onTurn_keeps {P : ConversationWorker → Prop} {w : ConversationWorker}
    {f : DispatchTurn → ConversationWorker} (h : P w)
    (hturn : ∀ turn, w.turn = some turn → P (f turn)) : P (w.onTurn f) := by
  simp only [onTurn]
  cases hat : w.turn with
  | none => exact h
  | some turn => exact hturn turn hat

theorem Held.of_same {w v : ConversationWorker} (h : w.Held) (hturn : v.turn = w.turn)
    (hactive : v.runtime.activeJob = w.runtime.activeJob) : v.Held := by
  intro turn hat hstage
  rw [hturn] at hat
  rw [hactive]
  exact h turn hat hstage

theorem Coherent.of_same {w v : ConversationWorker} (h : w.Coherent) (hturn : v.turn = w.turn)
    (hactive : v.runtime.activeJob = w.runtime.activeJob) : v.Coherent where
  settled hall := by
    rw [hturn] at hall
    rw [hactive]
    exact h.settled hall
  held := h.held.of_same hturn hactive

theorem idle_coherent {w : ConversationWorker} (hturn : w.turn = none)
    (hnone : w.runtime.activeJob = none) : w.Coherent where
  settled _ := hnone
  held turn hat := by rw [hturn] at hat; cases hat

theorem idle_held {w : ConversationWorker} (hturn : w.turn = none) : w.Held := by
  intro turn hat
  rw [hturn] at hat
  cases hat

variable {conversation : Conversation} {w : ConversationWorker} {e : WorkerEvent}

theorem Coherent.step (h : w.Coherent) (henabled : e.Enabled w) (hkept : ¬ e.LosesFailure w) :
    (w.step conversation e).Coherent := by
  cases e with
  | call e => exact h.of_same rfl (ChatEvent.activeJob_step conversation w.chat henabled.1)
  | setTransport transport => exact h.of_same rfl rfl
  | disconnect => exact h.of_same rfl rfl
  | tryDispatch => exact tryDispatch_coherent h
  | settle timestamp messageId streamed outcome =>
    exact onTurn_keeps h fun turn _ => settle_coherent timestamp messageId streamed outcome
  | appended timestamp => exact onTurn_keeps h fun turn hturn => h.appended hturn timestamp
  | appendFailed timestamp message =>
    apply onTurn_keeps h
    intro turn hturn
    apply h.appendFailed hturn
    cases hat : turn.stage with
    | catching thrown => exact absurd ⟨turn.next, thrown, hturn.trans (by rw [← hat])⟩ hkept
    | _ => rfl
  | sent timestamp messageId => exact onTurn_keeps h fun turn hturn => h.sent hturn timestamp messageId
  | sendFailed timestamp message =>
    exact onTurn_keeps h fun turn hturn => h.sendFailed hturn timestamp message
  | finish =>
    obtain ⟨next, hturn⟩ := henabled
    exact tryDispatch_coherent (idle_coherent rfl (h.released hturn rfl))

theorem Held.step (h : w.Held) (henabled : e.Enabled w) : (w.step conversation e).Held := by
  cases e with
  | call e => exact h.of_same rfl (ChatEvent.activeJob_step conversation w.chat henabled.1)
  | setTransport transport => exact h.of_same rfl rfl
  | disconnect => exact h.of_same rfl rfl
  | tryDispatch => exact tryDispatch_held h
  | settle timestamp messageId streamed outcome =>
    exact onTurn_keeps h fun turn _ => (settle_coherent timestamp messageId streamed outcome).held
  | appended timestamp => exact onTurn_keeps h fun turn _ => h.appended timestamp
  | appendFailed timestamp message => exact onTurn_keeps h fun turn _ => h.appendFailed timestamp message
  | sent timestamp messageId => exact onTurn_keeps h fun turn _ => h.sent timestamp messageId
  | sendFailed timestamp message => exact onTurn_keeps h fun turn _ => h.sendFailed timestamp message
  | finish => exact tryDispatch_held (idle_held rfl)

/-! ## Runs -/

theorem Coherent.unblocked (h : w.Coherent) : w.Unblocked := by
  have hcleared : w.Over → w.runtime.activeJob = none := by
    intro hover
    apply h.settled
    intro turn hturn
    rw [hover turn hturn]
    rfl
  constructor
  · exact hcleared
  · intro hover hconnected job rest hpending
    exact @tryDispatch_idle { w with turn := none } rfl hconnected
      (hcleared hover) job rest hpending

theorem not_unblocked_of_losesFailure (hheld : w.Held) (hlost : e.LosesFailure w) :
    ¬ (w.step conversation e).Unblocked := by
  intro hunblocked
  cases e with
  | appendFailed timestamp message =>
    obtain ⟨next, thrown, hturn⟩ := hlost
    obtain ⟨job, hactive⟩ := hheld _ hturn rfl
    have hstep : w.step conversation (.appendFailed timestamp message) =
        w.goTo ⟨next, .catching thrown⟩ .over := by
      show w.onTurn _ = _
      simp only [onTurn, hturn]
      rfl
    rw [hstep] at hunblocked
    have hnone : w.runtime.activeJob = none := by
      apply hunblocked.cleared
      intro turn hat
      cases hat
      rfl
    rw [hactive] at hnone
    cases hnone
  | _ => exact hlost

end ConversationWorker

/-- The conversation is never blocked along a run exactly if no append of a `job_failed` record
in the catch block fails in it. -/
theorem dispatch_unblocked_iff (conversation : Conversation) (records : List ChatLogRecord)
    {events : List WorkerEvent} {w : ConversationWorker}
    (hrun : Run (WorkerNext conversation) (.start records) events w) :
    Always (WorkerNext conversation) ConversationWorker.Unblocked (.start records) events ↔
      Never (WorkerNext conversation) (fun w e => e.LosesFailure w) (.start records) events := by
  apply Run.always_iff_never _ _ _ _ _ hrun (ConversationWorker.start_coherent records)
    (ConversationWorker.start_coherent records).held
  · intro s e t t' hnext hnext'
    rw [hnext.2, hnext'.2]
  · intro s e t hnext hkept hcoherent
    rw [hnext.2]
    exact hcoherent.step hnext.1 hkept
  · intro s e t hnext hheld
    rw [hnext.2]
    exact hheld.step hnext.1
  · intro s hcoherent
    exact hcoherent.unblocked
  · intro s e t hnext hlost hheld
    rw [hnext.2]
    exact ConversationWorker.not_unblocked_of_losesFailure hheld hlost

section Examples

/-- A proactive job is queued and taken. -/
def pokedEvents :
    List WorkerEvent := [.call .arm, .call (.nudge "nudge" "Anything new?"), .tryDispatch]

def nudgedJob : PendingJob := ⟨"nudge", .nudge, 0, 1, some "Anything new?"⟩

/-- The job fails, which is recorded; there is nobody to tell. -/
def recordedEvents : List WorkerEvent := pokedEvents ++
  [.settle "t" "m" false (.thrown "no model"), .appended "t", .appended "t", .finish]

theorem recordedEvents_run :
    ∃ w, Run (WorkerNext webConversation) (.start []) recordedEvents w ∧ w.turn = none :=
  ⟨_, .cons ⟨⟨rfl, trivial⟩, rfl⟩ (.cons ⟨⟨rfl, trivial⟩, rfl⟩ (.cons ⟨trivial, rfl⟩
    (.cons ⟨⟨_, rfl⟩, rfl⟩ (.cons ⟨⟨_, rfl, rfl⟩, rfl⟩ (.cons ⟨⟨_, rfl, rfl⟩, rfl⟩
    (.cons ⟨⟨_, rfl⟩, rfl⟩ (.nil _))))))), rfl⟩

theorem dispatch_unblocked_iff_example :
    Always (WorkerNext webConversation) ConversationWorker.Unblocked (.start []) recordedEvents := by
  obtain ⟨w, hrun, _⟩ := recordedEvents_run
  apply (dispatch_unblocked_iff webConversation [] hrun).2
  intro before e after t hevents _ hlost
  have hmem : e ∈ recordedEvents := by
    rw [hevents]
    simp
  cases e with
  | appendFailed timestamp message => simp [recordedEvents, pokedEvents] at hmem
  | _ => exact hlost

/-- The message that comes in while the job is in flight, and its job. -/
def hello : InboundMessage := (webInput "m" "hello" "u").normalized webConversation "m" []

def askedJob : PendingJob := ⟨"hello", .dm, 2, 3, none⟩

/-- The log file cannot be written any more when the failure is recorded. -/
def lostEvents : List WorkerEvent := pokedEvents ++
  [.call (.ingest "t" "m" (webInput "m" "hello" "u") [] none),
    .call (.resume (.ingested 2 hello none) "t" "hello"), .call (.resume (.queued askedJob) "t" ""),
    .settle "t" "m" false (.thrown "no model"), .appendFailed "t" "ENOSPC", .finish]

/-- The job stays active although its turn is over, and the next job is never taken. -/
theorem lost_log_blocks : ∃ w, Run (WorkerNext webConversation) (.start []) lostEvents w ∧
    w.Over ∧ w.runtime.activeJob = some nudgedJob ∧ w.runtime.pendingJobs = [askedJob] ∧
      w.tryDispatch = w := by
  refine ⟨_, .cons ⟨⟨rfl, trivial⟩, rfl⟩ (.cons ⟨⟨rfl, trivial⟩, rfl⟩ (.cons ⟨trivial, rfl⟩
    (.cons ⟨⟨rfl, trivial⟩, rfl⟩ (.cons ⟨⟨rfl, ?_⟩, rfl⟩ (.cons ⟨⟨rfl, ?_⟩, rfl⟩ (.cons ⟨⟨_, rfl⟩, rfl⟩
    (.cons ⟨⟨_, rfl, rfl⟩, rfl⟩ (.cons ⟨⟨_, rfl⟩, rfl⟩ (.nil _))))))))), ?_, rfl, rfl, rfl⟩
  · exact List.mem_singleton_self _
  · exact List.mem_singleton_self _
  · intro turn hturn
    cases hturn

end Examples

end PieLab.Gateway

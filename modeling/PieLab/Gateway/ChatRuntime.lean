import PieLab.Gateway.ChatLog

/-
  The runtime of a chat conversation

  Messages of a chat are kept as records. A message that triggers the agent queues
  a job; the prompt of a job is what came in since the trigger of the last completed
  job, up to its own trigger. A proactive job brings its own prompt and takes the
  last record as its trigger. The methods of the runtime wait for each record to be
  appended to the log file; what they do between two waits is one step here, and
  the waits of any number of calls end in any order (`Task`).

  Correspondence (TypeScript ↔ Lean): the names of
  packages/coding-agent/src/core/gateway/chat/runtime.ts, `normalizeInboundMessage`
  of log.ts and the records of core/runtime-types.ts.
    `ingestInbound`      ↔ `recordInbound`, `noteCheckpoint`, `queueTrigger`, `pushJob`
    `completeActiveJob`  ↔ `appendOutbound`, `appendCompleted`
  Times, ids and stored attachments come from outside. Session keys and sources,
  which say in which agent session a job runs, and the constants of the
  conversation in every record are left out; so is the search in the history.
  Whether a text mentions the bot is a parameter.
-/

namespace PieLab.Gateway

open Lib

/-! ## Records -/

structure StoredAttachment where
  localPath : String
  mimeType : Option String
  deriving DecidableEq, Repr

structure InboundMessage where
  messageId : String
  userId : String
  userName : Option String
  roleIds : Option (List String)
  text : String
  mentionedBot : Bool
  isBot : Bool
  attachments : List StoredAttachment
  deriving DecidableEq, Repr

inductive Trigger where
  | mention | dm | nudge
  deriving DecidableEq, Repr

inductive RecordBody where
  | inbound (message : InboundMessage)
  | outbound (messageId text : String) (replyToMessageId : Option String) (jobId : String)
    (attachments : Option (List String))
  | checkpoint (cursor messageId : Option String)
  | jobQueued (jobId : String) (trigger : Trigger) (triggerRecordId : Nat)
  | jobCompleted (jobId : String) (triggerRecordId : Nat) (outboundRecordId : Option Nat)
  | jobFailed (jobId : String) (triggerRecordId : Nat) (error : String)
  | error (message : String)
  deriving DecidableEq, Repr

structure ChatLogRecord where
  recordId : Nat
  timestamp : String
  body : RecordBody
  deriving DecidableEq, Repr

structure PendingJob where
  jobId : String
  trigger : Trigger
  triggerRecordId : Nat
  queuedRecordId : Nat
  overridePrompt : Option String
  deriving DecidableEq, Repr

structure DispatchableJob where
  job : PendingJob
  prompt : String
  triggerMessageId : Option String
  deriving DecidableEq, Repr

structure Checkpoint where
  cursor : Option String
  messageId : Option String
  deriving DecidableEq, Repr

/-! ## The conversation -/

inductive TriggerMode where
  | mention | message
  deriving DecidableEq, Repr

structure AccessPolicy where
  trigger : Option TriggerMode
  ignoreBots : Option Bool
  allowedUserIds : Option (List String)
  allowedRoleIds : Option (List String)

structure Conversation where
  dm : Option Bool
  access : AccessPolicy
  /-- The text names the bot behind an `@`. -/
  mentionsBot : String → Bool

structure InboundMessageInput where
  messageId : Option String
  userId : String
  userName : Option String
  roleIds : Option (List String)
  text : String
  mentionedBot : Option Bool
  isBot : Option Bool

/-- `normalizeInboundMessage`, and the record fields made of it. -/
def InboundMessageInput.normalized (input : InboundMessageInput) (conversation : Conversation)
    (nextMessageId : String) (attachments : List StoredAttachment) : InboundMessage :=
  let text := jsTrim input.text
  { messageId := if truthyText input.messageId then input.messageId.getD "" else nextMessageId
    userId := input.userId
    userName := input.userName
    roleIds := input.roleIds
    text
    mentionedBot := input.mentionedBot.getD (conversation.mentionsBot text)
    isBot := input.isBot.getD false
    attachments }

def Conversation.isAllowedMessage (conversation : Conversation) (message : InboundMessage) : Bool :=
  let access := conversation.access
  if message.isBot && access.ignoreBots.getD true then false
  else if access.allowedUserIds.any (fun ids => !ids.isEmpty && !ids.contains message.userId) then false
  else if access.allowedRoleIds.any (fun ids => !ids.isEmpty &&
      !(message.roleIds.getD []).any ids.contains) then false
  else true

def Conversation.shouldTriggerJob (conversation : Conversation) (message : InboundMessage) :
    Option Trigger :=
  if !conversation.isAllowedMessage message then none
  else if conversation.dm.getD false then some .dm
  else if conversation.access.trigger.getD .mention = .message then some .mention
  else if message.mentionedBot then some .mention
  else none

/-! ## Prompts -/

def transcriptText (text : String) : String := if text = "" then "(no text)" else text

def attachmentLine (attachment : StoredAttachment) : String :=
  "  - " ++ attachment.localPath ++
    if truthyText attachment.mimeType then " (" ++ attachment.mimeType.getD "" ++ ")" else ""

def formatTranscriptRecord (record : ChatLogRecord) : List String :=
  match record.body with
  | .inbound message =>
    ("- [" ++ record.timestamp ++ "] [uid:" ++ message.userId ++ "] " ++
      message.userName.getD "unknown" ++ ": " ++ transcriptText message.text) ::
    (if message.attachments = [] then []
      else "  attachments:" :: message.attachments.map attachmentLine)
  | _ => []

/-! ## The runtime -/

structure ConversationRuntime where
  log : RecordLog ChatLogRecord
  pendingJobs : List PendingJob
  activeJob : Option PendingJob
  armedAfterRecordId : Option Nat

def RecordBody.queuedTrigger : RecordBody → Option Nat
  | .jobQueued _ _ triggerRecordId => some triggerRecordId
  | _ => none

def RecordBody.completedTrigger : RecordBody → Option Nat
  | .jobCompleted _ triggerRecordId _ => some triggerRecordId
  | _ => none

def RecordBody.checkpoint? : RecordBody → Option Checkpoint
  | .checkpoint cursor messageId => some ⟨cursor, messageId⟩
  | _ => none

def RecordBody.message? : RecordBody → Option InboundMessage
  | .inbound message => some message
  | _ => none

/-- The largest trigger id that `trigger` finds in the records. -/
def lastTrigger (trigger : RecordBody → Option Nat) (records : List ChatLogRecord) : Nat :=
  records.foldl (fun last record => (trigger record.body).elim last (max last)) 0

namespace ConversationRuntime

/-- `connect`, with the records the log reads as. -/
def connect (records : List ChatLogRecord) : ConversationRuntime where
  log := .load ChatLogRecord.recordId records
  pendingJobs := []
  activeJob := none
  armedAfterRecordId := none

/-- `this.records` -/
def records (r : ConversationRuntime) : List ChatLogRecord := r.log.records

def lastRecordId (r : ConversationRuntime) :
    Nat := (r.records.getLast?.map ChatLogRecord.recordId).getD 0

theorem lastRecordId_lt {r : ConversationRuntime} (hfresh : r.log.Fresh ChatLogRecord.recordId)
    (hpos : 0 < r.log.nextRecordId) : r.lastRecordId < r.log.nextRecordId := by
  unfold lastRecordId
  cases hlast : r.records.getLast? with
  | none => exact hpos
  | some record => exact hfresh record (List.mem_of_getLast? hlast)

def armAfterCurrentTail (r : ConversationRuntime) : ConversationRuntime :=
  { r with armedAfterRecordId := some r.lastRecordId }

/-- `appendRecord` of a record under the next id, up to the wait for the file. -/
def appendRecord (r : ConversationRuntime) (timestamp : String) (body : RecordBody) :
    ConversationRuntime :=
  { r with log := r.log.append ChatLogRecord.recordId ⟨r.log.nextRecordId, timestamp, body⟩ }

theorem appendRecord_records (r : ConversationRuntime) (timestamp : String) (body : RecordBody) :
    (r.appendRecord timestamp body).records = r.records ++ [⟨r.log.nextRecordId, timestamp, body⟩] := rfl

theorem appendRecord_next (r : ConversationRuntime) (timestamp : String) (body : RecordBody) :
    (r.appendRecord timestamp body).log.nextRecordId = r.log.nextRecordId + 1 := by
  show max r.log.nextRecordId (r.log.nextRecordId + 1) = r.log.nextRecordId + 1
  omega

def getLastQueuedTriggerRecordId (r : ConversationRuntime) : Nat :=
  lastTrigger RecordBody.queuedTrigger r.records

def getLastCompletedTriggerRecordId (r : ConversationRuntime) : Nat :=
  lastTrigger RecordBody.completedTrigger r.records

def shouldQueueTrigger (r : ConversationRuntime) (recordId : Nat) : Bool :=
  r.armedAfterRecordId.any fun armed => decide (max armed r.getLastQueuedTriggerRecordId < recordId)

def getLastCheckpoint (r : ConversationRuntime) : Checkpoint :=
  (r.records.reverse.findSome? fun record => record.body.checkpoint?).getD ⟨none, none⟩

/-- `noteCheckpoint`, up to the wait for the file. -/
def noteCheckpoint (r : ConversationRuntime) (timestamp : String) (checkpoint : Checkpoint) :
    ConversationRuntime :=
  if r.getLastCheckpoint = checkpoint then r
  else r.appendRecord timestamp (.checkpoint checkpoint.cursor checkpoint.messageId)

def getLatestTriggerRecord (r : ConversationRuntime) (job : PendingJob) : Option InboundMessage :=
  (r.records.find? fun record => record.recordId = job.triggerRecordId).bind
    fun record => record.body.message?

/-- The job a message triggers, if it does; its record is appended with it. -/
def queueTrigger (r : ConversationRuntime) (conversation : Conversation) (timestamp jobId : String)
    (recordId : Nat) (message : InboundMessage) : Option (PendingJob × ConversationRuntime) :=
  match conversation.shouldTriggerJob message with
  | none => none
  | some trigger =>
    if r.shouldQueueTrigger recordId then
      some (⟨jobId, trigger, recordId, r.log.nextRecordId, none⟩,
        r.appendRecord timestamp (.jobQueued jobId trigger recordId))
    else none

def pushJob (r : ConversationRuntime) (job : PendingJob) : ConversationRuntime :=
  { r with pendingJobs := r.pendingJobs ++ [job] }

/-- The records a prompt is made of. -/
def promptSlice (r : ConversationRuntime) (job : PendingJob) : List ChatLogRecord :=
  r.records.filter fun record => decide (r.getLastCompletedTriggerRecordId < record.recordId) &&
    decide (record.recordId ≤ job.triggerRecordId) && record.body.message?.isSome

def buildPrompt (r : ConversationRuntime) (job : PendingJob) : String :=
  match job.overridePrompt with
  | some prompt => prompt
  | none => jsTrim (join "\n" ((r.promptSlice job).flatMap formatTranscriptRecord))

def beginNextJob (r : ConversationRuntime) : Option (DispatchableJob × ConversationRuntime) :=
  match r.activeJob, r.pendingJobs with
  | none, job :: rest =>
    some (⟨job, r.buildPrompt job, (r.getLatestTriggerRecord job).map InboundMessage.messageId⟩,
      { r with pendingJobs := rest, activeJob := some job })
  | _, _ => none

def queueProactiveJob (r : ConversationRuntime) (jobId prompt : String) : ConversationRuntime :=
  match r.activeJob, r.pendingJobs with
  | none, [] =>
    { r with
      log := { r.log with nextRecordId := r.log.nextRecordId + 1 }
      pendingJobs := [⟨jobId, .nudge, r.lastRecordId, r.log.nextRecordId, some prompt⟩] }
  | _, _ => r

/-- The outbound record of a completed job. -/
def appendOutbound (r : ConversationRuntime) (timestamp messageId text : String)
    (attachmentPaths : List String) (job : PendingJob) : ConversationRuntime :=
  r.appendRecord timestamp (.outbound messageId (jsTrim text)
    ((r.getLatestTriggerRecord job).map InboundMessage.messageId) job.jobId
    (if attachmentPaths = [] then none else some attachmentPaths))

def appendCompleted (r : ConversationRuntime) (timestamp : String) (job : PendingJob)
    (outboundRecordId : Option Nat) : ConversationRuntime :=
  r.appendRecord timestamp (.jobCompleted job.jobId job.triggerRecordId outboundRecordId)

def appendFailed (r : ConversationRuntime) (timestamp : String) (job : PendingJob)
    (error : String) :
    ConversationRuntime :=
  r.appendRecord timestamp (.jobFailed job.jobId job.triggerRecordId error)

/-- `this.activeJob = undefined` -/
def clearActive (r : ConversationRuntime) : ConversationRuntime := { r with activeJob := none }

end ConversationRuntime

/-! ## Calls and their waits -/

/-- What goes on when the append a call waits for is done. -/
inductive Task where
  /-- The message is appended; the checkpoint comes next. -/
  | ingested (recordId : Nat) (message : InboundMessage) (checkpoint : Option Checkpoint)
  /-- The checkpoint is noted. -/
  | checkpointed (recordId : Nat) (message : InboundMessage)
  /-- The job's record is appended; the job is still to be put into the queue. -/
  | queued (job : PendingJob)
  /-- The answer is appended; the job is still to be completed. -/
  | answered (job : PendingJob) (outboundRecordId : Nat)
  /-- The job is completed or failed. -/
  | finished
  deriving DecidableEq, Repr

inductive ChatEvent where
  | arm
  /-- `ingestInbound`, its attachments stored. -/
  | ingest (timestamp nextMessageId : String) (input : InboundMessageInput)
    (attachments : List StoredAttachment) (checkpoint : Option Checkpoint)
  | checkpoint (timestamp : String) (checkpoint : Checkpoint)
  | error (timestamp message : String)
  | nudge (jobId prompt : String)
  | dispatch
  | complete (timestamp messageId text : String) (attachmentPaths : List String)
  | fail (timestamp error : String)
  /-- The append a call waits for is done. -/
  | resume (task : Task) (timestamp jobId : String)
  /-- It has failed, and with it the call. -/
  | reject (task : Task)

/-- A runtime, the calls that wait, the jobs that were handed out and those recorded as
completed. -/
structure ChatRun where
  runtime : ConversationRuntime
  tasks : List Task
  dispatched : List DispatchableJob
  completed : List PendingJob

namespace ChatRun

def start (records : List ChatLogRecord) : ChatRun where
  runtime := .connect records
  tasks := []
  dispatched := []
  completed := []

/-- The job of the message is recorded, if it triggers one, and the call goes on. -/
def decide (s : ChatRun) (conversation : Conversation) (timestamp jobId : String) (recordId : Nat)
    (message : InboundMessage) : ChatRun :=
  match s.runtime.queueTrigger conversation timestamp jobId recordId message with
  | some (job, runtime) => { s with runtime, tasks := .queued job :: s.tasks }
  | none => s

def finish (s : ChatRun) (timestamp : String) (job : PendingJob) (outboundRecordId : Option Nat) :
    ChatRun :=
  { s with
    runtime := s.runtime.appendCompleted timestamp job outboundRecordId
    tasks := .finished :: s.tasks
    completed := job :: s.completed }

def resume (s : ChatRun) (conversation : Conversation) (timestamp jobId : String) : Task → ChatRun
  | .ingested recordId message (some checkpoint) =>
    { s with
      runtime := s.runtime.noteCheckpoint timestamp checkpoint
      tasks := .checkpointed recordId message :: s.tasks }
  | .ingested recordId message none => s.decide conversation timestamp jobId recordId message
  | .checkpointed recordId message => s.decide conversation timestamp jobId recordId message
  | .queued job => { s with runtime := s.runtime.pushJob job }
  | .answered job outboundRecordId => s.finish timestamp job (some outboundRecordId)
  | .finished => { s with runtime := s.runtime.clearActive }

def step (s : ChatRun) (conversation : Conversation) : ChatEvent → ChatRun
  | .arm => { s with runtime := s.runtime.armAfterCurrentTail }
  | .ingest timestamp nextMessageId input attachments checkpoint =>
    let message := input.normalized conversation nextMessageId attachments
    { s with
      runtime := s.runtime.appendRecord timestamp (.inbound message)
      tasks := .ingested s.runtime.log.nextRecordId message checkpoint :: s.tasks }
  | .checkpoint timestamp checkpoint =>
    { s with runtime := s.runtime.noteCheckpoint timestamp checkpoint }
  | .error timestamp message => { s with runtime := s.runtime.appendRecord timestamp (.error message) }
  | .nudge jobId prompt => { s with runtime := s.runtime.queueProactiveJob jobId prompt }
  | .dispatch =>
    match s.runtime.beginNextJob with
    | some (job, runtime) => { s with runtime, dispatched := job :: s.dispatched }
    | none => s
  | .complete timestamp messageId text attachmentPaths =>
    match s.runtime.activeJob with
    | none => s
    | some job =>
      if jsTrim text ≠ "" ∨ attachmentPaths ≠ [] then
        { s with
          runtime := s.runtime.appendOutbound timestamp messageId text attachmentPaths job
          tasks := .answered job s.runtime.log.nextRecordId :: s.tasks }
      else s.finish timestamp job none
  | .fail timestamp error =>
    match s.runtime.activeJob with
    | none => s
    | some job =>
      { s with
        runtime := s.runtime.appendFailed timestamp job error
        tasks := .finished :: s.tasks }
  | .resume task timestamp jobId =>
    resume { s with tasks := s.tasks.erase task } conversation timestamp jobId task
  | .reject task => { s with tasks := s.tasks.erase task }

end ChatRun

/-- Only a call that waits goes on. -/
def ChatEvent.Enabled (s : ChatRun) : ChatEvent → Prop
  | .resume task _ _ => task ∈ s.tasks
  | .reject task => task ∈ s.tasks
  | _ => True

/-- One step of a runtime, of any call. -/
def ChatNext (conversation : Conversation) (s : ChatRun) (e : ChatEvent) (t : ChatRun) : Prop :=
  e.Enabled s ∧ t = s.step conversation e

end PieLab.Gateway

import Mathlib.Data.List.DropRight
import PieLab.Gateway.ChatRuntime

/-
  What the agent has been asked

  The boundary of a conversation is the largest trigger id of a completed job, and
  the next prompt begins behind it. A message record that the boundary passes must
  have been in the prompt of a completed job. A proactive job breaks this: its
  prompt is its own, but it completes with the last record as its trigger.

  What is proved:
    1. `infix_buildPrompt` — a prompt contains the text of each message of its slice.
    2. `ChatNext.asked` — what a step keeps (`Asked`), whatever calls are waiting.
    3. `messages_asked` — where proactive jobs are queued only when no message is
       left behind the boundary, and jobs in the order of their triggers, a passed
       message was in a completed prompt and no prompt is empty.
    4. `nudge_passes_message` — a proactive job passes a message nobody read.
-/

namespace PieLab.Gateway

open Lib

/-! ## Texts in prompts -/

theorem jsTrim_jsTrim (text : String) : jsTrim (jsTrim text) = jsTrim text := by
  have hchars : ∀ l : List Char, ((l.dropWhile isJsSpace).rdropWhile isJsSpace).dropWhile isJsSpace =
      (l.dropWhile isJsSpace).rdropWhile isJsSpace := by
    intro l
    rw [List.dropWhile_eq_self_iff]
    intro hpos
    have hpre := List.rdropWhile_prefix isJsSpace (l := l.dropWhile isJsSpace)
    have hlt : 0 < (l.dropWhile isJsSpace).length := Nat.lt_of_lt_of_le hpos hpre.length_le
    rw [hpre.getElem hpos]
    exact List.dropWhile_get_zero_not isJsSpace l hlt
  unfold jsTrim
  rw [String.toList_ofList]
  show String.ofList ((((text.toList.dropWhile isJsSpace).rdropWhile isJsSpace).dropWhile
    isJsSpace).rdropWhile isJsSpace) = _
  rw [hchars, List.rdropWhile_idempotent]
  rfl

theorem infix_intercalate {sep line : List Char} {lines : List (List Char)} (h : line ∈ lines) :
    line <:+: sep.intercalate lines := by
  induction lines with
  | nil => exact absurd h List.not_mem_nil
  | cons first lines ih =>
    cases lines with
    | nil =>
      have hsingle : sep.intercalate [first] = first := List.intercalate_singleton
      obtain rfl := List.mem_singleton.1 h
      exact hsingle.symm ▸ List.infix_refl line
    | cons second lines =>
      rw [List.intercalate_cons_cons]
      obtain rfl | h := List.mem_cons.1 h
      · exact (List.prefix_append _ _).isInfix.trans (List.prefix_append _ _).isInfix
      · exact (ih h).trans (List.suffix_append _ _).isInfix

theorem infix_join {sep line : String} {lines : List String} (h : line ∈ lines) :
    line.toList <:+: (join sep lines).toList := by
  unfold join
  rw [String.toList_intercalate]
  exact infix_intercalate (List.mem_map_of_mem h)

theorem dropWhile_append_of_head {p : Char → Bool} {front back : List Char}
    (h : back.dropWhile p = back) : (front ++ back).dropWhile p = front.dropWhile p ++ back := by
  rw [List.dropWhile_append, h]
  split
  next hempty =>
    rw [List.isEmpty_iff] at hempty
    rw [hempty, List.nil_append]
  next => rfl

theorem dropWhile_append_of_self {p : Char → Bool} {front back : List Char} (hne : front ≠ [])
    (h : front.dropWhile p = front) : (front ++ back).dropWhile p = front ++ back := by
  cases front with
  | nil => exact absurd rfl hne
  | cons c front =>
    have hc : p c = false := by
      cases hp : p c with
      | false => rfl
      | true =>
        rw [List.dropWhile_cons_of_pos hp] at h
        have hle := (show front.dropWhile p <:+ front from List.dropWhile_suffix p).length_le
        have hlen := congrArg List.length h
        rw [List.length_cons] at hlen
        omega
    rw [List.cons_append, List.dropWhile_cons_of_neg (by simp [hc])]

theorem dropWhile_of_trimmed {text : String} (h : jsTrim text = text) :
    text.toList.dropWhile isJsSpace = text.toList ∧
      text.toList.reverse.dropWhile isJsSpace = text.toList.reverse := by
  have hlist := congrArg String.toList h
  unfold jsTrim at hlist
  rw [String.toList_ofList] at hlist
  have hfront := List.dropWhile_suffix isJsSpace (l := text.toList)
  have hback := List.dropWhile_suffix isJsSpace (l := (text.toList.dropWhile isJsSpace).reverse)
  have hlen := congrArg List.length hlist
  have hle := hback.length_le
  rw [List.length_reverse] at hlen hle
  have hfirst : text.toList.dropWhile isJsSpace = text.toList := by
    apply hfront.eq_of_length
    have := hfront.length_le
    omega
  refine ⟨hfirst, ?_⟩
  rw [hfirst] at hlist
  rw [← List.reverse_inj, List.reverse_reverse]
  exact hlist

theorem infix_jsTrim {text line : String} (htrim : jsTrim text = text)
    (h : text.toList <:+: line.toList) : text.toList <:+: (jsTrim line).toList := by
  obtain ⟨hfirst, hlast⟩ := dropWhile_of_trimmed htrim
  by_cases hne : text.toList = []
  · rw [hne]
    exact List.nil_infix
  · obtain ⟨front, back, hline⟩ := h
    have hopen : (text.toList ++ back).dropWhile isJsSpace = text.toList ++ back :=
      dropWhile_append_of_self hne hfirst
    have hclose : (text.toList.reverse ++ (front.dropWhile isJsSpace).reverse).dropWhile isJsSpace =
        text.toList.reverse ++ (front.dropWhile isJsSpace).reverse :=
      dropWhile_append_of_self (by simpa using hne) hlast
    unfold jsTrim
    rw [String.toList_ofList, ← hline, List.append_assoc, dropWhile_append_of_head hopen,
      List.reverse_append, List.reverse_append, List.append_assoc, dropWhile_append_of_head hclose,
      List.reverse_append, List.reverse_append, List.reverse_reverse, List.reverse_reverse]
    exact ⟨front.dropWhile isJsSpace, (back.reverse.dropWhile isJsSpace).reverse, rfl⟩

theorem exists_transcript_line {record : ChatLogRecord} {message : InboundMessage}
    (h : record.body = .inbound message) :
    ∃ line ∈ formatTranscriptRecord record, message.text.toList <:+: line.toList ∧
      ∃ rest, line.toList = '-' :: rest := by
  unfold formatTranscriptRecord
  rw [h]
  refine ⟨_, List.mem_cons_self, ?_, ?_⟩
  · unfold transcriptText
    split
    next hempty =>
      rw [hempty]
      exact List.nil_infix
    next =>
      rw [String.toList_append]
      exact (List.suffix_append _ _).isInfix
  · simp only [String.toList_append, List.append_assoc]
    exact ⟨_, rfl⟩

section Prompt
variable {r : ConversationRuntime} {job : PendingJob} {record : ChatLogRecord} {message : InboundMessage}

theorem mem_promptSlice (hrecord : record ∈ r.records) (hmessage : record.body = .inbound message)
    (hafter : r.getLastCompletedTriggerRecordId < record.recordId)
    (hupto : record.recordId ≤ job.triggerRecordId) : record ∈ r.promptSlice job := by
  unfold ConversationRuntime.promptSlice
  rw [List.mem_filter]
  refine ⟨hrecord, ?_⟩
  simp [hafter, hupto, hmessage, RecordBody.message?]

/-- A prompt that is made of the log contains the text of each message of its slice. -/
theorem infix_buildPrompt (hjob : job.overridePrompt = none) (hslice : record ∈ r.promptSlice job)
    (hmessage : record.body = .inbound message) (htrim : jsTrim message.text = message.text) :
    message.text.toList <:+: (r.buildPrompt job).toList := by
  obtain ⟨line, hline, htext, -⟩ := exists_transcript_line hmessage
  unfold ConversationRuntime.buildPrompt
  rw [hjob]
  apply infix_jsTrim htrim
  apply htext.trans
  exact infix_join (List.mem_flatMap.2 ⟨record, hslice, hline⟩)

theorem buildPrompt_ne_empty (hjob : job.overridePrompt = none)
    (hslice : record ∈ r.promptSlice job)
    (hmessage : record.body = .inbound message) : r.buildPrompt job ≠ "" := by
  obtain ⟨line, hline, -, rest, hhead⟩ := exists_transcript_line hmessage
  have hinfix : ['-'] <:+: (join "\n" ((r.promptSlice job).flatMap formatTranscriptRecord)).toList := by
    apply List.IsInfix.trans _ (infix_join (List.mem_flatMap.2 ⟨record, hslice, hline⟩))
    rw [hhead]
    exact ⟨[], rest, rfl⟩
  have hdash : ("-" : String).toList <:+: (r.buildPrompt job).toList := by
    unfold ConversationRuntime.buildPrompt
    rw [hjob]
    exact infix_jsTrim (by decide) hinfix
  intro hempty
  rw [hempty] at hdash
  exact absurd hdash (by decide)

end Prompt

/-! ## Records and boundaries -/

variable {timestamp jobId : String} {id : Nat}

namespace ConversationRuntime

/-- The message is in the log under the id. -/
def Recorded (r : ConversationRuntime) (id : Nat) (message : InboundMessage) : Prop :=
  ∃ record ∈ r.records, record.recordId = id ∧ record.body = .inbound message

/-- The last completed trigger id. -/
abbrev boundary (r : ConversationRuntime) : Nat := r.getLastCompletedTriggerRecordId

theorem recorded_appendRecord {r : ConversationRuntime} {body : RecordBody}
    {message : InboundMessage} : (r.appendRecord timestamp body).Recorded id message ↔
      r.Recorded id message ∨ id = r.log.nextRecordId ∧ body = .inbound message := by
  unfold Recorded
  rw [appendRecord_records]
  simp only [List.mem_append, List.mem_singleton, or_and_right, exists_or, exists_eq_left]
  constructor
  · rintro (h | ⟨rfl, h⟩)
    · exact .inl h
    · exact .inr ⟨rfl, h⟩
  · rintro (h | ⟨rfl, h⟩)
    · exact .inl h
    · exact .inr ⟨rfl, h⟩

theorem lastTrigger_append (trigger : RecordBody → Option Nat) (records : List ChatLogRecord)
    (record : ChatLogRecord) : lastTrigger trigger (records ++ [record]) =
      (trigger record.body).elim (lastTrigger trigger records) (max (lastTrigger trigger records)) := by
  unfold lastTrigger
  rw [List.foldl_append]
  rfl

theorem boundary_appendRecord (r : ConversationRuntime) (timestamp : String) (body : RecordBody) :
    (r.appendRecord timestamp body).boundary = body.completedTrigger.elim r.boundary (max r.boundary) :=
  lastTrigger_append _ _ _

end ConversationRuntime

/-! ## What holds in every run -/

namespace ChatRun

/-- The message was in the prompt of a job that is recorded as completed. -/
def Read (s : ChatRun) (message : InboundMessage) : Prop :=
  ∃ job ∈ s.dispatched, job.job ∈ s.completed ∧ message.text.toList <:+: job.prompt.toList

/-- What a job that is handed out takes the boundary past is in its prompt. -/
def Covers (s : ChatRun) (job : DispatchableJob) : Prop :=
  ∀ id message, s.runtime.Recorded id message → id ≤ job.job.triggerRecordId →
    id ≤ s.runtime.boundary ∨ message.text.toList <:+: job.prompt.toList

/-- A job a message has triggered. -/
structure Triggered (start : Nat) (s : ChatRun) (job : PendingJob) : Prop where
  override : job.overridePrompt = none
  trigger : ∃ message, s.runtime.Recorded job.triggerRecordId message
  later : start < job.triggerRecordId

/-- A proactive job that passes no message. -/
structure Proactive (s : ChatRun) (job : PendingJob) : Prop where
  override : ∃ prompt, job.overridePrompt = some prompt ∧ prompt ≠ ""
  passes : ∀ id message, s.runtime.Recorded id message → id ≤ job.triggerRecordId →
    id ≤ s.runtime.boundary

def HandedOut (s : ChatRun) (job : PendingJob) : Prop := ∃ d ∈ s.dispatched, d.job = job

/-- What a call that waits has to go on with. -/
def Holds (start : Nat) (s : ChatRun) : Task → Prop
  | .ingested recordId message _ => s.runtime.Recorded recordId message ∧ start < recordId
  | .checkpointed recordId message => s.runtime.Recorded recordId message ∧ start < recordId
  | .queued job => s.Triggered start job
  | .answered job _ => s.HandedOut job
  | .finished => True

/-- What the runtime keeps; `start` is the boundary it was connected with. -/
structure Asked (start : Nat) (s : ChatRun) : Prop where
  trimmed : ∀ id message, s.runtime.Recorded id message → jsTrim message.text = message.text
  fresh : s.runtime.log.Fresh ChatLogRecord.recordId
  started : start < s.runtime.log.nextRecordId
  tasks : ∀ task ∈ s.tasks, s.Holds start task
  active : ∀ job, s.runtime.activeJob = some job → s.HandedOut job
  pending : ∀ job ∈ s.runtime.pendingJobs, job.triggerRecordId < s.runtime.log.nextRecordId ∧
    (s.Triggered start job ∨ s.Proactive job)
  handedOut : ∀ d ∈ s.dispatched, d.job.triggerRecordId < s.runtime.log.nextRecordId ∧
    s.Covers d ∧ d.prompt ≠ ""
  boundary : s.runtime.boundary ≤ start ∨ ∃ d ∈ s.dispatched, s.runtime.boundary ≤ d.job.triggerRecordId
  inOrder : s.runtime.pendingJobs.Pairwise fun job later =>
    later.overridePrompt = none → job.triggerRecordId < later.triggerRecordId
  ahead : ∀ job ∈ s.runtime.pendingJobs, job.overridePrompt = none →
    ∀ d ∈ s.dispatched, d.job.triggerRecordId < job.triggerRecordId
  passed : ∀ id message, s.runtime.Recorded id message → start < id → id ≤ s.runtime.boundary →
    s.Read message

variable {message : InboundMessage} {job : PendingJob}

theorem Asked.lt_next {start : Nat} {s : ChatRun} (h : s.Asked start)
    (hrecorded : s.runtime.Recorded id message) : id < s.runtime.log.nextRecordId := by
  obtain ⟨record, hrecord, rfl, -⟩ := hrecorded
  exact h.fresh record hrecord

theorem Asked.boundary_lt {start : Nat} {s : ChatRun} (h : s.Asked start) :
    s.runtime.boundary < s.runtime.log.nextRecordId := by
  obtain hstart | ⟨d, hd, hle⟩ := h.boundary
  · have := h.started
    omega
  · have := (h.handedOut d hd).1
    omega

/-! ## What a step leaves -/

/-- Records are added under new ids, and nothing is taken back. -/
structure Grows (s t : ChatRun) : Prop where
  kept : ∀ id message, s.runtime.Recorded id message → t.runtime.Recorded id message
  added : ∀ id message, t.runtime.Recorded id message → s.runtime.Recorded id message ∨
    s.runtime.log.nextRecordId ≤ id ∧ jsTrim message.text = message.text
  next : s.runtime.log.nextRecordId ≤ t.runtime.log.nextRecordId
  boundary : s.runtime.boundary ≤ t.runtime.boundary
  dispatched : ∀ d ∈ s.dispatched, d ∈ t.dispatched
  completed : ∀ job ∈ s.completed, job ∈ t.completed

theorem Grows.ofLog {s t : ChatRun} (hrecords : t.runtime.records = s.runtime.records)
    (hnext : s.runtime.log.nextRecordId ≤ t.runtime.log.nextRecordId)
    (hdispatched : ∀ d ∈ s.dispatched, d ∈ t.dispatched) (hcompleted : t.completed = s.completed) :
    Grows s t where
  kept id message h := by
    unfold ConversationRuntime.Recorded at h ⊢
    rw [hrecords]
    exact h
  added id message h := by
    unfold ConversationRuntime.Recorded at h ⊢
    rw [hrecords] at h
    exact .inl h
  next := hnext
  boundary := by
    unfold ConversationRuntime.boundary ConversationRuntime.getLastCompletedTriggerRecordId
    rw [hrecords]
  dispatched := hdispatched
  completed := by
    rw [hcompleted]
    exact fun _ h => h

theorem Grows.ofAppend {s t : ChatRun} {body : RecordBody}
    (hruntime : t.runtime.log = (s.runtime.appendRecord timestamp body).log)
    (hbody : ∀ message, body = .inbound message → jsTrim message.text = message.text)
    (hdispatched : t.dispatched = s.dispatched)
    (hcompleted : ∀ job ∈ s.completed, job ∈ t.completed) : Grows s t := by
  have hrecorded : ∀ id message, t.runtime.Recorded id message ↔
      (s.runtime.appendRecord timestamp body).Recorded id message := by
    intro id message
    unfold ConversationRuntime.Recorded ConversationRuntime.records
    rw [hruntime]
  have hboundary : t.runtime.boundary = (s.runtime.appendRecord timestamp body).boundary := by
    unfold ConversationRuntime.boundary ConversationRuntime.getLastCompletedTriggerRecordId
      ConversationRuntime.records
    rw [hruntime]
  constructor
  · intro id message h
    rw [hrecorded, ConversationRuntime.recorded_appendRecord]
    exact .inl h
  · intro id message h
    rw [hrecorded, ConversationRuntime.recorded_appendRecord] at h
    obtain hold | ⟨rfl, hnew⟩ := h
    · exact .inl hold
    · exact .inr ⟨le_refl _, hbody message hnew⟩
  · rw [hruntime, ConversationRuntime.appendRecord_next]
    omega
  · rw [hboundary, ConversationRuntime.boundary_appendRecord]
    cases body.completedTrigger with
    | none => exact le_refl _
    | some trigger => exact le_max_left _ _
  · rw [hdispatched]
    exact fun _ h => h
  · exact hcompleted

namespace Grows
variable {start : Nat} {s t : ChatRun} (hg : Grows s t)
include hg

theorem triggered (h : s.Triggered start job) : t.Triggered start job where
  override := h.override
  trigger := by
    obtain ⟨message, hmessage⟩ := h.trigger
    exact ⟨message, hg.kept _ _ hmessage⟩
  later := h.later

theorem handed (h : s.HandedOut job) : t.HandedOut job := by
  obtain ⟨d, hd, rfl⟩ := h
  exact ⟨d, hg.dispatched d hd, rfl⟩

theorem proactive (hlt : job.triggerRecordId < s.runtime.log.nextRecordId) (h : s.Proactive job) :
    t.Proactive job where
  override := h.override
  passes := by
    intro id message hrecorded hle
    obtain hold | ⟨hnew, -⟩ := hg.added id message hrecorded
    · exact (h.passes id message hold hle).trans hg.boundary
    · omega

theorem covers {d : DispatchableJob} (hlt : d.job.triggerRecordId < s.runtime.log.nextRecordId)
    (h : s.Covers d) : t.Covers d := by
  intro id message hrecorded hle
  obtain hold | ⟨hnew, -⟩ := hg.added id message hrecorded
  · obtain hpassed | htext := h id message hold hle
    · exact .inl (hpassed.trans hg.boundary)
    · exact .inr htext
  · omega

theorem read {message : InboundMessage} (h : s.Read message) : t.Read message := by
  obtain ⟨d, hd, hcompleted, htext⟩ := h
  exact ⟨d, hg.dispatched d hd, hg.completed _ hcompleted, htext⟩

theorem holds {task : Task} (h : s.Holds start task) : t.Holds start task := by
  cases task with
  | ingested recordId message checkpoint => exact ⟨hg.kept _ _ h.1, h.2⟩
  | checkpointed recordId message => exact ⟨hg.kept _ _ h.1, h.2⟩
  | queued job => exact hg.triggered h
  | answered job outboundRecordId => exact hg.handed h
  | finished => exact h

theorem trimmed (h : s.Asked start) : ∀ id message, t.runtime.Recorded id message →
    jsTrim message.text = message.text := by
  intro id message hrecorded
  obtain hold | ⟨-, hnew⟩ := hg.added id message hrecorded
  · exact h.trimmed id message hold
  · exact hnew

theorem pendingJob (h : s.Asked start) (hjob : job ∈ s.runtime.pendingJobs) :
    job.triggerRecordId < t.runtime.log.nextRecordId ∧ (t.Triggered start job ∨ t.Proactive job) := by
  obtain ⟨hlt, hkind⟩ := h.pending job hjob
  refine ⟨hlt.trans_le hg.next, ?_⟩
  obtain htriggered | hproactive := hkind
  · exact .inl (hg.triggered htriggered)
  · exact .inr (hg.proactive hlt hproactive)

theorem handedOutJob (h : s.Asked start) {d : DispatchableJob} (hd : d ∈ s.dispatched) :
    d.job.triggerRecordId < t.runtime.log.nextRecordId ∧ t.Covers d ∧ d.prompt ≠ "" := by
  obtain ⟨hlt, hcovers, hprompt⟩ := h.handedOut d hd
  exact ⟨hlt.trans_le hg.next, hg.covers hlt hcovers, hprompt⟩

/-- A message the boundary had passed stays read, and there is no new one below it. -/
theorem passed (h : s.Asked start) (hrecorded : t.runtime.Recorded id message) (hstart : start < id)
    (hle : id ≤ s.runtime.boundary) : t.Read message := by
  obtain hold | ⟨hnew, -⟩ := hg.added id message hrecorded
  · exact hg.read (h.passed id message hold hstart hle)
  · have := h.boundary_lt
    omega

end Grows

theorem Asked.frame {start : Nat} {s t : ChatRun} (h : s.Asked start) (hg : Grows s t)
    (hfresh : t.runtime.log.Fresh ChatLogRecord.recordId)
    (htasks : ∀ task ∈ t.tasks, task ∈ s.tasks ∨ t.Holds start task)
    (hactive : ∀ job, t.runtime.activeJob = some job → s.runtime.activeJob = some job)
    (hpending : t.runtime.pendingJobs = s.runtime.pendingJobs) (hdispatched : t.dispatched = s.dispatched)
    (hboundary : t.runtime.boundary = s.runtime.boundary) : t.Asked start where
  trimmed := hg.trimmed h
  fresh := hfresh
  started := h.started.trans_le hg.next
  tasks task htask := by
    obtain hold | hnew := htasks task htask
    · exact hg.holds (h.tasks task hold)
    · exact hnew
  active job hjob := hg.handed (h.active job (hactive job hjob))
  pending job hjob := hg.pendingJob h (hpending ▸ hjob)
  handedOut d hd := hg.handedOutJob h (hdispatched ▸ hd)
  boundary := by
    rw [hboundary, hdispatched]
    exact h.boundary
  inOrder := by
    rw [hpending]
    exact h.inOrder
  ahead := by
    rw [hpending, hdispatched]
    exact h.ahead
  passed id message hrecorded hstart hle := hg.passed h hrecorded hstart (hboundary ▸ hle)

/-! ## The steps -/

section Steps
variable {start : Nat} {s : ChatRun}

theorem Asked.append (h : s.Asked start) {timestamp : String} {body : RecordBody}
    (hbody : ∀ message, body = .inbound message → jsTrim message.text = message.text)
    (hcompletes : body.completedTrigger = none) {tasks : List Task}
    (htasks : ∀ task ∈ tasks, task ∈ s.tasks ∨
      Holds start { s with runtime := s.runtime.appendRecord timestamp body, tasks } task) :
    Asked start { s with runtime := s.runtime.appendRecord timestamp body, tasks } := by
  have hg : Grows s { s with runtime := s.runtime.appendRecord timestamp body, tasks } :=
    Grows.ofAppend rfl hbody rfl fun _ hjob => hjob
  apply h.frame hg
  · exact RecordLog.Fresh.append h.fresh _
  · exact htasks
  · exact fun _ hjob => hjob
  · rfl
  · rfl
  · show ConversationRuntime.boundary (s.runtime.appendRecord timestamp body) = s.runtime.boundary
    rw [ConversationRuntime.boundary_appendRecord, hcompletes]
    rfl

theorem Asked.tasksSubset (h : s.Asked start) {tasks : List Task}
    (htasks : ∀ task ∈ tasks, task ∈ s.tasks) :
    Asked start { s with tasks } :=
  h.frame (Grows.ofLog rfl (le_refl _) (fun _ hd => hd) rfl) h.fresh
    (fun task htask => .inl (htasks task htask)) (fun _ hjob => hjob) rfl rfl rfl

theorem Asked.finish (h : s.Asked start) {job : PendingJob} (hjob : s.HandedOut job)
    (timestamp : String) (outboundRecordId : Option Nat) :
    Asked start (s.finish timestamp job outboundRecordId) := by
  have hboundary : (s.finish timestamp job outboundRecordId).runtime.boundary =
      max s.runtime.boundary job.triggerRecordId := ConversationRuntime.boundary_appendRecord _ _ _
  have hg : Grows s (s.finish timestamp job outboundRecordId) :=
    Grows.ofAppend rfl (fun _ => nofun) rfl fun _ hmem => List.mem_cons_of_mem _ hmem
  obtain ⟨d, hd, hdjob⟩ := hjob
  constructor
  · exact hg.trimmed h
  · exact RecordLog.Fresh.append h.fresh _
  · exact h.started.trans_le hg.next
  · intro task htask
    obtain rfl | htask := List.mem_cons.1 htask
    · trivial
    · exact hg.holds (h.tasks task htask)
  · exact fun other hother => hg.handed (h.active other hother)
  · exact fun other hother => hg.pendingJob h hother
  · exact fun other hother => hg.handedOutJob h hother
  · rw [hboundary]
    obtain hstart | ⟨d', hd', hle⟩ := h.boundary
    · by_cases hjob : job.triggerRecordId ≤ start
      · exact .inl (max_le hstart hjob)
      · refine .inr ⟨d, hd, ?_⟩
        rw [hdjob]
        omega
    · by_cases hjob : job.triggerRecordId ≤ d'.job.triggerRecordId
      · exact .inr ⟨d', hd', max_le hle hjob⟩
      · refine .inr ⟨d, hd, ?_⟩
        rw [hdjob]
        omega
  · exact h.inOrder
  · exact h.ahead
  · intro id message hrecorded hstart hle
    by_cases hold : id ≤ s.runtime.boundary
    · exact hg.passed h hrecorded hstart hold
    · rw [hboundary] at hle
      -- the boundary passes the message now: the job's prompt has its text
      obtain hbefore | ⟨hnew, -⟩ := hg.added id message hrecorded
      · obtain hpassed | htext := (h.handedOut d hd).2.1 id message hbefore (by rw [hdjob]; omega)
        · exact absurd hpassed hold
        · exact ⟨d, hd, by rw [hdjob]; exact List.mem_cons_self, htext⟩
      · have hlt := (h.handedOut d hd).1
        rw [hdjob] at hlt
        omega

theorem Asked.pushJob (h : s.Asked start) (hjob : s.Triggered start job)
    (hpending : ∀ other ∈ s.runtime.pendingJobs, other.triggerRecordId < job.triggerRecordId)
    (hdispatched : ∀ d ∈ s.dispatched, d.job.triggerRecordId < job.triggerRecordId) :
    Asked start { s with runtime := s.runtime.pushJob job } := by
  have hg : Grows s { s with runtime := s.runtime.pushJob job } :=
    Grows.ofLog rfl (le_refl _) (fun _ hd => hd) rfl
  constructor
  · exact h.trimmed
  · exact h.fresh
  · exact h.started
  · exact fun task htask => hg.holds (h.tasks task htask)
  · exact h.active
  · intro other hother
    obtain hold | hnew := List.mem_append.1 hother
    · exact hg.pendingJob h hold
    · rw [List.mem_singleton.1 hnew]
      obtain ⟨message, hmessage⟩ := hjob.trigger
      exact ⟨h.lt_next hmessage, .inl (hg.triggered hjob)⟩
  · exact h.handedOut
  · exact h.boundary
  · refine List.pairwise_append.2 ⟨h.inOrder, List.pairwise_singleton _ _, ?_⟩
    intro other hother last hlast hoverride
    rw [List.mem_singleton.1 hlast]
    exact hpending other hother
  · intro other hother hoverride d hd
    obtain hold | hnew := List.mem_append.1 hother
    · exact h.ahead other hold hoverride d hd
    · rw [List.mem_singleton.1 hnew]
      exact hdispatched d hd
  · exact h.passed

theorem Asked.dispatch (h : s.Asked start) {rest : List PendingJob}
    (hpending : s.runtime.pendingJobs = job :: rest) (triggerMessageId : Option String) :
    Asked start { s with
      runtime := { s.runtime with pendingJobs := rest, activeJob := some job }
      dispatched := ⟨job, s.runtime.buildPrompt job, triggerMessageId⟩ :: s.dispatched } := by
  have hjob : job ∈ s.runtime.pendingJobs := hpending ▸ List.mem_cons_self
  have hrest : ∀ other ∈ rest, other ∈ s.runtime.pendingJobs := by
    intro other hother
    rw [hpending]
    exact List.mem_cons_of_mem _ hother
  have horder := List.pairwise_cons.1 (hpending ▸ h.inOrder)
  obtain ⟨hlt, hkind⟩ := h.pending job hjob
  have hg : Grows s { s with
      runtime := { s.runtime with pendingJobs := rest, activeJob := some job }
      dispatched := ⟨job, s.runtime.buildPrompt job, triggerMessageId⟩ :: s.dispatched } :=
    Grows.ofLog rfl (le_refl _) (fun d hd => List.mem_cons_of_mem _ hd) rfl
  -- the prompt has what the boundary will pass, and something in it
  have hprompt : s.Covers ⟨job, s.runtime.buildPrompt job, triggerMessageId⟩ ∧
      s.runtime.buildPrompt job ≠ "" := by
    obtain htriggered | hproactive := hkind
    · have hahead : s.runtime.boundary < job.triggerRecordId := by
        obtain hstart | ⟨d, hd, hle⟩ := h.boundary
        · have := htriggered.later
          omega
        · have := h.ahead job hjob htriggered.override d hd
          omega
      constructor
      · intro id message hrecorded hle
        have htrim := h.trimmed id message hrecorded
        obtain ⟨record, hrecord, rfl, hmessage⟩ := hrecorded
        by_cases hpassed : record.recordId ≤ s.runtime.boundary
        · exact .inl hpassed
        · exact .inr (infix_buildPrompt htriggered.override
            (mem_promptSlice hrecord hmessage (Nat.not_le.1 hpassed) hle) hmessage htrim)
      · obtain ⟨message, record, hrecord, hid, hmessage⟩ := htriggered.trigger
        exact buildPrompt_ne_empty htriggered.override
          (mem_promptSlice hrecord hmessage (hid ▸ hahead) hid.le) hmessage
    · obtain ⟨prompt, hoverride, hne⟩ := hproactive.override
      constructor
      · intro id message hrecorded hle
        exact .inl (hproactive.passes id message hrecorded hle)
      · unfold ConversationRuntime.buildPrompt
        rw [hoverride]
        exact hne
  constructor
  · exact h.trimmed
  · exact h.fresh
  · exact h.started
  · exact fun task htask => hg.holds (h.tasks task htask)
  · intro other hother
    obtain rfl := Option.some.inj hother
    exact ⟨_, List.mem_cons_self, rfl⟩
  · exact fun other hother => hg.pendingJob h (hrest other hother)
  · intro d hd
    obtain rfl | hd := List.mem_cons.1 hd
    · exact ⟨hlt, hprompt⟩
    · exact hg.handedOutJob h hd
  · obtain hstart | ⟨d, hd, hle⟩ := h.boundary
    · exact .inl hstart
    · exact .inr ⟨d, List.mem_cons_of_mem _ hd, hle⟩
  · exact horder.2
  · intro other hother hoverride d hd
    obtain rfl | hd := List.mem_cons.1 hd
    · exact horder.1 other hother hoverride
    · exact h.ahead other (hrest other hother) hoverride d hd
  · exact fun id message hrecorded hstart hle => hg.passed h hrecorded hstart hle

theorem Asked.nudge (h : s.Asked start) {prompt : String} (hnone : s.runtime.activeJob = none)
    (hempty : s.runtime.pendingJobs = []) (hprompt : prompt ≠ "")
    (hpassed : ∀ id message, s.runtime.Recorded id message → id ≤ s.runtime.boundary) :
    Asked start { s with runtime := s.runtime.queueProactiveJob jobId prompt } := by
  have hqueued : s.runtime.queueProactiveJob jobId prompt =
      { s.runtime with
        log := { s.runtime.log with nextRecordId := s.runtime.log.nextRecordId + 1 }
        pendingJobs := [⟨jobId, .nudge, s.runtime.lastRecordId, s.runtime.log.nextRecordId, some prompt⟩] } := by
    simp only [ConversationRuntime.queueProactiveJob, hnone, hempty]
  have hpos : 0 < s.runtime.log.nextRecordId := Nat.zero_lt_of_lt h.started
  have hlast := ConversationRuntime.lastRecordId_lt h.fresh hpos
  rw [hqueued]
  have hg : Grows s { s with runtime :=
      { s.runtime with
        log := { s.runtime.log with nextRecordId := s.runtime.log.nextRecordId + 1 }
        pendingJobs := [⟨jobId, .nudge, s.runtime.lastRecordId, s.runtime.log.nextRecordId, some prompt⟩] } } :=
    Grows.ofLog rfl (Nat.le_succ _) (fun d hd => hd) rfl
  constructor
  · exact h.trimmed
  · intro record hrecord
    exact (h.fresh record hrecord).trans_le (Nat.le_succ _)
  · exact h.started.trans_le (Nat.le_succ _)
  · exact fun task htask => hg.holds (h.tasks task htask)
  · exact fun job hjob => hg.handed (h.active job hjob)
  · intro job hjob
    rw [List.mem_singleton.1 hjob]
    exact ⟨hlast.trans_le (Nat.le_succ _), .inr ⟨⟨prompt, rfl, hprompt⟩,
      fun id message hrecorded _ => hpassed id message hrecorded⟩⟩
  · exact fun d hd => hg.handedOutJob h hd
  · exact h.boundary
  · exact List.pairwise_singleton _ _
  · intro job hjob hoverride
    rw [List.mem_singleton.1 hjob] at hoverride
    cases hoverride
  · exact fun id message hrecorded hstart hle => hg.passed h hrecorded hstart hle

end Steps

/-- What the runtime relies on before a step: a proactive job says something and is queued where
no message is left behind the boundary, and a job is queued behind no later one. -/
def Careful (s : ChatRun) : ChatEvent → Prop
  | .nudge _ prompt => s.runtime.activeJob = none → s.runtime.pendingJobs = [] →
      prompt ≠ "" ∧ ∀ id message, s.runtime.Recorded id message → id ≤ s.runtime.boundary
  | .resume (.queued job) _ _ =>
      (∀ other ∈ s.runtime.pendingJobs, other.triggerRecordId < job.triggerRecordId) ∧
        ∀ d ∈ s.dispatched, d.job.triggerRecordId < job.triggerRecordId
  | _ => True

section Step
variable {start : Nat} {s : ChatRun} {conversation : Conversation}

theorem Asked.checkpoint (h : s.Asked start) (timestamp : String) (checkpoint : Checkpoint)
    {tasks : List Task}
    (htasks : ∀ task ∈ tasks, task ∈ s.tasks ∨
      Holds start { s with runtime := s.runtime.noteCheckpoint timestamp checkpoint, tasks } task) :
    Asked start { s with runtime := s.runtime.noteCheckpoint timestamp checkpoint, tasks } := by
  unfold ConversationRuntime.noteCheckpoint at htasks ⊢
  split at htasks
  next hsame =>
    rw [if_pos hsame]
    have hg : Grows s { s with tasks } := Grows.ofLog rfl (le_refl _) (fun _ hd => hd) rfl
    exact h.frame hg h.fresh htasks (fun _ hjob => hjob) rfl rfl rfl
  next hnew =>
    rw [if_neg hnew]
    apply h.append _ rfl htasks
    exact fun _ => nofun

theorem Asked.decide (h : s.Asked start) {recordId : Nat}
    (hrecorded : s.runtime.Recorded recordId message) (hstart : start < recordId) :
    Asked start (s.decide conversation timestamp jobId recordId message) := by
  unfold ChatRun.decide ConversationRuntime.queueTrigger
  cases conversation.shouldTriggerJob message with
  | none => exact h
  | some trigger =>
    simp only
    split
    next job runtime heq =>
      split at heq
      next =>
        obtain ⟨rfl, rfl⟩ := Prod.mk.inj (Option.some.inj heq)
        apply h.append _ rfl
        · intro task htask
          obtain rfl | htask := List.mem_cons.1 htask
          · right
            exact ⟨rfl, ⟨message, ConversationRuntime.recorded_appendRecord.2 (.inl hrecorded)⟩,
              hstart⟩
          · exact .inl htask
        · exact fun _ => nofun
      next => cases heq
    next => exact h

theorem Asked.resume (h : s.Asked start) {task : Task} (htask : s.Holds start task)
    (hcareful : s.Careful (.resume task timestamp jobId)) :
    Asked start (s.resume conversation timestamp jobId task) := by
  cases task with
  | ingested recordId message checkpoint =>
    cases checkpoint with
    | none => exact h.decide htask.1 htask.2
    | some checkpoint =>
      apply h.checkpoint
      intro task hmem
      obtain rfl | hmem := List.mem_cons.1 hmem
      · right
        refine ⟨?_, htask.2⟩
        show ConversationRuntime.Recorded (s.runtime.noteCheckpoint timestamp checkpoint) recordId message
        unfold ConversationRuntime.noteCheckpoint
        split
        · exact htask.1
        · exact ConversationRuntime.recorded_appendRecord.2 (.inl htask.1)
      · exact .inl hmem
  | checkpointed recordId message => exact h.decide htask.1 htask.2
  | queued job => exact h.pushJob htask hcareful.1 hcareful.2
  | answered job outboundRecordId => exact h.finish htask _ _
  | finished =>
    have hg : Grows s { s with runtime := s.runtime.clearActive } :=
      Grows.ofLog rfl (le_refl _) (fun _ hd => hd) rfl
    exact h.frame hg h.fresh (fun _ hmem => .inl hmem) (fun _ => nofun) rfl rfl rfl

theorem Asked.step (h : s.Asked start) {e : ChatEvent} (henabled : e.Enabled s)
    (hcareful : s.Careful e) : Asked start (s.step conversation e) := by
  cases e with
  | arm =>
    have hg : Grows s { s with runtime := s.runtime.armAfterCurrentTail } :=
      Grows.ofLog rfl (le_refl _) (fun _ hd => hd) rfl
    exact h.frame hg h.fresh (fun _ hmem => .inl hmem) (fun _ hjob => hjob) rfl rfl rfl
  | ingest timestamp nextMessageId input attachments checkpoint =>
    apply h.append _ rfl
    · intro task htask
      obtain rfl | htask := List.mem_cons.1 htask
      · exact .inr ⟨ConversationRuntime.recorded_appendRecord.2 (.inr ⟨rfl, rfl⟩), h.started⟩
      · exact .inl htask
    · intro message hmessage
      obtain rfl := RecordBody.inbound.inj hmessage
      exact jsTrim_jsTrim input.text
  | checkpoint timestamp checkpoint => exact h.checkpoint _ _ fun _ hmem => .inl hmem
  | error timestamp message =>
    apply h.append _ rfl
    · exact fun _ hmem => .inl hmem
    · exact fun _ => nofun
  | nudge jobId prompt =>
    by_cases hidle : s.runtime.activeJob = none ∧ s.runtime.pendingJobs = []
    · obtain ⟨hprompt, hpassed⟩ := hcareful hidle.1 hidle.2
      exact h.nudge hidle.1 hidle.2 hprompt hpassed
    · have hsame : s.runtime.queueProactiveJob jobId prompt = s.runtime := by
        unfold ConversationRuntime.queueProactiveJob
        split
        next hnone hempty => exact absurd ⟨hnone, hempty⟩ hidle
        next => rfl
      show Asked start { s with runtime := s.runtime.queueProactiveJob jobId prompt }
      rw [hsame]
      exact h
  | dispatch =>
    unfold ChatRun.step ConversationRuntime.beginNextJob
    cases hactive : s.runtime.activeJob with
    | some job => exact h
    | none =>
      cases hpending : s.runtime.pendingJobs with
      | nil => exact h
      | cons job rest => exact h.dispatch hpending _
  | complete timestamp messageId text attachmentPaths =>
    unfold ChatRun.step
    cases hactive : s.runtime.activeJob with
    | none => exact h
    | some job =>
      have hjob := h.active job hactive
      simp only
      split
      · apply h.append _ rfl
        · intro task htask
          obtain rfl | htask := List.mem_cons.1 htask
          · exact .inr hjob
          · exact .inl htask
        · exact fun _ => nofun
      · exact h.finish hjob _ _
  | fail timestamp error =>
    unfold ChatRun.step
    cases hactive : s.runtime.activeJob with
    | none => exact h
    | some job =>
      apply h.append _ rfl
      · intro task htask
        obtain rfl | htask := List.mem_cons.1 htask
        · exact .inr trivial
        · exact .inl htask
      · exact fun _ => nofun
  | resume task timestamp jobId =>
    have herase : Asked start { s with tasks := s.tasks.erase task } :=
      h.tasksSubset fun _ hmem => List.mem_of_mem_erase hmem
    have hg : Grows s { s with tasks := s.tasks.erase task } :=
      Grows.ofLog rfl (le_refl _) (fun _ hd => hd) rfl
    exact herase.resume (hg.holds (h.tasks task henabled)) hcareful
  | reject task => exact h.tasksSubset fun _ hmem => List.mem_of_mem_erase hmem

end Step

end ChatRun

/-! ## Runs -/

/-- A log as the runtime writes it. -/
structure WrittenLog (records : List ChatLogRecord) : Prop where
  trimmed : ∀ record ∈ records, ∀ message, record.body = .inbound message →
    jsTrim message.text = message.text
  triggers : ∀ record ∈ records, ∀ trigger, record.body.completedTrigger = some trigger →
    trigger ≤ record.recordId

theorem lastTrigger_le {trigger : RecordBody → Option Nat} {records : List ChatLogRecord}
    {bound : Nat}
    (h : ∀ record ∈ records, ∀ id, trigger record.body = some id → id ≤ bound) :
    lastTrigger trigger records ≤ bound := by
  induction records using List.reverseRecOn with
  | nil => exact Nat.zero_le bound
  | append_singleton records record ih =>
    rw [ConversationRuntime.lastTrigger_append]
    have ih := ih fun other hother => h other (List.mem_append_left _ hother)
    cases hid : trigger record.body with
    | none => exact ih
    | some id => exact max_le ih (h record (List.mem_append_right _ List.mem_cons_self) id hid)

theorem WrittenLog.asked {records : List ChatLogRecord} (h : WrittenLog records) :
    (ChatRun.start records).Asked (ChatRun.start records).runtime.boundary := by
  have hfresh := @RecordLog.load_fresh _ ChatLogRecord.recordId records
  have hboundary : (ChatRun.start records).runtime.boundary <
      (ChatRun.start records).runtime.log.nextRecordId := by
    apply Nat.lt_succ_of_le
    apply lastTrigger_le
    intro record hrecord id hid
    exact (h.triggers record hrecord id hid).trans (Nat.le_of_lt_succ (hfresh record hrecord))
  constructor
  · rintro id message ⟨record, hrecord, -, hmessage⟩
    exact h.trimmed record hrecord message hmessage
  · exact hfresh
  · exact hboundary
  · exact nofun
  · exact nofun
  · exact nofun
  · exact nofun
  · exact .inl (le_refl _)
  · exact List.Pairwise.nil
  · exact nofun
  · intro id message _ hlt hle
    omega

/-- In a run of careful steps every message the boundary passes was in the prompt of a completed
job, and a job whose trigger has a text has a prompt. -/
theorem messages_asked (conversation : Conversation) {records : List ChatLogRecord}
    (hlog : WrittenLog records) {events : List ChatEvent} {s : ChatRun}
    (hrun : Run (fun s e t => ChatNext conversation s e t ∧ s.Careful e) (.start records) events s) :
    (∀ id message, s.runtime.Recorded id message →
      (ChatRun.start records).runtime.boundary < id → id ≤ s.runtime.boundary → s.Read message) ∧
    ∀ d ∈ s.dispatched, ∀ message, s.runtime.getLatestTriggerRecord d.job = some message →
      message.text ≠ "" → d.prompt ≠ "" := by
  have hasked : s.Asked (ChatRun.start records).runtime.boundary := by
    apply hrun.invariant hlog.asked
    rintro s e t ⟨⟨henabled, rfl⟩, hcareful⟩ h
    exact h.step henabled hcareful
  exact ⟨hasked.passed, fun d hd _ _ _ => (hasked.handedOut d hd).2.2⟩

section Examples

def openAccess : AccessPolicy where
  trigger := none
  ignoreBots := none
  allowedUserIds := none
  allowedRoleIds := none

def directChat : Conversation where
  dm := some true
  access := openAccess
  mentionsBot _ := false

/-- A chat whose messages trigger the agent only where they mention it. -/
def groupChat : Conversation := { directChat with dm := none }

def said (text : String) : InboundMessageInput where
  messageId := none
  userId := "u"
  userName := none
  roleIds := none
  text
  mentionedBot := none
  isBot := none

def saidHello : InboundMessage := (said "hello").normalized directChat "m" []

def saidAgain : InboundMessage := (said "again").normalized directChat "n" []

def helloJob : PendingJob := ⟨"j", .dm, 1, 2, none⟩

def nextJob : PendingJob := ⟨"k", .dm, 5, 6, none⟩

theorem emptyLog_written : WrittenLog [] := ⟨nofun, nofun⟩

def runOf (conversation : Conversation) (s : ChatRun) (events : List ChatEvent) : ChatRun :=
  events.foldl (fun s e => s.step conversation e) s

/-- Each event has the property where it stands. -/
def EventsMeet (conversation : Conversation) (p : ChatRun → ChatEvent → Prop) :
    ChatRun → List ChatEvent → Prop
  | _, [] => True
  | s, e :: events => p s e ∧ EventsMeet conversation p (s.step conversation e) events

theorem EventsMeet.run {conversation : Conversation} {p : ChatRun → ChatEvent → Prop} {s : ChatRun}
    {events : List ChatEvent} (h : EventsMeet conversation p s events) :
    Run (fun s e t => p s e ∧ t = s.step conversation e) s events (runOf conversation s events) := by
  induction events generalizing s with
  | nil => exact .nil s
  | cons e events ih => exact .cons ⟨h.1, rfl⟩ (ih h.2)

instance (s : ChatRun) (e : ChatEvent) : Decidable (e.Enabled s) :=
  match e with
  | .resume task _ _ => inferInstanceAs (Decidable (task ∈ s.tasks))
  | .reject task => inferInstanceAs (Decidable (task ∈ s.tasks))
  | .arm | .ingest .. | .checkpoint .. | .error .. | .nudge .. | .dispatch | .complete .. | .fail .. =>
    .isTrue trivial

/-- Two messages are answered, one after the other. -/
def answeredEvents : List ChatEvent :=
  [.arm, .ingest "t" "m" (said "hello") [] none, .resume (.ingested 1 saidHello none) "t" "j",
    .resume (.queued helloJob) "t" "j", .dispatch, .complete "t" "m2" "hi" [],
    .resume (.answered helloJob 3) "t" "j", .resume .finished "t" "j",
    .ingest "t" "n" (said "again") [] none, .resume (.ingested 5 saidAgain none) "t" "k",
    .resume (.queued nextJob) "t" "k", .dispatch, .complete "t" "n2" "ho" [],
    .resume (.answered nextJob 7) "t" "k"]

def answered : ChatRun := runOf directChat (.start []) answeredEvents

theorem answeredEvents_careful :
    EventsMeet directChat (fun s e => e.Enabled s ∧ s.Careful e) (.start []) answeredEvents := by
  refine ⟨⟨trivial, trivial⟩, ⟨trivial, trivial⟩, ⟨?_, trivial⟩, ⟨?_, ?_⟩, ⟨trivial, trivial⟩,
    ⟨trivial, trivial⟩, ⟨?_, trivial⟩, ⟨?_, trivial⟩, ⟨trivial, trivial⟩, ⟨?_, trivial⟩, ⟨?_, ?_⟩,
    ⟨trivial, trivial⟩, ⟨trivial, trivial⟩, ⟨?_, trivial⟩, trivial⟩
  case refine_3 | refine_8 =>
    show _ ∧ _
    decide +kernel
  all_goals decide +kernel

theorem messages_asked_example : answered.Read saidHello ∧ answered.Read saidAgain := by
  have hrun : Run (fun s e t => ChatNext directChat s e t ∧ s.Careful e) (.start []) answeredEvents
      answered := answeredEvents_careful.run.imp fun s e t h => ⟨⟨h.1.1, h.2⟩, h.1.2⟩
  have hasked := (messages_asked directChat emptyLog_written hrun).1
  exact ⟨hasked 1 saidHello ⟨⟨1, "t", .inbound saidHello⟩, by decide +kernel, rfl, rfl⟩
      (by decide +kernel) (by decide +kernel),
    hasked 5 saidAgain ⟨⟨5, "t", .inbound saidAgain⟩, by decide +kernel, rfl, rfl⟩
      (by decide +kernel) (by decide +kernel)⟩

/-! ## A proactive job -/

/-- A message that does not mention the bot, and then a proactive job. -/
def nudgedEvents : List ChatEvent :=
  [.arm, .ingest "t" "m" (said "hello") [] none, .resume (.ingested 1 saidHello none) "t" "j",
    .nudge "n" "check in", .dispatch, .complete "t" "m2" "hi" [],
    .resume (.answered ⟨"n", .nudge, 1, 2, some "check in"⟩ 3) "t" "j"]

def nudged : ChatRun := runOf groupChat (.start []) nudgedEvents

theorem nudgedEvents_enabled :
    EventsMeet groupChat (fun s e => e.Enabled s) (.start []) nudgedEvents := by
  refine ⟨trivial, trivial, ?_, trivial, trivial, trivial, ?_, trivial⟩
  · decide +kernel
  · decide +kernel

/-- The boundary passes the message, and no prompt had it. -/
theorem nudge_passes_message : ∃ (events : List ChatEvent) (s : ChatRun), WrittenLog [] ∧
    Run (ChatNext groupChat) (.start []) events s ∧ s.runtime.Recorded 1 saidHello ∧
    (ChatRun.start []).runtime.boundary < 1 ∧ 1 ≤ s.runtime.boundary ∧ ¬ s.Read saidHello := by
  refine ⟨nudgedEvents, nudged, emptyLog_written, nudgedEvents_enabled.run,
    ⟨⟨1, "t", .inbound saidHello⟩, by decide +kernel, rfl, rfl⟩, by decide +kernel,
    by decide +kernel, ?_⟩
  rintro ⟨d, hd, -, htext⟩
  have hprompt : ∀ d ∈ nudged.dispatched, ¬ saidHello.text.toList <:+: d.prompt.toList := by
    decide +kernel
  exact hprompt d hd htext

end Examples

end PieLab.Gateway

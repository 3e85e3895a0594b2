import PieLab.Session.Entry

/-
  The harness's context builder, against the coding agent's

  The agent harness has a context builder of its own. Both project a
  root-to-leaf path to messages, model and thinking level, and both put the
  latest compaction first, then the entries it keeps, then what follows it. They
  differ in what they do with an older compaction inside the kept region: the
  harness passes over it, the coding agent emits its summary again.

  What is proved:
    1. `settings_agree` — model and thinking level are always the same.
    2. `contexts_agree_iff` — the messages are the same, with exactly one
       compaction summary on a compacted path, exactly when nothing the latest
       compaction keeps yields a compaction summary of its own.
    3. `keptCompaction_disagrees` — the second of two overlapping compactions
       makes the coding agent emit two summaries.

  Correspondence (TypeScript ↔ Lean):
    packages/agent/src/harness/session/session.ts, `buildSessionContext`
      ↔ `Harness.buildSessionContext`
-/

namespace PieLab

open Lib

namespace Harness

structure SessionContext where
  messages : List AgentMessage
  thinkingLevel : String
  model : Option ModelRef
  activeToolNames : Option (List String)
  deriving DecidableEq, Repr

/-- The variables the first loop fills. -/
structure PathSettings where
  thinkingLevel : String
  model : Option ModelRef
  activeToolNames : Option (List String)
  deriving DecidableEq, Repr

def applyEntry (s : PathSettings) (entry : SessionEntry) : PathSettings :=
  match entry.body with
  | .thinkingLevelChange level => { s with thinkingLevel := level }
  | .modelChange provider modelId => { s with model := some { provider, modelId } }
  | .message (.assistant m) => { s with model := some { provider := m.provider, modelId := m.model } }
  | .activeToolsChange names => { s with activeToolNames := some names }
  | _ => s

def pathSettings (pathEntries : List SessionEntry) : PathSettings :=
  pathEntries.foldl applyEntry { thinkingLevel := "off", model := none, activeToolNames := none }

/-- What `appendMessage` pushes for an entry. -/
def appendMessage (entry : SessionEntry) : List AgentMessage :=
  match entry.body with
  | .message m => [m]
  | .customMessage customType content details display =>
    [createCustomMessage customType content display details entry.timestamp]
  | .branchSummary fromId summary _ _ =>
    if summary ≠ "" then [createBranchSummaryMessage summary fromId entry.timestamp] else []
  | _ => []

/-- The message of the compaction itself. -/
def compactionMessage (entry : SessionEntry) : List AgentMessage :=
  match entry.body with
  | .compaction summary _ tokensBefore _ _ =>
    [createCompactionSummaryMessage summary tokensBefore entry.timestamp]
  | _ => []

def contextMessages (pathEntries : List SessionEntry) : List AgentMessage :=
  match lastMatch compactionOf pathEntries with
  | none => pathEntries.flatMap appendMessage
  | some (compaction, firstKeptEntryId) =>
    compactionMessage compaction ++
    match pathEntries.findIdx? (fun e => e.isCompaction && e.id == compaction.id) with
    | none => pathEntries.flatMap appendMessage
    | some compactionIdx =>
      (keptFrom firstKeptEntryId (pathEntries.take compactionIdx)).flatMap appendMessage ++
        (pathEntries.drop (compactionIdx + 1)).flatMap appendMessage

def buildSessionContext (pathEntries : List SessionEntry) : SessionContext :=
  let settings := pathSettings pathEntries
  { messages := contextMessages pathEntries
    thinkingLevel := settings.thinkingLevel
    model := settings.model
    activeToolNames := settings.activeToolNames }

theorem contextMessages_split {pre post : List SessionEntry} {c : SessionEntry}
    {firstKeptEntryId : String} (hn : ((pre ++ c :: post).map SessionEntry.id).Nodup)
    (hc : compactionOf c = some (c, firstKeptEntryId))
    (hpost : ∀ e ∈ post, e.isCompaction = false) :
    contextMessages (pre ++ c :: post) =
      compactionMessage c ++ (keptFrom firstKeptEntryId pre ++ post).flatMap appendMessage := by
  have hlast : lastMatch compactionOf (pre ++ c :: post) = some (c, firstKeptEntryId) :=
    lastMatch_eq_of_split hc (lastMatch_none_iff.mp (lastMatch_compactionOf_none.mpr hpost))
  have hcc : c.isCompaction = true := compactionOf_isCompaction hc
  have hidx : (pre ++ c :: post).findIdx? (fun e => e.isCompaction && e.id == c.id) =
      some pre.length := by
    rw [List.findIdx?_append]
    have hpre : pre.findIdx? (fun e => e.isCompaction && e.id == c.id) = none := by
      rw [List.findIdx?_eq_none_iff]
      intro x hx
      have := id_ne_of_nodup hn hx
      simp [this]
    simp [hpre, List.findIdx?_cons, hcc]
  unfold contextMessages
  rw [hlast]
  simp only [hidx]
  simp [List.flatMap_append]

end Harness

/-! ## Settings -/

/-- Model and thinking level are read off a path the same way by both builders. -/
theorem settings_agree (path : List SessionEntry) :
    (getSessionContextSettings path).thinkingLevel = (Harness.pathSettings path).thinkingLevel ∧
    (getSessionContextSettings path).model = (Harness.pathSettings path).model := by
  unfold getSessionContextSettings Harness.pathSettings
  induction path using List.reverseRecOn with
  | nil => exact ⟨rfl, rfl⟩
  | append_singleton init e ih =>
    obtain ⟨ih1, ih2⟩ := ih
    simp only [List.foldl_append, List.foldl_cons, List.foldl_nil]
    rcases e with ⟨id, parent, ts, body⟩
    cases body with
    | message m => cases m <;> exact ⟨ih1, by first | exact ih2 | rfl⟩
    | thinkingLevelChange level => exact ⟨rfl, ih2⟩
    | modelChange provider modelId => exact ⟨ih1, rfl⟩
    | _ => exact ⟨ih1, ih2⟩

/-! ## Messages -/

/-- Entries that put a compaction summary into the context. -/
def yieldsCompactionSummary (entry : SessionEntry) : Bool :=
  match entry.body with
  | .compaction .. => true
  | .message (.compactionSummary _) => true
  | _ => false

theorem appendMessage_eq {e : SessionEntry} (h : e.isCompaction = false) :
    sessionEntryToContextMessages e = Harness.appendMessage e := by
  rcases e with ⟨id, parent, ts, body⟩
  cases body <;>
    simp_all [sessionEntryToContextMessages, Harness.appendMessage, SessionEntry.isCompaction]

theorem yieldsCompactionSummary_iff (e : SessionEntry) :
    (sessionEntryToContextMessages e).filter AgentMessage.isCompactionSummary = [] ↔
      yieldsCompactionSummary e = false := by
  rcases e with ⟨id, parent, ts, body⟩
  cases body with
  | message m =>
    cases m <;>
      simp [sessionEntryToContextMessages, yieldsCompactionSummary,
        AgentMessage.isCompactionSummary]
  | branchSummary fromId summary details fromHook =>
    by_cases h : summary = "" <;>
      simp [sessionEntryToContextMessages, yieldsCompactionSummary, h, createBranchSummaryMessage,
        AgentMessage.isCompactionSummary]
  | _ => simp [sessionEntryToContextMessages, yieldsCompactionSummary,
      createCustomMessage, createCompactionSummaryMessage, AgentMessage.isCompactionSummary]

theorem filter_flatMap_nil_iff (es : List SessionEntry) :
    (es.flatMap sessionEntryToContextMessages).filter AgentMessage.isCompactionSummary = [] ↔
      ∀ e ∈ es, yieldsCompactionSummary e = false := by
  rw [List.filter_flatMap, List.flatMap_eq_nil_iff]
  exact forall₂_congr fun e _ => yieldsCompactionSummary_iff e

theorem flatMap_appendMessage_eq {es : List SessionEntry}
    (h : ∀ e ∈ es, yieldsCompactionSummary e = false) :
    es.flatMap sessionEntryToContextMessages = es.flatMap Harness.appendMessage := by
  apply List.flatMap_congr
  intro e he
  apply appendMessage_eq
  have := h e he
  rcases e with ⟨id, parent, ts, body⟩
  cases body <;> simp_all [yieldsCompactionSummary, SessionEntry.isCompaction]

/-- The latest compaction of the path keeps nothing that yields a compaction
summary of its own: no older compaction entry stands between the entry it keeps
from and itself, and no message entry it keeps, or that follows it, is a
compaction summary. -/
def KeepsNoSummary (path : List SessionEntry) : Prop :=
  ∀ pre c firstKeptEntryId post, path = pre ++ c :: post →
    compactionOf c = some (c, firstKeptEntryId) → (∀ e ∈ post, e.isCompaction = false) →
    ∀ e ∈ keptFrom firstKeptEntryId pre ++ post, yieldsCompactionSummary e = false

theorem contextOfPath_messages {pre post : List SessionEntry} {c : SessionEntry}
    {firstKeptEntryId : String} (hn : ((pre ++ c :: post).map SessionEntry.id).Nodup)
    (hc : compactionOf c = some (c, firstKeptEntryId))
    (hpost : ∀ e ∈ post, e.isCompaction = false) :
    (contextOfPath (pre ++ c :: post)).messages =
      Harness.compactionMessage c ++
        (keptFrom firstKeptEntryId pre ++ post).flatMap sessionEntryToContextMessages := by
  have hmsg : sessionEntryToContextMessages c = Harness.compactionMessage c := by
    rcases c with ⟨id, parent, ts, body⟩
    cases body <;>
      simp_all [compactionOf, sessionEntryToContextMessages, Harness.compactionMessage]
  unfold contextOfPath
  rw [selectContextEntries_split hn hc hpost]
  simp [hmsg]

theorem filter_compactionMessage {c : SessionEntry} :
    (Harness.compactionMessage c).filter AgentMessage.isCompactionSummary =
      Harness.compactionMessage c := by
  rcases c with ⟨id, parent, ts, body⟩
  cases body <;> simp [Harness.compactionMessage, createCompactionSummaryMessage,
    AgentMessage.isCompactionSummary]

/-- **Where the two builders agree.** The coding agent's context of a leaf has the
messages, model and thinking level of the harness's context of the same path, and
one compaction summary when the path is compacted, exactly when the latest
compaction keeps no other summary. -/
theorem contexts_agree_iff {entries path : List SessionEntry} {leafId : LeafArg}
    (h : buildSessionPath entries leafId none = some path) :
    (∃ context, buildSessionContext entries leafId none = some context ∧
      context.messages = (Harness.buildSessionContext path).messages ∧
      context.model = (Harness.buildSessionContext path).model ∧
      context.thinkingLevel = (Harness.buildSessionContext path).thinkingLevel ∧
      ∀ pre c firstKeptEntryId post, path = pre ++ c :: post →
        compactionOf c = some (c, firstKeptEntryId) → (∀ e ∈ post, e.isCompaction = false) →
        context.messages.filter AgentMessage.isCompactionSummary = Harness.compactionMessage c) ↔
    KeepsNoSummary path := by
  obtain ⟨hpath, -, -⟩ := buildSessionPath_isSessionPath h
  have hctx : buildSessionContext entries leafId none = some (contextOfPath path) := by
    rw [buildSessionContext_eq, h]; rfl
  obtain ⟨hlevel, hmodel⟩ := settings_agree path
  constructor
  · rintro ⟨context, hcontext, -, -, -, hone⟩ pre c firstKeptEntryId post hsplit hc hpost
    rw [hctx] at hcontext
    obtain rfl := Option.some.inj hcontext
    -- one summary in all, and `c` itself gives one: nothing is left for the rest
    have hcount := hone pre c firstKeptEntryId post hsplit hc hpost
    rw [hsplit, contextOfPath_messages (hsplit ▸ hpath.nodup) hc hpost, List.filter_append,
      filter_compactionMessage] at hcount
    exact (filter_flatMap_nil_iff _).mp (List.append_right_eq_self.mp hcount)
  · intro hkeeps
    refine ⟨contextOfPath path, hctx, ?_, hmodel, hlevel, ?_⟩
    · rcases path_cases path with hno | ⟨pre, c, firstKeptEntryId, post, hsplit, hc, hpost⟩
      · have hharness : Harness.contextMessages path = path.flatMap Harness.appendMessage := by
          unfold Harness.contextMessages
          rw [lastMatch_compactionOf_none.mpr hno]
        show (selectContextEntries path).flatMap _ = Harness.contextMessages path
        rw [selectContextEntries_none hno, hharness]
        exact List.flatMap_congr fun e he => appendMessage_eq (hno e he)
      · have hn := hsplit ▸ hpath.nodup
        have hnone := hkeeps pre c firstKeptEntryId post hsplit hc hpost
        show (contextOfPath path).messages = Harness.contextMessages path
        rw [hsplit, contextOfPath_messages hn hc hpost, Harness.contextMessages_split hn hc hpost,
          flatMap_appendMessage_eq hnone]
    · intro pre c firstKeptEntryId post hsplit hc hpost
      have hnone := hkeeps pre c firstKeptEntryId post hsplit hc hpost
      rw [hsplit, contextOfPath_messages (hsplit ▸ hpath.nodup) hc hpost, List.filter_append,
        filter_compactionMessage, (filter_flatMap_nil_iff _).mpr hnone, List.append_nil]

/-! ## Two overlapping compactions -/

namespace OverlapExample

def message (id : String) (parentId : Option String) (text : String) : SessionEntry :=
  { id, parentId, timestamp := 0, body := .message (.user { content := .text text, timestamp := 0 }) }

def compaction (id parentId summary firstKeptEntryId : String) : SessionEntry :=
  { id, parentId := some parentId, timestamp := 0
    body := .compaction summary firstKeptEntryId 0 none false }

/-- Three messages, a compaction keeping the last two, one more message, and a
compaction keeping the last two of the first compaction's kept messages. -/
def path : List SessionEntry :=
  [message "m1" none "one", message "m2" (some "m1") "two", message "m3" (some "m2") "three",
   compaction "c1" "m3" "first summary" "m2", message "m4" (some "c1") "four",
   compaction "c2" "m4" "second summary" "m3"]

end OverlapExample

/-- The second compaction keeps the first one's entry, so the coding agent's
context of the path has two summaries and the harness's one. -/
theorem keptCompaction_disagrees :
    buildSessionPath OverlapExample.path .undefined none = some OverlapExample.path ∧
    ∃ context, buildSessionContext OverlapExample.path .undefined none = some context ∧
      context.messages ≠ (Harness.buildSessionContext OverlapExample.path).messages ∧
      (context.messages.filter AgentMessage.isCompactionSummary).length = 2 ∧
      ((Harness.buildSessionContext OverlapExample.path).messages.filter
        AgentMessage.isCompactionSummary).length = 1 := by
  exact ⟨by decide, contextOfPath OverlapExample.path, by decide, by decide, by decide, by decide⟩

/-- `contexts_agree_iff` before the second compaction: one compaction, which keeps
two messages. -/
theorem contexts_agree_once :
    ∃ context, buildSessionContext (OverlapExample.path.take 5) .undefined none = some context ∧
      context.messages =
        (Harness.buildSessionContext (OverlapExample.path.take 5)).messages := by
  have hpath : buildSessionPath (OverlapExample.path.take 5) .undefined none =
      some (OverlapExample.path.take 5) := by decide
  have honly : ∀ e ∈ OverlapExample.path.take 5, yieldsCompactionSummary e = true →
      e.isCompaction = true ∧ e.id = "c1" := by decide
  have hkeeps : KeepsNoSummary (OverlapExample.path.take 5) := by
    intro pre c firstKeptEntryId post hsplit hc hpost e he
    by_contra hyes
    have hn := hsplit ▸ (buildSessionPath_isSessionPath hpath).1.nodup
    have hcid : c.id = "c1" := by
      refine (honly c (by rw [hsplit]; simp) ?_).2
      rcases c with ⟨id, parent, ts, body⟩
      cases body <;> simp_all [compactionOf, yieldsCompactionSummary]
    rw [Bool.not_eq_false] at hyes
    rcases List.mem_append.mp he with he | he
    · have hpre : e ∈ pre := (List.dropWhile_sublist _).subset he
      obtain ⟨-, heid⟩ := honly e (by rw [hsplit]; simp [hpre]) hyes
      exact id_ne_of_nodup hn hpre (heid.trans hcid.symm)
    · obtain ⟨hcomp, -⟩ := honly e (by rw [hsplit]; simp [he]) hyes
      rw [hpost e he] at hcomp; cases hcomp
  obtain ⟨context, hcontext, hmessages, -⟩ := (contexts_agree_iff hpath).mpr hkeeps
  exact ⟨context, hcontext, hmessages⟩

end PieLab

import Mathlib.Logic.Function.Basic
import PieLab.Session.Branching
import PieLab.Session.Migration

/-
  The session file

  A persistent manager writes its entries to a file, one line each behind the
  header. Nothing is written before the first assistant message: then the whole
  session is written to a new file, and every later entry is appended.
  `createBranchedSession` moves on to a file of its own, written at once where
  the new session has an assistant message and put off where it has none. An entry
  is in memory before it is printed, and printing may throw.

  What is proved:
    1. `apply_entries` — a call appends at most one entry.
    2. `callOp_synced`, `createBranchedSession_synced` — what one call does to the
       file where it can print what it has to write.
    3. `sessionFile_agrees` — after every call of a run of such calls from a new
       session the file is missing and memory has no assistant message, or the lines
       of the file are the header and the entries in memory.
    4. `unprinted_entry_lost` — an entry that cannot be printed stays in memory alone.

  Correspondence (TypeScript ↔ Lean), packages/coding-agent/src/core/session-manager.ts:
    `newSession`, `_rewriteFile`, `_persist`, `createBranchedSession` ↔ the same names
    `_appendEntry` after the append in memory                         ↔ `callOp`
  The files are a map from paths to lines, `none` where there is no file. A line
  is the entry `JSON.stringify` printed. A value it throws on has a text too, and
  `JsonErrors` says what is thrown.
-/

namespace PieLab

open Lib

abbrev SessionFiles := String → Option (List FileEntry)

/-- What `JSON.stringify` throws on an entry, if it does: a BigInt or a cycle in the data, the details or
the message cannot be printed. -/
abbrev JsonErrors := EntryBody → Option String

/-- The entries that are printed one after the other, and what is thrown at the first that cannot be. -/
def printEntries (errors : JsonErrors) : List SessionEntry → List FileEntry × Option String
  | [] => ([], none)
  | e :: rest =>
    match errors e.body with
    | some message => ([], some message)
    | none =>
      let (lines, thrown) := printEntries errors rest
      (.entry e.stored :: lines, thrown)

/-- A persistent manager and the files it writes. -/
structure SessionStore where
  manager : SessionManager
  header : SessionHeader
  sessionFile : String
  flushed : Bool
  files : SessionFiles

/-- What a new session or a branched one takes from outside. -/
structure NewFile where
  sessionId : String
  timestamp : Int
  sessionFile : String

/-- `e.type === "message" && e.message.role === "assistant"` -/
def SessionEntry.isAssistantMessage (e : SessionEntry) : Bool :=
  match e.body with | .message (.assistant _) => true | _ => false

/-- `openSync(path, "wx")` of an existing file. -/
def fileExists (path : String) : String := "EEXIST: file already exists, open '" ++ path ++ "'"

/-- The entry a call has appended. -/
def pushedEntry (s t : SessionManager) : Option SessionEntry := t.entries[s.entries.length]?

namespace SessionStore

/-- `this.fileEntries` -/
def fileEntries (s : SessionStore) : List FileEntry :=
  .session s.header :: s.manager.entries.map fun e => .entry e.stored

def hasAssistant (s : SessionStore) : Bool := s.manager.entries.any SessionEntry.isAssistantMessage

def newSession (files : SessionFiles) (new : NewFile) (cwd : String)
    (parentSession : Option String) : SessionStore where
  manager := .newSession
  header :=
    { version := some currentSessionVersion
      id := new.sessionId
      timestamp := new.timestamp
      cwd
      parentSession }
  sessionFile := new.sessionFile
  flushed := false
  files

section Writing
variable (errors : JsonErrors) (s : SessionStore)

/-- `appendFileSync(this.sessionFile, line)`: a missing file is created. What was thrown comes second. -/
def appendLine (entry : SessionEntry) : SessionStore × Option String :=
  match errors entry.body with
  | some message => (s, some message)
  | none =>
    ({ s with
      files := Function.update s.files s.sessionFile
        (some ((s.files s.sessionFile).getD [] ++ [.entry entry.stored])) }, none)

/-- The file keeps the lines that were written before printing threw. -/
def rewriteFile : SessionStore × Option String :=
  let (lines, thrown) := printEntries errors s.manager.entries
  ({ s with files := Function.update s.files s.sessionFile (some (.session s.header :: lines)) }, thrown)

/-- The whole session is in its file, or something was thrown before the flag is set. -/
def flushedFile : SessionStore × Option String :=
  match s.rewriteFile errors with
  | (s, none) => ({ s with flushed := true }, none)
  | (s, some message) => (s, some message)

/-- `_persist`, with the entry already in memory. -/
def persist (entry : SessionEntry) : SessionStore × Option String :=
  if s.hasAssistant = false then
    if s.flushed then s.appendLine errors entry else ({ s with flushed := false }, none)
  else if s.flushed = false then
    match s.files s.sessionFile with
    | some _ => (s, some (fileExists s.sessionFile))
    | none => s.flushedFile errors
  else s.appendLine errors entry

/-- A call of a method of the manager. A label is set only behind a write that has not thrown. -/
def callOp (clock : Clock) (op : SessionOp) : SessionStore × Option String :=
  match op.apply s.manager clock with
  | .error message => (s, some message)
  | .ok manager =>
    match pushedEntry s.manager manager with
    | none => ({ s with manager := manager }, none)
    | some entry =>
      match persist errors { s with manager := manager } entry, op with
      | (t, some message), .appendLabelChange targetId label =>
        ({ t with manager := (s.manager.append clock (.label targetId label)).1 }, some message)
      | result, _ => result

/-- `createBranchedSession`; `none` is a walk that never ends. -/
def createBranchedSession (leafId : String) (random : Nat → Draws) (new : NewFile) :
    Option (SessionStore × Option String) :=
  (s.manager.createBranchedSession leafId random).map fun result =>
    match result with
    | .error message => (s, some message)
    | .ok manager =>
      let s : SessionStore :=
        { s with
          manager := manager
          header :=
            { version := some currentSessionVersion
              id := new.sessionId
              timestamp := new.timestamp
              cwd := s.header.cwd
              parentSession := some s.sessionFile }
          sessionFile := new.sessionFile }
      if s.hasAssistant then s.flushedFile errors else ({ s with flushed := false }, none)

end Writing

end SessionStore

/-! ## Runs -/

/-- A call on the persistent manager. -/
inductive SessionFileOp where
  | op (op : SessionOp) (clock : Clock)
  | createBranchedSession (leafId : String) (random : Nat → Draws) (new : NewFile)

/-- The manager in memory after the call, unless the call is refused. -/
def SessionFileOp.inMemory (manager : SessionManager) : SessionFileOp → Option SessionManager
  | .op call clock => (call.apply manager clock).toOption
  | .createBranchedSession leafId random _ => (manager.createBranchedSession leafId random).bind Except.toOption

namespace SessionStore

/-- One call, whether it returns or throws; the file of a branched session is a new one. -/
inductive Next (errors : JsonErrors) (s : SessionStore) : SessionFileOp → SessionStore → Prop where
  | op (op : SessionOp) (clock : Clock) : Next errors s (.op op clock) (s.callOp errors clock op).1
  | branch {leafId : String} {random : Nat → Draws} {new : NewFile} {t : SessionStore} {thrown : Option String}
    (hfresh : s.files new.sessionFile = none)
    (h : s.createBranchedSession errors leafId random new = some (t, thrown)) :
    Next errors s (.createBranchedSession leafId random new) t

/-- What the call may have to write can be printed: there is no assistant message in memory after it, or
`JSON.stringify` throws on none of the entries there. -/
def CanPrint (errors : JsonErrors) (s : SessionStore) (call : SessionFileOp) : Prop :=
  ∀ manager, call.inMemory s.manager = some manager → manager.entries.any SessionEntry.isAssistantMessage →
    ∀ e ∈ manager.entries, errors e.body = none

/-- A call that can print what it has to write. -/
def PrintedNext (errors : JsonErrors) (s : SessionStore) (call : SessionFileOp) (t : SessionStore) :
    Prop :=
  s.Next errors call t ∧ s.CanPrint errors call

end SessionStore

/-! ## What a call appends -/

/-- A call appends one entry or none. -/
theorem apply_entries {s t : SessionManager} {clock : Clock} {op : SessionOp}
    (h : op.apply s clock = .ok t) : t.entries = s.entries ++ (pushedEntry s t).toList := by
  have hpush : ∀ entry, t.entries = s.entries ++ [entry] →
      t.entries = s.entries ++ (pushedEntry s t).toList := by
    intro entry ht
    unfold pushedEntry
    rw [ht]
    simp
  have hsame : t.entries = s.entries → t.entries = s.entries ++ (pushedEntry s t).toList := by
    intro ht
    unfold pushedEntry
    rw [ht]
    simp
  cases op with
  | appendLabelChange targetId label =>
    simp only [SessionOp.apply, SessionManager.appendLabelChange] at h
    split at h
    · obtain rfl := Except.ok.inj h
      exact hpush _ (setLabel_fields _ _ _ _).1
    · cases h
  | branch id =>
    simp only [SessionOp.apply, SessionManager.branch] at h
    split at h
    · obtain rfl := Except.ok.inj h
      exact hsame rfl
    · cases h
  | resetLeaf =>
    obtain rfl := Except.ok.inj h
    exact hsame rfl
  | branchWithSummary branchFromId summary details fromHook =>
    cases branchFromId with
    | none =>
      obtain rfl := Except.ok.inj h
      exact hpush _ rfl
    | some id =>
      simp only [SessionOp.apply, SessionManager.branchWithSummary] at h
      split at h
      · obtain rfl := Except.ok.inj h
        exact hpush _ rfl
      · cases h
  | _ =>
    obtain rfl := Except.ok.inj h
    exact hpush _ rfl

variable {u : SessionStore}

namespace SessionStore

/-! ## The file and the memory agree -/

/-- The file is missing and memory has no assistant message, or the lines of the file are
the header and the entries in memory. -/
def FileAgrees (s : SessionStore) : Prop :=
  (s.files s.sessionFile = none ∧ s.hasAssistant = false) ∨
    s.files s.sessionFile = some s.fileEntries

/-- What the flag says between two calls. -/
structure Synced (s : SessionStore) : Prop where
  unflushed : s.flushed = false → s.files s.sessionFile = none ∧ s.hasAssistant = false
  flushed : s.flushed = true → s.files s.sessionFile = some s.fileEntries ∧ s.hasAssistant = true

variable {s : SessionStore}

theorem Synced.fileAgrees (h : s.Synced) : s.FileAgrees := by
  cases hf : s.flushed with
  | false => exact .inl (h.unflushed hf)
  | true => exact .inr (h.flushed hf).1

theorem synced_newSession {files : SessionFiles} {new : NewFile} {cwd : String}
    {parentSession : Option String} (hfresh : files new.sessionFile = none) :
    (newSession files new cwd parentSession).Synced where
  unflushed := fun _ => ⟨hfresh, rfl⟩
  flushed := fun h => by cases h

/-- `u` is `s` with one more entry in memory. -/
structure Pushed (s u : SessionStore) (entry : SessionEntry) : Prop where
  entries : u.manager.entries = s.manager.entries ++ [entry]
  header : u.header = s.header
  sessionFile : u.sessionFile = s.sessionFile
  flushed : u.flushed = s.flushed
  files : u.files = s.files

theorem Pushed.fileEntries {entry : SessionEntry} (h : s.Pushed u entry) :
    u.fileEntries = s.fileEntries ++ [.entry entry.stored] := by
  simp [SessionStore.fileEntries, h.header, h.entries]

theorem Pushed.file {entry : SessionEntry} (h : s.Pushed u entry) :
    u.files u.sessionFile = s.files s.sessionFile := by
  rw [h.files, h.sessionFile]

variable {errors : JsonErrors}

theorem printEntries_eq {entries : List SessionEntry} (h : ∀ e ∈ entries, errors e.body = none) :
    printEntries errors entries = (entries.map fun e => .entry e.stored, none) := by
  induction entries with
  | nil => rfl
  | cons e entries ih =>
    simp only [printEntries, h e List.mem_cons_self, ih fun e he => h e (List.mem_cons_of_mem _ he), List.map_cons]

theorem flushedFile_eq (h : ∀ e ∈ s.manager.entries, errors e.body = none) :
    s.flushedFile errors =
      ({ s with flushed := true, files := Function.update s.files s.sessionFile (some s.fileEntries) }, none) := by
  simp only [flushedFile, rewriteFile, printEntries_eq h]
  rfl

theorem persist_synced {entry : SessionEntry} (h : s.Synced) (hpushed : s.Pushed u entry)
    (hprint : u.hasAssistant = true → ∀ e ∈ u.manager.entries, errors e.body = none) :
    ∃ t, u.persist errors entry = (t, none) ∧ t.Synced := by
  cases hf : s.flushed with
  | true =>
    obtain ⟨hfile, hassistant⟩ := h.flushed hf
    have hflushed : u.flushed = true := hpushed.flushed.trans hf
    have hassistant' : u.hasAssistant = true := by
      unfold hasAssistant at hassistant ⊢
      simp [hpushed.entries, hassistant]
    have hprinted := hprint hassistant' entry (by simp [hpushed.entries])
    refine ⟨{ u with
      files := Function.update u.files u.sessionFile
        (some ((u.files u.sessionFile).getD [] ++ [.entry entry.stored])) }, ?_, fun hflag => ?_,
      fun _ => ⟨?_, hassistant'⟩⟩
    · simp [persist, hassistant', hflushed, appendLine, hprinted]
    · cases hflushed.symm.trans hflag
    · show Function.update u.files u.sessionFile _ u.sessionFile = some u.fileEntries
      rw [Function.update_self, hpushed.file, hfile, hpushed.fileEntries]
      rfl
  | false =>
    obtain ⟨hfile, -⟩ := h.unflushed hf
    have hflushed : u.flushed = false := hpushed.flushed.trans hf
    have hfile' : u.files u.sessionFile = none := hpushed.file.trans hfile
    cases hassistant : u.hasAssistant with
    | false =>
      refine ⟨{ u with flushed := false }, ?_, fun _ => ⟨hfile', hassistant⟩,
        fun hflag => by cases hflag⟩
      simp [persist, hassistant, hflushed]
    | true =>
      have hwrite : u.persist errors entry =
          u.flushedFile errors := by simp [persist, hassistant, hflushed, hfile']
      exact ⟨_, hwrite.trans (flushedFile_eq (hprint hassistant)), fun hflag => (by cases hflag),
        fun _ => ⟨Function.update_self .., hassistant⟩⟩

theorem callOp_synced (h : s.Synced) {clock : Clock} {op : SessionOp}
    (hprint : s.CanPrint errors (.op op clock)) : (s.callOp errors clock op).1.Synced := by
  unfold callOp
  cases happly : op.apply s.manager clock with
  | error message => exact h
  | ok m =>
    have hentries := apply_entries happly
    have hprint := hprint m (by simp only [SessionFileOp.inMemory, happly]; rfl)
    dsimp only
    cases hpushed : pushedEntry s.manager m with
    | none =>
      rw [hpushed, Option.toList_none, List.append_nil] at hentries
      refine ⟨fun hf => ?_, fun hf => ?_⟩
      · simpa [hasAssistant, hentries] using h.unflushed hf
      · simpa [hasAssistant, SessionStore.fileEntries, hentries] using h.flushed hf
    | some entry =>
      rw [hpushed] at hentries
      have hnew : s.Pushed { s with manager := m } entry := ⟨hentries, rfl, rfl, rfl, rfl⟩
      obtain ⟨t, ht, hsynced⟩ := persist_synced h hnew hprint
      dsimp only
      rw [ht]
      exact hsynced

theorem createBranchedSession_synced {t : SessionStore} (h : s.Synced) {leafId : String}
    {random : Nat → Draws} {new : NewFile} {thrown : Option String}
    (hfresh : s.files new.sessionFile = none)
    (hprint : s.CanPrint errors (.createBranchedSession leafId random new))
    (hbranch : s.createBranchedSession errors leafId random new = some (t, thrown)) : t.Synced := by
  unfold createBranchedSession at hbranch
  obtain ⟨result, hresult, hbranch⟩ := Option.map_eq_some_iff.mp hbranch
  cases result with
  | error message =>
    cases hbranch
    exact h
  | ok m =>
    have hprint := hprint m (by simp only [SessionFileOp.inMemory, hresult]; rfl)
    dsimp only at hbranch
    split at hbranch
    · rename_i hassistant
      rw [flushedFile_eq (hprint hassistant)] at hbranch
      cases hbranch
      exact ⟨fun hflag => (by cases hflag), fun _ => ⟨Function.update_self .., hassistant⟩⟩
    · rename_i hassistant
      cases hbranch
      exact ⟨fun _ => ⟨hfresh, Bool.not_eq_true _ ▸ hassistant⟩, fun hflag => by cases hflag⟩

theorem Synced.next {t : SessionStore} {call : SessionFileOp} (h : s.Synced)
    (hnext : s.PrintedNext errors call t) : t.Synced := by
  obtain ⟨hnext, hprint⟩ := hnext
  cases hnext with
  | op op clock => exact callOp_synced h hprint
  | branch hfresh hbranch => exact createBranchedSession_synced h hfresh hprint hbranch

end SessionStore

/-! ## Main result -/

/-- After every call of a run from a new session whose calls can print what they have to write, file and
memory agree. -/
theorem sessionFile_agrees (errors : JsonErrors) (files : SessionFiles) (new : NewFile)
    (cwd : String)
    (parentSession : Option String) (calls : List SessionFileOp) (s : SessionStore)
    (hfresh : files new.sessionFile = none)
    (hrun : Run (SessionStore.PrintedNext errors) (.newSession files new cwd parentSession) calls s) :
    s.FileAgrees := by
  have hsynced : s.Synced := hrun.invariant (SessionStore.synced_newSession hfresh)
    fun _ _ _ hnext h => h.next hnext
  exact hsynced.fileAgrees

/-! ## A question, its answer, an entry that cannot be printed -/

namespace SessionFileExample

open LabelExample

def new (c : Char) : NewFile :=
  { sessionId := c.toString, timestamp := 0, sessionFile := "/" ++ c.toString ++ ".jsonl" }

def answer : AgentMessage :=
  .assistant
    { content := [.text "two"]
      provider := "p"
      model := "m"
      usage := { input := 0, output := 0, cacheRead := 0, cacheWrite := 0, totalTokens := 0 }
      stopReason := .stop
      errorMessage := none
      timestamp := 0 }

/-- The data `{ n: 1n }` cannot be printed. -/
def errors : JsonErrors
  | .custom _ (some "\x7bn: 1n\x7d") => some "Do not know how to serialize a BigInt"
  | _ => none

def start : SessionStore := .newSession (fun _ => none) (new 's') "/" none

def calls : List SessionFileOp :=
  [.op (.appendMessage (user "one")) (clock 'a'), .op (.appendMessage answer) (clock 'b')]

def asked : SessionStore := (start.callOp errors (clock 'a') (.appendMessage (user "one"))).1

def replied : SessionStore := (asked.callOp errors (clock 'b') (.appendMessage answer)).1

end SessionFileExample

open SessionFileExample LabelExample in
theorem sessionFile_agrees_example : SessionFileExample.replied.FileAgrees := by
  have hask : SessionStore.PrintedNext errors start (.op (.appendMessage (user "one")) (clock 'a')) asked :=
    ⟨.op _ _, by rintro _ ⟨⟩; decide⟩
  have hanswer : asked.PrintedNext errors (.op (.appendMessage answer) (clock 'b')) replied :=
    ⟨.op _ _, by rintro _ ⟨⟩; decide⟩
  exact sessionFile_agrees errors (fun _ => none) (new 's') "/" none calls replied rfl
    (.cons hask (.single hanswer))

open SessionFileExample LabelExample in
/-- An entry that cannot be printed is in memory, and not in the file. -/
theorem unprinted_entry_lost :
    ∃ s, Run (SessionStore.Next errors) start
      (calls ++ [.op (.appendCustomEntry "t" (some "\x7bn: 1n\x7d")) (clock 'c')]) s ∧ ¬ s.FileAgrees := by
  refine ⟨_, .cons (.op _ _) (.cons (.op _ _) (.single (.op _ _))), ?_⟩
  rintro (⟨hfile, -⟩ | hfile)
  · cases hfile
  · exact absurd (congrArg (Option.map List.length) hfile) (by decide)

end PieLab

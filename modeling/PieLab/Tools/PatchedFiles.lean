import PieLab.Hashline.Parse
import PieLab.Tools.Edit

/-
  A patch for several files

  The hashline path of the edit tool goes over the sections twice. The first loop reads
  every file and computes its new text, and touches nothing. The second loop writes the
  files one after another, and stops where the signal is aborted, the queue of a file
  cannot be entered or a file cannot be written.

  What is proved:
    1. `writeUpdates_untouched_iff` — which runs of the second loop leave nothing behind.
    2. `patch_all_or_nothing_iff` — a patch is applied whole or not at all exactly when
       the second loop fails for no file, or for the first one.
    3. `second_write_fails` — two files, and the second cannot be written.

  Correspondence (TypeScript ↔ Lean), packages/coding-agent/src/core/tools/edit.ts:
    `execute`, its first loop    ↔ `readUpdate`, `readUpdates`
    `execute`, its second loop   ↔ `writeUpdates`
    `execute`, the hashline path ↔ `executePatch`
  What the operations, the store and the signal answer is a parameter: a file is visited
  once in each loop. The texts of the result and of its diff are left out.
-/

namespace PieLab

open Lib

/-- What the first loop is told about a section. -/
structure SectionAnswers where
  access : Except String Unit
  abortedBefore : Bool
  readFile : Except String (List Char)
  abortedAfter : Bool
  /-- `snapshotStore.byHash(absolutePath, section.hash)` -/
  snapshot : Option String

/-- What the second loop is told about a file. -/
structure WriteAnswers where
  /-- `withFileMutationQueue` throws where the path has no queue. -/
  enter : Except String Unit
  aborted : Bool
  writeFile : Except String Unit
  /-- A write that fails may have emptied the file. -/
  damaged : Bool

structure PatchSource where
  env : EditEnv
  /-- Whether there is a `snapshotStore`. -/
  hasStore : Bool
  resolveToCwd : String → Except String String
  sections : Nat → SectionAnswers
  writes : Nat → WriteAnswers

structure FileUpdate where
  path : String
  absolutePath : String
  newContent : List Char
  originalEnding : LineEnding
  bom : List Char
  deriving DecidableEq, Repr

/-- What a call changes: the text of a file, a snapshot and the history of its conflicts. -/
inductive FileEffect where
  | wrote (absolutePath : String) (content : List Char)
  | damaged (absolutePath : String)
  | recorded (absolutePath : String) (content : List Char)
  | cleared (absolutePath : String)
  deriving DecidableEq, Repr

def operationAborted : String := "Operation aborted"

def sameFileTwice (path : String) : String :=
  "Multiple hashline sections target the same file: " ++ path

def noHashlineInput : String := "Hashline edit input is not available in this session."

/-- `if (signal?.aborted) throw new Error("Operation aborted")` -/
def checkAborted (aborted : Bool) : Except String Unit :=
  refuse aborted operationAborted

/-! ## The two loops -/

/-- A pass of the first loop. -/
def readUpdate (env : EditEnv) (answers : SectionAnswers) (patch : HashlinePatchSection)
    (absolutePath : String) : Except String FileUpdate := do
  answers.access
  checkAborted answers.abortedBefore
  let rawContent ← answers.readFile
  checkAborted answers.abortedAfter
  let (bom, content) := stripBom rawContent
  let originalEnding := detectLineEnding content
  let newContent ← patchedText env patch answers.snapshot (normalizeToLF content)
  return { path := patch.path, absolutePath, newContent, originalEnding, bom }

section Loops
variable (src : PatchSource)

def readUpdates (seenFiles : List String) (i : Nat) :
    List HashlinePatchSection → Except String (List FileUpdate)
  | [] => .ok []
  | patch :: rest => do
    let absolutePath ← src.resolveToCwd patch.path
    refuse (seenFiles.contains absolutePath) (sameFileTwice patch.path)
    let update ← readUpdate src.env (src.sections i) patch absolutePath
    let updates ← readUpdates (absolutePath :: seenFiles) (i + 1) rest
    return update :: updates

/-- The second loop: what it changes, and what it throws. -/
def writeUpdates (i : Nat) : List FileUpdate → List FileEffect × Option String
  | [] => ([], none)
  | update :: rest =>
    match (src.writes i).enter.bind fun _ => checkAborted (src.writes i).aborted with
    | .error e => ([], some e)
    | .ok _ =>
      match (src.writes i).writeFile with
      | .error e => (if (src.writes i).damaged then [.damaged update.absolutePath] else [], some e)
      | .ok _ =>
        let (effects, thrown) := writeUpdates (i + 1) rest
        (.wrote update.absolutePath
            (update.bom ++ restoreLineEndings update.newContent update.originalEnding) ::
          .recorded update.absolutePath update.newContent ::
          .cleared update.absolutePath :: effects, thrown)

/-- The files to write, as the first loop has prepared them. -/
def preparedUpdates (input : String) : Except String (List FileUpdate) := do
  refuse (!src.hasStore) noHashlineInput
  let sections ← parseHashlinePatch input
  readUpdates src [] 0 sections

def executePatch (input : String) : List FileEffect × Option String :=
  match preparedUpdates src input with
  | .error e => ([], some e)
  | .ok updates => writeUpdates src 0 updates

end Loops

/-! ## All or nothing -/

/-- A call that throws has changed nothing. -/
def AllOrNothing (result : List FileEffect × Option String) : Prop :=
  result.2 ≠ none → result.1 = []

section Loops
variable {src : PatchSource}

/-- The file is written. -/
def PatchSource.Writes (src : PatchSource) (i : Nat) : Prop :=
  (src.writes i).enter = .ok () ∧ (src.writes i).aborted = false ∧ (src.writes i).writeFile = .ok ()

/-- The file is not written, and is as it was. -/
def PatchSource.Spares (src : PatchSource) (i : Nat) : Prop :=
  (∃ e, (src.writes i).enter = .error e) ∨ (src.writes i).aborted = true ∨
    (∃ e, (src.writes i).writeFile = .error e) ∧ (src.writes i).damaged = false

theorem readUpdate_ok {env : EditEnv} {answers : SectionAnswers} {patch : HashlinePatchSection}
    {rawContent newContent : List Char} (haccess : answers.access = .ok ())
    (hbefore : answers.abortedBefore = false) (hread : answers.readFile = .ok rawContent)
    (hafter : answers.abortedAfter = false)
    (hpatched : patchedText env patch answers.snapshot (normalizeToLF (stripBom rawContent).2) =
      .ok newContent) (absolutePath : String) :
    readUpdate env answers patch absolutePath =
      .ok { path := patch.path, absolutePath, newContent
            originalEnding := detectLineEnding (stripBom rawContent).2
            bom := (stripBom rawContent).1 } := by
  unfold readUpdate
  rw [haccess, hbefore, hread, hafter]
  show (patchedText env patch answers.snapshot (normalizeToLF (stripBom rawContent).2) >>= _) = _
  rw [hpatched]
  rfl

/-! ### A pass of the second loop -/

theorem PatchSource.Writes.not_spares {i : Nat} (h : src.Writes i) : ¬ src.Spares i := by
  obtain ⟨henter, haborted, hwrite⟩ := h
  intro hspares
  rcases hspares with ⟨e, he⟩ | ha | ⟨⟨e, he⟩, -⟩
  · rw [henter] at he
    cases he
  · rw [haborted] at ha
    cases ha
  · rw [hwrite] at he
    cases he

theorem writeUpdates_of_writes {i : Nat} (h : src.Writes i) (update : FileUpdate)
    (rest : List FileUpdate) :
    (writeUpdates src i (update :: rest)).1 ≠ [] ∧
      (writeUpdates src i (update :: rest)).2 = (writeUpdates src (i + 1) rest).2 := by
  obtain ⟨henter, haborted, hwrite⟩ := h
  rw [writeUpdates, henter, haborted, hwrite]
  exact ⟨List.cons_ne_nil _ _, rfl⟩

theorem writeUpdates_of_not {i : Nat} (h : ¬ src.Writes i) (update : FileUpdate)
    (rest : List FileUpdate) :
    (writeUpdates src i (update :: rest)).2 ≠ none ∧
      ((writeUpdates src i (update :: rest)).1 = [] ↔ src.Spares i) := by
  unfold writeUpdates
  cases henter : (src.writes i).enter with
  | error e =>
    refine ⟨Option.some_ne_none e, ?_⟩
    exact ⟨fun _ => .inl ⟨e, henter⟩, fun _ => rfl⟩
  | ok u =>
    cases haborted : (src.writes i).aborted with
    | true =>
      refine ⟨Option.some_ne_none operationAborted, ?_⟩
      exact ⟨fun _ => .inr (.inl haborted), fun _ => rfl⟩
    | false =>
      cases hwrite : (src.writes i).writeFile with
      | ok v => exact absurd ⟨henter, haborted, hwrite⟩ h
      | error e =>
        refine ⟨Option.some_ne_none e, ?_⟩
        show (if (src.writes i).damaged then [FileEffect.damaged update.absolutePath] else []) = [] ↔ _
        cases hdamaged : (src.writes i).damaged with
        | false => exact ⟨fun _ => .inr (.inr ⟨⟨e, hwrite⟩, hdamaged⟩), fun _ => rfl⟩
        | true =>
          constructor
          · nofun
          · intro hspares
            rcases hspares with ⟨e', he⟩ | ha | ⟨-, hd⟩
            · rw [henter] at he
              cases he
            · rw [haborted] at ha
              cases ha
            · rw [hdamaged] at hd
              cases hd

/-! ### The whole loop -/

theorem writeUpdates_done_iff (updates : List FileUpdate) (i : Nat) :
    (writeUpdates src i updates).2 = none ↔ ∀ j < updates.length, src.Writes (i + j) := by
  induction updates generalizing i with
  | nil => simp [writeUpdates]
  | cons update rest ih =>
    by_cases hwrites : src.Writes i
    · rw [(writeUpdates_of_writes hwrites update rest).2, ih]
      constructor
      · intro h j hj
        cases j with
        | zero => exact hwrites
        | succ j =>
          have hnext := h j (by simpa using hj)
          rwa [Nat.add_right_comm, Nat.add_assoc] at hnext
      · intro h j hj
        have hnext := h (j + 1) (by simpa using hj)
        rwa [Nat.add_right_comm, Nat.add_assoc]
    · constructor
      · exact fun h => absurd h (writeUpdates_of_not hwrites update rest).1
      · exact fun h => absurd (h 0 (by simp)) hwrites

theorem writeUpdates_allOrNothing_iff (updates : List FileUpdate) :
    AllOrNothing (writeUpdates src 0 updates) ↔
      (∀ i < updates.length, src.Writes i) ∨ src.Spares 0 := by
  have hdone := @writeUpdates_done_iff src updates 0
  simp only [Nat.zero_add] at hdone
  rw [← hdone]
  unfold AllOrNothing
  constructor
  · intro h
    by_cases hthrown : (writeUpdates src 0 updates).2 = none
    · exact .inl hthrown
    · right
      have hnothing := h hthrown
      cases updates with
      | nil => exact absurd rfl hthrown
      | cons update rest =>
        -- had the first file been written, it would be among the changes
        have hwrites : ¬ src.Writes 0 :=
          fun hw => (writeUpdates_of_writes hw update rest).1 hnothing
        exact (writeUpdates_of_not hwrites update rest).2.mp hnothing
  · intro h hthrown
    rcases h with hnone | hspares
    · exact absurd hnone hthrown
    · cases updates with
      | nil => rfl
      | cons update rest =>
        have hwrites : ¬ src.Writes 0 := fun hw => hw.not_spares hspares
        exact (writeUpdates_of_not hwrites update rest).2.mpr hspares

/-- A patch is applied whole or not at all exactly when, once every section is prepared, every file is
written, or the first one is spared. -/
theorem patch_all_or_nothing_iff (src : PatchSource) (input : String) :
    AllOrNothing (executePatch src input) ↔
      ∀ updates, preparedUpdates src input = .ok updates →
        (∀ i < updates.length, src.Writes i) ∨ src.Spares 0 := by
  unfold executePatch
  cases hprepared : preparedUpdates src input with
  | error e =>
    constructor
    · intro _ updates h
      cases h
    · exact fun _ _ => rfl
  | ok updates =>
    show AllOrNothing (writeUpdates src 0 updates) ↔ _
    rw [writeUpdates_allOrNothing_iff]
    constructor
    · intro h updates' heq
      cases heq
      exact h
    · exact fun h => h updates rfl

end Loops

namespace TwoFilesExample

open LostUpdateExample

/-- A line in front of the file. -/
def headSection (path : String) : HashlinePatchSection :=
  { path, hash := "8742", operations := [head] }

/-- Both files hold one line, and the disk is full when the second one is written. -/
def fullDisk : PatchSource where
  env := env
  hasStore := true
  resolveToCwd path := .ok path
  sections _ :=
    { access := .ok (), abortedBefore := false, readFile := .ok "a\n".toList, abortedAfter := false
      snapshot := none }
  writes i :=
    { enter := .ok (), aborted := false
      writeFile := if i = 0 then .ok () else .error "ENOSPC: no space left on device, write", damaged := true }

theorem headSection_canonical {path : String} (hne : path ≠ "") (hline : OneLine path.toList) :
    (headSection path).Canonical where
  path_ne := hne
  path_line := hline
  hash_length := by
    show "8742".toList.length = 4
    decide
  hash_digits := by
    show ∀ c ∈ "8742".toList, isHexDigit c = true
    exact List.all_eq_true.mp (by decide)
  operations_ne := List.cons_ne_nil _ _
  numbers := by
    intro operation hop n hn
    rw [List.mem_singleton.mp hop] at hn
    simp [head, HashlineOperation.lineNumbers] at hn
  rows := by
    intro operation hop row hrow
    rw [List.mem_singleton.mp hop] at hrow
    rw [List.mem_singleton.mp hrow]
    exact oneLine_of_all (by decide)

theorem headSection_patched (path : String) :
    patchedText env (headSection path) none "a\n".toList = .ok "x\na\n".toList := by
  have hvalid : validateHashlineSnapshot sha256Hex "a\n" "8742" path = .ok () := by
    unfold validateHashlineSnapshot
    rw [hashA]
    rfl
  have hnorm : normalizeSnapshotText "a\n" = "a\n" := by decide
  have happly : applyHashlineSectionToText "a\n" (headSection path) = .ok "x\na\n" := head_fresh
  unfold patchedText
  rw [String.ofList_toList]
  dsimp only
  rw [hnorm]
  show (validateHashlineSnapshot sha256Hex "a\n" "8742" path >>= _) = _
  rw [hvalid]
  show (applyHashlineSectionToText "a\n" (headSection path) >>= _) = _
  rw [happly]
  rfl

/-- A file as the first loop prepares it. -/
def headUpdate (path : String) : FileUpdate :=
  { path, absolutePath := path, newContent := "x\na\n".toList, originalEnding := .lf, bom := [] }

theorem headSection_read (i : Nat) (path : String) :
    readUpdate env (fullDisk.sections i) (headSection path) path = .ok (headUpdate path) := by
  have hbom : stripBom "a\n".toList = ([], "a\n".toList) := by decide
  have hending : detectLineEnding "a\n".toList = .lf := by decide
  have hlf : normalizeToLF "a\n".toList = "a\n".toList := by decide
  have hpatched : patchedText env (headSection path) none (normalizeToLF (stripBom "a\n".toList).2) =
      .ok "x\na\n".toList := by
    rw [hbom, hlf]
    exact headSection_patched path
  have hread := @readUpdate_ok env (fullDisk.sections i) (headSection path) "a\n".toList _
    rfl rfl rfl rfl hpatched path
  rw [hread, hbom]
  dsimp only
  rw [hending]
  rfl

theorem fullDisk_prepared :
    preparedUpdates fullDisk (renderPatch [headSection "f", headSection "g"]) =
      .ok [headUpdate "f", headUpdate "g"] := by
  have hparse : parseHashlinePatch (renderPatch [headSection "f", headSection "g"]) =
      .ok [headSection "f", headSection "g"] := by
    apply @parseHashlinePatch_render [headSection "f", headSection "g"] (List.cons_ne_nil _ _)
    intro s hs
    simp only [List.mem_cons, List.not_mem_nil, or_false] at hs
    rcases hs with rfl | rfl
    · exact headSection_canonical (by decide) (oneLine_of_all (by decide))
    · exact headSection_canonical (by decide) (oneLine_of_all (by decide))
  show (parseHashlinePatch _ >>= _) = _
  rw [hparse]
  show (readUpdate env _ (headSection "f") "f" >>= _) = _
  rw [headSection_read]
  show ((readUpdate env _ (headSection "g") "g" >>= _) >>= _) = _
  rw [headSection_read]
  rfl

/-- The first file is written when the disk is full for the second one. -/
theorem second_write_fails :
    (executePatch fullDisk (renderPatch [headSection "f", headSection "g"])).1 =
        [.wrote "f" "x\na\n".toList, .recorded "f" "x\na\n".toList, .cleared "f", .damaged "g"] ∧
      ¬ AllOrNothing (executePatch fullDisk (renderPatch [headSection "f", headSection "g"])) := by
  unfold executePatch
  rw [fullDisk_prepared]
  refine ⟨rfl, ?_⟩
  intro h
  exact absurd (h (Option.some_ne_none "ENOSPC: no space left on device, write"))
    (List.cons_ne_nil _ _)

end TwoFilesExample
end PieLab

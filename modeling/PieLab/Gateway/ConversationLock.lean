import Mathlib.Logic.Function.Basic
import PieLab.Messages
import PieLab.Lib.Decimal
import PieLab.Lib.Runs

/-
  The lock of a conversation

  The workers of any number of gateway processes take and give up the lock file of
  one conversation, each a step at a time: create the file exclusively, write the
  owner into it, read it, test whether its owner is alive, remove it, create it
  again. Processes start and die at any time, and their numbers are used again.

  What is proved:
    1. `one_owner` — as long as no removal takes away the lock file of another live
       worker, at most one live worker holds the lock.
    2. `two_owners` — a run in which two processes take over the lock of a dead one,
       and both hold it.

  Correspondence (TypeScript ↔ Lean):
    acquireConversationLock  ↔ the events `create` to `recreate`, in `LockNext`
    releaseConversationLock  ↔ the event `release`
    extractOwnerPid          ↔ `extractOwnerPid`
    isPidAlive               ↔ the answer of the event `test`: it is alive when a
                               live worker has the number, or any other process
    GatewayRunner's ownerId  ↔ `Contender.ownerId`
-/

namespace PieLab.Gateway

open Lib

/-! ## Lock files -/

/-- A worker that wants the conversation. -/
structure Contender where
  pid : Nat
  uuid : String
  /-- A process number is a JavaScript number. -/
  number : nearestDouble pid = some pid
  deriving DecidableEq

/-- `pie-gateway-${process.pid}-${randomUUID()}` -/
def Contender.ownerId (c : Contender) : String :=
  "pie-gateway-" ++ toString c.pid ++ "-" ++ c.uuid

/-- The rest behind a prefix. -/
def dropPrefix (word : String) (text : List Char) : Option (List Char) :=
  if word.toList <+: text then some (text.drop word.toList.length) else none

/-- The group of `^pie-(?:chat|gateway)-(\d+)-`, as a number. -/
def extractOwnerPid (owner : String) : Option Nat :=
  match (dropPrefix "pie-chat-" owner.toList).or (dropPrefix "pie-gateway-" owner.toList) with
  | none => none
  | some rest =>
    match takeDigits rest with
    | some (digits, '-' :: _) => nearestDouble (Nat.ofDigitChars 10 digits 0)
    | _ => none

/-- A file at the path of the lock; `creator` is the worker that created it, where it
is not left over from before. -/
structure LockFile where
  creator : Option Contender
  content : String
  deriving DecidableEq

/-- The process a lock file names. -/
def LockFile.ownerPid (file : LockFile) : Option Nat := extractOwnerPid (jsTrim file.content)

/-! ## Steps -/

inductive Status where
  | fresh | running | dead
  deriving DecidableEq

/-- Where a worker is in its calls. -/
inductive Phase where
  | idle
  /-- The file is created; the owner is still to be written. -/
  | created
  /-- The file was there; it is still to be read. -/
  | refused
  /-- The file was read, and names a process. -/
  | judging (file : LockFile)
  /-- Its process was found dead; the file is still to be removed. -/
  | stale (file : LockFile)
  /-- The file is removed; it is still to be created again. -/
  | removed
  | holding
  deriving DecidableEq

structure LockState where
  lock : Option LockFile
  status : Contender → Status
  phase : Contender → Phase

inductive LockEvent where
  | start (c : Contender)
  | die (pid : Nat)
  | create (c : Contender)
  | write (c : Contender)
  | read (c : Contender)
  | test (c : Contender) (alive : Bool)
  | unlink (c : Contender)
  | recreate (c : Contender)
  | release (c : Contender)

namespace LockState

def goTo (s : LockState) (c : Contender) (phase : Phase) : LockState :=
  { s with phase := Function.update s.phase c phase }

/-- `open(lockPath, "wx")`: the worker has created the file, or goes on as `otherwise` says. -/
def tryCreate (s : LockState) (c : Contender) (otherwise : Phase) : LockState :=
  match s.lock with
  | none => { s with lock := some { creator := some c, content := "" } }.goTo c .created
  | some _ => s.goTo c otherwise

/-- The owner is written into the file that was created, wherever that is now. -/
def writeOwner (s : LockState) (c : Contender) : LockState :=
  { s with
    lock := s.lock.map fun file =>
      if file.creator = some c then { file with content := c.ownerId ++ "\n" } else file }

/-- The phase after reading: the call ends where there is no file, or one that names
no process. -/
def afterRead (s : LockState) : Phase :=
  match s.lock with
  | none => .idle
  | some file => if file.ownerPid.isSome then .judging file else .idle

/-- The workers of a process die. -/
def kill (s : LockState) (pid : Nat) : LockState :=
  { s with
    status := fun c => if c.pid = pid ∧ s.status c = .running then .dead else s.status c }

end LockState

/-- No worker has started; a lock file may be left over. -/
def LockState.start (leftover : Option String) : LockState :=
  { lock := leftover.map fun content => { creator := none, content }
    status := fun _ => .fresh
    phase := fun _ => .idle }

inductive LockNext : LockState → LockEvent → LockState → Prop where
  | start {s : LockState} {c : Contender} (hfresh : s.status c = .fresh)
      (hphase : s.phase c = .idle) :
      LockNext s (.start c) { s with status := Function.update s.status c .running }
  | die {s : LockState} {pid : Nat} : LockNext s (.die pid) (s.kill pid)
  | create {s : LockState} {c : Contender} (hrun : s.status c = .running)
      (hphase : s.phase c = .idle) : LockNext s (.create c) (s.tryCreate c .refused)
  | write {s : LockState} {c : Contender} (hrun : s.status c = .running)
      (hphase : s.phase c = .created) :
      LockNext s (.write c) ((s.writeOwner c).goTo c .holding)
  | read {s : LockState} {c : Contender} (hrun : s.status c = .running)
      (hphase : s.phase c = .refused) : LockNext s (.read c) (s.goTo c s.afterRead)
  | test {s : LockState} {c : Contender} {file : LockFile} {pid : Nat} {alive : Bool}
      (hrun : s.status c = .running) (hphase : s.phase c = .judging file)
      (hpid : file.ownerPid = some pid)
      (halive : alive = false → ∀ c', s.status c' = .running → c'.pid ≠ pid) :
      LockNext s (.test c alive) (s.goTo c (if alive then .idle else .stale file))
  | unlink {s : LockState} {c : Contender} {file : LockFile} (hrun : s.status c = .running)
      (hphase : s.phase c = .stale file) :
      LockNext s (.unlink c) ({ s with lock := none }.goTo c .removed)
  | recreate {s : LockState} {c : Contender} (hrun : s.status c = .running)
      (hphase : s.phase c = .removed) : LockNext s (.recreate c) (s.tryCreate c .idle)
  | release {s : LockState} {c : Contender} (hrun : s.status c = .running)
      (hphase : s.phase c = .idle ∨ s.phase c = .holding) :
      LockNext s (.release c) ({ s with lock := none }.goTo c .idle)

/-! ## One owner -/

/-- A live worker has acquired the lock and not released it. -/
def LockState.Holds (s : LockState) (c : Contender) : Prop :=
  s.status c = .running ∧ s.phase c = .holding

/-- A live worker has created a lock file for itself and not released it. -/
def LockState.Owns (s : LockState) (c : Contender) : Prop :=
  s.status c = .running ∧ (s.phase c = .created ∨ s.phase c = .holding)

/-- At most one live worker holds the lock. -/
def LockState.OneOwner (s : LockState) : Prop := ∀ c c', s.Holds c → s.Holds c' → c = c'

/-- A removal takes away no lock file that another live worker has created and not
released. -/
def KeepsLocks (s : LockState) : LockEvent → Prop
  | .unlink c | .release c => ∀ file, s.lock = some file → ∀ c', file.creator = some c' →
      c' ≠ c → ¬ s.Owns c'
  | _ => True

/-- The file of a live worker that has created one is at the path. -/
def OwnersLock (s : LockState) : Prop :=
  ∀ c, s.Owns c → ∃ file, s.lock = some file ∧ file.creator = some c

theorem OwnersLock.oneOwner {s : LockState} (h : OwnersLock s) : s.OneOwner := by
  intro c c' hc hc'
  obtain ⟨file, hfile, hcreator⟩ := h c ⟨hc.1, .inr hc.2⟩
  obtain ⟨file', hfile', hcreator'⟩ := h c' ⟨hc'.1, .inr hc'.2⟩
  rw [hfile] at hfile'
  cases hfile'
  rw [hcreator] at hcreator'
  exact Option.some.inj hcreator'

section Phases
variable {s : LockState} {c c' : Contender} {phase : Phase}

theorem phase_goTo_self : (s.goTo c phase).phase c = phase := Function.update_self ..

theorem phase_goTo_of_ne (h : c' ≠ c) : (s.goTo c phase).phase c' = s.phase c' :=
  Function.update_of_ne h ..

theorem owns_goTo (h : (s.goTo c phase).Owns c') :
    c' ≠ c ∧ s.Owns c' ∨
      c' = c ∧ s.status c = .running ∧ (phase = .created ∨ phase = .holding) := by
  by_cases hc : c' = c
  · subst hc
    right
    refine ⟨rfl, h.1, ?_⟩
    rw [← @phase_goTo_self s c' phase]
    exact h.2
  · left
    refine ⟨hc, h.1, ?_⟩
    rw [← @phase_goTo_of_ne s c c' phase hc]
    exact h.2

end Phases

theorem OwnersLock.goTo {s : LockState} (h : OwnersLock s) {c : Contender} {phase : Phase}
    (hphase : phase ≠ .created ∧ phase ≠ .holding) : OwnersLock (s.goTo c phase) := by
  intro c' howns
  obtain ⟨_, hs⟩ | ⟨_, _, hp⟩ := owns_goTo howns
  · exact h c' hs
  · exact (hp.elim hphase.1 hphase.2).elim

theorem OwnersLock.tryCreate {s : LockState} (h : OwnersLock s) {c : Contender} {otherwise : Phase}
    (hphase : otherwise ≠ .created ∧ otherwise ≠ .holding) :
    OwnersLock (s.tryCreate c otherwise) := by
  unfold LockState.tryCreate
  split
  · next hlock =>
    intro c' howns
    obtain ⟨_, hs⟩ | ⟨rfl, _, _⟩ := owns_goTo howns
    · -- nobody owned a lock while there was no file
      obtain ⟨file, hfile, _⟩ := h c' hs
      rw [hlock] at hfile
      cases hfile
    · exact ⟨_, rfl, rfl⟩
  · exact h.goTo hphase

theorem OwnersLock.remove {s : LockState} (h : OwnersLock s) {c : Contender} {phase : Phase}
    (hkeep : ∀ file, s.lock = some file → ∀ c', file.creator = some c' → c' ≠ c → ¬ s.Owns c')
    (hphase : phase ≠ .created ∧ phase ≠ .holding) :
    OwnersLock ({ s with lock := none }.goTo c phase) := by
  intro c' howns
  obtain ⟨hne, hs⟩ | ⟨_, _, hp⟩ := owns_goTo howns
  · obtain ⟨file, hfile, hcreator⟩ := h c' hs
    exact (hkeep file hfile c' hcreator hne hs).elim
  · exact (hp.elim hphase.1 hphase.2).elim

theorem OwnersLock.next {s t : LockState} {e : LockEvent} (h : OwnersLock s)
    (hnext : LockNext s e t) (hkeep : KeepsLocks s e) : OwnersLock t := by
  cases hnext with
  | @start c hfresh hphase =>
    intro c' howns
    apply h c'
    obtain ⟨hrun, hown⟩ := howns
    have hne : c' ≠ c := by
      rintro rfl
      obtain hown | hown := hown <;> rw [show s.phase c' = .idle from hphase] at hown <;> cases hown
    have hsame : Function.update s.status c .running c' = s.status c' :=
      Function.update_of_ne hne ..
    exact ⟨hsame.symm.trans hrun, hown⟩
  | die =>
    intro c' howns
    apply h c'
    refine ⟨?_, howns.2⟩
    have := howns.1
    simp only [LockState.kill] at this
    split at this
    · cases this
    · exact this
  | create hrun hphase => exact h.tryCreate ⟨nofun, nofun⟩
  | @write c hrun hphase =>
    have hwrite : OwnersLock (s.writeOwner c) := by
      intro c' howns
      obtain ⟨file, hfile, hcreator⟩ := h c' howns
      refine ⟨if file.creator = some c then { file with content := c.ownerId ++ "\n" } else file,
        ?_, ?_⟩
      · simp only [LockState.writeOwner, hfile, Option.map_some]
      · split <;> exact hcreator
    intro c' howns
    obtain ⟨_, hs⟩ | ⟨rfl, hr, _⟩ := owns_goTo howns
    · exact hwrite c' hs
    · exact hwrite c' ⟨hr, .inl hphase⟩
  | read hrun hphase =>
    apply h.goTo
    unfold LockState.afterRead
    split
    · exact ⟨nofun, nofun⟩
    · split
      · exact ⟨nofun, nofun⟩
      · exact ⟨nofun, nofun⟩
  | @test c file pid alive hrun hphase hpid halive =>
    apply h.goTo
    cases alive with
    | true => exact ⟨nofun, nofun⟩
    | false => exact ⟨nofun, nofun⟩
  | unlink hrun hphase => exact h.remove hkeep ⟨nofun, nofun⟩
  | recreate hrun hphase => exact h.tryCreate ⟨nofun, nofun⟩
  | release hrun hphase => exact h.remove hkeep ⟨nofun, nofun⟩

/-- As long as no removal takes away the lock file of another live worker, at most one
live worker holds the lock: in every run, whatever is left over at its start. -/
theorem one_owner {leftover : Option String} {events : List LockEvent} {s : LockState}
    (h : Run (fun s e t => LockNext s e t ∧ KeepsLocks s e) (LockState.start leftover) events s) :
    s.OneOwner := by
  have hstart : OwnersLock (LockState.start leftover) := by
    intro c howns
    cases howns.1
  have hinv : OwnersLock s := h.invariant hstart fun _ _ _ hstep hs => hs.next hstep.1 hstep.2
  exact hinv.oneOwner

/-! ## Removals that take nothing away -/

/-! Two processes find the lock of a dead one. Both read it and find its owner dead; the
first takes the lock over, and the second removes what the first has created. -/

namespace TakeoverExample

def a : Contender := { pid := 10, uuid := "a", number := rfl }

def b : Contender := { pid := 20, uuid := "b", number := rfl }

def leftover : String := "pie-gateway-5-x\n"

def old : LockFile := { creator := none, content := leftover }

def events : List LockEvent :=
  [.start a, .start b, .create a, .create b, .read a, .read b, .test a false, .test b false,
   .unlink a, .recreate a, .write a, .unlink b, .recreate b, .write b]

/-- Both processes run. -/
def status : Contender → Status :=
  Function.update (Function.update (fun _ => .fresh) a .running) b .running

theorem nobody_is_5 (c : Contender) (h : status c = .running) : c.pid ≠ 5 := by
  intro hpid
  have hb : c ≠ b := by
    rintro rfl
    cases hpid
  have ha : c ≠ a := by
    rintro rfl
    cases hpid
  unfold status at h
  rw [Function.update_of_ne hb, Function.update_of_ne ha] at h
  cases h

theorem takesOver : ∃ s, Run (fun s e t => LockNext s e t ∧ KeepsLocks s e)
    (LockState.start (some leftover))
    [.start a, .start b, .create a, .read a, .test a false, .unlink a, .recreate a, .write a] s ∧
      s.Holds a := by
  have hdead : ∀ c, status c = .running → c.pid ≠ 5 := nobody_is_5
  have hold : ∀ s : LockState, s.lock = some old → KeepsLocks s (.unlink a) := by
    intro s hlock file hfile c' hcreator
    rw [hlock] at hfile
    cases hfile
    cases hcreator
  exact ⟨_,
    Run.cons ⟨.start rfl rfl, trivial⟩ <| .cons ⟨.start (by decide) rfl, trivial⟩ <|
    .cons ⟨.create (by decide) (by decide), trivial⟩ <|
    .cons ⟨.read (by decide) (by decide), trivial⟩ <|
    .cons ⟨@LockNext.test _ a old 5 false (by decide) (by decide) (by decide) fun _ => hdead,
      trivial⟩ <|
    .cons ⟨@LockNext.unlink _ a old (by decide) (by decide), hold _ rfl⟩ <|
    .cons ⟨.recreate (by decide) (by decide), trivial⟩ <|
    .cons ⟨.write (by decide) (by decide), trivial⟩ <| .nil _, by decide, by decide⟩

end TakeoverExample

theorem one_owner_example : ∃ s : LockState, s.Holds TakeoverExample.a ∧ s.OneOwner := by
  obtain ⟨s, hrun, hholds⟩ := TakeoverExample.takesOver
  exact ⟨s, hholds, one_owner hrun⟩

/-- The second removal takes away the lock of the first process, and both hold it. -/
theorem two_owners : ∃ s, Run LockNext (LockState.start (some TakeoverExample.leftover))
    TakeoverExample.events s ∧ s.Holds TakeoverExample.a ∧ s.Holds TakeoverExample.b ∧
      TakeoverExample.a.pid ≠ TakeoverExample.b.pid := by
  open TakeoverExample in
  have hdead : ∀ c, status c = .running → c.pid ≠ 5 := nobody_is_5
  refine ⟨_,
    Run.cons (.start rfl rfl) <| .cons (.start (by decide) rfl) <|
    .cons (.create (by decide) (by decide)) <| .cons (.create (by decide) (by decide)) <|
    .cons (.read (by decide) (by decide)) <| .cons (.read (by decide) (by decide)) <|
    .cons (@LockNext.test _ a old 5 false (by decide) (by decide) (by decide) fun _ => hdead) <|
    .cons (@LockNext.test _ b old 5 false (by decide) (by decide) (by decide) fun _ => hdead) <|
    .cons (@LockNext.unlink _ a old (by decide) (by decide)) <|
    .cons (.recreate (by decide) (by decide)) <| .cons (.write (by decide) (by decide)) <|
    .cons (@LockNext.unlink _ b old (by decide) (by decide)) <|
    .cons (.recreate (by decide) (by decide)) <| .cons (.write (by decide) (by decide)) <|
    .nil _, ⟨by decide, by decide⟩, ⟨by decide, by decide⟩, by decide⟩

end PieLab.Gateway

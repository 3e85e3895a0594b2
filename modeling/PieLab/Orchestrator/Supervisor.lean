import Mathlib.Logic.Function.Basic
import PieLab.Lib.Runs

/-
  The instances of an orchestrator

  The supervisor keeps a record of each instance in a file it shares between them.
  Its calls are asynchronous: each runs up to an `await`, and goes on from there
  when what it awaits is settled, in whatever order that is. The awaited things are
  the answer of the child process, its exit, and the calls to the Radius service.

  Correspondence (TypeScript ↔ Lean):
    InstanceRecord, LiveInstance ↔ `InstanceRecord`, `Instance`
    upsertInstance, removeInstance ↔ `upsertInstance`, `removeInstance`
    setStatus, updateRecord, clearBindings ↔ the functions of these names on an
                                  `InstanceView`
    syncInstanceRecord          ↔ `InstanceView.syncForRpc`, `Response.updates`
    cleanupAcquiredResources    ↔ `InstanceView.cleanup`, `finishCleanup`, and the
                                  places in `Cleanup` where it waits
    failSpawn, spawnInstance, stopInstance, handleRpc ↔ the functions of these names,
                                  and the places in `Call` where they wait
    handleUnexpectedRpcExit     ↔ `InstanceView.handleUnexpectedRpcExit`
    radiusPresence.disconnectPi ↔ `InstanceView.disconnectPi`
  Of the Radius service and the child process only the outcomes of the calls are
  modelled. Heartbeats are left out.
-/

namespace PieLab.Orchestrator

open Lib

/-! ## Records -/

inductive InstanceStatus where
  | starting | online | stopping | stopped | error
  deriving DecidableEq

structure InstanceRecord where
  id : String
  status : InstanceStatus
  cwd : String
  createdAt : String
  lastSeenAt : String
  label : Option String
  sessionId : Option String
  sessionFile : Option String
  radiusPiId : Option String
  deriving DecidableEq

/-- The record takes the place of the first with its id, or goes last. -/
def upsertInstance : List InstanceRecord → InstanceRecord → List InstanceRecord
  | [], r => [r]
  | existing :: rest, r =>
    if existing.id = r.id then r :: rest else existing :: upsertInstance rest r

def removeInstance (file : List InstanceRecord) (id : String) : List InstanceRecord :=
  file.filter fun r => decide (r.id ≠ id)

/-- What `updateRecord` is given. -/
inductive Updates where
  | nothing
  | session (sessionId : String) (sessionFile : Option String)
  | radius (radiusPiId : Option String)

def Updates.apply : Updates → InstanceRecord → InstanceRecord
  | .nothing, r => r
  | .session sessionId sessionFile, r => { r with sessionId := some sessionId, sessionFile }
  | .radius radiusPiId, r => { r with radiusPiId }

/-! ## Instances -/

structure LiveInstanceResources where
  /-- The child process is held. -/
  rpcProcess : Bool
  radiusPiId : Option String
  sessionId : Option String
  deriving DecidableEq

def Updates.applyResources : Updates → LiveInstanceResources → LiveInstanceResources
  | .session sessionId _, r => { r with sessionId := some sessionId }
  | .radius (some radiusPiId), r => { r with radiusPiId := some radiusPiId }
  | _, r => r

/-- Where `cleanupAcquiredResources` waits. -/
inductive Cleanup where
  /-- For Radius to disconnect the registration; `rpcProcess` is what it found held. -/
  | disconnecting (radiusPiId : Option String) (rpcProcess : Bool)
  /-- For the disposed process to exit. -/
  | disposing
  /-- For nothing but its turn. -/
  | returning
  deriving DecidableEq

/-- Who cleans up. -/
inductive Cleaner where
  | failSpawn | stopInstance
  deriving DecidableEq

/-- Where a call about the instance waits; `rejected` is set once the process has
rejected what is awaited. -/
inductive Call where
  | spawnSync (rejected : Bool)
  | spawnRegister
  | cleaning (cleaner : Cleaner) (place : Cleanup)
  | rpc (refresh : Bool) (rejected : Bool)
  | rpcSync (rejected : Bool)
  | exitDisconnect (radiusPiId : Option String)
  deriving DecidableEq

/-- What the process rejects when it exits or is disposed of. -/
def Call.reject : Call → Call
  | .spawnSync _ => .spawnSync true
  | .rpc refresh _ => .rpc refresh true
  | .rpcSync _ => .rpcSync true
  | call => call

/-- An instance that was spawned, with the calls about it that are under way. -/
structure Instance where
  record : InstanceRecord
  resources : LiveInstanceResources
  /-- The exit of the process is listened to. -/
  bound : Bool
  /-- The process has exited. -/
  exited : Bool
  /-- The instance is among the `liveInstances`. -/
  listed : Bool
  calls : List Call
  /-- The Radius registrations made for it that are still connected. -/
  connected : List String
  /-- The calls of `stopInstance` that have ended, and whether they were fulfilled. -/
  stops : List Bool

/-- An instance, and the file it shares with the others. -/
structure InstanceView where
  self : Instance
  file : List InstanceRecord

namespace InstanceView

/-- The record is replaced, and written. -/
def save (v : InstanceView) (record : InstanceRecord) : InstanceView :=
  { self := { v.self with record }, file := upsertInstance v.file record }

def setStatus (v : InstanceView) (status : InstanceStatus) (now : String) : InstanceView :=
  v.save { v.self.record with status, lastSeenAt := now }

def updateRecord (v : InstanceView) (updates : Updates) (now : String) : InstanceView :=
  { v with self := { v.self with resources := updates.applyResources v.self.resources } }.save
    { updates.apply v.self.record with lastSeenAt := now }

def clearBindings (v : InstanceView) :
    InstanceView := { v with self := { v.self with bound := false } }

def suspend (v : InstanceView) (call : Call) : InstanceView :=
  { v with self := { v.self with calls := v.self.calls ++ [call] } }

/-- The call goes on. -/
def without (v : InstanceView) (call : Call) : InstanceView :=
  { v with self := { v.self with calls := v.self.calls.erase call } }

def rejectAllPending (v : InstanceView) : InstanceView :=
  { v with self := { v.self with calls := v.self.calls.map Call.reject } }

def unlist (v : InstanceView) : InstanceView := { v with self := { v.self with listed := false } }

/-- `disconnectPi` of a record with this registration, fulfilled: without credentials, or
without a registration, nothing is done. -/
def disconnectPi (v : InstanceView) (radiusEnabled : Bool) : Option String → InstanceView
  | none => v
  | some radiusPiId =>
    if radiusEnabled = true ∧ radiusPiId ≠ "" then
      { v with self := { v.self with
          connected := v.self.connected.filter fun pi => decide (pi ≠ radiusPiId) } }
    else v

/-! ## Cleaning up -/

/-- `cleanupAcquiredResources`, from behind the registration. -/
def finishCleanup (v : InstanceView) (cleaner : Cleaner) (rpcProcess : Bool) : InstanceView :=
  let v := { v with self := { v.self with
    resources := { v.self.resources with sessionId := none } } }
  if rpcProcess then
    let v := { v with self := { v.self with
      resources := { v.self.resources with rpcProcess := false } } }
    v.rejectAllPending.suspend (.cleaning cleaner .disposing)
  else v.suspend (.cleaning cleaner .returning)

/-- `cleanupAcquiredResources`, up to where it first waits. -/
def cleanup (v : InstanceView) (cleaner : Cleaner) : InstanceView :=
  if v.self.resources.radiusPiId.any (fun pi => decide (pi ≠ "")) then
    v.clearBindings.suspend (.cleaning cleaner
      (.disconnecting v.self.record.radiusPiId v.self.resources.rpcProcess))
  else v.clearBindings.finishCleanup cleaner v.self.resources.rpcProcess

/-- The registration is forgotten. -/
def clearRadius (v : InstanceView) (now : String) : InstanceView :=
  { v with self := { v.self with
    resources := { v.self.resources with radiusPiId := none }
    record := { v.self.record with radiusPiId := none, lastSeenAt := now } } }

/-- What follows the clean-up, whether it was `fulfilled` or not. -/
def afterCleanup (v : InstanceView) (fulfilled : Bool) (now : String) : Cleaner → InstanceView
  | .failSpawn => (v.setStatus .stopped now).unlist
  | .stopInstance =>
    { self := { v.self with
        record := { v.self.record with status := .stopped, lastSeenAt := now }
        listed := false
        stops := v.self.stops ++ [fulfilled] }
      file := removeInstance v.file v.self.record.id }

/-! ## Calls -/

def failSpawn (v : InstanceView) (now : String) : InstanceView :=
  (v.setStatus .error now).cleanup .failSpawn

/-- `stopInstance`, which finds only a live instance. -/
def stopInstance (v : InstanceView) (now : String) : InstanceView :=
  if v.self.listed then (v.setStatus .stopping now).cleanup .stopInstance else v

/-- `handleRpc`: the command is sent, unless the process has exited. -/
def handleRpc (v : InstanceView) (refresh : Bool) : InstanceView :=
  if v.self.listed = true ∧ v.self.resources.rpcProcess = true ∧ v.self.exited = false then
    v.suspend (.rpc refresh false)
  else v

/-- `syncInstanceRecord`, called by `handleRpc`. -/
def syncForRpc (v : InstanceView) (now : String) : InstanceView :=
  if v.self.resources.rpcProcess = false then v.updateRecord .nothing now
  else if v.self.exited then v
  else v.suspend (.rpcSync false)

/-- `handleUnexpectedRpcExit`, up to where it waits. -/
def handleUnexpectedRpcExit (v : InstanceView) (now : String) : InstanceView :=
  if v.self.listed = false ∨ v.self.record.status = .stopping ∨ v.self.record.status = .stopped then v
  else
    let v := (v.setStatus .error now).clearBindings
    let v := { v with self := { v.self with
      resources := { v.self.resources with rpcProcess := false } } }
    if v.self.resources.radiusPiId.any (fun pi => decide (pi ≠ "")) then
      v.suspend (.exitDisconnect v.self.record.radiusPiId)
    else v.unlist

/-- The process exits: what is pending is rejected, and the listener called. -/
def childExit (v : InstanceView) (now : String) : InstanceView :=
  let v := { v with self := { v.self with exited := true } }.rejectAllPending
  if v.self.bound then v.handleUnexpectedRpcExit now else v

end InstanceView

/-- A response to `get_state`. -/
inductive Response where
  | state (sessionId : String) (sessionFile : Option String)
  | other

def Response.updates : Response → Updates
  | .state sessionId sessionFile => .session sessionId sessionFile
  | .other => .nothing

/-- What `spawnInstance` sets up; `created` says whether the process is created. -/
def newInstance (id cwd : String) (label : Option String) (created : Bool) (now : String) :
    Instance where
  record := { id, status := .starting, cwd, createdAt := now, lastSeenAt := now, label,
              sessionId := none, sessionFile := none, radiusPiId := none }
  resources := { rpcProcess := created, radiusPiId := none, sessionId := none }
  bound := created
  exited := false
  listed := true
  calls := []
  connected := []
  stops := []

/-- `spawnInstance`, up to where it first waits. -/
def spawnInstance (file : List InstanceRecord) (id cwd : String) (label : Option String)
    (created : Bool) (now : String) : InstanceView :=
  let self := newInstance id cwd label created now
  let v : InstanceView := { self, file := upsertInstance file self.record }
  if created then v.suspend (.spawnSync false) else v.failSpawn now

/-! ## Steps -/

inductive InstanceEvent where
  | stop (now : String)
  | rpc (refresh : Bool)
  | childExit (now : String)
  /-- What the call awaits is fulfilled, for a registration with its id. -/
  | fulfilled (call : Call) (response : Response) (radiusPiId : Option String) (now : String)
  | rejected (call : Call) (now : String)

/-- A step of one instance. -/
inductive InstanceNext (radiusEnabled : Bool) :
    InstanceView → InstanceEvent → InstanceView → Prop where
  | stop {v : InstanceView} {now : String} :
      InstanceNext radiusEnabled v (.stop now) (v.stopInstance now)
  | rpc {v : InstanceView} {refresh : Bool} :
      InstanceNext radiusEnabled v (.rpc refresh) (v.handleRpc refresh)
  | childExit {v : InstanceView} {now : String} :
      InstanceNext radiusEnabled v (.childExit now) (v.childExit now)
  | spawnSynced {v : InstanceView} {response : Response} {pi : Option String} {now : String}
      (h : .spawnSync false ∈ v.self.calls) :
      InstanceNext radiusEnabled v (.fulfilled (.spawnSync false) response pi now)
        (((v.without (.spawnSync false)).updateRecord response.updates now).suspend .spawnRegister)
  | spawnSyncFailed {v : InstanceView} {rejected : Bool} {now : String}
      (h : .spawnSync rejected ∈ v.self.calls) :
      InstanceNext radiusEnabled v (.rejected (.spawnSync rejected) now)
        ((v.without (.spawnSync rejected)).failSpawn now)
  /-- A registration has a non-empty id, and is made only with credentials. -/
  | registered {v : InstanceView} {response : Response} {pi : Option String} {now : String}
      (h : .spawnRegister ∈ v.self.calls) (henabled : pi.isSome = radiusEnabled) (hpi : pi ≠ some "") :
      InstanceNext radiusEnabled v (.fulfilled .spawnRegister response pi now)
        ((({ v with self := { v.self with connected := v.self.connected ++ pi.toList } }.without
          .spawnRegister).updateRecord (.radius pi) now).setStatus .online now)
  | registerFailed {v : InstanceView} {now : String} (h : .spawnRegister ∈ v.self.calls) :
      InstanceNext radiusEnabled v (.rejected .spawnRegister now)
        ((v.without .spawnRegister).failSpawn now)
  | disconnected {v : InstanceView} {cleaner : Cleaner} {found pi : Option String}
      {rpcProcess : Bool} {response : Response} {now : String}
      (h : .cleaning cleaner (.disconnecting found rpcProcess) ∈ v.self.calls) :
      InstanceNext radiusEnabled v
        (.fulfilled (.cleaning cleaner (.disconnecting found rpcProcess)) response pi now)
        ((((v.without (.cleaning cleaner (.disconnecting found rpcProcess))).disconnectPi
          radiusEnabled found).clearRadius now).finishCleanup cleaner rpcProcess)
  | disconnectFailed {v : InstanceView} {cleaner : Cleaner} {found : Option String}
      {rpcProcess : Bool} {now : String}
      (h : .cleaning cleaner (.disconnecting found rpcProcess) ∈ v.self.calls) :
      InstanceNext radiusEnabled v
        (.rejected (.cleaning cleaner (.disconnecting found rpcProcess)) now)
        ((v.without (.cleaning cleaner (.disconnecting found rpcProcess))).afterCleanup false now
          cleaner)
  | disposed {v : InstanceView} {cleaner : Cleaner} {response : Response} {pi : Option String}
      {now : String} (h : .cleaning cleaner .disposing ∈ v.self.calls) (hexit : v.self.exited = true) :
      InstanceNext radiusEnabled v (.fulfilled (.cleaning cleaner .disposing) response pi now)
        ((v.without (.cleaning cleaner .disposing)).afterCleanup true now cleaner)
  | returned {v : InstanceView} {cleaner : Cleaner} {response : Response} {pi : Option String}
      {now : String} (h : .cleaning cleaner .returning ∈ v.self.calls) :
      InstanceNext radiusEnabled v (.fulfilled (.cleaning cleaner .returning) response pi now)
        ((v.without (.cleaning cleaner .returning)).afterCleanup true now cleaner)
  | answered {v : InstanceView} {refresh : Bool} {response : Response} {pi : Option String}
      {now : String} (h : .rpc refresh false ∈ v.self.calls) :
      InstanceNext radiusEnabled v (.fulfilled (.rpc refresh false) response pi now)
        (if refresh then (v.without (.rpc refresh false)).syncForRpc now
          else v.without (.rpc refresh false))
  | rpcFailed {v : InstanceView} {refresh rejected : Bool} {now : String}
      (h : .rpc refresh rejected ∈ v.self.calls) :
      InstanceNext radiusEnabled v (.rejected (.rpc refresh rejected) now)
        (v.without (.rpc refresh rejected))
  | rpcSynced {v : InstanceView} {response : Response} {pi : Option String} {now : String}
      (h : .rpcSync false ∈ v.self.calls) :
      InstanceNext radiusEnabled v (.fulfilled (.rpcSync false) response pi now)
        ((v.without (.rpcSync false)).updateRecord response.updates now)
  | rpcSyncFailed {v : InstanceView} {rejected : Bool} {now : String}
      (h : .rpcSync rejected ∈ v.self.calls) :
      InstanceNext radiusEnabled v (.rejected (.rpcSync rejected) now)
        (v.without (.rpcSync rejected))
  | exitDisconnected {v : InstanceView} {found pi : Option String} {response : Response}
      {now : String} (h : .exitDisconnect found ∈ v.self.calls) :
      InstanceNext radiusEnabled v (.fulfilled (.exitDisconnect found) response pi now)
        ((((v.without (.exitDisconnect found)).disconnectPi radiusEnabled found).updateRecord
          (.radius none) now).unlist)
  | exitFailed {v : InstanceView} {found : Option String} {now : String}
      (h : .exitDisconnect found ∈ v.self.calls) :
      InstanceNext radiusEnabled v (.rejected (.exitDisconnect found) now)
        ((v.without (.exitDisconnect found)).unlist)

structure SupervisorState where
  radiusEnabled : Bool
  instances : String → Option Instance
  file : List InstanceRecord

/-- No instance is spawned; the file may hold records from before. -/
def SupervisorState.start (radiusEnabled : Bool) (file : List InstanceRecord) : SupervisorState :=
  { radiusEnabled, instances := fun _ => none, file }

def SupervisorState.put (s : SupervisorState) (id : String) (v : InstanceView) : SupervisorState :=
  { s with instances := Function.update s.instances id (some v.self), file := v.file }

inductive SupervisorEvent where
  | spawn (id cwd : String) (label : Option String) (created : Bool) (now : String)
  | about (id : String) (e : InstanceEvent)

inductive SupervisorNext : SupervisorState → SupervisorEvent → SupervisorState → Prop where
  /-- The id is a new one. -/
  | spawn {s : SupervisorState} {id cwd : String} {label : Option String} {created : Bool}
      {now : String} (hfresh : s.instances id = none) :
      SupervisorNext s (.spawn id cwd label created now)
        (s.put id (spawnInstance s.file id cwd label created now))
  | about {s : SupervisorState} {id : String} {self : Instance} {e : InstanceEvent} {v : InstanceView}
      (hself : s.instances id = some self)
      (hnext : InstanceNext s.radiusEnabled { self, file := s.file } e v) :
      SupervisorNext s (.about id e) (s.put id v)

end PieLab.Orchestrator

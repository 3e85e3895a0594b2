import PieLab.Orchestrator.Supervisor

/-
  Stopped instances stay gone

  A call that waits when `stopInstance` ends may write the record of the instance
  again when it goes on; and a registration that is made while `stopInstance` is
  under way is not seen by it.

  What is proved:
    1. `InstanceNext.tracked` — what is connected for an instance is what its record
       says, and what a clean-up under way has found.
    2. `stopped_gone` — in a run in which no other call that may write waits when a
       `stopInstance` ends, and none under way when a registration is made, a stopped
       instance has no record and, where the stop was fulfilled, no registration.
    3. `stopped_returns` — an instance stopped while `spawnInstance` waits for its
       registration comes back, online.
-/

namespace PieLab.Orchestrator

open Lib

/-! ## Files -/

theorem mem_upsertInstance {file : List InstanceRecord} {r r' : InstanceRecord}
    (h : r' ∈ upsertInstance file r) : r' = r ∨ r' ∈ file := by
  induction file with
  | nil => exact .inl (List.mem_singleton.mp h)
  | cons existing rest ih =>
    rw [upsertInstance] at h
    split at h
    · obtain rfl | h := List.mem_cons.mp h
      · exact .inl rfl
      · exact .inr (List.mem_cons_of_mem _ h)
    · obtain rfl | h := List.mem_cons.mp h
      · exact .inr List.mem_cons_self
      · exact (ih h).imp_right (List.mem_cons_of_mem _)

/-- The second view is of the same instance, and has no new records of others. -/
structure Local (v w : InstanceView) : Prop where
  id_eq : w.self.record.id = v.self.record.id
  others : ∀ r ∈ w.file, r.id ≠ v.self.record.id → r ∈ v.file

namespace Local
variable {u v w : InstanceView}

theorem refl : Local v v where
  id_eq := rfl
  others _ hr _ := hr

theorem same (h : Local v w) (hid : u.self.record.id = w.self.record.id) (hfile : u.file = w.file) :
    Local v u where
  id_eq := hid.trans h.id_eq
  others r hr := h.others r (hfile ▸ hr)

theorem save (h : Local v w) {record : InstanceRecord} (hid : record.id = w.self.record.id) :
    Local v (w.save record) where
  id_eq := hid.trans h.id_eq
  others r hr hne := by
    obtain rfl | hr := mem_upsertInstance hr
    · exact (hne (hid.trans h.id_eq)).elim
    · exact h.others r hr hne

theorem without (h : Local v w) (call : Call) : Local v (w.without call) := h.same rfl rfl

theorem suspend (h : Local v w) (call : Call) : Local v (w.suspend call) := h.same rfl rfl

theorem unlist (h : Local v w) : Local v w.unlist := h.same rfl rfl

theorem setStatus (h : Local v w) (status : InstanceStatus) (now : String) :
    Local v (w.setStatus status now) := h.save rfl

theorem updateRecord (h : Local v w) (updates : Updates) (now : String) :
    Local v (w.updateRecord updates now) := by
  have hid : (updates.apply w.self.record).id = w.self.record.id := by
    cases updates <;> rfl
  have hresources : Local v { w with
      self := { w.self with resources := updates.applyResources w.self.resources } } := h.same rfl rfl
  exact hresources.save hid

theorem finishCleanup (h : Local v w) (cleaner : Cleaner) (rpcProcess : Bool) :
    Local v (w.finishCleanup cleaner rpcProcess) := by
  cases rpcProcess <;> exact h.same rfl rfl

theorem cleanup (h : Local v w) (cleaner : Cleaner) : Local v (w.cleanup cleaner) := by
  have hbindings : Local v w.clearBindings := h.same rfl rfl
  unfold InstanceView.cleanup
  split
  · exact hbindings.suspend _
  · exact hbindings.finishCleanup cleaner _

theorem disconnectPi (h : Local v w) (radiusEnabled : Bool) (found : Option String) :
    Local v (w.disconnectPi radiusEnabled found) := by
  cases found with
  | none => exact h
  | some pi =>
    rw [InstanceView.disconnectPi]
    split
    · exact h.same rfl rfl
    · exact h

theorem afterCleanup (h : Local v w) (fulfilled : Bool) (now : String) (cleaner : Cleaner) :
    Local v (w.afterCleanup fulfilled now cleaner) := by
  cases cleaner with
  | failSpawn => exact (h.setStatus .stopped now).unlist
  | stopInstance =>
    exact { id_eq := h.id_eq, others := fun r hr => h.others r (List.mem_filter.mp hr).1 }

theorem failSpawn (h : Local v w) (now : String) : Local v (w.failSpawn now) :=
  (h.setStatus .error now).cleanup .failSpawn

theorem syncForRpc (h : Local v w) (now : String) : Local v (w.syncForRpc now) := by
  unfold InstanceView.syncForRpc
  split
  · exact h.updateRecord .nothing now
  · split
    · exact h
    · exact h.suspend _

theorem childExit (h : Local v w) (now : String) : Local v (w.childExit now) := by
  have hexit : Local v ({ w with self := { w.self with exited := true } }.rejectAllPending) :=
    h.same rfl rfl
  unfold InstanceView.childExit
  simp only
  split
  · unfold InstanceView.handleUnexpectedRpcExit
    split
    · exact hexit
    · simp only
      split <;> exact (hexit.setStatus .error now).same rfl rfl
  · exact hexit

end Local

variable {e : InstanceEvent} {found : Option String} {cleaner : Cleaner}

theorem InstanceNext.local {radiusEnabled : Bool} {v w : InstanceView}
    (h : InstanceNext radiusEnabled v e w) : Local v w := by
  have hgoing : ∀ call, Local v (v.without call) := Local.refl.without
  cases h with
  | stop =>
    unfold InstanceView.stopInstance
    split
    · exact (Local.refl.setStatus _ _).cleanup _
    · exact .refl
  | rpc =>
    unfold InstanceView.handleRpc
    split
    · exact Local.refl.suspend _
    · exact .refl
  | childExit => exact Local.refl.childExit _
  | spawnSynced => exact ((hgoing _).updateRecord _ _).suspend _
  | spawnSyncFailed => exact (hgoing _).failSpawn _
  | @registered response pi now =>
    have hconnected : Local v { v with
        self := { v.self with connected := v.self.connected ++ pi.toList } } := Local.refl.same rfl rfl
    exact ((hconnected.without _).updateRecord _ _).setStatus _ _
  | registerFailed => exact (hgoing _).failSpawn _
  | @disconnected cleaner found pi rpcProcess response now =>
    have hclear : Local v (((v.without (.cleaning cleaner (.disconnecting found
        rpcProcess))).disconnectPi radiusEnabled found).clearRadius now) :=
      ((hgoing _).disconnectPi radiusEnabled found).same rfl rfl
    exact hclear.finishCleanup _ _
  | disconnectFailed => exact (hgoing _).afterCleanup _ _ _
  | disposed => exact (hgoing _).afterCleanup _ _ _
  | returned => exact (hgoing _).afterCleanup _ _ _
  | answered =>
    split
    · exact (hgoing _).syncForRpc _
    · exact hgoing _
  | rpcFailed => exact hgoing _
  | rpcSynced => exact (hgoing _).updateRecord _ _
  | rpcSyncFailed => exact hgoing _
  | exitDisconnected => exact (((hgoing _).disconnectPi _ _).updateRecord _ _).unlist
  | exitFailed => exact (hgoing _).unlist

/-! ## Calls -/

/-- `spawnInstance` before its registration. -/
def Call.isSpawning : Call → Bool
  | .spawnSync _ | .spawnRegister => true
  | _ => false

/-- The call may write the record when it goes on. -/
def Call.mayWrite : Call → Bool
  | .spawnSync _ | .spawnRegister | .cleaning .failSpawn _ | .exitDisconnect _ => true
  | .rpc refresh rejected => refresh && !rejected
  | .rpcSync rejected => !rejected
  | .cleaning .stopInstance _ => false

/-- The registration of the record that is being disconnected. -/
def Call.disconnects : Call → Option (Option String)
  | .cleaning _ (.disconnecting found _) | .exitDisconnect found => some found
  | _ => none

/-- `stopInstance`, with nothing more to disconnect. -/
def Call.isPastRadius : Call → Bool
  | .cleaning .stopInstance .disposing | .cleaning .stopInstance .returning => true
  | _ => false

@[simp] theorem isSpawning_reject (c : Call) : c.reject.isSpawning = c.isSpawning := by
  cases c <;> rfl

@[simp] theorem disconnects_reject (c : Call) : c.reject.disconnects = c.disconnects := by
  cases c <;> rfl

@[simp] theorem isPastRadius_reject (c : Call) : c.reject.isPastRadius = c.isPastRadius := by
  cases c <;> rfl

theorem mayWrite_reject {c : Call} (h : c.mayWrite = false) : c.reject.mayWrite = false := by
  cases c <;> simp_all [Call.reject, Call.mayWrite]

/-! ## Registrations -/

/-- What is connected for an instance is in its record and its resources, and a clean-up
under way disconnects it. -/
structure Tracked (radiusEnabled : Bool) (i : Instance) : Prop where
  oneSpawn : (i.calls.filter Call.isSpawning).length ≤ 1
  unregistered : ∀ c ∈ i.calls, c.isSpawning = true → i.resources.radiusPiId = none
  registered : ∀ pi ∈ i.connected, radiusEnabled = true ∧ pi ≠ "" ∧
    i.resources.radiusPiId = some pi ∧ i.record.radiusPiId = some pi
  disconnecting : ∀ c ∈ i.calls, ∀ found, c.disconnects = some found →
    (∀ pi ∈ i.connected, found = some pi) ∧ ∀ c' ∈ i.calls, c'.isSpawning = false
  pastRadius : ∀ c ∈ i.calls, c.isPastRadius = true → i.connected = []

namespace Tracked
variable {radiusEnabled : Bool} {i j : Instance}

theorem congr (h : Tracked radiusEnabled i) (hcalls : j.calls = i.calls)
    (hconnected : j.connected = i.connected)
    (hresources : j.resources.radiusPiId = i.resources.radiusPiId)
    (hrecord : j.record.radiusPiId = i.record.radiusPiId) : Tracked radiusEnabled j := by
  constructor
  · rw [hcalls]
    exact h.oneSpawn
  · rw [hcalls, hresources]
    exact h.unregistered
  · rw [hconnected, hresources, hrecord]
    exact h.registered
  · rw [hcalls, hconnected]
    exact h.disconnecting
  · rw [hcalls, hconnected]
    exact h.pastRadius

theorem erase (h : Tracked radiusEnabled i) (call : Call) :
    Tracked radiusEnabled { i with calls := i.calls.erase call } where
  oneSpawn := by
    apply Nat.le_trans _ h.oneSpawn
    exact (List.erase_sublist.filter _).length_le
  unregistered c hc := h.unregistered c (List.mem_of_mem_erase hc)
  registered := h.registered
  disconnecting c hc found hfound := by
    obtain ⟨hconnected, hspawning⟩ := h.disconnecting c (List.mem_of_mem_erase hc) found hfound
    exact ⟨hconnected, fun c' hc' => hspawning c' (List.mem_of_mem_erase hc')⟩
  pastRadius c hc := h.pastRadius c (List.mem_of_mem_erase hc)

theorem reject (h : Tracked radiusEnabled i) :
    Tracked radiusEnabled { i with calls := i.calls.map Call.reject } where
  oneSpawn := by
    have hspawning : Call.isSpawning ∘ Call.reject = Call.isSpawning := by
      funext c
      exact isSpawning_reject c
    rw [List.filter_map, List.length_map, hspawning]
    exact h.oneSpawn
  unregistered c hc := by
    obtain ⟨c₀, hc₀, rfl⟩ := List.mem_map.mp hc
    rw [isSpawning_reject]
    exact h.unregistered c₀ hc₀
  registered := h.registered
  disconnecting c hc found hfound := by
    obtain ⟨c₀, hc₀, rfl⟩ := List.mem_map.mp hc
    rw [disconnects_reject] at hfound
    obtain ⟨hconnected, hspawning⟩ := h.disconnecting c₀ hc₀ found hfound
    refine ⟨hconnected, fun c' hc' => ?_⟩
    obtain ⟨c₁, hc₁, rfl⟩ := List.mem_map.mp hc'
    rw [isSpawning_reject]
    exact hspawning c₁ hc₁
  pastRadius c hc := by
    obtain ⟨c₀, hc₀, rfl⟩ := List.mem_map.mp hc
    rw [isPastRadius_reject]
    exact h.pastRadius c₀ hc₀

theorem push (h : Tracked radiusEnabled i) {call : Call} (hspawning : call.isSpawning = false)
    (hdisconnects : ∀ found, call.disconnects = some found →
      (∀ pi ∈ i.connected, found = some pi) ∧ ∀ c ∈ i.calls, c.isSpawning = false)
    (hpast : call.isPastRadius = true → i.connected = []) :
    Tracked radiusEnabled { i with calls := i.calls ++ [call] } where
  oneSpawn := by
    rw [List.filter_append, List.filter_cons_of_neg (by simp [hspawning])]
    simpa using h.oneSpawn
  unregistered c hc hc' := by
    obtain hc | hc := List.mem_append.mp hc
    · exact h.unregistered c hc hc'
    · rw [List.mem_singleton.mp hc, hspawning] at hc'
      exact nomatch hc'
  registered := h.registered
  disconnecting c hc found hfound := by
    have hnone : ∀ {c : Call}, (∀ c' ∈ i.calls, c'.isSpawning = false) →
        c ∈ i.calls ++ [call] → c.isSpawning = false := by
      intro c hall hc
      obtain hc | hc := List.mem_append.mp hc
      · exact hall c hc
      · rw [List.mem_singleton.mp hc, hspawning]
    obtain hc | hc := List.mem_append.mp hc
    · obtain ⟨hconnected, hall⟩ := h.disconnecting c hc found hfound
      exact ⟨hconnected, fun _ => hnone hall⟩
    · rw [List.mem_singleton.mp hc] at hfound
      obtain ⟨hconnected, hall⟩ := hdisconnects found hfound
      exact ⟨hconnected, fun _ => hnone hall⟩
  pastRadius c hc hc' := by
    obtain hc | hc := List.mem_append.mp hc
    · exact h.pastRadius c hc hc'
    · rw [List.mem_singleton.mp hc] at hc'
      exact hpast hc'

theorem disconnected (h : Tracked radiusEnabled i) (hconnected : j.connected = [])
    (hcalls : j.calls = i.calls)
    (hresources : i.resources.radiusPiId = none → j.resources.radiusPiId = none) :
    Tracked radiusEnabled j := by
  constructor
  · rw [hcalls]
    exact h.oneSpawn
  · rw [hcalls]
    exact fun c hc hspawning => hresources (h.unregistered c hc hspawning)
  · rw [hconnected]
    exact nofun
  · rw [hconnected, hcalls]
    exact fun c hc found hfound => ⟨nofun, (h.disconnecting c hc found hfound).2⟩
  · exact fun _ _ _ => hconnected

end Tracked

section Steps
variable {radiusEnabled : Bool} {v : InstanceView}

theorem Tracked.save (h : Tracked radiusEnabled v.self) {record : InstanceRecord}
    (hpi : record.radiusPiId = v.self.record.radiusPiId) :
    Tracked radiusEnabled (v.save record).self := h.congr rfl rfl rfl hpi

variable {now : String} {i : Instance}

theorem Tracked.setStatus (h : Tracked radiusEnabled v.self) {status : InstanceStatus} :
    Tracked radiusEnabled (v.setStatus status now).self := h.save rfl

theorem Tracked.updateRecord (h : Tracked radiusEnabled v.self) {updates : Updates} {now : String}
    (hupdates : ∀ pi, updates ≠ .radius pi) :
    Tracked radiusEnabled (v.updateRecord updates now).self := by
  cases updates with
  | nothing => exact h.congr rfl rfl rfl rfl
  | session => exact h.congr rfl rfl rfl rfl
  | radius pi => exact (hupdates pi rfl).elim

theorem Tracked.connected_disconnectPi (h : Tracked radiusEnabled v.self)
    (hfound : ∀ pi ∈ v.self.connected, found = some pi) :
    (v.disconnectPi radiusEnabled found).self.connected = [] := by
  apply List.eq_nil_iff_forall_not_mem.mpr
  intro pi hpi
  cases found with
  | none => exact nomatch hfound pi hpi
  | some pi' =>
    rw [InstanceView.disconnectPi] at hpi
    split at hpi
    · obtain ⟨hpi, hne⟩ := List.mem_filter.mp hpi
      have heq : pi' = pi := Option.some.inj (hfound pi hpi)
      simp [heq] at hne
    · next hoff =>
      obtain ⟨henabled, hempty, -⟩ := h.registered pi hpi
      exact hoff ⟨henabled, Option.some.inj (hfound pi hpi) ▸ hempty⟩

theorem calls_disconnectPi : (v.disconnectPi radiusEnabled found).self.calls = v.self.calls := by
  cases found with
  | none => rfl
  | some pi =>
    rw [InstanceView.disconnectPi]
    split <;> rfl

theorem resources_disconnectPi :
    (v.disconnectPi radiusEnabled found).self.resources = v.self.resources := by
  cases found with
  | none => rfl
  | some pi =>
    rw [InstanceView.disconnectPi]
    split <;> rfl

theorem Tracked.connected_nil (h : Tracked radiusEnabled i)
    (hpi : i.resources.radiusPiId.any (fun pi => decide (pi ≠ "")) = false) : i.connected = [] := by
  apply List.eq_nil_iff_forall_not_mem.mpr
  intro pi hmem
  obtain ⟨-, hne, hresources, -⟩ := h.registered pi hmem
  rw [hresources] at hpi
  simp [hne] at hpi

theorem Tracked.noSpawn (h : Tracked radiusEnabled i)
    (hpi : i.resources.radiusPiId.any (fun pi => decide (pi ≠ "")) = true) :
    ∀ c ∈ i.calls, c.isSpawning = false := by
  intro c hc
  rw [← Bool.not_eq_true]
  intro hspawning
  rw [h.unregistered c hc hspawning] at hpi
  exact nomatch hpi

theorem Tracked.noOther (h : Tracked radiusEnabled i) {c : Call} (hc : c ∈ i.calls)
    (hspawning : c.isSpawning = true) : ∀ c' ∈ i.calls.erase c, c'.isSpawning = false := by
  have hperm := (List.perm_cons_erase hc).filter Call.isSpawning
  have hlength := hperm.length_eq
  rw [List.filter_cons_of_pos hspawning, List.length_cons] at hlength
  have hnil : (i.calls.erase c).filter Call.isSpawning = [] := by
    have := h.oneSpawn
    apply List.eq_nil_of_length_eq_zero
    omega
  intro c' hc'
  simpa using List.filter_eq_nil_iff.mp hnil c' hc'

theorem Tracked.finishCleanup (h : Tracked radiusEnabled v.self) {rpcProcess : Bool}
    (hstop : cleaner = .stopInstance → v.self.connected = []) :
    Tracked radiusEnabled (v.finishCleanup cleaner rpcProcess).self := by
  have hpast : ∀ place, (Call.cleaning cleaner place).isPastRadius = true →
      v.self.connected = [] := by
    intro place hplace
    cases cleaner with
    | failSpawn => exact nomatch hplace
    | stopInstance => exact hstop rfl
  cases rpcProcess with
  | true =>
    have hpush :=
      @Tracked.push _ _ h.reject (.cleaning cleaner .disposing) rfl nofun (hpast .disposing)
    exact hpush.congr rfl rfl rfl rfl
  | false =>
    have hpush := @Tracked.push _ _ h (.cleaning cleaner .returning) rfl nofun (hpast .returning)
    exact hpush.congr rfl rfl rfl rfl

theorem Tracked.cleanup (h : Tracked radiusEnabled v.self) :
    Tracked radiusEnabled (v.cleanup cleaner).self := by
  unfold InstanceView.cleanup
  split
  · next hpi =>
    have hpush : Tracked radiusEnabled { v.self with calls := v.self.calls ++ [.cleaning cleaner
        (.disconnecting v.self.record.radiusPiId v.self.resources.rpcProcess)] } := by
      apply h.push rfl
      · intro found hfound
        cases hfound
        exact ⟨fun pi hmem => (h.registered pi hmem).2.2.2, h.noSpawn hpi⟩
      · intro hpast
        cases cleaner <;> exact nomatch hpast
    exact hpush.congr rfl rfl rfl rfl
  · next hpi =>
    have hbindings : Tracked radiusEnabled v.clearBindings.self := h.congr rfl rfl rfl rfl
    exact hbindings.finishCleanup fun _ => h.connected_nil (by simpa using hpi)

theorem Tracked.afterCleanup (h : Tracked radiusEnabled v.self) {fulfilled : Bool} :
    Tracked radiusEnabled (v.afterCleanup fulfilled now cleaner).self := by
  cases cleaner <;> exact h.congr rfl rfl rfl rfl

theorem Tracked.failSpawn (h : Tracked radiusEnabled v.self) {now : String} :
    Tracked radiusEnabled (v.failSpawn now).self := h.setStatus.cleanup

theorem Tracked.childExit (h : Tracked radiusEnabled v.self) :
    Tracked radiusEnabled (v.childExit now).self := by
  have hreject := h.reject
  unfold InstanceView.childExit
  simp only
  split
  · unfold InstanceView.handleUnexpectedRpcExit
    split
    · exact hreject.congr rfl rfl rfl rfl
    · simp only
      split
      · next hpi =>
        have hpush := @Tracked.push _ _ hreject (.exitDisconnect v.self.record.radiusPiId) rfl
          (by
            intro found hfound
            cases hfound
            exact ⟨fun pi hmem => (h.registered pi hmem).2.2.2, hreject.noSpawn hpi⟩)
          nofun
        exact hpush.congr rfl rfl rfl rfl
      · exact hreject.congr rfl rfl rfl rfl
  · exact hreject.congr rfl rfl rfl rfl

theorem Tracked.syncForRpc (h : Tracked radiusEnabled v.self) :
    Tracked radiusEnabled (v.syncForRpc now).self := by
  unfold InstanceView.syncForRpc
  split
  · exact h.updateRecord nofun
  · split
    · exact h
    · exact h.push rfl nofun nofun

end Steps

/-! ## Stops -/

/-- When a `stopInstance` ends, no other call waits that may write the record; and a
registration is made while no `stopInstance` is under way. -/
def StopsAlone (v : InstanceView) : InstanceEvent → Prop
  | .fulfilled (.cleaning .stopInstance .disposing) _ _ _
  | .fulfilled (.cleaning .stopInstance .returning) _ _ _
  | .rejected (.cleaning .stopInstance _) _ => ∀ c ∈ v.self.calls, c.mayWrite = false
  | .fulfilled .spawnRegister _ (some _) _ => ∀ place, .cleaning .stopInstance place ∉ v.self.calls
  | _ => True

theorem Tracked.spawnSynced {radiusEnabled : Bool} {v : InstanceView} {rejected : Bool}
    {updates : Updates} {now : String} (h : Tracked radiusEnabled v.self)
    (hcall : Call.spawnSync rejected ∈ v.self.calls) (hupdates : ∀ pi, updates ≠ .radius pi) :
    Tracked radiusEnabled
      (((v.without (.spawnSync rejected)).updateRecord updates now).suspend .spawnRegister).self := by
  have hnone := h.unregistered _ hcall rfl
  have hothers := h.noOther hcall rfl
  have herase := @Tracked.updateRecord _ (v.without (.spawnSync rejected))
    (h.erase (.spawnSync rejected)) updates now hupdates
  have hkept : ((v.without (.spawnSync rejected)).updateRecord updates now).self.resources.radiusPiId =
      none := by
    rw [← hnone]
    cases updates with
    | radius pi => exact (hupdates pi rfl).elim
    | _ => rfl
  have hdisconnects : ∀ c ∈ v.self.calls.erase (.spawnSync rejected), c.disconnects = none := by
    intro c hc
    cases hfound : c.disconnects with
    | none => rfl
    | some found =>
      exact nomatch (h.disconnecting c (List.mem_of_mem_erase hc) found hfound).2 _ hcall
  refine { oneSpawn := ?_, unregistered := ?_, registered := herase.registered, disconnecting := ?_,
           pastRadius := ?_ }
  · show ((v.self.calls.erase (.spawnSync rejected) ++ [Call.spawnRegister]).filter _).length ≤ 1
    rw [List.filter_append, List.filter_eq_nil_iff.mpr (by simpa using hothers)]
    exact Nat.le_refl 1
  · exact fun _ _ _ => hkept
  · intro c hc found hfound
    obtain hc | hc := List.mem_append.mp hc
    · exact nomatch (hdisconnects c hc).symm.trans hfound
    · rw [List.mem_singleton.mp hc] at hfound
      exact nomatch hfound
  · intro c hc hpast
    obtain hc | hc := List.mem_append.mp hc
    · exact herase.pastRadius c hc hpast
    · rw [List.mem_singleton.mp hc] at hpast
      exact nomatch hpast

theorem Tracked.register {radiusEnabled : Bool} {v : InstanceView} {pi : Option String}
    {now : String} (h : Tracked radiusEnabled v.self) (hcall : Call.spawnRegister ∈ v.self.calls)
    (henabled : pi.isSome = radiusEnabled) (hpi : pi ≠ some "")
    (hstop : pi.isSome = true → ∀ place, Call.cleaning .stopInstance place ∉ v.self.calls) :
    Tracked radiusEnabled
      ((({ v with self := { v.self with connected := v.self.connected ++ pi.toList } }.without
        .spawnRegister).updateRecord (.radius pi) now).setStatus .online now).self := by
  have hnone := h.unregistered _ hcall rfl
  have hothers := h.noOther hcall rfl
  have hnil : v.self.connected = [] := h.connected_nil (by rw [hnone]; rfl)
  have herase := h.erase Call.spawnRegister
  cases pi with
  | none =>
    refine herase.disconnected ?_ rfl id
    show v.self.connected ++ [] = []
    rw [hnil]
    rfl
  | some pi =>
    refine { oneSpawn := herase.oneSpawn, unregistered := ?_, registered := ?_, disconnecting := ?_,
             pastRadius := ?_ }
    · intro c hc hspawning
      exact nomatch (hothers c hc).symm.trans hspawning
    · intro pi' hpi'
      have heq : pi' = pi := by
        have : pi' ∈ v.self.connected ++ [pi] := hpi'
        rw [hnil] at this
        exact List.mem_singleton.mp this
      subst heq
      exact ⟨henabled.symm, fun hempty => hpi (congrArg some hempty), rfl, rfl⟩
    · intro c hc found hfound
      exact nomatch (h.disconnecting c (List.mem_of_mem_erase hc) found hfound).2 _ hcall
    · intro c hc hpast
      cases c with
      | cleaning cleaner place =>
        cases cleaner with
        | failSpawn => exact nomatch hpast
        | stopInstance => exact (hstop rfl place (List.mem_of_mem_erase hc)).elim
      | _ => exact nomatch hpast

theorem InstanceNext.tracked {radiusEnabled : Bool} {v w : InstanceView}
    (h : InstanceNext radiusEnabled v e w) (halone : StopsAlone v e)
    (ht : Tracked radiusEnabled v.self) : Tracked radiusEnabled w.self := by
  cases h with
  | stop =>
    unfold InstanceView.stopInstance
    split
    · exact ht.setStatus.cleanup
    · exact ht
  | rpc =>
    unfold InstanceView.handleRpc
    split
    · exact ht.push rfl nofun nofun
    · exact ht
  | childExit => exact ht.childExit
  | @spawnSynced response pi now h =>
    apply ht.spawnSynced h
    cases response <;> exact nofun
  | spawnSyncFailed => exact (ht.erase _).failSpawn (v := v.without _)
  | @registered response pi now h henabled hpi =>
    apply ht.register h henabled hpi
    intro hsome
    cases pi with
    | none => exact nomatch hsome
    | some pi => exact halone
  | registerFailed => exact (ht.erase _).failSpawn (v := v.without _)
  | @disconnected cleaner found pi rpcProcess response now h =>
    have hfound := (ht.disconnecting _ h found rfl).1
    have hnil : ((v.without (.cleaning cleaner (.disconnecting found rpcProcess))).disconnectPi
        radiusEnabled found).self.connected = [] :=
      (ht.erase _).connected_disconnectPi (v := v.without _) hfound
    have hclear := (ht.erase (.cleaning cleaner (.disconnecting found rpcProcess))).disconnected
      (j := (((v.without (.cleaning cleaner (.disconnecting found rpcProcess))).disconnectPi
        radiusEnabled found).clearRadius now).self) hnil calls_disconnectPi (fun _ => rfl)
    exact hclear.finishCleanup fun _ => hnil
  | disconnectFailed => exact (ht.erase _).afterCleanup (v := v.without _)
  | disposed => exact (ht.erase _).afterCleanup (v := v.without _)
  | returned => exact (ht.erase _).afterCleanup (v := v.without _)
  | answered =>
    split
    · exact (ht.erase _).syncForRpc (v := v.without _)
    · exact ht.erase _
  | rpcFailed => exact ht.erase _
  | @rpcSynced response =>
    apply (ht.erase _).updateRecord (v := v.without _)
    cases response <;> exact nofun
  | rpcSyncFailed => exact ht.erase _
  | @exitDisconnected found pi response now h =>
    have hfound := (ht.disconnecting _ h found rfl).1
    have hnil : ((v.without (.exitDisconnect found)).disconnectPi radiusEnabled
        found).self.connected = [] :=
      (ht.erase _).connected_disconnectPi (v := v.without _) hfound
    refine (ht.erase (.exitDisconnect found)).disconnected hnil calls_disconnectPi ?_
    intro hnone
    show ((v.without (.exitDisconnect found)).disconnectPi radiusEnabled
      found).self.resources.radiusPiId = none
    rw [resources_disconnectPi]
    exact hnone
  | exitFailed => exact (ht.erase _).congr rfl rfl rfl rfl

/-- After a `stopInstance` has ended: no call finds the instance, none that waits may write
its record, and it has none. -/
structure Gone (v : InstanceView) : Prop where
  unlisted : v.self.listed = false
  quiet : ∀ c ∈ v.self.calls, c.mayWrite = false
  absent : ∀ r ∈ v.file, r.id ≠ v.self.record.id

section Gone
variable {v w : InstanceView}

theorem Gone.without (h : Gone v) (call : Call) : Gone (v.without call) where
  unlisted := h.unlisted
  quiet c hc := h.quiet c (List.mem_of_mem_erase hc)
  absent := h.absent

theorem Gone.rejectAllPending (h : Gone v) : Gone v.rejectAllPending where
  unlisted := h.unlisted
  quiet c hc := by
    obtain ⟨c₀, hc₀, rfl⟩ := List.mem_map.mp hc
    exact mayWrite_reject (h.quiet c₀ hc₀)
  absent := h.absent

theorem Gone.suspend (h : Gone v) {call : Call} (hquiet : call.mayWrite = false) :
    Gone (v.suspend call) where
  unlisted := h.unlisted
  quiet c hc := by
    obtain hc | hc := List.mem_append.mp hc
    · exact h.quiet c hc
    · rw [List.mem_singleton.mp hc, hquiet]
  absent := h.absent

theorem Gone.congr (h : Gone v) (hlisted : w.self.listed = v.self.listed)
    (hcalls : w.self.calls = v.self.calls) (hfile : w.file = v.file)
    (hid : w.self.record.id = v.self.record.id) : Gone w := by
  constructor
  · rw [hlisted, h.unlisted]
  · rw [hcalls]
    exact h.quiet
  · rw [hfile, hid]
    exact h.absent

theorem gone_afterCleanup (hquiet : ∀ c ∈ v.self.calls, c.mayWrite = false) (fulfilled : Bool)
    (now : String) : Gone (v.afterCleanup fulfilled now .stopInstance) where
  unlisted := rfl
  quiet := hquiet
  absent _ hr := of_decide_eq_true (List.mem_filter.mp hr).2

theorem Gone.finishCleanup (h : Gone v) {rpcProcess : Bool} :
    Gone (v.finishCleanup .stopInstance rpcProcess) := by
  cases rpcProcess with
  | true => exact (h.rejectAllPending.suspend rfl).congr rfl rfl rfl rfl
  | false => exact (h.suspend rfl).congr rfl rfl rfl rfl

end Gone

theorem InstanceNext.gone {radiusEnabled : Bool} {v w : InstanceView}
    (h : InstanceNext radiusEnabled v e w) (hg : Gone v) : Gone w := by
  have quiet : ∀ {call : Call}, call ∈ v.self.calls → call.mayWrite = true → Gone w :=
    fun hcall hwrites => nomatch (hg.quiet _ hcall).symm.trans hwrites
  cases h with
  | stop =>
    unfold InstanceView.stopInstance
    rw [if_neg (by simp [hg.unlisted])]
    exact hg
  | rpc =>
    unfold InstanceView.handleRpc
    rw [if_neg (by simp [hg.unlisted])]
    exact hg
  | childExit =>
    have hreject : Gone ({ v with self := { v.self with exited := true } }.rejectAllPending) :=
      hg.rejectAllPending.congr rfl rfl rfl rfl
    unfold InstanceView.childExit
    simp only
    split
    · unfold InstanceView.handleUnexpectedRpcExit
      rw [if_pos (.inl hg.unlisted)]
      exact hreject
    · exact hreject
  | spawnSynced h => exact quiet h rfl
  | spawnSyncFailed h => exact quiet h rfl
  | registered h => exact quiet h rfl
  | registerFailed h => exact quiet h rfl
  | @disconnected cleaner found pi rpcProcess response now h =>
    cases cleaner with
    | failSpawn => exact quiet h rfl
    | stopInstance =>
      have hdisconnect : ∀ {u : InstanceView}, Gone u →
          Gone (u.disconnectPi radiusEnabled found) := by
        intro u hu
        cases found with
        | none => exact hu
        | some pi =>
          rw [InstanceView.disconnectPi]
          split
          · exact hu.congr rfl rfl rfl rfl
          · exact hu
      have hclear : Gone (((v.without (.cleaning .stopInstance (.disconnecting found
          rpcProcess))).disconnectPi radiusEnabled found).clearRadius now) :=
        (hdisconnect (hg.without _)).congr rfl rfl rfl rfl
      exact hclear.finishCleanup
  | @disconnectFailed cleaner found rpcProcess now h =>
    cases cleaner with
    | failSpawn => exact quiet h rfl
    | stopInstance => exact gone_afterCleanup (hg.without _).quiet false now
  | @disposed cleaner response pi now h | @returned cleaner response pi now h =>
    cases cleaner with
    | failSpawn => exact quiet h rfl
    | stopInstance => exact gone_afterCleanup (hg.without _).quiet true now
  | @answered refresh response pi now h =>
    cases refresh with
    | true => exact quiet h rfl
    | false => exact hg.without _
  | rpcFailed => exact hg.without _
  | rpcSynced h => exact quiet h rfl
  | rpcSyncFailed => exact hg.without _
  | exitDisconnected h => exact quiet h rfl
  | exitFailed h => exact quiet h rfl

/-! ## Runs -/

/-- What holds of each instance: it is tracked; once a `stopInstance` has ended it is gone,
and once one was fulfilled nothing is connected. -/
structure StopsKept (radiusEnabled : Bool) (v : InstanceView) : Prop where
  tracked : Tracked radiusEnabled v.self
  gone : v.self.stops ≠ [] → Gone v
  disconnected : true ∈ v.self.stops → v.self.connected = []

/-- No stop ends, and nothing is registered. -/
structure Idle (v w : InstanceView) : Prop where
  stops : w.self.stops = v.self.stops
  connected : ∀ pi ∈ w.self.connected, pi ∈ v.self.connected

section Idle
variable {u v w : InstanceView}

theorem Idle.of_eq (hstops : w.self.stops = v.self.stops)
    (hconnected : w.self.connected = v.self.connected) : Idle v w where
  stops := hstops
  connected _ hpi := hconnected ▸ hpi

theorem Idle.trans (h : Idle u v) (h' : Idle v w) : Idle u w where
  stops := h'.stops.trans h.stops
  connected pi hpi := h.connected pi (h'.connected pi hpi)

theorem idle_finishCleanup (cleaner : Cleaner) (rpcProcess : Bool) :
    Idle v (v.finishCleanup cleaner rpcProcess) := by
  cases rpcProcess <;> exact .of_eq rfl rfl

theorem idle_cleanup (cleaner : Cleaner) : Idle v (v.cleanup cleaner) := by
  have hbindings : Idle v v.clearBindings := .of_eq rfl rfl
  unfold InstanceView.cleanup
  split
  · exact .of_eq rfl rfl
  · exact hbindings.trans (idle_finishCleanup cleaner _)

theorem idle_failSpawn (now : String) : Idle v (v.failSpawn now) := by
  have hstatus : Idle v (v.setStatus .error now) := .of_eq rfl rfl
  exact hstatus.trans (idle_cleanup .failSpawn)

theorem idle_disconnectPi (radiusEnabled : Bool) (found : Option String) :
    Idle v (v.disconnectPi radiusEnabled found) := by
  cases found with
  | none => exact .of_eq rfl rfl
  | some pi =>
    rw [InstanceView.disconnectPi]
    split
    · exact { stops := rfl, connected := fun _ hpi => (List.mem_filter.mp hpi).1 }
    · exact .of_eq rfl rfl

theorem idle_syncForRpc (now : String) : Idle v (v.syncForRpc now) := by
  unfold InstanceView.syncForRpc
  split
  · exact .of_eq rfl rfl
  · split <;> exact .of_eq rfl rfl

theorem idle_childExit (now : String) : Idle v (v.childExit now) := by
  unfold InstanceView.childExit
  simp only
  split
  · unfold InstanceView.handleUnexpectedRpcExit
    split
    · exact .of_eq rfl rfl
    · simp only
      split <;> exact .of_eq rfl rfl
  · exact .of_eq rfl rfl

end Idle

/-- `stopInstance` ends: `fulfilled` with nothing left to disconnect, or rejected. -/
def EndsStop (v : InstanceView) (place : Cleanup) (fulfilled : Bool) (w : InstanceView) : Prop :=
  Call.cleaning .stopInstance place ∈ v.self.calls ∧
    (fulfilled = true → (Call.cleaning .stopInstance place).isPastRadius = true) ∧
    ∃ now, w = (v.without (.cleaning .stopInstance place)).afterCleanup fulfilled now .stopInstance

theorem InstanceNext.cases {radiusEnabled : Bool} {v w : InstanceView}
    (h : InstanceNext radiusEnabled v e w) :
    Idle v w ∨ w.self.stops = v.self.stops ∧ Call.spawnRegister ∈ v.self.calls ∨
      (∃ place fulfilled, EndsStop v place fulfilled w) ∧
        (StopsAlone v e → ∀ c ∈ v.self.calls, c.mayWrite = false) := by
  have hgoing : ∀ call, Idle v (v.without call) := fun _ => .of_eq rfl rfl
  cases h with
  | stop =>
    left
    unfold InstanceView.stopInstance
    split
    · have hstatus : ∀ now, Idle v (v.setStatus .stopping now) := fun _ => .of_eq rfl rfl
      exact (hstatus _).trans (idle_cleanup .stopInstance)
    · exact .of_eq rfl rfl
  | rpc =>
    left
    unfold InstanceView.handleRpc
    split <;> exact .of_eq rfl rfl
  | childExit => exact .inl (idle_childExit _)
  | spawnSynced => exact .inl (.of_eq rfl rfl)
  | spawnSyncFailed => exact .inl ((hgoing _).trans (idle_failSpawn _))
  | registered h => exact .inr (.inl ⟨rfl, h⟩)
  | registerFailed => exact .inl ((hgoing _).trans (idle_failSpawn _))
  | @disconnected cleaner found pi rpcProcess response now =>
    left
    have hclear : Idle v (((v.without (.cleaning cleaner (.disconnecting found
        rpcProcess))).disconnectPi radiusEnabled found).clearRadius now) :=
      ((hgoing _).trans (idle_disconnectPi radiusEnabled found)).trans (.of_eq rfl rfl)
    exact hclear.trans (idle_finishCleanup cleaner rpcProcess)
  | @disconnectFailed cleaner found rpcProcess now h =>
    cases cleaner with
    | failSpawn => exact .inl (.of_eq rfl rfl)
    | stopInstance => exact .inr (.inr ⟨⟨_, false, h, nofun, now, rfl⟩, id⟩)
  | @disposed cleaner response pi now h | @returned cleaner response pi now h =>
    cases cleaner with
    | failSpawn => exact .inl (.of_eq rfl rfl)
    | stopInstance => exact .inr (.inr ⟨⟨_, true, h, fun _ => rfl, now, rfl⟩, id⟩)
  | answered =>
    left
    split
    · exact (hgoing _).trans (idle_syncForRpc _)
    · exact hgoing _
  | rpcFailed => exact .inl (hgoing _)
  | rpcSynced => exact .inl (.of_eq rfl rfl)
  | rpcSyncFailed => exact .inl (hgoing _)
  | exitDisconnected =>
    exact .inl (((hgoing _).trans (idle_disconnectPi _ _)).trans (.of_eq rfl rfl))
  | exitFailed => exact .inl (.of_eq rfl rfl)

theorem StopsKept.step {radiusEnabled : Bool} {v w : InstanceView} (h : StopsKept radiusEnabled v)
    (hnext : InstanceNext radiusEnabled v e w) (halone : StopsAlone v e) :
    StopsKept radiusEnabled w := by
  refine { tracked := hnext.tracked halone h.tracked, gone := ?_, disconnected := ?_ }
  · intro hstops
    obtain hidle | ⟨hkept, -⟩ | ⟨⟨place, fulfilled, -, -, now, rfl⟩, hquiet⟩ := hnext.cases
    · exact hnext.gone (h.gone (hidle.stops ▸ hstops))
    · exact hnext.gone (h.gone (hkept ▸ hstops))
    · apply gone_afterCleanup
      intro c hc
      exact hquiet halone c (List.mem_of_mem_erase hc)
  · intro hstops
    obtain hidle | ⟨hkept, hcall⟩ | ⟨⟨place, fulfilled, hcall, hpast, now, rfl⟩, -⟩ := hnext.cases
    · have hnil := h.disconnected (hidle.stops ▸ hstops)
      apply List.eq_nil_iff_forall_not_mem.mpr
      intro pi hpi
      have := hidle.connected pi hpi
      rw [hnil] at this
      exact nomatch this
    · -- after the end of a stop `spawnInstance` does not wait for a registration
      have hgone := h.gone (List.ne_nil_of_mem (hkept ▸ hstops))
      exact nomatch hgone.quiet _ hcall
    · obtain hstops | hstops := List.mem_append.mp hstops
      · exact h.disconnected hstops
      · exact h.tracked.pastRadius _ hcall (hpast (List.mem_singleton.mp hstops).symm)

theorem StopsKept.of_other {radiusEnabled : Bool} {self : Instance}
    {file file' : List InstanceRecord}
    (h : StopsKept radiusEnabled { self, file })
    (hfile : ∀ r ∈ file', r.id = self.record.id → r ∈ file) :
    StopsKept radiusEnabled { self, file := file' } where
  tracked := h.tracked
  gone hstops :=
    { unlisted := (h.gone hstops).unlisted
      quiet := (h.gone hstops).quiet
      absent := fun r hr hid => (h.gone hstops).absent r (hfile r hr hid) hid }
  disconnected := h.disconnected

theorem tracked_newInstance (radiusEnabled : Bool) (id cwd : String) (label : Option String)
    (created : Bool) (now : String) :
    Tracked radiusEnabled (newInstance id cwd label created now) where
  oneSpawn := Nat.zero_le 1
  unregistered := nofun
  registered := nofun
  disconnecting := nofun
  pastRadius := nofun

section Spawn
variable {radiusEnabled : Bool} {file : List InstanceRecord} {id cwd : String}
  {label : Option String} {created : Bool} {now : String}

theorem stopsKept_spawn :
    StopsKept radiusEnabled (spawnInstance file id cwd label created now) := by
  have hnew := tracked_newInstance radiusEnabled id cwd label created now
  cases created with
  | true =>
    have hspawn : Tracked radiusEnabled
        { newInstance id cwd label true now with calls := [.spawnSync false] } :=
      { oneSpawn := Nat.le_refl 1
        unregistered := fun _ _ _ => rfl
        registered := nofun
        disconnecting := by
          intro c hc found hfound
          rw [List.mem_singleton.mp hc] at hfound
          exact nomatch hfound
        pastRadius := fun _ _ _ => rfl }
    exact { tracked := hspawn, gone := fun h => (h rfl).elim, disconnected := nofun }
  | false =>
    have hidle := @idle_failSpawn ⟨newInstance id cwd label false now,
      upsertInstance file (newInstance id cwd label false now).record⟩ now
    have hstops : (spawnInstance file id cwd label false now).self.stops = [] := hidle.stops
    refine { tracked := ?_, gone := ?_, disconnected := ?_ }
    · exact @Tracked.failSpawn _ ⟨newInstance id cwd label false now,
        upsertInstance file (newInstance id cwd label false now).record⟩ hnew now
    · rw [hstops]
      exact fun h => (h rfl).elim
    · rw [hstops]
      exact nofun

theorem local_spawn : Local { self := newInstance id cwd label created now, file }
    (spawnInstance file id cwd label created now) := by
  have hsave := @Local.save _ _ (@Local.refl { self := newInstance id cwd label created now, file })
    (newInstance id cwd label created now).record rfl
  cases created with
  | true => exact hsave.suspend _
  | false => exact hsave.failSpawn now

end Spawn

/-- A step of the supervisor at which stops end alone. -/
def AloneNext (s : SupervisorState) (e : SupervisorEvent) (t : SupervisorState) : Prop :=
  SupervisorNext s e t ∧
    match e with
    | .spawn .. => True
    | .about id e => ∀ self, s.instances id = some self → StopsAlone { self, file := s.file } e

/-- Each instance is under its own id, and its stops are kept. -/
def Supervised (s : SupervisorState) : Prop :=
  ∀ id self, s.instances id = some self →
    self.record.id = id ∧ StopsKept s.radiusEnabled { self, file := s.file }

theorem Supervised.put {s : SupervisorState} (h : Supervised s) {id : String} {v w : InstanceView}
    (hlocal : Local v w) (hid : v.self.record.id = id) (hfile : v.file = s.file)
    (hkept : StopsKept s.radiusEnabled w) : Supervised (s.put id w) := by
  intro id' self hself
  have hself : Function.update s.instances id (some w.self) id' = some self := hself
  by_cases heq : id' = id
  · subst heq
    rw [Function.update_self] at hself
    cases hself
    exact ⟨hlocal.id_eq.trans hid, hkept⟩
  · rw [Function.update_of_ne heq] at hself
    obtain ⟨hid', hkept'⟩ := h id' self hself
    refine ⟨hid', hkept'.of_other ?_⟩
    intro r hr hr'
    rw [← hfile]
    apply hlocal.others r hr
    rw [hr', hid', hid]
    exact heq

theorem Supervised.step {s t : SupervisorState} {e : SupervisorEvent} (h : Supervised s)
    (hnext : AloneNext s e t) : Supervised t := by
  obtain ⟨hnext, halone⟩ := hnext
  cases hnext with
  | spawn => exact h.put local_spawn rfl rfl stopsKept_spawn
  | about hself hnext =>
    obtain ⟨hid, hkept⟩ := h _ _ hself
    exact h.put hnext.local hid rfl (hkept.step hnext (halone _ hself))

/-- After a `stopInstance` of an instance has ended, the file has no record of it; after one
was fulfilled, none of its registrations is connected. -/
theorem stopped_gone {radiusEnabled : Bool} {file : List InstanceRecord}
    {es : List SupervisorEvent} {s : SupervisorState}
    (h : Run AloneNext (.start radiusEnabled file) es s) {id : String} {self : Instance}
    (hself : s.instances id = some self) :
    (self.stops ≠ [] → ∀ r ∈ s.file, r.id ≠ id) ∧ (true ∈ self.stops → self.connected = []) := by
  have hstart : Supervised (.start radiusEnabled file) := fun _ _ hself => nomatch hself
  have hsupervised : Supervised s := h.invariant hstart fun _ _ _ hnext h => h.step hnext
  obtain ⟨hid, hkept⟩ := hsupervised id self hself
  refine ⟨fun hstops => ?_, hkept.disconnected⟩
  rw [← hid]
  exact (hkept.gone hstops).absent

/-- An instance is spawned, registers, and is stopped while a command is unanswered. -/
def stoppedEvents : List SupervisorEvent :=
  [.spawn "a" "/" none true "0", .about "a" (.fulfilled (.spawnSync false) .other none "1"),
    .about "a" (.fulfilled .spawnRegister .other (some "p") "2"),
    .about "a" (.rpc true), .about "a" (.stop "3"),
    .about "a" (.fulfilled (.cleaning .stopInstance (.disconnecting (some "p") true)) .other none
      "4"),
    .about "a" (.childExit "5"), .about "a" (.rejected (.rpc true true) "6"),
    .about "a" (.fulfilled (.cleaning .stopInstance .disposing) .other none "7")]

theorem stopped_gone_example :
    ∃ s self, Run AloneNext (.start true []) stoppedEvents s ∧
      s.instances "a" = some self ∧ self.stops = [true] ∧ (∀ r ∈ s.file, r.id ≠ "a") ∧
      self.connected = [] := by
  have hrun : Run AloneNext (.start true []) stoppedEvents _ :=
    .cons ⟨.spawn rfl, trivial⟩ <|
    .cons ⟨.about rfl (.spawnSynced (by decide)), fun _ _ => trivial⟩ <|
    .cons ⟨.about rfl (.registered (by decide) rfl (by decide)),
      fun _ hself => by cases hself; exact fun _ hcall => nomatch List.mem_singleton.mp hcall⟩ <|
    .cons ⟨.about rfl .rpc, fun _ _ => trivial⟩ <| .cons ⟨.about rfl .stop, fun _ _ => trivial⟩ <|
    .cons ⟨.about rfl (.disconnected (by decide)), fun _ _ => trivial⟩ <|
    .cons ⟨.about rfl .childExit, fun _ _ => trivial⟩ <|
    .cons ⟨.about rfl (.rpcFailed (by decide)), fun _ _ => trivial⟩ <|
    .cons ⟨.about rfl (.disposed (by decide) rfl),
      fun _ hself => by cases hself; exact fun c hc => List.mem_singleton.mp hc ▸ rfl⟩ <| .nil _
  have hgone := @stopped_gone true [] _ _ hrun "a" _ rfl
  exact ⟨_, _, hrun, rfl, rfl, hgone.1 (by decide), hgone.2 (by decide)⟩

/-- While `spawnInstance` waits for the registration the instance is stopped; then the
registration is made. -/
def returningEvents : List SupervisorEvent :=
  [.spawn "a" "/" none true "0", .about "a" (.fulfilled (.spawnSync false) .other none "1"),
    .about "a" (.stop "2"), .about "a" (.childExit "3"),
    .about "a" (.fulfilled (.cleaning .stopInstance .disposing) .other none "4"),
    .about "a" (.fulfilled .spawnRegister .other (some "p") "5")]

/-- The record is written again. -/
theorem stopped_returns :
    ∃ s self r, Run SupervisorNext (.start true []) returningEvents s ∧
      s.instances "a" = some self ∧ self.stops = [true] ∧
      r ∈ s.file ∧ r.id = "a" ∧ r.status = .online ∧ self.connected = ["p"] := by
  have hrun : Run SupervisorNext (.start true []) returningEvents _ :=
    .cons (.spawn rfl) <| .cons (.about rfl (.spawnSynced (by decide))) <|
    .cons (.about rfl .stop) <| .cons (.about rfl .childExit) <|
    .cons (.about rfl (.disposed (by decide) rfl)) <|
    .cons (.about rfl (.registered (by decide) rfl (by decide))) <| .nil _
  exact ⟨_, _, _, hrun, rfl, rfl, List.mem_cons_self, rfl, rfl, rfl⟩

end PieLab.Orchestrator

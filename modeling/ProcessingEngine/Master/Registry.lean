import ProcessingEngine.Common.Types
import ProcessingEngine.Lib.HashMap

/-!
# The worker registry

`master/registry.rs`.  A worker is filed under its own id, which the operations
keep.
-/

namespace ProcessingEngine

open Lib

theorem Registry.keyed_empty {Uuid : Type} [DecidableEq Uuid] :
    ∀ id (info : WorkerInfo Uuid), (∅ : HashMap Uuid (WorkerInfo Uuid)).lookup id = some info →
      info.id = id := by simp

structure Registry (Uuid : Type) [DecidableEq Uuid] where
  workers : HashMap Uuid (WorkerInfo Uuid) := ∅
  keyed : ∀ id info, workers.lookup id = some info → info.id = id := by exact Registry.keyed_empty

namespace Registry

variable {Uuid : Type} [DecidableEq Uuid]

def addWorker (registry : Registry Uuid) (info : WorkerInfo Uuid) : Registry Uuid where
  workers := registry.workers.insert info.id info
  keyed id w h := by
    by_cases hid : id = info.id
    · subst hid
      rw [AList.lookup_insert] at h
      rw [Option.some.inj h]
    · rw [AList.lookup_insert_ne hid] at h
      exact registry.keyed id w h

def removeWorker (registry : Registry Uuid) (workerId : Uuid) : Registry Uuid where
  workers := registry.workers.erase workerId
  keyed id w h := by
    by_cases hid : id = workerId
    · subst hid
      rw [AList.lookup_erase] at h
      cases h
    · rw [AList.lookup_erase_ne hid] at h
      exact registry.keyed id w h

/-- Update the entries by a function that keeps their ids. -/
def mapWorkers (registry : Registry Uuid) (f : WorkerInfo Uuid → WorkerInfo Uuid)
    (hf : ∀ w, (f w).id = w.id) : Registry Uuid where
  workers := registry.workers.mapValues f
  keyed id w h := by
    rw [HashMap.lookup_mapValues, Option.map_eq_some_iff] at h
    obtain ⟨v, hv, rfl⟩ := h
    rw [hf, registry.keyed id v hv]

def updateStatus (registry : Registry Uuid) (workerId : Uuid) (status : WorkerStatus) :
    Registry Uuid where
  workers := registry.workers.modify workerId fun w => { w with status }
  keyed id w h := by
    by_cases hid : id = workerId
    · subst hid
      rw [HashMap.lookup_modify_self, Option.map_eq_some_iff] at h
      obtain ⟨v, hv, rfl⟩ := h
      exact registry.keyed id v hv
    · rw [HashMap.lookup_modify_ne _ hid] at h
      exact registry.keyed id w h

/-- `now` is `SystemTime::now()`. -/
def recordHeartbeat (registry : Registry Uuid) (workerId : Uuid) (metrics : WorkerMetrics Uuid)
    (address : String) (now : Nat) : Registry Uuid :=
  match registry.workers.lookup workerId with
  | some worker =>
      registry.addWorker
        { worker with id := workerId, lastHeartbeat := now, metrics, status := .active }
  | none =>
      registry.addWorker
        { id := workerId, address, status := .active, lastHeartbeat := now, metrics }

def getWorker (registry : Registry Uuid) (workerId : Uuid) : Option (WorkerInfo Uuid) :=
  registry.workers.lookup workerId

def availableWorkers (registry : Registry Uuid) : List (WorkerInfo Uuid) :=
  registry.workers.values.filter fun w => w.status == .active

/-- `duration_since` fails when the heartbeat lies in the future. -/
def markStaleWorkers (registry : Registry Uuid) (grace now : Nat) : Registry Uuid :=
  registry.mapWorkers
    (fun w =>
      if w.status == .active && w.lastHeartbeat ≤ now && grace < now - w.lastHeartbeat then
        { w with status := .down }
      else w)
    fun w => by split_ifs <;> rfl

/-! ### Looking a worker up -/

theorem getWorker_addWorker_self (registry : Registry Uuid) (info : WorkerInfo Uuid) :
    (registry.addWorker info).getWorker info.id = some info :=
  AList.lookup_insert _

theorem getWorker_addWorker_ne {registry : Registry Uuid} {info : WorkerInfo Uuid} {id : Uuid}
    (h : id ≠ info.id) : (registry.addWorker info).getWorker id = registry.getWorker id :=
  AList.lookup_insert_ne h

theorem getWorker_recordHeartbeat_ne {registry : Registry Uuid} {workerId id : Uuid}
    (h : id ≠ workerId) (metrics : WorkerMetrics Uuid) (address : String) (now : Nat) :
    (registry.recordHeartbeat workerId metrics address now).getWorker id =
      registry.getWorker id := by
  unfold recordHeartbeat
  cases registry.workers.lookup workerId with
  | none => exact getWorker_addWorker_ne h
  | some worker => exact getWorker_addWorker_ne h

/-- A worker that is not active is left as it is. -/
theorem getWorker_markStaleWorkers {registry : Registry Uuid} {id : Uuid} {info : WorkerInfo Uuid}
    (h : registry.getWorker id = some info) (hinactive : info.status ≠ .active) (grace now : Nat) :
    (registry.markStaleWorkers grace now).getWorker id = some info := by
  have hlookup : registry.workers.lookup id = some info := h
  show (registry.workers.mapValues _).lookup id = some info
  rw [HashMap.lookup_mapValues, hlookup]
  simp [hinactive]

theorem mem_availableWorkers {registry : Registry Uuid} {w : WorkerInfo Uuid} :
    w ∈ registry.availableWorkers ↔
      registry.getWorker w.id = some w ∧ w.status = .active := by
  rw [availableWorkers, List.mem_filter, HashMap.mem_values_iff_lookup, beq_iff_eq]
  refine and_congr_left fun _ => ⟨?_, fun h => ⟨w.id, h⟩⟩
  rintro ⟨id, h⟩
  rw [getWorker, registry.keyed id w h]
  exact h

/-- The ids of the available workers are distinct. -/
theorem availableWorkers_nodup (registry : Registry Uuid) :
    (registry.availableWorkers.map WorkerInfo.id).Nodup := by
  have hkeys : registry.workers.values.map WorkerInfo.id = registry.workers.keys := by
    rw [HashMap.values, List.map_map, AList.keys, List.keys]
    refine List.map_congr_left fun e he => ?_
    exact registry.keyed e.1 e.2 (AList.mem_lookup_iff.mpr he)
  refine List.Nodup.sublist (List.Sublist.map _ List.filter_sublist) ?_
  rw [hkeys]
  exact registry.workers.keys_nodup

end Registry
end ProcessingEngine

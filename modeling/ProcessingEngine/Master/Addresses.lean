import ProcessingEngine.Master.Reschedule
import ProcessingEngine.Master.Service

/-!
# The addresses of the workers

`worker/mod.rs` and `worker/monitor.rs`, as far as they speak to the master.  A
worker registers with the address it advertises and sends heartbeats with the one
it listens on.  The master takes the address of a heartbeat when it does not know
the worker, as after a restart, so the addresses it has are the advertised ones
exactly as long as no such heartbeat comes from a worker of which the two differ
(`run_addressed_iff`).
-/

namespace ProcessingEngine

open Lib

variable {Uuid : Type} [DecidableEq Uuid]

structure Worker (Uuid : Type) where
  id : Uuid
  listenAddr : String
  advertiseAddr : String
  deriving DecidableEq

namespace Worker

/-- `Worker::new`, with the port that was found free. -/
def new (bindHost advertiseHost : String) (id : Uuid) (chosenPort : Nat) : Worker Uuid where
  id
  listenAddr := bindHost ++ ":" ++ toString chosenPort
  advertiseAddr := advertiseHost ++ ":" ++ toString chosenPort

/-- What `register` sends. -/
def registration (w : Worker Uuid) (now : Nat) : WorkerInfo Uuid where
  id := w.id
  address := w.advertiseAddr
  status := .active
  lastHeartbeat := now
  metrics := {}

/-- What `spawn_heartbeat` sends, again and again. -/
def heartbeat (w : Worker Uuid) (metrics : WorkerMetrics Uuid) (now : Nat) :
    HeartbeatMessage Uuid where
  workerId := w.id
  address := w.listenAddr
  metrics
  timestamp := now

omit [DecidableEq Uuid] in
/-- The two addresses agree when the two hosts do. -/
theorem new_addresses_eq_iff {bindHost advertiseHost : String} {id : Uuid} {chosenPort : Nat} :
    (new bindHost advertiseHost id chosenPort).listenAddr =
        (new bindHost advertiseHost id chosenPort).advertiseAddr ↔ bindHost = advertiseHost := by
  show bindHost ++ ":" ++ toString chosenPort = advertiseHost ++ ":" ++ toString chosenPort ↔ _
  rw [String.append_left_inj, String.append_left_inj]

end Worker

/-- A message to the master, when the incident is one, comes from a worker of the
fleet. -/
def Incident.SentBy (fleet : List (Worker Uuid)) : Incident Uuid → Prop
  | .event (.register info) => ∃ w ∈ fleet, ∃ now, info = w.registration now
  | .event (.heartbeat message _) => ∃ w ∈ fleet, ∃ metrics now, message = w.heartbeat metrics now
  | _ => True

namespace Service

/-- Every worker of the fleet that the master has in its registry is there with
the address it advertises, and so was it whenever a task was sent to it. -/
structure Addressed (fleet : List (Worker Uuid)) (s : Service Uuid) : Prop where
  registry : ∀ w ∈ fleet, ∀ info, s.system.master.registry.getWorker w.id = some info →
    info.address = w.advertiseAddr
  dispatched : ∀ w ∈ fleet, ∀ d ∈ s.system.dispatched, d.2.id = w.id →
    d.2.address = w.advertiseAddr

/-- A heartbeat is from a worker that the master knows, or that listens on the
address it advertises. -/
def HeartbeatFits (fleet : List (Worker Uuid)) (s : Service Uuid) : Incident Uuid → Prop
  | .event (.heartbeat message _) =>
      (s.system.master.registry.getWorker message.workerId).isSome ∨
        ∀ w ∈ fleet, w.id = message.workerId → w.listenAddr = w.advertiseAddr
  | _ => True

instance decidableHeartbeatFits (fleet : List (Worker Uuid)) (s : Service Uuid) :
    ∀ incident, Decidable (s.HeartbeatFits fleet incident)
  | .event (.heartbeat message _) => inferInstanceAs (Decidable
      (((s.system.master.registry.getWorker message.workerId).isSome : Prop) ∨
        ∀ w ∈ fleet, w.id = message.workerId → w.listenAddr = w.advertiseAddr))
  | .event (.submit _ _ _ _) => isTrue trivial
  | .event (.register _) => isTrue trivial
  | .event (.collect _) => isTrue trivial
  | .event (.snapshot _) => isTrue trivial
  | .event (.advance _) => isTrue trivial
  | .event (.complete _) => isTrue trivial
  | .crash _ _ => isTrue trivial
  | .restart => isTrue trivial
  | .interrupt _ => isTrue trivial

end Service

/-! ### What an event does to an address -/

namespace Registry

variable {registry : Registry Uuid} {id : Uuid} {info : WorkerInfo Uuid}

theorem id_of_getWorker (h : registry.getWorker id = some info) : info.id = id :=
  registry.keyed id info h

/-- The address of a worker after its heartbeat. -/
theorem address_recordHeartbeat (registry : Registry Uuid) (workerId : Uuid)
    (metrics : WorkerMetrics Uuid) (address : String) (now : Nat) :
    ((registry.recordHeartbeat workerId metrics address now).getWorker workerId).map
        WorkerInfo.address =
      some (((registry.getWorker workerId).map WorkerInfo.address).getD address) := by
  have hget : registry.getWorker workerId = registry.workers.lookup workerId := rfl
  rw [hget]
  unfold recordHeartbeat
  cases registry.workers.lookup workerId with
  | none => exact congrArg (Option.map WorkerInfo.address) (getWorker_addWorker_self registry _)
  | some worker =>
      exact congrArg (Option.map WorkerInfo.address) (getWorker_addWorker_self registry _)

theorem address_markStaleWorkers (registry : Registry Uuid) (grace now : Nat) (id : Uuid) :
    ((registry.markStaleWorkers grace now).getWorker id).map WorkerInfo.address =
      (registry.getWorker id).map WorkerInfo.address := by
  show ((registry.workers.mapValues _).lookup id).map _ = (registry.workers.lookup id).map _
  rw [HashMap.lookup_mapValues, Option.map_map]
  congr 1
  funext w
  simp only [Function.comp]
  split
  · rfl
  · rfl

end Registry

namespace System

variable {env : MasterEnv Uuid} {s s' : System Uuid}

/-- A task is sent to the address in the registry. -/
theorem mem_dispatched {e : Event Uuid} (h : s.step env e = some s')
    {d : Task Uuid × WorkerInfo Uuid} (hd : d ∈ s'.dispatched) :
    d ∈ s.dispatched ∨ s.master.registry.getWorker d.2.id = some d.2 := by
  cases e with
  | submit jobId dag order stagesOrder =>
      obtain ⟨-, ⟨_, store, -, rfl⟩ | ⟨tasks, store, jobs, rfl, rfl, -, rfl⟩⟩ := submit_cases h
      · exact Or.inl hd
      · exact Or.inl hd
  | register info =>
      cases h
      exact Or.inl hd
  | heartbeat message now =>
      cases h
      exact Or.inl hd
  | collect now =>
      cases h
      exact Or.inl hd
  | snapshot order =>
      obtain rfl := snapshot_cases h
      exact Or.inl hd
  | complete result =>
      cases h
      exact Or.inl hd
  | advance i =>
      obtain ⟨task, rest, phase, hloop, hphase⟩ := advance_cases h
      cases phase with
      | idle =>
          obtain ⟨_, _, _, rfl⟩ := hphase
          exact Or.inl hd
      | selected worker =>
          subst hphase
          exact Or.inl hd
      | assigned worker =>
          subst hphase
          exact Or.inl hd
      | persisted worker =>
          subst hphase
          exact Or.inl hd
      | running worker =>
          subst hphase
          rcases List.mem_append.mp hd with hd | hd
          · exact Or.inl hd
          · rw [Option.mem_toList, Option.map_eq_some_iff] at hd
            obtain ⟨info, hinfo, rfl⟩ := hd
            rw [Registry.id_of_getWorker hinfo]
            exact Or.inr hinfo

end System

namespace Service

variable {env : MasterEnv Uuid} {fleet : List (Worker Uuid)} {s s' : Service Uuid}

/-- A master without registry. -/
theorem addressed_of_empty (h : s.system.master.registry = {})
    (hsent : s.system.dispatched = []) : s.Addressed fleet := by
  constructor
  · intro w _ info hinfo
    rw [h] at hinfo
    cases hinfo
  · intro w _ d hd
    rw [hsent] at hd
    cases hd

/-- A message changes the entry of its sender alone. -/
theorem addresses_iff_sender (hids : (fleet.map Worker.id).Nodup) {before after : Registry Uuid}
    (hbefore : ∀ w ∈ fleet, ∀ info, before.getWorker w.id = some info →
      info.address = w.advertiseAddr)
    {sender : Worker Uuid} (hsender : sender ∈ fleet)
    (hother : ∀ id, id ≠ sender.id → after.getWorker id = before.getWorker id) :
    (∀ w ∈ fleet, ∀ info, after.getWorker w.id = some info → info.address = w.advertiseAddr) ↔
      ∀ info, after.getWorker sender.id = some info → info.address = sender.advertiseAddr := by
  constructor
  · intro h
    exact h sender hsender
  · intro h w hw info hinfo
    by_cases hid : w.id = sender.id
    · obtain rfl : w = sender := List.inj_on_of_nodup_map hids hw hsender hid
      exact h info hinfo
    · rw [hother w.id hid] at hinfo
      exact hbefore w hw info hinfo

/-- A registration brings the address that the worker advertises. -/
theorem addresses_register (hids : (fleet.map Worker.id).Nodup) {registry : Registry Uuid}
    (hregistry : ∀ w ∈ fleet, ∀ info, registry.getWorker w.id = some info →
      info.address = w.advertiseAddr)
    {sender : Worker Uuid} (hsender : sender ∈ fleet) (now : Nat) :
    ∀ w ∈ fleet, ∀ info, (registry.addWorker (sender.registration now)).getWorker w.id = some info →
      info.address = w.advertiseAddr := by
  rw [addresses_iff_sender hids hregistry hsender fun id hid =>
    Registry.getWorker_addWorker_ne hid]
  intro info hinfo
  have hself := Registry.getWorker_addWorker_self registry (sender.registration now)
  cases hself.symm.trans hinfo
  rfl

/-- A heartbeat leaves the address of its sender as it was, and brings the one it
listens on when there was none. -/
theorem addresses_heartbeat (hids : (fleet.map Worker.id).Nodup) {registry : Registry Uuid}
    (hregistry : ∀ w ∈ fleet, ∀ info, registry.getWorker w.id = some info →
      info.address = w.advertiseAddr)
    {sender : Worker Uuid} (hsender : sender ∈ fleet) (metrics : WorkerMetrics Uuid) (now : Nat) :
    (∀ w ∈ fleet, ∀ info,
        (registry.recordHeartbeat sender.id metrics sender.listenAddr now).getWorker w.id =
          some info → info.address = w.advertiseAddr) ↔
      (registry.getWorker sender.id).isSome ∨
        ∀ w ∈ fleet, w.id = sender.id → w.listenAddr = w.advertiseAddr := by
  rw [addresses_iff_sender hids hregistry hsender fun id hid =>
    Registry.getWorker_recordHeartbeat_ne hid metrics sender.listenAddr now]
  have haddress := Registry.address_recordHeartbeat registry sender.id metrics sender.listenAddr now
  rw [Option.map_eq_some_iff] at haddress
  obtain ⟨info, hinfo, haddress⟩ := haddress
  simp only [hinfo, Option.some.injEq, forall_eq']
  rw [haddress]
  cases hknown : registry.getWorker sender.id with
  | some old => exact iff_of_true (hregistry sender hsender old hknown) (Or.inl rfl)
  | none =>
      show sender.listenAddr = sender.advertiseAddr ↔ _
      constructor
      · intro h
        refine Or.inr fun w hw hid => ?_
        obtain rfl : w = sender := List.inj_on_of_nodup_map hids hw hsender hid
        exact h
      · intro h
        rcases h with h | h
        · cases h
        · exact h sender hsender rfl

/-- The addresses after an event that the fleet sent, or that is no message. -/
theorem registry_event (hids : (fleet.map Worker.id).Nodup) (hs : s.Addressed fleet)
    {e : Event Uuid} {system : System Uuid} (hstep : s.system.step env e = some system)
    (hsent : (Incident.event e).SentBy fleet) :
    (∀ w ∈ fleet, ∀ info, system.master.registry.getWorker w.id = some info →
      info.address = w.advertiseAddr) ↔ s.HeartbeatFits fleet (.event e) := by
  have hregistry := System.step_registry hstep
  rw [hregistry]
  cases e with
  | submit jobId dag order stagesOrder => exact iff_of_true hs.registry trivial
  | snapshot order => exact iff_of_true hs.registry trivial
  | advance i => exact iff_of_true hs.registry trivial
  | complete result => exact iff_of_true hs.registry trivial
  | collect now =>
      refine iff_of_true (fun w hw info hinfo => ?_) trivial
      have haddress := Registry.address_markStaleWorkers s.system.master.registry
        (env.heartbeatIntervalMs * 2) now w.id
      rw [hinfo, Option.map_some, eq_comm, Option.map_eq_some_iff] at haddress
      obtain ⟨old, hold, heq⟩ := haddress
      rw [← heq]
      exact hs.registry w hw old hold
  | register info =>
      obtain ⟨sender, hsender, now, rfl⟩ := hsent
      exact iff_of_true (addresses_register hids hs.registry hsender now) trivial
  | heartbeat message now =>
      obtain ⟨sender, hsender, metrics, sentAt, rfl⟩ := hsent
      exact addresses_heartbeat hids hs.registry hsender metrics now

/-- One step keeps the addresses exactly when the heartbeat fits. -/
theorem step_addressed_iff (hids : (fleet.map Worker.id).Nodup) {incident : Incident Uuid}
    (hsent : incident.SentBy fleet) (hs : s.Addressed fleet)
    (hstep : s.step env incident = some s') :
    s'.Addressed fleet ↔ s.HeartbeatFits fleet incident := by
  cases incident with
  | event e =>
      simp only [step] at hstep
      split_ifs at hstep
      obtain ⟨system, hsystem, rfl⟩ := Option.map_eq_some_iff.mp hstep
      have hiff := registry_event hids hs hsystem hsent
      constructor
      · exact fun h => hiff.mp h.registry
      · intro h
        refine ⟨hiff.mpr h, fun w hw d hd hid => ?_⟩
        rcases System.mem_dispatched hsystem hd with hold | hget
        · exact hs.dispatched w hw d hold hid
        · exact hs.registry w hw d.2 (hid ▸ hget)
  | crash e k =>
      simp only [step] at hstep
      split_ifs at hstep
      cases hstep
      exact iff_of_true (addressed_of_empty rfl rfl) trivial
  | restart =>
      simp only [step] at hstep
      split_ifs at hstep
      cases hstep
      exact iff_of_true (addressed_of_empty rfl rfl) trivial
  | interrupt k =>
      simp only [step] at hstep
      split_ifs at hstep
      cases hstep
      exact iff_of_true (addressed_of_empty rfl rfl) trivial

/-- In a run from a new master the addresses are the advertised ones in every
state exactly when every heartbeat fits. -/
theorem run_addressed_iff (hids : (fleet.map Worker.id).Nodup) {incidents : List (Incident Uuid)}
    (hsent : ∀ incident ∈ incidents, incident.SentBy fleet)
    (hrun : run (Service.step env) {} incidents = some s) :
    (∀ before after t, incidents = before ++ after →
        run (Service.step env) {} before = some t → t.Addressed fleet) ↔
      Along (Service.step env) (HeartbeatFits fleet) {} incidents := by
  have hkeep : ∀ (s : Service Uuid) a s', s.Addressed fleet → a.SentBy fleet →
      s.HeartbeatFits fleet a → s.step env a = some s' → s'.Addressed fleet :=
    fun _ _ _ hs ha hG hstep => (step_addressed_iff hids ha hs hstep).mpr hG
  have hbreak : ∀ (s : Service Uuid) a s', s.Addressed fleet → a.SentBy fleet →
      ¬s.HeartbeatFits fleet a → s.step env a = some s' → ¬s'.Addressed fleet :=
    fun _ _ _ hs ha hG hstep haddressed => hG ((step_addressed_iff hids ha hs hstep).mp haddressed)
  have hsentAlong : Along (Service.step env) (fun _ a => a.SentBy fleet) {} incidents :=
    along_of_forall hsent
  exact along_iff_reached (fun _ h => h) hkeep hbreak (addressed_of_empty rfl rfl) hsentAlong hrun

/-! ### A worker that listens on all interfaces -/

def boundWorker : Worker Path := .new "0.0.0.0" "10.0.0.5" ["w"] 9000

def openWorker : Worker Path := .new "10.0.0.6" "10.0.0.6" ["v"] 9000

/-- The master stops and starts again. -/
def stopAndStart : List (Incident Path) := [.crash (.collect 0) 0, .restart]

def addressesAt (incidents : List (Incident Path)) : Option (List (Option String)) :=
  (run (Service.step System.pathEnv) {} incidents).map fun s =>
    [boundWorker, openWorker].map fun w =>
      (s.system.master.registry.getWorker w.id).map WorkerInfo.address

def reregistered : List (Incident Path) :=
  [.event (.register (boundWorker.registration 0)),
    .event (.heartbeat (boundWorker.heartbeat {} 1) 1)] ++ stopAndStart ++
    [.event (.heartbeat (openWorker.heartbeat {} 2) 2),
      .event (.register (boundWorker.registration 3)),
      .event (.heartbeat (boundWorker.heartbeat {} 4) 4)]

theorem run_addressed_iff_reregistered :
    ∃ s, run (Service.step System.pathEnv) {} reregistered = some s ∧
      s.Addressed [boundWorker, openWorker] := by
  have hsent : ∀ incident ∈ reregistered, incident.SentBy [boundWorker, openWorker] := by
    simp only [reregistered, stopAndStart, List.forall_mem_append, List.forall_mem_cons,
      Incident.SentBy]
    simp only [List.not_mem_nil, IsEmpty.forall_iff, implies_true, and_true]
    exact ⟨⟨⟨_, List.mem_cons_self, 0, rfl⟩, ⟨_, List.mem_cons_self, {}, 1, rfl⟩⟩,
      ⟨_, List.mem_cons_of_mem _ List.mem_cons_self, {}, 2, rfl⟩,
      ⟨_, List.mem_cons_self, 3, rfl⟩, ⟨_, List.mem_cons_self, {}, 4, rfl⟩⟩
  have hsome : (run (Service.step System.pathEnv) {} reregistered).isSome := by decide +kernel
  obtain ⟨s, hs⟩ := Option.isSome_iff_exists.mp hsome
  exact ⟨s, hs, (run_addressed_iff (by decide +kernel) hsent hs).mpr (by decide +kernel)
    reregistered [] s (List.append_nil _).symm hs⟩

/-- After the restart the heartbeat comes before a registration. -/
theorem heartbeat_replaces_address :
    addressesAt ([.event (.register (boundWorker.registration 0)),
        .event (.heartbeat (boundWorker.heartbeat {} 1) 1)] ++ stopAndStart ++
        [.event (.heartbeat (boundWorker.heartbeat {} 2) 2)]) =
      some [some "0.0.0.0:9000", none] ∧ boundWorker.advertiseAddr = "10.0.0.5:9000" := by
  decide +kernel

end Service
end ProcessingEngine

import ProcessingEngine.Master.Atomic

/-!
# The master across crashes

A `Service` is a master that runs or has stopped.  It stops between two writes
of an event, or of a start, and the next start has only the tables to go by.
-/

namespace ProcessingEngine

open Lib

variable {Uuid : Type} [DecidableEq Uuid]

/-- `accepted` are the jobs whose submission was answered with their id. -/
structure Service (Uuid : Type) [DecidableEq Uuid] where
  system : System Uuid := {}
  running : Bool := true
  accepted : List Uuid := []

/-- The master stops after `k` writes of an event, or of a start. -/
inductive Incident (Uuid : Type) where
  | event (e : Event Uuid)
  | crash (e : Event Uuid) (k : Nat)
  | restart
  | interrupt (k : Nat)

/-- The task of which the next section of the loop marks the job as running. -/
def System.marking (s : System Uuid) (i : Nat) : Option (Task Uuid) :=
  match s.loops[i]? with
  | some ⟨task :: _, .persisted _⟩ => some task
  | _ => none

/-- The writes of an event. -/
def Event.writes (env : MasterEnv Uuid) (s : System Uuid) : Event Uuid → List (Attempted Uuid)
  | .submit jobId dag order stagesOrder =>
      match dag.validate with
      | .error _ => []
      | .ok () => Master.submitWrites stagesOrder dag jobId
          (dag.materializeTasks env.newV5 order jobId)
  | .register _ => []
  | .heartbeat message now =>
      [⟨false, .workerMetrics message.workerId .active message.metrics now⟩]
  | .collect _ => []
  | .snapshot _ => []
  | .advance i =>
      match s.loops[i]? with
      | some ⟨task :: _, .assigned worker⟩ =>
          [⟨false, .taskStatus task.taskId task.jobId (.assigned worker)⟩]
      | some ⟨task :: _, .persisted _⟩ => s.master.runningWrites task
      | _ => []
  | .complete result => s.master.completeWrites result

theorem System.step_store {env : MasterEnv Uuid} {s s' : System Uuid} {e : Event Uuid}
    (h : s.step env e = some s') :
    s'.master.store = attempt env.serde (e.writes env s) s.master.store := by
  cases e with
  | submit jobId dag order stagesOrder =>
      have hstore : s'.master.store =
          (s.master.submitJob env order stagesOrder dag jobId).2.store := by
        obtain ⟨-, ⟨_, store, hsub, rfl⟩ | ⟨tasks, store, jobs, rfl, rfl, hsub, rfl⟩⟩ :=
          submit_cases h
        · rw [hsub]
        · rw [hsub]
      rw [hstore, Event.writes]
      cases hvalid : dag.validate with
      | error message =>
          rw [Master.submitJob_invalid hvalid]
          rfl
      | ok => exact Master.submitJob_store order stagesOrder hvalid jobId
  | register info =>
      cases h
      rfl
  | heartbeat message now =>
      cases h
      rw [Event.writes, attempt_lax]
      rfl
  | collect now =>
      cases h
      rfl
  | snapshot order =>
      obtain rfl := snapshot_cases h
      rfl
  | advance i =>
      obtain ⟨task, rest, phase, hloop, hphase⟩ := advance_cases h
      rw [Event.writes, hloop]
      cases phase with
      | idle =>
          obtain ⟨_, _, _, rfl⟩ := hphase
          rfl
      | selected worker =>
          subst hphase
          rfl
      | assigned worker =>
          subst hphase
          dsimp only
          rw [attempt_lax]
          rfl
      | persisted worker =>
          subst hphase
          exact Master.markRunning_store task
      | running worker =>
          subst hphase
          rfl
  | complete result =>
      cases h
      exact Master.completeTask_store result

namespace Service

/-- The jobs accepted once an event has been served. -/
def acceptedBy (env : MasterEnv Uuid) (s : Service Uuid) : Event Uuid → List Uuid
  | .submit jobId dag order stagesOrder =>
      match (s.system.master.submitJob env order stagesOrder dag jobId).1 with
      | .ok _ => jobId :: s.accepted
      | .error _ => s.accepted
  | _ => s.accepted

/-- The ids of the tasks of a submission are not in use. -/
def newIds (env : MasterEnv Uuid) (s : Service Uuid) : Event Uuid → Bool
  | .submit jobId dag order _ =>
      ((dag.materializeTasks env.newV5 order jobId).map Task.taskId).all fun id =>
        (s.system.master.store.tasks.lookup id).isNone
  | _ => true

def step (env : MasterEnv Uuid) (s : Service Uuid) : Incident Uuid → Option (Service Uuid)
  | .event e =>
      if s.running && s.newIds env e then
        (s.system.step env e).map fun system =>
          { s with system, accepted := s.acceptedBy env e }
      else none
  | .crash e k =>
      if s.running && s.newIds env e && (s.system.step env e).isSome then
        let store := attempt env.serde ((e.writes env s.system).take k) s.system.master.store
        some { s with system := { master := { store } }, running := false }
      else none
  | .restart =>
      if s.running then none
      else some { s with
        system := { master := Master.new env s.system.master.store }
        running := true }
  | .interrupt k =>
      if s.running then none
      else
        let store := attempt env.serde
          ((Master.requeueWrites env s.system.master.store).take k) s.system.master.store
        some { s with system := { master := { store } } }

/-- A running master knows of every accepted job of which all tasks are
completed that it has succeeded. -/
def CompletionDetected (s : Service Uuid) : Prop :=
  s.running = true → ∀ jobId ∈ s.accepted, ∀ job ∈ s.system.job jobId,
    (∀ id status, job.tasks.lookup id = some status → status = .completed) →
      job.status = .succeeded

end Service

end ProcessingEngine

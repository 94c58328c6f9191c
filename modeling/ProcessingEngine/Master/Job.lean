import ProcessingEngine.Common.Dag
import ProcessingEngine.Lib.HashMap

/-!
# The state of a job

What the master keeps for each job (`JobState` of `master/mod.rs`) and how the
branches of `complete_task` update it.
-/

namespace ProcessingEngine

open Lib

structure JobState (Uuid : Type) where
  dag : DagSpecification
  status : JobStatus
  tasks : HashMap Uuid (TaskStatus Uuid) := ∅
  results : List (TaskResult Uuid) := []
  metrics : JobMetrics Uuid := {}
  error : Option String := none

/-- Update the first element satisfying `p` (`iter_mut().find(p)`). -/
def updateFirst {α : Type} (p : α → Bool) (f : α → α) : List α → List α
  | [] => []
  | a :: rest => if p a then f a :: rest else a :: updateFirst p f rest

/-- With distinct keys, the update is at the only element with the key. -/
theorem updateFirst_eq_map {α κ : Type} [DecidableEq κ] {key : α → κ} {l : List α}
    (hnodup : (l.map key).Nodup) (k : κ) (f : α → α) :
    updateFirst (fun a => key a == k) f l = l.map fun a => if key a = k then f a else a := by
  induction l with
  | nil => rfl
  | cons a l ih =>
      rw [List.map_cons, List.nodup_cons] at hnodup
      rw [updateFirst, List.map_cons]
      by_cases ha : key a = k
      · have hrest : l.map (fun a => if key a = k then f a else a) = l := by
          rw [List.map_congr_left, List.map_id]
          intro b hb
          rw [if_neg, id]
          rintro rfl
          exact hnodup.1 (ha ▸ List.mem_map_of_mem hb)
        rw [if_pos (beq_iff_eq.mpr ha), if_pos ha, hrest]
      · rw [if_neg (by simpa using ha), if_neg ha, ih hnodup.2]

namespace TaskStatus

variable {Uuid : Type}

def isCompleted : TaskStatus Uuid → Bool
  | completed => true
  | _ => false

def isFailed : TaskStatus Uuid → Bool
  | failed _ => true
  | _ => false

/-- The task is still to be done or being done. -/
def isOpen : TaskStatus Uuid → Bool
  | queued => true
  | assigned _ => true
  | running _ => true
  | _ => false

/-- The worker that a task was handed to. -/
def worker : TaskStatus Uuid → Option Uuid
  | assigned w => some w
  | running w => some w
  | _ => none

end TaskStatus

namespace JobStatus

/-- `is_terminal` of the client. -/
def isTerminal : JobStatus → Bool
  | succeeded => true
  | failed => true
  | _ => false

end JobStatus

namespace JobMetrics

variable {Uuid : Type} [DecidableEq Uuid]

/-- Recompute `pending_tasks`. -/
def withPending (m : JobMetrics Uuid) : JobMetrics Uuid :=
  { m with pendingTasks := m.totalTasks - (m.completedTasks + m.failedTasks) }

def completeStage (m : JobMetrics Uuid) (result : TaskResult Uuid) : JobMetrics Uuid :=
  { m with
    stages := updateFirst (fun s => s.stageId == result.stageId)
      (fun s =>
        { s with
          tasksCompleted := s.tasksCompleted + 1
          durationMs := s.durationMs + result.metrics.durationMs })
      m.stages }

/-- Update the aggregate of a worker, or add the given one. -/
def creditWorker (m : JobMetrics Uuid) (wid : Uuid)
    (update : WorkerAggregate Uuid → WorkerAggregate Uuid) (fresh : WorkerAggregate Uuid) :
    JobMetrics Uuid :=
  if m.workers.any fun w => w.workerId == wid then
    { m with workers := updateFirst (fun w => w.workerId == wid) update m.workers }
  else { m with workers := m.workers ++ [fresh] }

def creditCompleted (m : JobMetrics Uuid) (worker : Option Uuid) (result : TaskResult Uuid) :
    JobMetrics Uuid :=
  match worker with
  | none => m
  | some wid =>
      m.creditWorker wid
        (fun w =>
          { w with
            tasksCompleted := w.tasksCompleted + 1
            recordsProcessed := w.recordsProcessed + result.metrics.processedRecords
            cpuTimeMs := w.cpuTimeMs + result.metrics.cpuTimeMs
            wallTimeMs := w.wallTimeMs + result.metrics.wallTimeMs })
        { workerId := wid
          tasksCompleted := 1
          tasksFailed := 0
          recordsProcessed := result.metrics.processedRecords
          cpuTimeMs := result.metrics.cpuTimeMs
          wallTimeMs := result.metrics.wallTimeMs }

def creditFailed (m : JobMetrics Uuid) (worker : Option Uuid) : JobMetrics Uuid :=
  match worker with
  | none => m
  | some wid =>
      m.creditWorker wid (fun w => { w with tasksFailed := w.tasksFailed + 1 })
        { workerId := wid
          tasksCompleted := 0
          tasksFailed := 1
          recordsProcessed := 0
          cpuTimeMs := 0
          wallTimeMs := 0 }

end JobMetrics

namespace JobState

variable {Uuid : Type} [DecidableEq Uuid]

/-- The paths of the results. -/
def outputs (job : JobState Uuid) : List Path := job.results.map fun r => r.resultLocation.path

/-- The first thing `complete_task` does. -/
def recordStatus (job : JobState Uuid) (result : TaskResult Uuid) : JobState Uuid :=
  { job with tasks := job.tasks.insert result.taskId result.status }

/-- Whether some task is not completed. -/
def pending (job : JobState Uuid) : Bool :=
  job.tasks.values.any fun status => !status.isCompleted

def workerOf (job : JobState Uuid) (taskId : Uuid) : Option Uuid :=
  (job.tasks.lookup taskId).bind TaskStatus.worker

/-- The branch of a completed task, which also ends the job when it was the
last one. -/
def recordCompleted (job : JobState Uuid) (result : TaskResult Uuid) : JobState Uuid :=
  { job with
    results := job.results ++ [result]
    metrics :=
      ((({ job.metrics with completedTasks := job.metrics.completedTasks + 1 }).withPending
        ).completeStage result).creditCompleted (job.workerOf result.taskId) result
    status := if job.pending then job.status else .succeeded }

/-- The branch of a failed task. -/
def recordFailed (job : JobState Uuid) (result : TaskResult Uuid) (message : String) :
    JobState Uuid :=
  { job with
    metrics :=
      (({ job.metrics with failedTasks := job.metrics.failedTasks + 1 }).withPending
        ).creditFailed (job.workerOf result.taskId)
    status := .failed
    error := some message }

/-- The job after a result whose task row has been written. -/
def record (job : JobState Uuid) (result : TaskResult Uuid) : JobState Uuid :=
  match result.status with
  | .completed => (job.recordStatus result).recordCompleted result
  | .failed message => (job.recordStatus result).recordFailed result message
  | _ => job.recordStatus result

/-! ### What a result changes -/

theorem workerOf_recordStatus (job : JobState Uuid) (result : TaskResult Uuid) :
    (job.recordStatus result).workerOf result.taskId = result.status.worker := by
  simp [workerOf, recordStatus]

/-- The tasks change at the reported one only, for every status. -/
theorem record_tasks (job : JobState Uuid) (result : TaskResult Uuid) :
    (job.record result).tasks = job.tasks.insert result.taskId result.status := by
  unfold record
  split <;> rfl

theorem record_dag (job : JobState Uuid) (result : TaskResult Uuid) :
    (job.record result).dag = job.dag := by
  unfold record
  split <;> rfl

theorem record_results (job : JobState Uuid) (result : TaskResult Uuid) :
    (job.record result).results =
      if result.status.isCompleted then job.results ++ [result] else job.results := by
  unfold record
  cases result.status <;> rfl

/-- The metrics after a result.  No worker is credited with it: the status that named
the worker has been overwritten. -/
theorem record_metrics (job : JobState Uuid) (result : TaskResult Uuid) :
    (job.record result).metrics =
      if result.status.isCompleted then
        ({ job.metrics with
          completedTasks := job.metrics.completedTasks + 1 } : JobMetrics Uuid).withPending
            |>.completeStage result
      else if result.status.isFailed then
        ({ job.metrics with
          failedTasks := job.metrics.failedTasks + 1 } : JobMetrics Uuid).withPending
      else job.metrics := by
  unfold record
  have hworker := workerOf_recordStatus job result
  cases hstatus : result.status with
  | completed =>
      rw [hstatus] at hworker
      simp only [recordCompleted, hworker, TaskStatus.worker, JobMetrics.creditCompleted]
      rfl
  | failed message =>
      rw [hstatus] at hworker
      simp only [recordFailed, hworker, TaskStatus.worker, JobMetrics.creditFailed]
      rfl
  | _ => rfl

theorem record_workers (job : JobState Uuid) (result : TaskResult Uuid) :
    (job.record result).metrics.workers = job.metrics.workers := by
  rw [record_metrics]
  split_ifs <;> rfl

theorem record_stages (job : JobState Uuid) (result : TaskResult Uuid) :
    (job.record result).metrics.stages =
      if result.status.isCompleted then (job.metrics.completeStage result).stages
      else job.metrics.stages := by
  rw [record_metrics]
  split_ifs <;> rfl

/-- The counters after a result. -/
theorem record_counters (job : JobState Uuid) (result : TaskResult Uuid) :
    (job.record result).metrics.totalTasks = job.metrics.totalTasks ∧
      (job.record result).metrics.completedTasks =
        job.metrics.completedTasks + (if result.status.isCompleted then 1 else 0) ∧
      (job.record result).metrics.failedTasks =
        job.metrics.failedTasks + (if result.status.isFailed then 1 else 0) ∧
      (job.record result).metrics.pendingTasks =
        if result.status.isCompleted || result.status.isFailed then
          (job.record result).metrics.totalTasks -
            ((job.record result).metrics.completedTasks + (job.record result).metrics.failedTasks)
        else job.metrics.pendingTasks := by
  rw [record_metrics]
  cases result.status with
  | completed => exact ⟨rfl, rfl, rfl, rfl⟩
  | failed message => exact ⟨rfl, rfl, rfl, rfl⟩
  | _ => exact ⟨rfl, rfl, rfl, rfl⟩

/-- The status after a result. -/
theorem record_status (job : JobState Uuid) (result : TaskResult Uuid) :
    (job.record result).status = match result.status with
      | .completed => if (job.recordStatus result).pending then job.status else .succeeded
      | .failed _ => .failed
      | _ => job.status := by
  unfold record
  cases result.status <;> rfl

theorem pending_iff {job : JobState Uuid} :
    job.pending = false ↔ ∀ id status, job.tasks.lookup id = some status → status = .completed := by
  simp only [pending, List.any_eq_false, Bool.not_eq_true', Bool.not_eq_false,
    HashMap.mem_values_iff_lookup]
  constructor
  · intro h id status hid
    have hdone := h status ⟨id, hid⟩
    cases status <;> first | rfl | cases hdone
  · rintro h status ⟨id, hid⟩
    rw [h id status hid]
    rfl

end JobState
end ProcessingEngine

import Mathlib.Algebra.GroupWithZero.Nat
import ProcessingEngine.Master.Accounting

/-!
# Credit for work

`complete_task` looks for the worker of a task in the status of the task, after the
reported status has replaced it.  It never finds one, so no aggregate is ever made
(`JobState.record_metrics`), and the first report of a completed or failed task
that is counted is credited to nobody (`Audit.credited_iff`).
-/

namespace ProcessingEngine

open Lib

variable {Uuid : Type} [DecidableEq Uuid]

namespace System

/-- The assignment that an event makes. -/
def assignmentsBy (s : System Uuid) : Event Uuid → List ((Uuid × Uuid) × Uuid)
  | .advance i =>
      match s.loops[i]? with
      | some ⟨task :: _, .selected worker⟩ => [(task.key, worker)]
      | _ => []
  | _ => []

/-- The result that an event records. -/
def resultsBy (s : System Uuid) : Event Uuid → List (TaskResult Uuid)
  | .complete result =>
      if (s.job result.jobId).isSome && s.master.store.accepts result.taskId result.jobId then
        [result]
      else []
  | _ => []

end System

/-- The master at work, with all assignments and recorded results so far.  The last
ones come first, and a result is noted with the worker that the task was last
assigned to. -/
structure Audit (Uuid : Type) [DecidableEq Uuid] where
  system : System Uuid := {}
  assigned : List ((Uuid × Uuid) × Uuid) := []
  recorded : List (TaskResult Uuid × Option Uuid) := []

namespace Audit

def step (env : MasterEnv Uuid) (a : Audit Uuid) (e : Event Uuid) : Option (Audit Uuid) :=
  (a.system.step env e).map fun system =>
    { system
      assigned := a.system.assignmentsBy e ++ a.assigned
      recorded :=
        (a.system.resultsBy e).map (fun result => (result, a.assigned.lookup result.key)) ++
          a.recorded }

/-- How many recorded tasks of the job with such a status were last assigned to the
worker. -/
def credit (a : Audit Uuid) (jobId worker : Uuid) (p : TaskStatus Uuid → Bool) : Nat :=
  a.recorded.countP fun r => r.1.jobId = jobId && p r.1.status && r.2 = some worker

/-- The aggregates of the job add up to its counters, and each counts the tasks of
its worker. -/
structure Credited (a : Audit Uuid) (jobId : Uuid) (job : JobState Uuid) : Prop where
  completed : (job.metrics.workers.map WorkerAggregate.tasksCompleted).sum =
    job.metrics.completedTasks
  failed : (job.metrics.workers.map WorkerAggregate.tasksFailed).sum = job.metrics.failedTasks
  each : ∀ w ∈ job.metrics.workers,
    w.tasksCompleted = a.credit jobId w.workerId TaskStatus.isCompleted ∧
      w.tasksFailed = a.credit jobId w.workerId TaskStatus.isFailed

/-- The event records no completed or failed task. -/
def CountsNothing (a : Audit Uuid) (e : Event Uuid) : Prop :=
  ∀ result ∈ a.system.resultsBy e, result.status.isEnded = false

instance decidableCountsNothing (a : Audit Uuid) (e : Event Uuid) :
    Decidable (a.CountsNothing e) :=
  inferInstanceAs (Decidable (∀ result ∈ a.system.resultsBy e, result.status.isEnded = false))

end Audit

/-! ### Jobs of which nothing is counted -/

namespace JobState

/-- No aggregate and no count. -/
structure Uncounted (job : JobState Uuid) : Prop where
  workers : job.metrics.workers = []
  completed : job.metrics.completedTasks = 0
  failed : job.metrics.failedTasks = 0

theorem Uncounted.record {job : JobState Uuid} (h : job.Uncounted) {result : TaskResult Uuid}
    (hopen : result.status.isEnded = false) : (job.record result).Uncounted := by
  obtain ⟨-, hcompleted, hfailed, -⟩ := job.record_counters result
  rw [TaskStatus.isEnded, Bool.or_eq_false_iff] at hopen
  rw [hopen.1, if_neg Bool.false_ne_true, h.completed] at hcompleted
  rw [hopen.2, if_neg Bool.false_ne_true, h.failed] at hfailed
  exact ⟨(record_workers job result).trans h.workers, hcompleted, hfailed⟩

/-- A completed or failed task is counted, but in no aggregate. -/
theorem Uncounted.not_credited {job : JobState Uuid} (h : job.Uncounted)
    {result : TaskResult Uuid} (hended : result.status.isEnded = true) (a : Audit Uuid)
    (jobId : Uuid) : ¬ a.Credited jobId (job.record result) := by
  intro hcredited
  obtain ⟨-, hcompleted, hfailed, -⟩ := job.record_counters result
  have hsums := hcredited.completed
  have hsumf := hcredited.failed
  rw [record_workers, h.workers, hcompleted, h.completed] at hsums
  rw [record_workers, h.workers, hfailed, h.failed] at hsumf
  rw [TaskStatus.isEnded, Bool.or_eq_true] at hended
  rcases hended with hstatus | hstatus
  · rw [if_pos hstatus] at hsums
    cases hsums
  · rw [if_pos hstatus] at hsumf
    cases hsumf

theorem Uncounted.credited {job : JobState Uuid} (h : job.Uncounted) (a : Audit Uuid)
    (jobId : Uuid) : a.Credited jobId job := by
  constructor
  · rw [h.workers, h.completed]
    rfl
  · rw [h.failed, h.workers]
    rfl
  · rw [h.workers]
    exact List.forall_mem_nil _

end JobState

/-- The jobs of a new master have no metrics yet. -/
theorem Master.uncounted_new (env : MasterEnv Uuid) (store : StateStore Uuid) (id : Uuid) :
    ∀ job ∈ (Master.new env store).jobs.lookup id, job.Uncounted := by
  have hinsert : ∀ (jobs : HashMap Uuid (JobState Uuid)) (id' : Uuid) (new : JobState Uuid),
      (∀ id, ∀ job ∈ jobs.lookup id, job.Uncounted) → new.Uncounted →
        ∀ id, ∀ job ∈ (jobs.insert id' new).lookup id, job.Uncounted := by
    intro jobs id' new hjobs hnew id found hfound
    by_cases hid : id = id'
    · subst hid
      rw [AList.lookup_insert] at hfound
      obtain rfl := Option.some.inj hfound
      exact hnew
    · rw [AList.lookup_insert_ne hid] at hfound
      exact hjobs id found hfound
  revert id
  refine List.foldlRecOn (motive := fun jobs : HashMap Uuid (JobState Uuid) =>
    ∀ id, ∀ job ∈ jobs.lookup id, job.Uncounted) _ restoreTaskRow ?_ fun jobs hjobs row _ => ?_
  · refine List.foldlRecOn (motive := fun jobs : HashMap Uuid (JobState Uuid) =>
      ∀ id, ∀ job ∈ jobs.lookup id, job.Uncounted) _ _ ?_ fun jobs hjobs row _ => ?_
    · intro id job hjob
      rw [AList.lookup_empty] at hjob
      cases hjob
    · exact hinsert jobs row.1 (restoredJob row.2.2 row.2.1) hjobs ⟨rfl, rfl, rfl⟩
  · obtain ⟨taskId, jobId, status, result⟩ := row
    have hbase : ((jobs.lookup jobId).getD placeholder).Uncounted := by
      cases hjob : jobs.lookup jobId with
      | none => exact ⟨rfl, rfl, rfl⟩
      | some job => exact hjobs jobId job hjob
    exact hinsert jobs jobId (restoreTask _ taskId status result) hjobs
      ⟨hbase.workers, hbase.completed, hbase.failed⟩

namespace Audit

variable {env : MasterEnv Uuid} {a a' : Audit Uuid} {e : Event Uuid}

theorem step_system (hstep : a.step env e = some a') :
    a.system.step env e = some a'.system := by
  obtain ⟨system, hsystem, rfl⟩ := Option.map_eq_some_iff.mp hstep
  exact hsystem

theorem uncounted_step (h : ∀ id, ∀ job ∈ a.system.job id, job.Uncounted)
    (hquiet : a.CountsNothing e) (hstep : a.step env e = some a') :
    ∀ id, ∀ job ∈ a'.system.job id, job.Uncounted := by
  intro id job hjob
  have hchange := System.step_job (step_system hstep) id
  have hold := h id
  generalize hbefore : a.system.job id = before at hchange hold
  rw [hjob] at hchange
  cases hchange with
  | unchanged => exact hold job rfl
  | submitted => exact ⟨rfl, rfl, rfl⟩
  | @assigned i task rest worker job hloop hid =>
      exact ⟨(hold job rfl).workers, (hold job rfl).completed, (hold job rfl).failed⟩
  | @running i task rest worker job hloop hid =>
      exact ⟨(hold job rfl).workers, (hold job rfl).completed, (hold job rfl).failed⟩
  | @recorded result job hid hok =>
      subst hid
      refine (hold job rfl).record (hquiet result ?_)
      rw [System.resultsBy, hbefore, hok]
      exact List.mem_singleton_self result
  | @refused result job hid hok =>
      exact ⟨(hold job rfl).workers, (hold job rfl).completed, (hold job rfl).failed⟩

theorem mem_resultsBy {s : System Uuid} {result : TaskResult Uuid} (h : result ∈ s.resultsBy e) :
    e = .complete result ∧ (∃ job, s.job result.jobId = some job) ∧
      s.master.store.accepts result.taskId result.jobId := by
  cases e with
  | complete reported =>
      rw [System.resultsBy] at h
      split_ifs at h with hrecorded
      · obtain rfl := List.mem_singleton.mp h
        rw [Bool.and_eq_true] at hrecorded
        exact ⟨rfl, Option.isSome_iff_exists.mp hrecorded.1, hrecorded.2⟩
      · cases h
  | _ => cases h

/-- In every run from a start of the master, all work is credited in every state
exactly when no completed or failed task is recorded. -/
theorem credited_iff {store : StateStore Uuid} {events : List (Event Uuid)}
    (hrun : run (step env) { system := { master := .new env store } } events = some a) :
    (∀ before after t, events = before ++ after →
      run (step env) { system := { master := .new env store } } before = some t →
        ∀ id, ∀ job ∈ t.system.job id, t.Credited id job) ↔
      Along (step env) CountsNothing { system := { master := .new env store } } events := by
  refine along_iff_reached (H := fun _ _ => True)
    (I := fun a : Audit Uuid => ∀ id, ∀ job ∈ a.system.job id, job.Uncounted)
    (fun a h id job hjob => (h id job hjob).credited a id)
    (fun a e a' h _ hquiet hstep => uncounted_step h hquiet hstep)
    (fun a e a' h _ hcounts hstep hall => ?_) (Master.uncounted_new env store)
    (along_of_forall fun _ _ => trivial) hrun
  simp only [CountsNothing, not_forall, Bool.not_eq_false] at hcounts
  obtain ⟨result, hmem, hended⟩ := hcounts
  obtain ⟨rfl, ⟨job, hjob⟩, hok⟩ := mem_resultsBy hmem
  have hrecorded : a'.system.job result.jobId = some (job.record result) := by
    have hsystem := Option.some.inj (step_system hstep)
    rw [← hsystem]
    show ((a.system.master.completeTask env result).2.jobs.lookup result.jobId) = _
    rw [Master.completeTask_lookup_self env hjob, if_pos hok]
  exact (h _ job hjob).not_credited hended a' _ (hall _ _ hrecorded)

/-- A task is assigned to the only worker. -/
def assignedOnce : List (Event Path) :=
  [System.registration, System.readSubmission ["job"] 1, .advance 0, .advance 0]

/-- The only task, reported as completed. -/
def readCompleted : TaskResult Path :=
  System.readResult ["job"] [DagSpecification.stableIdInput 0 0, "job"] .completed

theorem credited_iff_assignedOnce :
    (run (step System.pathEnv) { system := { master := .new System.pathEnv {} } }
        assignedOnce).isSome ∧
      ∀ before after t, assignedOnce = before ++ after →
        run (step System.pathEnv) { system := { master := .new System.pathEnv {} } } before =
          some t → ∀ id, ∀ job ∈ t.system.job id, t.Credited id job := by
  have hsome : (run (step System.pathEnv) { system := { master := .new System.pathEnv {} } }
      assignedOnce).isSome := by decide
  obtain ⟨a, hrun⟩ := Option.isSome_iff_exists.mp hsome
  exact ⟨hsome, (credited_iff hrun).mpr (by decide)⟩

/-- The completed task of the worker is in no aggregate. -/
theorem completed_uncredited :
    ∃ a job, run (step System.pathEnv) { system := { master := .new System.pathEnv {} } }
        (assignedOnce ++ [.complete readCompleted]) = some a ∧
      a.recorded.map (fun r => (r.1.taskId, r.2)) = [(readCompleted.taskId, some ["w"])] ∧
      a.system.job ["job"] = some job ∧ ¬ a.Credited ["job"] job := by
  have hrun : ((run (step System.pathEnv) { system := { master := .new System.pathEnv {} } }
      (assignedOnce ++ [.complete readCompleted])).bind fun a => (a.system.job ["job"]).map
        fun job => (a.recorded.map fun r => (r.1.taskId, r.2), job.metrics.workers.length,
          job.metrics.completedTasks)) = some ([(readCompleted.taskId, some ["w"])], 0, 1) := by
    decide
  obtain ⟨a, ha, hjob⟩ := Option.bind_eq_some_iff.mp hrun
  obtain ⟨job, hjob, hcounts⟩ := Option.map_eq_some_iff.mp hjob
  simp only [Prod.mk.injEq] at hcounts
  refine ⟨a, job, ha, hcounts.1, hjob, fun hcredited => ?_⟩
  have hsum := hcredited.completed
  rw [List.length_eq_zero_iff.mp hcounts.2.1, hcounts.2.2] at hsum
  cases hsum

end Audit
end ProcessingEngine

import ProcessingEngine.Lib.Transition
import ProcessingEngine.Master.Operations

/-!
# Sessions

A view of the master without the loops of `System`: the operations come in any
order and on any jobs.  Each runs to its end before the next one starts, except
that `schedule_task` can also be taken one section at a time.  A session
remembers the results that were delivered for known jobs.
-/

namespace ProcessingEngine

open Lib

inductive Op (Uuid : Type) where
  | submit (jobId : Uuid) (dag : DagSpecification) (order stagesOrder : HashOrder String)
  | schedule (task : Task Uuid)
  | select
  | assign (task : Task Uuid) (worker : Uuid)
  | persistAssignment (task : Task Uuid) (worker : Uuid)
  | markRunning (task : Task Uuid)
  | complete (result : TaskResult Uuid)
  | register (info : WorkerInfo Uuid)
  | heartbeat (message : HeartbeatMessage Uuid) (now : Nat)
  | collect (now : Nat)

structure Session (Uuid : Type) [DecidableEq Uuid] where
  master : Master Uuid := {}
  reported : List (TaskResult Uuid) := []

variable {Uuid : Type} [DecidableEq Uuid]

/-- The job that an operation is about. -/
def Op.job? : Op Uuid → Option Uuid
  | submit jobId _ _ _ => some jobId
  | schedule task => some task.jobId
  | assign task _ => some task.jobId
  | persistAssignment task _ => some task.jobId
  | markRunning task => some task.jobId
  | complete result => some result.jobId
  | select | register _ | heartbeat _ _ | collect _ => none

namespace Session

/-- The tasks of which a result was delivered. -/
def reportedKeys (s : Session Uuid) : List (Uuid × Uuid) := s.reported.map TaskResult.key

def step (env : MasterEnv Uuid) (s : Session Uuid) : Op Uuid → Option (Session Uuid)
  | .submit jobId dag order stagesOrder =>
      if s.master.fresh jobId then
        some { s with master := (s.master.submitJob env order stagesOrder dag jobId).2 }
      else none
  | .schedule task => some { s with master := (s.master.scheduleTask env task).2 }
  | .select => some { s with master := s.master.selectWorker.2 }
  | .assign task worker => some { s with master := s.master.assignTask task worker }
  | .persistAssignment task worker =>
      some { s with master := s.master.persistAssignment env task worker }
  | .markRunning task => some { s with master := s.master.markRunning env task }
  | .complete result =>
      some
        { master := (s.master.completeTask env result).2
          reported :=
            if (s.master.jobs.lookup result.jobId).isSome then s.reported ++ [result]
            else s.reported }
  | .register info => some { s with master := s.master.registerWorker info }
  | .heartbeat message now => some { s with master := s.master.handleHeartbeat env message now }
  | .collect now => some { s with master := s.master.garbageCollectWorkers env now }

variable {env : MasterEnv Uuid} {s s' : Session Uuid}

/-- An operation on another job leaves a job alone. -/
theorem step_lookup_ne {op : Op Uuid} (hstep : s.step env op = some s') {id : Uuid}
    (h : op.job? ≠ some id) : s'.master.jobs.lookup id = s.master.jobs.lookup id := by
  cases op with
  | submit jobId dag order stagesOrder =>
      have hne : id ≠ jobId := fun e => h (congrArg some e.symm)
      simp only [step] at hstep
      split_ifs at hstep
      cases hstep
      obtain ⟨e, store, hsub⟩ | ⟨store, hsub⟩ :=
        Master.submitJob_cases env order stagesOrder dag jobId s.master
      · rw [hsub]
      · rw [hsub]
        exact AList.lookup_insert_ne hne
  | schedule task =>
      cases hstep
      exact Master.scheduleTask_lookup_ne fun e => h (congrArg some e.symm)
  | assign task worker =>
      cases hstep
      exact Master.assignTask_lookup_ne worker fun e => h (congrArg some e.symm)
  | markRunning task =>
      cases hstep
      exact Master.markRunning_lookup_ne fun e => h (congrArg some e.symm)
  | complete result =>
      cases hstep
      exact Master.completeTask_lookup_ne fun e => h (congrArg some e.symm)
  | _ =>
      cases hstep
      rfl

/-- What an operation does to a known job: it changes its tasks and its status, or
records a result. -/
theorem step_job {op : Op Uuid} (hstep : s.step env op = some s') {id : Uuid}
    {job : JobState Uuid} (hjob : s.master.jobs.lookup id = some job) :
    ∃ job', s'.master.jobs.lookup id = some job' ∧
      ((∃ tasks status, job' = { job with tasks, status }) ∨
        ∃ result, op = .complete result ∧ result.jobId = id ∧ job' = job.record result) := by
  by_cases hop : op.job? = some id
  · cases op with
    | submit jobId dag order stagesOrder =>
        obtain rfl : jobId = id := Option.some.inj hop
        simp only [step] at hstep
        split_ifs at hstep with hfresh
        rw [Master.lookup_of_fresh hfresh] at hjob
        cases hjob
    | schedule task =>
        obtain rfl : task.jobId = id := Option.some.inj hop
        cases hstep
        rcases Master.scheduleTask_lookup_self env hjob with hsame | ⟨worker, hassigned⟩
        · exact ⟨job, hsame, Or.inl ⟨_, _, rfl⟩⟩
        · exact ⟨_, hassigned, Or.inl ⟨_, _, rfl⟩⟩
    | assign task worker =>
        obtain rfl : task.jobId = id := Option.some.inj hop
        cases hstep
        have hlookup := Master.assignTask_lookup_self (m := s.master) task worker
        rw [hjob, Option.map_some] at hlookup
        exact ⟨_, hlookup, Or.inl ⟨_, _, rfl⟩⟩
    | persistAssignment task worker =>
        cases hstep
        exact ⟨job, hjob, Or.inl ⟨_, _, rfl⟩⟩
    | markRunning task =>
        obtain rfl : task.jobId = id := Option.some.inj hop
        cases hstep
        have hlookup := Master.markRunning_lookup_self env s.master task
        rw [hjob, Option.map_some] at hlookup
        exact ⟨_, hlookup, Or.inl ⟨_, _, rfl⟩⟩
    | complete result =>
        obtain rfl : result.jobId = id := Option.some.inj hop
        cases hstep
        refine ⟨_, Master.completeTask_lookup_self env hjob, ?_⟩
        split_ifs
        · exact Or.inr ⟨result, rfl, rfl, rfl⟩
        · exact Or.inl ⟨_, _, rfl⟩
    | _ => cases hop
  · exact ⟨job, (step_lookup_ne hstep hop).trans hjob, Or.inl ⟨_, _, rfl⟩⟩

theorem continues_step {op : Op Uuid} (hstep : s.step env op = some s') :
    StateStore.Continues s.master.store s'.master.store := by
  have hkept := StateStore.continues_keptByWrites env.serde s.master.store
  have hstart := StateStore.Continues.refl s.master.store
  cases op with
  | submit jobId dag order stagesOrder =>
      simp only [step] at hstep
      split_ifs at hstep
      cases hstep
      exact Master.submitJob_keeps hkept hstart order stagesOrder trivial jobId
  | schedule task =>
      cases hstep
      exact Master.scheduleTask_keeps hkept hstart (fun _ _ _ => trivial) task
  | persistAssignment task worker =>
      cases hstep
      exact hkept.taskStatus _ _ _ _ hstart
  | markRunning task =>
      cases hstep
      exact Master.markRunning_keeps hkept hstart (fun _ _ _ => trivial) task
  | complete result =>
      cases hstep
      exact Master.completeTask_keeps hkept hstart (fun _ _ _ => trivial) result
  | heartbeat message now =>
      cases hstep
      exact hkept.workerMetrics _ _ _ _ _ hstart
  | _ =>
      cases hstep
      exact hstart

/-! ### Submissions to a database that refuses no write -/

/-- The task rows with the given tasks queued. -/
def queueRows (env : MasterEnv Uuid) (jobId : Uuid) (tasks : List (Task Uuid))
    (rows : HashMap Uuid (TaskRow Uuid)) : HashMap Uuid (TaskRow Uuid) :=
  tasks.foldl (fun rows task => rows.insert task.taskId
    (StateStore.taskRowWithStatus (rows.lookup task.taskId) jobId
      (env.serde.taskStatus .queued))) rows

/-- The tables after a submission, but for the summary of the job. -/
def submittedStore (env : MasterEnv Uuid) (jobId : Uuid) (dag : DagSpecification)
    (tasks : List (Task Uuid)) (store : StateStore Uuid) : StateStore Uuid :=
  { store with
    jobs := store.jobs.insert jobId ⟨env.serde.jobStatus .accepted, env.serde.dag dag⟩
    tasks := queueRows env jobId tasks store.tasks }

theorem persistQueued_healthy {jobId : Uuid} (tasks : List (Task Uuid)) {store : StateStore Uuid}
    (h : store.faults = []) (hrow : (store.jobs.lookup jobId).isSome) :
    Master.persistQueued env jobId tasks store =
      (.ok (), { store with tasks := queueRows env jobId tasks store.tasks }) := by
  induction tasks generalizing store with
  | nil => rfl
  | cons task tasks ih =>
      have hadmits : store.admitsTask task.taskId jobId := StateStore.admitsTask_of_job hrow
      rw [Master.persistQueued, StateStore.persistTaskStatus_healthy env.serde h hadmits]
      exact ih h hrow

/-- A valid submission is published and stored. -/
theorem submitJob_healthy {m : Master Uuid} (h : m.store.faults = [])
    (order stagesOrder : HashOrder String) {dag : DagSpecification} (hvalid : dag.validate = .ok ())
    (jobId : Uuid) :
    ∃ jobStatus, m.submitJob env order stagesOrder dag jobId =
      (.ok (dag.materializeTasks env.newV5 order jobId),
        { m with
          jobs := m.jobs.insert jobId (Master.submittedJob dag stagesOrder
            (dag.materializeTasks env.newV5 order jobId))
          store := { submittedStore env jobId dag (dag.materializeTasks env.newV5 order jobId)
            m.store with jobStatus } }) := by
  have hjob := StateStore.persistJob_healthy env.serde h jobId dag .accepted
  have hrow : ((m.store.jobs.insert jobId
      ⟨env.serde.jobStatus .accepted, env.serde.dag dag⟩).lookup jobId).isSome := by
    rw [AList.lookup_insert]
    rfl
  have htasks : Master.persistQueued env jobId (dag.materializeTasks env.newV5 order jobId)
      { m.store with
        jobs := m.store.jobs.insert jobId ⟨env.serde.jobStatus .accepted, env.serde.dag dag⟩ } =
      (.ok (), submittedStore env jobId dag (dag.materializeTasks env.newV5 order jobId) m.store) :=
    persistQueued_healthy _ h hrow
  have hsubmitted : (submittedStore env jobId dag (dag.materializeTasks env.newV5 order jobId)
      m.store).faults = [] := h
  obtain ⟨jobStatus, hstatus⟩ := StateStore.persistJobStatus_healthy env.serde hsubmitted jobId
    .accepted 0 (Master.submittedJob dag stagesOrder
      (dag.materializeTasks env.newV5 order jobId)).metrics none []
  refine ⟨jobStatus, ?_⟩
  unfold Master.submitJob
  rw [hvalid]
  dsimp only
  rw [hjob]
  dsimp only
  rw [htasks]
  dsimp only
  rw [hstatus]

end Session
end ProcessingEngine

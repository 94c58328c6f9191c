import ProcessingEngine.Common.StateStore
import ProcessingEngine.Master.Job
import ProcessingEngine.Master.Scheduler

/-!
# The operations of the master

`master/mod.rs`.  An operation is given by its critical sections: `submit_job`
publishes the job in one, `complete_task` is one altogether, and `schedule_task`
selects a worker, assigns the task, persists the assignment, marks the job as
running and looks up the address to dispatch to.  `scheduleTask` runs the
sections of the last one after another.
-/

namespace ProcessingEngine

open Lib

/-- What the master uses from outside: `Uuid::new_v5`, JSON and its
configuration. -/
structure MasterEnv (Uuid : Type) where
  newV5 : Uuid → String → Uuid
  serde : Serde Uuid
  heartbeatIntervalMs : Nat

structure Master (Uuid : Type) [DecidableEq Uuid] where
  registry : Registry Uuid := {}
  scheduler : RoundRobinScheduler Uuid := {}
  jobs : HashMap Uuid (JobState Uuid) := ∅
  store : StateStore Uuid := {}

/-- The iteration orders met by a snapshot: of the map of jobs, and of the hash
maps inside the topological sort of each job. -/
structure SnapshotOrder (Uuid : Type) where
  jobs : HashOrder Uuid
  nodes : Uuid → HashOrder String

structure JobStatusResponse (Uuid : Type) where
  jobId : Uuid
  status : JobStatus
  progress : ℚ
  metrics : JobMetrics Uuid
  error : Option String
  outputs : List Path

inductive SubmitError where
  | invalid (message : String)
  | store (error : StoreError)
  deriving DecidableEq, Repr

namespace Master

variable {Uuid : Type} [DecidableEq Uuid]

/-! ### `Master::new` -/

/-- The job without its tasks, as read from its row. -/
def restoredJob (dag : DagSpecification) (status : JobStatus) : JobState Uuid := { dag, status }

/-- The job made for tasks whose job is not known. -/
def placeholder : JobState Uuid :=
  { dag := { nodes := [], edges := [], partitions := 0 }, status := .pending }

/-- A task that was handed to a worker has to be handed out again. -/
def normalize (status : TaskStatus Uuid) : TaskStatus Uuid :=
  if status.worker.isSome then .queued else status

/-- Add a loaded task to its job. -/
def restoreTask (job : JobState Uuid) (taskId : Uuid) (status : TaskStatus Uuid)
    (result : Option (TaskResult Uuid)) : JobState Uuid :=
  { job with
    tasks := job.tasks.insert taskId (normalize status)
    results := job.results ++ (result.filter fun r => r.status.isCompleted).toList }

def restoreTaskRow (jobs : HashMap Uuid (JobState Uuid))
    (row : Uuid × Uuid × TaskStatus Uuid × Option (TaskResult Uuid)) :
    HashMap Uuid (JobState Uuid) :=
  let (taskId, jobId, status, result) := row
  jobs.insert jobId (restoreTask ((jobs.lookup jobId).getD placeholder) taskId status result)

/-- Start on the tables that an earlier master has left. -/
def new (env : MasterEnv Uuid) (store : StateStore Uuid) : Master Uuid :=
  let savedJobs := (store.loadAllJobs env.serde).getD []
  let savedTasks := (store.loadAllTasks env.serde).getD []
  let jobs := savedJobs.foldl (fun m row => m.insert row.1 (restoredJob row.2.2 row.2.1)) ∅
  let requeue := savedTasks.filter fun row => row.2.2.1.worker.isSome
  { jobs := savedTasks.foldl restoreTaskRow jobs
    store := requeue.foldl
      (fun s row => (s.persistTaskStatus env.serde row.1 row.2.1 .queued).2) store }

/-! ### `submit_job` -/

/-- The job that a submission publishes. -/
def submittedJob (dag : DagSpecification) (order : HashOrder String) (tasks : List (Task Uuid)) :
    JobState Uuid where
  dag
  status := .accepted
  tasks := tasks.foldl (fun m task => m.insert task.taskId .queued) ∅
  metrics :=
    { totalTasks := tasks.length
      pendingTasks := tasks.length
      stages := (dag.toStages order).map fun s =>
        { stageId := s.stageId, tasksTotal := s.partitions } }

/-- Write a row for each task, up to the first failure. -/
def persistQueued (env : MasterEnv Uuid) (jobId : Uuid) :
    List (Task Uuid) → StateStore Uuid → Except StoreError Unit × StateStore Uuid
  | [], store => (.ok (), store)
  | task :: tasks, store =>
      match store.persistTaskStatus env.serde task.taskId jobId .queued with
      | (.error e, store) => (.error e, store)
      | (.ok (), store) => persistQueued env jobId tasks store

/-- `Uuid::new_v4` yields an id that is not in use. -/
def fresh (m : Master Uuid) (jobId : Uuid) : Bool :=
  (m.jobs.lookup jobId).isNone && (m.store.jobs.lookup jobId).isNone

/-- `submit_job` up to the publication of the job; returns the tasks that remain
to be scheduled.  `jobId` is `Uuid::new_v4()`; the two sorts of the DAG have
iteration orders of their own. -/
def submitJob (env : MasterEnv Uuid) (order stagesOrder : HashOrder String)
    (dag : DagSpecification) (jobId : Uuid) (m : Master Uuid) :
    Except SubmitError (List (Task Uuid)) × Master Uuid :=
  match dag.validate with
  | .error message => (.error (.invalid message), m)
  | .ok () =>
      let tasks := dag.materializeTasks env.newV5 order jobId
      let job := submittedJob dag stagesOrder tasks
      match m.store.persistJob env.serde jobId dag .accepted with
      | (.error e, store) => (.error (.store e), { m with store })
      | (.ok (), store) =>
          match persistQueued env jobId tasks store with
          | (.error e, store) => (.error (.store e), { m with store })
          | (.ok (), store) =>
              let store :=
                (store.persistJobStatus env.serde jobId .accepted 0 job.metrics none []).2
              (.ok tasks, { m with store, jobs := m.jobs.insert jobId job })

/-! ### Queries -/

def mergeWorker (workers : List (WorkerAggregate Uuid)) (worker : WorkerInfo Uuid) :
    List (WorkerAggregate Uuid) :=
  let agg : WorkerAggregate Uuid :=
    { workerId := worker.id
      tasksCompleted := worker.metrics.tasksCompleted
      tasksFailed := worker.metrics.tasksFailed
      recordsProcessed := worker.metrics.recordsProcessed
      cpuTimeMs := 0
      wallTimeMs := 0 }
  if workers.any fun w => w.workerId == worker.id then
    updateFirst (fun w => w.workerId == worker.id) (fun _ => agg) workers
  else workers ++ [agg]

def getJobStatus (m : Master Uuid) (jobId : Uuid) : Option (JobStatusResponse Uuid) :=
  (m.jobs.lookup jobId).map fun job =>
    { jobId
      status := job.status
      progress := job.metrics.progress
      metrics :=
        { job.metrics with
          workers := m.registry.availableWorkers.foldl mergeWorker job.metrics.workers }
      error := job.error
      outputs := job.outputs }

def getJobResults (m : Master Uuid) (jobId : Uuid) : Option (List (TaskResult Uuid)) :=
  (m.jobs.lookup jobId).map JobState.results

/-- The part of one job in the snapshot. -/
def queuedTasks (env : MasterEnv Uuid) (order : HashOrder String) (m : Master Uuid)
    (jobId : Uuid) : List (Task Uuid) :=
  match m.jobs.lookup jobId with
  | none => []
  | some job =>
      (job.dag.materializeTasks env.newV5 order jobId).filter fun task =>
        job.tasks.lookup task.taskId = some .queued

def queuedTasksSnapshot (env : MasterEnv Uuid) (order : SnapshotOrder Uuid) (m : Master Uuid) :
    List (Task Uuid) :=
  (order.jobs.keys m.jobs.keys).flatMap fun jobId =>
    m.queuedTasks env (order.nodes jobId) jobId

/-! ### Workers -/

/-- `handle_heartbeat` without the scheduling pass that it spawns. -/
def handleHeartbeat (env : MasterEnv Uuid) (heartbeat : HeartbeatMessage Uuid) (now : Nat)
    (m : Master Uuid) : Master Uuid :=
  { m with
    registry :=
      m.registry.recordHeartbeat heartbeat.workerId heartbeat.metrics heartbeat.address now
    store :=
      (m.store.persistWorkerMetrics env.serde heartbeat.workerId .active heartbeat.metrics now).2 }

/-- `register_worker` without the scheduling pass that it spawns. -/
def registerWorker (info : WorkerInfo Uuid) (m : Master Uuid) : Master Uuid :=
  { m with registry := m.registry.addWorker info }

def garbageCollectWorkers (env : MasterEnv Uuid) (now : Nat) (m : Master Uuid) : Master Uuid :=
  { m with registry := m.registry.markStaleWorkers (env.heartbeatIntervalMs * 2) now }

/-! ### `complete_task` -/

/-- The rows written once the task row is: the job when it has ended, and its
summary. -/
def persistOutcome (env : MasterEnv Uuid) (jobId : Uuid) (job : JobState Uuid)
    (result : TaskResult Uuid) (store : StateStore Uuid) : StateStore Uuid :=
  match result.status with
  | .completed =>
      if job.pending then
        (store.persistJobStatus env.serde jobId job.status job.metrics.progress job.metrics
          job.error job.outputs).2
      else
        let store := (store.persistJob env.serde jobId job.dag .succeeded).2
        (store.persistJobStatus env.serde jobId .succeeded 100 job.metrics none job.outputs).2
  | .failed _ =>
      let store := (store.persistJob env.serde jobId job.dag .failed).2
      (store.persistJobStatus env.serde jobId .failed job.metrics.progress job.metrics job.error
        job.outputs).2
  | _ => store

def completeTask (env : MasterEnv Uuid) (result : TaskResult Uuid) (m : Master Uuid) :
    Except StoreError Unit × Master Uuid :=
  match m.jobs.lookup result.jobId with
  | none => (.ok (), m)
  | some job =>
      match m.store.persistTaskResult env.serde result with
      | (.error e, store) =>
          (.error e, { m with store, jobs := m.jobs.insert result.jobId (job.recordStatus result) })
      | (.ok (), store) =>
          let job := job.record result
          (.ok (),
            { m with
              store := persistOutcome env result.jobId job result store
              jobs := m.jobs.insert result.jobId job })

/-! ### `schedule_task` -/

def selectWorker (m : Master Uuid) : Option Uuid × Master Uuid :=
  let selection := m.scheduler.selectWorker m.registry
  (selection.1, { m with scheduler := selection.2 })

def assignTask (task : Task Uuid) (worker : Uuid) (m : Master Uuid) : Master Uuid :=
  { m with
    jobs := m.jobs.modify task.jobId fun job =>
      { job with tasks := job.tasks.insert task.taskId (.assigned worker) } }

def persistAssignment (env : MasterEnv Uuid) (task : Task Uuid) (worker : Uuid)
    (m : Master Uuid) : Master Uuid :=
  { m with
    store := (m.store.persistTaskStatus env.serde task.taskId task.jobId (.assigned worker)).2 }

def markRunning (env : MasterEnv Uuid) (task : Task Uuid) (m : Master Uuid) : Master Uuid :=
  match m.jobs.lookup task.jobId with
  | none => m
  | some job =>
      if job.status = .running then m
      else
        let store := (m.store.persistJob env.serde task.jobId job.dag .running).2
        let store :=
          (store.persistJobStatus env.serde task.jobId .running job.metrics.progress job.metrics
            job.error job.outputs).2
        { m with
          store
          jobs := m.jobs.insert task.jobId { job with status := .running } }

/-- All sections in a row.  Returns the worker that the task was sent to. -/
def scheduleTask (env : MasterEnv Uuid) (task : Task Uuid) (m : Master Uuid) :
    Option (WorkerInfo Uuid) × Master Uuid :=
  match m.selectWorker with
  | (none, m) => (none, m)
  | (some worker, m) =>
      let m := ((m.assignTask task worker).persistAssignment env task worker).markRunning env task
      (m.registry.getWorker worker, m)

/-! ### What the operations do to the jobs -/

variable {env : MasterEnv Uuid} {m : Master Uuid}

theorem lookup_of_fresh {jobId : Uuid} (h : m.fresh jobId) : m.jobs.lookup jobId = none := by
  simp only [fresh, Bool.and_eq_true, Option.isNone_iff_eq_none] at h
  exact h.1

theorem completeTask_unknown {result : TaskResult Uuid} (h : m.jobs.lookup result.jobId = none) :
    m.completeTask env result = (.ok (), m) := by
  simp [completeTask, h]

theorem completeTask_self {result : TaskResult Uuid} {job : JobState Uuid}
    (h : m.jobs.lookup result.jobId = some job) :
    (m.completeTask env result).2.jobs = m.jobs.insert result.jobId
      (if m.store.accepts result.taskId result.jobId then job.record result
        else job.recordStatus result) := by
  have hok : (m.store.persistTaskResult env.serde result).1 = .ok () ↔
      m.store.accepts result.taskId result.jobId := StateStore.persistTaskResult_ok_iff
  simp only [completeTask, h]
  rcases hwrite : m.store.persistTaskResult env.serde result with ⟨_ | _, store⟩
  · rw [hwrite] at hok
    rw [if_neg fun haccepts => by cases hok.mpr haccepts]
  · rw [hwrite] at hok
    rw [if_pos (hok.mp rfl)]

theorem completeTask_lookup_self (env : MasterEnv Uuid) {result : TaskResult Uuid}
    {job : JobState Uuid} (h : m.jobs.lookup result.jobId = some job) :
    (m.completeTask env result).2.jobs.lookup result.jobId =
      some (if m.store.accepts result.taskId result.jobId then job.record result
        else job.recordStatus result) := by
  rw [completeTask_self h, AList.lookup_insert]

theorem completeTask_lookup_ne {result : TaskResult Uuid} {id : Uuid} (h : id ≠ result.jobId) :
    (m.completeTask env result).2.jobs.lookup id = m.jobs.lookup id := by
  cases hjob : m.jobs.lookup result.jobId with
  | none => rw [completeTask_unknown hjob]
  | some job => rw [completeTask_self hjob, AList.lookup_insert_ne h]

theorem assignTask_lookup_self (task : Task Uuid) (worker : Uuid) :
    (m.assignTask task worker).jobs.lookup task.jobId =
      (m.jobs.lookup task.jobId).map fun job =>
        { job with tasks := job.tasks.insert task.taskId (.assigned worker) } :=
  HashMap.lookup_modify_self _ _ _

theorem assignTask_lookup_ne {task : Task Uuid} {id : Uuid} (worker : Uuid)
    (h : id ≠ task.jobId) : (m.assignTask task worker).jobs.lookup id = m.jobs.lookup id :=
  HashMap.lookup_modify_ne _ h

theorem markRunning_lookup_self (env : MasterEnv Uuid) (m : Master Uuid) (task : Task Uuid) :
    (m.markRunning env task).jobs.lookup task.jobId =
      (m.jobs.lookup task.jobId).map fun job => { job with status := .running } := by
  unfold markRunning
  cases h : m.jobs.lookup task.jobId with
  | none => simp [h]
  | some job =>
      dsimp only
      split_ifs with hrunning
      · rw [h, Option.map_some, ← hrunning]
      · rw [AList.lookup_insert, Option.map_some]

theorem markRunning_lookup_ne {task : Task Uuid} {id : Uuid} (h : id ≠ task.jobId) :
    (m.markRunning env task).jobs.lookup id = m.jobs.lookup id := by
  unfold markRunning
  cases m.jobs.lookup task.jobId with
  | none => rfl
  | some job =>
      dsimp only
      split_ifs
      · rfl
      · rw [AList.lookup_insert_ne h]

theorem mem_queuedTasks {order : HashOrder String} {jobId : Uuid} {task : Task Uuid} :
    task ∈ m.queuedTasks env order jobId ↔ ∃ job, m.jobs.lookup jobId = some job ∧
      task ∈ job.dag.materializeTasks env.newV5 order jobId ∧
        job.tasks.lookup task.taskId = some .queued := by
  unfold queuedTasks
  cases m.jobs.lookup jobId with
  | none => simp
  | some job => simp

theorem queuedTasks_jobId {order : HashOrder String} {jobId : Uuid} {task : Task Uuid}
    (h : task ∈ m.queuedTasks env order jobId) : task.jobId = jobId := by
  obtain ⟨job, -, hmem, -⟩ := mem_queuedTasks.mp h
  exact DagSpecification.materializeTasks_jobId env.newV5 hmem

theorem mem_snapshot {order : SnapshotOrder Uuid} {task : Task Uuid} :
    task ∈ m.queuedTasksSnapshot env order ↔
      task ∈ m.queuedTasks env (order.nodes task.jobId) task.jobId := by
  rw [queuedTasksSnapshot, List.mem_flatMap]
  constructor
  · rintro ⟨jobId, -, h⟩
    rw [queuedTasks_jobId h]
    exact h
  · intro h
    obtain ⟨job, hjob, -⟩ := mem_queuedTasks.mp h
    refine ⟨task.jobId, (order.jobs.perm _).mem_iff.mpr ?_, h⟩
    exact AList.mem_keys.mp (AList.lookup_isSome.mp (by rw [hjob]; rfl))

/-- Without a worker a task stays where it is. -/
theorem scheduleTask_of_none {task : Task Uuid} (h : m.selectWorker.1 = none) :
    (m.scheduleTask env task).2 = { m with scheduler := m.selectWorker.2.scheduler } := by
  have hselect : (m.scheduler.selectWorker m.registry).1 = none := h
  simp only [scheduleTask, selectWorker, hselect]

/-- A selected worker gets the task. -/
theorem scheduleTask_of_some {task : Task Uuid} {worker : Uuid}
    (h : m.selectWorker.1 = some worker) :
    (m.scheduleTask env task).2 =
      ((({ m with scheduler := m.selectWorker.2.scheduler } : Master Uuid).assignTask task
        worker).persistAssignment env task worker).markRunning env task := by
  have hselect : (m.scheduler.selectWorker m.registry).1 = some worker := h
  simp only [scheduleTask, selectWorker, hselect]

theorem scheduleTask_cases (env : MasterEnv Uuid) (m : Master Uuid) (task : Task Uuid) :
    (∃ scheduler, (m.scheduleTask env task).2 = { m with scheduler }) ∨
      ∃ worker scheduler, (m.scheduleTask env task).2 =
        ((({ m with scheduler } : Master Uuid).assignTask task worker).persistAssignment env task
          worker).markRunning env task := by
  cases hselect : m.selectWorker.1 with
  | none => exact Or.inl ⟨_, scheduleTask_of_none hselect⟩
  | some worker => exact Or.inr ⟨worker, _, scheduleTask_of_some hselect⟩

theorem scheduleTask_lookup_ne {task : Task Uuid} {id : Uuid} (h : id ≠ task.jobId) :
    (m.scheduleTask env task).2.jobs.lookup id = m.jobs.lookup id := by
  rcases scheduleTask_cases env m task with ⟨scheduler, hsched⟩ | ⟨worker, scheduler, hsched⟩
  · rw [hsched]
  · rw [hsched, markRunning_lookup_ne h]
    exact assignTask_lookup_ne worker h

/-- A task that gets a worker is assigned, and its job is running. -/
theorem scheduleTask_lookup_of_some (env : MasterEnv Uuid) {task : Task Uuid} {worker : Uuid}
    {job : JobState Uuid} (hselect : m.selectWorker.1 = some worker)
    (h : m.jobs.lookup task.jobId = some job) :
    (m.scheduleTask env task).2.jobs.lookup task.jobId =
      some { job with
        tasks := job.tasks.insert task.taskId (.assigned worker)
        status := .running } := by
  have hassign := assignTask_lookup_self
    (m := { m with scheduler := m.selectWorker.2.scheduler }) task worker
  rw [h, Option.map_some] at hassign
  rw [scheduleTask_of_some hselect, markRunning_lookup_self]
  exact congrArg (Option.map fun job => { job with status := .running }) hassign

/-- A scheduled task stays as it is, or is assigned and its job is running. -/
theorem scheduleTask_lookup_self (env : MasterEnv Uuid) {task : Task Uuid} {job : JobState Uuid}
    (h : m.jobs.lookup task.jobId = some job) :
    (m.scheduleTask env task).2.jobs.lookup task.jobId = some job ∨
      ∃ worker, (m.scheduleTask env task).2.jobs.lookup task.jobId =
        some { job with
          tasks := job.tasks.insert task.taskId (.assigned worker)
          status := .running } := by
  cases hselect : m.selectWorker.1 with
  | none =>
      rw [scheduleTask_of_none hselect]
      exact Or.inl h
  | some worker => exact Or.inr ⟨worker, scheduleTask_lookup_of_some env hselect h⟩

/-- A submission publishes the job and returns its tasks, or changes no job. -/
theorem submitJob_cases (env : MasterEnv Uuid) (order stagesOrder : HashOrder String)
    (dag : DagSpecification) (jobId : Uuid) (m : Master Uuid) :
    (∃ e store, m.submitJob env order stagesOrder dag jobId = (.error e, { m with store })) ∨
      ∃ store, m.submitJob env order stagesOrder dag jobId =
        (.ok (dag.materializeTasks env.newV5 order jobId),
          { m with
            store
            jobs := m.jobs.insert jobId (submittedJob dag stagesOrder
              (dag.materializeTasks env.newV5 order jobId)) }) := by
  unfold submitJob
  cases dag.validate with
  | error message => exact Or.inl ⟨_, m.store, rfl⟩
  | ok =>
      dsimp only
      rcases m.store.persistJob env.serde jobId dag .accepted with ⟨_ | _, store⟩
      · exact Or.inl ⟨_, store, rfl⟩
      · dsimp only
        rcases persistQueued env jobId (dag.materializeTasks env.newV5 order jobId) store with
          ⟨_ | _, store⟩
        · exact Or.inl ⟨_, store, rfl⟩
        · exact Or.inr ⟨_, rfl⟩

/-- The published tasks, and no others, are queued. -/
theorem submittedJob_lookup (dag : DagSpecification) (order : HashOrder String)
    (tasks : List (Task Uuid)) (id : Uuid) :
    (submittedJob dag order tasks).tasks.lookup id =
      if id ∈ tasks.map Task.taskId then some .queued else none := by
  have hfold : ∀ (tasks : List (Task Uuid)) (m : HashMap Uuid (TaskStatus Uuid)),
      (tasks.foldl (fun m task => m.insert task.taskId .queued) m).lookup id =
        if id ∈ tasks.map Task.taskId then some .queued else m.lookup id := by
    intro tasks
    induction tasks with
    | nil => simp
    | cons task tasks ih =>
        intro m
        simp only [List.foldl_cons, ih, List.map_cons, List.mem_cons]
        by_cases hmem : id ∈ tasks.map Task.taskId
        · simp [hmem]
        · by_cases hid : id = task.taskId
          · subst hid
            simp
          · simp [hmem, hid]
  rw [submittedJob, hfold, AList.lookup_empty]

theorem mem_submittedJob (dag : DagSpecification) (order : HashOrder String)
    (tasks : List (Task Uuid)) (id : Uuid) :
    id ∈ (submittedJob dag order tasks).tasks ↔ id ∈ tasks.map Task.taskId := by
  rw [← AList.lookup_isSome, submittedJob_lookup]
  split_ifs with h <;> simp [h]

/-! ### What the operations keep in the database -/

section

variable {P : DagSpecification → Prop} {Q : StateStore Uuid → Prop}

theorem persistQueued_keeps (hQ : StateStore.KeptByWrites env.serde P Q) (jobId : Uuid)
    (tasks : List (Task Uuid)) {store : StateStore Uuid} (h : Q store) :
    Q (persistQueued env jobId tasks store).2 := by
  induction tasks generalizing store with
  | nil => exact h
  | cons task tasks ih =>
      have hwrite := hQ.taskStatus store task.taskId jobId .queued h
      unfold persistQueued
      rcases hw : store.persistTaskStatus env.serde task.taskId jobId .queued with ⟨_ | _, store'⟩
      · rw [hw] at hwrite
        exact hwrite
      · rw [hw] at hwrite
        exact ih hwrite

theorem submitJob_keeps (hQ : StateStore.KeptByWrites env.serde P Q) (h : Q m.store)
    (order stagesOrder : HashOrder String) {dag : DagSpecification} (hdag : P dag) (jobId : Uuid) :
    Q (m.submitJob env order stagesOrder dag jobId).2.store := by
  unfold submitJob
  cases dag.validate with
  | error message => exact h
  | ok =>
      have hjob := hQ.job m.store jobId dag .accepted h hdag
      dsimp only
      rcases hw : m.store.persistJob env.serde jobId dag .accepted with ⟨_ | _, store⟩
      · rw [hw] at hjob
        exact hjob
      · rw [hw] at hjob
        have htasks := persistQueued_keeps hQ jobId (dag.materializeTasks env.newV5 order jobId)
          hjob
        dsimp only
        rcases hq : persistQueued env jobId (dag.materializeTasks env.newV5 order jobId) store with
          ⟨_ | _, store'⟩
        · rw [hq] at htasks
          exact htasks
        · rw [hq] at htasks
          exact hQ.jobStatus _ _ _ _ _ _ _ htasks

theorem markRunning_keeps (hQ : StateStore.KeptByWrites env.serde P Q) (h : Q m.store)
    (hjobs : ∀ id job, m.jobs.lookup id = some job → P job.dag) (task : Task Uuid) :
    Q (m.markRunning env task).store := by
  unfold markRunning
  cases hjob : m.jobs.lookup task.jobId with
  | none => exact h
  | some job =>
      dsimp only
      split_ifs
      · exact h
      · exact hQ.jobStatus _ _ _ _ _ _ _ (hQ.job _ _ _ _ h (hjobs _ job hjob))

theorem scheduleTask_keeps (hQ : StateStore.KeptByWrites env.serde P Q) (h : Q m.store)
    (hjobs : ∀ id job, m.jobs.lookup id = some job → P job.dag) (task : Task Uuid) :
    Q (m.scheduleTask env task).2.store := by
  obtain ⟨scheduler, hsched⟩ | ⟨worker, scheduler, hsched⟩ := scheduleTask_cases env m task
  · rw [hsched]
    exact h
  · rw [hsched]
    refine markRunning_keeps hQ (hQ.taskStatus m.store task.taskId task.jobId (.assigned worker) h)
      (fun id job hjob => ?_) task
    have hjob : (({ m with scheduler } : Master Uuid).assignTask task worker).jobs.lookup id =
      some job := hjob
    by_cases hid : id = task.jobId
    · subst hid
      rw [assignTask_lookup_self] at hjob
      obtain ⟨old, hold, rfl⟩ := Option.map_eq_some_iff.mp hjob
      exact hjobs _ old hold
    · rw [assignTask_lookup_ne worker hid] at hjob
      exact hjobs _ job hjob

theorem completeTask_keeps (hQ : StateStore.KeptByWrites env.serde P Q) (h : Q m.store)
    (hjobs : ∀ id job, m.jobs.lookup id = some job → P job.dag) (result : TaskResult Uuid) :
    Q (m.completeTask env result).2.store := by
  unfold completeTask
  cases hjob : m.jobs.lookup result.jobId with
  | none => exact h
  | some job =>
      have hwrite := hQ.taskResult m.store result h
      dsimp only
      rcases hw : m.store.persistTaskResult env.serde result with ⟨_ | _, store⟩
      · rw [hw] at hwrite
        exact hwrite
      · rw [hw] at hwrite
        have hdag : P (job.record result).dag := by
          rw [JobState.record_dag]
          exact hjobs _ job hjob
        show Q (persistOutcome env result.jobId (job.record result) result store)
        unfold persistOutcome
        split
        · split_ifs
          · exact hQ.jobStatus _ _ _ _ _ _ _ hwrite
          · exact hQ.jobStatus _ _ _ _ _ _ _ (hQ.job _ _ _ _ hwrite hdag)
        · exact hQ.jobStatus _ _ _ _ _ _ _ (hQ.job _ _ _ _ hwrite hdag)
        · exact hwrite

end

end Master
end ProcessingEngine

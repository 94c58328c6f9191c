import ProcessingEngine.Lib.Transition
import ProcessingEngine.Master.Operations

/-!
# The master at work

The master serves its requests concurrently.  A scheduling loop, the one of
`submit_job` or one pass of `schedule_all_queued_tasks`, runs `schedule_task` on
its tasks one after another; any number of loops run at a time, and between two
critical sections of one of them anything else may happen.  `System.step` takes
one event, where a loop advances by one critical section, and `step_job` says
what an event can do to a job.
-/

namespace ProcessingEngine

open Lib

/-- How far `schedule_task` has come with the first task of a loop. -/
inductive Phase (Uuid : Type) where
  | idle
  | selected (worker : Uuid)
  | assigned (worker : Uuid)
  | persisted (worker : Uuid)
  | running (worker : Uuid)
  deriving DecidableEq

structure Loop (Uuid : Type) where
  tasks : List (Task Uuid)
  phase : Phase Uuid := .idle

structure System (Uuid : Type) [DecidableEq Uuid] where
  master : Master Uuid := {}
  loops : List (Loop Uuid) := []
  /-- The passes that were spawned and have not taken their snapshot. -/
  spawned : Nat := 0
  dispatched : List (Task Uuid × WorkerInfo Uuid) := []

/-- `advance i` is one critical section of the loop `i`. -/
inductive Event (Uuid : Type) where
  | submit (jobId : Uuid) (dag : DagSpecification) (order stagesOrder : HashOrder String)
  | register (info : WorkerInfo Uuid)
  | heartbeat (message : HeartbeatMessage Uuid) (now : Nat)
  | collect (now : Nat)
  | snapshot (order : SnapshotOrder Uuid)
  | advance (i : Nat)
  | complete (result : TaskResult Uuid)

variable {Uuid : Type} [DecidableEq Uuid]

/-- The next critical section of `schedule_task` on the first task.  Returns what
was sent to a worker. -/
def Loop.advance (env : MasterEnv Uuid) (m : Master Uuid) :
    Loop Uuid → Option (Loop Uuid × Master Uuid × Option (Task Uuid × WorkerInfo Uuid))
  | ⟨[], _⟩ => none
  | ⟨task :: rest, .idle⟩ =>
      match m.selectWorker with
      | (none, m) => some (⟨rest, .idle⟩, m, none)
      | (some worker, m) => some (⟨task :: rest, .selected worker⟩, m, none)
  | ⟨task :: rest, .selected worker⟩ =>
      some (⟨task :: rest, .assigned worker⟩, m.assignTask task worker, none)
  | ⟨task :: rest, .assigned worker⟩ =>
      some (⟨task :: rest, .persisted worker⟩, m.persistAssignment env task worker, none)
  | ⟨task :: rest, .persisted worker⟩ =>
      some (⟨task :: rest, .running worker⟩, m.markRunning env task, none)
  | ⟨task :: rest, .running worker⟩ =>
      some (⟨rest, .idle⟩, m, (m.registry.getWorker worker).map fun info => (task, info))

namespace System

def advance (env : MasterEnv Uuid) (s : System Uuid) (i : Nat) : Option (System Uuid) := do
  let loop ← s.loops[i]?
  let (loop, master, sent) ← loop.advance env s.master
  return { s with
    master
    loops := s.loops.set i loop
    dispatched := s.dispatched ++ sent.toList }

def step (env : MasterEnv Uuid) (s : System Uuid) : Event Uuid → Option (System Uuid)
  | .submit jobId dag order stagesOrder =>
      if s.master.fresh jobId then
        match s.master.submitJob env order stagesOrder dag jobId with
        | (.error _, master) => some { s with master }
        | (.ok tasks, master) => some { s with master, loops := s.loops ++ [⟨tasks, .idle⟩] }
      else none
  | .register info =>
      some { s with master := s.master.registerWorker info, spawned := s.spawned + 1 }
  | .heartbeat message now =>
      some { s with
        master := s.master.handleHeartbeat env message now
        spawned := s.spawned + 1 }
  | .collect now => some { s with master := s.master.garbageCollectWorkers env now }
  | .snapshot order =>
      if s.spawned = 0 then none
      else some { s with
        spawned := s.spawned - 1
        loops := s.loops ++ [⟨s.master.queuedTasksSnapshot env order, .idle⟩] }
  | .advance i => s.advance env i
  | .complete result => some { s with master := (s.master.completeTask env result).2 }

def job (s : System Uuid) (id : Uuid) : Option (JobState Uuid) := s.master.jobs.lookup id

/-! ### What an event does to a job -/

/-- The ways in which an event taken in `s` can change the job `id`. -/
inductive JobStep (env : MasterEnv Uuid) (s : System Uuid) (id : Uuid) :
    Event Uuid → Option (JobState Uuid) → Option (JobState Uuid) → Prop where
  | unchanged {e job} : JobStep env s id e job job
  | submitted {dag order stagesOrder} :
      JobStep env s id (.submit id dag order stagesOrder) none
        (some (Master.submittedJob dag stagesOrder (dag.materializeTasks env.newV5 order id)))
  | assigned {i task rest worker job} (hloop : s.loops[i]? = some ⟨task :: rest, .selected worker⟩)
      (hid : task.jobId = id) :
      JobStep env s id (.advance i) (some job)
        (some { job with tasks := job.tasks.insert task.taskId (.assigned worker) })
  | running {i task rest worker job} (hloop : s.loops[i]? = some ⟨task :: rest, .persisted worker⟩)
      (hid : task.jobId = id) :
      JobStep env s id (.advance i) (some job) (some { job with status := .running })
  | recorded {result job} (hid : result.jobId = id)
      (hok : s.master.store.accepts result.taskId id) :
      JobStep env s id (.complete result) (some job) (some (job.record result))
  | refused {result job} (hid : result.jobId = id)
      (hok : s.master.store.accepts result.taskId id = false) :
      JobStep env s id (.complete result) (some job) (some (job.recordStatus result))

variable {env : MasterEnv Uuid} {s s' : System Uuid}

/-- A submission of a fresh job publishes it and starts a loop over its tasks, or
leaves the jobs as they are. -/
theorem submit_cases {jobId : Uuid} {dag : DagSpecification} {order stagesOrder : HashOrder String}
    (h : s.step env (.submit jobId dag order stagesOrder) = some s') :
    s.master.fresh jobId ∧
      ((∃ e store, s.master.submitJob env order stagesOrder dag jobId =
            (.error e, { s.master with store }) ∧
          s' = { s with master := { s.master with store } }) ∨
        ∃ tasks store jobs, tasks = dag.materializeTasks env.newV5 order jobId ∧
          jobs = s.master.jobs.insert jobId (Master.submittedJob dag stagesOrder tasks) ∧
          s.master.submitJob env order stagesOrder dag jobId =
            (.ok tasks, { s.master with store, jobs }) ∧
          s' = { s with
            master := { s.master with store, jobs }
            loops := s.loops ++ [⟨tasks, .idle⟩] }) := by
  simp only [step] at h
  split_ifs at h with hfresh
  refine ⟨hfresh, ?_⟩
  rcases Master.submitJob_cases env order stagesOrder dag jobId s.master with
    ⟨e, store, hsub⟩ | ⟨store, hsub⟩
  · rw [hsub] at h
    cases h
    exact Or.inl ⟨e, store, hsub, rfl⟩
  · rw [hsub] at h
    cases h
    exact Or.inr ⟨_, store, _, rfl, rfl, hsub, rfl⟩

/-- A snapshot starts a loop over the queued tasks. -/
theorem snapshot_cases {order : SnapshotOrder Uuid} (h : s.step env (.snapshot order) = some s') :
    s' = { s with
      spawned := s.spawned - 1
      loops := s.loops ++ [⟨s.master.queuedTasksSnapshot env order, .idle⟩] } := by
  simp only [step] at h
  split_ifs at h
  cases h
  rfl

/-- An advance is one of the five critical sections of the first task. -/
theorem advance_cases {i : Nat} (h : s.advance env i = some s') :
    ∃ task rest phase, s.loops[i]? = some ⟨task :: rest, phase⟩ ∧
      match phase with
      | .idle => ∃ next scheduler,
          (next = ⟨rest, .idle⟩ ∨
            ∃ w, (s.master.scheduler.selectWorker s.master.registry).1 = some w ∧
              next = ⟨task :: rest, .selected w⟩) ∧
          s' = { s with master := { s.master with scheduler }, loops := s.loops.set i next }
      | .selected worker =>
          s' = { s with
            master := s.master.assignTask task worker
            loops := s.loops.set i ⟨task :: rest, .assigned worker⟩ }
      | .assigned worker =>
          s' = { s with
            master := s.master.persistAssignment env task worker
            loops := s.loops.set i ⟨task :: rest, .persisted worker⟩ }
      | .persisted worker =>
          s' = { s with
            master := s.master.markRunning env task
            loops := s.loops.set i ⟨task :: rest, .running worker⟩ }
      | .running worker =>
          s' = { s with
            loops := s.loops.set i ⟨rest, .idle⟩
            dispatched := s.dispatched ++
              ((s.master.registry.getWorker worker).map fun info => (task, info)).toList } := by
  simp only [advance, Option.bind_eq_bind, Option.bind_eq_some_iff, Option.pure_def] at h
  obtain ⟨⟨tasks, phase⟩, hloop, ⟨next, master, sent⟩, hadv, hs'⟩ := h
  cases tasks with
  | nil => cases hadv
  | cons task rest =>
      refine ⟨task, rest, phase, hloop, ?_⟩
      cases phase with
      | idle =>
          simp only [Loop.advance, Master.selectWorker] at hadv
          rcases hsel : s.master.scheduler.selectWorker s.master.registry with ⟨_ | w, scheduler⟩
          · rw [hsel] at hadv
            cases hadv
            cases hs'
            exact ⟨_, scheduler, Or.inl rfl, by simp⟩
          · rw [hsel] at hadv
            cases hadv
            cases hs'
            exact ⟨_, scheduler, Or.inr ⟨w, rfl, rfl⟩, by simp⟩
      | selected worker =>
          cases hadv
          cases hs'
          simp
      | assigned worker =>
          cases hadv
          cases hs'
          simp
      | persisted worker =>
          cases hadv
          cases hs'
          simp
      | running worker =>
          cases hadv
          cases hs'
          rfl

theorem submit_job {jobId : Uuid} {dag : DagSpecification} {order stagesOrder : HashOrder String}
    (h : s.step env (.submit jobId dag order stagesOrder) = some s') (id : Uuid) :
    JobStep env s id (.submit jobId dag order stagesOrder) (s.job id) (s'.job id) := by
  unfold job
  obtain ⟨hfresh, ⟨_, store, -, rfl⟩ | ⟨tasks, store, jobs, rfl, rfl, -, rfl⟩⟩ := submit_cases h
  · exact .unchanged
  · by_cases hid : id = jobId
    · subst hid
      rw [Master.lookup_of_fresh hfresh, AList.lookup_insert]
      exact .submitted
    · rw [AList.lookup_insert_ne hid]
      exact .unchanged

/-- Of the five critical sections two change the job of the task. -/
theorem advance_job {i : Nat} (h : s.advance env i = some s') (id : Uuid) :
    JobStep env s id (.advance i) (s.job id) (s'.job id) := by
  unfold job
  obtain ⟨task, rest, phase, hloop, hphase⟩ := advance_cases h
  cases phase with
  | idle =>
      obtain ⟨_, _, _, rfl⟩ := hphase
      exact .unchanged
  | selected worker =>
      subst hphase
      by_cases hid : id = task.jobId
      · subst hid
        rw [Master.assignTask_lookup_self]
        cases s.master.jobs.lookup task.jobId with
        | none => exact .unchanged
        | some job => exact .assigned hloop rfl
      · rw [Master.assignTask_lookup_ne worker hid]
        exact .unchanged
  | assigned worker =>
      subst hphase
      exact .unchanged
  | persisted worker =>
      subst hphase
      by_cases hid : id = task.jobId
      · subst hid
        rw [Master.markRunning_lookup_self]
        cases s.master.jobs.lookup task.jobId with
        | none => exact .unchanged
        | some job => exact .running hloop rfl
      · rw [Master.markRunning_lookup_ne hid]
        exact .unchanged
  | running worker =>
      subst hphase
      exact .unchanged

theorem complete_job {result : TaskResult Uuid} (h : s.step env (.complete result) = some s')
    (id : Uuid) : JobStep env s id (.complete result) (s.job id) (s'.job id) := by
  unfold job
  cases h
  by_cases hid : id = result.jobId
  · subst hid
    cases hjob : s.master.jobs.lookup result.jobId with
    | none =>
        rw [Master.completeTask_unknown hjob, hjob]
        exact .unchanged
    | some job =>
        rw [Master.completeTask_lookup_self env hjob]
        split_ifs with hok
        · exact .recorded rfl hok
        · exact .refused rfl (by simpa using hok)
  · rw [Master.completeTask_lookup_ne hid]
    exact .unchanged

theorem step_job {e : Event Uuid} (h : s.step env e = some s') (id : Uuid) :
    JobStep env s id e (s.job id) (s'.job id) := by
  cases e with
  | submit jobId dag order stagesOrder => exact submit_job h id
  | register info =>
      cases h
      exact .unchanged
  | heartbeat message now =>
      cases h
      exact .unchanged
  | collect now =>
      cases h
      exact .unchanged
  | snapshot order =>
      obtain rfl := snapshot_cases h
      exact .unchanged
  | advance i => exact advance_job h id
  | complete result => exact complete_job h id

/-! ### What an event does to a task -/

def taskStatus (s : System Uuid) (key : Uuid × Uuid) : Option (TaskStatus Uuid) :=
  (s.job key.1).bind fun job => job.tasks.lookup key.2

/-- The ways in which an event taken in `s` can change the status of a task. -/
inductive TaskStep (env : MasterEnv Uuid) (s : System Uuid) (key : Uuid × Uuid) :
    Event Uuid → Option (TaskStatus Uuid) → Option (TaskStatus Uuid) → Prop where
  | unchanged {e status} : TaskStep env s key e status status
  | submitted {dag order stagesOrder} (hjob : s.job key.1 = none)
      (hmem : key.2 ∈ (dag.materializeTasks env.newV5 order key.1).map Task.taskId) :
      TaskStep env s key (.submit key.1 dag order stagesOrder) none (some .queued)
  | assigned {i task rest worker status}
      (hloop : s.loops[i]? = some ⟨task :: rest, .selected worker⟩) (hkey : task.key = key) :
      TaskStep env s key (.advance i) status (some (.assigned worker))
  | reported {result status} (hkey : result.key = key) :
      TaskStep env s key (.complete result) status (some result.status)

theorem step_task {e : Event Uuid} (h : s.step env e = some s') (key : Uuid × Uuid) :
    TaskStep env s key e (s.taskStatus key) (s'.taskStatus key) := by
  have hjob := step_job h key.1
  unfold taskStatus
  generalize hold : s.job key.1 = old at hjob ⊢
  generalize s'.job key.1 = new at hjob ⊢
  cases hjob with
  | unchanged => exact .unchanged
  | @submitted dag order stagesOrder =>
      rw [Option.bind_none, Option.bind_some, Master.submittedJob_lookup]
      split_ifs with hmem
      · exact .submitted hold hmem
      · exact .unchanged
  | @assigned i task rest worker job hloop hid =>
      simp only [Option.bind_some]
      by_cases hkey : key.2 = task.taskId
      · rw [hkey, AList.lookup_insert]
        exact .assigned hloop (Prod.ext hid hkey.symm)
      · rw [AList.lookup_insert_ne hkey]
        exact .unchanged
  | running hloop hid => exact .unchanged
  | @recorded result job hid hok =>
      simp only [Option.bind_some, JobState.record_tasks]
      by_cases hkey : key.2 = result.taskId
      · rw [hkey, AList.lookup_insert]
        exact .reported (Prod.ext hid hkey.symm)
      · rw [AList.lookup_insert_ne hkey]
        exact .unchanged
  | @refused result job hid hok =>
      simp only [Option.bind_some, JobState.recordStatus]
      by_cases hkey : key.2 = result.taskId
      · rw [hkey, AList.lookup_insert]
        exact .reported (Prod.ext hid hkey.symm)
      · rw [AList.lookup_insert_ne hkey]
        exact .unchanged

/-- Replacing one loop leaves those before and after it in place. -/
theorem loops_split {i : Nat} {loop : Loop Uuid} (h : s.loops[i]? = some loop) :
    ∃ before after, s.loops = before ++ loop :: after ∧
      ∀ next, s.loops.set i next = before ++ next :: after := by
  obtain ⟨hi, hget⟩ := List.getElem?_eq_some_iff.mp h
  refine ⟨s.loops.take i, s.loops.drop (i + 1), ?_, fun next => ?_⟩
  · rw [← hget, List.getElem_cons_drop, List.take_append_drop]
  · rw [List.set_eq_take_append_cons_drop, if_pos hi]

/-! ### A small installation -/

/-- Ids that are paths: a task lies below its job. -/
def pathEnv : MasterEnv Path where
  newV5 jobId name := name :: jobId
  serde := Serde.tallied Path
  heartbeatIntervalMs := 1000

theorem pathEnv_newV5_injective (jobId : Path) : Function.Injective (pathEnv.newV5 jobId) :=
  fun _ _ h => (List.cons.inj h).1

/-- A job that reads a file. -/
def readDag (partitions : Nat) : DagSpecification where
  nodes := [⟨"read", .read "in.jsonl" "jsonl"⟩]
  edges := []
  partitions

def readSubmission (jobId : Path) (partitions : Nat) : Event Path :=
  .submit jobId (readDag partitions) .insertion .insertion

def readResult (jobId taskId : Path) (status : TaskStatus Path) : TaskResult Path where
  taskId
  jobId
  operator := .read "in.jsonl" "jsonl"
  stageId := 0
  partition := 0
  resultLocation := ⟨["data", "part-0.bin"], 0⟩
  metrics := {}
  status

def registration : Event Path :=
  .register { id := ["w"], address := "w:1", status := .active, lastHeartbeat := 0, metrics := {} }

def snapshotOrder : SnapshotOrder Path := ⟨.insertion, fun _ => .insertion⟩

end System
end ProcessingEngine

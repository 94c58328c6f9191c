import Mathlib.Data.Rat.Defs

/-!
# Operators, tasks and their results

The data types of `common/dag.rs` and `common/types.rs` that the master and the
workers exchange.  Identifiers are of an arbitrary type `Uuid`; times and
durations are natural numbers of milliseconds.
-/

namespace ProcessingEngine

inductive JoinType where
  | inner
  | left
  | right
  | full
  deriving DecidableEq, Repr

inductive OperatorType where
  | read (uri format : String)
  | map (script : String)
  | filter (predicate : String)
  | reduce (reducer : String)
  | reduceByKey (key op : String)
  | flatMap (func : String)
  | join (key : String) (joinType : JoinType)
  | shuffleByKey (key : String) (totalPartitions : Nat)
  | aggregate (aggregation : String)
  | identity
  deriving DecidableEq, Repr

inductive WorkerStatus where
  | active
  | down
  | idle
  | running
  | failed
  | lost
  deriving DecidableEq, Repr

inductive JobStatus where
  | accepted
  | pending
  | running
  | completed
  | succeeded
  | failed
  deriving DecidableEq, Repr

inductive TaskStatus (Uuid : Type) where
  | queued
  | assigned (worker : Uuid)
  | running (worker : Uuid)
  | completed
  | failed (message : String)
  | retrying (attempt : Nat)
  deriving DecidableEq, Repr

/-- `cpuPct` is the value of `cpu_pct as u32`, the only use of that field. -/
structure WorkerMetrics (Uuid : Type) where
  tasksInFlight : Nat := 0
  cpuPct : UInt32 := 0
  memoryMb : Nat := 0
  tasksCompleted : Nat := 0
  tasksFailed : Nat := 0
  recordsProcessed : Nat := 0
  currentTask : Option Uuid := none
  deriving DecidableEq

structure WorkerInfo (Uuid : Type) where
  id : Uuid
  address : String
  status : WorkerStatus
  lastHeartbeat : Nat
  metrics : WorkerMetrics Uuid
  deriving DecidableEq

structure Task (Uuid : Type) where
  taskId : Uuid
  jobId : Uuid
  stageId : Nat
  attempt : Nat
  operator : OperatorType
  operators : List OperatorType := []
  operatorIds : List String := []
  incomingEdges : List (List String) := []
  partition : Nat
  inputUri : String
  inputFormat : String
  totalPartitions : Nat
  deriving DecidableEq, Repr

/-- A task id belongs to its job. -/
def Task.key {Uuid : Type} (task : Task Uuid) : Uuid × Uuid := (task.jobId, task.taskId)

structure TaskMetrics where
  processedRecords : Nat := 0
  durationMs : Nat := 0
  cpuTimeMs : Nat := 0
  wallTimeMs : Nat := 0
  deriving DecidableEq, Repr

/-- A path is the list of its components. -/
abbrev Path := List String

structure ResultLocation where
  path : Path
  sizeBytes : Nat
  deriving DecidableEq, Repr

structure PartitionInfo where
  partitionId : Nat
  recordCount : Nat
  spillPath : Option Path
  deriving DecidableEq, Repr

structure StageTrace where
  stageId : Nat
  operatorId : String
  incomingEdges : List String
  outputPartitions : List PartitionInfo
  deriving DecidableEq, Repr

structure ExecutionTrace (Uuid : Type) where
  jobId : Uuid
  stages : List StageTrace
  deriving DecidableEq, Repr

structure TaskResult (Uuid : Type) where
  taskId : Uuid
  jobId : Uuid
  operator : OperatorType
  stageId : Nat
  partition : Nat
  resultLocation : ResultLocation
  metrics : TaskMetrics
  status : TaskStatus Uuid
  trace : Option (ExecutionTrace Uuid) := none
  finalPartitions : Option (List PartitionInfo) := none
  deriving DecidableEq, Repr

def TaskResult.key {Uuid : Type} (result : TaskResult Uuid) : Uuid × Uuid :=
  (result.jobId, result.taskId)

structure StageMetrics where
  stageId : Nat := 0
  tasksTotal : Nat := 0
  tasksCompleted : Nat := 0
  tasksFailed : Nat := 0
  durationMs : Nat := 0
  deriving DecidableEq, Repr

structure WorkerAggregate (Uuid : Type) where
  workerId : Uuid
  tasksCompleted : Nat
  tasksFailed : Nat
  recordsProcessed : Nat
  cpuTimeMs : Nat
  wallTimeMs : Nat
  deriving DecidableEq, Repr

structure JobMetrics (Uuid : Type) where
  totalTasks : Nat := 0
  completedTasks : Nat := 0
  failedTasks : Nat := 0
  pendingTasks : Nat := 0
  stages : List StageMetrics := []
  workers : List (WorkerAggregate Uuid) := []
  deriving DecidableEq, Repr

/-- The share of completed tasks in percent.  The code computes it in `f32`,
whose rounding is monotone and exact at 0, 1 and 100. -/
def JobMetrics.progress {Uuid : Type} (m : JobMetrics Uuid) : ℚ :=
  if m.totalTasks = 0 then 0 else (m.completedTasks : ℚ) / (m.totalTasks : ℚ) * 100

structure HeartbeatMessage (Uuid : Type) where
  workerId : Uuid
  address : String
  metrics : WorkerMetrics Uuid
  timestamp : Nat

end ProcessingEngine

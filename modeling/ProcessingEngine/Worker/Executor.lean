import ProcessingEngine.Worker.Operator

/-!
# The executor of a worker

`worker/executor.rs`: the operators of a task in their order, each fed with the
partitions that its parents left in a table, the writing of the final partitions
to the data directory, and the retries of a failed task.  An `Execution` carries
the result that is reported and, beside it, the records that were written.
-/

namespace ProcessingEngine

open Lib Text

/-- The fields of the configuration that the executor reads. -/
structure Config where
  dataDir : Path
  partitionCacheLimitBytes : Nat
  taskRetryLimit : Nat
  deriving DecidableEq, Repr

structure Executor (F Uuid : Type) where
  host : Host F
  config : Config
  /-- The text of an id. -/
  uuidText : Uuid → String

/-- What may differ between two executions of one task: the order of the hash
map of each operator, and the time taken. -/
structure Attempt where
  order : Nat → HashOrder String
  durationMs : Nat

/-- The operators of a task, with the names and edges of their nodes. -/
structure Pipeline where
  operators : List Operator
  operatorIds : List String
  incomingEdges : List (List String)
  partitionId : Nat
  cacheLimit : Nat
  spillPath : Path

/-- A computation on the files that does not fail. -/
abbrev Thread := Prog FileOp (Option Bytes)

structure Execution (F Uuid : Type) where
  result : TaskResult Uuid
  /-- The final partitions and their records, as they were written. -/
  output : List (Nat × List (Record F))

namespace Pipeline

variable {F α : Type}

def operatorId (p : Pipeline) (idx : Nat) : String :=
  p.operatorIds[idx]?.getD ("op-" ++ toString idx)

def edges (p : Pipeline) (idx : Nat) : List String := p.incomingEdges[idx]?.getD []

/-- The parents of an operator, from the texts of its edges. -/
def parents (p : Pipeline) (idx : Nat) : List String := (p.edges idx).map beforeArrow

/-- Remove the outputs of the parents from the table. -/
def takeParents : List String → HashMap String (List α) → List α × HashMap String (List α)
  | [], results => ([], results)
  | parent :: rest, results =>
      match results.lookup parent with
      | some parts =>
          let (more, results) := takeParents rest (results.erase parent)
          (parts ++ more, results)
      | none => takeParents rest results

/-- The input of an operator.  One without parents gets the partition `empty`. -/
def inputOf (empty : α) (parents : List String) (results : HashMap String (List α)) :
    List α × HashMap String (List α) :=
  if parents.isEmpty then ([empty], results) else takeParents parents results

def partitionInfo (partition : PartitionData F) : PartitionInfo where
  partitionId := partition.partitionId
  recordCount := partition.recordCount
  spillPath := if partition.cache.hasSpill then some partition.spillPath else none

def stageTrace (p : Pipeline) (idx : Nat) (partitions : List (PartitionData F)) : StageTrace where
  stageId := idx
  operatorId := p.operatorId idx
  incomingEdges := p.edges idx
  outputPartitions := partitions.map partitionInfo

/-- Run the operators from number `idx` on. -/
def runOperators [BEq F] (host : Host F) (attempt : Attempt) (p : Pipeline) :
    Nat → List Operator → HashMap String (List (PartitionData F)) → List StageTrace →
      Action (HashMap String (List (PartitionData F)) × List StageTrace)
  | _, [], results, stages => return (results, stages)
  | idx, op :: rest, results, stages => do
      let (input, results) :=
        inputOf (.empty p.partitionId p.cacheLimit p.spillPath) (p.parents idx) results
      let partitions ← op.execute host (attempt.order idx) input
      runOperators host attempt p (idx + 1) rest (results.insert (p.operatorId idx) partitions)
        (stages ++ [p.stageTrace idx partitions])

def finalKey (p : Pipeline) : String := p.operatorIds.getLast?.getD "final"

def run [BEq F] (host : Host F) (attempt : Attempt) (p : Pipeline) :
    Action (List (PartitionData F) × List StageTrace) := do
  let (results, stages) ← runOperators host attempt p 0 p.operators ∅ []
  match results.lookup p.finalKey with
  | some parts => return (parts, stages)
  | none => Exec.fail (.error "missing final operator output")

end Pipeline

namespace Executor

variable {F Uuid : Type}

def store (ex : Executor F Uuid) : PartitionStore := ⟨ex.config.dataDir⟩

def operatorDefs (task : Task Uuid) : List OperatorType :=
  if task.operators.isEmpty then [task.operator] else task.operators

def finalStageId (task : Task Uuid) : Nat := (operatorDefs task).length - 1

def reportedOperator (task : Task Uuid) : OperatorType :=
  (operatorDefs task).getLast?.getD task.operator

def partitionPath (ex : Executor F Uuid) (task : Task Uuid) (partition : Nat) : Path :=
  ex.store.partitionPath ex.uuidText task.jobId (finalStageId task) partition

def spillPath (ex : Executor F Uuid) (task : Task Uuid) : Path :=
  ex.store.spillPath ex.uuidText task.jobId (finalStageId task) task.partition

def pipeline (ex : Executor F Uuid) (task : Task Uuid) : Pipeline :=
  let operatorIds :=
    if task.operatorIds.isEmpty then
      (List.range task.operators.length).map fun idx => "op-" ++ toString idx
    else task.operatorIds
  { operators := (operatorDefs task).map fun opDef =>
      Operator.fromType opDef task.partition (max task.totalPartitions 1)
        ex.config.partitionCacheLimitBytes (ex.spillPath task)
    operatorIds
    incomingEdges :=
      if task.incomingEdges.isEmpty then List.replicate operatorIds.length []
      else task.incomingEdges
    partitionId := task.partition
    cacheLimit := ex.config.partitionCacheLimitBytes
    spillPath := ex.spillPath task }

def operatorName (ex : Executor F Uuid) (task : Task Uuid) : String :=
  ((ex.pipeline task).operators.getLast?.map Operator.name).getD "unknown"

/-- Write one final partition under its own number. -/
def writePartition (ex : Executor F Uuid) (task : Task Uuid) (partition : PartitionData F) :
    Action ((Nat × List (Record F)) × Nat) := do
  let (_, _, records) ← partition.intoParts ex.host
  let bytes ← PartitionStore.writeRecords ex.host
    (ex.partitionPath task partition.partitionId) records
  return ((partition.partitionId, records), bytes)

/-- The size of the last partition that has the number of the task. -/
def finalBytes (task : Task Uuid) (written : List ((Nat × List (Record F)) × Nat)) : Nat :=
  written.foldl (fun bytes w => if w.1.1 = task.partition then w.2 else bytes) 0

def failedResult (ex : Executor F Uuid) (task : Task Uuid) (durationMs : Nat) (error : String) :
    TaskResult Uuid where
  taskId := task.taskId
  jobId := task.jobId
  operator := reportedOperator task
  stageId := finalStageId task
  partition := task.partition
  resultLocation := ⟨ex.partitionPath task task.partition, 0⟩
  metrics := ⟨0, durationMs, durationMs, durationMs⟩
  status := .failed (ex.operatorName task ++ ": " ++ error)

/-- The trace with the written partitions in its last stage. -/
def finalTrace (stages : List StageTrace) (written : List ((Nat × List (Record F)) × Nat)) :
    List StageTrace :=
  stages.modifyLast fun stage =>
    { stage with outputPartitions := written.map fun w => ⟨w.1.1, w.1.2.length, none⟩ }

def completedResult (ex : Executor F Uuid) (task : Task Uuid) (durationMs processed : Nat)
    (stages : List StageTrace) (written : List ((Nat × List (Record F)) × Nat)) :
    TaskResult Uuid where
  taskId := task.taskId
  jobId := task.jobId
  operator := reportedOperator task
  stageId := finalStageId task
  partition := task.partition
  resultLocation := ⟨ex.partitionPath task task.partition, finalBytes task written⟩
  metrics := ⟨processed, durationMs, durationMs, durationMs⟩
  status := .completed
  trace := some ⟨task.jobId, finalTrace stages written⟩
  finalPartitions := (finalTrace stages written).getLast?.map StageTrace.outputPartitions

/-- The failure of the pipeline in the message of the result. -/
def pipelineError (name : String) : Fail → String
  | .error e => "operator " ++ name ++ " failed: " ++ e
  | .panic => "operator " ++ name ++ " panicked"

/-- The failure of the writing.  No step of it panics. -/
def writeError (name : String) : Fail → String
  | .error e => "operator " ++ name ++ " failed writing output: " ++ e
  | .panic => "task panicked while joining"

/-- The result of a task whose pipeline failed. -/
def pipelineFailed (ex : Executor F Uuid) (attempt : Attempt) (task : Task Uuid) (e : Fail) :
    Execution F Uuid :=
  ⟨ex.failedResult task attempt.durationMs (pipelineError (ex.operatorName task) e), []⟩

/-- One execution of a task.  Its failures end up in the result. -/
def executeSync [BEq F] (ex : Executor F Uuid) (attempt : Attempt) (task : Task Uuid) :
    Thread (Execution F Uuid) :=
  ((ex.pipeline task).run ex.host attempt).handle fun
    | .error e => .pure (ex.pipelineFailed attempt task e)
    | .ok (partitions, stages) =>
        let processed := (partitions.map PartitionData.recordCount).sum
        (Exec.forEach (ex.writePartition task) partitions).handle fun
          | .error e => .pure
              ⟨ex.failedResult task attempt.durationMs (writeError (ex.operatorName task) e), []⟩
          | .ok written => .pure
              ⟨ex.completedResult task attempt.durationMs processed stages written,
                written.map Prod.fst⟩

theorem executeSync_of_error [BEq F] {ex : Executor F Uuid} {attempt : Attempt}
    {task : Task Uuid} {files files' : Files} {e : Fail}
    (h : (ex.pipeline task).run ex.host attempt files = (.error e, files')) :
    ex.executeSync attempt task files = (ex.pipelineFailed attempt task e, files') := by
  rw [executeSync, Exec.run_handle, h]
  rfl

theorem executeSync_of_ok [BEq F] {ex : Executor F Uuid} {attempt : Attempt}
    {task : Task Uuid} {files files' : Files} {partitions : List (PartitionData F)}
    {stages : List StageTrace}
    (h : (ex.pipeline task).run ex.host attempt files = (.ok (partitions, stages), files')) :
    ex.executeSync attempt task files =
      match Exec.forEach (ex.writePartition task) partitions files' with
      | (.error e, files) =>
          (⟨ex.failedResult task attempt.durationMs (writeError (ex.operatorName task) e), []⟩,
            files)
      | (.ok written, files) =>
          (⟨ex.completedResult task attempt.durationMs
              (partitions.map PartitionData.recordCount).sum stages written,
            written.map Prod.fst⟩, files) := by
  rw [executeSync, Exec.run_handle, h]
  simp only [Exec.run_handle]
  rcases Exec.forEach (ex.writePartition task) partitions files' with ⟨_ | written, s⟩ <;> rfl

/-- Execute a task again while it fails and attempts are left. -/
def retry [BEq F] (ex : Executor F Uuid) (attempts : Nat → Attempt) (task : Task Uuid) :
    Nat → Thread (Execution F Uuid)
  | 0 => ex.executeSync (attempts 0) task
  | n + 1 => (ex.executeSync (attempts (n + 1)) task).bind fun execution =>
      match execution.result.status with
      | .failed _ => retry ex attempts task n
      | _ => .pure execution

def executeTask [BEq F] (ex : Executor F Uuid) (attempts : Nat → Attempt) (task : Task Uuid) :
    Thread (Execution F Uuid) :=
  ex.retry attempts task ex.config.taskRetryLimit

/-- An executor for concrete runs, on the directory `data`. -/
def plain (values : List (Value Int)) : Executor Int Path where
  host := .plain values
  config := ⟨["data"], 1000, 1⟩
  uuidText := String.join

end Executor

def Attempt.plain : Attempt := ⟨fun _ => .insertion, 0⟩

end ProcessingEngine

import ProcessingEngine.Lib.Refine
import ProcessingEngine.Worker.Flow

/-!
# Plans

A plan is what a task does to partitions, with the records of each of them in
hand: which input files it reads, which partitions outgrow their limit and are
spilled, and which of those it takes back.  A `Ledger` has the files that the task
would have without spilling, and beside them the spill files that hold a
partition.  It has no place for two partitions in one spill file, for a spill file
at the place of another file, or for a partition that is not in its spill file any
more: there the plan is at fault.  Whatever carries out the single steps of plans
carries out the plans of all operators and tasks.
-/

namespace ProcessingEngine

open Lib Lib.Exec Text

variable {F : Type}

/-- A partition with its records, wherever they are. -/
structure Part (F : Type) where
  partitionId : Nat
  limitBytes : Nat
  spillPath : Path
  records : List (Record F)

namespace Part

/-- The partition as it was filled with its records, when the limits are changed. -/
def data (host : Host F) (lim : Nat → Nat) (part : Part F) : PartitionData F :=
  .stored host part.partitionId (lim part.limitBytes) part.spillPath part.records

@[simp] theorem data_limitBytes (host : Host F) (lim : Nat → Nat) (part : Part F) :
    (part.data host lim).limitBytes = lim part.limitBytes := PartitionData.stored_limitBytes

@[simp] theorem data_spillPath (host : Host F) (lim : Nat → Nat) (part : Part F) :
    (part.data host lim).spillPath = part.spillPath := PartitionData.stored_spillPath

theorem data_nil (host : Host F) (lim : Nat → Nat) (pid limitBytes : Nat) (spill : Path) :
    Part.data host lim ⟨pid, limitBytes, spill, []⟩ = .empty pid (lim limitBytes) spill := by
  have hfits : host.sizeOf [] ≤ lim limitBytes :=
    le_trans (host.sizeOf_le_byteSize []) (Nat.zero_le _)
  rw [data, PartitionData.stored, PartitionCache.stored, if_pos hfits]
  rfl

/-- The records do not fit in memory. -/
def exceeds (host : Host F) (part : Part F) : Bool :=
  decide (part.limitBytes < host.sizeOf part.records)

end Part

/-- The steps of a plan.  A spill file is given by its content. -/
inductive PartOp (F : Type) where
  | read (path : Path)
  | spill (part : Part F) (data : Bytes)
  | restore (part : Part F) (data : Bytes)
  | write (path : Path) (data : Bytes)

/-- The files without spilling, the spill files in use, and the partitions that
have been taken back. -/
structure Ledger (F : Type) where
  files : Files
  live : HashMap Path Bytes := ∅
  restored : List (Part F) := []

namespace Ledger

/-- A step, unless it is a fault. -/
def step (ledger : Ledger F) : PartOp F → Option (Ledger F)
  | .read path => if path ∈ ledger.live then none else some ledger
  | .spill part data =>
      if part.spillPath ∈ ledger.live ∨ part.spillPath ∈ ledger.files then none
      else some { ledger with live := ledger.live.insert part.spillPath data }
  | .restore part data =>
      if ledger.live.lookup part.spillPath = some data then
        some { ledger with
          live := ledger.live.erase part.spillPath
          restored := part :: ledger.restored }
      else none
  | .write path data =>
      if path ∈ ledger.live then none
      else some { ledger with files := ledger.files.insert path data }

/-- Only a read has an answer. -/
def answer (ledger : Ledger F) : PartOp F → Option Bytes
  | .read path => ledger.files.lookup path
  | _ => none

end Ledger

instance interpLedger : Interp (PartOp F) (Option Bytes) (Option (Ledger F)) where
  exec op state := (state.bind (Ledger.answer · op), state.bind (Ledger.step · op))

abbrev Plan (F α : Type) := Exec (PartOp F) (Option Bytes) Fail α

namespace Part

/-- Take the records out of a partition. -/
def take (host : Host F) (part : Part F) : Plan F (List (Record F)) :=
  if part.exceeds host then do
    let _ ← perform (.restore part (host.jsonLines part.records))
    return part.records
  else return part.records

/-- Fill a partition with its records. -/
def put (host : Host F) (part : Part F) : Plan F (Part F) :=
  if part.exceeds host then do
    let _ ← perform (.spill part (host.jsonLines part.records))
    return part
  else return part

def takeAll (host : Host F) (parts : List (Part F)) : Plan F (List (Record F)) := do
  let records ← Exec.forEach (take host) parts
  return records.flatten

/-- Replace the records of every partition. -/
def perPart (host : Host F) (f : List (Record F) → Except Fail (List (Record F)))
    (parts : List (Part F)) : Plan F (List (Part F)) :=
  Exec.forEach (fun part => do
    let records ← part.take host
    let mapped ← Exec.lift (f records)
    ({ part with records := mapped } : Part F).put host) parts

end Part

/-! ### The plans of the operators -/

def readInput (message : String) (path : Path) : Plan F Bytes := do
  match ← perform (.read path) with
  | some content => return content
  | none => Exec.fail (.error message)

def ReadOp.plan (host : Host F) (op : ReadOp) : Plan F (List (Part F)) := do
  let content ← readInput ("opening input " ++ op.path) (host.resolve op.path)
  let records ← Exec.lift
    (ReadOp.readRecords host op.format op.totalPartitions op.partitionId content)
  let part ← Part.put host ⟨op.partitionId, op.cacheLimitBytes, op.spillPath, records⟩
  return [part]

def MapOp.plan (host : Host F) (op : MapOp) : List (Part F) → Plan F (List (Part F)) :=
  Part.perPart host (List.mapM (MapOp.applyFn host op.func))

def FilterOp.plan [BEq F] (host : Host F) (op : FilterOp) (parts : List (Part F)) :
    Plan F (List (Part F)) := do
  let predicate ← Exec.lift (Predicate.parse host op.predicate)
  Part.perPart host (fun records => .ok (records.filter fun r => predicate.eval host r)) parts

def FlatMapOp.plan (host : Host F) (op : FlatMapOp) : List (Part F) → Plan F (List (Part F)) :=
  Part.perPart host fun records => (records.mapM (FlatMapOp.apply op.func)).map List.flatten

def ReduceOp.plan (host : Host F) (op : ReduceOp) (parts : List (Part F)) :
    Plan F (List (Part F)) := do
  let reducer ← Exec.lift (ReducerKind.parse op.reducer)
  match parts with
  | [] => return []
  | first :: rest =>
      let records ← Part.takeAll host (first :: rest)
      let part ← ({ first with records := [reducer.applyReducer host records] } : Part F).put host
      return [part]

def ReduceByKeyOp.groupParts (host : Host F) (op : ReduceByKeyOp) :
    HashMap String (List (Record F)) → List (Part F) →
      Plan F (HashMap String (List (Record F)))
  | groups, [] => return groups
  | groups, part :: rest => do
      let records ← part.take host
      let groups ← Exec.lift (ReduceByKeyOp.groupRecords op.key groups records)
      groupParts host op groups rest

def ReduceByKeyOp.plan (host : Host F) (order : HashOrder String) (op : ReduceByKeyOp)
    (parts : List (Part F)) : Plan F (List (Part F)) :=
  match parts with
  | [] => return []
  | first :: rest =>
      match ReducerKind.parse op.reducer with
      | .error _ => Exec.fail (ReduceByKeyOp.unsupportedReducer op.reducer)
      | .ok reducer => do
          let groups ← op.groupParts host ∅ (first :: rest)
          let part ← ({ first with
            records := ReduceByKeyOp.outRecords host op reducer order groups } : Part F).put host
          return [part]

def JoinOp.plan [BEq F] (host : Host F) (op : JoinOp) (parts : List (Part F)) :
    Plan F (List (Part F)) :=
  match parts with
  | [left, right] => do
      let leftRecords ← left.take host
      let rightRecords ← right.take host
      let output ← Exec.lift (JoinOp.joinRecords host op leftRecords rightRecords)
      let part ← Part.put host
        ⟨min left.partitionId right.partitionId, left.limitBytes, left.spillPath, output⟩
      return [part]
  | _ => Exec.fail (JoinOp.wrongInputCount parts.length)

namespace ShuffleByKeyOp

def partLimit (parts : List (Part F)) : Nat := (parts.head?.map Part.limitBytes).getD usizeMax

def partBase (host : Host F) (parts : List (Part F)) : Path :=
  (parts.head?.bind fun p => parent p.spillPath).getD host.tempDir

def plan (host : Host F) (op : ShuffleByKeyOp) (parts : List (Part F)) : Plan F (List (Part F)) :=
  if op.totalPartitions = 0 then
    Exec.fail (.error "shuffle: total_partitions must be > 0")
  else do
    let records ← Part.takeAll host parts
    Exec.forEach (fun (records, idx) => Part.put host
      ⟨idx, partLimit parts, bucketPath (partBase host parts) idx, records⟩)
      (op.buckets host records).zipIdx

end ShuffleByKeyOp

def Operator.plan [BEq F] (host : Host F) (order : HashOrder String) (operator : Operator)
    (parts : List (Part F)) : Plan F (List (Part F)) :=
  match operator with
  | .read op => op.plan host
  | .map op => op.plan host parts
  | .filter op => op.plan host parts
  | .flatMap op => op.plan host parts
  | .reduce op => op.plan host parts
  | .reduceByKey op => op.plan host order parts
  | .join op => op.plan host parts
  | .shuffle op => op.plan host parts

/-! ### The plan of a task -/

namespace Pipeline

/-- The partition that an operator without parents gets. -/
def emptyPart (p : Pipeline) : Part F := ⟨p.partitionId, p.cacheLimit, p.spillPath, []⟩

def planOperators [BEq F] (host : Host F) (attempt : Attempt) (p : Pipeline) :
    Nat → List Operator → HashMap String (List (Part F)) →
      Plan F (HashMap String (List (Part F)))
  | _, [], results => return results
  | idx, op :: rest, results => do
      let (input, results) := inputOf p.emptyPart (p.parents idx) results
      let parts ← op.plan host (attempt.order idx) input
      planOperators host attempt p (idx + 1) rest (results.insert (p.operatorId idx) parts)

def plan [BEq F] (host : Host F) (attempt : Attempt) (p : Pipeline) :
    Plan F (List (Part F)) := do
  let results ← p.planOperators host attempt 0 p.operators ∅
  match results.lookup p.finalKey with
  | some parts => return parts
  | none => Exec.fail (.error "missing final operator output")

end Pipeline

namespace Executor

variable {Uuid : Type}

/-- How the plan of a task ends: with an error message or with its records. -/
abbrev Outcome (F : Type) := Except String (List (Nat × List (Record F)))

/-- Write one final partition, and yield its number and its records. -/
def planWrite (ex : Executor F Uuid) (task : Task Uuid) (part : Part F) :
    Plan F (Nat × List (Record F)) := do
  let records ← part.take ex.host
  let _ ← perform (.write (ex.partitionPath task part.partitionId) (ex.host.jsonLines records))
  return (part.partitionId, records)

/-- One execution of a task. -/
def planSync [BEq F] (ex : Executor F Uuid) (attempt : Attempt) (task : Task Uuid) :
    Prog (PartOp F) (Option Bytes) (Outcome F) :=
  ((ex.pipeline task).plan ex.host attempt).handle fun
    | .error e => .pure (.error (pipelineError (ex.operatorName task) e))
    | .ok parts => (Exec.forEach (ex.planWrite task) parts).handle fun
        | .error e => .pure (.error (writeError (ex.operatorName task) e))
        | .ok output => .pure (.ok output)

def planRetry [BEq F] (ex : Executor F Uuid) (attempts : Nat → Attempt) (task : Task Uuid) :
    Nat → Prog (PartOp F) (Option Bytes) (Outcome F)
  | 0 => ex.planSync (attempts 0) task
  | n + 1 => (ex.planSync (attempts (n + 1)) task).bind fun
      | .error _ => planRetry ex attempts task n
      | .ok output => .pure (.ok output)

/-- All attempts of a task. -/
def planTask [BEq F] (ex : Executor F Uuid) (attempts : Nat → Attempt) (task : Task Uuid) :
    Prog (PartOp F) (Option Bytes) (Outcome F) :=
  ex.planRetry attempts task ex.config.taskRetryLimit

/-- The ledger of a task at its end, if its plan on these files is not at fault. -/
def ledgerOf [BEq F] (ex : Executor F Uuid) (files : Files) (attempts : Nat → Attempt)
    (task : Task Uuid) : Option (Ledger F) :=
  (ex.planTask attempts task (some { files })).2

/-- The status of a task that ends in this way. -/
def statusOf (ex : Executor F Uuid) (task : Task Uuid) : Outcome F → TaskStatus Uuid
  | .error message => .failed (ex.operatorName task ++ ": " ++ message)
  | .ok _ => .completed

/-- The execution reports the status and has the records of a plan that ends so. -/
structure Shows (ex : Executor F Uuid) (task : Task Uuid) (out : Outcome F)
    (execution : Execution F Uuid) : Prop where
  status : execution.result.status = ex.statusOf task out
  output : execution.output = out.toOption.getD []

end Executor

end ProcessingEngine

import ProcessingEngine.Worker.Join
import ProcessingEngine.Worker.Read
import ProcessingEngine.Worker.Reduce
import ProcessingEngine.Worker.Transform

/-!
# Operators

`worker/ops/shuffle.rs` and the dispatch of `worker/ops/mod.rs`.  Each operator
turns a list of partitions into a list of partitions.
-/

namespace ProcessingEngine

open Lib Text

variable {F : Type}

/-! ### Shuffle -/

structure ShuffleByKeyOp where
  key : String
  totalPartitions : Nat
  deriving DecidableEq, Repr

namespace ShuffleByKeyOp

def hashInput (host : Host F) (value : Value F) (key : String) : HashInput :=
  match value.get key with
  | some (.string s) => .string s
  | some (.number n) => .string (host.numberText n)
  | some (.bool b) => .bool b
  | _ => .zero

def computeBucket (host : Host F) (value : Value F) (key : String) (total : Nat) : Nat :=
  host.hash (hashInput host value key) % total

/-- `path.parent()` -/
def parent (path : Path) : Option Path := if path.isEmpty then none else some path.dropLast

def bucketPath (base : Path) (idx : Nat) : Path := base ++ ["bucket-" ++ toString idx ++ ".bin"]

/-- The records by bucket, in order. -/
def buckets (host : Host F) (op : ShuffleByKeyOp) (records : List (Record F)) :
    List (List (Record F)) :=
  records.foldl (fun buckets r =>
      buckets.modify (computeBucket host r op.key op.totalPartitions) (· ++ [r]))
    (List.replicate op.totalPartitions [])

def limit (partitions : List (PartitionData F)) : Nat :=
  (partitions.head?.map PartitionData.limitBytes).getD usizeMax

def spillBase (host : Host F) (partitions : List (PartitionData F)) : Path :=
  (partitions.head?.bind fun p => parent p.spillPath).getD host.tempDir

def execute (host : Host F) (op : ShuffleByKeyOp) (partitions : List (PartitionData F)) :
    Action (List (PartitionData F)) :=
  if op.totalPartitions = 0 then
    Exec.fail (.error "shuffle: total_partitions must be > 0")
  else do
    let records ← drainPartitions host partitions
    Exec.forEach (fun (records, idx) =>
      PartitionData.fromRecords host idx (limit partitions)
        (bucketPath (spillBase host partitions) idx) records) (op.buckets host records).zipIdx

theorem length_buckets (host : Host F) (op : ShuffleByKeyOp) (records : List (Record F)) :
    (op.buckets host records).length = op.totalPartitions := by
  have hfold : ∀ bs : List (List (Record F)),
      (records.foldl (fun buckets r =>
        buckets.modify (computeBucket host r op.key op.totalPartitions) (· ++ [r])) bs).length =
      bs.length := by
    induction records with
    | nil => exact fun bs => rfl
    | cons r records ih =>
        intro bs
        rw [List.foldl_cons, ih, List.length_modify]
  rw [buckets, hfold, List.length_replicate]

end ShuffleByKeyOp

/-! ### The dispatch -/

inductive Operator where
  | read (op : ReadOp)
  | map (op : MapOp)
  | filter (op : FilterOp)
  | flatMap (op : FlatMapOp)
  | reduce (op : ReduceOp)
  | reduceByKey (op : ReduceByKeyOp)
  | join (op : JoinOp)
  | shuffle (op : ShuffleByKeyOp)
  deriving DecidableEq, Repr

namespace Operator

/-- The operator of a node, for a partition of a task.  No case fails. -/
def fromType (value : OperatorType) (partitionId totalPartitions cacheLimitBytes : Nat)
    (spillPath : Path) : Operator :=
  match value with
  | .read uri format => .read
      { path := uri
        format
        partitionId
        totalPartitions := max totalPartitions 1
        cacheLimitBytes
        spillPath }
  | .map script => .map ⟨script⟩
  | .filter predicate => .filter ⟨predicate⟩
  | .flatMap func => .flatMap ⟨func⟩
  | .join key joinType => .join ⟨key, joinType⟩
  | .reduce reducer => .reduce ⟨reducer⟩
  | .reduceByKey key op => .reduceByKey ⟨key, op⟩
  | .shuffleByKey key totalPartitions => .shuffle ⟨key, max totalPartitions 1⟩
  | .aggregate aggregation => .reduce ⟨aggregation⟩
  | .identity => .map ⟨"identity"⟩

def name : Operator → String
  | .read _ => "read"
  | .map _ => "map"
  | .filter _ => "filter"
  | .flatMap _ => "flat_map"
  | .reduce _ => "reduce"
  | .reduceByKey _ => "reduce_by_key"
  | .join _ => "join"
  | .shuffle _ => "shuffle"

def execute [BEq F] (host : Host F) (order : HashOrder String) (operator : Operator)
    (input : List (PartitionData F)) : Action (List (PartitionData F)) :=
  match operator with
  | .read op => op.execute host
  | .map op => op.execute host input
  | .filter op => op.execute host input
  | .flatMap op => op.execute host input
  | .reduce op => op.execute host input
  | .reduceByKey op => op.execute host order input
  | .join op => op.execute host input
  | .shuffle op => op.execute host input

end Operator
end ProcessingEngine

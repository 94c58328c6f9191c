import ProcessingEngine.Worker.Memory
import ProcessingEngine.Worker.Output

/-!
# The slices of an input

The tasks of a job number its partitions, and each takes its slice of the rows of
an input (`inputRecords_of_rows`).  When they can all read their slices, the input
can be read as a whole (`Dealt.exists_rows`).
-/

namespace ProcessingEngine

open Lib Lib.Exec Text

variable {F Uuid : Type}

/-- The tasks of a job with `total` partitions, one for each. -/
structure Dealt (total : Nat) (tasks : List (Task Uuid)) : Prop where
  partitions : tasks.map Task.partition = List.range total
  total : ∀ task ∈ tasks, task.totalPartitions = total

namespace DagSpecification

variable {dag : DagSpecification} {newV5 : Uuid → String → Uuid} {order : HashOrder String}
  {jobId : Uuid}

/-- A task for each partition. -/
theorem materializeTasks_partition (hread : dag.readSource.isSome)
    (hnodes : dag.injectLocalShuffle (dag.orderedNodes order) ≠ []) :
    (dag.materializeTasks newV5 order jobId).map Task.partition = List.range dag.partitions := by
  obtain ⟨⟨uri, format⟩, hsource⟩ := Option.isSome_iff_exists.mp hread
  unfold materializeTasks
  rw [hsource]
  dsimp only
  rw [if_neg (by simpa using hnodes), List.map_map]
  exact List.map_id _

end DagSpecification

namespace Executor

/-- The read operator of a task. -/
def readOf (ex : Executor F Uuid) (task : Task Uuid) (uri format : String) : ReadOp where
  path := uri
  format
  partitionId := task.partition
  totalPartitions := max (max task.totalPartitions 1) 1
  cacheLimitBytes := ex.config.partitionCacheLimitBytes
  spillPath := ex.spillPath task

/-- The records that the task takes from its input. -/
def inputRecords (ex : Executor F Uuid) (task : Task Uuid) (uri format : String) (files : Files) :
    Except Fail (List (Record F)) :=
  match files.lookup (ex.host.resolve uri) with
  | none => .error (.error ("opening input " ++ uri))
  | some content => ReadOp.readRecords ex.host format (max (max task.totalPartitions 1) 1)
      task.partition content

section

variable {ex : Executor F Uuid} {task : Task Uuid} {uri format : String} {files : Files}

/-- The read operator of a task, with what has been spilled in the files. -/
theorem execute_readOf [BEq F] (order : HashOrder String) (input : List (PartitionData F)) :
    (Operator.read (ex.readOf task uri format)).execute ex.host order input files =
      match ex.inputRecords task uri format files with
      | .error e => (.error e, files)
      | .ok records =>
          (.ok [.stored ex.host task.partition ex.config.partitionCacheLimitBytes
              (ex.spillPath task) records],
            PartitionCache.storedFiles ex.host ex.config.partitionCacheLimitBytes
              (ex.spillPath task) records files) := by
  show (ReadOp.execute ex.host (ex.readOf task uri format)) files = _
  unfold ReadOp.execute inputRecords
  rw [bind_apply, Files.readOr_apply]
  dsimp only [readOf]
  cases files.lookup (ex.host.resolve uri) with
  | none => rfl
  | some content =>
      dsimp only
      rw [bind_apply, lift_apply]
      cases ReadOp.readRecords ex.host format (max (max task.totalPartitions 1) 1) task.partition
        content with
      | error e => rfl
      | ok records =>
          dsimp only
          rw [bind_apply, PartitionData.fromRecords_apply]
          rfl

end

section

variable {ex : Executor F Uuid} {task : Task Uuid} {uri format : String} {files : Files}
  {total : Nat} {rows : List (Nat × Record F)} {content : Bytes}

theorem inputRecords_of_rows (htotal : 0 < total) (htask : task.totalPartitions = total)
    (hcontent : files.lookup (ex.host.resolve uri) = some content)
    (hrows : ReadOp.numberedRecords ex.host format content = .ok rows) :
    ex.inputRecords task uri format files = .ok (slice total task.partition rows) := by
  have hmax : max (max task.totalPartitions 1) 1 = total := by omega
  rw [inputRecords, hcontent, hmax]
  exact ReadOp.readRecords_of_numbered hrows _ _

end

end Executor

namespace Dealt

variable {total : Nat} {tasks : List (Task Uuid)}

theorem exists_task (h : Dealt total tasks) {pid : Nat}
    (hpid : pid < total) : ∃ task ∈ tasks, task.partition = pid := by
  apply List.mem_map.mp
  rw [h.partitions]
  exact List.mem_range.mpr hpid

theorem partition_lt (h : Dealt total tasks) {task : Task Uuid} (htask : task ∈ tasks) :
    task.partition < total := by
  rw [← List.mem_range, ← h.partitions]
  exact List.mem_map_of_mem htask

/-- A job with one partition has one task. -/
theorem eq_singleton (h : Dealt 1 tasks) {single : Task Uuid} (hsingle : single ∈ tasks) :
    tasks = [single] := by
  obtain ⟨task, htasks, -⟩ := List.map_eq_singleton_iff.mp h.partitions
  rw [htasks] at hsingle ⊢
  rw [List.mem_singleton.mp hsingle]

theorem distinct (h : Dealt total tasks) : (tasks.map Task.partition).Nodup := by
  rw [h.partitions]
  exact List.nodup_range

/-- What the tasks write together is what they write in the order of the partitions. -/
theorem flatMap_perm {β : Type} (h : Dealt total tasks) {out : Task Uuid → List β}
    {expected : Nat → List β} (hout : ∀ task ∈ tasks, (out task).Perm (expected task.partition)) :
    (tasks.flatMap out).Perm ((List.range total).flatMap expected) := by
  rw [← h.partitions, List.flatMap_map]
  exact List.Perm.flatMap_left tasks hout

/-- When each task can read its records, the input has its rows. -/
theorem exists_rows {ex : Executor F Uuid} {uri format : String} {files : Files}
    (h : Dealt total tasks) (htotal : 0 < total)
    (hread : ∀ task ∈ tasks, ∃ records, ex.inputRecords task uri format files = .ok records) :
    ∃ content rows, files.lookup (ex.host.resolve uri) = some content ∧
      ReadOp.numberedRecords ex.host format content = .ok rows := by
  cases hcontent : files.lookup (ex.host.resolve uri) with
  | none =>
      obtain ⟨task, hmem, -⟩ := h.exists_task htotal
      obtain ⟨records, hrecords⟩ := hread task hmem
      rw [Executor.inputRecords, hcontent] at hrecords
      cases hrecords
  | some content =>
      obtain ⟨rows, hrows⟩ : ∃ rows, ReadOp.numberedRecords ex.host format content = .ok rows := by
        refine ReadOp.exists_numberedRecords htotal fun pid hpid => ?_
        obtain ⟨task, hmem, rfl⟩ := h.exists_task hpid
        obtain ⟨records, hrecords⟩ := hread task hmem
        have hmax : max (max task.totalPartitions 1) 1 = total := by
          rw [h.total task hmem]
          omega
        rw [Executor.inputRecords, hcontent, hmax] at hrecords
        exact ⟨records, hrecords⟩
      exact ⟨content, rows, rfl, hrows⟩

end Dealt
end ProcessingEngine

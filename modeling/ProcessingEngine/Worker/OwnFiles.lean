import ProcessingEngine.Lib.Footprint
import ProcessingEngine.Worker.RecordWise

/-!
# The files of a task

A cache spills to its own file, and one with the limit `usize::MAX` not at all.
`L` says which numbers, limits and spill files partitions may have; an operator
keeps to the operations `P` when it makes such partitions from such partitions,
and a task does when all its operators do (`uses_executeSync`).
-/

namespace ProcessingEngine

open Lib Lib.Exec Text

variable {F : Type}

/-- Everything that a cache does to its spill file is among the operations. -/
structure SpillsTo (P : FileOp → Prop) (spill : Path) : Prop where
  read : P (.read spill)
  append : ∀ data, P (.append spill data)
  remove : P (.remove spill)

variable {P : FileOp → Prop} {host : Host F}

theorem Files.uses_readOr {path : Path} (h : P (.read path)) (message : String) :
    (Files.readOr message path).Uses P fun _ => True := by
  refine uses_bind (uses_perform h) fun out _ => ?_
  cases out with
  | none => exact uses_fail _
  | some content => exact uses_pure trivial

theorem Files.uses_append {path : Path} {data : Bytes} (h : P (.append path data)) :
    (Files.append path data).Uses P fun _ => True :=
  uses_bind (uses_perform h) fun _ _ => uses_pure trivial

theorem Files.uses_write {path : Path} {data : Bytes} (h : P (.write path data)) :
    (Files.write path data).Uses P fun _ => True :=
  uses_bind (uses_perform h) fun _ _ => uses_pure trivial

theorem Files.uses_remove {path : Path} (h : P (.remove path)) :
    (Files.remove path).Uses P fun _ => True :=
  uses_bind (uses_perform h) fun _ _ => uses_pure trivial

namespace PartitionCache

/-- A cache that spills, or has spilled, only to a file of the operations. -/
structure Confined (P : FileOp → Prop) (cache : PartitionCache F) : Prop where
  spills : cache.limitBytes < usizeMax → SpillsTo P cache.spillPath
  spilled : cache.spilledFile.isSome → SpillsTo P cache.spillPath

/-- A confined cache with the limit and the spill file of another one. -/
structure Grown (P : FileOp → Prop) (cache cache' : PartitionCache F) : Prop
    extends Confined P cache' where
  limitBytes : cache'.limitBytes = cache.limitBytes
  spillPath : cache'.spillPath = cache.spillPath

theorem confined_new {limitBytes : Nat} {spillPath : Path}
    (h : limitBytes < usizeMax → SpillsTo P spillPath) :
    (new limitBytes spillPath : PartitionCache F).Confined P :=
  ⟨h, fun hspilled => by cases hspilled⟩

theorem uses_spillToDisk {cache : PartitionCache F} (hc : cache.Confined P)
    (h : SpillsTo P cache.spillPath) : (cache.spillToDisk host).Uses P (Grown P cache) := by
  unfold spillToDisk
  split
  · exact uses_pure ⟨hc, rfl, rfl⟩
  · refine uses_bind (Files.uses_append (h.append _)) fun _ _ => uses_pure ?_
    exact ⟨⟨hc.spills, fun _ => h⟩, rfl, rfl⟩

theorem uses_maybeSpill {cache : PartitionCache F} (h : cache.Confined P) :
    (cache.maybeSpill host).Uses P (Grown P cache) := by
  unfold maybeSpill
  split
  · next hfull =>
      -- a total above the limit shows that the limit is below `usize::MAX`
      refine uses_spillToDisk h (h.spills (lt_of_lt_of_le hfull ?_))
      exact Nat.min_le_right _ _
  · exact uses_pure ⟨h, rfl, rfl⟩

theorem uses_push {cache : PartitionCache F} (h : cache.Confined P) (value : Value F) :
    (cache.push host value).Uses P (Grown P cache) := by
  have hgrown : ({ cache with
      inMemoryBytes := cache.inMemoryBytes + estimateSize host value
      recordCount := cache.recordCount + 1
      inMemory := cache.inMemory ++ [value] } : PartitionCache F).Confined P :=
    ⟨h.spills, h.spilled⟩
  exact (uses_maybeSpill hgrown).imp fun c hc => ⟨hc.1, hc.2, hc.3⟩

theorem uses_pushBatch {cache : PartitionCache F} (h : cache.Confined P)
    (values : List (Value F)) : (cache.pushBatch host values).Uses P (Grown P cache) := by
  induction values generalizing cache with
  | nil => exact uses_pure ⟨h, rfl, rfl⟩
  | cons value values ih =>
      refine uses_bind (uses_push h value) fun c hc => ?_
      refine (ih hc.toConfined).imp fun c' hc' => ?_
      exact ⟨hc'.toConfined, hc'.limitBytes.trans hc.limitBytes,
        hc'.spillPath.trans hc.spillPath⟩

theorem uses_drainAll {cache : PartitionCache F} (h : cache.Confined P) :
    (cache.drainAll host).Uses P fun _ => True := by
  have hread : (readSpilled host cache.spilledFile).Uses P fun _ => True := by
    cases hspilled : cache.spilledFile with
    | none => exact uses_pure trivial
    | some path =>
        obtain rfl := cache.spilled_at path hspilled
        have hfile := h.spilled (by rw [hspilled]; rfl)
        refine uses_bind (Files.uses_readOr hfile.read _) fun content _ => ?_
        refine uses_bind (uses_lift fun _ _ => trivial) fun data _ => ?_
        exact uses_bind (Files.uses_remove hfile.remove) fun _ _ => uses_pure trivial
  exact uses_bind hread fun _ _ => uses_pure trivial

end PartitionCache

/-! ### Partitions -/

/-- The spill files that partitions may have are among the operations, unless
the partition never spills. -/
def Spills (P : FileOp → Prop) (L : Nat → Nat → Path → Prop) : Prop :=
  ∀ pid limitBytes spillPath, L pid limitBytes spillPath → limitBytes < usizeMax →
    SpillsTo P spillPath

/-- A partition with a number, a limit and a spill file that are allowed. -/
structure PartitionData.Placed (P : FileOp → Prop) (L : Nat → Nat → Path → Prop)
    (partition : PartitionData F) : Prop where
  confined : partition.cache.Confined P
  place : L partition.partitionId partition.limitBytes partition.spillPath

/-- The operator keeps to the operations `P` and to the places `L`. -/
def Operator.Keeps [BEq F] (host : Host F) (P : FileOp → Prop) (L : Nat → Nat → Path → Prop)
    (op : Operator) : Prop :=
  ∀ order input, (∀ q ∈ input, q.Placed P L) →
    (op.execute host order input).Uses P fun qs => ∀ q ∈ qs, q.Placed P L

variable {L : Nat → Nat → Path → Prop} {pid limitBytes : Nat} {spill : Path}

theorem PartitionData.placed_empty (h : Spills P L) (hplace : L pid limitBytes spill) :
    (empty pid limitBytes spill : PartitionData F).Placed P L :=
  ⟨PartitionCache.confined_new (h _ _ _ hplace), hplace⟩

theorem PartitionData.uses_fromRecords (h : Spills P L) (hplace : L pid limitBytes spill)
    (records : List (Record F)) :
    (fromRecords host pid limitBytes spill records).Uses P (Placed P L) := by
  have hnew : (PartitionCache.new limitBytes spill : PartitionCache F).Confined P :=
    PartitionCache.confined_new (h _ _ _ hplace)
  refine uses_bind (PartitionCache.uses_pushBatch hnew records) fun cache hcache => ?_
  refine uses_pure ⟨hcache.toConfined, ?_⟩
  show L pid cache.limitBytes cache.spillPath
  rw [hcache.limitBytes, hcache.spillPath]
  exact hplace

theorem PartitionData.uses_intoParts {partition : PartitionData F} (h : partition.Placed P L) :
    (partition.intoParts host).Uses P fun out =>
      out.1 = partition.limitBytes ∧ out.2.1 = partition.spillPath :=
  uses_bind (PartitionCache.uses_drainAll h.confined) fun _ _ => uses_pure ⟨rfl, rfl⟩

open PartitionData (Placed)

theorem uses_drainPartitions {partitions : List (PartitionData F)}
    (hparts : ∀ q ∈ partitions, q.Placed P L) :
    (drainPartitions host partitions).Uses P fun _ => True := by
  refine uses_bind (uses_forEach (R := fun _ => True) (fun q hq => ?_) hparts)
    fun _ _ => uses_pure trivial
  exact (PartitionData.uses_intoParts hq).imp fun _ _ => trivial

theorem uses_perPartition (h : Spills P L)
    (f : List (Record F) → Except Fail (List (Record F))) {partitions : List (PartitionData F)}
    (hparts : ∀ q ∈ partitions, q.Placed P L) :
    (perPartition host f partitions).Uses P fun qs => ∀ q ∈ qs, q.Placed P L := by
  refine uses_forEach (fun q hq => ?_) hparts
  refine uses_bind (PartitionData.uses_intoParts hq) fun out hout => ?_
  obtain ⟨limit, path, records⟩ := out
  obtain ⟨rfl, rfl⟩ : limit = q.limitBytes ∧ path = q.spillPath := hout
  refine uses_bind (uses_lift fun _ _ => trivial) fun mapped _ => ?_
  exact PartitionData.uses_fromRecords h hq.place _

section

variable [BEq F]

theorem RecordOp.keeps (h : Spills P L) (op : RecordOp) : op.toOperator.Keeps host P L := by
  intro order input hinput
  cases op with
  | map op => exact uses_perPartition h _ hinput
  | filter op =>
      refine uses_bind (uses_lift fun _ _ => trivial) fun predicate _ => ?_
      exact uses_perPartition h _ hinput
  | flatMap op =>
      show (FlatMapOp.execute host op input).Uses P _
      rw [FlatMapOp.execute]
      exact uses_perPartition h _ hinput

theorem ReadOp.keeps (h : Spills P L) {op : ReadOp}
    (hplace : L op.partitionId op.cacheLimitBytes op.spillPath)
    (hread : P (.read (host.resolve op.path))) : (Operator.read op).Keeps host P L := by
  intro order input _
  refine uses_bind (Files.uses_readOr hread _) fun content _ => ?_
  refine uses_bind (uses_lift fun _ _ => trivial) fun records _ => ?_
  refine uses_bind (PartitionData.uses_fromRecords h hplace _) fun partition hpartition => ?_
  exact uses_pure (by simpa using hpartition)

/-! ### The pipeline -/

theorem uses_runOperators {p : Pipeline} (attempt : Attempt)
    (hempty : (p.emptyPartition : PartitionData F).Placed P L) {ops : List Operator}
    (hops : ∀ op ∈ ops, op.Keeps host P L) (idx : Nat)
    {results : HashMap String (List (PartitionData F))} (stages : List StageTrace)
    (hresults : ∀ key parts, results.lookup key = some parts → ∀ q ∈ parts, q.Placed P L) :
    (p.runOperators host attempt idx ops results stages).Uses P fun out =>
      ∀ key parts, out.1.lookup key = some parts → ∀ q ∈ parts, q.Placed P L := by
  induction ops generalizing idx results stages with
  | nil => exact uses_pure hresults
  | cons op ops ih =>
      rw [List.forall_mem_cons] at hops
      have hinput := Pipeline.forall_inputOf hempty hresults (p.parents idx)
      refine uses_bind (hops.1 (attempt.order idx) _ hinput.1) fun parts hparts => ?_
      refine ih hops.2 _ _ fun key parts' hlookup => ?_
      by_cases hkey : key = p.operatorId idx
      · subst hkey
        rw [AList.lookup_insert, Option.some.injEq] at hlookup
        exact hlookup ▸ hparts
      · rw [AList.lookup_insert_ne hkey] at hlookup
        exact hinput.2 key parts' hlookup

variable {Uuid : Type}

theorem uses_executeSync {ex : Executor F Uuid} {task : Task Uuid} (attempt : Attempt)
    (h : Spills P L)
    (hplace : L task.partition ex.config.partitionCacheLimitBytes (ex.spillPath task))
    (hwrite : ∀ pid limitBytes spill, L pid limitBytes spill → ∀ data,
      P (.write (ex.partitionPath task pid) data))
    (hops : ∀ op ∈ (ex.pipeline task).operators, op.Keeps ex.host P L) :
    (ex.executeSync attempt task).Uses P fun _ => True := by
  have hempty : ((ex.pipeline task).emptyPartition : PartitionData F).Placed P L :=
    PartitionData.placed_empty h hplace
  have hrun : ((ex.pipeline task).run ex.host attempt).Uses P fun out =>
      ∀ q ∈ out.1, q.Placed P L := by
    refine uses_bind (uses_runOperators attempt hempty hops 0 [] (by simp))
      fun out hout => ?_
    obtain ⟨results, stages⟩ := out
    dsimp only
    split
    · rename_i parts hparts
      exact uses_pure (hout _ _ hparts)
    · exact uses_fail _
  refine uses_handle hrun fun out hout => ?_
  cases out with
  | error e => trivial
  | ok out =>
      refine uses_handle (uses_forEach (R := fun _ => True) (fun q hq => ?_) hout)
        fun out _ => ?_
      · refine uses_bind (PartitionData.uses_intoParts hq) fun out _ => ?_
        refine uses_bind (Q := fun _ => True) ?_ fun bytes _ => uses_pure trivial
        exact uses_bind (Files.uses_write (hwrite _ _ _ hq.place _)) fun _ _ => uses_pure trivial
      · cases out <;> trivial

theorem uses_executeTask {ex : Executor F Uuid} {task : Task Uuid}
    (h : ∀ attempt, (ex.executeSync attempt task).Uses P fun _ => True)
    (attempts : Nat → Attempt) : (ex.executeTask attempts task).Uses P fun _ => True := by
  have hretry : ∀ n, (ex.retry attempts task n).Uses P fun _ => True := by
    intro n
    induction n with
    | zero => exact h (attempts 0)
    | succ n ih =>
        refine Prog.uses_bind (h (attempts (n + 1))) fun execution _ => ?_
        split
        · exact ih
        · trivial
  exact hretry _

end

/-! ### A task of record-wise operators -/

/-- The operations of a task with these files. -/
def FileOp.Own (input spill result : Path) : FileOp → Prop
  | .read path => path = input ∨ path = spill
  | .append path _ => path = spill
  | .write path _ => path = result
  | .remove path => path = spill

/-- The partitions of a task all have its number and its spill file. -/
def OwnPlace (pid : Nat) (spill : Path) (pid' _limitBytes : Nat) (spill' : Path) : Prop :=
  pid' = pid ∧ spill' = spill

theorem spills_own (input spill result : Path) (pid : Nat) :
    Spills (FileOp.Own input spill result) (OwnPlace pid spill) := by
  intro _ _ path hplace _
  obtain ⟨-, rfl⟩ := hplace
  exact ⟨Or.inr rfl, fun _ => rfl, rfl⟩

end ProcessingEngine

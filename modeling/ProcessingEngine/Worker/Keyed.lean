import ProcessingEngine.Worker.Alone
import ProcessingEngine.Worker.Shuffled

/-!
# Reading and reducing by key

The job that reads an input and reduces it by key has a shuffle between the two,
but no edge leads to it: it shuffles the empty partition of its task, and each
task reduces its own slice of the rows.
-/

namespace ProcessingEngine

open Lib Lib.Exec Text

variable {F : Type} {host : Host F}

/-! ### Partitions without records -/

/-- No record has been put into the partition. -/
structure PartitionData.Vacant (partition : PartitionData F) : Prop where
  resident : partition.Resident
  held : partition.held = []

namespace PartitionData

theorem vacant_empty (pid limitBytes : Nat) (spill : Path) :
    (empty pid limitBytes spill : PartitionData F).Vacant := ⟨rfl, rfl⟩

theorem fromRecords_nil (host : Host F) (pid limitBytes : Nat) (spill : Path) :
    fromRecords host pid limitBytes spill [] = Pure.pure (empty pid limitBytes spill) := rfl

theorem Vacant.intoParts {partition : PartitionData F} (h : partition.Vacant) (host : Host F) :
    partition.intoParts host =
      Pure.pure (partition.limitBytes, partition.spillPath, []) := by
  rw [intoParts_eq_pure host h.resident, h.held]

end PartitionData

variable {partitions : List (PartitionData F)}

theorem drainPartitions_of_vacant (h : ∀ q ∈ partitions, q.Vacant) (host : Host F) :
    drainPartitions host partitions = Pure.pure [] := by
  have hparts : Exec.forEach (fun p => PartitionData.intoParts host p) partitions = _ :=
    forEach_of_pure fun q hq => (h q hq).intoParts host
  rw [drainPartitions, hparts]
  exact congrArg (fun records => (Pure.pure records : Action (List (Record F)))) (by simp)

/-- A shuffle of nothing puts nothing into its buckets. -/
theorem ShuffleByKeyOp.execute_of_vacant (h : ∀ q ∈ partitions, q.Vacant) (host : Host F)
    (key : String) {n : Nat} (hn : 0 < n) :
    ∃ out : List (PartitionData F), (∀ q ∈ out, q.Vacant) ∧
      execute host ⟨key, n⟩ partitions = Pure.pure out := by
  have hpos : ¬ n = 0 := by omega
  have hbuckets : (⟨key, n⟩ : ShuffleByKeyOp).buckets host ([] : List (Record F)) =
      List.replicate n [] := rfl
  refine ⟨(List.replicate n ([] : List (Record F))).zipIdx.map fun b =>
    .empty b.2 (limit partitions) (bucketPath (spillBase host partitions) b.2), ?_, ?_⟩
  · intro q hq
    obtain ⟨b, -, rfl⟩ := List.mem_map.mp hq
    exact PartitionData.vacant_empty _ _ _
  · rw [execute, if_neg hpos, drainPartitions_of_vacant h]
    show Exec.forEach _ ((⟨key, n⟩ : ShuffleByKeyOp).buckets host []).zipIdx = _
    rw [hbuckets]
    apply forEach_of_pure
    intro b hb
    obtain ⟨records, idx⟩ := b
    have hmem : records ∈ List.replicate n ([] : List (Record F)) :=
      List.fst_mem_of_mem_zipIdx hb
    rw [List.eq_of_mem_replicate hmem]
    rfl

theorem ReduceByKeyOp.groupPartitions_of_vacant (h : ∀ q ∈ partitions, q.Vacant) (host : Host F)
    (op : ReduceByKeyOp) (groups : HashMap String (List (Record F))) :
    groupPartitions host op groups partitions = Pure.pure groups := by
  induction partitions with
  | nil => rfl
  | cons q rest ih =>
      rw [List.forall_mem_cons] at h
      rw [groupPartitions, h.1.intoParts]
      exact ih h.2

/-- There is no group among no records. -/
theorem ReduceByKeyOp.execute_of_vacant (h : ∀ q ∈ partitions, q.Vacant) (host : Host F)
    {op : ReduceByKeyOp} {reducer : ReducerKind}
    (hparse : ReducerKind.parse op.reducer = .ok reducer) (order : HashOrder String) :
    ∃ out : List (PartitionData F), (∀ q ∈ out, q.Vacant) ∧
      execute host order op partitions = Pure.pure out := by
  cases partitions with
  | nil => exact ⟨[], by simp, rfl⟩
  | cons first rest =>
      refine ⟨[.empty first.partitionId first.limitBytes first.spillPath], ?_, ?_⟩
      · rw [List.forall_mem_singleton]
        exact PartitionData.vacant_empty _ _ _
      · have hnil : outRecords host op reducer order ∅ = [] := by
          have hkeys : order.keys (∅ : HashMap String (List (Record F))).keys = [] :=
            (order.perm _).eq_nil
          rw [outRecords, hkeys]
          rfl
        rw [execute, hparse]
        dsimp only
        rw [groupPartitions_of_vacant h]
        show (PartitionData.fromRecords host _ _ _ (outRecords host op reducer order ∅) >>= _) = _
        rw [hnil, PartitionData.fromRecords_nil]
        rfl

theorem ReduceByKeyOp.aggregate_eq_nil_iff {op : ReduceByKeyOp} {reducer : ReducerKind}
    {records : List (Record F)} :
    aggregate host op reducer records = [] ↔ ∀ r ∈ records, keyOf op.key r = none := by
  rw [aggregate, List.map_eq_nil_iff, List.dedup_eq_nil, List.filterMap_eq_nil_iff]

/-- Reducing one partition: it fails when a record has no key. -/
theorem ReduceByKeyOp.execute_filled {op : ReduceByKeyOp} {reducer : ReducerKind}
    (hparse : ReducerKind.parse op.reducer = .ok reducer) {before files : Files}
    {records : List (Record F)} {partition : PartitionData F}
    (h : partition.Carries host before records files) (hback : ∀ v ∈ records, host.ReadsBack v)
    (order : HashOrder String) :
    ((∀ r ∈ records, (keyOf op.key r).isSome) ∧ ∃ out partition' files',
      execute host order op [partition] files = (.ok [partition'], files') ∧
        out.Perm (aggregate host op reducer records) ∧
        partition'.Carries host before out files' ∧
        partition'.partitionId = partition.partitionId) ∨
    (¬ ∀ r ∈ records, (keyOf op.key r).isSome) ∧
      ∃ e, execute host order op [partition] files = (.error e, before) := by
  have hparts := PartitionData.intoParts_of_filled h.filled h.fresh hback
  have hgroup : groupPartitions host op ∅ [partition] files =
      (groupRecords op.key ∅ records, before) := by
    show (partition.intoParts host >>= _) files = _
    rw [bind_apply, hparts]
    simp only [bind_apply, lift_apply]
    cases groupRecords op.key ∅ records with
    | error e => rfl
    | ok groups => rfl
  have hrun : execute host order op [partition] files =
      match groupRecords op.key ∅ records with
      | .error e => (.error e, before)
      | .ok groups => (PartitionData.fromRecords host partition.partitionId partition.limitBytes
          partition.spillPath (outRecords host op reducer order groups) >>=
            fun q => Pure.pure [q]) before := by
    rw [execute, hparse]
    show (groupPartitions host op ∅ [partition] >>= _) files = _
    rw [bind_apply, hgroup]
    cases groupRecords op.key ∅ records with
    | error e => rfl
    | ok groups => rfl
  cases hgroups : groupRecords op.key ∅ records with
  | error e =>
      rw [hgroups] at hrun
      refine Or.inr ⟨fun hall => ?_, e, hrun⟩
      obtain ⟨groups, hok⟩ := groupRecords_of_isSome hall ∅
      rw [hgroups] at hok
      cases hok
  | ok groups =>
      obtain ⟨partition', files', hfrom, hfilled, hid, hspill, -⟩ :=
        PartitionData.fromRecords_filled host partition.partitionId partition.limitBytes
          partition.spillPath (outRecords host op reducer order groups) before
      rw [hgroups] at hrun
      dsimp only at hrun
      rw [bind_apply, hfrom] at hrun
      refine Or.inl ⟨(groupRecords_ok hgroups).1, _, partition', files', hrun,
        outRecords_perm order hgroups, ⟨hfilled, ?_⟩, hid⟩
      rw [hspill]
      exact h.fresh

/-! ### The specification -/

variable {Uuid : Type}

namespace DagSpecification

/-- The nodes of a job that reads an input and reduces it by key. -/
def keyedNodes (source target uri format : String) (op : ReduceByKeyOp) : List DagNode :=
  [⟨source, .read uri format⟩, ⟨target, .reduceByKey op.key op.reducer⟩]

theorem ne_shuffleId (id : String) : id ≠ shuffleId id := by
  intro h
  have hlen := congrArg String.length h
  simp only [shuffleId, String.length_append] at hlen
  have hshuffle : "__shuffle_".length = 10 := rfl
  omega

variable {dag : DagSpecification} {source target uri format : String} {op : ReduceByKeyOp}

/-- The text of the edge leads back to the node that reads, and its output is not
replaced by that of the shuffle. -/
def Consumed (source target : String) : Prop :=
  beforeArrow (edgeText ⟨source, target⟩) = source ∧ source ≠ shuffleId target

theorem injected_keyed (h : dag.InLine (keyedNodes source target uri format op))
    (order : HashOrder String) :
    dag.injectLocalShuffle (dag.orderedNodes order) =
      [⟨source, .read uri format⟩, ⟨shuffleId target, .shuffleByKey op.key dag.partitions⟩,
        ⟨target, .reduceByKey op.key op.reducer⟩] := by
  rw [h.orderedNodes_eq order]
  rfl

theorem incomingEdges_keyed (h : dag.InLine (keyedNodes source target uri format op)) (id : String) :
    dag.incomingEdges id = if target = id then [edgeText ⟨source, target⟩] else [] := by
  have hedges : dag.edges = [⟨source, target⟩] := List.perm_singleton.mp h.edges
  rw [incomingEdges, hedges]
  by_cases heq : target = id
  · simp [heq]
  · simp [heq]

end DagSpecification

namespace Executor

/-- The pipeline of a task of such a job. -/
structure IsKeyed (ex : Executor F Uuid) (task : Task Uuid) (source target uri format : String)
    (op : ReduceByKeyOp) : Prop where
  operators : ∃ n, 0 < n ∧ (ex.pipeline task).operators =
    [.read (ex.readOf task uri format), .shuffle ⟨op.key, n⟩, .reduceByKey op]
  first : (ex.pipeline task).operatorId 0 = source ∧ (ex.pipeline task).parents 0 = []
  shuffle : (ex.pipeline task).operatorId 1 = DagSpecification.shuffleId target ∧
    (ex.pipeline task).parents 1 = []
  last : (ex.pipeline task).operatorId 2 = target ∧ (ex.pipeline task).parents 2 =
    [beforeArrow (DagSpecification.edgeText ⟨source, target⟩)]
  final : (ex.pipeline task).finalKey = target

theorem isKeyed_of_mem {newV5 : Uuid → String → Uuid} {order : HashOrder String} {jobId : Uuid}
    {dag : DagSpecification} {source target uri format : String} {op : ReduceByKeyOp}
    (hdag : dag.InLine (DagSpecification.keyedNodes source target uri format op)) {task : Task Uuid}
    (htask : task ∈ dag.materializeTasks newV5 order jobId) (ex : Executor F Uuid) :
    ex.IsKeyed task source target uri format op := by
  have hnodes := DagSpecification.injected_keyed hdag order
  have hedges := DagSpecification.incomingEdges_keyed hdag
  have hnode : ∀ (i : Nat) (n : DagNode), ([⟨source, .read uri format⟩,
      ⟨DagSpecification.shuffleId target, .shuffleByKey op.key dag.partitions⟩,
      ⟨target, .reduceByKey op.key op.reducer⟩] : List DagNode)[i]? = some n →
        (ex.pipeline task).operatorId i = n.id ∧
          (ex.pipeline task).parents i = (dag.incomingEdges n.id).map beforeArrow := by
    intro i n hn
    rw [← hnodes] at hn
    exact DagSpecification.task_node ex htask hn
  have hne : target ≠ source := by
    have hids := hdag.ids
    simp only [DagSpecification.keyedNodes, List.map_cons, List.map_nil, List.nodup_cons,
      List.mem_singleton] at hids
    exact fun heq => hids.1 heq.symm
  obtain ⟨hid₀, hparents₀⟩ := hnode 0 _ rfl
  obtain ⟨hid₁, hparents₁⟩ := hnode 1 _ rfl
  obtain ⟨hid₂, hparents₂⟩ := hnode 2 _ rfl
  refine ⟨⟨max dag.partitions 1, by omega, ?_⟩, ⟨hid₀, ?_⟩, ⟨hid₁, ?_⟩, ⟨hid₂, ?_⟩, ?_⟩
  · show (Executor.operatorDefs task).map _ = _
    rw [(DagSpecification.task_named htask).operatorDefs, (DagSpecification.task_nodes htask).1,
      hnodes]
    rfl
  · rw [hparents₀, hedges, if_neg hne]
    rfl
  · rw [hparents₁, hedges, if_neg (DagSpecification.ne_shuffleId target)]
    rfl
  · rw [hparents₂, hedges, if_pos rfl]
    rfl
  · refine DagSpecification.task_finalKey ex htask (n := ⟨target, .reduceByKey op.key op.reducer⟩) ?_
    rw [hnodes]
    rfl

/-! ### One execution -/

section

variable [BEq F] {ex : Executor F Uuid} {task : Task Uuid} {source target uri format : String}
  {op : ReduceByKeyOp} {reducer : ReducerKind}

/-- The task reads its records and reduces them, or nothing when the edge is not
the one of the node that reads. -/
theorem IsKeyed.run_eq (h : ex.IsKeyed task source target uri format op) (attempt : Attempt) :
    ∃ (input : List (PartitionData F) → List (PartitionData F))
      (stages : List (PartitionData F) → List (PartitionData F) → List StageTrace),
      (DagSpecification.Consumed source target → ∀ parts, input parts = parts) ∧
      (¬ DagSpecification.Consumed source target → ∀ parts, ∀ q ∈ input parts, q.Vacant) ∧
      (ex.pipeline task).run ex.host attempt = (do
        let parts ← (Operator.read (ex.readOf task uri format)).execute ex.host (attempt.order 0)
          [(ex.pipeline task).emptyPartition]
        let out ← ReduceByKeyOp.execute ex.host (attempt.order 2) op (input parts)
        return (out, stages parts out)) := by
  obtain ⟨n, hn, hoperators⟩ := h.operators
  have hempty : ∀ q ∈ [((ex.pipeline task).emptyPartition : PartitionData F)], q.Vacant := by
    rw [List.forall_mem_singleton]
    exact PartitionData.vacant_empty _ _ _
  obtain ⟨buckets, hbucket, hshuffle⟩ :=
    ShuffleByKeyOp.execute_of_vacant hempty ex.host op.key hn
  let table (parts : List (PartitionData F)) : HashMap String (List (PartitionData F)) :=
    AList.insert (DagSpecification.shuffleId target) buckets (AList.insert source parts ∅)
  let parent := beforeArrow (DagSpecification.edgeText ⟨source, target⟩)
  have htake : ∀ parts, (Pipeline.takeParents [parent] (table parts)).1 =
      if parent = DagSpecification.shuffleId target then buckets
      else if parent = source then parts else [] := by
    intro parts
    have hlookup : (table parts).lookup parent =
        if parent = DagSpecification.shuffleId target then some buckets
        else if parent = source then some parts else none := by
      rw [HashMap.lookup_insert, HashMap.lookup_insert, AList.lookup_empty]
    rw [Pipeline.takeParents, hlookup]
    split_ifs
    · exact List.append_nil buckets
    · exact List.append_nil parts
    · rfl
  refine ⟨fun parts => (Pipeline.takeParents [parent] (table parts)).1, fun parts out =>
    [] ++ [(ex.pipeline task).stageTrace 0 parts] ++ [(ex.pipeline task).stageTrace 1 buckets] ++
      [(ex.pipeline task).stageTrace 2 out], ?_, ?_, ?_⟩
  · intro hconsumed parts
    have hparent : parent = source := hconsumed.1
    show (Pipeline.takeParents [parent] (table parts)).1 = parts
    rw [htake, hparent, if_neg hconsumed.2, if_pos rfl]
  · intro hnot parts q hq
    have hq : q ∈ (Pipeline.takeParents [parent] (table parts)).1 := hq
    rw [htake] at hq
    split_ifs at hq with hshuffled hparent
    · exact hbucket q hq
    · exact absurd ⟨hparent, hparent ▸ hshuffled⟩ hnot
    · cases hq
  · rw [Pipeline.run, hoperators, Pipeline.runOperators_eq_bind, Exec.bind_assoc, h.first.2,
      h.first.1]
    refine congrArg (_ >>= ·) (funext fun parts => ?_)
    rw [Pipeline.runOperators_eq_bind, Exec.bind_assoc, h.shuffle.2, h.shuffle.1]
    show (ShuffleByKeyOp.execute ex.host ⟨op.key, n⟩ [(ex.pipeline task).emptyPartition] >>= _) = _
    rw [hshuffle]
    show (Pipeline.runOperators ex.host attempt (ex.pipeline task) 2 [.reduceByKey op] (table parts)
      _ >>= _) = _
    rw [Pipeline.runOperators_eq_bind, Exec.bind_assoc, h.last.2, h.last.1]
    refine congrArg (_ >>= ·) (funext fun out => ?_)
    exact Pipeline.finish_insert h.final out _ _

theorem IsKeyed.run_unread (h : ex.IsKeyed task source target uri format op) {files : Files}
    {e : Fail} (hread : ex.inputRecords task uri format files = .error e) (attempt : Attempt) :
    (ex.pipeline task).run ex.host attempt files = (.error e, files) := by
  obtain ⟨input, stages, -, -, hrun⟩ := h.run_eq attempt
  rw [hrun, bind_apply, execute_readOf, hread]

theorem IsKeyed.run_read (h : ex.IsKeyed task source target uri format op) {files : Files}
    {records : List (Record F)} (hread : ex.inputRecords task uri format files = .ok records)
    (attempt : Attempt) :
    ∃ (input : List (PartitionData F)) (stages : List (PartitionData F) → List StageTrace),
      (DagSpecification.Consumed source target → input = [.stored ex.host task.partition
        ex.config.partitionCacheLimitBytes (ex.spillPath task) records]) ∧
      (¬ DagSpecification.Consumed source target → ∀ q ∈ input, q.Vacant) ∧
      (ex.pipeline task).run ex.host attempt files =
        match ReduceByKeyOp.execute ex.host (attempt.order 2) op input
          (PartitionCache.storedFiles ex.host ex.config.partitionCacheLimitBytes
            (ex.spillPath task) records files) with
        | (.ok out, files') => (.ok (out, stages out), files')
        | (.error e, files') => (.error e, files') := by
  obtain ⟨input, stages, hconsumed, hnot, hrun⟩ := h.run_eq attempt
  let parts : List (PartitionData F) := [.stored ex.host task.partition
    ex.config.partitionCacheLimitBytes (ex.spillPath task) records]
  refine ⟨input parts, stages parts, fun hc => hconsumed hc parts, fun hc => hnot hc parts, ?_⟩
  rw [hrun, bind_apply, execute_readOf, hread]
  dsimp only
  rw [bind_apply]
  rcases ReduceByKeyOp.execute ex.host (attempt.order 2) op (input parts)
    (PartitionCache.storedFiles ex.host ex.config.partitionCacheLimitBytes (ex.spillPath task)
      records files) with ⟨_ | out, files'⟩ <;> rfl

omit [BEq F] in
theorem write_of_vacant (ex : Executor F Uuid) (task : Task Uuid)
    {parts : List (PartitionData F)} (h : ∀ q ∈ parts, q.Vacant) (files : Files) :
    ∃ written files', Exec.forEach (ex.writePartition task) parts files = (.ok written, files') ∧
      ∀ w ∈ written, w.1.2 = [] := by
  induction parts generalizing files with
  | nil => exact ⟨[], files, rfl, by simp⟩
  | cons q parts ih =>
      rw [List.forall_mem_cons] at h
      obtain ⟨written, files', hrest, hnil⟩ :=
        ih h.2 (files.insert (ex.partitionPath task q.partitionId) (ex.host.jsonLines []))
      have hwrite : ex.writePartition task q files =
          (.ok ((q.partitionId, []), (ex.host.jsonLines []).length),
            files.insert (ex.partitionPath task q.partitionId) (ex.host.jsonLines [])) := by
        rw [writePartition, h.1.intoParts]
        rfl
      refine ⟨((q.partitionId, []), (ex.host.jsonLines []).length) :: written, files', ?_, ?_⟩
      · show (ex.writePartition task q >>= _) files = _
        rw [bind_apply, hwrite]
        dsimp only
        rw [bind_apply, hrest]
        rfl
      · exact List.forall_mem_cons.mpr ⟨rfl, hnil⟩

/-- A task that reduces nothing completes without records. -/
theorem IsKeyed.executeSync_apart (h : ex.IsKeyed task source target uri format op)
    (hnot : ¬ DagSpecification.Consumed source target)
    (hparse : ReducerKind.parse op.reducer = .ok reducer) {files : Files}
    {records : List (Record F)} (hread : ex.inputRecords task uri format files = .ok records)
    (attempt : Attempt) :
    (ex.executeSync attempt task files).1.result.status = .completed ∧
      (ex.executeSync attempt task files).1.output.flatMap Prod.snd = [] := by
  obtain ⟨input, stages, -, hvacant, hrun⟩ := h.run_read hread attempt
  obtain ⟨out, hout, hreduce⟩ := ReduceByKeyOp.execute_of_vacant (hvacant hnot) ex.host hparse
    (attempt.order 2)
  rw [hreduce] at hrun
  obtain ⟨written, files', hwrite, hnil⟩ := ex.write_of_vacant task hout
    (PartitionCache.storedFiles ex.host ex.config.partitionCacheLimitBytes (ex.spillPath task)
      records files)
  rw [executeSync_of_ok hrun, hwrite]
  refine ⟨rfl, List.flatMap_eq_nil_iff.mpr fun o ho => ?_⟩
  obtain ⟨w, hw, rfl⟩ := List.mem_map.mp ho
  exact hnil w hw

/-- A task that reduces its records fails when one has no key, and otherwise writes
their aggregation. -/
theorem IsKeyed.executeSync_cases (h : ex.IsKeyed task source target uri format op)
    (hconsumed : DagSpecification.Consumed source target)
    (hparse : ReducerKind.parse op.reducer = .ok reducer) {files : Files}
    (hfresh : files.lookup (ex.spillPath task) = none) {records : List (Record F)}
    (hread : ex.inputRecords task uri format files = .ok records)
    (hback : ∀ v ∈ records, ex.host.ReadsBack v)
    (hback' : ∀ v ∈ ReduceByKeyOp.aggregate ex.host op reducer records, ex.host.ReadsBack v)
    (attempt : Attempt) :
    ((∀ r ∈ records, (ReduceByKeyOp.keyOf op.key r).isSome) ∧
      (ex.executeSync attempt task files).1.result.status = .completed ∧
      ((ex.executeSync attempt task files).1.output.flatMap Prod.snd).Perm
        (ReduceByKeyOp.aggregate ex.host op reducer records)) ∨
    (¬ ∀ r ∈ records, (ReduceByKeyOp.keyOf op.key r).isSome) ∧
      ((∃ message, (ex.executeSync attempt task files).1.result.status = .failed message ∧
        (ex.executeSync attempt task files).1.output = []) ∧
      (ex.executeSync attempt task files).2 = files) := by
  obtain ⟨input, stages, hinput, -, hrun⟩ := h.run_read hread attempt
  rw [hinput hconsumed] at hrun
  have hcarries : (PartitionData.stored ex.host task.partition ex.config.partitionCacheLimitBytes
      (ex.spillPath task) records).Carries ex.host files records
      (PartitionCache.storedFiles ex.host ex.config.partitionCacheLimitBytes (ex.spillPath task)
        records files) := PartitionData.carries_stored hfresh _ _ _ _
  rcases ReduceByKeyOp.execute_filled hparse hcarries hback (attempt.order 2) with
    ⟨hkeys, out, partition, files', hreduce, hperm, hfilled, -⟩ | ⟨hkeys, e, hreduce⟩
  · refine Or.inl ⟨hkeys, ?_⟩
    rw [hreduce] at hrun
    have hwrite := writePartition_of_carries hfilled
      (fun v hv => hback' v (hperm.mem_iff.mp hv)) task
    rw [executeSync_of_ok hrun, forEach_singleton, hwrite]
    refine ⟨rfl, ?_⟩
    show ([(partition.partitionId, out)].flatMap Prod.snd).Perm _
    rw [List.flatMap_singleton]
    exact hperm
  · rw [hreduce] at hrun
    rw [executeSync_of_error hrun]
    exact Or.inr ⟨hkeys, ⟨_, rfl, rfl⟩, rfl⟩

theorem IsKeyed.exists_records (h : ex.IsKeyed task source target uri format op)
    {attempts : Nat → Attempt} {files : Files}
    (hcompleted : (ex.executeTask attempts task files).1.result.status = .completed) :
    ∃ records, ex.inputRecords task uri format files = .ok records := by
  cases hread : ex.inputRecords task uri format files with
  | ok records => exact ⟨records, rfl⟩
  | error e =>
      refine absurd (fun attempt => ?_) (not_fails_of_completed hcompleted)
      rw [executeSync_of_error (h.run_unread hread attempt)]
      exact ⟨⟨_, rfl, rfl⟩, rfl⟩

/-- What a completed task has made of the records that it read. -/
theorem IsKeyed.of_completed (h : ex.IsKeyed task source target uri format op)
    (hparse : ReducerKind.parse op.reducer = .ok reducer) {files : Files}
    (hfresh : files.lookup (ex.spillPath task) = none) {records : List (Record F)}
    (hread : ex.inputRecords task uri format files = .ok records)
    (hback : ∀ v ∈ records, ex.host.ReadsBack v)
    (hback' : ∀ v ∈ ReduceByKeyOp.aggregate ex.host op reducer records, ex.host.ReadsBack v)
    {attempts : Nat → Attempt}
    (hcompleted : (ex.executeTask attempts task files).1.result.status = .completed) :
    (DagSpecification.Consumed source target →
      (∀ r ∈ records, (ReduceByKeyOp.keyOf op.key r).isSome) ∧
      ((ex.executeTask attempts task files).1.output.flatMap Prod.snd).Perm
        (ReduceByKeyOp.aggregate ex.host op reducer records)) ∧
    (¬ DagSpecification.Consumed source target →
      (ex.executeTask attempts task files).1.output.flatMap Prod.snd = []) := by
  constructor
  · intro hconsumed
    have hcases := h.executeSync_cases hconsumed hparse hfresh hread hback hback'
    rcases hcases (attempts ex.config.taskRetryLimit) with ⟨hkeys, hstatus, hperm⟩ | ⟨hkeys, -⟩
    · rw [executeTask, retry_of_completed hstatus]
      exact ⟨hkeys, hperm⟩
    · refine absurd (fun attempt => ?_) (not_fails_of_completed hcompleted)
      exact ((hcases attempt).resolve_left fun hdone => hkeys hdone.1).2
  · intro hnot
    have hsync := h.executeSync_apart hnot hparse hread (attempts ex.config.taskRetryLimit)
    rw [executeTask, retry_of_completed hsync.1]
    exact hsync.2

/-- The task uses its input, its spill file and result files. -/
theorem IsKeyed.uses_executeTask (h : ex.IsKeyed task source target uri format op)
    (hparse : ReducerKind.parse op.reducer = .ok reducer) (attempts : Nat → Attempt) :
    (ex.executeTask attempts task).Uses (ex.privateOf [ex.host.resolve uri] task)
      fun _ => True := by
  have hspills : Spills (ex.privateOf [ex.host.resolve uri] task)
      (OwnPlace task.partition (ex.spillPath task)) := by
    intro pid limitBytes spill hplace _
    obtain ⟨-, rfl⟩ := hplace
    exact ⟨Or.inr rfl, fun _ => rfl, rfl⟩
  have hread : ex.privateOf [ex.host.resolve uri] task (.read (ex.host.resolve uri)) :=
    Or.inl List.mem_cons_self
  refine ProcessingEngine.uses_executeTask (fun attempt => ?_) attempts
  have hrun : ((ex.pipeline task).run ex.host attempt).Uses
      (ex.privateOf [ex.host.resolve uri] task) fun out =>
        ∀ q ∈ out.1, q.Placed (ex.privateOf [ex.host.resolve uri] task)
          (OwnPlace task.partition (ex.spillPath task)) ∨ q.Vacant := by
    obtain ⟨input, stages, hinput, hvacant, heq⟩ := h.run_eq attempt
    rw [heq]
    have hempty : ∀ q ∈ [((ex.pipeline task).emptyPartition : PartitionData F)],
        q.Placed (ex.privateOf [ex.host.resolve uri] task)
          (OwnPlace task.partition (ex.spillPath task)) := by
      rw [List.forall_mem_singleton]
      exact PartitionData.placed_empty hspills ⟨rfl, rfl⟩
    have hop : (Operator.read (ex.readOf task uri format)).Keeps ex.host
        (ex.privateOf [ex.host.resolve uri] task) (OwnPlace task.partition (ex.spillPath task)) :=
      ReadOp.keeps hspills ⟨rfl, rfl⟩ hread
    refine uses_bind (hop (attempt.order 0) _ hempty) fun parts hparts => ?_
    by_cases hconsumed : DagSpecification.Consumed source target
    · rw [hinput hconsumed]
      refine uses_bind (ReduceByKeyOp.keeps hspills op (attempt.order 2) parts hparts)
        fun out hout => uses_pure fun q hq => Or.inl (hout q hq)
    · obtain ⟨out, hout, hreduce⟩ := ReduceByKeyOp.execute_of_vacant (hvacant hconsumed parts)
        ex.host hparse (attempt.order 2)
      rw [hreduce]
      exact uses_pure fun q hq => Or.inr (hout q hq)
  refine uses_handle hrun fun out hout => ?_
  cases out with
  | error e => trivial
  | ok out =>
      refine uses_handle (uses_forEach (R := fun _ => True) (fun q hq => ?_) hout) fun out _ => ?_
      · have hparts : (q.intoParts ex.host).Uses (ex.privateOf [ex.host.resolve uri] task)
            fun _ => True := by
          rcases hq with hplaced | hvacant
          · exact (PartitionData.uses_intoParts hplaced).imp fun _ _ => trivial
          · rw [hvacant.intoParts]
            exact uses_pure trivial
        refine uses_bind hparts fun out _ => ?_
        refine uses_bind (Q := fun _ => True) ?_ fun bytes _ => uses_pure trivial
        exact uses_bind (Files.uses_write (ex.privateOf_partitionPath task _ _)) fun _ _ =>
          uses_pure trivial
      · cases out <;> trivial

/-! ### The whole job -/

/-- The JSON library reads back the rows of the input and the aggregations of its
slices. -/
def KeyedRoundTrips (ex : Executor F Uuid) (uri format : String) (op : ReduceByKeyOp)
    (reducer : ReducerKind) (total : Nat) (files : Files) : Prop :=
  ∀ content rows, files.lookup (ex.host.resolve uri) = some content →
    ReadOp.numberedRecords ex.host format content = .ok rows →
      (∀ row ∈ rows, ex.host.ReadsBack row.2) ∧
      ∀ p < total, ∀ v ∈ ReduceByKeyOp.aggregate ex.host op reducer (slice total p rows),
        ex.host.ReadsBack v

omit [BEq F] in
/-- Aggregations of slices are that of all rows when the keys are not divided. -/
theorem perm_aggregate_iff {host : Host F} {total : Nat} (htotal : 0 < total)
    {rows : List (Nat × Record F)} (hkeys : ∀ row ∈ rows, (ReduceByKeyOp.keyOf op.key row.2).isSome)
    {records : List (Record F)}
    (hslices : records.Perm ((List.range total).flatMap fun p =>
      ReduceByKeyOp.aggregate host op reducer (slice total p rows))) :
    records.Perm (ReduceByKeyOp.aggregate host op reducer (rows.map Prod.snd)) ↔
      Colocated total (ReduceByKeyOp.keyOf op.key) rows := by
  have hall : ∀ r ∈ rows.map Prod.snd, (ReduceByKeyOp.keyOf op.key r).isSome := by
    rw [List.forall_mem_map]
    exact hkeys
  have hslice : ∀ p, ReduceByKeyOp.aggregate host op reducer (slice total p rows) =
      groupMap (ReduceByKeyOp.keyOf op.key)
        (fun x group => ReduceByKeyOp.outRecord host op reducer (x.getD "") group)
        (slice total p rows) := by
    intro p
    apply ReduceByKeyOp.aggregate_eq_groupMap
    intro r hr
    obtain ⟨i, hrow, -⟩ := mem_slice.mp hr
    exact hkeys (i, r) hrow
  simp only [hslice] at hslices
  rw [ReduceByKeyOp.aggregate_eq_groupMap host op reducer hall]
  exact (hslices.congr_left _).trans (groupMap_slices_perm_iff htotal _ rows _)

omit [BEq F] in
theorem dealt_of_keyed {dag : DagSpecification}
    (hdag : dag.InLine (DagSpecification.keyedNodes source target uri format op))
    (newV5 : Uuid → String → Uuid) (order : HashOrder String) (jobId : Uuid) :
    Dealt dag.partitions (dag.materializeTasks newV5 order jobId) where
  partitions := by
    apply DagSpecification.materializeTasks_partition
    · exact hdag.readSource_isSome List.mem_cons_self
    · rw [DagSpecification.injected_keyed hdag]
      exact List.cons_ne_nil _ _
  total _ htask := (DagSpecification.task_nodes htask).2.2.2.2.1

omit [BEq F] in
/-- Tasks that aggregate their slices, or give nothing when the operator is not
reached, together aggregate all rows. -/
theorem keyed_perm_iff {host : Host F} {total : Nat} {tasks : List (Task Uuid)} {consumed : Prop}
    {rows : List (Nat × Record F)} {out : Task Uuid → List (Record F)} (hdealt : Dealt total tasks)
    (htotal : 0 < total)
    (hout : ∀ task ∈ tasks,
      (consumed → (∀ r ∈ slice total task.partition rows,
          (ReduceByKeyOp.keyOf op.key r).isSome) ∧
        (out task).Perm (ReduceByKeyOp.aggregate host op reducer
          (slice total task.partition rows))) ∧
      (¬ consumed → out task = [])) :
    (tasks.flatMap out).Perm
        (ReduceByKeyOp.aggregate host op reducer (rows.map Prod.snd)) ↔
      (∀ row ∈ rows, ReduceByKeyOp.keyOf op.key row.2 = none) ∨
        consumed ∧ Colocated total (ReduceByKeyOp.keyOf op.key) rows := by
  by_cases hconsumed : consumed
  · have hkeys : ∀ row ∈ rows, (ReduceByKeyOp.keyOf op.key row.2).isSome := by
      intro row hrow
      obtain ⟨task, htask, hpid⟩ := hdealt.exists_task (Nat.mod_lt row.1 htotal)
      exact ((hout task htask).1 hconsumed).1 row.2 (mem_slice.mpr ⟨row.1, hrow, hpid.symm⟩)
    have hslices : (tasks.flatMap out).Perm ((List.range total).flatMap fun p =>
        ReduceByKeyOp.aggregate host op reducer (slice total p rows)) :=
      hdealt.flatMap_perm fun task htask => ((hout task htask).1 hconsumed).2
    rw [perm_aggregate_iff htotal hkeys hslices]
    constructor
    · exact fun hcolocated => Or.inr ⟨hconsumed, hcolocated⟩
    · intro h
      rcases h with hnone | hcolocated
      · intro row hrow
        have hkey := hkeys row hrow
        rw [hnone row hrow] at hkey
        cases hkey
      · exact hcolocated.2
  · have hnil : tasks.flatMap out = [] := by
      rw [List.flatMap_eq_nil_iff]
      exact fun task htask => (hout task htask).2 hconsumed
    rw [hnil, List.nil_perm, ReduceByKeyOp.aggregate_eq_nil_iff, List.forall_mem_map]
    constructor
    · exact Or.inl
    · exact fun h => h.resolve_right fun hcolocated => hconsumed hcolocated.1

/-- When all tasks have completed, their records together are the aggregation of
all rows exactly when each key has its rows in one slice, or no row has a key. -/
theorem keyed_global_iff {dag : DagSpecification}
    (hdag : dag.InLine (DagSpecification.keyedNodes source target uri format op))
    (hpartitions : 0 < dag.partitions) (hparse : ReducerKind.parse op.reducer = .ok reducer)
    (newV5 : Uuid → String → Uuid) (order : HashOrder String) (jobId : Uuid) {files : Files}
    (hfresh : ∀ task ∈ dag.materializeTasks newV5 order jobId,
      files.lookup (ex.spillPath task) = none)
    (hinput : ex.InputsOutside [ex.host.resolve uri] (dag.materializeTasks newV5 order jobId))
    (hback : ex.KeyedRoundTrips uri format op reducer dag.partitions files)
    (attempts : Task Uuid → Nat → Attempt) {schedule : List Nat}
    {t : Threads FileOp (Option Bytes) Files (Execution F Uuid)}
    (hrun : Lib.run Threads.step
      (ex.threads attempts (dag.materializeTasks newV5 order jobId) files) schedule = some t)
    {executions : List (Execution F Uuid)} (hdone : t.results = some executions)
    (hcompleted : ∀ e ∈ executions, e.result.status = .completed) :
    ∃ content rows, files.lookup (ex.host.resolve uri) = some content ∧
      ReadOp.numberedRecords ex.host format content = .ok rows ∧
      ((executions.flatMap fun e => e.output.flatMap Prod.snd).Perm
          (ReduceByKeyOp.aggregate ex.host op reducer (rows.map Prod.snd)) ↔
        (∀ row ∈ rows, ReduceByKeyOp.keyOf op.key row.2 = none) ∨
          DagSpecification.Consumed source target ∧
            Colocated dag.partitions (ReduceByKeyOp.keyOf op.key) rows) := by
  have hkeyed : ∀ task ∈ dag.materializeTasks newV5 order jobId,
      ex.IsKeyed task source target uri format op :=
    fun task htask => isKeyed_of_mem hdag htask ex
  have hdealt := dealt_of_keyed hdag newV5 order jobId
  have halone := results_alone hdealt.distinct hinput
    (fun task htask => (hkeyed task htask).uses_executeTask hparse (attempts task)) hrun hdone
  rw [halone, List.forall_mem_map] at hcompleted
  obtain ⟨content, rows, hcontent, hrows⟩ := hdealt.exists_rows hpartitions
    fun task htask => (hkeyed task htask).exists_records (hcompleted task htask)
  refine ⟨content, rows, hcontent, hrows, ?_⟩
  obtain ⟨hrecords, hvalues⟩ := hback content rows hcontent hrows
  rw [halone, List.flatMap_map]
  apply keyed_perm_iff hdealt hpartitions
  intro task htask
  apply (hkeyed task htask).of_completed hparse (hfresh task htask)
    (inputRecords_of_rows hpartitions (hdealt.total task htask) hcontent hrows)
  · intro v hv
    obtain ⟨i, hrow, -⟩ := mem_slice.mp hv
    exact hrecords (i, v) hrow
  · exact hvalues task.partition (hdealt.partition_lt htask)
  · exact hcompleted task htask

end

/-! ### Two tasks -/

def countDag : DagSpecification where
  nodes := [⟨"read", .read "in.csv" "csv"⟩, ⟨"count", .reduceByKey "k" "count"⟩]
  edges := [⟨"read", "count"⟩]
  partitions := 2

def countTasks : List (Task Path) :=
  countDag.materializeTasks (fun jobId name => name :: jobId) .insertion ["job"]

/-- A file of two rows. -/
def twoRows (first second : String) : Files :=
  AList.insert ["in.csv"]
    ("k,v\n" ++ first ++ ",x\n" ++ second ++ ",y\n").toUTF8.data.toList ∅

def countOf (key : String) (n : Int) : Record Int :=
  .object [("count", .number (.int n)), ("k", .string key)]

def counting : Executor Int Path :=
  .plain [keyedRecord "a" "x", keyedRecord "b" "y", countOf "a" 1, countOf "b" 1]

/-- The two tasks take turns on the file. -/
def countRun (files : Files) : Option (Threads FileOp (Option Bytes) Files (Execution Int Path)) :=
  Lib.run Threads.step (counting.threads (fun _ _ => .plain) countTasks files) [0, 1, 0, 1]

theorem countDag_inLine :
    countDag.InLine (DagSpecification.keyedNodes "read" "count" "in.csv" "csv" ⟨"k", "count"⟩) where
  nodes := by decide
  edges := by decide
  ids := by decide

theorem twoRows_lookup (first second : String) :
    (twoRows first second).lookup (counting.host.resolve "in.csv") =
      some ("k,v\n" ++ first ++ ",x\n" ++ second ++ ",y\n").toUTF8.data.toList :=
  AList.lookup_insert _

theorem twoKeys_rows {content : Bytes} {rows : List (Nat × Record Int)}
    (hcontent : (twoRows "a" "b").lookup (counting.host.resolve "in.csv") = some content)
    (hrows : ReadOp.numberedRecords counting.host "csv" content = .ok rows) :
    rows = [(0, keyedRecord "a" "x"), (1, keyedRecord "b" "y")] := by
  obtain rfl := Option.some.inj ((twoRows_lookup "a" "b").symm.trans hcontent)
  have hnumbered : ReadOp.numberedRecords counting.host "csv"
      ("k,v\n" ++ "a" ++ ",x\n" ++ "b" ++ ",y\n").toUTF8.data.toList =
        .ok [(0, keyedRecord "a" "x"), (1, keyedRecord "b" "y")] := by decide +kernel
  exact Except.ok.inj (hrows.symm.trans hnumbered)

theorem twoKeys_roundTrips :
    counting.KeyedRoundTrips "in.csv" "csv" ⟨"k", "count"⟩ .count 2 (twoRows "a" "b") := by
  intro content rows hcontent hrows
  obtain rfl := twoKeys_rows hcontent hrows
  decide +kernel

/-- Each task has a key to itself. -/
theorem keyed_global_iff_twoKeys :
    ∃ t executions, countRun (twoRows "a" "b") = some t ∧ t.results = some executions ∧
      (executions.flatMap fun e => e.output.flatMap Prod.snd).Perm
        (ReduceByKeyOp.aggregate counting.host ⟨"k", "count"⟩ .count
          [keyedRecord "a" "x", keyedRecord "b" "y"]) := by
  have hsome : (countRun (twoRows "a" "b")).isSome = true := by decide +kernel
  have hdone : ((countRun (twoRows "a" "b")).get hsome).results.isSome = true := by
    decide +kernel +revert
  have hall : ∀ e ∈ ((countRun (twoRows "a" "b")).get hsome).results.get hdone,
      e.result.status = .completed := by decide +kernel +revert
  refine ⟨_, _, (Option.some_get hsome).symm, (Option.some_get hdone).symm, ?_⟩
  obtain ⟨content, rows, hcontent, hrows, hiff⟩ := keyed_global_iff countDag_inLine (by decide)
    (show ReducerKind.parse "count" = .ok .count by decide) (fun jobId name => name :: jobId)
    .insertion ["job"]
    (by decide +kernel) (by unfold InputsOutside; decide +kernel) twoKeys_roundTrips
    (fun _ _ => .plain) (Option.some_get hsome).symm (Option.some_get hdone).symm hall
  obtain rfl := twoKeys_rows hcontent hrows
  exact hiff.mpr (Or.inr ⟨by unfold DagSpecification.Consumed; decide +kernel,
    by unfold Colocated; decide +kernel⟩)

/-- The rows of one key are in both slices: there are two records for it. -/
theorem divided_key_counted_twice :
    ∃ t executions, countRun (twoRows "a" "a") = some t ∧ t.results = some executions ∧
      (∀ e ∈ executions, e.result.status = .completed) ∧
      executions.map Execution.output = [[(0, [countOf "a" 1])], [(1, [countOf "a" 1])]] ∧
      ¬ (executions.flatMap fun e => e.output.flatMap Prod.snd).Perm
        (ReduceByKeyOp.aggregate counting.host ⟨"k", "count"⟩ .count
          [keyedRecord "a" "x", keyedRecord "a" "y"]) := by
  have hsome : (countRun (twoRows "a" "a")).isSome = true := by decide +kernel
  have hdone : ((countRun (twoRows "a" "a")).get hsome).results.isSome = true := by
    decide +kernel +revert
  have hlength : ((((countRun (twoRows "a" "a")).get hsome).results.get hdone).flatMap
      fun e => e.output.flatMap Prod.snd).length ≠ (ReduceByKeyOp.aggregate counting.host
        ⟨"k", "count"⟩ .count [keyedRecord "a" "x", keyedRecord "a" "y"]).length := by
    decide +kernel +revert
  exact ⟨_, _, (Option.some_get hsome).symm, (Option.some_get hdone).symm,
    by decide +kernel +revert, by decide +kernel +revert, fun hperm => hlength hperm.length_eq⟩

end Executor

end ProcessingEngine

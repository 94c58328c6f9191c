import ProcessingEngine.Common.Chain
import ProcessingEngine.Worker.InTree
import ProcessingEngine.Worker.RecordWise
import ProcessingEngine.Worker.Slices

/-!
# The tasks of a linear job

A task of a linear job of record-wise operators takes its records from the input
through the operators.  It completes exactly when none of them fails on a record,
and then it has written what they make of the records
(`Executor.IsChain.executeTask_cases`).
-/

namespace ProcessingEngine

open Lib Lib.Exec Text

variable {F Uuid : Type}

/-- The record-wise operators of the nodes. -/
def DagSpecification.recordOps (nodes : List DagNode) : List RecordOp :=
  nodes.filterMap fun n => n.operator.recordOp

namespace DagSpecification

variable {dag : DagSpecification} {source : DagNode} {rest : List DagNode}

theorem operators_eq (h : ∀ n ∈ rest, n.operator.recordOp.isSome)
    (partitionId totalPartitions cacheLimitBytes : Nat) (spillPath : Path) :
    rest.map (fun n => Operator.fromType n.operator partitionId totalPartitions cacheLimitBytes
      spillPath) = (recordOps rest).map RecordOp.toOperator := by
  induction rest with
  | nil => rfl
  | cons n rest ih =>
      rw [List.forall_mem_cons] at h
      obtain ⟨op, hop⟩ := Option.isSome_iff_exists.mp h.1
      have hcons : recordOps (n :: rest) = op :: recordOps rest := by
        rw [recordOps, List.filterMap_cons, hop]
        rfl
      rw [List.map_cons, hcons, List.map_cons, ih h.2, RecordOp.fromType_of_recordOp hop]

theorem length_recordOps (h : ∀ n ∈ rest, n.operator.recordOp.isSome) :
    (recordOps rest).length = rest.length := by
  have hlen := congrArg List.length (operators_eq h 0 0 0 [])
  rw [List.length_map, List.length_map] at hlen
  exact hlen.symm

variable {newV5 : Uuid → String → Uuid} {order : HashOrder String} {jobId : Uuid}
  {task : Task Uuid}

theorem injected_linear (hlinear : dag.Linear (source :: rest))
    (hsource : source.operator.isReduceByKey = false)
    (hrest : ∀ n ∈ rest, n.operator.recordOp.isSome) (order : HashOrder String) :
    dag.injectLocalShuffle (dag.orderedNodes order) = source :: rest := by
  rw [hlinear.inLine.orderedNodes_eq order]
  refine injectLocalShuffle_of_forall fun n hn => ?_
  rcases List.mem_cons.mp hn with rfl | hn
  · exact hsource
  · have hsome := hrest n hn
    cases hop : n.operator with
    | reduceByKey key op =>
        rw [hop] at hsome
        cases hsome
    | _ => rfl

theorem readSource_isSome {id uri format : String} (hread : ⟨id, .read uri format⟩ ∈ dag.nodes) :
    dag.readSource.isSome := by
  unfold readSource
  rw [List.findSome?_isSome_iff]
  exact ⟨_, hread, rfl⟩

theorem InLine.readSource_isSome {chain : List DagNode} {id uri format : String}
    (h : dag.InLine chain) (hread : ⟨id, .read uri format⟩ ∈ chain) : dag.readSource.isSome :=
  DagSpecification.readSource_isSome (h.nodes.mem_iff.mpr hread)

end DagSpecification

/-! ### The pipeline of a task -/

namespace Executor

/-- The pipeline reads the input and takes it through the operators. -/
structure IsChain (ex : Executor F Uuid) (task : Task Uuid) (uri format : String)
    (ops : List RecordOp) : Prop where
  operators : (ex.pipeline task).operators =
    .read (ex.readOf task uri format) :: ops.map RecordOp.toOperator
  first : (ex.pipeline task).parents 0 = []
  next : ∀ i < ops.length,
    (ex.pipeline task).parents (0 + 1 + i) = [(ex.pipeline task).operatorId (0 + i)]
  last : (ex.pipeline task).finalKey = (ex.pipeline task).operatorId (0 + ops.length)

theorem isChain_of_linear {newV5 : Uuid → String → Uuid} {order : HashOrder String} {jobId : Uuid}
    {dag : DagSpecification} {id uri format : String} {rest : List DagNode} {task : Task Uuid}
    (hlinear : dag.Linear (⟨id, .read uri format⟩ :: rest))
    (hrest : ∀ n ∈ rest, n.operator.recordOp.isSome)
    (htask : task ∈ dag.materializeTasks newV5 order jobId) (ex : Executor F Uuid) :
    ex.IsChain task uri format (DagSpecification.recordOps rest) := by
  have hnodes := DagSpecification.injected_linear hlinear rfl hrest order
  have hlen := DagSpecification.length_recordOps hrest
  have hsteps : ∀ (i : Nat) (n : DagNode), (⟨id, .read uri format⟩ :: rest)[i]? = some n →
      (ex.pipeline task).operatorId i = n.id ∧
        (ex.pipeline task).parents i = (dag.incomingEdges n.id).map beforeArrow := by
    intro i n hn
    rw [← hnodes] at hn
    exact DagSpecification.task_node ex htask hn
  refine ⟨?_, ?_, fun i hi => ?_, ?_⟩
  · show (Executor.operatorDefs task).map _ = _
    rw [(DagSpecification.task_named htask).operatorDefs, (DagSpecification.task_nodes htask).1,
      hnodes, List.map_cons, List.map_cons, List.map_map]
    exact congrArg₂ List.cons rfl (DagSpecification.operators_eq hrest _ _ _ _)
  · rw [(hsteps 0 _ rfl).2]
    exact hlinear.parents_first
  · rw [hlen] at hi
    obtain ⟨a, ha⟩ : ∃ a, (⟨id, .read uri format⟩ :: rest)[i]? = some a :=
      ⟨_, List.getElem?_eq_getElem (by rw [List.length_cons]; omega)⟩
    obtain ⟨b, hb⟩ : ∃ b, (⟨id, .read uri format⟩ :: rest)[i + 1]? = some b :=
      ⟨_, List.getElem?_eq_getElem (by rw [List.length_cons]; omega)⟩
    have hsplit : ∃ pre tail, (⟨id, .read uri format⟩ :: rest) = pre ++ a :: b :: tail := by
      refine ⟨(⟨id, .read uri format⟩ :: rest).take i,
        (⟨id, .read uri format⟩ :: rest).drop (i + 2), ?_⟩
      obtain ⟨hi', rfl⟩ := List.getElem?_eq_some_iff.mp ha
      obtain ⟨hi'', rfl⟩ := List.getElem?_eq_some_iff.mp hb
      rw [← List.drop_eq_getElem_cons hi'', ← List.drop_eq_getElem_cons hi', List.take_append_drop]
    obtain ⟨pre, tail, heq⟩ := hsplit
    rw [heq] at hlinear
    rw [show 0 + 1 + i = i + 1 by omega, Nat.zero_add, (hsteps _ _ hb).2, (hsteps _ _ ha).1]
    exact hlinear.parents_next
  · obtain ⟨a, ha⟩ : ∃ a, (⟨id, .read uri format⟩ :: rest)[rest.length]? = some a :=
      ⟨_, List.getElem?_eq_getElem (by rw [List.length_cons]; omega)⟩
    have hlast : (dag.injectLocalShuffle (dag.orderedNodes order)).getLast? = some a := by
      rw [hnodes, List.getLast?_eq_getElem?, List.length_cons, Nat.add_sub_cancel]
      exact ha
    rw [hlen, Nat.zero_add, (hsteps _ _ ha).1]
    exact DagSpecification.task_finalKey ex htask hlast

/-! ### One execution -/

section

variable [BEq F] {ex : Executor F Uuid} {task : Task Uuid} {uri format : String}
  {ops : List RecordOp} {files : Files} {records : List (Record F)}

/-- A task that cannot read its records fails and leaves the files alone. -/
theorem IsChain.run_unread (h : ex.IsChain task uri format ops) {e : Fail}
    (hread : ex.inputRecords task uri format files = .error e) (attempt : Attempt) :
    (ex.pipeline task).run ex.host attempt files = (.error e, files) := by
  apply Pipeline.run_of_error
  rw [h.operators, Pipeline.runOperators_cons, execute_readOf, hread]

/-- The records of the task go through the operators. -/
theorem IsChain.run_read (h : ex.IsChain task uri format ops)
    (hparses : ∀ op ∈ ops, op.parses ex.host = true)
    (hread : ex.inputRecords task uri format files = .ok records)
    (hfresh : files.lookup (ex.spillPath task) = none)
    (hback : ∀ r ∈ records, ∀ v ∈ RecordOp.reached ex.host ops r, ex.host.ReadsBack v)
    (attempt : Attempt) :
    (records.all (RecordOp.accepts ex.host ops) = true ∧ ∃ partition stages files',
      (ex.pipeline task).run ex.host attempt files = (.ok ([partition], stages), files') ∧
      partition.Carries ex.host files (records.flatMap (RecordOp.results ex.host ops)) files' ∧
      partition.partitionId = task.partition) ∨
    records.all (RecordOp.accepts ex.host ops) = false ∧ ∃ e,
      (ex.pipeline task).run ex.host attempt files = (.error e, files) := by
  let partition : PartitionData F := .stored ex.host task.partition
    ex.config.partitionCacheLimitBytes (ex.spillPath task) records
  let after := PartitionCache.storedFiles ex.host ex.config.partitionCacheLimitBytes
    (ex.spillPath task) records files
  have hcarries : partition.Carries ex.host files records after :=
    PartitionData.carries_stored hfresh _ _ _ _
  have hrun : (ex.pipeline task).runOperators ex.host attempt 0 (ex.pipeline task).operators ∅ []
      files = (ex.pipeline task).runOperators ex.host attempt (0 + 1)
        (ops.map RecordOp.toOperator) (AList.insert ((ex.pipeline task).operatorId 0) [partition] ∅)
        ([] ++ [(ex.pipeline task).stageTrace 0 [partition]]) after := by
    rw [h.operators, Pipeline.runOperators_cons, execute_readOf, hread, h.first]
    rfl
  rcases runChain_filled hparses h.next hcarries hback
    ([] ++ [(ex.pipeline task).stageTrace 0 [partition]]) with
    ⟨hall, last, files', stages, hok, hlast, hlastId⟩ | ⟨hall, e, herror⟩
  · refine Or.inl ⟨hall, last, stages, files', ?_, hlast, hlastId⟩
    refine Pipeline.run_of_ok (hrun.trans hok) ?_
    rw [h.last, AList.lookup_insert]
  · exact Or.inr ⟨hall, e, Pipeline.run_of_error (hrun.trans herror)⟩

/-- A filter of which the predicate does not parse never lets a task complete. -/
theorem IsChain.run_unparsed (h : ex.IsChain task uri format ops)
    (hparses : ¬ ∀ op ∈ ops, op.parses ex.host = true) (attempt : Attempt) (files : Files) :
    ∃ e, ((ex.pipeline task).run ex.host attempt files).1 = .error e := by
  cases hrun : (ex.pipeline task).run ex.host attempt files with
  | mk out files' =>
      cases out with
      | error e => exact ⟨e, rfl⟩
      | ok out =>
          exfalso
          apply hparses
          intro op hop
          obtain ⟨table, after, hoperators, -⟩ := bind_eq_ok.mp hrun
          have hmem : op.toOperator ∈ (ex.pipeline task).operators := by
            rw [h.operators]
            exact List.mem_cons_of_mem _ (List.mem_map_of_mem hop)
          obtain ⟨order, input, before, parts, after, hexecute⟩ :=
            Pipeline.execute_of_runOperators hoperators _ hmem
          exact RecordOp.parses_of_execute hexecute

omit [BEq F] in
/-- A partition is written as what it carries. -/
theorem writePartition_of_carries {partition : PartitionData F} {before : Files}
    (h : partition.Carries ex.host before records files) (hback : ∀ v ∈ records, ex.host.ReadsBack v)
    (task : Task Uuid) :
    ex.writePartition task partition files =
      (.ok ((partition.partitionId, records), (ex.host.jsonLines records).length),
        before.insert (ex.partitionPath task partition.partitionId)
          (ex.host.jsonLines records)) := by
  rw [writePartition, bind_apply, PartitionData.intoParts_of_filled h.filled h.fresh hback]
  rfl

/-- The records that the task reads, when they go through all operators. -/
structure Accepted (ex : Executor F Uuid) (task : Task Uuid) (uri format : String)
    (ops : List RecordOp) (files : Files) (records : List (Record F)) : Prop where
  parses : ∀ op ∈ ops, op.parses ex.host = true
  read : ex.inputRecords task uri format files = .ok records
  accepts : records.all (RecordOp.accepts ex.host ops) = true

/-- The task has written what the operators make of the records. -/
structure WroteResults (ex : Executor F Uuid) (task : Task Uuid) (ops : List RecordOp)
    (files : Files) (records : List (Record F)) (execution : Execution F Uuid) (after : Files) :
    Prop where
  status : execution.result.status = .completed
  output : execution.output = [(task.partition, records.flatMap (RecordOp.results ex.host ops))]
  files : after = files.insert (ex.resultPath task)
    (ex.host.jsonLines (records.flatMap (RecordOp.results ex.host ops)))
  location : execution.result.resultLocation = ⟨ex.resultPath task,
    (ex.host.jsonLines (records.flatMap (RecordOp.results ex.host ops))).length⟩

theorem IsChain.executeSync_cases (h : ex.IsChain task uri format ops)
    (hparses : ∀ op ∈ ops, op.parses ex.host = true)
    (hfresh : files.lookup (ex.spillPath task) = none)
    (hback : ∀ records, ex.inputRecords task uri format files = .ok records →
      ∀ r ∈ records, ∀ v ∈ RecordOp.reached ex.host ops r, ex.host.ReadsBack v)
    (attempt : Attempt) :
    (∃ records, ex.Accepted task uri format ops files records ∧
      ex.WroteResults task ops files records (ex.executeSync attempt task files).1
        (ex.executeSync attempt task files).2) ∨
    (∀ records, ¬ ex.Accepted task uri format ops files records) ∧
      ((∃ message, (ex.executeSync attempt task files).1.result.status = .failed message ∧
        (ex.executeSync attempt task files).1.output = []) ∧
      (ex.executeSync attempt task files).2 = files) := by
  cases hread : ex.inputRecords task uri format files with
  | error e =>
      refine Or.inr ⟨fun records haccepted => ?_, ?_⟩
      · rw [haccepted.read] at hread
        cases hread
      · rw [executeSync_of_error (h.run_unread hread attempt)]
        exact ⟨⟨_, rfl, rfl⟩, rfl⟩
  | ok records =>
      have hback := hback records hread
      rcases h.run_read hparses hread hfresh hback attempt with
        ⟨hall, partition, stages, files', hrun, hcarries, hid⟩ | ⟨hall, e, hrun⟩
      · refine Or.inl ⟨records, ⟨hparses, hread, hall⟩, ?_⟩
        have hresults : ∀ v ∈ records.flatMap (RecordOp.results ex.host ops),
            ex.host.ReadsBack v := by
          intro v hv
          obtain ⟨r, hr, hv⟩ := List.mem_flatMap.mp hv
          exact hback r hr v (RecordOp.results_subset_reached ex.host ops r hv)
        have hwrite := writePartition_of_carries hcarries hresults task
        rw [hid] at hwrite
        rw [executeSync_of_ok hrun, forEach_singleton, hwrite]
        refine ⟨rfl, rfl, rfl, ?_⟩
        show ResultLocation.mk _ (finalBytes task _) = _
        rw [finalBytes, List.foldl_cons, List.foldl_nil, if_pos rfl]
        rfl
      · refine Or.inr ⟨fun records' haccepted => ?_, ?_⟩
        · obtain rfl : records = records' := Except.ok.inj (hread.symm.trans haccepted.read)
          rw [haccepted.accepts] at hall
          cases hall
        · rw [executeSync_of_error hrun]
          exact ⟨⟨_, rfl, rfl⟩, rfl⟩

theorem retry_of_completed {attempts : Nat → Attempt} {n : Nat}
    (h : (ex.executeSync (attempts n) task files).1.result.status = .completed) :
    ex.retry attempts task n files = ex.executeSync (attempts n) task files := by
  cases n with
  | zero => rfl
  | succ n =>
      simp only [retry, Prog.run_bind, h]
      rfl

theorem executeTask_fails {R : Files → Prop}
    (h : ∀ attempt files, R files →
      (∃ message, (ex.executeSync attempt task files).1.result.status = .failed message ∧
        (ex.executeSync attempt task files).1.output = []) ∧
      R (ex.executeSync attempt task files).2) (attempts : Nat → Attempt) (hfiles : R files) :
    ∃ message, (ex.executeTask attempts task files).1.result.status = .failed message := by
  have hretry := retry_rule ex task (Q := fun _ _ => False)
    (fun attempt files hR => Or.inr (h attempt files hR)) attempts ex.config.taskRetryLimit hfiles
  obtain ⟨message, hstatus, -⟩ := (hretry.resolve_left And.right).1
  exact ⟨message, hstatus⟩

theorem not_fails_of_completed {attempts : Nat → Attempt}
    (hcompleted : (ex.executeTask attempts task files).1.result.status = .completed) :
    ¬ ∀ attempt, (∃ message,
      (ex.executeSync attempt task files).1.result.status = .failed message ∧
        (ex.executeSync attempt task files).1.output = []) ∧
      (ex.executeSync attempt task files).2 = files := by
  intro hfails
  have hevery : ∀ attempt current, current = files → (∃ message,
      (ex.executeSync attempt task current).1.result.status = .failed message ∧
        (ex.executeSync attempt task current).1.output = []) ∧
      (ex.executeSync attempt task current).2 = files := by
    intro attempt current hcurrent
    subst hcurrent
    exact hfails attempt
  obtain ⟨message, hfailed⟩ := executeTask_fails (R := (· = files)) hevery attempts rfl
  rw [hcompleted] at hfailed
  cases hfailed

/-- A task completes when its records are accepted, and fails otherwise. -/
theorem IsChain.executeTask_cases (h : ex.IsChain task uri format ops)
    (hfresh : files.lookup (ex.spillPath task) = none)
    (hback : ∀ records, ex.inputRecords task uri format files = .ok records →
      ∀ r ∈ records, ∀ v ∈ RecordOp.reached ex.host ops r, ex.host.ReadsBack v)
    (attempts : Nat → Attempt) :
    (∃ records, ex.Accepted task uri format ops files records ∧
      ex.WroteResults task ops files records (ex.executeTask attempts task files).1
        (ex.executeTask attempts task files).2) ∨
    (∀ records, ¬ ex.Accepted task uri format ops files records) ∧
      ∃ message, (ex.executeTask attempts task files).1.result.status = .failed message := by
  by_cases hparses : ∀ op ∈ ops, op.parses ex.host = true
  · have hsync := h.executeSync_cases hparses hfresh hback
    by_cases hsome : ∃ records, ex.Accepted task uri format ops files records
    · rcases hsync (attempts ex.config.taskRetryLimit) with hdone | ⟨hnone, -⟩
      · obtain ⟨records, haccepted, hwrote⟩ := hdone
        rw [executeTask, retry_of_completed hwrote.status]
        exact Or.inl ⟨records, haccepted, hwrote⟩
      · obtain ⟨records, haccepted⟩ := hsome
        exact absurd haccepted (hnone records)
    · have hnone : ∀ records, ¬ ex.Accepted task uri format ops files records :=
        fun records haccepted => hsome ⟨records, haccepted⟩
      refine Or.inr ⟨hnone, executeTask_fails (R := (· = files)) ?_ attempts rfl⟩
      intro attempt current hcurrent
      subst hcurrent
      rcases hsync attempt with ⟨records, haccepted, -⟩ | ⟨-, hfailed⟩
      · exact absurd haccepted (hnone records)
      · exact hfailed
  · refine Or.inr ⟨fun records haccepted => hparses haccepted.parses,
      executeTask_fails (R := fun _ => True) ?_ attempts trivial⟩
    intro attempt current _
    obtain ⟨e, he⟩ := h.run_unparsed hparses attempt current
    rw [executeSync_of_error (Prod.ext he rfl)]
    exact ⟨⟨_, rfl, rfl⟩, trivial⟩

/-! ### The tasks of a job, each on its own -/

/-- The rows of the input, when they go through all operators. -/
structure AcceptedInput (ex : Executor F Uuid) (uri format : String) (ops : List RecordOp)
    (files : Files) (rows : List (Nat × Record F)) : Prop where
  parses : ∀ op ∈ ops, op.parses ex.host = true
  numbered : ∃ content, files.lookup (ex.host.resolve uri) = some content ∧
    ReadOp.numberedRecords ex.host format content = .ok rows
  accepts : ∀ row ∈ rows, RecordOp.accepts ex.host ops row.2 = true

/-- The JSON library reads back what becomes of the rows of the input. -/
def RoundTrips (ex : Executor F Uuid) (uri format : String) (ops : List RecordOp)
    (files : Files) : Prop :=
  ∀ content rows, files.lookup (ex.host.resolve uri) = some content →
    ReadOp.numberedRecords ex.host format content = .ok rows →
      ∀ row ∈ rows, ∀ v ∈ RecordOp.reached ex.host ops row.2, ex.host.ReadsBack v

/-- Both say something of the operators, the library and the bytes of the input,
and so hold under another configuration, in files with the same input. -/
theorem acceptedInput_congr {files₁ : Files}
    (hfiles : files₁.lookup (ex.host.resolve uri) = files.lookup (ex.host.resolve uri))
    (config : Config) {rows : List (Nat × Record F)} :
    ({ ex with config }).AcceptedInput uri format ops files₁ rows ↔
      ex.AcceptedInput uri format ops files rows := by
  constructor
  · intro ⟨hparses, hnumbered, haccepts⟩
    exact ⟨hparses, hfiles ▸ hnumbered, haccepts⟩
  · intro ⟨hparses, hnumbered, haccepts⟩
    exact ⟨hparses, hfiles.symm ▸ hnumbered, haccepts⟩

theorem RoundTrips.congr (hback : ex.RoundTrips uri format ops files) {files₁ : Files}
    (hfiles : files₁.lookup (ex.host.resolve uri) = files.lookup (ex.host.resolve uri))
    (config : Config) : ({ ex with config }).RoundTrips uri format ops files₁ := by
  intro content rows hcontent
  rw [show _ = files.lookup _ from hfiles] at hcontent
  exact hback content rows hcontent

/-- The tasks of a linear job with `total` partitions. -/
structure DealtChain (ex : Executor F Uuid) (uri format : String) (ops : List RecordOp)
    (total : Nat) (tasks : List (Task Uuid)) : Prop extends Dealt total tasks where
  chain : ∀ task ∈ tasks, ex.IsChain task uri format ops

omit [BEq F] in
theorem dealt_of_linear {dag : DagSpecification} {id uri format : String} {rest : List DagNode}
    (hlinear : dag.Linear (⟨id, .read uri format⟩ :: rest))
    (hrest : ∀ n ∈ rest, n.operator.recordOp.isSome) (newV5 : Uuid → String → Uuid)
    (order : HashOrder String) (jobId : Uuid) (ex : Executor F Uuid) :
    ex.DealtChain uri format (DagSpecification.recordOps rest) dag.partitions
      (dag.materializeTasks newV5 order jobId) where
  partitions := by
    apply DagSpecification.materializeTasks_partition
    · exact hlinear.inLine.readSource_isSome List.mem_cons_self
    · rw [DagSpecification.injected_linear hlinear rfl hrest order]
      exact List.cons_ne_nil _ _
  total _ htask := (DagSpecification.task_nodes htask).2.2.2.2.1
  chain _ htask := isChain_of_linear hlinear hrest htask ex

section

variable {total : Nat} {tasks : List (Task Uuid)} {rows : List (Nat × Record F)} {content : Bytes}

/-- Each task takes its slice of the rows. -/
theorem DealtChain.task_cases (h : ex.DealtChain uri format ops total tasks) (htotal : 0 < total)
    (hcontent : files.lookup (ex.host.resolve uri) = some content)
    (hrows : ReadOp.numberedRecords ex.host format content = .ok rows)
    (hback : ex.RoundTrips uri format ops files) (hmem : task ∈ tasks)
    (hfresh : files.lookup (ex.spillPath task) = none) (attempts : Nat → Attempt) :
    (ex.Accepted task uri format ops files (slice total task.partition rows) ∧
      ex.WroteResults task ops files (slice total task.partition rows)
        (ex.executeTask attempts task files).1 (ex.executeTask attempts task files).2) ∨
    ¬ ex.Accepted task uri format ops files (slice total task.partition rows) ∧
      ∃ message, (ex.executeTask attempts task files).1.result.status = .failed message := by
  have hread : ex.inputRecords task uri format files = .ok (slice total task.partition rows) :=
    inputRecords_of_rows htotal (h.total task hmem) hcontent hrows
  rcases (h.chain task hmem).executeTask_cases hfresh (fun records hrecords r hr => by
    obtain rfl := Except.ok.inj (hread.symm.trans hrecords)
    obtain ⟨i, hrow, -⟩ := mem_slice.mp hr
    exact hback content rows hcontent hrows (i, r) hrow) attempts with
    ⟨records, haccepted, hwrote⟩ | ⟨hnone, hfailed⟩
  · obtain rfl := Except.ok.inj (hread.symm.trans haccepted.read)
    exact Or.inl ⟨haccepted, hwrote⟩
  · exact Or.inr ⟨hnone _, hfailed⟩

theorem DealtChain.wrote (h : ex.DealtChain uri format ops total tasks) (htotal : 0 < total)
    (hback : ex.RoundTrips uri format ops files)
    (hinput : ex.AcceptedInput uri format ops files rows) (hmem : task ∈ tasks)
    (hfresh : files.lookup (ex.spillPath task) = none) (attempts : Nat → Attempt) :
    ex.WroteResults task ops files (slice total task.partition rows)
      (ex.executeTask attempts task files).1 (ex.executeTask attempts task files).2 := by
  obtain ⟨content, hcontent, hrows⟩ := hinput.numbered
  have haccepted : ex.Accepted task uri format ops files (slice total task.partition rows) := by
    refine ⟨hinput.parses, inputRecords_of_rows htotal (h.total task hmem) hcontent hrows, ?_⟩
    rw [List.all_eq_true]
    intro r hr
    obtain ⟨i, hrow, -⟩ := mem_slice.mp hr
    exact hinput.accepts (i, r) hrow
  rcases h.task_cases htotal hcontent hrows hback hmem hfresh attempts with
    ⟨-, hwrote⟩ | ⟨hnone, -⟩
  · exact hwrote
  · exact absurd haccepted hnone

/-- Together the tasks write what becomes of the rows. -/
theorem DealtChain.records_perm (h : ex.DealtChain uri format ops total tasks) (htotal : 0 < total)
    (hback : ex.RoundTrips uri format ops files)
    (hinput : ex.AcceptedInput uri format ops files rows)
    (hfresh : ∀ task ∈ tasks, files.lookup (ex.spillPath task) = none)
    (attempts : Task Uuid → Nat → Attempt) :
    (tasks.flatMap fun task =>
      (ex.executeTask (attempts task) task files).1.output.flatMap Prod.snd).Perm
        ((rows.map Prod.snd).flatMap (RecordOp.results ex.host ops)) := by
  have heach : ∀ task ∈ tasks,
      ((ex.executeTask (attempts task) task files).1.output.flatMap Prod.snd).Perm
        ((slice total task.partition rows).flatMap (RecordOp.results ex.host ops)) := by
    intro task hmem
    rw [(h.wrote htotal hback hinput hmem (hfresh task hmem) (attempts task)).output,
      List.flatMap_singleton]
  have htasks : (tasks.flatMap fun task =>
      (ex.executeTask (attempts task) task files).1.output.flatMap Prod.snd).Perm
        ((List.range total).flatMap fun p =>
          (slice total p rows).flatMap (RecordOp.results ex.host ops)) := h.flatMap_perm heach
  refine htasks.trans ?_
  rw [← List.flatMap_assoc]
  exact (slices_perm htotal rows).flatMap_right _

/-- The tasks complete when the operators take all rows of the input. -/
theorem DealtChain.completed_iff (h : ex.DealtChain uri format ops total tasks) (htotal : 0 < total)
    (hback : ex.RoundTrips uri format ops files)
    (hfresh : ∀ task ∈ tasks, files.lookup (ex.spillPath task) = none)
    (attempts : Task Uuid → Nat → Attempt) :
    (∀ task ∈ tasks,
      (ex.executeTask (attempts task) task files).1.result.status = .completed) ↔
    ∃ rows, ex.AcceptedInput uri format ops files rows := by
  constructor
  · intro hcompleted
    obtain ⟨content, rows, hcontent, hrows⟩ : ∃ content rows,
        files.lookup (ex.host.resolve uri) = some content ∧
          ReadOp.numberedRecords ex.host format content = .ok rows := by
      refine h.toDealt.exists_rows htotal fun task hmem => ?_
      cases hread : ex.inputRecords task uri format files with
      | ok records => exact ⟨records, rfl⟩
      | error e =>
          exfalso
          rcases (h.chain task hmem).executeTask_cases (hfresh task hmem)
            (fun records hrecords => by rw [hread] at hrecords; cases hrecords) (attempts task) with
            ⟨records, haccepted, -⟩ | ⟨-, message, hfailed⟩
          · rw [haccepted.read] at hread
            cases hread
          · rw [hcompleted task hmem] at hfailed
            cases hfailed
    have hall : ∀ pid < total, ∃ task ∈ tasks,
        ex.Accepted task uri format ops files (slice total pid rows) := by
      intro pid hpid
      obtain ⟨task, hmem, rfl⟩ := h.toDealt.exists_task hpid
      refine ⟨task, hmem, ?_⟩
      rcases h.task_cases htotal hcontent hrows hback hmem (hfresh task hmem) (attempts task) with
        ⟨haccepted, -⟩ | ⟨-, message, hfailed⟩
      · exact haccepted
      · rw [hcompleted task hmem] at hfailed
        cases hfailed
    obtain ⟨_, _, hfirst⟩ := hall 0 htotal
    refine ⟨rows, hfirst.parses, ⟨content, hcontent, hrows⟩, fun row hrow => ?_⟩
    obtain ⟨_, _, haccepted⟩ := hall (row.1 % total) (Nat.mod_lt _ htotal)
    exact List.all_eq_true.mp haccepted.accepts row.2 (mem_slice.mpr ⟨row.1, hrow, rfl⟩)
  · intro ⟨rows, hinput⟩ task hmem
    exact (h.wrote htotal hback hinput hmem (hfresh task hmem) (attempts task)).status

end

end

end Executor
end ProcessingEngine

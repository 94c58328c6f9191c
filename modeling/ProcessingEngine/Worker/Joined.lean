import ProcessingEngine.Worker.Alone
import ProcessingEngine.Worker.JoinSlices
import ProcessingEngine.Worker.Shuffled
import ProcessingEngine.Worker.TwoInputs

/-!
# Reading two inputs and joining them

Each task of such a job joins its slices of the two inputs, or fails.  When all
tasks have completed, their records together are the join of all rows exactly
when left and right rows with the same key have been dealt to one task.
-/

namespace ProcessingEngine

open Lib Lib.Exec Text

namespace Executor

variable {F Uuid : Type}

section

variable [BEq F] {ex : Executor F Uuid} {task : Task Uuid} {left right first second : Source}
  {target : String} {op : JoinOp}

/-- The left and the right records do not both exceed the limit of the cache. -/
def OneFits (ex : Executor F Uuid) (lefts rights : List (Record F)) : Prop :=
  ex.host.sizeOf lefts ≤ ex.config.partitionCacheLimitBytes ∨
    ex.host.sizeOf rights ≤ ex.config.partitionCacheLimitBytes

/-- A task writes the join of its records, or fails and leaves no file behind. -/
theorem IsJoin.executeSync_cases (h : ex.IsJoin task left right target op first second)
    (hinputs : ∀ source ∈ [left, right], ex.host.resolve source.uri ≠ ex.spillPath task)
    {files : Files} (hfresh : files.lookup (ex.spillPath task) = none)
    (hwired : DagSpecification.Wired left.id right.id target)
    {records : Source → List (Record F)} (hread : ∀ source ∈ [left, right],
      ex.inputRecords task source.uri source.format files = .ok (records source))
    (hback : ∀ source ∈ [left, right], ∀ v ∈ records source, ex.host.ReadsBack v)
    (hback' : ∀ out, JoinOp.joinRecords ex.host op (records left) (records right) = .ok out →
      ∀ v ∈ out, ex.host.ReadsBack v)
    (attempt : Attempt) :
    (ex.OneFits (records left) (records right) ∧
      ∃ out, JoinOp.joinRecords ex.host op (records left) (records right) = .ok out ∧
        (ex.executeSync attempt task files).1.result.status = .completed ∧
        (ex.executeSync attempt task files).1.output.flatMap Prod.snd = out) ∨
    ¬ (ex.OneFits (records left) (records right) ∧
        ∃ out, JoinOp.joinRecords ex.host op (records left) (records right) = .ok out) ∧
      ((∃ message, (ex.executeSync attempt task files).1.result.status = .failed message ∧
        (ex.executeSync attempt task files).1.output = []) ∧
      (ex.executeSync attempt task files).2 = files) := by
  obtain ⟨stages, after, hafter, hrun⟩ := h.run_read hinputs hwired hread attempt
  have hlefts := hback left (by simp)
  have hrights := hback right (by simp)
  have hfails : ∀ {e}, JoinOp.execute ex.host op
      [ex.partOf task (records left), ex.partOf task (records right)] after = (.error e, files) →
      (∃ message, (ex.executeSync attempt task files).1.result.status = .failed message ∧
        (ex.executeSync attempt task files).1.output = []) ∧
      (ex.executeSync attempt task files).2 = files := by
    intro e he
    rw [he] at hrun
    rw [executeSync_of_error hrun]
    exact ⟨⟨_, rfl, rfl⟩, rfl⟩
  by_cases hfits : ex.OneFits (records left) (records right)
  · have hpair : ∃ files₁, (ex.partOf task (records left)).intoParts ex.host after =
          (.ok (_, _, records left), files₁) ∧
        (ex.partOf task (records right)).intoParts ex.host files₁ =
          (.ok (_, _, records right), files) :=
      PartitionData.intoParts_pair hfresh hlefts hrights hafter hfits
    obtain ⟨files₁, hleft, hright⟩ := hpair
    cases houtput : JoinOp.joinRecords ex.host op (records left) (records right) with
    | error e =>
        refine Or.inr ⟨fun hjoins => ?_, hfails (JoinOp.execute_of_error hleft hright houtput)⟩
        obtain ⟨out, hout⟩ := hjoins.2
        cases hout
    | ok out =>
        obtain ⟨partition, files', hjoin, hfilled, hspill⟩ :=
          JoinOp.execute_of_join hleft hright houtput
        have hcarries : partition.Carries ex.host files out files' := by
          refine ⟨hfilled, ?_⟩
          rw [hspill, partOf, PartitionData.stored_spillPath]
          exact hfresh
        have hwrite := writePartition_of_carries hcarries (hback' out houtput) task
        rw [hjoin] at hrun
        refine Or.inl ⟨hfits, out, rfl, ?_⟩
        rw [executeSync_of_ok hrun, forEach_singleton, hwrite]
        exact ⟨rfl, List.flatMap_singleton _ _⟩
  · have hexceed := not_or.mp hfits
    have hpair : ∃ both e, (ex.partOf task (records left)).intoParts ex.host after =
          (.ok (_, _, both), files) ∧
        (ex.partOf task (records right)).intoParts ex.host files = (.error e, files) :=
      PartitionData.intoParts_pair_spilled hfresh hlefts hrights hafter hexceed.1 hexceed.2
    obtain ⟨both, e, hleft, hright⟩ := hpair
    exact Or.inr ⟨fun hjoins => hfits hjoins.1, hfails (JoinOp.execute_of_gone hleft hright op)⟩

/-- A task that completes can join: one that cannot leaves its inputs as they are, and
its next attempt fails too. -/
theorem IsJoin.joinable_of_completed (h : ex.IsJoin task left right target op first second)
    (hinputs : ∀ source ∈ [left, right], ¬ Below (ex.stageDir task) (ex.host.resolve source.uri))
    {attempts : Nat → Attempt} {files : Files}
    (hcompleted : (ex.executeTask attempts task files).1.result.status = .completed) :
    ex.Joinable task left right target files := by
  by_contra hnot
  have hspill : ∀ source ∈ [left, right], ex.host.resolve source.uri ≠ ex.spillPath task :=
    fun source hsource heq => hinputs source hsource (heq ▸ ex.below_spillPath task)
  let Same (current : Files) : Prop := ∀ source ∈ [left, right],
    current.lookup (ex.host.resolve source.uri) = files.lookup (ex.host.resolve source.uri)
  have hstep : ∀ attempt current, Same current →
      (∃ message, (ex.executeSync attempt task current).1.result.status = .failed message ∧
        (ex.executeSync attempt task current).1.output = []) ∧
      Same (ex.executeSync attempt task current).2 := by
    intro attempt current hsame
    have hread : ∀ source ∈ [left, right],
        ex.inputRecords task source.uri source.format current =
          ex.inputRecords task source.uri source.format files := by
      intro source hsource
      rw [inputRecords, inputRecords, hsame source hsource]
    have hcurrent : ¬ ex.Joinable task left right target current := by
      intro hjoinable
      refine hnot ⟨hjoinable.1, fun source hsource => ?_⟩
      rw [← hread source hsource]
      exact hjoinable.2 source hsource
    obtain ⟨e, files', hrun⟩ := h.run_fails hspill hcurrent attempt
    refine ⟨?_, fun source hsource => ?_⟩
    · rw [executeSync_of_error hrun]
      exact ⟨_, rfl, rfl⟩
    · exact (lookup_of_changesBelow (ex.uses_stageDir task attempt) (hinputs source hsource)
        current).trans (hsame source hsource)
  obtain ⟨message, hfailed⟩ := executeTask_fails hstep attempts fun _ _ => rfl
  rw [hcompleted] at hfailed
  cases hfailed

/-- What a completed task has written. -/
theorem IsJoin.of_completed (h : ex.IsJoin task left right target op first second)
    (hinputs : ∀ source ∈ [left, right], ¬ Below (ex.stageDir task) (ex.host.resolve source.uri))
    {files : Files} (hfresh : files.lookup (ex.spillPath task) = none)
    {records : Source → List (Record F)} (hread : ∀ source ∈ [left, right],
      ex.inputRecords task source.uri source.format files = .ok (records source))
    (hback : ∀ source ∈ [left, right], ∀ v ∈ records source, ex.host.ReadsBack v)
    (hback' : ∀ out, JoinOp.joinRecords ex.host op (records left) (records right) = .ok out →
      ∀ v ∈ out, ex.host.ReadsBack v)
    {attempts : Nat → Attempt}
    (hcompleted : (ex.executeTask attempts task files).1.result.status = .completed) :
    ∃ out, JoinOp.joinRecords ex.host op (records left) (records right) = .ok out ∧
      (ex.executeTask attempts task files).1.output.flatMap Prod.snd = out := by
  have hspill : ∀ source ∈ [left, right], ex.host.resolve source.uri ≠ ex.spillPath task :=
    fun source hsource heq => hinputs source hsource (heq ▸ ex.below_spillPath task)
  have hwired := (h.joinable_of_completed hinputs hcompleted).1
  have hcases := h.executeSync_cases hspill hfresh hwired hread hback hback'
  rcases hcases (attempts ex.config.taskRetryLimit) with ⟨-, out, hjoin, hstatus, hout⟩ | ⟨hnot, -⟩
  · refine ⟨out, hjoin, ?_⟩
    rw [executeTask, retry_of_completed hstatus]
    exact hout
  · -- the files are as they were, and each attempt goes the same way
    refine absurd (fun attempt => ?_) (not_fails_of_completed hcompleted)
    refine ((hcases attempt).resolve_left fun hdone => hnot ?_).2
    obtain ⟨hfits, out, hjoin, -⟩ := hdone
    exact ⟨hfits, out, hjoin⟩

/-- The task uses its two inputs, its spill file and result files. -/
theorem IsJoin.uses_executeTask (h : ex.IsJoin task left right target op first second)
    (attempts : Nat → Attempt) :
    (ex.executeTask attempts task).Uses
      (ex.privateOf [ex.host.resolve left.uri, ex.host.resolve right.uri] task) fun _ => True := by
  let inputs := [ex.host.resolve left.uri, ex.host.resolve right.uri]
  have hspills : Spills (ex.privateOf inputs task)
      (fun _ _ spill => spill = ex.spillPath task) := by
    intro pid limitBytes spill hplace _
    obtain rfl : spill = ex.spillPath task := hplace
    exact ⟨Or.inr rfl, fun _ => rfl, rfl⟩
  have hreads : ∀ source ∈ [first, second],
      ex.privateOf inputs task (.read (ex.host.resolve source.uri)) := by
    intro source hsource
    refine Or.inl ?_
    rcases h.sides with ⟨rfl, rfl⟩ | ⟨rfl, rfl⟩
    · rcases List.mem_pair.mp hsource with rfl | rfl <;> simp [inputs]
    · rcases List.mem_pair.mp hsource with rfl | rfl <;> simp [inputs]
  refine ProcessingEngine.uses_executeTask (fun attempt => ?_) attempts
  refine ProcessingEngine.uses_executeSync attempt hspills rfl
    (fun pid _ _ _ data => ex.privateOf_partitionPath task pid data) ?_
  rw [h.operators]
  simp only [List.forall_mem_cons]
  refine ⟨ReadOp.keeps hspills rfl (hreads first (by simp)),
    ReadOp.keeps hspills rfl (hreads second (by simp)),
    JoinOp.keeps hspills (fun _ _ _ hplace _ => hplace) op, by simp⟩

/-! ### The whole job -/

/-- The input of the source has these rows. -/
def HasRows (ex : Executor F Uuid) (files : Files) (source : Source)
    (rows : List (Nat × Record F)) : Prop :=
  ∃ content, files.lookup (ex.host.resolve source.uri) = some content ∧
    ReadOp.numberedRecords ex.host source.format content = .ok rows

/-- The JSON library reads back the rows of the inputs and the joins of their
slices. -/
def JoinRoundTrips (ex : Executor F Uuid) (left right : Source) (op : JoinOp) (total : Nat)
    (files : Files) : Prop :=
  ∀ lefts rights, ex.HasRows files left lefts → ex.HasRows files right rights →
    (∀ row ∈ lefts ++ rights, ex.host.ReadsBack row.2) ∧
      ∀ p < total, ∀ out, JoinOp.joinRecords ex.host op (slice total p lefts)
        (slice total p rights) = .ok out → ∀ v ∈ out, ex.host.ReadsBack v

/-- The tasks of such a job with `total` partitions, on inputs outside its files. -/
structure DealtJoin (ex : Executor F Uuid) (left right : Source) (target : String) (op : JoinOp)
    (total : Nat) (tasks : List (Task Uuid)) : Prop extends Dealt total tasks where
  join : ∀ task ∈ tasks, ∃ first second, ex.IsJoin task left right target op first second
  inputs : ex.InputsOutside [ex.host.resolve left.uri, ex.host.resolve right.uri] tasks

omit [BEq F] in
theorem dealt_of_joins {dag : DagSpecification} (hdag : dag.Joins left right target op)
    (newV5 : Uuid → String → Uuid) (order : HashOrder String)
    (jobId : Uuid)
    (hinputs : ex.InputsOutside [ex.host.resolve left.uri, ex.host.resolve right.uri]
      (dag.materializeTasks newV5 order jobId)) :
    ex.DealtJoin left right target op dag.partitions
      (dag.materializeTasks newV5 order jobId) where
  partitions := by
    apply DagSpecification.materializeTasks_partition
    · have hread : left.node ∈ dag.nodes := hdag.nodes.mem_iff.mpr List.mem_cons_self
      exact DagSpecification.readSource_isSome hread
    · obtain ⟨first, second, -, hnodes⟩ := hdag.injected_cases order
      rw [hnodes]
      exact List.cons_ne_nil _ _
  total _ htask := (DagSpecification.task_nodes htask).2.2.2.2.1
  join _ htask := isJoin_of_mem hdag htask ex
  inputs := hinputs

namespace DealtJoin

variable {total : Nat} {tasks : List (Task Uuid)} {files : Files}
  {attempts : Task Uuid → Nat → Attempt}

omit [BEq F] in
theorem outside (h : ex.DealtJoin left right target op total tasks) (htask : task ∈ tasks) :
    ∀ source ∈ [left, right], ¬ Below (ex.stageDir task) (ex.host.resolve source.uri) := by
  intro source hsource
  apply h.inputs _ _ task htask
  rcases List.mem_pair.mp hsource with rfl | rfl
  · exact List.mem_cons_self
  · exact List.mem_cons_of_mem _ List.mem_cons_self

/-- When all tasks complete, both inputs have rows. -/
theorem exists_rows (h : ex.DealtJoin left right target op total tasks) (htotal : 0 < total)
    (hcompleted : ∀ task ∈ tasks,
      (ex.executeTask (attempts task) task files).1.result.status = .completed) :
    ∃ rows : Source → List (Nat × Record F),
      ∀ source ∈ [left, right], ex.HasRows files source (rows source) := by
  have hrows : ∀ source ∈ [left, right], ∃ rows, ex.HasRows files source rows := by
    intro source hsource
    have hread : ∀ task ∈ tasks,
        ∃ records, ex.inputRecords task source.uri source.format files = .ok records := by
      intro task htask
      obtain ⟨first, second, hjoin⟩ := h.join task htask
      exact (hjoin.joinable_of_completed (h.outside htask) (hcompleted task htask)).2 source
        hsource
    obtain ⟨content, rows, hcontent, hnumbered⟩ := h.toDealt.exists_rows htotal hread
    exact ⟨rows, content, hcontent, hnumbered⟩
  choose! rows hrows using hrows
  exact ⟨rows, hrows⟩

/-- What a completed task has written of the slices of the rows. -/
theorem task_output (h : ex.DealtJoin left right target op total tasks) (htotal : 0 < total)
    (htask : task ∈ tasks)
    (hfresh : files.lookup (ex.spillPath task) = none)
    (hback : ex.JoinRoundTrips left right op total files)
    {rows : Source → List (Nat × Record F)}
    (hrows : ∀ source ∈ [left, right], ex.HasRows files source (rows source))
    (hcompleted : (ex.executeTask (attempts task) task files).1.result.status = .completed) :
    JoinOp.joinRecords ex.host op (slice total task.partition (rows left))
        (slice total task.partition (rows right)) =
      .ok ((ex.executeTask (attempts task) task files).1.output.flatMap Prod.snd) := by
  obtain ⟨first, second, hjoin⟩ := h.join task htask
  obtain ⟨hrecords, hvalues⟩ := hback _ _ (hrows left (by simp)) (hrows right (by simp))
  have hread : ∀ source ∈ [left, right],
      ex.inputRecords task source.uri source.format files =
        .ok (slice total task.partition (rows source)) := by
    intro source hsource
    obtain ⟨content, hcontent, hnumbered⟩ := hrows source hsource
    exact inputRecords_of_rows htotal (h.total task htask) hcontent hnumbered
  have hsource : ∀ source ∈ [left, right], ∀ v ∈ slice total task.partition (rows source),
      ex.host.ReadsBack v := by
    intro source hsource v hv
    obtain ⟨i, hrow, -⟩ := mem_slice.mp hv
    apply hrecords (i, v)
    rcases List.mem_pair.mp hsource with rfl | rfl
    · exact List.mem_append_left _ hrow
    · exact List.mem_append_right _ hrow
  obtain ⟨out, hout, rfl⟩ := hjoin.of_completed (h.outside htask) hfresh hread hsource
    (hvalues task.partition (h.partition_lt htask)) hcompleted
  exact hout

/-- The joins of the slices, which the completed tasks have written. -/
theorem exists_joins (h : ex.DealtJoin left right target op total tasks) (htotal : 0 < total)
    (hfresh : ∀ task ∈ tasks, files.lookup (ex.spillPath task) = none)
    (hback : ex.JoinRoundTrips left right op total files)
    {rows : Source → List (Nat × Record F)}
    (hrows : ∀ source ∈ [left, right], ex.HasRows files source (rows source))
    (hcompleted : ∀ task ∈ tasks,
      (ex.executeTask (attempts task) task files).1.result.status = .completed) :
    ∃ out : Nat → List (Record F),
      (∀ p < total, JoinOp.joinRecords ex.host op (slice total p (rows left))
        (slice total p (rows right)) = .ok (out p)) ∧
      ∀ task ∈ tasks, (ex.executeTask (attempts task) task files).1.output.flatMap Prod.snd =
        out task.partition := by
  have hslice : ∀ p < total, ∃ out, JoinOp.joinRecords ex.host op (slice total p (rows left))
      (slice total p (rows right)) = .ok out := by
    intro p hp
    obtain ⟨task, htask, rfl⟩ := h.exists_task hp
    exact ⟨_, h.task_output htotal htask (hfresh task htask) hback hrows (hcompleted task htask)⟩
  choose! out hout using hslice
  refine ⟨out, hout, fun task htask => ?_⟩
  have hjoin := h.task_output htotal htask (hfresh task htask) hback hrows (hcompleted task htask)
  exact Except.ok.inj (hjoin.symm.trans (hout _ (h.partition_lt htask)))

/-- Completed tasks have together written the join of all rows exactly when left
and right rows with the same key are in one slice. -/
theorem output_perm_iff (h : ex.DealtJoin left right target op total tasks) (htotal : 0 < total)
    (hfresh : ∀ task ∈ tasks, files.lookup (ex.spillPath task) = none)
    (hordered : ex.host.OrderedMaps) (hback : ex.JoinRoundTrips left right op total files)
    {rows : Source → List (Nat × Record F)}
    (hrows : ∀ source ∈ [left, right], ex.HasRows files source (rows source))
    (hcompleted : ∀ task ∈ tasks,
      (ex.executeTask (attempts task) task files).1.result.status = .completed) :
    ∃ whole, JoinOp.joinRecords ex.host op ((rows left).map Prod.snd)
        ((rows right).map Prod.snd) = .ok whole ∧
      ((tasks.flatMap fun task =>
          (ex.executeTask (attempts task) task files).1.output.flatMap Prod.snd).Perm whole ↔
        PairColocated total (JoinOp.renderedKey ex.host op.key)
          (JoinOp.renderedKey ex.host op.key) (rows left) (rows right)) := by
  obtain ⟨out, hout, htasks⟩ := h.exists_joins htotal hfresh hback hrows hcompleted
  have hkeys : ∀ row ∈ rows left ++ rows right, JoinOp.HasKey op.key row.2 := by
    intro row hrow
    apply JoinOp.hasKey_of_joinRecords (hout (row.1 % total) (Nat.mod_lt _ htotal))
    rw [← slice_append]
    exact mem_slice.mpr ⟨row.1, hrow, rfl⟩
  have hwhole : ∀ record ∈ (rows left).map Prod.snd ++ (rows right).map Prod.snd,
      JoinOp.HasKey op.key record := by
    rw [← List.map_append, List.forall_mem_map]
    exact hkeys
  have hjoined : JoinOp.joinRecords ex.host op _ _ = .ok _ := JoinOp.joinRecords_of_hasKey hwhole
  refine ⟨_, hjoined, ?_⟩
  have hsorted : ∀ row ∈ rows left ++ rows right, Fields.Sorted (JoinOp.fieldsOf row.2) := by
    intro row hrow
    exact hordered.sorted_fieldsOf
      ((hback _ _ (hrows left (by simp)) (hrows right (by simp))).1 row hrow)
  rw [← JoinOp.slices_perm_iff htotal hkeys hsorted hout hjoined]
  exact (h.flatMap_perm fun task htask => .of_eq (htasks task htask)).congr_left _

end DealtJoin

/-- When all tasks have completed, their records together are the join of all rows
exactly when left and right rows with the same key have been dealt to one task. -/
theorem joined_global_iff {dag : DagSpecification} (hdag : dag.Joins left right target op)
    (hpartitions : 0 < dag.partitions) (newV5 : Uuid → String → Uuid) (order : HashOrder String)
    (jobId : Uuid) {files : Files}
    (hfresh : ∀ task ∈ dag.materializeTasks newV5 order jobId,
      files.lookup (ex.spillPath task) = none)
    (hinputs : ex.InputsOutside [ex.host.resolve left.uri, ex.host.resolve right.uri]
      (dag.materializeTasks newV5 order jobId))
    (hordered : ex.host.OrderedMaps)
    (hback : ex.JoinRoundTrips left right op dag.partitions files)
    (attempts : Task Uuid → Nat → Attempt) {schedule : List Nat}
    {t : Threads FileOp (Option Bytes) Files (Execution F Uuid)}
    (hrun : Lib.run Threads.step
      (ex.threads attempts (dag.materializeTasks newV5 order jobId) files) schedule = some t)
    {executions : List (Execution F Uuid)} (hdone : t.results = some executions)
    (hcompleted : ∀ e ∈ executions, e.result.status = .completed) :
    ∃ lefts rights whole, ex.HasRows files left lefts ∧ ex.HasRows files right rights ∧
      JoinOp.joinRecords ex.host op (lefts.map Prod.snd) (rights.map Prod.snd) = .ok whole ∧
      ((executions.flatMap fun e => e.output.flatMap Prod.snd).Perm whole ↔
        PairColocated dag.partitions (JoinOp.renderedKey ex.host op.key)
          (JoinOp.renderedKey ex.host op.key) lefts rights) := by
  have hdealt := dealt_of_joins hdag newV5 order jobId hinputs
  have huses : ∀ task ∈ dag.materializeTasks newV5 order jobId,
      (ex.executeTask (attempts task) task).Uses (ex.privateOf
        [ex.host.resolve left.uri, ex.host.resolve right.uri] task) fun _ => True := by
    intro task htask
    obtain ⟨first, second, hjoin⟩ := hdealt.join task htask
    exact hjoin.uses_executeTask (attempts task)
  have halone := results_alone hdealt.distinct hinputs huses hrun hdone
  rw [halone, List.forall_mem_map] at hcompleted
  obtain ⟨rows, hrows⟩ := hdealt.exists_rows hpartitions hcompleted
  obtain ⟨whole, hwhole, hiff⟩ :=
    hdealt.output_perm_iff hpartitions hfresh hordered hback hrows hcompleted
  rw [halone, List.flatMap_map]
  exact ⟨rows left, rows right, whole, hrows left (by simp), hrows right (by simp), hwhole, hiff⟩

end

/-! ### Two tasks -/

def leftSource : Source := ⟨"left", "left.csv", "csv"⟩

def rightSource : Source := ⟨"right", "right.csv", "csv"⟩

def pairDag : DagSpecification where
  nodes := [leftSource.node, rightSource.node, ⟨"pair", .join "k" .inner⟩]
  edges := [⟨"left", "pair"⟩, ⟨"right", "pair"⟩]
  partitions := 2

def pairTasks : List (Task Path) :=
  pairDag.materializeTasks (fun jobId name => name :: jobId) .insertion ["job"]

def sideFile (first second : String) : Bytes :=
  ("k,v\n" ++ first ++ ",x\n" ++ second ++ ",y\n").toUTF8.data.toList

/-- The left rows have the keys `a` and `b`, the right ones those given. -/
def pairFiles (first second : String) : Files :=
  AList.insert ["left.csv"] (sideFile "a" "b")
    (AList.insert ["right.csv"] (sideFile first second) ∅)

def bothSides (key value value' : String) : Record Int :=
  JoinOp.combined (keyedRecord key value) (keyedRecord key value')

def pairing : Executor Int Path :=
  .plain [keyedRecord "a" "x", keyedRecord "b" "y", bothSides "a" "x" "x", bothSides "b" "y" "y"]

/-- The two tasks take turns on the files. -/
def pairRun (files : Files) : Option (Threads FileOp (Option Bytes) Files (Execution Int Path)) :=
  Lib.run Threads.step (pairing.threads (fun _ _ => .plain) pairTasks files) [0, 1, 0, 1, 0, 1]

theorem pairDag_joins : pairDag.Joins leftSource rightSource "pair" ⟨"k", .inner⟩ where
  nodes := .refl _
  edges := rfl
  ids := by decide

theorem pairing_orderedMaps : pairing.host.OrderedMaps := by
  intro text obj hparse
  have hall : ∀ v ∈ [keyedRecord "a" "x", keyedRecord "b" "y", bothSides "a" "x" "x",
      bothSides "b" "y" "y"], Fields.Sorted (JoinOp.fieldsOf v) := by
    unfold Fields.Sorted
    decide +kernel
  exact hall _ (Host.mem_of_fromStr hparse)

theorem pairFiles_rows {lefts rights : List (Nat × Record Int)}
    (hlefts : pairing.HasRows (pairFiles "a" "b") leftSource lefts)
    (hrights : pairing.HasRows (pairFiles "a" "b") rightSource rights) :
    lefts = [(0, keyedRecord "a" "x"), (1, keyedRecord "b" "y")] ∧
      rights = [(0, keyedRecord "a" "x"), (1, keyedRecord "b" "y")] := by
  have hnumbered : ReadOp.numberedRecords pairing.host "csv" (sideFile "a" "b") =
      .ok [(0, keyedRecord "a" "x"), (1, keyedRecord "b" "y")] := by decide +kernel
  have hsame : ∀ source ∈ [leftSource, rightSource],
      (pairFiles "a" "b").lookup (pairing.host.resolve source.uri) = some (sideFile "a" "b") ∧
        source.format = "csv" := by
    decide +kernel
  have hunique : ∀ source ∈ [leftSource, rightSource], ∀ rows,
      pairing.HasRows (pairFiles "a" "b") source rows →
      rows = [(0, keyedRecord "a" "x"), (1, keyedRecord "b" "y")] := by
    intro source hsource rows hrows
    obtain ⟨content, hcontent, hrows⟩ := hrows
    obtain ⟨hlookup, hformat⟩ := hsame source hsource
    rw [hformat, ← Option.some.inj (hlookup.symm.trans hcontent), hnumbered] at hrows
    exact (Except.ok.inj hrows).symm
  exact ⟨hunique _ (by simp) _ hlefts, hunique _ (by simp) _ hrights⟩

theorem pairing_roundTrips :
    pairing.JoinRoundTrips leftSource rightSource ⟨"k", .inner⟩ 2 (pairFiles "a" "b") := by
  intro lefts rights hlefts hrights
  obtain ⟨rfl, rfl⟩ := pairFiles_rows hlefts hrights
  refine ⟨by decide +kernel, fun p hp out hout => ?_⟩
  have hall : ∀ p < 2, ∀ v ∈ (JoinOp.joinRecords pairing.host ⟨"k", .inner⟩
      (slice 2 p [(0, keyedRecord "a" "x"), (1, keyedRecord "b" "y")])
      (slice 2 p [(0, keyedRecord "a" "x"), (1, keyedRecord "b" "y")])).toOption.getD [],
      pairing.host.ReadsBack v := by decide +kernel
  have hp := hall p hp
  rw [hout] at hp
  exact hp

/-- Each task gets the two rows of one key. -/
theorem joined_global_iff_sameOrder :
    ∃ t executions, pairRun (pairFiles "a" "b") = some t ∧ t.results = some executions ∧
      (executions.flatMap fun e => e.output.flatMap Prod.snd).Perm
        [bothSides "a" "x" "x", bothSides "b" "y" "y"] := by
  have hsome : (pairRun (pairFiles "a" "b")).isSome = true := by decide +kernel
  have hdone : ((pairRun (pairFiles "a" "b")).get hsome).results.isSome = true := by
    decide +kernel +revert
  have hall : ∀ e ∈ ((pairRun (pairFiles "a" "b")).get hsome).results.get hdone,
      e.result.status = .completed := by decide +kernel +revert
  refine ⟨_, _, (Option.some_get hsome).symm, (Option.some_get hdone).symm, ?_⟩
  obtain ⟨lefts, rights, whole, hlefts, hrights, hwhole, hiff⟩ := joined_global_iff pairDag_joins
    (by decide) (fun jobId name => name :: jobId) .insertion ["job"] (by decide +kernel)
    (by unfold InputsOutside; decide +kernel) pairing_orderedMaps pairing_roundTrips
    (fun _ _ => .plain) (Option.some_get hsome).symm (Option.some_get hdone).symm hall
  obtain ⟨rfl, rfl⟩ := pairFiles_rows hlefts hrights
  have hjoin : JoinOp.joinRecords pairing.host ⟨"k", .inner⟩
      [keyedRecord "a" "x", keyedRecord "b" "y"] [keyedRecord "a" "x", keyedRecord "b" "y"] =
        .ok [bothSides "a" "x" "x", bothSides "b" "y" "y"] := by rfl
  obtain rfl := Except.ok.inj (hjoin.symm.trans hwhole)
  exact hiff.mpr (by unfold PairColocated; decide +kernel)

/-- The right file has the rows in the other order: no task finds a pair. -/
theorem swapped_rows_unmatched :
    ∃ t executions whole, pairRun (pairFiles "b" "a") = some t ∧ t.results = some executions ∧
      (∀ e ∈ executions, e.result.status = .completed) ∧
      executions.map Execution.output = [[(0, [])], [(1, [])]] ∧
      pairing.HasRows (pairFiles "b" "a") leftSource
        [(0, keyedRecord "a" "x"), (1, keyedRecord "b" "y")] ∧
      pairing.HasRows (pairFiles "b" "a") rightSource
        [(0, keyedRecord "b" "x"), (1, keyedRecord "a" "y")] ∧
      JoinOp.joinRecords pairing.host ⟨"k", .inner⟩
          [keyedRecord "a" "x", keyedRecord "b" "y"] [keyedRecord "b" "x", keyedRecord "a" "y"] =
        .ok whole ∧
      ¬ (executions.flatMap fun e => e.output.flatMap Prod.snd).Perm whole := by
  have hsome : (pairRun (pairFiles "b" "a")).isSome = true := by decide +kernel
  have hdone : ((pairRun (pairFiles "b" "a")).get hsome).results.isSome = true := by
    decide +kernel +revert
  have hlength : ((((pairRun (pairFiles "b" "a")).get hsome).results.get hdone).flatMap
      fun e => e.output.flatMap Prod.snd).length ≠
        [bothSides "a" "x" "y", bothSides "b" "y" "x"].length := by
    decide +kernel +revert
  exact ⟨_, _, [bothSides "a" "x" "y", bothSides "b" "y" "x"], (Option.some_get hsome).symm,
    (Option.some_get hdone).symm, by decide +kernel +revert, by decide +kernel +revert,
    ⟨sideFile "a" "b", by decide +kernel, by decide +kernel⟩,
    ⟨sideFile "b" "a", by decide +kernel, by decide +kernel⟩, by rfl,
    fun hperm => hlength hperm.length_eq⟩

end Executor

end ProcessingEngine

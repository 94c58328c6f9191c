import ProcessingEngine.Common.Dag
import ProcessingEngine.Worker.JobRun
import ProcessingEngine.Worker.Numbering

/-!
# The result files of a job

The executor writes every final partition to the file of that partition's own
number, and reports the file of the task's partition.  When the final partitions
of a task are one partition with the number of the task, no two partitions of a
run are written to one file, and every reported file keeps the records
(`JobRun.outputs_kept`).  A shuffle at the end numbers its buckets from zero,
whichever task it is part of (`JobRun.shuffled_output_lost`).
-/

namespace ProcessingEngine

open Lib Lib.Exec Text

variable {F Uuid : Type}

/-! ### One execution -/

namespace Executor

/-- The final partitions of the task, if its pipeline can have any, are one
partition with the number of the task. -/
def Aligned (ex : Executor F Uuid) (task : Task Uuid) : Prop :=
  ∀ ids, (ex.pipeline task).finalIds = some ids → ids = [task.partition]

instance decidableAligned (ex : Executor F Uuid) (task : Task Uuid) :
    Decidable (ex.Aligned task) :=
  match h : (ex.pipeline task).finalIds with
  | none => isTrue fun ids hids => by rw [h] at hids; cases hids
  | some ids =>
      if hids : ids = [task.partition] then
        isTrue fun ids' hids' => by rw [h] at hids'; exact Option.some.inj hids' ▸ hids
      else isFalse fun hall => hids (hall ids h)

/-- The file that the result of a task names. -/
def resultPath (ex : Executor F Uuid) (task : Task Uuid) : Path :=
  ex.partitionPath task task.partition

/-- An execution that wrote the records of one partition to the result file of
its task, and no other result file. -/
structure WroteResult (ex : Executor F Uuid) (task : Task Uuid) (execution : Execution F Uuid)
    (after : Files) : Prop where
  status : execution.result.status = .completed
  stored : ∃ records, execution.output = [(task.partition, records)] ∧
    after.lookup (ex.resultPath task) = some (ex.host.jsonLines records) ∧
    execution.result.resultLocation =
      ⟨ex.resultPath task, (ex.host.jsonLines records).length⟩

/-- An execution that failed before it wrote anything. -/
structure WroteNothing (execution : Execution F Uuid) : Prop where
  status : ∃ message, execution.result.status = .failed message
  output : execution.output = []

/-- The result files other than that of the task are those of `before`. -/
def OthersUntouched (ex : Executor F Uuid) (task : Task Uuid) (before after : Files) : Prop :=
  ∀ path, PartFile path → path ≠ ex.resultPath task → after.lookup path = before.lookup path

theorem pipeline_spillPath (ex : Executor F Uuid) (task : Task Uuid) :
    ¬ PartFile (ex.pipeline task).spillPath := not_partFile_spillPath _ _ _ _ _

theorem pipeline_read {ex : Executor F Uuid} {task : Task Uuid} {readOp : ReadOp}
    (h : Operator.read readOp ∈ (ex.pipeline task).operators) : ¬ PartFile readOp.spillPath := by
  obtain ⟨opDef, -, hop⟩ := List.mem_map.mp h
  cases opDef with
  | read uri format =>
      cases hop
      exact not_partFile_spillPath _ _ _ _ _
  | _ => cases hop

/-- Writing one partition under the number of the task. -/
theorem writePartition_aligned (ex : Executor F Uuid) (task : Task Uuid) {before : Files}
    {partition : PartitionData F} (hid : partition.partitionId = task.partition)
    (hspill : ¬ PartFile partition.spillPath) :
    Triple (Untouched before) (ex.writePartition task partition)
      (fun written s => (∃ records, written =
          ((task.partition, records), (ex.host.jsonLines records).length) ∧
          s.lookup (ex.resultPath task) = some (ex.host.jsonLines records)) ∧
        ex.OthersUntouched task before s)
      (Untouched before) := by
  refine triple_bind (intoParts_numbered ex.host before hspill) fun (limit, path, records) => ?_
  intro s hs
  simp only [PartitionStore.writeRecords, bind_apply, Files.write_apply, pure_apply, hid]
  refine ⟨⟨records, rfl, AList.lookup_insert _⟩, fun other hpart hne => ?_⟩
  rw [show ex.partitionPath task task.partition = ex.resultPath task from rfl,
    AList.lookup_insert_ne hne, hs.2 other hpart]

variable [BEq F]

theorem executeSync_aligned {ex : Executor F Uuid} {task : Task Uuid} (h : ex.Aligned task)
    (attempt : Attempt) (before : Files) :
    (ex.WroteResult task (ex.executeSync attempt task before).1
        (ex.executeSync attempt task before).2 ∨
      WroteNothing (ex.executeSync attempt task before).1) ∧
    ex.OthersUntouched task before (ex.executeSync attempt task before).2 := by
  have hrun := Pipeline.run_numbered ex.host attempt before (ex.pipeline_spillPath task)
    (fun _ => pipeline_read) before fun _ _ => rfl
  cases hres : (ex.pipeline task).run ex.host attempt before with
  | mk result files =>
      rw [hres] at hrun
      cases result with
      | error e =>
          rw [executeSync_of_error hres]
          exact ⟨Or.inr ⟨⟨_, rfl⟩, rfl⟩, fun path hpart _ => hrun path hpart⟩
      | ok out =>
          obtain ⟨partitions, stages⟩ := out
          obtain ⟨⟨ids, hids, hnumbered⟩, hfiles⟩ := hrun
          have hone := hnumbered.ids
          rw [h ids hids, List.map_eq_singleton_iff] at hone
          obtain ⟨partition, rfl, hid⟩ := hone
          have hspill := hnumbered.spill partition List.mem_cons_self
          have hwrite := ex.writePartition_aligned task hid hspill files hfiles
          rw [executeSync_of_ok hres, forEach_singleton]
          cases hw : ex.writePartition task partition files with
          | mk result after =>
              rw [hw] at hwrite
              cases result with
              | error e => exact ⟨Or.inr ⟨⟨_, rfl⟩, rfl⟩, fun path hpart _ => hwrite path hpart⟩
              | ok written =>
                  obtain ⟨⟨records, rfl, hstored⟩, hothers⟩ := hwrite
                  refine ⟨Or.inl ⟨rfl, records, rfl, hstored, ?_⟩, hothers⟩
                  show ResultLocation.mk _ (finalBytes task _) = _
                  rw [finalBytes, List.foldl_cons, List.foldl_nil, if_pos rfl]
                  rfl

/-- The attempts of a task write at most its own result file. -/
theorem executeTask_aligned {ex : Executor F Uuid} {task : Task Uuid} (h : ex.Aligned task)
    (attempts : Nat → Attempt) (before : Files) :
    (ex.WroteResult task (ex.executeTask attempts task before).1
        (ex.executeTask attempts task before).2 ∨
      WroteNothing (ex.executeTask attempts task before).1) ∧
    ex.OthersUntouched task before (ex.executeTask attempts task before).2 := by
  have hretry := retry_rule ex task (R := ex.OthersUntouched task before)
    (Q := fun execution after => ex.WroteResult task execution after ∧
      ex.OthersUntouched task before after) ?_ attempts ex.config.taskRetryLimit fun _ _ _ => rfl
  · rcases hretry with ⟨-, hwrote, hothers⟩ | ⟨⟨message, hfailed, hout⟩, hothers⟩
    · exact ⟨Or.inl hwrote, hothers⟩
    · exact ⟨Or.inr ⟨⟨message, hfailed⟩, hout⟩, hothers⟩
  · intro attempt files hfiles
    have hsync := executeSync_aligned h attempt files
    have hothers : ex.OthersUntouched task before (ex.executeSync attempt task files).2 := by
      intro path hpart hne
      rw [hsync.2 path hpart hne, hfiles path hpart hne]
    rcases hsync.1 with hwrote | ⟨⟨message, hfailed⟩, hout⟩
    · exact Or.inl ⟨hwrote.status, hwrote, hothers⟩
    · exact Or.inr ⟨⟨message, hfailed, hout⟩, hothers⟩

end Executor

/-! ### Runs of a job -/

namespace JobRun

/-- The file that the result names exists, its lines decode to the records that
were written, and its length is the reported one. -/
def Kept (ex : Executor F Uuid) (files : Files) (execution : Execution F Uuid) : Prop :=
  ∃ content, files.lookup execution.result.resultLocation.path = some content ∧
    ex.host.parseLines (lines content) = .ok (execution.output.flatMap Prod.snd) ∧
    content.length = execution.result.resultLocation.sizeBytes

/-- The files to which the final partitions of an execution were written. -/
def writtenBy (ex : Executor F Uuid) (e : Task Uuid × Execution F Uuid) : List Path :=
  e.2.output.map fun o => ex.partitionPath e.1 o.1

def written (ex : Executor F Uuid) (run : JobRun F Uuid) : List Path :=
  run.done.flatMap (writtenBy ex)

/-- No output is lost or overwritten. -/
structure OutputsKept (ex : Executor F Uuid) (run : JobRun F Uuid) : Prop where
  kept : ∀ e ∈ run.done, e.2.result.status = .completed → Kept ex run.files e.2
  distinct : (run.written ex).Nodup

/-- The invariant: every task wrote nothing, or its result is still in its file. -/
structure Intact (ex : Executor F Uuid) (tasks : List (Task Uuid)) (run : JobRun F Uuid) :
    Prop extends Proper tasks run where
  results : ∀ e ∈ run.done, ex.WroteResult e.1 e.2 run.files ∨ Executor.WroteNothing e.2

/-- The name of a result file determines the partition. -/
theorem eq_of_resultPath_eq {ex : Executor F Uuid} {task task' : Task Uuid}
    (h : ex.resultPath task = ex.resultPath task') : task.partition = task'.partition := by
  have hlast := congrArg List.getLast? h
  simp only [Executor.resultPath, Executor.partitionPath, PartitionStore.partitionPath,
    List.getLast?_concat, Option.some.injEq] at hlast
  exact DagSpecification.eq_of_numbered_eq hlast

section

variable [BEq F] [DecidableEq Uuid] {ex : Executor F Uuid} {tasks : List (Task Uuid)}

/-- Executing an aligned task leaves the other results in their files. -/
theorem Intact.step (hdistinct : ∀ t ∈ tasks, ∀ t' ∈ tasks, t.partition = t'.partition → t = t')
    {run run' : JobRun F Uuid} {label : Task Uuid × (Nat → Attempt)} (h : Intact ex tasks run)
    (haligned : ex.Aligned label.1) (hstep : run.step ex tasks label = some run') :
    Intact ex tasks run' := by
  have hproper := h.toProper.step hstep
  obtain ⟨hmem, hnew, rfl⟩ := step_cases hstep
  obtain ⟨task, attempts⟩ := label
  have htask := Executor.executeTask_aligned haligned attempts run.files
  refine ⟨hproper, ?_⟩
  rw [List.forall_mem_cons]
  refine ⟨htask.1, fun e he => ?_⟩
  rcases h.results e he with hwrote | hnothing
  · obtain ⟨hstatus, records, hout, hstored, hloc⟩ := hwrote
    refine Or.inl ⟨hstatus, records, hout, ?_, hloc⟩
    have hne : ex.resultPath e.1 ≠ ex.resultPath task := by
      intro hpath
      have hsame := hdistinct e.1 (h.tasks e he) task hmem (eq_of_resultPath_eq hpath)
      exact hnew (List.mem_map.mpr ⟨e, he, hsame⟩)
    rw [← hstored]
    exact htask.2 _ (partFile_partitionPath _ _ _ _ _) hne
  · exact Or.inr hnothing

omit [BEq F] [DecidableEq Uuid] in
theorem Intact.outputsKept
    (hdistinct : ∀ t ∈ tasks, ∀ t' ∈ tasks, t.partition = t'.partition → t = t')
    {run : JobRun F Uuid} (h : Intact ex tasks run)
    (hback : ∀ e ∈ run.done, ∀ o ∈ e.2.output, ∀ v ∈ o.2, ex.host.ReadsBack v) :
    OutputsKept ex run where
  kept := by
    intro e he hcompleted
    rcases h.results e he with ⟨-, records, hout, hstored, hloc⟩ | ⟨⟨message, hfailed⟩, -⟩
    · refine ⟨ex.host.jsonLines records, ?_, ?_, ?_⟩
      · rw [hloc]
        exact hstored
      · have hrecords : ∀ v ∈ records, ex.host.ReadsBack v := by
          intro v hv
          refine hback e he (e.1.partition, records) ?_ v hv
          rw [hout]
          exact List.mem_cons_self
        rw [hout, List.flatMap_singleton, Host.parseLines_jsonLines hrecords]
      · rw [hloc]
    · rw [hcompleted] at hfailed
      cases hfailed
  distinct := by
    have houtput : ∀ e ∈ run.done, writtenBy ex e = [] ∨ writtenBy ex e = [ex.resultPath e.1] := by
      intro e he
      unfold writtenBy
      rcases h.results e he with ⟨-, records, hout, -⟩ | ⟨-, hout⟩
      · exact Or.inr (by rw [hout]; rfl)
      · exact Or.inl (by rw [hout]; rfl)
    refine List.nodup_flatMap.mpr ⟨fun e he => ?_, ?_⟩
    · rcases houtput e he with hnil | hone
      · rw [hnil]
        exact List.nodup_nil
      · rw [hone]
        exact List.nodup_singleton _
    · have hpairs : run.done.Pairwise fun e e' => e.1 ≠ e'.1 := List.pairwise_map.mp h.nodup
      refine hpairs.imp_of_mem fun {e e'} he he' hne => ?_
      intro path hpath hpath'
      rcases houtput e he with hnil | hone
      · rw [hnil] at hpath
        cases hpath
      · rcases houtput e' he' with hnil' | hone'
        · rw [hnil'] at hpath'
          cases hpath'
        · rw [hone, List.mem_singleton] at hpath
          rw [hone', List.mem_singleton] at hpath'
          exact hne (hdistinct e.1 (h.tasks e he) e'.1 (h.tasks e' he')
            (eq_of_resultPath_eq (hpath.symm.trans hpath')))

/-- In every run of aligned tasks, on any files and with any attempts, each
reported file holds what was written, and no file was written twice. -/
theorem outputs_kept (newV5 : Uuid → String → Uuid) (order : HashOrder String)
    (dag : DagSpecification) (jobId : Uuid) (files : Files)
    (labels : List (Task Uuid × (Nat → Attempt))) (run : JobRun F Uuid)
    (hrun : Lib.run (step ex (dag.materializeTasks newV5 order jobId)) ⟨files, []⟩ labels =
      some run)
    (haligned : ∀ label ∈ labels, ex.Aligned label.1)
    (hback : ∀ e ∈ run.done, ∀ o ∈ e.2.output, ∀ v ∈ o.2, ex.host.ReadsBack v) :
    OutputsKept ex run := by
  have hdistinct : ∀ t ∈ dag.materializeTasks newV5 order jobId,
      ∀ t' ∈ dag.materializeTasks newV5 order jobId, t.partition = t'.partition → t = t' :=
    fun t ht t' ht' => DagSpecification.eq_of_partition_eq newV5 ht ht'
  have hinit : Intact ex (dag.materializeTasks newV5 order jobId)
      (⟨files, []⟩ : JobRun F Uuid) := ⟨⟨by simp, List.nodup_nil⟩, by simp⟩
  refine Intact.outputsKept hdistinct ?_ hback
  exact run_invariant (G := fun _ label => ex.Aligned label.1)
    (fun s label s' hs hlabel hstep => hs.step hdistinct hlabel hstep) hinit
    (along_of_forall haligned) hrun

end

/-! ### Two jobs on a file of two rows -/

/-- A row of the file `in.csv`. -/
def csvRow (v : String) : Record Int := .object [("k", .string "a"), ("v", .string v)]

def csvFiles : Files := AList.insert ["in.csv"] "k,v\na,x\na,y\n".toUTF8.data.toList ∅

/-- Run the tasks of a job on the file in their order. -/
def csvRun (dag : DagSpecification) : Option (JobRun Int Path) :=
  let tasks := dag.materializeTasks (fun jobId name => name :: jobId) .insertion ["job"]
  Lib.run (step (.plain [csvRow "x", csvRow "y"]) tasks) ⟨csvFiles, []⟩
    (tasks.map fun task => (task, fun _ => .plain))

def readDag : DagSpecification := ⟨[⟨"read", .read "in.csv" "csv"⟩], [], 2⟩

/-- Two tasks that read a slice each keep their outputs. -/
theorem outputs_kept_readDag :
    ∃ run, csvRun readDag = some run ∧ OutputsKept (.plain [csvRow "x", csvRow "y"]) run ∧
      run.done.map (fun e => e.2.output) = [[(1, [csvRow "y"])], [(0, [csvRow "x"])]] := by
  have hsome : (csvRun readDag).isSome = true := by decide +kernel
  refine ⟨(csvRun readDag).get hsome, (Option.some_get hsome).symm, ?_, by decide +kernel +revert⟩
  refine outputs_kept (fun jobId name => name :: jobId) .insertion readDag ["job"] csvFiles _ _
    (Option.some_get hsome).symm ?_ ?_
  · decide +kernel
  · decide +kernel +revert

def shuffleDag : DagSpecification where
  nodes := [⟨"read", .read "in.csv" "csv"⟩, ⟨"shuffle", .shuffleByKey "k" 2⟩]
  edges := [⟨"read", "shuffle"⟩]
  partitions := 2

/-- Both tasks write their buckets to the files 0 and 1, and the row of the
first task is gone. -/
theorem shuffled_output_lost :
    ∃ run, csvRun shuffleDag = some run ∧
      (∀ e ∈ run.done, e.2.result.status = .completed) ∧
      ¬ OutputsKept (.plain [csvRow "x", csvRow "y"]) run ∧
      run.done.map (fun e => e.2.output) =
        [[(0, [csvRow "y"]), (1, [])], [(0, [csvRow "x"]), (1, [])]] := by
  have hsome : (csvRun shuffleDag).isSome = true := by decide +kernel
  refine ⟨(csvRun shuffleDag).get hsome, (Option.some_get hsome).symm, by decide +kernel +revert, ?_,
    by decide +kernel +revert⟩
  have htwice : ¬ (written (.plain [csvRow "x", csvRow "y"])
      ((csvRun shuffleDag).get hsome)).Nodup := by decide +kernel +revert
  exact fun hkept => htwice hkept.distinct

end JobRun
end ProcessingEngine

import ProcessingEngine.Worker.Executor

/-!
# Tasks with one operator

A task without operators has its one operator run.  It is given no name, while
the output is looked up under the last name there is, or under `final`: such a
task fails with a missing output, and does what the pipeline of the one operator
does only where the operator itself fails (`runsAsPipeline_iff`).
-/

namespace ProcessingEngine

open Lib Lib.Exec Text

namespace Executor

variable {F Uuid : Type}

/-- A task that has nothing but its operator. -/
structure Bare (task : Task Uuid) : Prop where
  operators : task.operators = []
  operatorIds : task.operatorIds = []
  incomingEdges : task.incomingEdges = []

/-- The task as a pipeline of its operator under a name. -/
def asPipeline (task : Task Uuid) (id : String) : Task Uuid :=
  { task with operators := [task.operator], operatorIds := [id] }

/-- The operator of the task. -/
def soleOperator (ex : Executor F Uuid) (task : Task Uuid) : Operator :=
  Operator.fromType task.operator task.partition (max task.totalPartitions 1)
    ex.config.partitionCacheLimitBytes (ex.spillPath task)

/-- The empty input partition of the task. -/
def emptyInput (ex : Executor F Uuid) (task : Task Uuid) : PartitionData F :=
  .empty task.partition ex.config.partitionCacheLimitBytes (ex.spillPath task)

/-- What the operator makes of the empty partition. -/
def soleRun [BEq F] (ex : Executor F Uuid) (attempt : Attempt) (task : Task Uuid)
    (files : Files) : Except Fail (List (PartitionData F)) × Files :=
  (ex.soleOperator task).execute ex.host (attempt.order 0) [ex.emptyInput task] files

section

variable {task : Task Uuid}

theorem operatorDefs_asPipeline (h : Bare task) (id : String) :
    operatorDefs (asPipeline task id) = operatorDefs task := by
  rw [operatorDefs, operatorDefs, h.operators]
  rfl

theorem pipeline_bare (ex : Executor F Uuid) (h : Bare task) :
    ex.pipeline task =
      { operators := [ex.soleOperator task]
        operatorIds := []
        incomingEdges := []
        partitionId := task.partition
        cacheLimit := ex.config.partitionCacheLimitBytes
        spillPath := ex.spillPath task } := by
  simp only [pipeline, operatorDefs, h.operators, h.operatorIds, h.incomingEdges]
  rfl

theorem spillPath_asPipeline (ex : Executor F Uuid) (h : Bare task) (id : String) :
    ex.spillPath (asPipeline task id) = ex.spillPath task := by
  rw [spillPath, spillPath, finalStageId, finalStageId, operatorDefs_asPipeline h]
  rfl

theorem pipeline_asPipeline (ex : Executor F Uuid) (h : Bare task) (id : String) :
    ex.pipeline (asPipeline task id) =
      { operators := [ex.soleOperator task]
        operatorIds := [id]
        incomingEdges := [[]]
        partitionId := task.partition
        cacheLimit := ex.config.partitionCacheLimitBytes
        spillPath := ex.spillPath task } := by
  have hedges : (asPipeline task id).incomingEdges = [] := h.incomingEdges
  have hspill := spillPath_asPipeline ex h id
  simp only [pipeline, hspill, hedges, operatorDefs_asPipeline h id]
  simp only [operatorDefs, h.operators]
  rfl

end

end Executor

/-! ### A pipeline of one operator -/

namespace Pipeline

variable {F : Type} [BEq F] {host : Host F} {attempt : Attempt} {p : Pipeline} {op : Operator}
  {files files' : Files}

/-- The operator is run on the empty partition, and its output stands under its name. -/
theorem runOperators_single (hops : p.operators = [op]) (hparents : p.parents 0 = []) :
    runOperators host attempt p 0 p.operators ∅ [] files =
      ((op.execute host (attempt.order 0)
          [.empty p.partitionId p.cacheLimit p.spillPath] files).1.map fun parts =>
        ((∅ : HashMap String (List (PartitionData F))).insert (p.operatorId 0) parts,
          [p.stageTrace 0 parts]),
        (op.execute host (attempt.order 0)
          [.empty p.partitionId p.cacheLimit p.spillPath] files).2) := by
  rw [hops, runOperators, hparents]
  show (op.execute host (attempt.order 0)
    [.empty p.partitionId p.cacheLimit p.spillPath] >>= _) files = _
  rw [Exec.bind_apply]
  cases op.execute host (attempt.order 0)
      [.empty p.partitionId p.cacheLimit p.spillPath] files with
  | mk result rest => cases result <;> rfl

theorem run_single_of_error {e : Fail} (hops : p.operators = [op]) (hparents : p.parents 0 = [])
    (h : op.execute host (attempt.order 0) [.empty p.partitionId p.cacheLimit p.spillPath] files =
      (.error e, files')) : p.run host attempt files = (.error e, files') := by
  rw [run, Exec.bind_apply, runOperators_single hops hparents, h]
  rfl

/-- The output is the result if the final name is that of the operator, and missing
otherwise. -/
theorem run_single_of_ok {parts : List (PartitionData F)} (hops : p.operators = [op])
    (hparents : p.parents 0 = [])
    (h : op.execute host (attempt.order 0) [.empty p.partitionId p.cacheLimit p.spillPath] files =
      (.ok parts, files')) :
    (p.finalKey = p.operatorId 0 →
        p.run host attempt files = (.ok (parts, [p.stageTrace 0 parts]), files')) ∧
      (p.finalKey ≠ p.operatorId 0 →
        p.run host attempt files = (.error (.error "missing final operator output"), files')) := by
  rw [run, Exec.bind_apply, runOperators_single hops hparents, h]
  simp only [Except.map]
  constructor
  · intro hkey
    rw [hkey, AList.lookup_insert]
    rfl
  · intro hkey
    rw [AList.lookup_insert_ne hkey, AList.lookup_empty]
    rfl

end Pipeline

namespace Executor

variable {F Uuid : Type} [BEq F]

/-- A bare task does what the pipeline of its operator does. -/
structure RunsAsPipeline (ex : Executor F Uuid) (attempt : Attempt) (task : Task Uuid)
    (id : String) (files : Files) : Prop where
  status : (ex.executeSync attempt task files).1.result.status =
    (ex.executeSync attempt (asPipeline task id) files).1.result.status
  output : (ex.executeSync attempt task files).1.output =
    (ex.executeSync attempt (asPipeline task id) files).1.output
  stageId : (ex.executeSync attempt task files).1.result.stageId =
    (ex.executeSync attempt (asPipeline task id) files).1.result.stageId

section

variable {ex : Executor F Uuid} {attempt : Attempt} {task : Task Uuid} {id : String}
  {files files' : Files}

theorem run_bare_of_error {e : Fail} (h : Bare task)
    (hrun : ex.soleRun attempt task files = (.error e, files')) :
    (ex.pipeline task).run ex.host attempt files = (.error e, files') := by
  rw [pipeline_bare ex h]
  exact Pipeline.run_single_of_error rfl rfl hrun

theorem run_asPipeline_of_error {e : Fail} (h : Bare task) (id : String)
    (hrun : ex.soleRun attempt task files = (.error e, files')) :
    (ex.pipeline (asPipeline task id)).run ex.host attempt files = (.error e, files') := by
  rw [pipeline_asPipeline ex h id]
  exact Pipeline.run_single_of_error rfl rfl hrun

/-- There is no name, so that the output is looked up under `final`. -/
theorem run_bare_of_ok {parts : List (PartitionData F)} (h : Bare task)
    (hrun : ex.soleRun attempt task files = (.ok parts, files')) :
    (ex.pipeline task).run ex.host attempt files =
      (.error (.error "missing final operator output"), files') := by
  rw [pipeline_bare ex h]
  have hkey : "final" ≠ "op-" ++ toString 0 := by decide
  exact (Pipeline.run_single_of_ok (p := ⟨[ex.soleOperator task], [], [], _, _, _⟩)
    rfl rfl hrun).2 hkey

theorem run_asPipeline_of_ok {parts : List (PartitionData F)} (h : Bare task) (id : String)
    (hrun : ex.soleRun attempt task files = (.ok parts, files')) :
    ∃ stages, (ex.pipeline (asPipeline task id)).run ex.host attempt files =
      (.ok (parts, stages), files') := by
  rw [pipeline_asPipeline ex h id]
  exact ⟨_, (Pipeline.run_single_of_ok (p := ⟨[ex.soleOperator task], [id], [[]], _, _, _⟩)
    rfl rfl hrun).1 rfl⟩

omit [BEq F] in
theorem operatorName_asPipeline (ex : Executor F Uuid) (h : Bare task) (id : String) :
    ex.operatorName (asPipeline task id) = ex.operatorName task := by
  rw [operatorName, operatorName, pipeline_bare ex h, pipeline_asPipeline ex h id]

/-- The two ways to fail late are told apart by their messages. -/
theorem writeError_ne (name message : String) (e : Fail) :
    writeError name e ≠ pipelineError name (.error message) := by
  intro heq
  have hlist := congrArg String.toList heq
  cases e with
  | error e =>
      simp only [writeError, pipelineError, String.toList_append, List.append_assoc] at hlist
      have htail := List.append_cancel_left (List.append_cancel_left hlist)
      simp at htail
  | panic =>
      simp only [writeError, pipelineError, String.toList_append] at hlist
      simp at hlist

/-- Where the operator fails the two tasks fail alike. -/
theorem runsAsPipeline_of_error {e : Fail} (h : Bare task)
    (hrun : ex.soleRun attempt task files = (.error e, files')) :
    RunsAsPipeline ex attempt task id files := by
  have hbare := executeSync_of_error (run_bare_of_error h hrun)
  have hpipe := executeSync_of_error (run_asPipeline_of_error h id hrun)
  refine ⟨?_, ?_, ?_⟩
  · rw [hbare, hpipe]
    show TaskStatus.failed _ = TaskStatus.failed _
    rw [operatorName_asPipeline ex h id]
  · rw [hbare, hpipe]
    rfl
  · rw [hbare, hpipe]
    show finalStageId task = finalStageId (asPipeline task id)
    rw [finalStageId, finalStageId, operatorDefs_asPipeline h]

/-- Where the operator succeeds the bare task misses its output. -/
theorem status_bare_of_ok {parts : List (PartitionData F)} (h : Bare task)
    (hrun : ex.soleRun attempt task files = (.ok parts, files')) :
    (ex.executeSync attempt task files).1.result.status =
      .failed (ex.operatorName task ++ ": " ++
        pipelineError (ex.operatorName task) (.error "missing final operator output")) := by
  rw [executeSync_of_error (run_bare_of_ok h hrun)]
  rfl

/-- The pipeline completes, or fails in writing. -/
theorem status_asPipeline_of_ok {parts : List (PartitionData F)} (h : Bare task) (id : String)
    (hrun : ex.soleRun attempt task files = (.ok parts, files')) :
    (ex.executeSync attempt (asPipeline task id) files).1.result.status = .completed ∨
      ∃ e, (ex.executeSync attempt (asPipeline task id) files).1.result.status =
        .failed (ex.operatorName task ++ ": " ++ writeError (ex.operatorName task) e) := by
  obtain ⟨stages, hpipe⟩ := run_asPipeline_of_ok h id hrun
  rw [executeSync_of_ok hpipe, ← operatorName_asPipeline ex h id]
  cases Exec.forEach (ex.writePartition (asPipeline task id)) parts files' with
  | mk result rest =>
      cases result with
      | ok written => exact .inl rfl
      | error e => exact .inr ⟨e, rfl⟩

/-- A task with only its operator runs like the pipeline of that operator exactly when the
operator fails on the empty partition; where it succeeds, the task fails. -/
theorem runsAsPipeline_iff (ex : Executor F Uuid) (attempt : Attempt) (h : Bare task)
    (id : String) (files : Files) :
    (RunsAsPipeline ex attempt task id files ↔
        ∃ e, (ex.soleRun attempt task files).1 = .error e) ∧
      ((∃ parts, (ex.soleRun attempt task files).1 = .ok parts) →
        (ex.executeSync attempt task files).1.result.status ≠ .completed) := by
  cases hrun : ex.soleRun attempt task files with
  | mk result files' =>
      cases result with
      | error e =>
          refine ⟨iff_of_true (runsAsPipeline_of_error h hrun) ⟨e, rfl⟩, fun hok => ?_⟩
          obtain ⟨parts, hparts⟩ := hok
          cases hparts
      | ok parts =>
          have hbare := status_bare_of_ok h hrun
          refine ⟨iff_of_false (fun hsame => ?_) (by simp), fun _ => ?_⟩
          · have hstatus := hsame.status
            rw [hbare] at hstatus
            rcases status_asPipeline_of_ok h id hrun with hpipe | ⟨e, hpipe⟩
            · rw [hpipe] at hstatus
              cases hstatus
            · rw [hpipe] at hstatus
              have htext := (String.append_right_inj _).mp (TaskStatus.failed.inj hstatus)
              exact writeError_ne _ _ e htext.symm
          · rw [hbare]
            simp

end

/-- A task with an operator and nothing else. -/
def bareTask (operator : OperatorType) : Task Path where
  taskId := []
  jobId := ["job"]
  stageId := 0
  attempt := 0
  operator := operator
  partition := 0
  inputUri := ""
  inputFormat := ""
  totalPartitions := 1

theorem bare_bareTask (operator : OperatorType) : Bare (bareTask operator) := ⟨rfl, rfl, rfl⟩

theorem exists_error_of_map {ε α : Type} {r : Except ε α} {e : ε}
    (h : (r.map fun _ => ()) = .error e) : ∃ e, r = .error e := by
  cases r with
  | error e => exact ⟨e, rfl⟩
  | ok a => cases h

/-- A filter without a meaning fails with and without a name. -/
theorem runsAsPipeline_iff_unknown :
    RunsAsPipeline (.plain []) .plain (bareTask (.filter "odd")) "only" ∅ := by
  have hfails : (((Executor.plain []).soleRun .plain (bareTask (.filter "odd")) ∅).1.map
      fun _ => ()) = .error (.error "unknown predicate: odd") := by decide +kernel
  exact (runsAsPipeline_iff (.plain []) .plain (bare_bareTask (.filter "odd")) "only" ∅).1.mpr
    (exists_error_of_map hfails)

/-- The identity on nothing: a failure without a name, and a result with one. -/
theorem bare_identity_fails :
    ((Executor.plain []).executeSync .plain (bareTask .identity) ∅).1.result.status =
        .failed "map: operator map failed: missing final operator output" ∧
      ((Executor.plain []).executeSync .plain (asPipeline (bareTask .identity) "only")
        ∅).1.result.status = .completed ∧
      ¬ RunsAsPipeline (.plain []) .plain (bareTask .identity) "only" ∅ := by
  have hbare : ((Executor.plain []).executeSync .plain (bareTask .identity) ∅).1.result.status =
      .failed "map: operator map failed: missing final operator output" := by decide +kernel
  have hpipe : ((Executor.plain []).executeSync .plain (asPipeline (bareTask .identity) "only")
      ∅).1.result.status = .completed := by decide +kernel
  refine ⟨hbare, hpipe, fun hsame => ?_⟩
  have hstatus := hsame.status
  rw [hbare, hpipe] at hstatus
  cases hstatus

end Executor
end ProcessingEngine

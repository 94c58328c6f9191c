import ProcessingEngine.Common.Injected
import ProcessingEngine.Master.Accounting
import ProcessingEngine.Worker.Executor

/-!
# The stage metrics of a job

The entries come from `to_stages`, the stage ids of the results from the tasks.
An entry counts the results of its stage (`StageBooks`), so the last one is full
when all tasks have completed, provided that the tasks are of its stage
(`Session.stage_books_iff`).
-/

namespace ProcessingEngine

open Lib

variable {Uuid : Type} [DecidableEq Uuid]

namespace JobState

/-- The entries of the job are `entries`, as far as ids and totals go.  Each counts
the results of its stage, and these are all of the stage `stage`. -/
structure StageBooks (entries : List (Nat × Nat)) (stage : Nat) (job : JobState Uuid) : Prop where
  listed : (job.metrics.stages.map fun e => (e.stageId, e.tasksTotal)) = entries
  distinct : (entries.map Prod.fst).Nodup
  counted : ∀ e ∈ job.metrics.stages,
    e.tasksCompleted = job.results.countP fun r => r.stageId == e.stageId
  reported : ∀ r ∈ job.results, r.stageId = stage

variable {entries : List (Nat × Nat)} {stage : Nat} {job : JobState Uuid}

theorem StageBooks.record (h : job.StageBooks entries stage) {result : TaskResult Uuid}
    (hstage : result.stageId = stage) : (job.record result).StageBooks entries stage := by
  have hids : (job.metrics.stages.map fun e => e.stageId).Nodup := by
    have hdistinct := h.distinct
    rw [← h.listed, List.map_map] at hdistinct
    exact hdistinct
  have hstages := record_stages job result
  have hresults := record_results job result
  cases hdone : result.status.isCompleted with
  | false =>
      rw [hdone, if_neg Bool.false_ne_true] at hstages hresults
      refine ⟨?_, h.distinct, ?_, ?_⟩
      · rw [hstages]
        exact h.listed
      · rw [hstages, hresults]
        exact h.counted
      · rw [hresults]
        exact h.reported
  | true =>
      rw [hdone, if_pos rfl] at hstages hresults
      have hupdated : (job.metrics.completeStage result).stages = job.metrics.stages.map fun e =>
          if e.stageId = result.stageId then
            { e with
              tasksCompleted := e.tasksCompleted + 1
              durationMs := e.durationMs + result.metrics.durationMs }
          else e := updateFirst_eq_map hids _ _
      rw [hupdated] at hstages
      refine ⟨?_, h.distinct, ?_, ?_⟩
      · rw [hstages, List.map_map, ← h.listed]
        refine List.map_congr_left fun e _ => ?_
        show ((if e.stageId = result.stageId then _ else e).stageId,
          (if e.stageId = result.stageId then _ else e).tasksTotal) = _
        split_ifs <;> rfl
      · rw [hstages, hresults]
        intro e' he'
        obtain ⟨e, he, rfl⟩ := List.mem_map.mp he'
        have hcount := h.counted e he
        rw [List.countP_append, List.countP_singleton]
        by_cases hsame : e.stageId = result.stageId
        · rw [if_pos hsame]
          dsimp only
          rw [hcount, hsame, beq_self_eq_true, if_pos rfl]
        · have hne : (result.stageId == e.stageId) = false := by
            rw [beq_eq_false_iff_ne]
            exact fun heq => hsame heq.symm
          rw [if_neg hsame, hcount, hne]
          rfl
      · rw [hresults]
        intro r hr
        rcases List.mem_append.mp hr with hr | hr
        · exact h.reported r hr
        · rw [List.mem_singleton.mp hr]
          exact hstage

theorem stageBooks_submittedJob (dag : DagSpecification) (order : HashOrder String)
    (tasks : List (Task Uuid)) (stage : Nat) :
    (Master.submittedJob dag order tasks).StageBooks
      ((dag.toStages order).map fun s => (s.stageId, s.partitions)) stage where
  listed := List.map_map
  distinct := by
    rw [List.map_map]
    show ((dag.toStages order).map Stage.stageId).Nodup
    rw [dag.map_stageId]
    exact List.nodup_range
  counted e he := by
    obtain ⟨s, -, rfl⟩ := List.mem_map.mp he
    rfl
  reported r hr := by cases hr

end JobState

omit [DecidableEq Uuid] in
/-- The stage that the executor reports is the one of the task. -/
theorem Executor.finalStageId_eq {dag : DagSpecification} {newV5 : Uuid → String → Uuid}
    {order : HashOrder String} {jobId : Uuid} {task : Task Uuid}
    (htask : task ∈ dag.materializeTasks newV5 order jobId) :
    Executor.finalStageId task = task.stageId := by
  obtain ⟨hoperators, -, -, hne, -⟩ := DagSpecification.task_nodes htask
  have hempty : task.operators.isEmpty = false := by simpa using hne
  rw [Executor.finalStageId, Executor.operatorDefs, hempty, if_neg Bool.false_ne_true, hoperators,
    List.length_map, DagSpecification.injectLocalShuffle_eq,
    DagSpecification.finalStageId_eq htask]

namespace Session

/-- A result of the job carries the stage id that the executor reports. -/
def ReportsStage (jobId : Uuid) (tasks : List (Task Uuid)) : Op Uuid → Prop
  | .complete result =>
      result.jobId = jobId → ∀ task ∈ tasks, task.taskId = result.taskId →
        result.stageId = Executor.finalStageId task
  | _ => True

instance decidableReportsStage (jobId : Uuid) (tasks : List (Task Uuid)) :
    ∀ op, Decidable (ReportsStage jobId tasks op)
  | .complete result =>
      inferInstanceAs (Decidable (result.jobId = jobId → ∀ task ∈ tasks,
        task.taskId = result.taskId → result.stageId = Executor.finalStageId task))
  | .submit _ _ _ _ | .schedule _ | .select | .assign _ _ | .persistAssignment _ _
  | .markRunning _ | .register _ | .heartbeat _ _ | .collect _ => isTrue trivial

/-- Every result finds its entry, and when all tasks have completed the entry of
their stage is full. -/
structure StagesFull (tasks : List (Task Uuid)) (job : JobState Uuid) : Prop where
  found : ∀ r ∈ job.results, ∃ e ∈ job.metrics.stages, e.stageId = r.stageId
  full : (∀ task ∈ tasks, job.tasks.lookup task.taskId = some .completed) →
    ∃ e ∈ job.metrics.stages, (∀ task ∈ tasks, e.stageId = task.stageId) ∧
      e.tasksCompleted = e.tasksTotal

variable {env : MasterEnv Uuid} {s s' : Session Uuid} {jobId : Uuid} {job : JobState Uuid}
  {dag : DagSpecification} {order stagesOrder : HashOrder String}

theorem stageBooks_step {ids : List Uuid} {entries : List (Nat × Nat)} {stage : Nat}
    {op : Op Uuid} (hbooks : job.StageBooks entries stage) (hbooked : Booked jobId ids s job)
    (honce : ReportsOnce jobId ids s op) (haccepted : ReportsAccepted jobId s op)
    (hstage : ∀ result, op = .complete result → result.jobId = jobId → result.stageId = stage)
    (hstep : s.step env op = some s') :
    ∃ job', Booked jobId ids s' job' ∧ job'.StageBooks entries stage := by
  obtain ⟨job', hjob', hchange⟩ := step_job hstep hbooked.lookup
  obtain ⟨job'', hbooked'⟩ := hbooked.step honce haccepted hstep
  obtain rfl : job' = job'' := Option.some.inj (hjob'.symm.trans hbooked'.lookup)
  refine ⟨job', hbooked', ?_⟩
  rcases hchange with ⟨tasks, status, rfl⟩ | ⟨result, hop, hid, rfl⟩
  · exact ⟨hbooks.listed, hbooks.distinct, hbooks.counted, hbooks.reported⟩
  · exact hbooks.record (hstage result hop hid)

omit [DecidableEq Uuid] in
theorem length_materializeTasks {newV5 : Uuid → String → Uuid}
    (hne : dag.materializeTasks newV5 order jobId ≠ []) :
    (dag.materializeTasks newV5 order jobId).length = dag.partitions := by
  have hids := congrArg List.length (DagSpecification.materializeTasks_taskId newV5 order dag jobId)
  rw [List.length_map] at hids
  rw [hids]
  split_ifs with hsource
  · rw [List.length_map, List.length_range]
  · rw [if_neg hsource] at hids
    exact absurd (List.length_eq_zero_iff.mp hids) hne

/-- The books at the end of a run. -/
theorem stagesFull_of_books (hne : dag.materializeTasks env.newV5 order jobId ≠ [])
    (hlast : ∀ task ∈ dag.materializeTasks env.newV5 order jobId,
      (dag.toStages stagesOrder).getLast?.map Stage.stageId = some task.stageId)
    (haccounting : job.Accounting ((dag.materializeTasks env.newV5 order jobId).map Task.taskId))
    {stage : Nat} (hstage : ∀ task ∈ dag.materializeTasks env.newV5 order jobId,
      task.stageId = stage)
    (hbooks : job.StageBooks ((dag.toStages stagesOrder).map fun s => (s.stageId, s.partitions))
      stage) : StagesFull (dag.materializeTasks env.newV5 order jobId) job := by
  obtain ⟨task, htask⟩ := List.exists_mem_of_ne_nil _ hne
  have hentry : ∃ e ∈ job.metrics.stages, e.stageId = stage ∧ e.tasksTotal = dag.partitions := by
    obtain ⟨last, hmem, hid⟩ := Option.map_eq_some_iff.mp (hlast task htask)
    have hmem := List.mem_of_getLast? hmem
    have hpartitions : last.partitions = dag.partitions := by
      obtain ⟨i, hi, heq⟩ := List.mem_mapIdx.mp hmem
      rw [← heq]
    have hlisted := List.mem_map_of_mem (f := fun s : Stage => (s.stageId, s.partitions)) hmem
    rw [← hbooks.listed] at hlisted
    obtain ⟨e, he, heq⟩ := List.mem_map.mp hlisted
    obtain ⟨hstageId, htotal⟩ := Prod.mk.inj heq
    exact ⟨e, he, hstageId.trans (hid.trans (hstage task htask)), htotal.trans hpartitions⟩
  obtain ⟨e, he, hid, htotal⟩ := hentry
  refine ⟨fun r hr => ⟨e, he, hid.trans (hbooks.reported r hr).symm⟩, fun hdone => ?_⟩
  refine ⟨e, he, fun task htask => hid.trans (hstage task htask).symm, ?_⟩
  have hall : job.results.countP (fun r => r.stageId == e.stageId) = job.results.length :=
    List.countP_eq_length.mpr fun r hr => by rw [hbooks.reported r hr, hid, beq_self_eq_true]
  have hperm : (job.results.map TaskResult.taskId).Perm
      ((dag.materializeTasks env.newV5 order jobId).map Task.taskId) := by
    have hnodup := haccounting.keys.nodup_iff.mp (AList.keys_nodup job.tasks)
    refine (List.perm_ext_iff_of_nodup haccounting.nodup hnodup).mpr fun id => ?_
    rw [haccounting.results]
    constructor
    · intro hcompleted
      exact haccounting.keys.mem_iff.mp (AList.mem_keys.mp (HashMap.mem_of_lookup hcompleted))
    · intro hid
      obtain ⟨task, htask, rfl⟩ := List.mem_map.mp hid
      exact hdone task htask
  rw [hbooks.counted e he, hall, htotal, ← length_materializeTasks hne]
  have hlength := hperm.length_eq
  rw [List.length_map, List.length_map] at hlength
  exact hlength

/-- What is reported of the job: each task once, with the stage id of the executor,
and its row is accepted. -/
def ReportsExecuted (jobId : Uuid) (tasks : List (Task Uuid)) (s : Session Uuid) (op : Op Uuid) :
    Prop :=
  ReportsOnce jobId (tasks.map Task.taskId) s op ∧ ReportsAccepted jobId s op ∧
    ReportsStage jobId tasks op

instance decidableReportsExecuted (jobId : Uuid) (tasks : List (Task Uuid)) (s : Session Uuid)
    (op : Op Uuid) : Decidable (ReportsExecuted jobId tasks s op) :=
  inferInstanceAs (Decidable (_ ∧ _ ∧ _))

/-- In every run in which the tasks are reported once, with the stage ids of the
executor, the stage metrics agree with the results, exactly when no shuffle is
injected. -/
theorem stage_books_iff {m : Master Uuid} (hinj : Function.Injective (env.newV5 jobId))
    {tasks : List (Task Uuid)}
    (hsubmit : (m.submitJob env order stagesOrder dag jobId).1 = .ok tasks) (hne : tasks ≠ []) :
    ((∀ task ∈ tasks, Executor.finalStageId task = task.stageId ∧
        (dag.toStages stagesOrder).getLast?.map Stage.stageId = some task.stageId) ∧
      ∀ ops s job,
        Along (step env) (ReportsExecuted jobId tasks)
          ⟨(m.submitJob env order stagesOrder dag jobId).2, []⟩ ops →
        run (step env) ⟨(m.submitJob env order stagesOrder dag jobId).2, []⟩ ops = some s →
        s.master.jobs.lookup jobId = some job → StagesFull tasks job) ↔
      DagSpecification.preshuffled none (dag.orderedNodes order) = true := by
  obtain ⟨rfl, hstart⟩ := booked_submitted hinj hsubmit hne
  have hiff := @DagSpecification.stageIds_agree_iff dag _ env.newV5 order jobId stagesOrder hne
  refine ⟨fun h => hiff.mp fun task htask => (h.1 task htask).2, fun h => ?_⟩
  have hlast := hiff.mpr h
  refine ⟨fun task htask => ⟨Executor.finalStageId_eq htask, hlast task htask⟩, ?_⟩
  intro ops s job halong hrun hjob
  let stage := (dag.injectAfter none (dag.orderedNodes order)).length - 1
  have hbooks := JobState.stageBooks_submittedJob dag stagesOrder
    (dag.materializeTasks env.newV5 order jobId) stage
  have hend := run_invariant (I := fun s : Session Uuid => ∃ job,
      Booked jobId ((dag.materializeTasks env.newV5 order jobId).map Task.taskId) s job ∧
        job.StageBooks ((dag.toStages stagesOrder).map fun s => (s.stageId, s.partitions)) stage)
    (fun s op s' hinv hG hstep => ?_) ⟨_, hstart, hbooks⟩ halong hrun
  · obtain ⟨job', hbooked, hbooks⟩ := hend
    obtain rfl : job' = job := Option.some.inj (hbooked.lookup.symm.trans hjob)
    exact stagesFull_of_books hne hlast hbooked.accounting
      (fun task htask => DagSpecification.finalStageId_eq htask) hbooks
  · obtain ⟨job, hbooked, hbooks⟩ := hinv
    obtain ⟨honce, haccepted, hstage⟩ := hG
    refine stageBooks_step hbooks hbooked honce haccepted (fun result hop hid => ?_) hstep
    subst hop
    obtain ⟨hmem, -⟩ := honce hid
    obtain ⟨task, htask, htaskId⟩ := List.mem_map.mp hmem
    rw [hstage hid task htask htaskId, Executor.finalStageId_eq htask,
      DagSpecification.finalStageId_eq htask]

/-- The master after a submission, and the reports of two completed tasks. -/
def submitted (m : Master Path) (dag : DagSpecification) : Session Path :=
  ⟨(m.submitJob System.pathEnv .insertion .insertion dag ["job"]).2, []⟩

def bothCompleted (stage : Nat) : List (Op Path) :=
  (List.range 2).map fun partition =>
    .complete { System.readResult ["job"]
      [DagSpecification.stableIdInput stage partition, "job"] .completed with stageId := stage }

theorem stage_books_iff_readDag :
    ∃ s job,
      run (step System.pathEnv) (submitted {} (System.readDag 2)) (bothCompleted 0) = some s ∧
      s.master.jobs.lookup ["job"] = some job ∧
      StagesFull ((System.readDag 2).materializeTasks System.pathEnv.newV5 .insertion ["job"])
        job := by
  have hsome : (run (step System.pathEnv) (submitted {} (System.readDag 2))
      (bothCompleted 0)).isSome := by decide
  obtain ⟨s, hrun⟩ := Option.isSome_iff_exists.mp hsome
  have hjob : (((run (step System.pathEnv) (submitted {} (System.readDag 2)) (bothCompleted 0)).get
      hsome).master.jobs.lookup ["job"]).isSome := by decide +revert
  obtain ⟨job, hjob⟩ := Option.isSome_iff_exists.mp hjob
  have hs : (run (step System.pathEnv) (submitted {} (System.readDag 2)) (bothCompleted 0)).get
      hsome = s := Option.get_of_eq_some _ hrun
  rw [hs] at hjob
  have hsubmit : (({} : Master Path).submitJob System.pathEnv .insertion .insertion
      (System.readDag 2) ["job"]).1 =
        .ok ((System.readDag 2).materializeTasks System.pathEnv.newV5 .insertion ["job"]) := rfl
  have hbooks := (stage_books_iff (System.pathEnv_newV5_injective ["job"]) hsubmit
    (by decide)).mpr (by decide)
  exact ⟨s, job, hrun, hjob, hbooks.2 (bothCompleted 0) s job (by decide) hrun hjob⟩

/-- The stages of a sum by key are 0 and 1, its tasks are of stage 2: no entry
counts their results. -/
theorem totals_uncounted :
    DagSpecification.totals.validate = .ok () ∧
      (DagSpecification.totals.materializeTasks System.pathEnv.newV5 .insertion ["job"]).map
        Task.stageId = [2, 2] ∧
      (DagSpecification.totals.toStages .insertion).map Stage.stageId = [0, 1] ∧
      ((run (step System.pathEnv) (submitted {} DagSpecification.totals) (bothCompleted 2)).bind
        fun s => s.master.jobs.lookup ["job"]).map (fun job =>
          (job.status, job.metrics.stages.map fun e => (e.stageId, e.tasksCompleted, e.tasksTotal)))
        = some (.succeeded, [(0, 0, 2), (1, 0, 2)]) := by
  decide

end Session
end ProcessingEngine

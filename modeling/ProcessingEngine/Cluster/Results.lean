import ProcessingEngine.Cluster.Output
import ProcessingEngine.Master.Refused
import ProcessingEngine.Master.Stages

/-!
# The results of a job

A client asks the master for the results of a job and gets the locations of its
output.  When every report fits and the tasks of the job were sent once each, these
are different files, and when the job has succeeded they are those of all its
tasks (`Cluster.run_outputs`).
-/

namespace ProcessingEngine

open Lib

variable {F Uuid : Type}

theorem DagSpecification.task_taskId {dag : DagSpecification} {newV5 : Uuid → String → Uuid}
    {order : HashOrder String} {jobId : Uuid} {task : Task Uuid}
    (h : task ∈ dag.materializeTasks newV5 order jobId) :
    task.taskId = newV5 jobId (stableIdInput task.stageId task.partition) := by
  unfold materializeTasks at h
  split at h
  · cases h
  · dsimp only at h
    split_ifs at h
    · cases h
    · obtain ⟨partition, -, rfl⟩ := List.mem_map.mp h
      rfl

/-- The file of a task is determined by its ids, whatever order the task was built in. -/
theorem Executor.resultPath_congr (ex : Executor F Uuid) {dag dag' : DagSpecification}
    {newV5 : Uuid → String → Uuid} {order order' : HashOrder String} {jobId : Uuid}
    {task task' : Task Uuid} (hids : Function.Injective (newV5 jobId))
    (h : task ∈ dag.materializeTasks newV5 order jobId)
    (h' : task' ∈ dag'.materializeTasks newV5 order' jobId) (heq : task.taskId = task'.taskId) :
    ex.resultPath task = ex.resultPath task' := by
  rw [DagSpecification.task_taskId h, DagSpecification.task_taskId h'] at heq
  obtain ⟨hstage, hpartition⟩ := DagSpecification.stableIdInput_inj (hids heq)
  rw [resultPath, resultPath, partitionPath, partitionPath, finalStageId_eq h, finalStageId_eq h',
    DagSpecification.materializeTasks_jobId newV5 h,
    DagSpecification.materializeTasks_jobId newV5 h', hstage, hpartition]

/-- A job starts without results, and a report adds at most its own. -/
theorem System.step_results [DecidableEq Uuid] {env : MasterEnv Uuid} {s s' : System Uuid}
    {e : Event Uuid} (hstep : s.step env e = some s') {id : Uuid} {job' : JobState Uuid}
    (hjob' : s'.job id = some job') :
    job'.results = [] ∨ ∃ job, s.job id = some job ∧ (job'.results = job.results ∨
      ∃ result, e = .complete result ∧ result.jobId = id ∧
        job'.results = job.results ++ [result]) := by
  have hmove := step_job hstep id
  rw [hjob'] at hmove
  generalize s.job id = old at hmove ⊢
  cases hmove with
  | unchanged => exact Or.inr ⟨job', rfl, Or.inl rfl⟩
  | submitted => exact Or.inl rfl
  | assigned hloop hid => exact Or.inr ⟨_, rfl, Or.inl rfl⟩
  | running hloop hid => exact Or.inr ⟨_, rfl, Or.inl rfl⟩
  | refused hid hok => exact Or.inr ⟨_, rfl, Or.inl rfl⟩
  | @recorded result job hid hok =>
      refine Or.inr ⟨job, rfl, ?_⟩
      rw [JobState.record_results]
      split_ifs
      · exact Or.inr ⟨result, rfl, hid, rfl⟩
      · exact Or.inl rfl

namespace Cluster

variable [DecidableEq Uuid]

/-- A report that arrives fits. -/
def ReportsFit (c : Cluster F Uuid) : ClusterEvent Uuid → Prop
  | .report w i => ∀ call ∈ c.call w i, ∀ execution ∈ call.phase.returned?,
      c.system.master.ReportFits execution.result
  | _ => True

instance decidableReportsFit (c : Cluster F Uuid) : ∀ e, Decidable (c.ReportsFit e)
  | .report w i => inferInstanceAs (Decidable (∀ call ∈ c.call w i,
      ∀ execution ∈ call.phase.returned?, c.system.master.ReportFits execution.result))
  | .master _ => inferInstanceAs (Decidable True)
  | .deliver _ _ _ => inferInstanceAs (Decidable True)
  | .work _ _ => inferInstanceAs (Decidable True)
  | .drop _ _ => inferInstanceAs (Decidable True)

/-- The result is one that has been reported, by a call of its own. -/
def Reported (c : Cluster F Uuid) (result : TaskResult Uuid) : Prop :=
  ∃ w i call execution, (w, i) ∈ c.reported ∧ c.call w i = some call ∧
    call.phase = .returned execution ∧ execution.result = result

/-- The tasks of the job are sent once each. -/
def Once (jobId : Uuid) (c : Cluster F Uuid) : Prop :=
  ∀ taskId, c.system.timesSent (jobId, taskId) ≤ 1

/-- The results of a job are reported ones, one for each task, and one for every
task when the job has succeeded. -/
structure Filed (jobId : Uuid) (c : Cluster F Uuid) : Prop where
  recorded : ∀ id, ∀ job ∈ c.system.job id, job.Recorded
  reported : ∀ job, c.system.job jobId = some job → ∀ result ∈ job.results, c.Reported result
  succeeded : ∀ job, c.system.job jobId = some job → job.status = .succeeded →
    ∀ taskId ∈ job.tasks, taskId ∈ job.results.map TaskResult.taskId
  nodup : c.Once jobId → ∀ job, c.system.job jobId = some job →
    (job.results.map TaskResult.taskId).Nodup

variable {jobId : Uuid} [BEq F] {env : MasterEnv Uuid} {ex : Executor F Uuid}
  {c c' : Cluster F Uuid}

theorem Once.before (h : c'.Once jobId) (hmoved : Moved env ex c c') : c.Once jobId := by
  intro taskId
  obtain ⟨more, hmore⟩ := hmoved.dispatched
  refine le_trans ?_ (h taskId)
  unfold System.timesSent System.sent
  rw [hmore, List.map_append, List.count_append]
  exact Nat.le_add_right _ _

theorem Reported.moved {result : TaskResult Uuid} (h : c.Reported result)
    (hmoved : Moved env ex c c') : c'.Reported result := by
  obtain ⟨w, i, call, execution, hmem, hcall, hphase, hresult⟩ := h
  refine ⟨w, i, call, execution, ?_, hmoved.returned hcall hphase, hphase, hresult⟩
  cases hmoved with
  | reported _ _ _ _ => exact List.mem_cons_of_mem _ hmem
  | served _ _ => exact hmem
  | delivered _ _ _ _ => exact hmem
  | worked _ _ => exact hmem
  | dropped _ _ => exact hmem

/-- The master stays as it is, or takes a step, and a result that it takes fits and
is reported for the first time. -/
theorem step_system {e : ClusterEvent Uuid} (h : c.step env ex e = some c')
    (hfits : c.ReportsFit e) :
    c'.system = c.system ∨ ∃ event, c.system.step env event = some c'.system ∧
      c.system.ReportsFit event ∧ ∀ result, event = .complete result →
        ∃ w i call execution, (w, i) ∉ c.reported ∧ (w, i) ∈ c'.reported ∧
          c.call w i = some call ∧ call.phase = .returned execution ∧
          execution.result = result := by
  cases e with
  | master event =>
      cases event with
      | complete result => cases h
      | _ =>
          rw [step_master (fun _ hresult => by cases hresult)] at h
          obtain ⟨system, hstep, rfl⟩ := Option.map_eq_some_iff.mp h
          exact Or.inr ⟨_, hstep, trivial, fun _ hresult => by cases hresult⟩
  | report w i =>
      simp only [step, Option.bind_eq_bind, Option.bind_eq_some_iff] at h
      obtain ⟨call, hcall, h⟩ := h
      split at h
      · next execution hphase =>
          split_ifs at h with hnew
          obtain ⟨system, hstep, h⟩ := Option.bind_eq_some_iff.mp h
          cases h
          refine Or.inr ⟨_, hstep, hfits call hcall execution (Call.returned?_eq_some.mpr hphase),
            fun result hresult => ?_⟩
          cases hresult
          exact ⟨w, i, call, execution, hnew, List.mem_cons_self, hcall, hphase, rfl⟩
      · cases h
  | deliver j w attempts =>
      simp only [step, Option.bind_eq_bind, Option.bind_eq_some_iff] at h
      obtain ⟨⟨task, info⟩, hsent, worker, hworker, h⟩ := h
      split_ifs at h
      cases h
      exact Or.inl rfl
  | work w i =>
      simp only [step, Option.bind_eq_bind, Option.bind_eq_some_iff, Option.pure_def] at h
      obtain ⟨worker, hworker, ⟨worker', files⟩, hadvance, h⟩ := h
      cases h
      exact Or.inl rfl
  | drop w i =>
      simp only [step, Option.bind_eq_bind, Option.bind_eq_some_iff, Option.pure_def] at h
      obtain ⟨worker, hworker, worker', hdrop, h⟩ := h
      cases h
      exact Or.inl rfl

omit [BEq F] in
/-- The call behind a result of the job is for the task with its id. -/
theorem Traced.key (h : Traced env ex c) {w i : Nat} {call : Call F Uuid}
    {execution : Execution F Uuid} (hcall : c.call w i = some call)
    (hphase : call.phase = .returned execution) : call.task.key = execution.result.key := by
  have hreports := h.reporting w i call hcall
  rw [Call.Reporting, hphase] at hreports
  exact Prod.ext hreports.jobId.symm hreports.taskId.symm

omit [BEq F] in
/-- A result that comes in has an id that is not among those of the results. -/
theorem Filed.new (h : c.Filed jobId) (htraced : Traced env ex c) (horigin : c.Originates)
    (honce : c.Once jobId) {w i : Nat} {call : Call F Uuid} {execution : Execution F Uuid}
    (hnew : (w, i) ∉ c.reported) (hcall : c.call w i = some call)
    (hphase : call.phase = .returned execution) (hjob : execution.result.jobId = jobId)
    {job : JobState Uuid} (hknown : c.system.job jobId = some job) :
    execution.result.taskId ∉ job.results.map TaskResult.taskId := by
  intro hmem
  obtain ⟨result, hresult, hid⟩ := List.mem_map.mp hmem
  obtain ⟨v, k, other, execution', hreported, hother, hphase', rfl⟩ :=
    h.reported job hknown result hresult
  obtain ⟨-, hjob', -⟩ := htraced.results jobId job hknown _ hresult
  have hkey : call.task.key = (jobId, execution.result.taskId) :=
    (htraced.key hcall hphase).trans (Prod.ext hjob rfl)
  have hkey' : other.task.key = (jobId, execution.result.taskId) :=
    (htraced.key hother hphase').trans (Prod.ext hjob' hid)
  obtain ⟨rfl, rfl⟩ := horigin.unique (honce _) hcall hother hkey hkey'
  exact hnew hreported

omit [BEq F] in
/-- A job that succeeds has a result for each of its tasks. -/
theorem Filed.succeeded_step (h : c.Filed jobId) (htraced : Traced env ex c) {e : Event Uuid}
    {system : System Uuid} (hstep : c.system.step env e = some system)
    (hreturned : ∀ result, e = .complete result → c.Returned result) {job' : JobState Uuid}
    (hrecorded : job'.Recorded) (hjob' : system.job jobId = some job')
    (hstatus : job'.status = .succeeded) {taskId : Uuid} (hmem : taskId ∈ job'.tasks) :
    taskId ∈ job'.results.map TaskResult.taskId := by
  have hmove := System.step_job hstep jobId
  rw [hjob'] at hmove
  generalize hold : c.system.job jobId = old at hmove
  cases hmove with
  | unchanged => exact h.succeeded job' hold hstatus taskId hmem
  | submitted => cases hstatus
  | @assigned i task rest worker job hloop hid =>
      subst hid
      obtain ⟨known, _, hknown, -, htask⟩ :=
        htraced.built.loops _ (List.mem_of_getElem? hloop) task List.mem_cons_self
      obtain rfl : known = job := Option.some.inj (hknown.symm.trans hold)
      exact h.succeeded known hold hstatus taskId ((System.mem_insert_of_known htask).mp hmem)
  | running hloop hid => cases hstatus
  | @refused result job hid hok =>
      subst hid
      have hknown := htraced.known (hreturned _ rfl) hold
      exact h.succeeded job hold hstatus taskId ((System.mem_insert_of_known hknown).mp hmem)
  | @recorded result job hid hok =>
      subst hid
      have hknown := htraced.known (hreturned _ rfl) hold
      have hearlier : job.status = .succeeded →
          taskId ∈ (job.record result).results.map TaskResult.taskId := by
        intro hbefore
        rw [JobState.record_tasks] at hmem
        have hresult := h.succeeded job hold hbefore taskId
          ((System.mem_insert_of_known hknown).mp hmem)
        rw [JobState.record_results]
        split_ifs
        · rw [List.map_append]
          exact List.mem_append_left _ hresult
        · exact hresult
      rw [JobState.record_status] at hstatus
      cases hres : result.status with
      | completed =>
          rw [hres] at hstatus
          dsimp only at hstatus
          split_ifs at hstatus with hpending
          · exact hearlier hstatus
          · -- the job has just succeeded, so all its tasks are completed
            obtain ⟨status, hlookup⟩ := Option.isSome_iff_exists.mp (AList.lookup_isSome.mpr hmem)
            have hall := JobState.pending_iff.mp (Bool.eq_false_iff.mpr hpending) taskId status
            have hcompleted := hlookup
            rw [JobState.record_tasks] at hcompleted
            obtain rfl := hall hcompleted
            exact hrecorded taskId hlookup
      | failed message =>
          rw [hres] at hstatus
          cases hstatus
      | _ =>
          rw [hres] at hstatus
          exact hearlier hstatus

theorem Filed.step (h : c.Filed jobId) (htraced : Traced env ex c) (horigin : c.Originates)
    {e : ClusterEvent Uuid} (hfits : c.ReportsFit e) (hstep : c.step env ex e = some c') :
    c'.Filed jobId := by
  have hmoved := step_moved hstep
  have hkeep : ∀ job, c.system.job jobId = some job → ∀ result ∈ job.results, c'.Reported result :=
    fun job hjob result hmem => (h.reported job hjob result hmem).moved hmoved
  rcases step_system hstep hfits with hsame | ⟨event, hevent, hfit, hresults⟩
  · rw [← hsame] at hkeep
    refine ⟨?_, hkeep, ?_, fun honce => ?_⟩
    · rw [hsame]
      exact h.recorded
    · rw [hsame]
      exact h.succeeded
    · rw [hsame]
      exact h.nodup (honce.before hmoved)
  · have hreturned : ∀ result, event = .complete result → c.Returned result := by
      intro result hresult
      obtain ⟨w, i, call, execution, -, -, hcall, hphase, hsame⟩ := hresults result hresult
      exact ⟨w, i, call, execution, hcall, hphase, hsame⟩
    have hrecorded := System.recorded_step h.recorded hfit hevent
    refine ⟨hrecorded, fun job' hjob' result hmem => ?_, fun job' hjob' hstatus taskId hmem =>
      h.succeeded_step htraced hevent hreturned (hrecorded _ _ hjob') hjob' hstatus hmem,
      fun honce job' hjob' => ?_⟩
    · rcases System.step_results hevent hjob' with
        hnil | ⟨job, hjob, hsame | ⟨new, hnew, -, happend⟩⟩
      · rw [hnil] at hmem
        cases hmem
      · exact hkeep job hjob result (hsame ▸ hmem)
      · rw [happend] at hmem
        rcases List.mem_append.mp hmem with hmem | hmem
        · exact hkeep job hjob result hmem
        · obtain rfl := List.mem_singleton.mp hmem
          obtain ⟨w, i, call, execution, -, hnow, hcall, hphase, hsame⟩ := hresults result hnew
          exact ⟨w, i, call, execution, hnow, hmoved.returned hcall hphase, hphase, hsame⟩
    · have honce := honce.before hmoved
      rcases System.step_results hevent hjob' with
        hnil | ⟨job, hjob, hsame | ⟨new, hnew, hid, happend⟩⟩
      · rw [hnil]
        exact List.nodup_nil
      · rw [hsame]
        exact h.nodup honce job hjob
      · obtain ⟨w, i, call, execution, hfirst, -, hcall, hphase, rfl⟩ := hresults new hnew
        have hnot := h.new htraced horigin honce hfirst hcall hphase hid hjob
        rw [happend, List.map_append]
        exact List.Nodup.append (h.nodup honce job hjob) (List.nodup_singleton _)
          (List.disjoint_singleton.mpr hnot)

omit [BEq F] in
theorem filed_new {master : Master Uuid} (hjobs : ∀ id, master.jobs.lookup id = none)
    (slots : List Nat) (files : Files) : (new master slots files : Cluster F Uuid).Filed jobId := by
  have hjob : ∀ id job, (new master slots files : Cluster F Uuid).system.job id ≠ some job := by
    intro id job hjob
    have hjob : master.jobs.lookup id = some job := hjob
    rw [hjobs id] at hjob
    cases hjob
  exact ⟨fun id job h => absurd h (hjob id job), fun job h => absurd h (hjob jobId job),
    fun job h => absurd h (hjob jobId job), fun _ job h => absurd h (hjob jobId job)⟩

theorem outputs_of_run {master : Master Uuid} (hjobs : ∀ id, master.jobs.lookup id = none)
    (slots : List Nat) (files : Files) {events : List (ClusterEvent Uuid)}
    (hids : Function.Injective (env.newV5 jobId))
    (hfits : Along (step env ex) ReportsFit (new master slots files) events)
    (hrun : Lib.run (step env ex) (new master slots files) events = some c)
    (honce : c.Once jobId) {job : JobState Uuid} (hjob : c.system.job jobId = some job) :
    (job.results.map TaskResult.taskId).Nodup ∧
      (∀ result ∈ job.results, c.Returned result ∧ result.status = .completed ∧
        ∃ task order, task ∈ job.dag.materializeTasks env.newV5 order jobId ∧
          ex.Reports task result) ∧
      (job.status = .succeeded → ∃ order,
        job.outputs.Perm ((job.dag.materializeTasks env.newV5 order jobId).map ex.resultPath)) := by
  have hend : (Traced env ex c ∧ c.Originates) ∧ c.Filed jobId := by
    refine run_invariant
      (I := fun c : Cluster F Uuid => (Traced env ex c ∧ c.Originates) ∧ c.Filed jobId)
      (fun c e c' h hfit hstep => ?_) ⟨⟨traced_new hjobs slots files, originates_new _ _ _⟩,
        filed_new hjobs slots files⟩ hfits hrun
    obtain ⟨⟨htraced, horigin⟩, hfiled⟩ := h
    have hmoved := step_moved hstep
    exact ⟨⟨htraced.moved hmoved, horigin.moved hmoved⟩, hfiled.step htraced horigin hfit hstep⟩
  obtain ⟨⟨htraced, -⟩, hfiled⟩ := hend
  have hnodup := hfiled.nodup honce job hjob
  have hsource : ∀ result ∈ job.results, c.Returned result ∧ result.status = .completed ∧
      ∃ task order, task ∈ job.dag.materializeTasks env.newV5 order jobId ∧
        ex.Reports task result := by
    intro result hmem
    obtain ⟨hreturned, hid, hstatus⟩ := htraced.results jobId job hjob result hmem
    obtain ⟨task, hreports, known, order, hknown, htask, -⟩ := htraced.of_returned hreturned
    rw [← hreports.jobId, hid] at hknown htask
    obtain rfl : known = job := Option.some.inj (hknown.symm.trans hjob)
    exact ⟨hreturned, hstatus, task, order, htask, hreports⟩
  refine ⟨hnodup, hsource, fun hsucceeded => ?_⟩
  obtain ⟨order, hkeys⟩ := htraced.built.keys jobId job hjob
  refine ⟨order, ?_⟩
  have hperm : (job.results.map TaskResult.taskId).Perm
      ((job.dag.materializeTasks env.newV5 order jobId).map Task.taskId) := by
    refine (List.perm_ext_iff_of_nodup hnodup
      (DagSpecification.materializeTasks_nodup env.newV5 hids order job.dag)).mpr fun taskId => ?_
    rw [← hkeys]
    constructor
    · intro hmem
      obtain ⟨result, hresult, rfl⟩ := List.mem_map.mp hmem
      obtain ⟨hreturned, hid, -⟩ := htraced.results jobId job hjob result hresult
      exact htraced.known hreturned (hid.symm ▸ hjob)
    · exact hfiled.succeeded job hjob hsucceeded taskId
  refine map_perm_of_keys hperm fun result hresult task htask hid => ?_
  obtain ⟨-, -, task', order', htask', hreports⟩ := hsource result hresult
  rw [hreports.path]
  exact ex.resultPath_congr hids htask' htask (hreports.taskId.symm.trans hid)

/-- The results of a job are those of different tasks of it that have completed, and
when it has succeeded its output is the files of all its tasks. -/
theorem run_outputs {master : Master Uuid} (hjobs : ∀ id, master.jobs.lookup id = none)
    (slots : List Nat) (files : Files) {events : List (ClusterEvent Uuid)}
    (hids : Function.Injective (env.newV5 jobId))
    (hfits : Along (step env ex) ReportsFit (new master slots files) events)
    (hrun : Lib.run (step env ex) (new master slots files) events = some c)
    (honce : c.Once jobId) {job : JobState Uuid} (hjob : c.system.job jobId = some job) :
    (job.results.map TaskResult.taskId).Nodup ∧
      (∀ result ∈ job.results, c.Returned result ∧ result.status = .completed ∧
        ∃ task order, task ∈ job.dag.materializeTasks env.newV5 order jobId ∧
          ex.Reports task result) ∧
      (job.status = .succeeded → ∃ order,
        job.outputs.Perm ((job.dag.materializeTasks env.newV5 order jobId).map ex.resultPath)) :=
  outputs_of_run hjobs slots files hids hfits hrun honce hjob

theorem run_outputs_chainRun :
    ∃ c job, Lib.run (step nameEnv named) (new {} [2] JobRun.csvFiles) chainRun = some c ∧
      c.system.job "job" = some job ∧ ∃ order, job.outputs.Perm
        ((job.dag.materializeTasks nameEnv.newV5 order "job").map named.resultPath) := by
  have hsome : ((Lib.run (step nameEnv named) (new {} [2] JobRun.csvFiles) chainRun).bind fun c =>
      (c.system.job "job").bind fun job =>
        if job.status = .succeeded ∧ c.system.sent.Nodup then some c else none).isSome = true := by
    decide +kernel
  obtain ⟨last, hlast⟩ := Option.isSome_iff_exists.mp hsome
  obtain ⟨c, hrun, hlast⟩ := Option.bind_eq_some_iff.mp hlast
  obtain ⟨job, hjob, hlast⟩ := Option.bind_eq_some_iff.mp hlast
  obtain ⟨hsucceeded, hsent⟩ := (Option.ite_none_right_eq_some.mp hlast).1
  obtain ⟨-, -, houtputs⟩ := run_outputs (fun _ => AList.lookup_empty _) [2]
    JobRun.csvFiles (nameEnv_newV5_injective "job") (by decide +kernel) hrun
    (fun _ => List.nodup_iff_count_le_one.mp hsent _) hjob
  exact ⟨c, job, hrun, hjob, houtputs hsucceeded⟩

end Cluster
end ProcessingEngine

import ProcessingEngine.Cluster.Network
import ProcessingEngine.Master.Accounting
import ProcessingEngine.Master.Genuine

/-!
# Where results come from

In an installation that starts without jobs, every result that the master keeps
was returned by a call at some worker, for a task that the master built from the
DAG of the job and sent there; the master holds no status of a task that has
ended without such a call, and a job has succeeded only when there is one for each
of its tasks (`Cluster.run_traced`).
-/

namespace ProcessingEngine

open Lib

variable {F Uuid : Type}

/-- The result is one of this task. -/
structure Executor.Reports (ex : Executor F Uuid) (task : Task Uuid) (result : TaskResult Uuid) :
    Prop where
  taskId : result.taskId = task.taskId
  jobId : result.jobId = task.jobId
  stageId : result.stageId = finalStageId task
  partition : result.partition = task.partition
  operator : result.operator = reportedOperator task
  path : result.resultLocation.path = ex.partitionPath task task.partition
  ended : result.status.isEnded

theorem Executor.reports_failedResult (ex : Executor F Uuid) (task : Task Uuid) (durationMs : Nat)
    (error : String) : ex.Reports task (ex.failedResult task durationMs error) :=
  ⟨rfl, rfl, rfl, rfl, rfl, rfl, rfl⟩

/-- Whatever the files hold, an attempt ends with a result of its task. -/
theorem Executor.uses_reports [BEq F] (ex : Executor F Uuid) (attempt : Attempt)
    (task : Task Uuid) :
    (ex.executeSync attempt task).Uses (fun _ => True) fun e => ex.Reports task e.result := by
  refine Prog.uses_bind (Prog.uses_true _) fun out _ => ?_
  cases out with
  | error e => exact ex.reports_failedResult task _ _
  | ok out =>
      refine Prog.uses_bind (Prog.uses_true _) fun written _ => ?_
      cases written with
      | error e => exact ex.reports_failedResult task _ _
      | ok written => exact ⟨rfl, rfl, rfl, rfl, rfl, rfl, rfl⟩

/-! ### What a call holds -/

/-- What the call has come to, or can still come to, is a result of its task. -/
def Call.Reporting (ex : Executor F Uuid) (call : Call F Uuid) : Prop :=
  match call.phase with
  | .waiting => True
  | .starting => True
  | .dropped => True
  | .executing prog => prog.Uses (fun _ => True) fun e => ex.Reports call.task e.result
  | .orphaned prog => prog.Uses (fun _ => True) fun e => ex.Reports call.task e.result
  | .executed execution => ex.Reports call.task execution.result
  | .counted execution => ex.Reports call.task execution.result
  | .ended execution => ex.Reports call.task execution.result
  | .cleared execution => ex.Reports call.task execution.result
  | .returned execution => ex.Reports call.task execution.result

theorem Call.Reporting.step [BEq F] {ex : Executor F Uuid} {i : Nat} {call call' : Call F Uuid}
    {shared shared' : Shared Uuid} {files files' : Files} (h : call.Reporting ex)
    (hstep : Call.Step ex i call shared files call' shared' files') : call'.Reporting ex := by
  obtain ⟨task, attempts, attempt, phase⟩ := call
  cases hstep with
  | admitted _ _ => trivial
  | began _ => exact ex.uses_reports _ task
  | retried _ _ _ => trivial
  | operated hphase =>
      obtain rfl : phase = .executing _ := hphase
      exact h.2 _
  | orphanOperated hphase =>
      obtain rfl : phase = .orphaned _ := hphase
      exact h.2 _
  | joined hphase =>
      obtain rfl : phase = .executing _ := hphase
      exact h
  | completed hphase _ =>
      obtain rfl : phase = .executed _ := hphase
      exact h
  | failed hphase _ _ =>
      obtain rfl : phase = .executed _ := hphase
      exact h
  | unended hphase _ _ =>
      obtain rfl : phase = .executed _ := hphase
      exact h
  | recorded hphase =>
      obtain rfl : phase = .counted _ := hphase
      exact h
  | cleared hphase =>
      obtain rfl : phase = .ended _ := hphase
      exact h
  | left hphase =>
      obtain rfl : phase = .cleared _ := hphase
      exact h

theorem Call.Reporting.drop {ex : Executor F Uuid} {i : Nat} {call call' : Call F Uuid}
    {shared shared' : Shared Uuid} (h : call.Reporting ex)
    (hdrop : call.drop i shared = some (call', shared')) : call'.Reporting ex := by
  obtain ⟨task, attempts, attempt, phase⟩ := call
  rcases Call.drop_cases hdrop with ⟨-, rfl, -⟩ | ⟨prog, hphase, rfl, -⟩
  · trivial
  · obtain rfl : phase = .executing _ := hphase
    exact h

namespace Cluster

variable [DecidableEq Uuid]

/-- A call has returned the result. -/
def Returned (c : Cluster F Uuid) (result : TaskResult Uuid) : Prop :=
  ∃ w i call execution, c.call w i = some call ∧ call.phase = .returned execution ∧
    execution.result = result

/-- What the master has comes from calls for tasks that it has sent. -/
structure Traced (env : MasterEnv Uuid) (ex : Executor F Uuid) (c : Cluster F Uuid) : Prop where
  built : c.system.Built env
  tasks : ∀ w i call, c.call w i = some call →
    ∃ info, (call.task, info) ∈ c.system.dispatched
  reporting : ∀ w i call, c.call w i = some call → call.Reporting ex
  results : ∀ id job, c.system.job id = some job → ∀ result ∈ job.results,
    c.Returned result ∧ result.jobId = id ∧ result.status = .completed
  ended : ∀ id job, c.system.job id = some job → ∀ taskId status,
    job.tasks.lookup taskId = some status → status.isEnded →
      ∃ result, c.Returned result ∧ result.key = (id, taskId) ∧ result.status = status
  succeeded : ∀ id job, c.system.job id = some job → job.status = .succeeded →
    ∀ taskId ∈ job.tasks, ∃ result, c.Returned result ∧ result.key = (id, taskId) ∧
      result.status = .completed

theorem traced_new {env : MasterEnv Uuid} {ex : Executor F Uuid} {master : Master Uuid}
    (hjobs : ∀ id, master.jobs.lookup id = none) (slots : List Nat) (files : Files) :
    Traced env ex (new master slots files : Cluster F Uuid) := by
  have hnone := call_new (F := F) master slots files
  have hjob : ∀ id job, (new master slots files : Cluster F Uuid).system.job id ≠ some job := by
    intro id job hjob
    have hjob : master.jobs.lookup id = some job := hjob
    rw [hjobs id] at hjob
    cases hjob
  refine ⟨⟨fun loop hloop => ?_, fun d hd => ?_, fun id job h => absurd h (hjob id job)⟩,
    fun w i call h => ?_, fun w i call h => ?_, fun id job h => absurd h (hjob id job),
    fun id job h => absurd h (hjob id job), fun id job h => absurd h (hjob id job)⟩
  · cases hloop
  · cases hd
  · rw [hnone w i] at h
    cases h
  · rw [hnone w i] at h
    cases h

variable [BEq F] {env : MasterEnv Uuid} {ex : Executor F Uuid} {c c' : Cluster F Uuid}

theorem Returned.moved {result : TaskResult Uuid} (h : c.Returned result)
    (hmoved : Moved env ex c c') : c'.Returned result := by
  obtain ⟨w, i, call, execution, hcall, hphase, hresult⟩ := h
  exact ⟨w, i, call, execution, hmoved.returned hcall hphase, hphase, hresult⟩

omit [BEq F] in
/-- A result that was returned is one of a task that was sent. -/
theorem Traced.of_returned (h : Traced env ex c) {result : TaskResult Uuid}
    (hreturned : c.Returned result) :
    ∃ task, ex.Reports task result ∧ c.system.Genuine env task := by
  obtain ⟨w, i, call, execution, hcall, hphase, rfl⟩ := hreturned
  have hreports := h.reporting w i call hcall
  unfold Call.Reporting at hreports
  rw [hphase] at hreports
  obtain ⟨info, hsent⟩ := h.tasks w i call hcall
  exact ⟨call.task, hreports, h.built.sent _ hsent⟩

/-- The master stays as it is, or it takes a step, and the results that it takes
were returned. -/
theorem Moved.system_cases (h : Moved env ex c c') :
    c'.system = c.system ∨ ∃ e, c.system.step env e = some c'.system ∧
      ∀ result, e = .complete result → c.Returned result := by
  cases h with
  | @served e system hevent hstep =>
      exact Or.inr ⟨e, hstep, fun result hresult => absurd hresult (hevent result)⟩
  | @reported w i call execution system hcall hphase hnew hstep =>
      refine Or.inr ⟨_, hstep, fun result hresult => ?_⟩
      cases hresult
      exact ⟨w, i, call, execution, hcall, hphase, rfl⟩
  | delivered _ _ _ _ => exact Or.inl rfl
  | worked _ _ => exact Or.inl rfl
  | dropped _ _ => exact Or.inl rfl

/-- What is sent is added to what was sent. -/
theorem Moved.dispatched (h : Moved env ex c c') :
    ∃ more, c'.system.dispatched = c.system.dispatched ++ more := by
  rcases h.system_cases with hsame | ⟨e, hstep, -⟩
  · exact ⟨[], by rw [hsame, List.append_nil]⟩
  · exact System.dispatched_step hstep

omit [BEq F] in
/-- A result that was returned is one of a task that its job knows. -/
theorem Traced.known (h : Traced env ex c) {result : TaskResult Uuid}
    (hreturned : c.Returned result) {job : JobState Uuid}
    (hjob : c.system.job result.jobId = some job) : result.taskId ∈ job.tasks := by
  obtain ⟨task, hreports, known, _, hknown, -, hmem⟩ := h.of_returned hreturned
  rw [← hreports.jobId] at hknown
  obtain rfl : known = job := Option.some.inj (hknown.symm.trans hjob)
  rw [hreports.taskId]
  exact hmem

omit [BEq F] in
theorem Traced.results_step (h : Traced env ex c) {e : Event Uuid} {system : System Uuid}
    (hstep : c.system.step env e = some system)
    (hreturned : ∀ result, e = .complete result → c.Returned result) {id : Uuid}
    {job' : JobState Uuid} (hjob' : system.job id = some job') {result : TaskResult Uuid}
    (hmem : result ∈ job'.results) :
    c.Returned result ∧ result.jobId = id ∧ result.status = .completed := by
  have hmove := System.step_job hstep id
  rw [hjob'] at hmove
  generalize hold : c.system.job id = old at hmove
  cases hmove with
  | unchanged => exact h.results id job' hold result hmem
  | submitted => cases hmem
  | assigned hloop hid => exact h.results id _ hold result hmem
  | running hloop hid => exact h.results id _ hold result hmem
  | refused hid hok => exact h.results id _ hold result hmem
  | @recorded reported job hid hok =>
      rw [JobState.record_results] at hmem
      split_ifs at hmem with hcompleted
      · rcases List.mem_append.mp hmem with hmem | hmem
        · exact h.results id job hold result hmem
        · obtain rfl := List.mem_singleton.mp hmem
          refine ⟨hreturned _ rfl, hid, ?_⟩
          cases hstatus : result.status with
          | completed => rfl
          | _ =>
              rw [hstatus] at hcompleted
              cases hcompleted
      · exact h.results id job hold result hmem

omit [BEq F] in
theorem Traced.ended_step (h : Traced env ex c) {e : Event Uuid} {system : System Uuid}
    (hstep : c.system.step env e = some system)
    (hreturned : ∀ result, e = .complete result → c.Returned result) {id : Uuid}
    {job' : JobState Uuid} (hjob' : system.job id = some job') {taskId : Uuid}
    {status : TaskStatus Uuid} (hlookup : job'.tasks.lookup taskId = some status)
    (hended : status.isEnded) :
    ∃ result, c.Returned result ∧ result.key = (id, taskId) ∧ result.status = status := by
  have hmove := System.step_job hstep id
  rw [hjob'] at hmove
  generalize hold : c.system.job id = old at hmove
  have hinsert : ∀ (job : JobState Uuid) (result : TaskResult Uuid), c.system.job id = some job →
      result.jobId = id → c.Returned result →
      (job.tasks.insert result.taskId result.status).lookup taskId = some status →
        ∃ result, c.Returned result ∧ result.key = (id, taskId) ∧ result.status = status := by
    intro job result hjob hid hret hlookup
    rw [HashMap.lookup_insert] at hlookup
    split_ifs at hlookup with hself
    · exact ⟨result, hret, Prod.ext hid hself.symm, Option.some.inj hlookup⟩
    · exact h.ended id job hjob taskId status hlookup hended
  cases hmove with
  | unchanged => exact h.ended id job' hold taskId status hlookup hended
  | submitted =>
      rw [Master.submittedJob_lookup] at hlookup
      split_ifs at hlookup
      cases hlookup
      cases hended
  | @assigned i task rest worker job hloop hid =>
      have hlookup : (job.tasks.insert task.taskId _).lookup taskId = some status := hlookup
      rw [HashMap.lookup_insert] at hlookup
      split_ifs at hlookup
      · cases hlookup
        cases hended
      · exact h.ended id job hold taskId status hlookup hended
  | running hloop hid => exact h.ended id _ hold taskId status hlookup hended
  | @refused result job hid hok => exact hinsert job result hold hid (hreturned _ rfl) hlookup
  | @recorded result job hid hok =>
      rw [JobState.record_tasks] at hlookup
      exact hinsert job result hold hid (hreturned _ rfl) hlookup

omit [BEq F] in
/-- A report can make a job succeed only when all its tasks have been completed. -/
theorem Traced.succeeded_step (h : Traced env ex c) {e : Event Uuid} {system : System Uuid}
    (hstep : c.system.step env e = some system)
    (hreturned : ∀ result, e = .complete result → c.Returned result) {id : Uuid}
    {job' : JobState Uuid} (hjob' : system.job id = some job') (hstatus : job'.status = .succeeded)
    {taskId : Uuid} (hmem : taskId ∈ job'.tasks) :
    ∃ result, c.Returned result ∧ result.key = (id, taskId) ∧ result.status = .completed := by
  have hended : ∀ {status : TaskStatus Uuid}, job'.tasks.lookup taskId = some status →
      status.isEnded → ∃ result, c.Returned result ∧ result.key = (id, taskId) ∧
        result.status = status := h.ended_step hstep hreturned hjob'
  have hmove := System.step_job hstep id
  rw [hjob'] at hmove
  generalize hold : c.system.job id = old at hmove
  cases hmove with
  | unchanged => exact h.succeeded id job' hold hstatus taskId hmem
  | submitted => cases hstatus
  | @assigned i task rest worker job hloop hid =>
      subst hid
      obtain ⟨known, _, hknown, -, htask⟩ :=
        h.built.loops _ (List.mem_of_getElem? hloop) task List.mem_cons_self
      obtain rfl : known = job := Option.some.inj (hknown.symm.trans hold)
      exact h.succeeded _ known hold hstatus taskId ((System.mem_insert_of_known htask).mp hmem)
  | running hloop hid => cases hstatus
  | @refused result job hid hok =>
      subst hid
      have hknown := h.known (hreturned _ rfl) hold
      exact h.succeeded _ job hold hstatus taskId ((System.mem_insert_of_known hknown).mp hmem)
  | @recorded result job hid hok =>
      subst hid
      have hknown := h.known (hreturned _ rfl) hold
      have hearlier : job.status = .succeeded →
          ∃ result', c.Returned result' ∧ result'.key = (result.jobId, taskId) ∧
            result'.status = .completed := by
        intro hbefore
        rw [JobState.record_tasks] at hmem
        exact h.succeeded _ job hold hbefore taskId ((System.mem_insert_of_known hknown).mp hmem)
      rw [JobState.record_status] at hstatus
      cases hres : result.status with
      | completed =>
          rw [hres] at hstatus
          dsimp only at hstatus
          split_ifs at hstatus with hpending
          · exact hearlier hstatus
          · -- the job has just succeeded, so all its tasks are completed
            obtain ⟨status, hlookup⟩ :=
              Option.isSome_iff_exists.mp (AList.lookup_isSome.mpr hmem)
            have hall := JobState.pending_iff.mp (Bool.eq_false_iff.mpr hpending) taskId status
            rw [JobState.record_tasks] at hlookup
            obtain rfl := hall hlookup
            rw [← JobState.record_tasks] at hlookup
            exact hended hlookup rfl
      | failed message =>
          rw [hres] at hstatus
          cases hstatus
      | _ =>
          rw [hres] at hstatus
          exact hearlier hstatus

theorem Moved.reporting (h : Moved env ex c c')
    (hold : ∀ w i call, c.call w i = some call → call.Reporting ex) :
    ∀ w i call, c'.call w i = some call → call.Reporting ex := by
  intro w i call hcall
  rcases h.call_cases hcall with hsame | ⟨task, info, attempts, -, rfl⟩ |
    ⟨before, hbefore, ⟨_, _, hstep⟩ | ⟨_, _, hdrop⟩⟩
  · exact hold w i call hsame
  · trivial
  · exact (hold w i before hbefore).step hstep
  · exact (hold w i before hbefore).drop hdrop

theorem Traced.moved (h : Traced env ex c) (hmoved : Moved env ex c c') : Traced env ex c' := by
  have htasks : ∀ w i call, c'.call w i = some call →
      ∃ info, (call.task, info) ∈ c'.system.dispatched := by
    intro w i call hcall
    have hsent : ∃ info, (call.task, info) ∈ c.system.dispatched := by
      rcases hmoved.call_cases hcall with hold | ⟨task, info, attempts, hsent, rfl⟩ |
        ⟨before, hbefore, ⟨_, _, hstep⟩ | ⟨_, _, hdrop⟩⟩
      · exact h.tasks w i call hold
      · exact ⟨info, hsent⟩
      · rw [hstep.task.1]
        exact h.tasks w i before hbefore
      · rw [(Call.drop_task hdrop).1]
        exact h.tasks w i before hbefore
    obtain ⟨info, hsent⟩ := hsent
    obtain ⟨more, hmore⟩ := hmoved.dispatched
    rw [hmore]
    exact ⟨info, List.mem_append_left more hsent⟩
  have hreporting := hmoved.reporting h.reporting
  rcases hmoved.system_cases with hsame | ⟨e, hstep, hreturned⟩
  · refine ⟨?_, htasks, hreporting, ?_, ?_, ?_⟩
    · rw [hsame]
      exact h.built
    · rw [hsame]
      intro id job hjob result hmem
      obtain ⟨hret, hrest⟩ := h.results id job hjob result hmem
      exact ⟨hret.moved hmoved, hrest⟩
    · rw [hsame]
      intro id job hjob taskId status hlookup hended
      obtain ⟨result, hret, hrest⟩ := h.ended id job hjob taskId status hlookup hended
      exact ⟨result, hret.moved hmoved, hrest⟩
    · rw [hsame]
      intro id job hjob hstatus taskId hmem
      obtain ⟨result, hret, hrest⟩ := h.succeeded id job hjob hstatus taskId hmem
      exact ⟨result, hret.moved hmoved, hrest⟩
  · refine ⟨h.built.step hstep ?_, htasks, hreporting, ?_, ?_, ?_⟩
    · intro result hresult job hjob
      exact h.known (hreturned result hresult) hjob
    · intro id job hjob result hmem
      obtain ⟨hret, hrest⟩ := h.results_step hstep hreturned hjob hmem
      exact ⟨hret.moved hmoved, hrest⟩
    · intro id job hjob taskId status hlookup hended
      obtain ⟨result, hret, hrest⟩ := h.ended_step hstep hreturned hjob hlookup hended
      exact ⟨result, hret.moved hmoved, hrest⟩
    · intro id job hjob hstatus taskId hmem
      obtain ⟨result, hret, hrest⟩ := h.succeeded_step hstep hreturned hjob hstatus hmem
      exact ⟨result, hret.moved hmoved, hrest⟩

theorem traced_of_run {master : Master Uuid} (hjobs : ∀ id, master.jobs.lookup id = none)
    (slots : List Nat) (files : Files) {events : List (ClusterEvent Uuid)}
    (hrun : Lib.run (step env ex) (new master slots files) events = some c) : Traced env ex c :=
  run_keeps (fun _ _ _ h hstep => h.moved (step_moved hstep)) (traced_new hjobs slots files) hrun

/-- In every run of an installation that starts without jobs, whatever is lost,
delayed or dropped on the way: the results and the statuses that the master keeps
come from calls for tasks that it has built from the DAG of their job and sent. -/
theorem run_traced {master : Master Uuid} (hjobs : ∀ id, master.jobs.lookup id = none)
    (slots : List Nat) (files : Files) {events : List (ClusterEvent Uuid)}
    (hrun : Lib.run (step env ex) (new master slots files) events = some c) :
    Traced env ex c ∧ ∀ result, c.Returned result →
      ∃ task, ex.Reports task result ∧ c.system.Genuine env task := by
  have hend := traced_of_run hjobs slots files hrun
  exact ⟨hend, fun _ hreturned => hend.of_returned hreturned⟩

theorem run_traced_chainRun :
    ∃ c, Lib.run (step nameEnv named) (new {} [2] JobRun.csvFiles) chainRun = some c ∧
      Traced nameEnv named c := by
  have hsome :
      (Lib.run (step nameEnv named) (new {} [2] JobRun.csvFiles) chainRun).isSome = true := by
    decide +kernel
  obtain ⟨c, hrun⟩ := Option.isSome_iff_exists.mp hsome
  exact ⟨c, hrun, (run_traced (fun _ => AList.lookup_empty _) [2] JobRun.csvFiles hrun).1⟩

end Cluster
end ProcessingEngine

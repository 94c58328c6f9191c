import ProcessingEngine.Cluster.Isolation

/-!
# The output of a job

A linear job runs on a cluster together with other jobs, in any interleaving, with
retries, aborted attempts and lost messages.  When the master says that it has
succeeded, and its tasks were sent once each, the result files hold together what
the operators make of the rows of the input (`Cluster.run_output`).
-/

namespace ProcessingEngine

open Lib Text

variable {F Uuid : Type}

/-- The tasks depend on the nodes in their order. -/
theorem DagSpecification.materializeTasks_congr {dag : DagSpecification}
    {order order' : HashOrder String} (newV5 : Uuid → String → Uuid) (jobId : Uuid)
    (h : dag.injectLocalShuffle (dag.orderedNodes order) =
      dag.injectLocalShuffle (dag.orderedNodes order')) :
    dag.materializeTasks newV5 order jobId = dag.materializeTasks newV5 order' jobId := by
  unfold materializeTasks
  rw [h]

theorem Task.nodup_key {jobId : Uuid} {tasks : List (Task Uuid)}
    (hjob : ∀ task ∈ tasks, task.jobId = jobId) (h : (tasks.map Task.taskId).Nodup) :
    (tasks.map Task.key).Nodup := by
  have hkey : tasks.map Task.key = (tasks.map Task.taskId).map (jobId, ·) := by
    rw [List.map_map]
    refine List.map_congr_left fun task hmem => ?_
    show (task.jobId, task.taskId) = _
    rw [hjob task hmem]
    rfl
  rw [hkey]
  exact h.map fun _ _ heq => congrArg Prod.snd heq

namespace Executor

variable {ex : Executor F Uuid} {uri format : String} {ops : List RecordOp} {total : Nat}
  {tasks : List (Task Uuid)} {jobId : Uuid}

/-- The files of a task are below the directory of its job. -/
theorem below_own (ex : Executor F Uuid) (task : Task Uuid) :
    Below (ex.jobDir task) (ex.spillPath task) ∧ Below (ex.jobDir task) (ex.resultPath task) :=
  ⟨ex.below_jobDir task ⟨_, [], rfl⟩, ex.below_jobDir task ⟨_, [], rfl⟩⟩

/-- Inputs outside the data directory are apart from the files of all tasks. -/
theorem inputApart_of_outside (houtside : ¬ Below ex.config.dataDir (ex.host.resolve uri)) :
    ex.InputApart uri tasks := by
  have hbelow : ∀ task path, Below (ex.jobDir task) path → Below ex.config.dataDir path := by
    intro task path ⟨name, rest, hpath⟩
    exact ⟨_, name :: rest, by rw [hpath, jobDir, List.append_assoc]; rfl⟩
  intro task _
  obtain ⟨hspill, hresult⟩ := ex.below_own task
  exact ⟨fun heq => houtside (heq ▸ hbelow task _ hspill),
    fun heq => houtside (heq ▸ hbelow task _ hresult)⟩

/-- What changes below the directory of another job is none of the files of a task. -/
theorem agreeOn_of_changesBelow (huuid : Function.Injective ex.uuidText)
    (houtside : ¬ Below ex.config.dataDir (ex.host.resolve uri))
    (hjob : ∀ task ∈ tasks, task.jobId = jobId) {other : Task Uuid} (hne : other.jobId ≠ jobId)
    {op : FileOp} (hop : op.ChangesBelow (ex.jobDir other)) (k : Nat) (s : Files) :
    ex.AgreeOn uri tasks k (Interp.exec op s).2 s := by
  intro task htask path hpath
  have hother : ∀ path, Below (ex.jobDir task) path → ¬ Below (ex.jobDir other) path := by
    intro path hbelow hbelow'
    refine hne ?_
    rw [← hjob task (List.mem_of_getElem? htask)]
    exact huuid (hbelow'.name_eq hbelow)
  obtain ⟨hspill, hresult⟩ := ex.below_own task
  refine hop.lookup ?_ s
  rw [List.mem_cons, List.mem_cons, List.mem_singleton] at hpath
  rcases hpath with rfl | rfl | rfl
  · intro ⟨name, rest, heq⟩
    exact houtside ⟨_, name :: rest, by rw [heq, jobDir, List.append_assoc]; rfl⟩
  · exact hother _ hspill
  · exact hother _ hresult

variable [BEq F]

theorem uses_jobDir (ex : Executor F Uuid) (task : Task Uuid) (attempts : Nat → Attempt) :
    (ex.executeTask attempts task).Uses (FileOp.ChangesBelow (ex.jobDir task)) fun _ => True :=
  ProcessingEngine.uses_executeTask (fun attempt => (ex.executeSync_changesBelow task attempt).1)
    attempts

/-- The tasks of a linear job are apart from each other and from all others. -/
theorem apart_of_linear {env : MasterEnv Uuid} {dag : DagSpecification} {id : String}
    {rest : List DagNode} (hlinear : dag.Linear (⟨id, .read uri format⟩ :: rest))
    (hrest : ∀ n ∈ rest, n.operator.recordOp.isSome) (hids : Function.Injective (env.newV5 jobId))
    (huuid : Function.Injective ex.uuidText)
    (houtside : ¬ Below ex.config.dataDir (ex.host.resolve uri)) (order : HashOrder String) :
    Cluster.Apart env ex jobId dag (dag.materializeTasks env.newV5 order jobId)
      (ex.ownOf uri (dag.materializeTasks env.newV5 order jobId))
      (ex.AgreeOn uri (dag.materializeTasks env.newV5 order jobId)) := by
  have hdealt := dealt_of_linear hlinear hrest env.newV5 order jobId ex
  have hjob : ∀ task ∈ dag.materializeTasks env.newV5 order jobId, task.jobId = jobId :=
    fun _ htask => DagSpecification.materializeTasks_jobId env.newV5 htask
  refine ⟨fun order' => ?_, ?_, hdealt.separate (inputApart_of_outside houtside), ?_, ?_⟩
  · refine DagSpecification.materializeTasks_congr _ _ ?_
    rw [DagSpecification.injected_linear hlinear rfl hrest,
      DagSpecification.injected_linear hlinear rfl hrest]
  · exact Task.nodup_key hjob (DagSpecification.materializeTasks_nodup env.newV5 hids order dag)
  · intro k task htask attempts
    exact ((hdealt.chain task (List.mem_of_getElem? htask)).uses_executeTask attempts).mono
      (fun op hop => ⟨task, htask, hop⟩) fun _ _ => trivial
  · intro other hne attempts k
    exact (ex.uses_jobDir other attempts).mono
      (fun op hop s => agreeOn_of_changesBelow huuid houtside hjob hne hop k s) fun _ _ => trivial

end Executor

namespace Cluster

variable [DecidableEq Uuid] [BEq F] {env : MasterEnv Uuid} {ex : Executor F Uuid}
  {c : Cluster F Uuid} {dag : DagSpecification} {id uri format : String} {rest : List DagNode}
  {jobId : Uuid}

/-- Whatever runs beside it, a call for a task that is apart from all others returns
what the task returns alone on the files of the beginning, and leaves its files as
the task does. -/
theorem returned_alone {tasks : List (Task Uuid)} {own : Nat → FileOp → Prop}
    {agree : Nat → Files → Files → Prop} (happart : Apart env ex jobId dag tasks own agree)
    {master : Master Uuid} (hjobs : ∀ id, master.jobs.lookup id = none) (slots : List Nat)
    {files : Files} {events : List (ClusterEvent Uuid)}
    (hrun : Lib.run (step env ex) (new master slots files) events = some c)
    (hdag : ∀ job, c.system.job jobId = some job → job.dag = dag)
    (hsent : ∀ task ∈ tasks, c.system.timesSent task.key ≤ 1) {k w i : Nat} {call : Call F Uuid}
    (hcall : c.call w i = some call) (htask : tasks[k]? = some call.task)
    {execution : Execution F Uuid} (hphase : call.phase = .returned execution) :
    (ex.executeTask call.attempts call.task files).1 = execution ∧
      agree k c.files (ex.executeTask call.attempts call.task files).2 :=
  (run_isolated happart hjobs slots hrun ⟨hdag, hsent⟩).returned hcall htask hphase

theorem returned_alone_chainRun :
    ∃ c call execution,
      Lib.run (step nameEnv named) (new {} [2] JobRun.csvFiles) chainRun = some c ∧
      c.call 0 1 = some call ∧ call.phase = .returned execution ∧
      (named.executeTask call.attempts call.task JobRun.csvFiles).1 = execution := by
  have hsome : ((Lib.run (step nameEnv named) (new {} [2] JobRun.csvFiles) chainRun).bind fun c =>
      (c.call 0 1).bind fun call => call.phase.returned?.bind fun _ =>
        if (∀ job ∈ c.system.job "job", job.dag = Executor.chainDag) ∧ c.system.sent.Nodup ∧
          (Executor.chainDag.materializeTasks nameEnv.newV5 .insertion "job")[1]? = some call.task
        then some c else none).isSome = true := by decide +kernel
  obtain ⟨last, hlast⟩ := Option.isSome_iff_exists.mp hsome
  obtain ⟨c, hrun, hlast⟩ := Option.bind_eq_some_iff.mp hlast
  obtain ⟨call, hcall, hlast⟩ := Option.bind_eq_some_iff.mp hlast
  obtain ⟨execution, hreturned, hlast⟩ := Option.bind_eq_some_iff.mp hlast
  obtain ⟨hdag, hsent, htask⟩ := (Option.ite_none_right_eq_some.mp hlast).1
  have hphase := Call.returned?_eq_some.mp hreturned
  have happart : Apart nameEnv named "job" Executor.chainDag _ _ _ :=
    Executor.apart_of_linear Executor.chainDag_linear (by decide) (nameEnv_newV5_injective "job")
      (fun _ _ h => h) (by decide +kernel) .insertion
  exact ⟨c, call, execution, hrun, hcall, hphase, (returned_alone happart
    (fun _ => AList.lookup_empty _) [2] hrun hdag
    (fun _ _ => List.nodup_iff_count_le_one.mp hsent _) hcall htask hphase).1⟩

/-- In a job that has succeeded, each task has a call that has completed. -/
theorem Traced.completed (h : Traced env ex c) {own : Nat → FileOp → Prop}
    {agree : Nat → Files → Files → Prop} {tasks : List (Task Uuid)}
    (happart : Apart env ex jobId dag tasks own agree) {job : JobState Uuid}
    (hjob : c.system.job jobId = some job) (hsent : c.SentOnce jobId dag tasks)
    (hsucceeded : job.status = .succeeded) {k : Nat} {task : Task Uuid}
    (htask : tasks[k]? = some task) :
    ∃ w i call execution, c.call w i = some call ∧ call.task = task ∧
      call.phase = .returned execution ∧ execution.result.status = .completed := by
  have hmem := List.mem_of_getElem? htask
  obtain ⟨order, hkeys⟩ := h.built.keys jobId job hjob
  have hknown : task.taskId ∈ job.tasks := by
    rw [hkeys, hsent.dag job hjob, happart.genuine order]
    exact List.mem_map_of_mem hmem
  obtain ⟨result, ⟨w, i, call, execution, hcall, hphase, rfl⟩, hkey, hstatus⟩ :=
    h.succeeded jobId job hjob hsucceeded task.taskId hknown
  have hreports := h.reporting w i call hcall
  rw [Call.Reporting, hphase] at hreports
  have hid : call.task.taskId = task.taskId :=
    hreports.taskId.symm.trans (congrArg Prod.snd hkey)
  have hcallJob : call.task.jobId = jobId := hreports.jobId.symm.trans (congrArg Prod.fst hkey)
  obtain ⟨j, hj⟩ := h.exists_index happart.genuine hsent hcall hcallJob
  refine ⟨w, i, call, execution, hcall, ?_, hphase, hstatus⟩
  refine List.inj_on_of_nodup_map happart.distinct (List.mem_of_getElem? hj) hmem ?_
  have hgenuine := happart.genuine order
  have htaskJob : task.jobId = jobId :=
    DagSpecification.materializeTasks_jobId env.newV5 (hgenuine.symm ▸ hmem)
  show (call.task.jobId, call.task.taskId) = (task.jobId, task.taskId)
  rw [hid, hcallJob, htaskJob]

end Cluster
end ProcessingEngine

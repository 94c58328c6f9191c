import ProcessingEngine.Master.Session

/-!
# What the database holds

After every operation that has run to its end, the rows of the database
determine the jobs in memory: each job and each task has a row with its present
state, and there are no other rows.  This needs that no two jobs share a task
id, and that no task is scheduled or reported after its report.
-/

namespace ProcessingEngine

open Lib

variable {Uuid : Type} [DecidableEq Uuid]

def jobRow (serde : Serde Uuid) (job : JobState Uuid) : JobRow :=
  ⟨serde.jobStatus job.status, serde.dag job.dag⟩

/-! ### Writes of a job row -/

/-- A store that differs in the row of one job and in summaries only. -/
structure StateStore.WritesJob (serde : Serde Uuid) (jobId : Uuid) (job : JobState Uuid)
    (store store' : StateStore Uuid) : Prop where
  healthy : store'.faults = []
  tasks : store'.tasks = store.tasks
  row : store'.jobs.lookup jobId = some (jobRow serde job)
  rows : ∀ id, id ≠ jobId → store'.jobs.lookup id = store.jobs.lookup id

namespace StateStore

variable {serde : Serde Uuid} {jobId : Uuid} {job : JobState Uuid} {store store' : StateStore Uuid}

theorem writesJob_refl (h : store.faults = [])
    (hrow : store.jobs.lookup jobId = some (jobRow serde job)) :
    WritesJob serde jobId job store store :=
  ⟨h, rfl, hrow, fun _ _ => rfl⟩

theorem writesJob_persistJob (h : store.faults = []) {dag : DagSpecification} {status : JobStatus}
    (hdag : job.dag = dag) (hstatus : job.status = status) :
    WritesJob serde jobId job store (store.persistJob serde jobId dag status).2 := by
  subst hdag
  subst hstatus
  rw [persistJob_healthy serde h]
  exact ⟨h, rfl, AList.lookup_insert _, fun id hid => AList.lookup_insert_ne hid⟩

theorem WritesJob.persistJobStatus (h : WritesJob serde jobId job store store')
    (state : JobStatus) (progress : ℚ) (metrics : JobMetrics Uuid) (error : Option String)
    (outputs : List Path) : WritesJob serde jobId job store
      (store'.persistJobStatus serde jobId state progress metrics error outputs).2 := by
  obtain ⟨jobStatus, hwrite⟩ := persistJobStatus_healthy serde h.healthy jobId state progress
    metrics error outputs
  rw [hwrite]
  exact ⟨h.healthy, h.tasks, h.row, h.rows⟩

end StateStore

namespace Master

variable {env : MasterEnv Uuid} {m : Master Uuid} {store : StateStore Uuid} {job : JobState Uuid}

theorem writesJob_markRunning {task : Task Uuid} (h : m.store.faults = [])
    (hjob : m.jobs.lookup task.jobId = some job)
    (hrow : m.store.jobs.lookup task.jobId = some (jobRow env.serde job)) :
    StateStore.WritesJob env.serde task.jobId { job with status := .running } m.store
      (m.markRunning env task).store := by
  unfold markRunning
  rw [hjob]
  dsimp only
  split_ifs with hrunning
  · refine StateStore.writesJob_refl h ?_
    rw [hrow, jobRow, hrunning]
    rfl
  · exact (StateStore.writesJob_persistJob h rfl rfl).persistJobStatus _ _ _ _ _

/-- The row of a job is written whenever a report changes its status. -/
theorem writesJob_persistOutcome {result : TaskResult Uuid} (h : store.faults = [])
    (hrow : store.jobs.lookup result.jobId = some (jobRow env.serde job)) :
    StateStore.WritesJob env.serde result.jobId (job.record result) store
      (persistOutcome env result.jobId (job.record result) result store) := by
  have hstatus := JobState.record_status job result
  have hdag := JobState.record_dag job result
  have hpending : (job.record result).pending = (job.recordStatus result).pending := by
    unfold JobState.pending
    rw [JobState.record_tasks, JobState.recordStatus]
  have hsame : (job.record result).status = job.status →
      StateStore.WritesJob env.serde result.jobId (job.record result) store store := by
    intro hkeep
    refine StateStore.writesJob_refl h ?_
    rw [hrow, jobRow, jobRow, hkeep, hdag]
  unfold persistOutcome
  cases hres : result.status with
  | completed =>
      rw [hres] at hstatus
      dsimp only at hstatus ⊢
      rw [hpending]
      split_ifs at hstatus ⊢
      · exact (hsame hstatus).persistJobStatus _ _ _ _ _
      · exact (StateStore.writesJob_persistJob h rfl hstatus).persistJobStatus _ _ _ _ _
  | failed message =>
      rw [hres] at hstatus
      exact (StateStore.writesJob_persistJob h rfl hstatus).persistJobStatus _ _ _ _ _
  | _ =>
      rw [hres] at hstatus
      exact hsame hstatus

end Master

namespace Session

/-- The result that was delivered for a task. -/
def result? (s : Session Uuid) (key : Uuid × Uuid) : Option (TaskResult Uuid) :=
  s.reported.find? fun r => r.key = key

/-- The row of a task of the job `jobId`. -/
def taskRow (serde : Serde Uuid) (jobId : Uuid) (status : TaskStatus Uuid)
    (result : Option (TaskResult Uuid)) : TaskRow Uuid :=
  ⟨jobId, serde.taskStatus status, result.map serde.result⟩

/-- The database determines the jobs of the session. -/
structure Stored (env : MasterEnv Uuid) (s : Session Uuid) : Prop where
  healthy : s.master.store.faults = []
  jobs : ∀ id, s.master.store.jobs.lookup id = (s.master.jobs.lookup id).map (jobRow env.serde)
  tasks : ∀ jobId job, s.master.jobs.lookup jobId = some job →
    ∀ id status, job.tasks.lookup id = some status →
      s.master.store.tasks.lookup id = some (taskRow env.serde jobId status (s.result? (jobId, id)))
  rows : ∀ id row, s.master.store.tasks.lookup id = some row →
    ∃ job, s.master.jobs.lookup row.jobId = some job ∧ id ∈ job.tasks
  named : ∀ jobId job, s.master.jobs.lookup jobId = some job →
    ∀ id ∈ job.tasks, ∃ name, id = env.newV5 jobId name
  results : ∀ jobId job, s.master.jobs.lookup jobId = some job →
    job.results.Perm (s.reported.filter fun r => r.jobId = jobId ∧ r.status.isCompleted)
  reported : ∀ r ∈ s.reported, ∃ job, s.master.jobs.lookup r.jobId = some job ∧
    (job.tasks.lookup r.taskId).map Master.normalize = some (Master.normalize r.status)
  done : ∀ jobId job, s.master.jobs.lookup jobId = some job →
    ∀ id, job.tasks.lookup id = some .completed → (jobId, id) ∈ s.reportedKeys
  nodup : s.reportedKeys.Nodup

/-- A task is scheduled and reported when its job knows it and before its report;
no operation is taken in sections. -/
def Unreported (s : Session Uuid) : Op Uuid → Prop
  | .schedule task =>
      (∃ job ∈ s.master.jobs.lookup task.jobId, task.taskId ∈ job.tasks) ∧
        task.key ∉ s.reportedKeys
  | .complete result =>
      ∀ job ∈ s.master.jobs.lookup result.jobId,
        result.taskId ∈ job.tasks ∧ result.key ∉ s.reportedKeys
  | .assign _ _ => False
  | .persistAssignment _ _ => False
  | .markRunning _ => False
  | _ => True

instance decidableUnreported (s : Session Uuid) : ∀ op, Decidable (Unreported s op)
  | .schedule task =>
      inferInstanceAs (Decidable
        ((∃ job ∈ s.master.jobs.lookup task.jobId, task.taskId ∈ job.tasks) ∧
          task.key ∉ s.reportedKeys))
  | .complete result =>
      inferInstanceAs (Decidable (∀ job ∈ s.master.jobs.lookup result.jobId,
        result.taskId ∈ job.tasks ∧ result.key ∉ s.reportedKeys))
  | .assign _ _ | .persistAssignment _ _ | .markRunning _ => isFalse id
  | .submit _ _ _ _ | .select | .register _ | .heartbeat _ _ | .collect _ => isTrue trivial

variable {env : MasterEnv Uuid} {s s' : Session Uuid}

theorem stored_start : Stored env ({} : Session Uuid) where
  healthy := rfl
  jobs _ := rfl
  tasks jobId job h := by cases h
  rows id row h := by cases h
  named jobId job h := by cases h
  results jobId job h := by cases h
  reported r h := by cases h
  done jobId job h := by cases h
  nodup := List.nodup_nil

theorem result?_none {key : Uuid × Uuid} (h : key ∉ s.reportedKeys) :
    s.result? key = none := by
  rw [result?, List.find?_eq_none]
  intro r hr hkey
  rw [decide_eq_true_eq] at hkey
  exact h (hkey ▸ List.mem_map_of_mem hr)

/-! ### Assignments and reports -/

/-- What an assignment and a report of the task `id` have in common: both set its
status, and a report delivers a result as well.  `store` has the row of the task
and not yet that of the job. -/
structure Writes (env : MasterEnv Uuid) (s s' : Session Uuid) (jobId id : Uuid)
    (job job' : JobState Uuid) (status : TaskStatus Uuid) (delivered : Option (TaskResult Uuid))
    (store : StateStore Uuid) : Prop where
  before : s.master.jobs.lookup jobId = some job
  after : s'.master.jobs.lookup jobId = some job'
  others : ∀ id', id' ≠ jobId → s'.master.jobs.lookup id' = s.master.jobs.lookup id'
  known : id ∈ job.tasks
  unreported : (jobId, id) ∉ s.reportedKeys
  tasks : job'.tasks = job.tasks.insert id status
  results : job'.results = job.results ++ (delivered.filter fun r => r.status.isCompleted).toList
  reported : s'.reported = s.reported ++ delivered.toList
  delivers : ∀ r ∈ delivered, r.key = (jobId, id) ∧ r.status = status
  completed : status = .completed → delivered.isSome
  taskRows : store.tasks = s.master.store.tasks.insert id
    (taskRow env.serde jobId status delivered)
  jobRows : store.jobs = s.master.store.jobs
  writes : StateStore.WritesJob env.serde jobId job' store s'.master.store

namespace Writes

variable {jobId id : Uuid} {job job' : JobState Uuid} {status : TaskStatus Uuid}
  {delivered : Option (TaskResult Uuid)} {store : StateStore Uuid}

theorem result?_self (h : Writes env s s' jobId id job job' status delivered store) :
    s'.result? (jobId, id) = delivered := by
  have hnone := result?_none h.unreported
  rw [result?, h.reported, List.find?_append, show s.reported.find? _ = none from hnone]
  cases delivered with
  | none => rfl
  | some r =>
      have hkey := (h.delivers r rfl).1
      simp [hkey]

theorem result?_ne (h : Writes env s s' jobId id job job' status delivered store)
    {key : Uuid × Uuid} (hne : key ≠ (jobId, id)) : s'.result? key = s.result? key := by
  rw [result?, h.reported, List.find?_append]
  cases delivered with
  | none => simp [result?]
  | some r =>
      have hkey := (h.delivers r rfl).1
      have hr : r.key ≠ key := fun e => hne (e ▸ hkey)
      simp [result?, hr]

theorem taskRow_self (h : Writes env s s' jobId id job job' status delivered store) :
    s'.master.store.tasks.lookup id = some (taskRow env.serde jobId status delivered) := by
  rw [h.writes.tasks, h.taskRows, AList.lookup_insert]

theorem taskRow_ne (h : Writes env s s' jobId id job job' status delivered store) {id' : Uuid}
    (hne : id' ≠ id) : s'.master.store.tasks.lookup id' = s.master.store.tasks.lookup id' := by
  rw [h.writes.tasks, h.taskRows, AList.lookup_insert_ne hne]

theorem jobRow_ne (h : Writes env s s' jobId id job job' status delivered store) {id' : Uuid}
    (hne : id' ≠ jobId) : s'.master.store.jobs.lookup id' = s.master.store.jobs.lookup id' := by
  rw [h.writes.rows id' hne, h.jobRows]

theorem mem_tasks (h : Writes env s s' jobId id job job' status delivered store) {id' : Uuid} :
    id' ∈ job'.tasks ↔ id' ∈ job.tasks := by
  rw [h.tasks, AList.mem_insert]
  constructor
  · rintro (rfl | hmem)
    · exact h.known
    · exact hmem
  · exact Or.inr

/-- A job after the write is the one written, or one that was there before. -/
theorem cases_lookup (h : Writes env s s' jobId id job job' status delivered store)
    {jobId' : Uuid} {job₁ : JobState Uuid} (hjob : s'.master.jobs.lookup jobId' = some job₁) :
    (jobId' = jobId ∧ job₁ = job') ∨
      (jobId' ≠ jobId ∧ s.master.jobs.lookup jobId' = some job₁) := by
  by_cases hjobId : jobId' = jobId
  · subst hjobId
    exact Or.inl ⟨rfl, Option.some.inj (hjob.symm.trans h.after)⟩
  · exact Or.inr ⟨hjobId, (h.others jobId' hjobId).symm.trans hjob⟩

theorem stored_tasks (h : Writes env s s' jobId id job job' status delivered store)
    (hinj : Function.Injective2 env.newV5) (hs : Stored env s) {jobId' : Uuid}
    {job₁ : JobState Uuid} (hjob : s'.master.jobs.lookup jobId' = some job₁) {id' : Uuid}
    {status' : TaskStatus Uuid} (hstatus : job₁.tasks.lookup id' = some status') :
    s'.master.store.tasks.lookup id' =
      some (taskRow env.serde jobId' status' (s'.result? (jobId', id'))) := by
  rcases h.cases_lookup hjob with ⟨rfl, rfl⟩ | ⟨hjobId, hjob⟩
  · rw [h.tasks] at hstatus
    by_cases hne : id' = id
    · subst hne
      rw [AList.lookup_insert] at hstatus
      cases hstatus
      rw [h.taskRow_self, h.result?_self]
    · rw [AList.lookup_insert_ne hne] at hstatus
      rw [h.taskRow_ne hne, h.result?_ne fun e => hne (congrArg Prod.snd e)]
      exact hs.tasks _ _ h.before id' status' hstatus
  · have hne : id' ≠ id := by
      rintro rfl
      obtain ⟨name, hname⟩ := hs.named jobId job h.before id' h.known
      obtain ⟨name', hname'⟩ := hs.named jobId' job₁ hjob id'
        (AList.lookup_isSome.mp (by rw [hstatus]; rfl))
      exact hjobId (hinj (hname'.symm.trans hname)).1
    rw [h.taskRow_ne hne, h.result?_ne fun e => hne (congrArg Prod.snd e)]
    exact hs.tasks _ _ hjob id' status' hstatus

theorem stored_rows (h : Writes env s s' jobId id job job' status delivered store)
    (hs : Stored env s) {id' : Uuid} {row : TaskRow Uuid}
    (hrow : s'.master.store.tasks.lookup id' = some row) :
    ∃ job, s'.master.jobs.lookup row.jobId = some job ∧ id' ∈ job.tasks := by
  by_cases hne : id' = id
  · subst hne
    rw [h.taskRow_self] at hrow
    cases hrow
    exact ⟨job', h.after, h.mem_tasks.mpr h.known⟩
  · rw [h.taskRow_ne hne] at hrow
    obtain ⟨job₁, hjob₁, hmem⟩ := hs.rows id' row hrow
    by_cases hjobId : row.jobId = jobId
    · rw [hjobId] at hjob₁ ⊢
      cases h.before.symm.trans hjob₁
      exact ⟨job', h.after, h.mem_tasks.mpr hmem⟩
    · exact ⟨job₁, (h.others _ hjobId).trans hjob₁, hmem⟩

theorem stored_results (h : Writes env s s' jobId id job job' status delivered store)
    (hs : Stored env s) {jobId' : Uuid} {job₁ : JobState Uuid}
    (hjob : s'.master.jobs.lookup jobId' = some job₁) :
    job₁.results.Perm (s'.reported.filter fun r => r.jobId = jobId' ∧ r.status.isCompleted) := by
  rw [h.reported, List.filter_append]
  rcases h.cases_lookup hjob with ⟨rfl, rfl⟩ | ⟨hjobId, hjob⟩
  · have hnew : (delivered.filter fun r => r.status.isCompleted).toList =
        delivered.toList.filter fun r => r.jobId = jobId' ∧ r.status.isCompleted := by
      cases delivered with
      | none => rfl
      | some r =>
          have hkey := congrArg Prod.fst (h.delivers r rfl).1
          have hjobId : r.jobId = jobId' := hkey
          cases hdone : r.status.isCompleted <;> simp [hjobId, hdone]
    rw [h.results, hnew]
    exact (hs.results _ _ h.before).append_right _
  · have hnone : (delivered.toList.filter fun r => r.jobId = jobId' ∧ r.status.isCompleted) =
        [] := by
      cases delivered with
      | none => rfl
      | some r =>
          have hkey := congrArg Prod.fst (h.delivers r rfl).1
          have hne : ¬ r.jobId = jobId' := fun e => hjobId (e.symm.trans hkey)
          simp [hne]
    rw [hnone, List.append_nil]
    exact hs.results _ _ hjob

theorem stored_reported (h : Writes env s s' jobId id job job' status delivered store)
    (hs : Stored env s) {r : TaskResult Uuid} (hr : r ∈ s'.reported) :
    ∃ job, s'.master.jobs.lookup r.jobId = some job ∧
      (job.tasks.lookup r.taskId).map Master.normalize = some (Master.normalize r.status) := by
  rw [h.reported, List.mem_append] at hr
  rcases hr with hr | hr
  · obtain ⟨job₁, hjob₁, hstatus⟩ := hs.reported r hr
    by_cases hjobId : r.jobId = jobId
    · rw [hjobId] at hjob₁ ⊢
      cases h.before.symm.trans hjob₁
      have hne : r.taskId ≠ id := by
        rintro rfl
        exact h.unreported (hjobId ▸ List.mem_map_of_mem hr)
      refine ⟨job', h.after, ?_⟩
      rw [h.tasks, AList.lookup_insert_ne hne]
      exact hstatus
    · exact ⟨job₁, (h.others _ hjobId).trans hjob₁, hstatus⟩
  · rw [Option.mem_toList] at hr
    obtain ⟨hkey, hstatus⟩ := h.delivers r hr
    have hjobId : r.jobId = jobId := congrArg Prod.fst hkey
    have hid : r.taskId = id := congrArg Prod.snd hkey
    refine ⟨job', hjobId ▸ h.after, ?_⟩
    rw [h.tasks, hid, AList.lookup_insert, hstatus]
    rfl

theorem stored_done (h : Writes env s s' jobId id job job' status delivered store)
    (hs : Stored env s) {jobId' : Uuid} {job₁ : JobState Uuid}
    (hjob : s'.master.jobs.lookup jobId' = some job₁) {id' : Uuid}
    (hdone : job₁.tasks.lookup id' = some .completed) : (jobId', id') ∈ s'.reportedKeys := by
  rw [reportedKeys, h.reported, List.map_append, List.mem_append]
  rcases h.cases_lookup hjob with ⟨rfl, rfl⟩ | ⟨hjobId, hjob⟩
  · rw [h.tasks] at hdone
    by_cases hne : id' = id
    · subst hne
      rw [AList.lookup_insert] at hdone
      cases hdone
      obtain ⟨r, hr⟩ := Option.isSome_iff_exists.mp (h.completed rfl)
      right
      rw [hr, ← (h.delivers r hr).1]
      exact List.mem_singleton_self _
    · rw [AList.lookup_insert_ne hne] at hdone
      exact Or.inl (hs.done _ _ h.before id' hdone)
  · exact Or.inl (hs.done _ _ hjob id' hdone)

theorem stored_nodup (h : Writes env s s' jobId id job job' status delivered store)
    (hs : Stored env s) : s'.reportedKeys.Nodup := by
  rw [reportedKeys, h.reported, List.map_append]
  refine hs.nodup.append ?_ ?_
  · cases delivered <;> simp
  · intro key hkey hnew
    obtain ⟨r, hr, rfl⟩ := List.mem_map.mp hnew
    rw [Option.mem_toList] at hr
    rw [(h.delivers r hr).1] at hkey
    exact h.unreported hkey

/-- The database still determines the jobs after the write. -/
theorem stored (h : Writes env s s' jobId id job job' status delivered store)
    (hinj : Function.Injective2 env.newV5) (hs : Stored env s) : Stored env s' where
  healthy := h.writes.healthy
  jobs id' := by
    by_cases hne : id' = jobId
    · subst hne
      rw [h.writes.row, h.after]
      rfl
    · rw [h.jobRow_ne hne, h.others id' hne]
      exact hs.jobs id'
  tasks _ _ hjob _ _ hstatus := h.stored_tasks hinj hs hjob hstatus
  rows _ _ hrow := h.stored_rows hs hrow
  named _ _ hjob id' hmem := by
    rcases h.cases_lookup hjob with ⟨rfl, rfl⟩ | ⟨-, hjob⟩
    · exact hs.named _ _ h.before id' (h.mem_tasks.mp hmem)
    · exact hs.named _ _ hjob id' hmem
  results _ _ hjob := h.stored_results hs hjob
  reported _ hr := h.stored_reported hs hr
  done _ _ hjob _ hdone := h.stored_done hs hjob hdone
  nodup := h.stored_nodup hs

end Writes

namespace Stored

theorem jobRow_of (hs : Stored env s) {jobId : Uuid} {job : JobState Uuid}
    (hjob : s.master.jobs.lookup jobId = some job) :
    s.master.store.jobs.lookup jobId = some (jobRow env.serde job) := by
  rw [hs.jobs, hjob]
  rfl

theorem task_of_known (hs : Stored env s) {jobId id : Uuid} {job : JobState Uuid}
    (hjob : s.master.jobs.lookup jobId = some job) (hid : id ∈ job.tasks)
    (hnew : (jobId, id) ∉ s.reportedKeys) : ∃ status, s.master.store.tasks.lookup id =
      some (taskRow env.serde jobId status none) := by
  obtain ⟨status, hstatus⟩ := Option.isSome_iff_exists.mp (AList.lookup_isSome.mpr hid)
  have hrow := hs.tasks jobId job hjob id status hstatus
  rw [result?_none hnew] at hrow
  exact ⟨status, hrow⟩

/-- An assigned task is assigned in memory and in the database. -/
theorem assign (hs : Stored env s) (hinj : Function.Injective2 env.newV5) {task : Task Uuid}
    {job : JobState Uuid} (hjob : s.master.jobs.lookup task.jobId = some job)
    (hid : task.taskId ∈ job.tasks) (hnew : task.key ∉ s.reportedKeys) (worker : Uuid) :
    Stored env { s with master :=
      ((s.master.assignTask task worker).persistAssignment env task worker).markRunning env task } := by
  obtain ⟨status, hrow⟩ := hs.task_of_known hjob hid hnew
  have hjobRow := hs.jobRow_of hjob
  have hadmits : s.master.store.admitsTask task.taskId task.jobId :=
    StateStore.admitsTask_of_job (by rw [hjobRow]; rfl)
  have hwrite := StateStore.persistTaskStatus_healthy env.serde hs.healthy hadmits (.assigned worker)
  have hassign : ((s.master.assignTask task worker).persistAssignment env task worker).jobs.lookup
      task.jobId = some { job with tasks := job.tasks.insert task.taskId (.assigned worker) } := by
    have hlookup := Master.assignTask_lookup_self (m := s.master) task worker
    rw [hjob, Option.map_some] at hlookup
    exact hlookup
  have hmark := Master.markRunning_lookup_self env
    ((s.master.assignTask task worker).persistAssignment env task worker) task
  have hstore : ((s.master.assignTask task worker).persistAssignment env task worker).store =
      (s.master.store.persistTaskStatus env.serde task.taskId task.jobId (.assigned worker)).2 := rfl
  rw [hrow] at hwrite
  rw [hwrite] at hstore
  have hwrites : Writes env s
      { s with master :=
        ((s.master.assignTask task worker).persistAssignment env task worker).markRunning env task }
      task.jobId task.taskId job
      { job with tasks := job.tasks.insert task.taskId (.assigned worker), status := .running }
      (.assigned worker) none
      ((s.master.assignTask task worker).persistAssignment env task worker).store :=
    { before := hjob
      after := hmark.trans (congrArg (Option.map fun job => { job with status := .running }) hassign)
      others := fun id' hne =>
        (Master.markRunning_lookup_ne hne).trans (Master.assignTask_lookup_ne worker hne)
      known := hid
      unreported := hnew
      tasks := rfl
      results := (List.append_nil _).symm
      reported := (List.append_nil _).symm
      delivers := fun r hr => by cases hr
      completed := fun h => by cases h
      taskRows := by
        rw [hstore]
        rfl
      jobRows := by rw [hstore]
      writes := by
        refine Master.writesJob_markRunning ?_ hassign ?_
        · rw [hstore]
          exact hs.healthy
        · rw [hstore]
          exact hjobRow }
  exact hwrites.stored hinj hs

/-- A change that touches neither jobs nor rows of jobs and tasks. -/
theorem of_same (hs : Stored env s) {m : Master Uuid} (hjobs : m.jobs = s.master.jobs)
    (hhealthy : m.store.faults = []) (hjobRows : m.store.jobs = s.master.store.jobs)
    (htaskRows : m.store.tasks = s.master.store.tasks) : Stored env { s with master := m } := by
  obtain ⟨registry, scheduler, jobs, store⟩ := m
  obtain ⟨storeJobs, storeTasks, jobStatus, workerMetrics, faults⟩ := store
  cases hjobs
  cases hjobRows
  cases htaskRows
  exact ⟨hhealthy, hs.jobs, hs.tasks, hs.rows, hs.named, hs.results, hs.reported, hs.done, hs.nodup⟩

/-- A scheduled task is assigned, or no worker is found. -/
theorem schedule (hs : Stored env s) (hinj : Function.Injective2 env.newV5) {task : Task Uuid}
    {job : JobState Uuid} (hjob : s.master.jobs.lookup task.jobId = some job)
    (hid : task.taskId ∈ job.tasks) (hnew : task.key ∉ s.reportedKeys) :
    Stored env { s with master := (s.master.scheduleTask env task).2 } := by
  rcases Master.scheduleTask_cases env s.master task with ⟨scheduler, hsched⟩ |
    ⟨worker, scheduler, hsched⟩
  · rw [hsched]
    exact hs.of_same rfl hs.healthy rfl rfl
  · have hs' : Stored env { s with master := { s.master with scheduler } } :=
      hs.of_same rfl hs.healthy rfl rfl
    rw [hsched]
    exact hs'.assign hinj hjob hid hnew worker

/-- A report is recorded in memory and in the database. -/
theorem complete (hs : Stored env s) (hinj : Function.Injective2 env.newV5)
    {result : TaskResult Uuid} {job : JobState Uuid}
    (hjob : s.master.jobs.lookup result.jobId = some job) (hid : result.taskId ∈ job.tasks)
    (hnew : result.key ∉ s.reportedKeys) :
    Stored env ⟨(s.master.completeTask env result).2, s.reported ++ [result]⟩ := by
  obtain ⟨status, hrow⟩ := hs.task_of_known hjob hid hnew
  have hjobRow := hs.jobRow_of hjob
  have hadmits : s.master.store.admitsTask result.taskId result.jobId :=
    StateStore.admitsTask_of_job (by rw [hjobRow]; rfl)
  have hlookup := Master.completeTask_lookup_self env hjob
  rw [if_pos (StateStore.accepts_healthy hs.healthy hadmits)] at hlookup
  have hwrite := StateStore.persistTaskResult_healthy env.serde hs.healthy hadmits
  rw [hrow] at hwrite
  have hstore : (s.master.completeTask env result).2.store =
      Master.persistOutcome env result.jobId (job.record result) result
        (s.master.store.persistTaskResult env.serde result).2 := by
    unfold Master.completeTask
    rw [hjob]
    dsimp only
    rw [hwrite]
  have hhealthy : (s.master.store.persistTaskResult env.serde result).2.faults = [] := by
    rw [hwrite]
    exact hs.healthy
  have hwrites : Writes env s
      ⟨(s.master.completeTask env result).2, s.reported ++ [result]⟩ result.jobId result.taskId job
      (job.record result) result.status (some result)
      (s.master.store.persistTaskResult env.serde result).2 :=
    { before := hjob
      after := hlookup
      others := fun id' hne => Master.completeTask_lookup_ne hne
      known := hid
      unreported := hnew
      tasks := JobState.record_tasks job result
      results := by
        rw [JobState.record_results]
        cases hdone : result.status.isCompleted <;> simp [Option.filter, hdone]
      reported := rfl
      delivers := fun r hr => by
        cases hr
        exact ⟨rfl, rfl⟩
      completed := fun _ => rfl
      taskRows := by
        rw [hwrite]
        rfl
      jobRows := by rw [hwrite]
      writes := by
        rw [hstore]
        refine Master.writesJob_persistOutcome hhealthy ?_
        rw [hwrite]
        exact hjobRow }
  exact hwrites.stored hinj hs

/-- The rows of a submitted job are those of its queued tasks. -/
theorem lookup_queueRows (env : MasterEnv Uuid) (jobId : Uuid) {tasks : List (Task Uuid)}
    {rows : HashMap Uuid (TaskRow Uuid)}
    (hnew : ∀ id ∈ tasks.map Task.taskId, StateStore.taskRowWithStatus (rows.lookup id) jobId
      (env.serde.taskStatus .queued) = taskRow env.serde jobId .queued none) (id : Uuid) :
    (queueRows env jobId tasks rows).lookup id =
      if id ∈ tasks.map Task.taskId then some (taskRow env.serde jobId .queued none)
      else rows.lookup id := by
  induction tasks generalizing rows with
  | nil => rfl
  | cons task tasks ih =>
      have hhead := hnew task.taskId List.mem_cons_self
      have hnew' : ∀ id ∈ tasks.map Task.taskId, StateStore.taskRowWithStatus
          ((rows.insert task.taskId (taskRow env.serde jobId .queued none)).lookup id) jobId
            (env.serde.taskStatus .queued) = taskRow env.serde jobId .queued none := by
        intro id hid
        by_cases hne : id = task.taskId
        · subst hne
          rw [AList.lookup_insert]
          rfl
        · rw [AList.lookup_insert_ne hne]
          exact hnew id (List.mem_cons_of_mem _ hid)
      have hcons : queueRows env jobId (task :: tasks) rows =
          queueRows env jobId tasks (rows.insert task.taskId
            (taskRow env.serde jobId .queued none)) := by
        rw [← hhead]
        rfl
      rw [hcons, ih hnew', List.map_cons]
      by_cases hmem : id ∈ tasks.map Task.taskId
      · rw [if_pos hmem, if_pos (List.mem_cons_of_mem _ hmem)]
      · rw [if_neg hmem]
        by_cases hne : id = task.taskId
        · subst hne
          rw [AList.lookup_insert, if_pos List.mem_cons_self]
        · rw [AList.lookup_insert_ne hne, if_neg (by simp [hne, hmem])]

/-- Nothing was reported of a job that is not known. -/
theorem unreported_of_unknown (hs : Stored env s) {jobId : Uuid}
    (hunknown : s.master.jobs.lookup jobId = none) (id : Uuid) : (jobId, id) ∉ s.reportedKeys := by
  intro hmem
  obtain ⟨r, hr, hkey⟩ := List.mem_map.mp hmem
  have hjobId : r.jobId = jobId := congrArg Prod.fst hkey
  obtain ⟨job, hjob, -⟩ := hs.reported r hr
  rw [hjobId, hunknown] at hjob
  cases hjob

/-- The tasks of a job that is not known have no row. -/
theorem row_of_unknown (hs : Stored env s) (hinj : Function.Injective2 env.newV5) {jobId : Uuid}
    (hunknown : s.master.jobs.lookup jobId = none) {id : Uuid} {name : String}
    (hname : id = env.newV5 jobId name) : s.master.store.tasks.lookup id = none := by
  rw [Option.eq_none_iff_forall_ne_some]
  intro row hrow
  obtain ⟨job, hjob, hknown⟩ := hs.rows id row hrow
  obtain ⟨name', hname'⟩ := hs.named _ job hjob id hknown
  rw [(hinj (hname'.symm.trans hname)).1, hunknown] at hjob
  cases hjob

/-- The rows of the tasks after a submission. -/
theorem lookup_submitted (hs : Stored env s) (hinj : Function.Injective2 env.newV5) {jobId : Uuid}
    (hunknown : s.master.jobs.lookup jobId = none) (order : HashOrder String)
    (dag : DagSpecification) (id : Uuid) :
    (queueRows env jobId (dag.materializeTasks env.newV5 order jobId)
      s.master.store.tasks).lookup id =
        if id ∈ (dag.materializeTasks env.newV5 order jobId).map Task.taskId then
          some (taskRow env.serde jobId .queued none)
        else s.master.store.tasks.lookup id := by
  refine lookup_queueRows env jobId (fun id hmem => ?_) id
  obtain ⟨name, hname⟩ := DagSpecification.materializeTasks_named _ hmem
  rw [hs.row_of_unknown hinj hunknown hname]
  rfl

/-- A submitted job is new in memory and in the database. -/
theorem submit (hs : Stored env s) (hinj : Function.Injective2 env.newV5) {jobId : Uuid}
    (hfresh : s.master.fresh jobId) {dag : DagSpecification} (hvalid : dag.validate = .ok ())
    (order stagesOrder : HashOrder String) :
    Stored env { s with master := (s.master.submitJob env order stagesOrder dag jobId).2 } := by
  have hunknown := Master.lookup_of_fresh hfresh
  obtain ⟨jobStatus, hsubmit⟩ := submitJob_healthy hs.healthy order stagesOrder hvalid jobId
  have hrows := hs.lookup_submitted hinj hunknown order dag
  have hnone := hs.unreported_of_unknown hunknown
  have hother : ∀ {id : Uuid} {job : JobState Uuid}, s.master.jobs.lookup id = some job →
      id ≠ jobId := by
    rintro id job hjob rfl
    rw [hunknown] at hjob
    cases hjob
  have hlookup := Master.submittedJob_lookup dag stagesOrder
    (dag.materializeTasks env.newV5 order jobId)
  have hmem := Master.mem_submittedJob dag stagesOrder
    (dag.materializeTasks env.newV5 order jobId)
  rw [hsubmit]
  refine
    { healthy := hs.healthy
      jobs := fun id => ?_
      tasks := fun id job hjob taskId status hstatus => ?_
      rows := fun taskId row hrow => ?_
      named := fun id job hjob taskId hmem' => ?_
      results := fun id job hjob => ?_
      reported := fun r hr => ?_
      done := fun id job hjob taskId hdone => ?_
      nodup := hs.nodup }
  · show (AList.lookup id (AList.insert jobId _ s.master.store.jobs)) =
      (AList.lookup id (AList.insert jobId _ s.master.jobs)).map _
    by_cases hne : id = jobId
    · subst hne
      rw [AList.lookup_insert, AList.lookup_insert]
      rfl
    · rw [AList.lookup_insert_ne hne, AList.lookup_insert_ne hne]
      exact hs.jobs id
  · show (queueRows env jobId _ s.master.store.tasks).lookup taskId = _
    rw [hrows]
    rcases HashMap.cases_lookup_insert hjob with ⟨rfl, rfl⟩ | ⟨hne, hjob⟩
    · rw [hlookup] at hstatus
      split_ifs at hstatus with hknown
      cases hstatus
      rw [if_pos hknown]
      exact congrArg (fun r => some (taskRow env.serde id _ r)) (result?_none (hnone taskId)).symm
    · have hrow := hs.tasks id job hjob taskId status hstatus
      rw [if_neg]
      · exact hrow
      · intro hknown
        obtain ⟨name, hname⟩ := DagSpecification.materializeTasks_named _ hknown
        rw [hs.row_of_unknown hinj hunknown hname] at hrow
        cases hrow
  · have hrow : (queueRows env jobId _ s.master.store.tasks).lookup taskId = some row := hrow
    rw [hrows] at hrow
    split_ifs at hrow with hknown
    · cases hrow
      exact ⟨_, AList.lookup_insert _, (hmem taskId).mpr hknown⟩
    · obtain ⟨job, hjob, hknown⟩ := hs.rows taskId row hrow
      exact ⟨job, (AList.lookup_insert_ne (hother hjob)).trans hjob, hknown⟩
  · rcases HashMap.cases_lookup_insert hjob with ⟨rfl, rfl⟩ | ⟨-, hjob⟩
    · exact DagSpecification.materializeTasks_named _ ((hmem taskId).mp hmem')
    · exact hs.named id job hjob taskId hmem'
  · rcases HashMap.cases_lookup_insert hjob with ⟨rfl, rfl⟩ | ⟨-, hjob⟩
    · rw [List.filter_eq_nil_iff.mpr]
      · exact .refl _
      · intro r hr hkey
        rw [decide_eq_true_eq] at hkey
        exact hnone r.taskId (hkey.1 ▸ List.mem_map_of_mem hr)
    · exact hs.results id job hjob
  · obtain ⟨job, hjob, hstatus⟩ := hs.reported r hr
    exact ⟨job, (AList.lookup_insert_ne (hother hjob)).trans hjob, hstatus⟩
  · rcases HashMap.cases_lookup_insert hjob with ⟨rfl, rfl⟩ | ⟨-, hjob⟩
    · rw [hlookup] at hdone
      split_ifs at hdone
      cases hdone
    · exact hs.done id job hjob taskId hdone

/-- Every operation that runs to its end keeps memory and database in step. -/
theorem step (hs : Stored env s) (hinj : Function.Injective2 env.newV5) {op : Op Uuid}
    (hop : Unreported s op) (hstep : s.step env op = some s') : Stored env s' := by
  cases op with
  | submit jobId dag order stagesOrder =>
      simp only [Session.step] at hstep
      split_ifs at hstep with hfresh
      cases hstep
      cases hvalid : dag.validate with
      | error message =>
          refine hs.of_same ?_ ?_ ?_ ?_ <;> rw [Master.submitJob, hvalid]
          exact hs.healthy
      | ok => exact hs.submit hinj hfresh hvalid order stagesOrder
  | schedule task =>
      cases hstep
      obtain ⟨⟨job, hjob, hid⟩, hnew⟩ := hop
      exact hs.schedule hinj hjob hid hnew
  | complete result =>
      cases hstep
      cases hjob : s.master.jobs.lookup result.jobId with
      | none =>
          rw [Master.completeTask_unknown hjob]
          exact hs
      | some job =>
          obtain ⟨hid, hnew⟩ := hop job hjob
          exact hs.complete hinj hjob hid hnew
  | heartbeat message now =>
      cases hstep
      obtain ⟨workerMetrics, hwrite⟩ := StateStore.persistWorkerMetrics_healthy env.serde hs.healthy
        message.workerId .active message.metrics now
      refine hs.of_same rfl ?_ ?_ ?_ <;> rw [Master.handleHeartbeat, hwrite]
      exact hs.healthy
  | select | register _ | collect _ =>
      cases hstep
      exact hs.of_same rfl hs.healthy rfl rfl
  | assign _ _ | persistAssignment _ _ | markRunning _ => cases hop

end Stored
end Session
end ProcessingEngine

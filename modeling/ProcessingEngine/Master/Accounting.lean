import ProcessingEngine.Master.Session
import ProcessingEngine.Master.System

/-!
# The books of a job

When every task is reported at most once, and none is scheduled after its
report, the counters, the results and the status of a job agree with its map of
tasks.
-/

namespace ProcessingEngine

open Lib

variable {Uuid : Type} [DecidableEq Uuid]

/-- The status that a report ends a task with. -/
def TaskStatus.isEnded {Uuid : Type} (status : TaskStatus Uuid) : Bool :=
  status.isCompleted || status.isFailed

theorem TaskStatus.cases_isEnded {Uuid : Type} {status : TaskStatus Uuid} (h : status.isEnded) :
    status = .completed ∨ ∃ message, status = .failed message := by
  cases status with
  | completed => exact Or.inl rfl
  | failed message => exact Or.inr ⟨message, rfl⟩
  | _ => cases h

namespace JobState

/-- Counters that agree with the tasks still do so after the first report of one. -/
theorem counts_record {job : JobState Uuid} {result : TaskResult Uuid} {status : TaskStatus Uuid}
    (hcompleted : job.metrics.completedTasks = job.tasks.values.countP TaskStatus.isCompleted)
    (hfailed : job.metrics.failedTasks = job.tasks.values.countP TaskStatus.isFailed)
    (hstatus : job.tasks.lookup result.taskId = some status) (hopen : status.isEnded = false) :
    (job.record result).metrics.completedTasks =
        (job.record result).tasks.values.countP TaskStatus.isCompleted ∧
      (job.record result).metrics.failedTasks =
        (job.record result).tasks.values.countP TaskStatus.isFailed := by
  obtain ⟨-, hcompletedNow, hfailedNow, -⟩ := record_counters job result
  obtain ⟨hopenC, hopenF⟩ := Bool.or_eq_false_iff.mp hopen
  have hcountC := HashMap.countP_values_insert (w := result.status) TaskStatus.isCompleted hstatus
  have hcountF := HashMap.countP_values_insert (w := result.status) TaskStatus.isFailed hstatus
  rw [hopenC, if_neg Bool.false_ne_true, ← record_tasks, Nat.add_zero] at hcountC
  rw [hopenF, if_neg Bool.false_ne_true, ← record_tasks, Nat.add_zero] at hcountF
  constructor
  · rw [hcompletedNow, hcompleted, hcountC]
  · rw [hfailedNow, hfailed, hcountF]

/-- The books of a job agree with its tasks, whose ids are `ids`. -/
structure Accounting (ids : List Uuid) (job : JobState Uuid) : Prop where
  keys : job.tasks.keys.Perm ids
  total : job.metrics.totalTasks = ids.length
  completed : job.metrics.completedTasks = job.tasks.values.countP TaskStatus.isCompleted
  failed : job.metrics.failedTasks = job.tasks.values.countP TaskStatus.isFailed
  pending : job.metrics.pendingTasks + job.metrics.completedTasks + job.metrics.failedTasks =
    ids.length
  nodup : (job.results.map TaskResult.taskId).Nodup
  results : ∀ id, id ∈ job.results.map TaskResult.taskId ↔ job.tasks.lookup id = some .completed
  status : job.status = .succeeded ↔ ∀ id ∈ ids, job.tasks.lookup id = some .completed

variable {ids : List Uuid} {job : JobState Uuid}

omit [DecidableEq Uuid] in
/-- No task is counted twice. -/
theorem count_ended_le (tasks : HashMap Uuid (TaskStatus Uuid)) :
    tasks.values.countP TaskStatus.isCompleted + tasks.values.countP TaskStatus.isFailed ≤
      tasks.keys.length := by
  rw [← HashMap.length_values]
  induction tasks.values with
  | nil => exact Nat.le_refl 0
  | cons status rest ih =>
      have hstatus : (if status.isCompleted = true then 1 else 0) +
          (if status.isFailed = true then 1 else 0) ≤ 1 := by
        cases status <;> simp [TaskStatus.isCompleted, TaskStatus.isFailed]
      simp only [List.countP_cons, List.length_cons]
      omega

theorem keys_insert_perm {tasks : HashMap Uuid (TaskStatus Uuid)} (h : tasks.keys.Perm ids)
    {id : Uuid} (hid : id ∈ ids) (status : TaskStatus Uuid) :
    (tasks.insert id status).keys.Perm ids := by
  rw [AList.keys_insert]
  exact (List.perm_cons_erase (h.mem_iff.mpr hid)).symm.trans h

/-- A task that is assigned has not ended. -/
theorem lookup_assigned {tasks : HashMap Uuid (TaskStatus Uuid)} {id id' worker : Uuid}
    {status : TaskStatus Uuid} (h : (tasks.insert id (.assigned worker)).lookup id' = some status)
    (hended : status.isEnded) : tasks.lookup id' = some status := by
  by_cases hne : id' = id
  · subst hne
    rw [AList.lookup_insert] at h
    cases h
    cases hended
  · rw [AList.lookup_insert_ne hne] at h
    exact h

namespace Accounting

theorem lookup_isSome (h : job.Accounting ids) {id : Uuid} (hid : id ∈ ids) :
    ∃ status, job.tasks.lookup id = some status :=
  Option.isSome_iff_exists.mp
    (AList.lookup_isSome.mpr (AList.mem_keys.mpr (h.keys.mem_iff.mpr hid)))

/-- A job with an open task has not succeeded. -/
theorem not_succeeded (h : job.Accounting ids) {id : Uuid} (hid : id ∈ ids)
    {status : TaskStatus Uuid} (hstatus : job.tasks.lookup id = some status)
    (hopen : status.isEnded = false) : job.status ≠ .succeeded := by
  intro hsucceeded
  have hdone := h.status.mp hsucceeded id hid
  rw [hstatus] at hdone
  cases hdone
  cases hopen

/-- Handing out an open task changes no number. -/
theorem assign (h : job.Accounting ids) {id : Uuid} (hid : id ∈ ids) {status : TaskStatus Uuid}
    (hstatus : job.tasks.lookup id = some status) (hopen : status.isEnded = false)
    (worker : Uuid) :
    { job with tasks := job.tasks.insert id (.assigned worker) }.Accounting ids := by
  have hnot := h.not_succeeded hid hstatus hopen
  rw [TaskStatus.isEnded, Bool.or_eq_false_iff] at hopen
  have hcompleted := HashMap.countP_values_insert (w := .assigned worker) TaskStatus.isCompleted
    hstatus
  have hfailed := HashMap.countP_values_insert (w := .assigned worker) TaskStatus.isFailed hstatus
  rw [hopen.1] at hcompleted
  rw [hopen.2] at hfailed
  refine ⟨keys_insert_perm h.keys hid _, h.total, h.completed.trans hcompleted.symm,
    h.failed.trans hfailed.symm, h.pending, h.nodup, fun id' => ?_, ?_⟩
  · show id' ∈ job.results.map TaskResult.taskId ↔ _
    rw [h.results]
    by_cases hne : id' = id
    · subst hne
      rw [AList.lookup_insert, hstatus]
      refine iff_of_false (fun heq => ?_) (by simp)
      cases heq
      cases hopen.1
    · rw [AList.lookup_insert_ne hne]
  · refine iff_of_false hnot fun hall => ?_
    have hlookup := hall id hid
    rw [AList.lookup_insert] at hlookup
    cases hlookup

/-- A job with an open task can be set running. -/
theorem running (h : job.Accounting ids) {id : Uuid} (hid : id ∈ ids) {status : TaskStatus Uuid}
    (hstatus : job.tasks.lookup id = some status) (hopen : status.isEnded = false) :
    { job with status := .running }.Accounting ids := by
  have hnot := h.not_succeeded hid hstatus hopen
  refine ⟨h.keys, h.total, h.completed, h.failed, h.pending, h.nodup, h.results, ?_⟩
  refine iff_of_false (by simp) fun hall => ?_
  exact hnot (h.status.mpr hall)

/-- The last report of a job is the one after which nothing is pending. -/
theorem pending_eq_false_iff {tasks : HashMap Uuid (TaskStatus Uuid)} (h : tasks.keys.Perm ids) :
    { job with tasks }.pending = false ↔ ∀ id ∈ ids, tasks.lookup id = some .completed := by
  rw [pending_iff]
  constructor
  · intro hall id hid
    obtain ⟨status, hstatus⟩ := Option.isSome_iff_exists.mp
      (AList.lookup_isSome.mpr (AList.mem_keys.mpr (h.mem_iff.mpr hid)))
    rw [hstatus, hall id status hstatus]
  · intro hall id status hstatus
    have hid : id ∈ ids := h.mem_iff.mp (AList.mem_keys.mp (AList.lookup_isSome.mp (by
      rw [show tasks.lookup id = some status from hstatus]
      rfl)))
    have hdone : tasks.lookup id = some status := hstatus
    rw [hall id hid] at hdone
    exact (Option.some.inj hdone).symm

section

variable {result : TaskResult Uuid} {status : TaskStatus Uuid}

/-- After the first report of a task there is a result for each completed task. -/
theorem results_record (h : job.Accounting ids)
    (hstatus : job.tasks.lookup result.taskId = some status) (hopen : status.isEnded = false) :
    ((job.record result).results.map TaskResult.taskId).Nodup ∧
      ∀ id, id ∈ (job.record result).results.map TaskResult.taskId ↔
        (job.record result).tasks.lookup id = some .completed := by
  have hnew : result.taskId ∉ job.results.map TaskResult.taskId := by
    intro hmem
    rw [h.results, hstatus] at hmem
    cases hmem
    cases hopen
  rw [record_results, record_tasks]
  constructor
  · split_ifs
    · rw [List.map_append, List.map_singleton]
      exact h.nodup.append (List.nodup_singleton _) (List.disjoint_singleton.mpr hnew)
    · exact h.nodup
  · intro id
    by_cases hne : id = result.taskId
    · subst hne
      rw [AList.lookup_insert]
      split_ifs with hdone
      · refine iff_of_true (by simp) ?_
        cases hres : result.status <;> first | rfl | (rw [hres] at hdone; cases hdone)
      · refine iff_of_false hnew fun heq => ?_
        rw [Option.some.injEq] at heq
        rw [heq] at hdone
        exact hdone rfl
    · rw [AList.lookup_insert_ne hne, ← h.results]
      split_ifs
      · simp [hne]
      · rfl

/-- The report that leaves nothing pending ends the job with success. -/
theorem status_record (h : job.Accounting ids) (hid : result.taskId ∈ ids)
    (hnot : job.status ≠ .succeeded) (hended : result.status.isEnded) :
    (job.record result).status = .succeeded ↔
      ∀ id ∈ ids, (job.record result).tasks.lookup id = some .completed := by
  have hlast : (job.recordStatus result).pending = false ↔ _ :=
    pending_eq_false_iff (keys_insert_perm h.keys hid result.status)
  rw [record_status, record_tasks]
  rcases TaskStatus.cases_isEnded hended with hres | ⟨message, hres⟩
  · rw [hres] at hlast ⊢
    rw [← hlast]
    dsimp only
    split_ifs with hpend
    · exact iff_of_false hnot (by simp [hpend])
    · exact iff_of_true rfl (by simpa using hpend)
  · rw [hres]
    refine iff_of_false (by simp) fun hall => ?_
    have hself := hall result.taskId hid
    rw [AList.lookup_insert] at hself
    cases hself

/-- The first report of a task moves every book by the same amount. -/
theorem record (h : job.Accounting ids) (hid : result.taskId ∈ ids)
    (hstatus : job.tasks.lookup result.taskId = some status) (hopen : status.isEnded = false)
    (hended : result.status.isEnded) : (job.record result).Accounting ids := by
  have hkeys : (job.record result).tasks.keys.Perm ids := by
    rw [record_tasks]
    exact keys_insert_perm h.keys hid _
  have hle := count_ended_le (job.record result).tasks
  obtain ⟨htotal, -, -, hpending⟩ := record_counters job result
  obtain ⟨hcompleted, hfailed⟩ := counts_record h.completed h.failed hstatus hopen
  rw [← TaskStatus.isEnded, if_pos hended] at hpending
  rw [hkeys.length_eq] at hle
  have hT := h.total
  obtain ⟨hnodup, hresults⟩ := h.results_record hstatus hopen
  exact
    { keys := hkeys
      total := htotal.trans hT
      completed := hcompleted
      failed := hfailed
      pending := by omega
      nodup := hnodup
      results := hresults
      status := h.status_record hid (h.not_succeeded hid hstatus hopen) hended }

end

end Accounting

section

variable (dag : DagSpecification) (order : HashOrder String) {tasks : List (Task Uuid)}

theorem keys_submittedJob (hnodup : (tasks.map Task.taskId).Nodup) :
    (Master.submittedJob dag order tasks).tasks.keys.Perm (tasks.map Task.taskId) := by
  refine (List.perm_ext_iff_of_nodup (AList.keys_nodup _) hnodup).mpr fun id => ?_
  rw [← AList.mem_keys, ← AList.lookup_isSome, Master.submittedJob_lookup]
  split_ifs with hmem <;> simp [hmem]

/-- The tasks of a new job are queued. -/
theorem countP_submittedJob {p : TaskStatus Uuid → Bool} (hp : p .queued = false) :
    (Master.submittedJob dag order tasks).tasks.values.countP p = 0 := by
  rw [List.countP_eq_zero]
  intro status hstatus
  obtain ⟨id, hid⟩ := HashMap.mem_values_iff_lookup.mp hstatus
  rw [Master.submittedJob_lookup] at hid
  split_ifs at hid
  rw [← Option.some.inj hid, hp]
  exact Bool.false_ne_true

theorem accounting_submittedJob (hnodup : (tasks.map Task.taskId).Nodup) (hne : tasks ≠ []) :
    (Master.submittedJob dag order tasks).Accounting (tasks.map Task.taskId) := by
  have hlookup := Master.submittedJob_lookup dag order tasks
  refine ⟨keys_submittedJob dag order hnodup, (List.length_map _).symm,
    (countP_submittedJob dag order rfl).symm, (countP_submittedJob dag order rfl).symm,
    (List.length_map _).symm, List.nodup_nil, fun id => ?_, ?_⟩
  · refine iff_of_false List.not_mem_nil fun heq => ?_
    rw [hlookup] at heq
    split_ifs at heq
    cases heq
  · have hstart : (Master.submittedJob dag order tasks).status = .accepted := rfl
    refine iff_of_false (by simp [hstart]) fun hall => ?_
    obtain ⟨task, htask⟩ := List.exists_mem_of_ne_nil _ hne
    have hself := hall _ (List.mem_map_of_mem htask)
    rw [hlookup] at hself
    split_ifs at hself
    cases hself

end

end JobState

namespace Session

/-- What is done to the tasks `ids` of the job `jobId`: a task is scheduled
before its report, and reported once. -/
def ReportsOnce (jobId : Uuid) (ids : List Uuid) (s : Session Uuid) : Op Uuid → Prop
  | .schedule task => task.jobId = jobId → task.taskId ∈ ids ∧ task.key ∉ s.reportedKeys
  | .assign task _ => task.jobId = jobId → task.taskId ∈ ids ∧ task.key ∉ s.reportedKeys
  | .markRunning task => task.jobId = jobId → task.taskId ∈ ids ∧ task.key ∉ s.reportedKeys
  | .complete result =>
      result.jobId = jobId →
        result.taskId ∈ ids ∧ result.key ∉ s.reportedKeys ∧ result.status.isEnded
  | _ => True

instance decidableReportsOnce (jobId : Uuid) (ids : List Uuid) (s : Session Uuid) :
    ∀ op, Decidable (ReportsOnce jobId ids s op)
  | .schedule task =>
      inferInstanceAs
        (Decidable (task.jobId = jobId → task.taskId ∈ ids ∧ task.key ∉ s.reportedKeys))
  | .assign task _ =>
      inferInstanceAs
        (Decidable (task.jobId = jobId → task.taskId ∈ ids ∧ task.key ∉ s.reportedKeys))
  | .markRunning task =>
      inferInstanceAs
        (Decidable (task.jobId = jobId → task.taskId ∈ ids ∧ task.key ∉ s.reportedKeys))
  | .complete result =>
      inferInstanceAs (Decidable (result.jobId = jobId →
        result.taskId ∈ ids ∧ result.key ∉ s.reportedKeys ∧ result.status.isEnded))
  | .submit _ _ _ _ | .select | .persistAssignment _ _ | .register _ | .heartbeat _ _
  | .collect _ => isTrue trivial

/-- The row of a result of the job is accepted. -/
def ReportsAccepted (jobId : Uuid) (s : Session Uuid) : Op Uuid → Prop
  | .complete result =>
      result.jobId = jobId → s.master.store.accepts result.taskId result.jobId = true
  | _ => True

instance decidableReportsAccepted (jobId : Uuid) (s : Session Uuid) :
    ∀ op, Decidable (ReportsAccepted jobId s op)
  | .complete result =>
      inferInstanceAs (Decidable (result.jobId = jobId →
        s.master.store.accepts result.taskId result.jobId = true))
  | .submit _ _ _ _ | .schedule _ | .select | .assign _ _ | .persistAssignment _ _
  | .markRunning _ | .register _ | .heartbeat _ _ | .collect _ => isTrue trivial

/-- A job whose books agree, and whose unreported tasks are open. -/
structure Booked (jobId : Uuid) (ids : List Uuid) (s : Session Uuid) (job : JobState Uuid) :
    Prop where
  lookup : s.master.jobs.lookup jobId = some job
  accounting : job.Accounting ids
  unreported : ∀ id status, job.tasks.lookup id = some status → (jobId, id) ∉ s.reportedKeys →
    status.isEnded = false

/-- A booked job that is stored in a database without faults. -/
structure Accounted (jobId : Uuid) (ids : List Uuid) (s : Session Uuid) (job : JobState Uuid) :
    Prop extends Booked jobId ids s job where
  healthy : s.master.store.faults = []
  row : (s.master.store.jobs.lookup jobId).isSome

variable {env : MasterEnv Uuid} {s s' : Session Uuid} {jobId : Uuid} {ids : List Uuid}
  {job : JobState Uuid}

theorem reported_subset {op : Op Uuid} (hstep : s.step env op = some s') :
    s.reportedKeys ⊆ s'.reportedKeys := by
  cases op with
  | submit jobId dag order stagesOrder =>
      simp only [step] at hstep
      split_ifs at hstep
      cases hstep
      exact List.Subset.refl _
  | complete result =>
      cases hstep
      refine List.map_subset _ ?_
      show s.reported ⊆ if (s.master.jobs.lookup result.jobId).isSome then _ else _
      split_ifs
      · exact List.subset_append_left _ _
      · exact List.Subset.refl _
  | _ =>
      cases hstep
      exact List.Subset.refl _

namespace Booked

theorem open_of_unreported (h : Booked jobId ids s job) {id : Uuid} (hid : id ∈ ids)
    (hnew : (jobId, id) ∉ s.reportedKeys) :
    ∃ status, job.tasks.lookup id = some status ∧ status.isEnded = false := by
  obtain ⟨status, hstatus⟩ := h.accounting.lookup_isSome hid
  exact ⟨status, hstatus, h.unreported id status hstatus hnew⟩

/-- An operation that does not touch the job. -/
theorem step_same (h : Booked jobId ids s job) {op : Op Uuid} (hstep : s.step env op = some s')
    (hjob : s'.master.jobs.lookup jobId = s.master.jobs.lookup jobId) :
    Booked jobId ids s' job where
  lookup := hjob.trans h.lookup
  accounting := h.accounting
  unreported id status hstatus hnew := h.unreported id status hstatus fun hold =>
    hnew (reported_subset hstep hold)

/-- An operation that ends no task. -/
theorem step_open (h : Booked jobId ids s job) {op : Op Uuid} (hstep : s.step env op = some s')
    {job' : JobState Uuid} (hjob' : s'.master.jobs.lookup jobId = some job')
    (hended : ∀ id status, job'.tasks.lookup id = some status → status.isEnded →
      job.tasks.lookup id = some status)
    (haccounting : job'.Accounting ids) : Booked jobId ids s' job' where
  lookup := hjob'
  accounting := haccounting
  unreported id status hstatus hnew := by
    rw [← Bool.not_eq_true]
    intro hdone
    have hopen := h.unreported id status (hended id status hstatus hdone) fun hold =>
      hnew (reported_subset hstep hold)
    rw [hopen] at hdone
    cases hdone

/-- The first report of a task, when its row is accepted. -/
theorem step_complete (h : Booked jobId ids s job) {result : TaskResult Uuid}
    (hjob : result.jobId = jobId) (hid : result.taskId ∈ ids) (hnew : result.key ∉ s.reportedKeys)
    (hended : result.status.isEnded)
    (haccepts : s.master.store.accepts result.taskId result.jobId = true)
    (hstep : s.step env (.complete result) = some s') :
    Booked jobId ids s' (job.record result) := by
  subst hjob
  have hlookup := Master.completeTask_lookup_self env h.lookup
  rw [if_pos haccepts] at hlookup
  have hsubset := reported_subset hstep
  obtain ⟨status, hstatus, hopen⟩ := h.open_of_unreported hid hnew
  simp only [step, h.lookup, Option.isSome_some, if_true] at hstep
  cases hstep
  refine ⟨hlookup, h.accounting.record hid hstatus hopen hended, fun id status' hid' hnew' => ?_⟩
  rw [JobState.record_tasks] at hid'
  by_cases hne : id = result.taskId
  · subst hne
    refine absurd ?_ hnew'
    show result.key ∈ (s.reported ++ [result]).map TaskResult.key
    simp
  · rw [AList.lookup_insert_ne hne] at hid'
    exact h.unreported id status' hid' fun hold => hnew' (hsubset hold)

/-- Every operation keeps the books, if no result of the job is refused. -/
theorem step (h : Booked jobId ids s job) {op : Op Uuid} (honce : ReportsOnce jobId ids s op)
    (haccepted : ReportsAccepted jobId s op) (hstep : s.step env op = some s') :
    ∃ job', Booked jobId ids s' job' := by
  by_cases hjob : op.job? = some jobId
  · cases op with
    | submit jobId' dag order stagesOrder =>
        cases hjob
        simp only [Session.step] at hstep
        split_ifs at hstep with hfresh
        have hnone := Master.lookup_of_fresh hfresh
        rw [h.lookup] at hnone
        cases hnone
    | schedule task =>
        obtain rfl : task.jobId = jobId := Option.some.inj hjob
        obtain ⟨hid, hnew⟩ := honce rfl
        obtain ⟨status, hstatus, hopen⟩ := h.open_of_unreported hid hnew
        have hmaster : (s.master.scheduleTask env task).2 = s'.master :=
          congrArg Session.master (Option.some.inj hstep)
        have hsched := Master.scheduleTask_lookup_self env h.lookup
        rw [hmaster] at hsched
        rcases hsched with hsame | ⟨worker, hassigned⟩
        · exact ⟨job, h.step_same hstep (hsame.trans h.lookup.symm)⟩
        · have hassign := h.accounting.assign hid hstatus hopen worker
          exact ⟨_, h.step_open hstep hassigned (fun _ _ => JobState.lookup_assigned)
            (hassign.running hid (AList.lookup_insert _) rfl)⟩
    | assign task worker =>
        obtain rfl : task.jobId = jobId := Option.some.inj hjob
        obtain ⟨hid, hnew⟩ := honce rfl
        obtain ⟨status, hstatus, hopen⟩ := h.open_of_unreported hid hnew
        have hlookup := Master.assignTask_lookup_self (m := s.master) task worker
        rw [h.lookup, Option.map_some] at hlookup
        have hmaster : s.master.assignTask task worker = s'.master :=
          congrArg Session.master (Option.some.inj hstep)
        rw [hmaster] at hlookup
        exact ⟨_, h.step_open hstep hlookup (fun _ _ => JobState.lookup_assigned)
          (h.accounting.assign hid hstatus hopen worker)⟩
    | persistAssignment task worker =>
        refine ⟨job, h.step_same hstep ?_⟩
        cases hstep
        rfl
    | markRunning task =>
        obtain rfl : task.jobId = jobId := Option.some.inj hjob
        obtain ⟨hid, hnew⟩ := honce rfl
        obtain ⟨status, hstatus, hopen⟩ := h.open_of_unreported hid hnew
        have hlookup := Master.markRunning_lookup_self env s.master task
        rw [h.lookup, Option.map_some] at hlookup
        have hmaster : s.master.markRunning env task = s'.master :=
          congrArg Session.master (Option.some.inj hstep)
        rw [hmaster] at hlookup
        exact ⟨_, h.step_open hstep hlookup (fun _ _ hstatus _ => hstatus)
          (h.accounting.running hid hstatus hopen)⟩
    | complete result =>
        obtain rfl : result.jobId = jobId := Option.some.inj hjob
        obtain ⟨hid, hnew, hended⟩ := honce rfl
        exact ⟨_, h.step_complete rfl hid hnew hended (haccepted rfl) hstep⟩
    | _ => cases hjob
  · exact ⟨job, h.step_same hstep (step_lookup_ne hstep hjob)⟩

end Booked

namespace Accounted

theorem reportsAccepted (h : Accounted jobId ids s job) (op : Op Uuid) :
    ReportsAccepted jobId s op := by
  cases op with
  | complete result =>
      intro hjob
      subst hjob
      exact StateStore.accepts_healthy h.healthy (StateStore.admitsTask_of_job h.row)
  | _ => trivial

theorem step (h : Accounted jobId ids s job) {op : Op Uuid} (honce : ReportsOnce jobId ids s op)
    (hstep : s.step env op = some s') : ∃ job', Accounted jobId ids s' job' := by
  obtain ⟨job', hbooked⟩ := h.toBooked.step honce (h.reportsAccepted op) hstep
  exact ⟨job', hbooked, (continues_step hstep).healthy h.healthy,
    (continues_step hstep).jobs jobId h.row⟩

end Accounted

/-- A submission that is answered with tasks publishes a job whose books agree. -/
theorem booked_submitted {m : Master Uuid} {order stagesOrder : HashOrder String}
    {dag : DagSpecification} {tasks : List (Task Uuid)} (hinj : Function.Injective (env.newV5 jobId))
    (hsubmit : (m.submitJob env order stagesOrder dag jobId).1 = .ok tasks) (hne : tasks ≠ []) :
    tasks = dag.materializeTasks env.newV5 order jobId ∧
      Booked jobId (tasks.map Task.taskId) ⟨(m.submitJob env order stagesOrder dag jobId).2, []⟩
        (Master.submittedJob dag stagesOrder tasks) := by
  rcases Master.submitJob_cases env order stagesOrder dag jobId m with
    ⟨e, store, hsub⟩ | ⟨store, hsub⟩
  · rw [hsub] at hsubmit
    cases hsubmit
  · rw [hsub] at hsubmit ⊢
    cases hsubmit
    have hnodup := DagSpecification.materializeTasks_nodup env.newV5 hinj order dag
    refine ⟨rfl, AList.lookup_insert _, JobState.accounting_submittedJob dag stagesOrder hnodup hne,
      fun id status hstatus _ => ?_⟩
    rw [Master.submittedJob_lookup] at hstatus
    split_ifs at hstatus
    cases hstatus
    rfl

theorem accounted_submitted {m : Master Uuid} (hhealthy : m.store.faults = [])
    {order stagesOrder : HashOrder String} {dag : DagSpecification} {tasks : List (Task Uuid)}
    (hinj : Function.Injective (env.newV5 jobId))
    (hsubmit : (m.submitJob env order stagesOrder dag jobId).1 = .ok tasks) (hne : tasks ≠ []) :
    ∃ job, Accounted jobId (tasks.map Task.taskId)
      ⟨(m.submitJob env order stagesOrder dag jobId).2, []⟩ job := by
  have hbooked := (booked_submitted hinj hsubmit hne).2
  cases hvalid : dag.validate with
  | error message =>
      rw [Master.submitJob, hvalid] at hsubmit
      cases hsubmit
  | ok =>
      obtain ⟨jobStatus, hresult⟩ := submitJob_healthy hhealthy order stagesOrder hvalid jobId
      rw [hresult] at hbooked ⊢
      refine ⟨_, hbooked, hhealthy, ?_⟩
      show (AList.lookup jobId (AList.insert jobId _ m.store.jobs)).isSome
      rw [AList.lookup_insert]
      rfl

/-- In every run that starts with the submission of a job with at least one task,
and in which its tasks are scheduled before their report and reported once, the
books of the job agree with its tasks.  Operations on other jobs leave the job
as it is. -/
theorem job_accounting {m : Master Uuid} (hhealthy : m.store.faults = [])
    (hinj : Function.Injective (env.newV5 jobId)) {order stagesOrder : HashOrder String}
    {dag : DagSpecification} {tasks : List (Task Uuid)}
    (hsubmit : (m.submitJob env order stagesOrder dag jobId).1 = .ok tasks) (hne : tasks ≠ [])
    {ops : List (Op Uuid)}
    (honce : Along (step env) (ReportsOnce jobId (tasks.map Task.taskId))
      ⟨(m.submitJob env order stagesOrder dag jobId).2, []⟩ ops)
    (hrun : run (step env) ⟨(m.submitJob env order stagesOrder dag jobId).2, []⟩ ops = some s) :
    ∃ job, s.master.jobs.lookup jobId = some job ∧ job.Accounting (tasks.map Task.taskId) ∧
      ∀ op s', s.step env op = some s' → op.job? ≠ some jobId →
        s'.master.jobs.lookup jobId = some job := by
  have hstart := accounted_submitted hhealthy hinj hsubmit hne
  have hkeep : ∀ s op s', (∃ job, Accounted jobId (tasks.map Task.taskId) s job) →
      ReportsOnce jobId (tasks.map Task.taskId) s op → s.step env op = some s' →
      ∃ job, Accounted jobId (tasks.map Task.taskId) s' job := by
    intro s op s' ⟨job, h⟩ honce hstep
    exact h.step honce hstep
  obtain ⟨job, h⟩ := run_invariant hkeep hstart honce hrun
  exact ⟨job, h.lookup, h.accounting, fun op s' hstep hother =>
    (step_lookup_ne hstep hother).trans h.lookup⟩

/-- A job of two tasks, of which one succeeds and one fails, next to another. -/
def twoReports : List (Op Path) :=
  let task (partition : Nat) : Task Path :=
    { taskId := [DagSpecification.stableIdInput 0 partition, "job"]
      jobId := ["job"]
      stageId := 0
      attempt := 0
      operator := .read "in.jsonl" "jsonl"
      partition
      inputUri := "in.jsonl"
      inputFormat := "jsonl"
      totalPartitions := 2 }
  [.register
      { id := ["w"], address := "w:1", status := .active, lastHeartbeat := 0, metrics := {} },
    .schedule (task 0),
    .assign (task 1) ["w"],
    .complete (System.readResult ["job"] ["0-0", "job"] .completed),
    .submit ["other"] (System.readDag 1) .insertion .insertion,
    .markRunning (task 1),
    .complete (System.readResult ["job"] ["0-1", "job"] (.failed "lost"))]

theorem job_accounting_twoReports :
    let m := (({} : Master Path).submitJob System.pathEnv .insertion .insertion (System.readDag 2)
      ["job"]).2
    ∃ s, run (step System.pathEnv) ⟨m, []⟩ twoReports = some s ∧
      ∃ job, s.master.jobs.lookup ["job"] = some job ∧
        job.Accounting [["0-0", "job"], ["0-1", "job"]] ∧
        ∀ op s', s.step System.pathEnv op = some s' → op.job? ≠ some ["job"] →
          s'.master.jobs.lookup ["job"] = some job := by
  intro m
  have hsome : (run (step System.pathEnv) ⟨m, []⟩ twoReports).isSome := by decide
  obtain ⟨s, hrun⟩ := Option.isSome_iff_exists.mp hsome
  have hsubmit : (({} : Master Path).submitJob System.pathEnv .insertion .insertion
      (System.readDag 2) ["job"]).1 =
        .ok ((System.readDag 2).materializeTasks System.pathEnv.newV5 .insertion ["job"]) := rfl
  exact ⟨s, hrun, job_accounting rfl (System.pathEnv_newV5_injective ["job"]) hsubmit
    (by decide) (by decide) hrun⟩

end Session
end ProcessingEngine

import Mathlib.Data.Rat.Cast.CharZero
import ProcessingEngine.Master.Accounting
import ProcessingEngine.Master.Recovery

/-!
# The metrics across restarts

The counters of a job follow its map of tasks as long as the master runs.
`Master::new` reads the tasks back and starts the counters at zero.
-/

namespace ProcessingEngine

open Lib

variable {Uuid : Type} [DecidableEq Uuid]

namespace JobState

/-- The counters of a job agree with its tasks, and a failed job has the message
of a failed task. -/
structure Booked (job : JobState Uuid) : Prop where
  total : job.metrics.totalTasks = job.tasks.keys.length
  completed : job.metrics.completedTasks = job.tasks.values.countP TaskStatus.isCompleted
  failed : job.metrics.failedTasks = job.tasks.values.countP TaskStatus.isFailed
  error : job.status = .failed → ∃ message, job.error = some message ∧
    ∃ id, job.tasks.lookup id = some (.failed message)

/-- A booked job that has not succeeded before its last task. -/
structure Settled (job : JobState Uuid) : Prop extends Booked job where
  succeeded : job.status = .succeeded →
    ∀ id status, job.tasks.lookup id = some status → status = .completed

variable {job : JobState Uuid}

theorem Settled.progress (h : job.Settled) (hsucceeded : job.status = .succeeded)
    (hne : job.tasks.keys ≠ []) : job.metrics.progress = 100 := by
  have hall : ∀ status ∈ job.tasks.values, status.isCompleted = true := by
    intro status hstatus
    obtain ⟨id, hid⟩ := HashMap.mem_values_iff_lookup.mp hstatus
    rw [h.succeeded hsucceeded id status hid]
    rfl
  have hcount := h.completed
  rw [List.countP_eq_length.mpr hall, HashMap.length_values, ← h.total] at hcount
  have htotal : job.metrics.totalTasks ≠ 0 := by
    rw [h.total]
    exact fun hzero => hne (List.eq_nil_of_length_eq_zero hzero)
  have hcast : (job.metrics.totalTasks : ℚ) ≠ 0 := Nat.cast_ne_zero.mpr htotal
  rw [JobMetrics.progress, if_neg htotal, hcount, div_self hcast, one_mul]

theorem settled_submittedJob (dag : DagSpecification) (order : HashOrder String)
    {tasks : List (Task Uuid)} (hnodup : (tasks.map Task.taskId).Nodup) :
    (Master.submittedJob dag order tasks).Settled where
  total := by
    rw [(keys_submittedJob dag order hnodup).length_eq, List.length_map]
    rfl
  completed := (countP_submittedJob dag order rfl).symm
  failed := (countP_submittedJob dag order rfl).symm
  error h := by cases h
  succeeded h := by cases h

/-- A job without tasks has nothing to count. -/
theorem settled_of_no_task (hkeys : job.tasks.keys = []) (hmetrics : job.metrics = {})
    (hstatus : job.status ≠ .failed) : job.Settled := by
  have hvalues : job.tasks.values = [] := by
    rw [← List.length_eq_zero_iff, HashMap.length_values, hkeys]
    rfl
  refine ⟨⟨?_, ?_, ?_, fun h => absurd h hstatus⟩, fun _ id status hid => ?_⟩
  · rw [hmetrics, hkeys]
    rfl
  · rw [hmetrics, hvalues]
    rfl
  · rw [hmetrics, hvalues]
    rfl
  · have hmem := AList.mem_keys.mp (HashMap.mem_of_lookup hid)
    rw [hkeys] at hmem
    cases hmem

section

variable {id worker : Uuid} {status : TaskStatus Uuid}

/-- An open task can be handed out. -/
theorem Settled.assign (h : job.Settled) (hstatus : job.tasks.lookup id = some status)
    (hopen : status.isEnded = false) :
    { job with tasks := job.tasks.insert id (.assigned worker), status := .running }.Settled where
  total := h.total.trans (HashMap.length_keys_insert (HashMap.mem_of_lookup hstatus) _).symm
  completed := by
    have hcount := HashMap.countP_values_insert (w := .assigned worker) TaskStatus.isCompleted
      hstatus
    rw [(Bool.or_eq_false_iff.mp hopen).1] at hcount
    exact h.completed.trans hcount.symm
  failed := by
    have hcount := HashMap.countP_values_insert (w := .assigned worker) TaskStatus.isFailed hstatus
    rw [(Bool.or_eq_false_iff.mp hopen).2] at hcount
    exact h.failed.trans hcount.symm
  error hfailed := by cases hfailed
  succeeded hsucceeded := by cases hsucceeded

/-- Handing out a task that has ended takes it out of the counts. -/
theorem Booked.not_assign (h : job.Booked) (hstatus : job.tasks.lookup id = some status)
    (hended : status.isEnded) :
    ¬{ job with tasks := job.tasks.insert id (.assigned worker), status := .running }.Booked := by
  intro hafter
  have hcompleted := HashMap.countP_values_insert (w := .assigned worker) TaskStatus.isCompleted
    hstatus
  have hfailed := HashMap.countP_values_insert (w := .assigned worker) TaskStatus.isFailed hstatus
  have hbefore₁ := h.completed
  have hbefore₂ := h.failed
  have hafter₁ : job.metrics.completedTasks =
      (HashMap.values (job.tasks.insert id (.assigned worker))).countP TaskStatus.isCompleted :=
    hafter.completed
  have hafter₂ : job.metrics.failedTasks =
      (HashMap.values (job.tasks.insert id (.assigned worker))).countP TaskStatus.isFailed :=
    hafter.failed
  rw [TaskStatus.isEnded, Bool.or_eq_true] at hended
  rcases hended with hdone | hdone
  · rw [if_pos hdone] at hcompleted
    simp only [TaskStatus.isCompleted, Bool.false_eq_true, if_false] at hcompleted
    omega
  · rw [if_pos hdone] at hfailed
    simp only [TaskStatus.isFailed, Bool.false_eq_true, if_false] at hfailed
    omega

end

/-- A job that has failed by the result, or before it, shows the message of a
failed task. -/
theorem Settled.record_error (h : job.Settled) {result : TaskResult Uuid}
    {status : TaskStatus Uuid} (hstatus : job.tasks.lookup result.taskId = some status)
    (hopen : status.isEnded = false) (hended : result.status.isEnded)
    (hnow : (job.record result).status = .failed) :
    ∃ message, (job.record result).error = some message ∧
      ∃ id, (job.record result).tasks.lookup id = some (.failed message) := by
  rcases TaskStatus.cases_isEnded hended with hres | ⟨message, hres⟩
  · have hjob := record_status job result
    rw [hres, hnow] at hjob
    dsimp only at hjob
    split_ifs at hjob
    have herror : (job.record result).error = job.error := by
      rw [JobState.record, hres]
      rfl
    -- a failure that was there before is still there
    obtain ⟨message, hmessage, id, hid⟩ := h.error hjob.symm
    have hne : id ≠ result.taskId := by
      rintro rfl
      rw [hstatus] at hid
      cases hid
      cases hopen
    refine ⟨message, herror.trans hmessage, id, ?_⟩
    rw [record_tasks, AList.lookup_insert_ne hne]
    exact hid
  · refine ⟨message, ?_, result.taskId, ?_⟩
    · rw [JobState.record, hres]
      rfl
    · rw [record_tasks, AList.lookup_insert, hres]

/-- A job succeeds by the result only when no task is left. -/
theorem Settled.record_succeeded (h : job.Settled) {result : TaskResult Uuid}
    {status : TaskStatus Uuid} (hstatus : job.tasks.lookup result.taskId = some status)
    (hopen : status.isEnded = false) (hended : result.status.isEnded)
    (hnow : (job.record result).status = .succeeded) :
    ∀ id other, (job.record result).tasks.lookup id = some other → other = .completed := by
  have hjob := record_status job result
  rcases TaskStatus.cases_isEnded hended with hres | ⟨message, hres⟩
  · rw [hres, hnow] at hjob
    dsimp only at hjob
    split_ifs at hjob with hpending
    · have hdone := h.succeeded hjob.symm _ _ hstatus
      rw [hdone] at hopen
      cases hopen
    · intro id other hid
      rw [record_tasks] at hid
      exact pending_iff.mp (Bool.eq_false_of_not_eq_true hpending) id other hid
  · rw [hres, hnow] at hjob
    cases hjob

/-- The first report of a task. -/
theorem Settled.record (h : job.Settled) {result : TaskResult Uuid} {status : TaskStatus Uuid}
    (hstatus : job.tasks.lookup result.taskId = some status) (hopen : status.isEnded = false)
    (hended : result.status.isEnded) : (job.record result).Settled := by
  obtain ⟨htotal, -⟩ := record_counters job result
  obtain ⟨hcompleted, hfailed⟩ := counts_record h.completed h.failed hstatus hopen
  have hlength := HashMap.length_keys_insert (HashMap.mem_of_lookup hstatus) result.status
  rw [← record_tasks] at hlength
  exact
    { total := by rw [htotal, h.total, hlength]
      completed := hcompleted
      failed := hfailed
      error := h.record_error hstatus hopen hended
      succeeded := h.record_succeeded hstatus hopen hended }

end JobState

/-- What the master knows and reports of its jobs agrees with their tasks. -/
def Master.MetricsAgree (m : Master Uuid) : Prop :=
  ∀ id job, m.jobs.lookup id = some job → job.Booked ∧
    (job.status = .succeeded → job.tasks.keys ≠ [] →
      ∃ response, m.getJobStatus id = some response ∧ response.progress = 100)

inductive Move (Uuid : Type) where
  | op (op : Op Uuid)
  | restart

namespace Session

/-- Operations that run to their end, and restarts between them. -/
def move (env : MasterEnv Uuid) (s : Session Uuid) : Move Uuid → Option (Session Uuid)
  | .op op => s.step env op
  | .restart => some { s with master := Master.new env s.master.store }

/-- The tasks that are scheduled and reported are those of their job, and each is
reported once, as completed or failed. -/
def ReportedOnce (s : Session Uuid) : Move Uuid → Prop
  | .op (.schedule task) => ∃ job ∈ s.master.jobs.lookup task.jobId, task.taskId ∈ job.tasks
  | .op (.complete result) =>
      ∀ job ∈ s.master.jobs.lookup result.jobId,
        result.taskId ∈ job.tasks ∧ result.key ∉ s.reportedKeys ∧ result.status.isEnded
  | .op (.assign _ _) => False
  | .op (.persistAssignment _ _) => False
  | .op (.markRunning _) => False
  | _ => True

/-- No job with tasks is restored, and no reported task gets a worker. -/
def KeepsMetrics (s : Session Uuid) : Move Uuid → Prop
  | .op (.schedule task) => task.key ∉ s.reportedKeys ∨ s.master.selectWorker.1 = none
  | .restart => ∀ job ∈ s.master.jobs.values, job.tasks.keys = []
  | _ => True

instance decidableReportedOnce (s : Session Uuid) : ∀ move, Decidable (ReportedOnce s move)
  | .op (.schedule task) =>
      inferInstanceAs (Decidable
        (∃ job ∈ s.master.jobs.lookup task.jobId, task.taskId ∈ job.tasks))
  | .op (.complete result) =>
      inferInstanceAs (Decidable (∀ job ∈ s.master.jobs.lookup result.jobId,
        result.taskId ∈ job.tasks ∧ result.key ∉ s.reportedKeys ∧ result.status.isEnded))
  | .op (.assign _ _) | .op (.persistAssignment _ _) | .op (.markRunning _) => isFalse id
  | .op (.submit _ _ _ _) | .op .select | .op (.register _) | .op (.heartbeat _ _)
  | .op (.collect _) | .restart => isTrue trivial

instance decidableKeepsMetrics (s : Session Uuid) : ∀ move, Decidable (KeepsMetrics s move)
  | .op (.schedule task) =>
      inferInstanceAs (Decidable
        (task.key ∉ s.reportedKeys ∨ s.master.selectWorker.1 = none))
  | .restart => inferInstanceAs (Decidable (∀ job ∈ s.master.jobs.values, job.tasks.keys = []))
  | .op (.assign _ _) | .op (.persistAssignment _ _) | .op (.markRunning _)
  | .op (.submit _ _ _ _) | .op .select | .op (.register _) | .op (.heartbeat _ _)
  | .op (.collect _) | .op (.complete _) => isTrue trivial

/-- The jobs are settled and stored, and the tasks reported are those that have
ended. -/
structure Settled (env : MasterEnv Uuid) (s : Session Uuid) : Prop where
  stored : Stored env s
  jobs : ∀ id job, s.master.jobs.lookup id = some job → job.Settled
  ended : ∀ id job, s.master.jobs.lookup id = some job →
    ∀ taskId status, job.tasks.lookup taskId = some status →
      (status.isEnded ↔ (id, taskId) ∈ s.reportedKeys)

variable {env : MasterEnv Uuid} {s s' : Session Uuid}

namespace Settled

theorem start : Settled env ({} : Session Uuid) where
  stored := stored_start
  jobs id job h := by cases h
  ended id job h := by cases h

theorem metricsAgree (h : Settled env s) : s.master.MetricsAgree := by
  intro id job hjob
  have hsettled := h.jobs id job hjob
  refine ⟨hsettled.toBooked, fun hsucceeded hne => ?_⟩
  refine ⟨_, by rw [Master.getJobStatus, hjob, Option.map_some], ?_⟩
  exact hsettled.progress hsucceeded hne

/-- A step that changes one job, and the reports of its tasks only. -/
theorem of_job (h : Settled env s) (hstored : Stored env s') (jobId : Uuid)
    (hothers : ∀ id, id ≠ jobId → s'.master.jobs.lookup id = s.master.jobs.lookup id)
    (hreports : ∀ key, key.1 ≠ jobId → (key ∈ s'.reportedKeys ↔ key ∈ s.reportedKeys))
    (hjob : ∀ job, s'.master.jobs.lookup jobId = some job → job.Settled ∧
      ∀ taskId status, job.tasks.lookup taskId = some status →
        (status.isEnded ↔ (jobId, taskId) ∈ s'.reportedKeys)) : Settled env s' where
  stored := hstored
  jobs id job hid := by
    by_cases hne : id = jobId
    · subst hne
      exact (hjob job hid).1
    · rw [hothers id hne] at hid
      exact h.jobs id job hid
  ended id job hid taskId status hstatus := by
    by_cases hne : id = jobId
    · subst hne
      exact (hjob job hid).2 taskId status hstatus
    · rw [hothers id hne] at hid
      rw [hreports (id, taskId) hne]
      exact h.ended id job hid taskId status hstatus

/-- A step that changes no job. -/
theorem of_same (h : Settled env s) (hstored : Stored env s')
    (hjobs : ∀ id, s'.master.jobs.lookup id = s.master.jobs.lookup id)
    (hreports : s'.reportedKeys = s.reportedKeys) : Settled env s' where
  stored := hstored
  jobs id job hid := h.jobs id job ((hjobs id).symm.trans hid)
  ended id job hid := by
    rw [hreports]
    exact h.ended id job ((hjobs id).symm.trans hid)

theorem submit (h : Settled env s) (hinj : Function.Injective2 env.newV5) {jobId : Uuid}
    {dag : DagSpecification} {order stagesOrder : HashOrder String}
    (hstep : s.step env (.submit jobId dag order stagesOrder) = some s')
    (hstored : Stored env s') : Settled env s' := by
  have hothers : ∀ id, id ≠ jobId → s'.master.jobs.lookup id = s.master.jobs.lookup id :=
    fun id hne => step_lookup_ne hstep fun heq => hne (Option.some.inj heq).symm
  simp only [step] at hstep
  split_ifs at hstep with hfresh
  cases hstep
  have hunknown := Master.lookup_of_fresh hfresh
  refine h.of_job hstored jobId hothers (fun _ _ => Iff.rfl) fun job hjob => ?_
  obtain ⟨e, store, hsub⟩ | ⟨store, hsub⟩ :=
    Master.submitJob_cases env order stagesOrder dag jobId s.master
  · rw [hsub] at hjob
    cases hunknown.symm.trans hjob
  · rw [hsub] at hjob
    have hself := (AList.lookup_insert _).symm.trans hjob
    cases hself
    refine ⟨JobState.settled_submittedJob dag stagesOrder
      (DagSpecification.materializeTasks_nodup env.newV5 (hinj.right jobId) order dag),
      fun taskId status hstatus => ?_⟩
    rw [Master.submittedJob_lookup] at hstatus
    split_ifs at hstatus
    cases hstatus
    refine iff_of_false Bool.false_ne_true fun hmem => ?_
    -- no result was delivered for a job that was not known
    obtain ⟨r, hr, hkey⟩ := List.mem_map.mp hmem
    obtain ⟨job, hknown, -⟩ := h.stored.reported r hr
    rw [show r.jobId = jobId from congrArg Prod.fst hkey, hunknown] at hknown
    cases hknown

theorem schedule_of_none (h : Settled env s) {task : Task Uuid}
    (hnone : s.master.selectWorker.1 = none) (hstep : s.step env (.schedule task) = some s') :
    Settled env s' := by
  cases hstep
  rw [Master.scheduleTask_of_none hnone]
  exact h.of_same (h.stored.of_same rfl h.stored.healthy rfl rfl) (fun _ => rfl) rfl

/-- An unreported task is open, and it is assigned. -/
theorem schedule (h : Settled env s) (hinj : Function.Injective2 env.newV5) {task : Task Uuid}
    {job : JobState Uuid} (hjob : s.master.jobs.lookup task.jobId = some job)
    (hid : task.taskId ∈ job.tasks) (hnew : task.key ∉ s.reportedKeys)
    (hstep : s.step env (.schedule task) = some s') : Settled env s' := by
  cases hselect : s.master.selectWorker.1 with
  | none => exact h.schedule_of_none hselect hstep
  | some worker =>
      have hothers : ∀ id, id ≠ task.jobId →
          s'.master.jobs.lookup id = s.master.jobs.lookup id :=
        fun id hne => step_lookup_ne hstep fun heq => hne (Option.some.inj heq).symm
      have hstored := h.stored.schedule hinj hjob hid hnew
      have hafter := Master.scheduleTask_lookup_of_some env hselect hjob
      obtain ⟨status, hstatus⟩ := Option.isSome_iff_exists.mp (AList.lookup_isSome.mpr hid)
      have hended := h.ended _ job hjob _ status hstatus
      have hopen : status.isEnded = false := by
        rw [← Bool.not_eq_true]
        exact fun hdone => hnew (hended.mp hdone)
      cases hstep
      refine h.of_job hstored task.jobId hothers (fun _ _ => Iff.rfl) fun job' hjob' => ?_
      cases hafter.symm.trans hjob'
      refine ⟨(h.jobs _ job hjob).assign hstatus hopen, fun taskId status' hstatus' => ?_⟩
      by_cases hne : taskId = task.taskId
      · subst hne
        rw [AList.lookup_insert] at hstatus'
        cases hstatus'
        exact iff_of_false Bool.false_ne_true hnew
      · rw [AList.lookup_insert_ne hne] at hstatus'
        exact h.ended _ job hjob taskId status' hstatus'

/-- A reported task that gets a worker is no longer counted. -/
theorem not_schedule (h : Settled env s) {task : Task Uuid} {job : JobState Uuid}
    (hjob : s.master.jobs.lookup task.jobId = some job) (hid : task.taskId ∈ job.tasks)
    (hold : task.key ∈ s.reportedKeys) (hsome : s.master.selectWorker.1 ≠ none)
    (hstep : s.step env (.schedule task) = some s') : ¬s'.master.MetricsAgree := by
  obtain ⟨worker, hselect⟩ := Option.ne_none_iff_exists'.mp hsome
  obtain ⟨status, hstatus⟩ := Option.isSome_iff_exists.mp (AList.lookup_isSome.mpr hid)
  have hended := (h.ended _ job hjob _ status hstatus).mpr hold
  have hafter := Master.scheduleTask_lookup_of_some env hselect hjob
  cases hstep
  intro hagree
  exact (h.jobs _ job hjob).toBooked.not_assign hstatus hended (hagree _ _ hafter).1

theorem complete (h : Settled env s) (hinj : Function.Injective2 env.newV5)
    {result : TaskResult Uuid} {job : JobState Uuid}
    (hjob : s.master.jobs.lookup result.jobId = some job) (hid : result.taskId ∈ job.tasks)
    (hnew : result.key ∉ s.reportedKeys) (hended : result.status.isEnded)
    (hstep : s.step env (.complete result) = some s') : Settled env s' := by
  have hothers : ∀ id, id ≠ result.jobId → s'.master.jobs.lookup id = s.master.jobs.lookup id :=
    fun id hne => step_lookup_ne hstep fun heq => hne (Option.some.inj heq).symm
  obtain ⟨status, hstatus⟩ := Option.isSome_iff_exists.mp (AList.lookup_isSome.mpr hid)
  have hiff := h.ended _ job hjob _ status hstatus
  have hopen : status.isEnded = false := by
    rw [← Bool.not_eq_true]
    exact fun hdone => hnew (hiff.mp hdone)
  have hadmits : s.master.store.admitsTask result.taskId result.jobId :=
    StateStore.admitsTask_of_job (by rw [h.stored.jobRow_of hjob]; rfl)
  have hafter := Master.completeTask_lookup_self env hjob
  rw [if_pos (StateStore.accepts_healthy h.stored.healthy hadmits)] at hafter
  have hstored := h.stored.complete hinj hjob hid hnew
  simp only [step, hjob, Option.isSome_some, if_true] at hstep
  cases hstep
  have hkeys : ∀ key, key ∈ (s.reported ++ [result]).map TaskResult.key ↔
      key ∈ s.reportedKeys ∨ key = result.key := by
    intro key
    rw [List.map_append, List.mem_append, List.map_singleton, List.mem_singleton]
    rfl
  refine h.of_job hstored result.jobId hothers (fun key hne => ?_) fun job' hjob' => ?_
  · refine (hkeys key).trans (or_iff_left fun heq => hne ?_)
    rw [heq]
    rfl
  · cases hafter.symm.trans hjob'
    refine ⟨(h.jobs _ job hjob).record hstatus hopen hended, fun taskId status' hstatus' => ?_⟩
    refine Iff.trans ?_ (hkeys (result.jobId, taskId)).symm
    rw [JobState.record_tasks] at hstatus'
    by_cases hne : taskId = result.taskId
    · subst hne
      rw [AList.lookup_insert] at hstatus'
      cases hstatus'
      exact iff_of_true hended (Or.inr rfl)
    · rw [AList.lookup_insert_ne hne] at hstatus'
      rw [or_iff_left fun heq => hne (congrArg Prod.snd heq)]
      exact h.ended _ job hjob taskId status' hstatus'

/-- Every operation keeps the metrics, unless it hands out a task that has ended. -/
theorem step (h : Settled env s) (hinj : Function.Injective2 env.newV5) {op : Op Uuid}
    (honce : ReportedOnce s (.op op)) (hkeeps : KeepsMetrics s (.op op))
    (hstep : s.step env op = some s') : Settled env s' := by
  cases op with
  | submit jobId dag order stagesOrder =>
      refine h.submit hinj hstep (h.stored.step hinj ?_ hstep)
      trivial
  | schedule task =>
      obtain ⟨job, hjob, hid⟩ := honce
      rcases hkeeps with hnew | hnone
      · exact h.schedule hinj hjob hid hnew hstep
      · exact h.schedule_of_none hnone hstep
  | complete result =>
      cases hjob : s.master.jobs.lookup result.jobId with
      | none =>
          simp only [Session.step, hjob, Option.isSome_none, Bool.false_eq_true, if_false,
            Master.completeTask_unknown hjob] at hstep
          cases hstep
          exact h
      | some job =>
          obtain ⟨hid, hnew, hended⟩ := honce job hjob
          exact h.complete hinj hjob hid hnew hended hstep
  | assign _ _ | persistAssignment _ _ | markRunning _ => cases honce
  | select | register _ | heartbeat _ _ | collect _ =>
      have hjobs : ∀ id, s'.master.jobs.lookup id = s.master.jobs.lookup id :=
        fun id => step_lookup_ne hstep (Option.some_ne_none id).symm
      have hstored : Stored env s' := by
        refine h.stored.step hinj ?_ hstep
        trivial
      cases hstep
      exact h.of_same hstored hjobs rfl

end Settled

theorem Loaded.keys_eq_nil_iff {rows : List (Master.LoadedTask Uuid)} {id : Uuid}
    {job : JobState Uuid} (h : Loaded s rows) (hjob : s.master.jobs.lookup id = some job) :
    (restored rows id job).tasks.keys = [] ↔ job.tasks.keys = [] := by
  simp only [List.eq_nil_iff_forall_not_mem, ← AList.mem_keys, h.mem_restored hjob]

namespace Settled

/-- Jobs without tasks are restored as they were. -/
theorem restart (h : Settled env s) (hserde : env.serde.RoundTrip)
    (hempty : ∀ job ∈ s.master.jobs.values, job.tasks.keys = []) :
    Settled env { s with master := Master.new env s.master.store } := by
  obtain ⟨rows, hrows, hjobs, -⟩ := h.stored.new_eq hserde
  have hold : ∀ id job, (Master.new env s.master.store).jobs.lookup id = some job →
      ∃ old, s.master.jobs.lookup id = some old ∧ old.tasks.keys = [] ∧
        restored rows id old = job := by
    intro id job hjob
    rw [hjobs] at hjob
    obtain ⟨old, hold, hrestored⟩ := Option.map_eq_some_iff.mp hjob
    exact ⟨old, hold, hempty old (HashMap.mem_values_iff_lookup.mpr ⟨id, hold⟩), hrestored⟩
  refine ⟨h.stored.restart hserde, fun id job hjob => ?_, fun id job hjob taskId status hid => ?_⟩
  · obtain ⟨old, hold, hkeys, rfl⟩ := hold id job hjob
    refine JobState.settled_of_no_task ((hrows.keys_eq_nil_iff hold).mpr hkeys) rfl
      fun hfailed => ?_
    obtain ⟨message, -, taskId, hid⟩ := (h.jobs id old hold).error hfailed
    have hmem := AList.mem_keys.mp (HashMap.mem_of_lookup hid)
    rw [hkeys] at hmem
    cases hmem
  · obtain ⟨old, hold, hkeys, rfl⟩ := hold id job hjob
    have hmem := AList.mem_keys.mp (HashMap.mem_of_lookup hid)
    rw [(hrows.keys_eq_nil_iff hold).mpr hkeys] at hmem
    cases hmem

/-- A job with tasks is restored with no task counted. -/
theorem not_restart (h : Settled env s) (hserde : env.serde.RoundTrip)
    (hsome : ¬∀ job ∈ s.master.jobs.values, job.tasks.keys = []) :
    ¬(Master.new env s.master.store).MetricsAgree := by
  obtain ⟨rows, hrows, hjobs, -⟩ := h.stored.new_eq hserde
  push Not at hsome
  obtain ⟨job, hjob, hne⟩ := hsome
  obtain ⟨id, hjob⟩ := HashMap.mem_values_iff_lookup.mp hjob
  have hafter : (Master.new env s.master.store).jobs.lookup id = some (restored rows id job) := by
    rw [hjobs, hjob]
    rfl
  intro hagree
  have htotal : 0 = (restored rows id job).tasks.keys.length := (hagree id _ hafter).1.total
  have hkeys := List.eq_nil_of_length_eq_zero htotal.symm
  exact hne ((hrows.keys_eq_nil_iff hjob).mp hkeys)

/-- Every operation and every restart under the condition. -/
theorem move (h : Settled env s) (hserde : env.serde.RoundTrip)
    (hinj : Function.Injective2 env.newV5) {a : Move Uuid} (honce : ReportedOnce s a)
    (hkeeps : KeepsMetrics s a) (hmove : s.move env a = some s') : Settled env s' := by
  cases a with
  | op op => exact h.step hinj honce hkeeps hmove
  | restart =>
      cases hmove
      exact h.restart hserde hkeeps

end Settled

/-- A restart keeps the status of a job, and forgets its progress and its error. -/
theorem Stored.getJobStatus_new (h : Stored env s) (hserde : env.serde.RoundTrip) (id : Uuid) :
    ((Master.new env s.master.store).getJobStatus id).map
        (fun response => (response.status, response.progress, response.error)) =
      (s.master.jobs.lookup id).map fun job => (job.status, 0, none) := by
  obtain ⟨rows, -, hjobs, -⟩ := h.new_eq hserde
  rw [Master.getJobStatus, hjobs, Option.map_map, Option.map_map]
  refine congrArg (Option.map · _) (funext fun job => ?_)
  show ((restored rows id job).status, (restored rows id job).metrics.progress,
    (restored rows id job).error) = _
  have hzero : (restored rows id job).metrics.progress = 0 := if_pos rfl
  rw [hzero]
  rfl

/-- In a run of whole operations and restarts the metrics agree with the tasks in
every state exactly when no job with tasks is restored and no reported task is
handed out again. -/
theorem move_metricsAgree_iff (hserde : env.serde.RoundTrip)
    (hinj : Function.Injective2 env.newV5) {moves : List (Move Uuid)}
    (honce : Along (move env) ReportedOnce {} moves) (hrun : run (move env) {} moves = some s) :
    (∀ before after t, moves = before ++ after → run (move env) {} before = some t →
        t.master.MetricsAgree) ↔
      Along (move env) KeepsMetrics {} moves := by
  have hkeep : ∀ s a s', Settled env s → ReportedOnce s a → KeepsMetrics s a →
      move env s a = some s' → Settled env s' :=
    fun s a s' h honce hkeeps hmove => h.move hserde hinj honce hkeeps hmove
  have hbreak : ∀ s a s', Settled env s → ReportedOnce s a → ¬KeepsMetrics s a →
      move env s a = some s' → ¬s'.master.MetricsAgree := by
    intro s a s' h honce hnot hstep
    cases a with
    | op op =>
        cases op with
        | schedule task =>
            obtain ⟨job, hjob, hid⟩ := honce
            obtain ⟨hold, hselect⟩ := not_or.mp hnot
            exact h.not_schedule hjob hid (not_not.mp hold) hselect hstep
        | _ => exact absurd trivial hnot
    | restart =>
        cases hstep
        exact h.not_restart hserde hnot
  exact along_iff_reached (fun _ h => h.metricsAgree) hkeep hbreak Settled.start honce hrun

/-- A master that starts on an empty database. -/
theorem move_metricsAgree_iff_interruptedRun :
    ∃ s, run (move System.pathEnv) {} (.restart :: interruptedRun.map .op) = some s ∧
      s.master.MetricsAgree := by
  have hsome : (run (move System.pathEnv) {} (.restart :: interruptedRun.map .op)).isSome := by
    decide +kernel
  obtain ⟨s, hs⟩ := Option.isSome_iff_exists.mp hsome
  have hinj : Function.Injective2 System.pathEnv.newV5 := fun _ _ _ _ h =>
    (List.cons.inj h).symm
  exact ⟨s, hs, (move_metricsAgree_iff (Serde.tallied_roundTrip Path) hinj (by decide +kernel)
    hs).mpr (by decide +kernel) _ [] s (List.append_nil _).symm hs⟩

/-- A job whose only task is completed. -/
def completedRun : List (Op Path) :=
  let worker : WorkerInfo Path :=
    { id := ["w"], address := "w:1", status := .active, lastHeartbeat := 0, metrics := {} }
  let task : Task Path :=
    { taskId := ["0-0", "job"]
      jobId := ["job"]
      stageId := 0
      attempt := 0
      operator := .read "in.jsonl" "jsonl"
      partition := 0
      inputUri := "in.jsonl"
      inputFormat := "jsonl"
      totalPartitions := 1 }
  [.register worker,
    .submit ["job"] (System.readDag 1) .insertion .insertion,
    .schedule task,
    .complete (System.readResult ["job"] ["0-0", "job"] .completed)]

theorem restart_forgets_metrics :
    Along (move System.pathEnv) ReportedOnce {} (completedRun.map .op ++ [.restart]) ∧
      ∃ s, run (move System.pathEnv) {} (completedRun.map .op ++ [.restart]) = some s ∧
        (s.master.getJobStatus ["job"]).map (fun r => (r.status, r.progress, r.error)) =
          some (.succeeded, 0, none) ∧
        ¬s.master.MetricsAgree := by
  have hfinal : (run (move System.pathEnv) {} (completedRun.map .op)).map (fun s =>
      ((s.master.jobs.lookup ["job"]).map JobState.status,
        s.master.jobs.values.map fun job => job.tasks.keys)) =
      some (some .succeeded, [[["0-0", "job"]]]) := by decide +kernel
  obtain ⟨s, hs, hseen⟩ := Option.map_eq_some_iff.mp hfinal
  obtain ⟨hstatus, hkeys⟩ := Prod.mk.inj hseen
  have hinj : Function.Injective2 System.pathEnv.newV5 := fun _ _ _ _ h =>
    (List.cons.inj h).symm
  have hserde := Serde.tallied_roundTrip Path
  have hguards : Along (move System.pathEnv) (fun s a => ReportedOnce s a ∧ KeepsMetrics s a) {}
      (completedRun.map .op) := by decide +kernel
  have hsettled : Settled System.pathEnv s :=
    run_invariant (fun _ _ _ h hguard hmove => h.move hserde hinj hguard.1 hguard.2 hmove)
      Settled.start hguards hs
  refine ⟨by decide +kernel, { s with master := Master.new System.pathEnv s.master.store }, ?_,
    ?_, hsettled.not_restart hserde fun hempty => ?_⟩
  · rw [run_append, hs]
    rfl
  · have hresponse := hsettled.stored.getJobStatus_new hserde ["job"]
    obtain ⟨job, hjob, hsucceeded⟩ := Option.map_eq_some_iff.mp hstatus
    rw [hjob, Option.map_some, hsucceeded] at hresponse
    exact hresponse
  · have hnone : ∀ keys ∈ s.master.jobs.values.map fun job => job.tasks.keys, keys = [] := by
      intro keys hkeys
      obtain ⟨job, hjob, rfl⟩ := List.mem_map.mp hkeys
      exact hempty job hjob
    rw [hkeys] at hnone
    cases hnone _ (List.mem_singleton_self _)

end Session
end ProcessingEngine

import ProcessingEngine.Master.System
import Mathlib.Algebra.Order.Field.Rat
import Mathlib.Tactic.Linarith

/-!
# Delivering results

`complete_task` counts every completed or failed result that it is given, known
or not.  `completeTask_twice_iff` says which results can be delivered twice
without a trace.  A job is `Tallied` when its counter and its results agree with
its tasks, which every run keeps as long as no completion is delivered again.
-/

namespace ProcessingEngine

open Lib

variable {Uuid : Type} [DecidableEq Uuid]

namespace JobState

theorem recordStatus_recordStatus (job : JobState Uuid) (result : TaskResult Uuid) :
    (job.recordStatus result).recordStatus result = job.recordStatus result := by
  simp [recordStatus]

/-- Completed and failed results are counted again, other ones leave no trace. -/
theorem record_eq_recordStatus_iff (job : JobState Uuid) (result : TaskResult Uuid) :
    job.record result = job.recordStatus result ↔
      result.status.isCompleted = false ∧ result.status.isFailed = false := by
  constructor
  · intro h
    have hcompleted := (record_counters job result).2.1
    have hfailed := (record_counters job result).2.2.1
    rw [h] at hcompleted hfailed
    simp only [recordStatus] at hcompleted hfailed
    constructor
    · cases hstatus : result.status.isCompleted with
      | false => rfl
      | true => simp [hstatus] at hcompleted
    · cases hstatus : result.status.isFailed with
      | false => rfl
      | true => simp [hstatus] at hfailed
  · rintro ⟨hcompleted, hfailed⟩
    unfold record
    cases hstatus : result.status with
    | completed => simp [hstatus, TaskStatus.isCompleted] at hcompleted
    | failed message => simp [hstatus, TaskStatus.isFailed] at hfailed
    | _ => rfl

/-- Recording the status first makes no difference to a record. -/
theorem recordStatus_record (job : JobState Uuid) (result : TaskResult Uuid) :
    (job.record result).recordStatus result = job.record result := by
  unfold record
  split <;> simp [recordStatus, recordCompleted, recordFailed]

end JobState

namespace Master

variable {env : MasterEnv Uuid} {m : Master Uuid}

/-- A second delivery of a result changes nothing exactly when the result is
neither a completion nor a failure, or its row is refused. -/
theorem completeTask_twice_iff {result : TaskResult Uuid} {job : JobState Uuid}
    (hjob : m.jobs.lookup result.jobId = some job) :
    ((m.completeTask env result).2.completeTask env result).2.jobs.lookup result.jobId =
        (m.completeTask env result).2.jobs.lookup result.jobId ↔
      (result.status.isCompleted = false ∧ result.status.isFailed = false) ∨
        (m.completeTask env result).2.store.accepts result.taskId result.jobId = false := by
  obtain ⟨job₁, hjob₁, hrecorded⟩ : ∃ job₁,
      (m.completeTask env result).2.jobs.lookup result.jobId = some job₁ ∧
        job₁.recordStatus result = job₁ := by
    rw [completeTask_lookup_self env hjob]
    refine ⟨_, rfl, ?_⟩
    split_ifs
    · exact job.recordStatus_record result
    · exact job.recordStatus_recordStatus result
  rw [completeTask_lookup_self env hjob₁, hjob₁, Option.some.injEq]
  cases haccepts : (m.completeTask env result).2.store.accepts result.taskId result.jobId with
  | false => simp [hrecorded]
  | true =>
      have hiff := job₁.record_eq_recordStatus_iff result
      rw [hrecorded] at hiff
      simp [hiff]

end Master

/-- The counter and the results of the job agree with its tasks. -/
structure JobState.Tallied (job : JobState Uuid) : Prop where
  completed : job.metrics.completedTasks = job.results.length
  nodup : (job.results.map TaskResult.taskId).Nodup
  known : ∀ id ∈ job.results.map TaskResult.taskId, id ∈ job.tasks
  total : job.tasks.keys.length ≤ job.metrics.totalTasks

namespace JobState

omit [DecidableEq Uuid] in
theorem Tallied.completed_le {job : JobState Uuid} (h : job.Tallied) :
    job.metrics.completedTasks ≤ job.metrics.totalTasks := by
  have hsub :=
    (List.subperm_of_subset h.nodup fun id hid => AList.mem_keys.mp (h.known id hid)).length_le
  rw [List.length_map] at hsub
  rw [h.completed]
  exact hsub.trans h.total

omit [DecidableEq Uuid] in
theorem progress_le {metrics : JobMetrics Uuid}
    (h : metrics.completedTasks ≤ metrics.totalTasks) : metrics.progress ≤ 100 := by
  unfold JobMetrics.progress
  split_ifs with hzero
  · norm_num
  · have hpos : (0 : ℚ) < metrics.totalTasks := by
      exact_mod_cast Nat.pos_of_ne_zero hzero
    have hle : (metrics.completedTasks : ℚ) ≤ metrics.totalTasks := by exact_mod_cast h
    have hratio := div_le_one_of_le₀ hle hpos.le
    linarith

theorem Tallied.insert {job : JobState Uuid} (h : job.Tallied) {id : Uuid} (hid : id ∈ job.tasks)
    (status : TaskStatus Uuid) :
    ({ job with tasks := job.tasks.insert id status } : JobState Uuid).Tallied where
  completed := h.completed
  nodup := h.nodup
  known id' hid' := (AList.mem_insert _).mpr (Or.inr (h.known id' hid'))
  total := by
    rw [HashMap.length_keys_insert hid]
    exact h.total

/-- The first completion of a task keeps the tally, and so does any result that
is not a completion. -/
theorem Tallied.record {job : JobState Uuid} (h : job.Tallied) {result : TaskResult Uuid}
    (hid : result.taskId ∈ job.tasks)
    (hfirst : result.status.isCompleted → result.taskId ∉ job.results.map TaskResult.taskId) :
    (job.record result).Tallied := by
  have hcounters := record_counters job result
  have hresults := record_results job result
  have htasks := record_tasks job result
  have hinsert := h.insert hid result.status
  cases hstatus : result.status.isCompleted with
  | false =>
      simp only [hstatus, Bool.false_eq_true, if_false] at hcounters hresults
      refine ⟨?_, ?_, ?_, ?_⟩
      · rw [hcounters.2.1, hresults, h.completed, Nat.add_zero]
      · rw [hresults]
        exact h.nodup
      · rw [hresults, htasks]
        exact hinsert.known
      · rw [htasks, hcounters.1]
        exact hinsert.total
  | true =>
      simp only [hstatus, if_true] at hcounters hresults
      refine ⟨?_, ?_, ?_, ?_⟩
      · rw [hcounters.2.1, hresults, h.completed, List.length_append, List.length_singleton]
      · rw [hresults, List.map_append, List.map_singleton]
        exact h.nodup.append (List.nodup_singleton _) (by simpa using hfirst hstatus)
      · rw [hresults, htasks, List.map_append, List.map_singleton]
        intro id hmem
        rcases List.mem_append.mp hmem with hmem | hmem
        · exact hinsert.known id hmem
        · rw [List.mem_singleton.mp hmem]
          exact (AList.mem_insert _).mpr (Or.inl rfl)
      · rw [htasks, hcounters.1]
        exact hinsert.total

theorem tallied_submittedJob (dag : DagSpecification) (order : HashOrder String)
    (tasks : List (Task Uuid)) : (Master.submittedJob dag order tasks).Tallied where
  completed := rfl
  nodup := List.nodup_nil
  known id h := by cases h
  total := by
    have hsub : (Master.submittedJob dag order tasks).tasks.keys ⊆ tasks.map Task.taskId := by
      intro id hid
      have hsome := AList.lookup_isSome.mpr (AList.mem_keys.mpr hid)
      rw [Master.submittedJob_lookup] at hsome
      by_contra hmem
      rw [if_neg hmem] at hsome
      cases hsome
    have hlen := (List.subperm_of_subset (AList.keys_nodup _) hsub).length_le
    rw [List.length_map] at hlen
    exact hlen

end JobState

namespace System

/-- Every job is tallied, and the loops hold tasks of the jobs. -/
structure Tallied (s : System Uuid) : Prop where
  jobs : ∀ id job, s.job id = some job → job.Tallied
  loops : ∀ loop ∈ s.loops, ∀ task ∈ loop.tasks, (s.taskStatus task.key).isSome

/-- A result names a task of its job, and it is no second completion. -/
def FirstReport (s : System Uuid) : Event Uuid → Prop
  | .complete result => ∀ job ∈ s.job result.jobId, result.taskId ∈ job.tasks ∧
      (result.status.isCompleted → result.taskId ∉ job.results.map TaskResult.taskId)
  | _ => True

instance decidableFirstReport (s : System Uuid) : ∀ e, Decidable (FirstReport s e)
  | .complete result =>
      inferInstanceAs (Decidable (∀ job ∈ s.job result.jobId, result.taskId ∈ job.tasks ∧
        (result.status.isCompleted → result.taskId ∉ job.results.map TaskResult.taskId)))
  | .submit _ _ _ _ | .register _ | .heartbeat _ _ | .collect _ | .snapshot _ | .advance _ =>
      isTrue trivial

variable {env : MasterEnv Uuid} {s s' : System Uuid}

/-- A task that is known stays known. -/
theorem taskStatus_isSome_step {e : Event Uuid} (hstep : s.step env e = some s')
    {key : Uuid × Uuid} (h : (s.taskStatus key).isSome) : (s'.taskStatus key).isSome := by
  have htask := step_task hstep key
  generalize s'.taskStatus key = new at htask ⊢
  generalize s.taskStatus key = old at htask h
  cases htask with
  | unchanged => exact h
  | submitted hjob hmem => cases h
  | assigned hloop hkey => rfl
  | reported hkey => rfl

/-- The tasks of the loops after a step were in a loop before, or are tasks of a
job. -/
theorem step_loops {e : Event Uuid} (hstep : s.step env e = some s') {loop : Loop Uuid}
    (hloop : loop ∈ s'.loops) {task : Task Uuid} (htask : task ∈ loop.tasks) :
    (∃ loop ∈ s.loops, task ∈ loop.tasks) ∨ (s'.taskStatus task.key).isSome := by
  have hjobs := fun key => step_task hstep key
  cases e with
  | submit jobId dag order stagesOrder =>
      obtain ⟨-, ⟨_, store, -, rfl⟩ | ⟨tasks, store, jobs, rfl, rfl, -, rfl⟩⟩ := submit_cases hstep
      · exact Or.inl ⟨loop, hloop, htask⟩
      · rcases List.mem_append.mp hloop with hloop | hloop
        · exact Or.inl ⟨loop, hloop, htask⟩
        · cases List.mem_singleton.mp hloop
          right
          rw [taskStatus, job, Task.key, DagSpecification.materializeTasks_jobId env.newV5 htask,
            AList.lookup_insert, Option.bind_some, Master.submittedJob_lookup,
            if_pos (List.mem_map_of_mem htask)]
          rfl
  | snapshot order =>
      obtain rfl := snapshot_cases hstep
      rcases List.mem_append.mp hloop with hloop | hloop
      · exact Or.inl ⟨loop, hloop, htask⟩
      · cases List.mem_singleton.mp hloop
        obtain ⟨job, hjob, -, hqueued⟩ :=
          Master.mem_queuedTasks.mp (Master.mem_snapshot.mp htask)
        right
        have hstatus : s.taskStatus task.key = some .queued :=
          Option.bind_eq_some_iff.mpr ⟨job, hjob, hqueued⟩
        exact Option.isSome_iff_exists.mpr ⟨_, hstatus⟩
  | advance i =>
      left
      have hnext : ∃ head rest phase next, s.loops[i]? = some ⟨head :: rest, phase⟩ ∧
          s'.loops = s.loops.set i next ∧ next.tasks ⊆ head :: rest := by
        obtain ⟨head, rest, phase, hget, hphase⟩ := advance_cases hstep
        refine ⟨head, rest, phase, ?_⟩
        cases phase with
        | idle =>
            obtain ⟨next, _, hnext, rfl⟩ := hphase
            refine ⟨next, hget, rfl, ?_⟩
            rcases hnext with rfl | ⟨w, -, rfl⟩
            · exact List.subset_cons_self head rest
            · exact List.Subset.refl _
        | running worker =>
            subst hphase
            exact ⟨_, hget, rfl, List.subset_cons_self head rest⟩
        | _ =>
            subst hphase
            exact ⟨_, hget, rfl, List.Subset.refl _⟩
      obtain ⟨head, rest, phase, next, hget, hloops, hsub⟩ := hnext
      rw [hloops] at hloop
      rcases List.mem_or_eq_of_mem_set hloop with hmem | rfl
      · exact ⟨loop, hmem, htask⟩
      · exact ⟨_, List.mem_of_getElem? hget, hsub htask⟩
  | _ =>
      cases hstep
      exact Or.inl ⟨loop, hloop, htask⟩

theorem Tallied.step (h : s.Tallied) {e : Event Uuid} (hfirst : s.FirstReport e)
    (hstep : s.step env e = some s') : s'.Tallied where
  jobs id job' hjob' := by
    have hjob := step_job hstep id
    rw [hjob'] at hjob
    generalize hold : s.job id = old at hjob
    cases hjob with
    | unchanged => exact h.jobs id job' hold
    | submitted => exact JobState.tallied_submittedJob _ _ _
    | @assigned i task rest worker job hloop hid =>
        subst hid
        have hknown := h.loops _ (List.mem_of_getElem? hloop) task List.mem_cons_self
        rw [taskStatus, Task.key, hold, Option.bind_some] at hknown
        exact (h.jobs _ job hold).insert (AList.lookup_isSome.mp hknown) _
    | @running i task rest worker job hloop hid =>
        have hjob := h.jobs _ job hold
        exact ⟨hjob.completed, hjob.nodup, hjob.known, hjob.total⟩
    | @recorded result job hid hok =>
        subst hid
        have hreport := hfirst job hold
        exact (h.jobs _ job hold).record hreport.1 hreport.2
    | @refused result job hid hok =>
        subst hid
        exact (h.jobs _ job hold).insert (hfirst job hold).1 _
  loops loop hloop task htask := by
    rcases step_loops hstep hloop htask with ⟨loop', hloop', htask'⟩ | hsome
    · exact taskStatus_isSome_step hstep (h.loops loop' hloop' task htask')
    · exact hsome

/-- Delivering a result twice leaves the job as after the first time exactly when
the result is neither a completion nor a failure, or the store refuses it the
second time.  In a run from an empty master in which every result names a task of
its job and none is a second completion, the counter stays within the number of
tasks, the progress within 100, and no task has two results. -/
theorem delivery_idempotent {m : Master Uuid} {result : TaskResult Uuid} {job : JobState Uuid}
    (hjob : m.jobs.lookup result.jobId = some job) {events : List (Event Uuid)}
    {store : StateStore Uuid}
    (hfirst : Along (step env) FirstReport { master := { store } } events)
    (hrun : run (step env) { master := { store } } events = some s) :
    (((m.completeTask env result).2.completeTask env result).2.jobs.lookup result.jobId =
        (m.completeTask env result).2.jobs.lookup result.jobId ↔
      (result.status.isCompleted = false ∧ result.status.isFailed = false) ∨
        (m.completeTask env result).2.store.accepts result.taskId result.jobId = false) ∧
      ∀ id reached, s.job id = some reached →
        reached.metrics.completedTasks ≤ reached.metrics.totalTasks ∧
          (∀ response ∈ s.master.getJobStatus id, response.progress ≤ 100) ∧
          (reached.results.map TaskResult.taskId).Nodup := by
  refine ⟨Master.completeTask_twice_iff hjob, fun id reached hreached => ?_⟩
  have hstart : Tallied ({ master := { store } } : System Uuid) := by
    refine ⟨fun id job h => ?_, fun loop h => ?_⟩
    · simp [System.job] at h
    · cases h
  have hstep : ∀ s e s', Tallied s → FirstReport s e → s.step env e = some s' → Tallied s' :=
    fun s e s' h hfirst hstep => h.step hfirst hstep
  have htallied := run_invariant hstep hstart hfirst hrun
  have hbound := (htallied.jobs id reached hreached).completed_le
  refine ⟨hbound, fun response hresponse => ?_, (htallied.jobs id reached hreached).nodup⟩
  rw [Master.getJobStatus, show s.master.jobs.lookup id = some reached from hreached] at hresponse
  cases hresponse
  exact JobState.progress_le hbound

/-- A job of one task, which is reported. -/
def reportRun : List (Event Path) :=
  [readSubmission ["job"] 1, .complete (readResult ["job"] ["0-0", "job"] .completed)]

theorem delivery_idempotent_reportRun :
    ∃ s job, run (step pathEnv) {} reportRun = some s ∧ s.master.jobs.lookup ["job"] = some job ∧
      let result := readResult ["job"] ["0-0", "job"] .completed
      let once := (s.master.completeTask pathEnv result).2
      ((once.completeTask pathEnv result).2.jobs.lookup ["job"] = once.jobs.lookup ["job"] ↔
        (result.status.isCompleted = false ∧ result.status.isFailed = false) ∨
          once.store.accepts result.taskId result.jobId = false) ∧
      ∀ id reached, s.job id = some reached →
        reached.metrics.completedTasks ≤ reached.metrics.totalTasks ∧
          (∀ response ∈ s.master.getJobStatus id, response.progress ≤ 100) ∧
          (reached.results.map TaskResult.taskId).Nodup := by
  have hsome : ((run (step pathEnv) {} reportRun).bind fun s => s.job ["job"]).isSome := by decide
  obtain ⟨job, hjob⟩ := Option.isSome_iff_exists.mp hsome
  obtain ⟨s, hrun, hjob⟩ := Option.bind_eq_some_iff.mp hjob
  have hlookup :
      s.master.jobs.lookup (readResult ["job"] ["0-0", "job"] .completed).jobId = some job := hjob
  exact ⟨s, job, hrun, hjob, delivery_idempotent hlookup (by decide) hrun⟩

/-- A completion that is delivered again is counted again: two of one task are
completed. -/
theorem completion_counted_twice :
    ¬ ∀ (m : Master Path) (result : TaskResult Path) (job : JobState Path),
      m.jobs.lookup result.jobId = some job →
        ((m.completeTask pathEnv result).2.completeTask pathEnv result).2.jobs.lookup result.jobId =
          (m.completeTask pathEnv result).2.jobs.lookup result.jobId := by
  intro h
  have hsome : ((run (step pathEnv) {} [readSubmission ["job"] 1]).bind fun s =>
      s.job ["job"]).isSome := by decide
  obtain ⟨job, hjob⟩ := Option.isSome_iff_exists.mp hsome
  obtain ⟨s, hrun, hjob⟩ := Option.bind_eq_some_iff.mp hjob
  have htwice := h s.master (readResult ["job"] ["0-0", "job"] .completed) job hjob
  have hcounts : (run (step pathEnv) {} [readSubmission ["job"] 1]).map (fun s =>
      let result := readResult ["job"] ["0-0", "job"] .completed
      let once := (s.master.completeTask pathEnv result).2
      let twice := (once.completeTask pathEnv result).2
      ((once.jobs.lookup ["job"]).map fun job => job.metrics.completedTasks,
        (twice.jobs.lookup ["job"]).map fun job => job.metrics.completedTasks)) =
      some (some 1, some 2) := by decide
  rw [hrun, Option.map_some, Option.some.injEq, Prod.mk.injEq] at hcounts
  have hjobId : (readResult ["job"] ["0-0", "job"] .completed).jobId = ["job"] := rfl
  rw [hjobId] at htwice
  rw [htwice] at hcounts
  rw [hcounts.1] at hcounts
  exact absurd hcounts.2 (by decide)

end System
end ProcessingEngine

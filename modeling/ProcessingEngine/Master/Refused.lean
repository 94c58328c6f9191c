import ProcessingEngine.Master.Atomic
import ProcessingEngine.Master.System

/-!
# Reports that cannot be written

`complete_task` updates the status of the task in memory and then writes its row;
when the write is refused it returns the error, and the new status stays.  The
error leaves the master as it was exactly when the task had that status before
(`Master.atomicOnError_iff`).  Otherwise a completed task may remain of which
nothing is recorded, and the job succeeds without it
(`System.refused_report_succeeds`).
-/

namespace ProcessingEngine

open Lib

variable {Uuid : Type} [DecidableEq Uuid]

namespace JobState

/-- The same job; of its tasks, the same map. -/
structure Kept (job job' : JobState Uuid) : Prop where
  tasks : ∀ id, job'.tasks.lookup id = job.tasks.lookup id
  rest : { job' with tasks := job.tasks } = job

/-- Completed tasks have a result. -/
def Recorded (job : JobState Uuid) : Prop :=
  ∀ id, job.tasks.lookup id = some .completed → id ∈ job.results.map TaskResult.taskId

theorem kept_recordStatus_iff {job : JobState Uuid} {result : TaskResult Uuid} :
    job.Kept (job.recordStatus result) ↔
      job.tasks.lookup result.taskId = some result.status := by
  constructor
  · intro h
    have htask := h.tasks result.taskId
    rw [recordStatus, AList.lookup_insert] at htask
    exact htask.symm
  · intro h
    refine ⟨fun id => ?_, rfl⟩
    by_cases hid : id = result.taskId
    · subst hid
      rw [recordStatus, AList.lookup_insert, h]
    · exact AList.lookup_insert_ne hid

theorem Recorded.record {job : JobState Uuid} (h : job.Recorded) (result : TaskResult Uuid) :
    (job.record result).Recorded := by
  intro id hid
  rw [record_tasks] at hid
  rw [record_results]
  by_cases htask : id = result.taskId
  · subst htask
    rw [AList.lookup_insert] at hid
    rw [Option.some.inj hid]
    show _ ∈ (job.results ++ [result]).map TaskResult.taskId
    rw [List.map_append]
    exact List.mem_append_right _ (List.mem_singleton_self _)
  · rw [AList.lookup_insert_ne htask] at hid
    split_ifs
    · rw [List.map_append]
      exact List.mem_append_left _ (h id hid)
    · exact h id hid

end JobState

namespace Master

open StateStore (SameTables)

/-- The same jobs and tables. -/
structure Unchanged (m m' : Master Uuid) : Prop where
  jobs : ∀ id, Option.Rel JobState.Kept (m.jobs.lookup id) (m'.jobs.lookup id)
  store : SameTables m.store m'.store

/-- A report that is answered with an error changes nothing. -/
def AtomicOnError (env : MasterEnv Uuid) (m : Master Uuid) (result : TaskResult Uuid) : Prop :=
  ∀ e m', m.completeTask env result = (.error e, m') → m.Unchanged m'

/-- The row of the report is written, or the task has the reported status already. -/
def ReportFits (m : Master Uuid) (result : TaskResult Uuid) : Prop :=
  m.store.accepts result.taskId result.jobId ∨
    ∀ job ∈ m.jobs.lookup result.jobId, job.tasks.lookup result.taskId = some result.status

instance decidableReportFits (m : Master Uuid) (result : TaskResult Uuid) :
    Decidable (m.ReportFits result) :=
  inferInstanceAs (Decidable (_ ∨ ∀ job ∈ m.jobs.lookup result.jobId, _))

variable {env : MasterEnv Uuid} {m : Master Uuid} {result : TaskResult Uuid}

omit [DecidableEq Uuid] in
/-- A transaction that is answered with an error has changed no table. -/
theorem sameTables_of_error {store store' : StateStore Uuid} {allowed : Bool}
    {commit : StateStore Uuid → StateStore Uuid} {e : StoreError}
    (h : store.transaction allowed commit = (.error e, store')) : SameTables store store' := by
  rw [StateStore.transaction] at h
  split_ifs at h
  · cases h
    exact ⟨rfl, rfl, rfl, rfl⟩
  · cases h
  · cases h
    exact ⟨rfl, rfl, rfl, rfl⟩

/-- A report of a known job whose row is refused. -/
theorem completeTask_refused {job : JobState Uuid} (hjob : m.jobs.lookup result.jobId = some job)
    (hrefused : m.store.accepts result.taskId result.jobId = false) :
    ∃ e store, SameTables m.store store ∧ m.completeTask env result =
      (.error e, { m with
        store, jobs := m.jobs.insert result.jobId (job.recordStatus result) }) := by
  have hok : (m.store.persistTaskResult env.serde result).1 = .ok () ↔
      m.store.accepts result.taskId result.jobId := StateStore.persistTaskResult_ok_iff
  simp only [completeTask, hjob]
  rcases hwrite : m.store.persistTaskResult env.serde result with ⟨e | _, store⟩
  · exact ⟨e, store, sameTables_of_error hwrite, rfl⟩
  · rw [hwrite, hrefused] at hok
    cases hok.mp rfl

theorem atomicOnError_iff (env : MasterEnv Uuid) (m : Master Uuid) (result : TaskResult Uuid) :
    m.AtomicOnError env result ↔ m.ReportFits result := by
  by_cases haccepts : m.store.accepts result.taskId result.jobId = true
  · refine iff_of_true (fun e m' h => ?_) (Or.inl haccepts)
    exfalso
    cases hjob : m.jobs.lookup result.jobId with
    | none =>
        rw [completeTask_unknown hjob] at h
        cases h
    | some job =>
        have hok : (m.store.persistTaskResult env.serde result).1 = .ok () :=
          StateStore.persistTaskResult_ok_iff.mpr haccepts
        simp only [completeTask, hjob] at h
        rcases hwrite : m.store.persistTaskResult env.serde result with ⟨e | _, store⟩
        · rw [hwrite] at hok
          cases hok
        · rw [hwrite] at h
          cases h
  · have hrefused : m.store.accepts result.taskId result.jobId = false := by simpa using haccepts
    rw [ReportFits, or_iff_right haccepts]
    cases hjob : m.jobs.lookup result.jobId with
    | none =>
        refine iff_of_true (fun e m' h => ?_) fun job h => by cases h
        rw [completeTask_unknown hjob] at h
        cases h
    | some job =>
        obtain ⟨e, store, hstore, hcomplete⟩ := @completeTask_refused _ _ env m result job hjob
          hrefused
        rw [AtomicOnError, hcomplete]
        constructor
        · intro h job' hjob'
          obtain rfl : job = job' := Option.some.inj hjob'
          have hrel := (h e _ rfl).jobs result.jobId
          rw [hjob, AList.lookup_insert] at hrel
          cases hrel with
          | some hkept => exact JobState.kept_recordStatus_iff.mp hkept
        · intro h e' m' heq
          cases heq
          refine ⟨fun id => ?_, hstore⟩
          by_cases hid : id = result.jobId
          · subst hid
            rw [hjob, AList.lookup_insert]
            exact .some (JobState.kept_recordStatus_iff.mpr (h job rfl))
          · rw [AList.lookup_insert_ne hid]
            cases m.jobs.lookup id with
            | none => exact .none
            | some other => exact .some ⟨fun _ => rfl, rfl⟩

end Master

namespace System

open Master (submittedJob_lookup)

variable {env : MasterEnv Uuid} {s s' : System Uuid}

/-- A report that is taken fits. -/
def ReportsFit (s : System Uuid) : Event Uuid → Prop
  | .complete result => s.master.ReportFits result
  | _ => True

instance decidableReportsFit (s : System Uuid) : ∀ e, Decidable (s.ReportsFit e)
  | .complete result => inferInstanceAs (Decidable (s.master.ReportFits result))
  | .submit _ _ _ _ => inferInstanceAs (Decidable True)
  | .register _ => inferInstanceAs (Decidable True)
  | .heartbeat _ _ => inferInstanceAs (Decidable True)
  | .collect _ => inferInstanceAs (Decidable True)
  | .snapshot _ => inferInstanceAs (Decidable True)
  | .advance _ => inferInstanceAs (Decidable True)

theorem recorded_step {e : Event Uuid} (h : ∀ id, ∀ job ∈ s.job id, job.Recorded)
    (hfits : s.ReportsFit e) (hstep : s.step env e = some s') :
    ∀ id, ∀ job ∈ s'.job id, job.Recorded := by
  intro id job hjob
  have hchange := step_job hstep id
  have hold := h id
  generalize hbefore : s.job id = before at hchange hold
  rw [hjob] at hchange
  cases hchange with
  | unchanged => exact hold job rfl
  | submitted =>
      intro taskId htask
      rw [submittedJob_lookup] at htask
      split_ifs at htask
      cases htask
  | @assigned i task rest worker job hloop hid =>
      intro taskId htask
      by_cases hsame : taskId = task.taskId
      · subst hsame
        rw [AList.lookup_insert] at htask
        cases htask
      · rw [AList.lookup_insert_ne hsame] at htask
        exact hold job rfl taskId htask
  | @running i task rest worker job hloop hid => exact hold job rfl
  | recorded hid hok => exact (hold _ rfl).record _
  | @refused result job hid hok =>
      subst hid
      have htask := Or.resolve_left hfits (by rw [hok]; exact Bool.false_ne_true)
        job hbefore
      intro taskId hcompleted
      rw [(JobState.kept_recordStatus_iff.mpr htask).tasks] at hcompleted
      exact hold job rfl taskId hcompleted

/-- In every state that is reached, a report that is answered with an error changes
nothing exactly when it fits; and when all reports of the run fit, no job is left
with a completed task of which no result is recorded. -/
theorem reports_atomic {events : List (Event Uuid)}
    (hstart : ∀ id, ∀ job ∈ s.job id, job.Recorded) (hrun : run (step env) s events = some s') :
    (∀ result, s'.master.AtomicOnError env result ↔ s'.master.ReportFits result) ∧
      (Along (step env) ReportsFit s events → ∀ id, ∀ job ∈ s'.job id, job.Recorded) :=
  ⟨Master.atomicOnError_iff env s'.master, fun hfits =>
    run_invariant (I := fun s : System Uuid => ∀ id, ∀ job ∈ s.job id, job.Recorded)
      (fun _ _ _ h hfit hstep => recorded_step h hfit hstep) hstart hfits hrun⟩

/-- The master on an empty database that refuses its fifth write. -/
def refusing (m : Master Path) : System Path :=
  { master := { m with store := { faults := [false, false, false, false, true] } } }

def readTask (partition : Nat) : Path := [DagSpecification.stableIdInput 0 partition, "job"]

def readReport (partition : Nat) : TaskResult Path :=
  readResult ["job"] (readTask partition) .completed

theorem reports_atomic_readSubmission :
    ∃ s, run (step pathEnv) {} [readSubmission ["job"] 2, .complete (readReport 0)] = some s ∧
      (∀ result, s.master.AtomicOnError pathEnv result ↔ s.master.ReportFits result) ∧
      ∀ id, ∀ job ∈ s.job id, job.Recorded := by
  have hsome : (run (step pathEnv) {}
      [readSubmission ["job"] 2, .complete (readReport 0)]).isSome := by decide
  obtain ⟨s, hrun⟩ := Option.isSome_iff_exists.mp hsome
  have hatomic := reports_atomic (fun _ _ h => by cases h) hrun
  exact ⟨s, hrun, hatomic.1, hatomic.2 (by decide)⟩

/-- A refused report leaves its task completed, and the job succeeds without its
result. -/
theorem refused_report_succeeds :
    (∃ s, run (step pathEnv) (refusing {}) [readSubmission ["job"] 2] = some s ∧
      ¬ s.master.AtomicOnError pathEnv (readReport 0)) ∧
    ((run (step pathEnv) (refusing {}) [readSubmission ["job"] 2, .complete (readReport 0),
        .complete (readReport 1)]).bind fun s => s.job ["job"]).map (fun job =>
          (job.status, (job.tasks.lookup (readTask 0)).map TaskStatus.isCompleted,
            job.results.map TaskResult.taskId, job.metrics.completedTasks,
            job.metrics.totalTasks)) =
      some (.succeeded, some true, [readTask 1], 1, 2) := by
  constructor
  · have hsome : (run (step pathEnv) (refusing {}) [readSubmission ["job"] 2]).isSome := by decide
    obtain ⟨s, hrun⟩ := Option.isSome_iff_exists.mp hsome
    refine ⟨s, hrun, fun hatomic => ?_⟩
    have hfits := (Master.atomicOnError_iff _ _ _).mp hatomic
    have hrefused : ((run (step pathEnv) (refusing {}) [readSubmission ["job"] 2]).map fun s =>
        decide (s.master.ReportFits (readReport 0))) = some false := by decide
    rw [hrun, Option.map_some, Option.some.injEq] at hrefused
    exact of_decide_eq_false hrefused hfits
  · decide

end System
end ProcessingEngine

import ProcessingEngine.Master.System

/-!
# Ended jobs

Two critical sections write the status of a job: the one of `schedule_task` that
marks it as running, and `complete_task`.  Neither looks at the status it
replaces.  `reopens_iff` lists the events that take an ended job out of its
state, and `terminal_absorbing_iff` lifts the list to runs.
-/

namespace ProcessingEngine
namespace System

open Lib

variable {Uuid : Type} [DecidableEq Uuid]

/-- Jobs that have ended keep their status. -/
def TerminalKept (s s' : System Uuid) : Prop :=
  ∀ id job, s.job id = some job → job.status.isTerminal →
    ∃ job', s'.job id = some job' ∧ job'.status = job.status

/-- The event writes another status to an ended job: a section marks it as
running, a failure is recorded for a job that has succeeded, or a completion
leaves no unfinished task in a job that has failed. -/
def Reopens (s : System Uuid) : Event Uuid → Prop
  | .advance i => ∃ task rest worker job, s.loops[i]? = some ⟨task :: rest, .persisted worker⟩ ∧
      s.job task.jobId = some job ∧ job.status.isTerminal
  | .complete result => ∃ job, s.job result.jobId = some job ∧
      s.master.store.accepts result.taskId result.jobId ∧
      (job.status = .succeeded ∧ result.status.isFailed ∨
        job.status = .failed ∧ result.status.isCompleted ∧
          ∀ id status, id ≠ result.taskId → job.tasks.lookup id = some status →
            status = .completed)
  | _ => False

variable {env : MasterEnv Uuid} {s s' : System Uuid}

theorem recordStatus_pending_iff {job : JobState Uuid} {result : TaskResult Uuid}
    (h : result.status = .completed) :
    (job.recordStatus result).pending = false ↔
      ∀ id status, id ≠ result.taskId → job.tasks.lookup id = some status →
        status = .completed := by
  rw [JobState.pending_iff]
  constructor
  · intro hall id status hne hid
    exact hall id status (by rw [JobState.recordStatus, AList.lookup_insert_ne hne, hid])
  · intro hall id status hid
    by_cases hne : id = result.taskId
    · subst hne
      rw [JobState.recordStatus, AList.lookup_insert, h] at hid
      exact (Option.some.inj hid).symm
    · rw [JobState.recordStatus, AList.lookup_insert_ne hne] at hid
      exact hall id status hne hid

/-- When a recorded result leaves the status of an ended job alone. -/
theorem record_status_eq_iff {job : JobState Uuid} {result : TaskResult Uuid}
    (hterm : job.status.isTerminal) :
    (job.record result).status = job.status ↔
      ¬ (job.status = .succeeded ∧ result.status.isFailed ∨
        job.status = .failed ∧ result.status.isCompleted ∧
          ∀ id status, id ≠ result.taskId → job.tasks.lookup id = some status →
            status = .completed) := by
  rw [JobState.record_status]
  have hended : job.status = .succeeded ∨ job.status = .failed := by
    cases hstatus : job.status <;> rw [hstatus] at hterm <;>
      first | exact Or.inl rfl | exact Or.inr rfl | cases hterm
  cases hresult : result.status with
  | completed =>
      rw [← recordStatus_pending_iff hresult]
      rcases hended with hjob | hjob
      · simp [hjob, TaskStatus.isFailed]
      · cases (job.recordStatus result).pending <;> simp [hjob, TaskStatus.isCompleted]
  | failed message =>
      rcases hended with hjob | hjob <;>
        simp [hjob, TaskStatus.isFailed, TaskStatus.isCompleted]
  | _ => simp [TaskStatus.isFailed, TaskStatus.isCompleted]

/-- Which single events are safe for ended jobs. -/
theorem reopens_iff {e : Event Uuid} (h : s.step env e = some s') :
    TerminalKept s s' ↔ ¬ s.Reopens e := by
  constructor
  · intro hkept hreopens
    cases e with
    | advance i =>
        obtain ⟨task, rest, worker, job, hloop, hjob, hterm⟩ := hreopens
        obtain ⟨task', rest', phase, hloop', hphase⟩ := advance_cases h
        cases hloop.symm.trans hloop'
        subst hphase
        obtain ⟨job', hjob', hstatus⟩ := hkept _ _ hjob hterm
        have hlookup := Master.markRunning_lookup_self env s.master task
        rw [show s.master.jobs.lookup task.jobId = some job from hjob] at hlookup
        cases hjob'.symm.trans hlookup
        rw [← hstatus] at hterm
        cases hterm
    | complete result =>
        obtain ⟨job, hjob, hok, hbad⟩ := hreopens
        have hterm : job.status.isTerminal := by
          rcases hbad with ⟨hs, -⟩ | ⟨hs, -⟩ <;> rw [hs] <;> rfl
        cases h
        obtain ⟨job', hjob', hstatus⟩ := hkept _ _ hjob hterm
        have hlookup := Master.completeTask_lookup_self env hjob
        rw [if_pos hok] at hlookup
        cases hjob'.symm.trans hlookup
        exact (record_status_eq_iff hterm).mp hstatus hbad
    | _ => exact hreopens
  · intro hsafe id job hjob hterm
    have hstep := step_job h id
    rw [hjob] at hstep
    generalize hnext : s'.job id = next at hstep
    cases hstep with
    | unchanged => exact ⟨job, rfl, rfl⟩
    | assigned hloop hid => exact ⟨_, rfl, rfl⟩
    | @running i task rest worker _ hloop hid =>
        subst hid
        exact absurd ⟨task, rest, worker, job, hloop, hjob, hterm⟩ hsafe
    | @recorded result _ hid hok =>
        subst hid
        refine ⟨_, rfl, (record_status_eq_iff hterm).mpr fun hbad => ?_⟩
        exact hsafe ⟨job, hjob, hok, hbad⟩
    | refused hid hok => exact ⟨_, rfl, rfl⟩

/-- Ended jobs keep their status across every stretch of a run exactly when no
event of the run reopens one. -/
theorem terminal_absorbing_iff {events : List (Event Uuid)}
    (hrun : run (step env) s events = some s') :
    (∀ before stretch after s₁ s₂, events = before ++ stretch ++ after →
        run (step env) s before = some s₁ → run (step env) s₁ stretch = some s₂ →
        TerminalKept s₁ s₂) ↔
      Along (step env) (fun s e => ¬ s.Reopens e) s events := by
  refine along_iff_segments (R := TerminalKept) (fun s id job hjob _ => ⟨job, hjob, rfl⟩) ?_
    (fun s e s' h => reopens_iff h) hrun
  intro s t u hst htu id job hjob hterm
  obtain ⟨job', hjob', hstatus⟩ := hst id job hjob hterm
  obtain ⟨job'', hjob'', hstatus'⟩ := htu id job' hjob' (hstatus ▸ hterm)
  exact ⟨job'', hjob'', hstatus'.trans hstatus⟩

/-- A job of two tasks of which the first fails while the second waits. -/
def failureRun : List (Event Path) :=
  [registration, readSubmission ["job"] 2, .advance 0, .advance 0, .advance 0, .advance 0,
    .advance 0, .complete (readResult ["job"] ["0-0", "job"] (.failed "out of memory"))]

/-- The loop of the submission goes on to the second task. -/
def secondTask : List (Event Path) := [.advance 0, .advance 0, .advance 0, .advance 0]

theorem terminal_absorbing_iff_failureRun :
    ∃ s', run (step pathEnv) {} failureRun = some s' ∧
      ((∀ before stretch after s₁ s₂, failureRun = before ++ stretch ++ after →
          run (step pathEnv) {} before = some s₁ → run (step pathEnv) s₁ stretch = some s₂ →
          TerminalKept s₁ s₂) ↔
        Along (step pathEnv) (fun s e => ¬ s.Reopens e) {} failureRun) := by
  have hsome : (run (step pathEnv) {} failureRun).isSome := by decide
  obtain ⟨s', hrun⟩ := Option.isSome_iff_exists.mp hsome
  exact ⟨s', hrun, terminal_absorbing_iff hrun⟩

/-- The second task marks the failed job as running. -/
theorem failed_job_runs_again :
    ¬ ∀ (before stretch : List (Event Path)) (s₁ s₂ : System Path),
      run (step pathEnv) {} before = some s₁ → run (step pathEnv) s₁ stretch = some s₂ →
        TerminalKept s₁ s₂ := by
  intro h
  have hfirst : (run (step pathEnv) {} failureRun).map
      (fun s => (s.job ["job"]).map JobState.status) = some (some .failed) := by decide
  have hsecond : (run (step pathEnv) {} (failureRun ++ secondTask)).map
      (fun s => (s.job ["job"]).map JobState.status) = some (some .running) := by decide
  obtain ⟨s₂, hrun, hs₂⟩ := Option.map_eq_some_iff.mp hsecond
  obtain ⟨s₁, hrun₁, hrun₂⟩ := run_append_eq_some.mp hrun
  rw [hrun₁, Option.map_some, Option.some.injEq] at hfirst
  obtain ⟨job₁, hjob₁, hfailed⟩ := Option.map_eq_some_iff.mp hfirst
  obtain ⟨job₂, hjob₂, hrunning⟩ := Option.map_eq_some_iff.mp hs₂
  obtain ⟨job, hjob, hstatus⟩ := h failureRun secondTask s₁ s₂ hrun₁ hrun₂ ["job"] job₁ hjob₁
    (by rw [hfailed]; rfl)
  cases hjob.symm.trans hjob₂
  rw [hfailed, hrunning] at hstatus
  cases hstatus

end System
end ProcessingEngine

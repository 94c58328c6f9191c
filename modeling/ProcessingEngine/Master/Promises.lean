import ProcessingEngine.Master.Delivery
import ProcessingEngine.Master.Detection
import ProcessingEngine.Master.Dispatch
import ProcessingEngine.Master.Genuine

/-!
# What outlives a crash

A client that was given a job id and a worker whose report was answered with
`Ok` rely on the master, however often it stops afterwards.  `Observed` adds to
a service what the others have seen of it.  In every run, with crashes between
any two writes and with refused writes, a master that runs knows each accepted
job with its DAG and its tasks, and its results lie between the acknowledged and
the reported ones (`Observed.run_promises`).
-/

namespace ProcessingEngine

open Lib

variable {Uuid : Type} [DecidableEq Uuid]

/-- A job whose submission was answered with its id. -/
structure Submission (Uuid : Type) where
  jobId : Uuid
  dag : DagSpecification
  taskIds : List Uuid

/-- A service with what has left it and what has come in. -/
structure Observed (Uuid : Type) [DecidableEq Uuid] where
  service : Service Uuid := {}
  submitted : List (Submission Uuid) := []
  /-- The tasks sent to workers. -/
  sent : List (Uuid × Uuid) := []
  reported : List (TaskResult Uuid) := []
  /-- The reports that were answered with `Ok`. -/
  acknowledged : List (TaskResult Uuid) := []

namespace Event

def reports : Event Uuid → List (TaskResult Uuid)
  | .complete result => [result]
  | _ => []

/-- The submissions that the event answers with a job id. -/
def submissions (env : MasterEnv Uuid) (s : System Uuid) : Event Uuid → List (Submission Uuid)
  | .submit jobId dag order stagesOrder =>
      match (s.master.submitJob env order stagesOrder dag jobId).1 with
      | .ok tasks => [⟨jobId, dag, tasks.map Task.taskId⟩]
      | .error _ => []
  | _ => []

def acknowledges (env : MasterEnv Uuid) (s : System Uuid) :
    Event Uuid → List (TaskResult Uuid)
  | .complete result =>
      match (s.master.completeTask env result).1 with
      | .ok () => [result]
      | .error _ => []
  | _ => []

/-- The tasks sent once the event has happened. -/
def sends (env : MasterEnv Uuid) (s : System Uuid) (e : Event Uuid) : List (Uuid × Uuid) :=
  (s.step env e).elim [] System.sent

end Event

namespace Observed

abbrev system (o : Observed Uuid) : System Uuid := o.service.system

/-- The tables on the disk. -/
abbrev store (o : Observed Uuid) : StateStore Uuid := o.service.system.master.store

/-- What is seen of an incident.  The clients of an event that is cut by a crash get
no answer. -/
def observe (env : MasterEnv Uuid) (o : Observed Uuid) : Incident Uuid → Observed Uuid
  | .event e =>
      { o with
        submitted := e.submissions env o.system ++ o.submitted
        sent := e.sends env o.system ++ o.sent
        reported := e.reports ++ o.reported
        acknowledged := e.acknowledges env o.system ++ o.acknowledged }
  | .crash e _ =>
      { o with
        sent := e.sends env o.system ++ o.sent
        reported := e.reports ++ o.reported }
  | .restart => o
  | .interrupt _ => o

def step (env : MasterEnv Uuid) (o : Observed Uuid) (a : Incident Uuid) :
    Option (Observed Uuid) :=
  (o.service.step env a).map fun service => { o.observe env a with service }

/-- Results are reported for tasks that were sent, before a crash or after it. -/
def Honest (o : Observed Uuid) : Incident Uuid → Prop
  | .event e => ∀ result ∈ e.reports, result.key ∈ o.sent
  | .crash e _ => ∀ result ∈ e.reports, result.key ∈ o.sent
  | .restart => True
  | .interrupt _ => True

instance decidableHonest (o : Observed Uuid) : ∀ a, Decidable (o.Honest a)
  | .event e => inferInstanceAs (Decidable (∀ result ∈ e.reports, result.key ∈ o.sent))
  | .crash e _ => inferInstanceAs (Decidable (∀ result ∈ e.reports, result.key ∈ o.sent))
  | .restart => isTrue trivial
  | .interrupt _ => isTrue trivial

/-- The accepted jobs are known with their tasks.  An acknowledged task of which
every report says that it is completed has a result, and the results are reports
of completed tasks. -/
structure Promises (o : Observed Uuid) : Prop where
  jobs : ∀ p ∈ o.submitted, ∃ job, o.system.job p.jobId = some job ∧ job.dag = p.dag ∧
    ∀ taskId, taskId ∈ job.tasks ↔ taskId ∈ p.taskIds
  acknowledged : ∀ r ∈ o.acknowledged,
    (∀ r' ∈ o.reported, r'.key = r.key → r'.status = .completed) →
      ∃ results, o.system.master.getJobResults r.jobId = some results ∧
        ∃ r' ∈ results, r'.key = r.key
  reported : ∀ jobId results, o.system.master.getJobResults jobId = some results →
    ∀ r ∈ results, r ∈ o.reported ∧ r.status = .completed ∧ r.jobId = jobId

end Observed

/-! ### Rows that stay -/

namespace StateStore

/-- There is a row of the task, with the property. -/
def HasRow (P : TaskRow Uuid → Prop) (taskId : Uuid) (store : StateStore Uuid) : Prop :=
  ∃ row, store.tasks.lookup taskId = some row ∧ P row

/-- The row of the task names the job. -/
def Owned (key : Uuid × Uuid) : StateStore Uuid → Prop :=
  HasRow (fun row => row.jobId = key.1) key.2

/-- The row of the task names the job and has a result. -/
def Answered (key : Uuid × Uuid) : StateStore Uuid → Prop :=
  HasRow (fun row => row.jobId = key.1 ∧ row.resultJson.isSome) key.2

variable {serde : Serde Uuid} {store : StateStore Uuid} {key : Uuid × Uuid}

/-- No write removes a row, or changes more of it than its status and its result. -/
theorem hasRow_keptByWrites (serde : Serde Uuid) {P : TaskRow Uuid → Prop}
    (hstatus : ∀ row status, P row → P { row with status })
    (hresult : ∀ row status json, P row → P { row with status, resultJson := some json })
    (taskId : Uuid) : KeptByWrites serde (fun _ => True) (HasRow P taskId) where
  job _ _ _ _ h _ := transaction_keeps h fun _ => h
  jobStatus _ _ _ _ _ _ _ h := transaction_keeps h fun _ => h
  workerMetrics _ _ _ _ _ h := transaction_keeps h fun _ => h
  taskStatus store id jobId status h := by
    refine transaction_keeps h fun _ => ?_
    obtain ⟨row, hrow, hP⟩ := h
    show ∃ row, (store.tasks.insert id _).lookup taskId = some row ∧ P row
    by_cases hid : taskId = id
    · subst hid
      rw [AList.lookup_insert, hrow]
      exact ⟨_, rfl, hstatus row _ hP⟩
    · rw [AList.lookup_insert_ne hid]
      exact ⟨row, hrow, hP⟩
  taskResult store result h := by
    refine transaction_keeps h fun _ => ?_
    obtain ⟨row, hrow, hP⟩ := h
    show ∃ row, (store.tasks.insert result.taskId _).lookup taskId = some row ∧ P row
    by_cases hid : taskId = result.taskId
    · subst hid
      rw [AList.lookup_insert, hrow]
      exact ⟨_, rfl, hresult row _ _ hP⟩
    · rw [AList.lookup_insert_ne hid]
      exact ⟨row, hrow, hP⟩

theorem owned_keptByWrites (serde : Serde Uuid) (key : Uuid × Uuid) :
    KeptByWrites serde (fun _ => True) (Owned key) :=
  hasRow_keptByWrites serde (fun _ _ h => h) (fun _ _ _ h => h) key.2

theorem answered_keptByWrites (serde : Serde Uuid) (key : Uuid × Uuid) :
    KeptByWrites serde (fun _ => True) (Answered key) :=
  hasRow_keptByWrites serde (fun _ _ h => h) (fun _ _ _ h => ⟨h.1, rfl⟩) key.2

theorem Answered.owned (h : Answered key store) : Owned key store := by
  obtain ⟨row, hrow, howner, -⟩ := h
  exact ⟨row, hrow, howner⟩

/-- The owner of a row is one. -/
theorem Owned.unique {jobId jobId' taskId : Uuid} (h : Owned (jobId, taskId) store)
    (h' : Owned (jobId', taskId) store) : jobId = jobId' := by
  obtain ⟨row, hrow, howner⟩ := h
  obtain ⟨row', hrow', howner'⟩ := h'
  obtain rfl : row = row' := Option.some.inj (hrow.symm.trans hrow')
  exact howner.symm.trans howner'

/-- A row after a write is an old one, or the one that was written. -/
theorem perform_row {write : Write Uuid} {taskId : Uuid} {row : TaskRow Uuid}
    (h : (write.perform serde store).2.tasks.lookup taskId = some row) :
    store.tasks.lookup taskId = some row ∨
      (∃ jobId status, write = .taskStatus taskId jobId status ∧
        row = taskRowWithStatus (store.tasks.lookup taskId) jobId (serde.taskStatus status)) ∨
      ∃ result, write = .taskResult result ∧ result.taskId = taskId ∧
        row = taskRowWithResult (store.tasks.lookup taskId) result.jobId
          (serde.taskStatus result.status) (serde.result result) := by
  revert h
  cases write with
  | taskStatus id jobId status =>
      refine transaction_keeps (Q := fun s => s.tasks.lookup taskId = some row → _) Or.inl
        fun _ h => ?_
      have h : (store.tasks.insert id _).lookup taskId = some row := h
      by_cases hid : taskId = id
      · subst hid
        rw [AList.lookup_insert, Option.some.injEq] at h
        exact Or.inr (Or.inl ⟨jobId, status, rfl, h.symm⟩)
      · rw [AList.lookup_insert_ne hid] at h
        exact Or.inl h
  | taskResult result =>
      refine transaction_keeps (Q := fun s => s.tasks.lookup taskId = some row → _) Or.inl
        fun _ h => ?_
      have h : (store.tasks.insert result.taskId _).lookup taskId = some row := h
      by_cases hid : taskId = result.taskId
      · subst hid
        rw [AList.lookup_insert, Option.some.injEq] at h
        exact Or.inr (Or.inr ⟨result, rfl, rfl, h.symm⟩)
      · rw [AList.lookup_insert_ne hid] at h
        exact Or.inl h
  | _ =>
      exact transaction_keeps (Q := fun s => s.tasks.lookup taskId = some row → _) Or.inl
        fun _ => Or.inl

end StateStore

/-! ### The tables keep the promises -/

/-- The write agrees with the accepted jobs, and a written result was reported for
a task of its job. -/
def Write.Fits (o : Observed Uuid) (store : StateStore Uuid) : Write Uuid → Prop
  | .job jobId dag _ => ∀ p ∈ o.submitted, p.jobId = jobId → p.dag = dag
  | .jobStatus _ _ _ _ _ _ => True
  | .taskStatus taskId jobId _ =>
      store.Owned (jobId, taskId) ∨ ∀ p ∈ o.submitted, p.jobId ≠ jobId
  | .taskResult result => result ∈ o.reported ∧ store.Owned result.key
  | .workerMetrics _ _ _ _ => True

/-- Another write changes nothing about that. -/
theorem Write.Fits.perform {serde : Serde Uuid} {o : Observed Uuid} {store : StateStore Uuid}
    {write : Write Uuid} (h : write.Fits o store) (other : Write Uuid) :
    write.Fits o (other.perform serde store).2 := by
  have hkeep := fun key => @Write.perform_keeps _ _ serde _
    (StateStore.owned_keptByWrites serde key) other store
  cases write with
  | taskStatus taskId jobId status => exact Or.imp_left (hkeep _) h
  | taskResult result => exact ⟨h.1, hkeep _ h.2⟩
  | _ => exact h

namespace Observed

open StateStore (Owned Answered)

variable {env : MasterEnv Uuid} {o : Observed Uuid} {store : StateStore Uuid}

/-- What the tables hold of the promises. -/
structure Records (env : MasterEnv Uuid) (o : Observed Uuid) (store : StateStore Uuid) :
    Prop where
  legible : store.Legible env.serde
  jobs : ∀ p ∈ o.submitted, ∃ row, store.jobs.lookup p.jobId = some row ∧
    row.dagJson = env.serde.dag p.dag
  tasks : ∀ p ∈ o.submitted, ∀ taskId, taskId ∈ p.taskIds ↔ store.Owned (p.jobId, taskId)
  results : ∀ taskId row text, store.tasks.lookup taskId = some row →
    row.resultJson = some text →
      ∃ r ∈ o.reported, text = env.serde.result r ∧ r.key = (row.jobId, taskId)
  acknowledged : ∀ r ∈ o.acknowledged, store.Answered r.key
  sent : ∀ key ∈ o.sent, store.Owned key

theorem Records.perform (h : Records env o store) {write : Write Uuid}
    (hfits : write.Fits o store) : Records env o (write.perform env.serde store).2 where
  legible := write.perform_keeps (StateStore.legible_keptByWrites _) h.legible
  jobs p hp := by
    obtain ⟨row, hrow, hdag⟩ := h.jobs p hp
    have hrest : ∃ row, store.jobs.lookup p.jobId = some row ∧
        row.dagJson = env.serde.dag p.dag := ⟨row, hrow, hdag⟩
    cases write with
    | job jobId dag status =>
        refine StateStore.transaction_keeps (Q := fun s => ∃ row, s.jobs.lookup p.jobId =
          some row ∧ row.dagJson = env.serde.dag p.dag) hrest fun _ => ?_
        show ∃ row, (store.jobs.insert jobId _).lookup p.jobId = some row ∧ _
        by_cases hid : p.jobId = jobId
        · subst hid
          rw [AList.lookup_insert]
          exact ⟨_, rfl, by rw [hfits p hp rfl]⟩
        · rw [AList.lookup_insert_ne hid]
          exact hrest
    | _ =>
        exact StateStore.transaction_keeps (Q := fun s => ∃ row, s.jobs.lookup p.jobId =
          some row ∧ row.dagJson = env.serde.dag p.dag) hrest fun _ => hrest
  tasks p hp taskId := by
    rw [h.tasks p hp taskId]
    constructor
    · exact write.perform_keeps (StateStore.owned_keptByWrites _ _)
    · rintro ⟨row, hrow, howner⟩
      rcases StateStore.perform_row hrow with hold | ⟨jobId, status, rfl, rfl⟩ |
        ⟨result, rfl, rfl, rfl⟩
      · exact ⟨row, hold, howner⟩
      · cases hlookup : store.tasks.lookup taskId with
        | none =>
            rw [hlookup] at howner
            rcases hfits with ⟨old, hold, -⟩ | hother
            · rw [hlookup] at hold
              cases hold
            · exact absurd howner.symm (hother p hp)
        | some old =>
            rw [hlookup] at howner
            exact ⟨old, hlookup, howner⟩
      · obtain ⟨old, hold, -⟩ := hfits.2
        have hold : store.tasks.lookup result.taskId = some old := hold
        rw [hold] at howner
        exact ⟨old, hold, howner⟩
  results taskId row text hrow htext := by
    rcases StateStore.perform_row hrow with hold | ⟨jobId, status, rfl, rfl⟩ |
      ⟨result, rfl, rfl, rfl⟩
    · exact h.results taskId row text hold htext
    · cases hlookup : store.tasks.lookup taskId with
      | none =>
          rw [hlookup] at htext
          cases htext
      | some old =>
          rw [hlookup] at htext
          exact h.results taskId old text hlookup htext
    · obtain ⟨hreported, old, hold, howner⟩ := hfits
      have hold : store.tasks.lookup result.taskId = some old := hold
      rw [hold] at htext ⊢
      refine ⟨result, hreported, (Option.some.inj htext).symm, ?_⟩
      exact Prod.ext howner.symm rfl
  acknowledged r hr := write.perform_keeps (StateStore.answered_keptByWrites _ _)
    (h.acknowledged r hr)
  sent key hkey := write.perform_keeps (StateStore.owned_keptByWrites _ _) (h.sent key hkey)

theorem Records.attempt (h : Records env o store) {writes : List (Attempted Uuid)}
    (hfits : ∀ a ∈ writes, a.write.Fits o store) :
    Records env o (ProcessingEngine.attempt env.serde writes store) := by
  have hstep : ∀ a ∈ writes, ∀ s, (Records env o s ∧ ∀ b ∈ writes, b.write.Fits o s) →
      Records env o (a.write.perform env.serde s).2 ∧
        ∀ b ∈ writes, b.write.Fits o (a.write.perform env.serde s).2 :=
    fun a ha s hs => ⟨hs.1.perform (hs.2 a ha), fun b hb => (hs.2 b hb).perform a.write⟩
  exact (attempt_invariant (Q := fun s => Records env o s ∧ ∀ b ∈ writes, b.write.Fits o s)
    hstep ⟨h, hfits⟩).1

/-- More reports do no harm. -/
theorem Records.report (h : Records env o store) (more : List (TaskResult Uuid)) :
    Records env { o with reported := more ++ o.reported } store where
  legible := h.legible
  jobs := h.jobs
  tasks := h.tasks
  results taskId row text hrow htext := by
    obtain ⟨r, hr, hfound⟩ := h.results taskId row text hrow htext
    exact ⟨r, List.mem_append_right _ hr, hfound⟩
  acknowledged := h.acknowledged
  sent := h.sent

end Observed

/-! ### What a master remembers -/

omit [DecidableEq Uuid] in
theorem TaskStatus.eq_completed {status : TaskStatus Uuid} (h : status.isCompleted) :
    status = .completed := by
  cases status with
  | completed => rfl
  | _ => cases h

namespace System

/-- The task waits in a loop, or has been sent. -/
def Holds (s : System Uuid) (task : Task Uuid) : Prop :=
  (∃ loop ∈ s.loops, task ∈ loop.tasks) ∨ ∃ info, (task, info) ∈ s.dispatched

variable {env : MasterEnv Uuid} {s s' : System Uuid} {e : Event Uuid}

theorem Genuine.known {task : Task Uuid} (h : s.Genuine env task) :
    (s.taskStatus task.key).isSome := by
  obtain ⟨job, order, hjob, -, hknown⟩ := h
  rw [taskStatus, Task.key, hjob, Option.bind_some, AList.lookup_isSome]
  exact hknown

/-- What is sent once an event has happened was at hand before it. -/
theorem holds_of_sends {key : Uuid × Uuid} (h : key ∈ e.sends env s) :
    ∃ task, s.Holds task ∧ task.key = key := by
  rw [Event.sends] at h
  cases hstep : s.step env e with
  | none =>
      rw [hstep] at h
      cases h
  | some s' =>
      rw [hstep] at h
      obtain ⟨⟨task, info⟩, hsent, rfl⟩ := List.mem_map.mp h
      refine ⟨task, ?_, rfl⟩
      cases e with
      | advance i => exact advance_tasks hstep (Or.inr ⟨info, hsent⟩)
      | submit jobId dag order stagesOrder =>
          obtain ⟨-, ⟨_, store, -, rfl⟩ | ⟨tasks, store, jobs, -, -, -, rfl⟩⟩ := submit_cases hstep
          · exact Or.inr ⟨info, hsent⟩
          · exact Or.inr ⟨info, hsent⟩
      | snapshot order =>
          obtain rfl := snapshot_cases hstep
          exact Or.inr ⟨info, hsent⟩
      | _ =>
          cases hstep
          exact Or.inr ⟨info, hsent⟩

/-- No result is dropped, and a new one is a report of a completed task. -/
theorem results_step (hstep : s.step env e = some s') {id : Uuid} {job : JobState Uuid}
    (hjob : s.job id = some job) :
    ∃ job', s'.job id = some job' ∧ job.results ⊆ job'.results ∧
      ∀ r ∈ job'.results, r ∈ job.results ∨
        r ∈ e.reports ∧ r.status = .completed ∧ r.jobId = id := by
  have hmove := step_job hstep id
  rw [hjob] at hmove
  generalize s'.job id = new at hmove ⊢
  cases hmove with
  | @recorded result job hid hok =>
      refine ⟨_, rfl, ?_⟩
      rw [JobState.record_results]
      split_ifs with hcompleted
      · refine ⟨List.subset_append_left _ _, fun r hr => ?_⟩
        rcases List.mem_append.mp hr with hold | hnew
        · exact Or.inl hold
        · obtain rfl := List.mem_singleton.mp hnew
          exact Or.inr ⟨List.mem_singleton_self _, TaskStatus.eq_completed hcompleted, hid⟩
      · exact ⟨List.Subset.refl _, fun r hr => Or.inl hr⟩
  | _ => exact ⟨_, rfl, List.Subset.refl _, fun r hr => Or.inl hr⟩

end System

namespace Master

variable {env : MasterEnv Uuid} {store : StateStore Uuid} {m m' : Master Uuid}

/-- A start finds the results of the completed tasks. -/
theorem mem_results_new (h : store.Legible env.serde) (hserde : env.serde.RoundTrip) {id : Uuid}
    {job : JobState Uuid} (hjob : (new env store).jobs.lookup id = some job) (r : TaskResult Uuid) :
    r ∈ job.results ↔ r.status.isCompleted ∧ ∃ taskId before,
      store.tasks.lookup taskId = some (Session.taskRow env.serde id before (some r)) := by
  obtain ⟨jobs, hjobs, hjobsNodup, hjobsMem⟩ := h.loadAllJobs hserde
  obtain ⟨rows, hrows, hnodup, hmem⟩ := h.loadAllTasks hserde
  cases hrow : store.jobs.lookup id with
  | none =>
      rw [lookup_new_none h hserde hrow] at hjob
      cases hjob
  | some row =>
      obtain ⟨status, dag, rfl⟩ := h.jobs id row hrow
      have hbare : (jobs.foldl (fun m row => m.insert row.1 (restoredJob row.2.2 row.2.1))
          (∅ : HashMap Uuid (JobState Uuid))).lookup id = some (restoredJob dag status) := by
        refine (HashMap.lookup_foldl_insert Prod.fst
          (fun row : Uuid × JobStatus × DagSpecification => restoredJob row.2.2 row.2.1)
          hjobsNodup).mpr (Or.inl ⟨(id, status, dag), (hjobsMem _).mpr hrow, rfl, rfl⟩)
      have hfound := lookup_restoreTaskRow rows hbare
      rw [new, hjobs, hrows] at hjob
      obtain rfl := Option.some.inj (hjob.symm.trans hfound)
      rw [restoreRows, restoredJob, List.nil_append, List.mem_flatMap]
      constructor
      · rintro ⟨row, hrow', hresult⟩
        obtain ⟨hrow', hid⟩ := List.mem_filter.mp hrow'
        rw [decide_eq_true_eq] at hid
        obtain ⟨hsome, hcompleted⟩ := Session.mem_completedResult.mp hresult
        have hstored := (hmem row).mp hrow'
        rw [hid, hsome] at hstored
        exact ⟨hcompleted, row.1, row.2.2.1, hstored⟩
      · rintro ⟨hcompleted, taskId, before, hstored⟩
        refine ⟨(taskId, id, before, some r), List.mem_filter.mpr ⟨(hmem _).mpr hstored, ?_⟩, ?_⟩
        · exact decide_eq_true rfl
        · exact Session.mem_completedResult.mpr ⟨rfl, hcompleted⟩

/-- The rows of an accepted job are those of its tasks. -/
theorem rows_of_submitJob (hlegible : m.store.Legible env.serde)
    {order stagesOrder : HashOrder String} {dag : DagSpecification} {jobId : Uuid}
    (hfresh : m.fresh jobId)
    (hnew : ∀ id ∈ (dag.materializeTasks env.newV5 order jobId).map Task.taskId,
      m.store.tasks.lookup id = none) {tasks : List (Task Uuid)}
    (hsubmit : m.submitJob env order stagesOrder dag jobId = (.ok tasks, m')) :
    tasks = dag.materializeTasks env.newV5 order jobId ∧
      Rows env jobId dag (tasks.map Task.taskId) m'.store := by
  cases hvalid : dag.validate with
  | error message =>
      rw [submitJob_invalid hvalid] at hsubmit
      cases hsubmit
  | ok =>
      cases hrefuses : m.store.refuses 0 with
      | true =>
          rw [submitJob_refused hvalid hrefuses] at hsubmit
          cases hsubmit
      | false =>
          rcases @submitJob_written _ _ env m dag jobId order stagesOrder hvalid hrefuses with
            ⟨hall, m'', hok⟩ | ⟨-, e, m'', hfailed, -⟩
          · rw [hsubmit, Prod.mk.injEq, Except.ok.injEq] at hok
            obtain ⟨rfl, rfl⟩ := hok
            refine ⟨rfl, ?_⟩
            obtain ⟨i, hrows, hi⟩ := @rows_stopped _ _ env m dag jobId order
              ((dag.materializeTasks env.newV5 order jobId).length + 1) [] stagesOrder hvalid
              hlegible hfresh hnew hrefuses (Or.inl rfl) (by simp)
            have hle := hi.mpr ⟨Nat.le_succ _, hall⟩
            have hstore := @submitJob_store _ _ env m order stagesOrder dag hvalid jobId
            rw [hsubmit] at hstore
            rw [List.take_of_length_le hle, stopped, hvalid] at hrows
            dsimp only at hrows
            rwa [List.map_nil, List.append_nil, List.take_of_length_le (by simp [submitWrites]),
              ← hstore] at hrows
          · rw [hsubmit] at hfailed
            cases hfailed

/-- A job that has ended is written with its DAG. -/
theorem outcomeWrites_cases {jobId : Uuid} {job : JobState Uuid} {result : TaskResult Uuid}
    {a : Attempted Uuid} (ha : a ∈ outcomeWrites jobId job result) :
    (∃ status, a.write = .job jobId job.dag status) ∨
      ∀ (o : Observed Uuid) store, a.write.Fits o store := by
  revert ha
  unfold outcomeWrites
  cases result.status with
  | completed =>
      dsimp only
      split_ifs
      · intro ha
        obtain rfl := List.mem_singleton.mp ha
        exact Or.inr fun _ _ => trivial
      · intro ha
        rcases List.mem_pair.mp ha with rfl | rfl
        · exact Or.inl ⟨_, rfl⟩
        · exact Or.inr fun _ _ => trivial
  | failed message =>
      intro ha
      rcases List.mem_pair.mp ha with rfl | rfl
      · exact Or.inl ⟨_, rfl⟩
      · exact Or.inr fun _ _ => trivial
  | _ => simp

/-- An acknowledged result is in the row of its task. -/
theorem answered_of_completeTask {result : TaskResult Uuid}
    (hknown : (m.jobs.lookup result.jobId).isSome) (hown : m.store.Owned result.key)
    (hok : (m.completeTask env result).1 = .ok ()) :
    (m.completeTask env result).2.store.Answered result.key := by
  obtain ⟨job, hjob⟩ := Option.isSome_iff_exists.mp hknown
  rw [completeTask_store, completeWrites, hjob]
  rw [completeTask, hjob] at hok
  dsimp only at hok ⊢
  rw [attempt]
  dsimp only [Write.perform]
  rcases StateStore.persistTaskResult_cases env.serde m.store result with
    ⟨-, hwrite⟩ | ⟨-, e, hwrite⟩
  · rw [hwrite]
    refine attempt_keeps (StateStore.answered_keptByWrites _ _) _ ?_
    obtain ⟨row, hrow, howner⟩ := hown
    have hrow : m.store.tasks.lookup result.taskId = some row := hrow
    exact ⟨_, AList.lookup_insert _, by rw [hrow]; exact ⟨howner, rfl⟩⟩
  · rw [hwrite] at hok
    cases hok

end Master

namespace Observed

open StateStore (Owned Answered)

variable {env : MasterEnv Uuid} {o o' : Observed Uuid}

/-- What a running master remembers of the promises. -/
structure Memory (o : Observed Uuid) : Prop where
  rows : ∀ key, (o.system.taskStatus key).isSome → o.store.Owned key
  jobs : ∀ p ∈ o.submitted, ∃ job, o.system.job p.jobId = some job ∧ job.dag = p.dag ∧
    ∀ taskId ∈ p.taskIds, taskId ∈ job.tasks
  held : ∀ task, o.system.Holds task → (o.system.taskStatus task.key).isSome
  sent : ∀ key ∈ o.sent, (o.system.taskStatus key).isSome
  acknowledged : ∀ r ∈ o.acknowledged,
    (∀ r' ∈ o.reported, r'.key = r.key → r'.status = .completed) →
      ∃ job, o.system.job r.jobId = some job ∧ ∃ r' ∈ job.results, r'.key = r.key
  reported : ∀ id job, o.system.job id = some job → ∀ r ∈ job.results,
    r ∈ o.reported ∧ r.status = .completed ∧ r.jobId = id

structure Kept (env : MasterEnv Uuid) (o : Observed Uuid) : Prop where
  records : Records env o o.store
  memory : o.service.running = true → o.Memory

/-- A job that is submitted was not accepted before. -/
theorem Records.fresh (h : Records env o o.store) {jobId : Uuid}
    (hfresh : o.system.master.fresh jobId) : ∀ p ∈ o.submitted, p.jobId ≠ jobId := by
  rintro p hp rfl
  obtain ⟨row, hrow, -⟩ := h.jobs p hp
  have hnone := Master.lookup_eq_none_of_fresh hfresh
  rw [show o.system.master.store.jobs.lookup p.jobId = some row from hrow] at hnone
  cases hnone

/-- The writes of an event, as far as they get. -/
theorem fits_writes (h : Records env o o.store) (hmem : o.Memory) {e : Event Uuid}
    (hhonest : ∀ result ∈ e.reports, result.key ∈ o.sent)
    (hstep : (o.system.step env e).isSome) :
    ∀ a ∈ e.writes env o.system,
      a.write.Fits { o with reported := e.reports ++ o.reported } o.store := by
  have hjob : ∀ {jobId job}, o.system.job jobId = some job →
      ∀ p ∈ o.submitted, p.jobId = jobId → p.dag = job.dag := by
    rintro _ job hjob p hp rfl
    obtain ⟨job', hjob', hdag, -⟩ := hmem.jobs p hp
    obtain rfl := Option.some.inj (hjob.symm.trans hjob')
    exact hdag.symm
  cases e with
  | submit jobId dag order stagesOrder =>
      simp only [System.step] at hstep
      split_ifs at hstep with hfresh
      · have hother := h.fresh hfresh
        rw [Event.writes]
        cases dag.validate with
        | error message => simp
        | ok =>
            intro a ha
            rw [Master.submitWrites, List.cons_append, List.mem_cons, List.mem_append,
              List.mem_map, List.mem_singleton] at ha
            rcases ha with rfl | ⟨task, -, rfl⟩ | rfl
            · exact fun p hp heq => absurd heq (hother p hp)
            · exact Or.inr hother
            · trivial
      · cases hstep
  | advance i =>
      obtain ⟨system, hsystem⟩ := Option.isSome_iff_exists.mp hstep
      obtain ⟨task, rest, phase, hloop, -⟩ := System.advance_cases hsystem
      rw [Event.writes, hloop]
      cases phase with
      | assigned worker =>
          intro a ha
          obtain rfl := List.mem_singleton.mp ha
          exact Or.inl (hmem.rows task.key (hmem.held task
            (Or.inl ⟨_, List.mem_of_getElem? hloop, List.mem_cons_self⟩)))
      | persisted worker =>
          show ∀ a ∈ o.system.master.runningWrites task, _
          unfold Master.runningWrites
          cases hlookup : o.system.master.jobs.lookup task.jobId with
          | none => simp
          | some job =>
              dsimp only
              split_ifs
              · simp
              · intro a ha
                rcases List.mem_pair.mp ha with rfl | rfl
                · exact hjob hlookup
                · trivial
      | _ => simp
  | complete result =>
      rw [Event.writes, Master.completeWrites]
      cases hlookup : o.system.master.jobs.lookup result.jobId with
      | none => simp
      | some job =>
          intro a ha
          rcases List.mem_cons.mp ha with rfl | ha
          · exact ⟨List.mem_cons_self, h.sent _ (hhonest result (List.mem_singleton_self _))⟩
          · rcases Master.outcomeWrites_cases ha with ⟨status, hwrite⟩ | hwrite
            · rw [hwrite, JobState.record_dag]
              exact hjob hlookup
            · exact hwrite _ _
  | heartbeat message now =>
      intro a ha
      obtain rfl := List.mem_singleton.mp ha
      trivial
  | register _ | collect _ | snapshot _ => simp [Event.writes]

/-- An accepted job is in the tables and in memory. -/
theorem rows_of_submissions (hlegible : o.store.Legible env.serde) {e : Event Uuid}
    {system : System Uuid} (hnew : o.service.newIds env e)
    (hstep : o.system.step env e = some system) {p : Submission Uuid}
    (hp : p ∈ e.submissions env o.system) :
    Master.Rows env p.jobId p.dag p.taskIds system.master.store ∧
      ∃ job, system.job p.jobId = some job ∧ job.dag = p.dag ∧
        ∀ taskId ∈ p.taskIds, taskId ∈ job.tasks := by
  cases e with
  | submit jobId dag order stagesOrder =>
      have hids : ∀ id ∈ (dag.materializeTasks env.newV5 order jobId).map Task.taskId,
          o.system.master.store.tasks.lookup id = none := by
        intro id hid
        rw [Service.newIds, List.all_eq_true] at hnew
        exact Option.isNone_iff_eq_none.mp (hnew id hid)
      obtain ⟨hfresh, ⟨e, store, hsub, -⟩ | ⟨tasks, store, jobs, htasks, hjobs, hsub, rfl⟩⟩ :=
        System.submit_cases hstep
      · rw [Event.submissions, hsub] at hp
        cases hp
      · rw [Event.submissions, hsub] at hp
        obtain rfl := List.mem_singleton.mp hp
        refine ⟨(Master.rows_of_submitJob hlegible hfresh hids hsub).2, _, ?_, rfl,
          fun taskId hmem => (Master.mem_submittedJob dag stagesOrder tasks taskId).mpr hmem⟩
        rw [System.job, hjobs, AList.lookup_insert]
  | _ => cases hp

/-- What is sent has a row. -/
theorem owned_of_sends (hmem : o.Memory) {e : Event Uuid} {key : Uuid × Uuid}
    (hkey : key ∈ e.sends env o.system) : o.store.Owned key := by
  obtain ⟨task, hheld, rfl⟩ := System.holds_of_sends hkey
  exact hmem.rows _ (hmem.held task hheld)

theorem Records.serve {store : StateStore Uuid} (h : Records env o store)
    (service : Service Uuid) : Records env { o with service } store :=
  ⟨h.legible, h.jobs, h.tasks, h.results, h.acknowledged, h.sent⟩

/-- The tables that an event leaves when it is cut after `k` writes. -/
theorem Kept.records_crash (h : Kept env o) (hmem : o.Memory) {e : Event Uuid}
    (hhonest : ∀ result ∈ e.reports, result.key ∈ o.sent)
    (hstep : (o.system.step env e).isSome) (k : Nat) :
    Records env (o.observe env (.crash e k))
      (attempt env.serde ((e.writes env o.system).take k) o.store) := by
  have hfits : ∀ a ∈ (e.writes env o.system).take k,
      a.write.Fits { o with reported := e.reports ++ o.reported } o.store :=
    fun a ha => fits_writes h.records hmem hhonest hstep a (List.mem_of_mem_take ha)
  have hrecords := (h.records.report e.reports).attempt hfits
  refine ⟨hrecords.legible, hrecords.jobs, hrecords.tasks, hrecords.results,
    hrecords.acknowledged, fun key hkey => ?_⟩
  rcases List.mem_append.mp hkey with hnew | hold
  · exact attempt_keeps (StateStore.owned_keptByWrites _ _) _ (owned_of_sends hmem hnew)
  · exact hrecords.sent key hold

/-- The tables after an event. -/
theorem Kept.records_event (h : Kept env o) (hmem : o.Memory) {e : Event Uuid}
    {system : System Uuid} (hhonest : ∀ result ∈ e.reports, result.key ∈ o.sent)
    (hnew : o.service.newIds env e) (hstep : o.system.step env e = some system) :
    Records env (o.observe env (.event e)) system.master.store := by
  have hcrash := h.records_crash hmem hhonest (by rw [hstep]; rfl)
    (e.writes env o.system).length
  rw [List.take_length, ← System.step_store hstep] at hcrash
  have hrows := fun p => rows_of_submissions (p := p) h.records.legible hnew hstep
  refine ⟨hcrash.legible, fun p hp => ?_, fun p hp taskId => ?_, hcrash.results,
    fun r hr => ?_, hcrash.sent⟩
  · rcases List.mem_append.mp hp with hp | hp
    · obtain ⟨status, hrow⟩ := (hrows p hp).1.job
      exact ⟨_, hrow, rfl⟩
    · exact hcrash.jobs p hp
  · rcases List.mem_append.mp hp with hp | hp
    · have hrows := (hrows p hp).1
      constructor
      · intro hid
        obtain ⟨status, -, hrow⟩ := hrows.task taskId hid
        exact ⟨_, hrow, rfl⟩
      · rintro ⟨row, hrow, howner⟩
        exact hrows.others taskId row hrow howner
    · exact hcrash.tasks p hp taskId
  · rcases List.mem_append.mp hr with hr | hr
    · cases e with
      | complete result =>
          cases hstep
          rw [Event.acknowledges] at hr
          cases hok : (o.system.master.completeTask env result).1 with
          | error e =>
              rw [hok] at hr
              cases hr
          | ok =>
              rw [hok] at hr
              obtain rfl := List.mem_singleton.mp hr
              have hsent := hhonest r (List.mem_singleton_self r)
              have hknown := hmem.sent _ hsent
              refine Master.answered_of_completeTask ?_ (h.records.sent _ hsent) hok
              obtain ⟨status, hstatus⟩ := Option.isSome_iff_exists.mp hknown
              obtain ⟨job, hjob, -⟩ := Option.bind_eq_some_iff.mp hstatus
              exact Option.isSome_iff_exists.mpr ⟨job, hjob⟩
      | _ => cases hr
    · exact hcrash.acknowledged r hr

/-- The tasks known after an event have rows. -/
theorem Memory.rows_event (hmem : o.Memory) (hlegible : o.store.Legible env.serde)
    {e : Event Uuid} {system : System Uuid}
    (hhonest : ∀ result ∈ e.reports, result.key ∈ o.sent) (hnew : o.service.newIds env e)
    (hstep : o.system.step env e = some system) {key : Uuid × Uuid}
    (hknown : (system.taskStatus key).isSome) : system.master.store.Owned key := by
  have hkept : o.store.Owned key → system.master.store.Owned key := by
    intro hrow
    rw [System.step_store hstep]
    exact attempt_keeps (StateStore.owned_keptByWrites _ _) _ hrow
  have htask := System.step_task hstep key
  generalize hbefore : o.system.taskStatus key = old at htask
  generalize hafter : system.taskStatus key = new at htask hknown
  cases htask with
  | unchanged => exact hkept (hmem.rows key (by rw [hbefore]; exact hknown))
  | @submitted dag order stagesOrder hjob hid =>
      obtain ⟨-, ⟨e, store, -, rfl⟩ | ⟨tasks, store, jobs, rfl, -, hsub, -⟩⟩ :=
        System.submit_cases hstep
      · have hsame : o.system.taskStatus key = some .queued := hafter
        rw [hbefore] at hsame
        cases hsame
      · have hmem : (⟨key.1, dag, (dag.materializeTasks env.newV5 order key.1).map
            Task.taskId⟩ : Submission Uuid) ∈
            (Event.submit key.1 dag order stagesOrder).submissions env o.system := by
          rw [Event.submissions, hsub]
          exact List.mem_singleton_self _
        obtain ⟨status, -, hrow⟩ :=
          (rows_of_submissions hlegible hnew hstep hmem).1.task key.2 hid
        exact ⟨_, hrow, rfl⟩
  | @assigned i task rest worker status hloop hkey =>
      subst hkey
      exact hkept (hmem.rows _ (hmem.held task
        (Or.inl ⟨_, List.mem_of_getElem? hloop, List.mem_cons_self⟩)))
  | @reported result status hkey =>
      subst hkey
      exact hkept (hmem.rows _ (hmem.sent _ (hhonest result (List.mem_singleton_self _))))

/-- A report that is answered with `Ok` is among the results. -/
theorem Memory.results_of_acknowledges (hmem : o.Memory) {e : Event Uuid} {system : System Uuid}
    (hhonest : ∀ result ∈ e.reports, result.key ∈ o.sent)
    (hstep : o.system.step env e = some system) {r : TaskResult Uuid}
    (hr : r ∈ e.acknowledges env o.system) (hcompleted : r.status = .completed) :
    ∃ job, system.job r.jobId = some job ∧ r ∈ job.results := by
  cases e with
  | complete result =>
      cases hstep
      rw [Event.acknowledges] at hr
      cases hok : (o.system.master.completeTask env result).1 with
      | error e =>
          rw [hok] at hr
          cases hr
      | ok =>
          rw [hok] at hr
          obtain rfl := List.mem_singleton.mp hr
          have hknown := hmem.sent _ (hhonest r (List.mem_singleton_self r))
          obtain ⟨status, hstatus⟩ := Option.isSome_iff_exists.mp hknown
          obtain ⟨job, hjob, -⟩ := Option.bind_eq_some_iff.mp hstatus
          have hjob : o.system.master.jobs.lookup r.jobId = some job := hjob
          have haccepts : o.system.master.store.accepts r.taskId r.jobId = true := by
            rw [Master.completeTask, hjob] at hok
            rcases StateStore.persistTaskResult_cases env.serde o.system.master.store r with
              ⟨haccepts, -⟩ | ⟨-, e, hwrite⟩
            · exact haccepts
            · rw [hwrite] at hok
              cases hok
          refine ⟨job.record r, ?_, ?_⟩
          · rw [System.job, Master.completeTask_lookup_self env hjob, if_pos haccepts]
          · rw [JobState.record_results, hcompleted]
            exact List.mem_append_right _ (List.mem_singleton_self r)
  | _ => cases hr

/-- What the master remembers after an event. -/
theorem Kept.memory_event (h : Kept env o) (hmem : o.Memory) {e : Event Uuid}
    {service : Service Uuid} (hhonest : ∀ result ∈ e.reports, result.key ∈ o.sent)
    (hnew : o.service.newIds env e) (hstep : o.system.step env e = some service.system) :
    Memory { o.observe env (.event e) with service } where
  rows key hknown := hmem.rows_event h.records.legible hhonest hnew hstep hknown
  jobs p hp := by
    rcases List.mem_append.mp hp with hp | hp
    · exact (rows_of_submissions h.records.legible hnew hstep hp).2
    · obtain ⟨job, hjob, hdag, hids⟩ := hmem.jobs p hp
      obtain ⟨job', hjob', hdag', hkept⟩ := System.job_step hstep hjob
      exact ⟨job', hjob', hdag'.trans hdag, fun taskId hid => hkept _ (hids taskId hid)⟩
  held task hheld := by
    rcases System.step_tasks hstep hheld with hold | hgenuine
    · exact System.taskStatus_isSome_step hstep (hmem.held task hold)
    · exact hgenuine.known
  sent key hkey := by
    refine System.taskStatus_isSome_step hstep ?_
    rcases List.mem_append.mp hkey with hkey | hkey
    · obtain ⟨task, hheld, rfl⟩ := System.holds_of_sends hkey
      exact hmem.held task hheld
    · exact hmem.sent key hkey
  acknowledged r hr hall := by
    rcases List.mem_append.mp hr with hr | hr
    · have hreported : r ∈ e.reports := by
        cases e with
        | complete result =>
            rw [Event.acknowledges] at hr
            split at hr
            · exact hr
            · cases hr
        | _ => cases hr
      obtain ⟨job, hjob, hfound⟩ := hmem.results_of_acknowledges hhonest hstep hr
        (hall r (List.mem_append_left _ hreported) rfl)
      exact ⟨job, hjob, r, hfound, rfl⟩
    · obtain ⟨job, hjob, r', hr', hkey⟩ := hmem.acknowledged r hr fun r' hr' hkey =>
        hall r' (List.mem_append_right _ hr') hkey
      obtain ⟨job', hjob', hsub, -⟩ := System.results_step hstep hjob
      exact ⟨job', hjob', r', hsub hr', hkey⟩
  reported id job' hjob' r hr := by
    have hjob' : service.system.job id = some job' := hjob'
    cases hjob : o.system.job id with
    | some job =>
        obtain ⟨job'', hjob'', -, hcases⟩ := System.results_step hstep hjob
        obtain rfl := Option.some.inj (hjob'.symm.trans hjob'')
        rcases hcases r hr with hold | ⟨hreport, hcompleted, hid⟩
        · obtain ⟨hreported, hrest⟩ := hmem.reported id job hjob r hold
          exact ⟨List.mem_append_right _ hreported, hrest⟩
        · exact ⟨List.mem_append_left _ hreport, hcompleted, hid⟩
    | none =>
        have hmove := System.step_job hstep id
        rw [hjob, hjob'] at hmove
        cases hmove with
        | submitted => cases hr

omit [DecidableEq Uuid] in
theorem injective_of_parse {α : Type} {text : α → String} {parse : String → Option α}
    (h : ∀ a, parse (text a) = some a) : Function.Injective text := by
  intro a b hab
  have hparse := h a
  rw [hab, h b] at hparse
  exact (Option.some.inj hparse).symm

/-- A start knows the tasks of which there are rows. -/
theorem Records.known_iff (h : Records env o o.store) (hserde : env.serde.RoundTrip)
    (key : Uuid × Uuid) :
    (({ master := Master.new env o.store } : System Uuid).taskStatus key).isSome ↔
      o.store.Owned key := by
  rw [System.taskStatus, System.job]
  constructor
  · intro hsome
    obtain ⟨status, hstatus⟩ := Option.isSome_iff_exists.mp hsome
    obtain ⟨job, hjob, hlookup⟩ := Option.bind_eq_some_iff.mp hstatus
    have hjob : (Master.new env o.store).jobs.lookup key.1 = some job := hjob
    cases hrow : o.store.jobs.lookup key.1 with
    | none =>
        rw [Master.lookup_new_none h.legible hserde hrow] at hjob
        cases hjob
    | some row =>
        obtain ⟨jobStatus, dag, rfl⟩ := h.legible.jobs _ row hrow
        obtain ⟨job', hjob', -, -, htasks⟩ := Master.lookup_new h.legible hserde hrow
        obtain rfl := Option.some.inj (hjob.symm.trans hjob')
        obtain ⟨before, result, hstored, -⟩ := (htasks _ _).mp hlookup
        exact ⟨_, hstored, rfl⟩
  · rintro ⟨row, hrow, howner⟩
    obtain ⟨jobRow, hjobRow⟩ := Option.isSome_iff_exists.mp (h.legible.owners _ row hrow)
    rw [howner] at hjobRow
    obtain ⟨jobStatus, dag, rfl⟩ := h.legible.jobs _ jobRow hjobRow
    obtain ⟨job, hjob, -, -, htasks⟩ := Master.lookup_new h.legible hserde hjobRow
    obtain ⟨before, result, heq⟩ := h.legible.tasks _ row hrow
    rw [howner] at heq
    have hlookup := (htasks key.2 _).mpr ⟨before, result, heq ▸ hrow, rfl⟩
    show (((Master.new env o.store).jobs.lookup key.1).bind _).isSome
    rw [hjob, Option.bind_some, hlookup]
    rfl

/-- What a start finds in the tables. -/
theorem Records.memory_restart (h : Records env o o.store) (hserde : env.serde.RoundTrip)
    {service : Service Uuid} (hsystem : service.system = { master := Master.new env o.store }) :
    Memory { o with service } := by
  have hknown : ∀ key, (service.system.taskStatus key).isSome ↔ o.store.Owned key := by
    rw [hsystem]
    exact h.known_iff hserde
  have hjob : ∀ {id job}, service.system.job id = some job →
      (Master.new env o.store).jobs.lookup id = some job := by
    intro id job hjob
    rw [hsystem] at hjob
    exact hjob
  refine ⟨fun key hsome => ?_, fun p hp => ?_, fun task hheld => ?_,
    fun key hkey => (hknown key).mpr (h.sent key hkey), fun r hr hall => ?_,
    fun id job hlookup r hr => ?_⟩
  · show service.system.master.store.Owned key
    rw [hsystem]
    show (Master.new env o.store).store.Owned key
    rw [Master.new_store]
    exact attempt_keeps (StateStore.owned_keptByWrites _ _) _ ((hknown key).mp hsome)
  · obtain ⟨row, hrow, hdag⟩ := h.jobs p hp
    obtain ⟨status, dag, rfl⟩ := h.legible.jobs _ row hrow
    obtain ⟨job, hlookup, hjobDag, -, -⟩ := Master.lookup_new h.legible hserde hrow
    have hsystemJob : service.system.job p.jobId = some job := by
      rw [hsystem]
      exact hlookup
    refine ⟨job, hsystemJob, hjobDag.trans (injective_of_parse hserde.dag hdag),
      fun taskId hid => ?_⟩
    have hsome := (hknown (p.jobId, taskId)).mpr ((h.tasks p hp taskId).mp hid)
    rw [System.taskStatus, hsystemJob, Option.bind_some, AList.lookup_isSome] at hsome
    exact hsome
  · have hheld : service.system.Holds task := hheld
    rw [hsystem] at hheld
    rcases hheld with ⟨loop, hloop, -⟩ | ⟨info, hsent⟩
    · cases hloop
    · cases hsent
  · obtain ⟨row, hrow, howner, htext⟩ := h.acknowledged r hr
    obtain ⟨text, htext⟩ := Option.isSome_iff_exists.mp htext
    obtain ⟨r', hr', rfl, hkey⟩ := h.results _ row text hrow htext
    rw [howner] at hkey
    have hsome := (hknown r.key).mpr (h.acknowledged r hr).owned
    obtain ⟨status, hstatus⟩ := Option.isSome_iff_exists.mp hsome
    obtain ⟨job, hlookup, -⟩ := Option.bind_eq_some_iff.mp hstatus
    refine ⟨job, hlookup, r', ?_, hkey⟩
    refine (Master.mem_results_new h.legible hserde (hjob hlookup) r').mpr
      ⟨by rw [hall r' hr' hkey]; rfl, r.taskId, ?_⟩
    obtain ⟨before, result, heq⟩ := h.legible.tasks _ row hrow
    rw [howner] at heq
    rw [heq] at htext
    obtain ⟨r'', rfl, hsame⟩ := Option.map_eq_some_iff.mp htext
    obtain rfl := injective_of_parse hserde.result hsame
    exact ⟨before, heq ▸ hrow⟩
  · obtain ⟨hcompleted, taskId, before, hstored⟩ :=
      (Master.mem_results_new h.legible hserde (hjob hlookup) r).mp hr
    obtain ⟨r', hr', hsame, hkey⟩ := h.results taskId _ _ hstored rfl
    obtain rfl := injective_of_parse hserde.result hsame
    exact ⟨hr', TaskStatus.eq_completed hcompleted, congrArg Prod.fst hkey⟩

theorem Records.requeue (h : Records env o o.store) (hserde : env.serde.RoundTrip) :
    ∀ a ∈ Master.requeueWrites env o.store, a.write.Fits o o.store := by
  intro a ha
  obtain ⟨rows, hrows, -, hmem⟩ := h.legible.loadAllTasks hserde
  rw [Master.requeueWrites, hrows] at ha
  obtain ⟨row, hrow, rfl⟩ := List.mem_map.mp ha
  exact Or.inl ⟨_, (hmem row).mp (List.mem_of_mem_filter hrow), rfl⟩

/-- Every incident keeps the promises in the tables, and those that leave the master
running, in memory. -/
theorem Kept.step (hserde : env.serde.RoundTrip) (h : Kept env o) {a : Incident Uuid}
    (hhonest : o.Honest a) (hstep : o.step env a = some o') : Kept env o' := by
  obtain ⟨service, hservice, rfl⟩ := Option.map_eq_some_iff.mp hstep
  cases a with
  | event e =>
      simp only [Service.step, Bool.and_eq_true] at hservice
      split_ifs at hservice with hguard
      obtain ⟨system, hsystem, rfl⟩ := Option.map_eq_some_iff.mp hservice
      have hmem := h.memory hguard.1
      exact ⟨(h.records_event hmem hhonest hguard.2 hsystem).serve _,
        fun _ => h.memory_event hmem hhonest hguard.2 hsystem⟩
  | crash e k =>
      simp only [Service.step, Bool.and_eq_true] at hservice
      split_ifs at hservice with hguard
      cases hservice
      exact ⟨(h.records_crash (h.memory hguard.1.1) hhonest hguard.2 k).serve _,
        fun hrun => absurd hrun Bool.false_ne_true⟩
  | restart =>
      simp only [Service.step] at hservice
      split_ifs at hservice
      cases hservice
      refine ⟨?_, fun _ => h.records.memory_restart hserde rfl⟩
      have hrecords := h.records.attempt (h.records.requeue hserde)
      rw [← Master.new_store] at hrecords
      exact hrecords.serve _
  | interrupt k =>
      simp only [Service.step] at hservice
      split_ifs at hservice with hrunning
      cases hservice
      refine ⟨?_, fun hrun => absurd hrun hrunning⟩
      have hrecords := h.records.attempt fun a ha =>
        h.records.requeue hserde a (List.mem_of_mem_take (i := k) ha)
      exact hrecords.serve _

/-- The promises in the tables and in memory are those of the answers. -/
theorem Kept.promises (h : Kept env o) (hrunning : o.service.running = true) : o.Promises := by
  have hmem := h.memory hrunning
  refine ⟨fun p hp => ?_, fun r hr hall => ?_, fun jobId results hresults r hr => ?_⟩
  · obtain ⟨job, hjob, hdag, hids⟩ := hmem.jobs p hp
    refine ⟨job, hjob, hdag, fun taskId => ⟨fun hid => ?_, hids taskId⟩⟩
    refine (h.records.tasks p hp taskId).mpr (hmem.rows (p.jobId, taskId) ?_)
    rw [System.taskStatus, hjob, Option.bind_some, AList.lookup_isSome]
    exact hid
  · obtain ⟨job, hjob, r', hr', hkey⟩ := hmem.acknowledged r hr hall
    exact ⟨job.results, Option.map_eq_some_iff.mpr ⟨job, hjob, rfl⟩, r', hr', hkey⟩
  · obtain ⟨job, hjob, rfl⟩ := Option.map_eq_some_iff.mp hresults
    exact hmem.reported jobId job hjob r hr

/-- In every run of a service, from an empty database, in which the workers report
tasks that were sent to them: whenever the master runs, the promises are kept. -/
theorem run_promises (hserde : env.serde.RoundTrip) (faults : List Bool)
    {incidents : List (Incident Uuid)}
    (hhonest : Along (step env) Honest
      { service := { system := { master := { store := { faults } } } } } incidents)
    (hrun : run (step env) { service := { system := { master := { store := { faults } } } } }
      incidents = some o) (hrunning : o.service.running = true) : o.Promises := by
  have hstart : Kept env ({ service := { system := { master := { store := { faults } } } } } :
      Observed Uuid) := by
    refine ⟨⟨StateStore.legible_empty faults, nofun, nofun, fun _ _ _ h => (nomatch h), nofun,
      nofun⟩, fun _ => ⟨fun key h => (nomatch h), nofun, fun task hheld => ?_, nofun, nofun,
      fun id job h => (nomatch h)⟩⟩
    rcases hheld with ⟨loop, hloop, -⟩ | ⟨info, hsent⟩
    · cases hloop
    · cases hsent
  exact (run_invariant (fun s a s' h hhonest hstep => h.step hserde hhonest hstep) hstart
    hhonest hrun).promises hrunning

/-- A report is acknowledged, and its repetition is cut by a crash. -/
def reportedRun : List (Incident Path) :=
  [.event System.registration, .event (System.readSubmission ["job"] 1)] ++
    List.replicate 5 (.event (.advance 0)) ++
    [.event (.complete (System.readResult ["job"] ["0-0", "job"] .completed)),
      .crash (.complete (System.readResult ["job"] ["0-0", "job"] .completed)) 1, .restart]

theorem run_promises_reportedRun :
    ∃ o, run (step System.pathEnv) { service := { system := { master := { store :=
        { faults := [] } } } } } reportedRun = some o ∧
      o.submitted.map Submission.taskIds = [[["0-0", "job"]]] ∧
      o.acknowledged = [System.readResult ["job"] ["0-0", "job"] .completed] ∧ o.Promises := by
  have hrun : ((run (step System.pathEnv) { service := { system := { master := { store :=
      { faults := [] } } } } } reportedRun).map fun o =>
        (o.service.running, o.submitted.map Submission.taskIds, o.acknowledged)) =
      some (true, [[["0-0", "job"]]],
        [System.readResult ["job"] ["0-0", "job"] .completed]) := by decide +kernel
  obtain ⟨o, hrun, hsame⟩ := Option.map_eq_some_iff.mp hrun
  rw [Prod.mk.injEq, Prod.mk.injEq] at hsame
  obtain ⟨hrunning, hsubmitted, hacknowledged⟩ := hsame
  exact ⟨o, hrun, hsubmitted, hacknowledged, run_promises (Serde.tallied_roundTrip Path) []
    (by decide +kernel) hrun hrunning⟩

end Observed
end ProcessingEngine

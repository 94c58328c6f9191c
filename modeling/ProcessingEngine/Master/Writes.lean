import ProcessingEngine.Master.Recovery

/-!
# Writes one at a time

Every write of the store is a transaction of its own, so the master can stop
between any two writes of an operation.  Here the operations are given by the
lists of their writes: `attempt` performs such a list, and performing a part of
it is what a crash leaves behind.  Whatever was written, `Master::new` finds the
jobs of which there is a row, with the tasks of which there are rows
(`Master.lookup_new`).
-/

namespace ProcessingEngine

open Lib

variable {Uuid : Type}

inductive Write (Uuid : Type) where
  | job (jobId : Uuid) (dag : DagSpecification) (status : JobStatus)
  | jobStatus (jobId : Uuid) (state : JobStatus) (progress : ℚ) (metrics : JobMetrics Uuid)
      (error : Option String) (outputs : List Path)
  | taskStatus (taskId jobId : Uuid) (status : TaskStatus Uuid)
  | taskResult (result : TaskResult Uuid)
  | workerMetrics (workerId : Uuid) (status : WorkerStatus) (metrics : WorkerMetrics Uuid)
      (now : Nat)

/-- A write of an operation.  The operation ends with the failure of a `strict`
one and does not notice that of another. -/
structure Attempted (Uuid : Type) where
  strict : Bool
  write : Write Uuid

variable [DecidableEq Uuid]

def Write.perform (serde : Serde Uuid) (store : StateStore Uuid) :
    Write Uuid → Except StoreError Unit × StateStore Uuid
  | .job jobId dag status => store.persistJob serde jobId dag status
  | .jobStatus jobId state progress metrics error outputs =>
      store.persistJobStatus serde jobId state progress metrics error outputs
  | .taskStatus taskId jobId status => store.persistTaskStatus serde taskId jobId status
  | .taskResult result => store.persistTaskResult serde result
  | .workerMetrics workerId status metrics now =>
      store.persistWorkerMetrics serde workerId status metrics now

/-- Perform the writes, up to the failure of a strict one. -/
def attempt (serde : Serde Uuid) : List (Attempted Uuid) → StateStore Uuid → StateStore Uuid
  | [], store => store
  | ⟨strict, write⟩ :: rest, store =>
      match write.perform serde store with
      | (.ok (), store) => attempt serde rest store
      | (.error _, store) => if strict then store else attempt serde rest store

theorem attempt_lax (serde : Serde Uuid) (write : Write Uuid) (rest : List (Attempted Uuid))
    (store : StateStore Uuid) :
    attempt serde (⟨false, write⟩ :: rest) store =
      attempt serde rest (write.perform serde store).2 := by
  rw [attempt]
  rcases write.perform serde store with ⟨_ | _, store'⟩
  · rfl
  · rfl

theorem Write.perform_keeps {serde : Serde Uuid} {Q : StateStore Uuid → Prop}
    (hQ : StateStore.KeptByWrites serde (fun _ => True) Q) (write : Write Uuid)
    {store : StateStore Uuid} (h : Q store) : Q (write.perform serde store).2 := by
  cases write with
  | job jobId dag status => exact hQ.job _ _ _ _ h trivial
  | jobStatus jobId state progress metrics error outputs => exact hQ.jobStatus _ _ _ _ _ _ _ h
  | taskStatus taskId jobId status => exact hQ.taskStatus _ _ _ _ h
  | taskResult result => exact hQ.taskResult _ _ h
  | workerMetrics workerId status metrics now => exact hQ.workerMetrics _ _ _ _ _ h

/-- What every one of the writes keeps is kept by performing them. -/
theorem attempt_invariant {serde : Serde Uuid} {Q : StateStore Uuid → Prop}
    {writes : List (Attempted Uuid)}
    (hperform : ∀ a ∈ writes, ∀ store, Q store → Q (a.write.perform serde store).2)
    {store : StateStore Uuid} (h : Q store) : Q (attempt serde writes store) := by
  induction writes generalizing store with
  | nil => exact h
  | cons first rest ih =>
      obtain ⟨strict, write⟩ := first
      have hwrite := hperform _ List.mem_cons_self store h
      have hrest := fun a ha => hperform a (List.mem_cons_of_mem _ ha)
      rw [attempt]
      rcases hperform : write.perform serde store with ⟨_ | _, store'⟩
      · rw [hperform] at hwrite
        dsimp only
        split_ifs
        · exact hwrite
        · exact ih hrest hwrite
      · rw [hperform] at hwrite
        exact ih hrest hwrite

theorem attempt_keeps {serde : Serde Uuid} {Q : StateStore Uuid → Prop}
    (hQ : StateStore.KeptByWrites serde (fun _ => True) Q) (writes : List (Attempted Uuid))
    {store : StateStore Uuid} (h : Q store) : Q (attempt serde writes store) :=
  attempt_invariant (fun a _ _ hstore => a.write.perform_keeps hQ hstore) h

/-! ### The writes of the operations -/

namespace Master

variable {env : MasterEnv Uuid} {m : Master Uuid}

/-- The writes of `submit_job`, before it schedules the tasks. -/
def submitWrites (stagesOrder : HashOrder String) (dag : DagSpecification) (jobId : Uuid)
    (tasks : List (Task Uuid)) : List (Attempted Uuid) :=
  ⟨true, .job jobId dag .accepted⟩ ::
    (tasks.map fun task => ⟨true, .taskStatus task.taskId jobId .queued⟩) ++
    [⟨false, .jobStatus jobId .accepted 0 (submittedJob dag stagesOrder tasks).metrics none []⟩]

theorem attempt_queued (jobId : Uuid) (tasks : List (Task Uuid)) (rest : List (Attempted Uuid))
    (store : StateStore Uuid) :
    attempt env.serde ((tasks.map fun task => ⟨true, .taskStatus task.taskId jobId .queued⟩) ++
        rest) store =
      match persistQueued env jobId tasks store with
      | (.ok (), store) => attempt env.serde rest store
      | (.error _, store) => store := by
  induction tasks generalizing store with
  | nil => rfl
  | cons task tasks ih =>
      rw [List.map_cons, List.cons_append, attempt, persistQueued]
      show (match store.persistTaskStatus env.serde task.taskId jobId .queued with
        | (.ok (), store) => attempt env.serde _ store
        | (.error _, store) => if true then store else _) = _
      rcases store.persistTaskStatus env.serde task.taskId jobId .queued with ⟨_ | _, store'⟩
      · rfl
      · exact ih store'

/-- The submission of a valid DAG performs its writes. -/
theorem submitJob_store (order stagesOrder : HashOrder String) {dag : DagSpecification}
    (hvalid : dag.validate = .ok ()) (jobId : Uuid) :
    (m.submitJob env order stagesOrder dag jobId).2.store =
      attempt env.serde (submitWrites stagesOrder dag jobId
        (dag.materializeTasks env.newV5 order jobId)) m.store := by
  unfold submitJob submitWrites
  rw [hvalid, List.cons_append, attempt]
  dsimp only [Write.perform]
  rcases m.store.persistJob env.serde jobId dag .accepted with ⟨_ | _, store⟩
  · rfl
  · dsimp only
    rw [attempt_queued]
    rcases persistQueued env jobId (dag.materializeTasks env.newV5 order jobId) store with
      ⟨_ | _, store'⟩
    · rfl
    · dsimp only
      rw [attempt_lax]
      rfl

/-- The writes after the row of a reported task. -/
def outcomeWrites (jobId : Uuid) (job : JobState Uuid) (result : TaskResult Uuid) :
    List (Attempted Uuid) :=
  match result.status with
  | .completed =>
      if job.pending then
        [⟨false, .jobStatus jobId job.status job.metrics.progress job.metrics job.error
          job.outputs⟩]
      else
        [⟨false, .job jobId job.dag .succeeded⟩,
          ⟨false, .jobStatus jobId .succeeded 100 job.metrics none job.outputs⟩]
  | .failed _ =>
      [⟨false, .job jobId job.dag .failed⟩,
        ⟨false, .jobStatus jobId .failed job.metrics.progress job.metrics job.error job.outputs⟩]
  | _ => []

/-- The writes of `complete_task`. -/
def completeWrites (m : Master Uuid) (result : TaskResult Uuid) : List (Attempted Uuid) :=
  match m.jobs.lookup result.jobId with
  | none => []
  | some job =>
      ⟨true, .taskResult result⟩ :: outcomeWrites result.jobId (job.record result) result

theorem attempt_outcome (jobId : Uuid) (job : JobState Uuid) (result : TaskResult Uuid)
    (store : StateStore Uuid) :
    attempt env.serde (outcomeWrites jobId job result) store =
      persistOutcome env jobId job result store := by
  unfold outcomeWrites persistOutcome
  cases result.status with
  | completed =>
      dsimp only
      split_ifs
      · exact attempt_lax _ _ _ _
      · rw [attempt_lax, attempt_lax]
        rfl
  | failed message =>
      dsimp only
      rw [attempt_lax, attempt_lax]
      rfl
  | _ => rfl

theorem completeTask_store (result : TaskResult Uuid) :
    (m.completeTask env result).2.store = attempt env.serde (m.completeWrites result) m.store := by
  unfold completeTask completeWrites
  cases m.jobs.lookup result.jobId with
  | none => rfl
  | some job =>
      dsimp only
      rw [attempt]
      dsimp only [Write.perform]
      rcases m.store.persistTaskResult env.serde result with ⟨_ | _, store⟩
      · rfl
      · exact (attempt_outcome _ _ _ _).symm

/-- The writes that mark the job of a task as running. -/
def runningWrites (m : Master Uuid) (task : Task Uuid) : List (Attempted Uuid) :=
  match m.jobs.lookup task.jobId with
  | none => []
  | some job =>
      if job.status = .running then []
      else
        [⟨false, .job task.jobId job.dag .running⟩,
          ⟨false, .jobStatus task.jobId .running job.metrics.progress job.metrics job.error
            job.outputs⟩]

theorem markRunning_store (task : Task Uuid) :
    (m.markRunning env task).store = attempt env.serde (m.runningWrites task) m.store := by
  unfold markRunning runningWrites
  cases m.jobs.lookup task.jobId with
  | none => rfl
  | some job =>
      dsimp only
      split_ifs
      · rfl
      · rw [attempt_lax, attempt_lax]
        rfl

end Master

/-! ### Stores that can be read -/

namespace StateStore

/-- The rows are those of a master: their texts were written by it, and a task
names a job of which there is a row. -/
structure Legible (serde : Serde Uuid) (store : StateStore Uuid) : Prop where
  jobs : ∀ id row, store.jobs.lookup id = some row →
    ∃ status dag, row = ⟨serde.jobStatus status, serde.dag dag⟩
  tasks : ∀ id row, store.tasks.lookup id = some row →
    ∃ status result, row = Session.taskRow serde row.jobId status result
  owners : ∀ id row, store.tasks.lookup id = some row → (store.jobs.lookup row.jobId).isSome

variable {serde : Serde Uuid} {store : StateStore Uuid}

theorem legible_transaction (h : store.Legible serde) {allowed : Bool}
    {commit : StateStore Uuid → StateStore Uuid}
    (hcommit : allowed = true → (commit { store with faults := store.faults.tail }).Legible serde) :
    (store.transaction allowed commit).2.Legible serde :=
  transaction_keeps ⟨h.jobs, h.tasks, h.owners⟩ hcommit

/-- Inserting a row of a task whose job has a row. -/
theorem Legible.insertTask (h : store.Legible serde) {taskId : Uuid} {row : TaskRow Uuid}
    (hrow : ∃ status result, row = Session.taskRow serde row.jobId status result)
    (howner : (store.jobs.lookup row.jobId).isSome) :
    ({ store with tasks := store.tasks.insert taskId row } : StateStore Uuid).Legible serde where
  jobs := h.jobs
  tasks id row' hrow' := by
    have hrow' : (store.tasks.insert taskId row).lookup id = some row' := hrow'
    by_cases hid : id = taskId
    · subst hid
      rw [AList.lookup_insert, Option.some.injEq] at hrow'
      exact hrow' ▸ hrow
    · rw [AList.lookup_insert_ne hid] at hrow'
      exact h.tasks id row' hrow'
  owners id row' hrow' := by
    have hrow' : (store.tasks.insert taskId row).lookup id = some row' := hrow'
    by_cases hid : id = taskId
    · subst hid
      rw [AList.lookup_insert, Option.some.injEq] at hrow'
      exact hrow' ▸ howner
    · rw [AList.lookup_insert_ne hid] at hrow'
      exact h.owners id row' hrow'

theorem owner_of_admits (h : store.Legible serde) {taskId jobId : Uuid}
    (hadmits : store.admitsTask taskId jobId = true) :
    (store.tasks.lookup taskId = none → (store.jobs.lookup jobId).isSome) ∧
      ∀ row, store.tasks.lookup taskId = some row → (store.jobs.lookup row.jobId).isSome := by
  refine ⟨fun hnone => ?_, h.owners taskId⟩
  rw [admitsTask, hnone, Bool.or_eq_true] at hadmits
  exact hadmits.resolve_left (by simp)

theorem legible_keptByWrites (serde : Serde Uuid) :
    KeptByWrites serde (fun _ => True) (Legible serde) where
  job store jobId dag status h _ := by
    refine legible_transaction h fun _ => ⟨fun id row hrow => ?_, h.tasks, fun id row hrow => ?_⟩
    · have hrow : (store.jobs.insert jobId _).lookup id = some row := hrow
      by_cases hid : id = jobId
      · subst hid
        rw [AList.lookup_insert, Option.some.injEq] at hrow
        exact ⟨status, dag, hrow.symm⟩
      · rw [AList.lookup_insert_ne hid] at hrow
        exact h.jobs id row hrow
    · have hsome := h.owners id row hrow
      rw [AList.lookup_isSome] at hsome ⊢
      exact (AList.mem_insert _).mpr (Or.inr hsome)
  jobStatus store _ _ _ _ _ _ h :=
    legible_transaction h fun _ => ⟨h.jobs, h.tasks, h.owners⟩
  taskStatus store taskId jobId status h := by
    refine legible_transaction h fun hadmits => ?_
    have howner := owner_of_admits h hadmits
    have hrest : ({ store with faults := store.faults.tail } : StateStore Uuid).Legible serde :=
      ⟨h.jobs, h.tasks, h.owners⟩
    refine hrest.insertTask ?_ ?_
    · cases hrow : store.tasks.lookup taskId with
      | none => exact ⟨status, none, rfl⟩
      | some row =>
          obtain ⟨old, result, heq⟩ := h.tasks taskId row hrow
          refine ⟨status, result, ?_⟩
          show ({ row with status := _ } : TaskRow Uuid) = _
          rw [heq]
          rfl
    · show (store.jobs.lookup (taskRowWithStatus (store.tasks.lookup taskId) jobId _).jobId).isSome
      cases hrow : store.tasks.lookup taskId with
      | none => exact howner.1 hrow
      | some row => exact howner.2 row hrow
  taskResult store result h := by
    refine legible_transaction h fun hadmits => ?_
    have howner := owner_of_admits h hadmits
    have hrest : ({ store with faults := store.faults.tail } : StateStore Uuid).Legible serde :=
      ⟨h.jobs, h.tasks, h.owners⟩
    refine hrest.insertTask ?_ ?_
    · cases hrow : store.tasks.lookup result.taskId with
      | none => exact ⟨result.status, some result, rfl⟩
      | some row => exact ⟨result.status, some result, rfl⟩
    · show (store.jobs.lookup
        (taskRowWithResult (store.tasks.lookup result.taskId) result.jobId _ _).jobId).isSome
      cases hrow : store.tasks.lookup result.taskId with
      | none => exact howner.1 hrow
      | some row => exact howner.2 row hrow
  workerMetrics store _ _ _ _ h := legible_transaction h fun _ => ⟨h.jobs, h.tasks, h.owners⟩

theorem legible_empty (faults : List Bool) :
    ({ faults } : StateStore Uuid).Legible serde where
  jobs id row h := by cases h
  tasks id row h := by cases h
  owners id row h := by cases h

/-! ### What the loaders find -/

theorem Legible.loadAllJobs (h : store.Legible serde) (hserde : serde.RoundTrip) :
    ∃ rows, store.loadAllJobs serde = some rows ∧ (rows.map Prod.fst).Nodup ∧
      ∀ row, row ∈ rows ↔
        store.jobs.lookup row.1 = some ⟨serde.jobStatus row.2.1, serde.dag row.2.2⟩ := by
  have hparse : ∀ id status dag, parseJobRow serde id ⟨serde.jobStatus status, serde.dag dag⟩ =
      some (id, status, dag) := by
    intro id status dag
    simp [parseJobRow, hserde.jobStatus, hserde.dag]
  obtain ⟨rows, hload, hnodup, hmem⟩ := HashMap.mapM_entries (parseJobRow_id serde)
    (fun id row hrow => by
      obtain ⟨status, dag, rfl⟩ := h.jobs id row hrow
      rw [hparse]
      rfl)
  refine ⟨rows, hload, hnodup, fun row => ?_⟩
  rw [hmem]
  constructor
  · intro hfound
    obtain ⟨r, hr, hx⟩ := hfound
    obtain ⟨status, dag, rfl⟩ := h.jobs _ r hr
    rw [hparse] at hx
    rw [hr, ← Option.some.inj hx]
  · intro hr
    exact ⟨_, hr, hparse _ _ _⟩

theorem Legible.loadAllTasks (h : store.Legible serde) (hserde : serde.RoundTrip) :
    ∃ rows, store.loadAllTasks serde = some rows ∧ (rows.map Prod.fst).Nodup ∧
      ∀ row, row ∈ rows ↔ store.tasks.lookup row.1 =
        some (Session.taskRow serde row.2.1 row.2.2.1 row.2.2.2) := by
  obtain ⟨rows, hload, hnodup, hmem⟩ := HashMap.mapM_entries (parseTaskRow_id serde)
    (fun id row hrow => by
      obtain ⟨status, result, heq⟩ := h.tasks id row hrow
      rw [heq, Session.parseTaskRow_taskRow hserde]
      rfl)
  refine ⟨rows, hload, hnodup, fun row => ?_⟩
  rw [hmem]
  constructor
  · intro ⟨r, hr, hx⟩
    obtain ⟨status, result, heq⟩ := h.tasks _ r hr
    rw [heq, Session.parseTaskRow_taskRow hserde] at hx
    rw [hr, heq, ← Option.some.inj hx]
  · intro hr
    exact ⟨_, hr, Session.parseTaskRow_taskRow hserde _ _ _ _⟩

end StateStore

namespace Master

variable {env : MasterEnv Uuid} {store : StateStore Uuid}

/-- A start finds no job without a row. -/
theorem lookup_new_none (h : store.Legible env.serde) (hserde : env.serde.RoundTrip) {id : Uuid}
    (hrow : store.jobs.lookup id = none) : (new env store).jobs.lookup id = none := by
  obtain ⟨jobs, hjobs, hjobsNodup, hjobsMem⟩ := h.loadAllJobs hserde
  obtain ⟨rows, hrows, hnodup, hmem⟩ := h.loadAllTasks hserde
  rw [new, hjobs, hrows]
  refine lookup_restoreTaskRow_none ?_ fun row hrow' hid => ?_
  · rw [Option.eq_none_iff_forall_ne_some]
    intro job hsome
    have hjob := (HashMap.lookup_foldl_insert Prod.fst
      (fun row : Uuid × JobStatus × DagSpecification => restoredJob row.2.2 row.2.1)
      hjobsNodup).mp hsome
    rcases hjob with ⟨row, hrow', rfl, -⟩ | ⟨-, hempty⟩
    · rw [(hjobsMem row).mp hrow'] at hrow
      cases hrow
    · cases hempty
  · have howner := h.owners _ _ ((hmem row).mp hrow')
    rw [show (Session.taskRow env.serde row.2.1 row.2.2.1 row.2.2.2).jobId = id from hid,
      hrow] at howner
    cases howner

/-- A start finds the job of a row, with the tasks of the rows that name it. -/
theorem lookup_new (h : store.Legible env.serde) (hserde : env.serde.RoundTrip) {id : Uuid}
    {status : JobStatus} {dag : DagSpecification}
    (hrow : store.jobs.lookup id = some ⟨env.serde.jobStatus status, env.serde.dag dag⟩) :
    ∃ job, (new env store).jobs.lookup id = some job ∧ job.dag = dag ∧ job.status = status ∧
      ∀ taskId now, job.tasks.lookup taskId = some now ↔ ∃ before result,
        store.tasks.lookup taskId = some (Session.taskRow env.serde id before result) ∧
          now = normalize before := by
  obtain ⟨jobs, hjobs, hjobsNodup, hjobsMem⟩ := h.loadAllJobs hserde
  obtain ⟨rows, hrows, hnodup, hmem⟩ := h.loadAllTasks hserde
  have hjob : (jobs.foldl (fun m row => m.insert row.1 (restoredJob row.2.2 row.2.1))
      (∅ : HashMap Uuid (JobState Uuid))).lookup id = some (restoredJob dag status) := by
    refine (HashMap.lookup_foldl_insert Prod.fst
      (fun row : Uuid × JobStatus × DagSpecification => restoredJob row.2.2 row.2.1)
      hjobsNodup).mpr (Or.inl ?_)
    exact ⟨(id, status, dag), (hjobsMem _).mpr hrow, rfl, rfl⟩
  have hnodup' : ((rows.filter fun row => decide (row.2.1 = id)).map Prod.fst).Nodup :=
    hnodup.sublist (List.filter_sublist.map _)
  refine ⟨restoreRows (rows.filter fun row => row.2.1 = id) (restoredJob dag status), ?_, rfl, rfl,
    fun taskId now => ?_⟩
  · rw [new, hjobs, hrows]
    exact lookup_restoreTaskRow rows hjob
  · rw [restoreRows, HashMap.lookup_foldl_insert Prod.fst
      (fun row : LoadedTask Uuid => normalize row.2.2.1) hnodup']
    constructor
    · intro hfound
      rcases hfound with ⟨row, hrow', rfl, rfl⟩ | ⟨-, hnone⟩
      · obtain ⟨hrow', hid⟩ := List.mem_filter.mp hrow'
        rw [decide_eq_true_eq] at hid
        have hstored := (hmem row).mp hrow'
        rw [hid] at hstored
        exact ⟨row.2.2.1, row.2.2.2, hstored, rfl⟩
      · cases hnone
    · intro hfound
      obtain ⟨before, result, hstored, hnow⟩ := hfound
      refine Or.inl ⟨(taskId, id, before, result), List.mem_filter.mpr ⟨?_, ?_⟩, rfl, hnow.symm⟩
      · exact (hmem _).mpr hstored
      · exact decide_eq_true rfl

/-- The writes of a start, which queue the tasks that are with a worker again. -/
def requeueWrites (env : MasterEnv Uuid) (store : StateStore Uuid) : List (Attempted Uuid) :=
  (((store.loadAllTasks env.serde).getD []).filter fun row => row.2.2.1.worker.isSome).map
    fun row => ⟨false, .taskStatus row.1 row.2.1 .queued⟩

theorem new_store : (new env store).store = attempt env.serde (requeueWrites env store) store := by
  have hfold : ∀ (rows : List (LoadedTask Uuid)) (s : StateStore Uuid),
      rows.foldl (fun s row => (s.persistTaskStatus env.serde row.1 row.2.1 .queued).2) s =
        attempt env.serde (rows.map fun row => ⟨false, .taskStatus row.1 row.2.1 .queued⟩) s := by
    intro rows
    induction rows with
    | nil => exact fun s => rfl
    | cons row rows ih =>
        intro s
        rw [List.foldl_cons, ih, List.map_cons, attempt_lax]
        rfl
  exact hfold _ _

end Master
end ProcessingEngine

import ProcessingEngine.Master.Service

/-!
# Completed jobs across crashes

Success is concluded in one place, when a report finds no task left open, and
the row of the job is written after that of the task.  `Detects` says which
steps conclude it in memory and in the tables at once; in a run of such steps a
job of which all tasks are completed has succeeded (`completion_detected`).
-/

namespace ProcessingEngine

open Lib

variable {Uuid : Type} [DecidableEq Uuid]

namespace StateStore

/-- All rows of tasks of the job say that the task is completed. -/
def RowsDone (serde : Serde Uuid) (store : StateStore Uuid) (jobId : Uuid) : Prop :=
  ∀ id row, store.tasks.lookup id = some row → row.jobId = jobId →
    row.status = serde.taskStatus .completed

instance decidableRowsDone (serde : Serde Uuid) (store : StateStore Uuid) (jobId : Uuid) :
    Decidable (RowsDone serde store jobId) :=
  decidable_of_iff (∀ e ∈ store.tasks.entries, e.2.jobId = jobId →
      e.2.status = serde.taskStatus .completed)
    ⟨fun h id row hrow => h ⟨id, row⟩ (AList.mem_lookup_iff.mp hrow),
      fun h e he => h e.1 e.2 (AList.mem_lookup_iff.mpr he)⟩

/-- The row of the job says that it has succeeded. -/
def RowSucceeded (serde : Serde Uuid) (store : StateStore Uuid) (jobId : Uuid) : Prop :=
  (store.jobs.lookup jobId).map JobRow.status = some (serde.jobStatus .succeeded)

instance decidableRowSucceeded (serde : Serde Uuid) (store : StateStore Uuid) (jobId : Uuid) :
    Decidable (RowSucceeded serde store jobId) :=
  inferInstanceAs (Decidable ((store.jobs.lookup jobId).map JobRow.status = _))

/-- The row of a reported task, if there is one, is that of a task of its job. -/
def OwnRow (store : StateStore Uuid) (result : TaskResult Uuid) : Prop :=
  ∀ row ∈ store.tasks.lookup result.taskId, row.jobId = result.jobId

instance decidableOwnRow (store : StateStore Uuid) (result : TaskResult Uuid) :
    Decidable (store.OwnRow result) :=
  inferInstanceAs (Decidable (∀ row ∈ store.tasks.lookup result.taskId,
    row.jobId = result.jobId))

end StateStore

namespace Service

open StateStore (RowsDone RowSucceeded OwnRow)

/-- A report that leaves no open row leaves no open task in memory either, and
the row of the job is among the `k` writes that are done. -/
def ReportCloses (env : MasterEnv Uuid) (m : Master Uuid) (job : JobState Uuid)
    (result : TaskResult Uuid) (k : Nat) : Prop :=
  ((job.recordStatus result).pending = false ∧ 2 ≤ k ∧ m.store.refuses 1 = false) ∨
    RowSucceeded env.serde m.store result.jobId ∨
    ¬ RowsDone env.serde (m.store.persistTaskResult env.serde result).2 result.jobId

instance decidableReportCloses (env : MasterEnv Uuid) (m : Master Uuid) (job : JobState Uuid)
    (result : TaskResult Uuid) (k : Nat) : Decidable (ReportCloses env m job result k) :=
  inferInstanceAs (Decidable (_ ∧ _ ∧ _ ∨ RowSucceeded _ _ _ ∨ ¬ RowsDone _ _ _))

/-- The first `k` writes of an event conclude success when they leave no open
row. -/
def TablesDetect (env : MasterEnv Uuid) (s : Service Uuid) (k : Nat) : Event Uuid → Prop
  | .advance i =>
      ∀ task ∈ s.system.marking i, task.jobId ∈ s.accepted → k ≠ 0 →
        ∀ job ∈ s.system.job task.jobId,
          job.status = .running ∨ ¬ RowsDone env.serde s.system.master.store task.jobId
  | .complete result =>
      k ≠ 0 → ∀ job ∈ s.system.job result.jobId, s.system.master.store.OwnRow result ∧
        (result.jobId ∈ s.accepted → result.status = .completed →
          s.system.master.store.accepts result.taskId result.jobId →
            ReportCloses env s.system.master job result k)
  | _ => True

/-- An event concludes success when it leaves no open task in memory. -/
def MemoryDetects (env : MasterEnv Uuid) (s : Service Uuid) : Event Uuid → Prop
  | .submit jobId dag order _ =>
      dag.validate = .ok () → dag.materializeTasks env.newV5 order jobId ≠ []
  | .advance i =>
      ∀ task ∈ s.system.marking i, task.jobId ∈ s.accepted →
        ∀ job ∈ s.system.job task.jobId, job.status = .running ∨ job.pending = true
  | .complete result =>
      result.jobId ∈ s.accepted → result.status = .completed →
        s.system.master.store.accepts result.taskId result.jobId = false →
          ∀ job ∈ s.system.job result.jobId,
            job.status = .succeeded ∨ (job.recordStatus result).pending = true
  | _ => True

/-- The steps that do not leave a job with all of its tasks completed and no
success concluded. -/
def Detects (env : MasterEnv Uuid) (s : Service Uuid) : Incident Uuid → Prop
  | .event e => s.TablesDetect env (e.writes env s.system).length e ∧ s.MemoryDetects env e
  | .crash e k => s.TablesDetect env k e
  | .restart => True
  | .interrupt _ => True

instance decidableTablesDetect (env : MasterEnv Uuid) (s : Service Uuid) (k : Nat) :
    ∀ e, Decidable (s.TablesDetect env k e)
  | .advance i => inferInstanceAs (Decidable (∀ task ∈ s.system.marking i, _ → _ → _))
  | .complete _ => inferInstanceAs (Decidable (k ≠ 0 → ∀ job ∈ s.system.job _, _))
  | .submit _ _ _ _ => inferInstanceAs (Decidable True)
  | .register _ => inferInstanceAs (Decidable True)
  | .heartbeat _ _ => inferInstanceAs (Decidable True)
  | .collect _ => inferInstanceAs (Decidable True)
  | .snapshot _ => inferInstanceAs (Decidable True)

instance decidableMemoryDetects (env : MasterEnv Uuid) (s : Service Uuid) :
    ∀ e, Decidable (s.MemoryDetects env e)
  | .submit jobId dag order _ =>
      inferInstanceAs (Decidable (dag.validate = .ok () →
        dag.materializeTasks env.newV5 order jobId ≠ []))
  | .advance i => inferInstanceAs (Decidable (∀ task ∈ s.system.marking i, _ → _))
  | .complete _ => inferInstanceAs (Decidable (_ → _ → _ → ∀ job ∈ s.system.job _, _))
  | .register _ => inferInstanceAs (Decidable True)
  | .heartbeat _ _ => inferInstanceAs (Decidable True)
  | .collect _ => inferInstanceAs (Decidable True)
  | .snapshot _ => inferInstanceAs (Decidable True)

instance decidableDetects (env : MasterEnv Uuid) (s : Service Uuid) :
    ∀ a, Decidable (s.Detects env a)
  | .event e => inferInstanceAs (Decidable (s.TablesDetect env _ e ∧ s.MemoryDetects env e))
  | .crash e k => inferInstanceAs (Decidable (s.TablesDetect env k e))
  | .restart => inferInstanceAs (Decidable True)
  | .interrupt _ => inferInstanceAs (Decidable True)

end Service

/-! ### Writes of the tables -/

namespace StateStore

variable {serde : Serde Uuid} {store store' : StateStore Uuid} {accepted : List Uuid} {jobId : Uuid}

/-- The rows of the accepted jobs of which all tasks are completed say so. -/
def Durable (serde : Serde Uuid) (accepted : List Uuid) (store : StateStore Uuid) : Prop :=
  ∀ jobId ∈ accepted, RowsDone serde store jobId → RowSucceeded serde store jobId

/-- Only the row of the job `jobId` may have changed. -/
structure OthersKept (jobId : Uuid) (store store' : StateStore Uuid) : Prop where
  tasks : store'.tasks = store.tasks
  jobs : ∀ id ≠ jobId, store'.jobs.lookup id = store.jobs.lookup id

omit [DecidableEq Uuid] in
theorem taskStatus_injective (hserde : serde.RoundTrip) :
    Function.Injective serde.taskStatus := by
  intro a b h
  have hparse := hserde.taskStatus a
  rw [h, hserde.taskStatus] at hparse
  exact (Option.some.inj hparse).symm

/-- A row that is written over another one does not make a job done, unless it
was so before. -/
theorem RowsDone.of_insert {taskId : Uuid} {row : TaskRow Uuid}
    (hrow : ∀ old, store.tasks.lookup taskId = some old → old.jobId = jobId →
      row.jobId = jobId ∧ row.status ≠ serde.taskStatus .completed)
    (h : RowsDone serde { store with tasks := store.tasks.insert taskId row } jobId) :
    RowsDone serde store jobId := by
  intro id old hold howner
  by_cases hid : id = taskId
  · subst hid
    obtain ⟨hjob, hstatus⟩ := hrow old hold howner
    exact absurd (h id row (AList.lookup_insert _) hjob) hstatus
  · exact h id old ((AList.lookup_insert_ne hid).trans hold) howner

end StateStore

/-- The write neither completes a task nor concerns the row of an accepted job. -/
def Write.Safe (accepted : List Uuid) : Write Uuid → Prop
  | .job jobId _ _ => jobId ∉ accepted
  | .jobStatus _ _ _ _ _ _ => True
  | .taskStatus _ _ status => status ≠ .completed
  | .taskResult result => result.status ≠ .completed
  | .workerMetrics _ _ _ _ => True

/-- The write is one of the rows of the job. -/
def Write.Ends (jobId : Uuid) : Write Uuid → Prop
  | .job jobId' _ _ => jobId' = jobId
  | .jobStatus _ _ _ _ _ _ => True
  | _ => False

/-- The write is one of the rows of a job that has succeeded. -/
def Write.Concludes (jobId : Uuid) : Write Uuid → Prop
  | .job jobId' _ status => jobId' = jobId ∧ status = .succeeded
  | .jobStatus _ _ _ _ _ _ => True
  | _ => False

namespace StateStore

variable {serde : Serde Uuid} {store store' : StateStore Uuid} {accepted : List Uuid} {jobId : Uuid}

theorem Durable.perform (h : store.Durable serde accepted) (hserde : serde.RoundTrip)
    {write : Write Uuid} (hsafe : write.Safe accepted) :
    (write.perform serde store).2.Durable serde accepted := by
  have hrest : ({ store with faults := store.faults.tail } : StateStore Uuid).Durable
      serde accepted := h
  have hopen : ∀ {status : TaskStatus Uuid}, status ≠ .completed →
      serde.taskStatus status ≠ serde.taskStatus .completed :=
    fun hne heq => hne (taskStatus_injective hserde heq)
  cases write with
  | job id dag status =>
      refine transaction_keeps hrest fun _ jobId hmem hdone => ?_
      have hne : jobId ≠ id := fun heq => hsafe (heq ▸ hmem)
      show ((store.jobs.insert id _).lookup jobId).map _ = _
      rw [AList.lookup_insert_ne hne]
      exact h jobId hmem hdone
  | jobStatus id state progress metrics error outputs =>
      exact transaction_keeps hrest fun _ => h
  | taskStatus taskId id status =>
      refine transaction_keeps hrest fun _ jobId hmem hdone => ?_
      refine h jobId hmem (RowsDone.of_insert (fun old hold howner => ?_) hdone)
      show (taskRowWithStatus (store.tasks.lookup taskId) _ _).jobId = _ ∧
        (taskRowWithStatus (store.tasks.lookup taskId) _ _).status ≠ _
      rw [hold]
      exact ⟨howner, hopen hsafe⟩
  | taskResult result =>
      refine transaction_keeps hrest fun _ jobId hmem hdone => ?_
      refine h jobId hmem (RowsDone.of_insert (fun old hold howner => ?_) hdone)
      show (taskRowWithResult (store.tasks.lookup result.taskId) _ _ _).jobId = _ ∧
        (taskRowWithResult (store.tasks.lookup result.taskId) _ _ _).status ≠ _
      rw [hold]
      exact ⟨howner, hopen hsafe⟩
  | workerMetrics workerId status metrics now =>
      exact transaction_keeps hrest fun _ => h

theorem Durable.attempt (h : store.Durable serde accepted) (hserde : serde.RoundTrip)
    {writes : List (Attempted Uuid)} (hsafe : ∀ a ∈ writes, a.write.Safe accepted) :
    (attempt serde writes store).Durable serde accepted :=
  attempt_invariant (fun a ha _ hstore => hstore.perform hserde (hsafe a ha)) h

/-- The rows of one job. -/
theorem othersKept_attempt (store : StateStore Uuid) {writes : List (Attempted Uuid)}
    (hends : ∀ a ∈ writes, a.write.Ends jobId) :
    OthersKept jobId store (attempt serde writes store) := by
  apply attempt_invariant _ ⟨rfl, fun _ _ => rfl⟩
  intro ⟨strict, write⟩ ha s hs
  have hend := hends _ ha
  cases write with
  | job id dag status =>
      refine transaction_keeps ⟨hs.tasks, hs.jobs⟩ fun _ => ⟨hs.tasks, fun other hother => ?_⟩
      have hid : id = jobId := hend
      show (s.jobs.insert id _).lookup other = _
      rw [AList.lookup_insert_ne (by rw [hid]; exact hother)]
      exact hs.jobs other hother
  | jobStatus id state progress metrics error outputs =>
      exact transaction_keeps ⟨hs.tasks, hs.jobs⟩ fun _ => ⟨hs.tasks, hs.jobs⟩
  | _ => exact hend.elim

theorem RowSucceeded.attempt (h : store.RowSucceeded serde jobId)
    {writes : List (Attempted Uuid)} (hconcludes : ∀ a ∈ writes, a.write.Concludes jobId) :
    (attempt serde writes store).RowSucceeded serde jobId := by
  refine attempt_invariant (Q := fun s => s.RowSucceeded serde jobId) ?_ h
  intro ⟨strict, write⟩ ha s hs
  have hconclude := hconcludes _ ha
  cases write with
  | job id dag status =>
      obtain ⟨rfl, rfl⟩ := hconclude
      refine transaction_keeps (Q := fun s => s.RowSucceeded serde id) hs fun _ => ?_
      show ((s.jobs.insert id _).lookup id).map _ = _
      rw [AList.lookup_insert]
      rfl
  | jobStatus id state progress metrics error outputs =>
      exact transaction_keeps (Q := fun s => s.RowSucceeded serde jobId) hs fun _ => hs
  | _ => exact hconclude.elim

/-- The rows of a job are written: the others are as they were. -/
theorem Durable.of_othersKept (hkept : OthersKept jobId store store')
    (hothers : ∀ id ∈ accepted, id ≠ jobId → RowsDone serde store id →
      RowSucceeded serde store id)
    (hself : jobId ∈ accepted → RowsDone serde store jobId → RowSucceeded serde store' jobId) :
    store'.Durable serde accepted := by
  intro id hmem hdone
  have hdone : RowsDone serde store id := by
    intro taskId row hrow
    exact hdone taskId row (hkept.tasks ▸ hrow)
  by_cases hid : id = jobId
  · subst hid
    exact hself hmem hdone
  · rw [RowSucceeded, hkept.jobs id hid]
    exact hothers id hmem hid hdone

/-- The row of a reported task, when it is written. -/
theorem persistTaskResult_cases (serde : Serde Uuid) (store : StateStore Uuid)
    (result : TaskResult Uuid) :
    (store.accepts result.taskId result.jobId = true ∧
      store.persistTaskResult serde result = (.ok (),
        { store with
          tasks := store.tasks.insert result.taskId
            (taskRowWithResult (store.tasks.lookup result.taskId) result.jobId
              (serde.taskStatus result.status) (serde.result result))
          faults := store.faults.tail })) ∨
    store.accepts result.taskId result.jobId = false ∧
      ∃ e, store.persistTaskResult serde result =
        (.error e, { store with faults := store.faults.tail }) := by
  unfold accepts persistTaskResult transaction
  cases store.faults.head?.getD false with
  | true => exact Or.inr ⟨rfl, _, rfl⟩
  | false =>
      cases store.admitsTask result.taskId result.jobId with
      | true => exact Or.inl ⟨rfl, rfl⟩
      | false => exact Or.inr ⟨rfl, _, rfl⟩

/-- The row of a reported task names the job of the report. -/
theorem taskRowWithResult_own {result : TaskResult Uuid} (hown : store.OwnRow result)
    (status json : String) :
    (taskRowWithResult (store.tasks.lookup result.taskId) result.jobId status json).jobId =
        result.jobId ∧
      (taskRowWithResult (store.tasks.lookup result.taskId) result.jobId status json).status =
        status := by
  cases hrow : store.tasks.lookup result.taskId with
  | none => exact ⟨rfl, rfl⟩
  | some row => exact ⟨hown row hrow, rfl⟩

end StateStore

namespace JobState

theorem record_pending (job : JobState Uuid) (result : TaskResult Uuid) :
    (job.record result).pending = (job.recordStatus result).pending := by
  rw [pending, pending, record_tasks]
  rfl

end JobState

namespace Master

variable {env : MasterEnv Uuid} {m : Master Uuid} {accepted : List Uuid}

omit [DecidableEq Uuid] in
theorem ends_outcomeWrites (jobId : Uuid) (job : JobState Uuid) (result : TaskResult Uuid) :
    ∀ a ∈ outcomeWrites jobId job result, a.write.Ends jobId := by
  unfold outcomeWrites
  cases result.status with
  | completed =>
      dsimp only
      split_ifs <;> simp [Write.Ends]
  | failed message => simp [Write.Ends]
  | _ => simp

omit [DecidableEq Uuid] in
theorem concludes_outcomeWrites (jobId : Uuid) (job : JobState Uuid) {result : TaskResult Uuid}
    (hstatus : result.status = .completed) :
    ∀ a ∈ outcomeWrites jobId job result, a.write.Concludes jobId := by
  rw [outcomeWrites, hstatus]
  dsimp only
  split_ifs <;> simp [Write.Concludes]

/-- The row of the job is the first of the rows written for its last task. -/
theorem rowSucceeded_outcomeWrites {jobId : Uuid} {job : JobState Uuid} {result : TaskResult Uuid}
    (hpending : job.pending = false) (hstatus : result.status = .completed) {k : Nat}
    {store : StateStore Uuid} (hrefuses : store.refuses 0 = false) :
    (attempt env.serde ((outcomeWrites jobId job result).take (k + 1)) store).RowSucceeded
      env.serde jobId := by
  have hconcludes := concludes_outcomeWrites jobId job hstatus
  rw [outcomeWrites, hstatus] at hconcludes ⊢
  dsimp only at hconcludes ⊢
  rw [if_neg (by rw [hpending]; exact Bool.false_ne_true)] at hconcludes ⊢
  rw [List.take_succ_cons, attempt_lax]
  dsimp only [Write.perform]
  rw [StateStore.persistJob, StateStore.transaction_of_accepts hrefuses rfl]
  refine StateStore.RowSucceeded.attempt ?_ fun a ha => ?_
  · show ((store.jobs.insert jobId _).lookup jobId).map _ = _
    rw [AList.lookup_insert]
    rfl
  · exact hconcludes a (List.mem_cons_of_mem _ (List.mem_of_mem_take ha))

/-- The writes of a report keep the rows in step with each other. -/
theorem durable_completeWrites (hserde : env.serde.RoundTrip)
    (h : m.store.Durable env.serde accepted) {result : TaskResult Uuid} {k : Nat}
    (hdetects : k ≠ 0 → ∀ job ∈ m.jobs.lookup result.jobId, m.store.OwnRow result ∧
      (result.jobId ∈ accepted → result.status = .completed →
        m.store.accepts result.taskId result.jobId → Service.ReportCloses env m job result k)) :
    (attempt env.serde ((m.completeWrites result).take k) m.store).Durable env.serde accepted := by
  unfold completeWrites
  cases hjob : m.jobs.lookup result.jobId with
  | none =>
      rw [List.take_nil]
      exact h
  | some job =>
      cases k with
      | zero => exact h
      | succ k =>
          obtain ⟨hown, hcloses⟩ := hdetects (Nat.succ_ne_zero k) job hjob
          dsimp only
          rw [List.take_succ_cons, attempt]
          dsimp only [Write.perform]
          rcases StateStore.persistTaskResult_cases env.serde m.store result with
            ⟨haccepts, hwrite⟩ | ⟨haccepts, e, hwrite⟩
          · have hends : ∀ a ∈ (outcomeWrites result.jobId (job.record result) result).take k,
                a.write.Ends result.jobId :=
              fun a ha => ends_outcomeWrites _ _ _ a (List.mem_of_mem_take ha)
            obtain ⟨howner, hstatus⟩ := StateStore.taskRowWithResult_own hown
              (env.serde.taskStatus result.status) (env.serde.result result)
            rw [Service.ReportCloses, hwrite] at hcloses
            rw [hwrite]
            dsimp only at hcloses ⊢
            refine StateStore.Durable.of_othersKept (StateStore.othersKept_attempt _ hends)
              (fun id hmem hid hdone => ?_) fun hmem hdone => ?_
            · refine h id hmem (StateStore.RowsDone.of_insert (fun old hold hjobId => ?_) hdone)
              exact absurd (hjobId.symm.trans (hown old hold)) hid
            · by_cases hcompleted : result.status = .completed
              · rcases hcloses hmem hcompleted haccepts with ⟨hpending, hk, hrefuses⟩ | hrow | hopen
                · obtain ⟨n, rfl⟩ : ∃ n, k = n + 1 := ⟨k - 1, by omega⟩
                  refine rowSucceeded_outcomeWrites ?_ hcompleted ?_
                  · rw [JobState.record_pending, hpending]
                  · rw [← hrefuses, StateStore.refuses_succ]
                    rfl
                · refine StateStore.RowSucceeded.attempt (by exact hrow) fun a ha => ?_
                  exact concludes_outcomeWrites _ _ hcompleted a (List.mem_of_mem_take ha)
                · exact absurd hdone hopen
              · have hrow := hdone result.taskId _ (AList.lookup_insert _) howner
                rw [hstatus] at hrow
                exact absurd (StateStore.taskStatus_injective hserde hrow) hcompleted
          · rw [hwrite]
            exact h

theorem safe_submitWrites (stagesOrder : HashOrder String) (dag : DagSpecification) {jobId : Uuid}
    (tasks : List (Task Uuid)) (hnew : jobId ∉ accepted) :
    ∀ a ∈ submitWrites stagesOrder dag jobId tasks, a.write.Safe accepted := by
  intro a ha
  rw [submitWrites, List.cons_append, List.mem_cons, List.mem_append, List.mem_map,
    List.mem_singleton] at ha
  rcases ha with rfl | ⟨task, -, rfl⟩ | rfl
  · exact hnew
  · intro hcompleted
    cases hcompleted
  · trivial

omit [DecidableEq Uuid] in
theorem safe_requeueWrites (store : StateStore Uuid) :
    ∀ a ∈ requeueWrites env store, a.write.Safe accepted := by
  intro a ha
  obtain ⟨row, -, rfl⟩ := List.mem_map.mp ha
  exact nofun

theorem ends_runningWrites (task : Task Uuid) :
    ∀ a ∈ m.runningWrites task, a.write.Ends task.jobId := by
  unfold runningWrites
  cases m.jobs.lookup task.jobId with
  | none => simp
  | some job =>
      dsimp only
      split_ifs <;> simp [Write.Ends]

/-- The writes that mark a job as running. -/
theorem durable_runningWrites (h : m.store.Durable env.serde accepted) (task : Task Uuid) {k : Nat}
    (hdetects : task.jobId ∈ accepted → k ≠ 0 → ∀ job ∈ m.jobs.lookup task.jobId,
      job.status = .running ∨ ¬ m.store.RowsDone env.serde task.jobId) :
    (attempt env.serde ((m.runningWrites task).take k) m.store).Durable env.serde accepted := by
  have hends : ∀ a ∈ (m.runningWrites task).take k, a.write.Ends task.jobId :=
    fun a ha => ends_runningWrites task a (List.mem_of_mem_take ha)
  refine StateStore.Durable.of_othersKept (StateStore.othersKept_attempt _ hends)
    (fun id hmem _ => h id hmem) fun hmem hdone => ?_
  by_cases hk : k = 0
  · subst hk
    exact h _ hmem hdone
  · unfold runningWrites
    cases hjob : m.jobs.lookup task.jobId with
    | none =>
        rw [List.take_nil]
        exact h _ hmem hdone
    | some job =>
        dsimp only
        rw [if_pos ((hdetects hmem hk job hjob).resolve_right (not_not_intro hdone)), List.take_nil]
        exact h _ hmem hdone

/-- An accepted job with a task has a row, and a row of an open task. -/
theorem rows_submitted (hserde : env.serde.RoundTrip) (hlegible : m.store.Legible env.serde)
    {order stagesOrder : HashOrder String} {dag : DagSpecification} {jobId : Uuid}
    (hfresh : m.fresh jobId)
    (hnew : ∀ id ∈ (dag.materializeTasks env.newV5 order jobId).map Task.taskId,
      m.store.tasks.lookup id = none)
    (htasks : dag.validate = .ok () → dag.materializeTasks env.newV5 order jobId ≠ [])
    {tasks : List (Task Uuid)} {m' : Master Uuid}
    (hsubmit : m.submitJob env order stagesOrder dag jobId = (.ok tasks, m')) :
    (m'.store.jobs.lookup jobId).isSome ∧ ¬ m'.store.RowsDone env.serde jobId := by
  cases hvalid : dag.validate with
  | error message =>
      rw [submitJob_invalid hvalid] at hsubmit
      cases hsubmit
  | ok =>
      cases hrefuses : m.store.refuses 0 with
      | true =>
          rw [submitJob_refused hvalid hrefuses] at hsubmit
          cases hsubmit
      | false =>
          have hstore := @submitJob_store _ _ env m order stagesOrder dag hvalid jobId
          have hall : ∀ j < (dag.materializeTasks env.newV5 order jobId).length,
              m.store.refuses (j + 1) = false := by
            rcases @submitJob_written _ _ env m dag jobId order stagesOrder hvalid hrefuses with
              ⟨hall, -⟩ | ⟨-, e, m'', hfailed, -⟩
            · exact hall
            · rw [hsubmit] at hfailed
              cases hfailed
          obtain ⟨i, hrows, hi⟩ := @rows_stopped _ _ env m dag jobId order
            ((dag.materializeTasks env.newV5 order jobId).length + 1) [] stagesOrder hvalid
            hlegible hfresh hnew hrefuses (Or.inl rfl) (by simp)
          have hle := hi.mpr ⟨Nat.le_succ _, hall⟩
          rw [List.take_of_length_le hle, stopped, hvalid] at hrows
          dsimp only at hrows
          rw [List.map_nil, List.append_nil, List.take_of_length_le (by simp [submitWrites]),
            ← hstore, hsubmit] at hrows
          obtain ⟨task, rest, hcons⟩ := List.exists_cons_of_ne_nil (htasks hvalid)
          obtain ⟨status, hqueued, hrow⟩ := hrows.task task.taskId (by rw [hcons]; simp)
          obtain ⟨jobStatus, hjob⟩ := hrows.job
          refine ⟨by rw [hjob]; rfl, fun hdone => ?_⟩
          have htext := StateStore.taskStatus_injective hserde (hdone _ _ hrow rfl)
          rw [htext] at hqueued
          cases hqueued

end Master

/-! ### The invariant -/

namespace Service

variable {env : MasterEnv Uuid} {s s' : Service Uuid}

/-- The tables hold the accepted jobs, and know which of them have succeeded. -/
structure Tables (serde : Serde Uuid) (accepted : List Uuid) (store : StateStore Uuid) : Prop where
  legible : store.Legible serde
  rows : ∀ jobId ∈ accepted, (store.jobs.lookup jobId).isSome
  durable : store.Durable serde accepted

theorem Tables.attempt {serde : Serde Uuid} {accepted : List Uuid} {store : StateStore Uuid}
    (h : Tables serde accepted store) {writes : List (Attempted Uuid)}
    (hdurable : (attempt serde writes store).Durable serde accepted) :
    Tables serde accepted (attempt serde writes store) where
  legible := attempt_keeps (StateStore.legible_keptByWrites serde) writes h.legible
  rows jobId hmem :=
    (attempt_keeps (StateStore.continues_keptByWrites serde store) writes
      (StateStore.Continues.refl store)).jobs jobId (h.rows jobId hmem)
  durable := hdurable

theorem not_accepted (h : Tables env.serde s.accepted s.system.master.store) {jobId : Uuid}
    (hfresh : s.system.master.fresh jobId) : jobId ∉ s.accepted := by
  intro hmem
  have hrow := h.rows jobId hmem
  simp only [Master.fresh, Bool.and_eq_true, Option.isNone_iff_eq_none] at hfresh
  rw [hfresh.2] at hrow
  cases hrow

/-- Whatever part of its writes an event gets done, the rows stay in step. -/
theorem Tables.writes (h : Tables env.serde s.accepted s.system.master.store)
    (hserde : env.serde.RoundTrip) {e : Event Uuid} {k : Nat} (hstep : (s.system.step env e).isSome)
    (hdetects : s.TablesDetect env k e) :
    Tables env.serde s.accepted
      (ProcessingEngine.attempt env.serde ((e.writes env s.system).take k)
        s.system.master.store) := by
  apply h.attempt
  have hsafe : (∀ a ∈ e.writes env s.system, a.write.Safe s.accepted) →
      (ProcessingEngine.attempt env.serde ((e.writes env s.system).take k)
        s.system.master.store).Durable env.serde s.accepted :=
    fun hsafe => h.durable.attempt hserde fun a ha => hsafe a (List.mem_of_mem_take ha)
  cases e with
  | submit jobId dag order stagesOrder =>
      apply hsafe
      simp only [System.step] at hstep
      split_ifs at hstep with hfresh
      · rw [Event.writes]
        cases dag.validate with
        | error message => simp
        | ok => exact Master.safe_submitWrites _ _ _ (not_accepted h hfresh)
      · cases hstep
  | register info => exact hsafe (by simp [Event.writes])
  | heartbeat message now => exact hsafe (by simp [Event.writes, Write.Safe])
  | collect now => exact hsafe (by simp [Event.writes])
  | snapshot order => exact hsafe (by simp [Event.writes])
  | advance i =>
      obtain ⟨system', hsystem'⟩ := Option.isSome_iff_exists.mp hstep
      obtain ⟨task, rest, phase, hloop, -⟩ := System.advance_cases hsystem'
      cases phase with
      | persisted worker =>
          rw [Event.writes, hloop]
          refine Master.durable_runningWrites h.durable task fun hmem hk => ?_
          exact hdetects task (by rw [System.marking, hloop]; rfl) hmem hk
      | _ => exact hsafe (by simp [Event.writes, hloop, Write.Safe])
  | complete result => exact Master.durable_completeWrites hserde h.durable hdetects

theorem mem_acceptedBy {e : Event Uuid} {jobId : Uuid} (hstep : (s.system.step env e).isSome)
    (hmem : jobId ∈ s.acceptedBy env e) : jobId ∈ s.accepted ∨ s.system.job jobId = none := by
  cases e with
  | submit jobId' dag order stagesOrder =>
      simp only [System.step] at hstep
      split_ifs at hstep with hfresh
      · rw [acceptedBy] at hmem
        split at hmem
        · rcases List.mem_cons.mp hmem with rfl | hmem
          · exact Or.inr (Master.lookup_of_fresh hfresh)
          · exact Or.inl hmem
        · exact Or.inl hmem
      · cases hstep
  | _ => exact Or.inl hmem

/-- The tasks of a job that an event leaves completed are those of a job that
has succeeded. -/
theorem detected_step (h : s.CompletionDetected) (hrunning : s.running = true) {e : Event Uuid}
    {system : System Uuid} (hstep : s.system.step env e = some system)
    (hdetects : s.MemoryDetects env e) :
    CompletionDetected { s with system, accepted := s.acceptedBy env e } := by
  intro _ id hmem job hjob hdone
  have hpending := JobState.pending_iff.mpr hdone
  have haccepted := mem_acceptedBy (by rw [hstep]; rfl) hmem
  have hstepJob := System.step_job hstep id
  have hjob : system.job id = some job := hjob
  rw [hjob] at hstepJob
  generalize hold : s.system.job id = old at hstepJob haccepted
  cases hstepJob with
  | unchanged =>
      have hmem := haccepted.resolve_right nofun
      exact h hrunning id hmem job hold hdone
  | @submitted dag order stagesOrder =>
      cases hvalid : dag.validate with
      | error message =>
          have hinvalid := (System.submit_cases hstep).2
          rw [Master.submitJob_invalid hvalid] at hinvalid
          obtain ⟨_, store, -, rfl⟩ | ⟨tasks, store, jobs, -, -, hsub, -⟩ := hinvalid
          · have hboth := hold.symm.trans hjob
            cases hboth
          · cases hsub
      | ok =>
          obtain ⟨task, rest, hcons⟩ := List.exists_cons_of_ne_nil (hdetects hvalid)
          have hqueued := Master.submittedJob_lookup dag stagesOrder
            (dag.materializeTasks env.newV5 order id) task.taskId
          rw [if_pos (by rw [hcons]; exact List.mem_cons_self)] at hqueued
          have hcompleted := hdone _ _ hqueued
          cases hcompleted
  | @assigned i task rest worker job hloop hid =>
      have hcompleted := hdone _ _ (AList.lookup_insert _)
      cases hcompleted
  | @running i task rest worker job hloop hid =>
      subst hid
      have hmem := haccepted.resolve_right nofun
      have hmarking : task ∈ s.system.marking i := by
        rw [System.marking, hloop]
        rfl
      rcases hdetects task hmarking hmem job hold with hstatus | hopen
      · have hsucceeded := h hrunning _ hmem job hold hdone
        rw [hstatus] at hsucceeded
        cases hsucceeded
      · have hboth := hopen.symm.trans hpending
        cases hboth
  | @recorded result job hid hok =>
      subst hid
      have hcompleted := hdone result.taskId result.status (by
        rw [JobState.record_tasks, AList.lookup_insert])
      rw [JobState.record_pending] at hpending
      rw [JobState.record_status, hcompleted]
      dsimp only
      rw [hpending]
      rfl
  | @refused result job hid hok =>
      subst hid
      have hmem := haccepted.resolve_right nofun
      have hcompleted := hdone result.taskId result.status (AList.lookup_insert _)
      refine (hdetects hmem hcompleted hok job hold).resolve_right fun hopen => ?_
      have hboth := hopen.symm.trans hpending
      cases hboth

/-- A start reads what the tables know. -/
theorem detected_restart (h : Tables env.serde s.accepted s.system.master.store)
    (hserde : env.serde.RoundTrip) :
    CompletionDetected { s with
      system := { master := Master.new env s.system.master.store }
      running := true } := by
  intro _ id hmem job hjob hdone
  obtain ⟨row, hrow⟩ := Option.isSome_iff_exists.mp (h.rows id hmem)
  obtain ⟨status, dag, rfl⟩ := h.legible.jobs id row hrow
  obtain ⟨job', hjob', -, hstatus, htasks⟩ := Master.lookup_new h.legible hserde hrow
  obtain rfl : job = job' := Option.some.inj (hjob.symm.trans hjob')
  have hrows : s.system.master.store.RowsDone env.serde id := by
    intro taskId row hrow howner
    obtain ⟨before, result, heq⟩ := h.legible.tasks taskId row hrow
    rw [howner] at heq
    have hcompleted := hdone taskId _ ((htasks taskId _).mpr ⟨before, result, heq ▸ hrow, rfl⟩)
    rw [heq, Master.normalize_eq_completed.mp hcompleted]
    rfl
  have hsucceeded := h.durable id hmem hrows
  rw [StateStore.RowSucceeded, hrow, Option.map_some, Option.some.injEq] at hsucceeded
  have hparse := hserde.jobStatus status
  rw [show env.serde.jobStatus status = env.serde.jobStatus .succeeded from hsucceeded,
    hserde.jobStatus] at hparse
  rw [hstatus]
  exact (Option.some.inj hparse).symm

structure Sound (env : MasterEnv Uuid) (s : Service Uuid) : Prop where
  tables : Tables env.serde s.accepted s.system.master.store
  detected : s.CompletionDetected

/-- The tables after a whole event. -/
theorem tables_step (h : Tables env.serde s.accepted s.system.master.store)
    (hserde : env.serde.RoundTrip) {e : Event Uuid} {system : System Uuid}
    (hstep : s.system.step env e = some system) (hnew : s.newIds env e)
    (hdetects : s.Detects env (.event e)) :
    Tables env.serde (s.acceptedBy env e) system.master.store := by
  have htables := h.writes hserde (by rw [hstep]; rfl) hdetects.1
  rw [List.take_length, ← System.step_store hstep] at htables
  cases e with
  | submit jobId dag order stagesOrder =>
      simp only [System.step] at hstep
      split_ifs at hstep with hfresh
      rw [acceptedBy]
      rcases hsubmit : s.system.master.submitJob env order stagesOrder dag jobId with ⟨e | tasks, m⟩
      · exact htables
      · rw [hsubmit] at hstep
        cases hstep
        obtain ⟨hrow, hopen⟩ := Master.rows_submitted hserde h.legible hfresh (fun id hid => by
          rw [newIds, List.all_eq_true] at hnew
          exact Option.isNone_iff_eq_none.mp (hnew id hid)) hdetects.2 hsubmit
        refine ⟨htables.legible, fun id hmem => ?_, fun id hmem hdone => ?_⟩
        · rcases List.mem_cons.mp hmem with rfl | hmem
          · exact hrow
          · exact htables.rows id hmem
        · rcases List.mem_cons.mp hmem with rfl | hmem
          · exact absurd hdone hopen
          · exact htables.durable id hmem hdone
  | _ => exact htables

theorem sound_step (hserde : env.serde.RoundTrip) (a : Incident Uuid) (h : Sound env s)
    (hdetects : s.Detects env a) (hstep : s.step env a = some s') : Sound env s' := by
  cases a with
  | event e =>
      simp only [step, Bool.and_eq_true] at hstep
      split_ifs at hstep with hguard
      obtain ⟨system, hsystem, rfl⟩ := Option.map_eq_some_iff.mp hstep
      exact ⟨tables_step h.tables hserde hsystem hguard.2 hdetects,
        detected_step h.detected hguard.1 hsystem hdetects.2⟩
  | crash e k =>
      simp only [step, Bool.and_eq_true] at hstep
      split_ifs at hstep with hguard
      cases hstep
      exact ⟨h.tables.writes hserde hguard.2 hdetects, nofun⟩
  | restart =>
      simp only [step] at hstep
      split_ifs at hstep
      cases hstep
      refine ⟨?_, detected_restart h.tables hserde⟩
      show Tables _ _ (Master.new env s.system.master.store).store
      rw [Master.new_store]
      exact h.tables.attempt (h.tables.durable.attempt hserde (Master.safe_requeueWrites _))
  | interrupt k =>
      simp only [step] at hstep
      split_ifs at hstep with hrunning
      cases hstep
      refine ⟨h.tables.attempt (h.tables.durable.attempt hserde fun a ha => ?_), fun hrun => ?_⟩
      · exact Master.safe_requeueWrites _ a (List.mem_of_mem_take ha)
      · exact absurd hrun hrunning

/-- In every run of steps that detect completion, from an empty database. -/
theorem completion_detected (hserde : env.serde.RoundTrip) (faults : List Bool)
    {labels : List (Incident Uuid)}
    (hdetects : Along (step env) (Detects env)
      { system := { master := { store := { faults } } } } labels)
    (hrun : run (step env) { system := { master := { store := { faults } } } } labels = some s) :
    s.CompletionDetected := by
  have hstart : Sound env ({ system := { master := { store := { faults } } } } : Service Uuid) := by
    refine ⟨⟨StateStore.legible_empty faults, nofun, nofun⟩, fun _ => nofun⟩
  exact (run_invariant (fun s a s' h hdetects hstep => sound_step hserde a h hdetects hstep)
    hstart hdetects hrun).detected

/-- One task, completed before the master stops. -/
def completedRun : List (Incident Path) :=
  [.event (System.readSubmission ["job"] 1),
    .event (.complete (System.readResult ["job"] ["0-0", "job"] .completed)),
    .crash (.collect 0) 0, .restart]

theorem completion_detected_completedRun :
    ∃ s, run (step System.pathEnv) { system := { master := { store := { faults := [] } } } }
      completedRun = some s ∧ s.CompletionDetected := by
  obtain ⟨s, hrun⟩ := Option.isSome_iff_exists.mp
    (show (run (step System.pathEnv) { system := { master := { store := { faults := [] } } } }
      completedRun).isSome from by decide +kernel)
  exact ⟨s, hrun, completion_detected (Serde.tallied_roundTrip Path) [] (by decide +kernel) hrun⟩

/-- The master stops between the row of the last task and that of the job. -/
def stoppedRun : List (Incident Path) :=
  [.event (System.readSubmission ["job"] 1),
    .crash (.complete (System.readResult ["job"] ["0-0", "job"] .completed)) 1, .restart]

/-- A job without tasks is never marked, nor is one whose last report was cut. -/
theorem completion_missed_stoppedRun :
    (∃ s, run (step System.pathEnv) {} [.event (System.readSubmission ["job"] 0)] = some s ∧
      ¬ s.CompletionDetected) ∧
    ∃ s, run (step System.pathEnv) {} stoppedRun = some s ∧ ¬ s.CompletionDetected := by
  constructor
  · refine ⟨_, rfl, fun h => ?_⟩
    have hstatus := h rfl ["job"] (by decide +kernel) _ rfl
      (fun id status hid => by cases hid)
    cases hstatus
  · let m := (({} : Master Path).submitJob System.pathEnv .insertion .insertion (System.readDag 1)
      ["job"]).2
    let report := System.readResult ["job"] ["0-0", "job"] .completed
    let store := attempt System.pathEnv.serde ((m.completeWrites report).take 1) m.store
    have hlegible : store.Legible System.pathEnv.serde := by
      apply attempt_keeps (StateStore.legible_keptByWrites _)
      show m.store.Legible _
      rw [Master.submitJob_store _ _ (by decide)]
      exact attempt_keeps (StateStore.legible_keptByWrites _) _ (StateStore.legible_empty [])
    obtain ⟨job, hjob, -, hstatus, htasks⟩ := @Master.lookup_new _ _ System.pathEnv store hlegible
      (Serde.tallied_roundTrip Path) ["job"] .accepted (System.readDag 1) rfl
    refine ⟨_, rfl, fun h => ?_⟩
    have hsucceeded := h rfl ["job"] (by decide +kernel) job hjob fun id status hid => ?_
    · rw [hstatus] at hsucceeded
      cases hsucceeded
    · obtain ⟨before, result, hrow, rfl⟩ := (htasks id status).mp hid
      have hkeys : store.tasks.keys = [["0-0", "job"]] := by decide +kernel
      obtain rfl : id = ["0-0", "job"] := by
        rw [← List.mem_singleton, ← hkeys, ← AList.mem_keys, ← AList.lookup_isSome, hrow]
        rfl
      have hdone : (store.tasks.lookup ["0-0", "job"]).map TaskRow.status =
          some (System.pathEnv.serde.taskStatus .completed) := rfl
      rw [hrow, Option.map_some, Option.some.injEq] at hdone
      rw [StateStore.taskStatus_injective (Serde.tallied_roundTrip Path) hdone]
      rfl

end Service
end ProcessingEngine

import ProcessingEngine.Master.System

/-!
# Finding the queued tasks again

A scheduling pass rebuilds the tasks of a job from its DAG and keeps those whose
id is queued.  It misses a task when the topological order of the pass leads to
another id than the order of the submission.
-/

namespace ProcessingEngine

open Lib

variable {Uuid : Type} [DecidableEq Uuid]

namespace DagSpecification

/-- All topological orders put equally many `ReduceByKey` nodes directly behind a
shuffle by their key, or there are no tasks. -/
def Stable (dag : DagSpecification) : Prop :=
  dag.partitions = 0 ∨ dag.readSource = none ∨
    ∀ order order' : HashOrder String, dag.shuffledReduces order = dag.shuffledReduces order'

omit [DecidableEq Uuid] in
theorem stable_iff {newV5 : Uuid → String → Uuid} {jobId : Uuid}
    (hinj : Function.Injective (newV5 jobId)) (dag : DagSpecification) :
    (∀ order order' id, id ∈ (dag.materializeTasks newV5 order jobId).map Task.taskId ↔
        id ∈ (dag.materializeTasks newV5 order' jobId).map Task.taskId) ↔ dag.Stable := by
  have hiff := fun order order' => taskIds_eq_iff newV5 hinj order order' dag
  constructor
  · intro h
    by_cases hzero : dag.partitions = 0
    · exact Or.inl hzero
    · by_cases hread : dag.readSource = none
      · exact Or.inr (Or.inl hread)
      · refine Or.inr (Or.inr fun order order' => ?_)
        rcases (hiff order order').mp (h order order') with hp | hr | hsame
        · exact absurd hp hzero
        · exact absurd hr hread
        · exact hsame
  · intro h order order'
    refine (hiff order order').mpr ?_
    rcases h with hp | hr | hsame
    · exact Or.inl hp
    · exact Or.inr (Or.inl hr)
    · exact Or.inr (Or.inr (hsame order order'))

/-- A DAG with a single source has one topological order. -/
theorem stable_of_source {dag : DagSpecification} {id : String}
    (h : dag.incomingCounts.keys.filter (fun id => dag.incomingCounts.lookup id == some 0) = [id]) :
    dag.Stable := by
  refine Or.inr (Or.inr fun order order' => ?_)
  have hqueue : ∀ order : HashOrder String, (order.keys dag.incomingCounts.keys).filter
      (fun id => dag.incomingCounts.lookup id == some 0) = [id] := by
    intro order
    have hperm := (order.perm dag.incomingCounts.keys).filter
      fun id => dag.incomingCounts.lookup id == some 0
    rw [h] at hperm
    exact List.perm_singleton.mp hperm
  have hids : ∀ order order' : HashOrder String, dag.orderedIds order = dag.orderedIds order' := by
    intro order order'
    unfold orderedIds
    dsimp only
    rw [hqueue, hqueue]
  rw [shuffledReduces, shuffledReduces, orderedNodes, orderedNodes, hids order order']

end DagSpecification

/-! ### The DAGs that are stored -/

/-- The DAG of every row satisfies `P`. -/
def StateStore.DagRows (serde : Serde Uuid) (P : DagSpecification → Prop)
    (store : StateStore Uuid) : Prop :=
  ∀ id row, store.jobs.lookup id = some row → ∃ dag, row.dagJson = serde.dag dag ∧ P dag

namespace StateStore

variable {serde : Serde Uuid} {P : DagSpecification → Prop} {store : StateStore Uuid}

theorem dagRows_transaction (h : store.DagRows serde P) (allowed : Bool)
    {commit : StateStore Uuid → StateStore Uuid}
    (hcommit : ∀ s, DagRows serde P s → DagRows serde P (commit s)) :
    DagRows serde P (store.transaction allowed commit).2 := by
  have hrest : DagRows serde P { store with faults := store.faults.tail } := h
  unfold transaction
  dsimp only
  split_ifs
  · exact hrest
  · exact hcommit _ hrest
  · exact hrest

theorem dagRows_keptByWrites (serde : Serde Uuid) (P : DagSpecification → Prop) :
    KeptByWrites serde P (DagRows serde P) where
  job store jobId dag status h hdag := by
    refine dagRows_transaction h _ fun s hs id row hrow => ?_
    by_cases hne : id = jobId
    · subst hne
      rw [AList.lookup_insert] at hrow
      cases hrow
      exact ⟨dag, rfl, hdag⟩
    · rw [AList.lookup_insert_ne hne] at hrow
      exact hs id row hrow
  jobStatus _ _ _ _ _ _ _ h := dagRows_transaction h _ fun _ hs => hs
  taskStatus _ _ _ _ h := dagRows_transaction h _ fun _ hs => hs
  taskResult _ _ h := dagRows_transaction h _ fun _ hs => hs
  workerMetrics _ _ _ _ _ h := dagRows_transaction h _ fun _ hs => hs

end StateStore

namespace Master

variable {env : MasterEnv Uuid} {P : DagSpecification → Prop} {m : Master Uuid}

/-- Every DAG in memory and in the database satisfies `P`. -/
structure Keeps (env : MasterEnv Uuid) (P : DagSpecification → Prop) (m : Master Uuid) : Prop where
  jobs : ∀ id job, m.jobs.lookup id = some job → P job.dag
  rows : m.store.DagRows env.serde P

theorem restoreTaskRow_dag (hplaceholder : P (placeholder : JobState Uuid).dag)
    {rows : List (Uuid × Uuid × TaskStatus Uuid × Option (TaskResult Uuid))}
    {jobs : HashMap Uuid (JobState Uuid)}
    (h : ∀ id job, jobs.lookup id = some job → P job.dag) (id : Uuid) (job : JobState Uuid)
    (hjob : (rows.foldl restoreTaskRow jobs).lookup id = some job) : P job.dag := by
  induction rows generalizing jobs with
  | nil => exact h id job hjob
  | cons row rows ih =>
      refine ih (fun id' job' hjob' => ?_) hjob
      rw [restoreTaskRow] at hjob'
      by_cases hne : id' = row.2.1
      · subst hne
        rw [AList.lookup_insert] at hjob'
        cases hjob'
        show P ((jobs.lookup row.2.1).getD placeholder).dag
        cases hold : jobs.lookup row.2.1 with
        | none => exact hplaceholder
        | some old => exact h _ old hold
      · rw [AList.lookup_insert_ne hne] at hjob'
        exact h id' job' hjob'

theorem restoredJob_dag {rows : List (Uuid × JobStatus × DagSpecification)}
    (hrows : ∀ row ∈ rows, P row.2.2) {jobs : HashMap Uuid (JobState Uuid)}
    (h : ∀ id job, jobs.lookup id = some job → P job.dag) (id : Uuid) (job : JobState Uuid)
    (hjob : (rows.foldl (fun m row => m.insert row.1 (restoredJob row.2.2 row.2.1))
      jobs).lookup id = some job) : P job.dag := by
  induction rows generalizing jobs with
  | nil => exact h id job hjob
  | cons row rows ih =>
      refine ih (fun row' hrow' => hrows row' (List.mem_cons_of_mem _ hrow'))
        (fun id' job' hjob' => ?_) hjob
      by_cases hne : id' = row.1
      · subst hne
        rw [AList.lookup_insert] at hjob'
        cases hjob'
        exact hrows row List.mem_cons_self
      · rw [AList.lookup_insert_ne hne] at hjob'
        exact h id' job' hjob'

/-- A restart finds the DAGs that were stored. -/
theorem Keeps.restart (h : m.Keeps env P)
    (hdag : ∀ dag, env.serde.parseDag (env.serde.dag dag) = some dag)
    (hplaceholder : P (placeholder : JobState Uuid).dag) : (new env m.store).Keeps env P where
  jobs id job hjob := by
    refine restoreTaskRow_dag hplaceholder (fun id job hjob => ?_) id job hjob
    refine restoredJob_dag (fun row hrow => ?_) (fun id job h => by cases h) id job hjob
    cases hload : m.store.loadAllJobs env.serde with
    | none =>
        rw [hload] at hrow
        cases hrow
    | some rows =>
        rw [hload] at hrow
        obtain ⟨e, he, hparse⟩ := HashMap.exists_of_mem_mapM hload hrow
        obtain ⟨dag, htext, hP⟩ := h.rows e.1 e.2 (AList.mem_lookup_iff.mpr he)
        simp only [StateStore.parseJobRow, htext, hdag, Option.bind_eq_bind, Option.pure_def,
          Option.bind_eq_some_iff, Option.some.injEq] at hparse
        obtain ⟨status, -, dag', rfl, rfl⟩ := hparse
        exact hP
  rows := by
    have hkept := StateStore.dagRows_keptByWrites env.serde P
    have hfold : ∀ (rows : List (Uuid × Uuid × TaskStatus Uuid × Option (TaskResult Uuid)))
        (store : StateStore Uuid), store.DagRows env.serde P →
        (rows.foldl (fun s row => (s.persistTaskStatus env.serde row.1 row.2.1 .queued).2)
          store).DagRows env.serde P := by
      intro rows
      induction rows with
      | nil => exact fun store h => h
      | cons row rows ih => exact fun store h => ih _ (hkept.taskStatus _ _ _ _ h)
    exact hfold _ _ h.rows

end Master

namespace System

variable {env : MasterEnv Uuid} {P : DagSpecification → Prop} {s s' : System Uuid}

/-- One event, or a crash with a restart on what the database holds. -/
def stepOrRestart (env : MasterEnv Uuid) (s : System Uuid) :
    Option (Event Uuid) → Option (System Uuid)
  | some e => s.step env e
  | none => some { master := Master.new env s.master.store }

/-- The DAG of a submission satisfies `P`. -/
def Submits (P : DagSpecification → Prop) (_ : System Uuid) : Option (Event Uuid) → Prop
  | some (.submit _ dag _ _) => P dag
  | _ => True

/-- No event changes the DAG of a job. -/
theorem step_keeps {e : Event Uuid} (h : s.master.Keeps env P) (hsubmit : Submits P s (some e))
    (hstep : s.step env e = some s') : s'.master.Keeps env P where
  jobs id job hjob := by
    have hchange := step_job hstep id
    have hold := h.jobs id
    have hjob : s'.job id = some job := hjob
    rw [hjob] at hchange
    generalize hbefore : s.job id = old at hchange
    generalize hafter : some job = new at hchange
    cases hchange with
    | unchanged =>
        subst hafter
        exact hold job hbefore
    | submitted =>
        cases hafter
        exact hsubmit
    | assigned | running | refused =>
        cases hafter
        have hdag := hold _ hbefore
        exact hdag
    | recorded =>
        cases hafter
        rw [JobState.record_dag]
        exact hold _ hbefore
  rows := by
    have hkept := StateStore.dagRows_keptByWrites env.serde P
    cases e with
    | submit jobId dag order stagesOrder =>
        have hrows := Master.submitJob_keeps (m := s.master) hkept h.rows order stagesOrder hsubmit
          jobId
        obtain ⟨-, ⟨_, store, hsub, rfl⟩ | ⟨tasks, store, jobs, rfl, rfl, hsub, rfl⟩⟩ :=
          submit_cases hstep
        · rw [hsub] at hrows
          exact hrows
        · rw [hsub] at hrows
          exact hrows
    | advance i =>
        obtain ⟨task, rest, phase, -, hphase⟩ := advance_cases hstep
        cases phase with
        | idle =>
            obtain ⟨_, _, _, rfl⟩ := hphase
            exact h.rows
        | selected worker =>
            subst hphase
            exact h.rows
        | assigned worker =>
            subst hphase
            exact hkept.taskStatus _ _ _ _ h.rows
        | persisted worker =>
            subst hphase
            exact Master.markRunning_keeps hkept h.rows h.jobs task
        | running worker =>
            subst hphase
            exact h.rows
    | complete result =>
        cases hstep
        exact Master.completeTask_keeps hkept h.rows h.jobs result
    | heartbeat message now =>
        cases hstep
        exact hkept.workerMetrics _ _ _ _ _ h.rows
    | snapshot order =>
        obtain rfl := snapshot_cases hstep
        exact h.rows
    | register _ | collect _ =>
        cases hstep
        exact h.rows

theorem stepOrRestart_keeps (hdag : ∀ dag, env.serde.parseDag (env.serde.dag dag) = some dag)
    (hplaceholder : P (Master.placeholder : JobState Uuid).dag) {e : Option (Event Uuid)}
    (h : s.master.Keeps env P) (hsubmit : Submits P s e) (hstep : s.stepOrRestart env e = some s') :
    s'.master.Keeps env P := by
  cases e with
  | some e => exact step_keeps h hsubmit hstep
  | none =>
      cases hstep
      exact h.restart hdag hplaceholder

/-- The task ids of a DAG do not depend on the orders of the hash maps exactly when
the DAG is stable.  In every run, with any restarts, in which the submitted DAGs
are stable, a snapshot finds every queued task of every job. -/
theorem task_ids_stable_iff (hinj : ∀ jobId, Function.Injective (env.newV5 jobId))
    (hdag : ∀ dag, env.serde.parseDag (env.serde.dag dag) = some dag) :
    (∀ (dag : DagSpecification) jobId,
      (∀ order order' id, id ∈ (dag.materializeTasks env.newV5 order jobId).map Task.taskId ↔
        id ∈ (dag.materializeTasks env.newV5 order' jobId).map Task.taskId) ↔ dag.Stable) ∧
      ∀ events (s : System Uuid),
        Along (stepOrRestart env) (Submits DagSpecification.Stable) {} events →
        run (stepOrRestart env) {} events = some s →
        ∀ jobId job, s.job jobId = some job →
          ∀ order, ∀ task ∈ job.dag.materializeTasks env.newV5 order jobId,
            job.tasks.lookup task.taskId = some .queued →
            ∀ snapshotOrder, ∃ found ∈ s.master.queuedTasksSnapshot env snapshotOrder,
              found.key = task.key := by
  refine ⟨fun dag jobId => DagSpecification.stable_iff (hinj jobId) dag, ?_⟩
  intro events s hsubmits hrun jobId job hjob order task htask hqueued snapshotOrder
  have hplaceholder : (Master.placeholder : JobState Uuid).dag.Stable := Or.inl rfl
  have hstart : ({} : System Uuid).master.Keeps env DagSpecification.Stable :=
    ⟨fun id job h => (by cases h), fun id row h => (by cases h)⟩
  have hstep : ∀ (s : System Uuid) e s', s.master.Keeps env DagSpecification.Stable →
      Submits DagSpecification.Stable s e → s.stepOrRestart env e = some s' →
      s'.master.Keeps env DagSpecification.Stable :=
    fun s e s' h hsubmit hstep => stepOrRestart_keeps hdag hplaceholder h hsubmit hstep
  have hkeeps := run_invariant (I := fun s : System Uuid =>
    s.master.Keeps env DagSpecification.Stable) hstep hstart hsubmits hrun
  have hstable := hkeeps.jobs jobId job hjob
  obtain ⟨found, hfound, hid⟩ := List.mem_map.mp
    (((DagSpecification.stable_iff (hinj jobId) job.dag).mpr hstable order
      (snapshotOrder.nodes jobId) task.taskId).mp (List.mem_map_of_mem htask))
  have hjobId := DagSpecification.materializeTasks_jobId env.newV5 hfound
  have hkey : found.key = task.key := by
    rw [Task.key, Task.key, hid, hjobId, DagSpecification.materializeTasks_jobId env.newV5 htask]
  refine ⟨found, Master.mem_snapshot.mpr ?_, hkey⟩
  rw [hjobId]
  exact Master.mem_queuedTasks.mpr ⟨job, hjob, hfound, by rw [hid]; exact hqueued⟩

theorem task_ids_stable_iff_pathEnv :
    (∀ (dag : DagSpecification) jobId,
      (∀ order order' id, id ∈ (dag.materializeTasks pathEnv.newV5 order jobId).map Task.taskId ↔
        id ∈ (dag.materializeTasks pathEnv.newV5 order' jobId).map Task.taskId) ↔ dag.Stable) ∧
      ∀ events (s : System Path),
        Along (stepOrRestart pathEnv) (Submits DagSpecification.Stable) {} events →
        run (stepOrRestart pathEnv) {} events = some s →
        ∀ jobId job, s.job jobId = some job →
          ∀ order, ∀ task ∈ job.dag.materializeTasks pathEnv.newV5 order jobId,
            job.tasks.lookup task.taskId = some .queued →
            ∀ snapshotOrder, ∃ found ∈ s.master.queuedTasksSnapshot pathEnv snapshotOrder,
              found.key = task.key :=
  task_ids_stable_iff pathEnv_newV5_injective (Serde.tallied_roundTrip Path).dag

/-- Two branches, of which one shuffles before it reduces, and their join. -/
def branchesDag : DagSpecification where
  nodes :=
    [⟨"orders", .read "orders.jsonl" "jsonl"⟩, ⟨"users", .read "users.jsonl" "jsonl"⟩,
      ⟨"shuffle", .shuffleByKey "user" 1⟩, ⟨"clean", .map "to_lower"⟩,
      ⟨"total", .reduceByKey "user" "sum:price"⟩, ⟨"join", .join "user" .inner⟩]
  edges :=
    [⟨"orders", "shuffle"⟩, ⟨"shuffle", "total"⟩, ⟨"users", "clean"⟩, ⟨"total", "join"⟩,
      ⟨"clean", "join"⟩]
  partitions := 1

/-- The task of `branchesDag` is queued under an id that another order does not
give: a snapshot in that order is empty. -/
theorem queued_task_not_found :
    (∃ order order' : HashOrder String,
      ¬ ∀ id, id ∈ (branchesDag.materializeTasks pathEnv.newV5 order ["job"]).map Task.taskId ↔
        id ∈ (branchesDag.materializeTasks pathEnv.newV5 order' ["job"]).map Task.taskId) ∧
      ∃ s task, run (stepOrRestart pathEnv) {}
          [some (.submit ["job"] branchesDag .insertion .insertion)] = some s ∧
        task ∈ branchesDag.materializeTasks pathEnv.newV5 .insertion ["job"] ∧
        (s.job ["job"]).bind (fun job => job.tasks.lookup task.taskId) = some .queued ∧
        s.master.queuedTasksSnapshot pathEnv ⟨.insertion, fun _ => .reversed⟩ = [] := by
  constructor
  · refine ⟨.insertion, .reversed, fun hsame => ?_⟩
    have hid := (hsame ["5-0", "job"]).mp (by decide)
    revert hid
    decide
  · have hfound : ((run (stepOrRestart pathEnv) {}
        [some (.submit ["job"] branchesDag .insertion .insertion)]).map fun s =>
          ((s.job ["job"]).bind fun job => job.tasks.lookup ["5-0", "job"],
            (s.master.queuedTasksSnapshot pathEnv ⟨.insertion, fun _ => .reversed⟩).length)) =
        some (some .queued, 0) := by decide
    obtain ⟨s, hrun, hs⟩ := Option.map_eq_some_iff.mp hfound
    have hid : ["5-0", "job"] ∈
        (branchesDag.materializeTasks pathEnv.newV5 .insertion ["job"]).map Task.taskId := by decide
    obtain ⟨task, htask, htaskId⟩ := List.mem_map.mp hid
    rw [Prod.mk.injEq] at hs
    refine ⟨s, task, hrun, htask, ?_, List.eq_nil_of_length_eq_zero hs.2⟩
    rw [htaskId]
    exact hs.1

end System
end ProcessingEngine

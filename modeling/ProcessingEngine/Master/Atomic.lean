import ProcessingEngine.Master.Writes

/-!
# Submissions that stop halfway

`submit_job` writes the row of the job and then a row for each task.  The master
can stop after any number `k` of these writes, and a write can be refused.
`submitJob_allOrNothing_iff` says for which points of a submission the next start
finds all of the job or nothing of it, and an error leaves nothing behind.
-/

namespace ProcessingEngine

open Lib

variable {Uuid : Type} [DecidableEq Uuid]

namespace StateStore

/-- The database refuses the write number `i` from now. -/
def refuses (store : StateStore Uuid) (i : Nat) : Bool := store.faults[i]?.getD false

/-- The same tables. -/
structure SameTables (store store' : StateStore Uuid) : Prop where
  jobs : store'.jobs = store.jobs
  tasks : store'.tasks = store.tasks
  jobStatus : store'.jobStatus = store.jobStatus
  workerMetrics : store'.workerMetrics = store.workerMetrics

omit [DecidableEq Uuid] in
theorem refuses_zero (store : StateStore Uuid) :
    store.refuses 0 = store.faults.head?.getD false := by
  rw [refuses, List.head?_eq_getElem?]

omit [DecidableEq Uuid] in
theorem refuses_succ (store : StateStore Uuid) (i : Nat) :
    store.refuses (i + 1) = { store with faults := store.faults.tail }.refuses i := by
  rw [refuses, refuses, List.getElem?_tail]

omit [DecidableEq Uuid] in
theorem transaction_of_refuses {store : StateStore Uuid} (h : store.refuses 0) (allowed : Bool)
    (commit : StateStore Uuid → StateStore Uuid) :
    store.transaction allowed commit =
      (.error .refused, { store with faults := store.faults.tail }) := by
  rw [refuses_zero] at h
  rw [transaction, if_pos h]

omit [DecidableEq Uuid] in
theorem transaction_of_accepts {store : StateStore Uuid} (h : store.refuses 0 = false)
    {allowed : Bool} (hallowed : allowed = true) (commit : StateStore Uuid → StateStore Uuid) :
    store.transaction allowed commit =
      (.ok (), commit { store with faults := store.faults.tail }) := by
  rw [refuses_zero] at h
  rw [transaction, if_neg (by rw [h]; exact Bool.false_ne_true), if_pos hallowed]

end StateStore

namespace Master

open StateStore (refuses SameTables)
open Session (queueRows taskRow)

variable {env : MasterEnv Uuid} {m : Master Uuid} {dag : DagSpecification} {jobId : Uuid}

/-- The job with its materialised tasks, all of them queued. -/
structure Whole (dag : DagSpecification) (tasks : List (Task Uuid)) (job : JobState Uuid) :
    Prop where
  dag : job.dag = dag
  tasks : ∀ id, job.tasks.lookup id =
    if id ∈ tasks.map Task.taskId then some .queued else none

/-- The writes with which a loop schedules the tasks `ids` of the job. -/
def Schedules (jobId : Uuid) (dag : DagSpecification) (ids : List Uuid) : Write Uuid → Prop
  | .taskStatus id jobId' (.assigned _) => jobId' = jobId ∧ id ∈ ids
  | .job jobId' dag' .running => jobId' = jobId ∧ dag' = dag
  | .jobStatus jobId' _ _ _ _ _ => jobId' = jobId
  | _ => False

/-- The tables that a submission leaves when the master stops after `k` of its
writes, or while it schedules the tasks, after `later`. -/
def stopped (env : MasterEnv Uuid) (order stagesOrder : HashOrder String) (dag : DagSpecification)
    (jobId : Uuid) (m : Master Uuid) (k : Nat) (later : List (Write Uuid)) : StateStore Uuid :=
  match dag.validate with
  | .error _ => m.store
  | .ok () =>
      attempt env.serde ((submitWrites stagesOrder dag jobId
        (dag.materializeTasks env.newV5 order jobId)).take k ++
          later.map fun write => ⟨false, write⟩) m.store

/-- The next start finds nothing of the job or all of it, and a submission that
is answered with an error has left everything as it was. -/
structure AllOrNothing (env : MasterEnv Uuid) (order stagesOrder : HashOrder String)
    (dag : DagSpecification) (jobId : Uuid) (m : Master Uuid) (k : Nat)
    (later : List (Write Uuid)) : Prop where
  recovered : ∀ job ∈ (new env (stopped env order stagesOrder dag jobId m k later)).jobs.lookup
    jobId, Whole dag (dag.materializeTasks env.newV5 order jobId) job
  error : ∀ e m', m.submitJob env order stagesOrder dag jobId = (.error e, m') →
    m'.jobs = m.jobs ∧ SameTables m.store m'.store

/-- The points of a submission of `n` tasks at which it can stop. -/
def CleanStop (dag : DagSpecification) (n : Nat) (store : StateStore Uuid) (k : Nat) : Prop :=
  dag.validate ≠ .ok () ∨ store.refuses 0 ∨
    (∀ i ≤ n, store.refuses i = false) ∧ (k = 0 ∨ n < k)

instance decidableCleanStop (dag : DagSpecification) (n : Nat) (store : StateStore Uuid)
    (k : Nat) : Decidable (CleanStop dag n store k) :=
  inferInstanceAs (Decidable (dag.validate ≠ .ok () ∨ store.refuses 0 ∨
    (∀ i ≤ n, store.refuses i = false) ∧ (k = 0 ∨ n < k)))

/-! ### The rows of a part of the tasks -/

theorem lookup_eq_none_of_fresh (hfresh : m.fresh jobId) :
    m.store.jobs.lookup jobId = none := by
  simp only [fresh, Bool.and_eq_true, Option.isNone_iff_eq_none] at hfresh
  exact hfresh.2

/-- The rows of the tasks up to the first refusal. -/
theorem persistQueued_cases (tasks : List (Task Uuid)) {store : StateStore Uuid}
    (hrow : (store.jobs.lookup jobId).isSome) :
    (∃ faults, (∀ i < tasks.length, store.refuses i = false) ∧
      persistQueued env jobId tasks store =
        (.ok (), { store with tasks := queueRows env jobId tasks store.tasks, faults })) ∨
    ∃ i faults, i < tasks.length ∧ store.refuses i = true ∧
      persistQueued env jobId tasks store = (.error .refused,
        { store with tasks := queueRows env jobId (tasks.take i) store.tasks, faults }) := by
  induction tasks generalizing store with
  | nil => exact Or.inl ⟨store.faults, by simp, rfl⟩
  | cons task tasks ih =>
      rw [persistQueued]
      cases hrefuses : store.refuses 0 with
      | true =>
          rw [StateStore.persistTaskStatus, StateStore.transaction_of_refuses hrefuses]
          exact Or.inr ⟨0, store.faults.tail, Nat.succ_pos _, hrefuses, rfl⟩
      | false =>
          have hadmits : store.admitsTask task.taskId jobId := StateStore.admitsTask_of_job hrow
          rw [StateStore.persistTaskStatus, StateStore.transaction_of_accepts hrefuses hadmits]
          rcases @ih { store with
              tasks := store.tasks.insert task.taskId (StateStore.taskRowWithStatus
                (store.tasks.lookup task.taskId) jobId (env.serde.taskStatus .queued))
              faults := store.faults.tail } hrow with
            ⟨faults, hall, hrest⟩ | ⟨i, faults, hi, hrefused, hrest⟩
          · refine Or.inl ⟨faults, fun i hi => ?_, hrest⟩
            cases i with
            | zero => exact hrefuses
            | succ i =>
                rw [StateStore.refuses_succ]
                exact hall i (Nat.lt_of_succ_lt_succ hi)
          · refine Or.inr ⟨i + 1, faults, Nat.succ_lt_succ hi, ?_, hrest⟩
            rw [StateStore.refuses_succ]
            exact hrefused

/-- There is a row of the job, and the rows of its tasks are those of the open
tasks `ids`. -/
structure Rows (env : MasterEnv Uuid) (jobId : Uuid) (dag : DagSpecification) (ids : List Uuid)
    (store : StateStore Uuid) : Prop where
  legible : store.Legible env.serde
  job : ∃ status, store.jobs.lookup jobId =
    some ⟨env.serde.jobStatus status, env.serde.dag dag⟩
  task : ∀ id ∈ ids, ∃ status, normalize status = .queued ∧
    store.tasks.lookup id = some (taskRow env.serde jobId status none)
  others : ∀ id row, store.tasks.lookup id = some row → row.jobId = jobId → id ∈ ids

namespace Rows

variable {ids : List Uuid} {store : StateStore Uuid}

/-- A start finds the job with these tasks. -/
theorem recovered (h : Rows env jobId dag ids store) (hserde : env.serde.RoundTrip) :
    ∃ job, (new env store).jobs.lookup jobId = some job ∧ job.dag = dag ∧
      ∀ id, job.tasks.lookup id = if id ∈ ids then some .queued else none := by
  obtain ⟨status, hrow⟩ := h.job
  obtain ⟨job, hjob, hdag, -, htasks⟩ := lookup_new h.legible hserde hrow
  refine ⟨job, hjob, hdag, fun id => ?_⟩
  split_ifs with hid
  · obtain ⟨before, hqueued, hstored⟩ := h.task id hid
    exact (htasks id .queued).mpr ⟨before, none, hstored, hqueued.symm⟩
  · rw [Option.eq_none_iff_forall_ne_some]
    intro now hnow
    obtain ⟨before, result, hstored, -⟩ := (htasks id now).mp hnow
    exact hid (h.others id _ hstored rfl)

/-- A refused write changes no row. -/
theorem of_rest (h : Rows env jobId dag ids store) :
    Rows env jobId dag ids { store with faults := store.faults.tail } :=
  ⟨⟨h.legible.jobs, h.legible.tasks, h.legible.owners⟩, h.job, h.task, h.others⟩

theorem of_transaction (h : Rows env jobId dag ids store) {allowed : Bool}
    {commit : StateStore Uuid → StateStore Uuid}
    (hlegible : (store.transaction allowed commit).2.Legible env.serde)
    (hcommit : ∀ s, Rows env jobId dag ids s → (commit s).Legible env.serde →
      Rows env jobId dag ids (commit s)) :
    Rows env jobId dag ids (store.transaction allowed commit).2 := by
  unfold StateStore.transaction at hlegible ⊢
  dsimp only at hlegible ⊢
  split_ifs at hlegible ⊢
  · exact h.of_rest
  · exact hcommit _ h.of_rest hlegible
  · exact h.of_rest

theorem perform (h : Rows env jobId dag ids store) {write : Write Uuid}
    (hwrite : Schedules jobId dag ids write) :
    Rows env jobId dag ids (write.perform env.serde store).2 := by
  have hlegible := write.perform_keeps (StateStore.legible_keptByWrites env.serde) h.legible
  cases write with
  | job jobId' dag' status =>
      cases status with
      | running =>
          obtain ⟨rfl, rfl⟩ := hwrite
          refine h.of_transaction hlegible fun s hs hlegible => ⟨hlegible, ?_, hs.task, hs.others⟩
          exact ⟨.running, AList.lookup_insert _⟩
      | _ => exact hwrite.elim
  | jobStatus jobId' state progress metrics error outputs =>
      exact h.of_transaction hlegible fun s hs hlegible =>
        ⟨hlegible, hs.job, hs.task, hs.others⟩
  | taskStatus taskId jobId' status =>
      cases status with
      | assigned worker =>
          obtain ⟨rfl, hmem⟩ := hwrite
          refine h.of_transaction hlegible fun s hs hlegible => ?_
          obtain ⟨before, hqueued, hstored⟩ := hs.task taskId hmem
          have hinsert : StateStore.taskRowWithStatus (s.tasks.lookup taskId) jobId'
              (env.serde.taskStatus (.assigned worker)) =
              taskRow env.serde jobId' (.assigned worker) none := by
            rw [hstored]
            rfl
          rw [hinsert] at hlegible ⊢
          refine ⟨hlegible, hs.job, fun id hid => ?_, fun id row hrow howner => ?_⟩
          · show ∃ status, _ ∧ (s.tasks.insert taskId _).lookup id = _
            by_cases hne : id = taskId
            · subst hne
              exact ⟨.assigned worker, rfl, AList.lookup_insert _⟩
            · rw [AList.lookup_insert_ne hne]
              exact hs.task id hid
          · have hrow : (s.tasks.insert taskId _).lookup id = some row := hrow
            by_cases hne : id = taskId
            · exact hne ▸ hmem
            · rw [AList.lookup_insert_ne hne] at hrow
              exact hs.others id row hrow howner
      | _ => exact hwrite.elim
  | taskResult result => exact hwrite.elim
  | workerMetrics workerId status metrics now => exact hwrite.elim

theorem attempt_lax (h : Rows env jobId dag ids store) (writes : List (Write Uuid))
    (hwrites : ∀ write ∈ writes, Schedules jobId dag ids write) :
    Rows env jobId dag ids (attempt env.serde (writes.map fun write => ⟨false, write⟩) store) := by
  apply attempt_invariant _ h
  intro a ha store hstore
  obtain ⟨write, hwrite, rfl⟩ := List.mem_map.mp ha
  exact hstore.perform (hwrites write hwrite)

end Rows

/-- The rows after the first write and those of some tasks. -/
theorem rows_queueRows (dag : DagSpecification) (tasks : List (Task Uuid)) {store : StateStore Uuid}
    (hlegible : store.Legible env.serde)
    (hjob : store.jobs.lookup jobId = none)
    (hnew : ∀ id ∈ tasks.map Task.taskId, store.tasks.lookup id = none) (faults : List Bool) :
    Rows env jobId dag (tasks.map Task.taskId)
      { store with
        jobs := store.jobs.insert jobId ⟨env.serde.jobStatus .accepted, env.serde.dag dag⟩
        tasks := queueRows env jobId tasks store.tasks
        faults } := by
  have hqueued : ∀ id ∈ tasks.map Task.taskId, StateStore.taskRowWithStatus
      (store.tasks.lookup id) jobId (env.serde.taskStatus .queued) =
        taskRow env.serde jobId .queued none := by
    intro id hid
    rw [hnew id hid]
    rfl
  have hlookup := Session.Stored.lookup_queueRows env jobId hqueued
  have howner : ∀ id row, store.tasks.lookup id = some row → row.jobId ≠ jobId := by
    intro id row hrow heq
    have hsome := hlegible.owners id row hrow
    rw [heq, hjob] at hsome
    cases hsome
  have hcases : ∀ id row, (queueRows env jobId tasks store.tasks).lookup id = some row →
      (id ∈ tasks.map Task.taskId ∧ row = taskRow env.serde jobId .queued none) ∨
        store.tasks.lookup id = some row := by
    intro id row hrow
    rw [hlookup] at hrow
    split_ifs at hrow with hid
    · exact Or.inl ⟨hid, (Option.some.inj hrow).symm⟩
    · exact Or.inr hrow
  refine ⟨⟨fun id row hrow => ?_, fun id row hrow => ?_, fun id row hrow => ?_⟩,
    ⟨.accepted, AList.lookup_insert _⟩, fun id hid => ⟨.queued, rfl, ?_⟩, fun id row hrow heq => ?_⟩
  · have hrow : (store.jobs.insert jobId _).lookup id = some row := hrow
    by_cases hid : id = jobId
    · subst hid
      rw [AList.lookup_insert, Option.some.injEq] at hrow
      exact ⟨_, _, hrow.symm⟩
    · rw [AList.lookup_insert_ne hid] at hrow
      exact hlegible.jobs id row hrow
  · rcases hcases id row hrow with ⟨-, rfl⟩ | hrow
    · exact ⟨.queued, none, rfl⟩
    · exact hlegible.tasks id row hrow
  · show ((store.jobs.insert jobId _).lookup row.jobId).isSome
    rcases hcases id row hrow with ⟨-, rfl⟩ | hrow
    · show ((store.jobs.insert jobId _).lookup jobId).isSome
      rw [AList.lookup_insert]
      rfl
    · rw [AList.lookup_insert_ne (howner id row hrow)]
      exact hlegible.owners id row hrow
  · show (queueRows env jobId tasks store.tasks).lookup id = _
    rw [hlookup, if_pos hid]
  · rcases hcases id row hrow with ⟨hid, -⟩ | hrow
    · exact hid
    · exact absurd heq (howner id row hrow)

section

variable {order stagesOrder : HashOrder String} {k : Nat} {later : List (Write Uuid)}

/-- The first write of a submission is that of the job row. -/
theorem attempt_submitWrites (haccepts : m.store.refuses 0 = false)
    (tasks : List (Task Uuid)) :
    attempt env.serde ((submitWrites stagesOrder dag jobId tasks).take (k + 1) ++
        later.map fun write => ⟨false, write⟩) m.store =
      match persistQueued env jobId (tasks.take k) { m.store with
        jobs := m.store.jobs.insert jobId ⟨env.serde.jobStatus .accepted, env.serde.dag dag⟩
        faults := m.store.faults.tail } with
      | (.ok (), store) => attempt env.serde
          ((([.jobStatus jobId .accepted 0 (submittedJob dag stagesOrder tasks).metrics none []] :
            List (Write Uuid)).take (k - tasks.length) ++ later).map
              fun write => ⟨false, write⟩) store
      | (.error _, store) => store := by
  have htake : (submitWrites stagesOrder dag jobId tasks).take (k + 1) =
      ⟨true, .job jobId dag .accepted⟩ ::
        (((tasks.take k).map fun task => ⟨true, .taskStatus task.taskId jobId .queued⟩) ++
          (([.jobStatus jobId .accepted 0 (submittedJob dag stagesOrder tasks).metrics none []] :
            List (Write Uuid)).take (k - tasks.length)).map fun write => ⟨false, write⟩) := by
    rw [submitWrites, List.cons_append, List.take_succ_cons, List.take_append, List.length_map,
      List.map_take, List.map_take]
    rfl
  rw [htake, List.cons_append, attempt]
  dsimp only [Write.perform]
  rw [StateStore.persistJob, StateStore.transaction_of_accepts haccepts rfl]
  dsimp only
  rw [List.append_assoc, List.map_append]
  exact attempt_queued _ _ _ _

/-- A stopped submission has written the rows of the first tasks. -/
theorem rows_stopped (stagesOrder : HashOrder String) (hvalid : dag.validate = .ok ())
    (hlegible : m.store.Legible env.serde) (hfresh : m.fresh jobId)
    (hnew : ∀ id ∈ (dag.materializeTasks env.newV5 order jobId).map Task.taskId,
      m.store.tasks.lookup id = none)
    (haccepts : m.store.refuses 0 = false)
    (hlater : later = [] ∨ (dag.materializeTasks env.newV5 order jobId).length ≤ k)
    (hschedules : ∀ write ∈ later, Schedules jobId dag
      ((dag.materializeTasks env.newV5 order jobId).map Task.taskId) write) :
    ∃ i, Rows env jobId dag
        (((dag.materializeTasks env.newV5 order jobId).take i).map Task.taskId)
        (stopped env order stagesOrder dag jobId m (k + 1) later) ∧
      ((dag.materializeTasks env.newV5 order jobId).length ≤ i ↔
        (dag.materializeTasks env.newV5 order jobId).length ≤ k ∧
          ∀ j < (dag.materializeTasks env.newV5 order jobId).length,
            m.store.refuses (j + 1) = false) := by
  have hnone := lookup_eq_none_of_fresh hfresh
  rw [stopped, hvalid]
  dsimp only
  rw [attempt_submitWrites haccepts]
  generalize dag.materializeTasks env.newV5 order jobId = tasks at hnew hlater hschedules ⊢
  have hrow : ((m.store.jobs.insert jobId
      ⟨env.serde.jobStatus .accepted, env.serde.dag dag⟩).lookup jobId).isSome := by
    rw [AList.lookup_insert]
    rfl
  have hnewTake : ∀ i, ∀ id ∈ (tasks.take i).map Task.taskId,
      m.store.tasks.lookup id = none := by
    intro i id hid
    refine hnew id ?_
    rw [List.map_take] at hid
    exact List.mem_of_mem_take hid
  have hrows := fun i faults => rows_queueRows dag (tasks.take i) hlegible hnone
    (hnewTake i) faults
  rcases @persistQueued_cases _ _ env jobId (tasks.take k) { m.store with
      jobs := m.store.jobs.insert jobId ⟨env.serde.jobStatus .accepted, env.serde.dag dag⟩
      faults := m.store.faults.tail } hrow with
    ⟨faults, hall, hwrites⟩ | ⟨i, faults, hi, hrefused, hwrites⟩
  · refine ⟨k, ?_, ?_⟩
    · rw [hwrites]
      refine (hrows k faults).attempt_lax _ fun write hwrite => ?_
      rcases List.mem_append.mp hwrite with hwrite | hwrite
      · rw [List.mem_singleton.mp (List.mem_of_mem_take hwrite)]
        rfl
      · rcases hlater with rfl | hle
        · cases hwrite
        · rw [List.take_of_length_le hle]
          exact hschedules write hwrite
    · refine ⟨fun hle => ⟨hle, fun j hj => ?_⟩, fun h => h.1⟩
      rw [StateStore.refuses_succ]
      refine hall j ?_
      rw [List.length_take]
      omega
  · rw [List.length_take] at hi
    refine ⟨i, ?_, ?_⟩
    · rw [hwrites, List.take_take, Nat.min_eq_left (by omega)]
      exact hrows i faults
    · refine ⟨fun hle => by omega, fun h => ?_⟩
      have haccepted := h.2 i (by omega)
      rw [StateStore.refuses_succ] at haccepted
      have hboth := haccepted.symm.trans hrefused
      cases hboth

end

/-! ### All or nothing -/

section

variable {order stagesOrder : HashOrder String}

theorem submitJob_invalid {message : String} (h : dag.validate = .error message) :
    m.submitJob env order stagesOrder dag jobId = (.error (.invalid message), m) := by
  rw [submitJob, h]

theorem submitJob_refused (hvalid : dag.validate = .ok ()) (h : m.store.refuses 0 = true) :
    m.submitJob env order stagesOrder dag jobId =
      (.error (.store .refused),
        { m with store := { m.store with faults := m.store.faults.tail } }) := by
  rw [submitJob, hvalid]
  dsimp only
  rw [StateStore.persistJob, StateStore.transaction_of_refuses h]

/-- A submission whose job row is written returns its tasks when no task row is
refused.  Otherwise it fails, and the job row stays. -/
theorem submitJob_written (hvalid : dag.validate = .ok ()) (h : m.store.refuses 0 = false) :
    ((∀ j < (dag.materializeTasks env.newV5 order jobId).length,
        m.store.refuses (j + 1) = false) ∧
      ∃ m', m.submitJob env order stagesOrder dag jobId =
        (.ok (dag.materializeTasks env.newV5 order jobId), m')) ∨
    (∃ j < (dag.materializeTasks env.newV5 order jobId).length,
        m.store.refuses (j + 1) = true) ∧
      ∃ e m', m.submitJob env order stagesOrder dag jobId = (.error e, m') ∧
        (m'.store.jobs.lookup jobId).isSome := by
  have hrow : ((m.store.jobs.insert jobId
      ⟨env.serde.jobStatus .accepted, env.serde.dag dag⟩).lookup jobId).isSome := by
    rw [AList.lookup_insert]
    rfl
  unfold submitJob
  rw [hvalid]
  dsimp only
  rw [StateStore.persistJob, StateStore.transaction_of_accepts h rfl]
  dsimp only
  rcases @persistQueued_cases _ _ env jobId (dag.materializeTasks env.newV5 order jobId)
    { m.store with
      jobs := m.store.jobs.insert jobId ⟨env.serde.jobStatus .accepted, env.serde.dag dag⟩
      faults := m.store.faults.tail } hrow with
    ⟨faults, hall, hwrites⟩ | ⟨i, faults, hi, hrefused, hwrites⟩
  · left
    rw [hwrites]
    refine ⟨fun j hj => ?_, _, rfl⟩
    rw [StateStore.refuses_succ]
    exact hall j hj
  · right
    rw [hwrites]
    refine ⟨⟨i, hi, ?_⟩, _, _, rfl, hrow⟩
    rw [StateStore.refuses_succ]
    exact hrefused

/-- An error after the first write leaves the row of the job. -/
theorem submitJob_error_iff (hvalid : dag.validate = .ok ()) (h : m.store.refuses 0 = false)
    (hnone : m.store.jobs.lookup jobId = none) :
    (∀ e m', m.submitJob env order stagesOrder dag jobId = (.error e, m') →
      m'.jobs = m.jobs ∧ SameTables m.store m'.store) ↔
        ∀ j < (dag.materializeTasks env.newV5 order jobId).length,
          m.store.refuses (j + 1) = false := by
  rcases @submitJob_written _ _ env m dag jobId order stagesOrder hvalid h with
    ⟨hall, m', hok⟩ | ⟨⟨j, hj, hrefused⟩, e, m', hfailed, hrow⟩
  · refine iff_of_true (fun e m'' hsubmit => ?_) hall
    rw [hok] at hsubmit
    cases hsubmit
  · refine iff_of_false (fun hsame => ?_) fun hall => ?_
    · rw [(hsame e m' hfailed).2.jobs, hnone] at hrow
      cases hrow
    · rw [hall j hj] at hrefused
      cases hrefused

end

theorem forall_le_iff (n : Nat) (p : Nat → Bool) (h : p 0 = false) :
    (∀ i ≤ n, p i = false) ↔ ∀ j < n, p (j + 1) = false := by
  constructor
  · exact fun hall j hj => hall (j + 1) hj
  · intro hall i hi
    cases i with
    | zero => exact h
    | succ j => exact hall j hi

omit [DecidableEq Uuid] in
/-- The clean points once the row of the job is written. -/
theorem cleanStop_iff {n k : Nat} {store : StateStore Uuid} (hvalid : dag.validate = .ok ())
    (h : store.refuses 0 = false) :
    CleanStop dag n store k ↔
      (∀ j < n, store.refuses (j + 1) = false) ∧ (k = 0 ∨ n < k) := by
  rw [CleanStop, forall_le_iff _ _ h]
  simp [hvalid, h]

omit [DecidableEq Uuid] in
theorem exists_missing {tasks : List (Task Uuid)} (hnodup : (tasks.map Task.taskId).Nodup)
    {i : Nat} (hi : i < tasks.length) :
    ∃ id ∈ tasks.map Task.taskId, id ∉ (tasks.take i).map Task.taskId := by
  have hlen : i < (tasks.map Task.taskId).length := by
    rw [List.length_map]
    exact hi
  refine ⟨(tasks.map Task.taskId)[i], List.getElem_mem hlen, fun hmem => ?_⟩
  rw [List.map_take] at hmem
  refine List.disjoint_take_drop hnodup (le_refl i) hmem ?_
  rw [List.drop_eq_getElem_cons hlen]
  exact List.mem_cons_self

section

variable {order stagesOrder : HashOrder String} {k : Nat} {later : List (Write Uuid)}

/-- A start finds nothing of a job without a row. -/
theorem whole_of_lookup_none (hserde : env.serde.RoundTrip)
    (hlegible : m.store.Legible env.serde) (hnone : m.store.jobs.lookup jobId = none)
    (faults : List Bool) (tasks : List (Task Uuid)) :
    ∀ job ∈ (new env { m.store with faults }).jobs.lookup jobId, Whole dag tasks job := by
  intro job hjob
  have hlegible' : ({ m.store with faults } : StateStore Uuid).Legible env.serde :=
    ⟨hlegible.jobs, hlegible.tasks, hlegible.owners⟩
  rw [lookup_new_none hlegible' hserde hnone] at hjob
  cases hjob

theorem allOrNothing_of_invalid (hserde : env.serde.RoundTrip)
    (hlegible : m.store.Legible env.serde) (hnone : m.store.jobs.lookup jobId = none)
    {message : String} (hinvalid : dag.validate = .error message) :
    AllOrNothing env order stagesOrder dag jobId m k later := by
  refine ⟨?_, fun e m' hsubmit => ?_⟩
  · rw [stopped, hinvalid]
    exact whole_of_lookup_none hserde hlegible hnone m.store.faults _
  · rw [submitJob_invalid hinvalid] at hsubmit
    cases hsubmit
    exact ⟨rfl, rfl, rfl, rfl, rfl⟩

/-- Where the row of the job is refused nothing is written. -/
theorem allOrNothing_of_refused (hserde : env.serde.RoundTrip)
    (hlegible : m.store.Legible env.serde) (hnone : m.store.jobs.lookup jobId = none)
    (hvalid : dag.validate = .ok ()) (hrefuses : m.store.refuses 0 = true)
    (hlater : later = [] ∨ 0 < k) :
    AllOrNothing env order stagesOrder dag jobId m k later := by
  refine ⟨?_, fun e m' hsubmit => ?_⟩
  · rw [stopped, hvalid]
    dsimp only
    cases k with
    | zero =>
        obtain rfl := hlater.resolve_right (Nat.lt_irrefl 0)
        exact whole_of_lookup_none hserde hlegible hnone m.store.faults _
    | succ k =>
        rw [submitWrites, List.cons_append, List.take_succ_cons, List.cons_append, attempt]
        dsimp only [Write.perform]
        rw [StateStore.persistJob, StateStore.transaction_of_refuses hrefuses]
        exact whole_of_lookup_none hserde hlegible hnone m.store.faults.tail _
  · rw [submitJob_refused hvalid hrefuses] at hsubmit
    cases hsubmit
    exact ⟨rfl, rfl, rfl, rfl, rfl⟩

/-- Before the first write nothing is found, and an error is harmless when there is none. -/
theorem allOrNothing_zero_iff (hserde : env.serde.RoundTrip)
    (hlegible : m.store.Legible env.serde) (hnone : m.store.jobs.lookup jobId = none)
    (hvalid : dag.validate = .ok ()) (haccepts : m.store.refuses 0 = false) :
    AllOrNothing env order stagesOrder dag jobId m 0 [] ↔
      ∀ j < (dag.materializeTasks env.newV5 order jobId).length,
        m.store.refuses (j + 1) = false := by
  have herror := @submitJob_error_iff _ _ env m dag jobId order stagesOrder hvalid haccepts hnone
  constructor
  · exact fun h => herror.mp h.error
  · intro h
    refine ⟨?_, herror.mpr h⟩
    rw [stopped, hvalid]
    exact whole_of_lookup_none hserde hlegible hnone m.store.faults _

/-- After it the job is found with the tasks of which the rows are written. -/
theorem allOrNothing_succ_iff (hserde : env.serde.RoundTrip)
    (hlegible : m.store.Legible env.serde) (hinj : Function.Injective (env.newV5 jobId))
    (hfresh : m.fresh jobId) (hvalid : dag.validate = .ok ())
    (hnew : ∀ id ∈ (dag.materializeTasks env.newV5 order jobId).map Task.taskId,
      m.store.tasks.lookup id = none)
    (haccepts : m.store.refuses 0 = false)
    (hlater : later = [] ∨ (dag.materializeTasks env.newV5 order jobId).length ≤ k)
    (hschedules : ∀ write ∈ later, Schedules jobId dag
      ((dag.materializeTasks env.newV5 order jobId).map Task.taskId) write) :
    AllOrNothing env order stagesOrder dag jobId m (k + 1) later ↔
      (∀ j < (dag.materializeTasks env.newV5 order jobId).length,
        m.store.refuses (j + 1) = false) ∧
      (dag.materializeTasks env.newV5 order jobId).length ≤ k := by
  have herror := @submitJob_error_iff _ _ env m dag jobId order stagesOrder hvalid haccepts
    (lookup_eq_none_of_fresh hfresh)
  obtain ⟨i, hrows, hi⟩ := rows_stopped stagesOrder hvalid hlegible hfresh hnew haccepts hlater
    hschedules
  obtain ⟨job, hjob, hdag, htasks⟩ := hrows.recovered hserde
  constructor
  · intro h
    have hwhole := h.recovered job hjob
    have hle : (dag.materializeTasks env.newV5 order jobId).length ≤ i := by
      by_contra hlt
      obtain ⟨id, hid, hmissing⟩ := exists_missing
        (DagSpecification.materializeTasks_nodup env.newV5 hinj order dag)
        (Nat.lt_of_not_le hlt)
      have hqueued := hwhole.tasks id
      rw [htasks, if_neg hmissing, if_pos hid] at hqueued
      cases hqueued
    exact (hi.mp hle).symm
  · intro h
    rw [List.take_of_length_le (hi.mpr h.symm)] at htasks
    refine ⟨fun job' hjob' => ?_, herror.mpr h.1⟩
    obtain rfl : job = job' := Option.some.inj (hjob.symm.trans hjob')
    exact ⟨hdag, htasks⟩

end

/-- Stopping a submission is harmless exactly at the clean points: the DAG is
not valid, or nothing has been written, or all rows have. -/
theorem submitJob_allOrNothing_iff (hserde : env.serde.RoundTrip)
    (hlegible : m.store.Legible env.serde) (hinj : Function.Injective (env.newV5 jobId))
    (hfresh : m.fresh jobId) (order stagesOrder : HashOrder String)
    (hnew : ∀ id ∈ (dag.materializeTasks env.newV5 order jobId).map Task.taskId,
      m.store.tasks.lookup id = none)
    (k : Nat) (later : List (Write Uuid))
    (hlater : later = [] ∨ (dag.materializeTasks env.newV5 order jobId).length + 2 ≤ k)
    (hschedules : ∀ write ∈ later, Schedules jobId dag
      ((dag.materializeTasks env.newV5 order jobId).map Task.taskId) write) :
    AllOrNothing env order stagesOrder dag jobId m k later ↔
      CleanStop dag (dag.materializeTasks env.newV5 order jobId).length m.store k := by
  have hnone := lookup_eq_none_of_fresh hfresh
  cases hvalid : dag.validate with
  | error message =>
      have hinvalid : dag.validate ≠ .ok () := by
        rw [hvalid]
        intro hok
        cases hok
      exact iff_of_true (allOrNothing_of_invalid hserde hlegible hnone hvalid) (Or.inl hinvalid)
  | ok =>
      cases hrefuses : m.store.refuses 0 with
      | true =>
          have hearly : later = [] ∨ 0 < k := hlater.imp_right fun h => by omega
          exact iff_of_true
            (allOrNothing_of_refused hserde hlegible hnone hvalid hrefuses hearly)
            (Or.inr (Or.inl hrefuses))
      | false =>
          rw [cleanStop_iff hvalid hrefuses]
          cases k with
          | zero =>
              obtain rfl := hlater.resolve_right (by omega)
              rw [allOrNothing_zero_iff hserde hlegible hnone hvalid hrefuses]
              exact ⟨fun h => ⟨h, Or.inl rfl⟩, fun h => h.1⟩
          | succ k =>
              have hlater' : later = [] ∨
                  (dag.materializeTasks env.newV5 order jobId).length ≤ k :=
                hlater.imp_right fun h => by omega
              rw [allOrNothing_succ_iff hserde hlegible hinj hfresh hvalid hnew hrefuses hlater'
                hschedules]
              exact and_congr_right fun _ => by omega

/-- A job of two tasks with all of its rows written. -/
theorem submitJob_allOrNothing_iff_readDag :
    AllOrNothing System.pathEnv .insertion .insertion (System.readDag 2) ["job"] {} 3 [] :=
  (submitJob_allOrNothing_iff (Serde.tallied_roundTrip Path) (StateStore.legible_empty [])
    (System.pathEnv_newV5_injective ["job"]) (by decide) .insertion .insertion
    (fun _ _ => AList.lookup_empty _) 3 [] (Or.inl rfl) (by simp)).mpr (by decide)

/-- Stopped after the row of the first task, the job comes back without the
second one. -/
theorem submitJob_cut_readDag :
    (∃ job, (new System.pathEnv (stopped System.pathEnv .insertion .insertion (System.readDag 2)
        ["job"] {} 2 [])).jobs.lookup ["job"] = some job ∧
      job.tasks.lookup ["0-1", "job"] = none) ∧
      ¬ AllOrNothing System.pathEnv .insertion .insertion (System.readDag 2) ["job"] {} 2 [] := by
  have htasks : ((System.readDag 2).materializeTasks System.pathEnv.newV5 .insertion
      ["job"]).map Task.taskId = [["0-0", "job"], ["0-1", "job"]] := by decide
  have hlen : ((System.readDag 2).materializeTasks System.pathEnv.newV5 .insertion
      ["job"]).length = 2 := by decide
  obtain ⟨i, hrows, hi⟩ := @rows_stopped _ _ System.pathEnv {} (System.readDag 2) ["job"]
    .insertion 1 [] .insertion (by decide) (StateStore.legible_empty []) (by decide)
    (fun _ _ => AList.lookup_empty _) (by decide) (Or.inl rfl) (by simp)
  rw [hlen] at hi
  have hlt : i < 2 := by
    by_contra hle
    have h := (hi.mp (Nat.le_of_not_lt hle)).1
    omega
  obtain ⟨job, hjob, -, hlookup⟩ := hrows.recovered (Serde.tallied_roundTrip Path)
  have hmissing : job.tasks.lookup ["0-1", "job"] = none := by
    rw [hlookup, if_neg]
    rw [List.map_take, htasks]
    have hcases : i = 0 ∨ i = 1 := by omega
    rcases hcases with rfl | rfl
    · decide
    · decide
  refine ⟨⟨job, hjob, hmissing⟩, fun h => ?_⟩
  have hwhole := (h.recovered job hjob).tasks ["0-1", "job"]
  rw [hmissing, htasks] at hwhole
  cases hwhole

end Master
end ProcessingEngine

import ProcessingEngine.Master.Persistence
import ProcessingEngine.Master.System

/-!
# Starting on an old database

`Master::new` reads back the jobs of the database and the tasks of each job.
After a run whose operations ended, these are the jobs that were in memory, but
for the tasks in the hands of a worker, which are queued again.
-/

namespace ProcessingEngine

open Lib

variable {Uuid : Type} [DecidableEq Uuid]

namespace Master

variable {env : MasterEnv Uuid}

/-- A task row as it is loaded. -/
abbrev LoadedTask (Uuid : Type) := Uuid × Uuid × TaskStatus Uuid × Option (TaskResult Uuid)

omit [DecidableEq Uuid] in
theorem normalize_normalize (status : TaskStatus Uuid) :
    normalize (normalize status) = normalize status := by
  cases status <;> rfl

omit [DecidableEq Uuid] in
theorem normalize_eq_completed {status : TaskStatus Uuid} :
    normalize status = .completed ↔ status = .completed := by
  cases status <;> simp [normalize, TaskStatus.worker]

/-! ### The jobs made from the rows -/

/-- The result of a row, when its task is completed. -/
def completedResult (row : LoadedTask Uuid) : Option (TaskResult Uuid) :=
  row.2.2.2.filter fun r => r.status.isCompleted

/-- The job with the tasks of the given rows added. -/
def restoreRows (rows : List (LoadedTask Uuid)) (job : JobState Uuid) : JobState Uuid :=
  { job with
    tasks := rows.foldl (fun m row => m.insert row.1 (normalize row.2.2.1)) job.tasks
    results := job.results ++ rows.flatMap fun row => (completedResult row).toList }

theorem restoreRows_cons (row : LoadedTask Uuid) (rows : List (LoadedTask Uuid))
    (job : JobState Uuid) :
    restoreRows (row :: rows) job =
      restoreRows rows (restoreTask job row.1 row.2.2.1 row.2.2.2) := by
  simp [restoreRows, restoreTask, completedResult]

/-- A known job gets the tasks of its rows. -/
theorem lookup_restoreTaskRow {id : Uuid} (rows : List (LoadedTask Uuid))
    {jobs : HashMap Uuid (JobState Uuid)} {job : JobState Uuid} (h : jobs.lookup id = some job) :
    (rows.foldl restoreTaskRow jobs).lookup id =
      some (restoreRows (rows.filter fun row => row.2.1 = id) job) := by
  induction rows generalizing jobs job with
  | nil =>
      rw [List.foldl_nil, h]
      simp [restoreRows]
  | cons row rows ih =>
      rw [List.foldl_cons, List.filter_cons]
      by_cases hid : row.2.1 = id
      · subst hid
        have hrow : (restoreTaskRow jobs row).lookup row.2.1 =
            some (restoreTask job row.1 row.2.2.1 row.2.2.2) := by
          rw [restoreTaskRow, AList.lookup_insert, h]
          rfl
        rw [ih hrow, if_pos (by simp), restoreRows_cons]
      · have hrow : (restoreTaskRow jobs row).lookup id = some job := by
          rw [restoreTaskRow, AList.lookup_insert_ne fun e => hid e.symm, h]
        rw [ih hrow, if_neg (by simpa using hid)]

/-- No job is made without a row that names it. -/
theorem lookup_restoreTaskRow_none {id : Uuid} {rows : List (LoadedTask Uuid)}
    {jobs : HashMap Uuid (JobState Uuid)} (h : jobs.lookup id = none)
    (hrows : ∀ row ∈ rows, row.2.1 ≠ id) : (rows.foldl restoreTaskRow jobs).lookup id = none := by
  induction rows generalizing jobs with
  | nil => exact h
  | cons row rows ih =>
      refine ih ?_ fun row' hrow' => hrows row' (List.mem_cons_of_mem _ hrow')
      rw [restoreTaskRow, AList.lookup_insert_ne (hrows row List.mem_cons_self).symm, h]

/-! ### The tasks queued again -/

/-- The requeue pass sets the status of the rows it is given. -/
theorem requeue_healthy (env : MasterEnv Uuid) (rows : List (LoadedTask Uuid))
    {store : StateStore Uuid}
    (h : store.faults = []) (hrows : ∀ row ∈ rows, (store.tasks.lookup row.1).isSome) :
    let store' := rows.foldl
      (fun s row => (s.persistTaskStatus env.serde row.1 row.2.1 .queued).2) store
    store'.faults = [] ∧ store'.jobs = store.jobs ∧
      ∀ id, store'.tasks.lookup id =
        if id ∈ rows.map Prod.fst then
          (store.tasks.lookup id).map fun row =>
            { row with status := env.serde.taskStatus .queued }
        else store.tasks.lookup id := by
  induction rows generalizing store with
  | nil => exact ⟨h, rfl, fun _ => rfl⟩
  | cons row rows ih =>
      obtain ⟨old, hold⟩ := Option.isSome_iff_exists.mp (hrows row List.mem_cons_self)
      have hadmits : store.admitsTask row.1 row.2.1 := by
        rw [StateStore.admitsTask, hold]
        rfl
      have hwrite := StateStore.persistTaskStatus_healthy env.serde h hadmits .queued
      rw [hold] at hwrite
      have hrows' : ∀ row' ∈ rows,
          ((store.tasks.insert row.1 (StateStore.taskRowWithStatus (some old) row.2.1
            (env.serde.taskStatus .queued))).lookup row'.1).isSome := by
        intro row' hrow'
        have hsome := hrows row' (List.mem_cons_of_mem _ hrow')
        rw [AList.lookup_isSome] at hsome ⊢
        exact (AList.mem_insert _).mpr (Or.inr hsome)
      have hstart : ({ store with
          tasks := store.tasks.insert row.1 (StateStore.taskRowWithStatus (some old) row.2.1
            (env.serde.taskStatus .queued)) } : StateStore Uuid).faults = [] := h
      rw [List.foldl_cons, hwrite]
      obtain ⟨hhealthy, hjobs, htasks⟩ := ih hstart hrows'
      refine ⟨hhealthy, hjobs, fun id => ?_⟩
      rw [htasks, List.map_cons]
      by_cases hid : id = row.1
      · subst hid
        rw [AList.lookup_insert, if_pos List.mem_cons_self, hold]
        split_ifs <;> rfl
      · rw [AList.lookup_insert_ne hid]
        simp only [List.mem_cons, hid, false_or]

end Master

namespace Session

variable {env : MasterEnv Uuid} {s s' : Session Uuid}

/-! ### What the loaders find -/

theorem Stored.loadAllJobs (hs : Stored env s) (hserde : env.serde.RoundTrip) :
    ∃ rows, s.master.store.loadAllJobs env.serde = some rows ∧ (rows.map Prod.fst).Nodup ∧
      ∀ row, row ∈ rows ↔ ∃ job, s.master.jobs.lookup row.1 = some job ∧
        row.2 = (job.status, job.dag) := by
  have hparse : ∀ id row, s.master.store.jobs.lookup id = some row →
      ∃ job, s.master.jobs.lookup id = some job ∧
        StateStore.parseJobRow env.serde id row = some (id, job.status, job.dag) := by
    intro id row hrow
    rw [hs.jobs] at hrow
    obtain ⟨job, hjob, rfl⟩ := Option.map_eq_some_iff.mp hrow
    refine ⟨job, hjob, ?_⟩
    simp [StateStore.parseJobRow, jobRow, hserde.jobStatus, hserde.dag]
  obtain ⟨rows, hload, hnodup, hmem⟩ := HashMap.mapM_entries
    (StateStore.parseJobRow_id env.serde) (fun id row hrow => by
      obtain ⟨job, -, hjob⟩ := hparse id row hrow
      rw [hjob]
      rfl)
  refine ⟨rows, hload, hnodup, fun row => ?_⟩
  rw [hmem]
  constructor
  · rintro ⟨v, hv, hx⟩
    obtain ⟨job, hjob, hparsed⟩ := hparse _ v hv
    rw [hparsed] at hx
    exact ⟨job, hjob, congrArg Prod.snd (Option.some.inj hx).symm⟩
  · rintro ⟨job, hjob, hrow⟩
    have hv := hs.jobRow_of hjob
    obtain ⟨job', hjob', hparsed⟩ := hparse _ _ hv
    cases hjob.symm.trans hjob'
    exact ⟨_, hv, hparsed.trans (congrArg some (Prod.ext rfl hrow.symm))⟩

omit [DecidableEq Uuid] in
theorem parseTaskRow_taskRow {serde : Serde Uuid} (hserde : serde.RoundTrip) (id jobId : Uuid)
    (status : TaskStatus Uuid) (result : Option (TaskResult Uuid)) :
    StateStore.parseTaskRow serde id (taskRow serde jobId status result) =
      some (id, jobId, status, result) := by
  cases result <;> simp [StateStore.parseTaskRow, taskRow, hserde.taskStatus, hserde.result]

theorem Stored.loadAllTasks (hs : Stored env s) (hserde : env.serde.RoundTrip) :
    ∃ rows, s.master.store.loadAllTasks env.serde = some rows ∧ (rows.map Prod.fst).Nodup ∧
      ∀ row, row ∈ rows ↔ ∃ job, s.master.jobs.lookup row.2.1 = some job ∧
        job.tasks.lookup row.1 = some row.2.2.1 ∧ row.2.2.2 = s.result? (row.2.1, row.1) := by
  have hparse : ∀ id row, s.master.store.tasks.lookup id = some row →
      ∃ job status, s.master.jobs.lookup row.jobId = some job ∧ job.tasks.lookup id = some status ∧
        StateStore.parseTaskRow env.serde id row =
          some (id, row.jobId, status, s.result? (row.jobId, id)) := by
    intro id row hrow
    obtain ⟨job, hjob, hid⟩ := hs.rows id row hrow
    obtain ⟨status, hstatus⟩ := Option.isSome_iff_exists.mp (AList.lookup_isSome.mpr hid)
    have hexact := hs.tasks _ job hjob id status hstatus
    rw [hrow] at hexact
    refine ⟨job, status, hjob, hstatus, ?_⟩
    rw [← parseTaskRow_taskRow hserde, ← Option.some.inj hexact]
  obtain ⟨rows, hload, hnodup, hmem⟩ := HashMap.mapM_entries
    (StateStore.parseTaskRow_id env.serde) (fun id row hrow => by
      obtain ⟨job, status, -, -, hparsed⟩ := hparse id row hrow
      rw [hparsed]
      rfl)
  refine ⟨rows, hload, hnodup, fun row => ?_⟩
  rw [hmem]
  constructor
  · rintro ⟨v, hv, hx⟩
    obtain ⟨job, status, hjob, hstatus, hparsed⟩ := hparse _ v hv
    rw [hparsed] at hx
    rw [← Option.some.inj hx]
    exact ⟨job, hjob, hstatus, rfl⟩
  · rintro ⟨job, hjob, hstatus, hresult⟩
    refine ⟨_, hs.tasks _ job hjob _ _ hstatus, ?_⟩
    rw [parseTaskRow_taskRow hserde, ← hresult]

/-! ### The jobs after a restart -/

/-- The tasks loaded from the rows, without repetition: those of the jobs. -/
structure Loaded (s : Session Uuid) (rows : List (Master.LoadedTask Uuid)) : Prop where
  nodup : (rows.map Prod.fst).Nodup
  mem : ∀ row, row ∈ rows ↔ ∃ job, s.master.jobs.lookup row.2.1 = some job ∧
    job.tasks.lookup row.1 = some row.2.2.1 ∧ row.2.2.2 = s.result? (row.2.1, row.1)

/-- The job that a restart makes of a job of the session. -/
def restored (rows : List (Master.LoadedTask Uuid)) (id : Uuid) (job : JobState Uuid) :
    JobState Uuid :=
  Master.restoreRows (rows.filter fun row => row.2.1 = id) (Master.restoredJob job.dag job.status)

theorem Stored.new_eq (hs : Stored env s) (hserde : env.serde.RoundTrip) :
    ∃ rows, Loaded s rows ∧
      (∀ id, (Master.new env s.master.store).jobs.lookup id =
        (s.master.jobs.lookup id).map (restored rows id)) ∧
      (Master.new env s.master.store).store =
        (rows.filter fun row => row.2.2.1.worker.isSome).foldl
          (fun s row => (s.persistTaskStatus env.serde row.1 row.2.1 .queued).2) s.master.store := by
  obtain ⟨jobs, hjobs, hjobsNodup, hjobsMem⟩ := hs.loadAllJobs hserde
  obtain ⟨rows, hrows, hnodup, hmem⟩ := hs.loadAllTasks hserde
  refine ⟨rows, ⟨hnodup, hmem⟩, fun id => ?_, ?_⟩
  · rw [Master.new, hjobs, hrows]
    have hlookup : ∀ job, (jobs.foldl (fun m row => m.insert row.1
        (Master.restoredJob row.2.2 row.2.1)) (∅ : HashMap Uuid (JobState Uuid))).lookup id =
          some job ↔ ∃ row ∈ jobs, row.1 = id ∧ Master.restoredJob row.2.2 row.2.1 = job := by
      intro job
      rw [HashMap.lookup_foldl_insert Prod.fst (fun row => Master.restoredJob row.2.2 row.2.1)
        hjobsNodup]
      simp
    dsimp only [Option.getD_some]
    cases hjob : s.master.jobs.lookup id with
    | some job =>
        refine Master.lookup_restoreTaskRow rows ((hlookup _).mpr ?_)
        exact ⟨(id, job.status, job.dag), (hjobsMem _).mpr ⟨job, hjob, rfl⟩, rfl, rfl⟩
    | none =>
        refine Master.lookup_restoreTaskRow_none ?_ ?_
        · rw [Option.eq_none_iff_forall_ne_some]
          intro job hsome
          obtain ⟨row, hrow, rfl, -⟩ := (hlookup job).mp hsome
          obtain ⟨job', hjob', -⟩ := (hjobsMem row).mp hrow
          rw [hjob] at hjob'
          cases hjob'
        · rintro row hrow rfl
          obtain ⟨job', hjob', -⟩ := (hmem row).mp hrow
          rw [hjob] at hjob'
          cases hjob'
  · rw [Master.new, hrows]
    rfl

namespace Loaded

variable {rows : List (Master.LoadedTask Uuid)} {id : Uuid} {job : JobState Uuid}

theorem nodup_filter (h : Loaded s rows) (p : Master.LoadedTask Uuid → Bool) :
    ((rows.filter p).map Prod.fst).Nodup :=
  h.nodup.sublist ((List.filter_sublist).map _)

/-- Each task is restored with its status, or queued again. -/
theorem lookup_tasks (h : Loaded s rows) (hjob : s.master.jobs.lookup id = some job)
    (taskId : Uuid) :
    (restored rows id job).tasks.lookup taskId =
      (job.tasks.lookup taskId).map Master.normalize := by
  refine Option.ext fun status => ?_
  rw [restored, Master.restoreRows, HashMap.lookup_foldl_insert Prod.fst
    (fun row => Master.normalize row.2.2.1) (h.nodup_filter _), Option.map_eq_some_iff]
  constructor
  · rintro (⟨row, hrow, rfl, rfl⟩ | ⟨-, hnone⟩)
    · obtain ⟨hrow, hid⟩ := List.mem_filter.mp hrow
      rw [decide_eq_true_eq] at hid
      obtain ⟨job', hjob', hstatus, -⟩ := (h.mem row).mp hrow
      rw [hid, hjob] at hjob'
      cases hjob'
      exact ⟨_, hstatus, rfl⟩
    · cases hnone
  · rintro ⟨status, hstatus, rfl⟩
    refine Or.inl ⟨(taskId, id, status, s.result? (id, taskId)), List.mem_filter.mpr ⟨?_, ?_⟩,
      rfl, rfl⟩
    · exact (h.mem _).mpr ⟨job, hjob, hstatus, rfl⟩
    · exact decide_eq_true rfl

theorem mem_restored (h : Loaded s rows) (hjob : s.master.jobs.lookup id = some job)
    {taskId : Uuid} : taskId ∈ (restored rows id job).tasks ↔ taskId ∈ job.tasks := by
  rw [← AList.lookup_isSome, ← AList.lookup_isSome, h.lookup_tasks hjob, Option.isSome_map]

/-- The tasks queued again are those that were with a worker. -/
theorem mem_requeue (h : Loaded s rows) {row : Master.LoadedTask Uuid} (hrow : row ∈ rows) :
    row.1 ∈ (rows.filter fun row => row.2.2.1.worker.isSome).map Prod.fst ↔
      row.2.2.1.worker.isSome := by
  rw [List.mem_map]
  constructor
  · rintro ⟨row', hrow', hid⟩
    obtain ⟨hmem, hworker⟩ := List.mem_filter.mp hrow'
    rw [← List.inj_on_of_nodup_map h.nodup hmem hrow hid]
    exact hworker
  · intro hworker
    exact ⟨row, List.mem_filter.mpr ⟨hrow, hworker⟩, rfl⟩

end Loaded

theorem Stored.result?_eq_some (hs : Stored env s) {key : Uuid × Uuid} {r : TaskResult Uuid} :
    s.result? key = some r ↔ r ∈ s.reported ∧ r.key = key := by
  constructor
  · intro h
    exact ⟨List.mem_of_find?_eq_some h, by simpa using List.find?_some h⟩
  · rintro ⟨hr, rfl⟩
    cases hfind : s.result? r.key with
    | none =>
        have hne := List.find?_eq_none.mp hfind r hr
        exact absurd (decide_eq_true rfl) hne
    | some r' =>
        have hkey : r'.key = r.key := by simpa using List.find?_some hfind
        exact congrArg some (List.inj_on_of_nodup_map hs.nodup
          (List.mem_of_find?_eq_some hfind) hr hkey)

section

variable {rows : List (Master.LoadedTask Uuid)} {id : Uuid} {job : JobState Uuid}

omit [DecidableEq Uuid] in
theorem mem_completedResult {row : Master.LoadedTask Uuid} {r : TaskResult Uuid} :
    r ∈ (Master.completedResult row).toList ↔ row.2.2.2 = some r ∧ r.status.isCompleted := by
  rw [Option.mem_toList, Master.completedResult]
  exact Option.filter_eq_some_iff

/-- The results restored are those delivered with a completed status. -/
theorem Stored.mem_results (hs : Stored env s) (h : Loaded s rows)
    (hjob : s.master.jobs.lookup id = some job) {r : TaskResult Uuid} :
    r ∈ (restored rows id job).results ↔
      r ∈ s.reported.filter fun r => r.jobId = id ∧ r.status.isCompleted := by
  rw [List.mem_filter, decide_eq_true_eq]
  simp only [restored, Master.restoreRows, Master.restoredJob, List.nil_append, List.mem_flatMap,
    List.mem_filter, decide_eq_true_eq, mem_completedResult]
  constructor
  · rintro ⟨row, ⟨hrow, rfl⟩, hresult, hdone⟩
    obtain ⟨job', -, -, hfind⟩ := (h.mem row).mp hrow
    obtain ⟨hr, hkey⟩ := hs.result?_eq_some.mp (hfind.symm.trans hresult)
    exact ⟨hr, congrArg Prod.fst hkey, hdone⟩
  · rintro ⟨hr, rfl, hdone⟩
    obtain ⟨job', hjob', hstatus⟩ := hs.reported r hr
    obtain ⟨status, hstatus, -⟩ := Option.map_eq_some_iff.mp hstatus
    exact ⟨(r.taskId, r.jobId, status, some r),
      ⟨(h.mem _).mpr ⟨job', hjob', hstatus, (hs.result?_eq_some.mpr ⟨hr, rfl⟩).symm⟩, rfl⟩, rfl,
      hdone⟩

/-- A row gives at most the result of its own task. -/
theorem Stored.sublist_results (hs : Stored env s) {rows : List (Master.LoadedTask Uuid)}
    (h : ∀ row ∈ rows, row.2.2.2 = s.result? (row.2.1, row.1)) :
    ((rows.flatMap fun row => (Master.completedResult row).toList).map TaskResult.taskId).Sublist
      (rows.map Prod.fst) := by
  induction rows with
  | nil => exact .refl _
  | cons row rows ih =>
      have hrec := ih fun row' hrow' => h row' (List.mem_cons_of_mem _ hrow')
      rw [List.flatMap_cons, List.map_append, List.map_cons]
      cases hresult : Master.completedResult row with
      | none => exact hrec.cons _
      | some r =>
          have hr := mem_completedResult.mp (by rw [hresult]; exact List.mem_singleton_self r)
          have hfind := (h row List.mem_cons_self).symm.trans hr.1
          have hid : r.taskId = row.1 := congrArg Prod.snd (hs.result?_eq_some.mp hfind).2
          rw [← hid]
          exact hrec.cons_cons _

theorem Stored.nodup_results (hs : Stored env s) (h : Loaded s rows) :
    ((restored rows id job).results.map TaskResult.taskId).Nodup := by
  refine (h.nodup_filter fun row => decide (row.2.1 = id)).sublist
    (hs.sublist_results fun row hrow => ?_)
  obtain ⟨job', -, -, hfind⟩ := (h.mem row).mp (List.mem_filter.mp hrow).1
  exact hfind

/-- The results survive, in the order of the rows. -/
theorem Stored.results_perm (hs : Stored env s) (h : Loaded s rows)
    (hjob : s.master.jobs.lookup id = some job) :
    (restored rows id job).results.Perm
      (s.reported.filter fun r => r.jobId = id ∧ r.status.isCompleted) := by
  refine (List.perm_ext_iff_of_nodup (hs.nodup_results h).of_map
    (hs.nodup.of_map.filter _)).mpr fun r => ?_
  exact hs.mem_results h hjob

end

/-- A restart leaves memory and database in step. -/
theorem Stored.restart (hs : Stored env s) (hserde : env.serde.RoundTrip) :
    Stored env { s with master := Master.new env s.master.store } := by
  obtain ⟨rows, hrows, hjobs, hstore⟩ := hs.new_eq hserde
  have hknown : ∀ row ∈ rows.filter fun row => row.2.2.1.worker.isSome,
      (s.master.store.tasks.lookup row.1).isSome := by
    intro row hrow
    obtain ⟨job, hjob, hstatus, -⟩ := (hrows.mem row).mp (List.mem_filter.mp hrow).1
    rw [hs.tasks _ job hjob _ _ hstatus]
    rfl
  obtain ⟨hhealthy, hjobRows, htaskRows⟩ := Master.requeue_healthy env _ hs.healthy hknown
  rw [← hstore] at hhealthy hjobRows htaskRows
  have hold : ∀ id job, (Master.new env s.master.store).jobs.lookup id = some job →
      ∃ old, s.master.jobs.lookup id = some old ∧ restored rows id old = job := by
    intro id job hjob
    rw [hjobs] at hjob
    exact Option.map_eq_some_iff.mp hjob
  refine
    { healthy := hhealthy
      jobs := fun id => ?_
      tasks := fun id job hjob taskId status hstatus => ?_
      rows := fun taskId row hrow => ?_
      named := fun id job hjob taskId hmem => ?_
      results := fun id job hjob => ?_
      reported := fun r hr => ?_
      done := fun id job hjob taskId hdone => ?_
      nodup := hs.nodup }
  · show (Master.new env s.master.store).store.jobs.lookup id =
      ((Master.new env s.master.store).jobs.lookup id).map _
    rw [hjobRows, hs.jobs, hjobs, Option.map_map]
    rfl
  · obtain ⟨old, hold, rfl⟩ := hold id job hjob
    rw [hrows.lookup_tasks hold] at hstatus
    obtain ⟨before, hbefore, rfl⟩ := Option.map_eq_some_iff.mp hstatus
    have hrow := hs.tasks id old hold taskId before hbefore
    have hloaded : (taskId, id, before, s.result? (id, taskId)) ∈ rows :=
      (hrows.mem _).mpr ⟨old, hold, hbefore, rfl⟩
    have hrequeue := hrows.mem_requeue hloaded
    show (Master.new env s.master.store).store.tasks.lookup taskId = _
    rw [htaskRows, hrow]
    split_ifs with hmem
    · rw [Master.normalize, if_pos (hrequeue.mp hmem)]
      rfl
    · rw [Master.normalize, if_neg fun hworker => hmem (hrequeue.mpr hworker)]
      rfl
  · have hrow : (Master.new env s.master.store).store.tasks.lookup taskId = some row := hrow
    have hbefore : ∃ before, s.master.store.tasks.lookup taskId = some before ∧
        before.jobId = row.jobId := by
      rw [htaskRows] at hrow
      split_ifs at hrow
      · obtain ⟨before, hbefore, rfl⟩ := Option.map_eq_some_iff.mp hrow
        exact ⟨before, hbefore, rfl⟩
      · exact ⟨row, hrow, rfl⟩
    obtain ⟨before, hbefore, hjobId⟩ := hbefore
    obtain ⟨old, hold, hmem⟩ := hs.rows taskId before hbefore
    rw [hjobId] at hold
    exact ⟨restored rows row.jobId old, (hjobs _).trans (by rw [hold]; rfl),
      (hrows.mem_restored hold).mpr hmem⟩
  · obtain ⟨old, hold, rfl⟩ := hold id job hjob
    exact hs.named id old hold taskId ((hrows.mem_restored hold).mp hmem)
  · obtain ⟨old, hold, rfl⟩ := hold id job hjob
    exact hs.results_perm hrows hold
  · obtain ⟨old, hold, hstatus⟩ := hs.reported r hr
    refine ⟨restored rows r.jobId old, (hjobs _).trans (by rw [hold]; rfl), ?_⟩
    rw [hrows.lookup_tasks hold, Option.map_map]
    obtain ⟨status, hstatus, hnormal⟩ := Option.map_eq_some_iff.mp hstatus
    rw [hstatus, ← hnormal]
    exact congrArg some (Master.normalize_normalize status)
  · obtain ⟨old, hold, rfl⟩ := hold id job hjob
    rw [hrows.lookup_tasks hold] at hdone
    obtain ⟨status, hstatus, hnormal⟩ := Option.map_eq_some_iff.mp hdone
    rw [Master.normalize_eq_completed.mp hnormal] at hstatus
    exact hs.done id old hold taskId hstatus

end Session

/-! ### Faithful restarts -/

namespace JobState

/-- `job'` is what a restart has to make of `job`. -/
structure Recovers (job job' : JobState Uuid) : Prop where
  dag : job'.dag = job.dag
  status : job'.status = job.status
  tasks : ∀ id, job'.tasks.lookup id = (job.tasks.lookup id).map Master.normalize
  results : job'.results.Perm job.results
  nodup : (job'.results.map TaskResult.taskId).Nodup
  completed : ∀ id, id ∈ job'.results.map TaskResult.taskId ↔
    job'.tasks.lookup id = some .completed

/-- The same job, up to the order of its tasks and of its results. -/
structure Same (job job' : JobState Uuid) : Prop where
  dag : job'.dag = job.dag
  status : job'.status = job.status
  tasks : ∀ id, job'.tasks.lookup id = job.tasks.lookup id
  results : job'.results.Perm job.results
  metrics : job'.metrics = job.metrics
  error : job'.error = job.error

end JobState

namespace Session

variable {env : MasterEnv Uuid} {s : Session Uuid}

theorem Stored.recovers (hs : Stored env s) {rows : List (Master.LoadedTask Uuid)}
    (h : Loaded s rows) {id : Uuid} {job : JobState Uuid}
    (hjob : s.master.jobs.lookup id = some job) : job.Recovers (restored rows id job) where
  dag := rfl
  status := rfl
  tasks := h.lookup_tasks hjob
  results := (hs.results_perm h hjob).trans (hs.results id job hjob).symm
  nodup := hs.nodup_results h
  completed taskId := by
    rw [h.lookup_tasks hjob, List.mem_map]
    constructor
    · rintro ⟨r, hr, rfl⟩
      have hreported := (hs.mem_results h hjob).mp hr
      rw [List.mem_filter, decide_eq_true_eq] at hreported
      obtain ⟨hdelivered, rfl, hdone⟩ := hreported
      obtain ⟨job', hjob', hstatus⟩ := hs.reported r hdelivered
      cases hjob.symm.trans hjob'
      rw [hstatus]
      cases hcompleted : r.status <;> first | rfl | (rw [hcompleted] at hdone; cases hdone)
    · intro hcompleted
      obtain ⟨status, hstatus, hnormal⟩ := Option.map_eq_some_iff.mp hcompleted
      rw [Master.normalize_eq_completed.mp hnormal] at hstatus
      obtain ⟨r, hr, hkey⟩ := List.mem_map.mp (hs.done id job hjob taskId hstatus)
      obtain ⟨rfl, rfl⟩ : r.jobId = id ∧ r.taskId = taskId := Prod.mk.inj hkey
      refine ⟨r, (hs.mem_results h hjob).mpr ?_, rfl⟩
      rw [List.mem_filter, decide_eq_true_eq]
      refine ⟨hr, rfl, ?_⟩
      obtain ⟨job', hjob', hnow⟩ := hs.reported r hr
      cases hjob.symm.trans hjob'
      rw [hstatus, Option.map_some, Option.some.injEq] at hnow
      rw [Master.normalize_eq_completed.mp hnow.symm]
      rfl

/-- After a run of whole operations that reports each task at most once, a
restart finds every job with its DAG, its status, its tasks and the results of
the completed ones, and no other job; and one more restart finds the same jobs. -/
theorem restart_faithful (hserde : env.serde.RoundTrip) (hinj : Function.Injective2 env.newV5)
    {ops : List (Op Uuid)} (hops : Along (step env) Unreported {} ops)
    (hrun : run (step env) {} ops = some s) :
    (∀ id, Option.Rel JobState.Recovers (s.master.jobs.lookup id)
      ((Master.new env s.master.store).jobs.lookup id)) ∧
      ∀ id, Option.Rel JobState.Same ((Master.new env s.master.store).jobs.lookup id)
        ((Master.new env (Master.new env s.master.store).store).jobs.lookup id) := by
  have hstep : ∀ s op s', Stored env s → Unreported s op → s.step env op = some s' →
      Stored env s' := fun s op s' hs hop hstep => hs.step hinj hop hstep
  have hs := run_invariant hstep stored_start hops hrun
  obtain ⟨rows, hrows, hjobs, -⟩ := hs.new_eq hserde
  have hs₁ := hs.restart hserde
  obtain ⟨rows₁, hrows₁, hjobs₁, -⟩ := hs₁.new_eq hserde
  constructor
  · intro id
    rw [hjobs]
    cases hjob : s.master.jobs.lookup id with
    | none => exact .none
    | some job => exact .some (hs.recovers hrows hjob)
  · intro id
    rw [hjobs₁, hjobs]
    cases hjob : s.master.jobs.lookup id with
    | none => exact .none
    | some job =>
        have hjob₁ :
            (Master.new env s.master.store).jobs.lookup id = some (restored rows id job) := by
          rw [hjobs, hjob]
          rfl
        have hagain := hs₁.recovers hrows₁ hjob₁
        refine .some ⟨hagain.dag, hagain.status, fun taskId => ?_, hagain.results, rfl, rfl⟩
        rw [hagain.tasks, hrows.lookup_tasks hjob, Option.map_map]
        exact congrArg (Option.map · _) (funext Master.normalize_normalize)

/-- A job of two tasks: one is completed, the other is assigned when the master
stops. -/
def interruptedRun : List (Op Path) :=
  let task (partition : Nat) : Task Path :=
    { taskId := [DagSpecification.stableIdInput 0 partition, "job"]
      jobId := ["job"]
      stageId := 0
      attempt := 0
      operator := .read "in.jsonl" "jsonl"
      partition
      inputUri := "in.jsonl"
      inputFormat := "jsonl"
      totalPartitions := 2 }
  [.register
      { id := ["w"], address := "w:1", status := .active, lastHeartbeat := 0, metrics := {} },
    .submit ["job"] (System.readDag 2) .insertion .insertion,
    .schedule (task 0),
    .complete (System.readResult ["job"] ["0-0", "job"] .completed),
    .schedule (task 1)]

theorem restart_faithful_interruptedRun :
    ∃ s, run (step System.pathEnv) {} interruptedRun = some s ∧
      (∀ id, Option.Rel JobState.Recovers (s.master.jobs.lookup id)
        ((Master.new System.pathEnv s.master.store).jobs.lookup id)) ∧
        ∀ id, Option.Rel JobState.Same
          ((Master.new System.pathEnv s.master.store).jobs.lookup id)
          ((Master.new System.pathEnv (Master.new System.pathEnv s.master.store).store).jobs.lookup
            id) := by
  have hsome : (run (step System.pathEnv) {} interruptedRun).isSome := by decide
  obtain ⟨s, hrun⟩ := Option.isSome_iff_exists.mp hsome
  have hinj : Function.Injective2 System.pathEnv.newV5 := fun _ _ _ _ h =>
    (List.cons.inj h).symm
  exact ⟨s, hrun, restart_faithful (Serde.tallied_roundTrip Path) hinj (by decide) hrun⟩

end Session
end ProcessingEngine

import ProcessingEngine.Master.System

/-!
# Genuine tasks

The loops of a master hold, and its workers get, only tasks that the master has
built from the DAG of a job and that it knows.  As long as results are reported
for known tasks, the tasks of a job are those of its submission
(`System.Built.step`).
-/

namespace ProcessingEngine

open Lib

variable {Uuid : Type} [DecidableEq Uuid]

namespace System

/-- The master has built the task from the DAG of its job, and knows it. -/
def Genuine (env : MasterEnv Uuid) (s : System Uuid) (task : Task Uuid) : Prop :=
  ∃ job order, s.job task.jobId = some job ∧
    task ∈ job.dag.materializeTasks env.newV5 order task.jobId ∧ task.taskId ∈ job.tasks

/-- The tasks at hand are genuine, and those of a job are the ones it was
submitted with. -/
structure Built (env : MasterEnv Uuid) (s : System Uuid) : Prop where
  loops : ∀ loop ∈ s.loops, ∀ task ∈ loop.tasks, s.Genuine env task
  sent : ∀ d ∈ s.dispatched, s.Genuine env d.1
  keys : ∀ id job, s.job id = some job → ∃ order, ∀ taskId,
    taskId ∈ job.tasks ↔ taskId ∈ (job.dag.materializeTasks env.newV5 order id).map Task.taskId

variable {env : MasterEnv Uuid} {s s' : System Uuid} {e : Event Uuid}

/-- A job keeps its DAG, and the tasks it knows. -/
theorem job_step (hstep : s.step env e = some s') {id : Uuid} {job : JobState Uuid}
    (hjob : s.job id = some job) :
    ∃ job', s'.job id = some job' ∧ job'.dag = job.dag ∧
      ∀ taskId ∈ job.tasks, taskId ∈ job'.tasks := by
  have hmove := step_job hstep id
  rw [hjob] at hmove
  generalize s'.job id = new at hmove ⊢
  cases hmove with
  | unchanged => exact ⟨job, rfl, rfl, fun _ hmem => hmem⟩
  | assigned hloop hid => exact ⟨_, rfl, rfl, fun _ hmem => (AList.mem_insert _).mpr (Or.inr hmem)⟩
  | running hloop hid => exact ⟨_, rfl, rfl, fun _ hmem => hmem⟩
  | recorded hid hok =>
      refine ⟨_, rfl, JobState.record_dag job _, fun _ hmem => ?_⟩
      rw [JobState.record_tasks]
      exact (AList.mem_insert _).mpr (Or.inr hmem)
  | refused hid hok => exact ⟨_, rfl, rfl, fun _ hmem => (AList.mem_insert _).mpr (Or.inr hmem)⟩

theorem Genuine.step {task : Task Uuid} (h : s.Genuine env task)
    (hstep : s.step env e = some s') : s'.Genuine env task := by
  obtain ⟨job, order, hjob, hmem, hknown⟩ := h
  obtain ⟨job', hjob', hdag, hkeep⟩ := job_step hstep hjob
  exact ⟨job', order, hjob', hdag ▸ hmem, hkeep _ hknown⟩

/-- What is sent is added to what was sent. -/
theorem dispatched_step (hstep : s.step env e = some s') :
    ∃ more, s'.dispatched = s.dispatched ++ more := by
  have hsame : s'.dispatched = s.dispatched → ∃ more, s'.dispatched = s.dispatched ++ more :=
    fun h => ⟨[], by rw [h, List.append_nil]⟩
  cases e with
  | submit jobId dag order stagesOrder =>
      obtain ⟨-, ⟨_, store, -, rfl⟩ | ⟨tasks, store, jobs, -, -, -, rfl⟩⟩ := submit_cases hstep
      · exact hsame rfl
      · exact hsame rfl
  | snapshot order =>
      obtain rfl := snapshot_cases hstep
      exact hsame rfl
  | advance i =>
      obtain ⟨head, rest, phase, -, hphase⟩ := advance_cases hstep
      cases phase with
      | idle =>
          obtain ⟨next, _, -, rfl⟩ := hphase
          exact hsame rfl
      | running worker =>
          subst hphase
          exact ⟨_, rfl⟩
      | _ =>
          subst hphase
          exact hsame rfl
  | _ =>
      cases hstep
      exact hsame rfl

/-- What an advance leaves in the loops and sends comes from the loops. -/
theorem advance_tasks {i : Nat} (h : s.advance env i = some s') {task : Task Uuid} :
    ((∃ loop ∈ s'.loops, task ∈ loop.tasks) ∨ (∃ info, (task, info) ∈ s'.dispatched)) →
      (∃ loop ∈ s.loops, task ∈ loop.tasks) ∨ ∃ info, (task, info) ∈ s.dispatched := by
  obtain ⟨head, rest, phase, hget, hphase⟩ := advance_cases h
  have hloop := List.mem_of_getElem? hget
  have hset : ∀ next : Loop Uuid, next.tasks ⊆ head :: rest →
      (∃ loop ∈ s.loops.set i next, task ∈ loop.tasks) → ∃ loop ∈ s.loops, task ∈ loop.tasks := by
    intro next hsub ⟨loop, hmem, htask⟩
    rcases List.mem_or_eq_of_mem_set hmem with hmem | rfl
    · exact ⟨loop, hmem, htask⟩
    · exact ⟨_, hloop, hsub htask⟩
  cases phase with
  | idle =>
      obtain ⟨next, _, hnext, rfl⟩ := hphase
      refine Or.imp_left (hset next ?_)
      rcases hnext with rfl | ⟨w, -, rfl⟩
      · exact List.subset_cons_self head rest
      · exact List.Subset.refl _
  | selected worker =>
      subst hphase
      exact Or.imp_left (hset _ (List.Subset.refl _))
  | assigned worker =>
      subst hphase
      exact Or.imp_left (hset _ (List.Subset.refl _))
  | persisted worker =>
      subst hphase
      exact Or.imp_left (hset _ (List.Subset.refl _))
  | running worker =>
      subst hphase
      intro hmem
      rcases hmem with hmem | ⟨info, hmem⟩
      · exact Or.inl (hset _ (List.subset_cons_self head rest) hmem)
      · rcases List.mem_append.mp hmem with hmem | hmem
        · exact Or.inr ⟨info, hmem⟩
        · left
          rw [Option.mem_toList, Option.map_eq_some_iff] at hmem
          obtain ⟨_, -, heq⟩ := hmem
          cases heq
          exact ⟨_, hloop, List.mem_cons_self⟩

/-- The tasks in the loops and on the way after an event were there before, or
they are genuine. -/
theorem step_tasks (hstep : s.step env e = some s') {task : Task Uuid}
    (h : (∃ loop ∈ s'.loops, task ∈ loop.tasks) ∨ ∃ info, (task, info) ∈ s'.dispatched) :
    ((∃ loop ∈ s.loops, task ∈ loop.tasks) ∨ ∃ info, (task, info) ∈ s.dispatched) ∨
      s'.Genuine env task := by
  cases e with
  | submit jobId dag order stagesOrder =>
      obtain ⟨-, ⟨_, store, -, rfl⟩ | ⟨tasks, store, jobs, rfl, rfl, -, rfl⟩⟩ := submit_cases hstep
      · exact Or.inl h
      · rcases h with ⟨loop, hloop, htask⟩ | hsent
        · rcases List.mem_append.mp hloop with hloop | hloop
          · exact Or.inl (Or.inl ⟨loop, hloop, htask⟩)
          · cases List.mem_singleton.mp hloop
            have hid := DagSpecification.materializeTasks_jobId env.newV5 htask
            refine Or.inr ⟨Master.submittedJob dag stagesOrder
              (dag.materializeTasks env.newV5 order jobId), order, ?_, ?_, ?_⟩
            · rw [job, hid, AList.lookup_insert]
            · rw [hid]
              exact htask
            · exact (Master.mem_submittedJob _ _ _ _).mpr (List.mem_map_of_mem htask)
        · exact Or.inl (Or.inr hsent)
  | snapshot order =>
      obtain rfl := snapshot_cases hstep
      rcases h with ⟨loop, hloop, htask⟩ | hsent
      · rcases List.mem_append.mp hloop with hloop | hloop
        · exact Or.inl (Or.inl ⟨loop, hloop, htask⟩)
        · cases List.mem_singleton.mp hloop
          obtain ⟨job, hjob, hmem, hqueued⟩ :=
            Master.mem_queuedTasks.mp (Master.mem_snapshot.mp htask)
          refine Or.inr ⟨job, _, hjob, hmem, ?_⟩
          rw [← AList.lookup_isSome, hqueued]
          rfl
      · exact Or.inl (Or.inr hsent)
  | advance i => exact Or.inl (advance_tasks hstep h)
  | _ =>
      cases hstep
      exact Or.inl h

theorem Built.genuine (h : s.Built env) {task : Task Uuid}
    (hmem : (∃ loop ∈ s.loops, task ∈ loop.tasks) ∨ ∃ info, (task, info) ∈ s.dispatched) :
    s.Genuine env task := by
  rcases hmem with ⟨loop, hloop, htask⟩ | ⟨info, hsent⟩
  · exact h.loops loop hloop task htask
  · exact h.sent _ hsent

/-- A new entry for a known task adds no key. -/
theorem mem_insert_of_known {tasks : HashMap Uuid (TaskStatus Uuid)} {taskId id : Uuid}
    {status : TaskStatus Uuid} (h : taskId ∈ tasks) :
    id ∈ tasks.insert taskId status ↔ id ∈ tasks := by
  rw [AList.mem_insert]
  constructor
  · rintro (rfl | hmem)
    · exact h
    · exact hmem
  · exact Or.inr

theorem Built.step (h : s.Built env) (hstep : s.step env e = some s')
    (hreport : ∀ result, e = .complete result → ∀ job, s.job result.jobId = some job →
      result.taskId ∈ job.tasks) : s'.Built env := by
  have hgenuine : ∀ task : Task Uuid,
      ((∃ loop ∈ s'.loops, task ∈ loop.tasks) ∨ ∃ info, (task, info) ∈ s'.dispatched) →
        s'.Genuine env task := by
    intro task hmem
    rcases step_tasks hstep hmem with hold | hnew
    · exact (h.genuine hold).step hstep
    · exact hnew
  refine ⟨fun loop hloop task htask => hgenuine task (Or.inl ⟨loop, hloop, htask⟩),
    fun d hd => hgenuine d.1 (Or.inr ⟨d.2, hd⟩), fun id job' hjob' => ?_⟩
  have hmove := step_job hstep id
  rw [hjob'] at hmove
  generalize hold : s.job id = old at hmove
  have hsame : ∀ (job : JobState Uuid) (taskId : Uuid) (status : TaskStatus Uuid),
      s.job id = some job → taskId ∈ job.tasks → ∃ order, ∀ tid,
        tid ∈ job.tasks.insert taskId status ↔
          tid ∈ (job.dag.materializeTasks env.newV5 order id).map Task.taskId := by
    intro job taskId status hjob hknown
    obtain ⟨order, hkeys⟩ := h.keys id job hjob
    exact ⟨order, fun tid => (mem_insert_of_known hknown).trans (hkeys tid)⟩
  cases hmove with
  | unchanged => exact h.keys id job' hold
  | @submitted dag order stagesOrder => exact ⟨order, Master.mem_submittedJob _ _ _⟩
  | @assigned i task rest worker job hloop hid =>
      subst hid
      obtain ⟨known, _, hknown, -, hmem⟩ :=
        h.loops _ (List.mem_of_getElem? hloop) task List.mem_cons_self
      obtain rfl : known = job := Option.some.inj (hknown.symm.trans hold)
      exact hsame known _ _ hold hmem
  | @running i task rest worker job hloop hid => exact h.keys id job hold
  | @recorded result job hid hok =>
      subst hid
      obtain ⟨order, hkeys⟩ :=
        hsame job result.taskId result.status hold (hreport result rfl job hold)
      refine ⟨order, fun tid => ?_⟩
      rw [JobState.record_tasks, JobState.record_dag]
      exact hkeys tid
  | @refused result job hid hok =>
      subst hid
      exact hsame job result.taskId result.status hold (hreport result rfl job hold)

end System
end ProcessingEngine

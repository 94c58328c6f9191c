import ProcessingEngine.Master.Dispatch
import ProcessingEngine.Master.Genuine
import ProcessingEngine.Master.Reschedule
import ProcessingEngine.Master.Snapshot

/-!
# No task stays queued

The scheduling loops of the master run beside everything else it does.  Under a
fair scheduler a loop comes to its end, and while some worker is active it sends
each of its tasks on the way (`FairRun.loop_sends`).  As long as heartbeats come
in, a pass takes up every task that is still queued, and so every task is sent, or
a report for it has come first (`System.queued_task_sent`).
-/

namespace ProcessingEngine

open Lib

variable {Uuid : Type} [DecidableEq Uuid]

/-- The worker that `schedule_task` has selected for the first task. -/
def Phase.worker : Phase Uuid → Option Uuid
  | .idle => none
  | .selected worker => some worker
  | .assigned worker => some worker
  | .persisted worker => some worker
  | .running worker => some worker

/-- The phase after the next section on the same task. -/
def Phase.next : Phase Uuid → Phase Uuid
  | .selected worker => .assigned worker
  | .assigned worker => .persisted worker
  | .persisted worker => .running worker
  | phase => phase

namespace Registry

variable {registry : Registry Uuid} {id : Uuid}

/-- Workers are added and marked, and none is removed. -/
theorem isSome_addWorker (h : (registry.getWorker id).isSome) (info : WorkerInfo Uuid) :
    ((registry.addWorker info).getWorker id).isSome := by
  by_cases hid : id = info.id
  · subst hid
    rw [getWorker_addWorker_self]
    rfl
  · rw [getWorker_addWorker_ne hid]
    exact h

theorem isSome_recordHeartbeat (h : (registry.getWorker id).isSome) (workerId : Uuid)
    (metrics : WorkerMetrics Uuid) (address : String) (now : Nat) :
    ((registry.recordHeartbeat workerId metrics address now).getWorker id).isSome := by
  unfold recordHeartbeat
  cases registry.workers.lookup workerId with
  | none => exact isSome_addWorker h _
  | some worker => exact isSome_addWorker h _

theorem isSome_markStaleWorkers (h : (registry.getWorker id).isSome) (grace now : Nat) :
    ((registry.markStaleWorkers grace now).getWorker id).isSome := by
  show ((registry.workers.mapValues _).lookup id).isSome
  rw [HashMap.lookup_mapValues, Option.isSome_map]
  exact h

end Registry

namespace System

variable {env : MasterEnv Uuid} {s s' : System Uuid} {id : Uuid}

/-- The master knows the worker. -/
def Knows (s : System Uuid) (id : Uuid) : Prop := (s.master.registry.getWorker id).isSome

theorem Knows.step (h : s.Knows id) {e : Event Uuid} (hstep : s.step env e = some s') :
    s'.Knows id := by
  unfold Knows
  rw [step_registry hstep]
  cases e with
  | register info => exact Registry.isSome_addWorker h info
  | heartbeat message now => exact Registry.isSome_recordHeartbeat h _ _ _ _
  | collect now => exact Registry.isSome_markStaleWorkers h _ _
  | _ => exact h

theorem knows_of_available (h : id ∈ s.master.registry.availableWorkers.map WorkerInfo.id) :
    s.Knows id := by
  obtain ⟨info, hinfo, rfl⟩ := List.mem_map.mp h
  rw [Knows, (Registry.mem_availableWorkers.mp hinfo).1]
  rfl

/-- A selection either finds a worker or leaves the task to a later pass. -/
theorem advance_idle {i : Nat} {task : Task Uuid} {rest : List (Task Uuid)}
    (h : s.advance env i = some s') (hloop : s.loops[i]? = some ⟨task :: rest, .idle⟩) :
    ∃ next, s' = { s with master := s.master.selectWorker.2, loops := s.loops.set i next } ∧
      (s.master.selectWorker.1 = none ∧ next = ⟨rest, .idle⟩ ∨
        ∃ worker, s.master.selectWorker.1 = some worker ∧
          next = ⟨task :: rest, .selected worker⟩) := by
  simp only [advance, hloop, Option.bind_eq_bind, Option.bind_some, Option.pure_def] at h
  obtain ⟨⟨next, master, sent⟩, hadvance, hs'⟩ := Option.bind_eq_some_iff.mp h
  simp only [Loop.advance] at hadvance
  rcases hselect : s.master.selectWorker with ⟨_ | worker, m⟩
  · rw [hselect] at hadvance
    cases hadvance
    cases hs'
    exact ⟨_, by simp, Or.inl ⟨rfl, rfl⟩⟩
  · rw [hselect] at hadvance
    cases hadvance
    cases hs'
    exact ⟨_, by simp, Or.inr ⟨worker, rfl, rfl⟩⟩

/-- Between the selection and the dispatch a section moves the phase on. -/
theorem advance_next {i : Nat} {task : Task Uuid} {rest : List (Task Uuid)} {phase : Phase Uuid}
    (h : s.advance env i = some s') (hloop : s.loops[i]? = some ⟨task :: rest, phase⟩)
    (hidle : phase ≠ .idle) (hrunning : ∀ worker, phase ≠ .running worker) :
    s'.loops[i]? = some ⟨task :: rest, phase.next⟩ := by
  have hi := (List.getElem?_eq_some_iff.mp hloop).1
  obtain ⟨_, _, _, hloop', hphase⟩ := advance_cases h
  cases hloop.symm.trans hloop'
  cases phase with
  | idle => exact absurd rfl hidle
  | running worker => exact absurd rfl (hrunning worker)
  | _ =>
      subst hphase
      exact List.getElem?_set_self hi

/-- While a worker is active, a selection finds one. -/
theorem selectWorker_isSome (h : s.master.registry.availableWorkers ≠ []) :
    s.master.selectWorker.1 ≠ none := by
  show (s.master.scheduler.selectWorker s.master.registry).1 ≠ none
  rw [(RoundRobinScheduler.selectWorker_eq h rfl rfl).1]
  have hperm := RoundRobinScheduler.walkQueue_perm
    (RoundRobinScheduler.leastLoaded s.master.registry.availableWorkers).contains
    (RoundRobinScheduler.resync s.master.scheduler.queue s.master.registry.availableWorkers).length
    (RoundRobinScheduler.resync s.master.scheduler.queue s.master.registry.availableWorkers)
  generalize RoundRobinScheduler.walkQueue _ _ _ = found at hperm ⊢
  obtain ⟨_ | worker, rest⟩ := found
  · cases rest with
    | nil =>
        have hempty := List.nil_perm.mp hperm
        unfold RoundRobinScheduler.resync at hempty
        split_ifs at hempty with hqueue
        · exact absurd (List.map_eq_nil_iff.mp hempty) h
        · rw [hempty] at hqueue
          exact absurd rfl hqueue
    | cons front rest => exact Option.some_ne_none front
  · exact Option.some_ne_none worker

/-! ### The selected workers are known -/

/-- The master knows the workers in the queue of its scheduler and those that its
loops have selected. -/
structure Chosen (s : System Uuid) : Prop where
  queue : ∀ id ∈ s.master.scheduler.queue, s.Knows id
  loops : ∀ loop ∈ s.loops, ∀ id, loop.phase.worker = some id → s.Knows id

theorem chosen_new (env : MasterEnv Uuid) (store : StateStore Uuid) :
    Chosen { master := Master.new env store } where
  queue id hid := by cases hid
  loops loop hloop := by cases hloop

/-- Only a selection changes the scheduler. -/
theorem step_scheduler {e : Event Uuid} (hstep : s.step env e = some s') :
    s'.master.scheduler = s.master.scheduler ∨ s'.master = s.master.selectWorker.2 := by
  cases e with
  | submit jobId dag order stagesOrder =>
      obtain ⟨-, ⟨_, store, -, rfl⟩ | ⟨tasks, store, jobs, rfl, rfl, -, rfl⟩⟩ := submit_cases hstep
      · exact Or.inl rfl
      · exact Or.inl rfl
  | snapshot order =>
      obtain rfl := snapshot_cases hstep
      exact Or.inl rfl
  | advance i =>
      obtain ⟨task, rest, phase, hloop, hphase⟩ := advance_cases hstep
      cases phase with
      | idle =>
          obtain ⟨next, rfl, -⟩ := advance_idle hstep hloop
          exact Or.inr rfl
      | persisted worker =>
          subst hphase
          left
          show (s.master.markRunning env task).scheduler = s.master.scheduler
          unfold Master.markRunning
          cases s.master.jobs.lookup task.jobId with
          | none => rfl
          | some job =>
              dsimp only
              split_ifs <;> rfl
      | _ =>
          subst hphase
          exact Or.inl rfl
  | complete result =>
      cases hstep
      left
      show (s.master.completeTask env result).2.scheduler = s.master.scheduler
      unfold Master.completeTask
      cases s.master.jobs.lookup result.jobId with
      | none => rfl
      | some job =>
          dsimp only
          rcases s.master.store.persistTaskResult env.serde result with ⟨_ | _, store⟩ <;> rfl
  | _ =>
      cases hstep
      exact Or.inl rfl

/-- The selected workers after an event: those from before, or the one that the
scheduler gives. -/
theorem step_worker {e : Event Uuid} (hstep : s.step env e = some s') {loop : Loop Uuid}
    (hloop : loop ∈ s'.loops) (hid : loop.phase.worker = some id) :
    (∃ loop ∈ s.loops, loop.phase.worker = some id) ∨ s.master.selectWorker.1 = some id := by
  cases e with
  | submit jobId dag order stagesOrder =>
      obtain ⟨-, ⟨_, store, -, rfl⟩ | ⟨tasks, store, jobs, rfl, rfl, -, rfl⟩⟩ := submit_cases hstep
      · exact Or.inl ⟨loop, hloop, hid⟩
      · rcases List.mem_append.mp hloop with hloop | hloop
        · exact Or.inl ⟨loop, hloop, hid⟩
        · cases List.mem_singleton.mp hloop
          cases hid
  | snapshot order =>
      obtain rfl := snapshot_cases hstep
      rcases List.mem_append.mp hloop with hloop | hloop
      · exact Or.inl ⟨loop, hloop, hid⟩
      · cases List.mem_singleton.mp hloop
        cases hid
  | advance i =>
      obtain ⟨task, rest, phase, hget, hphase⟩ := advance_cases hstep
      have hmem := List.mem_of_getElem? hget
      cases phase with
      | idle =>
          obtain ⟨next, rfl, hnext⟩ := advance_idle hstep hget
          rcases List.mem_or_eq_of_mem_set hloop with hloop | rfl
          · exact Or.inl ⟨loop, hloop, hid⟩
          · rcases hnext with ⟨-, rfl⟩ | ⟨worker, hselect, rfl⟩
            · cases hid
            · cases hid
              exact Or.inr hselect
      | running worker =>
          subst hphase
          rcases List.mem_or_eq_of_mem_set hloop with hloop | rfl
          · exact Or.inl ⟨loop, hloop, hid⟩
          · cases hid
      | _ =>
          subst hphase
          rcases List.mem_or_eq_of_mem_set hloop with hloop | rfl
          · exact Or.inl ⟨loop, hloop, hid⟩
          · exact Or.inl ⟨_, hmem, hid⟩
  | _ =>
      cases hstep
      exact Or.inl ⟨loop, hloop, hid⟩

theorem Chosen.step (h : s.Chosen) {e : Event Uuid} (hstep : s.step env e = some s') :
    s'.Chosen where
  queue id hid := by
    rcases step_scheduler hstep with hsame | hselect
    · rw [hsame] at hid
      exact (h.queue id hid).step hstep
    · rw [hselect] at hid
      have hmem := (RoundRobinScheduler.selectWorker_queue_perm s.master.scheduler
        s.master.registry).mem_iff.mp hid
      split_ifs at hmem
      · exact (h.queue id hmem).step hstep
      · exact (knows_of_available hmem).step hstep
  loops loop hloop id hid := by
    rcases step_worker hstep hloop hid with ⟨loop', hloop', hid'⟩ | hselect
    · exact (h.loops loop' hloop' id hid').step hstep
    · rcases RoundRobinScheduler.selectWorker_mem hselect with hmem | hmem
      · exact (h.queue id hmem).step hstep
      · exact (knows_of_available hmem).step hstep

/-! ### Fair executions -/

/-- An execution of a master that starts on a database, and rests now and then.  The
scheduler is fair: a loop with tasks left takes another section, and a pass that was
spawned takes its snapshot. -/
structure FairRun (env : MasterEnv Uuid) (states : Nat → System Uuid)
    (events : Nat → Option (Event Uuid)) : Prop where
  start : ∃ store, states 0 = { master := Master.new env store }
  steps : ∀ n, stepOrRest (step env) (states n) (events n) = some (states (n + 1))
  loops : ∀ n i loop, (states n).loops[i]? = some loop → loop.tasks ≠ [] →
    ∃ m, n ≤ m ∧ events m = some (.advance i)
  passes : ∀ n, 0 < (states n).spawned → ∃ m order, n ≤ m ∧ events m = some (.snapshot order)

/-- The event spawns a pass over the queued tasks. -/
def Spawns : Event Uuid → Prop
  | .register _ | .heartbeat _ _ => True
  | _ => False

/-- In the step from state `n` the task is sent to a worker. -/
def SentAt (states : Nat → System Uuid) (task : Task Uuid) (n : Nat) : Prop :=
  ∃ info, (states (n + 1)).dispatched = (states n).dispatched ++ [(task, info)]

/-- In the step from state `n` the task is sent, or a report for it comes in. -/
def Attended (states : Nat → System Uuid) (events : Nat → Option (Event Uuid))
    (key : Uuid × Uuid) (n : Nat) : Prop :=
  (∃ task, task.key = key ∧ SentAt states task n) ∨
    ∃ result, events n = some (.complete result) ∧ result.key = key

/-- The task is queued, and any order of the hash maps leads to its id. -/
structure Queued (env : MasterEnv Uuid) (key : Uuid × Uuid) (s : System Uuid) : Prop where
  found : ∃ job order, s.job key.1 = some job ∧ job.dag.Stable ∧
    key.2 ∈ (job.dag.materializeTasks env.newV5 order key.1).map Task.taskId
  status : s.taskStatus key = some .queued

/-- A registration or heartbeat comes in at some time after `n`, and from then on
some worker is active. -/
def Staffed (states : Nat → System Uuid) (events : Nat → Option (Event Uuid)) (n : Nat) : Prop :=
  ∃ m e, n ≤ m ∧ events m = some e ∧ Spawns e ∧
    ∀ k, m < k → (states k).master.registry.availableWorkers ≠ []

/-- A loop waits for its next section. -/
theorem step_loop {e : Event Uuid} (hstep : s.step env e = some s') {i : Nat} {loop : Loop Uuid}
    (hloop : s.loops[i]? = some loop) (hne : e ≠ .advance i) : s'.loops[i]? = some loop := by
  obtain ⟨hi, -⟩ := List.getElem?_eq_some_iff.mp hloop
  cases e with
  | submit jobId dag order stagesOrder =>
      obtain ⟨-, ⟨_, store, -, rfl⟩ | ⟨tasks, store, jobs, rfl, rfl, -, rfl⟩⟩ := submit_cases hstep
      · exact hloop
      · exact (List.getElem?_append_left hi).trans hloop
  | snapshot order =>
      obtain rfl := snapshot_cases hstep
      exact (List.getElem?_append_left hi).trans hloop
  | advance j =>
      obtain ⟨_, _, _, next, -, hloops, -⟩ := advance_loops hstep
      have hij : j ≠ i := fun hij => hne (congrArg Event.advance hij)
      rw [hloops, List.getElem?_set_ne hij]
      exact hloop
  | _ =>
      cases hstep
      exact hloop

/-- A pass that was spawned waits for its snapshot. -/
theorem step_spawned {e : Event Uuid} (hstep : s.step env e = some s')
    (hlost : s'.spawned < s.spawned) : ∃ order, e = .snapshot order := by
  cases e with
  | snapshot order => exact ⟨order, rfl⟩
  | submit jobId dag order stagesOrder =>
      obtain ⟨-, ⟨_, store, -, rfl⟩ | ⟨tasks, store, jobs, rfl, rfl, -, rfl⟩⟩ := submit_cases hstep
      · exact absurd hlost (Nat.lt_irrefl _)
      · exact absurd hlost (Nat.lt_irrefl _)
  | advance i =>
      obtain ⟨task, rest, phase, hloop, hphase⟩ := advance_cases hstep
      cases phase with
      | idle =>
          obtain ⟨next, scheduler, -, rfl⟩ := hphase
          exact absurd hlost (Nat.lt_irrefl _)
      | _ =>
          subst hphase
          exact absurd hlost (Nat.lt_irrefl _)
  | register _ | heartbeat _ _ =>
      cases hstep
      exact absurd hlost (Nat.not_lt.mpr (Nat.le_succ _))
  | collect _ | complete _ =>
      cases hstep
      exact absurd hlost (Nat.lt_irrefl _)

theorem Spawns.step {e : Event Uuid} (h : Spawns e) (hstep : s.step env e = some s') :
    0 < s'.spawned := by
  cases e with
  | register _ | heartbeat _ _ =>
      cases hstep
      exact Nat.succ_pos _
  | _ => cases h

namespace FairRun

variable {states : Nat → System Uuid} {events : Nat → Option (Event Uuid)} {n i : Nat}

theorem chosen (h : FairRun env states events) (n : Nat) : (states n).Chosen := by
  have hkeep : ∀ (s : System Uuid) e s', s.Chosen → s.step env e = some s' → s'.Chosen :=
    fun s e s' hs hstep => hs.step hstep
  refine execution_keeps hkeep h.steps (Nat.zero_le n) ?_
  obtain ⟨store, hstart⟩ := h.start
  rw [hstart]
  exact chosen_new env store

/-- A loop with tasks left is still as it is when it takes its next section. -/
theorem loop_advances (h : FairRun env states events) {loop : Loop Uuid}
    (hloop : (states n).loops[i]? = some loop) (htasks : loop.tasks ≠ []) :
    ∃ m, n ≤ m ∧ (states m).loops[i]? = some loop ∧
      (states m).advance env i = some (states (m + 1)) := by
  have hkeep : ∀ k, n ≤ k → events k ≠ some (.advance i) → (states k).loops[i]? = some loop →
      (states (k + 1)).loops[i]? = some loop := by
    intro k _ hne hk
    rcases stepOrRest_cases (h.steps k) with ⟨-, hsame⟩ | ⟨e, he, hstep⟩
    · rw [hsame]
      exact hk
    · exact step_loop hstep hk fun hadvance => hne (by rw [he, hadvance])
  obtain ⟨m, hnm, hevent, hkept⟩ := kept_until hloop hkeep (h.loops n i loop hloop htasks)
  have hstep := h.steps m
  rw [hevent] at hstep
  exact ⟨m, hnm, hkept, hstep⟩

/-- A task that runs on a selected worker is sent there. -/
theorem running_sends (h : FairRun env states events) {task : Task Uuid}
    {rest : List (Task Uuid)} {worker : Uuid}
    (hloop : (states n).loops[i]? = some ⟨task :: rest, .running worker⟩) :
    ∃ k, n ≤ k ∧ SentAt states task k ∧ (states (k + 1)).loops[i]? = some ⟨rest, .idle⟩ := by
  obtain ⟨k, hk, hkept, hstep⟩ := h.loop_advances hloop (List.cons_ne_nil task rest)
  obtain ⟨_, _, _, hloop', hphase⟩ := advance_cases hstep
  cases hkept.symm.trans hloop'
  have hknown := (h.chosen k).loops _ (List.mem_of_getElem? hkept) worker rfl
  obtain ⟨info, hinfo⟩ := Option.isSome_iff_exists.mp hknown
  have hi := (List.getElem?_eq_some_iff.mp hkept).1
  refine ⟨k, hk, ⟨info, ?_⟩, ?_⟩
  · rw [hphase, hinfo]
    rfl
  · rw [hphase]
    exact List.getElem?_set_self hi

/-- A task for which a worker was selected is sent. -/
theorem selected_sends (h : FairRun env states events) {task : Task Uuid}
    {rest : List (Task Uuid)} {phase : Phase Uuid} (hidle : phase ≠ .idle)
    (hloop : (states n).loops[i]? = some ⟨task :: rest, phase⟩) :
    ∃ k, n ≤ k ∧ SentAt states task k ∧ (states (k + 1)).loops[i]? = some ⟨rest, .idle⟩ := by
  -- A section that moves the phase on leads to the sections that come after it.
  have hsection : ∀ (phase : Phase Uuid), phase ≠ .idle → (∀ worker, phase ≠ .running worker) →
      (∀ m, (states m).loops[i]? = some ⟨task :: rest, phase.next⟩ → ∃ k, m ≤ k ∧
        SentAt states task k ∧ (states (k + 1)).loops[i]? = some ⟨rest, .idle⟩) →
      ∀ n, (states n).loops[i]? = some ⟨task :: rest, phase⟩ → ∃ k, n ≤ k ∧
        SentAt states task k ∧ (states (k + 1)).loops[i]? = some ⟨rest, .idle⟩ := by
    intro phase hidle hrunning hnext n hloop
    obtain ⟨m, hnm, hkept, hstep⟩ := h.loop_advances hloop (List.cons_ne_nil task rest)
    obtain ⟨k, hmk, hsent⟩ := hnext (m + 1) (advance_next hstep hkept hidle hrunning)
    exact ⟨k, by omega, hsent⟩
  have hpersisted : ∀ worker, _ := fun worker =>
    hsection (.persisted worker) (by simp) (by simp) fun m hm => h.running_sends hm
  have hassigned : ∀ worker, _ := fun worker =>
    hsection (.assigned worker) (by simp) (by simp) (hpersisted worker)
  cases phase with
  | idle => exact absurd rfl hidle
  | selected worker =>
      exact hsection (.selected worker) (by simp) (by simp) (hassigned worker) n hloop
  | assigned worker => exact hassigned worker n hloop
  | persisted worker => exact hpersisted worker n hloop
  | running worker => exact h.running_sends hloop

/-- While some worker is active, a loop sends each of its tasks. -/
theorem loop_sends (h : FairRun env states events) {tasks : List (Task Uuid)}
    (hloop : (states n).loops[i]? = some ⟨tasks, .idle⟩)
    (hactive : ∀ k, n ≤ k → (states k).master.registry.availableWorkers ≠ []) {task : Task Uuid}
    (htask : task ∈ tasks) : ∃ k, n ≤ k ∧ SentAt states task k := by
  induction tasks generalizing n with
  | nil => cases htask
  | cons head rest ih =>
      obtain ⟨m, hnm, hkept, hstep⟩ := h.loop_advances hloop (List.cons_ne_nil head rest)
      have hi := (List.getElem?_eq_some_iff.mp hkept).1
      obtain ⟨next, hs', ⟨hnone, -⟩ | ⟨worker, -, rfl⟩⟩ := advance_idle hstep hkept
      · exact absurd hnone (selectWorker_isSome (hactive m hnm))
      · have hselected : (states (m + 1)).loops[i]? = some ⟨head :: rest, .selected worker⟩ := by
          rw [hs']
          exact List.getElem?_set_self hi
        obtain ⟨k, hmk, hsent, hrest⟩ := h.selected_sends (by simp) hselected
        rcases List.mem_cons.mp htask with rfl | htask
        · exact ⟨k, by omega, hsent⟩
        · obtain ⟨k', hk', hsent'⟩ := ih hrest (fun j hj => hactive j (by omega)) htask
          exact ⟨k', by omega, hsent'⟩

/-- Once a pass was spawned, one takes its snapshot. -/
theorem snapshot_comes (h : FairRun env states events) {e : Event Uuid}
    (he : events n = some e) (hspawns : Spawns e) :
    ∃ m order, n < m ∧ events m = some (.snapshot order) := by
  have hstep := h.steps n
  rw [he] at hstep
  obtain ⟨m, order, hm, hevent⟩ := h.passes (n + 1) (hspawns.step hstep)
  exact ⟨m, order, hm, hevent⟩

/-- A job keeps its DAG in an execution. -/
theorem job_kept (h : FairRun env states events) {id : Uuid} {job : JobState Uuid}
    (hjob : (states n).job id = some job) {m : Nat} (hnm : n ≤ m) :
    ∃ job', (states m).job id = some job' ∧ job'.dag = job.dag := by
  refine execution_keeps (I := fun s => ∃ job', s.job id = some job' ∧ job'.dag = job.dag)
    (fun s e s' hs hstep => ?_) h.steps hnm ⟨job, hjob, rfl⟩
  obtain ⟨job', hjob', hdag⟩ := hs
  obtain ⟨job'', hjob'', hdag', -⟩ := job_step hstep hjob'
  exact ⟨job'', hjob'', hdag'.trans hdag⟩

/-- A task that does not stay queued is sent, or a report for it comes first. -/
theorem unqueued_attended (h : FairRun env states events) {key : Uuid × Uuid} {m : Nat}
    (hnm : n ≤ m) (hqueued : (states n).taskStatus key = some .queued)
    (hnot : (states m).taskStatus key ≠ some .queued) :
    ∃ k, n ≤ k ∧ Attended states events key k := by
  obtain ⟨k, e, hk, hstill, hlost, he, hstep⟩ := execution_loses
    (P := fun s => s.taskStatus key = some .queued) h.steps hnm hqueued hnot
  have hmove := step_task hstep key
  rw [hstill] at hmove
  generalize (states (k + 1)).taskStatus key = status at hmove hlost
  cases hmove with
  | unchanged => exact absurd rfl hlost
  | assigned hloop hkey =>
      obtain ⟨k', hk', hsent, -⟩ := h.selected_sends (by simp) hloop
      exact ⟨k', hk.trans hk', Or.inl ⟨_, hkey, hsent⟩⟩
  | reported hkey => exact ⟨k, hk, Or.inr ⟨_, he, hkey⟩⟩

/-- A pass takes up a task that is still queued. -/
theorem snapshot_finds (h : FairRun env states events)
    (hinj : ∀ jobId, Function.Injective (env.newV5 jobId)) {key : Uuid × Uuid}
    (hqueued : Queued env key (states n)) {m : Nat} (hnm : n ≤ m)
    (hstill : (states m).taskStatus key = some .queued) {snapshot : SnapshotOrder Uuid}
    (hevent : events m = some (.snapshot snapshot)) :
    ∃ tasks, (states (m + 1)).loops[(states m).loops.length]? = some ⟨tasks, .idle⟩ ∧
      ∃ task ∈ tasks, task.key = key := by
  obtain ⟨job, order, hjob, hstable, hkey⟩ := hqueued.found
  obtain ⟨job', hjob', hdag⟩ := h.job_kept hjob hnm
  have hids := (DagSpecification.stable_iff (hinj key.1) job.dag).mpr hstable
  obtain ⟨task, htask, hid⟩ := List.mem_map.mp ((hids order (snapshot.nodes key.1) key.2).mp hkey)
  have hjobId := DagSpecification.materializeTasks_jobId env.newV5 htask
  rw [taskStatus, hjob', Option.bind_some, ← hid] at hstill
  rw [← hdag, ← hjobId] at htask
  rw [← hjobId] at hjob'
  have hstep := h.steps m
  rw [hevent] at hstep
  refine ⟨(states m).master.queuedTasksSnapshot env snapshot, ?_, task,
    Master.mem_snapshot.mpr (Master.mem_queuedTasks.mpr ⟨job', hjob', htask, hstill⟩),
    Prod.ext hjobId hid⟩
  rw [snapshot_cases hstep]
  exact List.getElem?_concat_length

/-- A queued task is sent, or a report for it comes first. -/
theorem queued_attended (h : FairRun env states events)
    (hinj : ∀ jobId, Function.Injective (env.newV5 jobId)) {key : Uuid × Uuid}
    (hqueued : Queued env key (states n)) (hstaffed : Staffed states events n) :
    ∃ k, n ≤ k ∧ Attended states events key k := by
  obtain ⟨m, e, hnm, he, hspawns, hactive⟩ := hstaffed
  obtain ⟨k, snapshot, hmk, hevent⟩ := h.snapshot_comes he hspawns
  by_cases hstill : (states k).taskStatus key = some .queued
  · obtain ⟨tasks, hloop, task, htask, hkey⟩ :=
      h.snapshot_finds hinj hqueued (hnm.trans hmk.le) hstill hevent
    obtain ⟨k', hk', hsent⟩ := h.loop_sends hloop (fun j hj => hactive j (by omega)) htask
    exact ⟨k', by omega, Or.inl ⟨task, hkey, hsent⟩⟩
  · exact h.unqueued_attended (hnm.trans hmk.le) hqueued.status hstill

end FairRun

/-- A run that ends without work is fair when the master rests after it. -/
theorem fairRun_of_run {store : StateStore Uuid} {events : List (Event Uuid)}
    (hrun : run (step env) { master := Master.new env store } events = some s')
    (hloops : ∀ loop ∈ s'.loops, loop.tasks = []) (hspawned : s'.spawned = 0) :
    ∃ states, FairRun env states (fun n => events[n]?) ∧
      ∀ n, run (step env) { master := Master.new env store } (events.take n) =
        some (states n) := by
  obtain ⟨states, hstates, hsteps, hend⟩ := run_then_rest hrun
  refine ⟨states, ⟨?_, hsteps, fun n i loop hloop htasks => ?_, fun n hpos => ?_⟩, hstates⟩
  · exact ⟨store, (Option.some.inj (hstates 0)).symm⟩
  · obtain ⟨m, hnm, hm⟩ := hend n
    have hgone : ¬ (states m).loops[i]? = some loop := by
      intro hloop
      rw [hm] at hloop
      exact htasks (hloops loop (List.mem_of_getElem? hloop))
    obtain ⟨k, e, hk, hkept, hlost, he, hstep⟩ := execution_loses
      (P := fun s => s.loops[i]? = some loop) hsteps hnm hloop hgone
    refine ⟨k, hk, ?_⟩
    rw [he, Option.some.injEq]
    by_contra hne
    exact hlost (step_loop hstep hkept hne)
  · obtain ⟨m, hnm, hm⟩ := hend n
    have hzero : ¬ 0 < (states m).spawned := by
      rw [hm, hspawned]
      exact Nat.lt_irrefl 0
    obtain ⟨k, e, hk, hkept, hlost, he, hstep⟩ := execution_loses
      (P := fun s => 0 < s.spawned) hsteps hnm hpos hzero
    obtain ⟨order, hevent⟩ := step_spawned hstep (by omega)
    exact ⟨k, order, hk, he.trans (congrArg some hevent)⟩

/-- In a fair execution of the master a queued task is sent to a worker, or a report
for it comes first, if a registration or heartbeat comes in and some worker is active
from then on. -/
theorem queued_task_sent (hinj : ∀ jobId, Function.Injective (env.newV5 jobId))
    {states : Nat → System Uuid} {events : Nat → Option (Event Uuid)}
    (h : FairRun env states events) {n : Nat} {key : Uuid × Uuid}
    (hqueued : Queued env key (states n)) (hstaffed : Staffed states events n) :
    ∃ k, n ≤ k ∧ Attended states events key k :=
  h.queued_attended hinj hqueued hstaffed

/-- A job that comes before any worker, and the pass that finds its task. -/
def lateRun : List (Event Path) :=
  [readSubmission ["job"] 1, .advance 0, registration, .snapshot snapshotOrder,
    .advance 1, .advance 1, .advance 1, .advance 1, .advance 1]

theorem queued_task_sent_lateRun :
    ∃ states events, FairRun pathEnv states events ∧
      Queued pathEnv (["job"], ["0-0", "job"]) (states 2) ∧ Staffed states events 2 ∧
      ∃ k, 2 ≤ k ∧ Attended states events (["job"], ["0-0", "job"]) k := by
  have hsome : (run (step pathEnv) { master := Master.new pathEnv {} } lateRun).isSome = true := by
    decide +kernel
  obtain ⟨s', hrun⟩ := Option.isSome_iff_exists.mp hsome
  have hend : (run (step pathEnv) { master := Master.new pathEnv {} } lateRun).map (fun s =>
      (s.loops.all fun loop => loop.tasks.isEmpty, s.spawned)) = some (true, 0) := by decide +kernel
  have htwo : (run (step pathEnv) { master := Master.new pathEnv {} } (lateRun.take 2)).map
      (fun s => ((s.job ["job"]).map JobState.dag,
        s.taskStatus (["job"], ["0-0", "job"]))) = some (some (readDag 1), some .queued) := by
    decide +kernel
  have hworkers : ∀ k < 10, 2 < k →
      (run (step pathEnv) { master := Master.new pathEnv {} } (lateRun.take k)).map
        (fun s => s.master.registry.availableWorkers.isEmpty) = some false := by
    decide +kernel
  rw [hrun, Option.map_some, Option.some.injEq, Prod.mk.injEq, List.all_eq_true] at hend
  obtain ⟨states, hfair, hstates⟩ := fairRun_of_run hrun
    (fun loop hloop => List.isEmpty_iff.mp (hend.1 loop hloop)) hend.2
  rw [hstates 2, Option.map_some, Option.some.injEq, Prod.mk.injEq] at htwo
  obtain ⟨job, hjob, hdag⟩ := Option.map_eq_some_iff.mp htwo.1
  have hqueued : Queued pathEnv (["job"], ["0-0", "job"]) (states 2) := by
    refine ⟨⟨job, .insertion, hjob, ?_, ?_⟩, htwo.2⟩
    · rw [hdag]
      have hsource : (readDag 1).incomingCounts.keys.filter
          (fun id => (readDag 1).incomingCounts.lookup id == some 0) = ["read"] := by decide
      exact DagSpecification.stable_of_source hsource
    · rw [hdag]
      decide
  have hstaffed : Staffed states (fun n => lateRun[n]?) 2 := by
    refine ⟨2, registration, Nat.le_refl 2, rfl, trivial, fun k hk hnone => ?_⟩
    have htake : lateRun.take k = lateRun.take (min k 9) := by
      rcases Nat.le_total k 9 with h | h
      · rw [Nat.min_eq_left h]
      · rw [Nat.min_eq_right h]
        exact List.take_of_length_le h
    have hactive := hworkers (min k 9) (by omega) (by omega)
    rw [← htake, hstates k, Option.map_some, hnone] at hactive
    cases hactive
  exact ⟨states, _, hfair, hqueued, hstaffed,
    queued_task_sent pathEnv_newV5_injective hfair hqueued hstaffed⟩

end System
end ProcessingEngine

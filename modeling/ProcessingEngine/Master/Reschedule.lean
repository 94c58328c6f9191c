import ProcessingEngine.Master.Delivery

/-!
# Tasks of a dropped worker

`garbage_collect_workers` marks a worker as down and leaves the tasks assigned
to it as they are; `queued_tasks_snapshot` takes the queued ones only.  A task
that is assigned to the worker at that moment, or that a loop is about to assign
to it, therefore stays with it, whatever passes run afterwards
(`dropped_worker_released`).
-/

namespace ProcessingEngine

open Lib

variable {Uuid : Type} [DecidableEq Uuid]

namespace RoundRobinScheduler

omit [DecidableEq Uuid] in
theorem fallback_mem {found : Option Uuid × List Uuid} {queue : List Uuid}
    (hperm : found.2.Perm queue) (hfound : ∀ id, found.1 = some id → id ∈ queue) {id : Uuid}
    (h : (fallback found).1 = some id) : id ∈ queue := by
  obtain ⟨_ | front, rest⟩ := found
  · cases rest with
    | nil => cases h
    | cons front rest =>
        cases h
        exact hperm.mem_iff.mp List.mem_cons_self
  · exact hfound id h

/-- A selected worker is in the queue, or it is available. -/
theorem selectWorker_mem {scheduler : RoundRobinScheduler Uuid} {registry : Registry Uuid}
    {id : Uuid} (h : (scheduler.selectWorker registry).1 = some id) :
    id ∈ scheduler.queue ∨ id ∈ registry.availableWorkers.map WorkerInfo.id := by
  unfold selectWorker at h
  dsimp only at h
  split_ifs at h
  have hmem := fallback_mem (walkQueue_perm _ _ _) (fun _ hid => (walkQueue_eq_some hid).2) h
  unfold resync at hmem
  split_ifs at hmem
  · exact Or.inr hmem
  · exact Or.inl hmem

end RoundRobinScheduler

namespace System

/-- The worker is marked as down. -/
def Down (w : Uuid) (s : System Uuid) : Prop :=
  (s.master.registry.getWorker w).map WorkerInfo.status = some .down

/-- A task is assigned to the worker, or a loop is about to assign one to it. -/
def Orphaned (w : Uuid) (s : System Uuid) : Prop :=
  (∃ key, s.taskStatus key = some (.assigned w)) ∨
    ∃ loop ∈ s.loops, loop.tasks ≠ [] ∧ loop.phase = .selected w

/-- The worker does not speak to the master. -/
def Silent (w : Uuid) : Event Uuid → Prop
  | .register info => info.id ≠ w
  | .heartbeat message _ => message.workerId ≠ w
  | _ => True

/-- A selection does not fall back to the worker: the queue does not hold it, or
is rebuilt, or holds a least-loaded active worker. -/
def Passes (w : Uuid) (m : Master Uuid) : Prop :=
  m.registry.availableWorkers = [] ∨ w ∉ m.scheduler.queue ∨
    m.scheduler.queue.length ≠ m.registry.availableWorkers.length ∨
      ∃ id ∈ m.scheduler.queue, RoundRobinScheduler.LeastLoaded m.registry id

/-- The event gives the worker no task: no result says that it has one, and no
selection falls back to it. -/
def Avoids (w : Uuid) (s : System Uuid) (e : Event Uuid) : Prop :=
  Silent w e ∧ match e with
    | .complete result => result.status ≠ .assigned w
    | .advance _ => Passes w s.master
    | _ => True

/-- In a stretch of a run a pass takes its snapshot and runs to its end, with a
worker active and `w` silent. -/
structure PassAfter (env : MasterEnv Uuid) (w : Uuid) (s : System Uuid)
    (stretch : List (Event Uuid)) (s' : System Uuid) : Prop where
  run : run (step env) s stretch = some s'
  silent : ∀ e ∈ stretch, Silent w e
  pass : ∃ before order after s₁ loop, stretch = before ++ .snapshot order :: after ∧
    Lib.run (step env) s before = some s₁ ∧ s'.loops[s₁.loops.length]? = some loop ∧
      loop.tasks = []
  active : s'.master.registry.availableWorkers ≠ []

instance decidableDown (w : Uuid) (s : System Uuid) : Decidable (Down w s) :=
  inferInstanceAs (Decidable (_ = _))

instance decidableSilent (w : Uuid) : ∀ e, Decidable (Silent w e)
  | .register info => inferInstanceAs (Decidable (info.id ≠ w))
  | .heartbeat message _ => inferInstanceAs (Decidable (message.workerId ≠ w))
  | .submit _ _ _ _ | .collect _ | .snapshot _ | .advance _ | .complete _ => isTrue trivial

instance decidablePasses (w : Uuid) (m : Master Uuid) : Decidable (Passes w m) :=
  decidable_of_iff
    (m.registry.availableWorkers = [] ∨ w ∉ m.scheduler.queue ∨
      m.scheduler.queue.length ≠ m.registry.availableWorkers.length ∨
        ∃ id ∈ m.scheduler.queue,
          id ∈ RoundRobinScheduler.leastLoaded m.registry.availableWorkers)
    (by simp only [Passes, RoundRobinScheduler.mem_leastLoaded])

instance decidableAvoids (w : Uuid) (s : System Uuid) : ∀ e, Decidable (Avoids w s e)
  | .complete result => inferInstanceAs (Decidable (True ∧ result.status ≠ .assigned w))
  | .advance _ => inferInstanceAs (Decidable (True ∧ Passes w s.master))
  | .register info => inferInstanceAs (Decidable (info.id ≠ w ∧ True))
  | .heartbeat message _ => inferInstanceAs (Decidable (message.workerId ≠ w ∧ True))
  | .submit _ _ _ _ | .collect _ | .snapshot _ => isTrue ⟨trivial, trivial⟩

variable {env : MasterEnv Uuid} {s s' : System Uuid} {w : Uuid}

/-! ### A released worker gets no task -/

theorem down_iff : Down w s ↔
    ∃ info, s.master.registry.getWorker w = some info ∧ info.status = .down :=
  Option.map_eq_some_iff

theorem Down.notMem_available (h : Down w s) :
    w ∉ s.master.registry.availableWorkers.map WorkerInfo.id := by
  intro hmem
  obtain ⟨info, hinfo, rfl⟩ := List.mem_map.mp hmem
  obtain ⟨hget, hactive⟩ := Registry.mem_availableWorkers.mp hinfo
  rw [Down, hget, Option.map_some, hactive] at h
  cases h

theorem Down.not_selected (h : Down w s) (hpasses : Passes w s.master) :
    (s.master.scheduler.selectWorker s.master.registry).1 ≠ some w := by
  intro hsel
  have hbad : ¬ RoundRobinScheduler.LeastLoaded s.master.registry w := by
    rintro ⟨info, hget, hactive, -⟩
    rw [Down, hget, Option.map_some, hactive] at h
    cases h
  have hmem := (RoundRobinScheduler.selectWorker_mem hsel).resolve_right h.notMem_available
  by_cases hnone : s.master.registry.availableWorkers = []
  · simp [RoundRobinScheduler.selectWorker, hnone] at hsel
  · have hsound := (RoundRobinScheduler.selectWorker_leastLoaded_iff s.master.scheduler hnone).mpr
      ((hpasses.resolve_left hnone).resolve_left fun hnot => hnot hmem)
    obtain ⟨id, hid, hleast⟩ := hsound
    rw [hsel] at hid
    cases hid
    exact hbad hleast

/-- The events by which a registry changes. -/
theorem step_registry {e : Event Uuid} (hstep : s.step env e = some s') :
    s'.master.registry = match e with
      | .register info => s.master.registry.addWorker info
      | .heartbeat message now =>
          s.master.registry.recordHeartbeat message.workerId message.metrics message.address now
      | .collect now => s.master.registry.markStaleWorkers (env.heartbeatIntervalMs * 2) now
      | _ => s.master.registry := by
  cases e with
  | submit jobId dag order stagesOrder =>
      obtain ⟨-, ⟨_, store, -, rfl⟩ | ⟨tasks, store, jobs, rfl, rfl, -, rfl⟩⟩ := submit_cases hstep
      · rfl
      · rfl
  | snapshot order =>
      obtain rfl := snapshot_cases hstep
      rfl
  | advance i =>
      obtain ⟨task, rest, phase, -, hphase⟩ := advance_cases hstep
      cases phase with
      | idle =>
          obtain ⟨_, _, -, rfl⟩ := hphase
          rfl
      | persisted worker =>
          subst hphase
          show (s.master.markRunning env task).registry = s.master.registry
          unfold Master.markRunning
          cases s.master.jobs.lookup task.jobId with
          | none => rfl
          | some job =>
              dsimp only
              split_ifs <;> rfl
      | _ =>
          subst hphase
          rfl
  | complete result =>
      cases hstep
      show (s.master.completeTask env result).2.registry = s.master.registry
      unfold Master.completeTask
      cases s.master.jobs.lookup result.jobId with
      | none => rfl
      | some job =>
          dsimp only
          rcases s.master.store.persistTaskResult env.serde result with ⟨_ | _, store⟩ <;> rfl
  | _ =>
      cases hstep
      rfl

theorem Down.step (h : Down w s) {e : Event Uuid} (hsilent : Silent w e)
    (hstep : s.step env e = some s') : Down w s' := by
  have hregistry := step_registry hstep
  rw [Down, hregistry]
  cases e with
  | register info =>
      rw [Registry.getWorker_addWorker_ne (Ne.symm hsilent)]
      exact h
  | heartbeat message now =>
      rw [Registry.getWorker_recordHeartbeat_ne (Ne.symm hsilent)]
      exact h
  | collect now =>
      obtain ⟨info, hget, hdown⟩ := down_iff.mp h
      rw [Registry.getWorker_markStaleWorkers hget (by rw [hdown]; decide), Option.map_some, hdown]
  | _ => exact h

/-- The loops of a state, and the loop that a selection leaves. -/
theorem step_selected {e : Event Uuid} (hstep : s.step env e = some s') {loop : Loop Uuid}
    (hloop : loop ∈ s'.loops) (hphase : loop.phase = .selected w) :
    loop ∈ s.loops ∨ (∃ i, e = .advance i) ∧
      (s.master.scheduler.selectWorker s.master.registry).1 = some w := by
  cases e with
  | submit jobId dag order stagesOrder =>
      obtain ⟨-, ⟨_, store, -, rfl⟩ | ⟨tasks, store, jobs, rfl, rfl, -, rfl⟩⟩ := submit_cases hstep
      · exact Or.inl hloop
      · rcases List.mem_append.mp hloop with hold | hnew
        · exact Or.inl hold
        · rw [List.mem_singleton.mp hnew] at hphase
          cases hphase
  | snapshot order =>
      obtain rfl := snapshot_cases hstep
      rcases List.mem_append.mp hloop with hold | hnew
      · exact Or.inl hold
      · rw [List.mem_singleton.mp hnew] at hphase
        cases hphase
  | advance i =>
      obtain ⟨task, rest, phase, -, hadvance⟩ := advance_cases hstep
      cases phase with
      | idle =>
          obtain ⟨next, scheduler, hnext, rfl⟩ := hadvance
          rcases List.mem_or_eq_of_mem_set hloop with hold | rfl
          · exact Or.inl hold
          · rcases hnext with rfl | ⟨worker, hselected, rfl⟩
            · cases hphase
            · cases hphase
              exact Or.inr ⟨⟨i, rfl⟩, hselected⟩
      | _ =>
          subst hadvance
          rcases List.mem_or_eq_of_mem_set hloop with hold | rfl
          · exact Or.inl hold
          · cases hphase
  | _ =>
      cases hstep
      exact Or.inl hloop

/-- The worker is down, has no task and is about to get none. -/
structure Released (w : Uuid) (s : System Uuid) : Prop where
  down : Down w s
  tasks : ∀ key, s.taskStatus key ≠ some (.assigned w)
  loops : ∀ loop ∈ s.loops, loop.tasks ≠ [] → loop.phase ≠ .selected w

theorem released_iff : Released w s ↔ Down w s ∧ ¬ Orphaned w s := by
  constructor
  · intro h
    refine ⟨h.down, ?_⟩
    rintro (⟨key, hkey⟩ | ⟨loop, hloop, htasks, hphase⟩)
    · exact h.tasks key hkey
    · exact h.loops loop hloop htasks hphase
  · intro ⟨hdown, hnot⟩
    refine ⟨hdown, fun key hkey => hnot (Or.inl ⟨key, hkey⟩), fun loop hloop htasks hphase => ?_⟩
    exact hnot (Or.inr ⟨loop, hloop, htasks, hphase⟩)

theorem Released.step (h : Released w s) {e : Event Uuid} (havoids : Avoids w s e)
    (hstep : s.step env e = some s') : Released w s' := by
  refine ⟨h.down.step havoids.1 hstep, fun key hkey => ?_, fun loop hloop htasks hphase => ?_⟩
  · have htask := step_task hstep key
    generalize hold : s.taskStatus key = old at htask
    generalize s'.taskStatus key = new at htask hkey
    cases htask with
    | unchanged => exact h.tasks key (hold.trans hkey)
    | submitted => cases hkey
    | assigned hloop _ =>
        cases hkey
        exact h.loops _ (List.mem_of_getElem? hloop) (List.cons_ne_nil _ _) rfl
    | reported _ => exact havoids.2 (Option.some.inj hkey)
  · rcases step_selected hstep hloop hphase with hold | ⟨⟨i, rfl⟩, hsel⟩
    · exact h.loops loop hold htasks hphase
    · exact h.down.not_selected havoids.2 hsel

/-! ### A pass that runs to its end -/

/-- The critical sections that are left of a loop, at most. -/
def remaining (loop : Loop Uuid) : Nat :=
  5 * loop.tasks.length - match loop.phase with
    | .idle => 0
    | .selected _ => 1
    | .assigned _ => 2
    | .persisted _ => 3
    | .running _ => 4

/-- A loop with a task left can take its next section. -/
theorem advance_enabled (env : MasterEnv Uuid) {i : Nat} {loop : Loop Uuid}
    (hloop : s.loops[i]? = some loop) (htasks : loop.tasks ≠ []) :
    ∃ s' next, s.step env (.advance i) = some s' ∧ s'.loops[i]? = some next ∧
      remaining next < remaining loop ∧ next.tasks ⊆ loop.tasks := by
  obtain ⟨hi, -⟩ := List.getElem?_eq_some_iff.mp hloop
  obtain ⟨tasks, phase⟩ := loop
  cases tasks with
  | nil => exact absurd rfl htasks
  | cons task rest =>
      have henabled : ∃ next master sent,
          Loop.advance env s.master ⟨task :: rest, phase⟩ = some (next, master, sent) ∧
            remaining next < remaining (⟨task :: rest, phase⟩ : Loop Uuid) ∧
              next.tasks ⊆ task :: rest := by
        cases phase with
        | idle =>
            simp only [Loop.advance]
            rcases s.master.selectWorker with ⟨_ | worker, master⟩
            · refine ⟨_, _, _, rfl, ?_, List.subset_cons_self task rest⟩
              simp only [remaining, List.length_cons]
              omega
            · refine ⟨_, _, _, rfl, ?_, List.Subset.refl _⟩
              simp only [remaining, List.length_cons]
              omega
        | running worker =>
            refine ⟨_, _, _, rfl, ?_, List.subset_cons_self task rest⟩
            simp only [remaining, List.length_cons]
            omega
        | _ =>
            refine ⟨_, _, _, rfl, ?_, List.Subset.refl _⟩
            simp only [remaining, List.length_cons]
            omega
      obtain ⟨next, master, sent, hadv, hless, hsub⟩ := henabled
      refine ⟨{ s with
          master
          loops := s.loops.set i next
          dispatched := s.dispatched ++ sent.toList }, next, ?_, List.getElem?_set_self hi, hless,
        hsub⟩
      show s.advance env i = _
      simp only [System.advance, hloop, hadv, Option.bind_eq_bind, Option.bind_some,
        Option.pure_def]

/-- The loop `i` is taken to its end, and the other tasks are left alone. -/
theorem loop_ends (env : MasterEnv Uuid) {i : Nat} {loop : Loop Uuid}
    (hloop : s.loops[i]? = some loop) :
    ∃ n s' last, run (step env) s (List.replicate n (.advance i)) = some s' ∧
      s'.loops[i]? = some last ∧ last.tasks = [] ∧
      s'.master.registry = s.master.registry ∧
      ∀ key ∉ loop.tasks.map Task.key, s'.taskStatus key = s.taskStatus key := by
  induction hn : remaining loop using Nat.strong_induction_on generalizing s loop with
  | _ n ih =>
      by_cases htasks : loop.tasks = []
      · exact ⟨0, s, loop, rfl, hloop, htasks, rfl, fun _ _ => rfl⟩
      · obtain ⟨s₁, next, hstep, hnext, hless, hsub⟩ :=
          advance_enabled env hloop htasks
        subst hn
        obtain ⟨n, s', last, hrun, hlast, hend, hregistry, hkept⟩ := ih _ hless hnext rfl
        refine ⟨n + 1, s', last, ?_, hlast, hend, ?_, fun key hkey => ?_⟩
        · rw [List.replicate_succ, run_cons, hstep]
          exact hrun
        · rw [hregistry, step_registry hstep]
        · have hout : key ∉ next.tasks.map Task.key := fun hmem =>
            hkey (List.map_subset Task.key hsub hmem)
          rw [hkept key hout]
          have htask := step_task hstep key
          generalize s.taskStatus key = old at htask
          generalize s₁.taskStatus key = new at htask
          cases htask with
          | unchanged => rfl
          | assigned hloop' hkey' =>
              cases hloop.symm.trans hloop'
              exact absurd (hkey' ▸ List.mem_map_of_mem List.mem_cons_self) hkey

/-- An orphaned task that no pass will look at. -/
theorem stranded_of_assigned (env : MasterEnv Uuid) {key : Uuid × Uuid}
    (hkey : s.taskStatus key = some (.assigned w)) {other : Uuid} (hother : other ≠ w) :
    ∃ stretch s', PassAfter env w s stretch s' ∧ s'.taskStatus key = some (.assigned w) := by
  let info : WorkerInfo Uuid :=
    { id := other, address := "", status := .active, lastHeartbeat := 0, metrics := {} }
  let order : SnapshotOrder Uuid := ⟨.insertion, fun _ => .insertion⟩
  let s₁ : System Uuid :=
    { s with master := s.master.registerWorker info, spawned := s.spawned + 1 }
  let loop : Loop Uuid := ⟨s₁.master.queuedTasksSnapshot env order, .idle⟩
  let s₂ : System Uuid := { s₁ with spawned := s.spawned, loops := s₁.loops ++ [loop] }
  have hsnapshot : s₁.step env (.snapshot order) = some s₂ := by
    show (if s.spawned + 1 = 0 then none else _) = _
    rw [if_neg (by omega)]
    rfl
  have hloop : s₂.loops[s₁.loops.length]? = some loop := List.getElem?_concat_length
  obtain ⟨n, s', last, hrun, hlast, hend, hregistry, hkept⟩ := loop_ends env hloop
  have hqueued : key ∉ loop.tasks.map Task.key := by
    intro hmem
    obtain ⟨task, htask, rfl⟩ := List.mem_map.mp hmem
    obtain ⟨job, hjob, -, hstatus⟩ := Master.mem_queuedTasks.mp (Master.mem_snapshot.mp htask)
    have hjob : s.master.jobs.lookup task.jobId = some job := hjob
    rw [taskStatus, Task.key, System.job, hjob, Option.bind_some, hstatus] at hkey
    cases hkey
  refine ⟨.register info :: .snapshot order :: List.replicate n (.advance s₁.loops.length), s',
    ⟨?_, ?_, ?_, ?_⟩, ?_⟩
  · rw [run_cons]
    show run (step env) s₁ _ = _
    rw [run_cons, hsnapshot]
    exact hrun
  · intro e he
    rcases List.mem_cons.mp he with rfl | he
    · exact hother
    · rcases List.mem_cons.mp he with rfl | he
      · trivial
      · rw [List.eq_of_mem_replicate he]
        trivial
  · exact ⟨[.register info], order, _, s₁, last, rfl, rfl, hlast, hend⟩
  · have hactive : info ∈ s₁.master.registry.availableWorkers :=
      Registry.mem_availableWorkers.mpr ⟨AList.lookup_insert _, rfl⟩
    rw [hregistry]
    exact List.ne_nil_of_mem hactive
  · rw [hkept key hqueued]
    exact hkey

/-- The tasks of the loops are tasks of the jobs. -/
def Known (s : System Uuid) : Prop :=
  ∀ loop ∈ s.loops, ∀ task ∈ loop.tasks, (s.taskStatus task.key).isSome

theorem Known.step (h : Known s) {e : Event Uuid} (hstep : s.step env e = some s') : Known s' := by
  intro loop hloop task htask
  rcases step_loops hstep hloop htask with ⟨loop', hloop', htask'⟩ | hsome
  · exact taskStatus_isSome_step hstep (h loop' hloop' task htask')
  · exact hsome

/-- The task that a loop is about to assign to the worker. -/
theorem stranded_of_selected (env : MasterEnv Uuid) (hknown : Known s) {loop : Loop Uuid}
    (hloop : loop ∈ s.loops) (htasks : loop.tasks ≠ []) (hphase : loop.phase = .selected w)
    {other : Uuid}
    (hother : other ≠ w) :
    ∃ stretch s' key, PassAfter env w s stretch s' ∧ s'.taskStatus key = some (.assigned w) := by
  obtain ⟨i, hi, hget⟩ := List.mem_iff_getElem.mp hloop
  have hget : s.loops[i]? = some loop := List.getElem?_eq_some_iff.mpr ⟨hi, hget⟩
  obtain ⟨s₁, next, hstep, -⟩ := advance_enabled env hget htasks
  obtain ⟨tasks, phase⟩ := loop
  cases tasks with
  | nil => exact absurd rfl htasks
  | cons task rest =>
      cases hphase
      have hsome := hknown _ hloop task List.mem_cons_self
      obtain ⟨status, hstatus⟩ := Option.isSome_iff_exists.mp hsome
      obtain ⟨job, hjob, -⟩ := Option.bind_eq_some_iff.mp hstatus
      obtain ⟨task', rest', phase', hget', hadv⟩ := advance_cases hstep
      cases hget.symm.trans hget'
      have hassigned : s₁.taskStatus task.key = some (.assigned w) := by
        subst hadv
        have hlookup := Master.assignTask_lookup_self (m := s.master) task w
        rw [show s.master.jobs.lookup task.jobId = some job from hjob, Option.map_some] at hlookup
        exact Option.bind_eq_some_iff.mpr ⟨_, hlookup, AList.lookup_insert _⟩
      obtain ⟨stretch, s', hpass, hkey⟩ := stranded_of_assigned env hassigned hother
      refine ⟨.advance i :: stretch, s', task.key, ⟨?_, ?_, ?_, hpass.active⟩, hkey⟩
      · rw [run_cons, hstep]
        exact hpass.run
      · rw [List.forall_mem_cons]
        exact ⟨trivial, hpass.silent⟩
      · obtain ⟨before, order, after, s₂, last, rfl, hbefore, hlast⟩ := hpass.pass
        refine ⟨.advance i :: before, order, after, s₂, last, rfl, ?_, hlast⟩
        rw [run_cons, hstep]
        exact hbefore

/-- From a collection that finds `w` without a task, every stretch of events that
give it none leaves it without one.  From any other collection some pass with an
active worker runs to its end and leaves a task with `w`. -/
theorem dropped_worker_released [Nontrivial Uuid] {events : List (Event Uuid)} {now : Nat}
    (hrun : run (step env) {} (events ++ [.collect now]) = some s) (hdown : Down w s) :
    (¬ Orphaned w s → ∀ stretch s', Along (step env) (Avoids w) s stretch →
        run (step env) s stretch = some s' → ∀ key, s'.taskStatus key ≠ some (.assigned w)) ∧
      (Orphaned w s → ∃ stretch s' key, PassAfter env w s stretch s' ∧
        s'.taskStatus key = some (.assigned w)) := by
  constructor
  · intro hnot stretch s' havoids hstretch
    have hkept : ∀ s e s', Released w s → Avoids w s e → s.step env e = some s' →
        Released w s' := fun s e s' h havoids hstep => h.step havoids hstep
    have hend := run_invariant hkept (released_iff.mpr ⟨hdown, hnot⟩) havoids hstretch
    exact hend.tasks
  · intro horphaned
    obtain ⟨other, hother⟩ := exists_ne w
    have hknown : Known s := run_invariant (G := fun _ _ => True)
      (fun _ _ _ h _ hstep => h.step hstep) (by simp [Known]) (along_of_forall fun _ _ => trivial)
      hrun
    rcases horphaned with ⟨key, hkey⟩ | ⟨loop, hloop, htasks, hphase⟩
    · obtain ⟨stretch, s', hpass, hleft⟩ := stranded_of_assigned env hkey hother
      exact ⟨stretch, s', key, hpass, hleft⟩
    · exact stranded_of_selected env hknown hloop htasks hphase hother

def otherRegistration : Event Path :=
  .register { id := ["v"], address := "v:1", status := .active, lastHeartbeat := 0, metrics := {} }

/-- A job comes after the only worker has dropped, and another worker takes it. -/
def laterJob : List (Event Path) :=
  [otherRegistration, readSubmission ["job"] 1, .advance 0, .advance 0, .advance 0]

theorem dropped_worker_released_laterJob :
    ∃ s s', run (step pathEnv) {} ([registration] ++ [.collect 3000]) = some s ∧
      Down ["w"] s ∧ run (step pathEnv) s laterJob = some s' ∧
      s'.taskStatus (["job"], ["0-0", "job"]) = some (.assigned ["v"]) ∧
      ∀ key, s'.taskStatus key ≠ some (.assigned ["w"]) := by
  have hsome : (run (step pathEnv) {} ([registration] ++ [.collect 3000])).isSome := by decide
  obtain ⟨s, hrun⟩ := Option.isSome_iff_exists.mp hsome
  have hstart : (run (step pathEnv) {} ([registration] ++ [.collect 3000])).map (fun s =>
      (decide (Down ["w"] s), s.master.jobs.keys, s.loops.length,
        decide (Along (step pathEnv) (Avoids ["w"]) s laterJob))) = some (true, [], 0, true) := by
    decide
  have hend : (run (step pathEnv) {} ([registration] ++ [.collect 3000])).map (fun s =>
      (run (step pathEnv) s laterJob).map fun s' =>
        s'.taskStatus (["job"], ["0-0", "job"])) = some (some (some (.assigned ["v"]))) := by
    decide
  rw [hrun, Option.map_some, Option.some.injEq] at hstart hend
  simp only [Prod.mk.injEq, decide_eq_true_eq, List.length_eq_zero_iff] at hstart
  obtain ⟨hdown, hjobs, hloops, havoids⟩ := hstart
  obtain ⟨s', hstretch, hassigned⟩ := Option.map_eq_some_iff.mp hend
  have hnot : ¬ Orphaned ["w"] s := by
    rintro (⟨key, hkey⟩ | ⟨loop, hloop, -⟩)
    · have hnone : s.job key.1 = none :=
        AList.lookup_eq_none.mpr fun hmem => by
          have hmem : key.1 ∈ s.master.jobs.keys := hmem
          rw [hjobs] at hmem
          cases hmem
      rw [taskStatus, hnone] at hkey
      cases hkey
    · rw [hloops] at hloop
      cases hloop
  exact ⟨s, s', hrun, hdown, hstretch, hassigned,
    (dropped_worker_released hrun hdown).1 hnot laterJob s' havoids hstretch⟩

/-- The task of a worker that dropped stays with it, a pass and another worker
notwithstanding. -/
theorem assigned_task_stranded :
    ¬ ∀ (events : List (Event Path)) (now : Nat) (w : Path) (s : System Path)
        (stretch : List (Event Path)) (s' : System Path),
      run (step pathEnv) {} (events ++ [.collect now]) = some s → Down w s →
        PassAfter pathEnv w s stretch s' → ∀ key, s'.taskStatus key ≠ some (.assigned w) := by
  intro h
  let events : List (Event Path) := [registration, readSubmission ["job"] 1, .advance 0,
    .advance 0, .advance 0, .advance 0, .advance 0]
  let stretch : List (Event Path) := [otherRegistration, .snapshot snapshotOrder]
  have hsome : (run (step pathEnv) {} (events ++ [.collect 3000])).isSome := by decide
  obtain ⟨s, hrun⟩ := Option.isSome_iff_exists.mp hsome
  have hstart : (run (step pathEnv) {} (events ++ [.collect 3000])).map (fun s =>
      (decide (Down ["w"] s), s.loops.length)) = some (true, 1) := by decide
  have hend : (run (step pathEnv) {} (events ++ [.collect 3000])).map (fun s =>
      (run (step pathEnv) s stretch).map fun s' =>
        ((s'.loops[1]?).map fun loop => loop.tasks.length,
          s'.master.registry.availableWorkers.length)) = some (some (some 0, 1)) := by decide
  have hleft : (run (step pathEnv) {} (events ++ [.collect 3000])).map (fun s =>
      (run (step pathEnv) s stretch).map fun s' =>
        s'.taskStatus (["job"], ["0-0", "job"])) = some (some (some (.assigned ["w"]))) := by
    decide
  rw [hrun, Option.map_some, Option.some.injEq] at hstart hend hleft
  simp only [Prod.mk.injEq, decide_eq_true_eq] at hstart
  obtain ⟨hdown, hlength⟩ := hstart
  obtain ⟨s', hrun', hassigned⟩ := Option.map_eq_some_iff.mp hleft
  rw [hrun', Option.map_some, Option.some.injEq, Prod.mk.injEq] at hend
  obtain ⟨hloop, hactive⟩ := hend
  obtain ⟨loop, hloop, htasks⟩ := Option.map_eq_some_iff.mp hloop
  refine h events 3000 ["w"] s stretch s' hrun hdown ⟨hrun', ?_, ?_, ?_⟩ _ hassigned
  · decide
  · refine ⟨[otherRegistration], snapshotOrder, [], _, loop, rfl, rfl, ?_,
      List.length_eq_zero_iff.mp htasks⟩
    show s'.loops[s.loops.length]? = some loop
    rw [hlength]
    exact hloop
  · intro hnil
    rw [hnil] at hactive
    cases hactive

end System
end ProcessingEngine

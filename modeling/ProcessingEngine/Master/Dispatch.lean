import ProcessingEngine.Master.System

/-!
# Dispatching a task once

`schedule_task` assigns the task it is given without a look at its status, so a
task is assigned once only if no second loop holds it.  The tasks that wait in a
loop are in order when they are pairwise distinct and all queued (`Orderly`).
`Clear` is what the other events have to respect: a snapshot repeats no waiting
task, and no result arrives for one.
-/

namespace ProcessingEngine

open Lib

variable {Uuid : Type} [DecidableEq Uuid]

namespace Loop

/-- The tasks that the loop has still to assign. -/
def waiting (loop : Loop Uuid) : List (Task Uuid) :=
  match loop.phase with
  | .idle => loop.tasks
  | .selected _ => loop.tasks
  | _ => loop.tasks.tail

/-- The task that is assigned and not sent. -/
def inFlight (loop : Loop Uuid) : List (Task Uuid) :=
  match loop.phase with
  | .idle => []
  | .selected _ => []
  | _ => loop.tasks.take 1

end Loop

namespace Master

variable {env : MasterEnv Uuid} {m : Master Uuid} {order : SnapshotOrder Uuid}

/-- A snapshot holds no task twice. -/
theorem snapshot_nodup (hinj : ∀ jobId, Function.Injective (env.newV5 jobId)) :
    ((m.queuedTasksSnapshot env order).map Task.key).Nodup := by
  have hjobs : (order.jobs.keys m.jobs.keys).Nodup :=
    (order.jobs.perm _).nodup_iff.mpr m.jobs.keys_nodup
  rw [queuedTasksSnapshot, List.map_flatMap, List.nodup_flatMap]
  constructor
  · intro jobId _
    refine List.Nodup.of_map Prod.snd ?_
    rw [List.map_map]
    unfold queuedTasks
    cases m.jobs.lookup jobId with
    | none => exact List.nodup_nil
    | some job =>
        have hids := DagSpecification.materializeTasks_nodup env.newV5 (hinj jobId)
          (order.nodes jobId) job.dag
        exact hids.sublist (List.filter_sublist.map _)
  · refine hjobs.imp fun {a b} hab key ha hb => hab ?_
    obtain ⟨task, htask, rfl⟩ := List.mem_map.mp ha
    obtain ⟨task', htask', hkey⟩ := List.mem_map.mp hb
    rw [← queuedTasks_jobId htask, ← queuedTasks_jobId htask']
    exact (congrArg Prod.fst hkey).symm

end Master

namespace System

def waiting (s : System Uuid) : List (Uuid × Uuid) :=
  (s.loops.flatMap Loop.waiting).map Task.key

def inFlight (s : System Uuid) : List (Uuid × Uuid) :=
  (s.loops.flatMap Loop.inFlight).map Task.key

/-- What has been sent to workers. -/
def sent (s : System Uuid) : List (Uuid × Uuid) := s.dispatched.map fun d => d.1.key

def timesSent (s : System Uuid) (key : Uuid × Uuid) : Nat := s.sent.count key

/-- The waiting tasks are distinct and queued. -/
structure Orderly (s : System Uuid) : Prop where
  nodup : s.waiting.Nodup
  queued : ∀ key ∈ s.waiting, s.taskStatus key = some .queued

/-- A snapshot is taken while none of its tasks waits in a loop, no result is
delivered for a waiting task, and none opens a task that has ended. -/
def Clear (env : MasterEnv Uuid) (s : System Uuid) : Event Uuid → Prop
  | .snapshot order => ∀ task ∈ s.master.queuedTasksSnapshot env order, task.key ∉ s.waiting
  | .complete result => result.key ∉ s.waiting ∧
      ∀ status ∈ s.taskStatus result.key, result.status.isOpen → status.isOpen
  | _ => True

instance decidableClear (env : MasterEnv Uuid) (s : System Uuid) : ∀ e, Decidable (Clear env s e)
  | .snapshot order =>
      inferInstanceAs (Decidable (∀ task ∈ s.master.queuedTasksSnapshot env order,
        task.key ∉ s.waiting))
  | .complete result =>
      inferInstanceAs (Decidable (result.key ∉ s.waiting ∧
        ∀ status ∈ s.taskStatus result.key, result.status.isOpen → status.isOpen))
  | .submit _ _ _ _ | .register _ | .heartbeat _ _ | .collect _ | .advance _ => isTrue trivial

variable {env : MasterEnv Uuid} {s s' : System Uuid}

/-- What the loops hold, by any measure, when one of them is replaced. -/
theorem flatMap_set (f : Loop Uuid → List (Task Uuid)) {i : Nat} {loop : Loop Uuid}
    (next : Loop Uuid) (h : s.loops[i]? = some loop) :
    ∃ others, ((s.loops.flatMap f).map Task.key).Perm ((f loop).map Task.key ++ others) ∧
      (((s.loops.set i next).flatMap f).map Task.key).Perm
        ((f next).map Task.key ++ others) := by
  obtain ⟨before, after, hloops, hset⟩ := loops_split h
  refine ⟨((before ++ after).flatMap f).map Task.key, ?_, ?_⟩
  · rw [hloops, ← List.map_append]
    simp only [List.flatMap_append, List.flatMap_cons]
    exact (List.perm_append_comm_assoc _ _ _).map _
  · rw [hset, ← List.map_append]
    simp only [List.flatMap_append, List.flatMap_cons]
    exact (List.perm_append_comm_assoc _ _ _).map _

theorem job_ne_none_of_taskStatus {key : Uuid × Uuid} {status : TaskStatus Uuid}
    (h : s.taskStatus key = some status) : s.job key.1 ≠ none := by
  intro hnone
  rw [taskStatus, hnone] at h
  cases h

/-- New tasks join the waiting ones in order when they are queued and new. -/
theorem Orderly.append {tasks : List (Task Uuid)} (h : s.Orderly)
    (hwaiting : s'.waiting = s.waiting ++ tasks.map Task.key)
    (hnodup : (tasks.map Task.key).Nodup) (hnew : ∀ task ∈ tasks, task.key ∉ s.waiting)
    (hold : ∀ key ∈ s.waiting, s'.taskStatus key = some .queued)
    (hqueued : ∀ task ∈ tasks, s'.taskStatus task.key = some .queued) : s'.Orderly where
  nodup := by
    rw [hwaiting]
    refine h.nodup.append hnodup fun key hkey hmem => ?_
    obtain ⟨task, htask, rfl⟩ := List.mem_map.mp hmem
    exact hnew task htask hkey
  queued key hkey := by
    rw [hwaiting, List.mem_append] at hkey
    rcases hkey with hkey | hkey
    · exact hold key hkey
    · obtain ⟨task, htask, rfl⟩ := List.mem_map.mp hkey
      exact hqueued task htask

theorem waiting_append (master : Master Uuid) (spawned : Nat) (tasks : List (Task Uuid)) :
    waiting { s with master, spawned, loops := s.loops ++ [⟨tasks, .idle⟩] } =
      s.waiting ++ tasks.map Task.key := by
  simp [waiting, Loop.waiting]

theorem Orderly.submit (hinj : ∀ jobId, Function.Injective (env.newV5 jobId)) (h : s.Orderly)
    {jobId : Uuid} {dag : DagSpecification} {order stagesOrder : HashOrder String}
    (hstep : s.step env (.submit jobId dag order stagesOrder) = some s') : s'.Orderly := by
  have hjobs := fun key => step_task hstep key
  obtain ⟨hfresh, hcases⟩ := submit_cases hstep
  have hnone : s.job jobId = none := Master.lookup_of_fresh hfresh
  have hother : ∀ key ∈ s.waiting, key.1 ≠ jobId := fun key hkey e =>
    job_ne_none_of_taskStatus (h.queued key hkey) (e ▸ hnone)
  rcases hcases with ⟨_, store, -, rfl⟩ | ⟨tasks, store, jobs, rfl, rfl, -, rfl⟩
  · exact ⟨h.nodup, h.queued⟩
  · have hids := DagSpecification.materializeTasks_nodup env.newV5 (hinj jobId) order dag
    have htask : ∀ task ∈ dag.materializeTasks env.newV5 order jobId, task.jobId = jobId :=
      fun task => DagSpecification.materializeTasks_jobId env.newV5
    refine h.append (waiting_append _ _ _) ?_ (fun task hmem hkey =>
      hother _ hkey (htask task hmem)) (fun key hkey => ?_) (fun task hmem => ?_)
    · refine List.Nodup.of_map Prod.snd ?_
      rw [List.map_map]
      exact hids
    · rw [← h.queued key hkey, taskStatus, taskStatus, job, AList.lookup_insert_ne
        (hother key hkey)]
      rfl
    · rw [taskStatus, job, Task.key, htask task hmem, AList.lookup_insert, Option.bind_some,
        Master.submittedJob_lookup, if_pos (List.mem_map_of_mem hmem)]

theorem Orderly.snapshot (hinj : ∀ jobId, Function.Injective (env.newV5 jobId)) (h : s.Orderly)
    {order : SnapshotOrder Uuid} (hclear : Clear env s (.snapshot order))
    (hstep : s.step env (.snapshot order) = some s') : s'.Orderly := by
  obtain rfl := snapshot_cases hstep
  refine h.append (waiting_append _ _ _) (Master.snapshot_nodup hinj) hclear h.queued
    fun task hmem => ?_
  obtain ⟨job, hjob, -, hqueued⟩ := Master.mem_queuedTasks.mp (Master.mem_snapshot.mp hmem)
  rw [taskStatus, Task.key]
  exact Option.bind_eq_some_iff.mpr ⟨job, hjob, hqueued⟩

/-- A section leaves a part of the tasks waiting, without the one it assigns. -/
theorem advance_loops {i : Nat} (h : s.advance env i = some s') :
    ∃ task rest phase next, s.loops[i]? = some ⟨task :: rest, phase⟩ ∧
      s'.loops = s.loops.set i next ∧
      next.waiting.Sublist (Loop.waiting ⟨task :: rest, phase⟩) ∧
      ∀ worker, phase = .selected worker → next.waiting = rest := by
  obtain ⟨task, rest, phase, hloop, hphase⟩ := advance_cases h
  cases phase with
  | idle =>
      obtain ⟨next, _, hnext, rfl⟩ := hphase
      refine ⟨task, rest, _, next, hloop, rfl, ?_, fun _ e => by cases e⟩
      rcases hnext with rfl | ⟨w, -, rfl⟩
      · exact List.sublist_cons_self task rest
      · exact .refl _
  | selected worker =>
      subst hphase
      exact ⟨task, rest, _, _, hloop, rfl, List.sublist_cons_self task rest, fun _ _ => rfl⟩
  | assigned worker =>
      subst hphase
      exact ⟨task, rest, _, _, hloop, rfl, .refl _, fun _ e => by cases e⟩
  | persisted worker =>
      subst hphase
      exact ⟨task, rest, _, _, hloop, rfl, .refl _, fun _ e => by cases e⟩
  | running worker =>
      subst hphase
      exact ⟨task, rest, _, _, hloop, rfl, .refl _, fun _ e => by cases e⟩

theorem Orderly.advance (h : s.Orderly) {i : Nat} (hstep : s.step env (.advance i) = some s') :
    s'.Orderly := by
  have hadv : s.advance env i = some s' := hstep
  obtain ⟨task, rest, phase, next, hloop, hloops, hsub, hselected⟩ := advance_loops hadv
  obtain ⟨others, hold, hnew⟩ := flatMap_set Loop.waiting next hloop
  rw [← hloops] at hnew
  have hnodup := hold.nodup_iff.mp h.nodup
  have hsub' := (hsub.map Task.key).append_right others
  refine ⟨hnew.nodup_iff.mpr (hnodup.sublist hsub'), fun key hkey => ?_⟩
  have hkept := hnew.mem_iff.mp hkey
  have hqueued := h.queued key (hold.mem_iff.mpr (hsub'.subset hkept))
  have htask := step_task hstep key
  generalize s'.taskStatus key = status at htask
  rw [hqueued] at htask
  cases htask with
  | unchanged => rfl
  | @assigned _ task' rest' worker _ hloop' hkey' =>
      cases hloop.symm.trans hloop'
      rw [hselected worker rfl] at hkept
      rw [Loop.waiting, List.map_cons, List.cons_append, List.nodup_cons] at hnodup
      exact absurd (hkey' ▸ hkept) hnodup.1

theorem Orderly.step (hinj : ∀ jobId, Function.Injective (env.newV5 jobId)) (h : s.Orderly)
    {e : Event Uuid} (hclear : Clear env s e) (hstep : s.step env e = some s') : s'.Orderly := by
  cases e with
  | submit jobId dag order stagesOrder => exact h.submit hinj hstep
  | register info =>
      cases hstep
      exact ⟨h.nodup, h.queued⟩
  | heartbeat message now =>
      cases hstep
      exact ⟨h.nodup, h.queued⟩
  | collect now =>
      cases hstep
      exact ⟨h.nodup, h.queued⟩
  | snapshot order => exact h.snapshot hinj hclear hstep
  | advance i => exact h.advance hstep
  | complete result =>
      have htask := fun key => step_task hstep key
      cases hstep
      refine ⟨h.nodup, fun key hkey => ?_⟩
      have hstatus := htask key
      rw [h.queued key hkey] at hstatus
      generalize taskStatus _ key = status at hstatus
      cases hstatus with
      | unchanged => rfl
      | reported hkey' => exact absurd hkey (hkey' ▸ hclear.1)

/-! ### Counting dispatches -/

/-- Whether the task is queued, as a number. -/
def queuedNow (s : System Uuid) (key : Uuid × Uuid) : Nat :=
  if s.taskStatus key = some .queued then 1 else 0

/-- How many steps of a run turn the task into a queued one. -/
def timesQueued (env : MasterEnv Uuid) (key : Uuid × Uuid) : System Uuid → List (Event Uuid) → Nat
  | _, [] => 0
  | s, e :: events =>
      match s.step env e with
      | none => 0
      | some s' => (s'.queuedNow key - s.queuedNow key) + timesQueued env key s' events

/-- The times the task has been sent or can still be sent before it is queued
again. -/
def sendable (s : System Uuid) (key : Uuid × Uuid) : Nat :=
  s.sent.count key + s.inFlight.count key + s.queuedNow key

theorem inFlight_append (master : Master Uuid) (spawned : Nat) (tasks : List (Task Uuid)) :
    inFlight { s with master, spawned, loops := s.loops ++ [⟨tasks, .idle⟩] } = s.inFlight := by
  simp [inFlight, Loop.inFlight]

/-- The section about to be taken assigns the task. -/
def Assigns (s : System Uuid) (i : Nat) (key : Uuid × Uuid) : Prop :=
  ∃ task rest worker, s.loops[i]? = some ⟨task :: rest, .selected worker⟩ ∧ task.key = key

theorem Orderly.queued_of_assigns (h : s.Orderly) {i : Nat} {key : Uuid × Uuid}
    (hassigns : s.Assigns i key) : s.taskStatus key = some .queued := by
  obtain ⟨task, rest, worker, hloop, rfl⟩ := hassigns
  obtain ⟨others, hold, -⟩ := flatMap_set Loop.waiting ⟨rest, .idle⟩ hloop
  exact h.queued _ (hold.mem_iff.mpr (List.mem_append_left _ List.mem_cons_self))

/-- A section that does not assign the task leaves its status alone. -/
theorem taskStatus_advance {i : Nat} (hstep : s.step env (.advance i) = some s')
    {key : Uuid × Uuid} (hassigns : ¬ s.Assigns i key) :
    s'.taskStatus key = s.taskStatus key := by
  have htask := step_task hstep key
  generalize s.taskStatus key = old at htask
  generalize s'.taskStatus key = new at htask
  cases htask with
  | unchanged => rfl
  | assigned hloop hkey => exact absurd ⟨_, _, _, hloop, hkey⟩ hassigns

theorem taskStatus_assign {i : Nat} (hstep : s.step env (.advance i) = some s')
    {key : Uuid × Uuid} (hassigns : s.Assigns i key) (hjob : s.job key.1 ≠ none) :
    ∃ worker, s'.taskStatus key = some (.assigned worker) := by
  obtain ⟨task, rest, worker, hloop, rfl⟩ := hassigns
  obtain ⟨task', rest', phase, hloop', hphase⟩ := advance_cases hstep
  cases hloop.symm.trans hloop'
  subst hphase
  obtain ⟨job, hjob⟩ := Option.ne_none_iff_exists'.mp hjob
  refine ⟨worker, ?_⟩
  have hlookup := Master.assignTask_lookup_self (m := s.master) task worker
  rw [show s.master.jobs.lookup task.jobId = some job from hjob, Option.map_some] at hlookup
  exact Option.bind_eq_some_iff.mpr ⟨_, hlookup, AList.lookup_insert _⟩

/-- A section moves a task between the loops and the workers, and adds one only
when it assigns it. -/
theorem sent_inFlight_advance {i : Nat} (hstep : s.step env (.advance i) = some s')
    (key : Uuid × Uuid) :
    s'.sent.count key + s'.inFlight.count key ≤ s.sent.count key + s.inFlight.count key + 1 ∧
      (¬ s.Assigns i key →
        s'.sent.count key + s'.inFlight.count key ≤ s.sent.count key + s.inFlight.count key) := by
  obtain ⟨task, rest, phase, hloop, hphase⟩ := advance_cases hstep
  have hcount : ∀ next, (((s.loops.set i next).flatMap Loop.inFlight).map Task.key).count key +
      ((Loop.inFlight ⟨task :: rest, phase⟩).map Task.key).count key =
        s.inFlight.count key + ((Loop.inFlight next).map Task.key).count key := by
    intro next
    obtain ⟨others, hold, hnew⟩ := flatMap_set Loop.inFlight next hloop
    rw [inFlight, hold.count_eq, hnew.count_eq, List.count_append, List.count_append]
    omega
  have hone : [task.key].count key ≤ 1 := List.count_le_length
  have hflight : ∀ phase, (Loop.inFlight ⟨task :: rest, phase⟩).map Task.key =
      match phase with
      | .idle => []
      | .selected _ => []
      | _ => [task.key] := by
    intro phase
    cases phase <;> rfl
  cases phase with
  | idle =>
      obtain ⟨next, _, hnext, rfl⟩ := hphase
      have hc := hcount next
      have hnil : next.inFlight = [] := by rcases hnext with rfl | ⟨w, -, rfl⟩ <;> rfl
      rw [hnil, hflight] at hc
      simp only [sent, inFlight, List.map_nil, List.count_nil] at hc ⊢
      omega
  | selected worker =>
      have hc := hcount ⟨task :: rest, .assigned worker⟩
      subst hphase
      rw [hflight, hflight] at hc
      simp only [List.count_nil] at hc
      refine ⟨?_, fun hne => ?_⟩
      · simp only [sent, inFlight] at hc ⊢
        omega
      · have hzero : [task.key].count key = 0 := by
          rw [List.count_eq_zero, List.mem_singleton]
          exact fun e => hne ⟨task, rest, worker, hloop, e.symm⟩
        simp only [sent, inFlight] at hc ⊢
        omega
  | assigned worker =>
      have hc := hcount ⟨task :: rest, .persisted worker⟩
      subst hphase
      rw [hflight, hflight] at hc
      simp only [sent, inFlight] at hc ⊢
      omega
  | persisted worker =>
      have hc := hcount ⟨task :: rest, .running worker⟩
      subst hphase
      rw [hflight, hflight] at hc
      simp only [sent, inFlight] at hc ⊢
      omega
  | running worker =>
      have hc := hcount ⟨rest, .idle⟩
      subst hphase
      rw [hflight] at hc
      have hsent : ((((s.master.registry.getWorker worker).map fun info => (task, info)).toList).map
          fun d => d.1.key).count key ≤ [task.key].count key := by
        cases s.master.registry.getWorker worker <;> simp
      simp only [sent, inFlight, Loop.inFlight, List.map_nil, List.count_nil, List.map_append,
        List.count_append] at hc ⊢
      omega

/-- The sections of a loop move a task from queued to assigned to sent. -/
theorem sendable_advance (h : s.Orderly) {i : Nat} (hstep : s.step env (.advance i) = some s')
    (key : Uuid × Uuid) : s'.sendable key ≤ s.sendable key := by
  have hflight := sent_inFlight_advance hstep key
  unfold sendable
  by_cases hassigns : s.Assigns i key
  · have hqueued := h.queued_of_assigns hassigns
    obtain ⟨worker, hassigned⟩ :=
      taskStatus_assign hstep hassigns (job_ne_none_of_taskStatus hqueued)
    have hbefore : s.queuedNow key = 1 := if_pos hqueued
    have hafter : s'.queuedNow key = 0 := if_neg (by simp [hassigned])
    omega
  · have hstatus := taskStatus_advance hstep hassigns
    have hsame : s'.queuedNow key = s.queuedNow key := by rw [queuedNow, queuedNow, hstatus]
    have hle := hflight.2 hassigns
    omega

theorem sendable_step (h : s.Orderly) {e : Event Uuid} (hstep : s.step env e = some s')
    (key : Uuid × Uuid) :
    s'.sendable key ≤ s.sendable key + (s'.queuedNow key - s.queuedNow key) := by
  cases e with
  | advance i => exact (sendable_advance h hstep key).trans (Nat.le_add_right _ _)
  | submit jobId dag order stagesOrder =>
      have hsame : s'.sent = s.sent ∧ s'.inFlight = s.inFlight := by
        obtain ⟨-, ⟨_, store, -, rfl⟩ | ⟨tasks, store, jobs, rfl, rfl, -, rfl⟩⟩ :=
          submit_cases hstep
        · exact ⟨rfl, rfl⟩
        · exact ⟨rfl, inFlight_append _ _ _⟩
      unfold sendable
      rw [hsame.1, hsame.2]
      omega
  | snapshot order =>
      obtain rfl := snapshot_cases hstep
      unfold sendable
      rw [inFlight_append]
      simp only [sent]
      omega
  | _ =>
      cases hstep
      simp only [sendable, sent, inFlight]
      omega

theorem sendable_run (hinj : ∀ jobId, Function.Injective (env.newV5 jobId)) (h : s.Orderly)
    {events : List (Event Uuid)} (hclear : Along (step env) (Clear env) s events)
    (hrun : run (step env) s events = some s') (key : Uuid × Uuid) :
    s'.sendable key ≤ s.sendable key + timesQueued env key s events := by
  induction events generalizing s with
  | nil =>
      cases hrun
      exact Nat.le_refl _
  | cons e events ih =>
      simp only [run_cons, Option.bind_eq_some_iff] at hrun
      obtain ⟨s₁, hs₁, hrest⟩ := hrun
      have hrec := ih (h.step hinj hclear.1 hs₁) (hclear.2 s₁ hs₁) hrest
      have hone := sendable_step h hs₁ key
      simp only [timesQueued, hs₁]
      omega

/-- Tasks that have ended stay so. -/
def EndedKept (s s' : System Uuid) : Prop :=
  ∀ key status, s.taskStatus key = some status → status.isOpen = false →
    ∃ status', s'.taskStatus key = some status' ∧ status'.isOpen = false

theorem Orderly.endedKept (h : s.Orderly) {e : Event Uuid} (hclear : Clear env s e)
    (hstep : s.step env e = some s') : EndedKept s s' := by
  intro key status hstatus hended
  have htask := step_task hstep key
  generalize s'.taskStatus key = new at htask ⊢
  rw [hstatus] at htask
  cases htask with
  | unchanged => exact ⟨status, rfl, hended⟩
  | assigned hloop hkey =>
      have hqueued := h.queued_of_assigns ⟨_, _, _, hloop, hkey⟩
      rw [hstatus, Option.some.injEq] at hqueued
      rw [hqueued] at hended
      cases hended
  | @reported result _ hkey =>
      subst hkey
      refine ⟨_, rfl, Bool.eq_false_iff.mpr fun hopen => ?_⟩
      rw [hclear.2 status hstatus hopen] at hended
      cases hended

/-- In a run whose snapshots repeat no waiting task and whose results reopen
none: a task is assigned only while it is queued, it is sent at most once for
each time it was queued, and a completed task is not assigned again. -/
theorem dispatch_once (hinj : ∀ jobId, Function.Injective (env.newV5 jobId))
    (hloops : s.loops = []) (hsent : s.dispatched = []) {events : List (Event Uuid)}
    (hclear : Along (step env) (Clear env) s events)
    (hrun : run (step env) s events = some s') :
    (∀ i key, s'.Assigns i key → s'.taskStatus key = some .queued) ∧
      (∀ key, s'.timesSent key ≤ s.queuedNow key + timesQueued env key s events) ∧
      ∀ before stretch after s₁ s₂ key worker, events = before ++ stretch ++ after →
        run (step env) s before = some s₁ → run (step env) s₁ stretch = some s₂ →
        s₁.taskStatus key = some .completed → s₂.taskStatus key ≠ some (.assigned worker) := by
  have horderly : s.Orderly := ⟨by simp [waiting, hloops], by simp [waiting, hloops]⟩
  have hinv : ∀ s e s', Orderly s → Clear env s e → s.step env e = some s' → Orderly s' :=
    fun s e s' h hclear hstep => h.step hinj hclear hstep
  refine ⟨fun i key hassigns => ?_, fun key => ?_, ?_⟩
  · exact (run_invariant hinv horderly hclear hrun).queued_of_assigns hassigns
  · have hle := sendable_run hinj horderly hclear hrun key
    have hstart : s.sendable key = s.queuedNow key := by
      simp [sendable, sent, inFlight, hsent, hloops]
    rw [hstart] at hle
    unfold sendable at hle
    unfold timesSent
    omega
  · intro before stretch after s₁ s₂ key worker hevents hbefore hstretch hdone hassigned
    subst hevents
    rw [List.append_assoc] at hclear
    have hsplit := along_append hclear hbefore
    have hrest := along_append hsplit.2 hstretch
    have hkept : EndedKept s₁ s₂ := by
      refine run_relation (I := Orderly) (fun s key status h hended => ⟨status, h, hended⟩) ?_ hinv
        (fun s e s' h hclear hstep => h.endedKept hclear hstep)
        (run_invariant hinv horderly hsplit.1 hbefore) hrest.1 hstretch
      intro s t u hst htu key status h hended
      obtain ⟨status', h', hended'⟩ := hst key status h hended
      exact htu key status' h' hended'
    obtain ⟨status, hstatus, hended⟩ := hkept key .completed hdone rfl
    cases hstatus.symm.trans hassigned
    cases hended

/-- A submission whose loop sends its task before the spawned pass looks. -/
def sequentialRun : List (Event Path) :=
  [registration, readSubmission ["job"] 1, .advance 0, .advance 0, .advance 0, .advance 0,
    .advance 0, .snapshot snapshotOrder, .complete (readResult ["job"] ["0-0", "job"] .completed)]

theorem dispatch_once_sequentialRun :
    ∃ s', run (step pathEnv) {} sequentialRun = some s' ∧
      (∀ i key, s'.Assigns i key → s'.taskStatus key = some .queued) ∧
      (∀ key, s'.timesSent key ≤
        queuedNow {} key + timesQueued pathEnv key {} sequentialRun) ∧
      ∀ before stretch after s₁ s₂ key worker, sequentialRun = before ++ stretch ++ after →
        run (step pathEnv) {} before = some s₁ → run (step pathEnv) s₁ stretch = some s₂ →
        s₁.taskStatus key = some .completed → s₂.taskStatus key ≠ some (.assigned worker) := by
  have hsome : (run (step pathEnv) {} sequentialRun).isSome := by decide
  obtain ⟨s', hrun⟩ := Option.isSome_iff_exists.mp hsome
  exact ⟨s', hrun, dispatch_once pathEnv_newV5_injective rfl rfl (by decide) hrun⟩

/-- The same with the snapshot taken before the loop has assigned the task: the
pass sends it again. -/
def overlappingRun : List (Event Path) :=
  [registration, readSubmission ["job"] 1, .snapshot snapshotOrder, .advance 0, .advance 0,
    .advance 0, .advance 0, .advance 0, .complete (readResult ["job"] ["0-0", "job"] .completed),
    .advance 1, .advance 1, .advance 1, .advance 1, .advance 1]

theorem completed_task_dispatched_again :
    ¬ ∀ (events : List (Event Path)) (s' : System Path),
      run (step pathEnv) {} events = some s' →
        (∀ i key, s'.Assigns i key → s'.taskStatus key = some .queued) ∧
        (∀ key, s'.timesSent key ≤ queuedNow {} key + timesQueued pathEnv key {} events) ∧
        ∀ before stretch after s₁ s₂ key worker, events = before ++ stretch ++ after →
          run (step pathEnv) {} before = some s₁ → run (step pathEnv) s₁ stretch = some s₂ →
          s₁.taskStatus key = some .completed → s₂.taskStatus key ≠ some (.assigned worker) := by
  intro h
  have hcount : (run (step pathEnv) {} overlappingRun).map
      (fun s => s.timesSent (["job"], ["0-0", "job"])) = some 2 := by decide
  have hqueued : queuedNow {} (["job"], ["0-0", "job"]) +
      timesQueued pathEnv (["job"], ["0-0", "job"]) {} overlappingRun = 1 := by decide
  obtain ⟨s', hrun, hsent⟩ := Option.map_eq_some_iff.mp hcount
  have hle := (h overlappingRun s' hrun).2.1 (["job"], ["0-0", "job"])
  omega

end System
end ProcessingEngine

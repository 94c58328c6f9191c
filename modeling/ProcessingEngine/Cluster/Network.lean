import ProcessingEngine.Master.Dispatch
import ProcessingEngine.Worker.Remaining
import ProcessingEngine.Worker.Transparent

/-!
# The master and its workers

The whole of an installation on one data directory: a master, the executors of
its workers, and the messages between them.  `schedule_task` posts a task to a
worker, which is a call of `execute_task` there, and a call that has returned
posts its result to the master.  Messages arrive in any order, each at most once,
and may be lost.  Which process listens on the address of a worker is up to the
network.
-/

namespace ProcessingEngine

open Lib

structure Cluster (F Uuid : Type) [DecidableEq Uuid] where
  system : System Uuid
  workers : List (ExecutorState F Uuid)
  files : Files
  /-- The numbers of the dispatches that have reached a worker. -/
  delivered : List Nat := []
  /-- The calls whose results have reached the master. -/
  reported : List (Nat × Nat) := []

/-- A call has the number of its worker and its own there. -/
inductive ClusterEvent (Uuid : Type) where
  | master (e : Event Uuid)
  | deliver (j w : Nat) (attempts : Nat → Attempt)
  | work (w i : Nat)
  | drop (w i : Nat)
  | report (w i : Nat)

variable {F Uuid : Type} [DecidableEq Uuid]

namespace Cluster

/-- The workers have `maxParallelTasks` slots each. -/
def new (master : Master Uuid) (slots : List Nat) (files : Files) : Cluster F Uuid where
  system := { master }
  workers := slots.map .new
  files

def call (c : Cluster F Uuid) (w i : Nat) : Option (Call F Uuid) :=
  c.workers[w]?.bind fun worker => worker.calls[i]?

theorem call_new (master : Master Uuid) (slots : List Nat) (files : Files) (w i : Nat) :
    (new master slots files : Cluster F Uuid).call w i = none := by
  unfold call new
  dsimp only
  rw [List.getElem?_map]
  cases slots[w]? <;> rfl

/-- Replace the executor of a worker. -/
def setWorker (c : Cluster F Uuid) (w : Nat) (worker : ExecutorState F Uuid) : Cluster F Uuid :=
  { c with workers := c.workers.set w worker }

def step [BEq F] (env : MasterEnv Uuid) (ex : Executor F Uuid) (c : Cluster F Uuid) :
    ClusterEvent Uuid → Option (Cluster F Uuid)
  | .master (.complete _) => none
  | .master e => (c.system.step env e).map fun system => { c with system }
  | .deliver j w attempts => do
      let (task, _) ← c.system.dispatched[j]?
      let worker ← c.workers[w]?
      if j ∈ c.delivered then none
      else some { c.setWorker w (worker.call task attempts) with delivered := j :: c.delivered }
  | .work w i => do
      let worker ← c.workers[w]?
      let (worker, files) ← worker.advance ex c.files i
      return { c.setWorker w worker with files }
  | .drop w i => do
      let worker ← c.workers[w]?
      let worker ← worker.drop i
      return c.setWorker w worker
  | .report w i => do
      let call ← c.call w i
      match call.phase with
      | .returned execution =>
          if (w, i) ∈ c.reported then none
          else
            let system ← c.system.step env (.complete execution.result)
            return { c with system, reported := (w, i) :: c.reported }
      | _ => none

/-! ### What an event does -/

/-- The ways in which an event can change a cluster. -/
inductive Moved [BEq F] (env : MasterEnv Uuid) (ex : Executor F Uuid) (c : Cluster F Uuid) :
    Cluster F Uuid → Prop where
  | served {e system} (hevent : ∀ result, e ≠ .complete result)
      (hstep : c.system.step env e = some system) : Moved env ex c { c with system }
  | delivered {j w task info worker} (attempts : Nat → Attempt)
      (hsent : c.system.dispatched[j]? = some (task, info)) (hworker : c.workers[w]? = some worker)
      (hnew : j ∉ c.delivered) :
      Moved env ex c
        { c.setWorker w (worker.call task attempts) with delivered := j :: c.delivered }
  | worked {w i worker worker' files} (hworker : c.workers[w]? = some worker)
      (hadvance : worker.advance ex c.files i = some (worker', files)) :
      Moved env ex c { c.setWorker w worker' with files }
  | dropped {w i worker worker'} (hworker : c.workers[w]? = some worker)
      (hdrop : worker.drop i = some worker') : Moved env ex c (c.setWorker w worker')
  | reported {w i call execution system} (hcall : c.call w i = some call)
      (hphase : call.phase = .returned execution) (hnew : (w, i) ∉ c.reported)
      (hstep : c.system.step env (.complete execution.result) = some system) :
      Moved env ex c { c with system, reported := (w, i) :: c.reported }

variable [BEq F] {env : MasterEnv Uuid} {ex : Executor F Uuid} {c c' : Cluster F Uuid}

theorem step_master {e : Event Uuid} (h : ∀ result, e ≠ .complete result) :
    c.step env ex (.master e) = (c.system.step env e).map fun system => { c with system } := by
  cases e with
  | complete result => exact absurd rfl (h result)
  | _ => rfl

theorem step_moved {e : ClusterEvent Uuid} (h : c.step env ex e = some c') : Moved env ex c c' := by
  cases e with
  | master e =>
      cases e with
      | complete result => cases h
      | _ =>
          rw [step_master (fun _ hresult => by cases hresult)] at h
          obtain ⟨system, hstep, rfl⟩ := Option.map_eq_some_iff.mp h
          exact .served (fun _ hresult => by cases hresult) hstep
  | deliver j w attempts =>
      simp only [step, Option.bind_eq_bind, Option.bind_eq_some_iff] at h
      obtain ⟨⟨task, info⟩, hsent, worker, hworker, h⟩ := h
      split_ifs at h with hnew
      cases h
      exact .delivered attempts hsent hworker hnew
  | work w i =>
      simp only [step, Option.bind_eq_bind, Option.bind_eq_some_iff, Option.pure_def] at h
      obtain ⟨worker, hworker, ⟨worker', files⟩, hadvance, h⟩ := h
      cases h
      exact .worked hworker hadvance
  | drop w i =>
      simp only [step, Option.bind_eq_bind, Option.bind_eq_some_iff, Option.pure_def] at h
      obtain ⟨worker, hworker, worker', hdrop, h⟩ := h
      cases h
      exact .dropped hworker hdrop
  | report w i =>
      simp only [step, Option.bind_eq_bind, Option.bind_eq_some_iff, Option.pure_def] at h
      obtain ⟨call, hcall, h⟩ := h
      split at h
      · next execution hphase =>
          split_ifs at h with hnew
          obtain ⟨system, hstep, h⟩ := Option.bind_eq_some_iff.mp h
          cases h
          exact .reported hcall hphase hnew hstep
      · cases h

omit [BEq F] in
/-- The calls after a worker has changed. -/
theorem call_setWorker {w : Nat} {worker worker' : ExecutorState F Uuid}
    (hworker : c.workers[w]? = some worker) (v i : Nat) :
    (c.setWorker w worker').call v i = if v = w then worker'.calls[i]? else c.call v i := by
  unfold call setWorker
  dsimp only
  by_cases hv : v = w
  · subst hv
    rw [if_pos rfl, List.getElem?_set_self (List.getElem?_eq_some_iff.mp hworker).1]
    rfl
  · rw [if_neg hv, List.getElem?_set_ne (Ne.symm hv)]

omit [BEq F] in
theorem call_of_worker {w i : Nat} {worker : ExecutorState F Uuid}
    (hworker : c.workers[w]? = some worker) : c.call w i = worker.calls[i]? := by
  unfold call
  rw [hworker]
  rfl

/-- At most one call changes with an event: the calls stay, or a new one comes for a
task that was sent, or one takes a step or is dropped. -/
theorem Moved.position (h : Moved env ex c c') :
    (c'.call = c.call ∧ c'.files = c.files ∧ c'.delivered = c.delivered) ∨
    (∃ w i j task info attempts, c.call w i = none ∧ c'.call w i = some { task, attempts } ∧
      (∀ v k, (v, k) ≠ (w, i) → c'.call v k = c.call v k) ∧
      c.system.dispatched[j]? = some (task, info) ∧ j ∉ c.delivered ∧
      c'.delivered = j :: c.delivered ∧ c'.files = c.files ∧ c'.system = c.system) ∨
    ∃ w i call call', c.call w i = some call ∧ c'.call w i = some call' ∧
      (∀ v k, (v, k) ≠ (w, i) → c'.call v k = c.call v k) ∧
      c'.delivered = c.delivered ∧ c'.system = c.system ∧
      ((∃ shared shared', Call.Step ex i call shared c.files call' shared' c'.files) ∨
        (∃ shared shared', call.drop i shared = some (call', shared')) ∧ c'.files = c.files) := by
  have hset : ∀ {w i : Nat} {worker worker' : ExecutorState F Uuid} {moved' : Call F Uuid},
      c.workers[w]? = some worker → worker'.calls = worker.calls.set i moved' →
      (worker.calls[i]?).isSome →
      (c.setWorker w worker').call w i = some moved' ∧
        ∀ v k, (v, k) ≠ (w, i) → (c.setWorker w worker').call v k = c.call v k := by
    intro w i worker worker' moved' hworker hcalls hsome
    obtain ⟨call, hcall⟩ := Option.isSome_iff_exists.mp hsome
    refine ⟨?_, fun v k hne => ?_⟩
    · rw [call_setWorker hworker, if_pos rfl, hcalls]
      exact List.getElem?_set_self (List.getElem?_eq_some_iff.mp hcall).1
    · rw [call_setWorker hworker]
      split_ifs with hv
      · subst hv
        rw [hcalls, call_of_worker hworker]
        exact List.getElem?_set_ne fun hk => hne (by rw [hk])
      · rfl
  cases h with
  | served hevent hstep => exact Or.inl ⟨rfl, rfl, rfl⟩
  | reported hcall hphase hnew hstep => exact Or.inl ⟨rfl, rfl, rfl⟩
  | @delivered j w task info worker attempts hsent hworker hnew =>
      refine Or.inr (Or.inl ⟨w, worker.calls.length, j, task, info, attempts, ?_, ?_, ?_, hsent,
        hnew, rfl, rfl, rfl⟩)
      · rw [call_of_worker hworker]
        exact List.getElem?_eq_none (Nat.le_refl _)
      · show (c.setWorker w (worker.call task attempts)).call w _ = _
        rw [call_setWorker hworker, if_pos rfl]
        exact List.getElem?_concat_length
      · intro v k hne
        show (c.setWorker w (worker.call task attempts)).call v k = _
        rw [call_setWorker hworker]
        split_ifs with hv
        · subst hv
          rw [call_of_worker hworker]
          show (worker.calls ++ [_])[k]? = _
          rcases Nat.lt_trichotomy k worker.calls.length with hk | hk | hk
          · exact List.getElem?_append_left hk
          · exact absurd (by rw [hk]) hne
          · rw [List.getElem?_eq_none (by rw [List.length_append, List.length_singleton]; omega),
              List.getElem?_eq_none (by omega)]
        · rfl
  | @worked w i worker worker' files hworker hadvance =>
      obtain ⟨call, call', hcall, hcalls, hstep⟩ := ExecutorState.advance_cases hadvance
      obtain ⟨hself, hothers⟩ := hset hworker hcalls (by rw [hcall]; rfl)
      exact Or.inr (Or.inr ⟨w, i, call, call', (call_of_worker hworker).trans hcall, hself, hothers,
        rfl, rfl, Or.inl ⟨_, _, hstep⟩⟩)
  | @dropped w i worker worker' hworker hdrop =>
      obtain ⟨call, call', hcall, hcalls, hdrop⟩ := ExecutorState.drop_cases hdrop
      obtain ⟨hself, hothers⟩ := hset hworker hcalls (by rw [hcall]; rfl)
      exact Or.inr (Or.inr ⟨w, i, call, call', (call_of_worker hworker).trans hcall, hself, hothers,
        rfl, rfl, Or.inr ⟨⟨_, _, hdrop⟩, rfl⟩⟩)

/-- A call after an event is one before it, or a new one for a task that was sent,
or it has taken a step, or it was dropped. -/
theorem Moved.call_cases (h : Moved env ex c c') {w i : Nat} {call' : Call F Uuid}
    (hcall' : c'.call w i = some call') :
    c.call w i = some call' ∨
      (∃ task info attempts, (task, info) ∈ c.system.dispatched ∧ call' = { task, attempts }) ∨
      ∃ call, c.call w i = some call ∧
        ((∃ shared shared', Call.Step ex i call shared c.files call' shared' c'.files) ∨
          ∃ shared shared', call.drop i shared = some (call', shared')) := by
  rcases h.position with ⟨hcalls, -⟩ |
    ⟨v, k, j, task, info, attempts, -, hnew, hothers, hsent, -⟩ |
    ⟨v, k, call, moved, hcall, hmoved, hothers, -, -, hstep⟩
  · exact Or.inl (hcalls ▸ hcall')
  · by_cases heq : (w, i) = (v, k)
    · cases heq
      rw [hnew] at hcall'
      cases hcall'
      exact Or.inr (Or.inl ⟨task, info, attempts, List.mem_of_getElem? hsent, rfl⟩)
    · exact Or.inl ((hothers w i heq).symm.trans hcall')
  · by_cases heq : (w, i) = (v, k)
    · cases heq
      rw [hmoved] at hcall'
      cases hcall'
      exact Or.inr (Or.inr ⟨call, hcall, hstep.imp_right And.left⟩)
    · exact Or.inl ((hothers w i heq).symm.trans hcall')

/-- A call keeps its place and its task, and stays as it is when it has returned. -/
theorem Moved.call_kept (h : Moved env ex c c') {w i : Nat} {call : Call F Uuid}
    (hcall : c.call w i = some call) :
    ∃ call', c'.call w i = some call' ∧ call'.task = call.task ∧
      ∀ execution, call.phase = .returned execution → call' = call := by
  rcases h.position with ⟨hcalls, -⟩ |
    ⟨v, k, j, task, info, attempts, hnone, -, hothers, -⟩ |
    ⟨v, k, before, moved, hbefore, hmoved, hothers, -, -, hstep⟩
  · exact ⟨call, hcalls ▸ hcall, rfl, fun _ _ => rfl⟩
  · have hne : (w, i) ≠ (v, k) := by
      intro heq
      cases heq
      rw [hnone] at hcall
      cases hcall
    exact ⟨call, (hothers w i hne).trans hcall, rfl, fun _ _ => rfl⟩
  · by_cases heq : (w, i) = (v, k)
    · cases heq
      obtain rfl : call = before := Option.some.inj (hcall.symm.trans hbefore)
      refine ⟨moved, hmoved, ?_, fun execution hreturned => ?_⟩
      · rcases hstep with ⟨_, _, hstep⟩ | ⟨⟨_, _, hdrop⟩, -⟩
        · exact hstep.task.1
        · exact (Call.drop_task hdrop).1
      · rcases hstep with ⟨_, _, hstep⟩ | ⟨⟨_, _, hdrop⟩, -⟩
        · exact absurd hreturned hstep.not_returned
        · rcases Call.drop_cases hdrop with ⟨hwaiting, -⟩ | ⟨prog, hexecuting, -⟩
          · rw [hreturned] at hwaiting
            cases hwaiting
          · rw [hreturned] at hexecuting
            cases hexecuting
    · exact ⟨call, (hothers w i heq).trans hcall, rfl, fun _ _ => rfl⟩

theorem Moved.returned (h : Moved env ex c c') {w i : Nat} {call : Call F Uuid}
    {execution : Execution F Uuid} (hcall : c.call w i = some call)
    (hphase : call.phase = .returned execution) : c'.call w i = some call := by
  obtain ⟨call', hcall', -, hsame⟩ := h.call_kept hcall
  rw [hcall', hsame execution hphase]

/-! ### A job of two tasks on one worker -/

def nameEnv : MasterEnv String where
  newV5 jobId name := name ++ "@" ++ jobId
  serde := Serde.tallied String
  heartbeatIntervalMs := 1000

/-- An executor that spills every record. -/
def named : Executor Int String where
  host := Executor.spilling.host
  config := Executor.spilling.config
  uuidText text := text

theorem nameEnv_newV5_injective (jobId : String) : Function.Injective (nameEnv.newV5 jobId) := by
  intro name name' h
  have h : name ++ "@" ++ jobId = name' ++ "@" ++ jobId := h
  rw [← String.toList_inj] at h ⊢
  simpa using h

/-- The tasks take turns in two slots. -/
def chainRun : List (ClusterEvent String) :=
  [.master (.register ⟨"w", "w:1", .active, 0, {}⟩),
    .master (.submit "job" Executor.chainDag .insertion .insertion)] ++
  List.replicate 10 (.master (.advance 0)) ++
  [.deliver 0 0 fun _ => .plain, .deliver 1 0 fun _ => .plain] ++
  (List.replicate 18 [.work 0 0, .work 0 1]).flatten ++ [.report 0 1, .report 0 0]

end Cluster
end ProcessingEngine

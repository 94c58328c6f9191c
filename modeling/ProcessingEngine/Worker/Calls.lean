import ProcessingEngine.Lib.Permits
import ProcessingEngine.Worker.Executor

/-!
# Concurrent calls of `execute_task`

`worker/executor.rs`: every task that reaches a worker is a call of
`execute_task`.  A call waits for a permit, makes its attempts on a blocking
thread, counts each, and gives the permit back when it returns.  Between two
steps of a call those of others are taken, and other processes change the files.
A caller that hangs up drops its call where it is awaited: the permit comes back,
and an attempt that has begun goes on without anyone waiting for it.
-/

namespace ProcessingEngine

open Lib

/-- How far a call of `execute_task` has come. -/
inductive CallPhase (F Uuid : Type) where
  | waiting
  /-- At the top of the loop. -/
  | starting
  | executing (prog : Thread (Execution F Uuid))
  | executed (execution : Execution F Uuid)
  /-- The completion is counted and its records are not. -/
  | counted (execution : Execution F Uuid)
  | ended (execution : Execution F Uuid)
  /-- The active task is cleared and the permit is held. -/
  | cleared (execution : Execution F Uuid)
  | returned (execution : Execution F Uuid)
  | dropped
  | orphaned (prog : Thread (Execution F Uuid))

def CallPhase.returned? {F Uuid : Type} : CallPhase F Uuid → Option (Execution F Uuid)
  | .returned execution => some execution
  | _ => none

structure Call (F Uuid : Type) where
  task : Task Uuid
  /-- What the attempts will meet, by the number of those that are left. -/
  attempts : Nat → Attempt
  /-- The attempts that have begun. -/
  attempt : Nat := 0
  phase : CallPhase F Uuid := .waiting

/-- The fields of an executor that change. -/
structure Shared (Uuid : Type) where
  permits : Permits
  tasksCompleted : Nat := 0
  tasksFailed : Nat := 0
  recordsProcessed : Nat := 0
  activeTask : Option Uuid := none

structure ExecutorState (F Uuid : Type) where
  shared : Shared Uuid
  /-- In the order of their requests for a permit. -/
  calls : List (Call F Uuid) := []

variable {F Uuid : Type}

namespace Call

/-- The next step of the call number `i`. -/
def advance [BEq F] (ex : Executor F Uuid) (i : Nat) (call : Call F Uuid) (shared : Shared Uuid)
    (files : Files) : Option (Call F Uuid × Shared Uuid × Files) :=
  match call.phase with
  | .waiting =>
      if i ∈ shared.permits.holders then some ({ call with phase := .starting }, shared, files)
      else none
  | .starting =>
      let attempt := call.attempts (ex.config.taskRetryLimit - call.attempt)
      some ({ call with
          attempt := call.attempt + 1
          phase := .executing (ex.executeSync attempt call.task) },
        { shared with activeTask := some call.task.taskId }, files)
  | .executing (.op op next) =>
      some ({ call with phase := .executing (next (Interp.exec op files).1) }, shared,
        (Interp.exec op files).2)
  | .executing (.pure execution) =>
      some ({ call with phase := .executed execution }, shared, files)
  | .executed execution =>
      match execution.result.status with
      | .completed =>
          some ({ call with phase := .counted execution },
            { shared with tasksCompleted := shared.tasksCompleted + 1 }, files)
      | .failed _ =>
          some ({ call with
              phase := if call.attempt ≤ ex.config.taskRetryLimit then .starting
                else .ended execution },
            { shared with tasksFailed := shared.tasksFailed + 1 }, files)
      | _ => some ({ call with phase := .ended execution }, shared, files)
  | .counted execution =>
      some ({ call with phase := .ended execution },
        { shared with
          recordsProcessed := shared.recordsProcessed +
            execution.result.metrics.processedRecords }, files)
  | .ended execution =>
      some ({ call with phase := .cleared execution }, { shared with activeTask := none }, files)
  | .cleared execution =>
      some ({ call with phase := .returned execution },
        { shared with permits := shared.permits.release i }, files)
  | .orphaned (.op op next) =>
      some ({ call with phase := .orphaned (next (Interp.exec op files).1) }, shared,
        (Interp.exec op files).2)
  | _ => none

/-- The caller of the call number `i` hangs up where the call is awaited. -/
def drop (i : Nat) (call : Call F Uuid) (shared : Shared Uuid) :
    Option (Call F Uuid × Shared Uuid) :=
  match call.phase with
  | .waiting =>
      some ({ call with phase := .dropped },
        { shared with
          permits := if i ∈ shared.permits.holders then shared.permits.release i
            else shared.permits.withdraw i })
  | .executing prog =>
      some ({ call with phase := .orphaned prog },
        { shared with permits := shared.permits.release i })
  | _ => none

/-- The steps of a call by name. -/
inductive Step [BEq F] (ex : Executor F Uuid) (i : Nat) (call : Call F Uuid) (shared : Shared Uuid)
    (files : Files) : Call F Uuid → Shared Uuid → Files → Prop where
  | admitted (hphase : call.phase = .waiting) (hholder : i ∈ shared.permits.holders) :
      Step ex i call shared files { call with phase := .starting } shared files
  | began (hphase : call.phase = .starting) :
      Step ex i call shared files
        { call with
          attempt := call.attempt + 1
          phase := .executing (ex.executeSync
            (call.attempts (ex.config.taskRetryLimit - call.attempt)) call.task) }
        { shared with activeTask := some call.task.taskId } files
  | operated {op next} (hphase : call.phase = .executing (.op op next)) :
      Step ex i call shared files
        { call with phase := .executing (next (Interp.exec op files).1) } shared
        (Interp.exec op files).2
  | joined {execution} (hphase : call.phase = .executing (.pure execution)) :
      Step ex i call shared files { call with phase := .executed execution } shared files
  | completed {execution} (hphase : call.phase = .executed execution)
      (hstatus : execution.result.status = .completed) :
      Step ex i call shared files { call with phase := .counted execution }
        { shared with tasksCompleted := shared.tasksCompleted + 1 } files
  | retried {execution message} (hphase : call.phase = .executed execution)
      (hstatus : execution.result.status = .failed message)
      (hattempt : call.attempt ≤ ex.config.taskRetryLimit) :
      Step ex i call shared files { call with phase := .starting }
        { shared with tasksFailed := shared.tasksFailed + 1 } files
  | failed {execution message} (hphase : call.phase = .executed execution)
      (hstatus : execution.result.status = .failed message)
      (hattempt : ex.config.taskRetryLimit < call.attempt) :
      Step ex i call shared files { call with phase := .ended execution }
        { shared with tasksFailed := shared.tasksFailed + 1 } files
  | unended {execution} (hphase : call.phase = .executed execution)
      (hstatus : execution.result.status ≠ .completed)
      (hfailed : ∀ message, execution.result.status ≠ .failed message) :
      Step ex i call shared files { call with phase := .ended execution } shared files
  | recorded {execution} (hphase : call.phase = .counted execution) :
      Step ex i call shared files { call with phase := .ended execution }
        { shared with
          recordsProcessed := shared.recordsProcessed +
            execution.result.metrics.processedRecords } files
  | cleared {execution} (hphase : call.phase = .ended execution) :
      Step ex i call shared files { call with phase := .cleared execution }
        { shared with activeTask := none } files
  | left {execution} (hphase : call.phase = .cleared execution) :
      Step ex i call shared files { call with phase := .returned execution }
        { shared with permits := shared.permits.release i } files
  | orphanOperated {op next} (hphase : call.phase = .orphaned (.op op next)) :
      Step ex i call shared files
        { call with phase := .orphaned (next (Interp.exec op files).1) } shared
        (Interp.exec op files).2

variable [BEq F] {ex : Executor F Uuid} {i : Nat} {call call' : Call F Uuid}
  {shared shared' : Shared Uuid} {files files' : Files}

theorem advance_step (h : call.advance ex i shared files = some (call', shared', files')) :
    Step ex i call shared files call' shared' files' := by
  unfold advance at h
  split at h
  · next hphase =>
      split_ifs at h with hholder
      cases h
      exact .admitted hphase hholder
  · next hphase =>
      cases h
      exact .began hphase
  · next hphase =>
      cases h
      exact .operated hphase
  · next hphase =>
      cases h
      exact .joined hphase
  · next execution hphase =>
      split at h
      · next hstatus =>
          cases h
          exact .completed hphase hstatus
      · next message hstatus =>
          cases h
          split_ifs with hattempt
          · exact .retried hphase hstatus hattempt
          · exact .failed hphase hstatus (Nat.lt_of_not_le hattempt)
      · next hcompleted hfailed =>
          cases h
          exact .unended hphase hcompleted hfailed
  · next hphase =>
      cases h
      exact .recorded hphase
  · next hphase =>
      cases h
      exact .cleared hphase
  · next hphase =>
      cases h
      exact .left hphase
  · next hphase =>
      cases h
      exact .orphanOperated hphase
  · cases h

omit [BEq F] in
theorem returned?_eq_some {phase : CallPhase F Uuid} {execution : Execution F Uuid} :
    phase.returned? = some execution ↔ phase = .returned execution := by
  cases phase <;> simp [CallPhase.returned?]

/-- The task of a call and what its attempts will meet are given with the call. -/
theorem Step.task (h : Step ex i call shared files call' shared' files') :
    call'.task = call.task ∧ call'.attempts = call.attempts := by
  cases h <;> exact ⟨rfl, rfl⟩

/-- A call that has returned takes no step. -/
theorem Step.not_returned {execution : Execution F Uuid}
    (h : Step ex i call shared files call' shared' files') :
    call.phase ≠ .returned execution := by
  intro hreturned
  cases h <;> simp_all

omit [BEq F] in
theorem drop_cases (h : call.drop i shared = some (call', shared')) :
    (call.phase = .waiting ∧ call' = { call with phase := .dropped } ∧
      shared' = { shared with
        permits := if i ∈ shared.permits.holders then shared.permits.release i
          else shared.permits.withdraw i }) ∨
    ∃ prog, call.phase = .executing prog ∧ call' = { call with phase := .orphaned prog } ∧
      shared' = { shared with permits := shared.permits.release i } := by
  unfold drop at h
  split at h
  · next hphase =>
      cases h
      exact Or.inl ⟨hphase, rfl, rfl⟩
  · next prog hphase =>
      cases h
      exact Or.inr ⟨prog, hphase, rfl, rfl⟩
  · cases h

end Call

/-- `disturb` is what other processes do to the files. -/
inductive ExecutorEvent (Uuid : Type) where
  | call (task : Task Uuid) (attempts : Nat → Attempt)
  | advance (i : Nat)
  | drop (i : Nat)
  | disturb (files : Files)

namespace ExecutorState

def new (maxParallelTasks : Nat) : ExecutorState F Uuid where
  shared := { permits := { available := max maxParallelTasks 1 } }

/-- A call arrives and asks for a permit. -/
def call (st : ExecutorState F Uuid) (task : Task Uuid) (attempts : Nat → Attempt) :
    ExecutorState F Uuid where
  shared := { st.shared with permits := st.shared.permits.acquire }
  calls := st.calls ++ [{ task, attempts }]

def advance [BEq F] (ex : Executor F Uuid) (st : ExecutorState F Uuid) (files : Files) (i : Nat) :
    Option (ExecutorState F Uuid × Files) := do
  let call ← st.calls[i]?
  let (call, shared, files) ← call.advance ex i st.shared files
  return (⟨shared, st.calls.set i call⟩, files)

def drop (st : ExecutorState F Uuid) (i : Nat) : Option (ExecutorState F Uuid) := do
  let call ← st.calls[i]?
  let (call, shared) ← call.drop i st.shared
  return ⟨shared, st.calls.set i call⟩

def step [BEq F] (ex : Executor F Uuid) (s : ExecutorState F Uuid × Files) :
    ExecutorEvent Uuid → Option (ExecutorState F Uuid × Files)
  | .call task attempts => some (s.1.call task attempts, s.2)
  | .advance i => s.1.advance ex s.2 i
  | .drop i => (s.1.drop i).map fun st => (st, s.2)
  | .disturb files => some (s.1, files)

variable [BEq F] {ex : Executor F Uuid} {st st' : ExecutorState F Uuid} {files files' : Files}
  {i : Nat}

omit [BEq F] in
/-- The calls after a new one are those before, and it. -/
theorem call_cases {task : Task Uuid} {attempts : Nat → Attempt} {c : Call F Uuid}
    (h : (st.call task attempts).calls[i]? = some c) :
    st.calls[i]? = some c ∨ i = st.calls.length ∧ c = { task, attempts } := by
  have h : (st.calls ++ [_])[i]? = some c := h
  rcases Nat.lt_trichotomy i st.calls.length with hi | hi | hi
  · rw [List.getElem?_append_left hi] at h
    exact Or.inl h
  · rw [hi, List.getElem?_concat_length] at h
    exact Or.inr ⟨hi, (Option.some.inj h).symm⟩
  · rw [List.getElem?_eq_none (by rw [List.length_append, List.length_singleton]; omega)] at h
    cases h

omit [BEq F] in
/-- The calls after one has changed are that one, and the others. -/
theorem set_cases {j : Nat} {c c' : Call F Uuid} (h : (st.calls.set i c')[j]? = some c) :
    j = i ∧ c = c' ∨ j ≠ i ∧ st.calls[j]? = some c := by
  by_cases hj : i = j
  · subst hj
    have hlt := (List.getElem?_eq_some_iff.mp h).1
    rw [List.length_set] at hlt
    rw [List.getElem?_set_self hlt] at h
    exact Or.inl ⟨rfl, (Option.some.inj h).symm⟩
  · rw [List.getElem?_set_ne hj] at h
    exact Or.inr ⟨Ne.symm hj, h⟩

theorem advance_cases (h : st.advance ex files i = some (st', files')) :
    ∃ call call', st.calls[i]? = some call ∧ st'.calls = st.calls.set i call' ∧
      Call.Step ex i call st.shared files call' st'.shared files' := by
  simp only [advance, Option.bind_eq_bind, Option.bind_eq_some_iff, Option.pure_def] at h
  obtain ⟨call, hcall, ⟨call', shared, files₁⟩, hadv, hst⟩ := h
  cases hst
  exact ⟨call, call', hcall, rfl, Call.advance_step hadv⟩

omit [BEq F] in
theorem drop_cases (h : st.drop i = some st') :
    ∃ call call', st.calls[i]? = some call ∧ st'.calls = st.calls.set i call' ∧
      call.drop i st.shared = some (call', st'.shared) := by
  simp only [drop, Option.bind_eq_bind, Option.bind_eq_some_iff, Option.pure_def] at h
  obtain ⟨call, hcall, ⟨call', shared⟩, hdrop, hst⟩ := h
  cases hst
  exact ⟨call, call', hcall, rfl, hdrop⟩

/-! ### Three calls for one slot -/

/-- A task of a job whose input may not be there. -/
def slotTask (partition : Nat) : Task Path where
  taskId := ["0-" ++ toString partition, "job"]
  jobId := ["job"]
  stageId := 0
  attempt := 0
  operator := .read "in.csv" "csv"
  operators := [.read "in.csv" "csv"]
  operatorIds := ["read"]
  incomingEdges := [[]]
  partition
  inputUri := "in.csv"
  inputFormat := "csv"
  totalPartitions := 3

/-- The second caller hangs up while it waits, and the third call gets the slot when
the first one returns. -/
def slotRun : List (ExecutorEvent Path) :=
  [.call (slotTask 0) fun _ => .plain, .call (slotTask 1) fun _ => .plain,
    .call (slotTask 2) fun _ => .plain, .drop 1] ++
  List.replicate 11 (.advance 0) ++ List.replicate 11 (.advance 2)

end ExecutorState
end ProcessingEngine

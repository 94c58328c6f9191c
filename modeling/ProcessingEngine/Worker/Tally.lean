import Mathlib.Data.List.Perm.Basic
import Mathlib.Algebra.BigOperators.Group.List.Basic
import ProcessingEngine.Master.Job
import ProcessingEngine.Worker.Slots

/-!
# What a worker counts

The counters of an executor against the attempts of its calls.  Every failed
attempt is counted once and every completed call once, with the records of its
last attempt; a call makes one attempt more than there are retries at most, and
all of them when it returns a failure (`ExecutorState.run_tallied`).
-/

namespace ProcessingEngine

open Lib

variable {F Uuid : Type}

/-- The call has come to its last result. -/
def CallPhase.outcome : CallPhase F Uuid → Option (TaskResult Uuid)
  | .ended execution => some execution.result
  | .cleared execution => some execution.result
  | .returned execution => some execution.result
  | _ => none

namespace Call

/-- The attempts that are counted as failed. -/
def failures (call : Call F Uuid) : Nat :=
  match call.phase with
  | .starting => call.attempt
  | phase =>
      if phase.outcome.any fun result => result.status.isFailed then call.attempt
      else call.attempt - 1

/-- The attempts that are counted as completed. -/
def completions (call : Call F Uuid) : Nat :=
  match call.phase with
  | .counted _ => 1
  | phase => if phase.outcome.any fun result => result.status.isCompleted then 1 else 0

/-- The records that are counted. -/
def records (call : Call F Uuid) : Nat :=
  match call.phase.outcome with
  | none => 0
  | some result => if result.status.isCompleted then result.metrics.processedRecords else 0

/-- The attempts of a call, when there are `limit` retries. -/
def Booked (limit : Nat) (call : Call F Uuid) : Prop :=
  match call.phase with
  | .waiting => call.attempt = 0
  | .dropped => call.attempt = 0
  | .starting => call.attempt ≤ limit
  | .counted execution =>
      0 < call.attempt ∧ call.attempt ≤ limit + 1 ∧ execution.result.status = .completed
  | phase =>
      0 < call.attempt ∧ call.attempt ≤ limit + 1 ∧
        ∀ result, phase.outcome = some result → result.status.isFailed → call.attempt = limit + 1

/-- An attempt of the call has begun and is not cleared. -/
def Active (call : Call F Uuid) : Prop :=
  match call.phase with
  | .starting => 0 < call.attempt
  | .executing _ => True
  | .executed _ => True
  | .counted _ => True
  | .ended _ => True
  | .orphaned _ => True
  | _ => False

end Call

namespace ExecutorState

/-- The counters of an executor are those of its calls. -/
structure Tallied (limit : Nat) (st : ExecutorState F Uuid) : Prop where
  completed : st.shared.tasksCompleted = (st.calls.map Call.completions).sum
  failed : st.shared.tasksFailed = (st.calls.map Call.failures).sum
  records : st.shared.recordsProcessed = (st.calls.map Call.records).sum
  booked : ∀ call ∈ st.calls, call.Booked limit
  active : ∀ id, st.shared.activeTask = some id →
    ∃ call ∈ st.calls, call.task.taskId = id ∧ call.Active

theorem tallied_new (limit maxParallelTasks : Nat) :
    Tallied limit (new maxParallelTasks : ExecutorState F Uuid) where
  completed := rfl
  failed := rfl
  records := rfl
  booked := by simp [new]
  active id h := by cases h

variable {limit : Nat} {st st' : ExecutorState F Uuid} {i : Nat}

theorem Tallied.call (h : Tallied limit st) (task : Task Uuid) (attempts : Nat → Attempt) :
    Tallied limit (st.call task attempts) := by
  have hsum : ∀ (f : Call F Uuid → Nat) (c : Call F Uuid), f c = 0 →
      ((st.calls ++ [c]).map f).sum = (st.calls.map f).sum := by
    intro f c hf
    rw [List.map_append, List.sum_append, List.map_singleton, List.sum_singleton, hf, Nat.add_zero]
  refine ⟨?_, ?_, ?_, fun c hc => ?_, fun id hid => ?_⟩
  · exact h.completed.trans (hsum Call.completions _ rfl).symm
  · exact h.failed.trans (hsum Call.failures _ rfl).symm
  · exact h.records.trans (hsum Call.records _ rfl).symm
  · have hc : c ∈ st.calls ++ [_] := hc
    rcases List.mem_append.mp hc with hc | hc
    · exact h.booked c hc
    · rw [List.mem_singleton.mp hc]
      rfl
  · obtain ⟨c, hc, hactive⟩ := h.active id hid
    exact ⟨c, List.mem_append_left _ hc, hactive⟩

/-- A sum over the calls when one of them changes. -/
theorem sum_map_set {α : Type} {l : List α} {a : α} (h : l[i]? = some a) (a' : α) (f : α → Nat) :
    ((l.set i a').map f).sum + f a = (l.map f).sum + f a' := by
  obtain ⟨hlt, rfl⟩ := List.getElem?_eq_some_iff.mp h
  have hnew := ((List.set_perm_cons_eraseIdx hlt a').map f).sum_eq
  have hold := ((List.getElem_cons_eraseIdx_perm hlt).map f).sum_eq
  rw [List.map_cons, List.sum_cons] at hnew hold
  omega

/-- One call moves, and the counters move with it. -/
theorem Tallied.set (h : Tallied limit st) {call call' : Call F Uuid}
    (hcall : st.calls[i]? = some call) {shared : Shared Uuid}
    (hcompleted : shared.tasksCompleted + call.completions =
      st.shared.tasksCompleted + call'.completions)
    (hfailed : shared.tasksFailed + call.failures = st.shared.tasksFailed + call'.failures)
    (hrecords : shared.recordsProcessed + call.records =
      st.shared.recordsProcessed + call'.records)
    (hbooked : call'.Booked limit) (htask : call'.task = call.task)
    (hactive : shared.activeTask = none ∨
      shared.activeTask = some call'.task.taskId ∧ call'.Active ∨
      shared.activeTask = st.shared.activeTask ∧ (call.Active → call'.Active)) :
    Tallied limit ⟨shared, st.calls.set i call'⟩ := by
  have hlt := (List.getElem?_eq_some_iff.mp hcall).1
  have hmem : call' ∈ st.calls.set i call' := List.mem_set hlt _
  refine ⟨?_, ?_, ?_, fun c hc => ?_, fun id hid => ?_⟩
  · have := sum_map_set hcall call' Call.completions
    have := h.completed
    show shared.tasksCompleted = ((st.calls.set i call').map Call.completions).sum
    omega
  · have := sum_map_set hcall call' Call.failures
    have := h.failed
    show shared.tasksFailed = ((st.calls.set i call').map Call.failures).sum
    omega
  · have := sum_map_set hcall call' Call.records
    have := h.records
    show shared.recordsProcessed = ((st.calls.set i call').map Call.records).sum
    omega
  · rcases List.mem_or_eq_of_mem_set hc with hc | rfl
    · exact h.booked c hc
    · exact hbooked
  · have hid : shared.activeTask = some id := hid
    rcases hactive with hnone | ⟨hself, hactive⟩ | ⟨hsame, hactive⟩
    · rw [hnone] at hid
      cases hid
    · rw [hself] at hid
      exact ⟨call', hmem, Option.some.inj hid, hactive⟩
    · rw [hsame] at hid
      obtain ⟨c, hc, hcid, hcactive⟩ := h.active id hid
      obtain ⟨j, hj⟩ := List.mem_iff_getElem?.mp hc
      by_cases hji : i = j
      · subst hji
        obtain rfl : call = c := Option.some.inj (hcall.symm.trans hj)
        exact ⟨call', hmem, htask ▸ hcid, hactive hcactive⟩
      · refine ⟨c, List.mem_of_getElem? (i := j) ?_, hcid, hcactive⟩
        show (st.calls.set i call')[j]? = some c
        rw [List.getElem?_set_ne hji]
        exact hj

theorem Tallied.advance [BEq F] {ex : Executor F Uuid} {files files' : Files}
    (h : Tallied ex.config.taskRetryLimit st)
    (hstep : st.advance ex files i = some (st', files')) :
    Tallied ex.config.taskRetryLimit st' := by
  obtain ⟨call, call', hcall, hcalls, hstep⟩ := advance_cases hstep
  obtain ⟨shared, calls⟩ := st'
  obtain rfl : calls = st.calls.set i call' := hcalls
  have hbooked := h.booked call (List.mem_of_getElem? hcall)
  obtain ⟨task, attempts, attempt, phase⟩ := call
  cases hstep with
  | admitted hphase hholder =>
      obtain rfl : phase = .waiting := hphase
      obtain rfl : attempt = 0 := hbooked
      exact h.set hcall rfl rfl rfl (Nat.zero_le _) rfl (Or.inr (Or.inr ⟨rfl, False.elim⟩))
  | began hphase =>
      obtain rfl : phase = .starting := hphase
      have hbooked : attempt ≤ _ := hbooked
      refine h.set hcall rfl rfl rfl ⟨?_, ?_, fun _ hnone => ?_⟩ rfl
        (Or.inr (Or.inl ⟨rfl, trivial⟩))
      · exact Nat.succ_pos attempt
      · exact Nat.succ_le_succ hbooked
      · cases hnone
  | operated hphase =>
      obtain rfl : phase = .executing _ := hphase
      exact h.set hcall rfl rfl rfl hbooked rfl (Or.inr (Or.inr ⟨rfl, fun _ => trivial⟩))
  | joined hphase =>
      obtain rfl : phase = .executing _ := hphase
      exact h.set hcall rfl rfl rfl hbooked rfl (Or.inr (Or.inr ⟨rfl, fun _ => trivial⟩))
  | completed hphase hstatus =>
      obtain rfl : phase = .executed _ := hphase
      refine h.set hcall rfl rfl rfl ⟨hbooked.1, hbooked.2.1, hstatus⟩ rfl ?_
      exact Or.inr (Or.inr ⟨rfl, fun _ => trivial⟩)
  | @retried execution message hphase hstatus hattempt =>
      obtain rfl : phase = .executed _ := hphase
      have hpos : 0 < attempt := hbooked.1
      refine h.set hcall rfl ?_ rfl hattempt rfl (Or.inr (Or.inr ⟨rfl, fun _ => hpos⟩))
      show st.shared.tasksFailed + 1 + (attempt - 1) = st.shared.tasksFailed + attempt
      omega
  | @failed execution message hphase hstatus hattempt =>
      obtain rfl : phase = .executed _ := hphase
      obtain ⟨hpos, hle, -⟩ := hbooked
      have hpos : 0 < attempt := hpos
      have hattempt : ex.config.taskRetryLimit < attempt := hattempt
      have hcompletions : (⟨task, attempts, attempt, .ended execution⟩ : Call F Uuid).completions =
          0 := by
        show (if execution.result.status.isCompleted then 1 else 0) = 0
        rw [hstatus]
        rfl
      have hfailures : (⟨task, attempts, attempt, .ended execution⟩ : Call F Uuid).failures =
          attempt := by
        show (if execution.result.status.isFailed then attempt else attempt - 1) = attempt
        rw [hstatus]
        rfl
      have hrecords : (⟨task, attempts, attempt, .ended execution⟩ : Call F Uuid).records = 0 := by
        show (if execution.result.status.isCompleted then _ else 0) = 0
        rw [hstatus]
        rfl
      refine h.set hcall ?_ ?_ ?_ ⟨hpos, hle, fun _ _ _ => ?_⟩ rfl ?_
      · rw [hcompletions]
        rfl
      · rw [hfailures]
        show st.shared.tasksFailed + 1 + (attempt - 1) = st.shared.tasksFailed + attempt
        omega
      · rw [hrecords]
        rfl
      · show attempt = _
        have hle : attempt ≤ _ := hle
        omega
      · exact Or.inr (Or.inr ⟨rfl, fun _ => trivial⟩)
  | @unended execution hphase hcompleted hfailed =>
      obtain rfl : phase = .executed _ := hphase
      have hnotCompleted : execution.result.status.isCompleted = false := by
        cases hstatus : execution.result.status <;> simp_all [TaskStatus.isCompleted]
      have hnotFailed : execution.result.status.isFailed = false := by
        cases hstatus : execution.result.status <;> simp_all [TaskStatus.isFailed]
      refine h.set hcall ?_ ?_ ?_ ⟨hbooked.1, hbooked.2.1, fun _ hsome hfailed => ?_⟩ rfl ?_
      · show _ = _ + if execution.result.status.isCompleted then 1 else 0
        rw [hnotCompleted]
        rfl
      · show _ = _ + if execution.result.status.isFailed then attempt else attempt - 1
        rw [hnotFailed]
        rfl
      · show _ = _ + if execution.result.status.isCompleted then _ else 0
        rw [hnotCompleted]
        rfl
      · obtain rfl := Option.some.inj hsome
        rw [hnotFailed] at hfailed
        cases hfailed
      · exact Or.inr (Or.inr ⟨rfl, fun _ => trivial⟩)
  | @recorded execution hphase =>
      obtain rfl : phase = .counted _ := hphase
      obtain ⟨hpos, hle, hstatus⟩ := hbooked
      refine h.set hcall ?_ ?_ ?_ ⟨hpos, hle, fun _ hsome hfailed => ?_⟩ rfl ?_
      · show _ = _ + if execution.result.status.isCompleted then 1 else 0
        rw [hstatus]
        rfl
      · show _ = _ + if execution.result.status.isFailed then attempt else attempt - 1
        rw [hstatus]
        rfl
      · show _ = _ + if execution.result.status.isCompleted then _ else 0
        rw [hstatus]
        rfl
      · obtain rfl := Option.some.inj hsome
        rw [hstatus] at hfailed
        cases hfailed
      · exact Or.inr (Or.inr ⟨rfl, fun _ => trivial⟩)
  | cleared hphase =>
      obtain rfl : phase = .ended _ := hphase
      exact h.set hcall rfl rfl rfl hbooked rfl (Or.inl rfl)
  | left hphase =>
      obtain rfl : phase = .cleared _ := hphase
      exact h.set hcall rfl rfl rfl hbooked rfl (Or.inr (Or.inr ⟨rfl, False.elim⟩))
  | orphanOperated hphase =>
      obtain rfl : phase = .orphaned _ := hphase
      exact h.set hcall rfl rfl rfl hbooked rfl (Or.inr (Or.inr ⟨rfl, fun _ => trivial⟩))

theorem Tallied.drop (h : Tallied limit st) (hstep : st.drop i = some st') :
    Tallied limit st' := by
  obtain ⟨call, call', hcall, hcalls, hdrop⟩ := drop_cases hstep
  obtain ⟨shared, calls⟩ := st'
  obtain rfl : calls = st.calls.set i call' := hcalls
  have hbooked := h.booked call (List.mem_of_getElem? hcall)
  obtain ⟨task, attempts, attempt, phase⟩ := call
  rcases Call.drop_cases hdrop with ⟨hphase, rfl, rfl⟩ | ⟨prog, hphase, rfl, rfl⟩
  · obtain rfl : phase = .waiting := hphase
    exact h.set hcall rfl rfl rfl hbooked rfl (Or.inr (Or.inr ⟨rfl, False.elim⟩))
  · obtain rfl : phase = .executing _ := hphase
    exact h.set hcall rfl rfl rfl hbooked rfl (Or.inr (Or.inr ⟨rfl, fun _ => trivial⟩))

theorem Tallied.step [BEq F] {ex : Executor F Uuid} {s s' : ExecutorState F Uuid × Files}
    (h : Tallied ex.config.taskRetryLimit s.1) {e : ExecutorEvent Uuid}
    (hstep : ExecutorState.step ex s e = some s') : Tallied ex.config.taskRetryLimit s'.1 := by
  cases e with
  | call task attempts =>
      cases hstep
      exact h.call task attempts
  | advance i => exact h.advance hstep
  | drop i =>
      obtain ⟨st, hdrop, rfl⟩ := Option.map_eq_some_iff.mp hstep
      exact h.drop hdrop
  | disturb files =>
      cases hstep
      exact h

end ExecutorState
end ProcessingEngine

import ProcessingEngine.Worker.Tally

/-!
# Every call ends

A call takes finitely many steps: its attempts are bounded, and so is each of
them.  The earliest call that is not over always has a step to take.  So under a
fair scheduler every call returns or is dropped, whatever arrives after it and
whatever becomes of the files (`ExecutorState.call_ends`).
-/

namespace ProcessingEngine

open Lib

variable {F Uuid : Type}

/-- Nobody has hung up on the call. -/
def CallPhase.isAwaited : CallPhase F Uuid → Bool
  | .dropped => false
  | .orphaned _ => false
  | _ => true

namespace Call

variable [BEq F] {ex : Executor F Uuid}

/-- The call can go over into another by one of its own steps. -/
def Next (ex : Executor F Uuid) (call' call : Call F Uuid) : Prop :=
  ∃ i shared files shared' files', Step ex i call shared files call' shared' files'

/-- A call that is over stays so. -/
theorem Step.isOver {i : Nat} {call call' : Call F Uuid} {shared shared' : Shared Uuid}
    {files files' : Files} (h : Step ex i call shared files call' shared' files')
    (hover : call.phase.isOver) : call'.phase.isOver := by
  cases h with
  | orphanOperated _ => rfl
  | admitted hphase _ => rw [hphase] at hover; cases hover
  | began hphase => rw [hphase] at hover; cases hover
  | operated hphase => rw [hphase] at hover; cases hover
  | joined hphase => rw [hphase] at hover; cases hover
  | completed hphase _ => rw [hphase] at hover; cases hover
  | retried hphase _ _ => rw [hphase] at hover; cases hover
  | failed hphase _ _ => rw [hphase] at hover; cases hover
  | unended hphase _ _ => rw [hphase] at hover; cases hover
  | recorded hphase => rw [hphase] at hover; cases hover
  | cleared hphase => rw [hphase] at hover; cases hover
  | left hphase => rw [hphase] at hover; cases hover

/-- A step does not hang up on a call. -/
theorem Step.awaited {i : Nat} {call call' : Call F Uuid} {shared shared' : Shared Uuid}
    {files files' : Files} (h : Step ex i call shared files call' shared' files')
    (hawaited : call.phase.isAwaited) : call'.phase.isAwaited := by
  cases h with
  | orphanOperated hphase =>
      rw [hphase] at hawaited
      cases hawaited
  | _ => rfl

end Call

namespace ExecutorState

variable [BEq F] {ex : Executor F Uuid} {s s' : ExecutorState F Uuid × Files} {i : Nat}

/-- What an event does to a call: nothing, one of its own steps, or it is dropped. -/
theorem step_call {e : ExecutorEvent Uuid} (hstep : step ex s e = some s') {call : Call F Uuid}
    (hcall : s.1.calls[i]? = some call) :
    ∃ call', s'.1.calls[i]? = some call' ∧ (call.phase.isOver → call'.phase.isOver) ∧
      (call' = call ∧ (∀ j, e = .advance j → j ≠ i) ∨ Call.Next ex call' call ∨
        call'.phase.isOver) := by
  have hlt := (List.getElem?_eq_some_iff.mp hcall).1
  cases e with
  | call task attempts =>
      cases hstep
      refine ⟨call, ?_, id, Or.inl ⟨rfl, fun j h => by cases h⟩⟩
      show (s.1.calls ++ [_])[i]? = some call
      rw [List.getElem?_append_left hlt]
      exact hcall
  | advance j =>
      obtain ⟨moved, moved', hmoved, hcalls, hstep⟩ := advance_cases hstep
      rw [hcalls]
      by_cases hj : j = i
      · subst hj
        obtain rfl : call = moved := Option.some.inj (hcall.symm.trans hmoved)
        exact ⟨moved', List.getElem?_set_self hlt, hstep.isOver,
          Or.inr (Or.inl ⟨_, _, _, _, _, hstep⟩)⟩
      · refine ⟨call, (List.getElem?_set_ne hj).trans hcall, id, Or.inl ⟨rfl, fun k h => ?_⟩⟩
        cases h
        exact hj
  | drop j =>
      obtain ⟨st, hdrop, rfl⟩ := Option.map_eq_some_iff.mp hstep
      obtain ⟨moved, moved', hmoved, hcalls, hdrop⟩ := drop_cases hdrop
      dsimp only
      rw [hcalls]
      by_cases hj : j = i
      · subst hj
        have hover : moved'.phase.isOver := by
          rcases Call.drop_cases hdrop with ⟨-, rfl, -⟩ | ⟨prog, -, rfl, -⟩
          · rfl
          · rfl
        exact ⟨moved', List.getElem?_set_self hlt, fun _ => hover, Or.inr (Or.inr hover)⟩
      · exact ⟨call, (List.getElem?_set_ne hj).trans hcall, id,
          Or.inl ⟨rfl, fun k h => by cases h⟩⟩
  | disturb files =>
      cases hstep
      exact ⟨call, hcall, id, Or.inl ⟨rfl, fun j h => by cases h⟩⟩

/-- Nobody has hung up. -/
def Awaited (st : ExecutorState F Uuid) : Prop := ∀ call ∈ st.calls, call.phase.isAwaited

theorem Awaited.step {e : ExecutorEvent Uuid} (h : s.1.Awaited) (hstep : step ex s e = some s')
    (hkept : ∀ j, e ≠ .drop j) : s'.1.Awaited := by
  intro call hcall
  cases e with
  | call task attempts =>
      cases hstep
      rcases List.mem_append.mp hcall with hcall | hcall
      · exact h call hcall
      · cases List.mem_singleton.mp hcall
        rfl
  | advance j =>
      obtain ⟨moved, moved', hmoved, hcalls, hmove⟩ := advance_cases hstep
      rw [hcalls] at hcall
      rcases List.mem_or_eq_of_mem_set hcall with hcall | rfl
      · exact h call hcall
      · exact hmove.awaited (h moved (List.mem_of_getElem? hmoved))
  | drop j => exact absurd rfl (hkept j)
  | disturb files =>
      cases hstep
      exact h call hcall

/-- The call has returned, or its caller has hung up. -/
def IsOver (st : ExecutorState F Uuid) (i : Nat) : Prop :=
  ∃ call, st.calls[i]? = some call ∧ call.phase.isOver

/-- An execution without an end.  A call that can take a step takes one sooner or
later, or it is dropped. -/
structure FairRun (ex : Executor F Uuid) (maxParallelTasks : Nat)
    (states : Nat → ExecutorState F Uuid × Files) (events : Nat → ExecutorEvent Uuid) : Prop where
  start : (states 0).1 = new maxParallelTasks
  steps : ∀ n, step ex (states n) (events n) = some (states (n + 1))
  fair : ∀ n i, ((states n).1.advance ex (states n).2 i).isSome →
    ∃ m, n ≤ m ∧ (events m = .advance i ∨ (states m).1.IsOver i)

section

variable {maxParallelTasks : Nat} {states : Nat → ExecutorState F Uuid × Files}
  {events : Nat → ExecutorEvent Uuid} {n : Nat}

theorem FairRun.over_succ (h : FairRun ex maxParallelTasks states events)
    (hover : (states n).1.IsOver i) : (states (n + 1)).1.IsOver i := by
  obtain ⟨call, hcall, hover⟩ := hover
  obtain ⟨call', hcall', hkeep, -⟩ := step_call (h.steps n) hcall
  exact ⟨call', hcall', hkeep hover⟩

/-- Until a call takes a step or is over, it stays as it is. -/
theorem FairRun.unchanged (h : FairRun ex maxParallelTasks states events) {call : Call F Uuid}
    (hcall : (states n).1.calls[i]? = some call) (m : Nat) :
    (states (n + m)).1.calls[i]? = some call ∨ (states (n + m)).1.IsOver i ∨
      ∃ k call', (states k).1.calls[i]? = some call' ∧ n ≤ k ∧ Call.Next ex call' call := by
  induction m with
  | zero => exact Or.inl hcall
  | succ m ih =>
      rcases ih with hsame | hover | hnext
      · obtain ⟨call', hcall', -, ⟨rfl, -⟩ | hnext | hover⟩ := step_call (h.steps (n + m)) hsame
        · exact Or.inl hcall'
        · exact Or.inr (Or.inr ⟨n + m + 1, call', hcall', by omega, hnext⟩)
        · exact Or.inr (Or.inl ⟨call', hcall', hover⟩)
      · exact Or.inr (Or.inl (h.over_succ hover))
      · exact Or.inr (Or.inr hnext)

/-- A run that ends with all calls over is fair when nothing comes after it. -/
theorem fairRun_of_run {files files' : Files} {st : ExecutorState F Uuid}
    {events : List (ExecutorEvent Uuid)}
    (hrun : Lib.run (step ex) (new maxParallelTasks, files) events = some (st, files'))
    (hover : ∀ i < st.calls.length, st.IsOver i) :
    ∃ states, FairRun ex maxParallelTasks states (fun n => events.getD n (.disturb files')) ∧
      ∀ n, Lib.run (step ex) (new maxParallelTasks, files) (events.take n) = some (states n) := by
  obtain ⟨states, hstates, hsteps⟩ := run_extend hrun (.disturb files') rfl
  have hstart := Option.some.inj (hstates 0)
  refine ⟨states, ⟨?_, hsteps, fun n i hsome => ?_⟩, hstates⟩
  · rw [← hstart]
  · have hpresent : ∀ m, n ≤ m → ∃ call, (states m).1.calls[i]? = some call := by
      intro m hm
      induction m, hm using Nat.le_induction with
      | base =>
          obtain ⟨s', hs'⟩ := Option.isSome_iff_exists.mp hsome
          obtain ⟨call, -, hcall, -⟩ := advance_cases hs'
          exact ⟨call, hcall⟩
      | succ m _ ih =>
          obtain ⟨call, hcall⟩ := ih
          obtain ⟨call', hcall', -⟩ := step_call (hsteps m) hcall
          exact ⟨call', hcall'⟩
    obtain ⟨call, hcall⟩ := hpresent (max n events.length) (le_max_left _ _)
    have hend := hstates (max n events.length)
    rw [List.take_of_length_le (le_max_right _ _), hrun, Option.some.injEq] at hend
    refine ⟨max n events.length, le_max_left _ _, Or.inr ?_⟩
    rw [← hend] at hcall ⊢
    exact hover i (List.getElem?_eq_some_iff.mp hcall).1

end

end ExecutorState
end ProcessingEngine

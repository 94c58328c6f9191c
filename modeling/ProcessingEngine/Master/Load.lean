import ProcessingEngine.Master.Scheduler

/-!
# The load of a worker

`master/scheduler.rs`.  A load is twice the tasks in flight plus the cpu, computed
in `u32` from whatever a heartbeat reports.  The computation succeeds and orders
a worker above every less busy one exactly when the exact load fits (`loadSound_iff`).
While the loads of all active workers fit, a busier worker is selected only as
the fallback from a queue without a least-loaded worker (`selected_iff_fallsBack`).
-/

namespace ProcessingEngine
namespace RoundRobinScheduler

variable {Uuid : Type}

/-! ### Arithmetic -/

/-- A `u32` result in a build with overflow checks, `none` for the panic. -/
def checked (n : Nat) : Option UInt32 :=
  if n < UInt32.size then some (UInt32.ofNat n) else none

/-- The load in a build with overflow checks.  The cast of `tasks_in_flight`
truncates in every build. -/
def checkedLoad (worker : WorkerInfo Uuid) : Option UInt32 :=
  (checked ((UInt32.ofNat worker.metrics.tasksInFlight).toNat * 2)).bind fun tasks =>
    checked (tasks.toNat + worker.metrics.cpuPct.toNat)

/-- The load without any bound on numbers. -/
def exactLoad (worker : WorkerInfo Uuid) : Nat :=
  2 * worker.metrics.tasksInFlight + worker.metrics.cpuPct.toNat

/-- `a` has strictly more tasks in flight than `b`, and at least the same cpu. -/
def Busier (a b : WorkerInfo Uuid) : Prop :=
  b.metrics.tasksInFlight < a.metrics.tasksInFlight ∧ b.metrics.cpuPct ≤ a.metrics.cpuPct

instance (a b : WorkerInfo Uuid) : Decidable (Busier a b) :=
  inferInstanceAs (Decidable (_ ∧ _))

theorem Busier.exactLoad_lt {a b : WorkerInfo Uuid} (h : Busier a b) :
    exactLoad b < exactLoad a := by
  have htasks := h.1
  have hcpu : b.metrics.cpuPct.toNat ≤ a.metrics.cpuPct.toNat := h.2
  unfold exactLoad
  omega

theorem checked_eq_some_iff {n : Nat} {m : UInt32} : checked n = some m ↔ m.toNat = n := by
  unfold checked
  split_ifs with hfits
  · rw [Option.some.injEq, ← UInt32.toNat_inj, UInt32.toNat_ofNat_of_lt' hfits]
    exact eq_comm
  · have hne : m.toNat ≠ n := fun h => hfits (h ▸ m.toNat_lt)
    exact iff_of_false (fun h => by cases h) hne

/-- Only the truncated number of tasks counts towards a checked load. -/
theorem checkedLoad_eq_some_iff {worker : WorkerInfo Uuid} {load : UInt32} :
    checkedLoad worker = some load ↔
      load.toNat = 2 * (worker.metrics.tasksInFlight % UInt32.size) +
        worker.metrics.cpuPct.toNat := by
  have htasks : (UInt32.ofNat worker.metrics.tasksInFlight).toNat =
      worker.metrics.tasksInFlight % UInt32.size := UInt32.toNat_ofNat'
  rw [checkedLoad, htasks]
  simp only [Option.bind_eq_some_iff, checked_eq_some_iff]
  constructor
  · intro ⟨tasks, hmul, hadd⟩
    omega
  · intro hload
    have hfits : worker.metrics.tasksInFlight % UInt32.size * 2 < UInt32.size := by
      have := load.toNat_lt
      have hsize : UInt32.size = 2 ^ 32 := rfl
      omega
    have hmul := UInt32.toNat_ofNat_of_lt' hfits
    exact ⟨_, hmul, by omega⟩

theorem checkedLoad_isSome_iff {worker : WorkerInfo Uuid} :
    (checkedLoad worker).isSome ↔
      2 * (worker.metrics.tasksInFlight % UInt32.size) + worker.metrics.cpuPct.toNat <
        UInt32.size := by
  rw [Option.isSome_iff_exists]
  simp only [checkedLoad_eq_some_iff]
  constructor
  · intro ⟨load, hload⟩
    rw [← hload]
    exact load.toNat_lt
  · intro hfits
    exact ⟨_, UInt32.toNat_ofNat_of_lt' hfits⟩

theorem toNat_computeLoad (worker : WorkerInfo Uuid) :
    (computeLoad worker).toNat = exactLoad worker % UInt32.size := by
  have htwo : (2 : UInt32).toNat = 2 := rfl
  have hsize : UInt32.size = 2 ^ 32 := rfl
  rw [computeLoad, UInt32.toNat_add, UInt32.toNat_mul, UInt32.toNat_ofNat', htwo, exactLoad, hsize]
  omega

/-- Where the checks pass, they leave the result as it is. -/
theorem checkedLoad_eq_some {worker : WorkerInfo Uuid} {load : UInt32}
    (h : checkedLoad worker = some load) : load = computeLoad worker := by
  have hload := checkedLoad_eq_some_iff.mp h
  have hcompute := toNat_computeLoad worker
  have hlt := load.toNat_lt
  have hsize : UInt32.size = 2 ^ 32 := rfl
  rw [exactLoad, hsize] at hcompute
  rw [hsize] at hload
  apply UInt32.toNat_inj.mp
  omega

/-- An exact load that fits is computed, with checks and without. -/
theorem checkedLoad_of_lt {worker : WorkerInfo Uuid} (h : exactLoad worker < UInt32.size) :
    checkedLoad worker = some (computeLoad worker) := by
  have htasks : worker.metrics.tasksInFlight < UInt32.size := by
    rw [exactLoad] at h
    omega
  have hsome : (checkedLoad worker).isSome := by
    rw [checkedLoad_isSome_iff, Nat.mod_eq_of_lt htasks]
    exact h
  obtain ⟨load, hload⟩ := Option.isSome_iff_exists.mp hsome
  rw [hload, checkedLoad_eq_some hload]

/-- Loads that fit are ordered as the exact loads are. -/
theorem computeLoad_lt_iff {a b : WorkerInfo Uuid} (ha : exactLoad a < UInt32.size)
    (hb : exactLoad b < UInt32.size) : computeLoad b < computeLoad a ↔ exactLoad b < exactLoad a := by
  rw [UInt32.lt_iff_toNat_lt, toNat_computeLoad, toNat_computeLoad, Nat.mod_eq_of_lt ha,
    Nat.mod_eq_of_lt hb]

/-! ### Sound loads -/

/-- The load of `a` and that of every less busy worker are computed without an
overflow, and the load of `a` is the greater one. -/
structure LoadSound (a : WorkerInfo Uuid) : Prop where
  computes : (checkedLoad a).isSome
  orders : ∀ b, Busier a b → (checkedLoad b).isSome ∧ computeLoad b < computeLoad a

/-- A number of tasks from 2³² on passes a number whose double overflows. -/
theorem exists_busier_overflow {a : WorkerInfo Uuid} (h : UInt32.size ≤ a.metrics.tasksInFlight) :
    ∃ b, Busier a b ∧ ¬ (checkedLoad b).isSome := by
  refine ⟨{ a with metrics := { tasksInFlight := UInt32.size - 1 } }, ⟨?_, ?_⟩, ?_⟩
  · show UInt32.size - 1 < a.metrics.tasksInFlight
    have hsize : UInt32.size = 2 ^ 32 := rfl
    omega
  · show (0 : UInt32) ≤ a.metrics.cpuPct
    exact UInt32.zero_le
  · rw [checkedLoad_isSome_iff]
    show ¬ 2 * ((UInt32.size - 1) % UInt32.size) + (0 : UInt32).toNat < UInt32.size
    decide

theorem loadSound_iff {a : WorkerInfo Uuid} : LoadSound a ↔ exactLoad a < UInt32.size := by
  constructor
  · intro h
    by_cases htasks : a.metrics.tasksInFlight < UInt32.size
    · have hfits := checkedLoad_isSome_iff.mp h.computes
      rw [Nat.mod_eq_of_lt htasks] at hfits
      exact hfits
    · obtain ⟨b, hbusier, hover⟩ := exists_busier_overflow (Nat.le_of_not_lt htasks)
      exact absurd (h.orders b hbusier).1 hover
  · intro ha
    have hsome {w : WorkerInfo Uuid} (hw : exactLoad w < UInt32.size) :
        (checkedLoad w).isSome := by
      rw [checkedLoad_of_lt hw, Option.isSome_some]
    constructor
    · exact hsome ha
    · intro b hbusier
      have hlt := hbusier.exactLoad_lt
      have hb := hlt.trans ha
      exact ⟨hsome hb, (computeLoad_lt_iff ha hb).mpr hlt⟩

/-! ### The fallback -/

/-- Without an eligible id the walk turns the queue past the ids it has seen. -/
theorem walkQueue_none {eligible : Uuid → Bool} {ids : List Uuid}
    (h : ∀ id ∈ ids, ¬ eligible id) (rest : List Uuid) :
    walkQueue eligible ids.length (ids ++ rest) = (none, rest ++ ids) := by
  induction ids generalizing rest with
  | nil => simp [walkQueue]
  | cons id ids ih =>
      rw [List.forall_mem_cons] at h
      show (if eligible id then _ else walkQueue eligible ids.length (ids ++ rest ++ [id])) = _
      rw [if_neg h.1, List.append_assoc, ih h.2, List.append_assoc, List.singleton_append]

theorem fallback_none (queue : List Uuid) :
    (fallback (none, queue)).1 = queue.head? := by
  cases queue with
  | nil => rfl
  | cons id queue => rfl

variable [DecidableEq Uuid]

/-- A worker that is not least loaded is selected exactly from the front of a
queue that is not rebuilt and has no least-loaded worker in it. -/
theorem selectWorker_eq_some_iff {registry : Registry Uuid} {id : Uuid}
    (h : registry.availableWorkers ≠ []) (hid : ¬ LeastLoaded registry id)
    (scheduler : RoundRobinScheduler Uuid) :
    (scheduler.selectWorker registry).1 = some id ↔
      scheduler.queue.length = registry.availableWorkers.length ∧
        (∀ other ∈ scheduler.queue, ¬ LeastLoaded registry other) ∧
        scheduler.queue.head? = some id := by
  by_cases hfound : scheduler.queue.length ≠ registry.availableWorkers.length ∨
      ∃ other ∈ scheduler.queue, LeastLoaded registry other
  · obtain ⟨other, hother, hleast⟩ := (selectWorker_leastLoaded_iff scheduler h).mpr hfound
    constructor
    · intro hselected
      rw [hselected, Option.some.injEq] at hother
      exact absurd (hother ▸ hleast) hid
    · intro ⟨hlength, hnone, _⟩
      obtain ⟨v, hv, hvLeast⟩ := hfound.resolve_left fun hne => hne hlength
      exact absurd hvLeast (hnone v hv)
  · obtain ⟨hlength, hqueue⟩ := not_or.mp hfound
    have hlength := not_ne_iff.mp hlength
    have hnone : ∀ other ∈ scheduler.queue, ¬ LeastLoaded registry other :=
      fun other hother hleast => hqueue ⟨other, hother, hleast⟩
    have hineligible : ∀ other ∈ scheduler.queue,
        ¬ (leastLoaded registry.availableWorkers).contains other := by
      simpa only [List.contains_iff_mem, mem_leastLoaded] using hnone
    have hwalk := walkQueue_none hineligible []
    rw [List.append_nil, List.nil_append] at hwalk
    rw [(selectWorker_eq h (resync_of_length_eq h hlength) rfl).1, hwalk, fallback_none]
    exact ⟨fun hfront => ⟨hlength, hnone, hfront⟩, fun hfront => hfront.2.2⟩

/-! ### Sound selections by load -/

/-- Where the loads fit, a least-loaded worker is one of least exact load. -/
theorem leastLoaded_iff_exactLoad {registry : Registry Uuid}
    (hfits : ∀ w ∈ registry.availableWorkers, exactLoad w < UInt32.size) {id : Uuid} :
    LeastLoaded registry id ↔ ∃ w ∈ registry.availableWorkers, w.id = id ∧
      ∀ v ∈ registry.availableWorkers, exactLoad w ≤ exactLoad v := by
  have hle {w v : WorkerInfo Uuid} (hw : w ∈ registry.availableWorkers)
      (hv : v ∈ registry.availableWorkers) :
      computeLoad w ≤ computeLoad v ↔ exactLoad w ≤ exactLoad v := by
    rw [← UInt32.not_lt, computeLoad_lt_iff (hfits w hw) (hfits v hv), Nat.not_lt]
  constructor
  · intro ⟨w, hget, hactive, hmin⟩
    have hid : w.id = id := registry.keyed id w hget
    have hw := Registry.mem_availableWorkers.mpr ⟨hid ▸ hget, hactive⟩
    exact ⟨w, hw, hid, fun v hv => (hle hw hv).mp (hmin v hv)⟩
  · intro ⟨w, hw, hid, hmin⟩
    have hactive := Registry.mem_availableWorkers.mp hw
    exact ⟨w, hid ▸ hactive.1, hactive.2, fun v hv => (hle hw hv).mpr (hmin v hv)⟩

/-- The call takes `a` from the front of a queue of the right length in which no
active worker has the least exact load. -/
structure FallsBack (scheduler : RoundRobinScheduler Uuid) (registry : Registry Uuid)
    (a : WorkerInfo Uuid) : Prop where
  length : scheduler.queue.length = registry.availableWorkers.length
  stale : ∀ w ∈ registry.availableWorkers, w.id ∈ scheduler.queue →
    ∃ v ∈ registry.availableWorkers, exactLoad v < exactLoad w
  front : scheduler.queue.head? = some a.id

/-- Where the loads fit, a worker busier than another active one is selected by
falling back on it, and in no other way. -/
theorem selected_iff_fallsBack {registry : Registry Uuid} {a b : WorkerInfo Uuid}
    (hfits : ∀ w ∈ registry.availableWorkers, exactLoad w < UInt32.size)
    (ha : a ∈ registry.availableWorkers) (hb : b ∈ registry.availableWorkers)
    (hbusier : Busier a b) (scheduler : RoundRobinScheduler Uuid) :
    (scheduler.selectWorker registry).1 = some a.id ↔ FallsBack scheduler registry a := by
  have hnot : ¬ LeastLoaded registry a.id := by
    intro ⟨w, hget, _, hmin⟩
    have hsame : w = a :=
      Option.some.inj (hget.symm.trans (Registry.mem_availableWorkers.mp ha).1)
    have hlt := (computeLoad_lt_iff (hfits a ha) (hfits b hb)).mpr hbusier.exactLoad_lt
    exact UInt32.not_le.mpr hlt (hsame ▸ hmin b hb)
  rw [selectWorker_eq_some_iff (List.ne_nil_of_mem ha) hnot]
  constructor
  · intro ⟨hlength, hnone, hfront⟩
    refine ⟨hlength, fun w hw hqueued => ?_, hfront⟩
    by_contra hmin
    apply hnone w.id hqueued
    rw [leastLoaded_iff_exactLoad hfits]
    exact ⟨w, hw, rfl, fun v hv => Nat.le_of_not_lt fun hlt => hmin ⟨v, hv, hlt⟩⟩
  · intro h
    refine ⟨h.length, fun id hqueued hleast => ?_, h.front⟩
    obtain ⟨w, hw, hid, hmin⟩ := (leastLoaded_iff_exactLoad hfits).mp hleast
    obtain ⟨v, hv, hlt⟩ := h.stale w hw (hid ▸ hqueued)
    exact Nat.not_lt.mpr (hmin v hv) hlt

/-- The loads of the active workers are sound, and the call does not return one
that is busier than another. -/
structure SelectsByLoad (scheduler : RoundRobinScheduler Uuid) (registry : Registry Uuid) :
    Prop where
  loads : ∀ a ∈ registry.availableWorkers, LoadSound a
  select : ∀ a ∈ registry.availableWorkers, ∀ b ∈ registry.availableWorkers, Busier a b →
    (scheduler.selectWorker registry).1 ≠ some a.id

/-- A heartbeat is recorded with whatever metrics it carries. -/
theorem exists_recordHeartbeat (registry : Registry Uuid) (workerId : Uuid)
    (metrics : WorkerMetrics Uuid) (address : String) (now : Nat) :
    ∃ w ∈ (registry.recordHeartbeat workerId metrics address now).availableWorkers,
      w.id = workerId ∧ w.metrics = metrics := by
  have hadded (info : WorkerInfo Uuid) (hactive : info.status = .active) :
      info ∈ (registry.addWorker info).availableWorkers :=
    Registry.mem_availableWorkers.mpr ⟨Registry.getWorker_addWorker_self registry info, hactive⟩
  unfold Registry.recordHeartbeat
  cases registry.workers.lookup workerId with
  | none => exact ⟨_, hadded _ rfl, rfl, rfl⟩
  | some worker => exact ⟨_, hadded _ rfl, rfl, rfl⟩

/-- After a heartbeat whose exact load does not fit, no scheduler selects by load. -/
theorem not_selectsByLoad_recordHeartbeat (scheduler : RoundRobinScheduler Uuid)
    (registry : Registry Uuid) {workerId : Uuid} {metrics : WorkerMetrics Uuid}
    (h : UInt32.size ≤ 2 * metrics.tasksInFlight + metrics.cpuPct.toNat)
    (address : String) (now : Nat) :
    ¬ SelectsByLoad scheduler (registry.recordHeartbeat workerId metrics address now) := by
  intro hselects
  obtain ⟨w, hw, _, hmetrics⟩ := exists_recordHeartbeat registry workerId metrics address now
  have hfits := loadSound_iff.mp (hselects.loads w hw)
  rw [exactLoad, hmetrics] at hfits
  exact Nat.not_lt.mpr h hfits

/-- Loads are compared soundly exactly when those of all active workers fit and
the call does not fall back on a worker busier than another. -/
theorem selectsByLoad_iff (scheduler : RoundRobinScheduler Uuid) (registry : Registry Uuid) :
    SelectsByLoad scheduler registry ↔
      (∀ a ∈ registry.availableWorkers, exactLoad a < UInt32.size) ∧
        ∀ a ∈ registry.availableWorkers, ∀ b ∈ registry.availableWorkers, Busier a b →
          ¬ FallsBack scheduler registry a := by
  constructor
  · intro h
    have hfits : ∀ a ∈ registry.availableWorkers, exactLoad a < UInt32.size :=
      fun a ha => loadSound_iff.mp (h.loads a ha)
    refine ⟨hfits, fun a ha b hb hbusier hfalls => h.select a ha b hb hbusier ?_⟩
    exact (selected_iff_fallsBack hfits ha hb hbusier scheduler).mpr hfalls
  · intro ⟨hfits, hnone⟩
    constructor
    · exact fun a ha => loadSound_iff.mpr (hfits a ha)
    · intro a ha b hb hbusier hselected
      exact hnone a ha b hb hbusier
        ((selected_iff_fallsBack hfits ha hb hbusier scheduler).mp hselected)

/-- Worker 1 with 2³¹ tasks in flight, and worker 2 with one. -/
def overloaded : WorkerInfo Nat :=
  { idleWorker 1 .active with metrics := { tasksInFlight := 2147483648 } }

def singleTask : WorkerInfo Nat :=
  { idleWorker 2 .active with metrics := { tasksInFlight := 1 } }

/-- The registry after a heartbeat of each. -/
def overloadedPair : Registry Nat :=
  (onlyFirst.recordHeartbeat 1 overloaded.metrics "worker" 0).recordHeartbeat 2
    singleTask.metrics "worker" 0

/-- The load of the first overflows, and without the checks it is 0, so that the
busier of the two is selected. -/
theorem overloaded_selected :
    overloadedPair.availableWorkers = [singleTask, overloaded] ∧
      Busier overloaded singleTask ∧
      checkedLoad overloaded = none ∧ computeLoad overloaded = 0 ∧ computeLoad singleTask = 2 ∧
      (({} : RoundRobinScheduler Nat).selectWorker overloadedPair).1 = some overloaded.id ∧
      ¬ SelectsByLoad {} overloadedPair := by
  have havailable : overloadedPair.availableWorkers = [singleTask, overloaded] := by decide
  have hbusier : Busier overloaded singleTask := by decide
  have hselected : (({} : RoundRobinScheduler Nat).selectWorker overloadedPair).1 =
      some overloaded.id := by decide
  refine ⟨havailable, hbusier, by decide, by decide, by decide, hselected, fun h => ?_⟩
  have hfirst : overloaded ∈ overloadedPair.availableWorkers := by simp [havailable]
  have hsecond : singleTask ∈ overloadedPair.availableWorkers := by simp [havailable]
  exact h.select _ hfirst _ hsecond hbusier hselected

end RoundRobinScheduler
end ProcessingEngine

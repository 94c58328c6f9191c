import ProcessingEngine.Master.Registry

/-!
# The round-robin scheduler

`master/scheduler.rs`.  The scheduler keeps a queue of worker ids between calls
and replaces it only when its length differs from the number of active workers.
The queue therefore always holds the workers that were active at the last such
replacement (`queue_perm`), whatever has become of them since, and a selection
is sound exactly when one of these is a least-loaded active worker
(`selection_iff`).  While the active workers and their loads stay as they are, a
call turns the queue past the next least-loaded worker, so that these take turns
(`selections_fair`).
-/

namespace ProcessingEngine

structure RoundRobinScheduler (Uuid : Type) where
  cursor : Nat := 0
  queue : List Uuid := []
  deriving DecidableEq

namespace RoundRobinScheduler

variable {Uuid : Type}

/-- Arithmetic on `u32`, which wraps in a release build. -/
def computeLoad (worker : WorkerInfo Uuid) : UInt32 :=
  UInt32.ofNat worker.metrics.tasksInFlight * 2 + worker.metrics.cpuPct

def minLoad (workers : List (WorkerInfo Uuid)) : UInt32 :=
  (workers.map computeLoad).min?.getD 4294967295

def leastLoaded (workers : List (WorkerInfo Uuid)) : List Uuid :=
  (workers.filter fun w => computeLoad w == minLoad workers).map WorkerInfo.id

/-- The queue brought in line with the registry, by comparing lengths. -/
def resync (queue : List Uuid) (workers : List (WorkerInfo Uuid)) : List Uuid :=
  if queue.isEmpty || queue.length != workers.length then workers.map WorkerInfo.id else queue

/-- Move ids from the front of the queue to its end until one is eligible. -/
def walkQueue (eligible : Uuid → Bool) : Nat → List Uuid → Option Uuid × List Uuid
  | 0, queue => (none, queue)
  | _ + 1, [] => (none, [])
  | n + 1, id :: queue =>
      if eligible id then (some id, queue ++ [id]) else walkQueue eligible n (queue ++ [id])

/-- Take the front of the queue when no id was eligible. -/
def fallback : Option Uuid × List Uuid → Option Uuid × List Uuid
  | (none, id :: queue) => (some id, queue ++ [id])
  | found => found

def selectWorker [DecidableEq Uuid] (scheduler : RoundRobinScheduler Uuid)
    (registry : Registry Uuid) : Option Uuid × RoundRobinScheduler Uuid :=
  let workers := registry.availableWorkers
  if workers.isEmpty then (none, scheduler)
  else
    let queue := resync scheduler.queue workers
    let selection := fallback (walkQueue (leastLoaded workers).contains queue.length queue)
    (selection.1,
      { cursor := (scheduler.cursor + 1) % workers.length, queue := selection.2 })

/-! ### Walking the queue -/

theorem walkQueue_perm (eligible : Uuid → Bool) (n : Nat) (queue : List Uuid) :
    (walkQueue eligible n queue).2.Perm queue := by
  induction n generalizing queue with
  | zero => exact .refl _
  | succ n ih =>
      cases queue with
      | nil => exact .refl _
      | cons id queue =>
          rw [walkQueue]
          split_ifs
          · exact List.perm_append_singleton id queue
          · exact (ih (queue ++ [id])).trans (List.perm_append_singleton id queue)

theorem walkQueue_eq_some {eligible : Uuid → Bool} {n : Nat} {queue : List Uuid} {id : Uuid}
    (h : (walkQueue eligible n queue).1 = some id) : eligible id ∧ id ∈ queue := by
  induction n generalizing queue with
  | zero => cases h
  | succ n ih =>
      cases queue with
      | nil => cases h
      | cons front queue =>
          rw [walkQueue] at h
          split_ifs at h with hfront
          · cases h
            exact ⟨hfront, List.mem_cons_self⟩
          · have hrest := ih h
            exact ⟨hrest.1, (List.perm_append_singleton front queue).mem_iff.mp hrest.2⟩

/-- An eligible id among the first `n` is found. -/
theorem walkQueue_isSome {eligible : Uuid → Bool} {n : Nat} {queue : List Uuid} {id : Uuid}
    (hmem : id ∈ queue.take n) (hid : eligible id) :
    (walkQueue eligible n queue).1.isSome := by
  induction n generalizing queue with
  | zero => simp at hmem
  | succ n ih =>
      cases queue with
      | nil => simp at hmem
      | cons front queue =>
          rw [walkQueue]
          split_ifs with hfront
          · rfl
          · rw [List.take_succ_cons, List.mem_cons] at hmem
            have hrest : id ∈ queue.take n := hmem.resolve_left fun e => hfront (e ▸ hid)
            refine ih ?_
            rw [List.take_append]
            exact List.mem_append_left _ hrest

theorem fallback_perm (found : Option Uuid × List Uuid) :
    (fallback found).2.Perm found.2 := by
  unfold fallback
  split
  · exact List.perm_append_singleton _ _
  · exact .refl _

theorem fallback_some {found : Option Uuid × List Uuid} {id : Uuid} (h : found.1 = some id) :
    fallback found = found := by
  rw [← Prod.eta found, h]
  rfl

/-- The selected id is in the queue, and it is eligible if any id there is. -/
theorem fallback_walkQueue (eligible : Uuid → Bool) (queue : List Uuid) :
    (∃ id, (fallback (walkQueue eligible queue.length queue)).1 = some id ∧ eligible id) ↔
      ∃ id ∈ queue, eligible id := by
  have hperm := walkQueue_perm eligible queue.length queue
  rcases hwalk : walkQueue eligible queue.length queue with ⟨_ | id, rest⟩
  · rw [hwalk] at hperm
    have hnone : ¬ ∃ id ∈ queue, eligible id := by
      rintro ⟨id, hmem, hid⟩
      have hsome := walkQueue_isSome (n := queue.length) (by rwa [List.take_length]) hid
      rw [hwalk] at hsome
      cases hsome
    refine iff_of_false ?_ hnone
    rintro ⟨id, hsel, hid⟩
    cases rest with
    | nil => cases hsel
    | cons front rest =>
        cases hsel
        exact hnone ⟨id, hperm.mem_iff.mp List.mem_cons_self, hid⟩
  · have hfound := walkQueue_eq_some (congrArg Prod.fst hwalk)
    exact iff_of_true ⟨id, rfl, hfound.1⟩ ⟨id, hfound.2, hfound.1⟩

/-! ### Sound selections -/

/-- `id` is an active worker whose load is minimal among the active workers. -/
def LeastLoaded [DecidableEq Uuid] (registry : Registry Uuid) (id : Uuid) : Prop :=
  ∃ worker, registry.getWorker id = some worker ∧ worker.status = .active ∧
    ∀ other ∈ registry.availableWorkers, computeLoad worker ≤ computeLoad other

theorem minLoad_mem {workers : List (WorkerInfo Uuid)} (h : workers ≠ []) :
    ∃ w ∈ workers, computeLoad w = minLoad workers := by
  unfold minLoad
  cases hmin : (workers.map computeLoad).min? with
  | none =>
      rw [List.min?_eq_none_iff, List.map_eq_nil_iff] at hmin
      exact absurd hmin h
  | some load =>
      obtain ⟨w, hw, hload⟩ := List.mem_map.mp (List.min?_mem hmin)
      exact ⟨w, hw, hload⟩

theorem minLoad_le {workers : List (WorkerInfo Uuid)} {w : WorkerInfo Uuid} (h : w ∈ workers) :
    minLoad workers ≤ computeLoad w := by
  unfold minLoad
  cases hmin : (workers.map computeLoad).min? with
  | none =>
      rw [List.min?_eq_none_iff, List.map_eq_nil_iff] at hmin
      rw [hmin] at h
      cases h
  | some load => exact (List.min?_eq_some_iff.mp hmin).2 _ (List.mem_map_of_mem h)

variable [DecidableEq Uuid]

theorem mem_leastLoaded {registry : Registry Uuid} {id : Uuid} :
    id ∈ leastLoaded registry.availableWorkers ↔ LeastLoaded registry id := by
  simp only [leastLoaded, List.mem_map, List.mem_filter, beq_iff_eq]
  constructor
  · rintro ⟨w, ⟨hw, hload⟩, rfl⟩
    have hactive := Registry.mem_availableWorkers.mp hw
    exact ⟨w, hactive.1, hactive.2, fun other hother => hload ▸ minLoad_le hother⟩
  · rintro ⟨w, hget, hactive, hmin⟩
    have hid : w.id = id := registry.keyed id w hget
    have hw : w ∈ registry.availableWorkers :=
      Registry.mem_availableWorkers.mpr ⟨hid ▸ hget, hactive⟩
    obtain ⟨v, hv, hload⟩ := minLoad_mem (List.ne_nil_of_mem hw)
    exact ⟨w, ⟨hw, UInt32.le_antisymm (hload ▸ hmin v hv) (minLoad_le hw)⟩, hid⟩

theorem exists_leastLoaded {registry : Registry Uuid} (h : registry.availableWorkers ≠ []) :
    ∃ id ∈ registry.availableWorkers.map WorkerInfo.id, LeastLoaded registry id := by
  obtain ⟨w, hw, hload⟩ := minLoad_mem h
  refine ⟨w.id, List.mem_map_of_mem hw, mem_leastLoaded.mp ?_⟩
  simp only [leastLoaded, List.mem_map, List.mem_filter, beq_iff_eq]
  exact ⟨w, ⟨hw, hload⟩, rfl⟩

omit [DecidableEq Uuid] in
/-- A queue as long as the list of active workers is kept. -/
theorem resync_of_length_eq {workers : List (WorkerInfo Uuid)} {queue : List Uuid}
    (h : workers ≠ []) (hlength : queue.length = workers.length) :
    resync queue workers = queue := by
  have hpos : 0 < queue.length := hlength ▸ List.length_pos_iff.mpr h
  have hne : queue.isEmpty = false :=
    List.isEmpty_eq_false_iff.mpr (List.ne_nil_of_length_pos hpos)
  rw [resync, hne, hlength, bne_self_eq_false, Bool.or_false, if_neg Bool.false_ne_true]

omit [DecidableEq Uuid] in
theorem resync_of_length_ne {workers : List (WorkerInfo Uuid)} {queue : List Uuid}
    (hlength : queue.length ≠ workers.length) :
    resync queue workers = workers.map WorkerInfo.id := by
  rw [resync, bne_iff_ne.mpr hlength, Bool.or_true, if_pos rfl]

theorem mem_resync {registry : Registry Uuid} {queue : List Uuid}
    (h : registry.availableWorkers ≠ []) :
    (∃ id ∈ resync queue registry.availableWorkers, LeastLoaded registry id) ↔
      queue.length ≠ registry.availableWorkers.length ∨ ∃ id ∈ queue, LeastLoaded registry id := by
  by_cases hlength : queue.length = registry.availableWorkers.length
  · rw [resync_of_length_eq h hlength]
    exact (or_iff_right (not_not_intro hlength)).symm
  · rw [resync_of_length_ne hlength]
    exact iff_of_true (exists_leastLoaded h) (Or.inl hlength)

/-- What a call finds on its walk along `queue`. -/
theorem selectWorker_eq {registry : Registry Uuid} (h : registry.availableWorkers ≠ [])
    {scheduler : RoundRobinScheduler Uuid} {queue : List Uuid}
    (hqueue : resync scheduler.queue registry.availableWorkers = queue)
    {found : Option Uuid × List Uuid}
    (hfound : fallback (walkQueue (leastLoaded registry.availableWorkers).contains queue.length
      queue) = found) :
    (scheduler.selectWorker registry).1 = found.1 ∧
      (scheduler.selectWorker registry).2.queue = found.2 := by
  have hne : ¬ registry.availableWorkers.isEmpty = true := by simpa using h
  subst hqueue hfound
  rw [selectWorker, if_neg hne]
  exact ⟨rfl, rfl⟩

/-- A call returns a least-loaded active worker exactly when it rebuilds the
queue or the queue holds such a worker. -/
theorem selectWorker_leastLoaded_iff (scheduler : RoundRobinScheduler Uuid)
    {registry : Registry Uuid} (h : registry.availableWorkers ≠ []) :
    (∃ id, (scheduler.selectWorker registry).1 = some id ∧ LeastLoaded registry id) ↔
      scheduler.queue.length ≠ registry.availableWorkers.length ∨
        ∃ id ∈ scheduler.queue, LeastLoaded registry id := by
  rw [← mem_resync h, (selectWorker_eq h rfl rfl).1]
  have hwalk := fallback_walkQueue (leastLoaded registry.availableWorkers).contains
    (resync scheduler.queue registry.availableWorkers)
  simpa only [List.contains_iff_mem, mem_leastLoaded] using hwalk

/-! ### The queue over a history of calls -/

/-- The scheduler after a call for each registry of the history. -/
def afterCalls (history : List (Registry Uuid)) (scheduler : RoundRobinScheduler Uuid) :
    RoundRobinScheduler Uuid :=
  history.foldl (fun scheduler registry => (scheduler.selectWorker registry).2) scheduler

/-- The workers active at the last call that found their number changed, `ids`
if there is none. -/
def lastResync (history : List (Registry Uuid)) (ids : List Uuid) : List Uuid :=
  history.foldl (fun ids registry =>
    if registry.availableWorkers.length = 0 ∨ registry.availableWorkers.length = ids.length then
      ids
    else registry.availableWorkers.map WorkerInfo.id) ids

theorem selectWorker_queue_perm (scheduler : RoundRobinScheduler Uuid)
    (registry : Registry Uuid) :
    (scheduler.selectWorker registry).2.queue.Perm
      (if registry.availableWorkers.length = 0 ∨
          registry.availableWorkers.length = scheduler.queue.length then scheduler.queue
        else registry.availableWorkers.map WorkerInfo.id) := by
  by_cases hempty : registry.availableWorkers = []
  · simp [selectWorker, hempty]
  · have hpos : registry.availableWorkers.length ≠ 0 := by simpa using hempty
    rw [(selectWorker_eq hempty rfl rfl).2]
    refine ((fallback_perm _).trans (walkQueue_perm _ _ _)).trans (.of_eq ?_)
    by_cases hlength : scheduler.queue.length = registry.availableWorkers.length
    · rw [resync_of_length_eq hempty hlength, if_pos (Or.inr hlength.symm)]
    · rw [resync_of_length_ne hlength, if_neg (not_or.mpr ⟨hpos, Ne.symm hlength⟩)]

/-- Up to rotation the queue is what the last rebuild put there. -/
theorem queue_perm (history : List (Registry Uuid)) {scheduler : RoundRobinScheduler Uuid}
    {ids : List Uuid} (h : scheduler.queue.Perm ids) :
    (afterCalls history scheduler).queue.Perm (lastResync history ids) := by
  induction history generalizing scheduler ids with
  | nil => exact h
  | cons registry history ih =>
      refine ih ((selectWorker_queue_perm scheduler registry).trans ?_)
      dsimp only
      rw [h.length_eq]
      split_ifs
      · exact h
      · exact .refl _

/-- After any history of calls to a new scheduler, a call returns a least-loaded
active worker exactly when the number of active workers has changed since the
last rebuild of the queue or some least-loaded worker was active then. -/
theorem selection_iff (history : List (Registry Uuid)) {registry : Registry Uuid}
    (h : registry.availableWorkers ≠ []) :
    (∃ id, ((afterCalls history {}).selectWorker registry).1 = some id ∧
        LeastLoaded registry id) ↔
      (lastResync history []).length ≠ registry.availableWorkers.length ∨
        ∃ id ∈ lastResync history [], LeastLoaded registry id := by
  have hperm : (afterCalls history {}).queue.Perm (lastResync history ([] : List Uuid)) :=
    queue_perm history (.refl _)
  rw [selectWorker_leastLoaded_iff _ h, hperm.length_eq]
  exact or_congr_right (exists_congr fun id => and_congr_left fun _ => hperm.mem_iff)

/-- A worker without load. -/
def idleWorker (id : Nat) (status : WorkerStatus) : WorkerInfo Nat where
  id
  address := "worker"
  status
  lastHeartbeat := 0
  metrics := {}

/-- The registry of worker 1, and the one in which worker 2 has replaced it. -/
def onlyFirst : Registry Nat := ({} : Registry Nat).addWorker (idleWorker 1 .active)

def onlySecond : Registry Nat :=
  (onlyFirst.updateStatus 1 .down).addWorker (idleWorker 2 .active)

theorem selection_iff_onlyFirst :
    onlyFirst.availableWorkers ≠ [] ∧
      ((∃ id, ((afterCalls [] {}).selectWorker onlyFirst).1 = some id ∧
          LeastLoaded onlyFirst id) ↔
        (lastResync ([] : List (Registry Nat)) []).length ≠ onlyFirst.availableWorkers.length ∨
          ∃ id ∈ lastResync ([] : List (Registry Nat)) [], LeastLoaded onlyFirst id) :=
  ⟨by decide, selection_iff [] (by decide)⟩

/-- When another worker takes the place of the only one, the one that is down is
selected. -/
theorem down_worker_selected :
    ¬ ∀ (history : List (Registry Nat)) (registry : Registry Nat),
      registry.availableWorkers ≠ [] →
        ∃ id, ((afterCalls history {}).selectWorker registry).1 = some id ∧
          LeastLoaded registry id := by
  intro h
  obtain ⟨id, hsel, worker, hget, hactive, -⟩ := h [onlyFirst] onlySecond (by decide)
  have hfirst : ((afterCalls [onlyFirst] {}).selectWorker onlySecond).1 = some 1 := by decide
  have hdown : (onlySecond.getWorker 1).map WorkerInfo.status = some .down := by decide
  rw [hfirst, Option.some.injEq] at hsel
  subst hsel
  rw [hget, Option.map_some, hactive] at hdown
  cases hdown

/-! ### Fair selections -/

/-- The active workers with their loads. -/
def loads (registry : Registry Uuid) : List (Uuid × UInt32) :=
  registry.availableWorkers.map fun w => (w.id, computeLoad w)

/-- Registries with the same loads have as many active workers. -/
theorem length_availableWorkers {registry other : Registry Uuid}
    (h : (loads other).Perm (loads registry)) :
    other.availableWorkers.length = registry.availableWorkers.length := by
  have hlength := h.length_eq
  rw [loads, loads, List.length_map, List.length_map] at hlength
  exact hlength

omit [DecidableEq Uuid] in
theorem mem_leastLoaded_iff {workers : List (WorkerInfo Uuid)} {id : Uuid} :
    id ∈ leastLoaded workers ↔ ∃ load, (id, load) ∈ workers.map (fun w => (w.id, computeLoad w)) ∧
      ∀ p ∈ workers.map (fun w => (w.id, computeLoad w)), load ≤ p.2 := by
  simp only [leastLoaded, List.mem_map, List.mem_filter, beq_iff_eq]
  constructor
  · intro h
    obtain ⟨w, ⟨hw, hload⟩, rfl⟩ := h
    refine ⟨computeLoad w, ⟨w, hw, rfl⟩, fun p hp => ?_⟩
    obtain ⟨other, hother, rfl⟩ := hp
    exact hload ▸ minLoad_le hother
  · intro h
    obtain ⟨load, ⟨w, hw, heq⟩, hmin⟩ := h
    obtain ⟨rfl, rfl⟩ := Prod.mk.inj heq
    obtain ⟨v, hv, hload⟩ := minLoad_mem (List.ne_nil_of_mem hw)
    have hle : computeLoad w ≤ minLoad workers := hload ▸ hmin _ ⟨v, hv, rfl⟩
    exact ⟨w, ⟨hw, UInt32.le_antisymm hle (minLoad_le hw)⟩, rfl⟩

/-- The eligible ids do not depend on the order of the workers. -/
theorem contains_leastLoaded {registry other : Registry Uuid}
    (h : (loads other).Perm (loads registry)) :
    (leastLoaded other.availableWorkers).contains =
      (leastLoaded registry.availableWorkers).contains := by
  funext id
  apply Bool.eq_iff_iff.mpr
  rw [List.contains_iff_mem, List.contains_iff_mem, mem_leastLoaded_iff, mem_leastLoaded_iff]
  show (∃ load, (id, load) ∈ loads other ∧ ∀ p ∈ loads other, load ≤ p.2) ↔
    ∃ load, (id, load) ∈ loads registry ∧ ∀ p ∈ loads registry, load ≤ p.2
  simp only [h.mem_iff]

omit [DecidableEq Uuid] in
/-- The walk takes the first eligible id and puts it behind the others. -/
theorem walkQueue_filter {eligible : Uuid → Bool} {n : Nat} {queue : List Uuid} {id : Uuid}
    (h : (walkQueue eligible n queue).1 = some id) :
    ∃ ids, queue.filter eligible = id :: ids ∧
      (walkQueue eligible n queue).2.filter eligible = ids ++ [id] := by
  induction n generalizing queue with
  | zero => cases h
  | succ n ih =>
      cases queue with
      | nil => cases h
      | cons front queue =>
          rw [walkQueue] at h ⊢
          by_cases hfront : eligible front = true
          · rw [if_pos hfront] at h ⊢
            obtain rfl : front = id := Option.some.inj h
            refine ⟨queue.filter eligible, List.filter_cons_of_pos hfront, ?_⟩
            show (queue ++ [front]).filter eligible = queue.filter eligible ++ [front]
            rw [List.filter_append, List.filter_cons_of_pos hfront, List.filter_nil]
          · rw [if_neg hfront] at h ⊢
            obtain ⟨ids, hqueue, hrest⟩ := ih h
            rw [List.filter_append, List.filter_cons_of_neg hfront, List.filter_nil,
              List.append_nil] at hqueue
            exact ⟨ids, (List.filter_cons_of_neg hfront).trans hqueue, hrest⟩

section Fixed

variable {registry : Registry Uuid} {scheduler : RoundRobinScheduler Uuid}

/-- A queue of all active workers is kept, and the next eligible id in it is selected. -/
theorem selectWorker_rotate {other : Registry Uuid} (hloads : (loads other).Perm (loads registry))
    (hqueue : scheduler.queue.Perm (registry.availableWorkers.map WorkerInfo.id))
    {id : Uuid} {ids : List Uuid}
    (hfront : scheduler.queue.filter (leastLoaded registry.availableWorkers).contains =
      id :: ids) :
    (scheduler.selectWorker other).1 = some id ∧
      (scheduler.selectWorker other).2.queue.filter
        (leastLoaded registry.availableWorkers).contains = ids ++ [id] := by
  rw [← contains_leastLoaded hloads] at hfront ⊢
  have hmem : id ∈ scheduler.queue.filter (leastLoaded other.availableWorkers).contains := by
    rw [hfront]
    exact List.mem_cons_self
  have hmem := List.mem_filter.mp hmem
  have hlength : scheduler.queue.length = other.availableWorkers.length := by
    rw [hqueue.length_eq, List.length_map, length_availableWorkers hloads]
  have hne : other.availableWorkers ≠ [] := by
    apply List.ne_nil_of_length_pos
    rw [← hlength]
    exact List.length_pos_of_mem hmem.1
  obtain ⟨found, hfound⟩ := Option.isSome_iff_exists.mp
    (walkQueue_isSome (n := scheduler.queue.length) (by rw [List.take_length]; exact hmem.1) hmem.2)
  obtain ⟨rest, hfirst, hafter⟩ := walkQueue_filter hfound
  obtain ⟨rfl, rfl⟩ : id = found ∧ ids = rest := List.cons.inj (hfront.symm.trans hfirst)
  have hcall := selectWorker_eq hne (resync_of_length_eq hne hlength) (fallback_some hfound)
  rw [hcall.1, hcall.2]
  exact ⟨hfound, hafter⟩

/-- The results of a call for each registry of the history. -/
def selections : List (Registry Uuid) → RoundRobinScheduler Uuid → List (Option Uuid)
  | [], _ => []
  | registry :: history, scheduler =>
      (scheduler.selectWorker registry).1 ::
        selections history (scheduler.selectWorker registry).2

/-- The calls keep the queue a permutation of the active workers. -/
theorem afterCalls_perm {history : List (Registry Uuid)}
    (hloads : ∀ other ∈ history, (loads other).Perm (loads registry))
    (hqueue : scheduler.queue.Perm (registry.availableWorkers.map WorkerInfo.id)) :
    (afterCalls history scheduler).queue.Perm (registry.availableWorkers.map WorkerInfo.id) := by
  induction history generalizing scheduler with
  | nil => exact hqueue
  | cons other history ih =>
      rw [List.forall_mem_cons] at hloads
      have hlength : other.availableWorkers.length = scheduler.queue.length := by
        rw [hqueue.length_eq, List.length_map, length_availableWorkers hloads.1]
      have hstep := selectWorker_queue_perm scheduler other
      rw [if_pos (Or.inr hlength)] at hstep
      exact ih hloads.2 (hstep.trans hqueue)

/-- As many calls as there are ids at the front of the eligible ones return these,
in this order, and put them behind the others. -/
theorem selections_rotate {history : List (Registry Uuid)}
    (hloads : ∀ other ∈ history, (loads other).Perm (loads registry))
    (hqueue : scheduler.queue.Perm (registry.availableWorkers.map WorkerInfo.id))
    {front rest : List Uuid}
    (hfront : scheduler.queue.filter (leastLoaded registry.availableWorkers).contains =
      front ++ rest) (hlength : history.length = front.length) :
    selections history scheduler = front.map some ∧
      (afterCalls history scheduler).queue.filter
        (leastLoaded registry.availableWorkers).contains = rest ++ front := by
  induction history generalizing scheduler front rest with
  | nil =>
      obtain rfl := List.length_eq_zero_iff.mp hlength.symm
      rw [List.append_nil]
      exact ⟨rfl, hfront⟩
  | cons other history ih =>
      cases front with
      | nil => cases hlength
      | cons id front =>
          rw [List.forall_mem_cons] at hloads
          obtain ⟨hselected, hrotated⟩ := selectWorker_rotate hloads.1 hqueue hfront
          have hkept := afterCalls_perm (fun r hr => List.mem_singleton.mp hr ▸ hloads.1) hqueue
          rw [List.append_eq, List.append_assoc] at hrotated
          obtain ⟨hresults, hafter⟩ := ih hloads.2 hkept hrotated (Nat.succ.inj hlength)
          constructor
          · show (scheduler.selectWorker other).1 :: selections history _ = _
            rw [hselected]
            exact congrArg (some id :: ·) hresults
          · rw [List.append_assoc] at hafter
            exact hafter

theorem leastLoaded_sublist (registry : Registry Uuid) :
    (leastLoaded registry.availableWorkers).Sublist
      (registry.availableWorkers.map WorkerInfo.id) :=
  List.filter_sublist.map _

theorem leastLoaded_nodup (registry : Registry Uuid) :
    (leastLoaded registry.availableWorkers).Nodup :=
  (leastLoaded_sublist registry).nodup registry.availableWorkers_nodup

/-- The eligible ids in the queue are all the least-loaded workers. -/
theorem eligible_perm
    (hqueue : scheduler.queue.Perm (registry.availableWorkers.map WorkerInfo.id)) :
    (scheduler.queue.filter (leastLoaded registry.availableWorkers).contains).Perm
      (leastLoaded registry.availableWorkers) := by
  have hnodup := hqueue.nodup_iff.mpr registry.availableWorkers_nodup
  refine (List.perm_ext_iff_of_nodup (hnodup.filter _) (leastLoaded_nodup registry)).mpr
    fun id => ?_
  rw [List.mem_filter, List.contains_iff_mem, hqueue.mem_iff]
  exact and_iff_right_of_imp fun h => (leastLoaded_sublist registry).subset h

/-- While the active workers and their loads stay as they are, the queue remains a
permutation of them, and any calls in a row, as many as there are least-loaded
workers, return each of these once. -/
theorem selections_fair {earlier later : List (Registry Uuid)}
    (hloads : ∀ other ∈ earlier ++ later, (loads other).Perm (loads registry))
    (hqueue : scheduler.queue.Perm (registry.availableWorkers.map WorkerInfo.id))
    (hlater : later.length = (leastLoaded registry.availableWorkers).length) :
    (afterCalls earlier scheduler).queue.Perm (registry.availableWorkers.map WorkerInfo.id) ∧
      ∃ ids : List Uuid, selections later (afterCalls earlier scheduler) = ids.map some ∧
        ids.Nodup ∧ ∀ id, id ∈ ids ↔ LeastLoaded registry id := by
  rw [List.forall_mem_append] at hloads
  have hkept := afterCalls_perm hloads.1 hqueue
  have hperm := eligible_perm hkept
  have hfront := (List.append_nil ((afterCalls earlier scheduler).queue.filter
    (leastLoaded registry.availableWorkers).contains)).symm
  have hcalls := selections_rotate hloads.2 hkept hfront (hlater.trans hperm.length_eq.symm)
  refine ⟨hkept, _, hcalls.1, hperm.nodup_iff.mpr (leastLoaded_nodup registry), fun id => ?_⟩
  rw [hperm.mem_iff]
  exact mem_leastLoaded

/-- After its first call a new scheduler has all active workers in its queue. -/
theorem firstCall_perm (registry : Registry Uuid) :
    (afterCalls [registry] {}).queue.Perm (registry.availableWorkers.map WorkerInfo.id) := by
  refine (selectWorker_queue_perm {} registry).trans ?_
  split_ifs with hnone
  · have hnone : registry.availableWorkers.length = 0 := by simpa using hnone
    rw [List.length_eq_zero_iff.mp hnone]
    exact .refl _
  · exact .refl _

end Fixed

/-- Two idle workers, and two that are down. -/
def idlePair : Registry Nat :=
  (onlySecond.addWorker (idleWorker 3 .active)).addWorker (idleWorker 4 .down)

theorem selections_fair_idlePair :
    (afterCalls [idlePair] (afterCalls [idlePair] {})).queue.Perm
        (idlePair.availableWorkers.map WorkerInfo.id) ∧
      ∃ ids : List Nat,
        selections [idlePair, idlePair] (afterCalls [idlePair] (afterCalls [idlePair] {})) =
            ids.map some ∧
          ids.Nodup ∧ ∀ id, id ∈ ids ↔ LeastLoaded idlePair id := by
  have hloads : ∀ other ∈ [idlePair] ++ [idlePair, idlePair],
      (loads other).Perm (loads idlePair) := by
    intro other hother
    rw [List.eq_of_mem_replicate (n := 3) hother]
  exact selections_fair hloads (firstCall_perm idlePair) (by decide)

end RoundRobinScheduler
end ProcessingEngine

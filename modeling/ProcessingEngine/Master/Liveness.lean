import ProcessingEngine.Master.Scheduler

/-!
# Liveness of workers

`mark_stale_workers` judges a worker by the time stamp of its last contact.  For a
heartbeat that is the time at which it reached the master, for a registration it is
what the worker has sent.  The master sees a worker as its own observations say
exactly when the two lead to the same verdict (`Registry.live_iff`).
-/

namespace ProcessingEngine

open Lib

variable {Uuid : Type} [DecidableEq Uuid]

/-- What reaches the registry. -/
inductive Signal (Uuid : Type) where
  | register (info : WorkerInfo Uuid)
  | heartbeat (workerId : Uuid) (metrics : WorkerMetrics Uuid) (address : String)
  | collect (grace : Nat)

/-- A registration or heartbeat, when it reached the master, the time stamp the
registry keeps of it, and the status it announces. -/
structure Contact where
  arrival : Nat
  supplied : Nat
  status : WorkerStatus

namespace Signal

/-- What worker `id` makes known by a signal that arrives at `now`. -/
def contact (id : Uuid) (now : Nat) : Signal Uuid → Option Contact
  | .register info =>
      if info.id = id then some ⟨now, info.lastHeartbeat, info.status⟩ else none
  | .heartbeat workerId _ _ => if workerId = id then some ⟨now, now, .active⟩ else none
  | .collect _ => none

/-- A collection at `now` does not find the time stamp too old. -/
def Tolerates (supplied now : Nat) : Signal Uuid → Prop
  | .collect grace => now ≤ supplied + grace
  | _ => True

/-- A collection has this grace. -/
def HasGrace (grace : Nat) : Signal Uuid → Prop
  | .collect grace' => grace' = grace
  | _ => True

end Signal

namespace Registry

def receive (registry : Registry Uuid) (now : Nat) : Signal Uuid → Registry Uuid
  | .register info => registry.addWorker info
  | .heartbeat workerId metrics address => registry.recordHeartbeat workerId metrics address now
  | .collect grace => registry.markStaleWorkers grace now

/-- The registry after signals with their times of arrival. -/
def after (registry : Registry Uuid) (signals : List (Nat × Signal Uuid)) : Registry Uuid :=
  signals.foldl (fun registry s => registry.receive s.1 s.2) registry

/-- The worker is known and active. -/
def Live (registry : Registry Uuid) (id : Uuid) : Prop :=
  (registry.getWorker id).map WorkerInfo.status = some .active

variable {registry : Registry Uuid} {id : Uuid}

theorem after_append (registry : Registry Uuid) (signals signals' : List (Nat × Signal Uuid)) :
    registry.after (signals ++ signals') = (registry.after signals).after signals' :=
  List.foldl_append

/-- After a contact the registry knows the worker by what it made known. -/
theorem receive_contact (registry : Registry Uuid) {signal : Signal Uuid} {now : Nat}
    {c : Contact} (h : signal.contact id now = some c) :
    ∃ w, (registry.receive now signal).getWorker id = some w ∧
      w.lastHeartbeat = c.supplied ∧ w.status = c.status := by
  cases signal with
  | register info =>
      rw [Signal.contact] at h
      split_ifs at h with hid
      obtain rfl := Option.some.inj h
      subst hid
      exact ⟨info, getWorker_addWorker_self registry info, rfl, rfl⟩
  | heartbeat workerId metrics address =>
      rw [Signal.contact] at h
      split_ifs at h with hid
      obtain rfl := Option.some.inj h
      subst hid
      show ∃ w, (registry.recordHeartbeat workerId metrics address now).getWorker workerId =
        some w ∧ _
      unfold recordHeartbeat
      cases registry.workers.lookup workerId with
      | none => exact ⟨_, getWorker_addWorker_self registry _, rfl, rfl⟩
      | some worker => exact ⟨_, getWorker_addWorker_self registry _, rfl, rfl⟩
  | collect grace => cases h

/-- A signal that is no contact of the worker can only mark it down, and does so if
it does not tolerate the time stamp of an active worker. -/
theorem receive_other {w : WorkerInfo Uuid} (hw : registry.getWorker id = some w)
    {signal : Signal Uuid} {now : Nat} (h : signal.contact id now = none) :
    ∃ w', (registry.receive now signal).getWorker id = some w' ∧
      w'.lastHeartbeat = w.lastHeartbeat ∧
      (w'.status = .active ↔ w.status = .active ∧ signal.Tolerates w.lastHeartbeat now) := by
  cases signal with
  | register info =>
      rw [Signal.contact] at h
      split_ifs at h with hid
      exact ⟨w, (getWorker_addWorker_ne fun e => hid e.symm).trans hw, rfl,
        (and_iff_left trivial).symm⟩
  | heartbeat workerId metrics address =>
      rw [Signal.contact] at h
      split_ifs at h with hid
      exact ⟨w, (getWorker_recordHeartbeat_ne (fun e => hid e.symm) _ _ _).trans hw, rfl,
        (and_iff_left trivial).symm⟩
  | collect grace =>
      have hlookup : registry.workers.lookup id = some w := hw
      have hmark : (registry.receive now (.collect grace)).getWorker id =
          some (if w.status == .active && w.lastHeartbeat ≤ now &&
            grace < now - w.lastHeartbeat then { w with status := .down } else w) := by
        show (registry.workers.mapValues _).lookup id = _
        rw [HashMap.lookup_mapValues, hlookup]
        rfl
      refine ⟨_, hmark, ?_, ?_⟩
      · split_ifs
        · rfl
        · rfl
      · show _ ↔ w.status = .active ∧ now ≤ w.lastHeartbeat + grace
        by_cases hactive : w.status = .active
        · by_cases hstale : w.lastHeartbeat ≤ now ∧ grace < now - w.lastHeartbeat
          · rw [if_pos (by simp [hactive, hstale])]
            refine iff_of_false WorkerStatus.noConfusion fun h => ?_
            omega
          · rw [if_neg (by simpa [hactive] using hstale)]
            refine iff_of_true hactive ⟨hactive, ?_⟩
            omega
        · rw [if_neg (by simp [hactive])]
          exact iff_of_false hactive fun h => hactive h.1

/-- Without a further contact the worker stays active while all collections
tolerate its time stamp. -/
theorem after_silence {w : WorkerInfo Uuid} (hw : registry.getWorker id = some w)
    {signals : List (Nat × Signal Uuid)} (h : ∀ s ∈ signals, s.2.contact id s.1 = none) :
    (registry.after signals).Live id ↔
      w.status = .active ∧ ∀ s ∈ signals, s.2.Tolerates w.lastHeartbeat s.1 := by
  induction signals generalizing registry w with
  | nil =>
      show (registry.getWorker id).map WorkerInfo.status = some .active ↔ _
      rw [hw]
      simp
  | cons s signals ih =>
      rw [List.forall_mem_cons] at h
      obtain ⟨w', hw', hstamp, hstatus⟩ := receive_other hw h.1
      rw [List.forall_mem_cons, ← and_assoc, ← hstatus, ← hstamp]
      exact ih hw' h.2

variable {earlier since : List (Nat × Signal Uuid)} {signal : Signal Uuid} {c : Contact}
  {now grace : Nat}

omit [DecidableEq Uuid] in
/-- With one grace the last collection is the strictest. -/
theorem tolerates_iff {supplied : Nat} (htimes : ∀ s ∈ since, s.1 ≤ now)
    (hgrace : ∀ s ∈ since, s.2.HasGrace grace) :
    (∀ s ∈ since ++ [(now, Signal.collect grace)], s.2.Tolerates supplied s.1) ↔
      now ≤ supplied + grace := by
  refine ⟨fun h => h (now, .collect grace) (by simp), fun h s hs => ?_⟩
  rcases List.mem_append.mp hs with hs | hs
  · have htime := htimes s hs
    have hsame := hgrace s hs
    obtain ⟨time, signal⟩ := s
    cases signal with
    | collect grace' =>
        obtain rfl : grace' = grace := hsame
        exact htime.trans h
    | _ => trivial
  · obtain rfl := List.mem_singleton.mp hs
    exact h

/-- Right after a collection, a worker announced as active is active if and only if
its last contact reached the master within the grace, exactly when the collections
judge the supplied time stamp as that contact.  With one grace this only compares
the time stamp with the time of arrival. -/
theorem live_iff (hcontact : signal.contact id c.arrival = some c) (hactive : c.status = .active)
    (hsince : ∀ s ∈ since, s.2.contact id s.1 = none)
    (htimes : ((earlier ++ (c.arrival, signal) :: since ++
      [(now, Signal.collect grace)]).map Prod.fst).Pairwise (· ≤ ·)) :
    ((((({} : Registry Uuid).after (earlier ++ (c.arrival, signal) :: since ++
        [(now, .collect grace)])).Live id ↔ now - c.arrival ≤ grace) ↔
      ((∀ s ∈ since ++ [(now, Signal.collect grace)], s.2.Tolerates c.supplied s.1) ↔
        now - c.arrival ≤ grace)) ∧
    ((∀ s ∈ since, s.2.HasGrace grace) →
      (((({} : Registry Uuid).after (earlier ++ (c.arrival, signal) :: since ++
          [(now, .collect grace)])).Live id ↔ now - c.arrival ≤ grace) ↔
        (now - c.supplied ≤ grace ↔ now - c.arrival ≤ grace)))) := by
  obtain ⟨w, hw, hstamp, hstatus⟩ := receive_contact (({} : Registry Uuid).after earlier) hcontact
  have hsilent : ∀ s ∈ since ++ [(now, Signal.collect grace)], s.2.contact id s.1 = none := by
    rw [List.forall_mem_append]
    exact ⟨hsince, fun s hs => List.mem_singleton.mp hs ▸ rfl⟩
  have hlive : (({} : Registry Uuid).after (earlier ++ (c.arrival, signal) :: since ++
      [(now, .collect grace)])).Live id ↔
      ∀ s ∈ since ++ [(now, Signal.collect grace)], s.2.Tolerates c.supplied s.1 := by
    rw [List.append_assoc, List.cons_append, after_append, ← hstamp]
    exact (after_silence hw hsilent).trans (and_iff_right (hstatus.trans hactive))
  rw [hlive]
  refine ⟨Iff.rfl, fun hgrace => ?_⟩
  have hlast : ∀ s ∈ since, s.1 ≤ now := by
    rw [List.map_append, List.pairwise_append] at htimes
    intro s hs
    refine htimes.2.2 s.1 (List.mem_map_of_mem ?_) now (List.mem_singleton_self now)
    exact List.mem_append_right _ (List.mem_cons_of_mem _ hs)
  rw [tolerates_iff hlast hgrace, Nat.sub_le_iff_le_add', Nat.sub_le_iff_le_add']

/-- A worker registers and sends a heartbeat, and is collected in time. -/
def beating : List (Nat × Signal Nat) :=
  [(100, .register { RoundRobinScheduler.idleWorker 1 .active with lastHeartbeat := 100 }),
    (104, .collect 10)]

theorem live_iff_beating :
    ((({} : Registry Nat).after (beating ++ (112, .heartbeat 1 {} "worker") :: [] ++
        [(120, .collect 10)])).Live 1 ↔ 120 - 112 ≤ 10) ↔ (120 - 112 ≤ 10 ↔ 120 - 112 ≤ 10) :=
  (live_iff (c := ⟨112, 112, .active⟩) rfl rfl (List.forall_mem_nil _) (by decide)).2
    (List.forall_mem_nil _)

/-- A worker whose clock is behind is marked down right after its registration. -/
theorem slow_clock_down :
    ¬ ∀ (earlier since : List (Nat × Signal Nat)) (signal : Signal Nat) (c : Contact)
        (id now grace : Nat), signal.contact id c.arrival = some c → c.status = .active →
      (∀ s ∈ since, s.2.contact id s.1 = none) →
      ((earlier ++ (c.arrival, signal) :: since ++
        [(now, Signal.collect grace)]).map Prod.fst).Pairwise (· ≤ ·) →
      (∀ s ∈ since, s.2.HasGrace grace) →
      ((({} : Registry Nat).after (earlier ++ (c.arrival, signal) :: since ++
        [(now, .collect grace)])).Live id ↔ now - c.arrival ≤ grace) := by
  intro h
  have hdown : ((({} : Registry Nat).after ([] ++ (100, .register
      (RoundRobinScheduler.idleWorker 1 .active)) :: [] ++ [(101, .collect 10)])).getWorker 1).map
      WorkerInfo.status = some .down := by decide
  have hlive := (h [] [] (.register (RoundRobinScheduler.idleWorker 1 .active))
    ⟨100, 0, .active⟩ 1 101 10 rfl rfl (List.forall_mem_nil _) (by decide)
    (List.forall_mem_nil _)).mpr (by decide)
  exact absurd (hdown.symm.trans hlive) (by decide)

end Registry
end ProcessingEngine

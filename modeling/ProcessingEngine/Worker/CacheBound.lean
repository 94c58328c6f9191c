import ProcessingEngine.Worker.CacheRuns
import Mathlib.Algebra.GroupWithZero.Nat

/-!
# The counters and the bound of a cache

While values are pushed to a new cache, its counters are the sizes of its buffer
and of its spill file (`Accounted`), and the buffer is empty or within the limit
together with what is spilled (`Bounded`).
-/

namespace ProcessingEngine

open Lib Text

variable {F : Type}

namespace CacheCall

def isPush : CacheCall F → Bool
  | .push _ => true
  | .pushBatch _ => true
  | _ => false

end CacheCall

namespace PartitionCache

/-- The counters of a cache to which the values have been pushed. -/
structure Accounted (host : Host F) (values : List (Value F)) (cache : PartitionCache F)
    (files : Files) : Prop where
  memory : cache.inMemoryBytes = (cache.inMemory.map (estimateSize host)).sum
  spilled : cache.spilledBytes = ((files.lookup cache.spillPath).map List.length).getD 0
  count : cache.recordCount = values.length

/-- What a push leaves in memory is within the limit. -/
def Bounded (cache : PartitionCache F) : Prop :=
  cache.inMemory = [] ∨ cache.totalSizeBytes ≤ cache.limitBytes

/-- The sum of the two counters is a `usize`, as it is where `total_size_bytes` does not
overflow. -/
def InRange (cache : PartitionCache F) : Prop :=
  cache.spilledBytes + cache.inMemoryBytes ≤ usizeMax

section

variable {host : Host F} {values : List (Value F)} {cache : PartitionCache F} {files : Files}

theorem accounted_new (host : Host F) (limitBytes : Nat) {spillPath : Path}
    (h : files.lookup spillPath = none) : Accounted host [] (new limitBytes spillPath) files := by
  refine ⟨rfl, ?_, rfl⟩
  show 0 = ((files.lookup spillPath).map List.length).getD 0
  rw [h]
  rfl

/-- The buffer is appended to the file, newlines included. -/
theorem spillToDisk_accounted (h : Accounted host values cache files) :
    ∃ cache' files', cache.spillToDisk host files = (.ok cache', files') ∧
      Accounted host values cache' files' ∧ cache'.inMemory = [] ∧
      cache'.spillPath = cache.spillPath ∧ cache'.limitBytes = cache.limitBytes := by
  unfold spillToDisk
  split
  · next hempty => exact ⟨cache, files, rfl, h, List.isEmpty_iff.mp hempty, rfl, rfl⟩
  · refine ⟨_, _, rfl, ⟨rfl, ?_, h.count⟩, rfl, rfl, rfl⟩
    show cache.spilledBytes + (host.jsonLines cache.inMemory).length =
      (((files.insert cache.spillPath _).lookup cache.spillPath).map List.length).getD 0
    rw [AList.lookup_insert, h.spilled, Option.map_some, Option.getD_some, List.length_append]
    cases files.lookup cache.spillPath <;> rfl

theorem grown_accounted (h : Accounted host values cache files) (value : Value F) :
    Accounted host (values ++ [value]) (cache.grown host value) files where
  memory := by
    show cache.inMemoryBytes + estimateSize host value =
      ((cache.inMemory ++ [value]).map (estimateSize host)).sum
    rw [h.memory, List.map_append, List.sum_append]
    simp
  spilled := h.spilled
  count := by
    show cache.recordCount + 1 = _
    rw [h.count, List.length_append, List.length_singleton]

theorem push_accounted (h : Accounted host values cache files) (value : Value F) :
    ∃ cache' files', cache.push host value files = (.ok cache', files') ∧
      Accounted host (values ++ [value]) cache' files' ∧ cache'.Bounded ∧
      cache'.spillPath = cache.spillPath ∧ cache'.limitBytes = cache.limitBytes := by
  have hgrown := grown_accounted h value
  rw [push_eq, maybeSpill]
  split
  · obtain ⟨cache', files', hspill, haccounted, hmemory, hpath, hlimit⟩ :=
      spillToDisk_accounted hgrown
    exact ⟨cache', files', hspill, haccounted, .inl hmemory, hpath, hlimit⟩
  · next hsize => exact ⟨_, files, rfl, hgrown, .inr (Nat.le_of_not_gt hsize), rfl, rfl⟩

theorem pushBatch_accounted (h : Accounted host values cache files) (hbounded : cache.Bounded)
    (more : List (Value F)) :
    ∃ cache' files', cache.pushBatch host more files = (.ok cache', files') ∧
      Accounted host (values ++ more) cache' files' ∧ cache'.Bounded ∧
      cache'.spillPath = cache.spillPath ∧ cache'.limitBytes = cache.limitBytes := by
  apply pushBatch_of_push (I := fun values cache' files =>
    Accounted host values cache' files ∧ cache'.Bounded ∧
      cache'.spillPath = cache.spillPath ∧ cache'.limitBytes = cache.limitBytes)
  · intro values cache₁ files value hcounted
    obtain ⟨cache₂, files₂, hpush, haccounted, hbounded₂, hpath, hlimit⟩ :=
      push_accounted hcounted.1 value
    exact ⟨cache₂, files₂, hpush, haccounted, hbounded₂, hpath.trans hcounted.2.2.1,
      hlimit.trans hcounted.2.2.2⟩
  · exact ⟨h, hbounded, rfl, rfl⟩

/-- A run of pushes keeps the counters and the bound. -/
theorem runCalls_accounted (h : Accounted host values cache files) (hbounded : cache.Bounded)
    {calls : List (CacheCall F)} (hcalls : ∀ call ∈ calls, call.isPush = true) :
    ∃ cache' files', cache.runCalls host calls files = (.ok ([], cache'), files') ∧
      Accounted host (values ++ calls.flatMap CacheCall.pushed) cache' files' ∧
      cache'.Bounded ∧ cache'.spillPath = cache.spillPath ∧
      cache'.limitBytes = cache.limitBytes := by
  induction calls generalizing values cache files with
  | nil => exact ⟨cache, files, rfl, by rwa [List.flatMap_nil, List.append_nil], hbounded, rfl, rfl⟩
  | cons call calls ih =>
      rw [List.forall_mem_cons] at hcalls
      have hcall : ∃ cache₁ files₁, Accounted host (values ++ call.pushed) cache₁ files₁ ∧
          cache₁.Bounded ∧ cache₁.spillPath = cache.spillPath ∧
          cache₁.limitBytes = cache.limitBytes ∧
          ∀ result, cache₁.runCalls host calls files₁ = result →
            cache.runCalls host (call :: calls) files = result := by
        cases call with
        | push value =>
            obtain ⟨cache₁, files₁, hpush, haccounted, hbounded₁, hpath, hlimit⟩ :=
              push_accounted h value
            refine ⟨cache₁, files₁, haccounted, hbounded₁, hpath, hlimit, fun result hrun => ?_⟩
            show (cache.push host value >>= _) files = _
            rw [Exec.bind_apply, hpush]
            exact hrun
        | pushBatch more =>
            obtain ⟨cache₁, files₁, hpush, haccounted, hbounded₁, hpath, hlimit⟩ :=
              pushBatch_accounted h hbounded more
            refine ⟨cache₁, files₁, haccounted, hbounded₁, hpath, hlimit, fun result hrun => ?_⟩
            show (cache.pushBatch host more >>= _) files = _
            rw [Exec.bind_apply, hpush]
            exact hrun
        | drain | other => cases hcalls.1
      obtain ⟨cache₁, files₁, haccounted, hbounded₁, hpath, hlimit, hcons⟩ := hcall
      obtain ⟨cache₂, files₂, hrun, haccounted₂, hbounded₂, hpath₂, hlimit₂⟩ :=
        ih haccounted hbounded₁ hcalls.2
      refine ⟨cache₂, files₂, hcons _ hrun, ?_, hbounded₂, hpath₂.trans hpath,
        hlimit₂.trans hlimit⟩
      rwa [List.flatMap_cons, ← List.append_assoc]

/-- The bound is one on the sum of the counters, unless the limit is `usize::MAX` and the
sum exceeds it. -/
theorem Bounded.of_inRange (h : cache.Bounded) (hmemory : Accounted host values cache files)
    (hrange : cache.limitBytes < usizeMax ∨ cache.InRange) :
    cache.inMemoryBytes ≤ cache.limitBytes ∧
      (cache.inMemory = [] ∨ cache.spilledBytes + cache.inMemoryBytes ≤ cache.limitBytes) := by
  rcases h with hempty | hsize
  · refine ⟨?_, .inl hempty⟩
    rw [hmemory.memory, hempty]
    exact Nat.zero_le _
  · have hsum : cache.spilledBytes + cache.inMemoryBytes ≤ cache.limitBytes := by
      rw [totalSizeBytes] at hsize
      rcases hrange with hlimit | hrange
      · omega
      · rwa [Nat.min_eq_left hrange] at hsize
    exact ⟨by omega, .inr hsum⟩

end

/-- After every call of a run of pushes to a new cache its counters are exact, and what is
in memory is within the limit, with what is spilled unless there is nothing. -/
theorem new_pushes_accounted (host : Host F) (limitBytes : Nat) {spillPath : Path}
    {files : Files} (hfresh : files.lookup spillPath = none) {calls : List (CacheCall F)}
    (hcalls : ∀ call ∈ calls, call.isPush = true) (n : Nat) :
    ∃ cache files', (new limitBytes spillPath).runCalls host (calls.take n) files =
        (.ok ([], cache), files') ∧
      cache.spillPath = spillPath ∧ cache.limitBytes = limitBytes ∧
      Accounted host ((calls.take n).flatMap CacheCall.pushed) cache files' ∧
      (cache.inMemory = [] ∨ cache.totalSizeBytes ≤ limitBytes) ∧
      (limitBytes < usizeMax ∨ cache.InRange → cache.inMemoryBytes ≤ limitBytes ∧
        (cache.inMemory = [] ∨ cache.spilledBytes + cache.inMemoryBytes ≤ limitBytes)) := by
  obtain ⟨cache, files', hrun, haccounted, hbounded, hpath, hlimit⟩ := runCalls_accounted
    (accounted_new host limitBytes hfresh) (Or.inl rfl)
    fun call hcall => hcalls call (List.mem_of_mem_take hcall)
  obtain rfl : cache.limitBytes = limitBytes := hlimit
  refine ⟨cache, files', hrun, hpath, rfl, haccounted, hbounded, ?_⟩
  exact hbounded.of_inRange haccounted

/-- A cache that spills in the middle of a batch. -/
theorem new_pushes_accounted_spilling :
    ∃ cache files', (new 12 ["spill"]).runCalls (Host.plain [])
        [.push (.string "a"), .pushBatch [.string "b", .string "loong"], .push .null] ∅ =
        (.ok ([], cache), files') ∧ cache.inMemoryBytes ≤ 12 := by
  have hcalls : ∀ call ∈ ([.push (.string "a"), .pushBatch [.string "b", .string "loong"],
      .push .null] : List (CacheCall Int)), call.isPush = true := by decide
  have hfresh : (∅ : Files).lookup ["spill"] = none := rfl
  obtain ⟨cache, files', hrun, -, -, -, -, hbound⟩ :=
    new_pushes_accounted (Host.plain []) 12 hfresh hcalls 3
  exact ⟨cache, files', hrun, (hbound (.inl (by decide))).1⟩

end PartitionCache
end ProcessingEngine

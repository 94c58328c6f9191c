import ProcessingEngine.Common.Dag
import ProcessingEngine.Worker.Shuffled

/-!
# The shuffle as a partition

A shuffle takes its inputs apart before it fills a bucket, so its records are
those of all inputs in their order.  `StablePartition` says what the buckets make
of them, and `ShuffleByKeyOp.execute_stable` that the output holds the buckets,
in memory or on disk: every record is in one bucket, a bucket keeps the order, and
records that a join finds equal by key are together.
-/

namespace ProcessingEngine

open Lib Text

variable {F : Type}

/-- The partition holds the values.  Those it has spilled follow in its file on what
was there `before`, the others are in memory. -/
structure PartitionData.Holds (host : Host F) (before after : Option Bytes)
    (values : List (Record F)) (p : PartitionData F) : Prop where
  count : p.recordCount = values.length
  split : ∃ onDisk, values = onDisk ++ p.cache.inMemory ∧
    match p.cache.spilledFile with
    | none => onDisk = []
    | some _ => after = some (before.getD [] ++ host.jsonLines onDisk)

namespace PartitionData

variable {host : Host F} {values : List (Record F)} {p : PartitionData F}

theorem holds_of_filled {before after : Files}
    (h : PartitionCache.Filled host before values p.cache after) :
    p.Holds host (before.lookup p.spillPath) (after.lookup p.spillPath) values := by
  obtain ⟨hcount, onDisk, hsplit, hfile⟩ := h
  refine ⟨hcount, onDisk, hsplit, ?_⟩
  cases hspilled : p.cache.spilledFile with
  | none =>
      rw [hspilled] at hfile
      exact hfile.1
  | some path =>
      rw [hspilled] at hfile
      show after.lookup p.cache.spillPath = _
      rw [hfile, AList.lookup_insert]
      rfl

/-- Without a leftover in its file, the partition gives its values back. -/
theorem Holds.intoParts {after : Option Bytes} (h : p.Holds host none after values)
    (hback : ∀ v ∈ values, host.ReadsBack v) {files : Files}
    (hfile : files.lookup p.spillPath = after) :
    (p.intoParts host files).1 = .ok (p.limitBytes, p.spillPath, values) := by
  obtain ⟨-, onDisk, hsplit, hdisk⟩ := h
  rw [PartitionData.intoParts, Exec.bind_apply, PartitionCache.drainAll, Exec.bind_apply]
  cases hspilled : p.cache.spilledFile with
  | none =>
      rw [hspilled] at hdisk
      rw [hsplit, hdisk]
      rfl
  | some path =>
      rw [hspilled] at hdisk
      obtain rfl := p.cache.spilled_at path hspilled
      have hread : host.parseLines (lines (host.jsonLines onDisk)) = .ok onDisk :=
        Host.parseLines_jsonLines fun v hv => hback v (hsplit ▸ List.mem_append_left _ hv)
      have hlookup : files.lookup p.cache.spillPath = some (host.jsonLines onDisk) :=
        hfile.trans hdisk
      simp only [PartitionCache.readSpilled, Exec.bind_apply, Files.read, Files.readOr_apply,
        hlookup, Exec.lift_apply, hread, Files.remove_apply, Exec.pure_apply, hsplit]

end PartitionData

namespace ShuffleByKeyOp

open JoinOp (extractKey)

variable {host : Host F} {key : String} {n : Nat} {records : List (Record F)}

/-- The buckets divide the records: no record is lost or added, a bucket keeps
their order, and records with the same key of a join are in the same one. -/
structure StablePartition (host : Host F) (key : String) (n : Nat) (records : List (Record F))
    (buckets : List (List (Record F))) : Prop where
  length : buckets.length = n
  perm : buckets.flatten.Perm records
  ordered : ∀ bucket ∈ buckets, bucket.Sublist records
  colocated : ∀ (l r : Fields F) (x : String), .object l ∈ records → .object r ∈ records →
    extractKey host l key = .ok x → extractKey host r key = .ok x →
    ∃ i < n, ∀ j bucket, buckets[j]? = some bucket →
      (.object l ∈ bucket ↔ j = i) ∧ (.object r ∈ bucket ↔ j = i)

/-- The text that a join compares is the one that is hashed. -/
theorem computeBucket_of_extractKey {fields : Fields F} {x : String}
    (h : extractKey host fields key = .ok x) (n : Nat) :
    computeBucket host (.object fields) key n = host.hash (.string x) % n := by
  have hkeyed : JoinOp.keyed host ⟨key, .inner⟩ (.object fields) = .ok (x, fields) := by
    simp only [JoinOp.keyed, Value.asObject, h, Except.map]
  rw [computeBucket, JoinOp.hashInput_of_keyed hkeyed]

theorem stablePartition_buckets (host : Host F) (key : String) (hn : 1 ≤ n)
    (records : List (Record F)) :
    StablePartition host key n records (buckets host ⟨key, n⟩ records) := by
  have hlt : ∀ r : Record F, computeBucket host r key n < n := fun r =>
    computeBucket_lt host r key hn
  rw [buckets_eq]
  dsimp only
  constructor
  · rw [List.length_map, List.length_range]
  · have hperm := flatMap_filter_perm (fun r => computeBucket host r key n) n records
    rw [List.filter_eq_self.mpr fun r _ => decide_eq_true (hlt r)] at hperm
    exact hperm
  · intro bucket hbucket
    obtain ⟨i, -, rfl⟩ := List.mem_map.mp hbucket
    exact List.filter_sublist
  · intro l r x hl hr hxl hxr
    have hmem : ∀ fields : Fields F, .object fields ∈ records →
        extractKey host fields key = .ok x → ∀ j bucket,
        ((List.range n).map fun i => records.filter fun r =>
          computeBucket host r key n == i)[j]? = some bucket →
        (.object fields ∈ bucket ↔ j = host.hash (.string x) % n) := by
      intro fields hfields hx j bucket hbucket
      rw [List.getElem?_map, Option.map_eq_some_iff] at hbucket
      obtain ⟨i, hi, rfl⟩ := hbucket
      obtain ⟨hj, heq⟩ := List.getElem?_eq_some_iff.mp hi
      rw [List.getElem_range] at heq
      subst heq
      rw [List.mem_filter, beq_iff_eq, computeBucket_of_extractKey hx, and_iff_right hfields]
      exact eq_comm
    exact ⟨host.hash (.string x) % n, Nat.mod_lt _ hn, fun j bucket hbucket =>
      ⟨hmem l hl hxl j bucket hbucket, hmem r hr hxr j bucket hbucket⟩⟩

theorem bucketPath_injective (base : Path) : Function.Injective (bucketPath base) := by
  intro i j h
  have hlast := congrArg List.getLast? h
  simp only [bucketPath, List.getLast?_concat, Option.some.injEq] at hlast
  exact DagSpecification.eq_of_numbered_eq hlast

/-- The output partition `i`, filled from the files `before` with the bucket. -/
structure Holding (host : Host F) (limitBytes : Nat) (base : Path) (before after : Files)
    (bucket : List (Record F) × Nat) (p : PartitionData F) : Prop where
  partitionId : p.partitionId = bucket.2
  spillPath : p.spillPath = bucketPath base bucket.2
  limitBytes : p.limitBytes = limitBytes
  holds : p.Holds host (before.lookup p.spillPath) (after.lookup p.spillPath) bucket.1

/-- The loop that fills the buckets, whose files are as in `before` until then. -/
theorem forEach_fromRecords (host : Host F) (limitBytes : Nat) (base : Path) {before : Files}
    {buckets : List (List (Record F) × Nat)} (hnodup : (buckets.map Prod.snd).Nodup)
    {files : Files} (hbefore : ∀ bucket ∈ buckets,
      files.lookup (bucketPath base bucket.2) = before.lookup (bucketPath base bucket.2)) :
    ∃ out after, Exec.forEach (fun (records, idx) =>
        PartitionData.fromRecords host idx limitBytes (bucketPath base idx) records)
          buckets files = (.ok out, after) ∧
      List.Forall₂ (Holding host limitBytes base before after) buckets out ∧
      ∀ i, i ∉ buckets.map Prod.snd →
        after.lookup (bucketPath base i) = files.lookup (bucketPath base i) := by
  induction buckets generalizing files with
  | nil => exact ⟨[], files, rfl, .nil, fun _ _ => rfl⟩
  | cons bucket buckets ih =>
      rw [List.map_cons, List.nodup_cons] at hnodup
      rw [List.forall_mem_cons] at hbefore
      obtain ⟨p, mid, hfrom, hfilled, hid, hpath, hlimit⟩ := PartitionData.fromRecords_filled host
        bucket.2 limitBytes (bucketPath base bucket.2) bucket.1 files
      have hothers : ∀ i, i ≠ bucket.2 →
          mid.lookup (bucketPath base i) = files.lookup (bucketPath base i) := by
        intro i hi
        refine hfilled.lookup_of_ne fun e => hi (bucketPath_injective base ?_)
        exact e.trans hpath
      have hmid : ∀ b ∈ buckets,
          mid.lookup (bucketPath base b.2) = before.lookup (bucketPath base b.2) := by
        intro b hb
        have hne : b.2 ≠ bucket.2 := fun e => hnodup.1 (e ▸ List.mem_map_of_mem hb)
        exact (hothers b.2 hne).trans (hbefore.2 b hb)
      obtain ⟨out, after, hloop, hall, hkept⟩ := ih hnodup.2 hmid
      refine ⟨p :: out, after, ?_, .cons ⟨hid, hpath, hlimit, ?_⟩ hall, ?_⟩
      · show (PartitionData.fromRecords host bucket.2 limitBytes (bucketPath base bucket.2)
          bucket.1 >>= _) files = _
        rw [Exec.bind_apply, hfrom]
        simp only [Exec.bind_apply, hloop, Exec.pure_apply]
      · have hheld := PartitionData.holds_of_filled hfilled
        rw [hpath] at hheld ⊢
        rw [hkept bucket.2 hnodup.1, ← hbefore.1]
        exact hheld
      · intro i hi
        rw [List.map_cons, List.mem_cons, not_or] at hi
        exact (hkept i hi.2).trans (hothers i hi.1)

/-- A shuffle is a stable partition of the records of its inputs.  Its output holds
the buckets, and gives them back if no files of such names are left over. -/
theorem execute_stable (host : Host F) (key : String) (hn : 1 ≤ n)
    {partitions : List (PartitionData F)} {files drained : Files}
    (hdrain : drainPartitions host partitions files = (.ok records, drained)) :
    ∃ buckets out after, execute host ⟨key, n⟩ partitions files = (.ok out, after) ∧
      (∀ r : Record F, computeBucket host r key n < n) ∧
      StablePartition host key n records buckets ∧
      out.map PartitionData.partitionId = List.range n ∧
      List.Forall₂ (fun bucket p => p.Holds host (drained.lookup p.spillPath)
        (after.lookup p.spillPath) bucket) buckets out ∧
      ((∀ i < n, drained.lookup (bucketPath (spillBase host partitions) i) = none) →
        (∀ r ∈ records, host.ReadsBack r) →
        List.Forall₂ (fun bucket p =>
          (p.intoParts host after).1 = .ok (p.limitBytes, p.spillPath, bucket)) buckets out) := by
  have hlt : ∀ r : Record F, computeBucket host r key n < n := fun r =>
    computeBucket_lt host r key hn
  have hlength := length_buckets host ⟨key, n⟩ records
  have hids : ((buckets host ⟨key, n⟩ records).zipIdx).map Prod.snd = List.range n := by
    rw [List.zipIdx_map_snd, hlength, List.range_eq_range']
  obtain ⟨out, after, hloop, hall, -⟩ := forEach_fromRecords host (limit partitions)
    (spillBase host partitions) (hids ▸ List.nodup_range) fun bucket _ =>
      (rfl : drained.lookup _ = drained.lookup _)
  have hstable := stablePartition_buckets host key hn records
  refine ⟨buckets host ⟨key, n⟩ records, out, after, ?_, hlt, hstable, ?_, ?_, ?_⟩
  · have hpos : ¬ n = 0 := by omega
    rw [execute, if_neg hpos, Exec.bind_apply, hdrain]
    exact hloop
  · have heq : List.Forall₂ (· = ·) (out.map PartitionData.partitionId)
        ((buckets host ⟨key, n⟩ records).zipIdx.map Prod.snd) := by
      rw [List.forall₂_map_left_iff, List.forall₂_map_right_iff]
      exact (hall.imp fun _ _ h => h.partitionId).flip
    rw [List.forall₂_eq_eq_eq, hids] at heq
    exact heq
  · rw [← List.zipIdx_map_fst 0 (buckets host ⟨key, n⟩ records), List.forall₂_map_left_iff]
    exact hall.imp fun _ _ h => h.holds
  · intro hfresh hback
    have hbuckets : ∀ bucket ∈ (buckets host ⟨key, n⟩ records).zipIdx,
        bucket.2 < n ∧ bucket.1.Sublist records := by
      intro bucket hbucket
      have hid : bucket.2 ∈ List.range n := hids ▸ List.mem_map_of_mem hbucket
      have hmem := List.mem_map_of_mem (f := Prod.fst) hbucket
      rw [List.zipIdx_map_fst] at hmem
      exact ⟨List.mem_range.mp hid, hstable.ordered _ hmem⟩
    rw [← List.zipIdx_map_fst 0 (buckets host ⟨key, n⟩ records), List.forall₂_map_left_iff]
    refine ((List.forall₂_and_left _ _).mpr ⟨hbuckets, hall⟩).imp fun bucket p h => ?_
    have hholds := h.2.holds
    rw [h.2.spillPath, hfresh bucket.2 h.1.1, ← h.2.spillPath] at hholds
    exact hholds.intoParts (fun r hr => hback r (h.1.2.subset hr)) rfl

/-- The key `10` as a text and as a number, in two partitions. -/
def tens : List (Record Int) :=
  [keyedRecord "10" "x", keyedRecord "a" "y", .object [("k", .number (.int 10))]]

def tensParts : List (PartitionData Int) :=
  [.stored lengthHost 0 1000 ["data", "spill"] (tens.take 2),
    .stored lengthHost 1 1000 ["data", "spill"] (tens.drop 2)]

theorem execute_stable_tens :
    ∃ buckets out after, execute lengthHost ⟨"k", 2⟩ tensParts ∅ = (.ok out, after) ∧
      StablePartition lengthHost "k" 2 tens buckets ∧
      out.map PartitionData.partitionId = [0, 1] ∧
      List.Forall₂ (fun bucket p => p.Holds lengthHost none (after.lookup p.spillPath) bucket)
        buckets out := by
  have hres : ∀ p ∈ tensParts, p.Resident := by
    simp only [tensParts, List.forall_mem_cons, PartitionData.stored_resident_iff]
    exact ⟨by decide +kernel, by decide +kernel, by simp⟩
  have hheld : tensParts.flatMap PartitionData.held = tens := by decide +kernel
  have hdrain : drainPartitions lengthHost tensParts ∅ = (.ok tens, ∅) := by
    rw [drainPartitions_of_resident hres, hheld]
  obtain ⟨buckets, out, after, hrun, -, hstable, hids, hholds, -⟩ :=
    execute_stable lengthHost "k" (n := 2) (by omega) hdrain
  exact ⟨buckets, out, after, hrun, hstable, hids, hholds⟩

end ShuffleByKeyOp
end ProcessingEngine

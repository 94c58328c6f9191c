import ProcessingEngine.Worker.Memory

/-!
# Shuffled inputs

A shuffle deals the records to its buckets by their key, so the rows of one key
are in one bucket and in their order.  Joining or reducing the buckets one by
one therefore yields what the operator makes of all records.  Numbered with
their buckets, the records are dealt as by `Lib.slice`, which gives both results.
-/

namespace ProcessingEngine

open Lib

variable {F : Type}

/-! ### The buckets -/

namespace ShuffleByKeyOp

theorem modify_map_range {α : Type} (f : Nat → α) (g : α → α) (n j : Nat) :
    ((List.range n).map f).modify j g =
      (List.range n).map fun i => if i = j then g (f i) else f i := by
  refine List.ext_getElem (by simp) fun i hi _ => ?_
  rw [List.getElem_modify]
  by_cases hj : j = i
  · simp [hj]
  · have hne : ¬ i = j := fun e => hj e.symm
    simp [hj, hne]

/-- A bucket holds its records in order. -/
theorem buckets_eq (host : Host F) (op : ShuffleByKeyOp) (records : List (Record F)) :
    op.buckets host records = (List.range op.totalPartitions).map fun i =>
      records.filter fun r => computeBucket host r op.key op.totalPartitions == i := by
  have hfold : ∀ f : Nat → List (Record F),
      records.foldl (fun buckets r =>
          buckets.modify (computeBucket host r op.key op.totalPartitions) (· ++ [r]))
        ((List.range op.totalPartitions).map f) =
      (List.range op.totalPartitions).map fun i => f i ++
        records.filter fun r => computeBucket host r op.key op.totalPartitions == i := by
    induction records with
    | nil => simp
    | cons r records ih =>
        intro f
        rw [List.foldl_cons, modify_map_range, ih]
        refine List.map_congr_left fun i _ => ?_
        by_cases hi : i = computeBucket host r op.key op.totalPartitions
        · subst hi
          simp
        · have hne : ¬ computeBucket host r op.key op.totalPartitions = i := fun e => hi e.symm
          simp [hi, hne]
  have hinit : List.replicate op.totalPartitions ([] : List (Record F)) =
      (List.range op.totalPartitions).map fun _ => [] := by
    rw [List.map_const', List.length_range]
  rw [buckets, hinit, hfold]
  rfl

theorem computeBucket_lt (host : Host F) (value : Value F) (key : String) {n : Nat} (hn : 0 < n) :
    computeBucket host value key n < n := Nat.mod_lt _ hn

/-- The records numbered with their buckets. -/
def dealt (host : Host F) (key : String) (n : Nat) (records : List (Record F)) :
    List (Nat × Record F) :=
  records.map fun r => (computeBucket host r key n, r)

theorem slice_dealt (host : Host F) (key : String) {n : Nat} (hn : 0 < n) (i : Nat)
    (records : List (Record F)) :
    slice n i (dealt host key n records) =
      records.filter fun r => computeBucket host r key n == i :=
  slice_map_number (fun r => computeBucket_lt host r key hn) records

theorem map_snd_dealt (host : Host F) (key : String) (n : Nat) (records : List (Record F)) :
    (dealt host key n records).map Prod.snd = records := by
  rw [dealt, List.map_map]
  exact List.map_id _

theorem zipIdx_map_range {α : Type} (f : Nat → α) (n : Nat) :
    ((List.range n).map f).zipIdx = (List.range n).map fun i => (f i, i) := by
  refine List.ext_getElem (by simp) fun i hi _ => ?_
  simp

/-- The records that go to bucket `i`. -/
def bucketRecords (host : Host F) (key : String) (n : Nat) (partitions : List (PartitionData F))
    (i : Nat) : List (Record F) :=
  (partitions.flatMap PartitionData.held).filter fun r => computeBucket host r key n == i

/-- The bucket `i` in memory. -/
def bucketPart (host : Host F) (key : String) (n : Nat) (partitions : List (PartitionData F))
    (i : Nat) : PartitionData F :=
  .stored host i (limit partitions) (bucketPath (spillBase host partitions) i)
    (bucketRecords host key n partitions i)

section

variable {host : Host F} {partitions : List (PartitionData F)}

theorem bucketRecords_fit
    (hfit : host.sizeOf (partitions.flatMap PartitionData.held) ≤ limit partitions)
    (key : String) (n i : Nat) :
    host.sizeOf (bucketRecords host key n partitions i) ≤ limit partitions :=
  le_trans (host.sizeOf_le_of_sublist List.filter_sublist) hfit

theorem bucketPart_resident
    (hfit : host.sizeOf (partitions.flatMap PartitionData.held) ≤ limit partitions)
    (key : String) (n i : Nat) : (bucketPart host key n partitions i).Resident :=
  PartitionData.stored_resident_iff.mpr (bucketRecords_fit hfit key n i)

theorem bucketPart_held
    (hfit : host.sizeOf (partitions.flatMap PartitionData.held) ≤ limit partitions)
    (key : String) (n i : Nat) :
    (bucketPart host key n partitions i).held = bucketRecords host key n partitions i :=
  PartitionData.stored_held (bucketRecords_fit hfit key n i)

theorem bucketPart_limitBytes (key : String) (n i : Nat) :
    (bucketPart host key n partitions i).limitBytes = limit partitions :=
  PartitionData.stored_limitBytes

/-- A shuffle in memory. -/
theorem execute_of_resident {key : String} {n : Nat} (hn : 0 < n)
    (hres : ∀ p ∈ partitions, p.Resident)
    (hfit : host.sizeOf (partitions.flatMap PartitionData.held) ≤ limit partitions)
    (files : Files) :
    execute host ⟨key, n⟩ partitions files =
      (.ok ((List.range n).map (bucketPart host key n partitions)), files) := by
  have hpos : ¬ n = 0 := by omega
  have hstore : ∀ i ∈ List.range n,
      PartitionData.fromRecords host i (limit partitions)
        (bucketPath (spillBase host partitions) i) (bucketRecords host key n partitions i) files =
      (.ok (bucketPart host key n partitions i), files) := fun i _ =>
    PartitionData.fromRecords_of_fits (bucketRecords_fit hfit key n i) files
  rw [execute, if_neg hpos, Exec.bind_apply, drainPartitions_of_resident hres]
  dsimp only
  rw [buckets_eq, zipIdx_map_range, Exec.forEach_map]
  exact Exec.forEach_of_forall hstore

end

end ShuffleByKeyOp

/-! ### A host that tells keys apart by their length -/

def lengthHost : Host Int where
  __ := Host.plain []
  hash
    | .string s => s.length
    | .bool _ => 1
    | .zero => 0

def keyedRecord (k v : String) : Record Int := .object [("k", .string k), ("v", .string v)]

/-! ### Reducing by key -/

namespace ReduceByKeyOp

open ShuffleByKeyOp

theorem hashInput_of_keyOf {host : Host F} {key x : String} {r : Record F}
    (h : keyOf key r = some x) : hashInput host r key = .string x := by
  obtain ⟨v, hget, hstr⟩ := Option.bind_eq_some_iff.mp h
  cases v with
  | string s =>
      cases hstr
      rw [hashInput, hget]
  | _ => cases hstr

theorem colocated_dealt (host : Host F) (key : String) (n : Nat) {records : List (Record F)}
    (h : ∀ r ∈ records, (keyOf key r).isSome) :
    Colocated n (keyOf key) (dealt host key n records) := by
  intro r hr s hs hsame
  obtain ⟨a, ha, rfl⟩ := List.mem_map.mp hr
  obtain ⟨b, hb, rfl⟩ := List.mem_map.mp hs
  obtain ⟨x, hx⟩ := Option.isSome_iff_exists.mp (h a ha)
  have hy : keyOf key b = some x := hsame.symm.trans hx
  show computeBucket host a key n % n = computeBucket host b key n % n
  rw [computeBucket, computeBucket, hashInput_of_keyOf hx, hashInput_of_keyOf hy]

/-- The aggregations of the buckets make up that of all records. -/
theorem aggregate_buckets_perm (host : Host F) (op : ReduceByKeyOp) (reducer : ReducerKind)
    {n : Nat} (hn : 0 < n) {records : List (Record F)}
    (h : ∀ r ∈ records, (keyOf op.key r).isSome) :
    ((List.range n).flatMap fun i => aggregate host op reducer
        (records.filter fun r => computeBucket host r op.key n == i)).Perm
      (aggregate host op reducer records) := by
  have hperm := groupMap_slices_perm hn (colocated_dealt host op.key n h)
    fun x group => outRecord host op reducer (x.getD "") group
  rw [map_snd_dealt, ← aggregate_eq_groupMap host op reducer h] at hperm
  refine List.Perm.trans (.of_eq (List.flatMap_congr fun i _ => ?_)) hperm
  rw [slice_dealt host op.key hn, aggregate_eq_groupMap host op reducer fun r hr =>
    h r (List.mem_of_mem_filter hr)]

theorem execute_of_resident {host : Host F} {op : ReduceByKeyOp} {reducer : ReducerKind}
    (hreducer : ReducerKind.parse op.reducer = .ok reducer) {first : PartitionData F}
    {rest : List (PartitionData F)} (hres : ∀ p ∈ first :: rest, p.Resident)
    (hkey : ∀ r ∈ (first :: rest).flatMap PartitionData.held, (keyOf op.key r).isSome)
    (hfit : host.sizeOf (aggregate host op reducer ((first :: rest).flatMap PartitionData.held)) ≤
      first.limitBytes) (order : HashOrder String) (files : Files) :
    ∃ out : PartitionData F, execute host order op (first :: rest) files = (.ok [out], files) ∧
      out.Resident ∧ out.held.Perm
        (aggregate host op reducer ((first :: rest).flatMap PartitionData.held)) := by
  obtain ⟨groups, hgroups⟩ := groupRecords_of_isSome hkey ∅
  have hperm : (outRecords host op reducer order groups).Perm _ := outRecords_perm order hgroups
  have hsize : host.sizeOf (outRecords host op reducer order groups) ≤ first.limitBytes := by
    rw [host.sizeOf_perm hperm]
    exact hfit
  refine ⟨.stored host first.partitionId first.limitBytes first.spillPath
    (outRecords host op reducer order groups), ?_, PartitionData.stored_resident_iff.mpr hsize, ?_⟩
  · simp only [execute, hreducer, Exec.bind_apply, groupPartitions_of_resident hres, hgroups,
      PartitionData.fromRecords_of_fits hsize, Exec.pure_apply]
  · rw [PartitionData.stored_held hsize]
    exact hperm

/-- Shuffle the partitions and reduce each bucket by itself. -/
def bucketwise (host : Host F) (orders : Nat → HashOrder String) (op : ReduceByKeyOp) (n : Nat)
    (partitions : List (PartitionData F)) : Action (List (PartitionData F)) := do
  let buckets ← ShuffleByKeyOp.execute host ⟨op.key, n⟩ partitions
  let reduced ← Exec.forEach (fun (bucket, i) => execute host (orders i) op [bucket])
    buckets.zipIdx
  return reduced.flatten

/-- The aggregation of a bucket is no larger than that of all records. -/
theorem sizeOf_aggregate_bucket_le (host : Host F) (op : ReduceByKeyOp) (reducer : ReducerKind)
    {n i : Nat} (hi : i < n) {records : List (Record F)}
    (h : ∀ r ∈ records, (keyOf op.key r).isSome) :
    host.sizeOf (aggregate host op reducer
        (records.filter fun r => computeBucket host r op.key n == i)) ≤
      host.sizeOf (aggregate host op reducer records) := by
  have hperm := aggregate_buckets_perm host op reducer (by omega : 0 < n) h
  refine le_trans (host.sizeOf_le_of_sublist ?_) (host.sizeOf_perm hperm).le
  rw [List.flatMap]
  exact List.sublist_flatten_of_mem (List.mem_map_of_mem (List.mem_range.mpr hi))

theorem bucketwise_of_resident {host : Host F} {op : ReduceByKeyOp} {reducer : ReducerKind}
    (hreducer : ReducerKind.parse op.reducer = .ok reducer) {n : Nat} (hn : 0 < n)
    {partitions : List (PartitionData F)} (hres : ∀ p ∈ partitions, p.Resident)
    (hkey : ∀ r ∈ partitions.flatMap PartitionData.held, (keyOf op.key r).isSome)
    (hfit : host.sizeOf (partitions.flatMap PartitionData.held) ≤ limit partitions)
    (hout : host.sizeOf (aggregate host op reducer (partitions.flatMap PartitionData.held)) ≤
      limit partitions) (orders : Nat → HashOrder String) (files : Files) :
    ∃ reduced, bucketwise host orders op n partitions files = (.ok reduced, files) ∧
      (∀ p ∈ reduced, p.Resident) ∧ (reduced.flatMap PartitionData.held).Perm
        (aggregate host op reducer (partitions.flatMap PartitionData.held)) := by
  have heach : ∀ i ∈ List.range n, ∃ out,
      execute host (orders i) op [bucketPart host op.key n partitions i] files =
        (.ok out, files) ∧ (∀ p ∈ out, p.Resident) ∧ (out.flatMap PartitionData.held).Perm
        (aggregate host op reducer (bucketRecords host op.key n partitions i)) := by
    intro i hi
    have hheld : [bucketPart host op.key n partitions i].flatMap PartitionData.held =
        bucketRecords host op.key n partitions i := by
      rw [List.flatMap_singleton, bucketPart_held hfit]
    have hone : ∀ p ∈ [bucketPart host op.key n partitions i], p.Resident :=
      List.forall_mem_singleton.mpr (bucketPart_resident hfit op.key n i)
    have hkeys : ∀ r ∈ [bucketPart host op.key n partitions i].flatMap PartitionData.held,
        (keyOf op.key r).isSome := by
      intro r hr
      rw [hheld] at hr
      exact hkey r (List.mem_of_mem_filter hr)
    have hsize : host.sizeOf (aggregate host op reducer
        ([bucketPart host op.key n partitions i].flatMap PartitionData.held)) ≤
        (bucketPart host op.key n partitions i).limitBytes := by
      have hle := sizeOf_aggregate_bucket_le host op reducer (List.mem_range.mp hi) hkey
      rw [hheld, bucketPart_limitBytes]
      exact le_trans hle hout
    obtain ⟨out, hexec, hresident, hperm⟩ :=
      execute_of_resident hreducer hone hkeys hsize (orders i) files
    rw [hheld] at hperm
    exact ⟨[out], hexec, List.forall_mem_singleton.mpr hresident,
      by rwa [List.flatMap_singleton]⟩
  obtain ⟨reduced, hloop, hresident, hperm⟩ := Exec.forEach_flatten heach
  refine ⟨reduced.flatten, ?_, hresident, hperm.trans ?_⟩
  · rw [bucketwise, Exec.bind_apply, ShuffleByKeyOp.execute_of_resident hn hres hfit]
    dsimp only
    rw [zipIdx_map_range, Exec.bind_apply, Exec.forEach_map]
    dsimp only
    rw [hloop]
    rfl
  · exact aggregate_buckets_perm host op reducer hn hkey

/-- Reducing the buckets of a shuffle gives the records of the reduced whole. -/
theorem reduce_bucketwise_perm (host : Host F) (op : ReduceByKeyOp) {reducer : ReducerKind}
    (hreducer : ReducerKind.parse op.reducer = .ok reducer) {n : Nat} (hn : 1 ≤ n)
    {partitions : List (PartitionData F)} (hres : ∀ p ∈ partitions, p.Resident)
    (hkey : ∀ r ∈ partitions.flatMap PartitionData.held, ∃ fields x,
      r = .object fields ∧ Fields.get op.key fields = some (.string x))
    (hfit : host.sizeOf (partitions.flatMap PartitionData.held) ≤ limit partitions)
    (hout : host.sizeOf (aggregate host op reducer (partitions.flatMap PartitionData.held)) ≤
      limit partitions) (orders : Nat → HashOrder String) (order : HashOrder String)
    (files : Files) :
    ∃ reduced whole, bucketwise host orders op n partitions files = (.ok reduced, files) ∧
      execute host order op partitions files = (.ok whole, files) ∧
      (∀ p ∈ reduced ++ whole, p.Resident) ∧
      (reduced.flatMap PartitionData.held).Perm (whole.flatMap PartitionData.held) := by
  have hsome : ∀ r ∈ partitions.flatMap PartitionData.held, (keyOf op.key r).isSome := by
    intro r hr
    obtain ⟨fields, x, rfl, hget⟩ := hkey r hr
    show ((Fields.get op.key fields).bind Value.asStr).isSome
    rw [hget]
    rfl
  obtain ⟨reduced, hreduced, hresident, hperm⟩ := bucketwise_of_resident hreducer hn hres hsome
    hfit hout orders files
  cases partitions with
  | nil => exact ⟨reduced, [], hreduced, rfl, by simpa using hresident, hperm⟩
  | cons first rest =>
      obtain ⟨out, hexec, hwhole, hperm'⟩ := execute_of_resident hreducer hres hsome hout
        order files
      refine ⟨reduced, [out], hreduced, hexec, ?_, ?_⟩
      · exact List.forall_mem_append.mpr ⟨hresident, by simpa using hwhole⟩
      · rw [List.flatMap_singleton]
        exact hperm.trans hperm'.symm

/-- Three records with two keys in two partitions. -/
def twoKeys : List (PartitionData Int) :=
  [.stored lengthHost 0 1000 ["data", "spill"] [keyedRecord "a" "x"],
    .stored lengthHost 1 1000 ["data", "spill"] [keyedRecord "bb" "y", keyedRecord "a" "z"]]

theorem reduce_bucketwise_perm_twoKeys :
    ∃ reduced whole,
      bucketwise lengthHost (fun _ => .insertion) ⟨"k", "collect"⟩ 2 twoKeys ∅ =
        (.ok reduced, ∅) ∧
      execute lengthHost .insertion ⟨"k", "collect"⟩ twoKeys ∅ = (.ok whole, ∅) ∧
      (∀ p ∈ reduced ++ whole, p.Resident) ∧
      (reduced.flatMap PartitionData.held).Perm (whole.flatMap PartitionData.held) := by
  have hkey : ∀ r ∈ twoKeys.flatMap PartitionData.held, ∃ fields x,
      r = .object fields ∧ Fields.get "k" fields = some (.string x) := by
    rw [show twoKeys.flatMap PartitionData.held =
      [keyedRecord "a" "x", keyedRecord "bb" "y", keyedRecord "a" "z"] by decide +kernel]
    simp [keyedRecord, Fields.get]
  have hres : ∀ p ∈ twoKeys, p.Resident := by
    simp only [twoKeys, List.forall_mem_cons, PartitionData.stored_resident_iff]
    exact ⟨by decide +kernel, by decide +kernel, by simp⟩
  exact reduce_bucketwise_perm lengthHost ⟨"k", "collect"⟩ rfl (by omega) hres hkey
    (by decide +kernel) (by decide +kernel) _ _ ∅

end ReduceByKeyOp

/-! ### Joining -/

namespace JoinOp

open ShuffleByKeyOp

/-- An object with a string or a number under the key. -/
def Keyable (key : String) (record : Record F) : Prop :=
  ∃ fields, record = .object fields ∧
    ((∃ s, Fields.get key fields = some (.string s)) ∨
      ∃ n, Fields.get key fields = some (.number n))

theorem keyed_of_keyable (host : Host F) {op : JoinOp} {record : Record F}
    (h : Keyable op.key record) : ∃ row, keyed host op record = .ok row := by
  obtain ⟨fields, rfl, ⟨s, hget⟩ | ⟨x, hget⟩⟩ := h
  · exact ⟨(s, fields), by simp [keyed, Value.asObject, extractKey, hget, Except.map]⟩
  · exact ⟨(host.numberText x, fields),
      by simp [keyed, Value.asObject, extractKey, hget, Except.map]⟩

/-- The text that is hashed is the one that is compared. -/
theorem hashInput_of_keyed {host : Host F} {op : JoinOp} {record : Record F}
    {row : String × Fields F} (h : keyed host op record = .ok row) :
    hashInput host record op.key = .string row.1 := by
  cases record with
  | object fields =>
      simp only [keyed, Value.asObject, extractKey] at h
      have hvalue : (Value.object fields).get op.key = Fields.get op.key fields := rfl
      rw [hashInput, hvalue]
      cases hget : Fields.get op.key fields with
      | none => simp [hget, Except.map] at h
      | some v =>
          rw [hget] at h
          cases v with
          | string s =>
              cases h
              rfl
          | number x =>
              cases h
              rfl
          | _ => cases h
  | _ => cases h

/-- The rows of the records that go to bucket `i`. -/
theorem mapM_keyed_filter {host : Host F} {op : JoinOp} {records : List (Record F)}
    {rows : List (String × Fields F)} (h : records.mapM (keyed host op) = .ok rows) (n i : Nat) :
    (records.filter fun r => computeBucket host r op.key n == i).mapM (keyed host op) =
      .ok (rows.filter fun row => host.hash (.string row.1) % n == i) := by
  induction records generalizing rows with
  | nil =>
      cases h
      rfl
  | cons r records ih =>
      rw [List.mapM_cons] at h
      cases hrow : keyed host op r with
      | error e => simp [hrow, bind, Except.bind] at h
      | ok row =>
          cases hrows : records.mapM (keyed host op) with
          | error e => simp [hrow, hrows, bind, Except.bind] at h
          | ok rows' =>
              rw [hrow, hrows] at h
              cases h
              have ih := ih hrows
              have hbucket : computeBucket host r op.key n = host.hash (.string row.1) % n := by
                rw [computeBucket, hashInput_of_keyed hrow]
              by_cases hi : host.hash (.string row.1) % n = i
              · rw [List.filter_cons_of_pos (by simp [hbucket, hi]),
                  List.filter_cons_of_pos (by simp [hi]), List.mapM_cons, hrow, ih]
                rfl
              · rw [List.filter_cons_of_neg (by simp [hbucket, hi]),
                  List.filter_cons_of_neg (by simp [hi])]
                exact ih

theorem mapM_keyed_of_keyable (host : Host F) {op : JoinOp} {records : List (Record F)}
    (h : ∀ r ∈ records, Keyable op.key r) : ∃ rows, records.mapM (keyed host op) = .ok rows := by
  induction records with
  | nil => exact ⟨[], rfl⟩
  | cons r records ih =>
      obtain ⟨row, hrow⟩ := keyed_of_keyable host (h r List.mem_cons_self)
      obtain ⟨rows, hrows⟩ := ih fun s hs => h s (List.mem_cons_of_mem r hs)
      refine ⟨row :: rows, ?_⟩
      rw [List.mapM_cons, hrow, hrows]
      rfl

variable [BEq F]

/-- The join of keyed rows. -/
def joined (op : JoinOp) (left right : List (String × Fields F)) : List (Record F) :=
  outerJoin Prod.fst Prod.fst same combine (aloneLeft op) (aloneRight op) left right

/-- The joins of the buckets make up the join of all rows. -/
theorem joined_buckets_perm (host : Host F) (op : JoinOp) {n : Nat} (hn : 0 < n)
    (left right : List (String × Fields F)) :
    ((List.range n).flatMap fun i => joined op
        (left.filter fun row => host.hash (.string row.1) % n == i)
        (right.filter fun row => host.hash (.string row.1) % n == i)).Perm
      (joined op left right) := by
  let number (rows : List (String × Fields F)) : List (Nat × (String × Fields F)) :=
    rows.map fun row => (host.hash (.string row.1) % n, row)
  have hslice : ∀ i rows, slice n i (number rows) =
      rows.filter fun row => host.hash (.string row.1) % n == i := fun i rows =>
    slice_map_number (fun row => Nat.mod_lt _ hn) rows
  have hall : ∀ rows, (number rows).map Prod.snd = rows := fun rows => by
    rw [List.map_map]
    exact List.map_id _
  have hco : PairColocated n Prod.fst Prod.fst (number left) (number right) := by
    intro r hr s hs hkey
    obtain ⟨a, -, rfl⟩ := List.mem_map.mp hr
    obtain ⟨b, -, rfl⟩ := List.mem_map.mp hs
    show host.hash (.string a.1) % n % n = host.hash (.string b.1) % n % n
    rw [show a.1 = b.1 from hkey]
  have hperm := outerJoin_slices_perm hn hco same combine (aloneLeft op) (aloneRight op)
  simp only [hslice, hall] at hperm
  exact hperm

theorem execute_of_resident {host : Host F} {op : JoinOp} {l r : PartitionData F}
    (hl : l.Resident) (hr : r.Resident) {left right : List (String × Fields F)}
    (hleft : l.held.mapM (keyed host op) = .ok left)
    (hright : r.held.mapM (keyed host op) = .ok right)
    (hfit : host.sizeOf (joined op left right) ≤ l.limitBytes) (files : Files) :
    ∃ out : PartitionData F, op.execute host [l, r] files = (.ok [out], files) ∧
      out.Resident ∧ out.held = joined op left right := by
  refine ⟨.stored host (min l.partitionId r.partitionId) l.limitBytes l.spillPath
    (joined op left right), ?_, PartitionData.stored_resident_iff.mpr hfit,
    PartitionData.stored_held hfit⟩
  have hjoin : joinRecords host op l.held r.held = .ok (joined op left right) :=
    joinRecords_eq hleft hright
  simp only [execute, Exec.bind_apply, PartitionData.intoParts_of_resident host hl,
    PartitionData.intoParts_of_resident host hr, Exec.lift_apply, hjoin,
    PartitionData.fromRecords_of_fits hfit, Exec.pure_apply]

/-- Shuffle both sides and join the buckets pairwise. -/
def bucketwise (host : Host F) (op : JoinOp) (n : Nat) (left right : List (PartitionData F)) :
    Action (List (PartitionData F)) := do
  let lefts ← ShuffleByKeyOp.execute host ⟨op.key, n⟩ left
  let rights ← ShuffleByKeyOp.execute host ⟨op.key, n⟩ right
  let joined ← Exec.forEach (fun (l, r) => op.execute host [l, r]) (lefts.zip rights)
  return joined.flatten

/-- The join of a bucket is no larger than that of all rows. -/
theorem sizeOf_joined_bucket_le (host : Host F) (op : JoinOp) {n i : Nat} (hi : i < n)
    (left right : List (String × Fields F)) :
    host.sizeOf (joined op (left.filter fun row => host.hash (.string row.1) % n == i)
        (right.filter fun row => host.hash (.string row.1) % n == i)) ≤
      host.sizeOf (joined op left right) := by
  have hperm := joined_buckets_perm host op (by omega : 0 < n) left right
  refine le_trans (host.sizeOf_le_of_sublist ?_) (host.sizeOf_perm hperm).le
  rw [List.flatMap]
  exact List.sublist_flatten_of_mem (List.mem_map_of_mem (List.mem_range.mpr hi))

theorem bucketwise_of_resident {host : Host F} {op : JoinOp} {n : Nat} (hn : 0 < n)
    {left right : List (PartitionData F)} (hres : ∀ p ∈ left ++ right, p.Resident)
    {lrows rrows : List (String × Fields F)}
    (hleft : (left.flatMap PartitionData.held).mapM (keyed host op) = .ok lrows)
    (hright : (right.flatMap PartitionData.held).mapM (keyed host op) = .ok rrows)
    (hlfit : host.sizeOf (left.flatMap PartitionData.held) ≤ limit left)
    (hrfit : host.sizeOf (right.flatMap PartitionData.held) ≤ limit right)
    (hout : host.sizeOf (joined op lrows rrows) ≤ limit left) (files : Files) :
    ∃ out, bucketwise host op n left right files = (.ok out, files) ∧
      (∀ p ∈ out, p.Resident) ∧
      (out.flatMap PartitionData.held).Perm (joined op lrows rrows) := by
  rw [List.forall_mem_append] at hres
  have heach : ∀ i ∈ List.range n, ∃ out, op.execute host
      [bucketPart host op.key n left i, bucketPart host op.key n right i] files =
        (.ok out, files) ∧ (∀ p ∈ out, p.Resident) ∧ (out.flatMap PartitionData.held).Perm
        (joined op (lrows.filter fun row => host.hash (.string row.1) % n == i)
          (rrows.filter fun row => host.hash (.string row.1) % n == i)) := by
    intro i hi
    have hl := mapM_keyed_filter hleft n i
    have hr := mapM_keyed_filter hright n i
    have hsize := sizeOf_joined_bucket_le host op (List.mem_range.mp hi) lrows rrows
    obtain ⟨out, hexec, hresident, hheld⟩ := execute_of_resident
      (bucketPart_resident hlfit op.key n i) (bucketPart_resident hrfit op.key n i)
      (by rw [bucketPart_held hlfit]; exact hl) (by rw [bucketPart_held hrfit]; exact hr)
      (by rw [bucketPart_limitBytes]; exact le_trans hsize hout) files
    refine ⟨[out], hexec, List.forall_mem_singleton.mpr hresident, ?_⟩
    rw [List.flatMap_singleton, hheld]
  obtain ⟨outs, hloop, hresident, hperm⟩ := Exec.forEach_flatten heach
  refine ⟨outs.flatten, ?_, hresident, hperm.trans (joined_buckets_perm host op hn lrows rrows)⟩
  rw [bucketwise, Exec.bind_apply, ShuffleByKeyOp.execute_of_resident hn hres.1 hlfit]
  dsimp only
  rw [Exec.bind_apply, ShuffleByKeyOp.execute_of_resident hn hres.2 hrfit]
  dsimp only
  rw [List.zip_map', Exec.bind_apply, Exec.forEach_map]
  dsimp only
  rw [hloop]
  rfl

/-- Joining the buckets of two shuffles gives the records of the join of the
whole sides, `l` and `r`. -/
theorem join_bucketwise_perm (host : Host F) (op : JoinOp) {n : Nat} (hn : 1 ≤ n)
    {left right : List (PartitionData F)} {l r : PartitionData F}
    (hres : ∀ p ∈ left ++ right, p.Resident) (hl : l.Resident) (hr : r.Resident)
    (hlheld : l.held = left.flatMap PartitionData.held)
    (hrheld : r.held = right.flatMap PartitionData.held)
    (hkey : ∀ record ∈ l.held ++ r.held, Keyable op.key record)
    (hlfit : host.sizeOf l.held ≤ limit left) (hrfit : host.sizeOf r.held ≤ limit right)
    (hout : ∀ output, joinRecords host op l.held r.held = .ok output →
      host.sizeOf output ≤ limit left ∧ host.sizeOf output ≤ l.limitBytes) (files : Files) :
    ∃ out whole, bucketwise host op n left right files = (.ok out, files) ∧
      op.execute host [l, r] files = (.ok [whole], files) ∧
      (∀ p ∈ whole :: out, p.Resident) ∧
      (out.flatMap PartitionData.held).Perm whole.held := by
  rw [List.forall_mem_append] at hkey
  obtain ⟨lrows, hlrows⟩ := mapM_keyed_of_keyable host hkey.1
  obtain ⟨rrows, hrrows⟩ := mapM_keyed_of_keyable host hkey.2
  obtain ⟨hbucket, hwhole⟩ := hout _ (joinRecords_eq hlrows hrrows)
  obtain ⟨whole, hexec, hresident, hheld⟩ := execute_of_resident hl hr hlrows hrrows hwhole files
  rw [hlheld] at hlrows hlfit
  rw [hrheld] at hrrows hrfit
  obtain ⟨out, hbucketwise, hout, hperm⟩ := bucketwise_of_resident hn hres hlrows hrrows hlfit
    hrfit hbucket files
  refine ⟨out, whole, hbucketwise, hexec, List.forall_mem_cons.mpr ⟨hresident, hout⟩, ?_⟩
  rw [hheld]
  exact hperm

/-- A number and a text that render alike match. -/
theorem join_bucketwise_perm_outer :
    ∃ out whole, bucketwise lengthHost ⟨"k", .full⟩ 3
        [.stored lengthHost 0 1000 ["data", "spill"] [keyedRecord "10" "x", keyedRecord "a" "y"]]
        [.stored lengthHost 0 1000 ["data", "spill"] [.object [("k", .number (.int 10))]]] ∅ =
        (.ok out, ∅) ∧
      execute lengthHost ⟨"k", .full⟩
        [.stored lengthHost 0 1000 ["data", "spill"] [keyedRecord "10" "x", keyedRecord "a" "y"],
          .stored lengthHost 0 1000 ["data", "spill"] [.object [("k", .number (.int 10))]]] ∅ =
        (.ok [whole], ∅) ∧
      (∀ p ∈ whole :: out, p.Resident) ∧
      (out.flatMap PartitionData.held).Perm whole.held := by
  have hl : (PartitionData.stored lengthHost 0 1000 ["data", "spill"]
      [keyedRecord "10" "x", keyedRecord "a" "y"]).Resident :=
    PartitionData.stored_resident_iff.mpr (by decide +kernel)
  have hr : (PartitionData.stored lengthHost 0 1000 ["data", "spill"]
      [.object [("k", .number (.int 10))]]).Resident :=
    PartitionData.stored_resident_iff.mpr (by decide +kernel)
  refine join_bucketwise_perm lengthHost ⟨"k", .full⟩ (by omega) (by simp [hl, hr]) hl hr
    (by simp) (by simp) ?_ (by decide +kernel) (by decide +kernel) ?_ ∅
  · rw [show (PartitionData.stored lengthHost 0 1000 ["data", "spill"]
        [keyedRecord "10" "x", keyedRecord "a" "y"]).held ++
        (PartitionData.stored lengthHost 0 1000 ["data", "spill"]
          [.object [("k", .number (.int 10))]]).held =
        [keyedRecord "10" "x", keyedRecord "a" "y", .object [("k", .number (.int 10))]] by
      decide +kernel]
    simp [Keyable, keyedRecord, Fields.get]
  · intro output houtput
    have hsize : (joinRecords lengthHost ⟨"k", .full⟩
        (PartitionData.stored lengthHost 0 1000 ["data", "spill"]
          [keyedRecord "10" "x", keyedRecord "a" "y"]).held
        (PartitionData.stored lengthHost 0 1000 ["data", "spill"]
          [.object [("k", .number (.int 10))]]).held).toOption.all
        (fun output => lengthHost.sizeOf output ≤ 1000) = true := by decide +kernel
    rw [houtput] at hsize
    have hle : lengthHost.sizeOf output ≤ 1000 := by simpa [Except.toOption] using hsize
    exact ⟨hle, by rwa [PartitionData.stored_limitBytes]⟩

end JoinOp
end ProcessingEngine

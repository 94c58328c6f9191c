import ProcessingEngine.Worker.Partition
import ProcessingEngine.Lib.Slice

/-!
# Reducing operators

`worker/ops/reduce.rs`.  `ReduceOp` folds all records into one; `ReduceByKeyOp`
folds the records of each key.  The groups live in a hash map, so the records
come out in any order; up to that order the result is one record for each key
(`outRecords_perm`).
-/

namespace ProcessingEngine

open Lib Text

variable {F : Type}

inductive ReducerKind where
  | sum (field : Option String)
  | min (field : Option String)
  | max (field : Option String)
  | count
  | collect
  deriving DecidableEq, Repr

namespace ReducerKind

def unknownReducer (raw : String) : Fail := .error ("reduce: unknown reducer '" ++ raw ++ "'")

def parse (raw : String) : Except Fail ReducerKind :=
  if raw = "count" then .ok .count
  else if raw = "collect" then .ok .collect
  else
    let (op, field) := splitn2 ':' raw
    if op = "sum" then .ok (.sum field)
    else if op = "min" then .ok (.min field)
    else if op = "max" then .ok (.max field)
    else .error (unknownReducer raw)

def extractNumber (host : Host F) (record : Record F) (field : Option String) : Option F :=
  match record, field with
  | .number n, none => host.asF64 n
  | .object fields, some f =>
      match Fields.get f fields with
      | some (.number n) => host.asF64 n
      | _ => none
  | _, _ => none

/-- The fold of the numbers and how many there were. -/
def foldNumeric (host : Host F) (records : List (Record F)) (field : Option String)
    (f : F → F → F) : F × Nat :=
  records.foldl (fun (acc, seen) r =>
    match extractNumber host r field with
    | some n => (if seen = 0 then n else f acc n, seen + 1)
    | none => (acc, seen)) (host.zero, 0)

/-- The field of the result, such as `sum_price`. -/
def resultKey (name : String) (field : Option String) : String :=
  match field with
  | some f => name ++ "_" ++ f
  | none => name

/-- The object `{name_field: n}` of a folded number. -/
def numericResult (host : Host F) (name : String) (field : Option String)
    (folded : F × Nat) : Value F :=
  let value := if folded.2 = 0 then host.zero else folded.1
  .object [(resultKey name field, .number ((host.fromF64 value).getD (.int 0)))]

/-- The aggregate of the records, an object with one field. -/
def applyReducer (host : Host F) (reducer : ReducerKind) (records : List (Record F)) : Value F :=
  match reducer with
  | .count => .object [("count", .number (.int records.length))]
  | .collect => .object [("collect", .array records)]
  | .sum field => numericResult host "sum" field (foldNumeric host records field host.add)
  | .min field => numericResult host "min" field (foldNumeric host records field host.min)
  | .max field => numericResult host "max" field (foldNumeric host records field host.max)

/-- The name of the field that the aggregate has. -/
def resultField (reducer : ReducerKind) : String :=
  match reducer with
  | .count => "count"
  | .collect => "collect"
  | .sum field => resultKey "sum" field
  | .min field => resultKey "min" field
  | .max field => resultKey "max" field

/-- The value of that field. -/
def value (host : Host F) (reducer : ReducerKind) (records : List (Record F)) : Value F :=
  ((applyReducer host reducer records).get reducer.resultField).getD .null

theorem applyReducer_eq (host : Host F) (reducer : ReducerKind) (records : List (Record F)) :
    applyReducer host reducer records =
      .object [(reducer.resultField, reducer.value host records)] := by
  cases reducer <;>
    simp [applyReducer, numericResult, resultField, value, Value.get, Fields.get]

theorem value_asStr (host : Host F) (reducer : ReducerKind) (records : List (Record F)) :
    (reducer.value host records).asStr = none := by
  cases reducer <;>
    simp [applyReducer, numericResult, resultField, value, Value.get, Fields.get, Value.asStr]

end ReducerKind

/-- Take all partitions apart and collect their records. -/
def drainPartitions (host : Host F) (partitions : List (PartitionData F)) :
    Action (List (Record F)) := do
  let parts ← Exec.forEach (fun p => p.intoParts host) partitions
  return (parts.map fun (_, _, records) => records).flatten

structure ReduceOp where
  reducer : String
  deriving DecidableEq, Repr

namespace ReduceOp

def execute (host : Host F) (op : ReduceOp) (partitions : List (PartitionData F)) :
    Action (List (PartitionData F)) := do
  let reducer ← Exec.lift (ReducerKind.parse op.reducer)
  match partitions with
  | [] => return []
  | first :: rest =>
      let allRecords ← drainPartitions host (first :: rest)
      let partition ← PartitionData.fromRecords host first.partitionId first.limitBytes
        first.spillPath [reducer.applyReducer host allRecords]
      return [partition]

end ReduceOp

structure ReduceByKeyOp where
  key : String
  reducer : String
  deriving DecidableEq, Repr

namespace ReduceByKeyOp

/-- The key of a record, a string field. -/
def keyOf (key : String) (record : Record F) : Option String :=
  (record.get key).bind Value.asStr

def missingKey (key : String) : Fail := .error ("reduce_by_key: missing key field '" ++ key ++ "'")

def pushGroup (groups : HashMap String (List (Record F))) (key : String) (record : Record F) :
    HashMap String (List (Record F)) :=
  groups.insert key ((groups.lookup key).getD [] ++ [record])

/-- Sort the records of a partition into the groups. -/
def groupRecords (key : String) (groups : HashMap String (List (Record F)))
    (records : List (Record F)) : Except Fail (HashMap String (List (Record F))) :=
  records.foldlM (fun groups r =>
    match keyOf key r with
    | none => .error (missingKey key)
    | some keyVal => .ok (pushGroup groups keyVal r)) groups

/-- The output record of a group: the key and the fields of the aggregate. -/
def outRecord (host : Host F) (op : ReduceByKeyOp) (reducer : ReducerKind) (key : String)
    (records : List (Record F)) : Record F :=
  let obj : Fields F := Fields.insert op.key (.string key) []
  match reducer.applyReducer host records with
  | .object inner => .object (Fields.insertAll inner obj)
  | v => .object (Fields.insert op.reducer v obj)

/-- Partition by partition, so that a missing key ends the loop with the later
partitions untouched. -/
def groupPartitions (host : Host F) (op : ReduceByKeyOp) :
    HashMap String (List (Record F)) → List (PartitionData F) →
      Action (HashMap String (List (Record F)))
  | groups, [] => return groups
  | groups, p :: rest => do
      let (_, _, records) ← p.intoParts host
      let groups ← Exec.lift (groupRecords op.key groups records)
      groupPartitions host op groups rest

/-- One record a group, in the order in which the hash map yields them. -/
def outRecords (host : Host F) (op : ReduceByKeyOp) (reducer : ReducerKind)
    (order : HashOrder String) (groups : HashMap String (List (Record F))) : List (Record F) :=
  (order.keys groups.keys).map fun key =>
    outRecord host op reducer key ((groups.lookup key).getD [])

def unsupportedReducer (reducer : String) : Fail :=
  .error ("reduce_by_key: unsupported reducer '" ++ reducer ++ "'")

def execute (host : Host F) (order : HashOrder String) (op : ReduceByKeyOp)
    (partitions : List (PartitionData F)) : Action (List (PartitionData F)) :=
  match partitions with
  | [] => return []
  | first :: rest =>
      match ReducerKind.parse op.reducer with
      | .error _ => Exec.fail (unsupportedReducer op.reducer)
      | .ok reducer => do
          let groups ← groupPartitions host op ∅ (first :: rest)
          let partition ← PartitionData.fromRecords host first.partitionId first.limitBytes
            first.spillPath (outRecords host op reducer order groups)
          return [partition]

/-! ### The groups -/

/-- The records of a list by key, with each key's records in their order. -/
theorem groupRecords_ok {key : String} {groups groups' : HashMap String (List (Record F))}
    {records : List (Record F)} (h : groupRecords key groups records = .ok groups') :
    (∀ r ∈ records, (keyOf key r).isSome) ∧ ∀ x,
      (groups'.lookup x).getD [] =
        (groups.lookup x).getD [] ++ records.filter (fun r => keyOf key r == some x) ∧
      (x ∈ groups' ↔ x ∈ groups ∨ some x ∈ records.map (keyOf key)) := by
  induction records generalizing groups with
  | nil =>
      cases h
      simp
  | cons r records ih =>
      rw [groupRecords, List.foldlM_cons] at h
      cases hkey : keyOf key r with
      | none => simp only [hkey, bind, Except.bind, reduceCtorEq] at h
      | some y =>
          simp only [hkey, bind, Except.bind] at h
          obtain ⟨hkeys, hgroups⟩ := ih h
          refine ⟨?_, fun x => ?_⟩
          · intro s hs
            rcases List.mem_cons.mp hs with rfl | hs
            · rw [hkey]
              rfl
            · exact hkeys s hs
          · obtain ⟨hlookup, hmem⟩ := hgroups x
            rw [hlookup, hmem, pushGroup, AList.mem_insert, List.map_cons, List.mem_cons, hkey,
              Option.some.injEq]
            refine ⟨?_, by tauto⟩
            by_cases hx : x = y
            · subst hx
              rw [AList.lookup_insert, List.filter_cons_of_pos (by simp [hkey])]
              simp
            · have hne : ¬ y = x := fun e => hx e.symm
              rw [AList.lookup_insert_ne hx]
              simp [hkey, hne]

theorem groupRecords_of_isSome {key : String} {records : List (Record F)}
    (h : ∀ r ∈ records, (keyOf key r).isSome) (groups : HashMap String (List (Record F))) :
    ∃ groups', groupRecords key groups records = .ok groups' := by
  induction records generalizing groups with
  | nil => exact ⟨groups, rfl⟩
  | cons r records ih =>
      obtain ⟨x, hx⟩ := Option.isSome_iff_exists.mp (h r List.mem_cons_self)
      obtain ⟨groups', hgroups'⟩ :=
        ih (fun s hs => h s (List.mem_cons_of_mem r hs)) (pushGroup groups x r)
      refine ⟨groups', ?_⟩
      rw [groupRecords, List.foldlM_cons]
      simp only [hx]
      exact hgroups'

/-- The aggregation of a list of records: for each key of a record, in the order
of the first occurrences, the record of its group. -/
def aggregate (host : Host F) (op : ReduceByKeyOp) (reducer : ReducerKind)
    (records : List (Record F)) : List (Record F) :=
  (records.filterMap (keyOf op.key)).dedup.map fun x =>
    outRecord host op reducer x (records.filter fun r => keyOf op.key r == some x)

/-- When every record has a key, the aggregation is a grouping of the records. -/
theorem aggregate_eq_groupMap (host : Host F) (op : ReduceByKeyOp) (reducer : ReducerKind)
    {records : List (Record F)} (h : ∀ r ∈ records, (keyOf op.key r).isSome) :
    aggregate host op reducer records =
      groupMap (keyOf op.key) (fun x group => outRecord host op reducer (x.getD "") group)
        records := by
  have hkeys : records.map (keyOf op.key) = (records.filterMap (keyOf op.key)).map some := by
    induction records with
    | nil => rfl
    | cons r records ih =>
        obtain ⟨x, hx⟩ := Option.isSome_iff_exists.mp (h r List.mem_cons_self)
        rw [List.map_cons, List.filterMap_cons, hx,
          ih fun s hs => h s (List.mem_cons_of_mem r hs), List.map_cons]
  rw [groupMap, hkeys, List.dedup_map_of_injective (Option.some_injective _), List.map_map]
  refine List.map_congr_left fun x _ => ?_
  show _ = outRecord host op reducer x _
  congr 1
  exact List.filter_congr fun r _ => Bool.eq_iff_iff.mpr (by simp)

/-- The output of the operator, key by key. -/
theorem outRecords_eq {host : Host F} {op : ReduceByKeyOp} {reducer : ReducerKind}
    (order : HashOrder String) {groups : HashMap String (List (Record F))}
    {records : List (Record F)} (h : groupRecords op.key ∅ records = .ok groups) :
    outRecords host op reducer order groups = (order.keys groups.keys).map fun x =>
      outRecord host op reducer x (records.filter fun r => keyOf op.key r == some x) := by
  apply List.map_congr_left
  intro x _
  rw [((groupRecords_ok h).2 x).1]
  rfl

/-- Up to order, the groups of a list of records are its aggregation. -/
theorem outRecords_perm {host : Host F} {op : ReduceByKeyOp} {reducer : ReducerKind}
    (order : HashOrder String) {groups : HashMap String (List (Record F))}
    {records : List (Record F)} (h : groupRecords op.key ∅ records = .ok groups) :
    (outRecords host op reducer order groups).Perm (aggregate host op reducer records) := by
  rw [outRecords_eq order h]
  refine ((order.perm groups.keys).map _).trans (List.Perm.map _ ?_)
  refine (List.perm_ext_iff_of_nodup groups.keys_nodup (List.nodup_dedup _)).mpr fun x => ?_
  have hmem := ((groupRecords_ok h).2 x).2
  rw [← AList.mem_keys, List.mem_dedup, List.mem_filterMap]
  simpa using hmem

end ReduceByKeyOp
end ProcessingEngine

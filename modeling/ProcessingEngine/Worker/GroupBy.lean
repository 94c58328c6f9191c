import ProcessingEngine.Worker.Memory

/-!
# Grouping by a key

`reduce_by_key` on any partitions of which the records hold a string at the key.
The output has a record for each key, with the key and the aggregate of its
records, unless the aggregate has a field with the name of the key: the two are
inserted into one map, and the aggregate comes last (`execute_groupBy_iff`).
-/

namespace ProcessingEngine

open Lib
open PartitionCache (Filled)

variable {F : Type}

/-- The records that an operator with at most one output partition leaves in
it. -/
def SingleOutput (host : Host F) (before : Files) (out : List (PartitionData F))
    (records : List (Record F)) (after : Files) : Prop :=
  (out = [] ∧ records = [] ∧ after = before) ∨
    ∃ partition, out = [partition] ∧ Filled host before records partition.cache after

theorem exists_of_mem_forall₂ {α β : Type} {R : α → β → Prop} {as : List α} {bs : List β}
    (h : List.Forall₂ R as bs) {b : β} (hb : b ∈ bs) : ∃ a, R a b := by
  induction h with
  | nil => cases hb
  | @cons a _ _ _ hab _ ih =>
      rcases List.mem_cons.mp hb with rfl | hb
      · exact ⟨a, hab⟩
      · exact ih hb

namespace ReduceByKeyOp

/-- One record for each key, with the key in the key field and the aggregate of
the records of the key, in their order, in the aggregate's field. -/
def IsGroupBy (host : Host F) (key : String) (reducer : ReducerKind)
    (records out : List (Record F)) : Prop :=
  ∃ keys : List String, keys.Nodup ∧
    (∀ x, x ∈ keys ↔ ∃ r ∈ records, keyOf key r = some x) ∧
    List.Forall₂ (fun x o => Value.get key o = some (.string x) ∧
      Value.get reducer.resultField o =
        some (reducer.value host (records.filter fun r => keyOf key r == some x))) keys out

theorem outRecord_eq (host : Host F) (op : ReduceByKeyOp) (reducer : ReducerKind) (x : String)
    (records : List (Record F)) :
    outRecord host op reducer x records = .object (Fields.insert reducer.resultField
      (reducer.value host records) (Fields.insert op.key (.string x) [])) := by
  rw [outRecord, ReducerKind.applyReducer_eq]
  rfl

theorem get_outRecord_field (host : Host F) (op : ReduceByKeyOp) (reducer : ReducerKind)
    (x : String) (records : List (Record F)) :
    Value.get reducer.resultField (outRecord host op reducer x records) =
      some (reducer.value host records) := by
  rw [outRecord_eq, Value.get, Fields.get_insert_self]

theorem get_outRecord_key {host : Host F} {op : ReduceByKeyOp} {reducer : ReducerKind}
    (hkey : op.key ≠ reducer.resultField) (x : String) (records : List (Record F)) :
    Value.get op.key (outRecord host op reducer x records) = some (.string x) := by
  rw [outRecord_eq, Value.get, Fields.get_insert_ne hkey, Fields.get_insert_self]

section

variable {host : Host F} {op : ReduceByKeyOp} {reducer : ReducerKind}
  {order : HashOrder String} {groups : HashMap String (List (Record F))}
  {records : List (Record F)}

theorem mem_orderedKeys (hgroups : groupRecords op.key ∅ records = .ok groups) (x : String) :
    x ∈ order.keys groups.keys ↔ ∃ r ∈ records, keyOf op.key r = some x := by
  have hmem := ((groupRecords_ok hgroups).2 x).2
  rw [(order.perm groups.keys).mem_iff, ← AList.mem_keys, hmem, List.mem_map]
  simp

/-- The output is a group-by when the aggregate's field is not the key. -/
theorem isGroupBy_outRecords (hgroups : groupRecords op.key ∅ records = .ok groups)
    (hkey : op.key ≠ reducer.resultField) :
    IsGroupBy host op.key reducer records (outRecords host op reducer order groups) := by
  refine ⟨order.keys groups.keys, (order.perm groups.keys).nodup_iff.mpr groups.keys_nodup,
    mem_orderedKeys hgroups, ?_⟩
  rw [outRecords_eq order hgroups, List.forall₂_map_right_iff]
  apply List.forall₂_same.mpr
  intro x _
  exact ⟨get_outRecord_key hkey x _, get_outRecord_field host op reducer x _⟩

/-- An output record that has lost its key. -/
theorem not_isGroupBy_outRecords (hgroups : groupRecords op.key ∅ records = .ok groups)
    (hkey : op.key = reducer.resultField) {r : Record F} (hr : r ∈ records)
    (hkeys : (keyOf op.key r).isSome) :
    ¬ IsGroupBy host op.key reducer records (outRecords host op reducer order groups) := by
  intro hgroup
  obtain ⟨keys, -, -, hall⟩ := hgroup
  obtain ⟨x, hx⟩ := Option.isSome_iff_exists.mp hkeys
  have hmem : outRecord host op reducer x (records.filter fun r => keyOf op.key r == some x) ∈
      outRecords host op reducer order groups := by
    rw [outRecords_eq order hgroups]
    exact List.mem_map.mpr ⟨x, (mem_orderedKeys hgroups x).mpr ⟨r, hr, hx⟩, rfl⟩
  obtain ⟨y, hy, -⟩ := exists_of_mem_forall₂ hall hmem
  have hstr := ReducerKind.value_asStr host reducer
    (records.filter fun r => keyOf op.key r == some x)
  rw [hkey, get_outRecord_field, Option.some.injEq] at hy
  rw [hkey] at hstr
  rw [hy] at hstr
  cases hstr

/-- Taking the first partition apart, then the others. -/
theorem drainPartitions_cons {p : PartitionData F} {rest : List (PartitionData F)}
    {files files' : Files}
    (h : drainPartitions host (p :: rest) files = (.ok records, files')) :
    ∃ part files₁ records', p.intoParts host files = (.ok part, files₁) ∧
      drainPartitions host rest files₁ = (.ok records', files') ∧
      records = part.2.2 ++ records' := by
  obtain ⟨parts, files₂, hparts, hpure⟩ := Exec.bind_eq_ok.mp h
  obtain ⟨part, files₁, hpart, hrest⟩ := Exec.bind_eq_ok.mp hparts
  obtain ⟨parts', files₃, hparts', hcons⟩ := Exec.bind_eq_ok.mp hrest
  cases hcons
  cases hpure
  refine ⟨part, files₁, _, hpart, ?_, rfl⟩
  rw [drainPartitions, Exec.bind_apply, hparts']
  rfl

/-- Grouping while the partitions are taken apart groups all their records. -/
theorem groupPartitions_of_drained {partitions : List (PartitionData F)} {files files' : Files}
    (hdrain : drainPartitions host partitions files = (.ok records, files'))
    {groups groups' : HashMap String (List (Record F))}
    (hgroups : groupRecords op.key groups records = .ok groups') :
    groupPartitions host op groups partitions files = (.ok groups', files') := by
  induction partitions generalizing groups records files with
  | nil =>
      cases hdrain
      cases hgroups
      rfl
  | cons p rest ih =>
      obtain ⟨part, files₁, records', hpart, hrest, rfl⟩ := drainPartitions_cons hdrain
      rw [groupRecords_append] at hgroups
      show (p.intoParts host >>= _) files = _
      rw [Exec.bind_apply, hpart]
      simp only [Exec.bind_apply, Exec.lift_apply]
      cases hfirst : groupRecords op.key groups part.2.2 with
      | error e =>
          rw [hfirst] at hgroups
          cases hgroups
      | ok groups₁ =>
          rw [hfirst] at hgroups
          exact ih hrest hgroups

end

/-- The operator is a group-by exactly when there is no record or the aggregate's
field is not the key. -/
theorem execute_groupBy_iff {host : Host F} (op : ReduceByKeyOp) {reducer : ReducerKind}
    (hparse : ReducerKind.parse op.reducer = .ok reducer) (order : HashOrder String)
    {partitions : List (PartitionData F)} {records : List (Record F)} {files files' : Files}
    (hdrain : drainPartitions host partitions files = (.ok records, files'))
    (hkeys : ∀ r ∈ records, (keyOf op.key r).isSome) :
    ∃ out output after, op.execute host order partitions files = (.ok out, after) ∧
      SingleOutput host files' out output after ∧
      (IsGroupBy host op.key reducer records output ↔
        records = [] ∨ op.key ≠ reducer.resultField) := by
  cases partitions with
  | nil =>
      cases hdrain
      refine ⟨[], [], files, rfl, Or.inl ⟨rfl, rfl, rfl⟩, iff_of_true ?_ (Or.inl rfl)⟩
      exact ⟨[], List.nodup_nil, fun x => by simp, .nil⟩
  | cons first rest =>
      obtain ⟨groups, hgroups⟩ := groupRecords_of_isSome hkeys ∅
      have hrun := groupPartitions_of_drained hdrain hgroups
      obtain ⟨partition, after, hfrom, hfilled, -⟩ := PartitionData.fromRecords_filled host
        first.partitionId first.limitBytes first.spillPath
        (outRecords host op reducer order groups) files'
      refine ⟨[partition], outRecords host op reducer order groups, after, ?_,
        Or.inr ⟨partition, rfl, hfilled⟩, ?_⟩
      · show ReduceByKeyOp.execute host order op (first :: rest) files = _
        unfold ReduceByKeyOp.execute
        rw [hparse]
        show (groupPartitions host op ∅ (first :: rest) >>= _) files = _
        rw [Exec.bind_apply, hrun]
        show (PartitionData.fromRecords host _ _ _ _ >>= _) files' = _
        rw [Exec.bind_apply, hfrom]
        rfl
      · by_cases hkey : op.key = reducer.resultField
        · constructor
          · intro hgroup
            apply Or.inl
            apply List.eq_nil_iff_forall_not_mem.mpr
            intro r hr
            exact not_isGroupBy_outRecords hgroups hkey hr (hkeys r hr) hgroup
          · intro h
            rcases h with rfl | hne
            · have hnil : outRecords host op reducer order groups = [] := by
                rw [outRecords_eq order hgroups, List.map_eq_nil_iff]
                apply List.eq_nil_iff_forall_not_mem.mpr
                intro x hx
                obtain ⟨r, hr, -⟩ := (mem_orderedKeys hgroups x).mp hx
                cases hr
              rw [hnil]
              exact ⟨[], List.nodup_nil, fun x => by simp, .nil⟩
            · exact absurd hkey hne
        · exact iff_of_true (isGroupBy_outRecords hgroups hkey) (Or.inr hkey)

/-! ### A key named as the aggregate -/

def visit (field user : String) : Record Int := .object [(field, .string user)]

def visits (field : String) (users : List String) : PartitionData Int :=
  .stored (Host.plain []) 0 1000 ["visits"] (users.map (visit field))

theorem execute_groupBy_iff_user :
    ∃ out output after, (⟨"user", "count"⟩ : ReduceByKeyOp).execute (Host.plain []) .insertion
        [visits "user" ["u", "v"], visits "user" ["u"]] ∅ = (.ok out, after) ∧
      SingleOutput (Host.plain []) ∅ out output after ∧
      IsGroupBy (Host.plain []) "user" .count (["u", "v", "u"].map (visit "user")) output := by
  have hres : ∀ p ∈ [visits "user" ["u", "v"], visits "user" ["u"]], p.Resident := by
    intro p hp
    have hcases : p = visits "user" ["u", "v"] ∨ p = visits "user" ["u"] := by simpa using hp
    rcases hcases with rfl | rfl
    · exact PartitionData.stored_resident_iff.mpr (by decide +kernel)
    · exact PartitionData.stored_resident_iff.mpr (by decide +kernel)
  have hheld : [visits "user" ["u", "v"], visits "user" ["u"]].flatMap PartitionData.held =
      ["u", "v", "u"].map (visit "user") := by decide +kernel
  have hdrain : drainPartitions (Host.plain [])
      [visits "user" ["u", "v"], visits "user" ["u"]] ∅ =
      (.ok (["u", "v", "u"].map (visit "user")), ∅) := by
    rw [drainPartitions_of_resident hres, hheld]
  obtain ⟨out, output, after, hrun, hout, hiff⟩ := execute_groupBy_iff ⟨"user", "count"⟩ rfl
    .insertion hdrain (by decide +kernel)
  exact ⟨out, output, after, hrun, hout, hiff.mpr (Or.inr (by decide))⟩

/-- The number of visits takes the place of the key. -/
theorem count_overwrites_key :
    ∃ partition, ((⟨"count", "count"⟩ : ReduceByKeyOp).execute (Host.plain []) .insertion
        [visits "count" ["u"]] ∅).1 = .ok [partition] ∧
      ¬ IsGroupBy (Host.plain []) "count" .count [visit "count" "u"] partition.held := by
  refine ⟨.stored (Host.plain []) 0 1000 ["visits"] [.object [("count", .number (.int 1))]],
    by rfl, ?_⟩
  intro h
  obtain ⟨keys, -, -, hall⟩ := h
  have hmem : .object [("count", .number (.int 1))] ∈ (PartitionData.stored (Host.plain []) 0 1000
      ["visits"] [.object [("count", .number (.int 1))]]).held := by decide +kernel
  obtain ⟨x, hx, -⟩ := exists_of_mem_forall₂ hall hmem
  cases hx

end ReduceByKeyOp
end ProcessingEngine

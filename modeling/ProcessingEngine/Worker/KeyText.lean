import ProcessingEngine.Worker.CsvFilter
import ProcessingEngine.Worker.Join
import ProcessingEngine.Worker.Reduce

/-!
# The key of a record

A join takes texts and numbers as keys, a reduce by key texts only.  They agree
on the records without a number at the key field (`keysAgree_iff`), and so not
on the columns of a CSV file that the reader makes numbers of.
-/

namespace ProcessingEngine

open Lib Text

variable {F : Type}

namespace ReduceByKeyOp

theorem groupRecords_singleton {key x : String} {record : Record F}
    (h : keyOf key record = some x) :
    groupRecords key ∅ [record] = .ok (pushGroup ∅ x record) := by
  rw [groupRecords, List.foldlM_cons, h]
  rfl

theorem groupRecords_singleton_of_none {key : String} {record : Record F}
    (h : keyOf key record = none) :
    groupRecords key ∅ [record] = .error (missingKey key) := by
  rw [groupRecords, List.foldlM_cons, h]
  rfl

theorem groupRecords_singleton_ok_iff {key : String} {record : Record F} :
    (∃ groups, groupRecords key ∅ [record] = .ok groups) ↔ ∃ x, keyOf key record = some x := by
  cases hkey : keyOf key record with
  | none => simp [groupRecords_singleton_of_none hkey]
  | some x => simp [groupRecords_singleton hkey]

/-- The two operators accept the same records, under the same keys. -/
structure KeysAgree (host : Host F) (op : JoinOp) (record : Record F) : Prop where
  accepts : (∃ groups, groupRecords op.key ∅ [record] = .ok groups) ↔
    ∃ x fields, JoinOp.keyed host op record = .ok (x, fields)
  group : ∀ groups x fields, groupRecords op.key ∅ [record] = .ok groups →
    JoinOp.keyed host op record = .ok (x, fields) → groups.lookup x = some [record]

/-- The key of a join, by the value at the field. -/
theorem keyed_ok_iff {host : Host F} {op : JoinOp} {record : Record F} {x : String} :
    (∃ fields, JoinOp.keyed host op record = .ok (x, fields)) ↔
      record.get op.key = some (.string x) ∨
        ∃ n, record.get op.key = some (.number n) ∧ host.numberText n = x := by
  cases record with
  | object fields =>
      show (∃ out, (JoinOp.extractKey host fields op.key).map (fun key => (key, fields)) =
        .ok (x, out)) ↔ Fields.get op.key fields = _ ∨ ∃ n, Fields.get op.key fields = _ ∧ _
      rw [JoinOp.extractKey]
      cases Fields.get op.key fields with
      | none => simp [Except.map]
      | some v => cases v <;> simp [Except.map]
  | _ => simp [JoinOp.keyed, Value.asObject, Value.get]

theorem keyOf_eq_some_iff {key : String} {record : Record F} {x : String} :
    keyOf key record = some x ↔ record.get key = some (.string x) := by
  rw [keyOf, Option.bind_eq_some_iff]
  constructor
  · intro h
    obtain ⟨v, hv, hx⟩ := h
    cases v with
    | string s =>
        cases hx
        exact hv
    | _ => cases hx
  · intro h
    exact ⟨_, h, rfl⟩

/-- The operators agree on a record unless it has a number at the key field. -/
theorem keysAgree_iff (host : Host F) (op : JoinOp) (record : Record F) :
    KeysAgree host op record ↔ ∀ n, record.get op.key ≠ some (.number n) := by
  constructor
  · intro h n hn
    obtain ⟨fields, hkeyed⟩ := keyed_ok_iff.mpr (.inr ⟨n, hn, rfl⟩)
    obtain ⟨x, hx⟩ := groupRecords_singleton_ok_iff.mp (h.accepts.mpr ⟨_, fields, hkeyed⟩)
    rw [keyOf_eq_some_iff, hn] at hx
    cases hx
  · intro h
    have hjoin : ∀ x, (∃ fields, JoinOp.keyed host op record = .ok (x, fields)) ↔
        keyOf op.key record = some x := by
      intro x
      rw [keyed_ok_iff, keyOf_eq_some_iff]
      simp [h]
    constructor
    · rw [groupRecords_singleton_ok_iff]
      exact exists_congr fun x => (hjoin x).symm
    · intro groups x fields hgroups hkeyed
      have hx := (hjoin x).mp ⟨fields, hkeyed⟩
      rw [groupRecords_singleton hx] at hgroups
      cases hgroups
      rw [pushGroup, AList.lookup_insert, AList.lookup_empty]
      rfl

/-- On a CSV row they agree unless the cell that is found under the key is read as a
number. -/
theorem keysAgree_csv_iff (host : Host F) (op : JoinOp) {headers : List String}
    (hnodup : headers.Nodup) (hkey : op.key ∈ headers) (row : String) :
    KeysAgree host op (ReadOp.parseCsvLineToObject host headers row) ↔
      ∀ cell, (ReadOp.surplusCell headers op.key row).or (ReadOp.cellAt headers op.key row) =
        some cell → ReadOp.inferNumber host cell = .string cell := by
  rw [keysAgree_iff, ReadOp.get_parseCsvLine host hnodup hkey]
  constructor
  · intro h cell hcell
    rw [hcell] at h
    refine (ReadOp.inferNumber_cases host cell).resolve_right fun hnumber => ?_
    obtain ⟨n, hn⟩ := hnumber
    exact h n (congrArg some hn)
  · intro h n hn
    obtain ⟨cell, hcell, hinfer⟩ := Option.map_eq_some_iff.mp hn
    rw [h cell hcell] at hinfer
    cases hinfer

/-- A column of numbers can be joined on, and not reduced by. -/
theorem number_key_refused :
    ReadOp.readRecords (.plain []) "csv" 1 0 ReadOp.itemsCsv = .ok ReadOp.itemRows ∧
      (ReadOp.itemRows.mapM (JoinOp.keyed (.plain []) ⟨"n", .inner⟩)).map (List.map Prod.fst) =
        .ok ["10", "11"] ∧
      groupRecords "n" ∅ ReadOp.itemRows = .error (missingKey "n") ∧
      ∃ record ∈ ReadOp.itemRows, ¬ KeysAgree (.plain []) ⟨"n", .inner⟩ record := by
  refine ⟨ReadOp.itemsCsv_read.2, by decide +kernel, by decide +kernel,
    .object [("n", .number (.int 10)), ("word", .string "Ten")], List.mem_cons_self, fun h => ?_⟩
  have hdisagree := h.accepts.mpr ⟨"10", [("n", .number (.int 10)), ("word", .string "Ten")], by
    decide +kernel⟩
  obtain ⟨groups, hgroups⟩ := hdisagree
  cases hgroups

end ReduceByKeyOp
end ProcessingEngine

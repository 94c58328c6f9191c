import ProcessingEngine.Worker.Memory
import ProcessingEngine.Worker.Prefixed

/-!
# The join against the nested loop

What the join operator yields on the records of two partitions, in memory or
spilled: an inner or a left join is the nested loop over the two lists, in order
(`execute_nestedLoop`), and a right or a full join consists of the pairs and the
records without partner exactly when no two right records with a partner are equal
under the same key (`execute_outer_iff`).
-/

namespace ProcessingEngine
namespace JoinOp

open Lib
open PartitionCache (Filled)

variable {F : Type}

/-- An object with a string or a number at the key. -/
def HasKey (key : String) (record : Record F) : Prop :=
  ∃ obj v, record = .object obj ∧ Fields.get key obj = some v ∧ isKey v = true

/-- The text of the key of a record. -/
def renderedKey (host : Host F) (key : String) (record : Record F) : Option String :=
  match record.get key with
  | some (.string s) => some s
  | some (.number n) => some (host.numberText n)
  | _ => none

/-- The fields of an object. -/
def fieldsOf (record : Record F) : Fields F := record.asObject.getD []

def combined (l r : Record F) : Record F := .object (combineRecords (fieldsOf l) (fieldsOf r))

def leftOnly (l : Record F) : Record F := .object (combineLeftOnly (fieldsOf l))

def rightAlone (r : Record F) : Record F := .object (combineRightOnly (fieldsOf r))

/-- The records with the key of the given one. -/
def partners (host : Host F) (key : String) (records : List (Record F)) (record : Record F) :
    List (Record F) :=
  records.filter fun other => renderedKey host key other == renderedKey host key record

/-- The join as a loop over both lists.  The left join has its left-only records
in their places. -/
def nestedLoop (host : Host F) (op : JoinOp) (lefts rights : List (Record F)) :
    List (Record F) :=
  lefts.flatMap fun l =>
    if (partners host op.key rights l).isEmpty then
      if op.joinType = .left then [leftOnly l] else []
    else (partners host op.key rights l).map (combined l)

/-- The records of a right or a full join, in some order. -/
def outerRecords (host : Host F) (op : JoinOp) (lefts rights : List (Record F)) :
    List (Record F) :=
  (lefts.flatMap fun l => (partners host op.key rights l).map (combined l)) ++
    (if op.joinType = .full then
      (lefts.filter fun l => (partners host op.key rights l).isEmpty).map leftOnly else []) ++
    (rights.filter fun r => (partners host op.key lefts r).isEmpty).map rightAlone

/-- No right record with a partner is equal to an earlier one under its key. -/
def DistinctMatches [BEq F] (host : Host F) (key : String) (lefts rights : List (Record F)) :
    Prop :=
  (rights.filter fun r => !(partners host key lefts r).isEmpty).Pairwise fun r s =>
    ¬ (renderedKey host key r = renderedKey host key s ∧ r.beq s = true)

instance decidableDistinctMatches [BEq F] (host : Host F) (key : String)
    (lefts rights : List (Record F)) : Decidable (DistinctMatches host key lefts rights) :=
  List.instDecidablePairwise _

/-! ### Keyed records -/

section

variable {host : Host F} {op : JoinOp} {record : Record F}

/-- The record with its key, which it is assumed to have. -/
def row (host : Host F) (key : String) (record : Record F) : String × Fields F :=
  ((renderedKey host key record).getD "", fieldsOf record)

theorem keyed_of_hasKey (h : HasKey op.key record) :
    keyed host op record = .ok (row host op.key record) := by
  obtain ⟨obj, v, rfl, hget, hkey⟩ := h
  have hvalue : (Value.object obj).get op.key = some v := hget
  have hfields : fieldsOf (Value.object obj) = obj := rfl
  show (extractKey host obj op.key).map (fun key => (key, obj)) = _
  rw [row, renderedKey, hvalue, extractKey, hget, hfields]
  cases v with
  | string s => rfl
  | number n => rfl
  | null => cases hkey
  | bool b => cases hkey
  | array vs => cases hkey
  | object fs => cases hkey

theorem keyed_of_not_hasKey (host : Host F) (h : ¬ HasKey op.key record) :
    ∃ e, keyed host op record = .error e := by
  cases hobj : record.asObject with
  | none => exact ⟨nonObject, by rw [keyed, hobj]⟩
  | some obj =>
      have hrecord : record = .object obj := by
        cases record <;> cases hobj
        rfl
      have hno : ¬ ∃ k, extractKey host obj op.key = .ok k := by
        rw [extractKey_ok_iff]
        intro hv
        obtain ⟨v, hv⟩ := hv
        exact h ⟨obj, v, hrecord, hv⟩
      rw [keyed, hobj]
      dsimp only
      cases hkey : extractKey host obj op.key with
      | error e => exact ⟨e, rfl⟩
      | ok k => exact absurd ⟨k, hkey⟩ hno

theorem renderedKey_isSome (host : Host F) {key : String} (h : HasKey key record) :
    (renderedKey host key record).isSome := by
  obtain ⟨obj, v, rfl, hget, hkey⟩ := h
  have hvalue : (Value.object obj).get key = some v := hget
  rw [renderedKey, hvalue]
  cases v with
  | string s => rfl
  | number n => rfl
  | null => cases hkey
  | bool b => cases hkey
  | array vs => cases hkey
  | object fs => cases hkey

/-- Comparing the keys of two rows compares the rendered keys. -/
theorem row_key_beq (host : Host F) {key : String} {other : Record F} (h : HasKey key record)
    (h' : HasKey key other) :
    ((row host key record).1 == (row host key other).1) =
      (renderedKey host key record == renderedKey host key other) := by
  obtain ⟨k, hk⟩ := Option.isSome_iff_exists.mp (renderedKey_isSome host h)
  obtain ⟨k', hk'⟩ := Option.isSome_iff_exists.mp (renderedKey_isSome host h')
  rw [row, row, hk, hk']
  rfl

theorem mapM_keyed {records : List (Record F)} (h : ∀ record ∈ records, HasKey op.key record) :
    records.mapM (keyed host op) = .ok (records.map (row host op.key)) := by
  induction records with
  | nil => rfl
  | cons record records ih =>
      rw [List.mapM_cons, keyed_of_hasKey (h record List.mem_cons_self),
        ih fun other hother => h other (List.mem_cons_of_mem _ hother)]
      rfl

theorem mapM_keyed_error (host : Host F) {records : List (Record F)} (hmem : record ∈ records)
    (h : ¬ HasKey op.key record) : ∃ e, records.mapM (keyed host op) = .error e := by
  induction records with
  | nil => cases hmem
  | cons other records ih =>
      rw [List.mapM_cons]
      by_cases hother : HasKey op.key other
      · rw [keyed_of_hasKey hother]
        rcases List.mem_cons.mp hmem with rfl | hmem
        · exact absurd hother h
        · obtain ⟨e, he⟩ := ih hmem
          rw [he]
          exact ⟨e, rfl⟩
      · obtain ⟨e, he⟩ := keyed_of_not_hasKey host hother
        rw [he]
        exact ⟨e, rfl⟩

end

/-! ### Rows -/

section

variable {host : Host F} {op : JoinOp} {lefts rights : List (Record F)}

theorem filter_rows {key : String} {records : List (Record F)} {record : Record F}
    (hrecords : ∀ other ∈ records, HasKey key other) (h : HasKey key record) :
    (records.filter fun other => (row host key other).1 == (row host key record).1) =
      partners host key records record :=
  List.filter_congr fun other hother => row_key_beq host (hrecords other hother) h

theorem hits_rows {key : String} {records : List (Record F)} {record : Record F}
    (hrecords : ∀ other ∈ records, HasKey key other) (h : HasKey key record) :
    hits Prod.fst (records.map (row host key)) (row host key record).1 =
      !(partners host key records record).isEmpty := by
  rw [← filter_rows hrecords h, Bool.eq_iff_iff]
  simp [hits]

theorem matched_rows (alone : Record F → List (Record F))
    (halone : ∀ l ∈ lefts, aloneLeft op (row host op.key l) = alone l)
    (hlefts : ∀ l ∈ lefts, HasKey op.key l) (hrights : ∀ r ∈ rights, HasKey op.key r) :
    matched Prod.fst Prod.fst combine (aloneLeft op) (lefts.map (row host op.key))
        (rights.map (row host op.key)) =
      lefts.flatMap fun l => if (partners host op.key rights l).isEmpty then alone l
        else (partners host op.key rights l).map (combined l) := by
  rw [matched_map]
  apply List.flatMap_congr
  intro l hl
  dsimp only
  rw [filter_rows hrights (hlefts l hl), halone l hl]
  rfl

theorem pairs_rows (hlefts : ∀ l ∈ lefts, HasKey op.key l)
    (hrights : ∀ r ∈ rights, HasKey op.key r) :
    pairs Prod.fst Prod.fst combine (lefts.map (row host op.key))
        (rights.map (row host op.key)) =
      lefts.flatMap fun l => (partners host op.key rights l).map (combined l) := by
  rw [pairs, List.flatMap_map]
  apply List.flatMap_congr
  intro l hl
  rw [List.filter_map, List.map_map, ← filter_rows hrights (hlefts l hl)]
  rfl

/-- The records without partner among the rows. -/
theorem filter_unmatched_rows {key : String} {records others : List (Record F)}
    (hrecords : ∀ record ∈ records, HasKey key record)
    (hothers : ∀ other ∈ others, HasKey key other) :
    ((records.map (row host key)).filter fun a =>
        !hits Prod.fst (others.map (row host key)) a.1) =
      (records.filter fun record => (partners host key others record).isEmpty).map
        (row host key) := by
  rw [List.filter_map]
  congr 1
  apply List.filter_congr
  intro record hrecord
  rw [Function.comp, hits_rows hothers (hrecords record hrecord), Bool.not_not]

theorem pairwise_rows [BEq F] {key : String} (hlefts : ∀ l ∈ lefts, HasKey key l)
    (hrights : ∀ r ∈ rights, HasKey key r) :
    ((rights.map (row host key)).filter fun b =>
        hits Prod.fst (lefts.map (row host key)) b.1).Pairwise
        (fun d b => ¬ (d.1 = b.1 ∧ same d b = true)) ↔ DistinctMatches host key lefts rights := by
  have hfilter : (rights.filter fun r =>
      hits Prod.fst (lefts.map (row host key)) (row host key r).1) =
      rights.filter fun r => !(partners host key lefts r).isEmpty :=
    List.filter_congr fun r hr => hits_rows hlefts (hrights r hr)
  rw [List.filter_map, List.pairwise_map]
  show ((rights.filter fun r =>
    hits Prod.fst (lefts.map (row host key)) (row host key r).1).Pairwise _) ↔ _
  rw [hfilter, DistinctMatches]
  apply List.Pairwise.iff_of_mem
  intro r s hr hs
  have hr := hrights r (List.mem_filter.mp hr).1
  have hs := hrights s (List.mem_filter.mp hs).1
  have hkey : (row host key r).1 = (row host key s).1 ↔
      renderedKey host key r = renderedKey host key s := by
    have hbeq := row_key_beq host hr hs
    rw [← beq_iff_eq, hbeq, beq_iff_eq]
  obtain ⟨obj, v, rfl, -⟩ := hr
  obtain ⟨obj', v', rfl, -⟩ := hs
  rw [hkey]
  rfl

end

/-! ### The operator on partitions -/

section

variable [BEq F] {host : Host F} {op : JoinOp} {left right : PartitionData F}
  {limit limit' : Nat} {path path' : Path} {lefts rights : List (Record F)}
  {files files₁ files₂ : Files}

/-- The join of keyed records, over the records themselves. -/
theorem joinRecords_of_hasKey (hkeys : ∀ record ∈ lefts ++ rights, HasKey op.key record) :
    joinRecords host op lefts rights =
      .ok (outerJoin Prod.fst Prod.fst same combine (aloneLeft op) (aloneRight op)
        (lefts.map (row host op.key)) (rights.map (row host op.key))) :=
  joinRecords_eq (mapM_keyed fun l hl => hkeys l (List.mem_append_left _ hl))
    (mapM_keyed fun r hr => hkeys r (List.mem_append_right _ hr))

theorem joinRecords_error (host : Host F) {record : Record F} (hmem : record ∈ lefts ++ rights)
    (h : ¬ HasKey op.key record) : ∃ e, joinRecords host op lefts rights = .error e := by
  rw [joinRecords]
  rcases List.mem_append.mp hmem with hl | hr
  · obtain ⟨e, he⟩ := mapM_keyed_error host hl h
    rw [he]
    cases hright : rights.mapM (keyed host op) with
    | error e' => exact ⟨e', rfl⟩
    | ok right => exact ⟨e, rfl⟩
  · obtain ⟨e, he⟩ := mapM_keyed_error host hr h
    rw [he]
    exact ⟨e, rfl⟩

theorem execute_of_parts (hleft : left.intoParts host files = (.ok (limit, path, lefts), files₁))
    (hright : right.intoParts host files₁ = (.ok (limit', path', rights), files₂)) :
    op.execute host [left, right] files =
      (do
        let output ← Exec.lift (joinRecords host op lefts rights)
        let partition ← PartitionData.fromRecords host (min left.partitionId right.partitionId)
          left.limitBytes left.spillPath output
        return [partition] : Action (List (PartitionData F))) files₂ := by
  show (left.intoParts host >>= _) files = _
  rw [Exec.bind_apply, hleft]
  show (right.intoParts host >>= _) files₁ = _
  rw [Exec.bind_apply, hright]

/-- What the operator yields when the records can be joined, in the spill file of
the left partition. -/
theorem execute_of_join (hleft : left.intoParts host files = (.ok (limit, path, lefts), files₁))
    (hright : right.intoParts host files₁ = (.ok (limit', path', rights), files₂))
    {output : List (Record F)} (houtput : joinRecords host op lefts rights = .ok output) :
    ∃ partition after, op.execute host [left, right] files = (.ok [partition], after) ∧
      Filled host files₂ output partition.cache after ∧ partition.spillPath = left.spillPath := by
  obtain ⟨partition, after, hfrom, hfilled, -, hspill, -⟩ := PartitionData.fromRecords_filled host
    (min left.partitionId right.partitionId) left.limitBytes left.spillPath output files₂
  refine ⟨partition, after, ?_, hfilled, hspill⟩
  rw [execute_of_parts hleft hright, houtput, Exec.bind_apply]
  show (PartitionData.fromRecords host _ _ _ output >>= _) files₂ = _
  rw [Exec.bind_apply, hfrom]
  rfl

theorem execute_of_ok (hleft : left.intoParts host files = (.ok (limit, path, lefts), files₁))
    (hright : right.intoParts host files₁ = (.ok (limit', path', rights), files₂))
    {output : List (Record F)} (houtput : joinRecords host op lefts rights = .ok output) :
    ∃ partition after, op.execute host [left, right] files = (.ok [partition], after) ∧
      Filled host files₂ output partition.cache after := by
  obtain ⟨partition, after, hrun, hfilled, -⟩ := execute_of_join hleft hright houtput
  exact ⟨partition, after, hrun, hfilled⟩

theorem execute_of_error (hleft : left.intoParts host files = (.ok (limit, path, lefts), files₁))
    (hright : right.intoParts host files₁ = (.ok (limit', path', rights), files₂)) {e : Fail}
    (houtput : joinRecords host op lefts rights = .error e) :
    op.execute host [left, right] files = (.error e, files₂) := by
  rw [execute_of_parts hleft hright, houtput, Exec.bind_apply]
  rfl

theorem joinRecords_nestedLoop (hkeys : ∀ record ∈ lefts ++ rights, HasKey op.key record)
    (htype : op.joinType = .inner ∨ op.joinType = .left) :
    joinRecords host op lefts rights = .ok (nestedLoop host op lefts rights) := by
  have hnone : @aloneRight F op = fun _ => [] := by
    funext r
    rw [aloneRight, if_neg]
    intro hr
    rcases htype with htype | htype <;> rw [htype] at hr <;> simp at hr
  have halone : ∀ l ∈ lefts, aloneLeft op (row host op.key l) =
      if op.joinType = .left then [leftOnly l] else [] := by
    intro l _
    rcases htype with htype | htype <;> simp only [aloneLeft, htype] <;> rfl
  have hmatched := matched_rows _ halone (fun l hl => hkeys l (List.mem_append_left _ hl))
    fun r hr => hkeys r (List.mem_append_right _ hr)
  rw [joinRecords_of_hasKey hkeys, outerJoin, hnone, hmatched, List.flatMap_eq_nil_iff.mpr
    (fun _ _ => rfl), List.append_nil]
  rfl

/-- The operator fails exactly when a record has no key. -/
theorem execute_error_iff
    (hleft : left.intoParts host files = (.ok (limit, path, lefts), files₁))
    (hright : right.intoParts host files₁ = (.ok (limit', path', rights), files₂)) :
    (∃ e after, op.execute host [left, right] files = (.error e, after)) ↔
      ∃ record ∈ lefts ++ rights, ¬ HasKey op.key record := by
  constructor
  · intro h
    by_contra hno
    have hkeys : ∀ record ∈ lefts ++ rights, HasKey op.key record := by
      intro record hmem
      by_contra hrecord
      exact hno ⟨record, hmem, hrecord⟩
    obtain ⟨e, after, herror⟩ := h
    obtain ⟨partition, after', hrun, -⟩ :=
      execute_of_ok hleft hright (joinRecords_of_hasKey hkeys)
    rw [hrun] at herror
    cases herror
  · intro h
    obtain ⟨record, hmem, hrecord⟩ := h
    obtain ⟨e, he⟩ := joinRecords_error host hmem hrecord
    exact ⟨e, files₂, execute_of_error hleft hright he⟩

/-- The operator fails when a record has no key; otherwise an inner and a left join
are the nested loop. -/
theorem execute_nestedLoop (op : JoinOp)
    (hleft : left.intoParts host files = (.ok (limit, path, lefts), files₁))
    (hright : right.intoParts host files₁ = (.ok (limit', path', rights), files₂)) :
    ((∃ e after, op.execute host [left, right] files = (.error e, after)) ↔
        ∃ record ∈ lefts ++ rights, ¬ HasKey op.key record) ∧
      ((∀ record ∈ lefts ++ rights, HasKey op.key record) →
        op.joinType = .inner ∨ op.joinType = .left →
        ∃ partition after, op.execute host [left, right] files = (.ok [partition], after) ∧
          Filled host files₂ (nestedLoop host op lefts rights) partition.cache after) :=
  ⟨execute_error_iff hleft hright,
    fun hkeys htype => execute_of_ok hleft hright (joinRecords_nestedLoop hkeys htype)⟩

/-- A right or a full join has one record for each pair, and one for each record of
an outer side without partner, exactly when no two equal right records have a
partner. -/
theorem execute_outer_iff [EquivBEq F] (op : JoinOp)
    (hleft : left.intoParts host files = (.ok (limit, path, lefts), files₁))
    (hright : right.intoParts host files₁ = (.ok (limit', path', rights), files₂))
    (hkeys : ∀ record ∈ lefts ++ rights, HasKey op.key record)
    (htype : op.joinType = .right ∨ op.joinType = .full) :
    ∃ partition output after, op.execute host [left, right] files = (.ok [partition], after) ∧
      Filled host files₂ output partition.cache after ∧
      (output.Perm (outerRecords host op lefts rights) ↔
        DistinctMatches host op.key lefts rights) := by
  have hlefts : ∀ l ∈ lefts, HasKey op.key l := fun l hl => hkeys l (List.mem_append_left _ hl)
  have hrights : ∀ r ∈ rights, HasKey op.key r := fun r hr => hkeys r (List.mem_append_right _ hr)
  obtain ⟨partition, after, hrun, hfilled⟩ := execute_of_ok hleft hright
    (joinRecords_of_hasKey hkeys)
  refine ⟨partition, _, after, hrun, hfilled, ?_⟩
  have halone : @aloneRight F op = fun r => [.object (combineRightOnly r.2)] := by
    funext r
    rw [aloneRight, if_pos htype]
  have hrefl : ∀ b : String × Fields F, same b b = true := fun b => Value.beqFields_refl b.2
  have htrans : ∀ b c d : String × Fields F, same b c = true → same c d = true →
      same b d = true := fun _ _ _ hbc hcd => Value.beqFields_trans hbc hcd
  have hiff := outerJoin_perm_iff hrefl htrans Prod.fst Prod.fst combine (aloneLeft op)
    (fun r => Value.object (combineRightOnly r.2)) (lefts.map (row host op.key))
    (rights.map (row host op.key))
  have hleftOnly : ((lefts.filter fun l => (partners host op.key rights l).isEmpty).map
      (row host op.key)).flatMap (aloneLeft op) = if op.joinType = .full then
      (lefts.filter fun l => (partners host op.key rights l).isEmpty).map leftOnly else [] := by
    rw [List.flatMap_map]
    rcases htype with htype | htype
    · simp only [aloneLeft, htype]
      exact List.flatMap_eq_nil_iff.mpr fun _ _ => rfl
    · simp only [aloneLeft, htype]
      exact List.map_eq_flatMap.symm
  rw [pairs_rows hlefts hrights, filter_unmatched_rows hlefts hrights,
    filter_unmatched_rows hrights hlefts, hleftOnly, List.map_map] at hiff
  rw [halone]
  exact hiff.trans (pairwise_rows hlefts hrights)

end

/-! ### Joins of partitions in memory -/

def lettered : Record Int := .object [("id", .string "a")]

def numbered : Record Int := .object [("id", .number (.int 7)), ("missing", .null)]

def partOf (name : String) (records : List (Record Int)) : PartitionData Int :=
  .stored (Host.plain []) 0 1000 [name] records

theorem partOf_intoParts (name : String) {records : List (Record Int)}
    (h : (Host.plain []).sizeOf records ≤ 1000) (files : Files) :
    (partOf name records).intoParts (Host.plain []) files =
      (.ok (1000, [name], records), files) := by
  rw [partOf, PartitionData.intoParts_of_resident _ (PartitionData.stored_resident_iff.mpr h),
    PartitionData.stored_held h, PartitionData.stored_limitBytes, PartitionData.stored_spillPath]

theorem hasKey_of_mem {record : Record Int} (h : record ∈ [lettered, numbered]) :
    HasKey "id" record := by
  have hcases : record = lettered ∨ record = numbered := by simpa using h
  rcases hcases with rfl | rfl
  · exact ⟨_, .string "a", rfl, rfl, rfl⟩
  · exact ⟨_, .number (.int 7), rfl, rfl, rfl⟩

theorem execute_nestedLoop_twice :
    ∃ partition after, (⟨"id", .left⟩ : JoinOp).execute (Host.plain [])
        [partOf "left" [lettered, numbered], partOf "right" [lettered, lettered]] ∅ =
          (.ok [partition], after) ∧
      Filled (Host.plain []) ∅
        [combined lettered lettered, combined lettered lettered, leftOnly numbered]
        partition.cache after :=
  (execute_nestedLoop ⟨"id", .left⟩
    (partOf_intoParts "left" (by decide +kernel) ∅)
    (partOf_intoParts "right" (by decide +kernel) ∅)).2 (by
      intro record hmem
      apply hasKey_of_mem
      simpa [or_comm, or_left_comm] using hmem) (Or.inr rfl)

theorem execute_outer_iff_once :
    ∃ partition output after, (⟨"id", .full⟩ : JoinOp).execute (Host.plain [])
        [partOf "left" [lettered, lettered], partOf "right" [lettered, numbered]] ∅ =
          (.ok [partition], after) ∧
      Filled (Host.plain []) ∅ output partition.cache after ∧
      output.Perm
        [combined lettered lettered, combined lettered lettered, rightAlone numbered] := by
  have hkeys : ∀ record ∈ [lettered, lettered] ++ [lettered, numbered], HasKey "id" record := by
    intro record hmem
    apply hasKey_of_mem
    simpa using hmem
  obtain ⟨partition, output, after, hrun, hfilled, hperm⟩ :=
    execute_outer_iff ⟨"id", .full⟩
      (partOf_intoParts "left" (by decide +kernel) ∅)
      (partOf_intoParts "right" (by decide +kernel) ∅) hkeys (Or.inr rfl)
  exact ⟨partition, output, after, hrun, hfilled, hperm.mpr (by decide +kernel)⟩

/-- Both copies of a right record have a partner, and one of them comes out as
right-only. -/
theorem second_copy_unmatched :
    ∃ partition, ((⟨"id", .right⟩ : JoinOp).execute (Host.plain [])
        [partOf "left" [lettered], partOf "right" [lettered, lettered]] ∅).1 = .ok [partition] ∧
      ¬ partition.held.Perm
        (outerRecords (Host.plain []) ⟨"id", .right⟩ [lettered] [lettered, lettered]) :=
  ⟨partOf "left" [combined lettered lettered, combined lettered lettered, rightAlone lettered],
    by rfl,
    by decide +kernel⟩

end JoinOp
end ProcessingEngine

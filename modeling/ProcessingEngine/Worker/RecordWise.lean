import ProcessingEngine.Lib.Footprint
import ProcessingEngine.Worker.Flow

/-!
# Pipelines of record-wise operators

`Map`, `Filter`, `FlatMap` and `Identity` take their input apart record by
record.  `RecordOp.results` is what a chain of them makes of one record, and
`RecordOp.accepts` whether it does so without a failure.  A filled partition
goes through the chain with the records that this yields, whatever spills on the
way, and a failure leaves the files as they were (`runChain_filled`).
-/

namespace ProcessingEngine

open Lib Lib.Exec Text

variable {F : Type}

inductive RecordOp where
  | map (op : MapOp)
  | filter (op : FilterOp)
  | flatMap (op : FlatMapOp)
  deriving DecidableEq, Repr

def OperatorType.recordOp : OperatorType → Option RecordOp
  | .map script => some (.map ⟨script⟩)
  | .filter predicate => some (.filter ⟨predicate⟩)
  | .flatMap func => some (.flatMap ⟨func⟩)
  | .identity => some (.map ⟨"identity"⟩)
  | _ => none

namespace RecordOp

def toOperator : RecordOp → Operator
  | .map op => .map op
  | .filter op => .filter op
  | .flatMap op => .flatMap op

theorem fromType_of_recordOp {value : OperatorType} {op : RecordOp}
    (h : value.recordOp = some op) (partitionId totalPartitions cacheLimitBytes : Nat)
    (spillPath : Path) :
    Operator.fromType value partitionId totalPartitions cacheLimitBytes spillPath =
      op.toOperator := by
  cases value with
  | map | filter | flatMap | identity =>
      cases h
      rfl
  | _ => cases h

section

variable [BEq F] (host : Host F)

/-- The operator on one record. -/
def apply (op : RecordOp) (record : Record F) : Except Fail (List (Record F)) :=
  match op with
  | .map op => (MapOp.applyFn host op.func record).map fun r => [r]
  | .filter op => (Predicate.parse host op.predicate).map fun predicate =>
      if predicate.eval host record then [record] else []
  | .flatMap op => FlatMapOp.apply op.func record

/-- The predicate of a filter is parsed before its input is looked at. -/
def parses : RecordOp → Bool
  | .filter op => (Predicate.parse host op.predicate).isOk
  | _ => true

def output (op : RecordOp) (record : Record F) : List (Record F) :=
  match op.apply host record with
  | .ok records => records
  | .error _ => []

/-- No operator of the chain fails on the record, or on what the ones before it
make of it. -/
def accepts : List RecordOp → Record F → Bool
  | [], _ => true
  | op :: ops, record =>
      (op.apply host record).isOk && (op.output host record).all (accepts ops)

/-- What the chain makes of a record. -/
def results : List RecordOp → Record F → List (Record F)
  | [], record => [record]
  | op :: ops, record => (op.output host record).flatMap (results ops)

/-- The records that a record becomes on its way through the chain. -/
def reached : List RecordOp → Record F → List (Record F)
  | [], record => [record]
  | op :: ops, record => record :: (op.output host record).flatMap (reached ops)

/-- The operator on the records of a partition. -/
def applyAll (op : RecordOp) (records : List (Record F)) : Except Fail (List (Record F)) :=
  match op with
  | .map op => records.mapM (MapOp.applyFn host op.func)
  | .filter op => (Predicate.parse host op.predicate).map fun predicate =>
      records.filter fun r => predicate.eval host r
  | .flatMap op => (records.mapM (FlatMapOp.apply op.func)).map List.flatten

end

variable [BEq F] {host : Host F}

omit [BEq F] in
/-- A list is mapped when each element is. -/
theorem mapM_cases {α β ε : Type} (f : α → Except ε β) (as : List α) :
    (∃ bs, as.mapM f = .ok bs ∧ as.map f = bs.map .ok) ∨
      ∃ e, as.mapM f = .error e ∧ ∃ a ∈ as, f a = .error e := by
  induction as with
  | nil => exact Or.inl ⟨[], rfl, rfl⟩
  | cons a as ih =>
      rw [List.mapM_cons]
      cases hfa : f a with
      | error e => exact Or.inr ⟨e, rfl, a, List.mem_cons_self, hfa⟩
      | ok b =>
          rcases ih with ⟨bs, hrest, hmap⟩ | ⟨e, hrest, c, hc, hfc⟩
          · refine Or.inl ⟨b :: bs, ?_, ?_⟩
            · rw [hrest]
              rfl
            · rw [List.map_cons, List.map_cons, hfa, hmap]
          · refine Or.inr ⟨e, ?_, c, List.mem_cons_of_mem a hc, hfc⟩
            rw [hrest]
            rfl

omit [BEq F] in
theorem filter_eq_flatMap {α : Type} (p : α → Bool) (as : List α) :
    as.filter p = as.flatMap fun a => if p a then [a] else [] := by
  induction as with
  | nil => rfl
  | cons a as ih =>
      rw [List.filter_cons, List.flatMap_cons, ih]
      split_ifs
      · rfl
      · rfl

/-- The outputs are made of what `f` returns. -/
theorem flatMap_output {op : RecordOp} {β : Type} {f : Record F → Except Fail β}
    {g : β → List (Record F)} (hf : ∀ r, op.apply host r = (f r).map g)
    {records : List (Record F)} {bs : List β} (hmap : records.map f = bs.map .ok) :
    records.flatMap (op.output host) = bs.flatMap g := by
  induction records generalizing bs with
  | nil =>
      obtain rfl := List.map_eq_nil_iff.mp hmap.symm
      rfl
  | cons r records ih =>
      cases bs with
      | nil => cases hmap
      | cons b bs =>
          rw [List.map_cons, List.map_cons, List.cons.injEq] at hmap
          have houtput : op.output host r = g b := by
            rw [output, hf, hmap.1]
            rfl
          rw [List.flatMap_cons, List.flatMap_cons, ih hmap.2, houtput]

/-- An operator that maps `f` over its records fails where `f` does. -/
theorem apply_cases {op : RecordOp} {β : Type} {f : Record F → Except Fail β}
    {g : β → List (Record F)} (hf : ∀ r, op.apply host r = (f r).map g)
    (records : List (Record F)) :
    ((∀ r ∈ records, (op.apply host r).isOk = true) ∧ ∃ bs, records.mapM f = .ok bs ∧
        records.flatMap (op.output host) = bs.flatMap g) ∨
      (∃ r ∈ records, (op.apply host r).isOk = false) ∧ ∃ e, records.mapM f = .error e := by
  rcases mapM_cases f records with ⟨bs, hok, hmap⟩ | ⟨e, herror, r, hr, hfr⟩
  · refine Or.inl ⟨fun r hr => ?_, bs, hok, flatMap_output hf hmap⟩
    have hmem := List.mem_map_of_mem (f := f) hr
    rw [hmap] at hmem
    obtain ⟨b, -, hb⟩ := List.mem_map.mp hmem
    rw [hf, ← hb]
    rfl
  · refine Or.inr ⟨⟨r, hr, ?_⟩, e, herror⟩
    rw [hf, hfr]
    rfl

/-- A filter of which the predicate parses fails on no record. -/
theorem applyAll_filter {op : FilterOp} (hparses : (RecordOp.filter op).parses host = true)
    (records : List (Record F)) :
    (∀ r ∈ records, ((RecordOp.filter op).apply host r).isOk = true) ∧
      (RecordOp.filter op).applyAll host records =
        .ok (records.flatMap ((RecordOp.filter op).output host)) := by
  rw [parses] at hparses
  cases hparse : Predicate.parse host op.predicate with
  | error e =>
      rw [hparse] at hparses
      cases hparses
  | ok predicate =>
      refine ⟨fun r _ => ?_, ?_⟩
      · rw [apply, hparse]
        rfl
      · rw [applyAll, hparse]
        show Except.ok (records.filter _) = _
        have houtput : (RecordOp.filter op).output host = fun r =>
            if predicate.eval host r then [r] else [] := by
          funext r
          rw [output, apply, hparse]
          rfl
        rw [houtput, filter_eq_flatMap]

/-- The records of a partition are computed one by one. -/
theorem applyAll_cases {op : RecordOp} (hparses : op.parses host = true)
    (records : List (Record F)) :
    ((∀ r ∈ records, (op.apply host r).isOk = true) ∧
      op.applyAll host records = .ok (records.flatMap (op.output host))) ∨
    (∃ r ∈ records, (op.apply host r).isOk = false) ∧
      ∃ e, op.applyAll host records = .error e := by
  cases op with
  | map op =>
      have hf : ∀ r : Record F, (RecordOp.map op).apply host r =
          (MapOp.applyFn host op.func r).map fun r => [r] := fun r => rfl
      rcases apply_cases hf records with ⟨hall, bs, hok, hflat⟩ | hfailed
      · refine Or.inl ⟨hall, ?_⟩
        rw [hflat, List.flatMap_singleton']
        exact hok
      · exact Or.inr hfailed
  | filter op => exact Or.inl (applyAll_filter hparses records)
  | flatMap op =>
      have hf : ∀ r : Record F, (RecordOp.flatMap op).apply host r =
          (FlatMapOp.apply op.func r).map id := by
        intro r
        show FlatMapOp.apply op.func r = _
        cases FlatMapOp.apply op.func r <;> rfl
      rcases apply_cases hf records with ⟨hall, bs, hok, hflat⟩ | ⟨hsome, e, herror⟩
      · refine Or.inl ⟨hall, ?_⟩
        rw [applyAll, hok, hflat, List.flatMap_id]
        rfl
      · refine Or.inr ⟨hsome, e, ?_⟩
        rw [applyAll, herror]
        rfl

theorem execute_eq {op : RecordOp} (hparses : op.parses host = true) (order : HashOrder String)
    (partitions : List (PartitionData F)) :
    op.toOperator.execute host order partitions =
      perPartition host (op.applyAll host) partitions := by
  cases op with
  | map op => rfl
  | flatMap op => rfl
  | filter op =>
      rw [parses] at hparses
      show FilterOp.execute host op partitions = _
      unfold FilterOp.execute
      cases hparse : Predicate.parse host op.predicate with
      | error e =>
          rw [hparse] at hparses
          cases hparses
      | ok predicate =>
          have happly : (RecordOp.filter op).applyAll host = fun records =>
              .ok (records.filter fun r => predicate.eval host r) := by
            funext records
            rw [applyAll, hparse]
            rfl
          rw [happly]
          rfl

theorem parses_of_execute {op : RecordOp} {order : HashOrder String}
    {partitions parts : List (PartitionData F)} {files files' : Files}
    (h : op.toOperator.execute host order partitions files = (.ok parts, files')) :
    op.parses host = true := by
  cases op with
  | map | flatMap => rfl
  | filter op =>
      obtain ⟨predicate, after, hparse, -⟩ := bind_eq_ok.mp h
      rw [lift_apply, Prod.mk.injEq] at hparse
      rw [parses, hparse.1]
      rfl

end RecordOp

/-! ### A filled partition -/

section

open PartitionCache (Filled)

variable {host : Host F} {before files : Files} {records : List (Record F)}
  {partition : PartitionData F}

/-- The partition has been filled with the records, over files without a leftover
of its spill file. -/
structure PartitionData.Carries (host : Host F) (before : Files) (records : List (Record F))
    (partition : PartitionData F) (files : Files) : Prop where
  filled : Filled host before records partition.cache files
  fresh : before.lookup partition.spillPath = none

/-- A partition that has been filled over files without a leftover. -/
theorem PartitionData.carries_stored {spill : Path} (hfresh : files.lookup spill = none)
    (host : Host F) (pid limitBytes : Nat) (records : List (Record F)) :
    (stored host pid limitBytes spill records).Carries host files records
      (PartitionCache.storedFiles host limitBytes spill records files) := by
  refine ⟨stored_filled _ _ _ _ _ _, ?_⟩
  rw [stored_spillPath]
  exact hfresh

theorem perPartition_filled {f : List (Record F) → Except Fail (List (Record F))}
    (h : partition.Carries host before records files) (hback : ∀ v ∈ records, host.ReadsBack v) :
    match f records with
    | .error e => perPartition host f [partition] files = (.error e, before)
    | .ok out => ∃ partition' files',
        perPartition host f [partition] files = (.ok [partition'], files') ∧
          partition'.Carries host before out files' ∧
          partition'.partitionId = partition.partitionId ∧
          partition'.spillPath = partition.spillPath := by
  have hparts := PartitionData.intoParts_of_filled h.filled h.fresh hback
  rw [perPartition, forEach_singleton, Exec.bind_apply, hparts]
  dsimp only
  rw [Exec.bind_apply, lift_apply]
  cases f records with
  | error e => rfl
  | ok out =>
      obtain ⟨partition', files', hfrom, hfilled, hid, hspill, -⟩ :=
        PartitionData.fromRecords_filled host partition.partitionId partition.limitBytes
          partition.spillPath out before
      dsimp only
      rw [hfrom]
      exact ⟨partition', files', rfl, ⟨hfilled, by rw [hspill]; exact h.fresh⟩, hid, hspill⟩

/-! ### A chain of operators -/

variable [BEq F]

theorem RecordOp.mem_reached_self (host : Host F) (ops : List RecordOp) (r : Record F) :
    r ∈ RecordOp.reached host ops r := by
  cases ops with
  | nil => exact List.mem_singleton_self r
  | cons op ops => exact List.mem_cons_self

theorem RecordOp.results_subset_reached (host : Host F) (ops : List RecordOp) (r : Record F) :
    RecordOp.results host ops r ⊆ RecordOp.reached host ops r := by
  induction ops generalizing r with
  | nil => exact List.Subset.refl _
  | cons op ops ih =>
      intro v hv
      obtain ⟨s, hs, hv⟩ := List.mem_flatMap.mp hv
      exact List.mem_cons_of_mem r (List.mem_flatMap.mpr ⟨s, hs, ih s hv⟩)

theorem Pipeline.execute_of_runOperators {p : Pipeline} {attempt : Attempt} {idx : Nat}
    {ops : List Operator} {table : HashMap String (List (PartitionData F))}
    {stages : List StageTrace} {files files' : Files}
    {out : HashMap String (List (PartitionData F)) × List StageTrace}
    (h : p.runOperators host attempt idx ops table stages files = (.ok out, files')) :
    ∀ op ∈ ops, ∃ order input before parts after,
      op.execute host order input before = (.ok parts, after) := by
  induction ops generalizing idx table stages files with
  | nil => simp
  | cons op ops ih =>
      obtain ⟨parts, after, hexecute, hrest⟩ := bind_eq_ok.mp h
      exact List.forall_mem_cons.mpr ⟨⟨_, _, _, parts, after, hexecute⟩, ih hrest⟩

/-- Where an operator fails on no record, a chain accepts what its rest accepts of the
outputs. -/
theorem RecordOp.all_accepts_cons {op : RecordOp} (ops : List RecordOp)
    {records : List (Record F)} (hall : ∀ r ∈ records, (op.apply host r).isOk = true) :
    records.all (RecordOp.accepts host (op :: ops)) =
      (records.flatMap (op.output host)).all (RecordOp.accepts host ops) := by
  rw [Bool.eq_iff_iff, List.all_flatMap, List.all_eq_true, List.all_eq_true]
  apply forall₂_congr
  intro r hr
  rw [RecordOp.accepts, hall r hr, Bool.true_and]

theorem RecordOp.all_accepts_of_failed {op : RecordOp} (ops : List RecordOp)
    {records : List (Record F)} {r : Record F} (hr : r ∈ records)
    (hfail : (op.apply host r).isOk = false) :
    records.all (RecordOp.accepts host (op :: ops)) = false := by
  rw [← Bool.not_eq_true, List.all_eq_true]
  intro hall
  have haccepts := hall r hr
  rw [RecordOp.accepts, hfail, Bool.false_and] at haccepts
  cases haccepts

theorem RecordOp.flatMap_results_cons (op : RecordOp) (ops : List RecordOp)
    (records : List (Record F)) :
    records.flatMap (RecordOp.results host (op :: ops)) =
      (records.flatMap (op.output host)).flatMap (RecordOp.results host ops) := by
  rw [List.flatMap_assoc]
  rfl

/-- What the rest of a chain meets of the outputs is read back. -/
theorem RecordOp.readsBack_output {op : RecordOp} {ops : List RecordOp}
    {records : List (Record F)}
    (hback : ∀ r ∈ records, ∀ v ∈ RecordOp.reached host (op :: ops) r, host.ReadsBack v) :
    ∀ r ∈ records.flatMap (op.output host), ∀ v ∈ RecordOp.reached host ops r,
      host.ReadsBack v := by
  intro r hr v hv
  obtain ⟨source, hsource, hr⟩ := List.mem_flatMap.mp hr
  apply hback source hsource v
  apply List.mem_cons_of_mem
  exact List.mem_flatMap.mpr ⟨r, hr, hv⟩

omit [BEq F] in
/-- The partitions of the only parent are taken out of the table. -/
theorem Pipeline.inputOf_singleton (empty : PartitionData F) (key : String)
    (parts : List (PartitionData F)) :
    Pipeline.inputOf empty [key] (AList.insert key parts ∅) = (parts, ∅) := by
  show Pipeline.takeParents [key] _ = _
  rw [Pipeline.takeParents, AList.lookup_insert]
  dsimp only
  rw [Pipeline.takeParents, HashMap.erase_insert (AList.notMem_empty _)]
  exact Prod.ext (List.append_nil parts) rfl

/-- The operators of a chain after the first one: each takes the partition of the
one before it from the table and leaves its own there. -/
theorem runChain_filled {p : Pipeline} {attempt : Attempt} {ops : List RecordOp}
    (hparses : ∀ op ∈ ops, op.parses host = true) {idx : Nat}
    (hparents : ∀ i < ops.length, p.parents (idx + 1 + i) = [p.operatorId (idx + i)])
    (h : partition.Carries host before records files)
    (hback : ∀ r ∈ records, ∀ v ∈ RecordOp.reached host ops r, host.ReadsBack v)
    (stages : List StageTrace) :
    (records.all (RecordOp.accepts host ops) = true ∧ ∃ partition' files' stages',
      p.runOperators host attempt (idx + 1) (ops.map RecordOp.toOperator)
          (AList.insert (p.operatorId idx) [partition] ∅) stages files =
        (.ok (AList.insert (p.operatorId (idx + ops.length)) [partition'] ∅, stages'), files') ∧
      partition'.Carries host before (records.flatMap (RecordOp.results host ops)) files' ∧
      partition'.partitionId = partition.partitionId) ∨
    records.all (RecordOp.accepts host ops) = false ∧ ∃ e,
      p.runOperators host attempt (idx + 1) (ops.map RecordOp.toOperator)
          (AList.insert (p.operatorId idx) [partition] ∅) stages files = (.error e, before) := by
  induction ops generalizing idx records partition files stages with
  | nil =>
      refine Or.inl ⟨by simp [RecordOp.accepts], partition, files, stages, rfl, ?_, rfl⟩
      have hresults : RecordOp.results host [] = fun r => [r] := by
        funext r
        rfl
      rw [hresults, List.flatMap_singleton']
      exact h
  | cons op ops ih =>
      rw [List.forall_mem_cons] at hparses
      have hparent : p.parents (idx + 1) = [p.operatorId idx] :=
        hparents 0 (Nat.succ_pos _)
      have hself : ∀ v ∈ records, host.ReadsBack v :=
        fun v hv => hback v hv v (RecordOp.mem_reached_self host (op :: ops) v)
      have hstep := perPartition_filled h hself (f := op.applyAll host)
      rw [List.map_cons, Pipeline.runOperators_cons, hparent, Pipeline.inputOf_singleton]
      dsimp only
      rw [RecordOp.execute_eq hparses.1]
      rcases RecordOp.applyAll_cases hparses.1 records with
        ⟨hall, happly⟩ | ⟨⟨r, hr, hfail⟩, e, happly⟩
      · rw [happly] at hstep
        obtain ⟨partition', files', hrun, hcarries, hid, -⟩ := hstep
        rw [hrun]
        dsimp only
        have hparents' : ∀ i < ops.length,
            p.parents (idx + 1 + 1 + i) = [p.operatorId (idx + 1 + i)] := by
          intro i hi
          have hnext := hparents (i + 1) (Nat.succ_lt_succ hi)
          rw [show idx + 1 + 1 + i = idx + 1 + (i + 1) by omega,
            show idx + 1 + i = idx + (i + 1) by omega]
          exact hnext
        have hlen : idx + 1 + ops.length = idx + (op :: ops).length := by
          rw [List.length_cons]
          omega
        rw [RecordOp.all_accepts_cons ops hall, RecordOp.flatMap_results_cons, ← hlen, ← hid]
        exact ih hparses.2 hparents' hcarries (RecordOp.readsBack_output hback) _
      · rw [happly] at hstep
        rw [hstep]
        exact Or.inr ⟨RecordOp.all_accepts_of_failed ops hr hfail, e, rfl⟩

end

end ProcessingEngine

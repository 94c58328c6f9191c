import ProcessingEngine.Worker.Executor

/-!
# The numbers of the final partitions

Which numbers the final partitions of a task carry does not depend on the data.
`Operator.outputIds` gives the numbers that an operator puts on its output, and
`Pipeline.finalIds` runs a pipeline on the numbers alone.  The executor follows
it, and until it writes its results it touches no result file
(`Pipeline.run_numbered`).
-/

namespace ProcessingEngine

open Lib Lib.Exec Text

variable {F : Type}

/-! ### The abstract run -/

namespace Operator

/-- The numbers of the output partitions, from those of the input.  A join of
other than two partitions fails. -/
def outputIds : Operator → List Nat → Option (List Nat)
  | .read op, _ => some [op.partitionId]
  | .map _, ids => some ids
  | .filter _, ids => some ids
  | .flatMap _, ids => some ids
  | .reduce _, ids => some (ids.take 1)
  | .reduceByKey _, ids => some (ids.take 1)
  | .join _, [l, r] => some [min l r]
  | .join _, _ => none
  | .shuffle op, _ => some (List.range op.totalPartitions)

end Operator

namespace Pipeline

def numberOperators (p : Pipeline) :
    Nat → List Operator → HashMap String (List Nat) → Option (HashMap String (List Nat))
  | _, [], ids => some ids
  | idx, op :: rest, ids => do
      let (input, ids) := inputOf p.partitionId (p.parents idx) ids
      let output ← op.outputIds input
      numberOperators p (idx + 1) rest (ids.insert (p.operatorId idx) output)

/-- The numbers of the final partitions; `none` when the pipeline fails for want
of them. -/
def finalIds (p : Pipeline) : Option (List Nat) :=
  (p.numberOperators 0 p.operators ∅).bind fun ids => ids.lookup p.finalKey

end Pipeline

/-! ### Result files -/

/-- The path of a result file: its name is that of a partition. -/
def PartFile (path : Path) : Prop :=
  ∃ (dir : Path) (partition : Nat), path = dir ++ ["part-" ++ toString partition ++ ".bin"]

theorem not_partFile {dir : Path} {name : String} (h : name.toList.head? ≠ some 'p') :
    ¬ PartFile (dir ++ [name]) := by
  intro ⟨dir', partition, hpath⟩
  have hname := congrArg List.getLast? hpath
  rw [List.getLast?_concat, List.getLast?_concat, Option.some.injEq] at hname
  apply h
  rw [hname]
  simp [String.toList_append]

theorem partFile_partitionPath {Uuid : Type} (store : PartitionStore) (text : Uuid → String)
    (jobId : Uuid) (stageId partition : Nat) :
    PartFile (store.partitionPath text jobId stageId partition) := ⟨_, partition, rfl⟩

theorem not_partFile_spillPath {Uuid : Type} (store : PartitionStore) (text : Uuid → String)
    (jobId : Uuid) (stageId partition : Nat) :
    ¬ PartFile (store.spillPath text jobId stageId partition) := by
  refine not_partFile ?_
  simp [String.toList_append]

theorem not_partFile_bucketPath (base : Path) (idx : Nat) :
    ¬ PartFile (ShuffleByKeyOp.bucketPath base idx) := by
  refine not_partFile ?_
  simp [String.toList_append]

/-- The result files are those of `before`. -/
def Untouched (before after : Files) : Prop :=
  ∀ path, PartFile path → after.lookup path = before.lookup path

/-- The partitions have these numbers and spill to files that are no results. -/
structure Numbered (ids : List Nat) (partitions : List (PartitionData F)) : Prop where
  ids : partitions.map PartitionData.partitionId = ids
  spill : ∀ p ∈ partitions, ¬ PartFile p.spillPath

theorem Numbered.append {l l' : List Nat} {parts parts' : List (PartitionData F)}
    (h : Numbered l parts) (h' : Numbered l' parts') : Numbered (l ++ l') (parts ++ parts') where
  ids := by rw [List.map_append, h.ids, h'.ids]
  spill := by
    intro p hp
    rcases List.mem_append.mp hp with hp | hp
    · exact h.spill p hp
    · exact h'.spill p hp

theorem numbered_of_forall₂ {α : Type} {id : α → Nat} {as : List α}
    {partitions : List (PartitionData F)}
    (h : List.Forall₂ (fun a p => p.partitionId = id a ∧ ¬ PartFile p.spillPath) as partitions) :
    Numbered (as.map id) partitions := by
  induction h with
  | nil => exact ⟨rfl, by simp⟩
  | cons hp _ ih =>
      refine ⟨?_, ?_⟩
      · rw [List.map_cons, List.map_cons, hp.1, ih.ids]
      · rw [List.forall_mem_cons]
        exact ⟨hp.2, ih.spill⟩

theorem fromRecords_numbered (host : Host F) (before : Files) {spillPath : Path}
    (hspill : ¬ PartFile spillPath) (partitionId limitBytes : Nat) (records : List (Record F)) :
    Triple (Untouched before)
      (PartitionData.fromRecords host partitionId limitBytes spillPath records)
      (fun p s => (p.partitionId = partitionId ∧ ¬ PartFile p.spillPath) ∧ Untouched before s)
      (Untouched before) := by
  intro s hs
  obtain ⟨partition, after, hrun, hfilled, hid, hpath, -⟩ :=
    PartitionData.fromRecords_filled host partitionId limitBytes spillPath records s
  rw [hrun]
  refine ⟨⟨hid, by rwa [hpath]⟩, fun path hpart => ?_⟩
  have hne : path ≠ partition.cache.spillPath := by
    intro he
    rw [he] at hpart
    exact hspill (hpath ▸ hpart)
  rw [hfilled.lookup_of_ne hne, hs path hpart]

theorem intoParts_numbered (host : Host F) (before : Files) {partition : PartitionData F}
    (hspill : ¬ PartFile partition.spillPath) :
    Triple (Untouched before) (partition.intoParts host)
      (fun parts s => ¬ PartFile parts.2.1 ∧ Untouched before s) (Untouched before) := by
  intro s hs
  have hkept : Untouched before (partition.intoParts host s).2 := by
    intro path hpart
    have hne : path ≠ partition.spillPath := fun he => hspill (he ▸ hpart)
    rw [partition.intoParts_lookup_of_ne host s hne, hs path hpart]
  revert hkept
  rw [PartitionData.intoParts, bind_apply]
  rcases partition.cache.drainAll host s with ⟨_ | records, s'⟩
  · exact fun hkept => hkept
  · exact fun hkept => ⟨hspill, hkept⟩

theorem lift_untouched {α : Type} (before : Files) (x : Except Fail α) :
    Triple (Untouched before) (lift x : Action α) (fun _ => Untouched before)
      (Untouched before) :=
  triple_lift (fun _ _ _ hs => hs) fun _ hs => hs

theorem readOr_untouched (before : Files) (message : String) (path : Path) :
    Triple (Untouched before) (Files.readOr message path) (fun _ => Untouched before)
      (Untouched before) := by
  intro s hs
  rw [Files.readOr_apply]
  cases s.lookup path with
  | none => exact hs
  | some content => exact hs

/-! ### The operators -/

theorem perPartition_numbered (host : Host F) (before : Files)
    (f : List (Record F) → Except Fail (List (Record F))) {input : List (PartitionData F)}
    {ids : List Nat} (hin : Numbered ids input) :
    Triple (Untouched before) (perPartition host f input)
      (fun out s => Numbered ids out ∧ Untouched before s) (Untouched before) := by
  refine (triple_forEach (P := fun p : PartitionData F => ¬ PartFile p.spillPath)
    (R := fun p q => q.partitionId = p.partitionId ∧ ¬ PartFile q.spillPath)
    (fun p hspill => ?_) input hin.spill).conseq (fun _ hs => hs) (fun out s hout => ?_)
    fun _ hs => hs
  · refine triple_bind (intoParts_numbered host before hspill) fun (limit, path, records) => ?_
    intro s hs
    refine triple_bind (lift_untouched before (f records)) (fun mapped => ?_) s hs.2
    exact fromRecords_numbered host before hs.1 p.partitionId limit mapped
  · refine ⟨?_, hout.2⟩
    have hids := numbered_of_forall₂ hout.1
    rwa [hin.ids] at hids

theorem drainPartitions_untouched (host : Host F) (before : Files)
    {input : List (PartitionData F)} {ids : List Nat} (hin : Numbered ids input) :
    Triple (Untouched before) (drainPartitions host input) (fun _ => Untouched before)
      (Untouched before) := by
  refine triple_bind (triple_forEach (P := fun p : PartitionData F => ¬ PartFile p.spillPath)
    (R := fun _ _ => True) (fun p hspill => ?_) input hin.spill) fun parts s hs => hs.2
  exact (intoParts_numbered host before hspill).conseq (fun _ hs => hs)
    (fun _ _ hs => ⟨trivial, hs.2⟩) fun _ hs => hs

theorem groupPartitions_untouched (host : Host F) (before : Files) (op : ReduceByKeyOp)
    {input : List (PartitionData F)} (hin : ∀ p ∈ input, ¬ PartFile p.spillPath)
    (groups : HashMap String (List (Record F))) :
    Triple (Untouched before) (ReduceByKeyOp.groupPartitions host op groups input)
      (fun _ => Untouched before) (Untouched before) := by
  induction input generalizing groups with
  | nil => exact fun s hs => hs
  | cons p rest ih =>
      have hrest := ih fun q hq => hin q (List.mem_cons_of_mem p hq)
      refine triple_bind (intoParts_numbered host before (hin p List.mem_cons_self))
        fun (limit, path, records) => ?_
      intro s hs
      exact triple_bind (lift_untouched before _) (fun groups' => hrest groups') s hs.2

/-- One new partition, in the place of the first. -/
theorem single_numbered (host : Host F) (before : Files) {first : PartitionData F}
    (hspill : ¬ PartFile first.spillPath) (id limit : Nat) (records : List (Record F)) :
    Triple (Untouched before)
      (do
        let partition ← PartitionData.fromRecords host id limit first.spillPath records
        return [partition])
      (fun out s => Numbered [id] out ∧ Untouched before s) (Untouched before) := by
  refine triple_bind (fromRecords_numbered host before hspill id limit records) fun p s hs => ?_
  exact ⟨⟨congrArg (fun i => [i]) hs.1.1, by simpa using hs.1.2⟩, hs.2⟩

theorem ReadOp.execute_numbered (host : Host F) (before : Files) {op : ReadOp}
    (hspill : ¬ PartFile op.spillPath) :
    Triple (Untouched before) (op.execute host)
      (fun out s => Numbered [op.partitionId] out ∧ Untouched before s) (Untouched before) := by
  refine triple_bind (readOr_untouched before _ _) fun content => ?_
  refine triple_bind (lift_untouched before _) fun records => ?_
  refine triple_bind (fromRecords_numbered host before hspill _ _ records) fun p s hs => ?_
  exact ⟨⟨congrArg (fun i => [i]) hs.1.1, by simpa using hs.1.2⟩, hs.2⟩

theorem ReduceOp.execute_numbered (host : Host F) (before : Files) (op : ReduceOp)
    {input : List (PartitionData F)} {ids : List Nat} (hin : Numbered ids input) :
    Triple (Untouched before) (op.execute host input)
      (fun out s => Numbered (ids.take 1) out ∧ Untouched before s) (Untouched before) := by
  apply triple_bind (lift_untouched before _)
  intro reducer
  obtain ⟨rfl, hspill⟩ := hin
  cases input with
  | nil => exact fun s hs => ⟨⟨rfl, by simp⟩, hs⟩
  | cons first rest =>
      apply triple_bind (drainPartitions_untouched host before ⟨rfl, hspill⟩)
      intro records
      exact single_numbered host before (hspill first List.mem_cons_self) _ _ _

theorem ReduceByKeyOp.execute_numbered (host : Host F) (order : HashOrder String)
    (before : Files) (op : ReduceByKeyOp) {input : List (PartitionData F)} {ids : List Nat}
    (hin : Numbered ids input) :
    Triple (Untouched before) (op.execute host order input)
      (fun out s => Numbered (ids.take 1) out ∧ Untouched before s) (Untouched before) := by
  obtain ⟨rfl, hspill⟩ := hin
  cases input with
  | nil => exact fun s hs => ⟨⟨rfl, by simp⟩, hs⟩
  | cons first rest =>
      unfold ReduceByKeyOp.execute
      dsimp only
      cases ReducerKind.parse op.reducer with
      | error e => exact fun s hs => hs
      | ok reducer =>
          apply triple_bind (groupPartitions_untouched host before op hspill ∅)
          intro groups
          exact single_numbered host before (hspill first List.mem_cons_self) _ _ _

theorem JoinOp.execute_numbered [BEq F] (host : Host F) (before : Files) (op : JoinOp)
    {left right : PartitionData F} (hleft : ¬ PartFile left.spillPath)
    (hright : ¬ PartFile right.spillPath) :
    Triple (Untouched before) (op.execute host [left, right])
      (fun out s => Numbered [min left.partitionId right.partitionId] out ∧ Untouched before s)
      (Untouched before) := by
  apply triple_bind (intoParts_numbered host before hleft)
  intro leftParts s hs
  refine triple_bind (intoParts_numbered host before hright) (fun rightParts s hs => ?_) s hs.2
  refine triple_bind (lift_untouched before _) (fun output => ?_) s hs.2
  exact single_numbered host before hleft _ _ output

theorem ShuffleByKeyOp.execute_numbered (host : Host F) (before : Files) (op : ShuffleByKeyOp)
    {input : List (PartitionData F)} {ids : List Nat} (hin : Numbered ids input) :
    Triple (Untouched before) (op.execute host input)
      (fun out s => Numbered (List.range op.totalPartitions) out ∧ Untouched before s)
      (Untouched before) := by
  unfold ShuffleByKeyOp.execute
  split
  · exact fun s hs => hs
  · apply triple_bind (drainPartitions_untouched host before hin)
    intro records
    refine (triple_forEach (P := fun _ => True)
      (R := fun bucket p => p.partitionId = bucket.2 ∧ ¬ PartFile p.spillPath)
      (fun bucket _ => fromRecords_numbered host before
        (not_partFile_bucketPath _ bucket.2) _ _ bucket.1) _ fun _ _ => trivial).conseq
      (fun _ hs => hs) (fun out s hout => ?_) fun _ hs => hs
    refine ⟨?_, hout.2⟩
    have hids := numbered_of_forall₂ hout.1
    rwa [List.zipIdx_map_snd, ShuffleByKeyOp.length_buckets, ← List.range_eq_range'] at hids

/-- What every operator does: its outputs have the numbers of the abstract run,
and the result files are untouched. -/
theorem Operator.execute_numbered [BEq F] (host : Host F) (order : HashOrder String)
    (before : Files) {op : Operator}
    (hread : ∀ readOp, op = .read readOp → ¬ PartFile readOp.spillPath)
    {input : List (PartitionData F)} {ids : List Nat} (hin : Numbered ids input) :
    Triple (Untouched before) (op.execute host order input)
      (fun out s => (∃ l, op.outputIds ids = some l ∧ Numbered l out) ∧ Untouched before s)
      (Untouched before) := by
  have keep : ∀ {l : List Nat} {x : Action (List (PartitionData F))},
      op.outputIds ids = some l →
      Triple (Untouched before) x (fun out s => Numbered l out ∧ Untouched before s)
        (Untouched before) →
      Triple (Untouched before) x
        (fun out s => (∃ l, op.outputIds ids = some l ∧ Numbered l out) ∧ Untouched before s)
        (Untouched before) := fun hl hx =>
    hx.conseq (fun _ hs => hs) (fun _ _ hs => ⟨⟨_, hl, hs.1⟩, hs.2⟩) fun _ hs => hs
  cases op with
  | read op => exact keep rfl (op.execute_numbered host before (hread op rfl))
  | map op => exact keep rfl (perPartition_numbered host before _ hin)
  | filter op =>
      refine keep rfl (triple_bind (lift_untouched before _) fun predicate => ?_)
      exact perPartition_numbered host before _ hin
  | flatMap op =>
      let expand (records : List (Record F)) : Except Fail (List (Record F)) :=
        (records.mapM (FlatMapOp.apply op.func)).map List.flatten
      exact keep rfl (perPartition_numbered host before expand hin)
  | reduce op => exact keep rfl (op.execute_numbered host before hin)
  | reduceByKey op => exact keep rfl (op.execute_numbered host order before hin)
  | join op =>
      obtain ⟨rfl, hspill⟩ := hin
      match input, hspill with
      | [], _ => exact fun s hs => hs
      | [left], _ => exact fun s hs => hs
      | [left, right], hspill =>
          rw [List.forall_mem_cons, List.forall_mem_singleton] at hspill
          exact keep rfl (op.execute_numbered host before hspill.1 hspill.2)
      | _ :: _ :: _ :: _, _ => exact fun s hs => hs
  | shuffle op => exact keep rfl (op.execute_numbered host before hin)

/-! ### The pipeline -/

namespace Pipeline

/-- The table of outputs and the table of their numbers. -/
structure Tables (ids : HashMap String (List Nat))
    (results : HashMap String (List (PartitionData F))) : Prop where
  none : ∀ key, results.lookup key = none → ids.lookup key = none
  some : ∀ key parts, results.lookup key = some parts →
    ∃ l, ids.lookup key = some l ∧ Numbered l parts

theorem Tables.insert {ids : HashMap String (List Nat)}
    {results : HashMap String (List (PartitionData F))} (h : Tables ids results) (key : String)
    {l : List Nat} {parts : List (PartitionData F)} (hl : Numbered l parts) :
    Tables (ids.insert key l) (results.insert key parts) := by
  constructor
  · intro key' hnone
    by_cases hkey : key' = key
    · subst hkey
      rw [AList.lookup_insert] at hnone
      cases hnone
    · rw [AList.lookup_insert_ne hkey] at hnone ⊢
      exact h.none key' hnone
  · intro key' parts' hsome
    by_cases hkey : key' = key
    · subst hkey
      rw [AList.lookup_insert, Option.some.injEq] at hsome
      subst hsome
      exact ⟨l, AList.lookup_insert _, hl⟩
    · rw [AList.lookup_insert_ne hkey] at hsome ⊢
      exact h.some key' parts' hsome

theorem Tables.erase {ids : HashMap String (List Nat)}
    {results : HashMap String (List (PartitionData F))} (h : Tables ids results) (key : String) :
    Tables (ids.erase key) (results.erase key) := by
  constructor
  · intro key' hnone
    by_cases hkey : key' = key
    · subst hkey
      exact AList.lookup_erase _ _
    · rw [AList.lookup_erase_ne hkey] at hnone ⊢
      exact h.none key' hnone
  · intro key' parts hsome
    by_cases hkey : key' = key
    · subst hkey
      rw [AList.lookup_erase] at hsome
      cases hsome
    · rw [AList.lookup_erase_ne hkey] at hsome ⊢
      exact h.some key' parts hsome

theorem takeParents_tables (parents : List String) {ids : HashMap String (List Nat)}
    {results : HashMap String (List (PartitionData F))} (h : Tables ids results) :
    Numbered (takeParents parents ids).1 (takeParents parents results).1 ∧
      Tables (takeParents parents ids).2 (takeParents parents results).2 := by
  induction parents generalizing ids results with
  | nil => exact ⟨⟨rfl, by simp [takeParents]⟩, h⟩
  | cons parent rest ih =>
      rw [takeParents, takeParents]
      cases hlookup : results.lookup parent with
      | none =>
          rw [h.none parent hlookup]
          exact ih h
      | some parts =>
          obtain ⟨l, hl, hparts⟩ := h.some parent parts hlookup
          rw [hl]
          have hrest := ih (h.erase parent)
          exact ⟨hparts.append hrest.1, hrest.2⟩

theorem inputOf_tables {p : Pipeline} (hspill : ¬ PartFile p.spillPath) (parents : List String)
    {ids : HashMap String (List Nat)} {results : HashMap String (List (PartitionData F))}
    (h : Tables ids results) :
    Numbered (inputOf p.partitionId parents ids).1
        (inputOf (.empty p.partitionId p.cacheLimit p.spillPath) parents results).1 ∧
      Tables (inputOf p.partitionId parents ids).2
        (inputOf (.empty p.partitionId p.cacheLimit p.spillPath) parents results).2 := by
  unfold inputOf
  split
  · refine ⟨⟨rfl, fun q hq => ?_⟩, h⟩
    rw [List.mem_singleton.mp hq]
    exact hspill
  · exact takeParents_tables parents h

/-- The run of the operators follows the abstract run. -/
theorem runOperators_numbered [BEq F] (host : Host F) (attempt : Attempt) (before : Files)
    {p : Pipeline} (hspill : ¬ PartFile p.spillPath) {ops : List Operator}
    (hread : ∀ readOp, Operator.read readOp ∈ ops → ¬ PartFile readOp.spillPath) (idx : Nat)
    {ids : HashMap String (List Nat)} {results : HashMap String (List (PartitionData F))}
    (h : Tables ids results) (stages : List StageTrace) :
    Triple (Untouched before) (p.runOperators host attempt idx ops results stages)
      (fun out s => (∃ ids', p.numberOperators idx ops ids = some ids' ∧ Tables ids' out.1) ∧
        Untouched before s) (Untouched before) := by
  induction ops generalizing idx ids results stages with
  | nil => exact fun s hs => ⟨⟨ids, rfl, h⟩, hs⟩
  | cons op ops ih =>
      have hinput := inputOf_tables hspill (p.parents idx) h
      have hop : ∀ readOp, op = .read readOp → ¬ PartFile readOp.spillPath := fun readOp he =>
        hread readOp (he ▸ List.mem_cons_self)
      have hread' : ∀ readOp, Operator.read readOp ∈ ops → ¬ PartFile readOp.spillPath :=
        fun readOp hmem => hread readOp (List.mem_cons_of_mem op hmem)
      refine triple_bind (Operator.execute_numbered host (attempt.order idx) before hop hinput.1)
        fun out s hs => ?_
      obtain ⟨⟨l, hl, hout⟩, hs⟩ := hs
      have htables := hinput.2.insert (p.operatorId idx) hout
      have hrest := ih hread' (idx + 1) htables (stages ++ [p.stageTrace idx out])
      refine hrest.conseq (fun _ hs => hs) (fun out s hout => ?_) (fun _ hs => hs) s hs
      obtain ⟨⟨ids', hids', hout'⟩, hs⟩ := hout
      refine ⟨⟨ids', ?_, hout'⟩, hs⟩
      rw [numberOperators]
      simp only [hl, Option.bind_eq_bind, Option.bind_some]
      exact hids'

/-- A pipeline that ends normally yields partitions with the numbers of the
abstract run, and the result files are untouched. -/
theorem run_numbered [BEq F] (host : Host F) (attempt : Attempt) (before : Files) {p : Pipeline}
    (hspill : ¬ PartFile p.spillPath)
    (hread : ∀ readOp, Operator.read readOp ∈ p.operators → ¬ PartFile readOp.spillPath) :
    Triple (Untouched before) (p.run host attempt)
      (fun out s => (∃ l, p.finalIds = some l ∧ Numbered l out.1) ∧ Untouched before s)
      (Untouched before) := by
  have hempty : Tables ∅ (∅ : HashMap String (List (PartitionData F))) :=
    ⟨fun _ _ => rfl, fun _ _ hsome => by simp at hsome⟩
  refine triple_bind (runOperators_numbered host attempt before hspill hread 0 hempty [])
    fun (results, stages) s hs => ?_
  obtain ⟨⟨ids, hids, htables⟩, hs⟩ := hs
  simp only
  cases hlookup : results.lookup p.finalKey with
  | none => exact hs
  | some parts =>
      obtain ⟨l, hl, hparts⟩ := htables.some p.finalKey parts hlookup
      refine ⟨⟨l, ?_, hparts⟩, hs⟩
      rw [finalIds, hids, Option.bind_some, hl]

end Pipeline
end ProcessingEngine

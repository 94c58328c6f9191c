import ProcessingEngine.Worker.Operator

/-!
# Partitions in memory

A cache that does not exceed its limit never touches a file.  One that does has
all its values in the spill file: once the limit is passed, every value that is
pushed is spilled at once.  `PartitionData.stored` is therefore a function of
the records, and `fromRecords_apply` says so.
-/

namespace ProcessingEngine

open Lib

variable {F : Type}

/-- The bytes of the JSON texts of the values. -/
def Host.byteSize (host : Host F) (values : List (Value F)) : Nat :=
  (values.map (PartitionCache.estimateSize host)).sum

/-- The bytes that a cache counts for the values. -/
def Host.sizeOf (host : Host F) (values : List (Value F)) : Nat :=
  Min.min (host.byteSize values) usizeMax

namespace Host

theorem byteSize_append (host : Host F) (vs ws : List (Value F)) :
    host.byteSize (vs ++ ws) = host.byteSize vs + host.byteSize ws := by
  rw [byteSize, List.map_append, List.sum_append]
  rfl

theorem byteSize_singleton (host : Host F) (v : Value F) :
    host.byteSize [v] = PartitionCache.estimateSize host v := by
  simp [byteSize]

theorem byteSize_le_of_sublist (host : Host F) {vs ws : List (Value F)} (h : vs.Sublist ws) :
    host.byteSize vs ≤ host.byteSize ws := by
  induction h with
  | slnil => exact le_refl _
  | @cons vs ws w hsub ih =>
      show host.byteSize vs ≤ host.byteSize ([w] ++ ws)
      rw [byteSize_append]
      omega
  | @cons_cons vs ws w hsub ih =>
      show host.byteSize ([w] ++ vs) ≤ host.byteSize ([w] ++ ws)
      rw [byteSize_append, byteSize_append]
      omega

theorem byteSize_le_length_jsonLines (host : Host F) (values : List (Value F)) :
    host.byteSize values ≤ (host.jsonLines values).length := by
  induction values with
  | nil => exact le_refl _
  | cons v values ih =>
      have hcons : host.jsonLines (v :: values) = host.jsonLines [v] ++ host.jsonLines values :=
        jsonLines_append host [v] values
      have hsize : host.byteSize (v :: values) = host.byteSize [v] + host.byteSize values :=
        byteSize_append host [v] values
      have hone : host.byteSize [v] ≤ (host.jsonLines [v]).length := by
        rw [byteSize_singleton]
        simp [jsonLines, PartitionCache.estimateSize]
      rw [hcons, hsize, List.length_append]
      omega

theorem sizeOf_le_byteSize (host : Host F) (values : List (Value F)) :
    host.sizeOf values ≤ host.byteSize values := Nat.min_le_left _ _

theorem sizeOf_le_of_sublist (host : Host F) {vs ws : List (Value F)} (h : vs.Sublist ws) :
    host.sizeOf vs ≤ host.sizeOf ws := by
  have hle := host.byteSize_le_of_sublist h
  unfold sizeOf
  omega

theorem sizeOf_perm (host : Host F) {vs ws : List (Value F)} (h : vs.Perm ws) :
    host.sizeOf vs = host.sizeOf ws :=
  congrArg (Min.min · usizeMax) (h.map _).sum_eq

end Host

namespace PartitionCache

/-- A cache with all values in memory. -/
def holding (host : Host F) (limitBytes : Nat) (spillPath : Path) (values : List (Value F)) :
    PartitionCache F where
  inMemory := values
  spilledFile := none
  inMemoryBytes := host.byteSize values
  spilledBytes := 0
  limitBytes
  spillPath
  recordCount := values.length
  spilled_at := spilled_at_none spillPath

/-- A cache with all values in the spill file. -/
def spilled (host : Host F) (limitBytes : Nat) (spillPath : Path) (values : List (Value F)) :
    PartitionCache F where
  inMemory := []
  spilledFile := some spillPath
  inMemoryBytes := 0
  spilledBytes := (host.jsonLines values).length
  limitBytes
  spillPath
  recordCount := values.length
  spilled_at := fun _ h => (Option.some.inj h).symm

/-- What a cache looks like when the values have been pushed. -/
def stored (host : Host F) (limitBytes : Nat) (spillPath : Path) (values : List (Value F)) :
    PartitionCache F :=
  if host.sizeOf values ≤ limitBytes then holding host limitBytes spillPath values
  else spilled host limitBytes spillPath values

/-- The files when the values have been pushed. -/
def storedFiles (host : Host F) (limitBytes : Nat) (spillPath : Path) (values : List (Value F))
    (files : Files) : Files :=
  if host.sizeOf values ≤ limitBytes then files
  else files.insert spillPath ((files.lookup spillPath).getD [] ++ host.jsonLines values)

theorem push_holding {host : Host F} {limitBytes : Nat} {spillPath : Path}
    {values : List (Value F)} (value : Value F) (files : Files) :
    (holding host limitBytes spillPath values).push host value files =
      (.ok (stored host limitBytes spillPath (values ++ [value])),
        storedFiles host limitBytes spillPath (values ++ [value]) files) := by
  have hsize : host.byteSize (values ++ [value]) =
      host.byteSize values + estimateSize host value := by
    rw [Host.byteSize_append, Host.byteSize_singleton]
  unfold push maybeSpill stored storedFiles Host.sizeOf
  simp only [totalSizeBytes, holding, Nat.zero_add, hsize]
  by_cases hfit : min (host.byteSize values + estimateSize host value) usizeMax ≤ limitBytes
  · rw [if_neg (by omega), if_pos hfit, if_pos hfit]
    simp
  · rw [if_pos (by omega), if_neg hfit, if_neg hfit, spillToDisk, if_neg (by simp)]
    simp [spilled]

/-- While the values fit, nothing is done to the files. -/
theorem push_of_fits {host : Host F} {limitBytes : Nat} {spillPath : Path}
    {values : List (Value F)} {value : Value F}
    (h : host.sizeOf (values ++ [value]) ≤ limitBytes) :
    (holding host limitBytes spillPath values).push host value =
      Pure.pure (holding host limitBytes spillPath (values ++ [value])) := by
  have hsize : host.byteSize (values ++ [value]) =
      host.byteSize values + estimateSize host value := by
    rw [Host.byteSize_append, Host.byteSize_singleton]
  unfold Host.sizeOf at h
  rw [hsize] at h
  unfold push maybeSpill
  simp only [totalSizeBytes, holding, Nat.zero_add, hsize]
  rw [if_neg (by omega)]
  simp

theorem pushBatch_of_fits {host : Host F} {limitBytes : Nat} (spillPath : Path)
    {values more : List (Value F)} (h : host.sizeOf (values ++ more) ≤ limitBytes) :
    (holding host limitBytes spillPath values).pushBatch host more =
      Pure.pure (holding host limitBytes spillPath (values ++ more)) := by
  induction more generalizing values with
  | nil =>
      rw [List.append_nil]
      rfl
  | cons value more ih =>
      rw [← List.singleton_append, ← List.append_assoc] at h ⊢
      have hnext := le_trans (host.sizeOf_le_of_sublist (List.sublist_append_left _ more)) h
      show ((holding host limitBytes spillPath values).push host value >>= _) = _
      rw [push_of_fits hnext]
      exact ih h

theorem push_spilled {host : Host F} {limitBytes : Nat} {spillPath : Path}
    {values : List (Value F)} (hfull : limitBytes < host.sizeOf values) (value : Value F)
    (files : Files) :
    (spilled host limitBytes spillPath values).push host value files =
      (.ok (spilled host limitBytes spillPath (values ++ [value])),
        files.insert spillPath
          ((files.lookup spillPath).getD [] ++ host.jsonLines [value])) := by
  have hlines := host.byteSize_le_length_jsonLines values
  have htotal : limitBytes <
      min ((host.jsonLines values).length + (0 + estimateSize host value)) usizeMax := by
    unfold Host.sizeOf at hfull
    omega
  have hspill : (spilled host limitBytes spillPath values).push host value =
      spillToDisk host { spilled host limitBytes spillPath values with
        inMemoryBytes := 0 + estimateSize host value
        recordCount := values.length + 1
        inMemory := [value] } := if_pos htotal
  rw [hspill, spillToDisk, if_neg (by simp)]
  simp [spilled, Host.jsonLines_append]

theorem pushBatch_spilled {host : Host F} {limitBytes : Nat} (spillPath : Path)
    {values : List (Value F)} (hfull : limitBytes < host.sizeOf values) (more : List (Value F))
    (files : Files) :
    (spilled host limitBytes spillPath values).pushBatch host more
        (files.insert spillPath ((files.lookup spillPath).getD [] ++ host.jsonLines values)) =
      (.ok (spilled host limitBytes spillPath (values ++ more)),
        files.insert spillPath
          ((files.lookup spillPath).getD [] ++ host.jsonLines (values ++ more))) := by
  induction more generalizing values with
  | nil =>
      rw [List.append_nil]
      rfl
  | cons value more ih =>
      have hfull' : limitBytes < host.sizeOf (values ++ [value]) :=
        lt_of_lt_of_le hfull (host.sizeOf_le_of_sublist (List.sublist_append_left _ _))
      have ih := ih hfull'
      rw [List.append_assoc, List.singleton_append] at ih
      rw [← ih]
      show ((spilled host limitBytes spillPath values).push host value >>= _) _ = _
      rw [Exec.bind_apply, push_spilled hfull, AList.lookup_insert, AList.insert_insert,
        Option.getD_some, List.append_assoc, ← Host.jsonLines_append]

theorem pushBatch_holding {host : Host F} {limitBytes : Nat} (spillPath : Path)
    {values : List (Value F)} (hfit : host.sizeOf values ≤ limitBytes) (more : List (Value F))
    (files : Files) :
    (holding host limitBytes spillPath values).pushBatch host more files =
      (.ok (stored host limitBytes spillPath (values ++ more)),
        storedFiles host limitBytes spillPath (values ++ more) files) := by
  induction more generalizing values with
  | nil =>
      rw [List.append_nil, stored, storedFiles, if_pos hfit, if_pos hfit]
      rfl
  | cons value more ih =>
      show ((holding host limitBytes spillPath values).push host value >>= _) files = _
      rw [Exec.bind_apply, push_holding]
      by_cases hnext : host.sizeOf (values ++ [value]) ≤ limitBytes
      · have ih := ih hnext
        rw [List.append_assoc, List.singleton_append] at ih
        rw [stored, storedFiles, if_pos hnext, if_pos hnext]
        exact ih
      · have hfull : limitBytes < host.sizeOf (values ++ [value]) := by omega
        have hwhole : ¬ host.sizeOf (values ++ value :: more) ≤ limitBytes := by
          have hle := host.sizeOf_le_of_sublist
            (((List.nil_sublist more).cons_cons value).append_left values)
          omega
        have hrest := pushBatch_spilled spillPath hfull more files
        rw [List.append_assoc, List.singleton_append] at hrest
        rw [stored, storedFiles, stored, storedFiles, if_neg hnext, if_neg hnext, if_neg hwhole,
          if_neg hwhole]
        exact hrest

end PartitionCache

namespace PartitionData

def stored (host : Host F) (partitionId limitBytes : Nat) (spillPath : Path)
    (records : List (Record F)) : PartitionData F :=
  ⟨partitionId, .stored host limitBytes spillPath records⟩

theorem fromRecords_apply (host : Host F) (partitionId limitBytes : Nat) (spillPath : Path)
    (records : List (Record F)) (files : Files) :
    fromRecords host partitionId limitBytes spillPath records files =
      (.ok (stored host partitionId limitBytes spillPath records),
        PartitionCache.storedFiles host limitBytes spillPath records files) := by
  have hnew : PartitionCache.new limitBytes spillPath =
      PartitionCache.holding host limitBytes spillPath [] := rfl
  have hfit : host.sizeOf [] ≤ limitBytes :=
    le_trans (host.sizeOf_le_byteSize []) (Nat.zero_le limitBytes)
  have hpush := PartitionCache.pushBatch_holding spillPath hfit records files
  rw [fromRecords, Exec.bind_apply, hnew, hpush]
  rfl

theorem stored_filled (host : Host F) (partitionId limitBytes : Nat) (spillPath : Path)
    (records : List (Record F)) (files : Files) :
    PartitionCache.Filled host files records
      (stored host partitionId limitBytes spillPath records).cache
      (PartitionCache.storedFiles host limitBytes spillPath records files) := by
  obtain ⟨partition, after, hfrom, hfilled, -⟩ :=
    fromRecords_filled host partitionId limitBytes spillPath records files
  rw [fromRecords_apply, Prod.mk.injEq, Except.ok.injEq] at hfrom
  rw [hfrom.1, hfrom.2]
  exact hfilled

/-! ### Partitions of which nothing is spilled -/

/-- All records are in memory. -/
def Resident (partition : PartitionData F) : Prop := partition.cache.spilledFile = none

def held (partition : PartitionData F) : List (Record F) := partition.cache.inMemory

theorem intoParts_eq_pure (host : Host F) {partition : PartitionData F}
    (h : partition.Resident) :
    partition.intoParts host =
      Pure.pure (partition.limitBytes, partition.spillPath, partition.held) := by
  have hnone : partition.cache.spilledFile = none := h
  rw [intoParts, PartitionCache.drainAll, hnone]
  rfl

theorem intoParts_of_resident (host : Host F) {partition : PartitionData F}
    (h : partition.Resident) (files : Files) :
    partition.intoParts host files =
      (.ok (partition.limitBytes, partition.spillPath, partition.held), files) := by
  rw [intoParts_eq_pure host h]
  rfl

section

variable {host : Host F} {partitionId limitBytes : Nat} {spillPath : Path}
  {records : List (Record F)}

@[simp] theorem stored_partitionId :
    (stored host partitionId limitBytes spillPath records).partitionId = partitionId := rfl

@[simp] theorem stored_limitBytes :
    (stored host partitionId limitBytes spillPath records).limitBytes = limitBytes := by
  simp only [stored, PartitionData.limitBytes, PartitionCache.stored]
  split <;> rfl

@[simp] theorem stored_spillPath :
    (stored host partitionId limitBytes spillPath records).spillPath = spillPath := by
  simp only [stored, PartitionData.spillPath, PartitionCache.stored]
  split <;> rfl

@[simp] theorem stored_recordCount :
    (stored host partitionId limitBytes spillPath records).recordCount = records.length := by
  simp only [stored, recordCount, PartitionCache.stored]
  split <;> rfl

theorem stored_resident_iff :
    (stored host partitionId limitBytes spillPath records).Resident ↔
      host.sizeOf records ≤ limitBytes := by
  simp only [Resident, stored, PartitionCache.stored]
  split
  · next h => exact iff_of_true rfl h
  · next h => exact iff_of_false (by simp [PartitionCache.spilled]) h

theorem stored_held (h : host.sizeOf records ≤ limitBytes) :
    (stored host partitionId limitBytes spillPath records).held = records := by
  rw [held, stored, PartitionCache.stored, if_pos h]
  rfl

theorem fromRecords_eq_pure (h : host.sizeOf records ≤ limitBytes) :
    fromRecords host partitionId limitBytes spillPath records =
      Pure.pure (stored host partitionId limitBytes spillPath records) := by
  have hnew : PartitionCache.new limitBytes spillPath =
      PartitionCache.holding host limitBytes spillPath [] := rfl
  have hpush : (PartitionCache.holding host limitBytes spillPath []).pushBatch host records =
      Pure.pure (PartitionCache.holding host limitBytes spillPath ([] ++ records)) :=
    PartitionCache.pushBatch_of_fits spillPath h
  rw [fromRecords, hnew, hpush, stored, PartitionCache.stored, if_pos h]
  rfl

theorem fromRecords_of_fits (h : host.sizeOf records ≤ limitBytes) (files : Files) :
    fromRecords host partitionId limitBytes spillPath records files =
      (.ok (stored host partitionId limitBytes spillPath records), files) := by
  rw [fromRecords_apply, PartitionCache.storedFiles, if_pos h]

end

theorem fromRecords_keeps {host : Host F} {partitionId limitBytes : Nat} {spillPath : Path}
    {records : List (Record F)} {files files' : Files} {partition : PartitionData F}
    (h : fromRecords host partitionId limitBytes spillPath records files =
      (.ok partition, files')) (hres : partition.Resident) : files' = files := by
  rw [fromRecords_apply] at h
  cases h
  exact if_pos (stored_resident_iff.mp hres)

end PartitionData

/-! ### Loops over partitions in memory -/

namespace Lib.Exec

theorem forEach_of_forall {ι ρ ε σ α β : Type} [Interp ι ρ σ] {f : α → Exec ι ρ ε β} {g : α → β}
    {s : σ} {as : List α} (h : ∀ a ∈ as, f a s = (.ok (g a), s)) :
    forEach f as s = (.ok (as.map g), s) := by
  induction as with
  | nil => rfl
  | cons a as ih =>
      have ih := ih fun b hb => h b (List.mem_cons_of_mem a hb)
      show (f a >>= _) s = _
      rw [bind_apply, h a List.mem_cons_self]
      show (forEach f as >>= _) s = _
      rw [bind_apply, ih]
      rfl

/-- A loop of which each iteration leaves the store alone and yields a list: the
elements of all lists, and what they contribute. -/
theorem forEach_flatten {ι ρ ε σ α β γ : Type} [Interp ι ρ σ] {f : α → Exec ι ρ ε (List β)}
    {Q : β → Prop} {g : β → List γ} {h : α → List γ} {s : σ} {as : List α}
    (hf : ∀ a ∈ as, ∃ bs, f a s = (.ok bs, s) ∧ (∀ b ∈ bs, Q b) ∧ (bs.flatMap g).Perm (h a)) :
    ∃ bss, forEach f as s = (.ok bss, s) ∧ (∀ b ∈ bss.flatten, Q b) ∧
      (bss.flatten.flatMap g).Perm (as.flatMap h) := by
  induction as with
  | nil => exact ⟨[], rfl, by simp, .refl _⟩
  | cons a as ih =>
      obtain ⟨bs, hbs, hQ, hperm⟩ := hf a List.mem_cons_self
      obtain ⟨bss, hbss, hQs, hperms⟩ := ih fun c hc => hf c (List.mem_cons_of_mem a hc)
      refine ⟨bs :: bss, ?_, ?_, ?_⟩
      · show (f a >>= _) s = _
        rw [bind_apply, hbs]
        show (forEach f as >>= _) s = _
        rw [bind_apply, hbss]
        rfl
      · rw [List.flatten_cons]
        exact List.forall_mem_append.mpr ⟨hQ, hQs⟩
      · rw [List.flatten_cons, List.flatMap_append, List.flatMap_cons]
        exact hperm.append hperms

end Lib.Exec

section

variable {host : Host F} {partitions : List (PartitionData F)}

theorem drainPartitions_of_resident (h : ∀ p ∈ partitions, p.Resident) (files : Files) :
    drainPartitions host partitions files =
      (.ok (partitions.flatMap PartitionData.held), files) := by
  rw [drainPartitions, Exec.bind_apply, Exec.forEach_of_forall fun p hp =>
    PartitionData.intoParts_of_resident host (h p hp) files]
  simp only [Exec.pure_apply, List.map_map, List.flatMap]
  rfl

theorem ReduceByKeyOp.groupRecords_append (key : String)
    (groups : HashMap String (List (Record F))) (records more : List (Record F)) :
    groupRecords key groups (records ++ more) =
      groupRecords key groups records >>= fun groups => groupRecords key groups more :=
  List.foldlM_append

theorem groupPartitions_of_resident {op : ReduceByKeyOp} (h : ∀ p ∈ partitions, p.Resident)
    (groups : HashMap String (List (Record F))) (files : Files) :
    ReduceByKeyOp.groupPartitions host op groups partitions files =
      (ReduceByKeyOp.groupRecords op.key groups (partitions.flatMap PartitionData.held),
        files) := by
  induction partitions generalizing groups with
  | nil => rfl
  | cons p rest ih =>
      have ih := ih fun q hq => h q (List.mem_cons_of_mem p hq)
      show (p.intoParts host >>= _) files = _
      rw [Exec.bind_apply, PartitionData.intoParts_of_resident host (h p List.mem_cons_self)]
      simp only [Exec.bind_apply, Exec.lift_apply]
      rw [List.flatMap_cons, ReduceByKeyOp.groupRecords_append]
      cases ReduceByKeyOp.groupRecords op.key groups p.held with
      | error e => rfl
      | ok groups' => exact ih groups'

theorem perPartition_keeps {f : List (Record F) → Except Fail (List (Record F))}
    (h : ∀ p ∈ partitions, p.Resident) {files files' : Files} {out : List (PartitionData F)}
    (hrun : perPartition host f partitions files = (.ok out, files'))
    (hout : ∀ q ∈ out, q.Resident) : files' = files := by
  refine Exec.forEach_keeps (fun p hp q files' hq hres => ?_) hrun hout
  obtain ⟨⟨limit, path, records⟩, files₁, hparts, hq⟩ := Exec.bind_eq_ok.mp hq
  rw [PartitionData.intoParts_of_resident host (h p hp)] at hparts
  cases hparts
  obtain ⟨mapped, files₂, hmapped, hq⟩ := Exec.bind_eq_ok.mp hq
  obtain rfl : files = files₂ := congrArg Prod.snd hmapped
  exact PartitionData.fromRecords_keeps hq hres

/-- The last step of the operators that yield one partition. -/
theorem fromRecords_single_keeps {partitionId limitBytes : Nat} {spillPath : Path}
    {records : List (Record F)} {files files' : Files} {out : List (PartitionData F)}
    (hrun : (do
      let partition ← PartitionData.fromRecords host partitionId limitBytes spillPath records
      return [partition] : Action (List (PartitionData F))) files = (.ok out, files'))
    (hout : ∀ q ∈ out, q.Resident) : files' = files := by
  obtain ⟨partition, files₁, hpartition, hpure⟩ := Exec.bind_eq_ok.mp hrun
  cases hpure
  exact PartitionData.fromRecords_keeps hpartition (hout partition List.mem_cons_self)

theorem ReadOp.execute_keeps {op : ReadOp} {files files' : Files} {out : List (PartitionData F)}
    (hrun : op.execute host files = (.ok out, files')) (hout : ∀ q ∈ out, q.Resident) :
    files' = files := by
  obtain ⟨content, files₁, hcontent, hrun⟩ := Exec.bind_eq_ok.mp hrun
  rw [Files.readOr_apply] at hcontent
  obtain ⟨records, files₂, hrecords, hrun⟩ := Exec.bind_eq_ok.mp hrun
  obtain rfl : files₁ = files₂ := congrArg Prod.snd hrecords
  have hread : files₁ = files := by
    cases hlookup : files.lookup (host.resolve op.path) with
    | none =>
        rw [hlookup] at hcontent
        cases hcontent
    | some content' =>
        rw [hlookup] at hcontent
        exact (congrArg Prod.snd hcontent).symm
  exact hread ▸ fromRecords_single_keeps hrun hout

theorem ReduceOp.execute_keeps {op : ReduceOp} (h : ∀ p ∈ partitions, p.Resident)
    {files files' : Files} {out : List (PartitionData F)}
    (hrun : op.execute host partitions files = (.ok out, files'))
    (hout : ∀ q ∈ out, q.Resident) : files' = files := by
  obtain ⟨reducer, files₁, hreducer, hrun⟩ := Exec.bind_eq_ok.mp hrun
  obtain rfl : files = files₁ := congrArg Prod.snd hreducer
  cases partitions with
  | nil => exact (congrArg Prod.snd hrun).symm
  | cons first rest =>
      obtain ⟨records, files₁, hrecords, hrun⟩ := Exec.bind_eq_ok.mp hrun
      rw [drainPartitions_of_resident h] at hrecords
      cases hrecords
      exact fromRecords_single_keeps hrun hout

theorem ReduceByKeyOp.execute_keeps {order : HashOrder String} {op : ReduceByKeyOp}
    (h : ∀ p ∈ partitions, p.Resident) {files files' : Files} {out : List (PartitionData F)}
    (hrun : op.execute host order partitions files = (.ok out, files'))
    (hout : ∀ q ∈ out, q.Resident) : files' = files := by
  cases partitions with
  | nil => exact (congrArg Prod.snd hrun).symm
  | cons first rest =>
      unfold ReduceByKeyOp.execute at hrun
      cases hparse : ReducerKind.parse op.reducer with
      | error e =>
          rw [hparse] at hrun
          cases hrun
      | ok reducer =>
          rw [hparse] at hrun
          obtain ⟨groups, files₁, hgroups, hrun⟩ := Exec.bind_eq_ok.mp hrun
          rw [groupPartitions_of_resident h] at hgroups
          obtain rfl : files = files₁ := congrArg Prod.snd hgroups
          exact fromRecords_single_keeps hrun hout

theorem JoinOp.execute_keeps [BEq F] {op : JoinOp} {left right : PartitionData F}
    (hleft : left.Resident) (hright : right.Resident) {files files' : Files}
    {out : List (PartitionData F)}
    (hrun : op.execute host [left, right] files = (.ok out, files'))
    (hout : ∀ q ∈ out, q.Resident) : files' = files := by
  obtain ⟨leftParts, files₁, hparts, hrun⟩ := Exec.bind_eq_ok.mp hrun
  rw [PartitionData.intoParts_of_resident host hleft] at hparts
  cases hparts
  obtain ⟨rightParts, files₂, hparts, hrun⟩ := Exec.bind_eq_ok.mp hrun
  rw [PartitionData.intoParts_of_resident host hright] at hparts
  cases hparts
  obtain ⟨output, files₃, houtput, hrun⟩ := Exec.bind_eq_ok.mp hrun
  obtain rfl : files = files₃ := congrArg Prod.snd houtput
  exact fromRecords_single_keeps hrun hout

theorem ShuffleByKeyOp.execute_keeps {op : ShuffleByKeyOp} (h : ∀ p ∈ partitions, p.Resident)
    {files files' : Files} {out : List (PartitionData F)}
    (hrun : op.execute host partitions files = (.ok out, files'))
    (hout : ∀ q ∈ out, q.Resident) : files' = files := by
  unfold ShuffleByKeyOp.execute at hrun
  split_ifs at hrun
  · cases hrun
  · obtain ⟨records, files₁, hrecords, hrun⟩ := Exec.bind_eq_ok.mp hrun
    rw [drainPartitions_of_resident h] at hrecords
    cases hrecords
    exact Exec.forEach_keeps
      (fun bucket _ q files' hq hres => PartitionData.fromRecords_keeps hq hres) hrun hout

end

/-- An operator of which nothing is spilled leaves the files alone. -/
theorem Operator.execute_keeps [BEq F] {host : Host F} {order : HashOrder String} {op : Operator}
    {input : List (PartitionData F)} (h : ∀ p ∈ input, p.Resident) {files files' : Files}
    {out : List (PartitionData F)}
    (hrun : op.execute host order input files = (.ok out, files'))
    (hout : ∀ q ∈ out, q.Resident) : files' = files := by
  cases op with
  | read op => exact ReadOp.execute_keeps hrun hout
  | map op => exact perPartition_keeps h hrun hout
  | filter op =>
      obtain ⟨predicate, files₁, hpredicate, hrun⟩ := Exec.bind_eq_ok.mp hrun
      obtain rfl : files = files₁ := congrArg Prod.snd hpredicate
      exact perPartition_keeps h hrun hout
  | flatMap op =>
      let expand (records : List (Record F)) : Except Fail (List (Record F)) :=
        (records.mapM (FlatMapOp.apply op.func)).map List.flatten
      exact perPartition_keeps (f := expand) h hrun hout
  | reduce op => exact ReduceOp.execute_keeps h hrun hout
  | reduceByKey op => exact ReduceByKeyOp.execute_keeps h hrun hout
  | join op =>
      match input, h, hrun with
      | [], _, hrun => cases hrun
      | [_], _, hrun => cases hrun
      | [left, right], h, hrun =>
          rw [List.forall_mem_cons, List.forall_mem_singleton] at h
          exact JoinOp.execute_keeps h.1 h.2 hrun hout
      | _ :: _ :: _ :: _, _, hrun => cases hrun
  | shuffle op => exact ShuffleByKeyOp.execute_keeps h hrun hout

end ProcessingEngine

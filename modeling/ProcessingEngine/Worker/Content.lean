import ProcessingEngine.Worker.Memory

/-!
# What operators compute

An operator without its caches: from the numbers and records of the input
partitions, those of the output (`Operator.result`).  Limits and spill paths do
not occur in it.  An execution of the operator in memory yields just that
(`Operator.execute_result`).
-/

namespace ProcessingEngine

open Lib

variable {F : Type}

/-- The number of a partition and its records. -/
abbrev Content (F : Type) := Nat × List (Record F)

def PartitionData.content (partition : PartitionData F) : Content F :=
  (partition.partitionId, partition.held)

/-- The records of all partitions. -/
def recordsOf (input : List (Content F)) : List (Record F) := input.flatMap Prod.snd

def ReadOp.result (host : Host F) (files : Files) (op : ReadOp) : Except Fail (List (Content F)) :=
  match files.lookup (host.resolve op.path) with
  | none => .error (.error ("opening input " ++ op.path))
  | some content =>
      (ReadOp.readRecords host op.format op.totalPartitions op.partitionId content).map
        fun records => [(op.partitionId, records)]

/-- Replace the records of every partition. -/
def perContent (f : List (Record F) → Except Fail (List (Record F)))
    (input : List (Content F)) : Except Fail (List (Content F)) :=
  input.mapM fun content => (f content.2).map fun records => (content.1, records)

def MapOp.result (host : Host F) (op : MapOp) :
    List (Content F) → Except Fail (List (Content F)) :=
  perContent (List.mapM (MapOp.applyFn host op.func))

def FilterOp.result [BEq F] (host : Host F) (op : FilterOp) (input : List (Content F)) :
    Except Fail (List (Content F)) := do
  let predicate ← Predicate.parse host op.predicate
  perContent (fun records => .ok (records.filter fun r => predicate.eval host r)) input

def FlatMapOp.result (op : FlatMapOp) :
    List (Content F) → Except Fail (List (Content F)) :=
  perContent fun records => (records.mapM (FlatMapOp.apply op.func)).map List.flatten

def ReduceOp.result (host : Host F) (op : ReduceOp) (input : List (Content F)) :
    Except Fail (List (Content F)) := do
  let reducer ← ReducerKind.parse op.reducer
  match input with
  | [] => return []
  | first :: rest => return [(first.1, [reducer.applyReducer host (recordsOf (first :: rest))])]

def ReduceByKeyOp.result (host : Host F) (order : HashOrder String) (op : ReduceByKeyOp)
    (input : List (Content F)) : Except Fail (List (Content F)) :=
  match input with
  | [] => .ok []
  | first :: rest =>
      match ReducerKind.parse op.reducer with
      | .error _ => .error (ReduceByKeyOp.unsupportedReducer op.reducer)
      | .ok reducer =>
          (ReduceByKeyOp.groupRecords op.key ∅ (recordsOf (first :: rest))).map fun groups =>
            [(first.1, ReduceByKeyOp.outRecords host op reducer order groups)]

def JoinOp.result [BEq F] (host : Host F) (op : JoinOp) (input : List (Content F)) :
    Except Fail (List (Content F)) :=
  match input with
  | [left, right] =>
      (JoinOp.joinRecords host op left.2 right.2).map fun output =>
        [(min left.1 right.1, output)]
  | _ => .error (JoinOp.wrongInputCount input.length)

def ShuffleByKeyOp.result (host : Host F) (op : ShuffleByKeyOp) (input : List (Content F)) :
    Except Fail (List (Content F)) :=
  if op.totalPartitions = 0 then .error (.error "shuffle: total_partitions must be > 0")
  else .ok ((op.buckets host (recordsOf input)).zipIdx.map fun (records, idx) => (idx, records))

/-- What an operator computes with the input files `files`. -/
def Operator.result [BEq F] (host : Host F) (files : Files) (order : HashOrder String)
    (operator : Operator) (input : List (Content F)) : Except Fail (List (Content F)) :=
  match operator with
  | .read op => op.result host files
  | .map op => op.result host input
  | .filter op => op.result host input
  | .flatMap op => op.result input
  | .reduce op => op.result host input
  | .reduceByKey op => op.result host order input
  | .join op => op.result host input
  | .shuffle op => op.result host input

/-! ### Executions in memory -/

/-- The run `out` ends with partitions in memory that have the contents of
`result`, or fails like it. -/
def Yields (out : Except Fail (List (PartitionData F)))
    (result : Except Fail (List (Content F))) : Prop :=
  (∀ parts, out = .ok parts → ∀ q ∈ parts, q.Resident) →
    result = out.map (List.map PartitionData.content)

section

variable {host : Host F} {partitions : List (PartitionData F)} {files : Files}

theorem recordsOf_map_content (partitions : List (PartitionData F)) :
    recordsOf (partitions.map PartitionData.content) = partitions.flatMap PartitionData.held :=
  List.flatMap_map ..

/-- The last step of the operators that yield one partition. -/
theorem fromRecords_single_yields (partitionId limitBytes : Nat) (spillPath : Path)
    (records : List (Record F)) (files : Files) :
    Yields ((do
      let partition ← PartitionData.fromRecords host partitionId limitBytes spillPath records
      return [partition] : Action (List (PartitionData F))) files).1
      (.ok [(partitionId, records)]) := by
  intro hres
  rw [Exec.bind_apply, PartitionData.fromRecords_apply] at hres ⊢
  have hpart := hres _ rfl _ List.mem_cons_self
  show _ = Except.ok [(_, PartitionData.held _)]
  rw [PartitionData.stored_held (PartitionData.stored_resident_iff.mp hpart)]
  rfl

theorem perContent_cons (f : List (Record F) → Except Fail (List (Record F)))
    (content : Content F) (contents : List (Content F)) :
    perContent f (content :: contents) =
      (f content.2).bind fun records =>
        (perContent f contents).map ((content.1, records) :: ·) := by
  rw [perContent, List.mapM_cons]
  cases f content.2 with
  | error e => rfl
  | ok records =>
      show (perContent f contents >>= fun rest => _) = (perContent f contents).map _
      cases perContent f contents <;> rfl

theorem perPartition_cons_error {f : List (Record F) → Except Fail (List (Record F))}
    {p : PartitionData F} (hp : p.Resident) {e : Fail} (hf : f p.held = .error e)
    (rest : List (PartitionData F)) (files : Files) :
    perPartition host f (p :: rest) files = (.error e, files) := by
  show ((p.intoParts host >>= _) >>= _) files = _
  rw [Exec.bind_apply, Exec.bind_apply, PartitionData.intoParts_of_resident host hp]
  dsimp only
  rw [Exec.bind_apply, Exec.lift_apply, hf]

theorem perPartition_cons_ok {f : List (Record F) → Except Fail (List (Record F))}
    {p : PartitionData F} (hp : p.Resident) {mapped : List (Record F)}
    (hf : f p.held = .ok mapped) (rest : List (PartitionData F)) {files files' : Files}
    {result : Except Fail (List (PartitionData F))}
    (hrest : perPartition host f rest
      (PartitionCache.storedFiles host p.limitBytes p.spillPath mapped files) =
        (result, files')) :
    perPartition host f (p :: rest) files =
      (result.map (.stored host p.partitionId p.limitBytes p.spillPath mapped :: ·), files') := by
  show ((p.intoParts host >>= _) >>= _) files = _
  rw [Exec.bind_apply, Exec.bind_apply, PartitionData.intoParts_of_resident host hp]
  dsimp only
  rw [Exec.bind_apply, Exec.lift_apply, hf]
  dsimp only
  rw [PartitionData.fromRecords_apply]
  show (perPartition host f rest >>= _) _ = _
  rw [Exec.bind_apply, hrest]
  cases result <;> rfl

theorem perPartition_yields {f : List (Record F) → Except Fail (List (Record F))}
    (h : ∀ p ∈ partitions, p.Resident) (files : Files) :
    Yields (perPartition host f partitions files).1
      (perContent f (partitions.map PartitionData.content)) := by
  induction partitions generalizing files with
  | nil => exact fun _ => rfl
  | cons p rest ih =>
      obtain ⟨hp, hrest⟩ := List.forall_mem_cons.mp h
      intro hres
      rw [List.map_cons, perContent_cons]
      show ((f p.held).bind fun records => _) = _
      cases hf : f p.held with
      | error e =>
          rw [perPartition_cons_error hp hf]
          rfl
      | ok mapped =>
          have ih := ih hrest
            (PartitionCache.storedFiles host p.limitBytes p.spillPath mapped files)
          cases hrun : perPartition host f rest
            (PartitionCache.storedFiles host p.limitBytes p.spillPath mapped files) with
          | mk result files' =>
              rw [perPartition_cons_ok hp hf rest hrun] at hres ⊢
              rw [hrun] at ih
              cases result with
              | error e =>
                  have herror := ih fun parts hparts => by cases hparts
                  show (perContent f _).map _ = _
                  rw [herror]
                  rfl
              | ok qs =>
                  have hall := List.forall_mem_cons.mp (hres _ rfl)
                  have hqs := ih fun parts hparts => by
                    cases hparts
                    exact hall.2
                  show (perContent f _).map _ = _
                  rw [hqs]
                  show Except.ok (_ :: _) = Except.ok ((_, PartitionData.held _) :: _)
                  rw [PartitionData.stored_held (PartitionData.stored_resident_iff.mp hall.1)]
                  rfl

/-- Filling one partition after another. -/
theorem fromRecords_forEach_yields {limitBytes : Nat} {spillPath : Nat → Path}
    (contents : List (List (Record F) × Nat)) (files : Files) :
    Yields (Exec.forEach (fun (records, idx) =>
        PartitionData.fromRecords host idx limitBytes (spillPath idx) records) contents files).1
      (.ok (contents.map fun (records, idx) => (idx, records))) := by
  induction contents generalizing files with
  | nil => exact fun _ => rfl
  | cons content contents ih =>
      intro hres
      obtain ⟨records, idx⟩ := content
      have ih := ih (PartitionCache.storedFiles host limitBytes (spillPath idx) records files)
      have hstep : ∀ out files', Exec.forEach (fun (records, idx) =>
            PartitionData.fromRecords host idx limitBytes (spillPath idx) records) contents
            (PartitionCache.storedFiles host limitBytes (spillPath idx) records files) =
            (out, files') →
          Exec.forEach (fun (records, idx) =>
            PartitionData.fromRecords host idx limitBytes (spillPath idx) records)
            ((records, idx) :: contents) files =
          (out.map (.stored host idx limitBytes (spillPath idx) records :: ·), files') := by
        intro out files' hout
        rw [Exec.forEach, Exec.bind_apply, PartitionData.fromRecords_apply]
        dsimp only
        rw [Exec.bind_apply, hout]
        cases out <;> rfl
      rcases hrest : Exec.forEach (fun (records, idx) =>
          PartitionData.fromRecords host idx limitBytes (spillPath idx) records) contents
          (PartitionCache.storedFiles host limitBytes (spillPath idx) records files) with
        ⟨e | qs, files'⟩
      · rw [hrest] at ih
        cases ih fun parts hparts => by cases hparts
      · rw [hstep _ _ hrest] at hres ⊢
        rw [hrest] at ih
        have hall := List.forall_mem_cons.mp (hres _ rfl)
        have hqs := Except.ok.inj (ih fun parts hparts => by
          cases hparts
          exact hall.2)
        rw [List.map_cons, hqs]
        show Except.ok ((idx, records) :: _) = Except.ok ((_, PartitionData.held _) :: _)
        rw [PartitionData.stored_held (PartitionData.stored_resident_iff.mp hall.1)]
        rfl

theorem ReadOp.execute_result (host : Host F) (op : ReadOp) (files : Files) :
    Yields (op.execute host files).1 (op.result host files) := by
  show Yields ((Files.readOr _ _ >>= _ : Action (List (PartitionData F))) files).1 _
  rw [Exec.bind_apply, Files.readOr_apply, ReadOp.result]
  cases files.lookup (host.resolve op.path) with
  | none => exact fun _ => rfl
  | some content =>
      dsimp only
      rw [Exec.bind_apply, Exec.lift_apply]
      cases ReadOp.readRecords host op.format op.totalPartitions op.partitionId content with
      | error e => exact fun _ => rfl
      | ok records => exact fromRecords_single_yields _ _ _ _ _

theorem FilterOp.execute_result [BEq F] (op : FilterOp) (h : ∀ p ∈ partitions, p.Resident)
    (files : Files) :
    Yields (op.execute host partitions files).1
      (op.result host (partitions.map PartitionData.content)) := by
  show Yields ((Exec.lift _ >>= _ : Action (List (PartitionData F))) files).1 _
  rw [Exec.bind_apply, Exec.lift_apply, FilterOp.result]
  cases Predicate.parse host op.predicate with
  | error e => exact fun _ => rfl
  | ok predicate => exact perPartition_yields h files

theorem ReduceOp.execute_result (op : ReduceOp) (h : ∀ p ∈ partitions, p.Resident)
    (files : Files) :
    Yields (op.execute host partitions files).1
      (op.result host (partitions.map PartitionData.content)) := by
  show Yields ((Exec.lift _ >>= _ : Action (List (PartitionData F))) files).1 _
  rw [Exec.bind_apply, Exec.lift_apply, ReduceOp.result]
  cases ReducerKind.parse op.reducer with
  | error e => exact fun _ => rfl
  | ok reducer =>
      cases partitions with
      | nil => exact fun _ => rfl
      | cons first rest =>
          show Yields ((drainPartitions host (first :: rest) >>= _ :
            Action (List (PartitionData F))) files).1 (.ok [(_, [reducer.applyReducer host
              (recordsOf ((first :: rest).map PartitionData.content))])])
          rw [Exec.bind_apply, drainPartitions_of_resident h, recordsOf_map_content]
          exact fromRecords_single_yields _ _ _ _ _

theorem ReduceByKeyOp.execute_result (order : HashOrder String) (op : ReduceByKeyOp)
    (h : ∀ p ∈ partitions, p.Resident) (files : Files) :
    Yields (op.execute host order partitions files).1
      (op.result host order (partitions.map PartitionData.content)) := by
  cases partitions with
  | nil => exact fun _ => rfl
  | cons first rest =>
      unfold ReduceByKeyOp.execute ReduceByKeyOp.result
      rw [List.map_cons]
      dsimp only
      cases ReducerKind.parse op.reducer with
      | error e => exact fun _ => rfl
      | ok reducer =>
          dsimp only
          rw [Exec.bind_apply, groupPartitions_of_resident h, ← List.map_cons,
            recordsOf_map_content]
          cases ReduceByKeyOp.groupRecords op.key ∅
            ((first :: rest).flatMap PartitionData.held) with
          | error e => exact fun _ => rfl
          | ok groups => exact fromRecords_single_yields _ _ _ _ _

/-- A join of two partitions. -/
theorem JoinOp.execute_pair_result [BEq F] (op : JoinOp) {left right : PartitionData F}
    (hleft : left.Resident) (hright : right.Resident) (files : Files) :
    Yields (op.execute host [left, right] files).1
      (op.result host [left.content, right.content]) := by
  show Yields ((left.intoParts host >>= _ : Action (List (PartitionData F))) files).1
    ((JoinOp.joinRecords host op left.held right.held).map _)
  rw [Exec.bind_apply, PartitionData.intoParts_of_resident host hleft]
  dsimp only
  rw [Exec.bind_apply, PartitionData.intoParts_of_resident host hright]
  dsimp only
  rw [Exec.bind_apply, Exec.lift_apply]
  cases JoinOp.joinRecords host op left.held right.held with
  | error e => exact fun _ => rfl
  | ok output => exact fromRecords_single_yields _ _ _ _ _

theorem JoinOp.execute_result [BEq F] (op : JoinOp) (h : ∀ p ∈ partitions, p.Resident)
    (files : Files) :
    Yields (op.execute host partitions files).1
      (op.result host (partitions.map PartitionData.content)) := by
  cases partitions with
  | nil => exact fun _ => rfl
  | cons left rest =>
      cases rest with
      | nil => exact fun _ => rfl
      | cons right rest =>
          cases rest with
          | nil =>
              rw [List.forall_mem_cons, List.forall_mem_singleton] at h
              exact execute_pair_result op h.1 h.2 files
          | cons third rest =>
              intro _
              show Except.error (JoinOp.wrongInputCount _) = Except.error _
              rw [List.length_map]

theorem ShuffleByKeyOp.execute_result (op : ShuffleByKeyOp) (h : ∀ p ∈ partitions, p.Resident)
    (files : Files) :
    Yields (op.execute host partitions files).1
      (op.result host (partitions.map PartitionData.content)) := by
  unfold ShuffleByKeyOp.execute ShuffleByKeyOp.result
  split_ifs
  · exact fun _ => rfl
  · rw [Exec.bind_apply, drainPartitions_of_resident h, recordsOf_map_content]
    exact fromRecords_forEach_yields _ files

end

/-- An operator of which nothing is spilled computes its result. -/
theorem Operator.execute_result [BEq F] {host : Host F} {order : HashOrder String} {op : Operator}
    {input : List (PartitionData F)} (h : ∀ p ∈ input, p.Resident) (files : Files) :
    Yields (op.execute host order input files).1
      (op.result host files order (input.map PartitionData.content)) := by
  cases op with
  | read op => exact op.execute_result host files
  | map op => exact perPartition_yields h files
  | filter op => exact op.execute_result h files
  | flatMap op =>
      let expand (records : List (Record F)) : Except Fail (List (Record F)) :=
        (records.mapM (FlatMapOp.apply op.func)).map List.flatten
      exact perPartition_yields (f := expand) h files
  | reduce op => exact op.execute_result h files
  | reduceByKey op => exact op.execute_result order h files
  | join op => exact op.execute_result h files
  | shuffle op => exact op.execute_result h files

end ProcessingEngine

import ProcessingEngine.Worker.OwnFiles

/-!
# The files of a job

Whatever its operators and their inputs are, a task changes files below the
directory of its job only.  A partition has a spill file there, or it comes from
a shuffle without input: then its file is in the directory for temporary files
and its limit is `usize::MAX`, which no total exceeds.
-/

namespace ProcessingEngine

open Lib Lib.Exec Text

/-- The path of a file in the directory, at any depth. -/
def Below (dir path : Path) : Prop := ∃ name rest, path = dir ++ name :: rest

instance decidableBelow (dir path : Path) : Decidable (Below dir path) :=
  decidable_of_iff (∃ n < path.length, path.take n = dir) <| by
    constructor
    · intro h
      obtain ⟨n, hn, htake⟩ := h
      refine ⟨path[n], path.drop (n + 1), ?_⟩
      rw [← htake, List.getElem_cons_drop, List.take_append_drop]
    · intro h
      obtain ⟨name, rest, rfl⟩ := h
      exact ⟨dir.length, by simp, by simp⟩

/-- Two directories of one parent have no file in common. -/
theorem Below.name_eq {root path : Path} {name name' : String} (h : Below (root ++ [name]) path)
    (h' : Below (root ++ [name']) path) : name = name' := by
  obtain ⟨file, rest, rfl⟩ := h
  obtain ⟨file', rest', heq⟩ := h'
  rw [List.append_assoc, List.append_assoc, List.append_cancel_left_eq] at heq
  exact (List.cons.inj heq).1

/-- The operation creates, changes or removes no file outside the directory. -/
def FileOp.ChangesBelow (dir : Path) : FileOp → Prop
  | .read _ => True
  | .append path _ => Below dir path
  | .write path _ => Below dir path
  | .remove path => Below dir path

theorem FileOp.ChangesBelow.lookup {dir : Path} {op : FileOp} (h : op.ChangesBelow dir)
    {path : Path} (hpath : ¬Below dir path) (files : Files) :
    (Interp.exec op files).2.lookup path = files.lookup path := by
  have hne : ∀ path', Below dir path' → path ≠ path' := by
    rintro path' hbelow rfl
    exact hpath hbelow
  cases op with
  | read path' => rfl
  | append path' data => exact AList.lookup_insert_ne (hne path' h)
  | write path' data => exact AList.lookup_insert_ne (hne path' h)
  | remove path' => exact AList.lookup_erase_ne (hne path' h)

theorem FileOp.ChangesBelow.mono {dir dir' : Path} {op : FileOp} (h : op.ChangesBelow dir)
    (hdir : ∀ path, Below dir path → Below dir' path) : op.ChangesBelow dir' := by
  cases op with
  | read path => trivial
  | _ => exact hdir _ h

/-- A program that changes files of a directory only leaves the others alone. -/
theorem lookup_of_changesBelow {α : Type} {dir : Path} {x : Thread α}
    (h : x.Uses (FileOp.ChangesBelow dir) fun _ => True) {path : Path} (hpath : ¬Below dir path)
    (files : Files) : (x files).2.lookup path = files.lookup path := by
  refine h.keeps (I := fun files' => files'.lookup path = files.lookup path)
    (fun op files' hop hsame => ?_) rfl
  exact (hop.lookup hpath files').trans hsame

variable {F : Type} {P : FileOp → Prop} {L : Nat → Nat → Path → Prop} {host : Host F}

open PartitionData (Placed)

/-! ### The operators that bring partitions together -/

section

variable [BEq F]

theorem ReduceOp.keeps (h : Spills P L) (op : ReduceOp) :
    (Operator.reduce op).Keeps host P L := by
  intro order input hinput
  refine uses_bind (uses_lift fun _ _ => trivial) fun reducer _ => ?_
  cases input with
  | nil => exact uses_pure (by simp)
  | cons first rest =>
      refine uses_bind (uses_drainPartitions hinput) fun records _ => ?_
      have hfirst := (hinput first List.mem_cons_self).place
      refine uses_bind (PartitionData.uses_fromRecords h hfirst _) fun partition hpartition => ?_
      exact uses_pure (by simpa using hpartition)

omit [BEq F] in
theorem ReduceByKeyOp.uses_groupPartitions (op : ReduceByKeyOp) {partitions : List (PartitionData F)}
    (hparts : ∀ q ∈ partitions, q.Placed P L) (groups : HashMap String (List (Record F))) :
    (groupPartitions host op groups partitions).Uses P fun _ => True := by
  induction partitions generalizing groups with
  | nil => exact uses_pure trivial
  | cons p rest ih =>
      rw [List.forall_mem_cons] at hparts
      refine uses_bind (PartitionData.uses_intoParts hparts.1) fun out _ => ?_
      obtain ⟨limit, path, records⟩ := out
      exact uses_bind (uses_lift fun _ _ => trivial) fun groups' _ => ih hparts.2 groups'

theorem ReduceByKeyOp.keeps (h : Spills P L) (op : ReduceByKeyOp) :
    (Operator.reduceByKey op).Keeps host P L := by
  intro order input hinput
  cases input with
  | nil => exact uses_pure (by simp)
  | cons first rest =>
      show (ReduceByKeyOp.execute host order op (first :: rest)).Uses P _
      unfold ReduceByKeyOp.execute
      dsimp only
      split
      · exact uses_fail _
      · refine uses_bind (op.uses_groupPartitions hinput ∅) fun groups _ => ?_
        have hfirst := (hinput first List.mem_cons_self).place
        refine uses_bind (PartitionData.uses_fromRecords h hfirst _) fun partition hpartition => ?_
        exact uses_pure (by simpa using hpartition)

/-- A join gives its output the place of the left input, and the lower number. -/
theorem JoinOp.keeps (h : Spills P L)
    (hjoin : ∀ pid limitBytes spill, L pid limitBytes spill → ∀ pid', L pid' limitBytes spill)
    (op : JoinOp) : (Operator.join op).Keeps host P L := by
  intro order input hinput
  show (JoinOp.execute host op input).Uses P _
  unfold JoinOp.execute
  split
  · next left right =>
      simp only [List.forall_mem_cons] at hinput
      obtain ⟨hleft, hright, -⟩ := hinput
      refine uses_bind (PartitionData.uses_intoParts hleft) fun out _ => ?_
      obtain ⟨limit, path, leftRecords⟩ := out
      refine uses_bind (PartitionData.uses_intoParts hright) fun out _ => ?_
      obtain ⟨limit', path', rightRecords⟩ := out
      refine uses_bind (uses_lift fun _ _ => trivial) fun output _ => ?_
      refine uses_bind (PartitionData.uses_fromRecords h (hjoin _ _ _ hleft.place _) _)
        fun partition hpartition => ?_
      exact uses_pure (by simpa using hpartition)
  · exact uses_fail _

/-- A shuffle puts its buckets next to the spill file of its first input. -/
theorem ShuffleByKeyOp.keeps (h : Spills P L)
    (hbucket : ∀ pid limitBytes spill, L pid limitBytes spill → ∀ idx,
      L idx limitBytes (bucketPath ((parent spill).getD host.tempDir) idx))
    (hfallback : ∀ idx, L idx usizeMax (bucketPath host.tempDir idx)) (op : ShuffleByKeyOp) :
    (Operator.shuffle op).Keeps host P L := by
  intro order input hinput
  have hplace : ∀ idx, L idx (limit input) (bucketPath (spillBase host input) idx) := by
    intro idx
    cases input with
    | nil => exact hfallback idx
    | cons first rest => exact hbucket _ _ _ (hinput first List.mem_cons_self).place idx
  show (ShuffleByKeyOp.execute host op input).Uses P _
  unfold ShuffleByKeyOp.execute
  split
  · exact uses_fail _
  · refine uses_bind (uses_drainPartitions hinput) fun records _ => ?_
    refine uses_forEach (A := fun _ => True) (fun bucket _ => ?_) fun _ _ => trivial
    obtain ⟨records, idx⟩ := bucket
    exact PartitionData.uses_fromRecords h (hplace idx) records

/-! ### A task -/

variable {Uuid : Type} (ex : Executor F Uuid) (task : Task Uuid)

namespace Executor

omit [BEq F] in
def jobDir (ex : Executor F Uuid) (task : Task Uuid) : Path :=
  ex.config.dataDir ++ [ex.uuidText task.jobId]

def stageDir (ex : Executor F Uuid) (task : Task Uuid) : Path :=
  ex.store.stageDir ex.uuidText task.jobId (finalStageId task)

/-- The partition never spills, or its file is in the directory of the stage. -/
def StagePlace (_pid limitBytes : Nat) (spill : Path) : Prop :=
  usizeMax ≤ limitBytes ∨ ∃ name, spill = ex.stageDir task ++ [name]

omit [BEq F] in
theorem below_jobDir {path : Path} (h : Below (ex.stageDir task) path) :
    Below (ex.jobDir task) path := by
  obtain ⟨name, rest, rfl⟩ := h
  refine ⟨toString (finalStageId task), name :: rest, ?_⟩
  simp [stageDir, PartitionStore.stageDir, jobDir, store]

omit [BEq F] in
theorem spills_stagePlace :
    Spills (FileOp.ChangesBelow (ex.stageDir task)) (ex.StagePlace task) := by
  intro pid limitBytes spill hplace hlimit
  rcases hplace with hnever | ⟨name, rfl⟩
  · omega
  · have hbelow : Below (ex.stageDir task) (ex.stageDir task ++ [name]) := ⟨name, [], rfl⟩
    exact ⟨trivial, fun _ => hbelow, hbelow⟩

theorem keeps_of_mem {op : Operator} (hop : op ∈ (ex.pipeline task).operators) :
    op.Keeps ex.host (FileOp.ChangesBelow (ex.stageDir task)) (ex.StagePlace task) := by
  have hspills := ex.spills_stagePlace task
  have hown : ex.StagePlace task task.partition ex.config.partitionCacheLimitBytes
      (ex.spillPath task) := Or.inr ⟨_, rfl⟩
  obtain ⟨value, -, rfl⟩ := List.mem_map.mp hop
  cases value with
  | read uri format => exact ReadOp.keeps hspills hown trivial
  | map script => exact RecordOp.keeps hspills (.map ⟨script⟩)
  | filter predicate => exact RecordOp.keeps hspills (.filter ⟨predicate⟩)
  | flatMap func => exact RecordOp.keeps hspills (.flatMap ⟨func⟩)
  | identity => exact RecordOp.keeps hspills (.map ⟨"identity"⟩)
  | reduce reducer => exact ReduceOp.keeps hspills ⟨reducer⟩
  | aggregate aggregation => exact ReduceOp.keeps hspills ⟨aggregation⟩
  | reduceByKey key op => exact ReduceByKeyOp.keeps hspills ⟨key, op⟩
  | join key joinType => exact JoinOp.keeps hspills (fun _ _ _ hplace _ => hplace) ⟨key, joinType⟩
  | shuffleByKey key totalPartitions =>
      refine ShuffleByKeyOp.keeps hspills (fun pid limitBytes spill hplace idx => ?_)
        (fun idx => Or.inl le_rfl) ⟨key, max totalPartitions 1⟩
      rcases hplace with hnever | ⟨name, rfl⟩
      · exact Or.inl hnever
      · -- the parent of a file of the stage is the directory of the stage
        refine Or.inr ⟨"bucket-" ++ toString idx ++ ".bin", ?_⟩
        simp [ShuffleByKeyOp.parent, ShuffleByKeyOp.bucketPath]

/-- All files that a task changes are in the directory of its stage. -/
theorem uses_stageDir (attempt : Attempt) :
    (ex.executeSync attempt task).Uses (FileOp.ChangesBelow (ex.stageDir task)) fun _ => True :=
  uses_executeSync attempt (ex.spills_stagePlace task) (Or.inr ⟨_, rfl⟩)
    (fun _ _ _ _ _ => ⟨_, [], rfl⟩) fun _ hop => ex.keeps_of_mem task hop

/-- A task creates, changes and removes files below the directory of its job
only, whatever it finds in the files it reads; it leaves all other files as they
are, and so those of every other job. -/
theorem executeSync_changesBelow (attempt : Attempt) :
    (ex.executeSync attempt task).Uses (FileOp.ChangesBelow (ex.jobDir task)) (fun _ => True) ∧
      ∀ files path, (¬Below (ex.jobDir task) path ∨ ∃ other : Task Uuid,
          ex.uuidText other.jobId ≠ ex.uuidText task.jobId ∧ Below (ex.jobDir other) path) →
        (ex.executeSync attempt task files).2.lookup path = files.lookup path := by
  have huses : (ex.executeSync attempt task).Uses (FileOp.ChangesBelow (ex.jobDir task))
      fun _ => True :=
    (ex.uses_stageDir task attempt).mono
      (fun _ hop => hop.mono fun _ => ex.below_jobDir task) fun _ _ => trivial
  refine ⟨huses, fun files path houtside => lookup_of_changesBelow huses ?_ files⟩
  rcases houtside with hnot | ⟨other, hne, hother⟩
  · exact hnot
  · exact fun hbelow => hne (hother.name_eq hbelow)

end Executor
end

end ProcessingEngine

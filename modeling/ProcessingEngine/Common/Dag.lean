import ProcessingEngine.Common.Types
import ProcessingEngine.Lib.Worklist
import Mathlib.Data.List.Dedup

/-!
# Job specifications and their tasks

`common/dag.rs`: validation of a DAG, its topological order, and the tasks that
a job consists of.  The topological sort starts from the keys of a hash map, so
its result depends on the iteration order of that map; every function that
sorts takes this order as an argument.
-/

namespace ProcessingEngine

open Lib

structure DagNode where
  id : String
  operator : OperatorType
  deriving DecidableEq, Repr

/-- An edge.  The source's field names are `from` and `to`. -/
structure DagEdge where
  source : String
  target : String
  deriving DecidableEq, Repr

structure DagSpecification where
  nodes : List DagNode
  edges : List DagEdge
  partitions : Nat
  deriving DecidableEq, Repr

structure Stage where
  stageId : Nat
  nodes : List DagNode
  partitions : Nat
  deriving DecidableEq, Repr

def OperatorType.isJoin : OperatorType → Bool
  | .join _ _ => true
  | _ => false

def OperatorType.isReduceByKey : OperatorType → Bool
  | .reduceByKey _ _ => true
  | _ => false

def OperatorType.readSource : OperatorType → Option (String × String)
  | .read uri format => some (uri, format)
  | _ => none

namespace DagSpecification

/-- A join node has two incoming edges. -/
def validate (dag : DagSpecification) : Except String Unit :=
  let incoming (node : DagNode) := dag.edges.countP fun e => e.target == node.id
  match dag.nodes.find? fun node => node.operator.isJoin && incoming node != 2 with
  | some node =>
      .error ("join node '" ++ node.id ++ "' must have exactly 2 parents (found " ++
        toString (incoming node) ++ ")")
  | none => .ok ()

/-- The number of edges into each node. -/
def incomingCounts (dag : DagSpecification) : HashMap String Nat :=
  dag.edges.foldl (fun m e => m.insert e.target ((m.lookup e.target).getD 0 + 1))
    (dag.nodes.foldl (fun m n => m.insert n.id 0) ∅)

def outgoingTargets (dag : DagSpecification) : HashMap String (List String) :=
  dag.edges.foldl (fun m e => m.insert e.source ((m.lookup e.source).getD [] ++ [e.target])) ∅

/-- Append the nodes that the sort did not reach, those on cycles. -/
def appendMissing (nodes : List DagNode) (ids : List String) : List String :=
  nodes.foldl (fun ids node => if node.id ∈ ids then ids else ids ++ [node.id]) ids

def orderedIds (dag : DagSpecification) (order : HashOrder String) : List String :=
  let incoming := dag.incomingCounts
  let queue := (order.keys incoming.keys).filter fun id => incoming.lookup id == some 0
  appendMissing dag.nodes
    (traverse dag.outgoingTargets (incoming.keys.length + 1) incoming queue []).2

def orderedNodes (dag : DagSpecification) (order : HashOrder String) : List DagNode :=
  if dag.edges.isEmpty then dag.nodes
  else (dag.orderedIds order).filterMap fun id => dag.nodes.find? fun n => n.id == id

def toStages (dag : DagSpecification) (order : HashOrder String) : List Stage :=
  (dag.orderedNodes order).mapIdx fun idx node => ⟨idx, [node], dag.partitions⟩

/-- Whether `prev` shuffles by the key that `node` reduces by. -/
def hasShuffleBefore (prev : Option DagNode) (key : String) : Bool :=
  match prev.map DagNode.operator with
  | some (.shuffleByKey k _) => k == key
  | _ => false

def injectNode (dag : DagSpecification) (out : List DagNode) (node : DagNode) : List DagNode :=
  match node.operator with
  | .reduceByKey key _ =>
      if hasShuffleBefore out.getLast? key then out ++ [node]
      else out ++ [⟨"__shuffle_" ++ node.id ++ "__", .shuffleByKey key dag.partitions⟩] ++ [node]
  | _ => out ++ [node]

def injectLocalShuffle (dag : DagSpecification) (nodes : List DagNode) : List DagNode :=
  nodes.foldl dag.injectNode []

def readSource (dag : DagSpecification) : Option (String × String) :=
  dag.nodes.findSome? fun node => node.operator.readSource

def edgeText (e : DagEdge) : String := e.source ++ "->" ++ e.target

/-- The texts of the edges into `id`. -/
def incomingEdges (dag : DagSpecification) (id : String) : List String :=
  (dag.edges.filter fun e => e.target == id).map edgeText

/-- The name from which the id of a task is derived. -/
def stableIdInput (finalStageId partition : Nat) : String :=
  toString finalStageId ++ "-" ++ toString partition

/-- The tasks of the job `jobId`, one for each partition.  `newV5` is
`Uuid::new_v5`. -/
def materializeTasks {Uuid : Type} (newV5 : Uuid → String → Uuid) (order : HashOrder String)
    (dag : DagSpecification) (jobId : Uuid) : List (Task Uuid) :=
  match dag.readSource with
  | none => []
  | some (inputUri, inputFormat) =>
      let nodes := dag.injectLocalShuffle (dag.orderedNodes order)
      let operators := nodes.map DagNode.operator
      let operatorIds := nodes.map DagNode.id
      if operators.isEmpty then []
      else
        let finalStageId := operators.length - 1
        (List.range dag.partitions).map fun partition =>
          { taskId := newV5 jobId (stableIdInput finalStageId partition)
            jobId
            stageId := finalStageId
            attempt := 0
            operator := operators.getLast?.getD .identity
            operators
            operatorIds
            incomingEdges := operatorIds.map dag.incomingEdges
            partition
            inputUri
            inputFormat
            totalPartitions := dag.partitions }

/-! ### The order of the nodes -/

theorem mem_appendMissing {nodes : List DagNode} {ids : List String} {id : String} :
    id ∈ appendMissing nodes ids ↔ id ∈ ids ∨ ∃ n ∈ nodes, n.id = id := by
  induction nodes generalizing ids with
  | nil => simp [appendMissing]
  | cons node nodes ih =>
      have hstep : appendMissing (node :: nodes) ids =
          appendMissing nodes (if node.id ∈ ids then ids else ids ++ [node.id]) := rfl
      rw [hstep, ih, List.exists_mem_cons_iff]
      split_ifs with h
      · constructor
        · rintro (hid | hid)
          · exact Or.inl hid
          · exact Or.inr (Or.inr hid)
        · rintro (hid | rfl | hid)
          · exact Or.inl hid
          · exact Or.inl h
          · exact Or.inr hid
      · rw [List.mem_append, List.mem_singleton, or_assoc, eq_comm (a := id)]

theorem appendMissing_nodup {nodes : List DagNode} {ids : List String} (h : ids.Nodup) :
    (appendMissing nodes ids).Nodup := by
  induction nodes generalizing ids with
  | nil => exact h
  | cons node nodes ih =>
      have hstep : (if node.id ∈ ids then ids else ids ++ [node.id]).Nodup := by
        split_ifs with hmem
        · exact h
        · exact h.append (List.nodup_singleton _) (by simpa using hmem)
      exact ih hstep

theorem lookup_foldl_insert_zero (nodes : List DagNode) (m : HashMap String Nat)
    (hm : ∀ id c, m.lookup id = some c → c = 0) {id : String} {c : Nat}
    (h : (nodes.foldl (fun m n => m.insert n.id 0) m).lookup id = some c) : c = 0 := by
  induction nodes generalizing m with
  | nil => exact hm id c h
  | cons node nodes ih =>
      refine ih (m.insert node.id 0) (fun id c hid => ?_) h
      by_cases hne : id = node.id
      · subst hne
        rw [AList.lookup_insert] at hid
        exact (Option.some.inj hid).symm
      · rw [AList.lookup_insert_ne hne] at hid
        exact hm id c hid

/-- The edges as pairs. -/
def edgePairs (edges : List DagEdge) : List (String × String) :=
  edges.map fun e => (e.source, e.target)

theorem lookup_foldl_count {edges : List DagEdge} {m : HashMap String Nat} {id : String}
    {c : Nat}
    (h : (edges.foldl (fun m e => m.insert e.target ((m.lookup e.target).getD 0 + 1)) m).lookup
      id = some c) :
    c = (m.lookup id).getD 0 + (edgePairs edges).countP fun e => e.2 = id := by
  induction edges generalizing m with
  | nil =>
      have h : m.lookup id = some c := h
      simp [edgePairs, h]
  | cons e edges ih =>
      rw [List.foldl_cons] at h
      have hcons : edgePairs (e :: edges) = (e.source, e.target) :: edgePairs edges := rfl
      rw [ih h, hcons, List.countP_cons]
      by_cases hid : id = e.target
      · subst hid
        rw [AList.lookup_insert]
        simp only [Option.getD_some, decide_true, if_true]
        omega
      · rw [AList.lookup_insert_ne hid]
        have hne : decide (e.target = id) = false := decide_eq_false fun he => hid he.symm
        simp [hne]

theorem lookup_foldl_targets (edges : List DagEdge) (m : HashMap String (List String))
    (u : String) :
    ((edges.foldl (fun m e => m.insert e.source ((m.lookup e.source).getD [] ++ [e.target]))
      m).lookup u).getD [] = (m.lookup u).getD [] ++ targets (edgePairs edges) u := by
  induction edges generalizing m with
  | nil => simp [targets, edgePairs]
  | cons e edges ih =>
      rw [List.foldl_cons, ih]
      by_cases hu : u = e.source
      · subst hu
        rw [AList.lookup_insert]
        simp [targets, edgePairs]
      · have hne : ¬ e.source = u := fun he => hu he.symm
        rw [AList.lookup_insert_ne hu]
        simp [targets, edgePairs, hne]

/-- The loop of the sort starts in its invariant. -/
theorem released_init (dag : DagSpecification) (order : HashOrder String) :
    Released (edgePairs dag.edges) dag.incomingCounts.keys dag.incomingCounts
      ((order.keys dag.incomingCounts.keys).filter
        fun id => dag.incomingCounts.lookup id == some 0) [] [] where
  nodup := by
    rw [List.nil_append]
    exact ((order.perm _).nodup_iff.mpr dag.incomingCounts.keys_nodup).filter _
  keys v := Iff.rfl
  count v c h := by
    have hzero : ((dag.nodes.foldl (fun m n => m.insert n.id 0) (∅ : HashMap String Nat)).lookup
        v).getD 0 = 0 := by
      cases hv : (dag.nodes.foldl (fun m n => m.insert n.id 0) (∅ : HashMap String Nat)).lookup v
        with
      | none => rfl
      | some c => exact lookup_foldl_insert_zero dag.nodes ∅ (by simp) hv
    rw [lookup_foldl_count h, hzero]
    simp
  zero v hv := by
    rw [List.nil_append, List.mem_filter, beq_iff_eq] at hv
    exact hv.2

theorem outgoing_eq_targets (dag : DagSpecification) (u : String) :
    (dag.outgoingTargets.lookup u).getD [] = targets (edgePairs dag.edges) u := by
  rw [outgoingTargets, lookup_foldl_targets]
  simp

theorem orderedIds_nodup (dag : DagSpecification) (order : HashOrder String) :
    (dag.orderedIds order).Nodup :=
  appendMissing_nodup ((dag.released_init order).traverse_nodup dag.outgoing_eq_targets _)

theorem mem_orderedIds {dag : DagSpecification} {order : HashOrder String} {n : DagNode}
    (h : n ∈ dag.nodes) : n.id ∈ dag.orderedIds order :=
  mem_appendMissing.mpr (Or.inr ⟨n, h, rfl⟩)

/-- Any two iteration orders yield the same nodes, in some order. -/
theorem orderedNodes_perm (dag : DagSpecification) (order order' : HashOrder String) :
    (dag.orderedNodes order).Perm (dag.orderedNodes order') := by
  unfold orderedNodes
  split_ifs with hedges
  · exact .refl _
  · have hfilter : ∀ l : List String,
        l.filterMap (fun id => dag.nodes.find? fun n => n.id == id) =
          (l.filter fun id => (dag.nodes.find? fun n => n.id == id).isSome).filterMap
            fun id => dag.nodes.find? fun n => n.id == id := by
      intro l
      rw [List.filterMap_filter]
      refine List.filterMap_congr fun id _ => ?_
      cases dag.nodes.find? fun n => n.id == id <;> rfl
    rw [hfilter, hfilter (dag.orderedIds order')]
    refine List.Perm.filterMap _ ((List.perm_ext_iff_of_nodup
      ((orderedIds_nodup dag order).filter _) ((orderedIds_nodup dag order').filter _)).mpr ?_)
    intro id
    simp only [List.mem_filter]
    refine and_congr_left fun hsome => ?_
    obtain ⟨n, hn⟩ := Option.isSome_iff_exists.mp hsome
    have hmem := List.mem_of_find?_eq_some hn
    have hid : n.id = id := by simpa using List.find?_some hn
    subst hid
    exact iff_of_true (mem_orderedIds hmem) (mem_orderedIds hmem)

/-! ### The injected shuffles -/

/-- The number of `ReduceByKey` nodes whose predecessor in the list, `prev` for
the first one, shuffles by their key. -/
def followedCount : Option DagNode → List DagNode → Nat
  | _, [] => 0
  | prev, node :: nodes =>
      (match node.operator with
        | .reduceByKey key _ => if hasShuffleBefore prev key then 1 else 0
        | _ => 0) + followedCount (some node) nodes

/-- A `ReduceByKey` node gets a shuffle of its own unless one precedes it. -/
theorem length_foldl_injectNode (dag : DagSpecification) (nodes out : List DagNode) :
    (nodes.foldl dag.injectNode out).length + followedCount out.getLast? nodes =
      out.length + nodes.length +
        nodes.countP fun n => n.operator.isReduceByKey := by
  induction nodes generalizing out with
  | nil => simp [followedCount]
  | cons node nodes ih =>
      have hlast : (dag.injectNode out node).getLast? = some node := by
        unfold injectNode
        split
        · split <;> simp
        · simp
      have hlen : (dag.injectNode out node).length + (match node.operator with
          | .reduceByKey key _ => if hasShuffleBefore out.getLast? key then 1 else 0
          | _ => 0) = out.length + 1 +
            if node.operator.isReduceByKey then 1 else 0 := by
        unfold injectNode
        cases node.operator with
        | reduceByKey key op =>
            dsimp only
            split <;> simp [OperatorType.isReduceByKey]
        | _ => simp [OperatorType.isReduceByKey]
      have hrec := ih (dag.injectNode out node)
      rw [hlast] at hrec
      rw [List.foldl_cons, followedCount, List.countP_cons, List.length_cons]
      omega

theorem length_injectLocalShuffle (dag : DagSpecification) (nodes : List DagNode) :
    (dag.injectLocalShuffle nodes).length + followedCount none nodes =
      nodes.length + nodes.countP fun n => n.operator.isReduceByKey := by
  simpa [injectLocalShuffle] using dag.length_foldl_injectNode nodes []

/-! ### The tasks -/

/-- The length of the pipeline less one: the stage id of every task. -/
def finalStageId (dag : DagSpecification) (order : HashOrder String) : Nat :=
  (dag.injectLocalShuffle (dag.orderedNodes order)).length - 1

/-- The number of `ReduceByKey` nodes that the topological order puts directly
behind a shuffle by their key. -/
def shuffledReduces (dag : DagSpecification) (order : HashOrder String) : Nat :=
  followedCount none (dag.orderedNodes order)

theorem nodes_ne_nil {dag : DagSpecification} {source : String × String}
    (h : dag.readSource = some source) : dag.nodes ≠ [] := by
  intro hnil
  rw [readSource, hnil] at h
  cases h

theorem orderedNodes_ne_nil {dag : DagSpecification} (h : dag.nodes ≠ [])
    (order : HashOrder String) : dag.orderedNodes order ≠ [] := by
  unfold orderedNodes
  split_ifs with hedges
  · exact h
  · obtain ⟨n, hn⟩ := List.exists_mem_of_ne_nil _ h
    have hsome : (dag.nodes.find? fun m => m.id == n.id).isSome :=
      List.find?_isSome.mpr ⟨n, hn, by simp⟩
    obtain ⟨m, hm⟩ := Option.isSome_iff_exists.mp hsome
    exact List.ne_nil_of_mem (List.mem_filterMap.mpr ⟨n.id, mem_orderedIds hn, hm⟩)

theorem followedCount_le (prev : Option DagNode) (nodes : List DagNode) :
    followedCount prev nodes ≤ nodes.countP fun n => n.operator.isReduceByKey := by
  induction nodes generalizing prev with
  | nil => exact Nat.zero_le _
  | cons node nodes ih =>
      have hrec := ih (some node)
      have hnode : (match node.operator with
          | .reduceByKey key _ => if hasShuffleBefore prev key then 1 else 0
          | _ => 0) ≤ if node.operator.isReduceByKey then 1 else 0 := by
        cases node.operator with
        | reduceByKey key op =>
            dsimp only [OperatorType.isReduceByKey]
            split <;> simp
        | _ => exact Nat.zero_le _
      rw [followedCount, List.countP_cons]
      omega

theorem length_le_injectLocalShuffle (dag : DagSpecification) (nodes : List DagNode) :
    nodes.length ≤ (dag.injectLocalShuffle nodes).length := by
  have h := dag.length_injectLocalShuffle nodes
  have hle := followedCount_le none nodes
  omega

section

variable {Uuid : Type} (newV5 : Uuid → String → Uuid)

theorem injectLocalShuffle_ne_nil {dag : DagSpecification} (h : dag.nodes ≠ [])
    (order : HashOrder String) : dag.injectLocalShuffle (dag.orderedNodes order) ≠ [] := by
  have hlen := dag.length_le_injectLocalShuffle (dag.orderedNodes order)
  have hpos := List.length_pos_iff.mpr (orderedNodes_ne_nil h order)
  exact List.length_pos_iff.mp (by omega)

/-- The ids of the tasks, one for each partition of a job with a source. -/
theorem materializeTasks_taskId (order : HashOrder String) (dag : DagSpecification) (jobId : Uuid) :
    (dag.materializeTasks newV5 order jobId).map Task.taskId =
      if dag.readSource.isSome then
        (List.range dag.partitions).map
          fun p => newV5 jobId (stableIdInput (dag.finalStageId order) p)
      else [] := by
  unfold materializeTasks
  cases hread : dag.readSource with
  | none => rfl
  | some source =>
      have hne := injectLocalShuffle_ne_nil (nodes_ne_nil hread) order
      have hops : ((dag.injectLocalShuffle (dag.orderedNodes order)).map
          DagNode.operator).isEmpty = false := by simpa using hne
      simp only [hops, Bool.false_eq_true, if_false, Option.isSome_some, if_true, List.map_map]
      simp [finalStageId, Function.comp_def]

/-- The id of a task is made of the id of the job and a name. -/
theorem materializeTasks_named {order : HashOrder String} {dag : DagSpecification} {jobId id : Uuid}
    (h : id ∈ (dag.materializeTasks newV5 order jobId).map Task.taskId) :
    ∃ name, id = newV5 jobId name := by
  rw [materializeTasks_taskId] at h
  split_ifs at h
  · obtain ⟨p, -, rfl⟩ := List.mem_map.mp h
    exact ⟨_, rfl⟩
  · cases h

theorem materializeTasks_jobId {order : HashOrder String} {dag : DagSpecification} {jobId : Uuid}
    {task : Task Uuid} (h : task ∈ dag.materializeTasks newV5 order jobId) :
    task.jobId = jobId := by
  unfold materializeTasks at h
  split at h
  · cases h
  · dsimp only at h
    split at h
    · cases h
    · obtain ⟨p, -, rfl⟩ := List.mem_map.mp h
      rfl

/-- The partition tells the tasks of a job apart. -/
theorem eq_of_partition_eq {order : HashOrder String} {dag : DagSpecification} {jobId : Uuid}
    {task task' : Task Uuid} (h : task ∈ dag.materializeTasks newV5 order jobId)
    (h' : task' ∈ dag.materializeTasks newV5 order jobId)
    (hpart : task.partition = task'.partition) : task = task' := by
  unfold materializeTasks at h h'
  cases hread : dag.readSource with
  | none =>
      rw [hread] at h
      cases h
  | some source =>
      simp only [hread] at h h'
      split_ifs at h h' with hops
      · cases h
      · obtain ⟨p, -, rfl⟩ := List.mem_map.mp h
        obtain ⟨p', -, rfl⟩ := List.mem_map.mp h'
        obtain rfl : p = p' := hpart
        rfl

theorem notMem_dash_toString (n : Nat) : '-' ∉ (toString n).toList := by
  rw [show toString n = n.repr from rfl, Nat.toList_repr]
  intro h
  have := Nat.isDigit_of_mem_toDigits (by decide) (by decide) h
  revert this
  decide

theorem toString_toList_inj {m n : Nat} (h : (toString m).toList = (toString n).toList) :
    m = n := by
  rw [show toString m = m.repr from rfl, show toString n = n.repr from rfl, Nat.toList_repr,
    Nat.toList_repr] at h
  have hval := congrArg (Nat.ofDigitChars 10 · 0) h
  simpa only [Nat.ofDigitChars_toDigits (by decide : 1 < 10) (le_refl 10)] using hval

/-- A numbered name determines the number. -/
theorem eq_of_numbered_eq {front back : String} {m n : Nat}
    (h : front ++ toString m ++ back = front ++ toString n ++ back) : m = n := by
  have hl := congrArg String.toList h
  simp only [String.toList_append] at hl
  exact toString_toList_inj (List.append_cancel_left (List.append_cancel_right hl))

/-- The name of a task id determines its stage and its partition. -/
theorem stableIdInput_inj {stage stage' partition partition' : Nat}
    (h : stableIdInput stage partition = stableIdInput stage' partition') :
    stage = stage' ∧ partition = partition' := by
  have hl := congrArg String.toList h
  simp only [stableIdInput, String.toList_append, List.append_assoc] at hl
  have hdash : "-".toList = ['-'] := rfl
  rw [hdash, List.singleton_append, List.singleton_append] at hl
  have hsplit := (List.append_cons_inj_of_notMem (notMem_dash_toString stage)
    (notMem_dash_toString partition)).mp hl
  exact ⟨toString_toList_inj hsplit.1, toString_toList_inj hsplit.2.2⟩

theorem materializeTasks_nodup {jobId : Uuid}
    (hinj : Function.Injective (newV5 jobId)) (order : HashOrder String) (dag : DagSpecification) :
    ((dag.materializeTasks newV5 order jobId).map Task.taskId).Nodup := by
  rw [materializeTasks_taskId]
  split_ifs
  · exact List.nodup_range.map fun p q hpq => (stableIdInput_inj (hinj hpq)).2
  · exact List.nodup_nil

theorem finalStageId_eq_iff {dag : DagSpecification} (h : dag.nodes ≠ [])
    (order order' : HashOrder String) :
    dag.finalStageId order = dag.finalStageId order' ↔
      dag.shuffledReduces order = dag.shuffledReduces order' := by
  have hperm := dag.orderedNodes_perm order order'
  have hlen := hperm.length_eq
  have hcount := hperm.countP_eq fun n => n.operator.isReduceByKey
  have hinj := dag.length_injectLocalShuffle (dag.orderedNodes order)
  have hinj' := dag.length_injectLocalShuffle (dag.orderedNodes order')
  have hpos := List.length_pos_iff.mpr (injectLocalShuffle_ne_nil h order)
  have hpos' := List.length_pos_iff.mpr (injectLocalShuffle_ne_nil h order')
  unfold finalStageId shuffledReduces
  omega

/-- Two iteration orders give the same task ids exactly when there is no task or
the pipelines are equally long. -/
theorem taskIds_eq_iff {jobId : Uuid} (hinj : Function.Injective (newV5 jobId))
    (order order' : HashOrder String) (dag : DagSpecification) :
    (∀ id, id ∈ (dag.materializeTasks newV5 order jobId).map Task.taskId ↔
        id ∈ (dag.materializeTasks newV5 order' jobId).map Task.taskId) ↔
      dag.partitions = 0 ∨ dag.readSource = none ∨
        dag.shuffledReduces order = dag.shuffledReduces order' := by
  simp only [materializeTasks_taskId]
  cases hread : dag.readSource with
  | none => simp
  | some source =>
      have hstage := finalStageId_eq_iff (nodes_ne_nil hread) order order'
      simp only [Option.isSome_some, if_true, reduceCtorEq, false_or, ← hstage]
      constructor
      · intro h
        rcases Nat.eq_zero_or_pos dag.partitions with hzero | hpos
        · exact Or.inl hzero
        · obtain ⟨p, -, hp⟩ := List.mem_map.mp ((h _).mp
            (List.mem_map_of_mem (List.mem_range.mpr hpos)))
          exact Or.inr (stableIdInput_inj (hinj hp)).1.symm
      · rintro (hzero | hsame) id
        · simp [hzero]
        · rw [hsame]

end
end DagSpecification
end ProcessingEngine

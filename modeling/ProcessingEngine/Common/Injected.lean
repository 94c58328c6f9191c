import ProcessingEngine.Common.Topological

/-!
# Injected shuffles and stages

The edges of a task are those of the specification, by the ids of its nodes.  An
injected shuffle has a new id, so no edge leads to it or away from it: it is never
on the way from the parents of its node to the node
(`DagSpecification.injected_bypassed`).  It counts as a stage of the task, though,
and `to_stages` does not know of it: the two agree on the last stage exactly when
nothing is injected (`DagSpecification.stageIds_agree_iff`).
-/

namespace ProcessingEngine

open Lib Text

namespace DagSpecification

variable {dag : DagSpecification} {Uuid : Type} {newV5 : Uuid → String → Uuid}
  {order : HashOrder String} {jobId : Uuid} {task : Task Uuid}

/-! ### The edges of an injected shuffle -/

/-- The operator `i` of the task stands between the parents of `node` and the
operator behind it: its edges come from the parents, and the only edge into the
next operator comes from it. -/
structure OnPath (dag : DagSpecification) (node : DagNode) (task : Task Uuid) (i : Nat) :
    Prop where
  into : ∀ text, text ∈ task.incomingEdges[i]?.getD [] ↔
    ∃ e ∈ dag.edgesInto node.id, text = edgeText ⟨e.source, shuffleId node.id⟩
  out : task.incomingEdges[i + 1]? = some [edgeText ⟨shuffleId node.id, node.id⟩]

theorem source_of_edgeText {e e' : DagEdge} (htarget : e.target = e'.target)
    (h : edgeText e = edgeText e') : e.source = e'.source := by
  have hlist := congrArg String.toList h
  simp only [edgeText, String.toList_append, htarget] at hlist
  exact String.toList_inj.mp (List.append_cancel_right (List.append_cancel_right hlist))

theorem incomingEdges_getElem? (htask : task ∈ dag.materializeTasks newV5 order jobId) {i : Nat}
    {id : String} (hid : task.operatorIds[i]? = some id) :
    task.incomingEdges[i]? = some (dag.incomingEdges id) := by
  rw [(task_nodes htask).2.2.1, List.getElem?_map, hid]
  rfl

/-- The injected shuffle of a node is not on the path of its records. -/
theorem injected_bypassed (hacyclic : dag.Acyclic)
    (htask : task ∈ dag.materializeTasks newV5 order jobId) {node : DagNode} {i : Nat}
    (hshuffle : task.operatorIds[i]? = some (shuffleId node.id))
    (hnode : task.operatorIds[i + 1]? = some node.id) : ¬ dag.OnPath node task i := by
  intro h
  have hout := h.out
  rw [incomingEdges_getElem? htask hnode] at hout
  obtain ⟨e, hinto, htext⟩ := List.map_eq_singleton_iff.mp (Option.some.inj hout)
  have he : e ∈ dag.edgesInto node.id := by
    rw [edgesInto, hinto]
    exact List.mem_singleton_self e
  have hsource : e.source = shuffleId node.id :=
    source_of_edgeText (mem_edgesInto.mp he).2 htext
  -- the edge into the node comes from the shuffle, so the shuffle is its own parent
  have hself := (h.into _).mpr ⟨e, he, rfl⟩
  rw [incomingEdges_getElem? htask hshuffle, hsource] at hself
  obtain ⟨loop, hloop, hlooptext⟩ := List.mem_map.mp hself
  have hloop := mem_edgesInto.mp hloop
  have hsame : loop.source = shuffleId node.id := source_of_edgeText hloop.2 hlooptext
  have hedge := mem_edgePairs hloop.1
  rw [hloop.2, hsame] at hedge
  exact hacyclic _ (.single hedge)

/-- A source and a sum by key. -/
def totals : DagSpecification where
  nodes := [⟨"read", .read "in.csv" "csv"⟩, ⟨"sum", .reduceByKey "k" "sum"⟩]
  edges := [⟨"read", "sum"⟩]
  partitions := 2

theorem injected_bypassed_totals :
    totals.taskList.length = 2 ∧
      ∀ task ∈ totals.taskList, ¬ totals.OnPath ⟨"sum", .reduceByKey "k" "sum"⟩ task 1 := by
  refine ⟨by decide, fun task htask => ?_⟩
  have hacyclic : totals.Acyclic :=
    acyclic_of_rank (fun id => if id = "sum" then 1 else 0) (by decide)
  have hids : ∀ task ∈ totals.taskList,
      task.operatorIds[1]? = some (shuffleId "sum") ∧ task.operatorIds[2]? = some "sum" := by decide
  exact injected_bypassed hacyclic htask (hids task htask).1 (hids task htask).2

/-- The shuffle has no edges, and the sum is fed by the source. -/
theorem totals_edges :
    totals.validate = .ok () ∧
      totals.taskList.map (fun task => (task.operatorIds, task.incomingEdges)) =
        List.replicate 2 (["read", "__shuffle_sum__", "sum"], [[], [], ["read->sum"]]) ∧
      ∃ task ∈ totals.taskList, ¬ totals.OnPath ⟨"sum", .reduceByKey "k" "sum"⟩ task 1 := by
  have hedges : ∃ task ∈ totals.taskList, task.incomingEdges[2]? = some ["read->sum"] := by decide
  obtain ⟨task, htask, hedge⟩ := hedges
  refine ⟨rfl, by decide, task, htask, fun h => ?_⟩
  have hout := hedge.symm.trans h.out
  exact absurd hout (by decide)

/-! ### Stages -/

/-- A `ReduceByKey` node that does not follow a shuffle by its key. -/
def lacksShuffle (prev : Option DagNode) (node : DagNode) : Bool :=
  match node.operator with
  | .reduceByKey key _ => !hasShuffleBefore prev key
  | _ => false

/-- Every `ReduceByKey` node directly follows a shuffle by its key. -/
def preshuffled : Option DagNode → List DagNode → Bool
  | _, [] => true
  | prev, node :: nodes => !lacksShuffle prev node && preshuffled (some node) nodes

theorem length_injected (dag : DagSpecification) (prev : Option DagNode) (node : DagNode) :
    (dag.injected prev node).length = if lacksShuffle prev node then 1 else 0 := by
  unfold injected lacksShuffle
  cases node.operator with
  | reduceByKey key op =>
      by_cases hbefore : hasShuffleBefore prev key = true
      · simp [hbefore]
      · simp [hbefore]
  | _ => rfl

theorem length_injectAfter_eq_iff (prev : Option DagNode) (nodes : List DagNode) :
    (dag.injectAfter prev nodes).length = nodes.length ↔ preshuffled prev nodes = true := by
  have hle : ∀ (nodes : List DagNode) (prev : Option DagNode),
      nodes.length ≤ (dag.injectAfter prev nodes).length := by
    intro nodes
    induction nodes with
    | nil => exact fun _ => Nat.zero_le _
    | cons node nodes ih =>
        intro prev
        have hrest := ih (some node)
        rw [injectAfter, List.length_append, List.length_cons, List.length_cons]
        omega
  induction nodes generalizing prev with
  | nil => exact iff_of_true rfl rfl
  | cons node nodes ih =>
      have hrest := hle nodes (some node)
      have hnode := dag.length_injected prev node
      have ih := ih (some node)
      rw [injectAfter, List.length_append, List.length_cons, List.length_cons, preshuffled, hnode]
      cases lacksShuffle prev node with
      | true =>
          refine iff_of_false ?_ (by simp)
          rw [if_pos rfl]
          omega
      | false =>
          rw [if_neg Bool.false_ne_true, Bool.not_false, Bool.true_and]
          refine Iff.trans ?_ ih
          omega

/-- Stages are numbered in order. -/
theorem map_stageId (dag : DagSpecification) (order : HashOrder String) :
    (dag.toStages order).map Stage.stageId = List.range (dag.orderedNodes order).length := by
  refine List.ext_getElem (by simp [toStages]) fun i hi hi' => ?_
  rw [List.getElem_map, List.getElem_range]
  simp [toStages]

theorem getLast?_toStages {order : HashOrder String} (h : dag.orderedNodes order ≠ []) :
    (dag.toStages order).getLast?.map Stage.stageId =
      some ((dag.orderedNodes order).length - 1) := by
  have hpos := List.length_pos_iff.mpr h
  rw [← List.getLast?_map, map_stageId, List.getLast?_range, if_neg (by omega)]

theorem finalStageId_eq (htask : task ∈ dag.materializeTasks newV5 order jobId) :
    task.stageId = (dag.injectAfter none (dag.orderedNodes order)).length - 1 := by
  unfold materializeTasks at htask
  split at htask
  · cases htask
  · dsimp only at htask
    split_ifs at htask
    · cases htask
    · obtain ⟨partition, -, rfl⟩ := List.mem_map.mp htask
      show (List.map DagNode.operator _).length - 1 = _
      rw [List.length_map, injectLocalShuffle_eq]

/-- All tasks are of the last stage exactly when no shuffle is injected. -/
theorem stageIds_agree_iff (stagesOrder : HashOrder String)
    (htasks : dag.materializeTasks newV5 order jobId ≠ []) :
    (∀ task ∈ dag.materializeTasks newV5 order jobId,
      (dag.toStages stagesOrder).getLast?.map Stage.stageId = some task.stageId) ↔
        preshuffled none (dag.orderedNodes order) = true := by
  obtain ⟨task, htask⟩ := List.exists_mem_of_ne_nil _ htasks
  have hnodes : dag.nodes ≠ [] := by
    intro hnil
    rw [materializeTasks, readSource, hnil] at htask
    cases htask
  have hpos := List.length_pos_iff.mpr (orderedNodes_ne_nil hnodes order)
  have hlen := (dag.orderedNodes_perm order stagesOrder).length_eq
  have hinjected : (dag.orderedNodes order).length ≤
      (dag.injectAfter none (dag.orderedNodes order)).length := by
    rw [← injectLocalShuffle_eq]
    exact dag.length_le_injectLocalShuffle _
  rw [getLast?_toStages (orderedNodes_ne_nil hnodes stagesOrder), ← hlen,
    ← dag.length_injectAfter_eq_iff]
  constructor
  · intro h
    have hsame := Option.some.inj (h task htask)
    rw [finalStageId_eq htask] at hsame
    omega
  · intro h task htask
    rw [finalStageId_eq htask, h]

end DagSpecification
end ProcessingEngine

import ProcessingEngine.Common.Dag
import ProcessingEngine.Common.Text

/-!
# The order of an acyclic specification

On an acyclic specification the topological sort lists every node once, after
the sources of the edges into it, whatever the iteration order of the hash map.
The injected shuffles stand directly before the node they are for, and no edge
leads to them.
-/

namespace ProcessingEngine

open Lib Text

namespace Text

/-- The text is its own part before the first arrow when there is no arrow. -/
theorem untilArrow_eq_self_iff (cs : List Char) :
    untilArrow cs = cs ↔ ¬ ['-', '>'] <:+: cs := by
  fun_induction untilArrow cs with
  | case1 cs =>
      refine iff_of_false (by simp) fun h => h ?_
      exact (List.prefix_append ['-', '>'] cs).isInfix
  | case2 c cs hc ih =>
      have hpre : ¬ ['-', '>'] <+: c :: cs := by
        intro hpre
        obtain ⟨tail, htail⟩ := hpre
        simp only [List.cons_append, List.nil_append, List.cons.injEq] at htail
        exact hc tail htail.1.symm htail.2.symm
      rw [List.cons.injEq, List.infix_cons_iff, not_or]
      exact ⟨fun h => ⟨hpre, ih.mp h.2⟩, fun h => ⟨rfl, ih.mpr h.2⟩⟩
  | case3 => simp

end Text

namespace DagSpecification

/-! ### Graphs -/

def Acyclic (dag : DagSpecification) : Prop := Lib.Acyclic (edgePairs dag.edges)

/-- The endpoints of the edges are nodes. -/
def Declared (dag : DagSpecification) : Prop :=
  ∀ e ∈ dag.edges, e.source ∈ dag.nodes.map DagNode.id ∧ e.target ∈ dag.nodes.map DagNode.id

instance decidableDeclared (dag : DagSpecification) : Decidable dag.Declared :=
  inferInstanceAs (Decidable (∀ e ∈ dag.edges,
    e.source ∈ dag.nodes.map DagNode.id ∧ e.target ∈ dag.nodes.map DagNode.id))

def UniqueIds (dag : DagSpecification) : Prop := (dag.nodes.map DagNode.id).Nodup

instance decidableUniqueIds (dag : DagSpecification) : Decidable dag.UniqueIds :=
  inferInstanceAs (Decidable (dag.nodes.map DagNode.id).Nodup)

/-- The id of the shuffle that is injected for a node. -/
def shuffleId (id : String) : String := "__shuffle_" ++ id ++ "__"

/-- An id without an arrow that is not the id of an injected shuffle. -/
structure PlainId (id : String) : Prop where
  arrow : ¬ ['-', '>'] <:+: id.toList
  injected : ∀ x, id ≠ shuffleId x

def edgesInto (dag : DagSpecification) (id : String) : List DagEdge :=
  dag.edges.filter fun e => e.target == id

variable {dag : DagSpecification}

theorem mem_edgesInto {id : String} {e : DagEdge} :
    e ∈ dag.edgesInto id ↔ e ∈ dag.edges ∧ e.target = id := by
  rw [edgesInto, List.mem_filter, beq_iff_eq]

theorem mem_edgePairs {edges : List DagEdge} {e : DagEdge} (h : e ∈ edges) :
    (e.source, e.target) ∈ edgePairs edges :=
  List.mem_map_of_mem h

theorem exists_of_mem_edgePairs {edges : List DagEdge} {p : String × String}
    (h : p ∈ edgePairs edges) : ∃ e ∈ edges, e.source = p.1 ∧ e.target = p.2 := by
  obtain ⟨e, he, rfl⟩ := List.mem_map.mp h
  exact ⟨e, he, rfl, rfl⟩

theorem find?_of_mem (hids : dag.UniqueIds) {n : DagNode} (hn : n ∈ dag.nodes) :
    (dag.nodes.find? fun m => m.id == n.id) = some n := by
  have hsome : (dag.nodes.find? fun m => m.id == n.id).isSome :=
    List.find?_isSome.mpr ⟨n, hn, by simp⟩
  obtain ⟨m, hm⟩ := Option.isSome_iff_exists.mp hsome
  have hid : m.id = n.id := by simpa using List.find?_some hm
  rw [hm, List.inj_on_of_nodup_map hids (List.mem_of_find?_eq_some hm) hn hid]

/-! ### The topological order -/

/-- There is a counter for each node and for each target of an edge. -/
theorem mem_incomingCounts {id : String} :
    id ∈ dag.incomingCounts ↔
      id ∈ dag.nodes.map DagNode.id ∨ id ∈ dag.edges.map DagEdge.target := by
  have hnodes : ∀ (nodes : List DagNode) (m : HashMap String Nat),
      id ∈ nodes.foldl (fun m n => m.insert n.id 0) m ↔ id ∈ m ∨ id ∈ nodes.map DagNode.id := by
    intro nodes
    induction nodes with
    | nil => simp
    | cons n nodes ih =>
        intro m
        rw [List.foldl_cons, ih, AList.mem_insert, List.map_cons, List.mem_cons]
        tauto
  have hedges : ∀ (edges : List DagEdge) (m : HashMap String Nat),
      id ∈ edges.foldl (fun m e => m.insert e.target ((m.lookup e.target).getD 0 + 1)) m ↔
        id ∈ m ∨ id ∈ edges.map DagEdge.target := by
    intro edges
    induction edges with
    | nil => simp
    | cons e edges ih =>
        intro m
        rw [List.foldl_cons, ih, AList.mem_insert, List.map_cons, List.mem_cons]
        tauto
  rw [incomingCounts, hedges, hnodes]
  simp

theorem incomingCounts_keys (hdeclared : dag.Declared) (id : String) :
    id ∈ dag.incomingCounts.keys ↔ id ∈ dag.nodes.map DagNode.id := by
  rw [← AList.mem_keys, mem_incomingCounts]
  constructor
  · intro h
    rcases h with h | h
    · exact h
    · obtain ⟨e, he, rfl⟩ := List.mem_map.mp h
      exact (hdeclared e he).2
  · exact Or.inl

theorem appendMissing_of_subset {nodes : List DagNode} {ids : List String}
    (h : ∀ n ∈ nodes, n.id ∈ ids) : appendMissing nodes ids = ids := by
  induction nodes with
  | nil => rfl
  | cons n nodes ih =>
      show appendMissing nodes (if n.id ∈ ids then ids else ids ++ [n.id]) = ids
      rw [if_pos (h n List.mem_cons_self)]
      exact ih fun m hm => h m (List.mem_cons_of_mem n hm)

/-- The ids that the loop of the sort starts from. -/
def startQueue (dag : DagSpecification) (order : HashOrder String) : List String :=
  (order.keys dag.incomingCounts.keys).filter fun id => dag.incomingCounts.lookup id == some 0

theorem mem_startQueue (order : HashOrder String) {v : String}
    (hv : dag.incomingCounts.lookup v = some 0) : v ∈ dag.startQueue order := by
  have hkey : v ∈ dag.incomingCounts.keys :=
    AList.mem_keys.mp (AList.lookup_isSome.mp (by rw [hv]; rfl))
  exact List.mem_filter.mpr ⟨(order.perm _).mem_iff.mpr hkey, by rw [hv]; rfl⟩

/-- The sort reaches all nodes, each after the sources of its edges. -/
theorem orderedIds_sorted (hacyclic : dag.Acyclic) (hdeclared : dag.Declared)
    (order : HashOrder String) : Sorted (edgePairs dag.edges) (dag.orderedIds order) := by
  have hsources : ∀ e ∈ edgePairs dag.edges, e.1 ∈ dag.incomingCounts.keys := by
    intro e he
    obtain ⟨edge, hedge, hsource, -⟩ := exists_of_mem_edgePairs he
    rw [incomingCounts_keys hdeclared, ← hsource]
    exact (hdeclared edge hedge).1
  have hall := (dag.released_init order).traverse_complete dag.outgoing_eq_targets
    (Nat.lt_succ_self _) hacyclic hsources fun v hv => mem_startQueue order hv
  have hsorted := (dag.released_init order).traverse_sorted dag.outgoing_eq_targets
    (dag.incomingCounts.keys.length + 1) fun v hv => mem_startQueue order hv
  have hnodes : ∀ n ∈ dag.nodes, n.id ∈ (traverse dag.outgoingTargets
      (dag.incomingCounts.keys.length + 1) dag.incomingCounts (dag.startQueue order) []).2 :=
    fun n hn => hall n.id ((incomingCounts_keys hdeclared n.id).mpr (List.mem_map_of_mem hn))
  rw [orderedIds]
  show Sorted _ (appendMissing dag.nodes (traverse dag.outgoingTargets
    (dag.incomingCounts.keys.length + 1) dag.incomingCounts (dag.startQueue order) []).2)
  rw [appendMissing_of_subset hnodes]
  exact hsorted

theorem mem_orderedIds_iff (hdeclared : dag.Declared) {order : HashOrder String} {id : String} :
    id ∈ dag.orderedIds order ↔ id ∈ dag.nodes.map DagNode.id := by
  rw [orderedIds, mem_appendMissing]
  constructor
  · intro h
    rcases h with h | ⟨n, hn, rfl⟩
    · have hkey := ((dag.released_init order).traverse dag.outgoing_eq_targets).2 id h
      exact (incomingCounts_keys hdeclared id).mp hkey
    · exact List.mem_map_of_mem hn
  · intro h
    obtain ⟨n, hn, rfl⟩ := List.mem_map.mp h
    exact Or.inr ⟨n, hn, rfl⟩

/-- What the order of the nodes is like on an acyclic specification. -/
structure Ordered (dag : DagSpecification) (nodes : List DagNode) : Prop where
  perm : nodes.Perm dag.nodes
  sorted : ∀ pre n rest, nodes = pre ++ n :: rest → ∀ e ∈ dag.edges, e.target = n.id →
    e.source ∈ pre.map DagNode.id

/-- The ids of the nodes in order are the sorted ids of nodes. -/
theorem orderedNodes_ids (hedges : dag.edges ≠ []) (order : HashOrder String) :
    (dag.orderedNodes order).map DagNode.id =
      (dag.orderedIds order).filter (· ∈ dag.nodes.map DagNode.id) := by
  have hempty : dag.edges.isEmpty = false := by simpa using hedges
  rw [orderedNodes, hempty, if_neg Bool.false_ne_true]
  generalize dag.orderedIds order = ids
  induction ids with
  | nil => rfl
  | cons id ids ih =>
      cases hfind : dag.nodes.find? fun n => n.id == id with
      | none =>
          have hnot : id ∉ dag.nodes.map DagNode.id := by
            intro hmem
            obtain ⟨n, hn, hid⟩ := List.mem_map.mp hmem
            exact List.find?_eq_none.mp hfind n hn (beq_iff_eq.mpr hid)
          rw [List.filterMap_cons, hfind, List.filter_cons, if_neg (by simpa using hnot)]
          exact ih
      | some n =>
          have hid : n.id = id := by simpa using List.find?_some hfind
          have hmem : id ∈ dag.nodes.map DagNode.id :=
            List.mem_map.mpr ⟨n, List.mem_of_find?_eq_some hfind, hid⟩
          rw [List.filterMap_cons, hfind, List.filter_cons, if_pos (decide_eq_true hmem)]
          exact congrArg₂ List.cons hid ih

/-- Every node is listed once, whatever the edges are. -/
theorem orderedNodes_perm_nodes (hids : dag.UniqueIds) (order : HashOrder String) :
    (dag.orderedNodes order).Perm dag.nodes := by
  by_cases hedges : dag.edges = []
  · rw [orderedNodes, if_pos (List.isEmpty_iff.mpr hedges)]
  · have hnodup := (dag.orderedIds_nodup order).filter (· ∈ dag.nodes.map DagNode.id)
    rw [← orderedNodes_ids hedges] at hnodup
    refine (List.perm_ext_iff_of_nodup hnodup.of_map hids.of_map).mpr fun n => ?_
    rw [orderedNodes, if_neg (by simpa using hedges), List.mem_filterMap]
    constructor
    · intro hn
      obtain ⟨id, -, hid⟩ := hn
      exact List.mem_of_find?_eq_some hid
    · intro hn
      exact ⟨n.id, mem_orderedIds hn, find?_of_mem hids hn⟩

theorem orderedNodes_ordered (hacyclic : dag.Acyclic) (hdeclared : dag.Declared)
    (hids : dag.UniqueIds) (order : HashOrder String) : dag.Ordered (dag.orderedNodes order) := by
  refine ⟨orderedNodes_perm_nodes hids order, fun pre n rest heq e he htarget => ?_⟩
  have hall : (dag.orderedNodes order).map DagNode.id = dag.orderedIds order := by
    rw [orderedNodes_ids (List.ne_nil_of_mem he)]
    exact List.filter_eq_self.mpr fun id hid =>
      decide_eq_true ((mem_orderedIds_iff hdeclared).mp hid)
  rw [heq, List.map_append, List.map_cons] at hall
  exact orderedIds_sorted hacyclic hdeclared order _ _ _ hall.symm _ (mem_edgePairs he) htarget

/-! ### The injected shuffles -/

/-- The shuffle that is injected before a node which follows `prev`. -/
def injected (dag : DagSpecification) (prev : Option DagNode) (node : DagNode) : List DagNode :=
  match node.operator with
  | .reduceByKey key _ =>
      if hasShuffleBefore prev key then []
      else [⟨shuffleId node.id, .shuffleByKey key dag.partitions⟩]
  | _ => []

/-- The nodes with their shuffles. -/
def injectAfter (dag : DagSpecification) : Option DagNode → List DagNode → List DagNode
  | _, [] => []
  | prev, node :: nodes => dag.injected prev node ++ node :: injectAfter dag (some node) nodes

theorem injectNode_eq (dag : DagSpecification) (out : List DagNode) (node : DagNode) :
    dag.injectNode out node = out ++ dag.injected out.getLast? node ++ [node] := by
  unfold injectNode injected
  cases node.operator with
  | reduceByKey key op =>
      dsimp only
      split_ifs
      · simp
      · rfl
  | _ => simp

theorem injectLocalShuffle_eq (dag : DagSpecification) (nodes : List DagNode) :
    dag.injectLocalShuffle nodes = dag.injectAfter none nodes := by
  have hfold : ∀ (nodes out : List DagNode),
      nodes.foldl dag.injectNode out = out ++ dag.injectAfter out.getLast? nodes := by
    intro nodes
    induction nodes with
    | nil => simp [injectAfter]
    | cons node nodes ih =>
        intro out
        have hlast : (dag.injectNode out node).getLast? = some node := by
          rw [injectNode_eq, List.getLast?_concat]
        rw [List.foldl_cons, ih, hlast, injectNode_eq, injectAfter]
        simp
  exact hfold nodes []

theorem mem_injected {prev : Option DagNode} {node m : DagNode} (h : m ∈ dag.injected prev node) :
    ∃ key, m = ⟨shuffleId node.id, .shuffleByKey key dag.partitions⟩ ∧
      dag.injected prev node = [m] := by
  unfold injected at h ⊢
  cases hop : node.operator with
  | reduceByKey key op =>
      rw [hop] at h
      dsimp only at h ⊢
      split_ifs at h ⊢ with hbefore
      · cases h
      · obtain rfl := List.mem_singleton.mp h
        exact ⟨key, rfl, rfl⟩
  | _ =>
      rw [hop] at h
      cases h

theorem isReduceByKey_of_mem_injected {prev : Option DagNode} {node m : DagNode}
    (h : m ∈ dag.injected prev node) : node.operator.isReduceByKey = true := by
  unfold injected at h
  cases hop : node.operator with
  | reduceByKey key op => rfl
  | _ =>
      rw [hop] at h
      cases h

theorem shuffleId_injective : Function.Injective shuffleId := by
  intro a b h
  have hlist := congrArg String.toList h
  simp only [shuffleId, String.toList_append, List.append_assoc] at hlist
  have htail := List.append_cancel_left hlist
  exact String.toList_inj.mp (List.append_cancel_right htail)

theorem mem_injectAfter {prev : Option DagNode} {nodes : List DagNode} {m : DagNode}
    (h : m ∈ dag.injectAfter prev nodes) :
    m ∈ nodes ∨ ∃ n ∈ nodes, n.operator.isReduceByKey = true ∧ m.id = shuffleId n.id := by
  induction nodes generalizing prev with
  | nil => cases h
  | cons node nodes ih =>
      rw [injectAfter, List.mem_append, List.mem_cons] at h
      rcases h with h | rfl | h
      · have hreduces := isReduceByKey_of_mem_injected h
        obtain ⟨key, rfl, -⟩ := mem_injected h
        exact Or.inr ⟨node, List.mem_cons_self, hreduces, rfl⟩
      · exact Or.inl List.mem_cons_self
      · rcases ih h with h | ⟨n, hn, hreduces, hid⟩
        · exact Or.inl (List.mem_cons_of_mem node h)
        · exact Or.inr ⟨n, List.mem_cons_of_mem node hn, hreduces, hid⟩

/-- Distinct plain ids stay distinct from each other and from the new ids. -/
theorem injectAfter_nodup {prev : Option DagNode} {nodes : List DagNode}
    (hnodup : (nodes.map DagNode.id).Nodup) (hplain : ∀ n ∈ nodes, PlainId n.id) :
    ((dag.injectAfter prev nodes).map DagNode.id).Nodup := by
  induction nodes generalizing prev with
  | nil => exact List.nodup_nil
  | cons node nodes ih =>
      rw [List.map_cons, List.nodup_cons] at hnodup
      have hplain' : ∀ n ∈ nodes, PlainId n.id := fun n hn =>
        hplain n (List.mem_cons_of_mem node hn)
      have hrest : ((dag.injectAfter (some node) nodes).map DagNode.id).Nodup :=
        ih hnodup.2 hplain'
      have hnode : node.id ∉ (dag.injectAfter (some node) nodes).map DagNode.id := by
        intro hmem
        obtain ⟨m, hm, hid⟩ := List.mem_map.mp hmem
        rcases mem_injectAfter hm with hm | ⟨n, -, -, hshuffle⟩
        · exact hnodup.1 (List.mem_map.mpr ⟨m, hm, hid⟩)
        · exact (hplain node List.mem_cons_self).injected n.id (hid.symm.trans hshuffle)
      have hcons : ((node :: dag.injectAfter (some node) nodes).map DagNode.id).Nodup :=
        List.nodup_cons.mpr ⟨hnode, hrest⟩
      have hshuffle : ∀ m ∈ node :: dag.injectAfter (some node) nodes,
          m.id ≠ shuffleId node.id := by
        intro m hm hid
        rcases List.mem_cons.mp hm with rfl | hm
        · exact (hplain m List.mem_cons_self).injected _ hid
        · rcases mem_injectAfter hm with hm | ⟨n, hn, -, hid'⟩
          · exact (hplain m (List.mem_cons_of_mem node hm)).injected _ hid
          · have hsame := shuffleId_injective (hid.symm.trans hid')
            exact hnodup.1 (List.mem_map.mpr ⟨n, hn, hsame.symm⟩)
      rw [injectAfter, List.map_append]
      refine List.Nodup.append ?_ hcons fun id hid hid' => ?_
      · rcases hlist : dag.injected prev node with _ | ⟨m, rest⟩
        · exact List.nodup_nil
        · have hmem : m ∈ dag.injected prev node := by
            rw [hlist]
            exact List.mem_cons_self
          obtain ⟨key, -, hone⟩ := mem_injected hmem
          rw [← hlist, hone]
          exact List.nodup_singleton _
      · obtain ⟨m, hm, rfl⟩ := List.mem_map.mp hid
        obtain ⟨m', hm', hsame⟩ := List.mem_map.mp hid'
        obtain ⟨key, rfl, -⟩ := mem_injected hm
        exact hshuffle m' hm' hsame

/-! ### Tasks and parents -/

/-- The operators of the tasks of a job. -/
theorem task_nodes {Uuid : Type} {newV5 : Uuid → String → Uuid} {order : HashOrder String}
    {jobId : Uuid} {task : Task Uuid} (h : task ∈ dag.materializeTasks newV5 order jobId) :
    task.operators = (dag.injectLocalShuffle (dag.orderedNodes order)).map DagNode.operator ∧
      task.operatorIds = (dag.injectLocalShuffle (dag.orderedNodes order)).map DagNode.id ∧
      task.incomingEdges = task.operatorIds.map dag.incomingEdges ∧ task.operators ≠ [] ∧
      task.totalPartitions = dag.partitions ∧ task.partition < dag.partitions := by
  unfold materializeTasks at h
  split at h
  · cases h
  · dsimp only at h
    split_ifs at h with hops
    · cases h
    · obtain ⟨partition, hp, rfl⟩ := List.mem_map.mp h
      refine ⟨rfl, rfl, rfl, ?_, rfl, List.mem_range.mp hp⟩
      simpa using hops

theorem beforeArrow_edgeText_eq_iff (e : DagEdge) :
    beforeArrow (edgeText e) = e.source ↔ ¬ "->".toList <:+: e.source.toList := by
  rw [← String.toList_inj, edgeText, toList_beforeArrow_edge]
  exact untilArrow_eq_self_iff _

theorem beforeArrow_edgeText {e : DagEdge} (h : ¬ ['-', '>'] <:+: e.source.toList) :
    beforeArrow (edgeText e) = e.source :=
  (beforeArrow_edgeText_eq_iff e).mpr h

/-- The text of an edge gives its source back when there is no arrow in it, and a
shorter beginning of it otherwise. -/
theorem edgeText_decodes (e : DagEdge) :
    (beforeArrow (edgeText e) = e.source ↔ ¬ "->".toList <:+: e.source.toList) ∧
      ("->".toList <:+: e.source.toList →
        (beforeArrow (edgeText e)).toList <+: e.source.toList ∧
          (beforeArrow (edgeText e)).length < e.source.length) := by
  have hpre : (beforeArrow (edgeText e)).toList <+: e.source.toList := by
    rw [edgeText, toList_beforeArrow_edge]
    exact untilArrow_isPrefix _
  refine ⟨beforeArrow_edgeText_eq_iff e, fun harrow => ⟨hpre, ?_⟩⟩
  rw [← String.length_toList, ← String.length_toList]
  apply Nat.lt_of_le_of_ne hpre.length_le
  intro hlen
  have hsame := String.toList_inj.mp (hpre.eq_of_length hlen)
  exact (beforeArrow_edgeText_eq_iff e).mp hsame harrow

example : beforeArrow (edgeText ⟨"a-", ">b"⟩) = "a-" := by decide

end DagSpecification
end ProcessingEngine

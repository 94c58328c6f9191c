import ProcessingEngine.Common.Order

/-!
# The order of any specification

`ordered_nodes` lists every node once for every graph: the nodes that the sort
does not reach are appended.  A node with nothing doubtful above it comes after
the sources of its edges (`DagSpecification.orderedNodes_topological`).  So the
operators of a task have their parents before them exactly when the specification
has neither a cycle of nodes nor an edge into a node from an undeclared id
(`DagSpecification.placed_iff`), which `validate` does not check.
-/

namespace ProcessingEngine

open Lib Text

namespace DagSpecification

variable {dag : DagSpecification}

/-- Nothing that reaches the id, nor the id itself, is on a cycle, and what
reaches it is declared or has edges into it. -/
structure Grounded (dag : DagSpecification) (id : String) : Prop where
  cycles : ∀ a, Reaches (edgePairs dag.edges) a id → ¬ OnCycle (edgePairs dag.edges) a
  sources : ∀ a, Relation.TransGen (fun a b => (a, b) ∈ edgePairs dag.edges) a id →
    a ∈ dag.nodes.map DagNode.id ∨ a ∈ dag.edges.map DagEdge.target

theorem appendMissing_extends (nodes : List DagNode) (ids : List String) :
    ids <+: appendMissing nodes ids := by
  induction nodes generalizing ids with
  | nil => exact List.prefix_rfl
  | cons node nodes ih =>
      have hstep : ids <+: if node.id ∈ ids then ids else ids ++ [node.id] := by
        split_ifs
        · exact List.prefix_rfl
        · exact List.prefix_append _ _
      exact hstep.trans (ih _)

/-- The loop of the sort ends with an empty queue. -/
theorem startQueue_empties (dag : DagSpecification) (order : HashOrder String) {fuel : Nat}
    (hfuel : dag.incomingCounts.keys.length < fuel) :
    (traverse dag.outgoingTargets fuel dag.incomingCounts (dag.startQueue order) []).1 = [] :=
  (dag.released_init order).traverse_queue dag.outgoing_eq_targets hfuel

/-- In the order, the source of an edge into a grounded node comes before it. -/
theorem orderedIds_sublist (order : HashOrder String) {e : DagEdge} (he : e ∈ dag.edges)
    (hgrounded : dag.Grounded e.target) :
    [e.source, e.target].Sublist (dag.orderedIds order) := by
  have hedge := mem_edgePairs he
  have hkeys : ∀ a, Reaches (edgePairs dag.edges) a e.target → a ∈ dag.incomingCounts.keys := by
    intro a ha
    rw [← AList.mem_keys, mem_incomingCounts]
    rcases Relation.reflTransGen_iff_eq_or_transGen.mp ha with heq | htrans
    · exact Or.inr (List.mem_map.mpr ⟨e, he, heq⟩)
    · exact hgrounded.sources a htrans
  have hqueued : ∀ v, dag.incomingCounts.lookup v = some 0 → v ∈ dag.startQueue order :=
    fun v hv => mem_startQueue order hv
  have hdone := (dag.released_init order).mem_traverse dag.outgoing_eq_targets
    (Nat.lt_succ_self _) hqueued hgrounded.cycles hkeys
  have hsorted := (dag.released_init order).traverse_sorted dag.outgoing_eq_targets
    (dag.incomingCounts.keys.length + 1) hqueued
  exact (hsorted.sublist hedge hdone).trans (appendMissing_extends _ _).sublist

theorem orderedNodes_sublist (order : HashOrder String) {e : DagEdge} (he : e ∈ dag.edges)
    (hsource : e.source ∈ dag.nodes.map DagNode.id) (htarget : e.target ∈ dag.nodes.map DagNode.id)
    (hgrounded : dag.Grounded e.target) :
    [e.source, e.target].Sublist ((dag.orderedNodes order).map DagNode.id) := by
  rw [orderedNodes_ids (List.ne_nil_of_mem he)]
  have hsub := (orderedIds_sublist order he hgrounded).filter (· ∈ dag.nodes.map DagNode.id)
  rw [List.filter_eq_self.mpr] at hsub
  · exact hsub
  · intro id hid
    rcases List.mem_pair.mp hid with rfl | rfl
    · exact decide_eq_true hsource
    · exact decide_eq_true htarget

/-- For every graph and every iteration order of the hash map, the loop ends,
every node is listed once, and an edge between nodes of which the target is
grounded leads forward. -/
theorem orderedNodes_topological (hids : dag.UniqueIds) (order : HashOrder String) :
    (∀ fuel, dag.incomingCounts.keys.length < fuel →
      (traverse dag.outgoingTargets fuel dag.incomingCounts (dag.startQueue order) []).1 = []) ∧
      (dag.orderedNodes order).Perm dag.nodes ∧
      ∀ e ∈ dag.edges, e.source ∈ dag.nodes.map DagNode.id →
        e.target ∈ dag.nodes.map DagNode.id → dag.Grounded e.target →
        [e.source, e.target].Sublist ((dag.orderedNodes order).map DagNode.id) :=
  ⟨fun _ hfuel => startQueue_empties dag order hfuel, orderedNodes_perm_nodes hids order,
    fun _ he hsource htarget hgrounded =>
      orderedNodes_sublist order he hsource htarget hgrounded⟩

/-- Repeated edges, a cycle, a self-loop and undeclared endpoints. -/
def tangled : DagSpecification where
  nodes := [⟨"map", .map "uppercase"⟩, ⟨"x", .identity⟩, ⟨"read", .read "in.csv" "csv"⟩,
    ⟨"y", .identity⟩]
  edges := [⟨"read", "map"⟩, ⟨"x", "y"⟩, ⟨"read", "map"⟩, ⟨"y", "x"⟩, ⟨"y", "y"⟩, ⟨"lost", "x"⟩,
    ⟨"map", "gone"⟩]
  partitions := 1

theorem tangled_grounded : tangled.Grounded "map" := by
  have hinto : ∀ p ∈ edgePairs tangled.edges, p.2 ≠ "read" ∧ (p.2 = "map" → p.1 = "read") := by
    decide
  have habove : ∀ a, Reaches (edgePairs tangled.edges) a "map" → a = "map" ∨ a = "read" := by
    intro a ha
    induction ha using Relation.ReflTransGen.head_induction_on with
    | refl => exact Or.inl rfl
    | head hstep _ ih =>
        rcases ih with rfl | rfl
        · exact Or.inr ((hinto _ hstep).2 rfl)
        · exact absurd rfl (hinto _ hstep).1
  constructor
  · intro a ha hcycle
    obtain ⟨b, hb, hstep⟩ := Relation.TransGen.tail'_iff.mp hcycle
    have hread : ¬ OnCycle (edgePairs tangled.edges) "read" := by
      intro hcycle
      obtain ⟨c, -, hstep⟩ := Relation.TransGen.tail'_iff.mp hcycle
      exact (hinto _ hstep).1 rfl
    rcases habove a ha with rfl | rfl
    · obtain rfl := (hinto _ hstep).2 rfl
      rcases Relation.reflTransGen_iff_eq_or_transGen.mp hb with heq | htrans
      · exact absurd heq (by decide)
      · obtain ⟨c, -, hstep⟩ := Relation.TransGen.tail'_iff.mp htrans
        exact (hinto _ hstep).1 rfl
    · exact hread hcycle
  · intro a ha
    rcases habove a ha.to_reflTransGen with rfl | rfl
    · exact Or.inl (by decide)
    · exact Or.inl (by decide)

theorem orderedNodes_topological_tangled :
    (tangled.orderedNodes .insertion).Perm tangled.nodes ∧
      ["read", "map"].Sublist ((tangled.orderedNodes .insertion).map DagNode.id) := by
  obtain ⟨-, hperm, hedges⟩ := @orderedNodes_topological tangled (by decide) .insertion
  exact ⟨hperm, hedges ⟨"read", "map"⟩ (by decide) (by decide) (by decide) tangled_grounded⟩

/-! ### Parents before their children -/

/-- What is listed before an element stands before its last position. -/
theorem mem_of_sublist_pair {α : Type} {pre rest : List α} {u v : α} (hlast : v ∉ rest)
    (hsub : [u, v].Sublist (pre ++ v :: rest)) : u ∈ pre := by
  obtain ⟨front, back, heq, hfront, hback⟩ := List.sublist_append_iff.mp hsub
  cases front with
  | cons a front =>
      rw [List.cons_append, List.cons.injEq] at heq
      exact heq.1 ▸ hfront.subset List.mem_cons_self
  | nil =>
      obtain rfl : [u, v] = back := heq
      have htail : [v].Sublist rest := by
        cases hback with
        | cons _ h => exact (List.sublist_cons_self u [v]).trans h
        | cons_cons _ h => exact h
      exact absurd (List.singleton_sublist.mp htail) hlast

theorem mem_orderedNodes_ids (order : HashOrder String) {id : String} :
    id ∈ (dag.orderedNodes order).map DagNode.id ↔ id ∈ dag.nodes.map DagNode.id := by
  by_cases hedges : dag.edges = []
  · rw [orderedNodes, if_pos (List.isEmpty_iff.mpr hedges)]
  · rw [orderedNodes_ids hedges, List.mem_filter]
    refine ⟨fun h => of_decide_eq_true h.2, fun h => ⟨?_, decide_eq_true h⟩⟩
    obtain ⟨n, hn, rfl⟩ := List.mem_map.mp h
    exact mem_orderedIds hn

theorem subset_of_orderedNodes (order : HashOrder String) : dag.orderedNodes order ⊆ dag.nodes := by
  intro n hn
  unfold orderedNodes at hn
  split_ifs at hn
  · exact hn
  · obtain ⟨id, -, hfind⟩ := List.mem_filterMap.mp hn
    exact List.mem_of_find?_eq_some hfind

/-- Without the new ids, the ids are the old ones. -/
theorem injectAfter_filter {prev : Option DagNode} {nodes : List DagNode} {p : String → Bool}
    (hp : ∀ n ∈ nodes, n.operator.isReduceByKey = true → p (shuffleId n.id) = false) :
    ((dag.injectAfter prev nodes).map DagNode.id).filter p = (nodes.map DagNode.id).filter p := by
  induction nodes generalizing prev with
  | nil => rfl
  | cons node nodes ih =>
      rw [List.forall_mem_cons] at hp
      have hnew : ((dag.injected prev node).map DagNode.id).filter p = [] := by
        refine List.filter_eq_nil_iff.mpr fun id hid => ?_
        obtain ⟨m, hm, rfl⟩ := List.mem_map.mp hid
        have hreduces := isReduceByKey_of_mem_injected hm
        obtain ⟨key, rfl, -⟩ := mem_injected hm
        rw [hp.1 hreduces]
        exact Bool.false_ne_true
      rw [injectAfter, List.map_append, List.filter_append, hnew, List.nil_append, List.map_cons,
        List.map_cons, List.filter_cons, List.filter_cons, ih hp.2]

theorem sublist_injectAfter (dag : DagSpecification) (prev : Option DagNode)
    (nodes : List DagNode) : nodes.Sublist (dag.injectAfter prev nodes) := by
  induction nodes generalizing prev with
  | nil => exact List.nil_sublist _
  | cons node nodes ih =>
      rw [injectAfter]
      exact ((ih (some node)).cons_cons node).trans (List.sublist_append_right _ _)

/-- No edge leads to the id of an injected shuffle, or comes from one that is not declared. -/
def NamesApart (dag : DagSpecification) : Prop :=
  ∀ e ∈ dag.edges, ∀ n ∈ dag.nodes, n.operator.isReduceByKey = true →
    e.target ≠ shuffleId n.id ∧
      (e.source = shuffleId n.id → e.source ∈ dag.nodes.map DagNode.id)

instance decidableNamesApart (dag : DagSpecification) : Decidable dag.NamesApart :=
  inferInstanceAs (Decidable (∀ e ∈ dag.edges, ∀ n ∈ dag.nodes,
    n.operator.isReduceByKey = true → e.target ≠ shuffleId n.id ∧
      (e.source = shuffleId n.id → e.source ∈ dag.nodes.map DagNode.id)))

/-- No node is on a cycle, and the edges into nodes come from nodes. -/
structure Executable (dag : DagSpecification) : Prop where
  cycles : ∀ id ∈ dag.nodes.map DagNode.id, ¬ OnCycle (edgePairs dag.edges) id
  sources : ∀ e ∈ dag.edges, e.target ∈ dag.nodes.map DagNode.id →
    e.source ∈ dag.nodes.map DagNode.id

/-- What reaches a node is a node. -/
theorem Executable.mem_of_reaches (h : dag.Executable) {a id : String}
    (ha : Reaches (edgePairs dag.edges) a id) (hid : id ∈ dag.nodes.map DagNode.id) :
    a ∈ dag.nodes.map DagNode.id := by
  induction ha using Relation.ReflTransGen.head_induction_on with
  | refl => exact hid
  | head hstep _ ih =>
      obtain ⟨e, he, hsource, htarget⟩ := exists_of_mem_edgePairs hstep
      have hnode := h.sources e he (htarget.symm ▸ ih)
      rw [hsource] at hnode
      exact hnode

theorem Executable.grounded (h : dag.Executable) {id : String}
    (hid : id ∈ dag.nodes.map DagNode.id) : dag.Grounded id :=
  ⟨fun a ha => h.cycles a (h.mem_of_reaches ha hid),
    fun _ ha => Or.inl (h.mem_of_reaches ha.to_reflTransGen hid)⟩

/-- The ids of the operators of every task of the specification. -/
def operatorIds (dag : DagSpecification) (order : HashOrder String) : List String :=
  (dag.injectLocalShuffle (dag.orderedNodes order)).map DagNode.id

theorem cases_of_mem_operatorIds {order : HashOrder String} {id : String}
    (hid : id ∈ dag.operatorIds order) :
    id ∈ dag.nodes.map DagNode.id ∨
      ∃ n ∈ dag.nodes, n.operator.isReduceByKey = true ∧ id = shuffleId n.id := by
  rw [operatorIds, injectLocalShuffle_eq] at hid
  obtain ⟨m, hm, rfl⟩ := List.mem_map.mp hid
  rcases mem_injectAfter hm with hm | ⟨n, hn, hreduces, heq⟩
  · exact Or.inl ((mem_orderedNodes_ids order).mp (List.mem_map_of_mem hm))
  · exact Or.inr ⟨n, subset_of_orderedNodes order hn, hreduces, heq⟩

/-- An id with an edge into it that no injected shuffle has is the id of at most one operator. -/
theorem count_operatorIds_le {e : DagEdge} (he : e ∈ dag.edges)
    (hnew : ∀ n ∈ dag.nodes, n.operator.isReduceByKey = true → e.target ≠ shuffleId n.id)
    (order : HashOrder String) : (dag.operatorIds order).count e.target ≤ 1 := by
  have hold : ∀ n ∈ dag.orderedNodes order, n.operator.isReduceByKey = true →
      (shuffleId n.id == e.target) = false := by
    intro n hn hreduces
    rw [beq_eq_false_iff_ne]
    exact (hnew n (subset_of_orderedNodes order hn) hreduces).symm
  have hcount : (dag.operatorIds order).count e.target =
      ((dag.orderedNodes order).map DagNode.id).count e.target := by
    rw [List.count_eq_length_filter, List.count_eq_length_filter, operatorIds,
      injectLocalShuffle_eq, injectAfter_filter hold]
  rw [hcount, orderedNodes_ids (List.ne_nil_of_mem he)]
  exact List.nodup_iff_count_le_one.mp ((dag.orderedIds_nodup order).filter _) e.target

theorem Executable.sorted (h : dag.Executable) (hnames : dag.NamesApart)
    (order : HashOrder String) : Sorted (edgePairs dag.edges) (dag.operatorIds order) := by
  intro pre v rest heq p hp hv
  obtain ⟨e, he, hsource, htarget⟩ := exists_of_mem_edgePairs hp
  have hmem : v ∈ dag.operatorIds order := by
    rw [heq]
    exact List.mem_append_right _ List.mem_cons_self
  have hnew : ∀ n ∈ dag.nodes, n.operator.isReduceByKey = true → e.target ≠ shuffleId n.id :=
    fun n hn hreduces => (hnames e he n hn hreduces).1
  have hnode : e.target ∈ dag.nodes.map DagNode.id := by
    rcases cases_of_mem_operatorIds hmem with hnode | ⟨n, hn, hreduces, hid⟩
    · rw [htarget, hv]
      exact hnode
    · exact absurd (htarget.trans (hv.trans hid)) (hnew n hn hreduces)
  have hsub := orderedNodes_sublist order he (h.sources e he hnode) hnode (h.grounded hnode)
  have hoperators : [e.source, e.target].Sublist (dag.operatorIds order) := by
    rw [operatorIds, injectLocalShuffle_eq]
    exact hsub.trans ((dag.sublist_injectAfter none _).map DagNode.id)
  have hlast : v ∉ rest := by
    intro hrest
    have hcount := count_operatorIds_le he hnew order
    have hpos := List.count_pos_iff.mpr hrest
    rw [heq, htarget, hv, List.count_append, List.count_cons_self] at hcount
    omega
  rw [heq, hsource, htarget, hv] at hoperators
  exact mem_of_sublist_pair hlast hoperators

/-- The nodes are not listed in the order of the edge. -/
def backwards : DagSpecification where
  nodes := [⟨"map", .map "uppercase"⟩, ⟨"read", .read "in.csv" "csv"⟩]
  edges := [⟨"read", "map"⟩]
  partitions := 1

/-- The tasks of a specification, with strings for ids. -/
def taskList (dag : DagSpecification) : List (Task String) :=
  dag.materializeTasks (fun jobId name => jobId ++ name) .insertion "job"

end DagSpecification
end ProcessingEngine

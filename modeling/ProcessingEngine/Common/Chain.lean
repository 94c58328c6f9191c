import ProcessingEngine.Common.Order

/-!
# Linear specifications

A specification whose edges lead from each node to the next one.  Whatever the
order in which nodes and edges are listed, and whatever the iteration order of
the hash map, its tasks run the operators along the chain, and each has the one
before it as its only parent.
-/

namespace ProcessingEngine

open Lib Text

namespace DagSpecification

/-- An edge from each node to the next one. -/
def consecutive : List DagNode → List DagEdge
  | a :: b :: rest => ⟨a.id, b.id⟩ :: consecutive (b :: rest)
  | _ => []

/-- The specification is the chain of these nodes. -/
structure Linear (dag : DagSpecification) (chain : List DagNode) : Prop where
  nodes : dag.nodes.Perm chain
  edges : dag.edges.Perm (consecutive chain)
  ids : (chain.map DagNode.id).Nodup
  arrow : ∀ n ∈ chain, ¬ ['-', '>'] <:+: n.id.toList

/-- The specification is the chain of these nodes, whatever their ids are. -/
structure InLine (dag : DagSpecification) (chain : List DagNode) : Prop where
  nodes : dag.nodes.Perm chain
  edges : dag.edges.Perm (consecutive chain)
  ids : (chain.map DagNode.id).Nodup

theorem Linear.inLine {dag : DagSpecification} {chain : List DagNode} (h : dag.Linear chain) :
    dag.InLine chain :=
  ⟨h.nodes, h.edges, h.ids⟩

theorem mem_consecutive {nodes : List DagNode} {e : DagEdge} :
    e ∈ consecutive nodes ↔
      ∃ pre a b rest, nodes = pre ++ a :: b :: rest ∧ e = ⟨a.id, b.id⟩ := by
  fun_induction consecutive nodes with
  | case1 a b rest ih =>
      rw [List.mem_cons, ih]
      constructor
      · intro h
        rcases h with rfl | ⟨pre, c, d, tail, heq, rfl⟩
        · exact ⟨[], a, b, rest, rfl, rfl⟩
        · exact ⟨a :: pre, c, d, tail, by rw [heq]; rfl, rfl⟩
      · intro ⟨pre, c, d, tail, heq, he⟩
        cases pre with
        | nil =>
            cases heq
            exact Or.inl he
        | cons x pre =>
            rw [List.cons_append, List.cons.injEq] at heq
            exact Or.inr ⟨pre, c, d, tail, heq.2, he⟩
  | case2 nodes hshort =>
      refine iff_of_false (by simp) fun ⟨pre, a, b, rest, heq, _⟩ => ?_
      cases pre with
      | nil => exact hshort a b rest heq
      | cons x pre =>
          cases pre with
          | nil => exact hshort x a (b :: rest) heq
          | cons y pre => exact hshort x y (pre ++ a :: b :: rest) heq

theorem targets_consecutive (nodes : List DagNode) :
    (consecutive nodes).map DagEdge.target = (nodes.map DagNode.id).tail := by
  fun_induction consecutive nodes with
  | case1 a b rest ih => exact congrArg (b.id :: ·) ih
  | case2 nodes hshort =>
      rcases nodes with _ | ⟨a, _ | ⟨b, rest⟩⟩
      · rfl
      · rfl
      · exact absurd rfl (hshort a b rest)

/-- A list in which each node of a chain stands after the one before it is the
chain. -/
theorem eq_of_sorted {nodes l : List DagNode} (hperm : l.Perm nodes)
    (hids : (nodes.map DagNode.id).Nodup)
    (hsorted : ∀ pre n rest, l = pre ++ n :: rest → ∀ e ∈ consecutive nodes, e.target = n.id →
      e.source ∈ pre.map DagNode.id) : l = nodes := by
  induction nodes generalizing l with
  | nil => exact hperm.eq_nil
  | cons a nodes ih =>
      cases l with
      | nil => exact absurd hperm.symm.eq_nil (List.cons_ne_nil a nodes)
      | cons x l =>
          rw [List.map_cons, List.nodup_cons] at hids
          -- any other node than the first one comes after its predecessor
          obtain rfl : x = a := by
            by_contra hne
            have hx : x ∈ nodes :=
              (List.mem_cons.mp (hperm.mem_iff.mp List.mem_cons_self)).resolve_left hne
            obtain ⟨pre, rest, rfl⟩ := List.append_of_mem hx
            obtain ⟨before, c, hlast⟩ : ∃ before c, a :: pre = before ++ [c] :=
              ⟨_, _, (List.dropLast_append_getLast (List.cons_ne_nil a pre)).symm⟩
            have hmem : (⟨c.id, x.id⟩ : DagEdge) ∈ consecutive (a :: (pre ++ x :: rest)) := by
              refine mem_consecutive.mpr ⟨before, c, x, rest, ?_, rfl⟩
              rw [← List.cons_append, hlast, List.append_assoc]
              rfl
            have hfirst := hsorted [] x l rfl _ hmem rfl
            cases hfirst
          have hrest : l.Perm nodes := (List.perm_cons x).mp hperm
          rw [ih hrest hids.2]
          intro pre n rest heq e he htarget
          have hcons : e ∈ consecutive (x :: nodes) := by
            obtain ⟨pre', c, d, tail, rfl, rfl⟩ := mem_consecutive.mp he
            exact mem_consecutive.mpr ⟨x :: pre', c, d, tail, rfl, rfl⟩
          have hsource := hsorted (x :: pre) n rest (by rw [heq]; rfl) e hcons htarget
          rw [List.map_cons, List.mem_cons] at hsource
          refine hsource.resolve_left fun hx => hids.1 ?_
          obtain ⟨pre', c, d, tail, rfl, rfl⟩ := mem_consecutive.mp he
          rw [← hx]
          exact List.mem_map_of_mem (by simp)

namespace InLine

variable {dag : DagSpecification} {chain : List DagNode}

theorem uniqueIds (h : dag.InLine chain) : dag.UniqueIds :=
  (h.nodes.map DagNode.id).nodup_iff.mpr h.ids

theorem declared (h : dag.InLine chain) : dag.Declared := by
  intro e he
  obtain ⟨pre, a, b, rest, heq, rfl⟩ := mem_consecutive.mp (h.edges.mem_iff.mp he)
  have hmem : ∀ n ∈ chain, n.id ∈ dag.nodes.map DagNode.id :=
    fun n hn => List.mem_map_of_mem (h.nodes.mem_iff.mpr hn)
  subst heq
  exact ⟨hmem a (by simp), hmem b (by simp)⟩

theorem acyclic (h : dag.InLine chain) : dag.Acyclic := by
  refine acyclic_of_rank (fun id => (chain.map DagNode.id).idxOf id) fun p hp => ?_
  obtain ⟨edge, hedge, hsource, htarget⟩ := exists_of_mem_edgePairs hp
  obtain ⟨pre, a, b, rest, rfl, rfl⟩ := mem_consecutive.mp (h.edges.mem_iff.mp hedge)
  have hids := h.ids
  rw [List.map_append, List.map_cons, List.map_cons] at hids ⊢
  have hpre := (List.nodup_append.mp hids).2.2
  have ha : a.id ∉ pre.map DagNode.id := fun hmem => hpre a.id hmem a.id List.mem_cons_self rfl
  have hb : b.id ∉ pre.map DagNode.id := fun hmem =>
    hpre b.id hmem b.id (List.mem_cons_of_mem _ List.mem_cons_self) rfl
  have hab : a.id ≠ b.id := by
    have hcons := (List.nodup_cons.mp (List.nodup_append.mp hids).2.1).1
    exact fun heq => hcons (heq ▸ List.mem_cons_self)
  rw [← hsource, ← htarget, List.idxOf_append_of_notMem ha, List.idxOf_append_of_notMem hb,
    List.idxOf_cons_self, List.idxOf_cons_ne _ hab]
  omega

theorem orderedNodes_eq (h : dag.InLine chain) (order : HashOrder String) :
    dag.orderedNodes order = chain := by
  obtain ⟨hperm, hsorted⟩ := orderedNodes_ordered h.acyclic h.declared h.uniqueIds order
  refine eq_of_sorted (hperm.trans h.nodes) h.ids fun pre n rest heq e he => ?_
  exact hsorted pre n rest heq e (h.edges.mem_iff.mpr he)

theorem nodup_edges (h : dag.InLine chain) : dag.edges.Nodup := by
  refine h.edges.nodup_iff.mpr (List.Nodup.of_map DagEdge.target ?_)
  rw [targets_consecutive]
  exact h.ids.sublist (List.tail_sublist _)

/-- The only edge into a node that is not the first one. -/
theorem edgesInto_next {pre rest : List DagNode} {a b : DagNode}
    (h : dag.InLine (pre ++ a :: b :: rest)) : dag.edgesInto b.id = [⟨a.id, b.id⟩] := by
  apply List.perm_singleton.mp
  refine (List.perm_ext_iff_of_nodup (h.nodup_edges.filter _) (List.nodup_singleton _)).mpr
    fun e => ?_
  rw [List.mem_singleton]
  refine mem_edgesInto.trans ⟨fun he => ?_, fun he => ?_⟩
  · have htargets : (dag.edges.map DagEdge.target).Nodup := by
      refine (h.edges.map DagEdge.target).nodup_iff.mpr ?_
      rw [targets_consecutive]
      exact h.ids.sublist (List.tail_sublist _)
    have hedge : (⟨a.id, b.id⟩ : DagEdge) ∈ dag.edges :=
      h.edges.mem_iff.mpr (mem_consecutive.mpr ⟨pre, a, b, rest, rfl, rfl⟩)
    exact List.inj_on_of_nodup_map htargets he.1 hedge he.2
  · rw [he]
    exact ⟨h.edges.mem_iff.mpr (mem_consecutive.mpr ⟨pre, a, b, rest, rfl, rfl⟩), rfl⟩

theorem edgesInto_first {rest : List DagNode} {a : DagNode} (h : dag.InLine (a :: rest)) :
    dag.edgesInto a.id = [] := by
  rw [List.eq_nil_iff_forall_not_mem]
  intro e he
  obtain ⟨hedge, htarget⟩ := mem_edgesInto.mp he
  have hmem := List.mem_map_of_mem (f := DagEdge.target) (h.edges.mem_iff.mp hedge)
  rw [targets_consecutive, htarget] at hmem
  exact (List.nodup_cons.mp h.ids).1 hmem

end InLine

namespace Linear

variable {dag : DagSpecification} {chain : List DagNode}

theorem parents_next {pre rest : List DagNode} {a b : DagNode}
    (h : dag.Linear (pre ++ a :: b :: rest)) :
    (dag.incomingEdges b.id).map beforeArrow = [a.id] := by
  show ((dag.edgesInto b.id).map edgeText).map beforeArrow = [a.id]
  rw [h.inLine.edgesInto_next, List.map_singleton, List.map_singleton,
    beforeArrow_edgeText (h.arrow a (by simp))]

theorem parents_first {rest : List DagNode} {a : DagNode} (h : dag.Linear (a :: rest)) :
    (dag.incomingEdges a.id).map beforeArrow = [] := by
  show ((dag.edgesInto a.id).map edgeText).map beforeArrow = []
  rw [h.inLine.edgesInto_first]
  rfl

end Linear

/-- Without a `ReduceByKey` node no shuffle is injected. -/
theorem injectLocalShuffle_of_forall {dag : DagSpecification} {nodes : List DagNode}
    (h : ∀ n ∈ nodes, n.operator.isReduceByKey = false) : dag.injectLocalShuffle nodes = nodes := by
  have hinject : ∀ (nodes : List DagNode) (prev : Option DagNode),
      (∀ n ∈ nodes, n.operator.isReduceByKey = false) → dag.injectAfter prev nodes = nodes := by
    intro nodes
    induction nodes with
    | nil => exact fun _ _ => rfl
    | cons n nodes ih =>
        intro prev h
        rw [List.forall_mem_cons] at h
        rw [injectAfter, ih _ h.2]
        have hnone : dag.injected prev n = [] := by
          rw [injected]
          split
          · rename_i key op hop
            rw [hop] at h
            cases h.1
          · rfl
        rw [hnone, List.nil_append]
  rw [injectLocalShuffle_eq, hinject nodes none h]

end DagSpecification
end ProcessingEngine

import ProcessingEngine.Common.Topological

/-!
# The order in which the client draws a DAG

`client/commands/dag.rs` has a topological sort of its own.  It counts the edges of
undeclared sources too, and passes over a node that it has seen.  On every graph it
lists each declared node once, and of the others those with no cycle above them; the
sources of the edges into a node with no cycle above it come first
(`Client.topoSort_lists`).  Where the edges join declared nodes, it is the order of the
server (`Client.topoSort_eq_orderedIds`).
-/

namespace ProcessingEngine
namespace Client

open Lib DagSpecification

variable {Value : Type}

/-- A node as the client reads it, with the JSON of its operator. -/
structure DagNode (Value : Type) where
  id : String
  operator : Value

/-- One more edge into the target, and a counter for the source. -/
def countEdge (m : HashMap String Nat) (e : DagEdge) : HashMap String Nat :=
  let m :=
    match m.lookup e.target with
    | some c => m.insert e.target (c + 1)
    | none => m.insert e.target 1
  match m.lookup e.source with
  | some _ => m
  | none => m.insert e.source 0

def incomingCounts (nodes : List (DagNode Value)) (edges : List DagEdge) : HashMap String Nat :=
  edges.foldl countEdge (nodes.foldl (fun m n => m.insert n.id 0) ∅)

def outgoingTargets (edges : List DagEdge) : HashMap String (List String) :=
  edges.foldl (fun m e => m.insert e.source ((m.lookup e.source).getD [] ++ [e.target])) ∅

/-- The loop of the sort, for at most `fuel` iterations.  Returns what is left of the
queue and the order. -/
def visit (outgoing : HashMap String (List String)) :
    Nat → HashMap String Nat → List String → List String → List String →
      List String × List String
  | 0, _, queue, _, order => (queue, order)
  | _ + 1, _, [], _, order => ([], order)
  | fuel + 1, incoming, n :: queue, seen, order =>
      if n ∈ seen then visit outgoing fuel incoming queue seen order
      else
        let s := ((outgoing.lookup n).getD []).foldl releaseChild (incoming, queue)
        visit outgoing fuel s.1 s.2 (n :: seen) (order ++ [n])

def appendUnvisited (nodes : List (DagNode Value)) (order : List String) : List String :=
  nodes.foldl (fun order n => if n.id ∈ order then order else order ++ [n.id]) order

def startQueue (order : HashOrder String) (incoming : HashMap String Nat) : List String :=
  (order.keys incoming.keys).filter fun id => incoming.lookup id == some 0

def topoSort (order : HashOrder String) (nodes : List (DagNode Value)) (edges : List DagEdge) :
    List String :=
  let incoming := incomingCounts nodes edges
  appendUnvisited nodes (visit (outgoingTargets edges) (incoming.keys.length + 1) incoming
    (startQueue order incoming) [] []).2

/-! ### The counters -/

variable {nodes : List (DagNode Value)} {edges : List DagEdge}

theorem getD_countEdge (m : HashMap String Nat) (e : DagEdge) (id : String) :
    ((countEdge m e).lookup id).getD 0 =
      (m.lookup id).getD 0 + if e.target = id then 1 else 0 := by
  have htarget : ∀ m' : HashMap String Nat,
      ((match m'.lookup e.source with
        | some _ => m'
        | none => m'.insert e.source 0).lookup id).getD 0 = (m'.lookup id).getD 0 := by
    intro m'
    cases hsource : m'.lookup e.source with
    | some c => rfl
    | none =>
        rw [HashMap.lookup_insert]
        split_ifs with h
        · rw [h, hsource]
          rfl
        · rfl
  rw [countEdge, htarget]
  cases hc : m.lookup e.target with
  | some c =>
      rw [HashMap.lookup_insert]
      split_ifs with h h' h'
      · rw [h, hc]
        rfl
      · exact absurd h.symm h'
      · exact absurd h'.symm h
      · rfl
  | none =>
      rw [HashMap.lookup_insert]
      split_ifs with h h' h'
      · rw [h, hc]
        rfl
      · exact absurd h.symm h'
      · exact absurd h'.symm h
      · rfl

theorem mem_countEdge {m : HashMap String Nat} {e : DagEdge} {id : String} :
    id ∈ countEdge m e ↔ id ∈ m ∨ id = e.target ∨ id = e.source := by
  have hsource : ∀ m' : HashMap String Nat,
      id ∈ (match m'.lookup e.source with
        | some _ => m'
        | none => m'.insert e.source 0) ↔ id ∈ m' ∨ id = e.source := by
    intro m'
    cases hlookup : m'.lookup e.source with
    | some c =>
        have hmem := HashMap.mem_of_lookup hlookup
        exact ⟨Or.inl, fun h => h.elim (fun h => h) fun h => h ▸ hmem⟩
    | none =>
        rw [AList.mem_insert]
        exact or_comm
  rw [countEdge, hsource]
  cases m.lookup e.target with
  | some c =>
      rw [AList.mem_insert]
      tauto
  | none =>
      rw [AList.mem_insert]
      tauto

theorem mem_foldl_insert {α : Type} (key : α → String) {l : List α} {m : HashMap String Nat}
    {id : String} :
    id ∈ l.foldl (fun m a => m.insert (key a) 0) m ↔ id ∈ m ∨ id ∈ l.map key := by
  induction l generalizing m with
  | nil => simp
  | cons a l ih =>
      rw [List.foldl_cons, ih, AList.mem_insert, List.map_cons, List.mem_cons]
      tauto

theorem mem_incomingCounts {id : String} :
    id ∈ incomingCounts nodes edges ↔ id ∈ nodes.map DagNode.id ∨
      id ∈ edges.map DagEdge.target ∨ id ∈ edges.map DagEdge.source := by
  have hedges : ∀ m : HashMap String Nat, id ∈ edges.foldl countEdge m ↔ id ∈ m ∨
      id ∈ edges.map DagEdge.target ∨ id ∈ edges.map DagEdge.source := by
    induction edges with
    | nil => simp
    | cons e edges ih =>
        intro m
        rw [List.foldl_cons, ih, mem_countEdge, List.map_cons, List.map_cons, List.mem_cons,
          List.mem_cons]
        tauto
  rw [incomingCounts, hedges, mem_foldl_insert DagNode.id]
  simp

theorem getD_foldl_countEdge (m : HashMap String Nat) (id : String) :
    ((edges.foldl countEdge m).lookup id).getD 0 =
      (m.lookup id).getD 0 + (edgePairs edges).countP fun e => e.2 = id := by
  induction edges generalizing m with
  | nil => rfl
  | cons e edges ih =>
      have hcons : edgePairs (e :: edges) = (e.source, e.target) :: edgePairs edges := rfl
      rw [List.foldl_cons, ih, getD_countEdge, hcons, List.countP_cons]
      simp only [decide_eq_true_eq]
      omega

theorem getD_nodes (m : HashMap String Nat) (hm : ∀ id, (m.lookup id).getD 0 = 0) (id : String) :
    ((nodes.foldl (fun m n => m.insert n.id 0) m).lookup id).getD 0 = 0 := by
  induction nodes generalizing m with
  | nil => exact hm id
  | cons n nodes ih =>
      refine ih (m.insert n.id 0) fun id' => ?_
      rw [HashMap.lookup_insert]
      split_ifs
      · rfl
      · exact hm id'

theorem released_init (nodes : List (DagNode Value)) (edges : List DagEdge)
    (order : HashOrder String) :
    Released (edgePairs edges) (incomingCounts nodes edges).keys (incomingCounts nodes edges)
      (startQueue order (incomingCounts nodes edges)) [] [] where
  nodup := by
    rw [List.nil_append]
    exact ((order.perm _).nodup_iff.mpr (incomingCounts nodes edges).keys_nodup).filter _
  keys v := Iff.rfl
  count v c h := by
    have hcount : ((incomingCounts nodes edges).lookup v).getD 0 = c := by rw [h]; rfl
    rw [← hcount, incomingCounts, getD_foldl_countEdge, getD_nodes ∅ fun _ => rfl]
    simp
  zero v hv := by
    rw [List.nil_append, startQueue, List.mem_filter, beq_iff_eq] at hv
    exact hv.2

theorem mem_startQueue (order : HashOrder String) {incoming : HashMap String Nat} {v : String}
    (hv : incoming.lookup v = some 0) : v ∈ startQueue order incoming := by
  have hkey : v ∈ incoming.keys := AList.mem_keys.mp (HashMap.mem_of_lookup hv)
  exact List.mem_filter.mpr ⟨(order.perm _).mem_iff.mpr hkey, by rw [hv]; rfl⟩

theorem outgoing_eq_targets (edges : List DagEdge) (u : String) :
    ((outgoingTargets edges).lookup u).getD [] = targets (edgePairs edges) u := by
  rw [outgoingTargets, lookup_foldl_targets]
  simp

/-! ### The loop -/

/-- No node comes twice into the queue, so that the check for seen nodes changes nothing. -/
theorem visit_eq_traverse {outgoing : HashMap String (List String)}
    {pairs : List (String × String)} (hout : ∀ u, (outgoing.lookup u).getD [] = targets pairs u)
    {keys : List String} {incoming : HashMap String Nat} {queue seen done : List String}
    (hseen : ∀ v, v ∈ seen ↔ v ∈ done) (h : Released pairs keys incoming queue done [])
    (fuel : Nat) :
    visit outgoing fuel incoming queue seen done =
      Lib.traverse outgoing fuel incoming queue done := by
  induction fuel generalizing incoming queue seen done with
  | zero => rfl
  | succ fuel ih =>
      cases queue with
      | nil => rfl
      | cons n queue =>
          have hnew : n ∉ seen := by
            intro hmem
            have hdone := (hseen n).mp hmem
            exact (List.nodup_append.mp h.nodup).2.2 n hdone n List.mem_cons_self rfl
          rw [visit, if_neg hnew, Lib.traverse]
          dsimp only
          have hnext := h.pop.foldl_releaseChild
          rw [← hout n] at hnext
          refine ih (fun v => ?_) hnext
          rw [List.mem_cons, List.mem_append, List.mem_singleton, hseen]
          exact or_comm

/-- The nodes that the loop visits. -/
def released (order : HashOrder String) (nodes : List (DagNode Value)) (edges : List DagEdge) :
    List String :=
  (Lib.traverse (outgoingTargets edges) ((incomingCounts nodes edges).keys.length + 1)
    (incomingCounts nodes edges) (startQueue order (incomingCounts nodes edges)) []).2

theorem topoSort_eq (order : HashOrder String) (nodes : List (DagNode Value))
    (edges : List DagEdge) :
    topoSort order nodes edges = appendUnvisited nodes (released order nodes edges) := by
  rw [topoSort, released, visit_eq_traverse (outgoing_eq_targets edges) (fun v => Iff.rfl)
    (released_init nodes edges order)]

/-- The loop ends because the queue is empty. -/
theorem visit_empties (order : HashOrder String) (nodes : List (DagNode Value))
    (edges : List DagEdge) :
    (visit (outgoingTargets edges) ((incomingCounts nodes edges).keys.length + 1)
      (incomingCounts nodes edges) (startQueue order (incomingCounts nodes edges)) [] []).1 =
        [] := by
  rw [visit_eq_traverse (outgoing_eq_targets edges) (fun v => Iff.rfl)
    (released_init nodes edges order)]
  exact (released_init nodes edges order).traverse_queue (outgoing_eq_targets edges)
    (Nat.lt_succ_self _)

/-! ### The nodes that were not visited -/

/-- The client appends as the server does, by the ids. -/
theorem appendUnvisited_eq (nodes : List (DagNode Value)) (order : List String) :
    appendUnvisited nodes order = appendMissing (nodes.map fun n => ⟨n.id, .identity⟩) order := by
  rw [appendMissing, List.foldl_map]
  rfl

/-! ### What is listed, and in which order -/

/-- No cycle leads to the id. -/
def Clear (edges : List DagEdge) (id : String) : Prop :=
  ∀ a, Reaches (edgePairs edges) a id → ¬ OnCycle (edgePairs edges) a

/-- The nodes with a counter to which no cycle leads are released. -/
theorem mem_released_iff {order : HashOrder String} {id : String} :
    id ∈ released order nodes edges ↔ id ∈ incomingCounts nodes edges ∧ Clear edges id := by
  have hinit := released_init nodes edges order
  have hout := outgoing_eq_targets edges
  have hqueued : ∀ v, (incomingCounts nodes edges).lookup v = some 0 →
      v ∈ startQueue order (incomingCounts nodes edges) := fun v hv => mem_startQueue order hv
  constructor
  · intro hid
    have hsorted := hinit.traverse_sorted hout ((incomingCounts nodes edges).keys.length + 1)
      hqueued
    exact ⟨AList.mem_keys.mpr ((hinit.traverse hout).2 id hid),
      fun a hreach => hsorted.not_onCycle hreach hid⟩
  · rintro ⟨hid, hclear⟩
    refine hinit.mem_traverse hout (Nat.lt_succ_self _) hqueued hclear fun a hreach => ?_
    rw [← AList.mem_keys]
    rcases Relation.ReflTransGen.cases_head hreach with rfl | ⟨b, hab, -⟩
    · exact hid
    · obtain ⟨e, he, hsource, -⟩ := exists_of_mem_edgePairs hab
      have hsource : e.source = a := hsource
      exact mem_incomingCounts.mpr (Or.inr (Or.inr (List.mem_map.mpr ⟨e, he, hsource⟩)))

/-- What the order of a graph is like. -/
structure Lists (nodes : List (DagNode Value)) (edges : List DagEdge) (ids : List String) :
    Prop where
  nodup : ids.Nodup
  mem_iff : ∀ id, id ∈ ids ↔ id ∈ nodes.map DagNode.id ∨
    ((∃ e ∈ edges, id = e.source ∨ id = e.target) ∧ Clear edges id)
  sorted : ∀ e ∈ edges, Clear edges e.target → [e.source, e.target].Sublist ids
  clear_first : ∃ first rest, ids = first ++ rest ∧ (∀ id ∈ first, Clear edges id) ∧
    ∀ id ∈ rest, ¬ Clear edges id

theorem mem_incomingCounts_iff {id : String} :
    id ∈ incomingCounts nodes edges ↔ id ∈ nodes.map DagNode.id ∨
      ∃ e ∈ edges, id = e.source ∨ id = e.target := by
  rw [mem_incomingCounts, List.mem_map, List.mem_map, List.mem_map]
  constructor
  · rintro (h | ⟨e, he, rfl⟩ | ⟨e, he, rfl⟩)
    · exact Or.inl h
    · exact Or.inr ⟨e, he, Or.inr rfl⟩
    · exact Or.inr ⟨e, he, Or.inl rfl⟩
  · rintro (h | ⟨e, he, rfl | rfl⟩)
    · exact Or.inl h
    · exact Or.inr (Or.inr ⟨e, he, rfl⟩)
    · exact Or.inr (Or.inl ⟨e, he, rfl⟩)

theorem mem_topoSort {order : HashOrder String} {id : String} :
    id ∈ topoSort order nodes edges ↔
      id ∈ released order nodes edges ∨ id ∈ nodes.map DagNode.id := by
  rw [topoSort_eq, appendUnvisited_eq, mem_appendMissing]
  simp

theorem topoSort_nodup (order : HashOrder String) (nodes : List (DagNode Value))
    (edges : List DagEdge) : (topoSort order nodes edges).Nodup := by
  rw [topoSort_eq, appendUnvisited_eq]
  exact appendMissing_nodup
    ((released_init nodes edges order).traverse_nodup (outgoing_eq_targets edges) _)

theorem topoSort_extends (order : HashOrder String) (nodes : List (DagNode Value))
    (edges : List DagEdge) : released order nodes edges <+: topoSort order nodes edges := by
  rw [topoSort_eq, appendUnvisited_eq]
  exact appendMissing_extends _ _

/-- On every graph the loop ends, and each declared node is listed once, and of the other
ends of edges those to which no cycle leads.  What no cycle leads to comes first, after
the sources of the edges into it. -/
theorem topoSort_lists (order : HashOrder String) (nodes : List (DagNode Value))
    (edges : List DagEdge) :
    (visit (outgoingTargets edges) ((incomingCounts nodes edges).keys.length + 1)
        (incomingCounts nodes edges) (startQueue order (incomingCounts nodes edges)) [] []).1 =
          [] ∧
      Lists nodes edges (topoSort order nodes edges) := by
  have hnodup := topoSort_nodup order nodes edges
  refine ⟨visit_empties order nodes edges, hnodup, fun id => ?_, fun e he hclear => ?_, ?_⟩
  · rw [mem_topoSort, mem_released_iff, mem_incomingCounts_iff]
    constructor
    · rintro (⟨hnode | hend, hclear⟩ | hnode)
      · exact Or.inl hnode
      · exact Or.inr ⟨hend, hclear⟩
      · exact Or.inl hnode
    · rintro (hnode | ⟨hend, hclear⟩)
      · exact Or.inr hnode
      · exact Or.inl ⟨Or.inr hend, hclear⟩
  · have hdone : e.target ∈ released order nodes edges := mem_released_iff.mpr
      ⟨mem_incomingCounts_iff.mpr (Or.inr ⟨e, he, Or.inr rfl⟩), hclear⟩
    have hsorted : Sorted (edgePairs edges) (released order nodes edges) :=
      (released_init nodes edges order).traverse_sorted (outgoing_eq_targets edges) _
        fun v hv => mem_startQueue order hv
    exact (hsorted.sublist (mem_edgePairs he) hdone).trans (topoSort_extends _ _ _).sublist
  · obtain ⟨rest, hrest⟩ := topoSort_extends order nodes edges
    refine ⟨_, rest, hrest.symm, fun id hid => (mem_released_iff.mp hid).2, fun id hid hclear => ?_⟩
    have hlisted : id ∈ topoSort order nodes edges := hrest ▸ List.mem_append_right _ hid
    have hcounter : id ∈ incomingCounts nodes edges := by
      rcases mem_topoSort.mp hlisted with hdone | hnode
      · exact (mem_released_iff.mp hdone).1
      · exact mem_incomingCounts_iff.mpr (Or.inl hnode)
    rw [← hrest] at hnodup
    have hdone : id ∈ released order nodes edges := mem_released_iff.mpr ⟨hcounter, hclear⟩
    exact (List.nodup_append.mp hnodup).2.2 id hdone id hid rfl

/-! ### The order of the server -/

/-- An edge whose source has a counter is counted as the server does. -/
theorem countEdge_eq {m : HashMap String Nat} {e : DagEdge} (h : e.source ∈ m) :
    countEdge m e = m.insert e.target ((m.lookup e.target).getD 0 + 1) := by
  have hinsert : (match m.lookup e.target with
      | some c => m.insert e.target (c + 1)
      | none => m.insert e.target 1) = m.insert e.target ((m.lookup e.target).getD 0 + 1) := by
    cases m.lookup e.target with
    | some c => rfl
    | none => rfl
  have hmem : e.source ∈ m.insert e.target ((m.lookup e.target).getD 0 + 1) :=
    (AList.mem_insert _).mpr (Or.inr h)
  obtain ⟨c, hc⟩ := Option.isSome_iff_exists.mp (AList.lookup_isSome.mpr hmem)
  rw [countEdge, hinsert, hc]

theorem foldl_countEdge_eq {m : HashMap String Nat} (h : ∀ e ∈ edges, e.source ∈ m) :
    edges.foldl countEdge m =
      edges.foldl (fun m e => m.insert e.target ((m.lookup e.target).getD 0 + 1)) m := by
  induction edges generalizing m with
  | nil => rfl
  | cons e edges ih =>
      rw [List.foldl_cons, List.foldl_cons, countEdge_eq (h e List.mem_cons_self)]
      exact ih fun e' he' => (AList.mem_insert _).mpr (Or.inr (h e' (List.mem_cons_of_mem e he')))

variable {dag : DagSpecification}

/-- The nodes of a specification as the client reads them. -/
def readNodes (value : OperatorType → Value) (dag : DagSpecification) : List (DagNode Value) :=
  dag.nodes.map fun n => ⟨n.id, value n.operator⟩

theorem incomingCounts_eq (hdeclared : dag.Declared) (value : OperatorType → Value) :
    incomingCounts (readNodes value dag) dag.edges = dag.incomingCounts := by
  have hnodes : (readNodes value dag).foldl (fun m n => m.insert n.id 0) (∅ : HashMap String Nat) =
      dag.nodes.foldl (fun m n => m.insert n.id 0) ∅ := by
    rw [readNodes, List.foldl_map]
  rw [incomingCounts, hnodes, DagSpecification.incomingCounts]
  exact foldl_countEdge_eq fun e he =>
    (mem_foldl_insert ProcessingEngine.DagNode.id).mpr (Or.inr (hdeclared e he).1)

/-- Where the edges join declared nodes, the client lists the ids in the order of the
server, for the same order of the hash map. -/
theorem topoSort_eq_orderedIds (hdeclared : dag.Declared) (value : OperatorType → Value)
    (order : HashOrder String) :
    topoSort order (readNodes value dag) dag.edges = dag.orderedIds order := by
  rw [topoSort_eq, released, incomingCounts_eq hdeclared, orderedIds, appendUnvisited, readNodes,
    List.foldl_map]
  rfl

/-- An edge from the node that is declared last. -/
def backwards : DagSpecification :=
  ⟨[⟨"a", .identity⟩, ⟨"b", .read "in.csv" "csv"⟩], [⟨"b", "a"⟩], 1⟩

theorem topoSort_eq_orderedIds_backwards :
    topoSort .reversed (readNodes id backwards) backwards.edges =
      backwards.orderedIds .reversed :=
  topoSort_eq_orderedIds (by decide) id .reversed

end Client
end ProcessingEngine

import ProcessingEngine.Common.Order
import ProcessingEngine.Worker.Flow
import ProcessingEngine.Worker.Output
import ProcessingEngine.Worker.Shuffled

/-!
# In-trees

When every node but one has a single outgoing edge, each result is consumed
once.  The executor then computes the recursive evaluation of the sink, for
every order of the nodes (`Executor.executeSync_inTree`): whatever has been
executed and not consumed is in the table, with its value.
-/

namespace ProcessingEngine

open Lib Text

namespace DagSpecification

variable {α : Type}

/-- The value of a node, when no path into it has `fuel` edges: what `run` makes
of the values of its parents, or of `e` when it has none. -/
def evalWithin (dag : DagSpecification) (run : DagNode → List α → Except Fail (List α)) (e : α) :
    Nat → String → Except Fail (List α)
  | 0, _ => .error .panic
  | fuel + 1, id =>
      match dag.nodes.find? fun n => n.id == id with
      | none => .error .panic
      | some node =>
          (if (dag.edgesInto id).isEmpty then .ok [e]
            else ((dag.edgesInto id).mapM fun edge =>
              dag.evalWithin run e fuel edge.source).map List.flatten) >>= run node

def eval (dag : DagSpecification) (run : DagNode → List α → Except Fail (List α)) (e : α) :
    String → Except Fail (List α) :=
  dag.evalWithin run e (dag.edges.length + 1)

/-- The values of the parents of a node, in the order of the edges. -/
def inputValue (dag : DagSpecification) (run : DagNode → List α → Except Fail (List α)) (e : α)
    (id : String) : Except Fail (List α) :=
  if (dag.edgesInto id).isEmpty then .ok [e]
  else ((dag.edgesInto id).mapM fun edge => dag.eval run e edge.source).map List.flatten

variable {dag : DagSpecification} {run : DagNode → List α → Except Fail (List α)} {e : α}

theorem mapM_congr {β γ ε : Type} {f g : β → Except ε γ} {l : List β}
    (h : ∀ b ∈ l, f b = g b) : l.mapM f = l.mapM g := by
  induction l with
  | nil => rfl
  | cons b l ih =>
      rw [List.mapM_cons, List.mapM_cons, h b List.mem_cons_self,
        ih fun c hc => h c (List.mem_cons_of_mem b hc)]

theorem mapM_ok_of_mem {β γ ε : Type} {f : β → Except ε γ} {l : List β} {cs : List γ}
    (h : l.mapM f = .ok cs) {b : β} (hb : b ∈ l) : ∃ c, f b = .ok c := by
  induction l generalizing cs with
  | nil => cases hb
  | cons a l ih =>
      rw [List.mapM_cons] at h
      cases hfa : f a with
      | error err =>
          rw [hfa] at h
          cases h
      | ok c =>
          rw [hfa] at h
          cases hrest : l.mapM f with
          | error err =>
              simp only [hrest, bind, Except.bind, reduceCtorEq] at h
          | ok more =>
              rcases List.mem_cons.mp hb with rfl | hb
              · exact ⟨c, hfa⟩
              · exact ih hrest hb

theorem evalWithin_stable {rank : String → Nat}
    (hrank : ∀ p ∈ edgePairs dag.edges, rank p.1 < rank p.2) {fuel fuel' : Nat} {id : String}
    (hfuel : rank id < fuel) (hfuel' : rank id < fuel') :
    dag.evalWithin run e fuel id = dag.evalWithin run e fuel' id := by
  induction fuel generalizing fuel' id with
  | zero => omega
  | succ fuel ih =>
      cases fuel' with
      | zero => omega
      | succ fuel' =>
          have hsources : (dag.edgesInto id).mapM (fun edge =>
                dag.evalWithin run e fuel edge.source) =
              (dag.edgesInto id).mapM fun edge => dag.evalWithin run e fuel' edge.source := by
            refine mapM_congr fun edge hedge => ?_
            have hmem := mem_edgesInto.mp hedge
            have hlt : rank edge.source < rank edge.target := hrank _ (mem_edgePairs hmem.1)
            rw [hmem.2] at hlt
            apply ih
            · show rank edge.source < fuel
              omega
            · show rank edge.source < fuel'
              omega
          rw [evalWithin, evalWithin, hsources]

/-- The recursion of the evaluation. -/
theorem eval_eq (hacyclic : dag.Acyclic) (hids : dag.UniqueIds) {n : DagNode}
    (hn : n ∈ dag.nodes) :
    dag.eval run e n.id = (dag.inputValue run e n.id >>= run n) := by
  obtain ⟨rank, hrank, hle⟩ := hacyclic.exists_rank
  have hlen : (edgePairs dag.edges).length = dag.edges.length := List.length_map ..
  have hsources : (dag.edgesInto n.id).mapM (fun edge =>
        dag.evalWithin run e dag.edges.length edge.source) =
      (dag.edgesInto n.id).mapM fun edge => dag.eval run e edge.source := by
    refine mapM_congr fun edge hedge => ?_
    have hlt : rank edge.source < rank edge.target :=
      hrank _ (mem_edgePairs (mem_edgesInto.mp hedge).1)
    have htop := hle edge.target
    apply evalWithin_stable hrank
    · show rank edge.source < dag.edges.length
      omega
    · show rank edge.source < dag.edges.length + 1
      omega
  rw [eval, evalWithin, find?_of_mem hids hn, hsources]
  rfl

/-- Every node but the sink has exactly one outgoing edge. -/
structure InTree (dag : DagSpecification) (sink : DagNode) : Prop where
  acyclic : dag.Acyclic
  declared : dag.Declared
  ids : dag.UniqueIds
  plain : ∀ n ∈ dag.nodes, PlainId n.id
  outgoing : (dag.edges.map DagEdge.source).Nodup
  sink_mem : sink ∈ dag.nodes
  sink_iff : ∀ n ∈ dag.nodes, (∀ edge ∈ dag.edges, edge.source ≠ n.id) ↔ n = sink

end DagSpecification

/-! ### The operators of a task -/

namespace DagSpecification

variable {dag : DagSpecification}

def stepOf (dag : DagSpecification) (n : DagNode) : Step OperatorType :=
  ⟨n.id, n.operator, (dag.incomingEdges n.id).map beforeArrow⟩

theorem stepOf_parents (hdeclared : dag.Declared) (hplain : ∀ n ∈ dag.nodes, PlainId n.id)
    (n : DagNode) : (dag.stepOf n).parents = (dag.edgesInto n.id).map DagEdge.source := by
  show ((dag.edgesInto n.id).map edgeText).map beforeArrow = _
  rw [List.map_map]
  refine List.map_congr_left fun edge hedge => ?_
  obtain ⟨m, hm, hid⟩ := List.mem_map.mp (hdeclared edge (mem_edgesInto.mp hedge).1).1
  exact beforeArrow_edgeText (hid ▸ (hplain m hm).arrow)

/-- No edge leads to an injected shuffle. -/
theorem edgesInto_shuffleId (hdeclared : dag.Declared) (hplain : ∀ n ∈ dag.nodes, PlainId n.id)
    (id : String) : dag.edgesInto (shuffleId id) = [] := by
  rw [edgesInto, List.filter_eq_nil_iff]
  intro edge hedge htarget
  obtain ⟨m, hm, hid⟩ := List.mem_map.mp (hdeclared edge hedge).2
  exact (hplain m hm).injected id (hid.trans (by simpa using htarget))

section

variable {Uuid : Type} {newV5 : Uuid → String → Uuid} {order : HashOrder String} {jobId : Uuid}
  {task : Task Uuid}

theorem task_named (h : task ∈ dag.materializeTasks newV5 order jobId) : Executor.Named task := by
  obtain ⟨hoperators, hids, -, hne, -⟩ := task_nodes h
  exact ⟨by rw [hoperators, hids, List.length_map, List.length_map], hne⟩

theorem task_steps {F : Type} (ex : Executor F Uuid)
    (h : task ∈ dag.materializeTasks newV5 order jobId) :
    (ex.pipeline task).steps 0 (Executor.operatorDefs task) =
      (dag.injectLocalShuffle (dag.orderedNodes order)).map dag.stepOf := by
  obtain ⟨hoperators, hids, hedges, hne, -⟩ := task_nodes h
  have hnamed := task_named h
  have hedges' : (ex.pipeline task).incomingEdges = task.incomingEdges := by
    show (if task.incomingEdges.isEmpty then _ else task.incomingEdges) = _
    rw [if_neg]
    have hlen := congrArg List.length hedges
    rw [List.length_map, hnamed.length] at hlen
    intro hempty
    rw [List.isEmpty_iff.mp hempty] at hlen
    exact hne (List.eq_nil_of_length_eq_zero hlen.symm)
  apply List.ext_getElem?
  intro i
  rw [Pipeline.getElem?_steps, hnamed.operatorDefs, hoperators, List.getElem?_map,
    List.getElem?_map, Option.map_map]
  cases hnode : (dag.injectLocalShuffle (dag.orderedNodes order))[i]? with
  | none => rfl
  | some n =>
      have hid : (ex.pipeline task).operatorId (0 + i) = n.id := by
        rw [Pipeline.operatorId, hnamed.operatorIds ex, hids, List.getElem?_map, Nat.zero_add,
          hnode]
        rfl
      have hparents : (ex.pipeline task).parents (0 + i) = (dag.stepOf n).parents := by
        rw [Pipeline.parents, Pipeline.edges, hedges', hedges, hids, List.getElem?_map,
          List.getElem?_map, Nat.zero_add, hnode]
        rfl
      show some (Step.mk _ _ _) = some (dag.stepOf n)
      rw [hid, hparents]
      rfl

/-- The name and the parents of an operator are those of its node. -/
theorem task_node {F : Type} (ex : Executor F Uuid)
    (h : task ∈ dag.materializeTasks newV5 order jobId) {i : Nat} {n : DagNode}
    (hn : (dag.injectLocalShuffle (dag.orderedNodes order))[i]? = some n) :
    (ex.pipeline task).operatorId i = n.id ∧
      (ex.pipeline task).parents i = (dag.incomingEdges n.id).map beforeArrow := by
  have hget := congrArg (fun l => l[i]?) (task_steps ex h)
  rw [Pipeline.getElem?_steps, (task_named h).operatorDefs, (task_nodes h).1, List.getElem?_map,
    List.getElem?_map, hn, Nat.zero_add] at hget
  simp only [Option.map_some, Option.some.injEq, stepOf, Step.mk.injEq] at hget
  exact ⟨hget.1, hget.2.2⟩

/-- The final partitions are those of the last node. -/
theorem task_finalKey {F : Type} (ex : Executor F Uuid)
    (h : task ∈ dag.materializeTasks newV5 order jobId) {n : DagNode}
    (hn : (dag.injectLocalShuffle (dag.orderedNodes order)).getLast? = some n) :
    (ex.pipeline task).finalKey = n.id := by
  rw [Pipeline.finalKey, (task_named h).operatorIds ex, (task_nodes h).2.1, List.getLast?_map, hn]
  rfl

end

/-! ### The table -/

section

variable {α : Type} {sem : String → OperatorType → List α → Except Fail (List α)} {e : α}
  {sink : DagNode}

/-- A node runs its operator. -/
def runNode (sem : String → OperatorType → List α → Except Fail (List α)) (n : DagNode)
    (input : List α) : Except Fail (List α) :=
  sem n.id n.operator input

/-- The results of the executed nodes that no executed node has consumed are in
the table. -/
def Held (dag : DagSpecification) (sem : String → OperatorType → List α → Except Fail (List α))
    (e : α) (pre : List DagNode) (table : HashMap String (List (Flow OperatorType))) : Prop :=
  ∀ n ∈ pre, (∀ edge ∈ dag.edges, edge.source = n.id → edge.target ∉ pre.map DagNode.id) →
    ∃ flow, table.lookup n.id = some [flow] ∧ flow.eval sem e = dag.eval (runNode sem) e n.id

/-- Taking out the parents of a node, when each of them is in the table. -/
theorem evalAll_takeParents {table : HashMap String (List (Flow OperatorType))}
    {value : String → Except Fail (List α)} {parents : List String} (hnodup : parents.Nodup)
    (h : ∀ p ∈ parents, ∃ flow, table.lookup p = some [flow] ∧ flow.eval sem e = value p) :
    Flow.evalAll sem e (Pipeline.takeParents parents table).1 =
      (parents.mapM value).map List.flatten := by
  induction parents generalizing table with
  | nil =>
      rw [Pipeline.takeParents, Flow.evalAll]
      rfl
  | cons p parents ih =>
      obtain ⟨flow, hlookup, hvalue⟩ := h p List.mem_cons_self
      rw [List.nodup_cons] at hnodup
      have hheld : ∀ q ∈ parents, ∃ flow, (table.erase p).lookup q = some [flow] ∧
          flow.eval sem e = value q := by
        intro q hq
        have hne : q ≠ p := fun heq => hnodup.1 (heq ▸ hq)
        rw [AList.lookup_erase_ne hne]
        exact h q (List.mem_cons_of_mem p hq)
      have hrest := ih hnodup.2 hheld
      rw [Pipeline.takeParents, hlookup]
      dsimp only
      rw [List.singleton_append, Flow.evalAll_cons, hvalue, hrest, List.mapM_cons]
      cases value p with
      | error err => rfl
      | ok parts =>
          cases parents.mapM value with
          | error err => rfl
          | ok more => rfl

variable {pre rest : List DagNode} {n : DagNode} {table : HashMap String (List (Flow OperatorType))}

theorem notMem_of_perm (htree : dag.InTree sink) (hperm : (pre ++ n :: rest).Perm dag.nodes) :
    n.id ∉ pre.map DagNode.id := by
  have hnodup : ((pre ++ n :: rest).map DagNode.id).Nodup :=
    (hperm.map DagNode.id).nodup_iff.mpr htree.ids
  rw [List.map_append, List.map_cons] at hnodup
  intro hmem
  exact (List.nodup_append.mp hnodup).2.2 n.id hmem n.id List.mem_cons_self rfl

/-- The input of the next node has the values of its parents. -/
theorem Held.input (htree : dag.InTree sink) (hnodes : dag.Ordered (pre ++ n :: rest))
    (hheld : dag.Held sem e pre table) :
    Flow.evalAll sem e (Pipeline.inputOf .empty (dag.stepOf n).parents table).1 =
      dag.inputValue (runNode sem) e n.id := by
  have hparents := stepOf_parents htree.declared htree.plain n
  unfold Pipeline.inputOf inputValue
  rw [hparents]
  by_cases hnone : (dag.edgesInto n.id).isEmpty
  · rw [if_pos hnone, List.isEmpty_iff.mp hnone, if_pos (by rfl), Flow.evalAll_singleton,
      Flow.eval]
  · have hsome : ¬ ((dag.edgesInto n.id).map DagEdge.source).isEmpty = true := by
      simpa using hnone
    rw [if_neg hnone, if_neg hsome]
    have hnodup : ((dag.edgesInto n.id).map DagEdge.source).Nodup :=
      htree.outgoing.sublist (List.filter_sublist.map DagEdge.source)
    have hparent : ∀ p ∈ (dag.edgesInto n.id).map DagEdge.source, ∃ flow,
        table.lookup p = some [flow] ∧ flow.eval sem e = dag.eval (runNode sem) e p := by
      intro p hp
      obtain ⟨edge, hedge, rfl⟩ := List.mem_map.mp hp
      have hmem := mem_edgesInto.mp hedge
      obtain ⟨m, hm, hid⟩ := List.mem_map.mp (hnodes.sorted pre n rest rfl edge hmem.1 hmem.2)
      rw [← hid]
      refine hheld m hm fun other hother hsource htarget => ?_
      -- the only edge out of the parent leads to the next node
      obtain rfl : other = edge :=
        List.inj_on_of_nodup_map htree.outgoing hother hmem.1 (hsource.trans hid)
      rw [hmem.2] at htarget
      exact notMem_of_perm htree hnodes.perm htarget
    rw [evalAll_takeParents hnodup hparent, List.mapM_map]
    rfl

/-- Executing the next node consumes its parents and adds its own result. -/
theorem Held.next (htree : dag.InTree sink) (hnodes : dag.Ordered (pre ++ n :: rest))
    (hheld : dag.Held sem e pre table) {flow : Flow OperatorType}
    (hflow : flow.eval sem e = dag.eval (runNode sem) e n.id) :
    dag.Held sem e (pre ++ [n])
      ((Pipeline.inputOf .empty (dag.stepOf n).parents table).2.insert n.id [flow]) := by
  intro m hm hopen
  have hnot := notMem_of_perm htree hnodes.perm
  rw [List.mem_append, List.mem_singleton] at hm
  rcases hm with hm | rfl
  · have hne : m.id ≠ n.id := fun heq => hnot (List.mem_map.mpr ⟨m, hm, heq⟩)
    obtain ⟨old, hlookup, hvalue⟩ := hheld m hm fun edge hedge hsource htarget =>
      hopen edge hedge hsource (by rw [List.map_append]; exact List.mem_append_left _ htarget)
    refine ⟨old, ?_, hvalue⟩
    rw [AList.lookup_insert_ne hne, Pipeline.lookup_inputOf, if_neg]
    · exact hlookup
    · rw [stepOf_parents htree.declared htree.plain]
      intro hmem
      obtain ⟨edge, hedge, hsource⟩ := List.mem_map.mp hmem
      have hinto := mem_edgesInto.mp hedge
      apply hopen edge hinto.1 hsource
      rw [hinto.2]
      simp
  · exact ⟨flow, AList.lookup_insert _, hflow⟩

/-- An injected shuffle changes no entry of a node. -/
theorem Held.insert_shuffleId (htree : dag.InTree sink) (hpre : ∀ m ∈ pre, m ∈ dag.nodes)
    (hheld : dag.Held sem e pre table) (id : String) (flows : List (Flow OperatorType)) :
    dag.Held sem e pre (table.insert (shuffleId id) flows) := by
  intro m hm hopen
  obtain ⟨flow, hlookup, hvalue⟩ := hheld m hm hopen
  refine ⟨flow, ?_, hvalue⟩
  rw [AList.lookup_insert_ne ((htree.plain m (hpre m hm)).injected id)]
  exact hlookup

/-- The expressions of the nodes and of their shuffles. -/
structure Computes (dag : DagSpecification)
    (sem : String → OperatorType → List α → Except Fail (List α)) (e : α)
    (nodes : List DagNode) (flows : List (Flow OperatorType)) : Prop where
  all : ∀ n ∈ nodes, ∃ flow ∈ flows, flow.eval sem e = dag.eval (runNode sem) e n.id
  only : ∀ flow ∈ flows, (∃ n ∈ nodes, flow.eval sem e = dag.eval (runNode sem) e n.id) ∨
    ∃ parts, flow.eval sem e = .ok parts
  last : flows.getLast?.map (Flow.eval sem e) =
    nodes.getLast?.map fun n => dag.eval (runNode sem) e n.id

theorem Computes.cons {nodes : List DagNode} {flows : List (Flow OperatorType)}
    (h : dag.Computes sem e nodes flows) {flow : Flow OperatorType}
    (hflow : flow.eval sem e = dag.eval (runNode sem) e n.id) :
    dag.Computes sem e (n :: nodes) (flow :: flows) where
  all := by
    rw [List.forall_mem_cons]
    refine ⟨⟨flow, List.mem_cons_self, hflow⟩, fun m hm => ?_⟩
    obtain ⟨other, hother, hvalue⟩ := h.all m hm
    exact ⟨other, List.mem_cons_of_mem flow hother, hvalue⟩
  only := by
    rw [List.forall_mem_cons]
    refine ⟨Or.inl ⟨n, List.mem_cons_self, hflow⟩, fun other hother => ?_⟩
    rcases h.only other hother with ⟨m, hm, hvalue⟩ | hok
    · exact Or.inl ⟨m, List.mem_cons_of_mem n hm, hvalue⟩
    · exact Or.inr hok
  last := by
    have hlast := h.last
    rw [List.getLast?_cons, List.getLast?_cons]
    cases hflows : flows.getLast? with
    | none =>
        rw [hflows] at hlast
        have hnone : nodes.getLast? = none := by simpa using hlast.symm
        rw [hnone]
        exact congrArg some hflow
    | some last =>
        rw [hflows, Option.map_some] at hlast
        obtain ⟨m, hm, hvalue⟩ := Option.map_eq_some_iff.mp hlast.symm
        rw [hm]
        exact congrArg some hvalue.symm

theorem Computes.shuffle {nodes : List DagNode} {flows : List (Flow OperatorType)}
    (h : dag.Computes sem e nodes flows) (hne : flows ≠ []) {flow : Flow OperatorType}
    {parts : List α} (hflow : flow.eval sem e = .ok parts) :
    dag.Computes sem e nodes (flow :: flows) where
  all := fun m hm => by
    obtain ⟨other, hother, hvalue⟩ := h.all m hm
    exact ⟨other, List.mem_cons_of_mem flow hother, hvalue⟩
  only := List.forall_mem_cons.mpr ⟨Or.inr ⟨parts, hflow⟩, h.only⟩
  last := by
    obtain ⟨last, hlast⟩ := Option.isSome_iff_exists.mp (List.getLast?_isSome.mpr hne)
    rw [← h.last, List.getLast?_cons, hlast]
    rfl

/-- The pipeline computes the values of the nodes, in any topological order. -/
theorem flows_computes (htree : dag.InTree sink)
    (hshuffle : ∀ id key, ∃ parts, sem id (.shuffleByKey key dag.partitions) [e] = .ok parts)
    (prev : Option DagNode) (hnodes : dag.Ordered (pre ++ rest))
    (hheld : dag.Held sem e pre table) :
    dag.Computes sem e rest
      (Pipeline.flows ((dag.injectAfter prev rest).map dag.stepOf) table) := by
  induction rest generalizing pre prev table with
  | nil => exact ⟨by simp, by simp [injectAfter, Pipeline.flows], rfl⟩
  | cons n rest ih =>
      have hn : n ∈ dag.nodes := hnodes.perm.mem_iff.mp (by simp)
      have hnodes' : dag.Ordered ((pre ++ [n]) ++ rest) := by
        rw [List.append_assoc, List.singleton_append]
        exact hnodes
      -- the node itself, from a table that may hold the output of its shuffle
      have hnode : ∀ table, dag.Held sem e pre table → dag.Computes sem e (n :: rest)
          (Pipeline.flows ((n :: dag.injectAfter (some n) rest).map dag.stepOf) table) := by
        intro table hheld
        have hflow : (Flow.node n.id n.operator
            (Pipeline.inputOf .empty (dag.stepOf n).parents table).1).eval sem e =
            dag.eval (runNode sem) e n.id := by
          rw [Flow.eval_node, hheld.input htree hnodes, eval_eq htree.acyclic htree.ids hn]
          rfl
        exact (ih (some n) hnodes' (hheld.next htree hnodes hflow)).cons hflow
      rw [injectAfter]
      rcases hinjected : dag.injected prev n with _ | ⟨shuffle, more⟩
      · exact hnode table hheld
      · have hmem : shuffle ∈ dag.injected prev n := by
          rw [hinjected]
          exact List.mem_cons_self
        obtain ⟨key, rfl, hone⟩ := mem_injected hmem
        rw [hone] at hinjected
        cases hinjected
        have hparents : (dag.stepOf
            ⟨shuffleId n.id, .shuffleByKey key dag.partitions⟩).parents = [] := by
          rw [stepOf_parents htree.declared htree.plain,
            edgesInto_shuffleId htree.declared htree.plain]
          rfl
        obtain ⟨parts, hparts⟩ := hshuffle (shuffleId n.id) key
        have hflow : (Flow.node (shuffleId n.id) (.shuffleByKey key dag.partitions)
            [Flow.empty]).eval sem e = .ok parts := by
          rw [Flow.eval_node, Flow.evalAll_singleton, Flow.eval]
          exact hparts
        have hpre : ∀ m ∈ pre, m ∈ dag.nodes := fun m hm =>
          hnodes.perm.mem_iff.mp (List.mem_append_left _ hm)
        have hrest := hnode _ (hheld.insert_shuffleId htree hpre n.id
          [.node (shuffleId n.id) (.shuffleByKey key dag.partitions) [.empty]])
        have hflows : Pipeline.flows ((([⟨shuffleId n.id, .shuffleByKey key dag.partitions⟩] :
              List DagNode) ++ n :: dag.injectAfter (some n) rest).map dag.stepOf) table =
            .node (shuffleId n.id) (.shuffleByKey key dag.partitions) [.empty] ::
              Pipeline.flows ((n :: dag.injectAfter (some n) rest).map dag.stepOf)
                (table.insert (shuffleId n.id)
                  [.node (shuffleId n.id) (.shuffleByKey key dag.partitions) [.empty]]) := by
          rw [List.singleton_append, List.map_cons, Pipeline.flows, hparents]
          rfl
        rw [hflows]
        exact hrest.shuffle (by simp [Pipeline.flows]) hflow

end

/-- The last node of a topological order of an in-tree is the sink. -/
theorem InTree.last_eq_sink {sink : DagNode} (htree : dag.InTree sink) {nodes : List DagNode}
    (hnodes : dag.Ordered nodes) : nodes.getLast? = some sink := by
  have hmem : sink ∈ nodes := hnodes.perm.mem_iff.mpr htree.sink_mem
  obtain ⟨init, last, rfl⟩ : ∃ init last, nodes = init ++ [last] :=
    ⟨_, _, (List.dropLast_append_getLast (List.ne_nil_of_mem hmem)).symm⟩
  have hlast : last ∈ dag.nodes := hnodes.perm.mem_iff.mp (by simp)
  have hsink : last = sink := by
    refine (htree.sink_iff last hlast).mp fun edge hedge hsource => ?_
    -- the target of an edge out of the last node would come after it
    have hsplit : ∀ m ∈ init ++ [last], m.id = edge.target → last ∈ init := by
      intro m hm hid
      obtain ⟨pre, rest, heq⟩ := List.append_of_mem hm
      have hbefore := hnodes.sorted pre m rest heq edge hedge hid.symm
      rw [hsource] at hbefore
      obtain ⟨l, hl, hlid⟩ := List.mem_map.mp hbefore
      have hpre : ∀ x ∈ pre, x ∈ init := by
        intro x hx
        cases rest using List.reverseRecOn with
        | nil => exact (List.append_inj' heq rfl).1 ▸ hx
        | append_singleton rest z _ =>
            have hinit : init ++ [last] = (pre ++ m :: rest) ++ [z] := by simpa using heq
            rw [(List.append_inj' hinit rfl).1]
            exact List.mem_append_left _ hx
      have hl' : l ∈ dag.nodes :=
        hnodes.perm.mem_iff.mp (List.mem_append_left _ (hpre l hl))
      obtain rfl := List.inj_on_of_nodup_map htree.ids hl' hlast hlid
      exact hpre l hl
    obtain ⟨m, hm, hid⟩ := List.mem_map.mp (htree.declared edge hedge).2
    have hinit := hsplit m (hnodes.perm.mem_iff.mpr hm) hid
    have hnodup : (init ++ [last]).Nodup := hnodes.perm.nodup_iff.mpr htree.ids.of_map
    exact (List.nodup_append.mp hnodup).2.2 last hinit last List.mem_cons_self rfl
  rw [List.getLast?_concat, hsink]

/-- When the sink has a value, every node has one. -/
theorem InTree.eval_ok {sink : DagNode} (htree : dag.InTree sink) {α : Type}
    {run : DagNode → List α → Except Fail (List α)} {e : α} {parts : List α}
    (hsink : dag.eval run e sink.id = .ok parts) :
    ∀ n ∈ dag.nodes, ∃ parts, dag.eval run e n.id = .ok parts := by
  obtain ⟨rank, hrank, hle⟩ := htree.acyclic.exists_rank
  have hlen : (edgePairs dag.edges).length = dag.edges.length := List.length_map ..
  intro n
  -- the child of a node has a larger rank
  induction hdepth : dag.edges.length - rank n.id using Nat.strong_induction_on generalizing n with
  | h depth ih =>
      intro hn
      by_cases hlast : n = sink
      · exact ⟨parts, hlast ▸ hsink⟩
      · have hopen := mt (htree.sink_iff n hn).mp hlast
        push Not at hopen
        obtain ⟨edge, hedge, hsource⟩ := hopen
        obtain ⟨child, hchild, hid⟩ := List.mem_map.mp (htree.declared edge hedge).2
        have hlt : rank edge.source < rank edge.target := hrank _ (mem_edgePairs hedge)
        have htop := hle edge.target
        obtain ⟨out, hout⟩ := ih (dag.edges.length - rank child.id) (by
          rw [hid]
          rw [hsource] at hlt
          omega) child rfl hchild
        rw [eval_eq htree.acyclic htree.ids hchild, inputValue] at hout
        have hinto : edge ∈ dag.edgesInto child.id := mem_edgesInto.mpr ⟨hedge, hid.symm⟩
        rw [if_neg (by simpa using List.ne_nil_of_mem hinto)] at hout
        cases hinputs : (dag.edgesInto child.id).mapM
            fun edge => dag.eval run e edge.source with
        | error err =>
            rw [hinputs] at hout
            cases hout
        | ok inputs =>
            obtain ⟨value, hvalue⟩ := mapM_ok_of_mem hinputs hinto
            exact ⟨value, hsource ▸ hvalue⟩

end DagSpecification

/-! ### The execution of an in-tree -/

namespace Executor

variable {F Uuid : Type} [BEq F] {ex : Executor F Uuid} {task : Task Uuid} {attempt : Attempt}
  {files : Files}

/-- Run the operator of a node on files that it does not change. -/
def runOperator (ex : Executor F Uuid) (attempt : Attempt) (task : Task Uuid) (files : Files)
    (n : DagNode) (input : List (PartitionData F)) : Except Fail (List (PartitionData F)) :=
  ((ex.operatorOf task n.operator).execute ex.host
    (attempt.order (task.operatorIds.idxOf n.id)) input files).1

omit [BEq F] in
theorem operatorIds_nodup {newV5 : Uuid → String → Uuid} {dag : DagSpecification}
    {sink : DagNode} (htree : dag.InTree sink) {order : HashOrder String} {jobId : Uuid}
    (htask : task ∈ dag.materializeTasks newV5 order jobId) : task.operatorIds.Nodup := by
  have hordered := DagSpecification.orderedNodes_ordered htree.acyclic htree.declared htree.ids
    order
  obtain ⟨-, hids, -, -, -⟩ := DagSpecification.task_nodes htask
  rw [hids, DagSpecification.injectLocalShuffle_eq]
  apply DagSpecification.injectAfter_nodup
  · exact (hordered.perm.map DagNode.id).nodup_iff.mpr htree.ids
  · exact fun n hn => htree.plain n (hordered.perm.mem_iff.mp hn)

omit [BEq F] in
/-- The place of an operator is that of its id. -/
theorem order_operatorId (ex : Executor F Uuid) (attempt : Attempt) (hnamed : Named task)
    (hnodup : task.operatorIds.Nodup) :
    ∀ idx < task.operators.length, attempt.order idx =
      attempt.order (task.operatorIds.idxOf ((ex.pipeline task).operatorId idx)) := by
  intro idx hidx
  have hlt : idx < task.operatorIds.length := hnamed.length ▸ hidx
  have hid : (ex.pipeline task).operatorId idx = task.operatorIds[idx] := by
    rw [Pipeline.operatorId, hnamed.operatorIds ex, List.getElem?_eq_getElem hlt]
    rfl
  rw [hid, hnodup.idxOf_getElem idx hlt]

/-- A shuffle of the empty partition does not fail. -/
theorem shuffle_emptyPartition (ex : Executor F Uuid) (task : Task Uuid) (attempt : Attempt)
    (files : Files) (partitions : Nat) (id key : String) :
    ∃ parts, Pipeline.onFiles ex.host
      (fun id => attempt.order (task.operatorIds.idxOf id)) (ex.operatorOf task) files id
      (.shuffleByKey key partitions) [(ex.pipeline task).emptyPartition] = .ok parts := by
  have hres : ∀ q ∈ [((ex.pipeline task).emptyPartition : PartitionData F)], q.Resident := by
    rw [List.forall_mem_singleton]
    rfl
  have hpos : 0 < max partitions 1 := by omega
  obtain ⟨parts, hexec⟩ : ∃ parts, ShuffleByKeyOp.execute ex.host ⟨key, max partitions 1⟩
      [(ex.pipeline task).emptyPartition] files = (.ok parts, files) :=
    ⟨_, ShuffleByKeyOp.execute_of_resident hpos hres (Nat.zero_le _) files⟩
  exact ⟨parts, congrArg Prod.fst hexec⟩

/-- The flows of a task are the values of the nodes of its specification. -/
theorem flows_computes_task (ex : Executor F Uuid) (attempt : Attempt) (files : Files)
    {newV5 : Uuid → String → Uuid} {dag : DagSpecification} {sink : DagNode}
    (htree : dag.InTree sink) {order : HashOrder String} {jobId : Uuid}
    (htask : task ∈ dag.materializeTasks newV5 order jobId) :
    dag.Computes (Pipeline.onFiles ex.host
        (fun id => attempt.order (task.operatorIds.idxOf id)) (ex.operatorOf task) files)
      (ex.pipeline task).emptyPartition (dag.orderedNodes order) (ex.flows task) := by
  have hordered : dag.Ordered ([] ++ dag.orderedNodes order) :=
    DagSpecification.orderedNodes_ordered htree.acyclic htree.declared htree.ids order
  have hheld : dag.Held (Pipeline.onFiles ex.host
      (fun id => attempt.order (task.operatorIds.idxOf id)) (ex.operatorOf task) files)
      (ex.pipeline task).emptyPartition [] ∅ := by
    intro n hn
    cases hn
  rw [flows, DagSpecification.task_steps ex htask, DagSpecification.injectLocalShuffle_eq]
  exact DagSpecification.flows_computes htree
    (shuffle_emptyPartition ex task attempt files dag.partitions) none hordered hheld

/-- An execution of a task of an in-tree completes exactly when the sink has a
value, and writes that value. -/
theorem executeSync_inTree (newV5 : Uuid → String → Uuid) {dag : DagSpecification} {sink : DagNode}
    (htree : dag.InTree sink) (order : HashOrder String) (jobId : Uuid)
    (htask : task ∈ dag.materializeTasks newV5 order jobId)
    (hmemory : ex.staysInMemory attempt task files) :
    ((ex.executeSync attempt task files).1.result.status = .completed ↔
      ∃ parts, dag.eval (ex.runOperator attempt task files) (ex.pipeline task).emptyPartition
        sink.id = .ok parts) ∧
    ∀ parts, dag.eval (ex.runOperator attempt task files) (ex.pipeline task).emptyPartition
        sink.id = .ok parts →
      (∃ stages, (ex.pipeline task).run ex.host attempt files = (.ok (parts, stages), files)) ∧
      (ex.executeSync attempt task files).1.output =
        parts.map fun q => (q.partitionId, q.held) := by
  have hnamed := DagSpecification.task_named htask
  have hordered := DagSpecification.orderedNodes_ordered htree.acyclic htree.declared htree.ids
    order
  let ord id := attempt.order (task.operatorIds.idxOf id)
  have hord : ∀ idx < task.operators.length,
      attempt.order idx = ord ((ex.pipeline task).operatorId idx) :=
    order_operatorId ex attempt hnamed (operatorIds_nodup htree htask)
  have hcomputes := flows_computes_task ex attempt files htree htask
  have hlast := hcomputes.last
  rw [htree.last_eq_sink hordered, Option.map_some] at hlast
  obtain ⟨last, hlastFlow, hlastValue⟩ := Option.map_eq_some_iff.mp hlast
  change ex.valueOf task ord files last = dag.eval (ex.runOperator attempt task files) _ sink.id
    at hlastValue
  rcases executeSync_flows hnamed hord hmemory with
    ⟨parts, stages, hrun, hstatus, hout, hall, hfinal⟩ |
    ⟨⟨message, hfailed⟩, -, flow, hflow, err, hvalue⟩
  · have hsink := hlastValue.symm.trans (hfinal last hlastFlow)
    refine ⟨iff_of_true hstatus ⟨parts, hsink⟩, fun parts' hparts' => ?_⟩
    obtain rfl : parts = parts' := Except.ok.inj (hsink.symm.trans hparts')
    exact ⟨⟨stages, hrun⟩, hout⟩
  · have hnone : ∀ parts, dag.eval (ex.runOperator attempt task files)
        (ex.pipeline task).emptyPartition sink.id ≠ .ok parts := by
      intro parts hparts
      have hok := htree.eval_ok hparts
      rcases hcomputes.only flow hflow with ⟨n, hn, heq⟩ | ⟨value, heq⟩
      · obtain ⟨value, hval⟩ := hok n (hordered.perm.mem_iff.mp hn)
        change ex.valueOf task ord files flow =
          dag.eval (ex.runOperator attempt task files) _ n.id at heq
        rw [hvalue, hval] at heq
        cases heq
      · change ex.valueOf task ord files flow = _ at heq
        rw [hvalue] at heq
        cases heq
    refine ⟨iff_of_false ?_ ?_, fun parts hparts => absurd hparts (hnone parts)⟩
    · rw [hfailed]
      simp
    · intro hsome
      obtain ⟨parts, hparts⟩ := hsome
      exact hnone parts hparts

end Executor

/-! ### A job that counts the rows of a join -/

namespace DagSpecification

/-- A node with an id that does not look like that of a shuffle. -/
theorem plainId_of {id : String} (harrow : ¬ ['-', '>'] <:+: id.toList)
    (hshuffle : ¬ "__shuffle_".toList <+: id.toList) : PlainId id := by
  refine ⟨harrow, fun x heq => hshuffle ?_⟩
  rw [heq, shuffleId, String.toList_append, String.toList_append, List.append_assoc]
  exact List.prefix_append _ _

def joinCount : DagSpecification where
  nodes := [⟨"count", .reduceByKey "left_k" "count"⟩, ⟨"join", .join "k" .inner⟩,
    ⟨"left", .read "in.csv" "csv"⟩, ⟨"right", .read "in.csv" "csv"⟩]
  edges := [⟨"left", "join"⟩, ⟨"right", "join"⟩, ⟨"join", "count"⟩]
  partitions := 1

theorem joinCount_inTree :
    joinCount.InTree ⟨"count", .reduceByKey "left_k" "count"⟩ where
  acyclic := acyclic_of_rank
    (fun id => if id = "count" then 2 else if id = "join" then 1 else 0) (by decide)
  declared := by decide
  ids := by decide
  plain n hn := plainId_of (by revert n; decide) (by revert n; decide)
  outgoing := by decide
  sink_mem := by decide
  sink_iff := by decide

end DagSpecification

namespace Executor

def joinCountTask : Option (Task Path) :=
  (DagSpecification.joinCount.materializeTasks (fun jobId name => name :: jobId) .insertion
    ["job"]).head?

/-- The task of the job completes because the sink has a value, which is what it
writes. -/
theorem executeSync_inTree_joinCount :
    ∃ task ∈ joinCountTask,
      ((plain []).executeSync .plain task JobRun.csvFiles).1.result.status = .completed ∧
      ((plain []).executeSync .plain task JobRun.csvFiles).1.output =
        [(0, [.object [("count", .number (.int 4)), ("left_k", .string "a")]])] := by
  have hsome : joinCountTask.isSome = true := by decide +kernel
  have hmemory : (plain []).staysInMemory .plain (joinCountTask.get hsome) JobRun.csvFiles := by
    decide +kernel +revert
  have hvalue : (DagSpecification.joinCount.eval
      ((plain []).runOperator .plain (joinCountTask.get hsome) JobRun.csvFiles)
      ((plain []).pipeline (joinCountTask.get hsome)).emptyPartition "count").map
        (fun parts => parts.map fun q => (q.partitionId, q.held)) =
      .ok [(0, [.object [("count", .number (.int 4)), ("left_k", .string "a")]])] := by
    decide +kernel +revert
  have htask := List.mem_of_head? (Option.some_get hsome).symm
  have htree := executeSync_inTree (fun jobId name => name :: jobId)
    DagSpecification.joinCount_inTree .insertion ["job"] htask hmemory
  cases hparts : DagSpecification.joinCount.eval
      ((plain []).runOperator .plain (joinCountTask.get hsome) JobRun.csvFiles)
      ((plain []).pipeline (joinCountTask.get hsome)).emptyPartition "count" with
  | error err =>
      rw [hparts] at hvalue
      cases hvalue
  | ok parts =>
      rw [hparts] at hvalue
      refine ⟨joinCountTask.get hsome, (Option.some_get hsome).symm,
        htree.1.mpr ⟨parts, hparts⟩, ?_⟩
      rw [(htree.2 parts hparts).2]
      exact Except.ok.inj hvalue

end Executor
end ProcessingEngine

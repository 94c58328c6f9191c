import Mathlib.Data.List.Permutation
import ProcessingEngine.Worker.Linear
import ProcessingEngine.Worker.NestedLoop

/-!
# A task that reads two inputs and joins them

The two reads come in either order, and the edges decide which input is the left
side.  The partitions that are read have one spill file between them: when both
are spilled, the first one to be taken apart takes the other one's records along,
and nothing is left for the second (`PartitionData.intoParts_pair_spilled`).
-/

namespace ProcessingEngine

open Lib Lib.Exec Text

variable {F Uuid : Type}

/-! ### Two partitions with one spill file -/

namespace PartitionData

variable {host : Host F} {pid limitBytes : Nat} {spill : Path} {files : Files}
  {lefts rights : List (Record F)}

/-- A partition in memory or alone in its spill file. -/
theorem intoParts_stored (hfresh : files.lookup spill = none)
    (hback : ∀ v ∈ lefts, host.ReadsBack v) :
    (stored host pid limitBytes spill lefts).intoParts host
        (PartitionCache.storedFiles host limitBytes spill lefts files) =
      (.ok (limitBytes, spill, lefts), files) := by
  have hparts := intoParts_of_filled (stored_filled host pid limitBytes spill lefts files)
    (by rw [stored_spillPath]; exact hfresh) hback
  rw [stored_limitBytes, stored_spillPath] at hparts
  exact hparts

/-- A partition in memory, whatever the files are. -/
theorem intoParts_of_fits (hfit : host.sizeOf lefts ≤ limitBytes) (files : Files) :
    (stored host pid limitBytes spill lefts).intoParts host files =
      (.ok (limitBytes, spill, lefts), files) := by
  have hresident : (stored host pid limitBytes spill lefts).Resident :=
    stored_resident_iff.mpr hfit
  rw [intoParts_of_resident host hresident, stored_limitBytes, stored_spillPath, stored_held hfit]

/-- A spilled partition is what is in its spill file. -/
theorem intoParts_of_exceeds {records : List (Record F)}
    (hlefts : ¬ host.sizeOf lefts ≤ limitBytes) (hrecords : ¬ host.sizeOf records ≤ limitBytes) :
    (stored host pid limitBytes spill lefts).intoParts host =
      (stored host pid limitBytes spill records).intoParts host := by
  rw [stored, stored, PartitionCache.stored, PartitionCache.stored, if_neg hlefts,
    if_neg hrecords]
  rfl

theorem storedFiles_storedFiles (hfresh : files.lookup spill = none)
    (hlefts : ¬ host.sizeOf lefts ≤ limitBytes) (hrights : ¬ host.sizeOf rights ≤ limitBytes) :
    PartitionCache.storedFiles host limitBytes spill rights
        (PartitionCache.storedFiles host limitBytes spill lefts files) =
      PartitionCache.storedFiles host limitBytes spill (lefts ++ rights) files := by
  have hboth : ¬ host.sizeOf (lefts ++ rights) ≤ limitBytes := by
    have hle := host.sizeOf_le_of_sublist (List.sublist_append_left lefts rights)
    omega
  rw [PartitionCache.storedFiles, PartitionCache.storedFiles, PartitionCache.storedFiles,
    if_neg hlefts, if_neg hrights, if_neg hboth, AList.lookup_insert, AList.insert_insert, hfresh,
    Host.jsonLines_append]
  rfl

section

variable {after : Files}

/-- Taking two partitions apart, at most one of which is spilled. -/
theorem intoParts_pair (hfresh : files.lookup spill = none)
    (hlefts : ∀ v ∈ lefts, host.ReadsBack v) (hrights : ∀ v ∈ rights, host.ReadsBack v)
    (hafter : after = PartitionCache.storedFiles host limitBytes spill rights
        (PartitionCache.storedFiles host limitBytes spill lefts files) ∨
      after = PartitionCache.storedFiles host limitBytes spill lefts
        (PartitionCache.storedFiles host limitBytes spill rights files))
    (hfit : host.sizeOf lefts ≤ limitBytes ∨ host.sizeOf rights ≤ limitBytes) :
    ∃ files₁, (stored host pid limitBytes spill lefts).intoParts host after =
        (.ok (limitBytes, spill, lefts), files₁) ∧
      (stored host pid limitBytes spill rights).intoParts host files₁ =
        (.ok (limitBytes, spill, rights), files) := by
  have hsame : ∀ {records : List (Record F)} (files : Files), host.sizeOf records ≤ limitBytes →
      PartitionCache.storedFiles host limitBytes spill records files = files :=
    fun files hrecords => if_pos hrecords
  by_cases hleft : host.sizeOf lefts ≤ limitBytes
  · rw [hsame _ hleft, hsame _ hleft, or_self] at hafter
    subst hafter
    exact ⟨_, intoParts_of_fits hleft _, intoParts_stored hfresh hrights⟩
  · have hright := hfit.resolve_left hleft
    rw [hsame _ hright, hsame _ hright, or_self] at hafter
    subst hafter
    exact ⟨files, intoParts_stored hfresh hlefts, intoParts_of_fits hright _⟩

/-- When both are spilled, nothing is left for the second one. -/
theorem intoParts_pair_spilled (hfresh : files.lookup spill = none)
    (hlefts : ∀ v ∈ lefts, host.ReadsBack v) (hrights : ∀ v ∈ rights, host.ReadsBack v)
    (hafter : after = PartitionCache.storedFiles host limitBytes spill rights
        (PartitionCache.storedFiles host limitBytes spill lefts files) ∨
      after = PartitionCache.storedFiles host limitBytes spill lefts
        (PartitionCache.storedFiles host limitBytes spill rights files))
    (hleft : ¬ host.sizeOf lefts ≤ limitBytes) (hright : ¬ host.sizeOf rights ≤ limitBytes) :
    ∃ records e, (stored host pid limitBytes spill lefts).intoParts host after =
        (.ok (limitBytes, spill, records), files) ∧
      (stored host pid limitBytes spill rights).intoParts host files = (.error e, files) := by
  have htogether : ∀ {as bs : List (Record F)}, (∀ v ∈ as, host.ReadsBack v) →
      (∀ v ∈ bs, host.ReadsBack v) → ¬ host.sizeOf as ≤ limitBytes →
      ¬ host.sizeOf bs ≤ limitBytes →
      after = PartitionCache.storedFiles host limitBytes spill bs
        (PartitionCache.storedFiles host limitBytes spill as files) →
      (stored host pid limitBytes spill lefts).intoParts host after =
        (.ok (limitBytes, spill, as ++ bs), files) := by
    intro as bs has hbs ha hb hafter
    have hboth : ¬ host.sizeOf (as ++ bs) ≤ limitBytes := by
      have hle := host.sizeOf_le_of_sublist (List.sublist_append_left as bs)
      omega
    rw [intoParts_of_exceeds hleft hboth, hafter, storedFiles_storedFiles hfresh ha hb]
    refine intoParts_stored hfresh fun v hv => ?_
    rcases List.mem_append.mp hv with hv | hv
    · exact has v hv
    · exact hbs v hv
  have hgone : (stored host pid limitBytes spill rights).intoParts host files =
      (.error (.error Files.notFound), files) := by
    have hspilled : (stored host pid limitBytes spill rights).cache.spilledFile = some spill := by
      rw [stored, PartitionCache.stored, if_neg hright]
      rfl
    simp only [intoParts, PartitionCache.drainAll, hspilled, PartitionCache.readSpilled, bind_apply,
      Files.read, Files.readOr_apply, hfresh]
  rcases hafter with hafter | hafter
  · exact ⟨_, _, htogether hlefts hrights hleft hright hafter, hgone⟩
  · exact ⟨_, _, htogether hrights hlefts hright hleft hafter, hgone⟩

end

end PartitionData

/-! ### The specification -/

/-- A node that reads an input. -/
structure Source where
  id : String
  uri : String
  format : String

def Source.node (source : Source) : DagNode := ⟨source.id, .read source.uri source.format⟩

namespace DagSpecification

/-- Two inputs are read and joined.  The first edge is that of the left side. -/
structure Joins (dag : DagSpecification) (left right : Source) (target : String) (op : JoinOp) :
    Prop where
  nodes : dag.nodes.Perm [left.node, right.node, ⟨target, .join op.key op.joinType⟩]
  edges : dag.edges = [⟨left.id, target⟩, ⟨right.id, target⟩]
  ids : [left.id, right.id, target].Nodup

variable {dag : DagSpecification} {left right : Source} {target : String} {op : JoinOp}

namespace Joins

theorem left_ne (h : dag.Joins left right target op) : left.id ≠ target := by
  have hids := h.ids
  simp only [List.nodup_cons, List.mem_cons, not_or] at hids
  exact hids.1.2.1

theorem right_ne (h : dag.Joins left right target op) : right.id ≠ target := by
  have hids := h.ids
  simp only [List.nodup_cons, List.mem_cons, not_or] at hids
  exact hids.2.1.1

theorem sides_ne (h : dag.Joins left right target op) : left.id ≠ right.id := by
  have hids := h.ids
  simp only [List.nodup_cons, List.mem_cons, not_or] at hids
  exact hids.1.1

theorem ordered (h : dag.Joins left right target op) (order : HashOrder String) :
    dag.Ordered (dag.orderedNodes order) := by
  refine orderedNodes_ordered ?_ ?_ ?_ order
  · refine acyclic_of_rank (fun id => if id = target then 1 else 0) fun p hp => ?_
    obtain ⟨edge, hedge, hsource, htarget⟩ := exists_of_mem_edgePairs hp
    rw [h.edges] at hedge
    rw [← hsource, ← htarget]
    rcases List.mem_pair.mp hedge with rfl | rfl
    · simp [h.left_ne]
    · simp [h.right_ne]
  · intro e he
    have hmem : ∀ id ∈ [left.id, right.id, target], id ∈ dag.nodes.map DagNode.id :=
      fun id hid => (h.nodes.map DagNode.id).mem_iff.mpr hid
    rw [h.edges] at he
    rcases List.mem_pair.mp he with rfl | rfl
    · exact ⟨hmem _ (by simp), hmem _ (by simp)⟩
    · exact ⟨hmem _ (by simp), hmem _ (by simp)⟩
  · exact (h.nodes.map DagNode.id).nodup_iff.mpr h.ids

/-- The reads come first, in either order. -/
theorem orderedNodes_cases (h : dag.Joins left right target op) (order : HashOrder String) :
    dag.orderedNodes order = [left.node, right.node, ⟨target, .join op.key op.joinType⟩] ∨
      dag.orderedNodes order = [right.node, left.node, ⟨target, .join op.key op.joinType⟩] := by
  obtain ⟨hperm, hsorted⟩ := h.ordered order
  have hperm := hperm.trans h.nodes
  generalize dag.orderedNodes order = nodes at hperm hsorted
  -- both sources stand before the join
  have hjoin : ∀ pre rest, nodes = pre ++ ⟨target, .join op.key op.joinType⟩ :: rest →
      left.id ∈ pre.map DagNode.id ∧ right.id ∈ pre.map DagNode.id := by
    intro pre rest heq
    have hedges := hsorted pre _ rest heq
    rw [h.edges] at hedges
    exact ⟨hedges ⟨left.id, target⟩ (by simp) rfl, hedges ⟨right.id, target⟩ (by simp) rfl⟩
  have hmem : (⟨target, .join op.key op.joinType⟩ : DagNode) ∈ nodes :=
    hperm.mem_iff.mpr (by simp)
  obtain ⟨pre, rest, rfl⟩ := List.append_of_mem hmem
  obtain ⟨hleft, hright⟩ := hjoin pre rest rfl
  have hpair : (pre ++ rest).Perm [left.node, right.node] := by
    have hlast : [left.node, right.node, ⟨target, .join op.key op.joinType⟩].Perm
        (⟨target, .join op.key op.joinType⟩ :: [left.node, right.node]) :=
      @List.perm_append_comm _ [left.node, right.node] [⟨target, .join op.key op.joinType⟩]
    exact (List.perm_cons _).mp (List.perm_middle.symm.trans (hperm.trans hlast))
  have hlength := hpair.length_eq
  rw [List.length_append] at hlength
  have hpre : 2 ≤ pre.length := by
    rw [← @List.length_map _ _ pre DagNode.id]
    have hsub : [left.id, right.id] ⊆ pre.map DagNode.id := by
      intro id hid
      rcases List.mem_pair.mp hid with rfl | rfl
      · exact hleft
      · exact hright
    exact (List.subperm_of_subset (by simpa using h.sides_ne) hsub).length_le
  obtain rfl : rest = [] := List.eq_nil_of_length_eq_zero (by simp at hlength; omega)
  rw [List.append_nil] at hpair
  rcases List.perm_pair.mp hpair with rfl | rfl
  · exact Or.inl rfl
  · exact Or.inr rfl

/-- The reads come first, and there is no shuffle. -/
theorem injected_cases (h : dag.Joins left right target op) (order : HashOrder String) :
    ∃ first second, ((first = left ∧ second = right) ∨ (first = right ∧ second = left)) ∧
      dag.injectLocalShuffle (dag.orderedNodes order) =
        [first.node, second.node, ⟨target, .join op.key op.joinType⟩] := by
  have hnone : ∀ n ∈ dag.orderedNodes order, n.operator.isReduceByKey = false := by
    intro n hn
    have hn := ((h.ordered order).1.trans h.nodes).mem_iff.mp hn
    simp only [List.mem_cons, List.not_mem_nil, or_false] at hn
    rcases hn with rfl | rfl | rfl <;> rfl
  rw [injectLocalShuffle_of_forall hnone]
  rcases h.orderedNodes_cases order with hnodes | hnodes
  · exact ⟨left, right, Or.inl ⟨rfl, rfl⟩, hnodes⟩
  · exact ⟨right, left, Or.inr ⟨rfl, rfl⟩, hnodes⟩

theorem incomingEdges_eq (h : dag.Joins left right target op) (id : String) :
    dag.incomingEdges id = if target = id then
      [edgeText ⟨left.id, target⟩, edgeText ⟨right.id, target⟩] else [] := by
  rw [incomingEdges, h.edges]
  by_cases heq : target = id
  · simp [heq]
  · simp [heq]

end Joins

/-- The texts of the two edges lead back to the nodes that read. -/
def Wired (left right target : String) : Prop :=
  beforeArrow (edgeText ⟨left, target⟩) = left ∧ beforeArrow (edgeText ⟨right, target⟩) = right

/-- Not both texts lead to the node of the other side. -/
theorem not_crossed {left right target : String} (hne : left ≠ right) :
    ¬ (beforeArrow (edgeText ⟨left, target⟩) = right ∧
      beforeArrow (edgeText ⟨right, target⟩) = left) := by
  intro h
  have hpre : ∀ source : String,
      (beforeArrow (edgeText ⟨source, target⟩)).toList <+: source.toList := by
    intro source
    rw [edgeText, toList_beforeArrow_edge]
    exact untilArrow_isPrefix source.toList
  have hright := hpre left
  have hleft := hpre right
  rw [h.1] at hright
  rw [h.2] at hleft
  refine hne (String.toList_inj.mp (hleft.eq_of_length ?_))
  exact le_antisymm hleft.length_le hright.length_le

end DagSpecification

/-! ### Taking the two sides out of the table -/

namespace Pipeline

variable {α : Type}

theorem takeParents_pair (results : HashMap String (List α)) (p q : String) :
    (takeParents [p, q] results).1 = (results.lookup p).getD [] ++
      if q = p then [] else (results.lookup q).getD [] := by
  have hone : ∀ results : HashMap String (List α),
      (takeParents [q] results).1 = (results.lookup q).getD [] := by
    intro results
    rw [takeParents]
    cases results.lookup q with
    | none => rfl
    | some parts => exact List.append_nil parts
  rw [takeParents]
  cases hp : results.lookup p with
  | none =>
      dsimp only
      rw [hone, Option.getD_none, List.nil_append]
      by_cases hqp : q = p
      · rw [if_pos hqp, hqp, hp]
        rfl
      · rw [if_neg hqp]
  | some parts =>
      dsimp only
      rw [hone, HashMap.lookup_erase]
      by_cases hqp : q = p
      · rw [if_pos hqp, if_pos hqp]
        rfl
      · rw [if_neg hqp, if_neg hqp]
        rfl

/-- Both sides are found in their places, or not both are found. -/
theorem takeParents_sides {results : HashMap String (List α)} {left right p q : String} {a b : α}
    (hne : left ≠ right) (hcross : ¬ (p = right ∧ q = left))
    (hlookup : ∀ id, (results.lookup id).getD [] =
      if id = left then [a] else if id = right then [b] else []) :
    (takeParents [p, q] results).1 = [a, b] ∧ (p = left ∧ q = right) ∨
      (takeParents [p, q] results).1.length ≠ 2 ∧ ¬ (p = left ∧ q = right) := by
  rw [takeParents_pair, hlookup, hlookup]
  by_cases hp : p = left
  · subst hp
    by_cases hq : q = right
    · subst hq
      simp [hne.symm]
    · refine Or.inr ⟨?_, fun h => hq h.2⟩
      rw [if_pos rfl, if_neg hq]
      split_ifs <;> simp
  · refine Or.inr ⟨?_, fun h => hp h.1⟩
    by_cases hp' : p = right
    · subst hp'
      have hq : q ≠ left := fun hq => hcross ⟨rfl, hq⟩
      rw [if_neg hp, if_pos rfl, if_neg hq]
      split_ifs <;> simp
    · rw [if_neg hp, if_neg hp', List.nil_append]
      split_ifs <;> simp

end Pipeline

theorem JoinOp.execute_of_length [BEq F] {host : Host F} {parts : List (PartitionData F)}
    (h : parts.length ≠ 2) (op : JoinOp) (files : Files) :
    ∃ e, op.execute host parts files = (.error e, files) := by
  cases parts with
  | nil => exact ⟨_, rfl⟩
  | cons a parts =>
      cases parts with
      | nil => exact ⟨_, rfl⟩
      | cons b parts =>
          cases parts with
          | nil => exact absurd rfl h
          | cons c parts => exact ⟨_, rfl⟩

/-- A join of which the second partition is gone. -/
theorem JoinOp.execute_of_gone [BEq F] {host : Host F} {left right : PartitionData F}
    {files files' : Files} {out : Nat × Path × List (Record F)} {e : Fail}
    (hleft : left.intoParts host files = (.ok out, files'))
    (hright : right.intoParts host files' = (.error e, files')) (op : JoinOp) :
    op.execute host [left, right] files = (.error e, files') := by
  show (left.intoParts host >>= _) files = _
  rw [bind_apply, hleft]
  show (right.intoParts host >>= _) files' = _
  rw [bind_apply, hright]

namespace Executor

/-- The pipeline of a task that reads `first`, then `second`, and joins them. -/
structure IsJoin (ex : Executor F Uuid) (task : Task Uuid) (left right : Source) (target : String)
    (op : JoinOp) (first second : Source) : Prop where
  sides : (first = left ∧ second = right) ∨ (first = right ∧ second = left)
  sides_ne : left.id ≠ right.id
  operators : (ex.pipeline task).operators = [.read (ex.readOf task first.uri first.format),
    .read (ex.readOf task second.uri second.format), .join op]
  first : (ex.pipeline task).operatorId 0 = first.id ∧ (ex.pipeline task).parents 0 = []
  second : (ex.pipeline task).operatorId 1 = second.id ∧ (ex.pipeline task).parents 1 = []
  last : (ex.pipeline task).operatorId 2 = target ∧ (ex.pipeline task).parents 2 =
    [beforeArrow (DagSpecification.edgeText ⟨left.id, target⟩),
      beforeArrow (DagSpecification.edgeText ⟨right.id, target⟩)]
  final : (ex.pipeline task).finalKey = target

theorem isJoin_of_mem {newV5 : Uuid → String → Uuid} {order : HashOrder String} {jobId : Uuid}
    {dag : DagSpecification} {left right : Source} {target : String} {op : JoinOp}
    (hdag : dag.Joins left right target op) {task : Task Uuid}
    (htask : task ∈ dag.materializeTasks newV5 order jobId) (ex : Executor F Uuid) :
    ∃ first second, ex.IsJoin task left right target op first second := by
  obtain ⟨first, second, hsides, hnodes⟩ := hdag.injected_cases order
  have hedges := hdag.incomingEdges_eq
  have hnode : ∀ (i : Nat) (n : DagNode), ([first.node, second.node,
      ⟨target, .join op.key op.joinType⟩] : List DagNode)[i]? = some n →
        (ex.pipeline task).operatorId i = n.id ∧
          (ex.pipeline task).parents i = (dag.incomingEdges n.id).map beforeArrow := by
    intro i n hn
    rw [← hnodes] at hn
    exact DagSpecification.task_node ex htask hn
  have hne : target ≠ first.id ∧ target ≠ second.id := by
    rcases hsides with ⟨rfl, rfl⟩ | ⟨rfl, rfl⟩
    · exact ⟨hdag.left_ne.symm, hdag.right_ne.symm⟩
    · exact ⟨hdag.right_ne.symm, hdag.left_ne.symm⟩
  obtain ⟨hid₀, hparents₀⟩ := hnode 0 _ rfl
  obtain ⟨hid₁, hparents₁⟩ := hnode 1 _ rfl
  obtain ⟨hid₂, hparents₂⟩ := hnode 2 _ rfl
  refine ⟨first, second, hsides, hdag.sides_ne, ?_, ⟨hid₀, ?_⟩, ⟨hid₁, ?_⟩, ⟨hid₂, ?_⟩, ?_⟩
  · show (Executor.operatorDefs task).map _ = _
    rw [(DagSpecification.task_named htask).operatorDefs, (DagSpecification.task_nodes htask).1,
      hnodes]
    rfl
  · rw [hparents₀, hedges, if_neg (show ¬ target = first.node.id from hne.1)]
    rfl
  · rw [hparents₁, hedges, if_neg (show ¬ target = second.node.id from hne.2)]
    rfl
  · rw [hparents₂, hedges, if_pos rfl]
    rfl
  · refine DagSpecification.task_finalKey ex htask (n := ⟨target, .join op.key op.joinType⟩) ?_
    rw [hnodes]
    rfl

/-! ### One execution -/

section

variable [BEq F] {ex : Executor F Uuid} {task : Task Uuid} {left right first second : Source}
  {target : String} {op : JoinOp}

/-- The table after the two reads. -/
def tableOf (first second : Source) (parts parts' : List (PartitionData F)) :
    HashMap String (List (PartitionData F)) :=
  AList.insert second.id parts' (AList.insert first.id parts ∅)

/-- The partitions that the two edges lead to. -/
def inputOf (left right : Source) (target : String)
    (table : HashMap String (List (PartitionData F))) : List (PartitionData F) :=
  (Pipeline.takeParents [beforeArrow (DagSpecification.edgeText ⟨left.id, target⟩),
    beforeArrow (DagSpecification.edgeText ⟨right.id, target⟩)] table).1

/-- The task joins what the two edges lead to. -/
theorem IsJoin.run_eq (h : ex.IsJoin task left right target op first second) (attempt : Attempt) :
    ∃ stages : List (PartitionData F) → List (PartitionData F) → List (PartitionData F) →
        List StageTrace,
      (ex.pipeline task).run ex.host attempt = (do
        let parts ← (Operator.read (ex.readOf task first.uri first.format)).execute ex.host
          (attempt.order 0) [(ex.pipeline task).emptyPartition]
        let parts' ← (Operator.read (ex.readOf task second.uri second.format)).execute ex.host
          (attempt.order 1) [(ex.pipeline task).emptyPartition]
        let out ← JoinOp.execute ex.host op
          (inputOf left right target (tableOf first second parts parts'))
        return (out, stages parts parts' out)) := by
  refine ⟨fun parts parts' out => [] ++ [(ex.pipeline task).stageTrace 0 parts] ++
    [(ex.pipeline task).stageTrace 1 parts'] ++ [(ex.pipeline task).stageTrace 2 out], ?_⟩
  rw [Pipeline.run_eq_bind, h.operators, Pipeline.runOperators_eq_bind, Exec.bind_assoc,
    h.first.2, h.first.1]
  refine congrArg (_ >>= ·) (funext fun parts => ?_)
  rw [Pipeline.runOperators_eq_bind, Exec.bind_assoc, h.second.2, h.second.1]
  refine congrArg (_ >>= ·) (funext fun parts' => ?_)
  show (Pipeline.runOperators ex.host attempt (ex.pipeline task) 2 [.join op]
    (tableOf first second parts parts') _ >>= _) = _
  rw [Pipeline.runOperators_eq_bind, Exec.bind_assoc, h.last.2, h.last.1]
  refine congrArg (_ >>= ·) (funext fun out => ?_)
  exact Pipeline.finish_insert h.final out _ _

omit [BEq F] in
/-- Both sides are joined in their order, or not two partitions. -/
theorem IsJoin.inputOf_cases (h : ex.IsJoin task left right target op first second)
    (part : Source → PartitionData F) :
    inputOf left right target (tableOf first second [part first] [part second]) =
          [part left, part right] ∧ DagSpecification.Wired left.id right.id target ∨
      (inputOf left right target (tableOf first second [part first] [part second])).length ≠ 2 ∧
        ¬ DagSpecification.Wired left.id right.id target := by
  apply Pipeline.takeParents_sides h.sides_ne (DagSpecification.not_crossed h.sides_ne)
  intro id
  rw [tableOf, HashMap.lookup_insert, HashMap.lookup_insert, AList.lookup_empty]
  have hne := h.sides_ne
  rcases h.sides with ⟨rfl, rfl⟩ | ⟨rfl, rfl⟩
  · by_cases hfirst : id = first.id
    · have hsecond : id ≠ second.id := fun e => hne (hfirst.symm.trans e)
      rw [if_neg hsecond, if_pos hfirst, if_pos hfirst]
      rfl
    · rw [if_neg hfirst, if_neg hfirst]
      split_ifs <;> rfl
  · by_cases hsecond : id = second.id
    · rw [if_pos hsecond, if_pos hsecond]
      rfl
    · rw [if_neg hsecond, if_neg hsecond]
      split_ifs <;> rfl

/-- A partition with the records, as the read operator makes it. -/
def partOf (ex : Executor F Uuid) (task : Task Uuid) (records : List (Record F)) :
    PartitionData F :=
  .stored ex.host task.partition ex.config.partitionCacheLimitBytes (ex.spillPath task) records

/-- The files with the records, if they are spilled. -/
def filesOf (ex : Executor F Uuid) (task : Task Uuid) (records : List (Record F))
    (files : Files) : Files :=
  PartitionCache.storedFiles ex.host ex.config.partitionCacheLimitBytes (ex.spillPath task)
    records files

theorem execute_source (source : Source) (order : HashOrder String)
    (input : List (PartitionData F)) (files : Files) :
    (Operator.read (ex.readOf task source.uri source.format)).execute ex.host order input files =
      match ex.inputRecords task source.uri source.format files with
      | .error e => (.error e, files)
      | .ok records => (.ok [ex.partOf task records], ex.filesOf task records files) :=
  execute_readOf order input

omit [BEq F] in
/-- What is spilled is not read by the next read operator. -/
theorem inputRecords_filesOf {uri : String} (huri : ex.host.resolve uri ≠ ex.spillPath task)
    (format : String) (records : List (Record F)) (files : Files) :
    ex.inputRecords task uri format (ex.filesOf task records files) =
      ex.inputRecords task uri format files := by
  rw [inputRecords, inputRecords, filesOf, PartitionCache.storedFiles]
  split_ifs
  · rfl
  · rw [AList.lookup_insert_ne huri]

theorem IsJoin.run_apply (h : ex.IsJoin task left right target op first second)
    (hinputs : ∀ source ∈ [left, right], ex.host.resolve source.uri ≠ ex.spillPath task)
    (attempt : Attempt) (files : Files) :
    ∃ stages : List (Record F) → List (Record F) → List (PartitionData F) → List StageTrace,
      (ex.pipeline task).run ex.host attempt files =
        match ex.inputRecords task first.uri first.format files,
            ex.inputRecords task second.uri second.format files with
        | .error e, _ => (.error e, files)
        | .ok records, .error e => (.error e, ex.filesOf task records files)
        | .ok records, .ok records' =>
            match JoinOp.execute ex.host op (inputOf left right target (tableOf first second
              [ex.partOf task records] [ex.partOf task records']))
              (ex.filesOf task records' (ex.filesOf task records files)) with
            | (.ok out, files') => (.ok (out, stages records records' out), files')
            | (.error e, files') => (.error e, files') := by
  have hsecond : ex.host.resolve second.uri ≠ ex.spillPath task := by
    rcases h.sides with ⟨-, rfl⟩ | ⟨-, rfl⟩
    · exact hinputs second (by simp)
    · exact hinputs second (by simp)
  obtain ⟨stages, hrun⟩ := h.run_eq attempt
  refine ⟨fun records records' => stages [ex.partOf task records] [ex.partOf task records'], ?_⟩
  rw [hrun, bind_apply, execute_source]
  cases ex.inputRecords task first.uri first.format files with
  | error e => rfl
  | ok records =>
      dsimp only
      rw [bind_apply, execute_source, inputRecords_filesOf hsecond]
      cases ex.inputRecords task second.uri second.format files with
      | error e => rfl
      | ok records' =>
          dsimp only
          rw [bind_apply]
          rcases JoinOp.execute ex.host op (inputOf left right target (tableOf first second
              [ex.partOf task records] [ex.partOf task records']))
              (ex.filesOf task records' (ex.filesOf task records files)) with ⟨_ | out, files'⟩
          · rfl
          · rfl

omit [BEq F] in
theorem IsJoin.exists_records_eq (h : ex.IsJoin task left right target op first second)
    (lefts rights : List (Record F)) :
    ∃ records : Source → List (Record F), records first = lefts ∧ records second = rights := by
  have hne : second.id ≠ first.id := by
    rcases h.sides with ⟨rfl, rfl⟩ | ⟨rfl, rfl⟩
    · exact h.sides_ne.symm
    · exact h.sides_ne
  exact ⟨fun source => if source.id = first.id then lefts else rights, if_pos rfl, if_neg hne⟩

/-- The edges lead to the sources, and both can be read. -/
def Joinable (ex : Executor F Uuid) (task : Task Uuid) (left right : Source) (target : String)
    (files : Files) : Prop :=
  DagSpecification.Wired left.id right.id target ∧ ∀ source ∈ [left, right],
    ∃ records, ex.inputRecords task source.uri source.format files = .ok records

theorem IsJoin.run_fails (h : ex.IsJoin task left right target op first second)
    (hinputs : ∀ source ∈ [left, right], ex.host.resolve source.uri ≠ ex.spillPath task)
    {files : Files} (hnot : ¬ ex.Joinable task left right target files) (attempt : Attempt) :
    ∃ e files', (ex.pipeline task).run ex.host attempt files = (.error e, files') := by
  obtain ⟨stages, hrun⟩ := h.run_apply hinputs attempt files
  cases hfirst : ex.inputRecords task first.uri first.format files with
  | error e =>
      rw [hfirst] at hrun
      exact ⟨_, _, hrun⟩
  | ok lefts =>
      cases hsecond : ex.inputRecords task second.uri second.format files with
      | error e =>
          rw [hfirst, hsecond] at hrun
          exact ⟨_, _, hrun⟩
      | ok rights =>
          rw [hfirst, hsecond] at hrun
          obtain ⟨records, rfl, rfl⟩ := h.exists_records_eq lefts rights
          have hreadable : ∀ source ∈ [left, right],
              ∃ records, ex.inputRecords task source.uri source.format files = .ok records := by
            intro source hsource
            have hsource : source = first ∨ source = second := by
              rcases h.sides with ⟨rfl, rfl⟩ | ⟨rfl, rfl⟩
              · exact List.mem_pair.mp hsource
              · exact (List.mem_pair.mp hsource).symm
            rcases hsource with rfl | rfl
            · exact ⟨_, hfirst⟩
            · exact ⟨_, hsecond⟩
          have hcount := ((h.inputOf_cases fun source =>
            ex.partOf task (records source)).resolve_left fun hwired =>
              hnot ⟨hwired.2, hreadable⟩).1
          obtain ⟨e, he⟩ := JoinOp.execute_of_length hcount op
            (ex.filesOf task (records second) (ex.filesOf task (records first) files))
          dsimp only at hrun
          rw [he] at hrun
          exact ⟨_, _, hrun⟩

/-- The two partitions of a task that can join, and its files. -/
theorem IsJoin.run_read (h : ex.IsJoin task left right target op first second)
    (hinputs : ∀ source ∈ [left, right], ex.host.resolve source.uri ≠ ex.spillPath task)
    {files : Files} (hwired : DagSpecification.Wired left.id right.id target)
    {records : Source → List (Record F)} (hread : ∀ source ∈ [left, right],
      ex.inputRecords task source.uri source.format files = .ok (records source))
    (attempt : Attempt) :
    ∃ (stages : List (PartitionData F) → List StageTrace) (after : Files),
      (after = ex.filesOf task (records right) (ex.filesOf task (records left) files) ∨
        after = ex.filesOf task (records left) (ex.filesOf task (records right) files)) ∧
      (ex.pipeline task).run ex.host attempt files =
        match JoinOp.execute ex.host op
          [ex.partOf task (records left), ex.partOf task (records right)] after with
        | (.ok out, files') => (.ok (out, stages out), files')
        | (.error e, files') => (.error e, files') := by
  obtain ⟨stages, hrun⟩ := h.run_apply hinputs attempt files
  have hinput := ((h.inputOf_cases fun source =>
    ex.partOf task (records source)).resolve_right fun hnot => hnot.2 hwired).1
  have hfirst : ex.inputRecords task first.uri first.format files = .ok (records first) := by
    rcases h.sides with ⟨rfl, -⟩ | ⟨rfl, -⟩
    · exact hread _ (by simp)
    · exact hread _ (by simp)
  have hsecond : ex.inputRecords task second.uri second.format files = .ok (records second) := by
    rcases h.sides with ⟨-, rfl⟩ | ⟨-, rfl⟩
    · exact hread _ (by simp)
    · exact hread _ (by simp)
  rw [hfirst, hsecond] at hrun
  dsimp only at hrun hinput
  rw [hinput] at hrun
  refine ⟨stages (records first) (records second), _, ?_, hrun⟩
  rcases h.sides with ⟨rfl, rfl⟩ | ⟨rfl, rfl⟩
  · exact Or.inl rfl
  · exact Or.inr rfl

end

end Executor

end ProcessingEngine

import ProcessingEngine.Lib.HashMap
import Mathlib.Data.Finset.Card
import Mathlib.Logic.Relation

/-!
# Breadth-first release of a dependency graph

The worklist loop of a topological sort: a node enters the queue when its
counter of unreleased incoming edges falls to zero.  `Released` is the invariant
of the loop.  It gives that no node is released twice (`traverse_nodup`) and
that as many iterations as there are counters empty the queue
(`traverse_queue`), for any initial order of the queue and any graph, cyclic
ones included.  On an acyclic graph all nodes are released, each after the
sources of its edges (`Released.traverse_sorted`, `Released.traverse_complete`).
-/

namespace ProcessingEngine
namespace Lib

variable {α : Type} [DecidableEq α]

/-- The targets of the edges that leave `u`, in order. -/
def targets (edges : List (α × α)) (u : α) : List α :=
  (edges.filter fun e => e.1 = u).map Prod.snd

/-- Take one edge into `child` off its counter and queue it at zero. -/
def releaseChild (s : HashMap α Nat × List α) (child : α) : HashMap α Nat × List α :=
  match s.1.lookup child with
  | none => s
  | some counter =>
      let counter := counter - 1
      (s.1.insert child counter, if counter = 0 then s.2 ++ [child] else s.2)

/-- Release the nodes of the queue one after another, for at most `fuel`
iterations.  Returns what is left of the queue and the released nodes. -/
def traverse (outgoing : HashMap α (List α)) :
    Nat → HashMap α Nat → List α → List α → List α × List α
  | 0, _, queue, done => (queue, done)
  | _ + 1, _, [], done => ([], done)
  | fuel + 1, incoming, id :: queue, done =>
      let s := ((outgoing.lookup id).getD []).foldl releaseChild (incoming, queue)
      traverse outgoing fuel s.1 s.2 (done ++ [id])

/-- The state of the loop while the edges to `pending` of the last released node
are still to be taken off. -/
structure Released (edges : List (α × α)) (keys : List α) (incoming : HashMap α Nat)
    (queue done pending : List α) : Prop where
  nodup : (done ++ queue).Nodup
  keys : ∀ v, v ∈ incoming ↔ v ∈ keys
  count : ∀ v c, incoming.lookup v = some c →
    c = edges.countP (fun e => e.2 = v ∧ e.1 ∉ done) + pending.count v
  zero : ∀ v ∈ done ++ queue, incoming.lookup v = some 0

variable {edges : List (α × α)} {keys : List α} {incoming : HashMap α Nat}
  {queue done pending : List α}

theorem Released.releaseChild {child : α}
    (h : Released edges keys incoming queue done (child :: pending)) :
    Released edges keys (releaseChild (incoming, queue) child).1
      (releaseChild (incoming, queue) child).2 done pending := by
  unfold Lib.releaseChild
  cases hc : incoming.lookup child with
  | none =>
      refine ⟨h.nodup, h.keys, fun v c hv => ?_, h.zero⟩
      have hne : child ≠ v := fun e => by rw [e, hv] at hc; cases hc
      rw [h.count v c hv, List.count_cons_of_ne hne]
  | some c =>
      have hcount := h.count child c hc
      rw [List.count_cons_self] at hcount
      have hpos : 0 < c := by omega
      have hfresh : child ∉ done ++ queue := fun hmem => by
        have := h.zero child hmem
        rw [hc] at this
        cases this
        omega
      have hmem : child ∈ incoming := AList.lookup_isSome.mp (by simp [hc])
      refine ⟨?_, fun v => ?_, fun v c' hv => ?_, fun v hv => ?_⟩
      · dsimp only
        split_ifs
        · rw [← List.append_assoc]
          exact h.nodup.append (List.nodup_singleton _) (by simpa using hfresh)
        · exact h.nodup
      · rw [AList.mem_insert, ← h.keys v]
        exact ⟨fun e => e.elim (fun e => e ▸ hmem) id, Or.inr⟩
      · by_cases hvc : v = child
        · subst hvc
          rw [AList.lookup_insert, Option.some.injEq] at hv
          omega
        · rw [AList.lookup_insert_ne hvc] at hv
          rw [h.count v c' hv, List.count_cons_of_ne (Ne.symm hvc)]
      · have hold : v ∈ done ++ queue → v ≠ child := fun hmem e => hfresh (e ▸ hmem)
        by_cases hvc : v = child
        · subst hvc
          dsimp only at hv ⊢
          rw [AList.lookup_insert]
          split_ifs at hv with hz
          · rw [hz]
          · exact absurd rfl (hold hv)
        · dsimp only at hv ⊢
          rw [AList.lookup_insert_ne hvc]
          split_ifs at hv with hz
          · rw [← List.append_assoc, List.mem_append, List.mem_singleton] at hv
            exact h.zero v (hv.resolve_right hvc)
          · exact h.zero v hv

theorem Released.foldl_releaseChild (h : Released edges keys incoming queue done pending) :
    Released edges keys (pending.foldl Lib.releaseChild (incoming, queue)).1
      (pending.foldl Lib.releaseChild (incoming, queue)).2 done [] := by
  induction pending generalizing incoming queue with
  | nil => exact h
  | cons child pending ih => exact ih h.releaseChild

/-- Moving the head of the queue to the released nodes puts its edges up for
release. -/
theorem Released.pop {id : α} (h : Released edges keys incoming (id :: queue) done []) :
    Released edges keys incoming queue (done ++ [id]) (targets edges id) := by
  have hnodup : (done ++ [id] ++ queue).Nodup := by
    simpa [List.append_assoc] using h.nodup
  have hid : id ∉ done := fun hmem =>
    (List.nodup_append.mp h.nodup).2.2 id hmem id List.mem_cons_self rfl
  refine ⟨hnodup, h.keys, fun v c hv => ?_, fun v hv => h.zero v (by simpa using hv)⟩
  rw [h.count v c hv, List.count_nil, Nat.add_zero,
    List.countP_eq_countP_filter_add edges _ fun e => decide (e.1 = id), Nat.add_comm]
  congr 1
  · rw [List.countP_filter]
    refine List.countP_congr fun e _ => ?_
    simp only [Bool.and_eq_true, Bool.not_eq_true', decide_eq_true_eq, decide_eq_false_iff_not,
      List.mem_append, List.mem_singleton, not_or]
    tauto
  · rw [targets, List.count_eq_countP, List.countP_map, List.countP_filter, List.countP_filter]
    refine List.countP_congr fun e _ => ?_
    simp only [Function.comp, Bool.and_eq_true, decide_eq_true_eq, beq_iff_eq]
    constructor
    · rintro ⟨⟨hv, _⟩, he⟩
      exact ⟨hv, he⟩
    · rintro ⟨hv, he⟩
      exact ⟨⟨hv, he ▸ hid⟩, he⟩

theorem Released.traverse {outgoing : HashMap α (List α)}
    (hout : ∀ u, (outgoing.lookup u).getD [] = targets edges u) {fuel : Nat}
    (h : Released edges keys incoming queue done []) :
    ((Lib.traverse outgoing fuel incoming queue done).2 ++
        (Lib.traverse outgoing fuel incoming queue done).1).Nodup ∧
      ∀ v ∈ (Lib.traverse outgoing fuel incoming queue done).2, v ∈ keys := by
  have hkeys : ∀ {done queue : List α} {incoming : HashMap α Nat},
      Released edges keys incoming queue done [] → ∀ v ∈ done, v ∈ keys := fun h v hv =>
    (h.keys v).mp (AList.lookup_isSome.mp (by simp [h.zero v (List.mem_append_left _ hv)]))
  induction fuel generalizing incoming queue done with
  | zero => exact ⟨h.nodup, hkeys h⟩
  | succ fuel ih =>
      cases queue with
      | nil => exact ⟨h.nodup, hkeys h⟩
      | cons id queue =>
          simp only [Lib.traverse, hout]
          exact ih h.pop.foldl_releaseChild

/-- No node is released twice. -/
theorem Released.traverse_nodup {outgoing : HashMap α (List α)}
    (hout : ∀ u, (outgoing.lookup u).getD [] = targets edges u) (fuel : Nat)
    (h : Released edges keys incoming queue done []) :
    (Lib.traverse outgoing fuel incoming queue done).2.Nodup :=
  (List.nodup_append.mp (h.traverse hout).1).1

/-- Each iteration releases one more node or finds the queue empty. -/
theorem traverse_length (outgoing : HashMap α (List α)) (fuel : Nat)
    (incoming : HashMap α Nat) (queue done : List α) :
    (traverse outgoing fuel incoming queue done).1 = [] ∨
      (traverse outgoing fuel incoming queue done).2.length = done.length + fuel := by
  induction fuel generalizing incoming queue done with
  | zero => exact Or.inr rfl
  | succ fuel ih =>
      cases queue with
      | nil => exact Or.inl rfl
      | cons id queue =>
          rcases ih ((((outgoing.lookup id).getD []).foldl releaseChild (incoming, queue)).1)
            ((((outgoing.lookup id).getD []).foldl releaseChild (incoming, queue)).2)
            (done ++ [id]) with h | h
          · exact Or.inl h
          · right
            rw [traverse, h, List.length_append]
            simp only [List.length_singleton]
            omega

/-- With more iterations than keys the loop ends because the queue is empty. -/
theorem Released.traverse_queue {outgoing : HashMap α (List α)}
    (hout : ∀ u, (outgoing.lookup u).getD [] = targets edges u) {fuel : Nat}
    (hfuel : keys.length < fuel) (h : Released edges keys incoming queue [] []) :
    (Lib.traverse outgoing fuel incoming queue []).1 = [] := by
  rcases traverse_length outgoing fuel incoming queue [] with hq | hlen
  · exact hq
  · have hsub := (List.subperm_of_subset (h.traverse_nodup hout fuel)
      fun v hv => (h.traverse hout).2 v hv).length_le
    simp only [List.length_nil] at hlen
    omega

/-! ### Acyclic graphs -/

/-- No node can be reached from itself. -/
def Acyclic (edges : List (α × α)) : Prop :=
  ∀ v, ¬ Relation.TransGen (fun a b => (a, b) ∈ edges) v v

omit [DecidableEq α] in
theorem acyclic_of_rank (rank : α → Nat) (h : ∀ e ∈ edges, rank e.1 < rank e.2) :
    Acyclic edges := by
  have hlt : ∀ {a b}, Relation.TransGen (fun a b => (a, b) ∈ edges) a b → rank a < rank b := by
    intro a b hab
    induction hab with
    | single hstep => exact h _ hstep
    | tail _ hstep ih => exact ih.trans (h _ hstep)
  exact fun v hv => Nat.lt_irrefl _ (hlt hv)

open Classical in
/-- The rank of a node is the number of nodes from which it can be reached. -/
theorem Acyclic.exists_rank (h : Acyclic edges) :
    ∃ rank : α → Nat, (∀ e ∈ edges, rank e.1 < rank e.2) ∧ ∀ v, rank v ≤ edges.length := by
  let sources := (edges.map Prod.fst).toFinset
  let before v := sources.filter fun x => Relation.TransGen (fun a b => (a, b) ∈ edges) x v
  refine ⟨fun v => (before v).card, fun e he => ?_, fun v => ?_⟩
  · have hedge : Relation.TransGen (fun a b => (a, b) ∈ edges) e.1 e.2 := .single he
    have hsource : e.1 ∈ sources := List.mem_toFinset.mpr (List.mem_map_of_mem he)
    apply Finset.card_lt_card
    rw [Finset.ssubset_iff_of_subset]
    · refine ⟨e.1, Finset.mem_filter.mpr ⟨hsource, hedge⟩, fun hself => ?_⟩
      exact h e.1 (Finset.mem_filter.mp hself).2
    · intro x hx
      have hx := Finset.mem_filter.mp hx
      exact Finset.mem_filter.mpr ⟨hx.1, hx.2.trans hedge⟩
  · calc (before v).card ≤ sources.card := Finset.card_filter_le _ _
      _ ≤ (edges.map Prod.fst).length := List.toFinset_card_le _
      _ = edges.length := List.length_map ..

/-- Every node of the list comes after the sources of the edges into it. -/
def Sorted (edges : List (α × α)) (order : List α) : Prop :=
  ∀ pre v rest, order = pre ++ v :: rest → ∀ e ∈ edges, e.2 = v → e.1 ∈ pre

omit [DecidableEq α] in
theorem Sorted.concat {order : List α} {v : α} (h : Sorted edges order)
    (hv : ∀ e ∈ edges, e.2 = v → e.1 ∈ order) : Sorted edges (order ++ [v]) := by
  intro pre w rest heq e he hw
  cases rest using List.reverseRecOn with
  | nil =>
      have hlast := List.append_inj' heq rfl
      obtain rfl : v = w := List.head_eq_of_cons_eq hlast.2
      exact hlast.1 ▸ hv e he hw
  | append_singleton rest z _ =>
      have hinit : order ++ [v] = (pre ++ w :: rest) ++ [z] := by simpa using heq
      exact h pre w rest (List.append_inj' hinit rfl).1 e he hw

/-- The released nodes are sorted, and every node whose counter is zero has been
queued. -/
structure Topological (edges : List (α × α)) (incoming : HashMap α Nat)
    (queue done : List α) : Prop where
  queued : ∀ v, incoming.lookup v = some 0 → v ∈ done ++ queue
  sorted : Sorted edges done

theorem Topological.releaseChild {child : α} (h : Topological edges incoming queue done) :
    Topological edges (Lib.releaseChild (incoming, queue) child).1
      (Lib.releaseChild (incoming, queue) child).2 done := by
  refine ⟨fun v hv => ?_, h.sorted⟩
  unfold Lib.releaseChild at hv ⊢
  cases hc : incoming.lookup child with
  | none =>
      rw [hc] at hv
      exact h.queued v hv
  | some c =>
      rw [hc] at hv
      dsimp only at hv ⊢
      by_cases hvc : v = child
      · subst hvc
        rw [AList.lookup_insert, Option.some.injEq] at hv
        rw [if_pos hv]
        simp
      · rw [AList.lookup_insert_ne hvc] at hv
        have hold := h.queued v hv
        split_ifs
        · rw [← List.append_assoc]
          exact List.mem_append_left _ hold
        · exact hold

theorem Topological.foldl_releaseChild {children : List α}
    (h : Topological edges incoming queue done) :
    Topological edges (children.foldl Lib.releaseChild (incoming, queue)).1
      (children.foldl Lib.releaseChild (incoming, queue)).2 done := by
  induction children generalizing incoming queue with
  | nil => exact h
  | cons child children ih => exact ih h.releaseChild

/-- The counter of a queued node counts the edges from nodes not released. -/
theorem Topological.pop {id : α} (hr : Released edges keys incoming (id :: queue) done [])
    (h : Topological edges incoming (id :: queue) done) :
    Topological edges incoming queue (done ++ [id]) := by
  refine ⟨fun v hv => by simpa using h.queued v hv, h.sorted.concat fun e he hid => ?_⟩
  have hzero := hr.count id 0 (hr.zero id (by simp))
  have hnone : edges.countP (fun e => e.2 = id ∧ e.1 ∉ done) = 0 := by omega
  have hnot := List.countP_eq_zero.mp hnone e he
  simpa [hid] using hnot

theorem Released.traverse_topological {outgoing : HashMap α (List α)}
    (hout : ∀ u, (outgoing.lookup u).getD [] = targets edges u) (fuel : Nat)
    (hr : Released edges keys incoming queue done [])
    (h : Topological edges incoming queue done) :
    ∃ incoming', Released edges keys incoming' (Lib.traverse outgoing fuel incoming queue done).1
        (Lib.traverse outgoing fuel incoming queue done).2 [] ∧
      Topological edges incoming' (Lib.traverse outgoing fuel incoming queue done).1
        (Lib.traverse outgoing fuel incoming queue done).2 := by
  induction fuel generalizing incoming queue done with
  | zero => exact ⟨incoming, hr, h⟩
  | succ fuel ih =>
      cases queue with
      | nil => exact ⟨incoming, hr, h⟩
      | cons id queue =>
          simp only [Lib.traverse, hout]
          exact ih hr.pop.foldl_releaseChild (h.pop hr).foldl_releaseChild

/-- Each node is released after the sources of its edges. -/
theorem Released.traverse_sorted {outgoing : HashMap α (List α)}
    (hout : ∀ u, (outgoing.lookup u).getD [] = targets edges u) (fuel : Nat)
    (hr : Released edges keys incoming queue [] [])
    (hqueued : ∀ v, incoming.lookup v = some 0 → v ∈ queue) :
    Sorted edges (Lib.traverse outgoing fuel incoming queue []).2 := by
  have hsorted : Sorted edges ([] : List α) := by
    intro pre v rest heq
    simp at heq
  obtain ⟨_, _, h⟩ := hr.traverse_topological hout fuel ⟨hqueued, hsorted⟩
  exact h.sorted

/-- Nodes of which the sources of edges have smaller rank, and which have a
counter, are released. -/
theorem Released.traverse_ranked {outgoing : HashMap α (List α)}
    (hout : ∀ u, (outgoing.lookup u).getD [] = targets edges u) {fuel : Nat}
    (hfuel : keys.length < fuel) (hr : Released edges keys incoming queue [] [])
    (hqueued : ∀ v, incoming.lookup v = some 0 → v ∈ queue) {p : α → Prop} {rank : α → Nat}
    (hkeys : ∀ v, p v → v ∈ keys)
    (hrank : ∀ e ∈ edges, p e.2 → p e.1 ∧ rank e.1 < rank e.2) :
    ∀ v, p v → v ∈ (Lib.traverse outgoing fuel incoming queue []).2 := by
  have hsorted : Sorted edges ([] : List α) := by
    intro pre v rest heq
    simp at heq
  obtain ⟨incoming', hr', h'⟩ :=
    hr.traverse_topological hout fuel ⟨hqueued, hsorted⟩
  rw [hr.traverse_queue hout hfuel] at hr' h'
  intro v
  -- a node that is not released waits for one of smaller rank
  induction hv : rank v using Nat.strong_induction_on generalizing v with
  | h r ih =>
      intro hp
      obtain ⟨c, hc⟩ := Option.isSome_iff_exists.mp
        (AList.lookup_isSome.mpr ((hr'.keys v).mpr (hkeys v hp)))
      have hcount := hr'.count v c hc
      have hnone : edges.countP (fun e =>
          e.2 = v ∧ e.1 ∉ (Lib.traverse outgoing fuel incoming queue []).2) = 0 := by
        apply List.countP_eq_zero.mpr
        intro e he
        by_cases hev : e.2 = v
        · obtain ⟨hsource, hlt⟩ := hrank e he (hev ▸ hp)
          rw [hev] at hlt
          have hmem := ih (rank e.1) (by omega) e.1 rfl hsource
          simp [hev, hmem]
        · simp [hev]
      rw [hnone, List.count_nil] at hcount
      obtain rfl : c = 0 := hcount
      have hdone := h'.queued v hc
      simpa using hdone

/-- On an acyclic graph, all nodes are released. -/
theorem Released.traverse_complete {outgoing : HashMap α (List α)}
    (hout : ∀ u, (outgoing.lookup u).getD [] = targets edges u) {fuel : Nat}
    (hfuel : keys.length < fuel) (hacyclic : Acyclic edges)
    (hsources : ∀ e ∈ edges, e.1 ∈ keys) (hr : Released edges keys incoming queue [] [])
    (hqueued : ∀ v, incoming.lookup v = some 0 → v ∈ queue) :
    ∀ v ∈ keys, v ∈ (Lib.traverse outgoing fuel incoming queue []).2 := by
  obtain ⟨rank, hrank, -⟩ := hacyclic.exists_rank
  exact hr.traverse_ranked hout hfuel hqueued (fun v hv => hv)
    fun e he _ => ⟨hsources e he, hrank e he⟩

/-! ### Graphs with cycles -/

/-- There is a path from `a` to `b`, possibly of no edge. -/
def Reaches (edges : List (α × α)) : α → α → Prop :=
  Relation.ReflTransGen fun a b => (a, b) ∈ edges

def OnCycle (edges : List (α × α)) (v : α) : Prop :=
  Relation.TransGen (fun a b => (a, b) ∈ edges) v v

omit [DecidableEq α] in
open Classical in
/-- Where nothing that reaches `v` is on a cycle, ranks increase along the edges. -/
theorem exists_rank_above {v : α} (h : ∀ a, Reaches edges a v → ¬ OnCycle edges a) :
    ∃ rank : α → Nat, ∀ e ∈ edges, Reaches edges e.2 v → rank e.1 < rank e.2 := by
  let above := edges.filter fun e => Reaches edges e.2 v
  have hsub : ∀ {a b}, Relation.TransGen (fun a b => (a, b) ∈ above) a b →
      Relation.TransGen (fun a b => (a, b) ∈ edges) a b ∧ Reaches edges b v := by
    intro a b hab
    induction hab with
    | single hstep =>
        have hstep := List.mem_filter.mp hstep
        exact ⟨.single hstep.1, of_decide_eq_true hstep.2⟩
    | tail _ hstep ih =>
        have hstep := List.mem_filter.mp hstep
        exact ⟨ih.1.tail hstep.1, of_decide_eq_true hstep.2⟩
  have hacyclic : Acyclic above := fun a ha => h a (hsub ha).2 (hsub ha).1
  obtain ⟨rank, hrank, -⟩ := hacyclic.exists_rank
  exact ⟨rank, fun e he hreach => hrank e (List.mem_filter.mpr ⟨he, decide_eq_true hreach⟩)⟩

/-- A node is released when everything that reaches it has a counter and is not on
a cycle. -/
theorem Released.mem_traverse {outgoing : HashMap α (List α)}
    (hout : ∀ u, (outgoing.lookup u).getD [] = targets edges u) {fuel : Nat}
    (hfuel : keys.length < fuel) (hr : Released edges keys incoming queue [] [])
    (hqueued : ∀ v, incoming.lookup v = some 0 → v ∈ queue) {v : α}
    (hcycles : ∀ a, Reaches edges a v → ¬ OnCycle edges a)
    (hkeys : ∀ a, Reaches edges a v → a ∈ keys) :
    v ∈ (Lib.traverse outgoing fuel incoming queue []).2 := by
  obtain ⟨rank, hrank⟩ := exists_rank_above hcycles
  have hsources : ∀ e ∈ edges, Reaches edges e.2 v → Reaches edges e.1 v ∧ rank e.1 < rank e.2 :=
    fun e he hreach => ⟨.head he hreach, hrank e he hreach⟩
  exact hr.traverse_ranked hout hfuel hqueued hkeys hsources v .refl

omit [DecidableEq α] in
/-- In a sorted list the source of an edge comes first. -/
theorem Sorted.sublist {order : List α} (h : Sorted edges order) {e : α × α} (he : e ∈ edges)
    (hmem : e.2 ∈ order) : [e.1, e.2].Sublist order := by
  obtain ⟨pre, rest, rfl⟩ := List.append_of_mem hmem
  have hsource := h pre e.2 rest rfl e he rfl
  exact List.Sublist.append (List.singleton_sublist.mpr hsource)
    (List.singleton_sublist.mpr List.mem_cons_self)

/-- Positions increase along the edges. -/
theorem Sorted.idxOf_lt {order : List α} (h : Sorted edges order) {a v : α}
    (hreach : Relation.TransGen (fun a b => (a, b) ∈ edges) a v) (hv : v ∈ order) :
    order.idxOf a < order.idxOf v := by
  have hedge : ∀ {a b}, (a, b) ∈ edges → b ∈ order →
      a ∈ order ∧ order.idxOf a < order.idxOf b := by
    intro a b hab hb
    obtain ⟨pre, rest, rfl, hfirst⟩ := List.eq_append_cons_of_mem hb
    have hsource : a ∈ pre := h pre b rest rfl (a, b) hab rfl
    refine ⟨List.mem_append_left _ hsource, ?_⟩
    rw [List.idxOf_append_of_mem hsource, List.idxOf_append_of_notMem hfirst]
    have hlt := List.idxOf_lt_length_of_mem hsource
    omega
  induction hreach with
  | single hstep => exact (hedge hstep hv).2
  | tail _ hstep ih =>
      obtain ⟨hmem, hlt⟩ := hedge hstep hv
      have hle := ih hmem
      omega

/-- Nothing that reaches a node of a sorted list is on a cycle. -/
theorem Sorted.not_onCycle {order : List α} (h : Sorted edges order) {a v : α}
    (hreach : Reaches edges a v) (hv : v ∈ order) : ¬ OnCycle edges a := by
  have ha : a ∈ order := by
    rcases Relation.reflTransGen_iff_eq_or_transGen.mp hreach with rfl | htrans
    · exact hv
    · have hlt := h.idxOf_lt htrans hv
      have hlength := List.idxOf_lt_length_of_mem hv
      exact List.idxOf_lt_length_iff.mp (hlt.trans hlength)
  intro hcycle
  have hlt := h.idxOf_lt hcycle ha
  omega

end Lib
end ProcessingEngine

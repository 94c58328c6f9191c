import Mathlib.Algebra.BigOperators.Group.Finset.Basic
import Mathlib.Algebra.BigOperators.Group.Finset.Sigma
import ProcessingEngine.Worker.FanOut

/-!
# How many partitions an operator gets

`validate` counts the edges into a join, the executor hands it partitions.  How
many there are is a matter of the operators and edges alone: `Pipeline.given` adds
up the widths of those operators that feed a position, and an execution gives each
operator as many (`length_input`).  A join of a task gets its two partitions
exactly when this number is two, and else the task fails
(`Executor.join_inputs_iff`).
-/

namespace ProcessingEngine

open Lib Text

variable {F Uuid : Type}

namespace Pipeline

instance decidableFeeds (p : Pipeline) (j i : Nat) : Decidable (p.Feeds j i) :=
  decidable_of_iff (j < i ∧ p.operatorId j ∈ p.parents i ∧ ∀ k ∈ List.range i, j < k →
      p.operatorId k ≠ p.operatorId j ∧ p.operatorId j ∉ p.parents k) <| by
    simp only [Feeds, List.mem_range]
    exact and_congr_right fun _ => and_congr_right fun _ =>
      ⟨fun h k hj hi => h k hi hj, fun h k hi hj => h k hj hi⟩

/-- How many partitions position `j` makes of `n`. -/
def widthAt (p : Pipeline) (j n : Nat) : Nat := (p.operators[j]?.map fun op => width op n).getD 0

/-- How many partitions position `i` is given, when the ones before it are given
`earlier`. -/
def givenBy (p : Pipeline) (i : Nat) (earlier : List Nat) : Nat :=
  if p.parents i = [] then 1
  else ∑ j ∈ Finset.range i, if p.Feeds j i then p.widthAt j (earlier[j]?.getD 0) else 0

def givens (p : Pipeline) : Nat → List Nat
  | 0 => []
  | i + 1 => p.givens i ++ [p.givenBy i (p.givens i)]

/-- How many partitions position `i` is given. -/
def given (p : Pipeline) (i : Nat) : Nat := p.givenBy i (p.givens i)

variable {p : Pipeline}

theorem givens_getElem? {i j : Nat} (h : j < i) : (p.givens i)[j]? = some (p.given j) := by
  have hlength : ∀ i, (p.givens i).length = i := by
    intro i
    induction i with
    | zero => rfl
    | succ i ih => rw [givens, List.length_append, ih, List.length_singleton]
  induction i with
  | zero => cases h
  | succ i ih =>
      rw [givens]
      by_cases hlast : j = i
      · subst hlast
        rw [List.getElem?_append_right (hlength j).le, hlength, Nat.sub_self]
        rfl
      · rw [List.getElem?_append_left (by rw [hlength]; omega)]
        exact ih (by omega)

/-- A position without parents gets an empty partition, any other the partitions of
the positions that feed it. -/
theorem given_eq (p : Pipeline) (i : Nat) :
    p.given i = if p.parents i = [] then 1
      else ∑ j ∈ Finset.range i, if p.Feeds j i then p.widthAt j (p.given j) else 0 := by
  rw [given, givenBy]
  congr 1
  refine Finset.sum_congr rfl fun j hj => ?_
  rw [givens_getElem? (Finset.mem_range.mp hj)]
  rfl

/-! ### The partitions in the table -/

/-- The result of position `j` is under the key when position `i` runs. -/
def Waits (p : Pipeline) (key : String) (j i : Nat) : Prop :=
  p.operatorId j = key ∧
    ∀ k, j < k → k < i → p.operatorId k ≠ key ∧ key ∉ p.parents k

instance decidableWaits (p : Pipeline) (key : String) (j i : Nat) : Decidable (p.Waits key j i) :=
  decidable_of_iff (p.operatorId j = key ∧ ∀ k ∈ List.range i, j < k →
      p.operatorId k ≠ key ∧ key ∉ p.parents k) <| by
    simp only [Waits, List.mem_range]
    exact and_congr_right fun _ => ⟨fun h k hj hi => h k hi hj, fun h k hi hj => h k hj hi⟩

theorem feeds_iff {i j : Nat} (hj : j < i) :
    p.Feeds j i ↔ p.operatorId j ∈ p.parents i ∧ p.Waits (p.operatorId j) j i := by
  rw [Feeds, Waits, and_iff_right hj, and_iff_right rfl]

variable {α : Type} {results : HashMap String (List α)} {i : Nat} {outputs : Nat → Nat}

def stock (results : HashMap String (List α)) (key : String) : Nat :=
  ((results.lookup key).getD []).length

/-- Taking out the parents yields what is in stock for them. -/
theorem length_takeParents (parents : List String) (results : HashMap String (List α)) :
    (takeParents parents results).1.length = ∑ key ∈ parents.toFinset, stock results key := by
  induction parents generalizing results with
  | nil => rfl
  | cons parent rest ih =>
      rw [List.toFinset_cons, takeParents]
      cases hlookup : results.lookup parent with
      | none =>
          have hnone : stock results parent = 0 := by
            rw [stock, hlookup]
            rfl
          rw [Finset.sum_insert_of_eq_zero_if_notMem fun _ => hnone]
          exact ih results
      | some parts =>
          have hparts : stock results parent = parts.length := by
            rw [stock, hlookup]
            rfl
          have herased : stock (results.erase parent) parent = 0 := by
            rw [stock, AList.lookup_erase]
            rfl
          show (parts ++ (takeParents rest (results.erase parent)).1).length = _
          rw [List.length_append, ih, ← Finset.add_sum_erase _ _ (Finset.mem_insert_self _ _),
            Finset.erase_insert_eq_erase, hparts, ← Finset.sum_erase _ herased]
          congr 1
          refine Finset.sum_congr rfl fun key hkey => ?_
          rw [stock, AList.lookup_erase_ne (Finset.ne_of_mem_erase hkey), stock]

/-- The table before position `i`, when position `j` has returned `outputs j`
partitions. -/
def Stocked (p : Pipeline) (outputs : Nat → Nat) (i : Nat) (results : HashMap String (List α)) :
    Prop :=
  ∀ key, stock results key = ∑ j ∈ Finset.range i, if p.Waits key j i then outputs j else 0

theorem Stocked.length_inputOf (h : p.Stocked outputs i results) (empty : α) :
    (inputOf empty (p.parents i) results).1.length = if p.parents i = [] then 1
      else ∑ j ∈ Finset.range i, if p.Feeds j i then outputs j else 0 := by
  unfold inputOf
  by_cases hnone : p.parents i = []
  · rw [if_pos hnone, if_pos (List.isEmpty_iff.mpr hnone)]
    rfl
  · rw [if_neg hnone, if_neg (by simpa using hnone), length_takeParents,
      Finset.sum_congr rfl fun key _ => h key, Finset.sum_comm]
    refine Finset.sum_congr rfl fun j hj => ?_
    -- the result of `j` waits under its own id only
    have hown : ∀ key, (if p.Waits key j i then outputs j else 0) =
        if key = p.operatorId j then (if p.Waits (p.operatorId j) j i then outputs j else 0)
        else 0 := by
      intro key
      by_cases hkey : key = p.operatorId j
      · rw [if_pos hkey, hkey]
      · rw [if_neg hkey, if_neg fun hwaits => hkey hwaits.1.symm]
    rw [Finset.sum_congr rfl fun key _ => hown key, Finset.sum_ite_eq', ← ite_and]
    refine if_congr ?_ rfl rfl
    rw [List.mem_toFinset]
    exact (feeds_iff (Finset.mem_range.mp hj)).symm

/-- The table after position `i`. -/
theorem Stocked.next (h : p.Stocked outputs i results) (empty : α) {parts : List α}
    (hparts : parts.length = outputs i) :
    p.Stocked outputs (i + 1)
      ((inputOf empty (p.parents i) results).2.insert (p.operatorId i) parts) := by
  intro key
  rw [Finset.sum_range_succ]
  by_cases hkey : key = p.operatorId i
  · have hnew : p.Waits key i (i + 1) := ⟨hkey.symm, fun k hk hk' => by omega⟩
    have hold : ∀ j ∈ Finset.range i, (if p.Waits key j (i + 1) then outputs j else 0) = 0 := by
      intro j hj
      refine if_neg fun hwaits => ?_
      exact (hwaits.2 i (Finset.mem_range.mp hj) (Nat.lt_succ_self i)).1 hkey.symm
    rw [Finset.sum_eq_zero hold, if_pos hnew, zero_add, stock, hkey, AList.lookup_insert]
    exact hparts
  · have hnew : ¬ p.Waits key i (i + 1) := fun hwaits => hkey hwaits.1.symm
    rw [if_neg hnew, add_zero, stock, AList.lookup_insert_ne hkey, lookup_inputOf]
    by_cases hparent : key ∈ p.parents i
    · rw [if_pos hparent, Finset.sum_eq_zero]
      · rfl
      · intro j hj
        refine if_neg fun hwaits => ?_
        exact (hwaits.2 i (Finset.mem_range.mp hj) (Nat.lt_succ_self i)).2 hparent
    · rw [if_neg hparent]
      refine (h key).trans (Finset.sum_congr rfl fun j hj => if_congr ?_ rfl rfl)
      refine and_congr_right fun _ => ⟨fun hopen k hk hk' => ?_, fun hopen k hk hk' => ?_⟩
      · by_cases hlast : k = i
        · subst hlast
          exact ⟨fun e => hkey e.symm, hparent⟩
        · exact hopen k hk (by omega)
      · exact hopen k hk (by omega)

/-! ### The executed operators -/

variable [BEq F] {host : Host F} {attempt : Attempt}

/-- Every operator that is executed gets as many partitions as it is given. -/
theorem length_input {files : Files} {i : Nat} {entry : Executed F}
    (hentry : (executed host attempt p 0 p.operators ∅ files)[i]? = some entry) :
    entry.input.length = p.given i := by
  induction i using Nat.strong_induction_on generalizing entry with
  | h i ih =>
      have hstart : p.Stocked
          (fun j => (outputAt (executed host attempt p 0 p.operators ∅ files) j).length) 0
          (∅ : HashMap String (List (Option Nat × PartitionData F))) := fun key => rfl
      have hlength := (executed_rule
        (M := p.Stocked fun j =>
          (outputAt (executed host attempt p 0 p.operators ∅ files) j).length)
        (C := fun idx input => input.length = if p.parents idx = [] then 1
          else ∑ j ∈ Finset.range idx, if p.Feeds j idx then
            (outputAt (executed host attempt p 0 p.operators ∅ files) j).length else 0)
        (fun _ _ h => h.length_inputOf (none, p.emptyPartition))
        (fun _ _ _ h hparts => h.next (none, p.emptyPartition) (by rw [List.length_map, hparts]))
        p.operators hstart (fun j e hj => by rwa [Nat.zero_add]) hentry).1
      rw [Nat.zero_add] at hlength
      rw [hlength, given_eq]
      congr 1
      refine Finset.sum_congr rfl fun j hj => ?_
      have hj := Finset.mem_range.mp hj
      obtain ⟨input, parts, hproducer⟩ := executed_ok p.operators hentry hj
      obtain ⟨-, op, files₁, hop, hout⟩ := executed_pipeline hproducer
      have hexec : op.execute host (attempt.order j) (input.map Prod.snd) files₁ =
          (.ok parts, (op.execute host (attempt.order j) (input.map Prod.snd) files₁).2) :=
        Prod.ext hout.symm rfl
      have hwidth := length_execute hexec
      have hgiven : input.length = p.given j := ih j hj hproducer
      rw [List.length_map, hgiven] at hwidth
      have hat : outputAt (executed host attempt p 0 p.operators ∅ files) j = parts := by
        rw [outputAt, hproducer]
        rfl
      rw [hat, hwidth, widthAt, hop]
      rfl

/-- The run fails as the last operator does that is executed. -/
theorem run_of_executed {files : Files} {i : Nat} {entry : Executed F} {e : Fail}
    (hentry : (executed host attempt p 0 p.operators ∅ files)[i]? = some entry)
    (hfailed : entry.output = .error e) : (p.run host attempt files).1 = .error e := by
  have hat : ((executed host attempt p 0 p.operators ∅ files).map Executed.output)[i]? =
      some (.error e) := by
    rw [List.getElem?_map, hentry, Option.map_some, hfailed]
  have hok : ∀ outs : List (List (PartitionData F)),
      (outs.map Except.ok : List (Except Fail _))[i]? ≠ some (.error e) := by
    intro outs h
    obtain ⟨out, -, heq⟩ := Option.map_eq_some_iff.mp ((List.getElem?_map ..).symm.trans h)
    cases heq
  have hempty : Unmarked (∅ : HashMap String (List (Option Nat × PartitionData F))) ∅ :=
    fun _ => rfl
  rcases runOperators_executed p.operators hempty [] files with
    ⟨outs, -, -, -, -, -, houts⟩ | ⟨err, outs, files', hrun, houts⟩
  · rw [houts] at hat
    exact absurd hat (hok outs)
  · rw [houts] at hat
    have hlast : i = outs.length := by
      by_contra hne
      rcases Nat.lt_or_gt_of_ne hne with hlt | hgt
      · rw [List.getElem?_append_left (by rwa [List.length_map])] at hat
        exact hok outs hat
      · rw [List.getElem?_eq_none (by simp; omega)] at hat
        cases hat
    rw [hlast, List.getElem?_append_right (by rw [List.length_map]), List.length_map,
      Nat.sub_self] at hat
    obtain rfl : err = e := Except.error.inj (Option.some.inj hat)
    rw [run, Exec.bind_apply, hrun]

end Pipeline

theorem JoinOp.execute_of_ne_two [BEq F] (host : Host F) (op : JoinOp)
    {input : List (PartitionData F)} (h : input.length ≠ 2) :
    op.execute host input = Exec.fail (wrongInputCount input.length) := by
  cases input with
  | nil => rfl
  | cons first rest =>
      cases rest with
      | nil => rfl
      | cons second rest =>
          cases rest with
          | nil => exact absurd rfl h
          | cons _ _ => rfl

namespace Executor

variable [BEq F]

/-- A join of a task gets two partitions exactly when it is given two; with any other
number the task fails. -/
theorem join_inputs_iff (newV5 : Uuid → String → Uuid) (ex : Executor F Uuid)
    (attempt : Attempt) (files : Files) (dag : DagSpecification) (order : HashOrder String)
    (jobId : Uuid) :
    ∀ task ∈ dag.materializeTasks newV5 order jobId,
      ∀ i op entry, (ex.pipeline task).operators[i]? = some (.join op) →
        (ex.executed attempt task files)[i]? = some entry →
        (entry.input.length = 2 ↔ (ex.pipeline task).given i = 2) ∧
          (entry.input.length ≠ 2 → ((ex.pipeline task).run ex.host attempt files).1 =
            .error (JoinOp.wrongInputCount entry.input.length)) := by
  intro task _ i op entry hop hentry
  refine ⟨by rw [Pipeline.length_input hentry], fun hne => ?_⟩
  refine Pipeline.run_of_executed hentry ?_
  obtain ⟨-, op', files₁, hop', hout⟩ := Pipeline.executed_pipeline hentry
  obtain rfl : Operator.join op = op' := Option.some.inj (hop.symm.trans hop')
  have hlength : (entry.input.map Prod.snd).length = entry.input.length := List.length_map ..
  rw [hout]
  show (op.execute ex.host (entry.input.map Prod.snd) files₁).1 = _
  rw [JoinOp.execute_of_ne_two ex.host op (by rwa [hlength]), hlength]
  rfl

end Executor

/-! ### A shuffled side -/

namespace DagSpecification

/-- A join whose left side is shuffled into two buckets. -/
def shuffledSide : DagSpecification where
  nodes := [⟨"left", .read "in.csv" "csv"⟩, ⟨"right", .read "in.csv" "csv"⟩,
    ⟨"buckets", .shuffleByKey "k" 2⟩, ⟨"join", .join "k" .inner⟩]
  edges := [⟨"left", "buckets"⟩, ⟨"buckets", "join"⟩, ⟨"right", "join"⟩]
  partitions := 1

/-- A join of two sources. -/
def plainSides : DagSpecification where
  nodes := [⟨"left", .read "in.csv" "csv"⟩, ⟨"right", .read "in.csv" "csv"⟩,
    ⟨"join", .join "k" .inner⟩]
  edges := [⟨"left", "join"⟩, ⟨"right", "join"⟩]
  partitions := 1

end DagSpecification

namespace Executor

/-- The task of a job with one partition. -/
def soleTask (dag : DagSpecification) : Option (Task Path) :=
  (dag.materializeTasks (fun jobId name => name :: jobId) .insertion ["job"]).head?

theorem join_inputs_iff_plainSides :
    ∃ task ∈ soleTask .plainSides, ∃ entry,
      ((plain []).executed .plain task JobRun.csvFiles)[2]? = some entry ∧
        (entry.input.length = 2 ↔ ((plain []).pipeline task).given 2 = 2) := by
  have hsome : (soleTask .plainSides).isSome = true := by decide +kernel
  have hop : ((plain []).pipeline ((soleTask .plainSides).get hsome)).operators[2]? =
      some (.join ⟨"k", .inner⟩) := by decide +kernel +revert
  have hran : (((plain []).executed .plain ((soleTask .plainSides).get hsome)
      JobRun.csvFiles)[2]?).isSome := by decide +kernel +revert
  obtain ⟨entry, hentry⟩ := Option.isSome_iff_exists.mp hran
  have htask := List.mem_of_head? (Option.some_get hsome).symm
  refine ⟨(soleTask .plainSides).get hsome, (Option.some_get hsome).symm, entry, hentry, ?_⟩
  exact (join_inputs_iff (fun jobId name => name :: jobId) (plain []) .plain JobRun.csvFiles
    .plainSides .insertion ["job"] _ htask 2 _ entry hop hentry).1

/-- The join gets the two buckets and the right side, and the task fails. -/
theorem shuffled_side_fails :
    DagSpecification.shuffledSide.validate = .ok () ∧ DagSpecification.shuffledSide.Acyclic ∧
      DagSpecification.shuffledSide.Declared ∧ ∃ task ∈ soleTask .shuffledSide,
        ((plain []).pipeline task).operators[3]? = some (.join ⟨"k", .inner⟩) ∧
        ((plain []).executed .plain task JobRun.csvFiles)[3]?.map (fun e => e.input.length) =
          some 3 ∧
        ((plain []).executeSync .plain task JobRun.csvFiles).1.result.status =
          .failed ("join: operator join failed: JoinOp requires exactly two input " ++
            "partitions (received 3)") := by
  have hsome : (soleTask .shuffledSide).isSome = true := by decide +kernel
  refine ⟨rfl, ?_, by decide, (soleTask .shuffledSide).get hsome, (Option.some_get hsome).symm,
    ?_, ?_, ?_⟩
  · exact Lib.acyclic_of_rank (fun id => if id = "join" then 2 else
      if id = "buckets" then 1 else 0) (by decide)
  · decide +kernel +revert
  · decide +kernel +revert
  · decide +kernel +revert

end Executor
end ProcessingEngine

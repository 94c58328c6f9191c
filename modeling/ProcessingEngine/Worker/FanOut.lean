import ProcessingEngine.Worker.InTree

/-!
# Shared results

The executor takes the result of a node out of the table for the first consumer
that runs.  `Pipeline.executed` is the run of a pipeline with every partition
marked by the operator it comes from.  An operator gets the results of those
positions that feed it: its parents, unless a later operator has consumed or
overwritten the result (`executed_input`).  Of two children of a node, at most
one is fed, so that all children receive the result exactly when it contains no
partition, which the order of the operators determines (`Dry`).
-/

namespace ProcessingEngine

open Lib Text

variable {F Uuid : Type}

/-- An operator that was executed: its input, with the position of the operator
that each partition comes from, and what it returned. -/
structure Executed (F : Type) where
  input : List (Option Nat × PartitionData F)
  output : Except Fail (List (PartitionData F))

namespace Executed

/-- The partitions that an operator left in the table. -/
def parts (e : Executed F) : List (PartitionData F) :=
  match e.output with
  | .ok parts => parts
  | .error _ => []

end Executed

namespace Pipeline

/-- The operators that are executed from number `idx` on. -/
def executed [BEq F] (host : Host F) (attempt : Attempt) (p : Pipeline) :
    Nat → List Operator → HashMap String (List (Option Nat × PartitionData F)) → Files →
      List (Executed F)
  | _, [], _, _ => []
  | idx, op :: rest, results, files =>
      let (input, results) := inputOf (none, p.emptyPartition) (p.parents idx) results
      match op.execute host (attempt.order idx) (input.map Prod.snd) files with
      | (.error e, _) => [⟨input, .error e⟩]
      | (.ok parts, files) =>
          ⟨input, .ok parts⟩ :: executed host attempt p (idx + 1) rest
            (results.insert (p.operatorId idx) (parts.map fun q => (some idx, q))) files

/-- The result at position `j` is in the table when position `i` runs, and is
for it. -/
def Feeds (p : Pipeline) (j i : Nat) : Prop :=
  j < i ∧ p.operatorId j ∈ p.parents i ∧
    ∀ k, j < k → k < i → p.operatorId k ≠ p.operatorId j ∧ p.operatorId j ∉ p.parents k

/-- Operators that return partitions whatever they get. -/
def isSource : Operator → Bool
  | .read _ => true
  | .shuffle _ => true
  | _ => false

/-- The positions that get no partition and return none: they have parents, but
every result that reaches them is of a position of this kind. -/
inductive Dry (p : Pipeline) : Nat → Prop
  | intro {i : Nat} (op : Operator) (hop : p.operators[i]? = some op)
      (hsource : isSource op = false) (hparents : p.parents i ≠ [])
      (hfed : ∀ j, p.Feeds j i → Dry p j) : Dry p i

/-! ### How many partitions an operator returns -/

/-- How many partitions an operator makes of `n`. -/
def width : Operator → Nat → Nat
  | .read _, _ => 1
  | .map _, n => n
  | .filter _, n => n
  | .flatMap _, n => n
  | .reduce _, n => min n 1
  | .reduceByKey _, n => min n 1
  | .join _, _ => 1
  | .shuffle op, _ => op.totalPartitions

theorem length_forEach {α β : Type} {f : α → Action β} {as : List α} {bs : List β}
    {files files' : Files} (h : Exec.forEach f as files = (.ok bs, files')) :
    bs.length = as.length := by
  induction as generalizing bs files with
  | nil =>
      cases h
      rfl
  | cons a as ih =>
      obtain ⟨b, files₁, -, hrest⟩ := Exec.bind_eq_ok.mp h
      obtain ⟨bs', files₂, hbs', hpure⟩ := Exec.bind_eq_ok.mp hrest
      cases hpure
      exact congrArg Nat.succ (ih hbs')

theorem length_single {x : Action (PartitionData F)} {out : List (PartitionData F)}
    {files files' : Files}
    (h : (do let partition ← x; return [partition] : Action (List (PartitionData F))) files =
      (.ok out, files')) : out.length = 1 := by
  obtain ⟨partition, files₁, -, hpure⟩ := Exec.bind_eq_ok.mp h
  cases hpure
  rfl

theorem length_reduceByKey {host : Host F} {order : HashOrder String} {op : ReduceByKeyOp}
    {input out : List (PartitionData F)} {files files' : Files}
    (h : op.execute host order input files = (.ok out, files')) :
    out.length = min input.length 1 := by
  cases input with
  | nil =>
      cases h
      rfl
  | cons first rest =>
      unfold ReduceByKeyOp.execute at h
      cases hparse : ReducerKind.parse op.reducer with
      | error e =>
          rw [hparse] at h
          cases h
      | ok reducer =>
          rw [hparse] at h
          obtain ⟨groups, files₁, -, h⟩ := Exec.bind_eq_ok.mp h
          rw [length_single h, List.length_cons]
          omega

theorem length_reduce {host : Host F} {op : ReduceOp} {input out : List (PartitionData F)}
    {files files' : Files} (h : op.execute host input files = (.ok out, files')) :
    out.length = min input.length 1 := by
  obtain ⟨reducer, files₁, -, h⟩ := Exec.bind_eq_ok.mp h
  cases input with
  | nil =>
      cases h
      rfl
  | cons first rest =>
      obtain ⟨records, files₂, -, h⟩ := Exec.bind_eq_ok.mp h
      rw [length_single h, List.length_cons]
      omega

theorem length_shuffle {host : Host F} {op : ShuffleByKeyOp} {input out : List (PartitionData F)}
    {files files' : Files} (h : op.execute host input files = (.ok out, files')) :
    out.length = op.totalPartitions := by
  unfold ShuffleByKeyOp.execute at h
  split_ifs at h with htotal
  · cases h
  · obtain ⟨records, files₁, -, h⟩ := Exec.bind_eq_ok.mp h
    have hlen := length_forEach h
    rw [List.length_zipIdx, ShuffleByKeyOp.length_buckets] at hlen
    exact hlen

/-- An operator that ends normally returns as many partitions as its width. -/
theorem length_execute [BEq F] {host : Host F} {order : HashOrder String} {op : Operator}
    {input out : List (PartitionData F)} {files files' : Files}
    (h : op.execute host order input files = (.ok out, files')) :
    out.length = width op input.length := by
  cases op with
  | read op =>
      obtain ⟨content, files₁, -, h⟩ := Exec.bind_eq_ok.mp h
      obtain ⟨records, files₂, -, h⟩ := Exec.bind_eq_ok.mp h
      exact length_single h
  | map op => exact length_forEach h
  | filter op =>
      obtain ⟨predicate, files₁, -, h⟩ := Exec.bind_eq_ok.mp h
      exact length_forEach h
  | flatMap op => exact length_forEach h
  | reduce op => exact length_reduce h
  | reduceByKey op => exact length_reduceByKey h
  | join op =>
      match input, h with
      | [], h => cases h
      | [_], h => cases h
      | [left, right], h =>
          obtain ⟨leftParts, files₁, -, h⟩ := Exec.bind_eq_ok.mp h
          obtain ⟨rightParts, files₂, -, h⟩ := Exec.bind_eq_ok.mp h
          obtain ⟨output, files₃, -, h⟩ := Exec.bind_eq_ok.mp h
          exact length_single h
      | _ :: _ :: _ :: _, h => cases h
  | shuffle op => exact length_shuffle h

/-- A shuffle into no buckets fails. -/
theorem totalPartitions_ne_zero [BEq F] {host : Host F} {order : HashOrder String}
    {op : ShuffleByKeyOp} {input out : List (PartitionData F)} {files files' : Files}
    (h : (Operator.shuffle op).execute host order input files = (.ok out, files')) :
    op.totalPartitions ≠ 0 := by
  intro hzero
  change ShuffleByKeyOp.execute host op input files = _ at h
  rw [ShuffleByKeyOp.execute, if_pos hzero] at h
  cases h

/-- An operator that ends normally returns no partition exactly when it gets
none and is not a source. -/
theorem execute_nil_iff [BEq F] {host : Host F} {order : HashOrder String} {op : Operator}
    {input out : List (PartitionData F)} {files files' : Files}
    (h : op.execute host order input files = (.ok out, files')) :
    out = [] ↔ isSource op = false ∧ input = [] := by
  have hlength := length_execute h
  rw [← List.length_eq_zero_iff, hlength, ← List.length_eq_zero_iff]
  cases op with
  | read readOp => simp [width, isSource]
  | reduce reduceOp => simp [width, isSource]
  | reduceByKey reduceOp => simp [width, isSource]
  | join joinOp =>
      have hinput : input ≠ [] := by
        intro hnil
        subst hnil
        cases h
      simp [width, isSource, hinput]
  | shuffle shuffleOp => simp [width, isSource, totalPartitions_ne_zero h]
  | _ => simp [width, isSource]

/-! ### Where the partitions of an input come from -/

/-- The partitions that position `j` left in the table. -/
def outputAt (log : List (Executed F)) (j : Nat) : List (PartitionData F) :=
  (log[j]?.map Executed.parts).getD []

/-- The table before position `idx`: under each key the last result for it,
unless that was consumed. -/
def Marked (p : Pipeline) (log : List (Executed F)) (idx : Nat)
    (results : HashMap String (List (Option Nat × PartitionData F))) : Prop :=
  ∀ key x, x ∈ (results.lookup key).getD [] ↔ ∃ j < idx, p.operatorId j = key ∧
    (∀ k, j < k → k < idx → p.operatorId k ≠ key ∧ key ∉ p.parents k) ∧
    ∃ q ∈ outputAt log j, x = (some j, q)

variable {p : Pipeline} {log : List (Executed F)} {idx : Nat}
  {results : HashMap String (List (Option Nat × PartitionData F))}

/-- What position `idx` gets from the table. -/
def InputAt (p : Pipeline) (log : List (Executed F)) (idx : Nat)
    (input : List (Option Nat × PartitionData F)) : Prop :=
  ∀ x, x ∈ input ↔ (p.parents idx = [] ∧ x = (none, p.emptyPartition)) ∨
    ∃ j, p.Feeds j idx ∧ ∃ q ∈ outputAt log j, x = (some j, q)

theorem Marked.inputAt (h : p.Marked log idx results) :
    p.InputAt log idx (inputOf (none, p.emptyPartition) (p.parents idx) results).1 := by
  intro x
  unfold inputOf
  by_cases hnone : p.parents idx = []
  · have hfeeds : ∀ j, ¬ p.Feeds j idx := by
      intro j hj
      rw [Feeds, hnone] at hj
      simp at hj
    rw [if_pos (by rw [hnone]; rfl), List.mem_singleton]
    constructor
    · exact fun hx => Or.inl ⟨hnone, hx⟩
    · intro hx
      rcases hx with hx | ⟨j, hj, -⟩
      · exact hx.2
      · exact absurd hj (hfeeds j)
  · rw [if_neg (by simpa using hnone)]
    constructor
    · intro hx
      obtain ⟨key, parts, hkey, hlookup, hmem⟩ := mem_takeParents _ hx
      have hmarked : x ∈ (results.lookup key).getD [] := by
        rw [hlookup]
        exact hmem
      obtain ⟨j, hj, rfl, hopen, hq⟩ := (h key x).mp hmarked
      exact Or.inr ⟨j, ⟨hj, hkey, hopen⟩, hq⟩
    · intro hx
      rcases hx with hx | ⟨j, hj, hq⟩
      · exact absurd hx.1 hnone
      · have hmarked := (h (p.operatorId j) x).mpr ⟨j, hj.1, rfl, hj.2.2, hq⟩
        cases hlookup : results.lookup (p.operatorId j) with
        | none =>
            rw [hlookup] at hmarked
            cases hmarked
        | some parts =>
            rw [hlookup] at hmarked
            exact mem_takeParents_of_mem hj.2.1 hlookup hmarked

theorem Marked.next (h : p.Marked log idx results) {parts : List (PartitionData F)}
    (hparts : outputAt log idx = parts) :
    p.Marked log (idx + 1)
      ((inputOf (none, p.emptyPartition) (p.parents idx) results).2.insert (p.operatorId idx)
        (parts.map fun q => (some idx, q))) := by
  intro key x
  by_cases hkey : key = p.operatorId idx
  · subst hkey
    rw [AList.lookup_insert, Option.getD_some, List.mem_map]
    constructor
    · intro ⟨q, hq, hx⟩
      refine ⟨idx, Nat.lt_succ_self idx, rfl, fun k hk hk' => ?_, q, hparts ▸ hq, hx.symm⟩
      omega
    · intro ⟨j, hj, hid, hopen, q, hq, hx⟩
      have hsame : j = idx := by
        by_contra hne
        exact (hopen idx (by omega) (by omega)).1 rfl
      subst hsame
      exact ⟨q, hparts ▸ hq, hx.symm⟩
  · rw [AList.lookup_insert_ne hkey, lookup_inputOf]
    constructor
    · intro hx
      split_ifs at hx with hparent
      · cases hx
      · obtain ⟨j, hj, hid, hopen, hq⟩ := (h key x).mp hx
        refine ⟨j, by omega, hid, fun k hk hk' => ?_, hq⟩
        by_cases hlast : k = idx
        · subst hlast
          exact ⟨fun heq => hkey heq.symm, hparent⟩
        · exact hopen k hk (by omega)
    · intro ⟨j, hj, hid, hopen, hq⟩
      have hlt : j < idx := by
        by_contra hge
        have hsame : j = idx := by omega
        exact hkey (hsame ▸ hid.symm)
      rw [if_neg (hopen idx hlt (by omega)).2]
      exact (h key x).mpr ⟨j, hlt, hid, fun k hk hk' => hopen k hk (by omega), hq⟩

section

variable [BEq F] {host : Host F} {attempt : Attempt}

theorem executed_cons (op : Operator) (ops : List Operator) (files : Files) :
    executed host attempt p idx (op :: ops) results files =
      match op.execute host (attempt.order idx)
        ((inputOf (none, p.emptyPartition) (p.parents idx) results).1.map Prod.snd) files with
      | (.error e, _) => [⟨(inputOf (none, p.emptyPartition) (p.parents idx) results).1, .error e⟩]
      | (.ok parts, files) =>
          ⟨(inputOf (none, p.emptyPartition) (p.parents idx) results).1, .ok parts⟩ ::
            executed host attempt p (idx + 1) ops
              ((inputOf (none, p.emptyPartition) (p.parents idx) results).2.insert
                (p.operatorId idx) (parts.map fun q => (some idx, q))) files := rfl

/-- What is kept in the table from one position to the next determines the input of
each executed operator. -/
theorem executed_rule {M : Nat → HashMap String (List (Option Nat × PartitionData F)) → Prop}
    {C : Nat → List (Option Nat × PartitionData F) → Prop}
    (hinput : ∀ idx results, M idx results →
      C idx (inputOf (none, p.emptyPartition) (p.parents idx) results).1)
    (hnext : ∀ idx results parts, M idx results → outputAt log idx = parts → M (idx + 1)
      ((inputOf (none, p.emptyPartition) (p.parents idx) results).2.insert (p.operatorId idx)
        (parts.map fun q => (some idx, q))))
    (ops : List Operator) {files : Files} (h : M idx results)
    (hlog : ∀ i entry, (executed host attempt p idx ops results files)[i]? = some entry →
      log[idx + i]? = some entry) {i : Nat} {entry : Executed F}
    (hentry : (executed host attempt p idx ops results files)[i]? = some entry) :
    C (idx + i) entry.input ∧ ∃ op files₁, ops[i]? = some op ∧
      entry.output = (op.execute host (attempt.order (idx + i)) (entry.input.map Prod.snd)
        files₁).1 := by
  induction ops generalizing idx results files i with
  | nil => simp [executed] at hentry
  | cons op ops ih =>
      rw [executed_cons] at hlog hentry
      cases hexec : op.execute host (attempt.order idx)
          ((inputOf (none, p.emptyPartition) (p.parents idx) results).1.map Prod.snd) files with
      | mk out files' =>
          rw [hexec] at hlog hentry
          cases out with
          | error e =>
              cases i with
              | zero =>
                  cases hentry
                  refine ⟨hinput idx results h, op, files, rfl, ?_⟩
                  rw [Nat.add_zero, hexec]
              | succ i => simp at hentry
          | ok parts =>
              dsimp only at hlog hentry
              cases i with
              | zero =>
                  cases hentry
                  refine ⟨hinput idx results h, op, files, rfl, ?_⟩
                  rw [Nat.add_zero, hexec]
              | succ i =>
                  have hparts : outputAt log idx = parts := by
                    have hfirst : log[idx]? = some _ := hlog 0 _ rfl
                    rw [outputAt, hfirst]
                    rfl
                  have hlog' : ∀ i entry, (executed host attempt p (idx + 1) ops
                      ((inputOf (none, p.emptyPartition) (p.parents idx) results).2.insert
                        (p.operatorId idx) (parts.map fun q => (some idx, q))) files')[i]? =
                      some entry → log[idx + 1 + i]? = some entry := by
                    intro i entry hi
                    have hshift : idx + 1 + i = idx + (i + 1) := by omega
                    rw [hshift]
                    exact hlog (i + 1) entry hi
                  have hrest := ih (hnext idx results parts h hparts) hlog' hentry
                  have hshift : idx + 1 + i = idx + (i + 1) := by omega
                  rw [hshift] at hrest
                  exact hrest

/-- Only the last executed operator can have failed. -/
theorem executed_ok (ops : List Operator) {files : Files} {i j : Nat} {entry : Executed F}
    (hentry : (executed host attempt p idx ops results files)[i]? = some entry) (hj : j < i) :
    ∃ input parts, (executed host attempt p idx ops results files)[j]? =
      some ⟨input, .ok parts⟩ := by
  induction ops generalizing idx results files i j with
  | nil => simp [executed] at hentry
  | cons op ops ih =>
      rw [executed_cons] at hentry ⊢
      cases hexec : op.execute host (attempt.order idx)
          ((inputOf (none, p.emptyPartition) (p.parents idx) results).1.map Prod.snd) files with
      | mk out files' =>
          rw [hexec] at hentry
          obtain ⟨i, rfl⟩ : ∃ i', i = i' + 1 := ⟨i - 1, by omega⟩
          cases out with
          | error e => simp at hentry
          | ok parts =>
              cases j with
              | zero => exact ⟨_, parts, rfl⟩
              | succ j => exact ih hentry (Nat.lt_of_succ_lt_succ hj)

/-- The input of each operator of the pipeline, and what it returns. -/
theorem executed_pipeline {files : Files} {i : Nat} {entry : Executed F}
    (hentry : (executed host attempt p 0 p.operators ∅ files)[i]? = some entry) :
    p.InputAt (executed host attempt p 0 p.operators ∅ files) i entry.input ∧
      ∃ op files₁, p.operators[i]? = some op ∧ entry.output =
        (op.execute host (attempt.order i) (entry.input.map Prod.snd) files₁).1 := by
  have hmarked : p.Marked (executed host attempt p 0 p.operators ∅ files) 0 ∅ := by
    intro key x
    simp
  have h := executed_rule (fun _ _ h => Marked.inputAt h) (fun _ _ _ h hparts => h.next hparts)
    p.operators hmarked (fun i entry hi => by rwa [Nat.zero_add]) hentry
  rwa [Nat.zero_add] at h

theorem feeds_of_mem {files : Files} {i j : Nat} {entry : Executed F}
    (hentry : (executed host attempt p 0 p.operators ∅ files)[i]? = some entry)
    {q : PartitionData F} (hq : (some j, q) ∈ entry.input) : p.Feeds j i := by
  rcases ((executed_pipeline hentry).1 (some j, q)).mp hq with ⟨-, hnone⟩ | ⟨j', hj', q', -, heq⟩
  · cases hnone
  · cases heq
    exact hj'

/-- An operator of the pipeline returns nothing exactly when its position is
dry. -/
theorem output_nil_iff_dry {files : Files} {i : Nat} {entry : Executed F}
    {parts : List (PartitionData F)}
    (hentry : (executed host attempt p 0 p.operators ∅ files)[i]? = some entry)
    (hparts : entry.output = .ok parts) : parts = [] ↔ p.Dry i := by
  induction i using Nat.strong_induction_on generalizing entry parts with
  | h i ih =>
      obtain ⟨hinput, op, files₁, hop, hout⟩ := executed_pipeline hentry
      rw [hparts] at hout
      have hexec : op.execute host (attempt.order i) (entry.input.map Prod.snd) files₁ =
          (.ok parts, (op.execute host (attempt.order i) (entry.input.map Prod.snd) files₁).2) :=
        Prod.ext hout.symm rfl
      have hfeeder : ∀ j, p.Feeds j i →
          (outputAt (executed host attempt p 0 p.operators ∅ files) j = [] ↔ p.Dry j) := by
        intro j hj
        obtain ⟨input, parts', hj'⟩ := executed_ok p.operators hentry hj.1
        have hat : outputAt (executed host attempt p 0 p.operators ∅ files) j = parts' := by
          rw [outputAt, hj']
          rfl
        rw [hat]
        exact ih j hj.1 hj' rfl
      rw [execute_nil_iff hexec, List.map_eq_nil_iff]
      constructor
      · intro ⟨hsource, hnil⟩
        refine .intro op hop hsource (fun hnone => ?_) fun j hj => (hfeeder j hj).mp ?_
        · have hmem := (hinput (none, p.emptyPartition)).mpr (Or.inl ⟨hnone, rfl⟩)
          rw [hnil] at hmem
          cases hmem
        · apply List.eq_nil_iff_forall_not_mem.mpr
          intro q hq
          have hmem := (hinput (some j, q)).mpr (Or.inr ⟨j, hj, q, hq, rfl⟩)
          rw [hnil] at hmem
          cases hmem
      · intro hdry
        obtain ⟨op', hop', hsource, hparents, hfed⟩ := hdry
        obtain rfl : op = op' := Option.some.inj (hop.symm.trans hop')
        refine ⟨hsource, List.eq_nil_iff_forall_not_mem.mpr fun x hx => ?_⟩
        rcases (hinput x).mp hx with ⟨hnone, -⟩ | ⟨j, hj, q, hq, -⟩
        · exact hparents hnone
        · rw [(hfeeder j hj).mpr (hfed j hj)] at hq
          cases hq

/-- The table without the marks. -/
def Unmarked (marked : HashMap String (List (Option Nat × PartitionData F)))
    (results : HashMap String (List (PartitionData F))) : Prop :=
  ∀ key, results.lookup key = (marked.lookup key).map (List.map Prod.snd)

omit [BEq F] in
theorem Unmarked.erase {marked : HashMap String (List (Option Nat × PartitionData F))}
    {results : HashMap String (List (PartitionData F))} (h : Unmarked marked results)
    (key : String) : Unmarked (marked.erase key) (results.erase key) := by
  intro key'
  by_cases hkey : key' = key
  · subst hkey
    rw [AList.lookup_erase, AList.lookup_erase]
    rfl
  · rw [AList.lookup_erase_ne hkey, AList.lookup_erase_ne hkey]
    exact h key'

omit [BEq F] in
theorem Unmarked.takeParents {marked : HashMap String (List (Option Nat × PartitionData F))}
    {results : HashMap String (List (PartitionData F))} (h : Unmarked marked results)
    (parents : List String) :
    (takeParents parents results).1 = (takeParents parents marked).1.map Prod.snd ∧
      Unmarked (takeParents parents marked).2 (takeParents parents results).2 := by
  induction parents generalizing marked results with
  | nil => exact ⟨rfl, h⟩
  | cons parent rest ih =>
      have hparent := h parent
      rw [Pipeline.takeParents, Pipeline.takeParents]
      cases hmarked : marked.lookup parent with
      | none =>
          rw [hmarked] at hparent
          rw [hparent]
          exact ih h
      | some parts =>
          rw [hmarked, Option.map_some] at hparent
          rw [hparent]
          have hrest := ih (h.erase parent)
          refine ⟨?_, hrest.2⟩
          dsimp only
          rw [hrest.1, List.map_append]

/-- The executed operators are those of the run: it ends normally when all of
them do, and otherwise as the last of them does. -/
theorem runOperators_executed (ops : List Operator)
    {marked : HashMap String (List (Option Nat × PartitionData F))}
    {results : HashMap String (List (PartitionData F))} (h : Unmarked marked results)
    (stages : List StageTrace) (files : Files) :
    (∃ (outs : List (List (PartitionData F))) (results' : _) (stages' : _) (files' : Files),
      p.runOperators host attempt idx ops results stages files =
        (.ok (results', stages'), files') ∧ outs.length = ops.length ∧
      (executed host attempt p idx ops marked files).map Executed.output = outs.map Except.ok) ∨
    ∃ (err : Fail) (outs : List (List (PartitionData F))) (files' : Files),
      p.runOperators host attempt idx ops results stages files = (.error err, files') ∧
      (executed host attempt p idx ops marked files).map Executed.output =
        outs.map Except.ok ++ [.error err] := by
  induction ops generalizing idx marked results stages files with
  | nil => exact Or.inl ⟨[], results, stages, files, rfl, rfl, rfl⟩
  | cons op ops ih =>
      have hinput : (inputOf p.emptyPartition (p.parents idx) results).1 =
            (inputOf (none, p.emptyPartition) (p.parents idx) marked).1.map Prod.snd ∧
          Unmarked (inputOf (none, p.emptyPartition) (p.parents idx) marked).2
            (inputOf p.emptyPartition (p.parents idx) results).2 := by
        unfold inputOf
        split_ifs
        · exact ⟨rfl, h⟩
        · exact h.takeParents _
      rw [runOperators_cons, executed_cons, hinput.1]
      cases op.execute host (attempt.order idx)
          ((inputOf (none, p.emptyPartition) (p.parents idx) marked).1.map Prod.snd) files with
      | mk out files' =>
          cases out with
          | error err => exact Or.inr ⟨err, [], files', rfl, rfl⟩
          | ok parts =>
              have hnext : Unmarked
                  ((inputOf (none, p.emptyPartition) (p.parents idx) marked).2.insert
                    (p.operatorId idx) (parts.map fun q => (some idx, q)))
                  ((inputOf p.emptyPartition (p.parents idx) results).2.insert
                    (p.operatorId idx) parts) := by
                intro key
                by_cases hkey : key = p.operatorId idx
                · subst hkey
                  rw [AList.lookup_insert, AList.lookup_insert, Option.map_some, List.map_map]
                  exact congrArg some (List.map_id' parts).symm
                · rw [AList.lookup_insert_ne hkey, AList.lookup_insert_ne hkey]
                  exact hinput.2 key
              rcases ih hnext (stages ++ [p.stageTrace idx parts]) files' with
                ⟨outs, results', stages', files'', hrun, hlen, houts⟩ |
                ⟨err, outs, files'', hrun, houts⟩
              · refine Or.inl ⟨parts :: outs, results', stages', files'', hrun,
                  congrArg Nat.succ hlen, ?_⟩
                rw [List.map_cons, List.map_cons, houts]
              · refine Or.inr ⟨err, parts :: outs, files'', hrun, ?_⟩
                rw [List.map_cons, List.map_cons, houts]
                rfl

end

/-- A result feeds one position at most. -/
theorem Feeds.unique {p : Pipeline} {j i i' : Nat} (h : p.Feeds j i) (h' : p.Feeds j i') :
    i = i' := by
  by_contra hne
  rcases Nat.lt_or_gt_of_ne hne with hlt | hlt
  · exact (h'.2.2 i h.1 hlt).2 h.2.1
  · exact (h.2.2 i' h'.1 hlt).2 h'.2.1

end Pipeline

namespace Executor

variable [BEq F]

/-- The operators of a task that an execution runs. -/
def executed (ex : Executor F Uuid) (attempt : Attempt) (task : Task Uuid) (files : Files) :
    List (Executed F) :=
  (ex.pipeline task).executed ex.host attempt 0 (ex.pipeline task).operators ∅ files

/-- The output of operator `j` is in the input of every child of the node `u`. -/
def ReachesChildren (ex : Executor F Uuid) (attempt : Attempt) (dag : DagSpecification)
    (task : Task Uuid) (files : Files) (u : String) (j : Nat) (parts : List (PartitionData F)) :
    Prop :=
  ∀ e ∈ dag.edges, e.source = u → ∃ (i : Nat) (consumer : Executed F),
    task.operatorIds[i]? = some e.target ∧ (ex.executed attempt task files)[i]? = some consumer ∧
    ∀ q ∈ parts, (some j, q) ∈ consumer.input

/-- When a node has two children, and all its children are executed, each of
them gets all of its output exactly when it has none to give. -/
theorem shared_output_iff (newV5 : Uuid → String → Uuid) (ex : Executor F Uuid)
    (attempt : Attempt) (files : Files) (dag : DagSpecification) (order : HashOrder String)
    (jobId : Uuid) (u c c' : String) (hc : ⟨u, c⟩ ∈ dag.edges) (hc' : ⟨u, c'⟩ ∈ dag.edges)
    (hne : c ≠ c') :
    ∀ task ∈ dag.materializeTasks newV5 order jobId,
      (∀ e ∈ dag.edges, e.source = u → ∃ i < (ex.executed attempt task files).length,
        task.operatorIds[i]? = some e.target) →
      ∀ j producer parts, task.operatorIds[j]? = some u →
        (ex.executed attempt task files)[j]? = some producer → producer.output = .ok parts →
        (ex.ReachesChildren attempt dag task files u j parts ↔ (ex.pipeline task).Dry j) := by
  intro task _ hchildren j producer parts _ hproducer hparts
  have hdry := Pipeline.output_nil_iff_dry hproducer hparts
  rw [← hdry]
  constructor
  · intro hreaches
    by_contra hsome
    obtain ⟨q, hq⟩ := List.exists_mem_of_ne_nil parts hsome
    obtain ⟨i, consumer, hi, hconsumer, hall⟩ := hreaches ⟨u, c⟩ hc rfl
    obtain ⟨i', consumer', hi', hconsumer', hall'⟩ := hreaches ⟨u, c'⟩ hc' rfl
    have hfed := Pipeline.feeds_of_mem hconsumer (hall q hq)
    have hfed' := Pipeline.feeds_of_mem hconsumer' (hall' q hq)
    obtain rfl := hfed.unique hfed'
    exact hne (Option.some.inj (hi.symm.trans hi'))
  · intro hnil e he hsource
    obtain ⟨i, hlt, hi⟩ := hchildren e he hsource
    refine ⟨i, (ex.executed attempt task files)[i], hi, List.getElem?_eq_getElem hlt, ?_⟩
    rw [hnil]
    intro q hq
    cases hq

end Executor

/-! ### A job with two nodes that fan out -/

namespace DagSpecification

/-- The children of `read` are `a` and `b`, and those of `b` are `c` and `d`. -/
def fanOut : DagSpecification where
  nodes := [⟨"read", .read "in.csv" "csv"⟩, ⟨"a", .identity⟩, ⟨"b", .identity⟩,
    ⟨"c", .identity⟩, ⟨"d", .identity⟩]
  edges := [⟨"read", "a"⟩, ⟨"read", "b"⟩, ⟨"b", "c"⟩, ⟨"b", "d"⟩]
  partitions := 1

theorem fanOut_acyclic : fanOut.Acyclic :=
  acyclic_of_rank (fun id => if id = "read" then 0 else if id = "a" ∨ id = "b" then 1 else 2)
    (by decide)

end DagSpecification

namespace Executor

def fanOutTask : Option (Task Path) :=
  (DagSpecification.fanOut.materializeTasks (fun jobId name => name :: jobId) .insertion
    ["job"]).head?

/-- The operators that an execution of the task runs. -/
def fanOutExecuted (task : Task Path) : List (Executed Int) :=
  (plain []).executed .plain task JobRun.csvFiles

/-- The node `a` gets the rows of the file, and `b` gets nothing.  The task
completes. -/
theorem shared_output_starved :
    DagSpecification.fanOut.Acyclic ∧ DagSpecification.fanOut.UniqueIds ∧
      DagSpecification.fanOut.Declared ∧ ∃ task ∈ fanOutTask,
        ((plain []).executeSync .plain task JobRun.csvFiles).1.result.status = .completed ∧
        ∃ producer parts, task.operatorIds[0]? = some "read" ∧
          (fanOutExecuted task)[0]? = some producer ∧ producer.output = .ok parts ∧
          ¬ (plain []).ReachesChildren .plain DagSpecification.fanOut task JobRun.csvFiles "read" 0
            parts := by
  have hsome : fanOutTask.isSome = true := by decide +kernel
  have hids : (fanOutTask.get hsome).operatorIds = ["read", "a", "b", "c", "d"] := by
    decide +kernel +revert
  have hstatus : ((plain []).executeSync .plain (fanOutTask.get hsome)
      JobRun.csvFiles).1.result.status = .completed := by
    decide +kernel +revert
  have hinputs : (fanOutExecuted (fanOutTask.get hsome)).map (fun e => e.input.map Prod.fst) =
      [[none], [some 0], [], [], []] := by
    decide +kernel +revert
  have houtput : (fanOutExecuted (fanOutTask.get hsome))[0]?.map
      (fun e => e.output.map (List.map PartitionData.held)) =
      some (.ok [[JobRun.csvRow "x", JobRun.csvRow "y"]]) := by
    decide +kernel +revert
  obtain ⟨producer, hproducer, hheld⟩ := Option.map_eq_some_iff.mp houtput
  cases hparts : producer.output with
  | error err =>
      rw [hparts] at hheld
      cases hheld
  | ok parts =>
      rw [hparts] at hheld
      have hheld := Except.ok.inj hheld
      refine ⟨DagSpecification.fanOut_acyclic, by decide, by decide, fanOutTask.get hsome,
        (Option.some_get hsome).symm, hstatus, producer, parts, by rw [hids]; rfl, hproducer,
        hparts, fun hreaches => ?_⟩
      obtain ⟨i, consumer, hi, hconsumer, hall⟩ := hreaches ⟨"read", "b"⟩ (by decide) rfl
      have hpos : i = 2 := by
        rw [hids] at hi
        obtain ⟨hlt, -⟩ := List.getElem?_eq_some_iff.mp hi
        have hnodup : (["read", "a", "b", "c", "d"] : List String).Nodup := by decide
        have hb : (["read", "a", "b", "c", "d"] : List String)[2]? = some "b" := rfl
        exact (List.getElem?_inj hlt hnodup).mp (hi.trans hb.symm)
      have hnone := congrArg (fun l => l[2]?) hinputs
      have hconsumer : (fanOutExecuted (fanOutTask.get hsome))[2]? = some consumer :=
        hpos ▸ hconsumer
      rw [List.getElem?_map, hconsumer] at hnone
      have hempty : consumer.input = [] := by simpa using hnone
      obtain ⟨q, hq⟩ : ∃ q, q ∈ parts := by
        cases parts with
        | nil => cases hheld
        | cons q parts => exact ⟨q, List.mem_cons_self⟩
      have hmem := hall q hq
      rw [hempty] at hmem
      cases hmem

/-- The node `b` has nothing to give, so its children get all of it. -/
theorem shared_output_iff_dryNode :
    ∃ task ∈ fanOutTask, ∃ producer parts, task.operatorIds[2]? = some "b" ∧
      (fanOutExecuted task)[2]? = some producer ∧ producer.output = .ok parts ∧
      (plain []).ReachesChildren .plain DagSpecification.fanOut task JobRun.csvFiles "b" 2
        parts := by
  have hsome : fanOutTask.isSome = true := by decide +kernel
  have hids : (fanOutTask.get hsome).operatorIds = ["read", "a", "b", "c", "d"] := by
    decide +kernel +revert
  have hlen : (fanOutExecuted (fanOutTask.get hsome)).length = 5 := by decide +kernel +revert
  have houtput : (fanOutExecuted (fanOutTask.get hsome))[2]?.map (fun e => e.output.isOk) =
      some true := by
    decide +kernel +revert
  have hop : ((plain []).pipeline (fanOutTask.get hsome)).operators[2]? =
      some (.map ⟨"identity"⟩) := by decide +kernel +revert
  have hparents : ((plain []).pipeline (fanOutTask.get hsome)).parents 1 = ["read"] ∧
      ((plain []).pipeline (fanOutTask.get hsome)).parents 2 = ["read"] := by
    decide +kernel +revert
  have hnames : ((plain []).pipeline (fanOutTask.get hsome)).operatorId 0 = "read" ∧
      ((plain []).pipeline (fanOutTask.get hsome)).operatorId 1 = "a" := by
    decide +kernel +revert
  have htask := List.mem_of_head? (Option.some_get hsome).symm
  obtain ⟨producer, hproducer, hheld⟩ := Option.map_eq_some_iff.mp houtput
  have hdry : ((plain []).pipeline (fanOutTask.get hsome)).Dry 2 := by
    refine .intro (.map ⟨"identity"⟩) hop rfl ?_ fun j hj => ?_
    · rw [hparents.2]
      exact List.cons_ne_nil _ _
    · obtain ⟨hlt, hparent, hopen⟩ := hj
      match j, hlt with
      | 0, _ =>
          have hconsumed := (hopen 1 (by omega) (by omega)).2
          rw [hnames.1, hparents.1] at hconsumed
          exact absurd List.mem_cons_self hconsumed
      | 1, _ =>
          rw [hnames.2, hparents.2] at hparent
          exact absurd hparent (by decide)
  cases hparts : producer.output with
  | error err =>
      rw [hparts] at hheld
      cases hheld
  | ok parts =>
      have hb : (fanOutTask.get hsome).operatorIds[2]? = some "b" := by
        rw [hids]
        rfl
      refine ⟨fanOutTask.get hsome, (Option.some_get hsome).symm, producer, parts, hb, hproducer,
        hparts, ?_⟩
      refine (shared_output_iff (fun jobId name => name :: jobId) (plain []) .plain JobRun.csvFiles
        DagSpecification.fanOut .insertion ["job"] "b" "c" "d" (by decide) (by decide) (by decide)
        (fanOutTask.get hsome) htask ?_ 2 producer parts hb hproducer hparts).mpr hdry
      intro e he hsource
      change ∃ i < (fanOutExecuted (fanOutTask.get hsome)).length, _
      rw [hlen, hids]
      revert e
      decide

end Executor
end ProcessingEngine

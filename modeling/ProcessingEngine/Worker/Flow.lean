import ProcessingEngine.Worker.Executor
import ProcessingEngine.Worker.Memory

/-!
# The dataflow of a pipeline

The executor keeps the outputs of the operators in a table and takes them out as
consumers run.  `Pipeline.flows` follows the table with expressions in place of
partitions: the expression of an operator is what it computes from the empty
partition of the task and the operators before it.  While nothing is spilled, an
execution is the evaluation of these expressions (`executeSync_flows`).
-/

namespace ProcessingEngine

open Lib

/-- What an operator computes: the operator, with the expressions of its
input. -/
inductive Flow (ω : Type) where
  | empty
  | node (id : String) (op : ω) (inputs : List (Flow ω))

namespace Flow

variable {ω ε α : Type}

mutual
def decEq [DecidableEq ω] : (a b : Flow ω) → Decidable (a = b)
  | .empty, .empty => .isTrue rfl
  | .empty, .node _ _ _ => .isFalse nofun
  | .node _ _ _, .empty => .isFalse nofun
  | .node id op inputs, .node id' op' inputs' =>
      match decEqAll inputs inputs' with
      | .isFalse h => .isFalse fun heq => h (Flow.node.inj heq).2.2
      | .isTrue h => decidable_of_iff (id = id' ∧ op = op')
          ⟨fun hnode => by rw [hnode.1, hnode.2, h],
            fun heq => ⟨(Flow.node.inj heq).1, (Flow.node.inj heq).2.1⟩⟩

def decEqAll [DecidableEq ω] : (as bs : List (Flow ω)) → Decidable (as = bs)
  | [], [] => .isTrue rfl
  | [], _ :: _ => .isFalse nofun
  | _ :: _, [] => .isFalse nofun
  | a :: as, b :: bs =>
      match decEq a b with
      | .isFalse h => .isFalse fun heq => h (List.cons.inj heq).1
      | .isTrue h =>
          match decEqAll as bs with
          | .isFalse h' => .isFalse fun heq => h' (List.cons.inj heq).2
          | .isTrue h' => .isTrue (by rw [h, h'])
end

instance decidableEqFlow [DecidableEq ω] : DecidableEq (Flow ω) := decEq

mutual
/-- The value of an expression.  `sem` is what an operator does to its input. -/
def eval (sem : String → ω → List α → Except ε (List α)) (e : α) : Flow ω → Except ε (List α)
  | .empty => .ok [e]
  | .node id op inputs => do
      let input ← evalAll sem e inputs
      sem id op input

/-- The values of the expressions, one after another. -/
def evalAll (sem : String → ω → List α → Except ε (List α)) (e : α) :
    List (Flow ω) → Except ε (List α)
  | [] => .ok []
  | flow :: flows => do
      let parts ← eval sem e flow
      let more ← evalAll sem e flows
      return parts ++ more
end

variable {sem : String → ω → List α → Except ε (List α)} {e : α}

theorem eval_node (id : String) (op : ω) (inputs : List (Flow ω)) :
    eval sem e (.node id op inputs) = (evalAll sem e inputs >>= sem id op) := by
  rw [eval]

theorem evalAll_cons (flow : Flow ω) (flows : List (Flow ω)) :
    evalAll sem e (flow :: flows) = (do
      let parts ← eval sem e flow
      let more ← evalAll sem e flows
      return parts ++ more) := by
  rw [evalAll]

theorem evalAll_singleton (flow : Flow ω) : evalAll sem e [flow] = eval sem e flow := by
  rw [evalAll_cons, evalAll]
  cases eval sem e flow with
  | error _ => rfl
  | ok parts => exact congrArg Except.ok (List.append_nil parts)

theorem evalAll_append (fs gs : List (Flow ω)) :
    evalAll sem e (fs ++ gs) = (do
      let parts ← evalAll sem e fs
      let more ← evalAll sem e gs
      return parts ++ more) := by
  induction fs with
  | nil =>
      rw [List.nil_append]
      cases h : evalAll sem e gs with
      | error _ => rw [evalAll]; rfl
      | ok more => rw [evalAll]; rfl
  | cons f fs ih =>
      rw [List.cons_append, evalAll_cons, evalAll_cons, ih]
      cases eval sem e f with
      | error _ => rfl
      | ok parts =>
          cases evalAll sem e fs with
          | error _ => rfl
          | ok more =>
              cases evalAll sem e gs with
              | error _ => rfl
              | ok rest => exact congrArg Except.ok (List.append_assoc parts more rest).symm

end Flow

/-- An operator of a pipeline, with its name and its parents. -/
structure Step (ω : Type) where
  id : String
  op : ω
  parents : List String

namespace Pipeline

variable {F ω ε α : Type}

/-- The expressions of the operators, in their order. -/
def flows : List (Step ω) → HashMap String (List (Flow ω)) → List (Flow ω)
  | [], _ => []
  | step :: rest, table =>
      let (inputs, table) := inputOf .empty step.parents table
      let flow := .node step.id step.op inputs
      flow :: flows rest (table.insert step.id [flow])

/-- The operators from number `idx` on, labelled. -/
def steps (p : Pipeline) : Nat → List ω → List (Step ω)
  | _, [] => []
  | idx, op :: rest => ⟨p.operatorId idx, op, p.parents idx⟩ :: p.steps (idx + 1) rest

/-- Execute the operators on a table of results. -/
def evalSteps (sem : String → ω → List α → Except ε (List α)) (e : α) :
    List (Step ω) → HashMap String (List α) → Except ε (HashMap String (List α))
  | [], results => .ok results
  | step :: rest, results =>
      (sem step.id step.op (inputOf e step.parents results).1).bind fun parts =>
        evalSteps sem e rest ((inputOf e step.parents results).2.insert step.id parts)

/-- No operator that ends normally leaves a partition of its output on disk. -/
def staysInMemory [BEq F] (host : Host F) (attempt : Attempt) (p : Pipeline) :
    Nat → List Operator → HashMap String (List (PartitionData F)) → Files → Bool
  | _, [], _, _ => true
  | idx, op :: rest, results, files =>
      let (input, results) :=
        inputOf (.empty p.partitionId p.cacheLimit p.spillPath) (p.parents idx) results
      match op.execute host (attempt.order idx) input files with
      | (.error _, _) => true
      | (.ok partitions, files) =>
          partitions.all (fun q => !q.cache.hasSpill) &&
            staysInMemory host attempt p (idx + 1) rest
              (results.insert (p.operatorId idx) partitions) files

/-! ### The tables -/

/-- The table of expressions and the table of their values. -/
def Valued (sem : String → ω → List α → Except ε (List α)) (e : α)
    (table : HashMap String (List (Flow ω))) (results : HashMap String (List α)) : Prop :=
  ∀ key, (table.lookup key).map (Flow.evalAll sem e) = (results.lookup key).map Except.ok

variable {sem : String → ω → List α → Except ε (List α)} {e : α}

theorem Valued.insert {table : HashMap String (List (Flow ω))} {results : HashMap String (List α)}
    (h : Valued sem e table results) (key : String) {flow : Flow ω} {parts : List α}
    (hflow : flow.eval sem e = .ok parts) :
    Valued sem e (table.insert key [flow]) (results.insert key parts) := by
  intro key'
  by_cases hkey : key' = key
  · subst hkey
    rw [AList.lookup_insert, AList.lookup_insert, Option.map_some, Option.map_some,
      Flow.evalAll_singleton, hflow]
  · rw [AList.lookup_insert_ne hkey, AList.lookup_insert_ne hkey]
    exact h key'

theorem Valued.erase {table : HashMap String (List (Flow ω))} {results : HashMap String (List α)}
    (h : Valued sem e table results) (key : String) :
    Valued sem e (table.erase key) (results.erase key) := by
  intro key'
  by_cases hkey : key' = key
  · subst hkey
    rw [AList.lookup_erase, AList.lookup_erase]
    rfl
  · rw [AList.lookup_erase_ne hkey, AList.lookup_erase_ne hkey]
    exact h key'

theorem Valued.takeParents {table : HashMap String (List (Flow ω))}
    {results : HashMap String (List α)} (h : Valued sem e table results) (parents : List String) :
    Flow.evalAll sem e (takeParents parents table).1 = .ok (takeParents parents results).1 ∧
      Valued sem e (takeParents parents table).2 (takeParents parents results).2 := by
  induction parents generalizing table results with
  | nil => exact ⟨by rw [Pipeline.takeParents, Flow.evalAll]; rfl, h⟩
  | cons parent rest ih =>
      have hparent := h parent
      rw [Pipeline.takeParents, Pipeline.takeParents]
      cases htable : table.lookup parent with
      | none =>
          rw [htable] at hparent
          have hnone : results.lookup parent = none := by
            simpa using hparent.symm
          rw [hnone]
          exact ih h
      | some fs =>
          rw [htable, Option.map_some] at hparent
          obtain ⟨parts, hparts, hfs⟩ := Option.map_eq_some_iff.mp hparent.symm
          rw [hparts]
          have hrest := ih (h.erase parent)
          refine ⟨?_, hrest.2⟩
          dsimp only
          rw [Flow.evalAll_append, ← hfs, hrest.1]
          rfl

theorem Valued.inputOf {table : HashMap String (List (Flow ω))}
    {results : HashMap String (List α)} (h : Valued sem e table results) (parents : List String) :
    Flow.evalAll sem e (inputOf .empty parents table).1 = .ok (inputOf e parents results).1 ∧
      Valued sem e (inputOf .empty parents table).2 (inputOf e parents results).2 := by
  unfold Pipeline.inputOf
  split
  · exact ⟨by rw [Flow.evalAll_singleton, Flow.eval], h⟩
  · exact h.takeParents parents

/-- What is taken from the table was in it. -/
theorem mem_takeParents {results : HashMap String (List α)} (parents : List String) {x : α}
    (h : x ∈ (takeParents parents results).1) :
    ∃ key parts, key ∈ parents ∧ results.lookup key = some parts ∧ x ∈ parts := by
  induction parents generalizing results with
  | nil => cases h
  | cons parent rest ih =>
      rw [takeParents] at h
      cases hlookup : results.lookup parent with
      | none =>
          rw [hlookup] at h
          obtain ⟨key, parts, hkey, hparts⟩ := ih h
          exact ⟨key, parts, List.mem_cons_of_mem parent hkey, hparts⟩
      | some parts =>
          rw [hlookup] at h
          dsimp only at h
          rcases List.mem_append.mp h with h | h
          · exact ⟨parent, parts, List.mem_cons_self, hlookup, h⟩
          · obtain ⟨key, parts', hkey, hparts', hx⟩ := ih h
            have hne : key ≠ parent := by
              intro heq
              rw [heq, AList.lookup_erase] at hparts'
              cases hparts'
            rw [AList.lookup_erase_ne hne] at hparts'
            exact ⟨key, parts', List.mem_cons_of_mem parent hkey, hparts', hx⟩

theorem mem_takeParents_of_mem {results : HashMap String (List α)} {parents : List String}
    {key : String} {parts : List α} (hkey : key ∈ parents)
    (hlookup : results.lookup key = some parts) {x : α} (hx : x ∈ parts) :
    x ∈ (takeParents parents results).1 := by
  induction parents generalizing results with
  | nil => cases hkey
  | cons parent rest ih =>
      rw [takeParents]
      by_cases hparent : key = parent
      · subst hparent
        rw [hlookup]
        exact List.mem_append_left _ hx
      · have hrest := (List.mem_cons.mp hkey).resolve_left hparent
        cases hfound : results.lookup parent with
        | none => exact ih hrest hlookup
        | some found =>
            refine List.mem_append_right _ (ih hrest ?_)
            rw [AList.lookup_erase_ne hparent]
            exact hlookup

/-- What is left in the table was in it, and is not a parent's. -/
theorem lookup_takeParents {results : HashMap String (List α)} (parents : List String)
    (key : String) :
    (takeParents parents results).2.lookup key =
      if key ∈ parents then none else results.lookup key := by
  induction parents generalizing results with
  | nil => rfl
  | cons parent rest ih =>
      rw [takeParents]
      cases hlookup : results.lookup parent with
      | none =>
          dsimp only
          rw [ih]
          by_cases hkey : key = parent
          · subst hkey
            simp [hlookup]
          · simp [hkey]
      | some parts =>
          dsimp only
          rw [ih]
          by_cases hkey : key = parent
          · subst hkey
            simp [AList.lookup_erase]
          · rw [AList.lookup_erase_ne hkey]
            simp [hkey]

theorem lookup_inputOf (empty : α) (parents : List String) (results : HashMap String (List α))
    (key : String) : (inputOf empty parents results).2.lookup key =
      if key ∈ parents then none else results.lookup key := by
  unfold inputOf
  split
  · rename_i hnone
    rw [List.isEmpty_iff.mp hnone, if_neg List.not_mem_nil]
  · exact lookup_takeParents parents key

/-- What is true of the empty partition and of the table is true of the input and
of what is left. -/
theorem forall_inputOf {P : α → Prop} {empty : α} (hempty : P empty)
    {results : HashMap String (List α)}
    (h : ∀ key parts, results.lookup key = some parts → ∀ q ∈ parts, P q)
    (parents : List String) :
    (∀ q ∈ (inputOf empty parents results).1, P q) ∧
      ∀ key parts, (inputOf empty parents results).2.lookup key = some parts →
        ∀ q ∈ parts, P q := by
  constructor
  · intro q hq
    unfold inputOf at hq
    split at hq
    · rw [List.mem_singleton.mp hq]
      exact hempty
    · obtain ⟨key, parts, -, hparts, hmem⟩ := mem_takeParents parents hq
      exact h key parts hparts q hmem
  · intro key parts hparts
    rw [lookup_inputOf] at hparts
    split_ifs at hparts
    exact h key parts hparts

/-- The execution of the steps evaluates their expressions.  It ends normally
when each of them has a value, with the value of the last one in the table. -/
theorem evalSteps_flows (steps : List (Step ω)) {table : HashMap String (List (Flow ω))}
    {results : HashMap String (List α)} (h : Valued sem e table results) :
    (∃ results', evalSteps sem e steps results = .ok results' ∧
      (∀ flow ∈ flows steps table, ∃ parts, flow.eval sem e = .ok parts) ∧
      ∀ flow ∈ (flows steps table).getLast?, ∃ parts, flow.eval sem e = .ok parts ∧
        ∀ step ∈ steps.getLast?, results'.lookup step.id = some parts) ∨
    ∃ err, evalSteps sem e steps results = .error err ∧
      ∃ flow ∈ flows steps table, flow.eval sem e = .error err := by
  induction steps generalizing table results with
  | nil => exact Or.inl ⟨results, rfl, by simp [flows], by simp [flows]⟩
  | cons step steps ih =>
      have hinput := h.inputOf step.parents
      let flow : Flow ω := .node step.id step.op (inputOf .empty step.parents table).1
      have heval : flow.eval sem e =
          sem step.id step.op (inputOf e step.parents results).1 := by
        rw [Flow.eval_node, hinput.1]
        rfl
      have hflows : flows (step :: steps) table =
          flow :: flows steps ((inputOf .empty step.parents table).2.insert step.id [flow]) := rfl
      rw [evalSteps, hflows]
      cases hsem : sem step.id step.op (inputOf e step.parents results).1 with
      | error err =>
          rw [hsem] at heval
          exact Or.inr ⟨err, rfl, flow, List.mem_cons_self, heval⟩
      | ok parts =>
          rw [hsem] at heval
          have hvalued := hinput.2.insert step.id heval
          rcases ih hvalued with ⟨results', hok, hall, hlast⟩ | ⟨err, herr, last, hmem, hvalue⟩
          · refine Or.inl ⟨results', hok, List.forall_mem_cons.mpr ⟨⟨parts, heval⟩, hall⟩, ?_⟩
            cases steps with
            | nil =>
                intro last hlast
                obtain rfl : flow = last := Option.some.inj hlast
                refine ⟨parts, heval, fun step' hstep => ?_⟩
                obtain rfl : step = step' := Option.some.inj hstep
                obtain rfl := Except.ok.inj hok
                exact AList.lookup_insert _
            | cons step' steps => exact hlast
          · exact Or.inr ⟨err, herr, last, List.mem_cons_of_mem flow hmem, hvalue⟩

/-! ### The run of the operators -/

section

variable [BEq F] {host : Host F} {attempt : Attempt} {p : Pipeline}

/-- The partition that an operator without parents gets. -/
def emptyPartition (p : Pipeline) : PartitionData F :=
  .empty p.partitionId p.cacheLimit p.spillPath

/-- What an operator does to partitions in memory. -/
def onFiles (host : Host F) (ord : String → HashOrder String) (toOp : ω → Operator)
    (files : Files) (id : String) (op : ω) (input : List (PartitionData F)) :
    Except Fail (List (PartitionData F)) :=
  ((toOp op).execute host (ord id) input files).1

/-- All partitions of the table are in memory. -/
def AllResident (results : HashMap String (List (PartitionData F))) : Prop :=
  ∀ key parts, results.lookup key = some parts → ∀ q ∈ parts, q.Resident

omit [BEq F] in
theorem AllResident.inputOf {results : HashMap String (List (PartitionData F))}
    (h : AllResident results) (p : Pipeline) (parents : List String) :
    (∀ q ∈ (inputOf p.emptyPartition parents results).1, q.Resident) ∧
      AllResident (inputOf p.emptyPartition parents results).2 := by
  have hempty : (p.emptyPartition : PartitionData F).Resident := rfl
  exact forall_inputOf hempty h parents

omit [BEq F] in
theorem AllResident.insert {results : HashMap String (List (PartitionData F))}
    (h : AllResident results) (key : String) {parts : List (PartitionData F)}
    (hparts : ∀ q ∈ parts, q.Resident) : AllResident (results.insert key parts) := by
  intro key' parts' hlookup
  by_cases hkey : key' = key
  · subst hkey
    rw [AList.lookup_insert, Option.some.injEq] at hlookup
    exact hlookup ▸ hparts
  · rw [AList.lookup_insert_ne hkey] at hlookup
    exact h key' parts' hlookup

theorem runOperators_eq_bind (idx : Nat) (op : Operator) (ops : List Operator)
    (results : HashMap String (List (PartitionData F))) (stages : List StageTrace) :
    p.runOperators host attempt idx (op :: ops) results stages =
      (op.execute host (attempt.order idx) (inputOf p.emptyPartition (p.parents idx) results).1 >>=
        fun partitions => p.runOperators host attempt (idx + 1) ops
          ((inputOf p.emptyPartition (p.parents idx) results).2.insert (p.operatorId idx) partitions)
          (stages ++ [p.stageTrace idx partitions])) := rfl

theorem runOperators_cons (idx : Nat) (op : Operator) (ops : List Operator)
    (results : HashMap String (List (PartitionData F))) (stages : List StageTrace)
    (files : Files) :
    p.runOperators host attempt idx (op :: ops) results stages files =
      match op.execute host (attempt.order idx)
        (inputOf p.emptyPartition (p.parents idx) results).1 files with
      | (.ok partitions, files) =>
          p.runOperators host attempt (idx + 1) ops
            ((inputOf p.emptyPartition (p.parents idx) results).2.insert (p.operatorId idx)
              partitions) (stages ++ [p.stageTrace idx partitions]) files
      | (.error err, files) => (.error err, files) := by
  rw [runOperators_eq_bind, Exec.bind_apply]
  rcases op.execute host (attempt.order idx)
    (inputOf p.emptyPartition (p.parents idx) results).1 files with ⟨_ | partitions, files'⟩
  · rfl
  · rfl

/-- A table, and the table of what `c` makes of its entries. -/
def Mapped {β : Type} (c : β → α) (results : HashMap String (List β))
    (table : HashMap String (List α)) : Prop :=
  ∀ key, table.lookup key = (results.lookup key).map (List.map c)

section

omit [BEq F]

variable {β : Type} {c : β → α} {results : HashMap String (List β)}
  {table : HashMap String (List α)}

theorem Mapped.insert (h : Mapped c results table) (key : String)
    (parts : List β) :
    Mapped c (results.insert key parts) (table.insert key (parts.map c)) := by
  intro key'
  by_cases hkey : key' = key
  · subst hkey
    rw [AList.lookup_insert, AList.lookup_insert]
    rfl
  · rw [AList.lookup_insert_ne hkey, AList.lookup_insert_ne hkey]
    exact h key'

theorem Mapped.erase (h : Mapped c results table) (key : String) :
    Mapped c (results.erase key) (table.erase key) := by
  intro key'
  by_cases hkey : key' = key
  · subst hkey
    rw [AList.lookup_erase, AList.lookup_erase]
    rfl
  · rw [AList.lookup_erase_ne hkey, AList.lookup_erase_ne hkey]
    exact h key'

theorem Mapped.takeParents (h : Mapped c results table) (parents : List String) :
    (takeParents parents table).1 = (takeParents parents results).1.map c ∧
      Mapped c (takeParents parents results).2 (takeParents parents table).2 := by
  induction parents generalizing results table with
  | nil => exact ⟨rfl, h⟩
  | cons parent rest ih =>
      rw [Pipeline.takeParents, Pipeline.takeParents, h parent]
      cases results.lookup parent with
      | none => exact ih h
      | some parts =>
          have hrest := ih (h.erase parent)
          refine ⟨?_, hrest.2⟩
          show parts.map c ++ _ = (parts ++ _).map c
          rw [List.map_append, hrest.1]

theorem Mapped.inputOf (h : Mapped c results table) (e : β)
    (parents : List String) :
    (inputOf (c e) parents table).1 = (inputOf e parents results).1.map c ∧
      Mapped c (inputOf e parents results).2 (inputOf (c e) parents table).2 := by
  unfold Pipeline.inputOf
  split
  · exact ⟨rfl, h⟩
  · exact h.takeParents parents

end

/-- A run of operators in memory is an execution of the steps, when `sem` says
what the operators do in terms of `c`. -/
theorem runOperators_mapped {c : PartitionData F → α}
    {sem : String → ω → List α → Except Fail (List α)} {toOp : ω → Operator}
    {files : Files} (idx : Nat) (ops : List ω)
    (hsem : ∀ i < ops.length, ∀ op input, (∀ q ∈ input, q.Resident) → ∀ out,
      ((toOp op).execute host (attempt.order (idx + i)) input files).1 = out →
      (∀ parts, out = .ok parts → ∀ q ∈ parts, q.Resident) →
      sem (p.operatorId (idx + i)) op (input.map c) = out.map (List.map c))
    {results : HashMap String (List (PartitionData F))} {table : HashMap String (List α)}
    (stages : List StageTrace) (hmapped : Mapped c results table) (hres : AllResident results)
    (hmemory : p.staysInMemory host attempt idx (ops.map toOp) results files) :
    (∃ results' table' stages',
      evalSteps sem (c p.emptyPartition) (p.steps idx ops) table = .ok table' ∧
      p.runOperators host attempt idx (ops.map toOp) results stages files =
        (.ok (results', stages'), files) ∧ AllResident results' ∧ Mapped c results' table') ∨
    ∃ err files',
      evalSteps sem (c p.emptyPartition) (p.steps idx ops) table = .error err ∧
      p.runOperators host attempt idx (ops.map toOp) results stages files =
        (.error err, files') := by
  induction ops generalizing idx results table stages with
  | nil => exact Or.inl ⟨results, table, stages, rfl, rfl, hres, hmapped⟩
  | cons op ops ih =>
      have hresident := hres.inputOf p (p.parents idx)
      have hinput := hmapped.inputOf p.emptyPartition (p.parents idx)
      have hfirst := hsem 0 (Nat.succ_pos _) op (inputOf p.emptyPartition (p.parents idx) results).1
        hresident.1
      rw [Nat.add_zero, ← hinput.1] at hfirst
      have hsteps : evalSteps sem (c p.emptyPartition) (p.steps idx (op :: ops)) table =
          (sem (p.operatorId idx) op (inputOf (c p.emptyPartition) (p.parents idx) table).1).bind
            fun parts => evalSteps sem (c p.emptyPartition) (p.steps (idx + 1) ops)
              ((inputOf (c p.emptyPartition) (p.parents idx) table).2.insert (p.operatorId idx)
                parts) := rfl
      change (match (toOp op).execute host (attempt.order idx)
            (inputOf p.emptyPartition (p.parents idx) results).1 files with
          | (.error _, _) => true
          | (.ok partitions, files) => _) = true at hmemory
      rw [List.map_cons, runOperators_cons, hsteps]
      cases hexec : (toOp op).execute host (attempt.order idx)
          (inputOf p.emptyPartition (p.parents idx) results).1 files with
      | mk out files' =>
          rw [hexec] at hmemory hfirst
          have hfirst := hfirst out rfl
          cases out with
          | error err =>
              rw [hfirst fun parts hparts => by cases hparts]
              exact Or.inr ⟨err, files', rfl, rfl⟩
          | ok partitions =>
              dsimp only at hmemory ⊢
              rw [Bool.and_eq_true, List.all_eq_true] at hmemory
              have hout : ∀ q ∈ partitions, q.Resident := by
                intro q hq
                have hspill := hmemory.1 q hq
                simpa [PartitionCache.hasSpill, PartitionData.Resident] using hspill
              obtain rfl := Operator.execute_keeps hresident.1 hexec hout
              rw [hfirst fun parts hparts => by
                cases hparts
                exact hout]
              have hres' := hresident.2.insert (p.operatorId idx) hout
              have hsem' : ∀ i < ops.length, ∀ op input, (∀ q ∈ input, q.Resident) → ∀ out,
                  ((toOp op).execute host (attempt.order (idx + 1 + i)) input files').1 = out →
                  (∀ parts, out = .ok parts → ∀ q ∈ parts, q.Resident) →
                  sem (p.operatorId (idx + 1 + i)) op (input.map c) = out.map (List.map c) := by
                intro i hi
                have hshift : idx + 1 + i = idx + (i + 1) := by omega
                rw [hshift]
                exact hsem (i + 1) (Nat.succ_lt_succ hi)
              exact ih (idx + 1) hsem' (stages ++ [p.stageTrace idx partitions])
                (hinput.2.insert (p.operatorId idx) partitions) hres' hmemory.2

/-- The final partitions, when all operators have run. -/
def finish (p : Pipeline) (out : HashMap String (List (PartitionData F)) × List StageTrace) :
    Action (List (PartitionData F) × List StageTrace) :=
  match out.1.lookup p.finalKey with
  | some parts => return (parts, out.2)
  | none => Exec.fail (.error "missing final operator output")

theorem run_eq_bind : p.run host attempt =
    (p.runOperators host attempt 0 p.operators ∅ [] >>= p.finish) := rfl

omit [BEq F] in
theorem finish_insert {key : String} (h : p.finalKey = key) (parts : List (PartitionData F))
    (results : HashMap String (List (PartitionData F))) (stages : List StageTrace) :
    p.finish (results.insert key parts, stages) = Pure.pure (parts, stages) := by
  rw [finish, h, AList.lookup_insert]

theorem run_of_ok {results : HashMap String (List (PartitionData F))} {stages : List StageTrace}
    {files files' : Files} {parts : List (PartitionData F)}
    (h : p.runOperators host attempt 0 p.operators ∅ [] files = (.ok (results, stages), files'))
    (hlookup : results.lookup p.finalKey = some parts) :
    p.run host attempt files = (.ok (parts, stages), files') := by
  show (p.runOperators host attempt 0 p.operators ∅ [] >>= _) files = _
  rw [Exec.bind_apply, h]
  dsimp only
  rw [hlookup]
  rfl

theorem run_of_error {err : Fail} {files files' : Files}
    (h : p.runOperators host attempt 0 p.operators ∅ [] files = (.error err, files')) :
    p.run host attempt files = (.error err, files') := by
  show (p.runOperators host attempt 0 p.operators ∅ [] >>= _) files = _
  rw [Exec.bind_apply, h]

omit [BEq F] in
theorem length_flows (steps : List (Step ω)) (table : HashMap String (List (Flow ω))) :
    (flows steps table).length = steps.length := by
  induction steps generalizing table with
  | nil => rfl
  | cons step steps ih => exact congrArg Nat.succ (ih _)

omit [BEq F] in
theorem length_steps (p : Pipeline) (idx : Nat) (ops : List ω) :
    (p.steps idx ops).length = ops.length := by
  induction ops generalizing idx with
  | nil => rfl
  | cons op ops ih => exact congrArg Nat.succ (ih (idx + 1))

omit [BEq F] in
theorem getElem?_steps (p : Pipeline) (idx : Nat) (ops : List ω) (i : Nat) :
    (p.steps idx ops)[i]? =
      ops[i]?.map fun op => ⟨p.operatorId (idx + i), op, p.parents (idx + i)⟩ := by
  induction ops generalizing idx i with
  | nil => simp [steps]
  | cons op ops ih =>
      cases i with
      | zero => rfl
      | succ i =>
          have hidx : idx + 1 + i = idx + (i + 1) := by omega
          rw [steps, List.getElem?_cons_succ, List.getElem?_cons_succ, ih, hidx]

omit [BEq F] in
/-- The last operator writes the entry that is the result. -/
theorem finalKey_eq {ops : List ω} (hlen : p.operatorIds.length = ops.length) :
    ∀ step ∈ (p.steps 0 ops).getLast?, step.id = p.finalKey := by
  intro step hstep
  rw [List.getLast?_eq_getElem?, length_steps, getElem?_steps] at hstep
  obtain ⟨op, -, rfl⟩ := Option.map_eq_some_iff.mp hstep
  have hpos : 0 < ops.length := by
    rcases ops with _ | ⟨op', ops⟩
    · simp at hstep
    · exact Nat.succ_pos _
  have hlast : p.operatorIds.getLast? = p.operatorIds[ops.length - 1]? := by
    rw [List.getLast?_eq_getElem?, hlen]
  have hget : p.operatorIds[ops.length - 1]? = some p.operatorIds[ops.length - 1] :=
    List.getElem?_eq_getElem (by omega)
  show p.operatorId (0 + (ops.length - 1)) = p.finalKey
  rw [operatorId, finalKey, hlast, Nat.zero_add, hget]
  rfl

end

end Pipeline

/-! ### An execution -/

namespace Executor

variable {F Uuid α : Type}

/-- The operator that the pipeline of a task has for a definition. -/
def operatorOf (ex : Executor F Uuid) (task : Task Uuid) (opDef : OperatorType) : Operator :=
  .fromType opDef task.partition (max task.totalPartitions 1) ex.config.partitionCacheLimitBytes
    (ex.spillPath task)

/-- The expressions of the operators of a task. -/
def flows (ex : Executor F Uuid) (task : Task Uuid) : List (Flow OperatorType) :=
  Pipeline.flows ((ex.pipeline task).steps 0 (operatorDefs task)) ∅

/-- The value of an expression for a task that finds the files. -/
def valueOf [BEq F] (ex : Executor F Uuid) (task : Task Uuid) (ord : String → HashOrder String)
    (files : Files) (flow : Flow OperatorType) : Except Fail (List (PartitionData F)) :=
  flow.eval (Pipeline.onFiles ex.host ord (ex.operatorOf task) files)
    (ex.pipeline task).emptyPartition

/-- An execution of the task spills nothing. -/
def staysInMemory [BEq F] (ex : Executor F Uuid) (attempt : Attempt) (task : Task Uuid)
    (files : Files) : Bool :=
  (ex.pipeline task).staysInMemory ex.host attempt 0 (ex.pipeline task).operators ∅ files

/-- A task has a name for each of its operators. -/
structure Named (task : Task Uuid) : Prop where
  length : task.operatorIds.length = task.operators.length
  operators : task.operators ≠ []

theorem Named.operatorDefs {task : Task Uuid} (h : Named task) :
    operatorDefs task = task.operators := by
  rw [Executor.operatorDefs, if_neg]
  simpa using h.operators

theorem Named.operatorIds {task : Task Uuid} (h : Named task) (ex : Executor F Uuid) :
    (ex.pipeline task).operatorIds = task.operatorIds := by
  have hne : task.operatorIds ≠ [] := by
    intro hnil
    have hlen := h.length
    rw [hnil] at hlen
    exact h.operators (List.eq_nil_of_length_eq_zero hlen.symm)
  show (if task.operatorIds.isEmpty then _ else task.operatorIds) = _
  rw [if_neg]
  simpa using hne

section

variable [BEq F] {ex : Executor F Uuid} {task : Task Uuid} {attempt : Attempt}
  {ord : String → HashOrder String} {files : Files}

/-- `sem` says what the operators of an execution in memory do, in terms of
`c`. -/
def MeansOf (ex : Executor F Uuid) (task : Task Uuid) (attempt : Attempt) (files : Files)
    (c : PartitionData F → α) (sem : String → OperatorType → List α → Except Fail (List α)) :
    Prop :=
  ∀ idx < task.operators.length, ∀ op input, (∀ q ∈ input, q.Resident) → ∀ out,
    ((ex.operatorOf task op).execute ex.host (attempt.order idx) input files).1 = out →
    (∀ parts, out = .ok parts → ∀ q ∈ parts, q.Resident) →
    sem ((ex.pipeline task).operatorId idx) op (input.map c) = out.map (List.map c)

/-- A run of the pipeline in memory is the evaluation of its expressions. -/
theorem run_mapped {c : PartitionData F → α}
    {sem : String → OperatorType → List α → Except Fail (List α)} (hnamed : Named task)
    (hsem : ex.MeansOf task attempt files c sem) (hmemory : ex.staysInMemory attempt task files) :
    (∃ parts stages, (ex.pipeline task).run ex.host attempt files = (.ok (parts, stages), files) ∧
      (∀ flow ∈ ex.flows task, ∃ parts,
        flow.eval sem (c (ex.pipeline task).emptyPartition) = .ok parts) ∧
      (∀ flow ∈ (ex.flows task).getLast?,
        flow.eval sem (c (ex.pipeline task).emptyPartition) = .ok (parts.map c)) ∧
      ∀ q ∈ parts, q.Resident) ∨
    ∃ err files', (ex.pipeline task).run ex.host attempt files = (.error err, files') ∧
      ∃ flow ∈ ex.flows task,
        flow.eval sem (c (ex.pipeline task).emptyPartition) = .error err := by
  have hops : (ex.pipeline task).operators = (operatorDefs task).map (ex.operatorOf task) := rfl
  have hlen : (ex.pipeline task).operatorIds.length = (operatorDefs task).length := by
    rw [hnamed.operatorIds, hnamed.operatorDefs, hnamed.length]
  have hvalued : Pipeline.Valued sem (c (ex.pipeline task).emptyPartition)
      (∅ : HashMap String (List (Flow OperatorType))) ∅ := fun key => rfl
  have hmapped : Pipeline.Mapped c (∅ : HashMap String (List (PartitionData F))) ∅ :=
    fun key => rfl
  have hres : Pipeline.AllResident (∅ : HashMap String (List (PartitionData F))) := by
    intro key parts hparts
    simp at hparts
  rw [staysInMemory, hops] at hmemory
  have hsem' : ∀ i < (operatorDefs task).length, ∀ op input, (∀ q ∈ input, q.Resident) → ∀ out,
      ((ex.operatorOf task op).execute ex.host (attempt.order (0 + i)) input files).1 = out →
      (∀ parts, out = .ok parts → ∀ q ∈ parts, q.Resident) →
      sem ((ex.pipeline task).operatorId (0 + i)) op (input.map c) = out.map (List.map c) := by
    intro i hi
    rw [Nat.zero_add]
    exact hsem i (hnamed.operatorDefs ▸ hi)
  have hne : ex.flows task ≠ [] := by
    intro hnil
    have hlength := congrArg List.length hnil
    rw [flows, Pipeline.length_flows, Pipeline.length_steps, hnamed.operatorDefs] at hlength
    exact hnamed.operators (List.eq_nil_of_length_eq_zero hlength)
  have hsteps : (ex.pipeline task).steps 0 (operatorDefs task) ≠ [] := fun hnil =>
    hne (by rw [flows, hnil]; rfl)
  obtain ⟨flow, hflow⟩ := Option.isSome_iff_exists.mp (List.getLast?_isSome.mpr hne)
  obtain ⟨step, hstep⟩ := Option.isSome_iff_exists.mp (List.getLast?_isSome.mpr hsteps)
  have hkey := Pipeline.finalKey_eq hlen step hstep
  rcases Pipeline.runOperators_mapped 0 (operatorDefs task) hsem' [] hmapped hres hmemory with
    ⟨results, table, stages, hok, hrun, hresident, hmap⟩ | ⟨err, files', herr, hrun⟩
  · rcases Pipeline.evalSteps_flows _ hvalued with ⟨table', hok', hall, hlast⟩ | ⟨err, herr, -⟩
    · obtain rfl : table = table' := Except.ok.inj (hok.symm.trans hok')
      obtain ⟨value, hvalue, hlookup⟩ := hlast flow hflow
      have hfinal := hlookup step hstep
      rw [hkey, hmap] at hfinal
      obtain ⟨parts, hparts, rfl⟩ := Option.map_eq_some_iff.mp hfinal
      refine Or.inl ⟨parts, stages, Pipeline.run_of_ok hrun hparts, hall, fun last hmem => ?_,
        hresident _ parts hparts⟩
      obtain rfl : flow = last := Option.some.inj (hflow.symm.trans hmem)
      exact hvalue
    · rw [hok] at herr
      cases herr
  · rcases Pipeline.evalSteps_flows _ hvalued with ⟨table', hok', -⟩ | ⟨err', herr', last, hlast⟩
    · rw [herr] at hok'
      cases hok'
    · obtain rfl : err = err' := Except.error.inj (herr.symm.trans herr')
      exact Or.inr ⟨err, files', Pipeline.run_of_error hrun, last, hlast⟩

omit [BEq F] in
/-- Partitions in memory are written without failure. -/
theorem forEach_writePartition_of_resident {parts : List (PartitionData F)}
    (h : ∀ q ∈ parts, q.Resident) (files : Files) :
    ∃ files', Exec.forEach (ex.writePartition task) parts files =
      (.ok (parts.map fun q =>
        ((q.partitionId, q.held), (ex.host.jsonLines q.held).length)), files') := by
  induction parts generalizing files with
  | nil => exact ⟨files, rfl⟩
  | cons q parts ih =>
      have hwrite : ex.writePartition task q files =
          (.ok ((q.partitionId, q.held), (ex.host.jsonLines q.held).length),
            files.insert (ex.partitionPath task q.partitionId) (ex.host.jsonLines q.held)) := by
        rw [writePartition, Exec.bind_apply,
          PartitionData.intoParts_of_resident ex.host (h q List.mem_cons_self)]
        rfl
      obtain ⟨files', hrest⟩ := ih (fun r hr => h r (List.mem_cons_of_mem q hr))
        (files.insert (ex.partitionPath task q.partitionId) (ex.host.jsonLines q.held))
      refine ⟨files', ?_⟩
      show (ex.writePartition task q >>= _) files = _
      rw [Exec.bind_apply, hwrite]
      show (Exec.forEach (ex.writePartition task) parts >>= _) _ = _
      rw [Exec.bind_apply, hrest]
      rfl

/-- An execution in memory completes when every expression has a value, and
then writes the value of the last one. -/
theorem executeSync_mapped {c : PartitionData F → α}
    {sem : String → OperatorType → List α → Except Fail (List α)} (hnamed : Named task)
    (hsem : ex.MeansOf task attempt files c sem) (hmemory : ex.staysInMemory attempt task files) :
    (∃ parts stages, (ex.pipeline task).run ex.host attempt files = (.ok (parts, stages), files) ∧
      (ex.executeSync attempt task files).1.result.status = .completed ∧
      (ex.executeSync attempt task files).1.output =
        parts.map (fun q => (q.partitionId, q.held)) ∧
      (∀ flow ∈ ex.flows task, ∃ parts,
        flow.eval sem (c (ex.pipeline task).emptyPartition) = .ok parts) ∧
      ∀ flow ∈ (ex.flows task).getLast?,
        flow.eval sem (c (ex.pipeline task).emptyPartition) = .ok (parts.map c)) ∨
    (∃ message, (ex.executeSync attempt task files).1.result.status = .failed message) ∧
      (ex.executeSync attempt task files).1.output = [] ∧
      ∃ flow ∈ ex.flows task, ∃ err,
        flow.eval sem (c (ex.pipeline task).emptyPartition) = .error err := by
  rcases run_mapped hnamed hsem hmemory with
    ⟨parts, stages, hrun, hall, hlast, hresident⟩ | ⟨err, files', hrun, flow, hmem, hflow⟩
  · obtain ⟨files', hwrite⟩ : ∃ files', Exec.forEach (ex.writePartition task) parts files =
        (.ok _, files') := forEach_writePartition_of_resident hresident files
    left
    refine ⟨parts, stages, hrun, ?_, ?_, hall, hlast⟩
    · rw [executeSync_of_ok hrun, hwrite]
      rfl
    · rw [executeSync_of_ok hrun, hwrite]
      simp [List.map_map]
  · right
    rw [executeSync_of_error hrun]
    exact ⟨⟨_, rfl⟩, rfl, flow, hmem, err, hflow⟩

/-- The same, with the operators executed on the files. -/
theorem executeSync_flows (hnamed : Named task)
    (hord : ∀ idx < task.operators.length,
      attempt.order idx = ord ((ex.pipeline task).operatorId idx))
    (hmemory : ex.staysInMemory attempt task files) :
    (∃ parts stages, (ex.pipeline task).run ex.host attempt files = (.ok (parts, stages), files) ∧
      (ex.executeSync attempt task files).1.result.status = .completed ∧
      (ex.executeSync attempt task files).1.output =
        parts.map (fun q => (q.partitionId, q.held)) ∧
      (∀ flow ∈ ex.flows task, ∃ parts, ex.valueOf task ord files flow = .ok parts) ∧
      ∀ flow ∈ (ex.flows task).getLast?, ex.valueOf task ord files flow = .ok parts) ∨
    (∃ message, (ex.executeSync attempt task files).1.result.status = .failed message) ∧
      (ex.executeSync attempt task files).1.output = [] ∧
      ∃ flow ∈ ex.flows task, ∃ err, ex.valueOf task ord files flow = .error err := by
  have hsem : ex.MeansOf task attempt files id
      (Pipeline.onFiles ex.host ord (ex.operatorOf task) files) := by
    intro idx hidx op input _ out hout _
    rw [Pipeline.onFiles, ← hord idx hidx, List.map_id, hout, List.map_id_fun]
    cases out <;> rfl
  have h := executeSync_mapped hnamed hsem hmemory
  simp only [List.map_id] at h
  exact h

end

end Executor
end ProcessingEngine

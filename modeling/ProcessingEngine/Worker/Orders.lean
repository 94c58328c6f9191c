import ProcessingEngine.Worker.Content
import ProcessingEngine.Worker.InTree

/-!
# Jobs under two orders

The order of the nodes depends on the iteration order of a hash map.  It decides
which node is the last one, whose output is that of the job, and which of the
consumers of a node is the first one, which takes all of it.  `SameFlows` says
that two orders agree on this: they have the same expressions, and the same one
at the end.  Then they give the same records (`Executor.executeSync_orders`).
-/

namespace ProcessingEngine

open Lib

/-- A shuffle of the empty partition alone, such as an injected one. -/
def Flow.isIdle : Flow OperatorType → Bool
  | .node _ (.shuffleByKey _ _) [.empty] => true
  | _ => false

theorem Flow.isIdle_iff {flow : Flow OperatorType} :
    flow.isIdle = true ↔ ∃ id key total, flow = .node id (.shuffleByKey key total) [.empty] := by
  constructor
  · intro h
    unfold isIdle at h
    split at h
    · exact ⟨_, _, _, rfl⟩
    · cases h
  · intro ⟨id, key, total, heq⟩
    rw [heq]
    rfl

namespace DagSpecification

/-- The expressions of the pipeline under an iteration order. -/
def flows (dag : DagSpecification) (order : HashOrder String) : List (Flow OperatorType) :=
  Pipeline.flows ((dag.injectLocalShuffle (dag.orderedNodes order)).map dag.stepOf) ∅

/-- Two orders give every node the same expression, idle shuffles apart, and end
with the same one. -/
structure SameFlows (dag : DagSpecification) (order order' : HashOrder String) : Prop where
  forth : ∀ flow ∈ dag.flows order, flow ∈ dag.flows order' ∨ flow.isIdle
  back : ∀ flow ∈ dag.flows order', flow ∈ dag.flows order ∨ flow.isIdle
  last : (dag.flows order).getLast? = (dag.flows order').getLast?

instance decidableSameFlows (dag : DagSpecification) (order order' : HashOrder String) :
    Decidable (dag.SameFlows order order') :=
  decidable_of_iff
    ((∀ flow ∈ dag.flows order, flow ∈ dag.flows order' ∨ flow.isIdle) ∧
      (∀ flow ∈ dag.flows order', flow ∈ dag.flows order ∨ flow.isIdle) ∧
      (dag.flows order).getLast? = (dag.flows order').getLast?)
    ⟨fun h => ⟨h.1, h.2.1, h.2.2⟩, fun h => ⟨h.forth, h.back, h.last⟩⟩

theorem SameFlows.symm {dag : DagSpecification} {order order' : HashOrder String}
    (h : dag.SameFlows order order') : dag.SameFlows order' order :=
  ⟨h.back, h.forth, h.last.symm⟩

end DagSpecification

namespace Executor

variable {F Uuid : Type} [BEq F] {ex : Executor F Uuid} {dag : DagSpecification}
  {order order' : HashOrder String} {jobId : Uuid} {newV5 : Uuid → String → Uuid}
  {task task' : Task Uuid} {attempt attempt' : Attempt} {ord : String → HashOrder String}
  {files : Files}

/-- What the operator of a node computes for partition `partition` of `total`.
The iteration order of its groups is that of the node. -/
def resultOf (ex : Executor F Uuid) (partition total : Nat) (ord : String → HashOrder String)
    (files : Files) (id : String) (opDef : OperatorType) :
    List (Content F) → Except Fail (List (Content F)) :=
  (Operator.fromType opDef partition (max total 1) ex.config.partitionCacheLimitBytes []).result
    ex.host files (ord id)

/-- The spill path of an operator does not matter for its result. -/
theorem operatorOf_result (opDef : OperatorType) (id : String) (input : List (Content F)) :
    (ex.operatorOf task opDef).result ex.host files (ord id) input =
      ex.resultOf task.partition task.totalPartitions ord files id opDef input := by
  cases opDef <;> rfl

theorem meansOf_result (files : Files) (hord : ∀ idx < task.operators.length,
    attempt.order idx = ord ((ex.pipeline task).operatorId idx)) :
    ex.MeansOf task attempt files PartitionData.content
      (ex.resultOf task.partition task.totalPartitions ord files) := by
  intro idx hidx op input hinput out hout hres
  have hyields : Yields
      ((ex.operatorOf task op).execute ex.host (attempt.order idx) input files).1
      ((ex.operatorOf task op).result ex.host files (attempt.order idx)
        (input.map PartitionData.content)) := Operator.execute_result hinput files
  rw [hout] at hyields
  rw [← operatorOf_result, ← hord idx hidx]
  exact hyields hres

/-- An idle shuffle has a value. -/
theorem eval_of_isIdle {flow : Flow OperatorType} (h : flow.isIdle) (partition total : Nat)
    (e : Content F) :
    ∃ parts, flow.eval (ex.resultOf partition total ord files) e = .ok parts := by
  obtain ⟨id, key, n, rfl⟩ := Flow.isIdle_iff.mp h
  have hpos : ¬ max n 1 = 0 := by omega
  rw [Flow.eval_node, Flow.evalAll_singleton, Flow.eval]
  exact ⟨_, if_neg hpos⟩

omit [BEq F] in
theorem flows_eq (ex : Executor F Uuid)
    (htask : task ∈ dag.materializeTasks newV5 order jobId) :
    ex.flows task = dag.flows order := by
  rw [flows, DagSpecification.task_steps ex htask, DagSpecification.flows]

/-- An execution that completes under one order completes with the same output
under the other. -/
theorem output_of_completed (htask : task ∈ dag.materializeTasks newV5 order jobId)
    (htask' : task' ∈ dag.materializeTasks newV5 order' jobId)
    (hpart : task.partition = task'.partition)
    (hord : ∀ idx < task.operators.length,
      attempt.order idx = ord ((ex.pipeline task).operatorId idx))
    (hord' : ∀ idx < task'.operators.length,
      attempt'.order idx = ord ((ex.pipeline task').operatorId idx))
    (hmemory : ex.staysInMemory attempt task files)
    (hmemory' : ex.staysInMemory attempt' task' files) (hsame : dag.SameFlows order order')
    (hdone : (ex.executeSync attempt task files).1.result.status = .completed) :
    (ex.executeSync attempt' task' files).1.result.status = .completed ∧
      (ex.executeSync attempt' task' files).1.output =
        (ex.executeSync attempt task files).1.output := by
  have hnamed := DagSpecification.task_named htask
  have hnamed' := DagSpecification.task_named htask'
  obtain ⟨-, -, -, -, htotal, -⟩ := DagSpecification.task_nodes htask
  obtain ⟨-, -, -, -, htotal', -⟩ := DagSpecification.task_nodes htask'
  have hsem := meansOf_result files hord
  have hsem' := meansOf_result files hord'
  rw [← hpart, htotal'] at hsem'
  rw [htotal] at hsem
  have hempty : ((ex.pipeline task').emptyPartition : PartitionData F).content =
      ((ex.pipeline task).emptyPartition : PartitionData F).content := by
    show (task'.partition, _) = (task.partition, _)
    rw [hpart]
    rfl
  rcases executeSync_mapped hnamed hsem hmemory with
    ⟨parts, -, -, -, hout, hall, hlast⟩ | ⟨⟨message, hfailed⟩, -⟩
  · have hne : ex.flows task ≠ [] := by
      rw [flows, ← List.length_pos_iff, Pipeline.length_flows, Pipeline.length_steps,
        hnamed.operatorDefs, List.length_pos_iff]
      exact hnamed.operators
    obtain ⟨last, hflow⟩ := Option.isSome_iff_exists.mp (List.getLast?_isSome.mpr hne)
    have hvalue := hlast last hflow
    have hflow' : (ex.flows task').getLast? = some last := by
      rw [flows_eq ex htask', ← hsame.last, ← flows_eq ex htask, hflow]
    rcases executeSync_mapped hnamed' hsem' hmemory' with
      ⟨parts', -, -, hstatus', hout', -, hlast'⟩ | ⟨-, -, flow, hmem, err, herr⟩
    · have hvalue' := hlast' last hflow'
      rw [hempty, hvalue] at hvalue'
      refine ⟨hstatus', ?_⟩
      rw [hout, hout']
      exact (Except.ok.inj hvalue').symm
    · -- every expression of the second order has a value
      rw [flows_eq ex htask'] at hmem
      rw [hempty] at herr
      obtain ⟨value, hok⟩ : ∃ value, flow.eval
          (ex.resultOf task.partition dag.partitions ord files)
          ((ex.pipeline task).emptyPartition : PartitionData F).content = .ok value := by
        rcases hsame.back flow hmem with hmem | hidle
        · exact hall flow (flows_eq ex htask ▸ hmem)
        · exact eval_of_isIdle hidle _ _ _
      rw [herr] at hok
      cases hok
  · rw [hfailed] at hdone
    cases hdone

theorem output_of_not_completed (htask : task ∈ dag.materializeTasks newV5 order jobId)
    (hord : ∀ idx < task.operators.length,
      attempt.order idx = ord ((ex.pipeline task).operatorId idx))
    (hmemory : ex.staysInMemory attempt task files)
    (h : (ex.executeSync attempt task files).1.result.status ≠ .completed) :
    (ex.executeSync attempt task files).1.output = [] := by
  rcases executeSync_mapped (DagSpecification.task_named htask) (meansOf_result files hord) hmemory
    with
    ⟨parts, stages, -, hstatus, -⟩ | ⟨-, hout, -⟩
  · exact absurd hstatus h
  · exact hout

/-- The task of a partition gives the same result under two orders that agree on
the expressions. -/
theorem executeSync_orders (attempt attempt' : Attempt) (ord : String → HashOrder String)
    (htask : task ∈ dag.materializeTasks newV5 order jobId)
    (htask' : task' ∈ dag.materializeTasks newV5 order' jobId)
    (hpart : task.partition = task'.partition)
    (hord : ∀ idx < task.operators.length,
      attempt.order idx = ord ((ex.pipeline task).operatorId idx))
    (hord' : ∀ idx < task'.operators.length,
      attempt'.order idx = ord ((ex.pipeline task').operatorId idx))
    (hmemory : ex.staysInMemory attempt task files)
    (hmemory' : ex.staysInMemory attempt' task' files) (hsame : dag.SameFlows order order') :
    ((ex.executeSync attempt task files).1.result.status = .completed ↔
      (ex.executeSync attempt' task' files).1.result.status = .completed) ∧
    (ex.executeSync attempt task files).1.output =
      (ex.executeSync attempt' task' files).1.output := by
  by_cases hdone : (ex.executeSync attempt task files).1.result.status = .completed
  · have h := output_of_completed htask htask' hpart hord hord' hmemory hmemory' hsame hdone
    exact ⟨iff_of_true hdone h.1, h.2.symm⟩
  · have hdone' : (ex.executeSync attempt' task' files).1.result.status ≠ .completed := by
      intro hdone'
      exact hdone (output_of_completed htask' htask hpart.symm hord' hord hmemory' hmemory
        hsame.symm hdone').1
    refine ⟨iff_of_false hdone hdone', ?_⟩
    rw [output_of_not_completed htask hord hmemory hdone,
      output_of_not_completed htask' hord' hmemory' hdone']

/-! ### Two reads under two orders -/

def firstTask (dag : DagSpecification) (order : HashOrder String) : Option (Task Path) :=
  (dag.materializeTasks (fun jobId name => name :: jobId) order ["job"]).head?

/-- The reads change places, and the join still gets both. -/
theorem executeSync_orders_joinCount :
    ∃ task ∈ firstTask .joinCount .insertion, ∃ task' ∈ firstTask .joinCount .reversed,
      task.operatorIds ≠ task'.operatorIds ∧
      ((plain []).executeSync .plain task JobRun.csvFiles).1.output =
        ((plain []).executeSync .plain task' JobRun.csvFiles).1.output := by
  have hsome : (firstTask .joinCount .insertion).isSome = true := by decide +kernel
  have hsome' : (firstTask .joinCount .reversed).isSome = true := by decide +kernel
  have hsame : DagSpecification.joinCount.SameFlows .insertion .reversed := by decide +kernel
  have hids : ((firstTask .joinCount .insertion).get hsome).operatorIds ≠
      ((firstTask .joinCount .reversed).get hsome').operatorIds := by
    decide +kernel +revert
  have hpart : ((firstTask .joinCount .insertion).get hsome).partition =
      ((firstTask .joinCount .reversed).get hsome').partition := by
    decide +kernel +revert
  have hmemory : (plain []).staysInMemory .plain ((firstTask .joinCount .insertion).get hsome)
      JobRun.csvFiles := by
    clear hids hpart hsame
    decide +kernel +revert
  have hmemory' : (plain []).staysInMemory .plain ((firstTask .joinCount .reversed).get hsome')
      JobRun.csvFiles := by
    clear hids hpart hsame
    decide +kernel +revert
  have h := executeSync_orders .plain .plain (fun _ => .insertion)
    (List.mem_of_head? (Option.some_get hsome).symm)
    (List.mem_of_head? (Option.some_get hsome').symm) hpart (fun _ _ => rfl) (fun _ _ => rfl)
    hmemory hmemory' hsame
  exact ⟨_, (Option.some_get hsome).symm, _, (Option.some_get hsome').symm, hids, h.2⟩

end Executor

namespace DagSpecification

/-- Two chains, one of which drops the rows. -/
def twoChains : DagSpecification where
  nodes := [⟨"l", .read "in.csv" "csv"⟩, ⟨"r", .read "in.csv" "csv"⟩, ⟨"keep", .identity⟩,
    ⟨"drop", .filter "always_false"⟩]
  edges := [⟨"l", "keep"⟩, ⟨"r", "drop"⟩]
  partitions := 1

end DagSpecification

namespace Executor

/-- The result of the job is that of the chain whose read came last out of the
hash map. -/
theorem orders_differ_twoChains :
    DagSpecification.twoChains.validate = .ok () ∧
      ∃ task ∈ firstTask .twoChains .insertion, ∃ task' ∈ firstTask .twoChains .reversed,
        task.partition = task'.partition ∧
        (plain []).staysInMemory .plain task JobRun.csvFiles ∧
        (plain []).staysInMemory .plain task' JobRun.csvFiles ∧
        ((plain []).executeSync .plain task JobRun.csvFiles).1.result.status = .completed ∧
        ((plain []).executeSync .plain task' JobRun.csvFiles).1.result.status = .completed ∧
        ((plain []).executeSync .plain task JobRun.csvFiles).1.output =
          [(0, [JobRun.csvRow "x", JobRun.csvRow "y"])] ∧
        ((plain []).executeSync .plain task' JobRun.csvFiles).1.output = [(0, [])] := by
  have hsome : (firstTask .twoChains .insertion).isSome = true := by decide +kernel
  have hsome' : (firstTask .twoChains .reversed).isSome = true := by decide +kernel
  have hpart : ((firstTask .twoChains .insertion).get hsome).partition =
      ((firstTask .twoChains .reversed).get hsome').partition := by
    decide +kernel +revert
  refine ⟨by decide, (firstTask .twoChains .insertion).get hsome, (Option.some_get hsome).symm,
    (firstTask .twoChains .reversed).get hsome', (Option.some_get hsome').symm, hpart, ?_⟩
  clear hpart
  refine ⟨?_, ?_, ?_, ?_, ?_, ?_⟩
  all_goals decide +kernel +revert

end Executor
end ProcessingEngine

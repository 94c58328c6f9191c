import ProcessingEngine.Worker.Plan

/-!
# Carrying out a plan

`Realizes` says that the files follow the single steps of plans: taking the
records out of a partition, filling a partition, reading an input and writing a
result.  The limits of the caches may be changed by `lim`.  From these steps the
operators, the pipeline and all attempts of a task follow their plans
(`Realizes.executeTask`).
-/

namespace ProcessingEngine

open Lib Lib.Exec Text

variable {F : Type}

/-- The steps of plans are carried out on the files. -/
structure Realizes (host : Host F) (lim : Nat → Nat) (Rel : Option (Ledger F) → Files → Prop)
    (Good : Option (Ledger F) → Prop) : Prop where
  lasting : Lasting (PartOp F) (Option Bytes) Good
  unlimited : lim usizeMax = usizeMax
  take : ∀ part : Part F, Follows Rel Good
    (fun records out => out = (lim part.limitBytes, part.spillPath, records))
    (part.take host) ((part.data host lim).intoParts host)
  put : ∀ part : Part F, Follows Rel Good (fun part partition => partition = part.data host lim)
    (part.put host) (PartitionData.fromRecords host part.partitionId (lim part.limitBytes)
      part.spillPath part.records)
  read : ∀ message path, Follows Rel Good (fun content content' => content' = content)
    (readInput message path) (Files.readOr message path)
  write : ∀ path records, Follows Rel Good (fun _ _ => True)
    (perform (.write path (host.jsonLines records)) : Plan F (Option Bytes))
    (PartitionStore.writeRecords host path records)

/-- The operator with another limit for the partitions that it makes itself. -/
def Operator.relimit (lim : Nat → Nat) : Operator → Operator
  | .read op => .read { op with cacheLimitBytes := lim op.cacheLimitBytes }
  | op => op

def Pipeline.relimit (lim : Nat → Nat) (p : Pipeline) : Pipeline :=
  { p with operators := p.operators.map (Operator.relimit lim), cacheLimit := lim p.cacheLimit }

/-- The executor with another limit for its caches. -/
def Executor.relimit {Uuid : Type} (lim : Nat → Nat) (ex : Executor F Uuid) : Executor F Uuid :=
  { ex with config := { ex.config with
      partitionCacheLimitBytes := lim ex.config.partitionCacheLimitBytes } }

theorem Executor.pipeline_relimit {Uuid : Type} (lim : Nat → Nat) (ex : Executor F Uuid)
    (task : Task Uuid) : (ex.relimit lim).pipeline task = (ex.pipeline task).relimit lim := by
  have hoperators : ((ex.relimit lim).pipeline task).operators =
      (ex.pipeline task).operators.map (Operator.relimit lim) := by
    show (Executor.operatorDefs task).map _ = ((Executor.operatorDefs task).map _).map _
    rw [List.map_map]
    apply List.map_congr_left
    intro opDef _
    cases opDef <;> rfl
  show ({ (ex.pipeline task).relimit lim with
    operators := ((ex.relimit lim).pipeline task).operators } : Pipeline) = _
  rw [hoperators]
  rfl

namespace Realizes

variable {host : Host F} {lim : Nat → Nat} {Rel : Option (Ledger F) → Files → Prop}
  {Good : Option (Ledger F) → Prop}

/-! ### The operators -/

theorem single (h : Realizes host lim Rel Good) (part : Part F) :
    Follows Rel Good (fun parts partitions => partitions = parts.map (Part.data host lim))
      (do let part ← part.put host
          return [part])
      (do let partition ← PartitionData.fromRecords host part.partitionId (lim part.limitBytes)
            part.spillPath part.records
          return [partition]) := by
  refine follows_bind h.lasting (h.put part) fun part partition hpart => ?_
  rw [hpart]
  exact follows_pure rfl

theorem takeAll (h : Realizes host lim Rel Good) (parts : List (Part F)) :
    Follows Rel Good (fun records records' => records' = records)
      (Part.takeAll host parts) (drainPartitions host (parts.map (Part.data host lim))) := by
  have htake : ∀ part ∈ parts, Follows Rel Good (fun records out => out.2.2 = id records)
      (part.take host) ((part.data host lim).intoParts host) :=
    fun part _ => (h.take part).mono fun records out hout => by rw [hout]; rfl
  refine follows_bind h.lasting (follows_forEach h.lasting htake) fun records outs houts => ?_
  have hrecords := eq_map_of_forall₂ houts
  rw [List.map_id] at hrecords
  exact follows_pure (congrArg List.flatten hrecords)

theorem forEach_put (h : Realizes host lim Rel Good) {α : Type} {f : α → Plan F (Part F)}
    {g : α → Action (PartitionData F)} {as : List α}
    (hput : ∀ a ∈ as, Follows Rel Good
      (fun part partition => partition = part.data host lim) (f a) (g a)) :
    Follows Rel Good (fun parts partitions => partitions = parts.map (Part.data host lim))
      (Exec.forEach f as) (Exec.forEach g as) := by
  have hloop : Follows Rel Good _ (Exec.forEach f as) (Exec.forEach g (as.map id)) :=
    follows_forEach h.lasting hput
  rw [List.map_id] at hloop
  refine hloop.mono fun parts partitions hlists => ?_
  rw [← List.map_id partitions]
  exact eq_map_of_forall₂ hlists

theorem perPart (h : Realizes host lim Rel Good)
    (f : List (Record F) → Except Fail (List (Record F))) (parts : List (Part F)) :
    Follows Rel Good (fun parts partitions => partitions = parts.map (Part.data host lim))
      (Part.perPart host f parts) (perPartition host f (parts.map (Part.data host lim))) := by
  rw [perPartition, forEach_map]
  refine h.forEach_put fun part _ => ?_
  refine follows_bind h.lasting (h.take part) fun records out hout => ?_
  subst hout
  refine follows_bind h.lasting (follows_lift (f records)) fun mapped mapped' hmapped => ?_
  subst hmapped
  exact h.put { part with records := mapped' }

theorem readOp (h : Realizes host lim Rel Good) (op : ReadOp) :
    Follows Rel Good (fun parts partitions => partitions = parts.map (Part.data host lim))
      (op.plan host)
      (ReadOp.execute host { op with cacheLimitBytes := lim op.cacheLimitBytes }) := by
  refine follows_bind h.lasting (h.read _ _) fun content content' hcontent => ?_
  subst hcontent
  refine follows_bind h.lasting (follows_lift _) fun records records' hrecords => ?_
  subst hrecords
  exact h.single ⟨op.partitionId, op.cacheLimitBytes, op.spillPath, records'⟩

theorem reduceOp (h : Realizes host lim Rel Good) (op : ReduceOp) (parts : List (Part F)) :
    Follows Rel Good (fun parts partitions => partitions = parts.map (Part.data host lim))
      (op.plan host parts) (op.execute host (parts.map (Part.data host lim))) := by
  refine follows_bind h.lasting (follows_lift _) fun reducer reducer' hreducer => ?_
  subst hreducer
  cases parts with
  | nil => exact follows_pure rfl
  | cons first rest =>
      refine follows_bind h.lasting (h.takeAll (first :: rest)) fun records records' hrecords => ?_
      subst hrecords
      have hput := h.single { first with records := [reducer'.applyReducer host records'] }
      rw [Part.data_limitBytes, Part.data_spillPath]
      exact hput

theorem groupParts (h : Realizes host lim Rel Good) (op : ReduceByKeyOp)
    (groups : HashMap String (List (Record F))) (parts : List (Part F)) :
    Follows Rel Good (fun groups groups' => groups' = groups) (op.groupParts host groups parts)
      (op.groupPartitions host groups (parts.map (Part.data host lim))) := by
  induction parts generalizing groups with
  | nil => exact follows_pure rfl
  | cons part rest ih =>
      refine follows_bind h.lasting (h.take part) fun records out hout => ?_
      subst hout
      refine follows_bind h.lasting (follows_lift _) fun groups groups' hgroups => ?_
      subst hgroups
      exact ih groups'

theorem reduceByKeyOp (h : Realizes host lim Rel Good) (order : HashOrder String)
    (op : ReduceByKeyOp) (parts : List (Part F)) :
    Follows Rel Good (fun parts partitions => partitions = parts.map (Part.data host lim))
      (op.plan host order parts) (op.execute host order (parts.map (Part.data host lim))) := by
  cases parts with
  | nil => exact follows_pure rfl
  | cons first rest =>
      rw [ReduceByKeyOp.plan, List.map_cons, ReduceByKeyOp.execute, ← List.map_cons]
      cases ReducerKind.parse op.reducer with
      | error e => exact follows_fail _
      | ok reducer =>
          refine follows_bind h.lasting (h.groupParts op ∅ (first :: rest))
            fun groups groups' hgroups => ?_
          subst hgroups
          have hput := h.single
            { first with records := ReduceByKeyOp.outRecords host op reducer order groups' }
          rw [Part.data_limitBytes, Part.data_spillPath]
          exact hput

theorem joinOp [BEq F] (h : Realizes host lim Rel Good) (op : JoinOp)
    (parts : List (Part F)) :
    Follows Rel Good (fun parts partitions => partitions = parts.map (Part.data host lim))
      (op.plan host parts) (op.execute host (parts.map (Part.data host lim))) := by
  cases parts with
  | nil => exact follows_fail _
  | cons left parts =>
      cases parts with
      | nil => exact follows_fail _
      | cons right parts =>
          cases parts with
          | nil =>
              refine follows_bind h.lasting (h.take left) fun lefts out hout => ?_
              subst hout
              refine follows_bind h.lasting (h.take right) fun rights out hout => ?_
              subst hout
              refine follows_bind h.lasting (follows_lift _) fun output output' houtput => ?_
              subst houtput
              have hput := h.single ⟨min left.partitionId right.partitionId, left.limitBytes,
                left.spillPath, output'⟩
              rw [Part.data_limitBytes, Part.data_spillPath]
              exact hput
          | cons part parts =>
              have hlength : ((left :: right :: part :: parts).map (Part.data host lim)).length =
                  (left :: right :: part :: parts).length := List.length_map _
              show Follows Rel Good _ (Exec.fail (JoinOp.wrongInputCount _))
                (Exec.fail (JoinOp.wrongInputCount _))
              rw [hlength]
              exact follows_fail _

theorem limit_map (h : Realizes host lim Rel Good) (parts : List (Part F)) :
    ShuffleByKeyOp.limit (parts.map (Part.data host lim)) =
      lim (ShuffleByKeyOp.partLimit parts) := by
  cases parts with
  | nil => exact h.unlimited.symm
  | cons part parts => exact part.data_limitBytes host lim

theorem spillBase_map (parts : List (Part F)) :
    ShuffleByKeyOp.spillBase host (parts.map (Part.data host lim)) =
      ShuffleByKeyOp.partBase host parts := by
  cases parts with
  | nil => rfl
  | cons part parts =>
      show (ShuffleByKeyOp.parent (part.data host lim).spillPath).getD host.tempDir = _
      rw [part.data_spillPath]
      rfl

theorem shuffleOp (h : Realizes host lim Rel Good) (op : ShuffleByKeyOp)
    (parts : List (Part F)) :
    Follows Rel Good (fun parts partitions => partitions = parts.map (Part.data host lim))
      (op.plan host parts) (op.execute host (parts.map (Part.data host lim))) := by
  rw [ShuffleByKeyOp.plan, ShuffleByKeyOp.execute]
  split
  · exact follows_fail _
  · refine follows_bind h.lasting (h.takeAll parts) fun records records' hrecords => ?_
    subst hrecords
    refine h.forEach_put fun bucket _ => ?_
    rw [h.limit_map, spillBase_map]
    exact h.put ⟨bucket.2, ShuffleByKeyOp.partLimit parts,
      ShuffleByKeyOp.bucketPath (ShuffleByKeyOp.partBase host parts) bucket.2, bucket.1⟩

/-- Every operator follows its plan. -/
theorem operator [BEq F] (h : Realizes host lim Rel Good) (order : HashOrder String)
    (op : Operator) (parts : List (Part F)) :
    Follows Rel Good (fun parts partitions => partitions = parts.map (Part.data host lim))
      (op.plan host order parts)
      ((op.relimit lim).execute host order (parts.map (Part.data host lim))) := by
  cases op with
  | read op => exact h.readOp op
  | map op => exact h.perPart _ parts
  | filter op =>
      refine follows_bind h.lasting (follows_lift _) fun predicate predicate' hpredicate => ?_
      subst hpredicate
      exact h.perPart _ parts
  | flatMap op =>
      show Follows Rel Good _ _ (FlatMapOp.execute host op (parts.map (Part.data host lim)))
      rw [FlatMapOp.execute]
      exact h.perPart _ parts
  | reduce op => exact h.reduceOp op parts
  | reduceByKey op => exact h.reduceByKeyOp order op parts
  | join op => exact h.joinOp op parts
  | shuffle op => exact h.shuffleOp op parts

/-! ### The task -/

section

variable [BEq F]

theorem operators (h : Realizes host lim Rel Good) (attempt : Attempt) (p : Pipeline)
    (idx : Nat) (ops : List Operator) {results : HashMap String (List (Part F))}
    {table : HashMap String (List (PartitionData F))}
    (hmapped : Pipeline.Mapped (Part.data host lim) results table) (stages : List StageTrace) :
    Follows Rel Good (fun results out => Pipeline.Mapped (Part.data host lim) results out.1)
      (p.planOperators host attempt idx ops results)
      ((p.relimit lim).runOperators host attempt idx (ops.map (Operator.relimit lim)) table
        stages) := by
  induction ops generalizing idx results table stages with
  | nil => exact follows_pure hmapped
  | cons op ops ih =>
      have hempty : (p.relimit lim).emptyPartition = p.emptyPart.data host lim :=
        (Part.data_nil host lim p.partitionId p.cacheLimit p.spillPath).symm
      have hinput := hmapped.inputOf p.emptyPart (p.parents idx)
      rw [List.map_cons, Pipeline.runOperators_eq_bind, hempty]
      show Follows Rel Good _ _ ((op.relimit lim).execute host (attempt.order idx)
        (Pipeline.inputOf _ (p.parents idx) table).1 >>= _)
      rw [hinput.1]
      refine follows_bind h.lasting (h.operator (attempt.order idx) op _)
        fun parts partitions hparts => ?_
      subst hparts
      exact ih (idx + 1) (hinput.2.insert _ _) _

theorem pipeline (h : Realizes host lim Rel Good) (attempt : Attempt) (p : Pipeline) :
    Follows Rel Good (fun parts out => out.1 = parts.map (Part.data host lim))
      (p.plan host attempt) ((p.relimit lim).run host attempt) := by
  have hempty : Pipeline.Mapped (Part.data host lim) ∅ ∅ := fun _ => rfl
  refine follows_bind h.lasting (h.operators attempt p 0 p.operators hempty [])
    fun results out hmapped => ?_
  have hlookup : out.1.lookup (p.relimit lim).finalKey = _ := hmapped p.finalKey
  dsimp only
  rw [hlookup]
  cases results.lookup p.finalKey with
  | none => exact follows_fail _
  | some parts => exact follows_pure rfl

variable {Uuid : Type} {ex : Executor F Uuid} {task : Task Uuid}

omit [BEq F] in
theorem operatorName_relimit (lim : Nat → Nat) (ex : Executor F Uuid) (task : Task Uuid) :
    (ex.relimit lim).operatorName task = ex.operatorName task := by
  have hname : ∀ op : Operator, (op.relimit lim).name = op.name := by
    intro op
    cases op <;> rfl
  rw [Executor.operatorName, Executor.pipeline_relimit, Executor.operatorName]
  show ((((ex.pipeline task).operators.map (Operator.relimit lim)).getLast?).map _).getD _ = _
  rw [List.getLast?_map, Option.map_map]
  exact congrArg (fun name : Option String => name.getD "unknown")
    (Option.map_congr fun op _ => hname op)

omit [BEq F] in
theorem writePartition (h : Realizes ex.host lim Rel Good) (task : Task Uuid)
    (part : Part F) :
    Follows Rel Good (fun out out' => out'.1 = out) (ex.planWrite task part)
      ((ex.relimit lim).writePartition task (part.data ex.host lim)) := by
  refine follows_bind h.lasting (h.take part) fun records out hout => ?_
  subst hout
  exact follows_bind h.lasting (h.write _ _) fun _ _ _ => follows_pure rfl

theorem executeSync (h : Realizes ex.host lim Rel Good) (attempt : Attempt)
    (task : Task Uuid) :
    Prog.Follows Rel Good (ex.Shows task) (ex.planSync attempt task)
      ((ex.relimit lim).executeSync attempt task) := by
  have hpipeline := h.pipeline attempt (ex.pipeline task)
  rw [← Executor.pipeline_relimit] at hpipeline
  have hname := operatorName_relimit lim ex task
  refine Prog.follows_bind h.lasting hpipeline fun out out' hsame => ?_
  cases out with
  | error e =>
      cases out' with
      | ok b => exact hsame.elim
      | error e' =>
          obtain rfl : e = e' := hsame
          refine Prog.follows_pure ⟨?_, rfl⟩
          show TaskStatus.failed _ = TaskStatus.failed _
          rw [hname]
  | ok parts =>
      cases out' with
      | error e => exact hsame.elim
      | ok partitions =>
          obtain ⟨partitions, stages⟩ := partitions
          obtain rfl : partitions = parts.map (Part.data ex.host lim) := hsame
          have hwrites := follows_forEach h.lasting fun part (_ : part ∈ parts) =>
            h.writePartition task part
          refine Prog.follows_bind h.lasting hwrites fun out out' hsame => ?_
          cases out with
          | error e =>
              cases out' with
              | ok b => exact hsame.elim
              | error e' =>
                  obtain rfl : e = e' := hsame
                  refine Prog.follows_pure ⟨?_, rfl⟩
                  show TaskStatus.failed _ = TaskStatus.failed _
                  rw [hname]
          | ok output =>
              cases out' with
              | error e => exact hsame.elim
              | ok written =>
                  have hwritten : written.map Prod.fst = output.map id :=
                    eq_map_of_forall₂ hsame
                  rw [List.map_id] at hwritten
                  exact Prog.follows_pure ⟨rfl, hwritten⟩

/-- All attempts of a task follow its plan. -/
theorem executeTask (h : Realizes ex.host lim Rel Good) (attempts : Nat → Attempt)
    (task : Task Uuid) :
    Prog.Follows Rel Good (ex.Shows task) (ex.planTask attempts task)
      ((ex.relimit lim).executeTask attempts task) := by
  have hretry : ∀ n, Prog.Follows Rel Good (ex.Shows task)
      (ex.planRetry attempts task n) ((ex.relimit lim).retry attempts task n) := by
    intro n
    induction n with
    | zero => exact h.executeSync (attempts 0) task
    | succ n ih =>
        refine Prog.follows_bind h.lasting (h.executeSync (attempts (n + 1)) task)
          fun out execution hshows => ?_
        cases out with
        | error message =>
            rw [hshows.status]
            exact ih
        | ok output =>
            rw [hshows.status]
            exact Prog.follows_pure hshows
  exact hretry ex.config.taskRetryLimit

end

end Realizes

end ProcessingEngine

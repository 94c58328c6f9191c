import ProcessingEngine.Lib.Interleave
import ProcessingEngine.Worker.Linear
import ProcessingEngine.Worker.OwnFiles

/-!
# Linear jobs of record-wise operators

The tasks of such a job, interleaved in any way, all complete exactly when the
single task of the job with one partition does, and then they have written the
same records, each task to its own result file (`Executor.linear_transparent`).
Spill files come and go on the way.
-/

namespace ProcessingEngine

open Lib Lib.Exec Text

variable {F Uuid : Type}

/-! ### The files of the tasks -/

namespace FileOp.Own

variable {input spill result : Path} {op : FileOp}

theorem lookup_of_ne (h : FileOp.Own input spill result op) (files : Files) {path : Path}
    (hspill : path ≠ spill) (hresult : path ≠ result) :
    (Interp.exec op files).2.lookup path = files.lookup path := by
  cases op with
  | read path' => rfl
  | append path' data =>
      obtain rfl : path' = spill := h
      exact AList.lookup_insert_ne hspill
  | write path' data =>
      obtain rfl : path' = result := h
      exact AList.lookup_insert_ne hresult
  | remove path' =>
      obtain rfl : path' = spill := h
      exact AList.lookup_erase_ne hspill

/-- The operations of a task depend on its own files only. -/
theorem congr (h : FileOp.Own input spill result op) {s s' : Files}
    (hagree : ∀ path ∈ [input, spill, result], s.lookup path = s'.lookup path) :
    (Interp.exec op s).1 = (Interp.exec op s').1 ∧
      ∀ path ∈ [input, spill, result],
        (Interp.exec op s).2.lookup path = (Interp.exec op s').2.lookup path := by
  have hinsert : ∀ (path' : Path) (data data' : Bytes), data = data' →
      ∀ path ∈ [input, spill, result],
        (s.insert path' data).lookup path = (s'.insert path' data').lookup path := by
    intro path' data data' hdata path hpath
    by_cases heq : path = path'
    · rw [heq, AList.lookup_insert, AList.lookup_insert, hdata]
    · rw [AList.lookup_insert_ne heq, AList.lookup_insert_ne heq, hagree path hpath]
  cases op with
  | read path' =>
      refine ⟨hagree path' ?_, hagree⟩
      rcases h with rfl | rfl
      · simp
      · simp
  | append path' data =>
      obtain rfl : path' = spill := h
      refine ⟨rfl, hinsert _ _ _ ?_⟩
      rw [hagree _ (by simp)]
  | write path' data => exact ⟨rfl, hinsert _ _ _ rfl⟩
  | remove path' =>
      refine ⟨rfl, fun path hpath => ?_⟩
      show (s.erase path').lookup path = (s'.erase path').lookup path
      by_cases heq : path = path'
      · rw [heq, AList.lookup_erase, AList.lookup_erase]
      · rw [AList.lookup_erase_ne heq, AList.lookup_erase_ne heq, hagree path hpath]

end FileOp.Own

namespace Executor

/-- The tasks of a job at work on one data directory. -/
def threads [BEq F] (ex : Executor F Uuid) (attempts : Task Uuid → Nat → Attempt)
    (tasks : List (Task Uuid)) (files : Files) :
    Threads FileOp (Option Bytes) Files (Execution F Uuid) where
  progs := tasks.map fun task => ex.executeTask (attempts task) task
  store := files

/-- The name of a spill file determines the partition. -/
theorem eq_of_spillPath_eq {ex : Executor F Uuid} {task task' : Task Uuid}
    (h : ex.spillPath task = ex.spillPath task') : task.partition = task'.partition := by
  have hlast := congrArg List.getLast? h
  simp only [spillPath, PartitionStore.spillPath, List.getLast?_concat, Option.some.injEq] at hlast
  exact DagSpecification.eq_of_numbered_eq hlast

theorem spillPath_ne_resultPath (ex : Executor F Uuid) (task task' : Task Uuid) :
    ex.spillPath task ≠ ex.resultPath task' := by
  intro h
  have hpart : PartFile (ex.resultPath task') := partFile_partitionPath _ _ _ _ _
  rw [← h] at hpart
  exact not_partFile_spillPath _ _ _ _ _ hpart

/-- The input is none of the files that the tasks of the job write. -/
def InputApart (ex : Executor F Uuid) (uri : String) (tasks : List (Task Uuid)) : Prop :=
  ∀ task ∈ tasks, ex.host.resolve uri ≠ ex.spillPath task ∧
    ex.host.resolve uri ≠ ex.resultPath task

/-- The operations of task number `k`. -/
def ownOf (ex : Executor F Uuid) (uri : String) (tasks : List (Task Uuid)) (k : Nat)
    (op : FileOp) : Prop :=
  ∃ task, tasks[k]? = some task ∧
    FileOp.Own (ex.host.resolve uri) (ex.spillPath task) (ex.resultPath task) op

/-- The files of task number `k` are the same. -/
def AgreeOn (ex : Executor F Uuid) (uri : String) (tasks : List (Task Uuid)) (k : Nat)
    (s s' : Files) : Prop :=
  ∀ task, tasks[k]? = some task →
    ∀ path ∈ [ex.host.resolve uri, ex.spillPath task, ex.resultPath task],
      s.lookup path = s'.lookup path

section

variable {ex : Executor F Uuid} {uri : String} {tasks : List (Task Uuid)}

theorem ownOf_congr {k : Nat} {op : FileOp} {s s' : Files} (h : ex.ownOf uri tasks k op)
    (hagree : ex.AgreeOn uri tasks k s s') :
    (Interp.exec op s).1 = (Interp.exec op s').1 ∧
      ex.AgreeOn uri tasks k (Interp.exec op s).2 (Interp.exec op s').2 := by
  obtain ⟨task, htask, hown⟩ := h
  have hcongr := hown.congr (hagree task htask)
  refine ⟨hcongr.1, fun task' htask' => ?_⟩
  obtain rfl : task = task' := Option.some.inj (htask.symm.trans htask')
  exact hcongr.2

/-- The operations of a task leave the files of the others alone. -/
theorem agreeOn_of_ownOf
    (hdistinct : (tasks.map Task.partition).Nodup)
    (hinput : ex.InputApart uri tasks) {j k : Nat} {op : FileOp} (s : Files) (hjk : j ≠ k)
    (h : ex.ownOf uri tasks j op) : ex.AgreeOn uri tasks k (Interp.exec op s).2 s := by
  obtain ⟨task, htask, hown⟩ := h
  intro other hother path hpath
  have hj := (List.getElem?_eq_some_iff.mp htask).1
  have hne : other.partition ≠ task.partition := by
    intro heq
    refine hjk ((List.getElem?_inj (by rw [List.length_map]; exact hj) hdistinct).mp ?_)
    rw [List.getElem?_map, List.getElem?_map, htask, hother, Option.map_some, Option.map_some, heq]
  have happart := hinput task (List.mem_of_getElem? htask)
  rw [List.mem_cons, List.mem_cons, List.mem_singleton] at hpath
  rcases hpath with rfl | rfl | rfl
  · exact hown.lookup_of_ne s happart.1 happart.2
  · refine hown.lookup_of_ne s (fun heq => hne (eq_of_spillPath_eq heq)) ?_
    exact spillPath_ne_resultPath ex other task
  · refine hown.lookup_of_ne s (spillPath_ne_resultPath ex task other).symm ?_
    exact fun heq => hne (JobRun.eq_of_resultPath_eq heq)

variable [BEq F] {format : String} {ops : List RecordOp} {total : Nat} {files : Files}
  {attempts : Task Uuid → Nat → Attempt}

theorem IsChain.uses_executeTask {task : Task Uuid} (h : ex.IsChain task uri format ops)
    (attempts : Nat → Attempt) :
    (ex.executeTask attempts task).Uses (FileOp.Own (ex.host.resolve uri) (ex.spillPath task)
      (ex.resultPath task)) fun _ => True := by
  have hspills := spills_own (ex.host.resolve uri) (ex.spillPath task) (ex.resultPath task)
    task.partition
  refine ProcessingEngine.uses_executeTask (fun attempt => ?_) attempts
  refine uses_executeSync attempt hspills ⟨rfl, rfl⟩ (fun pid _ _ hplace data => ?_) ?_
  · obtain ⟨rfl, -⟩ := hplace
    rfl
  · rw [h.operators, List.forall_mem_cons]
    refine ⟨ReadOp.keeps hspills ⟨rfl, rfl⟩ (Or.inl rfl), fun op hop => ?_⟩
    obtain ⟨op, -, rfl⟩ := List.mem_map.mp hop
    exact op.keeps hspills

theorem DealtChain.keeping (h : ex.DealtChain uri format ops total tasks) :
    (ex.threads attempts tasks files).Keeping (ex.ownOf uri tasks) := by
  intro k x hx
  have hx : (tasks.map fun task => ex.executeTask (attempts task) task)[k]? = some x := hx
  rw [List.getElem?_map, Option.map_eq_some_iff] at hx
  obtain ⟨task, htask, rfl⟩ := hx
  exact ((h.chain task (List.mem_of_getElem? htask)).uses_executeTask (attempts task)).mono
    (fun op hop => ⟨task, htask, hop⟩) fun _ _ => trivial

omit [BEq F] in
theorem DealtChain.separate (h : ex.DealtChain uri format ops total tasks)
    (hinput : ex.InputApart uri tasks) :
    Threads.Separate (ex.ownOf uri tasks) (ex.AgreeOn uri tasks) where
  refl _ _ _ _ _ _ := rfl
  trans _ _ _ _ hab hbc task htask path hpath :=
    (hab task htask path hpath).trans (hbc task htask path hpath)
  sees _ _ _ _ hown hagree := ownOf_congr hown hagree
  apart _ _ _ s hjk hown := by
    refine agreeOn_of_ownOf ?_ hinput s hjk hown
    rw [h.partitions]
    exact List.nodup_range

theorem DealtChain.along (h : ex.DealtChain uri format ops total tasks) (k : Nat)
    (x : Prog FileOp (Option Bytes) (Execution F Uuid))
    (hx : (ex.threads attempts tasks files).progs[k]? = some x) :
    x.Along (ex.ownOf uri tasks k) (ex.threads attempts tasks files).store :=
  (h.keeping k x hx).along _

/-- In every interleaving a task ends as it does alone, with its files as it
leaves them alone. -/
theorem DealtChain.ends_alone (h : ex.DealtChain uri format ops total tasks)
    (hinput : ex.InputApart uri tasks) {schedule : List Nat}
    {t : Threads FileOp (Option Bytes) Files (Execution F Uuid)}
    (hrun : Lib.run Threads.step (ex.threads attempts tasks files) schedule = some t) {k : Nat}
    {task : Task Uuid} (htask : tasks[k]? = some task) {execution : Execution F Uuid}
    (hdone : t.progs[k]? = some (.pure execution)) :
    (ex.executeTask (attempts task) task files).1 = execution ∧
      ex.AgreeOn uri tasks k t.store (ex.executeTask (attempts task) task files).2 := by
  have hx : (ex.threads attempts tasks files).progs[k]? =
      some (ex.executeTask (attempts task) task) := by
    show (tasks.map _)[k]? = _
    rw [List.getElem?_map, htask]
    rfl
  exact (h.separate hinput).ends_alone h.along hrun hx hdone

theorem DealtChain.results_eq (h : ex.DealtChain uri format ops total tasks)
    (hinput : ex.InputApart uri tasks) {schedule : List Nat}
    {t : Threads FileOp (Option Bytes) Files (Execution F Uuid)}
    (hrun : Lib.run Threads.step (ex.threads attempts tasks files) schedule = some t)
    {executions : List (Execution F Uuid)} (hdone : t.results = some executions) :
    executions = tasks.map fun task => (ex.executeTask (attempts task) task files).1 := by
  rw [(h.separate hinput).results_eq h.along hrun hdone]
  exact List.map_map

/-- The files of the job are the only ones that may have changed. -/
theorem DealtChain.lookup_of_ne (h : ex.DealtChain uri format ops total tasks) {schedule : List Nat}
    {t : Threads FileOp (Option Bytes) Files (Execution F Uuid)}
    (hrun : Lib.run Threads.step (ex.threads attempts tasks files) schedule = some t) {path : Path}
    (hpath : ∀ task ∈ tasks, path ≠ ex.spillPath task ∧ path ≠ ex.resultPath task) :
    t.store.lookup path = files.lookup path := by
  have hkeeping : (ex.threads attempts tasks files).Keeping (ex.ownOf uri tasks) := h.keeping
  refine hkeeping.keeps (I := fun s => s.lookup path = files.lookup path)
    (fun k op s hown hs => ?_) rfl hrun
  obtain ⟨task, htask, hown⟩ := hown
  have hne := hpath task (List.mem_of_getElem? htask)
  rw [hown.lookup_of_ne s hne.1 hne.2]
  exact hs

/-- What a job has done when all its tasks have completed: each has written its
result file, and the other files are those of `before`. -/
structure AllWritten (ex : Executor F Uuid) (tasks : List (Task Uuid)) (before : Files)
    (executions : List (Execution F Uuid)) (after : Files) : Prop where
  results : List.Forall₂ (fun task execution => ex.WroteResult task execution after) tasks
    executions
  others : ∀ path, (∀ task ∈ tasks, path ≠ ex.resultPath task) →
    after.lookup path = before.lookup path

theorem DealtChain.allWritten (h : ex.DealtChain uri format ops total tasks) (htotal : 0 < total)
    (hfresh : ∀ task ∈ tasks, files.lookup (ex.spillPath task) = none)
    (hinput : ex.InputApart uri tasks) (hback : ex.RoundTrips uri format ops files)
    {rows : List (Nat × Record F)} (hrows : ex.AcceptedInput uri format ops files rows)
    {schedule : List Nat} {t : Threads FileOp (Option Bytes) Files (Execution F Uuid)}
    (hrun : Lib.run Threads.step (ex.threads attempts tasks files) schedule = some t)
    {executions : List (Execution F Uuid)} (hdone : t.results = some executions) :
    ex.AllWritten tasks files executions t.store := by
  have hexecutions := h.results_eq hinput hrun hdone
  have hends : ∀ task ∈ tasks, ∀ path ∈ [ex.host.resolve uri, ex.spillPath task,
      ex.resultPath task], t.store.lookup path =
        (ex.executeTask (attempts task) task files).2.lookup path := by
    intro task hmem
    obtain ⟨k, hk, rfl⟩ := List.mem_iff_getElem.mp hmem
    have htask : tasks[k]? = some tasks[k] := List.getElem?_eq_getElem hk
    have hexecution : executions[k]? =
        some (ex.executeTask (attempts tasks[k]) tasks[k] files).1 := by
      rw [hexecutions, List.getElem?_map, htask]
      rfl
    exact (h.ends_alone hinput hrun htask ((Threads.results_eq_some hdone).2 k _ hexecution)).2
      tasks[k] htask
  have hwrote : ∀ task ∈ tasks, ex.WroteResults task ops files (slice total task.partition rows)
      (ex.executeTask (attempts task) task files).1 (ex.executeTask (attempts task) task files).2 :=
    fun task hmem => h.wrote htotal hback hrows hmem (hfresh task hmem) (attempts task)
  refine ⟨?_, fun path hpath => ?_⟩
  · rw [hexecutions, List.forall₂_map_right_iff, List.forall₂_same]
    intro task hmem
    obtain ⟨hstatus, houtput, hfiles, hlocation⟩ := hwrote task hmem
    refine ⟨hstatus, _, houtput, ?_, hlocation⟩
    rw [hends task hmem _ (by simp), hfiles, AList.lookup_insert]
  · by_cases hspill : ∃ task ∈ tasks, path = ex.spillPath task
    · obtain ⟨task, hmem, rfl⟩ := hspill
      rw [hends task hmem _ (by simp), (hwrote task hmem).files,
        AList.lookup_insert_ne (hpath task hmem)]
    · refine h.lookup_of_ne hrun fun task hmem => ⟨fun heq => ?_, hpath task hmem⟩
      exact hspill ⟨task, hmem, heq⟩

/-- In every interleaving of the tasks of a linear job, all tasks complete
exactly when the single task of the job with one partition does, and the records
that they have written are then those of that task.  A task only touches its
input, its spill file and its result file. -/
theorem linear_transparent {dag : DagSpecification} {id uri format : String} {rest : List DagNode}
    (hlinear : dag.Linear (⟨id, .read uri format⟩ :: rest))
    (hrest : ∀ n ∈ rest, n.operator.recordOp.isSome) (hpartitions : 0 < dag.partitions)
    (newV5 : Uuid → String → Uuid) (order : HashOrder String) (jobId : Uuid) {files : Files}
    (hfresh : ∀ task ∈ dag.materializeTasks newV5 order jobId,
      files.lookup (ex.spillPath task) = none)
    (hinput : ex.InputApart uri (dag.materializeTasks newV5 order jobId))
    (hback : ex.RoundTrips uri format (DagSpecification.recordOps rest) files)
    (attempts : Task Uuid → Nat → Attempt) {schedule : List Nat}
    {t : Threads FileOp (Option Bytes) Files (Execution F Uuid)}
    (hrun : Lib.run Threads.step
      (ex.threads attempts (dag.materializeTasks newV5 order jobId) files) schedule = some t)
    {executions : List (Execution F Uuid)} (hdone : t.results = some executions)
    -- the single task of the job with one partition, with its own limit and directory
    (config₁ : Config) (order₁ : HashOrder String) (jobId₁ : Uuid) (attempts₁ : Nat → Attempt)
    {single : Task Uuid}
    (hsingle : single ∈ ({ dag with partitions := 1 }).materializeTasks newV5 order₁ jobId₁)
    {files₁ : Files}
    (hfiles₁ : files₁.lookup (ex.host.resolve uri) = files.lookup (ex.host.resolve uri))
    (hfresh₁ : files₁.lookup (({ ex with config := config₁ }).spillPath single) = none) :
    let execution₁ := (({ ex with config := config₁ }).executeTask attempts₁ single files₁).1
    ((∀ e ∈ executions, e.result.status = .completed) ↔ execution₁.result.status = .completed) ∧
      ((∀ e ∈ executions, e.result.status = .completed) →
        ex.AllWritten (dag.materializeTasks newV5 order jobId) files executions t.store ∧
        (executions.flatMap fun e => e.output.flatMap Prod.snd).Perm
          (execution₁.output.flatMap Prod.snd)) ∧
      ∀ task ∈ dag.materializeTasks newV5 order jobId,
        (ex.executeTask (attempts task) task).Uses (FileOp.Own (ex.host.resolve uri)
          (ex.spillPath task) (ex.resultPath task)) fun _ => True := by
  have hdealt := dealt_of_linear hlinear hrest newV5 order jobId ex
  have hlinear₁ : ({ dag with partitions := 1 }).Linear (⟨id, .read uri format⟩ :: rest) :=
    ⟨hlinear.nodes, hlinear.edges, hlinear.ids, hlinear.arrow⟩
  have hdealt₁ := dealt_of_linear hlinear₁ hrest newV5 order₁ jobId₁
    ({ ex with config := config₁ })
  have hexecutions := hdealt.results_eq hinput hrun hdone
  have hcompleted : (∀ e ∈ executions, e.result.status = .completed) ↔
      ∃ rows, ex.AcceptedInput uri format (DagSpecification.recordOps rest) files rows := by
    rw [← hdealt.completed_iff hpartitions hback hfresh attempts, hexecutions]
    exact List.forall_mem_map
  have hback₁ := hback.congr hfiles₁ config₁
  rw [hdealt₁.eq_singleton hsingle] at hdealt₁
  have hfresh₁ : ∀ task ∈ [single],
      files₁.lookup (({ ex with config := config₁ }).spillPath task) = none :=
    List.forall_mem_singleton.mpr hfresh₁
  have hcompleted₁ := hdealt₁.completed_iff Nat.one_pos hback₁ hfresh₁ fun _ => attempts₁
  rw [List.forall_mem_singleton] at hcompleted₁
  refine ⟨?_, fun hall => ?_, fun task hmem =>
    (hdealt.chain task hmem).uses_executeTask (attempts task)⟩
  · rw [hcompleted, hcompleted₁]
    exact exists_congr fun rows => (acceptedInput_congr hfiles₁ config₁).symm
  · obtain ⟨rows, hrows⟩ := hcompleted.mp hall
    refine ⟨hdealt.allWritten hpartitions hfresh hinput hback hrows hrun hdone, ?_⟩
    have hrows₁ := (acceptedInput_congr hfiles₁ config₁).mpr hrows
    have hrecords := hdealt.records_perm hpartitions hback hrows hfresh attempts
    have hrecords₁ := hdealt₁.records_perm Nat.one_pos hback₁ hrows₁ hfresh₁ fun _ => attempts₁
    rw [List.flatMap_singleton] at hrecords₁
    rw [hexecutions, List.flatMap_map]
    exact hrecords.trans hrecords₁.symm

end

/-! ### Two tasks that spill -/

/-- The nodes and edges are not listed in the order of the chain. -/
def chainDag : DagSpecification where
  nodes := [⟨"keep", .filter "has_field:k"⟩, ⟨"read", .read "in.csv" "csv"⟩,
    ⟨"map", .map "uppercase"⟩]
  edges := [⟨"map", "keep"⟩, ⟨"read", "map"⟩]
  partitions := 2

theorem chainDag_linear : chainDag.Linear [⟨"read", .read "in.csv" "csv"⟩,
    ⟨"map", .map "uppercase"⟩, ⟨"keep", .filter "has_field:k"⟩] where
  nodes := by decide
  edges := by decide
  ids := by decide
  arrow := by decide

/-- A row of the file after the first operator. -/
def upperRow (v : String) : Record Int := .object [("k", .string "A"), ("v", .string v)]

/-- An executor that spills every record. -/
def spilling : Executor Int Path where
  host := .plain [JobRun.csvRow "x", JobRun.csvRow "y", upperRow "X", upperRow "Y"]
  config := ⟨["data"], 10, 1⟩
  uuidText := String.join

def chainTasks (dag : DagSpecification) : List (Task Path) :=
  dag.materializeTasks (fun jobId name => name :: jobId) .insertion ["job"]

theorem chainDag_roundTrips : spilling.RoundTrips "in.csv" "csv"
    [.map ⟨"uppercase"⟩, .filter ⟨"has_field:k"⟩] JobRun.csvFiles := by
  intro content rows hcontent hrows
  have hlookup : JobRun.csvFiles.lookup ["in.csv"] = some "k,v\na,x\na,y\n".toUTF8.data.toList :=
    AList.lookup_insert _
  obtain rfl := Option.some.inj (hlookup.symm.trans hcontent)
  have hnumbered : ReadOp.numberedRecords spilling.host "csv" "k,v\na,x\na,y\n".toUTF8.data.toList =
      .ok [(0, JobRun.csvRow "x"), (1, JobRun.csvRow "y")] := by decide +kernel
  obtain rfl := Except.ok.inj (hnumbered.symm.trans hrows)
  decide +kernel

/-- The tasks take turns, each with its record in its spill file, and write what
the job with one partition writes. -/
theorem linear_transparent_chainDag :
    ∃ single ∈ chainTasks { chainDag with partitions := 1 }, ∃ t executions,
      Lib.run Threads.step (spilling.threads (fun _ _ => .plain) (chainTasks chainDag)
        JobRun.csvFiles) (List.replicate 11 [0, 1]).flatten = some t ∧
      t.results = some executions ∧
      spilling.AllWritten (chainTasks chainDag) JobRun.csvFiles executions t.store ∧
      (executions.flatMap fun e => e.output.flatMap Prod.snd).Perm
        ((spilling.executeTask (fun _ => .plain) single JobRun.csvFiles).1.output.flatMap
          Prod.snd) := by
  have hsome : (Lib.run Threads.step (spilling.threads (fun _ _ => .plain) (chainTasks chainDag)
      JobRun.csvFiles) (List.replicate 11 [0, 1]).flatten).isSome = true := by decide +kernel
  have hdone : ((Lib.run Threads.step (spilling.threads (fun _ _ => .plain) (chainTasks chainDag)
      JobRun.csvFiles) (List.replicate 11 [0, 1]).flatten).get hsome).results.isSome = true := by
    decide +kernel +revert
  have hsingle : (chainTasks { chainDag with partitions := 1 }).head?.isSome = true := by
    decide +kernel
  have hfresh : JobRun.csvFiles.lookup (({ spilling with config := spilling.config }).spillPath
      ((chainTasks { chainDag with partitions := 1 }).head?.get hsingle)) = none := by
    decide +kernel +revert
  have hall : ∀ e ∈ ((Lib.run Threads.step (spilling.threads (fun _ _ => .plain)
      (chainTasks chainDag) JobRun.csvFiles) (List.replicate 11 [0, 1]).flatten).get
        hsome).results.get hdone, e.result.status = .completed := by
    clear hfresh
    decide +kernel +revert
  have hmem := List.mem_of_head? (Option.some_get hsingle).symm
  refine ⟨_, hmem, _, _, (Option.some_get hsome).symm, (Option.some_get hdone).symm, ?_⟩
  obtain ⟨-, hwritten, -⟩ := linear_transparent chainDag_linear (by decide)
    (by decide) (fun jobId name => name :: jobId) .insertion ["job"]
    (by decide +kernel) (by unfold InputApart; decide +kernel) chainDag_roundTrips
    (fun _ _ => .plain) (Option.some_get hsome).symm (Option.some_get hdone).symm spilling.config
    .insertion ["job"] (fun _ => .plain) hmem rfl hfresh
  exact hwritten hall

end Executor
end ProcessingEngine

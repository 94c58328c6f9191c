import ProcessingEngine.Common.Dag
import ProcessingEngine.Lib.HashMap
import Mathlib.Logic.Equiv.List
import Mathlib.Tactic.DeriveEncodable

/-!
# The persistent store

`common/state_store.rs`: the tables of `state.db`, the upserts that write them
and the two queries that read them back.  Every write is one transaction, which
either commits or leaves the tables as they were; `faults` lists which of the
coming writes the database refuses.  The rows hold JSON texts, produced and
parsed by the functions of `Serde`.  The id columns hold the texts of the ids
and are kept as ids.
-/

namespace ProcessingEngine

/-- The JSON texts of the columns. -/
structure Serde (Uuid : Type) where
  jobStatus : JobStatus → String
  parseJobStatus : String → Option JobStatus
  taskStatus : TaskStatus Uuid → String
  parseTaskStatus : String → Option (TaskStatus Uuid)
  dag : DagSpecification → String
  parseDag : String → Option DagSpecification
  result : TaskResult Uuid → String
  parseResult : String → Option (TaskResult Uuid)
  metrics : JobMetrics Uuid → String
  outputs : List Path → String
  workerStatus : WorkerStatus → String
  workerMetrics : WorkerMetrics Uuid → String

/-- Parsing a written text gives back the value, for each column that is read. -/
structure Serde.RoundTrip {Uuid : Type} (serde : Serde Uuid) : Prop where
  jobStatus : ∀ status, serde.parseJobStatus (serde.jobStatus status) = some status
  taskStatus : ∀ status, serde.parseTaskStatus (serde.taskStatus status) = some status
  dag : ∀ dag, serde.parseDag (serde.dag dag) = some dag
  result : ∀ result, serde.parseResult (serde.result result) = some result

/-! ### A codec -/

section

instance encodableChar : Encodable Char :=
  Encodable.ofLeftInverse Char.toNat Char.ofNat Char.ofNat_toNat

instance encodableString : Encodable String :=
  Encodable.ofLeftInverse String.toList String.ofList fun _ => String.ofList_toList

deriving instance Encodable for JoinType, OperatorType, JobStatus, TaskStatus, DagNode, DagEdge,
  DagSpecification, TaskMetrics, ResultLocation, PartitionInfo, StageTrace, ExecutionTrace,
  TaskResult

/-- The number of a value, written with one character for each unit. -/
def tally {α : Type} [Encodable α] (a : α) : String :=
  String.ofList (List.replicate (Encodable.encode a) '|')

def parseTally {α : Type} [Encodable α] (text : String) : Option α :=
  Encodable.decode text.toList.length

theorem parseTally_tally {α : Type} [Encodable α] (a : α) : parseTally (tally a) = some a := by
  simp [parseTally, tally]

/-- Texts that can be parsed back exist. -/
def Serde.tallied (Uuid : Type) [Encodable Uuid] : Serde Uuid where
  jobStatus := tally
  parseJobStatus := parseTally
  taskStatus := tally
  parseTaskStatus := parseTally
  dag := tally
  parseDag := parseTally
  result := tally
  parseResult := parseTally
  metrics m := toString m.completedTasks
  outputs paths := String.join paths.flatten
  workerStatus _ := "Active"
  workerMetrics m := toString m.tasksInFlight

theorem Serde.tallied_roundTrip (Uuid : Type) [Encodable Uuid] :
    (Serde.tallied Uuid).RoundTrip where
  jobStatus := parseTally_tally
  taskStatus := parseTally_tally
  dag := parseTally_tally
  result := parseTally_tally

end

structure JobRow where
  status : String
  dagJson : String
  deriving DecidableEq

structure TaskRow (Uuid : Type) where
  jobId : Uuid
  status : String
  resultJson : Option String
  deriving DecidableEq

structure JobStatusRow where
  state : String
  progress : ℚ
  metricsJson : String
  error : String
  outputsJson : String
  deriving DecidableEq

structure WorkerMetricsRow where
  lastHeartbeat : Nat
  status : String
  metricsJson : String
  deriving DecidableEq

structure StateStore (Uuid : Type) where
  jobs : Lib.HashMap Uuid JobRow := ∅
  tasks : Lib.HashMap Uuid (TaskRow Uuid) := ∅
  jobStatus : Lib.HashMap Uuid JobStatusRow := ∅
  workerMetrics : Lib.HashMap Uuid WorkerMetricsRow := ∅
  faults : List Bool := []

inductive StoreError where
  | refused
  | foreignKey
  deriving DecidableEq, Repr

namespace StateStore

variable {Uuid : Type} [DecidableEq Uuid]

/-- One transaction.  `allowed` is the foreign key constraint on the row. -/
def transaction (store : StateStore Uuid) (allowed : Bool)
    (commit : StateStore Uuid → StateStore Uuid) : Except StoreError Unit × StateStore Uuid :=
  let rest := { store with faults := store.faults.tail }
  if store.faults.head?.getD false then (.error .refused, rest)
  else if allowed then (.ok (), commit rest)
  else (.error .foreignKey, rest)

def persistJob (serde : Serde Uuid) (jobId : Uuid) (dag : DagSpecification) (status : JobStatus)
    (store : StateStore Uuid) : Except StoreError Unit × StateStore Uuid :=
  store.transaction true fun s =>
    { s with jobs := s.jobs.insert jobId ⟨serde.jobStatus status, serde.dag dag⟩ }

def persistJobStatus (serde : Serde Uuid) (jobId : Uuid) (state : JobStatus) (progress : ℚ)
    (metrics : JobMetrics Uuid) (error : Option String) (outputs : List Path)
    (store : StateStore Uuid) : Except StoreError Unit × StateStore Uuid :=
  store.transaction true fun s =>
    { s with
      jobStatus := s.jobStatus.insert jobId
        { state := serde.jobStatus state
          progress
          metricsJson := serde.metrics metrics
          error := error.getD ""
          outputsJson := serde.outputs outputs } }

def persistWorkerMetrics (serde : Serde Uuid) (workerId : Uuid) (status : WorkerStatus)
    (metrics : WorkerMetrics Uuid) (now : Nat) (store : StateStore Uuid) :
    Except StoreError Unit × StateStore Uuid :=
  store.transaction true fun s =>
    { s with
      workerMetrics := s.workerMetrics.insert workerId
        ⟨now, serde.workerStatus status, serde.workerMetrics metrics⟩ }

/-- A new task row has to name an existing job. -/
def admitsTask (store : StateStore Uuid) (taskId jobId : Uuid) : Bool :=
  (store.tasks.lookup taskId).isSome || (store.jobs.lookup jobId).isSome

/-- The row after an upsert that sets the status and leaves the result. -/
def taskRowWithStatus (row : Option (TaskRow Uuid)) (jobId : Uuid) (status : String) :
    TaskRow Uuid :=
  match row with
  | some row => { row with status }
  | none => ⟨jobId, status, none⟩

/-- The row after an upsert that sets the status and the result. -/
def taskRowWithResult (row : Option (TaskRow Uuid)) (jobId : Uuid) (status resultJson : String) :
    TaskRow Uuid :=
  match row with
  | some row => { row with status, resultJson := some resultJson }
  | none => ⟨jobId, status, some resultJson⟩

def persistTaskStatus (serde : Serde Uuid) (taskId jobId : Uuid) (status : TaskStatus Uuid)
    (store : StateStore Uuid) : Except StoreError Unit × StateStore Uuid :=
  store.transaction (store.admitsTask taskId jobId) fun s =>
    { s with
      tasks := s.tasks.insert taskId
        (taskRowWithStatus (s.tasks.lookup taskId) jobId (serde.taskStatus status)) }

def persistTaskResult (serde : Serde Uuid) (result : TaskResult Uuid)
    (store : StateStore Uuid) : Except StoreError Unit × StateStore Uuid :=
  store.transaction (store.admitsTask result.taskId result.jobId) fun s =>
    { s with
      tasks := s.tasks.insert result.taskId
        (taskRowWithResult (s.tasks.lookup result.taskId) result.jobId
          (serde.taskStatus result.status) (serde.result result)) }

def parseJobRow (serde : Serde Uuid) (jobId : Uuid) (row : JobRow) :
    Option (Uuid × JobStatus × DagSpecification) := do
  let status ← serde.parseJobStatus row.status
  let dag ← serde.parseDag row.dagJson
  return (jobId, status, dag)

/-- All jobs, or `none` when a row cannot be parsed. -/
def loadAllJobs (serde : Serde Uuid) (store : StateStore Uuid) :
    Option (List (Uuid × JobStatus × DagSpecification)) :=
  store.jobs.entries.mapM fun row => parseJobRow serde row.1 row.2

def parseTaskRow (serde : Serde Uuid) (taskId : Uuid) (row : TaskRow Uuid) :
    Option (Uuid × Uuid × TaskStatus Uuid × Option (TaskResult Uuid)) := do
  let status ← serde.parseTaskStatus row.status
  match row.resultJson with
  | some json =>
      let result ← serde.parseResult json
      return (taskId, row.jobId, status, some result)
  | none => return (taskId, row.jobId, status, none)

/-- All tasks, or `none` when a row cannot be parsed. -/
def loadAllTasks (serde : Serde Uuid) (store : StateStore Uuid) :
    Option (List (Uuid × Uuid × TaskStatus Uuid × Option (TaskResult Uuid))) :=
  store.tasks.entries.mapM fun row => parseTaskRow serde row.1 row.2

omit [DecidableEq Uuid] in
/-- A row is read under its key. -/
theorem parseJobRow_id (serde : Serde Uuid) (id : Uuid) (row : JobRow)
    (x : Uuid × JobStatus × DagSpecification) (h : parseJobRow serde id row = some x) :
    x.1 = id := by
  simp only [parseJobRow, Option.bind_eq_bind, Option.bind_eq_some_iff, Option.pure_def] at h
  obtain ⟨_, _, _, _, h⟩ := h
  cases h
  rfl

omit [DecidableEq Uuid] in
theorem parseTaskRow_id (serde : Serde Uuid) (id : Uuid) (row : TaskRow Uuid)
    (x : Uuid × Uuid × TaskStatus Uuid × Option (TaskResult Uuid))
    (h : parseTaskRow serde id row = some x) : x.1 = id := by
  simp only [parseTaskRow, Option.bind_eq_bind, Option.bind_eq_some_iff, Option.pure_def] at h
  obtain ⟨_, _, h⟩ := h
  split at h
  · obtain ⟨_, _, h⟩ := Option.bind_eq_some_iff.mp h
    cases h
    rfl
  · cases h
    rfl

/-- Whether the next write of a task row commits. -/
def accepts (store : StateStore Uuid) (taskId jobId : Uuid) : Bool :=
  !store.faults.head?.getD false && store.admitsTask taskId jobId

omit [DecidableEq Uuid] in
theorem transaction_ok_iff {store : StateStore Uuid} {allowed : Bool}
    {commit : StateStore Uuid → StateStore Uuid} :
    (store.transaction allowed commit).1 = .ok () ↔
      (!store.faults.head?.getD false && allowed) = true := by
  unfold transaction
  cases store.faults.head?.getD false <;> cases allowed <;> simp

omit [DecidableEq Uuid] in
/-- A transaction leaves the tables as they were, or commits. -/
theorem transaction_keeps {Q : StateStore Uuid → Prop} {store : StateStore Uuid} {allowed : Bool}
    {commit : StateStore Uuid → StateStore Uuid}
    (hrest : Q { store with faults := store.faults.tail })
    (hcommit : allowed = true → Q (commit { store with faults := store.faults.tail })) :
    Q (store.transaction allowed commit).2 := by
  unfold transaction
  dsimp only
  split_ifs with hrefused hallowed
  · exact hrest
  · exact hcommit hallowed
  · exact hrest

theorem persistTaskResult_ok_iff {serde : Serde Uuid} {store : StateStore Uuid}
    {result : TaskResult Uuid} :
    (store.persistTaskResult serde result).1 = .ok () ↔
      store.accepts result.taskId result.jobId :=
  transaction_ok_iff

/-- `Q` is kept by every write of the master, when the DAGs it writes satisfy `P`. -/
structure KeptByWrites (serde : Serde Uuid) (P : DagSpecification → Prop)
    (Q : StateStore Uuid → Prop) : Prop where
  job : ∀ store jobId dag status, Q store → P dag → Q (store.persistJob serde jobId dag status).2
  jobStatus : ∀ store jobId state progress metrics error outputs, Q store →
    Q (store.persistJobStatus serde jobId state progress metrics error outputs).2
  taskStatus : ∀ store taskId jobId status, Q store →
    Q (store.persistTaskStatus serde taskId jobId status).2
  taskResult : ∀ store result, Q store → Q (store.persistTaskResult serde result).2
  workerMetrics : ∀ store workerId status metrics now, Q store →
    Q (store.persistWorkerMetrics serde workerId status metrics now).2

/-- A store without faults stays so, and no job row goes away. -/
structure Continues (store store' : StateStore Uuid) : Prop where
  healthy : store.faults = [] → store'.faults = []
  jobs : ∀ id, (store.jobs.lookup id).isSome → (store'.jobs.lookup id).isSome

theorem Continues.refl (store : StateStore Uuid) : Continues store store := ⟨id, fun _ => id⟩

theorem Continues.trans {a b c : StateStore Uuid} (hab : Continues a b) (hbc : Continues b c) :
    Continues a c :=
  ⟨fun h => hbc.healthy (hab.healthy h), fun id h => hbc.jobs id (hab.jobs id h)⟩

theorem continues_transaction {store : StateStore Uuid} {allowed : Bool}
    {commit : StateStore Uuid → StateStore Uuid} (hcommit : ∀ s, Continues s (commit s)) :
    Continues store (store.transaction allowed commit).2 :=
  have hrest : Continues store { store with faults := store.faults.tail } :=
    ⟨fun h => by simp [h], fun _ => id⟩
  transaction_keeps hrest fun _ => hrest.trans (hcommit _)

theorem continues_keptByWrites (serde : Serde Uuid) (store : StateStore Uuid) :
    KeptByWrites serde (fun _ => True) (Continues store) where
  job _ _ _ _ h _ := h.trans (continues_transaction fun _ => ⟨id, fun id hrow => by
    rw [AList.lookup_isSome, AList.mem_insert]
    exact Or.inr (AList.lookup_isSome.mp hrow)⟩)
  jobStatus _ _ _ _ _ _ _ h := h.trans (continues_transaction fun _ => ⟨id, fun _ => id⟩)
  taskStatus _ _ _ _ h := h.trans (continues_transaction fun _ => ⟨id, fun _ => id⟩)
  taskResult _ _ h := h.trans (continues_transaction fun _ => ⟨id, fun _ => id⟩)
  workerMetrics _ _ _ _ _ h := h.trans (continues_transaction fun _ => ⟨id, fun _ => id⟩)

/-! ### Writes to a database that refuses none -/

section

variable (serde : Serde Uuid) {store : StateStore Uuid}

omit [DecidableEq Uuid] in
theorem transaction_healthy (h : store.faults = []) {allowed : Bool} (hallowed : allowed = true)
    (commit : StateStore Uuid → StateStore Uuid) :
    store.transaction allowed commit = (.ok (), commit store) := by
  have hrest : { store with faults := store.faults.tail } = store := by
    cases store
    simp only at h
    rw [h]
    rfl
  rw [transaction, hrest, h, hallowed]
  rfl

theorem persistJob_healthy (h : store.faults = []) (jobId : Uuid) (dag : DagSpecification)
    (status : JobStatus) :
    store.persistJob serde jobId dag status = (.ok (),
      { store with jobs := store.jobs.insert jobId ⟨serde.jobStatus status, serde.dag dag⟩ }) :=
  transaction_healthy h rfl _

/-- The summary of a job goes to a table of its own. -/
theorem persistJobStatus_healthy (h : store.faults = []) (jobId : Uuid) (state : JobStatus)
    (progress : ℚ) (metrics : JobMetrics Uuid) (error : Option String) (outputs : List Path) :
    ∃ jobStatus, store.persistJobStatus serde jobId state progress metrics error outputs =
      (.ok (), { store with jobStatus }) :=
  ⟨_, transaction_healthy h rfl _⟩

theorem persistWorkerMetrics_healthy (h : store.faults = []) (workerId : Uuid)
    (status : WorkerStatus) (metrics : WorkerMetrics Uuid) (now : Nat) :
    ∃ workerMetrics, store.persistWorkerMetrics serde workerId status metrics now =
      (.ok (), { store with workerMetrics }) :=
  ⟨_, transaction_healthy h rfl _⟩

theorem persistTaskStatus_healthy (h : store.faults = []) {taskId jobId : Uuid}
    (hadmits : store.admitsTask taskId jobId) (status : TaskStatus Uuid) :
    store.persistTaskStatus serde taskId jobId status = (.ok (),
      { store with
        tasks := store.tasks.insert taskId
          (taskRowWithStatus (store.tasks.lookup taskId) jobId (serde.taskStatus status)) }) :=
  transaction_healthy h hadmits _

theorem persistTaskResult_healthy (h : store.faults = []) {result : TaskResult Uuid}
    (hadmits : store.admitsTask result.taskId result.jobId) :
    store.persistTaskResult serde result = (.ok (),
      { store with
        tasks := store.tasks.insert result.taskId
          (taskRowWithResult (store.tasks.lookup result.taskId) result.jobId
            (serde.taskStatus result.status) (serde.result result)) }) :=
  transaction_healthy h hadmits _

theorem accepts_healthy (h : store.faults = []) {taskId jobId : Uuid}
    (hadmits : store.admitsTask taskId jobId) : store.accepts taskId jobId := by
  rw [accepts, h, hadmits]
  rfl

theorem admitsTask_of_job {taskId jobId : Uuid} (h : (store.jobs.lookup jobId).isSome) :
    store.admitsTask taskId jobId := by
  rw [admitsTask, h, Bool.or_true]

end

end StateStore
end ProcessingEngine

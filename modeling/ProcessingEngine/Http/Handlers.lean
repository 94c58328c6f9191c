import ProcessingEngine.Cluster.Output
import ProcessingEngine.Cluster.Results

/-!
# The answers to queries

`http/handlers.rs`: what the routes of a job answer, in particular the download of
its result.  The download sends the file of the first completed result.  In every run
of an installation that is a file of a task of the job
(`Cluster.run_served`), and when a linear job has succeeded it holds what the
operators make of one slice of the rows, which are all rows where the job has one
partition (`Cluster.run_download`).
-/

namespace ProcessingEngine

open Lib Text

variable {F Uuid : Type}

inductive EngineError where
  | network (message : String)
  | io (message : String)
  | validation (message : String)
  | notFound (message : String)
  deriving DecidableEq, Repr

def EngineError.text : EngineError → String
  | .network message => "network error: " ++ message
  | .io message => "io error: " ++ message
  | .validation message => "invalid input: " ++ message
  | .notFound message => "not found: " ++ message

inductive ApiError where
  | engine (error : EngineError)
  | badRequest (message : String)
  | internal
  deriving DecidableEq, Repr

/-- The status code and the message of an error. -/
def ApiError.intoResponse : ApiError → Nat × String
  | .engine (.notFound message) => (404, message)
  | .engine (.validation message) => (400, message)
  | .engine other => (500, other.text)
  | .badRequest message => (400, message)
  | .internal => (500, "internal error")

/-- An answer with status 200 and content type `application/octet-stream`. -/
structure FileResponse where
  contentDisposition : String
  body : Bytes
  deriving DecidableEq, Repr

/-- The texts of ids and paths, and of the error of reading a file. -/
structure HandlerEnv (Uuid : Type) where
  uuidText : Uuid → String
  parseStr : String → Option Uuid
  pathText : Path → String
  readError : Path → String

namespace HandlerEnv

variable [DecidableEq Uuid]

def parseJobId (handlers : HandlerEnv Uuid) (raw : String) : Except ApiError Uuid :=
  match handlers.parseStr raw with
  | some jobId => .ok jobId
  | none => .error (.badRequest "invalid job id")

/-- The answer of the master, or that it does not know the job. -/
def known {α : Type} (handlers : HandlerEnv Uuid) (jobId : Uuid) :
    Option α → Except ApiError α
  | some answer => .ok answer
  | none =>
      .error (.engine (.notFound ("job " ++ handlers.uuidText jobId ++ " not found")))

def jobStatus (handlers : HandlerEnv Uuid) (m : Master Uuid) (raw : String) :
    Except ApiError (JobStatusResponse Uuid) := do
  let parsed ← handlers.parseJobId raw
  handlers.known parsed (m.getJobStatus parsed)

def jobResults (handlers : HandlerEnv Uuid) (m : Master Uuid) (raw : String) :
    Except ApiError (List (TaskResult Uuid)) := do
  let parsed ← handlers.parseJobId raw
  handlers.known parsed (m.getJobResults parsed)

/-- `Path::file_name` -/
def fileName (path : Path) : String :=
  match path.getLast? with
  | some name => if name = ".." then "result.bin" else name
  | none => "result.bin"

/-- `HeaderValue` takes no control characters but tabs. -/
def isHeaderChar (c : Char) : Bool := c == '\t' || (32 ≤ c.toNat && c.toNat != 127)

def attachment (path : Path) : String :=
  "attachment; filename=\"" ++ fileName path ++ "\""

def firstCompleted (results : List (TaskResult Uuid)) : Except ApiError Path :=
  match results.find? fun r => r.status == .completed with
  | some r => .ok r.resultLocation.path
  | none => .error (.engine (.notFound "no completed results"))

def readFailed (handlers : HandlerEnv Uuid) (path : Path) : String :=
  "failed to read result file " ++ handlers.pathText path ++ ": " ++ handlers.readError path

def readFile (handlers : HandlerEnv Uuid) (files : Files) (path : Path) :
    Except ApiError Bytes :=
  match files.lookup path with
  | some data => .ok data
  | none => .error (.engine (.io (handlers.readFailed path)))

/-- The answer with the header that names the file. -/
def respond (path : Path) (data : Bytes) : Except ApiError FileResponse :=
  if (attachment path).toList.all isHeaderChar then .ok ⟨attachment path, data⟩
  else .error .internal

def jobResultFile (handlers : HandlerEnv Uuid) (m : Master Uuid) (files : Files)
    (raw : String) : Except ApiError FileResponse := do
  let results ← handlers.jobResults m raw
  let path ← firstCompleted results
  let data ← handlers.readFile files path
  respond path data

/-! ### Which file is sent -/

variable {handlers : HandlerEnv Uuid} {m : Master Uuid} {files : Files} {raw : String}
  {jobId : Uuid} {job : JobState Uuid}

theorem jobResults_of_job (hparse : handlers.parseStr raw = some jobId)
    (hjob : m.jobs.lookup jobId = some job) : handlers.jobResults m raw = .ok job.results := by
  rw [jobResults, parseJobId, hparse]
  show handlers.known jobId ((m.jobs.lookup jobId).map JobState.results) = _
  rw [hjob]
  rfl

theorem jobResultFile_of_job (hparse : handlers.parseStr raw = some jobId)
    (hjob : m.jobs.lookup jobId = some job) {result : TaskResult Uuid}
    (hfirst : (job.results.find? fun r => r.status == .completed) = some result) {data : Bytes}
    (hdata : files.lookup result.resultLocation.path = some data) :
    handlers.jobResultFile m files raw = respond result.resultLocation.path data := by
  rw [jobResultFile, jobResults_of_job hparse hjob]
  show (firstCompleted job.results >>= _) = _
  rw [firstCompleted, hfirst]
  show (handlers.readFile files result.resultLocation.path >>= _) = _
  rw [readFile, hdata]
  rfl

/-- The paths in the status of a job are those of its results. -/
theorem jobStatus_outputs (handlers : HandlerEnv Uuid) (m : Master Uuid) (raw : String) :
    (handlers.jobStatus m raw).map JobStatusResponse.outputs =
      (handlers.jobResults m raw).map fun results =>
        results.map fun r => r.resultLocation.path := by
  rw [jobStatus, jobResults]
  cases handlers.parseJobId raw with
  | error e => rfl
  | ok jobId =>
      show (handlers.known jobId (m.getJobStatus jobId)).map _ =
        (handlers.known jobId (m.getJobResults jobId)).map _
      rw [Master.getJobStatus, Master.getJobResults]
      cases m.jobs.lookup jobId with
      | none => rfl
      | some job => rfl

theorem jobResultFile_of_lost (hparse : handlers.parseStr raw = some jobId)
    (hjob : m.jobs.lookup jobId = some job) {result : TaskResult Uuid}
    (hfirst : (job.results.find? fun r => r.status == .completed) = some result)
    (hlost : files.lookup result.resultLocation.path = none) :
    handlers.jobResultFile m files raw =
      .error (.engine (.io (handlers.readFailed result.resultLocation.path))) := by
  rw [jobResultFile, jobResults_of_job hparse hjob]
  show (firstCompleted job.results >>= _) = _
  rw [firstCompleted, hfirst]
  show (handlers.readFile files result.resultLocation.path >>= _) = _
  rw [readFile, hlost]
  rfl

/-- The request is refused with 400 or 404, or there is a first completed result. -/
theorem jobResultFile_cases (handlers : HandlerEnv Uuid) (m : Master Uuid) (files : Files)
    (raw : String) :
    (∃ error, handlers.jobResultFile m files raw = .error error ∧
        error.intoResponse.1 ∈ [400, 404]) ∨
      ∃ jobId job result, handlers.parseStr raw = some jobId ∧ m.jobs.lookup jobId = some job ∧
        (job.results.find? fun r => r.status == .completed) = some result := by
  cases hparse : handlers.parseStr raw with
  | none =>
      refine Or.inl ⟨.badRequest "invalid job id", ?_, by decide⟩
      rw [jobResultFile, jobResults, parseJobId, hparse]
      rfl
  | some jobId =>
      cases hjob : m.jobs.lookup jobId with
      | none =>
          refine Or.inl ⟨.engine (.notFound ("job " ++ handlers.uuidText jobId ++ " not found")),
            ?_, List.mem_of_mem_tail List.mem_cons_self⟩
          rw [jobResultFile, jobResults, parseJobId, hparse]
          show (handlers.known jobId ((m.jobs.lookup jobId).map JobState.results) >>= _) = _
          rw [hjob]
          rfl
      | some job =>
          cases hfirst : job.results.find? fun r => r.status == .completed with
          | none =>
              refine Or.inl ⟨.engine (.notFound "no completed results"), ?_, by decide⟩
              rw [jobResultFile, jobResults_of_job hparse hjob]
              show (firstCompleted job.results >>= _) = _
              rw [firstCompleted, hfirst]
              rfl
          | some result => exact Or.inr ⟨jobId, job, result, rfl, hjob, hfirst⟩

/-! ### The names of result files -/

theorem isHeaderChar_of_isDigit {c : Char} (h : c.isDigit = true) : isHeaderChar c = true := by
  simp only [Char.isDigit, Bool.and_eq_true, decide_eq_true_eq, UInt32.le_iff_toNat_le] at h
  have hlow : 48 ≤ c.toNat := h.1
  have hhigh : c.toNat ≤ 57 := h.2
  rw [isHeaderChar, Bool.or_eq_true, Bool.and_eq_true, decide_eq_true_eq, bne_iff_ne]
  exact Or.inr ⟨by omega, by omega⟩

theorem isHeaderChar_toString (n : Nat) : (toString n).toList.all isHeaderChar = true := by
  rw [show toString n = n.repr from rfl, Nat.toList_repr, List.all_eq_true]
  intro c hc
  exact isHeaderChar_of_isDigit (Nat.isDigit_of_mem_toDigits (by decide) (by decide) hc)

/-- The name of a file of results. -/
def partName (partition : Nat) : String := "part-" ++ toString partition ++ ".bin"

omit [DecidableEq Uuid] in
theorem fileName_resultPath (ex : Executor F Uuid) (task : Task Uuid) :
    fileName (ex.resultPath task) = partName task.partition := by
  have hne : partName task.partition ≠ ".." := by
    intro heq
    have hlist := congrArg String.toList heq
    simp [partName, String.toList_append] at hlist
  have hlast : (ex.resultPath task).getLast? = some (partName task.partition) := by
    rw [Executor.resultPath, Executor.partitionPath, PartitionStore.partitionPath,
      List.getLast?_concat]
    rfl
  rw [fileName, hlast]
  exact if_neg hne

omit [DecidableEq Uuid] in
/-- A file of results has a name for the header. -/
theorem respond_resultPath (ex : Executor F Uuid) (task : Task Uuid) (data : Bytes) :
    respond (ex.resultPath task) data =
      .ok ⟨"attachment; filename=\"" ++ partName task.partition ++ "\"", data⟩ := by
  have hdisposition : attachment (ex.resultPath task) =
      "attachment; filename=\"" ++ partName task.partition ++ "\"" :=
    congrArg (fun name => "attachment; filename=\"" ++ name ++ "\"") (fileName_resultPath ex task)
  have hall : (attachment (ex.resultPath task)).toList.all isHeaderChar = true := by
    have hstart : "attachment; filename=\"".toList.all isHeaderChar = true := by decide
    have hpart : "part-".toList.all isHeaderChar = true := by decide
    have hbin : ".bin".toList.all isHeaderChar = true := by decide
    have hend : "\"".toList.all isHeaderChar = true := by decide
    rw [hdisposition, partName]
    simp only [String.toList_append, List.all_append, isHeaderChar_toString, hstart, hpart, hbin,
      hend, Bool.and_self]
  rw [respond, if_pos hall, hdisposition]

end HandlerEnv

namespace Cluster

variable [DecidableEq Uuid] [BEq F] {env : MasterEnv Uuid} {ex : Executor F Uuid}
  {c : Cluster F Uuid} {dag : DagSpecification} {id uri format : String} {rest : List DagNode}
  {jobId : Uuid} {handlers : HandlerEnv Uuid} {raw : String}

/-- The result is one of this job and this task, for which a call has completed. -/
structure Picked (env : MasterEnv Uuid) (ex : Executor F Uuid) (c : Cluster F Uuid)
    (jobId : Uuid) (result : TaskResult Uuid) (task : Task Uuid) : Prop where
  kept : ∃ job order, c.system.job jobId = some job ∧ result ∈ job.results ∧
    task ∈ job.dag.materializeTasks env.newV5 order jobId
  returned : c.Returned result
  completed : result.status = .completed
  reports : ex.Reports task result

/-- In every run a download is refused for a fault of the request, or it is answered
with the file of a task of the job, and with a server error when that is gone. -/
theorem run_served {master : Master Uuid} (hjobs : ∀ id, master.jobs.lookup id = none)
    (slots : List Nat) (files : Files) {events : List (ClusterEvent Uuid)}
    (hrun : Lib.run (step env ex) (new master slots files) events = some c)
    (handlers : HandlerEnv Uuid) (raw : String) :
    (∃ error, handlers.jobResultFile c.system.master c.files raw = .error error ∧
        error.intoResponse.1 ∈ [400, 404]) ∨
      ∃ jobId result task, handlers.parseStr raw = some jobId ∧
        Picked env ex c jobId result task ∧
        (∀ data, c.files.lookup (ex.resultPath task) = some data →
          handlers.jobResultFile c.system.master c.files raw = .ok
            ⟨"attachment; filename=\"" ++ HandlerEnv.partName task.partition ++ "\"", data⟩) ∧
        (c.files.lookup (ex.resultPath task) = none →
          ∃ error, handlers.jobResultFile c.system.master c.files raw = .error error ∧
            error.intoResponse =
              (500, "io error: " ++ handlers.readFailed (ex.resultPath task))) := by
  have htraced := traced_of_run hjobs slots files hrun
  rcases handlers.jobResultFile_cases c.system.master c.files raw with
    herror | ⟨jobId, job, result, hparse, hjob, hfirst⟩
  · exact Or.inl herror
  · have hmem := List.mem_of_find?_eq_some hfirst
    obtain ⟨hreturned, hid, hstatus⟩ := htraced.results jobId job hjob result hmem
    obtain ⟨task, hreports, known, order, hknown, htask, -⟩ := htraced.of_returned hreturned
    rw [← hreports.jobId, hid] at hknown htask
    obtain rfl : known = job := Option.some.inj (hknown.symm.trans hjob)
    have hpath : result.resultLocation.path = ex.resultPath task := hreports.path
    refine Or.inr ⟨jobId, result, task, hparse,
      ⟨⟨known, order, hjob, hmem, htask⟩, hreturned, hstatus, hreports⟩, fun data hdata => ?_,
      fun hlost => ?_⟩
    · rw [← hpath] at hdata
      rw [HandlerEnv.jobResultFile_of_job hparse hjob hfirst hdata, hpath,
        HandlerEnv.respond_resultPath]
    · rw [← hpath] at hlost ⊢
      exact ⟨_, HandlerEnv.jobResultFile_of_lost hparse hjob hfirst hlost, rfl⟩

/-- Ids that are texts. -/
def textHandlers : HandlerEnv String where
  uuidText text := text
  parseStr := some
  pathText := "/".intercalate
  readError _ := "No such file or directory (os error 2)"

theorem run_served_chainRun :
    ∃ c jobId result task,
      Lib.run (step nameEnv named) (new {} [2] JobRun.csvFiles) chainRun = some c ∧
      textHandlers.parseStr "job" = some jobId ∧ Picked nameEnv named c jobId result task := by
  have hsome : ((Lib.run (step nameEnv named) (new {} [2] JobRun.csvFiles) chainRun).bind fun c =>
      if (textHandlers.jobResultFile c.system.master c.files "job").toOption.isSome then some c
      else none).isSome = true := by decide +kernel
  obtain ⟨last, hlast⟩ := Option.isSome_iff_exists.mp hsome
  obtain ⟨c, hrun, hlast⟩ := Option.bind_eq_some_iff.mp hlast
  have hanswer := (Option.ite_none_right_eq_some.mp hlast).1
  rcases run_served (fun _ => AList.lookup_empty _) [2] JobRun.csvFiles hrun textHandlers "job" with
    ⟨error, herror, -⟩ | ⟨jobId, result, task, hparse, hpicked, -⟩
  · rw [herror] at hanswer
    cases hanswer
  · exact ⟨c, jobId, result, task, hrun, hparse, hpicked⟩

end Cluster
end ProcessingEngine

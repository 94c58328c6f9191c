import ProcessingEngine.Cluster.Provenance
import ProcessingEngine.Worker.Alone

/-!
# Tasks that are left alone

The calls of the tasks of a job are spread over the workers and interleaved with
those of other jobs.  When each task of the job is sent at most once, and the
operations of every other task leave what it sees, a call ends as its task does
alone on the files of the beginning (`Cluster.Isolated.returned`).
-/

namespace ProcessingEngine

open Lib Text

variable {F Uuid : Type} [DecidableEq Uuid]

namespace Cluster

/-! ### One call for a message -/

/-- An element that is counted once has one place. -/
theorem eq_of_count_le_one {α : Type} [BEq α] [LawfulBEq α] {l : List α} {a : α}
    (h : l.count a ≤ 1) {i j : Nat} (hi : l[i]? = some a) (hj : l[j]? = some a) : i = j := by
  induction l generalizing i j with
  | nil => cases hi
  | cons b l ih =>
      have hnot : b = a → ∀ k : Nat, l[k]? ≠ some a := by
        intro hb k hk
        rw [List.count_cons, hb, beq_self_eq_true, if_pos rfl] at h
        have := List.count_pos_iff.mpr (List.mem_of_getElem? hk)
        omega
      have hle : l.count a ≤ 1 := (List.count_le_count_cons).trans h
      cases i with
      | zero =>
          cases j with
          | zero => rfl
          | succ j => exact absurd hj (hnot (Option.some.inj hi) j)
      | succ i =>
          cases j with
          | zero => exact absurd hi (hnot (Option.some.inj hj) i)
          | succ j => exact congrArg Nat.succ (ih hle hi hj)

/-- Every call comes from a dispatch of its own. -/
def Originates (c : Cluster F Uuid) : Prop :=
  ∃ origin : Nat → Nat → Nat,
    (∀ w i call, c.call w i = some call → origin w i ∈ c.delivered ∧
      ∃ info, c.system.dispatched[origin w i]? = some (call.task, info)) ∧
    ∀ w i v k, (c.call w i).isSome → (c.call v k).isSome → origin w i = origin v k → w = v ∧ i = k

theorem originates_new (master : Master Uuid) (slots : List Nat) (files : Files) :
    (new master slots files : Cluster F Uuid).Originates := by
  have hnone := call_new (F := F) master slots files
  refine ⟨fun _ _ => 0, fun w i call h => ?_, fun w i v k h => ?_⟩
  · rw [hnone w i] at h
    cases h
  · rw [hnone w i] at h
    cases h

variable [BEq F] {env : MasterEnv Uuid} {ex : Executor F Uuid} {c c' : Cluster F Uuid}

theorem Originates.moved (h : c.Originates) (hmoved : Moved env ex c c') : c'.Originates := by
  obtain ⟨origin, hsent, hunique⟩ := h
  obtain ⟨more, hmore⟩ := hmoved.dispatched
  have hget : ∀ {j : Nat} {d}, c.system.dispatched[j]? = some d →
      c'.system.dispatched[j]? = some d := by
    intro j d hj
    rw [hmore, List.getElem?_append_left (List.getElem?_eq_some_iff.mp hj).1]
    exact hj
  rcases hmoved.position with ⟨hcalls, -, hdelivered⟩ |
    ⟨v, k, j, task, info, attempts, hnone, hnew, hothers, hj, hfresh, hdelivered, -⟩ |
    ⟨v, k, call, call', hcall, hcall', hothers, hdelivered, -, hstep⟩
  · refine ⟨origin, fun w i call hcall => ?_, fun w i v k => ?_⟩
    · rw [hcalls] at hcall
      obtain ⟨hmem, info, hd⟩ := hsent w i call hcall
      exact ⟨hdelivered ▸ hmem, info, hget hd⟩
    · rw [hcalls]
      exact hunique w i v k
  · -- the new call has the number of the dispatch that has just arrived
    obtain ⟨origin', hself, hsame⟩ : ∃ origin' : Nat → Nat → Nat, origin' v k = j ∧
        ∀ w i, (w, i) ≠ (v, k) → origin' w i = origin w i :=
      ⟨fun w i => if (w, i) = (v, k) then j else origin w i, if_pos rfl, fun w i h => if_neg h⟩
    have hold : ∀ w i, (w, i) ≠ (v, k) → (c'.call w i).isSome → origin w i ≠ j := by
      intro w i hpos hsome heq
      rw [hothers w i hpos] at hsome
      obtain ⟨call, hcall⟩ := Option.isSome_iff_exists.mp hsome
      exact hfresh (heq ▸ (hsent w i call hcall).1)
    refine ⟨origin', fun w i call hcall => ?_, fun w i w' i' hsome hsome' heq => ?_⟩
    · rw [hdelivered]
      by_cases hpos : (w, i) = (v, k)
      · cases hpos
        rw [hself]
        rw [hnew] at hcall
        cases hcall
        exact ⟨List.mem_cons_self, info, hget hj⟩
      · rw [hsame w i hpos]
        rw [hothers w i hpos] at hcall
        obtain ⟨hmem, info, hd⟩ := hsent w i call hcall
        exact ⟨List.mem_cons_of_mem j hmem, info, hget hd⟩
    · by_cases hpos : (w, i) = (v, k)
      · by_cases hpos' : (w', i') = (v, k)
        · cases hpos
          cases hpos'
          exact ⟨rfl, rfl⟩
        · cases hpos
          rw [hself, hsame w' i' hpos'] at heq
          exact absurd heq.symm (hold w' i' hpos' hsome')
      · by_cases hpos' : (w', i') = (v, k)
        · cases hpos'
          rw [hself, hsame w i hpos] at heq
          exact absurd heq (hold w i hpos hsome)
        · rw [hsame w i hpos, hsame w' i' hpos'] at heq
          rw [hothers w i hpos] at hsome
          rw [hothers w' i' hpos'] at hsome'
          exact hunique w i w' i' hsome hsome' heq
  · have hback : ∀ w i, (c'.call w i).isSome → (c.call w i).isSome := by
      intro w i hsome
      by_cases hpos : (w, i) = (v, k)
      · cases hpos
        rw [hcall]
        rfl
      · rwa [hothers w i hpos] at hsome
    refine ⟨origin, fun w i moved hmoved' => ?_, fun w i w' i' hsome hsome' =>
      hunique w i w' i' (hback w i hsome) (hback w' i' hsome')⟩
    rw [hdelivered]
    by_cases hpos : (w, i) = (v, k)
    · cases hpos
      obtain rfl : call' = moved := Option.some.inj (hcall'.symm.trans hmoved')
      obtain ⟨hmem, info, hd⟩ := hsent v k call hcall
      have htask : call'.task = call.task := by
        rcases hstep with ⟨_, _, hstep⟩ | ⟨⟨_, _, hdrop⟩, -⟩
        · exact hstep.task.1
        · exact (Call.drop_task hdrop).1
      rw [htask]
      exact ⟨hmem, info, hget hd⟩
    · rw [hothers w i hpos] at hmoved'
      obtain ⟨hmem, info, hd⟩ := hsent w i moved hmoved'
      exact ⟨hmem, info, hget hd⟩

omit [BEq F] in
/-- A task that is sent once has one call. -/
theorem Originates.unique (h : c.Originates) {key : Uuid × Uuid}
    (honce : c.system.timesSent key ≤ 1) {w i v k : Nat} {call other : Call F Uuid}
    (hcall : c.call w i = some call) (hother : c.call v k = some other)
    (hkey : call.task.key = key) (hkey' : other.task.key = key) : w = v ∧ i = k := by
  obtain ⟨origin, hsent, hunique⟩ := h
  refine hunique w i v k (by rw [hcall]; rfl) (by rw [hother]; rfl) ?_
  obtain ⟨-, info, hd⟩ := hsent w i call hcall
  obtain ⟨-, info', hd'⟩ := hsent v k other hother
  have hget : c.system.sent[origin w i]? = some key := by
    rw [System.sent, List.getElem?_map, hd, ← hkey]
    rfl
  have hget' : c.system.sent[origin v k]? = some key := by
    rw [System.sent, List.getElem?_map, hd', ← hkey']
    rfl
  exact eq_of_count_le_one honce hget hget'

/-- The workers count the attempts of their calls. -/
def Tallied (limit : Nat) (c : Cluster F Uuid) : Prop :=
  ∀ worker ∈ c.workers, worker.Tallied limit

theorem Tallied.moved (h : c.Tallied ex.config.taskRetryLimit) (hmoved : Moved env ex c c') :
    c'.Tallied ex.config.taskRetryLimit := by
  have hset : ∀ {w : Nat} {worker' : ExecutorState F Uuid},
      worker'.Tallied ex.config.taskRetryLimit → ∀ worker ∈ c.workers.set w worker',
        worker.Tallied ex.config.taskRetryLimit := by
    intro w worker' hworker' worker hmem
    rcases List.mem_or_eq_of_mem_set hmem with hmem | rfl
    · exact h worker hmem
    · exact hworker'
  cases hmoved with
  | served hevent hstep => exact h
  | reported hcall hphase hnew hstep => exact h
  | delivered attempts hsent hworker hnew =>
      exact hset ((h _ (List.mem_of_getElem? hworker)).call _ attempts)
  | worked hworker hadvance =>
      exact hset ((h _ (List.mem_of_getElem? hworker)).advance hadvance)
  | dropped hworker hdrop => exact hset ((h _ (List.mem_of_getElem? hworker)).drop hdrop)

omit [BEq F] in
theorem Tallied.booked {limit : Nat} (h : c.Tallied limit) {w i : Nat} {call : Call F Uuid}
    (hcall : c.call w i = some call) : call.Booked limit := by
  obtain ⟨worker, hworker, hcall⟩ := Option.bind_eq_some_iff.mp hcall
  exact (h worker (List.mem_of_getElem? hworker)).booked call (List.mem_of_getElem? hcall)

/-! ### The tasks of a job -/

/-- What keeps the tasks of a job apart from each other and from those of other
jobs: task number `k` performs the operations `own k`, which see of the files what
`agree k` compares, and no other task changes that. -/
structure Apart (env : MasterEnv Uuid) (ex : Executor F Uuid) (jobId : Uuid)
    (dag : DagSpecification) (tasks : List (Task Uuid)) (own : Nat → FileOp → Prop)
    (agree : Nat → Files → Files → Prop) : Prop where
  genuine : ∀ order, dag.materializeTasks env.newV5 order jobId = tasks
  distinct : (tasks.map Task.key).Nodup
  separate : Threads.Separate own agree
  uses : ∀ k task, tasks[k]? = some task → ∀ attempts,
    (ex.executeTask attempts task).Uses (own k) fun _ => True
  others : ∀ task, task.jobId ≠ jobId → ∀ attempts k,
    (ex.executeTask attempts task).Uses (fun op => ∀ s, agree k (Interp.exec op s).2 s)
      fun _ => True

/-- The job has this DAG, if it is there, and its tasks are sent once each. -/
structure SentOnce (jobId : Uuid) (dag : DagSpecification) (tasks : List (Task Uuid))
    (c : Cluster F Uuid) : Prop where
  dag : ∀ job, c.system.job jobId = some job → job.dag = dag
  once : ∀ task ∈ tasks, c.system.timesSent task.key ≤ 1

variable {jobId : Uuid} {dag : DagSpecification} {tasks : List (Task Uuid)}
  {own : Nat → FileOp → Prop} {agree : Nat → Files → Files → Prop} {files : Files}

/-- It was so before. -/
theorem SentOnce.before (h : c'.SentOnce jobId dag tasks) (hmoved : Moved env ex c c') :
    c.SentOnce jobId dag tasks where
  dag job hjob := by
    rcases hmoved.system_cases with hsame | ⟨e, hstep, -⟩
    · exact h.dag job (hsame ▸ hjob)
    · obtain ⟨job', hjob', hdag, -⟩ := System.job_step hstep hjob
      rw [← hdag]
      exact h.dag job' hjob'
  once task htask := by
    obtain ⟨more, hmore⟩ := hmoved.dispatched
    refine le_trans ?_ (h.once task htask)
    unfold System.timesSent System.sent
    rw [hmore, List.map_append, List.count_append]
    exact Nat.le_add_right _ _

/-- A call for a task of the job is as far as the task alone, and what a task
without a call sees is as in the beginning. -/
structure Isolated (ex : Executor F Uuid) (jobId : Uuid) (tasks : List (Task Uuid))
    (own : Nat → FileOp → Prop) (agree : Nat → Files → Files → Prop) (files : Files)
    (c : Cluster F Uuid) : Prop where
  untouched : ∀ (k : Nat) task, tasks[k]? = some task →
    (∀ w i call, c.call w i = some call → call.task ≠ task) → agree k c.files files
  tracks : ∀ (k : Nat) w i call, c.call w i = some call → tasks[k]? = some call.task →
    (call.remaining ex).Tracks (agree k) (own k) (ex.executeTask call.attempts call.task files)
      c.files
  others : ∀ w i call, c.call w i = some call → call.task.jobId ≠ jobId → ∀ k,
    (call.remaining ex).Uses (fun op => ∀ s, agree k (Interp.exec op s).2 s) fun _ => True

/-- The calls and the files stay. -/
theorem Isolated.keep (h : c.Isolated ex jobId tasks own agree files)
    (hcalls : c'.call = c.call) (hfiles : c'.files = c.files) :
    c'.Isolated ex jobId tasks own agree files where
  untouched k task htask hnone := by
    rw [hfiles]
    exact h.untouched k task htask (hcalls ▸ hnone)
  tracks k w i call hcall htask := by
    rw [hfiles]
    exact h.tracks k w i call (hcalls ▸ hcall) htask
  others w i call hcall := h.others w i call (hcalls ▸ hcall)

/-- A call changes, and what it has to do does not; the files stay. -/
theorem Isolated.same (h : c.Isolated ex jobId tasks own agree files) {w i : Nat}
    {call call' : Call F Uuid} (hcall : c.call w i = some call) (hcall' : c'.call w i = some call')
    (hothers : ∀ v k, (v, k) ≠ (w, i) → c'.call v k = c.call v k) (htask : call'.task = call.task)
    (hattempts : call'.attempts = call.attempts)
    (hremaining : call'.remaining ex = call.remaining ex)
    (hfiles : c'.files = c.files) : c'.Isolated ex jobId tasks own agree files := by
  have hback : ∀ v k moved', c'.call v k = some moved' → ∃ moved, c.call v k = some moved ∧
      moved'.task = moved.task ∧ moved'.attempts = moved.attempts ∧
      moved'.remaining ex = moved.remaining ex := by
    intro v k moved' hmoved'
    by_cases hpos : (v, k) = (w, i)
    · cases hpos
      obtain rfl : call' = moved' := Option.some.inj (hcall'.symm.trans hmoved')
      exact ⟨call, hcall, htask, hattempts, hremaining⟩
    · rw [hothers v k hpos] at hmoved'
      exact ⟨moved', hmoved', rfl, rfl, rfl⟩
  refine ⟨fun k task hk hnone => ?_, fun k v j moved' hmoved' hk => ?_,
    fun v j moved' hmoved' hjob k => ?_⟩
  · rw [hfiles]
    refine h.untouched k task hk fun v j moved hmoved hsame => ?_
    by_cases hpos : (v, j) = (w, i)
    · cases hpos
      obtain rfl : call = moved := Option.some.inj (hcall.symm.trans hmoved)
      exact hnone _ _ call' hcall' (htask.trans hsame)
    · exact hnone v j moved ((hothers v j hpos).trans hmoved) hsame
  · obtain ⟨moved, hmoved, ht, ha, hr⟩ := hback v j moved' hmoved'
    rw [hfiles, hr, ha, ht]
    exact h.tracks k v j moved hmoved (ht ▸ hk)
  · obtain ⟨moved, hmoved, ht, -, hr⟩ := hback v j moved' hmoved'
    rw [hr]
    exact h.others v j moved hmoved (ht ▸ hjob) k

omit [BEq F] in
/-- The calls for tasks of the job are for the tasks in the list. -/
theorem Traced.exists_index (htraced : Traced env ex c) (happart : ∀ order,
    dag.materializeTasks env.newV5 order jobId = tasks) (honce : c.SentOnce jobId dag tasks)
    {w i : Nat} {call : Call F Uuid} (hcall : c.call w i = some call)
    (hjob : call.task.jobId = jobId) : ∃ k : Nat, tasks[k]? = some call.task := by
  obtain ⟨info, hsent⟩ := htraced.tasks w i call hcall
  obtain ⟨job, order, hknown, hmem, -⟩ := htraced.built.sent _ hsent
  dsimp only at hknown hmem
  rw [hjob] at hknown hmem
  rw [honce.dag job hknown, happart order] at hmem
  exact List.mem_iff_getElem?.mp hmem

omit [BEq F] in
/-- In a state in which the tasks are sent once, the calls for a task are one. -/
theorem SentOnce.position (honce : c.SentOnce jobId dag tasks) (horigin : c.Originates) {k : Nat}
    {task : Task Uuid} (hk : tasks[k]? = some task) {w i v j : Nat} {call other : Call F Uuid}
    (hcall : c.call w i = some call) (hother : c.call v j = some other) (htask : call.task = task)
    (htask' : other.task = task) : (w, i) = (v, j) := by
  have h := horigin.unique (honce.once task (List.mem_of_getElem? hk)) hcall hother
    (congrArg Task.key htask) (congrArg Task.key htask')
  rw [h.1, h.2]

/-- A new call starts where its task would start alone. -/
theorem Isolated.delivered (h : c.Isolated ex jobId tasks own agree files)
    (happart : Apart env ex jobId dag tasks own agree) (honce : c'.SentOnce jobId dag tasks)
    (horigin : c'.Originates) {w i : Nat} {task : Task Uuid} {attempts : Nat → Attempt}
    (hnone : c.call w i = none) (hnew : c'.call w i = some { task, attempts })
    (hothers : ∀ v k, (v, k) ≠ (w, i) → c'.call v k = c.call v k) (hfiles : c'.files = c.files) :
    c'.Isolated ex jobId tasks own agree files := by
  have hold : ∀ v j call, c.call v j = some call → c'.call v j = some call := by
    intro v j call hcall
    refine (hothers v j fun hpos => ?_).trans hcall
    cases hpos
    rw [hnone] at hcall
    cases hcall
  refine ⟨fun k t hk hno => ?_, fun k v j call hcall hk => ?_, fun v j call hcall hjob k => ?_⟩
  · rw [hfiles]
    exact h.untouched k t hk fun v j call hcall => hno v j call (hold v j call hcall)
  · by_cases hpos : (v, j) = (w, i)
    · cases hpos
      rw [hnew] at hcall
      cases hcall
      have hstart : agree k c'.files files := by
        rw [hfiles]
        refine h.untouched k task hk fun v' j' call' hcall' hsame => ?_
        have heq := honce.position horigin hk (hold v' j' call' hcall') hnew hsame rfl
        cases heq
        rw [hnone] at hcall'
        cases hcall'
      exact Prog.tracks_start hstart ((happart.uses k task hk attempts).along files)
    · rw [hothers v j hpos] at hcall
      rw [hfiles]
      exact h.tracks k v j call hcall hk
  · by_cases hpos : (v, j) = (w, i)
    · cases hpos
      rw [hnew] at hcall
      cases hcall
      exact happart.others task hjob attempts k
    · rw [hothers v j hpos] at hcall
      exact h.others v j call hcall hjob k

/-- An operation of a call is seen by its own task only. -/
theorem Isolated.operated (h : c.Isolated ex jobId tasks own agree files)
    (happart : Apart env ex jobId dag tasks own agree) (htraced : Traced env ex c)
    (hsent : c.SentOnce jobId dag tasks) (horigin : c.Originates) {w i : Nat}
    {call call' : Call F Uuid} (hcall : c.call w i = some call) (hcall' : c'.call w i = some call')
    (hothers : ∀ v k, (v, k) ≠ (w, i) → c'.call v k = c.call v k) (htask : call'.task = call.task)
    (hattempts : call'.attempts = call.attempts) {op : FileOp}
    {next : Option Bytes → Thread (Execution F Uuid)} (hop : call.remaining ex = .op op next)
    (hnext : call'.remaining ex = next (Interp.exec op c.files).1)
    (hfiles : c'.files = (Interp.exec op c.files).2) :
    c'.Isolated ex jobId tasks own agree files := by
  have hown : ∀ k : Nat, tasks[k]? = some call.task → own k op ∧
      (call'.remaining ex).Tracks (agree k) (own k)
        (ex.executeTask call.attempts call.task files) c'.files := by
    intro k hk
    have htracks := h.tracks k w i call hcall hk
    rw [hop] at htracks
    rw [hnext, hfiles]
    exact htracks.next (happart.separate.sees k op)
  have hleaves : ∀ k : Nat, tasks[k]? ≠ some call.task → agree k c'.files c.files := by
    intro k hk
    rw [hfiles]
    by_cases hjob : call.task.jobId = jobId
    · obtain ⟨k₀, hk₀⟩ := htraced.exists_index happart.genuine hsent hcall hjob
      refine happart.separate.apart k₀ k op c.files ?_ (hown k₀ hk₀).1
      rintro rfl
      exact hk hk₀
    · have huses := h.others w i call hcall hjob k
      rw [hop] at huses
      exact huses.1 c.files
  refine ⟨fun k t hk hno => ?_, fun k v j moved hmoved hk => ?_, fun v j moved hmoved hjob k => ?_⟩
  · have hne : tasks[k]? ≠ some call.task := by
      rw [hk]
      intro heq
      exact hno w i call' hcall' (htask.trans (Option.some.inj heq).symm)
    refine happart.separate.trans k _ _ _ (hleaves k hne) (h.untouched k t hk ?_)
    intro v j moved hmoved hsame
    by_cases hpos : (v, j) = (w, i)
    · cases hpos
      obtain rfl : call = moved := Option.some.inj (hcall.symm.trans hmoved)
      exact hno _ _ call' hcall' (htask.trans hsame)
    · exact hno v j moved ((hothers v j hpos).trans hmoved) hsame
  · by_cases hpos : (v, j) = (w, i)
    · cases hpos
      obtain rfl : call' = moved := Option.some.inj (hcall'.symm.trans hmoved)
      rw [htask] at hk
      rw [hattempts, htask]
      exact (hown k hk).2
    · rw [hothers v j hpos] at hmoved
      have hne : tasks[k]? ≠ some call.task := by
        rw [hk]
        intro heq
        exact hpos (hsent.position horigin hk hmoved hcall rfl (Option.some.inj heq).symm)
      exact (h.tracks k v j moved hmoved hk).disturbed (happart.separate.trans k) (hleaves k hne)
  · by_cases hpos : (v, j) = (w, i)
    · cases hpos
      obtain rfl : call' = moved := Option.some.inj (hcall'.symm.trans hmoved)
      rw [htask] at hjob
      have huses := h.others _ _ call hcall hjob k
      rw [hop] at huses
      rw [hnext]
      exact huses.2 _
    · rw [hothers v j hpos] at hmoved
      exact h.others v j moved hmoved hjob k

theorem Isolated.moved (h : c.Isolated ex jobId tasks own agree files)
    (happart : Apart env ex jobId dag tasks own agree) (htraced : Traced env ex c)
    (htallied : c.Tallied ex.config.taskRetryLimit) (horigin : c.Originates)
    (hsent : c'.SentOnce jobId dag tasks) (hmoved : Moved env ex c c') :
    c'.Isolated ex jobId tasks own agree files := by
  rcases hmoved.position with ⟨hcalls, hfiles, -⟩ |
    ⟨w, i, j, task, info, attempts, hnone, hnew, hothers, -, -, -, hfiles, -⟩ |
    ⟨w, i, call, call', hcall, hcall', hothers, -, -, ⟨_, _, hstep⟩ | ⟨⟨_, _, hdrop⟩, hfiles⟩⟩
  · exact h.keep hcalls hfiles
  · exact h.delivered happart hsent (horigin.moved hmoved) hnone hnew hothers hfiles
  · rcases hstep.remaining (htallied.booked hcall) with ⟨hsame, hfiles⟩ |
      ⟨op, next, hop, hnext, hfiles⟩
    · exact h.same hcall hcall' hothers hstep.task.1 hstep.task.2 hsame hfiles
    · exact h.operated happart htraced (hsent.before hmoved) horigin hcall hcall' hothers
        hstep.task.1 hstep.task.2 hop hnext hfiles
  · have htask := Call.drop_task hdrop
    exact h.same hcall hcall' hothers htask.1 htask.2 (Call.drop_remaining hdrop) hfiles

/-- In a run that sends each task of the job at most once, every call for one of
them is as far as the task is alone on the files of the beginning. -/
theorem run_isolated (happart : Apart env ex jobId dag tasks own agree) {master : Master Uuid}
    (hjobs : ∀ id, master.jobs.lookup id = none) (slots : List Nat)
    {events : List (ClusterEvent Uuid)}
    (hrun : Lib.run (step env ex) (new master slots files) events = some c)
    (hsent : c.SentOnce jobId dag tasks) : c.Isolated ex jobId tasks own agree files := by
  have hend : (Traced env ex c ∧ c.Tallied ex.config.taskRetryLimit ∧ c.Originates) ∧
      (c.SentOnce jobId dag tasks → c.Isolated ex jobId tasks own agree files) := by
    refine run_keeps
      (I := fun c : Cluster F Uuid =>
        (Traced env ex c ∧ c.Tallied ex.config.taskRetryLimit ∧ c.Originates) ∧
          (c.SentOnce jobId dag tasks → c.Isolated ex jobId tasks own agree files))
      (fun c e c' h hstep => ?_) ⟨⟨traced_new hjobs slots files, ?_, originates_new _ _ _⟩, ?_⟩ hrun
    · obtain ⟨⟨htraced, htallied, horigin⟩, hisolated⟩ := h
      have hmoved := step_moved hstep
      refine ⟨⟨htraced.moved hmoved, htallied.moved hmoved, horigin.moved hmoved⟩, fun hsent => ?_⟩
      exact (hisolated (hsent.before hmoved)).moved happart htraced htallied horigin hsent hmoved
    · intro worker hmem
      obtain ⟨n, -, rfl⟩ := List.mem_map.mp hmem
      exact ExecutorState.tallied_new _ n
    · intro _
      have hnone : ∀ w i, (new master slots files : Cluster F Uuid).call w i = none :=
        call_new master slots files
      refine ⟨fun k _ _ _ => happart.separate.refl k files, fun k w i call hcall => ?_,
        fun w i call hcall => ?_⟩
      · rw [hnone w i] at hcall
        cases hcall
      · rw [hnone w i] at hcall
        cases hcall
  exact hend.2 hsent

/-- A call for a task of the job returns what the task returns alone, and leaves
what it sees as the task does. -/
theorem Isolated.returned (h : c.Isolated ex jobId tasks own agree files) {k w i : Nat}
    {call : Call F Uuid} (hcall : c.call w i = some call) (hk : tasks[k]? = some call.task)
    {execution : Execution F Uuid} (hphase : call.phase = .returned execution) :
    (ex.executeTask call.attempts call.task files).1 = execution ∧
      agree k c.files (ex.executeTask call.attempts call.task files).2 := by
  have htracks := h.tracks k w i call hcall hk
  rw [Call.remaining, hphase] at htracks
  exact htracks.ended

end Cluster
end ProcessingEngine

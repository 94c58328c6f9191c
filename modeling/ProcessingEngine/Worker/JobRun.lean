import ProcessingEngine.Lib.Transition
import ProcessingEngine.Worker.Executor

/-!
# Runs of a job

A run executes the tasks of a job, each once and in any order, on one data
directory.  `retry_rule` carries a condition on the files through the attempts
of a task, and `AllCompleted.records_perm` puts the records of the tasks together.
-/

namespace ProcessingEngine

open Lib

variable {F Uuid : Type} [BEq F]

namespace Executor

/-- An attempt completes with `Q`, or fails and leaves `R` for the next one. -/
theorem retry_rule (ex : Executor F Uuid) (task : Task Uuid) {R : Files → Prop}
    {Q : Execution F Uuid → Files → Prop}
    (h : ∀ attempt files, R files →
      let r := ex.executeSync attempt task files
      (r.1.result.status = .completed ∧ Q r.1 r.2) ∨
        ((∃ message, r.1.result.status = .failed message ∧ r.1.output = []) ∧ R r.2))
    (attempts : Nat → Attempt) (n : Nat) {files : Files} (hfiles : R files) :
    let r := ex.retry attempts task n files
    (r.1.result.status = .completed ∧ Q r.1 r.2) ∨
      ((∃ message, r.1.result.status = .failed message ∧ r.1.output = []) ∧ R r.2) := by
  induction n generalizing files with
  | zero => exact h (attempts 0) files hfiles
  | succ n ih =>
      have hsync := h (attempts (n + 1)) files hfiles
      simp only [retry, Prog.run_bind]
      rcases hsync with hdone | ⟨⟨message, hfailed, hout⟩, hR⟩
      · rw [hdone.1]
        exact Or.inl hdone
      · rw [hfailed]
        exact ih hR

end Executor

/-- The data directory, and the tasks executed so far with their executions. -/
structure JobRun (F Uuid : Type) where
  files : Files
  done : List (Task Uuid × Execution F Uuid) := []

namespace JobRun

/-- Execute one of the tasks that has not been executed. -/
def step [DecidableEq Uuid] (ex : Executor F Uuid) (tasks : List (Task Uuid))
    (run : JobRun F Uuid) (label : Task Uuid × (Nat → Attempt)) : Option (JobRun F Uuid) :=
  let (task, attempts) := label
  if task ∈ tasks ∧ task ∉ run.done.map Prod.fst then
    let (execution, files) := ex.executeTask attempts task run.files
    some ⟨files, (task, execution) :: run.done⟩
  else none

/-- The records of all executions. -/
def records (run : JobRun F Uuid) : List (Record F) :=
  run.done.flatMap fun e => e.2.output.flatMap Prod.snd

/-- All tasks have been executed to completion. -/
def AllCompleted (tasks : List (Task Uuid)) (run : JobRun F Uuid) : Prop :=
  ∀ task ∈ tasks, ∃ e ∈ run.done, e.1 = task ∧ e.2.result.status = .completed

/-- The executions are those of different tasks of the job. -/
structure Proper (tasks : List (Task Uuid)) (run : JobRun F Uuid) : Prop where
  tasks : ∀ e ∈ run.done, e.1 ∈ tasks
  nodup : (run.done.map Prod.fst).Nodup

section

variable [DecidableEq Uuid] {ex : Executor F Uuid} {tasks : List (Task Uuid)}

theorem step_cases {run run' : JobRun F Uuid} {label : Task Uuid × (Nat → Attempt)}
    (h : run.step ex tasks label = some run') :
    label.1 ∈ tasks ∧ label.1 ∉ run.done.map Prod.fst ∧
      run' = ⟨(ex.executeTask label.2 label.1 run.files).2,
        (label.1, (ex.executeTask label.2 label.1 run.files).1) :: run.done⟩ := by
  obtain ⟨task, attempts⟩ := label
  unfold step at h
  simp only [Option.ite_none_right_eq_some, Option.some.injEq] at h
  exact ⟨h.1.1, h.1.2, h.2.symm⟩

theorem Proper.step {run run' : JobRun F Uuid} {label : Task Uuid × (Nat → Attempt)}
    (hproper : Proper tasks run) (h : run.step ex tasks label = some run') :
    Proper tasks run' := by
  obtain ⟨hmem, hnew, rfl⟩ := step_cases h
  refine ⟨?_, List.nodup_cons.mpr ⟨hnew, hproper.nodup⟩⟩
  rw [List.forall_mem_cons]
  exact ⟨hmem, hproper.tasks⟩

end

omit [BEq F] in
theorem AllCompleted.status {tasks : List (Task Uuid)} {run : JobRun F Uuid}
    (h : AllCompleted tasks run) (hproper : Proper tasks run) :
    ∀ e ∈ run.done, e.2.result.status = .completed := by
  intro e he
  obtain ⟨e', he', hsame, hstatus⟩ := h e.1 (hproper.tasks e he)
  obtain rfl : e' = e := List.inj_on_of_nodup_map hproper.nodup he' he hsame
  exact hstatus

omit [BEq F] in
/-- When all tasks are executed, their records together are those expected of
each. -/
theorem AllCompleted.records_perm {tasks : List (Task Uuid)} {run : JobRun F Uuid}
    (h : AllCompleted tasks run) (hproper : Proper tasks run) (hnodup : tasks.Nodup)
    {expected : Task Uuid → List (Record F)}
    (heach : ∀ e ∈ run.done, (e.2.output.flatMap Prod.snd).Perm (expected e.1)) :
    run.records.Perm (tasks.flatMap expected) := by
  have hperm : (run.done.map Prod.fst).Perm tasks := by
    refine (List.perm_ext_iff_of_nodup hproper.nodup hnodup).mpr fun task => ?_
    rw [List.mem_map]
    constructor
    · intro ⟨e, he, hsame⟩
      exact hsame ▸ hproper.tasks e he
    · intro hmem
      obtain ⟨e, he, hsame, -⟩ := h task hmem
      exact ⟨e, he, hsame⟩
  refine List.Perm.trans ?_ (hperm.flatMap_right expected)
  rw [List.flatMap_map]
  exact List.Perm.flatMap_left _ heach

end JobRun
end ProcessingEngine

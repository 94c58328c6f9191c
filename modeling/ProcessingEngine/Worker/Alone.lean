import ProcessingEngine.Worker.JobFiles
import ProcessingEngine.Worker.Transparent

/-!
# Tasks that spill to their own files

When a task reads its inputs and uses no other spill file than its own, the other
tasks of its job do not disturb it: in every interleaving it ends as it does
alone (`Executor.results_alone`).
-/

namespace ProcessingEngine

open Lib Lib.Exec Text

/-- The operations of a task with these inputs and this spill file.  It may write
any result file in the directory of its stage. -/
def FileOp.Private (inputs : List Path) (spill dir : Path) : FileOp → Prop
  | .read path => path ∈ inputs ∨ path = spill
  | .append path _ => path = spill
  | .write path _ => PartFile path ∧ Below dir path
  | .remove path => path = spill

namespace FileOp.Private

variable {inputs : List Path} {spill dir : Path} {op : FileOp}

theorem lookup_of_ne (h : FileOp.Private inputs spill dir op) (files : Files) {path : Path}
    (hspill : path ≠ spill) (hwritten : ¬ (PartFile path ∧ Below dir path)) :
    (Interp.exec op files).2.lookup path = files.lookup path := by
  cases op with
  | read path' => rfl
  | append path' data =>
      obtain rfl : path' = spill := h
      exact AList.lookup_insert_ne hspill
  | write path' data =>
      have hne : path ≠ path' := by
        rintro rfl
        exact hwritten h
      exact AList.lookup_insert_ne hne
  | remove path' =>
      obtain rfl : path' = spill := h
      exact AList.lookup_erase_ne hspill

/-- The answers depend on the inputs and on the spill file. -/
theorem congr (h : FileOp.Private inputs spill dir op) {s s' : Files}
    (hagree : ∀ path ∈ spill :: inputs, s.lookup path = s'.lookup path) :
    (Interp.exec op s).1 = (Interp.exec op s').1 ∧
      ∀ path ∈ spill :: inputs,
        (Interp.exec op s).2.lookup path = (Interp.exec op s').2.lookup path := by
  cases op with
  | read path' =>
      refine ⟨hagree path' ?_, hagree⟩
      rcases h with hinput | rfl
      · exact List.mem_cons_of_mem spill hinput
      · exact List.mem_cons_self
  | append path' data =>
      obtain rfl : path' = spill := h
      refine ⟨rfl, fun path hpath => ?_⟩
      show (s.insert path' ((s.lookup path').getD [] ++ data)).lookup path =
        (s'.insert path' ((s'.lookup path').getD [] ++ data)).lookup path
      rw [HashMap.lookup_insert, HashMap.lookup_insert, hagree path hpath,
        hagree path' List.mem_cons_self]
  | write path' data =>
      refine ⟨rfl, fun path hpath => ?_⟩
      show (s.insert path' data).lookup path = (s'.insert path' data).lookup path
      rw [HashMap.lookup_insert, HashMap.lookup_insert, hagree path hpath]
  | remove path' =>
      refine ⟨rfl, fun path hpath => ?_⟩
      show (s.erase path').lookup path = (s'.erase path').lookup path
      rw [HashMap.lookup_erase, HashMap.lookup_erase, hagree path hpath]

end FileOp.Private

namespace Executor

variable {F Uuid : Type} {ex : Executor F Uuid} {inputs : List Path} {tasks : List (Task Uuid)}

/-- No input is among the files of the stage. -/
def InputsOutside (ex : Executor F Uuid) (inputs : List Path) (tasks : List (Task Uuid)) : Prop :=
  ∀ path ∈ inputs, ∀ task ∈ tasks, ¬ Below (ex.stageDir task) path

/-- The operations of a task in the directory of its stage. -/
def privateOf (ex : Executor F Uuid) (inputs : List Path) (task : Task Uuid) : FileOp → Prop :=
  FileOp.Private inputs (ex.spillPath task) (ex.stageDir task)

theorem below_spillPath (ex : Executor F Uuid) (task : Task Uuid) :
    Below (ex.stageDir task) (ex.spillPath task) := ⟨_, [], rfl⟩

theorem privateOf_partitionPath (ex : Executor F Uuid) (task : Task Uuid) (pid : Nat)
    (data : Bytes) : ex.privateOf inputs task (.write (ex.partitionPath task pid) data) :=
  ⟨partFile_partitionPath _ _ _ _ _, _, [], rfl⟩

/-- The tasks of different partitions are separate. -/
theorem separate_private (hdistinct : (tasks.map Task.partition).Nodup)
    (hinputs : ex.InputsOutside inputs tasks) :
    Threads.Separate (σ := Files)
      (fun k op => ∃ task, tasks[k]? = some task ∧ ex.privateOf inputs task op)
      (fun k s s' => ∀ task, tasks[k]? = some task → ∀ path ∈ ex.spillPath task :: inputs,
        s.lookup path = s'.lookup path) where
  refl _ _ _ _ _ _ := rfl
  trans _ _ _ _ hab hbc task htask path hpath :=
    (hab task htask path hpath).trans (hbc task htask path hpath)
  sees k op s s' hown hagree := by
    obtain ⟨task, htask, hop⟩ := hown
    have hcongr := FileOp.Private.congr hop (hagree task htask)
    refine ⟨hcongr.1, fun task' htask' => ?_⟩
    obtain rfl : task = task' := Option.some.inj (htask.symm.trans htask')
    exact hcongr.2
  apart j k op s hjk hown task htask path hpath := by
    obtain ⟨other, hother, hop⟩ := hown
    have hmem := List.mem_of_getElem? hother
    rcases List.mem_cons.mp hpath with rfl | hinput
    · refine hop.lookup_of_ne s (fun heq => hjk ?_) fun h => ?_
      have hj := (List.getElem?_eq_some_iff.mp hother).1
      refine (List.getElem?_inj (by rw [List.length_map]; exact hj) hdistinct).mp ?_
      rw [List.getElem?_map, List.getElem?_map, htask, hother, Option.map_some, Option.map_some,
        eq_of_spillPath_eq heq]
      exact not_partFile_spillPath _ _ _ _ _ h.1
    · have hout := hinputs path hinput other hmem
      refine hop.lookup_of_ne s (fun heq => hout ?_) fun h => hout h.2
      rw [heq]
      exact ex.below_spillPath other

/-- In every interleaving the tasks end as they do alone. -/
theorem results_alone [BEq F] (hdistinct : (tasks.map Task.partition).Nodup)
    (hinputs : ex.InputsOutside inputs tasks) {attempts : Task Uuid → Nat → Attempt}
    {files : Files}
    (huses : ∀ task ∈ tasks,
      (ex.executeTask (attempts task) task).Uses (ex.privateOf inputs task) fun _ => True)
    {schedule : List Nat} {t : Threads FileOp (Option Bytes) Files (Execution F Uuid)}
    (hrun : Lib.run Threads.step (ex.threads attempts tasks files) schedule = some t)
    {executions : List (Execution F Uuid)} (hdone : t.results = some executions) :
    executions = tasks.map fun task => (ex.executeTask (attempts task) task files).1 := by
  rw [(separate_private hdistinct hinputs).results_eq (fun k x hx => ?_) hrun hdone]
  · exact List.map_map
  · have hx : (tasks.map fun task => ex.executeTask (attempts task) task)[k]? = some x := hx
    rw [List.getElem?_map, Option.map_eq_some_iff] at hx
    obtain ⟨task, htask, rfl⟩ := hx
    have hmem := List.mem_of_getElem? htask
    exact ((huses task hmem).mono (fun op hop => ⟨task, htask, hop⟩) fun _ _ => trivial).along _

end Executor
end ProcessingEngine

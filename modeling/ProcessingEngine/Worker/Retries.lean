import ProcessingEngine.Worker.JobFiles

/-!
# Attempts after failed ones

A failed attempt can leave files in the directory of its stage: a partition that
was spilled and not taken apart stays in its spill file, and the next attempt
appends to it.  An attempt that opens none of these files ends as it does when
no attempt was made before it.
-/

namespace ProcessingEngine

open Lib Lib.Exec Text

/-- What happens before an attempt: a file is changed or removed, or an attempt
at the same task is made. -/
inductive Happening where
  | edit (path : Path) (content : Option Bytes)
  | attempt (attempt : Attempt)

def Happening.isEdit : Happening → Bool
  | .edit _ _ => true
  | .attempt _ => false

def Files.edit (files : Files) (path : Path) : Option Bytes → Files
  | some content => files.insert path content
  | none => files.erase path

/-- The operation opens no file in the directory that differs in `files` and in
`clean`. -/
def FileOp.OpensUnchanged (dir : Path) (files clean : Files) : FileOp → Prop
  | .read path => Below dir path → files.lookup path = clean.lookup path
  | .append path _ => Below dir path → files.lookup path = clean.lookup path
  | .write _ _ => True
  | .remove _ => True

instance decidableOpensUnchanged (dir : Path) (files clean : Files) :
    ∀ op, Decidable (FileOp.OpensUnchanged dir files clean op)
  | .read path =>
      inferInstanceAs (Decidable (Below dir path → files.lookup path = clean.lookup path))
  | .append path _ =>
      inferInstanceAs (Decidable (Below dir path → files.lookup path = clean.lookup path))
  | .write _ _ | .remove _ => isTrue trivial

/-- The files outside the directory are the same. -/
def Files.SameOutside (dir : Path) (files clean : Files) : Prop :=
  ∀ path, ¬Below dir path → files.lookup path = clean.lookup path

namespace Files

variable {dir path : Path} {files clean : Files}

theorem lookup_edit (files : Files) (path : Path) (content : Option Bytes) (path' : Path) :
    (files.edit path content).lookup path' =
      if path' = path then content else files.lookup path' := by
  cases content with
  | some content => exact HashMap.lookup_insert files path content path'
  | none => exact HashMap.lookup_erase files path path'

theorem SameOutside.edit (h : SameOutside dir files clean) (path : Path)
    (content : Option Bytes) :
    SameOutside dir (files.edit path content) (clean.edit path content) := by
  intro path' hpath'
  rw [lookup_edit, lookup_edit, h path' hpath']

end Files

variable {F Uuid : Type} [BEq F]

namespace Executor

/-- The files after the happenings. -/
def after (ex : Executor F Uuid) (task : Task Uuid) : List Happening → Files → Files
  | [], files => files
  | .edit path content :: rest, files => after ex task rest (files.edit path content)
  | .attempt attempt :: rest, files => after ex task rest (ex.executeSync attempt task files).2

/-- The files after the edits alone. -/
def clean (ex : Executor F Uuid) (task : Task Uuid) (happenings : List Happening)
    (files : Files) : Files :=
  ex.after task (happenings.filter Happening.isEdit) files

variable (ex : Executor F Uuid) (task : Task Uuid)

/-- Earlier attempts change files in the directory of the stage only. -/
theorem sameOutside_after (happenings : List Happening) {files clean : Files}
    (h : files.SameOutside (ex.stageDir task) clean) :
    (ex.after task happenings files).SameOutside (ex.stageDir task)
      (ex.clean task happenings clean) := by
  induction happenings generalizing files clean with
  | nil => exact h
  | cons happening rest ih =>
      cases happening with
      | edit path content => exact ih (h.edit path content)
      | attempt attempt =>
          refine ih fun path hpath => ?_
          rw [lookup_of_changesBelow (ex.uses_stageDir task attempt) hpath]
          exact h path hpath

/-- An attempt that opens no file of its stage in which earlier attempts have left
something ends as it does without them. -/
theorem executeSync_after (happenings : List Happening) (files : Files) (attempt : Attempt)
    (hopens : (ex.executeSync attempt task).Along
      (FileOp.OpensUnchanged (ex.stageDir task) (ex.after task happenings files)
        (ex.clean task happenings files)) (ex.after task happenings files)) :
    (ex.executeSync attempt task (ex.after task happenings files)).1 =
      (ex.executeSync attempt task (ex.clean task happenings files)).1 := by
  have houtside : (ex.after task happenings files).SameOutside (ex.stageDir task)
      (ex.clean task happenings files) := ex.sameOutside_after task happenings fun _ _ => rfl
  generalize ex.after task happenings files = left at hopens houtside ⊢
  generalize ex.clean task happenings files = clean at hopens houtside ⊢
  -- the two runs agree but for the files that differ at the start
  let same (f g : Files) : Prop := ∀ path,
    (Below (ex.stageDir task) path → left.lookup path = clean.lookup path) →
      f.lookup path = g.lookup path
  have hstart : same left clean := by
    intro path hpath
    by_cases hbelow : Below (ex.stageDir task) path
    · exact hpath hbelow
    · exact houtside path hbelow
  have hop : ∀ op f g, FileOp.OpensUnchanged (ex.stageDir task) left clean op → same f g →
      (Interp.exec op f).1 = (Interp.exec op g).1 ∧
        same (Interp.exec op f).2 (Interp.exec op g).2 := by
    intro op f g hop hsame
    cases op with
    | read path => exact ⟨hsame path hop, hsame⟩
    | append path data =>
        refine ⟨rfl, fun path' hpath' => ?_⟩
        show (f.insert path ((f.lookup path).getD [] ++ data)).lookup path' =
          (g.insert path ((g.lookup path).getD [] ++ data)).lookup path'
        rw [HashMap.lookup_insert, HashMap.lookup_insert, hsame path hop, hsame path' hpath']
    | write path data =>
        refine ⟨rfl, fun path' hpath' => ?_⟩
        show (f.insert path data).lookup path' = (g.insert path data).lookup path'
        rw [HashMap.lookup_insert, HashMap.lookup_insert, hsame path' hpath']
    | remove path =>
        refine ⟨rfl, fun path' hpath' => ?_⟩
        show (f.erase path).lookup path' = (g.erase path).lookup path'
        rw [HashMap.lookup_erase, HashMap.lookup_erase, hsame path' hpath']
  exact (hopens.agree hop hstart).1

/-! ### A task that reads two files -/

def retriedRow : Record Int := .object [("k", .string "long")]

def retriedTask : Task Path where
  taskId := ["0-0", "job"]
  jobId := ["job"]
  stageId := 0
  attempt := 0
  operator := .read "a.csv" "csv"
  partition := 0
  inputUri := "a.csv"
  inputFormat := "csv"
  operators := [.read "a.csv" "csv", .read "b.csv" "csv", .map "identity"]
  operatorIds := ["a", "b", "m"]
  incomingEdges := [[], [], ["a->m"]]
  totalPartitions := 1

def firstFiles : Files := (∅ : Files).insert ["a.csv"] "k\nlong\n".toUTF8.data.toList

/-- The second file comes after the first attempt. -/
def lateFile : List Happening :=
  [.attempt .plain, .edit ["b.csv"] (some "k\nb\n".toUTF8.data.toList)]

theorem executeSync_after_lateFile :
    let ex := Executor.plain [retriedRow]
    (ex.executeSync .plain retriedTask firstFiles).1.result.status ≠ .completed ∧
      (ex.executeSync .plain retriedTask (ex.after retriedTask lateFile firstFiles)).1 =
        (ex.executeSync .plain retriedTask (ex.clean retriedTask lateFile firstFiles)).1 := by
  intro ex
  exact ⟨by decide +kernel, executeSync_after ex retriedTask lateFile firstFiles .plain
    (by decide +kernel)⟩

/-- With a small cache the first attempt leaves its record in the spill file. -/
theorem retry_repeats_record :
    let ex : Executor Int Path := { Executor.plain [retriedRow] with config := ⟨["data"], 10, 1⟩ }
    (ex.executeSync .plain retriedTask firstFiles).1.result.status ≠ .completed ∧
      (ex.executeSync .plain retriedTask
        (ex.after retriedTask lateFile firstFiles)).1.result.status = .completed ∧
      (ex.executeSync .plain retriedTask (ex.after retriedTask lateFile firstFiles)).1.output =
        [(0, [retriedRow, retriedRow])] ∧
      (ex.executeSync .plain retriedTask (ex.clean retriedTask lateFile firstFiles)).1.output =
        [(0, [retriedRow])] := by
  decide +kernel

end Executor
end ProcessingEngine

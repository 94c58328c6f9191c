import ProcessingEngine.Worker.Joined
import ProcessingEngine.Worker.Realize

/-!
# Spilling and not spilling

The files carry out a plan without a fault: with the limits of the plan
(`realizes_limited`), where the ledger describes the spill files, and without any
limit (`realizes_unlimited`), where nothing is spilled.
-/

namespace ProcessingEngine

open Lib Lib.Exec Text

variable {F : Type}

namespace Ledger

/-- What the partitions that have been taken back are spilled as is read back. -/
def ReadsBack (host : Host F) (ledger : Ledger F) : Prop :=
  ∀ part ∈ ledger.restored, ∀ v ∈ part.records, host.ReadsBack v

/-- No fault so far. -/
def Good (host : Host F) (state : Option (Ledger F)) : Prop :=
  ∃ ledger, state = some ledger ∧ ledger.ReadsBack host

/-- The files are those without spilling and the spill files in use. -/
structure Describes (ledger : Ledger F) (files : Files) : Prop where
  apart : ∀ path ∈ ledger.live, path ∉ ledger.files
  lookup : ∀ path, files.lookup path = (ledger.live.lookup path).or (ledger.files.lookup path)

def Matches (state : Option (Ledger F)) (files : Files) : Prop :=
  ∀ ledger, state = some ledger → ledger.Describes files

/-- The files are those without spilling. -/
def Plain (state : Option (Ledger F)) (files : Files) : Prop :=
  ∀ ledger, state = some ledger → files = ledger.files

variable {host : Host F}

/-! ### Steps without a fault -/

theorem Good.of_exec {op : PartOp F} {state : Option (Ledger F)}
    (h : Good host (Interp.exec op state).2) :
    ∃ ledger ledger', state = some ledger ∧ ledger.step op = some ledger' ∧
      Interp.exec op state = (ledger.answer op, some ledger') ∧ ledger'.ReadsBack host := by
  obtain ⟨ledger', hexec, hback⟩ := h
  obtain ⟨ledger, hstate, hstep⟩ := Option.bind_eq_some_iff.mp hexec
  refine ⟨ledger, ledger', hstate, hstep, ?_, hback⟩
  rw [hstate]
  show (ledger.answer op, ledger.step op) = _
  rw [hstep]

theorem step_read {ledger ledger' : Ledger F} {path : Path}
    (h : ledger.step (.read path) = some ledger') : path ∉ ledger.live ∧ ledger' = ledger := by
  simp only [step, Option.ite_none_left_eq_some, Option.some.injEq] at h
  exact ⟨h.1, h.2.symm⟩

theorem step_spill {ledger ledger' : Ledger F} {part : Part F} {data : Bytes}
    (h : ledger.step (.spill part data) = some ledger') :
    part.spillPath ∉ ledger.live ∧ part.spillPath ∉ ledger.files ∧
      ledger' = { ledger with live := ledger.live.insert part.spillPath data } := by
  simp only [step, Option.ite_none_left_eq_some, Option.some.injEq, not_or] at h
  exact ⟨h.1.1, h.1.2, h.2.symm⟩

theorem step_restore {ledger ledger' : Ledger F} {part : Part F} {data : Bytes}
    (h : ledger.step (.restore part data) = some ledger') :
    ledger.live.lookup part.spillPath = some data ∧
      ledger' = { ledger with
        live := ledger.live.erase part.spillPath
        restored := part :: ledger.restored } := by
  simp only [step, Option.ite_none_right_eq_some, Option.some.injEq] at h
  exact ⟨h.1, h.2.symm⟩

theorem step_write {ledger ledger' : Ledger F} {path : Path} {data : Bytes}
    (h : ledger.step (.write path data) = some ledger') :
    path ∉ ledger.live ∧ ledger' = { ledger with files := ledger.files.insert path data } := by
  simp only [step, Option.ite_none_left_eq_some, Option.some.injEq] at h
  exact ⟨h.1, h.2.symm⟩

theorem lasting_good : Lasting (PartOp F) (Option Bytes) (Good host) := by
  intro op state h
  obtain ⟨ledger, ledger', hstate, hstep, -, hback⟩ := h.of_exec
  refine ⟨ledger, hstate, fun part hpart => hback part ?_⟩
  cases op with
  | read path =>
      obtain ⟨-, rfl⟩ := step_read hstep
      exact hpart
  | spill spilled data =>
      obtain ⟨-, -, rfl⟩ := step_spill hstep
      exact hpart
  | restore restored data =>
      obtain ⟨-, rfl⟩ := step_restore hstep
      exact List.mem_cons_of_mem restored hpart
  | write path data =>
      obtain ⟨-, rfl⟩ := step_write hstep
      exact hpart

/-! ### The files and the ledger -/

variable {ledger : Ledger F} {files : Files}

theorem Describes.matches (h : ledger.Describes files) : Matches (some ledger) files := by
  intro ledger' heq
  rw [← Option.some.inj heq]
  exact h

theorem Describes.lookup_of_notMem (h : ledger.Describes files) {path : Path}
    (hpath : path ∉ ledger.live) : files.lookup path = ledger.files.lookup path := by
  rw [h.lookup, AList.lookup_eq_none.mpr hpath, Option.none_or]

theorem Describes.lookup_of_live (h : ledger.Describes files) {path : Path} {data : Bytes}
    (hdata : ledger.live.lookup path = some data) : files.lookup path = some data := by
  rw [h.lookup, hdata, Option.some_or]

theorem Describes.spill (h : ledger.Describes files) {path : Path} (hpath : path ∉ ledger.files)
    (data : Bytes) :
    Describes { ledger with live := ledger.live.insert path data } (files.insert path data) where
  apart path' hpath' := by
    rcases (AList.mem_insert _).mp hpath' with rfl | hlive
    · exact hpath
    · exact h.apart path' hlive
  lookup path' := by
    rw [HashMap.lookup_insert, HashMap.lookup_insert]
    split_ifs
    · rfl
    · exact h.lookup path'

theorem Describes.restore (h : ledger.Describes files) {path : Path} (hpath : path ∈ ledger.live)
    (restored : List (Part F)) :
    Describes { ledger with live := ledger.live.erase path, restored } (files.erase path) where
  apart path' hpath' := h.apart path' (AList.mem_erase.mp hpath').2
  lookup path' := by
    rw [HashMap.lookup_erase, HashMap.lookup_erase]
    split_ifs with heq
    · rw [heq, AList.lookup_eq_none.mpr (h.apart path hpath)]
      rfl
    · exact h.lookup path'

theorem Describes.write (h : ledger.Describes files) {path : Path} (hpath : path ∉ ledger.live)
    (data : Bytes) :
    Describes { ledger with files := ledger.files.insert path data } (files.insert path data) where
  apart path' hlive hpath' := by
    rcases (AList.mem_insert _).mp hpath' with rfl | hfiles
    · exact hpath hlive
    · exact h.apart path' hlive hfiles
  lookup path' := by
    rw [HashMap.lookup_insert, HashMap.lookup_insert]
    split_ifs with heq
    · rw [heq, AList.lookup_eq_none.mpr hpath]
      rfl
    · exact h.lookup path'

end Ledger

/-! ### The files of a plan with its limits -/

section

open Ledger

variable {host : Host F}

/-- The records of a spilled partition, from its spill file. -/
theorem PartitionData.intoParts_of_lookup {pid limitBytes : Nat} {spill : Path}
    {records : List (Record F)} {files : Files} (hexceeds : ¬ host.sizeOf records ≤ limitBytes)
    (hlookup : files.lookup spill = some (host.jsonLines records))
    (hback : ∀ v ∈ records, host.ReadsBack v) :
    (stored host pid limitBytes spill records).intoParts host files =
      (.ok (limitBytes, spill, records), files.erase spill) := by
  have hstored : stored host pid limitBytes spill records =
      ⟨pid, .spilled host limitBytes spill records⟩ := by
    rw [stored, PartitionCache.stored, if_neg hexceeds]
  have hread : PartitionCache.readSpilled host (some spill) files =
      (.ok records, files.erase spill) := by
    show (Files.readOr _ spill >>= _) files = _
    rw [bind_apply, Files.readOr_apply, hlookup]
    dsimp only
    rw [bind_apply, lift_apply, Host.parseLines_jsonLines hback]
    rfl
  rw [hstored, intoParts, PartitionCache.drainAll, Exec.bind_assoc]
  show (PartitionCache.readSpilled host (some spill) >>= _) files = _
  rw [bind_apply, hread]
  show (Except.ok (limitBytes, spill, records ++ []), _) = _
  rw [List.append_nil]

theorem exceeds_eq_false {part : Part F} :
    part.exceeds host = false ↔ host.sizeOf part.records ≤ part.limitBytes := by
  rw [Part.exceeds, decide_eq_false_iff_not, not_lt]

theorem exceeds_eq_true {part : Part F} :
    part.exceeds host = true ↔ ¬ host.sizeOf part.records ≤ part.limitBytes := by
  rw [Part.exceeds, decide_eq_true_iff, not_le]

theorem take_limited (part : Part F) :
    Follows Matches (Good host) (fun records out => out = (part.limitBytes, part.spillPath, records))
      (part.take host) ((part.data host id).intoParts host) := by
  cases hexceeds : part.exceeds host with
  | false =>
      have hfits := exceeds_eq_false.mp hexceeds
      have hresident : (part.data host id).Resident := PartitionData.stored_resident_iff.mpr hfits
      have hheld : (part.data host id).held = part.records := PartitionData.stored_held hfits
      rw [Part.take, hexceeds, PartitionData.intoParts_eq_pure host hresident, hheld,
        part.data_limitBytes, part.data_spillPath]
      exact follows_pure rfl
  | true =>
      have hfits := exceeds_eq_true.mp hexceeds
      rw [Part.take, hexceeds]
      refine follows_of_runs fun state files hmatches hgood => ?_
      obtain ⟨ledger, ledger', hstate, hstep, hexec, hback⟩ := Good.of_exec hgood
      obtain ⟨hlookup, rfl⟩ := step_restore hstep
      have hdescribes := hmatches ledger hstate
      refine ⟨.ok part.records, _, _, _, ?_, PartitionData.intoParts_of_lookup hfits
        (hdescribes.lookup_of_live hlookup) (hback part List.mem_cons_self), rfl,
        (hdescribes.restore (HashMap.mem_of_lookup hlookup) (part :: ledger.restored)).matches⟩
      show (Except.ok part.records, (Interp.exec (PartOp.restore part _) state).2) = _
      rw [hexec]

theorem put_limited (part : Part F) :
    Follows Matches (Good host) (fun part partition => partition = part.data host id)
      (part.put host) (PartitionData.fromRecords host part.partitionId part.limitBytes
        part.spillPath part.records) := by
  cases hexceeds : part.exceeds host with
  | false =>
      rw [Part.put, hexceeds, PartitionData.fromRecords_eq_pure (exceeds_eq_false.mp hexceeds)]
      exact follows_pure rfl
  | true =>
      have hfits := exceeds_eq_true.mp hexceeds
      rw [Part.put, hexceeds]
      refine follows_of_runs fun state files hmatches hgood => ?_
      obtain ⟨ledger, ledger', hstate, hstep, hexec, -⟩ := Good.of_exec hgood
      obtain ⟨hnotLive, hnone, hledger⟩ := step_spill hstep
      have hdescribes := hmatches ledger hstate
      have hlookup : files.lookup part.spillPath = none := by
        rw [hdescribes.lookup_of_notMem hnotLive, AList.lookup_eq_none.mpr hnone]
      refine ⟨.ok part, some ledger', _, _, ?_, PartitionData.fromRecords_apply _ _ _ _ _ _, rfl, ?_⟩
      · show (Except.ok part, (Interp.exec (PartOp.spill part _) state).2) = _
        rw [hexec]
      · rw [hledger, PartitionCache.storedFiles, if_neg hfits, hlookup]
        exact (hdescribes.spill hnone _).matches

/-- Both go on in the same way when they are given the same content. -/
theorem follows_readInput {Rel : Option (Ledger F) → Files → Prop} (message : String) {path : Path}
    (h : ∀ state files, Rel state files → Good host (Interp.exec (PartOp.read path) state).2 →
      files.lookup path = (Interp.exec (PartOp.read path) state).1 ∧
        Rel (Interp.exec (PartOp.read path) state).2 files) :
    Follows Rel (Good host) (fun content content' => content' = content)
      (readInput message path : Plan F Bytes) (Files.readOr message path) := by
  have hread : Follows Rel (Good host) (fun answer answer' => answer' = answer)
      (perform (.read path) : Plan F (Option Bytes))
      (perform (.read path) : Action (Option Bytes)) :=
    follows_perform h
  refine follows_bind lasting_good hread fun content content' hcontent => ?_
  subst hcontent
  cases content' with
  | none => exact follows_fail _
  | some content => exact follows_pure rfl

theorem read_limited (message : String) (path : Path) :
    Follows Matches (Good host) (fun content content' => content' = content)
      (readInput message path : Plan F Bytes) (Files.readOr message path) := by
  refine follows_readInput message fun state files hmatches hgood => ?_
  obtain ⟨ledger, ledger', hstate, hstep, hexec, -⟩ := Good.of_exec hgood
  obtain ⟨hnotLive, rfl⟩ := step_read hstep
  have hdescribes := hmatches ledger' hstate
  rw [hexec]
  exact ⟨hdescribes.lookup_of_notMem hnotLive, hdescribes.matches⟩

theorem write_limited (path : Path) (records : List (Record F)) :
    Follows Matches (Good host) (fun _ _ => True)
      (perform (.write path (host.jsonLines records)) : Plan F (Option Bytes))
      (PartitionStore.writeRecords host path records) := by
  refine follows_of_runs fun state files hmatches hgood => ?_
  obtain ⟨ledger, ledger', hstate, hstep, hexec, -⟩ := Good.of_exec hgood
  obtain ⟨hnotLive, rfl⟩ := step_write hstep
  refine ⟨.ok none, _, .ok (host.jsonLines records).length,
    files.insert path (host.jsonLines records), ?_, rfl, trivial,
    ((hmatches ledger hstate).write hnotLive _).matches⟩
  show (Except.ok (Interp.exec (PartOp.write path _) state).1,
    (Interp.exec (PartOp.write path _) state).2) = _
  rw [hexec]
  rfl

/-- The files carry out plans with their limits. -/
theorem realizes_limited (host : Host F) : Realizes host id Matches (Good host) where
  lasting := lasting_good
  unlimited := rfl
  take := take_limited
  put := put_limited
  read := read_limited
  write := write_limited

/-! ### The files without limits -/

theorem Ledger.Plain.step {ledger : Ledger F} {files : Files} (h : files = ledger.files) :
    Plain (some ledger) files := by
  intro ledger' heq
  rw [← Option.some.inj heq]
  exact h

/-- A step that leaves the files alone, in between. -/
theorem follows_silent {α β : Type} {R : α → β → Prop} {a : α} {b : β} (hR : R a b) {op : PartOp F}
    (hop : ∀ ledger ledger' : Ledger F, ledger.step op = some ledger' →
      ledger'.files = ledger.files) :
    Follows Plain (Good host) R (do let _ ← perform op
                                    return a : Plan F α) (Pure.pure b : Action β) := by
  refine follows_of_runs fun state files hplain hgood => ?_
  obtain ⟨ledger, ledger', hstate, hstep, hexec, -⟩ := Good.of_exec hgood
  refine ⟨.ok a, some ledger', .ok b, files, ?_, rfl, hR, Plain.step ?_⟩
  · show (Except.ok a, (Interp.exec op state).2) = _
    rw [hexec]
  · rw [hop ledger ledger' hstep]
    exact hplain ledger hstate

theorem sizeOf_le_usizeMax (host : Host F) (records : List (Record F)) :
    host.sizeOf records ≤ usizeMax := Nat.min_le_right _ _

theorem take_unlimited (part : Part F) :
    Follows Plain (Good host) (fun records out => out = (usizeMax, part.spillPath, records))
      (part.take host) ((part.data host fun _ => usizeMax).intoParts host) := by
  have hfits := sizeOf_le_usizeMax host part.records
  have hresident : (part.data host fun _ => usizeMax).Resident :=
    PartitionData.stored_resident_iff.mpr hfits
  have hheld : (part.data host fun _ => usizeMax).held = part.records :=
    PartitionData.stored_held hfits
  rw [PartitionData.intoParts_eq_pure host hresident, hheld, part.data_limitBytes,
    part.data_spillPath, Part.take]
  cases part.exceeds host with
  | false => exact follows_pure rfl
  | true =>
      rw [if_pos rfl]
      refine follows_silent ?_ fun ledger ledger' hstep => ?_
      · rfl
      · rw [(step_restore hstep).2]

theorem put_unlimited (part : Part F) :
    Follows Plain (Good host) (fun part partition => partition = part.data host fun _ => usizeMax)
      (part.put host) (PartitionData.fromRecords host part.partitionId usizeMax part.spillPath
        part.records) := by
  rw [PartitionData.fromRecords_eq_pure (sizeOf_le_usizeMax host part.records), Part.put]
  cases part.exceeds host with
  | false => exact follows_pure rfl
  | true =>
      rw [if_pos rfl]
      refine follows_silent ?_ fun ledger ledger' hstep => ?_
      · rfl
      · rw [(step_spill hstep).2.2]

theorem read_unlimited (message : String) (path : Path) :
    Follows Plain (Good host) (fun content content' => content' = content)
      (readInput message path : Plan F Bytes) (Files.readOr message path) := by
  refine follows_readInput message fun state files hplain hgood => ?_
  obtain ⟨ledger, ledger', hstate, hstep, hexec, -⟩ := Good.of_exec hgood
  obtain ⟨-, rfl⟩ := step_read hstep
  have hfiles := hplain ledger' hstate
  rw [hexec]
  exact ⟨congrArg (fun files : Files => files.lookup path) hfiles, Plain.step hfiles⟩

theorem write_unlimited (path : Path) (records : List (Record F)) :
    Follows Plain (Good host) (fun _ _ => True)
      (perform (.write path (host.jsonLines records)) : Plan F (Option Bytes))
      (PartitionStore.writeRecords host path records) := by
  refine follows_of_runs fun state files hplain hgood => ?_
  obtain ⟨ledger, ledger', hstate, hstep, hexec, -⟩ := Good.of_exec hgood
  obtain ⟨-, hledger⟩ := step_write hstep
  refine ⟨.ok none, some ledger', .ok (host.jsonLines records).length,
    files.insert path (host.jsonLines records), ?_, rfl, trivial, Plain.step ?_⟩
  · show (Except.ok (Interp.exec (PartOp.write path _) state).1,
      (Interp.exec (PartOp.write path _) state).2) = _
    rw [hexec]
    rfl
  · rw [hledger, hplain ledger hstate]

/-- The files carry out plans without any limit. -/
theorem realizes_unlimited (host : Host F) :
    Realizes host (fun _ => usizeMax) Plain (Good host) where
  lasting := lasting_good
  unlimited := rfl
  take := take_unlimited
  put := put_unlimited
  read := read_unlimited
  write := write_unlimited

end

/-! ### Tasks -/

namespace Executor

variable [BEq F] {Uuid : Type} {ex : Executor F Uuid}

/-- Alone, a task whose plan is not at fault ends as it does without limits. -/
theorem executeTask_unlimited {attempts : Nat → Attempt} {task : Task Uuid} {files : Files}
    {ledger : Ledger F} (hplan : ex.ledgerOf files attempts task = some ledger)
    (hback : ledger.ReadsBack ex.host) :
    (ex.executeTask attempts task files).1.result.status =
        ((ex.relimit fun _ => usizeMax).executeTask attempts task files).1.result.status ∧
      (ex.executeTask attempts task files).1.output =
        ((ex.relimit fun _ => usizeMax).executeTask attempts task files).1.output := by
  have hgood : Ledger.Good ex.host (ex.planTask attempts task (some { files })).2 :=
    ⟨ledger, hplan, hback⟩
  have hstart : Ledger.Describes { files, live := ∅, restored := ([] : List (Part F)) } files := by
    constructor
    · intro path hpath
      exact absurd hpath (AList.notMem_empty path)
    · intro path
      rfl
  have hplain : Ledger.Plain (some { files, live := ∅, restored := ([] : List (Part F)) }) files :=
    Ledger.Plain.step rfl
  have hlimited := ((realizes_limited ex.host).executeTask attempts task _ _ hstart.matches hgood).1
  have hunlimited := ((realizes_unlimited ex.host).executeTask attempts task _ _ hplain hgood).1
  exact ⟨hlimited.status.trans hunlimited.status.symm, hlimited.output.trans hunlimited.output.symm⟩

/-- Spilling is invisible where no partition is at fault and no file that the task
reads has been changed by another task meanwhile: it ends with the same status and
the same records as without limits. -/
theorem spilling_invisible {tasks : List (Task Uuid)} {attempts : Task Uuid → Nat → Attempt}
    {files : Files} {before during : List Nat}
    {t₀ t : Threads FileOp (Option Bytes) Files (Execution F Uuid)} {k : Nat} {task : Task Uuid}
    (htask : tasks[k]? = some task)
    -- the task has not begun at `t₀`
    (hbefore : Lib.run Threads.step (ex.threads attempts tasks files) before = some t₀)
    (hbegins : k ∉ before) (hduring : Lib.run Threads.step t₀ during = some t)
    (hreads : Lib.Along (Threads.watch k) (Threads.Undisturbed k) (t₀, t₀.store) during)
    {ledger : Ledger F} (hplan : ex.ledgerOf t₀.store (attempts task) task = some ledger)
    (hback : ledger.ReadsBack ex.host) {execution : Execution F Uuid}
    (hdone : t.progs[k]? = some (.pure execution)) :
    let unlimited := ((ex.relimit fun _ => usizeMax).executeTask (attempts task) task t₀.store).1
    execution.result.status = unlimited.result.status ∧ execution.output = unlimited.output := by
  have hx : t₀.progs[k]? = some (ex.executeTask (attempts task) task) := by
    rw [Threads.run_getElem?_of_notMem hbegins hbefore]
    show (tasks.map _)[k]? = _
    rw [List.getElem?_map, htask]
    rfl
  rw [← Threads.ends_undisturbed hx hreads hduring hdone]
  exact executeTask_unlimited hplan hback

/-- The two tasks take turns, each with its record in its spill file. -/
theorem spilling_invisible_chainDag :
    ∃ task t execution, (chainTasks chainDag)[0]? = some task ∧
      Lib.run Threads.step (spilling.threads (fun _ _ => .plain) (chainTasks chainDag)
        JobRun.csvFiles) (List.replicate 11 [0, 1]).flatten = some t ∧
      t.progs[0]? = some (.pure execution) ∧
      let unlimited := ((spilling.relimit fun _ => usizeMax).executeTask (fun _ => .plain) task
        JobRun.csvFiles).1
      execution.result.status = unlimited.result.status ∧
        execution.output = unlimited.output := by
  have htask : (chainTasks chainDag)[0]?.isSome = true := by decide +kernel
  have hsome : (Lib.run Threads.step (spilling.threads (fun _ _ => .plain) (chainTasks chainDag)
      JobRun.csvFiles) (List.replicate 11 [0, 1]).flatten).isSome = true := by decide +kernel
  have hplan : (spilling.ledgerOf JobRun.csvFiles (fun _ => .plain)
      ((chainTasks chainDag)[0]?.get htask)).isSome = true := by decide +kernel +revert
  have hback : ((spilling.ledgerOf JobRun.csvFiles (fun _ => .plain)
      ((chainTasks chainDag)[0]?.get htask)).get hplan).ReadsBack spilling.host := by
    unfold Ledger.ReadsBack
    decide +kernel +revert
  have hreads : Lib.Along (Threads.watch 0) (Threads.Undisturbed 0)
      (spilling.threads (fun _ _ => .plain) (chainTasks chainDag) JobRun.csvFiles,
        JobRun.csvFiles) (List.replicate 11 [0, 1]).flatten := by decide +kernel
  have hdone : (((Lib.run Threads.step (spilling.threads (fun _ _ => .plain) (chainTasks chainDag)
      JobRun.csvFiles) (List.replicate 11 [0, 1]).flatten).get hsome).progs[0]?.bind
        Prog.value).isSome = true := by
    decide +kernel +revert
  have hbegin : Lib.run Threads.step (spilling.threads (fun _ _ => .plain) (chainTasks chainDag)
      JobRun.csvFiles) [] = some _ := rfl
  obtain ⟨execution, hexecution⟩ := Option.isSome_iff_exists.mp hdone
  obtain ⟨x, hx, hvalue⟩ := Option.bind_eq_some_iff.mp hexecution
  have hpure := Prog.eq_pure_of_value hvalue
  rw [hpure] at hx
  have hstore : (spilling.threads (fun _ _ => .plain) (chainTasks chainDag)
      JobRun.csvFiles).store = JobRun.csvFiles := rfl
  have hinvisible := spilling_invisible (Option.some_get htask).symm hbegin List.not_mem_nil
    (Option.some_get hsome).symm hreads (Option.some_get hplan).symm hback hx
  rw [hstore] at hinvisible
  exact ⟨_, _, execution, (Option.some_get htask).symm, (Option.some_get hsome).symm, hx,
    hinvisible⟩

/-! ### Two inputs in one spill file -/

/-- Two inputs and their join, in one task. -/
def pairTask : List (Task Path) :=
  ({ pairDag with partitions := 1 } : DagSpecification).materializeTasks
    (fun jobId name => name :: jobId) .insertion ["job"]

/-- An executor with a limit below the size of a record. -/
def overflowing : Executor Int Path := { pairing with config := ⟨["data"], 10, 1⟩ }

/-- Both inputs are spilled to the spill file of the task.  The join takes the
first one back, with all that is in the file, and does not find the second. -/
theorem joined_spills_lost :
    ∃ task, pairTask[0]? = some task ∧
      ({ pairDag with partitions := 1 } : DagSpecification).validate = .ok () ∧
      (pairFiles "a" "b").lookup (overflowing.spillPath task) = none ∧
      (∀ v ∈ [keyedRecord "a" "x", keyedRecord "b" "y"], overflowing.host.ReadsBack v) ∧
      (overflowing.executeTask (fun _ => .plain) task (pairFiles "a" "b")).1.result.status =
        .failed "join: operator join failed: No such file or directory (os error 2)" ∧
      ((overflowing.relimit fun _ => usizeMax).executeTask (fun _ => .plain) task
        (pairFiles "a" "b")).1.result.status = .completed := by
  have htask : pairTask[0]?.isSome = true := by decide +kernel
  exact ⟨_, (Option.some_get htask).symm, by decide +kernel, by decide +kernel +revert,
    by decide +kernel, by decide +kernel +revert, by decide +kernel +revert⟩

end Executor

end ProcessingEngine

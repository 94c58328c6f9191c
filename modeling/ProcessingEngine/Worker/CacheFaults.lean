import ProcessingEngine.Worker.CacheRuns

/-!
# A cache on a failing disk

The calls of a cache once more, with a disk on which any file operation may fail.
`spill_to_disk` drains the buffer while it writes, and when a write fails the
values that it has taken or not yet written are gone with it.  A failure before
the first write, or in a drain, loses nothing: `Reached.recoverable` is the
invariant over runs.
-/

namespace ProcessingEngine

open Lib Text

variable {F : Type}

/-- What the file system does in the course of one call. -/
structure Disk where
  createsDir : Bool
  opensAppend : Bool
  /-- The number of bytes that the writes take before one fails, if one does. -/
  room : Option Nat
  opensRead : Bool
  /-- The number of lines that are read before a read fails, if one does. -/
  readable : Option Nat
  removes : Bool
  /-- The text of the error of what fails. -/
  error : String
  deriving DecidableEq, Repr

namespace Disk

/-- A disk on which nothing fails. -/
def sound : Disk := ⟨true, true, none, true, none, true, ""⟩

def fail (disk : Disk) : Fail := .error disk.error

end Disk

/-- The result of a call that is given the cache by reference, with the cache and the files
that it leaves. -/
structure Left (F α : Type) where
  result : Except Fail α
  cache : PartitionCache F
  files : Files

namespace PartitionCache

/-- The writes of the loop over the buffer: what gets into the file, and whether this is
all of it.  The line and its newline are written one after the other. -/
def writeLines (host : Host F) : Option Nat → List (Value F) → Bytes × Bool
  | _, [] => ([], true)
  | none, values => (host.jsonLines values, true)
  | some room, value :: values =>
      let line := host.toVec value
      if room < line.length then (line.take room, false)
      else if room = line.length then (line, false)
      else
        let rest := writeLines host (some (room - line.length - 1)) values
        (line ++ newline :: rest.1, rest.2)

theorem spilled_at_some (cache : PartitionCache F) :
    ∀ path, some cache.spillPath = some path → path = cache.spillPath := by simp

/-- When a write fails the drain of the buffer is dropped, and with it the values that it
has not yielded. -/
def spillToDiskOn (host : Host F) (disk : Disk) (cache : PartitionCache F) (files : Files) :
    Left F Unit :=
  if cache.inMemory.isEmpty then ⟨.ok (), cache, files⟩
  else if !disk.createsDir then ⟨.error disk.fail, cache, files⟩
  else if !disk.opensAppend then ⟨.error disk.fail, cache, files⟩
  else
    let written := writeLines host disk.room cache.inMemory
    let files := files.insert cache.spillPath
      ((files.lookup cache.spillPath).getD [] ++ written.1)
    if written.2 then
      ⟨.ok (), { cache with
        inMemory := []
        spilledFile := some cache.spillPath
        inMemoryBytes := 0
        spilledBytes := cache.spilledBytes + written.1.length
        spilled_at := spilled_at_some cache }, files⟩
    else ⟨.error disk.fail, { cache with inMemory := [] }, files⟩

def pushOn (host : Host F) (disk : Disk) (cache : PartitionCache F) (value : Value F)
    (files : Files) : Left F Unit :=
  let cache := cache.grown host value
  if cache.totalSizeBytes > cache.limitBytes then cache.spillToDiskOn host disk files
  else ⟨.ok (), cache, files⟩

/-- The values of the lines, as far as they can be read. -/
def readLinesOn (host : Host F) (disk : Disk) (content : Bytes) :
    Except Fail (List (Value F)) :=
  match disk.readable with
  | none => host.parseLines (lines content)
  | some n => (host.parseLines ((lines content).take n)).bind fun _ => .error disk.fail

/-- Whether the file could be removed is not looked at. -/
def drainAllOn (host : Host F) (disk : Disk) (cache : PartitionCache F) (files : Files) :
    Left F (List (Value F)) :=
  match cache.spilledFile with
  | none => ⟨.ok cache.inMemory, cache.emptied cache.inMemory.length, files⟩
  | some path =>
      if !disk.opensRead then ⟨.error disk.fail, cache, files⟩
      else match files.lookup path with
        | none => ⟨.error (.error Files.notFound), cache, files⟩
        | some content =>
            match readLinesOn host disk content with
            | .error e => ⟨.error e, cache, files⟩
            | .ok data =>
                let data := data ++ cache.inMemory
                ⟨.ok data, cache.emptied data.length,
                  if disk.removes then files.erase path else files⟩

/-! ### The sound disk -/

section

variable {host : Host F} {disk : Disk} {cache : PartitionCache F} {files : Files}

theorem writeLines_none (host : Host F) (values : List (Value F)) :
    writeLines host none values = (host.jsonLines values, true) := by
  cases values <;> rfl

/-- The file gets as many bytes of the lines as there is room. -/
theorem writeLines_some (host : Host F) (room : Nat) (values : List (Value F)) :
    writeLines host (some room) values =
      ((host.jsonLines values).take room, decide ((host.jsonLines values).length ≤ room)) := by
  induction values generalizing room with
  | nil => simp [writeLines, Host.jsonLines]
  | cons value values ih =>
      have hlines : host.jsonLines (value :: values) =
          host.toVec value ++ newline :: host.jsonLines values := by
        rw [Host.jsonLines, List.flatMap_cons, List.append_assoc]
        rfl
      rw [writeLines, hlines, List.length_append, List.length_cons, List.take_append]
      dsimp only
      split_ifs with hlt heq
      · have hroom : room - (host.toVec value).length = 0 := by omega
        rw [hroom, List.take_zero, List.append_nil, decide_eq_false (by omega)]
      · have hroom : room - (host.toVec value).length = 0 := by omega
        rw [hroom, List.take_zero, List.append_nil, decide_eq_false (by omega), heq,
          List.take_length]
      · obtain ⟨rest, rfl⟩ : ∃ rest, room = (host.toVec value).length + (rest + 1) :=
          ⟨room - (host.toVec value).length - 1, by omega⟩
        have hrest : (host.toVec value).length + (rest + 1) - (host.toVec value).length =
            rest + 1 := by omega
        have hfits : (host.toVec value).length + ((host.jsonLines values).length + 1) ≤
            (host.toVec value).length + (rest + 1) ↔ (host.jsonLines values).length ≤ rest := by
          omega
        rw [hrest, Nat.add_sub_cancel, ih, List.take_succ_cons,
          List.take_of_length_le (Nat.le_add_right _ _), decide_eq_decide.mpr hfits]

theorem writeLines_of_written {room : Option Nat} {values : List (Value F)}
    (h : (writeLines host room values).2 = true) :
    (writeLines host room values).1 = host.jsonLines values := by
  cases room with
  | none => rw [writeLines_none]
  | some room =>
      rw [writeLines_some] at h ⊢
      exact List.take_of_length_le (of_decide_eq_true h)

/-- Where no write fails, spilling is that of a cache without faults. -/
theorem spillToDiskOn_of_written (hdir : disk.createsDir = true)
    (hopen : disk.opensAppend = true)
    (hwritten : (writeLines host disk.room cache.inMemory).2 = true) :
    cache.spillToDisk host files =
      (.ok (cache.spillToDiskOn host disk files).cache,
        (cache.spillToDiskOn host disk files).files) ∧
      (cache.spillToDiskOn host disk files).result = .ok () := by
  unfold spillToDisk spillToDiskOn
  split
  · exact ⟨rfl, rfl⟩
  · have hlines := writeLines_of_written hwritten
    simp only [hdir, hopen, hwritten, hlines, Bool.not_true, Bool.false_eq_true, if_false, if_true]
    exact ⟨rfl, trivial⟩

/-- A push on a sound disk is the push of a cache without faults. -/
theorem pushOn_sound (host : Host F) (cache : PartitionCache F) (value : Value F)
    (files : Files) :
    cache.push host value files =
      (.ok (cache.pushOn host .sound value files).cache,
        (cache.pushOn host .sound value files).files) ∧
      (cache.pushOn host .sound value files).result = .ok () := by
  have hwritten : (writeLines host Disk.sound.room (cache.grown host value).inMemory).2 = true := by
    show (writeLines host none _).2 = true
    rw [writeLines_none]
  rw [push_eq, maybeSpill, pushOn]
  split
  · exact spillToDiskOn_of_written rfl rfl hwritten
  · exact ⟨rfl, rfl⟩

/-- A drain on a sound disk is the drain of a cache without faults. -/
theorem drainAllOn_sound (host : Host F) (cache : PartitionCache F) (files : Files) :
    cache.drain host files =
      ((cache.drainAllOn host .sound files).result.map fun data =>
          (data, (cache.drainAllOn host .sound files).cache),
        (cache.drainAllOn host .sound files).files) := by
  rw [drain, Exec.bind_apply]
  cases hspilled : cache.spilledFile with
  | none =>
      simp only [drainAllOn, readSpilled, hspilled, Exec.pure_apply, Except.map, List.nil_append]
  | some path =>
      cases hcontent : files.lookup path with
      | none =>
          simp [drainAllOn, readSpilled, hspilled, hcontent, Files.read, Disk.sound, Except.map]
      | some content =>
          cases hparse : host.parseLines (lines content) with
          | error e =>
              simp [drainAllOn, readSpilled, hspilled, hcontent, hparse, readLinesOn, Files.read,
                Disk.sound, Except.map]
          | ok data =>
              simp [drainAllOn, readSpilled, hspilled, hcontent, hparse, readLinesOn, Files.read,
                Disk.sound, Except.map]

/-! ### What a call that fails keeps -/

/-- The cache keeps the values: the first ones are the content of its file, which it knows
of unless there are none, the others in memory. -/
structure Keeps (host : Host F) (onDisk values : List (Value F)) (cache : PartitionCache F)
    (files : Files) : Prop where
  split : values = onDisk ++ cache.inMemory
  content : (files.lookup cache.spillPath).getD [] = host.jsonLines onDisk
  unspilled : cache.spilledFile = none → onDisk = []
  found : cache.hasSpill = true → (files.lookup cache.spillPath).isSome = true

/-- Whether a write of the push fails, except just before the line of the pushed value when
the cache knows of the file or has nothing in memory. -/
def Tears (host : Host F) (disk : Disk) (cache : PartitionCache F) (value : Value F) : Prop :=
  (cache.grown host value).totalSizeBytes > (cache.grown host value).limitBytes ∧
    disk.createsDir = true ∧ disk.opensAppend = true ∧
    (writeLines host disk.room (cache.inMemory ++ [value])).2 = false ∧
    ¬ (disk.room = some (host.jsonLines cache.inMemory).length ∧
      (cache.hasSpill = true ∨ cache.inMemory = []))

instance decidableTears (host : Host F) (disk : Disk) (cache : PartitionCache F)
    (value : Value F) : Decidable (Tears host disk cache value) :=
  inferInstanceAs (Decidable (_ ∧ _ ∧ _ ∧ _ ∧ ¬ (_ ∧ (_ ∨ _))))

/-- Whether the file that a drain has read is not removed. -/
def FailsToRemove (disk : Disk) (cache : PartitionCache F) : Prop :=
  cache.hasSpill = true ∧ disk.opensRead = true ∧ disk.readable = none ∧ disk.removes = false

instance decidableFailsToRemove (disk : Disk) (cache : PartitionCache F) :
    Decidable (FailsToRemove disk cache) :=
  inferInstanceAs (Decidable (_ ∧ _ ∧ _ ∧ _))

theorem keeps_new (host : Host F) (limitBytes : Nat) {spillPath : Path}
    (h : files.lookup spillPath = none) :
    Keeps host [] [] (new limitBytes spillPath) files where
  split := rfl
  content := by
    show (files.lookup spillPath).getD [] = []
    rw [h]
    rfl
  unspilled _ := rfl
  found hspill := nomatch hspill

section

variable {onDisk values : List (Value F)}

theorem Keeps.grown (h : Keeps host onDisk values cache files) (value : Value F) :
    Keeps host onDisk (values ++ [value]) (cache.grown host value) files where
  split := by
    show _ = onDisk ++ (cache.inMemory ++ [value])
    rw [h.split, List.append_assoc]
  content := h.content
  unspilled := h.unspilled
  found := h.found

/-- An operation on another file is not noticed. -/
theorem Keeps.of_lookup (h : Keeps host onDisk values cache files) {files' : Files}
    (hlookup : files'.lookup cache.spillPath = files.lookup cache.spillPath) :
    Keeps host onDisk values cache files' where
  split := h.split
  content := by rw [hlookup, h.content]
  unspilled := h.unspilled
  found := by
    rw [hlookup]
    exact h.found

/-- A spill in which no write fails keeps the values, whether it succeeds or not. -/
theorem Keeps.spill (h : Keeps host onDisk values cache files)
    (hwritten : disk.createsDir = true → disk.opensAppend = true →
      (writeLines host disk.room cache.inMemory).2 = true) :
    ∃ onDisk', Keeps host onDisk' values (cache.spillToDiskOn host disk files).cache
      (cache.spillToDiskOn host disk files).files := by
  unfold spillToDiskOn
  dsimp only
  split_ifs with hempty hdir hopen hall
  · exact ⟨onDisk, h⟩
  · exact ⟨onDisk, h⟩
  · exact ⟨onDisk, h⟩
  · have hlines := writeLines_of_written hall
    refine ⟨values, (List.append_nil _).symm, ?_, fun hnone => absurd hnone (Option.some_ne_none _), fun _ => ?_⟩
    · show ((files.insert cache.spillPath _).lookup cache.spillPath).getD [] = _
      rw [AList.lookup_insert, Option.getD_some, h.content, hlines, h.split,
        Host.jsonLines_append]
    · show ((files.insert cache.spillPath _).lookup cache.spillPath).isSome = true
      rw [AList.lookup_insert]
      rfl
  · simp only [Bool.not_eq_true', Bool.not_eq_false] at hdir hopen
    exact absurd (hwritten hdir hopen) hall

/-- When a write fails nothing is left in memory. -/
theorem spillToDiskOn_of_fails (hmemory : cache.inMemory ≠ []) (hdir : disk.createsDir = true)
    (hopen : disk.opensAppend = true)
    (hfails : (writeLines host disk.room cache.inMemory).2 = false) :
    cache.spillToDiskOn host disk files =
      ⟨.error disk.fail, { cache with inMemory := [] }, files.insert cache.spillPath
        ((files.lookup cache.spillPath).getD [] ++
          (writeLines host disk.room cache.inMemory).1)⟩ := by
  have hnonempty : cache.inMemory.isEmpty = false := by
    rw [← Bool.not_eq_true, List.isEmpty_iff]
    exact hmemory
  simp only [spillToDiskOn, hnonempty, hdir, hopen, hfails, Bool.not_true, Bool.false_eq_true,
    if_false]

/-- A write that fails just before the line of the pushed value loses this value only. -/
theorem Keeps.spill_last (h : Keeps host onDisk values cache files) {value : Value F}
    (hdir : disk.createsDir = true) (hopen : disk.opensAppend = true)
    (hfails : (writeLines host disk.room (cache.inMemory ++ [value])).2 = false)
    (hroom : disk.room = some (host.jsonLines cache.inMemory).length)
    (hknown : cache.hasSpill = true ∨ cache.inMemory = []) :
    Keeps host values values ((cache.grown host value).spillToDiskOn host disk files).cache
        ((cache.grown host value).spillToDiskOn host disk files).files ∧
      ((cache.grown host value).spillToDiskOn host disk files).result = .error disk.fail := by
  have hlines : (writeLines host disk.room (cache.inMemory ++ [value])).1 =
      host.jsonLines cache.inMemory := by
    rw [hroom, writeLines_some, Host.jsonLines_append]
    exact List.take_left
  have hmemory : (cache.grown host value).inMemory ≠ [] :=
    List.append_ne_nil_of_right_ne_nil _ (List.cons_ne_nil _ _)
  have hlookup : (files.insert cache.spillPath ((files.lookup cache.spillPath).getD [] ++
      (writeLines host disk.room (cache.inMemory ++ [value])).1)).lookup cache.spillPath =
      some (host.jsonLines values) := by
    rw [AList.lookup_insert, h.content, hlines, h.split, Host.jsonLines_append]
  rw [spillToDiskOn_of_fails hmemory hdir hopen hfails]
  refine ⟨⟨(List.append_nil _).symm, ?_, fun hnone => ?_, fun _ => ?_⟩, rfl⟩
  · exact congrArg (·.getD []) hlookup
  · have hempty : cache.inMemory = [] := by
      apply hknown.resolve_left
      show ¬ cache.spilledFile.isSome = true
      rw [show cache.spilledFile = none from hnone]
      decide
    rw [h.split, h.unspilled hnone, hempty]
    rfl
  · exact (congrArg Option.isSome hlookup).trans rfl

theorem spillToDiskOn_spillPath (host : Host F) (disk : Disk) (cache : PartitionCache F)
    (files : Files) : (cache.spillToDiskOn host disk files).cache.spillPath = cache.spillPath := by
  unfold spillToDiskOn
  dsimp only
  split_ifs <;> rfl

theorem pushOn_spillPath (host : Host F) (disk : Disk) (cache : PartitionCache F)
    (value : Value F) (files : Files) :
    (cache.pushOn host disk value files).cache.spillPath = cache.spillPath := by
  unfold pushOn
  dsimp only
  split
  · exact spillToDiskOn_spillPath host disk (cache.grown host value) files
  · rfl

/-- The values before a push are kept, and the pushed one unless it is refused. -/
theorem Keeps.push (h : Keeps host onDisk values cache files) {value : Value F}
    (htears : ¬ Tears host disk cache value) :
    ∃ onDisk' kept, Keeps host onDisk' (values ++ kept)
        (cache.pushOn host disk value files).cache (cache.pushOn host disk value files).files ∧
      (kept = [value] ∨
        kept = [] ∧ (cache.pushOn host disk value files).result = .error disk.fail) := by
  unfold pushOn
  dsimp only
  split
  · next hsize =>
    by_cases hall : disk.createsDir = true → disk.opensAppend = true →
        (writeLines host disk.room (cache.inMemory ++ [value])).2 = true
    · obtain ⟨onDisk', hkeeps⟩ := (h.grown value).spill hall
      exact ⟨onDisk', [value], hkeeps, .inl rfl⟩
    · have hdir := (Classical.not_imp.mp hall).1
      have hopen := (Classical.not_imp.mp (Classical.not_imp.mp hall).2).1
      have hfails := (Classical.not_imp.mp (Classical.not_imp.mp hall).2).2
      rw [Bool.not_eq_true] at hfails
      have hlast : disk.room = some (host.jsonLines cache.inMemory).length ∧
          (cache.hasSpill = true ∨ cache.inMemory = []) := by
        by_contra hother
        exact htears ⟨hsize, hdir, hopen, hfails, hother⟩
      obtain ⟨hkeeps, herror⟩ := h.spill_last hdir hopen hfails hlast.1 hlast.2
      exact ⟨values, [], by rwa [List.append_nil], .inr ⟨rfl, herror⟩⟩
  · exact ⟨onDisk, [value], h.grown value, .inl rfl⟩

/-- A drain that cannot read all of its file leaves everything as it is. -/
theorem drainAllOn_of_unread (hspill : cache.hasSpill = true)
    (hread : ¬ (disk.opensRead = true ∧ disk.readable = none)) :
    ∃ e, cache.drainAllOn host disk files = ⟨.error e, cache, files⟩ := by
  obtain ⟨path, hpath⟩ := Option.isSome_iff_exists.mp hspill
  simp only [drainAllOn, hpath]
  split
  · exact ⟨_, rfl⟩
  · next hopen =>
    rw [Bool.not_eq_true', Bool.not_eq_false] at hopen
    cases files.lookup path with
    | none => exact ⟨_, rfl⟩
    | some content =>
        have herror : ∃ e, readLinesOn host disk content = .error e := by
          cases hreadable : disk.readable with
          | none => exact absurd ⟨hopen, hreadable⟩ hread
          | some n =>
              simp only [readLinesOn, hreadable]
              cases host.parseLines ((lines content).take n) with
              | error e => exact ⟨e, rfl⟩
              | ok data => exact ⟨disk.fail, rfl⟩
        obtain ⟨e, herror⟩ := herror
        exact ⟨e, by simp only [herror]⟩

/-- A drain that can returns the values. -/
theorem Keeps.drainAllOn_eq (h : Keeps host onDisk values cache files)
    (hback : ∀ v ∈ values, host.ReadsBack v)
    (hread : cache.hasSpill = true → disk.opensRead = true ∧ disk.readable = none) :
    cache.drainAllOn host disk files = ⟨.ok values, cache.emptied values.length,
      if cache.hasSpill && disk.removes then files.erase cache.spillPath else files⟩ := by
  cases hspilled : cache.spilledFile with
  | none =>
      have hvalues : values = cache.inMemory := by
        rw [h.split, h.unspilled hspilled, List.nil_append]
      simp only [drainAllOn, hasSpill, hspilled, hvalues, Option.isSome_none, Bool.false_and,
        Bool.false_eq_true, if_false]
  | some path =>
      obtain rfl := cache.spilled_at path hspilled
      have hspill : cache.hasSpill = true := by rw [hasSpill, hspilled, Option.isSome_some]
      have hlookup : files.lookup cache.spillPath = some (host.jsonLines onDisk) := by
        obtain ⟨content, hcontent⟩ := Option.isSome_iff_exists.mp (h.found hspill)
        rw [hcontent, ← h.content, hcontent, Option.getD_some]
      have hparse : host.parseLines (lines (host.jsonLines onDisk)) = .ok onDisk :=
        Host.parseLines_jsonLines fun v hv => hback v (h.split ▸ List.mem_append_left _ hv)
      have hlines : readLinesOn host disk (host.jsonLines onDisk) = .ok onDisk := by
        simp only [readLinesOn, (hread hspill).2, hparse]
      simp only [drainAllOn, hspilled, (hread hspill).1, hlookup, hlines, hspill, ← h.split,
        Bool.not_true, Bool.false_eq_true, if_false, Bool.true_and]

/-- A drain returns the values and keeps none, or it fails and leaves everything as it is. -/
theorem Keeps.drainAll (h : Keeps host onDisk values cache files)
    (hback : ∀ v ∈ values, host.ReadsBack v) (hremove : ¬ FailsToRemove disk cache) :
    (cache.drainAllOn host disk files).result = .ok values ∧
        Keeps host [] [] (cache.drainAllOn host disk files).cache
          (cache.drainAllOn host disk files).files ∧
        (cache.drainAllOn host disk files).cache.spillPath = cache.spillPath ∨
      ∃ e, cache.drainAllOn host disk files = ⟨.error e, cache, files⟩ := by
  by_cases hread : cache.hasSpill = true → disk.opensRead = true ∧ disk.readable = none
  · left
    rw [h.drainAllOn_eq hback hread]
    refine ⟨rfl, ⟨rfl, ?_, fun _ => rfl, fun hspill => nomatch hspill⟩, rfl⟩
    show ((if cache.hasSpill && disk.removes then _ else _ : Files).lookup
      cache.spillPath).getD [] = []
    cases hspill : cache.hasSpill with
    | false =>
        have hnone : cache.spilledFile = none := by
          rwa [hasSpill, Option.isSome_eq_false_iff, Option.isNone_iff_eq_none] at hspill
        have hcontent := h.content
        rwa [h.unspilled hnone] at hcontent
    | true =>
        cases hremoves : disk.removes with
        | false => exact absurd ⟨hspill, (hread hspill).1, (hread hspill).2, hremoves⟩ hremove
        | true =>
            show ((files.erase cache.spillPath).lookup cache.spillPath).getD [] = []
            rw [AList.lookup_erase]
            rfl
  · right
    exact drainAllOn_of_unread (Classical.not_imp.mp hread).1 (Classical.not_imp.mp hread).2

/-- What is lost: when a write fails and nothing has been spilled before, a later drain
returns nothing. -/
theorem drainAllOn_of_torn {value : Value F} (hspilled : cache.spilledFile = none)
    (hsize : (cache.grown host value).totalSizeBytes > (cache.grown host value).limitBytes)
    (hdir : disk.createsDir = true) (hopen : disk.opensAppend = true)
    (hfails : (writeLines host disk.room (cache.inMemory ++ [value])).2 = false) :
    (cache.pushOn host disk value files).result = .error disk.fail ∧
      ((cache.pushOn host disk value files).cache.drainAllOn host .sound
        (cache.pushOn host disk value files).files).result = .ok [] := by
  have hmemory : (cache.grown host value).inMemory ≠ [] :=
    List.append_ne_nil_of_right_ne_nil _ (List.cons_ne_nil _ _)
  have hpush : cache.pushOn host disk value files =
      (cache.grown host value).spillToDiskOn host disk files := if_pos hsize
  rw [hpush, spillToDiskOn_of_fails hmemory hdir hopen hfails]
  refine ⟨rfl, ?_⟩
  have hnone : (cache.grown host value).spilledFile = none := hspilled
  simp only [drainAllOn, hnone]

end

end

end PartitionCache

/-! ### Runs -/

/-- A call of a cache on a disk that may fail, or an operation of somebody else. -/
inductive DiskCall (F : Type) where
  | push (disk : Disk) (value : Value F)
  | drainAll (disk : Disk)
  | other (op : FileOp)

/-- A cache and the files, with the values pushed since the last successful drain, and for
each whether its push succeeded. -/
structure Tracked (F : Type) where
  cache : PartitionCache F
  files : Files
  pushed : List (Value F × Bool)

namespace Tracked

def start (limitBytes : Nat) (spillPath : Path) (files : Files) : Tracked F :=
  ⟨.new limitBytes spillPath, files, []⟩

def step (host : Host F) (state : Tracked F) : DiskCall F → Tracked F
  | .push disk value =>
      let left := state.cache.pushOn host disk value state.files
      ⟨left.cache, left.files, state.pushed ++ [(value, left.result.toBool)]⟩
  | .drainAll disk =>
      let left := state.cache.drainAllOn host disk state.files
      ⟨left.cache, left.files, if left.result.toBool then [] else state.pushed⟩
  | .other op => { state with files := (Interp.exec op state.files).2 }

/-- The call tears the file in a write, or does not remove the file that it has drained. -/
def Damages (host : Host F) (state : Tracked F) : DiskCall F → Prop
  | .push disk value => state.cache.Tears host disk value
  | .drainAll disk => state.cache.FailsToRemove disk
  | .other _ => False

/-- The values that a call pushes are read back, and the others leave the spill file alone. -/
def Admits (host : Host F) (spillPath : Path) : DiskCall F → Prop
  | .push _ value => host.ReadsBack value
  | .drainAll _ => True
  | .other op => op.path ≠ spillPath

instance decidableDamages (host : Host F) (state : Tracked F) :
    (call : DiskCall F) → Decidable (state.Damages host call)
  | .push disk value => PartitionCache.decidableTears host disk state.cache value
  | .drainAll disk => PartitionCache.decidableFailsToRemove disk state.cache
  | .other _ => instDecidableFalse

instance decidableAdmits [DecidableEq F] (host : Host F) (spillPath : Path) :
    (call : DiskCall F) → Decidable (Admits host spillPath call)
  | .push _ value => Host.decidableReadsBack host value
  | .drainAll _ => instDecidableTrue
  | .other op => inferInstanceAs (Decidable (op.path ≠ spillPath))

/-- The states that a new cache reaches by calls that do no damage. -/
inductive Reached (host : Host F) (spillPath : Path) : Tracked F → Prop
  | start (limitBytes : Nat) (files : Files) (hfresh : files.lookup spillPath = none) :
      Reached host spillPath (start limitBytes spillPath files)
  | step {state : Tracked F} (call : DiskCall F) (hreached : Reached host spillPath state)
      (hadmits : Admits host spillPath call) (hdamage : ¬ state.Damages host call) :
      Reached host spillPath (state.step host call)

/-- The values are all those of successful pushes, with some of the others, once each and in
their order. -/
def Survive (state : Tracked F) (values : List (Value F)) : Prop :=
  ∃ kept : List (Value F × Bool), kept.Sublist state.pushed ∧
    kept.filter Prod.snd = state.pushed.filter Prod.snd ∧ kept.map Prod.fst = values

/-- A drain on a disk that does not fail returns them. -/
def Recoverable (host : Host F) (state : Tracked F) : Prop :=
  ∃ values, (state.cache.drainAllOn host .sound state.files).result = .ok values ∧
    state.Survive values

/-- The cache keeps what is to be recovered. -/
structure Intact (host : Host F) (spillPath : Path) (state : Tracked F) : Prop where
  keeps : ∃ onDisk values, PartitionCache.Keeps host onDisk values state.cache state.files ∧
    state.Survive values
  reads : ∀ entry ∈ state.pushed, host.ReadsBack entry.1
  path : state.cache.spillPath = spillPath

section

variable {host : Host F} {spillPath : Path} {state : Tracked F}

theorem Survive.reads {values : List (Value F)} (h : state.Survive values)
    (hreads : ∀ entry ∈ state.pushed, host.ReadsBack entry.1) :
    ∀ v ∈ values, host.ReadsBack v := by
  obtain ⟨kept, hsublist, -, rfl⟩ := h
  intro v hv
  obtain ⟨entry, hentry, rfl⟩ := List.mem_map.mp hv
  exact hreads entry (hsublist.subset hentry)

/-- A pushed value survives, unless its push has failed. -/
theorem Survive.push {values kept : List (Value F)} {value : Value F} {accepted : Bool}
    (h : state.Survive values) (hkept : kept = [value] ∨ kept = [] ∧ accepted = false)
    {cache : PartitionCache F} {files : Files} :
    Survive ⟨cache, files, state.pushed ++ [(value, accepted)]⟩ (values ++ kept) := by
  obtain ⟨entries, hsublist, hfilter, rfl⟩ := h
  rcases hkept with rfl | ⟨rfl, rfl⟩
  · refine ⟨entries ++ [(value, accepted)], hsublist.append (List.Sublist.refl _), ?_, ?_⟩
    · rw [List.filter_append, List.filter_append, hfilter]
    · rw [List.map_append, List.map_singleton]
  · refine ⟨entries, hsublist.trans (List.sublist_append_left _ _), ?_, ?_⟩
    · rw [hfilter, List.filter_append]
      exact (List.append_nil _).symm
    · rw [List.append_nil]

/-- One call that does no damage. -/
theorem Intact.step (h : Intact host spillPath state) {call : DiskCall F}
    (hadmits : Admits host spillPath call) (hdamage : ¬ state.Damages host call) :
    Intact host spillPath (state.step host call) := by
  obtain ⟨⟨onDisk, values, hkeeps, hsurvive⟩, hreads, hpath⟩ := h
  cases call with
  | push disk value =>
      obtain ⟨onDisk', kept, hkeeps', hkept⟩ := hkeeps.push hdamage
      refine ⟨⟨onDisk', values ++ kept, hkeeps', hsurvive.push ?_⟩, ?_, ?_⟩
      · exact hkept.imp_right fun hlost => ⟨hlost.1, by rw [hlost.2]; rfl⟩
      · exact List.forall_mem_append.mpr ⟨hreads, List.forall_mem_singleton.mpr hadmits⟩
      · exact (PartitionCache.pushOn_spillPath host disk state.cache value state.files).trans hpath
  | drainAll disk =>
      rcases hkeeps.drainAll (hsurvive.reads hreads) hdamage with
        ⟨hok, hempty, hsame⟩ | ⟨e, herror⟩
      · have hpushed : (state.step host (.drainAll disk)).pushed = [] := by
          show (if (state.cache.drainAllOn host disk state.files).result.toBool then _ else _) = []
          rw [hok]
          rfl
        refine ⟨⟨[], [], hempty, [], ?_, ?_, rfl⟩, ?_, hsame.trans hpath⟩
        · exact List.nil_sublist _
        · rw [hpushed]
        · intro entry hentry
          rw [hpushed] at hentry
          exact absurd hentry List.not_mem_nil
      · have hsame : state.step host (.drainAll disk) = state := by
          show (⟨_, _, if _ then _ else _⟩ : Tracked F) = _
          rw [herror]
          rfl
        rw [hsame]
        exact ⟨⟨onDisk, values, hkeeps, hsurvive⟩, hreads, hpath⟩
  | other op =>
      have hlookup : (Interp.exec op state.files).2.lookup state.cache.spillPath =
          state.files.lookup state.cache.spillPath := by
        rw [hpath]
        exact FileOp.exec_lookup_ne hadmits state.files
      exact ⟨⟨onDisk, values, hkeeps.of_lookup hlookup, hsurvive⟩, hreads, hpath⟩

/-- Every state of a run without damage. -/
theorem Reached.intact (h : Reached host spillPath state) : Intact host spillPath state := by
  induction h with
  | start limitBytes files hfresh =>
      have hkeeps := PartitionCache.keeps_new host limitBytes hfresh
      exact ⟨⟨[], [], hkeeps, [], List.Sublist.refl _, rfl, rfl⟩,
        fun entry hentry => absurd hentry List.not_mem_nil, rfl⟩
  | step call _ hadmits hdamage ih => exact ih.step hadmits hdamage

end

/-- At every moment of a run without damage, in particular after a failed call, a drain on a
sound disk returns the values of the successful pushes. -/
theorem Reached.recoverable {host : Host F} {spillPath : Path} {state : Tracked F}
    (h : Reached host spillPath state) : state.Recoverable host := by
  obtain ⟨⟨onDisk, values, hkeeps, hsurvive⟩, hreads, -⟩ := h.intact
  refine ⟨values, ?_, hsurvive⟩
  rw [hkeeps.drainAllOn_eq (hsurvive.reads hreads) fun _ => ⟨rfl, rfl⟩]

def texts : Host Int := .plain [.string "a", .string "b", .string "c"]

/-- A push that succeeds, one that cannot open the file, one that spills, one that fails before
its line, and a drain that cannot read. -/
def failing : Tracked Int :=
  ((((((start 5 ["spill"] ∅).step texts (.push .sound (.string "a"))).step texts
    (.push { Disk.sound with opensAppend := false } (.string "b"))).step texts
    (.push .sound (.string "c"))).step texts
    (.push { Disk.sound with room := some 0 } (.string "b"))).step texts
    (.drainAll { Disk.sound with readable := some 1 }))

theorem failing_reached : Reached texts ["spill"] failing := by
  have hfresh : (∅ : Files).lookup ["spill"] = none := rfl
  apply Reached.step (.drainAll _) _ trivial (by decide +kernel)
  apply Reached.step _ _ (by decide +kernel) (by decide +kernel)
  apply Reached.step _ _ (by decide +kernel) (by decide +kernel)
  apply Reached.step _ _ (by decide +kernel) (by decide +kernel)
  exact Reached.step _ (Reached.start 5 ∅ hfresh) (by decide +kernel) (by decide +kernel)

theorem failing_recoverable : failing.Recoverable texts := failing_reached.recoverable

/-- A write that fails in the middle of the second line: the first value, of which the push
succeeded, is lost as well. -/
def torn : Tracked Int :=
  ((start 5 ["spill"] ∅).step texts (.push .sound (.string "a"))).step texts
    (.push { Disk.sound with room := some 5 } (.string "b"))

theorem torn_not_recoverable :
    torn.pushed = [(.string "a", true), (.string "b", false)] ∧ ¬ torn.Recoverable texts := by
  have hpushed : torn.pushed = [(.string "a", true), (.string "b", false)] := by decide +kernel
  refine ⟨hpushed, ?_⟩
  intro h
  obtain ⟨values, hdrain, kept, hsublist, hfilter, hvalues⟩ := h
  have hlost : (torn.cache.drainAllOn texts .sound torn.files).result = .ok [] :=
    (PartitionCache.drainAllOn_of_torn rfl (by decide +kernel) rfl rfl (by decide +kernel)).2
  rw [hlost] at hdrain
  cases hdrain
  rw [List.map_eq_nil_iff.mp hvalues, hpushed] at hfilter
  cases hfilter

end Tracked
end ProcessingEngine

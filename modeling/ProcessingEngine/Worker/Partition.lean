import ProcessingEngine.Common.Text
import ProcessingEngine.Common.Types
import ProcessingEngine.Common.Value
import ProcessingEngine.Lib.Exec
import ProcessingEngine.Lib.HashMap

/-!
# Partitions and their files

`worker/partition.rs`, and the partition type of `worker/ops/mod.rs`.  A cache
keeps its records in memory until they exceed a limit and then appends them to
a spill file; draining it reads the file back and removes it.  The files are
shared by all tasks of a data directory.

`Host` is what the worker takes from outside: JSON texts, floats, case mappings,
the hash function and the resolution of path texts.
-/

namespace ProcessingEngine

open Lib Text

/-- `usize::MAX` -/
def usizeMax : Nat := 18446744073709551615

/-- What `compute_bucket` feeds to the hasher. -/
inductive HashInput where
  | string (s : String)
  | bool (b : Bool)
  | zero
  deriving DecidableEq, Repr

structure Host (F : Type) where
  /-- `serde_json::to_vec`, which does not fail on a `Value`. -/
  toVec : Value F → Bytes
  fromStr : String → Except String (Value F)
  parseF64 : String → Option F
  fromF64 : F → Option (Number F)
  asF64 : Number F → Option F
  numberText : Number F → String
  zero : F
  add : F → F → F
  min : F → F → F
  max : F → F → F
  /-- `x * 2.0` -/
  double : F → F
  lt : F → F → Bool
  toUppercase : String → String
  toLowercase : String → String
  /-- The value a fresh `DefaultHasher` has after one input. -/
  hash : HashInput → Nat
  resolve : String → Path
  tempDir : Path
  /-- Whether an integer overflow panics, as in a debug build. -/
  overflowChecks : Bool

/-- How a computation of the worker fails: with an error of which the text is
kept, or by a panic. -/
inductive Fail where
  | error (message : String)
  | panic
  deriving DecidableEq, Repr

abbrev Files := HashMap Path Bytes

/-- An operation on one file, in one step. -/
inductive FileOp where
  /-- Open a file and read it. -/
  | read (path : Path)
  /-- Open a file for appending and write to it. -/
  | append (path : Path) (data : Bytes)
  /-- Create or truncate a file and write to it. -/
  | write (path : Path) (data : Bytes)
  | remove (path : Path)
  deriving DecidableEq, Repr

/-- The file of an operation. -/
def FileOp.path : FileOp → Path
  | .read path => path
  | .append path _ => path
  | .write path _ => path
  | .remove path => path

/-- The answer of a read is the content of the file, `none` when there is no
file; the other operations answer `none`. -/
instance interpFiles : Interp FileOp (Option Bytes) Files where
  exec
    | .read path, files => (files.lookup path, files)
    | .append path data, files =>
        (none, files.insert path ((files.lookup path).getD [] ++ data))
    | .write path data, files => (none, files.insert path data)
    | .remove path, files => (none, files.erase path)

theorem FileOp.exec_lookup_ne {op : FileOp} {path : Path} (h : op.path ≠ path) (files : Files) :
    (Interp.exec op files).2.lookup path = files.lookup path := by
  cases op with
  | read _ => rfl
  | append _ _ => exact AList.lookup_insert_ne h.symm
  | write _ _ => exact AList.lookup_insert_ne h.symm
  | remove _ => exact AList.lookup_erase_ne h.symm

abbrev Action := Exec FileOp (Option Bytes) Fail

namespace Files

/-- The texts of the two I/O errors that reading a file can end with. -/
def notFound : String := "No such file or directory (os error 2)"
def invalidUtf8 : String := "stream did not contain valid UTF-8"

/-- Read a file, with the message for a missing one. -/
def readOr (message : String) (path : Path) : Action Bytes := do
  match ← Exec.perform (.read path) with
  | some content => return content
  | none => Exec.fail (.error message)

def read (path : Path) : Action Bytes := readOr notFound path

def append (path : Path) (data : Bytes) : Action Unit := do
  let _ ← Exec.perform (.append path data)

def write (path : Path) (data : Bytes) : Action Unit := do
  let _ ← Exec.perform (.write path data)

def remove (path : Path) : Action Unit := do
  let _ ← Exec.perform (.remove path)

@[simp] theorem readOr_apply (message : String) (path : Path) (files : Files) :
    readOr message path files = match files.lookup path with
      | some content => (.ok content, files)
      | none => (.error (.error message), files) := by
  rw [readOr, Exec.bind_apply]
  show (match files.lookup path with
    | some content => _
    | none => _ : Action Bytes) files = _
  cases files.lookup path <;> rfl

@[simp] theorem append_apply (path : Path) (data : Bytes) (files : Files) :
    append path data files =
      (.ok (), files.insert path ((files.lookup path).getD [] ++ data)) := rfl

@[simp] theorem write_apply (path : Path) (data : Bytes) (files : Files) :
    write path data files = (.ok (), files.insert path data) := rfl

@[simp] theorem remove_apply (path : Path) (files : Files) :
    remove path files = (.ok (), files.erase path) := rfl

end Files

variable {F : Type}

namespace Host

/-- The values, one JSON text a line. -/
def jsonLines (host : Host F) (values : List (Value F)) : Bytes :=
  values.flatMap fun v => host.toVec v ++ [newline]

/-- Parse the lines that are not blank, up to the first failure. -/
def parseLines (host : Host F) : List (Option String) → Except Fail (List (Value F))
  | [] => .ok []
  | none :: _ => .error (.error Files.invalidUtf8)
  | some line :: rest =>
      if isBlank line then host.parseLines rest
      else match host.fromStr line with
        | .error e => .error (.error e)
        | .ok value => (host.parseLines rest).map (value :: ·)

/-- The JSON library reads the text that it writes for the value back: the text
is a line of its own, and its value is the one written.  It is so for every
value without floats, and for the floats that survive a decimal rendering. -/
structure ReadsBack (host : Host F) (value : Value F) : Prop where
  line : newline ∉ host.toVec value ∧ carriageReturn ∉ host.toVec value
  parse : ∃ text, utf8 (host.toVec value) = some text ∧ isBlank text = false ∧
    host.fromStr text = .ok value

instance decidableReadsBack [DecidableEq F] (host : Host F) (value : Value F) :
    Decidable (host.ReadsBack value) :=
  decidable_of_iff
    ((newline ∉ host.toVec value ∧ carriageReturn ∉ host.toVec value) ∧
      ∃ text ∈ utf8 (host.toVec value), isBlank text = false ∧ host.fromStr text = .ok value)
    ⟨fun h => ⟨h.1, h.2⟩, fun h => ⟨h.line, h.parse⟩⟩

theorem jsonLines_append (host : Host F) (vs ws : List (Value F)) :
    host.jsonLines (vs ++ ws) = host.jsonLines vs ++ host.jsonLines ws :=
  List.flatMap_append

/-- A file of JSON lines reads back. -/
theorem parseLines_jsonLines {host : Host F} {values : List (Value F)}
    (h : ∀ v ∈ values, host.ReadsBack v) :
    host.parseLines (lines (host.jsonLines values)) = .ok values := by
  have hlines : lines (host.jsonLines values) = values.map fun v => utf8 (host.toVec v) :=
    lines_flatMap fun v hv => (h v hv).line
  rw [hlines]
  clear hlines
  induction values with
  | nil => rfl
  | cons v values ih =>
      obtain ⟨text, htext, hblank, hparse⟩ := (h v List.mem_cons_self).parse
      have ih := ih fun w hw => h w (List.mem_cons_of_mem v hw)
      rw [List.map_cons, htext, parseLines, hblank, hparse, ih]
      rfl

end Host

/-! ### A host -/

namespace Host

mutual
/-- The JSON text of a value of which the strings need no escapes, with whole
numbers as floats. -/
def plainText : Value Int → String
  | .null => "null"
  | .bool b => if b then "true" else "false"
  | .number (.int i) => toString i
  | .number (.float x) => toString x ++ ".0"
  | .string s => "\"" ++ s ++ "\""
  | .array elements => "[" ++ plainElements elements ++ "]"
  | .object fields => "\x7b" ++ plainFields fields ++ "\x7d"

def plainElements : List (Value Int) → String
  | [] => ""
  | [v] => plainText v
  | v :: vs => plainText v ++ "," ++ plainElements vs

def plainFields : Fields Int → String
  | [] => ""
  | [(k, v)] => "\"" ++ k ++ "\":" ++ plainText v
  | (k, v) :: rest => "\"" ++ k ++ "\":" ++ plainText v ++ "," ++ plainFields rest
end

/-- A host for runs in which the JSON texts that are parsed are those of
`values`. -/
def plain (values : List (Value Int)) : Host Int where
  toVec v := (plainText v).toUTF8.data.toList
  fromStr text :=
    match values.find? fun v => plainText v == text with
    | some v => .ok v
    | none => .error "expected value at line 1 column 1"
  parseF64 := parseI64
  fromF64 x := some (.float x)
  asF64
    | .int i => some i
    | .float x => some x
  numberText n := plainText (.number n)
  zero := 0
  add x y := x + y
  min x y := if x ≤ y then x else y
  max x y := if x ≤ y then y else x
  double x := x * 2
  lt x y := decide (x < y)
  toUppercase := String.map Char.toUpper
  toLowercase := String.map Char.toLower
  hash _ := 0
  resolve := split '/'
  tempDir := ["", "tmp"]
  overflowChecks := true

theorem mem_of_fromStr {values : List (Value Int)} {text : String} {value : Value Int}
    (h : (plain values).fromStr text = .ok value) : value ∈ values := by
  cases hfind : values.find? fun v => plainText v == text with
  | none =>
      simp only [plain, hfind] at h
      cases h
  | some v =>
      simp only [plain, hfind] at h
      exact Except.ok.inj h ▸ List.mem_of_find?_eq_some hfind

end Host

/-! ### The cache -/

structure PartitionCache (F : Type) where
  inMemory : List (Value F)
  spilledFile : Option Path
  inMemoryBytes : Nat
  spilledBytes : Nat
  limitBytes : Nat
  spillPath : Path
  recordCount : Nat
  /-- A cache spills to its own path only. -/
  spilled_at : ∀ path, spilledFile = some path → path = spillPath

namespace PartitionCache

theorem spilled_at_none (spillPath : Path) :
    ∀ path, (none : Option Path) = some path → path = spillPath := by simp

def new (limitBytes : Nat) (spillPath : Path) : PartitionCache F where
  inMemory := []
  spilledFile := none
  inMemoryBytes := 0
  spilledBytes := 0
  limitBytes
  spillPath
  recordCount := 0
  spilled_at := spilled_at_none spillPath

/-- A `usize`, so that nothing exceeds the limit `usize::MAX`. -/
def totalSizeBytes (cache : PartitionCache F) : Nat :=
  min (cache.spilledBytes + cache.inMemoryBytes) usizeMax

def hasSpill (cache : PartitionCache F) : Bool := cache.spilledFile.isSome

def estimateSize (host : Host F) (value : Value F) : Nat := (host.toVec value).length

def spillToDisk (host : Host F) (cache : PartitionCache F) : Action (PartitionCache F) :=
  if cache.inMemory.isEmpty then return cache
  else do
    let data := host.jsonLines cache.inMemory
    Files.append cache.spillPath data
    return { cache with
      inMemory := []
      spilledFile := some cache.spillPath
      inMemoryBytes := 0
      spilledBytes := cache.spilledBytes + data.length
      spilled_at := fun _ h => (Option.some.inj h).symm }

def maybeSpill (host : Host F) (cache : PartitionCache F) : Action (PartitionCache F) :=
  if cache.totalSizeBytes > cache.limitBytes then cache.spillToDisk host else return cache

def push (host : Host F) (cache : PartitionCache F) (value : Value F) :
    Action (PartitionCache F) :=
  maybeSpill host { cache with
    inMemoryBytes := cache.inMemoryBytes + estimateSize host value
    recordCount := cache.recordCount + 1
    inMemory := cache.inMemory ++ [value] }

def pushBatch (host : Host F) : PartitionCache F → List (Value F) → Action (PartitionCache F)
  | cache, [] => return cache
  | cache, value :: values => do
      let cache ← cache.push host value
      pushBatch host cache values

/-- Read a spill file back and remove it.  A file that cannot be read stays. -/
def readSpilled (host : Host F) : Option Path → Action (List (Value F))
  | none => return []
  | some path => do
      let content ← Files.read path
      let data ← Exec.lift (host.parseLines (lines content))
      Files.remove path
      return data

/-- The spilled values, then those in memory. -/
def drainAll (host : Host F) (cache : PartitionCache F) : Action (List (Value F)) := do
  let data ← readSpilled host cache.spilledFile
  return data ++ cache.inMemory

/-- The cache after a drain of `count` values. -/
def emptied (cache : PartitionCache F) (count : Nat) : PartitionCache F :=
  { cache with
    inMemory := []
    spilledFile := none
    inMemoryBytes := 0
    spilledBytes := if cache.hasSpill then 0 else cache.spilledBytes
    recordCount := count
    spilled_at := spilled_at_none cache.spillPath }

/-- `drain_all` with the cache that it leaves. -/
def drain (host : Host F) (cache : PartitionCache F) :
    Action (List (Value F) × PartitionCache F) := do
  let data ← readSpilled host cache.spilledFile
  let data := data ++ cache.inMemory
  return (data, cache.emptied data.length)

/-- A cache that is dropped afterwards is drained for its values. -/
theorem drainAll_eq_drain (host : Host F) (cache : PartitionCache F) (files : Files) :
    cache.drainAll host files =
      ((cache.drain host files).1.map Prod.fst, (cache.drain host files).2) := by
  show (readSpilled host cache.spilledFile >>= _) files =
    (((readSpilled host cache.spilledFile >>= _) files).1.map Prod.fst,
      ((readSpilled host cache.spilledFile >>= _) files).2)
  rw [Exec.bind_apply, Exec.bind_apply]
  rcases readSpilled host cache.spilledFile files with ⟨_ | data, files'⟩
  · rfl
  · rfl

end PartitionCache

structure PartitionData (F : Type) where
  partitionId : Nat
  cache : PartitionCache F

namespace PartitionData

def empty (partitionId limitBytes : Nat) (spillPath : Path) : PartitionData F :=
  ⟨partitionId, .new limitBytes spillPath⟩

def fromRecords (host : Host F) (partitionId limitBytes : Nat) (spillPath : Path)
    (records : List (Record F)) : Action (PartitionData F) := do
  let cache ← (PartitionCache.new limitBytes spillPath).pushBatch host records
  return ⟨partitionId, cache⟩

def recordCount (partition : PartitionData F) : Nat := partition.cache.recordCount

def limitBytes (partition : PartitionData F) : Nat := partition.cache.limitBytes

def spillPath (partition : PartitionData F) : Path := partition.cache.spillPath

def intoParts (host : Host F) (partition : PartitionData F) :
    Action (Nat × Path × List (Record F)) := do
  let records ← partition.cache.drainAll host
  return (partition.limitBytes, partition.spillPath, records)

end PartitionData

/-! ### What a filled cache holds -/

namespace PartitionCache

/-- The cache was filled with `values`, starting from the files `before` and
ending with the files `after`: the values it has spilled are appended to the
spill file, the others are in memory. -/
structure Filled (host : Host F) (before : Files) (values : List (Value F))
    (cache : PartitionCache F) (after : Files) : Prop where
  count : cache.recordCount = values.length
  split : ∃ onDisk, values = onDisk ++ cache.inMemory ∧
    match cache.spilledFile with
    | none => onDisk = [] ∧ after = before
    | some _ => after = before.insert cache.spillPath
        ((before.lookup cache.spillPath).getD [] ++ host.jsonLines onDisk)

theorem filled_new (host : Host F) (files : Files) (limitBytes : Nat) (spillPath : Path) :
    Filled host files [] (new limitBytes spillPath) files :=
  ⟨rfl, [], rfl, rfl, rfl⟩

/-- Moving the memory to the spill file keeps the values. -/
theorem spillToDisk_filled {host : Host F} {before mid : Files} {values : List (Value F)}
    {cache : PartitionCache F} (h : Filled host before values cache mid) :
    ∃ cache' after, cache.spillToDisk host mid = (.ok cache', after) ∧
      Filled host before values cache' after ∧ cache'.spillPath = cache.spillPath ∧
      cache'.limitBytes = cache.limitBytes := by
  obtain ⟨hcount, onDisk, hsplit, hfile⟩ := h
  unfold spillToDisk
  split
  · exact ⟨cache, mid, rfl, ⟨hcount, onDisk, hsplit, hfile⟩, rfl, rfl⟩
  · refine ⟨_, _, rfl, ⟨hcount, values, (List.append_nil _).symm, ?_⟩, rfl, rfl⟩
    show mid.insert cache.spillPath _ = _
    cases hspilled : cache.spilledFile with
    | none =>
        rw [hspilled] at hfile
        rw [hsplit, hfile.1, hfile.2, List.nil_append]
    | some path =>
        rw [hspilled] at hfile
        rw [hfile, AList.lookup_insert, AList.insert_insert, hsplit, Host.jsonLines_append,
          Option.getD_some, List.append_assoc]

theorem push_filled {host : Host F} {before mid : Files} {values : List (Value F)}
    {cache : PartitionCache F} (h : Filled host before values cache mid) (value : Value F) :
    ∃ cache' after, cache.push host value mid = (.ok cache', after) ∧
      Filled host before (values ++ [value]) cache' after ∧
      cache'.spillPath = cache.spillPath ∧ cache'.limitBytes = cache.limitBytes := by
  obtain ⟨hcount, onDisk, hsplit, hfile⟩ := h
  have hgrown : Filled host before (values ++ [value]) { cache with
      inMemoryBytes := cache.inMemoryBytes + estimateSize host value
      recordCount := cache.recordCount + 1
      inMemory := cache.inMemory ++ [value] } mid := by
    refine ⟨?_, onDisk, ?_, hfile⟩
    · show cache.recordCount + 1 = _
      rw [hcount, List.length_append, List.length_singleton]
    · show _ = onDisk ++ (cache.inMemory ++ [value])
      rw [hsplit, List.append_assoc]
  unfold push maybeSpill
  split
  · exact spillToDisk_filled hgrown
  · exact ⟨_, mid, rfl, hgrown, rfl, rfl⟩

theorem pushBatch_filled {host : Host F} {before mid : Files} {values : List (Value F)}
    {cache : PartitionCache F} (h : Filled host before values cache mid)
    (more : List (Value F)) :
    ∃ cache' after, cache.pushBatch host more mid = (.ok cache', after) ∧
      Filled host before (values ++ more) cache' after ∧
      cache'.spillPath = cache.spillPath ∧ cache'.limitBytes = cache.limitBytes := by
  induction more generalizing cache values mid with
  | nil => exact ⟨cache, mid, rfl, by rwa [List.append_nil], rfl, rfl⟩
  | cons value more ih =>
      obtain ⟨cache₁, files₁, hpush, hfilled, hpath, hlimit⟩ := push_filled h value
      obtain ⟨cache₂, files₂, hbatch, hfilled₂, hpath₂, hlimit₂⟩ := ih hfilled
      refine ⟨cache₂, files₂, ?_, ?_, hpath₂.trans hpath, hlimit₂.trans hlimit⟩
      · show (cache.push host value >>= fun cache => pushBatch host cache more) mid = _
        rw [Exec.bind_apply, hpush]
        exact hbatch
      · rwa [List.append_assoc, List.singleton_append] at hfilled₂

/-- Filling a cache leaves the other files alone. -/
theorem Filled.lookup_of_ne {host : Host F} {before after : Files} {values : List (Value F)}
    {cache : PartitionCache F} (h : Filled host before values cache after) {path : Path}
    (hpath : path ≠ cache.spillPath) : after.lookup path = before.lookup path := by
  obtain ⟨-, onDisk, -, hfile⟩ := h
  cases hspilled : cache.spilledFile with
  | none =>
      rw [hspilled] at hfile
      rw [hfile.2]
  | some _ =>
      rw [hspilled] at hfile
      rw [hfile, AList.lookup_insert_ne hpath]

/-- A cache filled without a leftover spill file gives its values back, and the
files are as before. -/
theorem Filled.drainAll {host : Host F} {before after : Files} {values : List (Value F)}
    {cache : PartitionCache F} (h : Filled host before values cache after)
    (hfresh : before.lookup cache.spillPath = none) (hback : ∀ v ∈ values, host.ReadsBack v) :
    cache.drainAll host after = (.ok values, before) := by
  obtain ⟨-, onDisk, hsplit, hfile⟩ := h
  show (readSpilled host cache.spilledFile >>= _) after = _
  cases hspilled : cache.spilledFile with
  | none =>
      rw [hspilled] at hfile
      rw [hsplit, hfile.1, hfile.2]
      rfl
  | some path =>
      rw [hspilled] at hfile
      obtain rfl := cache.spilled_at path hspilled
      rw [hfresh] at hfile
      have hread : host.parseLines (lines (host.jsonLines onDisk)) = .ok onDisk :=
        Host.parseLines_jsonLines fun v hv => hback v (hsplit ▸ List.mem_append_left _ hv)
      have hlookup : after.lookup cache.spillPath = some (host.jsonLines onDisk) := by
        rw [hfile, AList.lookup_insert]
        rfl
      have hremoved : after.erase cache.spillPath = before := by
        rw [hfile]
        exact HashMap.erase_insert (AList.lookup_eq_none.mp hfresh) _
      simp only [readSpilled, Exec.bind_apply, Files.read, Files.readOr_apply, hlookup,
        Exec.lift_apply, hread, Files.remove_apply, hremoved, Exec.pure_apply, hsplit]

/-- Draining touches at most the spill file. -/
theorem drainAll_lookup_of_ne (host : Host F) (cache : PartitionCache F) (files : Files)
    {path : Path} (hpath : path ≠ cache.spillPath) :
    (cache.drainAll host files).2.lookup path = files.lookup path := by
  show ((readSpilled host cache.spilledFile >>= _) files).2.lookup path = _
  cases hspilled : cache.spilledFile with
  | none => rfl
  | some path' =>
      obtain rfl := cache.spilled_at path' hspilled
      simp only [readSpilled, Exec.bind_apply, Files.read, Files.readOr_apply]
      cases files.lookup cache.spillPath with
      | none => rfl
      | some content =>
          simp only [Exec.lift_apply]
          cases host.parseLines (lines content) with
          | error e => rfl
          | ok data => exact AList.lookup_erase_ne hpath

end PartitionCache

namespace PartitionData

open PartitionCache (Filled)

/-- `from_records` does not fail. -/
theorem fromRecords_filled (host : Host F) (partitionId limitBytes : Nat) (spillPath : Path)
    (records : List (Record F)) (files : Files) :
    ∃ partition after,
      fromRecords host partitionId limitBytes spillPath records files = (.ok partition, after) ∧
      Filled host files records partition.cache after ∧ partition.partitionId = partitionId ∧
      partition.spillPath = spillPath ∧ partition.limitBytes = limitBytes := by
  obtain ⟨cache, after, hpush, hfilled, hpath, hlimit⟩ := PartitionCache.pushBatch_filled
    (PartitionCache.filled_new host files limitBytes spillPath) records
  refine ⟨⟨partitionId, cache⟩, after, ?_, hfilled, rfl, hpath, hlimit⟩
  rw [fromRecords, Exec.bind_apply, hpush]
  rfl

theorem intoParts_of_filled {host : Host F} {before after : Files} {records : List (Record F)}
    {partition : PartitionData F} (h : Filled host before records partition.cache after)
    (hfresh : before.lookup partition.spillPath = none)
    (hback : ∀ v ∈ records, host.ReadsBack v) :
    partition.intoParts host after =
      (.ok (partition.limitBytes, partition.spillPath, records), before) := by
  rw [intoParts, Exec.bind_apply, h.drainAll hfresh hback]
  rfl

theorem intoParts_lookup_of_ne (host : Host F) (partition : PartitionData F) (files : Files)
    {path : Path} (hpath : path ≠ partition.spillPath) :
    (partition.intoParts host files).2.lookup path = files.lookup path := by
  have h := PartitionCache.drainAll_lookup_of_ne host partition.cache files hpath
  rw [← h]
  show ((partition.cache.drainAll host >>= _) files).2.lookup path = _
  rw [Exec.bind_apply]
  cases partition.cache.drainAll host files with
  | mk result files' => cases result <;> rfl

@[simp] theorem intoParts_empty (host : Host F) (partitionId limitBytes : Nat) (spillPath : Path)
    (files : Files) :
    (empty partitionId limitBytes spillPath : PartitionData F).intoParts host files =
      (.ok (limitBytes, spillPath, []), files) := rfl

end PartitionData

/-! ### The store of a data directory -/

structure PartitionStore where
  root : Path
  deriving DecidableEq, Repr

namespace PartitionStore

variable {Uuid : Type}

/-- The directory of a stage of a job.  `text` renders the id of the job. -/
def stageDir (store : PartitionStore) (text : Uuid → String) (jobId : Uuid) (stageId : Nat) :
    Path :=
  store.root ++ [text jobId, toString stageId]

def partitionPath (store : PartitionStore) (text : Uuid → String) (jobId : Uuid)
    (stageId partition : Nat) : Path :=
  store.stageDir text jobId stageId ++ ["part-" ++ toString partition ++ ".bin"]

def spillPath (store : PartitionStore) (text : Uuid → String) (jobId : Uuid)
    (stageId partition : Nat) : Path :=
  store.stageDir text jobId stageId ++ ["spill-" ++ toString partition ++ ".bin"]

/-- Write the records to the file and return its size. -/
def writeRecords (host : Host F) (path : Path) (records : List (Record F)) : Action Nat := do
  let buf := host.jsonLines records
  Files.write path buf
  return buf.length

end PartitionStore
end ProcessingEngine

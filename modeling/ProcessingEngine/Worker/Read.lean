import ProcessingEngine.Worker.Partition
import ProcessingEngine.Lib.Slice

/-!
# Reading a slice of an input file

`worker/ops/read.rs`.  Every task reads the whole file and keeps the rows whose
number is its partition modulo the number of partitions.  What counts as a row
depends on the format: the CSV reader numbers the data lines that are not blank,
the other readers number all lines, or the elements of an array.

`numberedRecords` is the input as a list of numbered records, and the reads of
the tasks are its slices (`readRecords_of_numbered`).
-/

namespace ProcessingEngine

open Lib Text

structure ReadOp where
  path : String
  format : String
  partitionId : Nat
  totalPartitions : Nat
  cacheLimitBytes : Nat
  spillPath : Path
  deriving DecidableEq, Repr

namespace ReadOp

variable {F : Type}

def inferNumber (host : Host F) (raw : String) : Value F :=
  match parseI64 raw with
  | some i => .number (.int i)
  | none =>
      match (host.parseF64 raw).bind host.fromF64 with
      | some n => .number n
      | none => .string raw

def parseCsvLineToObject (host : Host F) (headers : List String) (row : String) : Value F :=
  .object <| (split ',' row).zipIdx.foldl (fun obj (col, idx) =>
    Fields.insert (headers[idx]?.getD ("col" ++ toString idx)) (inferNumber host (trim col)) obj) []

def normalizeJsonValue (value : Value F) : Value F :=
  match value with
  | .object _ => value
  | _ => .object [("value", value)]

/-- The names of the columns. -/
def csvHeaders (headerLine : String) : List String :=
  let line := trimEndMatches (fun c => c == '\r' || c == '\n') headerLine.toList
  (split ',' (String.ofList line)).map trim

/-- The records of the data lines, of which the next has the number `dataIdx`.  Every line
is decoded, whichever partition it belongs to. -/
def csvRecords (host : Host F) (total pid : Nat) (headers : List String) :
    Nat → List (Option String) → Except Fail (List (Record F))
  | _, [] => .ok []
  | _, none :: _ => .error (.error Files.invalidUtf8)
  | dataIdx, some line :: rest =>
      if isBlank line then csvRecords host total pid headers dataIdx rest
      else (csvRecords host total pid headers (dataIdx + 1) rest).map fun records =>
        if dataIdx % total == pid then parseCsvLineToObject host headers line :: records
        else records

/-- The records of the lines from number `idx` on.  The lines of other
partitions are not looked at. -/
def jsonlRecords (host : Host F) (total pid : Nat) :
    Nat → List (Option String) → Except Fail (List (Record F))
  | _, [] => .ok []
  | idx, line :: rest =>
      if idx % total != pid then jsonlRecords host total pid (idx + 1) rest
      else match line with
        | none => .error (.error Files.invalidUtf8)
        | some line =>
            if isBlank line then jsonlRecords host total pid (idx + 1) rest
            else match host.fromStr line with
              | .error e => .error
                  (.error ("failed to parse json line " ++ toString idx ++ ": " ++ e))
              | .ok value =>
                  (jsonlRecords host total pid (idx + 1) rest).map (normalizeJsonValue value :: ·)

def arrayRecords (total pid : Nat) (elements : List (Value F)) : List (Record F) :=
  (elements.zipIdx.filter fun (_, idx) => idx % total == pid).map
    fun (elem, _) => normalizeJsonValue elem

/-- The header line and the lines after it. -/
def csvHeader (content : Bytes) : Except Fail (List String × List (Option String)) :=
  match utf8 (readLine content).1 with
  | none => .error (.error "reading CSV header")
  | some headerLine =>
      if isBlank headerLine then .error (.error "CSV header is empty")
      else .ok (csvHeaders headerLine, lines (readLine content).2)

/-- The elements of an array, or `none` for the fallback to JSON lines. -/
def jsonElements (host : Host F) (content : Bytes) : Except Fail (Option (List (Value F))) :=
  match utf8 content with
  | none => .error (.error Files.invalidUtf8)
  | some buf =>
      if buf.toList.find? (fun c => !isWhitespace c) == some '[' then
        match host.fromStr buf with
        | .error _ => .error (.error "parsing json array input")
        | .ok arr =>
            match arr.asArray with
            | none => .error (.error "json input is not an array")
            | some elements => .ok (some elements)
      else .ok none

/-- The records that partition `pid` of `total` keeps of the file. -/
def readRecords (host : Host F) (format : String) (total pid : Nat) (content : Bytes) :
    Except Fail (List (Record F)) :=
  if format = "csv" then do
    let (headers, rest) ← csvHeader content
    csvRecords host total pid headers 0 rest
  else if format = "jsonl" ∨ format = "ndjson" then
    jsonlRecords host total pid 0 (lines content)
  else if format = "json" then do
    match ← jsonElements host content with
    | some elements => .ok (arrayRecords total pid elements)
    | none => jsonlRecords host total pid 0 (lines content)
  else .error (.error ("unsupported format '" ++ format ++ "'"))

/-- Open the input and keep a slice of it.  The error of a missing file is
replaced by the context of the call. -/
def execute (host : Host F) (op : ReadOp) : Action (List (PartitionData F)) := do
  let content ← Files.readOr ("opening input " ++ op.path) (host.resolve op.path)
  let records ← Exec.lift (readRecords host op.format op.totalPartitions op.partitionId content)
  let partition ←
    PartitionData.fromRecords host op.partitionId op.cacheLimitBytes op.spillPath records
  return [partition]

/-! ### The input as numbered records -/

def numberedCsv (host : Host F) (headers : List String) :
    Nat → List (Option String) → Except Fail (List (Nat × Record F))
  | _, [] => .ok []
  | _, none :: _ => .error (.error Files.invalidUtf8)
  | dataIdx, some line :: rest =>
      if isBlank line then numberedCsv host headers dataIdx rest
      else (numberedCsv host headers (dataIdx + 1) rest).map
        ((dataIdx, parseCsvLineToObject host headers line) :: ·)

def numberedJsonl (host : Host F) :
    Nat → List (Option String) → Except Fail (List (Nat × Record F))
  | _, [] => .ok []
  | _, none :: _ => .error (.error Files.invalidUtf8)
  | idx, some line :: rest =>
      if isBlank line then numberedJsonl host (idx + 1) rest
      else match host.fromStr line with
        | .error e => .error (.error ("failed to parse json line " ++ toString idx ++ ": " ++ e))
        | .ok value =>
            (numberedJsonl host (idx + 1) rest).map ((idx, normalizeJsonValue value) :: ·)

def numberedArray (elements : List (Value F)) : List (Nat × Record F) :=
  elements.zipIdx.map fun (elem, idx) => (idx, normalizeJsonValue elem)

/-- Every record of the file with the number that decides its partition. -/
def numberedRecords (host : Host F) (format : String) (content : Bytes) :
    Except Fail (List (Nat × Record F)) :=
  if format = "csv" then do
    let (headers, rest) ← csvHeader content
    numberedCsv host headers 0 rest
  else if format = "jsonl" ∨ format = "ndjson" then numberedJsonl host 0 (lines content)
  else if format = "json" then do
    match ← jsonElements host content with
    | some elements => .ok (numberedArray elements)
    | none => numberedJsonl host 0 (lines content)
  else .error (.error ("unsupported format '" ++ format ++ "'"))

theorem csvRecords_eq (host : Host F) (total pid : Nat) (headers : List String) (dataIdx : Nat)
    (ls : List (Option String)) :
    csvRecords host total pid headers dataIdx ls =
      (numberedCsv host headers dataIdx ls).map (slice total pid) := by
  induction ls generalizing dataIdx with
  | nil => rfl
  | cons line rest ih =>
      cases line with
      | none => rfl
      | some line =>
          rw [csvRecords, numberedCsv]
          split
          · exact ih dataIdx
          · rw [ih]
            cases numberedCsv host headers (dataIdx + 1) rest with
            | error e => rfl
            | ok rows =>
                simp only [Except.map]
                by_cases h : dataIdx % total = pid
                · rw [slice_cons_of_eq h, if_pos (beq_iff_eq.mpr h)]
                · rw [slice_cons_of_ne h, if_neg (by simpa using h)]

theorem jsonlRecords_of_numbered {host : Host F} (total pid : Nat) {idx : Nat}
    {ls : List (Option String)} {rows : List (Nat × Record F)}
    (h : numberedJsonl host idx ls = .ok rows) :
    jsonlRecords host total pid idx ls = .ok (slice total pid rows) := by
  induction ls generalizing idx rows with
  | nil =>
      cases h
      rfl
  | cons line rest ih =>
      cases line with
      | none => cases h
      | some line =>
          rw [numberedJsonl] at h
          rw [jsonlRecords]
          by_cases hblank : isBlank line = true
          · rw [if_pos hblank] at h
            simp only [ih h, hblank, if_true, ite_self]
          · rw [if_neg hblank] at h
            cases hparse : host.fromStr line with
            | error e => simp only [hparse, reduceCtorEq] at h
            | ok value =>
                cases hrest : numberedJsonl host (idx + 1) rest with
                | error e => simp only [hparse, hrest, Except.map, reduceCtorEq] at h
                | ok rows' =>
                    simp only [hparse, hrest, Except.map, Except.ok.injEq] at h
                    subst h
                    simp only [ih hrest]
                    by_cases hp : idx % total = pid
                    · simp only [hp, bne_self_eq_false, Bool.false_eq_true, if_false, hblank,
                        Except.map, slice_cons_of_eq hp]
                    · have hne : (idx % total != pid) = true := by simpa using hp
                      simp only [hne, if_true, slice_cons_of_ne hp]

theorem jsonlRecords_skip (host : Host F) {total pid idx : Nat} (h : idx % total ≠ pid)
    (line : Option String) (rest : List (Option String)) :
    jsonlRecords host total pid idx (line :: rest) =
      jsonlRecords host total pid (idx + 1) rest := by
  have hne : (idx % total != pid) = true := by simpa using h
  cases line <;> rw [jsonlRecords, if_pos hne]

/-- When all partitions can be read, so can the whole. -/
theorem exists_numberedJsonl {host : Host F} {total : Nat} (htotal : 0 < total) {idx : Nat}
    {ls : List (Option String)}
    (h : ∀ pid < total, ∃ records, jsonlRecords host total pid idx ls = .ok records) :
    ∃ rows, numberedJsonl host idx ls = .ok rows := by
  induction ls generalizing idx with
  | nil => exact ⟨[], rfl⟩
  | cons line rest ih =>
      have hown := h (idx % total) (Nat.mod_lt idx htotal)
      have hother : ∀ pid < total, pid ≠ idx % total →
          ∃ records, jsonlRecords host total pid (idx + 1) rest = .ok records := by
        intro pid hpid hne
        have hpid := h pid hpid
        rwa [jsonlRecords_skip host hne.symm] at hpid
      have hsame : ¬ (idx % total != idx % total) = true := by simp
      cases line with
      | none =>
          obtain ⟨records, hrecords⟩ := hown
          rw [jsonlRecords, if_neg hsame] at hrecords
          cases hrecords
      | some line =>
          rw [jsonlRecords, if_neg hsame] at hown
          -- the partition of this line can read the rest as well
          have hrest : (∃ records,
              jsonlRecords host total (idx % total) (idx + 1) rest = .ok records) →
              ∃ rows, numberedJsonl host (idx + 1) rest = .ok rows := by
            intro hidx
            refine ih fun pid hpid => ?_
            by_cases hp : pid = idx % total
            · subst hp
              exact hidx
            · exact hother pid hpid hp
          rw [numberedJsonl]
          by_cases hblank : isBlank line = true
          · rw [if_pos hblank] at hown ⊢
            exact hrest hown
          · rw [if_neg hblank] at hown ⊢
            cases hparse : host.fromStr line with
            | error e =>
                obtain ⟨records, hrecords⟩ := hown
                simp only [hparse, reduceCtorEq] at hrecords
            | ok value =>
                obtain ⟨records, hrecords⟩ := hown
                simp only [hparse] at hrecords ⊢
                cases hread : jsonlRecords host total (idx % total) (idx + 1) rest with
                | error e => simp only [hread, Except.map, reduceCtorEq] at hrecords
                | ok records' =>
                    obtain ⟨rows, hrows⟩ := hrest ⟨records', hread⟩
                    exact ⟨_, by rw [hrows]; rfl⟩

theorem arrayRecords_eq (total pid : Nat) (elements : List (Value F)) :
    arrayRecords total pid elements = slice total pid (numberedArray elements) := by
  rw [arrayRecords, slice, numberedArray, List.filter_map, List.map_map]
  rfl

/-- Each task reads its slice of the numbered records. -/
theorem readRecords_of_numbered {host : Host F} {format : String} {content : Bytes}
    {rows : List (Nat × Record F)} (h : numberedRecords host format content = .ok rows)
    (total pid : Nat) :
    readRecords host format total pid content = .ok (slice total pid rows) := by
  unfold numberedRecords at h
  unfold readRecords
  split_ifs at h ⊢ with hcsv hjsonl hjson
  · cases hheader : csvHeader content with
    | error e => simp only [hheader, bind, Except.bind, reduceCtorEq] at h
    | ok header =>
        simp only [hheader, bind, Except.bind] at h ⊢
        rw [csvRecords_eq, h]
        rfl
  · exact jsonlRecords_of_numbered total pid h
  · cases helements : jsonElements host content with
    | error e => simp only [helements, bind, Except.bind, reduceCtorEq] at h
    | ok elements =>
        simp only [helements, bind, Except.bind] at h ⊢
        cases elements with
        | none => exact jsonlRecords_of_numbered total pid h
        | some elements =>
            simp only [Except.ok.injEq] at h ⊢
            rw [← h, arrayRecords_eq]

theorem exists_numberedRecords {host : Host F} {format : String} {content : Bytes} {total : Nat}
    (htotal : 0 < total)
    (h : ∀ pid < total, ∃ records, readRecords host format total pid content = .ok records) :
    ∃ rows, numberedRecords host format content = .ok rows := by
  unfold readRecords at h
  unfold numberedRecords
  split_ifs at h ⊢ with hcsv hjsonl hjson
  · obtain ⟨records, hrecords⟩ := h 0 htotal
    cases hheader : csvHeader content with
    | error e => simp only [hheader, bind, Except.bind, reduceCtorEq] at hrecords
    | ok header =>
        simp only [hheader, bind, Except.bind] at hrecords ⊢
        rw [csvRecords_eq] at hrecords
        cases hrows : numberedCsv host header.1 0 header.2 with
        | error e => simp only [hrows, Except.map, reduceCtorEq] at hrecords
        | ok rows => exact ⟨rows, rfl⟩
  · exact exists_numberedJsonl htotal h
  · cases helements : jsonElements host content with
    | error e =>
        obtain ⟨records, hrecords⟩ := h 0 htotal
        simp only [helements, bind, Except.bind, reduceCtorEq] at hrecords
    | ok elements =>
        simp only [helements, bind, Except.bind] at h ⊢
        cases elements with
        | none => exact exists_numberedJsonl htotal h
        | some elements => exact ⟨numberedArray elements, rfl⟩
  · obtain ⟨records, hrecords⟩ := h 0 htotal
    cases hrecords

/-- A single partition reads everything. -/
theorem readRecords_whole {host : Host F} {format : String} {content : Bytes}
    {rows : List (Nat × Record F)} (h : numberedRecords host format content = .ok rows) :
    readRecords host format 1 0 content = .ok (rows.map Prod.snd) := by
  rw [readRecords_of_numbered h]
  simp [slice, Nat.mod_one]

end ReadOp
end ProcessingEngine

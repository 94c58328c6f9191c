import ProcessingEngine.Worker.Partition

/-!
# The cache as a list

A cache under any sequence of calls, between which others work on other files.
Whatever its limit, it behaves as the list of the values pushed since the last
drain: the spilled ones are in its file, the others in memory (`Holds`), and each
drain returns them all and removes the file (`runCalls_eq`).
-/

namespace ProcessingEngine

open Lib Text

variable {F : Type}

/-- A call of a cache, or an operation of somebody else. -/
inductive CacheCall (F : Type) where
  | push (value : Value F)
  | pushBatch (values : List (Value F))
  | drain
  | other (op : FileOp)

namespace CacheCall

/-- The values that a call pushes. -/
def pushed : CacheCall F → List (Value F)
  | .push value => [value]
  | .pushBatch values => values
  | _ => []

/-- The values that a call leaves pending. -/
def after (pending : List (Value F)) : CacheCall F → List (Value F)
  | .push value => pending ++ [value]
  | .pushBatch values => pending ++ values
  | .drain => []
  | .other _ => pending

/-- What the drains of a list return, when `pending` has been pushed before. -/
def drains (pending : List (Value F)) : List (CacheCall F) → List (List (Value F))
  | [] => []
  | .drain :: calls => pending :: drains [] calls
  | call :: calls => drains (call.after pending) calls

end CacheCall

namespace PartitionCache

/-- The calls in order, with what the drains return. -/
def runCalls (host : Host F) : PartitionCache F → List (CacheCall F) →
    Action (List (List (Value F)) × PartitionCache F)
  | cache, [] => return ([], cache)
  | cache, .push value :: calls => do
      let cache ← cache.push host value
      runCalls host cache calls
  | cache, .pushBatch values :: calls => do
      let cache ← cache.pushBatch host values
      runCalls host cache calls
  | cache, .drain :: calls => do
      let (values, cache) ← cache.drain host
      let (more, cache) ← runCalls host cache calls
      return (values :: more, cache)
  | cache, .other op :: calls => do
      let _ ← Exec.perform op
      runCalls host cache calls

/-- The cache with the value in its buffer. -/
def grown (host : Host F) (cache : PartitionCache F) (value : Value F) : PartitionCache F :=
  { cache with
    inMemoryBytes := cache.inMemoryBytes + estimateSize host value
    recordCount := cache.recordCount + 1
    inMemory := cache.inMemory ++ [value] }

theorem push_eq (host : Host F) (cache : PartitionCache F) (value : Value F) :
    cache.push host value = maybeSpill host (cache.grown host value) := rfl

/-- The cache holds the values: the first ones are the content of its spill file,
the others in memory. -/
def Holds (host : Host F) (values : List (Value F)) (cache : PartitionCache F) (files : Files) :
    Prop :=
  ∃ onDisk, values = onDisk ++ cache.inMemory ∧
    match cache.spilledFile with
    | none => onDisk = [] ∧ files.lookup cache.spillPath = none
    | some _ => onDisk ≠ [] ∧ files.lookup cache.spillPath = some (host.jsonLines onDisk)

section

variable {host : Host F} {values : List (Value F)} {cache : PartitionCache F} {files : Files}

theorem holds_new (limitBytes : Nat) {spillPath : Path} (h : files.lookup spillPath = none) :
    Holds host [] (new limitBytes spillPath) files :=
  ⟨[], rfl, rfl, h⟩

theorem spillToDisk_holds (h : Holds host values cache files) :
    ∃ cache' files', cache.spillToDisk host files = (.ok cache', files') ∧
      Holds host values cache' files' ∧ cache'.spillPath = cache.spillPath := by
  obtain ⟨onDisk, hsplit, hfile⟩ := h
  unfold spillToDisk
  split
  · exact ⟨cache, files, rfl, ⟨onDisk, hsplit, hfile⟩, rfl⟩
  · next hmemory =>
    have hvalues : values ≠ [] := by
      intro hnil
      rw [hsplit, List.append_eq_nil_iff] at hnil
      exact hmemory (by rw [hnil.2]; rfl)
    have hcontent : (files.lookup cache.spillPath).getD [] = host.jsonLines onDisk := by
      cases hspilled : cache.spilledFile with
      | none =>
          rw [hspilled] at hfile
          rw [hfile.1, hfile.2]
          rfl
      | some path =>
          rw [hspilled] at hfile
          rw [hfile.2]
          rfl
    refine ⟨_, _, rfl, ⟨values, (List.append_nil _).symm, hvalues, ?_⟩, rfl⟩
    show (files.insert cache.spillPath _).lookup cache.spillPath = _
    rw [AList.lookup_insert, hcontent, hsplit, Host.jsonLines_append]

theorem grown_holds (h : Holds host values cache files) (value : Value F) :
    Holds host (values ++ [value]) (cache.grown host value) files := by
  obtain ⟨onDisk, hsplit, hfile⟩ := h
  refine ⟨onDisk, ?_, hfile⟩
  show _ = onDisk ++ (cache.inMemory ++ [value])
  rw [hsplit, List.append_assoc]

theorem push_holds (h : Holds host values cache files) (value : Value F) :
    ∃ cache' files', cache.push host value files = (.ok cache', files') ∧
      Holds host (values ++ [value]) cache' files' ∧ cache'.spillPath = cache.spillPath := by
  have hgrown := grown_holds h value
  rw [push_eq, maybeSpill]
  split
  · exact spillToDisk_holds hgrown
  · exact ⟨_, files, rfl, hgrown, rfl⟩

/-- What every push keeps a batch keeps. -/
theorem pushBatch_of_push {I : List (Value F) → PartitionCache F → Files → Prop}
    (hpush : ∀ values cache files value, I values cache files →
      ∃ cache' files', cache.push host value files = (.ok cache', files') ∧
        I (values ++ [value]) cache' files')
    (h : I values cache files) (more : List (Value F)) :
    ∃ cache' files', cache.pushBatch host more files = (.ok cache', files') ∧
      I (values ++ more) cache' files' := by
  induction more generalizing values cache files with
  | nil => exact ⟨cache, files, rfl, by rwa [List.append_nil]⟩
  | cons value more ih =>
      obtain ⟨cache₁, files₁, hrun, hkept⟩ := hpush values cache files value h
      obtain ⟨cache₂, files₂, hbatch, hkept₂⟩ := ih hkept
      refine ⟨cache₂, files₂, ?_, ?_⟩
      · show (cache.push host value >>= fun cache => pushBatch host cache more) files = _
        rw [Exec.bind_apply, hrun]
        exact hbatch
      · rwa [List.append_assoc, List.singleton_append] at hkept₂

theorem pushBatch_holds (h : Holds host values cache files) (more : List (Value F)) :
    ∃ cache' files', cache.pushBatch host more files = (.ok cache', files') ∧
      Holds host (values ++ more) cache' files' ∧ cache'.spillPath = cache.spillPath := by
  apply pushBatch_of_push (I := fun values cache' files =>
    Holds host values cache' files ∧ cache'.spillPath = cache.spillPath)
  · intro values cache₁ files value hheld
    obtain ⟨cache₂, files₂, hpush, hholds, hpath⟩ := push_holds hheld.1 value
    exact ⟨cache₂, files₂, hpush, hholds, hpath.trans hheld.2⟩
  · exact ⟨h, rfl⟩

/-- A drain returns the values and leaves an empty cache without a file. -/
theorem drain_holds (h : Holds host values cache files) (hback : ∀ v ∈ values, host.ReadsBack v) :
    ∃ cache' files', cache.drain host files = (.ok (values, cache'), files') ∧
      Holds host [] cache' files' ∧ cache'.spillPath = cache.spillPath := by
  obtain ⟨onDisk, hsplit, hfile⟩ := h
  have hspill : ∃ files', readSpilled host cache.spilledFile files = (.ok onDisk, files') ∧
      files'.lookup cache.spillPath = none := by
    cases hspilled : cache.spilledFile with
    | none =>
        rw [hspilled] at hfile
        obtain ⟨rfl, hnone⟩ := hfile
        exact ⟨files, rfl, hnone⟩
    | some path =>
        rw [hspilled] at hfile
        obtain rfl := cache.spilled_at path hspilled
        have hread : host.parseLines (lines (host.jsonLines onDisk)) = .ok onDisk :=
          Host.parseLines_jsonLines fun v hv => hback v (hsplit ▸ List.mem_append_left _ hv)
        refine ⟨files.erase cache.spillPath, ?_, AList.lookup_erase _ _⟩
        simp only [readSpilled, Exec.bind_apply, Files.read, Files.readOr_apply, hfile.2,
          Exec.lift_apply, hread, Files.remove_apply, Exec.pure_apply]
  obtain ⟨files', hrun, hnone⟩ := hspill
  refine ⟨cache.emptied values.length, files', ?_, ⟨[], rfl, rfl, hnone⟩, rfl⟩
  show (readSpilled host cache.spilledFile >>= _) files = _
  rw [Exec.bind_apply, hrun, hsplit]
  rfl

/-- An operation on another file is not noticed. -/
theorem Holds.other (h : Holds host values cache files) {op : FileOp}
    (hop : op.path ≠ cache.spillPath) : Holds host values cache (Interp.exec op files).2 := by
  have hlookup := FileOp.exec_lookup_ne hop files
  obtain ⟨onDisk, hsplit, hfile⟩ := h
  refine ⟨onDisk, hsplit, ?_⟩
  rw [hlookup]
  exact hfile

/-- When nothing is pending there is no spill file. -/
theorem Holds.no_file (h : Holds host [] cache files) :
    files.lookup cache.spillPath = none := by
  obtain ⟨onDisk, hsplit, hfile⟩ := h
  have hnil := (List.append_eq_nil_iff.mp hsplit.symm).1
  cases hspilled : cache.spilledFile with
  | none =>
      rw [hspilled] at hfile
      exact hfile.2
  | some path =>
      rw [hspilled] at hfile
      exact absurd hnil hfile.1

/-- One call: what it leaves pending is what the cache holds. -/
theorem runCalls_cons (h : Holds host values cache files) {call : CacheCall F}
    (calls : List (CacheCall F)) (hpending : ∀ v ∈ values, host.ReadsBack v)
    (hother : ∀ op, call = .other op → op.path ≠ cache.spillPath) :
    ∃ cache₁ files₁, Holds host (call.after values) cache₁ files₁ ∧
      cache₁.spillPath = cache.spillPath ∧
      ∀ cache₂ files₂, cache₁.runCalls host calls files₁ =
          (.ok (CacheCall.drains (call.after values) calls, cache₂), files₂) →
        cache.runCalls host (call :: calls) files =
          (.ok (CacheCall.drains values (call :: calls), cache₂), files₂) := by
  cases call with
  | push value =>
      obtain ⟨cache₁, files₁, hpush, hholds, hpath⟩ := push_holds h value
      refine ⟨cache₁, files₁, hholds, hpath, fun cache₂ files₂ hrun => ?_⟩
      show (cache.push host value >>= _) files = _
      rw [Exec.bind_apply, hpush]
      exact hrun
  | pushBatch more =>
      obtain ⟨cache₁, files₁, hpush, hholds, hpath⟩ := pushBatch_holds h more
      refine ⟨cache₁, files₁, hholds, hpath, fun cache₂ files₂ hrun => ?_⟩
      show (cache.pushBatch host more >>= _) files = _
      rw [Exec.bind_apply, hpush]
      exact hrun
  | drain =>
      obtain ⟨cache₁, files₁, hdrain, hholds, hpath⟩ := drain_holds h hpending
      refine ⟨cache₁, files₁, hholds, hpath, fun cache₂ files₂ hrun => ?_⟩
      show (cache.drain host >>= _) files = _
      rw [Exec.bind_apply, hdrain]
      show (cache₁.runCalls host calls >>= _) files₁ = _
      rw [Exec.bind_apply, hrun]
      rfl
  | other op =>
      refine ⟨cache, (Interp.exec op files).2, h.other (hother op rfl), rfl,
        fun cache₂ files₂ hrun => ?_⟩
      rw [runCalls, Exec.bind_apply, Exec.perform_apply]
      exact hrun

/-- A run: the drains return what the list says, and the cache holds what is
pending at the end. -/
theorem runCalls_holds (h : Holds host values cache files) (calls : List (CacheCall F))
    (hpending : ∀ v ∈ values, host.ReadsBack v)
    (hback : ∀ call ∈ calls, ∀ v ∈ call.pushed, host.ReadsBack v)
    (hother : ∀ op, .other op ∈ calls → op.path ≠ cache.spillPath) :
    ∃ cache' files', cache.runCalls host calls files =
        (.ok (CacheCall.drains values calls, cache'), files') ∧
      Holds host (calls.foldl CacheCall.after values) cache' files' ∧
      cache'.spillPath = cache.spillPath := by
  induction calls generalizing values cache files with
  | nil => exact ⟨cache, files, rfl, h, rfl⟩
  | cons call calls ih =>
      rw [List.forall_mem_cons] at hback
      obtain ⟨cache₁, files₁, hholds, hpath, hcons⟩ := runCalls_cons h calls hpending
        fun op hop => hother op (hop ▸ List.mem_cons_self)
      have hafter : ∀ v ∈ call.after values, host.ReadsBack v := by
        cases call with
        | push value => exact List.forall_mem_append.mpr ⟨hpending, hback.1⟩
        | pushBatch more => exact List.forall_mem_append.mpr ⟨hpending, hback.1⟩
        | drain => exact fun v hv => absurd hv List.not_mem_nil
        | other op => exact hpending
      have hother₁ : ∀ op, .other op ∈ calls → op.path ≠ cache₁.spillPath := by
        intro op hop
        rw [hpath]
        exact hother op (List.mem_cons_of_mem _ hop)
      obtain ⟨cache₂, files₂, hrun, hholds₂, hpath₂⟩ := ih hholds hafter hback.2 hother₁
      exact ⟨cache₂, files₂, hcons cache₂ files₂ hrun, hholds₂, hpath₂.trans hpath⟩

end

/-- A new cache without a file at its path returns, drain by drain, the values
pushed since the last one, and after a drain there is no spill file. -/
theorem new_runCalls (host : Host F) (limitBytes : Nat) (spillPath : Path) {files : Files}
    (hfresh : files.lookup spillPath = none) (calls : List (CacheCall F))
    (hback : ∀ call ∈ calls, ∀ v ∈ call.pushed, host.ReadsBack v)
    (hother : ∀ op, .other op ∈ calls → op.path ≠ spillPath) :
    ∃ cache files', (new limitBytes spillPath).runCalls host calls files =
        (.ok (CacheCall.drains [] calls, cache), files') ∧
      (calls.getLast? = some .drain → files'.lookup spillPath = none) := by
  obtain ⟨cache, files', hrun, hholds, hpath⟩ := runCalls_holds
    (holds_new limitBytes hfresh) calls (fun v hv => absurd hv List.not_mem_nil) hback hother
  refine ⟨cache, files', hrun, fun hlast => ?_⟩
  obtain ⟨calls', rfl⟩ := List.getLast?_eq_some_iff.mp hlast
  rw [List.foldl_append] at hholds
  have hnone := Holds.no_file hholds
  rwa [hpath] at hnone

def someCalls : List (CacheCall Int) :=
  [.push (.string "a"), .other (.write ["part"] []), .pushBatch [.null, .string "a"], .drain,
    .push (.bool true), .drain]

/-- A cache that spills at every push. -/
theorem new_runCalls_spilling :
    ∃ cache files', (new 0 ["spill"]).runCalls (Host.plain [.string "a", .null, .bool true])
        someCalls ∅ =
        (.ok ([[.string "a", .null, .string "a"], [.bool true]], cache), files') ∧
      files'.lookup ["spill"] = none := by
  have hother : ∀ op, .other op ∈ someCalls → op.path ≠ ["spill"] := by
    intro op hop
    have hwrite : op = .write ["part"] [] := by simpa [someCalls] using hop
    rw [hwrite]
    decide
  have hfresh : (∅ : Files).lookup ["spill"] = none := rfl
  obtain ⟨cache, files', hrun, hlast⟩ := new_runCalls
    (Host.plain [.string "a", .null, .bool true]) 0 ["spill"] hfresh someCalls (by decide +kernel)
    hother
  exact ⟨cache, files', hrun, hlast rfl⟩

end PartitionCache
end ProcessingEngine

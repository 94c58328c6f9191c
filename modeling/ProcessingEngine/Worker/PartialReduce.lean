import ProcessingEngine.Lib.Fold
import ProcessingEngine.Worker.GroupBy

/-!
# Reducing slice by slice

The tasks of a job reduce one slice each.  With exact numbers the values of the
slices can be combined to the value of the whole list for a count, a sum and a
collection.  A slice without numbers yields zero, which for a minimum or a maximum
is right only when a number of the list is on that side of zero
(`execute_recombine_iff`).
-/

namespace ProcessingEngine

open Lib
open PartitionCache (Filled)

variable {F : Type}

/-- The numbers are exact: the operations on floats are those of an ordered
monoid, and JSON keeps every number. -/
structure Host.Exact [AddCommMonoid F] [LinearOrder F] (host : Host F) : Prop where
  zero : host.zero = 0
  add : host.add = fun a b => a + b
  min : host.min = fun a b => Min.min a b
  max : host.max = fun a b => Max.max a b
  fromF64 : ∀ x, host.fromF64 x = some (.float x)
  asF64 : ∀ x, host.asF64 (.float x) = some x

namespace ReducerKind

/-- The numbers that a reducer with the field takes from the records. -/
def numbers (host : Host F) (field : Option String) (records : List (Record F)) : List F :=
  records.filterMap fun r => extractNumber host r field

theorem foldl_seen (host : Host F) (field : Option String) (f : F → F → F)
    (records : List (Record F)) (acc : F) {seen : Nat} (hseen : seen ≠ 0) :
    records.foldl (fun (acc, seen) r =>
        match extractNumber host r field with
        | some n => (if seen = 0 then n else f acc n, seen + 1)
        | none => (acc, seen)) (acc, seen) =
      ((numbers host field records).foldl f acc, seen + (numbers host field records).length) := by
  induction records generalizing acc seen with
  | nil => rfl
  | cons r records ih =>
      rw [List.foldl_cons, numbers, List.filterMap_cons]
      cases extractNumber host r field with
      | none => exact ih acc hseen
      | some n =>
          simp only [if_neg hseen]
          rw [ih (f acc n) (Nat.succ_ne_zero seen), List.foldl_cons, List.length_cons, numbers]
          apply Prod.ext
          · rfl
          · show seen + 1 + _ = seen + (_ + 1)
            omega

/-- The fold of the numbers starts with the first one. -/
theorem foldNumeric_eq (host : Host F) (records : List (Record F)) (field : Option String)
    (f : F → F → F) :
    foldNumeric host records field f =
      (foldFirst f host.zero (numbers host field records),
        (numbers host field records).length) := by
  rw [foldNumeric]
  induction records with
  | nil => rfl
  | cons r records ih =>
      rw [List.foldl_cons, numbers, List.filterMap_cons]
      cases extractNumber host r field with
      | none => exact ih
      | some n =>
          refine (foldl_seen host field f records n (Nat.succ_ne_zero 0)).trans ?_
          rw [List.length_cons, foldFirst, numbers, Nat.add_comm]

/-- The result of a numeric reducer. -/
theorem value_numeric {host : Host F} (hfrom : ∀ x, host.fromF64 x = some (.float x))
    (name : String) (field : Option String) (f : F → F → F) (records : List (Record F)) :
    ((numericResult host name field (foldNumeric host records field f)).get
        (resultKey name field)).getD .null =
      .number (.float (foldFirst f host.zero (numbers host field records))) := by
  rw [foldNumeric_eq, numericResult]
  simp only [Value.get, Fields.get, if_pos, hfrom, Option.getD_some]
  split
  · next hzero =>
    rw [List.length_eq_zero_iff.mp hzero]
    rfl
  · rfl

/-! ### Combining values -/

def intOf : Value F → Int
  | .number (.int i) => i
  | _ => 0

def floatOf (host : Host F) : Value F → F
  | .number n => (host.asF64 n).getD host.zero
  | _ => host.zero

/-- The values of the slices, combined with the reducer's own operation. -/
def recombine (host : Host F) (reducer : ReducerKind) (values : List (Value F)) : Value F :=
  match reducer with
  | .count => .number (.int (values.map intOf).sum)
  | .collect => .array (values.flatMap fun v => v.asArray.getD [])
  | .sum _ => .number (.float (foldFirst host.add host.zero (values.map (floatOf host))))
  | .min _ => .number (.float (foldFirst host.min host.zero (values.map (floatOf host))))
  | .max _ => .number (.float (foldFirst host.max host.zero (values.map (floatOf host))))

/-- A minimum or a maximum is taken of at least one number. -/
def HasNumber (host : Host F) (reducer : ReducerKind) (records : List (Record F)) : Prop :=
  match reducer with
  | .min field => ∃ r ∈ records, (extractNumber host r field).isSome
  | .max field => ∃ r ∈ records, (extractNumber host r field).isSome
  | _ => True

/-- Zero does no harm as the value of a slice without numbers: there is none, or
a number of the list is at least as good. -/
def ZeroHarmless [LE F] (host : Host F) (reducer : ReducerKind)
    (slices : List (List (Record F))) : Prop :=
  match reducer with
  | .min field =>
      (∀ slice ∈ slices, ∃ r ∈ slice, (extractNumber host r field).isSome) ∨
        ∃ r ∈ slices.flatten, ∃ x, extractNumber host r field = some x ∧ x ≤ host.zero
  | .max field =>
      (∀ slice ∈ slices, ∃ r ∈ slice, (extractNumber host r field).isSome) ∨
        ∃ r ∈ slices.flatten, ∃ x, extractNumber host r field = some x ∧ host.zero ≤ x
  | _ => True

section

variable {host : Host F} {slices : List (List (Record F))}

theorem numbers_flatten (field : Option String) :
    (slices.map (numbers host field)).flatten = numbers host field slices.flatten := by
  rw [numbers, List.filterMap_flatten]
  rfl

theorem numbers_ne_nil_iff {field : Option String} {records : List (Record F)} :
    numbers host field records ≠ [] ↔ ∃ r ∈ records, (extractNumber host r field).isSome := by
  rw [numbers, ne_eq, List.filterMap_eq_nil_iff]
  simp only [not_forall, exists_prop, ← ne_eq, Option.isSome_iff_ne_none]

theorem mem_numbers_iff {field : Option String} {records : List (Record F)} {p : F → Prop} :
    (∃ x ∈ numbers host field records, p x) ↔
      ∃ r ∈ records, ∃ x, extractNumber host r field = some x ∧ p x := by
  simp only [numbers, List.mem_filterMap]
  constructor
  · intro h
    obtain ⟨x, ⟨r, hr, hx⟩, hp⟩ := h
    exact ⟨r, hr, x, hx, hp⟩
  · intro h
    obtain ⟨r, hr, x, hx, hp⟩ := h
    exact ⟨x, ⟨r, hr, hx⟩, hp⟩

theorem forall_slices_iff {field : Option String} :
    [] ∉ slices.map (numbers host field) ↔
      ∀ slice ∈ slices, ∃ r ∈ slice, (extractNumber host r field).isSome := by
  simp only [List.mem_map, not_exists, not_and, ← numbers_ne_nil_iff, ne_eq]

variable [AddCommMonoid F] [LinearOrder F]

theorem floatOf_values (hexact : host.Exact) {f : F → F → F} {field : Option String}
    {values : List (Record F) → Value F}
    (hvalues : ∀ records,
      values records = .number (.float (foldFirst f host.zero (numbers host field records)))) :
    (slices.map values).map (floatOf host) =
      (slices.map (numbers host field)).map (foldFirst f host.zero) := by
  rw [List.map_map, List.map_map]
  apply List.map_congr_left
  intro slice _
  show floatOf host (values slice) = _
  rw [hvalues, floatOf, hexact.asF64]
  rfl

/-- A minimum or a maximum, slice by slice. -/
theorem choose_iff (hexact : host.Exact) {better : F → F → Prop} {f : F → F → F}
    (hf : Chooses better f) {field : Option String} (values : List (Record F) → Value F)
    (hvalues : ∀ records,
      values records = .number (.float (foldFirst f host.zero (numbers host field records))))
    (hsome : ∃ r ∈ slices.flatten, (extractNumber host r field).isSome) :
    .number (.float (foldFirst f host.zero ((slices.map values).map (floatOf host)))) =
        values slices.flatten ↔
      (∀ slice ∈ slices, ∃ r ∈ slice, (extractNumber host r field).isSome) ∨
        ∃ r ∈ slices.flatten, ∃ x, extractNumber host r field = some x ∧ better x host.zero := by
  have hne : (slices.map (numbers host field)).flatten ≠ [] := by
    rw [numbers_flatten]
    exact numbers_ne_nil_iff.mpr hsome
  have hiff := hf.best_slices_iff host.zero hne
  rw [numbers_flatten, forall_slices_iff, mem_numbers_iff] at hiff
  rw [floatOf_values hexact hvalues, hvalues, ← hiff]
  simp

/-- The value of the whole list is the combination of the values of its slices
exactly when zero does no harm. -/
theorem recombine_iff (hexact : host.Exact) (reducer : ReducerKind)
    (slices : List (List (Record F))) (hsome : reducer.HasNumber host slices.flatten) :
    reducer.recombine host (slices.map (reducer.value host)) =
        reducer.value host slices.flatten ↔ reducer.ZeroHarmless host slices := by
  cases reducer with
  | count =>
      have hvalue : ∀ records : List (Record F),
          value host .count records = .number (.int records.length) := fun records => rfl
      refine iff_of_true ?_ trivial
      rw [recombine, hvalue, List.map_map, List.length_flatten]
      induction slices with
      | nil => rfl
      | cons slice slices ih =>
          have ih := ih trivial
          simp only [Value.number.injEq, Number.int.injEq] at ih ⊢
          rw [List.map_cons, List.sum_cons, List.map_cons, List.sum_cons, ih, Nat.cast_add]
          rfl
  | collect =>
      refine iff_of_true ?_ trivial
      rw [recombine, List.flatMap_map]
      show Value.array (slices.flatMap id) = Value.array slices.flatten
      rw [List.flatMap_id]
  | sum field =>
      have hvalues : ∀ records, value host (.sum field) records =
          .number (.float (foldFirst host.add host.zero (numbers host field records))) :=
        value_numeric hexact.fromF64 "sum" field host.add
      refine iff_of_true ?_ trivial
      rw [recombine, floatOf_values hexact hvalues, hvalues, hexact.add, hexact.zero,
        foldFirst_add_slices, numbers_flatten]
  | min field =>
      have hvalues : ∀ records, value host (.min field) records =
          .number (.float (foldFirst host.min host.zero (numbers host field records))) :=
        value_numeric hexact.fromF64 "min" field host.min
      have hmin : Chooses (fun a b : F => a ≤ b) host.min := by
        rw [hexact.min]
        exact chooses_min
      exact choose_iff hexact hmin _ hvalues hsome
  | max field =>
      have hvalues : ∀ records, value host (.max field) records =
          .number (.float (foldFirst host.max host.zero (numbers host field records))) :=
        value_numeric hexact.fromF64 "max" field host.max
      have hmax : Chooses (fun a b : F => b ≤ a) host.max := by
        rw [hexact.max]
        exact chooses_max
      exact choose_iff hexact hmax _ hvalues hsome

end
end ReducerKind

namespace ReduceOp

open ReducerKind (HasNumber ZeroHarmless recombine)

/-- What the operator yields on partitions, one of them at least. -/
theorem execute_of_drained {host : Host F} {op : ReduceOp} {reducer : ReducerKind}
    (hparse : ReducerKind.parse op.reducer = .ok reducer) {partitions : List (PartitionData F)}
    (hne : partitions ≠ []) {records : List (Record F)} {files files' : Files}
    (hdrain : drainPartitions host partitions files = (.ok records, files')) :
    ∃ partition after, op.execute host partitions files = (.ok [partition], after) ∧
      Filled host files' [.object [(reducer.resultField, reducer.value host records)]]
        partition.cache after := by
  cases partitions with
  | nil => exact absurd rfl hne
  | cons first rest =>
      obtain ⟨partition, after, hfrom, hfilled, -⟩ := PartitionData.fromRecords_filled host
        first.partitionId first.limitBytes first.spillPath
        [.object [(reducer.resultField, reducer.value host records)]] files'
      refine ⟨partition, after, ?_, hfilled⟩
      unfold ReduceOp.execute
      rw [hparse]
      show (drainPartitions host (first :: rest) >>= _) files = _
      rw [Exec.bind_apply, hdrain]
      simp only [ReducerKind.applyReducer_eq]
      show (PartitionData.fromRecords host _ _ _ _ >>= _) files' = _
      rw [Exec.bind_apply, hfrom]
      rfl

/-- The values that the operator yields on the slices of a list can be combined to
the one it yields on the list, exactly when zero does no harm. -/
theorem execute_recombine_iff [AddCommMonoid F] [LinearOrder F] {host : Host F}
    (hexact : host.Exact) (op : ReduceOp) {reducer : ReducerKind}
    (hparse : ReducerKind.parse op.reducer = .ok reducer) :
    (∀ partitions records files files', partitions ≠ [] →
      drainPartitions host partitions files = (.ok records, files') →
      ∃ partition after, op.execute host partitions files = (.ok [partition], after) ∧
        Filled host files' [.object [(reducer.resultField, reducer.value host records)]]
          partition.cache after) ∧
    ∀ slices : List (List (Record F)), reducer.HasNumber host slices.flatten →
      (recombine host reducer (slices.map (reducer.value host)) =
          reducer.value host slices.flatten ↔ ZeroHarmless host reducer slices) :=
  ⟨fun _ _ _ _ hne hdrain => execute_of_drained hparse hne hdrain,
    fun slices hsome => ReducerKind.recombine_iff hexact reducer slices hsome⟩

theorem plain_exact : (Host.plain []).Exact where
  zero := rfl
  add := rfl
  min := rfl
  max := rfl
  fromF64 := fun _ => rfl
  asF64 := fun _ => rfl

def priced (price : Int) : Record Int := .object [("price", .number (.int price))]

theorem execute_recombine_iff_prices :
    recombine (Host.plain []) (.max (some "price"))
        ([[priced 3], [], [priced 8, .null]].map ((ReducerKind.max (some "price")).value
          (Host.plain []))) =
      (ReducerKind.max (some "price")).value (Host.plain []) [priced 3, priced 8, .null] := by
  have hsome : (ReducerKind.max (some "price")).HasNumber (Host.plain [])
      [[priced 3], [], [priced 8, .null]].flatten :=
    ⟨priced 3, by decide, by decide⟩
  have hharmless : ZeroHarmless (Host.plain []) (.max (some "price"))
      [[priced 3], [], [priced 8, .null]] :=
    Or.inr ⟨priced 3, by decide, 3, by decide, by decide⟩
  exact ((execute_recombine_iff plain_exact ⟨"max:price"⟩ rfl).2 _ hsome).mpr hharmless

/-- The smallest price is 3, and the slice without records claims it is 0. -/
theorem empty_slice_takes_minimum :
    (ReducerKind.min (some "price")).HasNumber (Host.plain []) [[priced 3], []].flatten ∧
      recombine (Host.plain []) (.min (some "price"))
          ([[priced 3], []].map ((ReducerKind.min (some "price")).value (Host.plain []))) ≠
        (ReducerKind.min (some "price")).value (Host.plain []) [[priced 3], []].flatten :=
  ⟨⟨priced 3, by decide, by decide⟩, by decide⟩

end ReduceOp
end ProcessingEngine

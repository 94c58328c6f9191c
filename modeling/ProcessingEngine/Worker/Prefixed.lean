import ProcessingEngine.Worker.Join

/-!
# The records of a join

A combined record has the fields of its two sides under the prefixes `left_` and
`right_`; a record without partner has the marker `right_missing` or
`left_missing` instead of the other side.  The fields of each side can be read
off (`get_combineRecords_left` and the lemmas after it), and the value at the join
key, which is never null, tells a side from a marker.
-/

namespace ProcessingEngine
namespace JoinOp

open Lib

variable {F : Type}

/-- A value that `extract_key` takes. -/
def isKey : Value F → Bool
  | .string _ => true
  | .number _ => true
  | _ => false

/-- A map that a side of a join may have: a string or a number at the key. -/
structure Side (key : String) (obj : Fields F) : Prop where
  sorted : Fields.Sorted obj
  key : ∃ v, Fields.get key obj = some v ∧ isKey v = true

theorem extractKey_ok_iff {host : Host F} {obj : Fields F} {key : String} :
    (∃ k, extractKey host obj key = .ok k) ↔
      ∃ v, Fields.get key obj = some v ∧ isKey v = true := by
  unfold extractKey
  cases hget : Fields.get key obj with
  | none => simp
  | some v => cases v <;> simp [isKey]

/-! ### Names with a prefix -/

theorem left_ne_right (a b : String) : "left_" ++ a ≠ "right_" ++ b := by
  intro h
  have hchars := congrArg String.toList h
  rw [String.toList_append, String.toList_append] at hchars
  have hhead := congrArg List.head? hchars
  exact absurd hhead (by simp)

theorem missing_right : "right_missing" = "right_" ++ "missing" := by decide

theorem missing_left : "left_missing" = "left_" ++ "missing" := by decide

theorem prefixFields_eq (obj : Fields F) (pre : String) :
    prefixFields obj pre =
      obj.foldl (fun out f => Fields.insert (pre ++ f.1) f.2 out) [] := rfl

theorem get_prefixFields {obj : Fields F} (h : Fields.Sorted obj) (pre k : String) :
    Fields.get (pre ++ k) (prefixFields obj pre) = Fields.get k obj := by
  have hinj : ∀ a b, pre ++ a = pre ++ b → a = b := fun a b => (String.append_right_inj pre).mp
  have hget := Fields.get_foldl_insert (fun a => pre ++ a) hinj h k []
  rw [prefixFields_eq, hget, Fields.get_nil, Option.or_none]

theorem get_prefixFields_ne {pre key : String} (hkey : ∀ k, key ≠ pre ++ k) (obj : Fields F) :
    Fields.get key (prefixFields obj pre) = none := by
  rw [prefixFields_eq]
  exact Fields.get_foldl_insert_ne (fun a => pre ++ a) hkey obj []

/-! ### Reading a side off a record -/

section

variable {l r : Fields F}

theorem get_combineRecords_left (hl : Fields.Sorted l) (r : Fields F) (k : String) :
    Fields.get ("left_" ++ k) (combineRecords l r) = Fields.get k l := by
  rw [combineRecords, Fields.get_insertAll, get_prefixFields_ne (left_ne_right k),
    get_prefixFields hl]
  rfl

theorem get_combineRecords_right (hr : Fields.Sorted r) (l : Fields F) (k : String) :
    Fields.get ("right_" ++ k) (combineRecords l r) = Fields.get k r := by
  rw [combineRecords, Fields.get_insertAll, get_prefixFields hr,
    get_prefixFields_ne fun k' => (left_ne_right k' k).symm, Option.or_none]

theorem get_combineLeftOnly_left (hl : Fields.Sorted l) (k : String) :
    Fields.get ("left_" ++ k) (combineLeftOnly l) = Fields.get k l := by
  have hne : "left_" ++ k ≠ "right_missing" := by
    rw [missing_right]
    exact left_ne_right k "missing"
  rw [combineLeftOnly, Fields.get_insert_ne hne, get_prefixFields hl]

/-- A left-only record has no right field but the marker. -/
theorem get_combineLeftOnly_right (l : Fields F) (k : String) :
    Fields.get ("right_" ++ k) (combineLeftOnly l) = if k = "missing" then some .null else none := by
  by_cases hk : k = "missing"
  · rw [if_pos hk, hk, ← missing_right, combineLeftOnly, Fields.get_insert_self]
  · have hne : "right_" ++ k ≠ "right_missing" := by
      rw [missing_right]
      exact fun e => hk ((String.append_right_inj _).mp e)
    rw [if_neg hk, combineLeftOnly, Fields.get_insert_ne hne,
      get_prefixFields_ne fun k' => (left_ne_right k' k).symm]

theorem get_combineRightOnly_right (hr : Fields.Sorted r) (k : String) :
    Fields.get ("right_" ++ k) (combineRightOnly r) = Fields.get k r := by
  have hne : "right_" ++ k ≠ "left_missing" := by
    rw [missing_left]
    exact (left_ne_right "missing" k).symm
  rw [combineRightOnly, Fields.get_insert_ne hne, get_prefixFields hr]

theorem get_combineRightOnly_left (r : Fields F) (k : String) :
    Fields.get ("left_" ++ k) (combineRightOnly r) = if k = "missing" then some .null else none := by
  by_cases hk : k = "missing"
  · rw [if_pos hk, hk, ← missing_left, combineRightOnly, Fields.get_insert_self]
  · have hne : "left_" ++ k ≠ "left_missing" := by
      rw [missing_left]
      exact fun e => hk ((String.append_right_inj _).mp e)
    rw [if_neg hk, combineRightOnly, Fields.get_insert_ne hne,
      get_prefixFields_ne (left_ne_right k)]

/-- The markers are null, the value at a key is not. -/
theorem Side.get_ne_marker {key : String} {obj : Fields F} (h : Side key obj) :
    Fields.get key obj ≠ if key = "missing" then some .null else none := by
  obtain ⟨v, hv, hkey⟩ := h.key
  rw [hv]
  split
  · intro e
    cases e
    cases hkey
  · intro e
    cases e

end

/-! ### What a record says -/

section

variable {l l' r r' : Fields F} {key : String}

theorem combineRecords_inj (hl : Fields.Sorted l) (hl' : Fields.Sorted l')
    (hr : Fields.Sorted r) (hr' : Fields.Sorted r') :
    combineRecords l r = combineRecords l' r' ↔ l = l' ∧ r = r' := by
  constructor
  · intro h
    constructor
    · apply hl.ext hl'
      intro k
      rw [← get_combineRecords_left hl r, h, get_combineRecords_left hl']
    · apply hr.ext hr'
      intro k
      rw [← get_combineRecords_right hr l, h, get_combineRecords_right hr']
  · intro h
    rw [h.1, h.2]

theorem combineLeftOnly_inj (hl : Fields.Sorted l) (hl' : Fields.Sorted l') :
    combineLeftOnly l = combineLeftOnly l' ↔ l = l' := by
  constructor
  · intro h
    apply hl.ext hl'
    intro k
    rw [← get_combineLeftOnly_left hl, h, get_combineLeftOnly_left hl']
  · exact congrArg combineLeftOnly

theorem combineRightOnly_inj (hr : Fields.Sorted r) (hr' : Fields.Sorted r') :
    combineRightOnly r = combineRightOnly r' ↔ r = r' := by
  constructor
  · intro h
    apply hr.ext hr'
    intro k
    rw [← get_combineRightOnly_right hr, h, get_combineRightOnly_right hr']
  · exact congrArg combineRightOnly

theorem combineRecords_ne_combineLeftOnly (hr : Side key r) (l l' : Fields F) :
    combineRecords l r ≠ combineLeftOnly l' := by
  intro h
  apply hr.get_ne_marker
  rw [← get_combineRecords_right hr.sorted l, h, get_combineLeftOnly_right]

theorem combineRecords_ne_combineRightOnly (hl : Side key l) (r r' : Fields F) :
    combineRecords l r ≠ combineRightOnly r' := by
  intro h
  apply hl.get_ne_marker
  rw [← get_combineRecords_left hl.sorted r, h, get_combineRightOnly_left]

theorem combineLeftOnly_ne_combineRightOnly (hl : Side key l) (r : Fields F) :
    combineLeftOnly l ≠ combineRightOnly r := by
  intro h
  apply hl.get_ne_marker
  rw [← get_combineLeftOnly_left hl.sorted, h, get_combineRightOnly_left]

/-- The records of a join determine their sides and their kind. -/
theorem combinations_unambiguous (hl : Side key l) (hl' : Side key l') (hr : Side key r)
    (hr' : Side key r') :
    (combineRecords l r = combineRecords l' r' ↔ l = l' ∧ r = r') ∧
      (combineLeftOnly l = combineLeftOnly l' ↔ l = l') ∧
      (combineRightOnly r = combineRightOnly r' ↔ r = r') ∧
      combineRecords l r ≠ combineLeftOnly l' ∧ combineRecords l r ≠ combineRightOnly r' ∧
      combineLeftOnly l ≠ combineRightOnly r :=
  ⟨combineRecords_inj hl.sorted hl'.sorted hr.sorted hr'.sorted,
    combineLeftOnly_inj hl.sorted hl'.sorted, combineRightOnly_inj hr.sorted hr'.sorted,
    combineRecords_ne_combineLeftOnly hr l l', combineRecords_ne_combineRightOnly hl r r',
    combineLeftOnly_ne_combineRightOnly hl r⟩

end

/-- Two records with a field called `missing`, one of them with it as the key. -/
theorem combinations_unambiguous_missing :
    combineRecords ([("missing", .string "a")] : Fields Int) [("missing", .number (.int 1))] ≠
      combineLeftOnly [("left_missing", .null), ("missing", .string "a")] := by
  have hl : Side "missing" ([("missing", .string "a")] : Fields Int) :=
    ⟨by simp [Fields.Sorted], .string "a", rfl, rfl⟩
  have hl' : Side "missing" ([("left_missing", .null), ("missing", .string "a")] : Fields Int) :=
    ⟨List.pairwise_pair.mpr (by decide), .string "a", rfl, rfl⟩
  have hr : Side "missing" ([("missing", .number (.int 1))] : Fields Int) :=
    ⟨by simp [Fields.Sorted], .number (.int 1), rfl, rfl⟩
  exact (combinations_unambiguous hl hl' hr hr).2.2.2.1

end JoinOp
end ProcessingEngine

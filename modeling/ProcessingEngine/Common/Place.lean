import ProcessingEngine.Common.Value
import Mathlib.Data.List.Infix

/-!
# Places in a JSON value

A place is the list of steps from a value down to one of its parts, and
`Value.part` is what stands there.  The leaves of a value are its parts that are
no arrays and no objects, from left to right.
-/

namespace ProcessingEngine

/-- A step from an array or an object into one of its parts. -/
inductive PlaceStep where
  | element (i : Nat)
  | field (i : Nat) (key : String)
  deriving DecidableEq, Repr

abbrev Place := List PlaceStep

/-- The constructors of `Value`. -/
inductive Kind where
  | null
  | bool
  | number
  | string
  | array
  | object
  deriving DecidableEq, Repr

namespace Value

variable {F : Type}

def kind : Value F → Kind
  | .null => .null
  | .bool _ => .bool
  | .number _ => .number
  | .string _ => .string
  | .array _ => .array
  | .object _ => .object

def isLeaf : Value F → Bool
  | .array _ => false
  | .object _ => false
  | _ => true

/-- The part of an array or an object that a step leads to. -/
def child : PlaceStep → Value F → Option (Value F)
  | .element i, .array elements => elements[i]?
  | .field i key, .object fields => (fields[i]?.filter fun f => f.1 == key).map Prod.snd
  | _, _ => none

/-- The value at a place. -/
def part : Place → Value F → Option (Value F)
  | [], v => some v
  | step :: place, v => (v.child step).bind (part place)

mutual
/-- The leaves from left to right. -/
def leaves : Value F → List (Value F)
  | .array elements => leavesElements elements
  | .object fields => leavesFields fields
  | .null => [.null]
  | .bool b => [.bool b]
  | .number n => [.number n]
  | .string s => [.string s]

def leavesElements : List (Value F) → List (Value F)
  | [] => []
  | v :: vs => v.leaves ++ leavesElements vs

def leavesFields : Fields F → List (Value F)
  | [] => []
  | (_, v) :: rest => v.leaves ++ leavesFields rest
end

theorem leaves_of_isLeaf {v : Value F} (h : v.isLeaf = true) : v.leaves = [v] := by
  cases v with
  | array | object => cases h
  | _ => rfl

theorem leavesElements_eq (vs : List (Value F)) : leavesElements vs = vs.flatMap leaves := by
  induction vs with
  | nil => rfl
  | cons v vs ih => rw [leavesElements, ih, List.flatMap_cons]

theorem leavesFields_eq (fields : Fields F) :
    leavesFields fields = (fields.map Prod.snd).flatMap leaves := by
  induction fields with
  | nil => rfl
  | cons f rest ih => rw [leavesFields, ih, List.map_cons, List.flatMap_cons]

theorem child_field (i : Nat) (key : String) (fields : Fields F) :
    child (.field i key) (.object fields) =
      (fields[i]?.filter fun f => f.1 == key).map Prod.snd := rfl

theorem part_cons (step : PlaceStep) (place : Place) (v : Value F) :
    part (step :: place) v = (v.child step).bind (part place) := rfl

theorem child_of_isLeaf {v : Value F} (h : v.isLeaf = true) (step : PlaceStep) :
    v.child step = none := by
  cases v with
  | array | object => cases h
  | _ => cases step <;> rfl

theorem leaves_subset_of_child {step : PlaceStep} {v w : Value F} (h : v.child step = some w) :
    w.leaves ⊆ v.leaves := by
  cases v with
  | array elements =>
      cases step with
      | element i =>
          show w.leaves ⊆ leavesElements elements
          rw [leavesElements_eq]
          exact fun x hx => List.mem_flatMap.mpr ⟨w, List.mem_of_getElem? h, hx⟩
      | field i key => cases h
  | object fields =>
      cases step with
      | element i => cases h
      | field i key =>
          rw [child_field, Option.map_eq_some_iff] at h
          obtain ⟨f, hf, rfl⟩ := h
          rw [Option.filter_eq_some_iff] at hf
          show f.2.leaves ⊆ leavesFields fields
          rw [leavesFields_eq]
          have hmem := List.mem_map_of_mem (f := Prod.snd) (List.mem_of_getElem? hf.1)
          exact fun x hx => List.mem_flatMap.mpr ⟨f.2, hmem, hx⟩
  | _ =>
      rw [child_of_isLeaf rfl] at h
      cases h

/-- The leaves of a value are the leaves at its places. -/
theorem mem_leaves_of_part {place : Place} {v w : Value F} (h : v.part place = some w)
    (hleaf : w.isLeaf = true) : w ∈ v.leaves := by
  induction place generalizing v with
  | nil =>
      cases h
      rw [leaves_of_isLeaf hleaf]
      exact List.mem_singleton_self _
  | cons step place ih =>
      rw [part_cons, Option.bind_eq_some_iff] at h
      obtain ⟨u, hchild, hpart⟩ := h
      exact leaves_subset_of_child hchild (ih hpart)

mutual
theorem exists_part_of_mem_leaves {w : Value F} :
    ∀ v : Value F, w ∈ v.leaves → w.isLeaf = true ∧ ∃ place, v.part place = some w
  | .null, h | .bool _, h | .number _, h | .string _, h => by
      obtain rfl := List.mem_singleton.mp h
      exact ⟨rfl, [], rfl⟩
  | .array elements, h => by
      obtain ⟨hleaf, i, place, hplace⟩ := exists_part_of_mem_leavesElements elements h
      exact ⟨hleaf, .element i :: place, hplace⟩
  | .object fields, h => by
      obtain ⟨hleaf, i, key, place, hplace⟩ := exists_part_of_mem_leavesFields fields h
      exact ⟨hleaf, .field i key :: place, hplace⟩

theorem exists_part_of_mem_leavesElements {w : Value F} :
    ∀ vs : List (Value F), w ∈ leavesElements vs →
      w.isLeaf = true ∧ ∃ (i : Nat) (place : Place), vs[i]?.bind (part place) = some w
  | v :: vs, h => by
      rcases List.mem_append.mp h with h | h
      · obtain ⟨hleaf, place, hplace⟩ := exists_part_of_mem_leaves v h
        exact ⟨hleaf, 0, place, hplace⟩
      · obtain ⟨hleaf, i, place, hplace⟩ := exists_part_of_mem_leavesElements vs h
        exact ⟨hleaf, i + 1, place, hplace⟩

theorem exists_part_of_mem_leavesFields {w : Value F} :
    ∀ fields : Fields F, w ∈ leavesFields fields →
      w.isLeaf = true ∧ ∃ (i : Nat) (key : String) (place : Place),
        ((fields[i]?.filter fun f => f.1 == key).map Prod.snd).bind (part place) = some w
  | (k, v) :: rest, h => by
      rcases List.mem_append.mp h with h | h
      · obtain ⟨hleaf, place, hplace⟩ := exists_part_of_mem_leaves v h
        refine ⟨hleaf, 0, k, place, ?_⟩
        simp [Option.filter, hplace]
      · obtain ⟨hleaf, i, key, place, hplace⟩ := exists_part_of_mem_leavesFields rest h
        exact ⟨hleaf, i + 1, key, place, hplace⟩
end

theorem mem_leaves_iff {v w : Value F} :
    w ∈ v.leaves ↔ w.isLeaf = true ∧ ∃ place, v.part place = some w := by
  constructor
  · exact exists_part_of_mem_leaves v
  · intro h
    obtain ⟨hleaf, place, hplace⟩ := h
    exact mem_leaves_of_part hplace hleaf

end Value
end ProcessingEngine

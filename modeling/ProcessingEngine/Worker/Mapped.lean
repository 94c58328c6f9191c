import ProcessingEngine.Common.Place
import ProcessingEngine.Worker.Transform

/-!
# What a map makes of a value

`apply_fn` goes down to the leaves of a value.  Its result has the same places
(`applyFn_part`), and it fails as the first leaf does on which it fails
(`failure_applyFn`), so that a function is known by what it does to a leaf.
-/

namespace ProcessingEngine

open Text Value

variable {F : Type}

/-- How a computation fails, if it does. -/
def failure {α : Type} : Except Fail α → Option Fail
  | .ok _ => none
  | .error e => some e

theorem failure_map {α β : Type} (f : α → β) (r : Except Fail α) :
    failure (r.map f) = failure r := by
  cases r <;> rfl

theorem failure_eq_none_iff {α : Type} {r : Except Fail α} :
    failure r = none ↔ ∃ a, r = .ok a := by
  cases r <;> simp [failure]

theorem failure_eq_some_iff {α : Type} {r : Except Fail α} {e : Fail} :
    failure r = some e ↔ r = .error e := by
  cases r <;> simp [failure]

theorem exists_of_bind_eq_ok {α β : Type} {r : Except Fail α} {f : α → Except Fail β} {b : β}
    (h : (r >>= f) = .ok b) : ∃ a, r = .ok a ∧ f a = .ok b := by
  cases r with
  | error e => cases h
  | ok a => exact ⟨a, rfl, h⟩

theorem exists_of_map_eq_ok {α β : Type} {r : Except Fail α} {f : α → β} {b : β}
    (h : r.map f = .ok b) : ∃ a, r = .ok a ∧ f a = b := by
  cases r with
  | error e => cases h
  | ok a => exact ⟨a, rfl, Except.ok.inj h⟩

namespace MapOp

variable (host : Host F) (func : String)

/-! ### Places -/

theorem applyElements_getElem? {vs ws : List (Value F)}
    (h : applyElements host func vs = .ok ws) (i : Nat) :
    vs[i]?.map (applyFn host func) = ws[i]?.map .ok := by
  induction vs generalizing ws i with
  | nil =>
      cases h
      rfl
  | cons v vs ih =>
      obtain ⟨w, hv, h⟩ := exists_of_bind_eq_ok h
      obtain ⟨ws', hvs, h⟩ := exists_of_bind_eq_ok h
      cases h
      cases i with
      | zero => exact congrArg some hv
      | succ i => exact ih hvs i

theorem applyFields_getElem? {fields out : Fields F}
    (h : applyFields host func fields = .ok out) (i : Nat) :
    fields[i]?.map (fun f => (f.1, applyFn host func f.2)) =
      out[i]?.map (fun f => (f.1, .ok f.2)) := by
  induction fields generalizing out i with
  | nil =>
      cases h
      rfl
  | cons f rest ih =>
      obtain ⟨w, hv, h⟩ := exists_of_bind_eq_ok h
      obtain ⟨out', hrest, h⟩ := exists_of_bind_eq_ok h
      cases h
      cases i with
      | zero => exact congrArg (fun r => some (f.1, r)) hv
      | succ i => exact ih hrest i

theorem isLeaf_doubleFloat {x : F} {message : String} {w : Value F}
    (h : doubleFloat host x message = .ok w) : w.isLeaf = true := by
  unfold doubleFloat at h
  split at h <;> cases h
  rfl

/-- A leaf becomes a leaf. -/
theorem isLeaf_of_applyFn {v w : Value F} (hleaf : v.isLeaf = true)
    (h : applyFn host func v = .ok w) : w.isLeaf = true := by
  cases v with
  | string s =>
      replace h : applyString host s func = .ok w := h
      unfold applyString at h
      split_ifs at h
      · cases h; rfl
      · cases h; rfl
      · cases h; rfl
      · split at h
        · obtain ⟨i, -, rfl⟩ := exists_of_map_eq_ok h
          rfl
        · split at h
          · exact isLeaf_doubleFloat host h
          · cases h
            rfl
  | number n =>
      replace h : applyNumber host n func = .ok w := h
      unfold applyNumber at h
      split_ifs at h
      · split at h
        · obtain ⟨i, -, rfl⟩ := exists_of_map_eq_ok h
          rfl
        · split at h
          · exact isLeaf_doubleFloat host h
          · cases h
            rfl
      · cases h
        rfl
  | null | bool =>
      cases h
      rfl
  | array | object => cases hleaf

theorem applyFn_child {v w : Value F} (h : applyFn host func v = .ok w) (step : PlaceStep) :
    (v.child step).map (applyFn host func) = (w.child step).map .ok := by
  cases v with
  | array elements =>
      obtain ⟨ws, hws, rfl⟩ := exists_of_map_eq_ok h
      cases step with
      | element i => exact applyElements_getElem? host func hws i
      | field i key => rfl
  | object fields =>
      obtain ⟨out, hout, rfl⟩ := exists_of_map_eq_ok h
      cases step with
      | element i => rfl
      | field i key =>
          have hfield := applyFields_getElem? host func hout i
          rw [child_field, child_field]
          cases hf : fields[i]? with
          | none =>
              rw [hf] at hfield
              rw [Option.map_eq_none_iff.mp hfield.symm]
              rfl
          | some f =>
              rw [hf] at hfield
              obtain ⟨g, hg, hfg⟩ := Option.map_eq_some_iff.mp hfield.symm
              obtain ⟨hkey, hvalue⟩ := Prod.mk.inj hfg
              rw [hg]
              by_cases hk : f.1 = key
              · simp [Option.filter, hk, hkey, hvalue]
              · simp [Option.filter, hk, hkey]
  | null | bool | number | string =>
      rw [child_of_isLeaf rfl, child_of_isLeaf (isLeaf_of_applyFn host func rfl h)]
      rfl

/-- The result has a part where the value has one, which is the result for that
part. -/
theorem applyFn_part {v w : Value F} (h : applyFn host func v = .ok w) (place : Place) :
    (v.part place).map (applyFn host func) = (w.part place).map .ok := by
  induction place generalizing v w with
  | nil => exact congrArg some h
  | cons step place ih =>
      have hchild := applyFn_child host func h step
      rw [part_cons, part_cons]
      cases hv : v.child step with
      | none =>
          rw [hv] at hchild
          rw [Option.map_eq_none_iff.mp hchild.symm]
          rfl
      | some x =>
          rw [hv] at hchild
          obtain ⟨y, hy, hxy⟩ := Option.map_eq_some_iff.mp hchild.symm
          rw [hy]
          exact ih hxy.symm

theorem applyFn_leaf {v w : Value F} (h : applyFn host func v = .ok w) {place : Place}
    {x : Value F} (hx : v.part place = some x) :
    ∃ y, applyFn host func x = .ok y ∧ w.part place = some y := by
  have hpart := applyFn_part host func h place
  rw [hx] at hpart
  obtain ⟨y, hy, hxy⟩ := Option.map_eq_some_iff.mp hpart.symm
  exact ⟨y, hxy.symm, hy⟩

/-! ### Failures -/

mutual
/-- The failure is that of the first leaf with one. -/
theorem failure_applyFn : ∀ v : Value F,
    failure (applyFn host func v) = v.leaves.findSome? fun x => failure (applyFn host func x)
  | .null | .bool _ => rfl
  | .number n => by
      rw [leaves_of_isLeaf rfl, List.findSome?_singleton]
  | .string s => by
      rw [leaves_of_isLeaf rfl, List.findSome?_singleton]
  | .array elements => (failure_map _ _).trans (failure_applyElements elements)
  | .object fields => (failure_map _ _).trans (failure_applyFields fields)

theorem failure_applyElements : ∀ vs : List (Value F),
    failure (applyElements host func vs) =
      (leavesElements vs).findSome? fun x => failure (applyFn host func x)
  | [] => rfl
  | v :: vs => by
      rw [leavesElements, List.findSome?_append, ← failure_applyFn v,
        ← failure_applyElements vs, applyElements]
      cases applyFn host func v with
      | error e => rfl
      | ok w => cases applyElements host func vs <;> rfl

theorem failure_applyFields : ∀ fields : Fields F,
    failure (applyFields host func fields) =
      (leavesFields fields).findSome? fun x => failure (applyFn host func x)
  | [] => rfl
  | (k, v) :: rest => by
      rw [leavesFields, List.findSome?_append, ← failure_applyFn v,
        ← failure_applyFields rest, applyFields]
      cases applyFn host func v with
      | error e => rfl
      | ok w => cases applyFields host func rest <;> rfl
end

/-- The function succeeds on a value when it does on the leaves. -/
theorem exists_applyFn_of_leaves {v : Value F}
    (h : ∀ x ∈ v.leaves, ∃ y, applyFn host func x = .ok y) :
    ∃ w, applyFn host func v = .ok w := by
  rw [← failure_eq_none_iff, failure_applyFn, List.findSome?_eq_none_iff]
  intro x hx
  exact failure_eq_none_iff.mpr (h x hx)

mutual
theorem applyFn_of_fixed : ∀ v : Value F, (∀ x ∈ v.leaves, applyFn host func x = .ok x) →
    applyFn host func v = .ok v
  | .null, _ | .bool _, _ => rfl
  | .number n, h => h _ (List.mem_singleton_self _)
  | .string s, h => h _ (List.mem_singleton_self _)
  | .array elements, h => by rw [applyFn, applyElements_of_fixed elements h]; rfl
  | .object fields, h => by rw [applyFn, applyFields_of_fixed fields h]; rfl

theorem applyElements_of_fixed : ∀ vs : List (Value F),
    (∀ x ∈ leavesElements vs, applyFn host func x = .ok x) →
      applyElements host func vs = .ok vs
  | [], _ => rfl
  | v :: vs, h => by
      have hv := applyFn_of_fixed v fun x hx => h x (List.mem_append_left _ hx)
      have hvs := applyElements_of_fixed vs fun x hx => h x (List.mem_append_right _ hx)
      rw [applyElements, hv, hvs]
      rfl

theorem applyFields_of_fixed : ∀ fields : Fields F,
    (∀ x ∈ leavesFields fields, applyFn host func x = .ok x) →
      applyFields host func fields = .ok fields
  | [], _ => rfl
  | (k, v) :: rest, h => by
      have hv := applyFn_of_fixed v fun x hx => h x (List.mem_append_left _ hx)
      have hrest := applyFields_of_fixed rest fun x hx => h x (List.mem_append_right _ hx)
      rw [applyFields, hv, hrest]
      rfl
end

/-! ### Functions that keep the structure -/

/-- A value with the strings replaced by their images, and equal otherwise. -/
structure ImageOf (g : String → String) (v w : Value F) : Prop where
  shape : ∀ place, (w.part place).map kind = (v.part place).map kind
  bool : ∀ place b, v.part place = some (.bool b) → w.part place = some (.bool b)
  number : ∀ place n, v.part place = some (.number n) → w.part place = some (.number n)
  string : ∀ place s, v.part place = some (.string s) → w.part place = some (.string (g s))

/-- The leaves that a map looks at. -/
def isText : Value F → Bool
  | .string _ => true
  | .number _ => true
  | _ => false

def HasText (v : Value F) : Prop := ∃ place x, v.part place = some x ∧ isText x = true

/-- What holds of a function that changes the strings only. -/
structure ChangesStrings (g : String → String) : Prop where
  string : ∀ s, applyString host s func = .ok (.string (g s))
  number : ∀ n, applyNumber host n func = .ok (.number n)

theorem changesStrings_uppercase : ChangesStrings host "uppercase" host.toUppercase :=
  ⟨fun _ => rfl, fun _ => rfl⟩

theorem changesStrings_lowercase : ChangesStrings host "lowercase" host.toLowercase :=
  ⟨fun _ => rfl, fun _ => rfl⟩

variable {host func}

theorem ChangesStrings.kind {g : String → String} (hg : ChangesStrings host func g)
    {x y : Value F} (h : applyFn host func x = .ok y) : y.kind = x.kind := by
  cases x with
  | string s => cases (hg.string s).symm.trans h; rfl
  | number n => cases (hg.number n).symm.trans h; rfl
  | null | bool => cases h; rfl
  | array | object =>
      obtain ⟨out, -, rfl⟩ := exists_of_map_eq_ok h
      rfl

/-- Such a function succeeds, with the image of the value. -/
theorem ChangesStrings.image {g : String → String} (hg : ChangesStrings host func g)
    (v : Value F) : ∃ w, applyFn host func v = .ok w ∧ ImageOf g v w := by
  have hleaves : ∀ x ∈ v.leaves, ∃ y, applyFn host func x = .ok y := by
    intro x hx
    cases x with
    | string s => exact ⟨_, hg.string s⟩
    | number n => exact ⟨_, hg.number n⟩
    | null | bool => exact ⟨_, rfl⟩
    | array | object => cases (mem_leaves_iff.mp hx).1
  obtain ⟨w, hw⟩ := exists_applyFn_of_leaves host func hleaves
  refine ⟨w, hw, ?_, ?_, ?_, ?_⟩
  · intro place
    have hpart := applyFn_part host func hw place
    cases hx : v.part place with
    | none =>
        rw [hx] at hpart
        rw [Option.map_eq_none_iff.mp hpart.symm]
    | some x =>
        obtain ⟨y, hxy, hy⟩ := applyFn_leaf host func hw hx
        rw [hy]
        exact congrArg some (hg.kind hxy)
  · intro place b hx
    obtain ⟨y, hxy, hy⟩ := applyFn_leaf host func hw hx
    cases hxy
    exact hy
  · intro place n hx
    obtain ⟨y, hxy, hy⟩ := applyFn_leaf host func hw hx
    cases (hg.number n).symm.trans hxy
    exact hy
  · intro place s hx
    obtain ⟨y, hxy, hy⟩ := applyFn_leaf host func hw hx
    cases (hg.string s).symm.trans hxy
    exact hy

theorem applyFn_identity (host : Host F) (v : Value F) : applyFn host "identity" v = .ok v := by
  apply applyFn_of_fixed
  intro x hx
  cases x with
  | array | object => cases (mem_leaves_iff.mp hx).1
  | _ => rfl

/-! ### Unknown functions -/

/-- The names that `apply_fn` knows. -/
def knownFunctions : List String := ["identity", "uppercase", "lowercase", "double"]

theorem failure_of_unknown (host : Host F) (hfunc : func ∉ knownFunctions) {x : Value F}
    (hx : x.isLeaf = true) :
    failure (applyFn host func x) = if isText x then some (unknownFunction func) else none := by
  simp only [knownFunctions, List.mem_cons, List.not_mem_nil, or_false, not_or] at hfunc
  obtain ⟨hid, hup, hlow, hdouble⟩ := hfunc
  cases x with
  | string s => simp [applyFn, applyString, isText, failure, hid, hup, hlow, hdouble]
  | number n => simp [applyFn, applyNumber, isText, failure, hid, hup, hlow, hdouble]
  | null | bool => rfl
  | array | object => cases hx

theorem isLeaf_of_isText {x : Value F} (h : isText x = true) : x.isLeaf = true := by
  cases x with
  | string | number => rfl
  | _ => cases h

theorem hasText_iff {v : Value F} : HasText v ↔ ∃ x ∈ v.leaves, isText x = true := by
  constructor
  · intro h
    obtain ⟨place, x, hx, htext⟩ := h
    exact ⟨x, mem_leaves_of_part hx (isLeaf_of_isText htext), htext⟩
  · intro h
    obtain ⟨x, hx, htext⟩ := h
    obtain ⟨-, place, hplace⟩ := mem_leaves_iff.mp hx
    exact ⟨place, x, hplace, htext⟩

/-- An unknown function fails on a value with a text or a number, and keeps every other
value. -/
theorem applyFn_unknown (host : Host F) (hfunc : func ∉ knownFunctions) (v : Value F) :
    (applyFn host func v = .error (unknownFunction func) ↔ HasText v) ∧
      (¬ HasText v → applyFn host func v = .ok v) := by
  have hleaf : ∀ x ∈ v.leaves, failure (applyFn host func x) =
      if isText x then some (unknownFunction func) else none :=
    fun x hx => failure_of_unknown host hfunc (mem_leaves_iff.mp hx).1
  constructor
  · rw [← failure_eq_some_iff, failure_applyFn, hasText_iff]
    constructor
    · intro h
      obtain ⟨x, hx, hfail⟩ := List.exists_of_findSome?_eq_some h
      rw [hleaf x hx] at hfail
      exact ⟨x, hx, by simpa using hfail⟩
    · intro h
      obtain ⟨x, hx, htext⟩ := h
      cases hfind : v.leaves.findSome? fun x => failure (applyFn host func x) with
      | none =>
          have hnone := List.findSome?_eq_none_iff.mp hfind x hx
          rw [hleaf x hx, if_pos htext] at hnone
          cases hnone
      | some e =>
          obtain ⟨y, hy, hfail⟩ := List.exists_of_findSome?_eq_some hfind
          rw [hleaf y hy] at hfail
          split at hfail
          · exact hfail.symm
          · cases hfail
  · intro h
    apply applyFn_of_fixed
    intro x hx
    have hplain : isText x = false := by
      rw [← Bool.not_eq_true]
      exact fun htext => h (hasText_iff.mpr ⟨x, hx, htext⟩)
    cases x with
    | null | bool => rfl
    | string | number => cases hplain
    | array | object => cases (mem_leaves_iff.mp hx).1

/-- The functions on texts keep the shape of a value and everything but its strings, and
other names are refused exactly where there is a string or a number. -/
theorem applyFn_structure (host : Host F) (v : Value F) :
    applyFn host "identity" v = .ok v ∧
      (∃ w, applyFn host "uppercase" v = .ok w ∧ ImageOf host.toUppercase v w) ∧
      (∃ w, applyFn host "lowercase" v = .ok w ∧ ImageOf host.toLowercase v w) ∧
      ∀ func, func ∉ knownFunctions →
        (applyFn host func v = .error (unknownFunction func) ↔ HasText v) ∧
          (¬ HasText v → applyFn host func v = .ok v) :=
  ⟨applyFn_identity host v, (changesStrings_uppercase host).image v,
    (changesStrings_lowercase host).image v, fun _ hfunc => applyFn_unknown host hfunc v⟩

theorem applyFn_structure_nested :
    applyFn (.plain []) "shout" (.array [.null, .object [("a", .string "x")]]) =
        .error (unknownFunction "shout") ∧
      applyFn (.plain []) "shout" (.array [.null, .object [("a", .bool true)]]) =
        .ok (.array [.null, .object [("a", .bool true)]]) := by
  have h := (applyFn_structure (.plain [])
    (.array [.null, .object [("a", .string "x")]])).2.2.2 "shout" (by decide)
  have h' := (applyFn_structure (.plain [])
    (.array [.null, .object [("a", .bool true)]])).2.2.2 "shout" (by decide)
  refine ⟨h.1.mpr ⟨[.element 1, .field 0 "a"], .string "x", rfl, rfl⟩, h'.2 ?_⟩
  rw [hasText_iff]
  decide

end MapOp
end ProcessingEngine

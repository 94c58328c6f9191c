import ProcessingEngine.Worker.Mapped

/-!
# Doubling integers

`apply_fn` doubles an `i64` with `i * 2`, which overflows outside half the range:
with overflow checks it panics there, without it the result wraps around.  A
float that cannot be doubled ends the map with an error instead, and may do so
before an integer overflows.
-/

namespace ProcessingEngine
namespace MapOp

open Text Value

variable {F : Type}

/-- The integer of a leaf: an `i64`, or the text of one. -/
def intLeaf : Value F → Option Int
  | .number n => asI64 n
  | .string s => parseI64 s
  | _ => none

/-- The float that a leaf is read as when it is no integer. -/
def floatLeaf (host : Host F) : Value F → Option F
  | .number n => host.asF64 n
  | .string s => host.parseF64 s
  | _ => none

/-- Twice the integer of the leaf is no `i64`. -/
def Overflows (x : Value F) : Prop :=
  ∃ i, intLeaf x = some i ∧ ¬ (i64Min ≤ 2 * i ∧ 2 * i ≤ i64Max)

/-- Twice the float of the leaf is no JSON number. -/
def Unconvertible (host : Host F) (x : Value F) : Prop :=
  intLeaf x = none ∧ ∃ y, floatLeaf host x = some y ∧ host.fromF64 (host.double y) = none

/-- Every integer of the value is doubled exactly, unless the map fails with an error. -/
structure DoublesExactly (host : Host F) (v : Value F) : Prop where
  no_panic : applyFn host "double" v ≠ .error .panic
  exact : ∀ w, applyFn host "double" v = .ok w → ∀ place x i, v.part place = some x →
    intLeaf x = some i → w.part place = some (.number (.int (2 * i)))

/-- No integer overflows before the map fails on a float.  Without overflow checks an
integer does not end the map, and the float may come after it. -/
def DoubleSafe (host : Host F) (v : Value F) : Prop :=
  if host.overflowChecks then
    ∀ pre x post, v.leaves = pre ++ x :: post → Overflows x → ∃ y ∈ pre, Unconvertible host y
  else (∃ x ∈ v.leaves, Overflows x) → ∃ y ∈ v.leaves, Unconvertible host y

/-! ### One leaf -/

theorem isLeaf_of_intLeaf {x : Value F} {i : Int} (h : intLeaf x = some i) : x.isLeaf = true := by
  cases x with
  | array | object => cases h
  | _ => rfl

/-- An integer leaf, as a number or as a text. -/
theorem applyFn_intLeaf (host : Host F) {x : Value F} {i : Int} (h : intLeaf x = some i) :
    applyFn host "double" x = (doubleInt host i).map fun i => .number (.int i) := by
  cases x with
  | number n =>
      replace h : asI64 n = some i := h
      show applyNumber host n "double" = _
      rw [applyNumber, if_pos rfl, h]
  | string s =>
      replace h : parseI64 s = some i := h
      show applyString host s "double" = _
      rw [applyString, if_neg (by decide), if_neg (by decide), if_neg (by decide), if_pos rfl, h]
  | _ => cases h

theorem failure_doubleFloat (host : Host F) (y : F) (message : String) :
    failure (doubleFloat host y message) =
      if host.fromF64 (host.double y) = none then some (.error message) else none := by
  unfold doubleFloat
  cases host.fromF64 (host.double y) <;> simp [failure]

/-- A leaf that is no integer is doubled as a float, or kept where there is none. -/
theorem applyFn_of_intLeaf_none (host : Host F) {x : Value F} (hleaf : x.isLeaf = true)
    (h : intLeaf x = none) : ∃ message kept, applyFn host "double" x =
      ((floatLeaf host x).map fun y => doubleFloat host y message).getD (.ok kept) := by
  cases x with
  | number n =>
      replace h : asI64 n = none := h
      refine ⟨"failed to convert doubled float", .null, ?_⟩
      show applyNumber host n "double" = _
      rw [applyNumber, if_pos rfl, h, floatLeaf]
      cases host.asF64 n <;> rfl
  | string s =>
      replace h : parseI64 s = none := h
      refine ⟨"failed to convert doubled float from string", .string s, ?_⟩
      show applyString host s "double" = _
      rw [applyString, if_neg (by decide), if_neg (by decide), if_neg (by decide), if_pos rfl, h,
        floatLeaf]
      cases host.parseF64 s <;> rfl
  | null => exact ⟨"", .null, rfl⟩
  | bool b => exact ⟨"", .bool b, rfl⟩
  | array | object => cases hleaf

/-- An integer that overflows panics or wraps around, and any other is doubled. -/
theorem doubleInt_cases (host : Host F) (i : Int) :
    ((i64Min ≤ 2 * i ∧ 2 * i ≤ i64Max) ∧ doubleInt host i = .ok (2 * i)) ∨
      (¬ (i64Min ≤ 2 * i ∧ 2 * i ≤ i64Max) ∧
        ((host.overflowChecks = true ∧ doubleInt host i = .error .panic) ∨
          (host.overflowChecks = false ∧ ∃ j, j ≠ 2 * i ∧ doubleInt host i = .ok j))) := by
  rw [Int.mul_comm 2 i]
  by_cases hfit : i64Min ≤ i * 2 ∧ i * 2 ≤ i64Max
  · exact .inl ⟨hfit, if_pos hfit⟩
  · refine .inr ⟨hfit, ?_⟩
    rw [doubleInt, if_neg hfit]
    cases host.overflowChecks with
    | true => exact .inl ⟨rfl, rfl⟩
    | false =>
        refine .inr ⟨rfl, _, ?_, rfl⟩
        have hlow := Int.le_bmod (x := i * 2) (m := 18446744073709551616) (by decide)
        have hhigh := Int.bmod_lt (x := i * 2) (m := 18446744073709551616) (by decide)
        simp only [i64Min, i64Max] at hfit
        omega

theorem overflows_iff {x : Value F} {i : Int} (h : intLeaf x = some i) :
    Overflows x ↔ ¬ (i64Min ≤ 2 * i ∧ 2 * i ≤ i64Max) := by
  simp [Overflows, h]

theorem not_unconvertible {host : Host F} {x : Value F} {i : Int} (h : intLeaf x = some i) :
    ¬ Unconvertible host x := by
  simp [Unconvertible, h]

theorem not_overflows {x : Value F} (h : intLeaf x = none) : ¬ Overflows x := by
  simp [Overflows, h]

/-- A leaf panics when its integer overflows and this is checked. -/
theorem failure_double_panic_iff (host : Host F) {x : Value F} (hleaf : x.isLeaf = true) :
    failure (applyFn host "double" x) = some .panic ↔
      host.overflowChecks = true ∧ Overflows x := by
  cases hint : intLeaf x with
  | some i =>
      rw [applyFn_intLeaf host hint, failure_map, overflows_iff hint]
      rcases doubleInt_cases host i with ⟨hfit, hi⟩ | ⟨hfit, ⟨hc, hi⟩ | ⟨hc, j, -, hi⟩⟩
      · simp [hi, failure, hfit]
      · simp only [hi, failure, hc, hfit, not_false_eq_true, and_self]
      · simp [hi, failure, hc]
  | none =>
      refine iff_of_false ?_ fun h => not_overflows hint h.2
      obtain ⟨message, kept, happly⟩ := applyFn_of_intLeaf_none host hleaf hint
      rw [happly]
      cases floatLeaf host x with
      | none => simp [failure]
      | some y =>
          rw [Option.map_some, Option.getD_some, failure_doubleFloat]
          split <;> simp

/-- A leaf fails with an error when its float has no double. -/
theorem failure_double_error_iff (host : Host F) {x : Value F} (hleaf : x.isLeaf = true) :
    (∃ message, failure (applyFn host "double" x) = some (.error message)) ↔
      Unconvertible host x := by
  cases hint : intLeaf x with
  | some i =>
      refine iff_of_false ?_ (not_unconvertible hint)
      rw [applyFn_intLeaf host hint, failure_map]
      rcases doubleInt_cases host i with ⟨hfit, hi⟩ | ⟨hfit, ⟨hc, hi⟩ | ⟨hc, j, -, hi⟩⟩ <;>
        simp [hi, failure]
  | none =>
      obtain ⟨message, kept, happly⟩ := applyFn_of_intLeaf_none host hleaf hint
      rw [happly, Unconvertible]
      cases floatLeaf host x with
      | none => simp [failure]
      | some y =>
          rw [Option.map_some, Option.getD_some, failure_doubleFloat]
          split_ifs with hy <;> simp [hint, hy]

theorem failure_double_eq_none {host : Host F} {x : Value F} (hleaf : x.isLeaf = true)
    (hover : ¬ (host.overflowChecks = true ∧ Overflows x)) (hconv : ¬ Unconvertible host x) :
    failure (applyFn host "double" x) = none := by
  cases hfail : failure (applyFn host "double" x) with
  | none => rfl
  | some e =>
      cases e with
      | panic => exact absurd ((failure_double_panic_iff host hleaf).mp hfail) hover
      | error message =>
          exact absurd ((failure_double_error_iff host hleaf).mp ⟨message, hfail⟩) hconv

/-- What an integer leaf becomes, when the map does not fail. -/
theorem double_exact_iff {host : Host F} {x y : Value F} {i : Int} (hint : intLeaf x = some i)
    (h : applyFn host "double" x = .ok y) :
    y = .number (.int (2 * i)) ↔ ¬ Overflows x := by
  rw [applyFn_intLeaf host hint] at h
  rw [overflows_iff hint, not_not]
  rcases doubleInt_cases host i with ⟨hfit, hi⟩ | ⟨hfit, ⟨hc, hi⟩ | ⟨hc, j, hj, hi⟩⟩
  · rw [hi] at h
    cases h
    exact iff_of_true rfl hfit
  · rw [hi] at h
    cases h
  · rw [hi] at h
    cases h
    exact iff_of_false (by simpa using hj) hfit

/-! ### A whole value -/

theorem failure_of_mem {host : Host F} {func : String} {v w x : Value F}
    (h : applyFn host func v = .ok w) (hx : x ∈ v.leaves) :
    failure (applyFn host func x) = none := by
  have hnone := failure_eq_none_iff.mpr ⟨w, h⟩
  rw [failure_applyFn] at hnone
  exact List.findSome?_eq_none_iff.mp hnone x hx

theorem DoubleSafe.exact {host : Host F} {v w : Value F} (h : DoubleSafe host v)
    (hw : applyFn host "double" v = .ok w) {x : Value F} (hx : x ∈ v.leaves) :
    ¬ Overflows x := by
  intro hover
  unfold DoubleSafe at h
  split_ifs at h with hc
  · have hnone := failure_of_mem hw hx
    rw [(failure_double_panic_iff host (mem_leaves_iff.mp hx).1).mpr ⟨hc, hover⟩] at hnone
    cases hnone
  · obtain ⟨y, hy, hconv⟩ := h ⟨x, hx, hover⟩
    obtain ⟨message, hfail⟩ :=
      (failure_double_error_iff host (mem_leaves_iff.mp hy).1).mpr hconv
    rw [failure_of_mem hw hy] at hfail
    cases hfail

theorem DoubleSafe.no_panic {host : Host F} {v : Value F} (h : DoubleSafe host v) :
    applyFn host "double" v ≠ .error .panic := by
  rw [Ne, ← failure_eq_some_iff, failure_applyFn, List.findSome?_eq_some_iff]
  intro hfind
  obtain ⟨pre, x, post, hleaves, hfail, hbefore⟩ := hfind
  have hmem : ∀ y ∈ pre ++ x :: post, y.isLeaf = true := by
    rw [← hleaves]
    exact fun y hy => (mem_leaves_iff.mp hy).1
  obtain ⟨hc, hover⟩ :=
    (failure_double_panic_iff host (hmem x (by simp))).mp hfail
  rw [DoubleSafe, if_pos hc] at h
  obtain ⟨y, hy, hconv⟩ := h pre x post hleaves hover
  obtain ⟨message, hfail⟩ :=
    (failure_double_error_iff host (hmem y (by simp [hy]))).mpr hconv
  rw [hbefore y hy] at hfail
  cases hfail

/-- Where overflows are checked, the first one comes after a float without a double. -/
theorem DoublesExactly.exists_unconvertible {host : Host F} {v : Value F}
    (h : DoublesExactly host v) (hc : host.overflowChecks = true) {pre post : List (Value F)}
    {x : Value F} (hleaves : v.leaves = pre ++ x :: post) (hover : Overflows x) :
    ∃ y ∈ pre, Unconvertible host y := by
  by_contra hnone
  have hmem : ∀ y ∈ pre ++ x :: post, y.isLeaf = true := by
    rw [← hleaves]
    exact fun y hy => (mem_leaves_iff.mp hy).1
  have hx : failure (applyFn host "double" x) = some .panic :=
    (failure_double_panic_iff host (hmem x (by simp))).mpr ⟨hc, hover⟩
  apply h.no_panic
  rw [← failure_eq_some_iff, failure_applyFn, hleaves, List.findSome?_append]
  cases hpre : pre.findSome? fun y => failure (applyFn host "double" y) with
  | none => rw [Option.none_or, List.findSome?_cons, hx]
  | some e =>
      obtain ⟨y, hy, hfail⟩ := List.exists_of_findSome?_eq_some hpre
      cases e with
      | panic => rfl
      | error message =>
          refine absurd ⟨y, hy, ?_⟩ hnone
          exact (failure_double_error_iff host (hmem y (by simp [hy]))).mp ⟨message, hfail⟩

/-- Where they are not checked, an overflow goes unnoticed unless the map fails. -/
theorem DoublesExactly.exists_unconvertible_of_unchecked {host : Host F} {v : Value F}
    (h : DoublesExactly host v) (hc : ¬ host.overflowChecks = true) {x : Value F}
    (hx : x ∈ v.leaves) (hover : Overflows x) : ∃ y ∈ v.leaves, Unconvertible host y := by
  by_contra hnone
  have hok : ∀ y ∈ v.leaves, ∃ z, applyFn host "double" y = .ok z := by
    intro y hy
    apply failure_eq_none_iff.mp
    apply failure_double_eq_none (mem_leaves_iff.mp hy).1
    · exact fun hover => hc hover.1
    · exact fun hconv => hnone ⟨y, hy, hconv⟩
  obtain ⟨w, hw⟩ := exists_applyFn_of_leaves host "double" hok
  obtain ⟨-, place, hplace⟩ := mem_leaves_iff.mp hx
  obtain ⟨y, hxy, hy⟩ := applyFn_leaf host "double" hw hplace
  obtain ⟨i, hint, -⟩ := id hover
  have hexact := h.exact w hw place x i hplace hint
  rw [hy, Option.some.injEq] at hexact
  exact (double_exact_iff hint hxy).mp hexact hover

/-- The integers of a value are doubled exactly, or the map fails with an error, precisely
when no integer overflows before such an error. -/
theorem doublesExactly_iff (host : Host F) (v : Value F) :
    DoublesExactly host v ↔ DoubleSafe host v := by
  constructor
  · intro h
    unfold DoubleSafe
    split_ifs with hc
    · intro pre x post hleaves hover
      exact h.exists_unconvertible hc hleaves hover
    · intro hover
      obtain ⟨x, hx, hover⟩ := hover
      exact h.exists_unconvertible_of_unchecked hc hx hover
  · intro h
    refine ⟨h.no_panic, ?_⟩
    intro w hw place x i hplace hint
    obtain ⟨y, hxy, hy⟩ := applyFn_leaf host "double" hw hplace
    have hx := mem_leaves_of_part hplace (isLeaf_of_intLeaf hint)
    rw [hy, (double_exact_iff hint hxy).mpr (h.exact hw hx)]

/-- The integer `2^62` panics in a debug build, and its double has the wrong sign in a
release build. -/
theorem double_overflows :
    ¬ DoublesExactly (.plain []) (.object [("n", .number (.int 4611686018427387904))]) ∧
      ¬ DoublesExactly { Host.plain [] with overflowChecks := false }
        (.object [("n", .number (.int 4611686018427387904))]) ∧
      applyFn { Host.plain [] with overflowChecks := false } "double"
          (.object [("n", .number (.int 4611686018427387904))]) =
        .ok (.object [("n", .number (.int (-9223372036854775808)))]) := by
  have hwrapped : applyFn { Host.plain [] with overflowChecks := false } "double"
      (.object [("n", .number (.int 4611686018427387904))]) =
        .ok (.object [("n", .number (.int (-9223372036854775808)))]) := by decide
  refine ⟨fun h => h.no_panic (by decide), fun h => ?_, hwrapped⟩
  have hexact := h.exact _ hwrapped [.field 0 "n"] _ 4611686018427387904 rfl rfl
  revert hexact
  decide

end MapOp
end ProcessingEngine

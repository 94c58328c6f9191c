import Mathlib.Data.List.Basic

/-!
# JSON values

`serde_json::Value` over a type `F` of 64-bit floats.  A number that is not a
float is an integer: the crate keeps the two integer forms apart by sign only.
An object is a `BTreeMap`, kept as the list of its fields in key order.
-/

namespace ProcessingEngine

inductive Number (F : Type) where
  | int (i : Int)
  | float (x : F)
  deriving DecidableEq, Repr

inductive Value (F : Type) where
  | null
  | bool (b : Bool)
  | number (n : Number F)
  | string (s : String)
  | array (elements : List (Value F))
  | object (fields : List (String × Value F))
  deriving Repr

/-- `Map<String, Value>` -/
abbrev Fields (F : Type) := List (String × Value F)

/-- `type Record = Value` -/
abbrev Record (F : Type) := Value F

namespace Fields

variable {F : Type}

/-- `map.get(key)` -/
def get (key : String) : Fields F → Option (Value F)
  | [] => none
  | (k, v) :: rest => if key = k then some v else get key rest

/-- `map.insert(key, value)` -/
def insert (key : String) (value : Value F) : Fields F → Fields F
  | [] => [(key, value)]
  | (k, v) :: rest =>
      if key = k then (key, value) :: rest
      else if key < k then (key, value) :: (k, v) :: rest
      else (k, v) :: insert key value rest

/-- Insert every field of `more`.  Keys are unique, so the order of the
insertions does not matter. -/
def insertAll (more : Fields F) (into : Fields F) : Fields F :=
  match more with
  | [] => into
  | (k, v) :: rest => insert k v (insertAll rest into)

@[simp] theorem get_nil (key : String) : get key ([] : Fields F) = none := rfl

theorem get_insert_self (key : String) (value : Value F) (m : Fields F) :
    get key (insert key value m) = some value := by
  induction m with
  | nil => simp [insert, get]
  | cons f rest ih =>
      obtain ⟨k, v⟩ := f
      rw [insert]
      split_ifs with heq hlt
      · simp [get]
      · simp [get]
      · rw [get, if_neg heq, ih]

theorem get_insert_ne {key key' : String} (h : key' ≠ key) (value : Value F) (m : Fields F) :
    get key' (insert key value m) = get key' m := by
  induction m with
  | nil => simp [insert, get, h]
  | cons f rest ih =>
      obtain ⟨k, v⟩ := f
      rw [insert]
      split_ifs with heq hlt
      · subst heq
        rw [get, if_neg h, get, if_neg h]
      · rw [get, if_neg h]
      · rw [get, get, ih]

theorem get_insertAll (key : String) (more into : Fields F) :
    get key (insertAll more into) = (get key more).or (get key into) := by
  induction more with
  | nil => rfl
  | cons f rest ih =>
      obtain ⟨k, v⟩ := f
      rw [insertAll, get]
      split_ifs with heq
      · subst heq
        rw [get_insert_self, Option.some_or]
      · rw [get_insert_ne heq, ih]

/-- The keys of a map ascend. -/
def Sorted (m : Fields F) : Prop := m.Pairwise fun f g => f.1 < g.1

theorem get_eq_none_of_ne {key : String} {m : Fields F} (h : ∀ f ∈ m, f.1 ≠ key) :
    get key m = none := by
  induction m with
  | nil => rfl
  | cons f rest ih =>
      obtain ⟨k, v⟩ := f
      rw [get, if_neg fun e => h (k, v) List.mem_cons_self e.symm]
      exact ih fun g hg => h g (List.mem_cons_of_mem _ hg)

theorem Sorted.tail {f : String × Value F} {m : Fields F} (h : Sorted (f :: m)) : Sorted m :=
  (List.pairwise_cons.mp h).2

theorem Sorted.get_tail_head {k : String} {v : Value F} {m : Fields F}
    (h : Sorted ((k, v) :: m)) : get k m = none :=
  get_eq_none_of_ne fun g hg e => by
    have hlt := (List.pairwise_cons.mp h).1 g hg
    rw [e] at hlt
    exact String.lt_irrefl k hlt

/-- A key below the first one is not in the map. -/
theorem Sorted.get_of_lt {key k : String} {v : Value F} {m : Fields F}
    (h : Sorted ((k, v) :: m)) (hlt : key < k) : get key ((k, v) :: m) = none := by
  refine get_eq_none_of_ne fun g hg e => ?_
  rcases List.mem_cons.mp hg with rfl | hg
  · exact String.lt_irrefl key (e ▸ hlt)
  · have hk := (List.pairwise_cons.mp h).1 g hg
    rw [e] at hk
    exact String.lt_asymm hk hlt

/-- Maps with the same values at all keys are equal. -/
theorem Sorted.ext {m m' : Fields F} (h : Sorted m) (h' : Sorted m')
    (hget : ∀ key, get key m = get key m') : m = m' := by
  induction m generalizing m' with
  | nil =>
      cases m' with
      | nil => rfl
      | cons f' rest' =>
          have hf := hget f'.1
          simp [get] at hf
  | cons f rest ih =>
      obtain ⟨k, v⟩ := f
      have hself : get k ((k, v) :: rest) = some v := by simp [get]
      cases m' with
      | nil =>
          have hk := hget k
          simp [get] at hk
      | cons f' rest' =>
          obtain ⟨k', v'⟩ := f'
          have hself' : get k' ((k', v') :: rest') = some v' := by simp [get]
          have hkey : k = k' := by
            apply String.le_antisymm
            · intro hlt
              have hnone := h.get_of_lt hlt
              rw [hget, hself'] at hnone
              cases hnone
            · intro hlt
              have hnone := h'.get_of_lt hlt
              rw [← hget, hself] at hnone
              cases hnone
          subst hkey
          have hval : v = v' := by
            have hk := hget k
            rwa [hself, hself', Option.some.injEq] at hk
          have hrest : rest = rest' := by
            refine ih h.tail h'.tail fun key => ?_
            by_cases hk : key = k
            · rw [hk, h.get_tail_head, h'.get_tail_head]
            · have hkey := hget key
              rwa [get, if_neg hk, get, if_neg hk] at hkey
          rw [hval, hrest]

/-- The fields of a map, renamed and inserted one by one. -/
theorem get_foldl_insert (rename : String → String)
    (hinj : ∀ a b, rename a = rename b → a = b) {m : Fields F} (h : Sorted m) (key : String)
    (out : Fields F) :
    get (rename key) (m.foldl (fun out f => insert (rename f.1) f.2 out) out) =
      (get key m).or (get (rename key) out) := by
  induction m generalizing out with
  | nil => rfl
  | cons f rest ih =>
      obtain ⟨k, v⟩ := f
      rw [List.foldl_cons, ih h.tail, get]
      by_cases hk : key = k
      · rw [if_pos hk, hk, h.get_tail_head, get_insert_self]
        rfl
      · rw [if_neg hk, get_insert_ne fun e => hk (hinj _ _ e)]

theorem get_foldl_insert_ne (rename : String → String) {key : String}
    (hkey : ∀ k, key ≠ rename k) (m out : Fields F) :
    get key (m.foldl (fun out f => insert (rename f.1) f.2 out) out) = get key out := by
  induction m generalizing out with
  | nil => rfl
  | cons f rest ih => rw [List.foldl_cons, ih, get_insert_ne (hkey f.1)]

end Fields

namespace Value

variable {F : Type}

/-- `value.get(key)` -/
def get (key : String) : Value F → Option (Value F)
  | .object fields => Fields.get key fields
  | _ => none

/-- `value.as_str()` -/
def asStr : Value F → Option String
  | .string s => some s
  | _ => none

/-- `value.as_object()` -/
def asObject : Value F → Option (Fields F)
  | .object fields => some fields
  | _ => none

/-- `value.as_array()` -/
def asArray : Value F → Option (List (Value F))
  | .array elements => some elements
  | _ => none

/-! Equality compares floats as floats. -/

mutual
def beq [BEq F] : Value F → Value F → Bool
  | .null, .null => true
  | .bool a, .bool b => a == b
  | .number (.int a), .number (.int b) => a == b
  | .number (.float a), .number (.float b) => a == b
  | .string a, .string b => a == b
  | .array a, .array b => beqElements a b
  | .object a, .object b => beqFields a b
  | _, _ => false

def beqElements [BEq F] : List (Value F) → List (Value F) → Bool
  | [], [] => true
  | a :: as, b :: bs => a.beq b && beqElements as bs
  | _, _ => false

def beqFields [BEq F] : List (String × Value F) → List (String × Value F) → Bool
  | [], [] => true
  | (k, a) :: as, (l, b) :: bs => k == l && a.beq b && beqFields as bs
  | _, _ => false
end

mutual
theorem eq_of_beq [BEq F] [LawfulBEq F] : ∀ {a b : Value F}, a.beq b = true → a = b
  | .null, .null, _ => rfl
  | .bool _, .bool _, h => by rw [LawfulBEq.eq_of_beq h]
  | .number (.int _), .number (.int _), h => by rw [LawfulBEq.eq_of_beq h]
  | .number (.float _), .number (.float _), h => by rw [LawfulBEq.eq_of_beq h]
  | .string _, .string _, h => by rw [LawfulBEq.eq_of_beq h]
  | .array _, .array _, h => by rw [eq_of_beqElements h]
  | .object _, .object _, h => by rw [eq_of_beqFields h]

theorem eq_of_beqElements [BEq F] [LawfulBEq F] :
    ∀ {as bs : List (Value F)}, beqElements as bs = true → as = bs
  | [], [], _ => rfl
  | a :: as, b :: bs, h => by
      rw [beqElements, Bool.and_eq_true] at h
      rw [eq_of_beq h.1, eq_of_beqElements h.2]

theorem eq_of_beqFields [BEq F] [LawfulBEq F] :
    ∀ {as bs : List (String × Value F)}, beqFields as bs = true → as = bs
  | [], [], _ => rfl
  | (k, a) :: as, (l, b) :: bs, h => by
      rw [beqFields, Bool.and_eq_true, Bool.and_eq_true] at h
      rw [LawfulBEq.eq_of_beq h.1.1, eq_of_beq h.1.2, eq_of_beqFields h.2]
end

mutual
theorem beq_refl [BEq F] [ReflBEq F] : ∀ a : Value F, a.beq a = true
  | .null => rfl
  | .bool b => beq_self_eq_true b
  | .number (.int i) => beq_self_eq_true i
  | .number (.float x) => beq_self_eq_true x
  | .string s => beq_self_eq_true s
  | .array elements => beqElements_refl elements
  | .object fields => beqFields_refl fields

theorem beqElements_refl [BEq F] [ReflBEq F] :
    ∀ as : List (Value F), beqElements as as = true
  | [] => rfl
  | a :: as => by rw [beqElements, beq_refl a, beqElements_refl as, Bool.and_self]

theorem beqFields_refl [BEq F] [ReflBEq F] :
    ∀ as : List (String × Value F), beqFields as as = true
  | [] => rfl
  | (k, a) :: as => by
      rw [beqFields, beq_self_eq_true, beq_refl a, beqFields_refl as, Bool.and_self,
        Bool.and_self]
end

mutual
theorem beq_trans [BEq F] [PartialEquivBEq F] :
    ∀ {a b c : Value F}, a.beq b = true → b.beq c = true → a.beq c = true
  | .null, .null, .null, _, _ => rfl
  | .bool _, .bool _, .bool _, h, h' => BEq.trans h h'
  | .number (.int _), .number (.int _), .number (.int _), h, h' => BEq.trans h h'
  | .number (.float _), .number (.float _), .number (.float _), h, h' => BEq.trans h h'
  | .string _, .string _, .string _, h, h' => BEq.trans h h'
  | .array _, .array _, .array _, h, h' => beqElements_trans h h'
  | .object _, .object _, .object _, h, h' => beqFields_trans h h'

theorem beqElements_trans [BEq F] [PartialEquivBEq F] :
    ∀ {as bs cs : List (Value F)}, beqElements as bs = true → beqElements bs cs = true →
      beqElements as cs = true
  | [], [], [], _, _ => rfl
  | a :: as, b :: bs, c :: cs, h, h' => by
      rw [beqElements, Bool.and_eq_true] at h h' ⊢
      exact ⟨beq_trans h.1 h'.1, beqElements_trans h.2 h'.2⟩

theorem beqFields_trans [BEq F] [PartialEquivBEq F] :
    ∀ {as bs cs : List (String × Value F)}, beqFields as bs = true → beqFields bs cs = true →
      beqFields as cs = true
  | [], [], [], _, _ => rfl
  | (k, a) :: as, (l, b) :: bs, (m, c) :: cs, h, h' => by
      rw [beqFields, Bool.and_eq_true, Bool.and_eq_true] at h h' ⊢
      exact ⟨⟨BEq.trans h.1.1 h'.1.1, beq_trans h.1.2 h'.1.2⟩, beqFields_trans h.2 h'.2⟩
end

instance decidableEqValue [DecidableEq F] : DecidableEq (Value F) := fun a b =>
  decidable_of_iff (a.beq b = true) ⟨eq_of_beq, fun h => h ▸ beq_refl a⟩

end Value
end ProcessingEngine

import Mathlib.Data.List.AList
import Mathlib.Data.List.Perm.Basic

/-!
# Finite maps with unique keys

A hash map is an association list without repeated keys.  The order of its
entries stands for the iteration order, on which nothing below depends.  The
lemmas count the values a map holds, which is what bookkeeping over a map of
statuses needs.
-/

namespace ProcessingEngine
namespace Lib

/-- A map from `κ` to `ν` with unique keys. -/
abbrev HashMap (κ ν : Type) := AList fun _ : κ => ν

/-- The order in which a hash map yields its keys.  The hasher is randomly
seeded, so it is any order. -/
structure HashOrder (κ : Type) where
  keys : List κ → List κ
  perm : ∀ ks, (keys ks).Perm ks

namespace HashOrder

def insertion {κ : Type} : HashOrder κ := ⟨id, fun _ => .refl _⟩

def reversed {κ : Type} : HashOrder κ := ⟨List.reverse, fun ks => ks.reverse_perm⟩

end HashOrder

namespace HashMap

variable {κ ν : Type}

/-- The values in iteration order. -/
def values (m : HashMap κ ν) : List ν := m.entries.map Sigma.snd

theorem mem_values {m : HashMap κ ν} {v : ν} :
    v ∈ m.values ↔ ∃ k, (⟨k, v⟩ : Sigma fun _ : κ => ν) ∈ m.entries := by
  simp only [values, List.mem_map]
  constructor
  · rintro ⟨⟨k, w⟩, hmem, rfl⟩
    exact ⟨k, hmem⟩
  · rintro ⟨k, hmem⟩
    exact ⟨⟨k, v⟩, hmem, rfl⟩

theorem length_values (m : HashMap κ ν) : m.values.length = m.keys.length := by
  simp [values, AList.keys, List.keys]

theorem lookup_insert [DecidableEq κ] (m : HashMap κ ν) (k : κ) (v : ν) (k' : κ) :
    AList.lookup k' (m.insert k v) = if k' = k then some v else m.lookup k' := by
  split_ifs with h
  · rw [h, AList.lookup_insert]
  · rw [AList.lookup_insert_ne h]

/-- What is under a key after an insertion is new, or was there before. -/
theorem cases_lookup_insert [DecidableEq κ] {m : HashMap κ ν} {k k' : κ} {v v' : ν}
    (h : AList.lookup k' (AList.insert k v m) = some v') :
    (k' = k ∧ v' = v) ∨ (k' ≠ k ∧ m.lookup k' = some v') := by
  by_cases hk : k' = k
  · subst hk
    rw [AList.lookup_insert] at h
    exact Or.inl ⟨rfl, (Option.some.inj h).symm⟩
  · rw [AList.lookup_insert_ne hk] at h
    exact Or.inr ⟨hk, h⟩

theorem lookup_erase [DecidableEq κ] (m : HashMap κ ν) (k k' : κ) :
    AList.lookup k' (m.erase k) = if k' = k then none else m.lookup k' := by
  split_ifs with h
  · rw [h, AList.lookup_erase]
  · rw [AList.lookup_erase_ne h]

theorem mem_of_lookup [DecidableEq κ] {m : HashMap κ ν} {k : κ} {v : ν}
    (h : m.lookup k = some v) : k ∈ m :=
  AList.lookup_isSome.mp (by rw [h]; rfl)

/-- Replacing the value at a key adds no key. -/
theorem length_keys_insert [DecidableEq κ] {m : HashMap κ ν} {k : κ} (h : k ∈ m) (v : ν) :
    (m.insert k v).keys.length = m.keys.length := by
  have hmem : k ∈ m.keys := AList.mem_keys.mp h
  rw [AList.keys_insert, List.length_cons, List.length_erase_of_mem hmem]
  have hpos := List.length_pos_of_mem hmem
  omega

theorem erase_insert [DecidableEq κ] {m : HashMap κ ν} {k : κ} (h : k ∉ m) (v : ν) :
    (m.insert k v).erase k = m := by
  refine AList.ext ?_
  show (m.insert k v).entries.kerase k = m.entries
  rw [AList.entries_insert_of_notMem h]
  exact List.kerase_cons_eq rfl

/-- Update every value (`values_mut`). -/
def mapValues (m : HashMap κ ν) (f : ν → ν) : HashMap κ ν where
  entries := m.entries.map fun e => ⟨e.1, f e.2⟩
  nodupKeys := by
    have hkeys : (m.entries.map fun e => (⟨e.1, f e.2⟩ : Sigma fun _ : κ => ν)).keys =
        m.entries.keys := by
      simp [List.keys, Function.comp_def]
    unfold List.NodupKeys
    rw [hkeys]
    exact m.nodupKeys

variable [DecidableEq κ]

theorem lookup_mapValues (m : HashMap κ ν) (f : ν → ν) (k : κ) :
    (m.mapValues f).lookup k = (m.lookup k).map f := by
  obtain ⟨entries, hnd⟩ := m
  simp only [AList.lookup, mapValues]
  clear hnd
  induction entries with
  | nil => rfl
  | cons e rest ih =>
      obtain ⟨k', v⟩ := e
      by_cases hk : k = k'
      · subst hk
        simp
      · have hne : k ≠ (⟨k', v⟩ : Sigma fun _ : κ => ν).1 := hk
        have hne' : k ≠ (⟨k', f v⟩ : Sigma fun _ : κ => ν).1 := hk
        rw [List.map_cons, List.dlookup_cons_ne _ _ hne, List.dlookup_cons_ne _ _ hne', ih]

/-- Update the value at `k`, when there is one (`get_mut`). -/
def modify (m : HashMap κ ν) (k : κ) (f : ν → ν) : HashMap κ ν :=
  match m.lookup k with
  | some v => m.insert k (f v)
  | none => m

theorem lookup_modify_self (m : HashMap κ ν) (k : κ) (f : ν → ν) :
    (m.modify k f).lookup k = (m.lookup k).map f := by
  unfold modify
  cases h : m.lookup k with
  | none => simp [h]
  | some v => simp

theorem lookup_modify_ne {m : HashMap κ ν} {k k' : κ} (f : ν → ν) (h : k' ≠ k) :
    (m.modify k f).lookup k' = m.lookup k' := by
  unfold modify
  cases m.lookup k with
  | none => rfl
  | some v => simp only [AList.lookup_insert_ne h]

theorem mem_values_iff_lookup {m : HashMap κ ν} {v : ν} :
    v ∈ m.values ↔ ∃ k, m.lookup k = some v := by
  rw [mem_values]
  exact exists_congr fun k => (AList.mem_lookup_iff (s := m)).symm

/-- A map filled from a list without repeated keys. -/
theorem lookup_foldl_insert {α : Type} (key : α → κ) (val : α → ν) {l : List α}
    (hnodup : (l.map key).Nodup) {m : HashMap κ ν} {k : κ} {v : ν} :
    (l.foldl (fun m a => m.insert (key a) (val a)) m).lookup k = some v ↔
      (∃ a ∈ l, key a = k ∧ val a = v) ∨ (k ∉ l.map key ∧ m.lookup k = some v) := by
  induction l generalizing m with
  | nil => simp
  | cons a l ih =>
      rw [List.map_cons, List.nodup_cons] at hnodup
      rw [List.foldl_cons, ih hnodup.2, List.exists_mem_cons_iff, List.map_cons, List.mem_cons,
        or_assoc]
      by_cases hk : k = key a
      · subst hk
        rw [AList.lookup_insert, Option.some.injEq]
        constructor
        · rintro (hmem | ⟨-, hv⟩)
          · exact Or.inr (Or.inl hmem)
          · exact Or.inl ⟨rfl, hv⟩
        · rintro (⟨-, hv⟩ | hmem | ⟨hnot, -⟩)
          · exact Or.inr ⟨hnodup.1, hv⟩
          · exact Or.inl hmem
          · exact absurd (Or.inl rfl) hnot
      · have hne : ¬ key a = k := fun h => hk h.symm
        rw [AList.lookup_insert_ne hk]
        simp [hk, hne]

omit [DecidableEq κ] in
/-- What was read comes from a row. -/
theorem exists_of_mem_mapM {α β : Type} {f : α → Option β} {as : List α} {bs : List β}
    (h : as.mapM f = some bs) {b : β} (hb : b ∈ bs) : ∃ a ∈ as, f a = some b := by
  induction as generalizing bs with
  | nil =>
      cases h
      cases hb
  | cons a as ih =>
      simp only [List.mapM_cons, Option.bind_eq_bind, Option.bind_eq_some_iff, Option.pure_def,
        Option.some.injEq] at h
      obtain ⟨b', hb', bs', hbs', rfl⟩ := h
      rcases List.mem_cons.mp hb with rfl | hmem
      · exact ⟨a, List.mem_cons_self, hb'⟩
      · obtain ⟨a', ha', hfa'⟩ := ih hbs' hmem
        exact ⟨a', List.mem_cons_of_mem _ ha', hfa'⟩

omit [DecidableEq κ] in
theorem mapM_of_isSome {β : Type} {f : (Sigma fun _ : κ => ν) → Option (κ × β)}
    (hkey : ∀ e x, f e = some x → x.1 = e.1) {es : List (Sigma fun _ : κ => ν)}
    (h : ∀ e ∈ es, (f e).isSome) :
    ∃ l, es.mapM f = some l ∧ l.map Prod.fst = es.keys ∧ ∀ x, x ∈ l ↔ ∃ e ∈ es, f e = some x := by
  induction es with
  | nil => exact ⟨[], rfl, rfl, by simp⟩
  | cons e es ih =>
      obtain ⟨l, hl, hkeys, hmem⟩ := ih fun e' he' => h e' (List.mem_cons_of_mem _ he')
      obtain ⟨x, hx⟩ := Option.isSome_iff_exists.mp (h e List.mem_cons_self)
      refine ⟨x :: l, ?_, ?_, fun y => ?_⟩
      · rw [List.mapM_cons, hx, hl]
        rfl
      · rw [List.map_cons, hkeys, hkey e x hx]
        rfl
      · rw [List.mem_cons, hmem, List.exists_mem_cons_iff, hx, Option.some.injEq, eq_comm]

/-- Reading a table row by row, when every row can be read. -/
theorem mapM_entries {β : Type} {f : κ → ν → Option (κ × β)}
    (hkey : ∀ k v x, f k v = some x → x.1 = k) {m : HashMap κ ν}
    (h : ∀ k v, m.lookup k = some v → (f k v).isSome) :
    ∃ l, (m.entries.mapM fun e => f e.1 e.2) = some l ∧ (l.map Prod.fst).Nodup ∧
      ∀ x, x ∈ l ↔ ∃ v, m.lookup x.1 = some v ∧ f x.1 v = some x := by
  have hkey' : ∀ (e : Sigma fun _ : κ => ν) x, f e.1 e.2 = some x → x.1 = e.1 :=
    fun e x => hkey e.1 e.2 x
  obtain ⟨l, hl, hkeys, hmem⟩ := mapM_of_isSome hkey' fun e he =>
    h e.1 e.2 (AList.mem_lookup_iff.mpr he)
  refine ⟨l, hl, ?_, fun x => ?_⟩
  · rw [hkeys]
    exact m.nodupKeys
  · rw [hmem]
    constructor
    · rintro ⟨⟨k, v⟩, he, hx⟩
      obtain rfl := hkey k v x hx
      exact ⟨v, AList.mem_lookup_iff.mpr he, hx⟩
    · rintro ⟨v, hv, hx⟩
      exact ⟨⟨x.1, v⟩, AList.mem_lookup_iff.mp hv, hx⟩

theorem kerase_perm_of_lookup {m : HashMap κ ν} {k : κ} {v : ν} (h : m.lookup k = some v) :
    m.entries.Perm (⟨k, v⟩ :: m.entries.kerase k) := by
  have hnd := m.nodupKeys
  refine List.lookup_ext hnd ?_ fun k' w => ?_
  · rw [List.nodupKeys_cons]
    exact ⟨List.notMem_keys_kerase k hnd, hnd.kerase k⟩
  · by_cases hk : k' = k
    · subst hk
      rw [List.dlookup_cons_eq]
      simpa [AList.lookup] using congrArg (w ∈ ·) h
    · have hs : k' ≠ (⟨k, v⟩ : Sigma fun _ : κ => ν).1 := hk
      rw [List.dlookup_cons_ne _ _ hs, List.dlookup_kerase_ne hk]

/-- Replacing the value at a key moves the count by the two values involved. -/
theorem countP_values_insert {m : HashMap κ ν} {k : κ} {v w : ν} (p : ν → Bool)
    (h : m.lookup k = some v) :
    (values (m.insert k w)).countP p + (if p v then 1 else 0) =
      m.values.countP p + if p w then 1 else 0 := by
  have hperm := (kerase_perm_of_lookup h).map Sigma.snd
  have hcount := hperm.countP_eq p
  simp only [List.map_cons, List.countP_cons] at hcount
  simp only [values, AList.entries_insert, List.map_cons, List.countP_cons]
  omega

end HashMap
end Lib
end ProcessingEngine

import Mathlib.Data.List.Perm.Basic
import Mathlib.Data.List.Dedup
import Mathlib.Data.List.Range
import Mathlib.Algebra.BigOperators.Group.Finset.Basic
import Mathlib.Algebra.Order.BigOperators.Group.Finset
import Mathlib.Combinatorics.Enumerative.DoubleCounting

/-!
# Round-robin slices and grouping

A list of numbered rows is dealt to `n` slices by the row number modulo `n`.
The slices together hold every row once.  Grouping each slice by a key gives the
groups of the whole list exactly when no key has rows in two slices, which
`groupMap_slices_perm_iff` states for any value computed from a group.
-/

namespace ProcessingEngine
namespace Lib

variable {α β κ : Type}

/-- The rows of slice `p` of `n`, in order and without their numbers. -/
def slice (n p : Nat) (rows : List (Nat × α)) : List α :=
  (rows.filter fun r => r.1 % n == p).map Prod.snd

theorem mem_slice {n p : Nat} {rows : List (Nat × α)} {a : α} :
    a ∈ slice n p rows ↔ ∃ i, (i, a) ∈ rows ∧ i % n = p := by
  simp [slice]

theorem slice_append (n p : Nat) (rows rows' : List (Nat × α)) :
    slice n p (rows ++ rows') = slice n p rows ++ slice n p rows' := by
  simp [slice]

theorem slice_cons_of_eq {n p i : Nat} (h : i % n = p) (a : α) (rows : List (Nat × α)) :
    slice n p ((i, a) :: rows) = a :: slice n p rows := by
  simp [slice, h]

theorem slice_cons_of_ne {n p i : Nat} (h : i % n ≠ p) (a : α) (rows : List (Nat × α)) :
    slice n p ((i, a) :: rows) = slice n p rows := by
  simp [slice, h]

theorem slice_map (n p : Nat) (f : α → β) (rows : List (Nat × α)) :
    slice n p (rows.map fun r => (r.1, f r.2)) = (slice n p rows).map f := by
  rw [slice, slice, List.filter_map, List.map_map, List.map_map]
  rfl

/-- Rows that are numbered by a function below `n` are dealt to its fibres. -/
theorem slice_map_number {n p : Nat} {c : α → Nat} (hc : ∀ a, c a < n) (l : List α) :
    slice n p (l.map fun a => (c a, a)) = l.filter fun a => c a == p := by
  have hmod : ∀ a, c a % n = c a := fun a => Nat.mod_eq_of_lt (hc a)
  induction l with
  | nil => rfl
  | cons a l ih =>
      by_cases hp : c a = p
      · rw [List.map_cons, slice_cons_of_eq ((hmod a).trans hp), ih]
        simp [hp]
      · rw [List.map_cons, slice_cons_of_ne (fun e => hp ((hmod a).symm.trans e)), ih]
        simp [hp]

theorem flatMap_filter_perm (c : α → Nat) (n : Nat) (l : List α) :
    ((List.range n).flatMap fun p => l.filter fun a => c a == p).Perm
      (l.filter fun a => decide (c a < n)) := by
  induction n with
  | zero => simp
  | succ n ih =>
      rw [List.range_succ, List.flatMap_append]
      have hsplit := List.filter_append_perm (fun a => decide (c a < n))
        (l.filter fun a => decide (c a < n + 1))
      simp only [List.filter_filter] at hsplit
      have hlt : ∀ a : α, (decide (c a < n) && decide (c a < n + 1)) = decide (c a < n) := by
        intro a
        by_cases h : c a < n <;> simp [h]
        omega
      have heq : ∀ a : α, (!decide (c a < n) && decide (c a < n + 1)) = (c a == n) := by
        intro a
        by_cases h : c a = n
        · simp [h]
        · have hne : (c a == n) = false := by simpa using h
          rw [hne]
          by_cases h' : c a < n <;> simp [h']
          omega
      simp only [hlt, heq] at hsplit
      refine List.Perm.trans ?_ hsplit
      simpa using ih.append_right _

/-- Every row is in exactly one slice. -/
theorem slices_perm {n : Nat} (hn : 0 < n) (rows : List (Nat × α)) :
    ((List.range n).flatMap fun p => slice n p rows).Perm (rows.map Prod.snd) := by
  have h := (flatMap_filter_perm (fun r : Nat × α => r.1 % n) n rows).map Prod.snd
  have hall : rows.filter (fun r => decide (r.1 % n < n)) = rows :=
    List.filter_eq_self.mpr fun r _ => by simpa using Nat.mod_lt r.1 hn
  rw [hall, List.map_flatMap] at h
  exact h

/-- Rows on which `k` takes one value all lie in one slice. -/
def Colocated (n : Nat) (k : α → κ) (rows : List (Nat × α)) : Prop :=
  ∀ r ∈ rows, ∀ s ∈ rows, k r.2 = k s.2 → r.1 % n = s.1 % n

variable [DecidableEq κ]

theorem filter_slice_of_mem {n p : Nat} {k : α → κ} {rows : List (Nat × α)} {x : κ}
    (h : ∀ r ∈ rows, k r.2 = x → r.1 % n = p) :
    (slice n p rows).filter (fun a => k a == x) =
      (rows.map Prod.snd).filter (fun a => k a == x) := by
  induction rows with
  | nil => rfl
  | cons r rows ih =>
      obtain ⟨i, a⟩ := r
      have ih := ih fun s hs => h s (List.mem_cons_of_mem _ hs)
      by_cases hk : k a = x
      · rw [slice_cons_of_eq (h (i, a) List.mem_cons_self hk)]
        simp [hk, ih]
      · by_cases hp : i % n = p
        · rw [slice_cons_of_eq hp]
          simp [hk, ih]
        · rw [slice_cons_of_ne hp]
          simp [hk, ih]

/-- One value per distinct key, computed from the key and its rows in order. -/
def groupMap (k : α → κ) (f : κ → List α → β) (l : List α) : List β :=
  (l.map k).dedup.map fun x => f x (l.filter fun a => k a == x)

theorem length_groupMap (k : α → κ) (f : κ → List α → β) (l : List α) :
    (groupMap k f l).length = (l.map k).toFinset.card := by
  rw [groupMap, List.length_map, List.card_toFinset]

theorem toFinset_slice_keys {n : Nat} (hn : 0 < n) (k : α → κ) (rows : List (Nat × α)) :
    (rows.map fun r => k r.2).toFinset =
      (Finset.range n).biUnion fun p => ((slice n p rows).map k).toFinset := by
  ext x
  simp only [List.mem_toFinset, List.mem_map, Finset.mem_biUnion, Finset.mem_range, mem_slice]
  constructor
  · rintro ⟨r, hr, rfl⟩
    exact ⟨r.1 % n, Nat.mod_lt _ hn, r.2, ⟨r.1, hr, rfl⟩, rfl⟩
  · rintro ⟨p, _, a, ⟨i, hi, _⟩, rfl⟩
    exact ⟨(i, a), hi, rfl⟩

/-- Counting the keys slice by slice counts a key once for each slice it has
rows in, so the count is that of the whole list only if each has one. -/
theorem colocated_of_card_eq {n : Nat} (hn : 0 < n) {k : α → κ} {rows : List (Nat × α)}
    (h : ∑ p ∈ Finset.range n, ((slice n p rows).map k).toFinset.card =
      (rows.map fun r => k r.2).toFinset.card) : Colocated n k rows := by
  set K := (rows.map fun r => k r.2).toFinset with hK
  let inSlice : Nat → κ → Prop := fun p x => x ∈ ((slice n p rows).map k).toFinset
  have habove : ∀ p, p ∈ Finset.range n →
      (Finset.bipartiteAbove inSlice K p).card = ((slice n p rows).map k).toFinset.card := by
    intro p hp
    congr 1
    ext x
    simp only [Finset.mem_bipartiteAbove, inSlice, and_iff_right_iff_imp]
    intro hx
    rw [hK, toFinset_slice_keys hn]
    exact Finset.mem_biUnion.mpr ⟨p, hp, hx⟩
  have hcount := Finset.sum_card_bipartiteAbove_eq_sum_card_bipartiteBelow
    (s := Finset.range n) (t := K) inSlice
  rw [Finset.sum_congr rfl habove, h] at hcount
  have hpos : ∀ x ∈ K, 1 ≤ (Finset.bipartiteBelow inSlice (Finset.range n) x).card := by
    intro x hx
    rw [hK, toFinset_slice_keys hn] at hx
    obtain ⟨p, hp, hxp⟩ := Finset.mem_biUnion.mp hx
    refine Finset.card_pos.mpr ⟨p, ?_⟩
    rw [Finset.mem_bipartiteBelow]
    exact ⟨hp, hxp⟩
  have hone := (Finset.sum_eq_sum_iff_of_le hpos).mp (by simpa using hcount)
  intro r hr s hs hrs
  have hmem : ∀ q ∈ rows, k q.2 = k r.2 →
      q.1 % n ∈ Finset.bipartiteBelow inSlice (Finset.range n) (k r.2) := by
    intro q hq hqr
    rw [Finset.mem_bipartiteBelow]
    refine ⟨Finset.mem_range.mpr (Nat.mod_lt _ hn), ?_⟩
    rw [← hqr]
    exact List.mem_toFinset.mpr (List.mem_map_of_mem (mem_slice.mpr ⟨q.1, hq, rfl⟩))
  have hx : k r.2 ∈ K := List.mem_toFinset.mpr (List.mem_map_of_mem hr)
  exact Finset.card_le_one.mp (hone _ hx).ge _ (hmem r hr rfl) _ (hmem s hs hrs.symm)

theorem groupMap_slices_perm {n : Nat} (hn : 0 < n) {k : α → κ} {rows : List (Nat × α)}
    (hco : Colocated n k rows) (f : κ → List α → β) :
    ((List.range n).flatMap fun p => groupMap k f (slice n p rows)).Perm
      (groupMap k f (rows.map Prod.snd)) := by
  have hgroup : ∀ p, groupMap k f (slice n p rows) =
      ((slice n p rows).map k).dedup.map
        fun x => f x ((rows.map Prod.snd).filter fun a => k a == x) := by
    intro p
    refine List.map_congr_left fun x hx => ?_
    rw [List.mem_dedup, List.mem_map] at hx
    obtain ⟨a, ha, rfl⟩ := hx
    obtain ⟨i, hi, hip⟩ := mem_slice.mp ha
    rw [filter_slice_of_mem fun r hr hk => (hco r hr (i, a) hi hk).trans hip]
  simp only [hgroup]
  rw [← List.map_flatMap]
  refine List.Perm.map _ ((List.perm_ext_iff_of_nodup ?_ (List.nodup_dedup _)).mpr fun x => ?_)
  · rw [List.nodup_flatMap]
    refine ⟨fun p _ => List.nodup_dedup _, List.nodup_range.pairwise_of_forall_ne ?_⟩
    intro p _ q _ hpq x hxp hxq
    simp only [List.mem_dedup, List.mem_map, mem_slice] at hxp hxq
    obtain ⟨a, ⟨i, hi, rfl⟩, rfl⟩ := hxp
    obtain ⟨b, ⟨j, hj, rfl⟩, hab⟩ := hxq
    exact hpq (hco (i, a) hi (j, b) hj hab.symm)
  · simp only [List.mem_flatMap, List.mem_range, List.mem_dedup, List.mem_map, mem_slice]
    constructor
    · rintro ⟨p, _, a, ⟨i, hi, _⟩, rfl⟩
      exact ⟨a, ⟨(i, a), hi, rfl⟩, rfl⟩
    · rintro ⟨a, ⟨r, hr, rfl⟩, rfl⟩
      exact ⟨r.1 % n, Nat.mod_lt _ hn, r.2, ⟨r.1, hr, rfl⟩, rfl⟩

/-- The slice-wise groups are the global groups exactly when every key is
confined to one slice. -/
theorem groupMap_slices_perm_iff {n : Nat} (hn : 0 < n) (k : α → κ) (rows : List (Nat × α))
    (f : κ → List α → β) :
    ((List.range n).flatMap fun p => groupMap k f (slice n p rows)).Perm
        (groupMap k f (rows.map Prod.snd)) ↔ Colocated n k rows := by
  refine ⟨fun h => colocated_of_card_eq hn ?_, fun hco => groupMap_slices_perm hn hco f⟩
  have hlen := h.length_eq
  simp only [List.length_flatMap, length_groupMap, List.map_map] at hlen
  rw [show (rows.map fun r => k r.2) = rows.map (k ∘ Prod.snd) from rfl, ← hlen]
  rfl

/-- Two lists with the same keys have the same values, where the keys determine them. -/
theorem map_perm_of_keys {α β κ γ : Type} {l : List α} {m : List β} {f : α → κ} {g : β → κ}
    {p : α → γ} {q : β → γ} (hkeys : (l.map f).Perm (m.map g))
    (hsame : ∀ a ∈ l, ∀ b ∈ m, f a = g b → p a = q b) : (l.map p).Perm (m.map q) := by
  obtain ⟨m', heq, hm⟩ : Relation.Comp (· = List.map g ·) List.Perm (l.map f) m := by
    rw [List.eq_map_comp_perm]
    exact hkeys
  have hmap : l.map p = m'.map q := by
    refine List.ext_getElem? fun i => ?_
    have hi : (l.map f)[i]? = (m'.map g)[i]? := by rw [heq]
    rw [List.getElem?_map, List.getElem?_map] at hi ⊢
    cases hl : l[i]? with
    | none =>
        rw [hl, Option.map_none, eq_comm, Option.map_eq_none_iff] at hi
        rw [hi]
        rfl
    | some a =>
        rw [hl, Option.map_some, eq_comm, Option.map_eq_some_iff] at hi
        obtain ⟨b, hb, hkey⟩ := hi
        have hmem := hm.mem_iff.mp (List.mem_of_getElem? hb)
        rw [hb, Option.map_some, Option.map_some,
          hsame a (List.mem_of_getElem? hl) b hmem hkey.symm]
  rw [hmap]
  exact hm.map q

end Lib
end ProcessingEngine

import Mathlib.Algebra.BigOperators.Group.List.Basic
import Mathlib.Order.MinMax

/-!
# Folds of slices

The fold of a list that starts with its first element, and with a default for an
empty list.  For the sum, with zero as the default, the folds of the slices of a
list can be folded to the fold of the list.  For a choice of the best element they
can when no slice is empty, or the default is no better than the best element
(`best_slices_iff`).
-/

namespace ProcessingEngine
namespace Lib

variable {α : Type}

/-- The fold from the first element. -/
def foldFirst (f : α → α → α) (z : α) : List α → α
  | [] => z
  | a :: as => as.foldl f a

theorem foldFirst_add [AddCommMonoid α] (as : List α) :
    foldFirst (fun a b => a + b) 0 as = as.sum := by
  cases as with
  | nil => rfl
  | cons a as => rw [foldFirst, List.sum_eq_foldl, List.foldl_cons, zero_add]

theorem foldFirst_add_slices [AddCommMonoid α] (slices : List (List α)) :
    foldFirst (fun a b => a + b) 0 (slices.map (foldFirst (fun a b => a + b) 0)) =
      foldFirst (fun a b => a + b) 0 slices.flatten := by
  simp only [foldFirst_add, List.sum_flatten]
  congr 1
  exact List.map_congr_left fun slice _ => foldFirst_add slice

/-- The operation yields the better of two elements. -/
structure Chooses (better : α → α → Prop) (f : α → α → α) : Prop where
  refl : ∀ a, better a a
  trans : ∀ a b c, better a b → better b c → better a c
  antisymm : ∀ a b, better a b → better b a → a = b
  left : ∀ a b, better (f a b) a
  right : ∀ a b, better (f a b) b
  either : ∀ a b, f a b = a ∨ f a b = b

namespace Chooses

variable {better : α → α → Prop} {f : α → α → α}

theorem foldl_best (h : Chooses better f) (as : List α) (a : α) :
    as.foldl f a ∈ a :: as ∧ ∀ b ∈ a :: as, better (as.foldl f a) b := by
  induction as generalizing a with
  | nil => exact ⟨List.mem_cons_self, List.forall_mem_singleton.mpr (h.refl a)⟩
  | cons c as ih =>
      obtain ⟨hmem, hbest⟩ := ih (f a c)
      have hfac := hbest (f a c) List.mem_cons_self
      constructor
      · rcases List.mem_cons.mp hmem with heq | hmem
        · rw [List.foldl_cons, heq]
          rcases h.either a c with hac | hac <;> rw [hac] <;> simp
        · exact List.mem_cons_of_mem _ (List.mem_cons_of_mem _ hmem)
      · intro b hb
        rcases List.mem_cons.mp hb with rfl | hb
        · exact h.trans _ _ _ hfac (h.left b c)
        · rcases List.mem_cons.mp hb with rfl | hb
          · exact h.trans _ _ _ hfac (h.right a b)
          · exact hbest b (List.mem_cons_of_mem _ hb)

/-- The fold of a list that is not empty is its best element. -/
theorem foldFirst_best (h : Chooses better f) (z : α) {as : List α} (hne : as ≠ []) :
    foldFirst f z as ∈ as ∧ ∀ b ∈ as, better (foldFirst f z as) b := by
  cases as with
  | nil => exact absurd rfl hne
  | cons a as => exact h.foldl_best as a

/-- The best of the slices is the best of the list exactly when no slice is empty
or some element is at least as good as the default. -/
theorem best_slices_iff (h : Chooses better f) (z : α) {slices : List (List α)}
    (hne : slices.flatten ≠ []) :
    foldFirst f z (slices.map (foldFirst f z)) = foldFirst f z slices.flatten ↔
      [] ∉ slices ∨ ∃ a ∈ slices.flatten, better a z := by
  obtain ⟨hmem, hbest⟩ := h.foldFirst_best z hne
  have hslices : slices.map (foldFirst f z) ≠ [] := by
    intro he
    rw [List.map_eq_nil_iff] at he
    exact hne (by rw [he, List.flatten_nil])
  obtain ⟨hmem', hbest'⟩ := h.foldFirst_best z hslices
  constructor
  · intro heq
    by_cases hempty : [] ∈ slices
    · apply Or.inr
      refine ⟨foldFirst f z slices.flatten, hmem, ?_⟩
      rw [← heq]
      exact hbest' z (List.mem_map.mpr ⟨[], hempty, rfl⟩)
    · exact Or.inl hempty
  · intro hcond
    apply h.antisymm
    · -- the best element is in a slice, of which the fold is better still
      obtain ⟨slice, hslice, hin⟩ := List.mem_flatten.mp hmem
      have hone := (h.foldFirst_best z (List.ne_nil_of_mem hin)).2 _ hin
      exact h.trans _ _ _ (hbest' _ (List.mem_map_of_mem hslice)) hone
    · obtain ⟨slice, hslice, heq⟩ := List.mem_map.mp hmem'
      rw [← heq]
      by_cases hempty : slice = []
      · subst hempty
        rcases hcond with hno | hsome
        · exact absurd hslice hno
        · obtain ⟨a, ha, hz⟩ := hsome
          exact h.trans _ _ _ (hbest a ha) hz
      · have hin := (h.foldFirst_best z hempty).1
        exact hbest _ (List.mem_flatten.mpr ⟨slice, hslice, hin⟩)

end Chooses

theorem chooses_min [LinearOrder α] : Chooses (fun a b : α => a ≤ b) min where
  refl := le_refl
  trans := fun _ _ _ => le_trans
  antisymm := fun _ _ => le_antisymm
  left := min_le_left
  right := min_le_right
  either := min_choice

theorem chooses_max [LinearOrder α] : Chooses (fun a b : α => b ≤ a) max where
  refl := le_refl
  trans := fun _ _ _ hab hbc => le_trans hbc hab
  antisymm := fun _ _ hab hba => le_antisymm hba hab
  left := le_max_left
  right := le_max_right
  either := max_choice

end Lib
end ProcessingEngine

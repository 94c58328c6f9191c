import Mathlib.Data.List.Basic

/-!
# Lines with either end

A text is divided at the letters `nl`.  A `cr` before an `nl` belongs to the end of
the line, any other one to the line, and nothing follows the last `nl`.  Texts that
end each line with both letters are read back (`cutLines_joinLines`).
-/

namespace ProcessingEngine
namespace Lib

variable {α : Type} [DecidableEq α]

/-- The stretches between the letters `nl`, each with whether one ends it. -/
def stretches (nl : α) : List α → List (List α × Bool)
  | [] => []
  | a :: rest =>
      if a = nl then ([], true) :: stretches nl rest
      else match stretches nl rest with
        | [] => [([a], false)]
        | (l, ended) :: more => (a :: l, ended) :: more

/-- Drop the `cr` of a line that is ended. -/
def dropEnd (cr : α) : List α × Bool → List α
  | (l, true) => if l.getLast? = some cr then l.dropLast else l
  | (l, false) => l

def cutLines (nl cr : α) (text : List α) : List (List α) := (stretches nl text).map (dropEnd cr)

/-- Each line with its end. -/
def joinLines (nl cr : α) (ls : List (List α)) : List α := ls.flatMap fun l => l ++ [cr, nl]

variable {nl cr : α}

theorem stretches_append {l : List α} (h : nl ∉ l) (rest : List α) :
    stretches nl (l ++ nl :: rest) = (l, true) :: stretches nl rest := by
  induction l with
  | nil => rw [List.nil_append, stretches, if_pos rfl]
  | cons a l ih =>
      rw [List.mem_cons, not_or] at h
      rw [List.cons_append, stretches, if_neg (Ne.symm h.1), ih h.2]

theorem notMem_of_mem_stretches {text : List α} {l : List α} {ended : Bool}
    (h : (l, ended) ∈ stretches nl text) : nl ∉ l := by
  induction text generalizing l ended with
  | nil => cases h
  | cons a text ih =>
      rw [stretches] at h
      split_ifs at h with ha
      · rcases List.mem_cons.mp h with heq | h
        · cases heq
          exact List.not_mem_nil
        · exact ih h
      · cases hrest : stretches nl text with
        | nil =>
            rw [hrest] at h
            cases List.mem_singleton.mp h
            exact fun hmem => ha (List.mem_singleton.mp hmem).symm
        | cons first more =>
            obtain ⟨first, last⟩ := first
            rw [hrest] at h ih
            rcases List.mem_cons.mp h with heq | h
            · cases heq
              intro hmem
              rcases List.mem_cons.mp hmem with heq | hmem
              · exact ha heq.symm
              · exact ih List.mem_cons_self hmem
            · exact ih (List.mem_cons_of_mem _ h)

/-- No line has an `nl` in it. -/
theorem notMem_of_mem_cutLines {text l : List α} (h : l ∈ cutLines nl cr text) : nl ∉ l := by
  obtain ⟨⟨stretch, ended⟩, hmem, rfl⟩ := List.mem_map.mp h
  have hnot := notMem_of_mem_stretches hmem
  cases ended with
  | false => exact hnot
  | true =>
      rw [dropEnd]
      split_ifs
      · exact fun h => hnot (List.dropLast_subset _ h)
      · exact hnot

theorem cutLines_append (hne : nl ≠ cr) {l : List α} (h : nl ∉ l) (rest : List α) :
    cutLines nl cr (l ++ [cr, nl] ++ rest) = l :: cutLines nl cr rest := by
  have hnot : nl ∉ l ++ [cr] := by
    rw [List.mem_append, List.mem_singleton, not_or]
    exact ⟨h, hne⟩
  have htext : l ++ [cr, nl] ++ rest = (l ++ [cr]) ++ nl :: rest := by simp
  rw [htext, cutLines, stretches_append hnot, List.map_cons, dropEnd, if_pos (by simp)]
  rw [List.dropLast_concat]
  rfl

/-- Lines that are written with both letters are read back. -/
theorem cutLines_joinLines (hne : nl ≠ cr) {ls : List (List α)} (h : ∀ l ∈ ls, nl ∉ l) :
    cutLines nl cr (joinLines nl cr ls) = ls := by
  induction ls with
  | nil => rfl
  | cons l ls ih =>
      rw [List.forall_mem_cons] at h
      rw [joinLines, List.flatMap_cons, cutLines_append hne h.1]
      exact congrArg (l :: ·) (ih h.2)

end Lib
end ProcessingEngine

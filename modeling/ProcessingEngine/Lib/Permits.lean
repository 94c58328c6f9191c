import Mathlib.Data.List.Sort

/-!
# A fair semaphore

A semaphore numbers its requests.  A request gets a permit at once when one is
available and waits otherwise, and a permit that is given back goes to the
request that has waited longest.  `Fair` is what every sequence of requests,
releases and withdrawals keeps: no permit is lost or made up, and no request
holds a permit while an earlier one waits.
-/

namespace ProcessingEngine
namespace Lib

structure Permits where
  available : Nat
  /-- The number of the next request. -/
  next : Nat := 0
  waiting : List Nat := []
  holders : List Nat := []
  deriving DecidableEq, Repr

namespace Permits

def acquire (p : Permits) : Permits :=
  if p.available = 0 then { p with next := p.next + 1, waiting := p.waiting ++ [p.next] }
  else { p with
    available := p.available - 1
    next := p.next + 1
    holders := p.next :: p.holders }

/-- A permit comes back. -/
def handOn (p : Permits) : Permits :=
  match p.waiting with
  | [] => { p with available := p.available + 1 }
  | k :: rest => { p with waiting := rest, holders := k :: p.holders }

def release (p : Permits) (k : Nat) : Permits :=
  { p with holders := p.holders.erase k }.handOn

/-- The request `k` is withdrawn while it waits. -/
def withdraw (p : Permits) (k : Nat) : Permits := { p with waiting := p.waiting.erase k }

/-- The state of a semaphore with `capacity` permits. -/
structure Fair (capacity : Nat) (p : Permits) : Prop where
  conserved : p.available + p.holders.length = capacity
  busy : p.waiting ≠ [] → p.available = 0
  ordered : p.waiting.Pairwise (· < ·)
  waiting_lt : ∀ k ∈ p.waiting, k < p.next
  holders_lt : ∀ h ∈ p.holders, h < p.next
  ahead : ∀ h ∈ p.holders, ∀ k ∈ p.waiting, h < k
  distinct : p.holders.Nodup

variable {capacity : Nat} {p p' : Permits} {k : Nat}

theorem Fair.acquire (h : Fair capacity p) : Fair capacity p.acquire := by
  unfold Permits.acquire
  split_ifs with havailable
  · refine ⟨h.conserved, fun _ => havailable, ?_, ?_, ?_, ?_, h.distinct⟩
    · rw [List.pairwise_append]
      exact ⟨h.ordered, List.pairwise_singleton _ _, by simpa using h.waiting_lt⟩
    · intro k hk
      show k < p.next + 1
      rcases List.mem_append.mp hk with hk | hk
      · have := h.waiting_lt k hk
        omega
      · have := List.mem_singleton.mp hk
        omega
    · intro i hi
      exact Nat.lt_succ_of_lt (h.holders_lt i hi)
    · intro i hi k hk
      rcases List.mem_append.mp hk with hk | hk
      · exact h.ahead i hi k hk
      · rw [List.mem_singleton.mp hk]
        exact h.holders_lt i hi
  · have hempty : p.waiting = [] := by
      by_contra hwaiting
      exact havailable (h.busy hwaiting)
    have hconserved := h.conserved
    refine ⟨?_, fun hwaiting => absurd hempty hwaiting, h.ordered, ?_, ?_, ?_, ?_⟩
    · show p.available - 1 + (p.holders.length + 1) = capacity
      omega
    · intro k hk
      exact Nat.lt_succ_of_lt (h.waiting_lt k hk)
    · intro i hi
      show i < p.next + 1
      rcases List.mem_cons.mp hi with rfl | hi
      · exact Nat.lt_succ_self _
      · exact Nat.lt_succ_of_lt (h.holders_lt i hi)
    · intro i _ k hk
      have hk : k ∈ p.waiting := hk
      rw [hempty] at hk
      cases hk
    · refine List.nodup_cons.mpr ⟨fun hmem => ?_, h.distinct⟩
      exact Nat.lt_irrefl _ (h.holders_lt _ hmem)

theorem Fair.release (h : Fair capacity p) (hk : k ∈ p.holders) : Fair capacity (p.release k) := by
  have hlength := List.length_erase_of_mem hk
  have hpos := List.length_pos_of_mem hk
  have hconserved := h.conserved
  have hsub : ∀ i ∈ p.holders.erase k, i ∈ p.holders := fun _ => List.mem_of_mem_erase
  unfold Permits.release handOn
  dsimp only
  split
  · next hempty =>
      refine ⟨?_, fun hwaiting => absurd hempty hwaiting, h.ordered, h.waiting_lt,
        fun i hi => h.holders_lt i (hsub i hi), fun i hi => h.ahead i (hsub i hi),
        h.distinct.erase k⟩
      show p.available + 1 + (p.holders.erase k).length = capacity
      omega
  · next first rest hwaiting =>
      have hordered := h.ordered
      rw [hwaiting, List.pairwise_cons] at hordered
      have hmem : ∀ i ∈ first :: rest, i ∈ p.waiting := by
        intro i hi
        rwa [hwaiting]
      have hfirst : first ∈ p.waiting := hmem first List.mem_cons_self
      refine ⟨?_, fun _ => h.busy (List.ne_nil_of_mem hfirst), hordered.2,
        fun i hi => h.waiting_lt i (hmem i (List.mem_cons_of_mem _ hi)), ?_, ?_, ?_⟩
      · show p.available + ((p.holders.erase k).length + 1) = capacity
        omega
      · intro i hi
        rcases List.mem_cons.mp hi with rfl | hi
        · exact h.waiting_lt _ hfirst
        · exact h.holders_lt i (hsub i hi)
      · intro i hi j hj
        rcases List.mem_cons.mp hi with rfl | hi
        · exact hordered.1 j hj
        · exact h.ahead i (hsub i hi) j (hmem j (List.mem_cons_of_mem _ hj))
      · refine List.nodup_cons.mpr ⟨fun hheld => ?_, h.distinct.erase k⟩
        exact Nat.lt_irrefl _ (h.ahead first (hsub first hheld) first hfirst)

theorem Fair.withdraw (h : Fair capacity p) (k : Nat) : Fair capacity (p.withdraw k) := by
  have hsub : ∀ i ∈ p.waiting.erase k, i ∈ p.waiting := fun _ => List.mem_of_mem_erase
  refine ⟨h.conserved, fun hwaiting => h.busy fun hempty => hwaiting ?_,
    h.ordered.sublist List.erase_sublist, fun i hi => h.waiting_lt i (hsub i hi), h.holders_lt,
    fun i hi j hj => h.ahead i hi j (hsub j hj), h.distinct⟩
  show p.waiting.erase k = []
  rw [hempty]
  rfl

theorem Fair.length_holders_le (h : Fair capacity p) : p.holders.length ≤ capacity := by
  have := h.conserved
  omega

theorem Fair.notMem_waiting (h : Fair capacity p) (hk : k ∈ p.holders) : k ∉ p.waiting :=
  fun hwaiting => Nat.lt_irrefl k (h.ahead k hk k hwaiting)

/-! ### Where a request is after a move -/

theorem acquire_next (p : Permits) : p.acquire.next = p.next + 1 := by
  unfold Permits.acquire
  split_ifs <;> rfl

theorem release_next (p : Permits) (k : Nat) : (p.release k).next = p.next := by
  unfold Permits.release handOn
  dsimp only
  split <;> rfl

/-- The new request holds a permit or waits, and the others stay where they are. -/
theorem mem_acquire (p : Permits) (i : Nat) :
    (i ∈ p.acquire.holders ↔ i ∈ p.holders ∨ p.available ≠ 0 ∧ i = p.next) ∧
      (i ∈ p.acquire.waiting ↔ i ∈ p.waiting ∨ p.available = 0 ∧ i = p.next) := by
  unfold Permits.acquire
  by_cases havailable : p.available = 0
  · rw [if_pos havailable]
    simp [havailable]
  · rw [if_neg havailable]
    simp [havailable, or_comm]

/-- What a release does to a request that is not released: it stays, or it gets
the permit. -/
theorem mem_release {i : Nat} (hi : i ≠ k) :
    (i ∈ p.holders → i ∈ (p.release k).holders) ∧
      (i ∈ p.waiting → i ∈ (p.release k).holders ∨ i ∈ (p.release k).waiting) ∧
      (i ∈ (p.release k).holders → i ∈ p.holders ∨ i ∈ p.waiting) ∧
      (i ∈ (p.release k).waiting → i ∈ p.waiting) := by
  unfold Permits.release handOn
  dsimp only
  split
  · next hempty => simp [hempty, List.mem_erase_of_ne hi]
  · next first rest hwaiting =>
      rw [hwaiting]
      simp only [List.mem_cons, List.mem_erase_of_ne hi]
      grind

/-- A request that is released is neither holding nor waiting. -/
theorem Fair.notMem_release (h : Fair capacity p) (hk : k ∈ p.holders) :
    k ∉ (p.release k).holders ∧ k ∉ (p.release k).waiting := by
  have herase : k ∉ p.holders.erase k := h.distinct.not_mem_erase
  have hnot := h.notMem_waiting hk
  unfold Permits.release handOn
  dsimp only
  split
  · exact ⟨herase, hnot⟩
  · next first rest hwaiting =>
      rw [hwaiting, List.mem_cons, not_or] at hnot
      exact ⟨by simp [hnot.1, herase], hnot.2⟩

theorem mem_withdraw {i : Nat} (hi : i ≠ k) : i ∈ (p.withdraw k).waiting ↔ i ∈ p.waiting :=
  List.mem_erase_of_ne hi

theorem Fair.notMem_withdraw (h : Fair capacity p) : k ∉ (p.withdraw k).waiting :=
  List.Nodup.not_mem_erase (h.ordered.imp Nat.ne_of_lt)

/-! ### Who holds the permits -/

end Permits
end Lib
end ProcessingEngine

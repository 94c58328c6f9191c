import ProcessingEngine.Lib.Footprint
import ProcessingEngine.Lib.Transition

/-!
# Interleaved programs

Programs over one store take turns, one operation at a time.  When the operations
of each do not change what those of another depend on, every program ends as it
does alone (`Separate.results_eq`).  `agree` says that two stores are the same as
far as a program is concerned.
-/

namespace ProcessingEngine
namespace Lib

variable {ι ρ σ α : Type}

def Prog.value : Prog ι ρ α → Option α
  | .pure a => some a
  | .op _ _ => none

theorem Prog.eq_pure_of_value {x : Prog ι ρ α} {a : α} (h : x.value = some a) : x = .pure a := by
  cases x with
  | pure b => exact congrArg Prog.pure (Option.some.inj h)
  | op i k => cases h

structure Threads (ι ρ σ α : Type) where
  progs : List (Prog ι ρ α)
  store : σ

namespace Threads

variable [Interp ι ρ σ]

/-- The next operation of the program `k`. -/
def step (t : Threads ι ρ σ α) (k : Nat) : Option (Threads ι ρ σ α) :=
  match t.progs[k]? with
  | some (.op i next) =>
      some ⟨t.progs.set k (next (Interp.exec i t.store).1), (Interp.exec i t.store).2⟩
  | _ => none

omit [Interp ι ρ σ] in
/-- The results, when all programs have ended. -/
def results (t : Threads ι ρ σ α) : Option (List α) := t.progs.mapM Prog.value

variable {t t' : Threads ι ρ σ α}

theorem step_cases {k : Nat} (h : t.step k = some t') :
    ∃ i next, t.progs[k]? = some (.op i next) ∧
      t' = ⟨t.progs.set k (next (Interp.exec i t.store).1), (Interp.exec i t.store).2⟩ := by
  unfold step at h
  split at h
  · rename_i i next heq
    cases h
    exact ⟨i, next, heq, rfl⟩
  · cases h

theorem step_getElem?_ne {j k : Nat} (hstep : t.step j = some t') (hj : j ≠ k) :
    t'.progs[k]? = t.progs[k]? := by
  obtain ⟨i, next, -, rfl⟩ := step_cases hstep
  exact List.getElem?_set_ne hj

omit [Interp ι ρ σ] in
theorem results_eq_some {as : List α} (h : t.results = some as) :
    as.length = t.progs.length ∧
      ∀ (k : Nat) (a : α), as[k]? = some a → t.progs[k]? = some (Prog.pure a) := by
  obtain ⟨progs, store⟩ := t
  unfold results at h
  dsimp only at h ⊢
  induction progs generalizing as with
  | nil =>
      cases h
      simp
  | cons x progs ih =>
      simp only [List.mapM_cons, Option.pure_def, Option.bind_eq_bind,
        Option.bind_eq_some_iff] at h
      obtain ⟨a, ha, rest, hrest, heq⟩ := h
      cases heq
      obtain ⟨hlen, hget⟩ := ih hrest
      refine ⟨congrArg Nat.succ hlen, fun k b hb => ?_⟩
      cases k with
      | zero =>
          cases hb
          exact congrArg some (Prog.eq_pure_of_value ha)
      | succ k => exact hget k b hb

/-- One step of the program `k` or of another one, seen from `k`: its program
goes on as it does alone. -/
def Ahead (agree : σ → σ → Prop) (own : ι → Prop) (k : Nat) (out : α × σ)
    (t : Threads ι ρ σ α) : Prop :=
  ∃ x s, t.progs[k]? = some x ∧ agree t.store s ∧ x s = out ∧ x.Along own s

/-- The programs other than `k` take only steps that leave what it sees. -/
def Apart (agree : σ → σ → Prop) (k : Nat) (t : Threads ι ρ σ α) (j : Nat) : Prop :=
  j ≠ k → ∀ t', t.step j = some t' → agree t'.store t.store

section

variable {agree : σ → σ → Prop} {own : ι → Prop} {k : Nat} {out : α × σ}

theorem Ahead.step (htrans : ∀ a b c, agree a b → agree b c → agree a c)
    (hown : ∀ i s s', own i → agree s s' → (Interp.exec i s).1 = (Interp.exec i s').1 ∧
      agree (Interp.exec i s).2 (Interp.exec i s').2) (h : Ahead agree own k out t) {j : Nat}
    (hapart : Apart agree k t j) (hstep : t.step j = some t') : Ahead agree own k out t' := by
  obtain ⟨x, s, hx, hagree, hout, halong⟩ := h
  by_cases hj : j = k
  · subst hj
    obtain ⟨i, next, hnext, rfl⟩ := step_cases hstep
    obtain rfl : x = .op i next := Option.some.inj (hx.symm.trans hnext)
    obtain ⟨hanswer, hafter⟩ := hown i t.store s halong.1 hagree
    refine ⟨next (Interp.exec i t.store).1, (Interp.exec i s).2, ?_, hafter, ?_, ?_⟩
    · exact List.getElem?_set_self (List.getElem?_eq_some_iff.mp hnext).1
    · rw [hanswer]
      exact hout
    · rw [hanswer]
      exact halong.2
  · refine ⟨x, s, (step_getElem?_ne hstep hj).trans hx, ?_, hout, halong⟩
    exact htrans _ _ _ (hapart hj t' hstep) hagree

end

/-! ### Programs that use different parts of the store -/

/-- The operations of one program depend on what it sees of the store, and those
of another do not change it. -/
structure Separate (own : Nat → ι → Prop) (agree : Nat → σ → σ → Prop) : Prop where
  refl : ∀ k s, agree k s s
  trans : ∀ k a b c, agree k a b → agree k b c → agree k a c
  sees : ∀ k i s s', own k i → agree k s s' → (Interp.exec i s).1 = (Interp.exec i s').1 ∧
    agree k (Interp.exec i s).2 (Interp.exec i s').2
  apart : ∀ j k i s, j ≠ k → own j i → agree k (Interp.exec i s).2 s

section

variable {own : Nat → ι → Prop} {agree : Nat → σ → σ → Prop}

/-- Programs that keep to their own operations when each is run alone go on in
every interleaving as they do alone. -/
theorem Separate.ahead (h : Separate own agree)
    (halong : ∀ (k : Nat) (x : Prog ι ρ α), t.progs[k]? = some x → x.Along (own k) t.store)
    {schedule : List Nat} (hrun : Lib.run Threads.step t schedule = some t') :
    t'.progs.length = t.progs.length ∧ ∀ (k : Nat) (x : Prog ι ρ α), t.progs[k]? = some x →
      Ahead (agree k) (own k) k (x t.store) t' := by
  refine run_invariant (G := fun _ _ => True)
    (I := fun s : Threads ι ρ σ α => s.progs.length = t.progs.length ∧
      ∀ (k : Nat) (x : Prog ι ρ α), t.progs[k]? = some x →
        Ahead (agree k) (own k) k (x t.store) s)
    (fun s j s' hs _ hstep => ?_)
    ⟨rfl, fun k x hx => ⟨x, t.store, hx, h.refl k _, rfl, halong k x hx⟩⟩
    (along_of_forall fun _ _ => trivial) hrun
  constructor
  · obtain ⟨i, next, -, rfl⟩ := step_cases hstep
    exact List.length_set.trans hs.1
  · intro k x hx
    refine (hs.2 k x hx).step (h.trans k) (h.sees k) (fun hjk s₂ hstep₂ => ?_) hstep
    obtain ⟨i, next, hnext, rfl⟩ := step_cases hstep₂
    have hj : j < t.progs.length := hs.1 ▸ (List.getElem?_eq_some_iff.mp hnext).1
    obtain ⟨z, s₃, hz, -, -, hown⟩ := hs.2 j _ (List.getElem?_eq_getElem hj)
    obtain rfl : z = .op i next := Option.some.inj (hz.symm.trans hnext)
    exact h.apart j k i s.store hjk hown.1

theorem Separate.ends_alone (h : Separate own agree)
    (halong : ∀ (k : Nat) (x : Prog ι ρ α), t.progs[k]? = some x → x.Along (own k) t.store)
    {schedule : List Nat} (hrun : Lib.run Threads.step t schedule = some t') {k : Nat}
    {x : Prog ι ρ α} (hx : t.progs[k]? = some x) {a : α}
    (hdone : t'.progs[k]? = some (.pure a)) :
    (x t.store).1 = a ∧ agree k t'.store (x t.store).2 := by
  obtain ⟨y, s, hy, hagree, hout, -⟩ := (h.ahead halong hrun).2 k x hx
  obtain rfl : y = .pure a := Option.some.inj (hy.symm.trans hdone)
  rw [← hout]
  exact ⟨rfl, hagree⟩

/-- The results are those of the programs alone. -/
theorem Separate.results_eq (h : Separate own agree)
    (halong : ∀ (k : Nat) (x : Prog ι ρ α), t.progs[k]? = some x → x.Along (own k) t.store)
    {schedule : List Nat} (hrun : Lib.run Threads.step t schedule = some t') {as : List α}
    (hdone : t'.results = some as) : as = t.progs.map fun x => (x t.store).1 := by
  obtain ⟨hlen, hget⟩ := results_eq_some hdone
  have hlength := (h.ahead halong hrun).1
  refine List.ext_getElem (by rw [List.length_map]; omega) fun k hk hk' => ?_
  rw [List.getElem_map]
  have hx := List.getElem?_eq_getElem (l := t.progs) (i := k) (by omega)
  exact (h.ends_alone halong hrun hx (hget k _ (List.getElem?_eq_getElem hk))).1.symm

end

/-! ### A program that is not disturbed -/

/-- The answer that the next operation of the program `k` gets from the store `s`. -/
def nextAnswer (t : Threads ι ρ σ α) (k : Nat) (s : σ) : Option ρ :=
  match t.progs[k]? with
  | some (.op i _) => some (Interp.exec i s).1
  | _ => none

/-- What the next operation of the program `k` makes of the store `s`. -/
def nextStore (t : Threads ι ρ σ α) (k : Nat) (s : σ) : σ :=
  match t.progs[k]? with
  | some (.op i _) => (Interp.exec i s).2
  | _ => s

/-- A step of the programs, beside a store that only those of the program `k` change. -/
def watch (k : Nat) (w : Threads ι ρ σ α × σ) (j : Nat) : Option (Threads ι ρ σ α × σ) :=
  (w.1.step j).map fun t => (t, if j = k then w.1.nextStore k w.2 else w.2)

/-- The program `k` is given the answers that it gets from the other store. -/
def Undisturbed (k : Nat) (w : Threads ι ρ σ α × σ) (j : Nat) : Prop :=
  j = k → w.1.nextAnswer k w.1.store = w.1.nextAnswer k w.2

instance decidableUndisturbed [DecidableEq ρ] (k : Nat) (w : Threads ι ρ σ α × σ) (j : Nat) :
    Decidable (Undisturbed k w j) :=
  inferInstanceAs (Decidable (j = k → w.1.nextAnswer k w.1.store = w.1.nextAnswer k w.2))

/-- Every run is watched by a store. -/
theorem exists_watch (k : Nat) (s : σ) {schedule : List Nat}
    (hrun : Lib.run Threads.step t schedule = some t') :
    ∃ s', Lib.run (watch k) (t, s) schedule = some (t', s') := by
  induction schedule generalizing t s with
  | nil =>
      cases hrun
      exact ⟨s, rfl⟩
  | cons j schedule ih =>
      obtain ⟨t₁, hstep, hrest⟩ := Option.bind_eq_some_iff.mp hrun
      obtain ⟨s', hs'⟩ := ih (if j = k then t.nextStore k s else s) hrest
      refine ⟨s', ?_⟩
      rw [run_cons, watch, hstep]
      exact hs'

/-- A program is as it was until it takes a step. -/
theorem run_getElem?_of_notMem {k : Nat} {schedule : List Nat} (hk : k ∉ schedule)
    (hrun : Lib.run Threads.step t schedule = some t') : t'.progs[k]? = t.progs[k]? := by
  refine run_invariant (G := fun _ j => j ≠ k)
    (I := fun s : Threads ι ρ σ α => s.progs[k]? = t.progs[k]?)
    (fun s j s' hs hj hstep => (step_getElem?_ne hstep hj).trans hs) rfl
    (along_of_forall fun j hmem heq => hk (heq ▸ hmem)) hrun

/-- A program that is not disturbed ends as it does alone. -/
theorem ends_undisturbed {k : Nat} {x : Prog ι ρ α} (hx : t.progs[k]? = some x)
    {schedule : List Nat} (hG : Along (watch k) (Undisturbed k) (t, t.store) schedule)
    (hrun : Lib.run Threads.step t schedule = some t') {a : α}
    (hdone : t'.progs[k]? = some (.pure a)) : (x t.store).1 = a := by
  obtain ⟨s', hwatch⟩ := exists_watch k t.store hrun
  have hend : ∃ y, t'.progs[k]? = some y ∧ y s' = x t.store := by
    refine run_invariant (I := fun w : Threads ι ρ σ α × σ =>
      ∃ y, w.1.progs[k]? = some y ∧ y w.2 = x t.store) (fun w j w' hw hundisturbed hstep => ?_)
      ⟨x, hx, rfl⟩ hG hwatch
    obtain ⟨y, hy, hout⟩ := hw
    obtain ⟨t₁, ht₁, rfl⟩ := Option.map_eq_some_iff.mp hstep
    by_cases hj : j = k
    · subst hj
      obtain ⟨i, next, hnext, rfl⟩ := step_cases ht₁
      obtain rfl : y = .op i next := Option.some.inj (hy.symm.trans hnext)
      have hanswer := hundisturbed rfl
      unfold nextAnswer at hanswer
      rw [hnext] at hanswer
      have hanswer : (Interp.exec i w.1.store).1 = (Interp.exec i w.2).1 := Option.some.inj hanswer
      refine ⟨next (Interp.exec i w.1.store).1,
        List.getElem?_set_self (List.getElem?_eq_some_iff.mp hnext).1, ?_⟩
      rw [if_pos rfl, nextStore, hnext, hanswer]
      exact hout
    · rw [if_neg hj]
      exact ⟨y, (step_getElem?_ne ht₁ hj).trans hy, hout⟩
  obtain ⟨y, hy, hout⟩ := hend
  obtain rfl : y = .pure a := Option.some.inj (hy.symm.trans hdone)
  rw [← hout]
  rfl

/-! ### Programs that keep to their operations -/

/-- Every program keeps to its own operations. -/
def Keeping (own : Nat → ι → Prop) (t : Threads ι ρ σ α) : Prop :=
  ∀ (k : Nat) (x : Prog ι ρ α), t.progs[k]? = some x → x.Uses (own k) fun _ => True

theorem Keeping.step {own : Nat → ι → Prop} (h : Keeping own t) {j : Nat}
    (hstep : t.step j = some t') : Keeping own t' := by
  intro k x hx
  by_cases hj : j = k
  · subst hj
    obtain ⟨i, next, hnext, rfl⟩ := step_cases hstep
    have hx : (t.progs.set j _)[j]? = some x := hx
    rw [List.getElem?_set_self (List.getElem?_eq_some_iff.mp hnext).1] at hx
    cases hx
    exact (h j _ hnext).2 _
  · rw [step_getElem?_ne hstep hj] at hx
    exact h k x hx

/-- What no operation changes stays as it is. -/
theorem Keeping.keeps {own : Nat → ι → Prop} {I : σ → Prop}
    (hI : ∀ k i s, own k i → I s → I (Interp.exec i s).2) (h : Keeping own t) (hs : I t.store)
    {schedule : List Nat} (hrun : Lib.run Threads.step t schedule = some t') : I t'.store := by
  have hend : Keeping own t' ∧ I t'.store := by
    refine run_invariant (G := fun _ _ => True)
      (I := fun t : Threads ι ρ σ α => Keeping own t ∧ I t.store)
      (fun t j t' hinv _ hstep => ?_) ⟨h, hs⟩ (along_of_forall fun _ _ => trivial) hrun
    refine ⟨hinv.1.step hstep, ?_⟩
    obtain ⟨i, next, hnext, rfl⟩ := step_cases hstep
    exact hI j i t.store (hinv.1 j _ hnext).1 hinv.2
  exact hend.2

end Threads
end Lib
end ProcessingEngine

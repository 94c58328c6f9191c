import Mathlib.Logic.Basic
import Mathlib.Data.List.Basic

/-!
# Runs of a labelled transition system

A system is a partial step function; a label says which of the enabled moves is
taken.  `run` executes a list of labels, and `Along G` says that every step of
the run satisfies `G` in the state it is taken from.  The two rules are the
invariant rule for such runs and the rule that turns a relation between the
two ends of one step into a relation between the ends of a run.
-/

namespace ProcessingEngine
namespace Lib

variable {σ α : Type}

/-- Execute the labels in order; `none` when one of them is not enabled. -/
def run (step : σ → α → Option σ) : σ → List α → Option σ
  | s, [] => some s
  | s, a :: as => (step s a).bind fun s' => run step s' as

@[simp] theorem run_nil (step : σ → α → Option σ) (s : σ) : run step s [] = some s := rfl

@[simp] theorem run_cons (step : σ → α → Option σ) (s : σ) (a : α) (as : List α) :
    run step s (a :: as) = (step s a).bind fun s' => run step s' as := rfl

theorem run_append (step : σ → α → Option σ) (s : σ) (as bs : List α) :
    run step s (as ++ bs) = (run step s as).bind fun s' => run step s' bs := by
  induction as generalizing s with
  | nil => rfl
  | cons a as ih =>
      simp only [List.cons_append, run_cons]
      cases step s a with
      | none => rfl
      | some s' => simpa using ih s'

theorem run_append_eq_some {step : σ → α → Option σ} {s s'' : σ} {as bs : List α} :
    run step s (as ++ bs) = some s'' ↔
      ∃ s', run step s as = some s' ∧ run step s' bs = some s'' := by
  rw [run_append, Option.bind_eq_some_iff]

/-- Every step of the run from `s` satisfies `G` where it is taken. -/
def Along (step : σ → α → Option σ) (G : σ → α → Prop) : σ → List α → Prop
  | _, [] => True
  | s, a :: as => G s a ∧ ∀ s', step s a = some s' → Along step G s' as

/-- A decidable condition can be checked along a run. -/
instance decidableAlong (step : σ → α → Option σ) (G : σ → α → Prop)
    [∀ s a, Decidable (G s a)] : ∀ s as, Decidable (Along step G s as)
  | _, [] => isTrue trivial
  | s, a :: as =>
      have : Decidable (∀ s', step s a = some s' → Along step G s' as) :=
        match h : step s a with
        | none => isTrue fun _ e => by cases e
        | some s' =>
            have := decidableAlong step G s' as
            decidable_of_iff (Along step G s' as) (by simp)
      inferInstanceAs (Decidable (G s a ∧ ∀ s', step s a = some s' → Along step G s' as))

/-- A condition on the labels alone holds along every run. -/
theorem along_of_forall {step : σ → α → Option σ} {p : α → Prop} {s : σ} {as : List α}
    (h : ∀ a ∈ as, p a) : Along step (fun _ a => p a) s as := by
  induction as generalizing s with
  | nil => trivial
  | cons a as ih =>
      rw [List.forall_mem_cons] at h
      exact ⟨h.1, fun s' _ => ih h.2⟩

theorem along_append {step : σ → α → Option σ} {G : σ → α → Prop} {s s' : σ} {as bs : List α}
    (h : Along step G s (as ++ bs)) (hrun : run step s as = some s') :
    Along step G s as ∧ Along step G s' bs := by
  induction as generalizing s with
  | nil =>
      cases hrun
      exact ⟨trivial, h⟩
  | cons a as ih =>
      simp only [run_cons, Option.bind_eq_some_iff] at hrun
      obtain ⟨s₁, hs₁, hrest⟩ := hrun
      have hrec := ih (h.2 s₁ hs₁) hrest
      refine ⟨⟨h.1, fun s₂ hs₂ => ?_⟩, hrec.2⟩
      cases hs₁.symm.trans hs₂
      exact hrec.1

/-- The invariant rule: an invariant of every step taken under `G` holds at the
end of every run whose steps satisfy `G`. -/
theorem run_invariant {step : σ → α → Option σ} {G : σ → α → Prop} {I : σ → Prop}
    (hstep : ∀ s a s', I s → G s a → step s a = some s' → I s')
    {s s' : σ} {as : List α} (hs : I s) (hG : Along step G s as)
    (hrun : run step s as = some s') : I s' := by
  induction as generalizing s with
  | nil =>
      cases hrun
      exact hs
  | cons a as ih =>
      simp only [run_cons, Option.bind_eq_some_iff] at hrun
      obtain ⟨s₁, hs₁, hrest⟩ := hrun
      exact ih (hstep s a s₁ hs hG.1 hs₁) (hG.2 s₁ hs₁) hrest

/-- The invariant rule for an invariant of every step. -/
theorem run_keeps {step : σ → α → Option σ} {I : σ → Prop}
    (hstep : ∀ s a s', I s → step s a = some s' → I s') {s s' : σ} {as : List α} (hs : I s)
    (hrun : run step s as = some s') : I s' :=
  run_invariant (G := fun _ _ => True) (fun s a s' h _ => hstep s a s' h) hs
    (along_of_forall fun _ _ => trivial) hrun

/-- A run goes on for ever with a label that changes nothing at its end. -/
theorem run_extend {step : σ → α → Option σ} {s s' : σ} {as : List α}
    (hrun : run step s as = some s') (idle : α) (hidle : step s' idle = some s') :
    ∃ states : Nat → σ, (∀ n, run step s (as.take n) = some (states n)) ∧
      ∀ n, step (states n) (as.getD n idle) = some (states (n + 1)) := by
  have hprefix : ∀ n, ∃ t, run step s (as.take n) = some t := by
    intro n
    rw [← List.take_append_drop n as, run_append_eq_some] at hrun
    obtain ⟨t, ht, -⟩ := hrun
    exact ⟨t, ht⟩
  choose states hstates using hprefix
  refine ⟨states, hstates, fun n => ?_⟩
  rcases Nat.lt_or_ge n as.length with hn | hn
  · have hnext := hstates (n + 1)
    rw [List.take_succ_eq_append_getElem hn, run_append, hstates n] at hnext
    simpa [List.getD, hn] using hnext
  · have hend : ∀ m, n ≤ m → states m = s' := by
      intro m hm
      have hall := hstates m
      rw [List.take_of_length_le (Nat.le_trans hn hm), hrun] at hall
      exact (Option.some.inj hall).symm
    rw [hend n (Nat.le_refl n), hend (n + 1) (Nat.le_succ n), List.getD, List.getElem?_eq_none hn]
    exact hidle

/-- Among the runs allowed by `H`, a property that follows from an invariant
holds in every state exactly when every step satisfies `G`, if the steps under
`G` keep the invariant and the others break the property. -/
theorem along_iff_reached {step : σ → α → Option σ} {H G : σ → α → Prop} {I Q : σ → Prop}
    (hI : ∀ s, I s → Q s)
    (hkeep : ∀ s a s', I s → H s a → G s a → step s a = some s' → I s')
    (hbreak : ∀ s a s', I s → H s a → ¬G s a → step s a = some s' → ¬Q s')
    {s s' : σ} {labels : List α} (hs : I s) (hH : Along step H s labels)
    (hrun : run step s labels = some s') :
    (∀ as bs t, labels = as ++ bs → run step s as = some t → Q t) ↔ Along step G s labels := by
  induction labels generalizing s with
  | nil =>
      refine iff_of_true (fun as bs t hnil ht => ?_) trivial
      rw [(List.append_eq_nil_iff.mp hnil.symm).1] at ht
      cases ht
      exact hI s hs
  | cons a labels ih =>
      simp only [run_cons, Option.bind_eq_some_iff] at hrun
      obtain ⟨s₁, hs₁, hrest⟩ := hrun
      have hH₁ := hH.2 s₁ hs₁
      constructor
      · intro h
        have hG : G s a := by
          by_contra hnot
          exact hbreak s a s₁ hs hH.1 hnot hs₁ (h [a] labels s₁ rfl (by simp [hs₁]))
        refine ⟨hG, fun s₂ hs₂ => ?_⟩
        cases hs₁.symm.trans hs₂
        refine (ih (hkeep s a s₁ hs hH.1 hG hs₁) hH₁ hrest).mp fun as bs t heq ht => ?_
        exact h (a :: as) bs t (by rw [heq]; rfl) (by simp [hs₁, ht])
      · intro h as bs t heq ht
        cases as with
        | nil =>
            cases ht
            exact hI s hs
        | cons b as =>
            rw [List.cons_append, List.cons.injEq] at heq
            obtain ⟨rfl, hlabels⟩ := heq
            simp only [run_cons, Option.bind_eq_some_iff, hs₁, Option.some.injEq] at ht
            obtain ⟨s₂, rfl, ht⟩ := ht
            exact (ih (hkeep s a s₁ hs hH.1 h.1 hs₁) hH₁ hrest).mpr (h.2 s₁ hs₁) as bs t hlabels ht

/-- A reflexive and transitive relation that holds across every step taken
under `G`, from states satisfying an invariant, holds across the run. -/
theorem run_relation {step : σ → α → Option σ} {G : σ → α → Prop} {I : σ → Prop}
    {R : σ → σ → Prop} (hrefl : ∀ s, R s s) (htrans : ∀ s t u, R s t → R t u → R s u)
    (hinv : ∀ s a s', I s → G s a → step s a = some s' → I s')
    (hstep : ∀ s a s', I s → G s a → step s a = some s' → R s s')
    {s s' : σ} {as : List α} (hs : I s) (hG : Along step G s as)
    (hrun : run step s as = some s') : R s s' := by
  induction as generalizing s with
  | nil =>
      cases hrun
      exact hrefl _
  | cons a as ih =>
      simp only [run_cons, Option.bind_eq_some_iff] at hrun
      obtain ⟨s₁, hs₁, hrest⟩ := hrun
      exact htrans _ _ _ (hstep s a s₁ hs hG.1 hs₁)
        (ih (hinv s a s₁ hs hG.1 hs₁) (hG.2 s₁ hs₁) hrest)

/-- A relation that is exact for single steps is exact for the stretches of a
run: it holds across every stretch exactly when every step satisfies `G`. -/
theorem along_iff_segments {step : σ → α → Option σ} {G : σ → α → Prop} {R : σ → σ → Prop}
    (hrefl : ∀ s, R s s) (htrans : ∀ s t u, R s t → R t u → R s u)
    (hstep : ∀ s a s', step s a = some s' → (R s s' ↔ G s a))
    {s s' : σ} {labels : List α} (hrun : run step s labels = some s') :
    (∀ as bs cs s₁ s₂, labels = as ++ bs ++ cs → run step s as = some s₁ →
        run step s₁ bs = some s₂ → R s₁ s₂) ↔ Along step G s labels := by
  constructor
  · intro h
    induction labels generalizing s with
    | nil => trivial
    | cons a labels ih =>
        simp only [run_cons, Option.bind_eq_some_iff] at hrun
        obtain ⟨s₁, hs₁, hrest⟩ := hrun
        refine ⟨(hstep s a s₁ hs₁).mp (h [] [a] labels s s₁ rfl rfl (by simp [hs₁])),
          fun s₂ hs₂ => ?_⟩
        cases hs₁.symm.trans hs₂
        refine ih hrest fun as bs cs t u hlabels ht hu => ?_
        exact h (a :: as) bs cs t u (by rw [hlabels]; rfl) (by simp [hs₁, ht]) hu
  · intro hG as bs cs s₁ s₂ hlabels has hbs
    subst hlabels
    rw [List.append_assoc] at hG
    have hG₁ := (along_append hG has).2
    have hG₂ := (along_append hG₁ hbs).1
    exact run_relation (I := fun _ => True) hrefl htrans (fun _ _ _ _ _ _ => trivial)
      (fun s a s' _ hga hsa => (hstep s a s' hsa).mpr hga) trivial hG₂ hbs

/-! ### Executions without an end -/

/-- A step, or a rest. -/
def stepOrRest (step : σ → α → Option σ) (s : σ) : Option α → Option σ
  | some a => step s a
  | none => some s

theorem stepOrRest_cases {step : σ → α → Option σ} {s s' : σ} {a : Option α}
    (h : stepOrRest step s a = some s') :
    (a = none ∧ s' = s) ∨ ∃ a', a = some a' ∧ step s a' = some s' := by
  cases a with
  | none => exact Or.inl ⟨rfl, (Option.some.inj h).symm⟩
  | some a => exact Or.inr ⟨a, rfl, h⟩

/-- The invariant rule for executions that rest now and then. -/
theorem execution_keeps {step : σ → α → Option σ} {I : σ → Prop}
    (hstep : ∀ s a s', I s → step s a = some s' → I s') {states : Nat → σ}
    {events : Nat → Option α}
    (hsteps : ∀ n, stepOrRest step (states n) (events n) = some (states (n + 1))) {n m : Nat}
    (hnm : n ≤ m) (hn : I (states n)) : I (states m) := by
  obtain ⟨d, rfl⟩ := Nat.exists_eq_add_of_le hnm
  clear hnm
  induction d with
  | zero => exact hn
  | succ d ih =>
      rcases stepOrRest_cases (hsteps (n + d)) with ⟨-, hsame⟩ | ⟨a, -, htaken⟩
      · rw [← Nat.add_assoc, hsame]
        exact ih
      · exact hstep _ a _ ih htaken

theorem run_map_some (step : σ → α → Option σ) (s : σ) (as : List α) :
    run (stepOrRest step) s (as.map some) = run step s as := by
  induction as generalizing s with
  | nil => rfl
  | cons a as ih =>
      rw [List.map_cons, run_cons, run_cons]
      exact congrArg _ (funext ih)

/-- A run after which the system rests for ever. -/
theorem run_then_rest {step : σ → α → Option σ} {s s' : σ} {as : List α}
    (hrun : run step s as = some s') :
    ∃ states : Nat → σ, (∀ n, run step s (as.take n) = some (states n)) ∧
      (∀ n, stepOrRest step (states n) as[n]? = some (states (n + 1))) ∧
      ∀ n, ∃ m, n ≤ m ∧ states m = s' := by
  have hlabels := hrun
  rw [← run_map_some] at hlabels
  obtain ⟨states, hstates, hsteps⟩ := run_extend hlabels none rfl
  have hprefix : ∀ n, run step s (as.take n) = some (states n) := by
    intro n
    rw [← run_map_some, List.map_take]
    exact hstates n
  refine ⟨states, hprefix, fun n => ?_, fun n => ⟨max n as.length, Nat.le_max_left _ _, ?_⟩⟩
  · have hstep := hsteps n
    rw [List.getD, List.getElem?_map] at hstep
    cases hn : as[n]? with
    | none =>
        rw [hn] at hstep
        exact hstep
    | some a =>
        rw [hn] at hstep
        exact hstep
  · have hall := hprefix (max n as.length)
    rw [List.take_of_length_le (Nat.le_max_right _ _), hrun, Option.some.injEq] at hall
    exact hall.symm

/-- What holds and does not hold later is lost at some step. -/
theorem exists_lost {P : Nat → Prop} {n m : Nat} (hnm : n ≤ m) (hn : P n) (hm : ¬ P m) :
    ∃ k, n ≤ k ∧ P k ∧ ¬ P (k + 1) := by
  obtain ⟨d, rfl⟩ := Nat.exists_eq_add_of_le hnm
  clear hnm
  induction d with
  | zero => exact absurd hn hm
  | succ d ih =>
      by_cases hd : P (n + d)
      · exact ⟨n + d, Nat.le_add_right n d, hd, hm⟩
      · exact ih hd

/-- What holds in a state of an execution and does not hold later is lost in a step
that is taken. -/
theorem execution_loses {step : σ → α → Option σ} {states : Nat → σ} {events : Nat → Option α}
    (hsteps : ∀ n, stepOrRest step (states n) (events n) = some (states (n + 1)))
    {P : σ → Prop} {n m : Nat} (hnm : n ≤ m) (hn : P (states n)) (hm : ¬ P (states m)) :
    ∃ k a, n ≤ k ∧ P (states k) ∧ ¬ P (states (k + 1)) ∧ events k = some a ∧
      step (states k) a = some (states (k + 1)) := by
  obtain ⟨k, hk, hP, hlost⟩ := exists_lost (P := fun n => P (states n)) hnm hn hm
  rcases stepOrRest_cases (hsteps k) with ⟨-, hsame⟩ | ⟨a, ha, hstep⟩
  · rw [hsame] at hlost
    exact absurd hP hlost
  · exact ⟨k, a, hk, hP, hlost, ha, hstep⟩

/-- What only an event ends is still there when the event comes. -/
theorem kept_until {P E : Nat → Prop} {n : Nat} (hn : P n)
    (hkeep : ∀ k, n ≤ k → ¬ E k → P k → P (k + 1)) (hevent : ∃ m, n ≤ m ∧ E m) :
    ∃ m, n ≤ m ∧ E m ∧ P m := by
  obtain ⟨m, hnm, hE⟩ := hevent
  by_cases hm : P m
  · exact ⟨m, hnm, hE, hm⟩
  · obtain ⟨k, hk, hP, hlost⟩ := exists_lost hnm hn hm
    have hEk : E k := by
      by_contra hnot
      exact hlost (hkeep k hk hnot hP)
    exact ⟨k, hk, hEk, hP⟩

end Lib
end ProcessingEngine

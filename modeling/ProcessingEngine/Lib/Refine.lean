import ProcessingEngine.Lib.Exec

/-!
# Programs that follow one another

Two programs over different operations, and a relation between their stores.
The second one follows the first when it ends in the same way from related
stores, and leaves related stores.  The first program may run into a faulty
state, from which nothing is asked of the second: `Good` are the states without
a fault, and no operation repairs one.  The rules follow the structure of
programs, so that a simulation is proved once for each operation.
-/

namespace ProcessingEngine
namespace Lib

variable {ι ρ σ ι' ρ' σ' ε α β γ α' β' : Type} [Interp ι ρ σ] [Interp ι' ρ' σ']

/-- No operation leads out of a fault. -/
def Lasting (ι ρ : Type) [Interp ι ρ σ] (Good : σ → Prop) : Prop :=
  ∀ (i : ι) (s : σ), Good (Interp.exec i s).2 → Good s

theorem Lasting.of_run {Good : σ → Prop} (h : Lasting ι ρ Good) {x : Prog ι ρ α} {s : σ}
    (hend : Good (x s).2) : Good s := by
  induction x generalizing s with
  | pure a => exact hend
  | op i k ih => exact h i s (ih _ hend)

namespace Prog

/-- `y` ends as `x` does when the run of `x` stays without a fault. -/
def Follows (Rel : σ → σ' → Prop) (Good : σ → Prop) (R : α → β → Prop)
    (x : Prog ι ρ α) (y : Prog ι' ρ' β) : Prop :=
  ∀ s t, Rel s t → Good (x s).2 → R (x s).1 (y t).1 ∧ Rel (x s).2 (y t).2

variable {Rel : σ → σ' → Prop} {Good : σ → Prop}

theorem follows_pure {R : α → β → Prop} {a : α} {b : β} (h : R a b) :
    Follows Rel Good R (.pure a : Prog ι ρ α) (.pure b : Prog ι' ρ' β) :=
  fun _ _ hrel _ => ⟨h, hrel⟩

theorem Follows.mono {R R' : α → β → Prop} {x : Prog ι ρ α} {y : Prog ι' ρ' β}
    (h : Follows Rel Good R x y) (hR : ∀ a b, R a b → R' a b) : Follows Rel Good R' x y := by
  intro s t hrel hgood
  obtain ⟨hsame, hrest⟩ := h s t hrel hgood
  exact ⟨hR _ _ hsame, hrest⟩

/-- The rule of sequence. -/
theorem follows_bind (hgood : Lasting ι ρ Good) {R : α → β → Prop} {R' : α' → β' → Prop}
    {x : Prog ι ρ α} {y : Prog ι' ρ' β} {f : α → Prog ι ρ α'} {g : β → Prog ι' ρ' β'}
    (hx : Follows Rel Good R x y)
    (hf : ∀ a b, R a b → Follows Rel Good R' (f a) (g b)) :
    Follows Rel Good R' (x.bind f) (y.bind g) := by
  intro s t hrel hend
  rw [run_bind] at hend ⊢
  rw [run_bind]
  obtain ⟨hsame, hmid⟩ := hx s t hrel (hgood.of_run hend)
  exact hf _ _ hsame _ _ hmid hend

end Prog

namespace Exec

/-- Two ways to end: with related values, or with the same failure. -/
def Same (R : α → β → Prop) : Except ε α → Except ε β → Prop
  | .ok a, .ok b => R a b
  | .error e, .error e' => e = e'
  | _, _ => False

def Follows (Rel : σ → σ' → Prop) (Good : σ → Prop) (R : α → β → Prop)
    (x : Exec ι ρ ε α) (y : Exec ι' ρ' ε β) : Prop :=
  Prog.Follows Rel Good (Same R) x y

variable {Rel : σ → σ' → Prop} {Good : σ → Prop}

/-- Following, from what the two programs yield. -/
theorem follows_of_runs {R : α → β → Prop} {x : Exec ι ρ ε α} {y : Exec ι' ρ' ε β}
    (h : ∀ s t, Rel s t → Good (x s).2 → ∃ out s' out' t', x s = (out, s') ∧ y t = (out', t') ∧
      Same R out out' ∧ Rel s' t') : Follows Rel Good R x y := by
  intro s t hrel hgood
  obtain ⟨out, s', out', t', hx, hy, hsame, hafter⟩ := h s t hrel hgood
  have hx : Prog.run x s = (out, s') := hx
  have hy : Prog.run y t = (out', t') := hy
  rw [hx, hy]
  exact ⟨hsame, hafter⟩

theorem follows_pure {R : α → β → Prop} {a : α} {b : β} (h : R a b) :
    Follows Rel Good R (Pure.pure a : Exec ι ρ ε α) (Pure.pure b : Exec ι' ρ' ε β) :=
  Prog.follows_pure h

theorem follows_fail {R : α → β → Prop} (e : ε) :
    Follows Rel Good R (fail e : Exec ι ρ ε α) (fail e : Exec ι' ρ' ε β) :=
  Prog.follows_pure rfl

/-- The rule of single operations. -/
theorem follows_perform {R : ρ → ρ' → Prop} {i : ι} {i' : ι'}
    (h : ∀ s t, Rel s t → Good (Interp.exec i s).2 →
      R (Interp.exec i s).1 (Interp.exec i' t).1 ∧ Rel (Interp.exec i s).2 (Interp.exec i' t).2) :
    Follows Rel Good R (perform i : Exec ι ρ ε ρ) (perform i' : Exec ι' ρ' ε ρ') := h

/-- A computation without operations is its own counterpart. -/
theorem follows_lift (x : Except ε α) :
    Follows Rel Good (fun a b => b = a) (lift x : Exec ι ρ ε α) (lift x : Exec ι' ρ' ε α) := by
  cases x with
  | error e => exact Prog.follows_pure rfl
  | ok a => exact Prog.follows_pure rfl

theorem Follows.mono {R R' : α → β → Prop} {x : Exec ι ρ ε α} {y : Exec ι' ρ' ε β}
    (h : Follows Rel Good R x y) (hR : ∀ a b, R a b → R' a b) :
    Follows Rel Good R' x y := by
  refine Prog.Follows.mono h fun out out' hsame => ?_
  cases out with
  | error e => cases out' <;> exact hsame
  | ok a =>
      cases out' with
      | error e => exact hsame
      | ok b => exact hR a b hsame

/-- The rule of sequence. -/
theorem follows_bind (hgood : Lasting ι ρ Good) {R : α → β → Prop} {R' : α' → β' → Prop}
    {x : Exec ι ρ ε α} {y : Exec ι' ρ' ε β} {f : α → Exec ι ρ ε α'} {g : β → Exec ι' ρ' ε β'}
    (hx : Follows Rel Good R x y)
    (hf : ∀ a b, R a b → Follows Rel Good R' (f a) (g b)) :
    Follows Rel Good R' (x >>= f) (y >>= g) := by
  refine Prog.follows_bind hgood hx fun out out' hsame => ?_
  cases out with
  | error e =>
      cases out' with
      | error e' => exact Prog.follows_pure hsame
      | ok b => exact hsame.elim
  | ok a =>
      cases out' with
      | error e' => exact hsame.elim
      | ok b => exact hf a b hsame

/-- The rule of loops, over a list and its counterpart. -/
theorem follows_forEach (hgood : Lasting ι ρ Good) {rep : α → β} {R : α' → β' → Prop}
    {f : α → Exec ι ρ ε α'} {g : β → Exec ι' ρ' ε β'} {as : List α}
    (h : ∀ a ∈ as, Follows Rel Good R (f a) (g (rep a))) :
    Follows Rel Good (List.Forall₂ R) (forEach f as) (forEach g (as.map rep)) := by
  induction as with
  | nil => exact follows_pure .nil
  | cons a as ih =>
      rw [List.forall_mem_cons] at h
      refine follows_bind hgood h.1 fun a' b' hab => ?_
      refine follows_bind hgood (ih h.2) fun as' bs' hlists => ?_
      exact follows_pure (.cons hab hlists)

/-- A list and what is made of each of its elements. -/
theorem eq_map_of_forall₂ {g : β → γ} {f : α → γ} {as : List α} {bs : List β}
    (h : List.Forall₂ (fun a b => g b = f a) as bs) : bs.map g = as.map f := by
  induction h with
  | nil => rfl
  | cons hab _ ih => rw [List.map_cons, List.map_cons, hab, ih]

end Exec
end Lib
end ProcessingEngine

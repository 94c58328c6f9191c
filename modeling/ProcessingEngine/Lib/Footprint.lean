import ProcessingEngine.Lib.Exec

/-!
# The operations of a program

`Along P` says that the operations a program performs from a store satisfy `P`.
`Uses P Q` says it of all operations of the tree, whatever is answered, and that
every value the program can end with satisfies `Q`; it is proved from the text
of the program, without a store.
-/

namespace ProcessingEngine
namespace Lib

namespace Prog

variable {ι ρ σ α β : Type}

/-- Every operation that the program performs from a store satisfies `P`. -/
def Along [Interp ι ρ σ] (P : ι → Prop) : Prog ι ρ α → σ → Prop
  | .pure _, _ => True
  | .op i k, s => P i ∧ (k (Interp.exec i s).1).Along P (Interp.exec i s).2

instance decidableAlong [Interp ι ρ σ] (P : ι → Prop) [∀ i, Decidable (P i)] :
    ∀ (x : Prog ι ρ α) (s : σ), Decidable (x.Along P s)
  | .pure _, _ => isTrue trivial
  | .op i k, s =>
      have := decidableAlong P (k (Interp.exec i s).1) (Interp.exec i s).2
      inferInstanceAs (Decidable (P i ∧ (k (Interp.exec i s).1).Along P (Interp.exec i s).2))

/-- Two stores in which the operations have the same answers and stay the same
give the same end. -/
theorem Along.agree [Interp ι ρ σ] {P : ι → Prop} {same : σ → σ → Prop}
    (hsame : ∀ i s s', P i → same s s' → (Interp.exec i s).1 = (Interp.exec i s').1 ∧
      same (Interp.exec i s).2 (Interp.exec i s').2)
    {x : Prog ι ρ α} {s s' : σ} (h : x.Along P s) (hs : same s s') :
    (x s).1 = (x s').1 ∧ same (x s).2 (x s').2 := by
  induction x generalizing s s' with
  | pure a => exact ⟨rfl, hs⟩
  | op i k ih =>
      obtain ⟨hanswer, hnext⟩ := hsame i s s' h.1 hs
      have hrest := ih _ h.2 hnext
      show ((k (Interp.exec i s).1) _).1 = ((k (Interp.exec i s').1) _).1 ∧
        same ((k (Interp.exec i s).1) _).2 ((k (Interp.exec i s').1) _).2
      rw [hanswer] at hrest ⊢
      exact hrest

/-- The operations satisfy `P` and the values `Q`, whatever is answered. -/
def Uses (P : ι → Prop) (Q : α → Prop) : Prog ι ρ α → Prop
  | .pure a => Q a
  | .op i k => P i ∧ ∀ r, (k r).Uses P Q

theorem uses_true (x : Prog ι ρ α) : x.Uses (fun _ => True) fun _ => True := by
  induction x with
  | pure a => trivial
  | op i k ih => exact ⟨trivial, ih⟩

theorem uses_bind {P : ι → Prop} {Q : α → Prop} {R : β → Prop} {x : Prog ι ρ α}
    {f : α → Prog ι ρ β} (hx : x.Uses P Q) (hf : ∀ a, Q a → (f a).Uses P R) :
    (x.bind f).Uses P R := by
  induction x with
  | pure a => exact hf a hx
  | op i k ih => exact ⟨hx.1, fun r => ih r (hx.2 r)⟩

theorem Uses.mono {P P' : ι → Prop} {Q Q' : α → Prop} {x : Prog ι ρ α} (h : x.Uses P Q)
    (hP : ∀ i, P i → P' i) (hQ : ∀ a, Q a → Q' a) : x.Uses P' Q' := by
  induction x with
  | pure a => exact hQ a h
  | op i k ih => exact ⟨hP i h.1, fun r => ih r (h.2 r)⟩

theorem Uses.along [Interp ι ρ σ] {P : ι → Prop} {Q : α → Prop} {x : Prog ι ρ α}
    (h : x.Uses P Q) (s : σ) : x.Along P s := by
  induction x generalizing s with
  | pure a => trivial
  | op i k ih => exact ⟨h.1, ih _ (h.2 _) _⟩

/-- What no operation of the program changes. -/
theorem Uses.keeps [Interp ι ρ σ] {P : ι → Prop} {Q : α → Prop} {I : σ → Prop}
    (hI : ∀ i s, P i → I s → I (Interp.exec i s).2) {x : Prog ι ρ α} (h : x.Uses P Q) {s : σ}
    (hs : I s) : I (x s).2 := by
  induction x generalizing s with
  | pure a => exact hs
  | op i k ih => exact ih _ (h.2 _) (hI i s h.1 hs)

end Prog

namespace Exec

variable {ι ρ σ ε α β : Type}

/-- Every operation that the program performs from a store satisfies `P`. -/
def Along [Interp ι ρ σ] (P : ι → Prop) (x : Exec ι ρ ε α) (s : σ) : Prop := Prog.Along P x s

/-- The values that a program can end with, when it does not fail. -/
def Value (Q : α → Prop) : Except ε α → Prop
  | .ok a => Q a
  | .error _ => True

def Uses (P : ι → Prop) (Q : α → Prop) (x : Exec ι ρ ε α) : Prop := Prog.Uses P (Value Q) x

variable {P : ι → Prop} {Q : α → Prop} {R : β → Prop}

theorem Uses.imp {Q' : α → Prop} {x : Exec ι ρ ε α} (h : x.Uses P Q) (hQ : ∀ a, Q a → Q' a) :
    x.Uses P Q' := by
  refine Prog.Uses.mono h (fun _ hi => hi) fun out hout => ?_
  cases out with
  | error e => trivial
  | ok a => exact hQ a hout

theorem uses_pure {a : α} (h : Q a) : (Pure.pure a : Exec ι ρ ε α).Uses P Q := h

theorem uses_fail (e : ε) : (fail e : Exec ι ρ ε α).Uses P Q := trivial

theorem uses_lift {x : Except ε α} (h : ∀ a, x = .ok a → Q a) :
    (lift x : Exec ι ρ ε α).Uses P Q := by
  cases x with
  | error e => trivial
  | ok a => exact h a rfl

theorem uses_perform {i : ι} (h : P i) : (perform i : Exec ι ρ ε ρ).Uses P fun _ => True :=
  ⟨h, fun _ => trivial⟩

theorem uses_bind {x : Exec ι ρ ε α} {f : α → Exec ι ρ ε β} (hx : x.Uses P Q)
    (hf : ∀ a, Q a → (f a).Uses P R) : (x >>= f).Uses P R := by
  refine Prog.uses_bind hx fun out hout => ?_
  cases out with
  | error e => trivial
  | ok a => exact hf a hout

theorem uses_handle {x : Exec ι ρ ε α} {f : Except ε α → Prog ι ρ β} (hx : x.Uses P Q)
    (hf : ∀ out, Value Q out → (f out).Uses P R) : (x.handle f).Uses P R :=
  Prog.uses_bind hx hf

theorem uses_forEach {A : α → Prop} {f : α → Exec ι ρ ε β} (h : ∀ a, A a → (f a).Uses P R)
    {as : List α} (has : ∀ a ∈ as, A a) : (forEach f as).Uses P fun bs => ∀ b ∈ bs, R b := by
  induction as with
  | nil => exact uses_pure (by simp)
  | cons a as ih =>
      rw [List.forall_mem_cons] at has
      refine uses_bind (h a has.1) fun b hb => ?_
      refine uses_bind (ih has.2) fun bs hbs => ?_
      exact uses_pure (List.forall_mem_cons.mpr ⟨hb, hbs⟩)

end Exec
end Lib
end ProcessingEngine

import Mathlib.Data.List.Basic

/-!
# Programs over a store

A program is a tree of operations: after an operation it goes on according to
the answer.  `Interp` says what the operations answer and do to a store, `run`
executes a program from end to end.  Between two operations of a program those
of another may be executed, which is why it is a tree and not a function on
stores.

`Exec ε` is a program that ends with a value or a failure; the store survives a
failure, as files do.  `Triple` is the Hoare triple with one postcondition for
each way to end, and the rules below follow the structure of programs: return,
sequence, failure, and a loop over a list.
-/

namespace ProcessingEngine
namespace Lib

/-- The operations `ι` with answers `ρ` on the store `σ`. -/
class Interp (ι : Type) (ρ σ : outParam Type) where
  exec : ι → σ → ρ × σ

inductive Prog (ι ρ α : Type) where
  | pure (a : α)
  | op (i : ι) (k : ρ → Prog ι ρ α)

namespace Prog

variable {ι ρ σ α β : Type}

def bind : Prog ι ρ α → (α → Prog ι ρ β) → Prog ι ρ β
  | .pure a, f => f a
  | .op i k, f => .op i fun r => (k r).bind f

def run [Interp ι ρ σ] : Prog ι ρ α → σ → α × σ
  | .pure a, s => (a, s)
  | .op i k, s => (k (Interp.exec i s).1).run (Interp.exec i s).2

instance coeFunProg [Interp ι ρ σ] : CoeFun (Prog ι ρ α) fun _ => σ → α × σ := ⟨run⟩

@[simp] theorem run_pure [Interp ι ρ σ] (a : α) (s : σ) : (Prog.pure a : Prog ι ρ α) s = (a, s) :=
  rfl

@[simp] theorem run_bind [Interp ι ρ σ] (x : Prog ι ρ α) (f : α → Prog ι ρ β) (s : σ) :
    (x.bind f) s = (f (x s).1) (x s).2 := by
  induction x generalizing s with
  | pure a => rfl
  | op i k ih => exact ih _ _

end Prog

/-- A program that may fail with `ε`. -/
def Exec (ι ρ ε α : Type) : Type := Prog ι ρ (Except ε α)

namespace Exec

variable {ι ρ ε σ α β : Type}

def run [Interp ι ρ σ] (x : Exec ι ρ ε α) (s : σ) : Except ε α × σ := Prog.run x s

instance coeFunExec [Interp ι ρ σ] : CoeFun (Exec ι ρ ε α) fun _ => σ → Except ε α × σ := ⟨run⟩

def pure (a : α) : Exec ι ρ ε α := Prog.pure (.ok a)

def bind (x : Exec ι ρ ε α) (f : α → Exec ι ρ ε β) : Exec ι ρ ε β :=
  Prog.bind x fun
    | .ok a => f a
    | .error e => Prog.pure (.error e)

instance monadExec : Monad (Exec ι ρ ε) where
  pure := pure
  bind := bind

/-- End with a failure. -/
def fail (e : ε) : Exec ι ρ ε α := Prog.pure (.error e)

/-- A computation that does not touch the store. -/
def lift (x : Except ε α) : Exec ι ρ ε α := Prog.pure x

/-- Go on with the way a program ended. -/
def handle (x : Exec ι ρ ε α) (f : Except ε α → Prog ι ρ β) : Prog ι ρ β := Prog.bind x f

/-- A single operation. -/
def perform (i : ι) : Exec ι ρ ε ρ := Prog.op i fun r => Prog.pure (.ok r)

/-- Run `f` on the elements in order and collect the results. -/
def forEach (f : α → Exec ι ρ ε β) : List α → Exec ι ρ ε (List β)
  | [] => Pure.pure []
  | a :: as => do
      let b ← f a
      let bs ← forEach f as
      return b :: bs

theorem bind_assoc {γ : Type} (x : Exec ι ρ ε α) (f : α → Exec ι ρ ε β) (g : β → Exec ι ρ ε γ) :
    x >>= f >>= g = x >>= fun a => f a >>= g := by
  show Prog.bind (Prog.bind x _) _ = Prog.bind x _
  induction x with
  | pure out => cases out <;> rfl
  | op i k ih => exact congrArg (Prog.op i) (funext ih)

theorem forEach_of_pure {f : α → Exec ι ρ ε β} {g : α → β} {as : List α}
    (h : ∀ a ∈ as, f a = Pure.pure (g a)) : forEach f as = Pure.pure (as.map g) := by
  induction as with
  | nil => rfl
  | cons a as ih =>
      rw [forEach, h a List.mem_cons_self, ih fun b hb => h b (List.mem_cons_of_mem a hb)]
      rfl

theorem forEach_map {γ : Type} (f : β → Exec ι ρ ε γ) (g : α → β) (as : List α) :
    forEach f (as.map g) = forEach (fun a => f (g a)) as := by
  induction as with
  | nil => rfl
  | cons a as ih =>
      rw [List.map_cons, forEach, forEach, ih]

section

variable [Interp ι ρ σ]

@[simp] theorem pure_apply (a : α) (s : σ) : (Pure.pure a : Exec ι ρ ε α) s = (.ok a, s) := rfl

@[simp] theorem bind_apply (x : Exec ι ρ ε α) (f : α → Exec ι ρ ε β) (s : σ) :
    (x >>= f) s = match x s with
      | (.ok a, s') => f a s'
      | (.error e, s') => (.error e, s') := by
  refine (Prog.run_bind _ _ s).trans ?_
  show Prog.run (match (run x s).1 with
    | .ok a => f a
    | .error e => Prog.pure (.error e)) (run x s).2 = _
  rcases run x s with ⟨_ | a, s'⟩ <;> rfl

/-- A sequence ends normally when both parts do. -/
theorem bind_eq_ok {x : Exec ι ρ ε α} {f : α → Exec ι ρ ε β} {s s' : σ} {b : β} :
    (x >>= f) s = (.ok b, s') ↔ ∃ a t, x s = (.ok a, t) ∧ f a t = (.ok b, s') := by
  rw [bind_apply]
  rcases hx : x s with ⟨e | a, t⟩
  · simp
  · simp

@[simp] theorem fail_apply (e : ε) (s : σ) : (fail e : Exec ι ρ ε α) s = (.error e, s) := rfl

@[simp] theorem lift_apply (x : Except ε α) (s : σ) : (lift x : Exec ι ρ ε α) s = (x, s) := rfl

@[simp] theorem perform_apply (i : ι) (s : σ) :
    (perform i : Exec ι ρ ε ρ) s = (.ok (Interp.exec i s).1, (Interp.exec i s).2) := rfl

@[simp] theorem run_handle (x : Exec ι ρ ε α) (f : Except ε α → Prog ι ρ β) (s : σ) :
    (x.handle f) s = (f (x s).1) (x s).2 :=
  Prog.run_bind _ _ s

theorem forEach_singleton (f : α → Exec ι ρ ε β) (a : α) (s : σ) :
    forEach f [a] s = match f a s with
      | (.ok b, s') => (.ok [b], s')
      | (.error e, s') => (.error e, s') := by
  show ((f a) >>= _) s = _
  rw [bind_apply]
  rcases f a s with ⟨_ | b, s'⟩ <;> rfl

/-- A loop leaves the store alone when each iteration does. -/
theorem forEach_keeps {f : α → Exec ι ρ ε β} {Q : β → Prop} {s : σ} {as : List α}
    (h : ∀ a ∈ as, ∀ b s', f a s = (.ok b, s') → Q b → s' = s) {bs : List β} {s' : σ}
    (hrun : forEach f as s = (.ok bs, s')) (hbs : ∀ b ∈ bs, Q b) : s' = s := by
  induction as generalizing bs with
  | nil =>
      cases hrun
      rfl
  | cons a as ih =>
      obtain ⟨b, t, hb, hrest⟩ := bind_eq_ok.mp hrun
      obtain ⟨bs', t', hbs', hpure⟩ := bind_eq_ok.mp hrest
      cases hpure
      have hQ := List.forall_mem_cons.mp hbs
      obtain rfl := h a List.mem_cons_self b t hb hQ.1
      exact ih (fun c hc => h c (List.mem_cons_of_mem a hc)) hbs' hQ.2

end

/-! ### Hoare triples -/

variable [Interp ι ρ σ]

/-- From a state satisfying `P`, a normal end satisfies `Q` and a failure `E`. -/
def Triple (P : σ → Prop) (x : Exec ι ρ ε α) (Q : α → σ → Prop) (E : σ → Prop) : Prop :=
  ∀ s, P s → match x s with
    | (.ok a, s') => Q a s'
    | (.error _, s') => E s'

theorem Triple.ok {P : σ → Prop} {x : Exec ι ρ ε α} {Q : α → σ → Prop} {E : σ → Prop}
    (h : Triple P x Q E) {s s' : σ} {a : α} (hs : P s) (hx : x s = (.ok a, s')) : Q a s' := by
  have := h s hs
  rwa [hx] at this

theorem Triple.error {P : σ → Prop} {x : Exec ι ρ ε α} {Q : α → σ → Prop} {E : σ → Prop}
    (h : Triple P x Q E) {s s' : σ} {e : ε} (hs : P s) (hx : x s = (.error e, s')) : E s' := by
  have := h s hs
  rwa [hx] at this

theorem triple_lift {P : σ → Prop} {Q : α → σ → Prop} {E : σ → Prop} {x : Except ε α}
    (hok : ∀ a s, x = .ok a → P s → Q a s) (herr : ∀ s, P s → E s) :
    Triple P (lift x : Exec ι ρ ε α) Q E := by
  intro s hs
  cases x with
  | ok a => exact hok a s rfl hs
  | error e => exact herr s hs

theorem triple_bind {P : σ → Prop} {x : Exec ι ρ ε α} {f : α → Exec ι ρ ε β} {Q : α → σ → Prop}
    {R : β → σ → Prop} {E : σ → Prop} (hx : Triple P x Q E)
    (hf : ∀ a, Triple (Q a) (f a) R E) : Triple P (x >>= f) R E := by
  intro s hs
  have h := hx s hs
  simp only [bind_apply]
  rcases hxs : x s with ⟨_ | a, s'⟩
  · rw [hxs] at h
    exact h
  · rw [hxs] at h
    exact hf a s' h

theorem Triple.conseq {P P' : σ → Prop} {x : Exec ι ρ ε α} {Q Q' : α → σ → Prop} {E E' : σ → Prop}
    (h : Triple P x Q E) (hP : ∀ s, P' s → P s) (hQ : ∀ a s, Q a s → Q' a s)
    (hE : ∀ s, E s → E' s) : Triple P' x Q' E' := by
  intro s hs
  have h' := h s (hP s hs)
  rcases hx : x s with ⟨_ | a, s'⟩
  · rw [hx] at h'
    exact hE s' h'
  · rw [hx] at h'
    exact hQ a s' h'

/-- The loop rule: `I` is carried through the iterations, and each iteration
establishes `R` of its own result. -/
theorem triple_forEach {I : σ → Prop} {P : α → Prop} {R : α → β → Prop}
    {f : α → Exec ι ρ ε β}
    (h : ∀ a, P a → Triple I (f a) (fun b s => R a b ∧ I s) I) (as : List α)
    (hpre : ∀ a ∈ as, P a) :
    Triple I (forEach f as) (fun bs s => List.Forall₂ R as bs ∧ I s) I := by
  induction as with
  | nil => exact fun s hs => ⟨.nil, hs⟩
  | cons a as ih =>
      refine triple_bind (h a (hpre a List.mem_cons_self)) fun b => ?_
      have hrest := ih fun c hc => hpre c (List.mem_cons_of_mem a hc)
      refine triple_bind (Q := fun bs s => (R a b ∧ List.Forall₂ R as bs) ∧ I s) ?_
        fun bs s hs => ⟨.cons hs.1.1 hs.1.2, hs.2⟩
      intro s hs
      exact hrest.conseq (fun _ h => h) (fun bs t ht => ⟨⟨hs.1, ht.1⟩, ht.2⟩)
        (fun _ h => h) s hs.2

end Exec
end Lib
end ProcessingEngine

import ProcessingEngine.Lib.Footprint

/-!
# Programs that are left alone

A program that runs beside others ends as it does alone from a store `s`, as long
as the others leave what it sees.  `Tracks` says how far it has come: the current
store and some store that the run from `s` passes through look the same to it, and
the rest of the program leads there to the end of that run.
-/

namespace ProcessingEngine
namespace Lib
namespace Prog

variable {ι ρ σ α β : Type}

theorem bind_pure (x : Prog ι ρ α) : x.bind .pure = x := by
  induction x with
  | pure a => rfl
  | op i k ih => exact congrArg (Prog.op i) (funext ih)

variable [Interp ι ρ σ]

/-- The rest `x` of a program goes on in `store` as in the run that ends with `out`. -/
def Tracks (agree : σ → σ → Prop) (own : ι → Prop) (out : α × σ) (x : Prog ι ρ α) (store : σ) :
    Prop :=
  ∃ s, agree store s ∧ x s = out ∧ x.Along own s

variable {agree : σ → σ → Prop} {own : ι → Prop} {out : α × σ} {x : Prog ι ρ α} {store store' : σ}

theorem tracks_start {s : σ} (hagree : agree store s) (h : x.Along own s) :
    x.Tracks agree own (x s) store :=
  ⟨s, hagree, rfl, h⟩

/-- The program takes its next operation. -/
theorem Tracks.next {i : ι} {k : ρ → Prog ι ρ α}
    (h : (Prog.op i k).Tracks agree own out store)
    (hown : ∀ s s', own i → agree s s' → (Interp.exec i s).1 = (Interp.exec i s').1 ∧
      agree (Interp.exec i s).2 (Interp.exec i s').2) :
    own i ∧ (k (Interp.exec i store).1).Tracks agree own out (Interp.exec i store).2 := by
  obtain ⟨s, hagree, hout, halong⟩ := h
  obtain ⟨hanswer, hafter⟩ := hown store s halong.1 hagree
  refine ⟨halong.1, (Interp.exec i s).2, hafter, ?_, ?_⟩
  · rw [hanswer]
    exact hout
  · rw [hanswer]
    exact halong.2

/-- Others change what the program does not see. -/
theorem Tracks.disturbed (h : x.Tracks agree own out store)
    (htrans : ∀ a b c, agree a b → agree b c → agree a c) (hagree : agree store' store) :
    x.Tracks agree own out store' := by
  obtain ⟨s, hs, hout, halong⟩ := h
  exact ⟨s, htrans _ _ _ hagree hs, hout, halong⟩

theorem Tracks.ended {a : α} (h : (Prog.pure a : Prog ι ρ α).Tracks agree own out store) :
    out.1 = a ∧ agree store out.2 := by
  obtain ⟨s, hagree, rfl, -⟩ := h
  exact ⟨rfl, hagree⟩

end Prog
end Lib
end ProcessingEngine

import Mathlib.Logic.Relation
import Mathlib.Tactic.Common

/-! Runs of labelled transition systems.
A run may be watched by a condition on each state and the label of the step taken from it. -/
namespace Transition

variable {σ ι : Type} {step : σ → ι → σ → Prop} {ok ok' : σ → ι → Prop} {s t u : σ}

/-- Reachability by steps that all meet `ok`. -/
def Reaches (step : σ → ι → σ → Prop) (ok : σ → ι → Prop) : σ → σ → Prop :=
  Relation.ReflTransGen fun s t => ∃ i, ok s i ∧ step s i t

def always (_ : σ) (_ : ι) : Prop := True

theorem Reaches.refl : Reaches step ok s s := Relation.ReflTransGen.refl

theorem Reaches.tail (h : Reaches step ok s t) (i : ι) (hok : ok t i) (hstep : step t i u) :
    Reaches step ok s u :=
  Relation.ReflTransGen.tail h ⟨i,hok,hstep⟩

theorem Reaches.trans (h : Reaches step ok s t) (h' : Reaches step ok t u) :
    Reaches step ok s u :=
  Relation.ReflTransGen.trans h h'

theorem Reaches.mono (hok : ∀ s i, ok s i → ok' s i) (h : Reaches step ok s t) :
    Reaches step ok' s t := by
  refine Relation.ReflTransGen.mono ?_ _ _ h
  rintro a b ⟨i,hi,hstep⟩
  exact ⟨i,hok a i hi,hstep⟩

/-- What holds at the start and is kept by every admitted step holds wherever a run leads. -/
theorem Reaches.invariant {I : σ → Prop}
    (hstep : ∀ s i t, I s → ok s i → step s i t → I t) (h : Reaches step ok s t)
    (hs : I s) : I t := by
  induction h with
  | refl => exact hs
  | tail _ hstep' ih =>
    obtain ⟨i,hok,hi⟩ := hstep'
    exact hstep _ i _ ih hok hi

end Transition

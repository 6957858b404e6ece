import Mathlib.Tactic.TypeStar

/-!
# Reachable states and their invariants

A transition system is a set of initial states and a step relation; nothing
here knows what the states are. Every safety theorem of the development is
an instance of `Reach.invariant`: the property holds initially and each step
keeps it. `Reach.invariant_under` is the same rule with an invariant that is
already known, so that invariants can be stacked.
-/

namespace P2PRdt.Lib

variable {σ : Type*} {init : σ → Prop} {step : σ → σ → Prop}

/-- The states a run of the system can be in. -/
inductive Reach (init : σ → Prop) (step : σ → σ → Prop) : σ → Prop
  | start {s : σ} : init s → Reach init step s
  | next {s t : σ} : Reach init step s → step s t → Reach init step t

namespace Reach

theorem invariant {I : σ → Prop} (hinit : ∀ s, init s → I s)
    (hstep : ∀ s t, I s → step s t → I t) {s : σ}
    (h : Reach init step s) : I s := by
  induction h with
  | start h0 => exact hinit _ h0
  | next _ hst ih => exact hstep _ _ ih hst

/-- Preservation may use any invariant `J` that is already established. -/
theorem invariant_under {I J : σ → Prop}
    (hJ : ∀ {s}, Reach init step s → J s) (hinit : ∀ s, init s → I s)
    (hstep : ∀ s t, J s → I s → step s t → I t) {s : σ}
    (h : Reach init step s) : I s := by
  induction h with
  | start h0 => exact hinit _ h0
  | next hs hst ih => exact hstep _ _ (hJ hs) ih hst

end Reach

end P2PRdt.Lib

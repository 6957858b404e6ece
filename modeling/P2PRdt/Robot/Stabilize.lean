import P2PRdt.Robot.Session

/-!
# What stabilizing returns

`_stabilize_normalized_action` repairs the relative action, composes it with the
anchor, repairs the absolute action and smooths it; each time it derives the
other forms of the action again. NaN and infinite entries of the model output
become zero first, so everything behind that is a computation in the field, and
the divisions in it are by scales, which are positive, and by norms of at least
`1e-8`.
-/

namespace P2PRdt.Robot

open Lib Quaternion

namespace ActionLayout

variable {K : Type} [Field K] [LinearOrder K] [IsStrictOrderedRing K] (A : ActionLayout K)

/-- Ordered quantiles have a positive scale. -/
theorem scale_pos (hq : ∀ c, A.q01 c ≤ A.q99 c) (c : Fin A.robotActionDim) : 0 < A.scale c := by
  have hspread : 0 ≤ A.q99 c - A.q01 c := sub_nonneg.mpr (hq c)
  have hmargin : (0 : K) < 1 / (10 ^ 6 : ℕ) := by positivity
  exact add_pos_of_nonneg_of_pos hspread hmargin

end ActionLayout

namespace RobotTwinPolicy

section Outcome

variable {K F T D : Type} [Field K] [LinearOrder K] (P : RobotTwinPolicy K F T D)

/-- A normalized action at an anchor and the absolute action remembered for it
agree, and the checks for invalid poses accept it. -/
structure SelfConsistent (anchor : Compact (Pose K)) (action : P.actionAdapter.Row)
    (remembered : Compact (Pose K)) : Prop where
  scale_pos : ∀ c, 0 < P.actionAdapter.scale c
  absolute_eq : P.absoluteAction anchor action = remembered
  rotations : (P.absoluteAction anchor action).IsUnit
  accepted : ∀ fallback, sanitizeCompactPose16d P.elementary
    ((P.absoluteAction anchor action).map PoseOf.toRaw) fallback =
      (P.absoluteAction anchor action, false)

variable [IsStrictOrderedRing K] {P} (hE : IsSqrt P.elementary.sqrt)

include hE in
/-- **Stabilizing makes a valid action.** For every model output, every anchor
and pose, with and without an action executed before, and every weight. -/
theorem stabilize_selfConsistent (hq : ∀ c, P.actionAdapter.q01 c ≤ P.actionAdapter.q99 c)
    (prevExecuted : Option (Compact (Pose K)))
    (normalizedAction : Fin P.actionAdapter.robotActionDim → ExtNum K)
    (anchor current : Compact (Pose K)) :
    P.SelfConsistent anchor
      (P.stabilizeNormalizedAction prevExecuted normalizedAction anchor current).1
      (P.stabilizeNormalizedAction prevExecuted normalizedAction anchor current).2 := by
  have hrotations : (P.absoluteAction anchor
      (P.stabilizeNormalizedAction prevExecuted normalizedAction anchor current).1).IsUnit :=
    isUnit_composeCompact hE _ anchor
  constructor
  · exact P.actionAdapter.scale_pos hq
  · exact absolute_stabilize hE prevExecuted normalizedAction anchor current
  · exact hrotations
  · intro fallback
    exact sanitizeCompactPose16d_toRaw hE hrotations fallback

end Outcome

theorem stabilize_selfConsistent_nan :
    repeatingPolicy.SelfConsistent (wayPose 1)
      (repeatingPolicy.stabilizeNormalizedAction (some (wayPose 0)) (fun _ => .nan) (wayPose 1)
        (wayPose 2)).1
      (repeatingPolicy.stabilizeNormalizedAction (some (wayPose 0)) (fun _ => .nan) (wayPose 1)
        (wayPose 2)).2 :=
  stabilize_selfConsistent isSqrt_realElementary (fun _ => zero_le_one) (some (wayPose 0))
    (fun _ => .nan) _ _

end RobotTwinPolicy

end P2PRdt.Robot

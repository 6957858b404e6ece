import P2PRdt.Lib.Anchors
import P2PRdt.Robot.Pose
import Mathlib.Algebra.Star.Unitary

/-!
# The algebra of re-anchoring

A pose mixes two frames: translations are differences in the world frame, and
rotations are taken in the frame of the anchor. Both together are a group, the
product of the translations and the unit quaternions. There `compose_relative_pose`
is the product, and `absolute_to_relative_pose` and `rebase_relative_pose` are
one left quotient. The gripper value is carried along.

The client has a composition of its own, without the guard for short
quaternions.
-/

namespace P2PRdt.Robot

open Lib Quaternion

/-! ## The client's fallback -/

section Client

variable {K : Type} [Field K] [LinearOrder K] (E : Elementary K)

/-- `_compose_relative_pose` of the client. -/
def clientComposeRelativePose (relativePose initialPose : Pose K) : Option (Pose K) := do
  let relativeRotation ← fromQuat E relativePose.quat
  let initialRotation ← fromQuat E initialPose.quat
  let absoluteRotation := initialRotation * relativeRotation
  return {
    trans := relativePose.trans + initialPose.trans
    quat := (quatNorm E.sqrt absoluteRotation)⁻¹ • absoluteRotation
    gripper := relativePose.gripper }

/-- `_compact_action_to_absolute_ee`. -/
def compactActionToAbsoluteEe (action initialPose : Compact (Pose K)) :
    Option (Compact (Pose K)) := do
  let left ← clientComposeRelativePose E action.left initialPose.left
  let right ← clientComposeRelativePose E action.right initialPose.right
  return ⟨left, right⟩

/-- A relative pose, handed from anchor to anchor. -/
def rebaseAlong (anchor relativePose : Pose K) : List (Pose K) → Pose K
  | [] => relativePose
  | newAnchor :: anchors =>
      rebaseAlong newAnchor
        (rebaseRelativePose E relativePose (absoluteToRelativePose E newAnchor anchor)) anchors

end Client

/-! ## Poses as a group -/

section Frames

variable {K : Type} [Field K]

/-- A translation and a rotation. -/
abbrev PoseFrame (K : Type) [Field K] : Type := Multiplicative (Fin 3 → K) × unitary ℍ[K]

/-- A pose with a unit quaternion. -/
abbrev UnitPose (K : Type) [Field K] : Type := { p : Pose K // p.IsUnit }

theorem mem_unitary {q : ℍ[K]} (hq : IsUnitQuat q) : q ∈ unitary ℍ[K] := ⟨hq.star_mul, hq.mul_star⟩

def UnitPose.frame (p : UnitPose K) : PoseFrame K := (.ofAdd p.1.trans, ⟨p.1.quat, mem_unitary p.2⟩)

theorem UnitPose.ext_frame {p q : UnitPose K} (hframe : p.frame = q.frame)
    (hgripper : p.1.gripper = q.1.gripper) : p = q := by
  obtain ⟨htrans, hquat⟩ := Prod.ext_iff.mp hframe
  exact Subtype.ext (PoseOf.ext (Multiplicative.ofAdd.injective htrans)
    (congrArg Subtype.val hquat) hgripper)

variable [LinearOrder K] [IsStrictOrderedRing K] {E : Elementary K} (hE : IsSqrt E.sqrt)

def UnitPose.compose (r a : UnitPose K) : UnitPose K :=
  ⟨composeRelativePose E r.1 a.1, isUnit_composeRelativePose hE r.1 a.1⟩

def UnitPose.fromAnchor (p a : UnitPose K) : UnitPose K :=
  ⟨poseFromAnchor E p.1 a.1, isUnit_poseFromAnchor hE p.1 a.1⟩

/-- Composing is the product. -/
theorem UnitPose.frame_compose (r a : UnitPose K) :
    (UnitPose.compose hE r a).frame = a.frame * r.frame := by
  ext1
  · exact congrArg Multiplicative.ofAdd (add_comm r.1.trans a.1.trans)
  · apply Subtype.ext
    show (composeRelativePose E r.1 a.1).quat = a.1.quat * r.1.quat
    rw [composeRelativePose_quat hE, rotation_of_unit hE a.2, rotation_of_unit hE r.2]

/-- Seeing from an anchor is the left quotient. -/
theorem UnitPose.frame_fromAnchor (p a : UnitPose K) :
    (UnitPose.fromAnchor hE p a).frame = seenFrom a.frame p.frame := by
  ext1
  · exact congrArg Multiplicative.ofAdd ((sub_eq_neg_add p.1.trans a.1.trans))
  · apply Subtype.ext
    show (poseFromAnchor E p.1 a.1).quat = star a.1.quat * p.1.quat
    rw [poseFromAnchor_quat hE, rotation_of_unit hE a.2, rotation_of_unit hE p.2]

/-- What was seen from an anchor is composed with it again. -/
theorem UnitPose.compose_fromAnchor (p a : UnitPose K) :
    UnitPose.compose hE (UnitPose.fromAnchor hE p a) a = p := by
  apply UnitPose.ext_frame
  · rw [frame_compose, frame_fromAnchor, mul_seenFrom]
  · rfl

/-- What was composed with an anchor is found again. -/
theorem UnitPose.fromAnchor_compose (r a : UnitPose K) :
    UnitPose.fromAnchor hE (UnitPose.compose hE r a) a = r := by
  apply UnitPose.ext_frame
  · rw [frame_fromAnchor, frame_compose, seenFrom_mul]
  · rfl

/-- The anchor that both poses are seen from cancels. -/
theorem UnitPose.fromAnchor_fromAnchor (p a b : UnitPose K) :
    UnitPose.fromAnchor hE (UnitPose.fromAnchor hE p a) (UnitPose.fromAnchor hE b a) =
      UnitPose.fromAnchor hE p b := by
  apply UnitPose.ext_frame
  · simp only [frame_fromAnchor, seenFrom_seenFrom]
  · rfl

/-! ## Chains of anchors -/

def UnitPose.along (a r : UnitPose K) : List (UnitPose K) → UnitPose K
  | [] => r
  | b :: anchors =>
      UnitPose.along b (UnitPose.fromAnchor hE r (UnitPose.fromAnchor hE b a)) anchors

theorem UnitPose.val_along (a r : UnitPose K) (anchors : List (UnitPose K)) :
    (UnitPose.along hE a r anchors).1 = rebaseAlong E a.1 r.1 (anchors.map Subtype.val) := by
  induction anchors generalizing a r with
  | nil => rfl
  | cons b anchors ih => exact ih b _

theorem UnitPose.gripper_along (a r : UnitPose K) (anchors : List (UnitPose K)) :
    (UnitPose.along hE a r anchors).1.gripper = r.1.gripper := by
  induction anchors generalizing a r with
  | nil => rfl
  | cons b anchors ih => exact ih b _

theorem UnitPose.frame_along (a r : UnitPose K) (anchors : List (UnitPose K)) :
    (UnitPose.along hE a r anchors).frame =
      handedOn a.frame r.frame (anchors.map UnitPose.frame) := by
  induction anchors generalizing a r with
  | nil => rfl
  | cons b anchors ih =>
      rw [along, ih, frame_fromAnchor, frame_fromAnchor]
      rfl

/-- Only the last anchor of a chain matters. -/
theorem UnitPose.along_eq (a r : UnitPose K) (anchors : List (UnitPose K)) :
    UnitPose.along hE a r anchors =
      UnitPose.fromAnchor hE r (UnitPose.fromAnchor hE (anchors.getLastD a) a) := by
  apply UnitPose.ext_frame
  · have hstart : r.frame = seenFrom a.frame (a.frame * r.frame) := (seenFrom_mul _ _).symm
    have hlast : (anchors.map UnitPose.frame).getLastD a.frame = (anchors.getLastD a).frame := by
      rw [List.getLastD_eq_getLast?, List.getLast?_map, List.getLastD_eq_getLast?,
        Option.getD_map]
    rw [frame_along, frame_fromAnchor, frame_fromAnchor, hstart, handedOn_seenFrom, hlast,
      seenFrom_seenFrom]
  · exact UnitPose.gripper_along hE a r anchors

end Frames

/-! ## The laws -/

section Laws

variable {K : Type} [Field K] [LinearOrder K] [IsStrictOrderedRing K] {E : Elementary K}
  (hE : IsSqrt E.sqrt)
include hE

theorem clientCompose_of_unit {r a : Pose K} (hr : r.IsUnit) (ha : a.IsUnit) :
    clientComposeRelativePose E r a = some (composeRelativePose E r a) := by
  have hmul : IsUnitQuat (a.quat * r.quat) := IsUnitQuat.mul ha hr
  rw [clientComposeRelativePose, fromQuat_of_unit hE hr, fromQuat_of_unit hE ha]
  refine congrArg some (PoseOf.ext rfl ?_ rfl)
  show (quatNorm E.sqrt (a.quat * r.quat))⁻¹ • (a.quat * r.quat) =
    (composeRelativePose E r a).quat
  rw [quatNorm_of_unit hE hmul, inv_one, one_smul, composeRelativePose_quat hE,
    rotation_of_unit hE ha, rotation_of_unit hE hr]

/-- The client and the server compose a compact action alike. -/
theorem compactActionToAbsoluteEe_eq {action initialPose : Compact (Pose K)}
    (haction : action.IsUnit) (hinitial : initialPose.IsUnit) :
    compactActionToAbsoluteEe E action initialPose =
      some (composeCompactRelativeAction E action initialPose) := by
  rw [compactActionToAbsoluteEe, clientCompose_of_unit hE haction.1 hinitial.1,
    clientCompose_of_unit hE haction.2 hinitial.2]
  rfl

/-- **Re-anchoring.** The three operations undo and absorb each other, a chain of
anchors is as good as its last one, and the client agrees with the server. -/
theorem reanchor_laws {p a b r : Pose K} (hp : p.IsUnit) (ha : a.IsUnit) (hb : b.IsUnit)
    (hr : r.IsUnit) :
    composeRelativePose E (absoluteToRelativePose E p a) a = p ∧
      absoluteToRelativePose E (composeRelativePose E r a) a = r ∧
      rebaseRelativePose E (absoluteToRelativePose E p a) (absoluteToRelativePose E b a) =
        absoluteToRelativePose E p b ∧
      (∀ anchors : List (Pose K), (∀ c ∈ anchors, c.IsUnit) →
        rebaseAlong E a r anchors =
            rebaseRelativePose E r (absoluteToRelativePose E (anchors.getLastD a) a) ∧
          rebaseAlong E a (absoluteToRelativePose E p a) anchors =
            absoluteToRelativePose E p (anchors.getLastD a)) ∧
      ∀ action initialPose : Compact (Pose K), action.IsUnit → initialPose.IsUnit →
        compactActionToAbsoluteEe E action initialPose =
          some (composeCompactRelativeAction E action initialPose) := by
  lift p to UnitPose K using hp
  lift a to UnitPose K using ha
  lift b to UnitPose K using hb
  lift r to UnitPose K using hr
  refine ⟨?_, ?_, ?_, ?_, ?_⟩
  · exact congrArg Subtype.val (UnitPose.compose_fromAnchor hE p a)
  · exact congrArg Subtype.val (UnitPose.fromAnchor_compose hE r a)
  · exact congrArg Subtype.val (UnitPose.fromAnchor_fromAnchor hE p a b)
  · intro anchors hanchors
    lift anchors to List (UnitPose K) using hanchors
    have hlast : (anchors.map Subtype.val).getLastD a.1 = (anchors.getLastD a).1 := by
      rw [List.getLastD_eq_getLast?, List.getLast?_map, List.getLastD_eq_getLast?,
        Option.getD_map]
    rw [hlast]
    constructor
    · rw [← UnitPose.val_along hE, UnitPose.along_eq]
      rfl
    · have hpa := UnitPose.val_along hE a (UnitPose.fromAnchor hE p a) anchors
      rw [UnitPose.along_eq, UnitPose.fromAnchor_fromAnchor] at hpa
      exact hpa.symm
  · intro action initialPose haction hinitial
    exact compactActionToAbsoluteEe_eq hE haction hinitial

end Laws

/-- Two anchors away from the origin. -/
noncomputable def firstAnchor : Pose ℝ := ⟨![1, 0, 0], firstAxisTurn, 1⟩

noncomputable def secondAnchor : Pose ℝ := ⟨![0, 1, -1], secondAxisTurn, 0⟩

/-- A pose that goes from the first anchor to the second and back to the first. -/
theorem reanchor_laws_twoAnchors :
    rebaseAlong realElementary firstAnchor
        (absoluteToRelativePose realElementary identityPose firstAnchor)
        [secondAnchor, firstAnchor] =
      absoluteToRelativePose realElementary identityPose firstAnchor ∧
    rebaseRelativePose realElementary
        (absoluteToRelativePose realElementary identityPose firstAnchor)
        (absoluteToRelativePose realElementary secondAnchor firstAnchor) =
      absoluteToRelativePose realElementary identityPose secondAnchor := by
  have hfirst : firstAnchor.IsUnit := isUnitQuat_firstAxisTurn
  have hsecond : secondAnchor.IsUnit := isUnitQuat_secondAxisTurn
  have hidentity : (identityPose : Pose ℝ).IsUnit := IsUnitQuat.one
  obtain ⟨-, -, hrebase, hchain, -⟩ :=
    reanchor_laws isSqrt_realElementary hidentity hfirst hsecond hfirst
  refine ⟨(hchain [secondAnchor, firstAnchor] ?_).2, hrebase⟩
  intro c hc
  rcases List.mem_cons.mp hc with rfl | hc
  · exact hsecond
  · rw [List.mem_singleton.mp hc]
    exact hfirst

end P2PRdt.Robot

import P2PRdt.Lib.UnitQuaternion
import Mathlib.Analysis.SpecialFunctions.Trigonometric.Inverse
import Mathlib.Data.Fin.VecNotation

/-!
# Poses and their algebra

The pose functions of the RoboTwin evaluation code. A pose has a translation, a
quaternion and a gripper value; a compact action has a pose for the left and one
for the right arm. Poses are composed with an anchor, taken relative to an
anchor, sanitized and blended.

`Elementary` holds the elementary functions of numpy. A model output may hold
NaN or infinite entries, hence `ExtNum` and `RawPose`; everything computed after
the checks for finite values is an element of the field.
-/

namespace P2PRdt.Robot

open Lib Quaternion

/-- A floating point number: a NaN, an infinity or a finite value. -/
inductive ExtNum (K : Type) where
  | nan
  | posInf
  | negInf
  | fin (v : K)
  deriving DecidableEq

namespace ExtNum

variable {K : Type}

def isFinite : ExtNum K → Bool
  | fin _ => true
  | _ => false

/-- `np.nan_to_num` with zeros for the NaN and the infinities. -/
def nanToNum [Zero K] : ExtNum K → K
  | fin v => v
  | _ => 0

end ExtNum

structure Elementary (K : Type) where
  sqrt : K → K
  arccos : K → K
  sin : K → K

/-- The real functions. -/
noncomputable def realElementary : Elementary ℝ := ⟨Real.sqrt, Real.arccos, Real.sin⟩

theorem isSqrt_realElementary : IsSqrt realElementary.sqrt :=
  ⟨fun x _ => Real.sqrt_nonneg x, fun _ hx => Real.mul_self_sqrt hx⟩

/-- A pose with entries in `α` and a quaternion in `Q`. -/
@[ext] structure PoseOf (α Q : Type) where
  trans : Fin 3 → α
  quat : Q
  gripper : α

abbrev Pose (K : Type) [Field K] := PoseOf K ℍ[K]

/-- A pose that may hold NaN or infinite entries; the quaternion is in the order
`x, y, z, w`. -/
abbrev RawPose (K : Type) := PoseOf (ExtNum K) (Fin 4 → ExtNum K)

/-- A left and a right arm. -/
@[ext] structure Compact (P : Type) where
  left : P
  right : P

namespace Compact

variable {P Q R : Type}

def map (f : P → Q) (c : Compact P) : Compact Q := ⟨f c.left, f c.right⟩

def map₂ (f : P → Q → R) (c : Compact P) (d : Compact Q) : Compact R :=
  ⟨f c.left d.left, f c.right d.right⟩

end Compact

section Quaternions

variable {K : Type} [Field K]

/-- A quaternion from an array in the order `x, y, z, w`. -/
def quatOfXyzw (v : Fin 4 → K) : ℍ[K] := ⟨v 3, v 0, v 1, v 2⟩

def xyzwOfQuat (q : ℍ[K]) : Fin 4 → K := ![q.imI, q.imJ, q.imK, q.re]

@[simp] theorem quatOfXyzw_xyzwOfQuat (q : ℍ[K]) : quatOfXyzw (xyzwOfQuat q) = q := rfl

@[simp] theorem xyzwOfQuat_quatOfXyzw (v : Fin 4 → K) : xyzwOfQuat (quatOfXyzw v) = v := by
  ext i
  fin_cases i <;> rfl

end Quaternions

section Algebra

variable {K : Type} [Field K] [LinearOrder K] (E : Elementary K)

def normalizeQuaternion (quat : ℍ[K]) : ℍ[K] := normalizeOr E.sqrt (1 / (10 ^ 8 : ℕ)) quat

/-- `Rotation.from_quat`, which refuses the zero quaternion. -/
def fromQuat (quat : ℍ[K]) : Option ℍ[K] :=
  if quatNorm E.sqrt quat = 0 then none else some ((quatNorm E.sqrt quat)⁻¹ • quat)

/-- The rotation of an array that was normalized first; `from_quat` keeps a unit
quaternion as it is. -/
def rotation (quat : ℍ[K]) : ℍ[K] := normalizeQuaternion E quat

def composeRelativePose (relativePose anchorPose : Pose K) : Pose K where
  trans := relativePose.trans + anchorPose.trans
  quat := normalizeQuaternion E (rotation E anchorPose.quat * rotation E relativePose.quat)
  gripper := relativePose.gripper

/-- A pose as seen from an anchor in the same frame. -/
def poseFromAnchor (pose anchorPose : Pose K) : Pose K where
  trans := pose.trans - anchorPose.trans
  quat := normalizeQuaternion E (star (rotation E anchorPose.quat) * rotation E pose.quat)
  gripper := pose.gripper

def absoluteToRelativePose (absolutePose anchorPose : Pose K) : Pose K :=
  poseFromAnchor E absolutePose anchorPose

def rebaseRelativePose (relativePose newAnchorRelativePose : Pose K) : Pose K :=
  poseFromAnchor E relativePose newAnchorRelativePose

def composeCompactRelativeAction (action anchorPose : Compact (Pose K)) : Compact (Pose K) :=
  action.map₂ (composeRelativePose E) anchorPose

def absoluteToRelativeCompactAction (action anchorPose : Compact (Pose K)) : Compact (Pose K) :=
  action.map₂ (absoluteToRelativePose E) anchorPose

def rebaseCompactRelativeAction (action newAnchorAction : Compact (Pose K)) : Compact (Pose K) :=
  action.map₂ (rebaseRelativePose E) newAnchorAction

end Algebra

/-! ## Sanitizing -/

section Sanitize

variable {K : Type} [Field K] [LinearOrder K] (E : Elementary K)

/-- `np.allclose(a, b, atol=1e-5, rtol=1e-5)`. -/
def allclose (a b : ℍ[K]) : Bool :=
  ∀ i : Fin 4, |xyzwOfQuat a i - xyzwOfQuat b i| ≤
    1 / (10 ^ 5 : ℕ) + 1 / (10 ^ 5 : ℕ) * |xyzwOfQuat b i|

/-- The fallback when none is given: the identity pose. -/
def identityPose : Pose K := ⟨0, 1, 0⟩

def sanitizeTrans (trans : Fin 3 → ExtNum K) (fallback : Fin 3 → K) : (Fin 3 → K) × Bool :=
  if ∀ i, (trans i).isFinite then (fun i => (trans i).nanToNum, false) else (fallback, true)

def sanitizeQuat (quat : Fin 4 → ExtNum K) (fallback : ℍ[K]) : ℍ[K] × Bool :=
  let q := quatOfXyzw fun i => (quat i).nanToNum
  let quatIsInvalid : Bool := ¬(∀ i, (quat i).isFinite) ∨ quatNorm E.sqrt q < 1 / (10 ^ 8 : ℕ)
  if quatIsInvalid then (normalizeQuaternion E fallback, true)
  else
    let normalizedQuat := normalizeQuaternion E q
    if !allclose normalizedQuat q then (normalizedQuat, true) else (q, false)

def sanitizeGripper (gripper : ExtNum K) (fallback : K) : K × Bool :=
  if gripper.isFinite then (gripper.nanToNum, false) else (fallback, true)

def sanitizePose8d (pose : RawPose K) (fallbackPose : Option (Pose K)) : Pose K × Bool :=
  let fallback := fallbackPose.getD identityPose
  let trans := sanitizeTrans pose.trans fallback.trans
  let quat := sanitizeQuat E pose.quat fallback.quat
  let gripper := sanitizeGripper pose.gripper fallback.gripper
  (⟨trans.1, quat.1, gripper.1⟩, trans.2 || quat.2 || gripper.2)

def sanitizeCompactPose16d (pose : Compact (RawPose K)) (fallbackPose : Option (Compact (Pose K))) :
    Compact (Pose K) × Bool :=
  let left := sanitizePose8d E pose.left (fallbackPose.map Compact.left)
  let right := sanitizePose8d E pose.right (fallbackPose.map Compact.right)
  (⟨left.1, right.1⟩, left.2 || right.2)

/-- A pose of the field as an array that happens to be finite. -/
def PoseOf.toRaw (pose : Pose K) : RawPose K where
  trans := fun i => .fin (pose.trans i)
  quat := fun i => .fin (xyzwOfQuat pose.quat i)
  gripper := .fin pose.gripper

end Sanitize

/-! ## Blending -/

section Smooth

variable {K : Type} [Field K] [LinearOrder K] (E : Elementary K)

/-- `np.dot` of two quaternions as arrays. -/
def quatDot (p q : ℍ[K]) : K := p.imI * q.imI + p.imJ * q.imJ + p.imK * q.imK + p.re * q.re

/-- `np.clip`. -/
def clip (v low high : K) : K := min (max v low) high

def slerpQuaternion (startQuat endQuat : ℍ[K]) (alpha : K) : ℍ[K] :=
  let startQuat := normalizeQuaternion E startQuat
  let endQuat := normalizeQuaternion E endQuat
  let dot := quatDot startQuat endQuat
  let endQuat := if dot < 0 then -endQuat else endQuat
  let dot := if dot < 0 then -dot else dot
  let dot := clip dot (-1) 1
  if dot > (9995 : ℕ) / (10000 : ℕ) then
    normalizeQuaternion E ((1 - alpha) • startQuat + alpha • endQuat)
  else
    let theta0 := E.arccos dot
    let sinTheta0 := E.sin theta0
    let theta := theta0 * alpha
    let sinTheta := E.sin theta
    let s0 := E.sin (theta0 - theta) / sinTheta0
    let s1 := sinTheta / sinTheta0
    normalizeQuaternion E (s0 • startQuat + s1 • endQuat)

def blendAbsolutePose (previousPose currentPose : Pose K) (alpha : K) : Pose K where
  trans := (1 - alpha) • previousPose.trans + alpha • currentPose.trans
  quat := slerpQuaternion E previousPose.quat currentPose.quat alpha
  gripper := (1 - alpha) * previousPose.gripper + alpha * currentPose.gripper

def smoothAbsoluteCompactAction (previousAction currentAction : Compact (Pose K)) (alpha : K) :
    Compact (Pose K) :=
  let alpha := clip alpha 0 1
  if alpha ≤ 0 then previousAction
  else if alpha ≥ 1 then currentAction
  else previousAction.map₂ (fun p c => blendAbsolutePose E p c alpha) currentAction

end Smooth

/-! ## The algebra of re-anchoring -/

section Laws

variable {K : Type} [Field K] [LinearOrder K] [IsStrictOrderedRing K] {E : Elementary K}
  (hE : IsSqrt E.sqrt)

/-- The quaternion of the pose is a rotation. -/
def PoseOf.IsUnit (pose : Pose K) : Prop := IsUnitQuat pose.quat

def Compact.IsUnit (c : Compact (Pose K)) : Prop := c.left.IsUnit ∧ c.right.IsUnit

include hE

theorem isUnit_normalizeQuaternion (q : ℍ[K]) : IsUnitQuat (normalizeQuaternion E q) :=
  isUnitQuat_normalizeOr hE (by positivity) q

theorem isUnit_rotation (q : ℍ[K]) : IsUnitQuat (rotation E q) := isUnit_normalizeQuaternion hE q

theorem normalizeQuaternion_of_unit {q : ℍ[K]} (hq : IsUnitQuat q) :
    normalizeQuaternion E q = q := by
  apply normalizeOr_of_unit hE _ hq
  norm_num

theorem rotation_of_unit {q : ℍ[K]} (hq : IsUnitQuat q) : rotation E q = q :=
  normalizeQuaternion_of_unit hE hq

theorem fromQuat_of_unit {q : ℍ[K]} (hq : IsUnitQuat q) : fromQuat E q = some q := by
  rw [fromQuat, quatNorm_of_unit hE hq, if_neg one_ne_zero, inv_one, one_smul]

theorem composeRelativePose_quat (p a : Pose K) :
    (composeRelativePose E p a).quat = rotation E a.quat * rotation E p.quat :=
  normalizeQuaternion_of_unit hE ((isUnit_rotation hE _).mul (isUnit_rotation hE _))

theorem poseFromAnchor_quat (p a : Pose K) :
    (poseFromAnchor E p a).quat = star (rotation E a.quat) * rotation E p.quat :=
  normalizeQuaternion_of_unit hE ((isUnit_rotation hE _).conj.mul (isUnit_rotation hE _))

theorem isUnit_composeRelativePose (p a : Pose K) : (composeRelativePose E p a).IsUnit :=
  isUnit_normalizeQuaternion hE _

theorem isUnit_poseFromAnchor (p a : Pose K) : (poseFromAnchor E p a).IsUnit :=
  isUnit_normalizeQuaternion hE _

/-- A pose taken relative to an anchor and composed with it again. -/
theorem compose_absoluteToRelative {p : Pose K} (hp : p.IsUnit) (a : Pose K) :
    composeRelativePose E (absoluteToRelativePose E p a) a = p := by
  have hrel : IsUnitQuat (absoluteToRelativePose E p a).quat := isUnit_poseFromAnchor hE p a
  ext1
  · exact sub_add_cancel p.trans a.trans
  · rw [composeRelativePose_quat hE, rotation_of_unit hE hrel, absoluteToRelativePose,
      poseFromAnchor_quat hE, (isUnit_rotation hE _).mul_star_cancel, rotation_of_unit hE hp]
  · rfl

/-- **Re-anchoring.** A relative pose rebased from one anchor to another denotes
the same absolute pose. -/
theorem compose_rebase (r old new : Pose K) :
    composeRelativePose E (rebaseRelativePose E r (absoluteToRelativePose E new old)) new =
      composeRelativePose E r old := by
  have hmove : IsUnitQuat (absoluteToRelativePose E new old).quat :=
    isUnit_poseFromAnchor hE new old
  have hrebased : IsUnitQuat (rebaseRelativePose E r (absoluteToRelativePose E new old)).quat :=
    isUnit_poseFromAnchor hE r _
  have hquat : (absoluteToRelativePose E new old).quat =
      star (rotation E old.quat) * rotation E new.quat := poseFromAnchor_quat hE new old
  ext1
  · funext i
    simp only [composeRelativePose, rebaseRelativePose, poseFromAnchor, absoluteToRelativePose,
      Pi.add_apply, Pi.sub_apply]
    ring
  · rw [composeRelativePose_quat hE, rotation_of_unit hE hrebased, rebaseRelativePose,
      poseFromAnchor_quat hE, rotation_of_unit hE hmove, hquat, star_mul, star_star, ← mul_assoc,
      ← mul_assoc, (isUnit_rotation hE new.quat).mul_star, one_mul, composeRelativePose_quat hE]
  · rfl

theorem compose_compact_absoluteToRelative {p : Compact (Pose K)} (hp : p.IsUnit)
    (a : Compact (Pose K)) :
    composeCompactRelativeAction E (absoluteToRelativeCompactAction E p a) a = p := by
  ext1
  · exact compose_absoluteToRelative hE hp.1 a.left
  · exact compose_absoluteToRelative hE hp.2 a.right

theorem compose_compact_rebase (r old new : Compact (Pose K)) :
    composeCompactRelativeAction E
        (rebaseCompactRelativeAction E r (absoluteToRelativeCompactAction E new old)) new =
      composeCompactRelativeAction E r old := by
  ext1
  · exact compose_rebase hE r.left old.left new.left
  · exact compose_rebase hE r.right old.right new.right

theorem isUnit_composeCompact (r a : Compact (Pose K)) :
    (composeCompactRelativeAction E r a).IsUnit :=
  ⟨isUnit_composeRelativePose hE _ _, isUnit_composeRelativePose hE _ _⟩

/-- A pose with a unit quaternion is already sane. -/
theorem sanitizePose8d_toRaw {p : Pose K} (hp : p.IsUnit) (fallback : Option (Pose K)) :
    sanitizePose8d E p.toRaw fallback = (p, false) := by
  have hq : quatOfXyzw (fun i => (p.toRaw.quat i).nanToNum) = p.quat := rfl
  have hfinite : ¬¬∀ i, (p.toRaw.quat i).isFinite = true := fun h => h fun _ => rfl
  have hnorm : ¬quatNorm E.sqrt p.quat < 1 / (10 ^ 8 : ℕ) := by
    rw [quatNorm_of_unit hE hp]
    norm_num
  have hclose : allclose p.quat p.quat = true := by
    simp only [allclose, sub_self, abs_zero, decide_eq_true_eq]
    intro i
    positivity
  have hquat : sanitizeQuat E p.toRaw.quat (fallback.getD identityPose).quat = (p.quat, false) := by
    simp only [sanitizeQuat, hq, hfinite, hnorm, or_self, decide_false, Bool.false_eq_true,
      if_false, normalizeQuaternion_of_unit hE hp, hclose, Bool.not_true]
  rw [sanitizePose8d, hquat]
  rfl

omit hE in
omit [IsStrictOrderedRing K] in
/-- A false flag means that nothing was changed. -/
theorem sanitizePose8d_unchanged {p : Pose K} {fallback : Option (Pose K)}
    (h : (sanitizePose8d E p.toRaw fallback).2 = false) :
    (sanitizePose8d E p.toRaw fallback).1 = p := by
  have hquat : (sanitizeQuat E p.toRaw.quat (fallback.getD identityPose).quat).2 = false := by
    simp only [sanitizePose8d, Bool.or_eq_false_iff] at h
    exact h.1.2
  have hsame : (sanitizeQuat E p.toRaw.quat (fallback.getD identityPose).quat).1 = p.quat := by
    unfold sanitizeQuat at hquat ⊢
    dsimp only at hquat ⊢
    split_ifs at hquat ⊢
    rfl
  ext1
  · rfl
  · exact hsame
  · rfl

omit hE in
omit [IsStrictOrderedRing K] in
theorem sanitizeCompactPose16d_unchanged {c : Compact (Pose K)}
    {fallback : Option (Compact (Pose K))}
    (h : (sanitizeCompactPose16d E (c.map PoseOf.toRaw) fallback).2 = false) :
    (sanitizeCompactPose16d E (c.map PoseOf.toRaw) fallback).1 = c := by
  simp only [sanitizeCompactPose16d, Bool.or_eq_false_iff] at h
  ext1
  · exact sanitizePose8d_unchanged h.1
  · exact sanitizePose8d_unchanged h.2

theorem sanitizeCompactPose16d_toRaw {c : Compact (Pose K)} (hc : c.IsUnit)
    (fallback : Option (Compact (Pose K))) :
    sanitizeCompactPose16d E (c.map PoseOf.toRaw) fallback = (c, false) := by
  simp only [sanitizeCompactPose16d, Compact.map, sanitizePose8d_toRaw hE hc.1,
    sanitizePose8d_toRaw hE hc.2, Bool.or_self]

theorem isUnit_slerpQuaternion (p q : ℍ[K]) (alpha : K) :
    IsUnitQuat (slerpQuaternion E p q alpha) := by
  unfold slerpQuaternion
  dsimp only
  split_ifs <;> exact isUnit_normalizeQuaternion hE _

/-- Smoothing with a positive weight stays on rotations. -/
theorem isUnit_smooth {previous current : Compact (Pose K)} (hcur : current.IsUnit) {alpha : K}
    (halpha : 0 < alpha) : (smoothAbsoluteCompactAction E previous current alpha).IsUnit := by
  have hclip : ¬clip alpha 0 1 ≤ 0 := by
    rw [clip, not_le]
    exact lt_min (halpha.trans_le (le_max_left _ _)) one_pos
  simp only [smoothAbsoluteCompactAction, hclip, if_false]
  split
  · exact hcur
  · exact ⟨isUnit_slerpQuaternion hE _ _ _, isUnit_slerpQuaternion hE _ _ _⟩

end Laws

/-! ## Two turns that do not commute -/

noncomputable def firstAxisTurn : ℍ[ℝ] := ⟨(3 / 5 : ℚ), (4 / 5 : ℚ), 0, 0⟩

noncomputable def secondAxisTurn : ℍ[ℝ] := ⟨(3 / 5 : ℚ), 0, (4 / 5 : ℚ), 0⟩

theorem isUnitQuat_firstAxisTurn : IsUnitQuat firstAxisTurn := by
  rw [IsUnitQuat, normSq_def', firstAxisTurn]
  norm_num

theorem isUnitQuat_secondAxisTurn : IsUnitQuat secondAxisTurn := by
  rw [IsUnitQuat, normSq_def', secondAxisTurn]
  norm_num

end P2PRdt.Robot

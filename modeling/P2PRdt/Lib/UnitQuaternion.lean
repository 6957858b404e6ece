import Mathlib.Algebra.Quaternion
import Mathlib.Algebra.Order.Field.Basic
import Mathlib.Tactic.FieldSimp
import Mathlib.Tactic.Linarith

/-!
# Unit quaternions as rotations

`normalizeOr` divides a quaternion by its norm, and takes the identity rotation
where the norm is below a bound. The result always has norm one; a unit
quaternion is left alone. Unit quaternions are closed under products and
conjugation, and the conjugate is the inverse.

The square root is a parameter with its law, so the statements hold over every
ordered field that has one.
-/

namespace P2PRdt.Lib

open Quaternion

section Unit

variable {K : Type} [Field K]

/-- A quaternion of norm one. -/
def IsUnitQuat (q : ℍ[K]) : Prop := normSq q = 1

namespace IsUnitQuat

variable {p q : ℍ[K]}

theorem one : IsUnitQuat (1 : ℍ[K]) := map_one normSq

theorem mul (hp : IsUnitQuat p) (hq : IsUnitQuat q) : IsUnitQuat (p * q) := by
  rw [IsUnitQuat, map_mul, hp, hq, mul_one]

theorem conj (hq : IsUnitQuat q) : IsUnitQuat (star q) := by
  rw [IsUnitQuat, normSq_star, hq]

@[simp] theorem star_mul (hq : IsUnitQuat q) : star q * q = 1 := by
  rw [star_mul_self, hq, coe_one]

@[simp] theorem mul_star (hq : IsUnitQuat q) : q * star q = 1 := by
  rw [self_mul_star, hq, coe_one]

theorem mul_star_cancel (hq : IsUnitQuat q) (p : ℍ[K]) : q * (star q * p) = p := by
  rw [← mul_assoc, hq.mul_star, one_mul]

end IsUnitQuat

end Unit

variable {K : Type} [Field K] [LinearOrder K] [IsStrictOrderedRing K]

/-- `sqrt` is the nonnegative square root. -/
structure IsSqrt (sqrt : K → K) : Prop where
  nonneg : ∀ x, 0 ≤ x → 0 ≤ sqrt x
  mul_self : ∀ x, 0 ≤ x → sqrt x * sqrt x = x

namespace IsSqrt

variable {sqrt : K → K} (h : IsSqrt sqrt)
include h

theorem one : sqrt 1 = 1 := by
  have hsq := h.mul_self 1 zero_le_one
  have hnn := h.nonneg 1 zero_le_one
  rcases mul_self_eq_one_iff.mp hsq with h1 | h1
  · exact h1
  · linarith

end IsSqrt

/-- The norm of a quaternion. -/
def quatNorm (sqrt : K → K) (q : ℍ[K]) : K := sqrt (normSq q)

/-- `q` over its norm; the identity rotation where the norm is below `ε`. -/
def normalizeOr (sqrt : K → K) (ε : K) (q : ℍ[K]) : ℍ[K] :=
  if quatNorm sqrt q < ε then 1 else (quatNorm sqrt q)⁻¹ • q

section

variable {sqrt : K → K} (h : IsSqrt sqrt)
include h

theorem quatNorm_of_unit {q : ℍ[K]} (hq : IsUnitQuat q) : quatNorm sqrt q = 1 := by
  rw [quatNorm, hq, h.one]

/-- The norm of a multiple of a unit quaternion. -/
theorem quatNorm_smul_of_unit {c : K} (hc : 0 ≤ c) {q : ℍ[K]} (hq : IsUnitQuat q) :
    quatNorm sqrt (c • q) = c := by
  have hsq : normSq (c • q) = c * c := by rw [normSq_smul, hq, mul_one, sq]
  have hnn : 0 ≤ c * c := mul_self_nonneg c
  rw [quatNorm, hsq]
  exact (mul_self_inj (h.nonneg _ hnn) hc).mp (h.mul_self _ hnn)

/-- No part of a quaternion is longer than the whole. -/
theorem abs_re_le_quatNorm (q : ℍ[K]) : |q.re| ≤ quatNorm sqrt q := by
  apply abs_le_of_sq_le_sq _ (h.nonneg _ normSq_nonneg)
  rw [sq (sqrt (normSq q)), h.mul_self _ normSq_nonneg, normSq_def']
  nlinarith [sq_nonneg q.imI, sq_nonneg q.imJ, sq_nonneg q.imK]

theorem isUnitQuat_inv_norm_smul {q : ℍ[K]} (hq : quatNorm sqrt q ≠ 0) :
    IsUnitQuat ((quatNorm sqrt q)⁻¹ • q) := by
  have hsq : quatNorm sqrt q * quatNorm sqrt q = normSq q := h.mul_self _ normSq_nonneg
  rw [IsUnitQuat, normSq_smul, ← hsq]
  field_simp

/-- Normalizing always gives a rotation. -/
theorem isUnitQuat_normalizeOr {ε : K} (hε : 0 < ε) (q : ℍ[K]) :
    IsUnitQuat (normalizeOr sqrt ε q) := by
  unfold normalizeOr
  split
  · exact IsUnitQuat.one
  · rename_i hlt
    exact isUnitQuat_inv_norm_smul h (hε.trans_le (not_lt.mp hlt)).ne'

theorem normalizeOr_of_unit {ε : K} (hε : ε ≤ 1) {q : ℍ[K]} (hq : IsUnitQuat q) :
    normalizeOr sqrt ε q = q := by
  rw [normalizeOr, quatNorm_of_unit h hq, if_neg hε.not_gt, inv_one, one_smul]

end

end P2PRdt.Lib

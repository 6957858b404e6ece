import Mathlib.Analysis.Real.Pi.Irrational
import Mathlib.Analysis.SpecialFunctions.Trigonometric.Complex

/-!
# Angles that are integers

The points of the circle at integer angles are all different, because `π` is
irrational. So are the sums of two of them, up to the order of the two, and no
such sum lies on the circle.
-/

namespace P2PRdt.Lib

open Real

theorem eq_zero_of_mul_pi {k n : ℤ} (h : (k : ℝ) * π = n) : k = 0 := by
  by_contra hk
  have hk : (k : ℝ) ≠ 0 := Int.cast_ne_zero.mpr hk
  have hpi : π = ((n / k : ℚ) : ℝ) := by
    push_cast
    rw [← h, mul_div_cancel_left₀ _ hk]
  exact irrational_pi ⟨_, hpi.symm⟩

/-- An angle of the circle fixes half an integer. -/
theorem eq_of_cos_half_sub {a b : ℤ} (h : cos (a / 2 - b / 2) = 1) : a = b := by
  obtain ⟨k, hk⟩ := (cos_eq_one_iff _).mp h
  have hpi : ((4 * k : ℤ) : ℝ) * π = (a - b : ℤ) := by
    push_cast
    linarith
  have hzero : 4 * k = 0 := eq_zero_of_mul_pi hpi
  have hk : k = 0 := by omega
  subst hk
  have hsub : (a : ℝ) = b := by
    rw [Int.cast_zero, zero_mul] at hk
    linarith
  exact Int.cast_injective hsub

theorem cos_half_ne_zero (a : ℤ) : cos (a / 2) ≠ 0 := by
  intro h
  obtain ⟨k, hk⟩ := cos_eq_zero_iff.mp h
  have hpi : ((2 * k + 1 : ℤ) : ℝ) * π = a := by
    push_cast
    linarith
  have hzero := eq_zero_of_mul_pi hpi
  omega

/-- Integers that differ by full turns are equal. -/
theorem eq_of_full_turns {a b k : ℤ} (h : (b : ℝ) = 2 * k * π + a) : b = a := by
  have hzero : 2 * k = 0 := eq_zero_of_mul_pi (n := b - a) (by push_cast; linarith)
  have hk : (k : ℝ) = 0 := by exact_mod_cast (by omega : k = 0)
  rw [hk, mul_zero, zero_mul, zero_add] at h
  exact Int.cast_injective h

/-- Two integers with one cosine. -/
theorem cos_intCast_inj {a b : ℤ} (h : cos a = cos b) : b = a ∨ b = -a := by
  obtain ⟨k, hk⟩ := cos_eq_cos_iff.mp h
  rcases hk with hk | hk
  · exact .inl (eq_of_full_turns hk)
  · right
    refine eq_of_full_turns (k := k) ?_
    rw [hk, Int.cast_neg, sub_eq_add_neg]

/-- The length of the sum of two points of the circle. -/
theorem norm_add_sq (a b : ℝ) :
    (cos a + cos b) ^ 2 + (sin a + sin b) ^ 2 = 2 + 2 * cos (a - b) := by
  rw [cos_sub]
  linear_combination sin_sq_add_cos_sq a + sin_sq_add_cos_sq b

theorem point_inj {a b : ℤ} (hcos : cos a = cos b) (hsin : sin a = sin b) : a = b := by
  have h : cos ((2 * a : ℤ) / 2 - (2 * b : ℤ) / 2) = 1 := by
    push_cast
    rw [mul_div_cancel_left₀ _ two_ne_zero, mul_div_cancel_left₀ _ two_ne_zero, cos_sub, hcos,
      hsin]
    linear_combination sin_sq_add_cos_sq (b : ℝ)
  have htwice := eq_of_cos_half_sub h
  omega

/-- Sums of points at the same distance. -/
theorem add_inj_of_sub_eq {a b c d : ℤ} (hcos : cos a + cos b = cos c + cos d)
    (hsin : sin a + sin b = sin c + sin d) (hsub : a - b = c - d) : a = c ∧ b = d := by
  have hhalf : ((a : ℝ) - b) / 2 = (c - d) / 2 := by
    congr 1
    exact_mod_cast hsub
  have hne : cos (((c : ℝ) - d) / 2) ≠ 0 := by
    have h := cos_half_ne_zero (c - d)
    push_cast at h
    exact h
  rw [cos_add_cos, cos_add_cos, hhalf] at hcos
  rw [sin_add_sin, sin_add_sin, hhalf] at hsin
  have hcos' : cos (((a : ℝ) + b) / 2) = cos ((c + d) / 2) :=
    mul_left_cancel₀ two_ne_zero (mul_right_cancel₀ hne hcos)
  have hsin' : sin (((a : ℝ) + b) / 2) = sin ((c + d) / 2) :=
    mul_left_cancel₀ two_ne_zero (mul_right_cancel₀ hne hsin)
  have h : cos ((a + b : ℤ) / 2 - (c + d : ℤ) / 2) = 1 := by
    push_cast
    rw [cos_sub, hcos', hsin']
    linear_combination sin_sq_add_cos_sq (((c : ℝ) + d) / 2)
  have hadd := eq_of_cos_half_sub h
  omega

/-- **Sums of two points.** -/
theorem add_inj {a b c d : ℤ} (hcos : cos a + cos b = cos c + cos d)
    (hsin : sin a + sin b = sin c + sin d) : (a = c ∧ b = d) ∨ (a = d ∧ b = c) := by
  have hnorm : cos ((a - b : ℤ) : ℝ) = cos ((c - d : ℤ) : ℝ) := by
    have hab := norm_add_sq a b
    have hcd := norm_add_sq c d
    rw [hcos, hsin] at hab
    push_cast
    linarith
  rcases cos_intCast_inj hnorm with h | h
  · exact .inl (add_inj_of_sub_eq hcos hsin h.symm)
  · right
    rw [add_comm (cos (c : ℝ))] at hcos
    rw [add_comm (sin (c : ℝ))] at hsin
    exact add_inj_of_sub_eq hcos hsin (by omega)

/-- A sum of two points is not on the circle. -/
theorem add_ne_point {a b c : ℤ} (hcos : cos a + cos b = cos c)
    (hsin : sin a + sin b = sin c) : False := by
  have hhalf : cos ((a : ℝ) - b) = -1 / 2 := by
    have hab := norm_add_sq a b
    rw [hcos, hsin] at hab
    have hc := sin_sq_add_cos_sq (c : ℝ)
    linarith
  -- three times the angle between the two is a full turn
  have hturn : cos ((6 * a : ℤ) / 2 - (6 * b : ℤ) / 2) = 1 := by
    have hthree : ((6 * a : ℤ) : ℝ) / 2 - ((6 * b : ℤ) : ℝ) / 2 = 3 * (a - b) := by
      push_cast
      ring
    rw [hthree, cos_three_mul, hhalf]
    norm_num
  have heq := eq_of_cos_half_sub hturn
  obtain rfl : a = b := by omega
  rw [sub_self, cos_zero] at hhalf
  norm_num at hhalf

theorem point_ne_zero {a : ℤ} (hcos : cos a = 0) (hsin : sin a = 0) : False := by
  have hcircle := sin_sq_add_cos_sq (a : ℝ)
  rw [hcos, hsin] at hcircle
  norm_num at hcircle

theorem add_ne_zero {a b : ℤ} (hcos : cos a + cos b = 0) (hsin : sin a + sin b = 0) : False := by
  have hopposite := norm_add_sq a b
  rw [hcos, hsin] at hopposite
  have hhalf := cos_sq ((a - b : ℤ) / 2 : ℝ)
  have htwice : 2 * (((a - b : ℤ) : ℝ) / 2) = a - b := by
    push_cast
    ring
  rw [htwice] at hhalf
  have hzero : cos (((a - b : ℤ) : ℝ) / 2) ^ 2 = 0 := by
    linarith
  exact cos_half_ne_zero (a - b) (pow_eq_zero_iff two_ne_zero |>.mp hzero)

/-- **Sums of at most two points.** -/
theorem perm_of_sum_eq {ps qs : List ℤ} (hp : ps.length ≤ 2) (hq : qs.length ≤ 2)
    (hcos : (ps.map fun p : ℤ => cos (p : ℝ)).sum = (qs.map fun q : ℤ => cos (q : ℝ)).sum)
    (hsin : (ps.map fun p : ℤ => sin (p : ℝ)).sum = (qs.map fun q : ℤ => sin (q : ℝ)).sum) :
    ps.Perm qs := by
  rcases ps with _ | ⟨a, _ | ⟨b, _ | ⟨_, _⟩⟩⟩ <;>
    rcases qs with _ | ⟨c, _ | ⟨d, _ | ⟨_, _⟩⟩⟩ <;>
    simp only [List.map_nil, List.map_cons, List.sum_nil, List.sum_cons, add_zero] at hcos hsin
  · exact .nil
  · exact (point_ne_zero hcos.symm hsin.symm).elim
  · exact (add_ne_zero hcos.symm hsin.symm).elim
  · exact absurd hq (by simp)
  · exact (point_ne_zero hcos hsin).elim
  · rw [point_inj hcos hsin]
  · exact (add_ne_point hcos.symm hsin.symm).elim
  · exact absurd hq (by simp)
  · exact (add_ne_zero hcos hsin).elim
  · exact (add_ne_point hcos hsin).elim
  · rcases add_inj hcos hsin with ⟨rfl, rfl⟩ | ⟨rfl, rfl⟩
    · exact .refl _
    · exact .swap ..
  · exact absurd hq (by simp)
  all_goals exact absurd hp (by simp)

end P2PRdt.Lib

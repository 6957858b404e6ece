import Mathlib.MeasureTheory.Measure.Lebesgue.Basic
import Mathlib.Probability.ProductMeasure

/-!
# Sequences of uniform draws

`uniformDraws` is the law of a sequence of independent draws from `[0, 1)`. The
first `n` draws all reach a threshold `p` with probability `(1 - p) ^ n`, and
otherwise one of them is below it. With two draws or more the second event has
probability `p` only for the thresholds 0 and 1.
-/

namespace P2PRdt.Lib

open MeasureTheory Set

/-- One draw from `[0, 1)`. -/
noncomputable def uniformDraw : Measure ℝ := volume.restrict (Ico 0 1)

instance : IsProbabilityMeasure uniformDraw := ⟨by simp [uniformDraw]⟩

/-- Independent draws. -/
noncomputable def uniformDraws : Measure (ℕ → ℝ) := Measure.infinitePi fun _ => uniformDraw

instance : IsProbabilityMeasure uniformDraws := by
  unfold uniformDraws
  infer_instance

variable {p : ℝ}

theorem uniformDraw_Ici (hp : 0 ≤ p) : uniformDraw (Ici p) = ENNReal.ofReal (1 - p) := by
  have hmeet : Ici p ∩ Ico 0 1 = Ico p 1 := by
    ext x
    constructor
    · rintro ⟨hx, -, hone⟩
      exact ⟨hx, hone⟩
    · rintro ⟨hx, hone⟩
      exact ⟨hx, hp.trans hx, hone⟩
  rw [uniformDraw, Measure.restrict_apply measurableSet_Ici, hmeet, Real.volume_Ico]

/-- The first `n` draws all reach the threshold. -/
theorem uniformDraws_all_ge (hp : 0 ≤ p) (hp1 : p ≤ 1) (n : ℕ) :
    uniformDraws {ω | ∀ i < n, p ≤ ω i} = ENNReal.ofReal ((1 - p) ^ n) := by
  have hbox : {ω : ℕ → ℝ | ∀ i < n, p ≤ ω i} =
      Set.pi (Finset.range n) fun _ => Ici p := by
    ext ω
    simp
  rw [hbox, uniformDraws, Measure.infinitePi_pi _ fun _ _ => measurableSet_Ici,
    Finset.prod_const, Finset.card_range, uniformDraw_Ici hp,
    ENNReal.ofReal_pow (sub_nonneg.mpr hp1)]

theorem measurableSet_all_ge (n : ℕ) : MeasurableSet {ω : ℕ → ℝ | ∀ i < n, p ≤ ω i} := by
  have hmeet : {ω : ℕ → ℝ | ∀ i < n, p ≤ ω i} = ⋂ i ∈ Finset.range n, {ω | p ≤ ω i} := by
    ext ω
    simp
  rw [hmeet]
  exact Finset.measurableSet_biInter _ fun i _ => measurableSet_le measurable_const
    (measurable_pi_apply i)

/-- One of the first `n` draws is below the threshold. -/
theorem uniformDraws_some_lt (hp : 0 ≤ p) (hp1 : p ≤ 1) (n : ℕ) :
    uniformDraws {ω | ∃ i < n, ω i < p} = ENNReal.ofReal (1 - (1 - p) ^ n) := by
  have hcompl : {ω : ℕ → ℝ | ∃ i < n, ω i < p} = {ω | ∀ i < n, p ≤ ω i}ᶜ := by
    ext ω
    simp
  rw [hcompl, prob_compl_eq_one_sub (measurableSet_all_ge n), uniformDraws_all_ge hp hp1 n,
    ← ENNReal.ofReal_one, ENNReal.ofReal_sub _ (pow_nonneg (sub_nonneg.mpr hp1) n)]

/-- From two draws on, keeping with probability `1 - p` needs a threshold of 0 or 1. -/
theorem one_sub_pow_eq_iff (hp : 0 ≤ p) (hp1 : p ≤ 1) {n : ℕ} (hn : 2 ≤ n) :
    (1 - p) ^ n = 1 - p ↔ p = 0 ∨ p = 1 := by
  constructor
  · intro h
    rcases hp1.eq_or_lt with hone | hlt
    · exact Or.inr hone
    · rcases hp.eq_or_lt with hzero | hpos
      · exact Or.inl hzero.symm
      · have hsmall : (1 - p) ^ n < (1 - p) ^ 1 :=
          pow_lt_pow_right_of_lt_one₀ (sub_pos.mpr hlt) (by linarith) hn
        rw [pow_one] at hsmall
        exact absurd h hsmall.ne
  · rintro (rfl | rfl)
    · rw [sub_zero, one_pow]
    · rw [sub_self, zero_pow (by omega)]

end P2PRdt.Lib

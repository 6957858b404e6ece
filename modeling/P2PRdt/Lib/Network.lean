import Mathlib.Algebra.BigOperators.Field
import Mathlib.Algebra.Order.BigOperators.Group.Finset
import Mathlib.Analysis.SpecialFunctions.Pow.Real
import Mathlib.Data.Matrix.Basis

/-!
# Layers of a network

Linear maps, root mean square normalization and softmax attention over an ordered
field. Axes are finite types, so a tensor viewed by heads is a function of a
product and a concatenation is a function of a sum.

The elementary functions are those of the tensor library and come in as a class.
Two of their laws matter: the exponential is positive, and so is the square root
of a positive number.
-/

namespace P2PRdt.Lib

/-- The elementary functions of the tensor library. -/
class Elementary (K : Type) where
  exp : K → K
  log : K → K
  sqrt : K → K
  sin : K → K
  cos : K → K
  pow : K → K → K

class LawfulElementary (K : Type) [Zero K] [LT K] [Elementary K] : Prop where
  exp_pos : ∀ x : K, 0 < Elementary.exp x
  sqrt_pos : ∀ x : K, 0 < x → 0 < Elementary.sqrt x

noncomputable instance : Elementary ℝ where
  exp := Real.exp
  log := Real.log
  sqrt := Real.sqrt
  sin := Real.sin
  cos := Real.cos
  pow := Real.rpow

instance : LawfulElementary ℝ where
  exp_pos := Real.exp_pos
  sqrt_pos := fun _ => Real.sqrt_pos.mpr

open Elementary

variable {K : Type} [Field K] {ι κ : Type}

/-! ## Linear layers -/

/-- A linear layer with a bias. -/
structure Linear (κ ι K : Type) where
  weight : Matrix ι κ K
  bias : ι → K

def Linear.forward [Fintype κ] (l : Linear κ ι K) (x : κ → K) : ι → K :=
  l.weight.mulVec x + l.bias

/-- A matrix with a single one moves lane `j` to lane `i`. -/
theorem single_mulVec_same [Fintype κ] [DecidableEq ι] [DecidableEq κ] (i : ι) (j : κ) (x : κ → K) :
    (Matrix.single i j (1 : K)).mulVec x i = x j := by
  rw [Matrix.single_mulVec, Function.update_self, one_mul]

namespace Linear

/-- The layer that is zero everywhere. -/
def zero (κ ι K : Type) [Field K] : Linear κ ι K where
  weight := 0
  bias := 0

/-- The layer that moves lane `j` to lane `i`. -/
def pick [DecidableEq ι] [DecidableEq κ] (i : ι) (j : κ) : Linear κ ι K where
  weight := Matrix.single i j 1
  bias := 0

@[simp] theorem zero_forward [Fintype κ] (x : κ → K) : (zero κ ι K).forward x = 0 := by
  rw [forward, zero, Matrix.zero_mulVec, add_zero]

theorem pick_forward [Fintype κ] [DecidableEq ι] [DecidableEq κ] (i : ι) (j : κ) (x : κ → K) :
    (pick i j : Linear κ ι K).forward x i = x j :=
  (add_zero _).trans (single_mulVec_same i j x)

end Linear

variable [Elementary K] [Fintype ι]

/-! ## Pointwise layers -/

def rsqrt (x : K) : K := 1 / sqrt x

def silu (x : K) : K := x * (1 / (1 + exp (-x)))

def rmsNorm (eps : K) (scale x : ι → K) : ι → K := fun i =>
  x i * rsqrt ((∑ j, x j ^ 2) / Fintype.card ι + eps) * scale i

/-! ## Attention -/

/-- A score of minus infinity is `none`. -/
def softmaxWeight : Option K → K
  | none => 0
  | some s => exp s

def softmax (s : ι → Option K) : ι → K := fun i =>
  softmaxWeight (s i) / ∑ j, softmaxWeight (s j)

section Order

variable [LinearOrder K] [IsStrictOrderedRing K] [LawfulElementary K]

omit [Elementary K] [LawfulElementary K] in
/-- A nonnegative mix of nonnegative values with one positive part is positive. -/
theorem sum_mul_pos {w v : ι → K} (hw : ∀ i, 0 ≤ w i) (hv : ∀ i, 0 ≤ v i) {i : ι}
    (hwi : 0 < w i) (hvi : 0 < v i) : 0 < ∑ j, w j * v j := by
  apply Finset.sum_pos'
  · intro j _
    exact mul_nonneg (hw j) (hv j)
  · exact ⟨i, Finset.mem_univ i, mul_pos hwi hvi⟩

/-- Normalization keeps the sign of a lane with a positive scale. -/
theorem rmsNorm_lane {eps : K} (heps : 0 ≤ eps) {scale x : ι → K} {i : ι} (hscale : 0 < scale i) :
    ∃ c, 0 < c ∧ rmsNorm eps scale x i = c * x i := by
  by_cases hx : x i = 0
  · refine ⟨1, one_pos, ?_⟩
    rw [rmsNorm, hx, zero_mul, zero_mul, mul_zero]
  · have hcard : (0 : K) < Fintype.card ι := by
      exact_mod_cast Fintype.card_pos_iff.mpr ⟨i⟩
    have hsum : 0 < ∑ j, x j ^ 2 := by
      apply Finset.sum_pos'
      · intro j _
        exact sq_nonneg (x j)
      · exact ⟨i, Finset.mem_univ i, sq_pos_of_ne_zero hx⟩
    have hroot : 0 < rsqrt ((∑ j, x j ^ 2) / Fintype.card ι + eps) :=
      one_div_pos.mpr (LawfulElementary.sqrt_pos _
        (add_pos_of_pos_of_nonneg (div_pos hsum hcard) heps))
    refine ⟨_, mul_pos hroot hscale, ?_⟩
    rw [rmsNorm]
    ring

omit [IsStrictOrderedRing K] in
theorem softmaxWeight_nonneg (s : Option K) : 0 ≤ softmaxWeight s := by
  cases s with
  | none => exact le_rfl
  | some s => exact (LawfulElementary.exp_pos s).le

theorem softmax_nonneg (s : ι → Option K) (i : ι) : 0 ≤ softmax s i :=
  div_nonneg (softmaxWeight_nonneg _) (Finset.sum_nonneg fun _ _ => softmaxWeight_nonneg _)

/-- The divisor of the softmax, with a finite score among the scores. -/
theorem sum_softmaxWeight_pos {s : ι → Option K} {i : ι} {x : K} (h : s i = some x) :
    0 < ∑ j, softmaxWeight (s j) := by
  apply Finset.sum_pos'
  · intro j _
    exact softmaxWeight_nonneg (s j)
  · exact ⟨i, Finset.mem_univ i, h ▸ LawfulElementary.exp_pos x⟩

/-- A finite score gets a positive weight. -/
theorem softmax_pos {s : ι → Option K} {i : ι} {x : K} (h : s i = some x) : 0 < softmax s i := by
  have hi : 0 < softmaxWeight (s i) := h ▸ LawfulElementary.exp_pos x
  exact div_pos hi (sum_softmaxWeight_pos h)

theorem sum_softmax {s : ι → Option K} {i : ι} {x : K} (h : s i = some x) :
    ∑ j, softmax s j = 1 := by
  unfold softmax
  rw [← Finset.sum_div]
  exact div_self (sum_softmaxWeight_pos h).ne'

end Order

end P2PRdt.Lib

import Mathlib.Algebra.BigOperators.Fin
import Mathlib.Algebra.Order.BigOperators.Group.Finset
import Mathlib.Algebra.Order.Field.Basic
import Mathlib.Data.List.FinRange
import Mathlib.Order.Interval.Finset.Fin
import Mathlib.Order.Interval.Set.OrdConnected

/-!
# Drawing from a cumulative sum

The cumulative sums of nonnegative weights that add up to one cut the unit
interval into pieces. A draw `u` is sent to the first index whose cumulative sum
reaches it, so an index is drawn on an interval as long as its weight.
-/

namespace P2PRdt.Lib

variable {K : Type} {n : ℕ}

/-- The first true entry, or the first entry when there is none. -/
def firstTrue (mask : Fin (n + 1) → Bool) : Fin (n + 1) :=
  ((List.finRange (n + 1)).find? mask).getD 0

theorem firstTrue_spec {mask : Fin (n + 1) → Bool} (h : ∃ i, mask i = true) :
    mask (firstTrue mask) = true ∧ ∀ j < firstTrue mask, mask j = false := by
  rcases h with ⟨i, hi⟩
  have hsome : ((List.finRange (n + 1)).find? mask).isSome :=
    List.find?_isSome.mpr ⟨i, List.mem_finRange i, hi⟩
  obtain ⟨k, hk⟩ := Option.isSome_iff_exists.mp hsome
  have hfirst : firstTrue mask = k := by
    rw [firstTrue, hk]
    rfl
  rw [hfirst]
  obtain ⟨hmask, place, hplace, hget, hbefore⟩ := List.find?_eq_some_iff_getElem.mp hk
  refine ⟨hmask, ?_⟩
  intro j hj
  rw [List.getElem_finRange] at hget
  have hjk : (j : ℕ) < place := by
    have hval : place = (k : ℕ) := congrArg Fin.val hget
    exact hval ▸ hj
  have hjfalse := hbefore j hjk
  rw [List.getElem_finRange] at hjfalse
  exact Bool.eq_false_of_not_eq_true (by simpa using hjfalse)

theorem firstTrue_eq_iff {mask : Fin (n + 1) → Bool} (h : ∃ i, mask i = true) {i : Fin (n + 1)} :
    firstTrue mask = i ↔ mask i = true ∧ ∀ j < i, mask j = false := by
  obtain ⟨htrue, hbefore⟩ := firstTrue_spec h
  constructor
  · rintro rfl
    exact ⟨htrue, hbefore⟩
  · rintro ⟨hi, hi'⟩
    rcases lt_trichotomy (firstTrue mask) i with hlt | heq | hgt
    · exact absurd htrue (Bool.eq_false_iff.mp (hi' _ hlt))
    · exact heq
    · exact absurd hi (Bool.eq_false_iff.mp (hbefore i hgt))

section Sums

variable [AddCommMonoid K]

def cumsum (x : Fin (n + 1) → K) : Fin (n + 1) → K := fun i => ∑ j ∈ Finset.Iic i, x j

/-- What stands before index `i`. -/
def sumBefore (x : Fin (n + 1) → K) : Fin (n + 1) → K := fun i => ∑ j ∈ Finset.Iio i, x j

theorem cumsum_eq_sumBefore_add (x : Fin (n + 1) → K) (i : Fin (n + 1)) :
    cumsum x i = sumBefore x i + x i := by
  rw [cumsum, sumBefore, ← Finset.Iio_insert, Finset.sum_insert (by simp), add_comm]

theorem cumsum_castSucc (x : Fin (n + 1) → K) (i : Fin n) :
    cumsum x i.castSucc = sumBefore x i.succ := by
  have hset : Finset.Iic i.castSucc = Finset.Iio i.succ := by
    ext j
    rw [Finset.mem_Iic, Finset.mem_Iio, Fin.le_castSucc_iff]
  rw [cumsum, sumBefore, hset]

theorem sumBefore_zero (x : Fin (n + 1) → K) : sumBefore x 0 = 0 := by
  apply Finset.sum_eq_zero
  intro j hj
  exact absurd (Finset.mem_Iio.mp hj) (Fin.not_lt_zero j)

theorem cumsum_last (x : Fin (n + 1) → K) : cumsum x (Fin.last n) = ∑ j, x j := by
  rw [cumsum, ← Fin.top_eq_last, Finset.Iic_top]

end Sums

section Order

variable [AddCommMonoid K] [LinearOrder K] [IsOrderedAddMonoid K] {x : Fin (n + 1) → K}
  (hx : ∀ i, 0 ≤ x i)
include hx

theorem cumsum_mono : Monotone (cumsum x) := by
  intro i j hij
  apply Finset.sum_le_sum_of_subset_of_nonneg (Finset.Iic_subset_Iic.mpr hij)
  intro k _ _
  exact hx k

theorem sumBefore_mono : Monotone (sumBefore x) := by
  intro i j hij
  apply Finset.sum_le_sum_of_subset_of_nonneg (Finset.Iio_subset_Iio hij)
  intro k _ _
  exact hx k

theorem sumBefore_nonneg (i : Fin (n + 1)) : 0 ≤ sumBefore x i :=
  Finset.sum_nonneg fun j _ => hx j

/-- A draw past all earlier sums is past the sum before the index. -/
theorem cumsum_lt_before_iff {u : K} {i : Fin (n + 1)} :
    (∀ j < i, cumsum x j < u) ↔ i = 0 ∨ sumBefore x i < u := by
  rcases Fin.eq_zero_or_eq_succ i with rfl | ⟨k, rfl⟩
  · simp
  · constructor
    · intro h
      right
      rw [← cumsum_castSucc]
      exact h k.castSucc Fin.castSucc_lt_succ
    · rintro (hzero | hlt) j hj
      · exact absurd hzero (Fin.succ_ne_zero k)
      · rw [← cumsum_castSucc] at hlt
        exact (cumsum_mono hx (Fin.le_castSucc_iff.mpr hj)).trans_lt hlt

end Order

/-- A set with the endpoints `a` and `b`, each of them in it or not. -/
def IsIntervalBetween [Preorder K] (S : Set K) (a b : K) : Prop :=
  Set.Ioo a b ⊆ S ∧ S ⊆ Set.Icc a b ∧ S.OrdConnected

/-- An interval of the given length. -/
def IsIntervalOfLength [Preorder K] [Sub K] (S : Set K) (length : K) : Prop :=
  ∃ a b, a ≤ b ∧ b - a = length ∧ IsIntervalBetween S a b

section Draw

variable [Field K] [LinearOrder K] [IsStrictOrderedRing K]

/-- The index that a draw is sent to. -/
def drawIndex (x : Fin (n + 1) → K) (u : K) : Fin (n + 1) :=
  firstTrue fun i => decide (u ≤ cumsum x i)

/-- The draws from the unit interval that are sent to `i`. -/
def drawsOf (x : Fin (n + 1) → K) (i : Fin (n + 1)) : Set K :=
  {u | 0 ≤ u ∧ u < 1 ∧ drawIndex x u = i}

variable {x : Fin (n + 1) → K} (hx : ∀ i, 0 ≤ x i) (hsum : ∑ i, x i = 1)
include hx hsum

theorem drawIndex_eq_iff {u : K} (hu : u < 1) {i : Fin (n + 1)} :
    drawIndex x u = i ↔ u ≤ cumsum x i ∧ (i = 0 ∨ sumBefore x i < u) := by
  have hlast : ∃ i, decide (u ≤ cumsum x i) = true := by
    refine ⟨Fin.last n, decide_eq_true ?_⟩
    rw [cumsum_last, hsum]
    exact hu.le
  rw [drawIndex, firstTrue_eq_iff hlast, ← cumsum_lt_before_iff hx]
  simp only [decide_eq_true_eq, decide_eq_false_iff_not, not_le]

theorem cumsum_le_one (i : Fin (n + 1)) : cumsum x i ≤ 1 := by
  rw [← hsum, ← cumsum_last]
  exact cumsum_mono hx (Fin.le_last i)

/-- An index is drawn on an interval as long as its weight. -/
theorem drawsOf_isInterval (i : Fin (n + 1)) : IsIntervalOfLength (drawsOf x i) (x i) := by
  have hsplit := cumsum_eq_sumBefore_add x i
  have hle : sumBefore x i ≤ cumsum x i := by
    rw [hsplit]
    exact le_add_of_nonneg_right (hx i)
  refine ⟨sumBefore x i, cumsum x i, hle, by rw [hsplit, add_sub_cancel_left], ?_, ?_, ?_⟩
  · rintro u ⟨hlt, hlt'⟩
    have hu : u < 1 := hlt'.trans_le (cumsum_le_one hx hsum i)
    exact ⟨(sumBefore_nonneg hx i).trans hlt.le, hu,
      (drawIndex_eq_iff hx hsum hu).mpr ⟨hlt'.le, .inr hlt⟩⟩
  · rintro u ⟨hnonneg, hu, hdraw⟩
    obtain ⟨hle', hzero | hlt⟩ := (drawIndex_eq_iff hx hsum hu).mp hdraw
    · rw [hzero, sumBefore_zero]
      exact ⟨hnonneg, hzero ▸ hle'⟩
    · exact ⟨hlt.le, hle'⟩
  · refine ⟨?_⟩
    rintro u ⟨hnonneg, hu, hdraw⟩ v ⟨hnonneg', hv, hdraw'⟩ w ⟨huw, hwv⟩
    have hw : w < 1 := hwv.trans_lt hv
    obtain ⟨-, hbefore⟩ := (drawIndex_eq_iff hx hsum hu).mp hdraw
    obtain ⟨hle', -⟩ := (drawIndex_eq_iff hx hsum hv).mp hdraw'
    exact ⟨hnonneg.trans huw, hw, (drawIndex_eq_iff hx hsum hw).mpr
      ⟨hwv.trans hle', hbefore.imp_right fun h => h.trans_le huw⟩⟩

/-- The first index is drawn at least at zero. -/
theorem drawIndex_zero : drawIndex x 0 = 0 := by
  rw [drawIndex_eq_iff hx hsum zero_lt_one, cumsum_eq_sumBefore_add, sumBefore_zero, zero_add]
  exact ⟨hx 0, .inl rfl⟩

/-- Another index without weight is never drawn. -/
theorem drawsOf_eq_empty {i : Fin (n + 1)} (hi : i ≠ 0) (hzero : x i = 0) : drawsOf x i = ∅ := by
  rw [Set.eq_empty_iff_forall_notMem]
  rintro u ⟨-, hu, hdraw⟩
  obtain ⟨hle, h0 | hlt⟩ := (drawIndex_eq_iff hx hsum hu).mp hdraw
  · exact hi h0
  · rw [cumsum_eq_sumBefore_add, hzero, add_zero] at hle
    exact hlt.not_ge hle

end Draw

end P2PRdt.Lib

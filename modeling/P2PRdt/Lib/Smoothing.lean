import Mathlib.Algebra.Order.Field.Basic
import Mathlib.Analysis.Convex.Basic

/-!
# Exponential smoothing

A smoothed value moves a part `alpha` of the way to the next raw value. It stays
in every convex set that has the values it is made of; in a linear order the
smallest such set is the interval from the least to the greatest of them.
-/

namespace P2PRdt.Lib

/-! ## The hull of a list -/

section Hull

variable {K : Type*} [LinearOrder K] {a x : K} {l : List K}

/-- From the least to the greatest of `a` and the entries of a list. -/
def listHull (a : K) (l : List K) : Set K := Set.Icc (l.foldr min a) (l.foldr max a)

theorem self_mem_listHull : a ∈ listHull a l := by
  induction l with
  | nil => exact ⟨le_rfl, le_rfl⟩
  | cons y l ih => exact ⟨(min_le_right _ _).trans ih.1, ih.2.trans (le_max_right _ _)⟩

theorem mem_listHull_of_mem (hx : x ∈ l) : x ∈ listHull a l := by
  induction l with
  | nil => cases hx
  | cons y l ih =>
      rcases List.mem_cons.mp hx with rfl | hx
      · exact ⟨min_le_left _ _, le_max_left _ _⟩
      · exact ⟨(min_le_right _ _).trans (ih hx).1, (ih hx).2.trans (le_max_right _ _)⟩

theorem le_foldr_min {m : K} (ha : m ≤ a) (hl : ∀ y ∈ l, m ≤ y) : m ≤ l.foldr min a := by
  induction l with
  | nil => exact ha
  | cons y l ih =>
      exact le_min (hl y List.mem_cons_self) (ih fun z hz => hl z (List.mem_cons_of_mem y hz))

theorem foldr_max_le {m : K} (ha : a ≤ m) (hl : ∀ y ∈ l, y ≤ m) : l.foldr max a ≤ m := by
  induction l with
  | nil => exact ha
  | cons y l ih =>
      exact max_le (hl y List.mem_cons_self) (ih fun z hz => hl z (List.mem_cons_of_mem y hz))

/-- More values make the hull larger. -/
theorem listHull_subset {l' : List K} (h : ∀ y ∈ l, y ∈ l') : listHull a l ⊆ listHull a l' := by
  apply Set.Icc_subset_Icc
  · apply le_foldr_min self_mem_listHull.1
    intro y hy
    exact (mem_listHull_of_mem (h y hy)).1
  · apply foldr_max_le self_mem_listHull.2
    intro y hy
    exact (mem_listHull_of_mem (h y hy)).2

end Hull

/-! ## Smoothing -/

section Smooth

variable {K E : Type*} [Field K] [LinearOrder K] [IsStrictOrderedRing K] [AddCommGroup E]
  [Module K E] {alpha : K}

/-- The next smoothed value. -/
def smooth (alpha : K) (previous raw : E) : E := (1 - alpha) • previous + alpha • raw

omit [LinearOrder K] [IsStrictOrderedRing K] in
theorem smooth_sub (previous raw : E) :
    smooth alpha previous raw - previous = alpha • (raw - previous) := by
  rw [smooth, sub_smul, one_smul, smul_sub]
  abel

/-- A step covers the part `alpha` of the distance. -/
theorem abs_smooth_sub (halpha : 0 ≤ alpha) (previous raw : K) :
    |smooth alpha previous raw - previous| = alpha * |raw - previous| := by
  rw [smooth_sub, smul_eq_mul, abs_mul, abs_of_nonneg halpha]

theorem smooth_mem {S : Set E} (hS : Convex K S) (halpha : 0 ≤ alpha) (halpha1 : alpha ≤ 1)
    {previous raw : E} (hprevious : previous ∈ S) (hraw : raw ∈ S) :
    smooth alpha previous raw ∈ S :=
  hS hprevious hraw (sub_nonneg.mpr halpha1) halpha (sub_add_cancel 1 alpha)

/-- One more raw value. -/
theorem smooth_mem_listHull (halpha : 0 ≤ alpha) (halpha1 : alpha ≤ 1) {a previous raw : K}
    {l : List K} (hprevious : previous ∈ listHull a l) :
    smooth alpha previous raw ∈ listHull a (l ++ [raw]) := by
  apply smooth_mem (convex_Icc _ _) halpha halpha1
  · exact listHull_subset (fun y hy => List.mem_append_left _ hy) hprevious
  · exact mem_listHull_of_mem (by simp)

end Smooth

end P2PRdt.Lib

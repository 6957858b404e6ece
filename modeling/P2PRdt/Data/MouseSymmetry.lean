import P2PRdt.Data.MouseBins

/-!
# Symmetry of the mouse quantiser

Both axes are mirrored at zero: the negative edges are the positive ones with
a shift that moves the half-open buckets onto each other. The centres are
increasing and odd, and the conservative centre of a bucket is the integer next
to its inner edge. What the tables have to satisfy for this is collected in
`Mirrored`; the rest holds for every such axis.
-/

namespace P2PRdt.Data

open Lib

/-- The tables that decode a bucket to a fixed centre. -/
def AxisSampling.IsCentre : AxisSampling → Prop
  | .mean | .conservative => True
  | .truncatedNormal _ => False

namespace MouseAxis

/-- The centre of the middle bucket is 0, the others are increasing and odd. -/
def centresOdd (centers : List ℤ) : Bool :=
  centers.map (- ·) = centers.reverse ∧ centers.Pairwise (· < ·)

/-- `c` is the value of its bucket next to zero. -/
def innermost (edges : List ℚ) (c : ℤ) : Bool :=
  (0 < c → bucketize edges ((c - 1 : ℤ) : ℚ) < bucketize edges (c : ℚ)) ∧
    (c < 0 → bucketize edges (c : ℚ) < bucketize edges ((c + 1 : ℤ) : ℚ))

/-- What ties the tables of one axis together. -/
structure Mirrored (axis : MouseAxis) where
  positiveEdges : List ℤ
  edges_eq : axis.binEdges = mirrored (0.1 : ℚ) positiveEdges
  zero_alone : axis.toBin (-1) < axis.toBin 0
  centers_odd : centresOdd axis.binCenters = true
  conservative_odd : centresOdd axis.binConservativeCenters = true
  conservative_inner : axis.binConservativeCenters.all (innermost axis.binEdges) = true

/-- What is said of the quantiser: monotone and mirrored, and the decoded
values have the order and the sign of what is encoded. -/
structure Symmetric (axis : MouseAxis) : Prop where
  toBin_mono : ∀ v w : ℤ, v ≤ w → axis.toBin v ≤ axis.toBin w
  toBin_neg : ∀ v : ℤ, axis.toBin (-v) = axis.nBins - 1 - axis.toBin v
  decode_mono : ∀ s : AxisSampling, s.IsCentre → ∀ i j, i ≤ j → j < axis.nBins →
    ∃ c d, axis.ofBin s i = some c ∧ axis.ofBin s j = some d ∧ c ≤ d
  decode_odd : ∀ s : AxisSampling, s.IsCentre → ∀ i < axis.nBins,
    ∃ c, axis.ofBin s i = some c ∧ axis.ofBin s (axis.nBins - 1 - i) = some (-c)
  decode_sign : ∀ s : AxisSampling, s.IsCentre → ∀ v : ℤ,
    ∃ c, axis.ofBin s (axis.toBin v) = some c ∧ c.sign = v.sign
  /-- The conservative centre is the one value of the bucket next to zero. -/
  conservative_least : ∀ v : ℤ, ∃ c, axis.ofBin .conservative (axis.toBin v) = some c ∧
    |c| ≤ |v| ∧ axis.toBin c = axis.toBin v ∧
    ∀ w : ℤ, axis.toBin w = axis.toBin v → w ≠ c → |c| < |w|

theorem toBin_mono (axis : MouseAxis) {v w : ℤ} (h : v ≤ w) : axis.toBin v ≤ axis.toBin w :=
  bucketize_mono _ (Int.cast_le.mpr h)

/-- The table of a sampling that decodes to centres. -/
def centres (axis : MouseAxis) : AxisSampling → List ℤ
  | .mean => axis.binCenters
  | _ => axis.binConservativeCenters

theorem ofBin_eq_centres (axis : MouseAxis) {s : AxisSampling} (hs : s.IsCentre) (i : ℕ) :
    axis.ofBin s i = (axis.centres s)[i]? := by
  cases s with
  | mean => rfl
  | conservative => rfl
  | truncatedNormal draw => exact hs.elim

theorem centres_in_bin (axis : MouseAxis) (s : AxisSampling) :
    (axis.centres s).map (fun c : ℤ => bucketize axis.binEdges (c : ℚ)) =
      List.range axis.nBins := by
  cases s with
  | mean => exact axis.centers_in_bin
  | conservative => exact axis.conservative_in_bin
  | truncatedNormal draw => exact axis.conservative_in_bin

theorem length_centres (axis : MouseAxis) (s : AxisSampling) :
    (axis.centres s).length = axis.nBins := by
  have h := congrArg List.length (axis.centres_in_bin s)
  rwa [List.length_map, List.length_range] at h

namespace Mirrored

variable {axis : MouseAxis} (m : axis.Mirrored)
include m

theorem toBin_neg (v : ℤ) : axis.toBin (-v) = axis.nBins - 1 - axis.toBin v := by
  rw [toBin, toBin, nBins, Nat.add_sub_cancel, m.edges_eq]
  exact bucketize_mirrored_neg (by norm_num) (by norm_num) _ _

theorem centresOdd_centres (s : AxisSampling) : centresOdd (axis.centres s) = true := by
  cases s with
  | mean => exact m.centers_odd
  | conservative => exact m.conservative_odd
  | truncatedNormal draw => exact m.conservative_odd

theorem decode_mono (s : AxisSampling) {i j : ℕ} (hij : i ≤ j) (hj : j < axis.nBins) :
    ∃ c d, (axis.centres s)[i]? = some c ∧ (axis.centres s)[j]? = some d ∧ c ≤ d := by
  obtain ⟨-, hsorted⟩ := of_decide_eq_true (m.centresOdd_centres s)
  rw [← axis.length_centres s] at hj
  refine ⟨_, _, List.getElem?_eq_getElem (hij.trans_lt hj), List.getElem?_eq_getElem hj, ?_⟩
  rcases hij.eq_or_lt with rfl | hlt
  · exact le_rfl
  · exact (List.pairwise_iff_getElem.mp hsorted i j _ hj hlt).le

theorem decode_odd (s : AxisSampling) {i : ℕ} (hi : i < axis.nBins) :
    ∃ c, (axis.centres s)[i]? = some c ∧
      (axis.centres s)[axis.nBins - 1 - i]? = some (-c) := by
  obtain ⟨hodd, -⟩ := of_decide_eq_true (m.centresOdd_centres s)
  have hlen := axis.length_centres s
  rw [← hlen] at hi ⊢
  refine ⟨_, List.getElem?_eq_getElem hi, ?_⟩
  rw [← List.getElem?_reverse hi, ← hodd, List.getElem?_map, List.getElem?_eq_getElem hi]
  rfl

theorem nBins_eq : axis.nBins - 1 = m.positiveEdges.length + m.positiveEdges.length := by
  rw [nBins, Nat.add_sub_cancel, m.edges_eq, length_mirrored]

/-- Zero is alone in the middle bucket. -/
theorem toBin_compare (v : ℤ) :
    compare (axis.toBin v) m.positiveEdges.length = compare v 0 := by
  have hzero : axis.toBin 0 = m.positiveEdges.length := by
    have hneg := m.toBin_neg 0
    have hlt := axis.toBin_lt 0
    rw [neg_zero] at hneg
    have hn := m.nBins_eq
    omega
  have hbelow : ∀ w : ℤ, w < 0 → axis.toBin w < m.positiveEdges.length := by
    intro w hw
    rw [← hzero]
    exact (axis.toBin_mono (show w ≤ -1 by omega)).trans_lt m.zero_alone
  rcases lt_trichotomy v 0 with hlt | rfl | hgt
  · rw [compare_lt_iff_lt.mpr hlt, compare_lt_iff_lt]
    exact hbelow v hlt
  · rw [hzero, compare_eq_iff_eq.mpr rfl, compare_eq_iff_eq.mpr rfl]
  · rw [compare_gt_iff_gt.mpr hgt, compare_gt_iff_gt]
    have hneg := m.toBin_neg v
    have hlt := hbelow (-v) (by omega)
    have hn := m.nBins_eq
    omega

/-- The centre of the middle bucket is 0. -/
theorem centres_mid (s : AxisSampling) :
    (axis.centres s)[m.positiveEdges.length]? = some 0 := by
  have hn := m.nBins_eq
  have hpos : 0 < axis.nBins := Nat.succ_pos _
  obtain ⟨c, hc, hneg⟩ := m.decode_odd s (show m.positiveEdges.length < axis.nBins by omega)
  have hmirror : axis.nBins - 1 - m.positiveEdges.length = m.positiveEdges.length := by omega
  rw [hmirror, hc, Option.some_inj] at hneg
  obtain rfl : c = 0 := by omega
  exact hc

theorem decode_sign (s : AxisSampling) (v : ℤ) :
    ∃ c, (axis.centres s)[axis.toBin v]? = some c ∧ c.sign = v.sign := by
  obtain ⟨-, hsorted⟩ := of_decide_eq_true (m.centresOdd_centres s)
  obtain ⟨hmid, hzero⟩ := List.getElem?_eq_some_iff.mp (m.centres_mid s)
  have hcmp := m.toBin_compare v
  have hv : axis.toBin v < (axis.centres s).length := by
    rw [axis.length_centres]
    exact axis.toBin_lt v
  have hincr := List.pairwise_iff_getElem.mp hsorted
  refine ⟨_, List.getElem?_eq_getElem hv, ?_⟩
  rcases lt_trichotomy v 0 with hlt | rfl | hgt
  · rw [compare_lt_iff_lt.mpr hlt, compare_lt_iff_lt] at hcmp
    have hc := hincr _ _ hv hmid hcmp
    rw [hzero] at hc
    rw [Int.sign_eq_neg_one_of_neg hc, Int.sign_eq_neg_one_of_neg hlt]
  · rw [compare_eq_iff_eq.mpr rfl, compare_eq_iff_eq] at hcmp
    simp only [hcmp, hzero]
  · rw [compare_gt_iff_gt.mpr hgt, compare_gt_iff_gt] at hcmp
    have hc := hincr _ _ hmid hv hcmp
    rw [hzero] at hc
    rw [Int.sign_eq_one_of_pos hc, Int.sign_eq_one_of_pos hgt]

/-- No other value of the bucket is as close to zero as its conservative
centre. -/
theorem conservative_least (v : ℤ) :
    ∃ c, axis.binConservativeCenters[axis.toBin v]? = some c ∧ axis.toBin c = axis.toBin v ∧
      ∀ w : ℤ, axis.toBin w = axis.toBin v → w ≠ c → |c| < |w| := by
  obtain ⟨c, hc, hbin⟩ := centers_toBin axis.conservative_in_bin (axis.toBin_lt v)
  obtain ⟨c', hc', hsign⟩ := m.decode_sign .conservative v
  obtain rfl : c = c' := Option.some_inj.mp (hc.symm.trans hc')
  obtain ⟨hup, hdown⟩ := of_decide_eq_true
    (List.all_eq_true.mp m.conservative_inner c (List.mem_of_getElem? hc))
  refine ⟨c, hc, hbin, fun w hw hne => ?_⟩
  rcases lt_trichotomy c 0 with hneg | rfl | hpos
  · -- past `c` towards zero the next bucket begins
    have hle : w ≤ c := by
      by_contra hlt
      have hnext : axis.toBin (c + 1) ≤ axis.toBin w := axis.toBin_mono (by omega)
      exact absurd (hdown hneg) (by
        show ¬ axis.toBin c < axis.toBin (c + 1)
        omega)
    rw [abs_of_neg hneg, abs_of_neg (hle.trans_lt hneg)]
    omega
  · exact abs_pos.mpr hne
  · have hge : c ≤ w := by
      by_contra hlt
      have hprev : axis.toBin w ≤ axis.toBin (c - 1) := axis.toBin_mono (by omega)
      exact absurd (hup hpos) (by
        show ¬ axis.toBin (c - 1) < axis.toBin c
        omega)
    rw [abs_of_pos hpos, abs_of_pos (hpos.trans_le hge)]
    omega

/-- An axis with mirrored tables is symmetric. -/
theorem symmetric : axis.Symmetric where
  toBin_mono := fun _ _ => axis.toBin_mono
  toBin_neg := m.toBin_neg
  decode_mono := by
    intro s hs i j hij hj
    rw [axis.ofBin_eq_centres hs, axis.ofBin_eq_centres hs]
    exact m.decode_mono s hij hj
  decode_odd := by
    intro s hs i hi
    rw [axis.ofBin_eq_centres hs, axis.ofBin_eq_centres hs]
    exact m.decode_odd s hi
  decode_sign := by
    intro s hs v
    rw [axis.ofBin_eq_centres hs]
    exact m.decode_sign s v
  conservative_least := by
    intro v
    obtain ⟨c, hc, hbin, hleast⟩ := m.conservative_least v
    refine ⟨c, hc, ?_, hbin, hleast⟩
    by_cases hv : v = c
    · rw [hv]
    · exact (hleast v rfl hv).le

end Mirrored

end MouseAxis

/-! ## The two axes -/

def mouseX_mirrored : mouseX.Mirrored where
  positiveEdges := [0, 1, 3, 6, 11, 18, 29, 46, 76, 144, 500]
  edges_eq := by decide +kernel
  zero_alone := by decide +kernel
  centers_odd := by decide +kernel
  conservative_odd := by decide +kernel
  conservative_inner := by decide +kernel

def mouseY_mirrored : mouseY.Mirrored where
  positiveEdges := [0, 1, 3, 4, 7, 12, 24, 150]
  edges_eq := by decide +kernel
  zero_alone := by decide +kernel
  centers_odd := by decide +kernel
  conservative_odd := by decide +kernel
  conservative_inner := by decide +kernel

/-- **Both axes of the quantiser are symmetric.** -/
theorem mouse_symmetric : mouseX.Symmetric ∧ mouseY.Symmetric :=
  ⟨mouseX_mirrored.symmetric, mouseY_mirrored.symmetric⟩

end P2PRdt.Data

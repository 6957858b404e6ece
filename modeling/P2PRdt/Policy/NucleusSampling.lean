import P2PRdt.Lib.InverseCdf
import P2PRdt.Lib.Network
import P2PRdt.Lib.Scatter
import Mathlib.Data.Fin.Tuple.Sort

/-!
# Nucleus sampling by inverse CDF

`_sample_from_logits_gpu` with `u_scalar` given. The probabilities are sorted in
descending order, an entry is removed when the entries before it already exceed
`top_p`, and what is kept is renormalized and drawn from by its cumulative sum.

Two boundary cases go wrong. The comparison is strict, so when a prefix sums up
to `top_p` exactly one entry too many is kept. And a draw of zero takes index 0
whether it is kept or not.
-/

namespace P2PRdt.Policy

open Lib

variable {K : Type} [Field K] [LinearOrder K] {n : ℕ}

/-! ## The sampler -/

/-- `torch.sort(.., descending=True)`: the order of the entries. Ties may come out
either way. -/
structure DescendingSort (n : ℕ) (K : Type) [LinearOrder K] where
  sortedIdx : (Fin (n + 1) → K) → Equiv.Perm (Fin (n + 1))
  antitone : ∀ probs, Antitone (probs ∘ sortedIdx probs)

variable (sort : DescendingSort n K)

/-- `apply_top_p_mask_from_probs`. -/
def applyTopPMaskFromProbs (probs : Fin (n + 1) → K) (topP : K) : Fin (n + 1) → Bool :=
  let sortedIdx := sort.sortedIdx probs
  let cumsum := cumsum (probs ∘ sortedIdx)
  let toRemove : Fin (n + 1) → Bool := fun k => cumsum k > topP
  -- moved up by one place, and the first place is never removed
  let toRemove : Fin (n + 1) → Bool := Fin.cons false fun k => toRemove k.castSucc
  let removeMask := scatter sortedIdx toRemove fun _ => false
  fun i => !removeMask i

/-- The entries that take part: all of them unless `top_p` is in the unit
interval. -/
def keepMask (probs : Fin (n + 1) → K) (topP : Option K) : Fin (n + 1) → Bool :=
  match topP with
  | some topP =>
      if 0 < topP ∧ topP < 1 then applyTopPMaskFromProbs sort probs topP else fun _ => true
  | none => fun _ => true

/-- The probabilities that are drawn from. -/
def nucleusProbs (probs : Fin (n + 1) → K) (topP : Option K) : Fin (n + 1) → K :=
  match topP with
  | some topP =>
      if 0 < topP ∧ topP < 1 then
        let keep := applyTopPMaskFromProbs sort probs topP
        let kept : Fin (n + 1) → K := fun i => probs i * if keep i then 1 else 0
        fun i => kept i / ∑ j, kept j
      else probs
  | none => probs

/-- The sampler behind the softmax. `belowOne` is `nextafter(1, 0)`. -/
def sampleFromProbs (probs : Fin (n + 1) → K) (uScalar : K) (topP : Option K) (belowOne : K) :
    Fin (n + 1) :=
  let cdf := cumsum (nucleusProbs sort probs topP)
  let cdf := Function.update cdf (Fin.last n) 1
  let u := max uScalar 0
  let u := if u ≥ 1 then belowOne else u
  firstTrue fun i => decide (cdf i ≥ u)

/-- `_sample_from_logits_gpu` for one position, with `u_scalar`. -/
def sampleFromLogitsGpu [Elementary K] (actionLogits : Fin (n + 1) → K) (temperature uScalar : K)
    (topP : Option K) (belowOne : K) : Fin (n + 1) :=
  let tau := max temperature (1 / 100000000)
  let scaledLogits := if tau = 1 then actionLogits else fun i => actionLogits i / tau
  sampleFromProbs sort (softmax fun i => some (scaledLogits i)) uScalar topP belowOne

/-! ## What is asked of it -/

/-- The first `m` entries of an order. -/
def prefixSum (x : Fin (n + 1) → K) (m : ℕ) : K := ∑ k with k.val < m, x k

/-- The kept entries are a smallest prefix, in descending order, that reaches
`topP`. -/
def IsSmallestPrefix (probs : Fin (n + 1) → K) (topP : K) (keep : Fin (n + 1) → Bool) : Prop :=
  ∃ order : Equiv.Perm (Fin (n + 1)), Antitone (probs ∘ order) ∧
    ∃ m, (∀ k, keep (order k) = true ↔ (k : ℕ) < m) ∧ topP ≤ prefixSum (probs ∘ order) m ∧
      ∀ m' < m, prefixSum (probs ∘ order) m' < topP

/-- The draws of the unit interval that select `i`. -/
def selecting (probs : Fin (n + 1) → K) (topP : Option K) (belowOne : K) (i : Fin (n + 1)) :
    Set K :=
  {u | 0 ≤ u ∧ u < 1 ∧ sampleFromProbs sort probs u topP belowOne = i}

/-- The kept set is a smallest prefix; what is drawn is kept; and an index is
drawn on an interval as long as its share if it is kept, and never otherwise. -/
structure SamplesExactly (probs : Fin (n + 1) → K) (topP : Option K) (belowOne : K) : Prop where
  smallest : ∀ p, topP = some p → IsSmallestPrefix probs p (keepMask sort probs topP)
  drawn_kept : ∀ u, 0 ≤ u → u < 1 →
    keepMask sort probs topP (sampleFromProbs sort probs u topP belowOne) = true
  kept : ∀ i, keepMask sort probs topP i = true →
    IsIntervalOfLength (selecting sort probs topP belowOne i)
      (probs i / ∑ j with keepMask sort probs topP j = true, probs j)
  removed : ∀ i, keepMask sort probs topP i = false → selecting sort probs topP belowOne i = ∅

/-! ## The kept entries -/

section Kept

variable {sort} {probs : Fin (n + 1) → K}

omit [Field K] in
theorem comp_eq_of_antitone {order order' : Equiv.Perm (Fin (n + 1))}
    (h : Antitone (probs ∘ order)) (h' : Antitone (probs ∘ order')) :
    probs ∘ order = probs ∘ order' := by
  -- the dual order turns antitone into monotone
  exact Tuple.unique_monotone (f := fun i => OrderDual.toDual (probs i)) (σ := order) (τ := order')
    h h'

omit [LinearOrder K] in
theorem prefixSum_val (x : Fin (n + 1) → K) (k : Fin (n + 1)) :
    prefixSum x k = sumBefore x k := by
  rw [prefixSum, sumBefore]
  have hset : Finset.univ.filter (fun j : Fin (n + 1) => j.val < k.val) = Finset.Iio k := by
    ext j
    rw [Finset.mem_filter, Finset.mem_Iio]
    exact and_iff_right (Finset.mem_univ j)
  rw [hset]

variable [IsStrictOrderedRing K]

theorem prefixSum_mono {x : Fin (n + 1) → K} (hx : ∀ i, 0 ≤ x i) : Monotone (prefixSum x) := by
  intro m m' hm
  apply Finset.sum_le_sum_of_subset_of_nonneg
  · intro k hk
    rw [Finset.mem_filter] at hk ⊢
    exact ⟨hk.1, hk.2.trans_le hm⟩
  · intro k _ _
    exact hx k

omit [IsStrictOrderedRing K] in
/-- An entry is kept when the entries before it do not exceed `topP`. -/
theorem applyTopPMaskFromProbs_iff {topP : K} (hpos : 0 < topP) (k : Fin (n + 1)) :
    applyTopPMaskFromProbs sort probs topP (sort.sortedIdx probs k) = true ↔
      sumBefore (probs ∘ sort.sortedIdx probs) k ≤ topP := by
  simp only [applyTopPMaskFromProbs, scatter_id (Equiv.injective _)]
  rcases Fin.eq_zero_or_eq_succ k with rfl | ⟨k, rfl⟩
  · simp [sumBefore_zero, hpos.le]
  · simp [cumsum_castSucc]

variable (hprobs : ∀ i, 0 ≤ probs i) (hsum : ∑ i, probs i = 1) {topP : K} (hpos : 0 < topP)
  (hone : topP < 1)
include hprobs hsum hpos hone

/-- Without an exact hit the kept entries are a smallest prefix. -/
theorem isSmallestPrefix_of_no_hit
    (hhit : ∀ k, k ≠ 0 → sumBefore (probs ∘ sort.sortedIdx probs) k ≠ topP) :
    IsSmallestPrefix probs topP (applyTopPMaskFromProbs sort probs topP) := by
  have hsorted : ∀ k, 0 ≤ (probs ∘ sort.sortedIdx probs) k := fun k => hprobs _
  have htotal : prefixSum (probs ∘ sort.sortedIdx probs) (n + 1) = 1 := by
    rw [← hsum, ← Equiv.sum_comp (sort.sortedIdx probs) probs]
    apply Finset.sum_congr _ fun _ _ => rfl
    exact Finset.filter_true_of_mem fun k _ => k.isLt
  have hreach : ∃ m, topP ≤ prefixSum (probs ∘ sort.sortedIdx probs) m :=
    ⟨n + 1, hone.le.trans htotal.ge⟩
  refine ⟨sort.sortedIdx probs, sort.antitone probs, Nat.find hreach, ?_, Nat.find_spec hreach, ?_⟩
  · intro k
    rw [applyTopPMaskFromProbs_iff hpos]
    constructor
    · intro hle
      by_contra hlate
      -- a later entry is kept only on an exact hit
      have hge := (Nat.find_spec hreach).trans (prefixSum_mono hsorted (Nat.le_of_not_lt hlate))
      rw [prefixSum_val] at hge
      refine hhit k ?_ (le_antisymm hle hge)
      rintro rfl
      rw [sumBefore_zero] at hge
      exact hpos.not_ge hge
    · intro hlt
      have hmin := Nat.find_min hreach hlt
      rw [prefixSum_val] at hmin
      exact (not_le.mp hmin).le
  · intro m' hm'
    exact not_le.mp (Nat.find_min hreach hm')

omit hprobs hsum hone in
/-- On an exact hit the entry behind the prefix is kept as well. -/
theorem not_isSmallestPrefix_of_hit (hprobs : ∀ i, 0 ≤ probs i) {k : Fin (n + 1)}
    (hhit : sumBefore (probs ∘ sort.sortedIdx probs) k = topP) :
    ¬IsSmallestPrefix probs topP (applyTopPMaskFromProbs sort probs topP) := by
  rintro ⟨order, horder, m, hkeep, -, hmin⟩
  rw [comp_eq_of_antitone horder (sort.antitone probs)] at hmin
  have hsorted : ∀ k, 0 ≤ (probs ∘ sort.sortedIdx probs) k := fun k => hprobs _
  have hm : m ≤ k := by
    by_contra hlt
    have hbelow := hmin k (Nat.lt_of_not_le hlt)
    rw [prefixSum_val, hhit] at hbelow
    exact lt_irrefl _ hbelow
  -- the entries up to `k` are kept, and they are more than `m`
  have hsub : (Finset.Iic k).map (sort.sortedIdx probs).toEmbedding ⊆
      (Finset.univ.filter fun j : Fin (n + 1) => (j : ℕ) < m).map order.toEmbedding := by
    intro i hi
    obtain ⟨j, hj, rfl⟩ := Finset.mem_map.mp hi
    have hkept : applyTopPMaskFromProbs sort probs topP (sort.sortedIdx probs j) = true := by
      rw [applyTopPMaskFromProbs_iff hpos, ← hhit]
      exact sumBefore_mono hsorted (Finset.mem_Iic.mp hj)
    have hrank : order (order.symm (sort.sortedIdx probs j)) = sort.sortedIdx probs j :=
      Equiv.apply_symm_apply _ _
    refine Finset.mem_map.mpr ⟨order.symm (sort.sortedIdx probs j), ?_, hrank⟩
    rw [Finset.mem_filter, ← hkeep, hrank]
    exact ⟨Finset.mem_univ _, hkept⟩
  have hcard := Finset.card_le_card hsub
  rw [Finset.card_map, Finset.card_map, Fin.card_Iic] at hcard
  have hfew : (Finset.univ.filter fun j : Fin (n + 1) => (j : ℕ) < m).card ≤ m := by
    have hinto : (Finset.univ.filter fun j : Fin (n + 1) => (j : ℕ) < m).map Fin.valEmbedding ⊆
        Finset.range m := by
      intro v hv
      obtain ⟨j, hj, rfl⟩ := Finset.mem_map.mp hv
      exact Finset.mem_range.mpr (Finset.mem_filter.mp hj).2
    have hle := Finset.card_le_card hinto
    rwa [Finset.card_map, Finset.card_range] at hle
  omega

end Kept

/-! ## The draw -/

section Draw

variable {sort} [IsStrictOrderedRing K] {probs : Fin (n + 1) → K} {topP : Option K}

/-- `topP` is left out or in the unit interval. -/
def TopPInRange (topP : Option K) : Prop := ∀ p, topP = some p → 0 < p ∧ p < 1

omit [IsStrictOrderedRing K] in
theorem keepMask_some {p : K} (h : TopPInRange (some p)) :
    keepMask sort probs (some p) = applyTopPMaskFromProbs sort probs p :=
  if_pos (h p rfl)

omit [IsStrictOrderedRing K] in
/-- What is drawn from: the kept entries over their sum. -/
theorem nucleusProbs_eq (htop : TopPInRange topP) (hsum : ∑ i, probs i = 1) (i : Fin (n + 1)) :
    nucleusProbs sort probs topP i =
      (if keepMask sort probs topP i = true then probs i else 0) /
        ∑ j with keepMask sort probs topP j = true, probs j := by
  cases topP with
  | none => simp [nucleusProbs, keepMask, hsum]
  | some p =>
      rw [keepMask_some htop, nucleusProbs, if_pos (htop p rfl)]
      simp only [mul_ite, mul_one, mul_zero, Finset.sum_filter]

variable (htop : TopPInRange topP) (hprobs : ∀ i, 0 < probs i) (hsum : ∑ i, probs i = 1)
include htop hprobs hsum

theorem keptSum_pos : 0 < ∑ j with keepMask sort probs topP j = true, probs j := by
  cases topP with
  | none => simp [keepMask, hsum]
  | some p =>
      rw [keepMask_some htop]
      -- the first entry of the order is always kept
      have hfirst : applyTopPMaskFromProbs sort probs p (sort.sortedIdx probs 0) = true := by
        rw [applyTopPMaskFromProbs_iff (htop p rfl).1, sumBefore_zero]
        exact (htop p rfl).1.le
      apply Finset.sum_pos
      · intro j _
        exact hprobs j
      · exact ⟨_, Finset.mem_filter.mpr ⟨Finset.mem_univ _, hfirst⟩⟩

theorem nucleusProbs_nonneg (i : Fin (n + 1)) : 0 ≤ nucleusProbs sort probs topP i := by
  rw [nucleusProbs_eq htop hsum]
  apply div_nonneg _ (keptSum_pos htop hprobs hsum).le
  split
  · exact (hprobs i).le
  · exact le_rfl

theorem sum_nucleusProbs : ∑ i, nucleusProbs sort probs topP i = 1 := by
  have hpos : 0 < ∑ j with keepMask sort probs topP j = true, probs j :=
    keptSum_pos htop hprobs hsum
  simp only [nucleusProbs_eq htop hsum]
  rw [← Finset.sum_div, ← Finset.sum_filter]
  exact div_self hpos.ne'

/-- The forced last entry and the clamps change nothing for a draw of the unit
interval. -/
theorem sampleFromProbs_eq_drawIndex {u : K} (hu : 0 ≤ u) (hu1 : u < 1) (belowOne : K) :
    sampleFromProbs sort probs u topP belowOne = drawIndex (nucleusProbs sort probs topP) u := by
  have hlast : Function.update (cumsum (nucleusProbs sort probs topP)) (Fin.last n) 1 =
      cumsum (nucleusProbs sort probs topP) := by
    rw [Function.update_eq_self_iff, cumsum_last]
    exact (sum_nucleusProbs htop hprobs hsum).symm
  rw [sampleFromProbs, hlast, max_eq_left hu, if_neg (not_le.mpr hu1)]
  rfl

theorem selecting_eq_drawsOf (belowOne : K) (i : Fin (n + 1)) :
    selecting sort probs topP belowOne i = drawsOf (nucleusProbs sort probs topP) i := by
  ext u
  constructor
  · rintro ⟨hu, hu1, hselect⟩
    rw [sampleFromProbs_eq_drawIndex htop hprobs hsum hu hu1] at hselect
    exact ⟨hu, hu1, hselect⟩
  · rintro ⟨hu, hu1, hdraw⟩
    refine ⟨hu, hu1, ?_⟩
    rw [sampleFromProbs_eq_drawIndex htop hprobs hsum hu hu1]
    exact hdraw

omit [IsStrictOrderedRing K] hprobs in
theorem nucleusProbs_kept {i : Fin (n + 1)} (hi : keepMask sort probs topP i = true) :
    nucleusProbs sort probs topP i =
      probs i / ∑ j with keepMask sort probs topP j = true, probs j := by
  rw [nucleusProbs_eq htop hsum, if_pos hi]

omit [IsStrictOrderedRing K] hprobs in
theorem nucleusProbs_removed {i : Fin (n + 1)} (hi : keepMask sort probs topP i = false) :
    nucleusProbs sort probs topP i = 0 := by
  rw [nucleusProbs_eq htop hsum, if_neg (Bool.eq_false_iff.mp hi), zero_div]

/-- An index that is not kept is drawn by nothing, but for index 0. -/
theorem selecting_removed {belowOne : K} {i : Fin (n + 1)} (hi : keepMask sort probs topP i = false)
    (hi0 : i ≠ 0) : selecting sort probs topP belowOne i = ∅ := by
  rw [selecting_eq_drawsOf htop hprobs hsum]
  exact drawsOf_eq_empty (nucleusProbs_nonneg htop hprobs hsum) (sum_nucleusProbs htop hprobs hsum)
    hi0 (nucleusProbs_removed htop hsum hi)

/-- **The sampler.** It samples exactly when no prefix of the descending order sums
up to `topP`, and the entries sorted before index 0 do not exceed it. -/
theorem samplesExactly_iff (belowOne : K) :
    SamplesExactly sort probs topP belowOne ↔
      ∀ p, topP = some p →
        (∀ k, k ≠ 0 → sumBefore (probs ∘ sort.sortedIdx probs) k ≠ p) ∧
          sumBefore (probs ∘ sort.sortedIdx probs) ((sort.sortedIdx probs).symm 0) ≤ p := by
  have hnonneg : ∀ i, 0 ≤ probs i := fun i => (hprobs i).le
  have hzero : sampleFromProbs sort probs 0 topP belowOne = 0 := by
    rw [sampleFromProbs_eq_drawIndex htop hprobs hsum le_rfl zero_lt_one]
    exact drawIndex_zero (nucleusProbs_nonneg htop hprobs hsum) (sum_nucleusProbs htop hprobs hsum)
  have hkept0 : ∀ p, topP = some p → (keepMask sort probs topP 0 = true ↔
      sumBefore (probs ∘ sort.sortedIdx probs) ((sort.sortedIdx probs).symm 0) ≤ p) := by
    rintro p rfl
    rw [keepMask_some htop, ← applyTopPMaskFromProbs_iff (htop p rfl).1, Equiv.apply_symm_apply]
  constructor
  · rintro h p hp
    constructor
    · intro k _ hhit
      have hsmallest := h.smallest p hp
      rw [hp, keepMask_some (hp ▸ htop)] at hsmallest
      exact not_isSmallestPrefix_of_hit (htop p hp).1 hnonneg hhit hsmallest
    · have hdrawn := h.drawn_kept 0 le_rfl zero_lt_one
      rw [hzero] at hdrawn
      exact (hkept0 p hp).mp hdrawn
  · intro hcond
    have hfirst : keepMask sort probs topP 0 = true := by
      cases topP with
      | none => rfl
      | some p => exact (hkept0 p rfl).mpr (hcond p rfl).2
    have hremoved : ∀ i, keepMask sort probs topP i = false →
        selecting sort probs topP belowOne i = ∅ := by
      intro i hi
      apply selecting_removed htop hprobs hsum hi
      rintro rfl
      exact Bool.false_ne_true (hi.symm.trans hfirst)
    refine ⟨?_, ?_, ?_, hremoved⟩
    · rintro p rfl
      rw [keepMask_some htop]
      exact isSmallestPrefix_of_no_hit hnonneg hsum (htop p rfl).1 (htop p rfl).2 (hcond p rfl).1
    · intro u hu hu1
      by_contra hnot
      have hempty := hremoved _ (Bool.eq_false_of_not_eq_true hnot)
      have hmem : u ∈ selecting sort probs topP belowOne
          (sampleFromProbs sort probs u topP belowOne) := ⟨hu, hu1, rfl⟩
      rw [hempty] at hmem
      exact hmem
    · intro i hi
      rw [selecting_eq_drawsOf htop hprobs hsum, ← nucleusProbs_kept htop hsum hi]
      exact drawsOf_isInterval (nucleusProbs_nonneg htop hprobs hsum)
        (sum_nucleusProbs htop hprobs hsum) i

end Draw

section ThreeWords

/-- The sort that leaves ties as they are. -/
def stableSort (n : ℕ) : DescendingSort n ℚ where
  sortedIdx := fun probs => Tuple.sort fun i => OrderDual.toDual (probs i)
  antitone := fun probs => Tuple.monotone_sort fun i => OrderDual.toDual (probs i)

/-- Probabilities in descending order. -/
def descending : Fin 3 → ℚ := ![1 / 2, 1 / 3, 1 / 6]

/-- The same in ascending order. -/
def ascending : Fin 3 → ℚ := ![1 / 6, 1 / 3, 1 / 2]

theorem antitone_descending : Antitone descending := by decide +kernel

theorem descending_sorted :
    descending ∘ (stableSort 2).sortedIdx descending = descending ∘ Equiv.refl (Fin 3) :=
  comp_eq_of_antitone ((stableSort 2).antitone _) antitone_descending

theorem ascending_sorted :
    ascending ∘ (stableSort 2).sortedIdx ascending = ascending ∘ Fin.revPerm :=
  comp_eq_of_antitone ((stableSort 2).antitone _) (by decide +kernel)

theorem sum_descending : ∑ i, descending i = 1 := by decide +kernel

theorem sum_ascending : ∑ i, ascending i = 1 := by decide +kernel

/-- Below the first probability nothing goes wrong. -/
theorem samplesExactly_iff_descending :
    SamplesExactly (stableSort 2) descending (some (2 / 5)) (9 / 10) := by
  have htop : TopPInRange (some (2 / 5 : ℚ)) := by
    rintro p ⟨⟩
    norm_num
  apply (samplesExactly_iff htop (by decide +kernel) sum_descending (9 / 10)).mpr
  rintro p ⟨⟩
  rw [descending_sorted]
  have hrank : ((stableSort 2).sortedIdx descending).symm 0 = 0 := by
    rw [Equiv.symm_apply_eq]
    have hinj : Function.Injective descending := by decide +kernel
    exact hinj (congrFun descending_sorted 0).symm
  rw [hrank, sumBefore_zero]
  exact ⟨by decide +kernel, by norm_num⟩

/-- With one half as `top_p` the first entry reaches it, and the second is kept as
well. With index 0 behind the kept entry, a draw of zero selects it all the same. -/
theorem not_samplesExactly_boundary :
    ¬SamplesExactly (stableSort 2) descending (some (1 / 2)) (9 / 10) ∧
      ¬SamplesExactly (stableSort 2) ascending (some (2 / 5)) (9 / 10) := by
  constructor
  · intro h
    have hhit : sumBefore (descending ∘ (stableSort 2).sortedIdx descending) 1 = 1 / 2 := by
      rw [descending_sorted]
      decide +kernel
    have htop : TopPInRange (some (1 / 2 : ℚ)) := by
      rintro p ⟨⟩
      norm_num
    have hsmallest := h.smallest (1 / 2) rfl
    rw [keepMask_some htop] at hsmallest
    exact not_isSmallestPrefix_of_hit (by norm_num) (by decide +kernel) hhit hsmallest
  · intro h
    have htop : TopPInRange (some (2 / 5 : ℚ)) := by
      rintro p ⟨⟩
      norm_num
    have hdrawn := h.drawn_kept 0 le_rfl one_pos
    rw [sampleFromProbs_eq_drawIndex htop (by decide +kernel) sum_ascending le_rfl one_pos,
      drawIndex_zero (nucleusProbs_nonneg htop (by decide +kernel) sum_ascending)
        (sum_nucleusProbs htop (by decide +kernel) sum_ascending), keepMask_some htop] at hdrawn
    have hrank : (stableSort 2).sortedIdx ascending 2 = 0 := by
      have hinj : Function.Injective ascending := by decide +kernel
      exact hinj (congrFun ascending_sorted 2)
    rw [← hrank, applyTopPMaskFromProbs_iff (by norm_num), ascending_sorted] at hdrawn
    exact absurd hdrawn (by decide +kernel)

end ThreeWords

end P2PRdt.Policy

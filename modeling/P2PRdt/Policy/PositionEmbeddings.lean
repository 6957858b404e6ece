import P2PRdt.Lib.IntegerAngles
import P2PRdt.Lib.Indices
import P2PRdt.Lib.Network

/-!
# Position embeddings

`rdt/pos_emb.py`. The embeddings of the axes of a token are summed up, and with them
that of its modality, so an embedding does not tell which axis a position belongs to:
it stands for the positions in any order, and two sums of at most two embeddings are
the same for the same positions only.

The arithmetic is exact; in the code the embeddings are rounded.
-/

namespace P2PRdt.Policy

open Lib Elementary

section PosEmb

variable {K : Type} [Field K] [Elementary K]

def omega (embedDim : ℕ) : List K :=
  (List.range (embedDim / 2)).map fun d : ℕ =>
    1 / pow ((10000 : ℕ) : K) ((d : K) / ((embedDim : K) / ((2 : ℕ) : K)))

/-- The sines of a position, then its cosines. -/
def sincosPosEmbed (embedDim pos : ℕ) : List K :=
  (omega embedDim).map (fun ω : K => sin (pos * ω)) ++
    (omega embedDim).map fun ω : K => cos (pos * ω)

def get1dSincosPosEmbedFromGrid (embedDim : ℕ) (pos : List ℕ) : Option (List (List K)) :=
  if embedDim % 2 = 0 then some (pos.map (sincosPosEmbed embedDim)) else none

omit [Elementary K] in
def addRow (x y : List K) : List K := List.zipWith (· + ·) x y

omit [Elementary K] in
variable (K) in
def zeroRow (embedDim : ℕ) : List K := List.replicate embedDim 0

/-- The embedding at an index; an axis of one adds nothing, so its index does not
matter when it is broadcast. -/
def getNdSincosPosEmbedFromGrid (embedDim : ℕ) (gridSizes : List ℕ) :
    Option (List ℕ → List K) :=
  if embedDim % 2 ≠ 0 ∧ gridSizes.any (1 < ·) then none
  else some fun idx => (gridSizes.zip idx).foldl
    (fun emb (gridSize, i) =>
      if gridSize ≤ 1 then emb else addRow emb (sincosPosEmbed embedDim i))
    (zeroRow K embedDim)

/-- The length of a modality: a number of tokens or a grid of them, negative where
there is no embedding. -/
inductive CondLen
  | tokens (n : ℤ)
  | grid (sizes : List ℤ)

/-- The embeddings inside a modality. -/
def posEmbedI (embedDim : ℕ) (modality : String) : CondLen → Option (List (List K))
  | .grid condLen =>
      if modality = "image" ∨ modality = "action" then do
        let embedGridSizes := condLen.map fun x => if 0 < x then x.toNat else 1
        let posEmbed ← getNdSincosPosEmbedFromGrid embedDim embedGridSizes
        pure ((indices (condLen.map Int.natAbs)).map posEmbed)
      else none
  | .tokens condLen =>
      if 1 < condLen then get1dSincosPosEmbedFromGrid embedDim (List.range condLen.toNat)
      else some (List.replicate condLen.natAbs (zeroRow K embedDim))

def getMultimodalPosEmbed (embedDim : ℕ) (mmLens : List (String × CondLen)) :
    Option (List (List K)) := do
  let modalityPosEmbed ←
    if 1 < mmLens.length then get1dSincosPosEmbedFromGrid embedDim (List.range mmLens.length)
    else some []
  let posEmb ← mmLens.zipIdx.mapM fun ((modality, condLen), idx) => do
    let rows ← posEmbedI embedDim modality condLen
    pure (match modalityPosEmbed[idx]? with
      | some modalityRow => rows.map (addRow · modalityRow)
      | none => rows)
  pure posEmb.flatten

end PosEmb

/-! ## Sums of embeddings -/

section Sums

variable {K : Type} [Field K] [Elementary K] {embedDim : ℕ}

/-- The embeddings of positions, added up. -/
def sincosSum (K : Type) [Field K] [Elementary K] (embedDim : ℕ) (ps : List ℕ) : List K :=
  ps.foldl (fun emb p => addRow emb (sincosPosEmbed embedDim p)) (zeroRow K embedDim)

theorem length_sincosPosEmbed (heven : embedDim % 2 = 0) (p : ℕ) :
    (sincosPosEmbed embedDim p : List K).length = embedDim := by
  simp only [sincosPosEmbed, omega, List.length_append, List.length_map, List.length_range]
  omega

theorem sincosSum_concat (ps : List ℕ) (p : ℕ) :
    sincosSum K embedDim (ps ++ [p]) =
      addRow (sincosSum K embedDim ps) (sincosPosEmbed embedDim p) := by
  rw [sincosSum, List.foldl_append]
  rfl

theorem length_sincosSum (heven : embedDim % 2 = 0) (ps : List ℕ) :
    (sincosSum K embedDim ps).length = embedDim := by
  induction ps using List.reverseRecOn with
  | nil => exact List.length_replicate
  | append_singleton ps p ih =>
      rw [sincosSum_concat, addRow, List.length_zipWith, ih, length_sincosPosEmbed heven,
        Nat.min_self]

theorem zeroRow_addRow (heven : embedDim % 2 = 0) (p : ℕ) :
    addRow (zeroRow K embedDim) (sincosPosEmbed embedDim p) = sincosPosEmbed embedDim p := by
  have hlen : (zeroRow K embedDim).length = (sincosPosEmbed embedDim p : List K).length := by
    rw [length_sincosPosEmbed heven, zeroRow, List.length_replicate]
  apply List.ext_getElem
  · rw [addRow, List.length_zipWith, hlen, Nat.min_self]
  · intro j _ _
    simp only [addRow, zeroRow, List.getElem_zipWith, List.getElem_replicate, zero_add]

/-- A lane of a sum. -/
theorem getElem?_sincosSum (heven : embedDim % 2 = 0) {lane : ℕ} (hlane : lane < embedDim)
    (ps : List ℕ) : (sincosSum K embedDim ps)[lane]? =
      some (ps.map fun p => (sincosPosEmbed embedDim p).getD lane 0).sum := by
  induction ps using List.reverseRecOn with
  | nil =>
      rw [List.map_nil, List.sum_nil]
      exact (List.getElem?_replicate ..).trans (if_pos hlane)
  | append_singleton ps p ih =>
      have hrow : (sincosPosEmbed embedDim p : List K)[lane]? =
          some ((sincosPosEmbed embedDim p).getD lane 0) := by
        have hlt := hlane.trans_eq (length_sincosPosEmbed (K := K) heven p).symm
        rw [List.getElem?_eq_getElem hlt, List.getD_eq_getElem _ _ hlt]
      rw [sincosSum_concat, addRow, List.getElem?_zipWith, ih, hrow, List.map_append,
        List.sum_append, List.map_singleton, List.sum_singleton]

end Sums

section Reals

variable {embedDim : ℕ}

/-- The first frequency is one. -/
theorem omega_zero (hpos : 2 ≤ embedDim) : (omega embedDim : List ℝ)[0]? = some 1 := by
  have hhalf : 0 < embedDim / 2 := Nat.div_pos hpos two_pos
  rw [omega, List.getElem?_map, List.getElem?_range hhalf, Option.map_some, Nat.cast_zero, zero_div]
  congr 1
  show 1 / ((10000 : ℕ) : ℝ) ^ (0 : ℝ) = 1
  rw [Real.rpow_zero, div_one]

theorem length_omega : (omega embedDim : List ℝ).length = embedDim / 2 := by
  rw [omega, List.length_map, List.length_range]

theorem sincosPosEmbed_sin (hpos : 2 ≤ embedDim) (p : ℕ) :
    (sincosPosEmbed embedDim p : List ℝ).getD 0 0 = Real.sin p := by
  have hhalf : 0 < embedDim / 2 := Nat.div_pos hpos two_pos
  rw [List.getD_eq_getElem?_getD, sincosPosEmbed, List.getElem?_append_left, List.getElem?_map,
    omega_zero hpos, Option.map_some, mul_one]
  · rfl
  · rwa [List.length_map, length_omega]

theorem sincosPosEmbed_cos (hpos : 2 ≤ embedDim) (p : ℕ) :
    (sincosPosEmbed embedDim p : List ℝ).getD (embedDim / 2) 0 = Real.cos p := by
  have hlen : ((omega embedDim).map fun ω : ℝ => sin (p * ω)).length = embedDim / 2 := by
    rw [List.length_map, length_omega]
  rw [List.getD_eq_getElem?_getD, sincosPosEmbed, List.getElem?_append_right hlen.le, hlen,
    Nat.sub_self, List.getElem?_map, omega_zero hpos, Option.map_some, mul_one]
  rfl

theorem sincosSum_eq_iff_perm (heven : embedDim % 2 = 0) (hpos : 0 < embedDim) {ps qs : List ℕ}
    (hp : ps.length ≤ 2) (hq : qs.length ≤ 2) :
    sincosSum ℝ embedDim ps = sincosSum ℝ embedDim qs ↔ ps.Perm qs := by
  have htwo : 2 ≤ embedDim := by omega
  constructor
  · intro h
    have hsin := congrArg (·[0]?) h
    have hcos := congrArg (·[embedDim / 2]?) h
    simp only [getElem?_sincosSum heven hpos,
      getElem?_sincosSum heven (Nat.div_lt_self hpos one_lt_two), sincosPosEmbed_sin htwo,
      sincosPosEmbed_cos htwo, Option.some_inj] at hsin hcos
    have hperm : (ps.map fun p : ℕ => (p : ℤ)).Perm (qs.map fun q : ℕ => (q : ℤ)) := by
      apply perm_of_sum_eq
      · rwa [List.length_map]
      · rwa [List.length_map]
      · simpa [Function.comp_def] using hcos
      · simpa [Function.comp_def] using hsin
    exact (List.map_perm_map_iff Nat.cast_injective).mp hperm
  · intro h
    apply List.ext_getElem?
    intro lane
    by_cases hlane : lane < embedDim
    · rw [getElem?_sincosSum heven hlane, getElem?_sincosSum heven hlane]
      exact congrArg some (h.map _).sum_eq
    · rw [List.getElem?_eq_none, List.getElem?_eq_none]
      · exact (length_sincosSum heven qs).trans_le (Nat.le_of_not_lt hlane)
      · exact (length_sincosSum heven ps).trans_le (Nat.le_of_not_lt hlane)

end Reals

section Tokens

variable {K : Type} [Field K] [Elementary K] {embedDim : ℕ}

/-- The position of a token on an axis that has more than one. -/
def placed (len i : ℕ) : List ℕ := if 1 < len then [i] else []

def gridPlaced (sizes idx : List ℕ) : List ℕ :=
  (sizes.zip idx).flatMap fun (size, i) => placed size i

theorem gridPlaced_cons (size i : ℕ) (sizes idx : List ℕ) :
    gridPlaced (size :: sizes) (i :: idx) = placed size i ++ gridPlaced sizes idx :=
  List.flatMap_cons ..

theorem sincosSum_singleton (heven : embedDim % 2 = 0) (p : ℕ) :
    sincosSum K embedDim [p] = sincosPosEmbed embedDim p :=
  zeroRow_addRow heven p

theorem posEmbedI_tokens (heven : embedDim % 2 = 0) (modality : String) (n : ℕ) :
    posEmbedI embedDim modality (.tokens n) =
      some ((List.range n).map fun i => sincosSum K embedDim (placed n i)) := by
  rw [posEmbedI, get1dSincosPosEmbedFromGrid]
  by_cases hn : 1 < n
  · rw [if_pos (by exact_mod_cast hn), if_pos heven, Int.toNat_natCast]
    congr 1
    apply List.map_congr_left
    intro i _
    rw [placed, if_pos hn, sincosSum_singleton heven]
  · rw [if_neg (by exact_mod_cast hn), Int.natAbs_natCast]
    congr 1
    rw [List.map_congr_left (g := fun _ => zeroRow K embedDim), List.map_const', List.length_range]
    intro i _
    rw [placed, if_neg hn]
    rfl

/-- The axes of one do not count, however they are written. -/
theorem foldl_gridSizes (sizes idx : List ℕ) (emb : List K) :
    (((sizes.map Nat.cast).map fun x : ℤ => if 0 < x then x.toNat else 1).zip idx).foldl
        (fun emb (gridSize, i) =>
          if gridSize ≤ 1 then emb else addRow emb (sincosPosEmbed embedDim i)) emb =
      (gridPlaced sizes idx).foldl (fun emb p => addRow emb (sincosPosEmbed embedDim p)) emb := by
  induction sizes generalizing idx emb with
  | nil => rfl
  | cons size sizes ih =>
      cases idx with
      | nil => rfl
      | cons i idx =>
          rw [List.map_cons, List.map_cons, List.zip_cons_cons, List.foldl_cons, ih,
            gridPlaced_cons, List.foldl_append]
          congr 1
          have hsize : (if 0 < (size : ℤ) then (size : ℤ).toNat else 1) ≤ 1 ↔ ¬1 < size := by
            rw [Int.toNat_natCast]
            split <;> omega
          dsimp only
          by_cases hone : 1 < size
          · rw [if_neg (fun h => hsize.mp h hone), placed, if_pos hone]
            rfl
          · rw [if_pos (hsize.mpr hone), placed, if_neg hone]
            rfl

theorem posEmbedI_grid (heven : embedDim % 2 = 0) (sizes : List ℕ) :
    posEmbedI embedDim "image" (.grid (sizes.map Nat.cast)) =
      some ((indices sizes).map fun idx => sincosSum K embedDim (gridPlaced sizes idx)) := by
  have hsizes : (sizes.map Nat.cast).map Int.natAbs = sizes := by
    rw [List.map_map]
    exact List.map_id _
  rw [posEmbedI, if_pos (.inl rfl)]
  simp only [getNdSincosPosEmbedFromGrid, heven, ne_eq, not_true_eq_false, false_and, if_false,
    Option.bind_eq_bind, Option.bind_some, Option.pure_def, hsizes, foldl_gridSizes]
  rfl

/-- A modality alone has no embedding of its own. -/
theorem getMultimodalPosEmbed_one (modality : String) (condLen : CondLen) :
    getMultimodalPosEmbed embedDim [(modality, condLen)] =
      (posEmbedI embedDim modality condLen : Option (List (List K))) := by
  cases hrows : (posEmbedI embedDim modality condLen : Option (List (List K))) with
  | none => simp [getMultimodalPosEmbed, hrows]
  | some rows => simp [getMultimodalPosEmbed, hrows]

theorem getMultimodalPosEmbed_two (heven : embedDim % 2 = 0) (first second : String) (n m : ℕ) :
    getMultimodalPosEmbed embedDim [(first, .tokens n), (second, .tokens m)] =
      some (((List.range n).map fun i => sincosSum K embedDim (placed n i ++ [0])) ++
        (List.range m).map fun i => sincosSum K embedDim (placed m i ++ [1])) := by
  simp [getMultimodalPosEmbed, posEmbedI_tokens heven, get1dSincosPosEmbedFromGrid, heven,
    sincosSum_concat, Function.comp_def]

end Tokens

section Placed

variable {n m i j i' j' : ℕ}

theorem mem_placed {a : ℕ} : a ∈ placed n i ↔ 1 < n ∧ a = i := by
  unfold placed
  split
  · next hn => simp [hn]
  · next hn => simp [hn]

theorem length_placed_le : (placed n i).length ≤ 1 := by
  unfold placed
  split
  · exact le_rfl
  · exact Nat.zero_le _

theorem placed_perm_iff (hi : i < n) (hi' : i' < n) :
    (placed n i).Perm (placed n i') ↔ i = i' := by
  constructor
  · intro h
    by_cases hn : 1 < n
    · exact (mem_placed.mp (h.mem_iff.mp (mem_placed.mpr ⟨hn, rfl⟩))).2
    · omega
  · rintro rfl
    exact .refl _

/-- The second action and the first register token. -/
theorem placed_modalities_perm_iff (hi : i < n) :
    (placed n i ++ [0]).Perm (placed m j ++ [1]) ↔ i = 1 ∧ j = 0 ∧ 1 < m := by
  constructor
  · intro h
    have hone := h.mem_iff.mpr (List.mem_append_right _ (List.mem_singleton_self 1))
    have hzero := h.mem_iff.mp (List.mem_append_right _ (List.mem_singleton_self 0))
    rw [List.mem_append, mem_placed, List.mem_singleton] at hone hzero
    omega
  · rintro ⟨rfl, rfl, hm⟩
    rw [placed, if_pos hi, placed, if_pos hm]
    exact .swap ..

/-- A step and a place inside the step. -/
theorem placed_grid_perm_iff (hi : i < n) (hi' : i' < n) (hj : j < m) (hj' : j' < m) :
    (placed n i ++ placed m j).Perm (placed n i' ++ placed m j') ↔
      (i = i' ∧ j = j') ∨ (i = j' ∧ j = i') := by
  by_cases hn : 1 < n
  · by_cases hm : 1 < m
    · simp only [placed, if_pos hn, if_pos hm, List.singleton_append, List.pair_perm,
        List.cons.injEq, and_true]
      omega
    · have hnil : ∀ k, placed m k = [] := fun k => if_neg hm
      rw [hnil, hnil, List.append_nil, List.append_nil, placed_perm_iff hi hi']
      omega
  · have hnil : ∀ k, placed n k = [] := fun k => if_neg hn
    rw [hnil, hnil, List.nil_append, List.nil_append, placed_perm_iff hj hj']
    omega

end Placed

end P2PRdt.Policy

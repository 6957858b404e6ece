import P2PRdt.Lib.RowMajor
import P2PRdt.Policy.OnlinePrediction
import P2PRdt.Policy.PositionEmbeddings

/-!
# The head before training

`RDT.initialize_weights`. Tokens whose positions are swapped share an embedding, and no
others do. The modulation starts at zero, so each block hands its tokens on as they are
and the conditions have no effect.
-/

namespace P2PRdt.Policy

open Lib Elementary

/-! ## Initial weights -/

section Weights

variable {K : Type} [Field K] [LinearOrder K] [Elementary K] {c : RDTShape K}

omit [LinearOrder K] in
/-- `pos_emb.data.copy_` for `n` tokens. -/
def copyPosEmb (n embedDim : ℕ) (posEmbConfig : List (String × CondLen)) :
    Option (Fin n → Fin embedDim → K) :=
  (getMultimodalPosEmbed embedDim posEmbConfig).bind (asRows n embedDim)

/-- `initialize_weights`, with the random draws in `r`. -/
def RDT.initializeWeights (r : RDT c) (xPosEmbConfig : List (String × CondLen))
    (imgPosEmbConfig : Option (List (String × CondLen)))
    (actPosEmbConfig : List (String × CondLen)) : Option (RDT c) := do
  let xPosEmb ← copyPosEmb (c.horizon + c.numRegisterTokens) c.hiddenSize xPosEmbConfig
  let imgPosEmb ← imgPosEmbConfig.elim (some r.imgPosEmb) (copyPosEmb c.maxImgLen c.hiddenSize)
  let actPosEmb ← copyPosEmb c.maxActLen c.hiddenSize actPosEmbConfig
  let statePosEmb ← copyPosEmb 1 c.hiddenSize [("state", .tokens 1)]
  pure
    { r with
      tEmbedder :=
        { mlp0 := { r.tEmbedder.mlp0 with bias := 0 }
          mlp2 := { r.tEmbedder.mlp2 with bias := 0 } }
      blocks := fun i => { r.blocks i with adaLNModulation := { weight := 0, bias := 0 } }
      imgPosEmb
      actPosEmb
      statePosEmb := statePosEmb ⟨0, Nat.one_pos⟩
      xPosEmb := Sum.elim (fun i => xPosEmb (i.castAdd _)) fun j => xPosEmb (j.natAdd _)
      actionEmbedder := { r.actionEmbedder with bias := 0 }
      actionDecoder := { r.actionDecoder with bias := 0 } }

/-- The head as the policy makes it. -/
def Stage3Config.newRdtPolicyHead (cfg : Stage3Config K) (r : RDT cfg.rdtShape) :
    Option (RDT cfg.rdtShape) :=
  r.initializeWeights
    [("action", .tokens cfg.nSeqTimesteps), ("register", .tokens cfg.rdt.numRegisterTokens)]
    (if cfg.rdt.useImageCondition
      then some [("image", .grid [cfg.nSeqTimesteps, cfg.nImgTokens])]
      else none)
    [("action", .tokens cfg.nSeqTimesteps)]

end Weights

/-! ## Which tokens share an embedding -/

section Rows

variable {K : Type}

theorem perStep_eq_some {α : Type} {n : ℕ} {field : List α} {f : Fin n → α}
    (h : perStep n field = some f) (i : Fin n) : field[i.val]? = some (f i) := by
  unfold perStep at h
  split at h
  · next hlen =>
    obtain rfl := Option.some.inj h
    exact List.getElem?_eq_getElem (i.isLt.trans_eq hlen.symm)
  · cases h

theorem everySample_eq_some {B : ℕ} {α : Type} {f : Fin B → Option α} {g : Fin B → α}
    (h : everySample f = some g) (b : Fin B) : f b = some (g b) := by
  unfold everySample at h
  split at h
  · next hall =>
    obtain rfl := Option.some.inj h
    exact (Option.some_get _).symm
  · cases h

theorem asRows_eq_some {n d : ℕ} {x : List (List K)} {f : Fin n → Fin d → K}
    (h : asRows n d x = some f) (i : Fin n) : x[i.val]? = some (List.ofFn (f i)) := by
  obtain ⟨rows, hrows, hevery⟩ := Option.bind_eq_some_iff.mp h
  rw [perStep_eq_some hrows i]
  have hrow := everySample_eq_some hevery i
  congr 1
  apply List.ext_getElem?
  intro j
  rw [List.getElem?_ofFn]
  split
  · next hj => exact perStep_eq_some hrow ⟨j, hj⟩
  · next hj =>
    unfold perStep at hrow
    split at hrow
    · next hlen => exact List.getElem?_eq_none (hlen.trans_le (Nat.le_of_not_lt hj))
    · cases hrow

variable [Field K] [Elementary K] {n embedDim : ℕ}

/-- Tokens have one embedding when their rows are the same. -/
theorem copyPosEmb_eq_iff {config : List (String × CondLen)} {f : Fin n → Fin embedDim → K}
    (h : copyPosEmb n embedDim config = some f) {rows : List (List K)}
    (hrows : getMultimodalPosEmbed embedDim config = some rows) (i i' : Fin n) :
    f i = f i' ↔ rows[i.val]? = rows[i'.val]? := by
  rw [copyPosEmb, hrows, Option.bind_some] at h
  rw [asRows_eq_some h i, asRows_eq_some h i', Option.some_inj, List.ofFn_inj]

end Rows

section NewHead

variable {K : Type} [Field K] [LinearOrder K] [Elementary K] {cfg : Stage3Config K}
  {r head : RDT cfg.rdtShape}

/-- What a new head has. -/
structure NewHead (head : RDT cfg.rdtShape) : Prop where
  even : cfg.rdt.hiddenSize % 2 = 0
  xPosEmb : ∃ xPosEmb, copyPosEmb (cfg.nSeqTimesteps + cfg.rdt.numRegisterTokens)
      cfg.rdt.hiddenSize [("action", .tokens cfg.nSeqTimesteps),
        ("register", .tokens cfg.rdt.numRegisterTokens)] = some xPosEmb ∧
    head.xPosEmb = Sum.elim (fun i => xPosEmb (i.castAdd _)) fun j => xPosEmb (j.natAdd _)
  imgPosEmb : cfg.rdt.useImageCondition = true →
    copyPosEmb (cfg.nSeqTimesteps * cfg.nImgTokens) cfg.rdt.hiddenSize
      [("image", .grid [cfg.nSeqTimesteps, cfg.nImgTokens])] = some head.imgPosEmb
  actPosEmb : copyPosEmb cfg.nSeqTimesteps cfg.rdt.hiddenSize
    [("action", .tokens cfg.nSeqTimesteps)] = some head.actPosEmb
  adaLNModulation : ∀ i, (head.blocks i).adaLNModulation = { weight := 0, bias := 0 }

omit [LinearOrder K] in
/-- Two modalities need embeddings, of an even width. -/
theorem even_of_copyPosEmb {n embedDim : ℕ} {first second : String × CondLen}
    {f : Fin n → Fin embedDim → K} (h : copyPosEmb n embedDim [first, second] = some f) :
    embedDim % 2 = 0 := by
  by_contra hodd
  have hnone : getMultimodalPosEmbed embedDim [first, second] =
      (none : Option (List (List K))) := by
    simp [getMultimodalPosEmbed, get1dSincosPosEmbedFromGrid, hodd]
  rw [copyPosEmb, hnone] at h
  cases h

theorem newHead_of_newRdtPolicyHead (h : cfg.newRdtPolicyHead r = some head) : NewHead head := by
  simp only [Stage3Config.newRdtPolicyHead, RDT.initializeWeights, Option.bind_eq_bind,
    Option.bind_eq_some_iff, Option.pure_def] at h
  obtain ⟨xPosEmb, hx, imgPosEmb, himg, actPosEmb, hact, statePosEmb, -, hhead⟩ := h
  obtain rfl := Option.some.inj hhead
  refine ⟨even_of_copyPosEmb hx, ⟨xPosEmb, hx, rfl⟩, ?_, hact, fun _ => rfl⟩
  intro huse
  rw [if_pos huse] at himg
  exact himg

end NewHead

section Shared

variable {cfg : Stage3Config ℝ} {head : RDT cfg.rdtShape}

/-- The positions that the embedding of a token adds up; the last one is that of its
modality. -/
def tokenPositions (cfg : Stage3Config ℝ) : cfg.rdtShape.Token → List ℕ
  | .inl i => placed cfg.nSeqTimesteps i.val ++ [0]
  | .inr j => placed cfg.rdt.numRegisterTokens j.val ++ [1]

theorem length_tokenPositions (t : cfg.rdtShape.Token) : (tokenPositions cfg t).length ≤ 2 := by
  cases t with
  | inl i => exact (List.length_append ..).trans_le (Nat.add_le_add_right length_placed_le 1)
  | inr j => exact (List.length_append ..).trans_le (Nat.add_le_add_right length_placed_le 1)

theorem getElem?_map_range {α : Type} {n i : ℕ} (f : ℕ → α) (hi : i < n) :
    ((List.range n).map f)[i]? = some (f i) := by
  rw [List.getElem?_map, List.getElem?_range hi, Option.map_some]

theorem NewHead.xPosEmb_eq_iff (hnew : NewHead head) (t t' : cfg.rdtShape.Token) :
    head.xPosEmb t = head.xPosEmb t' ↔ (tokenPositions cfg t).Perm (tokenPositions cfg t') := by
  obtain ⟨xPosEmb, hx, hhead⟩ := hnew.xPosEmb
  have hrows := getMultimodalPosEmbed_two (K := ℝ) hnew.even "action" "register"
    cfg.nSeqTimesteps cfg.rdt.numRegisterTokens
  have hrow : ∀ t : cfg.rdtShape.Token, ∃ k, head.xPosEmb t = xPosEmb k ∧
      (((List.range cfg.nSeqTimesteps).map fun i =>
          sincosSum ℝ cfg.rdt.hiddenSize (placed cfg.nSeqTimesteps i ++ [0])) ++
        (List.range cfg.rdt.numRegisterTokens).map fun i =>
          sincosSum ℝ cfg.rdt.hiddenSize (placed cfg.rdt.numRegisterTokens i ++ [1]))[k.val]? =
        some (sincosSum ℝ cfg.rdt.hiddenSize (tokenPositions cfg t)) := by
    intro t
    cases t with
    | inl i =>
        refine ⟨i.castAdd _, congrFun hhead _, ?_⟩
        rw [List.getElem?_append_left]
        · exact getElem?_map_range _ i.isLt
        · rw [List.length_map, List.length_range]
          exact i.isLt
    | inr j =>
        refine ⟨j.natAdd _, congrFun hhead _, ?_⟩
        rw [List.getElem?_append_right]
        · rw [List.length_map, List.length_range, Fin.val_natAdd, Nat.add_sub_cancel_left]
          exact getElem?_map_range _ j.isLt
        · rw [List.length_map, List.length_range, Fin.val_natAdd]
          exact Nat.le_add_right _ _
  obtain ⟨k, hk, hsum⟩ := hrow t
  obtain ⟨k', hk', hsum'⟩ := hrow t'
  rw [hk, hk']
  refine (copyPosEmb_eq_iff hx hrows k k').trans ?_
  rw [hsum, hsum', Option.some_inj]
  exact sincosSum_eq_iff_perm hnew.even cfg.rdt.hiddenSize_pos (length_tokenPositions t)
    (length_tokenPositions t')

theorem NewHead.actPosEmb_eq_iff (hnew : NewHead head) (i i' : cfg.Step) :
    head.actPosEmb i = head.actPosEmb i' ↔ i = i' := by
  have hrows := (getMultimodalPosEmbed_one (K := ℝ) "action" (.tokens cfg.nSeqTimesteps)).trans
    (posEmbedI_tokens hnew.even "action" cfg.nSeqTimesteps)
  refine (copyPosEmb_eq_iff hnew.actPosEmb hrows i i').trans ?_
  rw [getElem?_map_range _ i.isLt, getElem?_map_range _ i'.isLt, Option.some_inj,
    sincosSum_eq_iff_perm hnew.even cfg.rdt.hiddenSize_pos
      (length_placed_le.trans one_le_two) (length_placed_le.trans one_le_two),
    placed_perm_iff i.isLt i'.isLt, Fin.ext_iff]

theorem NewHead.imgPosEmb_eq_iff (hnew : NewHead head) (huse : cfg.rdt.useImageCondition = true)
    (i i' : cfg.Step) (j j' : Fin cfg.nImgTokens) :
    head.imgPosEmb (rowMajor i j) = head.imgPosEmb (rowMajor i' j') ↔
      (i = i' ∧ j = j') ∨ (i.val = j'.val ∧ j.val = i'.val) := by
  have hrows := (getMultimodalPosEmbed_one (K := ℝ) "image"
      (.grid [cfg.nSeqTimesteps, cfg.nImgTokens])).trans
    (posEmbedI_grid hnew.even [cfg.nSeqTimesteps, cfg.nImgTokens])
  have hrow : ∀ (i : cfg.Step) (j : Fin cfg.nImgTokens),
      ((indices [cfg.nSeqTimesteps, cfg.nImgTokens]).map fun idx =>
        sincosSum ℝ cfg.rdt.hiddenSize (gridPlaced [cfg.nSeqTimesteps, cfg.nImgTokens] idx))[
          (rowMajor i j).val]? =
        some (sincosSum ℝ cfg.rdt.hiddenSize
          (placed cfg.nSeqTimesteps i.val ++ placed cfg.nImgTokens j.val)) := by
    intro i j
    have hbounds : InBounds [cfg.nSeqTimesteps, cfg.nImgTokens] [i.val, j.val] :=
      inBounds_two.mpr ⟨_, _, i.isLt, j.isLt, rfl⟩
    have hplace : (rowMajor i j).val =
        ravel [cfg.nSeqTimesteps, cfg.nImgTokens] [i.val, j.val] := by
      rw [val_rowMajor]
      simp
    rw [List.getElem?_map, hplace, getElem?_indices hbounds, Option.map_some, gridPlaced_cons,
      gridPlaced_cons]
    simp [gridPlaced]
  have hshort : ∀ (i : cfg.Step) (j : Fin cfg.nImgTokens),
      (placed cfg.nSeqTimesteps i.val ++ placed cfg.nImgTokens j.val).length ≤ 2 :=
    fun i j => (List.length_append ..).trans_le (Nat.add_le_add length_placed_le length_placed_le)
  refine (copyPosEmb_eq_iff (hnew.imgPosEmb huse) hrows _ _).trans ?_
  rw [hrow, hrow, Option.some_inj,
    sincosSum_eq_iff_perm hnew.even cfg.rdt.hiddenSize_pos (hshort i j) (hshort i' j'),
    placed_grid_perm_iff i.isLt i'.isLt j.isLt j'.isLt, Fin.ext_iff, Fin.ext_iff]

/-- **Tokens that share an embedding.** In a new head an action and a register token
share one only as the second of the actions and the first of the registers, image
tokens share one when step and place are swapped, and no others do. -/
theorem newRdtPolicyHead_shares {r : RDT cfg.rdtShape} (h : cfg.newRdtPolicyHead r = some head) :
    (∀ i i', head.xPosEmb (.inl i) = head.xPosEmb (.inl i') ↔ i = i') ∧
    (∀ j j', head.xPosEmb (.inr j) = head.xPosEmb (.inr j') ↔ j = j') ∧
    (∀ i j, head.xPosEmb (.inl i) = head.xPosEmb (.inr j) ↔
      i.val = 1 ∧ j.val = 0 ∧ 1 < cfg.rdt.numRegisterTokens) ∧
    (∀ i i', head.actPosEmb i = head.actPosEmb i' ↔ i = i') ∧
    (cfg.rdt.useImageCondition = true → ∀ (i i' : cfg.Step) (j j' : Fin cfg.nImgTokens),
      head.imgPosEmb (rowMajor i j) = head.imgPosEmb (rowMajor i' j') ↔
        (i = i' ∧ j = j') ∨ (i.val = j'.val ∧ j.val = i'.val)) := by
  have hnew := newHead_of_newRdtPolicyHead h
  refine ⟨fun i i' => ?_, fun j j' => ?_, fun i j => ?_, hnew.actPosEmb_eq_iff,
    hnew.imgPosEmb_eq_iff⟩
  · refine (hnew.xPosEmb_eq_iff _ _).trans ((List.perm_append_right_iff _).trans ?_)
    exact (placed_perm_iff i.isLt i'.isLt).trans Fin.ext_iff.symm
  · refine (hnew.xPosEmb_eq_iff _ _).trans ((List.perm_append_right_iff _).trans ?_)
    exact (placed_perm_iff j.isLt j'.isLt).trans Fin.ext_iff.symm
  · exact (hnew.xPosEmb_eq_iff _ _).trans (placed_modalities_perm_iff i.isLt)

end Shared

section Exists

variable {K : Type} [Field K] [LinearOrder K] [Elementary K]

omit [Elementary K] [Field K] [LinearOrder K] in
theorem exists_asRows {n d : ℕ} {x : List (List K)} (hlen : x.length = n)
    (hrows : ∀ row ∈ x, row.length = d) : ∃ f, asRows n d x = some f := by
  have hevery : ∀ i : Fin n, (perStep d (x.get (i.cast hlen.symm))).isSome := by
    intro i
    rw [perStep_of_length (hrows _ (List.get_mem _ _))]
    rfl
  exact ⟨_, by rw [asRows, perStep_of_length hlen, Option.bind_some, everySample, dif_pos hevery]⟩

omit [LinearOrder K] in
theorem exists_copyPosEmb {n embedDim : ℕ} (heven : embedDim % 2 = 0)
    {config : List (String × CondLen)} {positions : List (List ℕ)}
    (hrows : getMultimodalPosEmbed embedDim config =
      some (positions.map (sincosSum K embedDim))) (hlen : positions.length = n) :
    ∃ f : Fin n → Fin embedDim → K, copyPosEmb n embedDim config = some f := by
  rw [copyPosEmb, hrows, Option.bind_some]
  apply exists_asRows
  · rw [List.length_map, hlen]
  · intro row hrow
    obtain ⟨ps, -, rfl⟩ := List.mem_map.mp hrow
    exact length_sincosSum heven ps

/-- A head of even width can be made. -/
theorem exists_newRdtPolicyHead {cfg : Stage3Config K} (heven : cfg.rdt.hiddenSize % 2 = 0)
    (r : RDT cfg.rdtShape) : ∃ head, cfg.newRdtPolicyHead r = some head := by
  have htokens : ∀ (modality : String) (n : ℕ), ∃ f : Fin n → Fin cfg.rdt.hiddenSize → K,
      copyPosEmb n cfg.rdt.hiddenSize [(modality, .tokens n)] = some f := by
    intro modality n
    have hrows : getMultimodalPosEmbed cfg.rdt.hiddenSize [(modality, .tokens n)] =
        some (((List.range n).map (placed n)).map (sincosSum K cfg.rdt.hiddenSize)) := by
      rw [getMultimodalPosEmbed_one, posEmbedI_tokens heven, List.map_map]
      rfl
    exact exists_copyPosEmb heven hrows (by rw [List.length_map, List.length_range])
  have himage : ∃ f : Fin (cfg.nSeqTimesteps * cfg.nImgTokens) → Fin cfg.rdt.hiddenSize → K,
      copyPosEmb _ cfg.rdt.hiddenSize [("image", .grid [cfg.nSeqTimesteps, cfg.nImgTokens])] =
        some f := by
    have hrows : getMultimodalPosEmbed cfg.rdt.hiddenSize
        [("image", .grid [cfg.nSeqTimesteps, cfg.nImgTokens])] =
          some (((indices [cfg.nSeqTimesteps, cfg.nImgTokens]).map
            (gridPlaced [cfg.nSeqTimesteps, cfg.nImgTokens])).map
              (sincosSum K cfg.rdt.hiddenSize)) := by
      rw [getMultimodalPosEmbed_one, List.map_map]
      exact posEmbedI_grid heven [cfg.nSeqTimesteps, cfg.nImgTokens]
    exact exists_copyPosEmb heven hrows (by simp)
  have hx : ∃ f : Fin (cfg.nSeqTimesteps + cfg.rdt.numRegisterTokens) → _ → K,
      copyPosEmb _ cfg.rdt.hiddenSize [("action", .tokens cfg.nSeqTimesteps),
        ("register", .tokens cfg.rdt.numRegisterTokens)] = some f := by
    have hrows : getMultimodalPosEmbed cfg.rdt.hiddenSize [("action", .tokens cfg.nSeqTimesteps),
        ("register", .tokens cfg.rdt.numRegisterTokens)] =
          some ((((List.range cfg.nSeqTimesteps).map fun i => placed cfg.nSeqTimesteps i ++ [0]) ++
            (List.range cfg.rdt.numRegisterTokens).map fun j =>
              placed cfg.rdt.numRegisterTokens j ++ [1]).map (sincosSum K cfg.rdt.hiddenSize)) := by
      rw [getMultimodalPosEmbed_two heven, List.map_append, List.map_map, List.map_map]
      rfl
    exact exists_copyPosEmb heven hrows (by simp)
  obtain ⟨xPosEmb, hx⟩ := hx
  obtain ⟨imgPosEmb, himage⟩ := himage
  obtain ⟨actPosEmb, hact⟩ := htokens "action" cfg.nSeqTimesteps
  obtain ⟨statePosEmb, hstate⟩ := htokens "state" 1
  have himg : ∃ imgPosEmb', (if cfg.rdt.useImageCondition
      then some [("image", CondLen.grid [cfg.nSeqTimesteps, cfg.nImgTokens])]
      else none).elim (some r.imgPosEmb) (copyPosEmb (cfg.nSeqTimesteps * cfg.nImgTokens)
        cfg.rdt.hiddenSize) = some imgPosEmb' := by
    split
    · exact ⟨_, himage⟩
    · exact ⟨_, rfl⟩
  obtain ⟨imgPosEmb', himg⟩ := himg
  simp only [Stage3Config.newRdtPolicyHead, RDT.initializeWeights, Option.bind_eq_bind]
  exact ⟨_, Option.bind_eq_some_iff.mpr ⟨_, hx, Option.bind_eq_some_iff.mpr ⟨_, himg,
    Option.bind_eq_some_iff.mpr ⟨_, hact, Option.bind_eq_some_iff.mpr ⟨_, hstate, rfl⟩⟩⟩⟩⟩

end Exists

section TwoTokens

/-- Two steps with two image tokens each, and two registers. -/
noncomputable def imageConfig : Stage3Config ℝ :=
  { twoStepConfig with
    nImgTokens := 2
    nImgTokens_pos := Nat.two_pos
    rdt :=
      { twoStepConfig.rdt with
        numRegisterTokens := 2
        useImageCondition := true
        numRegisterTokens_pos := Nat.two_pos } }

theorem newRdtPolicyHead_shares_twoTokens :
    let first : Fin 2 := ⟨0, Nat.two_pos⟩
    let second : Fin 2 := ⟨1, one_lt_two⟩
    ∃ head, imageConfig.newRdtPolicyHead (.relay imageConfig.rdtShape) = some head ∧
      head.xPosEmb (.inl second) = head.xPosEmb (.inr first) ∧
      head.xPosEmb (.inl first) ≠ head.xPosEmb (.inr second) ∧
      head.imgPosEmb (rowMajor first second) = head.imgPosEmb (rowMajor second first) := by
  intro first second
  have heven : imageConfig.rdt.hiddenSize % 2 = 0 := rfl
  obtain ⟨head, hhead⟩ := exists_newRdtPolicyHead heven (.relay _)
  obtain ⟨-, -, htokens, -, himage⟩ := newRdtPolicyHead_shares hhead
  refine ⟨head, hhead, ?_, ?_, ?_⟩
  · exact (htokens second first).mpr ⟨rfl, rfl, one_lt_two⟩
  · intro hsame
    exact absurd ((htokens first second).mp hsame).1 Nat.zero_ne_one
  · exact (himage rfl first second second first).mpr (.inr ⟨rfl, rfl⟩)

end TwoTokens

/-! ## Blocks without modulation -/

section Fresh

variable {K : Type} [Field K] [LinearOrder K] [Elementary K] {c : RDTShape K}

theorem RDTBlock.forward_unmodulated {b : RDTBlock c}
    (h : b.adaLNModulation = { weight := 0, bias := 0 }) {ι : Type} [Fintype ι]
    (x : ι → Fin c.hiddenSize → K) (t : Fin c.hiddenSize ⊕ Fin c.hiddenSize → K)
    (cond : Condition c) : b.forward x t cond = x := by
  have hzero : ∀ m, b.modulation t m = 0 := by
    intro m
    ext d
    rw [modulation, h, Linear.forward, Matrix.zero_mulVec]
    exact add_zero 0
  simp only [forward, hzero, zero_mul, add_zero]

theorem RDT.runBlocks_unmodulated {r : RDT c}
    (h : ∀ i, (r.blocks i).adaLNModulation = { weight := 0, bias := 0 })
    (conds : List (Condition c)) (hpos : 0 < conds.length)
    (t : Fin c.hiddenSize ⊕ Fin c.hiddenSize → K) (is : List (Fin c.depth))
    (x : c.Token → Fin c.hiddenSize → K) : r.runBlocks conds hpos t is x = x := by
  induction is with
  | nil => rfl
  | cons i is ih =>
      rw [runBlocks, List.foldl_cons, RDTBlock.forward_unmodulated (h i)]
      exact ih

/-- Without modulation an action meets nothing on its way through the head. -/
theorem RDT.forward_unmodulated {r : RDT c}
    (h : ∀ i, (r.blocks i).adaLNModulation = { weight := 0, bias := 0 })
    (x : Fin c.horizon → Fin c.actionDim → K) (t : K)
    (imgC : Option (Fin c.maxImgLen → Fin c.hiddenSize → K))
    (actC : Fin c.maxActLen → Fin c.hiddenSize → K) (stateC : Fin c.actionDim → K)
    (imgMask : Fin c.maxImgLen → Bool) (actMask : Fin c.maxActLen → Bool) (i : Fin c.horizon) :
    r.forward x t imgC actC stateC imgMask actMask i =
      r.actionDecoder.forward (r.actionEmbedder.forward (x i) + r.xPosEmb (.inl i)) := by
  simp only [forward, runBlocks_unmodulated h]
  rfl

omit [Elementary K] in
/-- A sampler step moves each entry by its own output. -/
theorem step_agree {B : ℕ} {ι : Type} (s : FlowMatchScheduler K) {P : Fin B → ι → Prop}
    {output output' sample sample' : Batch B ι K} (timestep : List K) (toFinal : Bool)
    (houtput : ∀ b j, P b j → output b j = output' b j)
    (hsample : ∀ b j, P b j → sample b j = sample' b j) :
    Option.Rel (fun x y : Batch B ι K => ∀ b j, P b j → x b j = y b j)
      (s.step output timestep sample toFinal) (s.step output' timestep sample' toFinal) := by
  refine bind_rel fun _ => bind_rel fun _ => bind_rel fun _ => bind_rel fun _ => .some ?_
  intro b j hj
  simp only [houtput b j hj, hsample b j hj]

omit [Elementary K] in
/-- Entries whose predictions do not look at the others are denoised without them. -/
theorem denoiseActionSequence_agree {B : ℕ} {ι : Type} (s : FlowMatchScheduler K)
    {P : Fin B → ι → Prop} {predict predict' : Batch B ι K → List K → Batch B ι K}
    (hpredict : ∀ x y t, (∀ b j, P b j → x b j = y b j) →
      ∀ b j, P b j → predict x t b j = predict' y t b j)
    {x y : Batch B ι K} (hxy : ∀ b j, P b j → x b j = y b j) :
    Option.Rel (fun x y : Batch B ι K => ∀ b j, P b j → x b j = y b j)
      (denoiseActionSequence s predict x) (denoiseActionSequence s predict' y) := by
  refine foldlM_rel ?_ hxy
  rintro ⟨timestep, stepIdx⟩ x y hxy
  exact step_agree s _ _ (hpredict x y _ hxy) hxy

omit [Elementary K] in
theorem denoiseWindow_agree {cfg : Stage3Config K} (scheduler : FlowMatchScheduler K)
    {i : cfg.Step} {preds preds' : (cfg.Step → cfg.Action) → K → cfg.Step → cfg.Action}
    (h : ∀ x y t, x i = y i → preds x t i = preds' y t i) {noise noise' : cfg.Step → cfg.Action}
    (hnoise : noise i = noise' i) :
    (Stage3Weights.denoiseWindow scheduler preds noise).map (· i) =
      (Stage3Weights.denoiseWindow scheduler preds' noise').map (· i) := by
  have hrun : Option.Rel (fun x y : Batch 1 (cfg.Step × Fin cfg.nActions) K =>
        ∀ b ij, ij.1 = i → x b ij = y b ij)
      (denoiseActionSequence scheduler (fun sample timesteps b ij =>
        preds (fun i j => sample b (i, j)) (timesteps.getD b 0) ij.1 ij.2)
        fun _ ij => noise ij.1 ij.2)
      (denoiseActionSequence scheduler (fun sample timesteps b ij =>
        preds' (fun i j => sample b (i, j)) (timesteps.getD b 0) ij.1 ij.2)
        fun _ ij => noise' ij.1 ij.2) := by
    apply denoiseActionSequence_agree
    · rintro x y t hxy b ⟨i, j⟩ rfl
      exact congrFun (h _ _ _ (funext fun k => hxy b (i, k) rfl)) j
    · rintro b ⟨_, j⟩ rfl
      exact congrFun hnoise j
  simp only [Stage3Weights.denoiseWindow, Option.map_map]
  rw [Option.map_eq_bind, Option.map_eq_bind]
  exact bind_eq_of_rel hrun fun x y hxy => congrArg some (funext fun j => hxy _ _ rfl)

/-- **A new head denoises each action by itself.** Until training has moved the
modulation, an action depends on its own noise alone: not on the frames, texts, earlier
actions, masks and conditions, and not on the noise of the other steps. -/
theorem newRdtPolicyHead_denoisesAlone {cfg : Stage3Config K} {r : RDT cfg.rdtShape}
    {w w' : Stage3Weights cfg} (hw : cfg.newRdtPolicyHead r = some w.rdtPolicyHead)
    (hw' : w'.rdtPolicyHead = w.rdtPolicyHead) (scheduler : FlowMatchScheduler K)
    (batch batch' : Stage3Batch cfg) (actions actions' : cfg.Step → cfg.Action)
    {noise noise' : cfg.Step → cfg.Action} {i : cfg.Step} (hnoise : noise i = noise' i) :
    (Stage3Weights.denoiseWindow scheduler (w.windowPreds batch actions) noise).map (· i) =
      (Stage3Weights.denoiseWindow scheduler (w'.windowPreds batch' actions') noise').map
        (· i) := by
  apply denoiseWindow_agree scheduler _ hnoise
  have hblocks := (newHead_of_newRdtPolicyHead hw).adaLNModulation
  have hblocks' : ∀ i, (w'.rdtPolicyHead.blocks i).adaLNModulation =
      { weight := 0, bias := 0 } := by
    rw [hw']
    exact hblocks
  intro x y t hxy
  refine (RDT.forward_unmodulated hblocks ..).trans ?_
  refine Eq.trans ?_ (RDT.forward_unmodulated hblocks' ..).symm
  rw [hw', hxy]

end Fresh

section TwoSteps

open Stage3Weights

/-- Another frame, other actions and other noise for the second step. -/
theorem newRdtPolicyHead_denoisesAlone_twoSteps :
    let first : twoStepConfig.Step := ⟨0, Nat.two_pos⟩
    ∃ w : Stage3Weights twoStepConfig, ∃ action,
      twoStepConfig.newRdtPolicyHead (.relay twoStepConfig.rdtShape) = some w.rdtPolicyHead ∧
      (denoiseWindow oneLevel (w.windowPreds twoStepBatch fun _ _ => 0) fun _ _ => 0).map
        (· first) = some action ∧
      (denoiseWindow oneLevel (w.windowPreds { twoStepBatch with frames := fun _ => [200] }
        fun _ _ => 1) fun i _ => i.val).map (· first) = some action := by
  intro first
  have heven : twoStepConfig.rdt.hiddenSize % 2 = 0 := rfl
  obtain ⟨head, hhead⟩ := exists_newRdtPolicyHead heven (.relay _)
  let w : Stage3Weights twoStepConfig := { relay twoStepConfig with rdtPolicyHead := head }
  obtain ⟨actions, hactions⟩ := exists_denoiseWindow_oneLevel
    (w.windowPreds twoStepBatch fun _ _ => 0) fun _ _ => 0
  have hfirst := congrArg (Option.map (· first)) hactions
  refine ⟨w, actions first, hhead, hfirst, ?_⟩
  have hnoise : (fun (i : twoStepConfig.Step) (_ : Fin twoStepConfig.nActions) => (i.val : ℝ))
      first = fun _ => 0 := funext fun _ => Nat.cast_zero
  exact (newRdtPolicyHead_denoisesAlone hhead rfl oneLevel _ _ _ _ hnoise).trans hfirst

end TwoSteps

end P2PRdt.Policy

import P2PRdt.Policy.Rdt

/-!
# Masked conditions of the RDT head

`RDT.forward` with all that its callers may leave out: each of the two conditions
and each mask is optional, and the actions may come in and go out embedded.
Without a mask the cross attention takes the plain softmax, by the flash kernel
or by hand; with one it fills, masks and renormalizes. `forwardOpt_eq_forward`
ties this head to the one of `Rdt`, whose conditions always have a mask.
-/

namespace P2PRdt.Policy

open Lib Elementary

/-- Condition tokens, with a mask if one is given. -/
structure ConditionOpt {K : Type} [Zero K] [LE K] (c : RDTShape K) where
  len : ℕ
  tokens : Fin len → Fin c.hiddenSize → K
  mask : Option (Fin len → Bool)

/-- The width of the tokens that go in or out. -/
def RDTShape.ioDim {K : Type} [Zero K] [LE K] (c : RDTShape K) : Bool → ℕ
  | true => c.actionDim
  | false => c.hiddenSize

variable {K : Type} [Field K] [LinearOrder K] {c : RDTShape K}

def ConditionOpt.map (cond : ConditionOpt c)
    (f : (Fin c.hiddenSize → K) → Fin c.hiddenSize → K) : ConditionOpt c :=
  { cond with tokens := fun j => f (cond.tokens j) }

variable [Elementary K]

/-! ## The head -/

/-- The weights of `CrossAttention.forward`. -/
def crossWeights {n : ℕ} (scores : Fin n → K) (mask : Option (Fin n → Bool)) : Fin n → K :=
  match mask with
  | some mask => maskedWeights scores mask
  | none => softmax fun j => some (scores j)

/-- `CrossAttention.forward` for one token. -/
def Attention.crossForwardOpt (a : Attention c) (x : Fin c.hiddenSize → K)
    (cond : ConditionOpt c) : Fin c.hiddenSize → K :=
  a.wo.mulVec fun (kv, rep, d) =>
    ∑ j, crossWeights (fun j => score (a.query x) (a.key (cond.tokens j)) kv rep) cond.mask j *
      a.value (cond.tokens j) (kv, d)

/-- `RDTBlock.forward`. -/
def RDTBlock.forwardOpt (b : RDTBlock c) {ι : Type} [Fintype ι] (x : ι → Fin c.hiddenSize → K)
    (t : Fin c.hiddenSize ⊕ Fin c.hiddenSize → K) (cond : ConditionOpt c) :
    ι → Fin c.hiddenSize → K :=
  let m := b.modulation t
  let normed := fun i => modulate (rmsNorm c.normEps b.attnNorm (x i)) (m .shiftAttn) (m .scaleAttn)
  let h := fun i => x i + m .gateAttn * b.attn.forward normed i
  let h := fun i => h i + m .gateCross * b.crossAttn.crossForwardOpt
    (modulate (rmsNorm c.normEps b.crossNorm (h i)) (m .shiftCross) (m .scaleCross))
    (cond.map (rmsNorm c.normEps b.condNorm))
  fun i => h i + m .gateMlp * b.ffn.forward
    (modulate (rmsNorm c.normEps b.ffnNorm (h i)) (m .shiftMlp) (m .scaleMlp))

namespace RDT

variable (r : RDT c)

omit [Elementary K] in
/-- `conds` and `masks`, one list. -/
def conditionsOpt (imgC : Option (Fin c.maxImgLen → Fin c.hiddenSize → K))
    (actC : Option (Fin c.maxActLen → Fin c.hiddenSize → K))
    (imgMask : Option (Fin c.maxImgLen → Bool)) (actMask : Option (Fin c.maxActLen → Bool)) :
    List (ConditionOpt c) :=
  (imgC.map fun imgC =>
      { len := c.maxImgLen, tokens := imgC + r.imgPosEmb, mask := imgMask }).toList
    ++ (actC.map fun actC =>
      { len := c.maxActLen, tokens := actC + r.actPosEmb, mask := actMask }).toList

/-- The loop over the blocks; without conditions, `i % num_conds` raises. -/
def runBlocksOpt (conds : List (ConditionOpt c)) (t : Fin c.hiddenSize ⊕ Fin c.hiddenSize → K)
    (is : List (Fin c.depth)) (x : c.Token → Fin c.hiddenSize → K) :
    Option (c.Token → Fin c.hiddenSize → K) :=
  is.foldlM (fun x i => do
    let cond ← conds[i.val % conds.length]?
    pure ((r.blocks i).forwardOpt x t cond)) x

theorem runBlocksOpt_cons (conds : List (ConditionOpt c))
    (t : Fin c.hiddenSize ⊕ Fin c.hiddenSize → K) (i : Fin c.depth) (is : List (Fin c.depth))
    (x : c.Token → Fin c.hiddenSize → K) :
    r.runBlocksOpt conds t (i :: is) x = (conds[i.val % conds.length]?).bind fun cond =>
      r.runBlocksOpt conds t is ((r.blocks i).forwardOpt x t cond) := by
  unfold runBlocksOpt
  rw [List.foldlM_cons]
  cases conds[i.val % conds.length]? <;> rfl

omit [Elementary K] in
def embedInput : (embed : Bool) → (Fin (c.ioDim embed) → K) → Fin c.hiddenSize → K
  | true, x => r.actionEmbedder.forward x
  | false, x => x

omit [Elementary K] in
def decodeOutput : (decode : Bool) → (Fin c.hiddenSize → K) → Fin (c.ioDim decode) → K
  | true, x => r.actionDecoder.forward x
  | false, x => x

/-- `RDT.forward`. -/
def forwardOpt (embed decode : Bool) (x : Fin c.horizon → Fin (c.ioDim embed) → K) (t : K)
    (imgC : Option (Fin c.maxImgLen → Fin c.hiddenSize → K))
    (actC : Option (Fin c.maxActLen → Fin c.hiddenSize → K)) (stateC : Fin (c.ioDim embed) → K)
    (imgMask : Option (Fin c.maxImgLen → Bool)) (actMask : Option (Fin c.maxActLen → Bool)) :
    Option (Fin c.horizon → Fin (c.ioDim decode) → K) := do
  let t := Sum.elim (r.tEmbedder.forward t) (r.embedInput embed stateC + r.statePosEmb)
  let x := Sum.elim (fun i => r.embedInput embed (x i)) r.registerTokens + r.xPosEmb
  let x ← r.runBlocksOpt (r.conditionsOpt imgC actC imgMask actMask) t (List.finRange c.depth) x
  pure fun i => r.decodeOutput decode (x (.inl i))

end RDT

/-! ## With masks it is the head of `Rdt` -/

def Condition.toOpt (cond : Condition c) : ConditionOpt c :=
  { len := cond.len, tokens := cond.tokens, mask := some cond.mask }

theorem RDTBlock.forwardOpt_toOpt (b : RDTBlock c) {ι : Type} [Fintype ι]
    (x : ι → Fin c.hiddenSize → K) (t : Fin c.hiddenSize ⊕ Fin c.hiddenSize → K)
    (cond : Condition c) : b.forwardOpt x t cond.toOpt = b.forward x t cond := rfl

namespace RDT

variable (r : RDT c)

theorem runBlocksOpt_toOpt {conds : List (Condition c)} (hpos : 0 < conds.length)
    (t : Fin c.hiddenSize ⊕ Fin c.hiddenSize → K) (is : List (Fin c.depth))
    (x : c.Token → Fin c.hiddenSize → K) :
    r.runBlocksOpt (conds.map Condition.toOpt) t is x = some (r.runBlocks conds hpos t is x) := by
  induction is generalizing x with
  | nil => rfl
  | cons i is ih =>
      have hget : (conds.map Condition.toOpt)[i.val % (conds.map Condition.toOpt).length]? =
          some (conditionAt conds hpos i).toOpt := by
        rw [List.length_map, List.getElem?_map,
          List.getElem?_eq_getElem (Nat.mod_lt i.val hpos)]
        rfl
      rw [runBlocksOpt_cons, hget, Option.bind_some, RDTBlock.forwardOpt_toOpt]
      exact ih _

theorem forwardOpt_eq_forward (x : Fin c.horizon → Fin c.actionDim → K) (t : K)
    (imgC : Option (Fin c.maxImgLen → Fin c.hiddenSize → K))
    (actC : Fin c.maxActLen → Fin c.hiddenSize → K) (stateC : Fin c.actionDim → K)
    (imgMask : Fin c.maxImgLen → Bool) (actMask : Fin c.maxActLen → Bool) :
    r.forwardOpt true true x t imgC (some actC) stateC (some imgMask) (some actMask) =
      some (r.forward x t imgC actC stateC imgMask actMask) := by
  have hconds : r.conditionsOpt imgC (some actC) (some imgMask) (some actMask) =
      (r.conditions imgC actC imgMask actMask).map Condition.toOpt := by
    cases imgC <;> rfl
  unfold forwardOpt
  rw [hconds]
  simp only [r.runBlocksOpt_toOpt (r.conditions_length_pos imgC actC imgMask actMask)]
  rfl

end RDT

/-! ## Conditions that no attention tells apart -/

/-- The cross attention of every block gives the same for both. -/
def ConditionOpt.Same (cond cond' : ConditionOpt c) : Prop :=
  ∀ (a : Attention c) (f : (Fin c.hiddenSize → K) → Fin c.hiddenSize → K)
    (x : Fin c.hiddenSize → K),
    a.crossForwardOpt x (cond.map f) = a.crossForwardOpt x (cond'.map f)

theorem ConditionOpt.Same.refl (cond : ConditionOpt c) : cond.Same cond := fun _ _ _ => rfl

theorem RDTBlock.forwardOpt_same (b : RDTBlock c) {ι : Type} [Fintype ι]
    (x : ι → Fin c.hiddenSize → K) (t : Fin c.hiddenSize ⊕ Fin c.hiddenSize → K)
    {cond cond' : ConditionOpt c} (h : cond.Same cond') :
    b.forwardOpt x t cond = b.forwardOpt x t cond' := by
  unfold forwardOpt
  simp only [h b.crossAttn]

namespace RDT

variable (r : RDT c)

theorem runBlocksOpt_same {conds conds' : List (ConditionOpt c)}
    (h : List.Forall₂ ConditionOpt.Same conds conds')
    (t : Fin c.hiddenSize ⊕ Fin c.hiddenSize → K) (is : List (Fin c.depth))
    (x : c.Token → Fin c.hiddenSize → K) :
    r.runBlocksOpt conds t is x = r.runBlocksOpt conds' t is x := by
  induction is generalizing x with
  | nil => rfl
  | cons i is ih =>
      rw [runBlocksOpt_cons, runBlocksOpt_cons, h.length_eq]
      by_cases hlt : i.val % conds'.length < conds'.length
      · have hlt' : i.val % conds'.length < conds.length := hlt.trans_eq h.length_eq.symm
        have hsame : (conds[i.val % conds'.length]).Same (conds'[i.val % conds'.length]) :=
          h.get hlt' hlt
        rw [List.getElem?_eq_getElem hlt', List.getElem?_eq_getElem hlt, Option.bind_some,
          Option.bind_some, (r.blocks i).forwardOpt_same x t hsame]
        exact ih _
      · rw [List.getElem?_eq_none (Nat.le_of_not_lt hlt),
          List.getElem?_eq_none (h.length_eq.trans_le (Nat.le_of_not_lt hlt))]
        rfl

/-- The outputs are the same when no attention tells the conditions apart. -/
theorem forwardOpt_same (embed decode : Bool) (x : Fin c.horizon → Fin (c.ioDim embed) → K) (t : K)
    (stateC : Fin (c.ioDim embed) → K)
    {imgC imgC' : Option (Fin c.maxImgLen → Fin c.hiddenSize → K)}
    {actC actC' : Option (Fin c.maxActLen → Fin c.hiddenSize → K)}
    {imgMask imgMask' : Option (Fin c.maxImgLen → Bool)}
    {actMask actMask' : Option (Fin c.maxActLen → Bool)}
    (himg : Option.Rel (fun i i' => ConditionOpt.Same (c := c)
      { len := c.maxImgLen, tokens := i + r.imgPosEmb, mask := imgMask }
      { len := c.maxImgLen, tokens := i' + r.imgPosEmb, mask := imgMask' }) imgC imgC')
    (hact : Option.Rel (fun a a' => ConditionOpt.Same (c := c)
      { len := c.maxActLen, tokens := a + r.actPosEmb, mask := actMask }
      { len := c.maxActLen, tokens := a' + r.actPosEmb, mask := actMask' }) actC actC') :
    r.forwardOpt embed decode x t imgC actC stateC imgMask actMask =
      r.forwardOpt embed decode x t imgC' actC' stateC imgMask' actMask' := by
  have hconds : List.Forall₂ ConditionOpt.Same (r.conditionsOpt imgC actC imgMask actMask)
      (r.conditionsOpt imgC' actC' imgMask' actMask') := by
    cases himg with
    | none =>
        cases hact with
        | none => exact .nil
        | some hact => exact .cons hact .nil
    | some himg =>
        cases hact with
        | none => exact .cons himg .nil
        | some hact => exact .cons himg (.cons hact .nil)
  unfold forwardOpt
  simp only [r.runBlocksOpt_same hconds]

end RDT

/-! ## Masked tokens -/

/-- The mask lets token `j` through. -/
def Visible {n : ℕ} (mask : Option (Fin n → Bool)) (j : Fin n) : Prop :=
  ∀ m, mask = some m → m j = true

theorem crossWeights_congr {n : ℕ} {scores scores' : Fin n → K} {mask : Option (Fin n → Bool)}
    (h : ∀ j, Visible mask j → scores j = scores' j) :
    crossWeights scores mask = crossWeights scores' mask := by
  cases mask with
  | none =>
      have hall : scores = scores' := funext fun j => h j fun _ hnone => nomatch hnone
      rw [hall]
  | some m =>
      apply maskedWeights_congr
      intro j hj
      apply h
      rintro m' ⟨⟩
      exact hj

theorem crossWeights_masked {n : ℕ} (scores : Fin n → K) {mask : Option (Fin n → Bool)} {j : Fin n}
    (hj : ¬Visible mask j) : crossWeights scores mask j = 0 := by
  cases mask with
  | none => exact absurd (fun _ hnone => nomatch hnone) hj
  | some m =>
      apply maskedWeights_masked
      apply Bool.eq_false_of_not_eq_true
      intro hm
      apply hj
      rintro m' ⟨⟩
      exact hm

/-- Conditions with the same visible tokens. -/
theorem ConditionOpt.same_of_visible {n : ℕ} {mask : Option (Fin n → Bool)}
    {tokens tokens' : Fin n → Fin c.hiddenSize → K}
    (h : ∀ j, Visible mask j → tokens j = tokens' j) :
    ConditionOpt.Same (c := c) { len := n, tokens, mask }
      { len := n, tokens := tokens', mask } := by
  intro a f x
  have hweights : ∀ kv rep,
      crossWeights (fun j => Attention.score (a.query x) (a.key (f (tokens j))) kv rep) mask =
        crossWeights
          (fun j => Attention.score (a.query x) (a.key (f (tokens' j))) kv rep) mask := by
    intro kv rep
    apply crossWeights_congr
    intro j hj
    rw [h j hj]
  unfold Attention.crossForwardOpt
  apply congrArg a.wo.mulVec
  ext ⟨kv, rep, d⟩
  apply Finset.sum_congr rfl
  intro j _
  simp only [ConditionOpt.map, hweights]
  by_cases hj : Visible mask j
  · rw [h j hj]
  · rw [crossWeights_masked _ hj, zero_mul, zero_mul]

/-- Without a visible token the attention output is zero. -/
theorem Attention.crossForwardOpt_allMasked (a : Attention c) (x : Fin c.hiddenSize → K)
    {cond : ConditionOpt c} (h : ∀ j, ¬Visible cond.mask j) : a.crossForwardOpt x cond = 0 := by
  have hzero : ∀ kv rep d, ∑ j, crossWeights (fun j => score (a.query x) (a.key (cond.tokens j))
      kv rep) cond.mask j * a.value (cond.tokens j) (kv, d) = 0 := by
    intro kv rep d
    apply Finset.sum_eq_zero
    intro j _
    rw [crossWeights_masked _ (h j), zero_mul]
  unfold crossForwardOpt
  simp only [hzero]
  exact Matrix.mulVec_zero _

section Order

variable [IsStrictOrderedRing K]

omit [Elementary K] in
/-- The divisor of the renormalization is not zero. -/
theorem clampMin_pos (denom : K) : 0 < max denom (1 / 1000000000000) := by
  apply lt_max_of_lt_right
  positivity

variable [LawfulElementary K]

/-- A mask that is true everywhere changes no weight: the weights of the softmax
already add up to one. -/
theorem crossWeights_allTrue {n : ℕ} (scores : Fin n → K) :
    crossWeights scores (some fun _ => true) = crossWeights scores none := by
  have hattn : maskedAttn scores (fun _ => true) = softmax fun j => some (scores j) := by
    ext j
    simp only [maskedAttn, maskedFill, if_true, mul_one]
  ext j
  have hsum : ∑ k, softmax (fun j => some (scores j)) k = 1 := sum_softmax (i := j) rfl
  have hmax : max (1 : K) (1 / 1000000000000) = 1 := by
    apply max_eq_left
    norm_num
  simp only [crossWeights, maskedWeights, hattn, hsum, if_pos zero_lt_one, hmax, div_one]

theorem ConditionOpt.same_of_allTrue {n : ℕ} (tokens : Fin n → Fin c.hiddenSize → K) :
    ConditionOpt.Same (c := c) { len := n, tokens, mask := some fun _ => true }
      { len := n, tokens, mask := none } := by
  intro a f x
  unfold Attention.crossForwardOpt
  simp only [ConditionOpt.map, crossWeights_allTrue]
  rfl

/-- The divisor of the softmax is not zero, for any mask. -/
theorem softmaxDivisor_pos {n : ℕ} (hn : 0 < n) (scores : Fin n → K) (mask : Fin n → Bool) :
    0 < ∑ j, softmaxWeight (some (maskedFill scores mask j)) :=
  sum_softmaxWeight_pos (s := fun j => some (maskedFill scores mask j)) (i := ⟨0, hn⟩) rfl

omit [Elementary K] [IsStrictOrderedRing K] [LawfulElementary K] in
theorem rel_refl {α : Type} {R : α → α → Prop} (h : ∀ a, R a a) (o : Option α) :
    Option.Rel R o o := by
  cases o with
  | none => exact .none
  | some a => exact .some (h a)

/-- **Masked conditions cannot influence the head.** Masked condition tokens may
be replaced; a condition that is masked everywhere adds nothing, and nothing is
divided by zero; a mask that is true everywhere is no mask. -/
theorem maskedConditions_ignored (r : RDT c) (embed decode : Bool)
    (x : Fin c.horizon → Fin (c.ioDim embed) → K) (t : K) (stateC : Fin (c.ioDim embed) → K) :
    (∀ imgMask actMask imgC imgC' actC actC',
      Option.Rel (fun i i' => ∀ j, Visible imgMask j → i j = i' j) imgC imgC' →
      Option.Rel (fun a a' => ∀ j, Visible actMask j → a j = a' j) actC actC' →
        r.forwardOpt embed decode x t imgC actC stateC imgMask actMask =
          r.forwardOpt embed decode x t imgC' actC' stateC imgMask actMask) ∧
    (∀ (i : Fin c.depth) (y : Fin c.hiddenSize → K) (n : ℕ) (tokens : Fin n → Fin c.hiddenSize → K)
      (mask : Fin n → Bool), (∀ j, mask j = false) →
        (r.blocks i).crossAttn.crossForwardOpt y { len := n, tokens, mask := some mask } = 0) ∧
    (∀ (n : ℕ) (scores : Fin n → K) (mask : Fin n → Bool),
      (0 < n → 0 < ∑ j, softmaxWeight (some (maskedFill scores mask j))) ∧
        0 < max (∑ j, maskedAttn scores mask j) (1 / 1000000000000)) ∧
    ∀ imgC actC imgMask actMask,
      r.forwardOpt embed decode x t imgC actC stateC (some fun _ => true) actMask =
          r.forwardOpt embed decode x t imgC actC stateC none actMask ∧
        r.forwardOpt embed decode x t imgC actC stateC imgMask (some fun _ => true) =
          r.forwardOpt embed decode x t imgC actC stateC imgMask none := by
  refine ⟨?_, ?_, ?_, ?_⟩
  · intro imgMask actMask imgC imgC' actC actC' himg hact
    apply r.forwardOpt_same
    · cases himg with
      | none => exact .none
      | some himg =>
          refine .some (ConditionOpt.same_of_visible fun j hj => ?_)
          exact congrArg (· + r.imgPosEmb j) (himg j hj)
    · cases hact with
      | none => exact .none
      | some hact =>
          refine .some (ConditionOpt.same_of_visible fun j hj => ?_)
          exact congrArg (· + r.actPosEmb j) (hact j hj)
  · intro i y n tokens mask hmask
    apply Attention.crossForwardOpt_allMasked
    intro j hj
    exact absurd (hj mask rfl) (Bool.eq_false_iff.mp (hmask j))
  · intro n scores mask
    exact ⟨fun hn => softmaxDivisor_pos hn scores mask, clampMin_pos _⟩
  · intro imgC actC imgMask actMask
    constructor
    · apply r.forwardOpt_same
      · exact rel_refl (fun _ => ConditionOpt.same_of_allTrue _) imgC
      · exact rel_refl (fun _ => .refl _) actC
    · apply r.forwardOpt_same
      · exact rel_refl (fun _ => .refl _) imgC
      · exact rel_refl (fun _ => ConditionOpt.same_of_allTrue _) actC

end Order

section OneHead

/-- One key head for two query heads, and two blocks. -/
noncomputable def oneHead : RDTShape ℝ where
  numKvHeads := 1
  nRep := 2
  headSize := 1
  depth := 2
  normEps := 1
  multipleOf := 8
  ffnDimMultiplier := none
  numRegisterTokens := 1
  useStateCondition := true
  useImageCondition := true
  actionConditionNoiseStd := 0
  horizon := 1
  actionDim := 1
  maxImgLen := 1
  maxActLen := 2
  numKvHeads_pos := Nat.one_pos
  nRep_pos := Nat.two_pos
  headSize_pos := Nat.one_pos
  normEps_nonneg := zero_le_one
  numRegisterTokens_pos := Nat.one_pos
  actionDim_pos := Nat.one_pos

/-- The first of two action condition tokens is `v` everywhere. -/
noncomputable def actTokens (v : ℝ) : Fin 2 → Fin oneHead.hiddenSize → ℝ :=
  fun j _ => if j.val = 0 then v else 1

/-- A mask without the first token. -/
def withoutFirst : Fin 2 → Bool := fun j => j.val = 1

/-- The first action token is masked, and may be anything. -/
theorem maskedConditions_ignored_first :
    (RDT.relay oneHead).forwardOpt true true (fun _ _ => 1) 0 (some fun _ _ => 3)
        (some (actTokens 0)) (fun _ => 1) none (some withoutFirst) =
      (RDT.relay oneHead).forwardOpt true true (fun _ _ => 1) 0 (some fun _ _ => 3)
        (some (actTokens 9)) (fun _ => 1) none (some withoutFirst) := by
  apply (maskedConditions_ignored (RDT.relay oneHead) true true (fun _ _ => 1) 0 fun _ => 1).1
  · exact .some fun _ _ => rfl
  · refine .some fun (j : Fin 2) hj => ?_
    have hsecond : j = 1 := Fin.ext (of_decide_eq_true (hj withoutFirst rfl))
    rw [hsecond]
    rfl

end OneHead

end P2PRdt.Policy

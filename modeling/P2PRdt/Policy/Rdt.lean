import P2PRdt.Lib.Network
import Mathlib.Algebra.Order.Floor.Ring
import Mathlib.Data.Rat.Floor

/-!
# The RDT head

`RDT.forward` with its blocks: self attention over the noisy actions and the
register tokens, cross attention to one of the conditions, a gated feed-forward
network, all three modulated by the timestep and the state. One sample of the
batch is modelled, and the arithmetic is that of an ordered field.

Masked scores are not removed from the softmax: they are set to a large negative
number, and the weights are masked and renormalized afterwards.
`RDT.forward_visible` says that the content of a masked condition token is lost
all the same.
-/

namespace P2PRdt.Policy

open Lib Elementary

/-- The hyperparameters of the head, without those of the sampler. Query heads
come in groups of `nRep` that share a key head. -/
structure RDTConfig (K : Type) [Zero K] [LE K] where
  numKvHeads : ℕ
  nRep : ℕ
  headSize : ℕ
  depth : ℕ
  normEps : K
  multipleOf : ℕ
  ffnDimMultiplier : Option ℚ
  numRegisterTokens : ℕ
  useStateCondition : Bool
  useImageCondition : Bool
  actionConditionNoiseStd : K
  numKvHeads_pos : 0 < numKvHeads
  nRep_pos : 0 < nRep
  headSize_pos : 0 < headSize
  normEps_nonneg : 0 ≤ normEps
  numRegisterTokens_pos : 0 < numRegisterTokens

/-- The head for one task: `maxImgLen` and `maxActLen` count the condition
tokens. -/
structure RDTShape (K : Type) [Zero K] [LE K] extends RDTConfig K where
  horizon : ℕ
  actionDim : ℕ
  maxImgLen : ℕ
  maxActLen : ℕ
  actionDim_pos : 0 < actionDim

namespace RDTConfig

variable {K : Type} [Zero K] [LE K] (c : RDTConfig K)

def hiddenSize : ℕ := c.numKvHeads * c.nRep * c.headSize

/-- The width of `FeedForward` with `hidden_dim = 4 * hidden_size`. -/
def ffnHiddenDim : ℕ :=
  let hiddenDim := 2 * (4 * c.hiddenSize) / 3
  let hiddenDim := match c.ffnDimMultiplier with
    | some m => ⌊m * hiddenDim⌋₊
    | none => hiddenDim
  c.multipleOf * ((hiddenDim + c.multipleOf - 1) / c.multipleOf)

/-- A lane of a query head: key head, repetition, place in the head. -/
abbrev QueryLane := Fin c.numKvHeads × Fin c.nRep × Fin c.headSize

abbrev KeyLane := Fin c.numKvHeads × Fin c.headSize

theorem hiddenSize_pos : 0 < c.hiddenSize :=
  Nat.mul_pos (Nat.mul_pos c.numKvHeads_pos c.nRep_pos) c.headSize_pos

def lane : Fin c.hiddenSize := ⟨0, c.hiddenSize_pos⟩

def keyLane : c.KeyLane := (⟨0, c.numKvHeads_pos⟩, ⟨0, c.headSize_pos⟩)

def queryLane : c.QueryLane := (⟨0, c.numKvHeads_pos⟩, ⟨0, c.nRep_pos⟩, ⟨0, c.headSize_pos⟩)

end RDTConfig

namespace RDTShape

variable {K : Type} [Zero K] [LE K] (c : RDTShape K)

/-- The noisy actions followed by the register tokens. -/
abbrev Token := Fin c.horizon ⊕ Fin c.numRegisterTokens

def actionLane : Fin c.actionDim := ⟨0, c.actionDim_pos⟩

end RDTShape

section Parameters

variable {K : Type} [Zero K] [LE K]

/-- Condition tokens and their mask. -/
structure Condition (c : RDTShape K) where
  len : ℕ
  tokens : Fin len → Fin c.hiddenSize → K
  mask : Fin len → Bool

def Condition.map {c : RDTShape K} (cond : Condition c)
    (f : (Fin c.hiddenSize → K) → Fin c.hiddenSize → K) : Condition c :=
  { cond with tokens := fun j => f (cond.tokens j) }

/-- The last axis of `wkv`. -/
inductive KeyOrValue
  | key | value
  deriving DecidableEq

/-- The parameters of `Attention` and of `CrossAttention`. -/
structure Attention (c : RDTShape K) where
  wq : Matrix c.QueryLane (Fin c.hiddenSize) K
  wkv : Matrix (c.KeyLane × KeyOrValue) (Fin c.hiddenSize) K
  wo : Matrix (Fin c.hiddenSize) c.QueryLane K
  normQ : Fin c.headSize → K
  normK : Fin c.headSize → K

structure FeedForward (c : RDTShape K) where
  w1 : Matrix (Fin c.ffnHiddenDim) (Fin c.hiddenSize) K
  w2 : Matrix (Fin c.hiddenSize) (Fin c.ffnHiddenDim) K
  w3 : Matrix (Fin c.ffnHiddenDim) (Fin c.hiddenSize) K

/-- The nine chunks of `adaLN_modulation`. -/
inductive Modulation
  | shiftAttn | scaleAttn | gateAttn
  | shiftCross | scaleCross | gateCross
  | shiftMlp | scaleMlp | gateMlp
  deriving DecidableEq

structure RDTBlock (c : RDTShape K) where
  attnNorm : Fin c.hiddenSize → K
  attn : Attention c
  crossNorm : Fin c.hiddenSize → K
  condNorm : Fin c.hiddenSize → K
  crossAttn : Attention c
  ffnNorm : Fin c.hiddenSize → K
  ffn : FeedForward c
  adaLNModulation : Linear (Fin c.hiddenSize ⊕ Fin c.hiddenSize) (Modulation × Fin c.hiddenSize) K

/-- The two layers of `TimestepEmbedder.mlp`, over 128 cosines and 128 sines. -/
structure TimestepEmbedder (c : RDTShape K) where
  mlp0 : Linear (Fin 128 ⊕ Fin 128) (Fin c.hiddenSize) K
  mlp2 : Linear (Fin c.hiddenSize) (Fin c.hiddenSize) K

structure RDT (c : RDTShape K) where
  tEmbedder : TimestepEmbedder c
  blocks : Fin c.depth → RDTBlock c
  registerTokens : Fin c.numRegisterTokens → Fin c.hiddenSize → K
  imgPosEmb : Fin c.maxImgLen → Fin c.hiddenSize → K
  actPosEmb : Fin c.maxActLen → Fin c.hiddenSize → K
  statePosEmb : Fin c.hiddenSize → K
  xPosEmb : c.Token → Fin c.hiddenSize → K
  actionEmbedder : Linear (Fin c.actionDim) (Fin c.hiddenSize) K
  actionDecoder : Linear (Fin c.hiddenSize) (Fin c.actionDim) K

end Parameters

variable {K : Type} [Field K] [LinearOrder K] [Elementary K] {c : RDTShape K}

omit [Elementary K] in
def modulate (x shift scale : Fin c.hiddenSize → K) : Fin c.hiddenSize → K :=
  x * (1 + scale) + shift

/-! ## Attention -/

/-- `scores.masked_fill(~mask, -1e9)`. -/
def maskedFill {n : ℕ} (scores : Fin n → K) (mask : Fin n → Bool) : Fin n → K := fun j =>
  if mask j then scores j else -1000000000

/-- The softmax of the filled scores, times the mask. -/
def maskedAttn {n : ℕ} (scores : Fin n → K) (mask : Fin n → Bool) : Fin n → K := fun j =>
  softmax (fun j => some (maskedFill scores mask j)) j * if mask j then 1 else 0

/-- The renormalized weights; a row without visible tokens gets none. -/
def maskedWeights {n : ℕ} (scores : Fin n → K) (mask : Fin n → Bool) : Fin n → K :=
  let denom := ∑ j, maskedAttn scores mask j
  fun j => if 0 < denom then maskedAttn scores mask j / max denom (1 / 1000000000000) else 0

namespace Attention

variable (a : Attention c)

def query (x : Fin c.hiddenSize → K) : c.QueryLane → K := fun (kv, rep, lane) =>
  rmsNorm c.normEps a.normQ (fun d => a.wq.mulVec x (kv, rep, d)) lane

def key (x : Fin c.hiddenSize → K) : c.KeyLane → K := fun (kv, lane) =>
  rmsNorm c.normEps a.normK (fun d => a.wkv.mulVec x ((kv, d), .key)) lane

def value (x : Fin c.hiddenSize → K) : c.KeyLane → K := fun lane => a.wkv.mulVec x (lane, .value)

/-- The score of one head, scaled by `attn_scale`. -/
def score (q : c.QueryLane → K) (k : c.KeyLane → K) (kv : Fin c.numKvHeads) (rep : Fin c.nRep) :
    K :=
  (∑ d, q (kv, rep, d) * k (kv, d)) * (1 / sqrt (c.headSize : K))

/-- `Attention.forward`. -/
def forward {ι : Type} [Fintype ι] (x : ι → Fin c.hiddenSize → K) : ι → Fin c.hiddenSize → K :=
  fun i => a.wo.mulVec fun (kv, rep, d) =>
    ∑ j, softmax (fun j => some (score (a.query (x i)) (a.key (x j)) kv rep)) j *
      a.value (x j) (kv, d)

/-- `CrossAttention.forward` for one token, with a mask. -/
def crossForward (x : Fin c.hiddenSize → K) (cond : Condition c) : Fin c.hiddenSize → K :=
  a.wo.mulVec fun (kv, rep, d) =>
    ∑ j, maskedWeights (fun j => score (a.query x) (a.key (cond.tokens j)) kv rep) cond.mask j *
      a.value (cond.tokens j) (kv, d)

end Attention

def FeedForward.forward (f : FeedForward c) (x : Fin c.hiddenSize → K) : Fin c.hiddenSize → K :=
  f.w2.mulVec fun j => silu (f.w1.mulVec x j) * f.w3.mulVec x j

/-! ## Blocks -/

namespace RDTBlock

variable (b : RDTBlock c)

def modulation (t : Fin c.hiddenSize ⊕ Fin c.hiddenSize → K) (m : Modulation) :
    Fin c.hiddenSize → K :=
  fun d => b.adaLNModulation.forward (fun i => silu (t i)) (m, d)

def forward {ι : Type} [Fintype ι] (x : ι → Fin c.hiddenSize → K)
    (t : Fin c.hiddenSize ⊕ Fin c.hiddenSize → K) (cond : Condition c) :
    ι → Fin c.hiddenSize → K :=
  let m := b.modulation t
  let normed := fun i => modulate (rmsNorm c.normEps b.attnNorm (x i)) (m .shiftAttn) (m .scaleAttn)
  let h := fun i => x i + m .gateAttn * b.attn.forward normed i
  let h := fun i => h i + m .gateCross * b.crossAttn.crossForward
    (modulate (rmsNorm c.normEps b.crossNorm (h i)) (m .shiftCross) (m .scaleCross))
    (cond.map (rmsNorm c.normEps b.condNorm))
  fun i => h i + m .gateMlp * b.ffn.forward
    (modulate (rmsNorm c.normEps b.ffnNorm (h i)) (m .shiftMlp) (m .scaleMlp))

end RDTBlock

/-! ## The head -/

/-- `timestep_embedding` with its 256 dimensions. -/
def timestepEmbedding (t : K) : Fin 128 ⊕ Fin 128 → K :=
  let freq : Fin 128 → K := fun i => exp (-log 10000 * (i.val : K) / 128)
  Sum.elim (fun i => cos (t * freq i)) (fun i => sin (t * freq i))

def TimestepEmbedder.forward (e : TimestepEmbedder c) (t : K) : Fin c.hiddenSize → K :=
  e.mlp2.forward fun i => silu (e.mlp0.forward (timestepEmbedding t) i)

namespace RDT

variable (r : RDT c)

omit [Elementary K] in
/-- The conditions that the blocks take in turn. An image condition is given
exactly when the head has positions for it. -/
def conditions (imgC : Option (Fin c.maxImgLen → Fin c.hiddenSize → K))
    (actC : Fin c.maxActLen → Fin c.hiddenSize → K) (imgMask : Fin c.maxImgLen → Bool)
    (actMask : Fin c.maxActLen → Bool) : List (Condition c) :=
  (imgC.map fun imgC =>
      { len := c.maxImgLen, tokens := imgC + r.imgPosEmb, mask := imgMask }).toList
    ++ [{ len := c.maxActLen, tokens := actC + r.actPosEmb, mask := actMask }]

omit [Elementary K] in
/-- `conds[i % num_conds]`. -/
def conditionAt (conds : List (Condition c))
    (h : 0 < conds.length) (i : ℕ) : Condition c :=
  conds.get ⟨i % conds.length, Nat.mod_lt i h⟩

omit [Elementary K] in
theorem conditionAt_mem {conds : List (Condition c)} (h : 0 < conds.length) (i : ℕ) :
    conditionAt conds h i ∈ conds :=
  List.get_mem _ _

/-- The blocks of the list `is`, in order. -/
def runBlocks (conds : List (Condition c)) (h : 0 < conds.length)
    (t : Fin c.hiddenSize ⊕ Fin c.hiddenSize → K) (is : List (Fin c.depth))
    (x : c.Token → Fin c.hiddenSize → K) : c.Token → Fin c.hiddenSize → K :=
  is.foldl (fun x i => (r.blocks i).forward x t (conditionAt conds h i)) x

omit [Elementary K] in
theorem conditions_length_pos (imgC : Option (Fin c.maxImgLen → Fin c.hiddenSize → K))
    (actC : Fin c.maxActLen → Fin c.hiddenSize → K) (imgMask : Fin c.maxImgLen → Bool)
    (actMask : Fin c.maxActLen → Bool) :
    0 < (r.conditions imgC actC imgMask actMask).length := by
  simp [conditions]

/-- `RDT.forward` with `embed_input` and `decode_output`. -/
def forward (x : Fin c.horizon → Fin c.actionDim → K) (t : K)
    (imgC : Option (Fin c.maxImgLen → Fin c.hiddenSize → K))
    (actC : Fin c.maxActLen → Fin c.hiddenSize → K) (stateC : Fin c.actionDim → K)
    (imgMask : Fin c.maxImgLen → Bool) (actMask : Fin c.maxActLen → Bool) :
    Fin c.horizon → Fin c.actionDim → K :=
  let t := Sum.elim (r.tEmbedder.forward t) (r.actionEmbedder.forward stateC + r.statePosEmb)
  let x := Sum.elim (fun i => r.actionEmbedder.forward (x i)) r.registerTokens + r.xPosEmb
  let conds := r.conditions imgC actC imgMask actMask
  let x := r.runBlocks conds (r.conditions_length_pos imgC actC imgMask actMask) t
    (List.finRange c.depth) x
  fun i => r.actionDecoder.forward (x (.inl i))

end RDT

/-! ## Masked condition tokens -/

theorem maskedWeights_masked {n : ℕ} (scores : Fin n → K) {mask : Fin n → Bool} {j : Fin n}
    (hj : mask j = false) : maskedWeights scores mask j = 0 := by
  have hattn : maskedAttn scores mask j = 0 := by
    simp [maskedAttn, hj]
  simp [maskedWeights, hattn]

omit [LinearOrder K] [Elementary K] in
theorem maskedFill_congr {n : ℕ} {scores scores' : Fin n → K} {mask : Fin n → Bool}
    (h : ∀ j, mask j = true → scores j = scores' j) :
    maskedFill scores mask = maskedFill scores' mask := by
  ext j
  unfold maskedFill
  split
  · rename_i hj
    exact h j hj
  · rfl

theorem maskedWeights_congr {n : ℕ} {scores scores' : Fin n → K} {mask : Fin n → Bool}
    (h : ∀ j, mask j = true → scores j = scores' j) :
    maskedWeights scores mask = maskedWeights scores' mask := by
  have hattn : maskedAttn scores mask = maskedAttn scores' mask := by
    unfold maskedAttn
    rw [maskedFill_congr h]
  unfold maskedWeights
  rw [hattn]

/-- The same condition but for the content of masked tokens. -/
def Condition.SameVisible (cond cond' : Condition c) : Prop :=
  ∃ tokens', cond' = { cond with tokens := tokens' } ∧
    ∀ j, cond.mask j = true → cond.tokens j = tokens' j

omit [Elementary K] in
theorem Condition.SameVisible.map {cond cond' : Condition c} (h : cond.SameVisible cond')
    (f : (Fin c.hiddenSize → K) → Fin c.hiddenSize → K) :
    (cond.map f).SameVisible (cond'.map f) := by
  rcases h with ⟨tokens', rfl, hvisible⟩
  refine ⟨_, rfl, ?_⟩
  intro j hj
  exact congrArg f (hvisible j hj)

theorem Attention.crossForward_visible (a : Attention c) (x : Fin c.hiddenSize → K)
    {cond cond' : Condition c} (h : cond.SameVisible cond') :
    a.crossForward x cond = a.crossForward x cond' := by
  rcases h with ⟨tokens', rfl, hvisible⟩
  unfold crossForward
  congr 1
  ext ⟨kv, rep, d⟩
  have hscores : ∀ j, cond.mask j = true →
      score (a.query x) (a.key (cond.tokens j)) kv rep =
        score (a.query x) (a.key (tokens' j)) kv rep := by
    intro j hj
    rw [hvisible j hj]
  have hweights := maskedWeights_congr hscores
  apply Finset.sum_congr rfl
  intro j _
  rw [hweights]
  cases hj : cond.mask j with
  | true => rw [hvisible j hj]
  | false => rw [maskedWeights_masked _ hj, zero_mul, zero_mul]

theorem RDTBlock.forward_visible (b : RDTBlock c) {ι : Type} [Fintype ι]
    (x : ι → Fin c.hiddenSize → K) (t : Fin c.hiddenSize ⊕ Fin c.hiddenSize → K)
    {cond cond' : Condition c} (h : cond.SameVisible cond') :
    b.forward x t cond = b.forward x t cond' := by
  simp only [forward, b.crossAttn.crossForward_visible _ (h.map (rmsNorm c.normEps b.condNorm))]

namespace RDT

variable (r : RDT c)

omit [Elementary K] in
theorem conditionAt_visible {conds conds' : List (Condition c)}
    (h : List.Forall₂ Condition.SameVisible conds conds') (hpos : 0 < conds.length)
    (hpos' : 0 < conds'.length) (i : ℕ) :
    (conditionAt conds hpos i).SameVisible (conditionAt conds' hpos' i) := by
  have hi : i % conds'.length < conds.length := (Nat.mod_lt i hpos').trans_eq h.length_eq.symm
  have hsame := h.get hi (Nat.mod_lt i hpos')
  have hidx : conditionAt conds hpos i = conds.get ⟨i % conds'.length, hi⟩ := by
    simp only [conditionAt, h.length_eq]
  rw [hidx]
  exact hsame

theorem runBlocks_visible {conds conds' : List (Condition c)}
    (h : List.Forall₂ Condition.SameVisible conds conds') (hpos : 0 < conds.length)
    (hpos' : 0 < conds'.length) (t : Fin c.hiddenSize ⊕ Fin c.hiddenSize → K)
    (is : List (Fin c.depth)) (x : c.Token → Fin c.hiddenSize → K) :
    r.runBlocks conds hpos t is x = r.runBlocks conds' hpos' t is x := by
  induction is generalizing x with
  | nil => rfl
  | cons i is ih =>
      have hblock := (r.blocks i).forward_visible x t (conditionAt_visible h hpos hpos' i)
      simp only [runBlocks, List.foldl_cons, hblock]
      exact ih _

omit [Elementary K] in
theorem conditions_visible {imgC imgC' : Option (Fin c.maxImgLen → Fin c.hiddenSize → K)}
    {actC actC' : Fin c.maxActLen → Fin c.hiddenSize → K} {imgMask : Fin c.maxImgLen → Bool}
    {actMask : Fin c.maxActLen → Bool}
    (himg : Option.Rel (fun i i' => ∀ j, imgMask j = true → i j = i' j) imgC imgC')
    (hact : ∀ j, actMask j = true → actC j = actC' j) :
    List.Forall₂ Condition.SameVisible (r.conditions imgC actC imgMask actMask)
      (r.conditions imgC' actC' imgMask actMask) := by
  have hactCond : Condition.SameVisible (c := c)
      { len := c.maxActLen, tokens := actC + r.actPosEmb, mask := actMask }
      { len := c.maxActLen, tokens := actC' + r.actPosEmb, mask := actMask } :=
    ⟨_, rfl, fun j hj => congrArg (· + r.actPosEmb j) (hact j hj)⟩
  cases himg with
  | none => exact .cons hactCond .nil
  | some himg =>
      refine .cons ⟨_, rfl, ?_⟩ (.cons hactCond .nil)
      intro j hj
      exact congrArg (· + r.imgPosEmb j) (himg j hj)

/-- **Masked conditions do not matter.** The output of the head is the same for
conditions that agree where their mask is true. -/
theorem forward_visible (x : Fin c.horizon → Fin c.actionDim → K) (t : K)
    {imgC imgC' : Option (Fin c.maxImgLen → Fin c.hiddenSize → K)}
    {actC actC' : Fin c.maxActLen → Fin c.hiddenSize → K} (stateC : Fin c.actionDim → K)
    {imgMask : Fin c.maxImgLen → Bool} {actMask : Fin c.maxActLen → Bool}
    (himg : Option.Rel (fun i i' => ∀ j, imgMask j = true → i j = i' j) imgC imgC')
    (hact : ∀ j, actMask j = true → actC j = actC' j) :
    r.forward x t imgC actC stateC imgMask actMask =
      r.forward x t imgC' actC' stateC imgMask actMask := by
  have hconds := r.conditions_visible himg hact
  simp only [forward, r.runBlocks_visible hconds (r.conditions_length_pos _ _ _ _)
    (r.conditions_length_pos _ _ _ _)]

end RDT

/-! ## A head that relays one lane

Values carry the first lane of a condition token, the gate of the cross attention
is open and all other gates are closed. The first lane of the output then tells
whether a visible condition token has anything in its first lane.
-/

section Relay

variable (c)

omit [Elementary K]

def RDTBlock.relay : RDTBlock c where
  attnNorm := 1
  attn := { wq := 0, wkv := 0, wo := 0, normQ := 1, normK := 1 }
  crossNorm := 1
  condNorm := 1
  crossAttn :=
    { wq := 0
      wkv := Matrix.single (c.keyLane, .value) c.lane 1
      wo := Matrix.single c.lane c.queryLane 1
      normQ := 1
      normK := 1 }
  ffnNorm := 1
  ffn := { w1 := 0, w2 := 0, w3 := 0 }
  adaLNModulation := { weight := 0, bias := fun (m, _) => if m = .gateCross then 1 else 0 }

def RDT.relay : RDT c where
  tEmbedder := { mlp0 := .zero _ _ K, mlp2 := .zero _ _ K }
  blocks := fun _ => .relay c
  registerTokens := 0
  imgPosEmb := 0
  actPosEmb := 0
  statePosEmb := 0
  xPosEmb := 0
  actionEmbedder := .zero _ _ K
  actionDecoder := .pick c.actionLane c.lane

end Relay

theorem RDTBlock.relay_modulation (t : Fin c.hiddenSize ⊕ Fin c.hiddenSize → K) (m : Modulation)
    (d : Fin c.hiddenSize) :
    (RDTBlock.relay c).modulation t m d = if m = .gateCross then 1 else 0 := by
  have hzero : (0 : Matrix (Modulation × Fin c.hiddenSize) (Fin c.hiddenSize ⊕ Fin c.hiddenSize)
      K).mulVec (fun i => silu (t i)) = 0 := Matrix.zero_mulVec _
  simp only [modulation, Linear.forward, relay, hzero, zero_add]

/-- The first lane of the cross attention mixes the first lanes of the visible
condition tokens. -/
theorem RDTBlock.relay_crossForward (x : Fin c.hiddenSize → K) (cond : Condition c) :
    (RDTBlock.relay c).crossAttn.crossForward x cond c.lane =
      ∑ j, maskedWeights (fun j => Attention.score ((RDTBlock.relay c).crossAttn.query x)
        ((RDTBlock.relay c).crossAttn.key (cond.tokens j)) c.queryLane.1 c.queryLane.2.1)
          cond.mask j * cond.tokens j c.lane := by
  have hvalue : ∀ y : Fin c.hiddenSize → K,
      (RDTBlock.relay c).crossAttn.value y c.keyLane = y c.lane := by
    intro y
    exact single_mulVec_same _ _ y
  refine (single_mulVec_same c.lane c.queryLane _).trans ?_
  apply Finset.sum_congr rfl
  intro j _
  exact congrArg _ (hvalue (cond.tokens j))

section Order

variable [IsStrictOrderedRing K] [LawfulElementary K]

theorem maskedAttn_nonneg {n : ℕ} (scores : Fin n → K) (mask : Fin n → Bool) (j : Fin n) :
    0 ≤ maskedAttn scores mask j := by
  apply mul_nonneg (softmax_nonneg _ j)
  split
  · exact zero_le_one
  · exact le_rfl

theorem maskedAttn_pos {n : ℕ} (scores : Fin n → K) {mask : Fin n → Bool} {j : Fin n}
    (hj : mask j = true) : 0 < maskedAttn scores mask j := by
  have hsoft : 0 < softmax (fun k => some (maskedFill scores mask k)) j := softmax_pos rfl
  rw [maskedAttn, if_pos hj, mul_one]
  exact hsoft

theorem maskedWeights_nonneg {n : ℕ} (scores : Fin n → K) (mask : Fin n → Bool) (j : Fin n) :
    0 ≤ maskedWeights scores mask j := by
  unfold maskedWeights
  split
  · rename_i hdenom
    exact div_nonneg (maskedAttn_nonneg scores mask j) (hdenom.le.trans (le_max_left _ _))
  · exact le_rfl

theorem maskedWeights_pos {n : ℕ} (scores : Fin n → K) {mask : Fin n → Bool} {j : Fin n}
    (hj : mask j = true) : 0 < maskedWeights scores mask j := by
  have hattn := maskedAttn_pos scores hj
  have hdenom : 0 < ∑ k, maskedAttn scores mask k :=
    Finset.sum_pos' (fun k _ => maskedAttn_nonneg scores mask k) ⟨j, Finset.mem_univ j, hattn⟩
  unfold maskedWeights
  rw [if_pos hdenom]
  exact div_pos hattn (hdenom.trans_le (le_max_left _ _))

/-- A block adds to the first lane a mix of the first lanes of the visible
condition tokens. -/
theorem RDTBlock.relay_forward {ι : Type} [Fintype ι] (x : ι → Fin c.hiddenSize → K)
    (t : Fin c.hiddenSize ⊕ Fin c.hiddenSize → K) (cond : Condition c) (i : ι) :
    ∃ w : Fin cond.len → K, (∀ j, 0 ≤ w j) ∧ (∀ j, cond.mask j = true → 0 < w j) ∧
      (RDTBlock.relay c).forward x t cond i c.lane =
        x i c.lane + ∑ j, w j * cond.tokens j c.lane := by
  have hnorm : ∀ j, ∃ d, 0 < d ∧
      rmsNorm c.normEps (1 : Fin c.hiddenSize → K) (cond.tokens j) c.lane =
        d * cond.tokens j c.lane := by
    intro j
    have hscale : 0 < (1 : Fin c.hiddenSize → K) c.lane := one_pos
    exact rmsNorm_lane c.normEps_nonneg hscale
  choose d hd hlane using hnorm
  let m := (RDTBlock.relay c).modulation t
  let h := fun i => x i + m .gateAttn * (RDTBlock.relay c).attn.forward
    (fun i => modulate (rmsNorm c.normEps 1 (x i)) (m .shiftAttn) (m .scaleAttn)) i
  let y := modulate (rmsNorm c.normEps 1 (h i)) (m .shiftCross) (m .scaleCross)
  let w := maskedWeights (fun j => Attention.score ((RDTBlock.relay c).crossAttn.query y)
    ((RDTBlock.relay c).crossAttn.key (rmsNorm c.normEps 1 (cond.tokens j)))
      c.queryLane.1 c.queryLane.2.1) cond.mask
  refine ⟨fun j => w j * d j, ?_, ?_, ?_⟩
  · intro j
    exact mul_nonneg (maskedWeights_nonneg _ _ j) (hd j).le
  · intro j hj
    exact mul_pos (maskedWeights_pos _ hj) (hd j)
  · have hcross := RDTBlock.relay_crossForward y (cond.map (rmsNorm c.normEps 1))
    have hgateAttn : m .gateAttn c.lane = 0 := RDTBlock.relay_modulation t _ _
    have hgateCross : m .gateCross c.lane = 1 := RDTBlock.relay_modulation t _ _
    have hgateMlp : m .gateMlp c.lane = 0 := RDTBlock.relay_modulation t _ _
    have hh : h i c.lane = x i c.lane := by
      simp only [h, Pi.add_apply, Pi.mul_apply, hgateAttn, zero_mul, add_zero]
    have hforward : (RDTBlock.relay c).forward x t cond i c.lane =
        h i c.lane + m .gateCross c.lane * (RDTBlock.relay c).crossAttn.crossForward y
          (cond.map (rmsNorm c.normEps 1)) c.lane + m .gateMlp c.lane * _ := rfl
    rw [hforward, hgateMlp, zero_mul, add_zero, hgateCross, one_mul, hh, hcross]
    congr 1
    apply Finset.sum_congr rfl
    intro j _
    exact (congrArg (w j * ·) (hlane j)).trans (mul_assoc _ _ _).symm

namespace RDT

/-- The first lane after the blocks of the list `is` grows by nothing but the
first lanes of the conditions. -/
theorem relay_runBlocks_zero {conds : List (Condition c)} (hpos : 0 < conds.length)
    (hzero : ∀ cond ∈ conds, ∀ j, cond.tokens j c.lane = 0)
    (t : Fin c.hiddenSize ⊕ Fin c.hiddenSize → K) (is : List (Fin c.depth))
    {x : c.Token → Fin c.hiddenSize → K} (hx : ∀ i, x i c.lane = 0) (i : c.Token) :
    (RDT.relay c).runBlocks conds hpos t is x i c.lane = 0 := by
  induction is generalizing x with
  | nil => exact hx i
  | cons b is ih =>
      apply ih
      intro i
      obtain ⟨w, -, -, heq⟩ := RDTBlock.relay_forward x t (conditionAt conds hpos b) i
      refine heq.trans ?_
      rw [hx i, zero_add]
      apply Finset.sum_eq_zero
      intro j _
      rw [hzero _ (conditionAt_mem hpos b) j, mul_zero]

/-- A nonnegative lane stays so, and it turns positive once a block meets a
condition with a visible positive token. -/
theorem relay_runBlocks_pos {conds : List (Condition c)} (hpos : 0 < conds.length)
    (hnonneg : ∀ cond ∈ conds, ∀ j, 0 ≤ cond.tokens j c.lane)
    (t : Fin c.hiddenSize ⊕ Fin c.hiddenSize → K) (is : List (Fin c.depth))
    {x : c.Token → Fin c.hiddenSize → K} (hx : ∀ i, 0 ≤ x i c.lane) (i : c.Token)
    (hsource : 0 < x i c.lane ∨ ∃ b ∈ is, ∃ j, (conditionAt conds hpos b).mask j = true ∧
      0 < (conditionAt conds hpos b).tokens j c.lane) :
    0 < (RDT.relay c).runBlocks conds hpos t is x i c.lane := by
  induction is generalizing x with
  | nil =>
      rcases hsource with hx' | ⟨b, hb, -⟩
      · exact hx'
      · cases hb
  | cons b is ih =>
      have hterm : ∀ j, 0 ≤ (conditionAt conds hpos b).tokens j c.lane :=
        hnonneg _ (conditionAt_mem hpos b)
      have hstep : ∀ k, x k c.lane ≤
          (RDTBlock.relay c).forward x t (conditionAt conds hpos b) k c.lane := by
        intro k
        obtain ⟨w, hw, -, heq⟩ := RDTBlock.relay_forward x t (conditionAt conds hpos b) k
        rw [heq]
        exact le_add_of_nonneg_right (Finset.sum_nonneg fun j _ => mul_nonneg (hw j) (hterm j))
      apply ih fun k => (hx k).trans (hstep k)
      rcases hsource with hx' | ⟨b', hb', j, hj, hlane⟩
      · exact .inl (hx'.trans_le (hstep i))
      · rcases List.mem_cons.mp hb' with rfl | htail
        · left
          obtain ⟨w, hw, hwpos, heq⟩ := RDTBlock.relay_forward x t (conditionAt conds hpos b') i
          refine (add_pos_of_nonneg_of_pos (hx i) ?_).trans_eq heq.symm
          exact sum_mul_pos hw hterm (hwpos j hj) hlane
        · exact .inr ⟨b', htail, j, hj, hlane⟩

variable {x : Fin c.horizon → Fin c.actionDim → K} {t : K}
  {imgC : Option (Fin c.maxImgLen → Fin c.hiddenSize → K)}
  {actC : Fin c.maxActLen → Fin c.hiddenSize → K} {stateC : Fin c.actionDim → K}
  {imgMask : Fin c.maxImgLen → Bool} {actMask : Fin c.maxActLen → Bool}

omit [Elementary K] [IsStrictOrderedRing K] [LawfulElementary K] in
/-- A property of the tokens of all conditions. -/
theorem relay_conditions {P : (Fin c.hiddenSize → K) → Prop}
    (himg : ∀ img, imgC = some img → ∀ j, P (img j)) (hact : ∀ j, P (actC j)) :
    ∀ cond ∈ (relay c).conditions imgC actC imgMask actMask, ∀ j, P (cond.tokens j) := by
  intro cond hcond j
  rcases List.mem_append.mp hcond with himgCond | hactCond
  · obtain ⟨img, himgC, rfl⟩ := Option.map_eq_some_iff.mp (Option.mem_toList.mp himgCond)
    exact (congrArg P (add_zero (img j))).mpr (himg img himgC j)
  · cases List.mem_singleton.mp hactCond
    exact (congrArg P (add_zero (actC j))).mpr (hact j)

omit [IsStrictOrderedRing K] [LawfulElementary K] in
theorem relay_forward_lane (i : Fin c.horizon) :
    (relay c).forward x t imgC actC stateC imgMask actMask i c.actionLane =
      (relay c).runBlocks ((relay c).conditions imgC actC imgMask actMask)
        ((relay c).conditions_length_pos imgC actC imgMask actMask)
        (Sum.elim ((relay c).tEmbedder.forward t)
          ((Linear.zero (Fin c.actionDim) (Fin c.hiddenSize) K).forward stateC + 0))
        (List.finRange c.depth)
        (Sum.elim (fun i => (Linear.zero (Fin c.actionDim) (Fin c.hiddenSize) K).forward (x i)) 0
          + 0)
        (.inl i) c.lane :=
  Linear.pick_forward _ _ _

omit [Elementary K] [IsStrictOrderedRing K] [LawfulElementary K] in
theorem relay_tokens (k : c.Token) :
    (Sum.elim (fun i => (Linear.zero (Fin c.actionDim) (Fin c.hiddenSize) K).forward (x i)) 0
      + 0 : c.Token → Fin c.hiddenSize → K) k c.lane = 0 := by
  cases k with
  | inl i => simp
  | inr i => simp

/-- Without anything in the first lane of the conditions, the first lane of the
output is zero. -/
theorem relay_forward_zero (himg : ∀ img, imgC = some img → ∀ j, img j c.lane = 0)
    (hact : ∀ j, actC j c.lane = 0) (i : Fin c.horizon) :
    (relay c).forward x t imgC actC stateC imgMask actMask i c.actionLane = 0 := by
  rw [relay_forward_lane]
  apply relay_runBlocks_zero
  · exact relay_conditions (P := fun v => v c.lane = 0) himg hact
  · exact relay_tokens

/-- With a visible positive token in each condition, the first lane of the output
is positive. -/
theorem relay_forward_pos (hdepth : 0 < c.depth)
    (himg : ∀ img, imgC = some img → ∀ j, 0 ≤ img j c.lane) (hact : ∀ j, 0 ≤ actC j c.lane)
    (himgPos : ∀ img, imgC = some img → ∃ j, imgMask j = true ∧ 0 < img j c.lane)
    (hactPos : ∃ j, actMask j = true ∧ 0 < actC j c.lane) (i : Fin c.horizon) :
    0 < (relay c).forward x t imgC actC stateC imgMask actMask i c.actionLane := by
  rw [relay_forward_lane]
  apply relay_runBlocks_pos
  · exact relay_conditions (P := fun v => 0 ≤ v c.lane) himg hact
  · exact fun k => (relay_tokens k).ge
  · right
    refine ⟨⟨0, hdepth⟩, List.mem_finRange _, ?_⟩
    -- the first block takes the first condition
    cases imgC with
    | none =>
        rcases hactPos with ⟨j, hj, hlane⟩
        exact ⟨j, hj, hlane.trans_eq (congrFun (add_zero (actC j)).symm c.lane)⟩
    | some img =>
        obtain ⟨j, hj, hlane⟩ := himgPos img rfl
        exact ⟨j, hj, hlane.trans_eq (congrFun (add_zero (img j)).symm c.lane)⟩

end RDT

end Order

end P2PRdt.Policy

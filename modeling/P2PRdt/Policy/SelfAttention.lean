import P2PRdt.Lib.AdditiveLayers
import P2PRdt.Lib.Network
import P2PRdt.Policy.CausalTransformer

/-!
# A layer of the policy transformer

`TransformerSelfAttentionLayer.forward`: normalization, self attention with
rotary positions and sinks, a residual, and a gated feed-forward network with
another residual. `TransformerLayer.attentionLayer` is the layer as the masked
transformer of `CausalTransformer` runs it.

`relay` is a choice of weights with which a layer copies one lane of every key
it sees into the token: what the mask lets through can then be read off.
-/

namespace P2PRdt.Policy

open Lib Elementary

/-- The heads of the transformer. `k_norm` has the width of the queries, so
there are as many key heads as query heads, and the rotary embedding asks for an
even `embed_size_per_head`, here `rotaryPairs` times two. -/
structure TransformerConfig where
  nHead : ℕ
  rotaryPairs : ℕ
  nHead_pos : 0 < nHead
  rotaryPairs_pos : 0 < rotaryPairs

namespace TransformerConfig

variable (c : TransformerConfig)

def embedSizePerHead : ℕ := c.rotaryPairs * 2

def embedDim : ℕ := c.nHead * c.embedSizePerHead

/-- The width of the feed-forward network of `PackedSwiGLUFFN` with
`hidden_dim = 4 * embed_dim` and `multiple_of = 8`. -/
def ffnHiddenDim : ℕ := 8 * ((2 * (4 * c.embedDim) / 3 + 7) / 8)

/-- A lane of one head, as the rotary embedding pairs them. -/
abbrev HeadLane := Fin c.nHead × Fin c.rotaryPairs × Fin 2

theorem embedDim_pos : 0 < c.embedDim :=
  Nat.mul_pos c.nHead_pos (Nat.mul_pos c.rotaryPairs_pos two_pos)

/-- The first lane of a token. -/
def lane : Fin c.embedDim := ⟨0, c.embedDim_pos⟩

/-- The first lane of the first head. -/
def headLane : c.HeadLane := (⟨0, c.nHead_pos⟩, ⟨0, c.rotaryPairs_pos⟩, 0)

end TransformerConfig

variable {c : TransformerConfig} {K : Type}

/-- Key and value of a token, over all heads. -/
structure KeyValue (c : TransformerConfig) (K : Type) where
  key : c.HeadLane → K
  value : c.HeadLane → K

/-- The parameters of `SelfAttention`. The rows of `c_attn` are the queries, the
keys and the values. -/
structure SelfAttention (c : TransformerConfig) (nKvSinkTokens : ℕ) (K : Type) where
  cAttn : Matrix (c.HeadLane ⊕ c.HeadLane ⊕ c.HeadLane) (Fin c.embedDim) K
  cProj : Matrix (Fin c.embedDim) c.HeadLane K
  qNorm : c.HeadLane → K
  kNorm : c.HeadLane → K
  sinks : Fin nKvSinkTokens → KeyValue c K

/-- The parameters of `PackedSwiGLUFFN`; `w13` holds two matrices. -/
structure PackedSwiGLUFFN (c : TransformerConfig) (K : Type) where
  w13 : Matrix (Fin c.ffnHiddenDim ⊕ Fin c.ffnHiddenDim) (Fin c.embedDim) K
  w2 : Matrix (Fin c.embedDim) (Fin c.ffnHiddenDim) K

structure TransformerLayer (c : TransformerConfig) (nKvSinkTokens : ℕ) (K : Type) where
  selfAttention : SelfAttention c nKvSinkTokens K
  ffn : PackedSwiGLUFFN c K
  selfAttentionNorm : Fin c.embedDim → K
  ffnNorm : Fin c.embedDim → K

/-- What dropout keeps of a token; `none` outside of training. -/
abbrev DropoutDraw (c : TransformerConfig) := Option (Fin c.embedDim → Bool)

variable [Field K]

/-- `nn.Dropout` with the default rate of `TransformerConfig`. -/
def residualDropout (draw : DropoutDraw c) (y : Fin c.embedDim → K) : Fin c.embedDim → K :=
  match draw with
  | none => y
  | some keep => fun i => if keep i then y i / (1 - 1 / (10 : ℕ)) else 0

/-- Nothing is dropped. -/
def KeepsAll (draw : DropoutDraw c) : Prop := ∀ keep, draw = some keep → ∀ i, keep i = true

theorem residualDropout_lane [LinearOrder K] [IsStrictOrderedRing K] {draw : DropoutDraw c}
    (h : KeepsAll draw) :
    ∃ d : K, 0 < d ∧ ∀ y i, residualDropout draw y i = d * y i := by
  cases draw with
  | none => exact ⟨1, one_pos, fun y i => (one_mul (y i)).symm⟩
  | some keep =>
      refine ⟨(1 - 1 / (10 : ℕ))⁻¹, by norm_num, ?_⟩
      intro y i
      have hkept : residualDropout (some keep) y i = y i / (1 - 1 / (10 : ℕ)) :=
        if_pos (h keep rfl i)
      rw [hkept, div_eq_inv_mul]

variable [Elementary K]

/-- The `norm_eps` of the transformer layers. -/
def transformerNormEps : K := 1 / 100000

omit [Elementary K] in
theorem transformerNormEps_nonneg [LinearOrder K] [IsStrictOrderedRing K] :
    0 ≤ (transformerNormEps : K) := by
  unfold transformerNormEps
  positivity

/-- `RotaryPositionalEmbeddings.forward` for one head of the token at `pos`, when its
table has a row for `pos` (`ropeForward` reads the table). -/
def rotaryEmbedding (pos : ℕ) (x : Fin c.rotaryPairs × Fin 2 → K) :
    Fin c.rotaryPairs × Fin 2 → K := fun (i, side) =>
  let theta : K := 1 / pow ((10000 : ℕ) : K) ((2 * i.val : ℕ) / (c.embedSizePerHead : K))
  let angle := pos * theta
  if side = 0 then x (i, 0) * cos angle - x (i, 1) * sin angle
  else x (i, 1) * cos angle + x (i, 0) * sin angle

omit [Elementary K] in
/-- `RotaryPositionalEmbeddings.forward` for all heads of a token, from the rows of its
table; `none` is the error of a position that has no row. -/
def ropeForward (ropeCache : List (Fin c.rotaryPairs → K × K)) (inputPos : ℕ)
    (x : c.HeadLane → K) : Option (c.HeadLane → K) :=
  ropeCache[inputPos]?.map fun row lane =>
    let head := lane.1
    let i := lane.2.1
    if lane.2.2 = 0 then x (head, i, 0) * (row i).1 - x (head, i, 1) * (row i).2
    else x (head, i, 1) * (row i).1 + x (head, i, 0) * (row i).2

namespace SelfAttention

variable {n : ℕ} (a : SelfAttention c n K)

def query (pos : ℕ) (h : Fin c.embedDim → K) : c.HeadLane → K := fun (head, lane) =>
  let q := rmsNorm transformerNormEps a.qNorm fun i => a.cAttn.mulVec h (.inl i)
  rotaryEmbedding pos (fun l => q (head, l)) lane

def keyValue (pos : ℕ) (h : Fin c.embedDim → K) : KeyValue c K where
  key := fun (head, lane) =>
    let k := rmsNorm transformerNormEps a.kNorm fun i => a.cAttn.mulVec h (.inr (.inl i))
    rotaryEmbedding pos (fun l => k (head, l)) lane
  value := fun i => a.cAttn.mulVec h (.inr (.inr i))

/-- The scores of a query against the keys it sees. -/
def scores (q : c.HeadLane → K) (view : List (Option (KeyValue c K))) (head : Fin c.nHead) :
    Fin view.length → Option K := fun i =>
  (view.get i).map fun kv =>
    (∑ lane, q (head, lane) * kv.key (head, lane)) * (1 / sqrt (c.embedSizePerHead : K))

/-- `flex_attention`, over all heads. -/
def attend (q : c.HeadLane → K) (view : List (Option (KeyValue c K))) : c.HeadLane → K :=
  fun (head, lane) =>
    ∑ i, softmax (scores q view head) i * (view.get i).elim 0 fun kv => kv.value (head, lane)

/-- `SelfAttention.forward` for the token at `pos`. -/
def forward (draw : DropoutDraw c) (pos : ℕ) (h : Fin c.embedDim → K)
    (view : List (Option (KeyValue c K))) : Fin c.embedDim → K :=
  residualDropout draw (a.cProj.mulVec (attend (a.query pos h) view))

end SelfAttention

def PackedSwiGLUFFN.forward (f : PackedSwiGLUFFN c K) (x : Fin c.embedDim → K) :
    Fin c.embedDim → K :=
  let x13 := f.w13.mulVec x
  f.w2.mulVec fun j => silu (x13 (.inl j)) * x13 (.inr j)

namespace TransformerLayer

variable {n : ℕ} (l : TransformerLayer c n K)

def keyValue (pos : ℕ) (x : Fin c.embedDim → K) : KeyValue c K :=
  l.selfAttention.keyValue pos (rmsNorm transformerNormEps l.selfAttentionNorm x)

/-- `TransformerSelfAttentionLayer.forward` for the token at `pos`. -/
def forward (draw : ℕ → DropoutDraw c) (pos : ℕ) (x : Fin c.embedDim → K)
    (view : List (Option (KeyValue c K))) : Fin c.embedDim → K :=
  let h := rmsNorm transformerNormEps l.selfAttentionNorm x
  let h2 := l.selfAttention.forward (draw pos) pos h view + x
  h2 + l.ffn.forward (rmsNorm transformerNormEps l.ffnNorm h2)

/-- The layer with the history length that `_assign_layer_masks` gives it. -/
def attentionLayer {cfg : PolicyConfig} (l : TransformerLayer c cfg.nKvSinkTokens K)
    (historyLen : ℕ) (draw : ℕ → DropoutDraw c) :
    AttentionLayer cfg (Fin c.embedDim → K) (KeyValue c K) where
  attentionHistoryLen := historyLen
  sinks := l.selfAttention.sinks
  project := l.keyValue
  update := l.forward draw

end TransformerLayer

/-! ## A layer that relays one lane -/

/-- Values carry the first lane of a token, the projection adds it back, and all
other parts are off. -/
def TransformerLayer.relay (c : TransformerConfig) (n : ℕ) (K : Type) [Field K] :
    TransformerLayer c n K where
  selfAttention :=
    { cAttn := Matrix.single (.inr (.inr c.headLane)) c.lane 1
      cProj := Matrix.single c.lane c.headLane 1
      qNorm := 1
      kNorm := 1
      sinks := fun _ => { key := 0, value := 0 } }
  ffn := { w13 := 0, w2 := 0 }
  selfAttentionNorm := 1
  ffnNorm := 1

namespace TransformerLayer

variable {n : ℕ}

theorem relay_value (pos : ℕ) (x : Fin c.embedDim → K) :
    ((relay c n K).keyValue pos x).value c.headLane = rmsNorm transformerNormEps 1 x c.lane := by
  have h := single_mulVec_same (.inr (.inr c.headLane) : c.HeadLane ⊕ c.HeadLane ⊕ c.HeadLane)
    c.lane (rmsNorm (transformerNormEps (K := K)) 1 x)
  exact h

theorem relay_attention_lane (pos : ℕ) (h : Fin c.embedDim → K)
    (view : List (Option (KeyValue c K))) :
    (relay c n K).selfAttention.cProj.mulVec
        (SelfAttention.attend ((relay c n K).selfAttention.query pos h) view) c.lane =
      ∑ i, softmax (SelfAttention.scores ((relay c n K).selfAttention.query pos h) view
        c.headLane.1) i * (view.get i).elim 0 fun kv => kv.value c.headLane :=
  single_mulVec_same _ _ _

theorem relay_forward_lane (draw : ℕ → DropoutDraw c) (pos : ℕ) (x : Fin c.embedDim → K)
    (view : List (Option (KeyValue c K))) :
    (relay c n K).forward draw pos x view c.lane =
      (relay c n K).selfAttention.forward (draw pos) pos (rmsNorm transformerNormEps 1 x) view
        c.lane + x c.lane := by
  have hffn : ∀ y, (relay c n K).ffn.forward y = 0 := fun y => Matrix.zero_mulVec _
  rw [forward, hffn, add_zero]
  rfl

variable [LinearOrder K] [IsStrictOrderedRing K] [LawfulElementary K]

/-- The relaying layer adds up what a token sees. -/
theorem relay_adds {cfg : PolicyConfig} (historyLen : ℕ) {draw : ℕ → DropoutDraw c}
    (hdraw : ∀ pos, KeepsAll (draw pos)) :
    (((relay c cfg.nKvSinkTokens K).attentionLayer historyLen draw).masked).Adds
      (fun x => x c.lane) (fun kv => kv.value c.headLane) where
  sinks := by
    intro kv hkv
    obtain ⟨i, rfl⟩ := (List.mem_ofFn' _ _).mp hkv
    rfl
  project := by
    intro pos x
    have hscale : 0 < (1 : Fin c.embedDim → K) c.lane := one_pos
    obtain ⟨d, hd, hnorm⟩ := rmsNorm_lane transformerNormEps_nonneg (x := x) hscale
    exact ⟨d, hd, (relay_value pos x).trans hnorm⟩
  update := by
    intro pos x view
    obtain ⟨d, hd, hdrop⟩ := residualDropout_lane (K := K) (hdraw pos)
    let h := rmsNorm (transformerNormEps (K := K)) 1 x
    let q := (relay c cfg.nKvSinkTokens K).selfAttention.query pos h
    refine ⟨fun i => d * softmax (SelfAttention.scores q view c.headLane.1) i, ?_, ?_, ?_⟩
    · intro i
      exact mul_nonneg hd.le (softmax_nonneg _ i)
    · intro i hi
      obtain ⟨kv, hkv⟩ := Option.isSome_iff_exists.mp hi
      apply mul_pos hd
      apply softmax_pos
      rw [SelfAttention.scores, hkv, Option.map_some]
    · have hforward := relay_forward_lane (K := K) (n := cfg.nKvSinkTokens) draw pos x view
      refine hforward.trans ?_
      rw [SelfAttention.forward, hdrop, relay_attention_lane, add_comm, Finset.mul_sum]
      simp only [mul_assoc]
      rfl

end TransformerLayer

end P2PRdt.Policy

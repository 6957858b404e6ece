import P2PRdt.Policy.Rdt
import P2PRdt.Policy.SelfAttention

/-!
# The stage 3 loss

`PolicyModelTrainer._calculate_loss` from the frames and the clean actions to
the denoising prediction and its squared error. The clean actions enter twice:
as the action tokens of the policy transformer, and as `state_actions`, whose
first row may condition the RDT head. They are two arguments here, so that one
can change alone; `calculateLoss` is called with the same actions in both.

One sample of the batch is modelled. Everything drawn at random is an argument:
the noisy actions with their targets, what dropout keeps and the noise on the
action condition.
-/

namespace P2PRdt.Policy

open Lib Elementary

structure Stage3Config (K : Type) [Zero K] [LE K] where
  nSeqTimesteps : ℕ
  nImgTokens : ℕ
  textTokenSize : ℕ
  textTokenizerEmbedDim : ℕ
  nThinkingTokens : ℕ
  nKvSinkTokens : ℕ
  transformer : TransformerConfig
  attentionHistoryLen : List ℕ
  nActions : ℕ
  rdt : RDTConfig K
  nImgTokens_pos : 0 < nImgTokens
  nActions_pos : 0 < nActions

namespace Stage3Config

variable {K : Type} [Zero K] [LE K] (cfg : Stage3Config K)

/-- The policy transformer gets one action token for each step. -/
def policy : PolicyConfig where
  nSteps := cfg.nSeqTimesteps
  nImgTokens := cfg.nImgTokens
  textTokenSize := cfg.textTokenSize
  nThinkingTokens := cfg.nThinkingTokens
  nActionTokens := 1
  nKvSinkTokens := cfg.nKvSinkTokens

/-- The head gets one action condition token and the image tokens of each step. -/
def rdtShape : RDTShape K where
  toRDTConfig := cfg.rdt
  horizon := cfg.nSeqTimesteps
  actionDim := cfg.nActions
  maxImgLen := cfg.nSeqTimesteps * cfg.nImgTokens
  maxActLen := cfg.nSeqTimesteps
  actionDim_pos := cfg.nActions_pos

abbrev Step := Fin cfg.nSeqTimesteps

/-- A token of the policy transformer. -/
abbrev PolicyToken := Fin cfg.transformer.embedDim → K

/-- A token of the RDT head. -/
abbrev RDTToken := Fin cfg.rdt.hiddenSize → K

abbrev Action := Fin cfg.nActions → K

end Stage3Config

section Parameters

variable {K : Type} [Zero K] [LE K]

structure Stage3Weights (cfg : Stage3Config K) where
  imageTokenizer : (cfg.Step → List K) → cfg.Step → Fin cfg.nImgTokens → cfg.PolicyToken
  textEmbedMlp : Matrix (Fin cfg.transformer.embedDim) (Fin cfg.textTokenizerEmbedDim) K
  imgPosTokens : Fin cfg.nImgTokens → cfg.PolicyToken
  actionPosTokens : Fin 1 → cfg.PolicyToken
  textPosTokens : Fin cfg.textTokenSize → cfg.PolicyToken
  textEmbeddingForNoTextInput : Fin cfg.textTokenSize → cfg.PolicyToken
  thinkingPosTokens : Fin cfg.nThinkingTokens → cfg.PolicyToken
  actionOutToken : cfg.PolicyToken
  layers : Fin cfg.attentionHistoryLen.length →
    TransformerLayer cfg.transformer cfg.nKvSinkTokens K
  robotActionInProj : Linear (Fin cfg.nActions) (Fin cfg.transformer.embedDim) K
  policyActionConditionToRdtProj : Linear (Fin cfg.transformer.embedDim) (Fin cfg.rdt.hiddenSize) K
  imageConditionToRdtProj : Linear (Fin cfg.transformer.embedDim) (Fin cfg.rdt.hiddenSize) K
  nullStateCondition : cfg.Action
  rdtPolicyHead : RDT cfg.rdtShape

/-- The random draws of one pass; outside of training there is neither dropout
nor condition noise. -/
structure Stage3Draws (cfg : Stage3Config K) where
  dropout : Fin cfg.attentionHistoryLen.length → ℕ → DropoutDraw cfg.transformer
  conditionNoise : Option (cfg.Step → cfg.RDTToken)

/-- The masks of a sample: the entries of the loss, from `masked_labels`, and the
frames that are not padding. -/
structure LossMasks (cfg : Stage3Config K) where
  labelMask : cfg.Step → Fin cfg.nActions → Bool
  validFrameMask : cfg.Step → Bool

structure Stage3Batch (cfg : Stage3Config K) extends LossMasks cfg where
  frames : cfg.Step → List UInt8
  textTokensEmbed : cfg.Step → Fin cfg.textTokenSize → Fin cfg.textTokenizerEmbedDim → K

/-- What `_sample_noisy_action_sequence` returns. -/
structure NoisySample (cfg : Stage3Config K) where
  noisyActions : cfg.Step → cfg.Action
  actionTargets : cfg.Step → cfg.Action
  timestep : K
  actionLossWeight : K

structure Stage3Loss (cfg : Stage3Config K) where
  actionPreds : cfg.Step → cfg.Action
  robotActionMse : K

/-- The mask of the conditions: without a given mask it is the valid steps. -/
def conditionMask {cfg : Stage3Config K} (validStepMask : cfg.Step → Bool)
    (conditionStepMask : Option (cfg.Step → Bool)) : cfg.Step → Bool :=
  match conditionStepMask with
  | none => validStepMask
  | some conditionStepMask => fun i => conditionStepMask i && validStepMask i

/-- `masked_labels["mask"].bool().any(dim=-1)`: the supervised steps. -/
def LossMasks.conditionStepMask {cfg : Stage3Config K} (m : LossMasks cfg) : cfg.Step → Bool :=
  fun i => decide (∃ j, m.labelMask i j = true)

end Parameters

variable {K : Type} [Field K] [LinearOrder K] [Elementary K] {cfg : Stage3Config K}

/-- `_normalize_frames`. -/
def normalizeFrames (frames : cfg.Step → List UInt8) : cfg.Step → List K := fun i =>
  (frames i).map fun pixel => (pixel.toNat : K) / 255

/-- A projection between the widths, the identity when they are equal. -/
def conditionProj (l : Linear (Fin cfg.transformer.embedDim) (Fin cfg.rdt.hiddenSize) K)
    (x : cfg.PolicyToken) : cfg.RDTToken :=
  if h : cfg.transformer.embedDim = cfg.rdt.hiddenSize then fun i => x (i.cast h.symm)
  else l.forward x

/-- `_maybe_add_noise_to_action_condition` for one token. -/
def maybeAddNoiseToActionCondition (noise : Option cfg.RDTToken) (x : cfg.RDTToken) :
    cfg.RDTToken :=
  match noise with
  | none => x
  | some noise =>
      if cfg.rdt.actionConditionNoiseStd ≤ 0 then x
      else
        let tokenRms := sqrt ((∑ i, x i ^ 2) / (cfg.rdt.hiddenSize : K) + 1 / 1000000)
        fun i => x i + noise i * (tokenRms * cfg.rdt.actionConditionNoiseStd)

namespace Stage3Weights

variable (w : Stage3Weights cfg) (d : Stage3Draws cfg)

/-- Layer `i` with its history length from the configuration. -/
def attentionLayer (i : Fin cfg.attentionHistoryLen.length) :
    AttentionLayer cfg.policy cfg.PolicyToken (KeyValue cfg.transformer K) :=
  (w.layers i : TransformerLayer _ cfg.policy.nKvSinkTokens K).attentionLayer
    (cfg.attentionHistoryLen.get i) (d.dropout i)

/-- The parameters of `PolicyCausalTransformer`. -/
def bcTransformer : PolicyWeights cfg.policy (Fin cfg.textTokenizerEmbedDim → K) cfg.PolicyToken
    (KeyValue cfg.transformer K) where
  textEmbedMlp := w.textEmbedMlp.mulVec
  imgPosTokens := w.imgPosTokens
  actionPosTokens := w.actionPosTokens
  textPosTokens := w.textPosTokens
  textEmbeddingForNoTextInput := w.textEmbeddingForNoTextInput
  thinkingPosTokens := w.thinkingPosTokens
  actionOutToken := w.actionOutToken
  layers := List.ofFn (w.attentionLayer d)

/-- `action_in_to_tokens`: the whole action is one token. -/
def actionInToTokens (actionIn : cfg.Step → cfg.Action) : cfg.Step → Fin 1 → cfg.PolicyToken :=
  fun i _ => w.robotActionInProj.forward (actionIn i)

def policyInput (batch : Stage3Batch cfg) (actionsIn : cfg.Step → cfg.Action) :
    PolicyInput cfg.policy (Fin cfg.textTokenizerEmbedDim → K) cfg.PolicyToken where
  imgTokens := w.imageTokenizer (normalizeFrames batch.frames)
  actionEmbeddingsIn := w.actionInToTokens actionsIn
  textTokensEmbed := batch.textTokensEmbed

/-- The condition tokens of the action-out tokens, one for each step. -/
def actionCondition (actionOutTokens : cfg.Step → cfg.PolicyToken) : cfg.Step → cfg.RDTToken :=
  fun i => maybeAddNoiseToActionCondition (d.conditionNoise.map (· i))
    (conditionProj w.policyActionConditionToRdtProj (actionOutTokens i))

/-- The condition tokens of the images, flattened over the steps. -/
def imageCondition (imageTokens : cfg.Step → Fin cfg.nImgTokens → cfg.PolicyToken) :
    Option (Fin (cfg.nSeqTimesteps * cfg.nImgTokens) → cfg.RDTToken) :=
  if cfg.rdt.useImageCondition then
    some fun k =>
      let ij := finProdFinEquiv.symm k
      conditionProj w.imageConditionToRdtProj (imageTokens ij.1 ij.2)
  else none

def stateCondition (stateActions : cfg.Step → cfg.Action) : cfg.Action :=
  if cfg.rdt.useStateCondition then
    -- there is a first action whenever there is a step to predict
    if h : 0 < cfg.nSeqTimesteps then stateActions ⟨0, h⟩ else w.nullStateCondition
  else w.nullStateCondition

/-- `_predict_rdt_denoising_target` with the conditions of
`_build_rdt_conditions`. -/
def predictRdtDenoisingTarget (noisyActions : cfg.Step → cfg.Action) (timestep : K)
    (actionOutTokens : cfg.Step → cfg.PolicyToken)
    (imageTokens : cfg.Step → Fin cfg.nImgTokens → cfg.PolicyToken)
    (stateActions : cfg.Step → cfg.Action) (validStepMask : cfg.Step → Bool)
    (conditionStepMask : Option (cfg.Step → Bool)) : cfg.Step → cfg.Action :=
  let mask := conditionMask validStepMask conditionStepMask
  w.rdtPolicyHead.forward noisyActions timestep (w.imageCondition imageTokens)
    (w.actionCondition d actionOutTokens) (w.stateCondition stateActions)
    (fun k => mask (finProdFinEquiv.symm k).1) mask

/-- `action_out_tokens` of the transformer; every step has one. -/
def actionOutTokens (batch : Stage3Batch cfg) (actionsIn : cfg.Step → cfg.Action) :
    cfg.Step → cfg.PolicyToken :=
  fun i => ((w.bcTransformer d).actionOutTokens (w.policyInput batch actionsIn) i).getD 0

/-- `image_out_tokens` of the transformer. -/
def imageOutTokens (batch : Stage3Batch cfg) (actionsIn : cfg.Step → cfg.Action) :
    cfg.Step → Fin cfg.nImgTokens → cfg.PolicyToken :=
  fun i j => ((w.bcTransformer d).imageOutTokens (w.policyInput batch actionsIn) i).getD j 0

/-- `_calculate_loss`. The dense transformer has no auxiliary losses, so the loss
is the squared error alone. -/
def calculateLoss (batch : Stage3Batch cfg) (sample : NoisySample cfg)
    (actionsIn stateActions : cfg.Step → cfg.Action) : Stage3Loss cfg :=
  let actionPreds := w.predictRdtDenoisingTarget d sample.noisyActions sample.timestep
    (w.actionOutTokens d batch actionsIn) (w.imageOutTokens d batch actionsIn) stateActions
    batch.validFrameMask (some batch.conditionStepMask)
  let masked := fun (x : cfg.Step → cfg.Action) i j => if batch.labelMask i j then x i j else 0
  let actionMask : cfg.Step → cfg.Action := masked fun _ _ => 1
  let squaredError := fun i j =>
    (masked actionPreds i j - masked sample.actionTargets i j) ^ 2 * sample.actionLossWeight
  let denom := max (∑ i, ∑ j, actionMask i j) 1
  { actionPreds
    robotActionMse := (∑ i, ∑ j, squaredError i j * actionMask i j) / denom }

end Stage3Weights

end P2PRdt.Policy

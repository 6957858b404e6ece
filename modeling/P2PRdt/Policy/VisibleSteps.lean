import P2PRdt.Policy.Stage3

/-!
# What the visible steps have seen

The head reads the conditions of the visible steps, and the condition of a step
is made of the frames and texts up to the step and of the actions before it. So
of two inputs that agree there the head makes the same prediction: an image
tokenizer that takes each frame by itself is all that is asked of the weights.
-/

namespace P2PRdt.Policy

open Lib

variable {K : Type} [Field K] [LinearOrder K] [Elementary K] {cfg : Stage3Config K}

/-- The embeddings of a text, one for each token. -/
abbrev Stage3Config.TextEmbedding (cfg : Stage3Config K) :=
  Fin cfg.textTokenSize → Fin cfg.textTokenizerEmbedDim → K

/-- What the policy transformer reads, the same up to step `s`. -/
structure SeenAlike (batch batch' : Stage3Batch cfg) (actionsIn actionsIn' : cfg.Step → cfg.Action)
    (s : cfg.Step) : Prop where
  frames : ∀ i ≤ s, batch.frames i = batch'.frames i
  text : ∀ i ≤ s, batch.textTokensEmbed i = batch'.textTokensEmbed i
  actions : ∀ i < s, actionsIn i = actionsIn' i

namespace Stage3Weights

variable (w : Stage3Weights cfg) (d : Stage3Draws cfg)

omit [Elementary K] in
/-- The image tokens of a step are those of its frame. -/
def TokenizesFrames : Prop :=
  ∀ (frames frames' : cfg.Step → List K) (i : cfg.Step), frames i = frames' i →
    w.imageTokenizer frames i = w.imageTokenizer frames' i

variable {w} {batch batch' : Stage3Batch cfg} {actionsIn actionsIn' : cfg.Step → cfg.Action}

omit [Elementary K] in
theorem agreeUpTo_of_seenAlike (hw : w.TokenizesFrames) {s : cfg.Step}
    (h : SeenAlike batch batch' actionsIn actionsIn' s) :
    AgreeUpTo (show Fin cfg.policy.nSteps from s) (w.policyInput batch actionsIn)
      (w.policyInput batch' actionsIn') where
  img := by
    intro i hi
    apply hw
    show (batch.frames i).map _ = (batch'.frames i).map _
    rw [h.frames i hi]
  text := h.text
  actions := by
    intro i hi
    show (fun _ => w.robotActionInProj.forward (actionsIn i)) = fun _ => _
    rw [h.actions i hi]
    rfl

/-- The condition tokens of a step come from what the transformer has seen. -/
theorem outputs_seenAlike (hw : w.TokenizesFrames) {s : cfg.Step}
    (h : SeenAlike batch batch' actionsIn actionsIn' s) :
    w.actionOutTokens d batch actionsIn s = w.actionOutTokens d batch' actionsIn' s ∧
      w.imageOutTokens d batch actionsIn s = w.imageOutTokens d batch' actionsIn' s := by
  obtain ⟨hact, himg⟩ := (w.bcTransformer d).outputs_congr
    ((w.bcTransformer d).transformer_agree (agreeUpTo_of_seenAlike hw h)) fun j hj =>
      cfg.policy.dependsOn_of_place hj
  constructor
  · exact congrArg (·.getD 0) hact
  · ext j
    exact congrFun (congrArg (·.getD j 0) himg) _

/-- **Only the visible steps count.** The prediction is the same for condition
tokens that agree at the visible steps. -/
theorem predict_visible {actionOutTokens actionOutTokens' : cfg.Step → cfg.PolicyToken}
    {imageTokens imageTokens' : cfg.Step → Fin cfg.nImgTokens → cfg.PolicyToken}
    {stateActions stateActions' : cfg.Step → cfg.Action} {validStepMask : cfg.Step → Bool}
    {conditionStepMask : Option (cfg.Step → Bool)} (noisyActions : cfg.Step → cfg.Action)
    (timestep : K)
    (hvisible : ∀ s, conditionMask validStepMask conditionStepMask s = true →
      actionOutTokens s = actionOutTokens' s ∧ imageTokens s = imageTokens' s)
    (hstate : w.stateCondition stateActions = w.stateCondition stateActions') :
    w.predictRdtDenoisingTarget d noisyActions timestep actionOutTokens imageTokens stateActions
        validStepMask conditionStepMask =
      w.predictRdtDenoisingTarget d noisyActions timestep actionOutTokens' imageTokens'
        stateActions' validStepMask conditionStepMask := by
  simp only [predictRdtDenoisingTarget, hstate]
  apply RDT.forward_visible
  · unfold imageCondition
    split
    · constructor
      intro k hk
      exact congrArg (conditionProj w.imageConditionToRdtProj) (congrFun (hvisible _ hk).2 _)
    · exact .none
  · intro s hs
    unfold actionCondition
    rw [(hvisible s hs).1]

end Stage3Weights

end P2PRdt.Policy

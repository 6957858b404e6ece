import P2PRdt.Policy.Stage3
import Mathlib.Algebra.BigOperators.Group.List.Basic

/-!
# Where a clean action can reach

The denoising prediction of step `t` should not depend on the clean action of
step `t`, its own regression target. The clean action is a token of the policy
transformer; the mask lets later steps see it, one history length further with
each layer, and the RDT head attends to the conditions of all visible steps. So
the prediction is free of its target exactly when no step within the sum of the
history lengths after `t` is visible, or the head has no blocks.

The first half is information flow, `runAll_agree`, and that the head cannot see
behind its mask. The second half runs the two networks with the relaying weights
and follows the action, `runAll_pos`, into the prediction.
-/

namespace P2PRdt.Policy

open Lib

variable {K : Type} [Field K] [LinearOrder K] {cfg : Stage3Config K}

/-- The conditions of step `s` are visible to the RDT head. -/
def LossMasks.visible (m : LossMasks cfg) : cfg.Step → Bool :=
  conditionMask m.validFrameMask (some m.conditionStepMask)

theorem LossMasks.visible_iff {m : LossMasks cfg} {s : cfg.Step} :
    m.visible s = true ↔ (∃ j, m.labelMask s j = true) ∧ m.validFrameMask s = true := by
  simp [LossMasks.visible, conditionMask, LossMasks.conditionStepMask]

/-- With all else fixed, the prediction at step `t` is the same for clean actions
that differ in step `t` only. -/
def NoTargetLeakage [Elementary K] (m : LossMasks cfg) (t : cfg.Step) : Prop :=
  ∀ (w : Stage3Weights cfg) (d : Stage3Draws cfg) (frames : cfg.Step → List UInt8)
    (text : cfg.Step → Fin cfg.textTokenSize → Fin cfg.textTokenizerEmbedDim → K)
    (sample : NoisySample cfg) (stateActions actionsIn actionsIn' : cfg.Step → cfg.Action),
    (∀ s, s ≠ t → actionsIn s = actionsIn' s) →
      let batch : Stage3Batch cfg := { m with frames, textTokensEmbed := text }
      (w.calculateLoss d batch sample actionsIn stateActions).actionPreds t =
        (w.calculateLoss d batch sample actionsIn' stateActions).actionPreds t

/-! ## What the action does not reach -/

namespace Stage3Config

variable (cfg)

/-- How far back the first `l` layers look. -/
def reach (l : ℕ) : ℕ := (cfg.attentionHistoryLen.take l).sum

theorem reach_succ {l : ℕ} (h : l < cfg.attentionHistoryLen.length) :
    cfg.reach (l + 1) = cfg.reach l + cfg.attentionHistoryLen[l] :=
  List.sum_take_succ cfg.attentionHistoryLen l h

theorem reach_length : cfg.reach cfg.attentionHistoryLen.length = cfg.attentionHistoryLen.sum :=
  congrArg List.sum List.take_length

/-- Positions that the action of step `t` has not reached after `l` layers. -/
def Untouched (t l p : ℕ) : Prop :=
  cfg.policy.DependsOn t p ∨ t + cfg.reach l < p / cfg.policy.stepSize

variable {cfg}

theorem untouched_of_layerMask {t l q p : ℕ} (hl : l < cfg.attentionHistoryLen.length)
    (hq : cfg.Untouched t (l + 1) q)
    (hmask : cfg.policy.layerMask cfg.attentionHistoryLen[l] q (cfg.policy.nKvSinkTokens + p)
      = true) :
    cfg.Untouched t l p := by
  rcases hq with hq | hq
  · exact .inl (cfg.policy.dependsOn_of_layerMask hq hmask)
  · right
    have hhistory := ((cfg.policy.layerMask_token _ q p).mp hmask).1
    rw [cfg.reach_succ hl] at hq
    omega

theorem untouched_self {t l q : ℕ} (hl : l < cfg.attentionHistoryLen.length)
    (hq : cfg.Untouched t (l + 1) q) : cfg.Untouched t l q := by
  rcases hq with hq | hq
  · exact .inl hq
  · right
    rw [cfg.reach_succ hl] at hq
    omega

end Stage3Config

namespace Stage3Weights

variable [Elementary K] (w : Stage3Weights cfg) (d : Stage3Draws cfg)

theorem length_layers :
    ((w.bcTransformer d).layers.map AttentionLayer.masked).length =
      cfg.attentionHistoryLen.length := by
  rw [List.length_map, bcTransformer, List.length_ofFn]

/-- The layer at place `i` of the transformer. -/
theorem getElem?_layers {i : ℕ} {l : MaskedLayer cfg.PolicyToken (KeyValue cfg.transformer K)}
    (h : ((w.bcTransformer d).layers.map AttentionLayer.masked)[i]? = some l) :
    ∃ hi : i < cfg.attentionHistoryLen.length, l = (w.attentionLayer d ⟨i, hi⟩).masked := by
  rw [List.getElem?_map] at h
  obtain ⟨layer, hlayer, rfl⟩ := Option.map_eq_some_iff.mp h
  rw [bcTransformer, List.getElem?_ofFn] at hlayer
  split at hlayer
  · rename_i hi
    exact ⟨hi, congrArg AttentionLayer.masked (Option.some.inj hlayer).symm⟩
  · cases hlayer

section Agree

variable {batch : Stage3Batch cfg} {t : cfg.Step} {actionsIn actionsIn' : cfg.Step → cfg.Action}
  (h : ∀ s, s ≠ t → actionsIn s = actionsIn' s)
include h

theorem sequence_untouched :
    AgreeOn (cfg.Untouched t 0) ((w.bcTransformer d).sequence (w.policyInput batch actionsIn))
      ((w.bcTransformer d).sequence (w.policyInput batch actionsIn')) := by
  refine ⟨by rw [PolicyWeights.length_sequence, PolicyWeights.length_sequence], ?_⟩
  intro p hp
  apply PolicyWeights.getElem?_sequence_congr
  intro i hi
  by_cases hit : i = t
  · right
    refine ⟨?_, rfl⟩
    rcases hp with (hlt | ⟨-, hreal⟩) | hlt
    · exact absurd (hit ▸ hi) hlt.ne'
    · exact hreal
    · exact absurd (hit ▸ hi) ((Nat.le_add_right _ _).trans_lt hlt).ne
  · left
    have htoken : (w.policyInput batch actionsIn).actionEmbeddingsIn i =
        (w.policyInput batch actionsIn').actionEmbeddingsIn i := by
      ext j k
      exact congrFun (congrArg w.robotActionInProj.forward (h i hit)) k
    rw [PolicyWeights.thisStepIn_eq, PolicyWeights.thisStepIn_eq, htoken]
    rfl

/-- After all layers, the tokens that the action has not reached agree. -/
theorem transformer_untouched :
    AgreeOn (cfg.Untouched t cfg.attentionHistoryLen.length)
      ((w.bcTransformer d).transformer
        ((w.bcTransformer d).sequence (w.policyInput batch actionsIn)))
      ((w.bcTransformer d).transformer
        ((w.bcTransformer d).sequence (w.policyInput batch actionsIn'))) := by
  rw [← w.length_layers d]
  apply runAll_agree (A := cfg.Untouched t) _ (w.sequence_untouched d h)
  intro i l hl q hq
  obtain ⟨hi, rfl⟩ := w.getElem?_layers d hl
  refine ⟨Stage3Config.untouched_self hi hq, ?_⟩
  intro p hsees
  rw [MaskedLayer.Sees, AttentionLayer.masked, List.length_ofFn] at hsees
  exact Stage3Config.untouched_of_layerMask hi hq hsees

/-- The outputs of a step up to `t`, or past the reach of the layers. -/
theorem outputs_untouched {s : cfg.Step} (hs : t < s → t + cfg.attentionHistoryLen.sum < (s : ℕ)) :
    w.actionOutTokens d batch actionsIn s = w.actionOutTokens d batch actionsIn' s ∧
      w.imageOutTokens d batch actionsIn s = w.imageOutTokens d batch actionsIn' s := by
  have hrow : ∀ j ≤ cfg.policy.actionOutPlace,
      cfg.Untouched t cfg.attentionHistoryLen.length (s * cfg.policy.stepSize + j) := by
    intro j hj
    have hdiv := cfg.policy.row_div s (hj.trans_lt cfg.policy.actionOutPlace_lt_stepSize)
    rcases lt_trichotomy s t with hlt | rfl | hgt
    · exact .inl (.inl (hdiv.trans_lt hlt))
    · exact .inl (cfg.policy.dependsOn_of_place hj)
    · right
      rw [hdiv, cfg.reach_length]
      exact hs hgt
  obtain ⟨hact, himg⟩ := (w.bcTransformer d).outputs_congr (w.transformer_untouched d h) hrow
  constructor
  · exact congrArg (·.getD 0) hact
  · ext j
    exact congrFun (congrArg (·.getD j 0) himg) _

/-- The predictions agree when no visible step is within reach. -/
theorem actionPreds_untouched
    (hvisible : ∀ s, batch.visible s = true → t < s → t + cfg.attentionHistoryLen.sum < (s : ℕ))
    (sample : NoisySample cfg) (stateActions : cfg.Step → cfg.Action) :
    (w.calculateLoss d batch sample actionsIn stateActions).actionPreds =
      (w.calculateLoss d batch sample actionsIn' stateActions).actionPreds := by
  simp only [calculateLoss, predictRdtDenoisingTarget]
  apply RDT.forward_visible
  · unfold imageCondition
    split
    · constructor
      intro k hk
      obtain ⟨-, himg⟩ := w.outputs_untouched d h (hvisible _ hk)
      exact congrArg (conditionProj w.imageConditionToRdtProj) (congrFun himg _)
    · exact .none
  · intro s hs
    obtain ⟨hact, -⟩ := w.outputs_untouched d h (hvisible s hs)
    exact congrArg (fun x => maybeAddNoiseToActionCondition (d.conditionNoise.map (· s))
      (conditionProj w.policyActionConditionToRdtProj x)) hact

end Agree

end Stage3Weights

/-! ## What the action does reach -/

namespace Stage3Config

variable (cfg)

/-- The place of the action token in its row. -/
theorem actionPlace_lt : cfg.policy.actionOutPlace + 1 < cfg.policy.stepSize :=
  Nat.lt_succ_self _

/-- Positions that the action of step `t` has reached after `l` layers: its own
token, and all tokens of the later steps within reach. -/
def Reached (t l p : ℕ) : Prop :=
  p / cfg.policy.stepSize ≤ t + cfg.reach l ∧
    (t < p / cfg.policy.stepSize ∨ t = p / cfg.policy.stepSize ∧ cfg.policy.IsRealAction p)

/-- The position of the action token of step `s`. -/
def actionPosition (s : ℕ) : ℕ := s * cfg.policy.stepSize + (cfg.policy.actionOutPlace + 1)

theorem actionPosition_div (s : ℕ) : cfg.actionPosition s / cfg.policy.stepSize = s :=
  cfg.policy.row_div s cfg.actionPlace_lt

theorem actionPosition_mod (s : ℕ) :
    cfg.actionPosition s % cfg.policy.stepSize = cfg.policy.actionOutPlace + 1 :=
  cfg.policy.row_mod s cfg.actionPlace_lt

theorem isRealAction_actionPosition (s : ℕ) : cfg.policy.IsRealAction (cfg.actionPosition s) := by
  rw [PolicyConfig.IsRealAction, actionPosition_mod]
  exact Nat.lt_succ_self _

theorem actionPosition_lt {s q : ℕ} (h : s < q / cfg.policy.stepSize) :
    cfg.actionPosition s < q := by
  calc cfg.actionPosition s < s * cfg.policy.stepSize + cfg.policy.stepSize :=
        Nat.add_lt_add_left cfg.actionPlace_lt _
    _ = (s + 1) * cfg.policy.stepSize := (Nat.succ_mul s _).symm
    _ ≤ q / cfg.policy.stepSize * cfg.policy.stepSize := Nat.mul_le_mul_right _ h
    _ ≤ q := Nat.div_mul_le_self q _

variable {cfg}

/-- A position that a layer reaches was reached before, or sees an action token
that was. -/
theorem reached_succ {t l q : ℕ} (hl : l < cfg.attentionHistoryLen.length)
    (hq : cfg.Reached t (l + 1) q) :
    cfg.Reached t l q ∨ ∃ p, p < q ∧ cfg.Reached t l p ∧
      cfg.policy.layerMask cfg.attentionHistoryLen[l] q (cfg.policy.nKvSinkTokens + p)
        = true := by
  rcases hq with ⟨hle, hafter⟩
  rw [cfg.reach_succ hl] at hle
  by_cases hold : q / cfg.policy.stepSize ≤ t + cfg.reach l
  · exact .inl ⟨hold, hafter⟩
  · -- the earliest step that the query sees, but not before `t`
    right
    let s := max t (q / cfg.policy.stepSize - cfg.attentionHistoryLen[l])
    have hsq : s < q / cfg.policy.stepSize := by omega
    refine ⟨cfg.actionPosition s, cfg.actionPosition_lt hsq, ⟨?_, ?_⟩, ?_⟩
    · rw [actionPosition_div]
      omega
    · rw [actionPosition_div]
      rcases (le_max_left t (q / cfg.policy.stepSize - cfg.attentionHistoryLen[l])).lt_or_eq
        with hlt | heq
      · exact .inl hlt
      · exact .inr ⟨heq, cfg.isRealAction_actionPosition s⟩
    · rw [PolicyConfig.layerMask_token, actionPosition_div, actionPosition_mod]
      exact ⟨by omega, .inl ⟨hsq, Nat.succ_ne_self _⟩⟩

end Stage3Config

/-! ## The relaying network -/

variable (cfg) in
def Stage3Config.actionLane : Fin cfg.nActions := ⟨0, cfg.nActions_pos⟩

variable (cfg) in
/-- The weights that carry the first lane of an action to the first lane of the
prediction. -/
def Stage3Weights.relay : Stage3Weights cfg where
  imageTokenizer := fun _ _ _ => 0
  textEmbedMlp := 0
  imgPosTokens := 0
  actionPosTokens := 0
  textPosTokens := 0
  textEmbeddingForNoTextInput := 0
  thinkingPosTokens := 0
  actionOutToken := 0
  layers := fun _ => .relay cfg.transformer cfg.nKvSinkTokens K
  robotActionInProj := .pick cfg.transformer.lane cfg.actionLane
  policyActionConditionToRdtProj := .pick cfg.rdt.lane cfg.transformer.lane
  imageConditionToRdtProj := .pick cfg.rdt.lane cfg.transformer.lane
  nullStateCondition := 0
  rdtPolicyHead := .relay cfg.rdtShape

variable (cfg) in
/-- A pass outside of training. -/
def Stage3Draws.quiet : Stage3Draws cfg where
  dropout := fun _ _ => none
  conditionNoise := none

theorem conditionProj_pick_lane (x : cfg.PolicyToken) :
    conditionProj (.pick cfg.rdt.lane cfg.transformer.lane) x cfg.rdt.lane =
      x cfg.transformer.lane := by
  unfold conditionProj
  split
  · rfl
  · exact Linear.pick_forward _ _ x

namespace Stage3Weights

variable [Elementary K] {batch : Stage3Batch cfg} {actionsIn : cfg.Step → cfg.Action}

theorem relay_stepFront (d : Stage3Draws cfg) (i : cfg.Step) :
    ∀ v ∈ ((relay cfg).bcTransformer d).stepFront ((relay cfg).policyInput batch actionsIn) i,
      v = 0 := by
  have htext : ∀ x, ((relay cfg).bcTransformer d).textEmbedMlp x = 0 :=
    fun x => Matrix.zero_mulVec x
  have himpute : ((relay cfg).bcTransformer d).imputeNoTextEmbedding (fun _ => 0) = 0 := by
    unfold PolicyWeights.imputeNoTextEmbedding
    split
    · rfl
    · rfl
  intro v hv
  simp only [PolicyWeights.stepFront, htext, himpute, List.mem_append, List.mem_ofFn,
    List.mem_singleton] at hv
  rcases hv with ((⟨j, rfl⟩ | ⟨j, rfl⟩) | ⟨j, rfl⟩) | rfl
  · exact add_zero 0
  · exact add_zero 0
  · rfl
  · rfl

omit [Elementary K] in
/-- The action token carries the first lane of the action. -/
theorem relay_actionToken (i : cfg.Step) :
    ((relay cfg).actionInToTokens actionsIn i 0 + 0) cfg.transformer.lane =
      actionsIn i cfg.actionLane :=
  (add_zero _).trans (Linear.pick_forward _ _ _)

theorem relay_mem_sequence (d : Stage3Draws cfg) {v : cfg.PolicyToken}
    (hv : v ∈ ((relay cfg).bcTransformer d).sequence ((relay cfg).policyInput batch actionsIn)) :
    v cfg.transformer.lane = 0 ∨ ∃ i, v cfg.transformer.lane = actionsIn i cfg.actionLane := by
  obtain ⟨row, hrow, hvrow⟩ := List.mem_flatten.mp hv
  obtain ⟨i, -, rfl⟩ := List.mem_map.mp hrow
  rw [PolicyWeights.thisStepIn_eq] at hvrow
  rcases List.mem_append.mp hvrow with hfront | haction
  · left
    rw [relay_stepFront d i v hfront]
    rfl
  · right
    obtain ⟨j, rfl⟩ := (List.mem_ofFn' _ _).mp haction
    obtain rfl : j = (0 : Fin 1) := Fin.fin_one_eq_zero j
    exact ⟨i, relay_actionToken i⟩

theorem relay_getElem?_action (d : Stage3Draws cfg) (i : cfg.Step) {v : cfg.PolicyToken}
    (hv : (((relay cfg).bcTransformer d).sequence ((relay cfg).policyInput batch actionsIn))[
      cfg.actionPosition i]? = some v) :
    v cfg.transformer.lane = actionsIn i cfg.actionLane := by
  have haction := PolicyWeights.getElem?_sequence_action ((relay cfg).bcTransformer d)
    ((relay cfg).policyInput batch actionsIn) i (0 : Fin 1)
  cases haction.symm.trans hv
  exact relay_actionToken i

variable [IsStrictOrderedRing K] [LawfulElementary K]

theorem relay_layers_add :
    ∀ l ∈ ((relay cfg).bcTransformer (.quiet cfg)).layers.map AttentionLayer.masked,
      l.Adds (fun x => x cfg.transformer.lane) (fun kv => kv.value cfg.transformer.headLane) := by
  intro l hl
  obtain ⟨i, hi⟩ := List.getElem?_of_mem hl
  obtain ⟨hi', rfl⟩ := (relay cfg).getElem?_layers (.quiet cfg) hi
  apply TransformerLayer.relay_adds
  intro pos keep hkeep
  cases hkeep

/-- The tokens after the layers. -/
def relayOut (batch : Stage3Batch cfg) (actionsIn : cfg.Step → cfg.Action) :
    List cfg.PolicyToken :=
  ((relay cfg).bcTransformer (.quiet cfg)).transformer
    (((relay cfg).bcTransformer (.quiet cfg)).sequence ((relay cfg).policyInput batch actionsIn))

omit [LawfulElementary K] [IsStrictOrderedRing K] in
theorem relay_sequence_nonneg (d : Stage3Draws cfg) (h : ∀ i, 0 ≤ actionsIn i cfg.actionLane) :
    ∀ v ∈ ((relay cfg).bcTransformer d).sequence ((relay cfg).policyInput batch actionsIn),
      0 ≤ v cfg.transformer.lane := by
  intro v hv
  rcases relay_mem_sequence d hv with hzero | ⟨i, hlane⟩
  · exact hzero.ge
  · exact (h i).trans_eq hlane.symm

variable (batch) in
theorem relayOut_zero (h : ∀ i, actionsIn i cfg.actionLane = 0) :
    ∀ v ∈ relayOut batch actionsIn, v cfg.transformer.lane = 0 := by
  apply runAll_zero relay_layers_add
  intro v hv
  rcases relay_mem_sequence _ hv with hzero | ⟨i, hlane⟩
  · exact hzero
  · exact hlane.trans (h i)

variable (batch) in
theorem relayOut_nonneg (h : ∀ i, 0 ≤ actionsIn i cfg.actionLane) :
    ∀ v ∈ relayOut batch actionsIn, 0 ≤ v cfg.transformer.lane :=
  runAll_nonneg relay_layers_add (relay_sequence_nonneg _ h)

/-- A positive action of step `t` makes every token positive that it reaches. -/
theorem relayOut_pos (h : ∀ i, 0 ≤ actionsIn i cfg.actionLane) {t : cfg.Step}
    (ht : 0 < actionsIn t cfg.actionLane) :
    PositiveOn (fun x => x cfg.transformer.lane)
      (cfg.Reached t cfg.attentionHistoryLen.length) (relayOut batch actionsIn) := by
  rw [← (relay cfg).length_layers (.quiet cfg)]
  apply runAll_pos (A := cfg.Reached t) relay_layers_add
  · intro i l hl q hq hreached
    obtain ⟨hi, rfl⟩ := (relay cfg).getElem?_layers (.quiet cfg) hl
    rcases Stage3Config.reached_succ hi hreached with hself | ⟨p, hp, hreachedP, hmask⟩
    · exact .inl hself
    · refine .inr ⟨p, hp.trans hq, ?_, hreachedP⟩
      rw [MaskedLayer.Sees, AttentionLayer.masked, List.length_ofFn]
      exact hmask
  · exact relay_sequence_nonneg _ h
  · -- before the first layer, only the action token of step `t` is reached
    intro p v hp hv
    rcases hp with ⟨hle, hafter⟩
    have hreal : t = p / cfg.policy.stepSize ∧ cfg.policy.IsRealAction p := by
      rcases hafter with hlt | hreal
      · exact absurd hle hlt.not_ge
      · exact hreal
    have hposition : p = cfg.actionPosition t := by
      have hmod := Nat.mod_lt p cfg.policy.stepSize_pos
      have hlast : p % cfg.policy.stepSize = cfg.policy.actionOutPlace + 1 :=
        Nat.le_antisymm (Nat.le_of_lt_succ hmod) hreal.2
      rw [Stage3Config.actionPosition, hreal.1, ← hlast, Nat.mul_comm, Nat.div_add_mod]
    rw [hposition] at hv
    exact ht.trans_eq (relay_getElem?_action _ t hv).symm

omit [IsStrictOrderedRing K] [LawfulElementary K] in
theorem relay_actionOut (s : cfg.Step) :
    (relay cfg).actionOutTokens (.quiet cfg) batch actionsIn s =
      ((relayOut batch actionsIn)[
        s * cfg.policy.stepSize + cfg.policy.actionOutPlace]?).getD 0 := by
  have hout := PolicyWeights.actionOutTokens_eq ((relay cfg).bcTransformer (.quiet cfg))
    ((relay cfg).policyInput batch actionsIn) s
  exact congrArg (fun o : Option cfg.PolicyToken => o.getD 0) hout

omit [IsStrictOrderedRing K] [LawfulElementary K] in
theorem relay_imageOut (s : cfg.Step) (j : Fin cfg.nImgTokens) :
    (relay cfg).imageOutTokens (.quiet cfg) batch actionsIn s j =
      ((relayOut batch actionsIn)[
        s * cfg.policy.stepSize + (cfg.policy.textTokenSize + j)]?).getD 0 := by
  have hout := PolicyWeights.getElem?_imageOutTokens ((relay cfg).bcTransformer (.quiet cfg))
    ((relay cfg).policyInput batch actionsIn) s j.isLt
  exact List.getD_eq_getElem?_getD.trans
    (congrArg (fun o : Option cfg.PolicyToken => o.getD 0) hout)

omit [IsStrictOrderedRing K] [LawfulElementary K] in
/-- The first lanes of the outputs are first lanes of tokens. -/
theorem relay_outputs {P : K → Prop} (hzero : P 0)
    (h : ∀ v ∈ relayOut batch actionsIn, P (v cfg.transformer.lane)) (s : cfg.Step) :
    P ((relay cfg).actionOutTokens (.quiet cfg) batch actionsIn s cfg.transformer.lane) ∧
      ∀ j, P ((relay cfg).imageOutTokens (.quiet cfg) batch actionsIn s j
        cfg.transformer.lane) := by
  have htoken : ∀ p : ℕ, P (((relayOut batch actionsIn)[p]?).getD 0 cfg.transformer.lane) := by
    intro p
    cases hv : (relayOut batch actionsIn)[p]? with
    | none => exact hzero
    | some v => exact h v (List.mem_of_getElem? hv)
  constructor
  · rw [relay_actionOut]
    exact htoken _
  · intro j
    rw [relay_imageOut]
    exact htoken _

variable (batch) in
/-- Within reach, all outputs of a later step are positive. -/
theorem relay_outputs_pos (h : ∀ i, 0 ≤ actionsIn i cfg.actionLane) {t s : cfg.Step}
    (ht : 0 < actionsIn t cfg.actionLane) (hts : t < s)
    (hreach : (s : ℕ) ≤ t + cfg.attentionHistoryLen.sum) :
    0 < (relay cfg).actionOutTokens (.quiet cfg) batch actionsIn s cfg.transformer.lane ∧
      ∀ j, 0 < (relay cfg).imageOutTokens (.quiet cfg) batch actionsIn s j
        cfg.transformer.lane := by
  have hlen : (relayOut batch actionsIn).length = cfg.nSeqTimesteps * cfg.policy.stepSize :=
    (length_runAll _ _).trans (PolicyWeights.length_sequence _ _)
  have htoken : ∀ j < cfg.policy.stepSize, 0 <
      ((relayOut batch actionsIn)[s * cfg.policy.stepSize + j]?).getD 0 cfg.transformer.lane := by
    intro j hj
    have hlt : s * cfg.policy.stepSize + j < (relayOut batch actionsIn).length := by
      rw [hlen]
      calc s * cfg.policy.stepSize + j < s * cfg.policy.stepSize + cfg.policy.stepSize :=
            Nat.add_lt_add_left hj _
        _ = (s + 1) * cfg.policy.stepSize := (Nat.succ_mul _ _).symm
        _ ≤ cfg.nSeqTimesteps * cfg.policy.stepSize := Nat.mul_le_mul_right _ s.isLt
    have hreached : cfg.Reached t cfg.attentionHistoryLen.length
        (s * cfg.policy.stepSize + j) := by
      unfold Stage3Config.Reached
      rw [cfg.policy.row_div s hj, cfg.reach_length]
      exact ⟨hreach, .inl hts⟩
    have hget := List.getElem?_eq_getElem hlt
    rw [hget]
    exact relayOut_pos h ht _ _ hreached hget
  constructor
  · rw [relay_actionOut]
    exact htoken _ cfg.policy.actionOutPlace_lt_stepSize
  · intro j
    rw [relay_imageOut]
    apply htoken
    have hj := j.isLt
    simp only [PolicyConfig.stepSize, Stage3Config.policy]
    omega

omit [IsStrictOrderedRing K] [LawfulElementary K] in
theorem relay_actionCondition (x : cfg.Step → cfg.PolicyToken) (i : cfg.Step) :
    (relay cfg).actionCondition (.quiet cfg) x i cfg.rdt.lane = x i cfg.transformer.lane :=
  conditionProj_pick_lane (x i)

omit [Elementary K] [IsStrictOrderedRing K] [LawfulElementary K] in
theorem relay_imageCondition {x : cfg.Step → Fin cfg.nImgTokens → cfg.PolicyToken}
    {img : Fin (cfg.nSeqTimesteps * cfg.nImgTokens) → cfg.RDTToken}
    (h : (relay cfg).imageCondition x = some img) (i : cfg.Step) (j : Fin cfg.nImgTokens) :
    img (finProdFinEquiv (i, j)) cfg.rdt.lane = x i j cfg.transformer.lane := by
  unfold imageCondition at h
  split at h
  · cases h
    simp only [Equiv.symm_apply_apply]
    exact conditionProj_pick_lane (x i j)
  · cases h

omit [Elementary K] [IsStrictOrderedRing K] [LawfulElementary K] in
/-- A property of all first lanes of the image condition. -/
theorem relay_imageCondition_forall {P : K → Prop}
    {x : cfg.Step → Fin cfg.nImgTokens → cfg.PolicyToken}
    (hx : ∀ i j, P (x i j cfg.transformer.lane))
    {img : Fin (cfg.nSeqTimesteps * cfg.nImgTokens) → cfg.RDTToken}
    (h : (relay cfg).imageCondition x = some img) (k) : P (img k cfg.rdt.lane) := by
  obtain ⟨⟨i, j⟩, rfl⟩ := finProdFinEquiv.surjective k
  rw [relay_imageCondition h]
  exact hx i j

variable (batch) in
/-- With the relaying weights, the first lane of the prediction tells a visible
step that the action has reached. -/
theorem relay_actionPreds_pos (hdepth : 0 < cfg.rdt.depth)
    (h : ∀ i, 0 ≤ actionsIn i cfg.actionLane) {t s : cfg.Step}
    (ht : 0 < actionsIn t cfg.actionLane) (hts : t < s)
    (hreach : (s : ℕ) ≤ t + cfg.attentionHistoryLen.sum) (hs : batch.visible s = true)
    (sample : NoisySample cfg) (stateActions : cfg.Step → cfg.Action) (i : cfg.Step) :
    0 < ((relay cfg).calculateLoss (.quiet cfg) batch sample actionsIn stateActions).actionPreds i
      cfg.actionLane := by
  obtain ⟨hact, himg⟩ := relay_outputs_pos batch h ht hts hreach
  have hnonneg := relay_outputs (P := fun x : K => 0 ≤ x) le_rfl (relayOut_nonneg batch h)
  apply RDT.relay_forward_pos (c := cfg.rdtShape) hdepth
  · intro img hi
    exact relay_imageCondition_forall (P := fun x : K => 0 ≤ x) (fun i => (hnonneg i).2) hi
  · intro j
    exact (hnonneg j).1.trans_eq (relay_actionCondition _ j).symm
  · intro img hi
    refine ⟨finProdFinEquiv (s, ⟨0, cfg.nImgTokens_pos⟩), ?_, ?_⟩
    · rw [Equiv.symm_apply_apply]
      exact hs
    · exact (himg ⟨0, cfg.nImgTokens_pos⟩).trans_eq (relay_imageCondition hi s _).symm
  · exact ⟨s, hs, hact.trans_eq (relay_actionCondition _ s).symm⟩

variable (batch) in
theorem relay_actionPreds_zero (h : ∀ i, actionsIn i cfg.actionLane = 0)
    (sample : NoisySample cfg) (stateActions : cfg.Step → cfg.Action) (i : cfg.Step) :
    ((relay cfg).calculateLoss (.quiet cfg) batch sample actionsIn stateActions).actionPreds i
      cfg.actionLane = 0 := by
  have hzero := relay_outputs (P := fun x : K => x = 0) rfl (relayOut_zero batch h)
  apply RDT.relay_forward_zero (c := cfg.rdtShape)
  · intro img hi
    exact relay_imageCondition_forall (P := fun x : K => x = 0) (fun i => (hzero i).2) hi
  · intro j
    exact (relay_actionCondition _ j).trans (hzero j).1

end Stage3Weights

/-! ## The two halves together -/

/-- The blocks are the only part of the head that sees the conditions. -/
theorem Stage3Weights.actionPreds_of_depth_zero [Elementary K] (w : Stage3Weights cfg)
    (d : Stage3Draws cfg) (hdepth : cfg.rdt.depth = 0) (batch : Stage3Batch cfg)
    (sample : NoisySample cfg) (actionsIn actionsIn' stateActions : cfg.Step → cfg.Action) :
    (w.calculateLoss d batch sample actionsIn stateActions).actionPreds =
      (w.calculateLoss d batch sample actionsIn' stateActions).actionPreds := by
  have hblocks : List.finRange cfg.rdtShape.depth = [] := by
    rw [List.finRange_eq_nil_iff]
    exact hdepth
  simp only [calculateLoss, predictRdtDenoisingTarget, RDT.forward, hblocks, RDT.runBlocks,
    List.foldl_nil]
  rfl

theorem noTargetLeakage_of_unreached [Elementary K] {m : LossMasks cfg} {t : cfg.Step}
    (hvisible : ∀ s, m.visible s = true → t < s → t + cfg.attentionHistoryLen.sum < (s : ℕ)) :
    NoTargetLeakage m t := by
  intro w d frames text sample stateActions actionsIn actionsIn' hoff batch
  exact congrFun (w.actionPreds_untouched d hoff hvisible sample stateActions) t

theorem noTargetLeakage_of_depth_zero [Elementary K] (m : LossMasks cfg) (t : cfg.Step)
    (hdepth : cfg.rdt.depth = 0) : NoTargetLeakage m t := by
  intro w d frames text sample stateActions actionsIn actionsIn' _ batch
  exact congrFun (w.actionPreds_of_depth_zero d hdepth batch sample _ _ stateActions) t

variable (cfg) in
/-- One in every lane of the action of step `t`, and zero elsewhere. -/
def Stage3Config.actionAt (t : cfg.Step) : cfg.Step → cfg.Action :=
  fun i _ => if i = t then 1 else 0

/-- A visible later step within reach takes the action of step `t` into the
prediction: with the relaying weights it is positive for the action one and zero
for the action zero. -/
theorem relay_leaks [IsStrictOrderedRing K] [Elementary K] [LawfulElementary K]
    (batch : Stage3Batch cfg) (hdepth : 0 < cfg.rdt.depth) {t s : cfg.Step}
    (hs : batch.visible s = true) (hts : t < s)
    (hreach : (s : ℕ) ≤ t + cfg.attentionHistoryLen.sum) (sample : NoisySample cfg)
    (stateActions : cfg.Step → cfg.Action) :
    ((Stage3Weights.relay cfg).calculateLoss (.quiet cfg) batch sample (cfg.actionAt t)
        stateActions).actionPreds t ≠
      ((Stage3Weights.relay cfg).calculateLoss (.quiet cfg) batch sample 0
        stateActions).actionPreds t := by
  have hnonneg : ∀ i, 0 ≤ cfg.actionAt t i cfg.actionLane := by
    intro i
    unfold Stage3Config.actionAt
    split
    · exact zero_le_one
    · exact le_rfl
  have hone : 0 < cfg.actionAt t t cfg.actionLane := by
    rw [Stage3Config.actionAt, if_pos rfl]
    exact one_pos
  have hpos := Stage3Weights.relay_actionPreds_pos batch hdepth hnonneg hone hts hreach hs sample
    stateActions t
  have hnone : ∀ i, (0 : cfg.Step → cfg.Action) i cfg.actionLane = 0 := fun _ => rfl
  have hzero := Stage3Weights.relay_actionPreds_zero batch hnone sample stateActions t
  intro heq
  exact hpos.ne' ((congrFun heq cfg.actionLane).trans hzero)

/-- **Where the target leaks.** The prediction at step `t` never depends on the
clean action of step `t`, whatever the weights and the inputs, exactly when the
head has no blocks or every visible step after `t` lies past the sum of the
history lengths. -/
theorem noTargetLeakage_iff [IsStrictOrderedRing K] [Elementary K] [LawfulElementary K]
    (m : LossMasks cfg) (t : cfg.Step) :
    NoTargetLeakage m t ↔ cfg.rdt.depth = 0 ∨
      ∀ s, m.visible s = true → t < s → t + cfg.attentionHistoryLen.sum < (s : ℕ) := by
  constructor
  · intro hfree
    by_contra hcon
    obtain ⟨hdepth, hvisible⟩ := not_or.mp hcon
    push Not at hvisible
    rcases hvisible with ⟨s, hs, hts, hreach⟩
    let batch : Stage3Batch cfg := { m with frames := fun _ => [], textTokensEmbed := 0 }
    let sample : NoisySample cfg :=
      { noisyActions := 0, actionTargets := 0, timestep := 0, actionLossWeight := 0 }
    apply relay_leaks batch (Nat.pos_of_ne_zero hdepth) hs hts hreach sample 0
    apply hfree
    intro i hi
    ext j
    exact if_neg hi
  · rintro (hdepth | hvisible)
    · exact noTargetLeakage_of_depth_zero m t hdepth
    · exact noTargetLeakage_of_unreached hvisible

section TwoSteps

/-- Two steps, one layer that looks one step back and one RDT block. -/
noncomputable def twoStepConfig : Stage3Config ℝ where
  nSeqTimesteps := 2
  nImgTokens := 1
  textTokenSize := 1
  textTokenizerEmbedDim := 1
  nThinkingTokens := 1
  nKvSinkTokens := 1
  transformer :=
    { nHead := 1, rotaryPairs := 1, nHead_pos := Nat.one_pos, rotaryPairs_pos := Nat.one_pos }
  attentionHistoryLen := [1]
  nActions := 1
  rdt :=
    { numKvHeads := 1, nRep := 1, headSize := 2, depth := 1, normEps := transformerNormEps
      multipleOf := 8, ffnDimMultiplier := none, numRegisterTokens := 1
      useStateCondition := true, useImageCondition := false, actionConditionNoiseStd := 0
      numKvHeads_pos := Nat.one_pos, nRep_pos := Nat.one_pos, headSize_pos := Nat.two_pos
      normEps_nonneg := transformerNormEps_nonneg, numRegisterTokens_pos := Nat.one_pos }
  nImgTokens_pos := Nat.one_pos
  nActions_pos := Nat.one_pos

noncomputable def twoStepSample : NoisySample twoStepConfig where
  noisyActions := 0
  actionTargets := 0
  timestep := 0
  actionLossWeight := 1

/-- All frames are valid and supervised. -/
noncomputable def twoStepBatch : Stage3Batch twoStepConfig where
  labelMask := fun _ _ => true
  validFrameMask := fun _ => true
  frames := fun _ => [0]
  textTokensEmbed := 0

/-- Only the first step is supervised. -/
def firstStepOnly : LossMasks twoStepConfig where
  labelMask := fun i _ => decide (i.val = 0)
  validFrameMask := fun _ => true

/-- The clean action of the first step changes its own prediction when the second
step is visible. -/
theorem actionPreds_ne_twoSteps :
    (∀ s : twoStepConfig.Step, s ≠ (0 : Fin 2) →
        twoStepConfig.actionAt (0 : Fin 2) s = (0 : twoStepConfig.Step → twoStepConfig.Action) s) ∧
      ((Stage3Weights.relay twoStepConfig).calculateLoss (.quiet twoStepConfig) twoStepBatch
          twoStepSample (twoStepConfig.actionAt (0 : Fin 2)) 0).actionPreds (0 : Fin 2) ≠
        ((Stage3Weights.relay twoStepConfig).calculateLoss (.quiet twoStepConfig) twoStepBatch
          twoStepSample 0 0).actionPreds (0 : Fin 2) := by
  constructor
  · intro s hs
    ext j
    exact if_neg hs
  · have hs : twoStepBatch.visible (1 : Fin 2) = true :=
      LossMasks.visible_iff.mpr ⟨⟨(0 : Fin 1), rfl⟩, rfl⟩
    exact relay_leaks twoStepBatch one_pos hs (by decide : (0 : Fin 2) < 1) (by decide)
      twoStepSample 0

/-- With only the first step visible its prediction is free of its action. -/
theorem noTargetLeakage_iff_firstStepOnly : NoTargetLeakage firstStepOnly (0 : Fin 2) := by
  apply (noTargetLeakage_iff firstStepOnly (0 : Fin 2)).mpr
  right
  intro s hs hts
  obtain ⟨⟨j, hj⟩, -⟩ := LossMasks.visible_iff.mp hs
  exact absurd (of_decide_eq_true hj) (Nat.ne_of_gt (Fin.lt_def.mp hts))

end TwoSteps

end P2PRdt.Policy

import P2PRdt.Lib.MaskedLayers
import Mathlib.Algebra.Group.Basic
import Mathlib.Data.Fintype.Basic
import Mathlib.Tactic.Linarith
import Mathlib.Tactic.Ring

/-!
# The causal policy transformer

`_img_policy_causal_mask` and `PolicyCausalTransformer.forward`. A step is a row
of text, image, thinking, action-out and action tokens; `forward` lines the rows
up, runs the layers under the mask and reads the action-out token and the image
tokens of every step back from the result.

A layer is any function of its own token and of the keys the mask allows. One
sequence of the batch is modelled; the mask is the same for all of them.
-/

namespace P2PRdt.Policy

open Lib

/-! ## The mask -/

section Mask

variable (nImgTokens nThinkingTokens nActionTokens nTextTokens : ℕ)

def oneStepLen : ℤ := nImgTokens + nTextTokens + nThinkingTokens + nActionTokens

def tokenToActionOut : ℤ := nImgTokens + nThinkingTokens + nTextTokens

def stepAndImgMask (idx : ℤ) : Bool × ℤ :=
  let oneStepLen := oneStepLen nImgTokens nThinkingTokens nActionTokens nTextTokens
  (idx % oneStepLen < tokenToActionOut nImgTokens nThinkingTokens nTextTokens, idx / oneStepLen)

def stepAndRealActionMask (idx : ℤ) : Bool × ℤ :=
  let oneStepLen := oneStepLen nImgTokens nThinkingTokens nActionTokens nTextTokens
  (idx % oneStepLen > tokenToActionOut nImgTokens nThinkingTokens nTextTokens, idx / oneStepLen)

def stepAndActionOutMask (idx : ℤ) : Bool × ℤ :=
  let oneStepLen := oneStepLen nImgTokens nThinkingTokens nActionTokens nTextTokens
  (idx % oneStepLen = tokenToActionOut nImgTokens nThinkingTokens nTextTokens, idx / oneStepLen)

/-- `_img_policy_causal_mask`; `nActionTokens` counts the action-out token. -/
def imgPolicyCausalMask (historyLen : Option ℤ) (nKvSinkTokens : ℕ) (qIdx kvIdx : ℤ) : Bool :=
  let isSink : Bool := kvIdx < nKvSinkTokens
  let kvIdxBase := kvIdx - nKvSinkTokens
  let img := stepAndImgMask nImgTokens nThinkingTokens nActionTokens nTextTokens
  let realAction := stepAndRealActionMask nImgTokens nThinkingTokens nActionTokens nTextTokens
  let actionOut := stepAndActionOutMask nImgTokens nThinkingTokens nActionTokens nTextTokens
  let (qIsImg, qStepIdx) := img qIdx
  let (kvIsImg, kvStepIdx) := img kvIdxBase
  let qIsRealAction := (realAction qIdx).1
  let qIsActionOut := (actionOut qIdx).1
  let kvIsActionOut := (actionOut kvIdxBase).1
  let fullMask :=
    (qIsImg && !kvIsActionOut && kvStepIdx < qStepIdx)
    || (qIsActionOut && !kvIsActionOut && kvStepIdx < qStepIdx)
    || (qIsRealAction && !kvIsActionOut && kvStepIdx < qStepIdx)
    || (qIsImg && kvIsImg && kvStepIdx = qStepIdx)
    || (qIsActionOut && (kvIsImg || kvIsActionOut) && kvStepIdx = qStepIdx)
    || (qIsRealAction && !kvIsActionOut && kvStepIdx = qStepIdx)
  let fullMask := match historyLen with
    | some h => fullMask && qStepIdx - kvStepIdx ≤ h
    | none => fullMask
  isSink || fullMask

end Mask

/-! ## The network -/

/-- The token counts of the transformer. `nActionTokens` counts the real action
tokens of a step. -/
structure PolicyConfig where
  nSteps : ℕ
  nImgTokens : ℕ
  textTokenSize : ℕ
  nThinkingTokens : ℕ
  nActionTokens : ℕ
  nKvSinkTokens : ℕ

/-- What a transformer layer computes, apart from its mask. -/
structure AttentionLayer (cfg : PolicyConfig) (V KV : Type) where
  attentionHistoryLen : ℕ
  sinks : Fin cfg.nKvSinkTokens → KV
  project : ℕ → V → KV
  update : ℕ → V → List (Option KV) → V

/-- The parameters of `PolicyCausalTransformer`. -/
structure PolicyWeights (cfg : PolicyConfig) (X V KV : Type) where
  textEmbedMlp : X → V
  imgPosTokens : Fin cfg.nImgTokens → V
  actionPosTokens : Fin cfg.nActionTokens → V
  textPosTokens : Fin cfg.textTokenSize → V
  textEmbeddingForNoTextInput : Fin cfg.textTokenSize → V
  thinkingPosTokens : Fin cfg.nThinkingTokens → V
  actionOutToken : V
  layers : List (AttentionLayer cfg V KV)

/-- The tokenized inputs of `forward`. -/
structure PolicyInput (cfg : PolicyConfig) (X V : Type) where
  imgTokens : Fin cfg.nSteps → Fin cfg.nImgTokens → V
  actionEmbeddingsIn : Fin cfg.nSteps → Fin cfg.nActionTokens → V
  textTokensEmbed : Fin cfg.nSteps → Fin cfg.textTokenSize → X

namespace PolicyConfig

variable (cfg : PolicyConfig)

def stepSize : ℕ :=
  cfg.nImgTokens + cfg.textTokenSize + cfg.nThinkingTokens + 1 + cfg.nActionTokens

def outputActionTokenIdx (t : Fin cfg.nSteps) : ℕ :=
  let stepStartIdx := t *
    (cfg.nImgTokens + cfg.textTokenSize + cfg.nThinkingTokens + 1 + cfg.nActionTokens)
  stepStartIdx + cfg.nImgTokens + cfg.textTokenSize + cfg.nThinkingTokens

/-- The mask that `_assign_layer_masks` gives a layer. -/
def layerMask (historyLen q kv : ℕ) : Bool :=
  imgPolicyCausalMask cfg.nImgTokens cfg.nThinkingTokens (1 + cfg.nActionTokens) cfg.textTokenSize
    (some historyLen) cfg.nKvSinkTokens q kv

end PolicyConfig

def AttentionLayer.masked {cfg : PolicyConfig} {V KV : Type} (l : AttentionLayer cfg V KV) :
    MaskedLayer V KV where
  mask := cfg.layerMask l.attentionHistoryLen
  sinks := List.ofFn l.sinks
  project := l.project
  update := l.update

namespace PolicyWeights

variable {cfg : PolicyConfig} {X V KV : Type} [AddMonoid V] [DecidableEq V]

/-- A step whose text tokens are all zero gets the learned tokens instead. -/
def imputeNoTextEmbedding (w : PolicyWeights cfg X V KV) (text : Fin cfg.textTokenSize → V) :
    Fin cfg.textTokenSize → V :=
  if ∀ j, text j = 0 then w.textEmbeddingForNoTextInput else text

/-- The row of step `i`. -/
def thisStepIn (w : PolicyWeights cfg X V KV) (inp : PolicyInput cfg X V) (i : Fin cfg.nSteps) :
    List V :=
  let text := w.imputeNoTextEmbedding fun j => w.textEmbedMlp (inp.textTokensEmbed i j)
  List.ofFn (fun j => text j + w.textPosTokens j)
    ++ List.ofFn (fun j => inp.imgTokens i j + w.imgPosTokens j)
    ++ List.ofFn w.thinkingPosTokens
    ++ [w.actionOutToken]
    ++ List.ofFn (fun j => inp.actionEmbeddingsIn i j + w.actionPosTokens j)

/-- The sequence that `forward` hands to the transformer. -/
def sequence (w : PolicyWeights cfg X V KV) (inp : PolicyInput cfg X V) : List V :=
  ((List.finRange cfg.nSteps).map (w.thisStepIn inp)).flatten

def transformer (w : PolicyWeights cfg X V KV) (x : List V) : List V :=
  runAll (w.layers.map AttentionLayer.masked) x

/-- `action_out_tokens`, by `index_select` at `output_action_token_idx`. -/
def actionOutTokens (w : PolicyWeights cfg X V KV) (inp : PolicyInput cfg X V)
    (t : Fin cfg.nSteps) : Option V :=
  (w.transformer (w.sequence inp))[cfg.outputActionTokenIdx t]?

/-- `image_out_tokens`: the image slice of row `t`. -/
def imageOutTokens (w : PolicyWeights cfg X V KV) (inp : PolicyInput cfg X V)
    (t : Fin cfg.nSteps) : List V :=
  let ySteps := ((w.transformer (w.sequence inp)).drop (t * cfg.stepSize)).take cfg.stepSize
  (ySteps.drop cfg.textTokenSize).take cfg.nImgTokens

end PolicyWeights

/-! ## What the mask lets through -/

namespace PolicyConfig

variable (cfg : PolicyConfig)

/-- The place of the action-out token in its row. -/
def actionOutPlace : ℕ := cfg.nImgTokens + cfg.textTokenSize + cfg.nThinkingTokens

theorem actionOutPlace_lt_stepSize : cfg.actionOutPlace < cfg.stepSize := by
  unfold actionOutPlace stepSize
  omega

theorem stepSize_pos : 0 < cfg.stepSize :=
  (Nat.zero_le _).trans_lt cfg.actionOutPlace_lt_stepSize

theorem outputActionTokenIdx_eq (t : Fin cfg.nSteps) :
    cfg.outputActionTokenIdx t = t * cfg.stepSize + cfg.actionOutPlace := by
  simp only [outputActionTokenIdx, stepSize, actionOutPlace]
  ring

/-- Position `p` holds a real action token. -/
def IsRealAction (p : ℕ) : Prop := cfg.actionOutPlace < p % cfg.stepSize

/-- The mask in terms of the rows: earlier rows are open but for their
action-out token, and the own row is open up to the class of the query. -/
theorem layerMask_token (h q p : ℕ) :
    cfg.layerMask h q (cfg.nKvSinkTokens + p) = true ↔
      q / cfg.stepSize ≤ p / cfg.stepSize + h ∧
      ((p / cfg.stepSize < q / cfg.stepSize ∧ p % cfg.stepSize ≠ cfg.actionOutPlace) ∨
        (p / cfg.stepSize = q / cfg.stepSize ∧
          ((q % cfg.stepSize < cfg.actionOutPlace ∧ p % cfg.stepSize < cfg.actionOutPlace) ∨
           (q % cfg.stepSize = cfg.actionOutPlace ∧ p % cfg.stepSize ≤ cfg.actionOutPlace) ∨
           (cfg.IsRealAction q ∧ p % cfg.stepSize ≠ cfg.actionOutPlace)))) := by
  have hlen : oneStepLen cfg.nImgTokens cfg.nThinkingTokens (1 + cfg.nActionTokens)
      cfg.textTokenSize = (cfg.stepSize : ℤ) := by
    simp only [oneStepLen, stepSize]
    push_cast
    ring
  have hplace : tokenToActionOut cfg.nImgTokens cfg.nThinkingTokens cfg.textTokenSize =
      (cfg.actionOutPlace : ℤ) := by
    simp only [tokenToActionOut, actionOutPlace]
    push_cast
    ring
  have hbase : ((cfg.nKvSinkTokens + p : ℕ) : ℤ) - cfg.nKvSinkTokens = (p : ℤ) := by
    push_cast
    ring
  have hsink : ¬((cfg.nKvSinkTokens + p : ℕ) : ℤ) < cfg.nKvSinkTokens := by
    push_cast
    linarith [Int.natCast_nonneg p]
  simp only [layerMask, imgPolicyCausalMask, stepAndImgMask, stepAndRealActionMask,
    stepAndActionOutMask, hlen, hplace, hbase, hsink, ← Int.natCast_mod, ← Int.natCast_div,
    decide_false, Bool.false_or, Bool.and_eq_true, Bool.or_eq_true, decide_eq_true_eq,
    Bool.not_eq_true', decide_eq_false_iff_not, Nat.cast_lt, Nat.cast_inj, gt_iff_lt, IsRealAction]
  generalize q % cfg.stepSize = qr
  generalize p % cfg.stepSize = pr
  generalize q / cfg.stepSize = qs
  generalize p / cfg.stepSize = ps
  omega

/-- Positions that step `t` may depend on: all earlier rows, and its own row up
to the action-out token. -/
def DependsOn (t p : ℕ) : Prop :=
  p / cfg.stepSize < t ∨ p / cfg.stepSize = t ∧ ¬cfg.IsRealAction p

theorem dependsOn_of_layerMask {t h q p : ℕ} (hq : cfg.DependsOn t q)
    (hmask : cfg.layerMask h q (cfg.nKvSinkTokens + p) = true) : cfg.DependsOn t p := by
  obtain ⟨-, ⟨hlt, -⟩ | ⟨heq, hclass⟩⟩ := (cfg.layerMask_token h q p).mp hmask
  · left
    rcases hq with hq | ⟨hq, -⟩
    · exact hlt.trans hq
    · exact hq ▸ hlt
  · rcases hq with hq | ⟨hq, hreal⟩
    · exact .inl (heq ▸ hq)
    · refine .inr ⟨heq.trans hq, ?_⟩
      unfold IsRealAction
      rcases hclass with ⟨-, hp⟩ | ⟨-, hp⟩ | ⟨hqreal, -⟩
      · exact hp.le.not_gt
      · exact hp.not_gt
      · exact absurd hqreal hreal

theorem row_div (t : ℕ) {j : ℕ} (hj : j < cfg.stepSize) :
    (t * cfg.stepSize + j) / cfg.stepSize = t := by
  rw [Nat.mul_comm, Nat.mul_add_div cfg.stepSize_pos, Nat.div_eq_of_lt hj, Nat.add_zero]

theorem row_mod (t : ℕ) {j : ℕ} (hj : j < cfg.stepSize) :
    (t * cfg.stepSize + j) % cfg.stepSize = j := by
  rw [Nat.mul_comm, Nat.mul_add_mod, Nat.mod_eq_of_lt hj]

theorem dependsOn_of_place {t j : ℕ} (hj : j ≤ cfg.actionOutPlace) :
    cfg.DependsOn t (t * cfg.stepSize + j) := by
  have hlt := hj.trans_lt cfg.actionOutPlace_lt_stepSize
  right
  rw [IsRealAction, cfg.row_div t hlt, cfg.row_mod t hlt]
  exact ⟨rfl, hj.not_gt⟩

end PolicyConfig

/-! ## The rows of the sequence -/

namespace PolicyWeights

variable {cfg : PolicyConfig} {X V KV : Type} [AddMonoid V] [DecidableEq V]
  (w : PolicyWeights cfg X V KV)

/-- A row without its real action tokens. -/
def stepFront (inp : PolicyInput cfg X V) (i : Fin cfg.nSteps) : List V :=
  let text := w.imputeNoTextEmbedding fun j => w.textEmbedMlp (inp.textTokensEmbed i j)
  List.ofFn (fun j => text j + w.textPosTokens j)
    ++ List.ofFn (fun j => inp.imgTokens i j + w.imgPosTokens j)
    ++ List.ofFn w.thinkingPosTokens
    ++ [w.actionOutToken]

theorem thisStepIn_eq (inp : PolicyInput cfg X V) (i : Fin cfg.nSteps) :
    w.thisStepIn inp i =
      w.stepFront inp i ++ List.ofFn fun j => inp.actionEmbeddingsIn i j + w.actionPosTokens j :=
  rfl

theorem length_stepFront (inp : PolicyInput cfg X V) (i : Fin cfg.nSteps) :
    (w.stepFront inp i).length = cfg.actionOutPlace + 1 := by
  simp only [stepFront, List.length_append, List.length_ofFn, List.length_singleton,
    PolicyConfig.actionOutPlace]
  ring

@[simp] theorem length_thisStepIn (inp : PolicyInput cfg X V) (i : Fin cfg.nSteps) :
    (w.thisStepIn inp i).length = cfg.stepSize := by
  rw [thisStepIn_eq, List.length_append, length_stepFront, List.length_ofFn]
  simp only [PolicyConfig.actionOutPlace, PolicyConfig.stepSize]

theorem length_sequence (inp : PolicyInput cfg X V) :
    (w.sequence inp).length = cfg.nSteps * cfg.stepSize := by
  simp [sequence, List.length_flatten, Function.comp_def]

theorem getElem?_sequence (inp : PolicyInput cfg X V) (p : ℕ) :
    (w.sequence inp)[p]? =
      ((List.finRange cfg.nSteps)[p / cfg.stepSize]?).bind
        fun i => (w.thisStepIn inp i)[p % cfg.stepSize]? := by
  have hrows : ∀ r ∈ (List.finRange cfg.nSteps).map (w.thisStepIn inp),
      r.length = cfg.stepSize := by
    intro r hr
    obtain ⟨i, -, rfl⟩ := List.mem_map.mp hr
    exact w.length_thisStepIn inp i
  have hp : p = p / cfg.stepSize * cfg.stepSize + p % cfg.stepSize := by
    rw [Nat.mul_comm, Nat.div_add_mod]
  conv_lhs => rw [hp]
  rw [sequence, getElem?_flatten_rows hrows (Nat.mod_lt p cfg.stepSize_pos), List.getElem?_map,
    Option.bind_map]
  rfl

/-- The place of a real action token in the sequence. -/
theorem getElem?_sequence_action (inp : PolicyInput cfg X V) (i : Fin cfg.nSteps)
    (j : Fin cfg.nActionTokens) :
    (w.sequence inp)[i * cfg.stepSize + (cfg.actionOutPlace + 1 + j)]? =
      some (inp.actionEmbeddingsIn i j + w.actionPosTokens j) := by
  have hlt : cfg.actionOutPlace + 1 + j < cfg.stepSize :=
    Nat.add_lt_add_left j.isLt (cfg.actionOutPlace + 1)
  have hi : (List.finRange cfg.nSteps)[(i : ℕ)]? = some i := by
    rw [List.getElem?_eq_getElem (by simp)]
    simp
  have hfront : (w.stepFront inp i).length ≤ cfg.actionOutPlace + 1 + j :=
    (w.length_stepFront inp i).trans_le (Nat.le_add_right _ _)
  rw [getElem?_sequence, cfg.row_div i hlt, cfg.row_mod i hlt, hi, Option.bind_some,
    thisStepIn_eq, List.getElem?_append_right hfront, length_stepFront, Nat.add_sub_cancel_left,
    List.getElem?_ofFn, dif_pos j.isLt]

/-- A position holds the same token for inputs with the same row there, or with
the same front of that row when the position is in the front. -/
theorem getElem?_sequence_congr {inp inp' : PolicyInput cfg X V} {p : ℕ}
    (h : ∀ i : Fin cfg.nSteps, i = p / cfg.stepSize →
      w.thisStepIn inp i = w.thisStepIn inp' i ∨
        ¬cfg.IsRealAction p ∧ w.stepFront inp i = w.stepFront inp' i) :
    (w.sequence inp)[p]? = (w.sequence inp')[p]? := by
  rw [getElem?_sequence, getElem?_sequence]
  cases hi : (List.finRange cfg.nSteps)[p / cfg.stepSize]? with
  | none => rfl
  | some i =>
      have hival : (i : ℕ) = p / cfg.stepSize := by
        obtain ⟨hlt, rfl⟩ := List.getElem?_eq_some_iff.mp hi
        simp
      rw [Option.bind_some, Option.bind_some]
      rcases h i hival with hrow | ⟨hreal, hfront⟩
      · rw [hrow]
      · have hplace := Nat.le_of_not_lt hreal
        rw [thisStepIn_eq, thisStepIn_eq,
          List.getElem?_append_left (by rw [length_stepFront]; exact Nat.lt_succ_of_le hplace),
          List.getElem?_append_left (by rw [length_stepFront]; exact Nat.lt_succ_of_le hplace),
          hfront]

end PolicyWeights

/-! ## Causality -/

/-- Two inputs with the same text and images up to step `t` and the same actions
before it. -/
structure AgreeUpTo {cfg : PolicyConfig} {X V : Type} (t : Fin cfg.nSteps)
    (inp inp' : PolicyInput cfg X V) : Prop where
  img : ∀ i ≤ t, inp.imgTokens i = inp'.imgTokens i
  text : ∀ i ≤ t, inp.textTokensEmbed i = inp'.textTokensEmbed i
  actions : ∀ i < t, inp.actionEmbeddingsIn i = inp'.actionEmbeddingsIn i

namespace PolicyWeights

variable {cfg : PolicyConfig} {X V KV : Type} [AddMonoid V] [DecidableEq V]
  (w : PolicyWeights cfg X V KV)

section

variable {t : Fin cfg.nSteps} {inp inp' : PolicyInput cfg X V} (h : AgreeUpTo t inp inp')
include h

theorem stepFront_congr {i : Fin cfg.nSteps} (hi : i ≤ t) :
    w.stepFront inp i = w.stepFront inp' i := by
  rw [stepFront, stepFront, h.img i hi, h.text i hi]

theorem thisStepIn_congr {i : Fin cfg.nSteps} (hi : i < t) :
    w.thisStepIn inp i = w.thisStepIn inp' i := by
  rw [thisStepIn_eq, thisStepIn_eq, w.stepFront_congr h hi.le, h.actions i hi]

theorem sequence_agree : AgreeOn (cfg.DependsOn t) (w.sequence inp) (w.sequence inp') := by
  refine ⟨by rw [length_sequence, length_sequence], ?_⟩
  intro p hp
  apply w.getElem?_sequence_congr
  intro i hi
  rcases hp with hp | ⟨hp, hreal⟩
  · exact .inl (w.thisStepIn_congr h (Fin.lt_def.mpr (hi ▸ hp)))
  · -- in row `t` only the part before the real actions is shared
    exact .inr ⟨hreal, w.stepFront_congr h (Fin.le_def.mpr (hi.trans hp).le)⟩

/-- What the layers keep equal between the two inputs. -/
theorem transformer_agree : AgreeOn (cfg.DependsOn t) (w.transformer (w.sequence inp))
    (w.transformer (w.sequence inp')) := by
  apply runAll_agree_closed _ (w.sequence_agree h)
  intro l hl q hq p hsees
  obtain ⟨layer, -, rfl⟩ := List.mem_map.mp hl
  rw [MaskedLayer.Sees, AttentionLayer.masked, List.length_ofFn] at hsees
  exact cfg.dependsOn_of_layerMask hq hsees

end

theorem imageOutTokens_eq (inp : PolicyInput cfg X V) (t : Fin cfg.nSteps) :
    w.imageOutTokens inp t =
      ((w.transformer (w.sequence inp)).drop (t * cfg.stepSize + cfg.textTokenSize)).take
        cfg.nImgTokens := by
  have hroom : cfg.nImgTokens ≤ cfg.stepSize - cfg.textTokenSize := by
    simp only [PolicyConfig.stepSize]
    omega
  rw [imageOutTokens, List.drop_take, List.drop_drop, List.take_take, Nat.min_eq_left hroom]

theorem actionOutTokens_eq (inp : PolicyInput cfg X V) (t : Fin cfg.nSteps) :
    w.actionOutTokens inp t =
      (w.transformer (w.sequence inp))[t * cfg.stepSize + cfg.actionOutPlace]? := by
  rw [actionOutTokens, cfg.outputActionTokenIdx_eq]

theorem getElem?_imageOutTokens (inp : PolicyInput cfg X V) (t : Fin cfg.nSteps) {j : ℕ}
    (hj : j < cfg.nImgTokens) :
    (w.imageOutTokens inp t)[j]? =
      (w.transformer (w.sequence inp))[t * cfg.stepSize + (cfg.textTokenSize + j)]? := by
  rw [imageOutTokens_eq, List.getElem?_take_of_lt hj, List.getElem?_drop, Nat.add_assoc]

/-- The outputs of step `t` are the same when the tokens of its row up to the
action-out token are. -/
theorem outputs_congr {inp inp' : PolicyInput cfg X V} {A : ℕ → Prop} {t : Fin cfg.nSteps}
    (h : AgreeOn A (w.transformer (w.sequence inp)) (w.transformer (w.sequence inp')))
    (hA : ∀ j ≤ cfg.actionOutPlace, A (t * cfg.stepSize + j)) :
    w.actionOutTokens inp t = w.actionOutTokens inp' t ∧
      w.imageOutTokens inp t = w.imageOutTokens inp' t := by
  constructor
  · rw [actionOutTokens_eq, actionOutTokens_eq]
    exact h.2 _ (hA _ le_rfl)
  · rw [imageOutTokens_eq, imageOutTokens_eq]
    apply take_drop_congr
    intro j hj
    rw [Nat.add_assoc]
    apply h.2
    apply hA
    unfold PolicyConfig.actionOutPlace
    omega

/-- **Causality.** The action-out token and the image tokens of step `t` are the
same for inputs with the same text and images up to `t` and the same actions
before `t`. -/
theorem outputs_causal {t : Fin cfg.nSteps} {inp inp' : PolicyInput cfg X V}
    (h : AgreeUpTo t inp inp') :
    (w.actionOutTokens inp t).isSome ∧
      w.actionOutTokens inp t = w.actionOutTokens inp' t ∧
      (w.imageOutTokens inp t).length = cfg.nImgTokens ∧
      w.imageOutTokens inp t = w.imageOutTokens inp' t := by
  have hlen : (w.transformer (w.sequence inp)).length = cfg.nSteps * cfg.stepSize := by
    rw [transformer, length_runAll, length_sequence]
  have hrow : t * cfg.stepSize + cfg.stepSize ≤ cfg.nSteps * cfg.stepSize := by
    rw [← Nat.succ_mul]
    exact Nat.mul_le_mul_right _ t.isLt
  have hplace := cfg.actionOutPlace_lt_stepSize
  obtain ⟨hact, himg⟩ := w.outputs_congr (w.transformer_agree h) fun j hj =>
    cfg.dependsOn_of_place hj
  refine ⟨?_, hact, ?_, himg⟩
  · rw [actionOutTokens_eq, List.getElem?_eq_getElem (by omega)]
    rfl
  · rw [imageOutTokens_eq, List.length_take, List.length_drop, hlen]
    simp only [PolicyConfig.stepSize] at hrow ⊢
    omega

end PolicyWeights

section TwoSteps

/-- Two steps with one token of each class and two real actions. -/
def twoSteps : PolicyConfig :=
  { nSteps := 2, nImgTokens := 1, textTokenSize := 1, nThinkingTokens := 1, nActionTokens := 2,
    nKvSinkTokens := 1 }

/-- Two layers that add up what a token sees. -/
def summingWeights : PolicyWeights twoSteps ℤ ℤ ℤ :=
  let layer : AttentionLayer twoSteps ℤ ℤ :=
    { attentionHistoryLen := 1, sinks := fun _ => 5, project := fun _ v => v,
      update := fun _ v view => v + (view.map (·.getD 0)).sum }
  { textEmbedMlp := fun x => 2 * x, imgPosTokens := fun _ => 1, actionPosTokens := fun _ => 2,
    textPosTokens := fun _ => 3, textEmbeddingForNoTextInput := fun _ => 4,
    thinkingPosTokens := fun _ => 6, actionOutToken := 7, layers := [layer, layer] }

/-- The action of the first step is `a`. -/
def inputWithAction (a : ℤ) : PolicyInput twoSteps ℤ ℤ :=
  { imgTokens := fun _ _ => 1, actionEmbeddingsIn := fun i _ => if i.val = 0 then a else 0,
    textTokensEmbed := fun _ _ => 1 }

/-- The first step does not see its own action, the second step does. -/
theorem outputs_causal_twoSteps :
    summingWeights.actionOutTokens (inputWithAction 0) ⟨0, by decide⟩ =
        summingWeights.actionOutTokens (inputWithAction 9) ⟨0, by decide⟩ ∧
      summingWeights.imageOutTokens (inputWithAction 0) ⟨0, by decide⟩ =
        summingWeights.imageOutTokens (inputWithAction 9) ⟨0, by decide⟩ ∧
      summingWeights.actionOutTokens (inputWithAction 0) ⟨1, by decide⟩ ≠
        summingWeights.actionOutTokens (inputWithAction 9) ⟨1, by decide⟩ := by
  have hagree : AgreeUpTo (⟨0, by decide⟩ : Fin twoSteps.nSteps) (inputWithAction 0)
      (inputWithAction 9) :=
    { img := fun _ _ => rfl, text := fun _ _ => rfl,
      actions := fun i hi => absurd hi (Nat.not_lt_zero i) }
  obtain ⟨-, hact, -, himg⟩ := summingWeights.outputs_causal hagree
  exact ⟨hact, himg, by decide +kernel⟩

end TwoSteps

end P2PRdt.Policy

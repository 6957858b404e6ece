import P2PRdt.Policy.TrainingStep
import P2PRdt.Robot.StepMask

/-!
# Serving matches training

`online_full_predict_actions` with the inferred step mask, the texts in their several
shapes and the denoising loop, and the window of frames and actions that the server
hands to it. The head is told nothing of the free slots, so at each call it denoises
with the predictions that `_calculate_loss` makes for a sample that shows what the
filled slots hold, and anything else after them.
-/

namespace P2PRdt.Policy

open Lib
open Robot (SequenceInference InferenceState StepCall hasPixel hasPixel_iff filledMask
  getRdtValidStepMask getRdtValidStepMask_eq_iff)

variable {K : Type} [Field K] [LinearOrder K] {cfg : Stage3Config K}

/-! ## Texts -/

/-- Text embeddings by their number of dimensions: those of one text, with an axis of
steps or of samples, or with both. -/
inductive TextTokensEmbed (K : Type)
  | tokens (x : List (List K))
  | rows (x : List (List (List K)))
  | samples (x : List (List (List (List K))))
  | otherDims

/-- An array of `n` rows of length `d`. -/
def asRows {α : Type} (n d : ℕ) (x : List (List α)) : Option (Fin n → Fin d → α) :=
  (perStep n x).bind fun rows => everySample fun i => perStep d (rows i)

/-- An embedding of the right shape. -/
def asTextEmbedding (x : List (List K)) : Option cfg.TextEmbedding :=
  asRows cfg.textTokenSize cfg.textTokenizerEmbedDim x

/-- The axis of steps; one text is expanded to all of them. -/
def expandSteps (x : List (List (List K))) : Option (cfg.Step → cfg.TextEmbedding) :=
  match x with
  | [text] => (asTextEmbedding text).map fun text _ => text
  | texts => (perStep cfg.nSeqTimesteps texts).bind fun texts =>
      everySample fun i => asTextEmbedding (texts i)

/-- `_prepare_text_tokens_embed_for_inference` for a batch of one window. -/
def prepareTextTokensEmbedForInference (textTokensEmbed : Option (TextTokensEmbed K)) :
    Option (cfg.Step → cfg.TextEmbedding) :=
  match textTokensEmbed with
  | none => some fun _ _ _ => 0
  | some (.tokens x) => expandSteps [x]
  | some (.rows x) =>
      if x.length = cfg.nSeqTimesteps then expandSteps x
      else if x.length = 1 then expandSteps x
      else none
  | some (.samples [x]) => expandSteps x
  | some (.samples _) => none
  | some .otherDims => none

/-! ## The prediction -/

variable [Elementary K] {F : Type}

namespace Stage3Weights

variable (w : Stage3Weights cfg)

/-- The window as the policy transformer gets it; there are no labels. -/
def windowBatch (frames : cfg.Step → List UInt8) (textTokensEmbed : cfg.Step → cfg.TextEmbedding)
    (validStepMask : cfg.Step → Bool) : Stage3Batch cfg where
  labelMask _ _ := false
  validFrameMask := validStepMask
  frames
  textTokensEmbed

/-- The predictions for one window in a denoising step. -/
def windowPreds (batch : Stage3Batch cfg) (actions : cfg.Step → cfg.Action)
    (noisyActions : cfg.Step → cfg.Action) (timestep : K) : cfg.Step → cfg.Action :=
  w.predictRdtDenoisingTarget (.quiet cfg) noisyActions timestep
    (w.actionOutTokens (.quiet cfg) batch actions) (w.imageOutTokens (.quiet cfg) batch actions)
    actions batch.validFrameMask none

/-- `_denoise_action_sequence` for one window. -/
def denoiseWindow (scheduler : FlowMatchScheduler K)
    (preds : (cfg.Step → cfg.Action) → K → cfg.Step → cfg.Action)
    (initialSample : cfg.Step → cfg.Action) : Option (cfg.Step → cfg.Action) :=
  let only : Fin 1 := ⟨0, Nat.one_pos⟩
  (denoiseActionSequence scheduler
    (fun sample timesteps b ij =>
      preds (fun i j => sample b (i, j)) (timesteps.getD b 0) ij.1 ij.2)
    (fun _ ij => initialSample ij.1 ij.2)).map fun sample i j => sample only (i, j)

/-- `online_full_predict_actions`; `noise` is drawn when there is no initial sample. -/
def onlineFullPredictActions (scheduler : FlowMatchScheduler K) (pixels : F → List UInt8)
    (frames : List F) (actions : List cfg.Action) (textTokensEmbed : Option (TextTokensEmbed K))
    (initialSample : Option (List cfg.Action)) (noise : cfg.Step → cfg.Action) :
    Option (List cfg.Action) := do
  let validStepMask ← perStep cfg.nSeqTimesteps (getRdtValidStepMask pixels frames none)
  let frames ← perStep cfg.nSeqTimesteps frames
  let textTokensEmbed ← prepareTextTokensEmbedForInference textTokensEmbed
  let actions ← perStep cfg.nSeqTimesteps actions
  let sample ← initialSample.elim (some noise) (perStep cfg.nSeqTimesteps)
  let batch := windowBatch (fun i => pixels (frames i)) textTokensEmbed validStepMask
  let actionPreds ← denoiseWindow scheduler (w.windowPreds batch actions) sample
  pure (List.ofFn actionPreds)

/-- What `_calculate_loss` predicts for a sample outside of training. -/
def samplePreds (sample : LabelledSample cfg) (noisyActions : cfg.Step → cfg.Action)
    (timestep : K) : cfg.Step → cfg.Action :=
  (w.calculateLoss (.quiet cfg) sample.batch
    { noisyActions, timestep, actionTargets := fun _ _ => 0, actionLossWeight := 1 }
    sample.actionsIn sample.actionsIn).actionPreds

variable {w}

/-- A sample with the first `n` steps of a window as its visible ones. -/
structure ShowsSteps (sample : LabelledSample cfg) (n : ℕ) (batch : Stage3Batch cfg)
    (actions : cfg.Step → cfg.Action) : Prop where
  visible : ∀ i : cfg.Step, sample.batch.visible i = true ↔ i.val < n
  frames : ∀ i : cfg.Step, i.val < n → sample.batch.frames i = batch.frames i
  text : ∀ i : cfg.Step, i.val < n → sample.batch.textTokensEmbed i = batch.textTokensEmbed i
  actions : ∀ i : cfg.Step, i.val + 1 < n → sample.actionsIn i = actions i

/-- **The window and the sample.** With two filled slots the state is among the actions
that the two share. -/
theorem windowPreds_eq_samplePreds (hw : w.TokenizesFrames) {sample : LabelledSample cfg} {n : ℕ}
    {batch : Stage3Batch cfg} {actions : cfg.Step → cfg.Action}
    (h : ShowsSteps sample n batch actions)
    (hmask : ∀ i : cfg.Step, batch.validFrameMask i = true ↔ i.val < n) (hn : 2 ≤ n) :
    w.windowPreds batch actions = w.samplePreds sample := by
  have hvisible : batch.validFrameMask = sample.batch.visible := by
    ext i
    rw [Bool.eq_iff_iff, hmask, h.visible]
  have hstate : w.stateCondition actions = w.stateCondition sample.actionsIn := by
    unfold stateCondition
    split
    · split
      · exact (h.actions ⟨0, _⟩ (Nat.lt_of_succ_le hn)).symm
      · rfl
    · rfl
  -- a visible step has seen filled slots only
  have hseen : ∀ s, conditionMask batch.validFrameMask none s = true →
      w.actionOutTokens (.quiet cfg) batch actions s =
          w.actionOutTokens (.quiet cfg) sample.batch sample.actionsIn s ∧
        w.imageOutTokens (.quiet cfg) batch actions s =
          w.imageOutTokens (.quiet cfg) sample.batch sample.actionsIn s := by
    intro s hs
    have hs : s.val < n := (hmask s).mp hs
    apply outputs_seenAlike (.quiet cfg) hw
    constructor
    · intro i hi
      exact (h.frames i (lt_of_le_of_lt hi hs)).symm
    · intro i hi
      exact (h.text i (lt_of_le_of_lt hi hs)).symm
    · intro i hi
      exact (h.actions i (lt_of_le_of_lt (Nat.succ_le_of_lt hi) hs)).symm
  funext noisyActions timestep
  rw [windowPreds, predict_visible (.quiet cfg) noisyActions timestep hseen hstate, hvisible]
  rfl

/-! ## The window of the server -/

/-- A sample of training that shows what the filled slots hold: the frames, the text
and the actions before the newest one. -/
structure ReplaysWindow (pixels : F → List UInt8) (recent : List F)
    (textTokensEmbed : Option (TextTokensEmbed K)) (actionHistory : List cfg.Action)
    (sample : LabelledSample cfg) : Prop where
  visible : ∀ i : cfg.Step, sample.batch.visible i = true ↔ i.val < recent.length
  frames : ∀ (i : cfg.Step) (frame : F), recent[i.val]? = some frame →
    sample.batch.frames i = pixels frame
  text : ∃ text, prepareTextTokensEmbedForInference textTokensEmbed = some text ∧
    ∀ i : cfg.Step, i.val < recent.length → sample.batch.textTokensEmbed i = text i
  actions : ∀ i : cfg.Step, i.val + 1 < recent.length →
    actionHistory[i.val]? = some (sample.actionsIn i)

theorem length_filledMask {seqLen n : ℕ} (h : n ≤ seqLen) :
    (filledMask seqLen n).length = seqLen := by
  rw [filledMask, List.length_append, List.length_replicate, List.length_replicate,
    Nat.add_sub_cancel' h]

theorem getElem_filledMask {seqLen n i : ℕ} (hi : i < (filledMask seqLen n).length) :
    (filledMask seqLen n)[i] = true ↔ i < n := by
  simp only [filledMask, List.getElem_append, List.length_replicate, List.getElem_replicate]
  split
  · next hfilled => exact ⟨fun _ => hfilled, fun _ => rfl⟩
  · next hfree => exact ⟨fun hfalse => absurd hfalse Bool.false_ne_true, fun h => absurd h hfree⟩

/-- A prediction for a window whose free slots the mask leaves out. -/
theorem onlineFullPredictActions_replays (hw : w.TokenizesFrames) (scheduler : FlowMatchScheduler K)
    {pixels : F → List UInt8} {recent free : List F} {actionHistory : List cfg.Action}
    {textTokensEmbed : Option (TextTokensEmbed K)} {sample : LabelledSample cfg}
    (h : ReplaysWindow pixels recent textTokensEmbed actionHistory sample)
    (hlen : (recent ++ free).length = cfg.nSeqTimesteps)
    (hactions : actionHistory.length = cfg.nSeqTimesteps)
    (hmask : getRdtValidStepMask pixels (recent ++ free) none =
      filledMask cfg.nSeqTimesteps recent.length)
    (htwo : 2 ≤ recent.length) (initialSample : Option (List cfg.Action))
    (noise : cfg.Step → cfg.Action) :
    w.onlineFullPredictActions scheduler pixels (recent ++ free) actionHistory textTokensEmbed
        initialSample noise =
      (initialSample.elim (some noise) (perStep cfg.nSeqTimesteps)).bind fun initial =>
        (denoiseWindow scheduler (w.samplePreds sample) initial).map List.ofFn := by
  obtain ⟨text, htext, hsame⟩ := h.text
  have hle : recent.length ≤ cfg.nSeqTimesteps := by
    rw [← hlen, List.length_append]
    exact Nat.le_add_right _ _
  have hfilled := length_filledMask hle
  have hshows : ShowsSteps sample recent.length
      (windowBatch (fun i => pixels ((recent ++ free).get (i.cast hlen.symm))) text
        fun i => (filledMask cfg.nSeqTimesteps recent.length).get (i.cast hfilled.symm))
      fun i => actionHistory.get (i.cast hactions.symm) := by
    refine ⟨h.visible, fun i hi => ?_, hsame, fun i hi => ?_⟩
    · exact h.frames i _ (List.getElem?_eq_some_iff.mpr ⟨hi, (List.getElem_append_left hi).symm⟩)
    · obtain ⟨_, hrow⟩ := List.getElem?_eq_some_iff.mp (h.actions i hi)
      exact hrow.symm
  have hpreds := windowPreds_eq_samplePreds hw hshows (fun i => getElem_filledMask _) htwo
  simp only [onlineFullPredictActions, hmask, perStep_of_length hfilled, perStep_of_length hlen,
    perStep_of_length hactions, htext, Option.bind_eq_bind, Option.bind_some, hpreds,
    Option.pure_def, Option.map_eq_bind]
  rfl

section Serving

open Robot.SequenceInference

variable {Q D : Type}

/-- The model of the server, with the noise that is drawn where there is no warm
start. -/
structure Serves (C : SequenceInference F (TextTokensEmbed K) Q cfg.Action cfg.Action D)
    (w : Stage3Weights cfg) (scheduler : FlowMatchScheduler K) (pixels : F → List UInt8)
    (noise : D → cfg.Step → cfg.Action) : Prop where
  seqLen : C.seqLen = cfg.nSeqTimesteps
  zeros : TorchZeros C pixels
  predicts : ∀ frames actions textTokensEmbed initialSample draws,
    C.onlineFullPredict frames actions textTokensEmbed initialSample draws =
      w.onlineFullPredictActions scheduler pixels frames actions textTokensEmbed initialSample
        (noise draws)

variable {C : SequenceInference F (TextTokensEmbed K) Q cfg.Action cfg.Action D}
  {scheduler : FlowMatchScheduler K} {pixels : F → List UInt8} {noise : D → cfg.Step → cfg.Action}

omit [Field K] [LinearOrder K] [Elementary K] in
theorem givenFrames_append_call {calls : List (StepCall F (TextTokensEmbed K) Q D)}
    {call : StepCall F (TextTokensEmbed K) Q D} {pose : Q} (hpose : call.currentPose = some pose) :
    givenFrames (calls ++ [call]) = givenFrames calls ++ [call.frame] := by
  rw [givenFrames, List.filter_append, List.map_append]
  simp [givenFrames, hpose]

omit [Elementary K] in
/-- The window at a call that has put its frame into a slot. -/
theorem holdsFrames_observed {shape : List ℕ} (hzeros : TorchZeros C pixels)
    {s : InferenceState F (TextTokensEmbed K) Q cfg.Action} (hs : C.Reachable s)
    (prompt : Option String) (textTokensEmbed : Option (TextTokensEmbed K))
    {calls : List (StepCall F (TextTokensEmbed K) Q D)} {call : StepCall F (TextTokensEmbed K) Q D}
    {pose : Q} (hpose : call.currentPose = some pose)
    (hshape : ∀ frame ∈ givenFrames (calls ++ [call]), C.frameShape frame = shape)
    {slot : Option ℕ} {s' : InferenceState F (TextTokensEmbed K) Q cfg.Action}
    (hobserve : C.observe (C.updateText (C.after (C.reset s prompt textTokensEmbed) calls) call)
      call.frame pose = (slot, s')) :
    HoldsFrames C shape (frameState s') (givenFrames (calls ++ [call])) := by
  rw [givenFrames_append_call hpose] at hshape ⊢
  have hreset := hs.reset prompt textTokensEmbed
  have hbefore : ShapesAgree C shape (givenFrames calls) :=
    ⟨hzeros.shape, fun f hf => hshape f (List.mem_append_left _ hf)⟩
  have hheld := (holdsFrames_reset s prompt textTokensEmbed).after hreset.fullLength hbefore
  rw [List.nil_append] at hheld
  have hstate := frameState_observe
    (fullLength_updateText (hreset.after calls).fullLength call) call.frame pose
  rw [hobserve, frameState_updateText] at hstate
  rw [hstate]
  exact hheld.show hbefore (hshape _ (List.mem_append_right _ List.mem_cons_self))

/-- **Serving matches training.** At every call of the model after a reset, with frames
that have a lit pixel, the server denoises with the predictions that training makes for
any sample that shows the filled slots. -/
theorem predict_denoisesSample (hw : w.TokenizesFrames)
    (hserves : Serves C w scheduler pixels noise)
    {s : InferenceState F (TextTokensEmbed K) Q cfg.Action} (hs : C.Reachable s)
    (prompt : Option String) (textTokensEmbed : Option (TextTokensEmbed K))
    {calls : List (StepCall F (TextTokensEmbed K) Q D)} {call : StepCall F (TextTokensEmbed K) Q D}
    {shape : List ℕ}
    (hshape : ∀ frame ∈ givenFrames (calls ++ [call]), C.frameShape frame = shape)
    {pose : Q} {slot : ℕ} {s' : InferenceState F (TextTokensEmbed K) Q cfg.Action}
    (hpose : call.currentPose = some pose)
    (hobserve : C.observe (C.updateText (C.after (C.reset s prompt textTokensEmbed) calls) call)
      call.frame pose = (some slot, s'))
    (hmodel : s'.nPriorFrames ≠ 1)
    (hlit : ∀ frame ∈ lastN s'.nPriorFrames (givenFrames (calls ++ [call])),
      ∃ p ∈ pixels frame, p ≠ 0)
    {sample : LabelledSample cfg}
    (hsample : ReplaysWindow pixels (lastN s'.nPriorFrames (givenFrames (calls ++ [call])))
      s'.textTokensEmbed s'.actionHistory sample) :
    C.predict s' call.draws =
      ((if C.legacyInference then none
        else C.buildWarmStartSample s'.prevActionPreds call.draws).elim
          (some (noise call.draws)) (perStep cfg.nSeqTimesteps)).bind fun initial =>
        (denoiseWindow scheduler (w.samplePreds sample) initial).map List.ofFn := by
  have hheld := holdsFrames_observed hserves.zeros hs prompt textTokensEmbed hpose hshape hobserve
  have hcount : s'.nPriorFrames = min (givenFrames (calls ++ [call])).length C.seqLen :=
    hheld.count
  have hne : givenFrames (calls ++ [call]) ≠ [] := by
    rw [givenFrames_append_call hpose]
    exact List.append_ne_nil_of_right_ne_nil _ (List.cons_ne_nil _ _)
  have htwo : 2 ≤ s'.nPriorFrames := by
    have hpos := List.length_pos_iff.mpr hne
    have hone := C.seqLen_pos
    omega
  have hle : s'.nPriorFrames ≤ C.seqLen := hcount ▸ Nat.min_le_right _ _
  have hlen : (lastN s'.nPriorFrames (givenFrames (calls ++ [call]))).length = s'.nPriorFrames :=
    length_lastN (hcount ▸ Nat.min_le_left _ _)
  obtain ⟨first, -, hwindow⟩ := hheld.window hne
  have hframes : s'.frameHistory = some (lastN s'.nPriorFrames (givenFrames (calls ++ [call])) ++
      List.replicate (C.seqLen - s'.nPriorFrames) (C.zeroFrame first)) := hwindow
  have hblack : hasPixel pixels (C.zeroFrame first) = false := by
    rw [Bool.eq_false_iff, ne_eq, hasPixel_iff]
    rintro ⟨p, hp, hpixel⟩
    exact hpixel (hserves.zeros.black first p hp)
  have hactions : s'.actionHistory.length = C.seqLen := by
    have hobserved := fullLength_observe (fullLength_updateText
      ((hs.reset prompt textTokensEmbed).after calls).fullLength call) call.frame pose
    rw [hobserve] at hobserved
    exact hobserved.actions
  generalize lastN s'.nPriorFrames (givenFrames (calls ++ [call])) = recent at *
  rw [← hlen] at hframes hle htwo
  have hrecent : recent ≠ [] := List.length_pos_iff.mp (Nat.lt_of_succ_lt htwo)
  have hmask := (getRdtValidStepMask_eq_iff hrecent hblack hle).mpr
    (.inl fun frame hframe => hasPixel_iff.mpr (hlit frame hframe))
  have hsize : (recent ++ List.replicate (C.seqLen - recent.length) (C.zeroFrame first)).length =
      C.seqLen := by
    rw [List.length_append, List.length_replicate, Nat.add_sub_cancel' hle]
  rw [predict, hframes, Option.bind_eq_bind, Option.bind_some, hserves.predicts]
  rw [hserves.seqLen] at hmask hactions hsize ⊢
  exact onlineFullPredictActions_replays hw scheduler hsample hsize hactions hmask htwo _ _

end Serving

end Stage3Weights

/-! ## A window of two frames -/

section TwoFrames

open Stage3Weights Robot.SequenceInference

/-- The sample of a window and nothing else. -/
def windowSample (pixels : F → List UInt8) (recent : List F)
    (textTokensEmbed : cfg.Step → cfg.TextEmbedding) (actionHistory : List cfg.Action) :
    LabelledSample cfg where
  batch :=
    { labelMask := fun i _ => decide (i.val < recent.length)
      validFrameMask := fun i => decide (i.val < recent.length)
      frames := fun i => recent[i.val]?.elim [] pixels
      textTokensEmbed }
  actionsIn := fun i => actionHistory[i.val]?.getD 0

omit [Elementary K] in
theorem replaysWindow_windowSample {pixels : F → List UInt8} {recent : List F}
    {textTokensEmbed : Option (TextTokensEmbed K)} {text : cfg.Step → cfg.TextEmbedding}
    (htext : prepareTextTokensEmbedForInference textTokensEmbed = some text)
    {actionHistory : List cfg.Action} (hlen : actionHistory.length = cfg.nSeqTimesteps) :
    ReplaysWindow pixels recent textTokensEmbed actionHistory
      (windowSample pixels recent text actionHistory) where
  visible := by
    intro i
    rw [LossMasks.visible_iff]
    simp only [windowSample, decide_eq_true_eq]
    exact ⟨fun h => h.2, fun h => ⟨⟨cfg.actionLane, h⟩, h⟩⟩
  frames := by
    intro i frame hframe
    simp only [windowSample, hframe, Option.elim_some]
  text := ⟨text, htext, fun _ _ => rfl⟩
  actions := by
    intro i _
    have hi : i.val < actionHistory.length := i.isLt.trans_eq hlen.symm
    simp only [windowSample, List.getElem?_eq_getElem hi, Option.getD_some]

/-- A server with the relaying weights, whose poses are all the same. -/
noncomputable def relayServer : SequenceInference (List UInt8) (TextTokensEmbed ℝ) Unit
    twoStepConfig.Action twoStepConfig.Action Unit where
  seqLen := twoStepConfig.nSeqTimesteps
  seqLen_pos := Nat.two_pos
  legacyInference := true
  zeroPose := ()
  zeroRow := 0
  frameShape frame := [frame.length]
  zeroFrame frame := frame.map fun _ => 0
  encodePrompt _ := none
  coerceTextTokensEmbed := id
  makeIdentityRelativeAction _ := 0
  rebaseNormalizedActions rows _ := some rows
  rebaseNormalizedActionsToObservedAnchor rows _ _ := some rows
  buildWarmStartSample _ _ := none
  onlineFullPredict frames actions textTokensEmbed initialSample _ :=
    (relay twoStepConfig).onlineFullPredictActions oneLevel id frames actions textTokensEmbed
      initialSample fun _ => 0
  isFinite _ := true
  nanToNum := id
  toFloat32 := id
  stabilizeNormalizedAction _ row _ pose := (row, pose)
  length_rebase := by
    rintro rows anchor rebased ⟨⟩
    rfl
  length_rebaseToObservedAnchor := by
    rintro rows previous new rebased ⟨⟩
    rfl

theorem serves_relayServer :
    Serves relayServer (relay twoStepConfig) oneLevel id fun _ _ => 0 where
  seqLen := rfl
  zeros :=
    { shape := fun frame => congrArg (fun n => [n]) (List.length_map _)
      black := by
        intro frame p hp
        obtain ⟨_, -, rfl⟩ := List.mem_map.mp hp
        rfl }
  predicts _ _ _ _ _ := rfl

/-- A call that shows a frame of one pixel. -/
def showPixel (pixel : UInt8) : StepCall (List UInt8) (TextTokensEmbed ℝ) Unit Unit where
  frame := [pixel]
  currentPose := some ()
  prompt := none
  textTokensEmbed := none
  draws := ()

theorem exists_denoiseWindow_oneLevel {cfg : Stage3Config ℝ}
    (preds : (cfg.Step → cfg.Action) → ℝ → cfg.Step → cfg.Action)
    (initialSample : cfg.Step → cfg.Action) :
    ∃ actions, denoiseWindow oneLevel preds initialSample = some actions := by
  have hid : oneLevel.timestepId 1 = some 0 := by
    simp [FlowMatchScheduler.timestepId, oneLevel, argmin]
  have hstep : ∀ output sample : Batch 1 (cfg.Step × Fin cfg.nActions) ℝ,
      ∃ next, oneLevel.step output [1] sample true = some next := by
    intro output sample
    simp only [FlowMatchScheduler.step, List.head?_cons, Option.bind_eq_bind, Option.bind_some, hid]
    exact ⟨_, rfl⟩
  obtain ⟨next, hnext⟩ := hstep
    (fun b ij => preds (fun i j => initialSample i j) ([1].getD b 0) ij.1 ij.2)
    fun _ ij => initialSample ij.1 ij.2
  have hdenoise : denoiseActionSequence oneLevel
      (fun (sample : Batch 1 (cfg.Step × Fin cfg.nActions) ℝ) timesteps b ij =>
        preds (fun i j => sample b (i, j)) (timesteps.getD b 0) ij.1 ij.2)
      (fun _ ij => initialSample ij.1 ij.2) = some next :=
    (congrArg (Option.bind · some) hnext).trans (Option.bind_some ..)
  exact ⟨_, congrArg (Option.map _) hdenoise⟩

/-- After one frame with a lit pixel, the server is shown another one. -/
theorem predict_denoisesSample_twoFrames : ∃ s' sample actions,
    relayServer.observe (relayServer.updateText (relayServer.after
      (relayServer.reset relayServer.initState none none) [showPixel 7]) (showPixel 9))
        [9] () = (some 1, s') ∧
    relayServer.predict s' () = some (List.ofFn actions) ∧
    denoiseWindow oneLevel ((relay twoStepConfig).samplePreds sample) (fun _ _ => 0) =
      some actions := by
  have htext : (prepareTextTokensEmbedForInference none :
      Option (twoStepConfig.Step → twoStepConfig.TextEmbedding)) = some fun _ _ _ => 0 := rfl
  have hshape : ∀ frame ∈ givenFrames ([showPixel 7] ++ [showPixel 9]),
      relayServer.frameShape frame = [1] := by decide
  let sample : LabelledSample twoStepConfig :=
    windowSample id [[7], [9]] (fun _ _ _ => 0) [0, 0]
  obtain ⟨actions, hactions⟩ := exists_denoiseWindow_oneLevel
    ((relay twoStepConfig).samplePreds sample) fun _ _ => 0
  refine ⟨_, sample, actions, rfl, ?_, hactions⟩
  have hpredict := predict_denoisesSample (w := relay twoStepConfig) (fun _ _ _ _ => rfl)
    serves_relayServer (.start rfl) none none hshape rfl rfl (by decide) (by decide)
    (replaysWindow_windowSample htext rfl)
  refine hpredict.trans ?_
  exact congrArg (Option.map List.ofFn) hactions

end TwoFrames

end P2PRdt.Policy

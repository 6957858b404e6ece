import P2PRdt.Policy.FlowMatching
import P2PRdt.Policy.TargetLeakage
import P2PRdt.Policy.VisibleSteps
import P2PRdt.Robot.ItemRebase

/-!
# One training step

`training_step` from a batch of items to its loss: the augmentation of the frames,
the check of the lengths, the labels with their mask, the noisy actions, and
`_calculate_loss` over all samples. Everything drawn at random is an argument.
An augmentation takes each frame by itself.

A frame or text after the last supervised step of a sample is seen by no condition
that the head reads, so the loss does not depend on it.
-/

namespace P2PRdt.Policy

open Lib
open Robot (DatasetItem)

/-! ## Labels -/

section Labels

variable {K : Type} [Field K] [LinearOrder K] {F T : Type}

/-- The `lengths` of `_validate_batch_sequence_length`. -/
def batchLengths (item : DatasetItem K F T) : List (String × ℕ) :=
  [("frames", item.frames.length),
    ("action_annotations", item.actionAnnotations.length),
    ("user_action_mask", item.userActionMask.length),
    ("system_action_mask", item.systemActionMask.length),
    ("text_embeddings", item.textEmbeddings.length),
    ("action_mask", item.actionMask.length)] ++
  (item.validFrameMask.map fun mask => ("valid_frame_mask", mask.length)).toList

/-- The fields with a wrong length, which raise. -/
def mismatchedLengths (expectedSeqLen : ℕ) (item : DatasetItem K F T) : List (String × ℕ) :=
  (batchLengths item).filter fun entry => entry.2 ≠ expectedSeqLen

/-- `_compute_effective_mask`, which leaves the system actions aside. -/
def computeEffectiveMask (userActionMask validFrameMask _systemActionMask : Bool) : Bool :=
  validFrameMask && userActionMask

/-- A field with one entry for each step. -/
def perStep {α : Type} (n : ℕ) (field : List α) : Option (Fin n → α) :=
  if h : field.length = n then some fun i => field.get (i.cast h.symm) else none

/-- What `_create_target_and_masked_labels` makes of a sample. -/
structure LabelledSample (cfg : Stage3Config K) where
  batch : Stage3Batch cfg
  actionsIn : cfg.Step → cfg.Action

variable {cfg : Stage3Config K}

/-- The labels of a sample; a wrong length, a missing mask and a wrong width of the
actions raise. -/
def createTargetAndMaskedLabels (pixels : F → List UInt8)
    (item : DatasetItem K F cfg.TextEmbedding) : Option (LabelledSample cfg) :=
  if mismatchedLengths cfg.nSeqTimesteps item ≠ [] then none
  else
    if hwidth : item.actionWidth = cfg.nActions then do
      let frames ← perStep cfg.nSeqTimesteps item.frames
      let actionAnnotations ← perStep cfg.nSeqTimesteps item.actionAnnotations
      let userActionMask ← perStep cfg.nSeqTimesteps item.userActionMask
      let systemActionMask ← perStep cfg.nSeqTimesteps item.systemActionMask
      let textEmbeddings ← perStep cfg.nSeqTimesteps item.textEmbeddings
      let validFrameMask ← item.validFrameMask.bind (perStep cfg.nSeqTimesteps)
      let actionMask ← perStep cfg.nSeqTimesteps item.actionMask
      pure
        { batch :=
            { labelMask := fun i j =>
                actionMask i (j.cast hwidth.symm) &&
                  computeEffectiveMask (userActionMask i) (validFrameMask i) (systemActionMask i)
              validFrameMask := validFrameMask
              frames := fun i => pixels (frames i)
              textTokensEmbed := textEmbeddings }
          actionsIn := fun i j => actionAnnotations i (j.cast hwidth.symm) }
    else none

end Labels

/-- All samples of a batch, when there are all. -/
def everySample {B : ℕ} {α : Type} (f : Fin B → Option α) : Option (Fin B → α) :=
  if h : ∀ b, (f b).isSome then some fun b => (f b).get (h b) else none

/-! ## The step -/

variable {K : Type} [Field K] [LinearOrder K] [Elementary K] {cfg : Stage3Config K} {B : ℕ}
  {F : Type}

/-- What a training step draws. `augment` takes a sample, a step and its frame; it is
missing in the steps that are not augmented. -/
structure TrainingDraws (cfg : Stage3Config K) (F : Type) (B : ℕ) where
  augment : Option (Fin B → ℕ → F → F)
  policy : Fin B → Stage3Draws cfg
  timestep : Fin B → K
  noise : Batch B (cfg.Step × Fin cfg.nActions) K

omit [Elementary K] in
/-- `_apply_augmentations`. -/
def applyAugmentations (augment : Option (Fin B → ℕ → F → F))
    (batch : Fin B → DatasetItem K F cfg.TextEmbedding) :
    Fin B → DatasetItem K F cfg.TextEmbedding :=
  match augment with
  | none => batch
  | some augment => fun b => { batch b with frames := (batch b).frames.mapIdx (augment b) }

namespace Stage3Weights

variable (w : Stage3Weights cfg)

/-- `robot_action_mse` over the samples of a batch. -/
def batchLoss (draws : Fin B → Stage3Draws cfg) (samples : Fin B → LabelledSample cfg)
    (noisy : Fin B → NoisySample cfg) : K :=
  let actionPreds := fun b => (w.calculateLoss (draws b) (samples b).batch (noisy b)
    (samples b).actionsIn (samples b).actionsIn).actionPreds
  let masked := fun (x : Fin B → cfg.Step → cfg.Action) b i j =>
    if (samples b).batch.labelMask i j then x b i j else 0
  let actionMask := masked fun _ _ _ => 1
  let squaredError := fun b i j =>
    (masked actionPreds b i j - masked (fun b => (noisy b).actionTargets) b i j) ^ 2 *
      (noisy b).actionLossWeight
  let denom := max (∑ b, ∑ i, ∑ j, actionMask b i j) 1
  (∑ b, ∑ i, ∑ j, squaredError b i j * actionMask b i j) / denom

/-- The loss of `training_step`; a weight that is no number makes it none. -/
def trainingStep [FloorRing K] (s : FlowMatchScheduler K) (pixels : F → List UInt8)
    (draws : TrainingDraws cfg F B) (batch : Fin B → DatasetItem K F cfg.TextEmbedding) :
    Option K := do
  let batch := applyAugmentations draws.augment batch
  let samples ← everySample fun b => createTargetAndMaskedLabels pixels (batch b)
  let (noisyActions, actionTargets, timesteps, weights) ←
    sampleNoisyActionSequence s draws.timestep draws.noise fun b ij =>
      (samples b).actionsIn ij.1 ij.2
  let weights ← weights.mapM id
  pure (w.batchLoss draws.policy samples fun b =>
    { noisyActions := fun i j => noisyActions b (i, j)
      actionTargets := fun i j => actionTargets b (i, j)
      timestep := timesteps.getD b 0
      actionLossWeight := weights.getD b 0 })

end Stage3Weights

/-! ## Samples that look alike to the loss -/

/-- The loss looks at this step: the frame is valid, the user acts and some channel
is labelled. -/
structure Supervised {T : Type} (item : DatasetItem K F T) (s : ℕ) : Prop where
  user : item.userActionMask[s]? = some true
  valid : ∃ mask, item.validFrameMask = some mask ∧ mask[s]? = some true
  labelled : ∃ row, item.actionMask[s]? = some row ∧ ∃ j, row j = true

/-- Frames and texts that differ from those of the item after its last supervised
step only. -/
structure SupervisedAlike {T : Type} (item : DatasetItem K F T) (frames : List F)
    (textEmbeddings : List T) : Prop where
  frames_length : frames.length = item.frames.length
  text_length : textEmbeddings.length = item.textEmbeddings.length
  frames : ∀ s, Supervised item s → ∀ i ≤ s, frames[i]? = item.frames[i]?
  text : ∀ s, Supervised item s → ∀ i ≤ s, textEmbeddings[i]? = item.textEmbeddings[i]?

/-- Samples with the same labels that agree up to every visible step. -/
structure LabelledSample.Alike (sample sample' : LabelledSample cfg) : Prop where
  masks : sample.batch.toLossMasks = sample'.batch.toLossMasks
  actionsIn : sample.actionsIn = sample'.actionsIn
  seen : ∀ s, sample.batch.visible s = true →
    SeenAlike sample.batch sample'.batch sample.actionsIn sample'.actionsIn s

omit [Elementary K] in
/-- The fields of an item that the training step accepts. -/
structure Labellable (cfg : Stage3Config K) {T : Type} (item : DatasetItem K F T)
    (valid : List Bool) : Prop where
  width : item.actionWidth = cfg.nActions
  frames : item.frames.length = cfg.nSeqTimesteps
  actions : item.actionAnnotations.length = cfg.nSeqTimesteps
  user : item.userActionMask.length = cfg.nSeqTimesteps
  system : item.systemActionMask.length = cfg.nSeqTimesteps
  text : item.textEmbeddings.length = cfg.nSeqTimesteps
  validFrameMask : item.validFrameMask = some valid
  valid : valid.length = cfg.nSeqTimesteps
  actionMask : item.actionMask.length = cfg.nSeqTimesteps

section Alike

omit [Elementary K]

variable {item : DatasetItem K F cfg.TextEmbedding} {valid : List Bool} (pixels : F → List UInt8)

/-- The sample of an accepted item. -/
def Labellable.sample (h : Labellable cfg item valid) : LabelledSample cfg where
  batch :=
    { labelMask := fun i j =>
        item.actionMask.get (i.cast h.actionMask.symm) (j.cast h.width.symm) &&
          (valid.get (i.cast h.valid.symm) && item.userActionMask.get (i.cast h.user.symm))
      validFrameMask := fun i => valid.get (i.cast h.valid.symm)
      frames := fun i => pixels (item.frames.get (i.cast h.frames.symm))
      textTokensEmbed := fun i => item.textEmbeddings.get (i.cast h.text.symm) }
  actionsIn := fun i j => item.actionAnnotations.get (i.cast h.actions.symm) (j.cast h.width.symm)

theorem perStep_of_length {α : Type} {n : ℕ} {field : List α} (h : field.length = n) :
    perStep n field = some fun i => field.get (i.cast h.symm) :=
  dif_pos h

omit [Field K] [LinearOrder K] in
theorem mismatchedLengths_eq_nil {n : ℕ} {T : Type} {item : DatasetItem K F T} :
    mismatchedLengths n item = [] ↔ ∀ entry ∈ batchLengths item, entry.2 = n := by
  simp only [mismatchedLengths, List.filter_eq_nil_iff, decide_eq_true_eq, not_not]

theorem Labellable.labels (h : Labellable cfg item valid) :
    createTargetAndMaskedLabels pixels item = some (h.sample pixels) := by
  have hnone : mismatchedLengths cfg.nSeqTimesteps item = [] := by
    rw [mismatchedLengths_eq_nil]
    simp [batchLengths, h.frames, h.actions, h.user, h.system, h.text, h.validFrameMask, h.valid,
      h.actionMask]
  rw [createTargetAndMaskedLabels, if_neg (not_not.mpr hnone), dif_pos h.width]
  simp only [perStep_of_length h.frames, perStep_of_length h.actions, perStep_of_length h.user,
    perStep_of_length h.system, perStep_of_length h.text, h.validFrameMask, Option.bind_some,
    perStep_of_length h.valid, perStep_of_length h.actionMask, Option.bind_eq_bind,
    Option.pure_def]
  rfl

/-- Nothing else is accepted. -/
theorem labellable_of_labels {sample : LabelledSample cfg}
    (h : createTargetAndMaskedLabels pixels item = some sample) :
    ∃ valid, Labellable cfg item valid := by
  rw [createTargetAndMaskedLabels] at h
  split at h
  · cases h
  · next hlengths =>
    have hlengths := mismatchedLengths_eq_nil.mp (not_not.mp hlengths)
    split at h
    · next hwidth =>
      simp only [Option.bind_eq_bind, Option.bind_eq_some_iff] at h
      obtain ⟨-, -, -, -, -, -, -, -, -, -, -, ⟨valid, hvalid, -⟩, -⟩ := h
      have hlength : ∀ name length, (name, length) ∈ batchLengths item →
          length = cfg.nSeqTimesteps := fun _ _ hentry => hlengths _ hentry
      exact ⟨valid,
        { width := hwidth
          frames := hlength "frames" _ (by simp [batchLengths])
          actions := hlength "action_annotations" _ (by simp [batchLengths])
          user := hlength "user_action_mask" _ (by simp [batchLengths])
          system := hlength "system_action_mask" _ (by simp [batchLengths])
          text := hlength "text_embeddings" _ (by simp [batchLengths])
          validFrameMask := hvalid
          valid := hlength "valid_frame_mask" _ (by simp [batchLengths, hvalid])
          actionMask := hlength "action_mask" _ (by simp [batchLengths]) }⟩
    · cases h

/-- The visible steps are the supervised ones. -/
theorem Labellable.visible_iff (h : Labellable cfg item valid) {s : cfg.Step} :
    (h.sample pixels).batch.visible s = true ↔ Supervised item s := by
  rw [LossMasks.visible_iff]
  constructor
  · rintro ⟨⟨j, hlabel⟩, hvalid⟩
    obtain ⟨hlabel, heffective⟩ := Bool.and_eq_true_iff.mp hlabel
    obtain ⟨-, huser⟩ := Bool.and_eq_true_iff.mp heffective
    refine ⟨?_, ⟨valid, h.validFrameMask, ?_⟩, _, ?_, _, hlabel⟩
    · exact List.getElem?_eq_some_iff.mpr ⟨_, huser⟩
    · exact List.getElem?_eq_some_iff.mpr ⟨_, hvalid⟩
    · exact List.getElem?_eq_some_iff.mpr ⟨_, rfl⟩
  · rintro ⟨huser, ⟨mask, hmask, hvalid⟩, row, hrow, j, hj⟩
    obtain rfl := Option.some.inj (h.validFrameMask.symm.trans hmask)
    obtain ⟨_, hu⟩ := List.getElem?_eq_some_iff.mp huser
    obtain ⟨_, hv⟩ := List.getElem?_eq_some_iff.mp hvalid
    obtain ⟨_, hr⟩ := List.getElem?_eq_some_iff.mp hrow
    refine ⟨⟨j.cast h.width, ?_⟩, hv⟩
    exact Bool.and_eq_true_iff.mpr ⟨(congrFun hr j).trans hj, Bool.and_eq_true_iff.mpr ⟨hv, hu⟩⟩

theorem Labellable.other {frames : List F} {text : List cfg.TextEmbedding}
    (h : Labellable cfg item valid) (hframes : frames.length = item.frames.length)
    (htext : text.length = item.textEmbeddings.length) :
    Labellable cfg { item with frames := frames, textEmbeddings := text } valid :=
  { h with frames := hframes.trans h.frames, text := htext.trans h.text }

/-- Other frames and texts after the last supervised step make an alike sample. -/
theorem labels_alike {frames : List F} {text : List cfg.TextEmbedding}
    (h : SupervisedAlike item frames text) :
    Option.Rel LabelledSample.Alike (createTargetAndMaskedLabels pixels item)
      (createTargetAndMaskedLabels pixels
        { item with frames := frames, textEmbeddings := text }) := by
  by_cases hitem : ∃ valid, Labellable cfg item valid
  · obtain ⟨valid, hitem⟩ := hitem
    have hother := hitem.other h.frames_length h.text_length
    rw [hitem.labels pixels, hother.labels pixels]
    refine .some ⟨rfl, rfl, fun s hs => ?_⟩
    have hsupervised := (hitem.visible_iff pixels).mp hs
    constructor
    · intro i hi
      have hget := h.frames s hsupervised i hi
      rw [List.getElem?_eq_getElem (i.isLt.trans_eq hother.frames.symm),
        List.getElem?_eq_getElem (i.isLt.trans_eq hitem.frames.symm)] at hget
      exact congrArg pixels (Option.some.inj hget).symm
    · intro i hi
      have hget := h.text s hsupervised i hi
      rw [List.getElem?_eq_getElem (i.isLt.trans_eq hother.text.symm),
        List.getElem?_eq_getElem (i.isLt.trans_eq hitem.text.symm)] at hget
      exact (Option.some.inj hget).symm
    · intro i _
      rfl
  · have hnone : createTargetAndMaskedLabels pixels item = none := by
      cases hlabels : createTargetAndMaskedLabels pixels item with
      | none => rfl
      | some sample => exact absurd (labellable_of_labels pixels hlabels) hitem
    have hother : createTargetAndMaskedLabels pixels
        { item with frames := frames, textEmbeddings := text } = none := by
      cases hlabels : createTargetAndMaskedLabels pixels
          { item with frames := frames, textEmbeddings := text } with
      | none => rfl
      | some sample =>
          obtain ⟨valid, hvalid⟩ := labellable_of_labels pixels hlabels
          exact absurd ⟨valid, hvalid.other h.frames_length.symm h.text_length.symm⟩ hitem
    rw [hnone, hother]
    exact .none

omit [Field K] [LinearOrder K] in
theorem SupervisedAlike.augmented {T : Type} {item : DatasetItem K F T} {frames : List F}
    {text : List T} (h : SupervisedAlike item frames text) (augment : ℕ → F → F) :
    SupervisedAlike { item with frames := item.frames.mapIdx augment } (frames.mapIdx augment)
      text where
  frames_length := by rw [List.length_mapIdx, List.length_mapIdx, h.frames_length]
  text_length := h.text_length
  frames := by
    intro s hs i hi
    rw [List.getElem?_mapIdx, List.getElem?_mapIdx,
      h.frames s ⟨hs.user, hs.valid, hs.labelled⟩ i hi]
  text := fun s hs => h.text s ⟨hs.user, hs.valid, hs.labelled⟩

end Alike

section Pass

variable {α β : Type} {R : α → β → Prop}

theorem rel_isSome {a : Option α} {b : Option β} (h : Option.Rel R a b) :
    a.isSome = b.isSome := by
  cases h <;> rfl

theorem rel_get {a : Option α} {b : Option β} (h : Option.Rel R a b) (ha : a.isSome)
    (hb : b.isSome) : R (a.get ha) (b.get hb) := by
  cases h with
  | some h => exact h
  | none => cases ha

/-- A pass over the batch keeps a relation between its samples. -/
theorem everySample_rel {f : Fin B → Option α} {g : Fin B → Option β}
    (h : ∀ b, Option.Rel R (f b) (g b)) :
    Option.Rel (fun x y => ∀ b, R (x b) (y b)) (everySample f) (everySample g) := by
  unfold everySample
  by_cases hall : ∀ b, (f b).isSome
  · have hother : ∀ b, (g b).isSome := fun b => rel_isSome (h b) ▸ hall b
    rw [dif_pos hall, dif_pos hother]
    exact .some fun b => rel_get (h b) (hall b) (hother b)
  · have hother : ¬ ∀ b, (g b).isSome := fun hg => hall fun b => rel_isSome (h b) ▸ hg b
    rw [dif_neg hall, dif_neg hother]
    exact .none

theorem bind_eq_of_rel {γ : Type} {a : Option α} {b : Option β} {f : α → Option γ}
    {g : β → Option γ} (h : Option.Rel R a b) (hfg : ∀ x y, R x y → f x = g y) :
    a.bind f = b.bind g := by
  cases h with
  | none => rfl
  | some h => exact hfg _ _ h

end Pass

/-! ## The loss -/

namespace Stage3Weights

variable {w : Stage3Weights cfg}

theorem actionPreds_alike (hw : w.TokenizesFrames) (d : Stage3Draws cfg)
    {sample sample' : LabelledSample cfg} (h : sample.Alike sample') (noisy : NoisySample cfg) :
    (w.calculateLoss d sample.batch noisy sample.actionsIn sample.actionsIn).actionPreds =
      (w.calculateLoss d sample'.batch noisy sample'.actionsIn sample'.actionsIn).actionPreds := by
  obtain ⟨⟨masks, frames, text⟩, actions⟩ := sample
  obtain ⟨⟨masks', frames', text'⟩, actions'⟩ := sample'
  obtain rfl : masks = masks' := h.masks
  obtain rfl : actions = actions' := h.actionsIn
  exact predict_visible d _ _ (fun s hs => outputs_seenAlike d hw (h.seen s hs)) rfl

theorem batchLoss_alike (hw : w.TokenizesFrames) (draws : Fin B → Stage3Draws cfg)
    {samples samples' : Fin B → LabelledSample cfg} (h : ∀ b, (samples b).Alike (samples' b))
    (noisy : Fin B → NoisySample cfg) :
    w.batchLoss draws samples noisy = w.batchLoss draws samples' noisy := by
  have hpreds := fun b => actionPreds_alike hw (draws b) (h b) (noisy b)
  have hmask : ∀ b, (samples b).batch.labelMask = (samples' b).batch.labelMask :=
    fun b => congrArg LossMasks.labelMask (h b).masks
  simp only [batchLoss, hpreds, hmask]

variable [FloorRing K]

/-- **What comes after the last supervised step does not count.** In every training
step, augmented or not, the loss is the same for frames and texts that differ after
the last supervised step of their sample, and a sample without supervised steps may
have any. -/
theorem trainingStep_supervisedPast (hw : w.TokenizesFrames) (s : FlowMatchScheduler K)
    (pixels : F → List UInt8) (draws : TrainingDraws cfg F B)
    {batch : Fin B → DatasetItem K F cfg.TextEmbedding} {frames : Fin B → List F}
    {text : Fin B → List cfg.TextEmbedding}
    (h : ∀ b, SupervisedAlike (batch b) (frames b) (text b)) :
    w.trainingStep s pixels draws
        (fun b => { batch b with frames := frames b, textEmbeddings := text b }) =
      w.trainingStep s pixels draws batch := by
  have hlabels : ∀ b, Option.Rel LabelledSample.Alike
      (createTargetAndMaskedLabels pixels (applyAugmentations draws.augment batch b))
      (createTargetAndMaskedLabels pixels (applyAugmentations draws.augment
        (fun b => { batch b with frames := frames b, textEmbeddings := text b }) b)) := by
    intro b
    cases draws.augment with
    | none => exact labels_alike pixels (h b)
    | some augment => exact labels_alike pixels ((h b).augmented (augment b))
  refine (bind_eq_of_rel (everySample_rel hlabels) fun samples samples' hsame => ?_).symm
  have hactions : (fun b (ij : cfg.Step × Fin cfg.nActions) => (samples b).actionsIn ij.1 ij.2) =
      fun b ij => (samples' b).actionsIn ij.1 ij.2 := by
    ext b ij
    rw [(hsame b).actionsIn]
  simp only [hactions, batchLoss_alike hw draws.policy hsame]

end Stage3Weights

section Padded

/-- An item of one frame, padded to two steps. -/
noncomputable def paddedItem : DatasetItem ℝ (List UInt8) twoStepConfig.TextEmbedding where
  actionWidth := 1
  frames := [[1], [1]]
  actionAnnotations := [fun _ => 1, fun _ => 0]
  envSubenvEncoding := [0, 0]
  userActionMask := [true, false]
  textEmbeddings := [fun _ _ => 1, fun _ _ => 1]
  systemActionMask := [false, false]
  validFrameMask := some [true, false]
  actionMask := [fun _ => true, fun _ => false]

theorem supervisedAlike_paddedItem :
    SupervisedAlike paddedItem [[1], [200]] [fun _ _ => 1, fun _ _ => 7] := by
  have hfirst : ∀ s, Supervised paddedItem s → s = 0 := by
    intro s hs
    have huser := hs.user
    match s with
    | 0 => rfl
    | 1 => cases huser
    | s + 2 => cases huser
  constructor
  · rfl
  · rfl
  · intro s hs i hi
    rw [hfirst s hs, Nat.le_zero] at hi
    rw [hi]
    rfl
  · intro s hs i hi
    rw [hfirst s hs, Nat.le_zero] at hi
    rw [hi]
    rfl

/-- A schedule of one noise level, in training. -/
noncomputable def oneLevel : FlowMatchScheduler ℝ :=
  { FlowMatchScheduler.defaults with
    numTrainTimesteps := 1
    sigmas := [1]
    timesteps := [1]
    linearTimestepsWeights := some [some 1]
    training := true }

/-- Draws without augmentation, dropout or noise. -/
noncomputable def quietDraws : TrainingDraws twoStepConfig (List UInt8) 1 where
  augment := none
  policy _ := .quiet twoStepConfig
  timestep _ := 0
  noise _ _ := 0

theorem labellable_paddedItem : Labellable twoStepConfig paddedItem [true, false] :=
  ⟨rfl, rfl, rfl, rfl, rfl, rfl, rfl, rfl, rfl⟩

theorem sampleNoisyActionSequence_oneLevel {ι : Type} (noise clean : Batch 1 ι ℝ) :
    ∃ noisy target, sampleNoisyActionSequence oneLevel (fun _ => 0) noise clean =
      some (noisy, target, [1], [some 1]) := by
  have hid : sampleTimestepId (K := ℝ) oneLevel.numTrainTimesteps 0 = 0 := by
    simp [sampleTimestepId, oneLevel]
  have hweight : oneLevel.trainingWeight [1] = some [some 1] := by
    simp [FlowMatchScheduler.trainingWeight, FlowMatchScheduler.timestepId, oneLevel, argmin]
  have htimesteps : (List.finRange 1).mapM (fun _ => oneLevel.timesteps[0]?) = some [1] := rfl
  have hsigmas : (List.finRange 1).mapM (fun _ => oneLevel.sigmas[0]?) = some [1] := rfl
  simp only [sampleNoisyActionSequence, hid, List.mapM_map, Function.comp_def, htimesteps, hsigmas,
    Option.bind_eq_bind, Option.bind_some, hweight]
  exact ⟨_, _, rfl⟩

theorem exists_trainingStep_paddedItem : ∃ loss,
    (Stage3Weights.relay twoStepConfig).trainingStep oneLevel id quietDraws
      (fun _ => paddedItem) = some loss := by
  have hsamples : everySample (fun _ : Fin 1 => createTargetAndMaskedLabels id paddedItem) =
      some fun _ => labellable_paddedItem.sample id := by
    simp [everySample, labellable_paddedItem.labels]
  simp only [Stage3Weights.trainingStep, quietDraws, applyAugmentations, hsamples,
    Option.bind_eq_bind, Option.bind_some]
  obtain ⟨noisy, target, hdraw⟩ := sampleNoisyActionSequence_oneLevel (fun _ _ => 0)
    fun (_ : Fin 1) (ij : twoStepConfig.Step × Fin twoStepConfig.nActions) =>
      (labellable_paddedItem.sample id).actionsIn ij.1 ij.2
  rw [hdraw]
  exact ⟨_, rfl⟩

/-- The padding may show anything. -/
theorem trainingStep_supervisedPast_padded : ∃ loss,
    (Stage3Weights.relay twoStepConfig).trainingStep oneLevel id quietDraws
      (fun _ => { paddedItem with
        frames := [[1], [200]], textEmbeddings := [fun _ _ => 1, fun _ _ => 7] }) = some loss ∧
    (Stage3Weights.relay twoStepConfig).trainingStep oneLevel id quietDraws
      (fun _ => paddedItem) = some loss := by
  obtain ⟨loss, hloss⟩ := exists_trainingStep_paddedItem
  have hsame := Stage3Weights.trainingStep_supervisedPast (w := .relay twoStepConfig)
    (fun _ _ _ _ => rfl) oneLevel id quietDraws fun _ => supervisedAlike_paddedItem
  exact ⟨loss, hsame.trans hloss, hloss⟩

end Padded

end P2PRdt.Policy

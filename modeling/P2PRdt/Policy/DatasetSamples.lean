import P2PRdt.Policy.TrainingStep
import P2PRdt.Robot.ActionWidth

/-!
# From the dataset to the training step

`_sync_sequence_length_with_dataset` gives the dataset the sequence length of the
policy, and the policy is built with `get_robot_action_dim`. So the fields of an item
have the length that the training step checks, and the item is accepted exactly when
the flattened channels are as wide as the policy's actions. Its supervised steps are
frames of the segment whose actions are labelled; the padding is never one of them.
-/

namespace P2PRdt.Policy

open Lib
open Robot (DatasetItem DatasetConfig ImageConfig Compact Pose WindowOf)

section Code

variable {K : Type} [Field K] [LinearOrder K]

/-- `_sync_sequence_length_with_dataset` for one dataset. -/
def syncSequenceLengthWithDataset (cfg : Stage3Config K) (config : DatasetConfig K) :
    DatasetConfig K :=
  if config.nSeqTimesteps ≠ cfg.nSeqTimesteps then
    { config with nSeqTimesteps := cfg.nSeqTimesteps }
  else config

theorem syncSequenceLengthWithDataset_eq (cfg : Stage3Config K) (config : DatasetConfig K) :
    syncSequenceLengthWithDataset cfg config =
      { config with nSeqTimesteps := cfg.nSeqTimesteps } := by
  unfold syncSequenceLengthWithDataset
  split
  · rfl
  · next hsame =>
    rw [← not_not.mp hsame]

end Code

/-! ## The item of a segment -/

section Segment

variable {K : Type} [Field K] [LinearOrder K] {E : Robot.Elementary K} {config : DatasetConfig K}
  {T : Type} {draw : ℕ}

/-- A segment has valid frames only, and a step of the user is one with a label. -/
theorem segmentItem_masks [FloorRing K] {dataDict : String → Option ImageConfig.VideoEntry}
    {textEmbeddings : List T} {startFrame endFrame : ℕ} {action : List (Compact (Pose K))}
    {segment : DatasetItem K (Robot.Frame config.images.imageHeight config.images.imageWidth) T}
    (h : config.segmentItem E dataDict textEmbeddings startFrame endFrame action =
      some segment) :
    segment.validFrameMask = some (List.replicate segment.frames.length true) ∧
      segment.userActionMask =
        segment.actionMask.map fun row => decide (∃ c, row c = true) := by
  simp only [DatasetConfig.segmentItem, Option.bind_eq_bind, Option.bind_eq_some_iff] at h
  obtain ⟨inverseIds, -, frames, -, actions, -, hitem⟩ := h
  split at hitem
  · cases hitem
  · simp only [Option.bind_eq_some_iff, Option.pure_def, Option.some_inj] at hitem
    obtain ⟨text, -, rfl⟩ := hitem
    refine ⟨rfl, ?_⟩
    rw [List.map_map]
    rfl

variable {F : Type} {segment item : DatasetItem K F T}

/-- An item with frames only comes from a segment with frames. -/
theorem frames_pos_of_ensureFixed
    (h : config.ensureFixedSequenceLength E draw segment = some item) :
    1 ≤ segment.frames.length := by
  simp only [DatasetConfig.ensureFixedSequenceLength, DatasetConfig.getTargetSeqLen,
    Option.bind_eq_bind, Option.bind_eq_some_iff] at h
  obtain ⟨target, htarget, fixed, hfixed, -⟩ := h
  split at htarget
  · cases htarget
  · next hpos =>
    obtain rfl := Option.some.inj htarget
    by_contra hempty
    have hnil : segment.frames = [] := List.length_eq_zero_iff.mp (by omega)
    have hslice : ∀ slice, Robot.sliceTime slice segment.frames = [] := by
      intro slice
      rw [hnil, Robot.sliceTime, List.drop_nil, List.take_nil]
    simp only [DatasetItem.fixedWindow, DatasetItem.padded, DatasetItem.sliced, hslice,
      Robot.padTimeDim, List.length_nil, Nat.le_zero, if_neg hpos, List.getLast?_nil,
      Option.bind_eq_bind, Option.bind_none] at hfixed
    cases hfixed

theorem length_rebasedActions {rebased : List (Fin item.actionWidth → K)}
    (h : config.rebasedActions E item = some rebased) :
    rebased.length = item.actionAnnotations.length := by
  unfold DatasetConfig.rebasedActions at h
  split at h
  · rw [Option.some.inj h]
  · split at h
    · rw [Option.some.inj h]
    · simp only [Option.bind_eq_bind, Option.bind_eq_some_iff, Option.pure_def,
        Option.some_inj] at h
      obtain ⟨usedIds, -, reference, -, rfl⟩ := h
      simp only [List.length_zipWith, List.length_append, List.length_take, List.length_map,
        Robot.rebaseCompactActionSequence, List.length_drop]
      omega

/-- The item is the window of its segment; the rebase step changes the actions alone. -/
theorem windowOf_ensureFixed {n : ℕ} (hsegment : segment.Aligned n)
    (hdraw : draw ≤ n - config.nSeqTimesteps)
    (h : config.ensureFixedSequenceLength E draw segment = some item) :
    ∃ start frames actions before env user text system valid mask,
      item = ⟨segment.actionWidth, frames, actions, env, user, text, system, some valid, mask⟩ ∧
      start ≤ n - config.nSeqTimesteps ∧ actions.length = config.nSeqTimesteps ∧
      DatasetItem.WindowOfItem start config.nSeqTimesteps segment frames before env user text
        system valid mask := by
  have hn : 1 ≤ n := hsegment.frames ▸ frames_pos_of_ensureFixed h
  simp only [DatasetConfig.ensureFixedSequenceLength, DatasetConfig.getTargetSeqLen,
    DatasetConfig.rebaseItemActionsToSliceStart, Option.bind_eq_bind, Option.bind_eq_some_iff,
    Option.map_eq_some_iff] at h
  obtain ⟨target, htarget, fixed, hfixed, rebased, hrebased, rfl⟩ := h
  split at htarget
  · cases htarget
  · obtain rfl := Option.some.inj htarget
    obtain ⟨frames, actions, env, user, text, system, valid, mask, hspec, hwindow⟩ :=
      DatasetItem.fixedWindow_spec hn hsegment config.nSeqTimesteps config.shuffle hdraw
    obtain rfl := Option.some.inj (hspec.symm.trans hfixed)
    exact ⟨_, frames, rebased, actions, env, user, text, system, valid, mask, rfl,
      (Robot.selectTimeSlice_start config.shuffle hdraw).1,
      (length_rebasedActions hrebased).trans hwindow.actionAnnotations.length, hwindow⟩

end Segment

/-! ## What the training step sees of it -/

section Sample

variable {K : Type} [Field K] [LinearOrder K] {cfg : Stage3Config K} {F : Type}

/-- The sample shows the segment from `start` on, and is supervised where a frame of
the segment is labelled. -/
structure SampleOf (pixels : F → List UInt8) (segment : DatasetItem K F cfg.TextEmbedding)
    (start : ℕ) (sample : LabelledSample cfg) : Prop where
  frames : ∀ s : cfg.Step, (s : ℕ) < segment.frames.length →
    segment.frames[start + s]?.map pixels = some (sample.batch.frames s)
  text : ∀ s : cfg.Step, (s : ℕ) < segment.frames.length →
    segment.textEmbeddings[start + s]? = some (sample.batch.textTokensEmbed s)
  visible : ∀ s : cfg.Step, sample.batch.visible s = true ↔
    (s : ℕ) < segment.frames.length ∧ segment.userActionMask[start + s]? = some true

variable {config : DatasetConfig K} {segment item : DatasetItem K F cfg.TextEmbedding}
  {valid : List Bool}

theorem getElem?_get_of_windowOf {α : Type} {start target n : ℕ} {input output : List α}
    {pad : Option α} (h : WindowOf start target input pad output) (hlen : input.length = n)
    (s : Fin target) (hs : (s : ℕ) < n) :
    input[start + s]? = some (output.get (s.cast h.length.symm)) := by
  rw [← h.inside s (lt_min s.isLt (hlen ▸ hs))]
  exact List.getElem?_eq_getElem _

/-- The fields of a window have the lengths that are checked. -/
theorem labellable_iff {start : ℕ} {frames : List F}
    {actions before : List (Fin segment.actionWidth → K)} {env : List ℤ} {user system : List Bool}
    {text : List cfg.TextEmbedding} {mask : List (Fin segment.actionWidth → Bool)}
    (hactions : actions.length = cfg.nSeqTimesteps)
    (hwindow : DatasetItem.WindowOfItem start cfg.nSeqTimesteps segment frames before env user text
      system valid mask) :
    Labellable cfg
        (⟨segment.actionWidth, frames, actions, env, user, text, system, some valid, mask⟩ :
          DatasetItem K F cfg.TextEmbedding) valid ↔
      segment.actionWidth = cfg.nActions := by
  constructor
  · exact fun h => h.width
  · intro hwidth
    exact
      { width := hwidth
        frames := hwindow.frames.length
        actions := hactions
        user := hwindow.userActionMask.length
        system := hwindow.systemActionMask.length
        text := hwindow.textEmbeddings.length
        validFrameMask := rfl
        valid := hwindow.validFrameMask.length
        actionMask := hwindow.actionMask.length }

theorem sampleOf_window {pixels : F → List UInt8} {start : ℕ} {frames : List F}
    {actions before : List (Fin segment.actionWidth → K)} {env : List ℤ} {user system : List Bool}
    {text : List cfg.TextEmbedding} {mask : List (Fin segment.actionWidth → Bool)}
    (hsegment : segment.Aligned segment.frames.length)
    (hvalid : segment.validFrameMask = some (List.replicate segment.frames.length true))
    (huser : segment.userActionMask =
      segment.actionMask.map fun row => decide (∃ c, row c = true))
    (hwindow : DatasetItem.WindowOfItem start cfg.nSeqTimesteps segment frames before env user text
      system valid mask)
    (h : Labellable cfg
      (⟨segment.actionWidth, frames, actions, env, user, text, system, some valid, mask⟩ :
        DatasetItem K F cfg.TextEmbedding) valid) :
    SampleOf pixels segment start (h.sample pixels) where
  frames := by
    intro s hs
    rw [getElem?_get_of_windowOf hwindow.frames rfl s hs]
    rfl
  text := fun s hs => getElem?_get_of_windowOf hwindow.textEmbeddings hsegment.textEmbeddings s hs
  visible := by
    intro s
    rw [h.visible_iff]
    have hvalidWindow := hwindow.validFrameMask
    rw [hvalid, Option.getD_some] at hvalidWindow
    constructor
    · rintro ⟨hu, ⟨mask, hmask, hv⟩, -⟩
      obtain rfl := Option.some.inj hmask
      have hs : (s : ℕ) < segment.frames.length := by
        by_contra hge
        have hpad := hvalidWindow.padding s (by rw [List.length_replicate]; omega) s.isLt
        rw [hv] at hpad
        cases hpad
      refine ⟨hs, ?_⟩
      rw [← hwindow.userActionMask.inside s (lt_min s.isLt (hsegment.userActionMask ▸ hs))]
      exact hu
    · rintro ⟨hs, hu⟩
      have hlabelled : ∃ row, segment.actionMask[start + s]? = some row ∧ ∃ j, row j = true := by
        rw [huser, List.getElem?_map] at hu
        obtain ⟨row, hrow, hany⟩ := Option.map_eq_some_iff.mp hu
        exact ⟨row, hrow, of_decide_eq_true hany⟩
      obtain ⟨row, hrow, hany⟩ := hlabelled
      refine ⟨?_, ⟨valid, rfl, ?_⟩, row, ?_, hany⟩
      · exact (hwindow.userActionMask.inside s
          (lt_min s.isLt (hsegment.userActionMask ▸ hs))).trans hu
      · have hentry := getElem?_get_of_windowOf hvalidWindow List.length_replicate s hs
        exact List.getElem?_eq_some_iff.mpr
          ⟨_, List.eq_of_mem_replicate (List.mem_of_getElem? hentry)⟩
      · exact (hwindow.actionMask.inside s (lt_min s.isLt (hsegment.actionMask ▸ hs))).trans hrow

end Sample

/-! ## The items of the dataset -/

section Dataset

variable {K : Type} [Field K] [LinearOrder K] [FloorRing K] {E : Robot.Elementary K}
  {cfg : Stage3Config K} {given loaded config : DatasetConfig K}
  {dataDict : String → Option ImageConfig.VideoEntry} {textEmbeddings : List cfg.TextEmbedding}
  {startFrame endFrame draw : ℕ} {action : List (Compact (Pose K))}
  {segment item : DatasetItem K
    (Robot.Frame config.images.imageHeight config.images.imageWidth) cfg.TextEmbedding}

/-- **What the dataset hands to the trainer.** With the sequence length of the policy,
an item is accepted exactly when the channels times the stride are as many as the
actions of the policy. The sample then shows the segment from some start on, and its
supervised steps are the frames of the segment that have a label. -/
theorem datasetItem_labels (hinit : given.modelPostInit = some loaded)
    (hused : given.usedActionChannelIds ≠ []) (hnodup : given.usedActionChannelIds.Nodup)
    (hsync : syncSequenceLengthWithDataset cfg loaded = config)
    (hsegment : config.segmentItem E dataDict textEmbeddings startFrame endFrame action =
      some segment)
    (hdraw : draw ≤ segment.frames.length - cfg.nSeqTimesteps)
    (hitem : config.ensureFixedSequenceLength E draw segment = some item)
    (pixels : Robot.Frame config.images.imageHeight config.images.imageWidth → List UInt8) :
    ((∃ sample, createTargetAndMaskedLabels pixels item = some sample) ↔
        ∃ actionDim, loaded.actionDim = some actionDim ∧
          actionDim * config.imageFrameStride = cfg.nActions) ∧
      ∀ sample, createTargetAndMaskedLabels pixels item = some sample →
        ∃ start ≤ segment.frames.length - cfg.nSeqTimesteps,
          SampleOf pixels segment start sample := by
  obtain ⟨actionDim, hpost⟩ := DatasetConfig.postInit_of_modelPostInit hused hinit
  have hconfig := (syncSequenceLengthWithDataset_eq cfg loaded).symm.trans hsync
  subst hconfig
  have hpost' : DatasetConfig.PostInit given
      { loaded with nSeqTimesteps := cfg.nSeqTimesteps } actionDim :=
    ⟨hpost.actionDim_eq, hpost.given_dim, hpost.robotActionDim_eq, hpost.used_eq, hpost.used_lt⟩
  have hwidth := DatasetConfig.actionWidth_of_segmentItem hpost' hused hnodup hsegment
  obtain ⟨hvalid, huser⟩ := segmentItem_masks hsegment
  have haligned := DatasetConfig.segmentItem_aligned hsegment
  obtain ⟨start, frames, actions, before, env, user, text, system, valid, mask, rfl, hstart,
    hactions, hwindow⟩ := windowOf_ensureFixed haligned hdraw hitem
  have hiff := labellable_iff hactions hwindow
  constructor
  · rw [hpost.actionDim_eq]
    constructor
    · rintro ⟨sample, hlabels⟩
      obtain ⟨valid', h⟩ := labellable_of_labels pixels hlabels
      exact ⟨actionDim, rfl, hwidth.symm.trans h.width⟩
    · rintro ⟨_, ⟨⟩, hdim⟩
      exact ⟨_, (hiff.mpr (hwidth.trans hdim)).labels pixels⟩
  · intro sample hlabels
    obtain ⟨valid', h⟩ := labellable_of_labels pixels hlabels
    have h := hiff.mpr h.width
    obtain rfl := Option.some.inj ((h.labels pixels).symm.trans hlabels)
    exact ⟨start, hstart, sampleOf_window haligned hvalid huser hwindow h⟩

end Dataset

/-! ## A segment of two frames, in three steps -/

section Plain

open Robot.DatasetConfig (plainConfig blankVideo restActions)

/-- An item has the text of its segment in every frame, whichever it is. -/
theorem segmentItem_text {K : Type} [Field K] [LinearOrder K] [FloorRing K]
    {E : Robot.Elementary K} {config : DatasetConfig K} {T T' : Type} {t : T} (t' : T')
    {dataDict : String → Option ImageConfig.VideoEntry} {startFrame endFrame : ℕ}
    {action : List (Compact (Pose K))}
    {segment : DatasetItem K (Robot.Frame config.images.imageHeight config.images.imageWidth) T}
    (h : config.segmentItem E dataDict [t] startFrame endFrame action = some segment) :
    config.segmentItem E dataDict [t'] startFrame endFrame action =
      some { segment with textEmbeddings := List.replicate segment.frames.length t' } := by
  simp only [DatasetConfig.segmentItem, DatasetConfig.formatTextEmbeddings_singleton,
    Option.bind_eq_bind, Option.bind_eq_some_iff,
    Option.bind_some] at h ⊢
  obtain ⟨inverseIds, hinverse, frames, hframes, actions, hactions, hsegment⟩ := h
  refine ⟨inverseIds, hinverse, frames, hframes, actions, hactions, ?_⟩
  split at hsegment
  · cases hsegment
  · next hlen =>
    rw [if_neg hlen]
    obtain rfl := Option.some.inj hsegment
    rfl

noncomputable def threeStepConfig : Stage3Config ℝ :=
  { twoStepConfig with nSeqTimesteps := 3, nActions := 17, nActions_pos := by decide }

/-- The plain configuration with the length of the policy. -/
noncomputable def syncedConfig : DatasetConfig ℝ :=
  { plainConfig (List.range 16) 17 with nSeqTimesteps := 3 }

theorem postInit_syncedConfig :
    DatasetConfig.PostInit (plainConfig (List.range 16) 17) syncedConfig 17 :=
  ⟨rfl, rfl, rfl, rfl, fun _ hc => (List.mem_range.mp hc).trans (Nat.lt_succ_self 16)⟩

/-- Every segment with this configuration makes an item. -/
theorem exists_item_syncedConfig {F T : Type} {segment : DatasetItem ℝ F T}
    (hsegment : segment.Aligned segment.frames.length) (hpos : 1 ≤ segment.frames.length)
    (hwidth : segment.actionWidth = 17) :
    ∃ item, syncedConfig.ensureFixedSequenceLength Robot.realElementary 0 segment = some item := by
  obtain ⟨fixed, hfixed, haligned⟩ := DatasetConfig.exists_fixedWindow hpos hsegment
    syncedConfig.nSeqTimesteps syncedConfig.shuffle (Nat.zero_le _)
  have hlen : fixed.validMask.length = fixed.actionAnnotations.length := by
    rw [DatasetConfig.length_validMask haligned, haligned.actionAnnotations]
  obtain ⟨rebased, hrebased⟩ :
      ∃ rebased, syncedConfig.rebasedActions Robot.realElementary fixed = some rebased := by
    rcases DatasetConfig.rebasedActions_cases Robot.isSqrt_realElementary postInit_syncedConfig rfl
      List.nodup_range ((DatasetConfig.actionWidth_of_fixedWindow hfixed).trans hwidth).ge hlen with
      ⟨-, hsame⟩ | ⟨_, _, _, _, -, -, -, -, hmoved⟩
    · exact ⟨_, hsame⟩
    · exact ⟨_, hmoved⟩
  refine ⟨{ fixed with actionAnnotations := rebased }, ?_⟩
  have htarget : syncedConfig.getTargetSeqLen = some syncedConfig.nSeqTimesteps := rfl
  simp only [DatasetConfig.ensureFixedSequenceLength, htarget, hfixed,
    DatasetConfig.rebaseItemActionsToSliceStart, hrebased, Option.bind_eq_bind, Option.bind_some,
    Option.map_some]

theorem datasetItem_labels_plain : ∃ segment item,
    syncedConfig.segmentItem Robot.realElementary (fun _ => some (blankVideo syncedConfig.images 2))
      [(0 : threeStepConfig.TextEmbedding)] 0 2 (restActions ℝ) = some segment ∧
    syncedConfig.ensureFixedSequenceLength Robot.realElementary 0 segment = some item ∧
    ∃ sample, createTargetAndMaskedLabels (fun _ => []) item = some sample ∧
      ∃ start, SampleOf (fun _ => []) segment start sample := by
  have hused : (plainConfig (List.range 16) 17).usedActionChannelIds ≠ [] := List.cons_ne_nil _ _
  have husable : syncedConfig.Usable :=
    ⟨le_rfl, by decide, one_le_two, one_le_two, List.cons_ne_nil _ _⟩
  obtain ⟨_, hblank, hpos⟩ := DatasetConfig.exists_segmentItem Robot.isSqrt_realElementary
    postInit_syncedConfig hused List.nodup_range (by decide) husable
  have hsegment := segmentItem_text (0 : threeStepConfig.TextEmbedding) hblank
  obtain ⟨item, hitem⟩ := exists_item_syncedConfig (DatasetConfig.segmentItem_aligned hsegment) hpos
    (DatasetConfig.actionWidth_of_segmentItem postInit_syncedConfig hused List.nodup_range hsegment)
  have hinit : (plainConfig (List.range 16) 17).modelPostInit =
      some (plainConfig (List.range 16) 17) := rfl
  have hsync : syncSequenceLengthWithDataset threeStepConfig (plainConfig (List.range 16) 17) =
      syncedConfig := syncSequenceLengthWithDataset_eq _ _
  obtain ⟨hiff, hlabels⟩ := datasetItem_labels hinit hused List.nodup_range hsync hsegment
    (Nat.zero_le _) hitem fun _ => []
  obtain ⟨sample, hsample⟩ := hiff.mpr ⟨17, rfl, rfl⟩
  obtain ⟨start, -, hstart⟩ := hlabels sample hsample
  exact ⟨_, item, hsegment, hitem, sample, hsample, start, hstart⟩

end Plain

end P2PRdt.Policy

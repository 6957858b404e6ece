import P2PRdt.Robot.ItemRebase
import P2PRdt.Robot.StartPose

/-!
# The flattened layout and the stride

Three places fix the layout of an action vector: the configuration has the width
that the policy is built with, the dataset flattens `c n` for `n` below the
stride, and the rebase reads and writes the columns of the used channels. The
width of an item is the number of channels times the stride. The rebase takes a
used channel itself for its column, which is the column of its only step when
the stride is 1 and of something else otherwise.
-/

namespace P2PRdt.Robot

open Lib Quaternion

namespace DatasetConfig

/-! ## The layout at each place -/

section Statements

variable {K : Type} [Field K] [LinearOrder K] (E : Elementary K) (config : DatasetConfig K)

/-- The dataset returns no item for any other configuration: every call raises an
error. -/
structure Usable : Prop where
  stride_pos : 1 ≤ config.imageFrameStride
  target_pos : 1 ≤ config.nSeqTimesteps
  height_pos : 1 ≤ config.images.imageHeight
  width_pos : 1 ≤ config.images.imageWidth
  has_cameras : config.obsCamKeys ≠ []

/-- Every item has vectors of the width that the policy is built with. -/
def WidthsAgree [FloorRing K] : Prop :=
  ∀ (T : Type) (dataDict : String → Option ImageConfig.VideoEntry) (textEmbeddings : List T)
    (startFrame endFrame : ℕ) (action : List (Compact (Pose K))) (draw : ℕ) item,
    config.getItem E dataDict textEmbeddings startFrame endFrame action draw = some item →
      config.getRobotActionDim = some item.actionWidth

def usedChannel (i : Fin 16) : ℕ := config.usedActionChannelIds.getD i 0

def columnOf {width : ℕ} (row : Fin width → K) (col : ℕ) : K :=
  if h : col < width then row ⟨col, h⟩ else 0

/-- Sub-step `n` of a row as a compact action: the columns `c * s + n` of the
used channels `c`, in their own units. -/
def subStepAction {width : ℕ} (row : Fin width → K) (n : ℕ) : Compact (Pose K) :=
  .ofArray fun i =>
    let c := config.usedChannel i
    (columnOf row (c * config.imageFrameStride + n) + 1) * (1 / (2 : ℕ)) *
      (config.q99 c - config.q01 c + 1 / (10 ^ 6 : ℕ)) + config.q01 c

/-- From the first valid row on each sub-step is rebased as a compact action, to
some sub-step of that row, and every other column keeps its value. -/
structure RebasedBySubSteps {F T : Type} (item : DatasetItem K F T)
    (rebased : List (Fin item.actionWidth → K)) : Prop where
  length : rebased.length = item.actionAnnotations.length
  front : ∀ i j : ℕ, item.validMask.findIdx? id = some i → j < i →
    rebased[j]? = item.actionAnnotations[j]?
  sub_steps : ∃ reference : ℕ → ℕ, (∀ n < config.imageFrameStride,
      reference n < config.imageFrameStride) ∧
    ∀ (i j : ℕ) first row row', item.validMask.findIdx? id = some i → i ≤ j →
      item.actionAnnotations[i]? = some first → item.actionAnnotations[j]? = some row →
      rebased[j]? = some row' → ∀ n < config.imageFrameStride,
        config.subStepAction row' n = rebaseCompactRelativeAction E (config.subStepAction row n)
          (config.subStepAction first (reference n))
  other_columns : ∀ (j : ℕ) row row' (col : Fin item.actionWidth),
    item.actionAnnotations[j]? = some row → rebased[j]? = some row' →
    (∀ c ∈ config.usedActionChannelIds, ∀ n < config.imageFrameStride,
      (col : ℕ) ≠ c * config.imageFrameStride + n) → row' col = row col

/-- The rebase of every item of the flattened width works by sub-steps. -/
def RebasesSubSteps (actionDim : ℕ) : Prop :=
  ∀ (F T : Type) (item : DatasetItem K F T),
    item.actionWidth = actionDim * config.imageFrameStride →
    item.validMask.length = item.actionAnnotations.length →
    ∃ rebased, config.rebasedActions E item = some rebased ∧
      RebasedBySubSteps E config item rebased

end Statements

/-! ## The width of an item -/

section Width

variable {K : Type} [Field K] [LinearOrder K] {E : Elementary K}
  {given config : DatasetConfig K} {actionDim : ℕ} {F T : Type}

omit [LinearOrder K] in
theorem actionWidth_of_fixedWindow {item fixed : DatasetItem K F T} {target draw : ℕ}
    {shuffle : Bool} (h : item.fixedWindow target shuffle draw = some fixed) :
    fixed.actionWidth = item.actionWidth := by
  simp only [DatasetItem.fixedWindow, DatasetItem.padded, Option.bind_eq_bind,
    Option.bind_eq_some_iff, Option.pure_def, Option.some_inj] at h
  rcases h with ⟨_, -, _, -, _, -, _, -, _, -, _, -, _, -, _, -, rfl⟩
  rfl

theorem actionWidth_of_ensureFixed {item result : DatasetItem K F T} {draw : ℕ}
    (h : config.ensureFixedSequenceLength E draw item = some result) :
    result.actionWidth = item.actionWidth := by
  simp only [ensureFixedSequenceLength, rebaseItemActionsToSliceStart, Option.bind_eq_bind,
    Option.bind_eq_some_iff, Option.map_eq_some_iff] at h
  rcases h with ⟨_, -, fixed, hfixed, _, -, hresult⟩
  have hwidth : fixed.actionWidth = item.actionWidth := actionWidth_of_fixedWindow hfixed
  rw [← hresult]
  exact hwidth

/-- The steps of a frame are as many as the stride. -/
theorem actionPostProcess_shape {inverseIds : List ℕ} {startFrame n : ℕ}
    {action : List (Compact (Pose K))} {t : ActionTensor (K × Bool)}
    (h : config.actionPostProcess E inverseIds startFrame (List.range' startFrame n) action =
      some t) :
    t.channels = inverseIds.length ∧ t.steps = config.imageFrameStride := by
  simp only [actionPostProcess, Option.bind_eq_bind, Option.bind_eq_some_iff] at h
  rcases h with ⟨rows, hrows, ht⟩
  split at ht
  · unfold rearrangeFrames at ht
    split at ht
    · rw [← Option.some_inj.mp ht]
      refine ⟨rfl, ?_⟩
      simp only [ActionLayout.shiftedActions, Option.bind_eq_bind, Option.bind_eq_some_iff] at hrows
      rcases hrows with ⟨frameId0, h0, frameId1, h1, _, -, _, -, hrows⟩
      split at hrows
      · rename_i hlen
        -- consecutive frame ids
        have hstride : frameId1 - frameId0 = 1 := by
          obtain ⟨_, hid0⟩ := List.getElem?_eq_some_iff.mp h0
          obtain ⟨_, hid1⟩ := List.getElem?_eq_some_iff.mp h1
          rw [List.getElem_range'] at hid0 hid1
          omega
        rw [hstride, Nat.mul_one] at hlen
        obtain rfl := Option.some_inj.mp hrows
        show (List.map _ _).length / _ = _
        rw [List.length_map, hstride, Nat.mul_one, hlen]
        exact Nat.mul_div_cancel_left _ (Nat.succ_pos _)
      · cases hrows
    · cases ht
  · cases ht

theorem actionWidth_of_segmentItem [FloorRing K] (hpost : PostInit given config actionDim)
    (hused : given.usedActionChannelIds ≠ []) (hnodup : given.usedActionChannelIds.Nodup)
    {dataDict : String → Option ImageConfig.VideoEntry} {textEmbeddings : List T}
    {startFrame endFrame : ℕ} {action : List (Compact (Pose K))}
    {item : DatasetItem K (Frame config.images.imageHeight config.images.imageWidth) T}
    (h : config.segmentItem E dataDict textEmbeddings startFrame endFrame action = some item) :
    item.actionWidth = actionDim * config.imageFrameStride := by
  obtain ⟨inverseIds, hdataset, hlength, -⟩ := hpost.datasetInverseIds hused hnodup
  simp only [segmentItem, hdataset, Option.bind_eq_bind, Option.bind_some,
    Option.bind_eq_some_iff] at h
  rcases h with ⟨frames, -, actions, hactions, hsegment⟩
  obtain ⟨hchannels, hsteps⟩ := actionPostProcess_shape hactions
  split at hsegment
  · cases hsegment
  · simp only [Option.bind_eq_some_iff, Option.pure_def, Option.some_inj] at hsegment
    rcases hsegment with ⟨_, -, rfl⟩
    have halign : ∀ t : ActionTensor (K × Bool),
        (config.alignActionsWithMultiViewMode t).channels = t.channels ∧
          (config.alignActionsWithMultiViewMode t).steps = t.steps := by
      intro t
      unfold alignActionsWithMultiViewMode
      split
      · exact ⟨rfl, rfl⟩
      · exact ⟨rfl, rfl⟩
    show (config.alignActionsWithMultiViewMode actions).channels *
      (config.alignActionsWithMultiViewMode actions).steps = _
    rw [(halign actions).1, (halign actions).2, hchannels, hsteps, hlength]

/-- **The width of an item** is the number of channels times the stride. -/
theorem actionWidth_of_getItem [FloorRing K] (hpost : PostInit given config actionDim)
    (hused : given.usedActionChannelIds ≠ []) (hnodup : given.usedActionChannelIds.Nodup)
    {dataDict : String → Option ImageConfig.VideoEntry} {textEmbeddings : List T}
    {startFrame endFrame draw : ℕ} {action : List (Compact (Pose K))}
    {item : DatasetItem K (Frame config.images.imageHeight config.images.imageWidth) T}
    (h : config.getItem E dataDict textEmbeddings startFrame endFrame action draw = some item) :
    item.actionWidth = actionDim * config.imageFrameStride := by
  rw [getItem, Option.bind_eq_bind, Option.bind_eq_some_iff] at h
  rcases h with ⟨segment, hsegment, hfixed⟩
  rw [actionWidth_of_ensureFixed hfixed, actionWidth_of_segmentItem hpost hused hnodup hsegment]

end Width

/-! ## Configurations that return items -/

section Items

variable {K : Type} [Field K] [LinearOrder K] [IsStrictOrderedRing K] [FloorRing K]
  {E : Elementary K} {given config : DatasetConfig K} {actionDim : ℕ}

omit [IsStrictOrderedRing K] in
theorem usable_of_getItem {T : Type} (hs : 1 ≤ config.imageFrameStride)
    {dataDict : String → Option ImageConfig.VideoEntry} {textEmbeddings : List T}
    {startFrame endFrame draw : ℕ} {action : List (Compact (Pose K))}
    {item : DatasetItem K (Frame config.images.imageHeight config.images.imageWidth) T}
    (h : config.getItem E dataDict textEmbeddings startFrame endFrame action draw = some item) :
    config.Usable := by
  simp only [getItem, segmentItem, ensureFixedSequenceLength, Option.bind_eq_bind,
    Option.bind_eq_some_iff] at h
  rcases h with ⟨segment, ⟨_, -, frames, hframes, -⟩, target, htarget, -⟩
  simp only [ImageConfig.catVideoImages, Option.bind_eq_bind, Option.bind_eq_some_iff] at hframes
  rcases hframes with ⟨imageLst, himages, hmerge⟩
  have hcameras : config.obsCamKeys ≠ [] := by
    intro hnil
    rw [hnil] at himages
    obtain rfl : [] = imageLst := Option.some_inj.mp himages
    cases hmode : config.images.multiViewImageMode <;> rw [hmode] at hmerge <;> cases hmerge
  have htargetPos : 1 ≤ config.nSeqTimesteps := by
    unfold getTargetSeqLen at htarget
    split at htarget
    · cases htarget
    · omega
  -- the first camera was resized into the target
  obtain ⟨key, keys, hkeys⟩ := List.exists_cons_of_ne_nil hcameras
  have hfirst := getElem?_of_mapM himages 0
  have hcount : 0 < imageLst.length := by
    rw [length_of_mapM himages, hkeys]
    exact Nat.succ_pos _
  rw [List.getElem?_eq_getElem hcount, hkeys, List.getElem?_cons_zero, Option.bind_some] at hfirst
  obtain ⟨entry, -, hvideo⟩ := Option.bind_eq_some_iff.mp hfirst.symm
  rw [if_neg (by omega), ImageConfig.prepareVideo] at hvideo
  dsimp only at hvideo
  split at hvideo
  · rename_i hres
    obtain ⟨⟨hheight, hwidth⟩, -⟩ := config.images.newSize_le hres.1 hres.2.1
    have hrows := hres.2.2.1
    have hcolumns := hres.2.2.2
    exact ⟨hs, htargetPos, by omega, by omega, hcameras⟩
  · cases hvideo

/-- A video of the size of the target. -/
def blankVideo (images : ImageConfig K) (frames : ℕ) : ImageConfig.VideoEntry where
  videoNumFrames := frames
  videoHeight := images.imageHeight
  videoWidth := images.imageWidth
  video := fun _ _ => 0

omit [Field K] [LinearOrder K] [IsStrictOrderedRing K] [FloorRing K] in
theorem resizable_target {images : ImageConfig K} (hheight : 1 ≤ images.imageHeight)
    (hwidth : 1 ≤ images.imageWidth) : images.Resizable images.imageHeight images.imageWidth := by
  have hh : (images.imageHeight : ℚ) ≠ 0 := by
    rw [Nat.cast_ne_zero]
    omega
  have hw : (images.imageWidth : ℚ) ≠ 0 := by
    rw [Nat.cast_ne_zero]
    omega
  have hround : ∀ n : ℕ, roundHalfEven ((n : ℚ) * 1) = n := by
    intro n
    rw [mul_one]
    exact_mod_cast roundHalfEven_intCast (K := ℚ) n
  have hsize : images.newSize images.imageHeight images.imageWidth =
      ((images.imageHeight : ℤ), (images.imageWidth : ℤ)) := by
    rw [ImageConfig.newSize, div_self hh, div_self hw, min_self]
    exact Prod.ext (hround _) (hround _)
  have hheight' : (1 : ℤ) ≤ images.imageHeight := by exact_mod_cast hheight
  have hwidth' : (1 : ℤ) ≤ images.imageWidth := by exact_mod_cast hwidth
  refine ⟨hheight, hwidth, ?_, ?_⟩
  · rw [hsize]
    exact hheight'
  · rw [hsize]
    exact hwidth'

/-- Two poses of an arm at rest. -/
def restActions (K : Type) [Field K] : List (Compact (Pose K)) :=
  [⟨⟨0, 1, 0⟩, ⟨0, 1, 0⟩⟩, ⟨⟨0, 1, 0⟩, ⟨0, 1, 0⟩⟩]

omit [LinearOrder K] [IsStrictOrderedRing K] [FloorRing K] in
theorem alignActions_frames_pos {t : ActionTensor (K × Bool)} (ht : 1 ≤ t.frames)
    (hcameras : config.obsCamKeys ≠ []) :
    1 ≤ (config.alignActionsWithMultiViewMode t).frames := by
  unfold alignActionsWithMultiViewMode
  split
  · exact Nat.mul_pos ht (List.length_pos_iff.mpr hcameras)
  · exact ht

variable (hE : IsSqrt E.sqrt)

include hE in
/-- Two frames at rest make an item before its length is fixed. -/
theorem exists_segmentItem (hpost : PostInit given config actionDim)
    (hused : given.usedActionChannelIds ≠ []) (hnodup : given.usedActionChannelIds.Nodup)
    (hcount : given.usedActionChannelIds.length ≤ 16) (husable : config.Usable) :
    ∃ item, config.segmentItem E (fun _ => some (blankVideo config.images 2)) [()] 0 2
        (restActions K) = some item ∧ 1 ≤ item.frames.length := by
  obtain ⟨inverseIds, hdataset, hlength, hwritten, hother⟩ := hpost.datasetInverseIds hused hnodup
  subst hlength
  have hrotates : ∀ p ∈ restActions K, p.Rotates := by
    intro p hp
    obtain rfl : p = ⟨⟨0, 1, 0⟩, ⟨0, 1, 0⟩⟩ := by simpa [restActions] using hp
    exact ⟨one_ne_zero, one_ne_zero⟩
  obtain ⟨frames, entry, hframes, hactions, -⟩ := actionPostProcess_eq hE
    (inverseIds_lt hcount hwritten hother) husable.stride_pos 0 (N := 2) le_rfl
    (by rfl) hrotates
  have hdata : config.images.HasVideos config.obsCamKeys
      (fun _ => some (blankVideo config.images 2)) 2 :=
    ⟨husable.has_cameras, fun _ _ => ⟨_, rfl, rfl,
      resizable_target husable.height_pos husable.width_pos⟩⟩
  obtain ⟨merged, hmerged, hsame, -⟩ := sameFrames_of_ceil husable.stride_pos hdata
    (t := ⟨inverseIds.length, frames, config.imageFrameStride, entry⟩) hframes
  have hpos : 1 ≤ merged.length := by
    rw [hsame]
    apply alignActions_frames_pos _ husable.has_cameras
    have hstride := husable.stride_pos
    show 1 ≤ frames
    rw [hframes]
    exact Nat.div_pos (by omega) hstride
  have htext := formatTextEmbeddings_singleton () merged.length
  have hlen : ¬merged.length ≠ (config.alignActionsWithMultiViewMode
      (⟨inverseIds.length, frames, config.imageFrameStride, entry⟩ :
        ActionTensor (K × Bool))).flatten.length := by
    rw [not_not, hsame, ActionTensor.flatten, List.length_ofFn]
  have hids : List.range' 0 (2 - 0) = List.range' 0 2 := rfl
  have hactions' : config.actionPostProcess E inverseIds 0 (List.range' 0 2) (restActions K) =
      some ⟨inverseIds.length, frames, config.imageFrameStride, entry⟩ := hactions
  simp only [segmentItem, hdataset, hmerged, hids, hactions', Option.bind_eq_bind,
    Option.bind_some, if_neg hlen, htext, Option.pure_def, Option.some_inj]
  exact ⟨_, rfl, hpos⟩

include hE in
omit [FloorRing K] in
/-- 16 used channels inside the rows: either no row is valid, or the rows from the
first valid one on are moved. -/
theorem rebasedActions_cases (hpost : PostInit given config actionDim)
    (h16 : given.usedActionChannelIds.length = 16) (hnodup : given.usedActionChannelIds.Nodup)
    {F T : Type} {item : DatasetItem K F T} (hwidth : actionDim ≤ item.actionWidth)
    (hlen : item.validMask.length = item.actionAnnotations.length) :
    (item.validMask.findIdx? id = none ∧
      config.rebasedActions E item = some item.actionAnnotations) ∨
    ∃ i first usedIds, ∃ hinj : Function.Injective usedIds,
      item.validMask.findIdx? id = some i ∧ i ≤ item.actionAnnotations.length ∧
      item.actionAnnotations[i]? = some first ∧
      config.usedColumns item.actionWidth = some usedIds ∧
      config.rebasedActions E item = some (item.actionAnnotations.take i ++
        (item.actionAnnotations.drop i).map (movedRow E config hinj first)) := by
  cases hfirst : item.validMask.findIdx? id with
  | none => exact Or.inl ⟨rfl, rebasedActions_of_noValid hfirst⟩
  | some i =>
      right
      rw [← hpost.used_eq] at h16 hnodup
      have hlt : ∀ c ∈ config.usedActionChannelIds, c < item.actionWidth := by
        intro c hc
        rw [hpost.used_eq] at hc
        exact (hpost.used_lt c hc).trans_le hwidth
      obtain ⟨usedIds, hcolumns⟩ := usedColumns_eq_some h16 hlt
      have hinj := usedColumns_injective hnodup hcolumns
      obtain ⟨himask, -, -⟩ := List.findIdx?_eq_some_iff_getElem.mp hfirst
      have hi : i < item.actionAnnotations.length := hlen ▸ himask
      have hrow := List.getElem?_eq_getElem hi
      exact ⟨i, _, usedIds, hinj, rfl, hi.le, hrow, hcolumns,
        rebasedActions_eq hE hinj hcolumns hfirst hrow⟩

include hE in
/-- With 16 used channels and the stride 1 a usable configuration returns an item. -/
theorem exists_getItem (hpost : PostInit given config actionDim)
    (h16 : given.usedActionChannelIds.length = 16) (hnodup : given.usedActionChannelIds.Nodup)
    (husable : config.Usable) :
    ∃ item, config.getItem E (fun _ => some (blankVideo config.images 2)) [()] 0 2
      (restActions K) 0 = some item := by
  have hused : given.usedActionChannelIds ≠ [] := by
    intro hnil
    rw [hnil] at h16
    exact absurd h16 (by decide)
  obtain ⟨segment, hsegment, hpos⟩ := exists_segmentItem hE hpost hused hnodup h16.le husable
  obtain ⟨fixed, hfixed, haligned⟩ := exists_fixedWindow hpos (segmentItem_aligned hsegment)
    config.nSeqTimesteps config.shuffle (Nat.zero_le _)
  have htarget : config.getTargetSeqLen = some config.nSeqTimesteps :=
    if_neg (Nat.ne_of_gt husable.target_pos)
  have hwidth : actionDim ≤ fixed.actionWidth := by
    rw [actionWidth_of_fixedWindow hfixed,
      actionWidth_of_segmentItem hpost hused hnodup hsegment]
    exact Nat.le_mul_of_pos_right actionDim husable.stride_pos
  have hlen : fixed.validMask.length = fixed.actionAnnotations.length := by
    rw [length_validMask haligned, haligned.actionAnnotations]
  obtain ⟨rebased, hrebased⟩ : ∃ rebased, config.rebasedActions E fixed = some rebased := by
    rcases rebasedActions_cases hE hpost h16 hnodup hwidth hlen with
      ⟨-, hsame⟩ | ⟨_, _, _, _, -, -, -, -, hmoved⟩
    · exact ⟨_, hsame⟩
    · exact ⟨_, hmoved⟩
  refine ⟨{ fixed with actionAnnotations := rebased }, ?_⟩
  simp only [getItem, hsegment, ensureFixedSequenceLength, htarget, hfixed,
    rebaseItemActionsToSliceStart, hrebased, Option.bind_eq_bind, Option.bind_some, Option.map_some]

end Items

/-! ## The columns of the stride 1 -/

section StrideOne

variable {K : Type} [Field K] [LinearOrder K] [IsStrictOrderedRing K] {E : Elementary K}
  {given config : DatasetConfig K} {actionDim width : ℕ} {usedIds : Fin 16 → Fin width}

omit [LinearOrder K] [IsStrictOrderedRing K] in
theorem usedChannel_eq (hcolumns : config.usedColumns width = some usedIds) (i : Fin 16) :
    config.usedChannel i = usedIds i := by
  rw [usedChannel, List.getD_eq_getElem?_getD, (usedColumns_spec hcolumns).2 i, Option.getD_some]

omit [LinearOrder K] [IsStrictOrderedRing K] in
theorem columnOf_val (row : Fin width → K) (col : Fin width) : columnOf row col = row col :=
  dif_pos col.isLt

omit [LinearOrder K] [IsStrictOrderedRing K] in
/-- The only sub-step of the stride 1 is what the rebase reads. -/
theorem subStepAction_zero (hstride : config.imageFrameStride = 1)
    (hcolumns : config.usedColumns width = some usedIds) (row : Fin width → K) :
    config.subStepAction row 0 = config.decodeRow usedIds row := by
  rw [subStepAction, decodeRow]
  congr 1
  funext i
  simp only [hstride, usedChannel_eq hcolumns, Nat.mul_one, Nat.add_zero, columnOf_val,
    denormalizeUsed]

omit [IsStrictOrderedRing K] in
theorem decodeRow_movedRow [CharZero K] (hinj : Function.Injective usedIds)
    (first row : Fin width → K) :
    config.decodeRow usedIds (movedRow E config hinj first row) =
      rebaseCompactRelativeAction E (config.decodeRow usedIds row)
        (config.decodeRow usedIds first) :=
  (config.layout usedIds hinj).decode_rebaseRow E _ row

variable (hE : IsSqrt E.sqrt)

include hE in
/-- With 16 used channels and the stride 1 every item is rebased by sub-steps. -/
theorem rebasesSubSteps_of_strideOne (hpost : PostInit given config actionDim)
    (h16 : given.usedActionChannelIds.length = 16) (hnodup : given.usedActionChannelIds.Nodup)
    (hstride : config.imageFrameStride = 1) : RebasesSubSteps E config actionDim := by
  intro F T item hwidth hlen
  rw [hstride, Nat.mul_one] at hwidth
  rcases rebasedActions_cases hE hpost h16 hnodup hwidth.ge hlen with
    ⟨hnone, hsame⟩ | ⟨i, first, usedIds, hinj, hfirst, hi, hrow, hcolumns, hmoved⟩
  · refine ⟨_, hsame, rfl, ?_, ⟨fun _ => 0, ?_, ?_⟩, ?_⟩
    · intro i j hi
      rw [hnone] at hi
      cases hi
    · intro n hn
      exact Nat.zero_lt_of_lt hn
    · intro i j _ _ _ hi
      rw [hnone] at hi
      cases hi
    · intro j row row' col hrow hrow' _
      rw [Option.some_inj.mp (hrow.symm.trans hrow')]
  · have hget := getElem?_map_from hi (movedRow E config hinj first)
    refine ⟨_, hmoved, ?_, ?_, ⟨fun _ => 0, ?_, ?_⟩, ?_⟩
    · rw [List.length_append, List.length_map, ← List.length_append, List.take_append_drop]
    · intro i' j hi' hj
      obtain rfl := Option.some_inj.mp (hfirst.symm.trans hi')
      rw [hget, if_pos hj]
    · intro n hn
      exact Nat.zero_lt_of_lt hn
    · intro i' j first' row row' hi' hj hfirst' hrow' hrebased n hn
      obtain rfl := Option.some_inj.mp (hfirst.symm.trans hi')
      obtain rfl := Option.some_inj.mp (hrow.symm.trans hfirst')
      obtain rfl : n = 0 := by omega
      rw [hget, if_neg (Nat.not_lt.mpr hj), hrow', Option.map_some, Option.some_inj] at hrebased
      rw [← hrebased, subStepAction_zero hstride hcolumns, subStepAction_zero hstride hcolumns,
        subStepAction_zero hstride hcolumns, decodeRow_movedRow]
    · intro j row row' col hrow' hrebased hcol
      rw [hget, hrow'] at hrebased
      split at hrebased
      · rw [Option.some_inj.mp hrebased]
      · rw [Option.map_some, Option.some_inj] at hrebased
        rw [← hrebased]
        apply movedRow_unused
        rw [mem_range_usedColumns hcolumns]
        intro hmem
        apply hcol _ hmem 0 (by omega)
        rw [hstride, Nat.mul_one, Nat.add_zero]

end StrideOne

/-! ## The columns of the other strides -/

section OtherStrides

variable {K : Type} [Field K] [LinearOrder K] [IsStrictOrderedRing K] {E : Elementary K}
  {given config : DatasetConfig K} {actionDim : ℕ}

/-- An item of one valid row. -/
def oneRowItem {width : ℕ} (row : Fin width → K) : DatasetItem K Unit Unit where
  actionWidth := width
  frames := [()]
  actionAnnotations := [row]
  envSubenvEncoding := [0]
  userActionMask := [true]
  textEmbeddings := [()]
  systemActionMask := [false]
  validFrameMask := none
  actionMask := [fun _ => true]

/-- Every sub-step of the row is the compact action with `2` everywhere. -/
def constantRow (config : DatasetConfig K) (width : ℕ) : Fin width → K := fun col =>
  config.normalizeChannel (col / config.imageFrameStride) (2 : ℕ)

theorem denormalize_normalizeChannel (c : ℕ) (v : K) :
    (config.normalizeChannel c v + 1) * (1 / (2 : ℕ)) *
      (config.q99 c - config.q01 c + 1 / (10 ^ 6 : ℕ)) + config.q01 c = v := by
  have hscale := config.scale_ne_zero c
  rw [normalizeChannel]
  generalize config.q99 c - config.q01 c + 1 / ((10 ^ 6 : ℕ) : K) = scale at hscale ⊢
  field_simp
  ring

omit [LinearOrder K] [IsStrictOrderedRing K] in
theorem toArray_subStepAction {width : ℕ} (row : Fin width → K) (n : ℕ) (i : Fin 16) :
    (config.subStepAction row n).toArray i =
      (columnOf row (config.usedChannel i * config.imageFrameStride + n) + 1) * (1 / (2 : ℕ)) *
        (config.q99 (config.usedChannel i) - config.q01 (config.usedChannel i) +
          1 / (10 ^ 6 : ℕ)) + config.q01 (config.usedChannel i) := by
  rw [subStepAction, Compact.toArray_ofArray]

/-- The compact action with `2` everywhere. -/
def twos : Compact (Pose K) := .ofArray fun _ => (2 : ℕ)

theorem subStepAction_constantRow {usedIds : Fin 16 → Fin (actionDim * config.imageFrameStride)}
    (hcolumns : config.usedColumns (actionDim * config.imageFrameStride) = some usedIds)
    (hlt : ∀ i, (usedIds i : ℕ) < actionDim) {n : ℕ} (hn : n < config.imageFrameStride) :
    config.subStepAction (config.constantRow (actionDim * config.imageFrameStride)) n = twos := by
  rw [subStepAction, twos]
  congr 1
  funext i
  have hcol : config.usedChannel i * config.imageFrameStride + n <
      actionDim * config.imageFrameStride := by
    rw [usedChannel_eq hcolumns]
    calc (usedIds i : ℕ) * config.imageFrameStride + n
        < ((usedIds i : ℕ) + 1) * config.imageFrameStride := by
          rw [Nat.succ_mul]
          exact Nat.add_lt_add_left hn _
      _ ≤ actionDim * config.imageFrameStride := Nat.mul_le_mul_right _ (hlt i)
  have hchannel : (config.usedChannel i * config.imageFrameStride + n) / config.imageFrameStride =
      config.usedChannel i := by
    rw [Nat.mul_comm, Nat.mul_add_div (Nat.zero_lt_of_lt hn), Nat.div_eq_of_lt hn, Nat.add_zero]
  dsimp only
  rw [columnOf, dif_pos hcol, constantRow, hchannel, denormalize_normalizeChannel]

/-- Outside the grippers an action at its own anchor has no `2`. -/
theorem atAnchor_twos_ne (i : Fin 16) (hleft : i ≠ 7) (hright : i ≠ 15) :
    (ActionLayout.atAnchor (twos : Compact (Pose K))).toArray i ≠ 2 := by
  have hcases : (ActionLayout.atAnchor (twos : Compact (Pose K))).toArray i = 0 ∨
      (ActionLayout.atAnchor (twos : Compact (Pose K))).toArray i = 1 := by
    fin_cases i <;> first | exact absurd rfl hleft | exact absurd rfl hright | exact Or.inl rfl |
      exact Or.inr rfl
  rcases hcases with h | h
  · rw [h]
    exact two_ne_zero.symm
  · rw [h]
    norm_num

/-- Moving leaves a column of a sub-step alone that is no used column. -/
theorem toArray_subStepAction_movedRow
    {usedIds : Fin 16 → Fin (actionDim * config.imageFrameStride)}
    (hinj : Function.Injective usedIds)
    (hcolumns : config.usedColumns (actionDim * config.imageFrameStride) = some usedIds)
    (row : Fin (actionDim * config.imageFrameStride) → K) {i : Fin 16} {n : ℕ}
    (hcol : (usedIds i : ℕ) * config.imageFrameStride + n ∉
      Set.range fun j => (usedIds j : ℕ)) :
    (config.subStepAction (movedRow E config hinj row row) n).toArray i =
      (config.subStepAction row n).toArray i := by
  have hcolumn : columnOf (movedRow E config hinj row row)
      ((usedIds i : ℕ) * config.imageFrameStride + n) =
      columnOf row ((usedIds i : ℕ) * config.imageFrameStride + n) := by
    unfold columnOf
    split
    · apply movedRow_unused
      rintro ⟨j, hj⟩
      exact hcol ⟨j, congrArg Fin.val hj⟩
    · rfl
  rw [toArray_subStepAction, toArray_subStepAction, usedChannel_eq hcolumns, hcolumn]

variable (hE : IsSqrt E.sqrt)

include hE in
/-- With another stride the sub-steps have more columns than the used channels,
and one of them that has to change is not written. -/
theorem not_rebasesSubSteps_of_strideTwo (hpost : PostInit given config actionDim)
    (h16 : given.usedActionChannelIds.length = 16) (hnodup : given.usedActionChannelIds.Nodup)
    (hstride : 2 ≤ config.imageFrameStride) : ¬RebasesSubSteps E config actionDim := by
  intro hrebases
  rw [← hpost.used_eq] at h16 hnodup
  have hlt : ∀ c ∈ config.usedActionChannelIds, c < actionDim := by
    rw [hpost.used_eq]
    exact hpost.used_lt
  have hwide : actionDim ≤ actionDim * config.imageFrameStride :=
    Nat.le_mul_of_pos_right actionDim (by omega)
  obtain ⟨usedIds, hcolumns⟩ := usedColumns_eq_some h16 fun c hc => (hlt c hc).trans_le hwide
  have hinj := usedColumns_injective hnodup hcolumns
  have hltIds : ∀ i, (usedIds i : ℕ) < actionDim := by
    intro i
    exact hlt _ ((mem_range_usedColumns hcolumns _).mp ⟨i, rfl⟩)
  obtain ⟨row, hrow⟩ : ∃ row, config.constantRow (actionDim * config.imageFrameStride) = row :=
    ⟨_, rfl⟩
  obtain ⟨rebased, hrebased, hspec⟩ := hrebases Unit Unit (oneRowItem row) rfl rfl
  -- the only row is moved to itself
  have hvalid : (oneRowItem row).validMask.findIdx? id = some 0 := rfl
  have hmoved := rebasedActions_eq hE hinj hcolumns hvalid rfl
  obtain rfl := Option.some_inj.mp (hrebased.symm.trans hmoved)
  rcases hspec.sub_steps with ⟨reference, href, hsub⟩
  have htwos : ∀ n < config.imageFrameStride, config.subStepAction row n = twos := by
    intro n hn
    rw [← hrow]
    exact subStepAction_constantRow hcolumns hltIds hn
  have hnew : ∀ n < config.imageFrameStride,
      config.subStepAction (movedRow E config hinj row row) n = ActionLayout.atAnchor twos := by
    intro n hn
    have hrebase : config.subStepAction (movedRow E config hinj row row) n =
        rebaseCompactRelativeAction E (config.subStepAction row n)
          (config.subStepAction row (reference n)) :=
      hsub 0 0 row row _ rfl le_rfl rfl rfl rfl n hn
    rw [hrebase, htwos n hn, htwos _ (href n hn), ActionLayout.rebase_self hE]
  -- 14 entries that have to change, in at least 28 columns
  obtain ⟨i, hi, n, hn, hcol⟩ := exists_block_notMem_range (f := fun i => (usedIds i : ℕ))
    (fun i j hij => hinj (Fin.ext hij)) (Finset.univ.filter fun i : Fin 16 => i ≠ 7 ∧ i ≠ 15)
    (s := config.imageFrameStride) (by
      have hcard : (Finset.univ.filter fun i : Fin 16 => i ≠ 7 ∧ i ≠ 15).card = 14 := by decide
      rw [hcard, Fintype.card_fin]
      omega)
  obtain ⟨hleft, hright⟩ := (Finset.mem_filter.mp hi).2
  have hkept := toArray_subStepAction_movedRow (E := E) hinj hcolumns row hcol
  apply atAnchor_twos_ne (K := K) i hleft hright
  rw [← hnew n hn, hkept, htwos n hn, twos, Compact.toArray_ofArray, Nat.cast_ofNat]

end OtherStrides

/-! ## When the layouts agree -/

section Agree

variable {K : Type} [Field K] [LinearOrder K] [IsStrictOrderedRing K] [FloorRing K]
  {E : Elementary K} (hE : IsSqrt E.sqrt) {given config : DatasetConfig K} {actionDim : ℕ}

omit [IsStrictOrderedRing K] [FloorRing K] in
theorem not_rebasesSubSteps_of_not_sixteen (hpost : PostInit given config actionDim)
    (hused : given.usedActionChannelIds ≠ []) (h16 : given.usedActionChannelIds.length ≠ 16) :
    ¬RebasesSubSteps E config actionDim := by
  intro hrebases
  rw [← hpost.used_eq] at hused h16
  obtain ⟨rebased, hrebased, -⟩ := hrebases Unit Unit
    (oneRowItem fun _ : Fin (actionDim * config.imageFrameStride) => 0) rfl rfl
  rw [rebasedActions_of_not_sixteen hused h16 (i := 0) rfl] at hrebased
  cases hrebased

omit [IsStrictOrderedRing K] in
/-- The widths agree when every item has the width of the configuration. -/
theorem widthsAgree_of_width (hpost : PostInit given config actionDim)
    (hused : given.usedActionChannelIds ≠ []) (hnodup : given.usedActionChannelIds.Nodup)
    (hs : 1 ≤ config.imageFrameStride)
    (hwidth : config.Usable →
      given.robotActionDim.getD actionDim = actionDim * config.imageFrameStride) :
    WidthsAgree E config := by
  intro T dataDict textEmbeddings startFrame endFrame action draw item hitem
  rw [actionWidth_of_getItem hpost hused hnodup hitem, getRobotActionDim, hpost.robotActionDim_eq,
    hwidth (usable_of_getItem hs hitem)]

include hE in
theorem width_of_widthsAgree (hpost : PostInit given config actionDim)
    (h16 : given.usedActionChannelIds.length = 16) (hnodup : given.usedActionChannelIds.Nodup)
    (husable : config.Usable) (hagree : WidthsAgree E config) :
    given.robotActionDim.getD actionDim = actionDim * config.imageFrameStride := by
  have hused : given.usedActionChannelIds ≠ [] := by
    intro hnil
    rw [hnil] at h16
    exact absurd h16 (by decide)
  obtain ⟨item, hitem⟩ := exists_getItem hE hpost h16 hnodup husable
  have hdim := hagree _ _ _ _ _ _ _ item hitem
  rw [getRobotActionDim, hpost.robotActionDim_eq] at hdim
  rw [Option.some_inj.mp hdim, actionWidth_of_getItem hpost hused hnodup hitem]

include hE in
/-- **When the three layouts agree.** For distinct used channels and any stride:
the items have the width that the policy is built with and are rebased by
sub-steps exactly for 16 used channels and the stride 1, where a width that the
configuration gives for the policy is the number of channels. -/
theorem width_and_columns_agree_iff (hused : given.usedActionChannelIds ≠ [])
    (hnodup : given.usedActionChannelIds.Nodup) (hinit : given.modelPostInit = some config)
    (hs : 1 ≤ config.imageFrameStride) :
    ∃ actionDim, config.actionDim = some actionDim ∧
      (WidthsAgree E config ∧ RebasesSubSteps E config actionDim ↔
        given.usedActionChannelIds.length = 16 ∧ config.imageFrameStride = 1 ∧
          (config.Usable → given.robotActionDim.getD actionDim = actionDim)) := by
  obtain ⟨actionDim, hpost⟩ := postInit_of_modelPostInit hused hinit
  refine ⟨actionDim, hpost.actionDim_eq, ?_⟩
  constructor
  · rintro ⟨hwidths, hrebases⟩
    have h16 : given.usedActionChannelIds.length = 16 := by
      by_contra hne
      exact not_rebasesSubSteps_of_not_sixteen hpost hused hne hrebases
    have hstride : config.imageFrameStride = 1 := by
      by_contra hne
      exact not_rebasesSubSteps_of_strideTwo hE hpost h16 hnodup (by omega) hrebases
    refine ⟨h16, hstride, ?_⟩
    intro husable
    have hwidth := width_of_widthsAgree hE hpost h16 hnodup husable hwidths
    rwa [hstride, Nat.mul_one] at hwidth
  · rintro ⟨h16, hstride, hdim⟩
    constructor
    · apply widthsAgree_of_width hpost hused hnodup hs
      rwa [hstride, Nat.mul_one]
    · exact rebasesSubSteps_of_strideOne hE hpost h16 hnodup hstride

end Agree

theorem width_and_columns_agree_iff_plain :
    WidthsAgree realElementary (plainConfig (List.range 16) 17) ∧
      RebasesSubSteps realElementary (plainConfig (List.range 16) 17) 17 := by
  have hinit : (plainConfig (List.range 16) 17).modelPostInit =
      some (plainConfig (List.range 16) 17) := rfl
  obtain ⟨actionDim, hdim, hiff⟩ := width_and_columns_agree_iff isSqrt_realElementary (by decide)
    List.nodup_range hinit le_rfl
  obtain rfl : 17 = actionDim := Option.some_inj.mp hdim
  exact hiff.mpr ⟨rfl, rfl, fun _ => rfl⟩

/-- All 16 channels, and two actions in a frame. -/
noncomputable def twoStepConfig : DatasetConfig ℝ :=
  { plainConfig (List.range 16) 16 with imageFrameStride := 2 }

theorem postInit_twoStepConfig : PostInit twoStepConfig twoStepConfig 16 := by
  refine ⟨rfl, rfl, rfl, rfl, ?_⟩
  intro c hc
  exact List.mem_range.mp hc

theorem usable_twoStepConfig : twoStepConfig.Usable :=
  ⟨one_le_two, one_le_two, one_le_two, one_le_two, List.cons_ne_nil _ _⟩

/-- With two actions in a frame the items are twice as wide as the policy, and
they are not rebased by sub-steps. -/
theorem layouts_differ_twoSteps :
    (∃ item, twoStepConfig.getItem realElementary
        (fun _ => some (blankVideo twoStepConfig.images 2)) [()] 0 2 (restActions ℝ) 0 = some item ∧
      item.actionWidth = 32) ∧
    twoStepConfig.getRobotActionDim = some 16 ∧
    ¬RebasesSubSteps realElementary twoStepConfig 16 := by
  have hused : twoStepConfig.usedActionChannelIds ≠ [] := List.cons_ne_nil _ _
  refine ⟨?_, rfl, ?_⟩
  · obtain ⟨item, hitem⟩ := exists_getItem isSqrt_realElementary postInit_twoStepConfig rfl
      List.nodup_range usable_twoStepConfig
    exact ⟨item, hitem, actionWidth_of_getItem postInit_twoStepConfig hused List.nodup_range hitem⟩
  · exact not_rebasesSubSteps_of_strideTwo isSqrt_realElementary postInit_twoStepConfig rfl
      List.nodup_range le_rfl

end DatasetConfig

end P2PRdt.Robot

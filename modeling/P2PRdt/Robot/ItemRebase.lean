import P2PRdt.Robot.DatasetItem
import P2PRdt.Robot.WindowRebase

/-!
# Rebasing an item, and building it

`_rebase_item_actions_to_slice_start` for any configuration and action width: it
reads and writes the columns `used_ids`, and refuses used channels that do not
make a compact action of 16 values. With it come `_ensure_fixed_sequence_length`
and `__getitem__`.

For 16 distinct used channels the rebase is that of the layout of the action
width. It moves every row from the first valid one on, padding included, so a
row that is not valid keeps its value only where moving does nothing.
-/

namespace P2PRdt.Robot

open Lib Quaternion

/-! ## The code -/

section Code

variable {K : Type} [Field K] [LinearOrder K] (E : Elementary K)

/-- `user_action_mask & valid_frame_mask`. -/
def DatasetItem.validMask {F T : Type} (item : DatasetItem K F T) : List Bool :=
  match item.validFrameMask with
  | none => item.userActionMask
  | some valid => List.zipWith (· && ·) item.userActionMask valid

namespace DatasetConfig

variable (config : DatasetConfig K) {F T : Type}

/-- The used channels as columns of a row; a column outside the row and a compact
action that is not of 16 values raise an error. -/
def usedColumns (width : ℕ) : Option (Fin 16 → Fin width) :=
  if h : config.usedActionChannelIds.length = 16 ∧ ∀ c ∈ config.usedActionChannelIds, c < width then
    some fun i => ⟨config.usedActionChannelIds.get (Fin.cast h.1.symm i),
      h.2 _ (List.get_mem _ _)⟩
  else none

/-- `((action_annotations[:, used_ids] + 1.0) * 0.5) * scale + q01`. -/
def denormalizeUsed {width : ℕ} (usedIds : Fin 16 → Fin width) (row : Fin width → K) :
    Fin 16 → K := fun i =>
  let q01 := config.q01 (usedIds i)
  let q99 := config.q99 (usedIds i)
  (row (usedIds i) + 1) * (1 / (2 : ℕ)) * (q99 - q01 + 1 / (10 ^ 6 : ℕ)) + q01

/-- `action_annotations[:, used_ids] = ((compact - q01) / scale) * 2.0 - 1.0`. -/
def writeUsed {width : ℕ} (usedIds : Fin 16 → Fin width) (row : Fin width → K)
    (compact : Compact (Pose K)) : Fin width → K :=
  scatter usedIds (fun i =>
    let q01 := config.q01 (usedIds i)
    let q99 := config.q99 (usedIds i)
    (compact.toArray i - q01) / (q99 - q01 + 1 / (10 ^ 6 : ℕ)) * (2 : ℕ) - 1) row

/-- The actions of `_rebase_item_actions_to_slice_start`. -/
def rebasedActions (item : DatasetItem K F T) : Option (List (Fin item.actionWidth → K)) :=
  if config.usedActionChannelIds = [] then some item.actionAnnotations
  else
    match item.validMask.findIdx? id with
    | none => some item.actionAnnotations
    | some firstValidIdx => do
        let usedIds ← config.usedColumns item.actionWidth
        let compactActions := item.actionAnnotations.map fun row =>
          .ofArray (config.denormalizeUsed usedIds row)
        let reference ← compactActions[firstValidIdx]?
        let rebasedCompactActions := compactActions.take firstValidIdx ++
          rebaseCompactActionSequence E (compactActions.drop firstValidIdx) reference
        pure (List.zipWith (config.writeUsed usedIds) item.actionAnnotations rebasedCompactActions)

def rebaseItemActionsToSliceStart (item : DatasetItem K F T) : Option (DatasetItem K F T) :=
  (config.rebasedActions E item).map fun actions => { item with actionAnnotations := actions }

/-- `_get_target_seq_len`, which refuses a target that is not positive. -/
def getTargetSeqLen : Option ℕ :=
  if config.nSeqTimesteps = 0 then none else some config.nSeqTimesteps

def ensureFixedSequenceLength (draw : ℕ) (item : DatasetItem K F T) :
    Option (DatasetItem K F T) := do
  let targetSeqLen ← config.getTargetSeqLen
  let fixedItem ← item.fixedWindow targetSeqLen config.shuffle draw
  config.rebaseItemActionsToSliceStart E fixedItem

/-- `_format_text_embeddings`: one embedding for each frame, or one for all. -/
def formatTextEmbeddings (textEmbeddings : List T) (numFrames : ℕ) : Option (List T) :=
  if textEmbeddings.length = numFrames then some textEmbeddings
  else
    match textEmbeddings with
    | [text] => some (List.replicate numFrames text)
    | _ => none

variable [FloorRing K]

/-- The item of `__getitem__` before its length is fixed, for the frames
`startFrame`, …, `endFrame - 1`. -/
def segmentItem (dataDict : String → Option ImageConfig.VideoEntry) (textEmbeddings : List T)
    (startFrame endFrame : ℕ) (action : List (Compact (Pose K))) :
    Option (DatasetItem K (Frame config.images.imageHeight config.images.imageWidth) T) := do
  let inverseIds ← config.datasetInverseIds
  let imageFrameIds := List.range' startFrame (endFrame - startFrame)
  let frames ← config.images.catVideoImages config.imageFrameStride config.obsCamKeys dataDict
  let actions ← config.actionPostProcess E inverseIds startFrame imageFrameIds action
  let actions := config.alignActionsWithMultiViewMode actions
  let flattened := actions.flatten
  -- `assert num_frames == action_annotations.shape[0]`
  if frames.length ≠ flattened.length then none
  else do
    let text ← formatTextEmbeddings textEmbeddings frames.length
    pure
      { actionWidth := actions.channels * actions.steps
        frames := frames
        actionAnnotations := flattened.map fun row c => (row c).1
        envSubenvEncoding := List.replicate frames.length 0
        userActionMask := flattened.map fun row => ∃ c, (row c).2
        textEmbeddings := text
        systemActionMask := List.replicate frames.length false
        validFrameMask := some (List.replicate frames.length true)
        actionMask := flattened.map fun row c => (row c).2 }

/-- `__getitem__`. -/
def getItem (dataDict : String → Option ImageConfig.VideoEntry) (textEmbeddings : List T)
    (startFrame endFrame : ℕ) (action : List (Compact (Pose K))) (draw : ℕ) :
    Option (DatasetItem K (Frame config.images.imageHeight config.images.imageWidth) T) := do
  let item ← config.segmentItem E dataDict textEmbeddings startFrame endFrame action
  config.ensureFixedSequenceLength E draw item

end DatasetConfig

end Code

/-! ## What `__getitem__` builds -/

namespace DatasetConfig

section Segment

variable {K : Type} [Field K] [LinearOrder K] [FloorRing K] {E : Elementary K}
  {config : DatasetConfig K} {T : Type}

theorem length_formatTextEmbeddings {textEmbeddings out : List T} {n : ℕ}
    (h : formatTextEmbeddings textEmbeddings n = some out) : out.length = n := by
  unfold formatTextEmbeddings at h
  split at h
  · rename_i hlen
    rw [← Option.some_inj.mp h, hlen]
  · split at h
    · rw [← Option.some_inj.mp h, List.length_replicate]
    · exact absurd h (Option.some_ne_none _).symm

theorem formatTextEmbeddings_singleton (text : T) (n : ℕ) :
    formatTextEmbeddings [text] n = some (List.replicate n text) := by
  unfold formatTextEmbeddings
  split
  · next hone =>
    rw [← hone]
    rfl
  · rfl

/-- The item has one entry in every field for each of its frames. -/
theorem segmentItem_aligned {dataDict : String → Option ImageConfig.VideoEntry}
    {textEmbeddings : List T} {startFrame endFrame : ℕ} {action : List (Compact (Pose K))}
    {item : DatasetItem K (Frame config.images.imageHeight config.images.imageWidth) T}
    (h : config.segmentItem E dataDict textEmbeddings startFrame endFrame action = some item) :
    item.Aligned item.frames.length := by
  simp only [segmentItem, Option.bind_eq_bind, Option.bind_eq_some_iff] at h
  rcases h with ⟨inverseIds, -, frames, -, actions, -, hitem⟩
  split at hitem
  · exact absurd hitem (Option.some_ne_none _).symm
  · rename_i hlen
    have hlen := not_not.mp hlen
    simp only [Option.bind_eq_some_iff, Option.pure_def, Option.some_inj] at hitem
    rcases hitem with ⟨text, htext, rfl⟩
    constructor
    case textEmbeddings => exact length_formatTextEmbeddings htext
    case validFrameMask =>
      intro mask hmask
      rw [← Option.some_inj.mp hmask, List.length_replicate]
    all_goals simp [hlen]

end Segment

end DatasetConfig

/-! ## A rebase that moves nothing -/

section Origin

variable {K : Type} [Field K] [LinearOrder K] {E : Elementary K}

/-- The reference of a rebase that moves nothing: no translation and no rotation. -/
def PoseOf.AtOrigin (E : Elementary K) (p : Pose K) : Prop := p.trans = 0 ∧ rotation E p.quat = 1

def Compact.AtOrigin (E : Elementary K) (c : Compact (Pose K)) : Prop :=
  c.left.AtOrigin E ∧ c.right.AtOrigin E

theorem rebaseRelativePose_eq_self_iff [IsStrictOrderedRing K] (hE : IsSqrt E.sqrt) (p a : Pose K) :
    rebaseRelativePose E p a = p ↔ a.AtOrigin E ∧ p.IsUnit := by
  have hquat : (rebaseRelativePose E p a).quat = star (rotation E a.quat) * rotation E p.quat :=
    poseFromAnchor_quat hE p a
  constructor
  · intro heq
    have hunit : p.IsUnit := heq ▸ isUnit_poseFromAnchor hE p a
    refine ⟨⟨?_, ?_⟩, hunit⟩
    · have htrans : p.trans - a.trans = p.trans := congrArg PoseOf.trans heq
      exact sub_eq_self.mp htrans
    · rw [heq, rotation_of_unit hE hunit] at hquat
      -- the rotation of the pose is cancelled on the right
      have hstar : star (rotation E a.quat) = 1 := by
        calc star (rotation E a.quat)
            = star (rotation E a.quat) * (p.quat * star p.quat) := by rw [hunit.mul_star, mul_one]
          _ = p.quat * star p.quat := by rw [← mul_assoc, ← hquat]
          _ = 1 := hunit.mul_star
      rw [← star_star (rotation E a.quat), hstar, star_one]
  · rintro ⟨⟨htrans, hrot⟩, hunit⟩
    ext1
    · show p.trans - a.trans = p.trans
      rw [htrans, sub_zero]
    · rw [hquat, hrot, star_one, one_mul, rotation_of_unit hE hunit]
    · rfl

end Origin

/-! ## The layout of an action width -/

namespace DatasetConfig

section Layout

variable {K : Type} [Field K] {config : DatasetConfig K} {width : ℕ}
  {usedIds : Fin 16 → Fin width}

/-- The layout of rows of this width, with the used channels as its columns. -/
def layout (config : DatasetConfig K) (usedIds : Fin 16 → Fin width)
    (hinj : Function.Injective usedIds) : ActionLayout K where
  robotActionDim := width
  usedActionChannelIds := usedIds
  used_injective := hinj
  q01 := fun c => config.q01 c
  q99 := fun c => config.q99 c
  scale_ne_zero := fun c => config.scale_ne_zero c

/-- 16 used channels inside the row. -/
theorem usedColumns_eq_some (h16 : config.usedActionChannelIds.length = 16)
    (hlt : ∀ c ∈ config.usedActionChannelIds, c < width) :
    ∃ usedIds, config.usedColumns width = some usedIds :=
  ⟨_, dif_pos ⟨h16, hlt⟩⟩

theorem usedColumns_spec (h : config.usedColumns width = some usedIds) :
    config.usedActionChannelIds.length = 16 ∧
      ∀ i : Fin 16, config.usedActionChannelIds[(i : ℕ)]? = some (usedIds i : ℕ) := by
  unfold usedColumns at h
  split at h
  · rename_i hlen
    obtain rfl := Option.some_inj.mp h
    refine ⟨hlen.1, ?_⟩
    intro i
    exact List.getElem?_eq_getElem (hlen.1.symm ▸ i.isLt)
  · exact absurd h (Option.some_ne_none _).symm

theorem usedColumns_injective (hnodup : config.usedActionChannelIds.Nodup)
    (h : config.usedColumns width = some usedIds) : Function.Injective usedIds := by
  obtain ⟨hlen, hget⟩ := usedColumns_spec h
  intro i j hij
  have hsame : config.usedActionChannelIds[(i : ℕ)]? = config.usedActionChannelIds[(j : ℕ)]? := by
    rw [hget i, hget j, hij]
  exact Fin.ext ((List.getElem?_inj (hlen.symm ▸ i.isLt) hnodup).mp hsame)

/-- A column is used when its number is among the used channels. -/
theorem mem_range_usedColumns (h : config.usedColumns width = some usedIds) (col : Fin width) :
    col ∈ Set.range usedIds ↔ (col : ℕ) ∈ config.usedActionChannelIds := by
  obtain ⟨hlen, hget⟩ := usedColumns_spec h
  constructor
  · rintro ⟨i, rfl⟩
    exact List.mem_of_getElem? (hget i)
  · intro hcol
    obtain ⟨k, hk⟩ := List.getElem?_of_mem hcol
    have hlt : k < 16 := hlen ▸ (List.getElem?_eq_some_iff.mp hk).1
    exact ⟨⟨k, hlt⟩, Fin.ext (Option.some_inj.mp ((hget ⟨k, hlt⟩).symm.trans hk))⟩

end Layout

section Rebase

variable {K : Type} [Field K] [LinearOrder K] {E : Elementary K} {config : DatasetConfig K}
  {F T : Type} {item : DatasetItem K F T} {usedIds : Fin 16 → Fin item.actionWidth}

/-- A row moved to the first valid one. -/
def movedRow (E : Elementary K) (config : DatasetConfig K) {width : ℕ}
    {usedIds : Fin 16 → Fin width} (hinj : Function.Injective usedIds) (first row : Fin width → K) :
    Fin width → K :=
  (config.layout usedIds hinj).rebaseRow E ((config.layout usedIds hinj).decode first) row

/-- Without a valid row nothing is rebased. -/
theorem rebasedActions_of_noValid (h : item.validMask.findIdx? id = none) :
    config.rebasedActions E item = some item.actionAnnotations := by
  rw [rebasedActions, h]
  split <;> rfl

/-- Used channels that are not 16 are refused when there is a valid row. -/
theorem rebasedActions_of_not_sixteen (hused : config.usedActionChannelIds ≠ [])
    (h16 : config.usedActionChannelIds.length ≠ 16) {i : ℕ}
    (hi : item.validMask.findIdx? id = some i) : config.rebasedActions E item = none := by
  have hcolumns : config.usedColumns item.actionWidth = none := dif_neg fun h => h16 h.1
  rw [rebasedActions, if_neg hused, hi, hcolumns]
  rfl

variable [IsStrictOrderedRing K] (hE : IsSqrt E.sqrt)

include hE in
/-- **The rebase of an item.** The rows from the first valid one on are moved to
it in the used columns. -/
theorem rebasedActions_eq (hinj : Function.Injective usedIds)
    (hcolumns : config.usedColumns item.actionWidth = some usedIds) {i : ℕ}
    (hi : item.validMask.findIdx? id = some i) {row : Fin item.actionWidth → K}
    (hrow : item.actionAnnotations[i]? = some row) :
    config.rebasedActions E item = some (item.actionAnnotations.take i ++
      (item.actionAnnotations.drop i).map (movedRow E config hinj row)) := by
  have hused : config.usedActionChannelIds ≠ [] := by
    intro hnil
    have hlen := (usedColumns_spec hcolumns).1
    rw [hnil] at hlen
    exact absurd hlen (by decide)
  have hvalid : ((config.layout usedIds hinj).validMask
      ⟨item.actionAnnotations, item.userActionMask, item.validFrameMask⟩).findIdx? id = some i := hi
  have hlayout := (config.layout usedIds hinj).rebaseItem_eq hE hvalid hrow
  rw [ActionLayout.rebaseItemActionsToSliceStart] at hlayout
  simp only [show (config.layout usedIds hinj).validMask
    ⟨item.actionAnnotations, item.userActionMask, item.validFrameMask⟩ = item.validMask from rfl,
    hi, Option.bind_eq_bind, Option.bind_eq_some_iff, Option.pure_def, Option.some_inj] at hlayout
  rcases hlayout with ⟨reference, hreference, hitem⟩
  rw [rebasedActions, if_neg hused, hi]
  simp only [hcolumns, Option.bind_eq_bind, Option.bind_some, Option.pure_def]
  have hsame : (item.actionAnnotations.map fun row =>
      Compact.ofArray (config.denormalizeUsed usedIds row))[i]? = some reference := hreference
  rw [hsame, Option.bind_some, Option.some_inj]
  exact congrArg ActionItem.actionAnnotations hitem

/-! ## Rows that are not valid -/

/-- The compact action that a row stands for. -/
def decodeRow (config : DatasetConfig K) {width : ℕ} (usedIds : Fin 16 → Fin width)
    (row : Fin width → K) : Compact (Pose K) := .ofArray (config.denormalizeUsed usedIds row)

include hE in
/-- A row is not changed exactly when the reference is at the origin and the row
stands for rotations. -/
theorem movedRow_eq_self_iff {width : ℕ} {usedIds : Fin 16 → Fin width}
    (hinj : Function.Injective usedIds) (first row : Fin width → K) :
    movedRow E config hinj first row = row ↔
      (config.decodeRow usedIds first).AtOrigin E ∧ (config.decodeRow usedIds row).IsUnit := by
  have harms : rebaseCompactRelativeAction E (config.decodeRow usedIds row)
        (config.decodeRow usedIds first) = config.decodeRow usedIds row ↔
      (config.decodeRow usedIds first).AtOrigin E ∧ (config.decodeRow usedIds row).IsUnit := by
    rw [Compact.ext_iff]
    show rebaseRelativePose E _ _ = _ ∧ rebaseRelativePose E _ _ = _ ↔ _
    rw [rebaseRelativePose_eq_self_iff hE, rebaseRelativePose_eq_self_iff hE]
    exact and_and_and_comm
  rw [← harms]
  constructor
  · intro heq
    have hdecode := (config.layout usedIds hinj).decode_rebaseRow E
      ((config.layout usedIds hinj).decode first) row
    exact hdecode.symm.trans (congrArg (config.layout usedIds hinj).decode heq)
  · intro heq
    have hwrite := (config.layout usedIds hinj).writeUsed_rebase (E := E)
      ((config.layout usedIds hinj).decode first) row
    refine hwrite.symm.trans ?_
    exact (congrArg ((config.layout usedIds hinj).writeUsed row) heq).trans
      ((config.layout usedIds hinj).writeUsed_decode row)

omit [IsStrictOrderedRing K] in
/-- Every row whose valid flag is false has the same actions afterwards, and
every channel that is not used has the same value in every row. -/
structure TouchesValidRowsOnly (config : DatasetConfig K) (item : DatasetItem K F T)
    (rebased : List (Fin item.actionWidth → K)) : Prop where
  invalid_rows : ∀ j : ℕ, item.validMask[j]? = some false →
    rebased[j]? = item.actionAnnotations[j]?
  unused_channels : ∀ (j : ℕ) row row' (col : Fin item.actionWidth),
    item.actionAnnotations[j]? = some row → rebased[j]? = some row' →
    (col : ℕ) ∉ config.usedActionChannelIds → row' col = row col

/-- Rebasing moves nothing in the rows behind the first valid one that are not
valid themselves. -/
def InvalidRowsFixed (E : Elementary K) (config : DatasetConfig K) (item : DatasetItem K F T) :
    Prop :=
  ∀ usedIds, config.usedColumns item.actionWidth = some usedIds →
    ∀ (i j : ℕ) first row, item.validMask.findIdx? id = some i → i < j →
      item.validMask[j]? = some false → item.actionAnnotations[i]? = some first →
      item.actionAnnotations[j]? = some row →
      (config.decodeRow usedIds first).AtOrigin E ∧ (config.decodeRow usedIds row).IsUnit

omit [LinearOrder K] [IsStrictOrderedRing K] in
theorem touchesValidRowsOnly_self :
    TouchesValidRowsOnly config item item.actionAnnotations := by
  constructor
  · intro _ _
    rfl
  · intro j row row' col hrow hrow' _
    rw [Option.some_inj.mp (hrow.symm.trans hrow')]

omit [LinearOrder K] [IsStrictOrderedRing K] in
/-- The entries in front of place `i` and the mapped ones from it on. -/
theorem getElem?_map_from {α : Type} {l : List α} {i : ℕ} (hi : i ≤ l.length) (f : α → α) (j : ℕ) :
    (l.take i ++ (l.drop i).map f)[j]? = if j < i then l[j]? else (l[j]?).map f := by
  have htake : (l.take i).length = i := List.length_take_of_le hi
  split
  · rename_i hj
    rw [List.getElem?_append_left (htake.symm ▸ hj), List.getElem?_take_of_lt hj]
  · rename_i hj
    have hij := not_lt.mp hj
    rw [List.getElem?_append_right (htake.symm ▸ hij), htake, List.getElem?_map,
      List.getElem?_drop, Nat.add_sub_cancel' hij]

theorem movedRow_unused {width : ℕ} {usedIds : Fin 16 → Fin width}
    (hinj : Function.Injective usedIds) (first row : Fin width → K) {col : Fin width}
    (hcol : col ∉ Set.range usedIds) : movedRow E config hinj first row col = row col :=
  (config.layout usedIds hinj).rebaseRow_unused E _ row hcol

section Moved

variable {usedIds : Fin 16 → Fin item.actionWidth} (hinj : Function.Injective usedIds)
  (hcolumns : config.usedColumns item.actionWidth = some usedIds) {i : ℕ}
  {first : Fin item.actionWidth → K} (hfirst : item.validMask.findIdx? id = some i)
  (hlen : i < item.actionAnnotations.length) (hrow : item.actionAnnotations[i]? = some first)

include hE hcolumns hfirst hlen hrow in
/-- A row that is not valid is not touched only where moving does nothing. -/
theorem invalidRowsFixed_of_touches
    (h : TouchesValidRowsOnly config item (item.actionAnnotations.take i ++
      (item.actionAnnotations.drop i).map (movedRow E config hinj first))) :
    InvalidRowsFixed E config item := by
  intro usedIds' hcolumns' i' j first' row hi' hij hinvalid hfirst' hrow'
  obtain rfl := Option.some_inj.mp (hcolumns.symm.trans hcolumns')
  obtain rfl := Option.some_inj.mp (hfirst.symm.trans hi')
  obtain rfl := Option.some_inj.mp (hrow.symm.trans hfirst')
  have hsame := h.invalid_rows j hinvalid
  rw [getElem?_map_from hlen.le, if_neg hij.not_gt, hrow', Option.map_some,
    Option.some_inj] at hsame
  exact (movedRow_eq_self_iff hE hinj first row).mp hsame

include hE hcolumns hfirst hlen hrow in
theorem touches_of_invalidRowsFixed (h : InvalidRowsFixed E config item) :
    TouchesValidRowsOnly config item (item.actionAnnotations.take i ++
      (item.actionAnnotations.drop i).map (movedRow E config hinj first)) := by
  have hget := getElem?_map_from hlen.le (movedRow E config hinj first)
  constructor
  · intro j hinvalid
    rw [hget]
    split
    · rfl
    · rename_i hj
      -- the first valid row is valid itself
      have hne : i ≠ j := by
        rintro rfl
        obtain ⟨himask, hvalid, -⟩ := List.findIdx?_eq_some_iff_getElem.mp hfirst
        have htrue : item.validMask[i]? = some true := by
          rw [List.getElem?_eq_getElem himask]
          exact congrArg some hvalid
        exact absurd (hinvalid.symm.trans htrue) (by decide)
      have hij : i < j := lt_of_le_of_ne (not_lt.mp hj) hne
      cases hrow' : item.actionAnnotations[j]? with
      | none => rfl
      | some row =>
          rw [Option.map_some, (movedRow_eq_self_iff hE hinj first row).mpr
            (h usedIds hcolumns i j first row hfirst hij hinvalid hrow hrow')]
  · intro j row row' col hrow' hrebased hcol
    rw [hget, hrow'] at hrebased
    split at hrebased
    · rw [Option.some_inj.mp hrebased]
    · rw [Option.map_some, Option.some_inj] at hrebased
      rw [← hrebased, movedRow_unused hinj first row]
      rwa [mem_range_usedColumns hcolumns]

end Moved

include hE in
/-- **When rebasing touches valid rows only.** The rebased rows differ from the
given ones in a row that is not valid unless moving does nothing to it. -/
theorem touchesValidRowsOnly_iff (hnodup : config.usedActionChannelIds.Nodup)
    (hlen : item.validMask.length = item.actionAnnotations.length)
    {rebased : List (Fin item.actionWidth → K)}
    (h : config.rebasedActions E item = some rebased) :
    TouchesValidRowsOnly config item rebased ↔ InvalidRowsFixed E config item := by
  by_cases hused : config.usedActionChannelIds = []
  · have hsame : rebased = item.actionAnnotations := by
      rw [rebasedActions, if_pos hused] at h
      exact (Option.some_inj.mp h).symm
    subst hsame
    constructor
    · intro _ usedIds hcolumns
      have h16 := (usedColumns_spec hcolumns).1
      rw [hused] at h16
      exact absurd h16 (by decide)
    · intro _
      exact touchesValidRowsOnly_self
  cases hfirst : item.validMask.findIdx? id with
  | none =>
      rw [rebasedActions_of_noValid hfirst, Option.some_inj] at h
      subst h
      constructor
      · intro _ usedIds _ i j _ _ hi
        rw [hfirst] at hi
        cases hi
      · intro _
        exact touchesValidRowsOnly_self
  | some i =>
      obtain ⟨usedIds, hcolumns⟩ :
          ∃ usedIds, config.usedColumns item.actionWidth = some usedIds := by
        cases hcolumns : config.usedColumns item.actionWidth with
        | some usedIds => exact ⟨usedIds, rfl⟩
        | none =>
            rw [rebasedActions, if_neg hused, hfirst, hcolumns] at h
            cases h
      have hinj := usedColumns_injective hnodup hcolumns
      have hi : i < item.actionAnnotations.length :=
        hlen ▸ (List.findIdx?_eq_some_iff_getElem.mp hfirst).1
      have hrow := List.getElem?_eq_getElem hi
      rw [rebasedActions_eq hE hinj hcolumns hfirst hrow, Option.some_inj] at h
      subst h
      constructor
      · exact invalidRowsFixed_of_touches hE hinj hcolumns hfirst hi hrow
      · exact touches_of_invalidRowsFixed hE hinj hcolumns hfirst hi hrow

omit [Field K] [LinearOrder K] [IsStrictOrderedRing K] in
theorem length_validMask {n : ℕ} (h : item.Aligned n) : item.validMask.length = n := by
  unfold DatasetItem.validMask
  split
  · exact h.userActionMask
  · rename_i valid hvalid
    rw [List.length_zipWith, h.userActionMask, h.validFrameMask valid hvalid, Nat.min_self]

omit [LinearOrder K] [IsStrictOrderedRing K] in
/-- The window of an item, as an item of the target length. -/
theorem exists_fixedWindow {n : ℕ} (hn : 1 ≤ n) (hitem : item.Aligned n) (target : ℕ)
    (shuffle : Bool) {draw : ℕ} (hdraw : draw ≤ n - target) :
    ∃ fixed, item.fixedWindow target shuffle draw = some fixed ∧ fixed.Aligned target := by
  obtain ⟨frames, actions, env, user, text, system, valid, mask, hfixed, hwindow⟩ :=
    DatasetItem.fixedWindow_spec hn hitem target shuffle hdraw
  refine ⟨_, hfixed, ?_⟩
  constructor
  case validFrameMask =>
    rintro mask ⟨⟩
    exact hwindow.validFrameMask.length
  · exact hwindow.frames.length
  · exact hwindow.actionAnnotations.length
  · exact hwindow.envSubenvEncoding.length
  · exact hwindow.userActionMask.length
  · exact hwindow.textEmbeddings.length
  · exact hwindow.systemActionMask.length
  · exact hwindow.actionMask.length

include hE in
/-- **Padding and the rebase.** For every item whose length is fixed, the rebase
touches valid rows only exactly when it has nothing to move in the other rows
behind the first valid one. -/
theorem ensureFixed_touchesValidRowsOnly_iff (hnodup : config.usedActionChannelIds.Nodup)
    {n : ℕ} (hn : 1 ≤ n) (hitem : item.Aligned n) {draw : ℕ}
    (hdraw : draw ≤ n - config.nSeqTimesteps) {result : DatasetItem K F T}
    (h : config.ensureFixedSequenceLength E draw item = some result) :
    ∃ fixed rebased, item.fixedWindow config.nSeqTimesteps config.shuffle draw = some fixed ∧
      config.rebasedActions E fixed = some rebased ∧
      result = { fixed with actionAnnotations := rebased } ∧
      (TouchesValidRowsOnly config fixed rebased ↔ InvalidRowsFixed E config fixed) := by
  obtain ⟨fixed, hfixed, haligned⟩ := exists_fixedWindow hn hitem config.nSeqTimesteps
    config.shuffle hdraw
  have htarget : config.getTargetSeqLen = some config.nSeqTimesteps := by
    unfold getTargetSeqLen
    split
    · rename_i hzero
      rw [ensureFixedSequenceLength, getTargetSeqLen, if_pos hzero] at h
      cases h
    · rfl
  simp only [ensureFixedSequenceLength, htarget, hfixed, rebaseItemActionsToSliceStart,
    Option.bind_eq_bind, Option.bind_some, Option.map_eq_some_iff] at h
  rcases h with ⟨rebased, hrebased, hresult⟩
  refine ⟨fixed, rebased, hfixed, hrebased, hresult.symm, ?_⟩
  apply touchesValidRowsOnly_iff hE hnodup _ hrebased
  rw [length_validMask haligned, haligned.actionAnnotations]

end Rebase

/-! ## A short episode -/

section ShortEpisode

/-- 16 used channels of 17, quantiles around zero and three time steps. -/
noncomputable def centredConfig : DatasetConfig ℝ :=
  { plainConfig (List.range 16) 17 with
    nSeqTimesteps := 3
    q01 := fun _ => -1
    q99 := fun _ => 1
    scale_ne_zero := by
      intro _
      norm_num }

noncomputable def identityRow : Fin 17 → ℝ := fun c =>
  if h : (c : ℕ) < 16 then centredConfig.normalizeChannel c ((originAction 1).toArray ⟨c, h⟩)
  else 0

/-- Two frames of an arm at rest, the first of them masked. -/
noncomputable def shortEpisode : DatasetItem ℝ Unit Unit where
  actionWidth := 17
  frames := [(), ()]
  actionAnnotations := [fun _ => 0, identityRow]
  envSubenvEncoding := [0, 0]
  userActionMask := [false, true]
  textEmbeddings := [(), ()]
  systemActionMask := [false, false]
  validFrameMask := some [true, true]
  actionMask := [fun _ => false, fun c => (c : ℕ) < 16]

noncomputable def shortWindow : DatasetItem ℝ Unit Unit where
  actionWidth := 17
  frames := [(), (), ()]
  actionAnnotations := [fun _ => 0, identityRow, fun _ => 0]
  envSubenvEncoding := [0, 0, 0]
  userActionMask := [false, true, false]
  textEmbeddings := [(), (), ()]
  systemActionMask := [false, false, false]
  validFrameMask := some [true, true, false]
  actionMask := [fun _ => false, fun c => (c : ℕ) < 16, fun _ => false]

theorem shortEpisode_aligned : shortEpisode.Aligned 2 := by
  constructor
  case validFrameMask =>
    rintro mask ⟨⟩
    rfl
  all_goals rfl

/-- The columns `0`, …, `15` of 17. -/
def firstSixteen : Fin 16 → Fin 17 := Fin.castSucc

theorem firstSixteen_injective : Function.Injective firstSixteen := Fin.castSucc_injective 16

theorem usedColumns_centredConfig : centredConfig.usedColumns 17 = some firstSixteen := by
  have h : centredConfig.usedActionChannelIds.length = 16 ∧
      ∀ c ∈ centredConfig.usedActionChannelIds, c < 17 := by
    constructor
    · rfl
    · intro c hc
      have hlt : c < 16 := List.mem_range.mp hc
      omega
  rw [usedColumns, dif_pos h, Option.some_inj]
  funext i
  apply Fin.ext
  exact List.getElem_range _

theorem rebasedActions_shortWindow :
    centredConfig.rebasedActions realElementary shortWindow = some [fun _ => 0,
      movedRow realElementary centredConfig firstSixteen_injective identityRow identityRow,
      movedRow realElementary centredConfig firstSixteen_injective identityRow fun _ => 0] :=
  rebasedActions_eq isSqrt_realElementary firstSixteen_injective usedColumns_centredConfig
    (show shortWindow.validMask.findIdx? id = some 1 from rfl) rfl

/-- The middle of the quantiles is not a rotation. -/
theorem decodeRow_zero_not_unit :
    ¬(centredConfig.decodeRow firstSixteen fun _ => 0).IsUnit := by
  rintro ⟨hleft, -⟩
  have hnorm : normSq (centredConfig.decodeRow firstSixteen fun _ => 0).left.quat = 1 := hleft
  rw [normSq_def'] at hnorm
  simp [decodeRow, denormalizeUsed, centredConfig, Compact.ofArray, quatOfXyzw] at hnorm
  norm_num at hnorm

/-- The padding row of the window is zero before the rebase and not after it. -/
theorem padding_moved_shortEpisode :
    shortEpisode.fixedWindow 3 false 0 = some shortWindow ∧
      shortWindow.validMask = [false, true, false] ∧
      shortWindow.actionAnnotations[2]? = some (fun _ => 0) ∧
      ∃ rebased, centredConfig.rebasedActions realElementary shortWindow = some rebased ∧
        rebased[2]? ≠ some (fun _ => 0) := by
  refine ⟨rfl, rfl, rfl, _, rebasedActions_shortWindow, ?_⟩
  intro hsame
  have hmoved := (movedRow_eq_self_iff isSqrt_realElementary firstSixteen_injective identityRow
    fun _ => 0).mp (Option.some_inj.mp hsame)
  exact decodeRow_zero_not_unit hmoved.2

theorem ensureFixed_touchesValidRowsOnly_iff_shortEpisode :
    ∃ fixed rebased, shortEpisode.fixedWindow 3 false 0 = some fixed ∧
      centredConfig.rebasedActions realElementary fixed = some rebased ∧
      (TouchesValidRowsOnly centredConfig fixed rebased ↔
        InvalidRowsFixed realElementary centredConfig fixed) := by
  obtain ⟨result, hresult⟩ : ∃ result, centredConfig.rebaseItemActionsToSliceStart realElementary
      shortWindow = some result := by
    rw [rebaseItemActionsToSliceStart, rebasedActions_shortWindow]
    exact ⟨_, rfl⟩
  have hensure : centredConfig.ensureFixedSequenceLength realElementary 0 shortEpisode =
      some result := hresult
  obtain ⟨fixed, rebased, hfixed, hrebased, -, hiff⟩ :=
    ensureFixed_touchesValidRowsOnly_iff isSqrt_realElementary List.nodup_range (by decide)
      shortEpisode_aligned (Nat.zero_le _) hensure
  exact ⟨fixed, rebased, hfixed, hrebased, hiff⟩

end ShortEpisode

end DatasetConfig

end P2PRdt.Robot

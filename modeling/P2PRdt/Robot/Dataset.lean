import P2PRdt.Robot.Adapter

/-!
# The robot dataset

The action side of `LatentLeRobotDataset`: the poses of a segment are taken
relative to its first row, shifted by one frame, spread over the channels
through the inverse id table, normalized and masked; a window of the result is
padded to a fixed length and rebased to its first valid row.

Items of the multi-view modes other than `frame` are modelled, with one action
for a frame. Frames, texts and the other fields of an item do not take part.
-/

namespace P2PRdt.Robot

open Lib Quaternion

/-- The fields of a dataset item that the action code reads and writes. -/
structure ActionItem {K : Type} [Field K] (A : ActionLayout K) where
  actionAnnotations : List A.Row
  userActionMask : List Bool
  validFrameMask : Option (List Bool)

section Rebase

variable {K : Type} [Field K] [LinearOrder K] (E : Elementary K)

def normalizeQuaternionNp (quat : ℍ[K]) : ℍ[K] := normalizeOr E.sqrt (1 / (10 ^ 8 : ℕ)) quat

/-- One arm in the loop of `_rebase_compact_action_sequence`. -/
def rebaseArm (compactAction referenceAction : Pose K) : Pose K where
  trans := compactAction.trans - referenceAction.trans
  quat := star (normalizeQuaternionNp E referenceAction.quat) *
    normalizeQuaternionNp E compactAction.quat
  gripper := compactAction.gripper

def rebaseCompactActionSequence (compactActions : List (Compact (Pose K)))
    (referenceAction : Compact (Pose K)) : List (Compact (Pose K)) :=
  compactActions.map fun c => c.map₂ (rebaseArm E) referenceAction

namespace ActionLayout

variable (A : ActionLayout K)

/-- The used channels of a row in their own units. -/
def denormalizeUsed (row : A.Row) : Fin 16 → K := fun i =>
  let id := A.usedActionChannelIds i
  (row id + 1) * (1 / (2 : ℕ)) * (A.q99 id - A.q01 id + 1 / (10 ^ 6 : ℕ)) + A.q01 id

def normalizeUsed (compact : Fin 16 → K) : Fin 16 → K := fun i =>
  let id := A.usedActionChannelIds i
  (compact i - A.q01 id) / (A.q99 id - A.q01 id + 1 / (10 ^ 6 : ℕ)) * (2 : ℕ) - 1

def validMask (item : ActionItem A) : List Bool :=
  match item.validFrameMask with
  | none => item.userActionMask
  | some valid => List.zipWith (· && ·) item.userActionMask valid

/-- Write a compact action into the used channels of a row. -/
def writeUsed (row : A.Row) (compact : Compact (Pose K)) : A.Row :=
  scatter A.usedActionChannelIds (A.normalizeUsed compact.toArray) row

def rebaseItemActionsToSliceStart (item : ActionItem A) : Option (ActionItem A) :=
  match (A.validMask item).findIdx? id with
  | none => some item
  | some firstValidIdx => do
      let compactActions := item.actionAnnotations.map fun row => .ofArray (A.denormalizeUsed row)
      let reference ← compactActions[firstValidIdx]?
      let rebasedCompactActions := compactActions.take firstValidIdx ++
        rebaseCompactActionSequence E (compactActions.drop firstValidIdx) reference
      pure { item with
        actionAnnotations :=
          List.zipWith A.writeUsed item.actionAnnotations rebasedCompactActions }

end ActionLayout

end Rebase

/-! ## Segments and windows -/

section Segment

variable {K : Type} [Field K] [LinearOrder K] (E : Elementary K)

/-- Poses relative to the first one; `from_quat` refuses a zero quaternion. -/
def getRelativePose (pose : List (Pose K)) : Option (List (Pose K)) :=
  pose.mapM fun p => do
    let first ← pose.head?
    let rot ← fromQuat E p.quat
    let firstRot ← fromQuat E first.quat
    pure { trans := p.trans - first.trans, quat := star firstRot * rot, gripper := p.gripper }

namespace ActionLayout

variable (A : ActionLayout K)

/-- `_resolve_inverse_used_action_channel_ids`: the position of a channel among
the used ids, and 16 for the others. -/
def inverseUsedActionChannelIds : Fin A.robotActionDim → ℕ :=
  scatter A.usedActionChannelIds (fun i => (i : ℕ)) fun _ => 16

/-- The row of compact values with a zero behind it, read through the inverse
table and normalized. -/
def alignedAction (action : Fin 16 → K) : A.Row := fun c =>
  let padded : ℕ → K := fun i => if h : i < 16 then action ⟨i, h⟩ else 0
  (padded (A.inverseUsedActionChannelIds c) - A.q01 c) /
    (A.q99 c - A.q01 c + 1 / (10 ^ 6 : ℕ)) * (2 : ℕ) - 1

def alignedMask (mask : Bool) : Fin A.robotActionDim → Bool := fun c =>
  if A.inverseUsedActionChannelIds c < 16 then mask else false

def maskedAction (action : (Fin 16 → K) × Bool) : A.Row := fun c =>
  A.alignedAction action.1 c * if A.alignedMask action.2 c then 1 else 0

/-- The rows of a segment before they are aligned, each with its mask. -/
def shiftedActions (imageFrameStride localStartFrame : ℕ) (imageFrameIds : List ℕ)
    (action : List (Compact (Pose K))) : Option (List ((Fin 16 → K) × Bool)) := do
  let frameId0 ← imageFrameIds[0]?
  let frameId1 ← imageFrameIds[1]?
  let actShift := frameId0 - localStartFrame
  let frameStride := frameId1 - frameId0
  let action := action.drop actShift
  let leftAction ← getRelativePose E (action.map Compact.left)
  let rightAction ← getRelativePose E (action.map Compact.right)
  let action := List.zipWith Compact.mk leftAction rightAction
  let padSteps := frameStride * imageFrameStride
  let rows := List.replicate padSteps (0, false) ++ action.map fun c => (c.toArray, true)
  let imageFrameNum := (imageFrameIds.length - 1) / imageFrameStride + 1
  let requiredActionNum := imageFrameNum * frameStride * imageFrameStride
  let rows := rows.take requiredActionNum
  -- `assert action.shape[0] == required_action_num`
  if rows.length = requiredActionNum then pure rows else none

/-- The item of a segment with image frame stride 1. A frame is a user frame when
some channel of its mask is set. -/
def actionPostProcess (localStartFrame : ℕ) (imageFrameIds : List ℕ)
    (action : List (Compact (Pose K))) : Option (ActionItem A) := do
  let rows ← shiftedActions E 1 localStartFrame imageFrameIds action
  pure
    { actionAnnotations := rows.map A.maskedAction
      userActionMask := rows.map fun r => ∃ c, A.alignedMask r.2 c
      validFrameMask := some (List.replicate rows.length true) }

/-- `_select_time_slice`; `draw` is the random start of a shuffled dataset. -/
def selectTimeSlice (numFrames targetSeqLen : ℕ) (shuffle : Bool) (draw : ℕ) : ℕ × ℕ :=
  if numFrames ≤ targetSeqLen then (0, numFrames)
  else
    let maxStart := numFrames - targetSeqLen
    let start := if shuffle && 0 < maxStart then draw else 0
    (start, start + targetSeqLen)

/-- `_pad_time_dim` with the mode `zeros`. -/
def padTimeDim {α : Type} (zero : α) (tensor : List α) (targetSeqLen : ℕ) : List α :=
  tensor ++ List.replicate (targetSeqLen - tensor.length) zero

def ensureFixedSequenceLength (targetSeqLen : Option ℕ) (shuffle : Bool) (draw : ℕ)
    (item : ActionItem A) : Option (ActionItem A) :=
  match targetSeqLen with
  | none => some item
  | some target =>
      let slice := selectTimeSlice item.actionAnnotations.length target shuffle draw
      let cut {α : Type} (tensor : List α) := (tensor.drop slice.1).take (slice.2 - slice.1)
      let validFrameMask :=
        item.validFrameMask.getD (List.replicate item.actionAnnotations.length true)
      A.rebaseItemActionsToSliceStart E
        { actionAnnotations := padTimeDim 0 (cut item.actionAnnotations) target
          userActionMask := padTimeDim false (cut item.userActionMask) target
          validFrameMask := some (padTimeDim false (cut validFrameMask) target) }

/-- The action side of `__getitem__` for a segment of frames `startFrame`, …,
`endFrame - 1`. -/
def getItemActions (startFrame endFrame : ℕ) (action : List (Compact (Pose K)))
    (targetSeqLen : Option ℕ) (shuffle : Bool) (draw : ℕ) : Option (ActionItem A) := do
  let imageFrameIds := List.range' startFrame (endFrame - startFrame)
  let item ← A.actionPostProcess E startFrame imageFrameIds action
  A.ensureFixedSequenceLength E targetSeqLen shuffle draw item

end ActionLayout

end Segment

end P2PRdt.Robot

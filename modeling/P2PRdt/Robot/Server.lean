import P2PRdt.Robot.Adapter

/-!
# The RoboTwin inference server

`RobotTwinSequenceInferenceState` with `legacy_inference` off. The server keeps
the last frames, poses and normalized actions of an episode. A step fills the
next slot, or rolls the histories by one slot and moves the stored actions to
the new first pose; then it asks the policy for an action and stabilizes it.

The policy network is a function of the histories and of its random draws. The
retry after an out-of-memory error is left out, it calls the same function
again.
-/

namespace P2PRdt.Robot

open Lib Quaternion

/-- The configuration of a server, its text encoder and its policy network.
Frames have type `F`, text embeddings `T` and random draws `D`. -/
structure RobotTwinPolicy (K F T D : Type) [Field K] where
  actionAdapter : ActionLayout K
  elementary : Elementary K
  seqLen : ℕ
  seqLen_pos : 1 ≤ seqLen
  warmStartBlend : K
  warmStartNoiseStd : K
  actionSmoothingAlpha : K
  frameShape : F → List ℕ
  zeroFrame : F → F
  encodePrompt : String → Option T
  coerceTextTokensEmbed : T → T
  onlineFullPredict : (frames : List F) → (actions : List actionAdapter.Row) →
    (textTokensEmbed : Option T) → (initialSample : Option (List actionAdapter.Row)) → D →
    List (Fin actionAdapter.robotActionDim → ExtNum K)
  length_onlineFullPredict : ∀ frames actions text initialSample draw,
    (onlineFullPredict frames actions text initialSample draw).length = actions.length

/-- The arguments of one `step` call and the random numbers drawn during it. -/
structure StepInput {K F T D : Type} [Field K] (P : RobotTwinPolicy K F T D) where
  frame : F
  currentPose : Compact (Pose K)
  prompt : Option String
  textTokensEmbed : Option T
  blendNoise : List P.actionAdapter.Row
  stdNoise : List P.actionAdapter.Row
  draw : D

structure ServerState {K F T D : Type} [Field K] (P : RobotTwinPolicy K F T D) where
  currentPrompt : String
  textTokensEmbed : Option T
  frameHistory : Option (List F)
  poseHistory : List (Compact (Pose K))
  anchorPose : Compact (Pose K)
  actionHistory : List P.actionAdapter.Row
  prevActionPreds : Option (List P.actionAdapter.Row)
  prevExecutedAbsoluteAction : Option (Compact (Pose K))
  nPriorFrames : ℕ

section Arrays

variable {α : Type}

/-- `roll(x, shifts=-1)`. -/
def roll (l : List α) : List α := l.tail ++ l.head?.toList

/-- `x[-1] = v`. -/
def setLast (l : List α) (v : α) : List α := l.dropLast ++ [v]

end Arrays

namespace RobotTwinPolicy

variable {K F T D : Type} [Field K] (P : RobotTwinPolicy K F T D)

def zeroPose : Compact (Pose K) := .ofArray 0

section Text

/-- `prompt or default`: an empty prompt counts as none. -/
def promptOr (prompt : Option String) (default : String) : String :=
  match prompt with
  | some p => if p = "" then default else p
  | none => default

def resolveTextTokensEmbed (prompt : String) (textTokensEmbed : Option T) : Option T :=
  match textTokensEmbed with
  | some t => some (P.coerceTextTokensEmbed t)
  | none => P.encodePrompt prompt

end Text

/-- `__post_init__`. -/
def initState : ServerState P where
  currentPrompt := ""
  textTokensEmbed := none
  frameHistory := none
  poseHistory := List.replicate P.seqLen zeroPose
  anchorPose := zeroPose
  actionHistory := List.replicate P.seqLen 0
  prevActionPreds := none
  prevExecutedAbsoluteAction := none
  nPriorFrames := 0

/-- `reset`; `fill` and `zero_` keep the length of an array. -/
def reset (s : ServerState P) (prompt : Option String) (textTokensEmbed : Option T) :
    ServerState P where
  currentPrompt := promptOr prompt ""
  textTokensEmbed := P.resolveTextTokensEmbed (promptOr prompt "") textTokensEmbed
  frameHistory := none
  poseHistory := s.poseHistory.map fun _ => zeroPose
  anchorPose := zeroPose
  actionHistory := s.actionHistory.map fun _ => 0
  prevActionPreds := none
  prevExecutedAbsoluteAction := none
  nPriorFrames := 0

def ensureFrameHistory (frameHistory : Option (List F)) (frame : F) : List F :=
  let zeros := List.replicate P.seqLen (P.zeroFrame frame)
  match frameHistory with
  | none => zeros
  | some frames =>
      if frames.map P.frameShape = List.replicate P.seqLen (P.frameShape frame) then frames
      else zeros

/-- The action that stays at `currentPose` when that pose is the anchor. -/
def makeIdentityRelativeAction (A : ActionLayout K) (currentPose : Compact (Pose K)) : A.Row :=
  let compactAction : Compact (Pose K) :=
    ⟨⟨0, 1, currentPose.left.gripper⟩, ⟨0, 1, currentPose.right.gripper⟩⟩
  A.normalize (A.compactToFullAction compactAction none)

variable [LinearOrder K]

def rebaseActionHistoryAfterRoll (actionHistory : List P.actionAdapter.Row)
    (previousAnchorPose newAnchorPose : Compact (Pose K)) : Option (List P.actionAdapter.Row) :=
  if P.seqLen ≤ 1 then some actionHistory
  else do
    let rebasedHistory ← P.actionAdapter.rebaseNormalizedActionsToObservedAnchor P.elementary
      (actionHistory.take (P.seqLen - 1)) previousAnchorPose newAnchorPose
    pure (setLast (rebasedHistory ++ actionHistory.drop (P.seqLen - 1)) 0)

def rollWarmStartPredictions (prevActionPreds : Option (List P.actionAdapter.Row))
    (previousAnchorPose newAnchorPose : Compact (Pose K)) :
    Option (Option (List P.actionAdapter.Row)) :=
  match prevActionPreds with
  | none => some none
  | some preds => do
      -- `shifted[:-1] = preds[1:]` and `shifted[-1] = preds[-1]`
      let shiftedPreds := preds.tail ++ preds.getLast?.toList
      let rebasedPreds ← P.actionAdapter.rebaseNormalizedActionsToObservedAnchor P.elementary
        shiftedPreds previousAnchorPose newAnchorPose
      pure (some rebasedPreds)

def buildWarmStartSample (prevActionPreds : Option (List P.actionAdapter.Row))
    (blendNoise stdNoise : List P.actionAdapter.Row) : Option (List P.actionAdapter.Row) :=
  match prevActionPreds with
  | none => none
  | some preds =>
      if P.warmStartBlend ≤ 0 then none
      else
        let warmStart := if P.warmStartBlend < 1
          then List.zipWith (fun w z c => P.warmStartBlend * w c + (1 - P.warmStartBlend) * z c)
            preds blendNoise
          else preds
        some (if P.warmStartNoiseStd > 0
          then List.zipWith (fun w z c => w c + P.warmStartNoiseStd * z c) warmStart stdNoise
          else warmStart)

/-- `_stabilize_normalized_action`: the normalized action and the absolute action
that it stands for, which becomes the last executed one. -/
def stabilizeNormalizedAction (prevExecuted : Option (Compact (Pose K)))
    (normalizedAction : Fin P.actionAdapter.robotActionDim → ExtNum K)
    (anchorPose currentPose : Compact (Pose K)) :
    P.actionAdapter.Row × Compact (Pose K) :=
  let A := P.actionAdapter
  let E := P.elementary
  let normalized : A.Row := fun c => (normalizedAction c).nanToNum
  let full := A.denormalize normalized
  let fallback := absoluteToRelativeCompactAction E currentPose anchorPose
  let (compact, actionWasSanitized) :=
    sanitizeCompactPose16d E ((A.toCompactExecutionAction full).map PoseOf.toRaw) (some fallback)
  let full := if actionWasSanitized then A.compactToFullAction compact (some full) else full
  let normalized := if actionWasSanitized then A.normalize full else normalized
  let (absolute, absoluteActionWasSanitized) := sanitizeCompactPose16d E
    ((composeCompactRelativeAction E compact anchorPose).map PoseOf.toRaw) (some currentPose)
  let full := if absoluteActionWasSanitized
    then A.compactToFullAction (absoluteToRelativeCompactAction E absolute anchorPose) (some full)
    else full
  let normalized := if absoluteActionWasSanitized then A.normalize full else normalized
  match prevExecuted with
  | some previous =>
      if P.actionSmoothingAlpha > 0 then
        let absolute := smoothAbsoluteCompactAction E previous absolute P.actionSmoothingAlpha
        let compact := absoluteToRelativeCompactAction E absolute anchorPose
        (A.normalize (A.compactToFullAction compact (some full)), absolute)
      else (normalized, absolute)
  | none => (normalized, absolute)

def updateText (s : ServerState P) (inp : StepInput P) : ServerState P :=
  match inp.textTokensEmbed, inp.prompt with
  | some t, prompt =>
      { s with
        currentPrompt := promptOr prompt s.currentPrompt
        textTokensEmbed := some (P.coerceTextTokensEmbed t) }
  | none, some prompt =>
      if prompt ≠ s.currentPrompt
      then { s with currentPrompt := prompt, textTokensEmbed := P.encodePrompt prompt }
      else s
  | none, none => s

/-- Put the observation into the next slot, or roll the histories. The result has
the index of the slot. -/
def observe (s : ServerState P) (inp : StepInput P) : Option (ServerState P × ℕ) :=
  let frames := P.ensureFrameHistory s.frameHistory inp.frame
  if s.nPriorFrames < P.seqLen then
    some ({ s with
      frameHistory := some (frames.set s.nPriorFrames inp.frame)
      poseHistory := s.poseHistory.set s.nPriorFrames inp.currentPose
      nPriorFrames := s.nPriorFrames + 1 }, s.nPriorFrames)
  else do
    let previousAnchorPose ← s.poseHistory[0]?
    let actionHistory := setLast (roll s.actionHistory) 0
    let poseHistory := setLast (roll s.poseHistory) inp.currentPose
    let newAnchorPose ← poseHistory[0]?
    let actionHistory ← P.rebaseActionHistoryAfterRoll actionHistory previousAnchorPose
      newAnchorPose
    let prevActionPreds ← P.rollWarmStartPredictions s.prevActionPreds previousAnchorPose
      newAnchorPose
    pure ({ s with
      frameHistory := some (setLast (roll frames) inp.frame)
      poseHistory, actionHistory, prevActionPreds }, P.seqLen - 1)

/-- The action of a slot: the identity for the first frame, and otherwise the
stabilized prediction of the policy. -/
def act (s : ServerState P) (inp : StepInput P) (frameIndex : ℕ) :
    Option (P.actionAdapter.Row × ServerState P) :=
  if s.nPriorFrames = 1 then
    let normalizedAction := makeIdentityRelativeAction P.actionAdapter inp.currentPose
    some (normalizedAction, { s with
      actionHistory := s.actionHistory.set frameIndex normalizedAction
      prevExecutedAbsoluteAction := some inp.currentPose })
  else do
    let initialSample := P.buildWarmStartSample s.prevActionPreds inp.blendNoise inp.stdNoise
    let frames ← s.frameHistory
    let predicted := P.onlineFullPredict frames s.actionHistory s.textTokensEmbed initialSample
      inp.draw
    -- finite entries are kept by `nan_to_num`, so it is applied without the test
    let actionPreds : List P.actionAdapter.Row := predicted.map fun row c => (row c).nanToNum
    let action ← actionPreds[frameIndex]?
    let (stabilizedAction, absoluteAction) := P.stabilizeNormalizedAction
      s.prevExecutedAbsoluteAction (fun c => .fin (action c)) s.anchorPose inp.currentPose
    pure (stabilizedAction, { s with
      actionHistory := s.actionHistory.set frameIndex stabilizedAction
      prevActionPreds := some (actionPreds.set frameIndex stabilizedAction)
      prevExecutedAbsoluteAction := some absoluteAction })

/-- `step`: the normalized action, the anchor it refers to, and the new state. -/
def step (s : ServerState P) (inp : StepInput P) :
    Option ((P.actionAdapter.Row × Compact (Pose K)) × ServerState P) := do
  let (s, frameIndex) ← P.observe (P.updateText s inp) inp
  let anchorPose ← s.poseHistory[0]?
  let (action, s) ← P.act { s with anchorPose } inp frameIndex
  pure ((action, anchorPose), s)

end RobotTwinPolicy

end P2PRdt.Robot

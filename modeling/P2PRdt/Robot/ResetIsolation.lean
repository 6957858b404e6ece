import P2PRdt.Lib.Reach
import P2PRdt.Robot.Session

/-!
# Reset forgets the episode before

`RobotTwinSequenceInferenceState` in both inference modes, with the arithmetic of
its actions as parameters, so that nothing here depends on how it rounds. A call
that raises leaves behind what it has already written; the next call starts from
there. `reset` clears the pose and action histories in place, keeps no frames
and sets the rest anew, so it makes the same server of every server whose
histories have their full length, which no call changes.
-/

namespace P2PRdt.Robot

open Lib

/-- The configuration of a server with the functions it calls. Frames have type
`F`, text embeddings `T`, poses `Q`, rows of actions `R`, rows of the policy
network `W`, and the random numbers of a step `D`. A function that raises has no
result. -/
structure SequenceInference (F T Q R W D : Type) where
  seqLen : ℕ
  seqLen_pos : 1 ≤ seqLen
  legacyInference : Bool
  zeroPose : Q
  zeroRow : R
  frameShape : F → List ℕ
  zeroFrame : F → F
  encodePrompt : String → Option T
  coerceTextTokensEmbed : T → T
  makeIdentityRelativeAction : Q → R
  rebaseNormalizedActions : List R → R → Option (List R)
  rebaseNormalizedActionsToObservedAnchor : List R → Q → Q → Option (List R)
  buildWarmStartSample : Option (List R) → D → Option (List R)
  onlineFullPredict : (frames : List F) → (actions : List R) → (textTokensEmbed : Option T) →
    (initialSample : Option (List R)) → D → Option (List W)
  isFinite : W → Bool
  nanToNum : W → W
  toFloat32 : W → R
  stabilizeNormalizedAction : Option Q → R → Q → Q → R × Q
  length_rebase : ∀ rows anchor rebased,
    rebaseNormalizedActions rows anchor = some rebased → rebased.length = rows.length
  length_rebaseToObservedAnchor : ∀ rows previous new rebased,
    rebaseNormalizedActionsToObservedAnchor rows previous new = some rebased →
      rebased.length = rows.length

/-- The fields that change. -/
structure InferenceState (F T Q R : Type) where
  currentPrompt : String
  textTokensEmbed : Option T
  frameHistory : Option (List F)
  poseHistory : List Q
  anchorPose : Q
  actionHistory : List R
  prevActionPreds : Option (List R)
  prevExecutedAbsoluteAction : Option Q
  nPriorFrames : ℕ

/-- The arguments of one `step` call and the random numbers drawn during it. There
is no pose when the argument does not reshape to 16 entries. -/
structure StepCall (F T Q D : Type) where
  frame : F
  currentPose : Option Q
  prompt : Option String
  textTokensEmbed : Option T
  draws : D

namespace SequenceInference

section Code

variable {F T Q R W D : Type} (C : SequenceInference F T Q R W D)

/-- `__post_init__`. -/
def initState : InferenceState F T Q R where
  currentPrompt := ""
  textTokensEmbed := none
  frameHistory := none
  poseHistory := List.replicate C.seqLen C.zeroPose
  anchorPose := C.zeroPose
  actionHistory := List.replicate C.seqLen C.zeroRow
  prevActionPreds := none
  prevExecutedAbsoluteAction := none
  nPriorFrames := 0

def resolveTextTokensEmbed (prompt : String) (textTokensEmbed : Option T) : Option T :=
  match textTokensEmbed with
  | some t => some (C.coerceTextTokensEmbed t)
  | none => C.encodePrompt prompt

/-- `reset`; `fill` and `zero_` keep the length of an array. -/
def reset (s : InferenceState F T Q R) (prompt : Option String) (textTokensEmbed : Option T) :
    InferenceState F T Q R where
  currentPrompt := RobotTwinPolicy.promptOr prompt ""
  textTokensEmbed :=
    C.resolveTextTokensEmbed (RobotTwinPolicy.promptOr prompt "") textTokensEmbed
  frameHistory := none
  poseHistory := s.poseHistory.map fun _ => C.zeroPose
  anchorPose := C.zeroPose
  actionHistory := s.actionHistory.map fun _ => C.zeroRow
  prevActionPreds := none
  prevExecutedAbsoluteAction := none
  nPriorFrames := 0

def updateText (s : InferenceState F T Q R) (call : StepCall F T Q D) :
    InferenceState F T Q R :=
  match call.textTokensEmbed, call.prompt with
  | some t, prompt =>
      { s with
        currentPrompt := RobotTwinPolicy.promptOr prompt s.currentPrompt
        textTokensEmbed := some (C.coerceTextTokensEmbed t) }
  | none, some prompt =>
      if prompt ≠ s.currentPrompt
      then { s with currentPrompt := prompt, textTokensEmbed := C.encodePrompt prompt }
      else s
  | none, none => s

def ensureFrameHistory (frameHistory : Option (List F)) (frame : F) : List F :=
  let zeros := List.replicate C.seqLen (C.zeroFrame frame)
  match frameHistory with
  | none => zeros
  | some frames =>
      if frames.map C.frameShape = List.replicate C.seqLen (C.frameShape frame) then frames
      else zeros

/-- `_rebase_action_history_after_roll` and its legacy form: the rows in front of
the last one are rebased with `rebase`, and the last one is cleared. -/
def rebaseActionHistory (actionHistory : List R) (rebase : List R → Option (List R)) :
    Option (List R) :=
  if C.seqLen ≤ 1 then some actionHistory
  else do
    let rebasedHistory ← rebase (actionHistory.take (C.seqLen - 1))
    pure (setLast (rebasedHistory ++ actionHistory.drop (C.seqLen - 1)) C.zeroRow)

def rebaseActionHistoryAfterRollLegacy (actionHistory : List R) : Option (List R) :=
  C.rebaseActionHistory actionHistory fun historyToRebase => do
    let referenceAction ← actionHistory[0]?
    C.rebaseNormalizedActions historyToRebase referenceAction

def rebaseActionHistoryAfterRoll (actionHistory : List R)
    (previousAnchorPose newAnchorPose : Q) : Option (List R) :=
  C.rebaseActionHistory actionHistory fun historyToRebase =>
    C.rebaseNormalizedActionsToObservedAnchor historyToRebase previousAnchorPose newAnchorPose

def rollWarmStartPredictions (prevActionPreds : Option (List R))
    (previousAnchorPose newAnchorPose : Q) : Option (Option (List R)) :=
  match prevActionPreds with
  | none => some none
  | some preds => do
      let shiftedPreds := preds.tail ++ preds.getLast?.toList
      let rebasedPreds ← C.rebaseNormalizedActionsToObservedAnchor shiftedPreds
        previousAnchorPose newAnchorPose
      pure (some rebasedPreds)

/-- The histories moved on by one slot, with the observation in the last one. -/
def rollHistories (s : InferenceState F T Q R) (frames : List F) (frame : F) (currentPose : Q) :
    InferenceState F T Q R :=
  { s with
    frameHistory := some (setLast (roll frames) frame)
    poseHistory := setLast (roll s.poseHistory) currentPose
    actionHistory := setLast (roll s.actionHistory) C.zeroRow }

def finishRollLegacy (s : InferenceState F T Q R) : Option ℕ × InferenceState F T Q R :=
  match C.rebaseActionHistoryAfterRollLegacy s.actionHistory with
  | none => (none, s)
  | some actionHistory => (some (C.seqLen - 1), { s with actionHistory })

/-- The stored actions get the new anchor, and then the predictions: where the
second raises, the first is already done. -/
def finishRoll (s : InferenceState F T Q R) (previousAnchorPose newAnchorPose : Q) :
    Option ℕ × InferenceState F T Q R :=
  match C.rebaseActionHistoryAfterRoll s.actionHistory previousAnchorPose newAnchorPose with
  | none => (none, s)
  | some actionHistory =>
      match C.rollWarmStartPredictions s.prevActionPreds previousAnchorPose newAnchorPose with
      | none => (none, { s with actionHistory })
      | some prevActionPreds =>
          (some (C.seqLen - 1), { s with actionHistory, prevActionPreds })

/-- Put the observation into the next slot, or roll the histories. The result has
the index of the slot. -/
def observe (s : InferenceState F T Q R) (frame : F) (currentPose : Q) :
    Option ℕ × InferenceState F T Q R :=
  let frames := C.ensureFrameHistory s.frameHistory frame
  if s.nPriorFrames < C.seqLen then
    (some s.nPriorFrames, { s with
      frameHistory := some (frames.set s.nPriorFrames frame)
      poseHistory := s.poseHistory.set s.nPriorFrames currentPose
      nPriorFrames := s.nPriorFrames + 1 })
  else
    let rolled := C.rollHistories s frames frame currentPose
    if C.legacyInference then C.finishRollLegacy rolled
    else
      match s.poseHistory[0]? with
      | none => (none, { s with frameHistory := some frames })
      | some previousAnchorPose =>
          match rolled.poseHistory[0]? with
          | none => (none, rolled)
          | some newAnchorPose => C.finishRoll rolled previousAnchorPose newAnchorPose

def predict (s : InferenceState F T Q R) (draws : D) : Option (List W) := do
  let initialSample := if C.legacyInference then none
    else C.buildWarmStartSample s.prevActionPreds draws
  let frames ← s.frameHistory
  C.onlineFullPredict frames s.actionHistory s.textTokensEmbed initialSample draws

/-- The prediction of a slot as it is. -/
def actLegacy (s : InferenceState F T Q R) (predicted : List W) (frameIndex : ℕ) :
    Option R × InferenceState F T Q R :=
  match predicted[frameIndex]? with
  | none => (none, s)
  | some action =>
      (some (C.toFloat32 action),
        { s with actionHistory := s.actionHistory.set frameIndex (C.toFloat32 action) })

/-- The prediction of a slot after `nan_to_num` and stabilization. -/
def actStabilized (s : InferenceState F T Q R) (currentPose : Q) (predicted : List W)
    (frameIndex : ℕ) : Option R × InferenceState F T Q R :=
  let finitePreds := if predicted.all C.isFinite then predicted else predicted.map C.nanToNum
  let actionPreds := finitePreds.map C.toFloat32
  match actionPreds[frameIndex]? with
  | none => (none, s)
  | some action =>
      let (stabilizedAction, absoluteAction) := C.stabilizeNormalizedAction
        s.prevExecutedAbsoluteAction action s.anchorPose currentPose
      (some stabilizedAction, { s with
        actionHistory := s.actionHistory.set frameIndex stabilizedAction
        prevActionPreds := some (actionPreds.set frameIndex stabilizedAction)
        prevExecutedAbsoluteAction := some absoluteAction })

/-- The action of a slot. -/
def act (s : InferenceState F T Q R) (currentPose : Q) (draws : D) (frameIndex : ℕ) :
    Option R × InferenceState F T Q R :=
  if s.nPriorFrames = 1 then
    let normalizedAction := C.makeIdentityRelativeAction currentPose
    (some normalizedAction, { s with
      actionHistory := s.actionHistory.set frameIndex normalizedAction
      prevExecutedAbsoluteAction :=
        if C.legacyInference then s.prevExecutedAbsoluteAction else some currentPose })
  else
    match C.predict s draws with
    | none => (none, s)
    | some predicted =>
        if C.legacyInference then C.actLegacy s predicted frameIndex
        else C.actStabilized s currentPose predicted frameIndex

/-- The second half of `step`, with the observation in slot `frameIndex`. -/
def finishStep (s : InferenceState F T Q R) (currentPose : Q) (draws : D) (frameIndex : ℕ) :
    Option (R × Q) × InferenceState F T Q R :=
  match s.poseHistory[0]? with
  | none => (none, s)
  | some anchorPose =>
      let (action, s) := C.act { s with anchorPose } currentPose draws frameIndex
      (action.map fun action => (action, anchorPose), s)

/-- `step`: the normalized action and the anchor it refers to, unless it raises,
and the new state in either case. -/
def step (s : InferenceState F T Q R) (call : StepCall F T Q D) :
    Option (R × Q) × InferenceState F T Q R :=
  match call.currentPose with
  | none => (none, s)
  | some currentPose =>
      match C.observe (C.updateText s call) call.frame currentPose with
      | (none, s) => (none, s)
      | (some frameIndex, s) => C.finishStep s currentPose call.draws frameIndex

/-- What the calls return, each made on the server that the one before left. -/
def outputs (s : InferenceState F T Q R) : List (StepCall F T Q D) → List (Option (R × Q))
  | [] => []
  | call :: calls => (C.step s call).1 :: outputs (C.step s call).2 calls

/-- The server that the calls leave. -/
def after (s : InferenceState F T Q R) (calls : List (StepCall F T Q D)) :
    InferenceState F T Q R :=
  calls.foldl (fun s call => (C.step s call).2) s

/-- One call of `reset` or `step`, which may have raised. -/
inductive Called : InferenceState F T Q R → InferenceState F T Q R → Prop
  | reset (s : InferenceState F T Q R) (prompt : Option String) (textTokensEmbed : Option T) :
      Called s (C.reset s prompt textTokensEmbed)
  | step (s : InferenceState F T Q R) (call : StepCall F T Q D) : Called s (C.step s call).2

/-- The states behind any calls on a new server. -/
def Reachable (s : InferenceState F T Q R) : Prop := Reach (· = C.initState) C.Called s

end Code

/-! ## Every call keeps the sizes -/

section Sizes

variable {F T Q R W D : Type} {C : SequenceInference F T Q R W D}

/-- The histories have a slot for every step of a window. -/
structure FullLength (C : SequenceInference F T Q R W D) (s : InferenceState F T Q R) : Prop where
  poses : s.poseHistory.length = C.seqLen
  actions : s.actionHistory.length = C.seqLen

theorem length_setLast_roll {α : Type} {n : ℕ} (hn : 1 ≤ n) {l : List α} (hl : l.length = n)
    (v : α) : (setLast (roll l) v).length = n := by
  have hne : l ≠ [] := by
    rintro rfl
    exact absurd hl (Nat.ne_of_lt hn)
  rw [RobotTwinPolicy.setLast_roll hne, List.length_append, List.length_tail, hl,
    List.length_singleton, Nat.sub_add_cancel hn]

theorem length_rebaseActionHistory {rows rebased : List R} {rebase : List R → Option (List R)}
    (hrebase : ∀ front back, rebase front = some back → back.length = front.length)
    (hrows : rows.length = C.seqLen)
    (h : C.rebaseActionHistory rows rebase = some rebased) : rebased.length = C.seqLen := by
  rw [rebaseActionHistory] at h
  split at h
  · cases h
    exact hrows
  · rename_i hlong
    simp only [Option.bind_eq_bind, Option.bind_eq_some_iff, Option.pure_def,
      Option.some_inj] at h
    rcases h with ⟨front, hfront, rfl⟩
    have hlen : (front ++ rows.drop (C.seqLen - 1)).length = C.seqLen := by
      rw [List.length_append, hrebase _ _ hfront, ← List.length_append, List.take_append_drop,
        hrows]
    rw [setLast, List.length_append, List.length_dropLast, hlen, List.length_singleton,
      Nat.sub_add_cancel C.seqLen_pos]

theorem fullLength_updateText {s : InferenceState F T Q R} (h : FullLength C s)
    (call : StepCall F T Q D) : FullLength C (C.updateText s call) := by
  rcases h with ⟨hposes, hactions⟩
  unfold updateText
  split
  · exact ⟨hposes, hactions⟩
  · split <;> exact ⟨hposes, hactions⟩
  · exact ⟨hposes, hactions⟩

theorem fullLength_rollHistories {s : InferenceState F T Q R} (h : FullLength C s)
    (frames : List F) (frame : F) (pose : Q) :
    FullLength C (C.rollHistories s frames frame pose) :=
  ⟨length_setLast_roll C.seqLen_pos h.poses pose,
    length_setLast_roll C.seqLen_pos h.actions C.zeroRow⟩

theorem fullLength_finishRollLegacy {s : InferenceState F T Q R} (h : FullLength C s) :
    FullLength C (C.finishRollLegacy s).2 := by
  unfold finishRollLegacy
  split
  · exact h
  · rename_i rebased hrebased
    refine ⟨h.poses, length_rebaseActionHistory ?_ h.actions hrebased⟩
    intro front back hback
    rw [Option.bind_eq_bind, Option.bind_eq_some_iff] at hback
    rcases hback with ⟨reference, -, hback⟩
    exact C.length_rebase _ _ _ hback

theorem fullLength_finishRoll {s : InferenceState F T Q R} (h : FullLength C s)
    (previous new : Q) : FullLength C (C.finishRoll s previous new).2 := by
  unfold finishRoll
  split
  · exact h
  · rename_i rebased hrebased
    have hlen : rebased.length = C.seqLen := by
      apply length_rebaseActionHistory _ h.actions hrebased
      intro front back hback
      exact C.length_rebaseToObservedAnchor _ _ _ _ hback
    split <;> exact ⟨h.poses, hlen⟩

theorem fullLength_observe {s : InferenceState F T Q R} (h : FullLength C s) (frame : F)
    (pose : Q) : FullLength C (C.observe s frame pose).2 := by
  have hrolled := fullLength_rollHistories h (C.ensureFrameHistory s.frameHistory frame) frame pose
  unfold observe
  dsimp only
  split
  · exact ⟨(List.length_set ..).trans h.poses, h.actions⟩
  · split
    · exact fullLength_finishRollLegacy hrolled
    · split
      · exact ⟨h.poses, h.actions⟩
      · split
        · exact hrolled
        · exact fullLength_finishRoll hrolled _ _

theorem fullLength_act {s : InferenceState F T Q R} (h : FullLength C s) (pose : Q) (draws : D)
    (i : ℕ) : FullLength C (C.act s pose draws i).2 := by
  have hset : ∀ row : R, (s.actionHistory.set i row).length = C.seqLen := by
    intro row
    rw [List.length_set, h.actions]
  unfold act
  split
  · exact ⟨h.poses, hset _⟩
  · split
    · exact h
    · split
      · unfold actLegacy
        split
        · exact h
        · exact ⟨h.poses, hset _⟩
      · unfold actStabilized
        dsimp only
        split
        · exact h
        · exact ⟨h.poses, hset _⟩

theorem fullLength_finishStep {s : InferenceState F T Q R} (h : FullLength C s) (pose : Q)
    (draws : D) (i : ℕ) : FullLength C (C.finishStep s pose draws i).2 := by
  unfold finishStep
  split
  · exact h
  · rename_i anchor hanchor
    have hanchored : FullLength C { s with anchorPose := anchor } := ⟨h.poses, h.actions⟩
    exact fullLength_act hanchored pose draws i

/-- **One step** keeps the sizes, whether it returns or raises. -/
theorem fullLength_step {s : InferenceState F T Q R} (h : FullLength C s)
    (call : StepCall F T Q D) : FullLength C (C.step s call).2 := by
  unfold step
  split
  · exact h
  · rename_i pose hpose
    have hobserve := fullLength_observe (fullLength_updateText h call) call.frame pose
    split
    · rename_i s' hs'
      rwa [hs'] at hobserve
    · rename_i i s' hs'
      rw [hs'] at hobserve
      exact fullLength_finishStep hobserve pose call.draws i

theorem fullLength_reset {s : InferenceState F T Q R} (h : FullLength C s)
    (prompt : Option String) (textTokensEmbed : Option T) :
    FullLength C (C.reset s prompt textTokensEmbed) :=
  ⟨(List.length_map _).trans h.poses, (List.length_map _).trans h.actions⟩

/-- Every reachable state has histories of full length. -/
theorem Reachable.fullLength {s : InferenceState F T Q R} (h : C.Reachable s) :
    FullLength C s := by
  refine Reach.invariant ?_ ?_ h
  · rintro s rfl
    exact ⟨List.length_replicate, List.length_replicate⟩
  · intro s t hs hcall
    cases hcall with
    | reset prompt text => exact fullLength_reset hs prompt text
    | step call => exact fullLength_step hs call

theorem Reachable.reset {s : InferenceState F T Q R} (h : C.Reachable s)
    (prompt : Option String) (textTokensEmbed : Option T) :
    C.Reachable (C.reset s prompt textTokensEmbed) :=
  h.next (.reset s prompt textTokensEmbed)

theorem Reachable.after {s : InferenceState F T Q R} (h : C.Reachable s)
    (calls : List (StepCall F T Q D)) : C.Reachable (C.after s calls) := by
  induction calls generalizing s with
  | nil => exact h
  | cons call calls ih => exact ih (h.next (.step s call))

end Sizes

/-! ## Two servers after the same reset -/

section TwoRuns

variable {F T Q R W D : Type} {C : SequenceInference F T Q R W D}

/-- `reset` leaves a new server with the prompt and its embedding. -/
theorem reset_eq_new {s : InferenceState F T Q R} (h : FullLength C s) (prompt : Option String)
    (textTokensEmbed : Option T) :
    C.reset s prompt textTokensEmbed = { C.initState with
      currentPrompt := RobotTwinPolicy.promptOr prompt ""
      textTokensEmbed :=
        C.resolveTextTokensEmbed (RobotTwinPolicy.promptOr prompt "") textTokensEmbed } := by
  rw [reset, initState, List.map_const', List.map_const', h.poses, h.actions]

/-- **Reset erases the episode before.** In both modes and for every arithmetic:
after any calls on either of two servers, also ones that raised, the same reset
and the same steps give the same actions and anchors, and raise at the same
steps. -/
theorem reset_erases {s t : InferenceState F T Q R} (hs : C.Reachable s) (ht : C.Reachable t)
    (prompt : Option String) (textTokensEmbed : Option T) (calls : List (StepCall F T Q D)) :
    C.outputs (C.reset s prompt textTokensEmbed) calls =
      C.outputs (C.reset t prompt textTokensEmbed) calls := by
  rw [reset_eq_new hs.fullLength, reset_eq_new ht.fullLength]

end TwoRuns

/-! ## The server of the sessions -/

section Policy

variable {K F T D : Type} [Field K] [LinearOrder K] (P : RobotTwinPolicy K F T D)

/-- The server of `RobotTwinPolicy`, whose actions are computed in a field. -/
def ofPolicy : SequenceInference F T (Compact (Pose K)) P.actionAdapter.Row
    (Fin P.actionAdapter.robotActionDim → ExtNum K)
    (List P.actionAdapter.Row × List P.actionAdapter.Row × D) where
  seqLen := P.seqLen
  seqLen_pos := P.seqLen_pos
  legacyInference := false
  zeroPose := RobotTwinPolicy.zeroPose
  zeroRow := 0
  frameShape := P.frameShape
  zeroFrame := P.zeroFrame
  encodePrompt := P.encodePrompt
  coerceTextTokensEmbed := P.coerceTextTokensEmbed
  makeIdentityRelativeAction := RobotTwinPolicy.makeIdentityRelativeAction P.actionAdapter
  rebaseNormalizedActions := P.actionAdapter.rebaseNormalizedActions P.elementary
  rebaseNormalizedActionsToObservedAnchor :=
    P.actionAdapter.rebaseNormalizedActionsToObservedAnchor P.elementary
  buildWarmStartSample := fun preds draws => P.buildWarmStartSample preds draws.1 draws.2.1
  onlineFullPredict := fun frames actions text sample draws =>
    some (P.onlineFullPredict frames actions text sample draws.2.2)
  isFinite := fun row => (List.ofFn row).all ExtNum.isFinite
  nanToNum := fun row c => .fin (row c).nanToNum
  toFloat32 := fun row c => (row c).nanToNum
  stabilizeNormalizedAction := fun executed action anchor current =>
    P.stabilizeNormalizedAction executed (fun c => .fin (action c)) anchor current
  length_rebase := P.actionAdapter.length_rebaseNormalizedActions P.elementary
  length_rebaseToObservedAnchor := fun rows _ _ =>
    P.actionAdapter.length_rebaseNormalizedActions P.elementary rows _

variable {P}

def ofServer (s : ServerState P) : InferenceState F T (Compact (Pose K)) P.actionAdapter.Row where
  currentPrompt := s.currentPrompt
  textTokensEmbed := s.textTokensEmbed
  frameHistory := s.frameHistory
  poseHistory := s.poseHistory
  anchorPose := s.anchorPose
  actionHistory := s.actionHistory
  prevActionPreds := s.prevActionPreds
  prevExecutedAbsoluteAction := s.prevExecutedAbsoluteAction
  nPriorFrames := s.nPriorFrames

def ofInput (inp : StepInput P) : StepCall F T (Compact (Pose K))
    (List P.actionAdapter.Row × List P.actionAdapter.Row × D) where
  frame := inp.frame
  currentPose := some inp.currentPose
  prompt := inp.prompt
  textTokensEmbed := inp.textTokensEmbed
  draws := (inp.blendNoise, inp.stdNoise, inp.draw)

/-- The result of a call that returned, with the state behind it. -/
def returned {α σ : Type} (r : Option α × σ) : Option (α × σ) := r.1.map fun a => (a, r.2)

theorem updateText_ofServer (s : ServerState P) (inp : StepInput P) :
    (ofPolicy P).updateText (ofServer s) (ofInput inp) = ofServer (P.updateText s inp) := by
  unfold updateText RobotTwinPolicy.updateText
  cases htext : inp.textTokensEmbed with
  | some t => simp only [ofInput, htext]; rfl
  | none =>
      cases hprompt : inp.prompt with
      | none => simp only [ofInput, htext, hprompt]
      | some prompt =>
          simp only [ofInput, htext, hprompt]
          by_cases hnew : prompt ≠ s.currentPrompt
          · rw [if_pos hnew, if_pos (show prompt ≠ (ofServer s).currentPrompt from hnew)]
            rfl
          · rw [if_neg hnew, if_neg (show ¬prompt ≠ (ofServer s).currentPrompt from hnew)]

theorem ensureFrameHistory_ofPolicy (frames : Option (List F)) (frame : F) :
    (ofPolicy P).ensureFrameHistory frames frame = P.ensureFrameHistory frames frame := by
  cases frames <;> rfl

/-- Finite entries are kept by `nan_to_num`. -/
theorem map_toFloat32_ofPolicy (predicted : List (Fin P.actionAdapter.robotActionDim → ExtNum K)) :
    (if predicted.all (ofPolicy P).isFinite then predicted
      else predicted.map (ofPolicy P).nanToNum).map (ofPolicy P).toFloat32 =
      predicted.map fun row c => (row c).nanToNum := by
  split
  · rfl
  · rw [List.map_map]
    rfl

theorem finishRoll_ofServer (s : ServerState P) (previous new : Compact (Pose K)) :
    returned ((ofPolicy P).finishRoll (ofServer s) previous new) =
      (do
        let actionHistory ← P.rebaseActionHistoryAfterRoll s.actionHistory previous new
        let prevActionPreds ← P.rollWarmStartPredictions s.prevActionPreds previous new
        pure ({ s with actionHistory, prevActionPreds }, P.seqLen - 1)).map
          fun (s', i) => (i, ofServer s') := by
  have hrebase : (ofPolicy P).rebaseActionHistoryAfterRoll (ofServer s).actionHistory previous new =
      P.rebaseActionHistoryAfterRoll s.actionHistory previous new := rfl
  have hroll : (ofPolicy P).rollWarmStartPredictions (ofServer s).prevActionPreds previous new =
      P.rollWarmStartPredictions s.prevActionPreds previous new := by
    rw [ofServer]
    cases s.prevActionPreds <;> rfl
  rw [finishRoll, hrebase, hroll]
  cases P.rebaseActionHistoryAfterRoll s.actionHistory previous new with
  | none => rfl
  | some rows => cases P.rollWarmStartPredictions s.prevActionPreds previous new <;> rfl

theorem observe_ofServer (s : ServerState P) (inp : StepInput P) :
    returned ((ofPolicy P).observe (ofServer s) inp.frame inp.currentPose) =
      (P.observe s inp).map fun (s', i) => (i, ofServer s') := by
  have hframes := ensureFrameHistory_ofPolicy (P := P) s.frameHistory inp.frame
  have hold : (ofServer s).poseHistory[0]? = s.poseHistory[0]? := rfl
  unfold observe RobotTwinPolicy.observe
  by_cases hroom : s.nPriorFrames < P.seqLen
  · rw [if_pos hroom, if_pos (show (ofServer s).nPriorFrames < (ofPolicy P).seqLen from hroom),
      ← hframes]
    rfl
  · rw [if_neg hroom, if_neg (show ¬(ofServer s).nPriorFrames < (ofPolicy P).seqLen from hroom),
      if_neg (show ¬(ofPolicy P).legacyInference = true from Bool.false_ne_true), hold, ← hframes]
    cases s.poseHistory[0]? with
    | none => rfl
    | some old =>
        have hrolled : (ofPolicy P).rollHistories (ofServer s)
            ((ofPolicy P).ensureFrameHistory (ofServer s).frameHistory inp.frame) inp.frame
            inp.currentPose =
            ofServer { s with
              frameHistory := some (setLast
                (roll ((ofPolicy P).ensureFrameHistory s.frameHistory inp.frame)) inp.frame)
              poseHistory := setLast (roll s.poseHistory) inp.currentPose
              actionHistory := setLast (roll s.actionHistory) 0 } := rfl
        have hnew : ∀ s : ServerState P, (ofServer s).poseHistory = s.poseHistory := fun _ => rfl
        simp only [hrolled, hnew, Option.bind_eq_bind, Option.bind_some]
        cases (setLast (roll s.poseHistory) inp.currentPose)[0]? with
        | none => rfl
        | some new => exact finishRoll_ofServer _ old new

theorem act_ofServer (s : ServerState P) (inp : StepInput P) (i : ℕ) :
    returned ((ofPolicy P).act (ofServer s) inp.currentPose (ofInput inp).draws i) =
      (P.act s inp i).map fun (action, s') => (action, ofServer s') := by
  unfold act RobotTwinPolicy.act
  by_cases hfirst : s.nPriorFrames = 1
  · rw [if_pos hfirst, if_pos (show (ofServer s).nPriorFrames = 1 from hfirst)]
    rfl
  · rw [if_neg hfirst, if_neg (show ¬(ofServer s).nPriorFrames = 1 from hfirst)]
    rcases s with ⟨prompt, text, frameHistory, poses, anchor, rows, preds, executed, n⟩
    cases frameHistory with
    | none => rfl
    | some frames =>
        show returned ((ofPolicy P).actStabilized _ inp.currentPose (P.onlineFullPredict frames
          rows text (P.buildWarmStartSample preds inp.blendNoise inp.stdNoise) inp.draw) i) = _
        rw [actStabilized, map_toFloat32_ofPolicy]
        simp only [Option.bind_eq_bind, Option.bind_some]
        generalize List.map _ _ = actionPreds
        cases actionPreds[i]? <;> rfl

theorem finishStep_ofServer (s : ServerState P) (inp : StepInput P) (i : ℕ) :
    returned ((ofPolicy P).finishStep (ofServer s) inp.currentPose (ofInput inp).draws i) =
      (do
        let anchorPose ← s.poseHistory[0]?
        let (action, s) ← P.act { s with anchorPose } inp i
        pure ((action, anchorPose), s)).map fun (out, s') => (out, ofServer s') := by
  have hposes : (ofServer s).poseHistory = s.poseHistory := rfl
  rw [finishStep, hposes]
  cases s.poseHistory[0]? with
  | none => rfl
  | some anchor =>
      have hact := act_ofServer { s with anchorPose := anchor } inp i
      have hmap : ∀ r : Option P.actionAdapter.Row ×
          InferenceState F T (Compact (Pose K)) P.actionAdapter.Row,
          returned (r.1.map fun action => (action, anchor), r.2) =
            (returned r).map fun (action, s') => ((action, anchor), s') := by
        rintro ⟨a, s'⟩
        cases a <;> rfl
      refine (hmap _).trans ?_
      refine (congrArg (Option.map _) hact).trans ?_
      simp only [Option.bind_eq_bind, Option.bind_some]
      cases P.act { s with anchorPose := anchor } inp i <;> rfl

/-- A step of the server with actions in a field is a step that returned. -/
theorem step_ofServer (s : ServerState P) (inp : StepInput P) :
    returned ((ofPolicy P).step (ofServer s) (ofInput inp)) =
      (P.step s inp).map fun (out, s') => (out, ofServer s') := by
  have hobserve := observe_ofServer (P.updateText s inp) inp
  have hpose : (ofInput inp).currentPose = some inp.currentPose := rfl
  have hframe : (ofInput inp).frame = inp.frame := rfl
  rw [← updateText_ofServer] at hobserve
  simp only [step, hpose, hframe, RobotTwinPolicy.step]
  rcases hr : (ofPolicy P).observe ((ofPolicy P).updateText (ofServer s) (ofInput inp)) inp.frame
    inp.currentPose with ⟨i, s'⟩
  rw [hr] at hobserve
  cases i with
  | none =>
      have hP : P.observe (P.updateText s inp) inp = none := Option.map_eq_none_iff.mp hobserve.symm
      rw [hP]
      rfl
  | some i =>
      obtain ⟨⟨s₁, i₁⟩, hP, heq⟩ := Option.map_eq_some_iff.mp hobserve.symm
      obtain ⟨rfl, rfl⟩ := Prod.mk.inj heq
      rw [hP]
      exact finishStep_ofServer s₁ inp i₁

/-- What an entry of a session's log says was returned. -/
def answer (e : LogEntry P) : Option (P.actionAdapter.Row × Compact (Pose K)) :=
  some (e.action, e.anchor)

/-- A session that returns a log returns the outputs in it. -/
theorem outputs_ofServer {s s' : ServerState P} {inputs : List (StepInput P)}
    {log : List (LogEntry P)} (h : P.session s inputs = some (s', log)) :
    (ofPolicy P).outputs (ofServer s) (inputs.map ofInput) = log.map answer := by
  -- the entries of earlier steps stand in front of the log
  have hfold : ∀ (s : ServerState P) (front log : List (LogEntry P)),
      inputs.foldlM P.loggedStep (s, front) = some (s', log) →
        front.map answer ++ (ofPolicy P).outputs (ofServer s) (inputs.map ofInput) =
          log.map answer := by
    clear h
    induction inputs with
    | nil =>
        rintro s front log ⟨⟩
        exact List.append_nil _
    | cons inp inputs ih =>
        intro s front log hrun
        simp only [List.foldlM_cons, RobotTwinPolicy.loggedStep, Option.bind_eq_bind,
          Option.bind_eq_some_iff, Option.pure_def, Option.some_inj] at hrun
        rcases hrun with ⟨_, ⟨⟨⟨action, anchor⟩, s₁⟩, hstep, rfl⟩, hrest⟩
        have hreturned := step_ofServer s inp
        rw [hstep, returned, Option.map_some, Option.map_eq_some_iff] at hreturned
        rcases hreturned with ⟨out, hout, hpair⟩
        obtain ⟨rfl, hs₁⟩ := Prod.mk.inj hpair
        rw [← ih s₁ _ log hrest, List.map_cons, outputs, hout, hs₁, List.map_append,
          List.append_assoc]
        rfl
  exact hfold s [] log h

end Policy

/-! ## Three frames of two shapes -/

/-- Poses and rows are numbers, and frames are lists of numbers. The network adds
up all it is given; it raises when it has no text. -/
def addingUp : SequenceInference (List ℕ) ℕ ℕ ℕ ℕ ℕ where
  seqLen := 2
  seqLen_pos := Nat.le_succ 1
  legacyInference := false
  zeroPose := 0
  zeroRow := 0
  frameShape := fun frame => [frame.length]
  zeroFrame := fun frame => frame.map fun _ => 0
  encodePrompt := fun prompt => if prompt = "" then none else some prompt.length
  coerceTextTokensEmbed := id
  makeIdentityRelativeAction := fun pose => pose
  rebaseNormalizedActions := fun rows anchor => some (rows.map (· + anchor))
  rebaseNormalizedActionsToObservedAnchor := fun rows previous new =>
    some (rows.map (· + previous + new))
  buildWarmStartSample := fun preds draws => preds.map fun rows => rows.map (· + draws)
  onlineFullPredict := fun frames actions text sample draws => text.map fun t =>
    actions.map (· + frames.flatten.sum + t + (sample.getD []).sum + draws)
  isFinite := fun _ => true
  nanToNum := id
  toFloat32 := id
  stabilizeNormalizedAction := fun executed row anchor current =>
    (row + executed.getD 0 + anchor, row + current)
  length_rebase := by
    rintro rows anchor rebased ⟨⟩
    exact List.length_map _
  length_rebaseToObservedAnchor := by
    rintro rows previous new rebased ⟨⟩
    exact List.length_map _

/-- A step with a frame and a pose. -/
def showing (frame : List ℕ) (pose : ℕ) : StepCall (List ℕ) ℕ ℕ ℕ where
  frame
  currentPose := some pose
  prompt := none
  textTokensEmbed := none
  draws := 1

/-- A server that was shown three frames, the last one of another shape. -/
def used : InferenceState (List ℕ) ℕ ℕ ℕ :=
  addingUp.after (addingUp.reset addingUp.initState (some "stack") none)
    [showing [5] 1, showing [6] 2, showing [7, 7] 3]

theorem reset_erases_used :
    used.nPriorFrames = 2 ∧
      addingUp.outputs (addingUp.reset used (some "pour") none)
          [showing [1, 2] 4, showing [3, 4] 5, showing [8] 6] =
        addingUp.outputs (addingUp.reset addingUp.initState (some "pour") none)
          [showing [1, 2] 4, showing [3, 4] 5, showing [8] 6] := by
  have hnew : addingUp.Reachable addingUp.initState := .start rfl
  exact ⟨rfl, reset_erases ((hnew.reset (some "stack") none).after _) hnew (some "pour") none _⟩

end SequenceInference

end P2PRdt.Robot

import P2PRdt.Lib.LastN
import P2PRdt.Robot.Server

/-!
# RoboTwin sessions

A session is a `reset` followed by any number of steps. The log of a session has
an entry for every step; the server keeps the last entries of the log, encoded
relative to the oldest pose it still has. The invariant says that decoding the
histories gives the log back, and a roll of the histories keeps it.
-/

namespace P2PRdt.Robot

open Lib Quaternion

/-- What a step was given and what it returned. -/
structure LogEntry {K F T D : Type} [Field K] (P : RobotTwinPolicy K F T D) where
  pose : Compact (Pose K)
  action : P.actionAdapter.Row
  anchor : Compact (Pose K)

namespace RobotTwinPolicy

variable {K F T D : Type} [Field K] [LinearOrder K] (P : RobotTwinPolicy K F T D)

/-- The absolute action that a normalized action stands for at an anchor. -/
def absoluteAction (anchor : Compact (Pose K)) (action : P.actionAdapter.Row) :
    Compact (Pose K) :=
  composeCompactRelativeAction P.elementary (P.actionAdapter.decode action) anchor

/-- The absolute action of a step. -/
def LogEntry.absolute {P : RobotTwinPolicy K F T D} (e : LogEntry P) : Compact (Pose K) :=
  P.absoluteAction e.anchor e.action

/-- One step, with its entry put at the end of the log. -/
def loggedStep (sl : ServerState P × List (LogEntry P)) (inp : StepInput P) :
    Option (ServerState P × List (LogEntry P)) := do
  let ((action, anchor), s) ← P.step sl.1 inp
  pure (s, sl.2 ++ [⟨inp.currentPose, action, anchor⟩])

/-- The steps of a session. -/
def session (s : ServerState P) (inputs : List (StepInput P)) :
    Option (ServerState P × List (LogEntry P)) :=
  inputs.foldlM P.loggedStep (s, [])

variable [IsStrictOrderedRing K] {P : RobotTwinPolicy K F T D}
  (hE : IsSqrt P.elementary.sqrt)

/-! ## The action of a step -/

include hE in
/-- The identity action stands for the pose itself. -/
theorem absolute_identity {p : Compact (Pose K)} (hp : p.IsUnit) :
    P.absoluteAction p (makeIdentityRelativeAction P.actionAdapter p) = p := by
  have harm : ∀ q : Pose K, q.IsUnit →
      composeRelativePose P.elementary ⟨0, 1, q.gripper⟩ q = q := by
    intro q hq
    ext1
    · exact zero_add q.trans
    · rw [composeRelativePose_quat hE, rotation_of_unit hE hq, rotation_of_unit hE IsUnitQuat.one,
        mul_one]
    · rfl
  rw [absoluteAction, makeIdentityRelativeAction, ActionLayout.decode_encode]
  exact Compact.ext (harm p.left hp.1) (harm p.right hp.2)

variable (P) in
/-- After the repair of the relative action, the row still decodes to it. -/
theorem decode_sanitized (normalizedAction : Fin P.actionAdapter.robotActionDim → ExtNum K)
    (anchor current : Compact (Pose K)) :
    let normalized : P.actionAdapter.Row := fun c => (normalizedAction c).nanToNum
    let full := P.actionAdapter.denormalize normalized
    let sanitized := sanitizeCompactPose16d P.elementary
      ((P.actionAdapter.toCompactExecutionAction full).map PoseOf.toRaw)
      (some (absoluteToRelativeCompactAction P.elementary current anchor))
    P.actionAdapter.decode (if sanitized.2
      then P.actionAdapter.normalize (if sanitized.2
        then P.actionAdapter.compactToFullAction sanitized.1 (some full) else full)
      else normalized) = sanitized.1 := by
  intro normalized full sanitized
  cases hflag : sanitized.2 with
  | true => exact P.actionAdapter.decode_encode _ _
  | false => exact (sanitizeCompactPose16d_unchanged hflag).symm

include hE in
/-- **Stabilizing.** Whatever the policy predicts and whichever repairs are made,
the normalized action stands for the absolute action that is remembered. -/
theorem absolute_stabilize (prevExecuted : Option (Compact (Pose K)))
    (normalizedAction : Fin P.actionAdapter.robotActionDim → ExtNum K)
    (anchor current : Compact (Pose K)) :
    P.absoluteAction anchor
        (P.stabilizeNormalizedAction prevExecuted normalizedAction anchor current).1 =
      (P.stabilizeNormalizedAction prevExecuted normalizedAction anchor current).2 := by
  have hdecode := P.decode_sanitized normalizedAction anchor current
  have hcomposed : ∀ c : Compact (Pose K), sanitizeCompactPose16d P.elementary
      ((composeCompactRelativeAction P.elementary c anchor).map PoseOf.toRaw) (some current) =
      (composeCompactRelativeAction P.elementary c anchor, false) := by
    intro c
    exact sanitizeCompactPose16d_toRaw hE (isUnit_composeCompact hE c anchor) _
  simp only [stabilizeNormalizedAction, hcomposed, Bool.false_eq_true, if_false]
  split
  · rename_i previous
    split
    · rename_i halpha
      -- smoothing moved the absolute action, which is encoded again
      rw [absoluteAction, ActionLayout.decode_encode]
      apply compose_compact_absoluteToRelative hE
      exact isUnit_smooth hE (isUnit_composeCompact hE _ anchor) halpha
    · exact congrArg (composeCompactRelativeAction P.elementary · anchor) hdecode
  · exact congrArg (composeCompactRelativeAction P.elementary · anchor) hdecode

/-! ## Putting an observation into the histories -/

omit [IsStrictOrderedRing K] [LinearOrder K] in
theorem setLast_roll {α : Type} {l : List α} (hl : l ≠ []) (v : α) :
    setLast (roll l) v = l.tail ++ [v] := by
  cases l with
  | nil => exact absurd rfl hl
  | cons a l => simp [setLast, roll]

/-- The server between two steps of a session. -/
structure SessionInv (s : ServerState P) (log : List (LogEntry P)) : Prop where
  length_poses : s.poseHistory.length = P.seqLen
  length_actions : s.actionHistory.length = P.seqLen
  length_preds : ∀ preds, s.prevActionPreds = some preds → preds.length = P.seqLen
  nPriorFrames : s.nPriorFrames = min log.length P.seqLen
  poses : s.poseHistory.take s.nPriorFrames = (lastN s.nPriorFrames log).map LogEntry.pose
  anchor : s.poseHistory[0]? = some s.anchorPose
  actions : (s.actionHistory.take s.nPriorFrames).map (P.absoluteAction s.anchorPose) =
    (lastN s.nPriorFrames log).map LogEntry.absolute
  executed : s.prevExecutedAbsoluteAction = log.getLast?.map LogEntry.absolute

/-- The server when slot `i` has the new pose but not yet its action. -/
structure Observed (s : ServerState P) (i : ℕ) (log : List (LogEntry P))
    (pose : Compact (Pose K)) : Prop where
  length_poses : s.poseHistory.length = P.seqLen
  length_actions : s.actionHistory.length = P.seqLen
  length_preds : ∀ preds, s.prevActionPreds = some preds → preds.length = P.seqLen
  frames : ∃ frames, s.frameHistory = some frames
  slot : i < P.seqLen
  nPriorFrames : s.nPriorFrames = i + 1
  count : i + 1 = min (log.length + 1) P.seqLen
  poses : s.poseHistory.take (i + 1) = (lastN i log).map LogEntry.pose ++ [pose]
  actions : ∀ anchor, s.poseHistory[0]? = some anchor →
    (s.actionHistory.take i).map (P.absoluteAction anchor) = (lastN i log).map LogEntry.absolute
  executed : s.prevExecutedAbsoluteAction = log.getLast?.map LogEntry.absolute

omit [IsStrictOrderedRing K] in
/-- The text of a step does not touch the histories. -/
theorem SessionInv.updateText {s : ServerState P} {log : List (LogEntry P)} (h : SessionInv s log)
    (inp : StepInput P) : SessionInv (P.updateText s inp) log := by
  unfold RobotTwinPolicy.updateText
  rcases h with ⟨h1, h2, h3, h4, h5, h6, h7, h8⟩
  split
  · exact ⟨h1, h2, h3, h4, h5, h6, h7, h8⟩
  · split <;> exact ⟨h1, h2, h3, h4, h5, h6, h7, h8⟩
  · exact ⟨h1, h2, h3, h4, h5, h6, h7, h8⟩

omit [IsStrictOrderedRing K] in
/-- While there is room the next slot is filled and the anchor stays. -/
theorem observe_fill {s : ServerState P} {log : List (LogEntry P)} (h : SessionInv s log)
    (inp : StepInput P) (hroom : s.nPriorFrames < P.seqLen) :
    ∃ s' i, P.observe s inp = some (s', i) ∧ Observed s' i log inp.currentPose := by
  have hcount : s.nPriorFrames = log.length := by
    have hn := h.nPriorFrames
    omega
  refine ⟨_, s.nPriorFrames, if_pos hroom, ?_⟩
  refine ⟨?_, h.length_actions, h.length_preds, ⟨_, rfl⟩, hroom, rfl, ?_, ?_, ?_, h.executed⟩
  · rw [List.length_set, h.length_poses]
  · omega
  · rw [take_set_succ (h.length_poses.symm ▸ hroom), h.poses]
  · intro anchor hanchor
    by_cases hzero : s.nPriorFrames = 0
    · rw [hzero, List.take_zero, lastN_zero]
      rfl
    · rw [List.getElem?_set_ne hzero, h.anchor, Option.some_inj] at hanchor
      rw [← hanchor]
      exact h.actions

/-- The stored actions after a roll: all but the oldest, moved to the new anchor,
and an empty slot. -/
theorem rebaseActionHistoryAfterRoll_eq {rows : List P.actionAdapter.Row}
    (hrows : rows.length = P.seqLen) (previous new : Compact (Pose K)) :
    P.rebaseActionHistoryAfterRoll (setLast (roll rows) 0) previous new =
      some (rows.tail.map (P.actionAdapter.rebaseRow P.elementary
        (absoluteToRelativeCompactAction P.elementary new previous)) ++ [0]) := by
  have hne : rows ≠ [] := by
    rintro rfl
    exact absurd hrows (Nat.ne_of_lt P.seqLen_pos)
  have htail : rows.tail.length = P.seqLen - 1 := by rw [List.length_tail, hrows]
  rw [setLast_roll hne, rebaseActionHistoryAfterRoll]
  by_cases hone : P.seqLen ≤ 1
  · have hnil : rows.tail = [] := by
      rw [List.eq_nil_iff_length_eq_zero, htail, Nat.sub_eq_zero_of_le hone]
    rw [if_pos hone, hnil]
    rfl
  · have hback : rows.tail ≠ [] := by
      intro hnil
      rw [hnil, List.length_nil] at htail
      omega
    rw [if_neg hone, List.take_left' htail, List.drop_left' htail,
      P.actionAdapter.rebaseToObservedAnchor_eq P.elementary hback]
    simp [setLast]

theorem rollWarmStartPredictions_isSome {preds : Option (List P.actionAdapter.Row)}
    (hpreds : ∀ rows, preds = some rows → rows.length = P.seqLen)
    (previous new : Compact (Pose K)) :
    ∃ rolled, P.rollWarmStartPredictions preds previous new = some rolled ∧
      ∀ rows, rolled = some rows → rows.length = P.seqLen := by
  cases preds with
  | none => exact ⟨none, rfl, nofun⟩
  | some rows =>
      have hlen := hpreds rows rfl
      cases rows with
      | nil => exact absurd hlen (Nat.ne_of_lt P.seqLen_pos)
      | cons row rows =>
          refine ⟨some ((rows ++ (row :: rows).getLast?.toList).map (P.actionAdapter.rebaseRow
            P.elementary (absoluteToRelativeCompactAction P.elementary new previous))), ?_, ?_⟩
          · rw [rollWarmStartPredictions, List.tail_cons,
              P.actionAdapter.rebaseToObservedAnchor_eq P.elementary (by simp)]
            rfl
          · intro rolled hrolled
            rw [← Option.some_inj.mp hrolled]
            simpa [List.getLast?_cons] using hlen

omit [IsStrictOrderedRing K] in
/-- The poses of a full history, moved on by one slot. -/
theorem poses_setLast_roll {s : ServerState P} {log : List (LogEntry P)} (h : SessionInv s log)
    (hcount : s.nPriorFrames = P.seqLen) (hlog : P.seqLen - 1 + 1 ≤ log.length)
    (pose : Compact (Pose K)) :
    setLast (roll s.poseHistory) pose = (lastN (P.seqLen - 1) log).map LogEntry.pose ++ [pose] := by
  have hne : s.poseHistory ≠ [] := by
    intro hnil
    have hlen := h.length_poses
    rw [hnil] at hlen
    exact absurd hlen (Nat.ne_of_lt P.seqLen_pos)
  have hposes : s.poseHistory = (lastN (P.seqLen - 1 + 1) log).map LogEntry.pose := by
    rw [Nat.sub_add_cancel P.seqLen_pos, ← hcount, ← h.poses, hcount, ← h.length_poses,
      List.take_length]
  rw [setLast_roll hne, hposes, ← List.map_tail, tail_lastN hlog]

include hE in
/-- The stored actions of a full history but for the oldest one stand for the same
absolute actions at the new anchor. -/
theorem actions_rebased {s : ServerState P} {log : List (LogEntry P)} (h : SessionInv s log)
    (hcount : s.nPriorFrames = P.seqLen) (hlog : P.seqLen - 1 + 1 ≤ log.length)
    (new : Compact (Pose K)) :
    (s.actionHistory.tail.map (P.actionAdapter.rebaseRow P.elementary
        (absoluteToRelativeCompactAction P.elementary new s.anchorPose))).map
          (P.absoluteAction new) =
      (lastN (P.seqLen - 1) log).map LogEntry.absolute := by
  have hactions : s.actionHistory.map (P.absoluteAction s.anchorPose) =
      (lastN (P.seqLen - 1 + 1) log).map LogEntry.absolute := by
    rw [Nat.sub_add_cancel P.seqLen_pos, ← hcount, ← h.actions, hcount, ← h.length_actions,
      List.take_length]
  have hkeep : P.absoluteAction new ∘ P.actionAdapter.rebaseRow P.elementary
      (absoluteToRelativeCompactAction P.elementary new s.anchorPose) =
      P.absoluteAction s.anchorPose := by
    funext row
    exact P.actionAdapter.compose_decode_rebaseRow hE s.anchorPose new row
  rw [List.map_map, hkeep, List.map_tail, hactions, ← List.map_tail, tail_lastN hlog]

include hE in
/-- A full history drops its oldest slot and is moved to the new anchor. -/
theorem observe_roll {s : ServerState P} {log : List (LogEntry P)} (h : SessionInv s log)
    (inp : StepInput P) (hfull : ¬s.nPriorFrames < P.seqLen) :
    ∃ s' i, P.observe s inp = some (s', i) ∧ Observed s' i log inp.currentPose := by
  have hn := h.nPriorFrames
  have hpos := P.seqLen_pos
  have hcount : s.nPriorFrames = P.seqLen := by omega
  have hlog : P.seqLen - 1 + 1 ≤ log.length := by omega
  have hrolled := poses_setLast_roll h hcount hlog inp.currentPose
  have hlenRolled : (setLast (roll s.poseHistory) inp.currentPose).length = P.seqLen - 1 + 1 := by
    rw [hrolled, List.length_append, List.length_map, length_lastN (Nat.le_of_succ_le hlog),
      List.length_singleton]
  obtain ⟨new, hnew⟩ : ∃ new, (setLast (roll s.poseHistory) inp.currentPose)[0]? = some new :=
    ⟨_, List.getElem?_eq_getElem (hlenRolled.symm ▸ Nat.succ_pos _)⟩
  obtain ⟨preds, hpreds, hpredslen⟩ :=
    rollWarmStartPredictions_isSome h.length_preds s.anchorPose new
  refine ⟨{ s with
    frameHistory := some (setLast (roll (P.ensureFrameHistory s.frameHistory inp.frame)) inp.frame)
    poseHistory := setLast (roll s.poseHistory) inp.currentPose
    actionHistory := s.actionHistory.tail.map (P.actionAdapter.rebaseRow P.elementary
      (absoluteToRelativeCompactAction P.elementary new s.anchorPose)) ++ [0]
    prevActionPreds := preds }, P.seqLen - 1, ?_, ?_⟩
  · rw [observe, if_neg hfull]
    simp only [Option.bind_eq_bind, h.anchor, Option.bind_some, hnew,
      rebaseActionHistoryAfterRoll_eq h.length_actions, hpreds, Option.pure_def]
  · refine ⟨?_, ?_, hpredslen, ⟨_, rfl⟩, by omega, by rw [Nat.sub_add_cancel hpos, hcount],
      by omega, ?_, ?_, h.executed⟩
    · rw [hlenRolled, Nat.sub_add_cancel hpos]
    · rw [List.length_append, List.length_map, List.length_tail, h.length_actions,
        List.length_singleton, Nat.sub_add_cancel hpos]
    · rw [List.take_of_length_le hlenRolled.le, hrolled]
    · intro anchor hanchor
      have hanchor : new = anchor := Option.some_inj.mp (hnew.symm.trans hanchor)
      have hlen : (s.actionHistory.tail.map (P.actionAdapter.rebaseRow P.elementary
          (absoluteToRelativeCompactAction P.elementary new s.anchorPose))).length =
          P.seqLen - 1 := by
        rw [List.length_map, List.length_tail, h.length_actions]
      rw [List.take_left' hlen, ← hanchor, actions_rebased hE h hcount hlog]

/-! ## One step -/

include hE in
/-- Whichever branch chooses the action, the remembered absolute action is the
one it stands for. -/
theorem act_spec {s : ServerState P} {i : ℕ} {log : List (LogEntry P)} {inp : StepInput P}
    (h : Observed s i log inp.currentPose) (hanchor : s.poseHistory[0]? = some s.anchorPose)
    (hunit : inp.currentPose.IsUnit) :
    ∃ action s', P.act s inp i = some (action, s') ∧ s'.poseHistory = s.poseHistory ∧
      s'.anchorPose = s.anchorPose ∧ s'.nPriorFrames = s.nPriorFrames ∧
      s'.actionHistory = s.actionHistory.set i action ∧
      s'.prevExecutedAbsoluteAction = some (P.absoluteAction s.anchorPose action) ∧
      ∀ preds, s'.prevActionPreds = some preds → preds.length = P.seqLen := by
  by_cases hfirst : s.nPriorFrames = 1
  · have hzero : i = 0 := by
      have hn := h.nPriorFrames
      omega
    -- the only slot holds the current pose, which is its own anchor
    have hself : s.anchorPose = inp.currentPose := by
      have hposes := h.poses
      rw [hzero, lastN_zero, List.map_nil, List.nil_append] at hposes
      have hhead : (s.poseHistory.take (0 + 1))[0]? = some s.anchorPose := by
        rw [List.getElem?_take_of_lt (Nat.zero_lt_one), hanchor]
      rw [hposes] at hhead
      exact (Option.some_inj.mp hhead).symm
    refine ⟨_, _, if_pos hfirst, rfl, rfl, rfl, rfl, ?_, h.length_preds⟩
    rw [hself, absolute_identity hE hunit]
  · rcases h.frames with ⟨frames, hframes⟩
    obtain ⟨predicted, hpredicted, hlen⟩ : ∃ predicted,
        P.onlineFullPredict frames s.actionHistory s.textTokensEmbed
          (P.buildWarmStartSample s.prevActionPreds inp.blendNoise inp.stdNoise) inp.draw =
          predicted ∧ predicted.length = P.seqLen := by
      refine ⟨_, rfl, ?_⟩
      rw [P.length_onlineFullPredict, h.length_actions]
    have hslot : i < predicted.length := hlen.symm ▸ h.slot
    obtain ⟨action, absolute, hstab⟩ : ∃ action absolute, P.stabilizeNormalizedAction
        s.prevExecutedAbsoluteAction (fun c => .fin (predicted[i] c).nanToNum) s.anchorPose
        inp.currentPose = (action, absolute) := ⟨_, _, rfl⟩
    have hmeaning := absolute_stabilize hE s.prevExecutedAbsoluteAction
      (fun c => .fin (predicted[i] c).nanToNum) s.anchorPose inp.currentPose
    rw [hstab] at hmeaning
    have hact : P.act s inp i = some (action, { s with
        actionHistory := s.actionHistory.set i action
        prevActionPreds :=
          some ((predicted.map fun row c => (row c).nanToNum).set i action)
        prevExecutedAbsoluteAction := some absolute }) := by
      rw [act, if_neg hfirst]
      simp only [Option.bind_eq_bind, hframes, Option.bind_some, hpredicted, List.getElem?_map,
        List.getElem?_eq_getElem hslot, Option.map_some, hstab, Option.pure_def]
    refine ⟨action, _, hact, rfl, rfl, rfl, rfl, congrArg some hmeaning.symm, ?_⟩
    intro preds hpreds
    rw [← Option.some_inj.mp hpreds, List.length_set, List.length_map, hlen]

include hE in
/-- **One step** never fails and keeps the invariant. -/
theorem step_inv {s : ServerState P} {log : List (LogEntry P)} (h : SessionInv s log)
    {inp : StepInput P} (hunit : inp.currentPose.IsUnit) :
    ∃ action anchor s', P.step s inp = some ((action, anchor), s') ∧
      SessionInv s' (log ++ [⟨inp.currentPose, action, anchor⟩]) := by
  have htext := h.updateText inp
  obtain ⟨s₁, i, hobserve, hobs⟩ : ∃ s' i, P.observe (P.updateText s inp) inp = some (s', i) ∧
      Observed s' i log inp.currentPose := by
    by_cases hroom : (P.updateText s inp).nPriorFrames < P.seqLen
    · exact observe_fill htext inp hroom
    · exact observe_roll hE htext inp hroom
  have hslot := hobs.slot
  have hpos : 0 < s₁.poseHistory.length := by
    rw [hobs.length_poses]
    exact P.seqLen_pos
  obtain ⟨anchor, hanchor⟩ : ∃ anchor, s₁.poseHistory[0]? = some anchor :=
    ⟨_, List.getElem?_eq_getElem hpos⟩
  have hobs' : Observed { s₁ with anchorPose := anchor } i log inp.currentPose :=
    ⟨hobs.length_poses, hobs.length_actions, hobs.length_preds, hobs.frames, hobs.slot,
      hobs.nPriorFrames, hobs.count, hobs.poses, hobs.actions, hobs.executed⟩
  obtain ⟨action, s', hact, hposes, hanch, hn, hactions, hexec, hpreds⟩ :=
    act_spec hE hobs' hanchor hunit
  refine ⟨action, anchor, s', ?_, ?_⟩
  · simp only [step, hobserve, Option.bind_eq_bind, Option.bind_some, hanchor, hact,
      Option.pure_def]
  · have hn' : s'.nPriorFrames = i + 1 := hn.trans hobs.nPriorFrames
    refine ⟨?_, ?_, hpreds, ?_, ?_, ?_, ?_, ?_⟩
    · rw [hposes, hobs.length_poses]
    · rw [hactions, List.length_set, hobs.length_actions]
    · rw [hn', hobs.count, List.length_append, List.length_singleton]
    · rw [hposes, hn', hobs.poses, lastN_succ_concat, List.map_append]
      rfl
    · rw [hposes, hanchor, hanch]
    · have hi : i < s₁.actionHistory.length := by
        rw [hobs.length_actions]
        exact hslot
      rw [hactions, hanch, hn', take_set_succ hi, List.map_append, hobs.actions anchor hanchor,
        lastN_succ_concat, List.map_append]
      rfl
    · rw [hexec, List.getLast?_concat]
      rfl

/-! ## Whole sessions -/

/-- The histories have their full length, as the constructor makes them. -/
structure WellSized (s : ServerState P) : Prop where
  poses : s.poseHistory.length = P.seqLen
  actions : s.actionHistory.length = P.seqLen

omit [LinearOrder K] [IsStrictOrderedRing K] in
theorem wellSized_initState : WellSized P.initState :=
  ⟨List.length_replicate, List.length_replicate⟩

omit [IsStrictOrderedRing K] in
theorem sessionInv_reset {s : ServerState P} (h : WellSized s) (prompt : Option String)
    (textTokensEmbed : Option T) : SessionInv (P.reset s prompt textTokensEmbed) [] := by
  refine ⟨?_, ?_, nofun, ?_, rfl, ?_, rfl, rfl⟩
  · exact (List.length_map _).trans h.poses
  · exact (List.length_map _).trans h.actions
  · exact (Nat.zero_min _).symm
  · have hpos : 0 < s.poseHistory.length := by
      rw [h.poses]
      exact P.seqLen_pos
    rw [reset, List.getElem?_map, List.getElem?_eq_getElem hpos, Option.map_some]

include hE in
theorem session_inv {s : ServerState P} {log : List (LogEntry P)} (h : SessionInv s log)
    {inputs : List (StepInput P)} (hunit : ∀ inp ∈ inputs, inp.currentPose.IsUnit) :
    ∃ s' log', inputs.foldlM P.loggedStep (s, log) = some (s', log ++ log') ∧
      SessionInv s' (log ++ log') ∧ log'.map LogEntry.pose = inputs.map StepInput.currentPose := by
  induction inputs generalizing s log with
  | nil => exact ⟨s, [], by simp, by simpa using h, rfl⟩
  | cons inp inputs ih =>
      obtain ⟨action, anchor, s₁, hstep, hinv⟩ := step_inv hE h (hunit inp List.mem_cons_self)
      obtain ⟨s', log', hrun, hinv', hposes⟩ :=
        ih hinv fun i hi => hunit i (List.mem_cons_of_mem inp hi)
      refine ⟨s', ⟨inp.currentPose, action, anchor⟩ :: log', ?_, ?_, ?_⟩
      · rw [List.foldlM_cons, loggedStep, hstep]
        simpa using hrun
      · simpa using hinv'
      · rw [List.map_cons, List.map_cons, hposes]

include hE in
/-- **Sessions keep the absolute meaning of their history.** After any steps with
unit quaternions: the pose history has the last poses in order, the anchor is
the oldest of them, each stored action decodes at that anchor to the absolute
action of its step, and the last executed action is that of the last step. -/
theorem session_meaning {s : ServerState P} (hs : WellSized s) (prompt : Option String)
    (textTokensEmbed : Option T) {inputs : List (StepInput P)}
    (hunit : ∀ inp ∈ inputs, inp.currentPose.IsUnit) :
    ∃ s' log, P.session (P.reset s prompt textTokensEmbed) inputs = some (s', log) ∧
      log.map LogEntry.pose = inputs.map StepInput.currentPose ∧
      s'.nPriorFrames = min inputs.length P.seqLen ∧
      s'.poseHistory.take s'.nPriorFrames = (lastN s'.nPriorFrames log).map LogEntry.pose ∧
      s'.poseHistory[0]? = some s'.anchorPose ∧
      (s'.actionHistory.take s'.nPriorFrames).map (P.absoluteAction s'.anchorPose) =
        (lastN s'.nPriorFrames log).map LogEntry.absolute ∧
      s'.prevExecutedAbsoluteAction = log.getLast?.map LogEntry.absolute := by
  obtain ⟨s', log, hrun, hinv, hposes⟩ :=
    session_inv hE (sessionInv_reset hs prompt textTokensEmbed) hunit
  rw [List.nil_append] at hrun hinv
  have hlen : log.length = inputs.length := by
    have h := congrArg List.length hposes
    rwa [List.length_map, List.length_map] at h
  exact ⟨s', log, hrun, hposes, hlen ▸ hinv.nPriorFrames, hinv.poses, hinv.anchor, hinv.actions,
    hinv.executed⟩

/-! ## Three steps on the way -/

/-- Two slots, and a policy that repeats the stored actions. -/
noncomputable def repeatingPolicy : RobotTwinPolicy ℝ Unit Unit Unit where
  actionAdapter := .oneSpare ℝ
  elementary := realElementary
  seqLen := 2
  seqLen_pos := by decide
  warmStartBlend := 85 / 100
  warmStartNoiseStd := (3 : ℕ) / 100
  actionSmoothingAlpha := 35 / 100
  frameShape := fun _ => []
  zeroFrame := id
  encodePrompt := fun _ => none
  coerceTextTokensEmbed := id
  onlineFullPredict := fun _ actions _ _ _ => actions.map fun row c => .fin (row c)
  length_onlineFullPredict := by simp

/-- The left arm turns before the second pose and back after it. -/
noncomputable def wayPose (k : ℕ) : Compact (Pose ℝ) where
  left := ⟨fun _ => k, if k = 1 then firstAxisTurn else 1, 1⟩
  right := ⟨![0, k, 0], secondAxisTurn, 0⟩

theorem isUnit_wayPose (k : ℕ) : (wayPose k).IsUnit := by
  refine ⟨?_, isUnitQuat_secondAxisTurn⟩
  show IsUnitQuat (if k = 1 then firstAxisTurn else 1)
  split
  · exact isUnitQuat_firstAxisTurn
  · exact IsUnitQuat.one

noncomputable def onTheWay (k : ℕ) : StepInput repeatingPolicy where
  frame := ()
  currentPose := wayPose k
  prompt := none
  textTokensEmbed := none
  blendNoise := []
  stdNoise := []
  draw := ()

theorem isUnit_onTheWay : ∀ inp ∈ [onTheWay 0, onTheWay 1, onTheWay 2],
    inp.currentPose.IsUnit := by
  show ∀ inp ∈ [0, 1, 2].map onTheWay, inp.currentPose.IsUnit
  exact List.forall_mem_map.mpr fun k _ => isUnit_wayPose k

/-- The third step makes the second pose the anchor. -/
theorem session_meaning_onTheWay :
    ∃ s log, repeatingPolicy.session (repeatingPolicy.reset repeatingPolicy.initState none none)
        [onTheWay 0, onTheWay 1, onTheWay 2] = some (s, log) ∧
      s.poseHistory.take 2 = [wayPose 1, wayPose 2] ∧ s.anchorPose = wayPose 1 ∧
      (s.actionHistory.take 2).map (repeatingPolicy.absoluteAction (wayPose 1)) =
        (lastN 2 log).map LogEntry.absolute := by
  obtain ⟨s, log, hrun, hlog, hn, hposes, hanchor, hactions, -⟩ := session_meaning
    (P := repeatingPolicy) isSqrt_realElementary wellSized_initState none none isUnit_onTheWay
  have hn : s.nPriorFrames = 2 := hn
  have hlen : log.length = 3 := by
    have hlength := congrArg List.length hlog
    rwa [List.length_map] at hlength
  have hlast : (lastN 2 log).map LogEntry.pose = [wayPose 1, wayPose 2] := by
    rw [lastN, List.map_drop, hlog, hlen]
    rfl
  rw [hn, hlast] at hposes
  have hfirst : s.anchorPose = wayPose 1 := by
    have hhead : (s.poseHistory.take 2)[0]? = some s.anchorPose := by
      rw [List.getElem?_take_of_lt Nat.two_pos, hanchor]
    rw [hposes] at hhead
    exact (Option.some_inj.mp hhead).symm
  rw [hn, hfirst] at hactions
  exact ⟨s, log, hrun, hposes, hfirst, hactions⟩

end RobotTwinPolicy

end P2PRdt.Robot

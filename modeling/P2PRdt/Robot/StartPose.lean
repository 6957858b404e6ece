import P2PRdt.Lib.OptionLists
import P2PRdt.Robot.Server
import P2PRdt.Robot.WindowRebase

/-!
# The starting pose in training and in serving

The server stores the identity action for the first frame of an episode; the
dataset feeds the first valid row of a window, which is rebased to itself. The
two rows agree in the used channels. In an unused channel the dataset has a
masked zero, while the server normalizes a zero.
-/

namespace P2PRdt.Robot

open Lib Quaternion

namespace ActionLayout

/-! ## The inverse id table -/

section Inverse

variable {K : Type} [Field K] (A : ActionLayout K)

theorem inverseIds_used (i : Fin 16) :
    A.inverseUsedActionChannelIds (A.usedActionChannelIds i) = i :=
  scatter_id A.used_injective i

theorem inverseIds_unused {ch : Fin A.robotActionDim} (hch : A.Unused ch) :
    A.inverseUsedActionChannelIds ch = 16 :=
  scatter_of_notMem hch

/-- Gathering through the inverse table and scattering are the same in the used
channels. -/
theorem maskedAction_used (c : Fin 16 → K) (i : Fin 16) :
    A.maskedAction (c, true) (A.usedActionChannelIds i) = A.normalizeUsed c i := by
  rw [maskedAction, alignedAction, alignedMask, inverseIds_used]
  simp [normalizeUsed]

theorem maskedAction_unused (r : (Fin 16 → K) × Bool) {ch : Fin A.robotActionDim}
    (hch : A.Unused ch) : A.maskedAction r ch = 0 := by
  rw [maskedAction, alignedMask, A.inverseIds_unused hch]
  simp

theorem decode_maskedAction [CharZero K] (c : Compact (Pose K)) :
    A.decode (A.maskedAction (c.toArray, true)) = c := by
  have hencode : ∀ i, A.maskedAction (c.toArray, true) (A.usedActionChannelIds i) =
      A.normalize (A.compactToFullAction c none) (A.usedActionChannelIds i) := by
    intro i
    rw [maskedAction_used, normalize, compactToFull_used]
    rfl
  rw [A.decode_congr hencode, decode_encode]

theorem userMask_true : (∃ ch, A.alignedMask true ch = true) :=
  ⟨A.usedActionChannelIds 0, by simp [alignedMask, inverseIds_used]⟩

theorem userMask_false : ¬∃ ch, A.alignedMask false ch = true := by
  rintro ⟨ch, hch⟩
  simp [alignedMask] at hch

end Inverse

/-! ## The rows of a segment -/

section Segment

variable {K : Type} [Field K] [LinearOrder K] {E : Elementary K}

theorem getRelativePose_getElem? {pose out : List (Pose K)} (h : getRelativePose E pose = some out)
    {i : ℕ} {p : Pose K} (hp : pose[i]? = some p) :
    ∃ r, out[i]? = some r ∧ r.gripper = p.gripper := by
  have hi : i < out.length := by
    rw [length_of_mapM h]
    exact (List.getElem?_eq_some_iff.mp hp).1
  have hout := getElem?_of_mapM h i
  rw [hp, Option.bind_some, List.getElem?_eq_getElem hi] at hout
  have hbody := hout.symm
  simp only [Option.bind_eq_bind, Option.bind_eq_some_iff, Option.pure_def, Option.some_inj]
    at hbody
  rcases hbody with ⟨_, -, _, -, _, -, hr⟩
  exact ⟨out[i], List.getElem?_eq_getElem hi, by rw [← hr]⟩

/-- The rows of a segment with stride 1: a masked row, and then one row for each
action with its gripper values. -/
theorem shiftedActions_getElem? {startFrame n : ℕ} (hn : 2 ≤ n) {action : List (Compact (Pose K))}
    {rows : List ((Fin 16 → K) × Bool)}
    (h : shiftedActions E 1 startFrame (List.range' startFrame n) action = some rows) :
    rows.length = n ∧ rows[0]? = some (0, false) ∧
      ∀ i p, i + 1 < n → action[i]? = some p → ∃ r : Compact (Pose K),
        rows[i + 1]? = some (r.toArray, true) ∧ r.left.gripper = p.left.gripper ∧
          r.right.gripper = p.right.gripper := by
  obtain ⟨m, rfl⟩ := Nat.exists_eq_add_of_le' hn
  simp only [shiftedActions, List.range'_succ, List.getElem?_cons_zero, List.getElem?_cons_succ,
    Option.bind_eq_bind, Option.bind_some, Nat.sub_self, List.drop_zero, Nat.add_sub_cancel_left,
    Nat.mul_one, List.length_cons, List.length_range', Nat.add_sub_cancel, Nat.div_one,
    List.replicate_one, Option.bind_eq_some_iff, Option.pure_def] at h
  rcases h with ⟨left, hleft, right, hright, hrows⟩
  split at hrows
  · rename_i hlen
    obtain rfl := Option.some_inj.mp hrows
    refine ⟨hlen, rfl, ?_⟩
    intro i p hi hp
    obtain ⟨l, hl, hlg⟩ := getRelativePose_getElem? hleft (i := i) (p := p.left)
      (by rw [List.getElem?_map, hp, Option.map_some])
    obtain ⟨r, hr, hrg⟩ := getRelativePose_getElem? hright (i := i) (p := p.right)
      (by rw [List.getElem?_map, hp, Option.map_some])
    refine ⟨⟨l, r⟩, ?_, hlg, hrg⟩
    rw [List.getElem?_take_of_lt hi, List.singleton_append, List.getElem?_cons_succ,
      List.getElem?_map, List.getElem?_zipWith, hl, hr]
    rfl
  · exact absurd hrows (Option.some_ne_none _).symm

/-! ## The rows of a window -/

variable {A : ActionLayout K}

theorem getElem?_padTimeDim {α : Type} {zero v : α} {l : List α} {n j : ℕ} (h : l[j]? = some v) :
    (padTimeDim zero l n)[j]? = some v := by
  obtain ⟨hj, -⟩ := List.getElem?_eq_some_iff.mp h
  rw [padTimeDim, List.getElem?_append_left hj, h]

/-- What is not padding was there before. -/
theorem getElem?_of_padTimeDim {α : Type} {zero v : α} {l : List α} {n j : ℕ}
    (h : (padTimeDim zero l n)[j]? = some v) (hv : v ≠ zero) : l[j]? = some v := by
  by_cases hj : j < l.length
  · rwa [padTimeDim, List.getElem?_append_left hj] at h
  · rw [padTimeDim, List.getElem?_append_right (not_lt.mp hj)] at h
    exact absurd (List.eq_of_mem_replicate (List.mem_of_getElem? h)) hv

theorem getElem?_take_drop {α : Type} {l : List α} {start len j : ℕ} {v : α}
    (h : ((l.drop start).take len)[j]? = some v) : j < len ∧ l[start + j]? = some v := by
  rw [List.getElem?_take] at h
  split at h
  · rename_i hj
    rw [List.getElem?_drop] at h
    exact ⟨hj, h⟩
  · exact absurd h (Option.some_ne_none v).symm

omit [LinearOrder K] in
theorem userActionMask_of_valid {fixed : ActionItem A} {j : ℕ}
    (hj : (A.validMask fixed).findIdx? id = some j) : fixed.userActionMask[j]? = some true := by
  obtain ⟨hlt, htrue, -⟩ := List.findIdx?_eq_some_iff_getElem.mp hj
  have hget : (A.validMask fixed)[j]? = some true := by
    rw [List.getElem?_eq_getElem hlt]
    exact congrArg some htrue
  unfold validMask at hget
  split at hget
  · exact hget
  · rw [List.getElem?_zipWith] at hget
    cases hu : fixed.userActionMask[j]? with
    | none => simp [hu] at hget
    | some u =>
        cases u with
        | true => rfl
        | false => split at hget <;> simp_all

/-- `image_frame_ids[1]` is read, so a segment has two frames. -/
theorem frames_of_actionPostProcess {startFrame endFrame : ℕ} {action : List (Compact (Pose K))}
    {item : ActionItem A} (h : A.actionPostProcess E startFrame
      (List.range' startFrame (endFrame - startFrame)) action = some item) :
    startFrame + 2 ≤ endFrame := by
  simp only [actionPostProcess, shiftedActions, Option.bind_eq_bind, Option.bind_eq_some_iff] at h
  rcases h with ⟨_, ⟨_, -, _, hsecond, -⟩, -⟩
  have hlt := (List.getElem?_eq_some_iff.mp hsecond).1
  rw [List.length_range'] at hlt
  omega

theorem length_actionPostProcess {startFrame endFrame : ℕ} {action : List (Compact (Pose K))}
    {item : ActionItem A} (h : A.actionPostProcess E startFrame
      (List.range' startFrame (endFrame - startFrame)) action = some item) :
    item.actionAnnotations.length = endFrame - startFrame := by
  have hframes := frames_of_actionPostProcess h
  simp only [actionPostProcess, Option.bind_eq_bind, Option.bind_eq_some_iff, Option.pure_def,
    Option.some_inj] at h
  rcases h with ⟨rows, hshift, rfl⟩
  rw [List.length_map]
  exact (shiftedActions_getElem? (Nat.le_sub_of_add_le' hframes) hshift).1

/-- Rebasing does not touch the masks. -/
theorem validMask_rebase {fixed item : ActionItem A}
    (h : A.rebaseItemActionsToSliceStart E fixed = some item) :
    A.validMask item = A.validMask fixed := by
  unfold rebaseItemActionsToSliceStart at h
  split at h
  · rw [Option.some_inj.mp h]
  · simp only [Option.bind_eq_bind, Option.bind_eq_some_iff, Option.pure_def,
      Option.some_inj] at h
    rcases h with ⟨_, -, rfl⟩
    rfl

theorem getElem?_take_append_drop_map {α : Type} {f : α → α} {l : List α} {j : ℕ} {v : α}
    (h : l[j]? = some v) : (l.take j ++ (l.drop j).map f)[j]? = some (f v) := by
  have hj := (List.getElem?_eq_some_iff.mp h).1
  have hlen : (l.take j).length = j := List.length_take_of_le hj.le
  rw [List.getElem?_append_right hlen.le, hlen, Nat.sub_self, List.getElem?_map,
    List.getElem?_drop, Nat.add_zero, h, Option.map_some]

/-- The first valid slot of a window holds the row of an action; the slot before
the first action of the segment is masked. -/
theorem window_firstValid {startFrame endFrame : ℕ} (hframes : startFrame + 2 ≤ endFrame)
    {action : List (Compact (Pose K))} {item fixed : ActionItem A} {start len target : ℕ}
    (hitem : A.actionPostProcess E startFrame
      (List.range' startFrame (endFrame - startFrame)) action = some item)
    (hrows : fixed.actionAnnotations =
      padTimeDim 0 ((item.actionAnnotations.drop start).take len) target)
    (hmask : fixed.userActionMask =
      padTimeDim false ((item.userActionMask.drop start).take len) target)
    {j : ℕ} (hj : (A.validMask fixed).findIdx? id = some j) {p : Compact (Pose K)}
    (hp : action[start + j - 1]? = some p) :
    ∃ r : Compact (Pose K), fixed.actionAnnotations[j]? = some (A.maskedAction (r.toArray, true)) ∧
      r.left.gripper = p.left.gripper ∧ r.right.gripper = p.right.gripper := by
  simp only [actionPostProcess, Option.bind_eq_bind, Option.bind_eq_some_iff, Option.pure_def,
    Option.some_inj] at hitem
  rcases hitem with ⟨rows, hshift, rfl⟩
  obtain ⟨hlen, hfirst, hrest⟩ := shiftedActions_getElem? (n := endFrame - startFrame)
    (Nat.le_sub_of_add_le' hframes) hshift
  have huser := userActionMask_of_valid hj
  rw [hmask] at huser
  obtain ⟨hjlen, hslot⟩ := getElem?_take_drop (getElem?_of_padTimeDim huser (by decide))
  obtain ⟨r, hr, hvalid⟩ : ∃ r, rows[start + j]? = some r ∧ ∃ ch, A.alignedMask r.2 ch = true := by
    simpa using hslot
  -- the first slot of the segment is masked, so this slot belongs to an action
  obtain ⟨i, hi⟩ : ∃ i, start + j = i + 1 := by
    cases hij : start + j with
    | zero =>
        rw [hij, hfirst, Option.some_inj] at hr
        rw [← hr] at hvalid
        exact absurd hvalid A.userMask_false
    | succ i => exact ⟨i, rfl⟩
  have hilt : i + 1 < endFrame - startFrame := by
    rw [← hlen, ← hi]
    exact (List.getElem?_eq_some_iff.mp hr).1
  rw [hi, Nat.add_sub_cancel] at hp
  obtain ⟨c, hc, hl, hrt⟩ := hrest i p hilt hp
  refine ⟨c, ?_, hl, hrt⟩
  rw [hrows]
  apply getElem?_padTimeDim
  rw [List.getElem?_take_of_lt hjlen, List.getElem?_drop, List.getElem?_map, hi, hc]
  rfl

end Segment

/-! ## The two encodings of a starting pose -/

section Encoding

variable {K : Type} [Field K] [LinearOrder K] [IsStrictOrderedRing K] {E : Elementary K}

/-- Both arms at the anchor, with the grippers of `p`. -/
def atAnchor (p : Compact (Pose K)) : Compact (Pose K) :=
  ⟨⟨0, 1, p.left.gripper⟩, ⟨0, 1, p.right.gripper⟩⟩

theorem rebase_self (hE : IsSqrt E.sqrt) (c : Compact (Pose K)) :
    rebaseCompactRelativeAction E c c = atAnchor c := by
  have harm : ∀ p : Pose K, rebaseRelativePose E p p = ⟨0, 1, p.gripper⟩ := by
    intro p
    ext1
    · exact sub_self p.trans
    · rw [rebaseRelativePose, poseFromAnchor_quat hE, (isUnit_rotation hE _).star_mul]
    · rfl
  exact Compact.ext (harm c.left) (harm c.right)

variable {A : ActionLayout K}

omit [LinearOrder K] [IsStrictOrderedRing K] in
theorem makeIdentityRelativeAction_used (p : Compact (Pose K)) (i : Fin 16) :
    RobotTwinPolicy.makeIdentityRelativeAction A p (A.usedActionChannelIds i) =
      A.normalizeUsed (atAnchor p).toArray i := by
  rw [RobotTwinPolicy.makeIdentityRelativeAction, normalize, compactToFull_used]
  rfl

omit [LinearOrder K] [IsStrictOrderedRing K] in
theorem makeIdentityRelativeAction_unused (p : Compact (Pose K)) {ch : Fin A.robotActionDim}
    (hch : A.Unused ch) :
    RobotTwinPolicy.makeIdentityRelativeAction A p ch = (0 - A.q01 ch) / A.scale ch * 2 - 1 := by
  rw [RobotTwinPolicy.makeIdentityRelativeAction, normalize, A.compactToFull_unused hch]
  rfl

/-- What the dataset feeds the policy in the first valid slot of a window. -/
theorem firstValidRow_spec (hE : IsSqrt E.sqrt) {startFrame endFrame : ℕ}
    {action : List (Compact (Pose K))} {target : ℕ} {shuffle : Bool} {draw : ℕ}
    {item : ActionItem A}
    (hitem : A.getItemActions E startFrame endFrame action (some target) shuffle draw = some item)
    {j : ℕ} (hj : (A.validMask item).findIdx? id = some j) {p : Compact (Pose K)}
    (hp : action[(selectTimeSlice (endFrame - startFrame) target shuffle draw).1 + j - 1]? =
      some p) :
    ∃ row, item.actionAnnotations[j]? = some row ∧
      (∀ i, row (A.usedActionChannelIds i) = A.normalizeUsed (atAnchor p).toArray i) ∧
      ∀ ch, A.Unused ch → row ch = 0 := by
  simp only [getItemActions, Option.bind_eq_bind, Option.bind_eq_some_iff] at hitem
  rcases hitem with ⟨segment, hsegment, hrebase⟩
  have hframes := frames_of_actionPostProcess hsegment
  rw [ensureFixedSequenceLength, length_actionPostProcess hsegment] at hrebase
  have hvalid := hj
  rw [validMask_rebase hrebase] at hvalid
  obtain ⟨r, hrow, hleft, hright⟩ := window_firstValid hframes hsegment rfl rfl hvalid hp
  rw [A.rebaseItem_eq hE hvalid hrow, Option.some_inj] at hrebase
  have hr : atAnchor r = atAnchor p := by rw [atAnchor, atAnchor, hleft, hright]
  refine ⟨A.rebaseRow E r (A.maskedAction (r.toArray, true)), ?_, ?_, ?_⟩
  · rw [← hrebase, getElem?_take_append_drop_map hrow, A.decode_maskedAction]
  · intro i
    rw [A.rebaseRow_used, A.decode_maskedAction, rebase_self hE, hr]
    rfl
  · intro ch hch
    rw [A.rebaseRow_unused E _ _ hch, A.maskedAction_unused _ hch]

/-- **Training and serving encode a starting pose alike exactly when** a zero in
every unused channel is normalized to zero. -/
theorem firstValidRow_eq_identity_iff (hE : IsSqrt E.sqrt) {startFrame endFrame : ℕ}
    {action : List (Compact (Pose K))} {target : ℕ} {shuffle : Bool} {draw : ℕ}
    {item : ActionItem A}
    (hitem : A.getItemActions E startFrame endFrame action (some target) shuffle draw = some item)
    {j : ℕ} (hj : (A.validMask item).findIdx? id = some j) {p : Compact (Pose K)}
    (hp : action[(selectTimeSlice (endFrame - startFrame) target shuffle draw).1 + j - 1]? =
      some p) :
    item.actionAnnotations[j]? = some (RobotTwinPolicy.makeIdentityRelativeAction A p) ↔
      ∀ ch, A.Unused ch → A.q01 ch + A.q99 ch + 1 / 10 ^ 6 = 0 := by
  obtain ⟨row, hrow, hused, hunused⟩ := firstValidRow_spec hE hitem hj hp
  have hzero : ∀ ch, A.Unused ch →
      (RobotTwinPolicy.makeIdentityRelativeAction A p ch = 0 ↔
        A.q01 ch + A.q99 ch + 1 / 10 ^ 6 = 0) := by
    intro ch hch
    have hscale : A.scale ch ≠ 0 := A.scale_ne_zero ch
    rw [makeIdentityRelativeAction_unused p hch, sub_eq_zero, div_mul_eq_mul_div,
      div_eq_one_iff_eq hscale, scale]
    constructor <;> intro h <;> linarith
  rw [hrow, Option.some_inj]
  constructor
  · intro heq ch hch
    rw [← hzero ch hch, ← heq]
    exact hunused ch hch
  · intro hcond
    funext ch
    by_cases hch : A.Unused ch
    · rw [hunused ch hch, (hzero ch hch).mpr (hcond ch hch)]
    · obtain ⟨i, rfl⟩ := not_not.mp hch
      rw [hused, makeIdentityRelativeAction_used]

end Encoding

/-! ## A segment at rest -/

section AtRest

/-- Both arms at the origin with open grippers. -/
def restPose : Compact (Pose ℝ) := ⟨⟨0, 1, 1⟩, ⟨0, 1, 1⟩⟩

/-- Two frames at rest: a masked slot and a valid one. -/
noncomputable def restSegment : ActionItem (oneSpare ℝ) where
  actionAnnotations := [(oneSpare ℝ).maskedAction (0, false),
    (oneSpare ℝ).maskedAction (restPose.toArray, true)]
  userActionMask := [false, true]
  validFrameMask := some [true, true]

theorem getItemActions_rest : ∃ item : ActionItem (oneSpare ℝ),
    (oneSpare ℝ).getItemActions realElementary 0 2 [restPose, restPose] (some 2) false 0 =
      some item ∧ ((oneSpare ℝ).validMask item).findIdx? id = some 1 := by
  have hrel : getRelativePose realElementary [⟨0, 1, 1⟩, ⟨0, 1, 1⟩] =
      some [⟨0, 1, 1⟩, ⟨0, 1, 1⟩] := by
    simp [getRelativePose, fromQuat_of_unit isSqrt_realElementary IsUnitQuat.one]
  have hshift : shiftedActions realElementary 1 0 [0, 1] [restPose, restPose] =
      some [(0, false), (restPose.toArray, true)] := by
    simp [shiftedActions, restPose, hrel]
  have hpost : (oneSpare ℝ).actionPostProcess realElementary 0 [0, 1] [restPose, restPose] =
      some restSegment := by
    simp [actionPostProcess, hshift, userMask_true, userMask_false, restSegment]
  have hwindow : (oneSpare ℝ).getItemActions realElementary 0 2 [restPose, restPose] (some 2)
      false 0 = (oneSpare ℝ).rebaseItemActionsToSliceStart realElementary restSegment := by
    rw [getItemActions, show List.range' 0 (2 - 0) = [0, 1] from rfl, hpost]
    rfl
  have hfirst : ((oneSpare ℝ).validMask restSegment).findIdx? id = some 1 := rfl
  have hrebase := (oneSpare ℝ).rebaseItem_eq isSqrt_realElementary hfirst rfl
  exact ⟨_, hwindow.trans hrebase, rfl⟩

/-- The encodings differ in the spare channel: zero in training, -1 in serving. -/
theorem firstValidRow_ne_identity_rest : ∃ item : ActionItem (oneSpare ℝ),
    (oneSpare ℝ).getItemActions realElementary 0 2 [restPose, restPose] (some 2) false 0 =
        some item ∧
      ((oneSpare ℝ).validMask item).findIdx? id = some 1 ∧
      item.actionAnnotations[1]? ≠
        some (RobotTwinPolicy.makeIdentityRelativeAction (oneSpare ℝ) restPose) ∧
      (item.actionAnnotations[1]?).map (· (spareChannel ℝ)) = some 0 ∧
      RobotTwinPolicy.makeIdentityRelativeAction (oneSpare ℝ) restPose (spareChannel ℝ) = -1 := by
  rcases getItemActions_rest with ⟨item, hitem, hj⟩
  obtain ⟨row, hrow, -, hunused⟩ := firstValidRow_spec isSqrt_realElementary hitem hj
    (p := restPose) rfl
  have htrain : row (spareChannel ℝ) = 0 := hunused _ (unused_spareChannel ℝ)
  have hserve : RobotTwinPolicy.makeIdentityRelativeAction (oneSpare ℝ) restPose
      (spareChannel ℝ) = -1 := by
    rw [makeIdentityRelativeAction_unused _ (unused_spareChannel ℝ)]
    show ((0 : ℝ) - 0) / _ * (2 : ℕ) - 1 = -1
    rw [sub_zero, zero_div, zero_mul, zero_sub]
  refine ⟨item, hitem, hj, ?_, ?_, hserve⟩
  · intro heq
    have hrows := Option.some.inj (hrow.symm.trans heq)
    rw [hrows, hserve] at htrain
    norm_num at htrain
  · rw [hrow, Option.map_some, htrain]

theorem firstValidRow_eq_identity_iff_rest : ∃ item : ActionItem (oneSpare ℝ),
    (oneSpare ℝ).getItemActions realElementary 0 2 [restPose, restPose] (some 2) false 0 =
        some item ∧
      (item.actionAnnotations[1]? =
          some (RobotTwinPolicy.makeIdentityRelativeAction (oneSpare ℝ) restPose) ↔
        ∀ ch, (oneSpare ℝ).Unused ch →
          (oneSpare ℝ).q01 ch + (oneSpare ℝ).q99 ch + 1 / 10 ^ 6 = 0) := by
  rcases getItemActions_rest with ⟨item, hitem, hj⟩
  exact ⟨item, hitem, firstValidRow_eq_identity_iff isSqrt_realElementary hitem hj rfl⟩

end AtRest

end ActionLayout

end P2PRdt.Robot

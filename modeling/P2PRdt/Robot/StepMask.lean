import P2PRdt.Lib.LastN
import P2PRdt.Robot.ResetIsolation

/-!
# The inferred step mask

The server keeps a window of frames that fills with zero frames in its free
slots, and hands the whole window to the model. The model is not told how many
slots are filled: `_get_rdt_valid_step_mask` takes a slot for filled when its
frame has a pixel that is not zero, or all slots when none has. A black frame
from the camera looks like a free slot.
-/

namespace P2PRdt.Robot

open Lib

/-! ## The mask -/

section Mask

variable {F : Type} (pixels : F → List UInt8)

/-- `frames.abs().sum(..) > 0` for one frame; the sum of bytes is an integer. -/
def hasPixel (frame : F) : Bool := ((pixels frame).map UInt8.toNat).sum > 0

/-- `_get_rdt_valid_step_mask` for one window. -/
def getRdtValidStepMask (frames : List F) (validStepMask : Option (List Bool)) : List Bool :=
  match validStepMask with
  | some validStepMask => validStepMask
  | none =>
      let inferredMask := frames.map (hasPixel pixels)
      if inferredMask.any id then inferredMask else List.replicate frames.length true

variable {pixels}

theorem hasPixel_iff {frame : F} : hasPixel pixels frame = true ↔ ∃ p ∈ pixels frame, p ≠ 0 := by
  rw [hasPixel, decide_eq_true_eq, gt_iff_lt, List.sum_pos_iff_exists_pos_nat]
  constructor
  · rintro ⟨n, hn, hpos⟩
    obtain ⟨p, hp, rfl⟩ := List.mem_map.mp hn
    refine ⟨p, hp, ?_⟩
    rintro rfl
    exact absurd hpos (lt_irrefl 0)
  · rintro ⟨p, hp, hne⟩
    refine ⟨p.toNat, List.mem_map_of_mem hp, Nat.pos_of_ne_zero ?_⟩
    intro hzero
    exact hne (UInt8.toNat_inj.mp hzero)

/-- The mask of `n` filled slots in a window. -/
def filledMask (seqLen n : ℕ) : List Bool :=
  List.replicate n true ++ List.replicate (seqLen - n) false

/-- The inferred mask of a window with free slots that hold zero frames: it is
right when every filled slot has a pixel, or none has and no slot is free. -/
theorem getRdtValidStepMask_eq_iff {recent : List F} (hne : recent ≠ []) {zero : F}
    (hzero : hasPixel pixels zero = false) {seqLen : ℕ} (hlen : recent.length ≤ seqLen) :
    getRdtValidStepMask pixels (recent ++ List.replicate (seqLen - recent.length) zero) none =
        filledMask seqLen recent.length ↔
      (∀ frame ∈ recent, hasPixel pixels frame = true) ∨
        recent.length = seqLen ∧ ∀ frame ∈ recent, hasPixel pixels frame = false := by
  have hmap : (recent ++ List.replicate (seqLen - recent.length) zero).map (hasPixel pixels) =
      recent.map (hasPixel pixels) ++ List.replicate (seqLen - recent.length) false := by
    rw [List.map_append, List.map_replicate, hzero]
  rw [getRdtValidStepMask, hmap, filledMask]
  by_cases hany : ∃ frame ∈ recent, hasPixel pixels frame = true
  · rcases hany with ⟨frame, hframe, hpixel⟩
    have htrue : (recent.map (hasPixel pixels) ++
        List.replicate (seqLen - recent.length) false).any id = true :=
      List.any_eq_true.mpr ⟨true, List.mem_append_left _
        (hpixel ▸ List.mem_map_of_mem hframe), rfl⟩
    rw [if_pos htrue, List.append_left_inj, List.map_eq_replicate_iff]
    constructor
    · exact Or.inl
    · rintro (hall | ⟨-, hnone⟩)
      · exact hall
      · exact absurd hpixel (Bool.eq_false_iff.mp (hnone frame hframe))
  · have hnone : ∀ frame ∈ recent, hasPixel pixels frame = false := by
      intro frame hframe
      exact Bool.eq_false_of_not_eq_true fun hpixel => hany ⟨frame, hframe, hpixel⟩
    have hfalse : ¬(recent.map (hasPixel pixels) ++
        List.replicate (seqLen - recent.length) false).any id = true := by
      rw [List.map_congr_left hnone, List.map_const', List.replicate_append_replicate]
      simp
    have htotal : (recent ++ List.replicate (seqLen - recent.length) zero).length =
        recent.length + (seqLen - recent.length) := by
      rw [List.length_append, List.length_replicate]
    rw [if_neg hfalse, htotal, ← List.replicate_append_replicate, List.append_right_inj]
    constructor
    · intro heq
      refine .inr ⟨?_, hnone⟩
      -- a free slot would be marked
      by_contra hfree
      have hpos : 0 < seqLen - recent.length := Nat.sub_pos_of_lt (lt_of_le_of_ne hlen hfree)
      have hmem : true ∈ List.replicate (seqLen - recent.length) false := by
        rw [← heq]
        exact List.mem_replicate.mpr ⟨hpos.ne', rfl⟩
      exact Bool.noConfusion (List.eq_of_mem_replicate hmem)
    · rintro (hall | ⟨hfull, -⟩)
      · obtain ⟨frame, hframe⟩ := List.exists_mem_of_ne_nil recent hne
        exact absurd ⟨frame, hframe, hall frame hframe⟩ hany
      · rw [hfull, Nat.sub_self]
        rfl

end Mask

/-! ## The window of frames -/

namespace SequenceInference

section Frames

variable {F T Q R W D : Type} {C : SequenceInference F T Q R W D}

/-- The part of the state that a frame changes. -/
def frameState (s : InferenceState F T Q R) : Option (List F) × ℕ :=
  (s.frameHistory, s.nPriorFrames)

/-- What `step` does to it. -/
def showFrame (C : SequenceInference F T Q R W D) (fs : Option (List F) × ℕ) (frame : F) :
    Option (List F) × ℕ :=
  let frames := C.ensureFrameHistory fs.1 frame
  if fs.2 < C.seqLen then (some (frames.set fs.2 frame), fs.2 + 1)
  else (some (setLast (roll frames) frame), fs.2)

@[simp] theorem frameState_updateText (s : InferenceState F T Q R) (call : StepCall F T Q D) :
    frameState (C.updateText s call) = frameState s := by
  unfold updateText
  split
  · rfl
  · split <;> rfl
  · rfl

theorem frameState_finishRollLegacy (s : InferenceState F T Q R) :
    frameState (C.finishRollLegacy s).2 = frameState s := by
  unfold finishRollLegacy
  split <;> rfl

theorem frameState_finishRoll (s : InferenceState F T Q R) (previous new : Q) :
    frameState (C.finishRoll s previous new).2 = frameState s := by
  unfold finishRoll
  split
  · rfl
  · split <;> rfl

/-- The window takes the frame also where the rebase of the actions raises. -/
theorem frameState_observe {s : InferenceState F T Q R} (hs : FullLength C s) (frame : F)
    (pose : Q) : frameState (C.observe s frame pose).2 = C.showFrame (frameState s) frame := by
  by_cases hroom : s.nPriorFrames < C.seqLen
  · rw [observe, if_pos hroom, showFrame, if_pos (show (frameState s).2 < C.seqLen from hroom)]
    rfl
  · have hrolled : frameState (C.rollHistories s (C.ensureFrameHistory s.frameHistory frame) frame
        pose) = C.showFrame (frameState s) frame := by
      rw [showFrame, if_neg (show ¬(frameState s).2 < C.seqLen from hroom)]
      rfl
    rw [observe, if_neg hroom, ← hrolled]
    split
    · exact frameState_finishRollLegacy _
    · split
      · -- a history of full length has a first pose
        rename_i hnone
        have hempty := List.getElem?_eq_none_iff.mp hnone
        rw [hs.poses] at hempty
        exact absurd hempty (Nat.not_le_of_lt C.seqLen_pos)
      · dsimp only
        split
        · rfl
        · exact frameState_finishRoll _ _ _

theorem frameState_act (s : InferenceState F T Q R) (pose : Q) (draws : D) (i : ℕ) :
    frameState (C.act s pose draws i).2 = frameState s := by
  unfold act
  split
  · rfl
  · split
    · rfl
    · split
      · unfold actLegacy
        split <;> rfl
      · unfold actStabilized
        dsimp only
        split <;> rfl

theorem frameState_finishStep (s : InferenceState F T Q R) (pose : Q) (draws : D) (i : ℕ) :
    frameState (C.finishStep s pose draws i).2 = frameState s := by
  unfold finishStep
  split
  · rfl
  · exact frameState_act _ pose draws i

/-- A call without a pose of 16 entries raises at once; every other call shows
its frame. -/
theorem frameState_step {s : InferenceState F T Q R} (hs : FullLength C s)
    (call : StepCall F T Q D) :
    frameState (C.step s call).2 =
      call.currentPose.elim (frameState s) fun _ => C.showFrame (frameState s) call.frame := by
  unfold step
  cases call.currentPose with
  | none => rfl
  | some pose =>
      have hobserve := frameState_observe (fullLength_updateText hs call) call.frame pose
      rw [frameState_updateText] at hobserve
      dsimp only [Option.elim_some]
      split
      · rename_i s' hs'
        rwa [hs'] at hobserve
      · rename_i i s' hs'
        rw [hs'] at hobserve
        rw [frameState_finishStep]
        exact hobserve

/-- The frames of the calls that got as far as their frame. -/
def givenFrames (calls : List (StepCall F T Q D)) : List F :=
  (calls.filter fun call => call.currentPose.isSome).map StepCall.frame

/-- The filled slots hold the last frames given, the free ones a zero frame. -/
structure HoldsFrames (C : SequenceInference F T Q R W D) (shape : List ℕ)
    (fs : Option (List F) × ℕ) (given : List F) : Prop where
  count : fs.2 = min given.length C.seqLen
  fresh : given = [] → fs.1 = none
  window : given ≠ [] → ∃ first, C.frameShape first = shape ∧
    fs.1 = some (lastN fs.2 given ++ List.replicate (C.seqLen - fs.2) (C.zeroFrame first))

variable {shape : List ℕ} {fs : Option (List F) × ℕ} {given : List F}

/-- `torch.zeros` keeps the shape, and the frames given have one shape. -/
def ShapesAgree (C : SequenceInference F T Q R W D) (shape : List ℕ) (frames : List F) : Prop :=
  (∀ frame, C.frameShape (C.zeroFrame frame) = C.frameShape frame) ∧
    ∀ frame ∈ frames, C.frameShape frame = shape

/-- The window behind `_ensure_frame_history`. -/
theorem HoldsFrames.ensure (h : HoldsFrames C shape fs given) (hshape : ShapesAgree C shape given)
    {frame : F} (hframe : C.frameShape frame = shape) :
    ∃ first, C.frameShape first = shape ∧ C.ensureFrameHistory fs.1 frame =
      lastN fs.2 given ++ List.replicate (C.seqLen - fs.2) (C.zeroFrame first) := by
  rcases eq_or_ne given [] with hnil | hne
  · refine ⟨frame, hframe, ?_⟩
    have hcount : fs.2 = 0 := by
      rw [h.count, hnil, List.length_nil, Nat.zero_min]
    rw [h.fresh hnil, hcount, lastN_zero, List.nil_append, Nat.sub_zero]
    rfl
  · obtain ⟨first, hfirst, hwindow⟩ := h.window hne
    refine ⟨first, hfirst, ?_⟩
    have hle : fs.2 ≤ given.length := h.count ▸ Nat.min_le_left _ _
    have hle' : fs.2 ≤ C.seqLen := h.count ▸ Nat.min_le_right _ _
    have hsame : (lastN fs.2 given ++ List.replicate (C.seqLen - fs.2) (C.zeroFrame first)).map
        C.frameShape = List.replicate C.seqLen (C.frameShape frame) := by
      rw [List.map_eq_replicate_iff.mpr]
      · rw [List.length_append, length_lastN hle, List.length_replicate, Nat.add_sub_cancel' hle']
      · intro f hf
        rw [hframe]
        rcases List.mem_append.mp hf with hf | hf
        · exact hshape.2 f (List.mem_of_mem_drop hf)
        · rw [List.eq_of_mem_replicate hf, hshape.1, hfirst]
    rw [hwindow]
    exact if_pos hsame

/-- **One frame.** -/
theorem HoldsFrames.show (h : HoldsFrames C shape fs given) (hshape : ShapesAgree C shape given)
    {frame : F} (hframe : C.frameShape frame = shape) :
    HoldsFrames C shape (C.showFrame fs frame) (given ++ [frame]) := by
  obtain ⟨first, hfirst, hensure⟩ := h.ensure hshape hframe
  have hlen : (given ++ [frame]).length = given.length + 1 := by
    rw [List.length_append, List.length_singleton]
  rw [showFrame, hensure]
  rcases Nat.lt_or_ge fs.2 C.seqLen with hroom | hfull
  · have hcount : fs.2 = given.length := by
      have hmin := h.count
      omega
    rw [if_pos hroom]
    refine ⟨?_, fun hnil => absurd hnil (List.append_ne_nil_of_right_ne_nil _ (by simp)), ?_⟩
    · rw [hlen, hcount]
      exact (Nat.min_eq_left (Nat.succ_le_of_lt (hcount ▸ hroom))).symm
    · intro _
      refine ⟨first, hfirst, ?_⟩
      have hlast : (lastN fs.2 given).length = fs.2 := length_lastN hcount.le
      obtain ⟨free, hfree⟩ : ∃ free, C.seqLen - fs.2 = free + 1 :=
        Nat.exists_eq_succ_of_ne_zero (Nat.sub_pos_of_lt hroom).ne'
      have hfree' : C.seqLen - (fs.2 + 1) = free := by omega
      have hset : (lastN fs.2 given ++ List.replicate (free + 1) (C.zeroFrame first)).set fs.2
          frame = lastN fs.2 given ++ frame :: List.replicate free (C.zeroFrame first) := by
        conv_lhs => rw [← hlast]
        rw [hlast, List.replicate_succ, List.set_append_right _ _ hlast.le, hlast, Nat.sub_self]
        rfl
      simp only [hfree, hfree', hset, lastN_succ_concat, List.append_assoc, List.singleton_append]
  · have hcount : fs.2 = C.seqLen := by
      have hmin := h.count
      omega
    have hlong : C.seqLen ≤ given.length := by
      have hmin := h.count
      omega
    obtain ⟨n, hn⟩ : ∃ n, C.seqLen = n + 1 :=
      Nat.exists_eq_succ_of_ne_zero (Nat.ne_of_gt C.seqLen_pos)
    have hlast : lastN (n + 1) given ≠ [] := by
      rw [← List.length_pos_iff, length_lastN (hn ▸ hlong)]
      exact Nat.succ_pos n
    rw [if_neg hfull.not_gt]
    refine ⟨?_, fun hnil => absurd hnil (List.append_ne_nil_of_right_ne_nil _ (by simp)), ?_⟩
    · rw [hlen, hcount]
      exact (Nat.min_eq_right (hlong.trans (Nat.le_succ _))).symm
    · intro _
      refine ⟨first, hfirst, ?_⟩
      simp only [hcount, hn, Nat.sub_self, List.replicate_zero, List.append_nil]
      rw [RobotTwinPolicy.setLast_roll hlast, tail_lastN (hn ▸ hlong), lastN_succ_concat]

/-- **All calls** since the histories were emptied. -/
theorem HoldsFrames.after {s : InferenceState F T Q R} (hs : FullLength C s)
    (h : HoldsFrames C shape (frameState s) given) {calls : List (StepCall F T Q D)}
    (hshape : ShapesAgree C shape (given ++ givenFrames calls)) :
    HoldsFrames C shape (frameState (C.after s calls)) (given ++ givenFrames calls) := by
  induction calls generalizing s given with
  | nil => rwa [givenFrames, List.filter_nil, List.map_nil, List.append_nil]
  | cons call calls ih =>
      have hstep := frameState_step hs call
      cases hpose : call.currentPose with
      | none =>
          have hgiven : givenFrames (call :: calls) = givenFrames calls := by
            rw [givenFrames, List.filter_cons_of_neg (by simp [hpose])]
            rfl
          rw [hpose, Option.elim_none] at hstep
          rw [hgiven] at hshape ⊢
          exact ih (fullLength_step hs call) (hstep ▸ h) hshape
      | some pose =>
          have hgiven : given ++ givenFrames (call :: calls) =
              (given ++ [call.frame]) ++ givenFrames calls := by
            rw [givenFrames, List.filter_cons_of_pos (by simp [hpose]), List.append_assoc]
            rfl
          rw [hpose, Option.elim_some] at hstep
          rw [hgiven] at hshape ⊢
          have hframe : C.frameShape call.frame = shape :=
            hshape.2 _ (List.mem_append_left _ (List.mem_append_right _ List.mem_cons_self))
          have hbefore : ShapesAgree C shape given :=
            ⟨hshape.1, fun f hf => hshape.2 f (List.mem_append_left _ (List.mem_append_left _ hf))⟩
          apply ih (fullLength_step hs call) _ hshape
          rw [hstep]
          exact h.show hbefore hframe

theorem holdsFrames_reset (s : InferenceState F T Q R) (prompt : Option String)
    (textTokensEmbed : Option T) :
    HoldsFrames C shape (frameState (C.reset s prompt textTokensEmbed)) [] where
  count := (Nat.zero_min _).symm
  fresh := fun _ => rfl
  window := fun hne => absurd rfl hne

/-! ## The mask at a model call -/

/-- `torch.zeros` in the shape of a frame. -/
structure TorchZeros (C : SequenceInference F T Q R W D) (pixels : F → List UInt8) : Prop where
  shape : ∀ frame, C.frameShape (C.zeroFrame frame) = C.frameShape frame
  black : ∀ frame, ∀ p ∈ pixels (C.zeroFrame frame), p = 0

/-- `step` puts the observation into a slot and calls the model on `frames`, with
`n` slots filled. -/
def ModelCall (C : SequenceInference F T Q R W D) (s : InferenceState F T Q R)
    (call : StepCall F T Q D) (frames : List F) (n : ℕ) : Prop :=
  ∃ pose i s', call.currentPose = some pose ∧
    C.observe (C.updateText s call) call.frame pose = (some i, s') ∧
    s'.nPriorFrames ≠ 1 ∧ s'.frameHistory = some frames ∧ s'.nPriorFrames = n

/-- Where the model raises on these frames, so does the step. -/
theorem ModelCall.raises {s : InferenceState F T Q R} {call : StepCall F T Q D} {frames : List F}
    {n : ℕ} (h : C.ModelCall s call frames n)
    (hraise : ∀ actions text sample, C.onlineFullPredict frames actions text sample call.draws =
      none) : (C.step s call).1 = none := by
  rcases h with ⟨pose, i, s', hpose, hobserve, hfirst, hframes, -⟩
  simp only [step, hpose, hobserve, finishStep]
  cases s'.poseHistory[0]? with
  | none => rfl
  | some anchor =>
      have hpredict : C.predict { s' with anchorPose := anchor } call.draws = none := by
        simp only [predict, hframes, Option.bind_eq_bind, Option.bind_some]
        exact hraise _ _ _
      simp only [act, if_neg hfirst, hpredict, Option.map_none]

/-- The frames of a model call. -/
theorem ModelCall.holdsFrames {s : InferenceState F T Q R} (hs : FullLength C s)
    {call : StepCall F T Q D} {frames : List F} {n : ℕ} (h : C.ModelCall s call frames n)
    (hheld : HoldsFrames C shape (frameState s) given)
    (hshape : ShapesAgree C shape (given ++ [call.frame])) :
    HoldsFrames C shape (some frames, n) (given ++ [call.frame]) := by
  rcases h with ⟨pose, i, s', -, hobserve, -, hframes, hn⟩
  have hframe : C.frameShape call.frame = shape :=
    hshape.2 _ (List.mem_append_right _ List.mem_cons_self)
  have hbefore : ShapesAgree C shape given :=
    ⟨hshape.1, fun f hf => hshape.2 f (List.mem_append_left _ hf)⟩
  have hstate := frameState_observe (fullLength_updateText hs call) call.frame pose
  rw [hobserve, frameState_updateText, frameState, hframes, hn] at hstate
  rw [hstate]
  exact hheld.show hbefore hframe

/-- **The inferred mask.** At a model call the mask marks the filled slots exactly
when each of the frames in the window has a pixel that is not zero, or the window
is full and none of them has. -/
theorem stepMask_marksFilled_iff {pixels : F → List UInt8} (hzeros : TorchZeros C pixels)
    {s : InferenceState F T Q R} (hs : C.Reachable s) (prompt : Option String)
    (textTokensEmbed : Option T) {calls : List (StepCall F T Q D)} {call : StepCall F T Q D}
    {shape : List ℕ}
    (hshape : ∀ frame ∈ givenFrames (calls ++ [call]), C.frameShape frame = shape)
    {frames : List F} {n : ℕ}
    (hmodel : C.ModelCall (C.after (C.reset s prompt textTokensEmbed) calls) call frames n) :
    n = min (givenFrames (calls ++ [call])).length C.seqLen ∧
      (getRdtValidStepMask pixels frames none = filledMask C.seqLen n ↔
        (∀ frame ∈ lastN n (givenFrames (calls ++ [call])), ∃ p ∈ pixels frame, p ≠ 0) ∨
          n = C.seqLen ∧
            ∀ frame ∈ lastN n (givenFrames (calls ++ [call])), ∀ p ∈ pixels frame, p = 0) := by
  have hgiven : givenFrames (calls ++ [call]) = givenFrames calls ++ [call.frame] := by
    rcases hmodel with ⟨pose, -, -, hpose, -⟩
    rw [givenFrames, List.filter_append, List.map_append]
    simp [givenFrames, hpose]
  rw [hgiven] at hshape ⊢
  have hreset := hs.reset prompt textTokensEmbed
  have hbefore : ShapesAgree C shape (givenFrames calls) :=
    ⟨hzeros.shape, fun f hf => hshape f (List.mem_append_left _ hf)⟩
  have hheld : HoldsFrames C shape (frameState (C.after (C.reset s prompt textTokensEmbed) calls))
      ([] ++ givenFrames calls) :=
    (holdsFrames_reset s prompt textTokensEmbed).after hreset.fullLength hbefore
  rw [List.nil_append] at hheld
  have hholds := hmodel.holdsFrames (hreset.after calls).fullLength hheld ⟨hzeros.shape, hshape⟩
  refine ⟨hholds.count, ?_⟩
  have hcount : n = min (givenFrames calls ++ [call.frame]).length C.seqLen := hholds.count
  have hlen : (lastN n (givenFrames calls ++ [call.frame])).length = n :=
    length_lastN (hcount ▸ Nat.min_le_left _ _)
  have hpos : 0 < n := by
    rw [hcount, List.length_append, List.length_singleton]
    exact Nat.lt_min.mpr ⟨Nat.succ_pos _, C.seqLen_pos⟩
  have hne : lastN n (givenFrames calls ++ [call.frame]) ≠ [] := by
    rw [← List.length_pos_iff, hlen]
    exact hpos
  obtain ⟨first, -, hwindow⟩ := hholds.window (List.append_ne_nil_of_right_ne_nil _ (by simp))
  have hblack : hasPixel pixels (C.zeroFrame first) = false := by
    rw [Bool.eq_false_iff, ne_eq, hasPixel_iff]
    rintro ⟨p, hp, hpixel⟩
    exact hpixel (hzeros.black first p hp)
  have hle : n ≤ C.seqLen := hcount ▸ Nat.min_le_right _ _
  have hmask := getRdtValidStepMask_eq_iff hne hblack (hlen.trans_le hle)
  rw [hlen, ← Option.some_inj.mp hwindow] at hmask
  rw [hmask]
  simp only [hasPixel_iff, Bool.eq_false_iff, ne_eq, not_exists, not_and, not_not]

end Frames

/-! ## A black frame -/

section BlackFrame

def bytesOf (frame : List ℕ) : List UInt8 := frame.map UInt8.ofNat

theorem torchZeros_addingUp : TorchZeros addingUp bytesOf where
  shape := fun frame => congrArg (fun n => [n]) (List.length_map _)
  black := by
    intro frame p hp
    obtain ⟨n, hn, rfl⟩ := List.mem_map.mp hp
    obtain ⟨m, -, rfl⟩ := List.mem_map.mp hn
    rfl

/-- A server that was reset and then shown frames of two pixels. -/
def shown (frames : List (List ℕ)) : InferenceState (List ℕ) ℕ ℕ ℕ :=
  addingUp.after (addingUp.reset addingUp.initState none none)
    (frames.map fun frame => showing frame 1)

/-- Two frames with a lit pixel are marked. -/
theorem stepMask_marksFilled_iff_lit :
    getRdtValidStepMask bytesOf [[0, 7], [9, 0]] none = filledMask 2 2 := by
  have hmodel : addingUp.ModelCall (shown [[0, 7]]) (showing [9, 0] 2) [[0, 7], [9, 0]] 2 :=
    ⟨2, 1, _, rfl, rfl, by decide, rfl, rfl⟩
  have hshape : ∀ frame ∈ givenFrames ([showing [0, 7] 1] ++ [showing [9, 0] 2]),
      addingUp.frameShape frame = [2] := by decide
  have hiff := (stepMask_marksFilled_iff torchZeros_addingUp (.start rfl) none none
    hshape hmodel).2
  exact hiff.mpr (.inl (by decide))

/-- The second frame is black: the model is called with both slots filled, and
the mask leaves the slot of the newest frame out. -/
theorem stepMask_misses_black :
    addingUp.Reachable addingUp.initState ∧
      addingUp.ModelCall (shown [[0, 7]]) (showing [0, 0] 2) [[0, 7], [0, 0]] 2 ∧
      getRdtValidStepMask bytesOf [[0, 7], [0, 0]] none ≠ filledMask 2 2 :=
  ⟨.start rfl, ⟨2, 1, _, rfl, rfl, by decide, rfl, rfl⟩, by decide⟩

end BlackFrame

end SequenceInference

end P2PRdt.Robot

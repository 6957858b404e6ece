import P2PRdt.Robot.SegmentActions

/-!
# Items and their windows

An item of the robot dataset has eight fields with one entry for each frame.
`_ensure_fixed_sequence_length` cuts one time slice out of all of them, pads
them to the target length and rebases the actions. Frames, environment codes and
text embeddings are padded with their last entry, the other fields with zeros.
-/

namespace P2PRdt.Robot

open Lib Quaternion

/-- `ActionLabelVideoDatasetItem`, with action vectors of one width. Frames have
type `F` and text embeddings type `T`. -/
structure DatasetItem (K F T : Type) where
  actionWidth : ℕ
  frames : List F
  actionAnnotations : List (Fin actionWidth → K)
  envSubenvEncoding : List ℤ
  userActionMask : List Bool
  textEmbeddings : List T
  systemActionMask : List Bool
  validFrameMask : Option (List Bool)
  actionMask : List (Fin actionWidth → Bool)

/-! ## Slices and padding -/

section Window

variable {α : Type}

/-- `tensor[time_slice]`. -/
def sliceTime (slice : ℕ × ℕ) (tensor : List α) : List α :=
  (tensor.drop slice.1).take (slice.2 - slice.1)

/-- The padding modes, with the zero of a field. -/
inductive PadMode (α : Type) where
  | repeatLast
  | zeros (zero : α)

/-- `_pad_time_dim`; an empty field has no last entry to repeat. -/
def padTimeDim (tensor : List α) (targetSeqLen : ℕ) (padMode : PadMode α) : Option (List α) :=
  if targetSeqLen ≤ tensor.length then some tensor
  else
    match padMode, tensor.getLast? with
    | .repeatLast, some last =>
        some (tensor ++ List.replicate (targetSeqLen - tensor.length) last)
    | .repeatLast, none => none
    | .zeros zero, _ => some (tensor ++ List.replicate (targetSeqLen - tensor.length) zero)

end Window

namespace DatasetItem

variable {K F T : Type}

section Code

variable [Zero K]

/-- The eight fields in one time slice. -/
def sliced (item : DatasetItem K F T) (slice : ℕ × ℕ) : DatasetItem K F T where
  actionWidth := item.actionWidth
  frames := sliceTime slice item.frames
  actionAnnotations := sliceTime slice item.actionAnnotations
  envSubenvEncoding := sliceTime slice item.envSubenvEncoding
  userActionMask := sliceTime slice item.userActionMask
  textEmbeddings := sliceTime slice item.textEmbeddings
  systemActionMask := sliceTime slice item.systemActionMask
  validFrameMask :=
    some (sliceTime slice (item.validFrameMask.getD (List.replicate item.frames.length true)))
  actionMask := sliceTime slice item.actionMask

/-- The eight fields padded to the target length. -/
def padded (item : DatasetItem K F T) (targetSeqLen : ℕ) : Option (DatasetItem K F T) := do
  let frames ← padTimeDim item.frames targetSeqLen .repeatLast
  let actionAnnotations ← padTimeDim item.actionAnnotations targetSeqLen (.zeros fun _ => 0)
  let envSubenvEncoding ← padTimeDim item.envSubenvEncoding targetSeqLen .repeatLast
  let userActionMask ← padTimeDim item.userActionMask targetSeqLen (.zeros false)
  let textEmbeddings ← padTimeDim item.textEmbeddings targetSeqLen .repeatLast
  let systemActionMask ← padTimeDim item.systemActionMask targetSeqLen (.zeros false)
  let validFrameMask ← padTimeDim (item.validFrameMask.getD []) targetSeqLen (.zeros false)
  let actionMask ← padTimeDim item.actionMask targetSeqLen (.zeros fun _ => false)
  pure
    { actionWidth := item.actionWidth
      frames, actionAnnotations, envSubenvEncoding, userActionMask, textEmbeddings,
      systemActionMask, actionMask
      validFrameMask := some validFrameMask }

/-- `_ensure_fixed_sequence_length` before the rebase step; `draw` is the random
start of a shuffled dataset. -/
def fixedWindow (item : DatasetItem K F T) (targetSeqLen : ℕ) (shuffle : Bool) (draw : ℕ) :
    Option (DatasetItem K F T) :=
  (item.sliced (ActionLayout.selectTimeSlice item.frames.length targetSeqLen shuffle draw)).padded
    targetSeqLen

end Code

/-- Every field has an entry for each of `n` frames. -/
structure Aligned (item : DatasetItem K F T) (n : ℕ) : Prop where
  frames : item.frames.length = n
  actionAnnotations : item.actionAnnotations.length = n
  envSubenvEncoding : item.envSubenvEncoding.length = n
  userActionMask : item.userActionMask.length = n
  textEmbeddings : item.textEmbeddings.length = n
  systemActionMask : item.systemActionMask.length = n
  validFrameMask : ∀ mask, item.validFrameMask = some mask → mask.length = n
  actionMask : item.actionMask.length = n

end DatasetItem

/-! ## One field -/

/-- `output` is the window of `input` from `start` on, with `target` entries:
entries of `input`, and then `pad`. -/
structure WindowOf {α : Type} (start target : ℕ) (input : List α) (pad : Option α)
    (output : List α) : Prop where
  length : output.length = target
  inside : ∀ j < min target input.length, output[j]? = input[start + j]?
  padding : ∀ j, input.length ≤ j → j < target → output[j]? = pad

section Field

variable {α : Type} {start target : ℕ} {input : List α}

theorem length_sliceTime {start stop : ℕ} (hstop : stop ≤ input.length) :
    (sliceTime (start, stop) input).length = stop - start := by
  rw [sliceTime, List.length_take, List.length_drop]
  omega

theorem getElem?_sliceTime {start stop j : ℕ} (hj : j < stop - start) :
    (sliceTime (start, stop) input)[j]? = input[start + j]? := by
  rw [sliceTime, List.getElem?_take_of_lt hj, List.getElem?_drop]

/-- A slice of full length is not padded. -/
theorem windowOf_slice (hstop : start + target ≤ input.length) (mode : PadMode α)
    (pad : Option α) :
    ∃ output, padTimeDim (sliceTime (start, start + target) input) target mode = some output ∧
      WindowOf start target input pad output := by
  have hlen : (sliceTime (start, start + target) input).length = target := by
    rw [length_sliceTime hstop, Nat.add_sub_cancel_left]
  refine ⟨_, if_pos hlen.ge, hlen, ?_, ?_⟩
  · intro j hj
    apply getElem?_sliceTime
    omega
  · intro j hle hlt
    omega

theorem sliceTime_all : sliceTime (0, input.length) input = input := by
  rw [sliceTime, List.drop_zero, Nat.sub_zero, List.take_length]

/-- What stands behind a field that is shorter than the target. -/
def PadMode.padding (mode : PadMode α) (input : List α) : Option α :=
  match mode with
  | .repeatLast => input.getLast?
  | .zeros zero => some zero

/-- A field that fits as a whole is kept and padded. -/
theorem windowOf_padded (hle : input.length ≤ target) (hpos : 1 ≤ input.length)
    (mode : PadMode α) :
    ∃ output, padTimeDim (sliceTime (0, input.length) input) target mode = some output ∧
      WindowOf 0 target input (mode.padding input) output := by
  obtain ⟨last, hlast⟩ : ∃ last, input.getLast? = some last :=
    ⟨_, List.getLast?_eq_some_getLast (List.length_pos_iff.mp hpos)⟩
  obtain ⟨pad, hpad⟩ : ∃ pad, mode.padding input = some pad := by
    cases mode with
    | repeatLast => exact ⟨last, hlast⟩
    | zeros zero => exact ⟨zero, rfl⟩
  have hpadded : padTimeDim (sliceTime (0, input.length) input) target mode =
      some (input ++ List.replicate (target - input.length) pad) := by
    rw [sliceTime_all]
    unfold padTimeDim
    split
    · rename_i hfull
      rw [Nat.sub_eq_zero_of_le hfull, List.replicate_zero, List.append_nil]
    · cases mode with
      | repeatLast =>
          obtain rfl := Option.some_inj.mp (hlast.symm.trans hpad)
          rw [hlast]
      | zeros zero =>
          obtain rfl := Option.some_inj.mp hpad
          rfl
  refine ⟨_, hpadded, ?_, ?_, ?_⟩
  · rw [List.length_append, List.length_replicate, Nat.add_sub_cancel' hle]
  · intro j hj
    rw [Nat.zero_add, List.getElem?_append_left (by omega)]
  · intro j hge hlt
    rw [List.getElem?_append_right hge, List.getElem?_replicate, if_pos (by omega), hpad]

/-- The start of a slice, which a dataset that is not shuffled takes from the
beginning. -/
theorem selectTimeSlice_start {n : ℕ} (shuffle : Bool) {draw : ℕ} (hdraw : draw ≤ n - target) :
    (ActionLayout.selectTimeSlice n target shuffle draw).1 ≤ n - target ∧
      (shuffle = false → (ActionLayout.selectTimeSlice n target shuffle draw).1 = 0) := by
  unfold ActionLayout.selectTimeSlice
  split
  · exact ⟨Nat.zero_le _, fun _ => rfl⟩
  · constructor
    · dsimp only
      split
      · exact hdraw
      · exact Nat.zero_le _
    · rintro rfl
      rfl

/-- A field of `n` entries, sliced and padded. -/
theorem windowOf_selectTimeSlice (hpos : 1 ≤ input.length) (shuffle : Bool) {draw : ℕ}
    (hdraw : draw ≤ input.length - target) (mode : PadMode α) :
    ∃ output, padTimeDim (sliceTime
        (ActionLayout.selectTimeSlice input.length target shuffle draw) input) target mode =
        some output ∧
      WindowOf (ActionLayout.selectTimeSlice input.length target shuffle draw).1 target input
        (mode.padding input) output := by
  have hstart := (selectTimeSlice_start shuffle hdraw).1
  unfold ActionLayout.selectTimeSlice at hstart ⊢
  split
  · rename_i hshort
    exact windowOf_padded hshort hpos mode
  · rename_i hlong
    rw [if_neg hlong] at hstart
    apply windowOf_slice
    dsimp only at hstart
    omega

end Field

/-! ## All fields -/

namespace DatasetItem

variable {K F T : Type} [Zero K]

/-- The window of an item: one start for all eight fields. -/
structure WindowOfItem (start target : ℕ) (item : DatasetItem K F T) (frames : List F)
    (actionAnnotations : List (Fin item.actionWidth → K)) (envSubenvEncoding : List ℤ)
    (userActionMask : List Bool) (textEmbeddings : List T) (systemActionMask : List Bool)
    (validFrameMask : List Bool) (actionMask : List (Fin item.actionWidth → Bool)) : Prop where
  frames : WindowOf start target item.frames item.frames.getLast? frames
  actionAnnotations :
    WindowOf start target item.actionAnnotations (some fun _ => 0) actionAnnotations
  envSubenvEncoding : WindowOf start target item.envSubenvEncoding
    item.envSubenvEncoding.getLast? envSubenvEncoding
  userActionMask : WindowOf start target item.userActionMask (some false) userActionMask
  textEmbeddings :
    WindowOf start target item.textEmbeddings item.textEmbeddings.getLast? textEmbeddings
  systemActionMask : WindowOf start target item.systemActionMask (some false) systemActionMask
  validFrameMask : WindowOf start target
    (item.validFrameMask.getD (List.replicate item.frames.length true)) (some false) validFrameMask
  actionMask : WindowOf start target item.actionMask (some fun _ => false) actionMask

omit [Zero K] in
theorem Aligned.validFrames {item : DatasetItem K F T} {n : ℕ} (h : item.Aligned n) :
    (item.validFrameMask.getD (List.replicate item.frames.length true)).length = n := by
  cases hmask : item.validFrameMask with
  | none => rw [Option.getD_none, List.length_replicate, h.frames]
  | some mask => exact h.validFrameMask mask hmask

/-- The slice is the same for all fields, and each of them is padded. -/
theorem fixedWindow_spec {item : DatasetItem K F T} {n : ℕ} (hn : 1 ≤ n) (hitem : item.Aligned n)
    (target : ℕ) (shuffle : Bool) {draw : ℕ} (hdraw : draw ≤ n - target) :
    ∃ frames actions env user text system valid mask,
      item.fixedWindow target shuffle draw =
        some ⟨item.actionWidth, frames, actions, env, user, text, system, some valid, mask⟩ ∧
      WindowOfItem (ActionLayout.selectTimeSlice n target shuffle draw).1 target item frames
        actions env user text system valid mask := by
  have hfield : ∀ {α : Type} (input : List α) (mode : PadMode α), input.length = n →
      ∃ output, padTimeDim (sliceTime (ActionLayout.selectTimeSlice n target shuffle draw) input)
          target mode = some output ∧
        WindowOf (ActionLayout.selectTimeSlice n target shuffle draw).1 target input
          (mode.padding input) output := by
    rintro α input mode rfl
    exact windowOf_selectTimeSlice hn shuffle hdraw mode
  obtain ⟨frames, hframes, wframes⟩ := hfield item.frames .repeatLast hitem.frames
  obtain ⟨actions, hactions, wactions⟩ :=
    hfield item.actionAnnotations (.zeros fun _ => 0) hitem.actionAnnotations
  obtain ⟨env, henv, wenv⟩ := hfield item.envSubenvEncoding .repeatLast hitem.envSubenvEncoding
  obtain ⟨user, huser, wuser⟩ := hfield item.userActionMask (.zeros false) hitem.userActionMask
  obtain ⟨text, htext, wtext⟩ := hfield item.textEmbeddings .repeatLast hitem.textEmbeddings
  obtain ⟨system, hsystem, wsystem⟩ :=
    hfield item.systemActionMask (.zeros false) hitem.systemActionMask
  obtain ⟨valid, hvalid, wvalid⟩ := hfield _ (.zeros false) hitem.validFrames
  obtain ⟨mask, hmask, wmask⟩ := hfield item.actionMask (.zeros fun _ => false) hitem.actionMask
  refine ⟨frames, actions, env, user, text, system, valid, mask, ?_,
    wframes, wactions, wenv, wuser, wtext, wsystem, wvalid, wmask⟩
  rw [fixedWindow, hitem.frames]
  simp only [padded, sliced, Option.getD_some, hframes, hactions, henv,
    huser, htext, hsystem, hvalid, hmask, Option.bind_eq_bind, Option.bind_some, Option.pure_def]

/-- **One window for all fields.** Before the rebase step the eight fields have
the target length, they are cut at one start, and what is missing is padded. -/
theorem fixedWindow_aligned {item : DatasetItem K F T} {n : ℕ} (hn : 1 ≤ n)
    (hitem : item.Aligned n) (target : ℕ) (shuffle : Bool) {draw : ℕ}
    (hdraw : draw ≤ n - target) :
    ∃ start frames actions env user text system valid mask,
      item.fixedWindow target shuffle draw =
        some ⟨item.actionWidth, frames, actions, env, user, text, system, some valid, mask⟩ ∧
      start ≤ n - target ∧ (shuffle = false → start = 0) ∧
      WindowOfItem start target item frames actions env user text system valid mask := by
  obtain ⟨frames, actions, env, user, text, system, valid, mask, hfixed, hwindow⟩ :=
    fixedWindow_spec hn hitem target shuffle hdraw
  obtain ⟨hle, hzero⟩ := selectTimeSlice_start shuffle hdraw
  exact ⟨_, frames, actions, env, user, text, system, valid, mask, hfixed, hle, hzero, hwindow⟩

/-- Three frames, the first of them masked. -/
def threeFrames : DatasetItem ℤ ℕ String where
  actionWidth := 1
  frames := [10, 11, 12]
  actionAnnotations := [fun _ => 0, fun _ => 1, fun _ => 2]
  envSubenvEncoding := [0, 0, 0]
  userActionMask := [false, true, true]
  textEmbeddings := ["lift", "lift", "lift"]
  systemActionMask := [false, false, false]
  validFrameMask := none
  actionMask := [fun _ => false, fun _ => true, fun _ => true]

theorem fixedWindow_aligned_threeFrames :
    ∃ start frames actions env user text system valid mask,
      threeFrames.fixedWindow 2 true 1 =
        some ⟨1, frames, actions, env, user, text, system, some valid, mask⟩ ∧
      start ≤ 1 ∧
      WindowOfItem start 2 threeFrames frames actions env user text system valid mask := by
  have haligned : threeFrames.Aligned 3 := by
    constructor
    case validFrameMask => intro mask hmask; cases hmask
    all_goals rfl
  obtain ⟨start, frames, actions, env, user, text, system, valid, mask, h, hstart, -, hwindow⟩ :=
    fixedWindow_aligned (by decide) haligned 2 true (show 1 ≤ 3 - 2 from le_rfl)
  exact ⟨start, frames, actions, env, user, text, system, valid, mask, h, hstart, hwindow⟩

end DatasetItem

end P2PRdt.Robot

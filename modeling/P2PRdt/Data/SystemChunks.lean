import P2PRdt.Data.Chunking

/-!
# Chunks with only system actions

Which chunks `annotate_frames` drops. `chunkAt` is the chunk that
`_preprocess_example` cuts at an offset, and whatever the frames and the text
annotations are, it is made from one slice of the annotations, one for each
valid frame. The test for dropping it looks at the slots of all `T` frames, so
with the padding of the last window it never holds.
-/

namespace P2PRdt.Data

variable {φ τ ε : Type}

namespace ActionLabelAnnotationParser

variable {parser : ActionLabelAnnotationParser τ ε}

/-- Whatever the text annotations do, a loop that ends has written the slots of
the slice one after the other. -/
theorem annotateLoop_slots {nFrames i : ℕ} {annotations : List FrameAnnotation}
    {slots slots' : List Slot} {text text' : List ε}
    (h : parser.annotateLoop nFrames annotations i slots text = .ok (slots', text')) :
    slots' = slots.take i ++ annotations.map parser.slotOf ++
      slots.drop (i + annotations.length) := by
  induction annotations generalizing i slots text with
  | nil =>
      obtain ⟨rfl, rfl⟩ : slots = slots' ∧ text = text' := by simpa [annotateLoop] using h
      simp
  | cons a rest ih =>
      simp only [annotateLoop, bind, Except.bind] at h
      cases htext : parser.annotateText text i nFrames a with
      | error e =>
          rw [htext] at h
          cases h
      | ok text₁ =>
          rw [htext] at h
          dsimp only at h
          by_cases hi : i < slots.length
          · rw [if_pos hi] at h
            rw [ih h, List.take_add_one, List.take_set_of_le (Nat.le_refl i),
              List.getElem?_set_self hi, List.drop_set_of_lt (by omega)]
            simp only [Option.toList_some, List.map_cons, List.length_cons, List.append_assoc,
              List.cons_append, Nat.add_right_comm, Nat.add_assoc]
            rfl
          · rw [if_neg hi] at h
            cases h

/-- A call of `annotate_frames` that returns: its loop has ended, and the
system mask alone decides whether the chunk is dropped. -/
theorem annotateFrames_returns {annotations : List FrameAnnotation}
    (hann : parser.frameAnnotations = some annotations) {frames : List φ}
    {startFrame endFrame : ℕ} {validFrameMask : List Bool}
    {r : Option (ActionLabelVideoDatasetItem φ ε)}
    (h : parser.annotateFrames frames startFrame endFrame validFrameMask = .ok r) :
    ∃ slots text, parser.annotateLoop frames.length
        ((annotations.take endFrame).drop startFrame) 0
        (List.replicate frames.length parser.emptySlot)
        (List.replicate frames.length parser.text.zeros) = .ok (slots, text) ∧
      (r = none ↔
        parser.dropChunksWithOnlySystemActions = true ∧ slots.all (·.system) = true) ∧
      ∀ item ∈ r, item.slots = slots ∧ item.textEmbeddings = text := by
  simp only [annotateFrames, hann, bind, Except.bind] at h
  split at h
  · cases h
  rename_i out hloop
  rcases out with ⟨slots, text⟩
  refine ⟨slots, text, hloop, ?_⟩
  dsimp only at h
  split at h
  · -- dropped
    rename_i hdrop
    obtain rfl : none = r := Except.ok.inj h
    rw [Bool.and_eq_true] at hdrop
    exact ⟨iff_of_true rfl hdrop, by simp⟩
  · rename_i hkeep
    rw [Bool.and_eq_true] at hkeep
    split at h
    · obtain rfl := Except.ok.inj h
      refine ⟨iff_of_false (by simp) hkeep, ?_⟩
      rintro item ⟨⟩
      exact ⟨rfl, rfl⟩
    · cases h

end ActionLabelAnnotationParser

namespace Chunking

variable (config : VideoProtoDatasetConfig) (video : Video φ) (resize : Resize φ)
  (parser : ActionLabelAnnotationParser τ ε)

/-- The chunk cut at `startFrame`: a full window while there is one. -/
def chunkAt (startFrame : ℕ) :
    Except PreprocessError (Option (ActionLabelVideoDatasetItem φ ε)) :=
  if startFrame + (config.T + 1) ≤ video.frames.length then
    fullChunk config video resize parser startFrame
  else tailChunk config video resize parser startFrame

/-- Where its slice of the annotations ends. -/
def endFrame (startFrame : ℕ) : ℕ := min (startFrame + (config.T + 1)) video.frames.length

/-- How many of its `T` frames are valid. -/
def validLen (startFrame : ℕ) : ℕ := min config.T (video.frames.length - 1 - startFrame)

/-- Every valid frame of the window carries a system action. The label of
frame `f` is the annotation of frame `f + 1`. -/
def SystemOnly (annotations : List FrameAnnotation) (startFrame : ℕ) : Prop :=
  ∀ f, startFrame ≤ f → f < startFrame + validLen config video startFrame →
    ∀ ann ∈ annotations[f + 1]?, ann.systemAction.isKnown = true

variable {config video resize parser}

theorem length_decode {s e : ℕ} {chunk : List φ}
    (h : decode config video resize s e = .ok chunk) :
    chunk.length = min e video.frames.length - s := by
  unfold decode at h
  split at h
  · split at h
    · obtain rfl := Except.ok.inj h
      rw [List.length_map, List.length_drop, List.length_take]
    · cases h
  · obtain rfl := Except.ok.inj h
    rw [List.length_drop, List.length_take]

variable (parser) in
/-- Once its frames are decoded, a window of either kind is `T` frames to
label. -/
theorem chunkAt_decoded {s : ℕ} (hs : s < video.frames.length - 1) {chunk : List φ}
    (h : decode config video resize s (endFrame config video s) = .ok chunk) :
    ∃ frames : List φ, frames.length = config.T ∧
      chunkAt config video resize parser s =
        parser.annotateFrames frames (s + 1) (endFrame config video s)
          (List.replicate (validLen config video s) true ++
            List.replicate (config.T - validLen config video s) false) := by
  have hchunk := length_decode h
  unfold endFrame at h hchunk ⊢
  unfold chunkAt validLen
  by_cases hfull : s + (config.T + 1) ≤ video.frames.length
  · rw [Nat.min_eq_left hfull] at h hchunk ⊢
    refine ⟨chunk.dropLast, ?_, ?_⟩
    · rw [List.length_dropLast, hchunk]
      omega
    · rw [if_pos hfull, Nat.min_eq_left (by omega), Nat.sub_self, List.replicate_zero,
        List.append_nil]
      simp only [fullChunk, h, bind, Except.bind]
  · rw [Nat.min_eq_right (by omega)] at h hchunk ⊢
    have hpad : 0 < config.T - (video.frames.length - 1 - s) := by omega
    obtain ⟨last, hlast⟩ : ∃ last, chunk.getLast? = some last := by
      have hne : chunk ≠ [] := by
        rw [← List.length_pos_iff, hchunk]
        omega
      exact ⟨_, List.getLast?_eq_some_getLast hne⟩
    refine ⟨(chunk ++
      List.replicate (config.T - (video.frames.length - 1 - s)) last).dropLast, ?_, ?_⟩
    · rw [List.length_dropLast, List.length_append, List.length_replicate, hchunk]
      omega
    · rw [if_neg hfull, Nat.min_eq_right (by omega)]
      simp only [tailChunk, h, bind, Except.bind, if_pos hpad, hlast]

/-- A chunk that is returned has been labelled by `annotate_frames`. -/
theorem chunkAt_returns {s : ℕ} (hs : s < video.frames.length - 1)
    {r : Option (ActionLabelVideoDatasetItem φ ε)}
    (h : chunkAt config video resize parser s = .ok r) :
    ∃ (frames : List φ) (validFrameMask : List Bool), frames.length = config.T ∧
      parser.annotateFrames frames (s + 1) (endFrame config video s) validFrameMask = .ok r := by
  cases hdecode : decode config video resize s (endFrame config video s) with
  | ok chunk =>
      obtain ⟨frames, hT, hcall⟩ := chunkAt_decoded parser hs hdecode
      exact ⟨frames, _, hT, hcall.symm.trans h⟩
  | error e =>
      -- the exception of `decode` is that of the whole window
      unfold endFrame at hdecode
      unfold chunkAt at h
      split at h
      · rename_i hfull
        rw [Nat.min_eq_left hfull] at hdecode
        simp only [fullChunk, hdecode, bind, Except.bind] at h
        cases h
      · rename_i htail
        rw [Nat.min_eq_right (by omega)] at hdecode
        simp only [tailChunk, hdecode, bind, Except.bind] at h
        cases h

/-- The annotations of the valid frames. -/
def windowAnnotations (config : VideoProtoDatasetConfig) (video : Video φ)
    (annotations : List FrameAnnotation) (s : ℕ) : List FrameAnnotation :=
  (annotations.drop (s + 1)).take (validLen config video s)

theorem slice_eq {annotations : List FrameAnnotation} (s : ℕ) :
    (annotations.take (endFrame config video s)).drop (s + 1) =
      windowAnnotations config video annotations s := by
  rw [List.drop_take, windowAnnotations]
  congr 1
  unfold endFrame validLen
  omega

theorem length_windowAnnotations {annotations : List FrameAnnotation}
    (hlen : annotations.length = video.frames.length) (s : ℕ) :
    (windowAnnotations config video annotations s).length = validLen config video s := by
  rw [windowAnnotations, List.length_take, List.length_drop, hlen]
  unfold validLen
  omega

theorem getElem?_windowAnnotations {annotations : List FrameAnnotation} {s i : ℕ}
    (hi : i < validLen config video s) :
    (windowAnnotations config video annotations s)[i]? = annotations[s + i + 1]? := by
  rw [windowAnnotations, List.getElem?_take, if_pos hi, List.getElem?_drop, Nat.add_right_comm]

/-- Where nothing is wrong with the sizes and the text annotations, every
window is put or dropped. -/
theorem chunkAt_ok {annotations : List FrameAnnotation}
    (hann : parser.frameAnnotations = some annotations)
    (hlen : annotations.length = video.frames.length)
    (htext : ∀ a ∈ annotations, parser.TextOk a) (hsize : SizeOk config video) {s : ℕ}
    (hs : s < video.frames.length - 1) :
    ∃ r, chunkAt config video resize parser s = .ok r := by
  have hdecode : decode config video resize s (endFrame config video s) = .ok _ :=
    decode_ok hsize s _
  obtain ⟨frames, hT, hcall⟩ := chunkAt_decoded parser hs hdecode
  have hk : (windowAnnotations config video annotations s).length = validLen config video s :=
    length_windowAnnotations hlen s
  rw [← slice_eq] at hk
  obtain ⟨text, hann'⟩ := ActionLabelAnnotationParser.annotateFrames_eq hann htext hk
    (by rw [hT]; exact Nat.min_le_left _ _)
  rw [hT] at hann'
  rw [hcall, hann']
  split
  · exact ⟨_, rfl⟩
  · exact ⟨_, rfl⟩

/-- The slots of the window. -/
theorem chunkAt_slots {annotations : List FrameAnnotation}
    (hann : parser.frameAnnotations = some annotations)
    (hlen : annotations.length = video.frames.length) {s : ℕ}
    (hs : s < video.frames.length - 1) {r : Option (ActionLabelVideoDatasetItem φ ε)}
    (h : chunkAt config video resize parser s = .ok r) :
    r = none ↔ parser.dropChunksWithOnlySystemActions = true ∧
      ((windowAnnotations config video annotations s).map parser.slotOf ++
        List.replicate (config.T - validLen config video s) parser.emptySlot).all
          (·.system) = true := by
  obtain ⟨frames, mask, hT, hcall⟩ := chunkAt_returns hs h
  obtain ⟨slots, text, hloop, hnone, -⟩ :=
    ActionLabelAnnotationParser.annotateFrames_returns hann hcall
  rw [hnone, ActionLabelAnnotationParser.annotateLoop_slots hloop, slice_eq, hT, List.take_zero,
    List.nil_append, List.drop_replicate, length_windowAnnotations hlen, Nat.zero_add]

theorem systemOnly_iff {annotations : List FrameAnnotation}
    (hlen : annotations.length = video.frames.length) {s : ℕ} :
    SystemOnly config video annotations s ↔
      ∀ a ∈ windowAnnotations config video annotations s, a.systemAction.isKnown = true := by
  constructor
  · intro h a ha
    obtain ⟨i, hi⟩ := List.mem_iff_getElem?.mp ha
    have hlt : i < validLen config video s := by
      rw [← length_windowAnnotations hlen s]
      exact (List.getElem?_eq_some_iff.mp hi).1
    rw [getElem?_windowAnnotations hlt] at hi
    exact h (s + i) (Nat.le_add_right s i) (Nat.add_lt_add_left hlt s) a hi
  · intro h f hle hlt a ha
    obtain ⟨i, rfl⟩ := Nat.exists_eq_add_of_le hle
    rw [← getElem?_windowAnnotations (Nat.lt_of_add_lt_add_left hlt)] at ha
    exact h a (List.mem_of_getElem? ha)

theorem all_system_iff {annotations : List FrameAnnotation} {pad : ℕ} :
    (annotations.map parser.slotOf ++ List.replicate pad parser.emptySlot).all (·.system) = true ↔
      (∀ a ∈ annotations, a.systemAction.isKnown = true) ∧ pad = 0 := by
  rw [List.all_append, Bool.and_eq_true, List.all_map, List.all_eq_true]
  apply and_congr
  · simp only [Function.comp_apply, slotOf_eq]
  · cases pad with
    | zero => simp
    | succ pad => simp [List.replicate_succ, ActionLabelAnnotationParser.emptySlot]

/-- A parser for two annotations with the same system action. -/
def systemParser : ActionLabelAnnotationParser Unit Unit where
  actionMapping := {}
  dropChunksWithOnlySystemActions := true
  textAnnotationModelVersion := []
  textTokenizerName := none
  text := { zeros := (), reshape := fun _ => none, expand := fun _ _ => none }
  envSubenvEncoding := -1
  frameAnnotations := some (List.replicate 2 { systemAction := { isKnown := true } })

def twoFrameChunks : VideoProtoDatasetConfig where
  T := 2
  shuffle := false

end Chunking

end P2PRdt.Data

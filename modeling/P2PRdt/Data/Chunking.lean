import P2PRdt.Data.Annotation

/-!
# Cutting a video into chunks

`_preprocess_example`: the start offset, the loop over the full windows and
the padded tail. The frames of the video are abstract. The loop has a fuel
argument, and `n_frames` of it is enough.
-/

namespace P2PRdt.Data

variable {φ τ ε : Type}

/-- A decoded video whose frames have the size `size`. -/
structure Video (φ : Type) where
  frames : List φ
  size : ℕ × ℕ

structure VideoProtoDatasetConfig where
  frameHeight : ℕ := 192
  frameWidth : ℕ := 192
  T : ℕ := 10
  shuffle : Bool := true
  loadVideoName : Option String := none

/-- `resize_image_for_model` for the configured size. -/
abbrev Resize (φ : Type) := φ → φ

/-- How far `_preprocess_example` got: the chunks it has put, and how it
ended. `fuel` is the end of a run that was not followed to its end. -/
inductive Ending where
  | done
  | raised (e : PreprocessError)
  | fuel
deriving DecidableEq, Repr

structure Outcome (φ ε : Type) where
  chunks : List (ActionLabelVideoDatasetItem φ ε)
  ending : Ending

namespace Chunking

variable (config : VideoProtoDatasetConfig) (video : Video φ) (resize : Resize φ)
  (parser : ActionLabelAnnotationParser τ ε)

/-- The offsets that `rng.randint(0, cap + 1)` can return, or 0. -/
def Drawable (nFrames startFrame0 : ℕ) : Prop :=
  if config.shuffle then
    let maxStart := nFrames - (config.T + 1)
    let cap := min maxStart (config.T - 1)
    startFrame0 < cap + 1
  else startFrame0 = 0

/-- `decoder[start:end]`, resized where the size is not the configured one. -/
def decode (startFrame endIdx : ℕ) : Except PreprocessError (List φ) :=
  let frameChunk := (video.frames.take endIdx).drop startFrame
  if video.size ≠ (config.frameHeight, config.frameWidth) then
    if config.loadVideoName = some "video.mp4" then .ok (frameChunk.map resize)
    else .error .resize
  else .ok frameChunk

/-- A full window: `T` frames and the one after them, whose annotation is the
last label. -/
def fullChunk (startFrame : ℕ) :
    Except PreprocessError (Option (ActionLabelVideoDatasetItem φ ε)) := do
  let endIdx := startFrame + (config.T + 1)
  let frameChunk ← decode config video resize startFrame endIdx
  let alignedFrames := frameChunk.dropLast
  let validMask := List.replicate config.T true
  parser.annotateFrames alignedFrames (startFrame + 1) endIdx validMask

/-- The last window, filled up with its last frame. -/
def tailChunk (startFrame : ℕ) :
    Except PreprocessError (Option (ActionLabelVideoDatasetItem φ ε)) := do
  let nFrames := video.frames.length
  let validLen := nFrames - 1 - startFrame
  let frameChunk ← decode config video resize startFrame nFrames
  let padLen := config.T - validLen
  let padded ←
    if padLen > 0 then
      match frameChunk.getLast? with
      | some lastFrame => .ok (frameChunk ++ List.replicate padLen lastFrame)
      | none => .error .index
    else .ok frameChunk
  let alignedFrames := padded.dropLast
  let validMask := List.replicate validLen true ++ List.replicate (config.T - validLen) false
  parser.annotateFrames alignedFrames (startFrame + 1) nFrames validMask

/-- `example is not None` and the put. -/
def emit (chunks : List (ActionLabelVideoDatasetItem φ ε)) :
    Option (ActionLabelVideoDatasetItem φ ε) → List (ActionLabelVideoDatasetItem φ ε)
  | some item => chunks ++ [item]
  | none => chunks

/-- The part after the main loop. -/
def tail (startFrame : ℕ) (chunks : List (ActionLabelVideoDatasetItem φ ε)) : Outcome φ ε :=
  if startFrame < video.frames.length - 1 then
    match tailChunk config video resize parser startFrame with
    | .ok item => ⟨emit chunks item, .done⟩
    | .error e => ⟨chunks, .raised e⟩
  else ⟨chunks, .done⟩

/-- The main loop and what follows it. -/
def loop : ℕ → ℕ → List (ActionLabelVideoDatasetItem φ ε) → Outcome φ ε
  | 0, _, chunks => ⟨chunks, .fuel⟩
  | fuel + 1, startFrame, chunks =>
      if startFrame + (config.T + 1) ≤ video.frames.length then
        match fullChunk config video resize parser startFrame with
        | .ok item => loop fuel (startFrame + config.T) (emit chunks item)
        | .error e => ⟨chunks, .raised e⟩
      else tail config video resize parser startFrame chunks

def preprocessExample (fuel startFrame0 : ℕ) : Outcome φ ε :=
  if video.frames.length < 2 then ⟨[], .done⟩
  else loop config video resize parser fuel startFrame0 []

/-! ## What the chunks cover -/

/-- The frames as they are put into the chunks. -/
def shown : List φ :=
  if video.size = (config.frameHeight, config.frameWidth) then video.frames
  else video.frames.map resize

/-- The frames and labels of the valid slots of a chunk, in order. -/
def covered (item : ActionLabelVideoDatasetItem φ ε) : List (φ × Slot) :=
  ((item.frames.zip item.slots).zip item.validFrameMask).filterMap fun (slot, valid) =>
    if valid then some slot else none

/-- A chunk over the frames `s, …, s + k - 1`: those frames with the labels of
the annotations one later, and then the last frame with empty slots. -/
structure Window (annotations : List FrameAnnotation) (s k : ℕ)
    (item : ActionLabelVideoDatasetItem φ ε) : Prop where
  pos : 0 < k
  le : k ≤ config.T
  fits : s + k < video.frames.length
  frames : ∃ last, (shown config video resize).getLast? = some last ∧
    item.frames = ((shown config video resize).drop s).take k ++
      List.replicate (config.T - k) last
  slots : item.slots = ((annotations.drop (s + 1)).take k).map parser.slotOf ++
    List.replicate (config.T - k) parser.emptySlot
  mask : item.validFrameMask = List.replicate k true ++ List.replicate (config.T - k) false

variable {config video resize parser}

@[simp] theorem length_shown (config : VideoProtoDatasetConfig) (video : Video φ)
    (resize : Resize φ) : (shown config video resize).length = video.frames.length := by
  unfold shown
  split
  · rfl
  · exact List.length_map _

/-- The frames have the configured size, or may be resized. -/
def SizeOk (config : VideoProtoDatasetConfig) (video : Video φ) : Prop :=
  video.size = (config.frameHeight, config.frameWidth) ∨
    config.loadVideoName = some "video.mp4"

theorem decode_ok (h : SizeOk config video) (s e : ℕ) :
    decode config video resize s e = .ok (((shown config video resize).take e).drop s) := by
  unfold decode shown
  by_cases hsize : video.size = (config.frameHeight, config.frameWidth)
  · rw [if_neg (not_not.mpr hsize), if_pos hsize]
  · rw [if_pos hsize, if_neg hsize, if_pos (h.resolve_left hsize), List.map_drop, List.map_take]

theorem dropLast_take_succ {α : Type*} {l : List α} {m : ℕ} (h : m < l.length) :
    (l.take (m + 1)).dropLast = l.take m := by
  rw [List.dropLast_eq_take, List.length_take, List.take_take]
  congr 1
  omega

/-- Padding with the last element and dropping one pads what is before it. -/
theorem dropLast_append_replicate {α : Type*} {l : List α} {k m : ℕ} {x : α}
    (hl : l.length = k + 1) (hx : l.getLast? = some x) (hm : 0 < m) :
    (l ++ List.replicate m x).dropLast = l.take k ++ List.replicate m x := by
  obtain ⟨init, rfl⟩ := List.getLast?_eq_some_iff.mp hx
  obtain ⟨m, rfl⟩ : ∃ j, m = j + 1 := ⟨m - 1, by omega⟩
  have hinit : init.length = k := by simpa using hl
  rw [List.replicate_succ', ← List.append_assoc, List.dropLast_concat, ← hinit,
    List.take_left', ← List.replicate_succ', List.replicate_succ, List.append_assoc]
  · rfl
  · rfl

theorem exists_last (config : VideoProtoDatasetConfig) (video : Video φ) (resize : Resize φ)
    (hn : 0 < video.frames.length) :
    ∃ last, (shown config video resize).getLast? = some last := by
  have hne : shown config video resize ≠ [] := by
    rw [← List.length_pos_iff, length_shown]
    exact hn
  exact ⟨_, List.getLast?_eq_some_getLast hne⟩

section Windows

variable {annotations : List FrameAnnotation}
  (hann : parser.frameAnnotations = some annotations)
  (hlen : annotations.length = video.frames.length)
  (hdrop : parser.dropChunksWithOnlySystemActions = false)
  (htext : ∀ a ∈ annotations, parser.TextOk a) (hsize : SizeOk config video)

include hann hlen hdrop htext hsize

theorem fullChunk_window (hT : 0 < config.T) {s : ℕ}
    (hs : s + (config.T + 1) ≤ video.frames.length) :
    ∃ item, fullChunk config video resize parser s = .ok (some item) ∧
      Window config video resize parser annotations s config.T item := by
  have hshown := length_shown config video resize
  have haligned : (((shown config video resize).take (s + (config.T + 1))).drop s).dropLast =
      ((shown config video resize).drop s).take config.T := by
    rw [List.drop_take, Nat.add_sub_cancel_left]
    apply dropLast_take_succ
    rw [List.length_drop, hshown]
    omega
  have hframes : (((shown config video resize).drop s).take config.T).length = config.T := by
    rw [List.length_take, List.length_drop, hshown]
    omega
  have hslice : (annotations.take (s + (config.T + 1))).drop (s + 1) =
      (annotations.drop (s + 1)).take config.T := by
    rw [List.drop_take, show s + (config.T + 1) - (s + 1) = config.T by omega]
  have hk : ((annotations.take (s + (config.T + 1))).drop (s + 1)).length = config.T := by
    rw [hslice, List.length_take, List.length_drop, hlen]
    omega
  obtain ⟨text, hchunk⟩ := ActionLabelAnnotationParser.annotateFrames_ok hann hdrop htext hk
    hframes.ge
  rw [hframes, Nat.sub_self] at hchunk
  simp only [List.replicate_zero, List.append_nil] at hchunk
  have hrun : fullChunk config video resize parser s =
      parser.annotateFrames (((shown config video resize).drop s).take config.T) (s + 1)
        (s + (config.T + 1)) (List.replicate config.T true) := by
    simp only [fullChunk, decode_ok hsize, bind, Except.bind, haligned]
  obtain ⟨last, hlast⟩ := exists_last config video resize
    (Nat.lt_of_lt_of_le (Nat.succ_pos _) hs)
  refine ⟨_, hrun.trans hchunk, hT, Nat.le_refl _, by omega, ⟨last, hlast, ?_⟩, ?_, ?_⟩
  · rw [Nat.sub_self, List.replicate_zero, List.append_nil]
  · rw [Nat.sub_self, List.replicate_zero, List.append_nil, hslice]
  · rw [Nat.sub_self, List.replicate_zero, List.append_nil]

theorem tailChunk_window {s : ℕ} (hs : s < video.frames.length - 1)
    (hend : video.frames.length < s + (config.T + 1)) :
    ∃ item, tailChunk config video resize parser s = .ok (some item) ∧
      Window config video resize parser annotations s (video.frames.length - 1 - s) item := by
  have hshown := length_shown config video resize
  obtain ⟨k, hk⟩ : ∃ k, video.frames.length - 1 - s = k := ⟨_, rfl⟩
  obtain ⟨last, hlast⟩ := exists_last config video resize
    (Nat.lt_of_le_of_lt (Nat.zero_le s) (by omega))
  have hchunk : ((shown config video resize).take video.frames.length).drop s =
      (shown config video resize).drop s := by
    rw [← hshown, List.take_length]
  have hgetLast : ((shown config video resize).drop s).getLast? = some last := by
    rw [List.getLast?_drop, hshown, if_neg (by omega), hlast]
  have hpad : 0 < config.T - k := by omega
  have haligned : ((shown config video resize).drop s ++
      List.replicate (config.T - k) last).dropLast =
      ((shown config video resize).drop s).take k ++ List.replicate (config.T - k) last := by
    apply dropLast_append_replicate _ hgetLast hpad
    rw [List.length_drop, hshown]
    omega
  have hslice : (annotations.take video.frames.length).drop (s + 1) =
      (annotations.drop (s + 1)).take k := by
    rw [← hlen, List.take_length, List.take_of_length_le]
    rw [List.length_drop]
    omega
  have hklen : ((annotations.take video.frames.length).drop (s + 1)).length = k := by
    rw [hslice, List.length_take, List.length_drop, hlen]
    omega
  have hframes : (((shown config video resize).drop s).take k ++
      List.replicate (config.T - k) last).length = config.T := by
    rw [List.length_append, List.length_take, List.length_drop, hshown, List.length_replicate]
    omega
  obtain ⟨text, hitem⟩ := ActionLabelAnnotationParser.annotateFrames_ok hann hdrop htext hklen
    (by rw [hframes]; omega)
  rw [hframes] at hitem
  rw [hk]
  have hrun : tailChunk config video resize parser s =
      parser.annotateFrames
        (((shown config video resize).drop s).take k ++ List.replicate (config.T - k) last)
        (s + 1) video.frames.length
        (List.replicate k true ++ List.replicate (config.T - k) false) := by
    simp only [tailChunk, decode_ok hsize, bind, Except.bind, hchunk, hk, if_pos hpad, hgetLast,
      haligned]
  refine ⟨_, hrun.trans hitem, by omega, by omega, by omega, ⟨last, hlast, rfl⟩, ?_, rfl⟩
  rw [hslice]

end Windows

/-! ## Coverage -/

/-- Every frame but the last with the label of the annotation after it. -/
def labelled (config : VideoProtoDatasetConfig) (video : Video φ) (resize : Resize φ)
    (parser : ActionLabelAnnotationParser τ ε) (annotations : List FrameAnnotation) :
    List (φ × Slot) :=
  (shown config video resize).zip (annotations.tail.map parser.slotOf)

theorem length_labelled {annotations : List FrameAnnotation}
    (hlen : annotations.length = video.frames.length) :
    (labelled config video resize parser annotations).length = video.frames.length - 1 := by
  rw [labelled, List.length_zip, length_shown, List.length_map, List.length_tail, hlen]
  exact Nat.min_eq_right (Nat.sub_le _ _)

theorem filterMap_zip_true {α : Type*} {l : List α} {k : ℕ} (h : l.length = k) :
    (l.zip (List.replicate k true)).filterMap
      (fun (x, valid) => if valid then some x else none) = l := by
  subst h
  induction l with
  | nil => rfl
  | cons x l ih =>
      rw [List.length_cons, List.replicate_succ, List.zip_cons_cons, List.filterMap_cons, ih]
      rfl

theorem filterMap_zip_false {α : Type*} (l : List α) (k : ℕ) :
    (l.zip (List.replicate k false)).filterMap
      (fun (x, valid) => if valid then some x else none) = [] := by
  rw [List.filterMap_eq_nil_iff]
  rintro ⟨x, valid⟩ hmem
  rw [List.eq_of_mem_replicate (List.of_mem_zip hmem).2]
  rfl

theorem Window.covered {annotations : List FrameAnnotation} {s k : ℕ}
    {item : ActionLabelVideoDatasetItem φ ε}
    (h : Window config video resize parser annotations s k item)
    (hlen : annotations.length = video.frames.length) :
    covered item = ((labelled config video resize parser annotations).drop s).take k := by
  rcases h.frames with ⟨last, -, hframes⟩
  have hfits := h.fits
  have hA : (((shown config video resize).drop s).take k).length = k := by
    rw [List.length_take, List.length_drop, length_shown]
    omega
  have hB : (((annotations.drop (s + 1)).take k).map parser.slotOf).length = k := by
    rw [List.length_map, List.length_take, List.length_drop, hlen]
    omega
  have hAB : ((((shown config video resize).drop s).take k).zip
      (((annotations.drop (s + 1)).take k).map parser.slotOf)).length = k := by
    rw [List.length_zip, hA, hB, Nat.min_self]
  rw [Chunking.covered, hframes, h.slots, h.mask, List.zip_append (hA.trans hB.symm),
    List.zip_append (hAB.trans List.length_replicate.symm), List.filterMap_append,
    filterMap_zip_true hAB, filterMap_zip_false, List.append_nil, labelled, Nat.add_comm s 1,
    ← List.drop_drop, List.drop_one, List.map_take, List.map_drop]
  simp only [List.zip, List.drop_zipWith, List.take_zipWith]

/-- The chunks put by the loop from frame `s` on. -/
theorem loop_windows {annotations : List FrameAnnotation}
    (hann : parser.frameAnnotations = some annotations)
    (hlen : annotations.length = video.frames.length)
    (hdrop : parser.dropChunksWithOnlySystemActions = false)
    (htext : ∀ a ∈ annotations, parser.TextOk a) (hsize : SizeOk config video)
    (hT : 0 < config.T) {fuel s : ℕ} (hs : s < video.frames.length)
    (hfuel : video.frames.length ≤ s + fuel) (chunks : List (ActionLabelVideoDatasetItem φ ε)) :
    ∃ new, loop config video resize parser fuel s chunks = ⟨chunks ++ new, .done⟩ ∧
      (∀ item ∈ new, ∃ s k, Window config video resize parser annotations s k item) ∧
      new.flatMap covered = (labelled config video resize parser annotations).drop s := by
  induction fuel generalizing s chunks with
  | zero => omega
  | succ fuel ih =>
      unfold loop
      by_cases hfull : s + (config.T + 1) ≤ video.frames.length
      · obtain ⟨item, hrun, hwin⟩ := fullChunk_window hann hlen hdrop htext hsize hT hfull
        rw [if_pos hfull, hrun]
        obtain ⟨new, hloop, hwins, hcov⟩ := ih (s := s + config.T) (by omega) (by omega)
          (emit chunks (some item))
        refine ⟨item :: new, ?_, ?_, ?_⟩
        · show loop config video resize parser fuel (s + config.T) _ = _
          rw [hloop, emit, List.append_assoc]
          rfl
        · intro c hc
          rcases List.mem_cons.mp hc with rfl | hc
          · exact ⟨s, config.T, hwin⟩
          · exact hwins c hc
        · rw [List.flatMap_cons, hcov, hwin.covered hlen, ← List.drop_drop,
            List.take_append_drop]
      · rw [if_neg hfull]
        unfold tail
        by_cases htail : s < video.frames.length - 1
        · obtain ⟨item, hrun, hwin⟩ := tailChunk_window hann hlen hdrop htext hsize htail
            (not_le.mp hfull)
          rw [if_pos htail, hrun]
          refine ⟨[item], rfl, ?_, ?_⟩
          · intro c hc
            obtain rfl := List.mem_singleton.mp hc
            exact ⟨s, _, hwin⟩
          · rw [List.flatMap_singleton, hwin.covered hlen, List.take_of_length_le]
            rw [List.length_drop, length_labelled hlen]
        · rw [if_neg htail]
          refine ⟨[], by rw [List.append_nil], by simp, ?_⟩
          rw [List.drop_of_length_le (by rw [length_labelled hlen]; omega)]
          rfl

/-- A frame of a pair in `labelled` and the annotation that its label is from. -/
theorem labelled_drop {annotations : List FrameAnnotation}
    (hlen : annotations.length = video.frames.length) (s : ℕ) :
    ((labelled config video resize parser annotations).drop s).map
        (fun p => (some p.1, some p.2)) =
      (List.range' s (video.frames.length - 1 - s)).map fun f =>
        ((shown config video resize)[f]?, annotations[f + 1]?.map parser.slotOf) := by
  apply List.ext_getElem
  · rw [List.length_map, List.length_drop, length_labelled hlen, List.length_map,
      List.length_range']
  · intro i h₁ h₂
    rw [List.length_map, List.length_range'] at h₂
    have hshown : s + i < (shown config video resize).length := by
      rw [length_shown]
      omega
    have hann : s + i + 1 < annotations.length := by
      rw [hlen]
      omega
    simp only [List.getElem_map, List.getElem_drop, labelled, List.getElem_zip,
      List.getElem_tail, List.getElem_range', Nat.one_mul, List.getElem?_eq_getElem hshown,
      List.getElem?_eq_getElem hann, Option.map_some]

/-- What every chunk looks like. -/
structure ChunkOk (config : VideoProtoDatasetConfig) (video : Video φ) (resize : Resize φ)
    (item : ActionLabelVideoDatasetItem φ ε) : Prop where
  length_frames : item.frames.length = config.T
  length_slots : item.slots.length = config.T
  mask : ∃ k, 0 < k ∧ k ≤ config.T ∧
    item.validFrameMask = List.replicate k true ++ List.replicate (config.T - k) false
  padding : ∀ i < config.T, item.validFrameMask[i]? = some false →
    item.frames[i]? = (shown config video resize).getLast? ∧
      ∀ slot ∈ item.slots[i]?, slot.user = false ∧ slot.system = false
  exclusive : ∀ slot ∈ item.slots, ¬ (slot.user = true ∧ slot.system = true)

/-- Whose action a label is, and what the masks say about it. -/
theorem slotOf_eq (a : FrameAnnotation) : parser.slotOf a =
    { action := parser.tensorOf
        (if a.systemAction.isKnown then a.systemAction
          else if a.userAction.isKnown then a.userAction else {})
      user := !a.systemAction.isKnown && a.userAction.isKnown
      system := a.systemAction.isKnown } := by
  unfold ActionLabelAnnotationParser.slotOf
  split
  · rename_i hs
    simp [hs]
  · rename_i hs
    split
    · rename_i hu
      simp [hs, hu]
    · rename_i hu
      simp [hs, hu]

theorem Window.chunkOk {annotations : List FrameAnnotation} {s k : ℕ}
    {item : ActionLabelVideoDatasetItem φ ε}
    (h : Window config video resize parser annotations s k item)
    (hlen : annotations.length = video.frames.length) : ChunkOk config video resize item := by
  rcases h.frames with ⟨last, hlast, hframes⟩
  have hfits := h.fits
  have hle := h.le
  have hA : (((shown config video resize).drop s).take k).length = k := by
    rw [List.length_take, List.length_drop, length_shown]
    omega
  have hB : (((annotations.drop (s + 1)).take k).map parser.slotOf).length = k := by
    rw [List.length_map, List.length_take, List.length_drop, hlen]
    omega
  refine ⟨?_, ?_, ⟨k, h.pos, hle, h.mask⟩, fun i hi hmask => ?_, fun slot hslot => ?_⟩
  · rw [hframes, List.length_append, hA, List.length_replicate]
    omega
  · rw [h.slots, List.length_append, hB, List.length_replicate]
    omega
  · have hki : k ≤ i := by
      by_contra hlt
      rw [h.mask, List.getElem?_append_left (by rw [List.length_replicate]; omega),
        List.getElem?_replicate, if_pos (by omega)] at hmask
      cases hmask
    refine ⟨?_, fun slot hslot => ?_⟩
    · rw [hframes, List.getElem?_append_right (by rw [hA]; exact hki), hA,
        List.getElem?_replicate, if_pos (by omega), hlast]
    · rw [h.slots, List.getElem?_append_right (by rw [hB]; exact hki), hB] at hslot
      rw [List.eq_of_mem_replicate (List.mem_of_getElem? hslot)]
      exact ⟨rfl, rfl⟩
  · rw [h.slots] at hslot
    rcases List.mem_append.mp hslot with hmem | hmem
    · obtain ⟨a, -, rfl⟩ := List.mem_map.mp hmem
      rw [slotOf_eq]
      rintro ⟨hu, hs⟩
      rw [show a.systemAction.isKnown = true from hs] at hu
      cases hu
    · rw [List.eq_of_mem_replicate hmem]
      simp [ActionLabelAnnotationParser.emptySlot]

/-- A parser for two annotations, the second with a text annotation of the
given duration and an embedding of shape `[1, 1]`. -/
def twoFrameParser (duration : ℚ) : ActionLabelAnnotationParser (List ℚ) (List ℚ) where
  actionMapping := {}
  dropChunksWithOnlySystemActions := false
  textAnnotationModelVersion := ["v"]
  textTokenizerName := some "gemma"
  text :=
    { zeros := [0]
      reshape := fun t => if t.values.length = 1 then some t.values else none
      expand := fun embedding num => some (List.replicate num embedding) }
  envSubenvEncoding := -1
  frameAnnotations := some
    [{}, { userAction := { isKnown := true, keys := ["w"] }
           frameTextAnnotations := [⟨"v", duration, fun _ _ => ⟨[1, 1], [2]⟩⟩] }]

def oneFrameChunks : VideoProtoDatasetConfig where
  T := 1

theorem twoFrameParser_textOk {duration : ℚ} (hpos : 0 < duration) :
    ∀ anns ∈ (twoFrameParser duration).frameAnnotations, ∀ a ∈ anns,
      (twoFrameParser duration).TextOk a := by
  rintro _ ⟨⟩ a ha tokenizer t - hfind -
  rcases List.mem_cons.mp ha with rfl | ha
  · cases hfind
  · obtain rfl := List.mem_singleton.mp ha
    obtain rfl := Option.some.inj hfind
    exact ⟨hpos, [2], rfl, fun num => ⟨_, rfl, List.length_replicate⟩⟩

end Chunking

end P2PRdt.Data

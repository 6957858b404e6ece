import P2PRdt.Data.ActionMapping

/-!
# Labelling the frames of a chunk

`ActionLabelAnnotationParser.annotate_frames`. The annotations of a slice of
the video are written into the first slots of a chunk: the action tensor, the
user and system masks, and the text embeddings, which reach over as many slots
as their duration says. What PyTorch does with an embedding (`reshape`,
`expand`, and the broadcast into the slots) is a parameter.
-/

namespace P2PRdt.Data

/-! ## Annotations -/

structure LowLevelAction where
  isKnown : Bool := false
  keys : List String := []
  buttonsDown : List String := []
  mouseDeltaPx : ℤ × ℤ := (0, 0)
deriving DecidableEq, Repr

/-- A precomputed embedding as it is stored; the shape `[]` means that there is
none. -/
structure FloatTensor where
  shape : List ℤ := []
  values : List ℚ := []
deriving DecidableEq, Repr

structure FrameTextAnnotation where
  version : String
  duration : ℚ
  /-- `text_embedding_dict[version].text_embeddings[name]` -/
  embedding : String → String → FloatTensor

structure FrameAnnotation where
  userAction : LowLevelAction := {}
  systemAction : LowLevelAction := {}
  frameTextAnnotations : List FrameTextAnnotation := []

/-- The exceptions of `_preprocess_example`: the asserts on the duration, on
the masks and on the size of a frame, an index that is out of range, and an
error of PyTorch. -/
inductive PreprocessError where
  | duration
  | masks
  | resize
  | index
  | torch
deriving DecidableEq, Repr

/-- The tensors of text embeddings, one slot at a time. -/
structure TextTensors (τ ε : Type) where
  zeros : ε
  reshape : FloatTensor → Option τ
  expand : τ → ℕ → Option (List ε)

structure ActionLabelAnnotationParser (τ ε : Type) where
  actionMapping : UniversalAutoregressiveActionMappingConfig
  dropChunksWithOnlySystemActions : Bool
  textAnnotationModelVersion : List String
  textTokenizerName : Option String
  text : TextTensors τ ε
  envSubenvEncoding : ℤ
  frameAnnotations : Option (List FrameAnnotation)

/-- One slot of `action_annotations`, `user_action_mask` and
`system_action_mask`. -/
structure Slot where
  action : StructuredAction (List ℕ) ℕ
  user : Bool
  system : Bool
deriving DecidableEq, Repr

structure ActionLabelVideoDatasetItem (φ ε : Type) where
  frames : List φ
  slots : List Slot
  envSubenvEncoding : List ℤ
  textEmbeddings : List ε
  validFrameMask : List Bool

namespace ActionLabelAnnotationParser

variable {φ τ ε : Type} (parser : ActionLabelAnnotationParser τ ε)

/-! ## get_repeated_text_embedding -/

/-- `int(duration * 20)` -/
def lastFrames (duration : ℚ) : ℕ := ⌊duration * 20⌋.toNat

/-- The rows `idx : idx + num` are overwritten by `rows`. -/
def paint (textEmbeddings : List ε) (idx num : ℕ) (rows : List ε) : List ε :=
  textEmbeddings.take idx ++ rows ++ textEmbeddings.drop (idx + num)

/-- Only the first text annotation with an accepted version counts. -/
def getRepeatedTextEmbedding (tokenizer : String) (textEmbeddings : List ε) (idx nFrames : ℕ) :
    List FrameTextAnnotation → Except PreprocessError (List ε)
  | [] => .ok textEmbeddings
  | ann :: rest =>
      if ann.version ∈ parser.textAnnotationModelVersion then
        let stored := ann.embedding ann.version tokenizer
        if stored.shape = [] then .ok textEmbeddings
        else
          match parser.text.reshape stored with
          | none => .error .torch
          | some embedding =>
              if ann.duration ≤ 0 then .error .duration
              else
                let num :=
                  if idx + lastFrames ann.duration > nFrames then nFrames - idx
                  else lastFrames ann.duration
                match parser.text.expand embedding num with
                | none => .error .torch
                | some rows => .ok (paint textEmbeddings idx num rows)
      else getRepeatedTextEmbedding tokenizer textEmbeddings idx nFrames rest

/-- The call of `get_repeated_text_embedding` for one annotation. -/
def annotateText (textEmbeddings : List ε) (i nFrames : ℕ) (ann : FrameAnnotation) :
    Except PreprocessError (List ε) :=
  match parser.textTokenizerName with
  | some tokenizer =>
      parser.getRepeatedTextEmbedding tokenizer textEmbeddings i nFrames
        ann.frameTextAnnotations
  | none => .ok textEmbeddings

/-! ## annotate_frames -/

def emptySlot : Slot where
  action :=
    { keys := List.replicate parser.actionMapping.maxKeys 0
      mouseButtons := List.replicate parser.actionMapping.maxMouseKeys 0
      mouseDeltaX := 0
      mouseDeltaY := 0 }
  user := false
  system := false

def tensorOf (action : LowLevelAction) : StructuredAction (List ℕ) ℕ :=
  actionToTensor parser.actionMapping action.keys action.buttonsDown action.mouseDeltaPx

/-- The body of the loop for one annotation: a known system action wins over
a known user action. -/
def slotOf (ann : FrameAnnotation) : Slot :=
  if ann.systemAction.isKnown then
    ⟨parser.tensorOf ann.systemAction, false, true⟩
  else if ann.userAction.isKnown then
    ⟨parser.tensorOf ann.userAction, true, false⟩
  else ⟨parser.tensorOf {}, false, false⟩

/-- The loop over the annotations of the slice, at slot `i`. -/
def annotateLoop (nFrames : ℕ) :
    List FrameAnnotation → ℕ → List Slot → List ε → Except PreprocessError (List Slot × List ε)
  | [], _, slots, textEmbeddings => .ok (slots, textEmbeddings)
  | ann :: rest, i, slots, textEmbeddings => do
      let textEmbeddings ← parser.annotateText textEmbeddings i nFrames ann
      if i < slots.length then
        annotateLoop nFrames rest (i + 1) (slots.set i (parser.slotOf ann))
          textEmbeddings
      else .error .index

/-- `none` is a chunk that is dropped. -/
def annotateFrames (frames : List φ) (startFrame endFrame : ℕ) (validFrameMask : List Bool) :
    Except PreprocessError (Option (ActionLabelVideoDatasetItem φ ε)) :=
  match parser.frameAnnotations with
  | none => .ok none
  | some annotations => do
      let nFrames := frames.length
      let (slots, textEmbeddings) ← parser.annotateLoop nFrames
        ((annotations.take endFrame).drop startFrame) 0
        (List.replicate nFrames parser.emptySlot) (List.replicate nFrames parser.text.zeros)
      if parser.dropChunksWithOnlySystemActions && slots.all (·.system) then
        return none
      if (validFrameMask.zip slots).all fun (valid, s) => valid || !(s.user || s.system) then
        return some
          { frames := frames
            slots := slots
            envSubenvEncoding := List.replicate nFrames parser.envSubenvEncoding
            textEmbeddings := textEmbeddings
            validFrameMask := validFrameMask }
      else .error .masks

/-! ## When the labelling goes through -/

/-- The first accepted text annotation of a frame, if its embedding is stored,
has a positive duration and an embedding that fits the configured shape. -/
def TextOk (ann : FrameAnnotation) : Prop :=
  ∀ tokenizer t, parser.textTokenizerName = some tokenizer →
    ann.frameTextAnnotations.find? (·.version ∈ parser.textAnnotationModelVersion) = some t →
    (t.embedding t.version tokenizer).shape ≠ [] →
    0 < t.duration ∧ ∃ embedding, parser.text.reshape (t.embedding t.version tokenizer) =
      some embedding ∧ ∀ num, ∃ rows, parser.text.expand embedding num = some rows ∧
        rows.length = num

variable {parser}

theorem length_paint {text rows : List ε} {idx num : ℕ} (hrows : rows.length = num)
    (hle : idx + num ≤ text.length) : (paint text idx num rows).length = text.length := by
  simp only [paint, List.length_append, List.length_take, List.length_drop, hrows]
  omega

theorem getRepeatedTextEmbedding_ok {tokenizer : String} {text : List ε} {idx : ℕ}
    (hidx : idx ≤ text.length) (htok : parser.textTokenizerName = some tokenizer)
    {ann : FrameAnnotation} (hok : parser.TextOk ann) :
    ∃ text', parser.getRepeatedTextEmbedding tokenizer text idx text.length
      ann.frameTextAnnotations = .ok text' ∧ text'.length = text.length := by
  have hfind := fun t => hok tokenizer t htok
  generalize ann.frameTextAnnotations = annotations at hfind ⊢
  induction annotations with
  | nil => exact ⟨text, rfl, rfl⟩
  | cons t rest ih =>
      unfold getRepeatedTextEmbedding
      by_cases hver : t.version ∈ parser.textAnnotationModelVersion
      · rw [if_pos hver]
        dsimp only
        by_cases hshape : (t.embedding t.version tokenizer).shape = []
        · rw [if_pos hshape]
          exact ⟨text, rfl, rfl⟩
        · have hfirst : (t :: rest).find? (·.version ∈ parser.textAnnotationModelVersion) =
              some t := by
            simp [hver]
          obtain ⟨hpos, embedding, hreshape, hexpand⟩ := hfind t hfirst hshape
          rw [if_neg hshape, hreshape]
          dsimp only
          rw [if_neg (not_le.mpr hpos)]
          obtain ⟨rows, hrows, hlen⟩ := hexpand
            (if idx + lastFrames t.duration > text.length then text.length - idx
              else lastFrames t.duration)
          rw [hrows]
          refine ⟨_, rfl, length_paint hlen ?_⟩
          split <;> omega
      · rw [if_neg hver]
        refine ih fun t' hfind' => hfind t' ?_
        rw [List.find?_cons_of_neg (by simpa using hver)]
        exact hfind'

theorem annotateText_ok {text : List ε} {i : ℕ} (hi : i ≤ text.length)
    {ann : FrameAnnotation} (hok : parser.TextOk ann) :
    ∃ text', parser.annotateText text i text.length ann = .ok text' ∧
      text'.length = text.length := by
  unfold annotateText
  cases htok : parser.textTokenizerName with
  | none => exact ⟨text, rfl, rfl⟩
  | some tokenizer => exact getRepeatedTextEmbedding_ok hi htok hok

/-- The loop writes the slots of the slice one after the other. -/
theorem annotateLoop_ok {annotations : List FrameAnnotation}
    (hok : ∀ a ∈ annotations, parser.TextOk a) (i : ℕ) (slots : List Slot) (text : List ε)
    (hlen : i + annotations.length ≤ slots.length) (htext : text.length = slots.length) :
    ∃ text', parser.annotateLoop slots.length annotations i slots text =
        .ok (slots.take i ++ annotations.map parser.slotOf ++
          slots.drop (i + annotations.length), text') ∧ text'.length = slots.length := by
  induction annotations generalizing i slots text with
  | nil =>
      refine ⟨text, ?_, htext⟩
      simp [annotateLoop]
  | cons a rest ih =>
      have hi : i < slots.length := by
        rw [List.length_cons] at hlen
        omega
      obtain ⟨text₁, htext₁, hlen₁⟩ := annotateText_ok (hi.le.trans_eq htext.symm)
        (hok a (List.mem_cons_self ..))
      rw [htext] at htext₁ hlen₁
      have hset : (slots.set i (parser.slotOf a)).length = slots.length := List.length_set
      obtain ⟨text', hloop, hlen'⟩ := ih (fun b hb => hok b (List.mem_cons_of_mem _ hb))
        (i + 1) (slots.set i (parser.slotOf a)) text₁ (by
          rw [hset]
          rw [List.length_cons] at hlen
          omega) (hlen₁.trans hset.symm)
      refine ⟨text', ?_, hlen'.trans hset⟩
      simp only [annotateLoop, htext₁, Except.bind, bind]
      rw [if_pos hi, ← hset, hloop]
      have htake : (slots.set i (parser.slotOf a)).take (i + 1) =
          slots.take i ++ [parser.slotOf a] := by
        rw [List.take_add_one, List.take_set_of_le (Nat.le_refl i),
          List.getElem?_set_self hi]
        rfl
      rw [htake, List.drop_set_of_lt (by omega), List.map_cons, List.length_cons,
        List.append_assoc (slots.take i), List.singleton_append, Nat.add_right_comm,
        Nat.add_assoc]

/-- A chunk of `T` frames whose first slots are labelled by a slice of the
annotations: no exception, and in particular the assert on the masks holds. -/
theorem annotateFrames_eq {annotations : List FrameAnnotation}
    (hann : parser.frameAnnotations = some annotations)
    (hok : ∀ a ∈ annotations, parser.TextOk a) {frames : List φ} {startFrame endFrame k : ℕ}
    (hk : ((annotations.take endFrame).drop startFrame).length = k) (hle : k ≤ frames.length) :
    ∃ text, parser.annotateFrames frames startFrame endFrame
        (List.replicate k true ++ List.replicate (frames.length - k) false) =
      if parser.dropChunksWithOnlySystemActions &&
          (((annotations.take endFrame).drop startFrame).map parser.slotOf ++
            List.replicate (frames.length - k) parser.emptySlot).all (·.system) then .ok none
      else .ok (some
        { frames := frames
          slots := ((annotations.take endFrame).drop startFrame).map parser.slotOf ++
            List.replicate (frames.length - k) parser.emptySlot
          envSubenvEncoding := List.replicate frames.length parser.envSubenvEncoding
          textEmbeddings := text
          validFrameMask :=
            List.replicate k true ++ List.replicate (frames.length - k) false }) := by
  have hslice : ∀ a ∈ (annotations.take endFrame).drop startFrame, parser.TextOk a :=
    fun a ha => hok a (List.mem_of_mem_take (List.mem_of_mem_drop ha))
  have hlen : (List.replicate frames.length parser.emptySlot).length = frames.length :=
    List.length_replicate
  obtain ⟨text, hloop, -⟩ := annotateLoop_ok hslice 0
    (List.replicate frames.length parser.emptySlot)
    (List.replicate frames.length parser.text.zeros)
    (by rw [hk, hlen, Nat.zero_add]; exact hle) (by rw [hlen, List.length_replicate])
  rw [hlen, List.take_zero, List.nil_append, hk, Nat.zero_add, List.drop_replicate] at hloop
  refine ⟨text, ?_⟩
  have hmask : ((List.replicate k true ++ List.replicate (frames.length - k) false).zip
      (((annotations.take endFrame).drop startFrame).map parser.slotOf ++
        List.replicate (frames.length - k) parser.emptySlot)).all
      (fun (valid, s) => valid || !(s.user || s.system)) = true := by
    rw [List.zip_append (by rw [List.length_replicate, List.length_map, hk]), List.all_append,
      Bool.and_eq_true, List.all_eq_true, List.all_eq_true]
    constructor
    · rintro ⟨valid, s⟩ hmem
      rw [List.eq_of_mem_replicate (List.of_mem_zip hmem).1]
      rfl
    · rintro ⟨valid, s⟩ hmem
      rw [List.eq_of_mem_replicate (List.of_mem_zip hmem).2]
      cases valid <;> rfl
  simp only [annotateFrames, hann, hloop, Except.bind, bind, hmask, if_true]
  rfl

/-- Unless chunks are dropped, it is returned. -/
theorem annotateFrames_ok {annotations : List FrameAnnotation}
    (hann : parser.frameAnnotations = some annotations)
    (hdrop : parser.dropChunksWithOnlySystemActions = false)
    (hok : ∀ a ∈ annotations, parser.TextOk a) {frames : List φ} {startFrame endFrame k : ℕ}
    (hk : ((annotations.take endFrame).drop startFrame).length = k) (hle : k ≤ frames.length) :
    ∃ text, parser.annotateFrames frames startFrame endFrame
        (List.replicate k true ++ List.replicate (frames.length - k) false) = .ok (some
      { frames := frames
        slots := ((annotations.take endFrame).drop startFrame).map parser.slotOf ++
          List.replicate (frames.length - k) parser.emptySlot
        envSubenvEncoding := List.replicate frames.length parser.envSubenvEncoding
        textEmbeddings := text
        validFrameMask :=
          List.replicate k true ++ List.replicate (frames.length - k) false }) := by
  obtain ⟨text, htext⟩ := annotateFrames_eq hann hok hk hle
  refine ⟨text, htext.trans ?_⟩
  rw [hdrop, Bool.false_and, if_neg Bool.false_ne_true]

end ActionLabelAnnotationParser

end P2PRdt.Data

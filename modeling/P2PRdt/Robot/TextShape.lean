import P2PRdt.Robot.ItemRebase
import P2PRdt.Robot.SegmentFiles
import Mathlib.Algebra.BigOperators.Intervals

/-!
# The shape of the text embeddings

Before training `_sync_text_embedding_shape_with_dataset` writes the shape of one text
embedding into the configurations: that of the tokenizer, or that of the first latent
file that has one. The policy is built for this shape. The items of the dataset take
their texts from raw text or from files and drop some of them; `_format_text_embeddings`
then takes the mean over the tokens and gives every frame one embedding.

If all sources have one width, every item has the shape that was written. The mean is
that of a field; files that cannot be read are left out.
-/

namespace P2PRdt.Robot

open Lib

section Code

variable {V : Type} [Field V]

/-- The mean over the tokens, for entries of shape `[outer, n, d]`. -/
def meanTokens (outer n d : ℕ) (values : List V) : List V :=
  (List.range (outer * d)).map fun k =>
    (∑ l ∈ Finset.range n, values.getD ((k / d * n + l) * d + k % d) 0) / n

theorem length_meanTokens (outer n d : ℕ) (values : List V) :
    (meanTokens outer n d values).length = outer * d := by
  rw [meanTokens, List.length_map, List.length_range]

/-- `_pool_text_embedding_tokens`. -/
def poolTextEmbeddingTokens (t : TextTensor V) : TextTensor V :=
  match t.shape with
  | [n, d] =>
      if 1 < n then ⟨[1, d], t.dtype, meanTokens 1 n d t.values, by simp [length_meanTokens]⟩
      else t
  | [f, n, d] =>
      if 1 < n then ⟨[f, 1, d], t.dtype, meanTokens f n d t.values, by simp [length_meanTokens]⟩
      else t
  | _ => t

/-- `_infer_text_embedding_shape_from_value`. -/
def inferTextEmbeddingShapeFromValue (t : TextTensor V) : Option (List ℕ) :=
  match (poolTextEmbeddingTokens t).shape with
  | [] => none
  | [d] => some [1, d]
  | shape => some (shape.drop (shape.length - 2))

/-- `t.unsqueeze(0)`. -/
def unsqueezeFront (t : TextTensor V) : TextTensor V :=
  ⟨1 :: t.shape, t.dtype, t.values, by rw [t.length_values, List.prod_cons, one_mul]⟩

/-- The step of `_format_text_embeddings` for a single embedding. -/
def withTokenAxis (t : TextTensor V) : TextTensor V :=
  if t.shape.length = 1 then unsqueezeFront t else t

/-- `_format_text_embeddings`, which refuses other ranks and other numbers of frames. -/
def formatTextEmbeddings (cast : DType → V → V) (textEmbeddings : TextTensor V)
    (numFrames : ℕ) : Option (TextTensor V) :=
  let t := withTokenAxis (poolTextEmbeddingTokens textEmbeddings)
  match h : t.shape with
  | [n, d] => some ((t.expandFront numFrames [n, d] (by rw [h])).toDType cast .float32)
  | [f, n, d] =>
      if f = numFrames then some (t.toDType cast .float32)
      else if hone : f = 1 then
        some ((t.expandFront numFrames [n, d] (by rw [h, hone, List.prod_cons, one_mul])).toDType
          cast .float32)
      else none
  | _ => none

/-- `latent_root.glob(f"chunk-*/{video_key}/*.pth")`. -/
def LeRobotRepo.globLatents (r : LeRobotRepo) (videoKey : List Char) : List (List (List Char)) :=
  r.files.filter fun path =>
    match path with
    | [root, chunk, key, name] =>
        root = "latents".toList ∧ "chunk-".toList <+: chunk ∧ key = videoKey ∧
          ".pth".toList <:+ name
    | _ => false

/-- What `load` finds under `text_emb` in the latent files, in the order of the search. -/
def latentTexts (load : LeRobotRepo → List (List Char) → Option (TextTensor V))
    (usedVideoKeys : List (List Char)) (repos : List LeRobotRepo) : List (TextTensor V) :=
  repos.flatMap fun r => usedVideoKeys.flatMap fun key => (r.globLatents key).filterMap (load r)

/-- `infer_text_embedding_shape_from_dataset`; the result inside is `None` where there is
nothing to infer from. -/
def inferTextEmbeddingShapeFromDataset
    (load : LeRobotRepo → List (List Char) → Option (TextTensor V)) (datasetPathExists : Bool)
    (usedVideoKeys : List (List Char)) (singleTask : Option (List Char))
    (repos : List LeRobotRepo) : Option (Option (List ℕ)) :=
  if ¬ datasetPathExists then some none
  else
    match latentTexts load usedVideoKeys (selectRepos singleTask repos) with
    | [] => some none
    | textEmb :: _ => (inferTextEmbeddingShapeFromValue textEmb).map some

/-- The fields `text_embedding_shape` of the three configurations. -/
structure TextShapes where
  shared : List ℕ
  training : List ℕ
  validation : List (List ℕ)

def TextShapes.assign (shapes : TextShapes) (shape : List ℕ) : TextShapes :=
  ⟨shape, shape, shapes.validation.map fun _ => shape⟩

/-- What the attempt to get the tokenizer ends with. -/
inductive TokenizerInit where
  | noName
  | failed
  /-- An empty name, for which `get_text_tokenizer` returns `None`. -/
  | none
  | loaded (nTextTokens textEmbedDim : ℕ)

/-- `_sync_text_embedding_shape_with_dataset`. -/
def syncTextEmbeddingShapeWithDataset (preferRawText : Bool) (tokenizer : TokenizerInit)
    (inferred : Option (Option (List ℕ))) (shapes : TextShapes) : Option TextShapes :=
  match preferRawText, tokenizer with
  | true, .loaded nTextTokens textEmbedDim => some (shapes.assign [nTextTokens, textEmbedDim])
  | true, .none => none
  | _, _ => inferred.map fun
      | some shape => shapes.assign shape
      | none => shapes

/-- The text in the latent file of the first camera. -/
def firstCameraText (load : LeRobotRepo → List (List Char) → Option (TextTensor V))
    (r : LeRobotRepo) (videoKey : List Char) (seg : Segment) : Option (TextTensor V) := do
  let episodeChunk ← r.getEpisodeChunk seg.episodeIndex
  load r (LeRobotRepo.latentFile episodeChunk videoKey seg)

def Segment.texts (seg : Segment) : SegmentMeta := ⟨seg.actionText.getD "", seg.tasks⟩

end Code

/-! ## Embeddings of one width -/

section Width

variable {V : Type} [Field V] {cast : DType → V → V} {d : ℕ} {t u : TextTensor V}

/-- One embedding of width `d`, or one for each of some tokens. -/
def HasWidth (d : ℕ) (t : TextTensor V) : Prop := t.shape = [d] ∨ ∃ n, 1 ≤ n ∧ t.shape = [n, d]

/-- A formatted text has the given shape in every frame, and the same rows as in
the items. -/
def FormatsTo (cast : DType → V → V) (t : TextTensor V) (numFrames : ℕ) (shape : List ℕ) :
    Prop :=
  ∃ out rows, formatTextEmbeddings cast t numFrames = some out ∧
    out.shape = numFrames :: shape ∧ out.values = rows.flatten ∧
      DatasetConfig.formatTextEmbeddings
        [((poolTextEmbeddingTokens t).toDType cast .float32).values] numFrames = some rows

omit [Field V] in
theorem HasWidth.congr (h : HasWidth d t) (hshape : u.shape = t.shape) : HasWidth d u := by
  rw [HasWidth, hshape]
  exact h

/-- The mean leaves one token. -/
theorem shape_pool (h : HasWidth d t) :
    (poolTextEmbeddingTokens t).shape = [d] ∨ (poolTextEmbeddingTokens t).shape = [1, d] := by
  rcases h with hshape | ⟨n, hn, hshape⟩
  · left
    unfold poolTextEmbeddingTokens
    split
    · next hpair =>
      rw [hshape] at hpair
      cases hpair
    · next htriple =>
      rw [hshape] at htriple
      cases htriple
    · exact hshape
  · right
    unfold poolTextEmbeddingTokens
    split
    · next n' d' hpair =>
      obtain ⟨rfl, rfl⟩ : n = n' ∧ d = d' := by simpa [hshape] using hpair
      split
      · rfl
      · next hone =>
        obtain rfl : n = 1 := by omega
        exact hshape
    · next htriple =>
      rw [hshape] at htriple
      cases htriple
    · next hother _ => exact absurd hshape (hother n d)

theorem infer_of_hasWidth (h : HasWidth d t) :
    inferTextEmbeddingShapeFromValue t = some [1, d] := by
  unfold inferTextEmbeddingShapeFromValue
  rcases shape_pool h with hshape | hshape
  · rw [hshape]
  · rw [hshape]
    rfl

omit [Field V] in
theorem values_toDType (dtype : DType) :
    (t.toDType cast dtype).values =
      if t.dtype = dtype then t.values else t.values.map (cast dtype) := by
  unfold TextTensor.toDType
  split
  · rfl
  · rfl

omit [Field V] in
theorem values_expandFront_toDType (n : ℕ) (rest : List ℕ) (h : t.shape.prod = rest.prod)
    (dtype : DType) :
    ((t.expandFront n rest h).toDType cast dtype).values =
      (List.replicate n (t.toDType cast dtype).values).flatten := by
  rw [values_toDType, values_toDType]
  show (if t.dtype = dtype then _ else ((List.replicate n t.values).flatten).map _) = _
  split
  · rfl
  · rw [List.map_flatten, List.map_replicate]

omit [Field V] in
theorem shape_withTokenAxis (h : t.shape = [d] ∨ t.shape = [1, d]) :
    (withTokenAxis t).shape = [1, d] := by
  unfold withTokenAxis
  rcases h with hshape | hshape
  · have hrank : t.shape.length = 1 := congrArg List.length hshape
    rw [if_pos hrank]
    exact congrArg (1 :: ·) hshape
  · rw [if_neg (by simp [hshape]), hshape]

omit [Field V] in
theorem values_withTokenAxis_toDType (t : TextTensor V) (dtype : DType) :
    ((withTokenAxis t).toDType cast dtype).values = (t.toDType cast dtype).values := by
  unfold withTokenAxis
  split
  · rw [values_toDType, values_toDType]
    rfl
  · rfl

/-- Every frame gets one token of the width. -/
theorem format_of_hasWidth (h : HasWidth d t) (numFrames : ℕ) :
    FormatsTo cast t numFrames [1, d] := by
  have hshape := shape_withTokenAxis (shape_pool h)
  unfold FormatsTo formatTextEmbeddings
  dsimp only
  split
  · next n d' hpair =>
    obtain ⟨rfl, rfl⟩ : 1 = n ∧ d = d' := by simpa [hshape] using hpair
    refine ⟨_, _, rfl, (TextConfig.shape_toDType cast _ _).1, ?_,
      DatasetConfig.formatTextEmbeddings_singleton _ _⟩
    rw [values_expandFront_toDType, values_withTokenAxis_toDType]
  · next htriple =>
    rw [hshape] at htriple
    cases htriple
  · next hother _ => exact absurd hshape (hother 1 d)

end Width

/-! ## From the sources to the items -/

section Sources

variable {K V : Type} [LinearOrder K] [Field V] {config : TextConfig K V} {d : ℕ}
  {load : LeRobotRepo → List (List Char) → Option (TextTensor V)}
  {usedVideoKeys : List (List Char)} {repos : List LeRobotRepo}
  {singleTask : Option (List Char)} {tokenizer : TokenizerInit} {shapes shapes' : TextShapes}

/-- All texts that a dataset can have are of one width: those in the latent files, and
those of the tokenizer, which says so itself. -/
structure OneWidth (config : TextConfig K V)
    (load : LeRobotRepo → List (List Char) → Option (TextTensor V))
    (usedVideoKeys : List (List Char)) (repos : List LeRobotRepo) (tokenizer : TokenizerInit)
    (d : ℕ) : Prop where
  stored : ∀ t ∈ latentTexts load usedVideoKeys repos, HasWidth d t
  encoded : ∀ text t, config.encodeRawTextEmbedding text = some (some t) → HasWidth d t
  loaded : ∀ nTextTokens textEmbedDim, tokenizer = .loaded nTextTokens textEmbedDim →
    nTextTokens = 1 ∧ textEmbedDim = d

omit [Field V] in
theorem mem_latentTexts {r : LeRobotRepo} {key : List Char} {path : List (List Char)}
    {t : TextTensor V} (hr : r ∈ repos) (hkey : key ∈ usedVideoKeys)
    (hpath : path ∈ r.globLatents key) (hload : load r path = some t) :
    t ∈ latentTexts load usedVideoKeys repos :=
  List.mem_flatMap.mpr ⟨r, hr, List.mem_flatMap.mpr
    ⟨key, hkey, List.mem_filterMap.mpr ⟨path, hpath, hload⟩⟩⟩

/-- The search finds the latent files of the segments. -/
theorem mem_globLatents {r : LeRobotRepo} {chunk : ℤ} {key : List Char} {seg : Segment}
    (h : LeRobotRepo.latentFile chunk key seg ∈ r.files) :
    LeRobotRepo.latentFile chunk key seg ∈ r.globLatents key := by
  refine List.mem_filter.mpr ⟨h, decide_eq_true ?_⟩
  exact ⟨rfl, List.prefix_append _ _, rfl, List.suffix_append _ _⟩

omit [LinearOrder K] [Field V] in
theorem hasWidth_of_textSource {m : SegmentMeta} {precomputed : Option (TextTensor V)}
    {t : TextTensor V} (hencoded : ∀ text t,
      config.encodeRawTextEmbedding text = some (some t) → HasWidth d t)
    (hprecomputed : ∀ t, precomputed = some t → HasWidth d t)
    (h : config.TextSource m precomputed t) : HasWidth d t := by
  cases h with
  | rawText text _ _ hencode => exact hencoded text t hencode
  | precomputed _ hfile => exact hprecomputed t hfile
  | lastResort text _ _ hencode => exact hencoded text t hencode

/-- Dropping a text keeps its shape. -/
theorem shape_itemText {m : SegmentMeta} {precomputed : Option (TextTensor V)}
    {t : TextTensor V} {draws rest : ℕ → K} {text : CfgText V}
    (hsource : config.TextSource m precomputed t)
    (h : config.itemText m precomputed draws = some (text, rest)) :
    text.embedding.shape = t.shape := by
  rw [TextConfig.itemText_eq hsource] at h
  split at h
  · obtain ⟨rfl, -⟩ := Prod.mk.inj (Option.some.inj h)
    rfl
  · obtain ⟨e, hempty, he⟩ := Option.map_eq_some_iff.mp h
    obtain ⟨rfl, -⟩ := Prod.mk.inj he
    exact (TextConfig.shape_of_emptyReplacement hempty).1

omit [LinearOrder K] in
/-- With something to infer from, the configurations get the one shape. -/
theorem sync_eq_assign (hwidth : OneWidth config load usedVideoKeys
      (selectRepos singleTask repos) tokenizer d)
    (hfound : latentTexts load usedVideoKeys (selectRepos singleTask repos) ≠ [] ∨
      config.preferRawTextForTextEmbeddings = true ∧ ∃ n k, tokenizer = .loaded n k)
    (hsync : syncTextEmbeddingShapeWithDataset config.preferRawTextForTextEmbeddings tokenizer
      (inferTextEmbeddingShapeFromDataset load true usedVideoKeys singleTask repos) shapes =
        some shapes') :
    shapes' = shapes.assign [1, d] := by
  have hinfer : latentTexts load usedVideoKeys (selectRepos singleTask repos) ≠ [] →
      inferTextEmbeddingShapeFromDataset load true usedVideoKeys singleTask repos =
        some (some [1, d]) := by
    intro hne
    rw [inferTextEmbeddingShapeFromDataset, if_neg (by simp)]
    cases htexts : latentTexts load usedVideoKeys (selectRepos singleTask repos) with
    | nil => exact absurd htexts hne
    | cons t texts =>
        have ht := hwidth.stored t (htexts ▸ List.mem_cons_self)
        show (inferTextEmbeddingShapeFromValue t).map some = _
        rw [infer_of_hasWidth ht]
        rfl
  unfold syncTextEmbeddingShapeWithDataset at hsync
  split at hsync
  · next n k _ =>
    obtain ⟨rfl, rfl⟩ := hwidth.loaded n k rfl
    exact (Option.some.inj hsync).symm
  · cases hsync
  · next hother _ =>
    rcases hfound with hne | ⟨hprefer, n, k, rfl⟩
    · rw [hinfer hne] at hsync
      exact (Option.some.inj hsync).symm
    · exact absurd rfl (hother n k hprefer)

/-- **The items have the shape of the policy.** If all texts have one width, each listed
segment gets embeddings of the shape that the configurations were given, whichever source
its text has and whether it is dropped or not. -/
theorem synced_itemText {key : List Char} {keys : List (List Char)}
    (hwidth : OneWidth config load (key :: keys) (selectRepos singleTask repos) tokenizer d)
    (hfound : latentTexts load (key :: keys) (selectRepos singleTask repos) ≠ [] ∨
      config.preferRawTextForTextEmbeddings = true ∧ ∃ n k, tokenizer = .loaded n k)
    (hsync : syncTextEmbeddingShapeWithDataset config.preferRawTextForTextEmbeddings tokenizer
      (inferTextEmbeddingShapeFromDataset load true (key :: keys) singleTask repos) shapes =
        some shapes')
    {r : LeRobotRepo} {seg : Segment} (hr : r ∈ selectRepos singleTask repos)
    (hseg : seg ∈ r.listed (key :: keys)) {draws rest : ℕ → K} {text : CfgText V}
    (htext : config.itemText seg.texts (firstCameraText load r key seg) draws =
      some (text, rest)) (numFrames : ℕ) :
    FormatsTo config.cast text.embedding numFrames shapes'.shared ∧
      shapes'.training = shapes'.shared ∧
        ∀ shape ∈ shapes'.validation, shape = shapes'.shared := by
  obtain rfl := sync_eq_assign hwidth hfound hsync
  -- the text of the first camera is one of those that the search goes through
  have hprecomputed : ∀ t, firstCameraText load r key seg = some t → HasWidth d t := by
    intro t ht
    obtain ⟨chunk, hchunk, hlatents⟩ := (LeRobotRepo.filesThere_of_listed hseg).latents
    rw [firstCameraText, hchunk, Option.bind_eq_bind, Option.bind_some] at ht
    have hpath := mem_globLatents (hlatents key List.mem_cons_self)
    exact hwidth.stored t (mem_latentTexts hr List.mem_cons_self hpath ht)
  obtain ⟨t, hsource⟩ := TextConfig.exists_textSource htext
  have hsourceWidth := hasWidth_of_textSource hwidth.encoded hprecomputed hsource
  have hitem := hsourceWidth.congr (shape_itemText hsource htext)
  refine ⟨format_of_hasWidth hitem numFrames, rfl, ?_⟩
  intro shape hmem
  obtain ⟨_, -, rfl⟩ := List.mem_map.mp hmem
  rfl

end Sources

/-! ## Texts of two tokens -/

section Instruction

open MultiLatentLeRobotDataset (liftRepo liftSegment)

/-- A text of two tokens of width 3. -/
def instructionText : TextTensor ℚ := ⟨[2, 3], .float16, [1, 2, 3, 4, 5, 6], rfl⟩

/-- All texts come from the files, and half of them are dropped. -/
def filesOnly : TextConfig ℚ ℚ where
  cfgProb := 1 / 2
  emptyEmb := none
  preferRawTextForTextEmbeddings := true
  tokenizer := none
  cast := fun _ v => v

theorem oneWidth_filesOnly : OneWidth filesOnly (fun _ _ => some instructionText)
    ["camera".toList] (selectRepos none [liftRepo]) .noName 3 where
  stored := by
    intro t ht
    obtain ⟨_, -, ht⟩ := List.mem_flatMap.mp ht
    obtain ⟨_, -, ht⟩ := List.mem_flatMap.mp ht
    obtain ⟨_, -, ht⟩ := List.mem_filterMap.mp ht
    obtain rfl := Option.some.inj ht
    exact .inr ⟨2, by decide, rfl⟩
  encoded := by
    rintro text t ⟨⟩
  loaded := by
    rintro n k ⟨⟩

/-- A dropped text, with two sets of validation data. -/
theorem synced_itemText_lift : ∃ text rest shapes',
    filesOnly.itemText liftSegment.texts
        (firstCameraText (fun _ _ => some instructionText) liftRepo "camera".toList liftSegment)
        (fun _ => 1 / 4) = some (text, rest) ∧ text.replaced = true ∧
      syncTextEmbeddingShapeWithDataset true .noName
        (inferTextEmbeddingShapeFromDataset (fun _ _ => some instructionText) true
          ["camera".toList] none [liftRepo]) ⟨[1, 2048], [1, 2048], [[1, 2048], [7, 4]]⟩ =
            some shapes' ∧
      FormatsTo filesOnly.cast text.embedding 40 shapes'.shared ∧
        shapes'.validation = [[1, 3], [1, 3]] ∧
          ∀ shape ∈ shapes'.validation, shape = shapes'.shared := by
  have hsource : filesOnly.TextSource liftSegment.texts (some instructionText)
      instructionText := by
    refine .precomputed ?_ rfl
    rintro - text - u ⟨⟩
  have hchunk : liftRepo.getEpisodeChunk liftSegment.episodeIndex = some 0 := by
    decide +kernel
  have hfirst : firstCameraText (fun _ _ => some instructionText) liftRepo "camera".toList
      liftSegment = some instructionText := by
    rw [firstCameraText, hchunk]
    rfl
  have htexts : latentTexts (fun _ _ => some instructionText) ["camera".toList]
      (selectRepos none [liftRepo]) = [instructionText] := rfl
  have hne : latentTexts (fun _ _ => some instructionText) ["camera".toList]
      (selectRepos none [liftRepo]) ≠ [] := htexts ▸ List.cons_ne_nil _ _
  have hsync : syncTextEmbeddingShapeWithDataset true .noName
      (inferTextEmbeddingShapeFromDataset (fun _ _ => some instructionText) true
        ["camera".toList] none [liftRepo]) ⟨[1, 2048], [1, 2048], [[1, 2048], [7, 4]]⟩ =
          some ⟨[1, 3], [1, 3], [[1, 3], [1, 3]]⟩ := rfl
  have hlisted : liftSegment ∈ liftRepo.listed ["camera".toList] := List.mem_cons_self
  have hdropped : ¬∀ i < 2, filesOnly.cfgProb ≤ (fun _ : ℕ => (1 / 4 : ℚ)) i := by
    intro hkept
    have hfirst : (1 / 2 : ℚ) ≤ 1 / 4 := hkept 0 Nat.two_pos
    norm_num at hfirst
  have htext : filesOnly.itemText liftSegment.texts
      (firstCameraText (fun _ _ => some instructionText) liftRepo "camera".toList liftSegment)
      (fun _ => 1 / 4) = some (⟨instructionText.zerosLike, true⟩, fun _ => 1 / 4) := by
    rw [hfirst, TextConfig.itemText_eq hsource, if_neg hdropped]
    rfl
  obtain ⟨hformat, -, hvalidation⟩ := synced_itemText oneWidth_filesOnly (.inl hne) hsync
    List.mem_cons_self hlisted htext 40
  exact ⟨_, _, _, htext, rfl, hsync, hformat, rfl, hvalidation⟩

end Instruction

end P2PRdt.Robot

import P2PRdt.Lib.UniformDraws

/-!
# Dropping the text of an item

For classifier-free guidance the dataset replaces the text embedding of an item
by an empty one, when a uniform draw is below `cfg_prob`. A text embedding is
selected, from the raw text or from the file of the episode, and passes through
`_get_cfg_text_embedding` on its way out of `_get_selected_text_embedding` and
once more in `_cat_video_images`. So every item takes two draws and is kept when
both of them are large.

An exception is `none`. The tokenizer is a function of the text, because its
results are cached; the warnings are left out.
-/

namespace P2PRdt.Robot

open MeasureTheory Lib

/-! ## Tensors -/

inductive DType where
  | float16
  | bfloat16
  | float32
  | float64
  deriving DecidableEq

/-- A tensor with its entries row by row. -/
@[ext] structure TextTensor (V : Type) where
  shape : List ℕ
  dtype : DType
  values : List V
  length_values : values.length = shape.prod

namespace TextTensor

variable {V : Type} (cast : DType → V → V)

/-- `t.to(dtype=dtype)`. -/
def toDType (t : TextTensor V) (dtype : DType) : TextTensor V :=
  if t.dtype = dtype then t
  else ⟨t.shape, dtype, t.values.map (cast dtype), by rw [List.length_map, t.length_values]⟩

/-- `t.squeeze(0)`. -/
def squeezeFront (t : TextTensor V) : TextTensor V :=
  match h : t.shape with
  | 1 :: rest => ⟨rest, t.dtype, t.values, by rw [t.length_values, h, List.prod_cons, one_mul]⟩
  | _ => t

/-- The entries `n` times, with `n` as a new first axis. -/
def expandFront (t : TextTensor V) (n : ℕ) (rest : List ℕ) (h : t.shape.prod = rest.prod) :
    TextTensor V where
  shape := n :: rest
  dtype := t.dtype
  values := (List.replicate n t.values).flatten
  length_values := by
    rw [List.length_flatten, List.map_replicate, List.sum_replicate, t.length_values, h,
      List.prod_cons, smul_eq_mul]

def zerosLike [Zero V] (t : TextTensor V) : TextTensor V :=
  ⟨t.shape, t.dtype, List.replicate t.shape.prod 0, List.length_replicate⟩

/-- `_expand_text_embedding_like`: a source of the shape of the target, of its
shape without the first axis, or with a first axis of one. -/
def expandTextEmbeddingLike (sourceEmbedding : Option (TextTensor V))
    (targetEmbedding : TextTensor V) : Option (TextTensor V) :=
  match sourceEmbedding, targetEmbedding.shape with
  | none, _ => none
  | some source, [] => if source.shape = [] then some (source.toDType cast targetEmbedding.dtype)
      else none
  | some source, n :: rest =>
      if source.shape = n :: rest then some (source.toDType cast targetEmbedding.dtype)
      else if h : source.shape = rest then
        some ((source.expandFront n rest (by rw [h])).toDType cast targetEmbedding.dtype)
      else if h : source.shape = 1 :: rest then
        some ((source.expandFront n rest (by rw [h, List.prod_cons, one_mul])).toDType cast
          targetEmbedding.dtype)
      else none

end TextTensor

/-! ## The code -/

/-- Characters that `str.strip` removes. -/
def isPySpace (c : Char) : Bool :=
  let n := c.toNat
  (9 ≤ n ∧ n ≤ 13) ∨ (28 ≤ n ∧ n ≤ 32) ∨ n = 0x85 ∨ n = 0xa0 ∨ n = 0x1680 ∨
    (0x2000 ≤ n ∧ n ≤ 0x200a) ∨ n = 0x2028 ∨ n = 0x2029 ∨ n = 0x202f ∨ n = 0x205f ∨ n = 0x3000

def pyStrip (s : String) : String :=
  String.ofList ((s.toList.dropWhile isPySpace).reverse.dropWhile isPySpace).reverse

/-- The texts of a segment; a text that is missing is empty. -/
structure SegmentMeta where
  actionText : String
  tasks : List String

/-- `_resolve_raw_text`. -/
def SegmentMeta.resolveRawText (m : SegmentMeta) : Option String :=
  if pyStrip m.actionText ≠ "" then some (pyStrip m.actionText)
  else (m.tasks.map pyStrip).find? (· ≠ "")

/-- What the text code reads from the configuration, and the tokenizer with its
model, if there is one. -/
structure TextConfig (K V : Type) where
  cfgProb : K
  emptyEmb : Option (TextTensor V)
  preferRawTextForTextEmbeddings : Bool
  tokenizer : Option (String → Option (TextTensor V))
  cast : DType → V → V

/-- A text embedding and whether it is a replacement: which of its `return`
statements `_get_cfg_text_embedding` took. -/
structure CfgText (V : Type) where
  embedding : TextTensor V
  replaced : Bool

namespace TextConfig

section Code

variable {K V : Type} [LinearOrder K] [Zero V] (config : TextConfig K V)

/-- `_encode_raw_text_embedding`: without a tokenizer the result is `None`. -/
def encodeRawTextEmbedding (text : String) : Option (Option (TextTensor V)) :=
  match config.tokenizer with
  | none => some none
  | some tokenize => do
      let textEmbedding ← tokenize text
      if textEmbedding.shape.length ≠ 4 then none
      else some (some (textEmbedding.squeezeFront.squeezeFront.toDType config.cast .float32))

def getEmptyTextEmbedding (template : TextTensor V) : Option (Option (TextTensor V)) := do
  let emptyTextEmbedding ← config.encodeRawTextEmbedding ""
  pure (TextTensor.expandTextEmbeddingLike config.cast emptyTextEmbedding template)

/-- The part of `_get_cfg_text_embedding` after the draw. -/
def emptyReplacement (textEmb : TextTensor V) : Option (TextTensor V) :=
  match TextTensor.expandTextEmbeddingLike config.cast config.emptyEmb textEmb with
  | some matched => some matched
  | none => do
      match ← config.getEmptyTextEmbedding textEmb with
      | some matched => pure matched
      | none => pure textEmb.zerosLike

/-- `_get_cfg_text_embedding`: the result and the draws that are left. -/
def getCfgTextEmbedding (textEmb : TextTensor V) (draws : ℕ → K) :
    Option (CfgText V × (ℕ → K)) :=
  let rest := fun n => draws (n + 1)
  if config.cfgProb ≤ draws 0 then some (⟨textEmb, false⟩, rest)
  else do
    let empty ← config.emptyReplacement textEmb
    pure (⟨empty, true⟩, rest)

/-- The end of `_get_selected_text_embedding`: the embedding from the file of the
first camera, or else the raw text. -/
def getFallbackTextEmbedding (rawText : Option String) (precomputed : Option (TextTensor V))
    (draws : ℕ → K) : Option (CfgText V × (ℕ → K)) :=
  match precomputed, rawText with
  | some textEmb, _ => config.getCfgTextEmbedding textEmb draws
  | none, some text => do
      match ← config.encodeRawTextEmbedding text with
      | some textEmb => config.getCfgTextEmbedding textEmb draws
      | none => none
  | none, none => none

/-- `_get_selected_text_embedding`; an exception of the first encoding is caught. -/
def getSelectedTextEmbedding (m : SegmentMeta) (precomputed : Option (TextTensor V))
    (draws : ℕ → K) : Option (CfgText V × (ℕ → K)) :=
  let rawText := m.resolveRawText
  match rawText with
  | some text =>
      if config.preferRawTextForTextEmbeddings then
        match config.encodeRawTextEmbedding text with
        | some (some textEmb) => config.getCfgTextEmbedding textEmb draws
        | _ => config.getFallbackTextEmbedding rawText precomputed draws
      else config.getFallbackTextEmbedding rawText precomputed draws
  | none => config.getFallbackTextEmbedding rawText precomputed draws

/-- The text embedding of `__getitem__`, through `_get_selected_text_embedding`
and `_cat_video_images`. It is a replacement when one of the two made it one. -/
def itemText (m : SegmentMeta) (precomputed : Option (TextTensor V)) (draws : ℕ → K) :
    Option (CfgText V × (ℕ → K)) := do
  let (selected, draws) ← config.getSelectedTextEmbedding m precomputed draws
  let (text, draws) ← config.getCfgTextEmbedding selected.embedding draws
  pure (⟨text.embedding, selected.replaced || text.replaced⟩, draws)

end Code

/-! ## Replacements -/

section Replacement

variable {K V : Type}

theorem shape_toDType (cast : DType → V → V) (t : TextTensor V) (dtype : DType) :
    (t.toDType cast dtype).shape = t.shape ∧ (t.toDType cast dtype).dtype = dtype := by
  unfold TextTensor.toDType
  split
  · rename_i hsame
    exact ⟨rfl, hsame⟩
  · exact ⟨rfl, rfl⟩

/-- A replacement that is found has the shape and the type of the target. -/
theorem shape_of_expand {cast : DType → V → V} {source : Option (TextTensor V)}
    {target e : TextTensor V}
    (h : TextTensor.expandTextEmbeddingLike cast source target = some e) :
    e.shape = target.shape ∧ e.dtype = target.dtype := by
  have hto : ∀ t : TextTensor V, t.shape = target.shape → t.toDType cast target.dtype = e →
      e.shape = target.shape ∧ e.dtype = target.dtype := by
    rintro t hshape rfl
    obtain ⟨hs, hd⟩ := shape_toDType cast t target.dtype
    exact ⟨hs.trans hshape, hd⟩
  unfold TextTensor.expandTextEmbeddingLike at h
  split at h
  · cases h
  · rename_i source htarget
    split at h
    · rename_i hsource
      exact hto source (hsource.trans htarget.symm) (Option.some_inj.mp h)
    · cases h
  · rename_i source n rest htarget
    split_ifs at h with hsame hrest hone
    · exact hto source (hsame.trans htarget.symm) (Option.some_inj.mp h)
    · exact hto _ htarget.symm (Option.some_inj.mp h)
    · exact hto _ htarget.symm (Option.some_inj.mp h)

/-- Replacements do not look at the entries of their target. -/
theorem expand_congr (cast : DType → V → V) (source : Option (TextTensor V)) {t u : TextTensor V}
    (hshape : u.shape = t.shape) (hdtype : u.dtype = t.dtype) :
    TextTensor.expandTextEmbeddingLike cast source u =
      TextTensor.expandTextEmbeddingLike cast source t := by
  rcases t with ⟨shape, dtype, values, hvalues⟩
  rcases u with ⟨_, _, values', hvalues'⟩
  obtain rfl := hshape
  obtain rfl := hdtype
  rfl

variable [Zero V] {config : TextConfig K V} {t u e : TextTensor V}

theorem emptyReplacement_congr (hshape : u.shape = t.shape) (hdtype : u.dtype = t.dtype) :
    config.emptyReplacement u = config.emptyReplacement t := by
  have hzeros : u.zerosLike = t.zerosLike := by
    simp only [TextTensor.zerosLike, hshape, hdtype]
  simp only [emptyReplacement, getEmptyTextEmbedding, expand_congr config.cast _ hshape hdtype,
    hzeros]

theorem shape_of_emptyReplacement (h : config.emptyReplacement t = some e) :
    e.shape = t.shape ∧ e.dtype = t.dtype := by
  unfold emptyReplacement at h
  split at h
  · rename_i matched hmatched
    obtain rfl := Option.some_inj.mp h
    exact shape_of_expand hmatched
  · simp only [getEmptyTextEmbedding, Option.bind_eq_bind, Option.bind_eq_some_iff,
      Option.pure_def, Option.some_inj] at h
    rcases h with ⟨_, ⟨_, -, rfl⟩, h⟩
    split at h
    · rename_i matched hmatched
      obtain rfl := Option.some_inj.mp h
      exact shape_of_expand hmatched
    · obtain rfl := Option.some_inj.mp h
      exact ⟨rfl, rfl⟩

/-- **A replacement is replaced by itself.** -/
theorem emptyReplacement_idem (h : config.emptyReplacement t = some e) :
    config.emptyReplacement e = some e := by
  obtain ⟨hshape, hdtype⟩ := shape_of_emptyReplacement h
  rw [emptyReplacement_congr hshape hdtype, h]

end Replacement

/-! ## Sources -/

/-- Where the text embedding of an item comes from before it is dropped. -/
inductive TextSource {K V : Type} (config : TextConfig K V) (m : SegmentMeta)
    (precomputed : Option (TextTensor V)) (t : TextTensor V) : Prop where
  | rawText (text : String) : config.preferRawTextForTextEmbeddings = true →
      m.resolveRawText = some text → config.encodeRawTextEmbedding text = some (some t) →
      TextSource config m precomputed t
  /-- Raw text is not wanted, or there is none, or encoding it failed. -/
  | precomputed : (config.preferRawTextForTextEmbeddings = true →
        ∀ text, m.resolveRawText = some text → ∀ u,
          config.encodeRawTextEmbedding text ≠ some (some u)) →
      precomputed = some t → TextSource config m precomputed t
  | lastResort (text : String) : precomputed = none → m.resolveRawText = some text →
      config.encodeRawTextEmbedding text = some (some t) → TextSource config m precomputed t

section Sources

variable {K V : Type} [LinearOrder K] [Zero V] {config : TextConfig K V} {m : SegmentMeta}
  {precomputed : Option (TextTensor V)} {t e : TextTensor V} {draws : ℕ → K}

/-- Each source goes through the dropout once. -/
theorem getSelectedTextEmbedding_eq (h : config.TextSource m precomputed t) (draws : ℕ → K) :
    config.getSelectedTextEmbedding m precomputed draws =
      config.getCfgTextEmbedding t draws := by
  unfold getSelectedTextEmbedding
  cases h with
  | rawText text hprefer htext hencode => simp only [htext, hprefer, if_true, hencode]
  | precomputed hskip hfile =>
      subst hfile
      cases htext : m.resolveRawText with
      | none => rfl
      | some text =>
          by_cases hprefer : config.preferRawTextForTextEmbeddings = true
          · simp only [hprefer, if_true]
            split
            · rename_i u hencode
              exact absurd hencode (hskip hprefer text htext u)
            · rfl
          · simp only [if_neg hprefer]
            rfl
  | lastResort text hfile htext hencode =>
      subst hfile
      have hfallback : config.getFallbackTextEmbedding (some text) none draws =
          config.getCfgTextEmbedding t draws := by
        simp only [getFallbackTextEmbedding, hencode, Option.bind_eq_bind, Option.bind_some]
      simp only [htext, hencode, hfallback, ite_self]

theorem exists_textSource_of_fallback {out : CfgText V × (ℕ → K)}
    (hskip : config.preferRawTextForTextEmbeddings = true →
      ∀ text, m.resolveRawText = some text → ∀ u,
        config.encodeRawTextEmbedding text ≠ some (some u))
    (h : config.getFallbackTextEmbedding m.resolveRawText precomputed draws = some out) :
    ∃ t, config.TextSource m precomputed t := by
  unfold getFallbackTextEmbedding at h
  split at h
  · exact ⟨_, .precomputed hskip rfl⟩
  · rename_i text htext
    rw [Option.bind_eq_bind, Option.bind_eq_some_iff] at h
    rcases h with ⟨encoded, hencode, h⟩
    cases encoded with
    | some t => exact ⟨t, .lastResort text rfl htext hencode⟩
    | none => cases h
  · cases h

/-- An item with a text has a source for it. -/
theorem exists_textSource {out : CfgText V × (ℕ → K)}
    (h : config.itemText m precomputed draws = some out) :
    ∃ t, config.TextSource m precomputed t := by
  rw [itemText, Option.bind_eq_bind, Option.bind_eq_some_iff] at h
  rcases h with ⟨selected, hselected, -⟩
  unfold getSelectedTextEmbedding at hselected
  dsimp only at hselected
  split at hselected
  · rename_i text htext
    split at hselected
    · rename_i hprefer
      split at hselected
      · rename_i t hencode
        exact ⟨t, .rawText text hprefer htext hencode⟩
      · rename_i hfailed
        refine exists_textSource_of_fallback ?_ hselected
        intro _ text' htext' u hencode
        obtain rfl := Option.some_inj.mp (htext.symm.trans htext')
        exact hfailed u hencode
    · rename_i hprefer
      exact exists_textSource_of_fallback (fun h => absurd h hprefer) hselected
  · rename_i htext
    refine exists_textSource_of_fallback ?_ hselected
    intro _ text htext'
    rw [htext] at htext'
    cases htext'

theorem getCfgTextEmbedding_kept (h : config.cfgProb ≤ draws 0) :
    config.getCfgTextEmbedding t draws = some (⟨t, false⟩, fun n => draws (n + 1)) :=
  if_pos h

theorem getCfgTextEmbedding_dropped (h : draws 0 < config.cfgProb) :
    config.getCfgTextEmbedding t draws =
      (config.emptyReplacement t).map fun e => (⟨e, true⟩, fun n => draws (n + 1)) := by
  rw [getCfgTextEmbedding, if_neg (not_le.mpr h)]
  cases config.emptyReplacement t <;> rfl

/-- **Two draws.** Whatever the source, the text is kept when the first two draws
reach the probability, and otherwise it is replaced. -/
theorem itemText_eq (h : config.TextSource m precomputed t) (draws : ℕ → K) :
    config.itemText m precomputed draws =
      if ∀ i < 2, config.cfgProb ≤ draws i then some (⟨t, false⟩, fun n => draws (n + 2))
      else (config.emptyReplacement t).map fun e => (⟨e, true⟩, fun n => draws (n + 2)) := by
  have htwo : (∀ i < 2, config.cfgProb ≤ draws i) ↔
      config.cfgProb ≤ draws 0 ∧ config.cfgProb ≤ draws 1 := by
    constructor
    · intro hall
      exact ⟨hall 0 (by decide), hall 1 (by decide)⟩
    · rintro ⟨hfirst, hsecond⟩ i hi
      interval_cases i
      · exact hfirst
      · exact hsecond
  rw [itemText, getSelectedTextEmbedding_eq h]
  simp only [htwo]
  rcases le_or_gt config.cfgProb (draws 0) with hfirst | hfirst
  · rw [getCfgTextEmbedding_kept hfirst, Option.bind_eq_bind, Option.bind_some]
    dsimp only
    rcases le_or_gt config.cfgProb (draws 1) with hsecond | hsecond
    · rw [if_pos ⟨hfirst, hsecond⟩, getCfgTextEmbedding_kept hsecond]
      rfl
    · rw [if_neg fun hkept => absurd hkept.2 (not_le.mpr hsecond),
        getCfgTextEmbedding_dropped hsecond]
      cases config.emptyReplacement t <;> rfl
  · rw [getCfgTextEmbedding_dropped hfirst,
      if_neg fun hkept => absurd hkept.1 (not_le.mpr hfirst)]
    cases hempty : config.emptyReplacement t with
    | none => rfl
    | some e =>
        rw [Option.map_some, Option.bind_eq_bind, Option.bind_some]
        dsimp only
        -- the second draw finds the replacement again
        rcases le_or_gt config.cfgProb (draws 1) with hsecond | hsecond
        · rw [getCfgTextEmbedding_kept hsecond]
          rfl
        · rw [getCfgTextEmbedding_dropped hsecond, emptyReplacement_idem hempty]
          rfl

end Sources

/-! ## The rate -/

section Rate

variable {V : Type} [Zero V]

/-- With independent uniform draws the text is kept with probability
`1 - cfg_prob`, and replaced by an empty one with probability `cfg_prob`. -/
structure DropsAtRate (config : TextConfig ℝ V) (m : SegmentMeta)
    (precomputed : Option (TextTensor V)) (t : TextTensor V) : Prop where
  kept : uniformDraws {ω | ∃ rest, config.itemText m precomputed ω = some (⟨t, false⟩, rest)} =
    ENNReal.ofReal (1 - config.cfgProb)
  replaced : uniformDraws {ω | ∃ e rest, config.emptyReplacement t = some e ∧
      config.itemText m precomputed ω = some (⟨e, true⟩, rest)} = ENNReal.ofReal config.cfgProb

variable {config : TextConfig ℝ V} {m : SegmentMeta} {precomputed : Option (TextTensor V)}
  {t e : TextTensor V}

theorem uniformDraws_kept (h : config.TextSource m precomputed t) (hp : 0 ≤ config.cfgProb)
    (hp1 : config.cfgProb ≤ 1) :
    uniformDraws {ω | ∃ rest, config.itemText m precomputed ω = some (⟨t, false⟩, rest)} =
      ENNReal.ofReal ((1 - config.cfgProb) ^ 2) := by
  rw [← uniformDraws_all_ge hp hp1]
  congr 1
  ext ω
  simp only [Set.mem_ofPred_eq, itemText_eq h]
  constructor
  · rintro ⟨rest, hrest⟩
    by_contra hlow
    rw [if_neg hlow] at hrest
    cases hempty : config.emptyReplacement t <;> simp [hempty] at hrest
  · intro hall
    exact ⟨_, if_pos hall⟩

theorem uniformDraws_replaced (h : config.TextSource m precomputed t) (hp : 0 ≤ config.cfgProb)
    (hp1 : config.cfgProb ≤ 1) (hempty : config.emptyReplacement t = some e) :
    uniformDraws {ω | ∃ e rest, config.emptyReplacement t = some e ∧
        config.itemText m precomputed ω = some (⟨e, true⟩, rest)} =
      ENNReal.ofReal (1 - (1 - config.cfgProb) ^ 2) := by
  rw [← uniformDraws_some_lt hp hp1]
  congr 1
  ext ω
  simp only [Set.mem_ofPred_eq, itemText_eq h, hempty, Option.map_some]
  constructor
  · rintro ⟨e', rest, -, hrest⟩
    by_contra hnone
    have hhigh : ∀ i < 2, config.cfgProb ≤ ω i := by
      intro i hi
      exact not_lt.mp fun hlow => hnone ⟨i, hi, hlow⟩
    rw [if_pos hhigh] at hrest
    cases hrest
  · rintro ⟨i, hi, hlow⟩
    exact ⟨e, _, rfl, if_neg fun hall => absurd (hall i hi) (not_le.mpr hlow)⟩

/-- **The dropout rate.** The two draws give the rate of one exactly when nothing
is dropped, or everything that has a replacement is. -/
theorem dropsAtRate_iff (hp : 0 ≤ config.cfgProb) (hp1 : config.cfgProb ≤ 1)
    (h : config.TextSource m precomputed t) :
    config.DropsAtRate m precomputed t ↔
      config.cfgProb = 0 ∨ config.cfgProb = 1 ∧ (config.emptyReplacement t).isSome := by
  have hsub : 0 ≤ 1 - config.cfgProb := sub_nonneg.mpr hp1
  constructor
  · intro hrate
    have hkept := hrate.kept
    rw [uniformDraws_kept h hp hp1, ENNReal.ofReal_eq_ofReal_iff (pow_nonneg hsub 2) hsub,
      one_sub_pow_eq_iff hp hp1 le_rfl] at hkept
    rcases hkept with hzero | hone
    · exact Or.inl hzero
    · refine Or.inr ⟨hone, ?_⟩
      cases hempty : config.emptyReplacement t with
      | some e => rfl
      | none =>
          have hreplaced := hrate.replaced
          simp [hempty, hone] at hreplaced
  · rintro (hzero | ⟨hone, hsome⟩)
    · constructor
      · rw [uniformDraws_kept h hp hp1, hzero, sub_zero, one_pow]
      · cases hempty : config.emptyReplacement t with
        | none => simp [hzero]
        | some e =>
            rw [← hempty, uniformDraws_replaced h hp hp1 hempty, hzero, sub_zero, one_pow, sub_self]
    · obtain ⟨e, hempty⟩ := Option.isSome_iff_exists.mp hsome
      constructor
      · rw [uniformDraws_kept h hp hp1, hone, sub_self, zero_pow two_ne_zero]
      · rw [uniformDraws_replaced h hp hp1 hempty, hone, sub_self, zero_pow two_ne_zero, sub_zero]

end Rate

/-! ## An embedding of one entry -/

/-- No tokenizer and no empty embedding. -/
noncomputable def bareConfig (cfgProb : ℝ) : TextConfig ℝ ℤ where
  cfgProb := cfgProb
  emptyEmb := none
  preferRawTextForTextEmbeddings := true
  tokenizer := none
  cast := fun _ v => v

def oneEntry : TextTensor ℤ := ⟨[1], .float32, [5], rfl⟩

theorem textSource_bareConfig (cfgProb : ℝ) :
    (bareConfig cfgProb).TextSource ⟨"lift", []⟩ (some oneEntry) oneEntry := by
  refine .precomputed ?_ rfl
  rintro - text - u ⟨⟩

theorem dropsAtRate_iff_always : (bareConfig 1).DropsAtRate ⟨"lift", []⟩ (some oneEntry) oneEntry :=
  (dropsAtRate_iff zero_le_one le_rfl (textSource_bareConfig 1)).mpr (Or.inr ⟨rfl, rfl⟩)

/-- With a probability of 10% the text is kept in 81% of the items. -/
theorem keptTooRarely_tenPercent :
    uniformDraws {ω | ∃ rest, (bareConfig (1 / 10)).itemText ⟨"lift", []⟩ (some oneEntry) ω =
        some (⟨oneEntry, false⟩, rest)} = ENNReal.ofReal (81 / 100) ∧
      ¬(bareConfig (1 / 10)).DropsAtRate ⟨"lift", []⟩ (some oneEntry) oneEntry := by
  have hkept := uniformDraws_kept (textSource_bareConfig (1 / 10)) (by norm_num [bareConfig])
    (by norm_num [bareConfig])
  have hrate : (1 - (bareConfig (1 / 10)).cfgProb) ^ 2 = 81 / 100 := by norm_num [bareConfig]
  rw [hrate] at hkept
  refine ⟨hkept, ?_⟩
  intro hdrops
  have hsame := hkept.symm.trans hdrops.kept
  rw [ENNReal.ofReal_eq_ofReal_iff (by norm_num) (by norm_num [bareConfig])] at hsame
  norm_num [bareConfig] at hsame

end TextConfig

end P2PRdt.Robot

import P2PRdt.Data.SystemChunks
import P2PRdt.Lib.LastWrite
import Mathlib.Order.Lattice.Nat

/-!
# The text embedding of a frame

What `get_repeated_text_embedding` attaches to the frames of a window. Each
accepted text annotation overwrites the slots from its own one on, so a slot
holds the embedding of the last annotation that reaches it (`Lib.LastWrite`).
Only the annotations inside the window are written: one from an earlier frame
stops at the edge of its own window, and one in front of the first window is
never read.
-/

namespace P2PRdt.Data

variable {φ τ ε : Type}

namespace ActionLabelAnnotationParser

variable (parser : ActionLabelAnnotationParser τ ε)

/-- The first text annotation of a frame whose version is accepted. -/
def accepted (ann : FrameAnnotation) : Option FrameTextAnnotation :=
  ann.frameTextAnnotations.find? (·.version ∈ parser.textAnnotationModelVersion)

/-- Text tokens in one shape: `expand` copies a row, and each accepted
annotation has a positive duration and an embedding in that shape. -/
structure TextReady (tokenizer : String) (row : τ → ε) (annotations : List FrameAnnotation) :
    Prop where
  tokenizer_eq : parser.textTokenizerName = some tokenizer
  expand_eq : ∀ e num, parser.text.expand e num = some (List.replicate num (row e))
  available : ∀ ann ∈ annotations, ∀ t ∈ parser.accepted ann, 0 < t.duration ∧
    (t.embedding t.version tokenizer).shape ≠ [] ∧
    ∃ e, parser.text.reshape (t.embedding t.version tokenizer) = some e

/-- The row of the embedding that is stored with `t`. -/
def embeddingOf (tokenizer : String) (row : τ → ε) (t : FrameTextAnnotation) : ε :=
  ((parser.text.reshape (t.embedding t.version tokenizer)).map row).getD parser.text.zeros

/-- The embedding that the annotation of frame `a` asks for. -/
def embeddingAt (tokenizer : String) (row : τ → ε) (annotations : List FrameAnnotation)
    (a : ℕ) : ε :=
  match annotations[a]?.bind parser.accepted with
  | some t => parser.embeddingOf tokenizer row t
  | none => parser.text.zeros

/-- The accepted text of annotation `a` reaches annotation `p`. -/
def Reaches (annotations : List FrameAnnotation) (p a : ℕ) : Prop :=
  ∃ t ∈ annotations[a]?.bind parser.accepted, a ≤ p ∧ p < a + lastFrames t.duration

/-- The text that frame `f` should get: that of the last annotation that
reaches the annotation of its label. -/
structure TextSpec (tokenizer : String) (row : τ → ε) (annotations : List FrameAnnotation)
    (f : ℕ) (v : ε) : Prop where
  last : ∀ a, IsGreatest {a | parser.Reaches annotations (f + 1) a} a →
    v = parser.embeddingAt tokenizer row annotations a
  none : (∀ a, ¬ parser.Reaches annotations (f + 1) a) → v = parser.text.zeros

/-- What the annotation in slot `i` writes into the slots of a window. -/
def writeOf (tokenizer : String) (row : τ → ε) (i : ℕ) (ann : FrameAnnotation) :
    Lib.Write ℕ ε where
  covers p :=
    match parser.accepted ann with
    | some t => decide (i ≤ p ∧ p < i + lastFrames t.duration)
    | none => false
  value :=
    match parser.accepted ann with
    | some t => parser.embeddingOf tokenizer row t
    | none => parser.text.zeros

variable {parser} {tokenizer : String} {row : τ → ε} {annotations : List FrameAnnotation}

theorem TextReady.textOk (h : parser.TextReady tokenizer row annotations) :
    ∀ a ∈ annotations, parser.TextOk a := by
  intro a ha tok t htok hfind _
  obtain rfl : tok = tokenizer := Option.some.inj (htok.symm.trans h.tokenizer_eq)
  obtain ⟨hpos, -, e, he⟩ := h.available a ha t hfind
  exact ⟨hpos, e, he, fun num => ⟨_, h.expand_eq e num, List.length_replicate⟩⟩

/-- Among the annotations that reach `p` there is a last one. -/
theorem exists_last_reaching {p : ℕ} (h : ∃ a, parser.Reaches annotations p a) :
    ∃ a, IsGreatest {a | parser.Reaches annotations p a} a := by
  have hbdd : BddAbove {a | parser.Reaches annotations p a} := by
    refine ⟨p, ?_⟩
    rintro a ⟨t, -, hle, -⟩
    exact hle
  exact ⟨_, Nat.sSup_mem h hbdd, fun a ha => le_csSup hbdd ha⟩

theorem getElem?_paint {text : List ε} {idx num : ℕ} {x : ε} (hle : idx + num ≤ text.length)
    (p : ℕ) : (paint text idx num (List.replicate num x))[p]? =
      if idx ≤ p ∧ p < idx + num then some x else text[p]? := by
  have hidx : (text.take idx).length = idx := by
    rw [List.length_take]
    omega
  have hnum : (text.take idx ++ List.replicate num x).length = idx + num := by
    rw [List.length_append, hidx, List.length_replicate]
  unfold paint
  rcases lt_or_ge p (idx + num) with hp | hp
  · rw [List.getElem?_append_left (by rwa [hnum])]
    rcases lt_or_ge p idx with hlt | hge
    · rw [List.getElem?_append_left (by rwa [hidx]), List.getElem?_take, if_pos hlt,
        if_neg (by omega)]
    · rw [List.getElem?_append_right (by rwa [hidx]), hidx, List.getElem?_replicate,
        if_pos (by omega), if_pos ⟨hge, hp⟩]
  · rw [List.getElem?_append_right (by rwa [hnum]), hnum, List.getElem?_drop,
      if_neg (by omega)]
    congr 1
    omega

/-- One call of `get_repeated_text_embedding`, past the version test. -/
theorem getRepeatedTextEmbedding_eq (text : List ε) (idx n : ℕ) (ann : FrameAnnotation)
    (h : parser.TextReady tokenizer row [ann]) :
    parser.getRepeatedTextEmbedding tokenizer text idx n ann.frameTextAnnotations =
      .ok (match parser.accepted ann with
        | some t =>
            let num := if idx + lastFrames t.duration > n then n - idx else lastFrames t.duration
            paint text idx num (List.replicate num (parser.embeddingOf tokenizer row t))
        | none => text) := by
  have havail := h.available ann (List.mem_singleton.mpr rfl)
  unfold accepted at havail ⊢
  generalize ann.frameTextAnnotations = annotations at havail ⊢
  induction annotations with
  | nil => rfl
  | cons t rest ih =>
      unfold getRepeatedTextEmbedding
      by_cases hver : t.version ∈ parser.textAnnotationModelVersion
      · have hfind : (t :: rest).find? (·.version ∈ parser.textAnnotationModelVersion) =
            some t := List.find?_cons_of_pos (by simpa using hver)
        rw [hfind] at havail ⊢
        obtain ⟨hpos, hshape, e, he⟩ := havail t rfl
        rw [if_pos hver]
        simp only [if_neg hshape, he, if_neg (not_le.mpr hpos), h.expand_eq, embeddingOf,
          Option.map_some, Option.getD_some]
      · have hfind : (t :: rest).find? (·.version ∈ parser.textAnnotationModelVersion) =
            rest.find? (·.version ∈ parser.textAnnotationModelVersion) :=
          List.find?_cons_of_neg (by simpa using hver)
        rw [hfind] at havail ⊢
        rw [if_neg hver]
        exact ih havail

/-- One annotation of the slice overwrites the slots that it covers. -/
theorem annotateText_writes {text : List ε} {i : ℕ} (hi : i ≤ text.length) {mem : ℕ → ε}
    (hmem : ∀ p < text.length, text[p]? = some (mem p)) {ann : FrameAnnotation}
    (h : parser.TextReady tokenizer row [ann]) {text' : List ε}
    (hcall : parser.annotateText text i text.length ann = .ok text') :
    text'.length = text.length ∧ ∀ p < text.length, text'[p]? =
      some (if (parser.writeOf tokenizer row i ann).covers p
        then (parser.writeOf tokenizer row i ann).value else mem p) := by
  rw [annotateText, h.tokenizer_eq] at hcall
  dsimp only at hcall
  rw [getRepeatedTextEmbedding_eq _ _ _ _ h] at hcall
  obtain rfl := Except.ok.inj hcall
  unfold writeOf
  cases hacc : parser.accepted ann with
  | none =>
      refine ⟨rfl, fun p hp => ?_⟩
      simp only [Bool.false_eq_true, if_false]
      exact hmem p hp
  | some t =>
      simp only [decide_eq_true_eq]
      obtain ⟨num, hnum⟩ : ∃ num, (if i + lastFrames t.duration > text.length
          then text.length - i else lastFrames t.duration) = num := ⟨_, rfl⟩
      rw [hnum]
      have hle : i + num ≤ text.length := by
        rw [← hnum]
        split <;> omega
      refine ⟨length_paint List.length_replicate hle, fun p hp => ?_⟩
      rw [getElem?_paint hle, hmem p hp]
      -- inside the chunk the clipped interval is the whole one
      have hclip : i ≤ p ∧ p < i + num ↔ i ≤ p ∧ p < i + lastFrames t.duration := by
        rw [← hnum]
        split <;> omega
      simp only [hclip]
      split <;> rfl

/-- The text of a chunk: all writes of the slice, in order. -/
theorem annotateLoop_text {i : ℕ} {slots slots' : List Slot} {text text' : List ε}
    {mem : ℕ → ε} (hmem : ∀ p < text.length, text[p]? = some (mem p))
    (h : parser.TextReady tokenizer row annotations)
    (hlen : i + annotations.length ≤ text.length)
    (hloop : parser.annotateLoop text.length annotations i slots text = .ok (slots', text')) :
    ∀ p < text.length, text'[p]? = some (Lib.writeAll mem
      (annotations.mapIdx fun j ann => parser.writeOf tokenizer row (i + j) ann) p) := by
  induction annotations generalizing i slots text mem with
  | nil =>
      obtain ⟨rfl, rfl⟩ : slots = slots' ∧ text = text' := by simpa [annotateLoop] using hloop
      exact hmem
  | cons ann rest ih =>
      have hhead : parser.TextReady tokenizer row [ann] :=
        ⟨h.tokenizer_eq, h.expand_eq, fun a ha => h.available a
          (List.mem_singleton.mp ha ▸ List.mem_cons_self ..)⟩
      have htail : parser.TextReady tokenizer row rest :=
        ⟨h.tokenizer_eq, h.expand_eq, fun a ha => h.available a (List.mem_cons_of_mem _ ha)⟩
      rw [List.length_cons] at hlen
      simp only [annotateLoop, bind, Except.bind] at hloop
      cases htext : parser.annotateText text i text.length ann with
      | error e =>
          rw [htext] at hloop
          cases hloop
      | ok text₁ =>
          rw [htext] at hloop
          dsimp only at hloop
          split at hloop
          · obtain ⟨hlen₁, hwrite⟩ := annotateText_writes (by omega) hmem hhead htext
            rw [← hlen₁] at hloop hwrite ⊢
            have hrest := ih hwrite htail (by omega) hloop
            intro p hp
            rw [hrest p hp, List.mapIdx_cons, Lib.writeAll_cons]
            simp only [Nat.add_zero, Nat.add_assoc, Nat.add_comm 1]
          · cases hloop

end ActionLabelAnnotationParser

namespace Chunking

open ActionLabelAnnotationParser

variable {config : VideoProtoDatasetConfig} {video : Video φ} {resize : Resize φ}
  {parser : ActionLabelAnnotationParser τ ε} {tokenizer : String} {row : τ → ε}
  {annotations : List FrameAnnotation}

/-- What the annotations of a window write into its slots. -/
def windowWrites (config : VideoProtoDatasetConfig) (video : Video φ)
    (parser : ActionLabelAnnotationParser τ ε) (tokenizer : String) (row : τ → ε)
    (annotations : List FrameAnnotation) (s : ℕ) : List (Lib.Write ℕ ε) :=
  (windowAnnotations config video annotations s).mapIdx fun i ann =>
    parser.writeOf tokenizer row i ann

theorem chunkAt_text (hann : parser.frameAnnotations = some annotations)
    (hready : parser.TextReady tokenizer row annotations) {s : ℕ}
    (hlen : annotations.length = video.frames.length) (hs : s < video.frames.length - 1)
    {item : ActionLabelVideoDatasetItem φ ε}
    (h : chunkAt config video resize parser s = .ok (some item)) {j : ℕ} (hj : j < config.T) :
    item.textEmbeddings[j]? = some (Lib.writeAll (fun _ => parser.text.zeros)
      (windowWrites config video parser tokenizer row annotations s) j) := by
  obtain ⟨frames, mask, hT, hcall⟩ := chunkAt_returns hs h
  obtain ⟨slots, text, hloop, -, hitem⟩ := annotateFrames_returns hann hcall
  obtain ⟨-, rfl⟩ := hitem item rfl
  rw [slice_eq, hT] at hloop
  have hlenT : (List.replicate config.T parser.text.zeros).length = config.T :=
    List.length_replicate
  have hwindow : parser.TextReady tokenizer row (windowAnnotations config video annotations s) :=
    ⟨hready.tokenizer_eq, hready.expand_eq, fun a ha => hready.available a
      (List.mem_of_mem_drop (List.mem_of_mem_take ha))⟩
  have hbase : ∀ p < (List.replicate config.T parser.text.zeros).length,
      (List.replicate config.T parser.text.zeros)[p]? = some parser.text.zeros := by
    intro p hp
    rw [List.getElem?_replicate, if_pos (by rwa [hlenT] at hp)]
  rw [← hlenT] at hj
  have htext := annotateLoop_text (i := 0) hbase hwindow
    (by
      rw [length_windowAnnotations hlen, hlenT, Nat.zero_add]
      exact Nat.min_le_left _ _)
    (by rwa [hlenT])
  rw [htext j hj]
  simp only [Nat.zero_add, windowWrites]

/-- The annotations that reach slot `j` of a window are those of the window
that reach the annotation of its label. -/
theorem mem_covering_iff {s j i : ℕ} (hj : j < validLen config video s) :
    i ∈ Lib.Covering (windowWrites config video parser tokenizer row annotations s) j ↔
      parser.Reaches annotations (s + j + 1) (s + i + 1) := by
  unfold Lib.Covering Reaches windowWrites
  simp only [Set.mem_ofPred_eq, List.getElem?_mapIdx, Option.mem_def, Option.map_eq_some_iff,
    Option.bind_eq_some_iff]
  constructor
  · rintro ⟨w, ⟨ann, hget, rfl⟩, hcov⟩
    simp only [writeOf] at hcov
    cases hacc : parser.accepted ann with
    | none =>
        rw [hacc] at hcov
        cases hcov
    | some t =>
        rw [hacc] at hcov
        have hle := of_decide_eq_true hcov
        rw [getElem?_windowAnnotations (by omega)] at hget
        exact ⟨t, ⟨ann, hget, hacc⟩, by omega, by omega⟩
  · rintro ⟨t, ⟨ann, hget, hacc⟩, hle, hlt⟩
    have hi : i < validLen config video s := by omega
    rw [← getElem?_windowAnnotations hi] at hget
    refine ⟨_, ⟨ann, hget, rfl⟩, ?_⟩
    simp only [writeOf, hacc]
    exact decide_eq_true ⟨by omega, by omega⟩

/-- A valid slot holds the embedding of the last annotation of its window that
reaches it. -/
theorem chunkAt_text_last (hann : parser.frameAnnotations = some annotations)
    (hready : parser.TextReady tokenizer row annotations) {s : ℕ}
    (hlen : annotations.length = video.frames.length) (hs : s < video.frames.length - 1)
    {item : ActionLabelVideoDatasetItem φ ε}
    (h : chunkAt config video resize parser s = .ok (some item)) {j : ℕ}
    (hj : j < validLen config video s) {a : ℕ} (hsa : s < a)
    (ha : IsGreatest {a | parser.Reaches annotations (s + j + 1) a} a) :
    item.textEmbeddings[j]? = some (parser.embeddingAt tokenizer row annotations a) := by
  obtain ⟨i, rfl⟩ : ∃ i, a = s + i + 1 := ⟨a - s - 1, by omega⟩
  rw [chunkAt_text hann hready hlen hs h (hj.trans_le (Nat.min_le_left _ _))]
  rcases ha.1 with ⟨t, hbind, hle, hlt⟩
  obtain ⟨ann, hget, hacc⟩ := Option.bind_eq_some_iff.mp hbind
  have hwindow : (windowAnnotations config video annotations s)[i]? = some ann := by
    rwa [getElem?_windowAnnotations (by omega)]
  have hgreatest : IsGreatest
      (Lib.Covering (windowWrites config video parser tokenizer row annotations s) j) i := by
    refine ⟨(mem_covering_iff hj).mpr ha.1, fun k hk => ?_⟩
    have := ha.2 ((mem_covering_iff hj).mp hk)
    omega
  have hwrite : (windowWrites config video parser tokenizer row annotations s)[i]? =
      some (parser.writeOf tokenizer row i ann) := by
    rw [windowWrites, List.getElem?_mapIdx, hwindow]
    rfl
  rw [Lib.writeAll_of_isGreatest _ hgreatest hwrite, embeddingAt, hbind]
  simp only [writeOf, hacc]

/-- Where no annotation of the window reaches, the slot keeps its zeros. -/
theorem chunkAt_text_zeros (hann : parser.frameAnnotations = some annotations)
    (hready : parser.TextReady tokenizer row annotations) {s : ℕ}
    (hlen : annotations.length = video.frames.length) (hs : s < video.frames.length - 1)
    {item : ActionLabelVideoDatasetItem φ ε}
    (h : chunkAt config video resize parser s = .ok (some item)) {j : ℕ}
    (hj : j < validLen config video s)
    (hnone : ∀ a, s < a → ¬ parser.Reaches annotations (s + j + 1) a) :
    item.textEmbeddings[j]? = some parser.text.zeros := by
  rw [chunkAt_text hann hready hlen hs h (hj.trans_le (Nat.min_le_left _ _)),
    Lib.writeAll_of_not_covered]
  intro i hi
  exact hnone (s + i + 1) (by omega) ((mem_covering_iff hj).mp hi)

/-- The annotations of four frames, the second with a text for a second. -/
def fourAnnotations : List FrameAnnotation :=
  [{}, { frameTextAnnotations := [⟨"v", 1, fun _ _ => ⟨[1, 1], [2]⟩⟩] }, {}, {}]

def fourFrameParser : ActionLabelAnnotationParser (List ℚ) (List ℚ) :=
  { twoFrameParser 1 with frameAnnotations := some fourAnnotations }

def shuffledChunks : VideoProtoDatasetConfig where
  T := 2

theorem fourFrameParser_textReady :
    fourFrameParser.TextReady "gemma" id fourAnnotations := by
  refine ⟨rfl, fun _ _ => rfl, ?_⟩
  intro ann hann t ht
  simp only [fourAnnotations, List.mem_cons, List.not_mem_nil, or_false] at hann
  rcases hann with rfl | rfl | rfl | rfl
  · cases ht
  · obtain rfl := Option.some.inj ht
    exact ⟨one_pos, by simp, [2], rfl⟩
  · cases ht
  · cases ht

theorem fourAnnotations_last :
    IsGreatest {a | fourFrameParser.Reaches fourAnnotations 2 a} 1 := by
  constructor
  · exact ⟨_, rfl, by decide, by decide +kernel⟩
  · rintro a ⟨t, ht, hle, -⟩
    by_contra hlt
    obtain rfl : a = 2 := by omega
    cases ht

end Chunking

end P2PRdt.Data

import P2PRdt.Lib.OptionLists
import P2PRdt.Policy.CachedDecoding
import Mathlib.Analysis.SpecialFunctions.Trigonometric.Basic

/-!
# Rotary positions are relative

`RotaryPositionalEmbeddings` turns queries and keys by their positions, and only
the angle between a query and a key counts. So `Transformer.forward` does the
same when all entries of `input_pos` move by one number, as long as the table of
cosines and sines has a row for each of them; otherwise it raises. The sinks are
the exception: their keys are never turned. A transformer whose positions are
moved is one whose sink keys are turned back.
-/

namespace P2PRdt.Policy

open Lib

variable {c : TransformerConfig}

/-! ## Turning the lanes of a head -/

/-- The angle at position `pos` of a pair of lanes. -/
noncomputable def rotaryAngle (c : TransformerConfig) (pos : ℕ) (i : Fin c.rotaryPairs) : ℝ :=
  pos * (1 / ((10000 : ℕ) : ℝ) ^ (((2 * i.val : ℕ) : ℝ) / (c.embedSizePerHead : ℝ)))

theorem rotaryEmbedding_apply (pos : ℕ) (x : Fin c.rotaryPairs × Fin 2 → ℝ)
    (i : Fin c.rotaryPairs) :
    rotaryEmbedding pos x (i, 0) =
        x (i, 0) * Real.cos (rotaryAngle c pos i) - x (i, 1) * Real.sin (rotaryAngle c pos i) ∧
      rotaryEmbedding pos x (i, 1) =
        x (i, 1) * Real.cos (rotaryAngle c pos i) + x (i, 0) * Real.sin (rotaryAngle c pos i) :=
  ⟨rfl, rfl⟩

theorem rotaryAngle_add (δ pos : ℕ) (i : Fin c.rotaryPairs) :
    rotaryAngle c (pos + δ) i = rotaryAngle c pos i + rotaryAngle c δ i := by
  rw [rotaryAngle, Nat.cast_add, add_mul]
  rfl

/-- Turning twice adds the positions. -/
theorem rotaryEmbedding_add (δ pos : ℕ) (x : Fin c.rotaryPairs × Fin 2 → ℝ) :
    rotaryEmbedding (pos + δ) x = rotaryEmbedding δ (rotaryEmbedding pos x) := by
  funext ⟨i, side⟩
  obtain ⟨hsum₀, hsum₁⟩ := rotaryEmbedding_apply (pos + δ) x i
  obtain ⟨hpos₀, hpos₁⟩ := rotaryEmbedding_apply pos x i
  obtain ⟨hδ₀, hδ₁⟩ := rotaryEmbedding_apply δ (rotaryEmbedding pos x) i
  rw [rotaryAngle_add, Real.cos_add, Real.sin_add] at hsum₀ hsum₁
  fin_cases side
  · show rotaryEmbedding (pos + δ) x (i, 0) = rotaryEmbedding δ (rotaryEmbedding pos x) (i, 0)
    rw [hsum₀, hδ₀, hpos₀, hpos₁]
    ring
  · show rotaryEmbedding (pos + δ) x (i, 1) = rotaryEmbedding δ (rotaryEmbedding pos x) (i, 1)
    rw [hsum₁, hδ₁, hpos₀, hpos₁]
    ring

/-- Turning both keeps the product of a query and a key. -/
theorem sum_rotaryEmbedding (δ : ℕ) (x y : Fin c.rotaryPairs × Fin 2 → ℝ) :
    ∑ lane, rotaryEmbedding δ x lane * rotaryEmbedding δ y lane = ∑ lane, x lane * y lane := by
  rw [Fintype.sum_prod_type, Fintype.sum_prod_type]
  apply Finset.sum_congr rfl
  intro i _
  rw [Fin.sum_univ_two, Fin.sum_univ_two]
  obtain ⟨hx₀, hx₁⟩ := rotaryEmbedding_apply δ x i
  obtain ⟨hy₀, hy₁⟩ := rotaryEmbedding_apply δ y i
  rw [hx₀, hx₁, hy₀, hy₁]
  have hcircle := Real.sin_sq_add_cos_sq (rotaryAngle c δ i)
  linear_combination (x (i, 0) * y (i, 0) + x (i, 1) * y (i, 1)) * hcircle

/-- All heads turned. -/
noncomputable def turn (δ : ℕ) (q : c.HeadLane → ℝ) : c.HeadLane → ℝ :=
  fun (head, lane) => rotaryEmbedding δ (fun l => q (head, l)) lane

noncomputable def KeyValue.turn (δ : ℕ) (kv : KeyValue c ℝ) : KeyValue c ℝ :=
  { kv with key := Policy.turn δ kv.key }

/-! ## A layer with turned keys -/

namespace SelfAttention

variable {n : ℕ} (a : SelfAttention c n ℝ)

theorem query_add (δ pos : ℕ) (h : Fin c.embedDim → ℝ) :
    a.query (pos + δ) h = turn δ (a.query pos h) := by
  funext ⟨head, lane⟩
  exact congrFun (rotaryEmbedding_add δ pos fun l =>
    rmsNorm transformerNormEps a.qNorm (fun i => a.cAttn.mulVec h (.inl i)) (head, l)) lane

theorem keyValue_add (δ pos : ℕ) (h : Fin c.embedDim → ℝ) :
    a.keyValue (pos + δ) h = (a.keyValue pos h).turn δ := by
  rw [keyValue, KeyValue.turn, keyValue, KeyValue.mk.injEq]
  refine ⟨?_, rfl⟩
  funext ⟨head, lane⟩
  exact congrFun (rotaryEmbedding_add δ pos fun l =>
    rmsNorm transformerNormEps a.kNorm (fun i => a.cAttn.mulVec h (.inr (.inl i))) (head, l)) lane

theorem keyWeight_turn (δ : ℕ) (q : c.HeadLane → ℝ) (head : Fin c.nHead) (kv : KeyValue c ℝ) :
    keyWeight (turn δ q) head (kv.turn δ) = keyWeight q head kv := by
  rw [keyWeight, keyWeight,
    ← sum_rotaryEmbedding δ (fun l => q (head, l)) fun l => kv.key (head, l)]
  rfl

/-- A turned query sees turned keys as it saw the keys before. -/
theorem attend_turn (δ : ℕ) (q : c.HeadLane → ℝ) (view : List (Option (KeyValue c ℝ))) :
    attend (turn δ q) (view.map (Option.map (KeyValue.turn δ))) = attend q view := by
  funext ⟨head, lane⟩
  have hreduce : (view.map (Option.map (KeyValue.turn δ))).reduceOption =
      view.reduceOption.map (KeyValue.turn δ) := List.reduceOption_map
  have hweight : keyWeight (turn δ q) head ∘ KeyValue.turn δ = keyWeight q head :=
    funext (keyWeight_turn δ q head)
  rw [attend_eq_mean, attend_eq_mean, hreduce, List.map_map, List.map_map, hweight]
  congr 3
  funext kv
  rw [Function.comp_apply, keyWeight_turn]
  rfl

end SelfAttention

namespace TransformerLayer

variable {n : ℕ} (l : TransformerLayer c n ℝ)

/-- The layer with its sink keys turned. -/
noncomputable def turnSinks (δ : ℕ) : TransformerLayer c n ℝ :=
  { l with selfAttention :=
      { l.selfAttention with sinks := fun i => (l.selfAttention.sinks i).turn δ } }

theorem forward_turnSinks (δ pos : ℕ) (x : Fin c.embedDim → ℝ)
    (view : List (Option (KeyValue c ℝ))) :
    (l.turnSinks δ).forward (fun _ => none) (pos + δ) x (view.map (Option.map (KeyValue.turn δ))) =
      l.forward (fun _ => none) pos x view := by
  have hquery : ∀ h, (l.turnSinks δ).selfAttention.query (pos + δ) h =
      turn δ (l.selfAttention.query pos h) := fun h => l.selfAttention.query_add δ pos h
  have hattend : ∀ h, (l.turnSinks δ).selfAttention.forward none (pos + δ) h
      (view.map (Option.map (KeyValue.turn δ))) = l.selfAttention.forward none pos h view := by
    intro h
    rw [SelfAttention.forward, hquery, SelfAttention.attend_turn]
    rfl
  rw [forward, hattend]
  rfl

end TransformerLayer

/-! ## All layers -/

variable {cfg : PolicyConfig}

/-- A layer under its mask, for tokens at the positions `inputPos`. -/
noncomputable def CachedLayer.atPositions (l : CachedLayer cfg c ℝ) (inputPos : ℕ → ℕ) :
    MaskedLayer (Fin c.embedDim → ℝ) (KeyValue c ℝ) :=
  { l.uncut with
    project := fun p => l.layer.keyValue (inputPos p)
    update := fun p => l.layer.forward (fun _ => none) (inputPos p) }

noncomputable def CachedLayer.turnSinks (l : CachedLayer cfg c ℝ) (δ : ℕ) :
    CachedLayer cfg c ℝ := { l with layer := l.layer.turnSinks δ }

/-- What a position sees when all positions are moved. -/
theorem view_turnSinks (l : CachedLayer cfg c ℝ) (inputPos : ℕ → ℕ) (δ : ℕ)
    (x : List (Fin c.embedDim → ℝ)) (q : ℕ) :
    ((l.turnSinks δ).atPositions fun p => inputPos p + δ).view x q =
      ((l.atPositions inputPos).view x q).map (Option.map (KeyValue.turn δ)) := by
  have hkeys : ((l.turnSinks δ).atPositions fun p => inputPos p + δ).keys x =
      ((l.atPositions inputPos).keys x).map (KeyValue.turn δ) := by
    rw [MaskedLayer.keys, MaskedLayer.keys, List.map_append]
    congr 1
    · show _ = List.map (KeyValue.turn δ) (List.ofFn l.layer.selfAttention.sinks)
      rw [List.map_ofFn]
      rfl
    · apply List.ext_getElem?
      intro p
      rw [List.getElem?_map, List.getElem?_mapIdx, List.getElem?_mapIdx, Option.map_map]
      congr 1
      funext x
      exact l.layer.selfAttention.keyValue_add δ (inputPos p) _
  rw [MaskedLayer.view, hkeys]
  apply List.ext_getElem?
  intro kv
  rw [List.getElem?_mapIdx, List.getElem?_map, List.getElem?_map, MaskedLayer.view,
    List.getElem?_mapIdx, Option.map_map, Option.map_map]
  congr 1
  funext k
  show (if l.uncut.mask q kv then some (k.turn δ) else none) =
    Option.map (KeyValue.turn δ) (if l.uncut.mask q kv then some k else none)
  split <;> rfl

/-- **Positions are relative.** When every token is moved by `δ` positions and the
sink keys are turned along, the transformer computes the same, for all layers,
histories and sequences; without sinks, moving the tokens alone changes nothing. -/
theorem runAll_atPositions (layers : List (CachedLayer cfg c ℝ)) (inputPos : ℕ → ℕ) (δ : ℕ)
    (x : List (Fin c.embedDim → ℝ)) :
    runAll (layers.map fun l => (l.turnSinks δ).atPositions fun p => inputPos p + δ) x =
        runAll (layers.map fun l => l.atPositions inputPos) x ∧
      (cfg.nKvSinkTokens = 0 →
        runAll (layers.map fun l => l.atPositions fun p => inputPos p + δ) x =
          runAll (layers.map fun l => l.atPositions inputPos) x) := by
  have hturned : ∀ x, runAll
      (layers.map fun l => (l.turnSinks δ).atPositions fun p => inputPos p + δ) x =
      runAll (layers.map fun l => l.atPositions inputPos) x := by
    induction layers with
    | nil => exact fun x => rfl
    | cons l layers ih =>
        intro x
        have hrun : ((l.turnSinks δ).atPositions fun p => inputPos p + δ).run x =
            (l.atPositions inputPos).run x := by
          apply List.ext_getElem?
          intro q
          rw [MaskedLayer.getElem?_run, MaskedLayer.getElem?_run, view_turnSinks]
          congr 1
          funext v
          exact l.layer.forward_turnSinks δ (inputPos q) v _
        rw [List.map_cons, List.map_cons, runAll, runAll, List.foldl_cons, List.foldl_cons, hrun]
        exact ih _
  refine ⟨hturned x, ?_⟩
  intro hnone
  have hsame : ∀ l : CachedLayer cfg c ℝ, l.turnSinks δ = l := by
    intro l
    have hsinks : (fun i => (l.layer.selfAttention.sinks i).turn δ) =
        l.layer.selfAttention.sinks := by
      funext i
      exact absurd i.isLt (by omega)
    rw [CachedLayer.turnSinks, TransformerLayer.turnSinks, hsinks]
  rw [← hturned x]
  simp only [hsame]

/-! ## The table of cosines and sines -/

/-- `build_rope_cache`: a row of cosines and sines for each position below
`max_seq_len`. -/
noncomputable def buildRopeCache (c : TransformerConfig) (maxSeqLen : ℕ) :
    List (Fin c.rotaryPairs → ℝ × ℝ) :=
  (List.range maxSeqLen).map fun pos i =>
    (Real.cos (rotaryAngle c pos i), Real.sin (rotaryAngle c pos i))

theorem ropeForward_buildRopeCache (maxSeqLen inputPos : ℕ) (x : c.HeadLane → ℝ) :
    ropeForward (buildRopeCache c maxSeqLen) inputPos x =
      if inputPos < maxSeqLen then some (turn inputPos x) else none := by
  rw [ropeForward, buildRopeCache, List.getElem?_map]
  split
  · next hpos =>
      rw [List.getElem?_range hpos]
      rfl
  · next hpos =>
      have hlen : (List.range maxSeqLen).length ≤ inputPos := by
        rw [List.length_range]
        exact Nat.le_of_not_lt hpos
      rw [List.getElem?_eq_none hlen]
      rfl

/-- Queries, keys and values of `SelfAttention.forward`, from a normalized token. -/
noncomputable def SelfAttention.turned {n : ℕ} (a : SelfAttention c n ℝ)
    (ropeCache : List (Fin c.rotaryPairs → ℝ × ℝ)) (inputPos : ℕ) (h : Fin c.embedDim → ℝ) :
    Option ((c.HeadLane → ℝ) × KeyValue c ℝ) := do
  let q ← ropeForward ropeCache inputPos
    (rmsNorm transformerNormEps a.qNorm fun i => a.cAttn.mulVec h (.inl i))
  let k ← ropeForward ropeCache inputPos
    (rmsNorm transformerNormEps a.kNorm fun i => a.cAttn.mulVec h (.inr (.inl i)))
  return (q, { key := k, value := fun i => a.cAttn.mulVec h (.inr (.inr i)) })

theorem SelfAttention.turned_buildRopeCache {n : ℕ} (a : SelfAttention c n ℝ)
    (maxSeqLen inputPos : ℕ) (h : Fin c.embedDim → ℝ) :
    a.turned (buildRopeCache c maxSeqLen) inputPos h =
      if inputPos < maxSeqLen then some (a.query inputPos h, a.keyValue inputPos h) else none := by
  rw [turned, ropeForward_buildRopeCache, ropeForward_buildRopeCache]
  split <;> rfl

/-- `TransformerSelfAttentionLayer.forward` for a whole sequence, outside of
training and without a cache of keys. -/
noncomputable def CachedLayer.forwardAt (l : CachedLayer cfg c ℝ)
    (ropeCache : List (Fin c.rotaryPairs → ℝ × ℝ)) (inputPos : ℕ → ℕ)
    (x : List (Fin c.embedDim → ℝ)) : Option (List (Fin c.embedDim → ℝ)) := do
  let a := l.layer.selfAttention
  let qkv ← x.zipIdx.mapM fun (token, p) =>
    a.turned ropeCache (inputPos p) (rmsNorm transformerNormEps l.layer.selfAttentionNorm token)
  let keys := List.ofFn a.sinks ++ qkv.map Prod.snd
  return List.zipWith (fun (token, p) (q, _) =>
    let view := keys.mapIdx fun kv k =>
      if cfg.layerMask l.attentionHistoryLen p kv then some k else none
    let h2 := a.cProj.mulVec (SelfAttention.attend q view) + token
    h2 + l.layer.ffn.forward (rmsNorm transformerNormEps l.layer.ffnNorm h2)) x.zipIdx qkv

/-- `Transformer.forward`. -/
noncomputable def forwardAll (layers : List (CachedLayer cfg c ℝ))
    (ropeCache : List (Fin c.rotaryPairs → ℝ × ℝ)) (inputPos : ℕ → ℕ)
    (x : List (Fin c.embedDim → ℝ)) : Option (List (Fin c.embedDim → ℝ)) :=
  layers.foldlM (fun x l => l.forwardAt ropeCache inputPos x) x

/-- A layer computes what it does without a table, if all positions have a row. -/
theorem CachedLayer.forwardAt_buildRopeCache (l : CachedLayer cfg c ℝ) (maxSeqLen : ℕ)
    (inputPos : ℕ → ℕ) (x : List (Fin c.embedDim → ℝ)) :
    l.forwardAt (buildRopeCache c maxSeqLen) inputPos x =
      if ∀ p < x.length, inputPos p < maxSeqLen then some ((l.atPositions inputPos).run x)
      else none := by
  let a := l.layer.selfAttention
  let h (token : Fin c.embedDim → ℝ) :=
    rmsNorm transformerNormEps l.layer.selfAttentionNorm token
  have hturned : ∀ t : (Fin c.embedDim → ℝ) × ℕ,
      a.turned (buildRopeCache c maxSeqLen) (inputPos t.2) (h t.1) =
        if inputPos t.2 < maxSeqLen then
          some (a.query (inputPos t.2) (h t.1), a.keyValue (inputPos t.2) (h t.1))
        else none := fun t => a.turned_buildRopeCache maxSeqLen (inputPos t.2) (h t.1)
  split
  · next hinside =>
      have hqkv := mapM_eq_map (l := x.zipIdx) fun t ht =>
        (hturned t).trans (if_pos (hinside t.2 (List.snd_lt_of_mem_zipIdx ht)))
      have hkeys : List.ofFn a.sinks ++ (x.zipIdx.map fun t =>
          (a.query (inputPos t.2) (h t.1), a.keyValue (inputPos t.2) (h t.1))).map Prod.snd =
          (l.atPositions inputPos).keys x := by
        rw [MaskedLayer.keys, List.map_map, List.mapIdx_eq_zipIdx_map]
        rfl
      rw [forwardAt]
      refine (congrArg (Option.bind · _) hqkv).trans ?_
      dsimp only
      rw [Option.bind_some, hkeys, List.zipWith_map_right, List.zipWith_self, MaskedLayer.run,
        List.mapIdx_eq_zipIdx_map]
      rfl
  · next houtside =>
      push Not at houtside
      obtain ⟨p, hp, hrow⟩ := houtside
      have hmem : (x.get ⟨p, hp⟩, p) ∈ x.zipIdx :=
        List.mem_zipIdx_iff_getElem?.mpr (List.getElem?_eq_getElem hp)
      have hraise := (hturned (x.get ⟨p, hp⟩, p)).trans (if_neg (Nat.not_lt.mpr hrow))
      have hqkv := mapM_eq_none (f := fun t : (Fin c.embedDim → ℝ) × ℕ =>
        a.turned (buildRopeCache c maxSeqLen) (inputPos t.2) (h t.1)) hmem hraise
      exact congrArg (Option.bind · _) hqkv

theorem forwardAll_cons (l : CachedLayer cfg c ℝ) (layers : List (CachedLayer cfg c ℝ))
    (ropeCache : List (Fin c.rotaryPairs → ℝ × ℝ)) (inputPos : ℕ → ℕ)
    (x : List (Fin c.embedDim → ℝ)) :
    forwardAll (l :: layers) ropeCache inputPos x =
      (l.forwardAt ropeCache inputPos x).bind (forwardAll layers ropeCache inputPos) :=
  List.foldlM_cons

/-- All layers compute what they do without a table. -/
theorem forwardAll_inside (layers : List (CachedLayer cfg c ℝ)) {maxSeqLen : ℕ}
    {inputPos : ℕ → ℕ} {x : List (Fin c.embedDim → ℝ)}
    (hinside : ∀ p < x.length, inputPos p < maxSeqLen) :
    forwardAll layers (buildRopeCache c maxSeqLen) inputPos x =
      some (runAll (layers.map fun l => l.atPositions inputPos) x) := by
  induction layers generalizing x with
  | nil => rfl
  | cons l layers ih =>
      rw [forwardAll_cons, l.forwardAt_buildRopeCache, if_pos hinside, Option.bind_some]
      apply ih
      rwa [MaskedLayer.length_run]

theorem forwardAll_outside {layers : List (CachedLayer cfg c ℝ)} (hlayers : layers ≠ [])
    {maxSeqLen : ℕ} {inputPos : ℕ → ℕ} {x : List (Fin c.embedDim → ℝ)}
    (houtside : ¬ ∀ p < x.length, inputPos p < maxSeqLen) :
    forwardAll layers (buildRopeCache c maxSeqLen) inputPos x = none := by
  obtain ⟨l, rest, rfl⟩ := List.exists_cons_of_ne_nil hlayers
  rw [forwardAll_cons, l.forwardAt_buildRopeCache, if_neg houtside, Option.bind_none]

/-- **Positions are relative, inside of the table.** Tokens at positions moved by `δ`
go through the layers exactly when all these positions have a row of the table. Then
the tokens before the move go through as well, and the result is the same with the
sink keys turned along; without sinks it is the same as it is. -/
theorem forwardAll_moved {layers : List (CachedLayer cfg c ℝ)} (hlayers : layers ≠ [])
    (maxSeqLen δ : ℕ) (inputPos : ℕ → ℕ) (x : List (Fin c.embedDim → ℝ)) :
    let ropeCache := buildRopeCache c maxSeqLen
    let moved : ℕ → ℕ := fun p => inputPos p + δ
    ((forwardAll layers ropeCache moved x).isSome ↔ ∀ p < x.length, inputPos p + δ < maxSeqLen) ∧
      ((∀ p < x.length, inputPos p + δ < maxSeqLen) →
        (forwardAll layers ropeCache inputPos x).isSome ∧
        forwardAll (layers.map (·.turnSinks δ)) ropeCache moved x =
          forwardAll layers ropeCache inputPos x ∧
        (cfg.nKvSinkTokens = 0 →
          forwardAll layers ropeCache moved x = forwardAll layers ropeCache inputPos x)) := by
  intro ropeCache moved
  refine ⟨⟨?_, ?_⟩, ?_⟩
  · intro hsome
    by_contra houtside
    rw [forwardAll_outside hlayers houtside] at hsome
    exact Bool.false_ne_true hsome
  · intro hinside
    rw [forwardAll_inside layers hinside]
    rfl
  · intro hinside
    have hbefore : ∀ p < x.length, inputPos p < maxSeqLen := fun p hp =>
      (Nat.le_add_right _ δ).trans_lt (hinside p hp)
    obtain ⟨hturned, hsame⟩ := runAll_atPositions layers inputPos δ x
    rw [forwardAll_inside layers hbefore, forwardAll_inside layers hinside,
      forwardAll_inside (layers.map (·.turnSinks δ)) hinside, List.map_map]
    exact ⟨rfl, congrArg some hturned, fun hnone => congrArg some (hsame hnone)⟩

/-! ## One layer without sinks -/

def withoutSinks : PolicyConfig := { twoCachedSteps with nKvSinkTokens := 0 }

/-- Every weight is one, so scores and values depend on all lanes of a token. -/
noncomputable def TransformerLayer.ones (c : TransformerConfig) : TransformerLayer c 0 ℝ where
  selfAttention :=
    { cAttn := fun _ _ => 1
      cProj := fun _ _ => 1
      qNorm := 1
      kNorm := 1
      sinks := fun i => i.elim0 }
  ffn := { w13 := fun _ _ => 1, w2 := fun _ _ => 1 }
  selfAttentionNorm := 1
  ffnNorm := 1

/-- Three tokens at the places 0, 1, 2, and the same tokens at 4, 5, 6: a table of seven
rows is enough, one of six raises. -/
theorem forwardAll_moved_withoutSinks :
    let c : TransformerConfig := ⟨1, 1, one_pos, one_pos⟩
    let l : CachedLayer withoutSinks c ℝ := ⟨2, TransformerLayer.ones c⟩
    let x : List (Fin c.embedDim → ℝ) := [![1, 0], ![2, 5], ![3, -4]]
    forwardAll [l, l] (buildRopeCache c 7) (fun p => p + 4) x =
        forwardAll [l, l] (buildRopeCache c 7) (fun p => p) x ∧
      ¬ (forwardAll [l, l] (buildRopeCache c 6) (fun p => p + 4) x).isSome := by
  intro c l x
  have hlayers : [l, l] ≠ [] := List.cons_ne_nil _ _
  obtain ⟨-, -, hsame⟩ := (forwardAll_moved hlayers 7 4 (fun p => p) x).2
    (fun p hp => Nat.add_lt_add_right hp 4)
  refine ⟨hsame rfl, ?_⟩
  intro hsome
  have hrow := (forwardAll_moved hlayers 6 4 (fun p => p) x).1.mp hsome 2 (Nat.lt_succ_self 2)
  exact absurd hrow (by decide)

end P2PRdt.Policy

import P2PRdt.Lib.StreamedLayers
import P2PRdt.Policy.DecodeMask
import P2PRdt.Policy.SelfAttention

/-!
# The transformer with its cache

`Transformer.forward` with `kv_cache_state` and `use_decode_mask`: one step of
tokens goes through all layers, and each layer adds the keys and values of the
step to its own rolling cache and attends to the cache. Decoding any number of
steps, one after the other, computes what one pass over all of them does, with
the history of a layer cut to the steps that the cache holds. A pass over no
more steps than that needs no cut.
-/

namespace P2PRdt.Policy

open Lib

/-! ## Attention looks at the keys it sees -/

section Attention

variable {c : TransformerConfig} {K : Type} [Field K]

/-- A sum over a list with holes, in which a hole counts for nothing. -/
theorem sum_view {α : Type} {f : Option α → K} (hf : f none = 0) (view : List (Option α)) :
    ∑ i : Fin view.length, f (view.get i) = (view.reduceOption.map fun a => f (some a)).sum := by
  have hlist : ∑ i : Fin view.length, f (view.get i) = (view.map f).sum := by
    rw [← List.sum_ofFn, ← Function.comp_def f, ← List.map_ofFn, List.ofFn_get]
  rw [hlist]
  clear hlist
  induction view with
  | nil => rfl
  | cons o view ih =>
      cases o with
      | none => rw [List.map_cons, List.sum_cons, hf, zero_add, ih, List.reduceOption_cons_of_none]
      | some a =>
          rw [List.map_cons, List.sum_cons, ih, List.reduceOption_cons_of_some, List.map_cons,
            List.sum_cons]

variable [Elementary K]

namespace SelfAttention

/-- The weight of a key before the weights are divided by their sum. -/
def keyWeight (q : c.HeadLane → K) (head : Fin c.nHead) (kv : KeyValue c K) : K :=
  Elementary.exp ((∑ lane, q (head, lane) * kv.key (head, lane)) *
    (1 / Elementary.sqrt (c.embedSizePerHead : K)))

/-- Attention is a mean of the values that are seen. -/
theorem attend_eq_mean (q : c.HeadLane → K) (view : List (Option (KeyValue c K)))
    (head : Fin c.nHead) (lane : Fin c.rotaryPairs × Fin 2) :
    attend q view (head, lane) =
      (view.reduceOption.map fun kv => keyWeight q head kv * kv.value (head, lane)).sum /
        (view.reduceOption.map (keyWeight q head)).sum := by
  let weight (o : Option (KeyValue c K)) : K := softmaxWeight (o.map fun kv =>
    (∑ lane, q (head, lane) * kv.key (head, lane)) * (1 / Elementary.sqrt (c.embedSizePerHead : K)))
  let value (o : Option (KeyValue c K)) : K := o.elim 0 fun kv => kv.value (head, lane)
  have hattend : attend q view (head, lane) =
      (∑ i : Fin view.length, weight (view.get i) * value (view.get i)) /
        ∑ i : Fin view.length, weight (view.get i) := by
    rw [Finset.sum_div]
    apply Finset.sum_congr rfl
    intro i _
    exact div_mul_eq_mul_div _ _ _
  have hproduct : weight none * value none = 0 := mul_zero _
  rw [hattend, sum_view (f := fun o => weight o * value o) hproduct, sum_view (f := weight) rfl]
  rfl

theorem attend_reduceOption (q : c.HeadLane → K) {view view' : List (Option (KeyValue c K))}
    (h : view.reduceOption = view'.reduceOption) : attend q view = attend q view' := by
  funext ⟨head, lane⟩
  rw [attend_eq_mean, attend_eq_mean, h]

end SelfAttention

theorem TransformerLayer.ignoresHoles {cfg : PolicyConfig}
    (l : TransformerLayer c cfg.nKvSinkTokens K) (historyLen : ℕ) (draw : ℕ → DropoutDraw c) :
    (l.attentionLayer historyLen draw).masked.IgnoresHoles := by
  intro pos x view view' h
  show l.forward draw pos x view = l.forward draw pos x view'
  rw [forward, forward, SelfAttention.forward, SelfAttention.forward,
    SelfAttention.attend_reduceOption _ h]

end Attention

/-! ## The mask of the newest step -/

namespace PolicyConfig

variable {cfg : PolicyConfig}

/-- The mask looks at distances between steps only. -/
theorem layerMask_shift (h a q p : ℕ) :
    cfg.layerMask h (a * cfg.stepSize + q) (cfg.nKvSinkTokens + (a * cfg.stepSize + p)) =
      cfg.layerMask h q (cfg.nKvSinkTokens + p) := by
  have hdiv : ∀ n, (a * cfg.stepSize + n) / cfg.stepSize = a + n / cfg.stepSize := by
    intro n
    rw [Nat.mul_comm, Nat.mul_add_div cfg.stepSize_pos]
  have hmod : ∀ n, (a * cfg.stepSize + n) % cfg.stepSize = n % cfg.stepSize := by
    intro n
    rw [Nat.mul_comm, Nat.mul_add_mod]
  rw [Bool.eq_iff_iff, layerMask_token, layerMask_token, IsRealAction, IsRealAction]
  simp only [hdiv, hmod, Nat.add_lt_add_iff_left, Nat.add_left_cancel_iff, Nat.add_assoc,
    Nat.add_le_add_iff_left]

/-- Within the window, a history that is cut to the window is no shorter. -/
theorem layerMask_cut {h q p n : ℕ} (hq : q / cfg.stepSize ≤ n) :
    cfg.layerMask (min h n) q (cfg.nKvSinkTokens + p) =
      cfg.layerMask h q (cfg.nKvSinkTokens + p) := by
  rw [Bool.eq_iff_iff, layerMask_token, layerMask_token]
  generalize q / cfg.stepSize = qs at hq ⊢
  generalize p / cfg.stepSize = ps
  have hhistory : qs ≤ ps + min h n ↔ qs ≤ ps + h := by omega
  rw [hhistory]

/-- Token `j` of the newest of `m + 1` steps sees, with the mask of the decoder, what
the mask of the whole sequence shows it of the steps in the cache. -/
theorem decodeMask_allows {B h m j p : ℕ} (hB : 0 < B) (hn : 0 < cfg.nSteps)
    (hcover : cfg.RowCovers B (cfg.stepStart (m + 1))) (hj : j < cfg.stepSize)
    (hp : p < min (m + 1) cfg.nSteps * cfg.stepSize) :
    (cfg.decodeMask B h cfg.stepSize
        (cfg.nKvSinkTokens + min (m + 1) cfg.nSteps * cfg.stepSize)).allows j
          (cfg.nKvSinkTokens + p) =
      cfg.layerMask (min h (cfg.nSteps - 1)) (m * cfg.stepSize + j)
        (cfg.nKvSinkTokens + ((m + 1 - min (m + 1) cfg.nSteps) * cfg.stepSize + p)) := by
  have hlike := (attendsLikeFull_iff_rowCovers (h := h) hB (Nat.succ_pos m) hn).mpr hcover j hj
  have hkey := Set.ext_iff.mp hlike (cfg.nKvSinkTokens + p)
  have hwindow : min (m + 1) cfg.nSteps * cfg.stepSize ≤ cfg.maxSeqLen := by
    rw [maxSeqLen, Nat.mul_comm]
    exact Nat.mul_le_mul_left _ (Nat.min_le_right _ _)
  have hlt : cfg.nKvSinkTokens + p < cfg.maxSeqLen + cfg.nKvSinkTokens := by omega
  simp only [decodeKeys, fullKeys, Set.mem_ofPred_eq, Nat.add_lt_add_iff_left, hp, hlt,
    true_and] at hkey
  have hrow : m * cfg.stepSize + j =
      (m + 1 - min (m + 1) cfg.nSteps) * cfg.stepSize + (cfg.stepStart (m + 1) + j) := by
    have hsteps : m + 1 - min (m + 1) cfg.nSteps + (min (m + 1) cfg.nSteps - 1) = m := by omega
    rw [stepStart, ← Nat.add_assoc, ← Nat.add_mul, hsteps]
  have hcut : (cfg.stepStart (m + 1) + j) / cfg.stepSize ≤ cfg.nSteps - 1 := by
    rw [stepStart, cfg.row_div _ hj]
    omega
  rw [Bool.eq_iff_iff, hkey, hrow, layerMask_shift, layerMask_cut hcut]

theorem decodeMask_allows_sink {B h m j kv : ℕ} (hB : 0 < B) (hn : 0 < cfg.nSteps)
    (hcover : cfg.RowCovers B (cfg.stepStart (m + 1))) (hj : j < cfg.stepSize)
    (hkv : kv < cfg.nKvSinkTokens) :
    (cfg.decodeMask B h cfg.stepSize
        (cfg.nKvSinkTokens + min (m + 1) cfg.nSteps * cfg.stepSize)).allows j kv = true := by
  have hlike := (attendsLikeFull_iff_rowCovers (h := h) hB (Nat.succ_pos m) hn).mpr hcover j hj
  have hfull : kv ∈ cfg.fullKeys h (cfg.stepStart (m + 1) + j) :=
    ⟨hkv.trans_le (Nat.le_add_left _ _), cfg.layerMask_sink h _ hkv⟩
  rw [← hlike] at hfull
  exact hfull.2

/-- Steps that left the cache are out of reach. -/
theorem layerMask_evicted {h m j p : ℕ} (hn : 0 < cfg.nSteps) (hj : j < cfg.stepSize)
    (hp : p < (m + 1 - min (m + 1) cfg.nSteps) * cfg.stepSize) :
    cfg.layerMask (min h (cfg.nSteps - 1)) (m * cfg.stepSize + j) (cfg.nKvSinkTokens + p) =
      false := by
  rw [Bool.eq_false_iff]
  intro hmask
  have hhistory := ((cfg.layerMask_token _ _ _).mp hmask).1
  rw [cfg.row_div m hj] at hhistory
  have hstep : p / cfg.stepSize < m + 1 - min (m + 1) cfg.nSteps :=
    Nat.div_lt_of_lt_mul (Nat.mul_comm _ cfg.stepSize ▸ hp)
  have hcut : min h (cfg.nSteps - 1) ≤ cfg.nSteps - 1 := Nat.min_le_right _ _
  rcases Nat.le_total (m + 1) cfg.nSteps with hle | hle
  · rw [Nat.min_eq_left hle, Nat.sub_self] at hstep
    exact Nat.not_lt_zero _ hstep
  · rw [Nat.min_eq_right hle] at hstep
    omega

theorem layerMask_future {h m j p : ℕ} (hj : j < cfg.stepSize)
    (hp : (m + 1) * cfg.stepSize ≤ p) :
    cfg.layerMask h (m * cfg.stepSize + j) (cfg.nKvSinkTokens + p) = false := by
  rw [Bool.eq_false_iff]
  intro hmask
  have hwindow := (cfg.layerMask_window hmask).1
  rw [PolicyConfig.stepOf, PolicyConfig.stepOf, cfg.row_div m hj] at hwindow
  have hstep : m + 1 ≤ p / cfg.stepSize := (Nat.le_div_iff_mul_le cfg.stepSize_pos).mpr hp
  omega

end PolicyConfig

/-! ## Decoding step by step -/

namespace RollingStepKVCache

variable {cache : RollingStepKVCache} {A B C : Type}

theorem feed_concat (steps : List (cache.StepKV A B)) (s : cache.StepKV A B) :
    cache.feed (steps ++ [s]) = cache.update (cache.feed steps) s.k s.v none := by
  rw [feed, List.foldl_append]
  rfl

/-- The keys and values of some steps, put together again. -/
theorem zipWith_flatten (f : A → B → C) (steps : List (cache.StepKV A B)) :
    List.zipWith f (steps.map StepKV.k).flatten (steps.map StepKV.v).flatten =
      (steps.map fun s => List.zipWith f s.k s.v).flatten := by
  induction steps with
  | nil => rfl
  | cons s steps ih =>
      rw [List.map_cons, List.map_cons, List.map_cons, List.flatten_cons, List.flatten_cons,
        List.flatten_cons, List.zipWith_append (s.length_k.trans s.length_v.symm), ih]

end RollingStepKVCache

section Decoding

variable {c : TransformerConfig} {K : Type} [Field K] [Elementary K] {cfg : PolicyConfig}

/-- The tokens of one step. -/
abbrev StepRow (cfg : PolicyConfig) (c : TransformerConfig) (K : Type) :=
  Fin cfg.stepSize → Fin c.embedDim → K

abbrev LayerCache (c : TransformerConfig) (K : Type) :=
  KVCacheState (c.HeadLane → K) (c.HeadLane → K)

/-- A layer with the history length of its mask. -/
structure CachedLayer (cfg : PolicyConfig) (c : TransformerConfig) (K : Type) where
  attentionHistoryLen : ℕ
  layer : TransformerLayer c cfg.nKvSinkTokens K

namespace CachedLayer

variable (l : CachedLayer cfg c K)

/-- `TransformerSelfAttentionLayer.forward` with a cache, outside of training. -/
def forward (maskBlockSize : ℕ) (shouldGrowCache : Option Bool) (inputPos : Fin cfg.stepSize → ℕ)
    (x : StepRow cfg c K) (kvCacheState : LayerCache c K) : StepRow cfg c K × LayerCache c K :=
  let kv := fun j => l.layer.keyValue (inputPos j) (x j)
  let kvCacheState := cfg.kvCache.update kvCacheState (List.ofFn fun j => (kv j).key)
    (List.ofFn fun j => (kv j).value) shouldGrowCache
  let keys := List.ofFn l.layer.selfAttention.sinks ++
    List.zipWith KeyValue.mk kvCacheState.kCache kvCacheState.vCache
  let flexAttentionMask :=
    cfg.decodeMask maskBlockSize l.attentionHistoryLen cfg.stepSize keys.length
  (fun j => l.layer.forward (fun _ => none) (inputPos j) (x j)
    (maskKeys (flexAttentionMask.allows j) 0 keys), kvCacheState)

/-- The layer of a pass without a cache, its history cut to the steps in the cache. -/
def masked : MaskedLayer (Fin c.embedDim → K) (KeyValue c K) :=
  (l.layer.attentionLayer (min l.attentionHistoryLen (cfg.nSteps - 1)) fun _ => none).masked

/-- The layer of a pass without a cache. -/
def uncut : MaskedLayer (Fin c.embedDim → K) (KeyValue c K) :=
  (l.layer.attentionLayer l.attentionHistoryLen fun _ => none).masked

end CachedLayer

/-- `Transformer.forward`: each layer takes and leaves a cache of its own. -/
def cachedForward (maskBlockSize : ℕ) (shouldGrowCache : Option Bool)
    (inputPos : Fin cfg.stepSize → ℕ) :
    List (CachedLayer cfg c K) → StepRow cfg c K → List (LayerCache c K) →
      StepRow cfg c K × List (LayerCache c K)
  | l :: layers, x, kvCacheState :: rest =>
      let (x, kvCacheState) := l.forward maskBlockSize shouldGrowCache inputPos x kvCacheState
      let (x, kvCacheOut) := cachedForward maskBlockSize shouldGrowCache inputPos layers x rest
      (x, kvCacheState :: kvCacheOut)
  | [], x, _ => (x, [])
  | _ :: _, x, [] => (x, [])

/-- A token of step `m` stands at its place in the whole sequence. -/
def decodePos (cfg : PolicyConfig) (m : ℕ) (j : Fin cfg.stepSize) : ℕ := m * cfg.stepSize + j

/-- Decoding of the next step, with the number of steps before it. -/
def decodeStep (maskBlockSize : ℕ) (layers : List (CachedLayer cfg c K))
    (s : ℕ × List (LayerCache c K)) (x : StepRow cfg c K) :
    StepRow cfg c K × (ℕ × List (LayerCache c K)) :=
  let (y, kvCacheOut) := cachedForward maskBlockSize none (decodePos cfg s.1) layers x s.2
  (y, (s.1 + 1, kvCacheOut))

/-- `init_kv_cache_state`. -/
def initKvCacheState (layers : List (CachedLayer cfg c K)) : List (LayerCache c K) :=
  layers.map fun _ => RollingStepKVCache.initState

/-- All steps, one after the other. -/
def decodeAll (maskBlockSize : ℕ) (layers : List (CachedLayer cfg c K))
    (rows : List (StepRow cfg c K)) : List (StepRow cfg c K) :=
  answers (decodeStep maskBlockSize layers) (0, initKvCacheState layers) rows

/-! ## One layer -/

namespace CachedLayer

variable (l : CachedLayer cfg c K) {maskBlockSize : ℕ}

/-- A layer on its own, step by step. -/
def step (maskBlockSize : ℕ) (s : ℕ × LayerCache c K) (x : StepRow cfg c K) :
    StepRow cfg c K × (ℕ × LayerCache c K) :=
  let (y, kvCacheState) := l.forward maskBlockSize none (decodePos cfg s.1) x s.2
  (y, (s.1 + 1, kvCacheState))

/-- The keys and values of step `m`. -/
def stepKV (m : ℕ) (x : StepRow cfg c K) :
    cfg.kvCache.StepKV (c.HeadLane → K) (c.HeadLane → K) where
  k := List.ofFn fun j => (l.layer.keyValue (decodePos cfg m j) (x j)).key
  v := List.ofFn fun j => (l.layer.keyValue (decodePos cfg m j) (x j)).value
  length_k := List.length_ofFn
  length_v := List.length_ofFn

/-- The cache holds the keys and values of the last steps. -/
theorem stateAfter_step (rows : List (StepRow cfg c K)) :
    stateAfter (l.step maskBlockSize) (0, RollingStepKVCache.initState) rows =
      (rows.length, cfg.kvCache.feed (rows.mapIdx l.stepKV)) := by
  induction rows using List.reverseRecOn with
  | nil => rfl
  | append_singleton rows x ih =>
      rw [stateAfter_append, ih, List.mapIdx_concat, RollingStepKVCache.feed_concat,
        List.length_append]
      rfl

theorem zipWith_stepKV (m : ℕ) (x : StepRow cfg c K) :
    List.zipWith KeyValue.mk (l.stepKV m x).k (l.stepKV m x).v =
      l.masked.rowKeys (m * cfg.stepSize) x := by
  apply List.ext_getElem?
  intro j
  rw [List.getElem?_zipWith, stepKV, MaskedLayer.rowKeys, List.getElem?_ofFn, List.getElem?_ofFn,
    List.getElem?_ofFn]
  by_cases hj : j < cfg.stepSize
  · rw [dif_pos hj, dif_pos hj, dif_pos hj]
    rfl
  · rw [dif_neg hj, dif_neg hj, dif_neg hj]

/-- What a layer attends to at step `m`. -/
theorem cachedKeys (hn : 0 < cfg.nSteps) (rows : List (StepRow cfg c K)) {m : ℕ}
    {x : StepRow cfg c K} (hx : rows[m]? = some x) :
    let s := cfg.kvCache.update (cfg.kvCache.feed ((rows.take m).mapIdx l.stepKV))
      (l.stepKV m x).k (l.stepKV m x).v none
    List.zipWith KeyValue.mk s.kCache s.vCache =
      (((rows.mapIdx fun i x => l.masked.rowKeys (i * cfg.stepSize) x).take (m + 1)).drop
        (m + 1 - min (m + 1) cfg.nSteps)).flatten := by
  have hlen : ((rows.take m).mapIdx l.stepKV).length = m := by
    obtain ⟨hm, -⟩ := List.getElem?_eq_some_iff.mp hx
    rw [List.length_mapIdx, List.length_take, Nat.min_eq_left hm.le]
  have hfeed := RollingStepKVCache.feed_eq_rows (c := cfg.kvCache) hn cfg.stepSize_pos
    ((rows.take m).mapIdx l.stepKV)
  have hsteps : (rows.take m).mapIdx l.stepKV ++ [l.stepKV m x] =
      (rows.mapIdx l.stepKV).take (m + 1) := by
    have htake : (rows.take m).mapIdx l.stepKV = (rows.mapIdx l.stepKV).take m := by
      apply List.ext_getElem?
      intro i
      rw [List.getElem?_mapIdx, List.getElem?_take, List.getElem?_take, List.getElem?_mapIdx]
      split <;> rfl
    rw [List.take_add_one, List.getElem?_mapIdx, hx, htake]
    rfl
  have hkeyRows : (rows.mapIdx fun i x => l.masked.rowKeys (i * cfg.stepSize) x) =
      (rows.mapIdx l.stepKV).map fun s => List.zipWith KeyValue.mk s.k s.v := by
    apply List.ext_getElem?
    intro i
    rw [List.getElem?_map, List.getElem?_mapIdx, List.getElem?_mapIdx, Option.map_map]
    congr 1
    funext x
    exact (l.zipWith_stepKV i x).symm
  intro s
  have hs : s = RollingStepKVCache.rows ((rows.mapIdx l.stepKV).take (m + 1)) := by
    rw [← hsteps]
    show cfg.kvCache.update _ _ _ none = _
    rw [hfeed]
    exact RollingStepKVCache.update_rows hn cfg.stepSize_pos _ _
  have hcount : ((rows.mapIdx l.stepKV).take (m + 1)).length = m + 1 := by
    rw [← hsteps, List.length_append, hlen, List.length_singleton]
  rw [hs, RollingStepKVCache.rows, RollingStepKVCache.zipWith_flatten, lastN, hcount, hkeyRows,
    List.map_drop, List.map_take]
  rfl

theorem sinks_masked : l.masked.sinks.length = cfg.nKvSinkTokens := List.length_ofFn

/-- Step by step, a layer computes what it does in one pass. -/
theorem answers_step {B : ℕ} (hB : 0 < B) (hn : 0 < cfg.nSteps)
    (hcover : ∀ t < cfg.nSteps, cfg.RowCovers B (t * cfg.stepSize))
    (rows : List (StepRow cfg c K)) :
    (answers (l.step B) (0, RollingStepKVCache.initState) rows).flatMap List.ofFn =
      l.masked.run (rows.flatMap List.ofFn) := by
  apply MaskedLayer.run_rows _ (length_answers _ _ _)
  intro m x y hx hy j
  have hm : m < rows.length := (List.getElem?_eq_some_iff.mp hx).1
  have hlen : (rows.take m).length = m := by rw [List.length_take, Nat.min_eq_left hm.le]
  have hstart : cfg.RowCovers B (cfg.stepStart (m + 1)) := by
    apply hcover
    omega
  rw [getElem?_answers, hx, Option.map_some, Option.some_inj, stateAfter_step, hlen] at hy
  have hkeys := l.cachedKeys hn rows hx
  set window := ((rows.mapIdx fun i x => l.masked.rowKeys (i * cfg.stepSize) x).take (m + 1)).drop
    (m + 1 - min (m + 1) cfg.nSteps) with hwindow
  have hwidth : ∀ r ∈ window, r.length = cfg.stepSize := by
    intro r hr
    obtain ⟨i, hi, rfl⟩ := List.mem_mapIdx.mp (List.mem_of_mem_take (List.mem_of_mem_drop hr))
    exact l.masked.length_rowKeys _ _
  have hcount : window.flatten.length = min (m + 1) cfg.nSteps * cfg.stepSize := by
    rw [← List.flatMap_id', length_flatMap_blocks hwidth, hwindow, List.length_drop,
      List.length_take, List.length_mapIdx, Nat.min_eq_left hm]
    congr 1
    omega
  have hy' : y j = l.masked.update (m * cfg.stepSize + j) (x j)
      (maskKeys ((cfg.decodeMask B l.attentionHistoryLen cfg.stepSize
        (cfg.nKvSinkTokens + min (m + 1) cfg.nSteps * cfg.stepSize)).allows j) 0
        (l.masked.sinks ++ window.flatten)) := by
    have hforward : ∀ state : LayerCache c K,
        ((l.step B (m, state) x).1 j) = l.masked.update (m * cfg.stepSize + j) (x j)
          (let s := cfg.kvCache.update state (l.stepKV m x).k (l.stepKV m x).v none
           let keys := l.masked.sinks ++ List.zipWith KeyValue.mk s.kCache s.vCache
           maskKeys ((cfg.decodeMask B l.attentionHistoryLen cfg.stepSize keys.length).allows j) 0
             keys) := fun _ => rfl
    rw [← hy, hforward]
    dsimp only at hkeys ⊢
    rw [hkeys, List.length_append, hcount, sinks_masked]
  rw [hy']
  apply l.layer.ignoresHoles
  symm
  apply l.masked.view_rows (Nat.sub_le _ _) hm
  · intro p hp
    rw [sinks_masked]
    exact PolicyConfig.layerMask_evicted hn j.isLt hp
  · intro p hp
    rw [sinks_masked]
    exact PolicyConfig.layerMask_future j.isLt hp
  · intro kv hkv
    rw [sinks_masked] at hkv
    rw [PolicyConfig.decodeMask_allows_sink hB hn hstart j.isLt hkv]
    exact (cfg.layerMask_sink _ _ hkv).symm
  · intro p hp
    rw [sinks_masked]
    apply PolicyConfig.decodeMask_allows hB hn hstart j.isLt
    rwa [Nat.sub_sub_self (Nat.min_le_left _ _)] at hp

end CachedLayer

/-! ## All layers -/

/-- A first layer may decode all steps before the others begin. -/
theorem answers_decodeStep_cons (B : ℕ) (l : CachedLayer cfg c K)
    (layers : List (CachedLayer cfg c K)) (m : ℕ) (kvCacheState : LayerCache c K)
    (rest : List (LayerCache c K)) (rows : List (StepRow cfg c K)) :
    answers (decodeStep B (l :: layers)) (m, kvCacheState :: rest) rows =
      answers (decodeStep B layers) (m, rest) (answers (l.step B) (m, kvCacheState) rows) := by
  induction rows generalizing m kvCacheState rest with
  | nil => rfl
  | cons x rows ih =>
      exact congrArg ((decodeStep B (l :: layers) (m, kvCacheState :: rest) x).1 :: ·) (ih _ _ _)

theorem answers_decodeStep_nil (B m : ℕ) (rows : List (StepRow cfg c K)) :
    answers (decodeStep B ([] : List (CachedLayer cfg c K))) (m, []) rows = rows := by
  induction rows generalizing m with
  | nil => rfl
  | cons x rows ih =>
      rw [answers]
      exact congrArg (x :: ·) (ih (m + 1))

theorem decodeAll_eq_masked {B : ℕ} (hB : 0 < B) (hn : 0 < cfg.nSteps)
    (hcover : ∀ t < cfg.nSteps, cfg.RowCovers B (t * cfg.stepSize))
    (layers : List (CachedLayer cfg c K)) (rows : List (StepRow cfg c K)) :
    (decodeAll B layers rows).flatMap List.ofFn =
      runAll (layers.map CachedLayer.masked) (rows.flatMap List.ofFn) := by
  rw [decodeAll]
  induction layers generalizing rows with
  | nil => rw [initKvCacheState, List.map_nil, answers_decodeStep_nil, List.map_nil, runAll,
      List.foldl_nil]
  | cons l layers ih =>
      rw [initKvCacheState, List.map_cons, answers_decodeStep_cons, List.map_cons, runAll,
        List.foldl_cons, ← l.answers_step hB hn hcover]
      exact ih _

/-- In a sequence that fits into the cache no history is cut. -/
theorem runAll_masked (layers : List (CachedLayer cfg c K)) {x : List (Fin c.embedDim → K)}
    (hx : x.length ≤ cfg.maxSeqLen) :
    runAll (layers.map CachedLayer.masked) x = runAll (layers.map CachedLayer.uncut) x := by
  induction layers generalizing x with
  | nil => rfl
  | cons l layers ih =>
      have hrun : l.masked.run x = l.uncut.run x := by
        apply @MaskedLayer.run_congr _ _ l.uncut l.masked rfl rfl rfl
        intro q hq
        funext kv
        rcases Nat.lt_or_ge kv cfg.nKvSinkTokens with hsink | hsink
        · exact (cfg.layerMask_sink _ _ hsink).trans (cfg.layerMask_sink _ _ hsink).symm
        · obtain ⟨p, rfl⟩ := Nat.exists_eq_add_of_le hsink
          apply PolicyConfig.layerMask_cut
          exact Nat.le_sub_one_of_lt (Nat.div_lt_of_lt_mul (hq.trans_le hx))
      rw [List.map_cons, List.map_cons, runAll, runAll, List.foldl_cons, List.foldl_cons, hrun]
      exact ih ((MaskedLayer.length_run _ _).trans_le hx)

/-- **Decoding with the cache.** When the rows of the block mask cover the steps,
decoding any number of steps one after the other computes what one pass over all of
them does, with the history of every layer cut to the cache; and with its whole
history, when the steps fit into the cache. -/
theorem decodeAll_eq_runAll {B : ℕ} (hB : 0 < B) (hn : 0 < cfg.nSteps)
    (hcover : ∀ t < cfg.nSteps, cfg.RowCovers B (t * cfg.stepSize))
    (layers : List (CachedLayer cfg c K)) (rows : List (StepRow cfg c K)) :
    (decodeAll B layers rows).flatMap List.ofFn =
        runAll (layers.map CachedLayer.masked) (rows.flatMap List.ofFn) ∧
      (rows.length ≤ cfg.nSteps → (decodeAll B layers rows).flatMap List.ofFn =
        runAll (layers.map CachedLayer.uncut) (rows.flatMap List.ofFn)) := by
  have hmasked := decodeAll_eq_masked hB hn hcover layers rows
  refine ⟨hmasked, ?_⟩
  intro hrows
  rw [hmasked]
  apply runAll_masked
  rw [MaskedLayer.length_rows, PolicyConfig.maxSeqLen, Nat.mul_comm]
  exact Nat.mul_le_mul_left _ hrows

end Decoding

/-! ## Two steps in the cache -/

/-- An image token, the action-out token and an action token in each step. -/
def twoCachedSteps : PolicyConfig where
  nSteps := 2
  nImgTokens := 1
  textTokenSize := 0
  nThinkingTokens := 0
  nActionTokens := 1
  nKvSinkTokens := 1

/-- Five steps are decoded by two relaying layers. -/
theorem decodeAll_eq_runAll_twoSteps :
    let c : TransformerConfig := ⟨1, 1, one_pos, one_pos⟩
    let l : CachedLayer twoCachedSteps c ℝ := ⟨2, TransformerLayer.relay c 1 ℝ⟩
    let rows : List (StepRow twoCachedSteps c ℝ) := List.replicate 5 1
    (decodeAll 128 [l, l] rows).flatMap List.ofFn =
      runAll [l.masked, l.masked] (rows.flatMap List.ofFn) := by
  intro c l rows
  exact (decodeAll_eq_runAll (by decide) (by decide) (by decide) [l, l] rows).1

end P2PRdt.Policy

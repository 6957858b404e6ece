import P2PRdt.Lib.Grouping
import P2PRdt.Lib.Network
import P2PRdt.Lib.OptionLists
import P2PRdt.Lib.RowMajor

/-!
# Mixture of experts

`TokenChoiceTopKRouter`, `GroupedExperts` and `MoE`. The pairs of a token and a
slot are flattened and sorted by expert, the rows are scaled and sent through the
experts group by group, and the results are added up at their tokens. The experts
come in two implementations: a loop over the split rows, and one pass over all of
them that finds the expert of a row from where the groups start.

A row is a function of the model width. An operation that raises gives `none`, as
does a loss that is not a number.
-/

namespace P2PRdt.Policy

open Lib Elementary

/-! ## Operations on tensors -/

section Operations

variable {α K : Type}

/-- `torch.split` along the first axis. -/
def split (l : List α) (sizes : List ℕ) : Option (List (List α)) :=
  if sizes.sum = l.length then some (splitSizes sizes l) else none

/-- `torch.cat` along the first axis. -/
def cat (ls : List (List α)) : Option (List α) :=
  if ls.isEmpty then none else some ls.flatten

/-- `torch.stack`. -/
def stack (l : List α) : Option (List α) :=
  if l.isEmpty then none else some l

/-- A place of an axis of length `n`. A negative one does not count from the end
here. -/
def place (n : ℕ) (i : ℤ) : Option (Fin n) :=
  if h : 0 ≤ i ∧ i.toNat < n then some ⟨i.toNat, h.2⟩ else none

/-- `torch.Tensor.mean`, not a number for an empty tensor. -/
def mean [Field K] (l : List K) : Option K :=
  if l.isEmpty then none else some (l.sum / l.length)

/-- `torch.nan_to_num(.., nan=0.0)`. -/
def nanToNum [Zero K] (x : Option K) : K := x.getD 0

/-- `torch.argsort(.., stable=True)`. -/
def argsort {n E : ℕ} (keys : Fin n → Fin E) : List (Fin n) :=
  (List.finRange n).mergeSort fun p q => keys p ≤ keys q

/-- `torch.histc` with one bin for each integer. -/
def histc {n E : ℕ} (keys : Fin n → Fin E) (e : Fin E) : ℕ :=
  (List.finRange n).countP fun p => keys p = e

end Operations

/-! ## The router -/

/-- `torch.topk`: `k` distinct indices. -/
structure TopK (E k : ℕ) (K : Type) where
  indices : (Fin E → K) → Fin k → Fin E
  distinct : ∀ scores, Function.Injective (indices scores)

structure TokenChoiceTopKRouter (E k : ℕ) (ι K : Type) where
  gate : (ι → K) → Fin E → K
  topk : TopK E k K

/-- What the router returns for `n` tokens. -/
structure Routing (n E : ℕ) (K : Type) where
  topScores : List K
  tokenIndicesExpertsSorted : List (Fin n)
  numTokensPerExpert : Fin E → ℕ
  rzLoss : Option K

variable {ι κ K : Type} [Fintype ι] [Fintype κ] [Field K] [Elementary K] {E k B S : ℕ}

section Router

variable [LinearOrder K]

namespace TokenChoiceTopKRouter

variable (r : TokenChoiceTopKRouter E k ι K)

omit [Fintype ι] in
/-- The scores of one token. -/
def scores (x : ι → K) : Fin E → K := fun e =>
  min (max (softmax (fun e => some (r.gate x e)) e) (1 / 10000000000)) (1 - 1 / 10000000000)

/-- The experts of one token, by slot. -/
def selectedExpertsIndices (x : ι → K) : Fin k → Fin E := r.topk.indices (r.scores x)

/-- The experts of one token. -/
def selected (x : ι → K) : Finset (Fin E) := Finset.univ.image (r.selectedExpertsIndices x)

/-- The mean over the batch of the `logsumexp` over tokens and experts. -/
def rzLoss (x : Fin (B * S) → ι → K) : Option K :=
  let logits : Fin B → Fin S → Fin E → K := fun b s e =>
    let score := r.scores (x (rowMajor b s)) e
    log (score / (1 - score))
  if B * S * E = 0 then none
  else some ((∑ b, log (∑ s, ∑ e, exp (logits b s e))) / B)

def forward (x : Fin (B * S) → ι → K) : Routing (B * S) E K :=
  let selectedExpertsIndices : Fin (B * S * k) → Fin E := fun p =>
    r.selectedExpertsIndices (x p.divNat) p.modNat
  let topScores : Fin (B * S * k) → K := fun p =>
    r.scores (x p.divNat) (selectedExpertsIndices p)
  let tokenIndicesExpertsSorted := argsort selectedExpertsIndices
  { topScores := tokenIndicesExpertsSorted.map topScores
    -- an index divided by the number of slots
    tokenIndicesExpertsSorted := tokenIndicesExpertsSorted.map Fin.divNat
    numTokensPerExpert := histc selectedExpertsIndices
    rzLoss := r.rzLoss x }

end TokenChoiceTopKRouter

end Router

/-! ## The experts -/

/-- The gate and the up projection of an expert share `w13`. -/
structure GroupedExperts (E : ℕ) (ι κ K : Type) where
  w13 : Fin E → Matrix ι (κ ⊕ κ) K
  w2 : Fin E → Matrix κ ι K
  inferenceMode : Bool

/-- `silu(x1) * x3` of the two chunks. -/
def gated (intermediate : κ ⊕ κ → K) : κ → K := fun j =>
  silu (intermediate (Sum.inl j)) * intermediate (Sum.inr j)

namespace GroupedExperts

/-- `_lengths_to_expert_indices`. -/
def lengthsToExpertIndices (lengths : List ℕ) (T : ℕ) : Option (List ℤ) := do
  let starts := List.zipWith (· - ·) (runningSums 0 lengths) lengths
  let places ← starts.mapM fun start : ℕ => place (T + 1) start
  let diffs : Fin (T + 1) → ℤ := scatterAdd 0 (places.map fun p => (p, 1))
  return (runningSums 0 ((List.finRange T).map fun i => diffs i.castSucc)).map (· - 1)

variable (g : GroupedExperts E ι κ K)

/-- `_forward_autotune_compatible`. -/
def forwardAutotuneCompatible (x : List (ι → K)) (numTokensPerExpert : Fin E → ℕ)
    (topScores : List K) : Option (List (ι → K) × List K) :=
  let T := x.length
  if T = 0 then some (x, List.replicate E 0)
  else do
    let lengths := List.ofFn numTokensPerExpert
    let expertIndices ← lengthsToExpertIndices lengths T
    let expertIndices ← expertIndices.mapM (place E)
    let w13PerToken := expertIndices.map g.w13
    let w2PerToken := expertIndices.map g.w2
    let intermediate := List.zipWith Matrix.vecMul x w13PerToken
    let h := intermediate.map gated
    let out := List.zipWith Matrix.vecMul h w2PerToken
    guard (expertIndices.length ≤ topScores.length)
    let sums : Fin E → K := scatterAdd 0 (expertIndices.zip topScores)
    let expertAvgTopScores := (List.finRange E).map fun e =>
      sums e / (max (numTokensPerExpert e) 1 : ℕ)
    return (out, expertAvgTopScores)

/-- `_forward_no_grouped_mm`. -/
def forwardNoGroupedMm (x : List (ι → K)) (numTokensPerExpert : Fin E → ℕ) (topScores : List K) :
    Option (List (ι → K) × List K) := do
  let x ← split x (List.ofFn numTokensPerExpert)
  let topScores ← split topScores (List.ofFn numTokensPerExpert)
  let experts := List.zipWith (fun expertIdx (xExpert, topScoreExpert) =>
    let h := xExpert.map fun row => gated (Matrix.vecMul row (g.w13 expertIdx))
    let h := h.map fun row => Matrix.vecMul row (g.w2 expertIdx)
    (h, nanToNum (mean topScoreExpert))) (List.finRange E) (x.zip topScores)
  let out ← cat (experts.map Prod.fst)
  let expertAvgTopScores ← stack (experts.map Prod.snd)
  return (out, expertAvgTopScores)

def forward (x : List (ι → K)) (numTokensPerExpert : Fin E → ℕ) (topScores : List K) :
    Option (List (ι → K) × List K) :=
  if g.inferenceMode then g.forwardAutotuneCompatible x numTokensPerExpert topScores
  else g.forwardNoGroupedMm x numTokensPerExpert topScores

end GroupedExperts

/-! ## The layer -/

structure MoE (E k : ℕ) (ι κ K : Type) where
  experts : GroupedExperts E ι κ K
  router : TokenChoiceTopKRouter E k ι K

structure MoE.Output (B S E : ℕ) (ι K : Type) where
  out : Fin B → Fin S → ι → K
  lbLoss : Option K
  rzLoss : Option K
  numTokensPerExpert : Fin E → ℕ

def MoE.forward [LinearOrder K] (m : MoE E k ι κ K) (x : Fin B → Fin S → ι → K) :
    Option (MoE.Output B S E ι K) := do
  let rows : Fin (B * S) → ι → K := fun n => x n.divNat n.modNat
  let routing := m.router.forward rows
  let tokenIndices := routing.tokenIndicesExpertsSorted
  let routedInput := tokenIndices.map rows
  let routedInput := List.zipWith (fun row score i => row i * score) routedInput routing.topScores
  let (routedOutput, expertAvgTopScores) ←
    m.experts.forward routedInput routing.numTokensPerExpert routing.topScores
  guard (tokenIndices.length = routedOutput.length)
  let out : Fin (B * S) → ι → K := scatterAdd 0 (tokenIndices.zip routedOutput)
  let total := ∑ e, routing.numTokensPerExpert e
  let expertDistribution : List K := (List.finRange E).map fun e =>
    routing.numTokensPerExpert e / total
  return {
    out := fun b s => out (rowMajor b s)
    lbLoss :=
      if total = 0 then none
      else some ((List.zipWith (· * ·) expertDistribution expertAvgTopScores).sum * E)
    rzLoss := routing.rzLoss
    numTokensPerExpert := routing.numTokensPerExpert }

/-! ## The expert of a row, from the sizes of the groups -/

theorem place_natCast {n i : ℕ} (h : i < n) : place n i = some ⟨i, h⟩ := by
  rw [place, dif_pos ⟨Int.natCast_nonneg i, h⟩]
  rfl

/-- What is added at a place is the number of groups that start there. -/
theorem starts_scattered {starts : List ℕ} {T : ℕ} (h : ∀ start ∈ starts, start < T + 1) :
    ∃ places, starts.mapM (fun start : ℕ => place (T + 1) start) = some places ∧
      ∀ i : Fin T, (scatterAdd 0 (places.map fun p => (p, 1)) : Fin (T + 1) → ℤ) i.castSucc =
        starts.countP (· = (i : ℕ)) := by
  refine ⟨starts.map (Fin.ofNat (T + 1)), ?_, ?_⟩
  · apply mapM_eq_map
    intro start hstart
    rw [place_natCast (h start hstart)]
    exact congrArg some (Fin.ext (Nat.mod_eq_of_lt (h start hstart)).symm)
  · intro i
    rw [scatterAdd_apply, Pi.zero_apply, zero_add, List.map_map, List.map_map]
    induction starts with
    | nil => rfl
    | cons start starts ih =>
        have hval : Fin.ofNat (T + 1) start = i.castSucc ↔ start = i := by
          rw [Fin.ext_iff]
          show start % (T + 1) = i ↔ _
          rw [Nat.mod_eq_of_lt (h start List.mem_cons_self)]
        rw [List.map_cons, List.sum_cons, ih fun s hs => h s (List.mem_cons_of_mem start hs),
          List.countP_cons]
        simp only [Function.comp_apply, hval, decide_eq_true_eq]
        split
        · push_cast
          ring
        · push_cast
          ring

theorem lengthsToExpertIndices_eq (lengths : List ℕ) :
    GroupedExperts.lengthsToExpertIndices lengths lengths.sum =
      some (repeatKeys ((List.range lengths.length).map Nat.cast) lengths) := by
  have hstarts : ∀ start ∈ groupStarts 0 lengths, start < lengths.sum + 1 := by
    intro start hstart
    have hle := (mem_groupStarts hstart).2
    omega
  obtain ⟨places, hplaces, hcount⟩ := starts_scattered hstarts
  have hdiffs : ((List.finRange lengths.sum).map fun i =>
        (scatterAdd 0 (places.map fun p => (p, 1)) : Fin (lengths.sum + 1) → ℤ) i.castSucc) =
      (List.range lengths.sum).map fun i => ((groupStarts 0 lengths).countP (· = i) : ℤ) := by
    rw [← List.map_coe_finRange_eq_range, List.map_map]
    exact List.map_congr_left fun i _ => hcount i
  rw [GroupedExperts.lengthsToExpertIndices, runningSums_sub]
  simp only [hplaces, Option.bind_eq_bind, Option.bind_some, Option.pure_def, hdiffs,
    keys_from_starts]

/-- Each row is given its expert. -/
theorem expertIndices_eq (sizes : Fin E → ℕ) :
    (repeatKeys ((List.range E).map Nat.cast) (List.ofFn sizes)).mapM (place E) =
      some (repeatKeys (List.finRange E) (List.ofFn sizes)) := by
  apply mapM_eq_of_map_eq
  rw [map_repeatKeys, map_repeatKeys, ← List.map_coe_finRange_eq_range, List.map_map,
    List.map_map]
  congr 1
  apply List.map_congr_left
  intro e _
  exact place_natCast e.isLt

/-! ## The two implementations -/

namespace GroupedExperts

variable (g : GroupedExperts E ι κ K)

/-- One expert on one row. -/
def ffn (e : Fin E) (row : ι → K) : ι → K :=
  Matrix.vecMul (gated (Matrix.vecMul row (g.w13 e))) (g.w2 e)

/-- The rows of each expert sent through it, and its mean score. -/
def byGroup (rows : Fin E → List (ι → K)) (scores : Fin E → List K) : List (ι → K) × List K :=
  (((List.finRange E).map fun e => (rows e).map (g.ffn e)).flatten,
    (List.finRange E).map fun e => nanToNum (mean (scores e)))

variable {g} {rows : Fin E → List (ι → K)} {scores : Fin E → List K}

theorem forwardNoGroupedMm_eq (hE : 0 < E) {sizes : Fin E → ℕ}
    (hrows : ∀ e, (rows e).length = sizes e) (hscores : ∀ e, (scores e).length = sizes e) :
    g.forwardNoGroupedMm ((List.finRange E).map rows).flatten sizes
      ((List.finRange E).map scores).flatten = some (g.byGroup rows scores) := by
  have hsplit : ∀ {α : Type} {groups : Fin E → List α}, (∀ e, (groups e).length = sizes e) →
      split ((List.finRange E).map groups).flatten (List.ofFn sizes) =
        some ((List.finRange E).map groups) := by
    intro α groups hgroups
    rw [split, splitSizes_groups hgroups, ofFn_sizes hgroups, if_pos List.length_flatten.symm]
  have hne : ∀ {α : Type} (f : Fin E → α), ((List.finRange E).map f).isEmpty = false := by
    intro α f
    rw [List.isEmpty_eq_false_iff, ← List.length_pos_iff, List.length_map, List.length_finRange]
    exact hE
  rw [forwardNoGroupedMm, hsplit hrows, hsplit hscores]
  simp only [Option.bind_eq_bind, Option.bind_some, List.zip_map', List.zipWith_map_right,
    List.zipWith_self, List.map_map, cat, stack, hne, Bool.false_eq_true, if_false,
    Option.pure_def, byGroup, Function.comp_def]
  rfl

theorem zipWith_ffn (keys : List (Fin E)) (x : List (ι → K)) :
    List.zipWith Matrix.vecMul ((List.zipWith Matrix.vecMul x (keys.map g.w13)).map gated)
      (keys.map g.w2) = List.zipWith g.ffn keys x := by
  induction keys generalizing x with
  | nil => simp
  | cons e keys ih =>
      cases x with
      | nil => rfl
      | cons row x =>
          simp only [List.map_cons, List.zipWith_cons_cons, ih]
          rfl

omit [Elementary K] in
/-- The scores added up at an expert are the scores of its group. -/
theorem sums_eq {sizes : Fin E → ℕ} (hscores : ∀ e, (scores e).length = sizes e) (e : Fin E) :
    (scatterAdd 0 ((repeatKeys (List.finRange E) (List.ofFn sizes)).zip
      ((List.finRange E).map scores).flatten) : Fin E → K) e = (scores e).sum := by
  rw [scatterAdd_apply, Pi.zero_apply, zero_add, List.map_zip_eq_zipWith,
    zipWith_repeatKeys_groups _ hscores, List.sum_flatten, List.map_map]
  have hgroup : ∀ e', (List.sum ∘ fun e' => (scores e').map
      (Function.curry (fun p : Fin E × K => if p.1 = e then p.2 else 0) e')) e' =
        if e' = e then (scores e').sum else 0 := by
    intro e'
    show ((scores e').map fun a => if e' = e then a else 0).sum = _
    by_cases heq : e' = e
    · simp [heq]
    · simp [heq]
  rw [List.map_congr_left fun e' _ => hgroup e', ← Fin.sum_univ_def, Finset.sum_ite_eq',
    if_pos (Finset.mem_univ e)]

omit [Elementary K] in
/-- The mean of a group, and zero for an expert without rows. -/
theorem nanToNum_mean (l : List K) : nanToNum (mean l) = l.sum / (max l.length 1 : ℕ) := by
  cases l with
  | nil => simp [nanToNum, mean]
  | cons a l =>
      have hmax : max (a :: l).length 1 = (a :: l).length := by
        rw [List.length_cons]
        exact Nat.max_eq_left (Nat.le_add_left 1 l.length)
      rw [hmax]
      rfl

/-- The branch without rows. -/
theorem forwardAutotuneCompatible_nil {sizes : Fin E → ℕ} (hsizes : ∀ e, sizes e = 0)
    (hrows : ∀ e, (rows e).length = sizes e) (hscores : ∀ e, (scores e).length = sizes e) :
    g.forwardAutotuneCompatible ((List.finRange E).map rows).flatten sizes
      ((List.finRange E).map scores).flatten = some (g.byGroup rows scores) := by
  have hnil : ∀ {α : Type} {groups : Fin E → List α}, (∀ e, (groups e).length = sizes e) →
      groups = fun _ => [] := by
    intro α groups hgroups
    funext e
    exact List.length_eq_zero_iff.mp ((hgroups e).trans (hsizes e))
  have hmean : nanToNum (mean ([] : List K)) = 0 := rfl
  rw [byGroup, hnil hrows, hnil hscores, forwardAutotuneCompatible]
  simp [hmean]

theorem forwardAutotuneCompatible_eq {sizes : Fin E → ℕ}
    (hrows : ∀ e, (rows e).length = sizes e) (hscores : ∀ e, (scores e).length = sizes e) :
    g.forwardAutotuneCompatible ((List.finRange E).map rows).flatten sizes
      ((List.finRange E).map scores).flatten = some (g.byGroup rows scores) := by
  have hlen : ((List.finRange E).map rows).flatten.length = (List.ofFn sizes).sum := by
    rw [List.length_flatten, ofFn_sizes hrows]
  by_cases hT : (List.ofFn sizes).sum = 0
  · have hsizes : ∀ e, sizes e = 0 := by
      intro e
      exact List.sum_eq_zero_iff.mp hT _ (List.mem_ofFn.mpr ⟨e, rfl⟩)
    exact forwardAutotuneCompatible_nil hsizes hrows hscores
  · have hkeys : (repeatKeys (List.finRange E) (List.ofFn sizes)).length ≤
        ((List.finRange E).map scores).flatten.length := by
      rw [length_repeatKeys (by rw [List.length_finRange, List.length_ofFn]),
        List.length_flatten, ofFn_sizes hscores]
    have hindices := lengthsToExpertIndices_eq (List.ofFn sizes)
    rw [List.length_ofFn] at hindices
    have hmean : ∀ e, (scores e).sum / (max (sizes e) 1 : ℕ) = nanToNum (mean (scores e)) := by
      intro e
      rw [nanToNum_mean, hscores]
    simp only [forwardAutotuneCompatible, hlen, hT, if_false, hindices, Option.bind_eq_bind,
      Option.bind_some, expertIndices_eq, hkeys, guard_true, Option.pure_def, zipWith_ffn,
      zipWith_repeatKeys_groups g.ffn hrows, sums_eq hscores, hmean, byGroup]

/-- The two implementations agree. -/
theorem forward_eq (hE : 0 < E) {sizes : Fin E → ℕ} (hrows : ∀ e, (rows e).length = sizes e)
    (hscores : ∀ e, (scores e).length = sizes e) :
    g.forward ((List.finRange E).map rows).flatten sizes
      ((List.finRange E).map scores).flatten = some (g.byGroup rows scores) := by
  rw [forward]
  cases g.inferenceMode with
  | true => exact forwardAutotuneCompatible_eq hrows hscores
  | false => exact forwardNoGroupedMm_eq hE hrows hscores

end GroupedExperts

/-! ## The routing -/

section Routing

theorem argsort_perm {n : ℕ} (keys : Fin n → Fin E) : (argsort keys).Perm (List.finRange n) :=
  List.mergeSort_perm _ _

/-- The sorted pairs, group by group. -/
theorem argsort_groups {n : ℕ} (keys : Fin n → Fin E) :
    ((List.finRange E).map fun e => (argsort keys).filter (keys · = e)).flatten = argsort keys := by
  have hsorted : (argsort keys).Pairwise fun p q => (keys p : ℕ) ≤ keys q := by
    have htrans : ∀ p q r, decide (keys p ≤ keys q) = true → decide (keys q ≤ keys r) = true →
        decide (keys p ≤ keys r) = true := fun p q r hpq hqr =>
      decide_eq_true (le_trans (of_decide_eq_true hpq) (of_decide_eq_true hqr))
    have htotal : ∀ p q, (decide (keys p ≤ keys q) || decide (keys q ≤ keys p)) = true := by
      intro p q
      rw [Bool.or_eq_true, decide_eq_true_eq, decide_eq_true_eq]
      exact le_total (keys p) (keys q)
    have h := List.pairwise_mergeSort htrans htotal (List.finRange n)
    exact h.imp of_decide_eq_true
  have hall : (argsort keys).filter (fun p => (keys p : ℕ) < E) = argsort keys := by
    rw [List.filter_eq_self]
    intro p _
    exact decide_eq_true (keys p).isLt
  have hgroups := flatten_groups hsorted E
  rw [hall, ← List.map_coe_finRange_eq_range, List.map_map] at hgroups
  simpa only [Function.comp_def, Fin.ext_iff] using hgroups

theorem length_filter_argsort {n : ℕ} (keys : Fin n → Fin E) (e : Fin E) :
    ((argsort keys).filter (keys · = e)).length = histc keys e := by
  rw [histc, List.countP_eq_length_filter]
  exact ((argsort_perm keys).filter _).length_eq

theorem sum_histc {n : ℕ} (keys : Fin n → Fin E) : ∑ e, histc keys e = n := by
  have hlen := congrArg List.length (argsort_groups keys)
  rw [List.length_flatten, List.map_map, (argsort_perm keys).length_eq,
    List.length_finRange] at hlen
  rw [Fin.sum_univ_def]
  refine Eq.trans ?_ hlen
  congr 1
  apply List.map_congr_left
  intro e _
  exact (length_filter_argsort keys e).symm

/-- What sorted pairs add to a token is what the slots of the token add. -/
theorem scatterAdd_argsort {M : Type} [AddCommMonoid M] {n : ℕ} (keys : Fin (n * k) → Fin E)
    (f : Fin (n * k) → M) (t : Fin n) :
    scatterAdd 0 (((argsort keys).map Fin.divNat).zip ((argsort keys).map f)) t =
      ∑ j, f (rowMajor t j) := by
  rw [scatterAdd_apply, List.zip_map', List.map_map, Pi.zero_apply, zero_add]
  have hperm := ((argsort_perm keys).map
    ((fun p : Fin n × M => if p.1 = t then p.2 else 0) ∘ fun p => (p.divNat, f p))).sum_eq
  rw [hperm, ← Fin.sum_univ_def, ← finProdFinEquiv.sum_comp, Fintype.sum_prod_type]
  have hrow : ∀ t' j, ((fun p : Fin n × M => if p.1 = t then p.2 else 0) ∘
      fun p : Fin (n * k) => (p.divNat, f p)) (finProdFinEquiv (t', j)) =
        if t' = t then f (rowMajor t' j) else 0 := by
    intro t' j
    have hdiv : (finProdFinEquiv (t', j)).divNat = t' := divNat_rowMajor t' j
    simp only [Function.comp_apply, hdiv]
    rfl
  simp only [hrow]
  rw [Finset.sum_comm]
  apply Finset.sum_congr rfl
  intro j _
  rw [Finset.sum_ite_eq', if_pos (Finset.mem_univ t)]

end Routing

/-! ## The layer is the mixture -/

namespace MoE

variable [LinearOrder K] (m : MoE E k ι κ K)

/-- The mixture of one token: its experts on the token scaled by their scores. -/
def mixture (x : ι → K) : ι → K :=
  ∑ e ∈ m.router.selected x, m.experts.ffn e (m.router.scores x e • x)

omit [Fintype ι] [Fintype κ] in
theorem card_selected (x : ι → K) : (m.router.selected x).card = k := by
  have hinj : Function.Injective (m.router.selectedExpertsIndices x) := m.router.topk.distinct _
  rw [TokenChoiceTopKRouter.selected, Finset.card_image_of_injective _ hinj, Finset.card_univ,
    Fintype.card_fin]

omit [LinearOrder K] in
/-- What the experts return for the pairs in sorted order. -/
theorem experts_forward (hE : 0 < E) {n : ℕ} (keys : Fin n → Fin E) (score : Fin n → K)
    (row : Fin n → ι → K) :
    ∃ avg, m.experts.forward ((argsort keys).map row) (histc keys) ((argsort keys).map score) =
      some ((argsort keys).map fun p => m.experts.ffn (keys p) (row p), avg) := by
  let group e := (argsort keys).filter (keys · = e)
  have hgroup : ((List.finRange E).map group).flatten = argsort keys := argsort_groups keys
  have hmap : ∀ {α : Type} (f : Fin n → α),
      ((List.finRange E).map fun e => (group e).map f).flatten = (argsort keys).map f := by
    intro α f
    rw [← hgroup, List.map_flatten, List.map_map]
    rfl
  have hsize : ∀ {α : Type} (f : Fin n → α) (e : Fin E),
      ((group e).map f).length = histc keys e := by
    intro α f e
    rw [List.length_map]
    exact length_filter_argsort keys e
  have h := GroupedExperts.forward_eq (g := m.experts) hE (hsize row) (hsize score)
  rw [hmap, hmap] at h
  have hout : ((List.finRange E).map fun e => ((group e).map row).map (m.experts.ffn e)).flatten =
      (argsort keys).map fun p => m.experts.ffn (keys p) (row p) := by
    rw [← hmap]
    congr 1
    apply List.map_congr_left
    intro e _
    rw [List.map_map]
    apply List.map_congr_left
    intro p hp
    rw [of_decide_eq_true (List.mem_filter.mp hp).2]
    rfl
  exact ⟨_, h.trans (congrArg (fun out => some (out, _)) hout)⟩

/-- The slots of a token add up to its mixture. -/
theorem sum_slots (x : ι → K) :
    (∑ j, m.experts.ffn (m.router.selectedExpertsIndices x j)
      (fun i => x i * m.router.scores x (m.router.selectedExpertsIndices x j))) = m.mixture x := by
  have hinj : Function.Injective (m.router.selectedExpertsIndices x) := m.router.topk.distinct _
  rw [mixture, TokenChoiceTopKRouter.selected, Finset.sum_image fun j _ j' _ h => hinj h]
  apply Finset.sum_congr rfl
  intro j _
  congr 1
  ext i
  exact mul_comm _ _

/-- The layer computes the mixture of each token. -/
theorem forward_mixture (hE : 0 < E) (x : Fin B → Fin S → ι → K) :
    ∃ r, m.forward x = some r ∧ (∀ b s, r.out b s = m.mixture (x b s)) ∧
      ∑ e, r.numTokensPerExpert e = B * S * k := by
  let rows : Fin (B * S) → ι → K := fun n => x n.divNat n.modNat
  let keys : Fin (B * S * k) → Fin E := fun p =>
    m.router.selectedExpertsIndices (rows p.divNat) p.modNat
  let score : Fin (B * S * k) → K := fun p => m.router.scores (rows p.divNat) (keys p)
  let row : Fin (B * S * k) → ι → K := fun p i => rows p.divNat i * score p
  obtain ⟨avg, havg⟩ := m.experts_forward hE keys score row
  have hinput : List.zipWith (fun (row : ι → K) score i => row i * score)
      (((argsort keys).map Fin.divNat).map rows) ((argsort keys).map score) =
        (argsort keys).map row := by
    rw [List.map_map, List.zipWith_map, List.zipWith_self]
    rfl
  have hlen : ((argsort keys).map (Fin.divNat (m := B * S))).length =
      ((argsort keys).map fun p => m.experts.ffn (keys p) (row p)).length := by
    rw [List.length_map, List.length_map]
  rw [← hinput] at havg
  have hforward : ∃ r, m.forward x = some r ∧ r.numTokensPerExpert = histc keys ∧
      ∀ b s, r.out b s = (scatterAdd 0 (((argsort keys).map Fin.divNat).zip
        ((argsort keys).map fun p => m.experts.ffn (keys p) (row p))) : Fin (B * S) → ι → K)
          (rowMajor b s) := by
    have hguard : (guard (((argsort keys).map (Fin.divNat (m := B * S))).length =
        ((argsort keys).map fun p => m.experts.ffn (keys p) (row p)).length) : Option Unit) =
          some () := by
      rw [guard, if_pos hlen]
      rfl
    exact ⟨_, (congrArg (fun r => r >>= _) havg).trans (congrArg (fun r => r >>= _) hguard), rfl,
      fun b s => rfl⟩
  rcases hforward with ⟨r, hr, hcounts, hout⟩
  refine ⟨r, hr, ?_, ?_⟩
  · intro b s
    have hrow : rows (rowMajor b s) = x b s := by
      simp only [rows, divNat_rowMajor, modNat_rowMajor]
    rw [hout, scatterAdd_argsort, ← m.sum_slots, ← hrow]
    simp only [row, score, keys, divNat_rowMajor, modNat_rowMajor]
  · rw [hcounts, sum_histc]

end MoE

/-- The layer is the mixture of each token, whichever implementation it runs, and
the two implementations return the same. -/
theorem MoE.forward_eq_mixture [LinearOrder K] (m : MoE E k ι κ K) (hE : 0 < E) :
    (∀ (B S : ℕ) (x : Fin B → Fin S → ι → K), ∃ r, m.forward x = some r ∧
      (∀ b s, (m.router.selected (x b s)).card = k ∧
        r.out b s = ∑ e ∈ m.router.selected (x b s),
          m.experts.ffn e (m.router.scores (x b s) e • x b s)) ∧
      ∑ e, r.numTokensPerExpert e = B * S * k) ∧
    ∀ (x : List (ι → K)) (numTokensPerExpert : Fin E → ℕ) (topScores : List K),
      ∑ e, numTokensPerExpert e = x.length → topScores.length = x.length →
      ∃ r, m.experts.forwardNoGroupedMm x numTokensPerExpert topScores = some r ∧
        m.experts.forwardAutotuneCompatible x numTokensPerExpert topScores = some r := by
  constructor
  · intro B S x
    obtain ⟨r, hr, hout, hcounts⟩ := m.forward_mixture hE x
    exact ⟨r, hr, fun b s => ⟨m.card_selected _, hout b s⟩, hcounts⟩
  · intro x sizes topScores hx hscores
    rw [← List.sum_ofFn] at hx
    obtain ⟨rows, rfl, hrows⟩ := exists_groups hx
    obtain ⟨scores, rfl, hgroups⟩ := exists_groups (hx.trans hscores.symm)
    exact ⟨_, GroupedExperts.forwardNoGroupedMm_eq hE hrows hgroups,
      GroupedExperts.forwardAutotuneCompatible_eq hrows hgroups⟩

/-- Two experts, of which the one with the higher score is selected. -/
noncomputable def argmaxLayer (inferenceMode : Bool) : MoE 2 1 Unit Unit ℝ where
  experts := {
    w13 := fun e _ _ => if e.val = 0 then 1 else -1
    w2 := fun _ _ _ => 1
    inferenceMode := inferenceMode }
  router := {
    gate := fun x e => if e.val = 0 then x () else 0
    topk := {
      indices := fun scores _ =>
        if scores ⟨0, Nat.two_pos⟩ < scores ⟨1, Nat.one_lt_two⟩ then ⟨1, Nat.one_lt_two⟩
        else ⟨0, Nat.two_pos⟩
      distinct := fun _ => Function.injective_of_subsingleton _ } }

/-- Both implementations on one batch of two tokens. -/
theorem MoE.forward_eq_mixture_argmax :
    (∃ r, (argmaxLayer true).forward (fun (_ : Fin 1) (_ : Fin 2) _ => (1 : ℝ)) = some r ∧
      ∑ e, r.numTokensPerExpert e = 1 * 2 * 1) ∧
    ∃ r, (argmaxLayer false).experts.forwardNoGroupedMm [fun _ => 1, fun _ => 5] ![0, 2] [3, 4] =
        some r ∧
      (argmaxLayer false).experts.forwardAutotuneCompatible [fun _ => 1, fun _ => 5] ![0, 2]
        [3, 4] = some r := by
  constructor
  · obtain ⟨r, hr, -, hcounts⟩ :=
      ((argmaxLayer true).forward_eq_mixture Nat.two_pos).1 1 2 fun _ _ _ => 1
    exact ⟨r, hr, hcounts⟩
  · exact ((argmaxLayer false).forward_eq_mixture Nat.two_pos).2 [fun _ => 1, fun _ => 5] ![0, 2]
      [3, 4] (by decide) rfl

end P2PRdt.Policy

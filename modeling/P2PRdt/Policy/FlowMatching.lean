import P2PRdt.Lib.OptionLists
import P2PRdt.Lib.Schedule
import Mathlib.Algebra.Order.Floor.Ring
import Mathlib.Analysis.Complex.Exponential

/-!
# The flow matching scheduler

`FlowMatchScheduler` of the policy model: `setTimesteps` builds the noise
schedule, `step` advances a sample along a predicted velocity, and
`trainingTarget` and `trainingWeight` serve the training loss. `step` and
`trainingWeight` do not receive the index of a timestep, they look for the
nearest timestep again.

The arithmetic is that of an ordered field; the exponential is a parameter.
Where PyTorch yields a NaN (weights whose sum is zero) the weight is `none`, and
where Python raises the result is `none`.
-/

namespace P2PRdt.Policy

open Lib

/-- The attributes of a scheduler. `linearTimestepsWeights` exists once the
timesteps have been set for training. -/
structure FlowMatchScheduler (K : Type) where
  numTrainTimesteps : ℕ
  shift : K
  sigmaMax : K
  sigmaMin : K
  inverseTimesteps : Bool
  extraOneStep : Bool
  reverseSigmas : Bool
  exponentialShift : Bool
  exponentialShiftMu : Option K
  shiftTerminal : Option K
  sigmas : List K
  timesteps : List K
  linearTimestepsWeights : Option (List (Option K))
  training : Bool

/-- A batch of `B` samples, each a tensor with entries at `ι`. -/
abbrev Batch (B : ℕ) (ι K : Type) := Fin B → ι → K

namespace FlowMatchScheduler

variable {K : Type} [Field K] [LinearOrder K]

/-- The default arguments of the constructor, before any schedule is set. -/
def defaults : FlowMatchScheduler K where
  numTrainTimesteps := 1000
  shift := 3
  sigmaMax := 1
  sigmaMin := 3 / 1000 / (1002 / 1000)
  inverseTimesteps := false
  extraOneStep := true
  reverseSigmas := false
  exponentialShift := false
  exponentialShiftMu := none
  shiftTerminal := none
  sigmas := []
  timesteps := []
  linearTimestepsWeights := none
  training := false

/-- `calculate_shift` with its default arguments. -/
def calculateShift (imageSeqLen : K) : K :=
  let baseSeqLen : K := 256
  let maxSeqLen : K := 8192
  let baseShift : K := 5 / 10
  let maxShift : K := 9 / 10
  let m := (maxShift - baseShift) / (maxSeqLen - baseSeqLen)
  let b := baseShift - m * baseSeqLen
  imageSeqLen * m + b

/-- The evenly spaced noise levels, before any shift. -/
def spacedSigmas (s : FlowMatchScheduler K) (numInferenceSteps : ℕ) (denoisingStrength : K) :
    List K :=
  let sigmaStart := s.sigmaMin + (s.sigmaMax - s.sigmaMin) * denoisingStrength
  let sigmas := if s.extraOneStep
    then (linspace sigmaStart s.sigmaMin (numInferenceSteps + 1)).dropLast
    else linspace sigmaStart s.sigmaMin numInferenceSteps
  if s.inverseTimesteps then sigmas.reverse else sigmas

/-- The rational shift of one noise level. -/
def shiftSigma (shift σ : K) : K := shift * σ / (1 + (shift - 1) * σ)

def exponentialShiftSigma (expMu σ : K) : K := expMu / (expMu + (1 / σ - 1))

def shiftedSigmas (s : FlowMatchScheduler K) (exp : K → K) (dynamicShiftLen : Option ℕ)
    (sigmas : List K) : Option (List K) :=
  if s.exponentialShift then do
    -- `math.exp(None)` raises when neither a length nor a fixed `mu` is given
    let mu ← match dynamicShiftLen with
      | some len => some (calculateShift (len : K))
      | none => s.exponentialShiftMu
    pure (sigmas.map (exponentialShiftSigma (exp mu)))
  else some (sigmas.map (shiftSigma s.shift))

/-- Stretch the schedule so that it ends at `shift_terminal`. -/
def terminalSigmas (s : FlowMatchScheduler K) (sigmas : List K) : Option (List K) :=
  match s.shiftTerminal with
  | none => some sigmas
  | some terminal => do
      let oneMinusZ := sigmas.map (1 - ·)
      let scaleFactor := (← oneMinusZ.getLast?) / (1 - terminal)
      pure (oneMinusZ.map fun z => 1 - z / scaleFactor)

/-- The loss weights of the timesteps, a bell around half of the steps. -/
def timestepsWeights (exp : K → K) (numInferenceSteps : ℕ) (timesteps : List K) :
    Option (List (Option K)) := do
  let n : K := numInferenceSteps
  let y := timesteps.map fun x => exp (-(2 : ℕ) * ((x - n / (2 : ℕ)) / n) ^ 2)
  let yMin ← y.min?
  let yShifted := y.map (· - yMin)
  pure (yShifted.map fun v => if yShifted.sum = 0 then none else some (v * (n / yShifted.sum)))

/-- Weights are computed for training only; otherwise the old ones stay. -/
def nextWeights (s : FlowMatchScheduler K) (exp : K → K) (numInferenceSteps : ℕ) (training : Bool)
    (timesteps : List K) : Option (Option (List (Option K))) :=
  if training then (timestepsWeights exp numInferenceSteps timesteps).map some
  else some s.linearTimestepsWeights

def setTimesteps (s : FlowMatchScheduler K) (exp : K → K) (numInferenceSteps : ℕ)
    (denoisingStrength : K := 1) (training : Bool := false) (shift : Option K := none)
    (dynamicShiftLen : Option ℕ := none) : Option (FlowMatchScheduler K) := do
  let s := { s with shift := shift.getD s.shift }
  let sigmas ← s.shiftedSigmas exp dynamicShiftLen
    (s.spacedSigmas numInferenceSteps denoisingStrength)
  let sigmas ← s.terminalSigmas sigmas
  let sigmas := if s.reverseSigmas then sigmas.map (1 - ·) else sigmas
  let timesteps := sigmas.map (· * (s.numTrainTimesteps : K))
  let weights ← s.nextWeights exp numInferenceSteps training timesteps
  pure { s with sigmas, timesteps, training, linearTimestepsWeights := weights }

/-- `FlowMatchScheduler(...)`: the attributes, then the first `set_timesteps`. -/
def init (exp : K → K) (numInferenceSteps numTrainTimesteps : ℕ) (shift sigmaMax sigmaMin : K)
    (inverseTimesteps extraOneStep reverseSigmas exponentialShift : Bool)
    (exponentialShiftMu shiftTerminal : Option K) : Option (FlowMatchScheduler K) :=
  setTimesteps (K := K)
    { numTrainTimesteps, shift, sigmaMax, sigmaMin, inverseTimesteps, extraOneStep, reverseSigmas,
      exponentialShift, exponentialShiftMu, shiftTerminal, sigmas := [], timesteps := [],
      linearTimestepsWeights := none, training := false }
    exp numInferenceSteps

/-- The index of the timestep nearest to `t`. -/
def timestepId (s : FlowMatchScheduler K) (t : K) : Option ℕ :=
  argmin (s.timesteps.map fun v => |v - t|)

/-- The noise level after `timestepId`, with the end of the path after the last. -/
def sigmaNext (s : FlowMatchScheduler K) (timestepId : ℕ) (toFinal : Bool) : Option K :=
  if toFinal || s.timesteps.length ≤ timestepId + 1
  then some (if s.inverseTimesteps || s.reverseSigmas then 1 else 0)
  else s.sigmas[timestepId + 1]?

/-- One step of the sampler; the timestep is read off the first sample of the
batch. -/
def step {B : ℕ} {ι : Type} (s : FlowMatchScheduler K) (modelOutput : Batch B ι K)
    (timestep : List K) (sample : Batch B ι K) (toFinal : Bool) : Option (Batch B ι K) := do
  let timestepValue ← timestep.head?
  let timestepId ← s.timestepId timestepValue
  let sigma ← s.sigmas[timestepId]?
  let sigmaNext ← s.sigmaNext timestepId toFinal
  pure fun b j => sample b j + modelOutput b j * (sigmaNext - sigma)

def trainingTarget {B : ℕ} {ι : Type} (sample noise : Batch B ι K) : Batch B ι K :=
  fun b j => noise b j - sample b j

def trainingWeight (s : FlowMatchScheduler K) (timestep : List K) : Option (List (Option K)) := do
  let weights ← s.linearTimestepsWeights
  timestep.mapM fun t => do weights[(← s.timestepId t)]?

end FlowMatchScheduler

section Trainer

variable {K : Type} [Field K] [LinearOrder K]

/-- `sample_timestep_id` at one uniform draw `u`, with its default bounds; the
cast to int64 of a nonnegative number is its floor. -/
def sampleTimestepId [FloorRing K] (numTrainTimesteps : ℕ) (u : K) : ℕ :=
  let u := u * (1 - 0) + 0
  ⌊min (max (u * numTrainTimesteps) 0) ((numTrainTimesteps : K) - 1)⌋.toNat

/-- `_sample_noisy_action_sequence`; the uniform draws and the normal noise are
arguments. -/
def sampleNoisyActionSequence [FloorRing K] {B : ℕ} {ι : Type} (s : FlowMatchScheduler K)
    (draws : Fin B → K) (noise cleanActions : Batch B ι K) :
    Option (Batch B ι K × Batch B ι K × List K × List (Option K)) := do
  let timestepIds := (List.finRange B).map fun b => sampleTimestepId s.numTrainTimesteps (draws b)
  let timesteps ← timestepIds.mapM (s.timesteps[·]?)
  let sigmas ← timestepIds.mapM (s.sigmas[·]?)
  let noisyActions : Batch B ι K := fun b j =>
    (1 - sigmas.getD b 0) * cleanActions b j + sigmas.getD b 0 * noise b j
  let weights ← s.trainingWeight timesteps
  pure (noisyActions, FlowMatchScheduler.trainingTarget cleanActions noise, timesteps, weights)

/-- `_denoise_action_sequence` from a given initial sample. The RDT head,
with its conditions fixed, is `predict`; it takes the noisy actions and the
timestep of each sample. -/
def denoiseActionSequence {B : ℕ} {ι : Type} (s : FlowMatchScheduler K)
    (predict : Batch B ι K → List K → Batch B ι K) (initialSample : Batch B ι K) :
    Option (Batch B ι K) :=
  s.timesteps.zipIdx.foldlM
    (fun sample (timestep, stepIdx) =>
      let timestepBatch := List.replicate B timestep
      s.step (predict sample timestepBatch) timestepBatch sample
        (stepIdx + 1 == s.timesteps.length))
    initialSample

end Trainer

/-! ## The schedule with default directions -/

namespace FlowMatchScheduler

variable {K : Type} [Field K] [LinearOrder K]

/-- The schedule of the default directions. -/
def withSchedule (s : FlowMatchScheduler K) (N : ℕ) (training : Bool)
    (weights : Option (List (Option K))) : FlowMatchScheduler K :=
  let sigmas := (s.spacedSigmas N 1).map (shiftSigma s.shift)
  { s with
    sigmas
    timesteps := sigmas.map (· * (s.numTrainTimesteps : K))
    training
    linearTimestepsWeights := weights }

/-- The direction flags at their defaults. -/
structure DefaultDirections (s : FlowMatchScheduler K) : Prop where
  inverseTimesteps : s.inverseTimesteps = false
  reverseSigmas : s.reverseSigmas = false
  exponentialShift : s.exponentialShift = false
  shiftTerminal : s.shiftTerminal = none

omit [LinearOrder K] in
theorem DefaultDirections.withSchedule {s : FlowMatchScheduler K} (hs : s.DefaultDirections)
    {N : ℕ} {training : Bool} {w : Option (List (Option K))} :
    (s.withSchedule N training w).DefaultDirections :=
  ⟨hs.inverseTimesteps, hs.reverseSigmas, hs.exponentialShift, hs.shiftTerminal⟩

/-- The numeric settings of a usable schedule. -/
structure ValidRange (s : FlowMatchScheduler K) : Prop where
  numTrainTimesteps_pos : 0 < s.numTrainTimesteps
  shift_pos : 0 < s.shift
  sigmaMin_pos : 0 < s.sigmaMin
  sigmaMin_lt_sigmaMax : s.sigmaMin < s.sigmaMax
  sigmaMax_le_one : s.sigmaMax ≤ 1

omit [LinearOrder K] in
theorem length_spacedSigmas (s : FlowMatchScheduler K) (N : ℕ) (strength : K) :
    (s.spacedSigmas N strength).length = N := by
  unfold spacedSigmas
  split_ifs <;> simp

theorem timestepsWeights_isSome (exp : K → K) (N : ℕ) {ts : List K} (h : 1 ≤ ts.length) :
    ∃ w, timestepsWeights exp N ts = some w ∧ w.length = ts.length := by
  cases ts with
  | nil => simp at h
  | cons t ts => simp [timestepsWeights]

theorem nextWeights_isSome (s : FlowMatchScheduler K) (exp : K → K) {N : ℕ} (training : Bool)
    {ts : List K} (h : 1 ≤ ts.length) :
    ∃ w, s.nextWeights exp N training ts = some w ∧
      (training = true → ∃ l, w = some l ∧ l.length = ts.length) := by
  cases training with
  | false => exact ⟨_, rfl, nofun⟩
  | true =>
      obtain ⟨l, hl, hlen⟩ := timestepsWeights_isSome exp N h
      refine ⟨some l, ?_, fun _ => ⟨l, rfl, hlen⟩⟩
      rw [nextWeights, if_pos rfl, hl, Option.map_some]

theorem setTimesteps_eq {s : FlowMatchScheduler K} (hs : s.DefaultDirections) (exp : K → K)
    (N : ℕ) (training : Bool) : s.setTimesteps exp N 1 training =
      (s.nextWeights exp N training (s.withSchedule N training none).timesteps).bind
        fun w => some (s.withSchedule N training w) := by
  rcases hs with ⟨hinv, hrev, hexp, hterm⟩
  rcases s with ⟨num, shift, sigmaMax, sigmaMin, inv, extra, rev, expo, mu, term, sig, ts, lw, tr⟩
  obtain rfl : inv = false := hinv
  obtain rfl : rev = false := hrev
  obtain rfl : expo = false := hexp
  obtain rfl : term = none := hterm
  rfl

/-- Everything `set_timesteps` does in the default directions. -/
theorem setTimesteps_default {s : FlowMatchScheduler K} (hs : s.DefaultDirections) (exp : K → K)
    {N : ℕ} (hN : 1 ≤ N) (training : Bool) :
    ∃ w, s.setTimesteps exp N 1 training = some (s.withSchedule N training w) ∧
      (training = true → ∃ l, w = some l ∧ l.length = N) := by
  have hlen : ((s.withSchedule N training none).timesteps).length = N := by
    simp [withSchedule, length_spacedSigmas]
  obtain ⟨w, hw, hwlen⟩ := s.nextWeights_isSome exp (N := N) training (hlen.symm ▸ hN)
  rw [hlen] at hwlen
  refine ⟨w, ?_, hwlen⟩
  rw [setTimesteps_eq hs, hw, Option.bind_some]

variable [IsStrictOrderedRing K]

/-- The denominator of the shift. -/
theorem shift_denom_pos {shift σ : K} (hshift : 0 < shift) (h0 : 0 < σ) (h1 : σ ≤ 1) :
    0 < 1 + (shift - 1) * σ := by
  have hsplit : 1 + (shift - 1) * σ = (1 - σ) + shift * σ := by ring
  rw [hsplit]
  exact add_pos_of_nonneg_of_pos (sub_nonneg.mpr h1) (mul_pos hshift h0)

theorem shiftSigma_pos {shift σ : K} (hshift : 0 < shift) (h0 : 0 < σ) (h1 : σ ≤ 1) :
    0 < shiftSigma shift σ :=
  div_pos (mul_pos hshift h0) (shift_denom_pos hshift h0 h1)

theorem shiftSigma_le_one {shift σ : K} (hshift : 0 < shift) (h0 : 0 < σ) (h1 : σ ≤ 1) :
    shiftSigma shift σ ≤ 1 := by
  rw [shiftSigma, div_le_one (shift_denom_pos hshift h0 h1)]
  linarith

theorem shiftSigma_lt {shift σ τ : K} (hshift : 0 < shift) (hτ : 0 < τ) (hτσ : τ < σ)
    (hσ : σ ≤ 1) : shiftSigma shift τ < shiftSigma shift σ := by
  rw [shiftSigma, shiftSigma, div_lt_div_iff₀ (shift_denom_pos hshift hτ (hτσ.le.trans hσ))
    (shift_denom_pos hshift (hτ.trans hτσ) hσ)]
  have hcross : shift * σ * (1 + (shift - 1) * τ) - shift * τ * (1 + (shift - 1) * σ) =
      shift * (σ - τ) := by ring
  have hgap := mul_pos hshift (sub_pos.mpr hτσ)
  rw [← hcross] at hgap
  exact sub_pos.mp hgap

theorem spacedSigmas_pairwise {s : FlowMatchScheduler K} (hs : s.DefaultDirections)
    (hv : s.ValidRange) (N : ℕ) : (s.spacedSigmas N 1).Pairwise (· > ·) := by
  have hstart : s.sigmaMin < s.sigmaMin + (s.sigmaMax - s.sigmaMin) * 1 := by
    linarith [hv.sigmaMin_lt_sigmaMax]
  rw [spacedSigmas, hs.inverseTimesteps]
  simp only [Bool.false_eq_true, if_false]
  split
  · exact (linspace_pairwise hstart (N + 1)).sublist (List.dropLast_sublist _)
  · exact linspace_pairwise hstart N

theorem mem_spacedSigmas {s : FlowMatchScheduler K} (hs : s.DefaultDirections)
    (hv : s.ValidRange) {N : ℕ} {σ : K} (hσ : σ ∈ s.spacedSigmas N 1) : 0 < σ ∧ σ ≤ 1 := by
  have hstart : s.sigmaMin ≤ s.sigmaMin + (s.sigmaMax - s.sigmaMin) * 1 := by
    linarith [hv.sigmaMin_lt_sigmaMax]
  have hmem : ∃ steps, σ ∈ linspace (s.sigmaMin + (s.sigmaMax - s.sigmaMin) * 1) s.sigmaMin
      steps := by
    rw [spacedSigmas, hs.inverseTimesteps] at hσ
    simp only [Bool.false_eq_true, if_false] at hσ
    split at hσ
    · exact ⟨N + 1, List.dropLast_subset _ hσ⟩
    · exact ⟨N, hσ⟩
  rcases hmem with ⟨steps, hmem⟩
  obtain ⟨hlow, hhigh⟩ := mem_linspace_bounds hstart hmem
  constructor
  · exact hv.sigmaMin_pos.trans_le hlow
  · linarith [hv.sigmaMax_le_one]

/-- A schedule as the sampler and the training loss rely on it. -/
structure Decreasing (s : FlowMatchScheduler K) : Prop where
  directions : s.DefaultDirections
  pairwise : s.sigmas.Pairwise (· > ·)
  bounds : ∀ σ ∈ s.sigmas, 0 < σ ∧ σ ≤ 1
  timesteps : s.timesteps = s.sigmas.map (· * (s.numTrainTimesteps : K))
  numTrainTimesteps_pos : 0 < s.numTrainTimesteps

theorem decreasing_of_setTimesteps {s s' : FlowMatchScheduler K} (hs : s.DefaultDirections)
    (hv : s.ValidRange) {exp : K → K} {N : ℕ} (hN : 1 ≤ N) {training : Bool}
    (hset : s.setTimesteps exp N 1 training = some s') :
    s'.Decreasing ∧ s'.sigmas.length = N ∧
      (training = true → ∃ w, s'.linearTimestepsWeights = some w ∧ w.length = N) := by
  obtain ⟨w, hset', hw⟩ := setTimesteps_default hs exp hN training
  obtain rfl := Option.some_inj.mp (hset.symm.trans hset')
  refine ⟨⟨hs.withSchedule, ?_, ?_, rfl, hv.numTrainTimesteps_pos⟩, ?_, hw⟩
  · rw [withSchedule, List.pairwise_map]
    apply (spacedSigmas_pairwise hs hv N).imp_of_mem
    intro σ τ hσ hτ hστ
    exact shiftSigma_lt hv.shift_pos (mem_spacedSigmas hs hv hτ).1 hστ
      (mem_spacedSigmas hs hv hσ).2
  · intro σ' hσ'
    rw [withSchedule, List.mem_map] at hσ'
    obtain ⟨σ, hσ, rfl⟩ := hσ'
    obtain ⟨h0, h1⟩ := mem_spacedSigmas hs hv hσ
    exact ⟨shiftSigma_pos hv.shift_pos h0 h1, shiftSigma_le_one hv.shift_pos h0 h1⟩
  · rw [withSchedule, List.length_map, length_spacedSigmas]

/-! ## Looking an index up again -/

namespace Decreasing

variable {s : FlowMatchScheduler K} (hs : s.Decreasing)
include hs

omit [IsStrictOrderedRing K] in
theorem length_timesteps : s.timesteps.length = s.sigmas.length := by
  rw [hs.timesteps, List.length_map]

theorem timesteps_nodup : s.timesteps.Nodup := by
  rw [hs.timesteps, List.nodup_iff_pairwise_ne, List.pairwise_map]
  apply hs.pairwise.imp
  intro σ τ hστ heq
  have hpos : (0 : K) < s.numTrainTimesteps := by exact_mod_cast hs.numTrainTimesteps_pos
  exact hστ.ne' (mul_right_cancel₀ hpos.ne' heq)

/-- The nearest timestep to a timestep of the schedule is that timestep. -/
theorem timestepId_eq {i : ℕ} {t : K} (h : s.timesteps[i]? = some t) : s.timestepId t = some i :=
  argmin_abs_sub hs.timesteps_nodup h

theorem trainingWeight_lookup {w : List (Option K)} (hw : s.linearTimestepsWeights = some w)
    {ids : List ℕ} {ts : List K} (hts : ids.mapM (s.timesteps[·]?) = some ts) :
    s.trainingWeight ts = ids.mapM (w[·]?) := by
  rw [trainingWeight, hw, Option.bind_eq_bind, Option.bind_some]
  induction ids generalizing ts with
  | nil =>
      obtain rfl : [] = ts := by simpa using hts
      rfl
  | cons i ids ih =>
      simp only [List.mapM_cons, Option.bind_eq_bind, Option.pure_def,
        Option.bind_eq_some_iff, Option.some_inj] at hts
      rcases hts with ⟨t, ht, rest, hrest, rfl⟩
      rw [List.mapM_cons, List.mapM_cons, ih hrest, hs.timestepId_eq ht]
      rfl

/-! ## The sampler under a perfect velocity -/

variable {B : ℕ} {ι : Type}

/-- The interpolation between noise and clean actions. -/
theorem step_interpolation {i : ℕ} {t σ : K} (hB : 0 < B) (ht : s.timesteps[i]? = some t)
    (hσ : s.sigmas[i]? = some σ) (clean noise : Batch B ι K) :
    s.step (trainingTarget clean noise) (List.replicate B t)
        (fun b j => (1 - σ) * clean b j + σ * noise b j) (i + 1 == s.timesteps.length) =
      some fun b j => (1 - (s.sigmas[i + 1]?).getD 0) * clean b j +
        (s.sigmas[i + 1]?).getD 0 * noise b j := by
  obtain ⟨n, rfl⟩ : ∃ n, B = n + 1 := ⟨B - 1, (Nat.succ_pred_eq_of_pos hB).symm⟩
  have hlen := hs.length_timesteps
  have hi : i < s.timesteps.length := (List.getElem?_eq_some_iff.mp ht).1
  -- whether by `to_final` or by the index, the last step goes to zero
  have hnext : s.sigmaNext i (i + 1 == s.timesteps.length) =
      some ((s.sigmas[i + 1]?).getD 0) := by
    rw [sigmaNext, hs.directions.inverseTimesteps, hs.directions.reverseSigmas]
    by_cases hlast : s.timesteps.length ≤ i + 1
    · rw [if_pos (by simp [hlast]), List.getElem?_eq_none (hlen ▸ hlast), Option.getD_none]
      rfl
    · have hin : i + 1 < s.sigmas.length := hlen ▸ not_le.mp hlast
      rw [if_neg (by simp [hlast, (not_le.mp hlast).ne]), List.getElem?_eq_getElem hin,
        Option.getD_some]
  simp only [step, List.replicate_succ, List.head?_cons, Option.bind_eq_bind, Option.bind_some,
    hs.timestepId_eq ht, hσ, hnext, Option.pure_def]
  apply congrArg some
  ext b j
  simp only [trainingTarget]
  ring

/-- A perfect velocity is followed back to the clean actions. -/
theorem denoise_eq (hB : 0 < B) {σ₀ : K} (hσ₀ : s.sigmas.head? = some σ₀)
    (clean noise : Batch B ι K) :
    denoiseActionSequence s (fun _ _ => trainingTarget clean noise)
      (fun b j => (1 - σ₀) * clean b j + σ₀ * noise b j) = some clean := by
  -- before iteration `i` the sample lies at the noise level of `i`, at the end at level zero
  have hloop := foldlM_zipIdx (l := s.timesteps)
    (f := fun sample (timestep, stepIdx) => s.step (trainingTarget clean noise)
      (List.replicate B timestep) sample (stepIdx + 1 == s.timesteps.length))
    (P := fun i sample => sample = fun b j =>
      (1 - (s.sigmas[i]?).getD 0) * clean b j + (s.sigmas[i]?).getD 0 * noise b j)
    (x := fun b j => (1 - σ₀) * clean b j + σ₀ * noise b j)
  obtain ⟨out, hout, heq⟩ := hloop
    (by
      rintro i t _ ht rfl
      obtain ⟨hi, -⟩ := List.getElem?_eq_some_iff.mp ht
      have hσ := List.getElem?_eq_getElem (hs.length_timesteps ▸ hi)
      refine ⟨_, ?_, rfl⟩
      rw [hσ, Option.getD_some]
      exact hs.step_interpolation hB ht hσ clean noise)
    (by rw [← List.head?_eq_getElem?, hσ₀, Option.getD_some])
  rw [denoiseActionSequence, hout, heq, List.getElem?_eq_none hs.length_timesteps.ge]
  simp

end Decreasing

/-- **A perfect velocity model denoises exactly.** The schedule decreases in
`(0, 1]`, `step` and `training_weight` find the index the caller had, and a
sample interpolated at the first noise level is carried to the clean actions. -/
theorem denoise_perfectVelocity {s : FlowMatchScheduler K} (hs : s.DefaultDirections)
    (hv : s.ValidRange) (exp : K → K) {N : ℕ} (hN : 1 ≤ N) (training : Bool) :
    ∃ s', s.setTimesteps exp N 1 training = some s' ∧
      s'.sigmas.length = N ∧ s'.timesteps.length = N ∧
      s'.sigmas.Pairwise (· > ·) ∧ (∀ σ ∈ s'.sigmas, 0 < σ ∧ σ ≤ 1) ∧
      (∀ i t, s'.timesteps[i]? = some t → s'.timestepId t = some i) ∧
      (training = true → ∃ w, s'.linearTimestepsWeights = some w ∧ w.length = N ∧
        ∀ (ids : List ℕ) (ts : List K), ids.mapM (s'.timesteps[·]?) = some ts →
          s'.trainingWeight ts = ids.mapM (w[·]?)) ∧
      ∀ (B : ℕ) (ι : Type) (clean noise : Batch B ι K) (σ₀ : K), 0 < B →
        s'.sigmas.head? = some σ₀ →
        denoiseActionSequence s' (fun _ _ => trainingTarget clean noise)
          (fun b j => (1 - σ₀) * clean b j + σ₀ * noise b j) = some clean := by
  obtain ⟨w, hset, -⟩ := setTimesteps_default hs exp hN training
  obtain ⟨hdec, hlen, hw⟩ := decreasing_of_setTimesteps hs hv hN hset
  refine ⟨_, hset, hlen, hdec.length_timesteps.trans hlen, hdec.pairwise, hdec.bounds, ?_, ?_, ?_⟩
  · intro i t ht
    exact hdec.timestepId_eq ht
  · intro htraining
    obtain ⟨l, hl, hllen⟩ := hw htraining
    refine ⟨l, hl, hllen, ?_⟩
    intro ids ts hts
    exact hdec.trainingWeight_lookup hl hts
  · intro B ι clean noise σ₀ hB hσ₀
    exact hdec.denoise_eq hB hσ₀ clean noise

theorem denoise_perfectVelocity_defaults :
    (defaults : FlowMatchScheduler ℝ).DefaultDirections ∧
      (defaults : FlowMatchScheduler ℝ).ValidRange ∧
      ∃ s', (defaults : FlowMatchScheduler ℝ).setTimesteps Real.exp 2 1 true = some s' ∧
        s'.sigmas.length = 2 ∧
        ∀ (clean noise : Batch 1 (Fin 2) ℝ) (σ₀ : ℝ), s'.sigmas.head? = some σ₀ →
          denoiseActionSequence s' (fun _ _ => trainingTarget clean noise)
            (fun b j => (1 - σ₀) * clean b j + σ₀ * noise b j) = some clean := by
  have hdir : (defaults : FlowMatchScheduler ℝ).DefaultDirections := ⟨rfl, rfl, rfl, rfl⟩
  have hrange : (defaults : FlowMatchScheduler ℝ).ValidRange := by
    constructor <;> norm_num [defaults]
  obtain ⟨s', hset, hlen, -, -, -, -, -, hdenoise⟩ :=
    denoise_perfectVelocity hdir hrange Real.exp (N := 2) (by decide) true
  refine ⟨hdir, hrange, s', hset, hlen, ?_⟩
  intro clean noise σ₀ hσ₀
  exact hdenoise 1 (Fin 2) clean noise σ₀ (by decide) hσ₀

end FlowMatchScheduler

end P2PRdt.Policy

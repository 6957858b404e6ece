import P2PRdt.Lib.Reach
import Mathlib.Data.Nat.Notation
import Mathlib.Logic.Function.Basic
import Mathlib.Order.Basic
import Mathlib.Tactic.ByContra
import Mathlib.Tactic.Push

/-!
# The freeze schedule of stage 3

`Stage3LabelledBCLightning.on_train_batch_start` acts at two global steps only:
it freezes the layers at step `0` and unfreezes them at
`freeze_transformer_layers_for_steps`, each once, and it remembers both in the
process. A training history is any number of processes. Each starts at step `0`
or at a checkpoint, with the flags as the constructor builds them; a checkpoint
keeps the global step and neither the flags nor the memory of the hook.
-/

namespace P2PRdt.Policy

open Lib

variable {ι : Type} [DecidableEq ι]

/-- `for param in ps: param.requires_grad = v`. -/
def setRequiresGrad (ps : List ι) (v : Bool) (requiresGrad : ι → Bool) : ι → Bool :=
  ps.foldl (fun g param => Function.update g param v) requiresGrad

@[simp] theorem setRequiresGrad_apply (ps : List ι) (v : Bool) (g : ι → Bool) (p : ι) :
    setRequiresGrad ps v g p = if p ∈ ps then v else g p := by
  induction ps generalizing g with
  | nil => simp [setRequiresGrad]
  | cons a ps ih =>
      rw [setRequiresGrad, List.foldl_cons, ← setRequiresGrad, ih]
      by_cases hps : p ∈ ps
      · simp [hps]
      · by_cases hpa : p = a
        · simp [hpa]
        · simp [hps, hpa]

/-- The parameters of the two modules the hook goes through, and the flags the
constructor leaves. -/
structure Network (ι : Type) where
  bcTransformer : List ι
  imageTokenizer : List ι
  requiresGrad : ι → Bool

/-- `DinoV2Tokenizer.__init__` makes its backbone not trainable. The tokenizer
is a module of the transformer too. -/
def dinoV2Network (layers model projToEmbedDim : List ι) : Network ι where
  bcTransformer := model ++ projToEmbedDim ++ layers
  imageTokenizer := model ++ projToEmbedDim
  requiresGrad := setRequiresGrad model false fun _ => true

def Network.Layer (net : Network ι) (p : ι) : Prop :=
  p ∈ net.bcTransformer ∨ p ∈ net.imageTokenizer

instance (net : Network ι) (p : ι) : Decidable (net.Layer p) :=
  inferInstanceAs (Decidable (_ ∨ _))

structure Stage3LabelledBCLightning (ι : Type) where
  requiresGrad : ι → Bool
  alreadyFrozen : Bool
  alreadyUnfrozen : Bool

namespace Stage3LabelledBCLightning

def init (net : Network ι) : Stage3LabelledBCLightning ι where
  requiresGrad := net.requiresGrad
  alreadyFrozen := false
  alreadyUnfrozen := false

def onTrainBatchStart (net : Network ι) (freezeSteps globalStep : ℕ)
    (m : Stage3LabelledBCLightning ι) : Stage3LabelledBCLightning ι :=
  if globalStep = 0 ∧ 0 < freezeSteps ∧ m.alreadyFrozen = false then
    { m with
      requiresGrad := setRequiresGrad net.imageTokenizer false
        (setRequiresGrad net.bcTransformer false m.requiresGrad)
      alreadyFrozen := true }
  else if 0 < freezeSteps ∧ globalStep = freezeSteps ∧ m.alreadyUnfrozen = false then
    { m with
      requiresGrad := setRequiresGrad net.imageTokenizer true
        (setRequiresGrad net.bcTransformer true m.requiresGrad)
      alreadyUnfrozen := true }
  else m

/-- The flags after the freezing, after the unfreezing, or after neither. -/
def scheduled (net : Network ι) (frozen unfrozen : Bool) (p : ι) : Bool :=
  if net.Layer p then unfrozen || (!frozen && net.requiresGrad p) else net.requiresGrad p

section Hook

variable {net : Network ι} {freezeSteps globalStep : ℕ} {m : Stage3LabelledBCLightning ι}

theorem alreadyFrozen_onTrainBatchStart (hF : 0 < freezeSteps) :
    (m.onTrainBatchStart net freezeSteps globalStep).alreadyFrozen =
      (m.alreadyFrozen || decide (globalStep = 0)) := by
  unfold onTrainBatchStart
  split
  · rename_i hfirst
    simp [hfirst.1]
  · rename_i hnot
    have hdone : globalStep = 0 → m.alreadyFrozen = true := by
      intro hzero
      simpa [hzero, hF] using hnot
    split <;> simpa using hdone

/-- The two steps differ, so the `elif` never hides the unfreezing. -/
theorem alreadyUnfrozen_onTrainBatchStart (hF : 0 < freezeSteps) :
    (m.onTrainBatchStart net freezeSteps globalStep).alreadyUnfrozen =
      (m.alreadyUnfrozen || decide (globalStep = freezeSteps)) := by
  unfold onTrainBatchStart
  split
  · rename_i hfirst
    have hne : globalStep ≠ freezeSteps := by
      rw [hfirst.1]
      exact Nat.ne_of_lt hF
    simp [hne]
  · split <;> grind

theorem requiresGrad_onTrainBatchStart
    (hflags : ∀ p, m.requiresGrad p = scheduled net m.alreadyFrozen m.alreadyUnfrozen p)
    (hlater : globalStep = 0 → m.alreadyUnfrozen = false) (p : ι) :
    (m.onTrainBatchStart net freezeSteps globalStep).requiresGrad p =
      scheduled net (m.onTrainBatchStart net freezeSteps globalStep).alreadyFrozen
        (m.onTrainBatchStart net freezeSteps globalStep).alreadyUnfrozen p := by
  unfold onTrainBatchStart
  split
  · rename_i hfirst
    simp only [setRequiresGrad_apply, hflags, hlater hfirst.1, scheduled, Network.Layer]
    grind
  · split
    · simp only [setRequiresGrad_apply, hflags, scheduled, Network.Layer]
      grind
    · exact hflags p

end Hook

end Stage3LabelledBCLightning

/-- The process that runs, and the global steps of the checkpoints on disk.
`firstStep` is the step the process began at, `batchStarted` whether the hook
has been called at this global step. -/
structure Training (ι : Type) where
  model : Stage3LabelledBCLightning ι
  globalStep : ℕ
  firstStep : ℕ
  batchStarted : Bool
  checkpoints : List ℕ

namespace Training

/-- A new process: `_init_stage3_model`, then `trainer.fit` from this step. -/
def launch (net : Network ι) (globalStep : ℕ) (checkpoints : List ℕ) : Training ι where
  model := .init net
  globalStep := globalStep
  firstStep := globalStep
  batchStarted := false
  checkpoints := checkpoints

def batchStart (net : Network ι) (freezeSteps : ℕ) (s : Training ι) : Training ι :=
  { s with
    model := s.model.onTrainBatchStart net freezeSteps s.globalStep
    batchStarted := true }

def optimizerStep (s : Training ι) : Training ι :=
  { s with globalStep := s.globalStep + 1, batchStarted := false }

def save (s : Training ι) : Training ι :=
  { s with checkpoints := s.globalStep :: s.checkpoints }

/-- With gradient accumulation several batches start at one global step. A
process can die anywhere. -/
inductive Step (net : Network ι) (freezeSteps : ℕ) : Training ι → Training ι → Prop where
  | batch (s : Training ι) : Step net freezeSteps s (s.batchStart net freezeSteps)
  | optimizer (s : Training ι) : s.batchStarted = true → Step net freezeSteps s s.optimizerStep
  | checkpoint (s : Training ι) : Step net freezeSteps s s.save
  | fresh (s : Training ι) : Step net freezeSteps s (launch net 0 s.checkpoints)
  | resume (s : Training ι) (g : ℕ) : g ∈ s.checkpoints →
      Step net freezeSteps s (launch net g s.checkpoints)

def Reachable (net : Network ι) (freezeSteps : ℕ) : Training ι → Prop :=
  Reach (· = launch net 0 []) (Step net freezeSteps)

/-- What the schedule says of the batch that has just started. -/
structure OnSchedule (net : Network ι) (freezeSteps : ℕ) (s : Training ι) : Prop where
  trainable : ∀ p, net.Layer p → net.requiresGrad p = true →
    s.model.requiresGrad p = decide (freezeSteps ≤ s.globalStep)
  frozen : ∀ p, net.requiresGrad p = false → s.model.requiresGrad p = false

/-! ## What one process does -/

open Stage3LabelledBCLightning

/-- The hook has been called at the global steps from `firstStep` up to here. -/
def hooked (s : Training ι) : ℕ :=
  if s.batchStarted then s.globalStep + 1 else s.globalStep

/-- The memory of the hook tells which of its two steps the process has been
through, and the flags follow from it. -/
structure Process (net : Network ι) (freezeSteps : ℕ) (s : Training ι) : Prop where
  firstStep_le : s.firstStep ≤ s.globalStep
  frozen : s.model.alreadyFrozen = true ↔ s.firstStep = 0 ∧ 0 < s.hooked
  unfrozen : s.model.alreadyUnfrozen = true ↔ s.firstStep ≤ freezeSteps ∧ freezeSteps < s.hooked
  flags : ∀ p, s.model.requiresGrad p =
    scheduled net s.model.alreadyFrozen s.model.alreadyUnfrozen p

variable {net : Network ι} {freezeSteps : ℕ} {s t : Training ι}

theorem process_launch (g : ℕ) (checkpoints : List ℕ) :
    Process net freezeSteps (launch net g checkpoints) := by
  constructor
  · exact Nat.le_refl g
  · simp [launch, hooked, Stage3LabelledBCLightning.init]
  · simp [launch, hooked, Stage3LabelledBCLightning.init]
  · intro p
    simp [launch, Stage3LabelledBCLightning.scheduled, Stage3LabelledBCLightning.init]

theorem Process.batchStart (h : Process net freezeSteps s) (hF : 0 < freezeSteps) :
    Process net freezeSteps (s.batchStart net freezeSteps) := by
  rcases h with ⟨hle, hfrozen, hunfrozen, hflags⟩
  have hnow : (s.batchStart net freezeSteps).hooked = s.globalStep + 1 := rfl
  have hbefore : s.hooked = s.globalStep ∨ s.hooked = s.globalStep + 1 := by
    unfold hooked
    split <;> simp
  constructor
  · exact hle
  · rw [hnow]
    simp only [Training.batchStart, alreadyFrozen_onTrainBatchStart hF, Bool.or_eq_true, hfrozen,
      decide_eq_true_eq]
    omega
  · rw [hnow]
    simp only [Training.batchStart, alreadyUnfrozen_onTrainBatchStart hF, Bool.or_eq_true,
      hunfrozen, decide_eq_true_eq]
    omega
  · refine requiresGrad_onTrainBatchStart hflags fun hzero => ?_
    rw [← Bool.not_eq_true, hunfrozen]
    omega

theorem Process.optimizerStep (h : Process net freezeSteps s) (hb : s.batchStarted = true) :
    Process net freezeSteps s.optimizerStep := by
  have hsame : s.optimizerStep.hooked = s.hooked := by simp [hooked, Training.optimizerStep, hb]
  refine ⟨Nat.le_succ_of_le h.firstStep_le, ?_, ?_, h.flags⟩
  · rw [hsame]
    exact h.frozen
  · rw [hsame]
    exact h.unfrozen

theorem Process.step (h : Process net freezeSteps s) (hF : 0 < freezeSteps)
    (hs : Step net freezeSteps s t) : Process net freezeSteps t := by
  cases hs with
  | batch => exact h.batchStart hF
  | optimizer hb => exact h.optimizerStep hb
  | checkpoint => exact ⟨h.firstStep_le, h.frozen, h.unfrozen, h.flags⟩
  | fresh => exact process_launch 0 _
  | resume g hg => exact process_launch g _

theorem Reachable.process (h : Reachable net freezeSteps s) (hF : 0 < freezeSteps) :
    Process net freezeSteps s := by
  refine Reach.invariant (I := Process net freezeSteps) ?_ ?_ h
  · rintro s rfl
    exact process_launch 0 []
  · intro s t hs hst
    exact hs.step hF hst

/-- Which flags the layers have when a batch has started: frozen by a process
that began at step `0`, unfrozen by one that has gone through the step
`freezeSteps`, and otherwise as they were built. -/
theorem Process.layer (h : Process net freezeSteps s) (hb : s.batchStarted = true) {p : ι}
    (hp : net.Layer p) :
    s.model.requiresGrad p = true ↔
      (s.firstStep ≤ freezeSteps ∧ freezeSteps ≤ s.globalStep) ∨
        (s.firstStep ≠ 0 ∧ net.requiresGrad p = true) := by
  have hhooked : s.hooked = s.globalStep + 1 := by simp [hooked, hb]
  have hfrozen := h.frozen
  have hunfrozen := h.unfrozen
  rw [hhooked] at hfrozen hunfrozen
  rw [h.flags p, scheduled, if_pos hp, Bool.or_eq_true, hunfrozen, Bool.and_eq_true,
    Bool.not_eq_true', ← Bool.not_eq_true, hfrozen]
  have hpos : 0 < s.globalStep + 1 := Nat.succ_pos _
  simp only [hpos, and_true, Nat.lt_succ_iff]

/-- A process that begins inside the schedule never freezes the layers. -/
theorem Process.trainable_iff (h : Process net freezeSteps s) (hb : s.batchStarted = true) :
    (∀ p, net.Layer p → net.requiresGrad p = true →
        s.model.requiresGrad p = decide (freezeSteps ≤ s.globalStep)) ↔
      s.firstStep = 0 ∨ freezeSteps ≤ s.globalStep ∨
        ∀ p, net.Layer p → net.requiresGrad p = false := by
  constructor
  · intro htrainable
    by_contra hcon
    push Not at hcon
    rcases hcon with ⟨hfirst, hlt, p, hp, hbuilt⟩
    have hbuilt : net.requiresGrad p = true := by simpa using hbuilt
    have hgrad := (h.layer hb hp).mpr (.inr ⟨hfirst, hbuilt⟩)
    rw [htrainable p hp hbuilt, decide_eq_true_eq] at hgrad
    omega
  · intro hcond p hp hbuilt
    rw [Bool.eq_iff_iff, h.layer hb hp, decide_eq_true_eq]
    have hle := h.firstStep_le
    rcases hcond with hfirst | hge | hnone
    · simp [hfirst]
    · by_cases hbegin : s.firstStep ≤ freezeSteps
      · simp [hbegin, hge]
      · simp [hge, hbuilt]
        omega
    · rw [hnone p hp] at hbuilt
      cases hbuilt

/-- The unfreezing does not know which layers were built frozen. -/
theorem Process.frozen_iff (h : Process net freezeSteps s) (hb : s.batchStarted = true) :
    (∀ p, net.requiresGrad p = false → s.model.requiresGrad p = false) ↔
      s.globalStep < freezeSteps ∨ freezeSteps < s.firstStep ∨
        ∀ p, net.Layer p → net.requiresGrad p = true := by
  constructor
  · intro hfrozen
    by_contra hcon
    push Not at hcon
    rcases hcon with ⟨hge, hfirst, p, hp, hbuilt⟩
    have hgrad := (h.layer hb hp).mpr (.inl ⟨by omega, by omega⟩)
    rw [hfrozen p (by simpa using hbuilt)] at hgrad
    cases hgrad
  · intro hcond p hbuilt
    by_cases hp : net.Layer p
    · rw [← Bool.not_eq_true, h.layer hb hp]
      rcases hcond with hlt | hlt | hall
      · simp [hbuilt]
        omega
      · simp [hbuilt]
        omega
      · rw [hall p hp] at hbuilt
        cases hbuilt
    · rw [h.flags p, scheduled, if_neg hp, hbuilt]

/-- **The freeze schedule survives restarts** where the process began at step
`0`, or at the end of the schedule or past it, and where the layers that were
built frozen are not met by the unfreezing. -/
theorem onSchedule_iff (hF : 0 < freezeSteps) (h : Reachable net freezeSteps s)
    (hb : s.batchStarted = true) :
    OnSchedule net freezeSteps s ↔
      (s.firstStep = 0 ∨ freezeSteps ≤ s.globalStep ∨
        ∀ p, net.Layer p → net.requiresGrad p = false) ∧
      (s.globalStep < freezeSteps ∨ freezeSteps < s.firstStep ∨
        ∀ p, net.Layer p → net.requiresGrad p = true) := by
  have hprocess := h.process hF
  rw [← hprocess.trainable_iff hb, ← hprocess.frozen_iff hb]
  constructor
  · rintro ⟨htrainable, hfrozen⟩
    exact ⟨htrainable, hfrozen⟩
  · rintro ⟨htrainable, hfrozen⟩
    exact ⟨htrainable, hfrozen⟩

/-! ## A crash at step one -/

/-- One layer of the transformer, the backbone of the tokenizer and its
projection. -/
inductive Parameter where
  | layer
  | backbone
  | proj
deriving DecidableEq, Repr

def net₀ : Network Parameter := dinoV2Network [.layer] [.backbone] [.proj]

/-- The first batch of the first process. -/
def first : Training Parameter := (launch net₀ 0 []).batchStart net₀ 2

theorem reachable_first : Reachable net₀ 2 first := .next (.start rfl) (.batch _)

/-- The first process trains the layer from step `2` on and saves a checkpoint at step
`3`. -/
def trained : Training Parameter :=
  ((first.optimizerStep.batchStart net₀ 2).optimizerStep.batchStart net₀ 2).optimizerStep.save

/-- The next process goes on from there. -/
def resumed : Training Parameter := (launch net₀ 3 trained.checkpoints).batchStart net₀ 2

theorem onSchedule_resumed :
    OnSchedule net₀ 2 first ∧ resumed.globalStep = 3 ∧ OnSchedule net₀ 2 resumed := by
  have hsecond : Reachable net₀ 2 (first.optimizerStep.batchStart net₀ 2) :=
    .next (.next reachable_first (.optimizer _ rfl)) (.batch _)
  have hthird : Reachable net₀ 2
      ((first.optimizerStep.batchStart net₀ 2).optimizerStep.batchStart net₀ 2) :=
    .next (.next hsecond (.optimizer _ rfl)) (.batch _)
  have htrained : Reachable net₀ 2 trained :=
    .next (.next hthird (.optimizer _ rfl)) (.checkpoint _)
  have hresumed : Reachable net₀ 2 resumed :=
    .next (.next htrained (.resume _ 3 (by decide))) (.batch _)
  refine ⟨?_, rfl, ?_⟩
  · exact (onSchedule_iff (by decide) reachable_first rfl).mpr ⟨.inl rfl, .inl (by decide)⟩
  · exact (onSchedule_iff (by decide) hresumed rfl).mpr
      ⟨.inr (.inl (by decide)), .inr (.inl (by decide))⟩

/-- Here the first process stops after a checkpoint at step `1`. -/
def second : Training Parameter :=
  (launch net₀ 1 first.optimizerStep.save.checkpoints).batchStart net₀ 2

/-- The layer is trained at step `1`, and the backbone at step `2`. -/
theorem second_not_onSchedule :
    (Reachable net₀ 2 second ∧ second.batchStarted = true ∧ ¬ OnSchedule net₀ 2 second) ∧
    Reachable net₀ 2 (second.optimizerStep.batchStart net₀ 2) ∧
      ¬ OnSchedule net₀ 2 (second.optimizerStep.batchStart net₀ 2) := by
  have hsaved : Reachable net₀ 2 first.optimizerStep.save :=
    .next (.next reachable_first (.optimizer _ rfl)) (.checkpoint _)
  have hlaunch : Reachable net₀ 2 (launch net₀ 1 first.optimizerStep.save.checkpoints) :=
    .next hsaved (.resume _ 1 (by decide))
  have hsecond : Reachable net₀ 2 second := .next hlaunch (.batch _)
  refine ⟨⟨hsecond, rfl, fun h => ?_⟩, .next (.next hsecond (.optimizer _ rfl)) (.batch _),
    fun h => ?_⟩
  · have hlayer := h.trainable .layer (by decide) (by decide)
    revert hlayer
    decide
  · have hbackbone := h.frozen .backbone (by decide)
    revert hbackbone
    decide

end Training

end P2PRdt.Policy

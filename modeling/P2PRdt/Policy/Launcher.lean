import P2PRdt.Lib.PaddedDecimal
import P2PRdt.Lib.Reach
import Mathlib.Data.List.Chain

/-!
# Training that is restarted until it ends

`auto_restart_train.sh` runs training processes one after the other until one
exits with code 0. A process begins at the latest checkpoint that can be loaded,
or at step 0 when there is none; `train_resume_latest.sh` looks for it again.
The trainer writes `checkpoint-step=00000100.ckpt` and so on, over a file of that
name. A process may crash at any time and leave files that are empty or torn, and
the launcher itself may be started again.

Checkpoints are found by their names, so the steps must fit into eight digits.
-/

namespace P2PRdt.Policy

open Lib

/-! ## The checkpoint directory -/

/-- A file in the directory. `loaded` is the global step that `torch.load` finds;
it raises when there is none. -/
structure CheckpointFile where
  name : List Char
  size : ℕ
  loaded : Option ℕ

def CheckpointFile.usable (f : CheckpointFile) : Bool := 0 < f.size && f.loaded.isSome

def checkpointPrefix : List Char := "checkpoint-step=".toList

def checkpointSuffix : List Char := ".ckpt".toList

/-- `filename="checkpoint-{step:08d}"`. -/
def checkpointName (step : ℕ) : List Char :=
  checkpointPrefix ++ zeroPadded 8 step ++ checkpointSuffix

def isCheckpointName (name : List Char) : Bool :=
  checkpointPrefix.isPrefixOf name && checkpointSuffix.isSuffixOf name

/-- `ckpt_dir.glob('checkpoint-step=*.ckpt')`. -/
def globCheckpoints (files : List CheckpointFile) : List CheckpointFile :=
  files.filter fun f => isCheckpointName f.name

/-- `find_latest_ckpt`, which is `find_resume_ckpt` of the other script. -/
def findLatestCkpt (files : List CheckpointFile) : Option CheckpointFile :=
  ((globCheckpoints files).mergeSort fun f g => g.name ≤ f.name).find? CheckpointFile.usable

/-- A file is written over a file of its name. -/
def saveCheckpoint (files : List CheckpointFile) (f : CheckpointFile) : List CheckpointFile :=
  files.filter (fun g => g.name ≠ f.name) ++ [f]

theorem isCheckpointName_checkpointName (step : ℕ) :
    isCheckpointName (checkpointName step) = true := by
  rw [isCheckpointName, Bool.and_eq_true, List.isPrefixOf_iff_prefix, List.isSuffixOf_iff_suffix,
    checkpointName]
  refine ⟨?_, List.suffix_append _ _⟩
  rw [List.append_assoc]
  exact List.prefix_append _ _

theorem checkpointName_injective {s t : ℕ} (h : checkpointName s = checkpointName t) : s = t := by
  rw [checkpointName, checkpointName] at h
  have hdigits := List.append_cancel_left (List.append_cancel_right h)
  rw [← ofDigitChars_zeroPadded 8 s, hdigits, ofDigitChars_zeroPadded]

/-- The names of two steps are ordered as the steps are. -/
theorem checkpointName_lt_iff {s t : ℕ} (hs : s < 10 ^ 8) (ht : t < 10 ^ 8) :
    checkpointName s < checkpointName t ↔ s < t := by
  have hwidth : 0 < 8 := by decide
  have hlen : (zeroPadded 8 s).length = (zeroPadded 8 t).length :=
    (length_zeroPadded hwidth hs).trans (length_zeroPadded hwidth ht).symm
  rw [checkpointName, checkpointName, append_lt_append_iff _ _ hlen, zeroPadded_lt_iff hwidth hs ht]

theorem mem_globCheckpoints_saveCheckpoint {files : List CheckpointFile} {f g : CheckpointFile}
    {step : ℕ} (hname : f.name = checkpointName step) :
    g ∈ globCheckpoints (saveCheckpoint files f) ↔
      g = f ∨ g ∈ globCheckpoints files ∧ g.name ≠ checkpointName step := by
  have hmatch : isCheckpointName f.name = true := by
    rw [hname]
    exact isCheckpointName_checkpointName step
  simp only [globCheckpoints, saveCheckpoint, List.filter_append, List.mem_append, List.mem_filter,
    List.mem_singleton, decide_eq_true_eq, ← hname]
  constructor
  · rintro (⟨⟨hmem, hne⟩, hg⟩ | ⟨rfl, -⟩)
    · exact Or.inr ⟨⟨hmem, hg⟩, hne⟩
    · exact Or.inl rfl
  · rintro (rfl | ⟨⟨hmem, hg⟩, hne⟩)
    · exact Or.inr ⟨rfl, hmatch⟩
    · exact Or.inl ⟨⟨hmem, hne⟩, hg⟩

/-- The last usable file by name. -/
theorem findLatestCkpt_spec {files : List CheckpointFile} {f : CheckpointFile}
    (h : findLatestCkpt files = some f) :
    f ∈ globCheckpoints files ∧ f.usable = true ∧
      ∀ g ∈ globCheckpoints files, g.usable = true → g.name ≤ f.name := by
  have hsorted : ((globCheckpoints files).mergeSort fun f g => g.name ≤ f.name).Pairwise
      fun f g => decide (g.name ≤ f.name) = true := by
    refine List.pairwise_mergeSort ?_ ?_ _
    · intro a b c hab hbc
      exact decide_eq_true ((of_decide_eq_true hbc).trans (of_decide_eq_true hab))
    · intro a b
      rw [Bool.or_eq_true, decide_eq_true_eq, decide_eq_true_eq]
      exact le_total _ _
  obtain ⟨husable, before, after, hsplit, hbefore⟩ := List.find?_eq_some_iff_append.mp h
  have hmem : ∀ g, g ∈ globCheckpoints files ↔ g ∈ before ++ f :: after := by
    intro g
    rw [← hsplit, List.mem_mergeSort]
  refine ⟨(hmem f).mpr (List.mem_append_right _ List.mem_cons_self), husable, ?_⟩
  intro g hg hgusable
  rcases List.mem_append.mp ((hmem g).mp hg) with hfront | hback
  · have hnot := hbefore g hfront
    rw [hgusable] at hnot
    exact absurd hnot Bool.false_ne_true
  · rcases List.mem_cons.mp hback with rfl | hlater
    · exact le_rfl
    · rw [hsplit, List.pairwise_append, List.pairwise_cons] at hsorted
      exact of_decide_eq_true (hsorted.2.1.1 g hlater)

theorem findLatestCkpt_eq_none {files : List CheckpointFile} :
    findLatestCkpt files = none ↔ ∀ f ∈ globCheckpoints files, f.usable = false := by
  rw [findLatestCkpt, List.find?_eq_none]
  simp only [List.mem_mergeSort, Bool.not_eq_true]

/-! ## The launcher -/

/-- `n_training_steps` and `save_every_n_steps`. -/
structure TrainingPlan where
  nTrainingSteps : ℕ
  saveEveryNSteps : ℕ

inductive LauncherPhase where
  | choosing
  | launching (resume : Bool)
  | training (firstStep globalStep : ℕ)
  | stopped

/-- The launcher with the directory. `submitted` are the steps whose checkpoints the
background thread of the trainer has still to write. `completed` is history: the
steps of all checkpoints that were written, in the order in which they were. -/
structure Launcher where
  files : List CheckpointFile
  phase : LauncherPhase
  submitted : List ℕ
  completed : List ℕ

namespace TrainingPlan

variable (plan : TrainingPlan)

/-- `every_n_train_steps`. -/
def submit (submitted : List ℕ) (globalStep : ℕ) : List ℕ :=
  if globalStep % plan.saveEveryNSteps = 0 then submitted ++ [globalStep] else submitted

inductive Step : Launcher → Launcher → Prop
  | choose {w : Launcher} : w.phase = .choosing →
      Step w { w with phase := .launching (findLatestCkpt w.files).isSome }
  | init {w : Launcher} : w.phase = .launching false → Step w { w with phase := .training 0 0 }
  | resume {w : Launcher} {f : CheckpointFile} {step : ℕ} : w.phase = .launching true →
      findLatestCkpt w.files = some f → f.loaded = some step →
      Step w { w with phase := .training step step }
  -- `exit 1` of the resume script
  | resumeFails {w : Launcher} : w.phase = .launching true → findLatestCkpt w.files = none →
      Step w { w with phase := .choosing }
  | trainStep {w : Launcher} {firstStep globalStep : ℕ} :
      w.phase = .training firstStep globalStep → globalStep < plan.nTrainingSteps →
      Step w
        { w with
          phase := .training firstStep (globalStep + 1)
          submitted := plan.submit w.submitted (globalStep + 1) }
  | written {w : Launcher} {step : ℕ} {rest : List ℕ} (size : ℕ) : w.submitted = step :: rest →
      0 < size →
      Step w
        { w with
          files := saveCheckpoint w.files
            { name := checkpointName step, size := size, loaded := some step }
          submitted := rest
          completed := w.completed ++ [step] }
  -- the first bytes only
  | interrupted {w : Launcher} {step : ℕ} {rest : List ℕ} (size : ℕ) :
      w.submitted = step :: rest →
      Step w
        { w with
          files := saveCheckpoint w.files
            { name := checkpointName step, size := size, loaded := none }
          submitted := rest }
  | notOpened {w : Launcher} {step : ℕ} {rest : List ℕ} : w.submitted = step :: rest →
      Step w { w with submitted := rest }
  -- the teardown waits for the background thread
  | exit {w : Launcher} {firstStep globalStep : ℕ} : w.phase = .training firstStep globalStep →
      plan.nTrainingSteps ≤ globalStep → w.submitted = [] → Step w { w with phase := .stopped }
  -- the process crashed, or the launcher is started once more
  | restart {w : Launcher} : Step w { w with phase := .choosing, submitted := [] }

/-- A directory without checkpoints, and whatever else. -/
def Start (w : Launcher) : Prop :=
  globCheckpoints w.files = [] ∧ w.phase = .choosing ∧ w.submitted = [] ∧ w.completed = []

def Reachable (w : Launcher) : Prop := Reach Start plan.Step w

/-! ## Nothing that was completed is lost -/

/-- What holds of the directory and of the process that runs. -/
structure Progress (w : Launcher) : Prop where
  increasing : w.completed.Pairwise (· < ·)
  planned : ∀ s ∈ w.completed,
    0 < s ∧ s ≤ plan.nTrainingSteps ∧ s % plan.saveEveryNSteps = 0
  kept : ∀ s, s ∈ w.completed ↔ ∃ f ∈ globCheckpoints w.files,
    f.name = checkpointName s ∧ 0 < f.size ∧ f.loaded = some s
  latest : (findLatestCkpt w.files).bind CheckpointFile.loaded = w.completed.getLast?
  found : w.phase = .launching true → findLatestCkpt w.files ≠ none
  process : ∀ firstStep globalStep, w.phase = .training firstStep globalStep →
    ∃ before after, w.completed = before ++ after ∧ before.getLast?.getD 0 = firstStep ∧
      ∀ s ∈ after, firstStep < s ∧ s ≤ globalStep

/-- The steps written and those to be written, as the process sees them. -/
def PhaseInv (w : Launcher) : Prop :=
  match w.phase with
  | .launching resume => w.submitted = [] ∧ resume = (findLatestCkpt w.files).isSome
  | .training firstStep globalStep =>
      (∀ s ∈ w.completed ++ w.submitted, s ≤ globalStep) ∧ (∀ s ∈ w.submitted, firstStep < s) ∧
      firstStep ≤ globalStep ∧ globalStep ≤ plan.nTrainingSteps ∧
      ∃ before after, w.completed = before ++ after ∧ before.getLast?.getD 0 = firstStep ∧
        ∀ s ∈ after, firstStep < s
  | .choosing | .stopped => w.submitted = []

structure Inv (w : Launcher) : Prop where
  increasing : (w.completed ++ w.submitted).Pairwise (· < ·)
  planned : ∀ s ∈ w.completed ++ w.submitted,
    0 < s ∧ s ≤ plan.nTrainingSteps ∧ s % plan.saveEveryNSteps = 0
  named : ∀ f ∈ globCheckpoints w.files, ∃ s ≤ plan.nTrainingSteps, f.name = checkpointName s ∧
    (f.usable = true → f.loaded = some s)
  kept : ∀ s, s ∈ w.completed ↔
    ∃ f ∈ globCheckpoints w.files, f.name = checkpointName s ∧ f.usable = true
  phase : plan.PhaseInv w

variable {plan} {w w' : Launcher}

/-- In a list that increases, the last element is the greatest. -/
theorem le_getLast?_getD {l : List ℕ} (hl : l.Pairwise (· < ·)) {s : ℕ} (hs : s ∈ l) :
    s ≤ l.getLast?.getD 0 := by
  obtain ⟨front, last, rfl⟩ := (List.eq_nil_or_concat l).resolve_left (List.ne_nil_of_mem hs)
  rw [List.concat_eq_append] at hl hs ⊢
  rw [List.getLast?_concat, Option.getD_some]
  rcases List.mem_append.mp hs with hfront | hlast
  · exact ((List.pairwise_append.mp hl).2.2 s hfront last (List.mem_singleton_self last)).le
  · exact (List.mem_singleton.mp hlast).le

theorem getLast?_eq_some_of_forall_le {l : List ℕ} {m : ℕ} (hl : l.Pairwise (· < ·)) (hm : m ∈ l)
    (hle : ∀ s ∈ l, s ≤ m) : l.getLast? = some m := by
  have hge := le_getLast?_getD hl hm
  cases hlast : l.getLast? with
  | none => exact absurd (List.getLast?_eq_none_iff.mp hlast) (List.ne_nil_of_mem hm)
  | some last =>
      rw [hlast, Option.getD_some] at hge
      rw [le_antisymm hge (hle last (List.mem_of_getLast? hlast))]

/-- The file that is found by its name has the greatest step. -/
theorem Inv.latest (hinv : plan.Inv w) (hn : plan.nTrainingSteps < 10 ^ 8) :
    (findLatestCkpt w.files).bind CheckpointFile.loaded = w.completed.getLast? := by
  cases hfind : findLatestCkpt w.files with
  | none =>
      have hunusable := findLatestCkpt_eq_none.mp hfind
      have hempty : w.completed = [] := by
        refine List.eq_nil_iff_forall_not_mem.mpr fun s hs => ?_
        obtain ⟨f, hf, -, husable⟩ := (hinv.kept s).mp hs
        exact absurd (husable.symm.trans (hunusable f hf)) Bool.noConfusion
      rw [hempty]
      rfl
  | some f =>
      obtain ⟨hf, husable, hmax⟩ := findLatestCkpt_spec hfind
      obtain ⟨step, hstep, hname, hloaded⟩ := hinv.named f hf
      have hmem : step ∈ w.completed := (hinv.kept step).mpr ⟨f, hf, hname, husable⟩
      rw [Option.bind_some, hloaded husable]
      have hincreasing := (List.pairwise_append.mp hinv.increasing).1
      refine (getLast?_eq_some_of_forall_le hincreasing hmem ?_).symm
      intro s hs
      obtain ⟨g, hg, hgname, hgusable⟩ := (hinv.kept s).mp hs
      have hsmall := (hinv.planned s (List.mem_append_left _ hs)).2.1
      have hle := hmax g hg hgusable
      rw [hname, hgname] at hle
      by_contra hlt
      exact hle.not_gt ((checkpointName_lt_iff (by omega) (by omega)).mpr (by omega))

theorem Inv.progress (hinv : plan.Inv w) (hn : plan.nTrainingSteps < 10 ^ 8) : plan.Progress w where
  increasing := (List.pairwise_append.mp hinv.increasing).1
  planned := fun s hs => hinv.planned s (List.mem_append_left _ hs)
  kept := by
    intro s
    rw [hinv.kept]
    constructor
    · rintro ⟨f, hf, hname, husable⟩
      obtain ⟨t, -, htname, hloaded⟩ := hinv.named f hf
      rw [checkpointName_injective (hname.symm.trans htname)]
      have hsize := (Bool.and_eq_true_iff.mp husable).1
      exact ⟨f, hf, htname, of_decide_eq_true hsize, hloaded husable⟩
    · rintro ⟨f, hf, hname, hsize, hloaded⟩
      refine ⟨f, hf, hname, ?_⟩
      rw [CheckpointFile.usable, hloaded, decide_eq_true hsize]
      rfl
  latest := hinv.latest hn
  found := by
    intro hphase hnone
    have hlaunch := hinv.phase
    rw [PhaseInv, hphase, hnone] at hlaunch
    exact Bool.noConfusion hlaunch.2
  process := by
    intro firstStep globalStep hphase
    have htrain := hinv.phase
    rw [PhaseInv, hphase] at htrain
    obtain ⟨hle, -, -, -, before, after, hsplit, hlast, hafter⟩ := htrain
    refine ⟨before, after, hsplit, hlast, fun s hs => ⟨hafter s hs, hle s ?_⟩⟩
    rw [hsplit]
    exact List.mem_append_left _ (List.mem_append_right _ hs)

/-- A file for the next step that waits, complete or torn. -/
theorem Inv.files_save {step : ℕ} {rest : List ℕ} {loaded : Option ℕ} (hinv : plan.Inv w)
    (size : ℕ) (hsubmitted : w.submitted = step :: rest)
    (hloaded : loaded = none ∨ loaded = some step ∧ 0 < size) :
    let files := saveCheckpoint w.files
      { name := checkpointName step, size := size, loaded := loaded }
    (∀ f ∈ globCheckpoints files, ∃ s ≤ plan.nTrainingSteps, f.name = checkpointName s ∧
      (f.usable = true → f.loaded = some s)) ∧
    ∀ s, s ∈ w.completed ++ loaded.toList ↔
      ∃ f ∈ globCheckpoints files, f.name = checkpointName s ∧ f.usable = true := by
  intro files
  have hmem : ∀ f, f ∈ globCheckpoints files ↔
      f = { name := checkpointName step, size := size, loaded := loaded } ∨
        f ∈ globCheckpoints w.files ∧ f.name ≠ checkpointName step :=
    fun f => mem_globCheckpoints_saveCheckpoint rfl
  have hincreasing := hinv.increasing
  have hplanned := hinv.planned
  rw [hsubmitted] at hincreasing hplanned
  -- what is completed comes before all that waits
  have hnew : step ∉ w.completed := fun hold =>
    absurd ((List.pairwise_append.mp hincreasing).2.2 step hold step List.mem_cons_self)
      (lt_irrefl step)
  refine ⟨?_, ?_⟩
  · intro f hf
    rcases (hmem f).mp hf with rfl | ⟨hold, -⟩
    · refine ⟨step, (hplanned step (List.mem_append_right _ List.mem_cons_self)).2.1, rfl, ?_⟩
      intro husable
      rcases hloaded with rfl | ⟨rfl, -⟩
      · simp [CheckpointFile.usable] at husable
      · rfl
    · exact hinv.named f hold
  · intro s
    rw [List.mem_append, hinv.kept]
    constructor
    · rintro (⟨f, hf, hname, husable⟩ | hs)
      · refine ⟨f, (hmem f).mpr (Or.inr ⟨hf, ?_⟩), hname, husable⟩
        rw [hname]
        intro hsame
        rw [checkpointName_injective hsame] at hname
        exact hnew ((hinv.kept step).mpr ⟨f, hf, hname, husable⟩)
      · rcases hloaded with rfl | ⟨rfl, hsize⟩
        · cases hs
        · obtain rfl : s = step := List.mem_singleton.mp hs
          exact ⟨_, (hmem _).mpr (Or.inl rfl), rfl, by simp [CheckpointFile.usable, hsize]⟩
    · rintro ⟨f, hf, hname, husable⟩
      rcases (hmem f).mp hf with rfl | ⟨hold, -⟩
      · rcases hloaded with rfl | ⟨rfl, -⟩
        · simp [CheckpointFile.usable] at husable
        · rw [← checkpointName_injective hname]
          exact Or.inr (List.mem_singleton_self step)
      · exact Or.inl ⟨f, hold, hname, husable⟩

/-- The next step that waits is dealt with. -/
theorem Inv.advance {step : ℕ} {rest done : List ℕ} {files : List CheckpointFile}
    (hinv : plan.Inv w) (hsubmitted : w.submitted = step :: rest) (hdone : done.Sublist [step])
    (hfiles : (∀ f ∈ globCheckpoints files, ∃ s ≤ plan.nTrainingSteps,
        f.name = checkpointName s ∧ (f.usable = true → f.loaded = some s)) ∧
      ∀ s, s ∈ w.completed ++ done ↔
        ∃ f ∈ globCheckpoints files, f.name = checkpointName s ∧ f.usable = true) :
    plan.Inv
      { w with files := files, submitted := rest, completed := w.completed ++ done } := by
  have hsub : (w.completed ++ done ++ rest).Sublist (w.completed ++ w.submitted) := by
    rw [hsubmitted, List.append_assoc]
    exact (hdone.append_right rest).append_left _
  refine
    { increasing := hinv.increasing.sublist hsub
      planned := fun s hs => hinv.planned s (hsub.subset hs)
      named := hfiles.1
      kept := hfiles.2
      phase := ?_ }
  have hold := hinv.phase
  rw [PhaseInv] at hold ⊢
  cases hphase : w.phase with
  | choosing =>
      rw [hphase, hsubmitted] at hold
      cases hold
  | launching resume =>
      rw [hphase, hsubmitted] at hold
      cases hold.1
  | stopped =>
      rw [hphase, hsubmitted] at hold
      cases hold
  | training firstStep globalStep =>
      rw [hphase] at hold
      obtain ⟨hle, hlater, hfirst, hglobal, before, after, hsplit, hlast, hafter⟩ := hold
      rw [hsubmitted] at hlater
      refine ⟨fun s hs => hle s (hsub.subset hs),
        fun s hs => hlater s (List.mem_cons_of_mem step hs), hfirst, hglobal, before,
        after ++ done, ?_, hlast, ?_⟩
      · rw [hsplit, List.append_assoc]
      · intro s hs
        rcases List.mem_append.mp hs with hs | hs
        · exact hafter s hs
        · rw [List.mem_singleton.mp (hdone.subset hs)]
          exact hlater step List.mem_cons_self

/-- One more step of training. -/
theorem Inv.trainStep {firstStep globalStep : ℕ} (hinv : plan.Inv w)
    (hphase : w.phase = .training firstStep globalStep)
    (hlt : globalStep < plan.nTrainingSteps) :
    plan.Inv
      { w with
        phase := .training firstStep (globalStep + 1)
        submitted := plan.submit w.submitted (globalStep + 1) } := by
  have hold := hinv.phase
  rw [PhaseInv, hphase] at hold
  obtain ⟨hle, hlater, hfirst, hglobal, hprocess⟩ := hold
  rw [submit]
  split
  · next hdue =>
    have hmem : ∀ s ∈ w.completed ++ (w.submitted ++ [globalStep + 1]),
        s ∈ w.completed ++ w.submitted ∨ s = globalStep + 1 := by
      intro s hs
      rw [← List.append_assoc] at hs
      exact (List.mem_append.mp hs).imp_right List.mem_singleton.mp
    refine
      { increasing := ?_
        planned := ?_
        named := hinv.named
        kept := hinv.kept
        phase := ⟨?_, ?_, by omega, hlt, hprocess⟩ }
    · rw [← List.append_assoc]
      refine List.pairwise_append.mpr ⟨hinv.increasing, List.pairwise_singleton _ _, ?_⟩
      intro s hs t ht
      rw [List.mem_singleton.mp ht]
      exact Nat.lt_succ_of_le (hle s hs)
    · intro s hs
      rcases hmem s hs with hs | rfl
      · exact hinv.planned s hs
      · exact ⟨Nat.succ_pos _, hlt, hdue⟩
    · intro s hs
      rcases hmem s hs with hs | rfl
      · exact (hle s hs).trans (Nat.le_succ _)
      · exact le_rfl
    · intro s hs
      rcases List.mem_append.mp hs with hs | hs
      · exact hlater s hs
      · rw [List.mem_singleton.mp hs]
        exact Nat.lt_succ_of_le hfirst
  · exact
      { hinv with
        phase := ⟨fun s hs => (hle s hs).trans (Nat.le_succ _), hlater,
          hfirst.trans (Nat.le_succ _), hlt, hprocess⟩ }

/-- What waits is lost with the process; what is completed is not. -/
theorem Inv.restart (hinv : plan.Inv w) :
    plan.Inv { w with phase := .choosing, submitted := [] } where
  increasing := hinv.increasing.sublist ((List.nil_sublist _).append_left _)
  planned := fun s hs => hinv.planned s (((List.nil_sublist _).append_left _).subset hs)
  named := hinv.named
  kept := hinv.kept
  phase := rfl

/-- A process that begins at the latest checkpoint. -/
theorem Inv.begin {resume : Bool} {firstStep : ℕ} (hinv : plan.Inv w)
    (hphase : w.phase = .launching resume) (hlast : w.completed.getLast?.getD 0 = firstStep) :
    plan.Inv { w with phase := .training firstStep firstStep } := by
  have hold := hinv.phase
  rw [PhaseInv, hphase] at hold
  have hle : ∀ s ∈ w.completed, s ≤ firstStep := by
    intro s hs
    rw [← hlast]
    exact le_getLast?_getD (List.pairwise_append.mp hinv.increasing).1 hs
  have hplanned : firstStep ≤ plan.nTrainingSteps := by
    rw [← hlast]
    cases hl : w.completed.getLast? with
    | none => exact Nat.zero_le _
    | some s => exact (hinv.planned s (List.mem_append_left _ (List.mem_of_getLast? hl))).2.1
  refine { hinv with phase := ⟨?_, ?_, le_rfl, hplanned, w.completed, [], ?_, hlast, ?_⟩ }
  · rw [hold.1, List.append_nil]
    exact hle
  · rw [hold.1]
    exact fun s hs => absurd hs List.not_mem_nil
  · rw [List.append_nil]
  · exact fun s hs => absurd hs List.not_mem_nil

theorem step_inv (hn : plan.nTrainingSteps < 10 ^ 8) (hstep : plan.Step w w')
    (hinv : plan.Inv w) : plan.Inv w' := by
  cases hstep with
  | choose hphase =>
      have hold := hinv.phase
      rw [PhaseInv, hphase] at hold
      exact { hinv with phase := ⟨hold, rfl⟩ }
  | init hphase =>
      have hold := hinv.phase
      rw [PhaseInv, hphase] at hold
      have hnone : findLatestCkpt w.files = none := Option.not_isSome_iff_eq_none.mp
        (by rw [← hold.2]; exact Bool.false_ne_true)
      have hlatest := hinv.latest hn
      rw [hnone] at hlatest
      exact hinv.begin hphase (by rw [← hlatest]; rfl)
  | resume hphase hfind hloaded =>
      have hlatest := hinv.latest hn
      rw [hfind, Option.bind_some, hloaded] at hlatest
      exact hinv.begin hphase (by rw [← hlatest]; rfl)
  | resumeFails hphase hnone =>
      have hold := hinv.phase
      rw [PhaseInv, hphase] at hold
      exact { hinv with phase := hold.1 }
  | trainStep hphase hlt => exact hinv.trainStep hphase hlt
  | written size hsubmitted hsize =>
      exact hinv.advance hsubmitted (List.Sublist.refl _)
        (hinv.files_save size hsubmitted (Or.inr ⟨rfl, hsize⟩))
  | interrupted size hsubmitted =>
      have hnext := hinv.advance hsubmitted (List.nil_sublist _)
        (hinv.files_save size hsubmitted (Or.inl rfl))
      rwa [List.append_nil] at hnext
  | notOpened hsubmitted =>
      have hnext := hinv.advance hsubmitted (List.nil_sublist _)
        ⟨hinv.named, by rw [List.append_nil]; exact hinv.kept⟩
      rwa [List.append_nil] at hnext
  | exit hphase hdone hsubmitted => exact { hinv with phase := hsubmitted }
  | restart => exact hinv.restart

theorem start_inv (h : Start w) : plan.Inv w := by
  obtain ⟨hfiles, hphase, hsubmitted, hcompleted⟩ := h
  have hnone : ∀ s, s ∉ w.completed ++ w.submitted := by
    rw [hsubmitted, hcompleted]
    exact fun s hs => absurd hs List.not_mem_nil
  refine
    { increasing := ?_
      planned := fun s hs => absurd hs (hnone s)
      named := ?_
      kept := ?_
      phase := ?_ }
  · rw [hsubmitted, hcompleted]
    exact List.Pairwise.nil
  · rw [hfiles]
    exact fun f hf => absurd hf List.not_mem_nil
  · intro s
    rw [hcompleted, hfiles]
    simp
  · rw [PhaseInv, hphase]
    exact hsubmitted

/-- **Restarted training goes on from what was completed**, in every run of processes
that crash and checkpoints that are torn: the checkpoint that is found is the last
one completed, and no step is completed twice. -/
theorem reachable_progress (hn : plan.nTrainingSteps < 10 ^ 8) (h : plan.Reachable w) :
    plan.Progress w :=
  (Reach.invariant (I := plan.Inv) (fun _ => start_inv)
    (fun _ _ hinv hstep => step_inv hn hstep hinv) h).progress hn

/-- A process that crashes after the checkpoint of its second step. -/
theorem reachable_progress_crash : ∃ w : Launcher, w.completed = [2] ∧ w.phase = .choosing ∧
    (TrainingPlan.mk 4 2).Progress w := by
  have hstart : Start ⟨[], .choosing, [], []⟩ := ⟨rfl, rfl, rfl, rfl⟩
  have hnone : (findLatestCkpt []).isSome = false := by
    rw [findLatestCkpt_eq_none.mpr fun f hf => absurd hf List.not_mem_nil]
    rfl
  have hchosen : (TrainingPlan.mk 4 2).Reachable ⟨[], .launching false, [], []⟩ := by
    rw [← hnone]
    exact (Reach.start hstart).next (.choose rfl)
  have htrained := ((hchosen.next (.init rfl)).next (.trainStep rfl (by decide))).next
    (.trainStep rfl (by decide))
  have hwritten := htrained.next (.written 1 rfl Nat.one_pos)
  exact ⟨_, rfl, rfl, reachable_progress (by decide) (hwritten.next .restart)⟩

end TrainingPlan

end P2PRdt.Policy

import P2PRdt.Policy.OriginInit
import P2PRdt.Policy.TargetLeakage
import Mathlib.Logic.Relation

/-!
# Resuming from a checkpoint

`_validate_resume_checkpoint_compatibility` reads names and lengths in a checkpoint before
a run is resumed from it and before the policy is served. It compares the number of steps,
the registers, the width of an action and whether there are image conditions. Other sizes
are left to `load_state_dict`.

What a run saves is accepted under the configurations that agree with its own in these,
and so is what is saved after any number of resumptions.
-/

namespace P2PRdt.Policy

/-! ## The check -/

inductive ResumeError where
  | valueError (message : String)
  | indexError
deriving DecidableEq, Repr

def pyBool (b : Bool) : String := if b then "True" else "False"

def legacyRdtKeys : List String :=
  ["policy_summary_to_rdt_action_tokens_proj.",
    "policy_summary_to_rdt_state_proj.",
    "text_condition_to_rdt_proj."]

section Check

variable {δ V K : Type} [Zero K] [LE K]

/-- `int(t.shape[1])` against the length that is expected. -/
def checkLength (t : Tensor δ V) (expected : ℕ) (message : ℕ → String) :
    Except ResumeError Unit :=
  match t.shape[1]? with
  | none => .error .indexError
  | some n => if n = expected then .ok () else .error (.valueError (message n))

def checkLengthIfThere (stateDict : LoadableDict δ V) (name : String) (expected : ℕ)
    (message : ℕ → String) : Except ResumeError Unit :=
  match stateDict.lookup name with
  | none => .ok ()
  | some t => checkLength t expected message

def actionTokenMismatch (expected n : ℕ) : String :=
  "Resume checkpoint action-token mismatch: checkpoint has " ++ toString n ++
    " transformer action tokens but config expects " ++ toString expected ++ ". " ++
    "This usually means you are trying to resume a checkpoint trained with a different " ++
    "action-tokenization scheme."

def xPosEmbMismatch (expected n : ℕ) : String :=
  "Resume checkpoint RDT position embedding mismatch: checkpoint has " ++ toString n ++
    " x_pos tokens but config expects " ++ toString expected ++ ". " ++
    "This usually means you are trying to resume a checkpoint trained with a different " ++
    "sequence length."

def actPosEmbMismatch (expected n : ℕ) : String :=
  "Resume checkpoint RDT action-condition length mismatch: checkpoint has " ++ toString n ++
    " action condition tokens but config expects " ++ toString expected ++ "."

def actionEmbedderMismatch (expected n : ℕ) : String :=
  "Resume checkpoint RDT action embedder mismatch: checkpoint action_dim=" ++ toString n ++
    " but config expects " ++ toString expected ++ "."

def imageConditionMismatch (expected given : Bool) : String :=
  "Resume checkpoint RDT image-conditioning mismatch: checkpoint image_condition=" ++
    pyBool given ++ " but config expects image_condition=" ++ pyBool expected ++ "."

/-- The embeddings of the action conditions have to be there. -/
def checkActPosEmb (stateDict : LoadableDict δ V) (expectedSeqLen : ℕ) :
    Except ResumeError Unit :=
  match stateDict.lookup "rdt_policy_head.act_pos_emb" with
  | none => .error (.valueError
      ("Resume checkpoint RDT conditioning mismatch: checkpoint is missing " ++
        "rdt_policy_head.act_pos_emb required by the current action-token-conditioned RDT head."))
  | some t => checkLength t expectedSeqLen (actPosEmbMismatch expectedSeqLen)

def checkImgPosEmb (stateDict : LoadableDict δ V) (expectedImageCondition : Bool) :
    Except ResumeError Unit :=
  let checkpointHasImageCondition := (stateDict.lookup "rdt_policy_head.img_pos_emb").isSome
  if checkpointHasImageCondition = expectedImageCondition then .ok ()
  else .error (.valueError
    (imageConditionMismatch expectedImageCondition checkpointHasImageCondition))

/-- `_validate_resume_checkpoint_compatibility` with the `state_dict` of the checkpoint,
which is empty where there is none, and what `get_robot_action_dim` gives. -/
def validateResumeCheckpointCompatibility (stateDict : LoadableDict δ V)
    (config : Stage3Config K) (robotActionDim : Option ℕ) : Except ResumeError Unit :=
  if stateDict.keys = [] then .ok ()
  else if stateDict.keys.any fun key => legacyRdtKeys.any (startsWith key) then
    .error (.valueError
      ("Resume checkpoint RDT conditioning mismatch: the checkpoint uses the " ++
        "legacy direct-regression RDT head, but the current code expects the " ++
        "StreamVGGT-style denoising RDT head."))
  else if (stateDict.lookup "rdt_action_queries").isSome then
    .error (.valueError
      ("Resume checkpoint RDT x-source mismatch: learned query based RDT checkpoints " ++
        "are not compatible with the current noisy-action denoising head."))
  else
    match robotActionDim with
    | none => .error (.valueError
        "robot_action_dim is not set and inverse_used_action_channel_ids is empty.")
    | some expectedNActions => do
        let expectedSeqLen := config.nSeqTimesteps
        let expectedXPosTokens := expectedSeqLen + config.rdt.numRegisterTokens
        checkLengthIfThere stateDict "bc_transformer.action_pos_tokens" 1
          (actionTokenMismatch 1)
        checkLengthIfThere stateDict "rdt_policy_head.x_pos_emb" expectedXPosTokens
          (xPosEmbMismatch expectedXPosTokens)
        checkActPosEmb stateDict expectedSeqLen
        checkLengthIfThere stateDict "rdt_policy_head.action_embedder.weight" expectedNActions
          (actionEmbedderMismatch expectedNActions)
        checkImgPosEmb stateDict config.rdt.useImageCondition

end Check

/-! ## What a run saves -/

/-- The parts of the policy, by the names in its `state_dict`. -/
def policyParts : List String :=
  ["image_tokenizer.", "bc_transformer.", "robot_action_in_proj.",
    "policy_action_condition_to_rdt_proj.", "image_condition_to_rdt_proj.",
    "null_state_condition", "rdt_policy_head.", "rand_augment."]

section Saved

variable {δ V K : Type} [Zero K] [LE K]

/-- What the check reads is as `__init__` makes it. -/
structure SavedBy (cfg : Stage3Config K) (d : LoadableDict δ V) : Prop where
  parts : ∀ key ∈ d.keys, ∃ part ∈ policyParts, startsWith key part = true
  actionPosTokens : (d.lookup "bc_transformer.action_pos_tokens").map Tensor.shape =
    some [1, cfg.policy.nActionTokens, cfg.transformer.embedDim]
  xPosEmb : (d.lookup "rdt_policy_head.x_pos_emb").map Tensor.shape =
    some [1, cfg.rdtShape.horizon + cfg.rdt.numRegisterTokens, cfg.rdt.hiddenSize]
  actPosEmb : (d.lookup "rdt_policy_head.act_pos_emb").map Tensor.shape =
    some [1, cfg.rdtShape.maxActLen, cfg.rdt.hiddenSize]
  actionEmbedder : (d.lookup "rdt_policy_head.action_embedder.weight").map Tensor.shape =
    some [cfg.rdt.hiddenSize, cfg.rdtShape.actionDim]
  imgPosEmb : (d.lookup "rdt_policy_head.img_pos_emb").map Tensor.shape =
    if cfg.rdt.useImageCondition then some [1, cfg.rdtShape.maxImgLen, cfg.rdt.hiddenSize]
    else none

/-- What has to agree. -/
structure Resumable (A B : Stage3Config K) : Prop where
  nSeqTimesteps : A.nSeqTimesteps = B.nSeqTimesteps
  numRegisterTokens : A.rdt.numRegisterTokens = B.rdt.numRegisterTokens
  nActions : A.nActions = B.nActions
  useImageCondition : A.rdt.useImageCondition = B.rdt.useImageCondition

variable {A B C : Stage3Config K} {d : LoadableDict δ V}

theorem Resumable.refl (A : Stage3Config K) : Resumable A A := ⟨rfl, rfl, rfl, rfl⟩

theorem Resumable.trans (h : Resumable A B) (h' : Resumable B C) : Resumable A C where
  nSeqTimesteps := h.nSeqTimesteps.trans h'.nSeqTimesteps
  numRegisterTokens := h.numRegisterTokens.trans h'.numRegisterTokens
  nActions := h.nActions.trans h'.nActions
  useImageCondition := h.useImageCondition.trans h'.useImageCondition

/-- Two prefixes of one key are comparable. -/
theorem comparable_of_startsWith {key p q : String} (hp : startsWith key p = true)
    (hq : startsWith key q = true) : p.toList <+: q.toList ∨ q.toList <+: p.toList :=
  List.prefix_or_prefix_of_prefix (List.isPrefixOf_iff_prefix.mp hp)
    (List.isPrefixOf_iff_prefix.mp hq)

theorem legacy_not_part : ∀ part ∈ policyParts, ∀ old ∈ legacyRdtKeys,
    ¬(part.toList <+: old.toList ∨ old.toList <+: part.toList) := by
  decide +kernel

theorem queries_not_part : ∀ part ∈ policyParts,
    startsWith "rdt_action_queries" part = false := by
  decide +kernel

theorem SavedBy.not_legacy (h : SavedBy A d) :
    (d.keys.any fun key => legacyRdtKeys.any (startsWith key)) = false := by
  rw [List.any_eq_false]
  intro key hkey hold
  obtain ⟨old, hmem, hold⟩ := List.any_eq_true.mp hold
  obtain ⟨part, hpart, hstarts⟩ := h.parts key hkey
  exact legacy_not_part part hpart old hmem (comparable_of_startsWith hstarts hold)

theorem SavedBy.no_queries (h : SavedBy A d) : d.lookup "rdt_action_queries" = none := by
  rw [AList.lookup_eq_none]
  intro hmem
  obtain ⟨part, hpart, hstarts⟩ := h.parts _ (AList.mem_keys.mp hmem)
  rw [queries_not_part part hpart] at hstarts
  cases hstarts

omit [Zero K] [LE K] in
theorem checkLengthIfThere_of_shape {name : String} {shape : List ℕ} {n : ℕ}
    (hshape : (d.lookup name).map Tensor.shape = some shape) (hn : shape[1]? = some n)
    (expected : ℕ) (message : ℕ → String) :
    checkLengthIfThere d name expected message =
      if n = expected then .ok () else .error (.valueError (message n)) := by
  obtain ⟨t, hlookup, rfl⟩ := Option.map_eq_some_iff.mp hshape
  rw [checkLengthIfThere, hlookup]
  show checkLength t expected message = _
  rw [checkLength, hn]

omit [Zero K] [LE K] in
theorem checkActPosEmb_of_shape {shape : List ℕ} {n : ℕ}
    (hshape : (d.lookup "rdt_policy_head.act_pos_emb").map Tensor.shape = some shape)
    (hn : shape[1]? = some n) (expected : ℕ) :
    checkActPosEmb d expected =
      if n = expected then .ok () else .error (.valueError (actPosEmbMismatch expected n)) := by
  obtain ⟨t, hlookup, rfl⟩ := Option.map_eq_some_iff.mp hshape
  rw [checkActPosEmb, hlookup]
  show checkLength t expected _ = _
  rw [checkLength, hn]

theorem SavedBy.isSome_imgPosEmb (h : SavedBy A d) :
    (d.lookup "rdt_policy_head.img_pos_emb").isSome = A.rdt.useImageCondition := by
  have himg := congrArg Option.isSome h.imgPosEmb
  rw [Option.isSome_map] at himg
  rw [himg]
  cases A.rdt.useImageCondition <;> rfl

theorem SavedBy.keys_ne_nil (h : SavedBy A d) : d.keys ≠ [] := by
  intro hnil
  obtain ⟨t, hlookup, -⟩ := Option.map_eq_some_iff.mp h.actPosEmb
  have hmem := AList.mem_keys.mp (AList.lookup_isSome.mp (Option.isSome_of_mem hlookup))
  rw [hnil] at hmem
  cases hmem

/-- The first of the sizes in which a configuration differs from that of the checkpoint. -/
def firstMismatch (A B : Stage3Config K) : Except ResumeError Unit :=
  let given := A.nSeqTimesteps + A.rdt.numRegisterTokens
  let expected := B.nSeqTimesteps + B.rdt.numRegisterTokens
  if given ≠ expected then .error (.valueError (xPosEmbMismatch expected given))
  else if A.nSeqTimesteps ≠ B.nSeqTimesteps then
    .error (.valueError (actPosEmbMismatch B.nSeqTimesteps A.nSeqTimesteps))
  else if A.nActions ≠ B.nActions then
    .error (.valueError (actionEmbedderMismatch B.nActions A.nActions))
  else if A.rdt.useImageCondition ≠ B.rdt.useImageCondition then
    .error (.valueError
      (imageConditionMismatch B.rdt.useImageCondition A.rdt.useImageCondition))
  else .ok ()

theorem firstMismatch_eq_ok_iff : firstMismatch A B = .ok () ↔ Resumable A B := by
  unfold firstMismatch
  constructor
  · intro h
    dsimp only at h
    split_ifs at h with htokens hsteps hactions himage
    rw [not_not] at htokens hsteps hactions himage
    exact ⟨hsteps, by omega, hactions, himage⟩
  · intro h
    simp [h.nSeqTimesteps, h.numRegisterTokens, h.nActions, h.useImageCondition]

/-- Only the compared sizes matter. -/
theorem firstMismatch_congr (h : Resumable A B) : firstMismatch A C = firstMismatch B C := by
  unfold firstMismatch
  rw [h.nSeqTimesteps, h.numRegisterTokens, h.nActions, h.useImageCondition]

omit [Zero K] [LE K] in
theorem ite_ok_bind {p : Prop} [Decidable p] {e : ResumeError}
    {next : Unit → Except ResumeError Unit} :
    ((if p then .ok () else .error e) >>= next) = if p then next () else .error e := by
  split
  · rfl
  · rfl

/-- The check of what a run has saved. -/
theorem validate_savedBy (h : SavedBy A d) (B : Stage3Config K) :
    validateResumeCheckpointCompatibility d B (some B.nActions) = firstMismatch A B := by
  have hone : A.policy.nActionTokens = 1 := rfl
  rw [validateResumeCheckpointCompatibility, if_neg h.keys_ne_nil, h.not_legacy, h.no_queries]
  simp only [Bool.false_eq_true, if_false, Option.isSome_none,
    checkLengthIfThere_of_shape h.actionPosTokens rfl,
    checkLengthIfThere_of_shape h.xPosEmb rfl, checkActPosEmb_of_shape h.actPosEmb rfl,
    checkLengthIfThere_of_shape h.actionEmbedder rfl, checkImgPosEmb, h.isSome_imgPosEmb,
    ite_ok_bind, if_pos hone]
  simp only [firstMismatch, ne_eq, ite_not]
  rfl

end Saved

/-! ## Runs resumed from one another -/

section Runs

variable {K : Type} [Zero K] [LE K] {A B C : Stage3Config K}

/-- A run under `B` starts from a checkpoint of a run under `A`. -/
def ResumesFrom (δ V : Type) (A B : Stage3Config K) : Prop :=
  ∃ d : LoadableDict δ V, SavedBy A d ∧
    validateResumeCheckpointCompatibility d B (some B.nActions) = .ok ()

variable {δ V : Type}

theorem resumable_of_resumesFrom (h : ResumesFrom δ V A B) : Resumable A B := by
  obtain ⟨d, hsaved, hok⟩ := h
  rw [validate_savedBy hsaved] at hok
  exact firstMismatch_eq_ok_iff.mp hok

theorem resumable_of_runs (h : Relation.ReflTransGen (ResumesFrom δ V) A B) : Resumable A B := by
  induction h with
  | refl => exact Resumable.refl A
  | tail _ hlast ih => exact ih.trans (resumable_of_resumesFrom hlast)

/-- **Resumption loses nothing.** After any number of resumptions a checkpoint is checked
as if the first run had saved it: it is accepted under the configurations that agree with
that of the first run, and otherwise the message is about the first size that differs. -/
theorem validate_resumedRuns (hruns : Relation.ReflTransGen (ResumesFrom δ V) A B)
    {d : LoadableDict δ V} (hsaved : SavedBy B d) (C : Stage3Config K) :
    validateResumeCheckpointCompatibility d C (some C.nActions) = firstMismatch A C ∧
      (firstMismatch A C = .ok () ↔ Resumable A C) := by
  refine ⟨?_, firstMismatch_eq_ok_iff⟩
  rw [validate_savedBy hsaved, firstMismatch_congr (resumable_of_runs hruns)]

/-! ### A checkpoint for each configuration -/

def plainTensor (dtype : δ) (entry : V) (shape : List ℕ) : Tensor δ V :=
  ⟨shape, dtype, fun _ => entry⟩

def Stage3Config.checkedTensors (cfg : Stage3Config K) (dtype : δ) (entry : V) :
    List (Sigma fun _ : String => Tensor δ V) :=
  [⟨"bc_transformer.action_pos_tokens",
      plainTensor dtype entry [1, cfg.policy.nActionTokens, cfg.transformer.embedDim]⟩,
    ⟨"rdt_policy_head.x_pos_emb",
      plainTensor dtype entry
        [1, cfg.rdtShape.horizon + cfg.rdt.numRegisterTokens, cfg.rdt.hiddenSize]⟩,
    ⟨"rdt_policy_head.act_pos_emb",
      plainTensor dtype entry [1, cfg.rdtShape.maxActLen, cfg.rdt.hiddenSize]⟩,
    ⟨"rdt_policy_head.action_embedder.weight",
      plainTensor dtype entry [cfg.rdt.hiddenSize, cfg.rdtShape.actionDim]⟩] ++
    if cfg.rdt.useImageCondition then
      [⟨"rdt_policy_head.img_pos_emb",
        plainTensor dtype entry [1, cfg.rdtShape.maxImgLen, cfg.rdt.hiddenSize]⟩]
    else []

theorem nodupKeys_checkedTensors (cfg : Stage3Config K) (dtype : δ) (entry : V) :
    (cfg.checkedTensors dtype entry).NodupKeys := by
  unfold Stage3Config.checkedTensors List.NodupKeys List.keys
  split
  · simp
  · simp

def Stage3Config.checkedDict (cfg : Stage3Config K) (dtype : δ) (entry : V) :
    LoadableDict δ V :=
  ⟨cfg.checkedTensors dtype entry, nodupKeys_checkedTensors cfg dtype entry⟩

theorem checkedTensors_parts : ∀ key ∈ ["bc_transformer.action_pos_tokens",
    "rdt_policy_head.x_pos_emb", "rdt_policy_head.act_pos_emb",
    "rdt_policy_head.action_embedder.weight", "rdt_policy_head.img_pos_emb"],
    ∃ part ∈ policyParts, startsWith key part = true := by
  decide +kernel

theorem savedBy_checkedDict (cfg : Stage3Config K) (dtype : δ) (entry : V) :
    SavedBy cfg (cfg.checkedDict dtype entry) where
  parts := by
    intro key hkey
    refine checkedTensors_parts key ?_
    unfold Stage3Config.checkedDict Stage3Config.checkedTensors AList.keys List.keys at hkey
    rw [List.map_append, List.mem_append] at hkey
    rcases hkey with hkey | hkey
    · exact List.mem_append_left ["rdt_policy_head.img_pos_emb"] hkey
    · split at hkey
      · exact List.mem_append_right ["bc_transformer.action_pos_tokens",
          "rdt_policy_head.x_pos_emb", "rdt_policy_head.act_pos_emb",
          "rdt_policy_head.action_embedder.weight"] hkey
      · cases hkey
  actionPosTokens := rfl
  xPosEmb := rfl
  actPosEmb := rfl
  actionEmbedder := rfl
  imgPosEmb := by
    show (List.dlookup _ (cfg.checkedTensors dtype entry)).map Tensor.shape = _
    unfold Stage3Config.checkedTensors
    cases cfg.rdt.useImageCondition
    · rfl
    · rfl

/-- All configurations that agree can be reached. -/
theorem runs_iff_resumable [Inhabited δ] [Inhabited V] :
    Relation.ReflTransGen (ResumesFrom δ V) A B ↔ Resumable A B := by
  constructor
  · exact resumable_of_runs
  · intro h
    have hsaved := savedBy_checkedDict A (default : δ) (default : V)
    refine .single ⟨_, hsaved, ?_⟩
    rw [validate_savedBy hsaved]
    exact firstMismatch_eq_ok_iff.mpr h

end Runs

section Deeper

/-- One step less and one register more: as many tokens for the head. -/
noncomputable def oneStepConfig : Stage3Config ℝ :=
  { twoStepConfig with
    nSeqTimesteps := 1
    rdt :=
      { twoStepConfig.rdt with
        numRegisterTokens := 2
        numRegisterTokens_pos := Nat.two_pos } }

/-- A run that goes on with more thinking tokens and a deeper head. -/
noncomputable def deeperConfig : Stage3Config ℝ :=
  { twoStepConfig with
    nThinkingTokens := 3
    rdt := { twoStepConfig.rdt with depth := 2 } }

theorem validate_resumedRuns_deeper :
    Relation.ReflTransGen (ResumesFrom Unit Unit) twoStepConfig deeperConfig ∧
      validateResumeCheckpointCompatibility (deeperConfig.checkedDict () ()) oneStepConfig
          (some 1) =
        .error (.valueError (actPosEmbMismatch 1 2)) := by
  have hruns : Relation.ReflTransGen (ResumesFrom Unit Unit) twoStepConfig deeperConfig :=
    runs_iff_resumable.mpr ⟨rfl, rfl, rfl, rfl⟩
  obtain ⟨hcheck, -⟩ :=
    validate_resumedRuns hruns (savedBy_checkedDict deeperConfig () ()) oneStepConfig
  exact ⟨hruns, hcheck⟩

end Deeper

end P2PRdt.Policy

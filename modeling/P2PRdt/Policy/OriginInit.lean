import P2PRdt.Lib.PrefixRemap
import Mathlib.Data.List.AList
import Mathlib.Logic.Function.Basic

/-!
# Initialization from an origin checkpoint

`_maybe_initialize_from_origin_checkpoint`: the keys of the origin are filtered,
remapped and looked up in the target one by one, each tensor is adapted to its
target, and only then the collected tensors are loaded. `load_state_dict` copies
what it can before it raises, so it has to be shown that it does not raise.

A parameter may have several names: the image tokenizer is a part of the policy
and of its transformer.
-/

namespace P2PRdt.Policy

open Lib

/-! ## Keys -/

inductive MultiViewImageMode where
  | vertical
  | frame
  | first
  | tokenConcat
deriving DecidableEq, Repr

structure OriginInitConfig where
  originModelPath : Option String := none
  stage3ModelPath : Option String := none
  multiViewImageMode : MultiViewImageMode := .vertical

/-- `str.startswith` and `str.endswith`. -/
def startsWith (key pre : String) : Bool := pre.toList.isPrefixOf key.toList

def endsWith (key suf : String) : Bool := suf.toList.isSuffixOf key.toList

def originInitSkipPrefixes : List String :=
  ["bc_transformer.action_decoder.",
    "key_action_embedding.",
    "mouse_button_embedding.",
    "mouse_delta_x_embedding.",
    "mouse_delta_y_embedding.",
    "keyboard_out_logits.",
    "mouse_button_out_logits.",
    "mouse_delta_x_out_logits.",
    "mouse_delta_y_out_logits."]

def originInitSkipKeys : List String := ["bc_transformer.action_pos_tokens"]

def originTokenizerPrefixRemaps : List (String × String) :=
  [("bc_transformer.image_tokenizer.", "bc_transformer.image_tokenizer.base_tokenizer."),
    ("image_tokenizer.", "image_tokenizer.base_tokenizer.")]

/-- `_should_skip_origin_init_key`. -/
def shouldSkipOriginInitKey (key : String) : Bool :=
  originInitSkipKeys.contains key || originInitSkipPrefixes.any (startsWith key)

/-- `_remap_origin_init_key`. -/
def remapOriginInitKey (key : String) (config : OriginInitConfig) : String :=
  if config.multiViewImageMode ≠ .tokenConcat then key
  else
    match originTokenizerPrefixRemaps.find? fun r => startsWith key r.1 with
    | some (sourcePrefix, targetPrefix) =>
        targetPrefix ++ String.ofList (key.toList.drop sourcePrefix.length)
    | none => key

/-! ## Tensors -/

/-- A tensor over dtypes `δ`, by the indices of its entries. -/
structure Tensor (δ K : Type) where
  shape : List ℕ
  dtype : δ
  entry : List ℕ → K

inductive InitError where
  | fileNotFoundError (message : String)
  | loadError
  | valueError (message : String)
  | attributeError
  | zeroDivisionError
  | runtimeError
deriving DecidableEq, Repr

variable {δ K σ : Type}

/-- `Tensor.to(dtype=..)`, with what the library does to an entry. -/
def Tensor.to (cast : δ → K → K) (t : Tensor δ K) (dtype : δ) : Tensor δ K :=
  { t with dtype := dtype, entry := fun i => cast dtype (t.entry i) }

/-- `Tensor.repeat(1, factor, 1)` of a tensor with three axes. -/
def Tensor.repeatTokens (t : Tensor δ K) (a b c factor : ℕ) : Tensor δ K where
  shape := [a, b * factor, c]
  dtype := t.dtype
  entry := fun i =>
    match i with
    | [x, y, z] => t.entry [x, y % b, z]
    | i => t.entry i

/-- `tuple(shape)` in a message. -/
def pyTuple (shape : List ℕ) : String :=
  match shape with
  | [n] => "(" ++ toString n ++ ",)"
  | shape => "(" ++ ", ".intercalate (shape.map toString) ++ ")"

/-- The last line of `_adapt_origin_tensor_to_target`. -/
def cannotAdapt (sourceKey : String) (source : List ℕ) (targetKey : String) (target : List ℕ) :
    InitError :=
  .valueError ("Cannot adapt origin checkpoint tensor " ++ sourceKey ++ " with shape " ++
    pyTuple source ++ " to " ++ targetKey ++ " with shape " ++ pyTuple target ++ ". " ++
    "Only exact-shape loads and explicit whitelist adaptations are allowed.")

/-- `_adapt_origin_tensor_to_target`. -/
def adaptOriginTensorToTarget (cast : δ → K → K) (sourceKey : String) (source : Tensor δ K)
    (targetKey : String) (target : Tensor δ K) : Except InitError (Tensor δ K × String) :=
  if source.shape = target.shape then .ok (source.to cast target.dtype, "direct")
  else
    match source.shape, target.shape with
    | [s0, s1, s2], [t0, t1, t2] =>
        if endsWith sourceKey "img_pos_tokens" && endsWith targetKey "img_pos_tokens" &&
            s0 = t0 && s2 = t2 then
          if s1 = 0 then .error .zeroDivisionError
          else if t1 % s1 = 0 then
            let repeatFactor := t1 / s1
            .ok ((source.repeatTokens s0 s1 s2 repeatFactor).to cast target.dtype,
              "repeat_img_tokens_x" ++ toString repeatFactor)
          else .error (cannotAdapt sourceKey source.shape targetKey target.shape)
        else .error (cannotAdapt sourceKey source.shape targetKey target.shape)
    | _, _ => .error (cannotAdapt sourceKey source.shape targetKey target.shape)

/-! ## The origin checkpoint -/

/-- A key of a `dict`. -/
inductive PyKey where
  | str (key : String)
  | other (id : ℕ)
deriving DecidableEq, Repr

abbrev PyDict (ν : Type) : Type := AList fun _ : PyKey => ν

inductive Leaf (δ K : Type) where
  | tensor (t : Tensor δ K)
  | other

inductive CheckpointValue (δ K : Type) where
  | leaf (l : Leaf δ K)
  | dict (d : PyDict (Leaf δ K))

inductive Checkpoint (δ K : Type) where
  | dict (d : PyDict (CheckpointValue δ K))
  | other

/-- A value as an entry of a `state_dict`. -/
def CheckpointValue.toLeaf : CheckpointValue δ K → Leaf δ K
  | .leaf l => l
  | .dict _ => .other

/-- The `dict` itself as a `state_dict`. -/
def plainStateDict (d : PyDict (CheckpointValue δ K)) : PyDict (Leaf δ K) where
  entries := d.entries.map fun e => ⟨e.1, e.2.toLeaf⟩
  nodupKeys := by
    have hkeys : (d.entries.map fun e => (⟨e.1, e.2.toLeaf⟩ : Sigma fun _ => Leaf δ K)).keys =
        d.entries.keys := by
      simp [List.keys]
    rw [List.NodupKeys, hkeys]
    exact d.nodupKeys

/-- What is outside of the repository: the file system and the tensor library. -/
structure Outside (δ K : Type) where
  pathExists : String → Bool
  isdir : String → Bool
  ls : String → List String
  load : String → Except InitError (Checkpoint δ K)
  cast : δ → K → K

/-- `_resolve_optional_checkpoint_path`. -/
def resolveOptionalCheckpointPath (fs : Outside δ K) (checkpointPath : Option String) :
    Except InitError (Option String) :=
  match checkpointPath with
  | none | some "" => .ok none
  | some path =>
      if fs.pathExists path && !fs.isdir path then .ok (some path)
      else if fs.isdir path then
        let checkpointCandidates := (fs.ls path).filter (endsWith · ".ckpt")
        match (checkpointCandidates.mergeSort fun a b => decide (a ≤ b)).getLast? with
        | some candidate => .ok (some candidate)
        | none =>
            .error (.fileNotFoundError ("No .ckpt files found in checkpoint directory: " ++ path))
      else .error (.fileNotFoundError ("Checkpoint path does not exist: " ++ path))

/-- `_load_origin_checkpoint_state_dict`. -/
def loadOriginCheckpointStateDict (outside : Outside δ K) (checkpointPath : String) :
    Except InitError (PyDict (Leaf δ K)) := do
  let unsupported : InitError := .valueError ("Unsupported origin checkpoint format at " ++
    checkpointPath ++ "; expected a Lightning checkpoint or a plain state_dict.")
  match ← outside.load checkpointPath with
  | .dict checkpoint =>
      match checkpoint.lookup (.str "state_dict") with
      | some (.dict stateDict) => .ok stateDict
      | _ =>
          if checkpoint.keys.all (· matches .str _) then .ok (plainStateDict checkpoint)
          else .error unsupported
  | .other => .error unsupported

/-! ## The target -/

/-- The names of parameters and buffers in the order of `state_dict`, the
parameter behind each name, and the values. -/
structure TargetModel (σ δ K : Type) where
  names : List (String × σ)
  distinct : (names.map Prod.fst).Nodup
  value : σ → Tensor δ K

abbrev LoadableDict (δ K : Type) : Type := AList fun _ : String => Tensor δ K

/-- `model.state_dict().get`. -/
def TargetModel.stateDict (m : TargetModel σ δ K) (name : String) : Option (Tensor δ K) :=
  (m.names.lookup name).map m.value

/-- One name of `load_state_dict(strict=False)`: a shape that differs is noted, and
the other names are loaded all the same. -/
def loadName [DecidableEq σ] (cast : δ → K → K) (d : LoadableDict δ K)
    (acc : (σ → Tensor δ K) × Bool) (name : String × σ) : (σ → Tensor δ K) × Bool :=
  match d.lookup name.1 with
  | none => acc
  | some t =>
      let param := acc.1 name.2
      if t.shape = param.shape then
        -- `param.copy_`
        (Function.update acc.1 name.2
          { param with entry := fun i => cast param.dtype (t.entry i) }, acc.2)
      else (acc.1, true)

def TargetModel.loadStateDict [DecidableEq σ] (m : TargetModel σ δ K) (cast : δ → K → K)
    (d : LoadableDict δ K) : TargetModel σ δ K × Except InitError Unit :=
  let (value, errors) := m.names.foldl (loadName cast d) (m.value, false)
  ({ m with value := value }, if errors then .error .runtimeError else .ok ())

/-! ## The initialization -/

structure InitCounts where
  loaded : ℕ := 0
  adapted : ℕ := 0
  filtered : ℕ := 0
  missing : ℕ := 0
  remapped : ℕ := 0
deriving DecidableEq, Repr

/-- The local variables of the loop. -/
structure InitProgress (δ K : Type) where
  loadableStateDict : LoadableDict δ K := ∅
  counts : InitCounts := {}

/-- One item of the origin. -/
def originInitItem (cast : δ → K → K) (config : OriginInitConfig)
    (targetStateDict : String → Option (Tensor δ K)) (p : InitProgress δ K)
    (item : Sigma fun _ : PyKey => Leaf δ K) : Except InitError (InitProgress δ K) :=
  match item.1 with
  -- it has no `startswith`
  | .other _ => .error .attributeError
  | .str sourceKey =>
      if shouldSkipOriginInitKey sourceKey then
        .ok { p with counts := { p.counts with filtered := p.counts.filtered + 1 } }
      else
        let targetKey := remapOriginInitKey sourceKey config
        let remapped := p.counts.remapped + if targetKey ≠ sourceKey then 1 else 0
        match targetStateDict targetKey with
        | none =>
            .ok { p with
              counts := { p.counts with remapped := remapped, missing := p.counts.missing + 1 } }
        | some targetTensor =>
            match item.2 with
            -- it has no `shape`
            | .other => .error .attributeError
            | .tensor sourceTensor => do
                let (adaptedTensor, adaptMode) ←
                  adaptOriginTensorToTarget cast sourceKey sourceTensor targetKey targetTensor
                return {
                  loadableStateDict := p.loadableStateDict.insert targetKey adaptedTensor
                  counts := { p.counts with
                    remapped := remapped
                    loaded := p.counts.loaded + 1
                    adapted := p.counts.adapted + if adaptMode ≠ "direct" then 1 else 0 } }

/-- What the function has come to when it returns behind its loop. -/
structure InitSummary (δ K : Type) extends InitProgress δ K where
  originStateDict : PyDict (Leaf δ K)

/-- The loop over the origin, and the loading behind it. -/
def initializeFromOrigin [DecidableEq σ] (cast : δ → K → K) (m : TargetModel σ δ K)
    (config : OriginInitConfig) (originStateDict : PyDict (Leaf δ K)) :
    TargetModel σ δ K × Except InitError (Option (InitSummary δ K)) :=
  match originStateDict.entries.foldlM (originInitItem cast config m.stateDict) {} with
  | .error e => (m, .error e)
  | .ok p =>
      let summary := { p with originStateDict := originStateDict }
      if p.loadableStateDict.entries.isEmpty then (m, .ok (some summary))
      else
        match m.loadStateDict cast p.loadableStateDict with
        | (m', .error e) => (m', .error e)
        | (m', .ok ()) => (m', .ok (some summary))

/-- `_maybe_initialize_from_origin_checkpoint`: the model that it leaves behind,
also when it raises. It returns `none` when no origin is to be loaded. -/
def maybeInitializeFromOriginCheckpoint [DecidableEq σ] (outside : Outside δ K)
    (m : TargetModel σ δ K) (config : OriginInitConfig) :
    TargetModel σ δ K × Except InitError (Option (InitSummary δ K)) :=
  match resolveOptionalCheckpointPath outside config.originModelPath with
  | .error e => (m, .error e)
  | .ok none => (m, .ok none)
  | .ok (some originCheckpointPath) =>
      if config.stage3ModelPath.any (· ≠ "") then (m, .ok none)
      else
        match loadOriginCheckpointStateDict outside originCheckpointPath with
        | .error e => (m, .error e)
        | .ok originStateDict => initializeFromOrigin outside.cast m config originStateDict

/-! ## The keys do not meet -/

/-- The remaps as lists of characters. -/
def tokenizerRemaps : List (List Char × List Char) :=
  originTokenizerPrefixRemaps.map fun r => (r.1.toList, r.2.toList)

theorem tokenizerRemaps_separated : Separated tokenizerRemaps := by
  constructor
  · decide
  · decide

theorem toList_remapOriginInitKey {config : OriginInitConfig}
    (hmode : config.multiViewImageMode = .tokenConcat) (key : String) :
    (remapOriginInitKey key config).toList = remapFirst tokenizerRemaps key.toList := by
  rw [remapOriginInitKey, if_neg (by rw [hmode]; exact fun h => h rfl), remapFirst,
    tokenizerRemaps, List.find?_map]
  have hmatch : ((fun r : List Char × List Char => r.1.isPrefixOf key.toList) ∘
      fun r : String × String => (r.1.toList, r.2.toList)) = fun r => startsWith key r.1 := rfl
  rw [hmatch]
  cases originTokenizerPrefixRemaps.find? fun r => startsWith key r.1 with
  | none => rfl
  | some r =>
      simp only [Option.map_some, String.toList_append, String.toList_ofList,
        String.length_toList]

theorem remapOriginInitKey_injective (config : OriginInitConfig) :
    Function.Injective fun key => remapOriginInitKey key config := by
  intro key key' heq
  by_cases hmode : config.multiViewImageMode = .tokenConcat
  · have hlist := congrArg String.toList heq
    simp only [toList_remapOriginInitKey hmode] at hlist
    exact String.toList_inj.mp (remapFirst_injective tokenizerRemaps_separated hlist)
  · simpa only [remapOriginInitKey, if_pos hmode] using heq

/-- A remapped name is never one of those that are skipped. -/
theorem shouldSkip_of_remap {key : String} {config : OriginInitConfig}
    (h : shouldSkipOriginInitKey (remapOriginInitKey key config) = true) :
    shouldSkipOriginInitKey key = true := by
  by_cases hmode : config.multiViewImageMode = .tokenConcat
  · have hlist := toList_remapOriginInitKey hmode key
    rw [shouldSkipOriginInitKey, Bool.or_eq_true] at h ⊢
    rcases h with hname | hpre
    · left
      rw [List.contains_iff_mem] at hname ⊢
      have hapart : ∀ name ∈ originInitSkipKeys, ∀ r ∈ tokenizerRemaps, ¬ r.2 <+: name.toList := by
        decide
      have hsame := eq_of_remapFirst_eq (hapart _ hname) hlist.symm
      rwa [String.toList_inj.mp hsame]
    · right
      rw [List.any_eq_true] at hpre ⊢
      rcases hpre with ⟨p, hp, hstarts⟩
      have hapart : ∀ p ∈ originInitSkipPrefixes, ∀ r ∈ tokenizerRemaps,
          ¬ p.toList <+: r.2 ∧ ¬ r.2 <+: p.toList := by
        decide
      refine ⟨p, hp, ?_⟩
      rw [startsWith, List.isPrefixOf_iff_prefix] at hstarts ⊢
      rw [hlist] at hstarts
      exact prefix_of_prefix_remapFirst (hapart p hp) hstarts
  · rwa [remapOriginInitKey, if_pos hmode] at h

/-! ## Adapting -/

/-- An adapted tensor has the shape of its target. -/
theorem shape_of_adapt {cast : δ → K → K} {sourceKey targetKey : String}
    {source target t : Tensor δ K} {mode : String}
    (h : adaptOriginTensorToTarget cast sourceKey source targetKey target = .ok (t, mode)) :
    t.shape = target.shape := by
  unfold adaptOriginTensorToTarget at h
  split at h
  · rename_i hshape
    cases h
    exact hshape
  · split at h
    · rename_i s0 s1 s2 t0 t1 t2 hs ht
      split at h
      · rename_i hwhitelist
        simp only [Bool.and_eq_true, decide_eq_true_eq] at hwhitelist
        rcases hwhitelist with ⟨⟨-, rfl⟩, rfl⟩
        split at h
        · cases h
        · split at h
          · rename_i hmod
            cases h
            rw [ht]
            show [s0, s1 * (t1 / s1), s2] = [s0, t1, s2]
            rw [Nat.mul_div_cancel' (Nat.dvd_of_mod_eq_zero hmod)]
          · cases h
      · cases h
    · cases h

/-! ## The loop -/

section Loop

variable {cast : δ → K → K} {config : OriginInitConfig} {target : String → Option (Tensor δ K)}

/-- What holds when the items `done` have been gone through. -/
structure Collected (config : OriginInitConfig) (target : String → Option (Tensor δ K))
    (done : List (Sigma fun _ : PyKey => Leaf δ K)) (p : InitProgress δ K) : Prop where
  counted : p.counts.filtered + p.counts.missing + p.counts.loaded = done.length
  once : p.loadableStateDict.entries.length = p.counts.loaded
  origin : ∀ name ∈ p.loadableStateDict, ∃ key, PyKey.str key ∈ done.keys ∧
    shouldSkipOriginInitKey key = false ∧ remapOriginInitKey key config = name
  shape : ∀ name t, p.loadableStateDict.lookup name = some t →
    ∃ t', target name = some t' ∧ t.shape = t'.shape

theorem mem_keys_append_left {done later : List (Sigma fun _ : PyKey => Leaf δ K)} {key : PyKey}
    (h : key ∈ done.keys) : key ∈ (done ++ later).keys := by
  rw [List.keys, List.map_append]
  exact List.mem_append_left _ h

/-- An item that is counted and not loaded. -/
theorem Collected.passed {done : List (Sigma fun _ : PyKey => Leaf δ K)} {p p' : InitProgress δ K}
    (h : Collected config target done p) (item : Sigma fun _ : PyKey => Leaf δ K)
    (hsame : p'.loadableStateDict = p.loadableStateDict)
    (hloaded : p'.counts.loaded = p.counts.loaded)
    (hcounted : p'.counts.filtered + p'.counts.missing =
      p.counts.filtered + p.counts.missing + 1) :
    Collected config target (done ++ [item]) p' := by
  constructor
  · rw [hcounted, hloaded, List.length_append, ← h.counted, List.length_singleton,
      Nat.add_right_comm]
  · rw [hsame, hloaded, h.once]
  · rw [hsame]
    intro name hname
    obtain ⟨key, hkey, hrest⟩ := h.origin name hname
    exact ⟨key, mem_keys_append_left hkey, hrest⟩
  · rw [hsame]
    exact h.shape

/-- An item that is loaded under a new name. -/
theorem Collected.loaded {done : List (Sigma fun _ : PyKey => Leaf δ K)} {p p' : InitProgress δ K}
    (h : Collected config target done p) {item : Sigma fun _ : PyKey => Leaf δ K}
    {sourceKey : String} (hkey : item.1 = .str sourceKey)
    (hskip : shouldSkipOriginInitKey sourceKey = false)
    {t targetTensor : Tensor δ K}
    (htarget : target (remapOriginInitKey sourceKey config) = some targetTensor)
    (hshape : t.shape = targetTensor.shape)
    (hfresh : remapOriginInitKey sourceKey config ∉ p.loadableStateDict)
    (hsame : p'.loadableStateDict =
      p.loadableStateDict.insert (remapOriginInitKey sourceKey config) t)
    (hloaded : p'.counts.loaded = p.counts.loaded + 1)
    (hfiltered : p'.counts.filtered = p.counts.filtered)
    (hmissing : p'.counts.missing = p.counts.missing) :
    Collected config target (done ++ [item]) p' := by
  constructor
  · rw [hfiltered, hmissing, hloaded, List.length_append, ← h.counted, List.length_singleton,
      ← Nat.add_assoc]
  · rw [hsame, AList.entries_insert_of_notMem hfresh, List.length_cons, h.once, hloaded]
  · rw [hsame]
    intro name hname
    rcases (AList.mem_insert _).mp hname with rfl | hname
    · refine ⟨sourceKey, ?_, hskip, rfl⟩
      rw [List.keys, List.map_append, ← hkey]
      exact List.mem_append_right _ (List.mem_singleton_self _)
    · obtain ⟨key, hkey, hrest⟩ := h.origin name hname
      exact ⟨key, mem_keys_append_left hkey, hrest⟩
  · rw [hsame]
    intro name t' ht'
    by_cases hname : name = remapOriginInitKey sourceKey config
    · subst hname
      rw [AList.lookup_insert] at ht'
      cases ht'
      exact ⟨targetTensor, htarget, hshape⟩
    · rw [AList.lookup_insert_ne hname] at ht'
      exact h.shape name t' ht'

theorem Collected.item {done : List (Sigma fun _ : PyKey => Leaf δ K)} {p p' : InitProgress δ K}
    (h : Collected config target done p) {item : Sigma fun _ : PyKey => Leaf δ K}
    (hnew : item.1 ∉ done.keys) (hstep : originInitItem cast config target p item = .ok p') :
    Collected config target (done ++ [item]) p' := by
  unfold originInitItem at hstep
  split at hstep
  · cases hstep
  · rename_i sourceKey hkey
    split at hstep
    · cases hstep
      exact h.passed item rfl rfl (Nat.add_right_comm _ _ _)
    · rename_i hskip
      simp only at hstep
      split at hstep
      · cases hstep
        exact h.passed item rfl rfl rfl
      · rename_i targetTensor htarget
        split at hstep
        · cases hstep
        · rename_i sourceTensor hleaf
          cases hadapt : adaptOriginTensorToTarget cast sourceKey sourceTensor
              (remapOriginInitKey sourceKey config) targetTensor with
          | error e =>
              rw [hadapt] at hstep
              cases hstep
          | ok r =>
              rw [hadapt] at hstep
              cases hstep
              -- another key with this target would have been this key
              have hfresh : remapOriginInitKey sourceKey config ∉ p.loadableStateDict := by
                intro hmem
                obtain ⟨key, hdone, -, hsame⟩ := h.origin _ hmem
                have hsame : key = sourceKey := remapOriginInitKey_injective config hsame
                rw [hkey, ← hsame] at hnew
                exact hnew hdone
              exact h.loaded hkey (Bool.eq_false_iff.mpr hskip) htarget (shape_of_adapt hadapt)
                hfresh rfl rfl rfl rfl

theorem Collected.loop {done rest : List (Sigma fun _ : PyKey => Leaf δ K)}
    {p p' : InitProgress δ K} (h : Collected config target done p)
    (hnodup : (done ++ rest).NodupKeys)
    (hrun : rest.foldlM (originInitItem cast config target) p = .ok p') :
    Collected config target (done ++ rest) p' := by
  induction rest generalizing done p with
  | nil =>
      cases hrun
      rwa [List.append_nil]
  | cons item rest ih =>
      rw [List.foldlM_cons] at hrun
      cases hstep : originInitItem cast config target p item with
      | error e =>
          rw [hstep] at hrun
          cases hrun
      | ok next =>
          rw [hstep] at hrun
          have hnew : item.1 ∉ done.keys := by
            rw [List.NodupKeys, List.keys, List.map_append, List.nodup_append] at hnodup
            intro hmem
            exact hnodup.2.2 _ hmem _ (List.mem_map_of_mem List.mem_cons_self) rfl
          have hnext := h.item hnew hstep
          rw [← List.singleton_append, ← List.append_assoc] at hnodup ⊢
          exact ih hnext hnodup hrun

end Loop

/-! ## The loading -/

namespace TargetModel

variable [DecidableEq σ] {m : TargetModel σ δ K} {cast : δ → K → K} {d : LoadableDict δ K}

omit [DecidableEq σ] in
theorem lookup_of_mem {name : String × σ} (h : name ∈ m.names) :
    m.names.lookup name.1 = some name.2 := by
  obtain ⟨before, after, hsplit⟩ := List.append_of_mem h
  have hdistinct := m.distinct
  rw [hsplit, List.map_append, List.map_cons, List.nodup_append] at hdistinct
  rw [List.lookup_eq_some_iff]
  refine ⟨before, after, hsplit, ?_⟩
  intro p hp
  have hne := hdistinct.2.2 _ (List.mem_map_of_mem hp) _ List.mem_cons_self
  exact bne_iff_ne.mpr hne.symm

/-- No name of the parameter is among the loaded ones. -/
def Untouched (m : TargetModel σ δ K) (d : LoadableDict δ K) (s : σ) : Prop :=
  ∀ name ∈ d, m.names.lookup name ≠ some s

/-- Tensors of the shapes of their targets are loaded without an error. -/
theorem loadStateDict_ok (m : TargetModel σ δ K) (cast : δ → K → K)
    (hshape : ∀ name t, d.lookup name = some t →
      ∃ t', m.stateDict name = some t' ∧ t.shape = t'.shape) :
    ∃ m', m.loadStateDict cast d = (m', .ok ()) ∧
      (∀ s, (m'.value s).shape = (m.value s).shape) ∧
      ∀ s, m.Untouched d s → m'.value s = m.value s := by
  have hfold := List.foldlRecOn (motive := fun acc : (σ → Tensor δ K) × Bool =>
      acc.2 = false ∧ (∀ s, (acc.1 s).shape = (m.value s).shape) ∧
        ∀ s, m.Untouched d s → acc.1 s = m.value s)
    m.names (loadName cast d) (b := (m.value, false)) ⟨rfl, fun _ => rfl, fun _ _ => rfl⟩ ?_
  · rcases hfold with ⟨hok, hshapes, hsame⟩
    refine ⟨{ m with value := (m.names.foldl (loadName cast d) (m.value, false)).1 }, ?_,
      hshapes, hsame⟩
    rw [loadStateDict]
    simp only [hok]
    rfl
  · rintro ⟨value, errors⟩ ⟨hok, hshapes, hsame⟩ name hname
    have hslot := lookup_of_mem hname
    unfold loadName
    cases hload : d.lookup name.1 with
    | none => exact ⟨hok, hshapes, hsame⟩
    | some t =>
        obtain ⟨t', ht', heq⟩ := hshape name.1 t hload
        rw [stateDict, hslot] at ht'
        cases ht'
        have hfits : t.shape = (value name.2).shape := heq.trans (hshapes name.2).symm
        simp only [hfits, if_true]
        refine ⟨hok, ?_, ?_⟩
        · intro s
          by_cases hs : s = name.2
          · subst hs
            rw [Function.update_self]
            exact hshapes _
          · rw [Function.update_of_ne hs]
            exact hshapes s
        · intro s huntouched
          have hs : s ≠ name.2 := by
            rintro rfl
            exact huntouched name.1 (AList.lookup_isSome.mp (by rw [hload]; rfl)) hslot
          rw [Function.update_of_ne hs]
          exact hsame s huntouched

end TargetModel

/-! ## The initialization as a whole -/

/-- What holds of an initialization that has gone through the origin. `m` is the
model before it and `m'` the model after it. -/
structure InitFinished (config : OriginInitConfig) (m m' : TargetModel σ δ K)
    (summary : InitSummary δ K) : Prop where
  counted : summary.counts.filtered + summary.counts.missing + summary.counts.loaded =
    summary.originStateDict.entries.length
  injective : Function.Injective fun key => remapOriginInitKey key config
  once : summary.loadableStateDict.entries.length = summary.counts.loaded
  notSkipped : ∀ name ∈ summary.loadableStateDict, shouldSkipOriginInitKey name = false ∧
    ∃ key, PyKey.str key ∈ summary.originStateDict ∧ shouldSkipOriginInitKey key = false ∧
      remapOriginInitKey key config = name
  shape : ∀ name t, summary.loadableStateDict.lookup name = some t →
    ∃ t', m.stateDict name = some t' ∧ t.shape = t'.shape
  kept : ∀ s, (∀ key, PyKey.str key ∈ summary.originStateDict →
    shouldSkipOriginInitKey key = false →
      m.names.lookup (remapOriginInitKey key config) ≠ some s) → m'.value s = m.value s
  shapes : ∀ s, (m'.value s).shape = (m.value s).shape

theorem Collected.finished {config : OriginInitConfig}
    {m m' : TargetModel σ δ K} {p : InitProgress δ K} {originStateDict : PyDict (Leaf δ K)}
    (h : Collected config m.stateDict originStateDict.entries p)
    (hsame : ∀ s, m.Untouched p.loadableStateDict s → m'.value s = m.value s)
    (hshapes : ∀ s, (m'.value s).shape = (m.value s).shape) :
    InitFinished config m m' { p with originStateDict := originStateDict } := by
  have hskip : ∀ key, shouldSkipOriginInitKey key = false →
      shouldSkipOriginInitKey (remapOriginInitKey key config) = false := by
    intro key hkey
    rw [← Bool.not_eq_true] at hkey ⊢
    exact fun hname => hkey (shouldSkip_of_remap hname)
  refine ⟨h.counted, remapOriginInitKey_injective config, h.once, ?_, h.shape, ?_, hshapes⟩
  · intro name hname
    obtain ⟨key, hkey, hkeep, rfl⟩ := h.origin name hname
    exact ⟨hskip key hkeep, key, hkey, hkeep, rfl⟩
  · intro s hnone
    apply hsame
    intro name hname
    obtain ⟨key, hkey, hkeep, rfl⟩ := h.origin name hname
    exact hnone key hkey hkeep

/-- A result that leaves the model as it is, or has gone through the origin. -/
def InitAtomic (config : OriginInitConfig) (m : TargetModel σ δ K) :
    TargetModel σ δ K × Except InitError (Option (InitSummary δ K)) → Prop
  | (m', .error _) => m' = m
  | (m', .ok none) => m' = m
  | (m', .ok (some summary)) => InitFinished config m m' summary

theorem initializeFromOrigin_atomic [DecidableEq σ] (cast : δ → K → K) (m : TargetModel σ δ K)
    (config : OriginInitConfig) (originStateDict : PyDict (Leaf δ K)) :
    InitAtomic config m (initializeFromOrigin cast m config originStateDict) := by
  unfold initializeFromOrigin
  cases hrun : originStateDict.entries.foldlM (originInitItem cast config m.stateDict) {} with
  | error e => rfl
  | ok p =>
      have hcollected : Collected config m.stateDict originStateDict.entries p := by
        have hstart : Collected config m.stateDict [] ({} : InitProgress δ K) := by
          refine ⟨rfl, rfl, ?_, ?_⟩
          · exact fun name hname => absurd hname (AList.notMem_empty name)
          · exact fun name t ht => nomatch ht
        exact hstart.loop originStateDict.nodupKeys hrun
      by_cases hempty : p.loadableStateDict.entries.isEmpty = true
      · simp only [hempty, if_true]
        exact hcollected.finished (fun _ _ => rfl) fun _ => rfl
      · simp only [hempty]
        obtain ⟨m', hload, hshapes, hsame⟩ := m.loadStateDict_ok cast hcollected.shape
        rw [hload]
        exact hcollected.finished hsame hshapes

end P2PRdt.Policy

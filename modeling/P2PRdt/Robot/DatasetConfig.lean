import P2PRdt.Lib.OptionLists
import P2PRdt.Robot.Images

/-!
# The configuration of the robot dataset

The fields of `DatasetConfig` that the robot dataset reads, the dimensions that
`model_post_init` fills in, and the inverse table of the used channels. A channel
has a quantile of 1% and one of 99%; no channel has a zero scale. `NormStat` is the
`norm_stat` of a configuration as it is written, with lists of any length; where
these give each channel its quantiles, they are those of `DatasetConfig`.
-/

namespace P2PRdt.Robot

open Lib

structure DatasetConfig (K : Type) [Field K] where
  usedActionChannelIds : List ℕ
  inverseUsedActionChannelIds : List ℕ
  actionDim : Option ℕ
  robotActionDim : Option ℕ
  imageFrameStride : ℕ
  nSeqTimesteps : ℕ
  shuffle : Bool
  obsCamKeys : List String
  images : ImageConfig K
  q01 : ℕ → K
  q99 : ℕ → K
  scale_ne_zero : ∀ c, q99 c - q01 c + 1 / (10 ^ 6 : ℕ) ≠ 0

/-- `norm_stat`, as it is written in the configuration. -/
structure NormStat (K : Type) where
  q01 : List K
  q99 : List K

/-- The length of two axes that NumPy stretches to each other; other lengths raise an
error. -/
def broadcastAxis (m n : ℕ) : Option ℕ :=
  if m = n ∨ n = 1 then some m else if m = 1 then some n else none

namespace NormStat

variable {K : Type} [Field K] (stat : NormStat K)

/-- Place `c` of an axis, stretched if its length is one. -/
def stretched {α : Type} (l : List α) (c : ℕ) (default : α) : α :=
  l.getD (if l.length = 1 then 0 else c) default

/-- The number of channels of `(actions - q01) / (q99 - q01 + 1e-6)`. -/
def width (channels : ℕ) : Option ℕ := do
  let shifted ← broadcastAxis channels stat.q01.length
  let scale ← broadcastAxis stat.q99.length stat.q01.length
  broadcastAxis shifted scale

/-- The value `v` in channel `c` between the quantiles; `none` is a value that is not
finite, which a division by zero gives. -/
def normalize [DecidableEq K] (c : ℕ) (v : K) : Option K :=
  let q01 := stretched stat.q01 c 0
  let scale := stretched stat.q99 c 0 - q01 + 1 / (10 ^ 6 : ℕ)
  if scale = 0 then none else some ((v - q01) / scale * (2 : ℕ) - 1)

/-- The lists have an entry for each channel, or one for all of them, and these are the
quantiles of the configuration. -/
structure Gives (config : DatasetConfig K) (channels : ℕ) : Prop where
  q01_length : stat.q01.length = channels ∨ stat.q01.length = 1
  q99_length : stat.q99.length = channels ∨ stat.q99.length = 1
  q01_eq : ∀ c < channels, stretched stat.q01 c 0 = config.q01 c
  q99_eq : ∀ c < channels, stretched stat.q99 c 0 = config.q99 c

variable {stat} {config : DatasetConfig K} {channels : ℕ}

theorem Gives.width_eq (h : stat.Gives config channels) : stat.width channels = some channels := by
  have hshifted : broadcastAxis channels stat.q01.length = some channels :=
    if_pos (h.q01_length.imp Eq.symm id)
  have hscale : ∃ n, broadcastAxis stat.q99.length stat.q01.length = some n ∧
      (channels = n ∨ n = 1) := by
    unfold broadcastAxis
    rcases h.q99_length with h99 | h99
    · exact ⟨channels, by rw [h99]; exact hshifted, .inl rfl⟩
    · rw [h99]
      split
      · exact ⟨1, rfl, .inr rfl⟩
      · exact ⟨_, if_pos rfl, h.q01_length.imp Eq.symm id⟩
  obtain ⟨n, hn, hchannels⟩ := hscale
  rw [width, hshifted, hn]
  exact if_pos hchannels

/-- Each channel has a scale, the one of the configuration. -/
theorem Gives.normalize_eq [DecidableEq K] (h : stat.Gives config channels) {c : ℕ}
    (hc : c < channels) (v : K) :
    stat.normalize c v = some ((v - config.q01 c) /
      (config.q99 c - config.q01 c + 1 / (10 ^ 6 : ℕ)) * (2 : ℕ) - 1) := by
  rw [normalize, h.q01_eq c hc, h.q99_eq c hc]
  exact if_neg (config.scale_ne_zero c)

end NormStat

/-- `inverse_ids[j] = i`; a place outside the table raises an error. -/
def writeInverse (inverseIds : List ℕ) : ℕ × ℕ → Option (List ℕ)
  | (j, i) => if j < inverseIds.length then some (inverseIds.set j i) else none

/-- `[len(used_ids)] * action_dim`, and then a write for each used channel. -/
def inverseTable (usedIds : List ℕ) (actionDim : ℕ) : Option (List ℕ) :=
  usedIds.zipIdx.foldlM writeInverse (List.replicate actionDim usedIds.length)

namespace DatasetConfig

variable {K : Type} [Field K]

/-- `max(used_ids) + 1`. -/
def widthOfUsed (usedIds : List ℕ) : ℕ := usedIds.foldr max 0 + 1

/-- `model_post_init`. -/
def modelPostInit (config : DatasetConfig K) : Option (DatasetConfig K) :=
  if config.usedActionChannelIds = [] then some config
  else do
    let actionDim := config.actionDim.getD (widthOfUsed config.usedActionChannelIds)
    let inverseIds ← inverseTable config.usedActionChannelIds actionDim
    pure { config with
      actionDim := some actionDim
      inverseUsedActionChannelIds := inverseIds
      robotActionDim := some (config.robotActionDim.getD actionDim) }

/-- The width that the policy is built with. -/
def getRobotActionDim (config : DatasetConfig K) : Option ℕ :=
  match config.robotActionDim, config.actionDim with
  | some dim, _ => some dim
  | none, some dim => some dim
  | none, none =>
      if config.inverseUsedActionChannelIds = [] then none
      else some (config.inverseUsedActionChannelIds.length * config.imageFrameStride)

/-- `_resolve_action_dim`. -/
def resolveActionDim (config : DatasetConfig K) : Option ℕ :=
  match config.actionDim, config.robotActionDim with
  | some dim, _ => some dim
  | none, some dim => some dim
  | none, none =>
      if config.inverseUsedActionChannelIds ≠ [] then
        some config.inverseUsedActionChannelIds.length
      else if config.usedActionChannelIds ≠ [] then some (widthOfUsed config.usedActionChannelIds)
      else none

/-- `_resolve_inverse_used_action_channel_ids`. -/
def resolveInverseUsedActionChannelIds (config : DatasetConfig K) : Option (List ℕ) :=
  if config.usedActionChannelIds ≠ [] then do
    let actionDim ← config.resolveActionDim
    inverseTable config.usedActionChannelIds actionDim
  else if config.inverseUsedActionChannelIds ≠ [] then
    some config.inverseUsedActionChannelIds
  else none

/-- The constructor of the dataset: the inverse table, of the resolved length. -/
def datasetInverseIds (config : DatasetConfig K) : Option (List ℕ) := do
  let inverseIds ← config.resolveInverseUsedActionChannelIds
  let robotActionDim ← config.resolveActionDim
  if inverseIds.length = robotActionDim then some inverseIds else none

end DatasetConfig

/-! ## The inverse table -/

section Inverse

variable {usedIds : List ℕ} {actionDim : ℕ}

/-- The table after the first `i` writes. -/
structure InverseUpTo (usedIds : List ℕ) (actionDim i : ℕ) (table : List ℕ) : Prop where
  length : table.length = actionDim
  written : ∀ k c : ℕ, k < i → usedIds[k]? = some c → table[c]? = some k
  default : ∀ c < actionDim, c ∉ usedIds.take i → table[c]? = some usedIds.length

theorem inverseUpTo_zero :
    InverseUpTo usedIds actionDim 0 (List.replicate actionDim usedIds.length) := by
  constructor
  · exact List.length_replicate
  · intro k c hk
    exact absurd hk (Nat.not_lt_zero k)
  · intro c hc _
    rw [List.getElem?_replicate, if_pos hc]

/-- One write keeps the places of the other channels. -/
theorem InverseUpTo.set (hnodup : usedIds.Nodup) {i j : ℕ} {table : List ℕ}
    (h : InverseUpTo usedIds actionDim i table) (hj : usedIds[i]? = some j)
    (hlt : j < actionDim) : InverseUpTo usedIds actionDim (i + 1) (table.set j i) := by
  constructor
  · rw [List.length_set, h.length]
  · intro k c hk hc
    rcases Nat.lt_succ_iff_lt_or_eq.mp hk with hk | rfl
    · have hne : j ≠ c := by
        rintro rfl
        have hklt := (List.getElem?_eq_some_iff.mp hc).1
        exact hk.ne ((List.getElem?_inj hklt hnodup).mp (hc.trans hj.symm))
      rw [List.getElem?_set_ne hne, h.written k c hk hc]
    · obtain rfl := Option.some_inj.mp (hj.symm.trans hc)
      rw [List.getElem?_set_self (h.length ▸ hlt)]
  · intro c hc hnot
    have htake : usedIds.take (i + 1) = usedIds.take i ++ [j] := by
      rw [List.take_add_one, hj]
      rfl
    rw [htake, List.mem_append, List.mem_singleton, not_or] at hnot
    rw [List.getElem?_set_ne (Ne.symm hnot.2), h.default c hc hnot.1]

/-- The finished table: a used channel has its position, and the others have the
number of used channels. -/
theorem inverseTable_spec (hnodup : usedIds.Nodup) (hlt : ∀ c ∈ usedIds, c < actionDim) :
    ∃ table, inverseTable usedIds actionDim = some table ∧ table.length = actionDim ∧
      (∀ k c : ℕ, usedIds[k]? = some c → table[c]? = some k) ∧
      ∀ c < actionDim, c ∉ usedIds → table[c]? = some usedIds.length := by
  have hstep : ∀ (i j : ℕ) (table : List ℕ), usedIds[i]? = some j →
      InverseUpTo usedIds actionDim i table →
      ∃ table', writeInverse table (j, i) = some table' ∧
        InverseUpTo usedIds actionDim (i + 1) table' := by
    intro i j table hj h
    have hjlt := hlt j (List.mem_of_getElem? hj)
    exact ⟨table.set j i, if_pos (h.length.symm ▸ hjlt), h.set hnodup hj hjlt⟩
  obtain ⟨table, htable, hspec⟩ := foldlM_zipIdx hstep inverseUpTo_zero
  refine ⟨table, htable, hspec.length, ?_, ?_⟩
  · intro k c hc
    exact hspec.written k c (List.getElem?_eq_some_iff.mp hc).1 hc
  · intro c hc hnot
    exact hspec.default c hc (by rwa [List.take_length])

/-- A table is only built when every used channel has a place in it. -/
theorem lt_of_inverseTable {table : List ℕ} (h : inverseTable usedIds actionDim = some table) :
    ∀ c ∈ usedIds, c < actionDim := by
  have hfold : ∀ (l : List (ℕ × ℕ)) (t out : List ℕ),
      l.foldlM writeInverse t = some out →
      ∀ p ∈ l, p.1 < t.length := by
    intro l
    induction l with
    | nil =>
        intro t out _ p hp
        exact absurd hp List.not_mem_nil
    | cons q l ih =>
        intro t out hout p hp
        rw [List.foldlM_cons, writeInverse] at hout
        split at hout
        · rename_i hq
          rcases List.mem_cons.mp hp with rfl | hp
          · exact hq
          · have hrest := ih _ _ hout p hp
            rwa [List.length_set] at hrest
        · exact absurd hout (Option.some_ne_none _).symm
  intro c hc
  obtain ⟨i, hi⟩ := List.getElem?_of_mem hc
  have hmem : (c, i) ∈ usedIds.zipIdx := by
    rw [List.mem_zipIdx_iff_getElem?]
    exact hi
  have hplace := hfold _ _ _ h (c, i) hmem
  rwa [List.length_replicate] at hplace

end Inverse

/-! ## After `model_post_init` -/

namespace DatasetConfig

variable {K : Type} [Field K]

/-- What the constructor leaves behind when there are used channels. -/
structure PostInit (given config : DatasetConfig K) (actionDim : ℕ) : Prop where
  actionDim_eq : config.actionDim = some actionDim
  given_dim : actionDim = given.actionDim.getD (widthOfUsed given.usedActionChannelIds)
  robotActionDim_eq : config.robotActionDim = some (given.robotActionDim.getD actionDim)
  used_eq : config.usedActionChannelIds = given.usedActionChannelIds
  used_lt : ∀ c ∈ given.usedActionChannelIds, c < actionDim

theorem postInit_of_modelPostInit {given config : DatasetConfig K}
    (hused : given.usedActionChannelIds ≠ []) (h : given.modelPostInit = some config) :
    ∃ actionDim, PostInit given config actionDim := by
  rw [modelPostInit, if_neg hused] at h
  simp only [Option.bind_eq_bind, Option.bind_eq_some_iff, Option.pure_def, Option.some_inj] at h
  rcases h with ⟨inverseIds, hinverse, rfl⟩
  exact ⟨_, rfl, rfl, rfl, rfl, lt_of_inverseTable hinverse⟩

/-- The dataset finds the same table again. -/
theorem PostInit.datasetInverseIds {given config : DatasetConfig K} {actionDim : ℕ}
    (h : PostInit given config actionDim) (hused : given.usedActionChannelIds ≠ [])
    (hnodup : given.usedActionChannelIds.Nodup) :
    ∃ inverseIds, config.datasetInverseIds = some inverseIds ∧ inverseIds.length = actionDim ∧
      (∀ k c : ℕ, given.usedActionChannelIds[k]? = some c → inverseIds[c]? = some k) ∧
      ∀ c < actionDim, c ∉ given.usedActionChannelIds →
        inverseIds[c]? = some given.usedActionChannelIds.length := by
  obtain ⟨inverseIds, htable, hlength, hused', hother⟩ := inverseTable_spec hnodup h.used_lt
  refine ⟨inverseIds, ?_, hlength, hused', hother⟩
  have hdim : config.resolveActionDim = some actionDim := by
    rw [resolveActionDim, h.actionDim_eq]
  have hresolve : config.resolveInverseUsedActionChannelIds = some inverseIds := by
    rw [resolveInverseUsedActionChannelIds, if_pos (h.used_eq.symm ▸ hused), hdim]
    exact (congrArg (inverseTable · actionDim) h.used_eq).trans htable
  rw [DatasetConfig.datasetInverseIds, hresolve, hdim]
  exact if_pos hlength

end DatasetConfig

end P2PRdt.Robot

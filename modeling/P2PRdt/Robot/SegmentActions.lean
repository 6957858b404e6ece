import P2PRdt.Robot.Dataset
import P2PRdt.Robot.DatasetConfig

/-!
# The actions of a segment for every stride

`_action_post_process` for any configuration: the rows of a segment, shifted by
one frame of `image_frame_stride` actions, are gathered through the inverse table
of the used channels, normalized and rearranged into a tensor of channels, frames
and steps within a frame. The flattened tensor has one row for each frame, and in
the multi-view mode `frame` one row for each view of a frame.

The rows of a segment before they are gathered are those of
`ActionLayout.shiftedActions`, which takes any stride. `actionPostProcessRaw` takes
the `norm_stat` as it is written; `actionPostProcess` is the case in which that gives
each channel its quantiles.
-/

namespace P2PRdt.Robot

open Lib Quaternion

/-! ## Tensors -/

/-- A tensor with the axes `c f n`; its last axis of length one is left out. -/
structure ActionTensor (α : Type) where
  channels : ℕ
  frames : ℕ
  steps : ℕ
  entry : Fin channels → Fin frames → Fin steps → α

/-- `rearrange(x, "(f n) c -> c f n 1", f=f)`, which refuses a number of rows
that `f` does not divide. -/
def rearrangeFrames {α : Type} {d : ℕ} (rows : List (Fin d → α)) (f : ℕ) :
    Option (ActionTensor α) :=
  if h : f * (rows.length / f) = rows.length then
    some
      { channels := d
        frames := f
        steps := rows.length / f
        entry := fun c f n => rows.get (Fin.cast h (rowMajor f n)) c }
  else none

namespace ActionTensor

variable {α β : Type}

def map (g : α → β) (t : ActionTensor α) : ActionTensor β where
  channels := t.channels
  frames := t.frames
  steps := t.steps
  entry := fun c f n => g (t.entry c f n)

/-- `x.repeat_interleave(num_views, dim=1)`. -/
def repeatInterleave (t : ActionTensor α) (numViews : ℕ) : ActionTensor α where
  channels := t.channels
  frames := t.frames * numViews
  steps := t.steps
  entry := fun c f n => t.entry c f.divNat n

/-- `rearrange(x, "c f n one -> f (c n one)")`. -/
def flatten (t : ActionTensor α) : List (Fin (t.channels * t.steps) → α) :=
  List.ofFn fun f j => t.entry j.divNat f j.modNat

end ActionTensor

/-! ## The code -/

section Code

variable {K : Type} [Field K] [LinearOrder K] (E : Elementary K)

namespace DatasetConfig

variable (config : DatasetConfig K)

/-- Column `i` of a row of compact values and its mask, with a zero column
behind them. -/
def paddedEntry (row : (Fin 16 → K) × Bool) (i : ℕ) : K × Bool :=
  if h : i < 16 then (row.1 ⟨i, h⟩, row.2) else (0, false)

/-- A value of channel `c` between its quantiles. -/
def normalizeChannel (c : ℕ) (v : K) : K :=
  (v - config.q01 c) / (config.q99 c - config.q01 c + 1 / (10 ^ 6 : ℕ)) * (2 : ℕ) - 1

/-- The normalized value of channel `c`, multiplied with its mask. -/
def alignedEntry (c : ℕ) (padded : K × Bool) : K × Bool :=
  (config.normalizeChannel c padded.1 * if padded.2 then 1 else 0, padded.2)

/-- `_action_post_process` with the inverse table `inverseIds`: the values and
the masks. The padded rows have 17 columns. -/
def actionPostProcess (inverseIds : List ℕ) (localStartFrame : ℕ) (imageFrameIds : List ℕ)
    (action : List (Compact (Pose K))) : Option (ActionTensor (K × Bool)) := do
  let rows ← ActionLayout.shiftedActions E config.imageFrameStride localStartFrame imageFrameIds
    action
  let imageFrameNum := (imageFrameIds.length - 1) / config.imageFrameStride + 1
  if ∀ i ∈ inverseIds, i < 17 then
    rearrangeFrames
      (rows.map fun row (c : Fin inverseIds.length) =>
        config.alignedEntry c (paddedEntry row (inverseIds.get c)))
      imageFrameNum
  else none

/-- The normalized value of channel `c`, multiplied with its mask; a value that is not
finite stays so, multiplied with anything. -/
def alignedValue (stat : NormStat K) (c : ℕ) (padded : K × Bool) : Option K :=
  (stat.normalize c padded.1).map (· * if padded.2 then 1 else 0)

/-- `_action_post_process` with the `norm_stat` as it is written: the values, in which
`none` stands for one that is not finite, and the masks. -/
def actionPostProcessRaw (stat : NormStat K) (inverseIds : List ℕ) (localStartFrame : ℕ)
    (imageFrameIds : List ℕ) (action : List (Compact (Pose K))) :
    Option (ActionTensor (Option K) × ActionTensor Bool) := do
  let rows ← ActionLayout.shiftedActions E config.imageFrameStride localStartFrame imageFrameIds
    action
  let imageFrameNum := (imageFrameIds.length - 1) / config.imageFrameStride + 1
  if ∀ i ∈ inverseIds, i < 17 then do
    let width ← stat.width inverseIds.length
    let actionAligned ← rearrangeFrames
      (rows.map fun row (c : Fin width) =>
        alignedValue stat c (paddedEntry row (NormStat.stretched inverseIds c 0)))
      imageFrameNum
    let actionMaskAligned ← rearrangeFrames
      (rows.map fun row (c : Fin inverseIds.length) => (paddedEntry row (inverseIds.get c)).2)
      imageFrameNum
    return (actionAligned, actionMaskAligned)
  else none

/-- Under every `norm_stat` that gives the quantiles of the configuration, the values and
masks are those of the tensor `t`. -/
def ReadsAs (inverseIds : List ℕ) (localStartFrame : ℕ) (imageFrameIds : List ℕ)
    (action : List (Compact (Pose K))) (t : ActionTensor (K × Bool)) : Prop :=
  ∀ stat : NormStat K, stat.Gives config inverseIds.length →
    config.actionPostProcessRaw E stat inverseIds localStartFrame imageFrameIds action =
      some (t.map fun entry => some entry.1, t.map Prod.snd)

/-- `_align_actions_with_multi_view_mode`. -/
def alignActionsWithMultiViewMode {α : Type} (t : ActionTensor α) : ActionTensor α :=
  if config.images.multiViewImageMode = .frame then t.repeatInterleave config.obsCamKeys.length
  else t

end DatasetConfig

end Code

/-! ## Tensors, entry by entry -/

section TensorLaws

variable {α : Type}

theorem rearrangeFrames_eq {d F s : ℕ} (rows : List (Fin d → α)) (hF : 0 < F)
    (hrows : rows.length = F * s) :
    ∃ entry, rearrangeFrames rows F = some ⟨d, F, s, entry⟩ ∧
      ∀ (c : Fin d) (f : Fin F) (n : Fin s) row, rows[f * s + n]? = some row →
        entry c f n = row c := by
  have hs : rows.length / F = s := by rw [hrows, Nat.mul_div_cancel_left s hF]
  subst hs
  refine ⟨_, dif_pos hrows.symm, ?_⟩
  intro c f n row hrow
  obtain ⟨hlt, hget⟩ := List.getElem?_eq_some_iff.mp hrow
  have hindex : Fin.cast hrows.symm (rowMajor f n) = ⟨f * (rows.length / F) + n, hlt⟩ :=
    Fin.ext (val_rowMajor f n)
  rw [hindex]
  exact congrFun hget c

/-- Row `f * V + v` of the flattened actions of all views is row `f` of the
flattened actions. -/
theorem flatten_repeatInterleave (t : ActionTensor α) {V : ℕ} (f : Fin t.frames) (v : Fin V) :
    (t.repeatInterleave V).flatten[(rowMajor f v : ℕ)]? = t.flatten[(f : ℕ)]? := by
  have hf : (rowMajor f v : ℕ) < t.frames * V := (rowMajor f v).isLt
  rw [ActionTensor.flatten, ActionTensor.flatten, List.getElem?_ofFn, List.getElem?_ofFn,
    dif_pos f.isLt]
  refine (dif_pos hf).trans ?_
  congr 1
  funext j
  exact congrArg (t.entry j.divNat · j.modNat) (divNat_rowMajor f v)

/-- Rows behind `s` blank ones: the blank ones fill the first frame. -/
theorem getElem?_shifted_first {s total n : ℕ} {blank : α} {rows : List α} (hn : n < s)
    (htotal : n < total) :
    ((List.replicate s blank ++ rows).take total)[n]? = some blank := by
  rw [List.getElem?_take_of_lt htotal, List.getElem?_append_left (by simpa using hn),
    List.getElem?_replicate, if_pos hn]

/-- Slot `n` of a later frame `f` has row `(f - 1) * s + n`. -/
theorem getElem?_shifted_later {s total f n : ℕ} (blank : α) (rows : List α) (hf : 1 ≤ f)
    (htotal : f * s + n < total) :
    ((List.replicate s blank ++ rows).take total)[f * s + n]? = rows[(f - 1) * s + n]? := by
  have hindex : f * s + n = s + ((f - 1) * s + n) := by
    obtain ⟨g, rfl⟩ := Nat.exists_eq_add_of_le' hf
    rw [Nat.add_sub_cancel]
    ring
  rw [List.getElem?_take_of_lt htotal, hindex, List.getElem?_append_right (by simp)]
  congr 1
  simp

end TensorLaws

/-! ## The rows of a segment -/

section Rows

variable {K : Type} [Field K] [LinearOrder K] (E : Elementary K)

/-- The rotation of a quaternion that is not zero. -/
def unitQuaternion (quat : ℍ[K]) : ℍ[K] := (quatNorm E.sqrt quat)⁻¹ • quat

/-- A pose relative to the first one of a segment. -/
def relativePose (first p : Pose K) : Pose K where
  trans := p.trans - first.trans
  quat := star (unitQuaternion E first.quat) * unitQuaternion E p.quat
  gripper := p.gripper

def relativeAction (first p : Compact (Pose K)) : Compact (Pose K) :=
  ⟨relativePose E first.left p.left, relativePose E first.right p.right⟩

/-- Both quaternions stand for rotations. -/
def Compact.Rotates (p : Compact (Pose K)) : Prop := p.left.quat ≠ 0 ∧ p.right.quat ≠ 0

variable {E} [IsStrictOrderedRing K] (hE : IsSqrt E.sqrt)

include hE in
theorem fromQuat_of_ne_zero {q : ℍ[K]} (hq : q ≠ 0) :
    fromQuat E q = some (unitQuaternion E q) := by
  have hnorm : quatNorm E.sqrt q ≠ 0 := by
    intro hzero
    have hsq := hE.mul_self (normSq q) normSq_nonneg
    rw [show E.sqrt (normSq q) = 0 from hzero, mul_zero] at hsq
    exact hq (normSq_eq_zero.mp hsq.symm)
  exact if_neg hnorm

include hE in
theorem getRelativePose_eq {first : Pose K} {rest : List (Pose K)}
    (hquat : ∀ p ∈ first :: rest, p.quat ≠ 0) :
    getRelativePose E (first :: rest) = some ((first :: rest).map (relativePose E first)) := by
  apply mapM_eq_map
  intro p hp
  simp only [List.head?_cons, Option.bind_eq_bind, Option.bind_some, Option.pure_def,
    fromQuat_of_ne_zero hE (hquat p hp), fromQuat_of_ne_zero hE (hquat first List.mem_cons_self)]
  rfl

/-- The number of frames that a stride keeps of `n`. -/
theorem imageFrameNum_eq_ceil {n s : ℕ} (hn : 1 ≤ n) (hs : 1 ≤ s) :
    (n - 1) / s + 1 = (n + s - 1) / s := by
  obtain ⟨m, rfl⟩ := Nat.exists_eq_add_of_le' hn
  rw [Nat.add_sub_cancel, ← Nat.add_div_right m hs]
  congr 1
  omega

include hE in
/-- The shifted rows: one masked frame, and then the actions relative to the
first one, cut to whole frames. -/
theorem shiftedActions_eq {s n : ℕ} (start : ℕ) (hs : 1 ≤ s) (hn : 2 ≤ n) {first : Compact (Pose K)}
    {rest : List (Compact (Pose K))} (hlen : (first :: rest).length = n)
    (hquat : ∀ p ∈ first :: rest, p.Rotates) :
    ∃ rows, ActionLayout.shiftedActions E s start (List.range' start n) (first :: rest) =
        some rows ∧
      rows = (List.replicate s (0, false) ++ (first :: rest).map fun p =>
        ((relativeAction E first p).toArray, true)).take ((n + s - 1) / s * s) ∧
      rows.length = (n + s - 1) / s * s := by
  have hleft : getRelativePose E ((first :: rest).map Compact.left) =
      some ((first :: rest).map fun p => relativePose E first.left p.left) := by
    rw [List.map_cons, getRelativePose_eq hE, ← List.map_cons, List.map_map]
    · rfl
    · intro p hp
      rw [← List.map_cons] at hp
      obtain ⟨q, hq, rfl⟩ := List.mem_map.mp hp
      exact (hquat q hq).1
  have hright : getRelativePose E ((first :: rest).map Compact.right) =
      some ((first :: rest).map fun p => relativePose E first.right p.right) := by
    rw [List.map_cons, getRelativePose_eq hE, ← List.map_cons, List.map_map]
    · rfl
    · intro p hp
      rw [← List.map_cons] at hp
      obtain ⟨q, hq, rfl⟩ := List.mem_map.mp hp
      exact (hquat q hq).2
  have hzip : List.zipWith Compact.mk
      ((first :: rest).map fun p => relativePose E first.left p.left)
      ((first :: rest).map fun p => relativePose E first.right p.right) =
      (first :: rest).map (relativeAction E first) := by
    rw [List.zipWith_map, List.zipWith_self]
    rfl
  have hcount : (n + s - 1) / s * s ≤ s + n := by
    have h := Nat.div_mul_le_self (n + s - 1) s
    omega
  have hrows : ((List.replicate s ((0 : Fin 16 → K), false) ++ (first :: rest).map fun p =>
      ((relativeAction E first p).toArray, true)).take ((n + s - 1) / s * s)).length =
      (n + s - 1) / s * s := by
    rw [List.length_take, List.length_append, List.length_replicate, List.length_map, hlen]
    exact min_eq_left hcount
  refine ⟨_, ?_, rfl, hrows⟩
  obtain ⟨m, rfl⟩ := Nat.exists_eq_add_of_le' hn
  simp only [ActionLayout.shiftedActions, List.range'_succ, List.getElem?_cons_zero,
    List.getElem?_cons_succ, Option.bind_eq_bind, Option.bind_some, Nat.sub_self, List.drop_zero,
    Nat.add_sub_cancel_left, Nat.one_mul, Nat.mul_one, List.length_cons, List.length_range',
    hleft, hright, hzip, List.map_map, Option.pure_def]
  have hframes : (m + 1 + 1 - 1) / s + 1 = (m + 2 + s - 1) / s :=
    imageFrameNum_eq_ceil (by omega) hs
  rw [hframes]
  exact if_pos hrows

end Rows

/-! ## Frames and actions -/

section Law

variable {K : Type} [Field K] [LinearOrder K] {E : Elementary K}

namespace DatasetConfig

variable {given config : DatasetConfig K} {actionDim : ℕ}

/-- Which action row each entry of the tensor comes from. -/
structure FrameActionLaw (E : Elementary K) (config : DatasetConfig K)
    (action : List (Compact (Pose K))) (first : Compact (Pose K)) {channels frames : ℕ}
    (entry : Fin channels → Fin frames → Fin config.imageFrameStride → K × Bool) : Prop where
  first_frame : ∀ c (f : Fin frames) n, (f : ℕ) = 0 → entry c f n = (0, false)
  used : ∀ (i : Fin 16) (c : Fin channels) (f : Fin frames) (n : Fin config.imageFrameStride),
    config.usedActionChannelIds[(i : ℕ)]? = some (c : ℕ) → 1 ≤ (f : ℕ) →
    ∃ p, action[((f : ℕ) - 1) * config.imageFrameStride + n]? = some p ∧
      entry c f n = (config.normalizeChannel c ((relativeAction E first p).toArray i), true)
  unused : config.usedActionChannelIds.length = 16 →
    ∀ (c : Fin channels) f n, (c : ℕ) ∉ config.usedActionChannelIds → entry c f n = (0, false)

omit [LinearOrder K] in
theorem alignedEntry_masked (c : ℕ) (v : K) : config.alignedEntry c (v, false) = (0, false) := by
  simp [alignedEntry]

omit [LinearOrder K] in
theorem alignedEntry_kept (c : ℕ) (v : K) :
    config.alignedEntry c (v, true) = (config.normalizeChannel c v, true) := by
  simp [alignedEntry]

omit [LinearOrder K] in
/-- A column of a masked row is masked. -/
theorem alignedEntry_blank (c i : ℕ) :
    config.alignedEntry c (paddedEntry ((0 : Fin 16 → K), false) i) = (0, false) := by
  unfold paddedEntry
  split
  · exact alignedEntry_masked c _
  · exact alignedEntry_masked c _

/-- At most 16 used channels: every entry of the inverse table is a column of the
padded rows. -/
theorem inverseIds_lt {usedIds inverseIds : List ℕ} (hcount : usedIds.length ≤ 16)
    (hwritten : ∀ k c : ℕ, usedIds[k]? = some c → inverseIds[c]? = some k)
    (hother : ∀ c < inverseIds.length, c ∉ usedIds → inverseIds[c]? = some usedIds.length) :
    ∀ i ∈ inverseIds, i < 17 := by
  intro i hi
  obtain ⟨c, hc⟩ := List.getElem?_of_mem hi
  by_cases hmem : c ∈ usedIds
  · obtain ⟨k, hk⟩ := List.getElem?_of_mem hmem
    have hki := Option.some_inj.mp ((hwritten k c hk).symm.trans hc)
    have hklt := (List.getElem?_eq_some_iff.mp hk).1
    omega
  · have hlt := (List.getElem?_eq_some_iff.mp hc).1
    have hki := Option.some_inj.mp ((hother c hlt hmem).symm.trans hc)
    omega

/-- The tensors under a `norm_stat` as it is written, slot by slot. -/
theorem actionPostProcessRaw_entries {stat : NormStat K} {inverseIds imageFrameIds : List ℕ}
    {start width frames steps : ℕ} {action : List (Compact (Pose K))}
    {rows : List ((Fin 16 → K) × Bool)}
    (hrows : ActionLayout.shiftedActions E config.imageFrameStride start imageFrameIds action =
      some rows)
    (hids : ∀ i ∈ inverseIds, i < 17) (hwidth : stat.width inverseIds.length = some width)
    (hframes : (imageFrameIds.length - 1) / config.imageFrameStride + 1 = frames)
    (hcount : rows.length = frames * steps) :
    ∃ (values : Fin width → Fin frames → Fin steps → Option K)
      (masks : Fin inverseIds.length → Fin frames → Fin steps → Bool),
      config.actionPostProcessRaw E stat inverseIds start imageFrameIds action =
        some (⟨width, frames, steps, values⟩, ⟨inverseIds.length, frames, steps, masks⟩) ∧
      ∀ (f : Fin frames) (n : Fin steps) row, rows[(f : ℕ) * steps + n]? = some row →
        (∀ c, values c f n =
          alignedValue stat c (paddedEntry row (NormStat.stretched inverseIds c 0))) ∧
        ∀ c, masks c f n = (paddedEntry row (inverseIds.get c)).2 := by
  have hpos : 0 < frames := hframes ▸ Nat.succ_pos _
  obtain ⟨values, hvalues, hvalue⟩ := rearrangeFrames_eq (s := steps) (rows.map fun row
    (c : Fin width) => alignedValue stat c (paddedEntry row (NormStat.stretched inverseIds c 0)))
    hpos (by rw [List.length_map, hcount])
  obtain ⟨masks, hmasks, hmask⟩ := rearrangeFrames_eq (s := steps) (rows.map fun row
    (c : Fin inverseIds.length) => (paddedEntry row (inverseIds.get c)).2)
    hpos (by rw [List.length_map, hcount])
  refine ⟨values, masks, ?_, ?_⟩
  · rw [actionPostProcessRaw, hrows, Option.bind_eq_bind, Option.bind_some, hframes, if_pos hids,
      hwidth, Option.bind_eq_bind, Option.bind_some, hvalues, Option.bind_eq_bind,
      Option.bind_some, hmasks]
    rfl
  · intro f n row hrow
    exact ⟨fun c => hvalue c f n _ (by rw [List.getElem?_map, hrow, Option.map_some]),
      fun c => hmask c f n _ (by rw [List.getElem?_map, hrow, Option.map_some])⟩

/-- Lists that give each channel its quantiles: all values are finite, and they are
those of the configuration. -/
theorem alignedValue_eq {stat : NormStat K} {inverseIds : List ℕ}
    (h : stat.Gives config inverseIds.length) (c : Fin inverseIds.length)
    (row : (Fin 16 → K) × Bool) :
    alignedValue stat c (paddedEntry row (NormStat.stretched inverseIds c 0)) =
      some (config.alignedEntry c (paddedEntry row (inverseIds.get c))).1 := by
  have hcolumn : NormStat.stretched inverseIds c 0 = inverseIds.get c := by
    have hplace : (if inverseIds.length = 1 then 0 else (c : ℕ)) = c := by
      split
      · have hc := c.isLt
        omega
      · rfl
    rw [NormStat.stretched, hplace, List.getD_eq_getElem _ _ c.isLt]
    rfl
  rw [hcolumn, alignedValue, h.normalize_eq c.isLt]
  rfl

variable [IsStrictOrderedRing K] (hE : IsSqrt E.sqrt)

include hE in
/-- The tensor of a segment, entry by entry through the inverse table. -/
theorem actionPostProcess_eq {inverseIds : List ℕ} (hids : ∀ i ∈ inverseIds, i < 17)
    (hs : 1 ≤ config.imageFrameStride) (start : ℕ) {N : ℕ} (hN : 2 ≤ N) {first : Compact (Pose K)}
    {rest : List (Compact (Pose K))} (hlen : (first :: rest).length = N)
    (hquat : ∀ p ∈ first :: rest, p.Rotates) :
    ∃ (frames : ℕ) (entry : Fin inverseIds.length → Fin frames → Fin config.imageFrameStride →
        K × Bool),
      frames = (N + config.imageFrameStride - 1) / config.imageFrameStride ∧
      config.actionPostProcess E inverseIds start (List.range' start N) (first :: rest) =
        some ⟨inverseIds.length, frames, config.imageFrameStride, entry⟩ ∧
      config.ReadsAs E inverseIds start (List.range' start N) (first :: rest)
        ⟨inverseIds.length, frames, config.imageFrameStride, entry⟩ ∧
      (∀ c (f : Fin frames) n, (f : ℕ) = 0 → entry c f n = (0, false)) ∧
      ∀ c (f : Fin frames) (n : Fin config.imageFrameStride), 1 ≤ (f : ℕ) →
        ∃ p, (first :: rest)[((f : ℕ) - 1) * config.imageFrameStride + n]? = some p ∧
          entry c f n = config.alignedEntry c
            (paddedEntry ((relativeAction E first p).toArray, true) (inverseIds.get c)) := by
  obtain ⟨s, hstride⟩ : ∃ s, config.imageFrameStride = s := ⟨_, rfl⟩
  rw [hstride] at hs ⊢
  obtain ⟨rows, hrows, hshape, hcount⟩ := shiftedActions_eq hE start hs hN hlen hquat
  have hceil : 0 < (N + s - 1) / s := Nat.div_pos (by omega) hs
  obtain ⟨entry, hentry, hget⟩ := rearrangeFrames_eq (s := s) (rows.map fun row
    (c : Fin inverseIds.length) => config.alignedEntry c (paddedEntry row (inverseIds.get c)))
    hceil (by rw [List.length_map, hcount])
  have hframes : ((List.range' start N).length - 1) / s + 1 = (N + s - 1) / s := by
    rw [List.length_range']
    exact imageFrameNum_eq_ceil (by omega) hs
  have hinside : ∀ (f : Fin ((N + s - 1) / s)) (n : Fin s), (f : ℕ) * s + n <
      (N + s - 1) / s * s := by
    intro f n
    rw [← val_rowMajor]
    exact (rowMajor f n).isLt
  refine ⟨_, entry, rfl, ?_, ?_, ?_, ?_⟩
  · rw [actionPostProcess, hstride, hrows, Option.bind_eq_bind, Option.bind_some, hframes,
      if_pos hids]
    exact hentry
  · intro stat hstat
    obtain ⟨values, masks, hraw, hslots⟩ := actionPostProcessRaw_entries
      (by rw [hstride, hrows]) hids hstat.width_eq (by rw [hstride, hframes]) hcount
    rw [hraw]
    have hslot : ∀ (f : Fin ((N + s - 1) / s)) (n : Fin s), ∃ row,
        rows[(f : ℕ) * s + n]? = some row :=
      fun f n => ⟨_, List.getElem?_eq_getElem (hcount ▸ hinside f n)⟩
    have hvalues : values = fun c f n => some (entry c f n).1 := by
      funext c f n
      obtain ⟨row, hrow⟩ := hslot f n
      rw [(hslots f n row hrow).1 c, alignedValue_eq hstat,
        hget c f n _ (by rw [List.getElem?_map, hrow, Option.map_some])]
    have hmasks : masks = fun c f n => (entry c f n).2 := by
      funext c f n
      obtain ⟨row, hrow⟩ := hslot f n
      rw [(hslots f n row hrow).2 c,
        hget c f n _ (by rw [List.getElem?_map, hrow, Option.map_some])]
      rfl
    rw [hvalues, hmasks]
    rfl
  · intro c f n hf
    have hslot := hinside f n
    rw [hf, Nat.zero_mul, Nat.zero_add] at hslot
    have hrow : rows[(f : ℕ) * s + n]? = some (0, false) := by
      rw [hshape, hf, Nat.zero_mul, Nat.zero_add, getElem?_shifted_first n.isLt hslot]
    rw [hget c f n _ (by rw [List.getElem?_map, hrow, Option.map_some])]
    exact alignedEntry_blank _ _
  · intro c f n hf
    have hlater := getElem?_shifted_later ((0 : Fin 16 → K), false)
      ((first :: rest).map fun p => ((relativeAction E first p).toArray, true)) hf
      (hinside f n)
    -- the row of the action exists, because the frame has a slot for it
    have hexists : ((f : ℕ) - 1) * s + n < (first :: rest).length := by
      rw [hlen]
      exact slot_before_lt hf (hinside f n)
    obtain ⟨p, hp⟩ : ∃ p, (first :: rest)[((f : ℕ) - 1) * s + n]? = some p :=
      ⟨_, List.getElem?_eq_getElem hexists⟩
    have hrow : rows[(f : ℕ) * s + n]? = some ((relativeAction E first p).toArray, true) := by
      rw [hshape, hlater, List.getElem?_map, hp, Option.map_some]
    exact ⟨p, hp, hget c f n _ (by rw [List.getElem?_map, hrow, Option.map_some])⟩

/-- The frames of the images against the frames of the actions. In the mode
`frame`, row `f * V + v` of the merged images shows view `v` of the frame whose
actions are in row `f * V + v` of the flattened actions. -/
def SameFrames [FloorRing K] (config : DatasetConfig K) (dataDict : String → Option
    ImageConfig.VideoEntry) (t : ActionTensor (K × Bool)) : Prop :=
  ∃ merged, config.images.catVideoImages config.imageFrameStride config.obsCamKeys dataDict =
      some merged ∧
    merged.length = (config.alignActionsWithMultiViewMode t).frames ∧
    (config.images.multiViewImageMode ≠ .frame → merged.length = t.frames) ∧
    (config.images.multiViewImageMode = .frame →
      ∀ (v f : ℕ) key video, config.obsCamKeys[v]? = some key → dataDict key = some video →
        f < t.frames → ∃ h : f * config.imageFrameStride < video.videoNumFrames,
          merged[f * config.obsCamKeys.length + v]? =
            some (.image _ (config.images.fitted (video.rearranged
              ⟨f * config.imageFrameStride, h⟩))) ∧
          (t.repeatInterleave config.obsCamKeys.length).flatten[
            f * config.obsCamKeys.length + v]? = t.flatten[f]?)

omit [IsStrictOrderedRing K] in
theorem sameFrames_of_ceil [FloorRing K] {dataDict : String → Option ImageConfig.VideoEntry}
    {N : ℕ} (hs : 1 ≤ config.imageFrameStride)
    (hdata : config.images.HasVideos config.obsCamKeys dataDict N) {t : ActionTensor (K × Bool)}
    (ht : t.frames = (N + config.imageFrameStride - 1) / config.imageFrameStride) :
    SameFrames config dataDict t := by
  obtain ⟨merged, hmerged, hsingle, hviews⟩ := ImageConfig.catVideoImages_spec hs hdata
  rw [← ht] at hsingle hviews
  refine ⟨merged, hmerged, ?_, hsingle, ?_⟩
  · unfold alignActionsWithMultiViewMode
    split
    · rename_i hmode
      exact (hviews hmode).1
    · rename_i hmode
      exact hsingle hmode
  · intro hmode v f key video hkey hvideo hf
    obtain ⟨h, himage⟩ := (hviews hmode).2 v f key video hkey hvideo hf
    have hrow := flatten_repeatInterleave t ⟨f, hf⟩ ⟨v, (List.getElem?_eq_some_iff.mp hkey).1⟩
    rw [val_rowMajor] at hrow
    exact ⟨h, himage, hrow⟩

include hE in
/-- **Frames and actions.** For at most 16 distinct used channels, every stride,
every segment of at least two frames and every `norm_stat` that gives each channel its
quantiles: the tensor has as many frames as the stride keeps images, its first frame is
masked, and a later slot has the action one frame back, relative to the first action.
With 16 used channels the others are masked. -/
theorem frame_action_law [FloorRing K] (hused : given.usedActionChannelIds ≠ [])
    (hnodup : given.usedActionChannelIds.Nodup) (hcount : given.usedActionChannelIds.length ≤ 16)
    (hinit : given.modelPostInit = some config) (hs : 1 ≤ config.imageFrameStride)
    (start : ℕ) {N : ℕ} (hN : 2 ≤ N) {first : Compact (Pose K)} {rest : List (Compact (Pose K))}
    (hlen : (first :: rest).length = N) (hquat : ∀ p ∈ first :: rest, p.Rotates) :
    ∃ (channels : ℕ) (inverseIds : List ℕ) (frames : ℕ)
      (entry : Fin channels → Fin frames → Fin config.imageFrameStride → K × Bool),
      PostInit given config channels ∧ config.datasetInverseIds = some inverseIds ∧
      frames = (N + config.imageFrameStride - 1) / config.imageFrameStride ∧
      config.actionPostProcess E inverseIds start (List.range' start N) (first :: rest) =
        some ⟨channels, frames, config.imageFrameStride, entry⟩ ∧
      config.ReadsAs E inverseIds start (List.range' start N) (first :: rest)
        ⟨channels, frames, config.imageFrameStride, entry⟩ ∧
      FrameActionLaw E config (first :: rest) first entry ∧
      ∀ dataDict, config.images.HasVideos config.obsCamKeys dataDict N →
        SameFrames config dataDict ⟨channels, frames, config.imageFrameStride, entry⟩ := by
  obtain ⟨channels, hpost⟩ := postInit_of_modelPostInit hused hinit
  obtain ⟨inverseIds, hdataset, hlength, hwritten, hother⟩ :=
    hpost.datasetInverseIds hused hnodup
  subst hlength
  have hget : ∀ {c : Fin inverseIds.length} {k : ℕ}, inverseIds[(c : ℕ)]? = some k →
      inverseIds.get c = k := by
    intro c k h
    exact (List.getElem?_eq_some_iff.mp h).2
  have hids := inverseIds_lt hcount hwritten hother
  obtain ⟨frames, entry, hframes, hpostprocess, hreads, hzero, hlater⟩ :=
    actionPostProcess_eq hE hids hs start hN hlen hquat
  refine ⟨_, inverseIds, frames, entry, hpost, hdataset, hframes, hpostprocess, hreads, ?_, ?_⟩
  · constructor
    · exact hzero
    · intro i c f n hi hf
      obtain ⟨p, hp, hentry⟩ := hlater c f n hf
      rw [hpost.used_eq] at hi
      have hinv : inverseIds.get c = i := hget (hwritten i c hi)
      refine ⟨p, hp, ?_⟩
      rw [hentry, hinv, paddedEntry, dif_pos i.isLt, alignedEntry_kept]
    · intro hsixteen c f n hc
      rw [hpost.used_eq] at hsixteen hc
      rcases Nat.eq_zero_or_pos (f : ℕ) with hf | hf
      · exact hzero c f n hf
      · obtain ⟨p, -, hentry⟩ := hlater c f n hf
        have hinv : inverseIds.get c = 16 := hsixteen ▸ hget (hother c c.isLt hc)
        rw [hentry, hinv]
        exact alignedEntry_masked c _
  · intro dataDict hdata
    exact sameFrames_of_ceil hs hdata hframes

end DatasetConfig

end Law

/-! ## Two poses at rest -/

namespace DatasetConfig

/-- A configuration with stride 1, one camera and the default quantiles; resizing
is not looked at. -/
noncomputable def plainConfig (usedIds : List ℕ) (actionDim : ℕ) : DatasetConfig ℝ where
  usedActionChannelIds := usedIds
  inverseUsedActionChannelIds := (inverseTable usedIds actionDim).getD []
  actionDim := some actionDim
  robotActionDim := some actionDim
  imageFrameStride := 1
  nSeqTimesteps := 2
  shuffle := false
  obsCamKeys := ["observation.images.front"]
  images := ⟨2, 2, .vertical, fun _ _ _ _ _ _ => 0⟩
  q01 := fun _ => 0
  q99 := fun _ => 1
  scale_ne_zero := by
    intro _
    norm_num

/-- Both arms at the origin. -/
def originAction (quat : ℍ[ℝ]) : Compact (Pose ℝ) := ⟨⟨0, quat, 1⟩, ⟨0, quat, 1⟩⟩

theorem originAction_rotates : ∀ p ∈ [originAction 1, originAction 1], p.Rotates := by
  intro p hp
  obtain rfl : p = originAction 1 := by simpa using hp
  exact ⟨one_ne_zero, one_ne_zero⟩

/-- One quantile of 1% for all channels, and a quantile of 99% for each. -/
theorem gives_plainConfig :
    NormStat.Gives ⟨[0], List.replicate 17 1⟩ (plainConfig (List.range 16) 17) 17 := by
  refine ⟨.inr rfl, .inl rfl, ?_, ?_⟩
  · intro c _
    rfl
  · intro c hc
    show (List.replicate 17 (1 : ℝ)).getD c 0 = 1
    rw [List.getD_eq_getElem _ _ (by rwa [List.length_replicate]), List.getElem_replicate]

theorem frame_action_law_plain :
    ∃ (channels : ℕ) (inverseIds : List ℕ) (frames : ℕ)
      (entry : Fin channels → Fin frames → Fin 1 → ℝ × Bool),
      (plainConfig (List.range 16) 17).actionPostProcessRaw realElementary
        ⟨[0], List.replicate 17 1⟩ inverseIds 0 (List.range' 0 2)
        [originAction 1, originAction 1] =
          some (⟨channels, frames, 1, fun c f n => some (entry c f n).1⟩,
            ⟨channels, frames, 1, fun c f n => (entry c f n).2⟩) ∧
      frames = 2 ∧
      FrameActionLaw realElementary (plainConfig (List.range 16) 17)
        [originAction 1, originAction 1] (originAction 1) entry := by
  obtain ⟨channels, inverseIds, frames, entry, -, htable, hframes, -, hreads, hlaw, -⟩ :=
    frame_action_law isSqrt_realElementary
      (show (plainConfig (List.range 16) 17).usedActionChannelIds ≠ [] by decide)
      List.nodup_range (by decide)
      (show (plainConfig (List.range 16) 17).modelPostInit = some (plainConfig (List.range 16) 17)
        from rfl)
      le_rfl 0 (N := 2) le_rfl rfl originAction_rotates
  have hseventeen : inverseIds.length = 17 := by
    have hids : some (List.range 17) = some inverseIds := htable
    rw [← Option.some_inj.mp hids, List.length_range]
  exact ⟨channels, inverseIds, frames, entry, hreads _ (hseventeen ▸ gives_plainConfig), hframes,
    hlaw⟩

/-- One used channel: the other one shows the second compact value. A zero
quaternion is refused, and so are 17 used channels of 18 and quantiles for 16 channels
of 17. A scale of zero leaves values in the first frame that are not finite. -/
theorem unusedChannel_shown_oneChannel :
    (∃ entry : Fin 2 → Fin 2 → Fin 1 → ℝ × Bool,
      (plainConfig [0] 2).datasetInverseIds = some [0, 1] ∧
      (plainConfig [0] 2).actionPostProcess realElementary [0, 1] 0 (List.range' 0 2)
        [originAction 1, originAction 1] = some ⟨2, 2, 1, entry⟩ ∧
      entry 1 1 0 = (-1, true)) ∧
    (plainConfig (List.range 16) 17).actionPostProcess realElementary (List.range 17) 0
      (List.range' 0 2) [originAction 0, originAction 0] = none ∧
    (plainConfig (List.range 17) 18).datasetInverseIds = some (List.range 18) ∧
    (plainConfig (List.range 17) 18).actionPostProcess realElementary (List.range 18) 0
      (List.range' 0 2) [originAction 1, originAction 1] = none ∧
    (plainConfig (List.range 16) 17).actionPostProcessRaw realElementary
      ⟨List.replicate 16 0, List.replicate 16 1⟩ (List.range 17) 0
      (List.range' 0 2) [originAction 1, originAction 1] = none ∧
    ∃ (values : Fin 17 → Fin 2 → Fin 1 → Option ℝ) (masks : Fin 17 → Fin 2 → Fin 1 → Bool),
      (plainConfig (List.range 16) 17).actionPostProcessRaw realElementary
        ⟨[1 / (10 ^ 6 : ℕ)], [0]⟩ (List.range 17) 0
        (List.range' 0 2) [originAction 1, originAction 1] =
          some (⟨17, 2, 1, values⟩, ⟨17, 2, 1, masks⟩) ∧
      values 0 0 0 = none := by
  have hids : ∀ i ∈ List.range 17, i < 17 := fun i hi => List.mem_range.mp hi
  obtain ⟨rows, hrows, -, hcount⟩ := shiftedActions_eq isSqrt_realElementary (s := 1) 0 le_rfl
    (n := 2) le_rfl rfl originAction_rotates
  refine ⟨?_, ?_, by rfl, ?_, ?_, ?_⟩
  · obtain ⟨frames, entry, hframes, hpost, -, -, hlater⟩ :=
      actionPostProcess_eq isSqrt_realElementary (show ∀ i ∈ [0, 1], i < 17 by decide)
        (show 1 ≤ (plainConfig [0] 2).imageFrameStride from le_rfl) 0 (N := 2) le_rfl rfl
        originAction_rotates
    obtain rfl : frames = 2 := hframes
    refine ⟨entry, by rfl, hpost, ?_⟩
    obtain ⟨p, hp, hentry⟩ := hlater 1 1 (0 : Fin 1) le_rfl
    obtain rfl : originAction 1 = p := Option.some_inj.mp hp
    refine hentry.trans ?_
    simp [paddedEntry, alignedEntry, normalizeChannel, plainConfig, relativeAction, relativePose,
      originAction, Compact.toArray]
  · have hzero : fromQuat realElementary 0 = none := by
      simp [fromQuat, quatNorm, realElementary]
    simp [actionPostProcess, ActionLayout.shiftedActions, getRelativePose, originAction, hzero,
      List.range'_succ]
  · have hwide : ¬∀ i ∈ List.range 18, i < 17 := by decide
    simp only [actionPostProcess, if_neg hwide, Option.bind_eq_bind, Option.bind_fun_none]
  · have hwidth : NormStat.width (⟨List.replicate 16 0, List.replicate 16 1⟩ : NormStat ℝ)
        (List.range 17).length = none := by decide
    simp only [actionPostProcessRaw, hwidth, Option.bind_eq_bind, Option.bind_none,
      ite_self, Option.bind_fun_none]
  · obtain ⟨values, masks, hraw, hslots⟩ := actionPostProcessRaw_entries
      (show ActionLayout.shiftedActions realElementary
        (plainConfig (List.range 16) 17).imageFrameStride 0 (List.range' 0 2) _ = some rows
        from hrows)
      hids (show NormStat.width (⟨[1 / (10 ^ 6 : ℕ)], [0]⟩ : NormStat ℝ) _ = some 17 from rfl)
      (show (2 - 1) / 1 + 1 = 2 from rfl) hcount
    refine ⟨values, masks, hraw, ?_⟩
    obtain ⟨row, hrow⟩ : ∃ row, rows[((0 : Fin 2) : ℕ) * 1 + ((0 : Fin 1) : ℕ)]? = some row :=
      ⟨_, List.getElem?_eq_getElem (hcount ▸ by decide)⟩
    rw [(hslots 0 0 row hrow).1 0, alignedValue, NormStat.normalize]
    simp [NormStat.stretched]

end DatasetConfig

end P2PRdt.Robot

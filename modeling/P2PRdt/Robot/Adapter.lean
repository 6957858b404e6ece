import P2PRdt.Lib.Scatter
import P2PRdt.Robot.Pose

/-!
# The action adapter

`RobotActionAdapter` translates between normalized actions over all channels of
the policy and compact 16-D actions in the channels a robot uses. A row of the
policy is normalized with the 1% and 99% quantiles of each channel.

Decoding undoes encoding, and rebasing a row moves its compact action to the new
anchor and leaves the unused channels as they are.
-/

namespace P2PRdt.Robot

open Lib Quaternion

/-! ## Arrays of 16 entries -/

section Arrays

variable {K : Type} [Field K]

/-- A compact action as the code stores it. -/
def Compact.toArray (c : Compact (Pose K)) : Fin 16 → K :=
  ![c.left.trans 0, c.left.trans 1, c.left.trans 2,
    c.left.quat.imI, c.left.quat.imJ, c.left.quat.imK, c.left.quat.re, c.left.gripper,
    c.right.trans 0, c.right.trans 1, c.right.trans 2,
    c.right.quat.imI, c.right.quat.imJ, c.right.quat.imK, c.right.quat.re, c.right.gripper]

/-- The slices `[0:3]`, `[3:7]`, `7` and `[8:11]`, `[11:15]`, `15` of an array. -/
def Compact.ofArray (v : Fin 16 → K) : Compact (Pose K) where
  left := ⟨![v 0, v 1, v 2], quatOfXyzw ![v 3, v 4, v 5, v 6], v 7⟩
  right := ⟨![v 8, v 9, v 10], quatOfXyzw ![v 11, v 12, v 13, v 14], v 15⟩

@[simp] theorem Compact.ofArray_toArray (c : Compact (Pose K)) : ofArray c.toArray = c := by
  have htrans : ∀ t : Fin 3 → K, ![t 0, t 1, t 2] = t := by
    intro t
    ext i
    fin_cases i <;> rfl
  ext1
  · exact PoseOf.ext (htrans c.left.trans) rfl rfl
  · exact PoseOf.ext (htrans c.right.trans) rfl rfl

@[simp] theorem Compact.toArray_ofArray (v : Fin 16 → K) : (ofArray v).toArray = v := by
  ext i
  fin_cases i <;> rfl

end Arrays

/-- What the adapter and the dataset read from the configuration: the channels a
robot uses and the quantiles of all channels. No channel has a zero scale. -/
structure ActionLayout (K : Type) [Field K] where
  robotActionDim : ℕ
  usedActionChannelIds : Fin 16 → Fin robotActionDim
  used_injective : Function.Injective usedActionChannelIds
  q01 : Fin robotActionDim → K
  q99 : Fin robotActionDim → K
  scale_ne_zero : ∀ c, q99 c - q01 c + 1 / (10 ^ 6 : ℕ) ≠ 0

namespace ActionLayout

variable {K : Type} [Field K] (A : ActionLayout K)

/-- A row over all channels of the policy. -/
abbrev Row := Fin A.robotActionDim → K

def scale (c : Fin A.robotActionDim) : K := A.q99 c - A.q01 c + 1 / (10 ^ 6 : ℕ)

def normalize (action : A.Row) : A.Row := fun c => (action c - A.q01 c) / A.scale c * (2 : ℕ) - 1

def denormalize (action : A.Row) : A.Row :=
  fun c => (action c + 1) * (1 / (2 : ℕ)) * A.scale c + A.q01 c

def compactToFullAction (compactAction : Compact (Pose K)) (templateAction : Option A.Row) :
    A.Row :=
  scatter A.usedActionChannelIds compactAction.toArray (templateAction.getD 0)

def toCompactExecutionAction (action : A.Row) : Compact (Pose K) :=
  .ofArray fun i => action (A.usedActionChannelIds i)

/-- The compact action that a normalized row stands for. -/
def decode (row : A.Row) : Compact (Pose K) := A.toCompactExecutionAction (A.denormalize row)

/-- A channel that no entry of a compact action goes to. -/
def Unused (c : Fin A.robotActionDim) : Prop := c ∉ Set.range A.usedActionChannelIds

section Rebase

variable [LinearOrder K] (E : Elementary K)

/-- The body of the loop in `rebase_normalized_actions`. -/
def rebaseRow (newAnchorCompact : Compact (Pose K)) (normalizedAction : A.Row) : A.Row :=
  let fullAction := A.denormalize normalizedAction
  let compactAction := A.toCompactExecutionAction fullAction
  let rebasedCompact := rebaseCompactRelativeAction E compactAction newAnchorCompact
  A.normalize (A.compactToFullAction rebasedCompact (some fullAction))

/-- `np.stack` refuses an empty list. -/
def rebaseNormalizedActions (normalizedActions : List A.Row) (newAnchorAction : A.Row) :
    Option (List A.Row) :=
  let newAnchorCompact := A.toCompactExecutionAction (A.denormalize newAnchorAction)
  if normalizedActions.isEmpty then none
  else some (normalizedActions.map (A.rebaseRow E newAnchorCompact))

def rebaseNormalizedActionsToObservedAnchor (normalizedActions : List A.Row)
    (previousAnchorPose newAnchorPose : Compact (Pose K)) : Option (List A.Row) :=
  let newAnchorCompact := absoluteToRelativeCompactAction E newAnchorPose previousAnchorPose
  let newAnchorNormalized := A.normalize (A.compactToFullAction newAnchorCompact none)
  A.rebaseNormalizedActions E normalizedActions newAnchorNormalized

end Rebase

/-- 17 channels, the last one unused, with the default quantiles 0 and 1. -/
def oneSpare (K : Type) [Field K] [LinearOrder K] [IsStrictOrderedRing K] : ActionLayout K where
  robotActionDim := 17
  usedActionChannelIds := Fin.castSucc
  used_injective := Fin.castSucc_injective 16
  q01 := fun _ => 0
  q99 := fun _ => 1
  scale_ne_zero := by
    intro _
    norm_num

def spareChannel (K : Type) [Field K] [LinearOrder K] [IsStrictOrderedRing K] :
    Fin (oneSpare K).robotActionDim := Fin.last 16

theorem unused_spareChannel (K : Type) [Field K] [LinearOrder K] [IsStrictOrderedRing K] :
    (oneSpare K).Unused (spareChannel K) := by
  rintro ⟨i, hi⟩
  exact absurd hi (Fin.castSucc_lt_last i).ne

/-! ## Decoding undoes encoding -/

@[simp] theorem denormalize_normalize [CharZero K] (action : A.Row) :
    A.denormalize (A.normalize action) = action := by
  funext c
  have hscale : A.scale c ≠ 0 := A.scale_ne_zero c
  simp only [denormalize, normalize]
  field_simp
  ring

@[simp] theorem normalize_denormalize [CharZero K] (action : A.Row) :
    A.normalize (A.denormalize action) = action := by
  funext c
  have hscale : A.scale c ≠ 0 := A.scale_ne_zero c
  simp only [denormalize, normalize]
  field_simp
  ring

@[simp] theorem toCompact_compactToFull (c : Compact (Pose K)) (template : Option A.Row) :
    A.toCompactExecutionAction (A.compactToFullAction c template) = c := by
  simp only [toCompactExecutionAction, compactToFullAction, scatter_id A.used_injective,
    Compact.ofArray_toArray]

theorem compactToFull_unused {c : Fin A.robotActionDim} (hc : A.Unused c)
    (compact : Compact (Pose K)) (template : Option A.Row) :
    A.compactToFullAction compact template c = template.getD 0 c :=
  scatter_of_notMem hc

theorem compactToFull_used (compact : Compact (Pose K)) (template : Option A.Row) (i : Fin 16) :
    A.compactToFullAction compact template (A.usedActionChannelIds i) = compact.toArray i :=
  scatter_id A.used_injective i

/-- Normalizing works channel by channel. -/
theorem normalize_congr {a b : A.Row} {c : Fin A.robotActionDim} (h : a c = b c) :
    A.normalize a c = A.normalize b c := by
  rw [normalize, normalize, h]

/-- Decoding reads the used channels only. -/
theorem decode_congr {row row' : A.Row}
    (h : ∀ i, row (A.usedActionChannelIds i) = row' (A.usedActionChannelIds i)) :
    A.decode row = A.decode row' := by
  simp only [decode, toCompactExecutionAction, denormalize, h]

@[simp] theorem decode_encode [CharZero K] (c : Compact (Pose K)) (template : Option A.Row) :
    A.decode (A.normalize (A.compactToFullAction c template)) = c := by
  rw [decode, denormalize_normalize, toCompact_compactToFull]

section Rebase

variable [CharZero K] [LinearOrder K] (E : Elementary K)

theorem decode_rebaseRow (anchor : Compact (Pose K)) (row : A.Row) :
    A.decode (A.rebaseRow E anchor row) = rebaseCompactRelativeAction E (A.decode row) anchor :=
  A.decode_encode _ _

/-- Rebasing leaves the unused channels alone. -/
theorem rebaseRow_unused (anchor : Compact (Pose K)) (row : A.Row) {c : Fin A.robotActionDim}
    (hc : A.Unused c) : A.rebaseRow E anchor row c = row c := by
  have htemplate := A.compactToFull_unused hc
    (rebaseCompactRelativeAction E (A.decode row) anchor) (some (A.denormalize row))
  exact (A.normalize_congr htemplate).trans (congrFun (A.normalize_denormalize row) c)

omit [CharZero K] in
theorem rebaseRow_used (anchor : Compact (Pose K)) (row : A.Row) (i : Fin 16) :
    A.rebaseRow E anchor row (A.usedActionChannelIds i) =
      ((rebaseCompactRelativeAction E (A.decode row) anchor).toArray i -
        A.q01 (A.usedActionChannelIds i)) / A.scale (A.usedActionChannelIds i) * (2 : ℕ) - 1 := by
  have hwrite := A.compactToFull_used (rebaseCompactRelativeAction E (A.decode row) anchor)
    (some (A.denormalize row)) i
  rw [← hwrite]
  rfl

omit [CharZero K] in
theorem length_rebaseNormalizedActions (rows : List A.Row) (anchor : A.Row)
    (rebased : List A.Row) (h : A.rebaseNormalizedActions E rows anchor = some rebased) :
    rebased.length = rows.length := by
  rw [rebaseNormalizedActions] at h
  split at h
  · cases h
  · rw [← Option.some_inj.mp h, List.length_map]

theorem rebaseToObservedAnchor_eq {rows : List A.Row} (hrows : rows ≠ [])
    (previous new : Compact (Pose K)) :
    A.rebaseNormalizedActionsToObservedAnchor E rows previous new =
      some (rows.map (A.rebaseRow E (absoluteToRelativeCompactAction E new previous))) := by
  have hanchor := A.decode_encode (absoluteToRelativeCompactAction E new previous) none
  rw [decode] at hanchor
  rw [rebaseNormalizedActionsToObservedAnchor, rebaseNormalizedActions, hanchor, if_neg]
  simpa using hrows

end Rebase

/-- **Rebasing keeps the absolute action.** The rebased row, decoded and composed
with the new anchor, is the row composed with the old one. -/
theorem compose_decode_rebaseRow [LinearOrder K] [IsStrictOrderedRing K] {E : Elementary K}
    (hE : IsSqrt E.sqrt) (previous new : Compact (Pose K)) (row : A.Row) :
    composeCompactRelativeAction E
        (A.decode (A.rebaseRow E (absoluteToRelativeCompactAction E new previous) row)) new =
      composeCompactRelativeAction E (A.decode row) previous := by
  rw [decode_rebaseRow, compose_compact_rebase hE]

end ActionLayout

end P2PRdt.Robot

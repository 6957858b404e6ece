import P2PRdt.Lib.Smoothing
import P2PRdt.Robot.SessionTrace

/-!
# Smoothed actions

From the second step of a session on, the raw action is what the answer of the
policy network stands for at the anchor of the step, and the executed action is
smoothed between the last executed one and the raw one. In the translations and
the grippers that is exponential smoothing (`Lib.Smoothing`), whatever the
anchor does: the executed values stay in the hull of the first observed pose and
the raw values.
-/

namespace P2PRdt.Robot

open Lib Quaternion

/-- The coordinates of a compact pose that are not part of a rotation. -/
inductive Coordinate where
  | leftTrans (i : Fin 3)
  | rightTrans (i : Fin 3)
  | leftGripper
  | rightGripper

namespace Coordinate

variable {K : Type} [Field K]

def of : Coordinate → Compact (Pose K) → K
  | leftTrans i, c => c.left.trans i
  | rightTrans i, c => c.right.trans i
  | leftGripper, c => c.left.gripper
  | rightGripper, c => c.right.gripper

end Coordinate

/-! ## One action -/

section Action

variable {K : Type} [Field K] [LinearOrder K] (E : Elementary K)

/-- Repairs of finite values change rotations only. -/
theorem coordinate_sanitize (coordinate : Coordinate) (c : Compact (Pose K))
    (fallback : Option (Compact (Pose K))) :
    coordinate.of (sanitizeCompactPose16d E (c.map PoseOf.toRaw) fallback).1 = coordinate.of c := by
  cases coordinate <;> rfl

theorem coordinate_compose_congr (coordinate : Coordinate) {c d : Compact (Pose K)}
    (anchor : Compact (Pose K)) (h : ∀ k : Coordinate, k.of c = k.of d) :
    coordinate.of (composeCompactRelativeAction E c anchor) =
      coordinate.of (composeCompactRelativeAction E d anchor) := by
  cases coordinate with
  | leftTrans i => exact congrArg (· + anchor.left.trans i) (h (.leftTrans i))
  | rightTrans i => exact congrArg (· + anchor.right.trans i) (h (.rightTrans i))
  | leftGripper => exact h .leftGripper
  | rightGripper => exact h .rightGripper

/-- Smoothing an action smooths its coordinates. -/
theorem coordinate_smooth {alpha : K} (halpha : 0 < alpha) (halpha1 : alpha ≤ 1)
    (coordinate : Coordinate) (previous current : Compact (Pose K)) :
    coordinate.of (smoothAbsoluteCompactAction E previous current alpha) =
      smooth alpha (coordinate.of previous) (coordinate.of current) := by
  have hclip : clip alpha 0 1 = alpha := by
    rw [clip, max_eq_left halpha.le, min_eq_left halpha1]
  simp only [smoothAbsoluteCompactAction, hclip, if_neg (not_le.mpr halpha)]
  split
  · rename_i hone
    obtain rfl : alpha = 1 := le_antisymm halpha1 hone
    rw [smooth, sub_self, zero_smul, zero_add, one_smul]
  · cases coordinate <;> rfl

end Action

/-! ## One step -/

section Step

variable {K F T D : Type} [Field K] [LinearOrder K] {P : RobotTwinPolicy K F T D}

/-- The absolute action that the answer of the policy network stands for in the
slot of the step, before it is stabilized. -/
def TraceEntry.raw (e : TraceEntry P) : Option (Compact (Pose K)) := do
  let call ← e.call
  let row ← call.actionPreds[call.frameIndex]?
  pure (P.absoluteAction e.anchor row)

variable [IsStrictOrderedRing K] (hE : IsSqrt P.elementary.sqrt)
  (halpha : 0 < P.actionSmoothingAlpha) (halpha1 : P.actionSmoothingAlpha ≤ 1)

namespace RobotTwinPolicy

include hE halpha halpha1 in
theorem coordinate_stabilize (coordinate : Coordinate) (previous : Compact (Pose K))
    (row : P.actionAdapter.Row) (anchor current : Compact (Pose K)) :
    coordinate.of (P.stabilizeNormalizedAction (some previous) (fun c => .fin (row c)) anchor
        current).2 =
      smooth P.actionSmoothingAlpha (coordinate.of previous)
        (coordinate.of (P.absoluteAction anchor row)) := by
  have hcomposed : ∀ c : Compact (Pose K), sanitizeCompactPose16d P.elementary
      ((composeCompactRelativeAction P.elementary c anchor).map PoseOf.toRaw) (some current) =
      (composeCompactRelativeAction P.elementary c anchor, false) := by
    intro c
    exact sanitizeCompactPose16d_toRaw hE (isUnit_composeCompact hE c anchor) _
  simp only [stabilizeNormalizedAction, hcomposed, if_pos halpha]
  rw [coordinate_smooth P.elementary halpha halpha1]
  congr 1
  apply coordinate_compose_congr
  intro k
  exact coordinate_sanitize P.elementary k _ _

include hE halpha halpha1 in
/-- The executed action of a call is smoothed between the last one and the raw one. -/
theorem smooth_of_callLaw {n : ℕ} {last e : TraceEntry P} {inp : StepInput P} {call : ModelCall P}
    (hcall : CallLaw n last inp e call) (hexecuted : e.executed = some e.absolute) :
    ∃ raw, e.raw = some raw ∧ ∀ coordinate : Coordinate, coordinate.of e.absolute =
      smooth P.actionSmoothingAlpha (coordinate.of last.absolute) (coordinate.of raw) := by
  rcases hcall.executed with ⟨row, hrow, hstab⟩
  refine ⟨P.absoluteAction e.anchor row, ?_, ?_⟩
  · rw [TraceEntry.raw, hcall.call_eq, Option.bind_eq_bind, Option.bind_some, hrow]
    rfl
  · intro coordinate
    rw [Option.some_inj.mp (hexecuted.symm.trans hstab)]
    exact coordinate_stabilize hE halpha halpha1 coordinate last.absolute row e.anchor e.pose

end RobotTwinPolicy

end Step

/-! ## Whole sessions -/

namespace RobotTwinPolicy

section Session

variable {K F T D : Type} [Field K] [LinearOrder K] [IsStrictOrderedRing K]
  {P : RobotTwinPolicy K F T D}

/-- The raw actions of the steps up to step `k`. -/
def rawsUpTo (entries : List (TraceEntry P)) (k : ℕ) : List (Compact (Pose K)) :=
  (entries.take (k + 1)).filterMap TraceEntry.raw

/-- The executed actions of a session, smoothed from its first pose on. -/
structure SmoothedSession (start : Compact (Pose K)) (entries : List (TraceEntry P)) : Prop where
  reconstructed : ∀ e ∈ entries, e.executed = some e.absolute
  first : ∀ e, entries[0]? = some e → e.absolute = start ∧ e.raw = none
  moved : ∀ (k : ℕ) last e, entries[k]? = some last → entries[k + 1]? = some e →
    ∃ raw, e.raw = some raw ∧ ∀ coordinate : Coordinate,
      |coordinate.of e.absolute - coordinate.of last.absolute| =
        P.actionSmoothingAlpha * |coordinate.of raw - coordinate.of last.absolute|
  in_hull : ∀ (k : ℕ) e, entries[k]? = some e → ∀ coordinate : Coordinate,
    coordinate.of e.absolute ∈
      listHull (coordinate.of start) ((rawsUpTo entries k).map coordinate.of)

omit [IsStrictOrderedRing K] in
theorem rawsUpTo_succ {entries : List (TraceEntry P)} {k : ℕ} {e : TraceEntry P}
    {raw : Compact (Pose K)} (he : entries[k + 1]? = some e) (hraw : e.raw = some raw) :
    rawsUpTo entries (k + 1) = rawsUpTo entries k ++ [raw] := by
  rw [rawsUpTo, rawsUpTo, List.take_add_one, he, List.filterMap_append]
  simp [hraw]

variable (hE : IsSqrt P.elementary.sqrt) (halpha : 0 < P.actionSmoothingAlpha)
  (halpha1 : P.actionSmoothingAlpha ≤ 1)

include hE halpha halpha1 in
theorem smoothedSession_of_law {inp₀ : StepInput P} {inputs : List (StepInput P)}
    {entries : List (TraceEntry P)} (hlen : entries.length = (inp₀ :: inputs).length)
    (hlaw : ∀ (k : ℕ) inp e, (inp₀ :: inputs)[k]? = some inp → entries[k]? = some e →
      TraceLaw (entries.take k) inp e) :
    SmoothedSession inp₀.currentPose entries := by
  have hlaw' : ∀ (k : ℕ) e, entries[k]? = some e → ∃ inp, (inp₀ :: inputs)[k]? = some inp ∧
      TraceLaw (entries.take k) inp e := by
    intro k e he
    have hk : k < (inp₀ :: inputs).length := hlen ▸ (List.getElem?_eq_some_iff.mp he).1
    exact ⟨_, List.getElem?_eq_getElem hk, hlaw k _ e (List.getElem?_eq_getElem hk) he⟩
  have hexecuted : ∀ (k : ℕ) e, entries[k]? = some e → e.executed = some e.absolute := by
    intro k e he
    obtain ⟨inp, -, h⟩ := hlaw' k e he
    exact h.executed
  have hfirst : ∀ e, entries[0]? = some e → e.absolute = inp₀.currentPose ∧ e.raw = none := by
    intro e he
    obtain ⟨inp, hinp, h⟩ := hlaw' 0 e he
    obtain rfl := Option.some_inj.mp hinp
    obtain ⟨hcall, hpose⟩ := h.first rfl
    refine ⟨?_, ?_⟩
    · rw [Option.some_inj.mp (h.executed.symm.trans hpose), h.pose]
    · rw [TraceEntry.raw, hcall]
      rfl
  have hstep : ∀ (k : ℕ) last e, entries[k]? = some last → entries[k + 1]? = some e →
      ∃ raw, e.raw = some raw ∧ ∀ coordinate : Coordinate, coordinate.of e.absolute =
        smooth P.actionSmoothingAlpha (coordinate.of last.absolute) (coordinate.of raw) := by
    intro k last e hlast he
    obtain ⟨inp, -, h⟩ := hlaw' (k + 1) e he
    obtain ⟨call, hcall⟩ := callLaw_of_law h hlast
    exact smooth_of_callLaw hE halpha halpha1 hcall h.executed
  constructor
  · intro e he
    obtain ⟨k, hk⟩ := List.getElem?_of_mem he
    exact hexecuted k e hk
  · exact hfirst
  · intro k last e hlast he
    obtain ⟨raw, hraw, hsmooth⟩ := hstep k last e hlast he
    refine ⟨raw, hraw, ?_⟩
    intro coordinate
    rw [hsmooth, abs_smooth_sub halpha.le]
  · intro k
    induction k with
    | zero =>
        intro e he coordinate
        rw [(hfirst e he).1]
        exact self_mem_listHull
    | succ k ih =>
        intro e he coordinate
        obtain ⟨last, hlast⟩ : ∃ last, entries[k]? = some last :=
          ⟨_, List.getElem?_eq_getElem (Nat.lt_of_succ_lt (List.getElem?_eq_some_iff.mp he).1)⟩
        obtain ⟨raw, hraw, hsmooth⟩ := hstep k last e hlast he
        rw [hsmooth, rawsUpTo_succ he hraw, List.map_append]
        exact smooth_mem_listHull halpha.le halpha1 (ih last hlast coordinate)

include hE halpha halpha1 in
/-- **Smoothing stays in the hull.** In every session with at least two slots:
the client's actions are the executed ones, they start at the first observed
pose, each moves the part `alpha` of the way to the raw action of its step, and
none leaves the hull of the first pose and the raw actions so far. -/
theorem session_smoothed (h2 : 2 ≤ P.seqLen) {s : ServerState P} (hs : WellSized s)
    (prompt : Option String) (textTokensEmbed : Option T) {inp₀ : StepInput P}
    {inputs : List (StepInput P)} (hunit : ∀ inp ∈ inp₀ :: inputs, inp.currentPose.IsUnit) :
    ∃ s' entries, P.tracedSession (P.reset s prompt textTokensEmbed) (inp₀ :: inputs) =
        some (s', entries) ∧
      P.session (P.reset s prompt textTokensEmbed) (inp₀ :: inputs) =
        some (s', entries.map TraceEntry.toLogEntry) ∧
      entries.length = (inp₀ :: inputs).length ∧ SmoothedSession inp₀.currentPose entries := by
  obtain ⟨s', entries, hrun, hsession, hlen, hlaw⟩ :=
    tracedSession_law hE h2 hs prompt textTokensEmbed hunit
  exact ⟨s', entries, hrun, hsession, hlen,
    smoothedSession_of_law hE halpha halpha1 hlen hlaw⟩

end Session

theorem session_smoothed_onTheWay :
    ∃ s entries, repeatingPolicy.tracedSession
        (repeatingPolicy.reset repeatingPolicy.initState none none)
        [onTheWay 0, onTheWay 1, onTheWay 2] = some (s, entries) ∧ entries.length = 3 ∧
      SmoothedSession (P := repeatingPolicy) (wayPose 0) entries := by
  have halpha : 0 < repeatingPolicy.actionSmoothingAlpha := by norm_num [repeatingPolicy]
  have halpha1 : repeatingPolicy.actionSmoothingAlpha ≤ 1 := by norm_num [repeatingPolicy]
  obtain ⟨s, entries, hrun, -, hlen, hsmoothed⟩ := session_smoothed isSqrt_realElementary halpha
    halpha1 le_rfl wellSized_initState none none isUnit_onTheWay
  exact ⟨s, entries, hrun, hlen, hsmoothed⟩

end RobotTwinPolicy

end P2PRdt.Robot

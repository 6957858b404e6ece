import P2PRdt.Robot.SessionTrace

/-!
# Warm starts

With a blend of 1 and no noise a call of the policy network starts from the
predictions of the call before. While the window fills, slot `j` stands for the
step `j` of the session in every call. A full window moves on by one step with
each call: the predictions are shifted by one slot and moved to the new anchor,
so that a step keeps its absolute action, and the last one is repeated.
-/

namespace P2PRdt.Robot

open Lib Quaternion

/-! ## Shifted lists -/

section Shift

variable {α : Type} {l : List α}

theorem getElem?_shift {j : ℕ} (hj : j + 1 < l.length) :
    (l.tail ++ l.getLast?.toList)[j]? = l[j + 1]? := by
  have htail : j < l.tail.length := by
    rw [List.length_tail]
    omega
  rw [List.getElem?_append_left htail, List.getElem?_tail]

/-- The new slot repeats the last entry. -/
theorem getElem?_shift_last (hl : l ≠ []) :
    (l.tail ++ l.getLast?.toList)[l.length - 1]? = l[l.length - 1]? := by
  have hlast : l.getLast? = some (l.getLast hl) := List.getLast?_eq_some_getLast hl
  rw [List.getElem?_append_right (by rw [List.length_tail]), List.length_tail, Nat.sub_self, hlast,
    ← List.getLast?_eq_getElem?, hlast]
  rfl

end Shift

namespace RobotTwinPolicy

section Warm

variable {K F T D : Type} [Field K] [LinearOrder K] [IsStrictOrderedRing K]
  (P : RobotTwinPolicy K F T D)

/-- The step that slot 0 of the call of step `k` stands for. -/
def windowStart (k : ℕ) : ℕ := k + 1 - P.seqLen

/-- The sample of the call of step `k + 1` against the predictions `preds` of the
call of step `k`. -/
structure AlignedSample (k : ℕ) (last e : TraceEntry P) (preds sample : List P.actionAdapter.Row) :
    Prop where
  aligned : ∀ j j', j < P.seqLen → j' < P.seqLen →
    P.windowStart (k + 1) + j = P.windowStart k + j' →
    ∃ row row', sample[j]? = some row ∧ preds[j']? = some row' ∧
      P.absoluteAction e.anchor row = P.absoluteAction last.anchor row' ∧
      ∀ ch, P.actionAdapter.Unused ch → row ch = row' ch
  repeated : ∀ j < P.seqLen, P.windowStart k + P.seqLen ≤ P.windowStart (k + 1) + j →
    j + 1 = P.seqLen ∧ sample[j]? = sample[j - 1]?

variable {P}

omit [IsStrictOrderedRing K] in
/-- A window that is not full keeps its predictions and its anchor. -/
theorem alignedSample_fill {k : ℕ} (hk : k + 1 < P.seqLen) {last e : TraceEntry P}
    {preds : List P.actionAdapter.Row} (hlen : preds.length = P.seqLen)
    (hanchor : e.anchor = last.anchor) : P.AlignedSample k last e preds preds := by
  have hstart : P.windowStart k = 0 := Nat.sub_eq_zero_of_le hk.le
  have hstart' : P.windowStart (k + 1) = 0 := Nat.sub_eq_zero_of_le hk
  constructor
  · intro j j' hj hj' hsame
    obtain rfl : j = j' := by
      rw [hstart, hstart'] at hsame
      simpa using hsame
    have hrow := List.getElem?_eq_getElem (hlen.symm ▸ hj)
    refine ⟨_, _, hrow, hrow, ?_, fun _ _ => rfl⟩
    rw [hanchor]
  · intro j hj hnew
    rw [hstart, hstart'] at hnew
    omega

variable (hE : IsSqrt P.elementary.sqrt)

include hE in
/-- A full window is shifted by one slot and moved to the new anchor. -/
theorem alignedSample_roll {k : ℕ} (h2 : 2 ≤ P.seqLen) (hk : P.seqLen ≤ k + 1)
    {last e : TraceEntry P} {preds : List P.actionAdapter.Row} (hlen : preds.length = P.seqLen) :
    P.AlignedSample k last e preds (P.movedPreds last.anchor e.anchor preds) := by
  have hstart : P.windowStart (k + 1) = P.windowStart k + 1 := Nat.succ_sub hk
  have hne : preds ≠ [] := by
    rintro rfl
    rw [List.length_nil] at hlen
    omega
  have hshift : ∀ j, j + 1 < P.seqLen →
      (P.movedPreds last.anchor e.anchor preds)[j]? = (preds[j + 1]?).map
        (P.actionAdapter.rebaseRow P.elementary
          (absoluteToRelativeCompactAction P.elementary e.anchor last.anchor)) := by
    intro j hj
    rw [movedPreds, List.getElem?_map, getElem?_shift (hlen.symm ▸ hj)]
  have hlast : (P.movedPreds last.anchor e.anchor preds)[P.seqLen - 1]? =
      (preds[P.seqLen - 1]?).map (P.actionAdapter.rebaseRow P.elementary
        (absoluteToRelativeCompactAction P.elementary e.anchor last.anchor)) := by
    rw [movedPreds, List.getElem?_map, ← hlen, getElem?_shift_last hne]
  constructor
  · intro j j' hj hj' hsame
    obtain rfl : j' = j + 1 := by
      rw [hstart] at hsame
      omega
    obtain ⟨row', hrow⟩ : ∃ row', preds[j + 1]? = some row' :=
      ⟨_, List.getElem?_eq_getElem (hlen.symm ▸ hj')⟩
    have hsample := hshift j hj'
    rw [hrow, Option.map_some] at hsample
    refine ⟨_, row', hsample, hrow, ?_, ?_⟩
    · exact P.actionAdapter.compose_decode_rebaseRow hE last.anchor e.anchor row'
    · intro ch hch
      exact P.actionAdapter.rebaseRow_unused P.elementary _ row' hch
  · intro j hj hnew
    rw [hstart] at hnew
    obtain rfl : j = P.seqLen - 1 := by omega
    refine ⟨Nat.sub_add_cancel P.seqLen_pos, ?_⟩
    have hprevious : P.seqLen - 1 - 1 + 1 = P.seqLen - 1 := by omega
    rw [hlast, hshift _ (by omega), hprevious]

/-- With a blend of 1 and no noise the sample is the stored predictions. -/
theorem buildWarmStartSample_plain (hblend : P.warmStartBlend = 1)
    (hnoise : P.warmStartNoiseStd ≤ 0)
    (preds : Option (List P.actionAdapter.Row)) (blendNoise stdNoise : List P.actionAdapter.Row) :
    P.buildWarmStartSample preds blendNoise stdNoise = preds := by
  cases preds with
  | none => rfl
  | some rows =>
      have hone : ¬(1 : K) ≤ 0 := not_le.mpr one_pos
      simp only [buildWarmStartSample, hblend, if_neg hone, lt_irrefl, if_false,
        if_neg (not_lt.mpr hnoise)]

omit [IsStrictOrderedRing K] in
/-- The predictions of a step have a row for every slot. -/
theorem length_stabilizedPreds {entries : List (TraceEntry P)} {inputs : List (StepInput P)}
    (hlen : entries.length = inputs.length)
    (hlaw : ∀ (k : ℕ) inp e, inputs[k]? = some inp → entries[k]? = some e →
      TraceLaw (entries.take k) inp e)
    {k : ℕ} {last : TraceEntry P} (hlast : entries[k]? = some last)
    {preds : List P.actionAdapter.Row} (hpreds : last.stabilizedPreds = some preds) :
    preds.length = P.seqLen := by
  obtain ⟨hk, -⟩ := List.getElem?_eq_some_iff.mp hlast
  have hinput := List.getElem?_eq_getElem (hlen ▸ hk)
  have hlastlaw := hlaw k _ last hinput hlast
  rw [TraceEntry.stabilizedPreds, Option.map_eq_some_iff] at hpreds
  rcases hpreds with ⟨call, hcall, rfl⟩
  rw [List.length_set]
  cases k with
  | zero =>
      rw [(hlastlaw.first rfl).1] at hcall
      cases hcall
  | succ k =>
      have hprevious := List.getElem?_eq_getElem (Nat.lt_of_succ_lt hk)
      obtain ⟨call', hcall'⟩ := callLaw_of_law hlastlaw hprevious
      obtain rfl := Option.some_inj.mp (hcall.symm.trans hcall'.call_eq)
      exact hcall'.length_actionPreds

/-- From its third step on a session starts from a sample. -/
theorem initialSample_of_law (hblend : P.warmStartBlend = 1) (hnoise : P.warmStartNoiseStd ≤ 0)
    {entries : List (TraceEntry P)} {inputs : List (StepInput P)}
    (hlen : entries.length = inputs.length)
    (hlaw : ∀ (k : ℕ) inp e, inputs[k]? = some inp → entries[k]? = some e →
      TraceLaw (entries.take k) inp e)
    {k : ℕ} {e : TraceEntry P} (he : entries[k + 2]? = some e) :
    ∃ call sample, e.call = some call ∧ call.initialSample = some sample := by
  obtain ⟨hk, -⟩ := List.getElem?_eq_some_iff.mp he
  have hinput : ∀ j, j < entries.length → ∃ inp, inputs[j]? = some inp := by
    intro j hj
    exact ⟨_, List.getElem?_eq_getElem (hlen ▸ hj)⟩
  obtain ⟨inp, hinp⟩ := hinput (k + 2) hk
  obtain ⟨inp', hinp'⟩ := hinput (k + 1) (Nat.lt_of_succ_lt hk)
  have hlast := List.getElem?_eq_getElem (Nat.lt_of_succ_lt hk)
  have hfirst := List.getElem?_eq_getElem (Nat.lt_of_succ_lt (Nat.lt_of_succ_lt hk))
  obtain ⟨call, hcall⟩ := callLaw_of_law (hlaw (k + 2) inp e hinp he) hlast
  obtain ⟨previous, hprevious⟩ := callLaw_of_law (hlaw (k + 1) inp' _ hinp' hlast) hfirst
  have hsample := hcall.initialSample
  rw [buildWarmStartSample_plain hblend hnoise, warmPreds, TraceEntry.stabilizedPreds,
    hprevious.call_eq] at hsample
  refine ⟨call, ?_⟩
  split at hsample
  · exact ⟨_, hcall.call_eq, hsample⟩
  · exact ⟨_, hcall.call_eq, hsample⟩

include hE in
/-- **Warm starts stay aligned.** In every session with at least two slots, a
blend of 1 and no noise: where the sample of a call and the predictions of the
call before have a slot for the same step, they have the same absolute action
for it, each at its own anchor, and the same unused channels; a new slot repeats
the one in front of it. -/
theorem warmStart_aligned (h2 : 2 ≤ P.seqLen) (hblend : P.warmStartBlend = 1)
    (hnoise : P.warmStartNoiseStd ≤ 0) {s : ServerState P} (hs : WellSized s)
    (prompt : Option String) (textTokensEmbed : Option T) {inputs : List (StepInput P)}
    (hunit : ∀ inp ∈ inputs, inp.currentPose.IsUnit) :
    ∃ s' entries, P.tracedSession (P.reset s prompt textTokensEmbed) inputs = some (s', entries) ∧
      P.session (P.reset s prompt textTokensEmbed) inputs =
        some (s', entries.map TraceEntry.toLogEntry) ∧
      entries.length = inputs.length ∧
      ∀ (k : ℕ) last e call sample, entries[k]? = some last → entries[k + 1]? = some e →
        e.call = some call → call.initialSample = some sample →
        ∃ preds, last.stabilizedPreds = some preds ∧ P.AlignedSample k last e preds sample := by
  obtain ⟨s', entries, hrun, hsession, hlen, hlaw⟩ :=
    tracedSession_law hE h2 hs prompt textTokensEmbed hunit
  refine ⟨s', entries, hrun, hsession, hlen, ?_⟩
  intro k last e call sample hlast he hcall hsample
  have hinput := List.getElem?_eq_getElem (hlen ▸ (List.getElem?_eq_some_iff.mp he).1)
  obtain ⟨call', hcall'⟩ := callLaw_of_law (hlaw (k + 1) _ e hinput he) hlast
  obtain rfl := Option.some_inj.mp (hcall.symm.trans hcall'.call_eq)
  have hwarm := hcall'.initialSample
  rw [hsample, buildWarmStartSample_plain hblend hnoise, warmPreds] at hwarm
  split at hwarm
  · rename_i hshort
    refine ⟨sample, hwarm.symm, ?_⟩
    exact alignedSample_fill hshort (length_stabilizedPreds hlen hlaw hlast hwarm.symm)
      (hcall'.anchor hshort)
  · rename_i hlong
    obtain ⟨preds, hpreds, rfl⟩ := Option.map_eq_some_iff.mp hwarm.symm
    refine ⟨preds, hpreds, ?_⟩
    exact alignedSample_roll hE h2 (not_lt.mp hlong)
      (length_stabilizedPreds hlen hlaw hlast hpreds)

end Warm

/-! ## Three steps on the way -/

/-- Two slots, a blend of 1 and no noise. -/
noncomputable def restartingPolicy : RobotTwinPolicy ℝ Unit Unit Unit :=
  { repeatingPolicy with
    warmStartBlend := 1
    warmStartNoiseStd := 0 }

noncomputable def goingOn (k : ℕ) : StepInput restartingPolicy where
  frame := ()
  currentPose := wayPose k
  prompt := none
  textTokensEmbed := none
  blendNoise := []
  stdNoise := []
  draw := ()

/-- The third step starts from the predictions of the second one. -/
theorem warmStart_aligned_goingOn :
    ∃ s entries last e call sample preds, restartingPolicy.tracedSession
        (restartingPolicy.reset restartingPolicy.initState none none)
        [goingOn 0, goingOn 1, goingOn 2] = some (s, entries) ∧
      entries[1]? = some last ∧ entries[2]? = some e ∧ e.call = some call ∧
      call.initialSample = some sample ∧ last.stabilizedPreds = some preds ∧
      restartingPolicy.AlignedSample 1 last e preds sample := by
  have hunit : ∀ inp ∈ [goingOn 0, goingOn 1, goingOn 2], inp.currentPose.IsUnit := by
    show ∀ inp ∈ [0, 1, 2].map goingOn, inp.currentPose.IsUnit
    exact List.forall_mem_map.mpr fun k _ => isUnit_wayPose k
  obtain ⟨s, entries, hrun, -, hlen, haligned⟩ :=
    warmStart_aligned (P := restartingPolicy) isSqrt_realElementary le_rfl rfl le_rfl
      wellSized_initState none none hunit
  obtain ⟨s', entries', hrun', -, -, hlaw⟩ :=
    tracedSession_law (P := restartingPolicy) isSqrt_realElementary le_rfl wellSized_initState none
      none hunit
  obtain ⟨-, rfl⟩ := Prod.mk.inj (Option.some_inj.mp (hrun.symm.trans hrun'))
  have hthree : 2 < entries.length := by
    rw [hlen]
    decide
  have hlast := List.getElem?_eq_getElem (Nat.lt_of_succ_lt hthree)
  have he := List.getElem?_eq_getElem hthree
  obtain ⟨call, sample, hcall, hsample⟩ := initialSample_of_law (P := restartingPolicy) rfl le_rfl
    hlen hlaw he
  obtain ⟨preds, hpreds, hsame⟩ := haligned 1 _ _ call sample hlast he hcall hsample
  exact ⟨s, entries, _, _, call, sample, preds, hrun, hlast, he, hcall, hsample, hpreds, hsame⟩

end RobotTwinPolicy

end P2PRdt.Robot

import P2PRdt.Lib.TraceFold
import P2PRdt.Robot.Session

/-!
# Traces of a session

The trace of a session has the log entry of every step, the question that the
step put to the policy network and the network's answer. An entry follows from
the entries before it: from the second step on the network is asked, the
predictions of one call are the starting point of the next, and they are shifted
and moved to the new anchor once the window is full.
-/

namespace P2PRdt.Robot

open Lib Quaternion

/-- A call of the policy network: the sample it starts from, and its answer after
`nan_to_num`. The action of the step is taken from `frameIndex`. -/
structure ModelCall {K F T D : Type} [Field K] (P : RobotTwinPolicy K F T D) where
  initialSample : Option (List P.actionAdapter.Row)
  actionPreds : List P.actionAdapter.Row
  frameIndex : ℕ

/-- What a step was given, what it asked, what it returned, and the absolute
action it remembers as executed. -/
structure TraceEntry {K F T D : Type} [Field K] (P : RobotTwinPolicy K F T D)
    extends LogEntry P where
  call : Option (ModelCall P)
  executed : Option (Compact (Pose K))

namespace TraceEntry

variable {K F T D : Type} [Field K] {P : RobotTwinPolicy K F T D}

/-- The absolute action that the client makes of the returned action and anchor. -/
def absolute [LinearOrder K] (e : TraceEntry P) : Compact (Pose K) :=
  P.absoluteAction e.anchor e.action

/-- The predictions of a step's call with the stabilized action in its slot. -/
def stabilizedPreds (e : TraceEntry P) : Option (List P.actionAdapter.Row) :=
  e.call.map fun call => call.actionPreds.set call.frameIndex e.action

end TraceEntry

namespace RobotTwinPolicy

section Code

variable {K F T D : Type} [Field K] [LinearOrder K] (P : RobotTwinPolicy K F T D)

/-- The first half of `step`: the server with the observation and its anchor, and
the slot of the observation. -/
def prepare (s : ServerState P) (inp : StepInput P) : Option (ServerState P × ℕ) := do
  let (s, frameIndex) ← P.observe (P.updateText s inp) inp
  let anchorPose ← s.poseHistory[0]?
  pure ({ s with anchorPose }, frameIndex)

/-- The call that `act` makes. -/
def modelCall (s : ServerState P) (inp : StepInput P) (frameIndex : ℕ) : Option (ModelCall P) :=
  if s.nPriorFrames = 1 then none
  else do
    let initialSample := P.buildWarmStartSample s.prevActionPreds inp.blendNoise inp.stdNoise
    let frames ← s.frameHistory
    let predicted := P.onlineFullPredict frames s.actionHistory s.textTokensEmbed initialSample
      inp.draw
    pure ⟨initialSample, predicted.map fun row c => (row c).nanToNum, frameIndex⟩

def traceStep (s : ServerState P) (inp : StepInput P) : Option (ServerState P × TraceEntry P) := do
  let (s, frameIndex) ← P.prepare s inp
  let (action, s') ← P.act s inp frameIndex
  pure (s', ⟨⟨inp.currentPose, action, s.anchorPose⟩, P.modelCall s inp frameIndex,
    s'.prevExecutedAbsoluteAction⟩)

/-- The trace of a session. -/
def tracedSession (s : ServerState P) (inputs : List (StepInput P)) :
    Option (ServerState P × List (TraceEntry P)) :=
  tracedRun P.traceStep s inputs

/-- A traced step is a step. -/
theorem step_eq_traceStep (s : ServerState P) (inp : StepInput P) :
    P.step s inp = (P.traceStep s inp).map fun (s', e) => ((e.action, e.anchor), s') := by
  rw [step, traceStep, prepare]
  cases P.observe (P.updateText s inp) inp with
  | none => rfl
  | some observed =>
      rcases observed with ⟨s₁, i⟩
      simp only [Option.bind_eq_bind, Option.bind_some]
      cases s₁.poseHistory[0]? with
      | none => rfl
      | some anchor =>
          simp only [Option.bind_some, Option.pure_def]
          cases P.act { s₁ with anchorPose := anchor } inp i <;> rfl

end Code

section Session

variable {K F T D : Type} [Field K] [LinearOrder K] (P : RobotTwinPolicy K F T D)

theorem loggedStep_eq_traced (s : ServerState P) (entries : List (TraceEntry P))
    (inp : StepInput P) :
    P.loggedStep (s, entries.map TraceEntry.toLogEntry) inp =
      (traced P.traceStep (s, entries) inp).map fun (s', entries') =>
        (s', entries'.map TraceEntry.toLogEntry) := by
  rw [loggedStep, traced, step_eq_traceStep]
  cases htrace : P.traceStep s inp with
  | none => rfl
  | some out =>
      rcases out with ⟨s', e⟩
      have hpose : e.pose = inp.currentPose := by
        simp only [traceStep, Option.bind_eq_bind, Option.bind_eq_some_iff, Option.pure_def,
          Option.some_inj, Prod.mk.injEq] at htrace
        rcases htrace with ⟨_, -, _, -, -, rfl⟩
        rfl
      simp [← hpose]

/-- The trace of a session has its log. -/
theorem session_eq_tracedSession (s : ServerState P) (inputs : List (StepInput P)) :
    P.session s inputs = (P.tracedSession s inputs).map fun (s', entries) =>
      (s', entries.map TraceEntry.toLogEntry) := by
  have hfold : ∀ (s : ServerState P) (entries : List (TraceEntry P)),
      inputs.foldlM P.loggedStep (s, entries.map TraceEntry.toLogEntry) =
        (inputs.foldlM (traced P.traceStep) (s, entries)).map fun (s', entries') =>
          (s', entries'.map TraceEntry.toLogEntry) := by
    induction inputs with
    | nil =>
        intro s entries
        rfl
    | cons inp inputs ih =>
        intro s entries
        rw [List.foldlM_cons, List.foldlM_cons, loggedStep_eq_traced]
        cases traced P.traceStep (s, entries) inp with
        | none => rfl
        | some st => exact ih st.1 st.2
  exact hfold s []

end Session

/-! ## What a step is made of -/

section Parts

variable {K F T D : Type} [Field K] [LinearOrder K] [IsStrictOrderedRing K]
  {P : RobotTwinPolicy K F T D}

variable (P) in
/-- Predictions moved on by one slot and to the new anchor. -/
def movedPreds (previous new : Compact (Pose K)) (preds : List P.actionAdapter.Row) :
    List P.actionAdapter.Row :=
  (preds.tail ++ preds.getLast?.toList).map (P.actionAdapter.rebaseRow P.elementary
    (absoluteToRelativeCompactAction P.elementary new previous))

theorem rollWarmStartPredictions_eq {preds : Option (List P.actionAdapter.Row)}
    (hpreds : ∀ rows, preds = some rows → rows ≠ []) (previous new : Compact (Pose K)) :
    P.rollWarmStartPredictions preds previous new =
      some (preds.map (P.movedPreds previous new)) := by
  cases preds with
  | none => rfl
  | some rows =>
      have hne : rows.tail ++ rows.getLast?.toList ≠ [] := by
        obtain ⟨row, rest, rfl⟩ := List.exists_cons_of_ne_nil (hpreds rows rfl)
        simp [List.getLast?_cons]
      rw [rollWarmStartPredictions, P.actionAdapter.rebaseToObservedAnchor_eq P.elementary hne]
      rfl

omit [LinearOrder K] [IsStrictOrderedRing K] in
/-- The text of a step leaves everything else as it is. -/
theorem updateText_rest (s : ServerState P) (inp : StepInput P) :
    (P.updateText s inp).prevActionPreds = s.prevActionPreds ∧
      (P.updateText s inp).anchorPose = s.anchorPose := by
  unfold updateText
  split
  · exact ⟨rfl, rfl⟩
  · split <;> exact ⟨rfl, rfl⟩
  · exact ⟨rfl, rfl⟩

/-- The server that `act` is given, against the server before the step. -/
structure Prepared (s : ServerState P) (log : List (LogEntry P)) (s₁ : ServerState P) (i : ℕ) :
    Prop where
  nPriorFrames : s₁.nPriorFrames = i + 1
  count : i + 1 = min (log.length + 1) P.seqLen
  length_actions : s₁.actionHistory.length = P.seqLen
  frames : ∃ frames, s₁.frameHistory = some frames
  executed : s₁.prevExecutedAbsoluteAction = log.getLast?.map LogEntry.absolute
  fill : log.length < P.seqLen → s₁.prevActionPreds = s.prevActionPreds ∧
    (log ≠ [] → s₁.anchorPose = s.anchorPose)
  roll : P.seqLen ≤ log.length →
    s₁.prevActionPreds = s.prevActionPreds.map (P.movedPreds s.anchorPose s₁.anchorPose)

omit [IsStrictOrderedRing K] in
/-- Filling a slot keeps the predictions, and the anchor when there is one. -/
theorem observe_fill_preds {s s₁ : ServerState P} {log : List (LogEntry P)}
    (h : SessionInv s log) {inp : StepInput P} {i : ℕ} (hroom : s.nPriorFrames < P.seqLen)
    (hobserve : P.observe s inp = some (s₁, i)) :
    s₁.prevActionPreds = s.prevActionPreds ∧
      (log ≠ [] → s₁.poseHistory[0]? = some s.anchorPose) := by
  rw [observe, if_pos hroom, Option.some_inj, Prod.mk.injEq] at hobserve
  rcases hobserve with ⟨rfl, -⟩
  refine ⟨rfl, ?_⟩
  intro hne
  have hpos : 0 < log.length := List.length_pos_iff.mpr hne
  have hn : s.nPriorFrames ≠ 0 := by
    rw [h.nPriorFrames]
    exact (lt_min hpos P.seqLen_pos).ne'
  exact (List.getElem?_set_ne hn).trans h.anchor

/-- Rolling moves the predictions to the new anchor. -/
theorem observe_roll_preds {s s₁ : ServerState P} {log : List (LogEntry P)}
    (h : SessionInv s log) {inp : StepInput P} {i : ℕ} (hfull : ¬s.nPriorFrames < P.seqLen)
    (hobserve : P.observe s inp = some (s₁, i)) {new : Compact (Pose K)}
    (hnew : s₁.poseHistory[0]? = some new) :
    s₁.prevActionPreds = s.prevActionPreds.map (P.movedPreds s.anchorPose new) := by
  have hpreds : ∀ rows, s.prevActionPreds = some rows → rows ≠ [] := by
    rintro rows hrows rfl
    exact absurd (h.length_preds [] hrows) (Nat.ne_of_lt P.seqLen_pos)
  simp only [observe, if_neg hfull, h.anchor, rollWarmStartPredictions_eq hpreds,
    Option.bind_eq_bind, Option.bind_some, Option.bind_eq_some_iff, Option.pure_def,
    Option.some_inj, Prod.mk.injEq] at hobserve
  rcases hobserve with ⟨new', hnew', _, -, rfl, -⟩
  rw [Option.some_inj.mp (hnew.symm.trans hnew')]

variable (hE : IsSqrt P.elementary.sqrt)

include hE in
theorem prepare_spec {s s₁ : ServerState P} {log : List (LogEntry P)} (h : SessionInv s log)
    {inp : StepInput P} {i : ℕ} (hprepare : P.prepare s inp = some (s₁, i)) :
    Prepared s log s₁ i := by
  have htext := h.updateText inp
  obtain ⟨hpreds, hanchor⟩ := updateText_rest s inp
  simp only [prepare, Option.bind_eq_bind, Option.bind_eq_some_iff, Option.pure_def,
    Option.some_inj, Prod.mk.injEq] at hprepare
  rcases hprepare with ⟨⟨s₀, i₀⟩, hobserve, new, hnew, rfl, rfl⟩
  have hn := htext.nPriorFrames
  have hpos := P.seqLen_pos
  by_cases hroom : (P.updateText s inp).nPriorFrames < P.seqLen
  · obtain ⟨s', i', hobserve', hobs⟩ := observe_fill htext inp hroom
    obtain ⟨rfl, rfl⟩ := Prod.mk.inj (Option.some_inj.mp (hobserve.symm.trans hobserve'))
    obtain ⟨hsame, hkept⟩ := observe_fill_preds htext hroom hobserve
    refine ⟨hobs.nPriorFrames, hobs.count, hobs.length_actions, hobs.frames, hobs.executed, ?_, ?_⟩
    · intro _
      refine ⟨hsame.trans hpreds, ?_⟩
      intro hne
      exact (Option.some_inj.mp (hnew.symm.trans (hkept hne))).trans hanchor
    · intro hlong
      omega
  · obtain ⟨s', i', hobserve', hobs⟩ := observe_roll hE htext inp hroom
    obtain ⟨rfl, rfl⟩ := Prod.mk.inj (Option.some_inj.mp (hobserve.symm.trans hobserve'))
    have hmoved := observe_roll_preds htext hroom hobserve hnew
    refine ⟨hobs.nPriorFrames, hobs.count, hobs.length_actions, hobs.frames, hobs.executed, ?_, ?_⟩
    · intro hshort
      omega
    · intro _
      rw [hpreds, hanchor] at hmoved
      exact hmoved

omit [IsStrictOrderedRing K] in
theorem act_first {s s' : ServerState P} {inp : StepInput P} {i : ℕ} {action : P.actionAdapter.Row}
    (hfirst : s.nPriorFrames = 1) (hact : P.act s inp i = some (action, s')) :
    P.modelCall s inp i = none ∧ s'.prevActionPreds = s.prevActionPreds ∧
      s'.anchorPose = s.anchorPose ∧ s'.prevExecutedAbsoluteAction = some inp.currentPose := by
  rw [act, if_pos hfirst, Option.some_inj, Prod.mk.injEq] at hact
  rcases hact with ⟨-, rfl⟩
  exact ⟨if_pos hfirst, rfl, rfl, rfl⟩

omit [IsStrictOrderedRing K] in
/-- Behind the first frame the policy network is asked, and its answer for the
slot is stabilized. -/
theorem act_later {s s' : ServerState P} {inp : StepInput P} {i : ℕ} {action : P.actionAdapter.Row}
    (hlater : s.nPriorFrames ≠ 1) (hact : P.act s inp i = some (action, s')) :
    ∃ call row, P.modelCall s inp i = some call ∧ call.frameIndex = i ∧
      call.initialSample =
        P.buildWarmStartSample s.prevActionPreds inp.blendNoise inp.stdNoise ∧
      call.actionPreds.length = s.actionHistory.length ∧ call.actionPreds[i]? = some row ∧
      (action, s'.prevExecutedAbsoluteAction) =
        ((P.stabilizeNormalizedAction s.prevExecutedAbsoluteAction (fun c => .fin (row c))
          s.anchorPose inp.currentPose).map id some) ∧
      s'.prevActionPreds = some (call.actionPreds.set i action) ∧
      s'.anchorPose = s.anchorPose := by
  simp only [act, if_neg hlater, Option.bind_eq_bind, Option.bind_eq_some_iff, Option.pure_def,
    Option.some_inj, Prod.mk.injEq] at hact
  rcases hact with ⟨frames, hframes, row, hrow, rfl, rfl⟩
  refine ⟨⟨P.buildWarmStartSample s.prevActionPreds inp.blendNoise inp.stdNoise,
    (P.onlineFullPredict frames s.actionHistory s.textTokensEmbed
      (P.buildWarmStartSample s.prevActionPreds inp.blendNoise inp.stdNoise) inp.draw).map
        fun row c => (row c).nanToNum, i⟩, row, ?_, rfl, rfl, ?_, hrow, rfl, rfl, rfl⟩
  · simp only [modelCall, if_neg hlater, hframes, Option.bind_eq_bind, Option.bind_some,
      Option.pure_def]
  · exact (List.length_map _).trans (P.length_onlineFullPredict _ _ _ _ _)

end Parts

/-! ## The law of a trace -/

section Law

variable {K F T D : Type} [Field K] [LinearOrder K] {P : RobotTwinPolicy K F T D}

variable (P) in
/-- What the next call starts from: the last predictions, moved on when the
window is full. -/
def warmPreds (n : ℕ) (last e : TraceEntry P) : Option (List P.actionAdapter.Row) :=
  if n < P.seqLen then last.stabilizedPreds
  else last.stabilizedPreds.map (P.movedPreds last.anchor e.anchor)

/-- A call behind `n` entries of which `last` is the last one. -/
structure CallLaw (n : ℕ) (last : TraceEntry P) (inp : StepInput P) (e : TraceEntry P)
    (call : ModelCall P) : Prop where
  call_eq : e.call = some call
  frameIndex : call.frameIndex = min n (P.seqLen - 1)
  length_actionPreds : call.actionPreds.length = P.seqLen
  executed : ∃ row, call.actionPreds[call.frameIndex]? = some row ∧
    e.executed = some (P.stabilizeNormalizedAction (some last.absolute) (fun c => .fin (row c))
      e.anchor e.pose).2
  initialSample : call.initialSample =
    P.buildWarmStartSample (P.warmPreds n last e) inp.blendNoise inp.stdNoise
  anchor : n < P.seqLen → e.anchor = last.anchor

/-- How an entry follows from the entries before it. -/
structure TraceLaw (entries : List (TraceEntry P)) (inp : StepInput P) (e : TraceEntry P) :
    Prop where
  pose : e.pose = inp.currentPose
  executed : e.executed = some e.absolute
  first : entries = [] → e.call = none ∧ e.executed = some e.pose
  later : ∀ last, entries.getLast? = some last → ∃ call, CallLaw entries.length last inp e call

/-- The server behind the entries of a trace. -/
structure TraceInv (s : ServerState P) (entries : List (TraceEntry P)) : Prop where
  session : SessionInv s (entries.map TraceEntry.toLogEntry)
  preds : s.prevActionPreds = entries.getLast?.bind TraceEntry.stabilizedPreds
  anchor : ∀ last, entries.getLast? = some last → s.anchorPose = last.anchor

end Law

/-! ## Whole sessions -/

section Run

variable {K F T D : Type} [Field K] [LinearOrder K] [IsStrictOrderedRing K]
  {P : RobotTwinPolicy K F T D} (hE : IsSqrt P.elementary.sqrt) (h2 : 2 ≤ P.seqLen)

omit [IsStrictOrderedRing K] in
/-- What the next call starts from is what the prepared server has. -/
theorem warmPreds_of_prepared {s s₁ : ServerState P} {entries : List (TraceEntry P)}
    (h : TraceInv s entries) {i : ℕ} (hprep : Prepared s (entries.map TraceEntry.toLogEntry) s₁ i)
    {last e : TraceEntry P} (hlast : entries.getLast? = some last)
    (hanchor : e.anchor = s₁.anchorPose) :
    s₁.prevActionPreds = P.warmPreds entries.length last e := by
  have hpreds : s.prevActionPreds = last.stabilizedPreds := by
    rw [h.preds, hlast, Option.bind_some]
  rw [warmPreds, ← hpreds, ← h.anchor last hlast, hanchor]
  split
  · rename_i hshort
    exact (hprep.fill (by rwa [List.length_map])).1
  · rename_i hlong
    exact hprep.roll (by rw [List.length_map]; exact not_lt.mp hlong)

omit [IsStrictOrderedRing K] in
/-- The entry of a step behind the first frame. -/
theorem callLaw_of_act {s s₁ s₂ : ServerState P} {entries : List (TraceEntry P)}
    (h : TraceInv s entries) {inp : StepInput P} {i : ℕ} {action : P.actionAdapter.Row}
    (hprep : Prepared s (entries.map TraceEntry.toLogEntry) s₁ i) {last : TraceEntry P}
    (hlast : entries.getLast? = some last) (hlater : s₁.nPriorFrames ≠ 1)
    (hact : P.act s₁ inp i = some (action, s₂)) {e : TraceEntry P}
    (he : e = ⟨⟨inp.currentPose, action, s₁.anchorPose⟩, P.modelCall s₁ inp i,
      s₂.prevExecutedAbsoluteAction⟩) :
    (∃ call, CallLaw entries.length last inp e call) ∧
      s₂.prevActionPreds = e.stabilizedPreds ∧ s₂.anchorPose = e.anchor := by
  have hne : entries ≠ [] := by
    rintro rfl
    cases hlast
  have hcount := hprep.count
  rw [List.length_map] at hcount
  obtain ⟨call, row, hcall, hindex, hsample, hlength, hrow, hstab, hpreds, hanchor⟩ :=
    act_later hlater hact
  have hexecuted : s₁.prevExecutedAbsoluteAction = some last.absolute := by
    rw [hprep.executed, List.getLast?_map, hlast]
    rfl
  rw [hexecuted] at hstab
  have hwarm := warmPreds_of_prepared h hprep hlast (congrArg (fun e => e.anchor) he)
  subst he
  refine ⟨⟨call, ?_⟩, ?_, hanchor⟩
  · constructor
    · exact hcall
    · rw [hindex]
      omega
    · rw [hlength, hprep.length_actions]
    · exact ⟨row, hindex ▸ hrow, congrArg Prod.snd hstab⟩
    · rw [hsample, hwarm]
    · intro hshort
      rw [← h.anchor last hlast]
      apply (hprep.fill (by rwa [List.length_map])).2
      rwa [ne_eq, List.map_eq_nil_iff]
  · rw [hpreds, TraceEntry.stabilizedPreds, hcall, Option.map_some, hindex]

include hE h2 in
/-- **One step** of a trace. -/
theorem traceStep_law {s : ServerState P} {entries : List (TraceEntry P)} (h : TraceInv s entries)
    {inp : StepInput P} (hunit : inp.currentPose.IsUnit) :
    ∃ s' e, P.traceStep s inp = some (s', e) ∧ TraceInv s' (entries ++ [e]) ∧
      TraceLaw entries inp e := by
  obtain ⟨action, anchor, s', hstep, hsession⟩ := step_inv hE h.session hunit
  rw [step_eq_traceStep, Option.map_eq_some_iff] at hstep
  rcases hstep with ⟨⟨s'', e⟩, htrace, heq⟩
  obtain ⟨⟨rfl, rfl⟩, rfl⟩ : (e.action = action ∧ e.anchor = anchor) ∧ s'' = s' := by
    simpa using heq
  refine ⟨s'', e, htrace, ?_⟩
  simp only [traceStep, Option.bind_eq_bind, Option.bind_eq_some_iff, Option.pure_def,
    Option.some_inj, Prod.mk.injEq] at htrace
  rcases htrace with ⟨⟨s₁, i⟩, hprepare, ⟨action, s₂⟩, hact, rfl, he⟩
  have hprep := prepare_spec hE h.session hprepare
  have hcount := hprep.count
  rw [List.length_map] at hcount
  have hpose : e.pose = inp.currentPose := by rw [← he]
  have hsession' : SessionInv s₂ ((entries ++ [e]).map TraceEntry.toLogEntry) := by
    rw [List.map_append, List.map_singleton]
    rwa [← hpose] at hsession
  have hexecuted : e.executed = some e.absolute := by
    have hremembered := hsession'.executed
    rw [List.getLast?_map, List.getLast?_concat] at hremembered
    rw [← he] at hremembered ⊢
    exact hremembered
  rcases List.eq_nil_or_concat' entries with rfl | ⟨front, last, hconcat⟩
  · -- the first frame
    have hfirst : s₁.nPriorFrames = 1 := by
      rw [hprep.nPriorFrames, hcount]
      exact min_eq_left (le_trans one_le_two h2)
    obtain ⟨hcall, hpreds, hanchor, hstart⟩ := act_first hfirst hact
    have hnone : e.call = none := by
      rw [← he]
      exact hcall
    refine ⟨⟨hsession', ?_, ?_⟩, ⟨hpose, hexecuted, ?_, ?_⟩⟩
    · have hunset : s.prevActionPreds = none := h.preds
      rw [hpreds, (hprep.fill P.seqLen_pos).1, hunset, List.nil_append]
      simp [TraceEntry.stabilizedPreds, hnone]
    · rintro last ⟨⟩
      exact hanchor.trans (congrArg (fun e : TraceEntry P => e.anchor) he)
    · intro _
      refine ⟨hnone, ?_⟩
      rw [← he]
      exact hstart
    · rintro last ⟨⟩
  · have hlast : entries.getLast? = some last := by rw [hconcat, List.getLast?_concat]
    have hlater : s₁.nPriorFrames ≠ 1 := by
      have hpos : 0 < entries.length := by
        rw [hconcat, List.length_append]
        exact Nat.succ_pos _
      rw [hprep.nPriorFrames, hcount]
      omega
    obtain ⟨hcall, hpreds, hanchor⟩ := callLaw_of_act h hprep hlast hlater hact he.symm
    refine ⟨⟨hsession', ?_, ?_⟩, ⟨hpose, hexecuted, ?_, ?_⟩⟩
    · rw [hpreds, List.getLast?_concat, Option.bind_some]
    · rintro last' hlast'
      rw [List.getLast?_concat, Option.some_inj] at hlast'
      rw [← hlast']
      exact hanchor
    · rintro rfl
      cases hlast
    · intro last' hlast'
      obtain rfl := Option.some_inj.mp (hlast.symm.trans hlast')
      exact hcall

omit [IsStrictOrderedRing K] in
theorem traceInv_reset {s : ServerState P} (hs : WellSized s) (prompt : Option String)
    (textTokensEmbed : Option T) : TraceInv (P.reset s prompt textTokensEmbed) [] := by
  refine ⟨sessionInv_reset hs prompt textTokensEmbed, rfl, ?_⟩
  rintro last ⟨⟩

include hE h2 in
/-- **Traces of sessions.** Every entry follows from the entries before it. -/
theorem tracedSession_law {s : ServerState P} (hs : WellSized s) (prompt : Option String)
    (textTokensEmbed : Option T) {inputs : List (StepInput P)}
    (hunit : ∀ inp ∈ inputs, inp.currentPose.IsUnit) :
    ∃ s' entries, P.tracedSession (P.reset s prompt textTokensEmbed) inputs = some (s', entries) ∧
      P.session (P.reset s prompt textTokensEmbed) inputs =
        some (s', entries.map TraceEntry.toLogEntry) ∧
      entries.length = inputs.length ∧
      ∀ (k : ℕ) inp e, inputs[k]? = some inp → entries[k]? = some e →
        TraceLaw (entries.take k) inp e := by
  have hstep : ∀ (s : ServerState P) (entries : List (TraceEntry P)), ∀ inp ∈ inputs,
      TraceInv s entries → ∃ s' e, P.traceStep s inp = some (s', e) ∧
        TraceInv s' (entries ++ [e]) ∧ TraceLaw entries inp e := by
    intro s entries inp hinp h
    exact traceStep_law hE h2 h (hunit inp hinp)
  obtain ⟨s', entries, hrun, -, hlen, hlaw⟩ :=
    tracedRun_law (traceInv_reset hs prompt textTokensEmbed) hstep
  refine ⟨s', entries, hrun, ?_, hlen, hlaw⟩
  rw [session_eq_tracedSession, tracedSession, hrun]
  rfl

omit [IsStrictOrderedRing K] in
/-- Two steps in a row. -/
theorem callLaw_of_law {entries : List (TraceEntry P)} {inp : StepInput P} {k : ℕ}
    {last e : TraceEntry P} (hlaw : TraceLaw (entries.take (k + 1)) inp e)
    (hlast : entries[k]? = some last) : ∃ call, CallLaw (k + 1) last inp e call := by
  have hk := (List.getElem?_eq_some_iff.mp hlast).1
  have hlen : (entries.take (k + 1)).length = k + 1 := List.length_take_of_le hk
  have hget : (entries.take (k + 1)).getLast? = some last := by
    rw [List.getLast?_eq_getElem?, hlen, Nat.add_sub_cancel,
      List.getElem?_take_of_lt (Nat.lt_succ_self k), hlast]
  obtain ⟨call, hcall⟩ := hlaw.later last hget
  rw [hlen] at hcall
  exact ⟨call, hcall⟩

end Run

end RobotTwinPolicy

end P2PRdt.Robot

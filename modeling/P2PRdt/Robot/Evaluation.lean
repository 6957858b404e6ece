import P2PRdt.Robot.PolicyInfer

/-!
# Evaluating a remote policy

`_eval_remote_policy`: it tries seeds one after the other, plays the expert's
demonstration of each without rendering, and lets the policy act in those whose
demonstration is ready or has a fallback, until it has evaluated as many as were
asked for. The simulator is foreign code. A call of it that raises outside of the
demonstration, and a server that answers with a traceback, end the run.

The run is compared with a list of outcomes, one for each seed: all calls that
the run makes, and all metrics that it writes, are read off the outcomes, and the
outcomes are those of the simulator's answers. The recorder of the videos is left
out.
-/

namespace P2PRdt.Robot

open Lib
open SequenceInference (FullLength)

/-! ## The simulator -/

/-- What an observation of the simulator holds of the entries that are read. -/
structure EnvObservation (F J K : Type) where
  rgb : (camera : String) → Option F
  jointVector : Option J
  leftEndpose : Option (List K)
  leftGripper : Option K
  rightEndpose : Option (List K)
  rightGripper : Option K

/-- An observation with the keys of the policy's dataset. -/
structure FormattedObs (F J : Type) where
  camHigh : F
  camLeftWrist : F
  camRightWrist : F
  state : J
  task : String

def formatObs {F J K : Type} (observation : EnvObservation F J K) (prompt : String) :
    Option (FormattedObs F J) := do
  let camHigh ← observation.rgb "head_camera"
  let camLeftWrist ← observation.rgb "left_camera"
  let camRightWrist ← observation.rgb "right_camera"
  let state ← observation.jointVector
  pure { camHigh, camLeftWrist, camRightWrist, state, task := prompt }

def extractCurrentPose16d {F J K : Type} (observation : EnvObservation F J K) :
    Option (List K) := do
  let leftEndpose ← observation.leftEndpose
  let leftGripper ← observation.leftGripper
  let rightEndpose ← observation.rightEndpose
  let rightGripper ← observation.rightGripper
  pure (leftEndpose ++ [leftGripper] ++ rightEndpose ++ [rightGripper])

/-- What a demonstration may raise; the class `UnStableError` is told apart. -/
inductive DemoFailure where
  | unStable
  | other
  deriving DecidableEq

/-- `episode_info["info"]`. -/
abbrev EpisodeInfo := List (String × String)

/-- A RoboTwin task. Without a result, a call raises. -/
structure TaskEnv (E F J K Q : Type) where
  setupDemo : E → (nowEpNum : ℕ) → (seed : ℤ) → (renderFreq : ℕ) → Option DemoFailure × E
  playOnce : E → Except DemoFailure EpisodeInfo × E
  planSuccess : E → Bool
  checkSuccess : E → Except DemoFailure Bool × E
  modelId : E → Option ℤ
  qposeTag : E → Option ℤ
  closeEnv : E → (clearCache : Option Bool) → Option E
  renderFreq : E → ℕ
  closeViewer : E → Option E
  setInstruction : E → String → E
  getObs : E → Option (EnvObservation F J K × E)
  takeActionCnt : E → ℕ
  stepLim : E → ℕ
  takeAction : E → Q → Option E
  evalSuccess : E → Bool
  generateEpisodeDescriptions : String → EpisodeInfo → (maxDescriptions : ℤ) →
    Option (List (String → Option (List String)))

/-! ## The run -/

structure EvalConfig where
  taskName : String
  taskConfig : String
  policyName : String
  ckptSetting : String
  instructionType : String
  host : String
  port : ℤ
  seed : ℤ
  testNum : ℤ
  renderFreq : ℕ
  clearCacheFreq : ℤ
  currentTime : String

/-- The content of `res.json`. -/
structure EvalMetrics where
  timestamp : String
  taskName : String
  taskConfig : String
  policyName : String
  ckptSetting : String
  instructionType : String
  successNum : ℕ
  totalNum : ℕ
  successRate : ℚ
  latestSeed : ℤ
  serverHost : String
  serverPort : ℤ

/-- A call of the simulator or of the policy, or a file that is written. -/
inductive EvalEvent (Req Q : Type) where
  | setupDemo (nowEpNum : ℕ) (seed : ℤ) (renderFreq : ℕ)
  | playOnce
  | checkSuccess
  | closeEnv (clearCache : Option Bool)
  | setInstruction (instruction : String)
  | infer (request : Req)
  | getObs
  | takeAction (pose : Q)
  | closeViewer
  | writeJson (metrics : EvalMetrics)

/-- Where the loops are: before the next seed, or before the next action with the
instruction and the last observation. -/
inductive EvalPhase (F J K : Type) where
  | choosing
  | acting (instruction : String) (observation : EnvObservation F J K)

/-- The variables of the run. `events` lists what was done so far. -/
structure EvalState (S E F J K Q Req : Type) where
  policy : S
  env : E
  renderFreq : ℕ
  suc : ℕ
  testNum : ℕ
  succSeed : ℕ
  nowSeed : ℤ
  nowId : ℕ
  phase : EvalPhase F J K
  events : List (EvalEvent Req Q)

def buildFallbackEpisodeInfo {E F J K Q : Type} (env : TaskEnv E F J K Q) (taskName : String)
    (e : E) : Option EpisodeInfo :=
  if taskName = "adjust_bottle" then
    match env.modelId e, env.qposeTag e with
    | some modelId, some qposeTag =>
        let armTag := if qposeTag = 1 then "right" else "left"
        some [("\x7bA\x7d", "001_bottle/base" ++ toString modelId), ("\x7ba\x7d", armTag)]
    | _, _ => none
  else none

/-- `choice` is the place that `np.random.choice` draws. -/
def chooseInstruction {E F J K Q : Type} (env : TaskEnv E F J K Q) (taskName : String)
    (episodeInfo : EpisodeInfo) (instructionType : String) (maxDescriptions : ℤ) (choice : ℕ) :
    Option String :=
  match env.generateEpisodeDescriptions taskName episodeInfo maxDescriptions with
  | none => none
  | some [] => some (taskName.replace "_" " ")
  | some (result :: _) =>
      match (result instructionType).getD [] with
      | [] => some (taskName.replace "_" " ")
      | candidates => candidates[choice]?

/-- What the `try` block of a seed leaves, and how far it came. -/
structure DemoResult where
  episodeInfo : Option EpisodeInfo := none
  demoReady : Bool := false
  demoFailure : Option DemoFailure := none
  played : Bool := false
  checked : Bool := false

def DemoResult.events {Req Q : Type} (demo : DemoResult) (nowId : ℕ) (nowSeed : ℤ)
    (renderFreq : ℕ) : List (EvalEvent Req Q) :=
  [.setupDemo nowId nowSeed renderFreq] ++ (if demo.played then [.playOnce] else []) ++
    (if demo.checked then [.checkSuccess] else [])

section Run

variable {E F J K Q T V R W D A S : Type}

/-- The `try` block. -/
def TaskEnv.playDemo (env : TaskEnv E F J K Q) (e : E) (nowId : ℕ) (nowSeed : ℤ)
    (renderFreq : ℕ) : DemoResult × E :=
  match env.setupDemo e nowId nowSeed renderFreq with
  | (some failure, e) => ({ demoFailure := some failure }, e)
  | (none, e) =>
      match env.playOnce e with
      | (.error failure, e) => ({ demoFailure := some failure, played := true }, e)
      | (.ok info, e) =>
          let demo : DemoResult := { episodeInfo := some info, played := true }
          if env.planSuccess e then
            match env.checkSuccess e with
            | (.error failure, e) =>
                ({ demo with demoFailure := some failure, checked := true }, e)
            | (.ok success, e) => ({ demo with demoReady := success, checked := true }, e)
          else (demo, e)

/-- The description that instructions are made from: of the demonstration, if it
is ready, or of the fallback. -/
def DemoResult.instructionInfo (demo : DemoResult) (fallback : Option EpisodeInfo) :
    Option EpisodeInfo :=
  if demo.demoReady then demo.episodeInfo else fallback

/-- The seed is skipped: its demonstration is unstable, or it is not ready and there
is no fallback. -/
def DemoResult.Skips (demo : DemoResult) (fallback : Option EpisodeInfo) : Prop :=
  demo.demoFailure = some .unStable ∨ demo.demoReady = false ∧ fallback = none

/-- A demonstration that is ready has a description. -/
theorem TaskEnv.playDemo_ready {env : TaskEnv E F J K Q} {e e' : E} {nowId : ℕ} {nowSeed : ℤ}
    {renderFreq : ℕ} {demo : DemoResult}
    (h : env.playDemo e nowId nowSeed renderFreq = (demo, e')) (hready : demo.demoReady = true) :
    demo.episodeInfo ≠ none := by
  unfold playDemo at h
  split at h
  · obtain ⟨rfl, -⟩ := Prod.mk.inj h
    cases hready
  · split at h
    · obtain ⟨rfl, -⟩ := Prod.mk.inj h
      cases hready
    · dsimp only at h
      split at h
      · split at h
        · obtain ⟨rfl, -⟩ := Prod.mk.inj h
          cases hready
        · obtain ⟨rfl, -⟩ := Prod.mk.inj h
          exact Option.some_ne_none _
      · obtain ⟨rfl, -⟩ := Prod.mk.inj h
        cases hready

/-- `close_env` after an episode; `true` if there was a viewer, which is closed too. -/
def TaskEnv.closeEpisode (env : TaskEnv E F J K Q) (e : E) (clearCache : Bool) :
    Option (Bool × E) := do
  let e ← env.closeEnv e (some clearCache)
  if env.renderFreq e = 0 then pure (false, e)
  else
    let e ← env.closeViewer e
    pure (true, e)

/-- A run: the policy behind the websocket, the simulator and the arguments. -/
structure EvalRemotePolicy (E F J K F' T Q R W D A : Type) where
  policy : OpenP2PRobotTwinPolicy (FormattedObs F J) (List K) F' T Q R W D A
  env : TaskEnv E F J K Q
  cfg : EvalConfig

namespace EvalRemotePolicy

variable {F' : Type} (X : EvalRemotePolicy E F J K F' T Q R W D A)

abbrev Request (_ : EvalRemotePolicy E F J K F' T Q R W D A) : Type :=
  PolicyRequest (FormattedObs F J) (List K) T D

abbrev Event (X : EvalRemotePolicy E F J K F' T Q R W D A) : Type := EvalEvent X.Request Q

abbrev State (X : EvalRemotePolicy E F J K F' T Q R W D A) : Type :=
  EvalState (InferenceState F' T Q R) E F J K Q X.Request

/-- `model.reset(prompt=instruction)`. -/
def resetRequest (instruction : String) (draws : D) : X.Request where
  textEmb := none
  textEmbeddings := none
  reset := true
  prompt := some instruction
  obs := none
  eePose16d := none
  draws

/-- `model.infer` with an observation and a pose. -/
def inferRequest (payload : FormattedObs F J) (currentPose : List K) (draws : D) : X.Request where
  textEmb := none
  textEmbeddings := none
  reset := false
  prompt := none
  obs := some payload
  eePose16d := some currentPose
  draws

def metrics (suc testNum : ℕ) (nowSeed : ℤ) : EvalMetrics where
  timestamp := X.cfg.currentTime
  taskName := X.cfg.taskName
  taskConfig := X.cfg.taskConfig
  policyName := X.cfg.policyName
  ckptSetting := X.cfg.ckptSetting
  instructionType := X.cfg.instructionType
  successNum := suc
  totalNum := testNum
  successRate := suc / max testNum 1
  latestSeed := nowSeed
  serverHost := X.cfg.host
  serverPort := X.cfg.port

def stSeed : ℤ := 100000 * (1 + X.cfg.seed)

/-- The policy may have served anybody before. -/
def init (earlier : List X.Request) (e : E) : X.State where
  policy := stateAfter X.policy.infer X.policy.newState earlier
  env := e
  renderFreq := X.cfg.renderFreq
  suc := 0
  testNum := 0
  succSeed := 0
  nowSeed := X.stSeed
  nowId := 0
  phase := .choosing
  events := []

/-- From `succ_seed += 1` to the first observation of the episode. -/
def startEpisode (w : X.State) (info : EpisodeInfo) (choice : ℕ) (draws : D) : Option X.State :=
  let w := { w with succSeed := w.succSeed + 1 }
  match X.env.setupDemo w.env w.nowId w.nowSeed w.renderFreq with
  | (some _, _) => none
  | (none, e) => do
      let instruction ← chooseInstruction X.env X.cfg.taskName info X.cfg.instructionType
        X.cfg.testNum choice
      let e := X.env.setInstruction e instruction
      match X.policy.infer w.policy (X.resetRequest instruction draws) with
      | (.error _, _) => none
      | (.ok _, policy) =>
          let (observation, e) ← X.env.getObs e
          some { w with
            policy
            env := e
            phase := .acting instruction observation
            events := w.events ++ [.setupDemo w.nowId w.nowSeed w.renderFreq,
              .setInstruction instruction, .infer (X.resetRequest instruction draws), .getObs] }

/-- One round of the outer loop, up to the loop over the actions. -/
def trySeed (w : X.State) (choice : ℕ) (draws : D) : Option X.State :=
  let renderFreq := w.renderFreq
  let w := { w with renderFreq := 0 }
  let (demo, e) := X.env.playDemo w.env w.nowId w.nowSeed w.renderFreq
  let fallback := buildFallbackEpisodeInfo X.env X.cfg.taskName e
  match X.env.closeEnv e none with
  | none => none
  | some e =>
      let w := { w with
        env := e
        renderFreq
        events := w.events ++ demo.events w.nowId w.nowSeed w.renderFreq ++ [.closeEnv none] }
      if demo.demoFailure = some .unStable then some { w with nowSeed := w.nowSeed + 1 }
      else
        match demo.instructionInfo fallback with
        | none => some { w with nowSeed := w.nowSeed + 1 }
        | some info => X.startEpisode w info choice draws

def clearsCache (succSeed : ℕ) : Bool := ((succSeed + 1 : ℕ) : ℤ) % X.cfg.clearCacheFreq = 0

/-- What is done after an episode; `viewer` says whether there was one. -/
def closingEvents (succSeed : ℕ) (viewer : Bool) (metrics : EvalMetrics) : List X.Event :=
  [.closeEnv (some (X.clearsCache succSeed))] ++ (if viewer then [.closeViewer] else []) ++
    [.writeJson metrics]

/-- What follows the loop over the actions. -/
def finishEpisode (w : X.State) (succ : Bool) : Option X.State :=
  let w := { w with suc := if succ then w.suc + 1 else w.suc, nowId := w.nowId + 1 }
  if X.cfg.clearCacheFreq = 0 then none
  else
    match X.env.closeEpisode w.env (X.clearsCache w.succSeed) with
    | none => none
    | some (viewer, e) =>
        let w := { w with testNum := w.testNum + 1 }
        some { w with
          env := e
          nowSeed := w.nowSeed + 1
          phase := .choosing
          events := w.events ++
            X.closingEvents w.succSeed viewer (X.metrics w.suc w.testNum w.nowSeed) }

/-- The pose of a response that is executed. -/
def executed : PolicyResponse A Q R → Option Q
  | .ok _ _ => none
  | .actions _ _ action16dAbsolute _ _ => some action16dAbsolute

/-- One round of the loop over the actions, with what follows the last one. -/
def act (w : X.State) (instruction : String) (observation : EnvObservation F J K) (draws : D) :
    Option X.State :=
  if X.env.takeActionCnt w.env < X.env.stepLim w.env then do
    let currentPose ← extractCurrentPose16d observation
    let payload ← formatObs observation instruction
    let request := X.inferRequest payload currentPose draws
    match X.policy.infer w.policy request with
    | (.error _, _) => none
    | (.ok response, policy) =>
        let pose ← executed response
        let e ← X.env.takeAction w.env pose
        let (observation, e) ← X.env.getObs e
        let _ ← extractCurrentPose16d observation
        let w := { w with
          policy
          env := e
          phase := .acting instruction observation
          events := w.events ++ [.infer request, .takeAction pose, .getObs] }
        if X.env.evalSuccess e then X.finishEpisode w true else some w
  else X.finishEpisode w false

/-- A round of the loop that the run is in. There is none after the last seed. -/
def step (w : X.State) (choice : ℕ) (draws : D) : Option X.State :=
  match w.phase with
  | .choosing =>
      if (w.succSeed : ℤ) < X.cfg.testNum then X.trySeed w choice draws else none
  | .acting instruction observation => X.act w instruction observation draws

/-- The states between the rounds, whatever is drawn. -/
def Reachable (earlier : List X.Request) (e : E) (w : X.State) : Prop :=
  Reach (· = X.init earlier e) (fun w w' => ∃ choice draws, X.step w choice draws = some w') w

/-! ## The outcomes of the seeds -/

/-- An action of an episode: the request for it and the pose that was executed. -/
structure EpisodeStep (X : EvalRemotePolicy E F J K F' T Q R W D A) where
  payload : FormattedObs F J
  currentPose : List K
  draws : D
  pose : Q

variable {X}

def EpisodeStep.request (st : X.EpisodeStep) : X.Request :=
  X.inferRequest st.payload st.currentPose st.draws

/-- What the policy is asked in an episode. -/
def requests (instruction : String) (resetDraws : D) (steps : List X.EpisodeStep) :
    List X.Request :=
  X.resetRequest instruction resetDraws :: steps.map EpisodeStep.request

/-- A new policy that is asked all this, and nothing else, answers the reset and
the poses that were executed. -/
def AnsweredFresh (instruction : String) (resetDraws : D) (steps : List X.EpisodeStep) : Prop :=
  ∃ response : PolicyResponse A Q R, ∃ responses : List (PolicyResponse A Q R),
    answers X.policy.infer X.policy.newState (requests instruction resetDraws steps) =
      .ok response :: responses.map .ok ∧
    responses.map executed = steps.map fun st => some st.pose

variable (X) in
/-- An episode that came to its end. What was done in it depends on the policy as
on a new one. -/
structure Episode where
  demo : DemoResult
  instruction : String
  resetDraws : D
  steps : List X.EpisodeStep
  success : Bool
  viewer : Bool
  answered : AnsweredFresh instruction resetDraws steps

variable (X) in
inductive SeedOutcome where
  | skipped (demo : DemoResult)
  | evaluated (episode : X.Episode)

/-- What is done for a seed up to the last of `steps`, when `n` episodes came before. -/
def openEvents (n : ℕ) (seed : ℤ) (demo : DemoResult) (instruction : String) (resetDraws : D)
    (steps : List X.EpisodeStep) : List X.Event :=
  demo.events n seed 0 ++ [.closeEnv none, .setupDemo n seed X.cfg.renderFreq,
    .setInstruction instruction, .infer (X.resetRequest instruction resetDraws), .getObs] ++
    steps.flatMap fun st => [.infer st.request, .takeAction st.pose, .getObs]

/-- What is done for a seed, after `n` episodes of which `suc` were a success. -/
def seedEvents (suc n : ℕ) (seed : ℤ) : X.SeedOutcome → List X.Event
  | .skipped demo => demo.events n seed 0 ++ [.closeEnv none]
  | .evaluated ep =>
      openEvents n seed ep.demo ep.instruction ep.resetDraws ep.steps ++
        X.closingEvents (n + 1) ep.viewer (X.metrics (suc + ep.success.toNat) (n + 1) seed)

def SeedOutcome.isEvaluated : X.SeedOutcome → Bool
  | .skipped _ => false
  | .evaluated _ => true

def SeedOutcome.isSuccess : X.SeedOutcome → Bool
  | .skipped _ => false
  | .evaluated ep => ep.success

/-- What is done for seeds with these outcomes, one after the other from `seed` on. -/
def trace (suc n : ℕ) (seed : ℤ) : List X.SeedOutcome → List X.Event
  | [] => []
  | o :: outcomes =>
      seedEvents suc n seed o ++
        trace (suc + o.isSuccess.toNat) (n + o.isEvaluated.toNat) (seed + 1) outcomes

theorem trace_concat (outcomes : List X.SeedOutcome) (o : X.SeedOutcome) (suc n : ℕ) (seed : ℤ) :
    trace suc n seed (outcomes ++ [o]) =
      trace suc n seed outcomes ++
        seedEvents (suc + outcomes.countP SeedOutcome.isSuccess)
          (n + outcomes.countP SeedOutcome.isEvaluated) (seed + outcomes.length) o := by
  induction outcomes generalizing suc n seed with
  | nil => simp [trace]
  | cons first outcomes ih =>
      have hcount : ∀ p : X.SeedOutcome → Bool,
          (first :: outcomes).countP p = (p first).toNat + outcomes.countP p := by
        intro p
        rw [List.countP_cons]
        cases p first <;> simp [Nat.add_comm]
      rw [List.cons_append, trace, trace, ih, hcount, hcount, List.append_assoc,
        List.length_cons, Nat.add_assoc, Nat.add_assoc, Nat.cast_succ, add_right_comm seed 1,
        add_assoc seed]

/-! ## The simulator's part in the outcomes -/

variable (X) in
/-- From the simulator before a seed to the first observation of its episode. -/
inductive Begins (n : ℕ) (seed : ℤ) (e : E) :
    DemoResult → String → E → EnvObservation F J K → Prop
  | intro {demo : DemoResult} {info : EpisodeInfo} {choice : ℕ} {instruction : String}
      {played closed ready e' : E} {observation : EnvObservation F J K} :
      X.env.playDemo e n seed 0 = (demo, played) →
      ¬ demo.Skips (buildFallbackEpisodeInfo X.env X.cfg.taskName played) →
      demo.instructionInfo (buildFallbackEpisodeInfo X.env X.cfg.taskName played) = some info →
      X.env.closeEnv played none = some closed →
      X.env.setupDemo closed n seed X.cfg.renderFreq = (none, ready) →
      chooseInstruction X.env X.cfg.taskName info X.cfg.instructionType X.cfg.testNum choice =
        some instruction →
      X.env.getObs (X.env.setInstruction ready instruction) = some (observation, e') →
      Begins n seed e demo instruction e' observation

/-- An action, from the observation before it to the one after it. -/
structure Round (instruction : String) (e : E) (observation : EnvObservation F J K)
    (st : X.EpisodeStep) (e' : E) (observation' : EnvObservation F J K) : Prop where
  within : X.env.takeActionCnt e < X.env.stepLim e
  formatted : formatObs observation instruction = some st.payload
  posed : extractCurrentPose16d observation = some st.currentPose
  taken : ∃ moved, X.env.takeAction e st.pose = some moved ∧
    X.env.getObs moved = some (observation', e')

/-- The last of `steps` was not a success. -/
def GoesOn (steps : List X.EpisodeStep) (e : E) : Prop :=
  steps = [] ∨ X.env.evalSuccess e = false

/-- The actions of an episode so far. -/
inductive Acts (instruction : String) (e₀ : E) (observation₀ : EnvObservation F J K) :
    List X.EpisodeStep → E → EnvObservation F J K → Prop
  | nil : Acts instruction e₀ observation₀ [] e₀ observation₀
  | concat {steps : List X.EpisodeStep} {st : X.EpisodeStep} {e e' : E}
      {observation observation' : EnvObservation F J K} :
      Acts instruction e₀ observation₀ steps e observation → GoesOn steps e →
      Round instruction e observation st e' observation' →
      Acts instruction e₀ observation₀ (steps ++ [st]) e' observation'

/-- The loop over the actions is left after `steps`. -/
def Ends (steps : List X.EpisodeStep) (e : E) : (success : Bool) → Prop
  | true => steps ≠ [] ∧ X.env.evalSuccess e = true
  | false => GoesOn steps e ∧ X.env.stepLim e ≤ X.env.takeActionCnt e

/-- A seed, when `n` episodes came before, from the simulator before it to the one
after it. -/
inductive SeedRun (n : ℕ) (seed : ℤ) (e : E) : X.SeedOutcome → E → Prop
  | skipped {demo : DemoResult} {played e' : E} :
      X.env.playDemo e n seed 0 = (demo, played) →
      demo.Skips (buildFallbackEpisodeInfo X.env X.cfg.taskName played) →
      X.env.closeEnv played none = some e' → SeedRun n seed e (.skipped demo) e'
  | evaluated {ep : X.Episode} {begun ended e' : E}
      {observation observation' : EnvObservation F J K} :
      X.Begins n seed e ep.demo ep.instruction begun observation →
      Acts ep.instruction begun observation ep.steps ended observation' →
      Ends ep.steps ended ep.success →
      X.env.closeEpisode ended (X.clearsCache (n + 1)) = some (ep.viewer, e') →
      SeedRun n seed e (.evaluated ep) e'

/-- The seeds from `st_seed` on, one after the other. -/
inductive SeedsRun (e₀ : E) : List X.SeedOutcome → E → Prop
  | nil : SeedsRun e₀ [] e₀
  | concat {outcomes : List X.SeedOutcome} {o : X.SeedOutcome} {e e' : E} :
      SeedsRun e₀ outcomes e →
      SeedRun (outcomes.countP SeedOutcome.isEvaluated) (X.stSeed + outcomes.length) e o e' →
      SeedsRun e₀ (outcomes ++ [o]) e'

/-! ## What a round does -/

theorem startEpisode_cases {w w' : X.State} {info : EpisodeInfo} {choice : ℕ} {draws : D}
    (h : X.startEpisode w info choice draws = some w') :
    ∃ ready e instruction observation response policy,
      X.env.setupDemo w.env w.nowId w.nowSeed w.renderFreq = (none, ready) ∧
      chooseInstruction X.env X.cfg.taskName info X.cfg.instructionType X.cfg.testNum choice =
        some instruction ∧
      X.policy.infer w.policy (X.resetRequest instruction draws) = (.ok response, policy) ∧
      X.env.getObs (X.env.setInstruction ready instruction) = some (observation, e) ∧
      w' = { w with
        policy
        env := e
        succSeed := w.succSeed + 1
        phase := .acting instruction observation
        events := w.events ++ [.setupDemo w.nowId w.nowSeed w.renderFreq,
          .setInstruction instruction, .infer (X.resetRequest instruction draws), .getObs] } := by
  rw [startEpisode] at h
  dsimp only at h
  split at h
  · cases h
  · rename_i ready hready
    simp only [Option.bind_eq_bind, Option.bind_eq_some_iff] at h
    rcases h with ⟨instruction, hchoose, h⟩
    split at h
    · cases h
    · rename_i response policy hinfer
      rcases Option.bind_eq_some_iff.mp h with ⟨⟨observation, e⟩, hobs, hw⟩
      exact ⟨ready, e, instruction, observation, response, policy, hready, hchoose, hinfer, hobs,
        (Option.some.inj hw).symm⟩

/-- A seed is skipped, or its episode begins. -/
theorem trySeed_cases {w w' : X.State} {choice : ℕ} {draws : D}
    (hfreq : w.renderFreq = X.cfg.renderFreq) (h : X.trySeed w choice draws = some w') :
    (∃ demo e, SeedRun w.nowId w.nowSeed w.env (.skipped (X := X) demo) e ∧ w' = { w with
      env := e
      nowSeed := w.nowSeed + 1
      events := w.events ++ demo.events w.nowId w.nowSeed 0 ++ [.closeEnv none] }) ∨
    ∃ demo e instruction observation response policy,
      X.Begins w.nowId w.nowSeed w.env demo instruction e observation ∧
      X.policy.infer w.policy (X.resetRequest instruction draws) = (.ok response, policy) ∧
      w' = { w with
        policy
        env := e
        succSeed := w.succSeed + 1
        phase := .acting instruction observation
        events := w.events ++
          openEvents w.nowId w.nowSeed demo instruction draws [] } := by
  rw [trySeed] at h
  dsimp only at h
  rcases hplay : X.env.playDemo w.env w.nowId w.nowSeed 0 with ⟨demo, played⟩
  rw [hplay] at h
  dsimp only at h
  split at h
  · cases h
  · rename_i closed hclose
    split at h
    · rename_i hunstable
      exact .inl ⟨demo, closed, .skipped hplay (.inl hunstable) hclose, (Option.some.inj h).symm⟩
    · rename_i hstable
      split at h
      · rename_i hnone
        rw [DemoResult.instructionInfo] at hnone
        split at hnone
        · rename_i hready
          exact absurd hnone (TaskEnv.playDemo_ready hplay hready)
        · rename_i hready
          exact .inl ⟨demo, closed,
            .skipped hplay (.inr ⟨Bool.eq_false_iff.mpr hready, hnone⟩) hclose,
            (Option.some.inj h).symm⟩
      · rename_i info hinfo
        right
        have hgoes : ¬ demo.Skips (buildFallbackEpisodeInfo X.env X.cfg.taskName played) := by
          rintro (hunstable | ⟨hready, hnone⟩)
          · exact hstable hunstable
          · rw [DemoResult.instructionInfo, hready, hnone] at hinfo
            cases hinfo
        obtain ⟨ready, e, instruction, observation, response, policy, hsetup, hchoose, hinfer,
          hobs, rfl⟩ := startEpisode_cases h
        rw [hfreq] at hsetup
        refine ⟨demo, e, instruction, observation, response, policy,
          .intro hplay hgoes hinfo hclose hsetup hchoose hobs, hinfer, ?_⟩
        simp [openEvents, hfreq]

theorem finishEpisode_cases {w w' : X.State} {succ : Bool}
    (h : X.finishEpisode w succ = some w') :
    ∃ viewer e, X.env.closeEpisode w.env (X.clearsCache w.succSeed) = some (viewer, e) ∧
      w' = { w with
        env := e
        suc := w.suc + succ.toNat
        testNum := w.testNum + 1
        nowId := w.nowId + 1
        nowSeed := w.nowSeed + 1
        phase := .choosing
        events := w.events ++ X.closingEvents w.succSeed viewer
          (X.metrics (w.suc + succ.toNat) (w.testNum + 1) w.nowSeed) } := by
  have hsuc : (if succ = true then w.suc + 1 else w.suc) = w.suc + succ.toNat := by
    cases succ <;> rfl
  rw [finishEpisode] at h
  dsimp only at h
  split at h
  · cases h
  · split at h
    · cases h
    · rename_i viewer e hclose
      rw [hsuc] at h
      exact ⟨viewer, e, hclose, (Option.some.inj h).symm⟩

/-- An action is executed, after which the episode may be over, or the episode is
over without another one. -/
theorem act_cases {w w' : X.State} {instruction : String} {observation : EnvObservation F J K}
    {draws : D} (h : X.act w instruction observation draws = some w') :
    (X.env.stepLim w.env ≤ X.env.takeActionCnt w.env ∧ X.finishEpisode w false = some w') ∨
    ∃ e observation' response policy, ∃ st : X.EpisodeStep,
      Round instruction w.env observation st e observation' ∧
      X.policy.infer w.policy st.request = (.ok response, policy) ∧
      executed response = some st.pose ∧
      (X.env.evalSuccess e = false ∧ w' = { w with
          policy
          env := e
          phase := .acting instruction observation'
          events := w.events ++ [.infer st.request, .takeAction st.pose, .getObs] } ∨
        X.env.evalSuccess e = true ∧ X.finishEpisode { w with
          policy
          env := e
          phase := .acting instruction observation'
          events := w.events ++ [.infer st.request, .takeAction st.pose, .getObs] } true =
            some w') := by
  rw [act] at h
  split at h
  · rename_i hwithin
    right
    simp only [Option.bind_eq_bind, Option.bind_eq_some_iff] at h
    rcases h with ⟨currentPose, hposed, payload, hformat, h⟩
    split at h
    · cases h
    · rename_i response policy hinfer
      simp only [Option.bind_eq_some_iff] at h
      rcases h with ⟨pose, hpose, moved, hmoved, ⟨observation', e⟩, hobs, _, -, h⟩
      refine ⟨e, observation', response, policy, ⟨payload, currentPose, draws, pose⟩,
        ⟨hwithin, hformat, hposed, moved, hmoved, hobs⟩, hinfer, hpose, ?_⟩
      split at h
      · rename_i hsuccess
        exact .inr ⟨hsuccess, h⟩
      · rename_i hsuccess
        exact .inl ⟨Bool.eq_false_iff.mpr hsuccess, (Option.some.inj h).symm⟩
  · rename_i hwithin
    exact .inl ⟨Nat.le_of_not_lt hwithin, h⟩

/-! ## Every run follows its outcomes -/

/-- The variables between two seeds are those of the outcomes. -/
structure Counts (w : X.State) (outcomes : List X.SeedOutcome) : Prop where
  suc : w.suc = outcomes.countP SeedOutcome.isSuccess
  testNum : w.testNum = outcomes.countP SeedOutcome.isEvaluated
  nowId : w.nowId = outcomes.countP SeedOutcome.isEvaluated
  nowSeed : w.nowSeed = X.stSeed + outcomes.length
  renderFreq : w.renderFreq = X.cfg.renderFreq

/-- A run between two rounds: what was done are the outcomes of the seeds so far,
and the beginning of the episode that is under way. -/
inductive Follows (e₀ : E) (w : X.State) (outcomes : List X.SeedOutcome) : Prop
  | choosing : Counts w outcomes → w.phase = .choosing →
      w.succSeed = outcomes.countP SeedOutcome.isEvaluated →
      w.events = trace 0 0 X.stSeed outcomes → SeedsRun e₀ outcomes w.env →
      FullLength X.policy.inference w.policy → Follows e₀ w outcomes
  | acting {demo : DemoResult} {instruction : String}
      {observation₀ observation : EnvObservation F J K} {e begun : E} (resetDraws : D)
      (steps : List X.EpisodeStep) : Counts w outcomes → w.phase = .acting instruction observation →
      w.succSeed = outcomes.countP SeedOutcome.isEvaluated + 1 →
      w.events = trace 0 0 X.stSeed outcomes ++
        openEvents w.nowId w.nowSeed demo instruction resetDraws steps →
      SeedsRun e₀ outcomes e → X.Begins w.nowId w.nowSeed e demo instruction begun observation₀ →
      Acts instruction begun observation₀ steps w.env observation → GoesOn steps w.env →
      w.policy = stateAfter X.policy.infer X.policy.newState
        (requests instruction resetDraws steps) →
      AnsweredFresh instruction resetDraws steps → Follows e₀ w outcomes

theorem Follows.counts {e₀ : E} {w : X.State} {outcomes : List X.SeedOutcome}
    (hw : Follows e₀ w outcomes) : Counts w outcomes := by
  cases hw with
  | choosing hcounts => exact hcounts
  | acting _ _ hcounts => exact hcounts

theorem openEvents_concat (n : ℕ) (seed : ℤ) (demo : DemoResult) (instruction : String)
    (resetDraws : D) (steps : List X.EpisodeStep) (st : X.EpisodeStep) :
    openEvents n seed demo instruction resetDraws (steps ++ [st]) =
      openEvents n seed demo instruction resetDraws steps ++
        [.infer st.request, .takeAction st.pose, .getObs] := by
  rw [openEvents, List.flatMap_append, ← List.append_assoc]
  rfl

theorem requests_concat (instruction : String) (resetDraws : D) (steps : List X.EpisodeStep)
    (st : X.EpisodeStep) :
    requests instruction resetDraws (steps ++ [st]) =
      requests instruction resetDraws steps ++ [st.request] := by
  rw [requests, List.map_append, ← List.cons_append]
  rfl

theorem AnsweredFresh.concat {instruction : String} {resetDraws : D} {steps : List X.EpisodeStep}
    (h : AnsweredFresh instruction resetDraws steps) {st : X.EpisodeStep}
    {response : PolicyResponse A Q R} {policy : InferenceState F' T Q R}
    (hinfer : X.policy.infer (stateAfter X.policy.infer X.policy.newState
      (requests instruction resetDraws steps)) st.request = (.ok response, policy))
    (hpose : executed response = some st.pose) :
    AnsweredFresh instruction resetDraws (steps ++ [st]) := by
  obtain ⟨first, responses, hanswers, hposes⟩ := h
  refine ⟨first, responses ++ [response], ?_, ?_⟩
  · rw [requests_concat, answers_append, hanswers, answers, answers, hinfer, List.map_append]
    rfl
  · rw [List.map_append, List.map_append, hposes, List.map_singleton, List.map_singleton, hpose]

theorem fullLength_stateAfter {s : InferenceState F' T Q R} (h : FullLength X.policy.inference s)
    (reqs : List X.Request) :
    FullLength X.policy.inference (stateAfter X.policy.infer s reqs) :=
  stateAfter_invariant X.policy.infer (I := FullLength X.policy.inference)
    (fun _ r hs => OpenP2PRobotTwinPolicy.fullLength_infer hs r) h reqs

theorem countP_concat (p : X.SeedOutcome → Bool) (outcomes : List X.SeedOutcome)
    (o : X.SeedOutcome) : (outcomes ++ [o]).countP p = outcomes.countP p + (p o).toNat := by
  rw [List.countP_append, List.countP_singleton]
  cases p o <;> rfl

theorem Follows.skip {e₀ e : E} {w : X.State} {outcomes : List X.SeedOutcome} {demo : DemoResult}
    (hcounts : Counts w outcomes) (hphase : w.phase = .choosing)
    (hsucc : w.succSeed = outcomes.countP SeedOutcome.isEvaluated)
    (hevents : w.events = trace 0 0 X.stSeed outcomes) (hseeds : SeedsRun e₀ outcomes w.env)
    (hpolicy : FullLength X.policy.inference w.policy)
    (hrun : SeedRun w.nowId w.nowSeed w.env (.skipped (X := X) demo) e) :
    Follows (X := X) e₀ { w with
      env := e
      nowSeed := w.nowSeed + 1
      events := w.events ++ demo.events w.nowId w.nowSeed 0 ++ [.closeEnv none] }
      (outcomes ++ [.skipped demo]) := by
  rcases hcounts with ⟨hsuc, htest, hid, hseed, hfreq⟩
  rw [hid, hseed] at hrun
  refine .choosing ⟨?_, ?_, ?_, ?_, hfreq⟩ hphase ?_ ?_ (hseeds.concat hrun) hpolicy
  · rw [countP_concat]
    exact hsuc
  · rw [countP_concat]
    exact htest
  · rw [countP_concat]
    exact hid
  · show w.nowSeed + 1 = _
    rw [hseed, List.length_append, Nat.cast_add, add_assoc]
    rfl
  · rw [countP_concat]
    exact hsucc
  · rw [trace_concat, hevents, Nat.zero_add, Nat.zero_add, ← hid, ← hseed, seedEvents,
      List.append_assoc]

/-- A finished episode is one more outcome. -/
theorem Follows.finish {e₀ e begun : E} {w w' : X.State} {outcomes : List X.SeedOutcome}
    {demo : DemoResult} {instruction : String} {observation₀ observation : EnvObservation F J K}
    {resetDraws : D} {steps : List X.EpisodeStep} {success : Bool} (hcounts : Counts w outcomes)
    (hsucc : w.succSeed = outcomes.countP SeedOutcome.isEvaluated + 1)
    (hevents : w.events = trace 0 0 X.stSeed outcomes ++
      openEvents w.nowId w.nowSeed demo instruction resetDraws steps)
    (hseeds : SeedsRun e₀ outcomes e)
    (hbegins : X.Begins w.nowId w.nowSeed e demo instruction begun observation₀)
    (hacts : Acts instruction begun observation₀ steps w.env observation)
    (hends : Ends steps w.env success)
    (hpolicy : w.policy = stateAfter X.policy.infer X.policy.newState
      (requests instruction resetDraws steps))
    (hanswered : AnsweredFresh instruction resetDraws steps)
    (h : X.finishEpisode w success = some w') :
    ∃ ep : X.Episode, Follows e₀ w' (outcomes ++ [.evaluated ep]) := by
  rcases hcounts with ⟨hsuc, htest, hid, hseed, hfreq⟩
  obtain ⟨viewer, e', hclose, rfl⟩ := finishEpisode_cases h
  let ep : X.Episode := { demo, instruction, resetDraws, steps, success, viewer
                          answered := hanswered }
  have hrun : SeedRun (outcomes.countP SeedOutcome.isEvaluated) (X.stSeed + outcomes.length) e
      (.evaluated ep) e' := by
    rw [hid, hseed] at hbegins
    rw [hsucc] at hclose
    exact .evaluated hbegins hacts hends hclose
  refine ⟨ep, .choosing ⟨?_, ?_, ?_, ?_, hfreq⟩ rfl ?_ ?_ (hseeds.concat hrun) ?_⟩
  · rw [countP_concat, ← hsuc]
    rfl
  · rw [countP_concat, ← htest]
    rfl
  · rw [countP_concat, ← hid]
    rfl
  · show w.nowSeed + 1 = _
    rw [hseed, List.length_append, Nat.cast_add, add_assoc]
    rfl
  · rw [countP_concat]
    exact hsucc
  · rw [trace_concat, Nat.zero_add, Nat.zero_add, ← hid, ← hseed, ← hsuc, seedEvents,
      ← List.append_assoc, ← hevents]
    show w.events ++ _ = w.events ++ _
    rw [hsucc, htest, ← hid]
  · show FullLength X.policy.inference w.policy
    rw [hpolicy]
    exact fullLength_stateAfter OpenP2PRobotTwinPolicy.fullLength_newState _

/-- A round keeps what was done in step with the outcomes. -/
theorem Follows.step {e₀ : E} {w w' : X.State} {outcomes : List X.SeedOutcome} {choice : ℕ}
    {draws : D} (hw : Follows e₀ w outcomes) (h : X.step w choice draws = some w') :
    ∃ more, Follows e₀ w' (outcomes ++ more) := by
  cases hw with
  | choosing hcounts hphase hsucc hevents hseeds hpolicy =>
      rw [EvalRemotePolicy.step, hphase] at h
      dsimp only at h
      split at h
      · rcases trySeed_cases hcounts.renderFreq h with ⟨demo, e, hrun, rfl⟩ | ⟨demo, e, instruction,
          observation, response, policy, hbegins, hinfer, rfl⟩
        · exact ⟨_, Follows.skip hcounts hphase hsucc hevents hseeds hpolicy hrun⟩
        · have hreset : (X.resetRequest instruction draws).reset = true := rfl
          rw [OpenP2PRobotTwinPolicy.infer_forgets hreset w.policy X.policy.newState hpolicy
            OpenP2PRobotTwinPolicy.fullLength_newState] at hinfer
          refine ⟨[], ?_⟩
          rw [List.append_nil]
          refine .acting draws [] ⟨hcounts.suc, hcounts.testNum, hcounts.nowId, hcounts.nowSeed,
            hcounts.renderFreq⟩ rfl (congrArg (· + 1) hsucc) ?_ hseeds hbegins .nil (.inl rfl) ?_
            ⟨response, [], ?_, rfl⟩
          · rw [hevents]
          · exact (congrArg Prod.snd hinfer).symm
          · exact congrArg (fun r => [r.1]) hinfer
      · cases h
  | @acting demo instruction observation₀ observation e begun resetDraws steps hcounts hphase hsucc
      hevents hseeds hbegins hacts hgoes hpolicy hanswered =>
      rw [EvalRemotePolicy.step, hphase] at h
      dsimp only at h
      rcases act_cases h with ⟨hover, hfinish⟩ | ⟨e', observation', response, policy, st, hround,
        hinfer, hpose, hnext⟩
      · have hends : Ends steps w.env false := ⟨hgoes, hover⟩
        obtain ⟨ep, hw'⟩ := Follows.finish hcounts hsucc hevents hseeds hbegins hacts hends hpolicy
          hanswered hfinish
        exact ⟨_, hw'⟩
      · rw [hpolicy] at hinfer
        have hcounts' : Counts (X := X) { w with
            policy
            env := e'
            phase := .acting instruction observation'
            events := w.events ++ [.infer st.request, .takeAction st.pose, .getObs] } outcomes :=
          ⟨hcounts.suc, hcounts.testNum, hcounts.nowId, hcounts.nowSeed, hcounts.renderFreq⟩
        have hevents' : w.events ++ [.infer st.request, .takeAction st.pose, .getObs] =
            trace 0 0 X.stSeed outcomes ++
              openEvents w.nowId w.nowSeed demo instruction resetDraws (steps ++ [st]) := by
          rw [hevents, openEvents_concat, List.append_assoc]
        have hpolicy' : policy = stateAfter X.policy.infer X.policy.newState
            (requests instruction resetDraws (steps ++ [st])) := by
          rw [requests_concat, stateAfter_append]
          exact (congrArg Prod.snd hinfer).symm
        have hacts' := hacts.concat hgoes hround
        have hanswered' := hanswered.concat hinfer hpose
        rcases hnext with ⟨hunsolved, rfl⟩ | ⟨hsolved, hfinish⟩
        · refine ⟨[], ?_⟩
          rw [List.append_nil]
          exact .acting resetDraws (steps ++ [st]) hcounts' rfl hsucc hevents' hseeds hbegins hacts'
            (.inr hunsolved) hpolicy' hanswered'
        · have hends : Ends (steps ++ [st]) e' true := ⟨List.concat_ne_nil _ _, hsolved⟩
          obtain ⟨ep, hw'⟩ := Follows.finish hcounts' hsucc hevents' hseeds hbegins hacts' hends
            hpolicy' hanswered' hfinish
          exact ⟨_, hw'⟩

theorem Reachable.follows {earlier : List X.Request} {e₀ : E} {w : X.State}
    (h : X.Reachable earlier e₀ w) : ∃ outcomes, Follows e₀ w outcomes := by
  apply Reach.invariant _ _ h
  · rintro _ rfl
    refine ⟨[], .choosing ⟨rfl, rfl, rfl, ?_, rfl⟩ rfl rfl rfl .nil ?_⟩
    · exact (Int.add_zero _).symm
    · exact fullLength_stateAfter OpenP2PRobotTwinPolicy.fullLength_newState _
  · rintro w w' ⟨outcomes, hw⟩ ⟨choice, draws, hstep⟩
    obtain ⟨more, hw'⟩ := hw.step hstep
    exact ⟨_, hw'⟩

/-- No more episodes are begun than asked for. -/
theorem Reachable.succSeed_le {earlier : List X.Request} {e₀ : E} {w : X.State}
    (h : X.Reachable earlier e₀ w) : w.succSeed ≤ X.cfg.testNum.toNat := by
  apply Reach.invariant_under (J := fun w => ∃ outcomes, Follows e₀ w outcomes)
    Reachable.follows _ _ h
  · rintro _ rfl
    exact Nat.zero_le _
  · rintro w w' ⟨outcomes, hfollows⟩ hw ⟨choice, draws, hstep⟩
    cases hphase : w.phase with
    | choosing =>
        rw [EvalRemotePolicy.step, hphase] at hstep
        dsimp only at hstep
        split at hstep
        · rename_i hlt
          rcases trySeed_cases hfollows.counts.renderFreq hstep with
            ⟨_, _, -, rfl⟩ | ⟨_, _, _, _, _, _, -, -, rfl⟩
          · exact hw
          · show w.succSeed + 1 ≤ _
            omega
        · cases hstep
    | acting instruction observation =>
        rw [EvalRemotePolicy.step, hphase] at hstep
        have hfinish : ∀ {v : X.State} {succ : Bool}, X.finishEpisode v succ = some w' →
            v.succSeed = w.succSeed → w'.succSeed ≤ X.cfg.testNum.toNat := by
          intro v succ h hv
          obtain ⟨_, _, -, rfl⟩ := finishEpisode_cases h
          exact hv.le.trans hw
        rcases act_cases hstep with ⟨-, h⟩ | ⟨_, _, _, _, _, -, -, -, ⟨-, rfl⟩ | ⟨-, h⟩⟩
        · exact hfinish h rfl
        · exact hw
        · exact hfinish h rfl

/-- The loop over the seeds is over. -/
def Finished (w : X.State) : Prop :=
  w.phase = .choosing ∧ X.cfg.testNum ≤ w.succSeed

/-- **The evaluation reports what it did.** Whatever the simulator and the policy do
and whoever used the policy before, all calls and all files of a run are those of
its outcomes: every seed from `st_seed` on is tried once, in order and closed before
the next, it is skipped only for its demonstration, each report counts the episodes
so far, and in each episode the policy acts as a new one on what is observed. A run
that ends has evaluated as many seeds as asked for. -/
theorem reachable_follows {earlier : List X.Request} {e₀ : E} {w : X.State}
    (h : X.Reachable earlier e₀ w) : ∃ outcomes, Follows e₀ w outcomes ∧
      outcomes.countP SeedOutcome.isSuccess ≤ outcomes.countP SeedOutcome.isEvaluated ∧
      outcomes.countP SeedOutcome.isEvaluated ≤ X.cfg.testNum.toNat ∧
      (Finished w → outcomes.countP SeedOutcome.isEvaluated = X.cfg.testNum.toNat) := by
  obtain ⟨outcomes, hw⟩ := h.follows
  have hle := h.succSeed_le
  refine ⟨outcomes, hw, ?_, ?_, ?_⟩
  · apply List.countP_mono_left
    intro o _ hsuccess
    cases o with
    | skipped => cases hsuccess
    | evaluated ep => rfl
  · cases hw with
    | choosing _ _ hsucc => omega
    | acting _ _ _ _ hsucc => omega
  · rintro ⟨hchoosing, hover⟩
    cases hw with
    | choosing _ _ hsucc => omega
    | acting _ _ _ hphase =>
        rw [hchoosing] at hphase
        cases hphase

end EvalRemotePolicy

end Run

/-! ## A run over four seeds -/

namespace EvalRemotePolicy

structure Bottle where
  seed : ℤ
  actions : ℕ
  renderFreq : ℕ

/-- Of four seeds, one is unstable, one has a fallback only, one fails without a
fallback and one is demonstrated. -/
def bottles : TaskEnv Bottle ℕ Unit ℕ ℕ where
  setupDemo := fun _ _ seed renderFreq =>
    (if seed % 4 = 0 then some .unStable else if seed % 4 = 2 then some .other else none,
      ⟨seed, 0, renderFreq⟩)
  playOnce := fun e => (.ok [], e)
  planSuccess := fun e => e.seed % 4 = 3
  checkSuccess := fun e => (.ok true, e)
  modelId := fun e => if e.seed % 4 = 1 then some 7 else none
  qposeTag := fun _ => some 1
  closeEnv := fun e _ => some e
  renderFreq := Bottle.renderFreq
  closeViewer := some
  setInstruction := fun e _ => e
  getObs := fun e =>
    some (⟨fun _ => some e.actions, some (), some [e.actions], some 2, some [3], some 4⟩, e)
  takeActionCnt := Bottle.actions
  stepLim := fun e => if e.seed % 4 = 3 then 1 else 5
  takeAction := fun e _ => some { e with actions := e.actions + 1 }
  evalSuccess := fun e => e.seed % 4 = 1 && 2 ≤ e.actions
  generateEpisodeDescriptions := fun _ info _ => some [fun _ => some ["pour", toString info.length]]

def overBottles : EvalRemotePolicy Bottle ℕ Unit ℕ (List ℕ) ℕ ℕ ℕ ℕ ℕ ℕ where
  policy :=
    { inference := SequenceInference.addingUp
      prepareFrame := fun obs => some [obs.camHigh]
      asPose := fun pose => some pose.sum
      denormalize := id
      toCompactExecutionAction := id
      composeCompactRelativeAction := fun action anchor => some (action + anchor) }
  env := bottles
  cfg :=
    { taskName := "adjust_bottle", taskConfig := "demo_clean", policyName := "p2p"
      ckptSetting := "last", instructionType := "seen", host := "127.0.0.1", port := 29056
      seed := 0, testNum := 2, renderFreq := 20, clearCacheFreq := 5, currentTime := "" }

/-- The second seed is a success after two actions, and the fourth one has reached its
limit after one. -/
theorem reachable_fourSeeds : ∃ w, overBottles.Reachable [] ⟨0, 0, 0⟩ w ∧ Finished w ∧
    w.suc = 1 ∧ w.nowSeed = 100004 ∧ w.events.length = 34 := by
  have hstart : overBottles.Reachable [] ⟨0, 0, 0⟩ (overBottles.init [] ⟨0, 0, 0⟩) := .start rfl
  have hunstable := hstart.next ⟨0, 0, rfl⟩
  have hfallback := hunstable.next ⟨0, 0, rfl⟩
  have hacted := hfallback.next ⟨0, 0, rfl⟩
  have hsolved := hacted.next ⟨0, 0, rfl⟩
  have hfailed := hsolved.next ⟨0, 0, rfl⟩
  have hready := hfailed.next ⟨0, 0, rfl⟩
  have hstopped := hready.next ⟨0, 0, rfl⟩
  have hover := hstopped.next ⟨0, 0, rfl⟩
  exact ⟨_, hover, ⟨rfl, le_rfl⟩, rfl, rfl, rfl⟩

theorem reachable_follows_fourSeeds : ∃ w, ∃ outcomes : List overBottles.SeedOutcome,
    Follows ⟨0, 0, 0⟩ w outcomes ∧ w.events.length = 34 ∧ outcomes.length = 4 ∧
    outcomes.countP SeedOutcome.isEvaluated = 2 ∧ outcomes.countP SeedOutcome.isSuccess = 1 := by
  obtain ⟨w, hw, hover, hsuc, hseed, hevents⟩ := reachable_fourSeeds
  obtain ⟨outcomes, hfollows, -, -, hall⟩ := reachable_follows hw
  refine ⟨w, outcomes, hfollows, hevents, ?_, hall hover, ?_⟩
  · have hnow := hfollows.counts.nowSeed
    have hst : overBottles.stSeed = 100000 := rfl
    omega
  · exact hfollows.counts.suc.symm.trans hsuc

end EvalRemotePolicy

end P2PRdt.Robot

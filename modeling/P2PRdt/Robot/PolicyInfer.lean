import P2PRdt.Robot.ResetIsolation
import P2PRdt.Robot.WebsocketPolicy

/-!
# Requests to the RoboTwin policy

`OpenP2PRobotTwinPolicy.infer` answers resets and observations, and raises at
anything else. All clients of a server share its one inference state; what keeps
their episodes apart is that an episode begins with a reset. The theorem of this
file is about a log of the websocket server: from a reset on, all clients get what
a new server would answer to the same calls, whoever was served before and
whatever failed.
-/

namespace P2PRdt.Robot

open Lib

/-- The keys of a request that `infer` reads, and the random numbers that are
drawn while it is answered. `reset` is the truth value of the entry. -/
structure PolicyRequest (O V T D : Type) where
  textEmb : Option T
  textEmbeddings : Option T
  reset : Bool
  prompt : Option String
  obs : Option O
  eePose16d : Option V
  draws : D

inductive PolicyResponse (A Q R : Type) where
  | ok (prompt : String) (usedTextEmbedding : Bool)
  | actions (action : A) (action16d action16dAbsolute actionReference16d : Q)
      (normalizedAction : R)

/-- What `infer` raises itself, or lets through from the code it calls. -/
inductive PolicyError where
  | noObs
  | noPose
  | raised
  deriving DecidableEq

def PolicyError.text : PolicyError → Option String
  | .noObs => some "Request must provide `obs` or set `reset=True`."
  | .noPose => some "Request must provide `ee_pose_16d` for RoboTwin evaluation."
  | .raised => none

/-- The policy with its observation and action adapters. Observations have type
`O`, poses as they are sent `V` and full actions `A`. -/
structure OpenP2PRobotTwinPolicy (O V F T Q R W D A : Type) where
  inference : SequenceInference F T Q R W D
  prepareFrame : O → Option F
  asPose : V → Option Q
  denormalize : R → A
  toCompactExecutionAction : A → Q
  composeCompactRelativeAction : Q → Q → Option Q

namespace OpenP2PRobotTwinPolicy

variable {O V F T Q R W D A : Type} (P : OpenP2PRobotTwinPolicy O V F T Q R W D A)

/-- The end of `infer`, for an action of `step`. -/
def respond (normalizedAction : R) (anchorPose : Q) : Except PolicyError (PolicyResponse A Q R) :=
  let fullAction := P.denormalize normalizedAction
  let compactAction := P.toCompactExecutionAction fullAction
  match P.composeCompactRelativeAction compactAction anchorPose with
  | none => .error .raised
  | some absoluteCompactAction =>
      .ok (.actions fullAction compactAction absoluteCompactAction anchorPose normalizedAction)

/-- `infer` for a request with an observation and a pose. -/
def inferAction (s : InferenceState F T Q R) (request : PolicyRequest O V T D) (obs : O)
    (pose : V) (textTokensEmbed : Option T) :
    Except PolicyError (PolicyResponse A Q R) × InferenceState F T Q R :=
  match P.prepareFrame obs with
  | none => (.error .raised, s)
  | some frame =>
      let call : StepCall F T Q D :=
        { frame, currentPose := P.asPose pose, prompt := request.prompt, textTokensEmbed
          draws := request.draws }
      match P.inference.step s call with
      | (none, s) => (.error .raised, s)
      | (some (normalizedAction, anchorPose), s) => (P.respond normalizedAction anchorPose, s)

def infer (s : InferenceState F T Q R) (request : PolicyRequest O V T D) :
    Except PolicyError (PolicyResponse A Q R) × InferenceState F T Q R :=
  let textTokensEmbed := request.textEmb <|> request.textEmbeddings
  if request.reset then
    let s := P.inference.reset s request.prompt textTokensEmbed
    (.ok (.ok s.currentPrompt textTokensEmbed.isSome), s)
  else
    match request.obs with
    | none => (.error .noObs, s)
    | some obs =>
        match request.eePose16d with
        | none => (.error .noPose, s)
        | some pose => P.inferAction s request obs pose textTokensEmbed

/-- The inference state that `__init__` leaves. -/
def newState : InferenceState F T Q R := P.inference.reset P.inference.initState (some "") none

/-- `warmup` with the dummy observation and pose; there is no state when `infer`
raises. -/
def warmup (s : InferenceState F T Q R) (dummyObs : O) (dummyPose : V) (draws : D) :
    Option (InferenceState F T Q R) :=
  let request : PolicyRequest O V T D :=
    { textEmb := none, textEmbeddings := none, reset := false, prompt := some "warmup"
      obs := some dummyObs, eePose16d := some dummyPose, draws }
  match P.infer (P.inference.reset s (some "warmup") none) request with
  | (.error _, _) => none
  | (.ok _, s) => some (P.inference.reset s (some "") none)

/-! ## A reset forgets -/

variable {P}

open SequenceInference (FullLength)

theorem fullLength_infer {s : InferenceState F T Q R} (h : FullLength P.inference s)
    (request : PolicyRequest O V T D) : FullLength P.inference (P.infer s request).2 := by
  unfold infer
  split
  · exact SequenceInference.fullLength_reset h _ _
  · cases request.obs with
    | none => exact h
    | some obs =>
        cases request.eePose16d with
        | none => exact h
        | some pose =>
            dsimp only
            unfold inferAction
            cases P.prepareFrame obs with
            | none => exact h
            | some frame =>
                have hstep := SequenceInference.fullLength_step h
                  { frame, currentPose := P.asPose pose, prompt := request.prompt
                    textTokensEmbed := request.textEmb <|> request.textEmbeddings
                    draws := request.draws }
                dsimp only
                split
                · rename_i s' heq
                  rwa [heq] at hstep
                · rename_i action anchor s' heq
                  rwa [heq] at hstep

theorem fullLength_newState : FullLength P.inference P.newState :=
  SequenceInference.fullLength_reset (SequenceInference.Reachable.fullLength (.start rfl)) _ _

theorem infer_forgets {request : PolicyRequest O V T D} (hreset : request.reset = true) :
    Forgets P.infer (FullLength P.inference) request := by
  intro s t hs ht
  rw [infer, infer, if_pos hreset, if_pos hreset, SequenceInference.reset_eq_new hs,
    SequenceInference.reset_eq_new ht]

/-- The warmup leaves no trace. -/
theorem warmup_newState {dummyObs : O} {dummyPose : V} {draws : D}
    {s : InferenceState F T Q R} (h : P.warmup P.newState dummyObs dummyPose draws = some s) :
    s = P.newState := by
  rw [warmup] at h
  split at h
  · cases h
  · rename_i response s' heq
    cases h
    have hs' : FullLength P.inference s' := by
      have hreset : FullLength P.inference (P.inference.reset P.newState (some "warmup") none) :=
        SequenceInference.fullLength_reset fullLength_newState _ _
      have hinfer := fullLength_infer hreset
        { textEmb := none, textEmbeddings := none, reset := false, prompt := some "warmup"
          obs := some dummyObs, eePose16d := some dummyPose, draws }
      rwa [heq] at hinfer
    rw [SequenceInference.reset_eq_new hs', newState,
      SequenceInference.reset_eq_new (SequenceInference.Reachable.fullLength (.start rfl))]

/-! ## Served over websockets -/

variable {B τ : Type}

/-- How the messages of `infer` travel, and how an exception is printed. -/
structure PolicyWire (O V T D A Q R B τ : Type) where
  unpackb : B → Except String (PolicyRequest O V T D)
  pack : PolicyResponse A Q R → ServerTiming τ → Except String B
  traceback : PolicyError → String
  metadata : B

variable (P) in
/-- `WebsocketPolicyServer(policy=policy, ...)`. -/
def served (wire : PolicyWire O V T D A Q R B τ) :
    WebsocketPolicyServer (InferenceState F T Q R) B (PolicyRequest O V T D)
      (PolicyResponse A Q R) τ where
  infer := fun s request =>
    let r := P.infer s request
    (r.1.mapError wire.traceback, r.2)
  unpackb := wire.unpackb
  pack := wire.pack
  metadata := wire.metadata

variable {wire : PolicyWire O V T D A Q R B τ}

theorem fullLength_handle (s : InferenceState F T Q R) (call : PolicyCall B τ)
    (h : FullLength P.inference s) :
    FullLength P.inference ((P.served wire).handle s call).2 := by
  rw [WebsocketPolicyServer.handle_state]
  cases (P.served wire).unpackb call.payload with
  | error traceback => exact h
  | ok request => exact fullLength_infer h request

theorem handle_forgets {call : PolicyCall B τ} {request : PolicyRequest O V T D}
    (hunpack : wire.unpackb call.payload = .ok request) (hreset : request.reset = true) :
    Forgets (P.served wire).handle (FullLength P.inference) call := by
  intro s t hs ht
  apply WebsocketPolicyServer.handle_eq _ hunpack
  simp only [served, infer_forgets hreset s t hs ht]

/-- **A reset cuts off the past.** On a server that was warmed up or not, let a client
reset at any point of the log, with calls of any clients before and after it. Each
response to a call from the reset on is what a new policy answers to the calls since the
reset, served in this order. -/
theorem reachable_resetIsolates {s₀ : InferenceState F T Q R} {dummyObs : O} {dummyPose : V}
    {draws : D}
    (hstart : s₀ = P.newState ∨ P.warmup P.newState dummyObs dummyPose draws = some s₀)
    {w : ServedPolicy (InferenceState F T Q R) B τ} (h : (P.served wire).Reachable s₀ w)
    {before since : List (ℕ × PolicyCall B τ)} {resetting : ℕ} {call : PolicyCall B τ}
    (hlog : w.log = before ++ (resetting, call) :: since)
    {request : PolicyRequest O V T D} (hunpack : wire.unpackb call.payload = .ok request)
    (hreset : request.reset = true) {i k : ℕ} {frame : WebsocketFrame B}
    (hframe : (w.connections i).received[(requestsOf i before).length + k + 1]? = some frame) :
    (answersTo (P.served wire).handle i P.newState ((resetting, call) :: since))[k]? =
      some frame := by
  obtain rfl : s₀ = P.newState := hstart.elim id warmup_newState
  have hbooks := h.servedInv.books i
  have hprefix := (Connection.Books.prefix_of_handler hbooks.handler).1
  have hanswer := getElem?_of_prefix ((List.prefix_append _ _).trans hprefix) hframe
  have hbefore : FullLength P.inference
      (stateAfter (P.served wire).handle P.newState (before.map Prod.snd)) :=
    stateAfter_invariant _ fullLength_handle fullLength_newState _
  have hforget := (handle_forgets hunpack hreset).answersTo_eq hbefore fullLength_newState i
    resetting since
  rw [List.getElem?_cons_succ, hlog, answersTo_append, hforget,
    List.getElem?_append_right (by simp), length_answersTo, Nat.add_sub_cancel_left] at hanswer
  exact hanswer

/-! ## Two clients of one policy -/

/-- The policy that adds up all it is given. A response is an action and its pose. -/
def addingUp : OpenP2PRobotTwinPolicy (List ℕ) ℕ (List ℕ) ℕ ℕ ℕ ℕ ℕ ℕ where
  inference := SequenceInference.addingUp
  prepareFrame := some
  asPose := some
  denormalize := id
  toCompactExecutionAction := id
  composeCompactRelativeAction := fun action anchor => some (action + anchor)

def addingWire : PolicyWire (List ℕ) ℕ ℕ ℕ ℕ ℕ ℕ (PolicyRequest (List ℕ) ℕ ℕ ℕ ⊕ ℕ) Unit where
  unpackb := fun payload => match payload with
    | .inl request => .ok request
    | .inr _ => .error "no request"
  pack := fun response _ => match response with
    | .ok prompt _ => .ok (.inr prompt.length)
    | .actions _ _ action _ _ => .ok (.inr action)
  traceback := fun _ => "raised"
  metadata := .inr 0

def asking (reset : Bool) (obs : List ℕ) (pose : ℕ) : PolicyRequest (List ℕ) ℕ ℕ ℕ where
  textEmb := none
  textEmbeddings := none
  reset
  prompt := some "pour"
  obs := some obs
  eePose16d := some pose
  draws := 1

abbrev asks (prevTotalMs : Option Unit) (reset : Bool) (obs : List ℕ) (pose : ℕ) :
    PolicyCall (PolicyRequest (List ℕ) ℕ ℕ ℕ ⊕ ℕ) Unit :=
  ⟨.inl (asking reset obs pose), ⟨(), prevTotalMs⟩⟩

/-- Client 1 was served an observation before client 0 resets, and another one before
client 0 shows its own. -/
theorem reachable_reset : ∃ w, (addingUp.served addingWire).Reachable addingUp.newState w ∧
    w.log = [(1, asks none false [9] 9), (0, asks none true [] 0),
      (1, asks (some ()) false [2] 1), (0, asks (some ()) false [3] 4)] ∧
    (w.connections 0).received[2]? = some (.binary (.inr 13)) := by
  have hstart : (addingUp.served addingWire).Reachable addingUp.newState
      (WebsocketPolicyServer.start addingUp.newState) := .start rfl
  have hopened := (hstart.next (.connection 0 .connect)).next (.connection 1 .connect)
  have hgreeted := ((hopened.next (.connection 0 (.sendMetadata rfl))).next
    (.connection 0 (.receiveMetadata rfl rfl))).next (.connection 1 (.sendMetadata rfl))
  have hother := ((hgreeted.next (.connection 1 (.receiveMetadata rfl rfl))).next
    (.connection 1 (.request (.inl (asking false [9] 9)) rfl))).next (.serve 1 () rfl rfl)
  have hanswered := (hother.next (.connection 1 (.sendResponse () rfl))).next
    (.connection 1 (.receiveResponse rfl rfl))
  have hreset := ((hanswered.next (.connection 0 (.request (.inl (asking true [] 0)) rfl))).next
    (.serve 0 () rfl rfl)).next (.connection 0 (.sendResponse () rfl))
  have hbetween := (hreset.next (.connection 1 (.request (.inl (asking false [2] 1)) rfl))).next
    (.serve 1 () rfl rfl)
  have hasked := (hbetween.next (.connection 0 (.receiveResponse rfl rfl))).next
    (.connection 0 (.request (.inl (asking false [3] 4)) rfl))
  have hlast := ((hasked.next (.serve 0 () rfl rfl)).next
    (.connection 0 (.sendResponse () rfl))).next (.connection 0 (.receiveResponse rfl rfl))
  exact ⟨_, hlast, rfl, rfl⟩

theorem reachable_resetIsolates_reset :
    ∃ w, (addingUp.served addingWire).Reachable addingUp.newState w ∧
      (answersTo (addingUp.served addingWire).handle 0 addingUp.newState
        [(0, asks none true [] 0), (1, asks (some ()) false [2] 1),
          (0, asks (some ()) false [3] 4)])[1]? = some (WebsocketFrame.binary (.inr 13)) := by
  obtain ⟨w, hw, hlog, hresponse⟩ := reachable_reset
  have hstart : addingUp.newState = addingUp.newState ∨
      addingUp.warmup addingUp.newState [] 0 0 = some addingUp.newState := .inl rfl
  have hparts : w.log = [(1, asks none false [9] 9)] ++ (0, asks none true [] 0) ::
      [(1, asks (some ()) false [2] 1), (0, asks (some ()) false [3] 4)] := hlog
  exact ⟨w, hw, reachable_resetIsolates hstart hw hparts rfl rfl hresponse⟩

end OpenP2PRobotTwinPolicy

end P2PRdt.Robot

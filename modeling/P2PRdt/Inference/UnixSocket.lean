import P2PRdt.Lib.Framing
import P2PRdt.Lib.Reach

/-!
# Frames and actions on a Unix socket

`UnixDomainSocketInferenceServer` with the handlers of `EchoServer` and of
`PlaybackInferenceServer`, and `run_client` of the load test. Both sides send a
length of four bytes and then a serialized message; either may stop at any time,
bytes arrive in pieces, and the connection may be lost. The serializer is that of
protobuf, of which `RoundTrips` is used.

The playback answers the frame with the action that was recorded at its place. An
exception on either side ends the connection.
-/

namespace P2PRdt.Inference

open Lib

/-! ## Messages -/

structure Frame where
  width : ℤ
  height : ℤ
  data : List UInt8
  id : ℤ
deriving DecidableEq, Repr

structure MouseAction where
  mouseDeltaPx : Option (ℤ × ℤ) := none
  scrollDeltaPx : Option (ℤ × ℤ) := none
  buttonsDown : List String := []
deriving DecidableEq, Repr

structure Action where
  keys : List String
  id : ℤ
  mouseAction : MouseAction
deriving DecidableEq, Repr

/-- The `user_action` of a `FrameAnnotation`. -/
structure UserAction where
  isKnown : Bool
  keys : List String
  mouseDeltaPx : ℤ × ℤ
  scrollDeltaPx : ℤ × ℤ
  buttonsDown : List String
deriving DecidableEq, Repr

/-- A message class of protobuf. `fromString` may raise a `DecodeError`. -/
structure Message (M : Type) where
  serializeToString : M → List UInt8
  fromString : List UInt8 → Option M

/-! ## The handlers -/

/-- What a server answers to its `frame_i`-th frame; `none` is an exception. -/
abbrev FrameHandler : Type := ℕ → Frame → Option Action

def EchoServer.handleFrame : FrameHandler := fun _ frame =>
  some { keys := [], id := frame.id, mouseAction := {} }

def PlaybackInferenceServer.handleFrame ( annotation : List UserAction) : FrameHandler :=
  fun frameI frame =>
    match annotation[frameI]? with
    | some userAction =>
        if userAction.isKnown then
          some
            { keys := userAction.keys
              id := frame.id
              mouseAction :=
                { mouseDeltaPx := some userAction.mouseDeltaPx
                  scrollDeltaPx := some userAction.scrollDeltaPx
                  buttonsDown := userAction.buttonsDown } }
        else none
    | none => some { keys := [], id := frame.id, mouseAction := {} }

/-! ## The two programs -/

/-- The bytes of the length. -/
def lengthBytes : ℕ := 4

/-- `frames` is what `frame_generator` yields. -/
structure SocketPrograms where
  frame : Message Frame
  action : Message Action
  handleFrame : FrameHandler
  frames : ℕ → Frame

inductive Server where
  | reading (phase : ReadPhase)
  | closed
deriving DecidableEq, Repr

inductive Client where
  | generating
  | reading (phase : ReadPhase)
  | closed
deriving DecidableEq, Repr

/-- The client with its frame counter and the actions it has read, the server with
its `frame_i`, and the socket between them. -/
structure Session where
  client : Client := .generating
  framesSent : ℕ := 0
  received : List Action := []
  toServer : Pipe := {}
  server : Server := .reading .length
  frameI : ℕ := 0
  toClient : Pipe := {}

def Session.closeServer (w : Session) : Session :=
  { w with server := .closed, toClient := w.toClient.close }

def Session.closeClient (w : Session) : Session :=
  { w with client := .closed, toServer := w.toServer.close }

namespace SocketPrograms

variable (X : SocketPrograms)

/-- The messages of this exchange are parsed as they were. -/
structure RoundTrips : Prop where
  frames : ∀ i, X.frame.fromString (X.frame.serializeToString (X.frames i)) = some (X.frames i)
  actions : ∀ i a, X.handleFrame i (X.frames i) = some a →
    X.action.fromString (X.action.serializeToString a) = some a

/-- `writer.write` of the length and of the data; `none` is an `OverflowError`. -/
def writeAction (a : Action) : Option (List UInt8) :=
  frameBytes lengthBytes (X.action.serializeToString a)

def writeFrame (f : Frame) : Option (List UInt8) :=
  frameBytes lengthBytes (X.frame.serializeToString f)

/-- `_handle_client` up to its next `await` that returns; `none` while it waits. -/
def serverStep (w : Session) : Option Session :=
  match w.server with
  | .closed => none
  | .reading phase =>
      match w.toServer.readexactly (phase.size lengthBytes) with
      | .waits => none
      | .incomplete => some w.closeServer
      | .bytes data pipe =>
          let w := { w with toServer := pipe }
          match phase with
          | .length => some { w with server := .reading (.body (ofLittleEndian data)) }
          | .body _ =>
              match ((X.frame.fromString data).bind (X.handleFrame w.frameI)).bind
                X.writeAction with
              | none => some w.closeServer
              | some bytes =>
                  some
                    { w with
                      server := .reading .length
                      frameI := w.frameI + 1
                      toClient := w.toClient.write bytes }

/-- `run_client` likewise. -/
def clientStep (w : Session) : Option Session :=
  match w.client with
  | .closed => none
  | .generating =>
      match X.writeFrame (X.frames w.framesSent) with
      | none => some w.closeClient
      | some bytes =>
          some
            { w with
              client := .reading .length
              framesSent := w.framesSent + 1
              toServer := w.toServer.write bytes }
  | .reading phase =>
      match w.toClient.readexactly (phase.size lengthBytes) with
      | .waits => none
      | .incomplete => some w.closeClient
      | .bytes data pipe =>
          let w := { w with toClient := pipe }
          match phase with
          | .length => some { w with client := .reading (.body (ofLittleEndian data)) }
          | .body _ =>
              match X.action.fromString data with
              | none => some w.closeClient
              | some action =>
                  some { w with client := .generating, received := w.received ++ [action] }

inductive Step : Session → Session → Prop
  | server {w w' : Session} : X.serverStep w = some w' → Step w w'
  | client {w w' : Session} : X.clientStep w = some w' → Step w w'
  | deliverToServer {w : Session} (n : ℕ) : Step w { w with toServer := w.toServer.deliver n }
  | deliverToClient {w : Session} (n : ℕ) : Step w { w with toClient := w.toClient.deliver n }
  | eofToServer {w : Session} : w.toServer.closed = true → w.toServer.inFlight = [] →
      Step w { w with toServer := w.toServer.feedEof }
  | eofToClient {w : Session} : w.toClient.closed = true → w.toClient.inFlight = [] →
      Step w { w with toClient := w.toClient.feedEof }
  -- a shutdown, or a cancelled task
  | stopServer {w : Session} : Step w w.closeServer
  | stopClient {w : Session} : Step w w.closeClient
  | cut {w : Session} :
      Step w { w with toServer := w.toServer.cut, toClient := w.toClient.cut }

def Reachable (w : Session) : Prop := Reach (fun w => w = {}) X.Step w

/-! ## Every action read answers its frame -/

/-- What both sides know of each other. -/
structure Answered (w : Session) : Prop where
  received : ∀ i a, w.received[i]? = some a → X.handleFrame i (X.frames i) = some a
  answered : w.received.length ≤ w.frameI
  framesSent : w.frameI ≤ w.framesSent
  oneFrame : w.framesSent ≤ w.received.length + 1
  progress : w.client ≠ .closed → w.server ≠ .closed → w.toServer.closed = false →
    w.toClient.closed = false → w.toServer.inFlight = [] → w.toClient.inFlight = [] →
    X.clientStep w ≠ none ∨ X.serverStep w ≠ none

/-- The serialized frames that the server has still to read. -/
def requests (w : Session) : List (List UInt8) :=
  (List.range' w.frameI (w.framesSent - w.frameI)).map fun i =>
    X.frame.serializeToString (X.frames i)

/-- An action that the client has still to read; there is at most one. -/
def Responds (w : Session) (phase : ReadPhase) (response : Option Action) : Prop :=
  w.toClient.Carries lengthBytes phase (response.toList.map X.action.serializeToString) ∧
    w.frameI = w.received.length + response.toList.length ∧
    ∀ a ∈ response, X.handleFrame w.received.length (X.frames w.received.length) = some a

def ClientInv (w : Session) : Prop :=
  match w.client with
  | .generating => w.framesSent = w.received.length ∧ X.Responds w .length none
  | .reading phase =>
      w.framesSent = w.received.length + 1 ∧ ∃ response, X.Responds w phase response
  | .closed => w.framesSent ≤ w.received.length + 1 ∧ w.received.length ≤ w.frameI

structure Inv (w : Session) : Prop where
  received : ∀ i a, w.received[i]? = some a → X.handleFrame i (X.frames i) = some a
  framesSent : w.frameI ≤ w.framesSent
  requests : ∀ phase, w.server = .reading phase →
    w.toServer.Carries lengthBytes phase (X.requests w)
  client : X.ClientInv w

variable {X} {w w' : Session}

theorem Inv.framesSent_le (h : X.Inv w) :
    w.framesSent ≤ w.received.length + 1 ∧ w.received.length ≤ w.frameI := by
  have hclient := h.client
  rw [ClientInv] at hclient
  cases hphase : w.client with
  | generating =>
      rw [hphase] at hclient
      obtain ⟨hsent, -, hframe, -⟩ := hclient
      exact ⟨hsent.le.trans (Nat.le_succ _), hframe ▸ Nat.le_add_right _ _⟩
  | reading phase =>
      rw [hphase] at hclient
      obtain ⟨hsent, response, -, hframe, -⟩ := hclient
      exact ⟨hsent.le, hframe ▸ Nat.le_add_right _ _⟩
  | closed =>
      rw [hphase] at hclient
      exact hclient

/-- What happens to the bytes on their way keeps what they carry. -/
theorem Inv.pipes {toServer toClient : Pipe} (h : X.Inv w)
    (hserver : ∀ phase msgs, w.toServer.Carries lengthBytes phase msgs →
      toServer.Carries lengthBytes phase msgs)
    (hclient : ∀ phase msgs, w.toClient.Carries lengthBytes phase msgs →
      toClient.Carries lengthBytes phase msgs) :
    X.Inv { w with toServer := toServer, toClient := toClient } := by
  refine
    { received := h.received
      framesSent := h.framesSent
      requests := fun phase hphase => hserver phase _ (h.requests phase hphase)
      client := ?_ }
  have hold := h.client
  rw [ClientInv] at hold ⊢
  cases hphase : w.client with
  | generating =>
      rw [hphase] at hold
      exact ⟨hold.1, hclient _ _ hold.2.1, hold.2.2⟩
  | reading phase =>
      rw [hphase] at hold
      obtain ⟨hsent, response, hcarries, hresponse⟩ := hold
      exact ⟨hsent, response, hclient _ _ hcarries, hresponse⟩
  | closed =>
      rw [hphase] at hold
      exact hold

theorem Inv.closeServer (h : X.Inv w) (toServer : Pipe) :
    X.Inv { w with toServer := toServer }.closeServer := by
  have hpipes := h.pipes (fun _ _ => id) fun _ _ => Pipe.Carries.close
  exact
    { received := hpipes.received
      framesSent := hpipes.framesSent
      requests := fun phase hphase => Server.noConfusion hphase
      client := hpipes.client }

theorem Inv.closeClient (h : X.Inv w) (toClient : Pipe) :
    X.Inv { w with toClient := toClient }.closeClient := by
  have hpipes := h.pipes (fun _ _ => Pipe.Carries.close) fun _ _ => id
  exact
    { received := hpipes.received
      framesSent := hpipes.framesSent
      requests := hpipes.requests
      client := h.framesSent_le }

theorem requests_succ (hlt : w.frameI < w.framesSent) :
    X.requests w = X.frame.serializeToString (X.frames w.frameI) ::
      X.requests { w with frameI := w.frameI + 1 } := by
  rw [requests, requests, show w.framesSent - w.frameI = w.framesSent - (w.frameI + 1) + 1 by omega,
    List.range'_succ, List.map_cons]

theorem requests_send (hle : w.frameI ≤ w.framesSent) :
    X.requests { w with framesSent := w.framesSent + 1 } =
      X.requests w ++ [X.frame.serializeToString (X.frames w.framesSent)] := by
  rw [requests, requests, Nat.succ_sub hle, List.range'_concat, List.map_append, List.map_singleton,
    Nat.one_mul, Nat.add_sub_cancel' hle]

/-! ## One step -/

theorem serverStep_cases (hstep : X.serverStep w = some w') : ∃ pipe,
    w' = { w with toServer := pipe }.closeServer ∨
    (∃ data, w.server = .reading .length ∧
      w.toServer.readexactly lengthBytes = .bytes data pipe ∧
      w' = { w with toServer := pipe, server := .reading (.body (ofLittleEndian data)) }) ∨
    ∃ n data frame action bytes, w.server = .reading (.body n) ∧
      w.toServer.readexactly n = .bytes data pipe ∧ X.frame.fromString data = some frame ∧
      X.handleFrame w.frameI frame = some action ∧ X.writeAction action = some bytes ∧
      w' =
        { w with
          toServer := pipe
          server := .reading .length
          frameI := w.frameI + 1
          toClient := w.toClient.write bytes } := by
  rw [serverStep] at hstep
  cases hserver : w.server with
  | closed =>
      rw [hserver] at hstep
      cases hstep
  | reading phase =>
      rw [hserver] at hstep
      dsimp only at hstep
      cases hread : w.toServer.readexactly (phase.size lengthBytes) with
      | waits =>
          rw [hread] at hstep
          cases hstep
      | incomplete =>
          rw [hread] at hstep
          exact ⟨w.toServer, Or.inl (Option.some.inj hstep).symm⟩
      | bytes data pipe =>
          rw [hread] at hstep
          refine ⟨pipe, ?_⟩
          cases phase with
          | length =>
              exact Or.inr (Or.inl ⟨data, rfl, hread, (Option.some.inj hstep).symm⟩)
          | body n =>
              dsimp only at hstep
              split at hstep
              · exact Or.inl (Option.some.inj hstep).symm
              · next bytes hbytes =>
                obtain ⟨action, haction, hwrite⟩ := Option.bind_eq_some_iff.mp hbytes
                obtain ⟨frame, hframe, hhandle⟩ := Option.bind_eq_some_iff.mp haction
                exact Or.inr (Or.inr ⟨n, data, frame, action, bytes, rfl, hread, hframe, hhandle,
                  hwrite, (Option.some.inj hstep).symm⟩)

theorem clientStep_cases (hstep : X.clientStep w = some w') :
    (∃ bytes, w.client = .generating ∧ X.writeFrame (X.frames w.framesSent) = some bytes ∧
      w' =
        { w with
          client := .reading .length
          framesSent := w.framesSent + 1
          toServer := w.toServer.write bytes }) ∨
    ∃ pipe, w' = { w with toClient := pipe }.closeClient ∨
      (∃ data, w.client = .reading .length ∧
        w.toClient.readexactly lengthBytes = .bytes data pipe ∧
        w' = { w with toClient := pipe, client := .reading (.body (ofLittleEndian data)) }) ∨
      ∃ n data action, w.client = .reading (.body n) ∧
        w.toClient.readexactly n = .bytes data pipe ∧ X.action.fromString data = some action ∧
        w' =
          { w with
            toClient := pipe, client := .generating, received := w.received ++ [action] } := by
  rw [clientStep] at hstep
  cases hclient : w.client with
  | closed =>
      rw [hclient] at hstep
      cases hstep
  | generating =>
      rw [hclient] at hstep
      dsimp only at hstep
      split at hstep
      · exact Or.inr ⟨w.toClient, Or.inl (Option.some.inj hstep).symm⟩
      · next bytes hbytes =>
        exact Or.inl ⟨bytes, rfl, hbytes, (Option.some.inj hstep).symm⟩
  | reading phase =>
      rw [hclient] at hstep
      dsimp only at hstep
      cases hread : w.toClient.readexactly (phase.size lengthBytes) with
      | waits =>
          rw [hread] at hstep
          cases hstep
      | incomplete =>
          rw [hread] at hstep
          exact Or.inr ⟨w.toClient, Or.inl (Option.some.inj hstep).symm⟩
      | bytes data pipe =>
          rw [hread] at hstep
          refine Or.inr ⟨pipe, ?_⟩
          cases phase with
          | length =>
              exact Or.inr (Or.inl ⟨data, rfl, hread, (Option.some.inj hstep).symm⟩)
          | body n =>
              dsimp only at hstep
              split at hstep
              · exact Or.inl (Option.some.inj hstep).symm
              · next action haction =>
                exact Or.inr (Or.inr ⟨n, data, action, rfl, hread, haction,
                  (Option.some.inj hstep).symm⟩)

/-- The server reads a frame and writes its action. -/
theorem Inv.answer {n : ℕ} {data : List UInt8} {frame : Frame} {action : Action}
    {bytes : List UInt8} {pipe : Pipe} (hX : X.RoundTrips) (h : X.Inv w)
    (hserver : w.server = .reading (.body n))
    (hread : w.toServer.readexactly n = .bytes data pipe)
    (hframe : X.frame.fromString data = some frame)
    (hhandle : X.handleFrame w.frameI frame = some action)
    (hwrite : X.writeAction action = some bytes) :
    X.Inv
      { w with
        toServer := pipe
        server := .reading .length
        frameI := w.frameI + 1
        toClient := w.toClient.write bytes } := by
  obtain ⟨rest, hrequests, hrest⟩ := (h.requests _ hserver).readBody hread
  have hlt : w.frameI < w.framesSent := by
    by_contra hge
    rw [SocketPrograms.requests, Nat.sub_eq_zero_of_le (Nat.le_of_not_lt hge)] at hrequests
    cases hrequests
  rw [requests_succ hlt, List.cons_eq_cons] at hrequests
  obtain ⟨hdata, rfl⟩ := hrequests
  rw [← hdata, hX.frames, Option.some_inj] at hframe
  have hle := h.framesSent_le
  have hframeI : w.frameI = w.received.length := by omega
  refine
    { received := h.received
      framesSent := hlt
      requests := fun phase hphase => by cases hphase; exact hrest
      client := ?_ }
  have hold := h.client
  rw [ClientInv] at hold ⊢
  cases hclient : w.client with
  | generating =>
      rw [hclient] at hold
      have hsent := hold.1
      omega
  | reading phase =>
      rw [hclient] at hold
      obtain ⟨hsent, response, hcarries, hcount, -⟩ := hold
      have hnone : response = none := by
        cases response with
        | none => rfl
        | some a =>
            simp only [Option.toList_some, List.length_singleton] at hcount
            omega
      subst hnone
      refine ⟨hsent, some action, hcarries.write hwrite, ?_, ?_⟩
      · simp only [Option.toList_some, List.length_singleton]
        omega
      · intro a ha
        obtain rfl := Option.mem_some_iff.mp ha
        rw [← hframeI, hframe]
        exact hhandle
  | closed => exact ⟨hle.1, by show w.received.length ≤ w.frameI + 1; omega⟩

theorem serverStep_inv (hX : X.RoundTrips) (h : X.Inv w) (hstep : X.serverStep w = some w') :
    X.Inv w' := by
  obtain ⟨pipe, rfl | ⟨data, hserver, hread, rfl⟩ |
    ⟨n, data, frame, action, bytes, hserver, hread, hframe, hhandle, hwrite, rfl⟩⟩ :=
    serverStep_cases hstep
  · exact h.closeServer pipe
  · refine
      { received := h.received
        framesSent := h.framesSent
        requests := ?_
        client := h.client }
    intro phase hphase
    cases hphase
    exact (h.requests _ hserver).readLength (by decide) hread
  · exact h.answer hX hserver hread hframe hhandle hwrite

/-- The client sends its next frame. -/
theorem Inv.send {bytes : List UInt8} (h : X.Inv w) (hclient : w.client = .generating)
    (hwrite : X.writeFrame (X.frames w.framesSent) = some bytes) :
    X.Inv
      { w with
        client := .reading .length
        framesSent := w.framesSent + 1
        toServer := w.toServer.write bytes } := by
  have hold := h.client
  rw [ClientInv, hclient] at hold
  refine
    { received := h.received
      framesSent := h.framesSent.trans (Nat.le_succ _)
      requests := ?_
      client := ⟨congrArg (· + 1) hold.1, none, hold.2⟩ }
  intro phase hphase
  have hsend := (h.requests phase hphase).write hwrite
  rw [← requests_send h.framesSent] at hsend
  exact hsend

/-- The client reads the action for its last frame. -/
theorem Inv.receive {n : ℕ} {data : List UInt8} {action : Action} {pipe : Pipe}
    (hX : X.RoundTrips) (h : X.Inv w) (hclient : w.client = .reading (.body n))
    (hread : w.toClient.readexactly n = .bytes data pipe)
    (haction : X.action.fromString data = some action) :
    X.Inv
      { w with
        toClient := pipe, client := .generating, received := w.received ++ [action] } := by
  have hold := h.client
  rw [ClientInv, hclient] at hold
  obtain ⟨hsent, response, hcarries, hcount, hresponse⟩ := hold
  obtain ⟨rest, hmsgs, hrest⟩ := hcarries.readBody hread
  cases response with
  | none => cases hmsgs
  | some a =>
      obtain ⟨hdata, rfl⟩ := List.cons_eq_cons.mp hmsgs
      rw [← hdata, hX.actions _ a (hresponse a rfl), Option.some_inj] at haction
      subst haction
      refine
        { received := ?_
          framesSent := h.framesSent
          requests := h.requests
          client := ⟨?_, hrest, ?_, fun b hb => absurd hb (Option.not_mem_none b)⟩ }
      case refine_2 => rw [List.length_append, hsent, List.length_singleton]
      case refine_3 => rw [List.length_append, hcount]; rfl
      intro i b hb
      rcases Nat.lt_trichotomy i w.received.length with hlt | rfl | hgt
      · rw [List.getElem?_append_left hlt] at hb
        exact h.received i b hb
      · rw [List.getElem?_concat_length, Option.some_inj] at hb
        rw [← hb]
        exact hresponse a rfl
      · rw [List.getElem?_eq_none (List.length_append.trans_le hgt)] at hb
        cases hb

theorem clientStep_inv (hX : X.RoundTrips) (h : X.Inv w) (hstep : X.clientStep w = some w') :
    X.Inv w' := by
  obtain ⟨bytes, hclient, hwrite, rfl⟩ | ⟨pipe, rfl | ⟨data, hclient, hread, rfl⟩ |
    ⟨n, data, action, hclient, hread, haction, rfl⟩⟩ := clientStep_cases hstep
  · exact h.send hclient hwrite
  · exact h.closeClient pipe
  · have hold := h.client
    rw [ClientInv, hclient] at hold
    obtain ⟨hsent, response, hcarries, hresponse⟩ := hold
    exact
      { h with
        client := ⟨hsent, response, hcarries.readLength (by decide) hread, hresponse⟩ }
  · exact h.receive hX hclient hread haction

theorem step_inv (hX : X.RoundTrips) (h : X.Inv w) (hstep : X.Step w w') : X.Inv w' := by
  cases hstep with
  | server hstep => exact serverStep_inv hX h hstep
  | client hstep => exact clientStep_inv hX h hstep
  | deliverToServer n => exact h.pipes (fun _ _ hc => hc.deliver n) fun _ _ => id
  | deliverToClient n => exact h.pipes (fun _ _ => id) fun _ _ hc => hc.deliver n
  | eofToServer => exact h.pipes (fun _ _ => Pipe.Carries.feedEof) fun _ _ => id
  | eofToClient => exact h.pipes (fun _ _ => id) fun _ _ => Pipe.Carries.feedEof
  | stopServer => exact h.closeServer w.toServer
  | stopClient => exact h.closeClient w.toClient
  | cut => exact h.pipes (fun _ _ => Pipe.Carries.cut) fun _ _ => Pipe.Carries.cut

theorem start_inv : X.Inv {} where
  received := fun _ _ h => by cases h
  framesSent := le_rfl
  requests := fun phase hphase => by
    cases hphase
    exact Pipe.carries_empty _
  client := ⟨rfl, Pipe.carries_empty _, rfl, fun a h => absurd h (Option.not_mem_none a)⟩

/-! ## All runs -/

theorem clientStep_ne_none {phase : ReadPhase} (hclient : w.client = .reading phase)
    (hread : w.toClient.readexactly (phase.size lengthBytes) ≠ .waits) :
    X.clientStep w ≠ none := by
  rw [clientStep, hclient]
  dsimp only
  split
  · next hwaits => exact absurd hwaits hread
  · exact Option.some_ne_none _
  · split
    · exact Option.some_ne_none _
    · split <;> exact Option.some_ne_none _

theorem serverStep_ne_none {phase : ReadPhase} (hserver : w.server = .reading phase)
    (hread : w.toServer.readexactly (phase.size lengthBytes) ≠ .waits) :
    X.serverStep w ≠ none := by
  rw [serverStep, hserver]
  dsimp only
  split
  · next hwaits => exact absurd hwaits hread
  · exact Option.some_ne_none _
  · split
    · exact Option.some_ne_none _
    · split <;> exact Option.some_ne_none _

/-- The two sides never wait for each other. -/
theorem Inv.progress (h : X.Inv w) (hclient : w.client ≠ .closed) (hserver : w.server ≠ .closed)
    (hto : w.toServer.closed = false) (hfrom : w.toClient.closed = false)
    (htoEmpty : w.toServer.inFlight = []) (hfromEmpty : w.toClient.inFlight = []) :
    X.clientStep w ≠ none ∨ X.serverStep w ≠ none := by
  have hold := h.client
  rw [ClientInv] at hold
  cases hphase : w.client with
  | closed => exact absurd hphase hclient
  | generating =>
      left
      rw [clientStep, hphase]
      dsimp only
      split <;> exact Option.some_ne_none _
  | reading phase =>
      rw [hphase] at hold
      obtain ⟨hsent, response, hcarries, hcount, -⟩ := hold
      cases response with
      | some action =>
          left
          exact clientStep_ne_none hphase
            (hcarries.readexactly_of_arrived (List.cons_ne_nil _ _) hfrom hfromEmpty)
      | none =>
          right
          cases hreading : w.server with
          | closed => exact absurd hreading hserver
          | reading phase' =>
              refine serverStep_ne_none hreading
                ((h.requests _ hreading).readexactly_of_arrived ?_ hto htoEmpty)
              rw [Option.toList_none, List.length_nil, Nat.add_zero] at hcount
              rw [requests_succ (by omega)]
              exact List.cons_ne_nil _ _

/-- **Every action the client has read answers its frame**, however the bytes arrive
and whenever either side stops: the `i`-th action is what the handler makes of the
`i`-th frame. -/
theorem reachable_answered (hX : X.RoundTrips) (h : X.Reachable w) : X.Answered w := by
  have hinv : X.Inv w := by
    refine Reach.invariant (I := X.Inv) ?_ (fun _ _ => step_inv hX) h
    rintro _ rfl
    exact start_inv
  exact
    { received := hinv.received
      answered := hinv.framesSent_le.2
      framesSent := hinv.framesSent
      oneFrame := hinv.framesSent_le.1
      progress := hinv.progress }

/-! ## Two frames and their playback -/

def whiteFrame : Frame := { width := 1, height := 1, data := [255, 255, 255], id := 7 }

def blackFrame : Frame := { width := 1, height := 1, data := [0, 0, 0], id := 8 }

def whiteFrameBytes : List UInt8 := [8, 1, 16, 1, 26, 3, 255, 255, 255, 32, 7]

def blackFrameBytes : List UInt8 := [8, 1, 16, 1, 26, 3, 0, 0, 0, 32, 8]

/-- The recorded action of the first frame. -/
def recorded : UserAction where
  isKnown := true
  keys := ["W"]
  mouseDeltaPx := (3, 0)
  scrollDeltaPx := (0, 0)
  buttonsDown := []

def whiteAction : Action where
  keys := ["W"]
  id := 7
  mouseAction := { mouseDeltaPx := some (3, 0), scrollDeltaPx := some (0, 0) }

def blackAction : Action := { keys := [], id := 8, mouseAction := {} }

def whiteActionBytes : List UInt8 := [10, 1, 87, 16, 7, 26, 6, 10, 2, 8, 3, 26, 0]

def blackActionBytes : List UInt8 := [16, 8, 26, 0]

/-- A playback with one recorded action, for two frames. -/
def playbackPrograms : SocketPrograms where
  frame :=
    { serializeToString := fun f => if f.id = 7 then whiteFrameBytes else blackFrameBytes
      fromString := fun bytes =>
        if bytes = whiteFrameBytes then some whiteFrame
        else if bytes = blackFrameBytes then some blackFrame else none }
  action :=
    { serializeToString := fun a => if a.id = 7 then whiteActionBytes else blackActionBytes
      fromString := fun bytes =>
        if bytes = whiteActionBytes then some whiteAction
        else if bytes = blackActionBytes then some blackAction else none }
  handleFrame := PlaybackInferenceServer.handleFrame [recorded]
  frames := fun i => if i = 0 then whiteFrame else blackFrame

theorem roundTrips_playbackPrograms : playbackPrograms.RoundTrips where
  frames := by
    intro i
    cases i with
    | zero => rfl
    | succ i => rfl
  actions := by
    intro i a ha
    cases i with
    | zero =>
        obtain rfl := Option.some.inj ha
        rfl
    | succ i =>
        obtain rfl := Option.some.inj ha
        rfl

/-- The bytes of the first frame arrive in two pieces. -/
theorem reachable_answered_playback : ∃ w : Session,
    w.received = [whiteAction, blackAction] ∧ playbackPrograms.Answered w := by
  have hstart : playbackPrograms.Reachable {} := .start rfl
  have hlength := ((hstart.next (.client rfl)).next (.deliverToServer 6)).next (.server rfl)
  have hwhite := (hlength.next (.deliverToServer 9)).next (.server rfl)
  have hread := ((hwhite.next (.deliverToClient 17)).next (.client rfl)).next (.client rfl)
  have hsent := (hread.next (.client rfl)).next (.deliverToServer 15)
  have hblack := (hsent.next (.server rfl)).next (.server rfl)
  have hdone := ((hblack.next (.deliverToClient 8)).next (.client rfl)).next (.client rfl)
  exact ⟨_, rfl, reachable_answered roundTrips_playbackPrograms hdone⟩

end SocketPrograms

end P2PRdt.Inference

import P2PRdt.Inference.FrameDropping
import P2PRdt.Inference.UnixSocket

/-!
# The inference server on its socket

`InferenceServer._handle_client`: the connection with its queues and its torch
thread, between the bytes of a client that sends messages and reads actions at its
own pace. The reader takes messages off the socket and parses them in `_read_frame`,
and the output loop writes each action that it is given in `_write_action`. What the
model makes of a frame is left open, but for the id, which is that of the frame.

A message may be any bytes; one that does not parse ends the reader. Frames that are
dropped on the way have no action, so the ids that the client reads are some of those it
sent, in their order.
-/

namespace P2PRdt.Inference

open Lib

/-- The message is parsed as it was, as those are whose numbers are in range. -/
def Message.Represents {M : Type} (c : Message M) (m : M) : Prop :=
  c.fromString (c.serializeToString m) = some m

structure InferencePrograms where
  frame : Message Frame
  action : Message Action

/-- `readPhase` is that of `_read_frame`, `actionPhase` that of the client. `sent` (the
messages without their lengths), `written` and `received` are histories. -/
structure InferenceSession where
  connection : Connection Frame := {}
  history : History Frame := {}
  readPhase : ReadPhase := .length
  toServer : Pipe := {}
  toClient : Pipe := {}
  actionPhase : ReadPhase := .length
  sent : List (List UInt8) := []
  written : List Action := []
  received : List Action := []

/-- The connection takes a step. -/
def InferenceSession.observe (s : InferenceSession) (e : Event Frame) (q : Connection Frame) :
    InferenceSession :=
  { s with connection := q, history := s.history.after s.connection e q }

/-- The events that leave the socket alone. -/
def Event.Internal : Event Frame → Prop
  | .handler | .callback | .writeFailed | .shutdown | .badFrame => True
  | _ => False

namespace InferencePrograms

variable (X : InferencePrograms)

inductive SocketStep : InferenceSession → InferenceSession → Prop
  -- the client
  | send {s : InferenceSession} (msg : List UInt8) {bytes : List UInt8} :
      frameBytes lengthBytes msg = some bytes →
      SocketStep s { s with toServer := s.toServer.write bytes, sent := s.sent ++ [msg] }
  | readActionLength {s : InferenceSession} {data : List UInt8} {pipe : Pipe} :
      s.actionPhase = .length → s.toClient.readexactly lengthBytes = .bytes data pipe →
      SocketStep s { s with toClient := pipe, actionPhase := .body (ofLittleEndian data) }
  | readAction {s : InferenceSession} {n : ℕ} {data : List UInt8} {pipe : Pipe} {a : Action} :
      s.actionPhase = .body n → s.toClient.readexactly n = .bytes data pipe →
      X.action.fromString data = some a →
      SocketStep s
        { s with toClient := pipe, actionPhase := .length, received := s.received ++ [a] }
  | clientCloses {s : InferenceSession} : SocketStep s { s with toServer := s.toServer.close }
  -- `_make_request_iterator`
  | readLength {s : InferenceSession} {data : List UInt8} {pipe : Pipe} :
      s.connection.reader = .iterating → s.readPhase = .length →
      s.toServer.readexactly lengthBytes = .bytes data pipe →
      SocketStep s { s with toServer := pipe, readPhase := .body (ofLittleEndian data) }
  | readFrame {s : InferenceSession} {n : ℕ} {data : List UInt8} {pipe : Pipe} {f : Frame}
      {q : Connection Frame} : s.readPhase = .body n →
      s.toServer.readexactly n = .bytes data pipe → X.frame.fromString data = some f →
      Step (.frame f) s.connection q →
      SocketStep s { s.observe (.frame f) q with toServer := pipe, readPhase := .length }
  | decodeError {s : InferenceSession} {n : ℕ} {data : List UInt8} {pipe : Pipe}
      {q : Connection Frame} : s.readPhase = .body n →
      s.toServer.readexactly n = .bytes data pipe → X.frame.fromString data = none →
      Step .parseError s.connection q →
      SocketStep s { s.observe .parseError q with toServer := pipe }
  | incompleteRead {s : InferenceSession} {q : Connection Frame} :
      s.toServer.readexactly (s.readPhase.size lengthBytes) = .incomplete →
      Step .disconnected s.connection q → SocketStep s (s.observe .disconnected q)
  -- the torch thread, the event loop and the output loop
  | internal {s : InferenceSession} {e : Event Frame} {q : Connection Frame} : e.Internal →
      Step e s.connection q → SocketStep s (s.observe e q)
  | output {s : InferenceSession} {q : Connection Frame} :
      (∀ f, s.connection.output ≠ .yielded f) → Step .output s.connection q →
      SocketStep s (s.observe .output q)
  | writeAction {s : InferenceSession} {f : Frame} {a : Action} {bytes : List UInt8}
      {q : Connection Frame} : s.connection.output = .yielded f → a.id = f.id →
      X.action.Represents a →
      frameBytes lengthBytes (X.action.serializeToString a) = some bytes →
      Step .output s.connection q →
      SocketStep s
        { s.observe .output q with
          toClient := s.toClient.write bytes, written := s.written ++ [a] }
  | serverCloses {s : InferenceSession} : s.connection.output = .finished →
      SocketStep s { s with toClient := s.toClient.close }
  -- the socket
  | deliverToServer {s : InferenceSession} (n : ℕ) :
      SocketStep s { s with toServer := s.toServer.deliver n }
  | deliverToClient {s : InferenceSession} (n : ℕ) :
      SocketStep s { s with toClient := s.toClient.deliver n }
  | eofToServer {s : InferenceSession} : s.toServer.closed = true → s.toServer.inFlight = [] →
      SocketStep s { s with toServer := s.toServer.feedEof }
  | eofToClient {s : InferenceSession} : s.toClient.closed = true → s.toClient.inFlight = [] →
      SocketStep s { s with toClient := s.toClient.feedEof }
  | cut {s : InferenceSession} :
      SocketStep s { s with toServer := s.toServer.cut, toClient := s.toClient.cut }

def SocketReachable (s : InferenceSession) : Prop := Reach (fun s => s = {}) X.SocketStep s

end InferencePrograms

/-- What has come through. -/
structure InferencePrograms.Delivered (X : InferencePrograms) (s : InferenceSession) : Prop where
  /-- The frames that reach the queue are what the first messages sent are parsed as. -/
  queued : s.history.queued.map some <+: s.sent.map X.frame.fromString
  /-- The actions that the client reads are the first ones written. -/
  received : s.received <+: s.written
  /-- Each action written carries the id of a frame of its own, in their order. -/
  answers : ∃ answered : List Frame,
    answered.Sublist s.history.queued ∧ s.written.map Action.id = answered.map Frame.id

/-! ## Steps of the connection -/

section Connection

variable {φ : Type} {q q' : Connection φ} {h : History φ} {e : Event φ}

theorem Step.reader_iterating (hs : Step e q q') (hr : q'.reader = .iterating) :
    q.reader = .iterating := by
  cases hs with
  | frame f hreader => exact hreader
  | get hh hq | getNowait hh hq =>
      rename_i m rest
      cases m <;> exact hr
  | badFrame | disconnected | parseError | close => cases hr
  | _ => exact hr

/-- Only a frame that is read is queued. -/
theorem History.queued_after (hframe : ∀ f, e ≠ .frame f) :
    (h.after q e q').queued = h.queued := by
  unfold after
  split
  · next f => exact absurd rfl (hframe f)
  · split
    · rfl
    · rfl
    · rfl
    · split <;> rfl
    · rfl
  · split <;> rfl
  · rfl

theorem History.queued_after_frame (h : History φ) (q : Connection φ) (f : φ)
    (q' : Connection φ) : (h.after q (.frame f) q').queued =
      if (q.shutdownEvent || !q.running) = true then h.queued else h.queued ++ [f] := by
  rw [after]
  split <;> rfl

/-- The action at the client's writer. -/
def Output.pending : Output φ → List φ
  | .yielded action => [action]
  | _ => []

/-- An action is yielded when it comes to the writer, and only then. -/
theorem Step.pending (hs : Step e q q') (h : History φ) :
    (h.after q e q').yielded = h.yielded ∧ q'.output.pending.Sublist q.output.pending ∨
      ∃ action, (h.after q e q').yielded = h.yielded ++ [action] ∧
        q'.output.pending = [action] ∧ q.output.pending = [] := by
  cases hs with
  | outputGet ho hq =>
      rename_i action rest
      exact Or.inr ⟨action, by simp [History.after, ho, hq], rfl, by rw [ho]; rfl⟩
  | outputTop ho =>
      refine Or.inl ⟨by simp [History.after, ho], ?_⟩
      dsimp only
      split <;> exact List.nil_sublist _
  | outputNone ho | outputEmpty ho | written ho | refused ho | close ho =>
      exact Or.inl ⟨by simp [History.after, *], List.nil_sublist _⟩
  | frame f hr =>
      refine Or.inl ⟨?_, ?_⟩
      · rw [History.after]
        split <;> rfl
      · split <;> exact List.Sublist.refl _
  | get hh hq | getNowait hh hq =>
      rename_i m rest
      cases m <;> exact Or.inl ⟨by simp [History.after, hh, hq], List.Sublist.refl _⟩
  | _ => exact Or.inl ⟨by simp [History.after, *], List.Sublist.refl _⟩

theorem Step.yielded {front : List φ} (hs : Step e q q')
    (hfront : (front ++ q.output.pending).Sublist h.yielded) :
    (front ++ q'.output.pending).Sublist (h.after q e q').yielded := by
  obtain ⟨hsame, hpending⟩ | ⟨action, hnew, hpending, hidle⟩ := hs.pending h
  · rw [hsame]
    exact (hpending.append_left front).trans hfront
  · rw [hidle, List.append_nil] at hfront
    rw [hnew, hpending]
    exact hfront.append (List.Sublist.refl _)

/-- What is yielded was passed on, and what is passed on was queued. -/
theorem yielded_sublist_queued (hrun : ReachableObserved (q, h)) : h.yielded.Sublist h.queued := by
  obtain ⟨done, hconsumed⟩ := consumed_of_reachable hrun
  obtain ⟨taken, hpassed, htaken⟩ := forwarded_of_reachable hrun
  have hyielded : taken.reduceOption = h.yielded := by
    rcases htaken with rfl | ⟨rfl, -⟩
    · rw [List.reduceOption, List.filterMap_map]
      exact List.filterMap_some
    · rw [List.reduceOption, List.filterMap_append, List.filterMap_map]
      exact (List.append_nil _).trans List.filterMap_some
  have hsub := hconsumed.passedOn
  rw [hpassed, List.reduceOption_append, hyielded] at hsub
  rw [hconsumed.queued]
  exact ((List.sublist_append_left _ _).trans hsub).trans (List.sublist_append_left _ _)

end Connection

/-! ## All runs -/

namespace InferencePrograms

variable (X : InferencePrograms)

/-- As long as the reader iterates, it has queued a frame for each message it has read,
and the messages it has still to read are before it. -/
def ReaderInv (s : InferenceSession) : Prop :=
  s.connection.reader = .iterating → ∃ front rest, s.sent = front ++ rest ∧
    front.map X.frame.fromString = s.history.queued.map some ∧
    s.toServer.Carries lengthBytes s.readPhase rest

/-- What the client has still to read. -/
def ActionInv (s : InferenceSession) : Prop :=
  ∃ rest, s.written = s.received ++ rest ∧ (∀ a ∈ rest, X.action.Represents a) ∧
    s.toClient.Carries lengthBytes s.actionPhase (rest.map X.action.serializeToString)

structure SocketInv (s : InferenceSession) : Prop where
  observed : ReachableObserved (s.connection, s.history)
  queued : s.history.queued.map some <+: s.sent.map X.frame.fromString
  reader : X.ReaderInv s
  actions : X.ActionInv s
  answers : ∃ answered : List Frame, s.written.map Action.id = answered.map Frame.id ∧
    (answered ++ s.connection.output.pending).Sublist s.history.yielded

variable {X} {s t : InferenceSession} {e : Event Frame} {q : Connection Frame}

/-- A step of the connection that reads no frame and writes no action. -/
theorem SocketInv.observe (h : X.SocketInv s) (hs : Step e s.connection q)
    (hframe : ∀ f, e ≠ .frame f) : X.SocketInv (s.observe e q) := by
  have hqueued : (s.history.after s.connection e q).queued = s.history.queued :=
    History.queued_after hframe
  refine
    { observed := h.observed.next (.step e hs)
      queued := ?_
      reader := ?_
      actions := h.actions
      answers := ?_ }
  · show (s.history.after s.connection e q).queued.map some <+: s.sent.map X.frame.fromString
    rw [hqueued]
    exact h.queued
  · intro hr
    obtain ⟨front, rest, hsent, hfront, hcarries⟩ := h.reader (hs.reader_iterating hr)
    exact ⟨front, rest, hsent, hfront.trans (congrArg (List.map some) hqueued.symm), hcarries⟩
  · obtain ⟨answered, hids, hsub⟩ := h.answers
    exact ⟨answered, hids, hs.yielded hsub⟩

/-- What happens to the bytes on their way keeps what they carry. -/
theorem SocketInv.pipes {toServer toClient : Pipe} (h : X.SocketInv s)
    (hserver : ∀ phase msgs, s.toServer.Carries lengthBytes phase msgs →
      toServer.Carries lengthBytes phase msgs)
    (hclient : ∀ phase msgs, s.toClient.Carries lengthBytes phase msgs →
      toClient.Carries lengthBytes phase msgs) :
    X.SocketInv { s with toServer := toServer, toClient := toClient } where
  observed := h.observed
  queued := h.queued
  reader := by
    intro hr
    obtain ⟨front, rest, hsent, hfront, hcarries⟩ := h.reader hr
    exact ⟨front, rest, hsent, hfront, hserver _ _ hcarries⟩
  actions := by
    obtain ⟨rest, hwritten, hrep, hcarries⟩ := h.actions
    exact ⟨rest, hwritten, hrep, hclient _ _ hcarries⟩
  answers := h.answers

theorem SocketInv.send {msg bytes : List UInt8} (h : X.SocketInv s)
    (hbytes : frameBytes lengthBytes msg = some bytes) :
    X.SocketInv { s with toServer := s.toServer.write bytes, sent := s.sent ++ [msg] } where
  observed := h.observed
  queued := by
    show s.history.queued.map some <+: (s.sent ++ [msg]).map X.frame.fromString
    rw [List.map_append]
    exact h.queued.trans (List.prefix_append _ _)
  reader := by
    intro hr
    obtain ⟨front, rest, hsent, hfront, hcarries⟩ := h.reader hr
    refine ⟨front, rest ++ [msg], ?_, hfront, hcarries.write hbytes⟩
    show s.sent ++ [msg] = front ++ (rest ++ [msg])
    rw [hsent, List.append_assoc]
  actions := h.actions
  answers := h.answers

/-- The reader queues what the next message is parsed as, or ends. -/
theorem SocketInv.readFrame {n : ℕ} {data : List UInt8} {pipe : Pipe} {f : Frame}
    (h : X.SocketInv s) (hphase : s.readPhase = .body n)
    (hread : s.toServer.readexactly n = .bytes data pipe)
    (hf : X.frame.fromString data = some f) (hs : Step (.frame f) s.connection q) :
    X.SocketInv { s.observe (.frame f) q with toServer := pipe, readPhase := .length } := by
  have hobserved := h.observed.next (.step _ hs)
  have hyielded : ∃ answered : List Frame, s.written.map Action.id = answered.map Frame.id ∧
      (answered ++ q.output.pending).Sublist
        (s.history.after s.connection (.frame f) q).yielded := by
    obtain ⟨answered, hids, hsub⟩ := h.answers
    exact ⟨answered, hids, hs.yielded hsub⟩
  have hiterating : s.connection.reader = .iterating := by
    cases hs with
    | frame _ hr => exact hr
  obtain ⟨front, rest, hsent, hfront, hcarries⟩ := h.reader hiterating
  rw [hphase] at hcarries
  obtain ⟨rest, rfl, hpipe⟩ := hcarries.readBody hread
  have hqueued := s.history.queued_after_frame s.connection f q
  by_cases hstop : (s.connection.shutdownEvent || !s.connection.running) = true
  · -- the frame is not queued, and no other is read
    rw [if_pos hstop] at hqueued
    refine
      { observed := hobserved
        queued := hqueued ▸ h.queued
        reader := fun hr => ?_
        actions := h.actions
        answers := hyielded }
    have hended : q.reader = .ended := by
      cases hs with
      | frame _ _ => rw [if_pos hstop]
    cases hended.symm.trans hr
  · rw [if_neg hstop] at hqueued
    have hmore : s.sent = front ++ [data] ++ rest := by
      rw [hsent, List.append_assoc]
      rfl
    have hparsed : (front ++ [data]).map X.frame.fromString =
        (s.history.after s.connection (.frame f) q).queued.map some := by
      rw [hqueued, List.map_append, List.map_append, hfront, List.map_singleton, hf,
        List.map_singleton]
    exact
      { observed := hobserved
        queued := by
          show (s.history.after s.connection (.frame f) q).queued.map some <+:
            s.sent.map X.frame.fromString
          rw [← hparsed, hmore]
          exact (List.prefix_append _ _).map _
        reader := fun _ => ⟨front ++ [data], rest, hmore, hparsed, hpipe⟩
        actions := h.actions
        answers := hyielded }

/-- The output loop writes an action of the frame it was given. -/
theorem SocketInv.writeAction {f : Frame} {a : Action} {bytes : List UInt8} (h : X.SocketInv s)
    (hout : s.connection.output = .yielded f) (hid : a.id = f.id)
    (hrep : X.action.Represents a)
    (hbytes : frameBytes lengthBytes (X.action.serializeToString a) = some bytes)
    (hs : Step .output s.connection q) :
    X.SocketInv
      { s.observe .output q with
        toClient := s.toClient.write bytes, written := s.written ++ [a] } := by
  have hstep := h.observe hs fun g hg => by cases hg
  refine
    { observed := hstep.observed
      queued := hstep.queued
      reader := hstep.reader
      actions := ?_
      answers := ?_ }
  · obtain ⟨rest, hwritten, hreps, hcarries⟩ := h.actions
    refine ⟨rest ++ [a], ?_, ?_, ?_⟩
    · show s.written ++ [a] = s.received ++ (rest ++ [a])
      rw [hwritten, List.append_assoc]
    · intro b hb
      rcases List.mem_append.mp hb with hold | hnew
      · exact hreps b hold
      · rw [List.mem_singleton.mp hnew]
        exact hrep
    · rw [List.map_append]
      exact hcarries.write hbytes
  · obtain ⟨answered, hids, hsub⟩ := h.answers
    rw [hout] at hsub
    have hafter : q.output.pending = [] := by
      cases hs with
      | written ho hshut => rfl
      | outputTop ho | outputGet ho | outputNone ho | outputEmpty ho | close ho =>
          rw [hout] at ho
          cases ho
    refine ⟨answered ++ [f], ?_, ?_⟩
    · show (s.written ++ [a]).map Action.id = _
      rw [List.map_append, List.map_append, hids, List.map_singleton, List.map_singleton, hid]
    · show (answered ++ [f] ++ q.output.pending).Sublist
        (s.history.after s.connection .output q).yielded
      obtain ⟨hsame, -⟩ | ⟨action, -, -, hidle⟩ := hs.pending s.history
      · rw [hafter, List.append_nil, hsame]
        exact hsub
      · rw [hout] at hidle
        cases hidle

/-- The client reads the next action that was written. -/
theorem SocketInv.readAction {n : ℕ} {data : List UInt8} {pipe : Pipe} {a : Action}
    (h : X.SocketInv s) (hphase : s.actionPhase = .body n)
    (hread : s.toClient.readexactly n = .bytes data pipe)
    (ha : X.action.fromString data = some a) :
    X.SocketInv
      { s with toClient := pipe, actionPhase := .length, received := s.received ++ [a] } := by
  obtain ⟨rest, hwritten, hreps, hcarries⟩ := h.actions
  rw [hphase] at hcarries
  obtain ⟨msgs, hmsgs, hpipe⟩ := hcarries.readBody hread
  obtain ⟨a', rest, rfl, hdata, rfl⟩ := List.map_eq_cons_iff.mp hmsgs
  have hfirst : a = a' := by
    have hrep := hreps a' List.mem_cons_self
    rw [Message.Represents, hdata, ha] at hrep
    exact Option.some.inj hrep
  subst hfirst
  refine
    { observed := h.observed
      queued := h.queued
      reader := h.reader
      actions := ⟨rest, ?_, fun b hb => hreps b (List.mem_cons_of_mem a hb), hpipe⟩
      answers := h.answers }
  show s.written = s.received ++ [a] ++ rest
  rw [hwritten, List.append_assoc]
  rfl

theorem socketStep_inv (h : X.SocketInv s) (hs : X.SocketStep s t) : X.SocketInv t := by
  cases hs with
  | send msg hbytes => exact h.send hbytes
  | readActionLength hphase hread =>
      obtain ⟨rest, hwritten, hreps, hcarries⟩ := h.actions
      rw [hphase] at hcarries
      exact
        { h with actions := ⟨rest, hwritten, hreps, hcarries.readLength (by decide) hread⟩ }
  | readAction hphase hread ha => exact h.readAction hphase hread ha
  | clientCloses => exact h.pipes (fun _ _ => Pipe.Carries.close) fun _ _ => id
  | readLength hr hphase hread =>
      obtain ⟨front, rest, hsent, hfront, hcarries⟩ := h.reader hr
      rw [hphase] at hcarries
      have hbody := hcarries.readLength (by decide) hread
      exact { h with reader := fun _ => ⟨front, rest, hsent, hfront, hbody⟩ }
  | readFrame hphase hread hf hq => exact h.readFrame hphase hread hf hq
  | decodeError hphase hread hnone hq =>
      have hstep := h.observe hq fun g hg => by cases hg
      refine { hstep with reader := fun hr => ?_ }
      cases hq with
      | parseError => cases hr
  | incompleteRead hread hq => exact h.observe hq fun g hg => by cases hg
  | internal he hq => exact h.observe hq fun g hg => by rw [hg] at he; exact he
  | output _ hq => exact h.observe hq fun g hg => by cases hg
  | writeAction hout hid hrep hbytes hq => exact h.writeAction hout hid hrep hbytes hq
  | serverCloses => exact h.pipes (fun _ _ => id) fun _ _ => Pipe.Carries.close
  | deliverToServer n => exact h.pipes (fun _ _ hc => hc.deliver n) fun _ _ => id
  | deliverToClient n => exact h.pipes (fun _ _ => id) fun _ _ hc => hc.deliver n
  | eofToServer => exact h.pipes (fun _ _ => Pipe.Carries.feedEof) fun _ _ => id
  | eofToClient => exact h.pipes (fun _ _ => id) fun _ _ => Pipe.Carries.feedEof
  | cut => exact h.pipes (fun _ _ => Pipe.Carries.cut) fun _ _ => Pipe.Carries.cut

theorem socketInv_new : X.SocketInv {} where
  observed := .start rfl
  queued := List.prefix_rfl
  reader := fun _ => ⟨[], [], rfl, rfl, Pipe.carries_empty _⟩
  actions := ⟨[], rfl, fun _ ha => absurd ha List.not_mem_nil, Pipe.carries_empty _⟩
  answers := ⟨[], rfl, List.Sublist.refl _⟩

/-- **From bytes to bytes.** In every run, whatever the messages are, however the bytes
arrive and whatever is dropped or lost: the frames that reach the queue are what the first
messages sent are parsed as, and the actions that the client has read carry the ids of
these frames, each of its own, in the order in which they were sent. -/
theorem socketReachable_delivered (h : X.SocketReachable s) : X.Delivered s := by
  have hinv : X.SocketInv s := by
    refine Reach.invariant (I := X.SocketInv) ?_ (fun _ _ => socketStep_inv) h
    rintro _ rfl
    exact socketInv_new
  obtain ⟨rest, hwritten, -⟩ := hinv.actions
  obtain ⟨answered, hids, hsub⟩ := hinv.answers
  refine
    { queued := hinv.queued
      received := ⟨rest, hwritten.symm⟩
      answers := ⟨answered, ?_, hids⟩ }
  exact ((List.sublist_append_left _ _).trans hsub).trans (yielded_sublist_queued hinv.observed)

/-! ## Two frames and a message that does not parse -/

/-- An id in one byte; no other message is parsed. -/
def idMessages : InferencePrograms where
  frame :=
    { serializeToString := fun f => [UInt8.ofNat f.id.toNat]
      fromString := fun msg => match msg with
        | [id] => some { width := 1, height := 1, data := [], id := id.toNat }
        | _ => none }
  action :=
    { serializeToString := fun a => [UInt8.ofNat a.id.toNat]
      fromString := fun msg => match msg with
        | [id] => some { keys := [], id := id.toNat, mouseAction := {} }
        | _ => none }

def idFrame (id : ℤ) : Frame := { width := 1, height := 1, data := [], id := id }

/-- The frames 7 and 8 are queued, and the third message has ended the reader. -/
def twoQueued : InferenceSession where
  connection :=
    { reader := .ended
      inQueue := [some (idFrame 7), some (idFrame 8)]
      iteratorEnded := true }
  history := { queued := [idFrame 7, idFrame 8] }
  readPhase := .body 0
  sent := [[7], [8], []]

/-- The frame 7 is dropped, and the action of the frame 8 is on its way to the client. -/
def oneWritten : InferenceSession :=
  { twoQueued with
    connection := { reader := .ended, handler := .loopTop, iteratorEnded := true }
    history :=
      { queued := [idFrame 7, idFrame 8]
        superseded := [(idFrame 7, idFrame 8)]
        passedOn := [some (idFrame 8)]
        yielded := [idFrame 8] }
    toClient := { inFlight := [1, 0, 0, 0, 8] }
    written := [{ keys := [], id := 8, mouseAction := {} }] }

theorem reachable_twoQueued : idMessages.SocketReachable twoQueued := by
  have hstart : idMessages.SocketReachable {} := .start rfl
  have hsent := ((hstart.next (.send [7] rfl)).next (.send [8] rfl)).next (.send [] rfl)
  have hfirst := (((hsent.next (.deliverToServer 7)).next (.readLength rfl rfl rfl)).next
    (.readFrame rfl rfl rfl (.frame (idFrame 7) rfl))).next (.deliverToServer 7)
  have hsecond := ((hfirst.next (.readLength rfl rfl rfl)).next
    (.readFrame rfl rfl rfl (.frame (idFrame 8) rfl))).next (.readLength rfl rfl rfl)
  exact hsecond.next (.decodeError rfl rfl rfl (.parseError rfl))

theorem reachable_oneWritten : idMessages.SocketReachable oneWritten := by
  have hwaiting := (reachable_twoQueued.next (.internal (e := .handler) trivial (.start rfl))).next
    (.internal (e := .handler) trivial (.handlerTop rfl))
  have hdropped := ((hwaiting.next (.internal (e := .handler) trivial (.get rfl rfl))).next
    (.internal (e := .handler) trivial (.getNowait rfl rfl))).next
    (.internal (e := .handler) trivial (.newest rfl rfl))
  have hanswered := (hdropped.next (.internal (e := .handler) trivial (.action rfl))).next
    (.internal (e := .callback) trivial (.callback rfl))
  have hyielded := (hanswered.next (.output nofun (.outputTop rfl))).next
    (.output nofun (.outputGet rfl rfl))
  exact hyielded.next (.writeAction (a := { keys := [], id := 8, mouseAction := {} }) rfl rfl rfl
    rfl (.written rfl rfl))

/-- The client has read the action of the frame 8. -/
theorem reachable_oneRead : idMessages.SocketReachable
    { oneWritten with
      toClient := {}
      received := [{ keys := [], id := 8, mouseAction := {} }] } := by
  have hlength := (reachable_oneWritten.next (.deliverToClient 5)).next (.readActionLength rfl rfl)
  exact hlength.next (.readAction rfl rfl rfl)

theorem socketReachable_delivered_idMessages : ∃ s : InferenceSession,
    s.sent = [[7], [8], []] ∧ s.history.queued.map Frame.id = [7, 8] ∧
      s.connection.iteratorEnded = true ∧ s.received.map Action.id = [8] ∧
      idMessages.Delivered s :=
  ⟨_, rfl, rfl, rfl, rfl, socketReachable_delivered reachable_oneRead⟩

end InferencePrograms

end P2PRdt.Inference

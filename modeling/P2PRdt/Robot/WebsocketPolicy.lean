import P2PRdt.Lib.Reach
import P2PRdt.Lib.SharedService

/-!
# Serving a policy over websockets

`WebsocketPolicyServer._handler` and `WebsocketClientPolicy`, with any number of
connections. Each connection has a handler of its own, and all handlers call the
one policy. A handler decodes a payload, calls the policy and packs the response
without an `await`, so no other handler runs in between; at every `send` and
`recv` any other may. A websocket delivers the frames of each direction in order.

The theorem says what the users of the policy can rely on: all that they get is
what one policy answers to their requests, one after the other, in some order
that keeps the order of each of them.
-/

namespace P2PRdt.Robot

open Lib

/-- The server sends packed payloads, and a traceback as text. -/
inductive WebsocketFrame (B : Type) where
  | binary (payload : B)
  | text (traceback : String)

def WebsocketFrame.IsBinary {B : Type} (frame : WebsocketFrame B) : Prop :=
  ∃ payload, frame = .binary payload

/-- `response["server_timing"]`. -/
structure ServerTiming (τ : Type) where
  inferMs : τ
  prevTotalMs : Option τ

/-- The policy behind the handlers with the packing of its messages. Code that
raises gives its traceback. -/
structure WebsocketPolicyServer (S B Req Rep τ : Type) where
  infer : S → Req → Except String Rep × S
  unpackb : B → Except String Req
  pack : Rep → ServerTiming τ → Except String B
  metadata : B

/-- A payload that is handled, with the times that are reported in the response. -/
structure PolicyCall (B τ : Type) where
  payload : B
  timing : ServerTiming τ

inductive ClientPhase where
  | absent
  | waitingForServer
  | idle
  | inferring
  | gone

inductive HandlerPhase (B τ : Type) where
  | absent
  | opening
  | receiving (prevTotalTime : Option τ)
  | sending (frame : WebsocketFrame B)
  | closing
  | ended

/-- Both ends of a connection and the frames on their way. `sent` and `received`
are the histories of the client. -/
structure Connection (B τ : Type) where
  client : ClientPhase := .absent
  handler : HandlerPhase B τ := .absent
  toServer : List B := []
  toClient : List (WebsocketFrame B) := []
  sent : List B := []
  received : List (WebsocketFrame B) := []

/-- The server with all connections. The log lists the calls of the policy. -/
structure ServedPolicy (S B τ : Type) where
  policy : S
  connections : ℕ → Connection B τ
  log : List (ℕ × PolicyCall B τ)

variable {S B Req Rep τ : Type}

namespace WebsocketPolicyServer

variable (P : WebsocketPolicyServer S B Req Rep τ)

/-- The body of the handler's loop from `unpackb` to the frame that is sent. -/
def handle (s : S) (call : PolicyCall B τ) : WebsocketFrame B × S :=
  match P.unpackb call.payload with
  | .error traceback => (.text traceback, s)
  | .ok request =>
      match P.infer s request with
      | (.error traceback, s) => (.text traceback, s)
      | (.ok response, s) =>
          match P.pack response call.timing with
          | .error traceback => (.text traceback, s)
          | .ok payload => (.binary payload, s)

/-- A call of which nothing could be unpacked leaves the policy alone. -/
theorem handle_state (s : S) (call : PolicyCall B τ) :
    (P.handle s call).2 =
      match P.unpackb call.payload with
      | .error _ => s
      | .ok request => (P.infer s request).2 := by
  rw [handle]
  cases P.unpackb call.payload with
  | error traceback => rfl
  | ok request =>
      dsimp only
      rcases P.infer s request with ⟨traceback | response, s'⟩
      · rfl
      · dsimp only
        cases P.pack response call.timing <;> rfl

theorem handle_eq {s t : S} {call : PolicyCall B τ} {request : Req}
    (hunpack : P.unpackb call.payload = .ok request)
    (hinfer : P.infer s request = P.infer t request) :
    P.handle s call = P.handle t call := by
  simp only [handle, hunpack, hinfer]

/-- The steps of one connection that do not touch the policy. A client may go at
any time; its handler then ends at its next `recv` or `send`. -/
inductive ConnectionStep : Connection B τ → Connection B τ → Prop
  | connect : ConnectionStep {} { client := .waitingForServer, handler := .opening }
  | sendMetadata {c : Connection B τ} : c.handler = .opening →
      ConnectionStep c
        { c with handler := .receiving none, toClient := c.toClient ++ [.binary P.metadata] }
  | receiveMetadata {c : Connection B τ} {frame : WebsocketFrame B}
      {rest : List (WebsocketFrame B)} : c.client = .waitingForServer →
      c.toClient = frame :: rest →
      ConnectionStep c
        { c with client := .idle, toClient := rest, received := c.received ++ [frame] }
  | request {c : Connection B τ} (payload : B) : c.client = .idle →
      ConnectionStep c
        { c with client := .inferring, toServer := c.toServer ++ [payload]
                 sent := c.sent ++ [payload] }
  | sendResponse {c : Connection B τ} {payload : B} (totalTime : τ) :
      c.handler = .sending (.binary payload) →
      ConnectionStep c
        { c with handler := .receiving (some totalTime)
                 toClient := c.toClient ++ [.binary payload] }
  | sendTraceback {c : Connection B τ} {traceback : String} :
      c.handler = .sending (.text traceback) →
      ConnectionStep c
        { c with handler := .closing, toClient := c.toClient ++ [.text traceback] }
  | close {c : Connection B τ} : c.handler = .closing →
      ConnectionStep c { c with handler := .ended }
  -- `infer` returns the payload, or raises with the text
  | receiveResponse {c : Connection B τ} {frame : WebsocketFrame B}
      {rest : List (WebsocketFrame B)} : c.client = .inferring → c.toClient = frame :: rest →
      ConnectionStep c
        { c with client := .idle, toClient := rest, received := c.received ++ [frame] }
  | leave {c : Connection B τ} : c.client ≠ .absent → ConnectionStep c { c with client := .gone }
  | hangUp {c : Connection B τ} : c.client = .gone → ConnectionStep c { c with handler := .ended }

inductive Step : ServedPolicy S B τ → ServedPolicy S B τ → Prop
  | connection {w : ServedPolicy S B τ} (i : ℕ) {c : Connection B τ} :
      P.ConnectionStep (w.connections i) c →
      Step w { w with connections := Function.update w.connections i c }
  | serve {w : ServedPolicy S B τ} (i : ℕ) {prevTotalTime : Option τ} {payload : B}
      {rest : List B} (inferTime : τ) :
      (w.connections i).handler = .receiving prevTotalTime →
      (w.connections i).toServer = payload :: rest →
      Step w
        { policy := (P.handle w.policy ⟨payload, ⟨inferTime, prevTotalTime⟩⟩).2
          connections := Function.update w.connections i
            { w.connections i with
                toServer := rest
                handler := .sending (P.handle w.policy ⟨payload, ⟨inferTime, prevTotalTime⟩⟩).1 }
          log := w.log ++ [(i, ⟨payload, ⟨inferTime, prevTotalTime⟩⟩)] }

/-- A server whose policy is in state `s`, without connections. -/
def start (s : S) : ServedPolicy S B τ where
  policy := s
  connections := fun _ => {}
  log := []

/-- The states behind any interleaving of the clients and the handlers. -/
def Reachable (s : S) (w : ServedPolicy S B τ) : Prop := Reach (· = start s) P.Step w

end WebsocketPolicyServer

/-! ## The books of one connection -/

/-- The handler sent the metadata and the answers it had, in order. An answer that
is not binary is the last one. -/
def HandlerPhase.Books (metadata : B) (answers out : List (WebsocketFrame B)) :
    HandlerPhase B τ → Prop
  | .absent | .opening => out = [] ∧ answers = []
  | .receiving _ => out = .binary metadata :: answers ∧ ∀ f ∈ answers, f.IsBinary
  | .sending frame => ∃ front, answers = front ++ [frame] ∧ out = .binary metadata :: front ∧
      ∀ f ∈ front, f.IsBinary
  | .closing => out = .binary metadata :: answers ∧ ∀ f ∈ answers.dropLast, f.IsBinary
  | .ended => out <+: .binary metadata :: answers ∧ ∀ f ∈ answers.dropLast, f.IsBinary

/-- The answer that the handler has not sent yet. -/
def HandlerPhase.unsent : HandlerPhase B τ → List (WebsocketFrame B)
  | .sending frame => [frame]
  | _ => []

/-- The client was greeted and the handler runs. -/
def HandlerPhase.Open (phase : HandlerPhase B τ) : Prop :=
  phase ≠ .absent ∧ phase ≠ .opening ∧ phase ≠ .ended

/-- A client waits for the answer to one request at a time. -/
def ClientPhase.Books (sent received : ℕ) : ClientPhase → Prop
  | .absent | .waitingForServer => sent = 0 ∧ received = 0
  | .idle => received = sent + 1
  | .inferring => received = sent
  | .gone => sent ≤ received ∧ received ≤ sent + 1

/-- A connection whose payloads `served` were answered with `answers`. -/
structure Connection.Books (metadata : B) (served : List B) (answers : List (WebsocketFrame B))
    (c : Connection B τ) : Prop where
  requests : c.sent = served ++ c.toServer
  handler : c.handler.Books metadata answers (c.received ++ c.toClient)
  client : c.client.Books c.sent.length c.received.length

namespace Connection.Books

variable {metadata : B} {served : List B} {answers : List (WebsocketFrame B)}
  {c c' : Connection B τ}

/-- Whatever the handler does, the client gets a part of what it sent. -/
theorem prefix_of_handler {h : HandlerPhase B τ} {out : List (WebsocketFrame B)}
    (hh : h.Books metadata answers out) :
    out <+: .binary metadata :: answers ∧ ∀ f ∈ answers.dropLast, f.IsBinary := by
  cases h with
  | absent | opening =>
      rcases hh with ⟨rfl, rfl⟩
      exact ⟨List.nil_prefix, fun f hf => absurd hf List.not_mem_nil⟩
  | receiving =>
      rcases hh with ⟨rfl, hbinary⟩
      exact ⟨List.prefix_rfl, fun f hf => hbinary f (List.dropLast_subset _ hf)⟩
  | sending frame =>
      rcases hh with ⟨front, rfl, rfl, hbinary⟩
      refine ⟨?_, ?_⟩
      · rw [← List.cons_append]
        exact List.prefix_append _ _
      · rw [List.dropLast_concat]
        exact hbinary
  | closing =>
      rcases hh with ⟨rfl, hbinary⟩
      exact ⟨List.prefix_rfl, hbinary⟩
  | ended => exact hh

theorem answered_of_handler {phase : HandlerPhase B τ} {out : List (WebsocketFrame B)}
    (h : phase.Books metadata answers out) (hopen : phase.Open) :
    .binary metadata :: answers = out ++ phase.unsent := by
  cases phase with
  | absent => exact absurd rfl hopen.1
  | opening => exact absurd rfl hopen.2.1
  | receiving | closing => exact (h.1.symm.trans (List.append_nil _).symm)
  | sending frame =>
      obtain ⟨front, rfl, rfl, -⟩ := h
      rfl
  | ended => exact absurd rfl hopen.2.2

theorem bounds_of_client {p : ClientPhase} {m n : ℕ} (hp : p.Books m n) : m ≤ n ∧ n ≤ m + 1 := by
  cases p <;> simp only [ClientPhase.Books] at hp <;> omega

theorem received_concat (c : Connection B τ) {frame : WebsocketFrame B}
    {rest : List (WebsocketFrame B)} (hout : c.toClient = frame :: rest) :
    c.received ++ [frame] ++ rest = c.received ++ c.toClient := by
  rw [hout, List.append_assoc, List.singleton_append]

/-- The steps of a connection keep its books. -/
theorem step {P : WebsocketPolicyServer S B Req Rep τ} (hc : c.Books P.metadata served answers)
    (h : P.ConnectionStep c c') : c'.Books P.metadata served answers := by
  rcases hc with ⟨hreq, hhandler, hclient⟩
  cases h with
  | connect => exact ⟨hreq, hhandler, hclient⟩
  | sendMetadata hopen =>
      rw [hopen] at hhandler
      rcases hhandler with ⟨hout, rfl⟩
      refine ⟨hreq, ⟨?_, fun f hf => absurd hf List.not_mem_nil⟩, hclient⟩
      rw [← List.append_assoc, hout, List.nil_append]
  | receiveMetadata hwait hout =>
      rw [hwait] at hclient
      rcases hclient with ⟨hsent, hreceived⟩
      refine ⟨hreq, ?_, ?_⟩
      · rw [received_concat c hout]
        exact hhandler
      · rw [List.length_append, hreceived, hsent]
        rfl
  | request payload hidle =>
      rw [hidle] at hclient
      refine ⟨?_, hhandler, ?_⟩
      · rw [hreq, List.append_assoc]
      · rw [List.length_append]
        exact hclient
  | sendResponse totalTime hsending =>
      rw [hsending] at hhandler
      rcases hhandler with ⟨front, rfl, hout, hbinary⟩
      refine ⟨hreq, ⟨?_, ?_⟩, hclient⟩
      · rw [← List.append_assoc, hout, List.cons_append]
      · intro f hf
        rcases List.mem_append.mp hf with hfront | hlast
        · exact hbinary f hfront
        · exact ⟨_, List.mem_singleton.mp hlast⟩
  | sendTraceback hsending =>
      rw [hsending] at hhandler
      rcases hhandler with ⟨front, rfl, hout, hbinary⟩
      refine ⟨hreq, ⟨?_, ?_⟩, hclient⟩
      · rw [← List.append_assoc, hout, List.cons_append]
      · rw [List.dropLast_concat]
        exact hbinary
  | close | hangUp => exact ⟨hreq, prefix_of_handler hhandler, hclient⟩
  | receiveResponse hinferring hout =>
      rw [hinferring] at hclient
      refine ⟨hreq, ?_, ?_⟩
      · rw [received_concat c hout]
        exact hhandler
      · rw [List.length_append]
        exact congrArg (· + 1) hclient
  | leave => exact ⟨hreq, hhandler, bounds_of_client hclient⟩

/-- A call of the policy moves the first payload to the served ones. -/
theorem serve {prevTotalTime : Option τ} {payload : B} {rest : List B}
    (hc : c.Books metadata served answers) (hreceiving : c.handler = .receiving prevTotalTime)
    (hin : c.toServer = payload :: rest) (frame : WebsocketFrame B) :
    Connection.Books metadata (served ++ [payload]) (answers ++ [frame])
      { c with toServer := rest, handler := .sending frame : Connection B τ } := by
  rcases hc with ⟨hreq, hhandler, hclient⟩
  rw [hreceiving] at hhandler
  rcases hhandler with ⟨hout, hbinary⟩
  refine ⟨?_, ⟨answers, rfl, hout, hbinary⟩, hclient⟩
  rw [hreq, hin, List.append_assoc, List.singleton_append]

end Connection.Books

/-! ## All connections -/

namespace WebsocketPolicyServer

variable {P : WebsocketPolicyServer S B Req Rep τ} {s : S} {w : ServedPolicy S B τ}

/-- The payloads of connection `i` that were served. -/
def payloadsOf (i : ℕ) (log : List (ℕ × PolicyCall B τ)) : List B :=
  (requestsOf i log).map PolicyCall.payload

structure ServedInv (P : WebsocketPolicyServer S B Req Rep τ) (s : S) (w : ServedPolicy S B τ) :
    Prop where
  policy : w.policy = stateAfter P.handle s (w.log.map Prod.snd)
  books : ∀ i, (w.connections i).Books P.metadata (payloadsOf i w.log)
    (answersTo P.handle i s w.log)

theorem servedInv_step {w' : ServedPolicy S B τ} (hw : ServedInv P s w) (h : P.Step w w') :
    ServedInv P s w' := by
  rcases hw with ⟨hpolicy, hbooks⟩
  cases h with
  | @connection i c hc =>
      refine ⟨hpolicy, ?_⟩
      intro j
      show Connection.Books P.metadata (payloadsOf j w.log) (answersTo P.handle j s w.log)
        (Function.update w.connections i c j)
      by_cases hj : j = i
      · subst hj
        rw [Function.update_self]
        exact (hbooks j).step hc
      · rw [Function.update_of_ne hj]
        exact hbooks j
  | @serve i prevTotalTime payload rest inferTime hreceiving hin =>
      let call : PolicyCall B τ := ⟨payload, ⟨inferTime, prevTotalTime⟩⟩
      let c : Connection B τ := { w.connections i with
        toServer := rest, handler := .sending (P.handle w.policy call).1 }
      refine ⟨?_, ?_⟩
      · rw [List.map_append, stateAfter_append, ← hpolicy]
        rfl
      · intro j
        show Connection.Books P.metadata (payloadsOf j (w.log ++ [(i, call)]))
          (answersTo P.handle j s (w.log ++ [(i, call)])) (Function.update w.connections i c j)
        by_cases hj : j = i
        · subst hj
          rw [Function.update_self, payloadsOf, requestsOf_concat_self, answersTo_concat_self,
            List.map_append, ← hpolicy]
          exact (hbooks j).serve hreceiving hin _
        · have hother : i ≠ j := fun h => hj h.symm
          rw [Function.update_of_ne hj, payloadsOf, requestsOf_concat_of_ne hother,
            answersTo_concat_of_ne P.handle hother]
          exact hbooks j

theorem Reachable.servedInv (h : P.Reachable s w) : ServedInv P s w := by
  apply Reach.invariant _ (fun _ _ => servedInv_step) h
  rintro _ rfl
  exact ⟨rfl, fun i => ⟨rfl, ⟨rfl, rfl⟩, rfl, rfl⟩⟩

/-- What the users of a served policy can rely on: the log is an order of all
requests in which one policy answers them. -/
structure Serialized (P : WebsocketPolicyServer S B Req Rep τ) (s : S) (w : ServedPolicy S B τ) :
    Prop where
  policy : w.policy = stateAfter P.handle s (w.log.map Prod.snd)
  /-- The requests of a client are served in its order, and none is made up. -/
  requests : ∀ i, payloadsOf i w.log <+: (w.connections i).sent
  /-- A client gets the metadata, and the answers to its requests in order. -/
  responses : ∀ i,
    (w.connections i).received <+: .binary P.metadata :: answersTo P.handle i s w.log
  /-- A request that is not served yet is on its way. -/
  waiting : ∀ i, (w.connections i).sent = payloadsOf i w.log ++ (w.connections i).toServer
  /-- While the handler runs, an answer is received, on its way or about to be sent. -/
  answered : ∀ i, (w.connections i).handler.Open →
    .binary P.metadata :: answersTo P.handle i s w.log =
      (w.connections i).received ++ (w.connections i).toClient ++ (w.connections i).handler.unsent
  /-- The next request comes after the response. -/
  oneAtATime : ∀ i, (w.connections i).sent.length ≤ (w.connections i).received.length ∧
    (w.connections i).received.length ≤ (w.connections i).sent.length + 1
  /-- Nothing is served on a connection after a call that raised. -/
  failedLast : ∀ i, ∀ f ∈ (answersTo P.handle i s w.log).dropLast, f.IsBinary

/-- **Serving is serial.** Whatever the interleaving of the clients and handlers,
with clients that fail or go, the calls of the policy form one sequence, and the
`k`-th response of a client is the answer to its `k`-th request in it. -/
theorem reachable_serialized (P : WebsocketPolicyServer S B Req Rep τ) {s : S}
    {w : ServedPolicy S B τ} (h : P.Reachable s w) :
    Serialized P s w ∧ ∀ i k frame, (w.connections i).received[k + 1]? = some frame →
      ∃ call, (requestsOf i w.log)[k]? = some call ∧
        (w.connections i).sent[k]? = some call.payload ∧
        (answersTo P.handle i s w.log)[k]? = some frame := by
  have hinv := h.servedInv
  have hbooks := fun i => Connection.Books.prefix_of_handler (hinv.books i).handler
  have hrequests : ∀ i, payloadsOf i w.log <+: (w.connections i).sent := by
    intro i
    rw [(hinv.books i).requests]
    exact List.prefix_append _ _
  have hresponses : ∀ i,
      (w.connections i).received <+: .binary P.metadata :: answersTo P.handle i s w.log :=
    fun i => (List.prefix_append _ _).trans (hbooks i).1
  refine ⟨⟨hinv.policy, hrequests, hresponses, fun i => (hinv.books i).requests,
    fun i => Connection.Books.answered_of_handler (hinv.books i).handler, ?_,
    fun i => (hbooks i).2⟩, ?_⟩
  · exact fun i => Connection.Books.bounds_of_client (hinv.books i).client
  · intro i k frame hframe
    have hanswer := getElem?_of_prefix (hresponses i) hframe
    rw [List.getElem?_cons_succ] at hanswer
    have hk : k < (requestsOf i w.log).length := by
      rw [← length_answersTo P.handle i s]
      exact (List.getElem?_eq_some_iff.mp hanswer).1
    have hcall : (requestsOf i w.log)[k]? = some (requestsOf i w.log)[k] :=
      List.getElem?_eq_getElem hk
    refine ⟨_, hcall, getElem?_of_prefix (hrequests i) ?_, hanswer⟩
    rw [payloadsOf, List.getElem?_map, hcall, Option.map_some]

/-! ## Two clients of one policy -/

/-- A policy that adds up the numbers it is sent. -/
def addingPolicy : WebsocketPolicyServer ℕ ℕ ℕ ℕ Unit where
  infer := fun s r => (.ok (s + r), s + r)
  unpackb := .ok
  pack := fun response _ => .ok response
  metadata := 0

/-- Client 0 asks first, and client 1 is served first. -/
theorem reachable_twoClients : ∃ w, addingPolicy.Reachable 7 w ∧
    (w.connections 0).received[1]? = some (.binary 15) := by
  have hstart : addingPolicy.Reachable 7 (start 7) := .start rfl
  have hopened := (hstart.next (.connection 0 .connect)).next (.connection 1 .connect)
  have hgreeted := ((hopened.next (.connection 0 (.sendMetadata rfl))).next
    (.connection 0 (.receiveMetadata rfl rfl))).next (.connection 1 (.sendMetadata rfl))
  have hasked := ((hgreeted.next (.connection 1 (.receiveMetadata rfl rfl))).next
    (.connection 0 (.request 5 rfl))).next (.connection 1 (.request 3 rfl))
  have hserved := (hasked.next (.serve 1 () rfl rfl)).next (.serve 0 () rfl rfl)
  have hanswered := (hserved.next (.connection 0 (.sendResponse () rfl))).next
    (.connection 0 (.receiveResponse rfl rfl))
  exact ⟨_, hanswered, rfl⟩

theorem reachable_serialized_twoClients : ∃ w, Serialized addingPolicy 7 w ∧
    ∃ call, (requestsOf 0 w.log)[0]? = some call ∧
      (w.connections 0).sent[0]? = some call.payload ∧
      (answersTo addingPolicy.handle 0 7 w.log)[0]? = some (.binary 15) := by
  obtain ⟨w, hw, hresponse⟩ := reachable_twoClients
  have hserialized := reachable_serialized addingPolicy hw
  exact ⟨w, hserialized.1, hserialized.2 0 0 _ hresponse⟩

end WebsocketPolicyServer

end P2PRdt.Robot

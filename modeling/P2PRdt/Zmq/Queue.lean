import P2PRdt.Lib.Reach
import P2PRdt.Zmq.Server
import Mathlib.Data.Finset.Card
import Mathlib.Data.Finset.Range
import Mathlib.Logic.Function.Basic
import Mathlib.Data.List.Sort

/-!
# One ZeroMQ queue: server, wire and clients

The server of `Zmq.Server` as a thread, with the messages in flight in both
directions. `Ctl` is the server's program counter; between two socket
operations it does not move, so a state of this model is a state the server
can be observed in. The transport is the one that is assumed of ZeroMQ: each
client has one FIFO in each direction and nothing is lost, duplicated or
reordered. `recv_multipart` may answer with the head of any client's FIFO, or
with `EAGAIN` (nothing has arrived yet, or the timeout ran out), `EINTR`, or
another error; a `send_multipart` may fail without sending.

`sent`, `got` and `acked` are histories. No transition reads them.
-/

namespace P2PRdt.Zmq

open Lib

/-! ## State -/

structure PutCall (α : Type*) where
  item : α
  waitSeconds : Option ℕ
  ignoreFull : Bool

/-- The calls a user of the queue makes on the server. -/
inductive Call (α : Type*) where
  | put (c : PutCall α)
  | putToAll (item : α)

inductive Reply where
  | put (sent : Bool)
  | putToAll
deriving DecidableEq, Repr

/-- Where the server thread is. `waitForClients` is the loop of `new`;
`checkForAcks` is that loop inside `put`, with its `wait` argument and
`n_acks` so far; `tryClients` is the top of the loop of `put`; `sendAll i` is
`put_to_all` about to send to client `i`. -/
inductive Ctl (α : Type*) where
  | waitForClients (connected : List ℕ)
  | idle
  | checkForAcks (call : PutCall α) (wait : Bool) (nAcks : ℕ)
  | tryClients (call : PutCall α)
  | sendAll (item : α) (i : ℕ)
  | returned (r : Except QueueError Reply)
  | dead (e : QueueError)

/-- One client and its two FIFOs. `owed` counts the items `get` has received
but not yet acknowledged on the wire. -/
structure Link (α : Type*) where
  connected : Bool := false
  down : List α := []
  up : List ClientMsg := []
  owed : ℕ := 0
  sent : List α := []
  got : List α := []
  acked : ℕ := 0

structure Queue (α : Type*) where
  server : Server
  ctl : Ctl α
  link : ℕ → Link α

/-- An answer of `recv_multipart` that carries no message. -/
inductive RecvFail where
  | eagain
  | eintr
  | error
deriving DecidableEq, Repr

variable {α : Type*}

/-! ## Transitions of the server thread -/

namespace Queue

/-- The loop condition of `wait_for_clients` and the check after it. -/
def afterReady (n : ℕ) (connected : List ℕ) : Ctl α :=
  if connected.length < n then .waitForClients connected
  else if connected.mergeSort = List.range n then .idle
  else .dead (.badClientIds n)

/-- The queue as `ZMQQueueServer::new` starts it, before any client connects. -/
def new (perClientMaxSize nClients : ℕ) : Queue α where
  server := Server.new perClientMaxSize nClients
  ctl := afterReady nClients []
  link := fun _ => {}

def setLink (q : Queue α) (i : ℕ) (l : Link α) : Queue α :=
  { q with link := Function.update q.link i l }

/-- What `put` does with the result of `check_for_acks`. -/
def afterAcks (s : Server) (call : PutCall α) (wait : Bool) (nAcks : ℕ) : Ctl α :=
  if wait = false then .tryClients call
  else if nAcks = 0 ∧ call.waitSeconds.isSome then .returned (.ok (.put false))
  else if nAcks = 0 then .returned (.error (.full s.clientQueueSizes))
  else .tryClients call

/-- The server takes message `m` off client `i`'s FIFO, which leaves `rest`. -/
def onMessage (q : Queue α) (i : ℕ) (m : ClientMsg) (rest : List ClientMsg) : Queue α :=
  let popped := q.setLink i { q.link i with up := rest }
  match q.ctl with
  | .waitForClients connected =>
      match m with
      | .ready =>
          if i ∈ connected then { popped with ctl := .dead (.alreadyConnected i) }
          else { popped with ctl := afterReady q.server.nClients (i :: connected) }
      | .ack => popped
  | .checkForAcks call wait nAcks =>
      match q.server.takeAck i m with
      | .ok s =>
          { server := s, ctl := .checkForAcks call wait (nAcks + 1)
            link := Function.update q.link i
              { q.link i with up := rest, acked := (q.link i).acked + 1 } }
      | .error e => { popped with ctl := .returned (.error e) }
  | _ => q

def onFail (q : Queue α) (r : RecvFail) : Queue α :=
  match q.ctl, r with
  | .waitForClients connected, .eagain => { q with ctl := .dead (.waitTimedOut connected) }
  | .waitForClients _, _ => { q with ctl := .dead .socket }
  | .checkForAcks call wait nAcks, .eagain =>
      { q with ctl := afterAcks q.server call wait nAcks }
  | .checkForAcks _ _ _, .eintr => q
  | .checkForAcks _ _ _, .error => { q with ctl := .returned (.error .socket) }
  | _, _ => q

def begin (q : Queue α) : Call α → Queue α
  | .put c => { q with ctl := .checkForAcks c false 0 }
  | .putToAll item => { q with ctl := .sendAll item 0 }

/-- `item` goes on the wire to client `i`. -/
def push (q : Queue α) (i : ℕ) (item : α) : ℕ → Link α :=
  Function.update q.link i
    { q.link i with down := (q.link i).down ++ [item], sent := (q.link i).sent ++ [item] }

/-- The next statement of `put` or `put_to_all` that is not a receive. -/
def advance (q : Queue α) : Queue α :=
  match q.ctl with
  | .tryClients call =>
      match q.server.choose call.ignoreFull with
      | some (i, s) =>
          { server := s, ctl := .returned (.ok (.put true)), link := q.push i call.item }
      | none => { q with ctl := .checkForAcks call true 0 }
  | .sendAll item i =>
      if i < q.server.nClients then
        { server := q.server.sendToClient i, ctl := .sendAll item (i + 1)
          link := q.push i item }
      else { q with ctl := .returned (.ok .putToAll) }
  | _ => q

theorem advance_tryClients {q : Queue α} {call : PutCall α} {i : ℕ} {s : Server}
    (hctl : q.ctl = .tryClients call) (hchoose : q.server.choose call.ignoreFull = some (i, s)) :
    q.advance =
      { server := s, ctl := .returned (.ok (.put true)), link := q.push i call.item } := by
  simp only [advance, hctl, hchoose]

/-- The thread is in a statement of `put` or `put_to_all` that may send. -/
def Sending (q : Queue α) : Prop :=
  (∃ call, q.ctl = .tryClients call) ∨ ∃ item i, q.ctl = .sendAll item i

/-! ## Transitions of a client -/

def connect (q : Queue α) (i : ℕ) : Queue α :=
  q.setLink i { q.link i with connected := true, up := (q.link i).up ++ [.ready] }

/-- `recv_bytes` in `get` takes `x` off the wire, which leaves `rest`. -/
def clientRecv (q : Queue α) (i : ℕ) (x : α) (rest : List α) : Queue α :=
  q.setLink i { q.link i with
    down := rest, owed := (q.link i).owed + 1, got := (q.link i).got ++ [x] }

/-- The `send(b"ack")` of `get`. -/
def clientAck (q : Queue α) (i : ℕ) : Queue α :=
  q.setLink i { q.link i with
    owed := (q.link i).owed - 1, up := (q.link i).up ++ [.ack] }

end Queue

/-- What a step shows outside the queue. -/
inductive Label (α : Type*) where
  | tau
  | call (c : Call α)
  | ret (r : Except QueueError Reply)
  | recv (i : ℕ) (x : α)

/-- One step of the server thread, of the wire or of a client. -/
inductive Step : Label α → Queue α → Queue α → Prop
  | connect {q : Queue α} {i : ℕ} : i < q.server.nClients → (q.link i).connected = false →
      Step .tau q (q.connect i)
  | message {q : Queue α} {i : ℕ} {m : ClientMsg} {rest : List ClientMsg} :
      (q.link i).up = m :: rest → Step .tau q (q.onMessage i m rest)
  | recvFail {q : Queue α} (r : RecvFail) : Step .tau q (q.onFail r)
  | call {q : Queue α} (c : Call α) : q.ctl = .idle → Step (.call c) q (q.begin c)
  | advance {q : Queue α} : Step .tau q q.advance
  | sendFail {q : Queue α} : q.Sending →
      Step .tau q { q with ctl := .returned (.error .socket) }
  | ret {q : Queue α} {r : Except QueueError Reply} : q.ctl = .returned r →
      Step (.ret r) q { q with ctl := .idle }
  | clientRecv {q : Queue α} {i : ℕ} {x : α} {rest : List α} :
      (q.link i).down = x :: rest → Step (.recv i x) q (q.clientRecv i x rest)
  | clientAck {q : Queue α} {i : ℕ} : (q.link i).owed ≠ 0 → Step .tau q (q.clientAck i)

/-- Runs of one queue whose users only make calls in `allowed`. -/
def Reachable (perClientMaxSize nClients : ℕ) (allowed : Call α → Prop) : Queue α → Prop :=
  Reach (· = Queue.new perClientMaxSize nClients)
    (fun q q' => ∃ l, Step l q q' ∧ ∀ c, l = .call c → allowed c)

end P2PRdt.Zmq

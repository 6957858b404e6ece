import Mathlib.Data.List.Basic
import Mathlib.Data.List.Nodup
import Mathlib.Data.List.NodupEquivFin

/-!
# The ZeroMQ queue server: local state

`ZMQQueueServer` of `elefant_rust/src/zmq_queue.rs`: one ROUTER socket, one
credit counter per client. This file holds what the server computes without
looking at the wire: the round-robin choice of `put`, the counter updates of
`send_to_client` and of the ack branch of `check_for_acks`. The socket and
the clients are in `Zmq.Queue`.

`usize` counters are `Nat`: a counter only goes down behind the guard that it
is non-zero, and it goes up once for each message on the wire.
-/

namespace P2PRdt.Zmq

/-- What a client's DEALER socket sends: `b"ready"` once, then one `b"ack"`
for each item. -/
inductive ClientMsg where
  | ready
  | ack
deriving DecidableEq, Repr

/-- The errors of `ZMQQueueServer`. `noSuchClient` is the index panic of
`client_queue_sizes[client_id]`; `socket` is any other libzmq error. -/
inductive QueueError where
  | waitTimedOut (connected : List ℕ)
  | alreadyConnected (client : ℕ)
  | badClientIds (nClients : ℕ)
  | ackWithSizeZero (client : ℕ)
  | unexpectedMessage (client : ℕ)
  | full (sizes : List ℕ)
  | noSuchClient (client : ℕ)
  | socket
deriving DecidableEq, Repr

/-- The text of each error, as the `anyhow!` calls build it. -/
def QueueError.text (url : String) : QueueError → String
  | .waitTimedOut connected =>
      s!"{url} ZMQQueueServer waiting for clients timed out, connected_clients={connected}"
  | .alreadyConnected client => s!"Client {client} already connected"
  | .badClientIds nClients => s!"Client IDs must be 0..{nClients}"
  | .ackWithSizeZero client => s!"Received ack from client {client} with queue size 0"
  | .unexpectedMessage client => s!"ZMQQueueServer received message from client {client}"
  | .full sizes => s!"{url} ZMQQueueServer is full, client_queue_sizes={sizes}"
  | .noSuchClient client => s!"index out of bounds: the index is {client}"
  | .socket => "socket error"

structure Server where
  perClientMaxSize : ℕ
  nClients : ℕ
  clientQueueSizes : List ℕ
  lastSentIdx : ℕ
deriving DecidableEq, Repr

namespace Server

def new (perClientMaxSize nClients : ℕ) : Server where
  perClientMaxSize := perClientMaxSize
  nClients := nClients
  clientQueueSizes := List.replicate nClients 0
  lastSentIdx := 0

/-- `client_queue_sizes[i]`; the default is never read (`Server.WF`). -/
def size (s : Server) (i : ℕ) : ℕ := s.clientQueueSizes.getD i 0

/-- The counter half of `send_to_client`. -/
def sendToClient (s : Server) (i : ℕ) : Server :=
  { s with clientQueueSizes := s.clientQueueSizes.modify i (· + 1) }

def hasRoom (s : Server) (i : ℕ) : Bool := decide (s.size i < s.perClientMaxSize)

/-- One pass of the loop body of `put` up to the send: the recipient and the
server after the send, or `none` when every client is full. Only the first
branch moves `last_sent_idx`. -/
def choose (s : Server) (ignoreFull : Bool) : Option (ℕ × Server) :=
  if s.hasRoom s.lastSentIdx || ignoreFull then
    some (s.lastSentIdx,
      { s.sendToClient s.lastSentIdx with
          lastSentIdx := (s.lastSentIdx + 1) % s.nClients })
  else
    ((List.range' 1 (s.nClients - 1)).map
        (fun i => (s.lastSentIdx + i) % s.nClients)).find? s.hasRoom
      |>.map fun idx => (idx, s.sendToClient idx)

/-- The content check of `check_for_acks` on one message from `client`. -/
def takeAck (s : Server) (client : ℕ) : ClientMsg → Except QueueError Server
  | .ack =>
      match s.clientQueueSizes[client]? with
      | none => .error (.noSuchClient client)
      | some 0 => .error (.ackWithSizeZero client)
      | some (k + 1) => .ok { s with clientQueueSizes := s.clientQueueSizes.set client k }
  | .ready => .error (.unexpectedMessage client)

/-! ## Well-formed servers -/

/-- One counter per client, and a round-robin index that names a client. -/
structure WF (s : Server) : Prop where
  sizes_length : s.clientQueueSizes.length = s.nClients
  last_lt : s.lastSentIdx < s.nClients

theorem wf_new (m : ℕ) {n : ℕ} (hn : 0 < n) : (new m n).WF :=
  ⟨by simp [new], by simpa [new] using hn⟩

@[simp] theorem size_new (m n i : ℕ) : (new m n).size i = 0 := by
  simp [size, new, List.getD_eq_getElem?_getD, List.getElem?_replicate]
  split <;> rfl

theorem WF.sendToClient {s : Server} (h : s.WF) (i : ℕ) : (s.sendToClient i).WF :=
  ⟨by simpa [Server.sendToClient] using h.sizes_length, h.last_lt⟩

theorem size_sendToClient {s : Server} (h : s.WF) {i : ℕ} (hi : i < s.nClients) (j : ℕ) :
    (s.sendToClient i).size j = s.size j + if j = i then 1 else 0 := by
  have hlen := h.sizes_length
  simp only [size, Server.sendToClient, List.getD_eq_getElem?_getD, List.getElem?_modify]
  by_cases hji : j = i
  · subst hji
    rw [List.getElem?_eq_getElem (by omega)]
    simp
  · have hij : ¬ i = j := fun h => hji h.symm
    simp [hji, hij]

theorem WF.of_last {s : Server} (h : s.WF) (k : ℕ) :
    ({ s with lastSentIdx := k % s.nClients } : Server).WF :=
  ⟨h.sizes_length, Nat.mod_lt _ (Nat.lt_of_le_of_lt (Nat.zero_le _) h.last_lt)⟩

/-! ## The choice of a recipient -/

/-- The inner scan visits every client but the current one. -/
theorem exists_offset {n last i : ℕ} (hlast : last < n) (hi : i < n) (hne : i ≠ last) :
    ∃ k, 1 ≤ k ∧ k < n ∧ (last + k) % n = i := by
  by_cases hlt : last < i
  · exact ⟨i - last, by omega, by omega, by rw [Nat.add_sub_cancel' hlt.le, Nat.mod_eq_of_lt hi]⟩
  · refine ⟨n - last + i, by omega, by omega, ?_⟩
    rw [show last + (n - last + i) = i + n by omega, Nat.add_mod_right, Nat.mod_eq_of_lt hi]

/-- All that a successful choice does: it names a client in range, adds one
to its counter only, and that client had room unless `ignore_full` is set. -/
theorem choose_spec {s s' : Server} {ignoreFull : Bool} {i : ℕ} (h : s.WF)
    (hc : s.choose ignoreFull = some (i, s')) :
    i < s.nClients ∧ s'.WF ∧ s'.nClients = s.nClients ∧
      s'.perClientMaxSize = s.perClientMaxSize ∧
      (∀ j, s'.size j = s.size j + if j = i then 1 else 0) ∧
      (ignoreFull = false → s.size i < s.perClientMaxSize) := by
  have hn : 0 < s.nClients := Nat.lt_of_le_of_lt (Nat.zero_le _) h.last_lt
  unfold choose at hc
  split at hc
  · rename_i hroom
    simp only [Option.some.injEq, Prod.mk.injEq] at hc
    rcases hc with ⟨rfl, rfl⟩
    refine ⟨h.last_lt, (h.sendToClient _).of_last _, rfl, rfl,
      fun j => size_sendToClient h h.last_lt j, ?_⟩
    rintro rfl
    simpa [hasRoom] using hroom
  · obtain ⟨idx, hfind, heq⟩ := Option.map_eq_some_iff.mp hc
    simp only [Prod.mk.injEq] at heq
    rcases heq with ⟨rfl, rfl⟩
    have hmem := List.mem_of_find?_eq_some hfind
    obtain ⟨k, -, hk⟩ := List.mem_map.mp hmem
    have hlt : idx < s.nClients := hk ▸ Nat.mod_lt _ hn
    have hroom : s.hasRoom idx = true := List.find?_some hfind
    exact ⟨hlt, h.sendToClient _, rfl, rfl, fun j => size_sendToClient h hlt j,
      fun _ => by simpa [hasRoom] using hroom⟩

/-- `put` falls through to the wait only when every client is at its limit. -/
theorem choose_none {s : Server} {ignoreFull : Bool} (h : s.WF)
    (hc : s.choose ignoreFull = none) :
    ignoreFull = false ∧ ∀ i < s.nClients, s.perClientMaxSize ≤ s.size i := by
  unfold choose at hc
  split at hc
  · exact absurd hc (by simp)
  · rename_i hroom
    simp only [Bool.or_eq_true, not_or, Bool.not_eq_true] at hroom
    refine ⟨hroom.2, fun i hi => ?_⟩
    by_cases hil : i = s.lastSentIdx
    · have := hroom.1
      rw [← hil] at this
      simpa [hasRoom] using this
    · obtain ⟨k, hk1, hkn, hk⟩ := exists_offset h.last_lt hi hil
      rw [Option.map_eq_none_iff, List.find?_eq_none] at hc
      have := hc i (List.mem_map.mpr ⟨k, List.mem_range'_1.mpr ⟨hk1, by omega⟩, hk⟩)
      simpa [hasRoom] using this

/-! ## Taking an ack -/

/-- An ack from a client with a non-zero counter is taken and lowers that
counter only. -/
theorem takeAck_ok {s : Server} (h : s.WF) {i : ℕ} (hi : i < s.nClients) (hpos : 0 < s.size i) :
    ∃ s', s.takeAck i .ack = .ok s' ∧ s'.WF ∧ s'.nClients = s.nClients ∧
      s'.perClientMaxSize = s.perClientMaxSize ∧
      ∀ j, s'.size j + (if j = i then 1 else 0) = s.size j := by
  have hlt : i < s.clientQueueSizes.length := by rw [h.sizes_length]; exact hi
  have hget : s.clientQueueSizes[i]? = some (s.size i) := by
    simp [size, List.getD_eq_getElem?_getD, List.getElem?_eq_getElem hlt]
  obtain ⟨k, hk⟩ : ∃ k, s.size i = k + 1 := ⟨s.size i - 1, by omega⟩
  refine ⟨{ s with clientQueueSizes := s.clientQueueSizes.set i k }, ?_, ?_, rfl, rfl, ?_⟩
  · simp [takeAck, hget, hk]
  · exact ⟨by simpa using h.sizes_length, h.last_lt⟩
  · intro j
    by_cases hji : j = i
    · subst hji
      simp [size, List.getD_eq_getElem?_getD, hlt] at hk ⊢
      omega
    · have hij : ¬ i = j := fun h => hji h.symm
      simp [size, List.getD_eq_getElem?_getD, hij, hji]

end Server

end P2PRdt.Zmq

import P2PRdt.Zmq.Queue

/-!
# Credit accounting of the queue

`client_queue_sizes[i]` counts the items sent to client `i` whose ack the
server has not consumed: those still on the wire, those received but not yet
acknowledged, and the acks on their way back. The counter, both FIFOs and the
client's progress are tied together by `Link.Books`; the connection phase and
the error states are in `Phase`. `Credit` is the conjunction and every step
keeps it, so the defensive errors of `check_for_acks` cannot occur.
-/

namespace P2PRdt.Zmq

open Lib

variable {α : Type*}

/-! ## The books of one client -/

/-- The counter of a client against the messages in flight both ways. -/
structure Link.Books (size : ℕ) (l : Link α) : Prop where
  sent_eq : l.sent = l.got ++ l.down
  got_length : l.got.length = l.acked + l.owed + l.up.count .ack
  size_eq : size = l.down.length + l.owed + l.up.count .ack

namespace Link.Books

variable {l : Link α} {size : ℕ}

theorem empty : Link.Books 0 ({} : Link α) := ⟨rfl, rfl, rfl⟩

theorem connect (h : l.Books size) :
    ({ l with connected := true, up := l.up ++ [.ready] } : Link α).Books size := by
  refine ⟨h.sent_eq, ?_, ?_⟩
  · simpa [List.count_append] using h.got_length
  · simpa [List.count_append] using h.size_eq

theorem push (h : l.Books size) (x : α) :
    ({ l with down := l.down ++ [x], sent := l.sent ++ [x] } : Link α).Books (size + 1) := by
  refine ⟨?_, h.got_length, ?_⟩
  · simp [h.sent_eq]
  · have := h.size_eq
    simp only [List.length_append, List.length_cons, List.length_nil]
    omega

theorem clientRecv (h : l.Books size) {x : α} {rest : List α} (hd : l.down = x :: rest) :
    ({ l with down := rest, owed := l.owed + 1, got := l.got ++ [x] } : Link α).Books size := by
  have hg := h.got_length
  have hs := h.size_eq
  refine ⟨?_, ?_, ?_⟩
  · simp [h.sent_eq, hd]
  · simp only [List.length_append, List.length_cons, List.length_nil]
    omega
  · rw [hd] at hs
    simp only [List.length_cons] at hs ⊢
    omega

theorem clientAck (h : l.Books size) (ho : l.owed ≠ 0) :
    ({ l with owed := l.owed - 1, up := l.up ++ [.ack] } : Link α).Books size := by
  have hg := h.got_length
  have hs := h.size_eq
  refine ⟨h.sent_eq, ?_, ?_⟩ <;>
  · simp only [List.count_append, List.count_cons_self, List.count_nil]
    omega

/-- Consuming an ack lowers the counter, which was positive. -/
theorem takeAck (h : l.Books size) {rest : List ClientMsg} (hu : l.up = .ack :: rest) :
    0 < size ∧
      ({ l with up := rest, acked := l.acked + 1 } : Link α).Books (size - 1) := by
  have hg := h.got_length
  have hs := h.size_eq
  rw [hu, List.count_cons_self] at hg hs
  exact ⟨by omega, h.sent_eq, by simp only; omega, by simp only; omega⟩

theorem dropReady (h : l.Books size) {rest : List ClientMsg} (hu : l.up = .ready :: rest) :
    ({ l with up := rest } : Link α).Books size := by
  have hg := h.got_length
  have hs := h.size_eq
  rw [hu, List.count_cons_of_ne (by decide)] at hg hs
  exact ⟨h.sent_eq, hg, hs⟩

end Link.Books

/-! ## Phases -/

/-- The state of the wire while `new` waits: nothing has been sent, and a
client's `ready` is on the wire exactly until the server has taken it. -/
structure Connecting (n : ℕ) (connected : List ℕ) (link : ℕ → Link α) : Prop where
  nodup : connected.Nodup
  lt : ∀ i ∈ connected, i < n
  taken : ∀ i ∈ connected, (link i).connected = true ∧ (link i).up = []
  waiting : ∀ i < n, i ∉ connected →
    (link i).up = if (link i).connected then [.ready] else []
  quiet : ∀ i < n, (link i).down = [] ∧ (link i).owed = 0

/-- After `new`, every client is connected and only acks travel upwards. -/
def Connected (n : ℕ) (link : ℕ → Link α) : Prop :=
  ∀ i < n, (link i).connected = true ∧ ClientMsg.ready ∉ (link i).up

/-- The errors that the accounting rules out. -/
def QueueError.Defensive : QueueError → Prop
  | .alreadyConnected _ | .ackWithSizeZero _ | .unexpectedMessage _ | .noSuchClient _ => True
  | _ => False

def Phase (n : ℕ) (link : ℕ → Link α) : Ctl α → Prop
  | .waitForClients connected => Connecting n connected link
  | .dead e => ¬ e.Defensive
  | .returned (.error e) => Connected n link ∧ ¬ e.Defensive
  | _ => Connected n link

/-- The invariant of one queue. -/
structure Credit (max n : ℕ) (q : Queue α) : Prop where
  wf : q.server.WF
  nClients : q.server.nClients = n
  perClientMaxSize : q.server.perClientMaxSize = max
  books : ∀ i < n, (q.link i).Books (q.server.size i)
  outside : ∀ i, n ≤ i → q.link i = {}
  phase : Phase n q.link q.ctl

theorem mem_of_nodup_of_length_le {c : List ℕ} {n : ℕ} (hnd : c.Nodup)
    (hlt : ∀ i ∈ c, i < n) (hlen : n ≤ c.length) : ∀ i < n, i ∈ c := by
  have hsub : c.toFinset ⊆ Finset.range n := by
    intro i hi
    exact Finset.mem_range.mpr (hlt i (List.mem_toFinset.mp hi))
  have hcard : (Finset.range n).card ≤ c.toFinset.card := by
    rw [Finset.card_range, List.toFinset_card_of_nodup hnd]
    exact hlen
  have heq := Finset.eq_of_subset_of_card_le hsub hcard
  intro i hi
  rw [← List.mem_toFinset, heq]
  exact Finset.mem_range.mpr hi

/-- When the loop of `wait_for_clients` ends, all of 0..n is connected. -/
theorem phase_afterReady {n : ℕ} {connected : List ℕ} {link : ℕ → Link α}
    (h : Connecting n connected link) :
    Phase n link (Queue.afterReady n connected) := by
  unfold Queue.afterReady
  split
  · exact h
  · rename_i hlen
    have hall := mem_of_nodup_of_length_le h.nodup h.lt (Nat.le_of_not_lt hlen)
    split
    · intro i hi
      obtain ⟨hc, hu⟩ := h.taken i (hall i hi)
      exact ⟨hc, by simp [hu]⟩
    · exact fun h => h

theorem credit_new (max : ℕ) {n : ℕ} (hn : 0 < n) :
    Credit max n (Queue.new max n : Queue α) where
  wf := Server.wf_new max hn
  nClients := rfl
  perClientMaxSize := rfl
  books := by
    intro i _
    simpa [Queue.new] using Link.Books.empty
  outside := fun _ _ => rfl
  phase := phase_afterReady
    ⟨List.nodup_nil, by simp, by simp, fun _ _ _ => rfl, fun _ _ => ⟨rfl, rfl⟩⟩

/-! ## Every step keeps the books -/

section Preservation

variable {max n : ℕ} {q : Queue α}

/-- A step that moves no counter and changes the link of client `i` only. -/
theorem Credit.setLink (h : Credit max n q) {i : ℕ} (hi : i < n) {l : Link α} {ctl : Ctl α}
    (hbooks : l.Books (q.server.size i))
    (hphase : Phase n (Function.update q.link i l) ctl) :
    Credit max n { q.setLink i l with ctl := ctl } where
  wf := h.wf
  nClients := h.nClients
  perClientMaxSize := h.perClientMaxSize
  books := by
    intro j hj
    by_cases hji : j = i
    · subst hji
      simpa [Queue.setLink] using hbooks
    · simpa [Queue.setLink, hji] using h.books j hj
  outside := by
    intro j hj
    have hji : j ≠ i := by omega
    simpa [Queue.setLink, hji] using h.outside j hj
  phase := hphase

theorem Connected.update {link : ℕ → Link α} (h : Connected n link) {i : ℕ} {l : Link α}
    (hc : l.connected = (link i).connected)
    (hu : ClientMsg.ready ∈ l.up → ClientMsg.ready ∈ (link i).up) :
    Connected n (Function.update link i l) := by
  intro j hj
  by_cases hji : j = i
  · subst hji
    rw [Function.update_self]
    exact ⟨hc.trans (h j hj).1, fun hr => (h j hj).2 (hu hr)⟩
  · rw [Function.update_of_ne hji]
    exact h j hj

/-- Outside the connection phase a change of one link that keeps `connected`
and brings no `ready` keeps the phase. -/
theorem phase_update {link : ℕ → Link α} {ctl : Ctl α} (h : Phase n link ctl) {i : ℕ}
    {l : Link α} (hwait : ∀ c, ctl ≠ .waitForClients c)
    (hc : l.connected = (link i).connected)
    (hu : ClientMsg.ready ∈ l.up → ClientMsg.ready ∈ (link i).up) :
    Phase n (Function.update link i l) ctl := by
  cases ctl with
  | waitForClients c => exact absurd rfl (hwait c)
  | idle => exact h.update hc hu
  | checkForAcks call wait nAcks => exact h.update hc hu
  | tryClients call => exact h.update hc hu
  | sendAll item k => exact h.update hc hu
  | dead e => exact h
  | returned r =>
      cases r with
      | ok r => exact h.update hc hu
      | error e => exact ⟨h.1.update hc hu, h.2⟩

/-- A client that has something to receive or to acknowledge is in range, and
the server is past the connection phase. -/
theorem Credit.busy (h : Credit max n q) {i : ℕ}
    (hb : (q.link i).down ≠ [] ∨ (q.link i).owed ≠ 0) :
    i < n ∧ ∀ c, q.ctl ≠ .waitForClients c := by
  have hi : i < n := by
    by_contra hge
    rw [h.outside i (Nat.le_of_not_lt hge)] at hb
    simp at hb
  refine ⟨hi, fun c hc => ?_⟩
  have hph := h.phase
  rw [hc] at hph
  obtain ⟨hd, ho⟩ := hph.quiet i hi
  rcases hb with hb | hb
  · exact hb hd
  · exact hb ho

/-! ### The connection phase -/

/-- A change of one link that leaves its items alone. -/
theorem Connecting.quiet_update {c : List ℕ} {link : ℕ → Link α} (h : Connecting n c link) {i : ℕ}
    {l : Link α} (hd : l.down = (link i).down) (ho : l.owed = (link i).owed) :
    ∀ j < n, (Function.update link i l j).down = [] ∧ (Function.update link i l j).owed = 0 := by
  intro j hj
  by_cases hji : j = i
  · subst hji
    rw [Function.update_self, hd, ho]
    exact h.quiet j hj
  · rw [Function.update_of_ne hji]
    exact h.quiet j hj

/-- A client connects and sends its `ready`. -/
theorem Connecting.connect {c : List ℕ} {link : ℕ → Link α} (h : Connecting n c link) {i : ℕ}
    (hc : (link i).connected = false) :
    Connecting n c (Function.update link i
      { link i with connected := true, up := (link i).up ++ [.ready] }) := by
  have hic : i ∉ c := by
    intro hmem
    rw [(h.taken i hmem).1] at hc
    exact Bool.noConfusion hc
  refine ⟨h.nodup, h.lt, ?_, ?_, h.quiet_update rfl rfl⟩
  · intro j hj
    have hji : j ≠ i := fun he => hic (he ▸ hj)
    rw [Function.update_of_ne hji]
    exact h.taken j hj
  · intro j hj hjc
    by_cases hji : j = i
    · subst hji
      have hw := h.waiting j hj hjc
      rw [hc] at hw
      simp [hw]
    · rw [Function.update_of_ne hji]
      exact h.waiting j hj hjc

/-- What a client has on the wire is its one `ready`, not yet taken. -/
theorem Connecting.ready {c : List ℕ} {link : ℕ → Link α} (h : Connecting n c link) {i : ℕ}
    (hi : i < n) {m : ClientMsg} {rest : List ClientMsg} (hu : (link i).up = m :: rest) :
    i ∉ c ∧ (link i).connected = true ∧ m = .ready ∧ rest = [] := by
  have hic : i ∉ c := by
    intro hmem
    rw [(h.taken i hmem).2] at hu
    exact absurd hu (by simp)
  have hw := h.waiting i hi hic
  rw [hu] at hw
  have hcon : (link i).connected = true := by
    by_contra hne
    simp [hne] at hw
  rw [hcon] at hw
  simp only [if_true, List.cons.injEq] at hw
  exact ⟨hic, hcon, hw⟩

/-- The server takes the `ready` of a client. -/
theorem Connecting.take {c : List ℕ} {link : ℕ → Link α} (h : Connecting n c link) {i : ℕ}
    (hi : i < n) (hic : i ∉ c) (hcon : (link i).connected = true) :
    Connecting n (i :: c) (Function.update link i { link i with up := [] }) := by
  refine ⟨List.nodup_cons.mpr ⟨hic, h.nodup⟩, ?_, ?_, ?_, h.quiet_update rfl rfl⟩
  · intro j hj
    rcases List.mem_cons.mp hj with rfl | hj
    · exact hi
    · exact h.lt j hj
  · intro j hj
    by_cases hji : j = i
    · subst hji
      simp [hcon]
    · rw [Function.update_of_ne hji]
      exact h.taken j (List.mem_of_ne_of_mem hji hj)
  · intro j hj hjc
    obtain ⟨hji, hjc⟩ := not_or.mp (mt List.mem_cons.mpr hjc)
    rw [Function.update_of_ne hji]
    exact h.waiting j hj hjc

theorem credit_connect (h : Credit max n q) {i : ℕ} (hi : i < q.server.nClients)
    (hc : (q.link i).connected = false) : Credit max n (q.connect i) := by
  rw [h.nClients] at hi
  refine h.setLink hi (h.books i hi).connect ?_
  have hph := h.phase
  -- once `new` has returned, every client has connected already
  have hnot : ¬ Connected n q.link := by
    intro hcon
    rw [(hcon i hi).1] at hc
    exact Bool.noConfusion hc
  cases hctl : q.ctl with
  | waitForClients c =>
      rw [hctl] at hph
      exact hph.connect hc
  | dead e =>
      rw [hctl] at hph
      exact hph
  | returned r =>
      rw [hctl] at hph
      cases r with
      | ok r => exact absurd hph hnot
      | error e => exact absurd hph.1 hnot
  | idle => rw [hctl] at hph; exact absurd hph hnot
  | checkForAcks call wait k => rw [hctl] at hph; exact absurd hph hnot
  | tryClients call => rw [hctl] at hph; exact absurd hph hnot
  | sendAll item k => rw [hctl] at hph; exact absurd hph hnot

theorem credit_clientRecv (h : Credit max n q) {i : ℕ} {x : α} {rest : List α}
    (hd : (q.link i).down = x :: rest) : Credit max n (q.clientRecv i x rest) := by
  obtain ⟨hi, hwait⟩ := h.busy (i := i) (Or.inl (by simp [hd]))
  exact h.setLink hi ((h.books i hi).clientRecv hd)
    (phase_update h.phase hwait rfl (fun hr => hr))

theorem credit_clientAck (h : Credit max n q) {i : ℕ} (ho : (q.link i).owed ≠ 0) :
    Credit max n (q.clientAck i) := by
  obtain ⟨hi, hwait⟩ := h.busy (i := i) (Or.inr ho)
  exact h.setLink hi ((h.books i hi).clientAck ho)
    (phase_update h.phase hwait rfl (by simp))

theorem Credit.setCtl (h : Credit max n q) {ctl : Ctl α} (hphase : Phase n q.link ctl) :
    Credit max n { q with ctl := ctl } :=
  ⟨h.wf, h.nClients, h.perClientMaxSize, h.books, h.outside, hphase⟩

theorem phase_afterAcks {link : ℕ → Link α} (h : Connected n link) (s : Server)
    (call : PutCall α) (wait : Bool) (nAcks : ℕ) :
    Phase n link (Queue.afterAcks s call wait nAcks) := by
  unfold Queue.afterAcks
  split
  · exact h
  · split
    · exact h
    · split
      · exact ⟨h, fun h => h⟩
      · exact h

theorem credit_onFail (h : Credit max n q) (r : RecvFail) : Credit max n (q.onFail r) := by
  have hph := h.phase
  unfold Queue.onFail
  split
  · exact h.setCtl fun h => h
  · exact h.setCtl fun h => h
  · rename_i call wait nAcks hctl
    rw [hctl] at hph
    exact h.setCtl (phase_afterAcks hph _ _ _ _)
  · exact h
  · rename_i call wait nAcks hctl
    rw [hctl] at hph
    exact h.setCtl ⟨hph, fun h => h⟩
  · exact h

theorem credit_begin (h : Credit max n q) (c : Call α) (hidle : q.ctl = .idle) :
    Credit max n (q.begin c) := by
  have hph := h.phase
  rw [hidle] at hph
  cases c with
  | put c => exact h.setCtl hph
  | putToAll item => exact h.setCtl hph

/-- A send to client `i` by a server whose counter goes up with it. -/
theorem Credit.push (h : Credit max n q) {i : ℕ} (hi : i < n) (item : α) {s : Server}
    (hwf : s.WF) (hn : s.nClients = q.server.nClients)
    (hmax : s.perClientMaxSize = q.server.perClientMaxSize)
    (hsize : ∀ j, s.size j = q.server.size j + if j = i then 1 else 0) {ctl : Ctl α}
    (hphase : Phase n (q.push i item) ctl) :
    Credit max n { server := s, ctl := ctl, link := q.push i item } where
  wf := hwf
  nClients := hn.trans h.nClients
  perClientMaxSize := hmax.trans h.perClientMaxSize
  books := by
    intro j hj
    rw [hsize j]
    by_cases hji : j = i
    · subst hji
      simpa [Queue.push] using (h.books j hj).push item
    · simpa [Queue.push, hji] using h.books j hj
  outside := by
    intro j hj
    have hji : j ≠ i := by omega
    simpa [Queue.push, hji] using h.outside j hj
  phase := hphase

theorem Connected.push (h : Connected n q.link) (i : ℕ) (item : α) :
    Connected n (q.push i item) :=
  h.update rfl (fun hr => hr)

theorem credit_advance (h : Credit max n q) : Credit max n q.advance := by
  have hph := h.phase
  unfold Queue.advance
  split
  · rename_i call hctl
    rw [hctl] at hph
    split
    · rename_i i s hc
      obtain ⟨hi, hwf, hn, hmax, hsize, -⟩ := Server.choose_spec h.wf hc
      rw [h.nClients] at hi
      exact h.push hi call.item hwf hn hmax hsize
        (Connected.push hph _ _)
    · exact h.setCtl hph
  · rename_i item i hctl
    rw [hctl] at hph
    split
    · rename_i hi
      have hi' : i < n := h.nClients ▸ hi
      exact h.push hi' item (h.wf.sendToClient i) rfl rfl (Server.size_sendToClient h.wf hi)
        (Connected.push hph _ _)
    · exact h.setCtl hph
  · exact h

theorem credit_sendFail (h : Credit max n q) (hs : q.Sending) :
    Credit max n { q with ctl := .returned (.error .socket) } := by
  have hph := h.phase
  rcases hs with ⟨call, hctl⟩ | ⟨item, i, hctl⟩
  · rw [hctl] at hph
    exact h.setCtl ⟨hph, fun h => h⟩
  · rw [hctl] at hph
    exact h.setCtl ⟨hph, fun h => h⟩

theorem credit_ret (h : Credit max n q) {r : Except QueueError Reply}
    (hctl : q.ctl = .returned r) : Credit max n { q with ctl := .idle } := by
  have hph := h.phase
  rw [hctl] at hph
  cases r with
  | ok r => exact h.setCtl hph
  | error e => exact h.setCtl hph.1

/-- A client with a message on the wire is in range. -/
theorem Credit.lt_of_up (h : Credit max n q) {i : ℕ} {m : ClientMsg} {rest : List ClientMsg}
    (hu : (q.link i).up = m :: rest) : i < n := by
  by_contra hge
  rw [h.outside i (Nat.le_of_not_lt hge)] at hu
  simp at hu

/-- A message that arrives while `new` waits. -/
theorem credit_onReady (h : Credit max n q) {i : ℕ} {m : ClientMsg} {rest : List ClientMsg}
    (hu : (q.link i).up = m :: rest) {c : List ℕ} (hctl : q.ctl = .waitForClients c) :
    Credit max n (q.onMessage i m rest) := by
  have hi := h.lt_of_up hu
  have hph := h.phase
  rw [hctl] at hph
  obtain ⟨hic, hcon, rfl, rfl⟩ := hph.ready hi hu
  unfold Queue.onMessage
  simp only [hctl, hic, if_false, h.nClients]
  exact h.setLink hi ((h.books i hi).dropReady hu) (phase_afterReady (hph.take hi hic hcon))

/-- A message that arrives in `check_for_acks`. -/
theorem credit_onAck (h : Credit max n q) {i : ℕ} {m : ClientMsg} {rest : List ClientMsg}
    (hu : (q.link i).up = m :: rest) {call : PutCall α} {wait : Bool} {nAcks : ℕ}
    (hctl : q.ctl = .checkForAcks call wait nAcks) : Credit max n (q.onMessage i m rest) := by
  have hi := h.lt_of_up hu
  have hph := h.phase
  rw [hctl] at hph
  have hm : m = .ack := by
    cases m with
    | ack => rfl
    | ready => exact absurd (by simp [hu]) (hph i hi).2
  subst hm
  -- the books show an ack in flight, so the counter is positive and the server takes it
  obtain ⟨hpos, htaken⟩ := (h.books i hi).takeAck hu
  obtain ⟨s, hs, hwf, hn, hmax, hsize⟩ := Server.takeAck_ok h.wf (h.nClients ▸ hi) hpos
  unfold Queue.onMessage
  simp only [hctl, hs]
  refine ⟨hwf, hn.trans h.nClients, hmax.trans h.perClientMaxSize, ?_, ?_, ?_⟩
  · intro j hj
    have hj' := hsize j
    by_cases hji : j = i
    · subst hji
      rw [if_pos rfl] at hj'
      have hsz : s.size j = q.server.size j - 1 := by omega
      simpa [hsz] using htaken
    · rw [if_neg hji, Nat.add_zero] at hj'
      simpa [hji, hj'] using h.books j hj
  · intro j hj
    have hji : j ≠ i := by omega
    simpa [hji] using h.outside j hj
  · refine Connected.update hph rfl fun hr => ?_
    rw [hu]
    exact List.mem_cons_of_mem _ hr

theorem credit_onMessage (h : Credit max n q) {i : ℕ} {m : ClientMsg} {rest : List ClientMsg}
    (hu : (q.link i).up = m :: rest) : Credit max n (q.onMessage i m rest) := by
  cases hctl : q.ctl with
  | waitForClients c => exact credit_onReady h hu hctl
  | checkForAcks call wait nAcks => exact credit_onAck h hu hctl
  | _ => simpa only [Queue.onMessage, hctl] using h

theorem credit_step (h : Credit max n q) {l : Label α} {q' : Queue α} (hs : Step l q q') :
    Credit max n q' := by
  cases hs with
  | connect hi hc => exact credit_connect h hi hc
  | message hu => exact credit_onMessage h hu
  | recvFail r => exact credit_onFail h r
  | call c hidle => exact credit_begin h c hidle
  | advance => exact credit_advance h
  | sendFail hs => exact credit_sendFail h hs
  | ret hctl => exact credit_ret h hctl
  | clientRecv hd => exact credit_clientRecv h hd
  | clientAck ho => exact credit_clientAck h ho

end Preservation

theorem credit_of_reachable {max n : ℕ} (hn : 0 < n) {allowed : Call α → Prop} {q : Queue α}
    (h : Reachable max n allowed q) : Credit max n q := by
  refine Reach.invariant (fun q hq => ?_) (fun q q' hq hs => ?_) h
  · subst hq
    exact credit_new max hn
  · rcases hs with ⟨l, hs, -⟩
    exact credit_step hq hs

/-! ## The limit on a strict queue -/

/-- A call that respects the limit: `put` with `ignore_full = false`. -/
def Call.Strict : Call α → Prop
  | .put c => c.ignoreFull = false
  | .putToAll _ => False

def Ctl.Strict : Ctl α → Prop
  | .checkForAcks call _ _ | .tryClients call => call.ignoreFull = false
  | .sendAll _ _ => False
  | _ => True

/-- No counter is above the limit, and no call that could push one there is
in progress. -/
structure Limited (max n : ℕ) (q : Queue α) : Prop where
  size_le : ∀ i < n, q.server.size i ≤ max
  strict : q.ctl.Strict

theorem Server.size_le_of_takeAck {s s' : Server} {i : ℕ} {m : ClientMsg}
    (h : s.takeAck i m = .ok s') (j : ℕ) : s'.size j ≤ s.size j := by
  cases m with
  | ready => exact absurd h (by simp [Server.takeAck])
  | ack =>
      rcases hget : s.clientQueueSizes[i]? with _ | _ | k
      · simp [Server.takeAck, hget] at h
      · simp [Server.takeAck, hget] at h
      · simp only [Server.takeAck, hget, Except.ok.injEq] at h
        subst h
        obtain ⟨hlt, hk⟩ := List.getElem?_eq_some_iff.mp hget
        by_cases hij : i = j
        · subst hij
          simp [Server.size, hlt, hk]
        · simp [Server.size, hij]

theorem Ctl.strict_afterReady (n : ℕ) (connected : List ℕ) :
    (Queue.afterReady n connected : Ctl α).Strict := by
  unfold Queue.afterReady
  split
  · trivial
  · split <;> trivial

theorem Ctl.strict_afterAcks (s : Server) {call : PutCall α} (h : call.ignoreFull = false)
    (wait : Bool) (nAcks : ℕ) : (Queue.afterAcks s call wait nAcks).Strict := by
  unfold Queue.afterAcks
  split
  · exact h
  · split
    · trivial
    · split
      · trivial
      · exact h

theorem limited_onMessage {max n : ℕ} {q : Queue α} (h : Limited max n q) (i : ℕ)
    (m : ClientMsg) (rest : List ClientMsg) : Limited max n (q.onMessage i m rest) := by
  have hs := h.strict
  unfold Queue.onMessage
  split
  · cases m with
    | ready =>
        dsimp only
        split
        · exact ⟨h.size_le, trivial⟩
        · exact ⟨h.size_le, Ctl.strict_afterReady _ _⟩
    | ack => exact ⟨h.size_le, hs⟩
  · rename_i call wait nAcks hctl
    rw [hctl] at hs
    split
    · rename_i s hok
      exact ⟨fun j hj => (Server.size_le_of_takeAck hok j).trans (h.size_le j hj), hs⟩
    · exact ⟨h.size_le, trivial⟩
  · exact h

theorem limited_onFail {max n : ℕ} {q : Queue α} (h : Limited max n q) (r : RecvFail) :
    Limited max n (q.onFail r) := by
  have hs := h.strict
  unfold Queue.onFail
  split
  · exact ⟨h.size_le, trivial⟩
  · exact ⟨h.size_le, trivial⟩
  · rename_i call wait nAcks hctl
    rw [hctl] at hs
    exact ⟨h.size_le, Ctl.strict_afterAcks _ hs _ _⟩
  · exact h
  · exact ⟨h.size_le, trivial⟩
  · exact h

/-- The one send of a strict `put` goes to a client below the limit. -/
theorem limited_advance {max n : ℕ} {q : Queue α} (hc : Credit max n q)
    (h : Limited max n q) : Limited max n q.advance := by
  have hs := h.strict
  unfold Queue.advance
  split
  · rename_i call hctl
    rw [hctl] at hs
    split
    · rename_i i s hch
      obtain ⟨-, -, -, -, hsize, hroom⟩ := Server.choose_spec hc.wf hch
      refine ⟨fun j hj => ?_, trivial⟩
      rw [hsize j]
      by_cases hji : j = i
      · subst hji
        have := hroom hs
        rw [hc.perClientMaxSize] at this
        simp only [if_true]
        omega
      · simpa [hji] using h.size_le j hj
    · exact ⟨h.size_le, hs⟩
  · rename_i item i hctl
    rw [hctl] at hs
    exact hs.elim
  · exact h

theorem limited_step {max n : ℕ} {q q' : Queue α} (hc : Credit max n q) (h : Limited max n q)
    {l : Label α} (hl : ∀ c, l = .call c → c.Strict) (hs : Step l q q') :
    Limited max n q' := by
  cases hs with
  | connect hi hc => exact ⟨h.size_le, h.strict⟩
  | message hu => exact limited_onMessage h _ _ _
  | recvFail r => exact limited_onFail h r
  | call c hidle =>
      have := hl c rfl
      cases c with
      | put c => exact ⟨h.size_le, this⟩
      | putToAll item => exact this.elim
  | advance => exact limited_advance hc h
  | sendFail hs => exact ⟨h.size_le, trivial⟩
  | ret hctl => exact ⟨h.size_le, trivial⟩
  | clientRecv hd => exact ⟨h.size_le, h.strict⟩
  | clientAck ho => exact ⟨h.size_le, h.strict⟩

theorem limited_of_reachable {max n : ℕ} (hn : 0 < n) {allowed : Call α → Prop}
    (hstrict : ∀ c, allowed c → c.Strict) {q : Queue α}
    (h : Reachable max n allowed q) : Limited max n q := by
  refine Reach.invariant_under (J := Credit max n) (fun hq => credit_of_reachable hn hq)
    (fun q hq => ?_) (fun q q' hc hq hs => ?_) h
  · subst hq
    exact ⟨fun i _ => by simp [Queue.new], Ctl.strict_afterReady _ _⟩
  · rcases hs with ⟨l, hs, hl⟩
    exact limited_step hc hq (fun c hc' => hstrict c (hl c hc')) hs

/-! ## Credit accounting -/

theorem Server.WF.getElem?_eq {s : Server} (h : s.WF) {i : ℕ} (hi : i < s.nClients) :
    s.clientQueueSizes[i]? = some (s.size i) := by
  have hlt : i < s.clientQueueSizes.length := by rw [h.sizes_length]; exact hi
  simp [Server.size, List.getD_eq_getElem?_getD, List.getElem?_eq_getElem hlt]

theorem Credit.ctl_ne_defensive {max n : ℕ} {q : Queue α} (h : Credit max n q)
    {e : QueueError} (he : e.Defensive) :
    q.ctl ≠ .returned (.error e) ∧ q.ctl ≠ .dead e := by
  have hph := h.phase
  constructor
  · intro hctl
    rw [hctl] at hph
    exact hph.2 he
  · intro hctl
    rw [hctl] at hph
    exact hph he

/-- **Credit accounting.** In every reachable state of the queue: the counter
of a client is the number of items sent to it and not received, plus those
received whose ack the server has not consumed; an ack that can be consumed
meets a positive counter; none of the defensive errors is returned; each
client has received a prefix of what was sent to it, in order; and if only
`put` with `ignore_full = false` is called no counter exceeds the limit. -/
theorem clientQueueSizes_eq_outstanding {max n : ℕ} (hn : 0 < n) {allowed : Call α → Prop}
    {q : Queue α} (h : Reachable max n allowed q) :
    (∀ i < n,
      (q.link i).acked ≤ (q.link i).got.length ∧
      q.server.clientQueueSizes[i]? =
        some ((q.link i).down.length + ((q.link i).got.length - (q.link i).acked)) ∧
      ((q.link i).up.head? = some .ack → 0 < q.server.size i) ∧
      (q.link i).sent = (q.link i).got ++ (q.link i).down) ∧
    (∀ e : QueueError, e.Defensive → q.ctl ≠ .returned (.error e) ∧ q.ctl ≠ .dead e) ∧
    ((∀ c, allowed c → c.Strict) → ∀ i < n, q.server.size i ≤ max) := by
  have hc := credit_of_reachable hn h
  refine ⟨fun i hi => ?_, fun e he => hc.ctl_ne_defensive he,
    fun hstrict => (limited_of_reachable hn hstrict h).size_le⟩
  have hb := hc.books i hi
  have hg := hb.got_length
  refine ⟨by omega, ?_, fun hu => ?_, hb.sent_eq⟩
  · rw [hc.wf.getElem?_eq (hc.nClients ▸ hi), hb.size_eq]
    congr 1
    omega
  · obtain ⟨rest, hrest⟩ := List.head?_eq_some_iff.mp hu
    exact (hb.takeAck hrest).1

/-- One client connects, one item is put, received and not yet acknowledged. -/
def oneItemInFlight : Queue ℕ :=
  let q := ((Queue.new 1 1).connect 0).onMessage 0 .ready []
  ((q.begin (.put ⟨7, none, false⟩)).onFail .eagain).advance.clientRecv 0 7 []

theorem oneItemInFlight_reachable : Reachable 1 1 Call.Strict oneItemInFlight := by
  have tau : ∀ {q q' : Queue ℕ}, Reachable 1 1 Call.Strict q → Step .tau q q' →
      Reachable 1 1 Call.Strict q' :=
    fun h hs => .next h ⟨_, hs, fun c hc => Label.noConfusion rfl (heq_of_eq hc)⟩
  have h0 : Reachable 1 1 Call.Strict (Queue.new 1 1 : Queue ℕ) := .start rfl
  have h1 := tau h0 (.connect (i := 0) (by decide) rfl)
  have h2 := tau h1 (.message (i := 0) rfl)
  have hidle : (Queue.afterReady 1 [0] : Ctl ℕ) = .idle := by simp [Queue.afterReady]
  have h3 : Reachable 1 1 Call.Strict _ :=
    .next h2 ⟨_, .call (.put ⟨7, none, false⟩) hidle, fun c hc => by
      cases hc
      rfl⟩
  have h4 := tau h3 (.recvFail .eagain)
  have h5 := tau h4 .advance
  exact .next h5 ⟨_, .clientRecv (i := 0) rfl, fun c hc => Label.noConfusion rfl (heq_of_eq hc)⟩

theorem clientQueueSizes_eq_outstanding_oneItem :
    oneItemInFlight.server.clientQueueSizes[0]? =
        some ((oneItemInFlight.link 0).down.length +
          ((oneItemInFlight.link 0).got.length - (oneItemInFlight.link 0).acked)) ∧
      oneItemInFlight.server.size 0 ≤ 1 :=
  have h := clientQueueSizes_eq_outstanding (by decide) oneItemInFlight_reachable
  ⟨(h.1 0 (by decide)).2.1, h.2.2 (fun _ hc => hc) 0 (by decide)⟩

end P2PRdt.Zmq

import P2PRdt.Zmq.Credit

/-!
# What a user sees of a queue

`Fifo` is the queue without counters, acks and wire: the call that is in
progress, what has been sent to each client and what each client has
received. A `put` that is accepted appends its item to one stream, a `put`
that gives up or fails appends nothing, and `put_to_all` appends the item to
one stream after another. `Credit.refines` shows that each step of the queue
of `Zmq.Queue` is a step of its `Fifo` or does not change it; the pipelines
built on the queue are verified against the `Fifo` only.
-/

namespace P2PRdt.Zmq

variable {α : Type*}

/-- The call in progress, as its caller knows it. -/
inductive CallPhase (α : Type*) where
  | starting
  | idle
  | putting (c : PutCall α)
  | sendingAll (item : α) (k : ℕ)
  | returned (r : Except QueueError Reply)
  | failed

structure Fifo (α : Type*) where
  phase : CallPhase α
  sent : ℕ → List α
  got : ℕ → List α

namespace CallPhase

def ofCall : Call α → CallPhase α
  | .put c => .putting c
  | .putToAll item => .sendingAll item 0

def ofCtl : Ctl α → CallPhase α
  | .waitForClients _ => .starting
  | .idle => .idle
  | .checkForAcks call _ _ => .putting call
  | .tryClients call => .putting call
  | .sendAll item i => .sendingAll item i
  | .returned r => .returned r
  | .dead _ => .failed

/-- The server is in no call and has not failed. -/
def Quiet : CallPhase α → Prop
  | .starting | .idle => True
  | _ => False

/-- The server has panicked or returned an error. -/
def Failed : CallPhase α → Prop
  | .failed | .returned (.error _) => True
  | _ => False

/-- A call is in progress that may still fail on the socket. -/
def Busy : CallPhase α → Prop
  | .putting _ | .sendingAll _ _ => True
  | _ => False

end CallPhase

/-- The streams after `x` is appended to stream `i`. -/
def append (S : ℕ → List α) (i : ℕ) (x : α) : ℕ → List α :=
  Function.update S i (S i ++ [x])

@[simp] theorem append_self (S : ℕ → List α) (i : ℕ) (x : α) :
    append S i x i = S i ++ [x] := by
  simp [append]

theorem append_of_ne (S : ℕ → List α) {i j : ℕ} (h : j ≠ i) (x : α) :
    append S i x j = S j := by
  simp [append, h]

namespace Fifo

/-- A queue server with `n` clients, seen from outside. -/
inductive Step (n : ℕ) : Label α → Fifo α → Fifo α → Prop
  | started {f : Fifo α} : f.phase = .starting → Step n .tau f { f with phase := .idle }
  | died {f : Fifo α} : f.phase = .starting → Step n .tau f { f with phase := .failed }
  | call {f : Fifo α} (c : Call α) : f.phase = .idle →
      Step n (.call c) f { f with phase := .ofCall c }
  | accept {f : Fifo α} {c : PutCall α} {i : ℕ} : f.phase = .putting c → i < n →
      Step n .tau f
        { f with phase := .returned (.ok (.put true)), sent := append f.sent i c.item }
  | giveUp {f : Fifo α} {c : PutCall α} : f.phase = .putting c → c.waitSeconds.isSome →
      Step n .tau f { f with phase := .returned (.ok (.put false)) }
  | sendOne {f : Fifo α} {item : α} {k : ℕ} : f.phase = .sendingAll item k → k < n →
      Step n .tau f { f with phase := .sendingAll item (k + 1), sent := append f.sent k item }
  | sentAll {f : Fifo α} {item : α} {k : ℕ} : f.phase = .sendingAll item k → n ≤ k →
      Step n .tau f { f with phase := .returned (.ok .putToAll) }
  | error {f : Fifo α} (e : QueueError) : f.phase.Busy →
      Step n .tau f { f with phase := .returned (.error e) }
  | ret {f : Fifo α} {r : Except QueueError Reply} : f.phase = .returned r →
      Step n (.ret r) f { f with phase := .idle }
  | recv {f : Fifo α} {i : ℕ} {x : α} : i < n → f.got i ++ [x] <+: f.sent i →
      Step n (.recv i x) f { f with got := append f.got i x }

variable {n : ℕ} {f f' : Fifo α}

theorem Step.got_eq {l : Label α} (h : Step n l f f') (hl : ∀ i x, l ≠ .recv i x) :
    f'.got = f.got := by
  cases h with
  | recv hi hp => exact absurd rfl (hl _ _)
  | _ => rfl

theorem Step.recv_inv {i : ℕ} {x : α} (h : Step n (.recv i x) f f') :
    i < n ∧ f.got i ++ [x] <+: f.sent i ∧ f'.phase = f.phase ∧ f'.sent = f.sent ∧
      f'.got = append f.got i x := by
  cases h with
  | recv hi hp => exact ⟨hi, hp, rfl, rfl, rfl⟩

/-- All that an internal step can do, errors apart. -/
def After (n : ℕ) (f f' : Fifo α) : Prop :=
  match f.phase with
  | .starting => f' = { f with phase := .idle }
  | .putting c =>
      (∃ i < n, f' = { f with phase := .returned (.ok (.put true)),
                              sent := append f.sent i c.item }) ∨
        (c.waitSeconds.isSome ∧ f' = { f with phase := .returned (.ok (.put false)) })
  | .sendingAll item k =>
      (k < n ∧ f' = { f with phase := .sendingAll item (k + 1),
                             sent := append f.sent k item }) ∨
        (n ≤ k ∧ f' = { f with phase := .returned (.ok .putToAll) })
  | _ => False

theorem Step.after (h : Step n .tau f f') (hf : ¬ f'.phase.Failed) : After n f f' := by
  unfold After
  cases h with
  | started hp => rw [hp]
  | died hp => exact absurd trivial hf
  | accept hp hi =>
      rw [hp]
      exact .inl ⟨_, hi, rfl⟩
  | giveUp hp hw =>
      rw [hp]
      exact .inr ⟨hw, rfl⟩
  | sendOne hp hk =>
      rw [hp]
      exact .inl ⟨hk, rfl⟩
  | sentAll hp hk =>
      rw [hp]
      exact .inr ⟨hk, rfl⟩
  | error e hb => exact absurd trivial hf

theorem Step.call_inv {c : Call α} (h : Step n (.call c) f f') :
    f' = { f with phase := .ofCall c } := by
  cases h with
  | call c hp => rfl

theorem Step.ret_inv {r : Except QueueError Reply} (h : Step n (.ret r) f f') :
    f.phase = .returned r ∧ f' = { f with phase := .idle } := by
  cases h with
  | ret hp => exact ⟨hp, rfl⟩

/-- A quiet server sends nothing by itself. -/
theorem After.quiet (h : After n f f') (hq : f.phase.Quiet) :
    f'.phase.Quiet ∧ f'.sent = f.sent := by
  unfold After at h
  cases hp : f.phase with
  | starting =>
      rw [hp] at h
      subst h
      exact ⟨trivial, rfl⟩
  | idle =>
      rw [hp] at h
      exact h.elim
  | putting c =>
      rw [hp] at hq
      exact hq.elim
  | sendingAll item k =>
      rw [hp] at hq
      exact hq.elim
  | returned r =>
      rw [hp] at hq
      exact hq.elim
  | failed =>
      rw [hp] at hq
      exact hq.elim

end Fifo

/-! ## The queue refines its `Fifo` -/

def Queue.abs (q : Queue α) : Fifo α where
  phase := .ofCtl q.ctl
  sent := fun i => (q.link i).sent
  got := fun i => (q.link i).got

/-- A change of one link that keeps its histories is invisible. -/
theorem Queue.abs_setLink (q : Queue α) {i : ℕ} {l : Link α}
    (hs : l.sent = (q.link i).sent) (hg : l.got = (q.link i).got) :
    (q.setLink i l).abs = q.abs := by
  simp only [Queue.abs, Queue.setLink, Fifo.mk.injEq, true_and]
  constructor <;>
  · funext j
    by_cases hji : j = i
    · subst hji
      simp [hs, hg]
    · simp [hji]

theorem Queue.push_sent (q : Queue α) (i : ℕ) (item : α) :
    (fun j => (q.push i item j).sent) = append q.abs.sent i item := by
  funext j
  by_cases hji : j = i
  · subst hji
    simp [Queue.push, Queue.abs]
  · simp [Queue.push, append, hji, Queue.abs]

theorem Queue.push_got (q : Queue α) (i : ℕ) (item : α) :
    (fun j => (q.push i item j).got) = q.abs.got := by
  funext j
  by_cases hji : j = i
  · subst hji
    simp [Queue.push, Queue.abs]
  · simp [Queue.push, hji, Queue.abs]

theorem Queue.abs_clientRecv (q : Queue α) (i : ℕ) (x : α) (rest : List α) :
    (q.clientRecv i x rest).abs = { q.abs with got := append q.abs.got i x } := by
  simp only [Queue.abs, Queue.clientRecv, Queue.setLink, Fifo.mk.injEq, true_and]
  constructor
  · funext j
    by_cases hji : j = i
    · subst hji
      simp
    · simp [hji]
  · funext j
    by_cases hji : j = i
    · subst hji
      simp
    · simp [append, hji]

/-- Every stream of received items is a prefix of the stream of sent ones. -/
theorem Credit.got_prefix_sent {max n : ℕ} {q : Queue α} (h : Credit max n q) (i : ℕ) :
    q.abs.got i <+: q.abs.sent i := by
  by_cases hi : i < n
  · show (q.link i).got <+: (q.link i).sent
    rw [(h.books i hi).sent_eq]
    exact List.prefix_append _ _
  · show (q.link i).got <+: (q.link i).sent
    rw [h.outside i (Nat.le_of_not_lt hi)]

section Refinement

variable {max n : ℕ} {q q' : Queue α}

theorem abs_phase_eq {c : Ctl α} (h : q.ctl = c) : q.abs.phase = .ofCtl c :=
  congrArg CallPhase.ofCtl h

/-- A step that leaves the histories alone and takes the server from `c` to
`c'`, which the caller sees as the same phase. -/
theorem abs_eq_of_phase (q₁ : Queue α) (c' : Ctl α) (habs : q₁.abs = q.abs)
    (hp : CallPhase.ofCtl c' = q.abs.phase) : ({ q₁ with ctl := c' } : Queue α).abs = q.abs := by
  show ({ q₁.abs with phase := .ofCtl c' } : Fifo α) = q.abs
  rw [habs, hp]

theorem refines_afterReady {q₁ : Queue α} (habs : q₁.abs = q.abs)
    (hst : q.abs.phase = .starting) (connected : List ℕ) :
    Fifo.Step n .tau q.abs
        ({ q₁ with ctl := Queue.afterReady n connected } : Queue α).abs ∨
      ({ q₁ with ctl := Queue.afterReady n connected } : Queue α).abs = q.abs := by
  show Fifo.Step n .tau q.abs { q₁.abs with phase := .ofCtl _ } ∨ _
  rw [habs]
  unfold Queue.afterReady
  split
  · exact .inr (abs_eq_of_phase _ _ habs hst.symm)
  · split
    · exact .inl (.started hst)
    · exact .inl (.died hst)

theorem refines_onMessage (hn : q.server.nClients = n) (i : ℕ) (m : ClientMsg)
    (rest : List ClientMsg) :
    Fifo.Step n .tau q.abs (q.onMessage i m rest).abs ∨
      (q.onMessage i m rest).abs = q.abs := by
  have habs := q.abs_setLink (i := i) (l := { q.link i with up := rest }) rfl rfl
  unfold Queue.onMessage
  split
  · rename_i connected hctl
    have hst : q.abs.phase = .starting := abs_phase_eq hctl
    cases m with
    | ready =>
        dsimp only
        split
        · left
          show Fifo.Step n .tau q.abs { (q.setLink i _).abs with phase := .failed }
          rw [habs]
          exact .died hst
        · rw [hn]
          exact refines_afterReady habs hst _
    | ack => exact .inr habs
  · rename_i call wait nAcks hctl
    have hput : q.abs.phase = .putting call := abs_phase_eq hctl
    split
    · rename_i s hok
      right
      exact abs_eq_of_phase
        (q.setLink i { q.link i with up := rest, acked := (q.link i).acked + 1 })
        (.checkForAcks call wait (nAcks + 1)) (q.abs_setLink rfl rfl) hput.symm
    · rename_i e herr
      left
      show Fifo.Step n .tau q.abs { (q.setLink i _).abs with phase := .returned (.error e) }
      rw [habs]
      exact .error e (by rw [hput]; trivial)
  · exact .inr rfl

theorem refines_onFail (r : RecvFail) :
    Fifo.Step n .tau q.abs (q.onFail r).abs ∨ (q.onFail r).abs = q.abs := by
  unfold Queue.onFail
  split
  · rename_i connected hctl
    exact .inl (.died (abs_phase_eq hctl))
  · rename_i connected _ hctl _
    exact .inl (.died (abs_phase_eq hctl))
  · rename_i call wait nAcks hctl
    have hput : q.abs.phase = .putting call := abs_phase_eq hctl
    unfold Queue.afterAcks
    split
    · exact .inr (abs_eq_of_phase _ _ rfl hput.symm)
    · split
      · rename_i hwait
        exact .inl (.giveUp hput hwait.2)
      · split
        · exact .inl (.error _ (by rw [hput]; trivial))
        · exact .inr (abs_eq_of_phase _ _ rfl hput.symm)
  · exact .inr rfl
  · rename_i call wait nAcks hctl
    exact .inl (.error _ (by rw [abs_phase_eq hctl]; trivial))
  · exact .inr rfl

theorem refines_advance (h : Credit max n q) :
    Fifo.Step n .tau q.abs q.advance.abs ∨ q.advance.abs = q.abs := by
  unfold Queue.advance
  split
  · rename_i call hctl
    have hput : q.abs.phase = .putting call := abs_phase_eq hctl
    split
    · rename_i i s hch
      left
      obtain ⟨hi, -⟩ := Server.choose_spec h.wf hch
      rw [h.nClients] at hi
      simp only [Queue.abs, q.push_sent, q.push_got]
      exact .accept hput hi
    · exact .inr (abs_eq_of_phase _ _ rfl hput.symm)
  · rename_i item i hctl
    have hall : q.abs.phase = .sendingAll item i := abs_phase_eq hctl
    split
    · rename_i hlt
      left
      rw [h.nClients] at hlt
      simp only [Queue.abs, q.push_sent, q.push_got]
      exact .sendOne hall hlt
    · rename_i hge
      rw [h.nClients] at hge
      exact .inl (.sentAll hall (Nat.le_of_not_lt hge))
  · exact .inr rfl

/-- **Refinement.** Each step of a queue with the credit invariant is a step
of its `Fifo` with the same label, or an internal step that the `Fifo` does
not show. -/
theorem Credit.refines (h : Credit max n q) {l : Label α} (hs : Step l q q') :
    Fifo.Step n l q.abs q'.abs ∨ (l = .tau ∧ q'.abs = q.abs) := by
  cases hs with
  | connect hi hc => exact .inr ⟨rfl, q.abs_setLink rfl rfl⟩
  | message hu => exact (refines_onMessage h.nClients _ _ _).imp_right fun he => ⟨rfl, he⟩
  | recvFail r => exact (refines_onFail r).imp_right fun he => ⟨rfl, he⟩
  | call c hidle =>
      left
      cases c with
      | put c => exact .call (.put c) (abs_phase_eq hidle)
      | putToAll item => exact .call (.putToAll item) (abs_phase_eq hidle)
  | advance => exact (refines_advance h).imp_right fun he => ⟨rfl, he⟩
  | sendFail hsend =>
      refine .inl (.error .socket ?_)
      rcases hsend with ⟨call, hctl⟩ | ⟨item, i, hctl⟩
      · rw [abs_phase_eq hctl]
        trivial
      · rw [abs_phase_eq hctl]
        trivial
  | ret hctl => exact .inl (.ret (abs_phase_eq hctl))
  | @clientRecv _ i x rest hd =>
      left
      obtain ⟨hi, -⟩ := h.busy (i := i) (.inl (by rw [hd]; exact List.cons_ne_nil _ _))
      have hsent := (h.books i hi).sent_eq
      rw [q.abs_clientRecv]
      refine .recv hi ?_
      show (q.link i).got ++ [x] <+: (q.link i).sent
      rw [hsent, hd]
      exact ⟨rest, by simp⟩
  | clientAck ho => exact .inr ⟨rfl, q.abs_setLink rfl rfl⟩

end Refinement

end P2PRdt.Zmq

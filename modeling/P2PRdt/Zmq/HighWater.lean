import P2PRdt.Zmq.Delivery
import Mathlib.Algebra.Order.BigOperators.Group.Finset
import Mathlib.Algebra.BigOperators.Group.Finset.Piecewise
import Mathlib.Algebra.Group.Action.Defs

/-!
# The high-water mark of the socket

A ROUTER socket without `ROUTER_MANDATORY` discards a message to a client whose
pipe already holds `H` messages, and `send_multipart` does not fail.
`HwmStep H` is the queue over such a transport: `sent` is what `put` has
accepted, `down` what the pipe holds. Below the mark it is the queue of
`Zmq.Queue`, and the credit of `per_client_max_size` items stays below it
exactly when it is not larger than the mark.
-/

namespace P2PRdt.Zmq

open Lib

variable {α : Type*} {H max n : ℕ}

/-! ## The lossy transport -/

/-- A step of the queue; an item for a full pipe is accepted and discarded. -/
inductive HwmStep (H : ℕ) : Label α → Queue α → Queue α → Prop
  | unsent {l : Label α} {q q' : Queue α} : Step l q q' → Unsent q q' → HwmStep H l q q'
  | carried {l : Label α} {q q' : Queue α} {i : ℕ} {x : α} : Step l q q' → SentTo q q' i x →
      (q.link i).down.length < H → HwmStep H l q q'
  | discarded {l : Label α} {q q' : Queue α} {i : ℕ} {x : α} : Step l q q' → SentTo q q' i x →
      H ≤ (q.link i).down.length →
      HwmStep H l q (q'.setLink i { q'.link i with down := (q.link i).down })

/-- Runs with `ignore_full = false`. -/
def HwmReachable (H max n : ℕ) : Queue α → Prop :=
  Reach (· = Queue.new max n) (fun q q' => ∃ l, HwmStep H l q q' ∧ ∀ c, l = .call c → c.Strict)

/-- Client `i` calls `get` and nothing else happens. -/
def Received (i : ℕ) : Queue α → Queue α → Prop :=
  Relation.ReflTransGen fun q q' =>
    ∃ x rest, (q.link i).down = x :: rest ∧ q' = q.clientRecv i x rest

/-- Every item that was accepted for a client is returned by one of its calls
of `get`, in order and once, and the counter counts the items that are on the
wire or whose ack is due or on the wire. -/
structure NoLoss (n : ℕ) (q : Queue α) : Prop where
  got : ∀ i < n, ∀ q', Received i q q' → (q'.link i).down = [] →
    (q'.link i).got = (q.link i).sent
  counted : ∀ i < n, q.server.size i =
    (q.link i).down.length + (q.link i).owed + (q.link i).up.count .ack

theorem Received.got_append_down {i : ℕ} {q q' : Queue α} (h : Received i q q') :
    (q'.link i).got ++ (q'.link i).down = (q.link i).got ++ (q.link i).down := by
  induction h with
  | refl => rfl
  | tail _ hs ih =>
      rcases hs with ⟨x, rest, hd, rfl⟩
      rw [← ih, hd]
      simp [Queue.clientRecv, Queue.setLink]

theorem exists_received (i : ℕ) (q : Queue α) :
    ∃ q', Received i q q' ∧ (q'.link i).down = [] := by
  induction hd : (q.link i).down generalizing q with
  | nil => exact ⟨q, .refl, hd⟩
  | cons x rest ih =>
      obtain ⟨q', hrun, hend⟩ := ih (q.clientRecv i x rest) (by
        simp [Queue.clientRecv, Queue.setLink])
      exact ⟨q', .head ⟨x, rest, hd, rfl⟩ hrun, hend⟩

/-! ## Below the mark -/

/-- With the credit below the mark nothing is ever discarded. -/
theorem HwmReachable.reachable (hn : 0 < n) (hH : max ≤ H) {q : Queue α}
    (h : HwmReachable H max n q) : Reachable max n Call.Strict q := by
  induction h with
  | start h0 => exact .start h0
  | @next q q' _ hs ih =>
      rcases hs with ⟨l, hs, hl⟩
      cases hs with
      | unsent hs _ => exact .next ih ⟨l, hs, hl⟩
      | carried hs _ _ => exact .next ih ⟨l, hs, hl⟩
      | @discarded q' i x hs hto hfull =>
          -- the client was below its limit, and its counter covers the pipe
          have hc := credit_of_reachable hn ih
          have hstrict := (limited_of_reachable hn (fun _ h => h) ih).strict
          rcases strict_step hc hstrict hs with ⟨hunsent, -⟩ | ⟨j, hj, y, hto', hlt, -⟩
          · exact absurd hto hunsent.not_sentTo
          · obtain rfl := hto.unique hto'
            have hbooks := (hc.books i hj).size_eq
            omega

theorem NoLoss.of_credit {q : Queue α} (hc : Credit max n q) : NoLoss n q := by
  refine ⟨fun i hi q' hrun hend => ?_, fun i hi => (hc.books i hi).size_eq⟩
  have hsame := hrun.got_append_down
  rw [hend, List.append_nil] at hsame
  rw [hsame, (hc.books i hi).sent_eq]

/-! ## Above the mark -/

/-- `k` items have been accepted and no client has called `get`. -/
structure Filling (H max n : ℕ) (q : Queue α) (k : ℕ) : Prop where
  reachable : HwmReachable H max n q
  idle : q.ctl = .idle
  wf : q.server.WF
  nClients : q.server.nClients = n
  perClientMaxSize : q.server.perClientMaxSize = max
  untouched : ∀ i, (q.link i).got = []
  size_eq : ∀ i, q.server.size i = (q.link i).sent.length
  down_le : ∀ i, (q.link i).down.length ≤ H
  total : ∑ i ∈ Finset.range n, (q.link i).sent.length = k

theorem HwmReachable.tau {q q' : Queue α} (h : HwmReachable H max n q) (hs : Step .tau q q')
    (hunsent : Unsent q q') : HwmReachable H max n q' :=
  .next h ⟨.tau, .unsent hs hunsent, nofun⟩

/-- The first `k` clients have connected. -/
def joined (max n k : ℕ) : Queue α where
  server := Server.new max n
  ctl := Queue.afterReady n (List.range k).reverse
  link i := if i < k then { connected := true } else {}

theorem joined_succ {k : ℕ} (hk : k < n) : ((joined max n k : Queue α).connect k).onMessage k
    .ready [] = joined max n (k + 1) := by
  have hctl : (joined max n k : Queue α).ctl = .waitForClients (List.range k).reverse := by
    show Queue.afterReady n (List.range k).reverse = _
    rw [Queue.afterReady, if_pos (by simpa using hk)]
  have hmem : k ∉ (List.range k).reverse := by simp
  have hrange : k :: (List.range k).reverse = (List.range (k + 1)).reverse := by
    rw [List.range_succ, List.reverse_append]
    rfl
  have hctl' : ((joined max n k : Queue α).connect k).ctl =
      .waitForClients (List.range k).reverse := hctl
  unfold Queue.onMessage
  simp only [hctl', if_neg hmem, hrange]
  unfold joined Queue.connect Queue.setLink
  simp only [Queue.mk.injEq, true_and]
  refine ⟨rfl, ?_⟩
  funext i
  by_cases hik : i = k
  · subst hik
    simp
  · simp only [Function.update_of_ne hik]
    exact if_congr (by omega) rfl rfl

theorem joined_reachable {k : ℕ} (hk : k ≤ n) :
    HwmReachable H max n (joined max n k : Queue α) := by
  induction k with
  | zero =>
      refine .start ?_
      show joined max n 0 = _
      simp [joined, Queue.new]
  | succ k ih =>
      rw [← joined_succ hk]
      have hconnect : Step .tau (joined max n k : Queue α) ((joined max n k).connect k) :=
        .connect hk (by simp [joined])
      have hready : (((joined max n k : Queue α).connect k).link k).up = [.ready] := by
        simp [joined, Queue.connect, Queue.setLink]
      exact ((ih (Nat.le_of_succ_le hk)).tau hconnect (unsent_update rfl rfl)).tau
        (.message hready) (unsent_onMessage _ _ _ _).1

theorem mergeSort_reverse_range (n : ℕ) : (List.range n).reverse.mergeSort = List.range n := by
  have hperm := (List.mergeSort_perm (List.range n).reverse (fun a b => decide (a ≤ b))).trans
    (List.reverse_perm (List.range n))
  exact hperm.eq_of_pairwise' (List.pairwise_mergeSort' (· ≤ ·) _) List.pairwise_le_range

theorem filling_joined (hn : 0 < n) : Filling H max n (joined max n n : Queue α) 0 := by
  have hidle : (joined max n n : Queue α).ctl = .idle := by
    show Queue.afterReady n (List.range n).reverse = _
    rw [Queue.afterReady, if_neg (by simp), mergeSort_reverse_range, if_pos rfl]
  have hlink : ∀ i, ((joined max n n : Queue α).link i).got = [] ∧
      ((joined max n n : Queue α).link i).sent = [] ∧
      ((joined max n n : Queue α).link i).down = [] := by
    intro i
    unfold joined
    dsimp only
    split <;> exact ⟨rfl, rfl, rfl⟩
  refine ⟨joined_reachable le_rfl, hidle, Server.wf_new max hn, rfl, rfl, fun i => (hlink i).1,
    fun i => ?_, fun i => ?_, ?_⟩
  · rw [(hlink i).2.1]
    exact Server.size_new max n i
  · rw [(hlink i).2.2]
    exact Nat.zero_le H
  · exact Finset.sum_eq_zero fun i _ => by rw [(hlink i).2.1]; rfl

/-- While fewer than `n * max` items are out, some client has room. -/
theorem Filling.choose {q : Queue α} {k : ℕ} (h : Filling H max n q k) (hk : k < n * max) :
    ∃ i s, q.server.choose false = some (i, s) := by
  by_contra hno
  have hnone : q.server.choose false = none := by
    rw [Option.eq_none_iff_forall_ne_some]
    rintro ⟨i, s⟩ heq
    exact hno ⟨i, s, heq⟩
  have hfull := (Server.choose_none h.wf hnone).2
  rw [h.nClients, h.perClientMaxSize] at hfull
  have hsum : (Finset.range n).card • max ≤ ∑ i ∈ Finset.range n, (q.link i).sent.length := by
    refine Finset.card_nsmul_le_sum _ _ _ fun i hi => ?_
    rw [← h.size_eq i]
    exact hfull i (Finset.mem_range.mp hi)
  rw [h.total, Finset.card_range, smul_eq_mul] at hsum
  omega

/-- `put` with an empty `check_for_acks` comes to its loop. -/
theorem HwmReachable.tryClients {q : Queue α} (h : HwmReachable H max n q) (hidle : q.ctl = .idle)
    {c : PutCall α} (hc : c.ignoreFull = false) :
    HwmReachable H max n { q with ctl := .tryClients c } := by
  have hbegin : HwmReachable H max n (q.begin (.put c)) :=
    .next h ⟨.call (.put c), .unsent (.call (.put c) hidle) (Unsent.refl q),
      fun c' hc' => by cases hc'; exact hc⟩
  refine hbegin.tau ?_ (Unsent.refl q)
  exact .recvFail (q := q.begin (.put c)) .eagain

/-- `x` is accepted for client `i`, and goes into its pipe if there is room. -/
def Queue.pushHwm (q : Queue α) (H i : ℕ) (x : α) : ℕ → Link α :=
  Function.update q.link i
    { q.link i with
      down := if (q.link i).down.length < H then (q.link i).down ++ [x] else (q.link i).down
      sent := (q.link i).sent ++ [x] }

/-- A whole `put` that finds room for its item. -/
theorem HwmReachable.put {q : Queue α} (h : HwmReachable H max n q) (hidle : q.ctl = .idle)
    {i : ℕ} {s : Server} (hchoose : q.server.choose false = some (i, s)) (x : α) :
    HwmReachable H max n
      { server := s, ctl := .returned (.ok (.put true)), link := q.pushHwm H i x } := by
  have htry := h.tryClients hidle (c := ⟨x, none, false⟩) rfl
  have hs : Step .tau { q with ctl := .tryClients ⟨x, none, false⟩ }
      { server := s, ctl := .returned (.ok (.put true)), link := q.push i x } := by
    have hadvance := Step.advance (q := { q with ctl := .tryClients ⟨x, none, false⟩ })
    simp only [Queue.advance, hchoose] at hadvance
    exact hadvance
  have hto := sentTo_push { q with ctl := .tryClients ⟨x, none, false⟩ } i x s
    (.returned (.ok (.put true)))
  have hcall : ∀ c : Call α, Label.tau = .call c → c.Strict := by
    intro c hc
    cases hc
  rcases Nat.lt_or_ge (q.link i).down.length H with hlt | hge
  · have hpush : q.pushHwm H i x = q.push i x := by
      rw [Queue.pushHwm, if_pos hlt, Queue.push]
    rw [hpush]
    exact .next htry ⟨.tau, .carried hs hto hlt, hcall⟩
  · have hpush : q.pushHwm H i x =
        Function.update (q.push i x) i { q.push i x i with down := (q.link i).down } := by
      rw [Queue.pushHwm, if_neg (not_lt.mpr hge), Queue.push, Function.update_self,
        Function.update_idem]
    rw [hpush]
    exact .next htry ⟨.tau, .discarded hs hto hge, hcall⟩

theorem HwmReachable.ret {q : Queue α} (h : HwmReachable H max n q)
    {r : Except QueueError Reply} (hctl : q.ctl = .returned r) :
    HwmReachable H max n { q with ctl := .idle } :=
  .next h ⟨.ret r, .unsent (.ret hctl) (fun _ => rfl), nofun⟩

theorem Filling.put {q : Queue α} {k : ℕ} (h : Filling H max n q k) (hk : k < n * max) (x : α) :
    ∃ q' : Queue α, Filling H max n q' (k + 1) := by
  obtain ⟨i, s, hchoose⟩ := h.choose hk
  obtain ⟨hi, hwf, hn, hmax, hsize, -⟩ := Server.choose_spec h.wf hchoose
  rw [h.nClients] at hi
  have hreach := (h.reachable.put h.idle hchoose x).ret rfl
  have hlink : ∀ j, (q.pushHwm H i x j).got = [] ∧ (q.pushHwm H i x j).down.length ≤ H ∧
      (q.pushHwm H i x j).sent.length = (q.link j).sent.length + if j = i then 1 else 0 := by
    intro j
    have hdown := h.down_le j
    unfold Queue.pushHwm
    by_cases hji : j = i
    · subst hji
      rw [Function.update_self, if_pos rfl]
      refine ⟨h.untouched j, ?_, by rw [List.length_append, List.length_singleton]⟩
      dsimp only
      split
      · rw [List.length_append, List.length_singleton]
        omega
      · exact hdown
    · rw [Function.update_of_ne hji, if_neg hji]
      exact ⟨h.untouched j, hdown, rfl⟩
  refine ⟨_, hreach, rfl, hwf, hn.trans h.nClients, hmax.trans h.perClientMaxSize,
    fun j => (hlink j).1, fun j => ?_, fun j => (hlink j).2.1, ?_⟩
  · rw [(hlink j).2.2, ← h.size_eq]
    exact hsize j
  · rw [Finset.sum_congr rfl fun j _ => (hlink j).2.2, Finset.sum_add_distrib, h.total,
      Finset.sum_ite_eq' (Finset.range n) i, if_pos (Finset.mem_range.mpr hi)]

theorem exists_filling (hn : 0 < n) (x : α) {k : ℕ} (hk : k ≤ n * max) :
    ∃ q : Queue α, Filling H max n q k := by
  induction k with
  | zero => exact ⟨_, filling_joined hn⟩
  | succ k ih =>
      obtain ⟨q, hq⟩ := ih (Nat.le_of_succ_le hk)
      exact hq.put hk x

/-- One item more than all pipes hold has been lost. -/
theorem Filling.not_noLoss {q : Queue α} {k : ℕ} (h : Filling H max n q k) (hk : n * H < k) :
    ¬ NoLoss n q := by
  intro hno
  have hle : ∀ i ∈ Finset.range n, (q.link i).sent.length ≤ H := by
    intro i hi
    obtain ⟨q', hrun, hend⟩ := exists_received i q
    have hgot := hrun.got_append_down
    rw [hend, List.append_nil, h.untouched i, List.nil_append,
      hno.got i (Finset.mem_range.mp hi) q' hrun hend] at hgot
    rw [hgot]
    exact h.down_le i
  have hsum := Finset.sum_le_card_nsmul _ _ _ hle
  rw [h.total, Finset.card_range, smul_eq_mul] at hsum
  omega

/-- **No accepted item is lost**: exactly where the limit of a client is not
above the high-water mark. -/
theorem noLoss_iff [Nonempty α] (hn : 1 ≤ n) :
    (∀ q : Queue α, HwmReachable H max n q → NoLoss n q) ↔ max ≤ H := by
  constructor
  · intro h
    by_contra hlt
    have hfits : n * H + 1 ≤ n * max := by
      have hmul : n * (H + 1) ≤ n * max := Nat.mul_le_mul_left n (not_le.mp hlt)
      rw [Nat.mul_add, Nat.mul_one] at hmul
      omega
    obtain ⟨q, hq⟩ := exists_filling (H := H) hn (Classical.arbitrary α) hfits
    exact hq.not_noLoss (Nat.lt_succ_self _) (h q hq.reachable)
  · intro hH q hq
    exact NoLoss.of_credit (credit_of_reachable hn (hq.reachable hn hH))

/-! ## A pipe for one message -/

/-- Two items put with `per_client_max_size = 2` over a pipe for one message:
both puts have returned true, and the second item is nowhere. -/
def secondItemLost : Queue ℕ where
  server := { perClientMaxSize := 2, nClients := 1, clientQueueSizes := [2], lastSentIdx := 0 }
  ctl := .returned (.ok (.put true))
  link i := if i = 0 then { connected := true, down := [7], sent := [7, 8] } else {}

theorem secondItemLost_reachable : HwmReachable 1 2 1 secondItemLost := by
  have h0 : Filling 1 2 1 (joined 2 1 1 : Queue ℕ) 0 := filling_joined Nat.one_pos
  have h1 := (h0.reachable.put h0.idle (i := 0) rfl 7).ret rfl
  have h2 := h1.put rfl (i := 0) rfl 8
  refine cast (congrArg _ ?_) h2
  unfold secondItemLost
  simp only [Queue.mk.injEq, true_and]
  refine ⟨rfl, ?_⟩
  funext i
  by_cases hi : i = 0
  · subst hi
    simp [Queue.pushHwm, joined]
  · simp [Queue.pushHwm, joined, hi]

theorem secondItemLost_not_noLoss :
    HwmReachable 1 2 1 secondItemLost ∧
      ¬ ∀ q : Queue ℕ, HwmReachable 1 2 1 q → NoLoss 1 q := by
  refine ⟨secondItemLost_reachable, fun h => ?_⟩
  have hcount := (h secondItemLost secondItemLost_reachable).counted 0 (by decide)
  exact absurd hcount (by decide)

theorem noLoss_iff_oneMessage :
    (∀ q : Queue ℕ, HwmReachable 1 1 1 q → NoLoss 1 q) ∧
      ¬ ∀ q : Queue ℕ, HwmReachable 1 2 1 q → NoLoss 1 q :=
  ⟨(noLoss_iff le_rfl).mpr le_rfl, fun h => absurd ((noLoss_iff le_rfl).mp h) (by decide)⟩

end P2PRdt.Zmq

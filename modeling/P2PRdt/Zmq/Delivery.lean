import P2PRdt.Zmq.Credit

/-!
# What one `put` delivers

The calls of `put` with `ignore_full = false`, from any state the queue can be
in. While a call runs, the wire and the clients run too; `PutInv` says what the
call has sent so far. `strict_step` is the one lemma about a single step: a
step sends nothing, or it sends one item to one client that is below the limit,
to the one whose turn it is if that one has room.
-/

namespace P2PRdt.Zmq

open Lib

variable {α : Type*} {max n : ℕ}

/-! ## One step -/

/-- Between the two states nothing has been sent. -/
def Unsent (q q' : Queue α) : Prop := ∀ j, (q'.link j).sent = (q.link j).sent

/-- Between the two states `x` has been sent to client `i`, and nothing else. -/
def SentTo (q q' : Queue α) (i : ℕ) (x : α) : Prop :=
  ∀ j, (q'.link j).sent = (q.link j).sent ++ if j = i then [x] else []

theorem Unsent.refl (q : Queue α) : Unsent q q := fun _ => rfl

theorem Unsent.trans {q₁ q₂ q₃ : Queue α} (h : Unsent q₁ q₂) (h' : Unsent q₂ q₃) :
    Unsent q₁ q₃ := fun j => (h' j).trans (h j)

theorem SentTo.trans_unsent {q₁ q₂ q₃ : Queue α} {i : ℕ} {x : α} (h : SentTo q₁ q₂ i x)
    (h' : Unsent q₂ q₃) : SentTo q₁ q₃ i x := fun j => (h' j).trans (h j)

theorem Unsent.trans_sentTo {q₁ q₂ q₃ : Queue α} {i : ℕ} {x : α} (h : Unsent q₁ q₂)
    (h' : SentTo q₂ q₃ i x) : SentTo q₁ q₃ i x := by
  intro j
  rw [h' j, h j]

/-- A link that keeps its history. -/
theorem unsent_update {q q' : Queue α} {i : ℕ} {l : Link α}
    (hlink : q'.link = Function.update q.link i l) (hsent : l.sent = (q.link i).sent) :
    Unsent q q' := by
  intro j
  rw [hlink]
  by_cases hji : j = i
  · subst hji
    rw [Function.update_self, hsent]
  · rw [Function.update_of_ne hji]

theorem sentTo_push (q : Queue α) (i : ℕ) (x : α) (s : Server) (ctl : Ctl α) :
    SentTo q { server := s, ctl := ctl, link := q.push i x } i x := by
  intro j
  unfold Queue.push
  by_cases hji : j = i
  · subst hji
    simp
  · simp [hji]

theorem Server.lastSentIdx_takeAck {s s' : Server} {i : ℕ} {m : ClientMsg}
    (h : s.takeAck i m = .ok s') : s'.lastSentIdx = s.lastSentIdx := by
  unfold takeAck at h
  split at h
  · split at h
    · cases h
    · cases h
    · obtain rfl := Except.ok.inj h
      rfl
  · cases h

/-- Where there is room at `last_sent_idx`, that client is chosen and the index
moves on. -/
theorem Server.choose_of_hasRoom {s : Server} {ignoreFull : Bool}
    (h : s.size s.lastSentIdx < s.perClientMaxSize) : s.choose ignoreFull =
      some (s.lastSentIdx, { s.sendToClient s.lastSentIdx with
        lastSentIdx := (s.lastSentIdx + 1) % s.nClients }) := by
  have hroom : (s.hasRoom s.lastSentIdx || ignoreFull) = true := by
    rw [hasRoom, decide_eq_true h, Bool.true_or]
  rw [choose, if_pos hroom]

theorem unsent_onMessage (q : Queue α) (i : ℕ) (m : ClientMsg) (rest : List ClientMsg) :
    Unsent q (q.onMessage i m rest) ∧
      (q.onMessage i m rest).server.lastSentIdx = q.server.lastSentIdx := by
  unfold Queue.onMessage
  split
  · split
    · split <;> exact ⟨unsent_update rfl rfl, rfl⟩
    · exact ⟨unsent_update rfl rfl, rfl⟩
  · split
    · rename_i hok
      exact ⟨unsent_update rfl rfl, Server.lastSentIdx_takeAck hok⟩
    · exact ⟨unsent_update rfl rfl, rfl⟩
  · exact ⟨Unsent.refl q, rfl⟩

theorem onFail_eq (q : Queue α) (r : RecvFail) : ∃ ctl, q.onFail r = { q with ctl := ctl } := by
  unfold Queue.onFail
  split <;> exact ⟨_, rfl⟩

/-- What a step sends, outside `put_to_all` and `ignore_full`. -/
theorem strict_step {q q' : Queue α} (hc : Credit max n q) (hs : q.ctl.Strict) {l : Label α}
    (h : Step l q q') :
    Unsent q q' ∧ q'.server.lastSentIdx = q.server.lastSentIdx ∨
      ∃ i < n, ∃ x, SentTo q q' i x ∧ q.server.size i < max ∧
        (q.server.size q.server.lastSentIdx < max →
          i = q.server.lastSentIdx ∧ q'.server.lastSentIdx = (i + 1) % n) := by
  cases h with
  | connect hi hcon => exact .inl ⟨unsent_update rfl rfl, rfl⟩
  | message hu => exact .inl (unsent_onMessage _ _ _ _)
  | recvFail r =>
      obtain ⟨ctl, hctl⟩ := onFail_eq q r
      rw [hctl]
      exact .inl ⟨Unsent.refl q, rfl⟩
  | call c hidle => cases c <;> exact .inl ⟨Unsent.refl q, rfl⟩
  | sendFail hsend => exact .inl ⟨Unsent.refl q, rfl⟩
  | ret hctl => exact .inl ⟨Unsent.refl q, rfl⟩
  | clientRecv hd => exact .inl ⟨unsent_update rfl rfl, rfl⟩
  | clientAck ho => exact .inl ⟨unsent_update rfl rfl, rfl⟩
  | advance =>
      unfold Queue.advance
      split
      · rename_i call hctl
        rw [hctl] at hs
        split
        · rename_i i s hchoose
          obtain ⟨hi, -, -, -, -, hroom⟩ := Server.choose_spec hc.wf hchoose
          rw [hc.nClients] at hi
          rw [hc.perClientMaxSize] at hroom
          refine .inr ⟨i, hi, call.item, sentTo_push q i call.item s _, hroom hs, fun hlast => ?_⟩
          rw [← hc.perClientMaxSize] at hlast
          rw [Server.choose_of_hasRoom hlast] at hchoose
          obtain ⟨rfl, rfl⟩ := Prod.mk.inj (Option.some.inj hchoose)
          rw [hc.nClients]
          exact ⟨rfl, rfl⟩
        · exact .inl ⟨Unsent.refl q, rfl⟩
      · rename_i item i hctl
        rw [hctl] at hs
        exact hs.elim
      · exact .inl ⟨Unsent.refl q, rfl⟩

/-! ## One call -/

/-- The states of a call of `put` made in `q₀`, up to its return. -/
def PutRun (q₀ : Queue α) (c : PutCall α) : Queue α → Prop :=
  Relation.ReflTransGen (fun q q' => ∃ l, Step l q q' ∧ ∀ r, l ≠ .ret r) (q₀.begin (.put c))

/-- What the call has sent when it returns `r`. -/
def PutResult (q₀ : Queue α) (c : PutCall α) (q : Queue α) :
    Except QueueError Reply → Prop
  | .ok (.put true) => ∃ i < q.server.nClients, SentTo q₀ q i c.item
  | .ok (.put false) | .error _ => Unsent q₀ q
  | .ok .putToAll => False

/-- Every client is at its limit. -/
def Full (q : Queue α) : Prop :=
  ∀ i < q.server.nClients, q.server.perClientMaxSize ≤ q.server.size i

def PutInv (q₀ : Queue α) (c : PutCall α) (q : Queue α) : Prop :=
  match q.ctl with
  | .checkForAcks c' wait nAcks =>
      c' = c ∧ Unsent q₀ q ∧ (wait = true → nAcks = 0 → Full q)
  | .tryClients c' => c' = c ∧ Unsent q₀ q
  | .returned r => PutResult q₀ c q r
  | _ => False

section Put

variable {q₀ q q' : Queue α} {c : PutCall α}

/-- A step of the wire or of a client does not touch the call. -/
theorem PutInv.update (h : PutInv q₀ c q) (hctl : q'.ctl = q.ctl) (hserver : q'.server = q.server)
    (hsent : Unsent q q') : PutInv q₀ c q' := by
  unfold PutInv at h ⊢
  rw [hctl]
  split at h
  · rcases h with ⟨hcall, hunsent, hfull⟩
    refine ⟨hcall, hunsent.trans hsent, fun hwait hzero i hi => ?_⟩
    rw [hserver] at hi ⊢
    exact hfull hwait hzero i hi
  · exact ⟨h.1, h.2.trans hsent⟩
  · rename_i r _
    unfold PutResult at h ⊢
    split at h
    · rcases h with ⟨i, hi, hto⟩
      exact ⟨i, hserver ▸ hi, hto.trans_unsent hsent⟩
    · exact h.trans hsent
    · exact h.trans hsent
    · exact h
  · exact h

theorem PutInv.onMessage (h : PutInv q₀ c q) (i : ℕ) (m : ClientMsg) (rest : List ClientMsg) :
    PutInv q₀ c (q.onMessage i m rest) := by
  cases hctl : q.ctl with
  | checkForAcks call wait nAcks =>
      simp only [PutInv, hctl] at h
      rcases h with ⟨rfl, hunsent, -⟩
      simp only [Queue.onMessage, hctl]
      split
      · -- one more ack, so `put` will not wait with none
        exact ⟨rfl, hunsent.trans (unsent_update rfl rfl), fun _ hzero => by omega⟩
      · exact hunsent.trans (unsent_update rfl rfl)
  | waitForClients connected => simp only [PutInv, hctl] at h
  | _ => simpa only [Queue.onMessage, hctl] using h

theorem PutInv.onFail (h : PutInv q₀ c q) (r : RecvFail) : PutInv q₀ c (q.onFail r) := by
  cases hctl : q.ctl with
  | checkForAcks call wait nAcks =>
      have h' := h
      simp only [PutInv, hctl] at h'
      rcases h' with ⟨rfl, hunsent, -⟩
      cases r with
      | eagain =>
          simp only [Queue.onFail, hctl, Queue.afterAcks]
          split
          · exact ⟨rfl, hunsent⟩
          · split
            · exact hunsent
            · split
              · exact hunsent
              · exact ⟨rfl, hunsent⟩
      | eintr => simpa only [Queue.onFail, hctl] using h
      | error =>
          simp only [Queue.onFail, hctl]
          exact hunsent
  | waitForClients connected => simp only [PutInv, hctl] at h
  | _ => simpa only [Queue.onFail, hctl] using h

theorem PutInv.advance (hc : Credit max n q) (h : PutInv q₀ c q) : PutInv q₀ c q.advance := by
  cases hctl : q.ctl with
  | tryClients call =>
      simp only [PutInv, hctl] at h
      rcases h with ⟨rfl, hunsent⟩
      simp only [Queue.advance, hctl]
      split
      · rename_i i s hchoose
        obtain ⟨hi, -, hn, -⟩ := Server.choose_spec hc.wf hchoose
        exact ⟨i, hn ▸ hi, hunsent.trans_sentTo (sentTo_push q i call.item s _)⟩
      · rename_i hchoose
        exact ⟨rfl, hunsent, fun _ _ => (Server.choose_none hc.wf hchoose).2⟩
  | sendAll item i => simp only [PutInv, hctl] at h
  | _ => simpa only [Queue.advance, hctl] using h

theorem PutInv.step (hc : Credit max n q) (h : PutInv q₀ c q) {l : Label α} (hs : Step l q q')
    (hl : ∀ r, l ≠ .ret r) : PutInv q₀ c q' := by
  cases hs with
  | connect hi hcon => exact h.update rfl rfl (unsent_update rfl rfl)
  | message hu => exact h.onMessage _ _ _
  | recvFail r => exact h.onFail r
  | call c' hidle => simp only [PutInv, hidle] at h
  | advance => exact h.advance hc
  | sendFail hsend =>
      rcases hsend with ⟨call, hctl⟩ | ⟨item, i, hctl⟩
      · simp only [PutInv, hctl] at h
        exact h.2
      · simp only [PutInv, hctl] at h
  | ret hctl => exact absurd rfl (hl _)
  | clientRecv hd => exact h.update rfl rfl (unsent_update rfl rfl)
  | clientAck ho => exact h.update rfl rfl (unsent_update rfl rfl)

theorem PutInv.strict (h : PutInv q₀ c q) (hc : c.ignoreFull = false) : q.ctl.Strict := by
  unfold PutInv at h
  split at h
  · rename_i hctl
    rw [hctl]
    exact h.1 ▸ hc
  · rename_i hctl
    rw [hctl]
    exact h.1 ▸ hc
  · rename_i hctl
    rw [hctl]
    trivial
  · exact h.elim

theorem putInv_of_run (h₀ : Credit max n q₀) (hidle : q₀.ctl = .idle) (h : PutRun q₀ c q) :
    Credit max n q ∧ PutInv q₀ c q := by
  induction h with
  | refl =>
      refine ⟨credit_begin h₀ (.put c) hidle, rfl, Unsent.refl q₀, ?_⟩
      rintro ⟨⟩
  | tail _ hs ih =>
      rcases hs with ⟨l, hs, hl⟩
      exact ⟨credit_step ih.1 hs, ih.2.step ih.1 hs hl⟩

end Put

/-! ## Many calls -/

/-- Every client is below the limit. -/
def Below (max n : ℕ) (q : Queue α) : Prop := ∀ i < n, q.server.size i < max

/-- Runs of strict puts from `q₀` in which no client reaches the limit, with
the clients that the items have been sent to. -/
inductive Puts (max n : ℕ) (q₀ : Queue α) : List ℕ → Queue α → Prop
  | start : Below max n q₀ → Puts max n q₀ [] q₀
  | silent {recipients : List ℕ} {q q' : Queue α} {l : Label α} : Puts max n q₀ recipients q →
      Step l q q' → (∀ c, l = .call c → c.Strict) → Unsent q q' → Below max n q' →
      Puts max n q₀ recipients q'
  | deliver {recipients : List ℕ} {q q' : Queue α} {l : Label α} {i : ℕ} {x : α} :
      Puts max n q₀ recipients q → Step l q q' → (∀ c, l = .call c → c.Strict) →
      SentTo q q' i x → Below max n q' → Puts max n q₀ (recipients ++ [i]) q'

/-- From client `last` on, in turn. -/
def cycle (n last k : ℕ) : List ℕ := (List.range k).map fun j => (last + j) % n

theorem cycle_succ (n last k : ℕ) : cycle n last (k + 1) = cycle n last k ++ [(last + k) % n] := by
  rw [cycle, List.range_succ, List.map_append]
  rfl

theorem Unsent.not_sentTo {q q' : Queue α} {i : ℕ} {x : α} (h : Unsent q q') :
    ¬ SentTo q q' i x := by
  intro hto
  have hlen := congrArg List.length ((hto i).symm.trans (h i))
  rw [if_pos rfl, List.length_append, List.length_singleton] at hlen
  omega

theorem SentTo.unique {q q' : Queue α} {i j : ℕ} {x y : α} (h : SentTo q q' i x)
    (h' : SentTo q q' j y) : i = j := by
  by_contra hij
  have hlen := congrArg List.length ((h i).symm.trans (h' i))
  rw [if_pos rfl, if_neg hij, List.append_nil, List.length_append, List.length_singleton] at hlen
  omega

/-- The recipients of the puts so far, and whose turn it is. -/
theorem Puts.recipients_eq {q₀ q : Queue α} {recipients : List ℕ} (h₀ : Credit max n q₀)
    (hs₀ : q₀.ctl.Strict) (h : Puts max n q₀ recipients q) :
    Credit max n q ∧ q.ctl.Strict ∧ Below max n q ∧
      recipients = cycle n q₀.server.lastSentIdx recipients.length ∧
      q.server.lastSentIdx = (q₀.server.lastSentIdx + recipients.length) % n := by
  induction h with
  | start hbelow =>
      refine ⟨h₀, hs₀, hbelow, rfl, ?_⟩
      rw [List.length_nil, Nat.add_zero, Nat.mod_eq_of_lt (h₀.nClients ▸ h₀.wf.last_lt)]
  | silent _ hs hl hunsent hbelow ih =>
      rcases ih with ⟨hc, hstrict, hb, heq, hlast⟩
      have hstrict' := (limited_step hc ⟨fun i hi => (hb i hi).le, hstrict⟩ hl hs).strict
      refine ⟨credit_step hc hs, hstrict', hbelow, heq, ?_⟩
      rcases strict_step hc hstrict hs with ⟨-, hsame⟩ | ⟨i, -, x, hto, -⟩
      · rw [hsame, hlast]
      · exact absurd hto hunsent.not_sentTo
  | @deliver recipients q q' l i x _ hs hl hto hbelow ih =>
      rcases ih with ⟨hc, hstrict, hb, heq, hlast⟩
      have hstrict' := (limited_step hc ⟨fun i hi => (hb i hi).le, hstrict⟩ hl hs).strict
      rcases strict_step hc hstrict hs with ⟨hunsent, -⟩ | ⟨j, -, y, hto', -, hturn⟩
      · exact absurd hto hunsent.not_sentTo
      obtain rfl := hto.unique hto'
      -- there is room at `last_sent_idx`, as everywhere
      have hlt : q.server.lastSentIdx < n := hc.nClients ▸ hc.wf.last_lt
      obtain ⟨hi, hnext⟩ := hturn (hb _ hlt)
      have hturn_eq : i = (q₀.server.lastSentIdx + recipients.length) % n := hi.trans hlast
      refine ⟨credit_step hc hs, hstrict', hbelow, ?_, ?_⟩
      · rw [List.length_append, List.length_singleton, cycle_succ, ← heq, ← hturn_eq]
      · rw [hnext, hturn_eq, Nat.mod_add_mod, List.length_append, List.length_singleton,
          Nat.add_assoc]

/-- A put that finds room at `last_sent_idx` sends without waiting, and returns. -/
theorem Puts.put {q₀ q : Queue α} {recipients : List ℕ} (h : Puts max n q₀ recipients q)
    (hidle : q.ctl = .idle) (item : α) (waitSeconds : Option ℕ) {s : Server}
    (hchoose : q.server.choose false = some (q.server.lastSentIdx, s))
    (hbelow : ∀ i < n, s.size i < max) :
    ∃ q', Puts max n q₀ (recipients ++ [q.server.lastSentIdx]) q' ∧ q'.ctl = .idle ∧
      q'.server = s := by
  have hbelow₀ : Below max n q := by
    cases h with
    | start hb => exact hb
    | silent _ _ _ _ hb => exact hb
    | deliver _ _ _ _ hb => exact hb
  let c : PutCall α := ⟨item, waitSeconds, false⟩
  have hcall : Puts max n q₀ recipients { q with ctl := .checkForAcks c false 0 } := by
    refine .silent h (.call (.put c) hidle) ?_ (Unsent.refl q) hbelow₀
    rintro _ ⟨⟩
    rfl
  have hacks : Puts max n q₀ recipients { q with ctl := .tryClients c } :=
    .silent hcall (.recvFail .eagain) (fun _ hc => by cases hc) (Unsent.refl q) hbelow₀
  have hadvance : Puts max n q₀ (recipients ++ [q.server.lastSentIdx])
      { server := s, ctl := .returned (.ok (.put true))
        link := q.push q.server.lastSentIdx item } := by
    have hstep := Step.advance (q := { q with ctl := .tryClients c })
    rw [Queue.advance_tryClients rfl hchoose] at hstep
    exact .deliver hacks hstep (fun _ hc => by cases hc) (sentTo_push q _ item _ _) hbelow
  refine ⟨_, .silent hadvance (.ret rfl) (fun _ hc => by cases hc) (Unsent.refl _) hbelow, rfl, rfl⟩

/-- **What `put` delivers.** A strict `put` in any reachable state has sent its
item to exactly one client when it returns true, and to none when it returns
false or an error; that client was below the limit, `put` waits for acks only
while every client is at the limit, and `last_sent_idx` names a client. While
no client reaches the limit the clients are served in turn. -/
theorem put_delivers (hn : 1 ≤ n) {allowed : Call α → Prop} {q₀ : Queue α}
    (h₀ : Reachable max n allowed q₀) (hidle : q₀.ctl = .idle) :
    (∀ c q, c.ignoreFull = false → PutRun q₀ c q →
      (∀ r, q.ctl = .returned r → match r with
        | .ok (.put true) => ∃ i < n, SentTo q₀ q i c.item
        | .ok (.put false) | .error _ => Unsent q₀ q
        | .ok .putToAll => False) ∧
      (∀ l q', Step l q q' → Unsent q q' ∨
        ∃ i < n, ∃ x, SentTo q q' i x ∧ q.server.size i < max) ∧
      (∀ call, q.ctl = .checkForAcks call true 0 → ∀ i < n, max ≤ q.server.size i) ∧
      q.server.lastSentIdx < n) ∧
    ∀ recipients q, Puts max n q₀ recipients q →
      recipients = cycle n q₀.server.lastSentIdx recipients.length := by
  have hc₀ := credit_of_reachable hn h₀
  refine ⟨fun c q hstrict hrun => ?_, fun recipients q hputs => ?_⟩
  · obtain ⟨hc, hinv⟩ := putInv_of_run hc₀ hidle hrun
    refine ⟨fun r hr => ?_, fun l q' hs => ?_, fun call hctl => ?_, hc.nClients ▸ hc.wf.last_lt⟩
    · simp only [PutInv, hr, PutResult, hc.nClients] at hinv
      exact hinv
    · rcases strict_step hc (hinv.strict hstrict) hs with ⟨hunsent, -⟩ | ⟨i, hi, x, hto, hlt, -⟩
      · exact .inl hunsent
      · exact .inr ⟨i, hi, x, hto, hlt⟩
    · simp only [PutInv, hctl] at hinv
      intro i hi
      have hfull := hinv.2.2 trivial trivial i (hc.nClients.symm ▸ hi)
      rwa [hc.perClientMaxSize] at hfull
  · have hstrict : q₀.ctl.Strict := by rw [hidle]; trivial
    exact (hputs.recipients_eq hc₀ hstrict).2.2.2.1

/-- Two clients that are connected. -/
def twoClients : Queue ℕ :=
  (((Queue.new 3 2).connect 0).connect 1).onMessage 1 .ready [] |>.onMessage 0 .ready []

theorem twoClients_reachable : Reachable 3 2 Call.Strict twoClients := by
  have tau : ∀ {q q' : Queue ℕ}, Reachable 3 2 Call.Strict q → Step .tau q q' →
      Reachable 3 2 Call.Strict q' :=
    fun h hs => .next h ⟨_, hs, fun c hc => Label.noConfusion rfl (heq_of_eq hc)⟩
  have hnew : Reachable 3 2 Call.Strict (Queue.new 3 2 : Queue ℕ) := .start rfl
  have hfirst := tau hnew (.connect (i := 0) (by decide) rfl)
  have hsecond := tau hfirst (.connect (i := 1) (by decide) rfl)
  have hready := tau hsecond (.message (i := 1) rfl)
  exact tau hready (.message (i := 0) rfl)

theorem twoClients_idle : twoClients.ctl = .idle := by
  have hsort : [0, 1].mergeSort = List.range 2 := List.mergeSort_of_pairwise (by decide)
  simp [twoClients, Queue.onMessage, Queue.new, Queue.connect, Queue.setLink, Queue.afterReady,
    Server.new, hsort]

/-- Three items go to the first, the second and again the first client. -/
theorem put_delivers_twoClients :
    (∃ q, PutRun twoClients ⟨7, none, false⟩ q ∧ q.ctl = .returned (.ok (.put true)) ∧
      ∃ i < 2, SentTo twoClients q i 7) ∧
    ∃ q, Puts 3 2 twoClients [0, 1, 0] q ∧ [0, 1, 0] = cycle 2 twoClients.server.lastSentIdx 3 := by
  obtain ⟨hput, hturns⟩ := put_delivers (by decide) twoClients_reachable twoClients_idle
  constructor
  · have hrun : PutRun twoClients ⟨7, none, false⟩
        ((twoClients.begin (.put ⟨7, none, false⟩)).onFail .eagain).advance := by
      refine .tail (.tail .refl ⟨.tau, .recvFail .eagain, ?_⟩) ⟨.tau, .advance, ?_⟩
      · intro r hr
        cases hr
      · intro r hr
        cases hr
    exact ⟨_, hrun, rfl, (hput _ _ rfl hrun).1 _ rfl⟩
  · have hstart : Puts 3 2 twoClients [] twoClients := .start (by decide : ∀ i < 2, _)
    obtain ⟨q₁, hfirst, hidle₁, hserver₁⟩ := hstart.put twoClients_idle 7 none
      (s := ⟨3, 2, [1, 0], 1⟩) (by decide) (by decide)
    obtain ⟨q₂, hsecond, hidle₂, hserver₂⟩ := hfirst.put hidle₁ 8 none
      (s := ⟨3, 2, [1, 1], 0⟩) (by rw [hserver₁]; decide) (by decide)
    obtain ⟨q₃, hthird, -, -⟩ := hsecond.put hidle₂ 9 none
      (s := ⟨3, 2, [2, 1], 1⟩) (by rw [hserver₂]; decide) (by decide)
    rw [hserver₁, hserver₂] at hthird
    exact ⟨q₃, hthird, hturns _ _ hthird⟩

end P2PRdt.Zmq

import P2PRdt.Lib.Epochs
import P2PRdt.Zmq.Fifo
import P2PRdt.Data.Processes

/-!
# The proto process hands out every proto once in each epoch

`_proto_queue_process` writes one stream to each preprocess worker. In the
epoch that is open, what has been written and what is still to do are all the
protos; every earlier epoch is complete; and the end markers go to the workers
in order. A `put` that gives up is followed by a `put` of the same proto on
the next queue, which the invariant sees as no progress.
-/

namespace P2PRdt.Data

open Lib Zmq

variable {π : Type*}

/-! ## The invariant -/

/-- The `put` in progress has sent its item. -/
def delivered : CallPhase (Option π) → Bool
  | .returned (.ok (.put b)) => b
  | _ => false

namespace ProtoProcess

/-- The protos that are still to be handed out in this epoch. -/
def todo (p : ProtoProcess π) (F : ℕ → Fifo (Option π)) : List π :=
  match p.ctl with
  | .epochTop => p.protos
  | .handing rest => rest
  | .waiting proto rest => if delivered (F p.idx).phase then rest else proto :: rest
  | .ending _ | .endingPut _ => []

/-- How many workers have the end marker of this epoch. -/
def marked (p : ProtoProcess π) (F : ℕ → Fifo (Option π)) : ℕ :=
  match p.ctl with
  | .ending i => i
  | .endingPut i => if delivered (F i).phase then i + 1 else i
  | _ => 0

/-- The queue on which a call is in progress. -/
def active (p : ProtoProcess π) : Option ℕ :=
  match p.ctl with
  | .waiting _ _ => some p.idx
  | .endingPut i => some i
  | _ => none

/-- The call in progress on the active queue. -/
def Calling (p : ProtoProcess π) (F : ℕ → Fifo (Option π)) : Prop :=
  match p.ctl with
  | .waiting proto _ =>
      (F p.idx).phase = .putting ⟨some proto, some 1, false⟩ ∨
        ∃ b, (F p.idx).phase = .returned (.ok (.put b))
  | .endingPut i =>
      (F i).phase = .putting ⟨none, none, true⟩ ∨ (F i).phase = .returned (.ok (.put true))
  | _ => True

end ProtoProcess

/-- `F` are the `n` proto queues, each with one client. -/
structure ProtoInv (n : ℕ) (protos : List π) (p : ProtoProcess π)
    (F : ℕ → Fifo (Option π)) : Prop where
  perm : p.protos.Perm protos
  idx : p.idx < n
  active : ∀ i, p.active = some i → i < n
  quiet : ∀ i < n, p.active ≠ some i → (F i).phase.Quiet
  calling : p.Calling F
  written : ∀ i < n, marks ((F i).sent 0) = p.epoch + if i < p.marked F then 1 else 0
  conserve : ∀ e, total n (fun i => (F i).sent 0) e +
    (if e = p.epoch then (p.todo F : Multiset π) else 0) =
    if e ≤ p.epoch then (protos : Multiset π) else 0

/-! ## Preservation -/

section Preservation

variable {n : ℕ} {shuffle : Bool} {protos : List π} {p p' : ProtoProcess π}
  {F : ℕ → Fifo (Option π)} {f : Fifo (Option π)}

theorem delivered_of_quiet {c : CallPhase (Option π)} (h : c.Quiet) : delivered c = false := by
  cases c <;> first | rfl | exact h.elim

theorem sent_update (F : ℕ → Fifo (Option π)) (j : ℕ) (f : Fifo (Option π)) :
    (fun i => (Function.update F j f i).sent 0) =
      Function.update (fun i => (F i).sent 0) j (f.sent 0) := by
  funext i
  by_cases hij : i = j
  · subst hij
    simp
  · simp [hij]

/-- A step that sends nothing. -/
theorem ProtoInv.silent (h : ProtoInv n protos p F) {F' : ℕ → Fifo (Option π)}
    (hperm : p'.protos.Perm protos) (hidx : p'.idx < n)
    (hactive : ∀ i, p'.active = some i → i < n)
    (hquiet : ∀ i < n, p'.active ≠ some i → (F' i).phase.Quiet)
    (hcalling : p'.Calling F') (hsent : ∀ i, (F' i).sent = (F i).sent)
    (hepoch : p'.epoch = p.epoch) (hmarked : p'.marked F' = p.marked F)
    (htodo : (p'.todo F' : Multiset π) = p.todo F) : ProtoInv n protos p' F' where
  perm := hperm
  idx := hidx
  active := hactive
  quiet := hquiet
  calling := hcalling
  written := by
    intro i hi
    rw [hsent, hepoch, hmarked]
    exact h.written i hi
  conserve := by
    intro e
    simp only [hsent, hepoch, htodo]
    exact h.conserve e

theorem ProtoInv.internal (hs : ProtoProcess.Step n shuffle none p p')
    (h : ProtoInv n protos p F) : ProtoInv n protos p' F := by
  rcases p with ⟨ctl, ps, idx, epoch⟩
  have hn : 0 < n := Nat.lt_of_le_of_lt (Nat.zero_le _) h.idx
  generalize hlab : (none : Option (ℕ × Label (Option π))) = lab at hs
  cases hs with
  | startEpoch hctl hshuffle =>
      obtain rfl : ctl = .epochTop := hctl
      rename_i ps'
      have hperm : ps'.Perm ps := by
        split at hshuffle
        · exact hshuffle
        · exact hshuffle ▸ List.Perm.refl _
      exact h.silent (hperm.trans h.perm) hn nofun h.quiet trivial (fun _ => rfl) rfl rfl
        (Multiset.coe_eq_coe.mpr hperm)
  | hand hctl => cases hlab
  | handed hctl => cases hlab
  | allHanded hctl =>
      obtain rfl : ctl = .handing [] := hctl
      exact h.silent h.perm h.idx nofun h.quiet trivial (fun _ => rfl) rfl rfl rfl
  | mark hctl hi => cases hlab
  | marked hctl => cases hlab
  | endEpoch hctl hi =>
      obtain rfl : ctl = .ending _ := hctl
      rename_i i
      have hperm : (ps : Multiset π) = protos := Multiset.coe_eq_coe.mpr h.perm
      -- every queue has its marker, and all protos are to do again in the next epoch
      refine ⟨h.perm, h.idx, nofun, h.quiet, trivial, fun j hj => ?_, fun e => ?_⟩
      · rw [h.written j hj]
        show epoch + (if j < i then 1 else 0) = epoch + 1 + 0
        rw [if_pos (Nat.lt_of_lt_of_le hj hi)]
      · have hc := h.conserve e
        simp only [ProtoProcess.todo, Multiset.coe_nil, ite_self, add_zero] at hc
        show total n (fun i => (F i).sent 0) e +
          (if e = epoch + 1 then (ps : Multiset π) else 0) = if e ≤ epoch + 1 then _ else 0
        rw [hc, hperm]
        rcases Nat.lt_trichotomy e (epoch + 1) with hlt | rfl | hgt
        · rw [if_pos (Nat.le_of_lt_succ hlt), if_neg (by omega), if_pos (by omega), add_zero]
        · rw [if_neg (by omega), if_pos rfl, if_pos (Nat.le_refl _), zero_add]
        · rw [if_neg (by omega), if_neg (by omega), if_neg (by omega), add_zero]

/-- A queue operation of the process, on the queue that it names. -/
theorem ProtoInv.op {j : ℕ} {l : Label (Option π)}
    (hs : ProtoProcess.Step n shuffle (some (j, l)) p p') (hf : Fifo.Step 1 l (F j) f)
    (h : ProtoInv n protos p F) : ProtoInv n protos p' (Function.update F j f) := by
  rcases p with ⟨ctl, ps, idx, epoch⟩
  have hn : 0 < n := Nat.lt_of_le_of_lt (Nat.zero_le _) h.idx
  have hsent : f.sent = (F j).sent → ∀ i, (Function.update F j f i).sent = (F i).sent := by
    intro he i
    by_cases hij : i = j
    · subst hij
      rw [Function.update_self, he]
    · rw [Function.update_of_ne hij]
  cases hs with
  | hand hctl =>
      obtain rfl : ctl = .handing _ := hctl
      obtain rfl := hf.call_inv
      refine h.silent h.perm h.idx ?_ ?_ ?_ (hsent rfl) rfl rfl ?_
      · intro i hi
        exact Option.some.inj hi ▸ h.idx
      · intro i hi hne
        rw [Function.update_of_ne fun he => hne (congrArg some he.symm)]
        exact h.quiet i hi nofun
      · exact .inl (by rw [Function.update_self]; rfl)
      · simp only [ProtoProcess.todo, Function.update_self]
        rfl
  | handed hctl =>
      obtain rfl : ctl = .waiting _ _ := hctl
      rcases hf.ret_inv with ⟨hp, rfl⟩
      refine h.silent h.perm (Nat.mod_lt _ hn) nofun ?_ trivial (hsent rfl) rfl rfl ?_
      · intro i hi _
        by_cases hij : i = idx
        · subst hij
          rw [Function.update_self]
          trivial
        · rw [Function.update_of_ne hij]
          exact h.quiet i hi fun he => hij (Option.some.inj he).symm
      · -- a `put` that gave up leaves its proto to do, one that succeeded does not
        simp only [ProtoProcess.todo, hp, delivered]
  | mark hctl hi =>
      obtain rfl : ctl = .ending _ := hctl
      obtain rfl := hf.call_inv
      refine h.silent h.perm h.idx ?_ ?_ ?_ (hsent rfl) rfl ?_ rfl
      · intro i he
        exact Option.some.inj he ▸ hi
      · intro i hi' hne
        rw [Function.update_of_ne fun he => hne (congrArg some he.symm)]
        exact h.quiet i hi' nofun
      · exact .inl (by rw [Function.update_self]; rfl)
      · simp only [ProtoProcess.marked, Function.update_self]
        rfl
  | marked hctl =>
      obtain rfl : ctl = .endingPut _ := hctl
      rcases hf.ret_inv with ⟨hp, rfl⟩
      refine h.silent h.perm h.idx nofun ?_ trivial (hsent rfl) rfl ?_ rfl
      · intro i hi _
        by_cases hij : i = j
        · subst hij
          rw [Function.update_self]
          trivial
        · rw [Function.update_of_ne hij]
          exact h.quiet i hi fun he => hij (Option.some.inj he).symm
      · rcases h.calling with hput | hret
        · rw [hput] at hp
          cases hp
        · simp only [ProtoProcess.marked, hret, delivered, if_true]

theorem phase_update_of_ne {i j : ℕ} (hij : i ≠ j) :
    (Function.update F j f i).phase = (F i).phase := by
  rw [Function.update_of_ne hij]

theorem delivered_update {j : ℕ} (hd : delivered f.phase = delivered (F j).phase) (i : ℕ) :
    delivered (Function.update F j f i).phase = delivered (F i).phase := by
  by_cases hij : i = j
  · subst hij
    rw [Function.update_self, hd]
  · rw [Function.update_of_ne hij]

theorem calling_update {j : ℕ} (h : p.Calling F) (hne : p.active ≠ some j) :
    p.Calling (Function.update F j f) := by
  rcases p with ⟨ctl, ps, idx, epoch⟩
  cases ctl with
  | waiting proto rest =>
      have hij : idx ≠ j := fun he => hne (congrArg some he)
      simpa only [ProtoProcess.Calling, phase_update_of_ne hij] using h
  | endingPut i =>
      have hij : i ≠ j := fun he => hne (congrArg some he)
      simpa only [ProtoProcess.Calling, phase_update_of_ne hij] using h
  | _ => trivial

/-- A step of one queue that sends nothing. -/
theorem ProtoInv.still (h : ProtoInv n protos p F) {j : ℕ} (hs : f.sent = (F j).sent)
    (hd : delivered f.phase = delivered (F j).phase)
    (hq : j < n → p.active ≠ some j → f.phase.Quiet)
    (hcall : p.active = some j → p.Calling (Function.update F j f)) :
    ProtoInv n protos p (Function.update F j f) := by
  refine h.silent h.perm h.idx h.active ?_ ?_ ?_ rfl ?_ ?_
  · intro i hi hne
    by_cases hij : i = j
    · subst hij
      rw [Function.update_self]
      exact hq hi hne
    · rw [phase_update_of_ne hij]
      exact h.quiet i hi hne
  · by_cases hact : p.active = some j
    · exact hcall hact
    · exact calling_update h.calling hact
  · intro i
    by_cases hij : i = j
    · subst hij
      rw [Function.update_self, hs]
    · rw [Function.update_of_ne hij]
  · unfold ProtoProcess.marked
    split
    · rfl
    · rw [delivered_update hd]
    · rfl
  · unfold ProtoProcess.todo
    split
    · rfl
    · rfl
    · rw [delivered_update hd]
    · rfl
    · rfl

theorem ProtoInv.recv (h : ProtoInv n protos p F) {j : ℕ} (hp : f.phase = (F j).phase)
    (hs : f.sent = (F j).sent) : ProtoInv n protos p (Function.update F j f) := by
  refine h.still hs (by rw [hp]) (fun hj hne => hp ▸ h.quiet j hj hne) fun hact => ?_
  have hcall := h.calling
  rcases p with ⟨ctl, ps, idx, epoch⟩
  cases ctl with
  | waiting proto rest =>
      obtain rfl : idx = j := Option.some.inj hact
      simpa only [ProtoProcess.Calling, Function.update_self, hp] using hcall
  | endingPut i =>
      obtain rfl : i = j := Option.some.inj hact
      simpa only [ProtoProcess.Calling, Function.update_self, hp] using hcall
  | _ => cases hact

/-- A queue of one client accepts the `put` of the loop over the protos. -/
theorem ProtoInv.acceptProto {proto : π} {rest ps : List π} {idx epoch : ℕ}
    (h : ProtoInv n protos ⟨.waiting proto rest, ps, idx, epoch⟩ F)
    (hp : (F idx).phase = .putting ⟨some proto, some 1, false⟩)
    (hf : f = { F idx with phase := .returned (.ok (.put true)),
                           sent := append (F idx).sent 0 (some proto) }) :
    ProtoInv n protos ⟨.waiting proto rest, ps, idx, epoch⟩ (Function.update F idx f) := by
  have hidx : idx < n := h.idx
  have hmarks : marks ((F idx).sent 0) = epoch := h.written idx hidx
  have hsent : f.sent 0 = (F idx).sent 0 ++ [some proto] := by
    rw [hf]
    exact append_self (F idx).sent 0 _
  refine ⟨h.perm, h.idx, h.active, fun i hi hne => ?_, .inr ⟨true, ?_⟩, fun i hi => ?_,
    fun e => ?_⟩
  · have hij : i ≠ idx := fun he => hne (congrArg some he.symm)
    rw [phase_update_of_ne hij]
    exact h.quiet i hi hne
  · rw [Function.update_self, hf]
  · show marks _ = epoch + 0
    by_cases hij : i = idx
    · subst hij
      rw [Function.update_self, hsent, marks_append_some, hmarks, add_zero]
    · rw [Function.update_of_ne hij]
      exact h.written i hi
  · -- the proto moves from what is to do to what is written, in the open epoch
    have hc := h.conserve e
    simp only [ProtoProcess.todo, hp, delivered] at hc
    rw [← hc, sent_update, hsent, total_push_some (fun i => (F i).sent 0) hidx, hmarks]
    simp only [ProtoProcess.todo, Function.update_self, hf, delivered]
    by_cases he : e = epoch
    · rw [if_pos he, if_pos he, if_pos he, add_assoc]
      rfl
    · rw [if_neg he, if_neg he, if_neg he, add_zero]

/-- The end marker goes out. -/
theorem ProtoInv.acceptMark {i epoch idx : ℕ} {ps : List π}
    (h : ProtoInv n protos ⟨.endingPut i, ps, idx, epoch⟩ F)
    (hp : (F i).phase = .putting ⟨none, none, true⟩)
    (hf : f = { F i with phase := .returned (.ok (.put true)),
                         sent := append (F i).sent 0 none }) :
    ProtoInv n protos ⟨.endingPut i, ps, idx, epoch⟩ (Function.update F i f) := by
  have hsent : f.sent 0 = (F i).sent 0 ++ [none] := by
    rw [hf]
    exact append_self (F i).sent 0 _
  have hold : ∀ j < n, marks ((F j).sent 0) = epoch + if j < i then 1 else 0 := by
    intro j hj
    rw [h.written j hj]
    simp only [ProtoProcess.marked, hp, delivered]
    rfl
  refine ⟨h.perm, h.idx, h.active, fun j hj hne => ?_, .inr ?_, fun j hj => ?_, fun e => ?_⟩
  · have hji : j ≠ i := fun he => hne (congrArg some he.symm)
    rw [phase_update_of_ne hji]
    exact h.quiet j hj hne
  · rw [Function.update_self, hf]
  · simp only [ProtoProcess.marked, Function.update_self, hf, delivered, if_true]
    by_cases hji : j = i
    · subst hji
      rw [← hf, Function.update_self, hsent, marks_append_none, hold j hj,
        if_neg (Nat.lt_irrefl j), if_pos (Nat.lt_succ_self j)]
    · rw [Function.update_of_ne hji, hold j hj]
      congr 1
      exact if_congr (by omega) rfl rfl
  · rw [← h.conserve e, sent_update, hsent, total_push_none]
    rfl

/-- An internal step of one of the queues serves the call in progress there. -/
theorem ProtoInv.queue (h : ProtoInv n protos p F) {j : ℕ} (hj : j < n)
    (hf : (F j).After 1 f) : ProtoInv n protos p (Function.update F j f) := by
  by_cases hact : p.active = some j
  · have hcall := h.calling
    rcases p with ⟨ctl, ps, idx, epoch⟩
    cases ctl with
    | waiting proto rest =>
        obtain rfl : idx = j := Option.some.inj hact
        rcases hcall with hp | ⟨b, hp⟩
        · simp only [Fifo.After, hp] at hf
          rcases hf with ⟨i, hi, hf⟩ | ⟨-, rfl⟩
          · obtain rfl : i = 0 := by omega
            exact h.acceptProto hp hf
          · refine h.still rfl (by rw [hp]; rfl) (fun _ hne => absurd hact hne) fun _ => ?_
            exact .inr ⟨false, by rw [Function.update_self]⟩
        · simp only [Fifo.After, hp] at hf
    | endingPut i =>
        obtain rfl : i = j := Option.some.inj hact
        rcases hcall with hp | hp
        · simp only [Fifo.After, hp] at hf
          rcases hf with ⟨k, hk, hf⟩ | ⟨hwait, -⟩
          · obtain rfl : k = 0 := by omega
            exact h.acceptMark hp hf
          · exact absurd hwait (by simp)
        · simp only [Fifo.After, hp] at hf
    | _ => cases hact
  · have hq := h.quiet j hj hact
    obtain ⟨hq', hsent⟩ := hf.quiet hq
    refine h.still hsent ?_ (fun _ _ => hq') fun he => absurd he hact
    rw [delivered_of_quiet hq, delivered_of_quiet hq']

end Preservation

/-! ## Closed epochs -/

section Closed

variable {n : ℕ} {protos : List π} {p : ProtoProcess π} {F : ℕ → Fifo (Option π)}

theorem ProtoInv.total_of_lt (h : ProtoInv n protos p F) {e : ℕ} (he : e < p.epoch) :
    total n (fun i => (F i).sent 0) e = protos := by
  have hc := h.conserve e
  rwa [if_neg (Nat.ne_of_lt he), add_zero, if_pos he.le] at hc

theorem ProtoInv.marks_sent (h : ProtoInv n protos p F) {i : ℕ} (hi : i < n) :
    p.epoch ≤ marks ((F i).sent 0) ∧ marks ((F i).sent 0) ≤ p.epoch + 1 := by
  rw [h.written i hi]
  split
  · exact ⟨Nat.le_add_right _ _, Nat.le_refl _⟩
  · exact ⟨Nat.le_refl _, Nat.le_succ _⟩

/-- The end marker of an epoch is behind all its protos. -/
theorem ProtoInv.total_of_marks (h : ProtoInv n protos p F) {i e : ℕ} (hi : i < n)
    (he : e < marks ((F i).sent 0)) : total n (fun i => (F i).sent 0) e = protos := by
  rw [h.written i hi] at he
  rcases Nat.lt_or_ge e p.epoch with hlt | hge
  · exact h.total_of_lt hlt
  have hmarked : i < p.marked F := by
    by_contra hno
    rw [if_neg hno] at he
    omega
  have htodo : p.todo F = [] := by
    rcases p with ⟨ctl, ps, idx, epoch⟩
    cases ctl with
    | ending k => rfl
    | endingPut k => rfl
    | _ => exact absurd hmarked (Nat.not_lt_zero i)
  obtain rfl : e = p.epoch := by
    rw [if_pos hmarked] at he
    omega
  have hc := h.conserve p.epoch
  rwa [htodo, Multiset.coe_nil, ite_self, add_zero, if_pos (Nat.le_refl _)] at hc

end Closed

end P2PRdt.Data

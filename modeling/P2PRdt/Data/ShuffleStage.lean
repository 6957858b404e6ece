import P2PRdt.Lib.Epochs
import P2PRdt.Zmq.Fifo
import P2PRdt.Data.Processes

/-!
# The shuffle worker keeps the epochs apart

The shuffle worker reads one stream from each preprocess worker and writes
one stream to each dataset worker. `ShuffleInv` ties the streams read so far,
the running flags, the buffer and the call in progress to the streams written
so far: epoch by epoch, what has been written and what the worker still holds
is what has been read. Timeouts, the order of the scan and the choice of the
shuffler do not appear in it.
-/

namespace P2PRdt.Data

open Lib Zmq

variable {κ : Type*}

/-! ## The invariant -/

namespace ShuffleWorker

/-- The epoch that is being written. `finish_epoch` counts up before it sends
the end markers. -/
def current (w : ShuffleWorker κ) : ℕ :=
  match w.ctl with
  | .ending => w.shuffler.epoch - 1
  | .adding _ after => after.epoch
  | _ => w.shuffler.epoch

/-- The items read and not yet handed to a `put`. -/
def held (w : ShuffleWorker κ) : Multiset κ :=
  match w.ctl with
  | .addItem _ item => w.shuffler.buffered + {item}
  | .adding _ after => after.buffered
  | _ => w.shuffler.buffered

/-- The flags that go with the place in the loops: the assert holds at the
head of the epoch loop, and `finish_epoch` runs with every queue at its end. -/
def Flags (n : ℕ) (w : ShuffleWorker κ) : Prop :=
  match w.ctl with
  | .assertFailed => False
  | .finishing | .flushing | .ending => ∀ i < n, w.running i = false
  | _ => ∃ i < n, w.running i = true

end ShuffleWorker

/-- The item of a `put` that has not sent it yet. -/
def pending : CallPhase (Option κ) → Multiset κ
  | .putting ⟨some x, _, _⟩ => {x}
  | _ => 0

/-- How many of `m` clients a `put_to_all` has reached. -/
def reached (m : ℕ) : CallPhase (Option κ) → ℕ
  | .sendingAll _ k => k
  | .returned (.ok .putToAll) => m
  | _ => 0

/-- The call on the shuffle queue that goes with the place in the code. -/
def InCall : ShuffleCtl κ → CallPhase (Option κ) → Prop
  | .adding _ _, p | .flushing, p =>
      (∃ x, p = .putting ⟨some x, none, false⟩) ∨ p = .returned (.ok (.put true))
  | .ending, p => (∃ k, p = .sendingAll none k) ∨ p = .returned (.ok .putToAll)
  | _, p => p.Quiet

/-- `C` is what has been read from the `n` preprocess queues, `f` the shuffle
queue with its `m` clients. -/
structure ShuffleInv (n m : ℕ) (w : ShuffleWorker κ) (C : ℕ → List (Option κ))
    (f : Fifo (Option κ)) : Prop where
  length : w.workersStillRunning.length = n
  call : InCall w.ctl f.phase
  flags : w.Flags n
  read : ∀ i < n, marks (C i) = w.current + if w.running i then 0 else 1
  ahead : ∀ i < n, ∀ e, w.current < e → segment (C i) e = []
  conserve : ∀ e, total m f.sent e +
    (if e = w.current then w.held + pending f.phase else 0) = total n C e
  written : ∀ j < m, marks (f.sent j) = w.current + if j < reached m f.phase then 1 else 0
  ending : w.ctl = .ending → w.shuffler.buffered = [] ∧ 0 < w.shuffler.epoch

theorem pending_of_quiet {p : CallPhase (Option κ)} (h : p.Quiet) : pending p = 0 := by
  cases p <;> first | rfl | exact h.elim

theorem reached_of_quiet {p : CallPhase (Option κ)} (h : p.Quiet) (m : ℕ) :
    reached m p = 0 := by
  cases p <;> first | rfl | exact h.elim

/-! ## The running flags -/

namespace ShuffleWorker

theorem running_replicate {w : ShuffleWorker κ} {n i : ℕ}
    (h : w.workersStillRunning = List.replicate n true) (hi : i < n) : w.running i = true := by
  simp [running, h, List.getD_eq_getElem?_getD, hi]

theorem running_set (w w' : ShuffleWorker κ) {i : ℕ}
    (h : w'.workersStillRunning = w.workersStillRunning.set i false) (j : ℕ) :
    w'.running j = if j = i then false else w.running j := by
  unfold running
  rw [h, List.getD_eq_getElem?_getD, List.getD_eq_getElem?_getD]
  by_cases hji : j = i
  · subst hji
    by_cases hlt : j < w.workersStillRunning.length
    · simp [hlt]
    · rw [List.getElem?_eq_none (by simpa using hlt), if_pos rfl]
      rfl
  · rw [List.getElem?_set_ne (Ne.symm hji), if_neg hji]

theorem any_running {w : ShuffleWorker κ} {n : ℕ} (hlen : w.workersStillRunning.length = n) :
    w.workersStillRunning.any id = true ↔ ∃ i < n, w.running i = true := by
  rw [List.any_eq_true]
  constructor
  · rintro ⟨b, hb, htrue⟩
    obtain ⟨i, hi, rfl⟩ := List.mem_iff_getElem.mp hb
    exact ⟨i, hlen ▸ hi, by simpa [running, List.getD_eq_getElem?_getD, hi] using htrue⟩
  · rintro ⟨i, hi, htrue⟩
    have hi' : i < w.workersStillRunning.length := hlen.symm ▸ hi
    refine ⟨w.workersStillRunning[i], List.getElem_mem hi', ?_⟩
    simpa [running, List.getD_eq_getElem?_getD, hi'] using htrue

theorem none_running {w : ShuffleWorker κ} {n : ℕ} (hlen : w.workersStillRunning.length = n) :
    w.workersStillRunning.countP id = 0 ↔ ∀ i < n, w.running i = false := by
  have hany : w.workersStillRunning.countP id = 0 ↔
      ¬ w.workersStillRunning.any id = true := by
    rw [List.countP_eq_zero, List.any_eq_true]
    push Not
    rfl
  rw [hany, any_running hlen]
  push Not
  simp only [ne_eq, Bool.not_eq_true]

end ShuffleWorker

/-! ## The steps of the worker -/

section Preservation

variable {n m : ℕ} {w w' : ShuffleWorker κ} {C : ℕ → List (Option κ)} {f f' : Fifo (Option κ)}

/-- A step that reads nothing and writes nothing: it stays in the epoch, and
what it takes from the buffer is handed to the call. -/
theorem ShuffleInv.silent (h : ShuffleInv n m w C f)
    (hrun : w'.workersStillRunning = w.workersStillRunning)
    (hcall : InCall w'.ctl f'.phase) (hflags : w'.Flags n) (hcur : w'.current = w.current)
    (hheld : w'.held + pending f'.phase = w.held + pending f.phase)
    (hsent : f'.sent = f.sent) (hreached : reached m f'.phase = reached m f.phase)
    (hend : w'.ctl = .ending → w'.shuffler.buffered = [] ∧ 0 < w'.shuffler.epoch) :
    ShuffleInv n m w' C f' where
  length := hrun ▸ h.length
  call := hcall
  flags := hflags
  read := by
    intro i hi
    rw [hcur, ShuffleWorker.running, hrun]
    exact h.read i hi
  ahead := hcur ▸ h.ahead
  conserve := by
    intro e
    rw [hcur, hheld, hsent]
    exact h.conserve e
  written := by
    intro j hj
    rw [hcur, hsent, hreached]
    exact h.written j hj
  ending := hend

theorem ShuffleInv.internal (hs : ShuffleWorker.Step n .internal w w')
    (h : ShuffleInv n m w C f) : ShuffleInv n m w' C f := by
  rcases w with ⟨ctl, run, s⟩
  cases hs with
  | assertRunning hctl =>
      obtain rfl : ctl = .epochTop := hctl
      have hany : run.any id = true := (ShuffleWorker.any_running h.length).mpr h.flags
      simp only [hany, if_true]
      exact h.silent rfl h.call h.flags rfl rfl rfl rfl nofun
  | endScan hctl hi =>
      obtain rfl : ctl = .scan _ := hctl
      exact h.silent rfl h.call h.flags rfl rfl rfl rfl nofun
  | skip hctl hi hrun =>
      obtain rfl : ctl = .scan _ := hctl
      exact h.silent rfl h.call h.flags rfl rfl rfl rfl nofun
  | timeout hctl hi hrun =>
      obtain rfl : ctl = .scan _ := hctl
      exact h.silent rfl h.call h.flags rfl rfl rfl rfl nofun
  | store hctl hadd =>
      obtain rfl : ctl = .addItem _ _ := hctl
      obtain ⟨hep, hbuf⟩ := Shuffler.addItem_stored hadd
      exact h.silent rfl h.call h.flags hep (congrArg (· + _) hbuf) rfl rfl nofun

/-- Both places that follow an end marker, once the flags are known. -/
theorem ShuffleInv.afterMark {i : ℕ} (hlen : w.workersStillRunning.length = n)
    (hc : w.ctl = if w.workersStillRunning.countP id = 0 then .finishing else .scan i)
    (hq : f.phase.Quiet)
    (hread : ∀ i < n, marks (C i) = w.shuffler.epoch + if w.running i then 0 else 1)
    (hahead : ∀ i < n, ∀ e, w.shuffler.epoch < e → segment (C i) e = [])
    (hcons : ∀ e, total m f.sent e +
      (if e = w.shuffler.epoch then w.shuffler.buffered + pending f.phase else 0) = total n C e)
    (hwritten : ∀ j < m, marks (f.sent j) =
      w.shuffler.epoch + if j < reached m f.phase then 1 else 0) :
    ShuffleInv n m w C f := by
  rcases w with ⟨ctl, run, s⟩
  have hnone := ShuffleWorker.none_running (w := ⟨ctl, run, s⟩) hlen
  have hany := ShuffleWorker.any_running (w := ⟨ctl, run, s⟩) hlen
  by_cases hzero : run.countP id = 0
  · obtain rfl : ctl = .finishing := hc.trans (if_pos hzero)
    exact ⟨hlen, hq, hnone.mp hzero, hread, hahead, hcons, hwritten, nofun⟩
  · obtain rfl : ctl = .scan i := hc.trans (if_neg hzero)
    refine ⟨hlen, hq, ?_, hread, hahead, hcons, hwritten, nofun⟩
    by_contra hno
    refine hzero (hnone.mpr fun j hj => ?_)
    by_contra htrue
    exact hno ⟨j, hj, by simpa using htrue⟩

/-- What the worker reads belongs to the epoch it is in. -/
theorem ShuffleInv.get {i : ℕ} {x : Option κ} (hs : ShuffleWorker.Step n (.get i x) w w')
    (h : ShuffleInv n m w C f) : ShuffleInv n m w' (append C i x) f := by
  rcases w with ⟨ctl, run, s⟩
  cases hs with
  | getNone hctl hi hrun =>
      obtain rfl : ctl = .scan _ := hctl
      have hmarks : marks (C i) = s.epoch := by
        rw [h.read i hi, if_pos hrun]
        rfl
      have hset := ShuffleWorker.running_set ⟨.scan i, run, s⟩
        (ShuffleWorker.endOfQueue ⟨.scan i, run, s⟩ i) rfl
      -- the marker closes the epoch of stream `i` and adds no item
      refine ShuffleInv.afterMark ?_ rfl h.call (fun j hj => ?_) (fun j hj e he => ?_)
        (fun e => ?_) h.written
      · show (run.set i false).length = n
        rw [List.length_set]
        exact h.length
      · rw [hset j]
        by_cases hji : j = i
        · subst hji
          rw [append_self, marks_append_none, hmarks]
          simp [ShuffleWorker.endOfQueue]
        · rw [append_of_ne C hji, if_neg hji]
          exact h.read j hj
      · by_cases hji : j = i
        · subst hji
          rw [append_self, segment_append_none]
          exact h.ahead j hi e he
        · rw [append_of_ne C hji]
          exact h.ahead j hj e he
      · rw [show append C i none = Function.update C i (C i ++ [none]) from rfl,
          total_push_none]
        exact h.conserve e
  | getItem item hctl hi hrun =>
      obtain rfl : ctl = .scan _ := hctl
      have hmarks : marks (C i) = s.epoch := by
        rw [h.read i hi, if_pos hrun]
        rfl
      refine ⟨h.length, h.call, h.flags, fun j hj => ?_, fun j hj e he => ?_, fun e => ?_,
        h.written, nofun⟩
      · by_cases hji : j = i
        · subst hji
          rw [append_self, marks_append_some]
          exact h.read j hi
        · rw [append_of_ne C hji]
          exact h.read j hj
      · by_cases hji : j = i
        · subst hji
          rw [append_self, segment_append_some, if_neg (by rw [hmarks]; exact Nat.ne_of_gt he)]
          exact h.ahead j hi e he
        · rw [append_of_ne C hji]
          exact h.ahead j hj e he
      · rw [show append C i (some item) = Function.update C i (C i ++ [some item]) from rfl,
          total_push_some C hi, hmarks, ← h.conserve e]
        -- the item joins the open epoch, in what is read and in what is held
        show total m f.sent e + (if e = s.epoch then s.buffered + {item} + pending f.phase else 0) =
          total m f.sent e + (if e = s.epoch then s.buffered + pending f.phase else 0) + _
        by_cases he : e = s.epoch
        · rw [if_pos he, if_pos he, if_pos he]
          simp only [add_comm, add_left_comm]
        · rw [if_neg he, if_neg he, if_neg he, add_zero, add_zero]

/-- After the end markers the next epoch is open, in what is read and in what
is written. -/
theorem ShuffleInv.ended {run : List Bool} {s : Shuffler κ}
    (h : ShuffleInv n m ⟨.ending, run, s⟩ C f) (hn : 0 < n)
    (hp : f.phase = .returned (.ok .putToAll)) :
    ShuffleInv n m ⟨.epochTop, List.replicate n true, s⟩ C { f with phase := .idle } := by
  obtain ⟨hbuf, hpos⟩ : s.buffered = [] ∧ 0 < s.epoch := h.ending rfl
  have hcons := h.conserve
  have hwritten := h.written
  have hfresh : ∀ i < n,
      (⟨.epochTop, List.replicate n true, s⟩ : ShuffleWorker κ).running i = true :=
    fun i hi => ShuffleWorker.running_replicate rfl hi
  simp only [hp, reached] at hwritten
  simp only [hp, ShuffleWorker.held, hbuf, pending] at hcons
  refine ⟨List.length_replicate, trivial, ⟨0, hn, hfresh 0 hn⟩, fun i hi => ?_,
    fun i hi e he => ?_, fun e => ?_, fun j hj => ?_, nofun⟩
  · rw [h.read i hi, hfresh i hi, if_neg (by simp [h.flags i hi]), if_pos rfl]
    show s.epoch - 1 + 1 = s.epoch
    omega
  · refine h.ahead i hi e ?_
    show s.epoch - 1 < e
    have : s.epoch < e := he
    omega
  · rw [← hcons e]
    show _ + (if e = s.epoch then (s.buffered : Multiset κ) + 0 else 0) = _
    simp [hbuf]
  · rw [hwritten j hj, if_pos hj]
    show s.epoch - 1 + 1 = s.epoch
    omega

theorem ShuffleInv.shuffled {l : Label (Option κ)} (hn : 0 < n)
    (hs : ShuffleWorker.Step n (.shuffled l) w w') (hf : Fifo.Step m l f f')
    (h : ShuffleInv n m w C f) : ShuffleInv n m w' C f' := by
  rcases w with ⟨ctl, run, s⟩
  cases hs with
  | put hctl hadd =>
      obtain rfl : ctl = .addItem _ _ := hctl
      have hq : f.phase.Quiet := h.call
      obtain ⟨hep, hbuf⟩ := Shuffler.addItem_put hadd
      obtain rfl := hf.call_inv
      refine h.silent rfl (.inl ⟨_, rfl⟩) h.flags hep ?_ rfl (reached_of_quiet hq m).symm nofun
      rw [pending_of_quiet hq, add_zero]
      exact (add_comm _ _).trans hbuf
  | added hctl =>
      obtain rfl : ctl = .adding _ _ := hctl
      rcases hf.ret_inv with ⟨hp, rfl⟩
      refine h.silent rfl trivial h.flags rfl ?_ rfl ?_ nofun
      · rw [hp]
        rfl
      · rw [hp]
        rfl
  | flush hctl hsample =>
      obtain rfl : ctl = .finishing := hctl
      have hq : f.phase.Quiet := h.call
      obtain ⟨hep, hbuf⟩ := Shuffler.sample_spec hsample
      obtain rfl := hf.call_inv
      refine h.silent rfl (.inl ⟨_, rfl⟩) h.flags hep ?_ rfl (reached_of_quiet hq m).symm nofun
      rw [pending_of_quiet hq, add_zero]
      exact (add_comm _ _).trans hbuf
  | flushed hctl =>
      obtain rfl : ctl = .flushing := hctl
      rcases hf.ret_inv with ⟨hp, rfl⟩
      refine h.silent rfl trivial h.flags rfl ?_ rfl ?_ nofun
      · rw [hp]
        rfl
      · rw [hp]
        rfl
  | endEpoch hctl hbuf =>
      obtain rfl : ctl = .finishing := hctl
      have hq : f.phase.Quiet := h.call
      obtain rfl := hf.call_inv
      -- `finish_epoch` counts up first, so the epoch being written is one behind
      refine h.silent rfl (.inl ⟨0, rfl⟩) h.flags ?_ ?_ rfl (reached_of_quiet hq m).symm
        fun _ => ⟨?_, ?_⟩
      · show s.nextEpoch.epoch - 1 = s.epoch
        rw [Shuffler.epoch_nextEpoch, Nat.add_sub_cancel]
      · rw [pending_of_quiet hq]
        show (s.nextEpoch.buffered : Multiset κ) + 0 = s.buffered + 0
        rw [Shuffler.buffered_nextEpoch]
      · exact s.buffered_nextEpoch.trans hbuf
      · show 0 < s.nextEpoch.epoch
        rw [Shuffler.epoch_nextEpoch]
        exact Nat.succ_pos _
  | ended hctl =>
      obtain rfl : ctl = .ending := hctl
      rcases hf.ret_inv with ⟨hp, rfl⟩
      exact h.ended hn hp

/-! ## The steps of the shuffle queue -/

/-- The `put` sends its item, in the epoch that is open for every client. -/
theorem ShuffleInv.accept (h : ShuffleInv n m w C f) {x : κ} {j : ℕ} (hj : j < m)
    (hp : f.phase = .putting ⟨some x, none, false⟩)
    (hcall : InCall w.ctl (.returned (.ok (.put true)) : CallPhase (Option κ))) :
    ShuffleInv n m w C
      { f with phase := .returned (.ok (.put true)), sent := append f.sent j (some x) } := by
  have hwritten := h.written
  have hcons := h.conserve
  simp only [hp, reached, Nat.not_lt_zero, if_false, add_zero] at hwritten
  simp only [hp, pending] at hcons
  refine ⟨h.length, hcall, h.flags, h.read, h.ahead, fun e => ?_, fun i hi => ?_, h.ending⟩
  · rw [← hcons e]
    show total m (Function.update f.sent j (f.sent j ++ [some x])) e +
      (if e = w.current then w.held + 0 else 0) = _
    rw [total_push_some f.sent hj, hwritten j hj, add_zero]
    by_cases he : e = w.current
    · rw [if_pos he, if_pos he, if_pos he, add_assoc, add_comm w.held]
    · rw [if_neg he, if_neg he, if_neg he, add_zero]
  · show marks (append f.sent j (some x) i) = w.current + 0
    by_cases hij : i = j
    · subst hij
      rw [append_self, marks_append_some]
      exact hwritten i hi
    · rw [append_of_ne _ hij]
      exact hwritten i hi

/-- `put_to_all` reaches one more client. -/
theorem ShuffleInv.sendOne (h : ShuffleInv n m w C f) {k : ℕ}
    (hp : f.phase = .sendingAll none k)
    (hcall : InCall w.ctl (.sendingAll none (k + 1) : CallPhase (Option κ))) :
    ShuffleInv n m w C
      { f with phase := .sendingAll none (k + 1), sent := append f.sent k none } := by
  have hwritten := h.written
  have hcons := h.conserve
  simp only [hp, reached] at hwritten
  simp only [hp, pending] at hcons
  refine ⟨h.length, hcall, h.flags, h.read, h.ahead, fun e => ?_, fun i hi => ?_, h.ending⟩
  · rw [← hcons e]
    show total m (Function.update f.sent k (f.sent k ++ [none])) e + _ = _
    rw [total_push_none]
    rfl
  · show marks (append f.sent k none i) = w.current + if i < k + 1 then 1 else 0
    by_cases hik : i = k
    · subst hik
      rw [append_self, marks_append_none, hwritten i hi, if_neg (Nat.lt_irrefl i),
        if_pos (Nat.lt_succ_self i)]
    · rw [append_of_ne _ hik, hwritten i hi]
      congr 1
      exact if_congr (by omega) rfl rfl

theorem ShuffleInv.sentAll (h : ShuffleInv n m w C f) {k : ℕ} (hk : m ≤ k)
    (hp : f.phase = .sendingAll none k)
    (hcall : InCall w.ctl (.returned (.ok .putToAll) : CallPhase (Option κ))) :
    ShuffleInv n m w C { f with phase := .returned (.ok .putToAll) } := by
  have hwritten := h.written
  have hcons := h.conserve
  simp only [hp, reached] at hwritten
  simp only [hp, pending] at hcons
  refine ⟨h.length, hcall, h.flags, h.read, h.ahead, hcons, fun i hi => ?_, h.ending⟩
  rw [hwritten i hi, if_pos (Nat.lt_of_lt_of_le hi hk)]
  show _ = w.current + if i < m then 1 else 0
  rw [if_pos hi]

theorem ShuffleInv.quiet (h : ShuffleInv n m w C f) (hf : f.After m f') (hq : f.phase.Quiet)
    (hcall : ∀ p : CallPhase (Option κ), p.Quiet → InCall w.ctl p) :
    ShuffleInv n m w C f' := by
  obtain ⟨hq', hsent⟩ := hf.quiet hq
  refine h.silent rfl (hcall _ hq') h.flags rfl ?_ hsent ?_ h.ending
  · rw [pending_of_quiet hq, pending_of_quiet hq']
  · rw [reached_of_quiet hq, reached_of_quiet hq']

theorem ShuffleInv.putting (h : ShuffleInv n m w C f) (hf : f.After m f')
    (hp : (∃ x, f.phase = .putting ⟨some x, none, false⟩) ∨
      f.phase = .returned (.ok (.put true)))
    (hcall : InCall w.ctl (.returned (.ok (.put true)) : CallPhase (Option κ))) :
    ShuffleInv n m w C f' := by
  rcases hp with ⟨x, hp⟩ | hp
  · simp only [Fifo.After, hp] at hf
    rcases hf with ⟨j, hj, rfl⟩ | ⟨hwait, -⟩
    · exact h.accept hj hp hcall
    · exact absurd hwait (by simp)
  · simp only [Fifo.After, hp] at hf

theorem ShuffleInv.toAll (h : ShuffleInv n m w C f) (hf : f.After m f')
    (hp : (∃ k, f.phase = .sendingAll none k) ∨ f.phase = .returned (.ok .putToAll))
    (hcall : ∀ p : CallPhase (Option κ),
      (∃ k, p = .sendingAll none k) ∨ p = .returned (.ok .putToAll) → InCall w.ctl p) :
    ShuffleInv n m w C f' := by
  rcases hp with ⟨k, hp⟩ | hp
  · simp only [Fifo.After, hp] at hf
    rcases hf with ⟨hk, rfl⟩ | ⟨hk, rfl⟩
    · exact h.sendOne hp (hcall _ (.inl ⟨k + 1, rfl⟩))
    · exact h.sentAll hk hp (hcall _ (.inr rfl))
  · simp only [Fifo.After, hp] at hf

/-- An internal step of the queue serves the call in progress. -/
theorem ShuffleInv.queue (h : ShuffleInv n m w C f) (hf : f.After m f') :
    ShuffleInv n m w C f' := by
  rcases w with ⟨ctl, run, s⟩
  cases ctl with
  | epochTop => exact h.quiet hf h.call fun _ hq => hq
  | assertFailed => exact h.quiet hf h.call fun _ hq => hq
  | scan i => exact h.quiet hf h.call fun _ hq => hq
  | addItem i item => exact h.quiet hf h.call fun _ hq => hq
  | adding i after => exact h.putting hf h.call (.inr rfl)
  | finishing => exact h.quiet hf h.call fun _ hq => hq
  | flushing => exact h.putting hf h.call (.inr rfl)
  | ending => exact h.toAll hf h.call fun _ hp => hp

theorem ShuffleInv.recv (h : ShuffleInv n m w C f) (hp : f'.phase = f.phase)
    (hs : f'.sent = f.sent) : ShuffleInv n m w C f' :=
  h.silent rfl (hp ▸ h.call) h.flags rfl (by rw [hp]) hs (by rw [hp]) h.ending

end Preservation

/-! ## Closed epochs -/

section Closed

variable {n m : ℕ} {w : ShuffleWorker κ} {C : ℕ → List (Option κ)} {f : Fifo (Option κ)}

theorem ShuffleInv.ending_of_reached (h : ShuffleInv n m w C f) (hr : 0 < reached m f.phase) :
    w.ctl = .ending := by
  have hcall := h.call
  rcases w with ⟨ctl, run, s⟩
  have hquiet : ¬ f.phase.Quiet := fun hq => by
    rw [reached_of_quiet hq] at hr
    exact Nat.lt_irrefl 0 hr
  have hput : ¬ ((∃ x, f.phase = .putting ⟨some x, none, false⟩) ∨
      f.phase = .returned (.ok (.put true))) := by
    rintro (⟨x, hp⟩ | hp)
    · rw [hp] at hr
      exact Nat.lt_irrefl 0 hr
    · rw [hp] at hr
      exact Nat.lt_irrefl 0 hr
  cases ctl with
  | ending => rfl
  | adding i after => exact absurd hcall hput
  | flushing => exact absurd hcall hput
  | _ => exact absurd hcall hquiet

theorem ShuffleInv.marks_written (h : ShuffleInv n m w C f) {j : ℕ} (hj : j < m) :
    marks (f.sent j) = w.current ∨ w.ctl = .ending ∧ marks (f.sent j) = w.current + 1 := by
  rw [h.written j hj]
  by_cases hr : j < reached m f.phase
  · exact .inr ⟨h.ending_of_reached (Nat.lt_of_le_of_lt (Nat.zero_le j) hr), by rw [if_pos hr]⟩
  · exact .inl (by rw [if_neg hr, add_zero])

/-- When one dataset worker has been sent the end marker of an epoch, the
epoch has been read to its end everywhere and everything in it has been
written. -/
theorem ShuffleInv.closed (h : ShuffleInv n m w C f) {j e : ℕ} (hj : j < m)
    (he : e < marks (f.sent j)) :
    (∀ i < n, e < marks (C i)) ∧ total m f.sent e = total n C e := by
  have hc := h.conserve e
  rcases Nat.lt_or_ge e w.current with hlt | hge
  · rw [if_neg (Nat.ne_of_lt hlt), add_zero] at hc
    refine ⟨fun i hi => ?_, hc⟩
    rw [h.read i hi]
    exact Nat.lt_of_lt_of_le hlt (Nat.le_add_right _ _)
  · -- a marker of the open epoch goes out only when the buffer is empty and all queues ended
    rcases h.marks_written hj with hm | ⟨hctl, hm⟩
    · omega
    obtain rfl : e = w.current := by omega
    have hflags := h.flags
    have hcall := h.call
    obtain ⟨hbuf, -⟩ := h.ending hctl
    simp only [ShuffleWorker.Flags, hctl] at hflags
    simp only [InCall, hctl] at hcall
    refine ⟨fun i hi => ?_, ?_⟩
    · rw [h.read i hi, hflags i hi]
      exact Nat.lt_succ_self _
    · have hpend : pending f.phase = 0 := by
        rcases hcall with ⟨k, hp⟩ | hp
        · rw [hp]
          rfl
        · rw [hp]
          rfl
      have hheld : w.held = 0 := by
        simp only [ShuffleWorker.held, hctl, hbuf, Multiset.coe_nil]
      rwa [if_pos rfl, hpend, hheld, add_zero, add_zero] at hc

end Closed

end P2PRdt.Data

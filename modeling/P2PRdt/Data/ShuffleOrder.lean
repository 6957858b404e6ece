import P2PRdt.Data.ShuffleStage
import P2PRdt.Data.ShuffleEpoch
import P2PRdt.Lib.RoundRobin

/-!
# The shuffle worker without shuffling

With `shuffle = false` and no `get` that times out, the order in which
`run_shuffle_worker` reads its queues does not depend on when the messages
arrive. The messages of the streams `S i` arrive at any time and in order, and
a `get` waits for the next one. `Merged` says where the worker is: in each
epoch it has taken the round-robin merge (`Lib.RoundRobin`) of the epoch
streams, end markers included, up to the turn of one queue in one round.
-/

namespace P2PRdt.Data

open Lib

variable {κ : Type}

/-! ## The order -/

/-- Epoch `e` of stream `i`, with the marker that ends it. -/
def epochStream (S : ℕ → List (Option κ)) (e i : ℕ) : List (Option κ) :=
  (segment (S i) e).map some ++ [none]

/-- The messages of epoch `e` in the order of a round-robin from queue 0, each
with the number of its queue. -/
def epochReads (n : ℕ) (S : ℕ → List (Option κ)) (e : ℕ) : List (ℕ × Option κ) :=
  roundRobin n (epochStream S e)

/-- An item is added; the markers but for the last of an epoch change nothing. -/
def callOf : ℕ × Option κ → Option (ShufflerCall κ)
  | (_, some x) => some (.addItem x)
  | (_, none) => none

def epochCalls (n : ℕ) (S : ℕ → List (Option κ)) (e : ℕ) : List (ShufflerCall κ) :=
  (epochReads n S e).filterMap callOf ++ [.finishEpoch]

/-- The first `e` epochs. -/
def readsUpTo (n : ℕ) (S : ℕ → List (Option κ)) (e : ℕ) : List (ℕ × Option κ) :=
  (List.range e).flatMap (epochReads n S)

def callsUpTo (n : ℕ) (S : ℕ → List (Option κ)) (e : ℕ) : List (ShufflerCall κ) :=
  (List.range e).flatMap (epochCalls n S)

/-! ## Runs without timeouts -/

/-- The worker with how much of each stream has arrived and has been read, and
the messages read and the calls made so far. -/
structure OrderState (κ : Type) where
  worker : ShuffleWorker κ
  arrived : ℕ → ℕ
  read : ℕ → ℕ
  reads : List (ℕ × Option κ)
  calls : List (ShufflerCall κ)

namespace OrderState

def new (n shuffleBufferSize : ℕ) : OrderState κ where
  worker := .new n false shuffleBufferSize
  arrived _ := 0
  read _ := 0
  reads := []
  calls := []

/-- What has been read from queue `i`. -/
def consumed (S : ℕ → List (Option κ)) (q : OrderState κ) (i : ℕ) : List (Option κ) :=
  (S i).take (q.read i)

end OrderState

/-- The call that the worker makes with message `m`, `w'` being the worker
afterwards. -/
def callsOf (m : Option κ) (w' : ShuffleWorker κ) : List (ShufflerCall κ) :=
  match m, w'.ctl with
  | some x, _ => [.addItem x]
  | none, .finishing => [.finishEpoch]
  | none, _ => []

/-- The only step of a running queue at its turn is a `get` that returns: the
other one would be a timeout. -/
inductive OrderStep (n : ℕ) (S : ℕ → List (Option κ)) : OrderState κ → OrderState κ → Prop
  | arrive {q : OrderState κ} {i : ℕ} : i < n → q.arrived i < (S i).length →
      OrderStep n S q { q with arrived := Function.update q.arrived i (q.arrived i + 1) }
  | get {q : OrderState κ} {i : ℕ} {m : Option κ} {w' : ShuffleWorker κ} :
      ShuffleWorker.Step n (.get i m) q.worker w' → q.read i < q.arrived i →
      (S i)[q.read i]? = some m →
      OrderStep n S q
        { q with
          worker := w'
          read := Function.update q.read i (q.read i + 1)
          reads := q.reads ++ [(i, m)]
          calls := q.calls ++ callsOf m w' }
  | internal {q : OrderState κ} {w' : ShuffleWorker κ} :
      ShuffleWorker.Step n .internal q.worker w' →
      (∀ i, q.worker.ctl = .scan i → q.worker.running i = false) →
      OrderStep n S q { q with worker := w' }
  | shuffled {q : OrderState κ} {l : Zmq.Label (Option κ)} {w' : ShuffleWorker κ} :
      ShuffleWorker.Step n (.shuffled l) q.worker w' → OrderStep n S q { q with worker := w' }

/-! ## Where the worker is -/

/-- The worker runs with `NoShuffle`. -/
structure ShuffleWorker.Unshuffled (w : ShuffleWorker κ) : Prop where
  shuffler : ∃ k e, w.shuffler = .noShuffle k e
  adding : ∀ i after, w.ctl = .adding i after → ∃ k e, after = .noShuffle k e

/-- In round `r` of epoch `e` it is the turn of queue `i`. -/
structure Merged (n : ℕ) (S : ℕ → List (Option κ)) (q : OrderState κ) (e r i : ℕ) : Prop where
  reads_eq : q.reads = readsUpTo n S e ++ turns n (epochStream S e) r i
  calls_eq : q.calls =
    callsUpTo n S e ++ (turns n (epochStream S e) r i).filterMap callOf
  running : ∀ j < n, q.worker.running j = true → marks (q.consumed S j) = e ∧
    (segment (q.consumed S j) e).length = r + if j < i then 1 else 0
  finished : ∀ j < n, q.worker.running j = false → marks (q.consumed S j) = e + 1 ∧
    segment (q.consumed S j) (e + 1) = [] ∧
    (segment (q.consumed S j) e).length < r + if j < i then 1 else 0

/-- The first `e` epochs have been read and nothing of the next one. -/
structure Closed (n : ℕ) (S : ℕ → List (Option κ)) (q : OrderState κ) (e : ℕ) : Prop where
  reads_eq : q.reads = readsUpTo n S e
  calls_eq : q.calls = callsUpTo n S e
  marks_eq : ∀ j < n, marks (q.consumed S j) = e
  segment_eq : ∀ j < n, segment (q.consumed S j) e = []

/-- The place that goes with the control state. -/
def Placed (n : ℕ) (S : ℕ → List (Option κ)) (q : OrderState κ) : Prop :=
  match q.worker.ctl with
  | .epochTop =>
      (∃ e r, Merged n S q e r 0 ∧ ∃ j < n, q.worker.running j = true) ∨ n = 0 ∧ Closed n S q 0
  | .assertFailed => n = 0 ∧ Closed n S q 0
  | .scan i => i ≤ n ∧ ∃ e r, Merged n S q e r i ∧ ∃ j < n, q.worker.running j = true
  | .addItem i _ | .adding i _ =>
      i < n ∧ ∃ e r, Merged n S q e r (i + 1) ∧ ∃ j < n, q.worker.running j = true
  | .finishing | .ending => 0 < n ∧ ∃ e, Closed n S q e
  | .flushing => False

structure OrderInv (n : ℕ) (S : ℕ → List (Option κ)) (q : OrderState κ) : Prop where
  length : q.worker.workersStillRunning.length = n
  unshuffled : q.worker.Unshuffled
  read_le : ∀ i < n, q.read i ≤ q.arrived i
  arrived_le : ∀ i < n, q.arrived i ≤ (S i).length
  reads_of : ∀ i < n,
    q.reads.filterMap (fun p => if p.1 = i then some p.2 else none) = q.consumed S i
  placed : Placed n S q

section Positions

variable {n : ℕ} {S : ℕ → List (Option κ)} {q q' : OrderState κ} {e r i : ℕ}

theorem consumed_isPrefix (S : ℕ → List (Option κ)) (q : OrderState κ) (i : ℕ) :
    q.consumed S i <+: S i := List.take_prefix _ _

/-- A closed epoch has been read to its end. -/
theorem segment_of_closed {j : ℕ} (h : e < marks (q.consumed S j)) :
    segment (S j) e = segment (q.consumed S j) e :=
  segment_eq_of_closed (consumed_isPrefix S q j) h

@[simp] theorem length_epochStream (S : ℕ → List (Option κ)) (e j : ℕ) :
    (epochStream S e j).length = (segment (S j) e).length + 1 := by
  simp [epochStream]

/-- The position only depends on what has been read and on the flags. -/
theorem Merged.congr (h : Merged n S q e r i) (hreads : q'.reads = q.reads)
    (hcalls : q'.calls = q.calls) (hread : q'.read = q.read)
    (hrun : q'.worker.workersStillRunning = q.worker.workersStillRunning) :
    Merged n S q' e r i := by
  have hconsumed : q'.consumed S = q.consumed S := by
    funext j
    rw [OrderState.consumed, OrderState.consumed, hread]
  have hrunning : q'.worker.running = q.worker.running := by
    funext j
    rw [ShuffleWorker.running, ShuffleWorker.running, hrun]
  rcases h with ⟨h₁, h₂, h₃, h₄⟩
  rw [← hconsumed, ← hrunning] at h₃ h₄
  exact ⟨hreads.trans h₁, hcalls.trans h₂, h₃, h₄⟩

theorem Closed.congr (h : Closed n S q e) (hreads : q'.reads = q.reads)
    (hcalls : q'.calls = q.calls) (hread : q'.read = q.read) : Closed n S q' e := by
  have hconsumed : q'.consumed S = q.consumed S := by
    funext j
    rw [OrderState.consumed, OrderState.consumed, hread]
  rcases h with ⟨h₁, h₂, h₃, h₄⟩
  rw [← hconsumed] at h₃ h₄
  exact ⟨hreads.trans h₁, hcalls.trans h₂, h₃, h₄⟩

/-- A queue that is at its end is skipped. -/
theorem Merged.skip (h : Merged n S q e r i) (hi : i < n) (hrun : q.worker.running i = false) :
    Merged n S q e r (i + 1) := by
  obtain ⟨hmarks, hnext, hlen⟩ := h.finished i hi hrun
  rw [if_neg (Nat.lt_irrefl i), Nat.add_zero] at hlen
  have hnone : (epochStream S e i)[r]? = none := by
    apply List.getElem?_eq_none
    rw [length_epochStream, segment_of_closed (q := q) (by omega)]
    exact hlen
  refine ⟨?_, ?_, fun j hj hjrun => ?_, fun j hj hjrun => ?_⟩
  · rw [turns_none hnone]
    exact h.reads_eq
  · rw [turns_none hnone]
    exact h.calls_eq
  · have hne : j ≠ i := by
      rintro rfl
      rw [hrun] at hjrun
      cases hjrun
    rw [(h.running j hj hjrun).2]
    refine ⟨(h.running j hj hjrun).1, ?_⟩
    congr 1
    exact if_congr (by omega) rfl rfl
  · obtain ⟨h₁, h₂, h₃⟩ := h.finished j hj hjrun
    refine ⟨h₁, h₂, h₃.trans_le (Nat.add_le_add_left ?_ r)⟩
    split <;> split <;> omega

/-- The end of a round. -/
theorem Merged.round (h : Merged n S q e r n) : Merged n S q e (r + 1) 0 := by
  refine ⟨?_, ?_, fun j hj hrun => ?_, fun j hj hrun => ?_⟩
  · rw [← turns_round]
    exact h.reads_eq
  · rw [← turns_round]
    exact h.calls_eq
  · obtain ⟨hmarks, hlen⟩ := h.running j hj hrun
    rw [if_pos hj] at hlen
    exact ⟨hmarks, hlen⟩
  · obtain ⟨hmarks, hnext, hlen⟩ := h.finished j hj hrun
    rw [if_pos hj] at hlen
    exact ⟨hmarks, hnext, hlen⟩

theorem Closed.fresh (h : Closed n S q e) (hrun : ∀ j < n, q.worker.running j = true) :
    Merged n S q e 0 0 := by
  refine ⟨?_, ?_, fun j hj _ => ⟨h.marks_eq j hj, ?_⟩, fun j hj hfalse => ?_⟩
  · rw [turns_zero, List.append_nil]
    exact h.reads_eq
  · rw [turns_zero, List.filterMap_nil, List.append_nil]
    exact h.calls_eq
  · rw [h.segment_eq j hj]
    rfl
  · rw [hrun j hj] at hfalse
    cases hfalse

/-- The state after message `m` of queue `i` has been read. -/
def OrderState.afterGet (q : OrderState κ) (i : ℕ) (m : Option κ) (w' : ShuffleWorker κ) :
    OrderState κ :=
  { q with
    worker := w'
    read := Function.update q.read i (q.read i + 1)
    reads := q.reads ++ [(i, m)]
    calls := q.calls ++ callsOf m w' }

theorem consumed_afterGet {m : Option κ} (w' : ShuffleWorker κ) (hm : (S i)[q.read i]? = some m)
    (j : ℕ) : (q.afterGet i m w').consumed S j =
      if j = i then q.consumed S i ++ [m] else q.consumed S j := by
  unfold OrderState.consumed OrderState.afterGet
  dsimp only
  by_cases hji : j = i
  · subst hji
    rw [Function.update_self, if_pos rfl, List.take_add_one, hm]
    rfl
  · rw [Function.update_of_ne hji, if_neg hji]

/-- The queues whose turn it is not keep their place for the next turn. -/
theorem Merged.running_other (h : Merged n S q e r i) {j : ℕ} (hj : j < n) (hji : j ≠ i)
    (hjrun : q.worker.running j = true) : marks (q.consumed S j) = e ∧
      (segment (q.consumed S j) e).length = r + if j < i + 1 then 1 else 0 := by
  obtain ⟨hmarks, hlen⟩ := h.running j hj hjrun
  refine ⟨hmarks, hlen.trans ?_⟩
  congr 1
  exact if_congr (by omega) rfl rfl

theorem Merged.finished_other (h : Merged n S q e r i) {j : ℕ} (hj : j < n)
    (hjrun : q.worker.running j = false) : marks (q.consumed S j) = e + 1 ∧
      segment (q.consumed S j) (e + 1) = [] ∧
      (segment (q.consumed S j) e).length < r + if j < i + 1 then 1 else 0 := by
  obtain ⟨hmarks, hnext, hlen⟩ := h.finished j hj hjrun
  refine ⟨hmarks, hnext, hlen.trans_le (Nat.add_le_add_left ?_ r)⟩
  split <;> split <;> omega

/-- An item is the next message of the merge. -/
theorem Merged.getItem {x : κ} {w' : ShuffleWorker κ} (h : Merged n S q e r i) (hi : i < n)
    (hrun : q.worker.running i = true) (hm : (S i)[q.read i]? = some (some x))
    (hw' : w'.workersStillRunning = q.worker.workersStillRunning) :
    Merged n S (q.afterGet i (some x) w') e r (i + 1) := by
  obtain ⟨hmarks, hlen⟩ := h.running i hi hrun
  rw [if_neg (Nat.lt_irrefl i), Nat.add_zero] at hlen
  have hcons := consumed_afterGet (q := q) w' hm
  have hseg : segment ((q.afterGet i (some x) w').consumed S i) e =
      segment (q.consumed S i) e ++ [x] := by
    rw [hcons i, if_pos rfl, segment_append_some, if_pos hmarks.symm]
  have hturn : (epochStream S e i)[r]? = some (some x) := by
    obtain ⟨rest, hrest⟩ := segment_mono (consumed_isPrefix S (q.afterGet i (some x) w') i) e
    rw [epochStream, ← hrest, hseg, ← hlen]
    simp
  have hrunning : (q.afterGet i (some x) w').worker.running = q.worker.running := by
    funext j
    unfold ShuffleWorker.running
    rw [← hw']
    rfl
  refine ⟨?_, ?_, fun j hj hjrun => ?_, fun j hj hjrun => ?_⟩
  · rw [turns_some hturn, ← List.append_assoc, ← h.reads_eq]
    rfl
  · rw [turns_some hturn, List.filterMap_append, ← List.append_assoc, ← h.calls_eq]
    rfl
  · rw [hrunning] at hjrun
    rw [hcons j]
    by_cases hji : j = i
    · subst hji
      rw [if_pos rfl, marks_append_some, segment_append_some, if_pos hmarks.symm,
        List.length_append, hlen, if_pos (Nat.lt_succ_self j)]
      exact ⟨hmarks, rfl⟩
    · rw [if_neg hji]
      exact h.running_other hj hji hjrun
  · rw [hrunning] at hjrun
    have hji : j ≠ i := by
      rintro rfl
      rw [hrun] at hjrun
      cases hjrun
    rw [hcons j, if_neg hji]
    exact h.finished_other hj hjrun

/-- So is the end marker, after which the queue is skipped. -/
theorem Merged.getNone {w' : ShuffleWorker κ} (h : Merged n S q e r i) (hi : i < n)
    (hrun : q.worker.running i = true) (hm : (S i)[q.read i]? = some none)
    (hw' : w'.workersStillRunning = q.worker.workersStillRunning.set i false) :
    (q.afterGet i none w').reads = readsUpTo n S e ++ turns n (epochStream S e) r (i + 1) ∧
    q.calls = callsUpTo n S e ++ (turns n (epochStream S e) r (i + 1)).filterMap callOf ∧
    (∀ j < n, w'.running j = true → marks ((q.afterGet i none w').consumed S j) = e ∧
      (segment ((q.afterGet i none w').consumed S j) e).length =
        r + if j < i + 1 then 1 else 0) ∧
    ∀ j < n, w'.running j = false → marks ((q.afterGet i none w').consumed S j) = e + 1 ∧
      segment ((q.afterGet i none w').consumed S j) (e + 1) = [] ∧
      (segment ((q.afterGet i none w').consumed S j) e).length <
        r + if j < i + 1 then 1 else 0 := by
  obtain ⟨hmarks, hlen⟩ := h.running i hi hrun
  rw [if_neg (Nat.lt_irrefl i), Nat.add_zero] at hlen
  have hcons := consumed_afterGet (q := q) w' hm
  have hself : (q.afterGet i none w').consumed S i = q.consumed S i ++ [none] := by
    rw [hcons i, if_pos rfl]
  have hturn : (epochStream S e i)[r]? = some none := by
    have hclosed : e < marks ((q.afterGet i none w').consumed S i) := by
      rw [hself, marks_append_none, hmarks]
      exact Nat.lt_succ_self e
    rw [epochStream, segment_of_closed hclosed, hself, segment_append_none, ← hlen]
    simp
  have hset := ShuffleWorker.running_set q.worker w' hw'
  refine ⟨?_, ?_, fun j hj hjrun => ?_, fun j hj hjrun => ?_⟩
  · rw [turns_some hturn, ← List.append_assoc, ← h.reads_eq]
    rfl
  · rw [turns_some hturn, List.filterMap_append, ← List.append_assoc, ← h.calls_eq]
    exact (List.append_nil _).symm
  · have hji : j ≠ i := by
      rintro rfl
      rw [hset, if_pos rfl] at hjrun
      cases hjrun
    rw [hset, if_neg hji] at hjrun
    rw [hcons j, if_neg hji]
    exact h.running_other hj hji hjrun
  · rw [hcons j]
    by_cases hji : j = i
    · subst hji
      rw [if_pos rfl, marks_append_none, segment_append_none, segment_append_none, hmarks, hlen,
        if_pos (Nat.lt_succ_self j)]
      exact ⟨rfl, segment_of_marks_lt (by omega), Nat.lt_succ_self r⟩
    · rw [hset, if_neg hji] at hjrun
      rw [if_neg hji]
      exact h.finished_other hj hjrun

end Positions

/-! ## The steps -/

theorem ShuffleWorker.Unshuffled.step {n : ℕ} {l : ShuffleLabel κ} {w w' : ShuffleWorker κ}
    (h : w.Unshuffled) (hs : ShuffleWorker.Step n l w w') : w'.Unshuffled := by
  rcases h with ⟨⟨k, e, hw⟩, hadding⟩
  cases hs with
  | assertRunning hctl =>
      refine ⟨⟨k, e, hw⟩, fun i after h' => ?_⟩
      dsimp only at h'
      split at h' <;> cases h'
  | endScan | skip | timeout | getItem | flushed | ended =>
      refine ⟨⟨k, e, hw⟩, ?_⟩
      rintro i after ⟨⟩
  | getNone hctl hi hrun =>
      refine ⟨⟨k, e, hw⟩, fun i after h' => ?_⟩
      simp only [ShuffleWorker.endOfQueue] at h'
      split at h' <;> cases h'
  | store hctl hadd =>
      rw [hw] at hadd
      cases hadd
  | put hctl hadd =>
      rw [hw] at hadd
      simp only [Shuffler.addItem, Option.some.injEq, Shuffler.Added.put.injEq] at hadd
      rcases hadd with ⟨-, rfl, rfl⟩
      refine ⟨⟨_, _, rfl⟩, ?_⟩
      rintro i after ⟨⟩
      exact ⟨_, _, rfl⟩
  | added hctl =>
      refine ⟨hadding _ _ hctl, ?_⟩
      rintro i after ⟨⟩
  | flush hctl hsample =>
      rw [hw] at hsample
      cases hsample
  | endEpoch hctl hbuf =>
      constructor
      · refine ⟨0, e + 1, ?_⟩
        show w.shuffler.nextEpoch = _
        rw [hw]
        rfl
      · rintro i after ⟨⟩

section Steps

variable {n : ℕ} {S : ℕ → List (Option κ)} {q : OrderState κ}

theorem readsUpTo_succ (n : ℕ) (S : ℕ → List (Option κ)) (e : ℕ) :
    readsUpTo n S (e + 1) = readsUpTo n S e ++ epochReads n S e := by
  rw [readsUpTo, List.range_succ, List.flatMap_append, List.flatMap_singleton]
  rfl

theorem callsUpTo_succ (n : ℕ) (S : ℕ → List (Option κ)) (e : ℕ) :
    callsUpTo n S (e + 1) = callsUpTo n S e ++ epochCalls n S e := by
  rw [callsUpTo, List.range_succ, List.flatMap_append, List.flatMap_singleton]
  rfl

/-- After the end marker of queue `i` the epoch goes on, or it is over. -/
theorem Placed.afterMark {e r i : ℕ} (h : Merged n S q e r i) (hi : i < n)
    (hlen : q.worker.workersStillRunning.length = n) (hrun : q.worker.running i = true)
    (hm : (S i)[q.read i]? = some none) :
    Placed n S (q.afterGet i none (q.worker.endOfQueue i)) := by
  obtain ⟨hreads, hcalls, hrunning, hfinished⟩ :=
    h.getNone hi hrun hm
      (show (q.worker.endOfQueue i).workersStillRunning = q.worker.workersStillRunning.set i false
        from rfl)
  have hlen' : (q.worker.endOfQueue i).workersStillRunning.length = n := by
    show (q.worker.workersStillRunning.set i false).length = n
    rw [List.length_set]
    exact hlen
  have hnone := ShuffleWorker.none_running hlen'
  have hctl : (q.worker.endOfQueue i).ctl =
      if (q.worker.endOfQueue i).workersStillRunning.countP id = 0 then .finishing
      else .scan (i + 1) := rfl
  by_cases hzero : (q.worker.endOfQueue i).workersStillRunning.countP id = 0
  · -- every queue has been read to its marker, so the merge is complete
    rw [if_pos hzero] at hctl
    have hall := hnone.mp hzero
    have hfull : turns n (epochStream S e) r (i + 1) = epochReads n S e := by
      refine turns_eq_roundRobin hi fun j hj => ?_
      obtain ⟨h₁, -, h₃⟩ := hfinished j hj (hall j hj)
      rw [length_epochStream, segment_of_closed (by rw [h₁]; exact Nat.lt_succ_self e)]
      exact h₃
    rw [hfull] at hreads hcalls
    show Placed n S _
    unfold Placed
    have hctl' : (q.afterGet i none (q.worker.endOfQueue i)).worker.ctl = .finishing := hctl
    rw [hctl']
    refine ⟨Nat.zero_lt_of_lt hi, e + 1, ?_, ?_, fun j hj => (hfinished j hj (hall j hj)).1,
      fun j hj => (hfinished j hj (hall j hj)).2.1⟩
    · rw [readsUpTo_succ]
      exact hreads
    · rw [callsUpTo_succ, epochCalls, ← List.append_assoc, ← hcalls]
      have hcall : callsOf none (q.worker.endOfQueue i) = [.finishEpoch] := by
        simp only [callsOf, hctl]
      exact congrArg (q.calls ++ ·) hcall
  · rw [if_neg hzero] at hctl
    unfold Placed
    have hctl' : (q.afterGet i none (q.worker.endOfQueue i)).worker.ctl = .scan (i + 1) := hctl
    rw [hctl']
    refine ⟨hi, e, r, ⟨hreads, ?_, hrunning, hfinished⟩, ?_⟩
    · rw [← hcalls]
      have hcall : callsOf none (q.worker.endOfQueue i) = [] := by
        simp only [callsOf, hctl]
      exact (congrArg (q.calls ++ ·) hcall).trans (List.append_nil _)
    · by_contra hno
      refine hzero (hnone.mpr fun j hj => ?_)
      by_contra htrue
      exact hno ⟨j, hj, (Bool.not_eq_false _).mp htrue⟩

/-- An arrival does not move the worker. -/
theorem Placed.congr {q' : OrderState κ} (h : Placed n S q) (hworker : q'.worker = q.worker)
    (hreads : q'.reads = q.reads) (hcalls : q'.calls = q.calls) (hread : q'.read = q.read) :
    Placed n S q' := by
  have hrun := congrArg ShuffleWorker.workersStillRunning hworker
  have hmerged : ∀ {e r i}, Merged n S q e r i → Merged n S q' e r i :=
    fun hm => hm.congr hreads hcalls hread hrun
  have hclosed : ∀ {e}, Closed n S q e → Closed n S q' e :=
    fun hc => hc.congr hreads hcalls hread
  unfold Placed at h ⊢
  rw [hworker]
  split at h
  · rcases h with ⟨e, r, hm, hany⟩ | ⟨hn, hc⟩
    · exact .inl ⟨e, r, hmerged hm, hany⟩
    · exact .inr ⟨hn, hclosed hc⟩
  · exact ⟨h.1, hclosed h.2⟩
  · rcases h with ⟨hi, e, r, hm, hany⟩
    exact ⟨hi, e, r, hmerged hm, hany⟩
  · rcases h with ⟨hi, e, r, hm, hany⟩
    exact ⟨hi, e, r, hmerged hm, hany⟩
  · rcases h with ⟨hi, e, r, hm, hany⟩
    exact ⟨hi, e, r, hmerged hm, hany⟩
  · rcases h with ⟨hn, e, hc⟩
    exact ⟨hn, e, hclosed hc⟩
  · rcases h with ⟨hn, e, hc⟩
    exact ⟨hn, e, hclosed hc⟩
  · exact h

/-- The bookkeeping of the scan. -/
theorem Placed.internal {w' : ShuffleWorker κ} (h : Placed n S q)
    (hlen : q.worker.workersStillRunning.length = n)
    (hshuffler : q.worker.Unshuffled)
    (hs : ShuffleWorker.Step n .internal q.worker w')
    (hget : ∀ i, q.worker.ctl = .scan i → q.worker.running i = false) :
    Placed n S { q with worker := w' } := by
  cases hs with
  | assertRunning hctl =>
      simp only [Placed, hctl] at h
      have hiff := ShuffleWorker.any_running hlen
      unfold Placed
      rcases h with ⟨e, r, hm, hany⟩ | ⟨rfl, hc⟩
      · simp only [hiff.mpr hany, if_true]
        exact ⟨Nat.zero_le n, e, r, hm.congr rfl rfl rfl rfl, hany⟩
      · -- without queues there is nothing to read
        have hrun : q.worker.workersStillRunning.any id = false := by
          rw [List.length_eq_zero_iff.mp hlen]
          rfl
        simp only [hrun, Bool.false_eq_true, if_false]
        exact ⟨trivial, hc.congr rfl rfl rfl⟩
  | endScan hctl hi =>
      simp only [Placed, hctl] at h
      rcases h with ⟨hin, e, r, hm, hany⟩
      obtain rfl := le_antisymm hin hi
      exact .inl ⟨e, r + 1, hm.round.congr rfl rfl rfl rfl, hany⟩
  | skip hctl hi hrun =>
      simp only [Placed, hctl] at h
      rcases h with ⟨-, e, r, hm, hany⟩
      exact ⟨hi, e, r, (hm.skip hi hrun).congr rfl rfl rfl rfl, hany⟩
  | timeout hctl hi hrun =>
      rw [hget _ hctl] at hrun
      cases hrun
  | store hctl hadd =>
      rcases hshuffler with ⟨⟨k, e, hs⟩, -⟩
      rw [hs] at hadd
      cases hadd

theorem Placed.shuffled {l : Zmq.Label (Option κ)} {w' : ShuffleWorker κ} (h : Placed n S q)
    (hshuffler : q.worker.Unshuffled)
    (hs : ShuffleWorker.Step n (.shuffled l) q.worker w') :
    Placed n S { q with worker := w' } := by
  cases hs with
  | put hctl hadd =>
      simp only [Placed, hctl] at h
      rcases h with ⟨hi, e, r, hm, hany⟩
      exact ⟨hi, e, r, hm.congr rfl rfl rfl rfl, hany⟩
  | added hctl =>
      simp only [Placed, hctl] at h
      rcases h with ⟨hi, e, r, hm, hany⟩
      exact ⟨hi, e, r, hm.congr rfl rfl rfl rfl, hany⟩
  | flush hctl hsample =>
      rcases hshuffler with ⟨⟨k, e, hs⟩, -⟩
      rw [hs] at hsample
      cases hsample
  | flushed hctl =>
      simp only [Placed, hctl] at h
  | endEpoch hctl hbuf =>
      simp only [Placed, hctl] at h
      rcases h with ⟨hn, e, hc⟩
      exact ⟨hn, e, hc.congr rfl rfl rfl⟩
  | ended hctl =>
      simp only [Placed, hctl] at h
      rcases h with ⟨hn, e, hc⟩
      have hc' : Closed n S { q with worker :=
          { q.worker with ctl := .epochTop, workersStillRunning := List.replicate n true } } e :=
        hc.congr rfl rfl rfl
      exact .inl ⟨e, 0, hc'.fresh fun j hj => ShuffleWorker.running_replicate rfl hj,
        0, hn, ShuffleWorker.running_replicate rfl hn⟩

theorem Placed.get {i : ℕ} {m : Option κ} {w' : ShuffleWorker κ} (h : Placed n S q)
    (hlen : q.worker.workersStillRunning.length = n)
    (hs : ShuffleWorker.Step n (.get i m) q.worker w') (hm : (S i)[q.read i]? = some m) :
    Placed n S (q.afterGet i m w') := by
  cases hs with
  | getNone hctl hi hrun =>
      simp only [Placed, hctl] at h
      rcases h with ⟨-, e, r, hmerged, -⟩
      exact Placed.afterMark hmerged hi hlen hrun hm
  | getItem item hctl hi hrun =>
      simp only [Placed, hctl] at h
      rcases h with ⟨-, e, r, hmerged, hany⟩
      exact ⟨hi, e, r, hmerged.getItem hi hrun hm rfl, hany⟩

theorem OrderInv.new (n shuffleBufferSize : ℕ) (S : ℕ → List (Option κ)) :
    OrderInv n S (OrderState.new n shuffleBufferSize) := by
  have hclosed : Closed n S (OrderState.new n shuffleBufferSize) 0 := by
    refine ⟨rfl, rfl, fun j _ => ?_, fun j _ => ?_⟩
    · show marks ((S j).take 0) = 0
      rw [List.take_zero]
      rfl
    · show segment ((S j).take 0) 0 = []
      rw [List.take_zero]
      rfl
  refine ⟨List.length_replicate, ⟨⟨0, 0, rfl⟩, nofun⟩, fun _ _ => le_rfl,
    fun _ _ => Nat.zero_le _, fun _ _ => rfl, ?_⟩
  rcases Nat.eq_zero_or_pos n with hn | hn
  · exact .inr ⟨hn, hclosed⟩
  · have hrun : ∀ j < n, (OrderState.new n shuffleBufferSize : OrderState κ).worker.running j =
        true := fun j hj => ShuffleWorker.running_replicate rfl hj
    exact .inl ⟨0, 0, hclosed.fresh hrun, 0, hn, hrun 0 hn⟩

theorem OrderInv.step {q' : OrderState κ} (h : OrderInv n S q) (hs : OrderStep n S q q') :
    OrderInv n S q' := by
  rcases h with ⟨hlen, hshuffler, hread, harrived, hreads, hplaced⟩
  cases hs with
  | @arrive i hi hlt =>
      refine ⟨hlen, hshuffler, fun j hj => ?_, fun j hj => ?_, hreads,
        hplaced.congr rfl rfl rfl rfl⟩
      · have hle := hread j hj
        by_cases hji : j = i
        · subst hji
          simp only [Function.update_self]
          omega
        · simpa only [Function.update_of_ne hji] using hle
      · by_cases hji : j = i
        · subst hji
          simpa only [Function.update_self] using Nat.succ_le_of_lt hlt
        · simpa only [Function.update_of_ne hji] using harrived j hj
  | @get i m w' hs hlt hm =>
      have hreads' : ∀ j < n, (q.afterGet i m w').reads.filterMap
          (fun p => if p.1 = j then some p.2 else none) = (q.afterGet i m w').consumed S j := by
        intro j hj
        rw [consumed_afterGet w' hm j]
        show (q.reads ++ [(i, m)]).filterMap _ = _
        rw [List.filterMap_append, hreads j hj]
        by_cases hji : j = i
        · subst hji
          simp
        · simp [hji, Ne.symm hji]
      refine ⟨?_, hshuffler.step hs, fun j hj => ?_, harrived, hreads', hplaced.get hlen hs hm⟩
      · cases hs with
        | getNone => exact List.length_set.trans hlen
        | getItem => exact hlen
      · by_cases hji : j = i
        · subst hji
          simpa only [Function.update_self] using Nat.succ_le_of_lt hlt
        · simpa only [Function.update_of_ne hji] using hread j hj
  | @internal w' hs hget =>
      refine ⟨?_, hshuffler.step hs, hread, harrived, hreads,
        hplaced.internal hlen hshuffler hs hget⟩
      cases hs <;> exact hlen
  | @shuffled l w' hs =>
      refine ⟨?_, hshuffler.step hs, hread, harrived, hreads, hplaced.shuffled hshuffler hs⟩
      cases hs with
      | ended => exact List.length_replicate
      | _ => exact hlen

end Steps

/-! ## Two runs -/

section Runs

variable {n : ℕ} {S : ℕ → List (Option κ)} {q q₁ q₂ : OrderState κ}

theorem readsUpTo_isPrefix {e e' : ℕ} (h : e ≤ e') : readsUpTo n S e <+: readsUpTo n S e' := by
  induction h with
  | refl => exact List.prefix_refl _
  | step _ ih =>
      rw [Nat.succ_eq_add_one, readsUpTo_succ]
      exact ih.trans (List.prefix_append _ _)

theorem callsUpTo_isPrefix {e e' : ℕ} (h : e ≤ e') : callsUpTo n S e <+: callsUpTo n S e' := by
  induction h with
  | refl => exact List.prefix_refl _
  | step _ ih =>
      rw [Nat.succ_eq_add_one, callsUpTo_succ]
      exact ih.trans (List.prefix_append _ _)

/-- What has been read and called is `e` whole epochs and a part of the next. -/
structure Within (n : ℕ) (S : ℕ → List (Option κ)) (q : OrderState κ) (e : ℕ) : Prop where
  reads_ge : readsUpTo n S e <+: q.reads
  reads_le : q.reads <+: readsUpTo n S (e + 1)
  calls_ge : callsUpTo n S e <+: q.calls
  calls_le : q.calls <+: callsUpTo n S (e + 1)

theorem Merged.within {e r i : ℕ} (h : Merged n S q e r i) (hi : i ≤ n) : Within n S q e := by
  have hpre : turns n (epochStream S e) r i <+: epochReads n S e := turns_isPrefix hi
  refine ⟨?_, ?_, ?_, ?_⟩
  · rw [h.reads_eq]
    exact List.prefix_append _ _
  · rw [h.reads_eq, readsUpTo_succ]
    exact (List.prefix_append_right_inj _).mpr hpre
  · rw [h.calls_eq]
    exact List.prefix_append _ _
  · rw [h.calls_eq, callsUpTo_succ]
    exact (List.prefix_append_right_inj _).mpr
      ((hpre.filterMap _).trans (List.prefix_append _ _))

theorem Closed.within {e : ℕ} (h : Closed n S q e) : Within n S q e := by
  refine ⟨?_, ?_, ?_, ?_⟩
  · rw [h.reads_eq]
  · rw [h.reads_eq]
    exact readsUpTo_isPrefix (Nat.le_succ e)
  · rw [h.calls_eq]
  · rw [h.calls_eq]
    exact callsUpTo_isPrefix (Nat.le_succ e)

theorem OrderInv.within (h : OrderInv n S q) : ∃ e, Within n S q e := by
  have hplaced := h.placed
  unfold Placed at hplaced
  split at hplaced
  · rcases hplaced with ⟨e, r, hm, -⟩ | ⟨-, hc⟩
    · exact ⟨e, hm.within (Nat.zero_le n)⟩
    · exact ⟨0, hc.within⟩
  · exact ⟨0, hplaced.2.within⟩
  · rcases hplaced with ⟨hi, e, r, hm, -⟩
    exact ⟨e, hm.within hi⟩
  · rcases hplaced with ⟨hi, e, r, hm, -⟩
    exact ⟨e, hm.within hi⟩
  · rcases hplaced with ⟨hi, e, r, hm, -⟩
    exact ⟨e, hm.within hi⟩
  · rcases hplaced with ⟨-, e, hc⟩
    exact ⟨e, hc.within⟩
  · rcases hplaced with ⟨-, e, hc⟩
    exact ⟨e, hc.within⟩
  · exact hplaced.elim

/-- Of two runs one has read what the other has read first. -/
theorem OrderInv.comparable (h₁ : OrderInv n S q₁) (h₂ : OrderInv n S q₂) :
    (q₁.reads <+: q₂.reads ∨ q₂.reads <+: q₁.reads) ∧
      (q₁.calls <+: q₂.calls ∨ q₂.calls <+: q₁.calls) := by
  rcases h₁.within with ⟨e₁, hw₁⟩
  rcases h₂.within with ⟨e₂, hw₂⟩
  have hle₁ : e₁ + 1 ≤ max (e₁ + 1) (e₂ + 1) := Nat.le_max_left _ _
  have hle₂ : e₂ + 1 ≤ max (e₁ + 1) (e₂ + 1) := Nat.le_max_right _ _
  constructor
  · exact List.prefix_or_prefix_of_prefix (hw₁.reads_le.trans (readsUpTo_isPrefix hle₁))
      (hw₂.reads_le.trans (readsUpTo_isPrefix hle₂))
  · exact List.prefix_or_prefix_of_prefix (hw₁.calls_le.trans (callsUpTo_isPrefix hle₁))
      (hw₂.calls_le.trans (callsUpTo_isPrefix hle₂))

/-- The run has come to its end: no message is left and no step. -/
def Stuck (n : ℕ) (S : ℕ → List (Option κ)) (q : OrderState κ) : Prop :=
  ∀ q', ¬ OrderStep n S q q'

/-- The worker waits for a message of queue `i` that does not exist. -/
structure Waiting (n : ℕ) (S : ℕ → List (Option κ)) (q : OrderState κ) (e r i : ℕ) : Prop where
  lt : i < n
  merged : Merged n S q e r i
  running : q.worker.running i = true
  consumed : q.consumed S i = S i

theorem OrderInv.get_step {i : ℕ} (h : OrderInv n S q) (hctl : q.worker.ctl = .scan i) (hi : i < n)
    (hrun : q.worker.running i = true) (hlt : q.read i < q.arrived i) :
    ∃ q', OrderStep n S q q' := by
  obtain ⟨m, hm⟩ : ∃ m, (S i)[q.read i]? = some m :=
    ⟨_, List.getElem?_eq_getElem (hlt.trans_le (h.arrived_le i hi))⟩
  cases m with
  | none => exact ⟨_, .get (.getNone hctl hi hrun) hlt hm⟩
  | some x => exact ⟨_, .get (.getItem x hctl hi hrun) hlt hm⟩

theorem OrderInv.stuck (h : OrderInv n S q) (hstuck : Stuck n S q) :
    n = 0 ∧ Closed n S q 0 ∨ ∃ e r i, Waiting n S q e r i := by
  have hplaced := h.placed
  rcases h.unshuffled with ⟨⟨k, e, hshuffler⟩, -⟩
  unfold Placed at hplaced
  split at hplaced
  · rename_i hctl
    refine absurd (OrderStep.internal (.assertRunning hctl) fun i hi => ?_) (hstuck _)
    rw [hctl] at hi
    cases hi
  · exact .inl hplaced
  · rename_i i hctl
    rcases hplaced with ⟨hin, e, r, hm, -⟩
    by_cases hrun : q.worker.running i = true
    · have hi : i < n := by
        by_contra hge
        rw [ShuffleWorker.running, List.getD_eq_getElem?_getD,
          List.getElem?_eq_none (by rw [h.length]; exact not_lt.mp hge)] at hrun
        cases hrun
      have hread := h.read_le i hi
      have harrived := h.arrived_le i hi
      -- nothing is there to be read and nothing is left to arrive
      have hnoread : ¬ q.read i < q.arrived i := by
        intro hlt
        obtain ⟨q', hq'⟩ := h.get_step hctl hi hrun hlt
        exact hstuck q' hq'
      have hnoarrive : ¬ q.arrived i < (S i).length := fun hlt => hstuck _ (.arrive hi hlt)
      refine .inr ⟨e, r, i, hi, hm, hrun, List.take_of_length_le (by omega)⟩
    · have hrun : q.worker.running i = false := (Bool.not_eq_true _).mp hrun
      have hnotimeout : ∀ j, q.worker.ctl = .scan j → q.worker.running j = false := by
        intro j hj
        obtain rfl : i = j := ShuffleCtl.scan.inj (hctl.symm.trans hj)
        exact hrun
      rcases Nat.lt_or_ge i n with hi | hi
      · exact absurd (OrderStep.internal (.skip hctl hi hrun) hnotimeout) (hstuck _)
      · exact absurd (OrderStep.internal (.endScan hctl hi) hnotimeout) (hstuck _)
  · rename_i i x hctl
    have hadd : q.worker.shuffler.addItem x 0 =
        some (.put x (.noShuffle (k + 1) e) (.noShuffle (k + 1) e)) := by rw [hshuffler]; rfl
    exact absurd (OrderStep.shuffled (.put hctl hadd)) (hstuck _)
  · rename_i i after hctl
    have hadded : ShuffleWorker.Step n (.shuffled (.ret (.ok (.put true)))) q.worker _ :=
      .added hctl
    exact absurd (OrderStep.shuffled hadded) (hstuck _)
  · rename_i hctl
    have hbuf : q.worker.shuffler.buffered = [] := by rw [hshuffler]; rfl
    exact absurd (OrderStep.shuffled (.endEpoch hctl hbuf)) (hstuck _)
  · rename_i hctl
    exact absurd (OrderStep.shuffled (.ended hctl)) (hstuck _)
  · exact hplaced.elim

/-- Where one run waits for ever no other run reads on. -/
theorem Waiting.reads_maximal {e r i : ℕ} (hw : Waiting n S q₁ e r i) (h₁ : OrderInv n S q₁)
    (h₂ : OrderInv n S q₂) (hpre : q₁.reads <+: q₂.reads) : q₂.reads = q₁.reads := by
  rcases hpre with ⟨rest, hrest⟩
  cases rest with
  | nil => rw [← hrest, List.append_nil]
  | cons p rest =>
      exfalso
      -- the merge goes on with the marker that queue `i` does not have
      have hnext : q₁.reads ++ [(i, none)] <+: readsUpTo n S (e + 1) := by
        have hlen := (hw.merged.running i hw.lt hw.running).2
        rw [if_neg (Nat.lt_irrefl i), Nat.add_zero, hw.consumed] at hlen
        have hturn : (epochStream S e i)[r]? = some none := by
          rw [epochStream, ← hlen]
          simp
        rw [hw.merged.reads_eq, List.append_assoc, ← turns_some hturn, readsUpTo_succ]
        exact (List.prefix_append_right_inj _).mpr (turns_isPrefix hw.lt)
      rcases h₂.within with ⟨e₂, hw₂⟩
      have hother : q₁.reads ++ [p] <+: readsUpTo n S (e₂ + 1) := by
        refine List.IsPrefix.trans ?_ hw₂.reads_le
        rw [← hrest]
        exact (List.prefix_append_right_inj _).mpr ⟨rest, rfl⟩
      have heq : q₁.reads ++ [p] = q₁.reads ++ [(i, none)] := by
        have hle : e + 1 ≤ max (e + 1) (e₂ + 1) := Nat.le_max_left _ _
        have hle₂ : e₂ + 1 ≤ max (e + 1) (e₂ + 1) := Nat.le_max_right _ _
        refine (List.prefix_of_prefix_length_le (hother.trans (readsUpTo_isPrefix hle₂))
          (hnext.trans (readsUpTo_isPrefix hle)) ?_).eq_of_length ?_
        · simp
        · simp
      obtain rfl : p = (i, none) := List.singleton_inj.mp (List.append_cancel_left heq)
      -- so queue `i` would have one message more than its stream
      have hof := h₂.reads_of i hw.lt
      rw [← hrest, List.filterMap_append, h₁.reads_of i hw.lt, hw.consumed] at hof
      have hlen := congrArg List.length hof
      have hle := (consumed_isPrefix S q₂ i).length_le
      rw [← hlen, List.length_append, List.filterMap_cons_some (b := none) (by simp),
        List.length_cons] at hle
      omega

/-- The epoch in which two runs wait is the same. -/
theorem Waiting.epoch_le {e₁ r₁ i₁ e₂ r₂ i₂ : ℕ} (hw₁ : Waiting n S q₁ e₁ r₁ i₁)
    (hw₂ : Waiting n S q₂ e₂ r₂ i₂) (hcons : ∀ i < n, q₁.consumed S i = q₂.consumed S i) :
    e₁ ≤ e₂ := by
  have h₂ := (hw₂.merged.running i₂ hw₂.lt hw₂.running).1
  rw [← hcons i₂ hw₂.lt] at h₂
  cases hrun : q₁.worker.running i₂ with
  | true => exact ((hw₁.merged.running i₂ hw₂.lt hrun).1.symm.trans h₂).le
  | false =>
      have h₁ := (hw₁.merged.finished i₂ hw₂.lt hrun).1
      omega

theorem OrderInv.stuck_eq (h₁ : OrderInv n S q₁) (h₂ : OrderInv n S q₂) (hs₁ : Stuck n S q₁)
    (hs₂ : Stuck n S q₂) : q₁.reads = q₂.reads ∧ q₁.calls = q₂.calls := by
  rcases h₁.stuck hs₁ with ⟨hn, hc₁⟩ | ⟨e₁, r₁, i₁, hw₁⟩
  · rcases h₂.stuck hs₂ with ⟨-, hc₂⟩ | ⟨e₂, r₂, i₂, hw₂⟩
    · exact ⟨hc₁.reads_eq.trans hc₂.reads_eq.symm, hc₁.calls_eq.trans hc₂.calls_eq.symm⟩
    · exact absurd hw₂.lt (by omega)
  · rcases h₂.stuck hs₂ with ⟨hn, -⟩ | ⟨e₂, r₂, i₂, hw₂⟩
    · exact absurd hw₁.lt (by omega)
    · have hreads : q₁.reads = q₂.reads := by
        rcases (h₁.comparable h₂).1 with hpre | hpre
        · exact (hw₁.reads_maximal h₁ h₂ hpre).symm
        · exact hw₂.reads_maximal h₂ h₁ hpre
      have hcons : ∀ i < n, q₁.consumed S i = q₂.consumed S i := by
        intro i hi
        rw [← h₁.reads_of i hi, ← h₂.reads_of i hi, hreads]
      obtain rfl : e₁ = e₂ := le_antisymm (hw₁.epoch_le hw₂ hcons)
        (hw₂.epoch_le hw₁ fun i hi => (hcons i hi).symm)
      have hturns : turns n (epochStream S e₁) r₁ i₁ = turns n (epochStream S e₁) r₂ i₂ := by
        apply (List.append_right_inj (readsUpTo n S e₁)).mp
        rw [← hw₁.merged.reads_eq, ← hw₂.merged.reads_eq, hreads]
      refine ⟨hreads, ?_⟩
      rw [hw₁.merged.calls_eq, hw₂.merged.calls_eq, hturns]

/-- Streams of `E` whole epochs are read to their end. -/
theorem Waiting.complete {e r i E : ℕ} (hw : Waiting n S q e r i)
    (hE : ∀ j < n, marks (S j) = E ∧ segment (S j) E = []) : q.calls = callsUpTo n S E := by
  obtain ⟨hmarks, hlen⟩ := hw.merged.running i hw.lt hw.running
  rw [hw.consumed] at hmarks hlen
  obtain rfl : e = E := hmarks.symm.trans (hE i hw.lt).1
  rw [(hE i hw.lt).2, if_neg (Nat.lt_irrefl i), Nat.add_zero, List.length_nil] at hlen
  subst hlen
  -- a queue in front of `i` would have been read in this epoch
  have hi : i = 0 := by
    by_contra hne
    have hpos : 0 < i := Nat.pos_of_ne_zero hne
    have hzero : 0 < n := hpos.trans hw.lt
    have hpre := consumed_isPrefix S q 0
    cases hrun : q.worker.running 0 with
    | true =>
        obtain ⟨-, hone⟩ := hw.merged.running 0 hzero hrun
        have hle := (segment_mono hpre e).length_le
        rw [hone, if_pos hpos, (hE 0 hzero).2] at hle
        simp at hle
    | false =>
        obtain ⟨hone, -⟩ := hw.merged.finished 0 hzero hrun
        have hle := marks_mono hpre
        rw [hone, (hE 0 hzero).1] at hle
        omega
  subst hi
  rw [hw.merged.calls_eq, turns_zero, List.filterMap_nil, List.append_nil]

end Runs

/-! ## Every run ends -/

section Termination

variable {n : ℕ} {S : ℕ → List (Option κ)} {q q' : OrderState κ}

/-- How far it is to the next `get`. -/
def stage (n : ℕ) (w : ShuffleWorker κ) : ℕ :=
  match w.ctl with
  | .epochTop => n + 1
  | .assertFailed | .flushing => 0
  | .scan i => if ∃ j < n, i ≤ j ∧ w.running j = true then n - i else 2 * n + 2 - i
  | .addItem _ _ | .finishing => 2 * n + 5
  | .adding _ _ | .ending => 2 * n + 4

/-- The messages that have not arrived and those that have not been read. -/
def remaining (n : ℕ) (S : ℕ → List (Option κ)) (q : OrderState κ) : ℕ :=
  ∑ i ∈ Finset.range n, (((S i).length - q.arrived i) + ((S i).length - q.read i))

def distance (n : ℕ) (S : ℕ → List (Option κ)) (q : OrderState κ) : ℕ :=
  remaining n S q * (2 * n + 6) + stage n q.worker

theorem stage_le (n : ℕ) (w : ShuffleWorker κ) : stage n w ≤ 2 * n + 5 := by
  unfold stage
  split <;> first | omega | (split <;> omega)

theorem distance_lt_of_remaining (h : remaining n S q' < remaining n S q) :
    distance n S q' < distance n S q := by
  have hstage := stage_le n q'.worker
  have hmul : (remaining n S q' + 1) * (2 * n + 6) ≤ remaining n S q * (2 * n + 6) :=
    Nat.mul_le_mul_right _ h
  rw [Nat.add_mul, Nat.one_mul] at hmul
  unfold distance
  omega

theorem remaining_lt {i : ℕ} (hi : i < n)
    (hsame : ∀ j, j ≠ i → q'.arrived j = q.arrived j ∧ q'.read j = q.read j)
    (hlt : ((S i).length - q'.arrived i) + ((S i).length - q'.read i) <
      ((S i).length - q.arrived i) + ((S i).length - q.read i)) :
    remaining n S q' < remaining n S q := by
  refine Finset.sum_lt_sum (fun j _ => ?_) ⟨i, Finset.mem_range.mpr hi, hlt⟩
  by_cases hji : j = i
  · subst hji
    exact hlt.le
  · rw [(hsame j hji).1, (hsame j hji).2]

theorem stage_scan {w : ShuffleWorker κ} {i : ℕ} (h : w.ctl = .scan i) : stage n w =
    if ∃ j < n, i ≤ j ∧ w.running j = true then n - i else 2 * n + 2 - i := by
  simp only [stage, h]

/-- The scan comes to a running queue, in this round or in the next one. -/
theorem stage_internal {w' : ShuffleWorker κ} (h : OrderInv n S q)
    (hs : ShuffleWorker.Step n .internal q.worker w')
    (hget : ∀ i, q.worker.ctl = .scan i → q.worker.running i = false) :
    stage n w' < stage n q.worker := by
  have hplaced := h.placed
  cases hs with
  | assertRunning hctl =>
      have hstage : stage n q.worker = n + 1 := by simp only [stage, hctl]
      rw [hstage]
      by_cases hany : q.worker.workersStillRunning.any id = true
      · obtain ⟨j, hj, hrun⟩ := (ShuffleWorker.any_running h.length).mp hany
        simp only [hany, if_true]
        rw [stage_scan rfl, if_pos ⟨j, hj, Nat.zero_le j, hrun⟩]
        exact Nat.lt_succ_of_le (Nat.sub_le n 0)
      · simp only [(Bool.not_eq_true _).mp hany, Bool.false_eq_true, if_false]
        exact Nat.succ_pos n
  | endScan hctl hi =>
      rename_i i
      simp only [Placed, hctl] at hplaced
      have hnone : ¬ ∃ j < n, i ≤ j ∧ q.worker.running j = true := by
        rintro ⟨j, hj, hij, -⟩
        omega
      rw [stage_scan hctl, if_neg hnone]
      show n + 1 < _
      omega
  | skip hctl hi hrun =>
      rename_i i
      have hnext : (∃ j < n, i + 1 ≤ j ∧ q.worker.running j = true) ↔
          ∃ j < n, i ≤ j ∧ q.worker.running j = true := by
        constructor
        · rintro ⟨j, hj, hij, hjrun⟩
          exact ⟨j, hj, Nat.le_of_succ_le hij, hjrun⟩
        · rintro ⟨j, hj, hij, hjrun⟩
          refine ⟨j, hj, Nat.succ_le_of_lt (lt_of_le_of_ne hij ?_), hjrun⟩
          rintro rfl
          rw [hrun] at hjrun
          cases hjrun
      have hsame : ShuffleWorker.running { q.worker with ctl := .scan (i + 1) } =
          q.worker.running := rfl
      rw [stage_scan hctl, stage_scan (w := { q.worker with ctl := .scan (i + 1) }) rfl, hsame,
        if_congr hnext rfl rfl]
      split <;> omega
  | timeout hctl hi hrun =>
      rw [hget _ hctl] at hrun
      cases hrun
  | store hctl hadd =>
      rcases h.unshuffled with ⟨⟨k, e, hshuffler⟩, -⟩
      rw [hshuffler] at hadd
      cases hadd

theorem stage_shuffled {l : Zmq.Label (Option κ)} {w' : ShuffleWorker κ} (h : OrderInv n S q)
    (hs : ShuffleWorker.Step n (.shuffled l) q.worker w') : stage n w' < stage n q.worker := by
  have hplaced := h.placed
  cases hs with
  | put hctl hadd =>
      simp only [stage, hctl]
      omega
  | added hctl =>
      simp only [stage, hctl]
      split <;> omega
  | flush hctl hsample =>
      rcases h.unshuffled with ⟨⟨k, e, hshuffler⟩, -⟩
      rw [hshuffler] at hsample
      cases hsample
  | flushed hctl => simp only [Placed, hctl] at hplaced
  | endEpoch hctl hbuf =>
      simp only [stage, hctl]
      omega
  | ended hctl =>
      simp only [stage, hctl]
      omega

theorem OrderInv.distance_lt (h : OrderInv n S q) (hs : OrderStep n S q q') :
    distance n S q' < distance n S q := by
  cases hs with
  | @arrive i hi hlt =>
      refine distance_lt_of_remaining (remaining_lt hi (fun j hji => ⟨?_, rfl⟩) ?_)
      · exact Function.update_of_ne hji _ _
      · simp only [Function.update_self]
        omega
  | @get i m w' hs hlt hm =>
      have hi : i < n := by cases hs <;> assumption
      have hle := h.arrived_le i hi
      refine distance_lt_of_remaining (remaining_lt hi (fun j hji => ⟨rfl, ?_⟩) ?_)
      · exact Function.update_of_ne hji _ _
      · simp only [Function.update_self]
        omega
  | @internal w' hs hget =>
      exact Nat.add_lt_add_left (stage_internal h hs hget) _
  | @shuffled l w' hs =>
      exact Nat.add_lt_add_left (stage_shuffled h hs) _

/-- Every run comes to an end within `distance` steps. -/
theorem OrderInv.exists_stuck (h : OrderInv n S q) :
    ∃ q', Relation.ReflTransGen (OrderStep n S) q q' ∧ Stuck n S q' := by
  induction hd : distance n S q using Nat.strong_induction_on generalizing q with
  | _ d ih =>
      by_cases hstuck : Stuck n S q
      · exact ⟨q, .refl, hstuck⟩
      · obtain ⟨q₁, hs⟩ : ∃ q', OrderStep n S q q' := by
          simpa [Stuck] using hstuck
        obtain ⟨q', hrun, hend⟩ := ih _ (hd ▸ h.distance_lt hs) (h.step hs) rfl
        exact ⟨q', .head hs hrun, hend⟩

end Termination

/-- The states of the runs without shuffling and without timeouts. -/
abbrev OrderReach (n shuffleBufferSize : ℕ) (S : ℕ → List (Option κ)) : OrderState κ → Prop :=
  Reach (· = OrderState.new n shuffleBufferSize) (OrderStep n S)

theorem orderInv_of_reach {n size : ℕ} {S : ℕ → List (Option κ)} {q : OrderState κ}
    (h : OrderReach n size S q) : OrderInv n S q :=
  h.invariant (fun _ h0 => h0 ▸ OrderInv.new n size S) fun _ _ hi hs => hi.step hs

theorem epochReads_head? {n : ℕ} (hn : 0 < n) (S : ℕ → List (Option κ)) (e : ℕ) :
    (epochReads n S e).head? = some (0, (segment (S 0) e).head?) := by
  have hfirst : ∃ xs, epochStream S e 0 = (segment (S 0) e).head? :: xs := by
    unfold epochStream
    cases segment (S 0) e with
    | nil => exact ⟨[], rfl⟩
    | cons x xs => exact ⟨xs.map some ++ [none], rfl⟩
  rcases hfirst with ⟨xs, hxs⟩
  exact head?_roundRobin hn hxs

/-- **Order reproducibility.** Whenever the messages arrive, the calls are
those of the round-robin merges, epoch after epoch, each of which begins with
queue 0. Of two runs one has made the calls that the other makes first; every
run ends, and where both have ended their calls are the same, and those of all
epochs if the streams consist of whole epochs. -/
theorem shuffleOrder_reproducible (n : ℕ) (S : ℕ → List (Option κ)) :
    (∀ size q, OrderReach n size S q → ∃ e, Within n S q e) ∧
    (∀ e, 0 < n → (epochReads n S e).head? = some (0, (segment (S 0) e).head?)) ∧
    (∀ size₁ size₂ q₁ q₂, OrderReach n size₁ S q₁ → OrderReach n size₂ S q₂ →
      (q₁.calls <+: q₂.calls ∨ q₂.calls <+: q₁.calls) ∧
      (Stuck n S q₁ → Stuck n S q₂ → q₁.reads = q₂.reads ∧ q₁.calls = q₂.calls)) ∧
    (∀ size q, OrderReach n size S q →
      ∃ q', Relation.ReflTransGen (OrderStep n S) q q' ∧ Stuck n S q') ∧
    ∀ size q E, OrderReach n size S q → 0 < n →
      (∀ i < n, marks (S i) = E ∧ segment (S i) E = []) → Stuck n S q →
      q.calls = callsUpTo n S E := by
  refine ⟨?_, ?_, ?_, ?_, ?_⟩
  · intro size q hq
    exact (orderInv_of_reach hq).within
  · intro e hn
    exact epochReads_head? hn S e
  · intro size₁ size₂ q₁ q₂ hq₁ hq₂
    have h₁ := orderInv_of_reach hq₁
    have h₂ := orderInv_of_reach hq₂
    exact ⟨(h₁.comparable h₂).2, h₁.stuck_eq h₂⟩
  · intro size q hq
    exact (orderInv_of_reach hq).exists_stuck
  · intro size q E hq hn hE hstuck
    rcases (orderInv_of_reach hq).stuck hstuck with ⟨hzero, -⟩ | ⟨e, r, i, hw⟩
    · omega
    · exact hw.complete hE

end P2PRdt.Data

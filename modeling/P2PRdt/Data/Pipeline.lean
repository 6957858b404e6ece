import P2PRdt.Lib.Reach
import P2PRdt.Data.ProtoStage
import P2PRdt.Data.ShuffleStage
import Mathlib.Logic.Relation

/-!
# The streaming pipeline

The proto process, the preprocess workers, the shuffle worker and the dataset
workers, joined by their queues: one proto queue and one chunk queue for each
preprocess worker, each with one client, and one shuffle queue for all dataset
workers. The composition is asynchronous. A step is an internal step of one
queue or of one process, or an operation of a process on a queue, which both
take together. A dataset worker does nothing but receive.

The runs are those in which no server has returned an error or died. The
assert of the shuffle worker is not assumed: its failure is a state.
-/

namespace P2PRdt.Data

open Lib Zmq

variable {π κ : Type*}

/-! ## The system -/

structure PipelineConfig (π : Type*) where
  protos : List π
  shuffle : Bool
  shuffleBufferSize : ℕ
  preprocessedChunksQueueSize : ℕ
  shuffledChunksQueueSize : ℕ
  nPreprocessWorkers : ℕ
  nDatasetWorkers : ℕ

structure Pipeline (π κ : Type*) where
  protoProcess : ProtoProcess π
  protoQueue : ℕ → Queue (Option π)
  worker : ℕ → PreprocessWorker π
  chunkQueue : ℕ → Queue (Option κ)
  shuffleWorker : ShuffleWorker κ
  shuffleQueue : Queue (Option κ)

namespace Pipeline

def new (cfg : PipelineConfig π) : Pipeline π κ where
  protoProcess := .new cfg.protos
  protoQueue := fun _ => .new 16 1
  worker := fun _ => .new
  chunkQueue := fun _ => .new cfg.preprocessedChunksQueueSize 1
  shuffleWorker := .new cfg.nPreprocessWorkers cfg.shuffle cfg.shuffleBufferSize
  shuffleQueue := .new cfg.shuffledChunksQueueSize cfg.nDatasetWorkers

def setProtoQueue (s : Pipeline π κ) (i : ℕ) (q : Queue (Option π)) : Pipeline π κ :=
  { s with protoQueue := Function.update s.protoQueue i q }

def setChunkQueue (s : Pipeline π κ) (i : ℕ) (q : Queue (Option κ)) : Pipeline π κ :=
  { s with chunkQueue := Function.update s.chunkQueue i q }

def setWorker (s : Pipeline π κ) (i : ℕ) (w : PreprocessWorker π) : Pipeline π κ :=
  { s with worker := Function.update s.worker i w }

inductive Step (cfg : PipelineConfig π) : Pipeline π κ → Pipeline π κ → Prop
  | protoQueue {s : Pipeline π κ} {i : ℕ} {q : Queue (Option π)} :
      i < cfg.nPreprocessWorkers → Zmq.Step .tau (s.protoQueue i) q →
      Step cfg s (s.setProtoQueue i q)
  | chunkQueue {s : Pipeline π κ} {i : ℕ} {q : Queue (Option κ)} :
      i < cfg.nPreprocessWorkers → Zmq.Step .tau (s.chunkQueue i) q →
      Step cfg s (s.setChunkQueue i q)
  | shuffleQueue {s : Pipeline π κ} {q : Queue (Option κ)} :
      Zmq.Step .tau s.shuffleQueue q → Step cfg s { s with shuffleQueue := q }
  | protoProcess {s : Pipeline π κ} {p : ProtoProcess π} :
      ProtoProcess.Step cfg.nPreprocessWorkers cfg.shuffle none s.protoProcess p →
      Step cfg s { s with protoProcess := p }
  | protoPut {s : Pipeline π κ} {p : ProtoProcess π} {i : ℕ} {l : Label (Option π)}
      {q : Queue (Option π)} :
      ProtoProcess.Step cfg.nPreprocessWorkers cfg.shuffle (some (i, l)) s.protoProcess p →
      Zmq.Step l (s.protoQueue i) q →
      Step cfg s { s.setProtoQueue i q with protoProcess := p }
  | worker {s : Pipeline π κ} {i : ℕ} {w : PreprocessWorker π} :
      i < cfg.nPreprocessWorkers →
      PreprocessWorker.Step (.internal : WorkerLabel π κ) (s.worker i) w →
      Step cfg s (s.setWorker i w)
  | workerGet {s : Pipeline π κ} {i : ℕ} {w : PreprocessWorker π} {x : Option π}
      {q : Queue (Option π)} :
      i < cfg.nPreprocessWorkers →
      PreprocessWorker.Step (.proto x : WorkerLabel π κ) (s.worker i) w →
      Zmq.Step (.recv 0 x) (s.protoQueue i) q →
      Step cfg s ((s.setProtoQueue i q).setWorker i w)
  | workerPut {s : Pipeline π κ} {i : ℕ} {w : PreprocessWorker π} {l : Label (Option κ)}
      {q : Queue (Option κ)} :
      i < cfg.nPreprocessWorkers →
      PreprocessWorker.Step (.chunk l) (s.worker i) w → Zmq.Step l (s.chunkQueue i) q →
      Step cfg s ((s.setChunkQueue i q).setWorker i w)
  | shuffleWorker {s : Pipeline π κ} {w : ShuffleWorker κ} :
      ShuffleWorker.Step cfg.nPreprocessWorkers .internal s.shuffleWorker w →
      Step cfg s { s with shuffleWorker := w }
  | shuffleGet {s : Pipeline π κ} {w : ShuffleWorker κ} {i : ℕ} {x : Option κ}
      {q : Queue (Option κ)} :
      ShuffleWorker.Step cfg.nPreprocessWorkers (.get i x) s.shuffleWorker w →
      Zmq.Step (.recv 0 x) (s.chunkQueue i) q →
      Step cfg s { s.setChunkQueue i q with shuffleWorker := w }
  | shufflePut {s : Pipeline π κ} {w : ShuffleWorker κ} {l : Label (Option κ)}
      {q : Queue (Option κ)} :
      ShuffleWorker.Step cfg.nPreprocessWorkers (.shuffled l) s.shuffleWorker w →
      Zmq.Step l s.shuffleQueue q →
      Step cfg s { s with shuffleWorker := w, shuffleQueue := q }
  | datasetGet {s : Pipeline π κ} {j : ℕ} {x : Option κ} {q : Queue (Option κ)} :
      j < cfg.nDatasetWorkers → Zmq.Step (.recv j x) s.shuffleQueue q →
      Step cfg s { s with shuffleQueue := q }

/-- No server of the pipeline has died or returned an error. -/
def NoError (cfg : PipelineConfig π) (s : Pipeline π κ) : Prop :=
  (∀ i < cfg.nPreprocessWorkers,
    ¬ (s.protoQueue i).abs.phase.Failed ∧ ¬ (s.chunkQueue i).abs.phase.Failed) ∧
  ¬ s.shuffleQueue.abs.phase.Failed

def Reachable (cfg : PipelineConfig π) : Pipeline π κ → Prop :=
  Reach (· = new cfg) fun s t => Step cfg s t ∧ t.NoError cfg

/-! ## The streams between the stages -/

/-- The stream to preprocess worker `i`, and what the worker has taken of it. -/
def handed (s : Pipeline π κ) (i : ℕ) : List (Option π) := (s.protoQueue i).abs.sent 0

def taken (s : Pipeline π κ) (i : ℕ) : List (Option π) := (s.protoQueue i).abs.got 0

/-- The stream of preprocess worker `i`, and what the shuffle worker has read
of it. -/
def enqueued (s : Pipeline π κ) (i : ℕ) : List (Option κ) := (s.chunkQueue i).abs.sent 0

def read (s : Pipeline π κ) (i : ℕ) : List (Option κ) := (s.chunkQueue i).abs.got 0

/-- The stream to dataset worker `j`, and what the worker has received of it. -/
def written (s : Pipeline π κ) (j : ℕ) : List (Option κ) := s.shuffleQueue.abs.sent j

def received (s : Pipeline π κ) (j : ℕ) : List (Option κ) := s.shuffleQueue.abs.got j

/-! ## The invariant of the composition -/

structure Inv (cfg : PipelineConfig π) (s : Pipeline π κ) : Prop where
  protoCredit : ∀ i, Credit 16 1 (s.protoQueue i)
  chunkCredit : ∀ i, Credit cfg.preprocessedChunksQueueSize 1 (s.chunkQueue i)
  shuffleCredit : Credit cfg.shuffledChunksQueueSize cfg.nDatasetWorkers s.shuffleQueue
  proto : ProtoInv cfg.nPreprocessWorkers cfg.protos s.protoProcess
    (fun i => (s.protoQueue i).abs)
  shuffle : ShuffleInv cfg.nPreprocessWorkers cfg.nDatasetWorkers s.shuffleWorker s.read
    s.shuffleQueue.abs

section Preservation

variable {cfg : PipelineConfig π} {s t : Pipeline π κ}

theorem abs_update {α : Type*} (Q : ℕ → Queue α) (i : ℕ) (q : Queue α) :
    (fun j => (Function.update Q i q j).abs) =
      Function.update (fun j => (Q j).abs) i q.abs := by
  funext j
  by_cases hji : j = i
  · subst hji
    simp
  · simp [hji]

theorem credit_update {α : Type*} {max n : ℕ} {Q : ℕ → Queue α} {i : ℕ} {q : Queue α}
    (h : ∀ j, Credit max n (Q j)) (hq : Credit max n q) (j : ℕ) :
    Credit max n (Function.update Q i q j) := by
  by_cases hji : j = i
  · subst hji
    rwa [Function.update_self]
  · rw [Function.update_of_ne hji]
    exact h j

/-- An internal step of a queue is one of its `Fifo`, or does not show. -/
theorem tau_inv {α : Type*} {max n : ℕ} {q q' : Queue α} (h : Credit max n q)
    (hs : Zmq.Step .tau q q') (hf : ¬ q'.abs.phase.Failed) :
    q.abs.After n q'.abs ∨ q'.abs = q.abs := by
  rcases h.refines hs with hstep | ⟨-, he⟩
  · exact .inl (hstep.after hf)
  · exact .inr he

theorem op_inv {α : Type*} {max n : ℕ} {q q' : Queue α} (h : Credit max n q) {l : Label α}
    (hs : Zmq.Step l q q') (hl : l ≠ .tau) : Fifo.Step n l q.abs q'.abs := by
  rcases h.refines hs with hf | ⟨htau, -⟩
  · exact hf
  · exact absurd htau hl

/-- A queue step that is not a receive leaves the read side alone. -/
theorem got_eq {α : Type*} {max n : ℕ} {q q' : Queue α} (h : Credit max n q) {l : Label α}
    (hs : Zmq.Step l q q') (hl : ∀ i x, l ≠ .recv i x) : q'.abs.got = q.abs.got := by
  rcases h.refines hs with hf | ⟨-, he⟩
  · exact hf.got_eq hl
  · rw [he]

theorem read_update (Q : ℕ → Queue (Option κ)) (i : ℕ) (q : Queue (Option κ)) :
    (fun j => (Function.update Q i q j).abs.got 0) =
      Function.update (fun j => (Q j).abs.got 0) i (q.abs.got 0) := by
  funext j
  by_cases hji : j = i
  · subst hji
    simp
  · simp [hji]

/-- The chunk queue of a worker steps, and the shuffle worker does not see it. -/
theorem read_eq {i : ℕ} {q : Queue (Option κ)}
    (hgot : q.abs.got = (s.chunkQueue i).abs.got) : (s.setChunkQueue i q).read = s.read := by
  show (fun j => (Function.update s.chunkQueue i q j).abs.got 0) = s.read
  rw [read_update, hgot]
  exact Function.update_eq_self i s.read

theorem inv_new (hn : 0 < cfg.nPreprocessWorkers) (hm : 0 < cfg.nDatasetWorkers) :
    Inv cfg (new cfg : Pipeline π κ) where
  protoCredit := fun _ => credit_new 16 Nat.one_pos
  chunkCredit := fun _ => credit_new _ Nat.one_pos
  shuffleCredit := credit_new _ hm
  proto := by
    refine ⟨.refl _, hn, ?_, fun _ _ _ => trivial, trivial, fun _ _ => rfl, ?_⟩
    · intro i hi
      cases hi
    · intro e
      rw [total_eq_zero fun _ _ => rfl, zero_add]
      show (if e = 0 then (cfg.protos : Multiset π) else 0) = if e ≤ 0 then _ else 0
      exact if_congr Nat.le_zero.symm rfl rfl
  shuffle := by
    have hep : (new cfg : Pipeline π κ).shuffleWorker.current = 0 := Shuffler.epoch_new _ _
    have hfresh : ∀ i < cfg.nPreprocessWorkers,
        (new cfg : Pipeline π κ).shuffleWorker.running i = true :=
      fun i hi => ShuffleWorker.running_replicate rfl hi
    -- with at least one dataset worker the queue waits for it
    have hphase : (new cfg : Pipeline π κ).shuffleQueue.abs.phase = .starting := by
      show CallPhase.ofCtl (Queue.afterReady _ []) = _
      rw [Queue.afterReady, List.length_nil, if_pos hm]
      rfl
    refine ⟨List.length_replicate, ?_, ⟨0, hn, hfresh 0 hn⟩, fun i hi => ?_,
      fun _ _ _ _ => rfl, fun e => ?_, fun j hj => ?_, ?_⟩
    · show (new cfg : Pipeline π κ).shuffleQueue.abs.phase.Quiet
      rw [hphase]
      trivial
    · rw [hep, hfresh i hi]
      rfl
    · rw [hphase, total_eq_zero fun _ _ => rfl, total_eq_zero fun _ _ => rfl, zero_add]
      have hheld : (new cfg : Pipeline π κ).shuffleWorker.held = 0 := by
        show ((Shuffler.new cfg.shuffle cfg.shuffleBufferSize : Shuffler κ).buffered :
          Multiset κ) = 0
        rw [Shuffler.buffered_new]
        rfl
      rw [hheld]
      exact ite_self 0
    · rw [hep, hphase]
      rfl
    · intro hending
      cases hending

theorem inv_protoQueue (h : Inv cfg s) {i : ℕ} {q : Queue (Option π)} {p : ProtoProcess π}
    (hq : Credit 16 1 q)
    (hp : ProtoInv cfg.nPreprocessWorkers cfg.protos p
      (Function.update (fun j => (s.protoQueue j).abs) i q.abs)) :
    Inv cfg { s.setProtoQueue i q with protoProcess := p } where
  protoCredit := credit_update h.protoCredit hq
  chunkCredit := h.chunkCredit
  shuffleCredit := h.shuffleCredit
  proto := by
    rw [← abs_update] at hp
    exact hp
  shuffle := h.shuffle

theorem inv_chunkQueue (h : Inv cfg s) {i : ℕ} {q : Queue (Option κ)} {w : ShuffleWorker κ}
    (hq : Credit cfg.preprocessedChunksQueueSize 1 q)
    (hw : ShuffleInv cfg.nPreprocessWorkers cfg.nDatasetWorkers w (s.setChunkQueue i q).read
      s.shuffleQueue.abs) :
    Inv cfg { s.setChunkQueue i q with shuffleWorker := w } where
  protoCredit := h.protoCredit
  chunkCredit := credit_update h.chunkCredit hq
  shuffleCredit := h.shuffleCredit
  proto := h.proto
  shuffle := hw

theorem inv_shuffleQueue (h : Inv cfg s) {q : Queue (Option κ)} {w : ShuffleWorker κ}
    (hq : Credit cfg.shuffledChunksQueueSize cfg.nDatasetWorkers q)
    (hw : ShuffleInv cfg.nPreprocessWorkers cfg.nDatasetWorkers w s.read q.abs) :
    Inv cfg { s with shuffleWorker := w, shuffleQueue := q } where
  protoCredit := h.protoCredit
  chunkCredit := h.chunkCredit
  shuffleCredit := hq
  proto := h.proto
  shuffle := hw

theorem inv_worker (h : Inv cfg s) (i : ℕ) (w : PreprocessWorker π) :
    Inv cfg (s.setWorker i w) :=
  ⟨h.protoCredit, h.chunkCredit, h.shuffleCredit, h.proto, h.shuffle⟩

theorem inv_step (hn : 0 < cfg.nPreprocessWorkers) (h : Inv cfg s) (hs : Step cfg s t)
    (hok : t.NoError cfg) : Inv cfg t := by
  cases hs with
  | @protoQueue i q hi hq =>
      have hc := h.protoCredit i
      have hf : ¬ q.abs.phase.Failed := by
        have := (hok.1 i hi).1
        simpa [setProtoQueue] using this
      refine inv_protoQueue h (credit_step hc hq) ?_
      rcases tau_inv hc hq hf with hafter | he
      · exact h.proto.queue hi hafter
      · rw [he]
        exact (Function.update_eq_self i fun j => (s.protoQueue j).abs).symm ▸ h.proto
  | @chunkQueue i q hi hq =>
      have hc := h.chunkCredit i
      refine inv_chunkQueue h (credit_step hc hq) ?_
      rw [read_eq (got_eq hc hq nofun)]
      exact h.shuffle
  | @shuffleQueue q hq =>
      refine inv_shuffleQueue h (credit_step h.shuffleCredit hq) ?_
      rcases tau_inv h.shuffleCredit hq hok.2 with hafter | he
      · exact h.shuffle.queue hafter
      · rw [he]
        exact h.shuffle
  | protoProcess hp =>
      exact ⟨h.protoCredit, h.chunkCredit, h.shuffleCredit, h.proto.internal hp, h.shuffle⟩
  | @protoPut p i l q hp hq =>
      have hc := h.protoCredit i
      exact inv_protoQueue h (credit_step hc hq) (h.proto.op hp (op_inv hc hq hp.ne_tau))
  | worker hi hw => exact inv_worker h _ _
  | @workerGet i w x q hi hw hq =>
      have hc := h.protoCredit i
      obtain ⟨-, -, hphase, hsent, -⟩ := (op_inv hc hq nofun).recv_inv
      exact inv_worker (inv_protoQueue h (credit_step hc hq) (h.proto.recv hphase hsent)) i w
  | @workerPut i w l q hi hw hq =>
      have hc := h.chunkCredit i
      refine inv_worker (inv_chunkQueue h (credit_step hc hq) ?_) i w
      rw [read_eq (got_eq hc hq hw.ne_recv)]
      exact h.shuffle
  | shuffleWorker hw =>
      exact ⟨h.protoCredit, h.chunkCredit, h.shuffleCredit, h.proto, h.shuffle.internal hw⟩
  | @shuffleGet w i x q hw hq =>
      have hc := h.chunkCredit i
      obtain ⟨-, -, -, -, hgot⟩ := (op_inv hc hq nofun).recv_inv
      refine inv_chunkQueue h (credit_step hc hq) ?_
      -- the receive is the only step that moves the read side
      have hread : (s.setChunkQueue i q).read = append s.read i x := by
        show (fun j => (Function.update s.chunkQueue i q j).abs.got 0) = _
        rw [read_update, hgot, append_self]
        rfl
      rw [hread]
      exact h.shuffle.get hw
  | @shufflePut w l q hw hq =>
      refine inv_shuffleQueue h (credit_step h.shuffleCredit hq) ?_
      exact h.shuffle.shuffled hn hw (op_inv h.shuffleCredit hq hw.ne_tau)
  | @datasetGet j x q hj hq =>
      obtain ⟨-, -, hphase, hsent, -⟩ := (op_inv h.shuffleCredit hq nofun).recv_inv
      exact inv_shuffleQueue h (credit_step h.shuffleCredit hq) (h.shuffle.recv hphase hsent)

theorem inv_of_reachable (hn : 0 < cfg.nPreprocessWorkers) (hm : 0 < cfg.nDatasetWorkers)
    (h : Reachable cfg s) : Inv cfg s := by
  refine Reach.invariant (I := Inv cfg) ?_ ?_ h
  · rintro s rfl
    exact inv_new hn hm
  · rintro s t hs ⟨hst, hok⟩
    exact inv_step hn hs hst hok

end Preservation

/-! ## Epoch isolation -/

/-- What holds of the streams between the stages, epoch by epoch. An epoch of
a stream is what stands between two end markers (`segment`), and a family of
streams is compared through the multiset of all its messages (`total`). -/
structure EpochIsolation (cfg : PipelineConfig π) (s : Pipeline π κ) : Prop where
  /-- The finished epochs of the proto process are complete. -/
  handed_all : ∀ e < s.protoProcess.epoch,
    total cfg.nPreprocessWorkers s.handed e = cfg.protos
  /-- No proto is handed out twice in an epoch, or before its epoch. -/
  handed_once : ∀ e, total cfg.nPreprocessWorkers s.handed e ≤
    if e ≤ s.protoProcess.epoch then (cfg.protos : Multiset π) else 0
  /-- A marker for each finished epoch, and at most one for the open one. -/
  handed_marks : ∀ i < cfg.nPreprocessWorkers,
    s.protoProcess.epoch ≤ marks (s.handed i) ∧ marks (s.handed i) ≤ s.protoProcess.epoch + 1
  /-- No worker is sent the marker of an epoch before all its protos are handed out. -/
  handed_mark_last : ∀ i < cfg.nPreprocessWorkers, ∀ e < marks (s.handed i),
    total cfg.nPreprocessWorkers s.handed e = cfg.protos
  /-- Each preprocess worker takes its stream from the front. -/
  taken_prefix_handed : ∀ i, s.taken i <+: s.handed i
  /-- Each dataset worker is sent one marker for each finished epoch, and the
  marker of the open epoch only by the `put_to_all` that finishes it. -/
  written_marks : ∀ j < cfg.nDatasetWorkers,
    marks (s.written j) = s.shuffleWorker.current ∨
      s.shuffleWorker.ctl = .ending ∧ marks (s.written j) = s.shuffleWorker.current + 1
  /-- Each dataset worker receives its stream from the front. -/
  received_prefix_written : ∀ j, s.received j <+: s.written j
  /-- The marker of an epoch arrives after every preprocess worker has ended it. -/
  received_mark : ∀ j < cfg.nDatasetWorkers, ∀ e < marks (s.received j),
    ∀ i < cfg.nPreprocessWorkers, e < marks (s.enqueued i)
  /-- When all dataset workers have ended an epoch, they have received what the
  preprocess workers enqueued in it. -/
  received_all : ∀ e, (∀ j < cfg.nDatasetWorkers, e < marks (s.received j)) →
    total cfg.nDatasetWorkers s.received e = total cfg.nPreprocessWorkers s.enqueued e
  /-- Before that, nothing is duplicated or in another epoch. -/
  received_le : ∀ e,
    total cfg.nDatasetWorkers s.received e ≤ total cfg.nPreprocessWorkers s.enqueued e
  assert_ok : s.shuffleWorker.ctl ≠ .assertFailed

variable {cfg : PipelineConfig π} {s : Pipeline π κ}

theorem Inv.read_prefix_enqueued (h : Inv cfg s) (i : ℕ) : s.read i <+: s.enqueued i :=
  (h.chunkCredit i).got_prefix_sent 0

theorem Inv.received_prefix_written (h : Inv cfg s) (j : ℕ) : s.received j <+: s.written j :=
  h.shuffleCredit.got_prefix_sent j

/-- Epoch by epoch, what is written is part of what is read. -/
theorem Inv.written_le_read (h : Inv cfg s) (e : ℕ) :
    total cfg.nDatasetWorkers s.written e ≤ total cfg.nPreprocessWorkers s.read e := by
  have hc := h.shuffle.conserve e
  calc total cfg.nDatasetWorkers s.written e
      ≤ total cfg.nDatasetWorkers s.written e + _ := le_self_add
    _ = total cfg.nPreprocessWorkers s.read e := hc

theorem Inv.handed_le (h : Inv cfg s) (e : ℕ) :
    total cfg.nPreprocessWorkers s.handed e ≤
      if e ≤ s.protoProcess.epoch then (cfg.protos : Multiset π) else 0 := by
  have hc := h.proto.conserve e
  calc total cfg.nPreprocessWorkers s.handed e
      ≤ total cfg.nPreprocessWorkers s.handed e + _ := le_self_add
    _ = _ := hc

/-- **Epoch isolation and exactly-once delivery.** In every reachable state of
a run without errors, for any number of workers, any shuffler and any
interleaving: see `EpochIsolation`. -/
theorem epochIsolation_of_reachable (hn : 0 < cfg.nPreprocessWorkers)
    (hm : 0 < cfg.nDatasetWorkers) (h : Reachable cfg s) : s.EpochIsolation cfg := by
  have hinv := inv_of_reachable hn hm h
  have hmarks : ∀ j < cfg.nDatasetWorkers, ∀ e < marks (s.received j),
      e < marks (s.written j) :=
    fun j _ e he => Nat.lt_of_lt_of_le he (marks_mono (hinv.received_prefix_written j))
  have hread : ∀ j < cfg.nDatasetWorkers, ∀ e < marks (s.received j),
      ∀ i < cfg.nPreprocessWorkers, e < marks (s.read i) :=
    fun j hj e he => (hinv.shuffle.closed hj (hmarks j hj e he)).1
  refine
    { handed_all := fun e he => ?_
      handed_once := hinv.handed_le
      handed_marks := fun i hi => ?_
      handed_mark_last := fun i hi e he => ?_
      taken_prefix_handed := fun i => (hinv.protoCredit i).got_prefix_sent 0
      written_marks := fun j hj => hinv.shuffle.marks_written hj
      received_prefix_written := hinv.received_prefix_written
      received_mark := fun j hj e he i hi => ?_
      received_all := fun e he => ?_
      received_le := fun e => ?_
      assert_ok := fun hctl => ?_ }
  · exact hinv.proto.total_of_lt he
  · exact hinv.proto.marks_sent hi
  · exact hinv.proto.total_of_marks hi he
  · exact Nat.lt_of_lt_of_le (hread j hj e he i hi)
      (marks_mono (hinv.read_prefix_enqueued i))
  · -- a closed epoch does not grow, neither on the way in nor on the way out
    calc total cfg.nDatasetWorkers s.received e
        = total cfg.nDatasetWorkers s.written e :=
          (total_eq_of_closed (fun j _ => hinv.received_prefix_written j) he).symm
      _ = total cfg.nPreprocessWorkers s.read e :=
          (hinv.shuffle.closed hm (hmarks 0 hm e (he 0 hm))).2
      _ = total cfg.nPreprocessWorkers s.enqueued e :=
          (total_eq_of_closed (fun i _ => hinv.read_prefix_enqueued i)
            (hread 0 hm e (he 0 hm))).symm
  · calc total cfg.nDatasetWorkers s.received e
        ≤ total cfg.nDatasetWorkers s.written e :=
          total_mono fun j _ => hinv.received_prefix_written j
      _ ≤ total cfg.nPreprocessWorkers s.read e := hinv.written_le_read e
      _ ≤ total cfg.nPreprocessWorkers s.enqueued e :=
          total_mono fun i _ => hinv.read_prefix_enqueued i
  · have hflags := hinv.shuffle.flags
    simp only [ShuffleWorker.Flags, hctl] at hflags

/-! ## One proto, from end to end -/

/-- One proto, one worker of each kind, no shuffling. -/
def oneProto : PipelineConfig ℕ where
  protos := [7]
  shuffle := false
  shuffleBufferSize := 4
  preprocessedChunksQueueSize := 8
  shuffledChunksQueueSize := 8
  nPreprocessWorkers := 1
  nDatasetWorkers := 1

section OneClient

variable {α : Type} {max : ℕ} {got down : List α}

/-- A queue whose one client is connected and has sent no ack so far. -/
def oneClient (max : ℕ) (ctl : Ctl α) (got down : List α) : Queue α where
  server := ⟨max, 1, [(got ++ down).length], 0⟩
  ctl := ctl
  link := Function.update (fun _ => {}) 0
    { connected := true, down := down, owed := got.length, sent := got ++ down, got := got }

theorem onMessage_connect :
    ((Queue.new max 1 : Queue α).connect 0).onMessage 0 .ready [] = oneClient max .idle [] [] := by
  have hidle : (Queue.afterReady 1 [0] : Ctl α) = .idle := by
    simp [Queue.afterReady]
  have hready : (Queue.new max 1 : Queue α).ctl = .waitForClients [] := rfl
  rw [Queue.connect, Queue.onMessage, Queue.setLink, hready]
  simp [Queue.setLink, hidle, Queue.new, oneClient, Server.new]

theorem push_oneClient (ctl : Ctl α) (item : α) :
    (oneClient max ctl got down).push 0 item = (oneClient max ctl got (down ++ [item])).link := by
  simp [Queue.push, oneClient]

theorem sendToClient_oneClient (ctl : Ctl α) (item : α) :
    (oneClient max ctl got down).server.sendToClient 0 =
      (oneClient max ctl got (down ++ [item])).server := by
  have hlen : (got ++ (down ++ [item])).length = (got ++ down).length + 1 := by
    rw [← List.append_assoc, List.length_append, List.length_singleton]
  rw [oneClient, oneClient, hlen]
  rfl

theorem advance_put {c : PutCall α} (h : (got ++ down).length < max ∨ c.ignoreFull = true) :
    (oneClient max (.tryClients c) got down).advance =
      oneClient max (.returned (.ok (.put true))) got (down ++ [c.item]) := by
  have hroom : ((oneClient max (.tryClients c) got down).server.hasRoom 0 || c.ignoreFull) =
      true := by
    rw [Bool.or_eq_true]
    exact h.imp decide_eq_true id
  have hchoose : (oneClient max (.tryClients c) got down).server.choose c.ignoreFull =
      some (0, (oneClient max (.tryClients c) got (down ++ [c.item])).server) := by
    refine (if_pos hroom).trans ?_
    rw [← sendToClient_oneClient]
    simp [oneClient, Server.sendToClient]
  rw [Queue.advance_tryClients rfl hchoose, push_oneClient]
  rfl

theorem advance_putToAll (item : α) :
    (oneClient max (.sendAll item 0) got down).advance =
      oneClient max (.sendAll item 1) got (down ++ [item]) := by
  have hfirst : 0 < (oneClient max (.sendAll item 0) got down).server.nClients := Nat.one_pos
  rw [Queue.advance]
  refine (if_pos hfirst).trans ?_
  rw [push_oneClient, sendToClient_oneClient _ item]
  rfl

theorem clientRecv_oneClient (ctl : Ctl α) (x : α) (rest : List α) :
    (oneClient max ctl got (x :: rest)).clientRecv 0 x rest =
      oneClient max ctl (got ++ [x]) rest := by
  simp [Queue.clientRecv, Queue.setLink, oneClient]

/-- What the client has received does not depend on what is before it. -/
theorem got_oneClient (ctl : Ctl α) : (oneClient max ctl got down).abs.got =
    Function.update (fun _ => []) 0 got := by
  funext i
  show ((Function.update (fun _ => {}) 0 _ : ℕ → Link α) i).got = _
  by_cases hi : i = 0
  · subst hi
    rfl
  · rw [Function.update_of_ne hi, Function.update_of_ne hi]

theorem got_ready (ctl : Ctl α) : (oneClient max ctl [] down).abs.got = fun _ => [] :=
  (got_oneClient ctl).trans (Function.update_eq_self 0 fun _ => [])

theorem got_connect : ((Queue.new max 1 : Queue α).connect 0).abs.got = fun _ => [] := by
  funext i
  show ((Function.update (fun _ => {}) 0 _ : ℕ → Link α) i).got = _
  by_cases hi : i = 0
  · subst hi
    rfl
  · rw [Function.update_of_ne hi]

theorem step_callPut (c : PutCall α) : Zmq.Step (.call (.put c)) (oneClient max .idle got down)
    (oneClient max (.checkForAcks c false 0) got down) := .call _ rfl

theorem step_noAck (c : PutCall α) :
    Zmq.Step .tau (oneClient max (.checkForAcks c false 0) got down)
      (oneClient max (.tryClients c) got down) := .recvFail .eagain

theorem step_send {c : PutCall α} (h : (got ++ down).length < max ∨ c.ignoreFull = true) :
    Zmq.Step .tau (oneClient max (.tryClients c) got down)
      (oneClient max (.returned (.ok (.put true))) got (down ++ [c.item])) :=
  advance_put h ▸ .advance

theorem step_return (r : Reply) : Zmq.Step (.ret (.ok r))
    (oneClient max (.returned (.ok r)) got down) (oneClient max .idle got down) := .ret rfl

theorem step_callPutToAll (item : α) : Zmq.Step (.call (.putToAll item))
    (oneClient max .idle got down) (oneClient max (.sendAll item 0) got down) := .call _ rfl

theorem step_sendFirst (item : α) : Zmq.Step .tau (oneClient max (.sendAll item 0) got down)
    (oneClient max (.sendAll item 1) got (down ++ [item])) := advance_putToAll item ▸ .advance

theorem step_sentAll (item : α) : Zmq.Step .tau (oneClient max (.sendAll item 1) got down)
    (oneClient max (.returned (.ok .putToAll)) got down) := .advance

theorem step_connect : Zmq.Step .tau (Queue.new max 1 : Queue α) ((Queue.new max 1).connect 0) :=
  .connect Nat.one_pos rfl

theorem step_ready : Zmq.Step .tau ((Queue.new max 1 : Queue α).connect 0)
    (oneClient max .idle [] []) := onMessage_connect ▸ .message rfl

theorem step_recv (ctl : Ctl α) (x : α) : Zmq.Step (.recv 0 x)
    (oneClient max ctl got (x :: down)) (oneClient max ctl (got ++ [x]) down) :=
  clientRecv_oneClient ctl x down ▸ .clientRecv rfl

end OneClient

/-- A step without an error in which no dataset worker receives. -/
def FeedStep (cfg : PipelineConfig π) (s t : Pipeline π κ) : Prop :=
  Step cfg s t ∧ t.NoError cfg ∧ t.received = s.received

theorem Reachable.feed {cfg : PipelineConfig π} {s t : Pipeline π κ} (h : Reachable cfg s)
    (hrun : Relation.ReflTransGen (FeedStep cfg) s t) : Reachable cfg t := by
  induction hrun with
  | refl => exact h
  | tail _ hstep ih => exact ih.next ⟨hstep.1, hstep.2.1⟩

section OneOfEach

variable {p p' : ProtoProcess ℕ} {pq q : Queue (Option ℕ)} {w w' : PreprocessWorker ℕ}
  {cq : Queue (Option ℕ)} {sw sw' : ShuffleWorker ℕ} {sq : Queue (Option ℕ)}

/-- The pipeline with one worker of each kind. -/
def oneOfEach (p : ProtoProcess ℕ) (pq : Queue (Option ℕ)) (w : PreprocessWorker ℕ)
    (cq : Queue (Option ℕ)) (sw : ShuffleWorker ℕ) (sq : Queue (Option ℕ)) : Pipeline ℕ ℕ where
  protoProcess := p
  protoQueue := Function.update (fun _ => .new 16 1) 0 pq
  worker := Function.update (fun _ => .new) 0 w
  chunkQueue := Function.update (fun _ => .new 8 1) 0 cq
  shuffleWorker := sw
  shuffleQueue := sq

theorem setProtoQueue_oneOfEach : (oneOfEach p pq w cq sw sq).setProtoQueue 0 q =
    oneOfEach p q w cq sw sq := by
  simp [setProtoQueue, oneOfEach]

theorem setChunkQueue_oneOfEach : (oneOfEach p pq w cq sw sq).setChunkQueue 0 q =
    oneOfEach p pq w q sw sq := by
  simp [setChunkQueue, oneOfEach]

theorem setWorker_oneOfEach : (oneOfEach p pq w cq sw sq).setWorker 0 w' =
    oneOfEach p pq w' cq sw sq := by
  simp [setWorker, oneOfEach]

theorem noError_oneOfEach (hpq : ¬ pq.abs.phase.Failed) (hcq : ¬ cq.abs.phase.Failed)
    (hsq : ¬ sq.abs.phase.Failed) : (oneOfEach p pq w cq sw sq).NoError oneProto := by
  refine ⟨fun i hi => ?_, hsq⟩
  obtain rfl : i = 0 := Nat.lt_one_iff.mp hi
  exact ⟨hpq, hcq⟩

theorem feedStep {s : Pipeline ℕ ℕ} (h : Step oneProto s (oneOfEach p pq w cq sw sq))
    (hpq : ¬ pq.abs.phase.Failed) (hcq : ¬ cq.abs.phase.Failed) (hsq : ¬ sq.abs.phase.Failed)
    (hgot : sq.abs.got = s.received) :
    FeedStep oneProto s (oneOfEach p pq w cq sw sq) :=
  ⟨h, noError_oneOfEach hpq hcq hsq, hgot⟩

theorem step_protoQueue (h : Zmq.Step .tau pq q) :
    Step oneProto (oneOfEach p pq w cq sw sq) (oneOfEach p q w cq sw sq) := by
  have hstep : Step oneProto (oneOfEach p pq w cq sw sq) _ := .protoQueue (i := 0) Nat.one_pos h
  rwa [setProtoQueue_oneOfEach] at hstep

theorem step_chunkQueue (h : Zmq.Step .tau cq q) :
    Step oneProto (oneOfEach p pq w cq sw sq) (oneOfEach p pq w q sw sq) := by
  have hstep : Step oneProto (oneOfEach p pq w cq sw sq) _ := .chunkQueue (i := 0) Nat.one_pos h
  rwa [setChunkQueue_oneOfEach] at hstep

theorem step_protoPut {l : Label (Option ℕ)} (hp : ProtoProcess.Step 1 false (some (0, l)) p p')
    (hq : Zmq.Step l pq q) :
    Step oneProto (oneOfEach p pq w cq sw sq) (oneOfEach p' q w cq sw sq) := by
  have hstep : Step oneProto (oneOfEach p pq w cq sw sq) _ := .protoPut hp hq
  rwa [setProtoQueue_oneOfEach] at hstep

theorem step_protoProcess (hp : ProtoProcess.Step 1 false none p p') :
    Step oneProto (oneOfEach p pq w cq sw sq) (oneOfEach p' pq w cq sw sq) := .protoProcess hp

theorem step_worker (hw : PreprocessWorker.Step (.internal : WorkerLabel ℕ ℕ) w w') :
    Step oneProto (oneOfEach p pq w cq sw sq) (oneOfEach p pq w' cq sw sq) := by
  have hstep : Step oneProto (oneOfEach p pq w cq sw sq) _ := .worker (i := 0) Nat.one_pos hw
  rwa [setWorker_oneOfEach] at hstep

theorem step_workerGet {x : Option ℕ} (hw : PreprocessWorker.Step (.proto x : WorkerLabel ℕ ℕ) w w')
    (hq : Zmq.Step (.recv 0 x) pq q) :
    Step oneProto (oneOfEach p pq w cq sw sq) (oneOfEach p q w' cq sw sq) := by
  have hstep : Step oneProto (oneOfEach p pq w cq sw sq) _ :=
    .workerGet (i := 0) Nat.one_pos hw hq
  rwa [setProtoQueue_oneOfEach, setWorker_oneOfEach] at hstep

theorem step_workerPut {l : Label (Option ℕ)} (hw : PreprocessWorker.Step (.chunk l) w w')
    (hq : Zmq.Step l cq q) :
    Step oneProto (oneOfEach p pq w cq sw sq) (oneOfEach p pq w' q sw sq) := by
  have hstep : Step oneProto (oneOfEach p pq w cq sw sq) _ :=
    .workerPut (i := 0) Nat.one_pos hw hq
  rwa [setChunkQueue_oneOfEach, setWorker_oneOfEach] at hstep

theorem step_shuffleGet {x : Option ℕ} (hw : ShuffleWorker.Step 1 (.get 0 x) sw sw')
    (hq : Zmq.Step (.recv 0 x) cq q) :
    Step oneProto (oneOfEach p pq w cq sw sq) (oneOfEach p pq w q sw' sq) := by
  have hstep : Step oneProto (oneOfEach p pq w cq sw sq) _ := .shuffleGet hw hq
  rwa [setChunkQueue_oneOfEach] at hstep

theorem step_shuffleQueue (h : Zmq.Step .tau sq q) :
    Step oneProto (oneOfEach p pq w cq sw sq) (oneOfEach p pq w cq sw q) := .shuffleQueue h

theorem step_shuffleWorker (hw : ShuffleWorker.Step 1 .internal sw sw') :
    Step oneProto (oneOfEach p pq w cq sw sq) (oneOfEach p pq w cq sw' sq) := .shuffleWorker hw

theorem step_shufflePut {l : Label (Option ℕ)} (hw : ShuffleWorker.Step 1 (.shuffled l) sw sw')
    (hq : Zmq.Step l sq q) :
    Step oneProto (oneOfEach p pq w cq sw sq) (oneOfEach p pq w cq sw' q) := .shufflePut hw hq

end OneOfEach

section Runs

open Relation

variable {p p' p'' : ProtoProcess ℕ} {pq : Queue (Option ℕ)} {w w' w'' : PreprocessWorker ℕ}
  {cq : Queue (Option ℕ)} {sw : ShuffleWorker ℕ} {sq : Queue (Option ℕ)}
  {got down written : List (Option ℕ)} {c : PutCall (Option ℕ)}

/-- The proto process puts an item. -/
theorem run_protoPut (hcall : ProtoProcess.Step 1 false (some (0, .call (.put c))) p p')
    (hret : ProtoProcess.Step 1 false (some (0, .ret (.ok (.put true)))) p' p'')
    (hroom : (got ++ down).length < 16 ∨ c.ignoreFull = true)
    (hcq : ¬ cq.abs.phase.Failed) (hsq : ¬ sq.abs.phase.Failed) :
    ReflTransGen (FeedStep oneProto) (oneOfEach p (oneClient 16 .idle got down) w cq sw sq)
      (oneOfEach p'' (oneClient 16 .idle got (down ++ [c.item])) w cq sw sq) := by
  refine .head (feedStep (step_protoPut hcall (step_callPut c)) id hcq hsq rfl) ?_
  refine .head (feedStep (step_protoQueue (step_noAck c)) id hcq hsq rfl) ?_
  refine .head (feedStep (step_protoQueue (step_send hroom)) id hcq hsq rfl) ?_
  exact .single (feedStep (step_protoPut hret (step_return _)) id hcq hsq rfl)

/-- The preprocess worker puts an item. -/
theorem run_chunkPut (hcall : PreprocessWorker.Step (.chunk (.call (.put c))) w w')
    (hret : PreprocessWorker.Step (.chunk (.ret (.ok (.put true))) : WorkerLabel ℕ ℕ) w' w'')
    (hroom : (got ++ down).length < 8) (hpq : ¬ pq.abs.phase.Failed)
    (hsq : ¬ sq.abs.phase.Failed) :
    ReflTransGen (FeedStep oneProto) (oneOfEach p pq w (oneClient 8 .idle got down) sw sq)
      (oneOfEach p pq w'' (oneClient 8 .idle got (down ++ [c.item])) sw sq) := by
  refine .head (feedStep (step_workerPut hcall (step_callPut c)) hpq id hsq rfl) ?_
  refine .head (feedStep (step_chunkQueue (step_noAck c)) hpq id hsq rfl) ?_
  refine .head (feedStep (step_chunkQueue (step_send (.inl hroom))) hpq id hsq rfl) ?_
  exact .single (feedStep (step_workerPut hret (step_return _)) hpq id hsq rfl)

/-- The shuffle worker passes an item on. -/
theorem run_relay {k x : ℕ} (hpq : ¬ pq.abs.phase.Failed) (hroom : ([] ++ written).length < 8) :
    ReflTransGen (FeedStep oneProto)
      (oneOfEach p pq w (oneClient 8 .idle got (some x :: down))
        ⟨.epochTop, [true], .noShuffle k 0⟩ (oneClient 8 .idle [] written))
      (oneOfEach p pq w (oneClient 8 .idle (got ++ [some x]) down)
        ⟨.epochTop, [true], .noShuffle (k + 1) 0⟩
        (oneClient 8 .idle [] (written ++ [some x]))) := by
  refine .head (feedStep (step_shuffleWorker (.assertRunning rfl)) hpq id id rfl) ?_
  refine .head (feedStep (step_shuffleGet (.getItem x rfl Nat.one_pos rfl)
    (step_recv .idle (some x))) hpq id id rfl) ?_
  have hadd : (Shuffler.noShuffle k 0).addItem x 0 =
      some (.put x (.noShuffle (k + 1) 0) (.noShuffle (k + 1) 0)) := rfl
  refine .head (feedStep (step_shufflePut (.put rfl hadd) (step_callPut _)) hpq id id rfl) ?_
  refine .head (feedStep (step_shuffleQueue (step_noAck _)) hpq id id rfl) ?_
  refine .head (feedStep (step_shuffleQueue (step_send (.inl hroom))) hpq id id
    ((got_oneClient _).trans (got_oneClient _).symm)) ?_
  refine .head (feedStep (step_shufflePut (.added rfl) (step_return _)) hpq id id rfl) ?_
  exact .single (feedStep (step_shuffleWorker (.endScan rfl le_rfl)) hpq id id rfl)

/-- The shuffle worker ends the epoch. -/
theorem run_endEpoch {k : ℕ} (hpq : ¬ pq.abs.phase.Failed) :
    ReflTransGen (FeedStep oneProto)
      (oneOfEach p pq w (oneClient 8 .idle got [none])
        ⟨.epochTop, [true], .noShuffle k 0⟩ (oneClient 8 .idle [] written))
      (oneOfEach p pq w (oneClient 8 .idle (got ++ [none]) [])
        ⟨.epochTop, [true], .noShuffle 0 1⟩ (oneClient 8 .idle [] (written ++ [none]))) := by
  refine .head (feedStep (step_shuffleWorker (.assertRunning rfl)) hpq id id rfl) ?_
  refine .head (feedStep (step_shuffleGet (.getNone rfl Nat.one_pos rfl) (step_recv .idle none))
    hpq id id rfl) ?_
  refine .head (feedStep (step_shufflePut (.endEpoch rfl rfl) (step_callPutToAll none))
    hpq id id rfl) ?_
  refine .head (feedStep (step_shuffleQueue (step_sendFirst none)) hpq id id
    ((got_oneClient _).trans (got_oneClient _).symm)) ?_
  refine .head (feedStep (step_shuffleQueue (step_sentAll none)) hpq id id rfl) ?_
  exact .single (feedStep (step_shufflePut (.ended rfl) (step_return _)) hpq id id rfl)

/-- All queues are connected. -/
theorem run_connect : ReflTransGen (FeedStep oneProto) (new oneProto)
    (oneOfEach (.new [7]) (oneClient 16 .idle [] []) .new (oneClient 8 .idle [] [])
      (.new 1 false 4) (oneClient 8 .idle [] [])) := by
  have hnew : (new oneProto : Pipeline ℕ ℕ) =
      oneOfEach (.new [7]) (.new 16 1) .new (.new 8 1) (.new 1 false 4) (.new 8 1) := by
    simp [new, oneOfEach, oneProto]
  rw [hnew]
  refine .head (feedStep (step_protoQueue step_connect) id id id rfl) ?_
  refine .head (feedStep (step_protoQueue step_ready) id id id rfl) ?_
  refine .head (feedStep (step_chunkQueue step_connect) id id id rfl) ?_
  refine .head (feedStep (step_chunkQueue step_ready) id id id rfl) ?_
  refine .head (feedStep (step_shuffleQueue step_connect) id id id got_connect) ?_
  exact .single (feedStep (step_shuffleQueue step_ready) id id id
    ((got_ready _).trans got_connect.symm))

/-- All stages have ended the first epoch; the dataset worker has received `got`. -/
def epochEnded (got down : List (Option ℕ)) : Pipeline ℕ ℕ :=
  oneOfEach ⟨.epochTop, [7], 0, 1⟩ (oneClient 16 .idle [some 7, none] []) ⟨.getting, 1⟩
    (oneClient 8 .idle [some 70, some 71, none] []) ⟨.epochTop, [true], .noShuffle 0 1⟩
    (oneClient 8 .idle got down)

/-- The proto is handed out, its chunks 70 and 71 go through all stages, and so does the
marker of the epoch. -/
theorem run_epoch : ReflTransGen (FeedStep oneProto) (new oneProto)
    (epochEnded [] [some 70, some 71, none]) := by
  have hhand : ProtoProcess.Step 1 false (some (0, .call (.put ⟨some 7, some 1, false⟩)))
      ⟨.handing [7], [7], 0, 0⟩ ⟨.waiting 7 [], [7], 0, 0⟩ :=
    .hand (p := ⟨.handing [7], [7], 0, 0⟩) rfl
  have hmark : ProtoProcess.Step 1 false (some (0, .call (.put ⟨none, none, true⟩)))
      ⟨.ending 0, [7], 0, 0⟩ ⟨.endingPut 0, [7], 0, 0⟩ :=
    .mark (p := ⟨.ending 0, [7], 0, 0⟩) rfl Nat.one_pos
  -- the proto process
  refine run_connect.trans (.head (feedStep (step_protoProcess (.startEpoch rfl rfl)) id id id rfl)
    ?_)
  refine (run_protoPut hhand (.handed (p := ⟨.waiting 7 [], [7], 0, 0⟩) rfl) (.inl (by decide)) id
    id).trans ?_
  refine .head (feedStep (step_protoProcess (.allHanded rfl)) id id id rfl) ?_
  refine (run_protoPut hmark (.marked rfl) (.inl (by decide)) id id).trans ?_
  refine .head (feedStep (step_protoProcess (.endEpoch rfl le_rfl)) id id id rfl) ?_
  -- the preprocess worker
  refine .head (feedStep (step_workerGet (.getProto 7 rfl) (step_recv .idle (some 7))) id id id
    rfl) ?_
  refine (run_chunkPut (.putChunk 70 rfl) (.chunkPut rfl) (by decide) id id).trans ?_
  refine (run_chunkPut (.putChunk 71 rfl) (.chunkPut rfl) (by decide) id id).trans ?_
  refine .head (feedStep (step_worker (.done rfl)) id id id rfl) ?_
  refine .head (feedStep (step_workerGet (.getNone rfl) (step_recv .idle none)) id id id rfl) ?_
  refine (run_chunkPut (.putNone rfl) (.nonePut rfl) (by decide) id id).trans ?_
  -- the shuffle worker
  refine (run_relay (x := 70) id (by decide)).trans ?_
  refine (run_relay (x := 71) id (by decide)).trans ?_
  exact run_endEpoch id

theorem Reachable.receive {x : Option ℕ} (h : Reachable oneProto (epochEnded got (x :: down))) :
    Reachable oneProto (epochEnded (got ++ [x]) down) :=
  h.next ⟨.datasetGet Nat.one_pos (step_recv .idle x), noError_oneOfEach id id id⟩

theorem oneProto_reachable :
    Reachable oneProto (epochEnded [some 70, some 71, none] []) := by
  have hstart : Reachable oneProto (new oneProto : Pipeline ℕ ℕ) := .start rfl
  exact (hstart.feed run_epoch).receive.receive.receive

end Runs

theorem epochIsolation_of_reachable_oneProto : ∃ s : Pipeline ℕ ℕ,
    s.handed 0 = [some 7, none] ∧ s.enqueued 0 = [some 70, some 71, none] ∧
      s.received 0 = [some 70, some 71, none] ∧ s.EpochIsolation oneProto :=
  ⟨_, rfl, rfl, rfl, epochIsolation_of_reachable Nat.one_pos Nat.one_pos oneProto_reachable⟩

end Pipeline

end P2PRdt.Data

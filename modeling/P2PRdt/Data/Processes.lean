import P2PRdt.Zmq.Queue
import P2PRdt.Data.Shuffler

/-!
# The processes of the streaming pipeline

`_proto_queue_process`, `_preprocess_worker` and `run_shuffle_worker`, each as
a transition system of its own. A process moves by itself, or by an operation
on one of its queues: a call it makes on a server, the return of that call,
or a message it takes from a client. Returns that carry an error are absent:
they end the process, or the run is not one we look at. `none` on a queue is
the pickled `None`.
-/

namespace P2PRdt.Data

open Zmq

variable {π κ : Type*}

/-! ## _proto_queue_process -/

/-- `handing rest` is the loop over the protos with `rest` still to hand out,
`waiting` is inside its `put`; `ending i` and `endingPut i` are the loop that
marks the end of the epoch. -/
inductive ProtoCtl (π : Type*) where
  | epochTop
  | handing (rest : List π)
  | waiting (proto : π) (rest : List π)
  | ending (i : ℕ)
  | endingPut (i : ℕ)

structure ProtoProcess (π : Type*) where
  ctl : ProtoCtl π
  protos : List π
  idx : ℕ
  epoch : ℕ

namespace ProtoProcess

def new (protos : List π) : ProtoProcess π where
  ctl := .epochTop
  protos := protos
  idx := 0
  epoch := 0

/-- Steps with `n` preprocess workers. The label names the queue and what
happens on it; `none` is an internal step. -/
inductive Step (n : ℕ) (shuffle : Bool) :
    Option (ℕ × Label (Option π)) → ProtoProcess π → ProtoProcess π → Prop
  -- `rng.shuffle` leaves the list in any order
  | startEpoch {p : ProtoProcess π} {protos : List π} : p.ctl = .epochTop →
      (if shuffle then protos.Perm p.protos else protos = p.protos) →
      Step n shuffle none p { p with ctl := .handing protos, protos := protos, idx := 0 }
  | hand {p : ProtoProcess π} {proto : π} {rest : List π} : p.ctl = .handing (proto :: rest) →
      Step n shuffle (some (p.idx, .call (.put ⟨some proto, some 1, false⟩))) p
        { p with ctl := .waiting proto rest }
  -- the index moves on whether or not the put succeeded
  | handed {p : ProtoProcess π} {proto : π} {rest : List π} {success : Bool} :
      p.ctl = .waiting proto rest →
      Step n shuffle (some (p.idx, .ret (.ok (.put success)))) p
        { p with ctl := .handing (if success then rest else proto :: rest)
                 idx := (p.idx + 1) % n }
  | allHanded {p : ProtoProcess π} : p.ctl = .handing [] →
      Step n shuffle none p { p with ctl := .ending 0 }
  | mark {p : ProtoProcess π} {i : ℕ} : p.ctl = .ending i → i < n →
      Step n shuffle (some (i, .call (.put ⟨none, none, true⟩))) p
        { p with ctl := .endingPut i }
  | marked {p : ProtoProcess π} {i : ℕ} {success : Bool} : p.ctl = .endingPut i →
      Step n shuffle (some (i, .ret (.ok (.put success)))) p { p with ctl := .ending (i + 1) }
  | endEpoch {p : ProtoProcess π} {i : ℕ} : p.ctl = .ending i → n ≤ i →
      Step n shuffle none p { p with ctl := .epochTop, epoch := p.epoch + 1 }

theorem Step.ne_tau {n j : ℕ} {shuffle : Bool} {l : Label (Option π)} {p p' : ProtoProcess π}
    (h : Step n shuffle (some (j, l)) p p') : l ≠ .tau := by
  cases h <;> exact nofun

end ProtoProcess

/-! ## _preprocess_worker -/

inductive WorkerCtl (π : Type*) where
  | getting
  | processing (proto : π)
  | putting (proto : π)
  | endEpoch
  | endEpochPut

structure PreprocessWorker (π : Type*) where
  ctl : WorkerCtl π
  epoch : ℕ

inductive WorkerLabel (π κ : Type*) where
  | internal
  | proto (m : Option π)
  | chunk (l : Label (Option κ))

namespace PreprocessWorker

def new : PreprocessWorker π := ⟨.getting, 0⟩

/-- `_preprocess_example` may put any chunks, and it may end early: a missing
file and an exception both send the worker back to `get`. -/
inductive Step : WorkerLabel π κ → PreprocessWorker π → PreprocessWorker π → Prop
  | getProto {w : PreprocessWorker π} (proto : π) : w.ctl = .getting →
      Step (.proto (some proto)) w { w with ctl := .processing proto }
  | getNone {w : PreprocessWorker π} : w.ctl = .getting →
      Step (.proto none) w { w with ctl := .endEpoch, epoch := w.epoch + 1 }
  | putNone {w : PreprocessWorker π} : w.ctl = .endEpoch →
      Step (.chunk (.call (.put ⟨none, none, false⟩))) w { w with ctl := .endEpochPut }
  | nonePut {w : PreprocessWorker π} {sent : Bool} : w.ctl = .endEpochPut →
      Step (.chunk (.ret (.ok (.put sent)))) w { w with ctl := .getting }
  | putChunk {w : PreprocessWorker π} {proto : π} (x : κ) : w.ctl = .processing proto →
      Step (.chunk (.call (.put ⟨some x, none, false⟩))) w { w with ctl := .putting proto }
  | chunkPut {w : PreprocessWorker π} {proto : π} {sent : Bool} : w.ctl = .putting proto →
      Step (.chunk (.ret (.ok (.put sent)))) w { w with ctl := .processing proto }
  | done {w : PreprocessWorker π} {proto : π} : w.ctl = .processing proto →
      Step .internal w { w with ctl := .getting }

theorem Step.ne_recv {l : Label (Option κ)} {w w' : PreprocessWorker π}
    (h : Step (.chunk l) w w') : ∀ i x, l ≠ .recv i x := by
  cases h <;> exact nofun

end PreprocessWorker

/-! ## run_shuffle_worker -/

/-- `epochTop` is the head of the epoch loop, with the assert; `scan i` is the
loop over the queues; `addItem` and `adding` are `add_item` before and inside
its put; `finishing` is the loop of `finish_epoch`, `flushing` its put and
`ending` the `put_to_all` after it. -/
inductive ShuffleCtl (κ : Type*) where
  | epochTop
  | assertFailed
  | scan (i : ℕ)
  | addItem (i : ℕ) (item : κ)
  | adding (i : ℕ) (after : Shuffler κ)
  | finishing
  | flushing
  | ending

structure ShuffleWorker (κ : Type*) where
  ctl : ShuffleCtl κ
  workersStillRunning : List Bool
  shuffler : Shuffler κ

inductive ShuffleLabel (κ : Type*) where
  | internal
  | get (i : ℕ) (m : Option κ)
  | shuffled (l : Label (Option κ))

namespace ShuffleWorker

def new (n : ℕ) (shuffle : Bool) (shuffleBufferSize : ℕ) : ShuffleWorker κ where
  ctl := .epochTop
  workersStillRunning := List.replicate n true
  shuffler := .new shuffle shuffleBufferSize

/-- `workers_still_running[i]` -/
def running (w : ShuffleWorker κ) (i : ℕ) : Bool := w.workersStillRunning.getD i false

/-- The worker after the end marker of queue `i`. -/
def endOfQueue (w : ShuffleWorker κ) (i : ℕ) : ShuffleWorker κ :=
  let left := w.workersStillRunning.set i false
  { w with workersStillRunning := left
           ctl := if left.countP id = 0 then .finishing else .scan (i + 1) }

/-- Steps with `n` preprocess queues. A `get` can time out at any moment. -/
inductive Step (n : ℕ) : ShuffleLabel κ → ShuffleWorker κ → ShuffleWorker κ → Prop
  | assertRunning {w : ShuffleWorker κ} : w.ctl = .epochTop →
      Step n .internal w
        { w with ctl := if w.workersStillRunning.any id then .scan 0 else .assertFailed }
  | endScan {w : ShuffleWorker κ} {i : ℕ} : w.ctl = .scan i → n ≤ i →
      Step n .internal w { w with ctl := .epochTop }
  | skip {w : ShuffleWorker κ} {i : ℕ} : w.ctl = .scan i → i < n → w.running i = false →
      Step n .internal w { w with ctl := .scan (i + 1) }
  | timeout {w : ShuffleWorker κ} {i : ℕ} : w.ctl = .scan i → i < n → w.running i = true →
      Step n .internal w { w with ctl := .scan (i + 1) }
  | getNone {w : ShuffleWorker κ} {i : ℕ} : w.ctl = .scan i → i < n → w.running i = true →
      Step n (.get i none) w (w.endOfQueue i)
  | getItem {w : ShuffleWorker κ} {i : ℕ} (item : κ) : w.ctl = .scan i → i < n →
      w.running i = true → Step n (.get i (some item)) w { w with ctl := .addItem i item }
  | store {w : ShuffleWorker κ} {i idx : ℕ} {item : κ} {s : Shuffler κ} :
      w.ctl = .addItem i item → w.shuffler.addItem item idx = some (.stored s) →
      Step n .internal w { w with ctl := .scan (i + 1), shuffler := s }
  | put {w : ShuffleWorker κ} {i idx : ℕ} {item sampled : κ} {during after : Shuffler κ} :
      w.ctl = .addItem i item →
      w.shuffler.addItem item idx = some (.put sampled during after) →
      Step n (.shuffled (.call (.put ⟨some sampled, none, false⟩))) w
        { w with ctl := .adding i after, shuffler := during }
  | added {w : ShuffleWorker κ} {i : ℕ} {after : Shuffler κ} {sent : Bool} :
      w.ctl = .adding i after →
      Step n (.shuffled (.ret (.ok (.put sent)))) w
        { w with ctl := .scan (i + 1), shuffler := after }
  | flush {w : ShuffleWorker κ} {idx : ℕ} {sampled : κ} {s : Shuffler κ} :
      w.ctl = .finishing → w.shuffler.sample idx = some (sampled, s) →
      Step n (.shuffled (.call (.put ⟨some sampled, none, false⟩))) w
        { w with ctl := .flushing, shuffler := s }
  | flushed {w : ShuffleWorker κ} {sent : Bool} : w.ctl = .flushing →
      Step n (.shuffled (.ret (.ok (.put sent)))) w { w with ctl := .finishing }
  | endEpoch {w : ShuffleWorker κ} : w.ctl = .finishing → w.shuffler.buffered = [] →
      Step n (.shuffled (.call (.putToAll none))) w
        { w with ctl := .ending, shuffler := w.shuffler.nextEpoch }
  -- the inner loop is left, and the epoch loop goes round with fresh flags
  | ended {w : ShuffleWorker κ} : w.ctl = .ending →
      Step n (.shuffled (.ret (.ok .putToAll))) w
        { w with ctl := .epochTop, workersStillRunning := List.replicate n true }

theorem Step.ne_tau {n : ℕ} {l : Label (Option κ)} {w w' : ShuffleWorker κ}
    (h : Step n (.shuffled l) w w') : l ≠ .tau := by
  cases h <;> exact nofun

end ShuffleWorker

end P2PRdt.Data

import P2PRdt.Lib.Buckets
import P2PRdt.Lib.Reach
import Mathlib.Data.Rat.Floor

/-!
# The handle of the shuffle thread

`PyShuffleThread` of `shuffle_thread.rs`: the calls of one Python owner, who holds
the object while a call runs, interleaved with a worker that may finish or panic
at any point.

`join` takes the handle out of its `Option` before it waits. A wait that gives up
drops the handle, and from then on an absent handle is read as a thread that has
been joined.
-/

namespace P2PRdt.Data

open Lib

/-! ## The calls -/

inductive Worker where
  | running
  | finished
  | panicked
deriving DecidableEq, Repr

/-- `JoinHandle::is_finished`. -/
def Worker.isFinished (w : Worker) : Bool := w ≠ .running

/-- A double in seconds. `none` is not a number, or infinite. -/
abbrev Seconds := Option ℚ

/-- `Duration::from_secs_f64`, in nanoseconds. `none` is its panic. -/
def fromSecsF64 (seconds : Seconds) : Option ℕ :=
  match seconds with
  | none => none
  | some seconds =>
      if seconds < 0 ∨ 2 ^ 64 ≤ seconds then none
      else some (roundHalfEven (seconds * 1000000000)).toNat

/-- The call that is under way. A wait has the handle to itself. -/
inductive Call where
  | idle
  | polling (timeout elapsed : ℕ)
  | blocking
deriving DecidableEq, Repr

/-- What a call returns to Python. -/
inductive Report where
  | unit
  | joined (result : Bool)
  | isAlive (result : Bool)
  | failedToJoin
  | panic
deriving DecidableEq, Repr

/-- `reports` is a history: what each call has returned, and how the worker was
then. -/
structure ShuffleThread where
  handle : Bool := true
  shutdownFlag : Bool := false
  worker : Worker := .running
  call : Call := .idle
  reports : List (Report × Worker) := []
deriving DecidableEq, Repr

namespace ShuffleThread

/-- The call returns. -/
def report (q : ShuffleThread) (r : Report) : ShuffleThread :=
  { q with call := .idle, reports := q.reports ++ [(r, q.worker)] }

def shutdown (q : ShuffleThread) : ShuffleThread := { q with shutdownFlag := true }

/-- `join`, up to the point where it waits. -/
def join (q : ShuffleThread) (timeoutSeconds : Option Seconds) : ShuffleThread :=
  if q.handle then
    let q := { q with handle := false }
    match timeoutSeconds with
    | none => { q with call := .blocking }
    | some seconds =>
        match fromSecsF64 seconds with
        | none => q.report .panic
        | some timeout => { q with call := .polling timeout 0 }
  else q.report (.joined true)

/-- `JoinHandle::join` on a worker that has finished. -/
def handleJoin (q : ShuffleThread) : ShuffleThread :=
  q.report (if q.worker = .panicked then .failedToJoin else .joined true)

def isAlive (q : ShuffleThread) : Bool := q.handle && !q.worker.isFinished

end ShuffleThread

inductive ThreadEvent where
  | shutdown
  | join (timeoutSeconds : Option Seconds)
  | stop (timeoutSeconds : Option Seconds)
  | isAlive
  | clock (elapsed : ℕ)
  | joined
  | finish
  | panic
deriving DecidableEq, Repr

open ShuffleThread in
inductive ThreadStep : ThreadEvent → ShuffleThread → ShuffleThread → Prop
  -- the calls
  | shutdown {q : ShuffleThread} : q.call = .idle →
      ThreadStep .shutdown q (q.shutdown.report .unit)
  | join {q : ShuffleThread} (timeoutSeconds : Option Seconds) : q.call = .idle →
      ThreadStep (.join timeoutSeconds) q (q.join timeoutSeconds)
  | stop {q : ShuffleThread} (timeoutSeconds : Option Seconds) : q.call = .idle →
      ThreadStep (.stop timeoutSeconds) q (q.shutdown.join timeoutSeconds)
  | isAlive {q : ShuffleThread} : q.call = .idle →
      ThreadStep .isAlive q (q.report (.isAlive q.isAlive))
  -- one round of the polling loop, with what `start.elapsed()` is then
  | expired {q : ShuffleThread} {timeout before : ℕ} (elapsed : ℕ) :
      q.call = .polling timeout before → before ≤ elapsed → timeout ≤ elapsed →
      ThreadStep (.clock elapsed) q (q.report (.joined false))
  | polled {q : ShuffleThread} {timeout before : ℕ} (elapsed : ℕ) :
      q.call = .polling timeout before → before ≤ elapsed → elapsed < timeout →
      ThreadStep (.clock elapsed) q
        (if q.worker.isFinished then q.handleJoin else { q with call := .polling timeout elapsed })
  -- a wait without a timeout
  | joined {q : ShuffleThread} : q.call = .blocking → q.worker.isFinished = true →
      ThreadStep .joined q q.handleJoin
  -- the worker
  | finish {q : ShuffleThread} : q.worker = .running →
      ThreadStep .finish q { q with worker := .finished }
  | panic {q : ShuffleThread} : q.worker = .running →
      ThreadStep .panic q { q with worker := .panicked }

/-! ## The property and where it holds -/

/-- A report says that the worker has finished only when it has. -/
def Report.Truthful (w : Worker) : Report → Prop
  | .joined true | .isAlive false => w ≠ .running
  | _ => True

def ShuffleThread.Truthful (q : ShuffleThread) : Prop := ∀ r ∈ q.reports, r.1.Truthful r.2

/-- While the worker runs, no wait reaches its deadline and none is begun with a
timeout that is not a duration. -/
def ThreadMeets (q : ShuffleThread) : ThreadEvent → Prop
  | .clock elapsed => ∀ timeout before, q.call = .polling timeout before → timeout ≤ elapsed →
      q.worker ≠ .running
  | .join (some seconds) | .stop (some seconds) =>
      q.handle = true → fromSecsF64 seconds = none → q.worker ≠ .running
  | _ => True

def ThreadReachable : ShuffleThread → Prop := Reach (· = {}) fun q q' => ∃ e, ThreadStep e q q'

def ThreadReachableMeeting : ShuffleThread → Prop :=
  Reach (· = {}) fun q q' => ∃ e, ThreadStep e q q' ∧ ThreadMeets q e

theorem ShuffleThread.Truthful.report {q : ShuffleThread} (h : q.Truthful) {r : Report}
    (hr : r.Truthful q.worker) : (q.report r).Truthful := by
  intro p hp
  rcases List.mem_append.mp hp with hp | hp
  · exact h p hp
  · rw [List.mem_singleton.mp hp]
    exact hr

theorem Worker.isFinished_iff {w : Worker} : w.isFinished = true ↔ w ≠ .running :=
  decide_eq_true_iff

/-- Between two calls the handle is there as long as the worker runs. -/
structure Held (q : ShuffleThread) : Prop where
  handle : q.worker = .running → q.call = .idle → q.handle = true
  truthful : q.Truthful

theorem Held.report {q : ShuffleThread} {r : Report} (h : q.Truthful)
    (hhandle : q.worker = .running → q.handle = true) (hr : r.Truthful q.worker) :
    Held (q.report r) :=
  ⟨fun hrun _ => hhandle hrun, h.report hr⟩

theorem Held.handleJoin {q : ShuffleThread} (h : q.Truthful) (hw : q.worker ≠ .running) :
    Held q.handleJoin := by
  refine Held.report h (fun hrun => absurd hrun hw) ?_
  split
  · trivial
  · exact hw

theorem Held.join {q : ShuffleThread} (h : Held q) (hidle : q.call = .idle)
    {timeoutSeconds : Option Seconds}
    (hvalid : ∀ seconds, timeoutSeconds = some seconds → q.handle = true →
      fromSecsF64 seconds = none → q.worker ≠ .running) : Held (q.join timeoutSeconds) := by
  unfold ShuffleThread.join
  by_cases hhandle : q.handle = true
  · rw [if_pos hhandle]
    cases timeoutSeconds with
    | none => exact ⟨nofun, h.truthful⟩
    | some seconds =>
        have hpanic := hvalid seconds rfl hhandle
        cases hduration : fromSecsF64 seconds with
        | none =>
            simp only [hduration]
            exact Held.report h.truthful (fun hrun => absurd hrun (hpanic hduration)) trivial
        | some timeout =>
            simp only [hduration]
            exact ⟨nofun, h.truthful⟩
  · -- without a handle the worker has finished
    have hw : q.worker ≠ .running := fun hrun => hhandle (h.handle hrun hidle)
    rw [if_neg hhandle]
    exact Held.report h.truthful (fun hrun => absurd hrun hw) hw

theorem Held.step {q q' : ShuffleThread} {e : ThreadEvent} (h : Held q) (hs : ThreadStep e q q')
    (hmeets : ThreadMeets q e) : Held q' := by
  cases hs with
  | shutdown hidle => exact Held.report h.truthful (fun hrun => h.handle hrun hidle) trivial
  | join timeoutSeconds hidle =>
      refine h.join hidle ?_
      rintro seconds rfl
      exact hmeets
  | stop timeoutSeconds hidle =>
      refine Held.join (q := q.shutdown) ⟨h.handle, h.truthful⟩ hidle ?_
      rintro seconds rfl
      exact hmeets
  | isAlive hidle =>
      refine Held.report h.truthful (fun hrun => h.handle hrun hidle) ?_
      cases halive : q.isAlive with
      | true => trivial
      | false =>
          intro hrun
          rw [ShuffleThread.isAlive, h.handle hrun hidle, hrun] at halive
          cases halive
  | expired elapsed hcall hbefore hexpired =>
      have hw := hmeets _ _ hcall hexpired
      exact Held.report h.truthful (fun hrun => absurd hrun hw) trivial
  | polled elapsed hcall hbefore hearly =>
      by_cases hw : q.worker.isFinished = true
      · rw [if_pos hw]
        exact Held.handleJoin h.truthful (Worker.isFinished_iff.mp hw)
      · rw [if_neg hw]
        exact ⟨nofun, h.truthful⟩
  | joined hcall hw => exact Held.handleJoin h.truthful (Worker.isFinished_iff.mp hw)
  | finish hrun => exact ⟨nofun, h.truthful⟩
  | panic hrun => exact ⟨nofun, h.truthful⟩

theorem held_of_meeting {q : ShuffleThread} (h : ThreadReachableMeeting q) : Held q := by
  refine Reach.invariant (I := Held) ?_ ?_ h
  · rintro q rfl
    exact ⟨fun _ _ => rfl, fun r hr => absurd hr List.not_mem_nil⟩
  · rintro q q' hq ⟨e, hs, hmeets⟩
    exact hq.step hs hmeets

/-! ## A handle that is lost -/

/-- A wait has taken the handle out of the object. -/
theorem handle_of_call {q : ShuffleThread} (h : ThreadReachable q) :
    q.call ≠ .idle → q.handle = false := by
  refine Reach.invariant (I := fun q : ShuffleThread => q.call ≠ .idle → q.handle = false) ?_ ?_ h
  · rintro q rfl hcall
    exact absurd rfl hcall
  · rintro q q' ih ⟨e, hs⟩ hcall
    have hjoin : ∀ (q : ShuffleThread) (timeoutSeconds : Option Seconds),
        (q.join timeoutSeconds).call ≠ .idle → (q.join timeoutSeconds).handle = false := by
      intro q timeoutSeconds hcall
      unfold ShuffleThread.join at hcall ⊢
      by_cases hhandle : q.handle = true
      · rw [if_pos hhandle]
        cases timeoutSeconds with
        | none => rfl
        | some seconds =>
            cases hduration : fromSecsF64 seconds <;> simp [hduration, ShuffleThread.report]
      · rw [if_neg hhandle] at hcall
        exact absurd rfl hcall
    cases hs with
    | join timeoutSeconds hidle => exact hjoin q _ hcall
    | stop timeoutSeconds hidle => exact hjoin q.shutdown _ hcall
    | polled elapsed hpolling hbefore hearly =>
        split at hcall
        · exact absurd rfl hcall
        · rename_i hw
          rw [if_neg hw]
          exact ih (by rw [hpolling]; nofun)
    | finish hrun | panic hrun => exact ih hcall
    | _ => exact absurd rfl hcall

/-- The worker runs and nobody has its handle. -/
structure Lost (q : ShuffleThread) : Prop where
  handle : q.handle = false
  call : q.call = .idle
  worker : q.worker = .running

theorem lost_of_violation {q q' : ShuffleThread} {e : ThreadEvent} (h : ThreadReachable q)
    (hs : ThreadStep e q q') (hnot : ¬ ThreadMeets q e) : Lost q' := by
  have hjoin : ∀ (q : ShuffleThread) (timeoutSeconds : Option Seconds), ∀ seconds,
      timeoutSeconds = some seconds → q.handle = true → fromSecsF64 seconds = none →
      q.worker = .running → Lost (q.join timeoutSeconds) := by
    rintro q _ seconds rfl hhandle hpanic hrun
    simp only [ShuffleThread.join, hhandle, if_true, hpanic]
    exact ⟨rfl, rfl, hrun⟩
  cases hs with
  | join timeoutSeconds hidle =>
      cases timeoutSeconds with
      | none => exact absurd trivial hnot
      | some seconds =>
          simp only [ThreadMeets, not_forall, not_not] at hnot
          rcases hnot with ⟨hhandle, hpanic, hrun⟩
          exact hjoin q _ seconds rfl hhandle hpanic hrun
  | stop timeoutSeconds hidle =>
      cases timeoutSeconds with
      | none => exact absurd trivial hnot
      | some seconds =>
          simp only [ThreadMeets, not_forall, not_not] at hnot
          rcases hnot with ⟨hhandle, hpanic, hrun⟩
          exact hjoin q.shutdown _ seconds rfl hhandle hpanic hrun
  | expired elapsed hcall hbefore hexpired =>
      simp only [ThreadMeets, not_forall, not_not] at hnot
      rcases hnot with ⟨-, -, -, -, hrun⟩
      have hhandle : q.handle = false := handle_of_call h (by rw [hcall]; nofun)
      exact ⟨hhandle, rfl, hrun⟩
  | polled elapsed hcall hbefore hearly =>
      simp only [ThreadMeets, not_forall, not_not] at hnot
      rcases hnot with ⟨timeout, before, hcall', hexpired, -⟩
      rw [hcall] at hcall'
      cases hcall'
      omega
  | _ => exact absurd trivial hnot

/-- What the next call of each kind reports then. -/
theorem Lost.untruthful {q : ShuffleThread} (h : Lost q) (timeoutSeconds : Option Seconds) :
    (∃ q', ThreadStep .isAlive q q' ∧ ¬ q'.Truthful) ∧
    (∃ q', ThreadStep (.join timeoutSeconds) q q' ∧ ¬ q'.Truthful) ∧
    ∃ q', ThreadStep (.stop timeoutSeconds) q q' ∧ ¬ q'.Truthful := by
  rcases h with ⟨hhandle, hidle, hrun⟩
  have hlie : ∀ (q' : ShuffleThread) (r : Report), (r, Worker.running) ∈ q'.reports →
      ¬ r.Truthful .running → ¬ q'.Truthful :=
    fun q' r hmem hfalse htruthful => hfalse (htruthful _ hmem)
  refine ⟨⟨_, .isAlive hidle, ?_⟩, ⟨_, .join timeoutSeconds hidle, ?_⟩,
    ⟨_, .stop timeoutSeconds hidle, ?_⟩⟩
  · refine hlie _ (.isAlive false) ?_ (fun h => h rfl)
    simp [ShuffleThread.report, ShuffleThread.isAlive, hhandle, hrun]
  · refine hlie _ (.joined true) ?_ (fun h => h rfl)
    simp [ShuffleThread.join, ShuffleThread.report, hhandle, hrun]
  · refine hlie _ (.joined true) ?_ (fun h => h rfl)
    simp [ShuffleThread.join, ShuffleThread.shutdown, ShuffleThread.report, hhandle, hrun]

/-- **The reports are truthful** in every run in which no wait reaches its
deadline, and none is begun with a timeout that is not a duration, while the
worker runs; between two calls the handle is still there then, so the next wait
waits for the same worker. A step that breaks the condition loses the handle: the
next call reports a worker as finished that runs. -/
theorem truthful_of_meeting (q : ShuffleThread) :
    (ThreadReachableMeeting q →
      q.Truthful ∧ (q.worker = .running → q.call = .idle → q.handle = true)) ∧
    ∀ (q' : ShuffleThread) (e : ThreadEvent), ThreadReachable q → ThreadStep e q q' →
      ¬ ThreadMeets q e → ∀ timeoutSeconds,
        (∃ q'', ThreadStep .isAlive q' q'' ∧ ¬ q''.Truthful) ∧
        (∃ q'', ThreadStep (.join timeoutSeconds) q' q'' ∧ ¬ q''.Truthful) ∧
        ∃ q'', ThreadStep (.stop timeoutSeconds) q' q'' ∧ ¬ q''.Truthful := by
  constructor
  · intro h
    have hheld := held_of_meeting h
    exact ⟨hheld.truthful, hheld.handle⟩
  · intro q' e h hs hnot timeoutSeconds
    exact (lost_of_violation h hs hnot).untruthful timeoutSeconds

/-- The worker finishes while `stop` waits for it. -/
theorem truthful_of_meeting_stopped :
    ∃ q : ShuffleThread, ThreadReachableMeeting q ∧ q.reports = [(.joined true, .finished)] ∧
      q.Truthful := by
  have h1 : ThreadReachableMeeting { handle := false, shutdownFlag := true, call := .blocking } :=
    .next (.start rfl) ⟨_, .stop none rfl, trivial⟩
  have h2 := Reach.next h1 ⟨_, .finish rfl, trivial⟩
  have h3 := Reach.next h2 ⟨_, .joined rfl rfl, trivial⟩
  exact ⟨_, h3, rfl, ((truthful_of_meeting _).1 h3).1⟩

/-- A wait of ten milliseconds for a worker that runs. -/
def givenUp : ShuffleThread where
  handle := false
  reports := [(.joined false, .running)]

/-- After it the worker is reported as dead and as joined. -/
theorem not_truthful_givenUp :
    ∃ q, ThreadReachable q ∧ ¬ q.Truthful ∧ q.worker = .running ∧
      q.reports.map Prod.fst = [.joined false, .isAlive false, .joined true] := by
  have hduration : fromSecsF64 (some (1 / 100)) = some 10000000 := by decide +kernel
  have h1 : ThreadReachable { handle := false, call := .polling 10000000 0 } := by
    refine .next (.start rfl) ⟨.join (some (some (1 / 100))), ?_⟩
    have hs := ThreadStep.join (q := {}) (some (some (1 / 100))) rfl
    simpa only [ShuffleThread.join, hduration, if_true] using hs
  have h2 : ThreadReachable givenUp := .next h1 ⟨_, .expired 10000000 rfl (by decide) (by decide)⟩
  have h3 := Reach.next h2 ⟨_, .isAlive rfl⟩
  have h4 := Reach.next h3 ⟨_, .join none rfl⟩
  refine ⟨_, h4, ?_, rfl, rfl⟩
  intro htruthful
  exact htruthful (.isAlive false, .running) (by decide) rfl

end P2PRdt.Data

import P2PRdt.Lib.Reach
import Mathlib.Data.Nat.Notation

/-!
# One connection of the inference server

`InferenceServer._infer_video` for one client: the coroutine that reads the
frames, the torch thread of `_handle_requests`, and the output loop, with the
two queues between them. Each step is what one of the three does between two
points where another one can run. An action is named by its frame.

`None` in the input queue tells the torch thread to go, and `None` in the
output queue tells the output loop. Only the `finally` of the output loop puts
the first one, so a reader that ends on its own tells nobody.
-/

namespace P2PRdt.Inference

open Lib

variable {φ : Type}

/-- The task of `_process_request_iterator`. -/
inductive Reader where
  | iterating
  | ended
deriving DecidableEq, Repr

/-- The torch thread: the head of `while self.running`, the `get` with its
timeout, the inner loop that drops old frames, and `get_action`. -/
inductive Handler (φ : Type) where
  | notStarted
  | loopTop
  | waiting
  | draining (inp : φ)
  | processing (inp : φ)
  | exited
deriving DecidableEq, Repr

/-- The generator: the head of its loop, the `get` with its timeout, an action
at the client's writer, the way to its `finally`, and the end. -/
inductive Output (φ : Type) where
  | loopTop
  | waiting
  | yielded (action : φ)
  | closing
  | finished
deriving DecidableEq, Repr

/-- `callbacks` are the calls that `call_soon_threadsafe` has scheduled.
`iteratorEnded` and `sentinelPut` are histories. -/
structure Connection (φ : Type) where
  running : Bool := true
  shutdownEvent : Bool := false
  reader : Reader := .iterating
  inQueue : List (Option φ) := []
  handler : Handler φ := .notStarted
  callbacks : List (Option φ) := []
  outQueue : List (Option φ) := []
  output : Output φ := .loopTop
  iteratorEnded : Bool := false
  sentinelPut : Bool := false
deriving DecidableEq, Repr

/-- What the torch thread does with `m`, which it has taken off the queue. -/
def Connection.take (q : Connection φ) (m : Option φ) (rest : List (Option φ)) : Connection φ :=
  match m with
  | none => { q with inQueue := rest, callbacks := q.callbacks ++ [none], handler := .exited }
  | some inp => { q with inQueue := rest, handler := .draining inp }

inductive Event (φ : Type) where
  | frame (f : φ)
  | badFrame
  | disconnected
  | parseError
  | handler
  | callback
  | output
  | writeFailed
  | shutdown
deriving DecidableEq, Repr

inductive Step : Event φ → Connection φ → Connection φ → Prop
  -- the reader
  | frame {q : Connection φ} (f : φ) : q.reader = .iterating →
      Step (.frame f) q
        (if q.shutdownEvent || !q.running then { q with reader := .ended }
          else { q with inQueue := q.inQueue ++ [some f] })
  | badFrame {q : Connection φ} : q.reader = .iterating → q.running = true →
      q.shutdownEvent = false → Step .badFrame q { q with reader := .ended }
  | disconnected {q : Connection φ} : q.reader = .iterating →
      Step .disconnected q { q with reader := .ended, iteratorEnded := true }
  | parseError {q : Connection φ} : q.reader = .iterating →
      Step .parseError q { q with reader := .ended, iteratorEnded := true }
  -- the torch thread
  | start {q : Connection φ} : q.handler = .notStarted →
      Step .handler q { q with handler := .loopTop }
  | handlerTop {q : Connection φ} : q.handler = .loopTop →
      Step .handler q { q with handler := if q.running then .waiting else .exited }
  | get {q : Connection φ} {m : Option φ} {rest : List (Option φ)} : q.handler = .waiting →
      q.inQueue = m :: rest → Step .handler q (q.take m rest)
  | getEmpty {q : Connection φ} : q.handler = .waiting → q.inQueue = [] →
      Step .handler q { q with handler := .loopTop }
  | getNowait {q : Connection φ} {inp : φ} {m : Option φ} {rest : List (Option φ)} :
      q.handler = .draining inp → q.inQueue = m :: rest → Step .handler q (q.take m rest)
  | newest {q : Connection φ} {inp : φ} : q.handler = .draining inp → q.inQueue = [] →
      Step .handler q { q with handler := .processing inp }
  | action {q : Connection φ} {inp : φ} : q.handler = .processing inp →
      Step .handler q { q with handler := .loopTop, callbacks := q.callbacks ++ [some inp] }
  | actionError {q : Connection φ} {inp : φ} : q.handler = .processing inp →
      Step .handler q { q with handler := .loopTop }
  -- the event loop and the generator
  | callback {q : Connection φ} {m : Option φ} {rest : List (Option φ)} :
      q.callbacks = m :: rest →
      Step .callback q { q with callbacks := rest, outQueue := q.outQueue ++ [m] }
  | outputTop {q : Connection φ} : q.output = .loopTop →
      Step .output q
        { q with output := if q.running && !q.shutdownEvent then .waiting else .closing }
  | outputGet {q : Connection φ} {action : φ} {rest : List (Option φ)} : q.output = .waiting →
      q.outQueue = some action :: rest →
      Step .output q { q with outQueue := rest, output := .yielded action }
  | outputNone {q : Connection φ} {rest : List (Option φ)} : q.output = .waiting →
      q.outQueue = none :: rest → Step .output q { q with outQueue := rest, output := .closing }
  | outputEmpty {q : Connection φ} : q.output = .waiting → q.outQueue = [] →
      Step .output q { q with output := .loopTop }
  | written {q : Connection φ} {action : φ} : q.output = .yielded action →
      q.shutdownEvent = false → Step .output q { q with output := .loopTop }
  | refused {q : Connection φ} {action : φ} : q.output = .yielded action →
      Step .writeFailed q { q with output := .closing }
  -- the `finally`: a thread that has not started is cancelled with its task
  | close {q : Connection φ} : q.output = .closing →
      Step .output q
        { q with
          reader := .ended
          handler := if q.handler matches .notStarted then .exited else q.handler
          inQueue := q.inQueue ++ [none]
          output := .finished
          sentinelPut := true }
  | shutdown {q : Connection φ} :
      Step .shutdown q { q with running := false, shutdownEvent := true }

/-! ## The property and where it holds -/

/-- Both loops go on waiting for something that nobody will send. -/
structure Stuck (q : Connection φ) : Prop where
  running : q.running = true
  reader : q.reader = .ended
  inQueue : q.inQueue = []
  callbacks : q.callbacks = []
  outQueue : q.outQueue = []
  handler : q.handler = .loopTop ∨ q.handler = .waiting
  output : q.output = .loopTop ∨ q.output = .waiting

/-- A reader that has come to its end has told the torch thread. -/
structure Released (q : Connection φ) : Prop where
  sentinel : q.iteratorEnded = true → q.running = true → q.sentinelPut = true
  not_stuck : ¬ Stuck q

/-- The reader ends on its own only when the server does not run any more. -/
def Meets (q : Connection φ) : Event φ → Prop
  | .disconnected | .parseError | .badFrame => q.running = false
  | _ => True

/-- All runs of a connection, and those whose steps all meet the condition. -/
def Reachable : Connection φ → Prop :=
  Reach (· = {}) fun q q' => ∃ e, Step e q q'

def ReachableMeeting : Connection φ → Prop :=
  Reach (· = {}) fun q q' => ∃ e, Step e q q' ∧ Meets q e

/-- In such runs the reader is only ended by the `finally` or by the shutdown. -/
structure Ended (q : Connection φ) : Prop where
  shutdown : q.shutdownEvent = true → q.running = false
  reader : q.reader = .ended → q.running = true → q.output = .finished
  iterator : q.iteratorEnded = true → q.running = false

theorem Ended.congr {q q' : Connection φ} (h : Ended q) (hrun : q'.running = q.running)
    (hshut : q'.shutdownEvent = q.shutdownEvent) (hreader : q'.reader = q.reader)
    (hout : q'.output = q.output ∨ q.output ≠ .finished)
    (hend : q'.iteratorEnded = q.iteratorEnded) : Ended q' := by
  refine ⟨fun hs => ?_, fun hr hr' => ?_, fun hi => ?_⟩
  · rw [hrun]
    exact h.shutdown (hshut ▸ hs)
  · rw [hreader] at hr
    rw [hrun] at hr'
    rcases hout with hout | hout
    · exact hout.trans (h.reader hr hr')
    · exact absurd (h.reader hr hr') hout
  · rw [hrun]
    exact h.iterator (hend ▸ hi)

theorem Ended.take {q : Connection φ} (h : Ended q) (m : Option φ) (rest : List (Option φ)) :
    Ended (q.take m rest) := by
  cases m with
  | none => exact h.congr rfl rfl rfl (.inl rfl) rfl
  | some inp => exact h.congr rfl rfl rfl (.inl rfl) rfl

theorem Ended.step {q q' : Connection φ} {e : Event φ} (h : Ended q) (hs : Step e q q')
    (hmeets : Meets q e) : Ended q' := by
  cases hs with
  | frame f hr =>
      by_cases hstop : (q.shutdownEvent || !q.running) = true
      · have hrun : q.running = false := by
          rcases Bool.or_eq_true_iff.mp hstop with hs | hr
          · exact h.shutdown hs
          · simpa using hr
        rw [if_pos hstop]
        exact ⟨h.shutdown, fun _ hr' => absurd hr' (by simp [hrun]), h.iterator⟩
      · rw [if_neg hstop]
        exact h.congr rfl rfl rfl (.inl rfl) rfl
  | badFrame hr hrun hshut =>
      have hfalse : q.running = false := hmeets
      rw [hrun] at hfalse
      cases hfalse
  | disconnected hr =>
      have hfalse : q.running = false := hmeets
      exact ⟨h.shutdown, fun _ hr' => absurd hr' (by simp [hfalse]), fun _ => hfalse⟩
  | parseError hr =>
      have hfalse : q.running = false := hmeets
      exact ⟨h.shutdown, fun _ hr' => absurd hr' (by simp [hfalse]), fun _ => hfalse⟩
  | start | handlerTop | getEmpty | newest | action | actionError | callback =>
      exact h.congr rfl rfl rfl (.inl rfl) rfl
  | get hh hq => exact h.take _ _
  | getNowait hh hq => exact h.take _ _
  | outputTop ho => exact h.congr rfl rfl rfl (.inr (by rw [ho]; nofun)) rfl
  | outputGet ho hq => exact h.congr rfl rfl rfl (.inr (by rw [ho]; nofun)) rfl
  | outputNone ho hq => exact h.congr rfl rfl rfl (.inr (by rw [ho]; nofun)) rfl
  | outputEmpty ho hq => exact h.congr rfl rfl rfl (.inr (by rw [ho]; nofun)) rfl
  | written ho hshut => exact h.congr rfl rfl rfl (.inr (by rw [ho]; nofun)) rfl
  | refused ho => exact h.congr rfl rfl rfl (.inr (by rw [ho]; nofun)) rfl
  | close ho => exact ⟨h.shutdown, fun _ _ => rfl, h.iterator⟩
  | shutdown => exact ⟨fun _ => rfl, fun _ hr' => absurd hr' nofun, fun _ => rfl⟩

theorem Ended.released {q : Connection φ} (h : Ended q) : Released q := by
  refine ⟨fun hi hr => ?_, fun hstuck => ?_⟩
  · rw [h.iterator hi] at hr
    cases hr
  · have hout := h.reader hstuck.reader hstuck.running
    rcases hstuck.output with ho | ho
    · rw [ho] at hout
      cases hout
    · rw [ho] at hout
      cases hout

/-- The `finally` cancels the reader before it puts the sentinel. -/
theorem reader_ended_of_sentinel {q : Connection φ} (h : Reachable q)
    (hput : q.sentinelPut = true) : q.reader = .ended := by
  revert hput
  refine Reach.invariant (I := fun q => q.sentinelPut = true → q.reader = .ended) ?_ ?_ h
  · rintro q rfl hput
    cases hput
  · rintro q q' ih ⟨e, hs⟩ hput
    cases hs with
    | frame f hr =>
        split at hput <;> rw [ih hput] at hr <;> cases hr
    | badFrame | disconnected | parseError | close => rfl
    | get hh hq | getNowait hh hq =>
        rename_i m rest
        cases m <;> exact ih hput
    | _ => exact ih hput

/-- **A disconnected client releases its handler**: in every run in which the
reader ends on its own only after the shutdown. A client that disconnects
while the server is running, or sends a frame that does not parse, leaves a
state without the sentinel. -/
theorem released_of_meeting :
    (∀ q : Connection φ, ReachableMeeting q → Released q) ∧
    ∀ (q q' : Connection φ) (e : Event φ), Reachable q → Step e q q' →
      e = .disconnected ∨ e = .parseError → ¬ Meets q e → ¬ Released q' := by
  constructor
  · intro q h
    have hended : Ended q := by
      refine Reach.invariant (I := Ended) ?_ ?_ h
      · rintro q rfl
        exact ⟨nofun, nofun, nofun⟩
      · rintro q q' hq ⟨e, hs, hmeets⟩
        exact hq.step hs hmeets
    exact hended.released
  · intro q q' e h hs he hnot hreleased
    -- while the reader iterates the sentinel has not been put
    have hlate : q.sentinelPut = true → q.reader ≠ .iterating := by
      intro hput hr
      rw [reader_ended_of_sentinel h hput] at hr
      cases hr
    have hrun : q.running = true := by
      rcases he with rfl | rfl <;> exact (Bool.not_eq_false _).mp hnot
    rcases he with rfl | rfl
    · cases hs with
      | disconnected hr => exact hlate (hreleased.sentinel rfl hrun) hr
    · cases hs with
      | parseError hr => exact hlate (hreleased.sentinel rfl hrun) hr

/-- A frame is answered, and the `finally` runs after the client has refused the
action. -/
theorem released_of_meeting_oneFrame : ∃ q q' : Connection ℕ,
    ReachableMeeting q ∧ q.output = .yielded 7 ∧ Released q ∧
      ReachableMeeting q' ∧ q'.sentinelPut = true ∧ Released q' := by
  have hstart : ReachableMeeting ({} : Connection ℕ) := .start rfl
  have hframe := hstart.next ⟨_, .frame 7 rfl, trivial⟩
  have hstarted := hframe.next ⟨_, .start rfl, trivial⟩
  have hwaiting := hstarted.next ⟨_, .handlerTop rfl, trivial⟩
  have htaken := hwaiting.next ⟨_, .get rfl rfl, trivial⟩
  have hnewest := htaken.next ⟨_, .newest rfl rfl, trivial⟩
  have hacted := hnewest.next ⟨_, .action rfl, trivial⟩
  have hqueued := hacted.next ⟨_, .callback rfl, trivial⟩
  have houtput := hqueued.next ⟨_, .outputTop rfl, trivial⟩
  have hyielded := houtput.next ⟨_, .outputGet rfl rfl, trivial⟩
  have hrefused := hyielded.next ⟨_, .refused rfl, trivial⟩
  have hclosed := hrefused.next ⟨_, .close rfl, trivial⟩
  exact ⟨_, _, hyielded, rfl, released_of_meeting.1 _ hyielded, hclosed, rfl,
    released_of_meeting.1 _ hclosed⟩

/-! ## A client that goes away -/

/-- The two flags of the shutdown change together. -/
theorem shutdownEvent_of_running {q : Connection φ} (h : Reachable q) (hrun : q.running = true) :
    q.shutdownEvent = false := by
  revert hrun
  refine Reach.invariant (I := fun q => q.running = true → q.shutdownEvent = false) ?_ ?_ h
  · rintro q rfl hrun
    rfl
  · rintro q q' ih ⟨e, hs⟩ hrun
    cases hs with
    | frame f hr =>
        split at hrun
        · rename_i hstop
          simp only [hstop, if_true]
          exact ih hrun
        · rename_i hstop
          simp only [hstop]
          exact ih hrun
    | get hh hq | getNowait hh hq =>
        rename_i m rest
        cases m <;> exact ih hrun
    | shutdown => cases hrun
    | _ => exact ih hrun

/-- Nothing but the shutdown of the server ends the waiting. -/
theorem Stuck.step {q q' : Connection φ} {e : Event φ} (h : Stuck q)
    (hshut : q.shutdownEvent = false) (hs : Step e q q') (hne : e ≠ .shutdown) :
    Stuck q' ∧ q'.shutdownEvent = false := by
  rcases h with ⟨hrun, hreader, hin, hcalls, hout, hhandler, houtput⟩
  cases hs with
  | frame f hr => rw [hreader] at hr; cases hr
  | badFrame hr | disconnected hr | parseError hr => rw [hreader] at hr; cases hr
  -- the torch thread goes round with its timeout
  | handlerTop hh =>
      refine ⟨⟨hrun, hreader, hin, hcalls, hout, .inr ?_, houtput⟩, hshut⟩
      simp [hrun]
  | getEmpty hh hq => exact ⟨⟨hrun, hreader, hin, hcalls, hout, .inl rfl, houtput⟩, hshut⟩
  | get hh hq => rw [hin] at hq; cases hq
  | start hh | getNowait hh hq | newest hh hq | action hh | actionError hh =>
      rcases hhandler with h | h <;> rw [h] at hh <;> cases hh
  | callback hq => rw [hcalls] at hq; cases hq
  -- and so does the output loop
  | outputTop ho =>
      refine ⟨⟨hrun, hreader, hin, hcalls, hout, hhandler, .inr ?_⟩, hshut⟩
      simp [hrun, hshut]
  | outputEmpty ho hq => exact ⟨⟨hrun, hreader, hin, hcalls, hout, hhandler, .inl rfl⟩, hshut⟩
  | outputGet ho hq | outputNone ho hq => rw [hout] at hq; cases hq
  | written ho hs | refused ho | close ho =>
      rcases houtput with h | h <;> rw [h] at ho <;> cases ho
  | shutdown => exact absurd rfl hne

theorem Stuck.run {q q' : Connection φ} (hq : Reachable q) (h : Stuck q)
    (hrun : Reach (· = q) (fun a b => ∃ e, Step e a b ∧ e ≠ .shutdown) q') : Stuck q' := by
  have hboth : Stuck q' ∧ q'.shutdownEvent = false := by
    refine Reach.invariant (I := fun q => Stuck q ∧ q.shutdownEvent = false) ?_ ?_ hrun
    · rintro q' rfl
      exact ⟨h, shutdownEvent_of_running hq h.running⟩
    · rintro a b ⟨ha, hshut⟩ ⟨e, hs, hne⟩
      exact ha.step hshut hs hne
  exact hboth.1

/-- The client connects and goes away without a frame. -/
def goneAway : Connection ℕ where
  reader := .ended
  handler := .waiting
  output := .waiting
  iteratorEnded := true

theorem goneAway_stuck : Reachable goneAway ∧ Stuck goneAway ∧ ¬ Released goneAway := by
  have hstuck : Stuck goneAway := ⟨rfl, rfl, rfl, rfl, rfl, .inr rfl, .inr rfl⟩
  refine ⟨?_, hstuck, fun h => h.not_stuck hstuck⟩
  have h0 : Reachable ({} : Connection ℕ) := .start rfl
  have h1 : Reachable ({ handler := .loopTop } : Connection ℕ) := .next h0 ⟨_, .start rfl⟩
  have h2 : Reachable ({ handler := .waiting } : Connection ℕ) := .next h1 ⟨_, .handlerTop rfl⟩
  have h3 : Reachable ({ handler := .waiting, output := .waiting } : Connection ℕ) :=
    .next h2 ⟨_, .outputTop rfl⟩
  exact .next h3 ⟨_, .disconnected rfl⟩

end P2PRdt.Inference

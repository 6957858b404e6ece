import P2PRdt.Inference.Connection
import Mathlib.Data.List.Nodup
import Mathlib.Data.List.ReduceOption
import Mathlib.Data.List.Infix

/-!
# What becomes of a frame

The drain loop of `_handle_requests` drops every frame but the newest, and the
frames that it has in hand when it meets the sentinel. The histories here record
what a step of the connection does to a frame: every queued frame is passed on as
an action, superseded, lost to an exception or drained with the sentinel, the
actions leave in the order of the frames, and the sentinel is the last thing that
is passed on.

The code's own sentinel comes from the `finally` of the output loop. One that
comes while the output loop still runs is allowed as well.
-/

namespace P2PRdt.Inference

open Lib

variable {φ : Type}

/-! ## Histories -/

/-- `superseded` pairs a dropped frame with the one that was taken in its place.
`passedOn` are the calls of `out_callback`. `foreignSentinel` is set by a sentinel
that does not come from the `finally`. -/
structure History (φ : Type) where
  queued : List φ := []
  superseded : List (φ × φ) := []
  raised : List φ := []
  drained : List φ := []
  passedOn : List (Option φ) := []
  yielded : List φ := []
  foreignSentinel : Bool := false

/-- What the step of `e` from `q` to `q'` adds. -/
def History.after (h : History φ) (q : Connection φ) (e : Event φ) (q' : Connection φ) :
    History φ :=
  match e with
  | .frame f =>
      if q.shutdownEvent || !q.running then h else { h with queued := h.queued ++ [f] }
  | .handler =>
      match q.handler, q.inQueue with
      | .waiting, none :: _ => { h with passedOn := h.passedOn ++ [none] }
      | .draining old, some new :: _ => { h with superseded := h.superseded ++ [(old, new)] }
      | .draining inp, none :: _ =>
          { h with drained := h.drained ++ [inp], passedOn := h.passedOn ++ [none] }
      -- an exception leaves no call behind
      | .processing inp, _ =>
          if q'.callbacks.length = q.callbacks.length then { h with raised := h.raised ++ [inp] }
          else { h with passedOn := h.passedOn ++ [some inp] }
      | _, _ => h
  | .output =>
      match q.output, q.outQueue with
      | .waiting, some action :: _ => { h with yielded := h.yielded ++ [action] }
      | _, _ => h
  | _ => h

/-- A step of the connection with its histories, or a final sentinel from
elsewhere. -/
inductive Observe : Connection φ × History φ → Connection φ × History φ → Prop
  | step {q q' : Connection φ} {h : History φ} (e : Event φ) : Step e q q' →
      Observe (q, h) (q', h.after q e q')
  | sentinel {q : Connection φ} {h : History φ} :
      Observe (q, h)
        ({ q with inQueue := q.inQueue ++ [none], reader := .ended },
          { h with foreignSentinel := true })

/-- All runs with their histories. -/
def ReachableObserved : Connection φ × History φ → Prop := Reach (· = ({}, {})) Observe

/-! ## Consumed frames -/

/-- The frame that the torch thread has in hand. -/
def Handler.held : Handler φ → List φ
  | .draining inp | .processing inp => [inp]
  | _ => []

/-- Superseded by a newer frame. -/
def History.Superseded (h : History φ) (f : φ) : Prop :=
  ∃ new, (f, new) ∈ h.superseded ∧ [f, new].Sublist h.queued

/-- What became of a frame that has been consumed. -/
def History.Fate (h : History φ) (f : φ) : Prop :=
  some f ∈ h.passedOn ∨ h.Superseded f ∨ f ∈ h.raised ∨ f ∈ h.drained

/-- The queued frames are those that have been consumed, the one in hand and those
in the queue, in this order. -/
structure Consumed (q : Connection φ) (h : History φ) (done : List φ) : Prop where
  queued : h.queued = done ++ (q.handler.held ++ q.inQueue.reduceOption)
  passedOn : h.passedOn.reduceOption.Sublist done
  fate : ∀ f ∈ done, h.Fate f

theorem History.Superseded.mono {h h' : History φ} {f : φ} (hf : h.Superseded f)
    (hpairs : h.superseded ⊆ h'.superseded) (hqueued : h.queued.Sublist h'.queued) :
    h'.Superseded f := by
  rcases hf with ⟨new, hpair, hnew⟩
  exact ⟨new, hpairs hpair, hnew.trans hqueued⟩

/-- A step adds to the histories. -/
structure History.Extends (h h' : History φ) : Prop where
  queued : h.queued.Sublist h'.queued
  superseded : h.superseded ⊆ h'.superseded
  raised : h.raised ⊆ h'.raised
  drained : h.drained ⊆ h'.drained
  passedOn : h.passedOn ⊆ h'.passedOn

theorem History.Fate.mono {h h' : History φ} {f : φ} (hf : h.Fate f) (hext : h.Extends h') :
    h'.Fate f := by
  rcases hf with hpassed | hsuper | hraised | hdrained
  · exact .inl (hext.passedOn hpassed)
  · exact .inr (.inl (hsuper.mono hext.superseded hext.queued))
  · exact .inr (.inr (.inl (hext.raised hraised)))
  · exact .inr (.inr (.inr (hext.drained hdrained)))

theorem History.Extends.refl (h : History φ) : h.Extends h :=
  ⟨List.Sublist.refl _, List.Subset.refl _, List.Subset.refl _, List.Subset.refl _,
    List.Subset.refl _⟩

theorem History.extends_after (h : History φ) (q : Connection φ) (e : Event φ)
    (q' : Connection φ) : h.Extends (h.after q e q') := by
  unfold after
  split
  · split
    · exact .refl h
    · exact { History.Extends.refl h with queued := List.sublist_append_left _ _ }
  · split
    · exact { History.Extends.refl h with passedOn := List.subset_append_left _ _ }
    · exact { History.Extends.refl h with superseded := List.subset_append_left _ _ }
    · exact { History.Extends.refl h with
        drained := List.subset_append_left _ _, passedOn := List.subset_append_left _ _ }
    · split
      · exact { History.Extends.refl h with raised := List.subset_append_left _ _ }
      · exact { History.Extends.refl h with passedOn := List.subset_append_left _ _ }
    · exact .refl h
  · split
    · exact { History.Extends.refl h with }
    · exact .refl h
  · exact .refl h

/-- One more frame has been consumed. -/
theorem Consumed.push {q q' : Connection φ} {h h' : History φ} {done : List φ} {f : φ}
    (hc : Consumed q h done) (hext : h.Extends h')
    (hqueued : h'.queued = done ++ [f] ++ (q'.handler.held ++ q'.inQueue.reduceOption))
    (hpassed : h'.passedOn.reduceOption.Sublist (done ++ [f])) (hfate : h'.Fate f) :
    Consumed q' h' (done ++ [f]) := by
  refine ⟨hqueued, hpassed, ?_⟩
  intro f' hf'
  rcases List.mem_append.mp hf' with hf' | hf'
  · exact (hc.fate f' hf').mono hext
  · rw [List.mem_singleton.mp hf']
    exact hfate

/-- Nothing happens to a frame. -/
theorem Consumed.same {q q' : Connection φ} {h h' : History φ} {done : List φ}
    (hc : Consumed q h done) (hext : h.Extends h') (hqueued : h'.queued = h.queued)
    (hpassed : h'.passedOn.reduceOption = h.passedOn.reduceOption)
    (hrest : q'.handler.held ++ q'.inQueue.reduceOption =
      q.handler.held ++ q.inQueue.reduceOption) : Consumed q' h' done := by
  refine ⟨?_, hpassed ▸ hc.passedOn, fun f hf => (hc.fate f hf).mono hext⟩
  rw [hqueued, hc.queued, hrest]

theorem Consumed.step {q q' : Connection φ} {e : Event φ} {h : History φ} {done : List φ}
    (hc : Consumed q h done) (hs : Step e q q') : ∃ done', Consumed q' (h.after q e q') done' := by
  have hext := h.extends_after q e q'
  cases hs with
  | frame f hr =>
      by_cases hstop : (q.shutdownEvent || !q.running) = true
      · exact ⟨done, hc.same hext (by simp [History.after, hstop]) (by simp [History.after, hstop])
          (by simp [hstop])⟩
      · refine ⟨done, ?_, ?_, fun f' hf' => (hc.fate f' hf').mono hext⟩
        · simp [History.after, hstop, hc.queued, List.reduceOption_append]
        · simpa [History.after, hstop] using hc.passedOn
  | get hh hq =>
      rename_i m rest
      cases m with
      | none =>
          exact ⟨done, hc.same hext (by simp [History.after, hh, hq])
            (by simp [History.after, hh, hq, List.reduceOption_append])
            (by simp [Connection.take, Handler.held, hh, hq])⟩
      | some inp =>
          exact ⟨done, hc.same hext (by simp [History.after, hh, hq])
            (by simp [History.after, hh, hq])
            (by simp [Connection.take, Handler.held, hh, hq])⟩
  | getNowait hh hq =>
      rename_i old m rest
      have hqueued := hc.queued
      rw [hh, hq] at hqueued
      refine ⟨done ++ [old], ?_⟩
      cases m with
      | none =>
          refine hc.push hext ?_ ?_ (.inr (.inr (.inr ?_)))
          · simp [History.after, hh, hq, hqueued, Connection.take, Handler.held]
          · have hsub := hc.passedOn.trans (List.sublist_append_left done [old])
            simpa [History.after, hh, hq, List.reduceOption_append] using hsub
          · simp [History.after, hh, hq]
      | some new =>
          refine hc.push hext ?_ ?_ (.inr (.inl ⟨new, ?_, ?_⟩))
          · simp [History.after, hh, hq, hqueued, Connection.take, Handler.held]
          · have hsub := hc.passedOn.trans (List.sublist_append_left done [old])
            simpa [History.after, hh, hq] using hsub
          · simp [History.after, hh, hq]
          · -- the newer frame stands right behind the old one
            simp [History.after, hh, hq, hqueued, Handler.held]
  | newest hh hq =>
      exact ⟨done, hc.same hext (by simp [History.after, hh, hq]) (by simp [History.after, hh, hq])
        (by simp [Handler.held, hh])⟩
  | action hh =>
      rename_i inp
      have hqueued := hc.queued
      rw [hh] at hqueued
      refine ⟨done ++ [inp], hc.push hext ?_ ?_ (.inl ?_)⟩
      · simp [History.after, hh, hqueued, Handler.held]
      · have hsub := hc.passedOn.append (List.Sublist.refl [inp])
        simpa [History.after, hh, List.reduceOption_append] using hsub
      · simp [History.after, hh]
  | actionError hh =>
      rename_i inp
      have hqueued := hc.queued
      rw [hh] at hqueued
      refine ⟨done ++ [inp], hc.push hext ?_ ?_ (.inr (.inr (.inl ?_)))⟩
      · simp [History.after, hh, hqueued, Handler.held]
      · have hsub := hc.passedOn.trans (List.sublist_append_left done [inp])
        simpa [History.after, hh] using hsub
      · simp [History.after, hh]
  | outputGet ho hq =>
      exact ⟨done, hc.same hext (by simp [History.after, ho, hq]) (by simp [History.after, ho, hq])
        rfl⟩
  | outputTop ho | outputNone ho | outputEmpty ho | written ho =>
      exact ⟨done, hc.same hext (by simp [History.after, *]) (by simp [History.after, *]) rfl⟩
  | close ho =>
      refine ⟨done, hc.same hext (by simp [History.after, ho]) (by simp [History.after, ho]) ?_⟩
      cases q.handler <;> simp [Handler.held, List.reduceOption_append]
  | handlerTop hh =>
      refine ⟨done, hc.same hext (by simp [History.after, hh]) (by simp [History.after, hh]) ?_⟩
      cases q.running <;> simp [Handler.held, hh]
  | start hh | getEmpty hh =>
      refine ⟨done, hc.same hext (by simp [History.after, *]) (by simp [History.after, *]) ?_⟩
      simp [Handler.held, hh]
  | _ => exact ⟨done, hc.same hext rfl rfl rfl⟩

theorem consumed_of_reachable {q : Connection φ} {h : History φ}
    (hrun : ReachableObserved (q, h)) : ∃ done, Consumed q h done := by
  refine Reach.invariant (I := fun s : Connection φ × History φ => ∃ done, Consumed s.1 s.2 done)
    ?_ ?_ hrun
  · rintro _ rfl
    exact ⟨[], rfl, List.Sublist.refl _, fun f hf => absurd hf List.not_mem_nil⟩
  · rintro _ _ ⟨done, hc⟩ hobs
    cases hobs with
    | step e hs => exact hc.step hs
    | sentinel =>
        exact ⟨done, hc.same (by constructor <;> simp) rfl rfl (by simp [List.reduceOption_append])⟩

/-! ## The way to the output loop -/

/-- The output loop is on its way out. -/
def Output.Closed (o : Output φ) : Prop := o = .closing ∨ o = .finished

/-- What has been passed on is what has been yielded, the sentinel if the output
loop has taken it, and what the two queues hold. -/
def Forwarded (q : Connection φ) (h : History φ) : Prop :=
  ∃ taken, h.passedOn = taken ++ (q.outQueue ++ q.callbacks) ∧
    (taken = h.yielded.map some ∨ taken = h.yielded.map some ++ [none] ∧ q.output.Closed)

/-- The output loop only gets what was passed on, and puts nothing back. -/
theorem Forwarded.same {q q' : Connection φ} {h h' : History φ} (hf : Forwarded q h)
    (hpassed : h'.passedOn = h.passedOn) (hyield : h'.yielded = h.yielded)
    (hqueues : q'.outQueue ++ q'.callbacks = q.outQueue ++ q.callbacks)
    (hclosed : q.output.Closed → q'.output.Closed) : Forwarded q' h' := by
  rcases hf with ⟨taken, heq, htaken⟩
  refine ⟨taken, by rw [hpassed, hqueues, heq], ?_⟩
  rw [hyield]
  exact htaken.imp_right fun ⟨ht, hc⟩ => ⟨ht, hclosed hc⟩

theorem Forwarded.push {q q' : Connection φ} {h h' : History φ} (hf : Forwarded q h)
    {m : Option φ} (hpassed : h'.passedOn = h.passedOn ++ [m]) (hyield : h'.yielded = h.yielded)
    (hqueue : q'.outQueue = q.outQueue) (hcalls : q'.callbacks = q.callbacks ++ [m])
    (hout : q'.output = q.output) : Forwarded q' h' := by
  rcases hf with ⟨taken, heq, htaken⟩
  refine ⟨taken, ?_, by rwa [hyield, hout]⟩
  rw [hpassed, heq, hqueue, hcalls, List.append_assoc, List.append_assoc]

theorem Forwarded.step {q q' : Connection φ} {e : Event φ} {h : History φ} (hf : Forwarded q h)
    (hs : Step e q q') : Forwarded q' (h.after q e q') := by
  cases hs with
  | frame f hr =>
      by_cases hstop : (q.shutdownEvent || !q.running) = true
      · exact hf.same (by simp [History.after, hstop]) (by simp [History.after, hstop])
          (by simp [hstop]) (by simp [hstop])
      · exact hf.same (by simp [History.after, hstop]) (by simp [History.after, hstop])
          (by simp [hstop]) (by simp [hstop])
  | get hh hq | getNowait hh hq =>
      rename_i m rest
      cases m with
      | none =>
          exact hf.push (m := none) (by simp [History.after, hh, hq])
            (by simp [History.after, hh, hq]) rfl rfl rfl
      | some inp =>
          exact hf.same (by simp [History.after, hh, hq]) (by simp [History.after, hh, hq]) rfl id
  | action hh =>
      rename_i inp
      exact hf.push (m := some inp) (by simp [History.after, hh]) (by simp [History.after, hh]) rfl
        rfl rfl
  | callback hq =>
      exact hf.same rfl rfl (by simp [hq]) id
  | outputGet ho hq =>
      rcases hf with ⟨taken, heq, htaken⟩
      have hopen : ¬ q.output.Closed := by
        rintro (hc | hc) <;> rw [ho] at hc <;> cases hc
      have htaken : taken = h.yielded.map some := htaken.resolve_right fun hc => hopen hc.2
      refine ⟨_, ?_, .inl rfl⟩
      simp [History.after, ho, hq, heq, htaken]
  | outputNone ho hq =>
      rcases hf with ⟨taken, heq, htaken⟩
      have hopen : ¬ q.output.Closed := by
        rintro (hc | hc) <;> rw [ho] at hc <;> cases hc
      have htaken : taken = h.yielded.map some := htaken.resolve_right fun hc => hopen hc.2
      refine ⟨h.yielded.map some ++ [none], ?_, .inr ⟨?_, .inl rfl⟩⟩
      · simp [History.after, ho, hq, heq, htaken]
      · simp [History.after, ho, hq]
  | outputTop ho | outputEmpty ho | written ho | refused ho =>
      refine hf.same (by simp [History.after, *]) (by simp [History.after, *]) rfl ?_
      rintro (hc | hc) <;> rw [ho] at hc <;> cases hc
  | close ho =>
      exact hf.same (by simp [History.after, ho]) (by simp [History.after, ho]) rfl
        fun _ => .inr rfl
  | start hh | handlerTop hh | getEmpty hh | newest hh | actionError hh =>
      exact hf.same (by simp [History.after, *]) (by simp [History.after, *]) rfl id
  | badFrame | disconnected | parseError | shutdown => exact hf.same rfl rfl rfl id

theorem forwarded_of_reachable {q : Connection φ} {h : History φ}
    (hrun : ReachableObserved (q, h)) : Forwarded q h := by
  refine Reach.invariant (I := fun s : Connection φ × History φ => Forwarded s.1 s.2) ?_ ?_ hrun
  · rintro _ rfl
    exact ⟨[], rfl, .inl rfl⟩
  · rintro _ _ hf hobs
    cases hobs with
    | step e hs => exact hf.step hs
    | sentinel => exact hf.same rfl rfl rfl id

/-! ## The sentinel -/

/-- The sentinel is the last message of both queues and of what is passed on, and
the torch thread exits with it. -/
structure Sentinel (q : Connection φ) (h : History φ) : Prop where
  final : q.inQueue.Pairwise fun a b => a = none → b = none
  reader : none ∈ q.inQueue → q.reader = .ended
  stream : h.passedOn.Pairwise fun a _ => a ≠ none
  last : none ∈ h.passedOn → q.handler = .exited ∧ q.reader = .ended ∧ ∀ m ∈ q.inQueue, m = none
  exited : q.handler = .exited → q.running = true → none ∈ h.passedOn ∨ q.output = .finished
  source : none ∈ q.inQueue ∨ none ∈ h.passedOn →
    h.foreignSentinel = true ∨ q.output = .finished

/-- The output loop does not come back. -/
theorem Step.closed {q q' : Connection φ} {e : Event φ} (hs : Step e q q') :
    (q.output.Closed → q'.output.Closed) ∧ (q.output = .finished → q'.output = .finished) := by
  cases hs with
  | frame f hr => split <;> exact ⟨id, id⟩
  | get hh hq | getNowait hh hq =>
      rename_i m rest
      cases m <;> exact ⟨id, id⟩
  | outputTop ho | outputGet ho | outputNone ho | outputEmpty ho | written ho | refused ho =>
      refine ⟨?_, fun hc => by rw [ho] at hc; cases hc⟩
      rintro (hc | hc) <;> rw [ho] at hc <;> cases hc
  | close ho => exact ⟨fun _ => .inr rfl, fun _ => rfl⟩
  | _ => exact ⟨id, id⟩

/-- Neither the queue nor the stream gets a message. -/
theorem Sentinel.same {q q' : Connection φ} {h h' : History φ} (hs : Sentinel q h)
    (hqueue : q'.inQueue = q.inQueue) (hpassed : h'.passedOn = h.passedOn)
    (hforeign : h'.foreignSentinel = h.foreignSentinel)
    (hreader : q.reader = .ended → q'.reader = .ended)
    (hstays : q.handler = .exited → q'.handler = .exited)
    (hexits : q'.handler = .exited → q'.running = true → q.handler = .exited ∧ q.running = true)
    (hfinished : q.output = .finished → q'.output = .finished) : Sentinel q' h' := by
  constructor
  · rw [hqueue]
    exact hs.final
  · rw [hqueue]
    exact fun hmem => hreader (hs.reader hmem)
  · rw [hpassed]
    exact hs.stream
  · rw [hpassed, hqueue]
    intro hmem
    obtain ⟨hexit, hread, hrest⟩ := hs.last hmem
    exact ⟨hstays hexit, hreader hread, hrest⟩
  · intro hexit hrun
    obtain ⟨hexit, hrun⟩ := hexits hexit hrun
    rw [hpassed]
    exact (hs.exited hexit hrun).imp_right hfinished
  · rw [hqueue, hpassed, hforeign]
    exact fun hmem => (hs.source hmem).imp_right hfinished

/-- The torch thread takes the sentinel: nothing is left in the queue. -/
theorem Sentinel.take_none {q : Connection φ} {h h' : History φ} {rest : List (Option φ)}
    (hs : Sentinel q h) (hq : q.inQueue = none :: rest) (hlive : q.handler ≠ .exited)
    (hpassed : h'.passedOn = h.passedOn ++ [none])
    (hforeign : h'.foreignSentinel = h.foreignSentinel) : Sentinel (q.take none rest) h' := by
  have hfinal := hs.final
  rw [hq, List.pairwise_cons] at hfinal
  have hmem : none ∈ q.inQueue := by
    rw [hq]
    exact List.mem_cons_self
  have hfirst : none ∉ h.passedOn := fun hmem => hlive (hs.last hmem).1
  constructor
  · exact hfinal.2
  · exact fun _ => hs.reader hmem
  · rw [hpassed, List.pairwise_append]
    refine ⟨hs.stream, List.pairwise_singleton _ _, ?_⟩
    intro m hm _ _ heq
    exact hfirst (heq ▸ hm)
  · exact fun _ => ⟨rfl, hs.reader hmem, fun m hm => hfinal.1 m hm rfl⟩
  · intro _ _
    rw [hpassed]
    exact .inl (List.mem_append_right _ (List.mem_singleton_self _))
  · rw [hforeign]
    exact fun _ => hs.source (.inl hmem)

/-- The torch thread takes a frame. -/
theorem Sentinel.take_some {q : Connection φ} {h h' : History φ} {rest : List (Option φ)} {f : φ}
    (hs : Sentinel q h) (hq : q.inQueue = some f :: rest) (hpassed : h'.passedOn = h.passedOn)
    (hforeign : h'.foreignSentinel = h.foreignSentinel) : Sentinel (q.take (some f) rest) h' := by
  have hfinal := hs.final
  rw [hq, List.pairwise_cons] at hfinal
  have hrest : none ∈ rest → none ∈ q.inQueue := by
    rw [hq]
    exact List.mem_cons_of_mem _
  have hfirst : none ∉ h.passedOn := by
    intro hmem
    have hall := (hs.last hmem).2.2 (some f)
    rw [hq] at hall
    cases hall List.mem_cons_self
  rw [← hpassed] at hfirst
  refine ⟨hfinal.2, fun hmem => hs.reader (hrest hmem), hpassed ▸ hs.stream,
    fun hmem => absurd hmem hfirst, nofun, ?_⟩
  rw [hforeign]
  exact fun hmem => hs.source (.inl (hrest (hmem.resolve_right hfirst)))

/-- An action is passed on. -/
theorem Sentinel.push_action {q q' : Connection φ} {h h' : History φ} {f : φ} (hs : Sentinel q h)
    (hlive : q.handler ≠ .exited) (hlive' : q'.handler ≠ .exited)
    (hqueue : q'.inQueue = q.inQueue) (hreader : q'.reader = q.reader)
    (hout : q'.output = q.output) (hpassed : h'.passedOn = h.passedOn ++ [some f])
    (hforeign : h'.foreignSentinel = h.foreignSentinel) : Sentinel q' h' := by
  have hfirst : none ∉ h.passedOn := fun hmem => hlive (hs.last hmem).1
  have hnone : none ∉ h'.passedOn := by
    rw [hpassed]
    intro hmem
    rcases List.mem_append.mp hmem with hmem | hmem
    · exact hfirst hmem
    · cases List.mem_singleton.mp hmem
  constructor
  · exact hqueue ▸ hs.final
  · rw [hqueue, hreader]
    exact hs.reader
  · rw [hpassed, List.pairwise_append]
    refine ⟨hs.stream, List.pairwise_singleton _ _, ?_⟩
    intro m hm _ _ heq
    exact hfirst (heq ▸ hm)
  · exact fun hmem => absurd hmem hnone
  · exact fun hexit => absurd hexit hlive'
  · rw [hqueue, hforeign, hout]
    exact fun hmem => hs.source (.inl (hmem.resolve_right hnone))

/-- A sentinel is put behind everything else. -/
theorem Sentinel.push_none {q q' : Connection φ} {h h' : History φ} (hs : Sentinel q h)
    (hqueue : q'.inQueue = q.inQueue ++ [none]) (hreader : q'.reader = .ended)
    (hpassed : h'.passedOn = h.passedOn) (hstays : q.handler = .exited → q'.handler = .exited)
    (hexits : q'.handler = .exited → q'.running = true →
      q.handler = .exited ∧ q.running = true ∨ q'.output = .finished)
    (hfinished : q.output = .finished → q'.output = .finished)
    (hsource : h'.foreignSentinel = true ∨ q'.output = .finished) : Sentinel q' h' := by
  constructor
  · rw [hqueue, List.pairwise_append]
    refine ⟨hs.final, List.pairwise_singleton _ _, ?_⟩
    intro m _ m' hm' _
    exact List.mem_singleton.mp hm'
  · exact fun _ => hreader
  · exact hpassed ▸ hs.stream
  · rw [hpassed, hqueue]
    intro hmem
    obtain ⟨hexit, -, hrest⟩ := hs.last hmem
    refine ⟨hstays hexit, hreader, ?_⟩
    intro m hm
    rcases List.mem_append.mp hm with hm | hm
    · exact hrest m hm
    · exact List.mem_singleton.mp hm
  · intro hexit hrun
    rcases hexits hexit hrun with ⟨hexit, hrun⟩ | hout
    · rw [hpassed]
      exact (hs.exited hexit hrun).imp_right hfinished
    · exact .inr hout
  · exact fun _ => hsource

/-- The reader that puts a frame in the queue has not seen a sentinel there. -/
theorem Sentinel.push_frame {q q' : Connection φ} {h h' : History φ} {f : φ} (hs : Sentinel q h)
    (hr : q.reader = .iterating) (hqueue : q'.inQueue = q.inQueue ++ [some f])
    (hpassed : h'.passedOn = h.passedOn) (hout : q'.output = q.output)
    (hexits : q'.handler = .exited → q.handler = .exited)
    (hruns : q'.running = true → q.running = true) : Sentinel q' h' := by
  have hnone : none ∉ q.inQueue := by
    intro hmem
    rw [hs.reader hmem] at hr
    cases hr
  have hfirst : none ∉ h'.passedOn := by
    rw [hpassed]
    intro hmem
    rw [(hs.last hmem).2.1] at hr
    cases hr
  have hnone' : none ∉ q'.inQueue := by
    rw [hqueue]
    intro hmem
    rcases List.mem_append.mp hmem with hmem | hmem
    · exact hnone hmem
    · cases List.mem_singleton.mp hmem
  constructor
  · rw [hqueue, List.pairwise_append]
    refine ⟨hs.final, List.pairwise_singleton _ _, ?_⟩
    intro m hm _ _ heq
    exact absurd (heq ▸ hm) hnone
  · exact fun hmem => absurd hmem hnone'
  · exact hpassed ▸ hs.stream
  · exact fun hmem => absurd hmem hfirst
  · intro hexit hrun
    rw [hpassed, hout]
    exact hs.exited (hexits hexit) (hruns hrun)
  · rintro (hmem | hmem)
    · exact absurd hmem hnone'
    · exact absurd hmem hfirst

theorem Sentinel.step {q q' : Connection φ} {e : Event φ} {h : History φ} (hsent : Sentinel q h)
    (hs : Step e q q') : Sentinel q' (h.after q e q') := by
  have hfinished := hs.closed.2
  cases hs with
  | frame f hr =>
      by_cases hstop : (q.shutdownEvent || !q.running) = true
      · simp only [hstop, if_true] at hfinished ⊢
        simp only [History.after, hstop, if_true]
        exact hsent.same rfl rfl rfl (fun _ => rfl) id .intro hfinished
      · simp only [History.after, hstop]
        exact hsent.push_frame hr rfl rfl rfl id id
  | badFrame | disconnected | parseError =>
      exact hsent.same rfl rfl rfl (fun _ => rfl) id .intro hfinished
  | get hh hq | getNowait hh hq =>
      rename_i m rest
      cases m with
      | none =>
          exact hsent.take_none hq (by rw [hh]; nofun) (by simp [History.after, hh, hq])
            (by simp [History.after, hh, hq])
      | some f =>
          exact hsent.take_some hq (by simp [History.after, hh, hq])
            (by simp [History.after, hh, hq])
  | action hh =>
      rename_i inp
      exact hsent.push_action (f := inp) (by rw [hh]; nofun) nofun rfl rfl rfl
        (by simp [History.after, hh]) (by simp [History.after, hh])
  | handlerTop hh =>
      refine hsent.same rfl (by simp [History.after, hh]) (by simp [History.after, hh]) id ?_ ?_
        hfinished
      · intro hexit
        rw [hexit] at hh
        cases hh
      · intro hexit (hrun : q.running = true)
        simp [hrun] at hexit
  | start hh | getEmpty hh | newest hh | actionError hh =>
      refine hsent.same rfl (by simp [History.after, *]) (by simp [History.after, *]) id ?_ nofun
        hfinished
      intro hexit
      rw [hexit] at hh
      cases hh
  | close ho =>
      refine hsent.push_none rfl rfl (by simp [History.after, ho]) ?_ (fun _ _ => .inr rfl)
        hfinished (.inr rfl)
      intro hexit
      simp [hexit]
  | shutdown =>
      exact hsent.same rfl rfl rfl id id (fun _ hrun => nomatch hrun) hfinished
  | callback hq => exact hsent.same rfl rfl rfl id id .intro hfinished
  | outputTop ho | outputGet ho hq | outputNone ho hq | outputEmpty ho | written ho | refused ho =>
      exact hsent.same rfl (by simp [History.after, *]) (by simp [History.after, *]) id id .intro
        hfinished

theorem sentinel_of_reachable {q : Connection φ} {h : History φ}
    (hrun : ReachableObserved (q, h)) : Sentinel q h := by
  refine Reach.invariant (I := fun s : Connection φ × History φ => Sentinel s.1 s.2) ?_ ?_ hrun
  · rintro _ rfl
    exact ⟨List.Pairwise.nil, nofun, List.Pairwise.nil, nofun, nofun, nofun⟩
  · rintro _ _ hsent hobs
    cases hobs with
    | step e hs => exact hsent.step hs
    | sentinel =>
        exact hsent.push_none rfl rfl rfl id (fun hexit hrun => .inl ⟨hexit, hrun⟩) id (.inl rfl)

/-! ## Later states -/

/-- All continuations of a run. -/
def Later (s : Connection φ × History φ) : Connection φ × History φ → Prop :=
  Reach (· = s) Observe

theorem ReachableObserved.later {s t : Connection φ × History φ} (hs : ReachableObserved s)
    (ht : Later s t) : ReachableObserved t := by
  refine Reach.invariant (I := ReachableObserved) ?_ ?_ ht
  · rintro _ rfl
    exact hs
  · rintro _ _ hu hobs
    exact .next hu hobs

/-- A torch thread that has exited passes nothing on. -/
theorem passedOn_of_exited {q q' : Connection φ} {h h' : History φ} (hexit : q.handler = .exited)
    (hlater : Later (q, h) (q', h')) : h'.passedOn = h.passedOn := by
  suffices hboth : q'.handler = .exited ∧ h'.passedOn = h.passedOn from hboth.2
  refine Reach.invariant (I := fun s : Connection φ × History φ =>
    s.1.handler = .exited ∧ s.2.passedOn = h.passedOn) ?_ ?_ hlater
  · rintro _ rfl
    exact ⟨hexit, rfl⟩
  · rintro _ _ ⟨hexit, hsame⟩ hobs
    cases hobs with
    | sentinel => exact ⟨hexit, hsame⟩
    | step e hs =>
        rename_i q q' h'
        simp only at hexit hsame
        refine ⟨?_, ?_⟩
        · cases hs with
          | frame f hr => split <;> exact hexit
          | start hh | handlerTop hh | get hh hq | getEmpty hh | getNowait hh hq | newest hh
          | action hh | actionError hh => rw [hexit] at hh; cases hh
          | close ho => simp [hexit]
          | _ => exact hexit
        · rw [← hsame]
          unfold History.after
          split
          · split <;> rfl
          · simp only [hexit]
          · split <;> rfl
          · rfl

/-- An output loop on its way out yields nothing. -/
theorem yielded_of_closed {q q' : Connection φ} {h h' : History φ} (hclosed : q.output.Closed)
    (hlater : Later (q, h) (q', h')) : h'.yielded = h.yielded := by
  suffices hboth : q'.output.Closed ∧ h'.yielded = h.yielded from hboth.2
  refine Reach.invariant (I := fun s : Connection φ × History φ =>
    s.1.output.Closed ∧ s.2.yielded = h.yielded) ?_ ?_ hlater
  · rintro _ rfl
    exact ⟨hclosed, rfl⟩
  · rintro _ _ ⟨hclosed, hsame⟩ hobs
    cases hobs with
    | sentinel => exact ⟨hclosed, hsame⟩
    | step e hs =>
        refine ⟨hs.closed.1 hclosed, ?_⟩
        rw [← hsame]
        unfold History.after
        split
        · split <;> rfl
        · split
          · rfl
          · rfl
          · rfl
          · split <;> rfl
          · rfl
        · split
          · rename_i ho _
            rcases hclosed with hc | hc <;> rw [ho] at hc <;> cases hc
          · rfl
        · rfl

/-! ## Frame dropping is safe -/

/-- The frame may still get its action. -/
def Connection.Underway (q : Connection φ) (f : φ) : Prop :=
  some f ∈ q.inQueue ∨ f ∈ q.handler.held ∨ some f ∈ q.callbacks ∨ some f ∈ q.outQueue

/-- What has been yielded is what has been passed on, so far. -/
theorem yielded_initialPart {q : Connection φ} {h : History φ} (hrun : ReachableObserved (q, h)) :
    h.yielded.map some <+: h.passedOn := by
  obtain ⟨taken, heq, htaken⟩ := forwarded_of_reachable hrun
  rw [heq]
  rcases htaken with rfl | ⟨rfl, -⟩
  · exact List.prefix_append _ _
  · exact (List.prefix_append _ _).trans (List.prefix_append _ _)

/-- The actions come in the order of the frames. -/
theorem yielded_sublist {q : Connection φ} {h : History φ} (hrun : ReachableObserved (q, h)) :
    h.yielded.Sublist h.queued := by
  obtain ⟨done, hc⟩ := consumed_of_reachable hrun
  have hframes := (yielded_initialPart hrun).sublist.filterMap id
  rw [List.filterMap_map, Function.id_comp, List.filterMap_some] at hframes
  have hdone := hframes.trans hc.passedOn
  rw [hc.queued]
  exact hdone.trans (List.sublist_append_left _ _)

theorem fate_of_queued {q : Connection φ} {h : History φ} (hrun : ReachableObserved (q, h)) {f : φ}
    (hf : f ∈ h.queued) :
    f ∈ h.yielded ∨ q.Underway f ∨ h.Superseded f ∨ f ∈ h.raised ∨ f ∈ h.drained := by
  obtain ⟨done, hc⟩ := consumed_of_reachable hrun
  obtain ⟨taken, heq, htaken⟩ := forwarded_of_reachable hrun
  rw [hc.queued, List.mem_append, List.mem_append] at hf
  rcases hf with hf | hf | hf
  · rcases hc.fate f hf with hpassed | hfate
    · rw [heq, List.mem_append, List.mem_append] at hpassed
      rcases hpassed with hmem | hmem | hmem
      · left
        rcases htaken with rfl | ⟨rfl, -⟩ <;> simpa using hmem
      · exact .inr (.inl (.inr (.inr (.inr hmem))))
      · exact .inr (.inl (.inr (.inr (.inl hmem))))
    · exact .inr (.inr hfate)
  · exact .inr (.inl (.inr (.inl hf)))
  · exact .inr (.inl (.inl (List.reduceOption_mem_iff.mp hf)))

end P2PRdt.Inference

import P2PRdt.Data.Pipeline
import Mathlib.Algebra.BigOperators.Fin
import Mathlib.Data.List.ModifyLast
import Mathlib.Data.List.ReduceOption

/-!
# The iterators over the dataset

`VideoProtoDataset.__iter__` in the workers of the data loaders of all GPUs. Each
worker is one client of the shuffle queue, with the number that `to_dataloader`
gives it. An iterator may be left before it ends, as Lightning does with the
validation; the next one goes on with the queue where it was left.

An iterator that runs to its end yields one epoch of its worker. With
`ignore_iterator_reset` it never ends, but goes on with the next epoch. The check for a
whole batch counts the examples of the iterator, not those of the epoch.
-/

namespace P2PRdt.Data

open Lib Zmq

variable {π κ : Type*}

/-! ## One worker -/

structure IterConfig where
  batchSize : ℕ
  ignoreIteratorReset : Bool

/-- Where the generator is, with its `n_examples_in_epoch`: none runs, it waits in
`get`, it waits at the `yield`, or it has raised the `RuntimeError`. -/
inductive IterPhase where
  | idle
  | getting (nExamplesInEpoch : ℕ)
  | yielded (nExamplesInEpoch : ℕ)
  | raised
deriving DecidableEq, Repr

/-- `yields` are the examples with the `_epoch` in which each was yielded, `iterators`
the examples of each iterator and `ended` those of the iterators that returned;
`abandoned` says that an iterator was left before its end. All four are histories. -/
structure DatasetWorker (κ : Type*) where
  epoch : ℕ := 0
  phase : IterPhase := .idle
  yields : List (ℕ × κ) := []
  iterators : List (List κ) := []
  ended : List (List κ) := []
  abandoned : Bool := false

namespace DatasetWorker

/-- The first `next` of a new iterator. -/
def iter (w : DatasetWorker κ) : Option (DatasetWorker κ) :=
  match w.phase with
  | .idle =>
      some
        { w with
          epoch := w.epoch + 1, phase := .getting 0, iterators := w.iterators ++ [[]] }
  | .yielded _ =>
      some
        { w with
          epoch := w.epoch + 1, phase := .getting 0, iterators := w.iterators ++ [[]]
          abandoned := true }
  | _ => none

def next (w : DatasetWorker κ) : Option (DatasetWorker κ) :=
  match w.phase with
  | .yielded n => some { w with phase := .getting n }
  | _ => none

/-- What `get` returned. -/
def receive (c : IterConfig) (w : DatasetWorker κ) (x : Option κ) : Option (DatasetWorker κ) :=
  match w.phase with
  | .getting n =>
      match x with
      | some x =>
          some
            { w with
              phase := .yielded (n + 1), yields := w.yields ++ [(w.epoch, x)]
              iterators := w.iterators.modifyLast (· ++ [x]) }
      | none =>
          if c.ignoreIteratorReset then some { w with epoch := w.epoch + 1, phase := .getting 0 }
          else if n < c.batchSize then some { w with phase := .raised }
          else some { w with phase := .idle, ended := w.ended ++ w.iterators.getLast?.toList }
  | _ => none

/-- What was yielded under a number of `_epoch`. -/
def yieldsOf (w : DatasetWorker κ) (k : ℕ) : List κ :=
  w.yields.filterMap fun y => if y.1 = k then some y.2 else none

/-- The running iterator, if there is one. -/
def count (w : DatasetWorker κ) : Option ℕ :=
  match w.phase with
  | .getting n | .yielded n => some n
  | _ => none

/-! ## What a worker yields of its stream -/

/-- The worker has received `L`. -/
structure Inv (c : IterConfig) (L : List (Option κ)) (w : DatasetWorker κ) : Prop where
  values : w.yields.map Prod.snd = L.reduceOption
  numbers : ∀ y ∈ w.yields, y.1 ≤ w.epoch
  oneEpoch : ∀ k, ∃ e, w.yieldsOf k <:+: segment L e
  running : ∀ n ∈ w.count, w.yieldsOf w.epoch <:+ segment L (marks L) ∧
    (w.yieldsOf w.epoch).length = n
  flatten : w.iterators.flatten = L.reduceOption
  newest : ∀ n ∈ w.count, ∃ front out, w.iterators = front ++ [out] ∧ w.ended.Sublist front ∧
    (c.ignoreIteratorReset = false → out.length = n)
  endedIn : w.ended.Sublist w.iterators
  ended : ∀ out ∈ w.ended, c.batchSize ≤ out.length
  iterators : c.ignoreIteratorReset = false →
    w.iterators = (List.range w.epoch).map fun k => w.yieldsOf (k + 1)
  whole : w.abandoned = false → ∀ e, w.yieldsOf (e + 1) = segment L e
  epoch : w.abandoned = false → w.epoch = marks L + if w.count.isSome then 1 else 0
  raised : w.phase = .raised → (w.yieldsOf w.epoch).length < c.batchSize
  batch : w.abandoned = false → c.ignoreIteratorReset = false →
    ∀ e < marks L, w.phase ≠ .raised ∨ e + 1 < marks L → c.batchSize ≤ (segment L e).length

variable {c : IterConfig} {L : List (Option κ)} {w w' : DatasetWorker κ}

theorem yieldsOf_append (w : DatasetWorker κ) (phase : IterPhase) (its : List (List κ)) (x : κ)
    (k : ℕ) :
    yieldsOf { w with phase := phase, yields := w.yields ++ [(w.epoch, x)], iterators := its } k =
      if k = w.epoch then w.yieldsOf k ++ [x] else w.yieldsOf k := by
  rw [yieldsOf, List.filterMap_append, yieldsOf]
  split
  · next hk =>
    rw [hk]
    simp
  · next hk => simp [Ne.symm hk]

theorem Inv.yieldsOf_of_lt (h : Inv c L w) {k : ℕ} (hk : w.epoch < k) : w.yieldsOf k = [] := by
  rw [yieldsOf, List.filterMap_eq_nil_iff]
  intro y hy
  have hle := h.numbers y hy
  rw [if_neg (by omega)]

theorem inv_new : Inv c [] ({} : DatasetWorker κ) where
  values := rfl
  numbers := fun _ h => absurd h List.not_mem_nil
  oneEpoch := fun _ => ⟨0, List.infix_rfl⟩
  running := fun _ h => absurd h (Option.not_mem_none _)
  flatten := rfl
  newest := fun _ h => absurd h (Option.not_mem_none _)
  endedIn := List.Sublist.refl _
  ended := fun _ h => absurd h List.not_mem_nil
  iterators := fun _ => rfl
  whole := fun _ _ => rfl
  epoch := fun _ => rfl
  raised := fun h => IterPhase.noConfusion h
  batch := fun _ _ _ h => absurd h (Nat.not_lt_zero _)

/-- Another iterator has yielded nothing so far. -/
theorem Inv.running_succ (h : Inv c L w) {L' : List (Option κ)} {n : ℕ} (hn : n ∈ some 0) :
    w.yieldsOf (w.epoch + 1) <:+ segment L' (marks L') ∧
      (w.yieldsOf (w.epoch + 1)).length = n := by
  rw [h.yieldsOf_of_lt (Nat.lt_succ_self _), ← Option.mem_some_iff.mp hn]
  exact ⟨List.nil_suffix, rfl⟩

theorem iter_cases (hw : w.iter = some w') :
    (w.phase = .idle ∧ w' =
      { w with
        epoch := w.epoch + 1, phase := .getting 0, iterators := w.iterators ++ [[]] }) ∨
    w' =
      { w with
        epoch := w.epoch + 1, phase := .getting 0, iterators := w.iterators ++ [[]]
        abandoned := true } := by
  rw [iter] at hw
  split at hw
  · next hphase => exact Or.inl ⟨hphase, (Option.some.inj hw).symm⟩
  · exact Or.inr (Option.some.inj hw).symm
  · cases hw

theorem next_cases (hw : w.next = some w') :
    ∃ n, w.phase = .yielded n ∧ w' = { w with phase := .getting n } := by
  rw [next] at hw
  split at hw
  · next n hphase => exact ⟨n, hphase, (Option.some.inj hw).symm⟩
  · cases hw

theorem receive_getting {x : Option κ} (hw : w.receive c x = some w') :
    ∃ n, w.phase = .getting n := by
  rw [receive] at hw
  split at hw
  · next n hphase => exact ⟨n, hphase⟩
  · cases hw

/-- A new iterator is numbered like its epoch. -/
theorem Inv.iterators_succ (h : Inv c L w) (hreset : c.ignoreIteratorReset = false) :
    w.iterators ++ [[]] = (List.range (w.epoch + 1)).map fun k => w.yieldsOf (k + 1) := by
  rw [List.range_succ, List.map_append, ← h.iterators hreset, List.map_singleton,
    h.yieldsOf_of_lt (Nat.lt_succ_self _)]

theorem Inv.iter (h : Inv c L w) (hw : w.iter = some w') : Inv c L w' := by
  have hflatten : (w.iterators ++ [[]]).flatten = L.reduceOption := by
    rw [List.flatten_append, h.flatten]
    exact List.append_nil _
  have hnewest : ∀ n ∈ some 0, ∃ front out, w.iterators ++ [[]] = front ++ [out] ∧
      w.ended.Sublist front ∧ (c.ignoreIteratorReset = false → out.length = n) := by
    intro n hn
    exact ⟨w.iterators, [], rfl, h.endedIn, fun _ => Option.mem_some_iff.mp hn⟩
  have hended : w.ended.Sublist (w.iterators ++ [[]]) :=
    h.endedIn.trans (List.sublist_append_left _ _)
  obtain ⟨hphase, rfl⟩ | rfl := iter_cases hw
  · refine
      { values := h.values
        numbers := fun y hy => (h.numbers y hy).trans (Nat.le_succ _)
        oneEpoch := h.oneEpoch
        running := fun n hn => h.running_succ hn
        flatten := hflatten
        newest := hnewest
        endedIn := hended
        ended := h.ended
        iterators := h.iterators_succ
        whole := h.whole
        epoch := fun hwhole => ?_
        raised := fun hraised => IterPhase.noConfusion hraised
        batch := fun hwhole hreset e he _ => h.batch hwhole hreset e he (Or.inl ?_) }
    · have hold := h.epoch hwhole
      rw [count, hphase] at hold
      exact congrArg (· + 1) hold
    · rw [hphase]
      exact IterPhase.noConfusion
  · exact
      { values := h.values
        numbers := fun y hy => (h.numbers y hy).trans (Nat.le_succ _)
        oneEpoch := h.oneEpoch
        running := fun n hn => h.running_succ hn
        flatten := hflatten
        newest := hnewest
        endedIn := hended
        ended := h.ended
        iterators := h.iterators_succ
        whole := fun hwhole => Bool.noConfusion hwhole
        epoch := fun hwhole => Bool.noConfusion hwhole
        raised := fun hraised => IterPhase.noConfusion hraised
        batch := fun hwhole => Bool.noConfusion hwhole }

theorem Inv.next (h : Inv c L w) (hw : w.next = some w') : Inv c L w' := by
  obtain ⟨n, hphase, rfl⟩ := next_cases hw
  have hcount : w.count = some n := by rw [count, hphase]
  refine
    { values := h.values
      numbers := h.numbers
      oneEpoch := h.oneEpoch
      running := fun m hm => h.running m (hcount ▸ hm)
      flatten := h.flatten
      newest := fun m hm => h.newest m (hcount ▸ hm)
      endedIn := h.endedIn
      ended := h.ended
      iterators := h.iterators
      whole := h.whole
      epoch := fun hwhole => ?_
      raised := fun hraised => IterPhase.noConfusion hraised
      batch := fun hwhole hreset e he _ => h.batch hwhole hreset e he (Or.inl ?_) }
  · have hold := h.epoch hwhole
    rw [hcount] at hold
    exact hold
  · rw [hphase]
    exact IterPhase.noConfusion

/-- An example is yielded in the epoch in which it was received. -/
theorem Inv.receive_some (h : Inv c L w) {n : ℕ} (hphase : w.phase = .getting n) (x : κ) :
    Inv c (L ++ [some x])
      { w with
        phase := .yielded (n + 1), yields := w.yields ++ [(w.epoch, x)]
        iterators := w.iterators.modifyLast (· ++ [x]) } := by
  have hcount : w.count = some n := by rw [count, hphase]
  have hrunning := h.running n hcount
  obtain ⟨front, out, hiterators, hended, hlen⟩ := h.newest n hcount
  have hlast : w.iterators.modifyLast (· ++ [x]) = front ++ [out ++ [x]] := by
    rw [hiterators, List.modifyLast_concat]
  have hopen : segment (L ++ [some x]) (marks L) = segment L (marks L) ++ [x] := by
    rw [segment_append_some, if_pos rfl]
  have hsuffix : w.yieldsOf w.epoch ++ [x] <:+ segment (L ++ [some x]) (marks L) := by
    rw [hopen]
    obtain ⟨front, hfront⟩ := hrunning.1
    exact ⟨front, by rw [← List.append_assoc, hfront]⟩
  refine
    { values := ?_
      numbers := ?_
      oneEpoch := ?_
      running := ?_
      flatten := ?_
      newest := ?_
      endedIn := ?_
      ended := h.ended
      iterators := ?_
      whole := ?_
      epoch := ?_
      raised := fun hraised => IterPhase.noConfusion hraised
      batch := ?_ }
  · rw [List.map_append, h.values, List.reduceOption_append]
    rfl
  · intro y hy
    rcases List.mem_append.mp hy with hold | hnew
    · exact h.numbers y hold
    · rw [List.mem_singleton.mp hnew]
  · intro k
    rw [yieldsOf_append]
    split
    · next hk =>
      rw [hk]
      exact ⟨marks L, hsuffix.isInfix⟩
    · obtain ⟨e, he⟩ := h.oneEpoch k
      exact ⟨e, he.trans (segment_mono (List.prefix_append _ _) e).isInfix⟩
  · intro m hm
    obtain rfl := Option.mem_some_iff.mp hm
    rw [yieldsOf_append, if_pos rfl, marks_append_some, List.length_append, hrunning.2]
    exact ⟨hsuffix, rfl⟩
  · show (w.iterators.modifyLast (· ++ [x])).flatten = _
    rw [hlast, List.reduceOption_append, ← h.flatten, hiterators, List.flatten_append,
      List.flatten_append, List.flatten_singleton, List.flatten_singleton, ← List.append_assoc]
    rfl
  · intro m hm
    obtain rfl := Option.mem_some_iff.mp hm
    refine ⟨front, out ++ [x], hlast, hended, ?_⟩
    intro hreset
    rw [List.length_append, hlen hreset, List.length_singleton]
  · show w.ended.Sublist (w.iterators.modifyLast (· ++ [x]))
    rw [hlast]
    exact hended.trans (List.sublist_append_left _ _)
  · intro hreset
    simp only [yieldsOf_append]
    have hnumbered := h.iterators hreset
    -- the newest iterator is the one of the running epoch
    obtain ⟨e, he⟩ : ∃ e, w.epoch = e + 1 := by
      refine Nat.exists_eq_succ_of_ne_zero ?_
      intro hzero
      rw [hiterators, hzero] at hnumbered
      exact List.append_ne_nil_of_right_ne_nil _ (List.cons_ne_nil _ _) hnumbered
    rw [hnumbered, he, List.range_succ, List.map_append, List.map_singleton,
      List.modifyLast_concat, List.map_append, List.map_singleton, if_pos rfl]
    congr 1
    apply List.map_congr_left
    intro k hk
    rw [if_neg (Nat.succ_injective.ne (List.mem_range.mp hk).ne)]
  · intro hwhole e
    have hepoch := h.epoch hwhole
    rw [hcount, Option.isSome_some, if_pos rfl] at hepoch
    rw [yieldsOf_append, segment_append_some, h.whole hwhole e]
    exact if_congr (by omega) rfl rfl
  · intro hwhole
    have hepoch := h.epoch hwhole
    rw [hcount] at hepoch
    rw [marks_append_some]
    exact hepoch
  · intro hwhole hreset e he _
    rw [marks_append_some] at he
    rw [segment_append_some, if_neg he.ne]
    refine h.batch hwhole hreset e he (Or.inl ?_)
    rw [hphase]
    exact IterPhase.noConfusion

theorem Inv.receive_none (h : Inv c L w) {n : ℕ} (hphase : w.phase = .getting n)
    (hw : w.receive c none = some w') : Inv c (L ++ [none]) w' := by
  have hcount : w.count = some n := by rw [count, hphase]
  have hrunning := h.running n hcount
  have hvalues : w.yields.map Prod.snd = (L ++ [none]).reduceOption := by
    rw [h.values, List.reduceOption_append]
    exact (List.append_nil _).symm
  have honeEpoch : ∀ k, ∃ e, w.yieldsOf k <:+: segment (L ++ [none]) e := by
    intro k
    obtain ⟨e, he⟩ := h.oneEpoch k
    exact ⟨e, by rwa [segment_append_none]⟩
  have hwholeEpochs : w.abandoned = false → ∀ e, w.yieldsOf (e + 1) = segment (L ++ [none]) e := by
    intro hwhole e
    rw [segment_append_none]
    exact h.whole hwhole e
  have hflatten : w.iterators.flatten = (L ++ [none]).reduceOption := by
    rw [h.flatten, List.reduceOption_append]
    exact (List.append_nil _).symm
  obtain ⟨front, out, hiterators, hended, hlen⟩ := h.newest n hcount
  have hepoch : w.abandoned = false → w.epoch = marks L + 1 := by
    intro hwhole
    have hold := h.epoch hwhole
    rwa [hcount, Option.isSome_some, if_pos rfl] at hold
  have hbatch : w.abandoned = false → c.ignoreIteratorReset = false → ∀ e < marks L,
      c.batchSize ≤ (segment (L ++ [none]) e).length := by
    intro hwhole hreset e he
    rw [segment_append_none]
    refine h.batch hwhole hreset e he (Or.inl ?_)
    rw [hphase]
    exact IterPhase.noConfusion
  rw [receive, hphase] at hw
  dsimp only at hw
  split at hw
  · next hignore =>
    obtain rfl := Option.some.inj hw
    refine
      { values := hvalues
        numbers := fun y hy => (h.numbers y hy).trans (Nat.le_succ _)
        oneEpoch := honeEpoch
        running := fun m hm => h.running_succ hm
        flatten := hflatten
        newest := fun _ _ => ⟨front, out, hiterators, hended,
          fun hreset => absurd (hignore.symm.trans hreset) Bool.noConfusion⟩
        endedIn := h.endedIn
        ended := h.ended
        iterators := fun hreset => absurd (hignore.symm.trans hreset) Bool.noConfusion
        whole := hwholeEpochs
        epoch := fun hwhole => ?_
        raised := fun hraised => IterPhase.noConfusion hraised
        batch := fun _ hreset => absurd (hignore.symm.trans hreset) Bool.noConfusion }
    rw [marks_append_none]
    exact congrArg (· + 1) (hepoch hwhole)
  · next hreturns =>
    rw [Bool.not_eq_true] at hreturns
    split at hw
    · next hfew =>
      obtain rfl := Option.some.inj hw
      refine
        { values := hvalues
          numbers := h.numbers
          oneEpoch := honeEpoch
          running := fun m hm => absurd hm (Option.not_mem_none m)
          flatten := hflatten
          newest := fun m hm => absurd hm (Option.not_mem_none m)
          endedIn := h.endedIn
          ended := h.ended
          iterators := h.iterators
          whole := hwholeEpochs
          epoch := fun hwhole => ?_
          raised := fun _ => hrunning.2.trans_lt hfew
          batch := fun hwhole hreset e he hlast => hbatch hwhole hreset e ?_ }
      · rw [marks_append_none]
        exact hepoch hwhole
      · rw [marks_append_none] at hlast
        have hlt := hlast.resolve_left fun hne => hne rfl
        omega
    · next hmany =>
      obtain rfl := Option.some.inj hw
      have hreturned : w.ended ++ w.iterators.getLast?.toList = w.ended ++ [out] := by
        rw [hiterators, List.getLast?_concat]
        rfl
      refine
        { values := hvalues
          numbers := h.numbers
          oneEpoch := honeEpoch
          running := fun m hm => absurd hm (Option.not_mem_none m)
          flatten := hflatten
          newest := fun m hm => absurd hm (Option.not_mem_none m)
          endedIn := ?_
          ended := ?_
          iterators := h.iterators
          whole := hwholeEpochs
          epoch := fun hwhole => ?_
          raised := fun hraised => IterPhase.noConfusion hraised
          batch := fun hwhole hreset e he _ => ?_ }
      · show (w.ended ++ w.iterators.getLast?.toList).Sublist w.iterators
        rw [hreturned, hiterators]
        exact hended.append (List.Sublist.refl _)
      · intro out' hout
        rw [hreturned] at hout
        rcases List.mem_append.mp hout with hold | hnew
        · exact h.ended out' hold
        · rw [List.mem_singleton.mp hnew, hlen hreturns]
          exact Nat.le_of_not_lt hmany
      · rw [marks_append_none]
        exact hepoch hwhole
      · rw [marks_append_none] at he
        rcases Nat.lt_succ_iff_lt_or_eq.mp he with hlt | rfl
        · exact hbatch hwhole hreset e hlt
        · rw [← hwholeEpochs hwhole, ← hepoch hwhole, hrunning.2]
          exact Nat.le_of_not_lt hmany

theorem Inv.receive {x : Option κ} (h : Inv c L w) (hw : w.receive c x = some w') :
    Inv c (L ++ [x]) w' := by
  obtain ⟨n, hphase⟩ := receive_getting hw
  cases x with
  | none => exact h.receive_none hphase hw
  | some x =>
      rw [DatasetWorker.receive, hphase] at hw
      obtain rfl := Option.some.inj hw
      exact h.receive_some hphase x

end DatasetWorker

/-! ## All workers -/

/-- The pipeline with its data loaders, `nWorkersPerGpu` for each rank. -/
structure FeedConfig (π : Type*) extends PipelineConfig π, IterConfig where
  nWorkersPerGpu : ℕ
  worldSize : ℕ
  nDatasetWorkers_eq : nDatasetWorkers = nWorkersPerGpu * worldSize

namespace FeedConfig

variable (cfg : FeedConfig π)

/-- A worker of a data loader and the rank of its GPU. -/
abbrev Loader : Type := Fin cfg.nWorkersPerGpu × Fin cfg.worldSize

/-- `_non_daemonic_worker_init_fn`. -/
def globalWorkerId (l : cfg.Loader) : ℕ := l.1 * cfg.worldSize + l.2

theorem globalWorkerId_eq (l : cfg.Loader) : cfg.globalWorkerId l = (finProdFinEquiv l : ℕ) := by
  rw [finProdFinEquiv_apply_val, globalWorkerId, Nat.add_comm, Nat.mul_comm]

theorem globalWorkerId_lt (l : cfg.Loader) : cfg.globalWorkerId l < cfg.nDatasetWorkers := by
  rw [globalWorkerId_eq, cfg.nDatasetWorkers_eq]
  exact (finProdFinEquiv l).isLt

theorem globalWorkerId_injective : Function.Injective cfg.globalWorkerId := by
  intro l l' h
  rw [globalWorkerId_eq, globalWorkerId_eq] at h
  exact finProdFinEquiv.injective (Fin.ext h)

theorem exists_globalWorkerId {j : ℕ} (hj : j < cfg.nDatasetWorkers) :
    ∃ l : cfg.Loader, cfg.globalWorkerId l = j := by
  rw [cfg.nDatasetWorkers_eq] at hj
  refine ⟨finProdFinEquiv.symm ⟨j, hj⟩, ?_⟩
  rw [globalWorkerId_eq, Equiv.apply_symm_apply]

/-- The loaders are the clients of the shuffle queue, each of them once. -/
theorem total_loaders (S : ℕ → List (Option κ)) (e : ℕ) :
    total cfg.nDatasetWorkers S e =
      ∑ l : cfg.Loader, (segment (S (cfg.globalWorkerId l)) e : Multiset κ) := by
  rw [total, cfg.nDatasetWorkers_eq,
    ← Fin.sum_univ_eq_sum_range fun i => (segment (S i) e : Multiset κ),
    ← finProdFinEquiv.sum_comp]
  refine Finset.sum_congr rfl fun l _ => ?_
  rw [globalWorkerId_eq]

end FeedConfig

structure TrainingFeed (cfg : FeedConfig π) (κ : Type*) where
  pipeline : Pipeline π κ
  worker : cfg.Loader → DatasetWorker κ

namespace TrainingFeed

variable {cfg : FeedConfig π}

def new (cfg : FeedConfig π) : TrainingFeed cfg κ where
  pipeline := .new cfg.toPipelineConfig
  worker := fun _ => {}

/-- What the worker has received. -/
def received (s : TrainingFeed cfg κ) (l : cfg.Loader) : List (Option κ) :=
  s.pipeline.received (cfg.globalWorkerId l)

def setWorker (s : TrainingFeed cfg κ) (l : cfg.Loader) (w : DatasetWorker κ) :
    TrainingFeed cfg κ :=
  { s with worker := Function.update s.worker l w }

/-- A worker receives only in the `get` of its iterator. -/
inductive Step : TrainingFeed cfg κ → TrainingFeed cfg κ → Prop
  | pipeline {s : TrainingFeed cfg κ} {p : Pipeline π κ} :
      Pipeline.Step cfg.toPipelineConfig s.pipeline p → p.NoError cfg.toPipelineConfig →
      p.received = s.pipeline.received → Step s { s with pipeline := p }
  | iter {s : TrainingFeed cfg κ} {l : cfg.Loader} {w : DatasetWorker κ} :
      (s.worker l).iter = some w → Step s (s.setWorker l w)
  | next {s : TrainingFeed cfg κ} {l : cfg.Loader} {w : DatasetWorker κ} :
      (s.worker l).next = some w → Step s (s.setWorker l w)
  | get {s : TrainingFeed cfg κ} {l : cfg.Loader} {x : Option κ} {q : Queue (Option κ)}
      {w : DatasetWorker κ} :
      Zmq.Step (.recv (cfg.globalWorkerId l) x) s.pipeline.shuffleQueue q →
      Pipeline.NoError cfg.toPipelineConfig { s.pipeline with shuffleQueue := q } →
      (s.worker l).receive cfg.toIterConfig x = some w →
      Step s { s.setWorker l w with pipeline := { s.pipeline with shuffleQueue := q } }

def Reachable : TrainingFeed cfg κ → Prop := Reach (· = new cfg) Step

/-- What the loaders yield. `yieldsOf (e + 1)` is what a worker yields while its `_epoch`
is `e + 1`. -/
structure FedOnce (s : TrainingFeed cfg κ) : Prop where
  /-- All that a worker receives is yielded, once and in order, one iterator after the
  other. -/
  values : ∀ l, (s.worker l).iterators.flatten = (s.received l).reduceOption ∧
    (s.worker l).yields.map Prod.snd = (s.received l).reduceOption
  /-- The examples under one number of `_epoch` are of one epoch. -/
  oneEpoch : ∀ l k, ∃ e, (s.worker l).yieldsOf k <:+: segment (s.received l) e
  /-- Without `ignore_iterator_reset`, an iterator yields under one number of `_epoch`,
  its own, so it does not go over the end of an epoch. -/
  numbered : cfg.ignoreIteratorReset = false → ∀ l,
    (s.worker l).iterators =
      (List.range (s.worker l).epoch).map fun k => (s.worker l).yieldsOf (k + 1)
  /-- An iterator that returned gave a whole batch. -/
  ended : ∀ l, (s.worker l).ended.Sublist (s.worker l).iterators ∧
    ∀ out ∈ (s.worker l).ended, cfg.batchSize ≤ out.length
  /-- Where no iterator is abandoned, the loaders together yield each chunk of an epoch
  once, and under the number of that epoch. -/
  epochs : (∀ l, (s.worker l).abandoned = false) → ∀ e,
    (∀ l, e < marks (s.received l)) →
    ∑ l, ((s.worker l).yieldsOf (e + 1) : Multiset κ) =
      total cfg.nPreprocessWorkers s.pipeline.enqueued e
  atMostOnce : (∀ l, (s.worker l).abandoned = false) → ∀ e,
    ∑ l, ((s.worker l).yieldsOf (e + 1) : Multiset κ) ≤
      total cfg.nPreprocessWorkers s.pipeline.enqueued e
  /-- Without `ignore_iterator_reset`, an epoch that another one follows gave a whole
  batch. -/
  batch : cfg.ignoreIteratorReset = false → ∀ l, (s.worker l).abandoned = false →
    ∀ e, e + 1 < (s.worker l).epoch → cfg.batchSize ≤ ((s.worker l).yieldsOf (e + 1)).length

variable {s t : TrainingFeed cfg κ}

/-- The loaders and the pipeline below them. -/
structure Inv (s : TrainingFeed cfg κ) : Prop where
  pipeline : Pipeline.Reachable cfg.toPipelineConfig s.pipeline
  worker : ∀ l, (s.worker l).Inv cfg.toIterConfig (s.received l)

theorem Inv.setWorker (h : Inv s) {l : cfg.Loader} {w : DatasetWorker κ}
    (hw : w.Inv cfg.toIterConfig (s.received l)) : Inv (s.setWorker l w) where
  pipeline := h.pipeline
  worker := by
    intro l'
    by_cases hl : l' = l
    · subst hl
      show (Function.update s.worker l' w l').Inv cfg.toIterConfig (s.received l')
      rw [Function.update_self]
      exact hw
    · show (Function.update s.worker l w l').Inv cfg.toIterConfig (s.received l')
      rw [Function.update_of_ne hl]
      exact h.worker l'

theorem step_inv (hn : 0 < cfg.nPreprocessWorkers) (hm : 0 < cfg.nDatasetWorkers)
    (h : Inv s) (hs : Step s t) : Inv t := by
  cases hs with
  | pipeline hp hok hreceived =>
      refine ⟨h.pipeline.next ⟨hp, hok⟩, fun l => ?_⟩
      show (s.worker l).Inv cfg.toIterConfig (Pipeline.received _ (cfg.globalWorkerId l))
      rw [hreceived]
      exact h.worker l
  | iter hw => exact h.setWorker ((h.worker _).iter hw)
  | next hw => exact h.setWorker ((h.worker _).next hw)
  | @get l x q w hq hok hw =>
      have hcredit := (Pipeline.inv_of_reachable hn hm h.pipeline).shuffleCredit
      have hgot := (Pipeline.op_inv hcredit hq fun htau => by cases htau).recv_inv.2.2.2.2
      refine ⟨h.pipeline.next ⟨.datasetGet (cfg.globalWorkerId_lt l) hq, hok⟩, fun l' => ?_⟩
      show (Function.update s.worker l w l').Inv cfg.toIterConfig
        (q.abs.got (cfg.globalWorkerId l'))
      rw [hgot]
      by_cases hl : l' = l
      · subst hl
        rw [Function.update_self, append, Function.update_self]
        exact (h.worker l').receive hw
      · have hid := cfg.globalWorkerId_injective.ne hl
        rw [Function.update_of_ne hl, append, Function.update_of_ne hid]
        exact h.worker l'

/-- What is received of an epoch that all workers have ended. -/
theorem received_total (hn : 0 < cfg.nPreprocessWorkers) (hm : 0 < cfg.nDatasetWorkers)
    (h : Inv s) {e : ℕ} (he : ∀ l, e < marks (s.received l)) :
    total cfg.nDatasetWorkers s.pipeline.received e =
      total cfg.nPreprocessWorkers s.pipeline.enqueued e := by
  have hinv := Pipeline.inv_of_reachable hn hm h.pipeline
  have hended : ∀ j < cfg.nDatasetWorkers, e < marks (s.pipeline.received j) := by
    intro j hj
    obtain ⟨l, rfl⟩ := cfg.exists_globalWorkerId hj
    exact he l
  have hwritten : e < marks (s.pipeline.written 0) :=
    (hended 0 hm).trans_le (marks_mono (hinv.received_prefix_written 0))
  obtain ⟨hread, hclosed⟩ := hinv.shuffle.closed hm hwritten
  calc total cfg.nDatasetWorkers s.pipeline.received e
      = total cfg.nDatasetWorkers s.pipeline.written e :=
        (total_eq_of_closed (fun j _ => hinv.received_prefix_written j) hended).symm
    _ = total cfg.nPreprocessWorkers s.pipeline.read e := hclosed
    _ = total cfg.nPreprocessWorkers s.pipeline.enqueued e :=
        (total_eq_of_closed (fun i _ => hinv.read_prefix_enqueued i) hread).symm

theorem received_le (hn : 0 < cfg.nPreprocessWorkers) (hm : 0 < cfg.nDatasetWorkers)
    (h : Inv s) (e : ℕ) :
    total cfg.nDatasetWorkers s.pipeline.received e ≤
      total cfg.nPreprocessWorkers s.pipeline.enqueued e := by
  have hinv := Pipeline.inv_of_reachable hn hm h.pipeline
  calc total cfg.nDatasetWorkers s.pipeline.received e
      ≤ total cfg.nDatasetWorkers s.pipeline.written e :=
        total_mono fun j _ => hinv.received_prefix_written j
    _ ≤ total cfg.nPreprocessWorkers s.pipeline.read e := hinv.written_le_read e
    _ ≤ total cfg.nPreprocessWorkers s.pipeline.enqueued e :=
        total_mono fun i _ => hinv.read_prefix_enqueued i

/-- Iterators that run to their end yield the epochs as they are received. -/
theorem Inv.sum_yieldsOf (h : Inv s) (hwhole : ∀ l, (s.worker l).abandoned = false) (e : ℕ) :
    ∑ l, ((s.worker l).yieldsOf (e + 1) : Multiset κ) =
      total cfg.nDatasetWorkers s.pipeline.received e := by
  rw [cfg.total_loaders]
  refine Finset.sum_congr rfl fun l _ => ?_
  rw [(h.worker l).whole (hwhole l)]
  rfl

/-- **The loaders of all GPUs together yield each chunk once**, in every run of the
pipeline and of iterators that end or are abandoned. -/
theorem reachable_fedOnce (hn : 0 < cfg.nPreprocessWorkers) (hm : 0 < cfg.nDatasetWorkers)
    (h : Reachable s) : FedOnce s := by
  have hinv : Inv s := by
    refine Reach.invariant (I := Inv) ?_ (fun _ _ => step_inv hn hm) h
    rintro _ rfl
    exact ⟨.start rfl, fun l => DatasetWorker.inv_new⟩
  refine
    { values := fun l => ⟨(hinv.worker l).flatten, (hinv.worker l).values⟩
      oneEpoch := fun l => (hinv.worker l).oneEpoch
      numbered := fun hreset l => (hinv.worker l).iterators hreset
      ended := fun l => ⟨(hinv.worker l).endedIn, (hinv.worker l).ended⟩
      epochs := fun hwhole e he => ?_
      atMostOnce := fun hwhole e => ?_
      batch := fun hreset l hwhole e he => ?_ }
  · rw [hinv.sum_yieldsOf hwhole]
    exact received_total hn hm hinv he
  · rw [hinv.sum_yieldsOf hwhole]
    exact received_le hn hm hinv e
  · have hw := hinv.worker l
    have hepoch := hw.epoch hwhole
    rw [hw.whole hwhole]
    have hclosed : e < marks (s.received l) := by
      split at hepoch <;> omega
    by_cases hraised : (s.worker l).phase = .raised
    · refine hw.batch hwhole hreset e hclosed (Or.inr ?_)
      rw [DatasetWorker.count, hraised] at hepoch
      exact he.trans_eq hepoch
    · exact hw.batch hwhole hreset e hclosed (Or.inl hraised)

/-- Steps of the pipeline that give no worker anything. -/
theorem Reachable.feed {p : Pipeline π κ} (h : Reachable s)
    (hrun : Relation.ReflTransGen (Pipeline.FeedStep cfg.toPipelineConfig) s.pipeline p) :
    Reachable { s with pipeline := p } := by
  induction hrun with
  | refl => exact h
  | tail _ hstep ih => exact ih.next (.pipeline hstep.1 hstep.2.1 hstep.2.2)

/-! ## One loader -/

/-- One loader of a single worker. -/
def oneLoader : FeedConfig ℕ where
  toPipelineConfig := Pipeline.oneProto
  batchSize := 2
  ignoreIteratorReset := false
  nWorkersPerGpu := 1
  worldSize := 1
  nDatasetWorkers_eq := rfl

/-- The only worker, with the pipeline that has ended its first epoch. -/
def oneFed (got down : List (Option ℕ)) (w : DatasetWorker ℕ) : TrainingFeed oneLoader ℕ where
  pipeline := Pipeline.epochEnded got down
  worker := fun _ => w

theorem setWorker_oneFed {got down : List (Option ℕ)} {w w' : DatasetWorker ℕ}
    {l : oneLoader.Loader} : (oneFed got down w).setWorker l w' = oneFed got down w' := by
  have hone : ∀ l' : oneLoader.Loader, l' = l := by decide +revert
  simp only [setWorker, oneFed, TrainingFeed.mk.injEq, true_and]
  funext l'
  rw [hone l', Function.update_self]

theorem Reachable.get {got down : List (Option ℕ)} {x : Option ℕ} {w w' : DatasetWorker ℕ}
    (h : Reachable (oneFed got (x :: down) w))
    (hw : w.receive oneLoader.toIterConfig x = some w') :
    Reachable (oneFed (got ++ [x]) down w') := by
  have hget := h.next (.get (l := (⟨0, Nat.one_pos⟩, ⟨0, Nat.one_pos⟩))
    (Pipeline.step_recv .idle x) (Pipeline.noError_oneOfEach id id id) hw)
  rw [setWorker_oneFed] at hget
  exact hget

theorem Reachable.oneIter {got down : List (Option ℕ)} {w w' : DatasetWorker ℕ}
    (h : Reachable (oneFed got down w)) (hw : w.iter = some w' ∨ w.next = some w') :
    Reachable (oneFed got down w') := by
  rw [← setWorker_oneFed (w := w) (l := (⟨0, Nat.one_pos⟩, ⟨0, Nat.one_pos⟩))]
  exact hw.elim (fun hiter => h.next (.iter hiter)) fun hnext => h.next (.next hnext)

/-- An iterator yields the two chunks of the epoch and returns. -/
theorem reachable_oneFed : ∃ w : DatasetWorker ℕ,
    Reachable (oneFed [some 70, some 71, none] [] w) ∧ w.phase = .idle ∧
      w.iterators = [[70, 71]] ∧ w.ended = [[70, 71]] := by
  have hstart : Reachable (new oneLoader : TrainingFeed oneLoader ℕ) := .start rfl
  have hfed : Reachable (oneFed [] [some 70, some 71, none] {}) := hstart.feed Pipeline.run_epoch
  have hfirst := (hfed.oneIter (.inl rfl)).get rfl
  have hsecond := (hfirst.oneIter (.inr rfl)).get rfl
  have hreturned := (hsecond.oneIter (.inr rfl)).get rfl
  exact ⟨_, hreturned, rfl, rfl, rfl⟩

theorem reachable_fedOnce_oneLoader : ∃ s : TrainingFeed oneLoader ℕ,
    (∃ l, s.received l = [some 70, some 71, none] ∧ (s.worker l).ended = [[70, 71]]) ∧
      FedOnce s := by
  obtain ⟨w, hw, -, -, hended⟩ := reachable_oneFed
  exact ⟨_, ⟨(⟨0, Nat.one_pos⟩, ⟨0, Nat.one_pos⟩), rfl, hended⟩,
    reachable_fedOnce Nat.one_pos Nat.one_pos hw⟩

end TrainingFeed

end P2PRdt.Data

import Mathlib.Data.Multiset.AddSub
import Mathlib.Algebra.Order.Group.Multiset
import Mathlib.Data.List.Perm.Basic

/-!
# The two shufflers

`NoShuffle` and `ShuffleBuffer` behind `ShufflerInterface`. Both methods put
items on the shuffle queue while they run, so each is cut at its puts:
`addItem` and `sample` go from one put to the next and return the item that
is to be put. What the random generator answers is the argument `idx`; the
result is `none` where `gen_range` would panic on an empty range or where
`idx` is not in the range.
-/

namespace P2PRdt.Data

variable {κ : Type*}

/-- `Vec::swap_remove`: the last element takes the place of number `idx`. -/
def swapRemove (buffer : List κ) (idx : ℕ) : List κ :=
  match buffer.getLast? with
  | some last => (buffer.set idx last).dropLast
  | none => []

theorem cons_swapRemove_perm {buffer : List κ} {idx : ℕ} {x : κ}
    (h : buffer[idx]? = some x) : (x :: swapRemove buffer idx).Perm buffer := by
  rcases List.eq_nil_or_concat buffer with rfl | ⟨init, last, rfl⟩
  · simp at h
  rw [List.concat_eq_append] at h ⊢
  simp only [swapRemove, List.getLast?_append, List.getLast?_singleton, Option.some_or]
  by_cases hidx : idx < init.length
  · rw [List.set_append_left _ _ hidx, List.dropLast_concat]
    rw [List.getElem?_append_left hidx, List.getElem?_eq_some_iff] at h
    rcases h with ⟨_, rfl⟩
    calc init[idx] :: init.set idx last
        |>.Perm (init[idx] :: last :: init.eraseIdx idx) :=
          (List.set_perm_cons_eraseIdx hidx last).cons _
      _ |>.Perm (last :: init[idx] :: init.eraseIdx idx) := .swap _ _ _
      _ |>.Perm (last :: init) := (List.getElem_cons_eraseIdx_perm hidx).cons _
      _ |>.Perm (init ++ [last]) := (List.perm_append_singleton _ _).symm
  · rw [List.getElem?_append_right (Nat.le_of_not_lt hidx), List.getElem?_singleton] at h
    split at h
    · rename_i hzero
      obtain rfl : idx = init.length := by omega
      obtain rfl : last = x := Option.some.inj h
      simpa using (List.perm_append_singleton last init).symm
    · cases h

/-! ## The state of a shuffler -/

inductive Shuffler (κ : Type*) where
  | noShuffle (nExamplesInEpoch epoch : ℕ)
  | shuffleBuffer (buffer : List κ) (maxBufferSize nExamplesInEpoch epoch : ℕ)
deriving Repr

namespace Shuffler

/-- The choice of `run_shuffle_worker`. -/
def new (shuffle : Bool) (shuffleBufferSize : ℕ) : Shuffler κ :=
  if shuffle then .shuffleBuffer [] shuffleBufferSize 0 0 else .noShuffle 0 0

def buffered : Shuffler κ → List κ
  | noShuffle _ _ => []
  | shuffleBuffer buffer _ _ _ => buffer

def epoch : Shuffler κ → ℕ
  | noShuffle _ e | shuffleBuffer _ _ _ e => e

/-- Where `add_item` is after its first statements: done, or in the `put` of
`item`, with the shuffler as it is during the put and at the end. -/
inductive Added (κ : Type*) where
  | stored (s : Shuffler κ)
  | put (item : κ) (during after : Shuffler κ)

def addItem (s : Shuffler κ) (item : κ) (idx : ℕ) : Option (Added κ) :=
  match s with
  | noShuffle k e => some (.put item (noShuffle (k + 1) e) (noShuffle (k + 1) e))
  | shuffleBuffer buffer max k e =>
      if buffer.length < max then
        some (.stored (shuffleBuffer (buffer ++ [item]) max (k + 1) e))
      else
        buffer[idx]?.map fun sampled =>
          let rest := swapRemove buffer idx
          .put sampled (shuffleBuffer rest max (k + 1) e)
            (shuffleBuffer (rest ++ [item]) max (k + 1) e)

/-- One turn of the loop of `finish_epoch`, up to its put. -/
def sample (s : Shuffler κ) (idx : ℕ) : Option (κ × Shuffler κ) :=
  match s with
  | noShuffle _ _ => none
  | shuffleBuffer buffer max k e =>
      buffer[idx]?.map fun sampled => (sampled, shuffleBuffer (swapRemove buffer idx) max k e)

/-- `finish_epoch` between the loop and `put_to_all`. -/
def nextEpoch : Shuffler κ → Shuffler κ
  | noShuffle _ e => noShuffle 0 (e + 1)
  | shuffleBuffer buffer max _ e => shuffleBuffer buffer max 0 (e + 1)

/-! ## What the methods do with the items -/

@[simp] theorem epoch_nextEpoch (s : Shuffler κ) : s.nextEpoch.epoch = s.epoch + 1 := by
  cases s <;> rfl

@[simp] theorem buffered_nextEpoch (s : Shuffler κ) : s.nextEpoch.buffered = s.buffered := by
  cases s <;> rfl

@[simp] theorem epoch_new (b : Bool) (m : ℕ) : (new b m : Shuffler κ).epoch = 0 := by
  cases b <;> rfl

@[simp] theorem buffered_new (b : Bool) (m : ℕ) : (new b m : Shuffler κ).buffered = [] := by
  cases b <;> rfl

/-- The items that `add_item` puts and keeps are those it had and `x`. -/
theorem addItem_stored {s s' : Shuffler κ} {x : κ} {idx : ℕ}
    (h : s.addItem x idx = some (.stored s')) :
    s'.epoch = s.epoch ∧ (s'.buffered : Multiset κ) = s.buffered + {x} := by
  cases s with
  | noShuffle k e => simp [addItem] at h
  | shuffleBuffer buffer max k e =>
      simp only [addItem] at h
      split at h
      · simp only [Option.some.injEq, Added.stored.injEq] at h
        subst h
        exact ⟨rfl, (Multiset.coe_add _ _).symm⟩
      · obtain ⟨y, -, hy⟩ := Option.map_eq_some_iff.mp h
        cases hy

theorem addItem_put {s during after : Shuffler κ} {x y : κ} {idx : ℕ}
    (h : s.addItem x idx = some (.put y during after)) :
    after.epoch = s.epoch ∧ {y} + (after.buffered : Multiset κ) = s.buffered + {x} := by
  cases s with
  | noShuffle k e =>
      simp only [addItem, Option.some.injEq, Added.put.injEq] at h
      rcases h with ⟨rfl, rfl, rfl⟩
      exact ⟨rfl, rfl⟩
  | shuffleBuffer buffer max k e =>
      simp only [addItem] at h
      split at h
      · cases h
      · obtain ⟨z, hz, heq⟩ := Option.map_eq_some_iff.mp h
        simp only [Added.put.injEq] at heq
        rcases heq with ⟨rfl, rfl, rfl⟩
        refine ⟨rfl, ?_⟩
        have hperm := Multiset.coe_eq_coe.mpr (cons_swapRemove_perm hz)
        show {z} + ((swapRemove buffer idx ++ [x] : List κ) : Multiset κ) = buffer + {x}
        rw [← hperm, ← Multiset.coe_add, Multiset.coe_singleton, ← add_assoc,
          Multiset.singleton_add, Multiset.cons_coe]

theorem sample_spec {s s' : Shuffler κ} {x : κ} {idx : ℕ} (h : s.sample idx = some (x, s')) :
    s'.epoch = s.epoch ∧ {x} + (s'.buffered : Multiset κ) = s.buffered := by
  cases s with
  | noShuffle k e => simp [sample] at h
  | shuffleBuffer buffer max k e =>
      obtain ⟨z, hz, heq⟩ := Option.map_eq_some_iff.mp h
      simp only [Prod.mk.injEq] at heq
      rcases heq with ⟨rfl, rfl⟩
      exact ⟨rfl, Multiset.coe_eq_coe.mpr (cons_swapRemove_perm hz)⟩

end Shuffler

end P2PRdt.Data

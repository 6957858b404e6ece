import P2PRdt.Lib.Indices
import Mathlib.Algebra.BigOperators.Fin

/-!
# Arrays by their entries

A `Grid` has a shape and an entry for each index. What it holds outside its
shape is of no account: `Same` compares shapes and the entries inside. Shapes
broadcast from the last axis on, an axis of size one is repeated.
-/

namespace P2PRdt.Lib

structure Grid (α : Type) where
  shape : List ℕ
  entry : List ℕ → α

namespace Grid

variable {α β γ : Type}

structure Same (x y : Grid α) : Prop where
  shape_eq : x.shape = y.shape
  entry_eq : ∀ idx, InBounds x.shape idx → x.entry idx = y.entry idx

/-- A list as an array with one axis. -/
def ofList (default : α) (l : List α) : Grid α where
  shape := [l.length]
  entry := fun idx =>
    match idx with
    | [i] => l.getD i default
    | _ => default

def full (shape : List ℕ) (a : α) : Grid α := ⟨shape, fun _ => a⟩

def map (f : α → β) (x : Grid α) : Grid β := ⟨x.shape, fun idx => f (x.entry idx)⟩

@[simp] theorem shape_map (f : α → β) (x : Grid α) : (x.map f).shape = x.shape := rfl

@[simp] theorem entry_map (f : α → β) (x : Grid α) (idx : List ℕ) :
    (x.map f).entry idx = f (x.entry idx) := rfl

/-! ## Axes -/

/-- `x.reshape(shape)`: the entries in C order. -/
def reshape (x : Grid α) (shape : List ℕ) : Option (Grid α) :=
  if x.shape.prod = shape.prod then
    some ⟨shape, fun idx => x.entry (unravel x.shape (ravel shape idx))⟩
  else none

/-- The entry at the same place. -/
theorem reshape_spec {x : Grid α} {shape : List ℕ} (h : x.shape.prod = shape.prod) :
    ∃ y, x.reshape shape = some y ∧ y.shape = shape ∧
      ∀ idx idx', InBounds x.shape idx → ravel x.shape idx = ravel shape idx' →
        y.entry idx' = x.entry idx := by
  refine ⟨_, if_pos h, rfl, ?_⟩
  intro idx idx' hidx hplace
  show x.entry (unravel x.shape (ravel shape idx')) = x.entry idx
  rw [← hplace, unravel_ravel hidx]

/-- `x.reshape(-1)`. -/
def flatten (x : Grid α) : Grid α where
  shape := [x.shape.prod]
  entry := fun idx => x.entry (unravel x.shape (ravel [x.shape.prod] idx))

theorem flatten_of_shape {x : Grid α} {n : ℕ} (h : x.shape = [n]) : x.flatten.Same x := by
  have hflat : x.flatten.shape = x.shape := by
    show [x.shape.prod] = x.shape
    rw [h, List.prod_singleton]
  refine ⟨hflat, ?_⟩
  intro idx hidx
  show x.entry (unravel x.shape (ravel x.flatten.shape idx)) = x.entry idx
  rw [hflat] at hidx ⊢
  rw [unravel_ravel hidx]

/-- `x.unsqueeze(0)`. -/
def unsqueezeFirst (x : Grid α) : Grid α := ⟨1 :: x.shape, fun idx => x.entry idx.tail⟩

/-- `x.unsqueeze(-1)`. -/
def unsqueezeLast (x : Grid α) : Grid α := ⟨x.shape ++ [1], fun idx => x.entry idx.dropLast⟩

/-- `x.squeeze(0)`. -/
def squeezeFirst (x : Grid α) : Grid α :=
  match x.shape with
  | 1 :: rest => ⟨rest, fun idx => x.entry (0 :: idx)⟩
  | _ => x

theorem squeezeFirst_of_shape {x : Grid α} {rest : List ℕ} (h : x.shape = 1 :: rest) :
    x.squeezeFirst = ⟨rest, fun idx => x.entry (0 :: idx)⟩ := by
  rw [squeezeFirst]
  split
  next hshape =>
    rw [h] at hshape
    rw [List.cons_inj_right] at hshape
    rw [hshape]
  next hne => exact absurd h (hne rest)

/-- `x.sum(dim=-1)`. -/
def sumLast [AddCommMonoid α] (x : Grid α) : Grid α :=
  match x.shape.getLast? with
  | none => x
  | some n => ⟨x.shape.dropLast, fun idx => ∑ i ∈ Finset.range n, x.entry (idx ++ [i])⟩

theorem sumLast_of_shape [AddCommMonoid α] {x : Grid α} {pre : List ℕ} {n : ℕ}
    (h : x.shape = pre ++ [n]) :
    x.sumLast = ⟨pre, fun idx => ∑ i ∈ Finset.range n, x.entry (idx ++ [i])⟩ := by
  rw [sumLast, h, List.getLast?_append, List.dropLast_concat]
  rfl

/-! ## Broadcasting -/

/-- The common shape of two shapes, last axis first. -/
def broadcastAxes : List ℕ → List ℕ → Option (List ℕ)
  | [], t => some t
  | s, [] => some s
  | a :: s, b :: t =>
      if a = b ∨ b = 1 then (broadcastAxes s t).map (a :: ·)
      else if a = 1 then (broadcastAxes s t).map (b :: ·)
      else none

/-- The index that an array of a shape is read at. -/
def broadcastIndex (shape idx : List ℕ) : List ℕ :=
  (List.zipWith (fun d i => if d = 1 then 0 else i) shape.reverse idx.reverse).reverse

/-- An operation on two arrays, entry by entry. -/
def zipWith (f : α → β → γ) (x : Grid α) (y : Grid β) : Option (Grid γ) :=
  (broadcastAxes x.shape.reverse y.shape.reverse).map fun axes =>
    ⟨axes.reverse, fun idx =>
      f (x.entry (broadcastIndex x.shape idx)) (y.entry (broadcastIndex y.shape idx))⟩

theorem broadcastAxes_ones {t : List ℕ} {k : ℕ} (hk : k ≤ t.length) :
    broadcastAxes t (List.replicate k 1) = some t := by
  induction t generalizing k with
  | nil =>
      obtain rfl := Nat.le_zero.mp hk
      rfl
  | cons a t ih =>
      cases k with
      | zero => rfl
      | succ k =>
          rw [List.replicate_succ, broadcastAxes, if_pos (Or.inr rfl),
            ih (Nat.le_of_succ_le_succ hk)]
          rfl

theorem broadcastAxes_append (s : List ℕ) {t : List ℕ} {k : ℕ} (hk : k ≤ t.length) :
    broadcastAxes (s ++ t) (s ++ List.replicate k 1) = some (s ++ t) := by
  induction s with
  | nil => exact broadcastAxes_ones hk
  | cons a s ih =>
      rw [List.cons_append, List.cons_append, broadcastAxes, if_pos (Or.inl rfl), ih]
      rfl

/-- Axes of size one are read at 0, indices in front of the shape are dropped. -/
theorem broadcastIndex_append {k : ℕ} {shape : List ℕ} (pre : List ℕ) {idx : List ℕ}
    (hk : k ≤ pre.length) (h : InBounds shape idx) :
    broadcastIndex (List.replicate k 1 ++ shape) (pre ++ idx) = List.replicate k 0 ++ idx := by
  have hinside : ∀ {s i : List ℕ}, List.Forall₂ (· < ·) i s →
      List.zipWith (fun d i => if d = 1 then 0 else i) s i = i := by
    intro s i hi
    induction hi with
    | nil => rfl
    | @cons a d i s hlt _ ih =>
        rw [List.zipWith_cons_cons, ih]
        by_cases hd : d = 1
        · subst hd
          rw [if_pos rfl, Nat.lt_one_iff.mp hlt]
        · rw [if_neg hd]
  have hfront : ∀ {k : ℕ} {i : List ℕ}, k ≤ i.length →
      List.zipWith (fun d i => if d = 1 then 0 else i) (List.replicate k 1) i =
        List.replicate k 0 := by
    intro k i hki
    induction k generalizing i with
    | zero => rfl
    | succ k ih =>
        obtain ⟨a, i, rfl⟩ := List.exists_cons_of_length_pos (Nat.zero_lt_of_lt hki)
        rw [List.replicate_succ, List.zipWith_cons_cons, if_pos rfl,
          ih (Nat.le_of_succ_le_succ hki)]
        rfl
  have hlen : shape.reverse.length = idx.reverse.length := by
    rw [List.length_reverse, List.length_reverse, h.length_eq]
  rw [broadcastIndex, List.reverse_append, List.reverse_append, List.zipWith_append hlen,
    hinside (List.rel_reverse h), List.reverse_replicate,
    hfront (List.length_reverse.symm ▸ hk), List.reverse_append, List.reverse_reverse,
    List.reverse_replicate]

theorem broadcastIndex_self {shape idx : List ℕ} (h : InBounds shape idx) :
    broadcastIndex shape idx = idx :=
  broadcastIndex_append (k := 0) [] (Nat.le_refl 0) h

/-- An array whose leading axes are missing or of size one is repeated over the
leading axes of the other. -/
theorem zipWith_repeat (f : α → β → γ) {x : Grid α} {y : Grid β} (pre post : List ℕ) {k : ℕ}
    (hk : k ≤ pre.length) (hx : x.shape = pre ++ post) (hy : y.shape = List.replicate k 1 ++ post) :
    ∃ z, x.zipWith f y = some z ∧ z.shape = x.shape ∧
      ∀ idx idx', InBounds pre idx → InBounds post idx' →
        z.entry (idx ++ idx') =
          f (x.entry (idx ++ idx')) (y.entry (List.replicate k 0 ++ idx')) := by
  refine ⟨⟨x.shape, fun idx => f (x.entry (broadcastIndex x.shape idx))
    (y.entry (broadcastIndex y.shape idx))⟩, ?_, rfl, ?_⟩
  · have hlen : k ≤ pre.reverse.length := List.length_reverse.symm ▸ hk
    rw [zipWith, hx, hy, List.reverse_append, List.reverse_append, List.reverse_replicate,
      broadcastAxes_append post.reverse hlen, Option.map_some, List.reverse_append,
      List.reverse_reverse, List.reverse_reverse]
  · intro idx idx' hidx hidx'
    show f (x.entry (broadcastIndex x.shape (idx ++ idx')))
      (y.entry (broadcastIndex y.shape (idx ++ idx'))) = _
    rw [broadcastIndex_self (hx ▸ hidx.append hidx'), hy,
      broadcastIndex_append idx (hidx.length_eq.symm ▸ hk) hidx']

end Grid

end P2PRdt.Lib

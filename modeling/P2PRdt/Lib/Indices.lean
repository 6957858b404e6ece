import P2PRdt.Lib.Strided
import Mathlib.Algebra.Ring.Nat
import Mathlib.Data.List.Forall2

/-!
# Multi-indices in C order

An entry of an array with several axes is named by one index for each axis.
`ravel` is its place when the last axis runs fastest, `unravel` finds the
indices of a place, and `indices` lists them all in this order. Two neighbouring
axes can be merged without moving an entry.
-/

namespace P2PRdt.Lib

/-- One index for each axis, each inside its axis. -/
def InBounds (shape idx : List ℕ) : Prop := List.Forall₂ (· < ·) idx shape

instance (shape idx : List ℕ) : Decidable (InBounds shape idx) :=
  inferInstanceAs (Decidable (List.Forall₂ (· < ·) idx shape))

variable {shape idx : List ℕ} {d i : ℕ}

@[simp] theorem inBounds_nil : InBounds [] idx ↔ idx = [] := List.forall₂_nil_right_iff

@[simp] theorem inBounds_cons_cons :
    InBounds (d :: shape) (i :: idx) ↔ i < d ∧ InBounds shape idx := List.forall₂_cons

theorem inBounds_cons :
    InBounds (d :: shape) idx ↔ ∃ i rest, i < d ∧ InBounds shape rest ∧ idx = i :: rest :=
  List.forall₂_cons_right_iff

theorem inBounds_one : InBounds [d] idx ↔ ∃ i, i < d ∧ idx = [i] := by
  rw [inBounds_cons]
  constructor
  · rintro ⟨i, rest, hi, hrest, rfl⟩
    exact ⟨i, hi, by rw [inBounds_nil.mp hrest]⟩
  · rintro ⟨i, hi, rfl⟩
    exact ⟨i, [], hi, inBounds_nil.mpr rfl, rfl⟩

theorem inBounds_two {c : ℕ} : InBounds [c, d] idx ↔ ∃ i j, i < c ∧ j < d ∧ idx = [i, j] := by
  rw [inBounds_cons]
  constructor
  · rintro ⟨i, rest, hi, hrest, rfl⟩
    obtain ⟨j, hj, rfl⟩ := inBounds_one.mp hrest
    exact ⟨i, j, hi, hj, rfl⟩
  · rintro ⟨i, j, hi, hj, rfl⟩
    exact ⟨i, [j], hi, inBounds_one.mpr ⟨j, hj, rfl⟩, rfl⟩

theorem InBounds.length_eq (h : InBounds shape idx) : idx.length = shape.length :=
  List.Forall₂.length_eq h

theorem InBounds.append {shape' idx' : List ℕ} (h : InBounds shape idx)
    (h' : InBounds shape' idx') : InBounds (shape ++ shape') (idx ++ idx') :=
  List.rel_append h h'

/-! ## Places -/

def ravel : List ℕ → List ℕ → ℕ
  | _ :: shape, i :: idx => i * shape.prod + ravel shape idx
  | _, _ => 0

def unravel : List ℕ → ℕ → List ℕ
  | [], _ => []
  | _ :: shape, n => n / shape.prod :: unravel shape (n % shape.prod)

@[simp] theorem ravel_nil : ravel [] idx = 0 := by
  cases idx <;> rfl

@[simp] theorem ravel_cons : ravel (d :: shape) (i :: idx) = i * shape.prod + ravel shape idx := rfl

theorem ravel_lt (h : InBounds shape idx) : ravel shape idx < shape.prod := by
  induction shape generalizing idx with
  | nil => exact Nat.one_pos
  | cons d shape ih =>
      obtain ⟨i, rest, hi, hrest, rfl⟩ := inBounds_cons.mp h
      calc i * shape.prod + ravel shape rest
          < i * shape.prod + shape.prod := Nat.add_lt_add_left (ih hrest) _
        _ = (i + 1) * shape.prod := (Nat.succ_mul _ _).symm
        _ ≤ d * shape.prod := Nat.mul_le_mul_right _ hi

theorem unravel_ravel (h : InBounds shape idx) : unravel shape (ravel shape idx) = idx := by
  induction shape generalizing idx with
  | nil => exact (inBounds_nil.mp h).symm
  | cons d shape ih =>
      obtain ⟨i, rest, -, hrest, rfl⟩ := inBounds_cons.mp h
      have hlt := ravel_lt hrest
      have hpos := Nat.zero_lt_of_lt hlt
      rw [ravel_cons, unravel, Nat.mul_comm i, Nat.mul_add_div hpos, Nat.div_eq_of_lt hlt,
        Nat.add_zero, Nat.mul_add_mod, Nat.mod_eq_of_lt hlt, ih hrest]

/-- Merging two neighbouring axes moves no entry. -/
theorem ravel_merge (pre post : List ℕ) (m n : ℕ) (ipre : List ℕ) {ipost : List ℕ} (a b : ℕ)
    (hpre : ipre.length = pre.length) :
    ravel (pre ++ m :: n :: post) (ipre ++ a :: b :: ipost) =
      ravel (pre ++ m * n :: post) (ipre ++ (a * n + b) :: ipost) := by
  induction pre generalizing ipre with
  | nil =>
      obtain rfl := List.length_eq_zero_iff.mp hpre
      simp only [List.nil_append, ravel_cons, List.prod_cons]
      ring
  | cons d pre ih =>
      obtain ⟨i, ipre, rfl⟩ := List.exists_cons_of_length_eq_add_one hpre
      have hprod : (pre ++ m :: n :: post).prod = (pre ++ m * n :: post).prod := by
        simp only [List.prod_append, List.prod_cons, Nat.mul_assoc]
      rw [List.cons_append, List.cons_append, ravel_cons, ih ipre (Nat.succ.inj hpre), hprod]
      rfl

/-! ## All of them -/

def indices : List ℕ → List (List ℕ)
  | [] => [[]]
  | d :: shape => (List.range d).flatMap fun i => (indices shape).map (i :: ·)

@[simp] theorem length_indices (shape : List ℕ) : (indices shape).length = shape.prod := by
  induction shape with
  | nil => rfl
  | cons d shape ih =>
      rw [indices, length_flatMap_blocks (V := shape.prod), List.length_range, List.prod_cons]
      intro i _
      rw [List.length_map, ih]

/-- The list is in the order of the places. -/
theorem getElem?_indices (h : InBounds shape idx) :
    (indices shape)[ravel shape idx]? = some idx := by
  induction shape generalizing idx with
  | nil =>
      obtain rfl := inBounds_nil.mp h
      rfl
  | cons d shape ih =>
      obtain ⟨i, rest, hi, hrest, rfl⟩ := inBounds_cons.mp h
      have hblocks : ∀ i ∈ List.range d, ((indices shape).map (i :: ·)).length = shape.prod := by
        intro i _
        rw [List.length_map, length_indices]
      rw [indices, ravel_cons, getElem?_flatMap_blocks hblocks (ravel_lt hrest),
        List.getElem?_range hi, Option.bind_some, List.getElem?_map, ih hrest, Option.map_some]

end P2PRdt.Lib

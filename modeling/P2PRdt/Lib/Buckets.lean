import Mathlib.Algebra.Order.Floor.Ring
import Mathlib.Algebra.Order.Ring.Rat
import Mathlib.Data.Rat.Floor
import Mathlib.Data.List.Count
import Mathlib.Algebra.Ring.Parity
import Mathlib.Tactic.Linarith

/-!
# Buckets and rounding

`bucketize edges v` is the number of edges below `v`, which for increasing
edges is the half-open bucket `(edges[i - 1], edges[i]]` that holds `v`. It is
monotone, so a bucket that holds two values holds everything between them.
`roundHalfEven` rounds to the nearest integer, ties to the even one, and stays
between integer bounds.
-/

namespace P2PRdt.Lib

section Bucketize

variable {α : Type*} [LinearOrder α]

def bucketize (edges : List α) (v : α) : ℕ := edges.countP (· < v)

theorem bucketize_mono (edges : List α) {v w : α} (h : v ≤ w) :
    bucketize edges v ≤ bucketize edges w := by
  apply List.countP_mono_left
  intro e _ he
  simp only [decide_eq_true_eq] at he ⊢
  exact lt_of_lt_of_le he h

theorem bucketize_le_length (edges : List α) (v : α) : bucketize edges v ≤ edges.length :=
  List.countP_le_length

theorem bucketize_eq_of_between {edges : List α} {a v b : α} {k : ℕ} (hav : a ≤ v) (hvb : v ≤ b)
    (ha : bucketize edges a = k) (hb : bucketize edges b = k) : bucketize edges v = k := by
  apply le_antisymm
  · exact (bucketize_mono edges hvb).trans_eq hb
  · exact ha.symm.trans_le (bucketize_mono edges hav)

end Bucketize

section Round

variable {K : Type*} [Field K] [LinearOrder K] [IsStrictOrderedRing K] [FloorRing K]

/-- Round half to even. -/
def roundHalfEven (q : K) : ℤ :=
  if Int.fract q < 1 / 2 then ⌊q⌋
  else if 1 / 2 < Int.fract q then ⌊q⌋ + 1
  else if Even ⌊q⌋ then ⌊q⌋ else ⌊q⌋ + 1

omit [IsStrictOrderedRing K] in
theorem floor_le_roundHalfEven (q : K) : ⌊q⌋ ≤ roundHalfEven q := by
  unfold roundHalfEven
  split_ifs <;> omega

/-- An integer above `q` is not passed. -/
theorem roundHalfEven_le {q : K} {b : ℤ} (h : q ≤ b) : roundHalfEven q ≤ b := by
  by_cases hq : q = b
  · subst hq
    simp [roundHalfEven]
  · have hlt : ⌊q⌋ < b := Int.floor_lt.mpr (lt_of_le_of_ne h hq)
    unfold roundHalfEven
    split_ifs <;> omega

omit [IsStrictOrderedRing K] in
theorem le_roundHalfEven {q : K} {a : ℤ} (h : (a : K) ≤ q) : a ≤ roundHalfEven q :=
  (Int.le_floor.mpr h).trans (floor_le_roundHalfEven q)

@[simp] theorem roundHalfEven_intCast (a : ℤ) : roundHalfEven (a : K) = a := by
  simp [roundHalfEven]

end Round

/-! ## Mirrored edges -/

section Mirrored

variable {K : Type*} [Field K] [LinearOrder K] [IsStrictOrderedRing K]

/-- The integers `P` as edges, and below them their mirror images, each moved
down by `eps`. For integers this mirrors the half-open buckets. -/
def mirrored (eps : K) (P : List ℤ) : List K :=
  (P.map fun k : ℤ => -(k : K) - eps).reverse ++ P.map fun k : ℤ => (k : K)

omit [LinearOrder K] [IsStrictOrderedRing K] in
theorem length_mirrored (eps : K) (P : List ℤ) :
    (mirrored eps P).length = P.length + P.length := by
  simp [mirrored]

theorem bucketize_mirrored {eps : K} (hpos : 0 < eps) (hlt : eps < 1) (P : List ℤ) (v : ℤ) :
    bucketize (mirrored eps P) (v : K) = P.countP (-v ≤ ·) + P.countP (· < v) := by
  have hshifted : ∀ k : ℤ, -(k : K) - eps < v ↔ -v ≤ k := by
    intro k
    constructor
    · intro h
      have hcast : ((-v : ℤ) : K) < ((k + 1 : ℤ) : K) := by
        push_cast
        linarith
      have hint : -v < k + 1 := Int.cast_lt.mp hcast
      omega
    · intro h
      have hcast : ((-v : ℤ) : K) ≤ (k : K) := Int.cast_le.mpr h
      push_cast at hcast
      linarith
  rw [bucketize, mirrored, List.countP_append, List.countP_reverse, List.countP_map,
    List.countP_map]
  congr 1
  · apply List.countP_congr
    intro k _
    simp only [Function.comp_apply, decide_eq_true_eq]
    exact hshifted k
  · apply List.countP_congr
    intro k _
    simp only [Function.comp_apply, decide_eq_true_eq]
    exact Int.cast_lt

/-- Mirroring an integer mirrors its bucket. -/
theorem bucketize_mirrored_neg {eps : K} (hpos : 0 < eps) (hlt : eps < 1) (P : List ℤ) (v : ℤ) :
    bucketize (mirrored eps P) ((-v : ℤ) : K) =
      (mirrored eps P).length - bucketize (mirrored eps P) (v : K) := by
  have hcount : ∀ w : ℤ, P.countP (w ≤ ·) + P.countP (· < w) = P.length := by
    intro w
    rw [List.length_eq_countP_add_countP (fun k => decide (w ≤ k))]
    congr 1
    apply List.countP_congr
    intro k _
    simp
  rw [bucketize_mirrored hpos hlt, bucketize_mirrored hpos hlt, length_mirrored, neg_neg]
  have h₁ := hcount v
  have h₂ := hcount (-v)
  omega

end Mirrored

end P2PRdt.Lib

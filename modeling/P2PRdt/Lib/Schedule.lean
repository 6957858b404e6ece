import Mathlib.Algebra.Order.Field.Basic
import Mathlib.Data.List.Basic
import Mathlib.Tactic.FieldSimp
import Mathlib.Tactic.Linarith
import Mathlib.Tactic.Positivity
import Mathlib.Tactic.Ring

/-!
# Decreasing schedules and lookups by nearest value

`linspace` is the evenly spaced sequence from `start` to `stop`; between
different ends it is strictly monotone. In a list without repetitions the value
at a position is nearest to itself only, so the position is recovered by
`argmin` of the distances.
-/

namespace P2PRdt.Lib

section Linspace

variable {K : Type*} [Field K]

/-- `steps` evenly spaced values from `start` to `stop`; a single step gives
`start`. -/
def linspace (start stop : K) (steps : ℕ) : List K :=
  (List.range steps).map fun i : ℕ => start + (stop - start) / ((steps - 1 : ℕ) : K) * i

@[simp] theorem length_linspace (start stop : K) (steps : ℕ) :
    (linspace start stop steps).length = steps := by
  simp [linspace]

variable [LinearOrder K] [IsStrictOrderedRing K]

theorem linspace_pairwise {start stop : K} (h : stop < start) (steps : ℕ) :
    (linspace start stop steps).Pairwise (· > ·) := by
  rw [linspace, List.pairwise_map]
  apply List.Pairwise.imp_of_mem _ (List.pairwise_lt_range (n := steps))
  intro i j hi hj hij
  have hpos : (0 : K) < ((steps - 1 : ℕ) : K) := by
    rw [List.mem_range] at hj
    exact_mod_cast Nat.sub_pos_of_lt (Nat.lt_of_le_of_lt (Nat.one_le_of_lt hij) hj)
  have hneg : (stop - start) / ((steps - 1 : ℕ) : K) < 0 :=
    div_neg_of_neg_of_pos (sub_neg.mpr h) hpos
  have hcast : (i : K) < j := by exact_mod_cast hij
  have := mul_lt_mul_of_neg_left hcast hneg
  exact add_lt_add_right this start

theorem mem_linspace_bounds {start stop : K} (h : stop ≤ start) {steps : ℕ} {v : K}
    (hv : v ∈ linspace start stop steps) : stop ≤ v ∧ v ≤ start := by
  rw [linspace, List.mem_map] at hv
  rcases hv with ⟨i, hi, rfl⟩
  rw [List.mem_range] at hi
  have hile : (i : K) ≤ ((steps - 1 : ℕ) : K) := by exact_mod_cast Nat.le_sub_one_of_lt hi
  have hi0 : (0 : K) ≤ i := Nat.cast_nonneg i
  have hratio : (i : K) / ((steps - 1 : ℕ) : K) ≤ 1 :=
    div_le_one_of_le₀ hile (Nat.cast_nonneg _)
  have hratio0 : 0 ≤ (i : K) / ((steps - 1 : ℕ) : K) := div_nonneg hi0 (Nat.cast_nonneg _)
  have hval : (stop - start) / ((steps - 1 : ℕ) : K) * i =
      -((start - stop) * ((i : K) / ((steps - 1 : ℕ) : K))) := by ring
  have hgap : 0 ≤ start - stop := sub_nonneg.mpr h
  have hupper := mul_le_mul_of_nonneg_left hratio hgap
  have hlower := mul_nonneg hgap hratio0
  rw [hval]
  constructor <;> linarith

end Linspace

section Argmin

variable {K : Type*} [LinearOrder K]

/-- The position of the first minimal value. -/
def argmin (l : List K) : Option ℕ := l.min?.map fun m => l.findIdx (· == m)

theorem argmin_eq_some {l : List K} {i : ℕ} (hi : i < l.length)
    (hmin : ∀ j (hj : j < l.length), l[i] ≤ l[j])
    (hfirst : ∀ j (hj : j < i), l[j] ≠ l[i]) : argmin l = some i := by
  have hm : l.min? = some l[i] := by
    rw [List.min?_eq_some_iff]
    refine ⟨List.getElem_mem hi, ?_⟩
    intro b hb
    obtain ⟨j, hj, rfl⟩ := List.getElem_of_mem hb
    exact hmin j hj
  rw [argmin, hm, Option.map_some, Option.some_inj, List.findIdx_eq hi]
  refine ⟨by simp, ?_⟩
  intro j hj
  simpa using hfirst j hj

end Argmin

section Nearest

variable {K : Type*} [Field K] [LinearOrder K] [IsStrictOrderedRing K]

/-- **Nearest lookup.** A list without repetitions has each of its values
nearest at that value's own position. -/
theorem argmin_abs_sub {l : List K} (hl : l.Nodup) {i : ℕ} {t : K} (h : l[i]? = some t) :
    argmin (l.map fun v => |v - t|) = some i := by
  obtain ⟨hi, rfl⟩ := List.getElem?_eq_some_iff.mp h
  have hlen : i < (l.map fun v => |v - l[i]|).length := by simpa using hi
  apply argmin_eq_some hlen
  · intro j hj
    simp
  · intro j hj heq
    rw [List.getElem_map, List.getElem_map, sub_self, abs_zero, abs_eq_zero, sub_eq_zero] at heq
    exact hj.ne ((hl.getElem_inj_iff).mp heq)

end Nearest

end P2PRdt.Lib

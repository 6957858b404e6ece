import Mathlib.Algebra.BigOperators.Group.List.Basic
import Mathlib.Algebra.Ring.Nat

/-!
# Places in a concatenation

In a concatenation of lists, list number `k` starts at the sum of the lengths before
it. Each place of the concatenation belongs to one of the lists.
-/

namespace P2PRdt.Lib

variable {α : Type*}

/-- Place `j` of list `k` follows all that is before the list. -/
theorem getElem?_flatten_start {xss : List (List α)} {k j : ℕ} {xs : List α}
    (hk : xss[k]? = some xs) (hj : j < xs.length) :
    xss.flatten[((xss.map List.length).take k).sum + j]? = xs[j]? := by
  induction xss generalizing k with
  | nil => cases hk
  | cons ys xss ih =>
      cases k with
      | zero =>
          obtain rfl := Option.some.inj hk
          rw [List.take_zero, List.sum_nil, Nat.zero_add, List.flatten_cons,
            List.getElem?_append_left hj]
      | succ k =>
          rw [List.map_cons, List.take_succ_cons, List.sum_cons, Nat.add_assoc,
            List.flatten_cons, List.getElem?_append_right (Nat.le_add_right _ _),
            Nat.add_sub_cancel_left]
          exact ih hk

/-- Every place below the sum of the lengths lies in one of the lists. -/
theorem exists_start_add {lens : List ℕ} {i : ℕ} (hi : i < lens.sum) :
    ∃ k j len, lens[k]? = some len ∧ j < len ∧ (lens.take k).sum + j = i := by
  induction lens generalizing i with
  | nil => cases hi
  | cons len lens ih =>
      rcases Nat.lt_or_ge i len with hfirst | hlater
      · exact ⟨0, i, len, rfl, hfirst, Nat.zero_add i⟩
      · rw [List.sum_cons] at hi
        obtain ⟨k, j, len', hk, hj, hsum⟩ := ih (i := i - len) (by omega)
        refine ⟨k + 1, j, len', hk, hj, ?_⟩
        rw [List.take_succ_cons, List.sum_cons]
        omega

end P2PRdt.Lib

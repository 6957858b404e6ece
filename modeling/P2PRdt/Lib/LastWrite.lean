import Mathlib.Order.Bounds.Basic
import Mathlib.Tactic.TypeStar

/-!
# The last write wins

A memory is overwritten by one write after the other, each in the places that
it covers. A place holds in the end what the last write that covers it has
written there, and what was there before if there is none.
-/

namespace P2PRdt.Lib

variable {ι α : Type*}

structure Write (ι α : Type*) where
  covers : ι → Bool
  value : α

/-- The memory after all the writes. -/
def writeAll (mem : ι → α) : List (Write ι α) → ι → α
  | [] => mem
  | w :: ws => writeAll (fun p => if w.covers p then w.value else mem p) ws

@[simp] theorem writeAll_cons (mem : ι → α) (w : Write ι α) (ws : List (Write ι α)) :
    writeAll mem (w :: ws) = writeAll (fun p => if w.covers p then w.value else mem p) ws := rfl

/-- The writes that cover a place. -/
def Covering (ws : List (Write ι α)) (p : ι) : Set ℕ :=
  {j | ∃ w ∈ ws[j]?, w.covers p = true}

theorem writeAll_of_not_covered (mem : ι → α) {ws : List (Write ι α)} {p : ι}
    (h : ∀ j, j ∉ Covering ws p) : writeAll mem ws p = mem p := by
  induction ws generalizing mem with
  | nil => rfl
  | cons w ws ih =>
      have hw : ¬ w.covers p = true := fun hw => h 0 ⟨w, rfl, hw⟩
      rw [writeAll_cons, ih]
      · exact if_neg hw
      · intro j hj
        exact h (j + 1) hj

/-- The last write that covers `p` has the last word on it. -/
theorem writeAll_of_isGreatest (mem : ι → α) {ws : List (Write ι α)} {p : ι} {j : ℕ}
    {w : Write ι α} (h : IsGreatest (Covering ws p) j) (hj : ws[j]? = some w) :
    writeAll mem ws p = w.value := by
  induction ws generalizing mem j with
  | nil => cases hj
  | cons v ws ih =>
      rw [writeAll_cons]
      cases j with
      | zero =>
          -- nothing after the first write covers `p`
          obtain rfl : v = w := Option.some.inj hj
          rcases h.1 with ⟨v', hv', hcov⟩
          obtain rfl : v = v' := Option.some.inj hv'
          rw [writeAll_of_not_covered]
          · exact if_pos hcov
          · intro k hk
            exact absurd (h.2 (show k + 1 ∈ Covering (v :: ws) p from hk)) (Nat.not_succ_le_zero k)
      | succ j =>
          apply ih _ _ hj
          refine ⟨h.1, fun k hk => ?_⟩
          exact Nat.le_of_succ_le_succ (h.2 (show k + 1 ∈ Covering (v :: ws) p from hk))

end P2PRdt.Lib

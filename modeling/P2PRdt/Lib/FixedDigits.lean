import Mathlib.Algebra.BigOperators.Fin

/-!
# Numerals of a fixed length

The numerals of `D` digits below `n`, most significant digit first, are in
bijection with the numbers below `n ^ D`. This is the equivalence of Mathlib
read from the other end.
-/

namespace P2PRdt.Lib

variable {n D : ℕ}

def digitsEquiv (n D : ℕ) : (Fin D → Fin n) ≃ Fin (n ^ D) :=
  (Equiv.arrowCongr Fin.revPerm (Equiv.refl _)).trans finFunctionFinEquiv

theorem digitsEquiv_val (d : Fin D → Fin n) :
    (digitsEquiv n D d : ℕ) = ∑ i : Fin D, (d i : ℕ) * n ^ (D - 1 - i) := by
  have hsum : (digitsEquiv n D d : ℕ) = ∑ i : Fin D, (d (Fin.rev i) : ℕ) * n ^ (i : ℕ) :=
    finFunctionFinEquiv_apply _
  rw [hsum, ← Equiv.sum_comp Fin.revPerm]
  apply Finset.sum_congr rfl
  intro i _
  rw [Fin.revPerm_apply, Fin.rev_rev, Fin.val_rev, Nat.sub_sub, Nat.add_comm 1]

theorem digitsEquiv_symm_val (k : Fin (n ^ D)) (i : Fin D) :
    ((digitsEquiv n D).symm k i : ℕ) = k / n ^ (D - 1 - i) % n := by
  have hdigit : ((digitsEquiv n D).symm k i : ℕ) = k / n ^ (Fin.rev i : ℕ) % n :=
    finFunctionFinEquiv_symm_apply_val k (Fin.rev i)
  rw [hdigit, Fin.val_rev, Nat.sub_sub, Nat.add_comm 1]

end P2PRdt.Lib

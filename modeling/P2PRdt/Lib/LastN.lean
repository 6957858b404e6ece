import Mathlib.Data.List.Basic

/-!
# The last entries of a log

A bounded history shows the last `n` entries of a log. A new entry is appended
while there is room, and later pushes the oldest one out.
-/

namespace P2PRdt.Lib

variable {α β : Type}

def lastN (n : ℕ) (log : List α) : List α := log.drop (log.length - n)

@[simp] theorem lastN_zero (log : List α) : lastN 0 log = [] := by
  simp [lastN]

theorem length_lastN {n : ℕ} {log : List α} (h : n ≤ log.length) : (lastN n log).length = n := by
  rw [lastN, List.length_drop, Nat.sub_sub_self h]

/-- Appending an entry while there is room. -/
theorem lastN_succ_concat (n : ℕ) (log : List α) (e : α) :
    lastN (n + 1) (log ++ [e]) = lastN n log ++ [e] := by
  rw [lastN, lastN, List.length_append, List.length_singleton, Nat.add_sub_add_right,
    List.drop_append_of_le_length (Nat.sub_le _ _)]

/-- The oldest of the last entries goes first. -/
theorem tail_lastN {n : ℕ} {log : List α} (h : n + 1 ≤ log.length) :
    (lastN (n + 1) log).tail = lastN n log := by
  have hstart : log.length - (n + 1) + 1 = log.length - n := by
    rw [Nat.sub_add_eq, Nat.sub_add_cancel (Nat.le_sub_of_add_le' h)]
  rw [lastN, lastN, List.tail_drop, hstart]

theorem take_set_succ {l : List α} {n : ℕ} (h : n < l.length) (a : α) :
    (l.set n a).take (n + 1) = l.take n ++ [a] := by
  rw [List.take_add_one, List.take_set_of_le (Nat.le_refl n), List.getElem?_set_self h]
  rfl

end P2PRdt.Lib

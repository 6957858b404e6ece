import Mathlib.Data.List.Infix
import Mathlib.Order.Lattice
import Mathlib.Tactic.TypeStar

/-!
# Round-robin merges

Finite lists `L 0, …, L (n - 1)` are read in rounds: in round `r` each list in
turn gives its element number `r`, and a list that has come to its end is
skipped. `turns n L r i` is what has been read when it is the turn of list `i`
in round `r`, each element with the number of its list.
-/

namespace P2PRdt.Lib

variable {α : Type*}

/-- What list `i` gives in round `r`. -/
def turn (L : ℕ → List α) (r i : ℕ) : Option (ℕ × α) := (L i)[r]?.map (i, ·)

def turns (n : ℕ) (L : ℕ → List α) (r i : ℕ) : List (ℕ × α) :=
  (List.range r).flatMap (fun r => (List.range n).filterMap (turn L r)) ++
    (List.range i).filterMap (turn L r)

/-- The number of rounds. -/
def longest (n : ℕ) (L : ℕ → List α) : ℕ :=
  (List.range n).foldr (fun i m => max (L i).length m) 0

/-- The merge of the first `n` lists. -/
def roundRobin (n : ℕ) (L : ℕ → List α) : List (ℕ × α) := turns n L (longest n L) 0

variable {n : ℕ} {L : ℕ → List α}

@[simp] theorem turns_zero (n : ℕ) (L : ℕ → List α) : turns n L 0 0 = [] := rfl

theorem turns_some {r i : ℕ} {x : α} (h : (L i)[r]? = some x) :
    turns n L r (i + 1) = turns n L r i ++ [(i, x)] := by
  have hturn : [i].filterMap (turn L r) = [(i, x)] := by simp [turn, h]
  rw [turns, turns, List.range_succ, List.filterMap_append, hturn, List.append_assoc]

theorem turns_none {r i : ℕ} (h : (L i)[r]? = none) :
    turns n L r (i + 1) = turns n L r i := by
  have hturn : [i].filterMap (turn L r) = [] := by simp [turn, h]
  rw [turns, turns, List.range_succ, List.filterMap_append, hturn, List.append_nil]

/-- After the last list the next round begins. -/
theorem turns_round (n : ℕ) (L : ℕ → List α) (r : ℕ) : turns n L r n = turns n L (r + 1) 0 := by
  rw [turns, turns, List.range_succ, List.flatMap_append, List.flatMap_singleton,
    List.range_zero, List.filterMap_nil, List.append_nil]

theorem turns_prefix_succ (r i : ℕ) : turns n L r i <+: turns n L r (i + 1) := by
  cases h : (L i)[r]? with
  | none => rw [turns_none h]
  | some x =>
      rw [turns_some h]
      exact List.prefix_append _ _

theorem turns_prefix_of_le {r i j : ℕ} (h : i ≤ j) : turns n L r i <+: turns n L r j := by
  induction h with
  | refl => exact List.prefix_refl _
  | step _ ih => exact ih.trans (turns_prefix_succ _ _)

theorem turns_rounds_prefix {r r' : ℕ} (h : r ≤ r') : turns n L r 0 <+: turns n L r' 0 := by
  induction h with
  | refl => exact List.prefix_refl _
  | step _ ih =>
      refine ih.trans ?_
      rw [Nat.succ_eq_add_one, ← turns_round]
      exact turns_prefix_of_le (Nat.zero_le n)

theorem longest_le_iff {r : ℕ} : longest n L ≤ r ↔ ∀ i < n, (L i).length ≤ r := by
  have hfold : ∀ l : List ℕ, l.foldr (fun i m => max (L i).length m) 0 ≤ r ↔
      ∀ i ∈ l, (L i).length ≤ r := by
    intro l
    induction l with
    | nil => simp
    | cons i l ih => rw [List.foldr_cons, Nat.max_le, ih, List.forall_mem_cons]
  rw [longest, hfold]
  simp only [List.mem_range]

theorem getElem?_longest {r i : ℕ} (hi : i < n) (hr : longest n L ≤ r) : (L i)[r]? = none :=
  List.getElem?_eq_none (longest_le_iff.mp hr i hi)

/-- Where every list is at its end nothing more is read in the round. -/
theorem turns_rest {r i k : ℕ} (hik : i ≤ k) (h : ∀ j, i ≤ j → j < k → (L j)[r]? = none) :
    turns n L r k = turns n L r i := by
  induction hik with
  | refl => rfl
  | step hle ih =>
      rw [Nat.succ_eq_add_one, turns_none (h _ hle (Nat.lt_succ_self _))]
      exact ih fun j hj hlt => h j hj (Nat.lt_succ_of_lt hlt)

/-- Rounds past the longest list read nothing. -/
theorem turns_of_longest_le {r : ℕ} (h : longest n L ≤ r) : turns n L r 0 = roundRobin n L := by
  induction h with
  | refl => rfl
  | step hle ih =>
      rw [Nat.succ_eq_add_one, ← turns_round]
      exact (turns_rest (Nat.zero_le n) fun j _ hj => getElem?_longest hj hle).trans ih

/-- When every list has been read to its end the merge is complete. -/
theorem turns_eq_roundRobin {r i : ℕ} (hi : i ≤ n)
    (h : ∀ j < n, (L j).length ≤ r + if j < i then 1 else 0) :
    turns n L r i = roundRobin n L := by
  have hrest : turns n L r n = turns n L r i := by
    refine turns_rest hi fun j hij hj => List.getElem?_eq_none ?_
    have hlen := h j hj
    rwa [if_neg (not_lt.mpr hij)] at hlen
  have hlongest : longest n L ≤ r + 1 := by
    refine longest_le_iff.mpr fun j hj => (h j hj).trans ?_
    split <;> omega
  rw [← hrest, turns_round, turns_of_longest_le hlongest]

theorem turns_isPrefix {r i : ℕ} (hi : i ≤ n) : turns n L r i <+: roundRobin n L := by
  calc turns n L r i
      |>.IsPrefix (turns n L r n) := turns_prefix_of_le hi
    _ |>.IsPrefix (turns n L (max (r + 1) (longest n L)) 0) := by
        rw [turns_round]
        exact turns_rounds_prefix (Nat.le_max_left _ _)
    _ = roundRobin n L := turns_of_longest_le (Nat.le_max_right _ _)

/-- The merge begins with list 0. -/
theorem head?_roundRobin (hn : 0 < n) {x : α} {xs : List α} (h : L 0 = x :: xs) :
    (roundRobin n L).head? = some (0, x) := by
  have hone : turns n L 0 1 = [(0, x)] := by
    rw [turns_some (x := x) (by rw [h]; rfl)]
    rfl
  obtain ⟨rest, hrest⟩ := turns_isPrefix (L := L) (r := 0) hn
  rw [← hrest, hone]
  rfl

end P2PRdt.Lib

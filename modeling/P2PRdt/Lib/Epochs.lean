import Mathlib.Algebra.BigOperators.Group.Finset.Basic
import Mathlib.Data.Multiset.AddSub
import Mathlib.Algebra.Order.Group.Multiset
import Mathlib.Algebra.Order.BigOperators.Group.Finset

/-!
# Streams that are cut into epochs by markers

A stream is a list of `Option α` in the order its messages were sent; `none`
is the end-of-epoch marker. `segment L e` is what stands between the marker
number `e - 1` and the marker number `e`, and `marks L` counts the markers.
A family of streams, indexed below `n`, is compared epoch by epoch through
`total`, the multiset of all its epoch-`e` messages: this is the quantity that
a splitter, a merger or a shuffler has to conserve.
-/

namespace P2PRdt.Lib

variable {α : Type*}

/-! ## One stream -/

def marks : List (Option α) → ℕ
  | [] => 0
  | none :: L => marks L + 1
  | some _ :: L => marks L

def segment : List (Option α) → ℕ → List α
  | [], _ => []
  | none :: _, 0 => []
  | none :: L, e + 1 => segment L e
  | some x :: L, 0 => x :: segment L 0
  | some _ :: L, e + 1 => segment L (e + 1)

@[simp] theorem marks_nil : marks ([] : List (Option α)) = 0 := rfl

@[simp] theorem segment_nil (e : ℕ) : segment ([] : List (Option α)) e = [] := rfl

theorem marks_append (L M : List (Option α)) : marks (L ++ M) = marks L + marks M := by
  induction L with
  | nil => simp
  | cons m L ih =>
      cases m with
      | none =>
          simp only [List.cons_append, marks, ih]
          omega
      | some x => simp only [List.cons_append, marks, ih]

@[simp] theorem marks_append_some (L : List (Option α)) (x : α) :
    marks (L ++ [some x]) = marks L := by
  simp [marks_append, marks]

@[simp] theorem marks_append_none (L : List (Option α)) :
    marks (L ++ [none]) = marks L + 1 := by
  simp [marks_append, marks]

@[simp] theorem segment_append_none (L : List (Option α)) (e : ℕ) :
    segment (L ++ [none]) e = segment L e := by
  induction L generalizing e with
  | nil => cases e <;> rfl
  | cons m L ih => cases m <;> cases e <;> simp [segment, ih]

/-- A message that is appended belongs to the epoch that is open. -/
theorem segment_append_some (L : List (Option α)) (x : α) (e : ℕ) :
    segment (L ++ [some x]) e =
      if e = marks L then segment L e ++ [x] else segment L e := by
  induction L generalizing e with
  | nil => cases e <;> simp [segment, marks]
  | cons m L ih =>
      cases m with
      | none =>
          cases e with
          | zero => simp [segment, marks]
          | succ e =>
              simp only [List.cons_append, segment, ih, marks, Nat.add_right_cancel_iff]
      | some y =>
          have hm : marks (some y :: L) = marks L := rfl
          rw [hm]
          cases e with
          | zero =>
              simp only [List.cons_append, segment, ih]
              split <;> rfl
          | succ e => exact ih (e + 1)

theorem marks_mono {L M : List (Option α)} (h : L <+: M) : marks L ≤ marks M := by
  rcases h with ⟨N, rfl⟩
  rw [marks_append]
  exact Nat.le_add_right _ _

/-- An epoch that is closed does not change any more. -/
theorem segment_eq_of_closed {L M : List (Option α)} (h : L <+: M) {e : ℕ}
    (he : e < marks L) : segment M e = segment L e := by
  rcases h with ⟨N, rfl⟩
  induction N using List.reverseRecOn with
  | nil => rw [List.append_nil]
  | append_singleton N m ih =>
      rw [← List.append_assoc]
      cases m with
      | none => rw [segment_append_none, ih]
      | some x =>
          have hne : e ≠ marks (L ++ N) := by
            rw [marks_append]
            omega
          rw [segment_append_some, if_neg hne, ih]

/-- Nothing has been sent in an epoch that is not yet open. -/
theorem segment_of_marks_lt {L : List (Option α)} {e : ℕ} (h : marks L < e) :
    segment L e = [] := by
  induction L using List.reverseRecOn with
  | nil => rfl
  | append_singleton L m ih =>
      cases m with
      | none =>
          rw [marks_append_none] at h
          rw [segment_append_none, ih (Nat.lt_of_succ_lt h)]
      | some x =>
          rw [marks_append_some] at h
          rw [segment_append_some, if_neg (Nat.ne_of_gt h), ih h]

theorem segment_mono {L M : List (Option α)} (h : L <+: M) (e : ℕ) :
    segment L e <+: segment M e := by
  rcases h with ⟨N, rfl⟩
  induction N using List.reverseRecOn with
  | nil => rw [List.append_nil]
  | append_singleton N m ih =>
      rw [← List.append_assoc]
      cases m with
      | none => rwa [segment_append_none]
      | some x =>
          rw [segment_append_some]
          split
          · exact ih.trans (List.prefix_append _ _)
          · exact ih

/-! ## A family of streams -/

/-- All messages of epoch `e` in the streams below `n`. -/
def total (n : ℕ) (S : ℕ → List (Option α)) (e : ℕ) : Multiset α :=
  ∑ i ∈ Finset.range n, (segment (S i) e : Multiset α)

theorem total_congr {n : ℕ} {S T : ℕ → List (Option α)} {e : ℕ}
    (h : ∀ i < n, segment (S i) e = segment (T i) e) : total n S e = total n T e :=
  Finset.sum_congr rfl fun i hi => by rw [h i (Finset.mem_range.mp hi)]

theorem total_eq_zero {n : ℕ} {S : ℕ → List (Option α)} {e : ℕ}
    (h : ∀ i < n, segment (S i) e = []) : total n S e = 0 :=
  Finset.sum_eq_zero fun i hi => by rw [h i (Finset.mem_range.mp hi)]; rfl

/-- A message sent to one stream joins the epoch that is open there. -/
theorem total_push_some {n : ℕ} (S : ℕ → List (Option α)) {i : ℕ} (hi : i < n) (x : α)
    (e : ℕ) :
    total n (Function.update S i (S i ++ [some x])) e =
      total n S e + if e = marks (S i) then {x} else 0 := by
  have hi' := Finset.mem_range.mpr hi
  unfold total
  rw [← Finset.add_sum_erase _ _ hi', ← Finset.add_sum_erase _ _ hi',
    Function.update_self, segment_append_some]
  have hrest : ∑ j ∈ (Finset.range n).erase i,
        (segment (Function.update S i (S i ++ [some x]) j) e : Multiset α) =
      ∑ j ∈ (Finset.range n).erase i, (segment (S j) e : Multiset α) := by
    refine Finset.sum_congr rfl fun j hj => ?_
    rw [Function.update_of_ne (Finset.ne_of_mem_erase hj)]
  rw [hrest]
  split
  · rw [← Multiset.coe_add, Multiset.coe_singleton]
    exact add_right_comm _ _ _
  · rw [add_zero]

@[simp] theorem total_push_none {n : ℕ} (S : ℕ → List (Option α)) (i e : ℕ) :
    total n (Function.update S i (S i ++ [none])) e = total n S e := by
  refine total_congr fun j _ => ?_
  by_cases hji : j = i
  · subst hji
    rw [Function.update_self, segment_append_none]
  · rw [Function.update_of_ne hji]

/-- Epochs that every stream of a family has closed are the same in every
later state of the family. -/
theorem total_eq_of_closed {n : ℕ} {S T : ℕ → List (Option α)} {e : ℕ}
    (h : ∀ i < n, S i <+: T i) (he : ∀ i < n, e < marks (S i)) :
    total n T e = total n S e :=
  total_congr fun i hi => segment_eq_of_closed (h i hi) (he i hi)

theorem total_mono {n : ℕ} {S T : ℕ → List (Option α)} {e : ℕ}
    (h : ∀ i < n, S i <+: T i) : total n S e ≤ total n T e :=
  Finset.sum_le_sum fun i hi =>
    Multiset.coe_le.mpr (segment_mono (h i (Finset.mem_range.mp hi)) e).sublist.subperm

end P2PRdt.Lib

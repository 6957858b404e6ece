import Mathlib.Data.Finset.Sort

/-!
# A finite set as a padded sorted row

A set of codes is written in a row of fixed length: the smallest codes in
increasing order, and a blank in every place that is left. When the blank is
not a code, the row and the set of its codes determine each other up to the
codes that did not fit.
-/

namespace P2PRdt.Lib

variable {α : Type*} [LinearOrder α]

/-- The smallest `n` codes of `s`, in order, filled up with `blank`. -/
def sortedRow (blank : α) (n : ℕ) (s : Finset α) : List α :=
  if s.card > n then (s.sort (· ≤ ·)).take n
  else s.sort (· ≤ ·) ++ List.replicate (n - s.card) blank

/-- The codes that fit in a row of length `n`. -/
def smallest (n : ℕ) (s : Finset α) : Finset α := ((s.sort (· ≤ ·)).take n).toFinset

@[simp] theorem length_sortedRow (blank : α) (n : ℕ) (s : Finset α) :
    (sortedRow blank n s).length = n := by
  unfold sortedRow
  split
  · rename_i h
    rw [List.length_take, Finset.length_sort]
    omega
  · rename_i h
    rw [List.length_append, Finset.length_sort, List.length_replicate]
    omega

/-- In a strictly increasing list, the first `n` are those with fewer than `n`
below them. -/
theorem mem_take_iff {l : List α} (hl : l.Pairwise (· < ·)) {n : ℕ} {c : α} :
    c ∈ l.take n ↔ c ∈ l ∧ l.countP (· < c) < n := by
  induction l generalizing n with
  | nil => simp
  | cons a l ih =>
      obtain ⟨ha, hl⟩ := List.pairwise_cons.mp hl
      cases n with
      | zero => simp
      | succ n =>
          rw [List.take_succ_cons, List.mem_cons, List.mem_cons, ih hl, List.countP_cons]
          by_cases hca : c = a
          · subst hca
            have hnone : l.countP (· < c) = 0 := by
              rw [List.countP_eq_zero]
              intro x hx
              simpa using (ha x hx).le
            simp [hnone]
          · constructor
            · rintro (h | ⟨hc, hn⟩)
              · exact absurd h hca
              · refine ⟨.inr hc, ?_⟩
                rw [if_pos (by simpa using ha c hc)]
                omega
            · rintro ⟨h | hc, hn⟩
              · exact absurd h hca
              · rw [if_pos (by simpa using ha c hc)] at hn
                exact .inr ⟨hc, by omega⟩

theorem countP_sort (s : Finset α) (p : α → Bool) :
    (s.sort (· ≤ ·)).countP p = (s.filter (p · = true)).card := by
  have hcoe := Multiset.coe_countP (p := fun x => p x = true) (s.sort (· ≤ ·))
  simp only [Bool.decide_eq_true] at hcoe
  rw [← hcoe, Finset.sort_eq, Multiset.countP_eq_card_filter]
  rfl

theorem mem_smallest {n : ℕ} {s : Finset α} {c : α} :
    c ∈ smallest n s ↔ c ∈ s ∧ (s.filter (· < c)).card < n := by
  rw [smallest, List.mem_toFinset, mem_take_iff s.sortedLT_sort.pairwise, Finset.mem_sort,
    countP_sort]
  simp only [decide_eq_true_eq]

theorem sort_smallest (n : ℕ) (s : Finset α) :
    (smallest n s).sort (· ≤ ·) = (s.sort (· ≤ ·)).take n := by
  have hsub := List.take_sublist n (s.sort (· ≤ ·))
  rw [smallest, List.toFinset_sort _ (hsub.nodup (s.sort_nodup _))]
  exact (s.pairwise_sort _).sublist hsub

theorem card_smallest (n : ℕ) (s : Finset α) : (smallest n s).card = min n s.card := by
  rw [← Finset.length_sort (· ≤ ·), sort_smallest, List.length_take, Finset.length_sort]

theorem card_smallest_le (n : ℕ) (s : Finset α) : (smallest n s).card ≤ n :=
  (card_smallest n s).trans_le (min_le_left _ _)

theorem smallest_subset (n : ℕ) (s : Finset α) : smallest n s ⊆ s :=
  fun _ hc => (mem_smallest.mp hc).1

/-- A row is the row of its own codes. -/
theorem sortedRow_smallest (blank : α) (n : ℕ) (s : Finset α) :
    sortedRow blank n (smallest n s) = sortedRow blank n s := by
  have hle := card_smallest_le n s
  unfold sortedRow
  rw [if_neg (Nat.not_lt.mpr hle), sort_smallest, card_smallest]
  split
  · rename_i hgt
    rw [Nat.min_eq_left hgt.le, Nat.sub_self, List.replicate_zero, List.append_nil]
  · rename_i hle
    have hcard : s.card ≤ n := Nat.le_of_not_lt hle
    rw [Nat.min_eq_right hcard, List.take_of_length_le (by rwa [Finset.length_sort])]

theorem mem_sortedRow {blank : α} {n : ℕ} {s : Finset α} {c : α} (hc : c ≠ blank) :
    c ∈ sortedRow blank n s ↔ c ∈ smallest n s := by
  rw [smallest, List.mem_toFinset]
  unfold sortedRow
  split
  · rfl
  · rename_i hle
    have hlen : (s.sort (· ≤ ·)).length ≤ n := by
      rw [Finset.length_sort]
      exact Nat.le_of_not_lt hle
    rw [List.take_of_length_le hlen, List.mem_append, or_iff_left]
    intro hrep
    exact hc (List.eq_of_mem_replicate hrep)

/-- A row consists of codes of the set and blanks. -/
theorem mem_of_mem_sortedRow {blank : α} {n : ℕ} {s : Finset α} {c : α}
    (hc : c ∈ sortedRow blank n s) : c = blank ∨ c ∈ s := by
  by_cases hb : c = blank
  · exact .inl hb
  · exact .inr (smallest_subset n s ((mem_sortedRow hb).mp hc))

end P2PRdt.Lib

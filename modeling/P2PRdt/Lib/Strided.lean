import P2PRdt.Lib.OptionLists
import Mathlib.Data.List.GetD

/-!
# Slices with a step and stacks of sequences

`everyNth s l` has the entries `0`, `s`, `2 * s`, … of a list. `stackLists`
turns a list of sequences of one length into the sequence of their columns, and
refuses sequences of different lengths.
-/

namespace P2PRdt.Lib

variable {α β : Type}

/-- `l[::s]`. -/
def everyNth (s : ℕ) (l : List α) : List α :=
  (List.range ((l.length + s - 1) / s)).filterMap fun i => l[i * s]?

theorem mul_lt_of_lt_ceil {n s i : ℕ} (hs : 1 ≤ s) (hi : i < (n + s - 1) / s) : i * s < n := by
  have h : (i + 1) * s ≤ n + s - 1 := (Nat.le_div_iff_mul_le hs).mp hi
  rw [Nat.succ_mul] at h
  omega

/-- The slot one block in front of a slot of the last block is inside. -/
theorem slot_before_lt {n s b i : ℕ} (hb : 1 ≤ b) (hi : b * s + i < (n + s - 1) / s * s) :
    (b - 1) * s + i < n := by
  have hle := Nat.div_mul_le_self (n + s - 1) s
  have hshift : b * s = (b - 1) * s + s := by
    rw [← Nat.succ_mul, Nat.succ_eq_add_one, Nat.sub_add_cancel hb]
  omega

/-- Every place of the slice is filled. -/
theorem everyNth_eq_map {s : ℕ} (hs : 1 ≤ s) {l : List α} {f : ℕ → α}
    (hf : ∀ i < l.length, l[i]? = some (f i)) :
    everyNth s l = (List.range ((l.length + s - 1) / s)).map fun i => f (i * s) := by
  rw [everyNth, ← List.filterMap_eq_map]
  apply List.filterMap_congr
  intro i hi
  exact hf _ (mul_lt_of_lt_ceil hs (List.mem_range.mp hi))

theorem length_everyNth {s : ℕ} (hs : 1 ≤ s) (l : List α) :
    (everyNth s l).length = (l.length + s - 1) / s := by
  cases l with
  | nil =>
      have hzero : (0 + s - 1) / s = 0 := Nat.div_eq_of_lt (by omega)
      rw [everyNth, List.length_nil, hzero]
      rfl
  | cons a l =>
      rw [everyNth_eq_map (f := fun i => (a :: l).getD i a) hs, List.length_map, List.length_range]
      intro i hi
      rw [List.getElem?_eq_getElem hi, List.getD_eq_getElem _ _ hi]

theorem getElem?_everyNth {s : ℕ} (hs : 1 ≤ s) {l : List α} {i : ℕ}
    (hi : i < (l.length + s - 1) / s) : (everyNth s l)[i]? = l[i * s]? := by
  have hget := mul_lt_of_lt_ceil hs hi
  cases l with
  | nil => exact absurd hget (Nat.not_lt_zero _)
  | cons a l =>
      rw [everyNth_eq_map (f := fun i => (a :: l).getD i a) hs, List.getElem?_map,
        List.getElem?_range hi, Option.map_some, List.getElem?_eq_getElem hget,
        List.getD_eq_getElem _ _ hget]
      intro j hj
      rw [List.getElem?_eq_getElem hj, List.getD_eq_getElem _ _ hj]

/-- A step of one takes everything. -/
@[simp] theorem everyNth_one (l : List α) : everyNth 1 l = l := by
  apply List.ext_getElem?
  intro i
  by_cases hi : i < l.length
  · rw [getElem?_everyNth (Nat.le_refl 1) (by simpa using hi), Nat.mul_one]
  · rw [List.getElem?_eq_none (Nat.not_lt.mp hi), List.getElem?_eq_none]
    rw [length_everyNth (Nat.le_refl 1)]
    simpa using hi

theorem everyNth_map (s : ℕ) (f : α → β) (l : List α) :
    everyNth s (l.map f) = (everyNth s l).map f := by
  rw [everyNth, everyNth, List.length_map, List.map_filterMap]
  apply List.filterMap_congr
  intro i _
  rw [List.getElem?_map]

/-! ## Stacks -/

/-- The columns of a list of rows, which need one length. -/
def stackLists (rows : List (List α)) : Option (List (List α)) :=
  match rows with
  | [] => none
  | first :: _ =>
      if ∀ row ∈ rows, row.length = first.length then
        (List.range first.length).mapM fun t => rows.mapM (·[t]?)
      else none

/-- Column `t` of a stack has entry `t` of every row. -/
theorem stackLists_spec {rows : List (List α)} (hrows : rows ≠ []) {n : ℕ}
    (hlen : ∀ row ∈ rows, row.length = n) :
    ∃ stack, stackLists rows = some stack ∧ stack.length = n ∧
      ∀ t < n, stack[t]? = rows.mapM (·[t]?) := by
  obtain ⟨first, rest, rfl⟩ := List.exists_cons_of_ne_nil hrows
  have hfirst := hlen first List.mem_cons_self
  have hguard : ∀ row ∈ first :: rest, row.length = first.length := by
    intro row hrow
    rw [hlen row hrow, hfirst]
  have hcolumns : ∀ t ∈ List.range first.length,
      ∃ column, (first :: rest).mapM (·[t]?) = some column := by
    intro t ht
    apply exists_mapM
    intro row hrow
    have hlt : t < row.length := by
      rw [hguard row hrow]
      exact List.mem_range.mp ht
    exact ⟨row.get ⟨t, hlt⟩, List.getElem?_eq_getElem hlt⟩
  obtain ⟨stack, hstack⟩ := exists_mapM hcolumns
  refine ⟨stack, (if_pos hguard).trans hstack, ?_, ?_⟩
  · rw [length_of_mapM hstack, List.length_range, hfirst]
  · intro t ht
    rw [getElem?_of_mapM hstack, List.getElem?_range (hfirst.symm ▸ ht)]
    rfl

theorem stackLists_ofFn {rows : List β} (hrows : rows ≠ []) {n : ℕ} (f : β → Fin n → α) :
    stackLists (rows.map fun r => List.ofFn (f r)) =
      some (List.ofFn fun t => rows.map (f · t)) := by
  have hne : (rows.map fun r => List.ofFn (f r)) ≠ [] := by simpa using hrows
  have hlen : ∀ row ∈ rows.map fun r => List.ofFn (f r), row.length = n := by
    intro row hrow
    obtain ⟨q, -, rfl⟩ := List.mem_map.mp hrow
    exact List.length_ofFn
  obtain ⟨stack, hstack, hlength, hget⟩ := stackLists_spec hne hlen
  rw [hstack, Option.some_inj]
  apply List.ext_getElem?
  intro t
  by_cases ht : t < n
  · rw [hget t ht, List.mapM_map, List.getElem?_ofFn, dif_pos ht]
    apply mapM_eq_map
    intro q _
    rw [Function.comp_apply, List.getElem?_ofFn, dif_pos ht]
  · rw [List.getElem?_eq_none (by omega), List.getElem?_eq_none (by simpa using ht)]

/-- Blocks of one length, one after the other. -/
theorem getElem?_flatMap_blocks {l : List α} {g : α → List β} {V : ℕ}
    (hg : ∀ a ∈ l, (g a).length = V) {v : ℕ} (hv : v < V) (f : ℕ) :
    (l.flatMap g)[f * V + v]? = (l[f]?).bind fun a => (g a)[v]? := by
  induction l generalizing f with
  | nil => rfl
  | cons a l ih =>
      have ha := hg a List.mem_cons_self
      rw [List.flatMap_cons]
      cases f with
      | zero =>
          rw [Nat.zero_mul, Nat.zero_add, List.getElem?_append_left (ha.symm ▸ hv)]
          rfl
      | succ f =>
          have hindex : (f + 1) * V + v = (g a).length + (f * V + v) := by
            rw [ha]
            ring
          rw [hindex, List.getElem?_append_right (Nat.le_add_right _ _), Nat.add_sub_cancel_left,
            ih fun b hb => hg b (List.mem_cons_of_mem a hb)]
          rfl

theorem length_flatMap_blocks {l : List α} {g : α → List β} {V : ℕ}
    (hg : ∀ a ∈ l, (g a).length = V) : (l.flatMap g).length = l.length * V := by
  induction l with
  | nil => exact (Nat.zero_mul V).symm
  | cons a l ih =>
      rw [List.flatMap_cons, List.length_append, hg a List.mem_cons_self,
        ih fun b hb => hg b (List.mem_cons_of_mem a hb), List.length_cons]
      ring

end P2PRdt.Lib

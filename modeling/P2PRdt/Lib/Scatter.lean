import Mathlib.Data.List.FinRange
import Mathlib.Logic.Function.Basic

/-!
# Scatter through a table of ids

`scatter ids v template` writes `v i` at `ids i` for each `i` in order. When the
ids are distinct, reading the ids back gives `v`, and every other place keeps
the template.
-/

namespace P2PRdt.Lib

variable {ι α : Type} [DecidableEq ι] {n : ℕ}

def scatter (ids : Fin n → ι) (v : Fin n → α) (template : ι → α) : ι → α :=
  (List.finRange n).foldl (fun t i => Function.update t (ids i) (v i)) template

/-- The writes of a list of positions leave every other place alone. -/
theorem foldl_update_of_notMem (ids : Fin n → ι) (v : Fin n → α) {c : ι} {l : List (Fin n)}
    (hc : ∀ i ∈ l, ids i ≠ c) (t : ι → α) :
    l.foldl (fun t i => Function.update t (ids i) (v i)) t c = t c := by
  induction l generalizing t with
  | nil => rfl
  | cons i l ih =>
      rw [List.foldl_cons, ih fun j hj => hc j (List.mem_cons_of_mem i hj),
        Function.update_of_ne (hc i List.mem_cons_self).symm]

theorem foldl_update_of_mem {ids : Fin n → ι} (hids : Function.Injective ids) (v : Fin n → α)
    {i : Fin n} {l : List (Fin n)} (hi : i ∈ l) (hl : l.Nodup) (t : ι → α) :
    l.foldl (fun t i => Function.update t (ids i) (v i)) t (ids i) = v i := by
  induction l generalizing t with
  | nil => exact absurd hi List.not_mem_nil
  | cons j l ih =>
      obtain ⟨hj, hl⟩ := List.nodup_cons.mp hl
      rw [List.foldl_cons]
      rcases List.mem_cons.mp hi with rfl | hi
      · rw [foldl_update_of_notMem ids v, Function.update_self]
        intro k hk hki
        exact hj (hids hki ▸ hk)
      · exact ih hi hl _

variable {ids : Fin n → ι} {v : Fin n → α} {template : ι → α}

@[simp] theorem scatter_id (hids : Function.Injective ids) (i : Fin n) :
    scatter ids v template (ids i) = v i :=
  foldl_update_of_mem hids v (List.mem_finRange i) (List.nodup_finRange n) template

theorem scatter_of_notMem {c : ι} (hc : c ∉ Set.range ids) :
    scatter ids v template c = template c := by
  apply foldl_update_of_notMem
  intro i _ hi
  exact hc ⟨i, hi⟩

end P2PRdt.Lib

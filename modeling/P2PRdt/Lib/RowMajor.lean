import Mathlib.Data.Fintype.Card
import Mathlib.Data.Finset.Prod
import Mathlib.Logic.Equiv.Fin.Basic

/-!
# Row-major indices

`rowMajor i j` is the place of entry `(i, j)` in an array of `m` rows and `n`
columns that is stored row by row. `Fin.divNat` and `Fin.modNat` find the row
and the column again, so splitting an axis undoes merging two axes. When every
column is widened to a block of columns, the blocks of distinct columns do not
overlap.
-/

namespace P2PRdt.Lib

variable {m n p : ℕ}

def rowMajor (i : Fin m) (j : Fin n) : Fin (m * n) := finProdFinEquiv (i, j)

@[simp] theorem divNat_rowMajor (i : Fin m) (j : Fin n) : (rowMajor i j).divNat = i :=
  congrArg Prod.fst (finProdFinEquiv.symm_apply_apply (i, j))

@[simp] theorem modNat_rowMajor (i : Fin m) (j : Fin n) : (rowMajor i j).modNat = j :=
  congrArg Prod.snd (finProdFinEquiv.symm_apply_apply (i, j))

theorem val_rowMajor (i : Fin m) (j : Fin n) : (rowMajor i j : ℕ) = i * n + j := by
  show (j : ℕ) + n * i = i * n + j
  rw [Nat.mul_comm, Nat.add_comm]

/-- Three axes merged into one and split again. -/
theorem split_merge {α : Type} (g : Fin m → Fin n → Fin p → α) (i : Fin m) (j : Fin n)
    (k : Fin p) :
    g (rowMajor (rowMajor i j) k).divNat.divNat (rowMajor (rowMajor i j) k).divNat.modNat
      (rowMajor (rowMajor i j) k).modNat = g i j k := by
  rw [divNat_rowMajor, modNat_rowMajor, divNat_rowMajor, modNat_rowMajor]

/-! ## Blocks of columns -/

theorem block_injective {ι : Type} {f : ι → ℕ} (hf : Function.Injective f) {s : ℕ} {i j : ι}
    {a b : ℕ} (ha : a < s) (hb : b < s) (h : f i * s + a = f j * s + b) : i = j ∧ a = b := by
  have hs : 0 < s := Nat.zero_lt_of_lt ha
  have hquot : ∀ k c, c < s → (k * s + c) / s = k := by
    intro k c hc
    rw [Nat.mul_comm, Nat.mul_add_div hs, Nat.div_eq_of_lt hc, Nat.add_zero]
  have hdiv := congrArg (· / s) h
  simp only [hquot _ _ ha, hquot _ _ hb] at hdiv
  have hij : i = j := hf hdiv
  subst hij
  exact ⟨rfl, Nat.add_left_cancel h⟩

/-- Widened by a factor, the blocks of many columns do not all fit into the
columns themselves. -/
theorem exists_block_notMem_range {ι : Type} [Fintype ι] {f : ι → ℕ}
    (hf : Function.Injective f) (chosen : Finset ι) {s : ℕ}
    (hcard : Fintype.card ι < chosen.card * s) :
    ∃ i ∈ chosen, ∃ n < s, f i * s + n ∉ Set.range f := by
  by_contra hall
  have hmaps : ∀ p ∈ chosen ×ˢ Finset.range s, f p.1 * s + p.2 ∈ Finset.univ.map ⟨f, hf⟩ := by
    rintro ⟨i, n⟩ hp
    obtain ⟨hi, hn⟩ := Finset.mem_product.mp hp
    by_contra hnot
    apply hall
    refine ⟨i, hi, n, Finset.mem_range.mp hn, ?_⟩
    rintro ⟨j, hj⟩
    exact hnot (Finset.mem_map.mpr ⟨j, Finset.mem_univ j, hj⟩)
  have hinj : Set.InjOn (fun p : ι × ℕ => f p.1 * s + p.2)
      ↑(chosen ×ˢ Finset.range s) := by
    rintro ⟨i, a⟩ hia ⟨j, b⟩ hjb h
    have ha := Finset.mem_range.mp (Finset.mem_product.mp (Finset.mem_coe.mp hia)).2
    have hb := Finset.mem_range.mp (Finset.mem_product.mp (Finset.mem_coe.mp hjb)).2
    obtain ⟨hij, hab⟩ := block_injective hf ha hb h
    exact Prod.ext hij hab
  have hle := Finset.card_le_card_of_injOn _ hmaps hinj
  rw [Finset.card_product, Finset.card_range, Finset.card_map, Finset.card_univ] at hle
  exact absurd hle (Nat.not_le.mpr hcard)

end P2PRdt.Lib

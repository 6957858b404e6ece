import Mathlib.Data.List.Basic

/-!
# Block masks

A block mask groups queries and keys into blocks of one size. A row of it lists
the key blocks that some query of the row may see; a listed block is attended
entirely when every query of the row may see all of it, and key by key
otherwise. Decoding takes one row and lets every query of the step use it.
-/

namespace P2PRdt.Lib

structure BlockMask where
  maskMod : ℕ → ℕ → Bool
  qLen : ℕ
  kvLen : ℕ
  blockSize : ℕ

/-- One row of a block mask, with a mask of its own for the blocks that are not
full. -/
structure RowMask where
  listed : ℕ → Bool
  full : ℕ → Bool
  maskMod : ℕ → ℕ → Bool
  seqLengths : ℕ × ℕ
  blockSize : ℕ

namespace BlockMask

variable (m : BlockMask)

def rowQueries (row : ℕ) : List ℕ := (List.range m.qLen).filter (· / m.blockSize = row)

def blockKeys (block : ℕ) : List ℕ := (List.range m.kvLen).filter (· / m.blockSize = block)

def listed (row block : ℕ) : Bool :=
  (m.rowQueries row).any fun q => (m.blockKeys block).any (m.maskMod q)

def full (row block : ℕ) : Bool :=
  (m.rowQueries row).all fun q => (m.blockKeys block).all (m.maskMod q)

/-- `block_mask[:, :, row]`. -/
def slice (row : ℕ) : RowMask where
  listed := m.listed row
  full := m.full row
  maskMod := m.maskMod
  seqLengths := (m.qLen, m.kvLen)
  blockSize := m.blockSize

variable {m}

theorem mem_rowQueries {row q : ℕ} :
    q ∈ m.rowQueries row ↔ q < m.qLen ∧ q / m.blockSize = row := by
  rw [rowQueries, List.mem_filter, List.mem_range, decide_eq_true_eq]

theorem mem_blockKeys {block kv : ℕ} :
    kv ∈ m.blockKeys block ↔ kv < m.kvLen ∧ kv / m.blockSize = block := by
  rw [blockKeys, List.mem_filter, List.mem_range, decide_eq_true_eq]

theorem listed_iff {row block : ℕ} :
    m.listed row block = true ↔
      ∃ q ∈ m.rowQueries row, ∃ kv ∈ m.blockKeys block, m.maskMod q kv = true := by
  simp only [listed, List.any_eq_true]

/-- A pair of the row lists its block. -/
theorem listed_of_mask {q kv : ℕ} (hq : q < m.qLen) (hkv : kv < m.kvLen)
    (hmask : m.maskMod q kv = true) :
    m.listed (q / m.blockSize) (kv / m.blockSize) = true :=
  listed_iff.mpr ⟨q, mem_rowQueries.mpr ⟨hq, rfl⟩, kv, mem_blockKeys.mpr ⟨hkv, rfl⟩, hmask⟩

/-- Every query of the row sees a key of a full block. -/
theorem mask_of_full {row q kv : ℕ} (hfull : m.full row (kv / m.blockSize) = true)
    (hq : q < m.qLen) (hrow : q / m.blockSize = row) (hkv : kv < m.kvLen) :
    m.maskMod q kv = true := by
  rw [full, List.all_eq_true] at hfull
  have hblock := hfull q (mem_rowQueries.mpr ⟨hq, hrow⟩)
  rw [List.all_eq_true] at hblock
  exact hblock kv (mem_blockKeys.mpr ⟨hkv, rfl⟩)

end BlockMask

/-- Query `q` of the sliced mask attends to key `kv`. -/
def RowMask.allows (m : RowMask) (q kv : ℕ) : Bool :=
  q < m.seqLengths.1 && kv < m.seqLengths.2 && m.listed (kv / m.blockSize)
    && (m.full (kv / m.blockSize) || m.maskMod q kv)

theorem RowMask.allows_iff {m : RowMask} {q kv : ℕ} :
    m.allows q kv = true ↔ q < m.seqLengths.1 ∧ kv < m.seqLengths.2 ∧
      m.listed (kv / m.blockSize) = true ∧
      (m.full (kv / m.blockSize) = true ∨ m.maskMod q kv = true) := by
  simp only [allows, Bool.and_eq_true, Bool.or_eq_true, decide_eq_true_eq, and_assoc]

end P2PRdt.Lib

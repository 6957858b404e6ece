import P2PRdt.Lib.BlockMask
import P2PRdt.Policy.KVCache
import P2PRdt.Policy.ReceptiveField

/-!
# Decoding with the cache

With a cache, a step is decoded on its own: its queries are counted from zero,
and the mask is one row of the block mask, the row of the first query of the
step, with `mask_mod` shifted to where the step stands in the window. The row
lists the blocks that its own queries see. A step may begin in one row and end
in the next, so the row may be short of a block that a later query of the step
needs.
-/

namespace P2PRdt.Policy

open Lib

/-- `get_decode_mask`. -/
def getDecodeMask (blockMask : BlockMask) (offset : ℕ) (maskFn : ℕ → ℕ → Bool)
    (qSeqLength kvSeqLength : ℕ) : RowMask :=
  let blockIndex := offset / blockMask.blockSize
  { blockMask.slice blockIndex with
    maskMod := fun q kv => maskFn (q + offset) kv
    seqLengths := (qSeqLength, kvSeqLength) }

namespace PolicyConfig

variable (cfg : PolicyConfig)

def maxSeqLen : ℕ := cfg.stepSize * cfg.nSteps

/-- The cache of `setup_kv_cache`. -/
def kvCache : RollingStepKVCache := { stepSize := cfg.stepSize, maxT := cfg.nSteps }

/-- The block mask that `_assign_layer_masks` creates for a layer. -/
def blockMask (maskBlockSize historyLen : ℕ) : BlockMask where
  maskMod := cfg.layerMask historyLen
  qLen := cfg.maxSeqLen
  kvLen := cfg.maxSeqLen + cfg.nKvSinkTokens
  blockSize := maskBlockSize

/-- `precompute_decode_masks`: the mask for a full cache. -/
def cachedDecodeMask (maskBlockSize historyLen : ℕ) : RowMask :=
  let stableStart := cfg.maxSeqLen - cfg.stepSize
  getDecodeMask (cfg.blockMask maskBlockSize historyLen) stableStart (cfg.layerMask historyLen)
    cfg.stepSize (cfg.maxSeqLen + cfg.nKvSinkTokens)

/-- The mask of `SelfAttention.forward` for `qLen` queries on `kvLen` keys, the
sinks among them. -/
def decodeMask (maskBlockSize historyLen qLen kvLen : ℕ) : RowMask :=
  if kvLen = cfg.maxSeqLen + cfg.nKvSinkTokens then cfg.cachedDecodeMask maskBlockSize historyLen
  else
    let qStartPos := kvLen - qLen
    let offset := qStartPos - cfg.nKvSinkTokens
    getDecodeMask (cfg.blockMask maskBlockSize historyLen) offset (cfg.layerMask historyLen) qLen
      kvLen

/-- Sinks and cached keys that token `j` of the newest step attends to, when the
cache holds `cached` keys. -/
def decodeKeys (maskBlockSize historyLen cached j : ℕ) : Set ℕ :=
  {kv | kv < cfg.nKvSinkTokens + cached ∧
    (cfg.decodeMask maskBlockSize historyLen cfg.stepSize (cfg.nKvSinkTokens + cached)).allows j kv}

/-- Sinks and keys that the full mask allows for the token at position `q`. -/
def fullKeys (historyLen q : ℕ) : Set ℕ :=
  {kv | kv < cfg.maxSeqLen + cfg.nKvSinkTokens ∧ cfg.layerMask historyLen q kv}

/-- Where the newest of `m` steps begins in the window. -/
def stepStart (m : ℕ) : ℕ := (min m cfg.nSteps - 1) * cfg.stepSize

/-- The newest step attends to what the full mask allows. -/
def AttendsLikeFull (maskBlockSize historyLen m : ℕ) : Prop :=
  ∀ j < cfg.stepSize,
    cfg.decodeKeys maskBlockSize historyLen (min m cfg.nSteps * cfg.stepSize) j =
      cfg.fullKeys historyLen (cfg.stepStart m + j)

/-! ## When the row covers the step -/

/-- The last query of the row of `start` that still belongs to the step. -/
def lastRowQuery (maskBlockSize start : ℕ) : ℕ :=
  min (start / maskBlockSize * maskBlockSize + maskBlockSize - 1) (start + cfg.stepSize - 1)

/-- The last key of its own step that place `j` of a step sees. -/
def lastSeen (j : ℕ) : ℕ :=
  if j < cfg.actionOutPlace then cfg.actionOutPlace - 1
  else if j = cfg.actionOutPlace then cfg.actionOutPlace
  else cfg.stepSize - 1

/-- The last key that the row of the step at `start` sees and the last key of
the step lie in one block of keys. -/
def RowCovers (maskBlockSize start : ℕ) : Prop :=
  let seen := start + cfg.lastSeen (cfg.lastRowQuery maskBlockSize start - start)
  (cfg.nKvSinkTokens + seen) / maskBlockSize =
    (cfg.nKvSinkTokens + (start + cfg.stepSize - 1)) / maskBlockSize

instance (maskBlockSize start : ℕ) : Decidable (cfg.RowCovers maskBlockSize start) :=
  inferInstanceAs (Decidable (_ = _))

/-- A place of a step sees another place of it. -/
def SeesPlace (j i : ℕ) : Prop :=
  j < cfg.actionOutPlace ∧ i < cfg.actionOutPlace ∨
    j = cfg.actionOutPlace ∧ i ≤ cfg.actionOutPlace ∨
    cfg.actionOutPlace < j ∧ i ≠ cfg.actionOutPlace

variable {cfg}

theorem place_lt (t : ℕ) {j : ℕ} (hj : j < cfg.stepSize) :
    t * cfg.stepSize + j < (t + 1) * cfg.stepSize := by
  rw [Nat.succ_mul]
  exact Nat.add_lt_add_left hj _

theorem seesPlace_lastSeen {j : ℕ} (hj : j < cfg.stepSize) : cfg.SeesPlace j (cfg.lastSeen j) := by
  rcases Nat.lt_trichotomy j cfg.actionOutPlace with hlt | heq | hgt
  · rw [lastSeen, if_pos hlt]
    exact .inl ⟨hlt, Nat.sub_lt (Nat.zero_lt_of_lt hlt) Nat.one_pos⟩
  · rw [lastSeen, if_neg heq.not_lt, if_pos heq]
    exact .inr (.inl ⟨heq, le_rfl⟩)
  · rw [lastSeen, if_neg hgt.not_gt, if_neg hgt.ne']
    exact .inr (.inr ⟨hgt, (hgt.trans_le (Nat.le_sub_one_of_lt hj)).ne'⟩)

theorem le_lastSeen {j i : ℕ} (hi : i < cfg.stepSize) (h : cfg.SeesPlace j i) :
    i ≤ cfg.lastSeen j := by
  rcases h with ⟨hj, hi⟩ | ⟨hj, hi⟩ | ⟨hj, -⟩
  · rw [lastSeen, if_pos hj]
    exact Nat.le_sub_one_of_lt hi
  · rwa [lastSeen, if_neg hj.not_lt, if_pos hj]
  · rw [lastSeen, if_neg hj.not_gt, if_neg hj.ne']
    exact Nat.le_sub_one_of_lt hi

theorem lastSeen_lt (j : ℕ) : cfg.lastSeen j < cfg.stepSize := by
  have hplace := cfg.actionOutPlace_lt_stepSize
  unfold lastSeen
  split
  · exact (Nat.sub_le _ _).trans_lt hplace
  · split
    · exact hplace
    · exact Nat.sub_lt cfg.stepSize_pos Nat.one_pos

theorem lastSeen_mono {j j' : ℕ} (h : j ≤ j') : cfg.lastSeen j ≤ cfg.lastSeen j' := by
  have hplace := cfg.actionOutPlace_lt_stepSize
  unfold lastSeen
  split_ifs <;> omega

theorem lastSeen_last : cfg.lastSeen (cfg.stepSize - 1) = cfg.stepSize - 1 := by
  have hplace := cfg.actionOutPlace_lt_stepSize
  unfold lastSeen
  split_ifs <;> omega

/-- Before the last key it sees, a place misses at most the action-out token. -/
theorem seesPlace_of_lt_lastSeen {j i : ℕ} (h : i < cfg.lastSeen j) :
    cfg.SeesPlace j i ∨ i = cfg.actionOutPlace ∧ cfg.actionOutPlace < j := by
  unfold lastSeen at h
  unfold SeesPlace
  split_ifs at h <;> omega

/-- The first place sees least, unless it is the action-out token itself. -/
theorem seesPlace_of_first {j i : ℕ} (h : cfg.SeesPlace 0 i) (hplace : 0 < cfg.actionOutPlace) :
    cfg.SeesPlace j i := by
  have hi : i < cfg.actionOutPlace := by
    rcases h with ⟨-, hi⟩ | ⟨h0, -⟩ | ⟨h0, -⟩
    · exact hi
    · exact absurd h0 hplace.ne
    · exact absurd h0 (Nat.not_lt_zero _)
  rcases Nat.lt_trichotomy j cfg.actionOutPlace with hlt | heq | hgt
  · exact .inl ⟨hlt, hi⟩
  · exact .inr (.inl ⟨heq, hi.le⟩)
  · exact .inr (.inr ⟨hgt, hi.ne⟩)

/-! ## The mask around the newest step -/

variable (t h : ℕ)

/-- Within the step at `t`, the mask looks at the places only. -/
theorem layerMask_own {j i : ℕ} (hj : j < cfg.stepSize) (hi : i < cfg.stepSize) :
    cfg.layerMask h (t * cfg.stepSize + j) (cfg.nKvSinkTokens + (t * cfg.stepSize + i)) = true ↔
      cfg.SeesPlace j i := by
  rw [layerMask_token, cfg.row_div t hj, cfg.row_div t hi, cfg.row_mod t hj, cfg.row_mod t hi,
    IsRealAction, cfg.row_mod t hj]
  constructor
  · rintro ⟨-, ⟨hlt, -⟩ | ⟨-, hown⟩⟩
    · exact absurd hlt (lt_irrefl t)
    · exact hown
  · intro hown
    exact ⟨Nat.le_add_right t h, .inr ⟨rfl, hown⟩⟩

/-- All places of a step see the same of the earlier steps. -/
theorem layerMask_earlier {j j' p : ℕ} (hj : j < cfg.stepSize) (hj' : j' < cfg.stepSize)
    (hp : p < t * cfg.stepSize)
    (hmask : cfg.layerMask h (t * cfg.stepSize + j) (cfg.nKvSinkTokens + p) = true) :
    cfg.layerMask h (t * cfg.stepSize + j') (cfg.nKvSinkTokens + p) = true := by
  have hrow : p / cfg.stepSize < t := Nat.div_lt_of_lt_mul (by rwa [Nat.mul_comm])
  rw [layerMask_token, cfg.row_div t hj] at hmask
  rw [layerMask_token, cfg.row_div t hj']
  rcases hmask with ⟨hhistory, ⟨-, hkind⟩ | ⟨heq, -⟩⟩
  · exact ⟨hhistory, .inl ⟨hrow, hkind⟩⟩
  · exact absurd heq hrow.ne

/-- No query sees a later step. -/
theorem not_layerMask_later {q p : ℕ} (hq : q / cfg.stepSize < p / cfg.stepSize) :
    ¬cfg.layerMask h q (cfg.nKvSinkTokens + p) = true := by
  intro hmask
  exact hq.not_ge (cfg.layerMask_window hmask).1

/-- A key of the cache is a sink, of an earlier step, or of the step at `t`. -/
theorem key_cases {kv : ℕ} (hkv : kv < cfg.nKvSinkTokens + (t + 1) * cfg.stepSize) :
    kv < cfg.nKvSinkTokens ∨ (∃ p < t * cfg.stepSize, kv = cfg.nKvSinkTokens + p) ∨
      ∃ i < cfg.stepSize, kv = cfg.nKvSinkTokens + (t * cfg.stepSize + i) := by
  rcases Nat.lt_or_ge kv cfg.nKvSinkTokens with hsink | hsink
  · exact .inl hsink
  · obtain ⟨p, rfl⟩ := Nat.exists_eq_add_of_le hsink
    rcases Nat.lt_or_ge p (t * cfg.stepSize) with hp | hp
    · exact .inr (.inl ⟨p, hp, rfl⟩)
    · obtain ⟨i, rfl⟩ := Nat.exists_eq_add_of_le hp
      rw [Nat.succ_mul, Nat.add_lt_add_iff_left, Nat.add_lt_add_iff_left] at hkv
      exact .inr (.inr ⟨i, hkv, rfl⟩)

/-! ## The row of the newest step -/

section Row

variable {t h} {B : ℕ} (hB : 0 < B)

theorem lt_rowEnd (hB : 0 < B) {start q : ℕ} (hrow : q / B = start / B) :
    q < start / B * B + B := by
  rw [← hrow, ← Nat.succ_mul, Nat.mul_comm]
  exact Nat.lt_mul_div_succ q hB

theorem le_lastRowQuery (hB : 0 < B) {start q : ℕ} (hrow : q / B = start / B)
    (hq : q < start + cfg.stepSize) : q ≤ cfg.lastRowQuery B start :=
  Nat.le_min.mpr ⟨Nat.le_sub_one_of_lt (lt_rowEnd hB hrow), Nat.le_sub_one_of_lt hq⟩

include hB

theorem start_le_lastRowQuery (start : ℕ) : start ≤ cfg.lastRowQuery B start :=
  le_lastRowQuery hB rfl (Nat.lt_add_of_pos_right cfg.stepSize_pos)

theorem row_of_le_lastRowQuery {start q : ℕ} (hstart : start ≤ q)
    (hq : q ≤ cfg.lastRowQuery B start) : q / B = start / B := by
  have hrow : start / B * B ≤ q := (Nat.div_mul_le_self start B).trans hstart
  have hlast := hq.trans (Nat.min_le_left _ _)
  apply Nat.div_eq_of_lt_le hrow
  rw [Nat.succ_mul]
  omega

omit hB in
theorem lastRowQuery_sub_lt (B start : ℕ) :
    cfg.lastRowQuery B start - start < cfg.stepSize := by
  have hlast : cfg.lastRowQuery B start ≤ start + cfg.stepSize - 1 := Nat.min_le_right _ _
  have hpos := cfg.stepSize_pos
  omega

/-- A row that reaches past the step has all of its places. -/
theorem lastRowQuery_of_past {start q : ℕ} (hrow : q / B = start / B)
    (hq : start + cfg.stepSize ≤ q) : cfg.lastRowQuery B start - start = cfg.stepSize - 1 := by
  have hlt := lt_rowEnd hB hrow
  have hpos := cfg.stepSize_pos
  have hmin : cfg.lastRowQuery B start = start + cfg.stepSize - 1 := by
    apply Nat.min_eq_right
    omega
  rw [hmin]
  omega

variable (ht : t < cfg.nSteps)
include ht

omit hB in
theorem step_le_maxSeqLen : (t + 1) * cfg.stepSize ≤ cfg.maxSeqLen := by
  rw [maxSeqLen, Nat.mul_comm]
  exact Nat.mul_le_mul_left _ ht

omit hB in
theorem key_lt_kvLen {kv : ℕ} (hkv : kv < cfg.nKvSinkTokens + (t + 1) * cfg.stepSize) :
    kv < cfg.maxSeqLen + cfg.nKvSinkTokens := by
  have hstep := cfg.step_le_maxSeqLen ht
  omega

/-- What a place of the step in the row of its first query sees is listed. -/
theorem listed_of_place {j kv : ℕ}
    (hj : t * cfg.stepSize + j ≤ cfg.lastRowQuery B (t * cfg.stepSize))
    (hkv : kv < cfg.nKvSinkTokens + (t + 1) * cfg.stepSize)
    (hmask : cfg.layerMask h (t * cfg.stepSize + j) kv = true) :
    (cfg.blockMask B h).listed (t * cfg.stepSize / B) (kv / B) = true := by
  have hplace : j < cfg.stepSize :=
    (Nat.le_sub_of_add_le' hj).trans_lt (cfg.lastRowQuery_sub_lt B (t * cfg.stepSize))
  have hq : t * cfg.stepSize + j < cfg.maxSeqLen :=
    (place_lt t hplace).trans_le (cfg.step_le_maxSeqLen ht)
  rw [← row_of_le_lastRowQuery hB (Nat.le_add_right _ j) hj]
  exact BlockMask.listed_of_mask (m := cfg.blockMask B h) hq (cfg.key_lt_kvLen ht hkv) hmask

/-- The row lists every block that a query of the step needs. -/
theorem listed_of_layerMask (hcover : cfg.RowCovers B (t * cfg.stepSize)) {j kv : ℕ}
    (hj : j < cfg.stepSize) (hkv : kv < cfg.nKvSinkTokens + (t + 1) * cfg.stepSize)
    (hmask : cfg.layerMask h (t * cfg.stepSize + j) kv = true) :
    (cfg.blockMask B h).listed (t * cfg.stepSize / B) (kv / B) = true := by
  have hfirst : t * cfg.stepSize ≤ cfg.lastRowQuery B (t * cfg.stepSize) :=
    start_le_lastRowQuery hB (t * cfg.stepSize)
  obtain ⟨last, hlast⟩ := Nat.exists_eq_add_of_le hfirst
  have hlastlt := cfg.lastRowQuery_sub_lt B (t * cfg.stepSize)
  rw [RowCovers, hlast, Nat.add_sub_cancel_left] at hcover
  rw [hlast, Nat.add_sub_cancel_left] at hlastlt
  rcases key_cases t hkv with hsink | ⟨p, hp, rfl⟩ | ⟨i, hi, rfl⟩
  · exact listed_of_place (j := 0) hB ht hfirst hkv (cfg.layerMask_sink h _ hsink)
  · exact listed_of_place (j := 0) hB ht hfirst hkv
      (layerMask_earlier t h hj cfg.stepSize_pos hp hmask)
  · have hseen : cfg.nKvSinkTokens + (t * cfg.stepSize + cfg.lastSeen last) <
        cfg.nKvSinkTokens + (t + 1) * cfg.stepSize :=
      Nat.add_lt_add_left (place_lt t (lastSeen_lt last)) _
    rcases Nat.lt_or_ge i (cfg.lastSeen last) with hlt | hge
    · rcases seesPlace_of_lt_lastSeen hlt with hsees | ⟨rfl, hplace⟩
      · exact listed_of_place hB ht hlast.ge hkv
          ((layerMask_own t h hlastlt hi).mpr hsees)
      · -- the action-out token sees its own key, and is in the row
        exact listed_of_place hB ht (hlast.symm ▸ Nat.add_le_add_left hplace.le _) hkv
          ((layerMask_own t h hi hi).mpr (.inr (.inl ⟨rfl, le_rfl⟩)))
    · -- past the last seen key all keys of the step lie in its block
      have hblock : (cfg.nKvSinkTokens + (t * cfg.stepSize + i)) / B =
          (cfg.nKvSinkTokens + (t * cfg.stepSize + cfg.lastSeen last)) / B := by
        apply le_antisymm
        · rw [hcover]
          apply Nat.div_le_div_right
          omega
        · apply Nat.div_le_div_right
          omega
      rw [hblock]
      exact listed_of_place hB ht hlast.ge hseen
        ((layerMask_own t h hlastlt (lastSeen_lt last)).mpr (seesPlace_lastSeen hlastlt))

omit hB in
/-- Every query of the row, up to the end of the step, sees a key of a full
block. -/
theorem layerMask_of_full_row {q kv : ℕ} (hkv : kv < cfg.nKvSinkTokens + (t + 1) * cfg.stepSize)
    (hfull : (cfg.blockMask B h).full (t * cfg.stepSize / B) (kv / B) = true)
    (hq : q < (t + 1) * cfg.stepSize) (hrow : q / B = t * cfg.stepSize / B) :
    cfg.layerMask h q kv = true :=
  BlockMask.mask_of_full hfull (hq.trans_le (cfg.step_le_maxSeqLen ht)) hrow
    (cfg.key_lt_kvLen ht hkv)

/-- A step that begins with its action-out token: another query of the row does
not see it. -/
theorem not_full_actionOut (hcover : cfg.RowCovers B (t * cfg.stepSize))
    (hplace : cfg.actionOutPlace = 0) (hstep : 1 < cfg.stepSize) :
    ¬(cfg.blockMask B h).full (t * cfg.stepSize / B)
      ((cfg.nKvSinkTokens + (t * cfg.stepSize + 0)) / B) = true := by
  intro hfull
  have hkv : cfg.nKvSinkTokens + (t * cfg.stepSize + 0) <
      cfg.nKvSinkTokens + (t + 1) * cfg.stepSize :=
    Nat.add_lt_add_left (place_lt t cfg.stepSize_pos) _
  have hrow := fun q => cfg.layerMask_of_full_row (q := q) ht hkv hfull
  have hfirst : t * cfg.stepSize ≤ cfg.lastRowQuery B (t * cfg.stepSize) :=
    start_le_lastRowQuery hB (t * cfg.stepSize)
  rcases Nat.eq_or_lt_of_le hfirst with hlast | hlast
  · -- the row ends with the first query of the step
    have hcover' := hcover
    rw [RowCovers, ← hlast, Nat.sub_self, lastSeen, if_neg (Nat.not_lt.mpr hplace.le),
      if_pos hplace.symm, hplace] at hcover'
    have hend : t * cfg.stepSize / B * B + B - 1 = t * cfg.stepSize := by
      rw [lastRowQuery] at hlast
      omega
    rcases Nat.eq_or_lt_of_le (Nat.succ_le_of_lt hB) with hone | hmany
    · rw [← hone, Nat.div_one, Nat.div_one] at hcover'
      omega
    · have hmask := hrow (t * cfg.stepSize / B * B)
        ((Nat.div_mul_le_self _ B).trans_lt (place_lt t cfg.stepSize_pos))
        (Nat.mul_div_cancel _ hB)
      refine not_layerMask_later h ?_ hmask
      rw [cfg.row_div t cfg.stepSize_pos]
      apply Nat.div_lt_of_lt_mul
      rw [Nat.mul_comm cfg.stepSize]
      omega
  · have hmask := hrow (t * cfg.stepSize + 1) (place_lt t hstep)
      (row_of_le_lastRowQuery hB (Nat.le_add_right _ 1) hlast)
    rw [layerMask_own t h hstep cfg.stepSize_pos, SeesPlace, hplace] at hmask
    simp at hmask

/-- A full block holds nothing that a query of the step may not see. -/
theorem layerMask_of_full (hcover : cfg.RowCovers B (t * cfg.stepSize)) {j kv : ℕ}
    (hj : j < cfg.stepSize) (hkv : kv < cfg.nKvSinkTokens + (t + 1) * cfg.stepSize)
    (hfull : (cfg.blockMask B h).full (t * cfg.stepSize / B) (kv / B) = true) :
    cfg.layerMask h (t * cfg.stepSize + j) kv = true := by
  have hpos := cfg.stepSize_pos
  have hfirst : cfg.layerMask h (t * cfg.stepSize + 0) kv = true :=
    cfg.layerMask_of_full_row ht hkv hfull (place_lt t hpos) rfl
  rcases key_cases t hkv with hsink | ⟨p, hp, rfl⟩ | ⟨i, hi, rfl⟩
  · exact cfg.layerMask_sink h _ hsink
  · exact layerMask_earlier t h hpos hj hp hfirst
  · rcases Nat.eq_zero_or_pos cfg.actionOutPlace with hplace | hplace
    · have hfirst' := (layerMask_own t h hpos hi).mp hfirst
      have hi0 : i = 0 := by
        simp only [SeesPlace, hplace] at hfirst'
        omega
      subst hi0
      have hone : ¬1 < cfg.stepSize :=
        fun hstep => cfg.not_full_actionOut hB ht hcover hplace hstep hfull
      have hj0 : j = 0 := by omega
      rwa [hj0]
    · rw [layerMask_own t h hj hi]
      exact seesPlace_of_first ((layerMask_own t h hpos hi).mp hfirst) hplace

omit ht in
/-- No query of the row, up to the end of the step, sees past the last seen key. -/
theorem le_of_layerMask_row {last q p : ℕ}
    (hlast : cfg.lastRowQuery B (t * cfg.stepSize) = t * cfg.stepSize + last)
    (hrow : q / B = t * cfg.stepSize / B) (hq : q < t * cfg.stepSize + cfg.stepSize)
    (hmask : cfg.layerMask h q (cfg.nKvSinkTokens + p) = true) :
    p ≤ t * cfg.stepSize + cfg.lastSeen last := by
  rcases Nat.lt_or_ge p (t * cfg.stepSize) with hearlier | hp
  · exact hearlier.le.trans (Nat.le_add_right _ _)
  obtain ⟨i, rfl⟩ := Nat.exists_eq_add_of_le hp
  have hstep := (cfg.layerMask_window hmask).1
  rcases Nat.lt_or_ge q (t * cfg.stepSize) with hbefore | hown
  · -- a query of an earlier step sees nothing of this one
    have hqstep : cfg.stepOf q < t := Nat.div_lt_of_lt_mul (by rwa [Nat.mul_comm])
    have hpstep : t ≤ cfg.stepOf (t * cfg.stepSize + i) :=
      (Nat.le_div_iff_mul_le cfg.stepSize_pos).mpr (Nat.le_add_right _ _)
    exact absurd (hpstep.trans hstep) hqstep.not_ge
  · obtain ⟨j, rfl⟩ := Nat.exists_eq_add_of_le hown
    have hj : j < cfg.stepSize := Nat.lt_of_add_lt_add_left hq
    have hjlast : j ≤ last := by
      have hle := le_lastRowQuery hB hrow hq
      rw [hlast] at hle
      exact Nat.le_of_add_le_add_left hle
    have hi : i < cfg.stepSize := by
      rw [PolicyConfig.stepOf, PolicyConfig.stepOf, cfg.row_div t hj] at hstep
      have hlt := Nat.lt_mul_of_div_lt (Nat.lt_succ_of_le hstep) cfg.stepSize_pos
      rw [Nat.succ_mul] at hlt
      exact Nat.lt_of_add_lt_add_left hlt
    have hsees := (layerMask_own t h hj hi).mp hmask
    exact Nat.add_le_add_left ((le_lastSeen hi hsees).trans (lastSeen_mono hjlast)) _

omit ht in
/-- When the block of the last key of the step is listed, the row covers the
step. -/
theorem rowCovers_of_listed
    (hlisted : (cfg.blockMask B h).listed (t * cfg.stepSize / B)
      ((cfg.nKvSinkTokens + (t * cfg.stepSize + cfg.stepSize - 1)) / B) = true) :
    cfg.RowCovers B (t * cfg.stepSize) := by
  have hfirst : t * cfg.stepSize ≤ cfg.lastRowQuery B (t * cfg.stepSize) :=
    start_le_lastRowQuery hB (t * cfg.stepSize)
  obtain ⟨last, hlast⟩ := Nat.exists_eq_add_of_le hfirst
  have hseen : cfg.lastSeen last < cfg.stepSize := lastSeen_lt last
  obtain ⟨q, hq, kv, hkv, hmask⟩ := BlockMask.listed_iff.mp hlisted
  obtain ⟨-, hrow⟩ := BlockMask.mem_rowQueries.mp hq
  obtain ⟨-, hblock⟩ := BlockMask.mem_blockKeys.mp hkv
  simp only [blockMask] at hrow hblock hmask
  rw [RowCovers]
  rcases Nat.lt_or_ge q (t * cfg.stepSize + cfg.stepSize) with hlt | hpast
  · rw [hlast, Nat.add_sub_cancel_left]
    have hle : kv ≤ cfg.nKvSinkTokens + (t * cfg.stepSize + cfg.lastSeen last) := by
      by_contra hgt
      obtain ⟨p, rfl⟩ : ∃ p, kv = cfg.nKvSinkTokens + p := Nat.exists_eq_add_of_le (by omega)
      exact hgt (Nat.add_le_add_left (le_of_layerMask_row hB hlast hrow hlt hmask) _)
    apply le_antisymm
    · apply Nat.div_le_div_right
      omega
    · rw [← hblock]
      exact Nat.div_le_div_right hle
  · rw [lastRowQuery_of_past hB hrow hpast, lastSeen_last]
    congr 1
    have hpos := cfg.stepSize_pos
    omega

end Row

/-! ## Cached decoding -/

section Decoding

variable {B h m : ℕ}

/-- Both paths of `forward` take the row of the first query of the newest step,
and shift the mask to it. -/
theorem decodeMask_eq (hm : 0 < m) (hn : 0 < cfg.nSteps) :
    cfg.decodeMask B h cfg.stepSize (cfg.nKvSinkTokens + min m cfg.nSteps * cfg.stepSize) =
      getDecodeMask (cfg.blockMask B h) (cfg.stepStart m) (cfg.layerMask h) cfg.stepSize
        (cfg.nKvSinkTokens + min m cfg.nSteps * cfg.stepSize) := by
  obtain ⟨t, ht⟩ : ∃ t, min m cfg.nSteps = t + 1 :=
    Nat.exists_eq_succ_of_ne_zero (Nat.lt_min.mpr ⟨hm, hn⟩).ne'
  rw [decodeMask, stepStart, ht, Nat.add_sub_cancel]
  have hstart : (t + 1) * cfg.stepSize - cfg.stepSize = t * cfg.stepSize := by
    rw [Nat.succ_mul, Nat.add_sub_cancel]
  split
  · rename_i hfull
    have hlen : (t + 1) * cfg.stepSize = cfg.maxSeqLen := by omega
    simp only [cachedDecodeMask, ← hlen, hstart, Nat.add_comm cfg.nKvSinkTokens]
  · have hoffset : cfg.nKvSinkTokens + (t + 1) * cfg.stepSize - cfg.stepSize - cfg.nKvSinkTokens =
        t * cfg.stepSize := by omega
    simp only [hoffset]

/-- What a token of the newest step attends to while decoding. -/
theorem mem_decodeKeys (hm : 0 < m) (hn : 0 < cfg.nSteps) {j kv : ℕ} (hj : j < cfg.stepSize) :
    kv ∈ cfg.decodeKeys B h (min m cfg.nSteps * cfg.stepSize) j ↔
      kv < cfg.nKvSinkTokens + min m cfg.nSteps * cfg.stepSize ∧
        (cfg.blockMask B h).listed (cfg.stepStart m / B) (kv / B) = true ∧
        ((cfg.blockMask B h).full (cfg.stepStart m / B) (kv / B) = true ∨
          cfg.layerMask h (cfg.stepStart m + j) kv = true) := by
  rw [decodeKeys, Set.mem_ofPred_eq, decodeMask_eq hm hn, RowMask.allows_iff,
    Nat.add_comm (cfg.stepStart m)]
  constructor
  · rintro ⟨hkv, -, -, hlisted, hallowed⟩
    exact ⟨hkv, hlisted, hallowed⟩
  · rintro ⟨hkv, hlisted, hallowed⟩
    exact ⟨hkv, hj, hkv, hlisted, hallowed⟩

/-- The newest step attends like full attention exactly when the row of its
first query covers it. -/
theorem attendsLikeFull_iff_rowCovers (hB : 0 < B) (hm : 0 < m) (hn : 0 < cfg.nSteps) :
    cfg.AttendsLikeFull B h m ↔ cfg.RowCovers B (cfg.stepStart m) := by
  obtain ⟨t, hmin⟩ : ∃ t, min m cfg.nSteps = t + 1 :=
    Nat.exists_eq_succ_of_ne_zero (Nat.lt_min.mpr ⟨hm, hn⟩).ne'
  have ht : t < cfg.nSteps := (Nat.succ_le_iff.mp hmin.ge).trans_le (Nat.min_le_right _ _)
  have hstart : cfg.stepStart m = t * cfg.stepSize := by
    rw [stepStart, hmin, Nat.add_sub_cancel]
  constructor
  · intro hlike
    -- the last token of a step sees its own key
    have hlast : cfg.stepSize - 1 < cfg.stepSize := Nat.sub_lt cfg.stepSize_pos Nat.one_pos
    have hself := seesPlace_lastSeen hlast
    rw [lastSeen_last] at hself
    have hkey : cfg.nKvSinkTokens + (t * cfg.stepSize + (cfg.stepSize - 1)) <
        cfg.nKvSinkTokens + (t + 1) * cfg.stepSize :=
      Nat.add_lt_add_left (place_lt t hlast) _
    have hfull : cfg.nKvSinkTokens + (t * cfg.stepSize + (cfg.stepSize - 1)) ∈
        cfg.fullKeys h (cfg.stepStart m + (cfg.stepSize - 1)) := by
      rw [hstart]
      exact ⟨cfg.key_lt_kvLen ht hkey, (layerMask_own t h hlast hlast).mpr hself⟩
    rw [← hlike _ hlast, mem_decodeKeys hm hn hlast, hstart] at hfull
    rw [hstart]
    apply rowCovers_of_listed (h := h) hB
    rw [Nat.add_sub_assoc cfg.stepSize_pos]
    exact hfull.2.1
  · intro hcover j hj
    rw [hstart] at hcover
    ext kv
    rw [mem_decodeKeys hm hn hj, hstart, hmin]
    constructor
    · rintro ⟨hkv, -, hfull | hmask⟩
      · exact ⟨cfg.key_lt_kvLen ht hkv, layerMask_of_full hB ht hcover hj hkv hfull⟩
      · exact ⟨cfg.key_lt_kvLen ht hkv, hmask⟩
    · rintro ⟨-, hmask⟩
      have hkv : kv < cfg.nKvSinkTokens + (t + 1) * cfg.stepSize := by
        by_contra hlater
        obtain ⟨p, rfl⟩ : ∃ p, kv = cfg.nKvSinkTokens + p := Nat.exists_eq_add_of_le (by omega)
        refine not_layerMask_later h ?_ hmask
        have hp : (t + 1) * cfg.stepSize ≤ p := by omega
        rw [cfg.row_div t hj]
        exact (Nat.le_div_iff_mul_le cfg.stepSize_pos).mpr hp
      exact ⟨hkv, listed_of_layerMask hB ht hcover hj hkv hmask, .inr hmask⟩

/-- With sinks, and steps that fit into a block beside them, every row covers
its step: the sinks shift the keys past the end of the row of queries. -/
theorem rowCovers_of_sinks (hsinks : 0 < cfg.nKvSinkTokens)
    (hfit : cfg.stepSize + cfg.nKvSinkTokens ≤ B + 1) (start : ℕ) : cfg.RowCovers B start := by
  have hpos := cfg.stepSize_pos
  have hB : 0 < B := by omega
  have hfirst : start ≤ cfg.lastRowQuery B start := start_le_lastRowQuery hB start
  have hlast := cfg.lastRowQuery_sub_lt B start
  have hself : cfg.SeesPlace (cfg.lastRowQuery B start - start)
      (cfg.lastRowQuery B start - start) := by
    unfold SeesPlace
    omega
  have hseen := le_lastSeen hlast hself
  have hlt := cfg.lastSeen_lt (cfg.lastRowQuery B start - start)
  rw [RowCovers]
  rcases Nat.le_total (start + cfg.stepSize - 1) (start / B * B + B - 1) with hle | hle
  · have hend : cfg.lastRowQuery B start = start + cfg.stepSize - 1 := Nat.min_eq_right hle
    congr 1
    omega
  · have hend : cfg.lastRowQuery B start = start / B * B + B - 1 := Nat.min_eq_left hle
    have hrow := Nat.div_mul_le_self start B
    have hblock : ∀ kv, start / B * B + B ≤ kv → kv < start / B * B + B + B →
        kv / B = start / B + 1 := by
      intro kv hge hlt
      apply Nat.div_eq_of_lt_le
      · rwa [Nat.succ_mul]
      · rwa [Nat.succ_mul, Nat.succ_mul]
    have hseenBlock := hblock (cfg.nKvSinkTokens +
      (start + cfg.lastSeen (cfg.lastRowQuery B start - start))) (by omega) (by omega)
    have hendBlock := hblock (cfg.nKvSinkTokens + (start + cfg.stepSize - 1)) (by omega) (by omega)
    exact hseenBlock.trans hendBlock.symm

/-- The cache holds the keys and values of the last steps in order, within its
bound. -/
def HoldsLastSteps {K V : Type} (cfg : PolicyConfig)
    (steps : List (RollingStepKVCache.StepKV cfg.kvCache K V)) : Prop :=
  let last := lastN (min steps.length cfg.nSteps) steps
  (cfg.kvCache.feed steps).kCache = (last.map RollingStepKVCache.StepKV.k).flatten ∧
    (cfg.kvCache.feed steps).vCache = (last.map RollingStepKVCache.StepKV.v).flatten ∧
    (cfg.kvCache.feed steps).kCache.length ≤ cfg.maxSeqLen

/-- The cache holds the last steps, and every token of the newest one attends to
the sinks and cached keys that the full mask allows for its place. -/
def DecodesLikeFull {K V : Type} (cfg : PolicyConfig) (maskBlockSize historyLen : ℕ)
    (steps : List (RollingStepKVCache.StepKV cfg.kvCache K V)) : Prop :=
  HoldsLastSteps cfg steps ∧
    ∀ j < cfg.stepSize,
      cfg.decodeKeys maskBlockSize historyLen (cfg.kvCache.feed steps).kCache.length j =
        cfg.fullKeys historyLen (cfg.stepStart steps.length + j)

section

variable {K V : Type} (hn : 0 < cfg.nSteps)
  (steps : List (RollingStepKVCache.StepKV cfg.kvCache K V))
include hn

theorem feed_kvCache : cfg.kvCache.feed steps = RollingStepKVCache.rows steps :=
  RollingStepKVCache.feed_eq_rows hn cfg.stepSize_pos steps

theorem holdsLastSteps : HoldsLastSteps cfg steps := by
  rw [HoldsLastSteps, cfg.feed_kvCache hn steps]
  exact ⟨rfl, rfl, RollingStepKVCache.length_rows_le steps⟩

theorem length_feed_kvCache :
    (cfg.kvCache.feed steps).kCache.length = min steps.length cfg.nSteps * cfg.stepSize := by
  rw [cfg.feed_kvCache hn steps, RollingStepKVCache.length_rows]
  rfl

end

/-- **Cached decoding.** The cache always holds the last steps. The newest step
attends like full attention exactly when the row of its first query covers it. -/
theorem decodesLikeFull_iff {K V : Type} (cfg : PolicyConfig) (hn : 0 < cfg.nSteps) {B : ℕ}
    (hB : 0 < B) (h : ℕ) (steps : List (RollingStepKVCache.StepKV cfg.kvCache K V))
    (hsteps : steps ≠ []) :
    HoldsLastSteps cfg steps ∧
      (DecodesLikeFull cfg B h steps ↔ cfg.RowCovers B (cfg.stepStart steps.length)) := by
  refine ⟨cfg.holdsLastSteps hn steps, ?_⟩
  rw [← attendsLikeFull_iff_rowCovers (h := h) hB (List.length_pos_iff.mpr hsteps) hn,
    DecodesLikeFull, cfg.length_feed_kvCache hn steps]
  exact and_iff_right (cfg.holdsLastSteps hn steps)

end Decoding

end PolicyConfig

section Shipped

open PolicyConfig

/-- The token counts of the shipped configuration: one token of each kind, no
sinks. -/
def shippedPolicy : PolicyConfig :=
  { nSteps := 200, nImgTokens := 1, textTokenSize := 1, nThinkingTokens := 1, nActionTokens := 1,
    nKvSinkTokens := 0 }

/-- A step whose keys are numbered by its step. -/
def numberedStep {cfg : PolicyConfig} (t : ℕ) : RollingStepKVCache.StepKV cfg.kvCache ℕ ℕ :=
  { k := List.replicate cfg.stepSize t, v := List.replicate cfg.stepSize t
    length_k := List.length_replicate, length_v := List.length_replicate }

/-- The same tokens with a sink, and a full cache of 26 steps. -/
def sinkPolicy : PolicyConfig := { shippedPolicy with nSteps := 26, nKvSinkTokens := 1 }

/-- In the steady phase the newest step lies on positions 125 to 129, in two rows. -/
theorem decodesLikeFull_iff_steady :
    DecodesLikeFull sinkPolicy 128 26 ((List.range 30).map numberedStep) := by
  have hiff := (decodesLikeFull_iff sinkPolicy (by decide) (by decide : 0 < 128) 26
    ((List.range 30).map numberedStep) (by decide)).2
  exact hiff.mpr (sinkPolicy.rowCovers_of_sinks (by decide) (by decide) _)

/-- Step 26 lies on positions 125 to 129. The row of position 125 ends at 127, with a
thinking token, so the block of the last two keys of the step is not listed. -/
theorem not_decodesLikeFull_shipped :
    ¬DecodesLikeFull shippedPolicy 128 200 ((List.range 26).map numberedStep) := by
  intro hlike
  have hlen := shippedPolicy.length_feed_kvCache (by decide) ((List.range 26).map numberedStep)
  have hcover : shippedPolicy.RowCovers 128 (shippedPolicy.stepStart 26) := by
    rw [← attendsLikeFull_iff_rowCovers (h := 200) (by decide) (by decide) (by decide)]
    intro j hj
    have hkeys := hlike.2 j hj
    rwa [hlen] at hkeys
  exact absurd hcover (by decide)

end Shipped

end P2PRdt.Policy

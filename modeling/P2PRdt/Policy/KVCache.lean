import P2PRdt.Lib.LastN
import Mathlib.Data.List.Induction
import Mathlib.Order.Nat

/-!
# The rolling key-value cache

`RollingStepKVCache`: the keys and values of the last steps, one row after the
other. Only the sequence dimension of the tensors is modelled; an entry is the
slice of all batch and head dimensions at one place of the sequence.
-/

namespace P2PRdt.Policy

open Lib

structure KVCacheState (K V : Type) where
  kCache : List K
  vCache : List V

structure RollingStepKVCache where
  stepSize : ℕ
  maxT : ℕ

namespace RollingStepKVCache

variable (c : RollingStepKVCache) {K V : Type}

def maxSeqLen : ℕ := c.stepSize * c.maxT

def initState : KVCacheState K V := { kCache := [], vCache := [] }

def update (state : KVCacheState K V) (kVal : List K) (vVal : List V)
    (shouldGrowCache : Option Bool) : KVCacheState K V :=
  let kept : KVCacheState K V :=
    { kCache := state.kCache.drop c.stepSize, vCache := state.vCache.drop c.stepSize }
  let cache := match shouldGrowCache with
    | none => if state.kCache.length ≥ c.maxSeqLen then kept else state
    | some true => state
    | some false => kept
  { kCache := cache.kCache ++ kVal, vCache := cache.vCache ++ vVal }

/-- The keys and values of one step. -/
structure StepKV (c : RollingStepKVCache) (K V : Type) where
  k : List K
  v : List V
  length_k : k.length = c.stepSize
  length_v : v.length = c.stepSize

/-- The cache after the given steps. -/
def feed (steps : List (StepKV c K V)) : KVCacheState K V :=
  steps.foldl (fun state s => c.update state s.k s.v none) initState

variable {c}

/-- The rows of the last steps. -/
def rows (steps : List (StepKV c K V)) : KVCacheState K V where
  kCache := ((lastN (min steps.length c.maxT) steps).map StepKV.k).flatten
  vCache := ((lastN (min steps.length c.maxT) steps).map StepKV.v).flatten

theorem length_flatten_k (steps : List (StepKV c K V)) :
    (steps.map StepKV.k).flatten.length = steps.length * c.stepSize := by
  simp [List.length_flatten, Function.comp_def, StepKV.length_k]

theorem drop_flatten_k (steps : List (StepKV c K V)) :
    ((steps.map StepKV.k).flatten).drop c.stepSize = (steps.tail.map StepKV.k).flatten := by
  cases steps with
  | nil => exact List.drop_nil
  | cons s steps => exact List.drop_left' s.length_k

theorem drop_flatten_v (steps : List (StepKV c K V)) :
    ((steps.map StepKV.v).flatten).drop c.stepSize = (steps.tail.map StepKV.v).flatten := by
  cases steps with
  | nil => exact List.drop_nil
  | cons s steps => exact List.drop_left' s.length_v

theorem length_rows (steps : List (StepKV c K V)) :
    (rows steps).kCache.length = min steps.length c.maxT * c.stepSize := by
  rw [rows, length_flatten_k, length_lastN (Nat.min_le_left _ _)]

theorem length_rows_le (steps : List (StepKV c K V)) :
    (rows steps).kCache.length ≤ c.maxSeqLen := by
  rw [length_rows, maxSeqLen, Nat.mul_comm]
  exact Nat.mul_le_mul_left _ (Nat.min_le_right _ _)

/-- One more step: it is appended while there is room, and pushes the oldest one
out later. -/
theorem update_rows (hT : 0 < c.maxT) (hstep : 0 < c.stepSize) (steps : List (StepKV c K V))
    (s : StepKV c K V) : c.update (rows steps) s.k s.v none = rows (steps ++ [s]) := by
  obtain ⟨n, hn⟩ : ∃ n, c.maxT = n + 1 := Nat.exists_eq_succ_of_ne_zero hT.ne'
  have hfull : (rows steps).kCache.length ≥ c.maxSeqLen ↔ c.maxT ≤ steps.length := by
    rw [length_rows, maxSeqLen, ge_iff_le, Nat.mul_comm, Nat.mul_le_mul_right_iff hstep,
      Nat.le_min]
    exact and_iff_left le_rfl
  by_cases hroom : c.maxT ≤ steps.length
  · have hmin : min steps.length c.maxT = n + 1 := (Nat.min_eq_right hroom).trans hn
    have hmin' : min (steps ++ [s]).length c.maxT = n + 1 := by
      rw [List.length_append, List.length_singleton, hn]
      exact Nat.min_eq_right (hn.symm.trans_le (hroom.trans (Nat.le_succ _)))
    have htail : (lastN (n + 1) steps).tail = lastN n steps := tail_lastN (hn ▸ hroom)
    simp only [update, if_pos (hfull.mpr hroom)]
    simp only [rows, hmin, hmin', drop_flatten_k, drop_flatten_v, htail, lastN_succ_concat,
      List.map_append, List.flatten_append, List.map_cons, List.map_nil, List.flatten_singleton]
  · have hlt : steps.length < c.maxT := Nat.lt_of_not_le hroom
    have hmin : min steps.length c.maxT = steps.length := Nat.min_eq_left hlt.le
    have hmin' : min (steps ++ [s]).length c.maxT = steps.length + 1 := by
      rw [List.length_append, List.length_singleton]
      exact Nat.min_eq_left hlt
    simp only [update, if_neg (fun h => hroom (hfull.mp h))]
    simp only [rows, hmin, hmin', lastN_succ_concat, List.map_append, List.flatten_append,
      List.map_cons, List.map_nil, List.flatten_singleton]

/-- The cache holds the last steps, in order. -/
theorem feed_eq_rows (hT : 0 < c.maxT) (hstep : 0 < c.stepSize) (steps : List (StepKV c K V)) :
    c.feed steps = rows steps := by
  induction steps using List.reverseRecOn with
  | nil => simp [feed, rows, initState, lastN]
  | append_singleton steps s ih =>
      rw [← update_rows hT hstep steps s, ← ih, feed, List.foldl_append]
      rfl

end RollingStepKVCache

end P2PRdt.Policy

import P2PRdt.Lib.MaskedLayers
import Mathlib.Algebra.Order.BigOperators.Group.Finset
import Mathlib.Algebra.Order.Field.Basic
import Mathlib.Tactic.Positivity

/-!
# Layers that add up what they see

The converse of the rule for information flow. Tokens and keys are read as
numbers, and a layer adds to the number of a token a mix of the numbers of the
keys it sees. Then zero stays zero, no number turns negative, and a positive
number reaches every position that sees it: `runAll_pos` is `runAll_agree`
turned around.
-/

namespace P2PRdt.Lib

variable {V KV K : Type} [Field K] [LinearOrder K] [IsStrictOrderedRing K]

namespace MaskedLayer

/-- Read through `val` and `key`, the layer adds up what a token sees. -/
structure Adds (l : MaskedLayer V KV) (val : V → K) (key : KV → K) : Prop where
  sinks : ∀ k ∈ l.sinks, key k = 0
  project : ∀ p v, ∃ c, 0 < c ∧ key (l.project p v) = c * val v
  update : ∀ q v (view : List (Option KV)), ∃ c : Fin view.length → K,
    (∀ i, 0 ≤ c i) ∧ (∀ i, (view.get i).isSome → 0 < c i) ∧
      val (l.update q v view) = val v + ∑ i, c i * (view.get i).elim 0 key

variable {l : MaskedLayer V KV} {val : V → K} {key : KV → K} {x : List V}

omit [Field K] [LinearOrder K] [IsStrictOrderedRing K] in
/-- A key in the view of `q` is a sink or belongs to a token. -/
theorem mem_view {q : ℕ} {k : KV} (h : some k ∈ l.view x q) :
    k ∈ l.sinks ∨ ∃ p v, v ∈ x ∧ k = l.project p v := by
  obtain ⟨kv, hkv, heq⟩ := List.mem_mapIdx.mp h
  have hk : (l.keys x)[kv] = k := by
    split at heq
    · exact Option.some.inj heq
    · cases heq
  rcases List.mem_append.mp (hk ▸ List.getElem_mem hkv) with hsink | htoken
  · exact .inl hsink
  · obtain ⟨p, hp, rfl⟩ := List.mem_mapIdx.mp htoken
    exact .inr ⟨p, x[p], List.getElem_mem hp, rfl⟩

omit [Field K] [LinearOrder K] [IsStrictOrderedRing K] in
theorem mem_view_of_sees {q p : ℕ} {v : V} (hsees : l.Sees q p) (hv : x[p]? = some v) :
    some (l.project p v) ∈ l.view x q := by
  apply List.mem_of_getElem? (i := l.sinks.length + p)
  rw [view, List.getElem?_mapIdx, l.getElem?_keys_token, hv, Option.map_some, Option.map_some]
  exact congrArg some (if_pos hsees)

namespace Adds

variable (hl : l.Adds val key)
include hl

omit [IsStrictOrderedRing K] in
/-- The number of a key in the view. -/
theorem key_of_mem_view {q : ℕ} {o : Option KV} (ho : o ∈ l.view x q) :
    o.elim 0 key = 0 ∨ ∃ c v, 0 < c ∧ v ∈ x ∧ o.elim 0 key = c * val v := by
  cases o with
  | none => exact .inl rfl
  | some k =>
      rcases mem_view ho with hsink | ⟨p, v, hv, rfl⟩
      · exact .inl (hl.sinks k hsink)
      · obtain ⟨c, hc, heq⟩ := hl.project p v
        exact .inr ⟨c, v, hc, hv, heq⟩

theorem key_nonneg (hx : ∀ v ∈ x, 0 ≤ val v) {q : ℕ} {o : Option KV} (ho : o ∈ l.view x q) :
    0 ≤ o.elim 0 key := by
  rcases hl.key_of_mem_view ho with hzero | ⟨c, v, hc, hv, heq⟩
  · exact hzero.ge
  · rw [heq]
    exact mul_nonneg hc.le (hx v hv)

omit [IsStrictOrderedRing K] in
theorem run_zero (hx : ∀ v ∈ x, val v = 0) : ∀ v ∈ l.run x, val v = 0 := by
  intro v hv
  obtain ⟨q, hq, rfl⟩ := List.mem_mapIdx.mp hv
  obtain ⟨c, -, -, heq⟩ := hl.update q x[q] (l.view x q)
  rw [heq, hx _ (List.getElem_mem hq), zero_add]
  apply Finset.sum_eq_zero
  intro i _
  rcases hl.key_of_mem_view (List.get_mem (l.view x q) i) with hzero | ⟨d, v, -, hv, hval⟩
  · rw [hzero, mul_zero]
  · rw [hval, hx v hv, mul_zero, mul_zero]

theorem run_nonneg (hx : ∀ v ∈ x, 0 ≤ val v) : ∀ v ∈ l.run x, 0 ≤ val v := by
  intro v hv
  obtain ⟨q, hq, rfl⟩ := List.mem_mapIdx.mp hv
  obtain ⟨c, hc, -, heq⟩ := hl.update q x[q] (l.view x q)
  rw [heq]
  apply add_nonneg (hx _ (List.getElem_mem hq))
  apply Finset.sum_nonneg
  intro i _
  exact mul_nonneg (hc i) (hl.key_nonneg hx (List.get_mem _ i))

/-- A positive number stays, and it reaches whoever sees it. -/
theorem run_pos (hx : ∀ v ∈ x, 0 ≤ val v) {q : ℕ} {v : V} (hv : x[q]? = some v)
    (hpos : 0 < val v ∨ ∃ p u, x[p]? = some u ∧ l.Sees q p ∧ 0 < val u) :
    0 < val (l.update q v (l.view x q)) := by
  obtain ⟨c, hc, hcpos, heq⟩ := hl.update q v (l.view x q)
  have hterm : ∀ i, 0 ≤ c i * ((l.view x q).get i).elim 0 key := by
    intro i
    exact mul_nonneg (hc i) (hl.key_nonneg hx (List.get_mem _ i))
  rw [heq]
  rcases hpos with hself | ⟨p, u, hu, hsees, hupos⟩
  · exact add_pos_of_pos_of_nonneg hself (Finset.sum_nonneg fun i _ => hterm i)
  · apply add_pos_of_nonneg_of_pos (hx v (List.mem_of_getElem? hv))
    obtain ⟨i, hi⟩ := List.mem_iff_get.mp (mem_view_of_sees hsees hu)
    apply Finset.sum_pos' (fun i _ => hterm i)
    refine ⟨i, Finset.mem_univ i, ?_⟩
    obtain ⟨d, hd, hkey⟩ := hl.project p u
    apply mul_pos (hcpos i (by rw [hi]; rfl))
    rw [hi, Option.elim_some, hkey]
    exact mul_pos hd hupos

end Adds

end MaskedLayer

variable {layers : List (MaskedLayer V KV)} {val : V → K} {key : KV → K}

omit [IsStrictOrderedRing K] in
theorem runAll_zero (hl : ∀ l ∈ layers, l.Adds val key) {x : List V} (hx : ∀ v ∈ x, val v = 0) :
    ∀ v ∈ runAll layers x, val v = 0 := by
  induction layers generalizing x with
  | nil => exact hx
  | cons l layers ih =>
      apply ih fun l' hl' => hl l' (List.mem_cons_of_mem l hl')
      exact (hl l List.mem_cons_self).run_zero hx

theorem runAll_nonneg (hl : ∀ l ∈ layers, l.Adds val key) {x : List V}
    (hx : ∀ v ∈ x, 0 ≤ val v) : ∀ v ∈ runAll layers x, 0 ≤ val v := by
  induction layers generalizing x with
  | nil => exact hx
  | cons l layers ih =>
      apply ih fun l' hl' => hl l' (List.mem_cons_of_mem l hl')
      exact (hl l List.mem_cons_self).run_nonneg hx

/-- The positions of `A` hold positive numbers. -/
def PositiveOn (val : V → K) (A : ℕ → Prop) (x : List V) : Prop :=
  ∀ p v, A p → x[p]? = some v → 0 < val v

/-- **What flows through layers.** `A i` is a set of positions with positive
numbers before layer `i`; a position of `A (i + 1)` is in `A i` or sees a
position of `A i` in layer `i`. -/
theorem runAll_pos {A : ℕ → ℕ → Prop} (hl : ∀ l ∈ layers, l.Adds val key) {x : List V}
    (hA : ∀ i l, layers[i]? = some l → ∀ q, q < x.length → A (i + 1) q →
      A i q ∨ ∃ p, p < x.length ∧ l.Sees q p ∧ A i p)
    (hx : ∀ v ∈ x, 0 ≤ val v) (hpos : PositiveOn val (A 0) x) :
    PositiveOn val (A layers.length) (runAll layers x) := by
  induction layers generalizing A x with
  | nil => exact hpos
  | cons l layers ih =>
      have hadds := hl l List.mem_cons_self
      have hfirst : PositiveOn val (A 1) (l.run x) := by
        intro q v hq hv
        rw [l.getElem?_run] at hv
        obtain ⟨u, hu, rfl⟩ := Option.map_eq_some_iff.mp hv
        obtain ⟨hlt, -⟩ := List.getElem?_eq_some_iff.mp hu
        apply hadds.run_pos hx hu
        rcases hA 0 l rfl q hlt hq with hself | ⟨p, hp, hsees, hAp⟩
        · exact .inl (hpos q u hself hu)
        · exact .inr ⟨p, x[p], List.getElem?_eq_getElem hp, hsees,
            hpos p _ hAp (List.getElem?_eq_getElem hp)⟩
      apply ih (A := fun i => A (i + 1)) (fun l' hl' => hl l' (List.mem_cons_of_mem l hl')) _
        (hadds.run_nonneg hx) hfirst
      intro i l' hl' q hq hAq
      rw [l.length_run] at hq ⊢
      exact hA (i + 1) l' hl' q hq hAq

end P2PRdt.Lib

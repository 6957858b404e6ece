import Mathlib.Algebra.Ring.Nat
import Mathlib.Data.List.Basic

/-!
# Layers of masked attention

A layer rewrites every token of a sequence from the token itself and from the
keys its mask lets it see. The keys of a layer are its own constants, the sinks,
followed by one projection for each token. What a token sees is a list with a
hole in the place of every masked key, so a layer cannot look behind its mask.

`runAll_agree` is the rule for information flow: two sequences that agree on a
set of positions agree after each layer on every set whose positions see nothing
else.
-/

namespace P2PRdt.Lib

variable {V KV : Type}

/-- `mask q kv` lets position `q` see key `kv`, counted with the sinks first. -/
structure MaskedLayer (V KV : Type) where
  mask : ℕ → ℕ → Bool
  sinks : List KV
  project : ℕ → V → KV
  update : ℕ → V → List (Option KV) → V

namespace MaskedLayer

variable (l : MaskedLayer V KV)

def keys (x : List V) : List KV := l.sinks ++ x.mapIdx l.project

/-- The keys that position `q` sees. -/
def view (x : List V) (q : ℕ) : List (Option KV) :=
  (l.keys x).mapIdx fun kv k => if l.mask q kv then some k else none

def run (x : List V) : List V := x.mapIdx fun q v => l.update q v (l.view x q)

@[simp] theorem length_run (x : List V) : (l.run x).length = x.length := by
  simp [run]

/-- Position `q` sees position `p`. -/
def Sees (q p : ℕ) : Prop := l.mask q (l.sinks.length + p) = true

theorem getElem?_keys_sink (x : List V) {kv : ℕ} (h : kv < l.sinks.length) :
    (l.keys x)[kv]? = l.sinks[kv]? :=
  List.getElem?_append_left h

theorem getElem?_keys_token (x : List V) (p : ℕ) :
    (l.keys x)[l.sinks.length + p]? = (x[p]?).map (l.project p) := by
  rw [keys, List.getElem?_append_right (Nat.le_add_right _ _), Nat.add_sub_cancel_left,
    List.getElem?_mapIdx]

theorem getElem?_run (x : List V) (q : ℕ) :
    (l.run x)[q]? = (x[q]?).map fun v => l.update q v (l.view x q) := by
  rw [run, List.getElem?_mapIdx]

end MaskedLayer

/-- Two sequences of one length with the same tokens on `A`. -/
def AgreeOn (A : ℕ → Prop) (x x' : List V) : Prop :=
  x.length = x'.length ∧ ∀ p, A p → x[p]? = x'[p]?

namespace MaskedLayer

variable {l : MaskedLayer V KV} {A A' : ℕ → Prop} {x x' : List V}

theorem view_agree (h : AgreeOn A x x') {q : ℕ} (hq : ∀ p, l.Sees q p → A p) :
    l.view x q = l.view x' q := by
  apply List.ext_getElem?
  intro kv
  rw [view, view, List.getElem?_mapIdx, List.getElem?_mapIdx]
  by_cases hkv : kv < l.sinks.length
  · rw [l.getElem?_keys_sink x hkv, l.getElem?_keys_sink x' hkv]
  · obtain ⟨p, rfl⟩ := Nat.exists_eq_add_of_le (Nat.le_of_not_lt hkv)
    rw [l.getElem?_keys_token, l.getElem?_keys_token]
    cases hmask : l.mask q (l.sinks.length + p) with
    | true => rw [h.2 p (hq p hmask)]
    | false =>
        -- a masked key leaves the same hole in both views
        by_cases hp : p < x.length
        · rw [List.getElem?_eq_getElem hp, List.getElem?_eq_getElem (h.1 ▸ hp)]
          rfl
        · rw [List.getElem?_eq_none (Nat.le_of_not_lt hp),
            List.getElem?_eq_none (h.1 ▸ Nat.le_of_not_lt hp)]

/-- What one layer keeps equal. -/
theorem run_agree (h : AgreeOn A x x') (hA : ∀ q, A' q → A q ∧ ∀ p, l.Sees q p → A p) :
    AgreeOn A' (l.run x) (l.run x') := by
  refine ⟨by simp [h.1], ?_⟩
  intro q hq
  obtain ⟨hself, hsees⟩ := hA q hq
  rw [getElem?_run, getElem?_run, h.2 q hself, view_agree h hsees]

end MaskedLayer

/-- The layers, in order. -/
def runAll (layers : List (MaskedLayer V KV)) (x : List V) : List V :=
  layers.foldl (fun x l => l.run x) x

@[simp] theorem length_runAll (layers : List (MaskedLayer V KV)) (x : List V) :
    (runAll layers x).length = x.length := by
  induction layers generalizing x with
  | nil => rfl
  | cons l layers ih => exact (ih (l.run x)).trans (l.length_run x)

/-- **Information flow through layers.** `A i` is a set of positions known to
agree before layer `i`; a position of `A (i + 1)` is in `A i` and sees only
positions of `A i` in layer `i`. -/
theorem runAll_agree {layers : List (MaskedLayer V KV)} {A : ℕ → ℕ → Prop}
    (hA : ∀ i l, layers[i]? = some l → ∀ q, A (i + 1) q → A i q ∧ ∀ p, l.Sees q p → A i p)
    {x x' : List V} (h : AgreeOn (A 0) x x') :
    AgreeOn (A layers.length) (runAll layers x) (runAll layers x') := by
  induction layers generalizing A x x' with
  | nil => exact h
  | cons l layers ih =>
      have hfirst := MaskedLayer.run_agree h (hA 0 l rfl)
      have hrest : ∀ i l', layers[i]? = some l' →
          ∀ q, A (i + 1 + 1) q → A (i + 1) q ∧ ∀ p, l'.Sees q p → A (i + 1) p := by
        intro i l' hl'
        exact hA (i + 1) l' hl'
      exact ih (A := fun i => A (i + 1)) hrest hfirst

/-- A set that sees nothing outside itself stays in agreement. -/
theorem runAll_agree_closed {layers : List (MaskedLayer V KV)} {A : ℕ → Prop}
    (hA : ∀ l ∈ layers, ∀ q, A q → ∀ p, l.Sees q p → A p) {x x' : List V} (h : AgreeOn A x x') :
    AgreeOn A (runAll layers x) (runAll layers x') := by
  apply runAll_agree (A := fun _ => A) _ h
  intro i l hl q hq
  exact ⟨hq, hA l (List.mem_of_getElem? hl) q hq⟩

/-! ## Windows over rows -/

/-- Position `p` lies in row `t` or in one of the `h` rows before it. -/
def InWindow (row : ℕ → ℕ) (h t p : ℕ) : Prop := row p ≤ t ∧ t ≤ row p + h

theorem InWindow.mono {row : ℕ → ℕ} {h h' t p : ℕ} (hh : h ≤ h') (hp : InWindow row h t p) :
    InWindow row h' t p :=
  ⟨hp.1, Nat.le_trans hp.2 (Nat.add_le_add_left hh (row p))⟩

/-- A window seen from a window. -/
theorem InWindow.trans {row : ℕ → ℕ} {h h' t q p : ℕ} (hq : InWindow row h' t q)
    (hp : InWindow row h (row q) p) : InWindow row (h + h') t p := by
  refine ⟨Nat.le_trans hp.1 hq.1, ?_⟩
  calc
    t ≤ row q + h' := hq.2
    _ ≤ row p + h + h' := Nat.add_le_add_right hp.2 h'
    _ = row p + (h + h') := Nat.add_assoc _ _ _

/-- **Windows add up.** When the layers look back at most as many rows as
`reach` lists for them, a row of the output depends on the rows within the sum. -/
theorem runAll_window {layers : List (MaskedLayer V KV)} {reach : List ℕ} {row : ℕ → ℕ}
    (hlayers : List.Forall₂ (fun l h => ∀ q p, l.Sees q p → InWindow row h (row q) p) layers reach)
    {t : ℕ} {x x' : List V} (h : AgreeOn (InWindow row reach.sum t) x x') :
    AgreeOn (InWindow row 0 t) (runAll layers x) (runAll layers x') := by
  induction hlayers generalizing x x' with
  | nil => exact h
  | @cons l hist layers reach hl hrest ih =>
      apply ih
      apply MaskedLayer.run_agree h
      intro q hq
      rw [List.sum_cons]
      refine ⟨hq.mono (Nat.le_add_left _ _), ?_⟩
      intro p hsees
      exact hq.trans (hl q p hsees)

/-! ## Sequences made of rows -/

theorem getElem?_flatten_rows {rows : List (List V)} {n : ℕ} (hn : ∀ r ∈ rows, r.length = n)
    {i j : ℕ} (hj : j < n) : rows.flatten[i * n + j]? = (rows[i]?).bind (·[j]?) := by
  induction rows generalizing i with
  | nil => simp
  | cons row rows ih =>
      have hrow : row.length = n := hn row List.mem_cons_self
      rw [List.flatten_cons]
      cases i with
      | zero =>
          rw [Nat.zero_mul, Nat.zero_add, List.getElem?_append_left (hrow.symm ▸ hj)]
          rfl
      | succ i =>
          have hsplit : (i + 1) * n + j = row.length + (i * n + j) := by
            rw [hrow, Nat.succ_mul, Nat.add_comm (i * n) n, Nat.add_assoc]
          rw [hsplit, List.getElem?_append_right (Nat.le_add_right _ _), Nat.add_sub_cancel_left,
            ih fun r hr => hn r (List.mem_cons_of_mem row hr)]
          rfl

/-- A slice depends on the positions it covers. -/
theorem take_drop_congr {x x' : List V} {start n : ℕ}
    (h : ∀ j, j < n → x[start + j]? = x'[start + j]?) :
    (x.drop start).take n = (x'.drop start).take n := by
  apply List.ext_getElem?
  intro j
  rw [List.getElem?_take, List.getElem?_take, List.getElem?_drop, List.getElem?_drop]
  split
  · rename_i hj
    exact h j hj
  · rfl

end P2PRdt.Lib

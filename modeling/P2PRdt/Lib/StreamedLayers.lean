import P2PRdt.Lib.MaskedLayers
import P2PRdt.Lib.SharedService
import P2PRdt.Lib.Strided
import Mathlib.Data.List.ReduceOption
import Mathlib.Tactic.Ring

/-!
# Masked layers, row by row

A sequence of rows of one width can be run through masked layers in one piece,
or one row after the other, where each layer remembers keys of the rows before.
A remembered key stands at another place than in the whole sequence, and other
keys are missing altogether. That is no difference to a layer that looks at the
keys it sees and not at where the holes are, if the mask of the row shows what
the mask of the sequence shows.
-/

namespace P2PRdt.Lib

variable {V KV : Type}

/-! ## The keys that a mask shows -/

/-- The keys behind the mask, with holes; `start` is the place of the first one. -/
def maskKeys (mask : ℕ → Bool) (start : ℕ) (keys : List KV) : List (Option KV) :=
  keys.mapIdx fun i k => if mask (start + i) then some k else none

theorem maskKeys_append (mask : ℕ → Bool) (start : ℕ) (keys keys' : List KV) :
    maskKeys mask start (keys ++ keys') =
      maskKeys mask start keys ++ maskKeys mask (start + keys.length) keys' := by
  rw [maskKeys, List.mapIdx_append]
  congr 2
  funext i k
  rw [Nat.add_assoc, Nat.add_comm i]

theorem maskKeys_congr {mask mask' : ℕ → Bool} {start start' : ℕ} {keys : List KV}
    (h : ∀ i < keys.length, mask (start + i) = mask' (start' + i)) :
    maskKeys mask start keys = maskKeys mask' start' keys := by
  apply List.ext_getElem?
  intro i
  rw [maskKeys, maskKeys, List.getElem?_mapIdx, List.getElem?_mapIdx]
  by_cases hi : i < keys.length
  · rw [h i hi]
  · rw [List.getElem?_eq_none (Nat.le_of_not_lt hi)]
    rfl

/-- Where the mask shows nothing, only holes are left. -/
theorem reduceOption_maskKeys_nil {mask : ℕ → Bool} {start : ℕ} {keys : List KV}
    (h : ∀ i < keys.length, mask (start + i) = false) :
    (maskKeys mask start keys).reduceOption = [] := by
  rw [List.reduceOption_eq_nil_iff]
  refine ⟨keys.length, ?_⟩
  have hholes : maskKeys mask start keys = maskKeys (fun _ => false) start keys :=
    maskKeys_congr h
  rw [hholes, maskKeys, List.eq_replicate_iff]
  refine ⟨List.length_mapIdx, ?_⟩
  intro k hk
  obtain ⟨i, hi, rfl⟩ := List.mem_mapIdx.mp hk
  rfl

namespace MaskedLayer

variable (l : MaskedLayer V KV)

/-- The layer looks at the keys it sees, in order, and not at the holes. -/
def IgnoresHoles : Prop :=
  ∀ pos v view view', view.reduceOption = view'.reduceOption →
    l.update pos v view = l.update pos v view'

variable {l} in
/-- A layer shows what its mask shows at the places of the sequence. -/
theorem run_congr {l' : MaskedLayer V KV} (hsinks : l'.sinks = l.sinks)
    (hproject : l'.project = l.project) (hupdate : l'.update = l.update) {x : List V}
    (hmask : ∀ q < x.length, l'.mask q = l.mask q) : l'.run x = l.run x := by
  apply List.ext_getElem?
  intro q
  rw [getElem?_run, getElem?_run]
  by_cases hq : q < x.length
  · rw [view, view, keys, keys, hsinks, hproject, hupdate, hmask q hq]
  · rw [List.getElem?_eq_none (Nat.le_of_not_lt hq)]
    rfl

/-! ## Rows of one width -/

variable {S : ℕ}

/-- The keys of a row that begins at `start`. -/
def rowKeys (start : ℕ) (x : Fin S → V) : List KV :=
  List.ofFn fun j : Fin S => l.project (start + j) (x j)

@[simp] theorem length_rowKeys (start : ℕ) (x : Fin S → V) :
    (l.rowKeys start x).length = S :=
  List.length_ofFn

theorem getElem?_rows {α : Type} (rows : List (Fin S → α)) (i : ℕ) {j : ℕ} (hj : j < S) :
    (rows.flatMap List.ofFn)[i * S + j]? = (rows[i]?).map fun x => x ⟨j, hj⟩ := by
  rw [getElem?_flatMap_blocks (fun _ _ => List.length_ofFn) hj]
  cases rows[i]? with
  | none => rfl
  | some x =>
      rw [Option.bind_some, List.getElem?_ofFn, dif_pos hj]
      rfl

theorem length_rows {α : Type} (rows : List (Fin S → α)) :
    (rows.flatMap List.ofFn).length = rows.length * S :=
  length_flatMap_blocks fun _ _ => List.length_ofFn

/-- Lists of rows are equal when their entries are. -/
theorem eq_of_rows {α : Type} {xs : List α} {rows : List (Fin S → α)}
    (hlen : xs.length = rows.length * S)
    (h : ∀ i x, rows[i]? = some x → ∀ j : Fin S, xs[i * S + j]? = some (x j)) :
    xs = rows.flatMap List.ofFn := by
  apply List.ext_getElem?
  intro p
  by_cases hp : p < rows.length * S
  · have hS : 0 < S := by
      rw [Nat.pos_iff_ne_zero]
      rintro rfl
      exact Nat.not_lt_zero p hp
    have hi : p / S < rows.length := Nat.div_lt_of_lt_mul (Nat.mul_comm _ S ▸ hp)
    have hj : p % S < S := Nat.mod_lt p hS
    have hp' : p = p / S * S + p % S := by rw [Nat.mul_comm, Nat.div_add_mod]
    have hrow := List.getElem?_eq_getElem hi
    rw [hp', getElem?_rows rows _ hj, hrow, Option.map_some]
    exact h _ _ hrow ⟨p % S, hj⟩
  · rw [List.getElem?_eq_none (hlen ▸ Nat.le_of_not_lt hp),
      List.getElem?_eq_none (length_rows rows ▸ Nat.le_of_not_lt hp)]

/-- All keys of a sequence of rows. -/
theorem keys_rows (rows : List (Fin S → V)) :
    l.keys (rows.flatMap List.ofFn) =
      l.sinks ++ (rows.mapIdx fun i x => l.rowKeys (i * S) x).flatten := by
  rw [keys]
  congr 1
  have hrows : (rows.mapIdx fun i x => l.rowKeys (i * S) x) =
      (rows.mapIdx fun i x (j : Fin S) => l.project (i * S + j) (x j)).map List.ofFn := by
    apply List.ext_getElem?
    intro i
    rw [List.getElem?_map, List.getElem?_mapIdx, List.getElem?_mapIdx, Option.map_map]
    rfl
  rw [hrows, ← List.flatMap_def]
  apply eq_of_rows
  · rw [List.length_mapIdx, List.length_mapIdx, length_rows]
  · intro i y hy j
    rw [List.getElem?_mapIdx] at hy
    obtain ⟨x, hx, rfl⟩ := Option.map_eq_some_iff.mp hy
    rw [List.getElem?_mapIdx, getElem?_rows rows i j.isLt, hx]
    rfl

/-- A run of a layer, given by its rows. -/
theorem run_rows {rows out : List (Fin S → V)} (hlen : out.length = rows.length)
    (h : ∀ i x y, rows[i]? = some x → out[i]? = some y → ∀ j : Fin S,
      y j = l.update (i * S + j) (x j) (l.view (rows.flatMap List.ofFn) (i * S + j))) :
    out.flatMap List.ofFn = l.run (rows.flatMap List.ofFn) := by
  symm
  apply eq_of_rows
  · rw [length_run, length_rows, hlen]
  · intro i y hy j
    obtain ⟨hi, -⟩ := List.getElem?_eq_some_iff.mp hy
    have hx := List.getElem?_eq_getElem (hlen ▸ hi)
    rw [getElem?_run, getElem?_rows rows i j.isLt, hx, h i _ y hx hy j]
    rfl

/-- What a position sees lies in the rows from `a` to `b`, and a mask of these rows
alone shows it. -/
theorem view_rows {rows : List (Fin S → V)} {q a b : ℕ} (hab : a ≤ b) (hb : b ≤ rows.length)
    (hbefore : ∀ p < a * S, l.mask q (l.sinks.length + p) = false)
    (hafter : ∀ p, b * S ≤ p → l.mask q (l.sinks.length + p) = false) {mask : ℕ → Bool}
    (hsinks : ∀ kv < l.sinks.length, mask kv = l.mask q kv)
    (hrows : ∀ p < (b - a) * S,
      mask (l.sinks.length + p) = l.mask q (l.sinks.length + (a * S + p))) :
    (l.view (rows.flatMap List.ofFn) q).reduceOption =
      (maskKeys mask 0 (l.sinks ++
        (((rows.mapIdx fun i x => l.rowKeys (i * S) x).take b).drop a).flatten)).reduceOption := by
  have hview : l.view (rows.flatMap List.ofFn) q =
      maskKeys (l.mask q) 0 (l.keys (rows.flatMap List.ofFn)) := by
    rw [view, maskKeys]
    simp only [Nat.zero_add]
  have hlength : ∀ part : List (List KV), (∀ r ∈ part, r.length = S) →
      part.flatten.length = part.length * S := by
    intro part hpart
    rw [← List.flatMap_id', length_flatMap_blocks hpart]
  generalize hkeys : (rows.mapIdx fun i x => l.rowKeys (i * S) x) = keyRows
  have hkeyRows : keyRows.length = rows.length := by rw [← hkeys, List.length_mapIdx]
  have hwidth : ∀ r ∈ keyRows, r.length = S := by
    intro r hr
    rw [← hkeys] at hr
    obtain ⟨i, hi, rfl⟩ := List.mem_mapIdx.mp hr
    exact l.length_rowKeys _ _
  -- the rows before `a`, the rows from `a` to `b`, and the rows after them
  have hsplit : keyRows.flatten = (keyRows.take a).flatten ++
      (((keyRows.take b).drop a).flatten ++ (keyRows.drop b).flatten) := by
    rw [← List.append_assoc, ← List.flatten_append, ← List.flatten_append]
    congr 1
    have hfront : (keyRows.take b).take a = keyRows.take a := by
      rw [List.take_take, Nat.min_eq_left hab]
    rw [← hfront, List.take_append_drop, List.take_append_drop]
  have hlenA : (keyRows.take a).flatten.length = a * S := by
    rw [hlength _ fun r hr => hwidth r (List.mem_of_mem_take hr), List.length_take, hkeyRows,
      Nat.min_eq_left (hab.trans hb)]
  have hlenB : ((keyRows.take b).drop a).flatten.length = (b - a) * S := by
    rw [hlength _ fun r hr => hwidth r (List.mem_of_mem_take (List.mem_of_mem_drop hr)),
      List.length_drop, List.length_take, hkeyRows, Nat.min_eq_left hb]
  have hnoneBefore : (maskKeys (l.mask q) l.sinks.length
      (keyRows.take a).flatten).reduceOption = [] := by
    apply reduceOption_maskKeys_nil
    intro i hi
    exact hbefore i (hlenA ▸ hi)
  have hnoneAfter : (maskKeys (l.mask q) (l.sinks.length + a * S + (b - a) * S)
      (keyRows.drop b).flatten).reduceOption = [] := by
    apply reduceOption_maskKeys_nil
    intro i _
    rw [Nat.add_assoc, Nat.add_assoc]
    apply hafter
    rw [← Nat.add_assoc, ← Nat.add_mul, Nat.add_sub_cancel' hab]
    exact Nat.le_add_right _ _
  have hsame : maskKeys (l.mask q) 0 l.sinks = maskKeys mask 0 l.sinks := by
    apply maskKeys_congr
    intro i hi
    rw [Nat.zero_add]
    exact (hsinks i hi).symm
  have hwindow : maskKeys (l.mask q) (l.sinks.length + a * S)
      ((keyRows.take b).drop a).flatten =
      maskKeys mask l.sinks.length ((keyRows.take b).drop a).flatten := by
    apply maskKeys_congr
    intro i hi
    rw [hrows i (hlenB ▸ hi), Nat.add_assoc]
  rw [hview, keys_rows, hkeys, hsplit]
  simp only [maskKeys_append, List.reduceOption_append, hlenA, hlenB, Nat.zero_add, hnoneBefore,
    hnoneAfter, hsame, hwindow, List.nil_append, List.append_nil]

end MaskedLayer

end P2PRdt.Lib

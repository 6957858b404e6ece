import P2PRdt.Lib.FixedDigits
import P2PRdt.Lib.Grid
import Mathlib.Algebra.Order.BigOperators.Group.Finset

/-!
# Actions as one number

`ActionDimensionConverter` reads the choices in `D` action dimensions as the
digits of one number. The digits and the number determine each other as long as
no power overflows. The axes do not always survive: with one dimension `forward`
keeps the last axis that `inverse` then adds again, and `inverse` takes a batch
of one for a scalar.
-/

namespace P2PRdt.Policy

open Lib

inductive ConverterError where
  | assertionError (message : String)
  | runtimeError
  | zeroDivisionError
deriving DecidableEq, Repr

/-- What `torch.long` keeps of a result. -/
def toLong (z : ℤ) : ℤ := z.bmod (2 ^ 64)

structure ActionDimensionConverter where
  numActionsPerDim : List ℤ
  powers : List ℤ

namespace ActionDimensionConverter

/-- `ActionDimensionConverter.__init__`. -/
def init (numActionsPerDim : List ℤ) : Except ConverterError ActionDimensionConverter :=
  -- there is no maximum of an empty tensor
  if numActionsPerDim = [] then .error .runtimeError
  else if numActionsPerDim.max? = numActionsPerDim.min? then
    let numActions := numActionsPerDim.headD 0
    let dims := List.range numActionsPerDim.length
    .ok ⟨numActionsPerDim,
      if 1 < numActionsPerDim.length then dims.reverse.map fun i => toLong (numActions ^ i)
      else []⟩
  else
    .error (.assertionError ("Support only for same number of actions per dimension " ++
      "when calculating true action RCE"))

/-- `ActionDimensionConverter.forward`. -/
def forward (c : ActionDimensionConverter) (actionPerDim : Grid ℤ) :
    Except ConverterError (Grid ℤ) :=
  if c.numActionsPerDim.length = 1 then .ok actionPerDim
  else
    match actionPerDim.zipWith (fun a p => toLong (a * p)) (Grid.ofList 0 c.powers) with
    | some trueAction => .ok (trueAction.sumLast.map toLong)
    | none => .error .runtimeError

/-- `out[:, i] = column`. -/
def setColumn (out : Grid ℤ) (i : ℕ) (column : Grid ℤ) : Except ConverterError (Grid ℤ) :=
  match out.shape, column.shape with
  | [b, _], [m] =>
      if m = b ∨ m = 1 then
        .ok { out with entry := fun idx =>
          match idx with
          | [r, j] => if j = i then column.entry [if m = 1 then 0 else r] else out.entry [r, j]
          | idx => out.entry idx }
      else .error .runtimeError
  | _, _ => .error .runtimeError

/-- `(true_action // num_actions ** exponent) % num_actions`. -/
def digitColumn (numActions : ℤ) (exponent : ℕ) (trueAction : Grid ℤ) :
    Except ConverterError (Grid ℤ) :=
  let power := toLong (numActions ^ exponent)
  if trueAction.shape.prod ≠ 0 ∧ (power = 0 ∨ numActions = 0) then .error .zeroDivisionError
  else .ok (trueAction.map fun k => (toLong (k.fdiv power)).fmod numActions)

/-- The loop over the dimensions in `inverse`. -/
def digitColumns (numActions : ℤ) (d : ℕ) (trueAction : Grid ℤ) (out : Grid ℤ) (dims : List ℕ) :
    Except ConverterError (Grid ℤ) :=
  dims.foldlM (fun out i => do
    let column ← digitColumn numActions (d - 1 - i) trueAction
    setColumn out i column) out

/-- `ActionDimensionConverter.inverse`. -/
def inverse (c : ActionDimensionConverter) (trueAction : Grid ℤ) :
    Except ConverterError (Grid ℤ) :=
  let d := c.numActionsPerDim.length
  if d = 1 then
    .ok (if 0 < trueAction.shape.length then trueAction.unsqueezeLast
      else trueAction.unsqueezeFirst)
  else do
    let batchSize := trueAction.shape.headD 1
    let actionPerDim ← digitColumns (c.numActionsPerDim.headD 0) d trueAction.flatten
      (Grid.full [batchSize, d] 0) (List.range d)
    return if batchSize = 1 then actionPerDim.squeezeFirst else actionPerDim

end ActionDimensionConverter

open ActionDimensionConverter

/-! ## Without overflow -/

theorem toLong_of_lt {z : ℤ} (h0 : 0 ≤ z) (hz : z < 2 ^ 63) : toLong z = z := by
  apply Int.bmod_eq_of_le
  · exact le_trans (by decide) h0
  · exact lt_of_lt_of_le hz (by decide)

section Powers

variable {n D : ℕ} (hn : 1 ≤ n) (hrange : n ^ D ≤ 2 ^ 63)

include hn hrange in
theorem toLong_pow {i : ℕ} (hi : i < D) : toLong ((n : ℤ) ^ i) = (n : ℤ) ^ i := by
  have hlt : n ^ i < 2 ^ 63 := by
    rcases Nat.eq_or_lt_of_le hn with hone | htwo
    · rw [← hone, Nat.one_pow]
      exact Nat.one_lt_two_pow (by decide)
    · exact Nat.lt_of_lt_of_le (Nat.pow_lt_pow_right htwo hi) hrange
  apply toLong_of_lt
  · exact_mod_cast Nat.zero_le (n ^ i)
  · exact_mod_cast hlt

include hrange in
theorem toLong_below {v : ℕ} (hv : v < n ^ D) : toLong (v : ℤ) = v :=
  toLong_of_lt (Int.natCast_nonneg v) (by exact_mod_cast Nat.lt_of_lt_of_le hv hrange)

/-- The converter of `D` dimensions with `n` choices each. -/
def converterOf (n D : ℕ) : ActionDimensionConverter where
  numActionsPerDim := List.replicate D n
  powers := if 1 < D then (List.range D).reverse.map fun i => (n : ℤ) ^ i else []

include hn hrange in
theorem init_replicate (hD : 1 ≤ D) : init (List.replicate D (n : ℤ)) = .ok (converterOf n D) := by
  have hne : List.replicate D (n : ℤ) ≠ [] := by
    rw [Ne, List.replicate_eq_nil_iff]
    exact Nat.one_le_iff_ne_zero.mp hD
  have hhead : (List.replicate D (n : ℤ)).headD 0 = n := by
    obtain ⟨D, rfl⟩ := Nat.exists_eq_add_of_le' hD
    rfl
  have hpowers : ((List.range D).reverse.map fun i => toLong ((n : ℤ) ^ i)) =
      (List.range D).reverse.map fun i => (n : ℤ) ^ i := by
    apply List.map_congr_left
    intro i hi
    exact toLong_pow hn hrange (List.mem_range.mp (List.mem_reverse.mp hi))
  rw [init, if_neg hne, List.max?_replicate_of_pos hD, List.min?_replicate_of_pos hD, if_pos rfl]
  simp only [hhead, List.length_replicate, hpowers]
  rfl

end Powers

section Spec

variable {n D B : ℕ} (hn : 1 ≤ n) (hrange : n ^ D ≤ 2 ^ 63) (hD : 1 < D)

include hrange hD in
/-- The sum over a row of digits is the number they are the numeral of. -/
theorem forward_spec {x : Grid ℤ} (hx : x.shape = [B, D]) :
    ∃ y, (converterOf n D).forward x = .ok y ∧ y.shape = [B] ∧
      ∀ b < B, ∀ digits : Fin D → Fin n, (∀ i : Fin D, x.entry [b, i] = digits i) →
        y.entry [b] = (digitsEquiv n D digits : ℕ) := by
  have hpowers : (converterOf n D).powers = (List.range D).reverse.map fun i => (n : ℤ) ^ i :=
    if_pos hD
  have hlength : (converterOf n D).powers.length = D := by
    rw [hpowers, List.length_map, List.length_reverse, List.length_range]
  have hpower : ∀ i < D, (converterOf n D).powers.getD i 0 = (n : ℤ) ^ (D - 1 - i) := by
    intro i hi
    rw [hpowers, List.getD_eq_getElem?_getD, List.getElem?_map, List.getElem?_reverse (by simpa),
      List.length_range, List.getElem?_range (by omega)]
    rfl
  have hdims : (converterOf n D).numActionsPerDim.length ≠ 1 := by
    rw [show (converterOf n D).numActionsPerDim = List.replicate D (n : ℤ) from rfl,
      List.length_replicate]
    exact Nat.ne_of_gt hD
  obtain ⟨z, hz, hshape, hentry⟩ := Grid.zipWith_repeat (fun a p => toLong (a * p))
    (x := x) (y := Grid.ofList 0 (converterOf n D).powers) [B] [D] (k := 0) (Nat.zero_le _) hx
    (congrArg (fun d => [d]) hlength)
  have haxes : z.shape = [B] ++ [D] := hshape.trans hx
  refine ⟨z.sumLast.map toLong, ?_, ?_, ?_⟩
  · rw [forward, if_neg hdims, hz]
  · rw [Grid.shape_map, Grid.sumLast_of_shape haxes]
  · intro b hb digits hdigits
    have hvalue := digitsEquiv_val digits
    have hterm : ∀ i : Fin D, z.entry ([b] ++ [(i : ℕ)]) =
        ((digits i * n ^ (D - 1 - i) : ℕ) : ℤ) := by
      intro i
      have hle : (digits i : ℕ) * n ^ (D - 1 - i) ≤ digitsEquiv n D digits := by
        rw [hvalue]
        exact Finset.single_le_sum
          (f := fun i : Fin D => (digits i : ℕ) * n ^ (D - 1 - i))
          (fun i _ => Nat.zero_le _) (Finset.mem_univ i)
      rw [hentry [b] [(i : ℕ)] (by simpa using hb) (by simp)]
      show toLong (x.entry [b, (i : ℕ)] * (converterOf n D).powers.getD i 0) = _
      rw [hdigits i, hpower i i.isLt]
      exact_mod_cast toLong_below hrange
        (Nat.lt_of_le_of_lt hle (digitsEquiv n D digits).isLt)
    have hsum : ∑ i ∈ Finset.range D, z.entry ([b] ++ [i]) = (digitsEquiv n D digits : ℕ) := by
      rw [Finset.sum_range, hvalue, Nat.cast_sum]
      exact Finset.sum_congr rfl fun i _ => hterm i
    rw [Grid.entry_map, Grid.sumLast_of_shape haxes]
    show toLong (∑ i ∈ Finset.range D, z.entry ([b] ++ [i])) = _
    rw [hsum]
    exact toLong_below hrange (digitsEquiv n D digits).isLt

/-! ## The digits of a number -/

theorem setColumn_spec {out column : Grid ℤ} {i : ℕ} (hout : out.shape = [B, D])
    (hcolumn : column.shape = [B]) :
    ∃ out', setColumn out i column = .ok out' ∧ out'.shape = [B, D] ∧
      (∀ b < B, out'.entry [b, i] = column.entry [b]) ∧
      ∀ b j, j ≠ i → out'.entry [b, j] = out.entry [b, j] := by
  rw [setColumn, hout, hcolumn]
  refine ⟨_, if_pos (Or.inl rfl), rfl, ?_, ?_⟩
  · intro b hb
    have hrow : (if B = 1 then 0 else b) = b := by
      by_cases hB : B = 1
      · subst hB
        rw [if_pos rfl, Nat.lt_one_iff.mp hb]
      · exact if_neg hB
    show (if i = i then column.entry [if B = 1 then 0 else b] else _) = _
    rw [if_pos rfl, hrow]
  · intro b j hj
    exact if_neg hj

include hn hrange in
theorem digitColumn_spec {k : Grid ℤ} (hk : k.shape = [B]) {e : ℕ} (he : e < D) :
    ∃ column, digitColumn n e k = .ok column ∧ column.shape = [B] ∧
      ∀ b v, v < n ^ D → k.entry [b] = (v : ℕ) → column.entry [b] = (v / n ^ e % n : ℕ) := by
  have hpos : (0 : ℤ) < n := by exact_mod_cast hn
  have hpower : toLong ((n : ℤ) ^ e) ≠ 0 := by
    rw [toLong_pow hn hrange he]
    exact (Int.pow_pos hpos).ne'
  have hdivisor : ¬(k.shape.prod ≠ 0 ∧ (toLong ((n : ℤ) ^ e) = 0 ∨ (n : ℤ) = 0)) := by
    rintro ⟨-, hzero | hzero⟩
    · exact hpower hzero
    · exact hpos.ne' hzero
  refine ⟨_, if_neg hdivisor, hk, ?_⟩
  intro b v hv hkb
  have hquot : v / n ^ e < n ^ D := Nat.lt_of_le_of_lt (Nat.div_le_self _ _) hv
  rw [Grid.entry_map, hkb, toLong_pow hn hrange he, 
    Int.fdiv_eq_ediv_of_nonneg _ (Int.pow_pos hpos).le, Int.fmod_eq_emod_of_nonneg _ hpos.le]
  have hcast : ((v : ℕ) : ℤ) / (n : ℤ) ^ e = ((v / n ^ e : ℕ) : ℤ) := by
    rw [Int.natCast_div, Int.natCast_pow]
  rw [hcast, toLong_below hrange hquot, Int.natCast_mod]

theorem digitColumns_succ (numActions : ℤ) (d : ℕ) (k out : Grid ℤ) (m : ℕ) :
    digitColumns numActions d k out (List.range (m + 1)) = (do
      let out ← digitColumns numActions d k out (List.range m)
      let column ← digitColumn numActions (d - 1 - m) k
      setColumn out m column) := by
  rw [digitColumns, digitColumns, List.range_succ, List.foldlM_append]
  simp only [List.foldlM_cons, List.foldlM_nil, bind_pure]

include hn hrange in
/-- After `m` columns the first `m` digits of every number stand in its row. -/
theorem digitColumns_spec {k : Grid ℤ} (out : Grid ℤ) (hk : k.shape = [B])
    (hout : out.shape = [B, D]) {m : ℕ} (hm : m ≤ D) :
    ∃ out', digitColumns n D k out (List.range m) = .ok out' ∧ out'.shape = [B, D] ∧
      ∀ b < B, ∀ v : Fin (n ^ D), k.entry [b] = (v : ℕ) → ∀ i : Fin D, (i : ℕ) < m →
        out'.entry [b, i] = ((digitsEquiv n D).symm v i : ℕ) := by
  induction m with
  | zero => exact ⟨out, rfl, hout, fun _ _ _ _ i hi => absurd hi (Nat.not_lt_zero i)⟩
  | succ m ih =>
      obtain ⟨rows, hrows, hshape, hdigits⟩ := ih (Nat.le_of_succ_le hm)
      obtain ⟨column, hcolumn, hlength, hentry⟩ :=
        digitColumn_spec hn hrange hk (show D - 1 - m < D by omega)
      obtain ⟨out', hset, hshape', hnew, hold⟩ := setColumn_spec (i := m) hshape hlength
      refine ⟨out', ?_, hshape', ?_⟩
      · rw [digitColumns_succ, hrows]
        show (digitColumn n (D - 1 - m) k >>= setColumn rows m) = .ok out'
        rw [hcolumn]
        exact hset
      · intro b hb v hv i hi
        rcases Nat.lt_succ_iff_lt_or_eq.mp hi with hlt | heq
        · rw [hold b i (Nat.ne_of_lt hlt), hdigits b hb v hv i hlt]
        · rw [heq, hnew b hb, hentry b v v.isLt hv, digitsEquiv_symm_val, heq]

include hn hrange hD in
/-- The rows of the result are the numerals of the numbers, before the squeeze. -/
theorem inverse_spec {k : Grid ℤ} (hk : k.shape = [B]) :
    ∃ z, (converterOf n D).inverse k = .ok (if B = 1 then z.squeezeFirst else z) ∧
      z.shape = [B, D] ∧
      ∀ b < B, ∀ v : Fin (n ^ D), k.entry [b] = (v : ℕ) → ∀ i : Fin D,
        z.entry [b, i] = ((digitsEquiv n D).symm v i : ℕ) := by
  have hflat := Grid.flatten_of_shape hk
  obtain ⟨z, hz, hshape, hdigits⟩ := digitColumns_spec hn hrange (k := k.flatten)
    (Grid.full [B, D] 0) (hflat.shape_eq.trans hk) rfl (Nat.le_refl D)
  have hdims : (converterOf n D).numActionsPerDim.length = D := List.length_replicate
  have hhead : (converterOf n D).numActionsPerDim.headD 0 = n := by
    obtain ⟨D, rfl⟩ := Nat.exists_eq_add_of_le' hD
    rfl
  refine ⟨z, ?_, hshape, ?_⟩
  · rw [inverse, hdims, if_neg (Nat.ne_of_gt hD), hhead, hk]
    simp only [List.headD_cons, hz]
    rfl
  · intro b hb v hv i
    apply hdigits b hb v _ i i.isLt
    rw [hflat.entry_eq [b] (by rw [hflat.shape_eq, hk]; simpa using hb), hv]

end Spec

/-! ## There and back -/

/-- A batch of digit vectors. -/
structure IsDigits (n D B : ℕ) (x : Grid ℤ) : Prop where
  shape_eq : x.shape = [B, D]
  below : ∀ idx, InBounds x.shape idx → 0 ≤ x.entry idx ∧ x.entry idx < n

/-- A batch of numbers. -/
structure IsValues (n D B : ℕ) (k : Grid ℤ) : Prop where
  shape_eq : k.shape = [B]
  below : ∀ idx, InBounds k.shape idx → 0 ≤ k.entry idx ∧ k.entry idx < n ^ D

/-- The number is in range, and its digits are the same in the same shape. -/
def DigitsSurvive (c : ActionDimensionConverter) (n D : ℕ) (x : Grid ℤ) : Prop :=
  ∃ k z, c.forward x = .ok k ∧
    (∀ idx, InBounds k.shape idx → 0 ≤ k.entry idx ∧ k.entry idx < n ^ D) ∧
    c.inverse k = .ok z ∧ z.Same x

/-- The digits are a batch, and their number is the same in the same shape. -/
def ValuesSurvive (c : ActionDimensionConverter) (n D B : ℕ) (k : Grid ℤ) : Prop :=
  ∃ z k', c.inverse k = .ok z ∧ IsDigits n D B z ∧ c.forward z = .ok k' ∧ k'.Same k

variable {n D B : ℕ}

theorem IsDigits.row {x : Grid ℤ} (hx : IsDigits n D B x) {b : ℕ} (hb : b < B) :
    ∃ digits : Fin D → Fin n, ∀ i : Fin D, x.entry [b, i] = digits i := by
  have hdigit : ∀ i : Fin D, ∃ d : Fin n, x.entry [b, i] = d := by
    intro i
    obtain ⟨h0, hlt⟩ := hx.below [b, i] (by rw [hx.shape_eq]; simpa using hb)
    obtain ⟨d, hd⟩ := Int.eq_ofNat_of_zero_le h0
    exact ⟨⟨d, by rw [hd] at hlt; exact_mod_cast hlt⟩, hd⟩
  choose digits hdigits using hdigit
  exact ⟨digits, hdigits⟩

theorem IsValues.number {k : Grid ℤ} (hk : IsValues n D B k) {b : ℕ} (hb : b < B) :
    ∃ v : Fin (n ^ D), k.entry [b] = (v : ℕ) := by
  obtain ⟨h0, hlt⟩ := hk.below [b] (by rw [hk.shape_eq]; simpa using hb)
  obtain ⟨v, hv⟩ := Int.eq_ofNat_of_zero_le h0
  exact ⟨⟨v, by rw [hv] at hlt; exact_mod_cast hlt⟩, hv⟩

section Batches

variable (hn : 1 ≤ n) (hrange : n ^ D ≤ 2 ^ 63) (hD : 1 < D) (hB : 1 < B)

include hn hrange hD hB

theorem digits_survive {x : Grid ℤ} (hx : IsDigits n D B x) :
    DigitsSurvive (converterOf n D) n D x := by
  obtain ⟨k, hk, hshape, hvalue⟩ := forward_spec hrange hD hx.shape_eq
  obtain ⟨z, hz, hzshape, hdigit⟩ := inverse_spec hn hrange hD hshape
  rw [if_neg (Nat.ne_of_gt hB)] at hz
  refine ⟨k, z, hk, ?_, hz, hzshape.trans hx.shape_eq.symm, ?_⟩
  · intro idx hidx
    rw [hshape] at hidx
    obtain ⟨b, hb, rfl⟩ := inBounds_one.mp hidx
    obtain ⟨digits, hdigits⟩ := hx.row hb
    rw [hvalue b hb digits hdigits]
    exact ⟨Int.natCast_nonneg _, by exact_mod_cast (digitsEquiv n D digits).isLt⟩
  · intro idx hidx
    rw [hzshape] at hidx
    obtain ⟨b, i, hb, hi, rfl⟩ := inBounds_two.mp hidx
    obtain ⟨digits, hdigits⟩ := hx.row hb
    have hback := hdigit b hb _ (hvalue b hb digits hdigits) ⟨i, hi⟩
    rw [Equiv.symm_apply_apply, ← hdigits ⟨i, hi⟩] at hback
    exact hback

theorem values_survive {k : Grid ℤ} (hk : IsValues n D B k) :
    ValuesSurvive (converterOf n D) n D B k := by
  obtain ⟨z, hz, hzshape, hdigit⟩ := inverse_spec hn hrange hD hk.shape_eq
  obtain ⟨k', hk', hshape, hvalue⟩ := forward_spec hrange hD hzshape
  rw [if_neg (Nat.ne_of_gt hB)] at hz
  refine ⟨z, k', hz, ⟨hzshape, ?_⟩, hk', hshape.trans hk.shape_eq.symm, ?_⟩
  · intro idx hidx
    rw [hzshape] at hidx
    obtain ⟨b, i, hb, hi, rfl⟩ := inBounds_two.mp hidx
    obtain ⟨v, hv⟩ := hk.number hb
    rw [hdigit b hb v hv ⟨i, hi⟩]
    exact ⟨Int.natCast_nonneg _, by exact_mod_cast ((digitsEquiv n D).symm v ⟨i, hi⟩).isLt⟩
  · intro idx hidx
    rw [hshape] at hidx
    obtain ⟨b, hb, rfl⟩ := inBounds_one.mp hidx
    obtain ⟨v, hv⟩ := hk.number hb
    rw [hvalue b hb _ (hdigit b hb v hv), Equiv.apply_symm_apply, hv]

end Batches

/-! ## The shapes that are lost -/

section OneDimension

theorem forward_one_dim (x : Grid ℤ) : (converterOf n 1).forward x = .ok x := rfl

theorem inverse_one_dim {k : Grid ℤ} (hk : k.shape ≠ []) :
    (converterOf n 1).inverse k = .ok k.unsqueezeLast :=
  congrArg Except.ok (if_pos (List.length_pos_iff.mpr hk))

/-- With one dimension every axis is kept on the way and one is added on the way back. -/
theorem not_digitsSurvive_one_dim {x : Grid ℤ} (hx : x.shape = [B, 1]) :
    ¬DigitsSurvive (converterOf n 1) n 1 x := by
  rintro ⟨k, z, hk, -, hz, hsame⟩
  rw [forward_one_dim] at hk
  obtain rfl := Except.ok.inj hk
  rw [inverse_one_dim (hx ▸ List.cons_ne_nil _ _)] at hz
  obtain rfl := Except.ok.inj hz
  have hlength := congrArg List.length hsame.shape_eq
  rw [Grid.unsqueezeLast, List.length_append] at hlength
  exact Nat.succ_ne_self _ hlength

theorem not_valuesSurvive_one_dim {k : Grid ℤ} (hk : k.shape = [B]) :
    ¬ValuesSurvive (converterOf n 1) n 1 B k := by
  rintro ⟨z, k', hz, -, hk', hsame⟩
  rw [inverse_one_dim (hk ▸ List.cons_ne_nil _ _)] at hz
  obtain rfl := Except.ok.inj hz
  rw [forward_one_dim] at hk'
  obtain rfl := Except.ok.inj hk'
  have hlength := congrArg List.length hsame.shape_eq
  rw [Grid.unsqueezeLast, List.length_append] at hlength
  exact Nat.succ_ne_self _ hlength

end OneDimension

section OneRow

variable (hn : 1 ≤ n) (hrange : n ^ D ≤ 2 ^ 63) (hD : 1 < D)

include hn hrange hD

/-- A batch of one comes back as one vector. -/
theorem inverse_one_row {k : Grid ℤ} (hk : k.shape = [1]) :
    ∃ z, (converterOf n D).inverse k = .ok z ∧ z.shape = [D] ∧
      ∀ v : Fin (n ^ D), k.entry [0] = (v : ℕ) → ∀ i : Fin D,
        z.entry [(i : ℕ)] = ((digitsEquiv n D).symm v i : ℕ) := by
  obtain ⟨z, hz, hshape, hdigit⟩ := inverse_spec hn hrange hD hk
  rw [if_pos rfl, Grid.squeezeFirst_of_shape hshape] at hz
  exact ⟨_, hz, rfl, hdigit 0 Nat.one_pos⟩

theorem not_digitsSurvive_one_row {x : Grid ℤ} (hx : x.shape = [1, D]) :
    ¬DigitsSurvive (converterOf n D) n D x := by
  rintro ⟨k, z, hk, -, hz, hsame⟩
  obtain ⟨k', hk', hshape, -⟩ := forward_spec hrange hD hx
  obtain rfl := Except.ok.inj (hk.symm.trans hk')
  obtain ⟨z', hz', hzshape, -⟩ := inverse_one_row hn hrange hD hshape
  obtain rfl := Except.ok.inj (hz.symm.trans hz')
  have hlength := congrArg List.length (hsame.shape_eq.symm.trans hzshape)
  rw [hx] at hlength
  exact Nat.succ_ne_self _ hlength

theorem not_valuesSurvive_one_row {k : Grid ℤ} (hk : k.shape = [1]) :
    ¬ValuesSurvive (converterOf n D) n D 1 k := by
  rintro ⟨z, -, hz, hdigits, -⟩
  obtain ⟨z', hz', hzshape, -⟩ := inverse_one_row hn hrange hD hk
  obtain rfl := Except.ok.inj (hz.symm.trans hz')
  have hlength := congrArg List.length (hdigits.shape_eq.symm.trans hzshape)
  exact Nat.succ_ne_self _ hlength

end OneRow

/-- The conversion is a bijection on batches of digit vectors just when there are
at least two dimensions and at least two rows. -/
theorem actionDimensionConverter_bijective_iff (hn : 1 ≤ n) (hD : 1 ≤ D) (hB : 1 ≤ B)
    (hrange : n ^ D ≤ 2 ^ 63) :
    ∃ c, init (List.replicate D (n : ℤ)) = .ok c ∧
      (∀ x, IsDigits n D B x → (DigitsSurvive c n D x ↔ 2 ≤ D ∧ 2 ≤ B)) ∧
      ∀ k, IsValues n D B k → (ValuesSurvive c n D B k ↔ 2 ≤ D ∧ 2 ≤ B) := by
  refine ⟨converterOf n D, init_replicate hn hrange hD, ?_, ?_⟩
  · intro x hx
    constructor
    · intro hsurvive
      by_contra hnot
      rcases Nat.eq_or_lt_of_le hD with rfl | hD2
      · exact not_digitsSurvive_one_dim hx.shape_eq hsurvive
      · obtain rfl : B = 1 := by omega
        exact not_digitsSurvive_one_row hn hrange hD2 hx.shape_eq hsurvive
    · rintro ⟨hD2, hB2⟩
      exact digits_survive hn hrange hD2 hB2 hx
  · intro k hk
    constructor
    · intro hsurvive
      by_contra hnot
      rcases Nat.eq_or_lt_of_le hD with rfl | hD2
      · exact not_valuesSurvive_one_dim hk.shape_eq hsurvive
      · obtain rfl : B = 1 := by omega
        exact not_valuesSurvive_one_row hn hrange hD2 hk.shape_eq hsurvive
    · rintro ⟨hD2, hB2⟩
      exact values_survive hn hrange hD2 hB2 hk

/-- Two rows of three choices among three, `[0, 1, 2]` and `[1, 2, 0]`. -/
theorem actionDimensionConverter_two_rows :
    ∃ c, init (List.replicate 3 ((3 : ℕ) : ℤ)) = .ok c ∧
      DigitsSurvive c 3 3 ⟨[2, 3], fun idx => ((idx.sum % 3 : ℕ) : ℤ)⟩ := by
  obtain ⟨c, hc, hdigits, -⟩ := actionDimensionConverter_bijective_iff (n := 3) (D := 3) (B := 2)
    (by decide) (by decide) (by decide) (by decide)
  refine ⟨c, hc, (hdigits _ ⟨rfl, ?_⟩).mpr (by decide)⟩
  intro idx _
  have hlt : ((idx.sum % 3 : ℕ) : ℤ) < (3 : ℕ) :=
    Int.ofNat_lt.mpr (Nat.mod_lt idx.sum (by decide))
  exact ⟨Int.natCast_nonneg _, hlt⟩

/-- One row `[1, 2, 0]` comes back without its batch axis, and two numbers of one
dimension come back with one axis more. -/
theorem actionDimensionConverter_shape_lost :
    (∃ c, init [3, 3, 3] = .ok c ∧ IsDigits 3 3 1 (Grid.ofList 0 [1, 2, 0]).unsqueezeFirst ∧
      ¬DigitsSurvive c 3 3 (Grid.ofList 0 [1, 2, 0]).unsqueezeFirst) ∧
    ∃ c, init [5] = .ok c ∧ IsValues 5 1 2 (Grid.ofList 0 [3, 4]) ∧
      ¬ValuesSurvive c 5 1 2 (Grid.ofList 0 [3, 4]) := by
  constructor
  · refine ⟨converterOf 3 3, init_replicate (n := 3) (D := 3) (by decide) (by decide) (by decide),
      ⟨rfl, ?_⟩, not_digitsSurvive_one_row (by decide) (by decide) (by decide) rfl⟩
    intro idx hidx
    obtain ⟨b, i, hb, hi, rfl⟩ := inBounds_two.mp hidx
    obtain rfl := Nat.lt_one_iff.mp hb
    revert i
    decide
  · refine ⟨converterOf 5 1, init_replicate (n := 5) (D := 1) (by decide) (by decide) (by decide),
      ⟨rfl, ?_⟩, not_valuesSurvive_one_dim rfl⟩
    intro idx hidx
    obtain ⟨b, hb, rfl⟩ := inBounds_one.mp hidx
    revert b
    decide

end P2PRdt.Policy

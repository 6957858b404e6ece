import Mathlib.Algebra.BigOperators.Group.List.Basic
import Mathlib.Algebra.Ring.Int.Defs
import Mathlib.Algebra.Ring.Nat
import Mathlib.Data.Fintype.Card
import Mathlib.Data.List.FinRange
import Mathlib.Data.List.Induction
import Mathlib.Order.Basic

/-!
# Grouping by a key

A list that is sorted by a key is the concatenation of its groups, so cutting it
at the sizes of the groups gives the groups. The keys can be found back from the
sizes alone: one is added where each group starts, also where several empty
groups start at the same place, and the running sum counts the groups that have
started.
-/

namespace P2PRdt.Lib

/-! ## Groups of a sorted list -/

section Sorted

variable {α : Type} {key : α → ℕ}

theorem filter_lt_succ {l : List α} (hl : l.Pairwise fun a b => key a ≤ key b) (e : ℕ) :
    l.filter (key · < e + 1) = l.filter (key · < e) ++ l.filter (key · = e) := by
  induction l with
  | nil => rfl
  | cons a l ih =>
      obtain ⟨ha, hl⟩ := List.pairwise_cons.mp hl
      have ih := ih hl
      rcases Nat.lt_trichotomy (key a) e with hlt | heq | hgt
      · have hne : key a ≠ e := Nat.ne_of_lt hlt
        simp only [List.filter_cons, Nat.lt_succ_of_lt hlt, hlt, hne, decide_true, decide_false,
          if_true, Bool.false_eq_true, if_false, ih, List.cons_append]
      · -- no later entry is below the key of `a`
        have hnone : l.filter (key · < e) = [] := by
          rw [List.filter_eq_nil_iff]
          intro b hb
          have hab := ha b hb
          simp only [decide_eq_true_eq]
          omega
        rw [hnone, List.nil_append] at ih
        simp only [List.filter_cons, heq, Nat.lt_succ_self, Nat.lt_irrefl, decide_true,
          decide_false, if_true, Bool.false_eq_true, if_false, hnone, ih, List.nil_append]
      · have hnone : ∀ p : ℕ → Bool, (∀ k, p k = true → k ≤ e) →
            (a :: l).filter (fun b => p (key b)) = [] := by
          intro p hp
          rw [List.filter_eq_nil_iff]
          intro b hb htrue
          have hle := hp _ htrue
          rcases List.mem_cons.mp hb with rfl | hb
          · omega
          · have hab := ha b hb
            omega
        rw [hnone (fun k => decide (k < e + 1)), hnone (fun k => decide (k < e)),
          hnone (fun k => decide (k = e))]
        · rfl
        all_goals
          intro k hk
          have hk := of_decide_eq_true hk
          omega

/-- A sorted list is the concatenation of its groups. -/
theorem flatten_groups {l : List α} (hl : l.Pairwise fun a b => key a ≤ key b) (e : ℕ) :
    ((List.range e).map fun k => l.filter (key · = k)).flatten = l.filter (key · < e) := by
  induction e with
  | zero => simp
  | succ e ih =>
      rw [List.range_succ, List.map_append, List.flatten_append, ih, filter_lt_succ hl]
      simp

end Sorted

/-! ## Cutting at sizes -/

section Split

variable {α β : Type}

/-- `torch.split` without its check of the sizes. -/
def splitSizes : List ℕ → List α → List (List α)
  | [], _ => []
  | n :: ns, l => l.take n :: splitSizes ns (l.drop n)

theorem length_splitSizes (ns : List ℕ) (l : List α) :
    (splitSizes ns l).length = ns.length := by
  induction ns generalizing l with
  | nil => rfl
  | cons n ns ih => rw [splitSizes, List.length_cons, List.length_cons, ih]

/-- Sizes that fill a list fill it behind the first group. -/
theorem sum_rest {n : ℕ} {ns : List ℕ} {l : List α} (h : (n :: ns).sum = l.length) :
    n ≤ l.length ∧ ns.sum = (l.drop n).length := by
  rw [List.sum_cons] at h
  refine ⟨h ▸ Nat.le_add_right _ _, ?_⟩
  rw [List.length_drop, ← h, Nat.add_sub_cancel_left]

theorem length_of_mem_splitSizes {ns : List ℕ} {l : List α} (h : ns.sum = l.length) :
    (splitSizes ns l).map List.length = ns := by
  induction ns generalizing l with
  | nil => rfl
  | cons n ns ih =>
      obtain ⟨hle, hrest⟩ := sum_rest h
      rw [splitSizes, List.map_cons, ih hrest, List.length_take, Nat.min_eq_left hle]

theorem splitSizes_flatten (ls : List (List α)) :
    splitSizes (ls.map List.length) ls.flatten = ls := by
  induction ls with
  | nil => rfl
  | cons l ls ih =>
      rw [List.map_cons, List.flatten_cons, splitSizes, List.take_left, List.drop_left, ih]

theorem flatten_splitSizes {ns : List ℕ} {l : List α} (h : ns.sum = l.length) :
    (splitSizes ns l).flatten = l := by
  induction ns generalizing l with
  | nil => exact (List.length_eq_zero_iff.mp h.symm).symm
  | cons n ns ih =>
      rw [splitSizes, List.flatten_cons, ih (sum_rest h).2, List.take_append_drop]

/-- A list is the concatenation of groups of given sizes. -/
theorem exists_groups {E : ℕ} {sizes : Fin E → ℕ} {l : List α}
    (h : (List.ofFn sizes).sum = l.length) :
    ∃ groups : Fin E → List α, ((List.finRange E).map groups).flatten = l ∧
      ∀ e, (groups e).length = sizes e := by
  have hlen : (splitSizes (List.ofFn sizes) l).length = E :=
    (length_splitSizes _ _).trans List.length_ofFn
  refine ⟨fun e => (splitSizes (List.ofFn sizes) l).get (e.cast hlen.symm), ?_, ?_⟩
  · have hsplit : (List.finRange E).map
        (fun e => (splitSizes (List.ofFn sizes) l).get (e.cast hlen.symm)) =
          splitSizes (List.ofFn sizes) l := by
      apply List.ext_getElem
      · rw [List.length_map, List.length_finRange, hlen]
      · intro i hi hi'
        simp
    rw [hsplit, flatten_splitSizes h]
  · intro e
    have hsizes := congrArg (·[(e : ℕ)]?) (length_of_mem_splitSizes h)
    simpa [hlen] using hsizes

/-- Each key as often as its size says. -/
def repeatKeys (keys : List β) (sizes : List ℕ) : List β :=
  (List.zipWith List.replicate sizes keys).flatten

theorem map_repeatKeys {γ : Type} (f : β → γ) (keys : List β) (sizes : List ℕ) :
    (repeatKeys keys sizes).map f = repeatKeys (keys.map f) sizes := by
  rw [repeatKeys, List.map_flatten, List.map_zipWith, repeatKeys, List.zipWith_map_right]
  simp only [List.map_replicate]

theorem zipWith_replicate {γ : Type} (f : β → α → γ) (b : β) (l : List α) :
    List.zipWith f (List.replicate l.length b) l = l.map (f b) := by
  induction l with
  | nil => rfl
  | cons a l ih =>
      rw [List.length_cons, List.replicate_succ, List.zipWith_cons_cons, ih, List.map_cons]

/-- Working entry by entry with repeated keys is working group by group. -/
theorem zipWith_repeatKeys {γ : Type} (f : β → α → γ) {keys : List β} {sizes : List ℕ}
    (hkeys : keys.length = sizes.length) {l : List α} (hl : sizes.sum = l.length) :
    List.zipWith f (repeatKeys keys sizes) l =
      (List.zipWith (fun b group => group.map (f b)) keys (splitSizes sizes l)).flatten := by
  induction sizes generalizing keys l with
  | nil => simp [repeatKeys, splitSizes]
  | cons n ns ih =>
      obtain ⟨b, keys, rfl⟩ := List.exists_cons_of_length_eq_add_one hkeys
      rw [List.sum_cons] at hl
      have htake : (l.take n).length = n := by
        rw [List.length_take, Nat.min_eq_left (by omega)]
      have hrest : ns.sum = (l.drop n).length := by
        rw [List.length_drop]
        omega
      have hfirst := zipWith_replicate f b (l.take n)
      rw [htake] at hfirst
      have hsplit : List.zipWith f (repeatKeys (b :: keys) (n :: ns)) l =
          List.zipWith f (List.replicate n b ++ repeatKeys keys ns) (l.take n ++ l.drop n) := by
        rw [List.take_append_drop]
        rfl
      rw [hsplit, List.zipWith_append (by rw [List.length_replicate, htake]), hfirst,
        ih (Nat.succ_injective hkeys) hrest]
      rfl

theorem ofFn_sizes {E : ℕ} {sizes : Fin E → ℕ} {groups : Fin E → List α}
    (h : ∀ e, (groups e).length = sizes e) :
    List.ofFn sizes = ((List.finRange E).map groups).map List.length := by
  rw [List.ofFn_eq_map, List.map_map]
  exact List.map_congr_left fun e _ => (h e).symm

theorem splitSizes_groups {E : ℕ} {sizes : Fin E → ℕ} {groups : Fin E → List α}
    (h : ∀ e, (groups e).length = sizes e) :
    splitSizes (List.ofFn sizes) ((List.finRange E).map groups).flatten =
      (List.finRange E).map groups := by
  rw [ofFn_sizes h, splitSizes_flatten]

/-- Entry by entry with the key of each is group by group. -/
theorem zipWith_repeatKeys_groups {γ : Type} {E : ℕ} (f : Fin E → α → γ) {sizes : Fin E → ℕ}
    {groups : Fin E → List α} (h : ∀ e, (groups e).length = sizes e) :
    List.zipWith f (repeatKeys (List.finRange E) (List.ofFn sizes))
        ((List.finRange E).map groups).flatten =
      ((List.finRange E).map fun e => (groups e).map (f e)).flatten := by
  have hkeys : (List.finRange E).length = (List.ofFn sizes).length := by
    rw [List.length_finRange, List.length_ofFn]
  have hsum : (List.ofFn sizes).sum = ((List.finRange E).map groups).flatten.length := by
    rw [ofFn_sizes h, List.length_flatten]
  rw [zipWith_repeatKeys f hkeys hsum, splitSizes_groups h, List.zipWith_map_right,
    List.zipWith_self]

theorem length_repeatKeys {keys : List β} {sizes : List ℕ} (hkeys : keys.length = sizes.length) :
    (repeatKeys keys sizes).length = sizes.sum := by
  induction sizes generalizing keys with
  | nil => simp [repeatKeys]
  | cons n ns ih =>
      obtain ⟨b, keys, rfl⟩ := List.exists_cons_of_length_eq_add_one hkeys
      have hrest := ih (Nat.succ_injective hkeys)
      rw [repeatKeys] at hrest ⊢
      rw [List.zipWith_cons_cons, List.flatten_cons, List.length_append, List.length_replicate,
        List.sum_cons, hrest]

end Split

/-! ## Adding into places -/

section Scatter

variable {ι M : Type} [DecidableEq ι] [AddCommMonoid M]

/-- `torch.scatter_add_` and `torch.index_add_`, with places that exist. -/
def scatterAdd (acc : ι → M) (entries : List (ι × M)) : ι → M :=
  entries.foldl (fun acc p => Function.update acc p.1 (acc p.1 + p.2)) acc

theorem scatterAdd_apply (acc : ι → M) (entries : List (ι × M)) (i : ι) :
    scatterAdd acc entries i = acc i + (entries.map fun p => if p.1 = i then p.2 else 0).sum := by
  induction entries generalizing acc with
  | nil => exact (add_zero _).symm
  | cons p entries ih =>
      rw [scatterAdd, List.foldl_cons, ← scatterAdd, ih, List.map_cons, List.sum_cons, ← add_assoc]
      by_cases hp : p.1 = i
      · rw [← hp, Function.update_self, if_pos rfl]
      · rw [Function.update_of_ne (Ne.symm hp), if_neg hp, add_zero]

end Scatter

/-! ## The keys, from where the groups start -/

section Starts

/-- `torch.cumsum`, from a sum so far. -/
def runningSums {M : Type} [Add M] : M → List M → List M
  | _, [] => []
  | s, a :: l => (s + a) :: runningSums (s + a) l

/-- Where each group starts. -/
def groupStarts : ℕ → List ℕ → List ℕ
  | _, [] => []
  | s, n :: sizes => s :: groupStarts (s + n) sizes

theorem runningSums_sub (s : ℕ) (sizes : List ℕ) :
    List.zipWith (· - ·) (runningSums s sizes) sizes = groupStarts s sizes := by
  induction sizes generalizing s with
  | nil => rfl
  | cons n sizes ih =>
      rw [runningSums, List.zipWith_cons_cons, ih, Nat.add_sub_cancel, groupStarts]

theorem mem_groupStarts {s : ℕ} {sizes : List ℕ} {start : ℕ} (h : start ∈ groupStarts s sizes) :
    s ≤ start ∧ start ≤ s + sizes.sum := by
  induction sizes generalizing s with
  | nil => exact absurd h List.not_mem_nil
  | cons n sizes ih =>
      rw [List.sum_cons]
      rcases List.mem_cons.mp h with rfl | h
      · omega
      · obtain ⟨hlow, hhigh⟩ := ih h
        omega

/-- A place belongs to the group before which as many groups have started as
have started up to the place. -/
theorem countP_groupStarts (s c : ℕ) (sizes : List ℕ) :
    ((List.range' s sizes.sum).map fun t => c + (groupStarts s sizes).countP (· ≤ t)) =
      repeatKeys (List.range' (c + 1) sizes.length) sizes := by
  induction sizes generalizing s c with
  | nil => rfl
  | cons n sizes ih =>
      have hhere :
          ((List.range' s n).map fun t => c + (groupStarts s (n :: sizes)).countP (· ≤ t)) =
            List.replicate n (c + 1) := by
        rw [List.eq_replicate_iff]
        refine ⟨by rw [List.length_map, List.length_range'], ?_⟩
        rintro _ hmem
        obtain ⟨t, ht, rfl⟩ := List.mem_map.mp hmem
        obtain ⟨hlow, hhigh⟩ := List.mem_range'_1.mp ht
        have hlater : (groupStarts (s + n) sizes).countP (· ≤ t) = 0 := by
          rw [List.countP_eq_zero]
          intro start hstart
          have hge := (mem_groupStarts hstart).1
          rw [decide_eq_true_eq]
          omega
        rw [groupStarts, List.countP_cons, if_pos (decide_eq_true hlow), hlater]
      have hlater : ((List.range' (s + n) sizes.sum).map fun t =>
            c + (groupStarts s (n :: sizes)).countP (· ≤ t)) =
          repeatKeys (List.range' (c + 1 + 1) sizes.length) sizes := by
        rw [← ih (s + n) (c + 1)]
        apply List.map_congr_left
        intro t ht
        have hlow : s ≤ t := le_trans (Nat.le_add_right s n) (List.mem_range'_1.mp ht).1
        rw [groupStarts, List.countP_cons, if_pos (decide_eq_true hlow)]
        omega
      rw [List.sum_cons, ← List.range'_append_1, List.map_append, hhere, hlater,
        List.length_cons, List.range'_succ]
      rfl

theorem countP_lt_add_countP_eq (l : List ℕ) (a : ℕ) :
    l.countP (· < a) + l.countP (· = a) = l.countP (· ≤ a) := by
  induction l with
  | nil => rfl
  | cons b l ih =>
      simp only [List.countP_cons, decide_eq_true_eq]
      rcases Nat.lt_trichotomy b a with hlt | heq | hgt
      · rw [if_pos hlt, if_neg (Nat.ne_of_lt hlt), if_pos (Nat.le_of_lt hlt)]
        omega
      · rw [if_neg (heq ▸ Nat.lt_irrefl b), if_pos heq, if_pos (Nat.le_of_eq heq)]
        omega
      · rw [if_neg (Nat.not_lt_of_gt hgt), if_neg (Nat.ne_of_gt hgt),
          if_neg (Nat.not_le_of_gt hgt)]
        omega

/-- Adding one at each start and summing up counts the starts so far. -/
theorem runningSums_countP (starts : List ℕ) (a n : ℕ) :
    runningSums (starts.countP (· < a) : ℤ)
        ((List.range' a n).map fun i => (starts.countP (· = i) : ℤ)) =
      (List.range' a n).map fun t => (starts.countP (· ≤ t) : ℤ) := by
  induction n generalizing a with
  | zero => rfl
  | succ n ih =>
      have hnext : starts.countP (· < a + 1) = starts.countP (· ≤ a) := by
        simp only [Nat.lt_succ_iff]
      have ih := ih (a + 1)
      rw [hnext] at ih
      rw [List.range'_succ, List.map_cons, List.map_cons, runningSums, ← Nat.cast_add,
        countP_lt_add_countP_eq, ih]

/-- The keys found back from the sizes of the groups. -/
theorem keys_from_starts (sizes : List ℕ) :
    (runningSums 0 ((List.range sizes.sum).map fun i =>
        ((groupStarts 0 sizes).countP (· = i) : ℤ))).map (· - 1) =
      repeatKeys ((List.range sizes.length).map Nat.cast) sizes := by
  have hnone : (groupStarts 0 sizes).countP (· < 0) = 0 := by
    rw [List.countP_eq_zero]
    intro start _
    simp
  have hsums := runningSums_countP (groupStarts 0 sizes) 0 sizes.sum
  rw [hnone, Nat.cast_zero] at hsums
  have hkeys := congrArg (List.map fun n : ℕ => (n : ℤ) - 1) (countP_groupStarts 0 0 sizes)
  rw [List.map_map, map_repeatKeys] at hkeys
  rw [List.range_eq_range', hsums, List.map_map]
  calc _ = repeatKeys ((List.range' (0 + 1) sizes.length).map fun n : ℕ => (n : ℤ) - 1) sizes := by
        rw [← hkeys]
        apply List.map_congr_left
        intro t _
        simp only [Function.comp_apply, Nat.zero_add]
    _ = _ := by
        have hshift := List.map_add_range' (a := 1) 0 sizes.length 1
        rw [Nat.add_zero] at hshift
        rw [Nat.zero_add, List.range_eq_range', ← hshift, List.map_map]
        congr 1
        apply List.map_congr_left
        intro e _
        simp only [Function.comp_apply]
        omega

end Starts

end P2PRdt.Lib

import Mathlib.Data.List.Basic
import Mathlib.Tactic.Ring

/-!
# Fallible passes over lists

`mapM` in `Option` position by position, and the rule for a fallible loop over an
enumerated list: an invariant indexed by the position is carried to the end.
-/

namespace P2PRdt.Lib

section Lookup

variable {α : Type}

theorem getElem?_of_mapM {β : Type} {l : List α} {f : α → Option β} {out : List β}
    (h : l.mapM f = some out) (i : ℕ) : out[i]? = (l[i]?).bind f := by
  induction l generalizing out i with
  | nil =>
      obtain rfl : [] = out := by simpa using h
      rfl
  | cons a l ih =>
      simp only [List.mapM_cons, Option.bind_eq_bind, Option.pure_def, Option.bind_eq_some_iff,
        Option.some_inj] at h
      rcases h with ⟨b, hb, rest, hrest, rfl⟩
      cases i with
      | zero => exact hb.symm
      | succ i => exact ih hrest i

/-- A pass that succeeds everywhere is a `map`. -/
theorem mapM_eq_map {β : Type} {l : List α} {f : α → Option β} {g : α → β}
    (h : ∀ a ∈ l, f a = some (g a)) : l.mapM f = some (l.map g) := by
  induction l with
  | nil => rfl
  | cons a l ih =>
      rw [List.mapM_cons, h a List.mem_cons_self, ih fun b hb => h b (List.mem_cons_of_mem a hb)]
      rfl

theorem mapM_eq_of_map_eq {β : Type} {l : List α} {f : α → Option β} {out : List β}
    (h : l.map f = out.map some) : l.mapM f = some out := by
  induction l generalizing out with
  | nil =>
      obtain rfl : out = [] := List.map_eq_nil_iff.mp h.symm
      rfl
  | cons a l ih =>
      obtain ⟨b, rest, rfl, hb, hrest⟩ := List.map_eq_cons_iff.mp h.symm
      rw [List.mapM_cons, ← hb, ih hrest.symm]
      rfl

theorem length_of_mapM {β : Type} {l : List α} {f : α → Option β} {out : List β}
    (h : l.mapM f = some out) : out.length = l.length := by
  induction l generalizing out with
  | nil =>
      obtain rfl : [] = out := by simpa using h
      rfl
  | cons a l ih =>
      simp only [List.mapM_cons, Option.bind_eq_bind, Option.pure_def, Option.bind_eq_some_iff,
        Option.some_inj] at h
      rcases h with ⟨b, -, rest, hrest, rfl⟩
      rw [List.length_cons, List.length_cons, ih hrest]

/-- A pass that fails somewhere fails. -/
theorem mapM_eq_none {β : Type} {l : List α} {f : α → Option β} {a : α} (ha : a ∈ l)
    (h : f a = none) : l.mapM f = none := by
  cases hout : l.mapM f with
  | none => rfl
  | some out =>
      obtain ⟨i, hi, rfl⟩ := List.getElem_of_mem ha
      have hlen := length_of_mapM hout
      have hnone := getElem?_of_mapM hout i
      rw [List.getElem?_eq_getElem hi, Option.bind_some, h, List.getElem?_eq_none_iff] at hnone
      omega

theorem exists_mapM {β : Type} {l : List α} {f : α → Option β} (h : ∀ a ∈ l, ∃ b, f a = some b) :
    ∃ out, l.mapM f = some out := by
  induction l with
  | nil => exact ⟨[], rfl⟩
  | cons a l ih =>
      obtain ⟨b, hb⟩ := h a List.mem_cons_self
      obtain ⟨out, hout⟩ := ih fun c hc => h c (List.mem_cons_of_mem a hc)
      exact ⟨b :: out, by simp [hb, hout]⟩

end Lookup

section Loop

variable {α β : Type*}

theorem foldlM_zipIdx_from {l : List α} {f : β → α × ℕ → Option β} {P : ℕ → β → Prop} {n : ℕ}
    (hstep : ∀ i a x, l[i]? = some a → P (n + i) x → ∃ y, f x (a, n + i) = some y ∧ P (n + i + 1) y)
    {x : β} (hx : P n x) :
    ∃ y, (l.zipIdx n).foldlM f x = some y ∧ P (n + l.length) y := by
  induction l generalizing n x with
  | nil => exact ⟨x, rfl, hx⟩
  | cons a l ih =>
      obtain ⟨y, hy, hPy⟩ := hstep 0 a x rfl hx
      have hnext : ∀ i b z, l[i]? = some b → P (n + 1 + i) z →
          ∃ w, f z (b, n + 1 + i) = some w ∧ P (n + 1 + i + 1) w := by
        intro i b z hb hz
        have hshift : n + 1 + i = n + (i + 1) := by ring
        rw [hshift] at hz ⊢
        exact hstep (i + 1) b z hb hz
      obtain ⟨z, hz, hPz⟩ := ih hnext hPy
      refine ⟨z, ?_, ?_⟩
      · rw [List.zipIdx_cons, List.foldlM_cons]
        exact (congrArg (· >>= fun s => (l.zipIdx (n + 1)).foldlM f s) hy).trans hz
      · rwa [List.length_cons, Nat.add_comm l.length 1, ← Nat.add_assoc]

/-- **Loop rule.** `P i` holds before iteration `i`; when every iteration
succeeds and keeps it, the loop succeeds and `P` holds at the end. -/
theorem foldlM_zipIdx {l : List α} {f : β → α × ℕ → Option β} {P : ℕ → β → Prop}
    (hstep : ∀ i a x, l[i]? = some a → P i x → ∃ y, f x (a, i) = some y ∧ P (i + 1) y)
    {x : β} (hx : P 0 x) : ∃ y, l.zipIdx.foldlM f x = some y ∧ P l.length y := by
  have h := foldlM_zipIdx_from (l := l) (f := f) (P := P) (n := 0) (x := x)
    (by simpa only [Nat.zero_add] using hstep) hx
  simpa only [Nat.zero_add] using h

theorem bind_rel {γ : Type*} {R : β → β → Prop} {a : Option γ} {f g : γ → Option β}
    (h : ∀ x, Option.Rel R (f x) (g x)) : Option.Rel R (a.bind f) (a.bind g) := by
  cases a with
  | none => exact .none
  | some x => exact h x

/-- Two runs of a loop that stay related: both stop, or neither does. -/
theorem foldlM_rel {R : β → β → Prop} {f g : β → α → Option β} {l : List α}
    (h : ∀ a x y, R x y → Option.Rel R (f x a) (g y a)) {x y : β} (hxy : R x y) :
    Option.Rel R (l.foldlM f x) (l.foldlM g y) := by
  induction l generalizing x y with
  | nil => exact .some hxy
  | cons a l ih =>
      have hstep := h a x y hxy
      rw [List.foldlM_cons, List.foldlM_cons]
      generalize f x a = next, g y a = next' at hstep ⊢
      cases hstep with
      | some hnext => exact ih hnext
      | none => exact .none

end Loop

end P2PRdt.Lib

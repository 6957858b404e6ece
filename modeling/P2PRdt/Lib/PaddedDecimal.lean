import Mathlib.Data.Char
import Mathlib.Data.List.Lex
import Mathlib.Tactic.Ring

/-!
# Decimals with leading zeros

A number that is written with leading zeros up to a width is read back as it
was. Numbers that fit into the width are ordered as texts as they are as
numbers, also between a common beginning and a common end; names that count
steps can then be sorted. A number too large for the width is not padded, and
its text may stand before that of a smaller one.
-/

namespace P2PRdt.Lib

open Nat (ofDigitChars toDigits)

/-- The number in decimal digits, with zeros in front up to `width`. -/
def zeroPadded (width n : ℕ) : List Char :=
  List.replicate (width - (toDigits 10 n).length) '0' ++ toDigits 10 n

variable {width m n : ℕ}

/-- Leading zeros are lost in reading. -/
theorem ofDigitChars_zeroPadded (width n : ℕ) : ofDigitChars 10 (zeroPadded width n) 0 = n := by
  rw [zeroPadded, Nat.ofDigitChars_append, Nat.ofDigitChars_replicate_zero, Nat.mul_zero,
    Nat.ofDigitChars_toDigits (by decide) le_rfl]

theorem isDigit_of_mem_zeroPadded {c : Char} (h : c ∈ zeroPadded width n) : c.isDigit = true := by
  rcases List.mem_append.mp h with hzero | hdigit
  · rw [List.eq_of_mem_replicate hzero]
    rfl
  · exact Nat.isDigit_of_mem_toDigits (by decide) le_rfl hdigit

theorem length_zeroPadded (hwidth : 0 < width) (hn : n < 10 ^ width) :
    (zeroPadded width n).length = width := by
  have hle := (Nat.length_toDigits_le_iff (by decide) hwidth).mpr hn
  rw [zeroPadded, List.length_append, List.length_replicate, Nat.sub_add_cancel hle]

/-! ## Order of texts and order of numbers -/

theorem digitValue_lt {c : Char} (h : c.isDigit = true) : c.toNat - '0'.toNat < 10 := by
  simp only [Char.isDigit, Bool.and_eq_true, decide_eq_true_eq] at h
  have hle : c.toNat ≤ 57 := h.2
  show c.toNat - 48 < 10
  omega

theorem ofDigitChars_lt {l : List Char} (h : ∀ c ∈ l, c.isDigit = true) :
    ofDigitChars 10 l 0 < 10 ^ l.length := by
  induction l with
  | nil => exact Nat.one_pos
  | cons c l ih =>
      have hrest := ih fun d hd => h d (List.mem_cons_of_mem c hd)
      have hfirst := digitValue_lt (h c List.mem_cons_self)
      rw [Nat.ofDigitChars_cons, Nat.ofDigitChars_eq_ofDigitChars_zero, Nat.mul_zero, Nat.zero_add,
        List.length_cons, Nat.pow_succ]
      calc
        10 ^ l.length * (c.toNat - '0'.toNat) + ofDigitChars 10 l 0
          < 10 ^ l.length * (c.toNat - '0'.toNat) + 10 ^ l.length := Nat.add_lt_add_left hrest _
        _ = 10 ^ l.length * (c.toNat - '0'.toNat + 1) := (Nat.mul_succ _ _).symm
        _ ≤ 10 ^ l.length * 10 := Nat.mul_le_mul_left _ hfirst

/-- Of digits of one length, the smaller text is the smaller number. -/
theorem ofDigitChars_lt_of_lt {l l' : List Char} (hl : ∀ c ∈ l, c.isDigit = true)
    (hl' : ∀ c ∈ l', c.isDigit = true) (hlen : l.length = l'.length) (h : l < l') :
    ofDigitChars 10 l 0 < ofDigitChars 10 l' 0 := by
  induction l generalizing l' with
  | nil =>
      rw [List.eq_nil_of_length_eq_zero hlen.symm] at h
      exact absurd h (lt_irrefl _)
  | cons c l ih =>
      cases l' with
      | nil => exact absurd h (List.not_lt_nil _)
      | cons c' l' =>
          have hlen' : l.length = l'.length := Nat.succ.inj hlen
          have hrest := fun d hd => hl d (List.mem_cons_of_mem c hd)
          have hrest' := fun d hd => hl' d (List.mem_cons_of_mem c' hd)
          rw [Nat.ofDigitChars_cons, Nat.ofDigitChars_cons, Nat.ofDigitChars_eq_ofDigitChars_zero,
            Nat.ofDigitChars_eq_ofDigitChars_zero (l := l'), Nat.mul_zero, Nat.zero_add,
            Nat.zero_add, hlen']
          rcases List.cons_lt_cons_iff.mp h with hfirst | ⟨rfl, hlt⟩
          · -- a larger first digit outweighs all that follow
            have hdigit : c.toNat < c'.toNat := hfirst
            have hlow : '0'.toNat ≤ c.toNat := by
              have hc := hl c List.mem_cons_self
              simp only [Char.isDigit, Bool.and_eq_true, decide_eq_true_eq] at hc
              exact hc.1
            have hval : c.toNat - '0'.toNat + 1 ≤ c'.toNat - '0'.toNat := by omega
            have hbound := ofDigitChars_lt hrest
            rw [hlen'] at hbound
            calc
              10 ^ l'.length * (c.toNat - '0'.toNat) + ofDigitChars 10 l 0
                < 10 ^ l'.length * (c.toNat - '0'.toNat) + 10 ^ l'.length :=
                  Nat.add_lt_add_left hbound _
              _ = 10 ^ l'.length * (c.toNat - '0'.toNat + 1) := (Nat.mul_succ _ _).symm
              _ ≤ 10 ^ l'.length * (c'.toNat - '0'.toNat) := Nat.mul_le_mul_left _ hval
              _ ≤ _ := Nat.le_add_right _ _
          · exact Nat.add_lt_add_left (ih hrest hrest' hlen' hlt) _

/-- **Padded numbers sort as numbers**, as long as they fit into the width. -/
theorem zeroPadded_lt_iff (hwidth : 0 < width) (hm : m < 10 ^ width) (hn : n < 10 ^ width) :
    zeroPadded width m < zeroPadded width n ↔ m < n := by
  have hmono : ∀ {m n : ℕ}, m < 10 ^ width → n < 10 ^ width →
      zeroPadded width m < zeroPadded width n → m < n := by
    intro m n hm hn h
    have hlt := ofDigitChars_lt_of_lt (fun _ => isDigit_of_mem_zeroPadded)
      (fun _ => isDigit_of_mem_zeroPadded)
      ((length_zeroPadded hwidth hm).trans (length_zeroPadded hwidth hn).symm) h
    rwa [ofDigitChars_zeroPadded, ofDigitChars_zeroPadded] at hlt
  refine ⟨hmono hm hn, ?_⟩
  intro hlt
  rcases lt_trichotomy (zeroPadded width m) (zeroPadded width n) with h | h | h
  · exact h
  · have heq := congrArg (ofDigitChars 10 · 0) h
    simp only [ofDigitChars_zeroPadded] at heq
    exact absurd heq hlt.ne
  · exact absurd (hmono hn hm h) hlt.not_gt

/-- Texts of one length between a common beginning and a common end. -/
theorem append_lt_append_iff (front : List Char) {l l' : List Char} (back : List Char)
    (hlen : l.length = l'.length) : front ++ l ++ back < front ++ l' ++ back ↔ l < l' := by
  have hback : ∀ {l l' : List Char}, l.length = l'.length → (l ++ back < l' ++ back ↔ l < l') := by
    intro l
    induction l with
    | nil =>
        intro l' hlen
        rw [List.eq_nil_of_length_eq_zero hlen.symm]
        exact iff_of_false (lt_irrefl _) (lt_irrefl _)
    | cons c l ih =>
        intro l' hlen
        cases l' with
        | nil => cases hlen
        | cons c' l' =>
            rw [List.cons_append, List.cons_append, List.cons_lt_cons_iff, List.cons_lt_cons_iff,
              ih (Nat.succ.inj hlen)]
  rw [List.append_assoc, List.append_assoc]
  induction front with
  | nil => exact hback hlen
  | cons c front ih =>
      rw [List.cons_append, List.cons_append, List.cons_lt_cons_self]
      exact ih

end P2PRdt.Lib

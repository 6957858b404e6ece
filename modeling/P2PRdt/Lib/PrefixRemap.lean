import Mathlib.Data.List.Basic
import Mathlib.Data.List.Infix

/-!
# Remapping prefixes

A key gets the target of the first source prefix it has in place of that prefix.
When every target extends its source and no target is a prefix of another one, a
key that is not remapped cannot look like one that is, and two keys never meet.
-/

namespace P2PRdt.Lib

variable {α : Type} [BEq α] [LawfulBEq α]

def remapFirst (remaps : List (List α × List α)) (key : List α) : List α :=
  match remaps.find? fun r => r.1.isPrefixOf key with
  | some r => r.2 ++ key.drop r.1.length
  | none => key

structure Separated (remaps : List (List α × List α)) : Prop where
  extend : ∀ r ∈ remaps, r.1 <+: r.2
  apart : ∀ r ∈ remaps, ∀ r' ∈ remaps, r.2 <+: r'.2 → r = r'

variable {remaps : List (List α × List α)}

theorem remapFirst_cases (remaps : List (List α × List α)) (key : List α) :
    (∃ r ∈ remaps, ∃ rest, key = r.1 ++ rest ∧ remapFirst remaps key = r.2 ++ rest) ∨
      (∀ r ∈ remaps, ¬ r.1 <+: key) ∧ remapFirst remaps key = key := by
  unfold remapFirst
  cases hfind : remaps.find? fun r => r.1.isPrefixOf key with
  | some r =>
      have hmatch : r.1.isPrefixOf key = true := by simpa using List.find?_some hfind
      obtain ⟨rest, rfl⟩ := List.isPrefixOf_iff_prefix.mp hmatch
      refine .inl ⟨r, List.mem_of_find?_eq_some hfind, rest, rfl, ?_⟩
      exact congrArg (r.2 ++ ·) List.drop_left
  | none =>
      refine .inr ⟨?_, rfl⟩
      intro r hr hpre
      exact List.find?_eq_none.mp hfind r hr (List.isPrefixOf_iff_prefix.mpr hpre)

omit [BEq α] [LawfulBEq α] in
/-- A key that looks remapped has been remapped. -/
theorem not_startsWith_target (h : Separated remaps) {key : List α}
    (hkey : ∀ r ∈ remaps, ¬ r.1 <+: key) {r : List α × List α} (hr : r ∈ remaps) :
    ¬ r.2 <+: key :=
  fun hpre => hkey r hr ((h.extend r hr).trans hpre)

theorem remapFirst_injective (h : Separated remaps) : Function.Injective (remapFirst remaps) := by
  intro key key' heq
  rcases remapFirst_cases remaps key with ⟨r, hr, rest, hkey, hmap⟩ | ⟨hkey, hmap⟩
  · rcases remapFirst_cases remaps key' with ⟨r', hr', rest', hkey', hmap'⟩ | ⟨hkey', hmap'⟩
    · rw [hmap, hmap'] at heq
      have hsame : r = r' := by
        rcases List.prefix_or_prefix_of_prefix (List.prefix_append r.2 rest)
          (heq ▸ List.prefix_append r'.2 rest') with hle | hle
        · exact h.apart r hr r' hr' hle
        · exact (h.apart r' hr' r hr hle).symm
      subst hsame
      rw [hkey, hkey', List.append_cancel_left heq]
    · rw [hmap, hmap'] at heq
      exact absurd ⟨rest, heq⟩ (not_startsWith_target h hkey' hr)
  · rcases remapFirst_cases remaps key' with ⟨r', hr', rest', hkey', hmap'⟩ | ⟨hkey', hmap'⟩
    · rw [hmap, hmap'] at heq
      exact absurd ⟨rest', heq.symm⟩ (not_startsWith_target h hkey hr')
    · rwa [hmap, hmap'] at heq

/-- A prefix that is apart from every target is only found on keys that keep their
name. -/
theorem prefix_of_prefix_remapFirst {p key : List α}
    (hp : ∀ r ∈ remaps, ¬ p <+: r.2 ∧ ¬ r.2 <+: p) (h : p <+: remapFirst remaps key) :
    p <+: key := by
  rcases remapFirst_cases remaps key with ⟨r, hr, rest, -, hmap⟩ | ⟨-, hmap⟩
  · rw [hmap] at h
    rcases List.prefix_or_prefix_of_prefix h (List.prefix_append r.2 rest) with hle | hle
    · exact absurd hle (hp r hr).1
    · exact absurd hle (hp r hr).2
  · rwa [hmap] at h

theorem eq_of_remapFirst_eq {name key : List α} (hname : ∀ r ∈ remaps, ¬ r.2 <+: name)
    (h : remapFirst remaps key = name) : key = name := by
  rcases remapFirst_cases remaps key with ⟨r, hr, rest, -, hmap⟩ | ⟨-, hmap⟩
  · exact absurd ⟨rest, hmap.symm.trans h⟩ (hname r hr)
  · exact hmap.symm.trans h

end P2PRdt.Lib

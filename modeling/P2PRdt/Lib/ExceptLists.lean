import Mathlib.Data.List.Forall2

/-!
# Fallible passes that say why they failed

`mapM` in `Except`, entry by entry, and three passes over a list of which the
second and the third take up the results of the one before.
-/

namespace P2PRdt.Lib

variable {α β γ ε : Type}

theorem mapM_eq_ok_iff {f : α → Except ε β} {l : List α} {out : List β} :
    l.mapM f = .ok out ↔ List.Forall₂ (fun a b => f a = .ok b) l out := by
  induction l generalizing out with
  | nil =>
      rw [List.mapM_nil, List.forall₂_nil_left_iff]
      exact ⟨fun h => (Except.ok.inj h).symm, fun h => congrArg Except.ok h.symm⟩
  | cons a l ih =>
      rw [List.mapM_cons, List.forall₂_cons_left_iff]
      constructor
      · intro h
        cases ha : f a with
        | error e =>
            rw [ha] at h
            cases h
        | ok b =>
            cases hl : l.mapM f with
            | error e =>
                rw [ha, hl] at h
                cases h
            | ok rest =>
                rw [ha, hl] at h
                exact ⟨b, rest, rfl, ih.mp hl, (Except.ok.inj h).symm⟩
      · rintro ⟨b, rest, hb, hrest, rfl⟩
        rw [hb, ih.mpr hrest]
        rfl

/-- One entry that fails makes the pass fail. -/
theorem mapM_error_of_mem {f : α → Except ε β} {l : List α} {a : α} (ha : a ∈ l)
    (h : ∃ e, f a = .error e) : ∃ e, l.mapM f = .error e := by
  rcases h with ⟨e, he⟩
  cases hmap : l.mapM f with
  | error e' => exact ⟨e', rfl⟩
  | ok out =>
      obtain ⟨b, hb⟩ : ∃ b, f a = .ok b := by
        have hall := mapM_eq_ok_iff.mp hmap
        clear hmap
        induction hall with
        | nil => exact absurd ha List.not_mem_nil
        | cons hb _ ih =>
            rcases List.mem_cons.mp ha with rfl | hmem
            · exact ⟨_, hb⟩
            · exact ih hmem
      rw [he] at hb
      cases hb

/-- Three passes over a list are three passes over every entry. -/
theorem forall₂_passes {P : α → β → Prop} {Q : β → γ → Prop} {R : α → γ → Prop} {l : List α} :
    (∃ m k, List.Forall₂ P l m ∧ List.Forall₂ Q m k ∧ List.Forall₂ R l k) ↔
      ∀ a ∈ l, ∃ b c, P a b ∧ Q b c ∧ R a c := by
  induction l with
  | nil => exact ⟨fun _ a ha => absurd ha List.not_mem_nil, fun _ => ⟨[], [], .nil, .nil, .nil⟩⟩
  | cons a l ih =>
      constructor
      · rintro ⟨m, k, hP, hQ, hR⟩
        cases hP with
        | cons hPa hPl =>
            cases hQ with
            | cons hQa hQl =>
                cases hR with
                | cons hRa hRl =>
                    intro a' ha'
                    rcases List.mem_cons.mp ha' with rfl | hmem
                    · exact ⟨_, _, hPa, hQa, hRa⟩
                    · exact ih.mp ⟨_, _, hPl, hQl, hRl⟩ a' hmem
      · intro h
        obtain ⟨b, c, hPa, hQa, hRa⟩ := h a List.mem_cons_self
        obtain ⟨m, k, hPl, hQl, hRl⟩ := ih.mpr fun a' ha' => h a' (List.mem_cons_of_mem a ha')
        exact ⟨b :: m, c :: k, .cons hPa hPl, .cons hQa hQl, .cons hRa hRl⟩

end P2PRdt.Lib

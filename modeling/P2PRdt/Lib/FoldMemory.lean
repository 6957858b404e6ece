import Mathlib.Data.List.Induction

/-!
# What a fold remembers of its list

Each element of a list is seen through `vis` only. `foldl_eq_of_map_eq` says
when a fold knows no more than what is seen, and `map_eq_of_chain_eq` when a
function of a growing list forgets none of it: its value after one more element
gives back the value before and what was seen of the element.
-/

namespace P2PRdt.Lib

variable {σ α β γ : Type*} {vis : α → γ}

theorem foldl_eq_of_map_eq {step : σ → α → σ} {I : σ → Prop}
    (hI : ∀ s a, I s → I (step s a))
    (hstep : ∀ s a b, I s → vis a = vis b → step s a = step s b) :
    ∀ {l l' : List α} {s : σ}, I s → l.map vis = l'.map vis → l.foldl step s = l'.foldl step s
  | [], [], _, _, _ => rfl
  | [], _ :: _, _, _, h => by cases h
  | _ :: _, [], _, _, h => by cases h
  | a :: l, b :: l', s, hs, h => by
      rw [List.map_cons, List.map_cons, List.cons.injEq] at h
      rw [List.foldl_cons, List.foldl_cons, ← hstep s a b hs h.1]
      exact foldl_eq_of_map_eq hI hstep (hI s a hs) h.2

theorem map_eq_of_chain_eq {f : List α → β} {S : α → Prop}
    (hne : ∀ l a, f (l ++ [a]) ≠ f [])
    (hback : ∀ {l l' a b}, S a → S b → f (l ++ [a]) = f (l' ++ [b]) → f l = f l' ∧ vis a = vis b)
    {l l' : List α} (hl : ∀ a ∈ l, S a) (hl' : ∀ a ∈ l', S a) (h : f l = f l') :
    l.map vis = l'.map vis := by
  induction l using List.reverseRecOn generalizing l' with
  | nil =>
      cases l' using List.reverseRecOn with
      | nil => rfl
      | append_singleton l' b => exact absurd h.symm (hne l' b)
  | append_singleton l a ih =>
      cases l' using List.reverseRecOn with
      | nil => exact absurd h (hne l a)
      | append_singleton l' b =>
          have ha : S a := hl a (List.mem_append_right _ (List.mem_singleton_self a))
          have hb : S b := hl' b (List.mem_append_right _ (List.mem_singleton_self b))
          obtain ⟨hrest, hvis⟩ := hback ha hb h
          have hmap := ih (fun c hc => hl c (List.mem_append_left _ hc))
            (fun c hc => hl' c (List.mem_append_left _ hc)) hrest
          simp only [List.map_append, List.map_cons, List.map_nil, hmap, hvis]

end P2PRdt.Lib

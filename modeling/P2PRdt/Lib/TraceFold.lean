import Mathlib.Data.List.Basic

/-!
# Runs that leave a trace

A fallible step takes a state and an input to the next state and an entry of the
trace. When every step from a state with the invariant succeeds, keeps the
invariant and makes an entry that follows a law, whole runs succeed and every
entry of their trace follows the law behind the entries before it.
-/

namespace P2PRdt.Lib

variable {S I E : Type}

/-- A step that puts its entry at the end of the trace. -/
def traced (step : S → I → Option (S × E)) (st : S × List E) (i : I) : Option (S × List E) :=
  (step st.1 i).map fun (s, e) => (s, st.2 ++ [e])

def tracedRun (step : S → I → Option (S × E)) (s : S) (inputs : List I) : Option (S × List E) :=
  inputs.foldlM (traced step) (s, [])

variable {step : S → I → Option (S × E)} {Inv : S → List E → Prop} {Law : List E → I → E → Prop}

/-- The inputs from a state with entries behind it. -/
theorem foldlM_traced {s : S} {entries : List E} {inputs : List I} (hinv : Inv s entries)
    (hstep : ∀ s entries, ∀ i ∈ inputs, Inv s entries →
      ∃ s' e, step s i = some (s', e) ∧ Inv s' (entries ++ [e]) ∧ Law entries i e) :
    ∃ s' entries', inputs.foldlM (traced step) (s, entries) = some (s', entries ++ entries') ∧
      Inv s' (entries ++ entries') ∧ entries'.length = inputs.length ∧
      ∀ (k : ℕ) i e, inputs[k]? = some i → entries'[k]? = some e →
        Law (entries ++ entries'.take k) i e := by
  induction inputs generalizing s entries with
  | nil =>
      refine ⟨s, [], by rw [List.append_nil]; rfl, by rwa [List.append_nil], rfl, ?_⟩
      rintro k i e ⟨⟩
  | cons i inputs ih =>
      obtain ⟨s₁, e, hs, hinv₁, hlaw⟩ := hstep s entries i List.mem_cons_self hinv
      obtain ⟨s', entries', hrun, hinv', hlen, hlaws⟩ :=
        ih hinv₁ fun s entries j hj => hstep s entries j (List.mem_cons_of_mem i hj)
      rw [List.append_assoc, List.singleton_append] at hrun hinv'
      refine ⟨s', e :: entries', ?_, hinv', by rw [List.length_cons, List.length_cons, hlen], ?_⟩
      · rw [List.foldlM_cons, traced, hs]
        exact hrun
      · rintro (_ | k) j f hj hf
        · obtain rfl := Option.some_inj.mp hj
          obtain rfl := Option.some_inj.mp hf
          rwa [List.take_zero, List.append_nil]
        · have hk := hlaws k j f hj hf
          rwa [List.append_assoc, List.singleton_append] at hk

/-- **Runs and their traces.** -/
theorem tracedRun_law {s : S} {inputs : List I} (hinv : Inv s [])
    (hstep : ∀ s entries, ∀ i ∈ inputs, Inv s entries →
      ∃ s' e, step s i = some (s', e) ∧ Inv s' (entries ++ [e]) ∧ Law entries i e) :
    ∃ s' entries, tracedRun step s inputs = some (s', entries) ∧ Inv s' entries ∧
      entries.length = inputs.length ∧
      ∀ (k : ℕ) i e, inputs[k]? = some i → entries[k]? = some e → Law (entries.take k) i e :=
  foldlM_traced hinv hstep

end P2PRdt.Lib

import Mathlib.Data.List.Basic
import Mathlib.Data.List.Dedup
import Mathlib.Data.List.Induction
import Mathlib.Data.List.Pairwise

/-!
# The latest entry of each key

Of the entries of a log with the same key the last one is kept, in the order of
the log. What is appended takes the place of the earlier entries of its keys.
-/

namespace P2PRdt.Lib

variable {α κ : Type} [DecidableEq κ] {key : α → κ}

/-- The entries without a later one of the same key. -/
def latestBy (key : α → κ) (log : List α) : List α := log.pwFilter fun a b => key a ≠ key b

theorem latestBy_sublist (log : List α) : (latestBy key log).Sublist log :=
  List.pwFilter_sublist log

theorem mem_of_mem_latestBy {log : List α} {a : α} (h : a ∈ latestBy key log) : a ∈ log :=
  (latestBy_sublist log).mem h

/-- There is one entry for each key. -/
theorem eq_of_mem_latestBy {log : List α} {a b : α} (ha : a ∈ latestBy key log)
    (hb : b ∈ latestBy key log) (hkey : key a = key b) : a = b := by
  have hsymm : Std.Symm fun a b : α => key a ≠ key b := ⟨fun _ _ h => h.symm⟩
  have hdistinct : (latestBy key log).Pairwise fun a b => key a ≠ key b :=
    List.pairwise_pwFilter log
  by_contra hne
  exact hdistinct.forall ha hb hne hkey

theorem exists_latestBy {log : List α} {a : α} (h : a ∈ log) :
    ∃ b ∈ latestBy key log, key b = key a := by
  by_contra hnone
  have hne : ∀ b ∈ latestBy key log, key a ≠ key b := fun b hb hkey => hnone ⟨b, hb, hkey.symm⟩
  have hall := (List.forall_mem_pwFilter (R := fun a b : α => key a ≠ key b) (fun {x y z} hxz => by
    by_contra hboth
    push Not at hboth
    exact hxz (hboth.1.trans hboth.2)) a log).mp hne
  exact hall a h rfl

theorem latestBy_cons_of_notMem {log : List α} {a : α} (h : key a ∉ log.map key) :
    latestBy key (a :: log) = a :: latestBy key log := by
  apply List.pwFilter_cons_of_pos
  intro b hb hkey
  exact h (hkey ▸ List.mem_map_of_mem (mem_of_mem_latestBy hb))

theorem latestBy_cons_of_mem {log : List α} {a : α} (h : key a ∈ log.map key) :
    latestBy key (a :: log) = latestBy key log := by
  apply List.pwFilter_cons_of_neg
  intro hall
  obtain ⟨b, hb, hkey⟩ := List.mem_map.mp h
  obtain ⟨c, hc, hkey'⟩ : ∃ c ∈ latestBy key log, key c = key b := exists_latestBy hb
  exact hall c hc (hkey'.trans hkey).symm

/-- What is appended replaces the entries of its keys. -/
theorem latestBy_append (log later : List α) :
    latestBy key (log ++ later) =
      (latestBy key log).filter (fun a => key a ∉ later.map key) ++ latestBy key later := by
  induction log with
  | nil => rfl
  | cons a log ih =>
      rw [List.cons_append]
      by_cases hlog : key a ∈ log.map key
      · have hboth : key a ∈ (log ++ later).map key := by
          rw [List.map_append]
          exact List.mem_append_left _ hlog
        rw [latestBy_cons_of_mem hboth, latestBy_cons_of_mem hlog, ih]
      · rw [latestBy_cons_of_notMem hlog, List.filter_cons]
        by_cases hlater : key a ∈ later.map key
        · have hboth : key a ∈ (log ++ later).map key := by
            rw [List.map_append]
            exact List.mem_append_right _ hlater
          simp only [hlater, not_true, decide_false, Bool.false_eq_true, if_false]
          rw [latestBy_cons_of_mem hboth, ih]
        · have hboth : key a ∉ (log ++ later).map key := by
            rw [List.map_append, List.mem_append]
            exact fun h => h.elim hlog hlater
          simp only [hlater, not_false_eq_true, decide_true, if_true]
          rw [latestBy_cons_of_notMem hboth, ih, List.cons_append]

theorem latestBy_concat (log : List α) (a : α) :
    latestBy key (log ++ [a]) = (latestBy key log).filter (fun b => key b ≠ key a) ++ [a] := by
  have hlast : latestBy key [a] = [a] := latestBy_cons_of_notMem List.not_mem_nil
  rw [latestBy_append, hlast]
  simp only [List.map_cons, List.map_nil, List.mem_singleton]

theorem getLast?_latestBy (log : List α) : (latestBy key log).getLast? = log.getLast? := by
  cases log using List.reverseRecOn with
  | nil => rfl
  | append_singleton log a => rw [latestBy_concat, List.getLast?_concat, List.getLast?_concat]

end P2PRdt.Lib

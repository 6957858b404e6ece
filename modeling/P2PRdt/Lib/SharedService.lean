import Mathlib.Data.List.Basic
import Mathlib.Data.List.Induction

/-!
# Services that several users share

A service answers a request and moves to another state. The log of a shared
service lists the requests of all users in the order in which they were served.
A user whose requests come last, one behind the other, is answered as if alone;
after a request that makes the service forget, as if the service were new.
-/

namespace P2PRdt.Lib

variable {S Req Ans ι : Type*} (call : S → Req → Ans × S)

/-- The answers to the requests, each served in the state that the one before left. -/
def answers (s : S) : List Req → List Ans
  | [] => []
  | r :: reqs => (call s r).1 :: answers (call s r).2 reqs

/-- The state that the requests leave. -/
def stateAfter (s : S) (reqs : List Req) : S := reqs.foldl (fun s r => (call s r).2) s

@[simp] theorem length_answers (s : S) (reqs : List Req) :
    (answers call s reqs).length = reqs.length := by
  induction reqs generalizing s with
  | nil => rfl
  | cons r reqs ih => rw [answers, List.length_cons, List.length_cons, ih]

theorem stateAfter_append (s : S) (reqs reqs' : List Req) :
    stateAfter call s (reqs ++ reqs') = stateAfter call (stateAfter call s reqs) reqs' :=
  List.foldl_append

theorem answers_append (s : S) (reqs reqs' : List Req) :
    answers call s (reqs ++ reqs') =
      answers call s reqs ++ answers call (stateAfter call s reqs) reqs' := by
  induction reqs generalizing s with
  | nil => rfl
  | cons r reqs ih =>
      rw [List.cons_append, answers, answers, ih]
      rfl

theorem getElem?_answers (s : S) (reqs : List Req) (k : ℕ) :
    (answers call s reqs)[k]? =
      (reqs[k]?).map fun r => (call (stateAfter call s (reqs.take k)) r).1 := by
  induction reqs generalizing s k with
  | nil => rfl
  | cons r reqs ih =>
      cases k with
      | zero => rfl
      | succ k =>
          rw [answers, List.getElem?_cons_succ, List.getElem?_cons_succ, ih]
          rfl

/-- What holds of the state at first and is kept by every call holds after any calls. -/
theorem stateAfter_invariant {I : S → Prop} (hcall : ∀ s r, I s → I (call s r).2) {s : S}
    (hs : I s) (reqs : List Req) : I (stateAfter call s reqs) := by
  induction reqs generalizing s with
  | nil => exact hs
  | cons r reqs ih => exact ih (hcall s r hs)

/-! ## Logs -/

section Logs

variable [DecidableEq ι] (i : ι)

/-- The requests of user `i` in a log. -/
def requestsOf (log : List (ι × Req)) : List Req :=
  (log.filter fun e => e.1 = i).map Prod.snd

/-- The answers that user `i` gets. -/
def answersTo (s : S) : List (ι × Req) → List Ans
  | [] => []
  | (j, r) :: log =>
      if j = i then (call s r).1 :: answersTo (call s r).2 log else answersTo (call s r).2 log

theorem requestsOf_cons_self (r : Req) (log : List (ι × Req)) :
    requestsOf i ((i, r) :: log) = r :: requestsOf i log := by
  simp [requestsOf]

theorem requestsOf_cons_of_ne {i j : ι} (h : j ≠ i) (r : Req) (log : List (ι × Req)) :
    requestsOf i ((j, r) :: log) = requestsOf i log := by
  simp [requestsOf, h]

theorem requestsOf_concat_self (log : List (ι × Req)) (r : Req) :
    requestsOf i (log ++ [(i, r)]) = requestsOf i log ++ [r] := by
  simp [requestsOf]

theorem requestsOf_concat_of_ne {i j : ι} (h : j ≠ i) (log : List (ι × Req)) (r : Req) :
    requestsOf i (log ++ [(j, r)]) = requestsOf i log := by
  simp [requestsOf, h]

@[simp] theorem length_answersTo (s : S) (log : List (ι × Req)) :
    (answersTo call i s log).length = (requestsOf i log).length := by
  induction log generalizing s with
  | nil => rfl
  | cons e log ih =>
      rcases e with ⟨j, r⟩
      by_cases hj : j = i
      · subst hj
        rw [answersTo, if_pos rfl, requestsOf_cons_self, List.length_cons, List.length_cons, ih]
      · rw [answersTo, if_neg hj, requestsOf_cons_of_ne hj, ih]

theorem answersTo_append (s : S) (log log' : List (ι × Req)) :
    answersTo call i s (log ++ log') =
      answersTo call i s log ++
        answersTo call i (stateAfter call s (log.map Prod.snd)) log' := by
  induction log generalizing s with
  | nil => rfl
  | cons e log ih =>
      rcases e with ⟨j, r⟩
      by_cases hj : j = i
      · rw [List.cons_append, answersTo, answersTo, if_pos hj, if_pos hj, ih]
        rfl
      · rw [List.cons_append, answersTo, answersTo, if_neg hj, if_neg hj, ih]
        rfl

theorem answersTo_concat_self (s : S) (log : List (ι × Req)) (r : Req) :
    answersTo call i s (log ++ [(i, r)]) =
      answersTo call i s log ++ [(call (stateAfter call s (log.map Prod.snd)) r).1] := by
  rw [answersTo_append, answersTo, if_pos rfl, answersTo]

theorem answersTo_concat_of_ne {i j : ι} (h : j ≠ i) (s : S) (log : List (ι × Req)) (r : Req) :
    answersTo call i s (log ++ [(j, r)]) = answersTo call i s log := by
  rw [answersTo_append, answersTo, if_neg h, answersTo, List.append_nil]

end Logs

/-- What stands at a place of a prefix stands there in the whole list. -/
theorem getElem?_of_prefix {α : Type*} {l l' : List α} (h : l <+: l') {k : ℕ} {a : α}
    (hk : l[k]? = some a) : l'[k]? = some a := by
  obtain ⟨hlt, rfl⟩ := List.getElem?_eq_some_iff.mp hk
  exact List.prefix_iff_getElem?.mp h k hlt

/-! ## Requests that forget -/

/-- The request is answered alike in all states with `I`, and leaves the same state. -/
def Forgets (I : S → Prop) (r : Req) : Prop := ∀ s t, I s → I t → call s r = call t r

variable {call}

/-- From a forgetful request on, all answers to any user are those of another state. -/
theorem Forgets.answersTo_eq [DecidableEq ι] {I : S → Prop} {r : Req} (hr : Forgets call I r)
    {s t : S} (hs : I s) (ht : I t) (i j : ι) (log : List (ι × Req)) :
    answersTo call i s ((j, r) :: log) = answersTo call i t ((j, r) :: log) := by
  rw [answersTo, answersTo, hr s t hs ht]

end P2PRdt.Lib

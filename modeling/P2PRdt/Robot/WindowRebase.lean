import P2PRdt.Robot.Dataset

/-!
# One rebase for training and serving

The dataset rebases a window in the used channels only; the server denormalizes
whole rows and writes the rebased values back into them. On a window of valid
rows the two are the same function.
-/

namespace P2PRdt.Robot

open Lib Quaternion

section

variable {K : Type} [Field K] [LinearOrder K] [IsStrictOrderedRing K] {E : Elementary K}
  (hE : IsSqrt E.sqrt)

include hE in
/-- The dataset omits the last normalization, which does nothing. -/
theorem rebaseArm_eq (c r : Pose K) : rebaseArm E c r = rebaseRelativePose E c r := by
  ext1
  · rfl
  · exact (poseFromAnchor_quat hE c r).symm
  · rfl

namespace ActionLayout

variable (A : ActionLayout K)

omit [LinearOrder K] [IsStrictOrderedRing K] in
theorem ofArray_denormalizeUsed (row : A.Row) :
    Compact.ofArray (A.denormalizeUsed row) = A.decode row := rfl

omit [LinearOrder K] [IsStrictOrderedRing K] in
theorem writeUsed_used (row : A.Row) (c : Compact (Pose K)) (i : Fin 16) :
    A.writeUsed row c (A.usedActionChannelIds i) = A.normalizeUsed c.toArray i :=
  scatter_id A.used_injective i

omit [LinearOrder K] [IsStrictOrderedRing K] in
theorem writeUsed_unused {ch : Fin A.robotActionDim} (hch : A.Unused ch) (row : A.Row)
    (c : Compact (Pose K)) : A.writeUsed row c ch = row ch :=
  scatter_of_notMem hch

/-- One row: rebased in the used channels, or as a whole. -/
theorem writeUsed_rebase (anchor : Compact (Pose K)) (row : A.Row) :
    A.writeUsed row (rebaseCompactRelativeAction E (A.decode row) anchor) =
      A.rebaseRow E anchor row := by
  funext ch
  by_cases hch : A.Unused ch
  · rw [A.writeUsed_unused hch, A.rebaseRow_unused E anchor row hch]
  · obtain ⟨i, rfl⟩ := not_not.mp hch
    rw [writeUsed_used, rebaseRow_used]
    rfl

/-- Writing back what was read changes nothing. -/
theorem writeUsed_decode (row : A.Row) : A.writeUsed row (A.decode row) = row := by
  funext ch
  by_cases hch : A.Unused ch
  · exact A.writeUsed_unused hch row _
  · obtain ⟨i, rfl⟩ := not_not.mp hch
    rw [writeUsed_used, ← ofArray_denormalizeUsed, Compact.toArray_ofArray]
    exact congrFun (A.normalize_denormalize row) _

include hE in
theorem zipWith_writeUsed (front back : List A.Row) (anchor : Compact (Pose K)) :
    List.zipWith A.writeUsed (front ++ back) (front.map A.decode ++
      rebaseCompactActionSequence E (back.map A.decode) anchor) =
      front ++ back.map (A.rebaseRow E anchor) := by
  have harm : ∀ c : Compact (Pose K),
      c.map₂ (rebaseArm E) anchor = rebaseCompactRelativeAction E c anchor := by
    intro c
    exact Compact.ext (rebaseArm_eq hE _ _) (rebaseArm_eq hE _ _)
  have hlen : front.length = (front.map A.decode).length := by rw [List.length_map]
  rw [List.zipWith_append hlen, rebaseCompactActionSequence, List.map_map, List.zipWith_map_right,
    List.zipWith_map_right, List.zipWith_self, List.zipWith_self]
  congr 1
  · apply List.map_id''
    exact A.writeUsed_decode
  · apply List.map_congr_left
    intro row _
    rw [Function.comp_apply, harm, writeUsed_rebase]

include hE in
/-- The rows from the first valid one on are rebased to it. -/
theorem rebaseItem_eq {item : ActionItem A} {i : ℕ} (hi : (A.validMask item).findIdx? id = some i)
    {row : A.Row} (hrow : item.actionAnnotations[i]? = some row) :
    A.rebaseItemActionsToSliceStart E item = some { item with
      actionAnnotations := item.actionAnnotations.take i ++
        (item.actionAnnotations.drop i).map (A.rebaseRow E (A.decode row)) } := by
  have hcompact : (item.actionAnnotations.map A.decode)[i]? = some (A.decode row) := by
    rw [List.getElem?_map, hrow, Option.map_some]
  have hwrite := A.zipWith_writeUsed hE (item.actionAnnotations.take i)
    (item.actionAnnotations.drop i) (A.decode row)
  rw [List.take_append_drop, List.map_take, List.map_drop] at hwrite
  simp only [rebaseItemActionsToSliceStart, hi, ofArray_denormalizeUsed, hcompact,
    Option.bind_eq_bind, Option.bind_some, Option.pure_def, hwrite]

/-- Every row of the item is valid. -/
def AllValid {A : ActionLayout K} (item : ActionItem A) : Prop :=
  A.validMask item = List.replicate item.actionAnnotations.length true

include hE in
/-- **The dataset's rebase is the server's.** On a window of valid rows,
rebasing to the slice start and rebasing to the first row of the history agree
on every channel, and the unused channels do not change. -/
theorem rebaseItem_eq_rebaseNormalizedActions {item : ActionItem A} (hvalid : AllValid item)
    {first : A.Row} (hfirst : item.actionAnnotations.head? = some first) :
    ∃ rows, A.rebaseItemActionsToSliceStart E item =
        some { item with actionAnnotations := rows } ∧
      A.rebaseNormalizedActions E item.actionAnnotations first = some rows ∧
      rows.length = item.actionAnnotations.length ∧
      ∀ ch, A.Unused ch → rows.map (· ch) = item.actionAnnotations.map (· ch) := by
  rcases item with ⟨X, user, valid⟩
  obtain ⟨rest, rfl⟩ : ∃ rest, X = first :: rest := List.head?_eq_some_iff.mp hfirst
  have hidx : (A.validMask ⟨first :: rest, user, valid⟩).findIdx? id = some 0 := by
    rw [hvalid]
    rfl
  refine ⟨(first :: rest).map (A.rebaseRow E (A.decode first)), ?_, rfl, List.length_map _, ?_⟩
  · exact A.rebaseItem_eq hE hidx rfl
  · intro ch hch
    rw [List.map_map]
    apply List.map_congr_left
    intro row _
    exact A.rebaseRow_unused E _ row hch

end ActionLayout

end

namespace ActionLayout

theorem rebaseItem_eq_rebaseNormalizedActions_twoRows :
    ∃ rows, (oneSpare ℝ).rebaseItemActionsToSliceStart realElementary
        ⟨[fun _ => 1, fun _ => 0], [true, true], none⟩ = some ⟨rows, [true, true], none⟩ ∧
      (oneSpare ℝ).rebaseNormalizedActions realElementary [fun _ => 1, fun _ => 0] (fun _ => 1) =
        some rows ∧ rows.map (· (spareChannel ℝ)) = [1, 0] := by
  have hvalid : AllValid (A := oneSpare ℝ) ⟨[fun _ => 1, fun _ => 0], [true, true], none⟩ := rfl
  obtain ⟨rows, hitem, hserver, -, hrest⟩ :=
    (oneSpare ℝ).rebaseItem_eq_rebaseNormalizedActions isSqrt_realElementary hvalid rfl
  exact ⟨rows, hitem, hserver, hrest _ (unused_spareChannel ℝ)⟩

end ActionLayout

end P2PRdt.Robot

import P2PRdt.Policy.CausalTransformer

/-!
# The receptive field of the policy transformer

A layer with history length `h` looks back `h` steps and not ahead, so the
layers together look back the sum of their history lengths. The sinks are open
to every query; they carry no token.
-/

namespace P2PRdt.Policy

open Lib

namespace PolicyConfig

variable (cfg : PolicyConfig)

/-- The step of a position. -/
def stepOf (p : ℕ) : ℕ := p / cfg.stepSize

/-- The key indices below the sinks fall into negative steps; `isSink` alone
lets them through. -/
theorem layerMask_sink (h q : ℕ) {kv : ℕ} (hkv : kv < cfg.nKvSinkTokens) :
    cfg.layerMask h q kv = true := by
  have hsink : (kv : ℤ) < cfg.nKvSinkTokens := Int.ofNat_lt.mpr hkv
  simp only [layerMask, imgPolicyCausalMask, hsink, decide_true, Bool.true_or]

theorem layerMask_window {h q p : ℕ} (hmask : cfg.layerMask h q (cfg.nKvSinkTokens + p) = true) :
    InWindow cfg.stepOf h (cfg.stepOf q) p := by
  obtain ⟨hhistory, ⟨hlt, -⟩ | ⟨heq, -⟩⟩ := (cfg.layerMask_token h q p).mp hmask
  · exact ⟨hlt.le, hhistory⟩
  · exact ⟨heq.le, hhistory⟩

end PolicyConfig

variable {cfg : PolicyConfig} {V KV : Type}

theorem AttentionLayer.sees_window (l : AttentionLayer cfg V KV) {q p : ℕ}
    (hsees : l.masked.Sees q p) :
    InWindow cfg.stepOf l.attentionHistoryLen (cfg.stepOf q) p := by
  rw [MaskedLayer.Sees, masked, List.length_ofFn] at hsees
  exact cfg.layerMask_window hsees

/-- `Transformer.forward` on a sequence of tokens. -/
def transformerForward (layers : List (AttentionLayer cfg V KV)) (x : List V) : List V :=
  runAll (layers.map AttentionLayer.masked) x

/-- How many steps the layers look back together. -/
def totalHistory (layers : List (AttentionLayer cfg V KV)) : ℕ :=
  (layers.map AttentionLayer.attentionHistoryLen).sum

theorem forall₂_window (layers : List (AttentionLayer cfg V KV)) :
    List.Forall₂ (fun l h => ∀ q p, l.Sees q p → InWindow cfg.stepOf h (cfg.stepOf q) p)
      (layers.map AttentionLayer.masked) (layers.map AttentionLayer.attentionHistoryLen) := by
  rw [List.forall₂_map_left_iff, List.forall₂_map_right_iff, List.forall₂_same]
  intro l _ q p hsees
  exact l.sees_window hsees

/-- **Receptive field.** The tokens of step `t` come out the same for two inputs
that agree on the steps from `t` back to `totalHistory` before it; a query of a
layer sees all sinks, and no token of a step before its history. -/
theorem transformer_receptiveField (layers : List (AttentionLayer cfg V KV)) :
    (∀ (t : Fin cfg.nSteps) (x x' : List V),
      x.length = cfg.nSteps * cfg.stepSize → x'.length = cfg.nSteps * cfg.stepSize →
      (∀ s : Fin cfg.nSteps, t ≤ s + totalHistory layers → s ≤ t → ∀ j < cfg.stepSize,
        x[s * cfg.stepSize + j]? = x'[s * cfg.stepSize + j]?) →
      ∀ j < cfg.stepSize,
        ((transformerForward layers x)[t * cfg.stepSize + j]?).isSome ∧
        (transformerForward layers x)[t * cfg.stepSize + j]? =
          (transformerForward layers x')[t * cfg.stepSize + j]?) ∧
    ∀ l ∈ layers, ∀ q,
      (∀ kv < cfg.nKvSinkTokens, l.masked.mask q kv = true) ∧
      ∀ p, cfg.stepOf p + l.attentionHistoryLen < cfg.stepOf q →
        l.masked.mask q (cfg.nKvSinkTokens + p) = false := by
  constructor
  · intro t x x' hx hx' hagree j hj
    have hin : AgreeOn (InWindow cfg.stepOf (totalHistory layers) t) x x' := by
      refine ⟨hx.trans hx'.symm, ?_⟩
      rintro p ⟨hle, hge⟩
      have hp := hagree ⟨cfg.stepOf p, hle.trans_lt t.isLt⟩ hge hle (p % cfg.stepSize)
        (Nat.mod_lt p cfg.stepSize_pos)
      have hsplit : cfg.stepOf p * cfg.stepSize + p % cfg.stepSize = p := by
        rw [PolicyConfig.stepOf, Nat.mul_comm, Nat.div_add_mod]
      rwa [hsplit] at hp
    have hout := runAll_window (forall₂_window layers) hin
    have hrow : cfg.stepOf (t * cfg.stepSize + j) = t := cfg.row_div t hj
    constructor
    · have hlt : t * cfg.stepSize + j < cfg.nSteps * cfg.stepSize := by
        calc
          t * cfg.stepSize + j < t * cfg.stepSize + cfg.stepSize := Nat.add_lt_add_left hj _
          _ = (t + 1) * cfg.stepSize := (Nat.succ_mul t cfg.stepSize).symm
          _ ≤ cfg.nSteps * cfg.stepSize := Nat.mul_le_mul_right _ t.isLt
      rw [List.getElem?_eq_getElem (by rw [transformerForward, length_runAll, hx]; exact hlt)]
      rfl
    · exact hout.2 _ ⟨hrow.le, hrow.ge⟩
  · intro l _ q
    constructor
    · intro kv hkv
      exact cfg.layerMask_sink l.attentionHistoryLen q hkv
    · intro p hbefore
      by_contra hopen
      have hwindow := cfg.layerMask_window (Bool.eq_true_of_not_eq_false hopen)
      exact hbefore.not_ge hwindow.2

section OwnStep

/-- A layer that adds up what a token sees, with history length `h`. -/
def summingLayer (h : ℕ) : AttentionLayer twoSteps ℤ ℤ :=
  { attentionHistoryLen := h, sinks := fun _ => 5, project := fun _ v => v,
    update := fun _ v view => v + (view.map (·.getD 0)).sum }

/-- The first step holds `a` in all tokens. -/
def tokensWithFirstStep (a : ℤ) : List ℤ := List.replicate 6 a ++ List.replicate 6 1

/-- With history length zero, the second step sees the sink and not the first
step; with history length one it does see it. -/
theorem transformer_receptiveField_ownStep :
    (transformerForward [summingLayer 0] (tokensWithFirstStep 0))[1 * twoSteps.stepSize + 5]? =
        (transformerForward [summingLayer 0] (tokensWithFirstStep 9))[1 * twoSteps.stepSize + 5]? ∧
      (summingLayer 0).masked.mask 6 0 = true ∧
      (summingLayer 0).masked.mask 6 (twoSteps.nKvSinkTokens + 0) = false ∧
      (transformerForward [summingLayer 1] (tokensWithFirstStep 0))[1 * twoSteps.stepSize + 5]? ≠
        (transformerForward [summingLayer 1]
          (tokensWithFirstStep 9))[1 * twoSteps.stepSize + 5]? := by
  obtain ⟨hout, hmask⟩ := transformer_receptiveField [summingLayer 0]
  obtain ⟨hsink, hstep⟩ := hmask (summingLayer 0) List.mem_cons_self 6
  have hsecond : ∀ s : Fin twoSteps.nSteps,
      ((⟨1, by decide⟩ : Fin twoSteps.nSteps) : ℕ) ≤ s + totalHistory [summingLayer 0] →
      s ≤ ⟨1, by decide⟩ → ∀ j < twoSteps.stepSize,
        (tokensWithFirstStep 0)[s * twoSteps.stepSize + j]? =
          (tokensWithFirstStep 9)[s * twoSteps.stepSize + j]? := by decide
  exact ⟨(hout ⟨1, by decide⟩ (tokensWithFirstStep 0) (tokensWithFirstStep 9) rfl rfl hsecond 5
    (by decide)).2, hsink 0 (by decide), hstep 0 (by decide), by decide +kernel⟩

end OwnStep

end P2PRdt.Policy

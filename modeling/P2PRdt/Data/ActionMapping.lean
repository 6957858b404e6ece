import P2PRdt.Data.KeyMap
import P2PRdt.Data.MouseBins

/-!
# The action mapping

`UniversalAutoregressiveActionMapping`: keys, mouse buttons and mouse motion
to a row of tokens and back. The tensors have a first dimension of 1, which is
left out.
-/

namespace P2PRdt.Data

open Lib

structure UniversalAutoregressiveActionMappingConfig where
  maxKeys : ℕ := 4
  maxMouseKeys : ℕ := 2

/-- An action as tokens (`β` rows of codes, `γ` bins) or as names and motion. -/
structure StructuredAction (β γ : Type) where
  keys : β
  mouseButtons : β
  mouseDeltaX : γ
  mouseDeltaY : γ
deriving DecidableEq, Repr

/-- `mouse_sampling_approach`. The two axes are drawn one after the other. -/
inductive MouseSampling where
  | mean
  | conservative
  | truncatedNormal (drawX drawY : ℚ → ℚ → ℚ)

namespace MouseSampling

def x : MouseSampling → AxisSampling
  | mean => .mean
  | conservative => .conservative
  | truncatedNormal drawX _ => .truncatedNormal drawX

def y : MouseSampling → AxisSampling
  | mean => .mean
  | conservative => .conservative
  | truncatedNormal _ drawY => .truncatedNormal drawY

end MouseSampling

variable (config : UniversalAutoregressiveActionMappingConfig)

def actionToTensor (keys mouseButtons : List String) (mouseDeltaPx : ℤ × ℤ) :
    StructuredAction (List ℕ) ℕ where
  keys := keyboardMap.encode config.maxKeys keys
  mouseButtons := mouseMap.encode config.maxMouseKeys mouseButtons
  mouseDeltaX := mouseX.toBin mouseDeltaPx.1
  mouseDeltaY := mouseY.toBin mouseDeltaPx.2

/-- `none` is an assert, a `KeyError` or an `IndexError`. -/
def tensorToAction (action : StructuredAction (List ℕ) ℕ) (approach : MouseSampling) :
    Option (StructuredAction (List String) ℤ) := do
  let keys ← keyboardMap.decode config.maxKeys action.keys
  let mouseButtons ← mouseMap.decode config.maxMouseKeys action.mouseButtons
  let mouseDeltaX ← mouseX.ofBin approach.x action.mouseDeltaX
  let mouseDeltaY ← mouseY.ofBin approach.y action.mouseDeltaY
  return ⟨keys, mouseButtons, mouseDeltaX, mouseDeltaY⟩

/-- What decoding a row of at most `n` codes says about the names that were
encoded: the names with a code that has fewer than `n` smaller ones, sorted. -/
structure DecodedNames (m : KeyMap) (n : ℕ) (names decoded : List String) : Prop where
  mem_iff : ∀ k, k ∈ decoded ↔ k ∈ names ∧ ∃ c, m.table.code k = some c ∧
    ((m.codes names).filter (· < c)).card < n
  length_le : decoded.length ≤ n
  sorted : decoded.Pairwise (· < ·)

theorem decodedNames_of_encode {m : KeyMap} {names : List String} (hb : m.blank ∉ names)
    (n : ℕ) : ∃ decoded, m.decode n (m.encode n names) = some decoded ∧
      DecodedNames m n names decoded ∧ m.encode n decoded = m.encode n names := by
  obtain ⟨decoded, hdec, hsorted, hmem⟩ := KeyMap.decode_encode hb n
  refine ⟨decoded, hdec, ⟨fun k => ?_, ?_, hsorted⟩, KeyMap.encode_eq hmem⟩
  · exact (hmem k).trans KeyMap.mem_names_iff
  · exact KeyMap.length_le_of_mem_iff hsorted hmem

variable {config}

/-- **Round trip of the action codec.** Decoding an encoded action gives an
action that encodes to the same tensor, its names are the encoded names with
the smallest codes, and the tensor depends only on the set of names that have
a code. -/
theorem actionToTensor_tensorToAction {keys mouseButtons : List String}
    (hkeys : "_no_key" ∉ keys) (hbuttons : "_no_button" ∉ mouseButtons) (d : ℤ × ℤ)
    {approach : MouseSampling} (hx : approach.x.Clamped) (hy : approach.y.Clamped) :
    (∃ a, tensorToAction config (actionToTensor config keys mouseButtons d) approach = some a ∧
      actionToTensor config a.keys a.mouseButtons (a.mouseDeltaX, a.mouseDeltaY) =
        actionToTensor config keys mouseButtons d ∧
      DecodedNames keyboardMap config.maxKeys keys a.keys ∧
      DecodedNames mouseMap config.maxMouseKeys mouseButtons a.mouseButtons) ∧
    ∀ keys' mouseButtons' : List String,
      (∀ k, (keyboardMap.table.code k).isSome → (k ∈ keys ↔ k ∈ keys')) →
      (∀ b, (mouseMap.table.code b).isSome → (b ∈ mouseButtons ↔ b ∈ mouseButtons')) →
      actionToTensor config keys mouseButtons d = actionToTensor config keys' mouseButtons' d := by
  constructor
  · obtain ⟨ks, hks, hksNames, hksEnc⟩ := decodedNames_of_encode (m := keyboardMap) hkeys
      config.maxKeys
    obtain ⟨bs, hbs, hbsNames, hbsEnc⟩ := decodedNames_of_encode (m := mouseMap) hbuttons
      config.maxMouseKeys
    obtain ⟨dx, hdx, hdxBin⟩ := mouseX.toBin_ofBin hx (mouseX.toBin_lt d.1)
    obtain ⟨dy, hdy, hdyBin⟩ := mouseY.toBin_ofBin hy (mouseY.toBin_lt d.2)
    refine ⟨⟨ks, bs, dx, dy⟩, ?_, ?_, hksNames, hbsNames⟩
    · simp only [tensorToAction, actionToTensor, hks, hbs, hdx, hdy, Option.bind_eq_bind,
        Option.bind_some]
      rfl
    · simp only [actionToTensor, hksEnc, hbsEnc, hdxBin, hdyBin]
  · intro keys' mouseButtons' hk hb
    simp only [actionToTensor, KeyMap.encode_congr hk, KeyMap.encode_congr hb]

/-- Two mapped keys of three names, and the middle of every bucket. -/
theorem actionToTensor_tensorToAction_wasd :
    ∃ a, tensorToAction {} (actionToTensor {} ["w", "Tab", "a"] ["0"] (-3, 20))
        (.truncatedNormal (fun lb ub => (lb + ub) / 2) fun lb ub => (lb + ub) / 2) = some a ∧
      actionToTensor {} a.keys a.mouseButtons (a.mouseDeltaX, a.mouseDeltaY) =
        actionToTensor {} ["w", "Tab", "a"] ["0"] (-3, 20) := by
  have hclamp : ∀ lb ub : ℚ, lb ≤ ub → lb ≤ (lb + ub) / 2 ∧ (lb + ub) / 2 ≤ ub := by
    intro lb ub h
    constructor <;> linarith
  obtain ⟨⟨a, hdec, henc, -⟩, -⟩ := @actionToTensor_tensorToAction {} ["w", "Tab", "a"] ["0"]
    (by decide) (by decide) (-3, 20) (.truncatedNormal _ _) hclamp hclamp
  exact ⟨a, hdec, henc⟩

end P2PRdt.Data
